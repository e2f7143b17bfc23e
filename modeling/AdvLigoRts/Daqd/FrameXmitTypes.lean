import Mathlib.Algebra.Order.Ring.Int

/-!
# Packets of the frame broadcast

The constants and the packet types of daqd/framexmittypes.hh. A datagram is modelled by the
fields of its header in host byte order (`hton` and `ntoh` undo one another) and by what stands
behind the header. The checksum, which nobody uses, is left out.
-/

namespace AdvLigoRts.Daqd

def packetSize : ℕ := 64000

def maximumRetransmit : ℤ := 200

def rcvpacketbuffersize : ℕ := 1024 * 10

def maxRetry : ℕ := 50

def maxSequenceOutOfSync : ℤ := 500

def pktBroadcast : ℤ := 123

def pktRebroadcast : ℤ := 124

def pktRequestRetransmit : ℤ := 125

def sizeofPacketHeader : ℤ := 32

structure PacketHeader where
  pktType : ℤ
  pktLen : ℤ
  seq : UInt32
  pktNum : ℤ
  pktTotal : ℤ
  timestamp : UInt32
  duration : UInt32
deriving DecidableEq, Repr

/-- `packet`; the payload is the `pktLen` bytes that are sent of it. -/
structure Packet where
  header : PacketHeader
  payload : List UInt8
deriving DecidableEq, Repr

/-- A request for packets to be sent again. -/
structure RetransmitPacket where
  header : PacketHeader
  pktResend : List ℤ
deriving DecidableEq, Repr

/-- The value of type `int` of a sum, difference or product. -/
def int32 (x : ℤ) : ℤ := x.bmod (2 ^ 32)

theorem int32_eq {x : ℤ} (hlow : -2 ^ 31 ≤ x) (hhigh : x < 2 ^ 31) : int32 x = x := by
  rw [int32, Int.bmod_eq_of_le]
  · omega
  · omega

end AdvLigoRts.Daqd
