import AdvLigoRts.RunNumber.RunNumber

/-!
# Run numbers over any history

A saved line is read back as the number and the hash it was made of, provided the hash has no
hexadecimal letter: `hex_char_to_nibble` takes `'a'` to 0, not to 10.
-/

namespace AdvLigoRts.RunNumber

open PvLib

/-! ## Hexadecimal -/

theorem hexCharToNibble_lookup : ∀ n < 16,
    hexCharToNibble (lookup n) = if n ≤ 9 then n else n - 10 := by decide

theorem isSpace_lookup : ∀ n < 16, isSpace (lookup n) = false := by decide

theorem nibbles_eq : ∀ hi < 16, ∀ lo < 16, (hi <<< 4) ||| (lo &&& 0xf) = 16 * hi + lo := by
  decide

theorem hexCharToNibble_le (ch : Char) : hexCharToNibble ch ≤ 9 := by
  unfold hexCharToNibble
  split
  · next h =>
    have h9 : ch.toNat ≤ '9'.toNat := h.2
    have : '9'.toNat - '0'.toNat = 9 := by decide
    omega
  split
  · next h =>
    have hf : ch.toNat ≤ 'f'.toNat := h.2
    have : 'f'.toNat - 'a'.toNat = 5 := by decide
    omega
  split
  · next h =>
    have hf : ch.toNat ≤ 'F'.toNat := h.2
    have : 'F'.toNat - 'A'.toNat = 5 := by decide
    omega
  · omega

/-- A hash read from the file has decimal digits only, whatever is in the file. -/
theorem decimalHex_hexToBinStr (input : List Char) : DecimalHex (hexToBinStr input) := by
  induction input using hexToBinStr.induct with
  | case1 hi lo input ih =>
    have hhi := hexCharToNibble_le hi
    have hlo := hexCharToNibble_le lo
    intro b hb
    rw [hexToBinStr, nibbles_eq _ (by omega) _ (by omega), List.mem_cons] at hb
    rcases hb with rfl | hb
    · rw [UInt8.toNat_ofNat', Nat.mod_eq_of_lt (by omega)]
      omega
    · exact ih b hb
  | case2 input h =>
    intro b hb
    rw [hexToBinStr.eq_2 input h] at hb
    cases hb

/-- A hash is read back from its hexadecimal form just when that has no letter. -/
theorem hexToBinStr_binStrToHex (hash : Hash) :
    hexToBinStr (binStrToHex hash) = hash ↔ DecimalHex hash := by
  constructor
  · intro heq
    rw [← heq]
    exact decimalHex_hexToBinStr _
  · intro hdec
    induction hash with
    | nil => rfl
    | cons b rest ih =>
      obtain ⟨hhi, hlo⟩ := hdec b List.mem_cons_self
      have hb := b.toNat_lt
      have hrest := ih fun x hx => hdec x (List.mem_cons_of_mem b hx)
      have hnhi := hexCharToNibble_lookup (b.toNat / 16 % 16) (by omega)
      have hnlo := hexCharToNibble_lookup (b.toNat % 16) (by omega)
      rw [if_pos (by omega)] at hnhi hnlo
      have hbyte : 16 * (b.toNat / 16 % 16) + b.toNat % 16 = b.toNat := by omega
      simp only [binStrToHex, List.flatMap_cons, List.cons_append, List.nil_append,
        hexToBinStr, hnhi, hnlo, nibbles_eq _ (Nat.mod_lt _ (by decide)) _
        (Nat.mod_lt _ (by decide)), hbyte, UInt8.ofNat_toNat]
      rw [binStrToHex] at hrest
      rw [hrest]

theorem mem_binStrToHex {hash : Hash} {c : Char} (h : c ∈ binStrToHex hash) :
    ∃ n < 16, c = lookup n := by
  simp only [binStrToHex, List.mem_flatMap, List.mem_cons, List.not_mem_nil, or_false] at h
  obtain ⟨b, -, rfl | rfl⟩ := h
  · exact ⟨_, Nat.mod_lt _ (by decide), rfl⟩
  · exact ⟨_, Nat.mod_lt _ (by decide), rfl⟩

theorem binStrToHex_ne_nil {hash : Hash} (h : hash ≠ []) : binStrToHex hash ≠ [] := by
  cases hash with
  | nil => exact absurd rfl h
  | cons b rest => simp [binStrToHex]

/-! ## The database file -/

/-- What `save_state` writes is one line. -/
theorem newline_not_mem_stateLine (state : RunNumberState) (ts : TimeStamp) :
    '\n' ∉ stateLine state ts := by
  intro h
  simp only [stateLine, List.mem_append, List.mem_cons] at h
  rcases h with (hprint | hblank | hhex) | hblank | hts
  · obtain ⟨d, ds, hd, hdigits⟩ := printInt_cases state.value
    rw [printInt, hd] at hprint
    split at hprint
    · rcases List.mem_cons.mp hprint with hminus | hmem
      · exact absurd hminus (by decide)
      · exact absurd (hdigits _ hmem) (by decide)
    · exact absurd (hdigits _ hprint) (by decide)
  · exact absurd hblank (by decide)
  · obtain ⟨n, hn, hc⟩ := mem_binStrToHex hhex
    have := isSpace_lookup n hn
    rw [← hc] at this
    exact absurd this (by decide)
  · exact absurd hblank (by decide)
  · exact ts.one_line hts

/-- `get_state` reads a line that was saved. -/
theorem readLine_stateLine (results state : RunNumberState) (ts : TimeStamp)
    (hrange : -2 ^ 31 ≤ state.value ∧ state.value < 2 ^ 31) (hhash : state.hash ≠ []) :
    readLine results (stateLine state ts)
      = { value := state.value, hash := hexToBinStr (binStrToHex state.hash) } := by
  have hint : takeInt (printInt state.value ++ (' ' :: binStrToHex state.hash ++ ' ' :: ts.text))
      = some (state.value, ' ' :: binStrToHex state.hash ++ ' ' :: ts.text) := by
    apply takeInt_printInt
    intro c hc
    cases hc
    decide
  have hword := takeWord_word (binStrToHex_ne_nil hhash)
    (by
      intro c hc
      obtain ⟨n, hn, rfl⟩ := mem_binStrToHex hc
      exact isSpace_lookup n hn) ts.text
  have hline : stateLine state ts
      = printInt state.value ++ (' ' :: binStrToHex state.hash ++ ' ' :: ts.text) := by
    simp [stateLine]
  simp only [readLine, hline, hint, hword, if_pos hrange]

theorem getState_save {file : List Char} {state : RunNumberState} {ts : TimeStamp}
    (hfile : Complete file) (hrange : -2 ^ 31 ≤ state.value ∧ state.value < 2 ^ 31)
    (hhash : state.hash ≠ []) :
    getState (file ++ stateLine state ts ++ ['\n'])
      = { value := state.value, hash := hexToBinStr (binStrToHex state.hash) } := by
  rw [getState, getlines_append_line hfile (newline_not_mem_stateLine state ts),
    List.foldl_append]
  exact readLine_stateLine _ _ _ hrange hhash

/-- What `get_state` returns can be what an `int` and a read hash are. -/
theorem getState_wf (file : List Char) :
    (-2 ^ 31 ≤ (getState file).value ∧ (getState file).value < 2 ^ 31) ∧
      DecimalHex (getState file).hash := by
  unfold getState
  suffices h : ∀ (lines : List (List Char)) (results : RunNumberState),
      (-2 ^ 31 ≤ results.value ∧ results.value < 2 ^ 31) ∧ DecimalHex results.hash →
      (-2 ^ 31 ≤ (lines.foldl readLine results).value ∧
        (lines.foldl readLine results).value < 2 ^ 31) ∧
      DecimalHex (lines.foldl readLine results).hash by
    exact h _ _ ⟨by decide, fun b hb => by cases hb⟩
  intro lines
  induction lines with
  | nil => exact fun _ h => h
  | cons line lines ih =>
    intro results h
    apply ih
    unfold readLine
    split
    · exact h
    · split
      · split
        · exact h
        · exact ⟨‹_›, decimalHex_hexToBinStr _⟩
      · exact h

/-- A file of saved records is empty or ends with a newline. -/
theorem complete_saves (history : List (RunNumberState × TimeStamp)) :
    Complete (history.foldl saveState []) := by
  rcases List.eq_nil_or_concat history with hnil | ⟨earlier, last, hconcat⟩
  · rw [hnil]
    exact Or.inl rfl
  · rw [hconcat, List.concat_eq_append, List.foldl_append]
    exact Complete.append

/-- However many records were saved before it, a state is read back if and only if its hash has
no hexadecimal letter: `hex_char_to_nibble` takes `'a'` to 0, where 10 is meant. -/
theorem getState_saves_iff (history : List (RunNumberState × TimeStamp)) (state : RunNumberState)
    (ts : TimeStamp) (hrange : -2 ^ 31 ≤ state.value ∧ state.value < 2 ^ 31)
    (hhash : state.hash ≠ []) :
    getState (saveState (history.foldl saveState []) (state, ts)) = state ↔
      DecimalHex state.hash := by
  have hread : getState (saveState (history.foldl saveState []) (state, ts)) =
      { value := state.value, hash := hexToBinStr (binStrToHex state.hash) } :=
    getState_save (complete_saves history) hrange hhash
  rw [hread, ← hexToBinStr_binStrToHex, RunNumberState.ext_iff]
  exact and_iff_right rfl

/-- A record is read back from behind one whose hash has letters. -/
theorem getState_saves_twice :
    getState (saveState ([(⟨1, [0xab]⟩, ⟨[], by decide⟩)].foldl saveState [])
      (⟨2, [0x12]⟩, ⟨[], by decide⟩)) = ⟨2, [0x12]⟩ :=
  (getState_saves_iff [(⟨1, [0xab]⟩, ⟨[], by decide⟩)] ⟨2, [0x12]⟩ ⟨[], by decide⟩
    (by decide +kernel) (by decide +kernel)).mpr (by decide +kernel)

/-- The hash `ab` is read back as `01`. -/
theorem getState_saves_letters :
    getState (saveState [] (⟨1, [0xab]⟩, ⟨[], by decide⟩)) = ⟨1, [0x01]⟩ := by decide

/-! ## Whole histories -/

/-- The file holds the number in memory, and the hash in memory as far as it can be read. -/
structure Server.Inv (s : Server) : Prop where
  complete : Complete s.file
  range : -2 ^ 31 ≤ s.state.value ∧ s.state.value < 2 ^ 31
  stored : getState s.file
    = { value := s.state.value, hash := hexToBinStr (binStrToHex s.state.hash) }

theorem Server.inv_start {file : List Char} (hfile : Complete file) : (Server.start file).Inv where
  complete := hfile
  range := (getState_wf file).1
  stored := by
    show getState file = _
    rw [show hexToBinStr (binStrToHex (Server.start file).state.hash) = (getState file).hash from
      (hexToBinStr_binStrToHex _).mpr (getState_wf file).2]
    rfl

/-- A server that starts on the records of a history has the last one in memory, if its hash has
no hexadecimal letter. -/
theorem getState_history {history : List (RunNumberState × TimeStamp)}
    (hsaves : ∀ save ∈ history, Savable save.1) (hdec : DecimalHex (lastSaved history).hash) :
    getState (history.foldl saveState []) = lastSaved history := by
  rcases List.eq_nil_or_concat history with hnil | ⟨earlier, ⟨state, ts⟩, hconcat⟩
  · rw [hnil]
    rfl
  · rw [List.concat_eq_append] at hconcat
    have hlast : lastSaved history = state := by rw [hconcat, lastSaved_append]
    obtain ⟨hrange, hhash⟩ := hsaves (state, ts) (by simp [hconcat])
    rw [hlast] at hdec ⊢
    rw [hconcat, List.foldl_append]
    refine (getState_save (complete_saves earlier) hrange hhash).trans ?_
    rw [(hexToBinStr_binStrToHex _).mpr hdec]

/-- What a step of the server shows and leaves behind, under the condition: a restart finds
what was in memory, a request is answered from memory, or its hash is new and saved with the
next number, or nothing changes. -/
inductive Does (s : Server) : Event → Server → Prop
  | restarted {s' : Server} : s'.state = s.state → Does s .restarted s'
  | invalid : Does s .invalid s
  | same : Does s (.answered s.state.hash s.state.value false) s
  | threw (hash : Hash) : Does s (.threw hash) s
  | fresh {s' : Server} (hash : Hash) : hash ≠ s.state.hash →
      s'.state = { value := s.state.value + 1, hash := hash } →
      Does s (.answered hash (s.state.value + 1) true) s'

theorem Server.Inv.step {s s' : Server} {act : Act} {e : Event} (h : s.Inv)
    (hstep : restrict Ok Server.step s act = some (e, s')) : s'.Inv ∧ Does s e s' := by
  obtain ⟨hok, hstep⟩ := restrict_eq_some.mp hstep
  cases act with
  | restart =>
    cases hstep
    have hstate : getState s.file = s.state := by
      rw [h.stored, (hexToBinStr_binStrToHex _).mpr hok]
    exact ⟨Server.inv_start h.complete, .restarted hstate⟩
  | request req outcome =>
    simp only [Server.step] at hstep
    split at hstep
    · next hvalid =>
      rw [Option.some.injEq, Server.getNumber] at hstep
      split at hstep
      · next hnew =>
        obtain ⟨hmax, houtcome⟩ := hok hvalid hnew
        have hne : req.hash.take req.hashSize.toNat ≠ [] := by
          intro hnil
          have := congrArg List.length hnil
          rw [List.length_take, req.hash_size, List.length_nil] at this
          omega
        have hrange := h.range
        have hsucc : succInt s.state.value = s.state.value + 1 := by
          unfold succInt
          omega
        cases outcome with
        | saved ts =>
          cases hstep
          simp only [hsucc]
          refine ⟨⟨Complete.append, ?_, ?_⟩, .fresh _ hnew rfl⟩
          · show -2 ^ 31 ≤ s.state.value + 1 ∧ s.state.value + 1 < 2 ^ 31
            omega
          · exact getState_save h.complete (by simp only; omega) hne
        | throws =>
          cases hstep
          exact ⟨h, .threw _⟩
        | lost ts written => exact absurd houtcome id
      · next hsame =>
        cases hstep
        rw [not_not.mp hsame]
        exact ⟨h, .same⟩
    · cases hstep
      exact ⟨h, .invalid⟩

/-- In every history whose steps meet the condition, on a database file of any records saved
before whose last one has a hash without a hexadecimal letter, the numbers identify
configurations. -/
theorem run_identifies (history : List (RunNumberState × TimeStamp))
    (hsaves : ∀ save ∈ history, Savable save.1) (hdec : DecimalHex (lastSaved history).hash)
    (acts : List Act) (tr : List Event) (u : Server)
    (h : run (restrict Ok Server.step) (Server.start (history.foldl saveState [])) acts =
      some (tr, u)) :
    Identifies (lastSaved history).value (lastSaved history).hash tr ∧
    ∀ req e u', Server.step u (.request req .throws) = some (e, u') → u' = u := by
  constructor
  · suffices hgen : ∀ (acts : List Act) (s : Server) (tr : List Event), s.Inv →
        run (restrict Ok Server.step) s acts = some (tr, u) →
        Identifies s.state.value s.state.hash tr by
      have hrun := hgen acts _ tr (Server.inv_start (complete_saves history)) h
      have hstart : (Server.start (history.foldl saveState [])).state = lastSaved history :=
        getState_history hsaves hdec
      rwa [hstart] at hrun
    clear h
    intro acts
    induction acts with
    | nil =>
      intro s tr _ hrun
      cases hrun
      trivial
    | cons act acts ih =>
      intro s tr hinv hrun
      obtain ⟨e, t, es, hstep, hrest, rfl⟩ := run_cons hrun
      obtain ⟨hinv', hdoes⟩ := hinv.step hstep
      have hnext := ih t es hinv' hrest
      cases hdoes with
      | restarted hstate => rwa [hstate] at hnext
      | invalid => exact hnext
      | same => exact ⟨(if_pos rfl).symm, Int.le_refl _, hnext⟩
      | threw hash => exact hnext
      | fresh hash hne hstate =>
        rw [hstate] at hnext
        exact ⟨(if_neg hne).symm, by omega, hnext⟩
  · intro req e u' hstep
    simp only [Server.step] at hstep
    split at hstep
    · rw [Option.some.injEq, Server.getNumber] at hstep
      split at hstep
      · cases hstep
        rfl
      · cases hstep
        rfl
    · cases hstep
      rfl

/-- A version 1 request whose hash is the one byte `b`. -/
def byteRequest (b : UInt8) : Request where
  version := 1
  hashSize := 1
  hash := b :: List.replicate 63 0
  hash_size := rfl

def emptyTimeStamp : TimeStamp := ⟨[], by decide⟩

set_option maxRecDepth 2000 in
/-- On a file of two records, the first with a letter in its hash: a request for the hash of the
last one, a new one, a restart, and a save that throws before it succeeds. -/
theorem run_identifies_restart : ∃ tr u,
    run (restrict Ok Server.step)
      (Server.start ([(⟨1, [0xab]⟩, emptyTimeStamp), (⟨2, [0x12]⟩, emptyTimeStamp)].foldl
        saveState []))
      [.request (byteRequest 0x12) .throws, .request (byteRequest 0x34) (.saved emptyTimeStamp),
        .restart, .request (byteRequest 0x34) .throws, .request (byteRequest 0x56) .throws,
        .request (byteRequest 0x56) (.saved emptyTimeStamp)] = some (tr, u) ∧
    Identifies 2 [0x12] tr := by
  refine ⟨_, _, rfl, ?_⟩
  exact (run_identifies [(⟨1, [0xab]⟩, emptyTimeStamp), (⟨2, [0x12]⟩, emptyTimeStamp)]
    (by decide +kernel) (by decide +kernel)
    [.request (byteRequest 0x12) .throws, .request (byteRequest 0x34) (.saved emptyTimeStamp),
      .restart, .request (byteRequest 0x34) .throws, .request (byteRequest 0x56) .throws,
      .request (byteRequest 0x56) (.saved emptyTimeStamp)] _ _ rfl).1

/-- Four histories whose numbers do not identify configurations: the hash `ab` is requested
again after a restart, or of a server that starts on a file with its record; a save is lost and
the hash requested again; and the number is raised beyond the largest `int`. -/
theorem run_not_identifies :
    (∃ tr u, run Server.step (Server.start [])
      [.request (byteRequest 0xab) (.saved emptyTimeStamp), .restart,
        .request (byteRequest 0xab) (.saved emptyTimeStamp)] = some (tr, u) ∧
      ¬ Identifies 0 [] tr) ∧
    (∃ tr u, run Server.step (Server.start (saveState [] (⟨1, [0xab]⟩, emptyTimeStamp)))
      [.request (byteRequest 0xab) (.saved emptyTimeStamp)] = some (tr, u) ∧
      ¬ Identifies 1 [0xab] tr) ∧
    (∃ tr u, run Server.step (Server.start [])
      [.request (byteRequest 0x12) (.lost emptyTimeStamp 0),
        .request (byteRequest 0x12) (.saved emptyTimeStamp)] = some (tr, u) ∧
      ¬ Identifies 0 [] tr) ∧
    (∃ tr u, run Server.step (Server.start (saveState [] (⟨2147483647, [0x12]⟩, emptyTimeStamp)))
      [.request (byteRequest 0x34) (.saved emptyTimeStamp)] = some (tr, u) ∧
      ¬ Identifies 2147483647 [0x12] tr) :=
  ⟨⟨_, _, rfl, by decide⟩, ⟨_, _, rfl, by decide⟩, ⟨_, _, rfl, by decide⟩,
    ⟨_, _, rfl, by decide⟩⟩

end AdvLigoRts.RunNumber
