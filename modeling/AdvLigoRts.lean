import AdvLigoRts.Daqd.CircReplay
import AdvLigoRts.Daqd.CircPlayback
import AdvLigoRts.Daqd.CircAssemblyRuns
import AdvLigoRts.Daqd.CircSixteenths
import AdvLigoRts.PubSub.DaqM
import AdvLigoRts.PubSub.MessageQueue
import AdvLigoRts.PubSub.RecvLateness
import AdvLigoRts.PubSub.MessageKeys
import AdvLigoRts.PubSub.DcStatsTheorems
import AdvLigoRts.Drv.ParamLines
import AdvLigoRts.Drv.ParamInherit
import AdvLigoRts.Nds.RawMinuteTrendTheorems
import AdvLigoRts.Drv.FilterFormTheorems
import AdvLigoRts.Drv.ReloadAsStart
import AdvLigoRts.Drv.FilterSwitching
import AdvLigoRts.Drv.FmFileTheorems
import AdvLigoRts.Drv.TRampRetarget
import AdvLigoRts.Drv.DaqBounds
import AdvLigoRts.Drv.MbufRuns
import AdvLigoRts.Drv.DacRing
import AdvLigoRts.Daqd.ShmemReceiverTheorems
import AdvLigoRts.Daqd.ShmemReadsTheorems
import AdvLigoRts.Daqd.BlockAdmissionTheorems
import AdvLigoRts.Daqd.TrendTheorems
import AdvLigoRts.Daqd.MinuteTrend
import AdvLigoRts.Daqd.SecondTrend
import AdvLigoRts.Daqd.TrendFramerTheorems
import AdvLigoRts.Daqd.TrendFrameFiles
import AdvLigoRts.Daqd.RecvCopies
import AdvLigoRts.Daqd.FrameXmit
import AdvLigoRts.RunNumber.RunNumberTheorems
import AdvLigoRts.Gds.TconvSuccessor
import AdvLigoRts.Gds.TestpointExpiry
import AdvLigoRts.Gds.TestpointByName
import AdvLigoRts.Gds.SchedLast
import AdvLigoRts.Gds.SchedRepeat
import AdvLigoRts.LocalDc.LocalDcTheorems
import AdvLigoRts.Fe.CommData3Theorems
import AdvLigoRts.Fe.CardMapTheorems
import AdvLigoRts.Seq.CaTablesMerge
import AdvLigoRts.Seq.SdfSelectionExact
import AdvLigoRts.Seq.SdfDatabase
import AdvLigoRts.Seq.SdfBuffersTheorems
import AdvLigoRts.Rcg.IpcxBuilds
import AdvLigoRts.SimplePv.SimplePv
import AdvLigoRts.Seq.EdcuBlocks
import AdvLigoRts.Fe.CycleCounters
import AdvLigoRts.Drv.OversampleHistory
import AdvLigoRts.Drv.DacFifo
import AdvLigoRts.Drv.DacReservations
import AdvLigoRts.Gds.AwgSort
