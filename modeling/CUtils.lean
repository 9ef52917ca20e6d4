import CUtils.ForStd.StepSystem
import CUtils.ForStd.Segment
import CUtils.Spec.HashMapCorrect
import CUtils.Spec.HashMapIter
import CUtils.Spec.HashMapForeach
import CUtils.Spec.ListCorrect
import CUtils.Spec.ListInsertCorrect
import CUtils.Spec.ListNodesCorrect
import CUtils.Spec.DisjointSetCorrect
import CUtils.Spec.DisjointSetRank
import CUtils.Spec.CircbufCorrect
import CUtils.Spec.SpscCorrect
import CUtils.Spec.BusServerDelivery
import CUtils.Spec.WorkqueueWakeup
import CUtils.Spec.WorkqueueComplete
import CUtils.Spec.SlabCorrect
import CUtils.Spec.StrLibCorrect
import CUtils.Spec.StrLibPrintf
import CUtils.Spec.StrLibConst
import CUtils.Spec.StrLibTerminated
import CUtils.Spec.TokensCorrect
import CUtils.Spec.StrHexCorrect
import CUtils.Spec.StrTrimCorrect
import CUtils.Spec.SafeAtoiCorrect
import CUtils.Spec.PathCorrect
import CUtils.Spec.PcapGenCorrect
import CUtils.Spec.PcapGenSafe
import CUtils.Spec.PcapStopCorrect
import CUtils.Spec.EventCorrect
import CUtils.Spec.ChannelCorrect
import CUtils.Spec.ChannelFifoCorrect
import CUtils.Spec.ChannelIoCorrect
import CUtils.Spec.WorkqueueLinksCorrect
import CUtils.Spec.BusAcceptSchedule
import CUtils.Spec.BusWorkerCorrect
import CUtils.Spec.ArgParserCorrect
import CUtils.Spec.SlabSafe
import CUtils.Spec.Crc16Correct
import CUtils.Spec.HashMapFree
import CUtils.Spec.FileIoCorrect
import CUtils.Spec.ProcCmdlineCorrect
import CUtils.Spec.LoggerCorrect
import CUtils.Spec.ArgOptionsCorrect
import CUtils.Spec.PathWalkCorrect
import CUtils.Spec.FiloCorrect
import CUtils.Spec.SListCorrect
import CUtils.Spec.RoundUpCorrect
import CUtils.Spec.UtilsCorrect
import CUtils.Spec.PolyHashCorrect
import CUtils.Spec.CrcBurstCorrect
import CUtils.Spec.ChannelMsgqCorrect
import CUtils.Spec.ChannelLifecycle
import CUtils.Spec.WorkqueueFlush
import CUtils.Spec.PidOfCorrect
import CUtils.Spec.PcapReadCorrect
import CUtils.Spec.HexdumpCorrect
import CUtils.Spec.ChannelFifoDuplex
import CUtils.Spec.StrHashCorrect
import CUtils.Spec.BitReverseCorrect
import CUtils.Spec.WorkqueueEventsCorrect
import CUtils.Spec.WorkqueueSettles
