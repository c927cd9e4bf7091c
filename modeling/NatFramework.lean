import NatFramework.Base
import NatFramework.Lib.Blocks
import NatFramework.Lib.Bytes
import NatFramework.Lib.CString
import NatFramework.Lib.DupFilter
import NatFramework.Lib.Flags
import NatFramework.Lib.GrowVec
import NatFramework.Lib.Intervals
import NatFramework.Lib.Json
import NatFramework.Lib.KMerge
import NatFramework.Lib.KeyCells
import NatFramework.Lib.Lists
import NatFramework.Lib.NodeMap
import NatFramework.Lib.PrioSet
import NatFramework.Lib.Run
import NatFramework.Lib.Text
import NatFramework.Lib.Tiles
import NatFramework.Lib.Writes
import NatFramework.Account.Units
import NatFramework.Account.ModInstr
import NatFramework.Account.Beside
import NatFramework.Account.AccBase
import NatFramework.Account.MarkToMarket
import NatFramework.Account.Refused
import NatFramework.Account.RollUp
import NatFramework.Account.DayRoll
import NatFramework.Account.Effect
import NatFramework.Account.Pending
import NatFramework.Account.Postings
import NatFramework.Account.Replay
import NatFramework.Risk.RiskInstr
import NatFramework.Risk.Limits
import NatFramework.Risk.RiskStg
import NatFramework.Risk.AutoOffset
import NatFramework.Risk.Intensity
import NatFramework.Risk.NetAmount
import NatFramework.Risk.Requests
import NatFramework.Risk.RiskTop
import NatFramework.Risk.SelfTrade
import NatFramework.Risk.TreapNodes
import NatFramework.Td.Engine
import NatFramework.Td.Ctp
import NatFramework.Td.RiskGate
import NatFramework.Risk.Register
import NatFramework.Risk.Links
import NatFramework.Risk.RegisterTop
import NatFramework.Td.AccountUtilis
import NatFramework.Td.AddExecOrder
import NatFramework.Td.CTDHelperFake
import NatFramework.Td.RestartTop
import NatFramework.Td.CatchUp
import NatFramework.Td.Clients
import NatFramework.Td.Ees
import NatFramework.Td.CloseOnce
import NatFramework.Td.CtpQuery
import NatFramework.Td.Executions
import NatFramework.Td.FakeOrders
import NatFramework.Td.FakeVolumes
import NatFramework.Td.FakeSwitch
import NatFramework.Td.InsertSteps
import NatFramework.Td.Overtake
import NatFramework.Td.Reconcile
import NatFramework.Td.RequestIds
import NatFramework.Td.Routing
import NatFramework.Td.Xt
import NatFramework.Td.XtClose
import NatFramework.Td.XtRestart
import NatFramework.Bar.Bar2
import NatFramework.Bar.BarMaker
import NatFramework.Bar.Generate
import NatFramework.Bar.SettleOnce
import NatFramework.Bar.Delivery
import NatFramework.Bar.Fold
import NatFramework.Bar.Partition
import NatFramework.Signal.CService
import NatFramework.Signal.ByteFifo
import NatFramework.Signal.Relay
import NatFramework.Signal.Framed
import NatFramework.Strategy.SwitchDay
import NatFramework.Tunnel.CCrypt
import NatFramework.Tunnel.FileTransfer
import NatFramework.Tunnel.CWaiter
import NatFramework.Tunnel.CShellCmd
import NatFramework.Utility.CHashTable
import NatFramework.Io.CIOBase
import NatFramework.Io.CRawIOReader
import NatFramework.Io.Seek
import NatFramework.Io.SeekRuns
import NatFramework.Io.CReaderPool
import NatFramework.Io.CRawIOWriter
import NatFramework.Lib.Along
import NatFramework.Io.Stores
import NatFramework.Io.PageLog
import NatFramework.Io.CallStores
import NatFramework.Io.Loads
import NatFramework.Io.Follows
import NatFramework.Io.Interleaved
import NatFramework.Io.PageFifo
import NatFramework.Io.LockedWriters
import NatFramework.Io.QueueRegistry
import NatFramework.Io.CMemQueue
import NatFramework.Common.CWareHouseReader
import NatFramework.Common.SysRequest
import NatFramework.Common.Replay
import NatFramework.Logger.CFastLog
import NatFramework.Logger.LogQueue
import NatFramework.Logger.CLogPool
import NatFramework.Config.CConfig
import NatFramework.Md.CMDEngineCtp
import NatFramework.Logdb.CLogTable
import NatFramework.Md.IMDHelper
import NatFramework.Md.IMDEngine
import NatFramework.Md.CMDHelperReplayIo
import NatFramework.Signal.HostilePeer
import NatFramework.Tunnel.Unpad
import NatFramework.Tunnel.DoCommand
import NatFramework.Tunnel.FileTree
import NatFramework.Tunnel.SendDir
import NatFramework.Utility.CmdLine
import NatFramework.Tunnel.ExecSession
import NatFramework.Dump.FileMgr
import NatFramework.Dump.Recorded
import NatFramework.Tools.CMerger
import NatFramework.Tools.Converted
import NatFramework.Tools.Playback
import NatFramework.Strategy.StrategyProcess
import NatFramework.Lib.CInt
import NatFramework.Lib.Guarded
import NatFramework.Lib.SortedDiff
import NatFramework.Lib.Decimal
import NatFramework.Lib.RingReads
import NatFramework.Common.ExchTime
import NatFramework.Execute.CBaseSignal
import NatFramework.Execute.TradeVolume
import NatFramework.Execute.BookDiff
import NatFramework.Utility.Int2String
import NatFramework.Td.OrderRef
import NatFramework.Signal.Resize
