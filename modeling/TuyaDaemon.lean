import TuyaDaemon.Cadence
import TuyaDaemon.LoopVerdict
import TuyaDaemon.Openwrt.ActionDispatch
import TuyaDaemon.Openwrt.Cleanup
import TuyaDaemon.Openwrt.Handle
import TuyaDaemon.Openwrt.Heap
import TuyaDaemon.Openwrt.Interference
import TuyaDaemon.Openwrt.Options
import TuyaDaemon.Openwrt.SenderResources
import TuyaDaemon.Openwrt.Session
import TuyaDaemon.Openwrt.SetUp
import TuyaDaemon.Openwrt.UbusLifetime
import TuyaDaemon.Standalone.Args
import TuyaDaemon.Standalone.Crash
import TuyaDaemon.Standalone.DoubleFork
import TuyaDaemon.Standalone.FormatOwnership
import TuyaDaemon.Standalone.RemoteFormat
import TuyaDaemon.Standalone.Reporter
import TuyaDaemon.Standalone.Session
import TuyaDaemon.Standalone.SetUp
import TuyaDaemon.StopPause
import TuyaDaemon.StopSignal
