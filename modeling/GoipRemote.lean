import GoipRemote.Lib.Res
import GoipRemote.Lib.LinkedList
import GoipRemote.Lib.Tolerant
import GoipRemote.Utils.Timer
import GoipRemote.Utils.TimerRefine
import GoipRemote.Utils.TimerInv
import GoipRemote.Utils.TimerRun
import GoipRemote.Utils.TimerPass
import GoipRemote.Utils.PollTable
import GoipRemote.Utils.Dispatch
import GoipRemote.Lib.StreamCipher
import GoipRemote.Utils.Rc4
import GoipRemote.Lib.Ownership
import GoipRemote.Relay.Fwd
import GoipRemote.Relay.ExtOps
import GoipRemote.Radmcli.Radmc
import GoipRemote.Radmcli.RadmcInv
import GoipRemote.Radmcli.RadmcRun
import GoipRemote.Radmsrv.Radm
import GoipRemote.Radmsrv.Registry
import GoipRemote.Radmsrv.RegistryRun
import GoipRemote.Utils.TimerOwner
import GoipRemote.Radmsrv.Addresses
import GoipRemote.Radmsrv.ServerInv
import GoipRemote.Radmsrv.RadmInv
import GoipRemote.Radmsrv.RadmRun
import GoipRemote.Radmsrv.WhiteList
import GoipRemote.Radmsrv.Ctl
import GoipRemote.Radmsrv.Ports
import GoipRemote.Lib.Runs
import GoipRemote.Utils.Memblk
import GoipRemote.Radmsrv.Config
import GoipRemote.Utils.Syscfg
import GoipRemote.Utils.CallMacro
import GoipRemote.Utils.DatalistRefine
import GoipRemote.Radmsrv.FlowRun
import GoipRemote.Tunnel.RoundTrip
import GoipRemote.Tunnel.Session
import GoipRemote.Radmcli.RadmcKeeps
import GoipRemote.Tunnel.SessionInv
import GoipRemote.Tunnel.Delivery
import GoipRemote.Tunnel.Transparent
import GoipRemote.Utils.TimerSleep
import GoipRemote.Lib.Chain
import GoipRemote.Utils.Dataqueue
import GoipRemote.Utils.Scheduler
import GoipRemote.Utils.SchedulerInv
import GoipRemote.Utils.SchedulerOrder
import GoipRemote.Utils.SchedulerRun
import GoipRemote.Utils.Dataset
import GoipRemote.Utils.DatasetCopy
import GoipRemote.Radmsrv.SaveCfg
import GoipRemote.Lib.Buffer
import GoipRemote.Radmcli.BuildId
import GoipRemote.Radmsrv.ConnBuf
import GoipRemote.Radmsrv.ConnEnd
import GoipRemote.Radmsrv.ConnRun
import GoipRemote.Utils.Utf8
import GoipRemote.Utils.Utf8Errors
import GoipRemote.Lib.Ring
import GoipRemote.Utils.ListHead
import GoipRemote.Utils.Observer
import GoipRemote.Utils.Fdevent
import GoipRemote.Utils.FdeventInv
import GoipRemote.Utils.FdeventDispatch
import GoipRemote.Lib.Strtol
import GoipRemote.Utils.Sockaddr
import GoipRemote.Utils.Options
import GoipRemote.Utils.OptionsMulti
import GoipRemote.Utils.OptionsInt
import GoipRemote.Utils.ConfigFile
import GoipRemote.Utils.Socks
import GoipRemote.Libhttpd.Protocol
import GoipRemote.Libhttpd.Url
import GoipRemote.Radmsrv.DelLink
import GoipRemote.Utils.Simtbl
import GoipRemote.Utils.Stun
import GoipRemote.Utils.StunParse
import GoipRemote.Utils.Stunlib
import GoipRemote.Libhttpd.Escape
import GoipRemote.Lib.Base64
import GoipRemote.Lib.NameTree
import GoipRemote.Libhttpd.Content
import GoipRemote.Libhttpd.Decode
import GoipRemote.Libhttpd.Login
import GoipRemote.Radmsrv.Access
import GoipRemote.Radmsrv.Web
import GoipRemote.Radmsrv.WebRun
import GoipRemote.Lib.BlockHash
import GoipRemote.Lib.ByteOrder
import GoipRemote.Utils.Hmac
import GoipRemote.Utils.Md5
