import GoipRemote.Lib.CString
import GoipRemote.Relay.Fwd
import GoipRemote.Utils.Datalist
import GoipRemote.Utils.Timer

/-!
# The server's state, and its address list (`radmsrv/ip_list.c`)

`Server` is the process: the descriptors, cipher states and `struct fwd`s (`Proc`), the timers, the
client list with its objects, the connections that have not introduced themselves, and the addresses
whose owners have logged in. Descriptor 0 is the standard input's, which `daemon` keeps open.

`log` is no part of the program. It records, latest first, what the properties of a run refer to.
-/

namespace Radmsrv

open Utils Relay Function LinkedList CString

/-- The functions that are called by a timer. -/
inductive TimerCallBack where
  | timeoutDel
  | ipTimeout
  deriving DecidableEq, Repr

/-- `struct radmcli`. -/
structure Radmcli where
  next : Ptr
  id : CString
  lSock : Int
  rSock : Int
  isRadmin : Int
  rc4Dec : Ptr
  deltimer : Ptr
  deriving DecidableEq, Repr

/-- `struct radmconn`. The buffer is its first `buflen` bytes. -/
structure Radmconn where
  buf : List UInt8
  sock : Int
  rc4Dec : Ptr
  deriving DecidableEq, Repr

/-- `struct ip_data`. -/
structure IpData where
  ip : UInt32
  timer : Ptr
  deriving DecidableEq, Repr

/-- What the log records: the message that an address has logged in was read, with the timer that the
address has then, a timer's callback was called, and the clients before and after the one of a client's
timer. -/
inductive Note where
  | added (ip : UInt32) (timer : Ptr)
  | fired (timer : Ptr)
  | expired (timer cli : Ptr) (before after : List (Ptr × Radmcli))
  deriving DecidableEq, Repr

/-- The process (module doc). `created` counts the allocations of `struct radmcli`: it bounds the walks
over the client list. -/
structure Server where
  proc : Proc
  timers : Timers TimerCallBack
  srv : Ptr
  sock : Int
  rc4Key : List UInt8
  clients : Ptr
  clis : Ptr → Option Radmcli
  created : Nat
  conns : Ptr → Option Radmconn
  ipList : Datalist
  ipDatas : Ptr → Option IpData
  whiteListIp : CString
  portMin : UInt16
  portMax : UInt16
  getPort : UInt16
  log : List Note

namespace Server

/-- The link field of the clients. -/
def next (s : Server) (p : Ptr) : Ptr := ((s.clis p).map Radmcli.next).getD 0

/-- `*cli = c`. -/
def setCli (s : Server) (cli : Ptr) (c : Radmcli) : Server :=
  { s with clis := update s.clis cli (some c) }

/-- `*conn = c`. -/
def setConn (s : Server) (conn : Ptr) (c : Radmconn) : Server :=
  { s with conns := update s.conns conn (some c) }

/-- The clients from `p` on, without their links. -/
def readClients (clis : Ptr → Option Radmcli) : Nat → Ptr → List (Ptr × Radmcli)
  | 0, _ => []
  | fuel + 1, p =>
    match clis p with
    | some c => (p, { c with next := 0 }) :: readClients clis fuel c.next
    | none => []

/-- The client list. -/
def registry (s : Server) : List (Ptr × Radmcli) := readClients s.clis (s.created + 1) s.clients

end Server

/-! ## Addresses -/

/-- The decimal digits of a byte. -/
def decimal (n : Nat) : List UInt8 := (Nat.toDigits 10 n).map fun c => UInt8.ofNat c.toNat

/-- `get_ip_string`, which is `inet_ntoa`: the first byte of an address is its lowest. -/
def getIpString (ip : UInt32) : CString :=
  let byte := fun i => decimal (ip.toNat / 256 ^ i % 256)
  ofBuf (byte 0 ++ bytesOf "." ++ byte 1 ++ bytesOf "." ++ byte 2 ++ bytesOf "." ++ byte 3)

/-- `check_white_ip`: the list is cut at its first `|` alone. -/
def checkWhiteIp (whiteListIp : CString) (ip : UInt32) : Bool :=
  let ipBuf := (whiteListIp.take 256).bytes
  let bar := ipBuf.dropWhile (· ≠ 124)
  if bar ≠ [] then
    strcmp (getIpString ip) (ofBuf (ipBuf.takeWhile (· ≠ 124))) = 0 ∨
      strcmp (getIpString ip) (ofBuf bar.tail) = 0
  else strcmp (getIpString ip) (ofBuf ipBuf) = 0

/-- `get_ip_data`. -/
def getIpData (s : Server) (ip : UInt32) : Res Ptr := do
  let test := fun it => do
    let ipData ← Res.deref s.ipDatas (s.ipList.its it).data
    return decide (ipData.ip = ip)
  let it ← walk s.ipList.next test s.ipList.brk s.ipList.first
  return if it = 0 then 0 else (s.ipList.its it).data

/-- `ip_timeout`. -/
def ipTimeout (s : Server) (ipData : Ptr) : Res Server := do
  let d ← Res.deref s.ipDatas ipData
  let (ipList, _) ← datalistRemoveData s.ipList ipData
  let timers ← destroyTimer s.timers d.timer
  return { s with ipList := ipList, timers := timers, ipDatas := update s.ipDatas ipData none }

/-- `add_ip`, with the addresses that `malloc` answers. `stop_itimer` stops the interval timer of the
process, which nobody starts, and leaves the timers alone. -/
def addIp (s : Server) (ip : UInt32) (ipData timer : Ptr) : Res Server := do
  let found ← getIpData s ip
  if found ≠ 0 then do
    let d ← Res.deref s.ipDatas found
    let (timers, _) ← startTimer s.timers d.timer 1
    return { s with timers := timers }
  else if ipData = 0 ∨ (s.ipDatas ipData).isSome ∨ timer = 0 ∨ (s.timers.timers timer).isSome then .exit
  else do
    let timers := createTimer s.timers timer (60 * 60 * 24 * 1000) ipData .ipTimeout
    let (timers, _) ← startTimer timers timer 1
    return { s with
      timers := timers
      ipDatas := update s.ipDatas ipData (some ⟨ip, timer⟩)
      ipList := datalistAppend s.ipList ipData }

end Radmsrv
