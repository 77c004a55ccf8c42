import GoipRemote.Lib.CString
import GoipRemote.Relay.Fwd
import GoipRemote.Utils.Timer

/-!
# The device (`radmcli/radmc.c`)

A `struct radmc` keeps one connection to the server on which it has introduced itself. When the
server has data for it, `radmc_callback` attaches a local connection, leaves both to a `struct fwd`
and connects anew; after an error, and when the keep-alive timer expires, `radmc_reset` gives the
connection up first.

Every return of `-1` in `radmc_reconnect` stands behind a call of `exit`, so the calls of
`radmc_release` that test for it are not reached.
-/

namespace Radmcli

open Utils Relay Function

/-- `struct radmc`; the two addresses are answered for by the arguments of `connect`. -/
structure Radmc where
  rc4Key : List UInt8
  id : List UInt8
  rc4Enc : Ptr
  sock : Int
  isRadmin : Int
  timer : Ptr
  deriving DecidableEq, Repr

/-- The functions that are called by a timer. -/
inductive TimerCallBack where
  | radmcKeepalive
  deriving DecidableEq, Repr

/-- The process. -/
structure Device where
  proc : Proc
  timers : Timers TimerCallBack
  radmcs : Ptr → Option Radmc

/-- What the system answers in `radmc_reconnect`: the descriptor, whether `connect` succeeds, the
address of the cipher state, and whether `send` succeeds (it then takes the whole line). -/
structure Reconnect where
  sock : Option Int
  connected : Bool
  rc4 : Ptr
  sent : Bool
  deriving DecidableEq, Repr

/-- What the system answers in `radmc_callback`: the result of `recv` with `MSG_PEEK`, then the local
descriptor, whether it connects, and the addresses of its cipher state and of the `struct fwd`. -/
structure RadmcIn where
  sockerr : Bool
  peek : Option Nat
  sock : Option Int
  connected : Bool
  rc4 : Ptr
  fwd : Ptr
  reconnect : Reconnect
  deriving DecidableEq, Repr

/-- `*radmc = rc`. -/
def Device.setRadmc (d : Device) (radmc : Ptr) (rc : Radmc) : Device :=
  { d with radmcs := update d.radmcs radmc (some rc) }

/-- `"RADMIN: %s\n"` or `"TELNET: %s\n"` with the id. -/
def handshake (rc : Radmc) : List UInt8 :=
  bytesOf (if rc.isRadmin ≠ 0 then "RADMIN: " else "TELNET: ") ++ rc.id ++ bytesOf "\n"

/-- `CLOSE`: `if (sock > 0) { close(sock); sock = -1; }`. -/
def closeMacro (p : Proc) (sock : Int) : Res (Proc × Int) :=
  if sock > 0 then do
    let p ← p.close sock
    return (p, -1)
  else .ok (p, sock)

/-- `radmc_reset`. -/
def radmcReset (d : Device) (radmc : Ptr) : Res Device := do
  let rc ← Res.deref d.radmcs radmc
  let p ← freeRc4If d.proc rc.rc4Enc
  let p := p.unregister rc.sock radmc .radmc
  let (p, sock) ← closeMacro p rc.sock
  return { d with proc := p }.setRadmc radmc { rc with rc4Enc := 0, sock := sock }

/-- `radmc_reconnect`. The line goes to `char buf[256]` with its terminator. -/
def radmcReconnect (d : Device) (radmc : Ptr) (r : Reconnect) : Res Device := do
  let rc ← Res.deref d.radmcs radmc
  match d.proc.newSock r.sock with
  | none => .exit
  | some (sock, p) =>
    if ¬ r.connected then .exit
    else do
      let p ← p.newRc4 r.rc4 rc.rc4Key
      let rc := { rc with sock := sock, rc4Enc := r.rc4 }
      if (handshake rc).length ≥ 256 then .fault
      else do
        let (buf, p) ← p.crypt rc.rc4Enc (handshake rc)
        if ¬ r.sent then .exit
        else do
          let p := p.send rc.sock buf
          let p := p.register sock sockin radmc .radmc
          let s ← if rc.timer ≠ 0 then restartTimer d.timers rc.timer (-1) else .ok d.timers
          return { d with proc := p, timers := s }.setRadmc radmc rc

/-- `radmc_callback`. -/
def radmcCallback (d : Device) (radmc : Ptr) (r : RadmcIn) : Res Device := do
  let rc ← Res.deref d.radmcs radmc
  let tryAgain := fun d : Device => do
    let d ← radmcReset d radmc
    radmcReconnect d radmc r.reconnect
  if r.sockerr ∨ r.peek = none then tryAgain d
  else if r.peek = some 0 then tryAgain d
  else do
    let s ← restartTimer d.timers rc.timer (-1)
    let p := d.proc.unregister rc.sock radmc .radmc
    match p.newSock r.sock with
    | none => tryAgain { d with proc := p, timers := s }
    | some (sock, p) =>
      if ¬ r.connected then do
        let (p, _) ← closeMacro p sock
        tryAgain { d with proc := p, timers := s }
      else do
        let p ← p.newRc4 r.rc4 rc.rc4Key
        let p ← doForward p r.fwd rc.sock sock rc.rc4Enc r.rc4
        radmcReconnect { d with proc := p, timers := s } radmc r.reconnect

/-- `radmc_timeout_callback`, which is all that `radmc_keepalive` calls. -/
def radmcTimeoutCallback (d : Device) (radmc : Ptr) (r : Reconnect) : Res Device := do
  let d ← radmcReset d radmc
  radmcReconnect d radmc r

/-- What `radmc_create` is called with, the addresses it gets and what the system answers. -/
structure Create where
  radmc : Ptr
  timer : Ptr
  reconnect : Reconnect
  deriving DecidableEq, Repr

/-- `radmc_create`. -/
def radmcCreate (d : Device) (key id : List UInt8) (isRadmin : Int) (timeout : Int) (c : Create) :
    Res Device :=
  if (d.radmcs c.radmc).isSome ∨ (d.timers.timers c.timer).isSome ∨ c.timer = 0 then .exit
  else
    let interval := (if timeout > 0 then timeout else 30) * 1000
    let d := { d with
      timers := createTimer d.timers c.timer interval.toNat c.radmc .radmcKeepalive }
    let d := d.setRadmc c.radmc ⟨key, id, 0, 0, isRadmin, c.timer⟩
    radmcReconnect d c.radmc c.reconnect

/-- `radmcs_create`: an object for each local address that was given. -/
def radmcsCreate (d : Device) (key id : List UInt8) (timeout : Int) (http telnet : Option Create) :
    Res Device :=
  (match http with
    | some c => radmcCreate d key id 1 timeout c
    | none => .ok d) >>= fun d =>
  match telnet with
  | some c => radmcCreate d key id 0 timeout c
  | none => .ok d

/-- The process before `radmcs_create`; allocations of timer entries succeed. -/
def Device.init (clock : Nat → Timeval) (pfdList : Nat → Pollfd)
    (pfdCallBacks : Nat → PfdCallBack Ptr CallBack) : Device where
  proc := .init pfdList pfdCallBacks
  timers := Timers.init clock fun _ => true
  radmcs := fun _ => none

/-! ## The event loop -/

/-- What the event loop does: a callback of a registered socket, the defragmentation of the poll table
or a pass of the timers, with what the system answers (in a pass, once for each callback). -/
inductive Event where
  | radmc (radmc : Ptr) (r : RadmcIn)
  | fwd (ev : FwdEvent)
  | defragment
  | timers (rs : List Reconnect)
  deriving DecidableEq, Repr

/-- `radmc_keepalive`, called by a pass of the timers with the answers that are left. -/
def radmcKeepalive (_ : Ptr) (timer : Timer TimerCallBack) :
    Device × List Reconnect → Res (Device × List Reconnect)
  | (_, []) => .exit
  | (d, r :: rs) =>
    match timer.callBack with
    | .radmcKeepalive => do
      let d ← radmcTimeoutCallback d timer.ctxt r
      return (d, rs)

/-- `timer_check_timeout`. -/
def Device.timerPass (d : Device) (rs : List Reconnect) : Res Device := do
  let (w, _) ← timerCheckTimeout (fun w : Device × List Reconnect => w.1.timers)
    (fun w s => ({ w.1 with timers := s }, w.2)) radmcKeepalive (d, rs)
  return w.1

def Device.step (d : Device) : Event → Res Device
  | .radmc radmc r => if d.proc.registered radmc .radmc then radmcCallback d radmc r else .ok d
  | .fwd ev => do
    let p ← d.proc.fwdStep ev
    return { d with proc := p }
  | .defragment => .ok { d with proc := d.proc.defragment }
  | .timers rs => d.timerPass rs

/-- A run of the event loop. -/
def Device.run : List Event → Device → Res Device
  | [], d => .ok d
  | ev :: evs, d => d.step ev >>= Device.run evs

end Radmcli
