import GoipRemote.Radmsrv.Server

/-!
# The server (`radmsrv/radm.c`, and the event loop of `radmsrv/main.c`)

A device connects and introduces itself (`radmsrv_accept_callback`, `radmsrv_conn_callback`), its
connection waits in a `struct radmcli` (`radmsrv_find_client`, `radmsrv_new_client`), and the first
user who may connect to the client's port gets it (`radmcli_accept_callback`). A client goes when it is
deleted or not heard of for half an hour (`radmsrv_del`, `timeout_del`).

What the system answers is an argument, in a structure for each callback. `emfile` says that `errno` is
24 where `MYDLOG` looks at it, which ends the process.
-/

namespace Radmsrv

open Utils Relay Function LinkedList CString

/-- What the system answers in `radmcli_accept_callback`. -/
structure UserIn where
  accept : Option Int
  ip : UInt32
  emfile : Bool
  rc4 : Ptr
  fwd : Ptr
  deriving DecidableEq, Repr

/-- `radmcli_accept_callback`. -/
def radmcliAcceptCallback (s : Server) (cli : Ptr) (i : UserIn) : Res Server := do
  let c ← Res.deref s.clis cli
  match s.proc.newSock i.accept with
  | none => if i.emfile then .exit else .ok s
  | some (sock, p) => do
    let ipData ← getIpData s i.ip
    if ¬ checkWhiteIp s.whiteListIp i.ip ∧ ipData = 0 then do
      let p ← p.close sock
      return { s with proc := p }
    else do
      let p ← p.newRc4 i.rc4 s.rc4Key
      let p ← doForward p i.fwd c.rSock sock i.rc4 c.rc4Dec
      let p := p.unregister c.lSock cli .radmcliAccept
      return { s with proc := p }.setCli cli { c with rSock := -1, rc4Dec := 0 }

/-- `radmcli_release`. -/
def radmcliRelease (s : Server) (cli : Ptr) : Res Server := do
  let c ← Res.deref s.clis cli
  let timers ← stopTimer s.timers c.deltimer
  let timers ← destroyTimer timers c.deltimer
  let p := s.proc.unregister c.lSock cli .radmcliAccept
  let p ← p.close c.lSock
  let p ← p.close c.rSock
  let p ← freeRc4If p c.rc4Dec
  return { s with timers := timers, proc := p, clis := update s.clis cli none }

/-- `strcmp(cli->id, id) == 0 && cli->is_radmin == is_radmin`. -/
def Server.isClient (s : Server) (id : CString) (isRadmin : Int) (cli : Ptr) : Res Bool := do
  let c ← Res.deref s.clis cli
  return decide (strcmp c.id id = 0 ∧ c.isRadmin = isRadmin)

/-- `radmsrv_find_client`. -/
def radmsrvFindClient (s : Server) (id : CString) (isRadmin : Int) : Res (Ptr × Server) := do
  let cli ← walk s.next (s.isClient id isRadmin) (s.created + 1) s.clients
  if cli = 0 then return (0, s)
  else do
    let c ← Res.deref s.clis cli
    let timers ← restartTimer s.timers c.deltimer 1
    return (cli, { s with timers := timers })

/-- `radmsrv_alloc_addr`: the port to bind to, `0` for any. -/
def radmsrvAllocAddr (s : Server) : UInt16 × Server :=
  if s.portMax > 0 then
    let getPort := s.getPort + 1
    (s.getPort, { s with getPort := if getPort > s.portMax then s.portMin else getPort })
  else (0, s)

/-- What the system answers in `radmsrv_new_client`. A result of `bind` or `listen` is `none` for
success, else whether `errno` is 24. -/
structure NewClientIn where
  sock : Option Int
  emfile : Bool
  bind : Nat → Option Bool
  listen : Option Bool
  cli : Ptr
  timer : Ptr

/-- The loop of `radmsrv_new_client` that binds, from its round `i` on. -/
def radmsrvBind (bind : Nat → Option Bool) : Nat → Nat → Server → Res (Bool × Server)
  | 0, _, s => .ok (false, s)
  | n + 1, i, s =>
    let (_, s) := radmsrvAllocAddr s
    match bind i with
    | none => .ok (true, s)
    | some true => .exit
    | some false => radmsrvBind bind n (i + 1) s

/-- `strcmp(cli->id, id) > 0`. -/
def Server.greater (s : Server) (id : CString) (cli : Ptr) : Res Bool := do
  let c ← Res.deref s.clis cli
  return decide (strcmp c.id id > 0)

/-- The part of `radmsrv_new_client` that links the new client in: after those whose id is not
greater. -/
def radmsrvLink (s : Server) (id : CString) (cli : Ptr) (c : Radmcli) : Res Server := do
  let first ← if s.clients = 0 then .ok true else s.greater id s.clients
  if first then
    return { s.setCli cli { c with next := s.clients } with clients := cli, created := s.created + 1 }
  else do
    let tmp ← advanceTo s.next (s.greater id) (s.created + 1) s.clients
    let t ← Res.deref s.clis tmp
    return { (s.setCli cli { c with next := t.next }).setCli tmp { t with next := cli } with
      created := s.created + 1 }

/-- `radmsrv_new_client`; it answers `0` for none. -/
def radmsrvNewClient (s : Server) (id : CString) (i : NewClientIn) : Res (Ptr × Server) :=
  match s.proc.newSock i.sock with
  | none => if i.emfile then .exit else .ok (0, s)
  | some (sock, p) => do
    let (bound, s) ← radmsrvBind i.bind 10 0 { s with proc := p }
    if ¬ bound then do
      let p ← s.proc.close sock
      return (0, { s with proc := p })
    else if i.listen.isSome then do
      let p ← s.proc.close sock
      if i.listen = some true then .exit else return (0, { s with proc := p })
    else if i.cli = 0 ∨ (s.clis i.cli).isSome ∨ i.timer = 0 ∨ (s.timers.timers i.timer).isSome then .exit
    else do
      let s ← radmsrvLink s id i.cli ⟨0, id.take 255, sock, 0, 0, 0, i.timer⟩
      let timers := createTimer s.timers i.timer (30 * 60 * 1000) i.cli .timeoutDel
      let (timers, _) ← startTimer timers i.timer 1
      return (i.cli, { s with timers := timers })

/-- What the system answers in `radmsrv_conn_callback`. -/
structure ConnIn where
  sockerr : Bool
  recv : Option (List UInt8)
  emfile : Bool
  new : NewClientIn

/-- `err_exit` of `radmsrv_conn_callback`. -/
def connErrExit (s : Server) (conn : Ptr) : Res Server := do
  let c ← Res.deref s.conns conn
  let p := s.proc.unregister c.sock conn .radmsrvConn
  let p ← p.close c.sock
  let p ← p.freeRc4 c.rc4Dec
  return { s with proc := p, conns := update s.conns conn none }

/-- The type that a line asks for. -/
def lineType (line : CString) : Option Int :=
  if strncmp line (ofBuf (bytesOf "RADMIN: ")) 8 = 0 then some 1
  else if strncmp line (ofBuf (bytesOf "RLOGIN: ")) 8 = 0 then some 2
  else if strncmp line (ofBuf (bytesOf "TELNET: ")) 8 = 0 then some 3
  else none

/-- `radmsrv_conn_callback` once it has a client: the connection waits there, and replaces one that
did. -/
def connAttach (s : Server) (conn cli : Ptr) (isRadmin : Int) : Res Server := do
  let c ← Res.deref s.conns conn
  let k ← Res.deref s.clis cli
  let p ← if k.rSock > 0 then s.proc.close k.rSock else .ok s.proc
  let p ← freeRc4If p k.rc4Dec
  let s := s.setCli cli { k with rSock := c.sock, isRadmin := isRadmin, rc4Dec := c.rc4Dec }
  let p := p.register k.lSock sockin cli .radmcliAccept
  let p := p.unregister c.sock conn .radmsrvConn
  return { s with proc := p, conns := update s.conns conn none }

/-- `radmsrv_conn_callback` on a whole line. -/
def connLine (s : Server) (conn : Ptr) (line : CString) (new : NewClientIn) : Res Server :=
  match lineType line with
  | none => connErrExit s conn
  | some isRadmin => do
    let (cli, s) ← radmsrvFindClient s (line.drop 8) isRadmin
    let (cli, s) ← if cli = 0 then radmsrvNewClient s (line.drop 8) new else .ok (cli, s)
    if cli = 0 then connErrExit s conn else connAttach s conn cli isRadmin

/-- `radmsrv_conn_callback`. -/
def radmsrvConnCallback (s : Server) (conn : Ptr) (i : ConnIn) : Res Server := do
  let c ← Res.deref s.conns conn
  if i.sockerr then connErrExit s conn
  else
    match i.recv.map (List.take (256 - c.buf.length)) with
    | none | some [] => if i.emfile then .exit else connErrExit s conn
    | some bytes => do
      let (data, p) ← (s.proc.receive c.sock bytes).crypt c.rc4Dec bytes
      let buf := c.buf ++ data
      let s := { s with proc := p }.setConn conn { c with buf := buf }
      if buf.getLast? ≠ some 10 then return s
      -- the end of the line becomes the terminator
      else connLine (s.setConn conn { c with buf := buf.dropLast ++ [0] }) conn (ofBuf buf.dropLast) i.new

/-- What the system answers in `radmsrv_accept_callback`. -/
structure AcceptIn where
  accept : Option Int
  emfile : Bool
  conn : Ptr
  rc4 : Ptr
  deriving DecidableEq, Repr

/-- `radmsrv_accept_callback`. -/
def radmsrvAcceptCallback (s : Server) (i : AcceptIn) : Res Server :=
  match s.proc.newSock i.accept with
  | none => if i.emfile then .exit else .ok s
  | some (sock, p) =>
    if i.conn = 0 ∨ (s.conns i.conn).isSome then .exit
    else do
      let p ← p.newRc4 i.rc4 s.rc4Key
      let p := p.register sock sockin i.conn .radmsrvConn
      return { s with proc := p }.setConn i.conn ⟨[], sock, i.rc4⟩

/-- `radmsrv_del`. -/
def radmsrvDel (s : Server) (id : CString) (isRadmin : Int) : Res (Server × Int) := do
  let first ← s.isClient id isRadmin s.clients
  let c ← Res.deref s.clis s.clients
  if first then do
    let s ← radmcliRelease { s with clients := c.next } s.clients
    return (s, 0)
  else do
    let cli ← advanceTo s.next (s.isClient id isRadmin) (s.created + 1) s.clients
    let c ← Res.deref s.clis cli
    if c.next = 0 then return (s, -1)
    else do
      let tmp ← Res.deref s.clis c.next
      let s ← radmcliRelease (s.setCli cli { c with next := tmp.next }) c.next
      return (s, 0)

/-- `timeout_del`. -/
def timeoutDel (s : Server) (cli : Ptr) : Res Server := do
  let c ← Res.deref s.clis cli
  let (s, _) ← radmsrvDel s c.id c.isRadmin
  return s

/-! ## The event loop -/

/-- A message of the web page's process: to delete a client (the character of its type and its id), that
the owner of an address has logged in (with the addresses that `malloc` answers), or a white list. -/
inductive Ctl where
  | del (type : UInt8) (id : CString)
  | ip (ip : UInt32) (ipData timer : Ptr)
  | white (list : CString)
  deriving DecidableEq, Repr

/-- The timer of the address in `ip_list`. -/
def Server.ipTimer (s : Server) (ip : UInt32) : Ptr :=
  match getIpData s ip with
  | .ok ipData => ((s.ipDatas ipData).map IpData.timer).getD 0
  | _ => 0

/-- What `radmsrv_ctl_callback` does with a message; a log in is noted in the log. -/
def radmsrvCtl (s : Server) : Ctl → Res Server
  | .del type id =>
    if type = 49 then do
      let (s, _) ← radmsrvDel s id 1
      return s
    else if type = 51 then do
      let (s, _) ← radmsrvDel s id 3
      return s
    else .ok s
  | .ip ip ipData timer => do
    let s ← addIp s ip ipData timer
    return { s with log := .added ip (s.ipTimer ip) :: s.log }
  | .white list => .ok { s with whiteListIp := list.take 256 }

/-- The callback of a timer, with its note in the log. -/
def Server.call (t : Ptr) (timer : Timer TimerCallBack) (s : Server) : Res Server :=
  let s := { s with log := .fired t :: s.log }
  match timer.callBack with
  | .timeoutDel => do
    let s' ← timeoutDel s timer.ctxt
    return { s' with log := .expired t timer.ctxt s.registry s'.registry :: s'.log }
  | .ipTimeout => ipTimeout s timer.ctxt

/-- `timer_check_timeout`. -/
def Server.timerPass (s : Server) : Res Server := do
  let (s, _) ← timerCheckTimeout Server.timers (fun s timers => { s with timers := timers }) Server.call s
  return s

/-- What the event loop does: a callback of a registered socket, a message of the web page's process, the
defragmentation of the poll table or a pass of the timers. -/
inductive Event where
  | accept (i : AcceptIn)
  | conn (conn : Ptr) (i : ConnIn)
  | user (cli : Ptr) (i : UserIn)
  | fwd (ev : FwdEvent)
  | ctl (c : Ctl)
  | defragment
  | timers

/-- A message to delete a client while there is none reads through the null pointer, and is no event
here. -/
def Server.step (s : Server) : Event → Res Server
  | .accept i =>
    if s.proc.registered s.srv .radmsrvAccept then radmsrvAcceptCallback s i else .ok s
  | .conn conn i => if s.proc.registered conn .radmsrvConn then radmsrvConnCallback s conn i else .ok s
  | .user cli i => if s.proc.registered cli .radmcliAccept then radmcliAcceptCallback s cli i else .ok s
  | .fwd ev => do
    let p ← s.proc.fwdStep ev
    return { s with proc := p }
  | .ctl (.del type id) => if s.clients ≠ 0 then radmsrvCtl s (.del type id) else .ok s
  | .ctl c => radmsrvCtl s c
  | .defragment => .ok { s with proc := s.proc.defragment }
  | .timers => s.timerPass

/-- A run of the event loop. -/
def Server.run : List Event → Server → Res Server
  | [], s => .ok s
  | ev :: evs, s => s.step ev >>= Server.run evs

/-- The process before `radmsrv_create`; allocations of timer entries succeed. -/
def Server.init (clock : Nat → Timeval) (pfdList : Nat → Pollfd)
    (pfdCallBacks : Nat → PfdCallBack Ptr CallBack) (whiteListIp : CString)
    (portMin portMax getPort : UInt16) : Server where
  proc := (Proc.init pfdList pfdCallBacks).openSock 0
  timers := Timers.init clock fun _ => true
  srv := 0
  sock := -1
  rc4Key := []
  clients := 0
  clis := fun _ => none
  created := 0
  conns := fun _ => none
  ipList := .init
  ipDatas := fun _ => none
  whiteListIp := whiteListIp
  portMin := portMin
  portMax := portMax
  getPort := getPort
  log := []

/-- `radmsrv_create`, with the socket that `tcp_bind` answers and whether `listen` succeeds; `none` when
it fails. -/
def radmsrvCreate (s : Server) (srv : Ptr) (sock : Option Int) (listening : Bool) (key : List UInt8) :
    Option Server :=
  match s.proc.newSock sock with
  | none => none
  | some (sock, p) =>
    if ¬ listening then none
    else some { s with
      proc := p.register sock sockin srv .radmsrvAccept
      srv := srv
      sock := sock
      rc4Key := key
      ipList := .init }

end Radmsrv
