import GoipRemote.Lib.Runs
import GoipRemote.Radmcli.RadmcRun
import GoipRemote.Radmsrv.RadmRun
import GoipRemote.Tunnel.Way

/-!
# A session of the two programs

The server and the device with the TCP connection between them, over which the device has just sent its
handshake, a user, and a local service of the device. What the two programs send into the connection is
under way in `toServer` and `toDevice` until the other one takes it; what the user and the service send
waits in `userQueue` and `serviceQueue`. `recv` answers the beginning of what is there.
-/

namespace Tunnel

open Utils Relay Function Radmcli Radmsrv

/-- The two programs and what is between them (module doc). `conn` is the `struct radmconn` of the
server, `radmc` the `struct radmc` of the device, and `ssock` and `dsock` are their sockets. -/
structure Session where
  server : Server
  device : Device
  conn : Ptr
  radmc : Ptr
  ssock : Int
  dsock : Int
  user : Stage
  service : Stage
  toServer : List UInt8
  toDevice : List UInt8
  userSent : List UInt8
  userQueue : List UInt8
  serviceSent : List UInt8
  serviceQueue : List UInt8

namespace Session

/-- The session after the device connected and the server accepted. -/
def start (server : Server) (device : Device) (conn radmc : Ptr) (c : Radmconn) (rc : Radmc) : Session where
  server := server
  device := device
  conn := conn
  radmc := radmc
  ssock := c.sock
  dsock := rc.sock
  user := .waiting
  service := .waiting
  toServer := device.proc.sent rc.sock
  toDevice := []
  userSent := []
  userQueue := []
  serviceSent := []
  serviceQueue := []

/-- What happens: the user or the service sends, or one of the callbacks of the session is called. -/
inductive Event where
  | userSends (bytes : List UInt8)
  | serviceSends (bytes : List UInt8)
  | line (sockerr : Bool) (recv : Option Nat) (emfile : Bool) (new : NewClientIn)
  | connect (cli : Ptr) (i : UserIn)
  | attach (i : RadmcIn)
  | server (call : FwdCall)
  | device (call : FwdCall)

/-- What the server took and gave. -/
def fromServer (s : Session) (server : Server) : Session :=
  { s with
    server := server
    toServer := s.toServer.drop (received s.server.proc server.proc s.ssock)
    toDevice := s.toDevice ++ added s.server.proc server.proc s.ssock
    userQueue := s.user.queue s.server.proc server.proc s.userQueue }

/-- What the device took and gave. -/
def fromDevice (s : Session) (device : Device) : Session :=
  { s with
    device := device
    toDevice := s.toDevice.drop (received s.device.proc device.proc s.dsock)
    toServer := s.toServer ++ added s.device.proc device.proc s.dsock
    serviceQueue := s.service.queue s.device.proc device.proc s.serviceQueue }

/-- The stage of an end whose callback may have called `do_forward`. -/
def joins (p p' : Proc) (fwd : Ptr) (sock : Option Int) (otherwise : Stage) : Stage :=
  match p.fwds fwd, p'.fwds fwd, sock with
  | none, some _, some sock => .joined fwd sock
  | _, _, _ => otherwise

/-- The queues of the server's `struct fwd`. -/
def serverQueue (s : Session) : Side → List UInt8
  | .t => s.toServer
  | .p => s.userQueue

/-- The queues of the device's `struct fwd`. -/
def deviceQueue (s : Session) : Side → List UInt8
  | .t => s.toDevice
  | .p => s.serviceQueue

/-- A callback of the session. A user connects to the port of the client that has the session's
connection. When the device gives the connection up, what it has sent stays under way. -/
def step (s : Session) : Event → Res Session
  | .userSends bytes =>
    .ok { s with userSent := s.userSent ++ bytes, userQueue := s.userQueue ++ bytes }
  | .serviceSends bytes =>
    .ok { s with serviceSent := s.serviceSent ++ bytes, serviceQueue := s.serviceQueue ++ bytes }
  | .line sockerr recv emfile new => do
    let server ← s.server.step
      (.conn s.conn ⟨sockerr, recv.map fun n => s.toServer.take n, emfile, new⟩)
    return s.fromServer server
  | .connect cli i =>
    if s.user = .waiting ∧ (s.server.clis cli).map Radmcli.rSock = some s.ssock then do
      let server ← s.server.step (.user cli i)
      return { s.fromServer server with
        user := joins s.server.proc server.proc i.fwd i.accept s.user }
    else .ok s
  | .attach i =>
    if s.service = .waiting ∧ s.device.proc.registered s.radmc .radmc = true then do
      -- `MSG_PEEK` takes nothing
      let device ← radmcCallback s.device s.radmc
        { i with peek := i.peek.map fun _ => min 1 s.toDevice.length }
      match joins s.device.proc device.proc i.fwd i.sock .lost with
      | .lost => return { s with device := device, service := .lost }
      | service => return { s.fromDevice device with service := service }
    else .ok s
  | .server call =>
    match s.user with
    | .joined fwd _ => do
      let server ← s.server.step (.fwd (call.event fwd s.serverQueue))
      return s.fromServer server
    | _ => .ok s
  | .device call =>
    match s.service with
    | .joined fwd _ => do
      let device ← s.device.step (.fwd (call.event fwd s.deviceQueue))
      return s.fromDevice device
    | _ => .ok s

section
variable {s : Session} {server : Server} {device : Device} {p : Proc} {q : Ptr} {fd : Int}

theorem step_line {sockerr emfile : Bool} {recv : Option Nat} {new : NewClientIn}
    (hstep : s.server.step (.conn s.conn ⟨sockerr, recv.map fun n => s.toServer.take n, emfile, new⟩) =
      .ok server) : s.step (.line sockerr recv emfile new) = .ok (s.fromServer server) := by
  rw [step, hstep]
  rfl

theorem step_connect {cli : Ptr} {i : UserIn} (hu : s.user = .waiting)
    (hcli : (s.server.clis cli).map Radmcli.rSock = some s.ssock) (hstep : s.server.step (.user cli i) = .ok server)
    (hjoins : joins s.server.proc server.proc i.fwd i.accept .waiting = .joined q fd) :
    s.step (.connect cli i) = .ok { s.fromServer server with user := .joined q fd } := by
  rw [step, if_pos ⟨hu, hcli⟩, hstep, Res.ok_bind, hu, hjoins]
  rfl

theorem step_attach {i : RadmcIn} (hs : s.service = .waiting)
    (hreg : s.device.proc.registered s.radmc .radmc = true)
    (hstep : radmcCallback s.device s.radmc { i with peek := i.peek.map fun _ => min 1 s.toDevice.length } =
      .ok device)
    (hjoins : joins s.device.proc device.proc i.fwd i.sock .lost = .joined q fd) :
    s.step (.attach i) = .ok { s.fromDevice device with service := .joined q fd } := by
  rw [step, if_pos ⟨hs, hreg⟩, hstep, Res.ok_bind, hjoins]
  rfl

theorem step_server {call : FwdCall} (hu : s.user = .joined q fd)
    (hstep : s.server.proc.fwdStep (call.event q s.serverQueue) = .ok p) :
    s.step (.server call) = .ok (s.fromServer { s.server with proc := p }) := by
  rw [step, hu]
  simp only [Server.step, hstep, Res.ok_bind, Res.pure_eq]

theorem step_device {call : FwdCall} (hs : s.service = .joined q fd)
    (hstep : s.device.proc.fwdStep (call.event q s.deviceQueue) = .ok p) :
    s.step (.device call) = .ok (s.fromDevice { s.device with proc := p }) := by
  rw [step, hs]
  simp only [Device.step, hstep, Res.ok_bind, Res.pure_eq]

end

/-- What the user was given. -/
def toUser (s : Session) : List UInt8 := s.user.output s.server.proc

/-- What the local service was given. -/
def toService (s : Session) : List UInt8 := s.service.output s.device.proc

/-- Neither `struct fwd` was released, and nothing is under way. -/
structure Quiet (s : Session) : Prop where
  server : Drained s.server.proc s.user
  device : Drained s.device.proc s.service
  toServer : s.toServer = []
  toDevice : s.toDevice = []
  userQueue : s.userQueue = []
  serviceQueue : s.serviceQueue = []

end Session

end Tunnel
