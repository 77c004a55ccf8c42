import GoipRemote.Lib.LinkedList
import GoipRemote.Utils.PollRefine
import GoipRemote.Utils.Rc4

/-!
# The relay (`fwd.c` of `radmsrv` and of `radmcli`)

`Proc` is what both programs share: their descriptors, the `struct rc4_state`s and `struct fwd`s they
have allocated, and the poll table. The bytes that `recv` answered and `send` took are recorded for
each descriptor, since it was opened.

What the system answers is an argument of the functions that ask it. A descriptor that is in use
already stands for an error, and an address that is in use already for no run at all (`exit`).

The two sides of a `struct fwd` are mirror images, and so are the callbacks: what is read on one
side's socket goes through its cipher into its buffer, and from there to the other side's socket.
The two files differ in the flags of `send` alone, whose result is arbitrary here.
-/

namespace Relay

open Utils Function

/-- The functions that are registered with a socket. -/
inductive CallBack where
  | radmsrvAccept
  | radmsrvConn
  | radmcliAccept
  | radmc
  | tsockRead
  | tsockWrite
  | psockRead
  | psockWrite
  deriving DecidableEq, Repr

/-- `t`: the socket of the tunnel. `p`: that of the peer. -/
inductive Side where
  | t
  | p
  deriving DecidableEq, Repr

def Side.other : Side → Side
  | t => p
  | p => t

/-- A side of a `struct fwd`: `tsock`, `rc4_dec`, `tbuf` and `tbufpos`, or `psock`, `rc4_enc`, `pbuf`
and `pbufpos`. The buffer is its first `tbuflen` (`pbuflen`) bytes. -/
structure Half where
  sock : Int
  rc4 : Ptr
  buf : List UInt8
  bufpos : Nat
  deriving DecidableEq, Repr

/-- `struct fwd`. -/
abbrev Fwd := Side → Half

/-- What the two programs share (module doc). -/
structure Proc where
  opened : Int → Bool
  rcvd : Int → List UInt8
  sent : Int → List UInt8
  rc4 : Ptr → Option Rc4State
  fwds : Ptr → Option Fwd
  poll : PollTable Ptr CallBack

/-- A result of `send`: an error, `EAGAIN` or not, or a number of bytes. -/
inductive SendResult where
  | error (eagain : Bool)
  | sent (n : Nat)
  deriving DecidableEq, Repr

namespace Proc

/-- The process at its start. -/
def init (pfdList : Nat → Pollfd) (pfdCallBacks : Nat → PfdCallBack Ptr CallBack) : Proc where
  opened := fun _ => false
  rcvd := fun _ => []
  sent := fun _ => []
  rc4 := fun _ => none
  fwds := fun _ => none
  poll := PollTable.init pfdList pfdCallBacks

/-- A new descriptor. -/
def openSock (p : Proc) (fd : Int) : Proc :=
  { p with
    opened := update p.opened fd true
    rcvd := update p.rcvd fd []
    sent := update p.sent fd [] }

/-- `close`. A negative descriptor is an error that nobody looks at; closing another that is not open
could hit somebody else's. -/
def close (p : Proc) (fd : Int) : Res Proc :=
  if fd < 0 then .ok p
  else if p.opened fd then .ok { p with opened := update p.opened fd false }
  else .fault

/-- The descriptor that `socket` or `accept` answers, and the process with it; `none` is an error. -/
def newSock (p : Proc) (fd : Option Int) : Option (Int × Proc) :=
  match fd with
  | some fd => if 0 ≤ fd ∧ p.opened fd = false then some (fd, p.openSock fd) else none
  | none => none

/-- `malloc(sizeof(struct rc4_state))` answering `ptr`, and `rc4_setup`. -/
def newRc4 (p : Proc) (ptr : Ptr) (key : List UInt8) : Res Proc :=
  if ptr = 0 ∨ (p.rc4 ptr).isSome then .exit
  else .ok { p with rc4 := update p.rc4 ptr (some (rc4Setup key)) }

/-- `free` of a `struct rc4_state`. -/
def freeRc4 (p : Proc) (ptr : Ptr) : Res Proc :=
  if (p.rc4 ptr).isSome then .ok { p with rc4 := update p.rc4 ptr none } else .fault

/-- `rc4_crypt` on the state at `ptr`. -/
def crypt (p : Proc) (ptr : Ptr) (data : List UInt8) : Res (List UInt8 × Proc) := do
  let s ← Res.deref p.rc4 ptr
  let (data, s) := rc4Crypt s data
  return (data, { p with rc4 := update p.rc4 ptr (some s) })

/-- `recv` took `data` from `fd`. -/
def receive (p : Proc) (fd : Int) (data : List UInt8) : Proc :=
  { p with rcvd := update p.rcvd fd (p.rcvd fd ++ data) }

/-- `send` gave `data` to `fd`. -/
def send (p : Proc) (fd : Int) (data : List UInt8) : Proc :=
  { p with sent := update p.sent fd (p.sent fd ++ data) }

/-- `register_sock`. -/
def register (p : Proc) (sock : Int) (events : BitVec 32) (inst : Ptr) (callBack : CallBack) : Proc :=
  { p with poll := (registerSock (true, true) p.poll sock events inst callBack).1 }

/-- `unregister_sock`. -/
def unregister (p : Proc) (sock : Int) (inst : Ptr) (callBack : CallBack) : Proc :=
  { p with poll := unregisterSock p.poll sock inst callBack }

/-- There is a registration of the function with the context: `dispatch_sock_events` may call it. -/
def registered (p : Proc) (inst : Ptr) (callBack : CallBack) : Bool :=
  (List.range p.poll.pfdCount).any fun i =>
    (p.poll.pfdList i).fd ≠ -1 ∧ (p.poll.pfdCallBacks i).ctxt = inst ∧
      (p.poll.pfdCallBacks i).callBack = callBack

/-- `pfd_defragment`, where `app_run` calls it. -/
def defragment (p : Proc) : Proc := { p with poll := pfdDefragGuarded p.poll }

/-- `*fwd = f`. -/
def setFwd (p : Proc) (fwd : Ptr) (f : Fwd) : Proc := { p with fwds := update p.fwds fwd (some f) }

end Proc

/-! ## What a normal return of these says -/

section
variable {p p' : Proc}

theorem Proc.newSock_eq_some {r : Option Int} {fd : Int} (h : p.newSock r = some (fd, p')) :
    r = some fd ∧ 0 ≤ fd ∧ p.opened fd = false ∧ p' = p.openSock fd := by
  unfold newSock at h
  split at h
  · split at h
    · rename_i hfresh
      cases h
      exact ⟨rfl, hfresh.1, hfresh.2, rfl⟩
    · cases h
  · cases h

theorem Proc.close_eq_ok {fd : Int} (h : p.close fd = .ok p') :
    fd < 0 ∧ p' = p ∨ p' = { p with opened := update p.opened fd false } := by
  unfold close at h
  split at h
  · rename_i hneg
    cases h
    exact .inl ⟨hneg, rfl⟩
  · split at h
    · cases h
      exact .inr rfl
    · cases h

theorem Proc.close_frame {fd : Int} (h : p.close fd = .ok p') : p' = { p with opened := p'.opened } := by
  rcases Proc.close_eq_ok h with ⟨-, rfl⟩ | rfl <;> rfl

theorem Proc.newRc4_eq_ok {ptr : Ptr} {key : List UInt8} (h : p.newRc4 ptr key = .ok p') :
    ptr ≠ 0 ∧ p.rc4 ptr = none ∧ p' = { p with rc4 := update p.rc4 ptr (some (rc4Setup key)) } := by
  unfold newRc4 at h
  split at h
  · cases h
  · rename_i hfresh
    cases h
    refine ⟨fun h0 => hfresh (.inl h0), ?_, rfl⟩
    by_contra hsome
    exact hfresh (.inr (Option.isSome_iff_ne_none.2 hsome))

theorem Proc.freeRc4_eq_ok {ptr : Ptr} (h : p.freeRc4 ptr = .ok p') :
    p' = { p with rc4 := update p.rc4 ptr none } := by
  unfold freeRc4 at h
  split at h
  · cases h
    rfl
  · cases h

theorem Proc.crypt_eq_ok {ptr : Ptr} {data data' : List UInt8} (h : p.crypt ptr data = .ok (data', p')) :
    ∃ st, p.rc4 ptr = some st ∧ data' = (rc4Crypt st data).1 ∧
      p' = { p with rc4 := update p.rc4 ptr (some (rc4Crypt st data).2) } := by
  obtain ⟨st, hst, h⟩ := Res.bind_eq_ok.1 h
  cases h
  exact ⟨st, Res.deref_eq_ok.1 hst, rfl, rfl⟩

end

/-- The callback that reads the side's socket. -/
def Side.readCallBack : Side → CallBack
  | t => .tsockRead
  | p => .psockRead

/-- The callback that writes the side's buffer to the other side's socket. -/
def Side.writeCallBack : Side → CallBack
  | t => .psockWrite
  | p => .tsockWrite

/-- `if (ptr) free(ptr);` of a `struct rc4_state`. -/
def freeRc4If (p : Proc) (ptr : Ptr) : Res Proc := if ptr ≠ 0 then p.freeRc4 ptr else .ok p

/-- `fwd_release`. -/
def fwdRelease (p : Proc) (fwd : Ptr) : Res Proc := do
  let f ← Res.deref p.fwds fwd
  let p := p.unregister (f .t).sock fwd .tsockRead
  let p := p.unregister (f .t).sock fwd .tsockWrite
  let p := p.unregister (f .p).sock fwd .psockRead
  let p := p.unregister (f .p).sock fwd .psockWrite
  let p ← freeRc4If p (f .t).rc4
  let p ← freeRc4If p (f .p).rc4
  let p ← p.close (f .t).sock
  let p ← p.close (f .p).sock
  return { p with fwds := update p.fwds fwd none }

/-- The two write callbacks, by the side whose buffer they write. -/
def writeCallback (d : Side) (p : Proc) (fwd : Ptr) (send : SendResult) : Res Proc := do
  let f ← Res.deref p.fwds fwd
  let sock := (f d.other).sock
  let rest := (f d).buf.drop (f d).bufpos
  match send with
  | .error _ => fwdRelease p fwd
  | .sent n =>
    let p := p.send sock (rest.take n)
    let bufpos := (f d).bufpos + (rest.take n).length
    if bufpos = (f d).buf.length then
      let p := p.setFwd fwd (update f d { f d with buf := [], bufpos := 0 })
      let p := p.register (f d).sock sockin fwd d.readCallBack
      return p.unregister sock fwd d.writeCallBack
    else return p.setFwd fwd (update f d { f d with bufpos := bufpos })

/-- The two read callbacks, by the side whose socket they read; `recv` is `none` for an error and at
most the size of the buffer. -/
def readCallback (d : Side) (p : Proc) (fwd : Ptr) (recv : Option (List UInt8)) (send : SendResult) :
    Res Proc := do
  let f ← Res.deref p.fwds fwd
  let sock := (f d.other).sock
  match recv.map (List.take 512) with
  | none | some [] => fwdRelease p fwd
  | some bytes => do
    let (data, p) ← (p.receive (f d).sock bytes).crypt (f d).rc4 bytes
    let p := p.setFwd fwd (update f d { f d with buf := data })
    match send with
    | .error false => fwdRelease p fwd
    | _ =>
      let taken := match send with
        | .sent n => data.take n
        | .error _ => []
      let p := p.send sock taken
      if taken.length < data.length then
        let p := p.setFwd fwd (update f d { f d with buf := data, bufpos := taken.length })
        let p := p.unregister (f d).sock fwd d.readCallBack
        return p.register sock sockout fwd d.writeCallBack
      else return p.setFwd fwd (update f d { f d with buf := [], bufpos := 0 })

/-- `tsock_read_callback`. -/
def tsockReadCallback := readCallback .t

/-- `psock_read_callback`. -/
def psockReadCallback := readCallback .p

/-- `psock_write_callback`: what was read from `tsock` goes to `psock`. -/
def psockWriteCallback := writeCallback .t

/-- `tsock_write_callback`. -/
def tsockWriteCallback := writeCallback .p

/-- A callback of a `struct fwd` from the event loop, with what the system answers. -/
inductive FwdEvent where
  | read (d : Side) (fwd : Ptr) (recv : Option (List UInt8)) (send : SendResult)
  | write (d : Side) (fwd : Ptr) (send : SendResult)
  deriving DecidableEq, Repr

/-- The event loop calls what is registered. -/
def Proc.fwdStep (p : Proc) : FwdEvent → Res Proc
  | .read d fwd recv send =>
    if p.registered fwd d.readCallBack then readCallback d p fwd recv send else .ok p
  | .write d fwd send =>
    if p.registered fwd d.writeCallBack then writeCallback d p fwd send else .ok p

/-- The `struct fwd` of `do_forward`. -/
def newFwd (tsock psock : Int) (enc dec : Ptr) : Fwd
  | .t => ⟨tsock, dec, [], 0⟩
  | .p => ⟨psock, enc, [], 0⟩

/-- `do_forward`, with `fwd` the address that `malloc` answers. -/
def doForward (p : Proc) (fwd : Ptr) (tsock psock : Int) (enc dec : Ptr) : Res Proc :=
  if fwd = 0 ∨ (p.fwds fwd).isSome then .exit
  else
    let p := p.setFwd fwd (newFwd tsock psock enc dec)
    let p := p.register tsock sockin fwd .tsockRead
    .ok (p.register psock sockin fwd .psockRead)

theorem doForward_eq_ok {p p' : Proc} {fwd : Ptr} {tsock psock : Int} {enc dec : Ptr}
    (h : doForward p fwd tsock psock enc dec = .ok p') :
    fwd ≠ 0 ∧ p.fwds fwd = none ∧ p' = { p with
      fwds := update p.fwds fwd (some (newFwd tsock psock enc dec))
      poll := p'.poll } := by
  unfold doForward at h
  split at h
  · cases h
  · rename_i hfresh
    cases h
    refine ⟨fun h0 => hfresh (.inl h0), ?_, rfl⟩
    by_contra hsome
    exact hfresh (.inr (Option.isSome_iff_ne_none.2 hsome))

end Relay
