import Mathlib.Data.List.Basic
import Mathlib.Logic.Function.Basic

/-!
# The poll table (`utils/app.c`)

`pfd_list` and `pfd_call_backs` are two arrays with one entry a registration. An entry that was
unregistered keeps its place with the descriptor `-1` until `pfdDefragment` closes the gaps. An
array is a function on indices here: what it holds from `pfd_count` on is what the memory holds
there, that which `realloc` adds included, so a theorem for every table is one for whatever bytes
the tail holds.

`γ` are the contexts and `κ` the functions that are registered.
-/

namespace Utils

open Function

/-- `struct pollfd`. -/
structure Pollfd where
  fd : Int
  events : BitVec 16
  revents : BitVec 16
  deriving DecidableEq, Repr

/-- `struct pfd_call_back`. -/
structure PfdCallBack (γ κ : Type) where
  ctxt : γ
  callBack : κ
  deriving DecidableEq, Repr

/-- `pfd_list`, `pfd_call_backs` and their counters (module doc). -/
structure PollTable (γ κ : Type) where
  pfdList : Nat → Pollfd
  pfdCallBacks : Nat → PfdCallBack γ κ
  pfdSize : Nat
  pfdCount : Nat
  pfdDefrag : Nat

variable {γ κ : Type}

/-- The table at the start; the memory holds anything. -/
def PollTable.init (pfdList : Nat → Pollfd) (pfdCallBacks : Nat → PfdCallBack γ κ) :
    PollTable γ κ :=
  ⟨pfdList, pfdCallBacks, 0, 0, 0⟩

/-- `pfd_list[i].fd = -1; pfd_list[i].events = 0; pfd_defrag++;` -/
def PollTable.drop (s : PollTable γ κ) (i : Nat) : PollTable γ κ :=
  { s with
    pfdList := update s.pfdList i { s.pfdList i with fd := -1, events := 0 }
    pfdDefrag := s.pfdDefrag + 1 }

section
variable [DecidableEq γ] [DecidableEq κ]

/-- `find_registered_sock`; `none` is its `-1`. -/
def findRegisteredSock (s : PollTable γ κ) (sock : Int) (inst : γ) (callBack : κ) : Option Nat :=
  (List.range s.pfdCount).find? fun i =>
    sock = (s.pfdList i).fd ∧ inst = (s.pfdCallBacks i).ctxt ∧
      callBack = (s.pfdCallBacks i).callBack

/-- The loop of `unregister_object`. -/
def unregisterObject (s : PollTable γ κ) (object : γ) : PollTable γ κ :=
  (List.range s.pfdCount).foldl
    (fun s i => if object = (s.pfdCallBacks i).ctxt then s.drop i else s) s

/-- `unregister_sock`. -/
def unregisterSock (s : PollTable γ κ) (sock : Int) (inst : γ) (callBack : κ) : PollTable γ κ :=
  match findRegisteredSock s sock inst callBack with
  | some i => s.drop i
  | none => s

/-- `register_sock`; `realloc` says which of the two `realloc` calls succeed, when it comes to them.
The mask is stored in a `short`. -/
def registerSock (realloc : Bool × Bool) (s : PollTable γ κ) (sock : Int) (events : BitVec 32)
    (inst : γ) (callBack : κ) : PollTable γ κ × Int :=
  match findRegisteredSock s sock inst callBack with
  | some i =>
    ({ s with pfdList := update s.pfdList i { s.pfdList i with events := events.setWidth 16 } }, i)
  | none =>
    let grow := s.pfdCount + 1 > s.pfdSize
    if grow ∧ ¬ (realloc.1 ∧ realloc.2) then (s, -1)
    else
      ({ s with
          pfdList := update s.pfdList s.pfdCount
            { s.pfdList s.pfdCount with fd := sock, events := events.setWidth 16 }
          pfdCallBacks := update s.pfdCallBacks s.pfdCount ⟨inst, callBack⟩
          pfdSize := if grow then s.pfdSize + 16 else s.pfdSize
          pfdCount := s.pfdCount + 1 },
        s.pfdCount + 1)

end

/-- A round of the second loop of `pfd_defragment`, with its index `p`. -/
def pfdMove : PollTable γ κ × Nat → Nat → PollTable γ κ × Nat
  | (s, p), i =>
    if (s.pfdList i).fd ≠ -1 then
      ({ s with
          pfdList := update s.pfdList p (s.pfdList i)
          pfdCallBacks := update s.pfdCallBacks p (s.pfdCallBacks i) },
        p + 1)
    else (s, p)

/-- `pfd_defragment`. When its first loop finds no gap, `p` is still `0`. -/
def pfdDefragment (s : PollTable γ κ) : PollTable γ κ :=
  match (List.range s.pfdCount).find? fun i => (s.pfdList i).fd = -1 with
  | none => { s with pfdDefrag := 0, pfdCount := 0 }
  | some i =>
    let (s', p) := (List.range' (i + 1) (s.pfdCount - (i + 1))).foldl pfdMove (s, i)
    { s' with pfdDefrag := 0, pfdCount := p }

/-- `if (pfd_defrag) pfd_defragment();` of `app_run`. -/
def pfdDefragGuarded (s : PollTable γ κ) : PollTable γ κ :=
  if s.pfdDefrag ≠ 0 then pfdDefragment s else s

/-- `poll(pfd_list, pfd_count, ..)`: the kernel reports `rev i` on the descriptor of entry `i`, and
nothing on a negative one. -/
def PollTable.poll (s : PollTable γ κ) (rev : Nat → BitVec 16) : PollTable γ κ :=
  { s with pfdList := fun i =>
      if i < s.pfdCount then
        { s.pfdList i with revents := if (s.pfdList i).fd < 0 then 0 else rev i }
      else s.pfdList i }

/-! ## Dispatching -/

/-- `POLLIN`, `POLLPRI`, `POLLOUT`, `POLLERR`, `POLLHUP`, `POLLNVAL`. -/
def pollin : BitVec 16 := 0x0001
def pollpri : BitVec 16 := 0x0002
def pollout : BitVec 16 := 0x0004
def pollerr : BitVec 16 := 0x0008
def pollhup : BitVec 16 := 0x0010
def pollnval : BitVec 16 := 0x0020

/-- `SOCKIN`, `SOCKOUT`, `SOCKERR`. -/
def sockin : BitVec 32 := 0x1
def sockout : BitVec 32 := 0x4
def sockerr : BitVec 32 := 0x8

/-- The `events` that `dispatch_sock_events` builds from `revents`. -/
def sockEvents (revents : BitVec 16) : BitVec 32 :=
  let has := fun flag : BitVec 16 => revents &&& flag ≠ 0
  let events := if has pollin ∨ has pollpri then sockin else 0
  let events := if has pollout then events ||| sockout else events
  if has pollerr ∨ has pollnval ∨ has pollhup then events ||| sockerr else events

/-- Entry `i` was reported and has not been unregistered. -/
def PollTable.ready (s : PollTable γ κ) (i : Nat) : Bool :=
  (s.pfdList i).revents ≠ 0 ∧ (s.pfdList i).fd ≥ 0

section
variable {σ : Type} (get : σ → PollTable γ κ) (set : σ → PollTable γ κ → σ)
  (call : Nat → BitVec 32 → σ → σ)

/-- The body of the `if` in `dispatch_sock_events`, but for `nevents--`; `call i events` is the call
of the function in `pfd_call_backs[i]` with its context, `events` and `pfd_list[i].fd`. -/
def dispatchEntry (i : Nat) (w : σ) : σ :=
  let events := sockEvents ((get w).pfdList i).revents
  let w := if events ≠ 0 then call i events w else w
  let s := get w
  set w { s with pfdList := update s.pfdList i { s.pfdList i with revents := 0 } }

/-- The loop of `dispatch_sock_events` from index `i` on: it goes to the next ready entry, the
callbacks having changed the table and its length, until there is none or `nevents` are done. -/
def dispatchLoop : Nat → Nat → σ → σ
  | 0, _, w => w
  | nevents + 1, i, w =>
    match (List.range' i ((get w).pfdCount - i)).find? (get w).ready with
    | none => w
    | some j => dispatchLoop nevents (j + 1) (dispatchEntry get set call j w)

/-- `dispatch_sock_events`. -/
def dispatchSockEvents (nevents : Nat) (w : σ) : σ := dispatchLoop get set call nevents 0 w

end

/-- `poll`'s return value: the entries with non-zero `revents`. -/
def PollTable.reported (s : PollTable γ κ) : Nat :=
  (List.range s.pfdCount).countP fun i => (s.pfdList i).revents ≠ 0

end Utils
