import GoipRemote.Lib.Buffer
import GoipRemote.Utils.ListHead
import GoipRemote.Utils.PollTable
import GoipRemote.Utils.Timer

/-!
# Descriptor events (utils/fdsel.c, utils/event.c)

A source has its events in a table, `fdevents`, beside the array `pollfds` that `poll` is given, and the events
with a deadline in `timeout_list`, in the order of their deadlines. `heap` has the events that `fdevent_new`
allocated. The links of `timeout_list` and of the `timeout_link`s are `timeouts`, those of the loop's `pending`
list and of the `active_link`s are `pending`; in both, `none` is the list's head.

Reading the clock is given by what `gettimeofday` answers. The table is in memory that `malloc` answered, which
holds anything at the start.
-/

open Function

namespace Utils

/-! ## Events -/

def evTimeout : BitVec 32 := 0x01

def evRead : BitVec 32 := 0x02

def evWrite : BitVec 32 := 0x04

def evError : BitVec 32 := 0x8000

/-- `struct fdevent`, with what the source and the loop use of its `base`. -/
structure Fdevent where
  source : Ptr
  priority : Int
  fd : Int
  id : Int
  events : BitVec 32
  revents : BitVec 32
  timeoutval : Int
  timeout : Timeval
  deriving DecidableEq, Repr

/-- `struct fdevent_source` at the address `self`, its events, and its loop's `pending`. -/
structure FdeventSource where
  self : Ptr
  fdsize : Int
  fdcount : Int
  pollfds : List Pollfd
  fdevents : List Ptr
  heap : Ptr → Option Fdevent
  timeouts : Links (Option Ptr)
  pending : Links (Option Ptr)

/-- The properties of an event that the source sets; any other is refused. -/
inductive FdeventProp where
  | fd (fd : Int)
  | timeout (timeoutval : Int)
  | events (events : BitVec 32)
  | other

/-- The `POLLIN` and `POLLOUT` of an event's `EV_READ` and `EV_WRITE`. -/
def pollMask (events : BitVec 32) : BitVec 16 :=
  let mask : BitVec 16 := if events &&& evRead ≠ 0 then 0 ||| pollin else 0
  if events &&& evWrite ≠ 0 then mask ||| pollout else mask

/-- The test of `add_to_timeout_list`: whether a deadline is before another, by the seconds first. -/
def Timeval.before (t current : Timeval) : Bool :=
  decide (t.tvSec < current.tvSec ∨ (current.tvSec = t.tvSec ∧ current.tvUsec > t.tvUsec))

/-- The deadline of `add_to_timeout_list`; its microseconds may be more than a second. -/
def deadlineOf (now : Timeval) (timeoutval : Int) : Timeval :=
  ⟨now.tvSec + timeoutval.tdiv 1000, now.tvUsec + timeoutval.tmod 1000 * 1000⟩

/-! ## The source -/

/-- `fdevent_create`, with what the memory holds that `malloc` answers. -/
def fdeventCreate (self : Ptr) (maxfds : Int) (pollfds : Nat → Pollfd) (fdevents : Nat → Ptr) :
    FdeventSource where
  self := self
  fdsize := maxfds
  fdcount := 0
  pollfds := (List.range maxfds.toNat).map pollfds
  fdevents := (List.range maxfds.toNat).map fdevents
  heap := fun _ => none
  timeouts := initListHead ⟨fun _ => none, fun _ => none⟩ none
  pending := initListHead ⟨fun _ => none, fun _ => none⟩ none

namespace FdeventSource

/-- A store to an event. -/
def put (s : FdeventSource) (event : Ptr) (e : Fdevent) : FdeventSource :=
  { s with heap := update s.heap event (some e) }

/-- `fdevent_new`, with what `malloc` answers. The event's address is answered, or `NULL`. -/
def fdeventNew (malloc : Ptr) (events : BitVec 32) (s : FdeventSource) : Res (FdeventSource × Ptr) :=
  if events &&& (evRead ||| evWrite) = 0 then .ok (s, 0)
  else if malloc = 0 then .fault
  else
    let e : Fdevent := ⟨s.self, 0, -1, -1, events, 0, 0, ⟨0, 0⟩⟩
    let s := s.put malloc e
    .ok ({ s with
      pending := initListHead s.pending (some malloc)
      timeouts := initListHead s.timeouts (some malloc) }, malloc)

/-- Whether `timeout` is before the deadline of an event in the list. -/
def beforeAt (s : FdeventSource) (timeout : Timeval) : Option Ptr → Res Bool
  | none => .fault
  | some p => do
    let current ← Res.deref s.heap p
    return timeout.before current.timeout

/-- `add_to_timeout_list`. The events of the list are in the table, which bounds the loop. -/
def addToTimeoutList (now : Timeval) (event : Ptr) (s : FdeventSource) : Res FdeventSource := do
  let e ← Res.deref s.heap event
  let timeout := deadlineOf now e.timeoutval
  let s := s.put event { e with timeout := timeout }
  let first ← Res.deref s.timeouts.next none
  let p ← listSeek s.timeouts none (s.beforeAt timeout) (s.fdsize.toNat + 1) first
  let timeouts ← listAddTail s.timeouts (some event) p
  return { s with timeouts := timeouts }

/-- `fdevent_set`. -/
def fdeventSet (now : Timeval) (event : Ptr) (prop : FdeventProp) (s : FdeventSource) :
    Res (FdeventSource × Int) := do
  let e ← Res.deref s.heap event
  match prop with
  | .fd fd => return (s.put event { e with fd := fd }, 0)
  | .events events =>
    let events := events &&& (evRead ||| evWrite)
    let s := s.put event { e with events := events }
    if e.id ≥ 0 then do
      let pfd ← Buffer.load s.pollfds e.id.toNat
      let pollfds ← Buffer.store s.pollfds e.id.toNat { pfd with events := pollMask events }
      return ({ s with pollfds := pollfds }, 0)
    else return (s, 0)
  | .timeout timeoutval =>
    let s := s.put event { e with timeoutval := timeoutval }
    if e.id ≥ 0 ∧ timeoutval > 0 then do
      let s ← addToTimeoutList now event s
      return (s, 0)
    else return (s, 0)
  | .other => return (s, -1)

/-- Whether an event is in the table, at its `id`. -/
def atItsSlot (s : FdeventSource) (event : Ptr) (e : Fdevent) : Res Bool :=
  if e.id ≥ 0 ∧ e.id < s.fdcount then do
    let p ← Buffer.load s.fdevents e.id.toNat
    return decide (p = event)
  else return false

/-- `fdevent_add`. -/
def fdeventAdd (now : Timeval) (event : Ptr) (s : FdeventSource) : Res (FdeventSource × Int) := do
  let e ← Res.deref s.heap event
  let present ← s.atItsSlot event e
  if present then return (s, 0)
  else if e.fd < 0 ∨ s.fdcount ≥ s.fdsize then return (s, -1)
  else do
    let id := s.fdcount
    let pollfds ← Buffer.store s.pollfds id.toNat ⟨e.fd, pollMask e.events, 0⟩
    let fdevents ← Buffer.store s.fdevents id.toNat event
    let s := { s.put event { e with id := id } with
      pollfds := pollfds, fdevents := fdevents, fdcount := s.fdcount + 1 }
    if e.timeoutval > 0 then do
      let s ← addToTimeoutList now event s
      return (s, 0)
    else return (s, 0)

/-- The part of `remove_event` that takes an event out of the table: the last one comes to its place. -/
def removeSlot (event : Ptr) (e : Fdevent) (s : FdeventSource) : Res FdeventSource := do
  let s := { s with fdcount := s.fdcount - 1 }
  let s ← if e.id < s.fdcount then do
      let pfd ← Buffer.load s.pollfds s.fdcount.toNat
      let pollfds ← Buffer.store s.pollfds e.id.toNat pfd
      let last ← Buffer.load s.fdevents s.fdcount.toNat
      let fdevents ← Buffer.store s.fdevents e.id.toNat last
      let l ← Res.deref s.heap last
      pure { s.put last { l with id := e.id } with pollfds := pollfds, fdevents := fdevents }
    else pure s
  let e ← Res.deref s.heap event
  return s.put event { e with id := -1 }

/-- `remove_event`. -/
def removeEvent (event : Ptr) (s : FdeventSource) : Res FdeventSource := do
  let e ← Res.deref s.heap event
  let s ← (if e.id ≥ 0 then removeSlot event e s else pure s)
  let timeouts ← listDelInit s.timeouts (some event)
  return { s with timeouts := timeouts }

/-- `fdevent_del`. -/
def fdeventDel (event : Ptr) (s : FdeventSource) : Res (FdeventSource × Int) := do
  let e ← Res.deref s.heap event
  if e.source ≠ s.self then return (s, -1)
  else do
    let present ← (if e.id ≥ 0 then s.atItsSlot event e else pure true)
    if ¬present then return (s, -1)
    else do
      let s ← removeEvent event s
      let pending ← listDel s.pending (some event)
      -- `free(event)`: its `timeout_link` goes with it
      return ({ s with
        heap := update s.heap event none, pending := pending, timeouts := s.timeouts.remove (some event) }, 0)

/-! ## Dispatching -/

/-- Whether an event of the pending list has a greater number, that is a lower priority. -/
def lowerAt (s : FdeventSource) (priority : Int) : Option Ptr → Res Bool
  | none => .fault
  | some p => do
    let current ← Res.deref s.heap p
    return decide (current.priority > priority)

/-- `event_schedule`. -/
def eventSchedule (fuel : Nat) (event : Ptr) (s : FdeventSource) : Res FdeventSource := do
  let e ← Res.deref s.heap event
  let pending ← listDelInit s.pending (some event)
  let first ← Res.deref pending.next none
  let p ← listSeek pending none (s.lowerAt e.priority) fuel first
  let pending ← listAddTail pending (some event) p
  return { s with pending := pending }

/-- The `revents` of an event for those that `poll` answered. -/
def eventsOf (revents : BitVec 16) : BitVec 32 :=
  let events : BitVec 32 := if revents &&& pollin ≠ 0 then 0 ||| evRead else 0
  let events := if revents &&& pollout ≠ 0 then events ||| evWrite else events
  if revents &&& (pollerr ||| pollhup ||| pollnval) ≠ 0 then events ||| evError else events

/-- The first loop of `fdevent_dispatch`, with the number of rounds left. -/
def dispatchReady (fuel : Nat) : Nat → Nat → FdeventSource → Res FdeventSource
  | 0, _, s => .ok s
  | n + 1, i, s => do
    let pfd ← Buffer.load s.pollfds i
    if pfd.revents ≠ 0 then do
      let event ← Buffer.load s.fdevents i
      let e ← Res.deref s.heap event
      let s ← eventSchedule fuel event (s.put event { e with revents := eventsOf pfd.revents })
      let timeouts ← listDelInit s.timeouts (some event)
      dispatchReady fuel n (i + 1) { s with timeouts := timeouts }
    else dispatchReady fuel n (i + 1) s

/-- The second loop of `fdevent_dispatch`. -/
def dispatchTimeouts (fuel : Nat) (current : Timeval) : Nat → FdeventSource → Res FdeventSource
  | 0, _ => .fault
  | n + 1, s => do
    let empty ← listEmpty s.timeouts none
    if empty then return s
    else do
      let first ← Res.deref s.timeouts.next none
      match first with
      | none => .fault
      | some event => do
        let e ← Res.deref s.heap event
        if e.timeout.tvSec > current.tvSec ∨ (current.tvSec = e.timeout.tvSec ∧
          e.timeout.tvUsec > current.tvUsec) then
          return s
        else do
          let s ← eventSchedule fuel event (s.put event { e with revents := evTimeout })
          dispatchTimeouts fuel current n s

/-- `fdevent_dispatch`, each of its loops with at most `fuel` rounds; `current` is what `gettimeofday`
answers. -/
def fdeventDispatch (fuel : Nat) (current : Timeval) (s : FdeventSource) : Res FdeventSource := do
  let s ← dispatchReady fuel s.fdcount.toNat 0 s
  dispatchTimeouts fuel current fuel s

end FdeventSource

end Utils
