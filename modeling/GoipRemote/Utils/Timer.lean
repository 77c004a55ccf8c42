import GoipRemote.Lib.LinkedList
import Mathlib.Data.Int.Init

/-!
# The timer queue (`utils/timer.c`)

The file's static variables are the record `Timers`: three lists of `struct timer_entry` threaded
through their `next` links (`timer_list`, `pending_list` and the free list), the lock that sends
newly armed entries to `pending_list` while a pass runs, and the heap of `struct timer`. The
environment is part of the record: `clock n` is what the `n`-th call of `gettimeofday` answers and
`malloc n` whether the `n`-th allocation of an entry succeeds.

A pass (`timerCheckTimeout`) is `timerEnter`, rounds of `timerFire` each followed by the callback,
and `timerLeave`. What a callback does is a parameter of the pass, a function on a world that holds
the timers.
-/

namespace Utils

open LinkedList Function

/-- `struct timeval`. -/
structure Timeval where
  tvSec : Int
  tvUsec : Int
  deriving DecidableEq, Repr, Inhabited

/-- The narrowing of a `long` to a 32 bit `int`. -/
def toInt (x : Int) : Int := x.bmod (2 ^ 32)

theorem toInt_of_lt {x : Int} (h : -2 ^ 31 ≤ x) (h' : x < 2 ^ 31) : toInt x = x := by
  unfold toInt
  apply Int.bmod_eq_of_le <;> omega

@[simp] theorem toInt_add (x y : Int) : toInt (toInt x + y) = toInt (x + y) := Int.bmod_add_bmod

@[simp] theorem toInt_toInt (x : Int) : toInt (toInt x) = toInt x := Int.bmod_bmod

@[simp] theorem toInt_sub (x y : Int) : toInt (toInt x - y) = toInt (x - y) := Int.bmod_sub_bmod

/-- `tvcmp`: the difference in milliseconds, its part below a second truncated on its own. -/
def tvcmp (tv1 tv2 : Timeval) : Int :=
  toInt ((tv1.tvSec - tv2.tvSec) * 1000 + (tv1.tvUsec - tv2.tvUsec).tdiv 1000)

/-- `tvsub`. -/
def tvsub (t1 t2 : Timeval) : Timeval :=
  let usec := t1.tvUsec - t2.tvUsec
  if usec < 0 then ⟨t1.tvSec - 1 - t2.tvSec, usec + 1000000⟩ else ⟨t1.tvSec - t2.tvSec, usec⟩

/-- `struct timer_entry`. -/
structure Entry where
  timer : Ptr
  timeout : Timeval
  repeats : Int32
  next : Ptr
  deriving DecidableEq, Repr, Inhabited

/-- `struct timer`; `κ` are the functions its `call_back` can point to. -/
structure Timer (κ : Type) where
  interval : Nat
  ctxt : Ptr
  callBack : κ
  deriving DecidableEq, Repr

/-- The static variables of the file, the heap and the environment (module doc). Entries are
numbered in the order they are allocated: `1`, ..., `brk - 1` exist, and none is ever freed. -/
structure Timers (κ : Type) where
  freeEntries : Ptr
  inCheckTimeoutLock : Bool
  timerList : Ptr
  pendingList : Ptr
  timerAvgJitter : Int
  entries : Ptr → Entry
  brk : Nat
  timers : Ptr → Option (Timer κ)
  clock : Nat → Timeval
  tick : Nat
  malloc : Nat → Bool
  mallocs : Nat

variable {κ : Type}

namespace Timers

/-- The link field of the entries. -/
def next (s : Timers κ) (p : Ptr) : Ptr := (s.entries p).next

/-- Store `e` at `p`. -/
def setEntry (s : Timers κ) (p : Ptr) (e : Entry) : Timers κ :=
  { s with entries := update s.entries p e }

/-- `p->next = v`. -/
def setNext (s : Timers κ) (p v : Ptr) : Timers κ :=
  s.setEntry p { s.entries p with next := v }

/-- `entry->next = free_entries; free_entries = entry;` -/
def recycle (s : Timers κ) (entry : Ptr) : Timers κ :=
  { s.setNext entry s.freeEntries with freeEntries := entry }

end Timers

/-- `gettimeofday(&tv, 0)` and the check of its microseconds that follows every call. -/
def sampleTime (s : Timers κ) : Timeval × Timers κ :=
  let tv := s.clock s.tick
  (if tv.tvUsec > 1000000 ∨ tv.tvUsec < 0 then { tv with tvUsec := 0 } else tv,
    { s with tick := s.tick + 1 })

/-- `tvcmp(entry->timeout, x->timeout) < 0`. -/
def Timers.before (s : Timers κ) (entry x : Ptr) : Bool :=
  tvcmp (s.entries entry).timeout (s.entries x).timeout < 0

/-- `insert_timer`. -/
def insertTimer (s : Timers κ) (entry : Ptr) : Res (Timers κ) :=
  if s.timerList = 0 ∨ s.before entry s.timerList then
    .ok { s.setNext entry s.timerList with timerList := entry }
  else do
    let ep ← advance s.next (s.before entry) s.brk s.timerList
    .ok ((s.setNext entry (s.next ep)).setNext ep entry)

/-- `entry->timer == timer`. -/
def Timers.isOf (s : Timers κ) (timer entry : Ptr) : Bool := (s.entries entry).timer = timer

/-- `remove_timer`: the first entry of the timer in `timer_list`, else in `pending_list`. -/
def removeTimer (s : Timers κ) (timer : Ptr) : Res (Timers κ × Int) := do
  let (pp, entry) ← seek s.next (s.isOf timer) s.brk 0 s.timerList
  if entry ≠ 0 then
    let s := if pp = 0 then { s with timerList := s.next entry } else s.setNext pp (s.next entry)
    return (s.recycle entry, 0)
  let (pp, entry) ← seek s.next (s.isOf timer) s.brk 0 s.pendingList
  if entry ≠ 0 then
    let s := if pp = 0 then { s with pendingList := s.next entry } else s.setNext pp (s.next entry)
    return (s.recycle entry, 0)
  return (s, -1)

/-- `pend_timer`. -/
def pendTimer (s : Timers κ) (entry : Ptr) : Timers κ :=
  { s.setNext entry s.pendingList with pendingList := entry }

/-- The deadline `add_timer` computes from the sampled time and the timer's interval. -/
def deadline (tv : Timeval) (interval : Nat) : Timeval :=
  let sec := interval / 1000
  let usec := tv.tvUsec + (interval % 1000 : Nat) * 1000
  if usec > 1000000 then ⟨tv.tvSec + sec + 1, usec - 1000000⟩ else ⟨tv.tvSec + sec, usec⟩

/-- `add_timer`. -/
def addTimer (s : Timers κ) (entry : Ptr) : Res (Timers κ) := do
  let (tv, s) := sampleTime s
  let timer ← Res.deref s.timers (s.entries entry).timer
  let s := s.setEntry entry { s.entries entry with timeout := deadline tv timer.interval }
  if s.inCheckTimeoutLock then .ok (pendTimer s entry) else insertTimer s entry

/-- An entry from the free list, or a new one; `0` when `malloc` answers null. -/
def allocEntry (s : Timers κ) : Ptr × Timers κ :=
  if s.freeEntries ≠ 0 then (s.freeEntries, { s with freeEntries := s.next s.freeEntries })
  else if s.malloc s.mallocs then (s.brk, { s with brk := s.brk + 1, mallocs := s.mallocs + 1 })
  else (0, { s with mallocs := s.mallocs + 1 })

/-- `_create_timer`, with `timer` the address `malloc` answers (`0` when it fails). -/
def createTimer (s : Timers κ) (timer : Ptr) (interval : Nat) (ctxt : Ptr) (callBack : κ) :
    Timers κ :=
  if timer = 0 then s
  else { s with timers := update s.timers timer (some ⟨interval, ctxt, callBack⟩) }

/-- `destroy_timer`. -/
def destroyTimer (s : Timers κ) (timer : Ptr) : Res (Timers κ) := do
  let (s, _) ← removeTimer s timer
  let _ ← Res.deref s.timers timer
  .ok { s with timers := update s.timers timer none }

/-- `start_timer`. -/
def startTimer (s : Timers κ) (timer : Ptr) (repeats : Int32) : Res (Timers κ × Int) := do
  let (s, _) ← removeTimer s timer
  let (entry, s) := allocEntry s
  if entry = 0 then .ok (s, -1)
  else do
    let s := s.setEntry entry { s.entries entry with timer := timer, repeats := repeats }
    let s ← addTimer s entry
    .ok (s, 0)

/-- `set_timeout`. -/
def setTimeout (s : Timers κ) (timer : Ptr) (timeout : Timeval) : Res (Timers κ × Int) := do
  let (s, _) ← removeTimer s timer
  let (entry, s) := allocEntry s
  if entry = 0 then .ok (s, -1)
  else
    let s := s.setEntry entry
      { s.entries entry with timer := timer, repeats := 1, timeout := timeout }
    if s.inCheckTimeoutLock then .ok (pendTimer s entry, 0)
    else do
      let s ← insertTimer s entry
      .ok (s, 0)

/-- `stop_timer`. -/
def stopTimer (s : Timers κ) (timer : Ptr) : Res (Timers κ) := do
  let (s, _) ← removeTimer s timer
  .ok s

/-- `stop_timer(timer); start_timer(timer, repeat);`, as its users restart a timer. -/
def restartTimer (s : Timers κ) (timer : Ptr) (repeats : Int32) : Res (Timers κ) := do
  let s ← stopTimer s timer
  let (s, _) ← startTimer s timer repeats
  return s

/-! ## A pass -/

/-- The start of `timer_check_timeout`: the time of the pass and the lock. -/
def timerEnter (s : Timers κ) : Timeval × Timers κ :=
  let (tv, s) := sampleTime s
  (tv, { s with inCheckTimeoutLock := true })

/-- The update of `timer_avg_jitter` in the loop of `timer_check_timeout`. -/
def noteJitter (s : Timers κ) (res : Int) : Timers κ :=
  { s with timerAvgJitter :=
      if res > 0 then
        if s.timerAvgJitter = 0 then res else toInt (s.timerAvgJitter + res) >>> (1 : Nat)
      else s.timerAvgJitter }

/-- `e = timer_list; timer_list = e->next; --e->repeat;`, which wraps round. -/
def unlinkHead (s : Timers κ) : Timers κ :=
  let e := s.timerList
  { s with timerList := s.next e }.setEntry e
    { s.entries e with repeats := (s.entries e).repeats - 1 }

/-- One round of the loop of `timer_check_timeout` up to the call of the callback: `none` when the
head of `timer_list` is not due, else the timer whose callback is to be called. -/
def timerFire (tv : Timeval) (s : Timers κ) : Res (Option (Ptr × Timers κ)) :=
  let e := s.timerList
  let res := tvcmp tv (s.entries e).timeout
  if e = 0 ∨ res < 0 then .ok none
  else
    let s := unlinkHead (noteJitter s res)
    let timer := (s.entries e).timer
    if (s.entries e).repeats ≠ 0 then do
      let s ← addTimer s e
      .ok (some (timer, s))
    else .ok (some (timer, s.recycle e))

/-- The loop at the end of `timer_check_timeout` that inserts the entries of `pending_list`. -/
def mergePending : Nat → Ptr → Timers κ → Res (Timers κ)
  | 0, _, _ => .fault
  | fuel + 1, e, s =>
    if e = 0 then .ok s
    else do
      let s' ← insertTimer s e
      mergePending fuel (s.next e) s'

/-- The end of `timer_check_timeout`: unlock, merge, and the milliseconds to the next deadline. -/
def timerLeave (s : Timers κ) : Res (Timers κ × Int) := do
  let s := { s with inCheckTimeoutLock := false }
  let s ← mergePending s.brk s.pendingList s
  let s := { s with pendingList := 0 }
  if s.timerList = 0 then return (s, -1)
  let (tv, s) := sampleTime s
  let tv := tvsub (s.entries s.timerList).timeout tv
  let timeout := toInt (tv.tvSec * 1000 + tv.tvUsec.tdiv 1000)
  return (s, if timeout < 0 then 0 else timeout)

section
variable {σ : Type} (get : σ → Timers κ) (set : σ → Timers κ → σ)
  (call : Ptr → Timer κ → σ → Res σ)

/-- The loop of `timer_check_timeout`; `call t timer` is the callback of the timer at `t`. -/
def timerLoop (tv : Timeval) : Nat → σ → Res σ
  | 0, _ => .fault
  | fuel + 1, w => do
    match ← timerFire tv (get w) with
    | none => .ok w
    | some (t, s) => do
      let timer ← Res.deref s.timers t
      let w ← call t timer (set w s)
      timerLoop tv fuel w

/-- `timer_check_timeout`. -/
def timerCheckTimeout (w : σ) : Res (σ × Int) := do
  let (tv, s) := timerEnter (get w)
  let w ← timerLoop get set call tv s.brk (set w s)
  let (s, timeout) ← timerLeave (get w)
  .ok (set w s, timeout)

end

/-- The state of the file before any call. -/
def Timers.init (clock : Nat → Timeval) (malloc : Nat → Bool) : Timers κ where
  freeEntries := 0
  inCheckTimeoutLock := false
  timerList := 0
  pendingList := 0
  timerAvgJitter := 0
  entries := fun _ => default
  brk := 1
  timers := fun _ => none
  clock := clock
  tick := 0
  malloc := malloc
  mallocs := 0

end Utils
