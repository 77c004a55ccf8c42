import GoipRemote.Lib.Runs
import GoipRemote.Utils.TimerInv
import GoipRemote.Utils.TimerRun

/-!
# The task scheduler (`utils/scheduler.c`)

`struct scheduler` keeps the tasks that are to be run in a list, the next one first, and a timer of interval
`0` whose callback runs one task. The record `Sched` holds the scheduler beside the timers of the process,
whose other timers call functions in `κ`. `alloc n` is whether the `n`-th `malloc` of the file succeeds,
`timerAddr` is what it answers for the timer, and `log` notes what was asked for, newest first.

The order of the list: `insertEntry_ordered_iff` says for which priorities an insertion keeps it.
-/

namespace Utils

open Function

variable {κ : Type}

/-! ## The list of tasks -/

/-- `struct scheduler_entry`. -/
structure SchedulerEntry where
  pior : Int
  ctxt : Ptr
  task : Ptr
  deriving DecidableEq, Repr

namespace SchedulerEntry

/-- What a task is known by. -/
def key (e : SchedulerEntry) : Ptr × Ptr := (e.ctxt, e.task)

/-- `pe->ctxt == ctxt && pe->task == task`. -/
def Is (ctxt task : Ptr) (e : SchedulerEntry) : Bool := e.ctxt = ctxt ∧ e.task = task

/-- `pe->ctxt == ctxt`. -/
def Of (ctxt : Ptr) (e : SchedulerEntry) : Bool := e.ctxt = ctxt

end SchedulerEntry

/-- The loop of `scheduler_add_task`, at `pe` with the entries behind it. -/
def insertBehind (entry pe : SchedulerEntry) : List SchedulerEntry → List SchedulerEntry
  | [] => [pe, entry]
  | nx :: rest =>
    if entry.pior > nx.pior then pe :: entry :: nx :: rest else pe :: insertBehind entry nx rest

/-- Where `scheduler_add_task` puts its entry. -/
def insertEntry (entry : SchedulerEntry) : List SchedulerEntry → List SchedulerEntry
  | [] => [entry]
  | pe :: rest => if entry.pior < pe.pior then entry :: pe :: rest else insertBehind entry pe rest

/-- What `scheduler_delete_all` leaves: the entries of the context at the head are freed first. -/
def deleteAllEntries (ctxt : Ptr) (entries : List SchedulerEntry) : List SchedulerEntry :=
  match entries.dropWhile (SchedulerEntry.Of ctxt) with
  | [] => []
  | pe :: rest => pe :: rest.filter fun e => !e.Of ctxt

/-! ## The scheduler and its timer -/

/-- `struct scheduler`. -/
structure Scheduler where
  timer : Ptr
  entries : List SchedulerEntry

/-- What a timer of the process calls. -/
inductive TimerFn (κ : Type) where
  | schedulerCallback
  | other (k : κ)
  deriving DecidableEq, Repr

/-- What is noted of a run. -/
inductive SchedEvent where
  | added (e : SchedulerEntry)
  | deleted (ctxt task : Ptr)
  | deletedAll (ctxt : Ptr)
  | ran (e : SchedulerEntry)
  deriving DecidableEq, Repr

/-- The scheduler and the timers (module doc). -/
structure Sched (κ : Type) where
  ts : Timers (TimerFn κ)
  schd : Scheduler
  timerAddr : { p : Ptr // p ≠ 0 }
  alloc : Nat → Bool
  allocs : Nat
  log : List SchedEvent

namespace Sched

/-- `scheduler_init`, before any timer was made. -/
def init (clock : Nat → Timeval) (malloc : Nat → Bool) (timerAddr : { p : Ptr // p ≠ 0 })
    (alloc : Nat → Bool) : Sched κ :=
  ⟨Timers.init clock malloc, ⟨0, []⟩, timerAddr, alloc, 0, []⟩

/-- `schd->entries = entries`. -/
def setEntries (w : Sched κ) (entries : List SchedulerEntry) : Sched κ :=
  { w with schd := { w.schd with entries := entries } }

/-- A `malloc`: whether it succeeds. -/
def malloc (w : Sched κ) : Bool × Sched κ := (w.alloc w.allocs, { w with allocs := w.allocs + 1 })

def note (w : Sched κ) (ev : SchedEvent) : Sched κ := { w with log := ev :: w.log }

end Sched

/-- `start_timer(schd->timer, -1)`. -/
def startSchedulerTimer (w : Sched κ) : Res (Sched κ × Int) := do
  let (ts, r) ← startTimer w.ts w.schd.timer (-1)
  return ({ w with ts := ts }, r)

/-- `scheduler_enable`. -/
def schedulerEnable (w : Sched κ) : Res (Sched κ × Int) :=
  if w.schd.timer = 0 then
    let (ok, w) := w.malloc
    if ok then
      startSchedulerTimer { w with
        ts := createTimer w.ts w.timerAddr 0 0 .schedulerCallback
        schd := { w.schd with timer := w.timerAddr } }
    else .ok (w, -1)
  else startSchedulerTimer w

/-- `scheduler_disable`. -/
def schedulerDisable (w : Sched κ) : Res (Sched κ) :=
  if w.schd.timer ≠ 0 then do
    let ts ← stopTimer w.ts w.schd.timer
    return { w with ts := ts }
  else .ok w

/-- `scheduler_delete_task`. -/
def schedulerDeleteTask (w : Sched κ) (ctxt task : Ptr) : Sched κ × Int :=
  if w.schd.entries.any (SchedulerEntry.Is ctxt task) then
    (w.setEntries (w.schd.entries.eraseP (SchedulerEntry.Is ctxt task)), 0)
  else (w, -1)

/-- `scheduler_delete_all`. -/
def schedulerDeleteAll (w : Sched κ) (ctxt : Ptr) : Sched κ :=
  w.setEntries (deleteAllEntries ctxt w.schd.entries)

/-- `scheduler_add_task`. -/
def schedulerAddTask (w : Sched κ) (ctxt task : Ptr) (pior : Int) : Res (Sched κ × Int) := do
  let (w, _) := schedulerDeleteTask w ctxt task
  let (ok, w) := w.malloc
  if ok then
    let w' := w.setEntries (insertEntry ⟨pior, ctxt, task⟩ w.schd.entries)
    if w.schd.entries = [] then do
      let (w', _) ← schedulerEnable w'
      return (w', 0)
    else return (w', 0)
  else return (w, -1)

/-! ## Calls and passes -/

/-- A call by a task or by the rest of the program; `timer` is one on another timer. -/
inductive SchedOp (κ : Type) where
  | add (ctxt task : Ptr) (pior : Int)
  | delete (ctxt task : Ptr)
  | deleteAll (ctxt : Ptr)
  | timer (o : TimerOp κ)

/-- The same call, on the timers of the process. -/
def TimerOp.lift : TimerOp κ → TimerOp (TimerFn κ)
  | .create t interval ctxt callBack => .create t interval ctxt (.other callBack)
  | .setInterval t interval => .setInterval t interval
  | .setCallback t callBack => .setCallback t (.other callBack)
  | .start t repeats => .start t repeats
  | .setTimeout t timeout => .setTimeout t timeout
  | .stop t => .stop t
  | .destroy t => .destroy t

namespace Sched

/-- A call, with its result if it has one. Nobody else has the address of the scheduler's timer. -/
def op (w : Sched κ) : SchedOp κ → Res (Sched κ × Int)
  | .add ctxt task pior => do
    let (w', r) ← schedulerAddTask w ctxt task pior
    let w' := w'.note (.deleted ctxt task)
    return (if r = 0 then w'.note (.added ⟨pior, ctxt, task⟩) else w', r)
  | .delete ctxt task =>
    let (w', r) := schedulerDeleteTask w ctxt task
    .ok (w'.note (.deleted ctxt task), r)
  | .deleteAll ctxt => .ok ((schedulerDeleteAll w ctxt).note (.deletedAll ctxt), 0)
  | .timer o =>
    if o.lift.target.1 = w.timerAddr then .ok (w, 0)
    else do
      let run ← TimerRun.op ⟨w.ts, none, []⟩ o.lift
      return ({ w with ts := run.ts }, 0)

/-- Calls one after the other. -/
def ops : List (SchedOp κ) → Sched κ → Res (Sched κ)
  | [], w => .ok w
  | o :: os, w => do
    let (w, _) ← w.op o
    ops os w

end Sched

/-- `scheduler_callback`; the task that it runs makes the calls `script`. -/
def schedulerCallback (w : Sched κ) (script : List (SchedOp κ)) : Res (Sched κ) :=
  match w.schd.entries with
  | [] => schedulerDisable w
  | pe :: entries => do
    let w ← Sched.ops script ((w.setEntries entries).note (.ran pe))
    if w.schd.entries = [] then schedulerDisable w else return w

/-- What a timer calls; it, or the task that it runs, makes the calls `script`. -/
def TimerFn.call (f : TimerFn κ) (w : Sched κ) (script : List (SchedOp κ)) : Res (Sched κ) :=
  match f with
  | .schedulerCallback => Utils.schedulerCallback w script
  | .other _ => Sched.ops script w

namespace Sched

/-- The callback of a timer, with the next script. -/
def callback (_ : Ptr) (tm : Timer (TimerFn κ)) (x : Sched κ × List (List (SchedOp κ))) :
    Res (Sched κ × List (List (SchedOp κ))) := do
  let w ← tm.callBack.call x.1 (x.2.headD [])
  return (w, x.2.tail)

def getTs (x : Sched κ × List (List (SchedOp κ))) : Timers (TimerFn κ) := x.1.ts

def setTs (x : Sched κ × List (List (SchedOp κ))) (ts : Timers (TimerFn κ)) :
    Sched κ × List (List (SchedOp κ)) := ({ x.1 with ts := ts }, x.2)

/-- A pass of `timer_check_timeout`. -/
def pass (w : Sched κ) (scripts : List (List (SchedOp κ))) : Res (Sched κ) := do
  let (w, _) ← timerCheckTimeout getTs setTs callback (w, scripts)
  return w.1

end Sched

/-- What happens between two passes, or a pass. -/
inductive SchedAction (κ : Type) where
  | op (o : SchedOp κ)
  | pass (scripts : List (List (SchedOp κ)))

def Sched.step (w : Sched κ) : SchedAction κ → Res (Sched κ)
  | .op o => do
    let (w, _) ← w.op o
    return w
  | .pass scripts => w.pass scripts

/-! ## What the calls do to the list -/

/-- Each task occurs at most once. -/
def Tasks (entries : List SchedulerEntry) : Prop := (entries.map SchedulerEntry.key).Nodup

section
variable {entry pe e : SchedulerEntry} {entries rest : List SchedulerEntry} {ctxt task : Ptr}

theorem is_iff_key : e.Is ctxt task = true ↔ e.key = (ctxt, task) := by
  simp [SchedulerEntry.Is, SchedulerEntry.key]

theorem Tasks.filter (h : Tasks entries) (q : SchedulerEntry → Bool) : Tasks (entries.filter q) :=
  h.sublist (List.filter_sublist.map _)

/-- The first entry of a task is its only one. -/
theorem Tasks.eraseP (h : Tasks entries) (ctxt task : Ptr) :
    entries.eraseP (SchedulerEntry.Is ctxt task) = entries.filter fun e => !e.Is ctxt task := by
  induction entries with
  | nil => rfl
  | cons e rest ih =>
    obtain ⟨hnot, hrest⟩ := List.nodup_cons.1 h
    by_cases he : e.Is ctxt task = true
    · have hkeep : ∀ x ∈ rest, (!x.Is ctxt task) = true := by
        intro x hx
        rw [Bool.not_eq_true', ← Bool.not_eq_true, is_iff_key, ← is_iff_key.1 he]
        exact fun hkey => hnot (hkey ▸ List.mem_map_of_mem hx)
      rw [List.eraseP_cons_of_pos he, List.filter_cons_of_neg (by simp [he]), List.filter_eq_self.2 hkeep]
    · rw [List.eraseP_cons_of_neg (by simpa using he), List.filter_cons_of_pos (by simpa using he), ih hrest]

theorem schedulerDeleteTask_entries {w : Sched κ} (h : Tasks w.schd.entries) (ctxt task : Ptr) :
    (schedulerDeleteTask w ctxt task).1 =
      w.setEntries (w.schd.entries.filter fun e => !e.Is ctxt task) := by
  unfold schedulerDeleteTask
  split
  · rw [← h.eraseP]
  · rename_i hnone
    have hkeep : ∀ e ∈ w.schd.entries, (!e.Is ctxt task) = true := by simpa using hnone
    rw [List.filter_eq_self.2 hkeep]
    rfl

theorem deleteAllEntries_eq (ctxt : Ptr) (entries : List SchedulerEntry) :
    deleteAllEntries ctxt entries = entries.filter fun e => !e.Of ctxt := by
  unfold deleteAllEntries
  induction entries with
  | nil => rfl
  | cons e rest ih =>
    by_cases he : e.Of ctxt = true
    · rw [List.dropWhile_cons_of_pos he, ih, List.filter_cons_of_neg (by simp [he])]
    · rw [List.dropWhile_cons_of_neg he, List.filter_cons_of_pos (by simpa using he)]

theorem insertBehind_perm : (insertBehind entry pe rest).Perm (entry :: pe :: rest) := by
  induction rest generalizing pe with
  | nil => exact List.Perm.swap ..
  | cons nx rest ih =>
    unfold insertBehind
    split
    · exact List.Perm.swap ..
    · exact (ih.cons pe).trans (List.Perm.swap ..)

theorem insertEntry_cons : insertEntry entry (pe :: rest) =
    if entry.pior < pe.pior then entry :: pe :: rest else insertBehind entry pe rest := rfl

theorem insertEntry_perm : (insertEntry entry entries).Perm (entry :: entries) := by
  cases entries with
  | nil => exact List.Perm.refl _
  | cons pe rest =>
    rw [insertEntry_cons]
    split
    · exact List.Perm.refl _
    · exact insertBehind_perm

theorem insertEntry_tasks (h : Tasks entries) (hnew : ∀ e ∈ entries, e.key ≠ entry.key) :
    Tasks (insertEntry entry entries) := by
  unfold Tasks
  rw [(insertEntry_perm.map SchedulerEntry.key).nodup_iff, List.map_cons, List.nodup_cons]
  refine ⟨fun hmem => ?_, h⟩
  obtain ⟨e, he, hkey⟩ := List.mem_map.1 hmem
  exact hnew e he hkey

/-! ## The order of the list -/

/-- The most urgent first. -/
def ByPior (entries : List SchedulerEntry) : Prop := entries.Pairwise fun x y => x.pior ≤ y.pior

/-- The priorities for which `insertEntry` keeps the order of a list. -/
def Fits (pior : Int) (entries : List SchedulerEntry) : Prop :=
  (∀ pe ∈ entries.head?, pior < pe.pior) ∨ ∀ e ∈ entries.tail, e.pior = pior

/-- The loop puts the entry in front of a less urgent one, or at the end. -/
theorem insertBehind_cases :
    (∃ nx ∈ rest, nx.pior < entry.pior ∧ [entry, nx].Sublist (insertBehind entry pe rest)) ∨
      (∀ e ∈ rest, entry.pior ≤ e.pior) ∧ insertBehind entry pe rest = pe :: rest ++ [entry] := by
  induction rest generalizing pe with
  | nil => exact .inr ⟨fun _ he => (nomatch he), rfl⟩
  | cons nx rest ih =>
    unfold insertBehind
    by_cases hnx : entry.pior > nx.pior
    · rw [if_pos hnx]
      exact .inl ⟨nx, List.mem_cons_self, hnx, List.Sublist.cons _ (by simp)⟩
    · rw [if_neg hnx]
      cases @ih nx with
      | inl hless =>
        obtain ⟨x, hmem, hx, hsub⟩ := hless
        exact .inl ⟨x, List.mem_cons_of_mem _ hmem, hx, hsub.cons _⟩
      | inr hlast =>
        refine .inr ⟨fun e he => ?_, congrArg (List.cons pe) hlast.2⟩
        cases List.mem_cons.1 he with
        | inl he => exact he ▸ not_lt.1 hnx
        | inr he => exact hlast.1 e he

/-- An insertion that keeps the order: in front of all, or behind all. -/
theorem Fits.insertEntry (h : ByPior entries) (hfits : Fits entry.pior entries) :
    (∀ e ∈ entries, entry.pior < e.pior) ∧ insertEntry entry entries = entry :: entries ∨
      (∀ e ∈ entries, e.pior ≤ entry.pior) ∧ insertEntry entry entries = entries ++ [entry] := by
  cases entries with
  | nil => exact .inl ⟨fun _ he => (nomatch he), rfl⟩
  | cons pe rest =>
    obtain ⟨hpe, -⟩ := List.pairwise_cons.1 h
    rw [insertEntry_cons]
    by_cases hlt : entry.pior < pe.pior
    · rw [if_pos hlt]
      refine .inl ⟨fun e he => ?_, rfl⟩
      cases List.mem_cons.1 he with
      | inl he => exact he ▸ hlt
      | inr he => exact lt_of_lt_of_le hlt (hpe e he)
    · rw [if_neg hlt]
      have hrest : ∀ e ∈ rest, e.pior = entry.pior :=
        hfits.resolve_left fun hhead => hlt (hhead pe rfl)
      refine .inr ⟨fun e he => ?_, ?_⟩
      · cases List.mem_cons.1 he with
        | inl he => exact he ▸ not_lt.1 hlt
        | inr he => exact le_of_eq (hrest e he)
      · cases @insertBehind_cases entry pe rest with
        | inl hless =>
          obtain ⟨nx, hmem, hnx, -⟩ := hless
          exact absurd (hrest nx hmem) (ne_of_lt hnx)
        | inr hlast => exact hlast.2

/-- Any other insertion breaks the order. -/
theorem fits_of_byPior (h : ByPior (insertEntry entry entries)) : Fits entry.pior entries := by
  cases entries with
  | nil => exact .inr fun _ he => nomatch he
  | cons pe rest =>
    rw [insertEntry_cons] at h
    by_cases hlt : entry.pior < pe.pior
    · exact .inl fun x hx => Option.some.inj hx ▸ hlt
    · rw [if_neg hlt] at h
      refine .inr fun e he => ?_
      cases @insertBehind_cases entry pe rest with
      | inl hless =>
        obtain ⟨nx, -, hnx, hsub⟩ := hless
        have hle : entry.pior ≤ nx.pior := by simpa using h.sublist hsub
        omega
      | inr hlast =>
        have hle : e.pior ≤ entry.pior := by
          rw [hlast.2] at h
          exact (List.pairwise_append.1 h).2.2 e (List.mem_cons_of_mem _ he) entry (by simp)
        have := hlast.1 e he
        omega

end

end Utils
