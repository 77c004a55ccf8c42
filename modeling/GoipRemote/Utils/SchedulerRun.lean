import GoipRemote.Utils.SchedulerInv

/-!
# No task is stranded

`scheduler_run`: in any run a task leaves the list only by being deleted or run, and the timer of a list with
tasks is armed as long as no pass finds its count at `2`. The count starts at `-1` and wraps round, so such a
pass comes after `2 ^ 32 - 3` others in which the list was never empty; with the second pass from there on
the tasks that are left are stranded: `scheduler_stranded`.
-/

namespace Utils

open Function LinkedList

variable {κ : Type}

/-! ## Runs -/

/-- The condition on a step: in a pass, the timer of the scheduler is not at its last time but one. -/
def SchedAction.Lasts (w : Sched κ) : SchedAction κ → Prop
  | .op _ => True
  | .pass _ => w.Lasts

theorem Sched.step_ok {c : Prop} {w : Sched κ} {q : Queue} (h : SchedInv c w q)
    (hlock : w.ts.inCheckTimeoutLock = false) (act : SchedAction κ) :
    ∃ w' q', w.step act = .ok w' ∧ SchedInv (c ∧ act.Lasts w) w' q' ∧
      w'.ts.inCheckTimeoutLock = false ∧ w'.alloc = w.alloc ∧ w'.ts.malloc = w.ts.malloc := by
  cases act with
  | op o =>
    obtain ⟨w', r, q', hrun, h', hfr, -⟩ := op_ok h o
    exact ⟨w', q', by rw [Sched.step, hrun]; rfl, h'.mono And.left, hfr.lock.trans hlock, hfr.alloc,
      hfr.malloc⟩
  | pass scripts => exact pass_ok h scripts

theorem Sched.run_ok {c : Prop} {w : Sched κ} {q : Queue} (h : SchedInv c w q)
    (hlock : w.ts.inCheckTimeoutLock = false) (acts : List (SchedAction κ)) :
    ∃ w' q', Runs.run Sched.step acts w = .ok w' ∧
      SchedInv (c ∧ Runs.Along Sched.step (fun w act => act.Lasts w) acts w) w' q' ∧
      w'.ts.inCheckTimeoutLock = false ∧ w'.alloc = w.alloc ∧ w'.ts.malloc = w.ts.malloc := by
  induction acts generalizing c w q with
  | nil => exact ⟨w, q, rfl, h.mono And.left, hlock, rfl, rfl⟩
  | cons act acts ih =>
    obtain ⟨w₁, q₁, hstep, h₁, hlock₁, halloc₁, hmalloc₁⟩ := Sched.step_ok h hlock act
    obtain ⟨w', q', hrun, h', hlock', halloc', hmalloc'⟩ := ih h₁ hlock₁
    refine ⟨w', q', ?_, h'.mono ?_, hlock', halloc'.trans halloc₁, hmalloc'.trans hmalloc₁⟩
    · rw [Runs.run, hstep]
      exact hrun
    · intro hall
      obtain ⟨hc, hlast, hrest⟩ := hall
      exact ⟨⟨hc, hlast⟩, hrest w₁ hstep⟩

/-- The timer is armed: `timer_list` has an entry of it that repeats, and it is of interval `0`. -/
structure Sched.TimerArmed (w : Sched κ) : Prop where
  timer : w.ts.timers w.schd.timer = some ⟨0, 0, .schedulerCallback⟩
  entry : ∃ e, w.ts.Listed e ∧ (w.ts.entries e).timer = w.schd.timer ∧ (w.ts.entries e).repeats ≠ 1

theorem SchedInv.timerArmed {c : Prop} {w : Sched κ} {q : Queue} (h : SchedInv c w q) (hc : c)
    (hlock : w.ts.inCheckTimeoutLock = false) (ha : w.Allocates) (hne : w.schd.entries ≠ []) :
    w.TimerArmed := by
  obtain ⟨a, hmem, hat⟩ := h.armed hc ha hne
  have hrepeats := h.repeats hc a hmem hat
  have halive := h.sound.alive a hmem
  rw [Queue.all, h.sound.idle hlock, List.append_nil] at hmem
  obtain ⟨e, hlisted, rfl⟩ := h.sound.rep.listed.1 hmem
  cases h.timer with
  | inl hno =>
    rw [hat, hno.2] at halive
    cases halive
  | inr hsome => exact ⟨hsome.1 ▸ hsome.2, e, hlisted, hat.trans hsome.1.symm, hrepeats⟩

/-- **`utils/scheduler.c`.** Any calls and passes, whatever the tasks and the other timers do: the run does
not fault; the entries of the list are those that were added and have been neither deleted nor run since,
each being run when it was there; and between two passes a list with entries has its timer armed, as long as
no pass has found the timer at its last time but one. -/
theorem scheduler_run (clock : Nat → Timeval) (timerAddr : { p : Ptr // p ≠ 0 })
    (acts : List (SchedAction κ)) :
    ∃ w, Runs.run Sched.step acts (.init clock (fun _ => true) timerAddr fun _ => true) = .ok w ∧
      (∀ e, e ∈ w.schd.entries ↔ Waiting e w.log) ∧ RunsWaiting w.log ∧
      (Runs.Along Sched.step (fun w act => act.Lasts w) acts
        (.init clock (fun _ => true) timerAddr fun _ => true) → w.schd.entries ≠ [] → w.TimerArmed) := by
  obtain ⟨w, q, hrun, h, hlock, halloc, hmalloc⟩ :=
    Sched.run_ok (init_schedInv (κ := κ) (c := True) clock (fun _ => true) timerAddr fun _ => true) rfl acts
  exact ⟨w, hrun, h.logged.waiting, h.logged.runs,
    fun hlast => h.timerArmed ⟨trivial, hlast⟩ hlock ⟨halloc, hmalloc⟩⟩

/-- A clock that is read once a microsecond. -/
def everyUsec (n : Nat) : Timeval := ⟨n / 1000000, n % 1000000⟩

theorem everyUsec_due {n m : Nat} (h : n ≤ m) (hm : m ≤ n + 2) :
    0 ≤ tvcmp (everyUsec m) (everyUsec n) := by
  have hms : tvcmp (everyUsec m) (everyUsec n) = 0 ∨ tvcmp (everyUsec m) (everyUsec n) = 1 := by
    unfold tvcmp everyUsec toInt
    by_cases hsec : (m : Int) / 1000000 = n / 1000000
    · have husec : ((m : Int) % 1000000 - n % 1000000).tdiv 1000 = 0 := by
        rw [Int.tdiv_eq_ediv_of_nonneg (by omega)]
        omega
      simp [hsec, husec]
    · have husec : ((m : Int) % 1000000 - n % 1000000).tdiv 1000 = -999 := by
        rw [← Int.neg_neg (_ - _), Int.neg_tdiv, Int.tdiv_eq_ediv_of_nonneg (by omega)]
        omega
      have : (m : Int) / 1000000 - n / 1000000 = 1 := by omega
      simp [this, husec]
  omega

theorem everyUsec_sample {s : Timers κ} (h : s.clock = everyUsec) :
    sampleTime s = (everyUsec s.tick, { s with tick := s.tick + 1 }) := by
  have husec : ¬ ((everyUsec s.tick).tvUsec > 1000000 ∨ (everyUsec s.tick).tvUsec < 0) := by
    simp only [everyUsec]
    omega
  simp only [sampleTime, h, if_neg husec]

theorem everyUsec_deadline (n : Nat) : deadline (everyUsec n) 0 = everyUsec n := by
  have husec : ¬ (everyUsec n).tvUsec > 1000000 := by
    simp only [everyUsec]
    omega
  simp [deadline, husec]

/-- A pass in which one timer is due. -/
theorem Sched.pass_once {w w₁ : Sched κ} {script : List (SchedOp κ)} {q : Ptr} {tm : Timer (TimerFn κ)}
    {ts ts' : Timers (TimerFn κ)} {timeout : Int} (hbrk : w.ts.brk = 2)
    (hfire : timerFire (timerEnter w.ts).1 (timerEnter w.ts).2 = .ok (some (q, ts)))
    (htimer : ts.timers q = some tm) (hcall : tm.callBack.call { w with ts := ts } script = .ok w₁)
    (hnone : timerFire (timerEnter w.ts).1 w₁.ts = .ok none) (hleave : timerLeave w₁.ts = .ok (ts', timeout)) :
    w.pass [script] = .ok { w₁ with ts := ts' } := by
  have hbrk' : (timerEnter w.ts).2.brk = 2 := hbrk
  simp [Sched.pass, timerCheckTimeout, Sched.getTs, Sched.setTs, hbrk', timerLoop, hfire, htimer, Res.deref,
    Sched.callback, hcall, hnone, hleave]

section
variable {r : Int32} {w : Sched Unit}

/-- Two tasks wait, and the timer of the scheduler has the count `r`. -/
structure Spinning (r : Int32) (w : Sched Unit) : Prop where
  timerList : w.ts.timerList = 1
  pendingList : w.ts.pendingList = 0
  brk : w.ts.brk = 2
  entry : ∃ n, w.ts.entries 1 = ⟨9, everyUsec n, r, 0⟩ ∧ n ≤ w.ts.tick ∧ w.ts.tick ≤ n + 2
  timers : w.ts.timers 9 = some ⟨0, 0, .schedulerCallback⟩
  clock : w.ts.clock = everyUsec
  schd : w.schd = ⟨9, [⟨0, 1, 1⟩, ⟨1, 2, 2⟩]⟩
  alloc : w.alloc = fun _ => true

/-- The timer fires: its entry waits for the end of the pass, or is freed with the count at `0`. -/
theorem Spinning.fires (h : Spinning r w) :
    ∃ ts, timerFire (timerEnter w.ts).1 (timerEnter w.ts).2 = .ok (some (9, ts)) ∧
      ts.timers = w.ts.timers ∧ ts.timerList = 0 ∧ ts.clock = everyUsec ∧ ts.brk = 2 ∧
      (r = 1 → ts.pendingList = 0) ∧
      (r ≠ 1 → ts.pendingList = 1 ∧ ts.entries 1 = ⟨9, everyUsec (w.ts.tick + 1), r - 1, 0⟩ ∧
        ts.tick = w.ts.tick + 2) := by
  obtain ⟨n, hentry, hn, hn'⟩ := h.entry
  have henter : timerEnter w.ts =
      (everyUsec w.ts.tick, { w.ts with tick := w.ts.tick + 1, inCheckTimeoutLock := true }) := by
    rw [timerEnter, everyUsec_sample h.clock]
  have hround : ¬ ((1 : Ptr) = 0 ∨ tvcmp (everyUsec w.ts.tick) (w.ts.entries 1).timeout < 0) := by
    rw [hentry]
    exact not_or.2 ⟨by decide, not_lt.2 (everyUsec_due hn hn')⟩
  rw [henter, timerFire, h.timerList, if_neg hround]
  -- the entry is off the list, and its count has gone down
  generalize hs : unlinkHead _ = s
  obtain ⟨htimers, hlist, hpend, hclock, hbrk, hentry', htick, hlock⟩ : s.timers = w.ts.timers ∧
      s.timerList = 0 ∧ s.pendingList = 0 ∧ s.clock = everyUsec ∧ s.brk = 2 ∧
      s.entries 1 = ⟨9, everyUsec n, r - 1, 0⟩ ∧ s.tick = w.ts.tick + 1 ∧ s.inCheckTimeoutLock = true := by
    rw [← hs]
    simp [unlinkHead, noteJitter, Timers.next, Timers.setEntry, hentry, h.timerList, h.pendingList, h.clock,
      h.brk]
  simp only [hentry']
  by_cases hr : r = 1
  · rw [if_neg (by rw [hr]; decide)]
    exact ⟨_, rfl, htimers, hlist, hclock, hbrk, fun _ => hpend, fun hne => absurd hr hne⟩
  · have hrep : r - 1 ≠ 0 := by grind
    simp [if_pos hrep, addTimer, everyUsec_sample hclock, htimers, h.timers, Res.deref, hentry', htick, hlock,
      everyUsec_deadline, pendTimer, Timers.setNext, Timers.setEntry, hlist, hclock, hbrk, hr, hpend]

/-- The first task adds itself again. -/
theorem Spinning.calls (h : Spinning r w) (ts : Timers (TimerFn Unit)) :
    ∃ log', schedulerCallback { w with ts := ts } [.add 1 1 0] =
      .ok { w with ts := ts, allocs := w.allocs + 1, log := log' } := by
  obtain ⟨ts₀, schd, addr, alloc, allocs, log⟩ := w
  obtain ⟨-, -, -, -, -, -, hschd, halloc⟩ := h
  dsimp only at hschd halloc
  subst hschd halloc
  exact ⟨_, rfl⟩

theorem Spinning.pass (h : Spinning r w) (hr : r ≠ 1) :
    ∃ w', w.pass [[.add 1 1 0]] = .ok w' ∧ Spinning (r - 1) w' := by
  obtain ⟨ts, hfire, htimers, hlist, hclock, hbrk, -, hnext⟩ := h.fires
  have htimer : ts.timers 9 = some ⟨0, 0, .schedulerCallback⟩ := htimers ▸ h.timers
  obtain ⟨hpend, hentry, htick⟩ := hnext hr
  obtain ⟨log', hcall⟩ := h.calls ts
  have hnone : timerFire (timerEnter w.ts).1 ts = .ok none := by
    rw [timerFire, hlist, if_pos (.inl rfl)]
  obtain ⟨ts', timeout, hleave, htimers', hlist', hpend', hclock', hbrk', hentry', htick'⟩ :
      ∃ ts' timeout, timerLeave ts = .ok (ts', timeout) ∧ ts'.timers = ts.timers ∧ ts'.timerList = 1 ∧
        ts'.pendingList = 0 ∧ ts'.clock = everyUsec ∧ ts'.brk = 2 ∧ ts'.entries 1 = ts.entries 1 ∧
        ts'.tick = ts.tick + 1 := by
    simp [timerLeave, hpend, hbrk, mergePending, insertTimer, Timers.setNext, Timers.setEntry, hentry,
      Timers.next, hlist, everyUsec_sample, hclock]
  have hle : w.ts.tick + 1 ≤ ts'.tick := by omega
  have hge : ts'.tick ≤ w.ts.tick + 1 + 2 := by omega
  refine ⟨_, Sched.pass_once h.brk hfire htimer hcall hnone hleave, ?_⟩
  exact ⟨hlist', hpend', hbrk', ⟨w.ts.tick + 1, hentry'.trans hentry, hle, hge⟩,
    htimers' ▸ htimer, hclock', h.schd, h.alloc⟩

/-- The count reaches `0`: the timer is not armed again, and the tasks stay. -/
theorem Spinning.last (h : Spinning 1 w) :
    ∃ w', w.pass [[.add 1 1 0]] = .ok w' ∧ w'.schd.entries ≠ [] ∧ w'.ts.timerList = 0 := by
  obtain ⟨ts, hfire, htimers, hlist, -, hbrk, hstop, -⟩ := h.fires
  have htimer : ts.timers 9 = some ⟨0, 0, .schedulerCallback⟩ := htimers ▸ h.timers
  have hpend := hstop rfl
  obtain ⟨log', hcall⟩ := h.calls ts
  have hnone : timerFire (timerEnter w.ts).1 ts = .ok none := by
    rw [timerFire, hlist, if_pos (.inl rfl)]
  have hleave : timerLeave ts = .ok ({ ts with inCheckTimeoutLock := false, pendingList := 0 }, -1) := by
    simp [timerLeave, hpend, hbrk, mergePending, hlist]
  refine ⟨_, Sched.pass_once h.brk hfire htimer hcall hnone hleave, ?_, hlist⟩
  show w.schd.entries ≠ []
  rw [h.schd]
  exact List.cons_ne_nil _ _

/-- **Run lemma.** Each pass takes one from the count. -/
theorem Spinning.run (h : Spinning (-1) w) (k : Nat) (hk : k ≤ 2 ^ 32 - 2) :
    ∃ w', Runs.run Sched.step (List.replicate k (.pass [[.add 1 1 0]])) w = .ok w' ∧
      Spinning (-1 - Int32.ofNat k) w' := by
  induction k with
  | zero => exact ⟨w, rfl, by simpa using h⟩
  | succ k ih =>
    obtain ⟨w₁, hrun, h₁⟩ := ih (by omega)
    have hr : -1 - Int32.ofNat k ≠ 1 := by
      intro hc
      have hmod : k % 2 ^ 32 = 2 ^ 32 - 2 := by
        have hk : Int32.ofNat k = -2 := by grind
        simpa using congrArg (fun n => n.toBitVec.toNat) hk
      omega
    obtain ⟨w', hpass, h'⟩ := h₁.pass hr
    refine ⟨w', ?_, ?_⟩
    · rw [List.replicate_succ']
      refine Runs.run_trans hrun ?_
      rw [Runs.run, Sched.step, hpass]
      rfl
    · have : -1 - Int32.ofNat (k + 1) = -1 - Int32.ofNat k - 1 := by
        rw [Int32.ofNat_add]
        grind
      rw [this]
      exact h'

theorem Spinning.lasts (h : Spinning r w) (hr : r ≠ 2) : w.Lasts := by
  intro e ⟨l, hl, he⟩ _
  obtain ⟨n, hentry, -⟩ := h.entry
  have hnext : w.ts.next 1 = 0 := by rw [Timers.next, hentry]
  have hone : IsList w.ts.next w.ts.timerList [1] := ⟨h.timerList, by decide, hnext⟩
  rw [hl.unique hone, List.mem_singleton] at he
  rw [he, hentry]
  exact hr

/-- Two tasks are added. -/
theorem spinning_add_add :
    ∃ w, Runs.run Sched.step [.op (.add 1 1 0), .op (.add 2 2 1)]
      (.init everyUsec (fun _ => true) ⟨9, by decide⟩ fun _ => true : Sched Unit) = .ok w ∧ Spinning (-1) w :=
  ⟨_, rfl, rfl, rfl, rfl, ⟨0, rfl, by decide, by decide⟩, rfl, rfl, rfl, rfl⟩

end

/-- A task is added and runs, and a second one waits: the timer is armed. -/
theorem scheduler_run_two :
    ∃ w, Runs.run Sched.step [.op (.add 1 1 0), .op (.add 2 2 1), .pass [[]]]
        (.init everyUsec (fun _ => true) ⟨9, by decide⟩ fun _ => true : Sched Unit) = .ok w ∧
      w.schd.entries = [⟨1, 2, 2⟩] ∧ Waiting ⟨1, 2, 2⟩ w.log ∧ ¬ Waiting ⟨0, 1, 1⟩ w.log ∧ w.TimerArmed := by
  obtain ⟨w, hrun, hwaiting, -, harmed⟩ := scheduler_run (κ := Unit) everyUsec ⟨9, by decide⟩
    [.op (.add 1 1 0), .op (.add 2 2 1), .pass [[]]]
  have hentries : w.schd.entries = [⟨1, 2, 2⟩] := by
    have h := hrun
    cases h
    rfl
  refine ⟨w, hrun, hentries, (hwaiting _).1 ?_, fun h => ?_, harmed ?_ ?_⟩
  · simp [hentries]
  · have := (hwaiting _).2 h
    simp [hentries] at this
  · obtain ⟨w₀, hrun₀, h₀⟩ := spinning_add_add
    refine ⟨trivial, fun w₁ h₁ => ⟨trivial, fun w₂ h₂ => ⟨?_, fun _ _ => trivial⟩⟩⟩
    have hrun₂ : Runs.run Sched.step [.op (.add 1 1 0), .op (.add 2 2 1)]
        (.init everyUsec (fun _ => true) ⟨9, by decide⟩ fun _ => true : Sched Unit) = .ok w₂ := by
      rw [Runs.run, h₁, Res.ok_bind, Runs.run, h₂]
      rfl
    cases hrun₀.symm.trans hrun₂
    exact h₀.lasts (by decide)
  · simp [hentries]

/-- Two tasks, of which the first adds itself again each time: the timer stops after `2 ^ 32 - 1` passes. -/
theorem scheduler_stranded :
    ∃ w, Runs.run Sched.step
        ([.op (.add 1 1 0), .op (.add 2 2 1)] ++ List.replicate (2 ^ 32 - 1) (.pass [[.add 1 1 0]]))
        (.init everyUsec (fun _ => true) ⟨9, by decide⟩ fun _ => true : Sched Unit) = .ok w ∧
      w.schd.entries ≠ [] ∧ ¬ w.TimerArmed := by
  obtain ⟨w₀, hrun₀, h₀⟩ := spinning_add_add
  obtain ⟨w₁, hrun₁, h₁⟩ := h₀.run (2 ^ 32 - 2) (by omega)
  obtain ⟨w, hpass, hne, hlist⟩ := Spinning.last h₁
  refine ⟨w, ?_, hne, fun harmed => ?_⟩
  · have hlast : 2 ^ 32 - 1 = 2 ^ 32 - 2 + 1 := by norm_num
    rw [hlast, List.replicate_succ']
    refine Runs.run_trans hrun₀ (Runs.run_trans hrun₁ ?_)
    rw [Runs.run, Sched.step, hpass]
    rfl
  · obtain ⟨e, ⟨l, hl, he⟩, -⟩ := harmed.entry
    rw [hlist, isList_zero] at hl
    rw [hl] at he
    cases he

end Utils
