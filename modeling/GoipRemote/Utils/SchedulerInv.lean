import GoipRemote.Utils.Scheduler
import GoipRemote.Utils.TimerPass

/-!
# The invariant of the scheduler

`SchedTimer c w q`: the timer queue is `q`, and the timer of the scheduler, once it was made, is the only one
that calls `scheduler_callback` and is not touched by others; under the condition `c` it repeats. `Logged w`:
the entries of the list are those that the log says are waiting. Every call keeps both, within a pass too
(`op_ok`), and under `c` a list with entries has its timer armed (`SchedInv`).

The timer is started with the count `-1` and loses one each time it fires. A pass keeps the invariant under
`c` and the condition that it does not find the count at `2` (`pass_ok`), after which the timer would fire
only once more.
-/

namespace Utils

open Function

variable {κ : Type}

/-! ## The timer -/

/-- The timer of the scheduler in the queue (module doc). -/
structure SchedTimer (c : Prop) (w : Sched κ) (q : Queue) : Prop where
  sound : Sound w.ts q
  timer : w.schd.timer = 0 ∧ w.ts.timers w.timerAddr = none ∨
    w.schd.timer = w.timerAddr ∧ w.ts.timers w.timerAddr = some ⟨0, 0, .schedulerCallback⟩
  only : ∀ t tm, w.ts.timers t = some tm → tm.callBack = .schedulerCallback → t = w.timerAddr
  repeats : c → ∀ e ∈ q.all, e.timer = w.timerAddr → e.repeats ≠ 1

/-- The timer has an entry. -/
def Armed.In (t : Ptr) (q : Queue) : Prop := ∃ e ∈ q.all, e.timer = t

/-- What no call changes, and that it adds nothing to `timer_list` within a pass. -/
structure SchedFrame (w w' : Sched κ) (q q' : Queue) : Prop where
  alloc : w'.alloc = w.alloc
  malloc : w'.ts.malloc = w.ts.malloc
  lock : w'.ts.inCheckTimeoutLock = w.ts.inCheckTimeoutLock
  timerAddr : w'.timerAddr = w.timerAddr
  list : w.ts.inCheckTimeoutLock = true → q'.list.Sublist q.list

/-- Every allocation succeeds. -/
def Sched.Allocates (w : Sched κ) : Prop := (w.alloc = fun _ => true) ∧ w.ts.malloc = fun _ => true

section
variable {c : Prop} {w w' w'' : Sched κ} {q q' q'' : Queue} {e : SchedulerEntry}

theorem SchedFrame.refl (w : Sched κ) (q : Queue) : SchedFrame w w q q :=
  ⟨rfl, rfl, rfl, rfl, fun _ => .refl _⟩

theorem SchedFrame.trans (h : SchedFrame w w' q q') (h' : SchedFrame w' w'' q' q'') :
    SchedFrame w w'' q q'' where
  alloc := h'.alloc.trans h.alloc
  malloc := h'.malloc.trans h.malloc
  lock := h'.lock.trans h.lock
  timerAddr := h'.timerAddr.trans h.timerAddr
  list := fun hl => (h'.list (h.lock.trans hl)).trans (h.list hl)

theorem SchedFrame.allocates (h : SchedFrame w w' q q') (ha : w.Allocates) : w'.Allocates :=
  ⟨h.alloc.trans ha.1, h.malloc.trans ha.2⟩

theorem remove_sublist (hu : q.Unique) (t : Ptr) : (q.remove t).list.Sublist q.list := by
  rw [Queue.remove_eq hu]
  exact List.filter_sublist

theorem arm_sublist (hu : q.Unique) (t : Ptr) (a : Armed) :
    ((q.remove t).arm true a).list.Sublist q.list :=
  remove_sublist hu t

/-- Starting the timer that the scheduler has. -/
theorem startSchedulerTimer_ok (h : SchedTimer c w q) (ht : w.schd.timer = w.timerAddr) :
    ∃ w' r q', startSchedulerTimer w = .ok (w', r) ∧ SchedTimer c w' q' ∧ SchedFrame w w' q q' ∧
      w'.schd = w.schd ∧ w'.log = w.log ∧ (w.Allocates → Armed.In w.timerAddr q') := by
  have halive : (w.ts.timers w.schd.timer).isSome = true := by
    cases h.timer with
    | inl hno => exact absurd (ht.symm.trans hno.1) w.timerAddr.2
    | inr hsome => rw [ht, hsome.2]; rfl
  obtain ⟨ts, r, q', hrun, hfr, hs, hq⟩ := startTimer_sound h.sound halive (-1)
  have hmem : c → ∀ e ∈ q'.all, e.timer = w.timerAddr → e.repeats ≠ 1 := by
    intro hc e he het
    rcases hq with ⟨-, rfl, -⟩ | ⟨-, d, rfl⟩
    · exact h.repeats hc e ((Queue.mem_remove h.sound.unique).1 he).1 het
    · cases Queue.mem_arm.1 he with
      | inl he =>
        subst he
        show (-1 : Int32) ≠ 1
        decide
      | inr he => exact h.repeats hc e ((Queue.mem_remove h.sound.unique).1 he).1 het
  have hlist : w.ts.inCheckTimeoutLock = true → q'.list.Sublist q.list := by
    intro hl
    rcases hq with ⟨-, rfl, -⟩ | ⟨-, d, rfl⟩
    · exact remove_sublist h.sound.unique _
    · rw [hl]
      exact arm_sublist h.sound.unique ..
  refine ⟨{ w with ts := ts }, r, q', by rw [startSchedulerTimer, hrun]; rfl, ⟨hs, ?_, ?_, hmem⟩,
    ⟨rfl, hfr.malloc, hfr.lock, rfl, hlist⟩, rfl, rfl, fun ha => ?_⟩
  · show _ ∧ ts.timers _ = _ ∨ _ ∧ ts.timers _ = _
    rw [hfr.timers]
    exact h.timer
  · intro t tm htm
    rw [hfr.timers] at htm
    exact h.only t tm htm
  · rcases hq with ⟨-, -, hm⟩ | ⟨-, d, rfl⟩
    · exact absurd ha.2 hm
    · exact ⟨_, Queue.mem_arm.2 (.inl rfl), ht⟩

theorem schedulerEnable_ok (h : SchedTimer c w q) :
    ∃ w' r q', schedulerEnable w = .ok (w', r) ∧ SchedTimer c w' q' ∧ SchedFrame w w' q q' ∧
      w'.schd.entries = w.schd.entries ∧ w'.log = w.log ∧ (w.Allocates → Armed.In w.timerAddr q') := by
  unfold schedulerEnable
  cases h.timer with
  | inr hsome =>
    rw [if_neg (hsome.1 ▸ w.timerAddr.2)]
    obtain ⟨w', r, q', hrun, h', hfr, hschd, hlog, harmed⟩ := startSchedulerTimer_ok h hsome.1
    exact ⟨w', r, q', hrun, h', hfr, congrArg _ hschd, hlog, harmed⟩
  | inl hno =>
    rw [if_pos hno.1]
    by_cases hok : w.alloc w.allocs = true
    · -- the new timer calls `scheduler_callback` and has no entry yet
      let w₁ : Sched κ := { w with
        allocs := w.allocs + 1
        ts := createTimer w.ts w.timerAddr 0 0 .schedulerCallback
        schd := { w.schd with timer := w.timerAddr } }
      have htimers : w₁.ts.timers = update w.ts.timers w.timerAddr (some ⟨0, 0, .schedulerCallback⟩) := by
        show (createTimer ..).timers = _
        rw [createTimer, if_neg w.timerAddr.2]
      have h₁ : SchedTimer c w₁ q := by
        refine ⟨createTimer_sound h.sound hno.2 .., .inr ⟨rfl, ?_⟩, fun t tm htm hcb => ?_, h.repeats⟩
        · rw [htimers]
          exact update_self ..
        · by_cases ht : t = w.timerAddr
          · exact ht
          · rw [htimers, update_of_ne ht] at htm
            exact h.only t tm htm hcb
      have hfr₁ : SchedFrame w w₁ q q := by
        refine ⟨rfl, ?_, ?_, rfl, fun _ => .refl _⟩
        · show (createTimer ..).malloc = _
          rw [createTimer, if_neg w.timerAddr.2]
        · show (createTimer ..).inCheckTimeoutLock = _
          rw [createTimer, if_neg w.timerAddr.2]
      obtain ⟨w', r, q', hrun, h', hfr, hschd, hlog, harmed⟩ := startSchedulerTimer_ok h₁ rfl
      refine ⟨w', r, q', ?_, h', hfr₁.trans hfr, ?_, hlog, fun ha => harmed (hfr₁.allocates ha)⟩
      · simp only [Sched.malloc, hok, if_true]
        exact hrun
      · rw [hschd]
    · refine ⟨{ w with allocs := w.allocs + 1 }, -1, q, by simp [Sched.malloc, hok],
        ⟨h.sound, h.timer, h.only, h.repeats⟩,
        ⟨rfl, rfl, rfl, rfl, fun _ => .refl _⟩, rfl, rfl, fun ha => ?_⟩
      rw [ha.1] at hok
      exact absurd rfl hok

theorem schedulerDisable_ok (h : SchedTimer c w q) :
    ∃ w' q', schedulerDisable w = .ok w' ∧ SchedTimer c w' q' ∧ SchedFrame w w' q q' ∧
      w'.schd = w.schd ∧ w'.log = w.log := by
  unfold schedulerDisable
  by_cases ht : w.schd.timer = 0
  · rw [if_neg (not_not.2 ht)]
    exact ⟨w, q, rfl, h, .refl w q, rfl, rfl⟩
  · rw [if_pos ht]
    obtain ⟨ts, hrun, hs, hfr⟩ := stopTimer_sound h.sound w.schd.timer
    refine ⟨{ w with ts := ts }, _, by rw [hrun]; rfl, ⟨hs, ?_, fun t tm htm => ?_, fun hc e he => ?_⟩,
      ⟨rfl, hfr.malloc, hfr.lock, rfl, fun _ => remove_sublist h.sound.unique _⟩, rfl, rfl⟩
    · show _ ∧ ts.timers _ = _ ∨ _ ∧ ts.timers _ = _
      rw [hfr.timers]
      exact h.timer
    · rw [hfr.timers] at htm
      exact h.only t tm htm
    · exact h.repeats hc e ((Queue.mem_remove h.sound.unique).1 he).1

/-- What a call on another timer `t` leaves: the fields of `t` are `v`, and its entry is another. -/
theorem SchedTimer.other (h : SchedTimer c w q) {t : Ptr} (hne : t ≠ w.timerAddr) {ts : Timers (TimerFn κ)}
    (hs : Sound ts q') {v : Option (Timer (TimerFn κ))} (htimers : ts.timers = update w.ts.timers t v)
    (hv : ∀ tm, v = some tm → tm.callBack = .schedulerCallback →
      ∃ tm', w.ts.timers t = some tm' ∧ tm'.callBack = .schedulerCallback)
    (hlock : ts.inCheckTimeoutLock = w.ts.inCheckTimeoutLock) (hmalloc : ts.malloc = w.ts.malloc)
    (hq : q' = q ∨ q' = q.remove t ∨
      ∃ a : Armed, a.timer = t ∧ q' = (q.remove t).arm w.ts.inCheckTimeoutLock a) :
    SchedTimer c { w with ts := ts } q' ∧ SchedFrame w { w with ts := ts } q q' ∧
      (Armed.In w.timerAddr q → Armed.In w.timerAddr q') := by
  have hmem : ∀ e : Armed, e.timer = w.timerAddr → (e ∈ q'.all ↔ e ∈ q.all) := by
    intro e he
    have het : e.timer ≠ t := fun hc => hne (hc ▸ he)
    rcases hq with rfl | rfl | ⟨a, ha, rfl⟩
    · rfl
    · rw [Queue.mem_remove h.sound.unique, and_iff_left het]
    · have hea : e ≠ a := fun hc => het (hc ▸ ha)
      rw [Queue.mem_arm, Queue.mem_remove h.sound.unique, and_iff_left het, or_iff_right hea]
  have hlist : w.ts.inCheckTimeoutLock = true → q'.list.Sublist q.list := by
    intro hl
    rcases hq with rfl | rfl | ⟨a, -, rfl⟩
    · exact .refl _
    · exact remove_sublist h.sound.unique t
    · rw [hl]
      exact arm_sublist h.sound.unique t a
  have haddr : ts.timers w.timerAddr = w.ts.timers w.timerAddr := by
    rw [htimers, update_of_ne (Ne.symm hne)]
  refine ⟨⟨hs, ?_, fun x tm hx hcb => ?_, fun hc e he het => h.repeats hc e ((hmem e het).1 he) het⟩,
    ⟨rfl, hmalloc, hlock, rfl, hlist⟩, fun ⟨e, he, het⟩ => ⟨e, (hmem e het).2 he, het⟩⟩
  · show _ ∧ ts.timers _ = _ ∨ _ ∧ ts.timers _ = _
    rw [haddr]
    exact h.timer
  · rw [htimers] at hx
    by_cases hxt : x = t
    · subst hxt
      rw [update_self] at hx
      obtain ⟨tm', htm', hcb'⟩ := hv tm hx hcb
      exact h.only x tm' htm' hcb'
    · rw [update_of_ne hxt] at hx
      exact h.only x tm hx hcb

theorem otherTimer_ok (h : SchedTimer c w q) (o : TimerOp κ) (hne : o.lift.target.1 ≠ w.timerAddr) :
    ∃ run q', TimerRun.op ⟨w.ts, none, []⟩ o.lift = .ok run ∧ SchedTimer c { w with ts := run.ts } q' ∧
      SchedFrame w { w with ts := run.ts } q q' ∧ (Armed.In w.timerAddr q → Armed.In w.timerAddr q') := by
  unfold TimerRun.op
  by_cases hc : (w.ts.timers o.lift.target.1).isSome = o.lift.target.2
  · rw [if_pos hc]
    have hsame : ∀ t, w.ts.timers = update w.ts.timers t (w.ts.timers t) := fun t =>
      (update_eq_self t _).symm
    have hkeep : ∀ t tm, w.ts.timers t = some tm → tm.callBack = .schedulerCallback →
        ∃ tm', w.ts.timers t = some tm' ∧ tm'.callBack = .schedulerCallback := fun t tm htm hcb =>
      ⟨tm, htm, hcb⟩
    cases o with
    | create t i c f =>
      have ht : w.ts.timers t = none := by simpa [TimerOp.lift, TimerOp.target] using hc
      have hs := createTimer_sound h.sound ht i c (.other f)
      refine ⟨_, q, rfl, ?_⟩
      by_cases h0 : t = 0
      · have heq : createTimer w.ts t i c (.other f) = w.ts := if_pos h0
        exact h.other hne hs (v := w.ts.timers t) (by rw [heq]; exact hsame t) (hkeep t) (by rw [heq])
          (by rw [heq]) (.inl rfl)
      · have heq : createTimer w.ts t i c (.other f) =
          { w.ts with timers := update w.ts.timers t (some ⟨i, c, .other f⟩) } := if_neg h0
        refine h.other hne hs (v := some ⟨i, c, .other f⟩) (by rw [heq]; rfl) (fun tm htm hcb => ?_)
          (by rw [heq]) (by rw [heq]) (.inl rfl)
        cases htm
        cases hcb
    | setInterval t i =>
      refine ⟨_, q, rfl, h.other hne (setTimer_sound h.sound t _) rfl (fun tm htm hcb =>
        ?_) rfl rfl (.inl rfl)⟩
      obtain ⟨tm', htm', rfl⟩ := Option.map_eq_some_iff.1 htm
      exact ⟨tm', htm', hcb⟩
    | setCallback t f =>
      refine ⟨_, q, rfl, h.other hne (setTimer_sound h.sound t _) rfl (fun tm htm hcb =>
        ?_) rfl rfl (.inl rfl)⟩
      obtain ⟨tm', -, rfl⟩ := Option.map_eq_some_iff.1 htm
      cases hcb
    | start t n =>
      obtain ⟨ts, r, q', hrun, hfr, hs, hq⟩ := startTimer_sound h.sound (t := t) hc n
      refine ⟨⟨ts, none, [startEvent t r]⟩, q', by simp only [TimerOp.lift, TimerRun.call, hrun, Res.ok_bind],
        h.other hne hs (hfr.timers.trans (hsame t)) (hkeep t) hfr.lock hfr.malloc ?_⟩
      rcases hq with ⟨-, rfl, -⟩ | ⟨-, d, rfl⟩
      · exact .inr (.inl rfl)
      · exact .inr (.inr ⟨_, rfl, rfl⟩)
    | setTimeout t tv =>
      obtain ⟨ts, r, q', hrun, hfr, hs, hq⟩ := setTimeout_sound h.sound (t := t) hc tv
      refine ⟨⟨ts, none, [startEvent t r]⟩, q', by simp only [TimerOp.lift, TimerRun.call, hrun, Res.ok_bind],
        h.other hne hs (hfr.timers.trans (hsame t)) (hkeep t) hfr.lock hfr.malloc ?_⟩
      rcases hq with ⟨-, rfl⟩ | ⟨-, rfl⟩
      · exact .inr (.inl rfl)
      · exact .inr (.inr ⟨_, rfl, rfl⟩)
    | stop t =>
      obtain ⟨ts, hrun, hs, hfr⟩ := stopTimer_sound h.sound t
      exact ⟨⟨ts, none, [.stopped t]⟩, _, by simp only [TimerOp.lift, TimerRun.call, hrun, Res.ok_bind],
        h.other hne hs (hfr.timers.trans (hsame t)) (hkeep t) hfr.lock hfr.malloc (.inr (.inl rfl))⟩
    | destroy t =>
      obtain ⟨ts, hrun, hs, hlock, htimers, -, hmalloc⟩ := destroyTimer_sound h.sound (t := t) hc
      exact ⟨⟨ts, none, [.stopped t]⟩, _, by simp only [TimerOp.lift, TimerRun.call, hrun, Res.ok_bind],
        h.other hne hs htimers (fun _ htm => by cases htm) hlock hmalloc (.inr (.inl rfl))⟩
  · rw [if_neg hc]
    exact ⟨_, q, rfl, h, .refl w q, id⟩

end

/-! ## The log -/

/-- The event takes the entry from the list. -/
def SchedEvent.Takes (e : SchedulerEntry) : SchedEvent → Prop
  | .added _ => False
  | .deleted ctxt task => e.Is ctxt task = true
  | .deletedAll ctxt => e.Of ctxt = true
  | .ran e' => e' = e

/-- The entry was added, and no event since takes it. -/
def Waiting (e : SchedulerEntry) : List SchedEvent → Prop
  | [] => False
  | ev :: log => ev = .added e ∨ ¬ ev.Takes e ∧ Waiting e log

/-- Each entry that was run was waiting for it. -/
def RunsWaiting : List SchedEvent → Prop
  | [] => True
  | .ran e :: log => Waiting e log ∧ RunsWaiting log
  | _ :: log => RunsWaiting log

/-- The list is what the log says (module doc). -/
structure Logged (w : Sched κ) : Prop where
  tasks : Tasks w.schd.entries
  waiting : ∀ e, e ∈ w.schd.entries ↔ Waiting e w.log
  runs : RunsWaiting w.log

/-- What a call makes of the list; `ok` is whether its `malloc` succeeds. -/
def SchedOp.entries (ok : Bool) (l : List SchedulerEntry) : SchedOp κ → List SchedulerEntry
  | .add ctxt task pior =>
    let l := l.filter fun e => !e.Is ctxt task
    if ok then insertEntry ⟨pior, ctxt, task⟩ l else l
  | .delete ctxt task => l.filter fun e => !e.Is ctxt task
  | .deleteAll ctxt => l.filter fun e => !e.Of ctxt
  | .timer _ => l

/-- What is noted of a call. -/
def SchedOp.events (ok : Bool) : SchedOp κ → List SchedEvent
  | .add ctxt task pior =>
    if ok then [.added ⟨pior, ctxt, task⟩, .deleted ctxt task] else [.deleted ctxt task]
  | .delete ctxt task => [.deleted ctxt task]
  | .deleteAll ctxt => [.deletedAll ctxt]
  | .timer _ => []

section
variable {w w' : Sched κ} {q q' : Queue} {entries : List SchedulerEntry} {log : List SchedEvent}

/-- The entries of a list that was there and the event does not take. -/
theorem waiting_filter {ev : SchedEvent} {p : SchedulerEntry → Bool} (hev : ∀ e, ev ≠ .added e)
    (hp : ∀ e, ev.Takes e ↔ p e = true) (h : ∀ e, e ∈ entries ↔ Waiting e log) (e : SchedulerEntry) :
    e ∈ entries.filter (fun e => !p e) ↔ Waiting e (ev :: log) := by
  rw [List.mem_filter, Waiting, or_iff_right (hev e), ← h e, hp]
  simp [and_comm]

theorem Logged.op (h : Logged w) (o : SchedOp κ) (ok : Bool)
    (hentries : w'.schd.entries = o.entries ok w.schd.entries) (hlog : w'.log = o.events ok ++ w.log) :
    Logged w' := by
  have hdelete : ∀ ctxt task e, e ∈ w.schd.entries.filter (fun e => !e.Is ctxt task) ↔
      Waiting e (.deleted ctxt task :: w.log) := fun ctxt task =>
    waiting_filter (fun _ hev => nomatch hev) (fun _ => Iff.rfl) h.waiting
  cases o with
  | add ctxt task pior =>
    cases ok with
    | false => exact ⟨hentries ▸ h.tasks.filter _, hentries ▸ hlog ▸ hdelete ctxt task, hlog ▸ h.runs⟩
    | true =>
      refine ⟨?_, fun e => ?_, hlog ▸ h.runs⟩
      · rw [hentries]
        refine insertEntry_tasks (h.tasks.filter _) fun e he hkey => ?_
        have hnot := (List.mem_filter.1 he).2
        rw [is_iff_key.2 hkey] at hnot
        cases hnot
      · rw [hentries, hlog]
        show e ∈ insertEntry _ _ ↔
          SchedEvent.added _ = .added e ∨ ¬ False ∧ Waiting e (.deleted ctxt task :: w.log)
        rw [insertEntry_perm.mem_iff, List.mem_cons, hdelete, not_false_iff, true_and, SchedEvent.added.injEq,
          eq_comm]
  | delete ctxt task =>
    exact ⟨hentries ▸ h.tasks.filter _, hentries ▸ hlog ▸ hdelete ctxt task, hlog ▸ h.runs⟩
  | deleteAll ctxt =>
    refine ⟨hentries ▸ h.tasks.filter _, hentries ▸ hlog ▸ ?_, hlog ▸ h.runs⟩
    exact waiting_filter (fun _ hev => nomatch hev) (fun _ => Iff.rfl) h.waiting
  | timer o => exact ⟨hentries ▸ h.tasks, hentries ▸ hlog ▸ h.waiting, hlog ▸ h.runs⟩

/-- The head of the list is run. -/
theorem Logged.ran {pe : SchedulerEntry} (h : Logged w) (hpe : w.schd.entries = pe :: entries) :
    Logged ((w.setEntries entries).note (.ran pe)) := by
  have htasks := h.tasks
  rw [hpe] at htasks
  obtain ⟨hnot, hrest⟩ := List.nodup_cons.1 htasks
  refine ⟨hrest, fun e => ?_, ?_⟩
  · show e ∈ entries ↔ SchedEvent.ran pe = .added e ∨ ¬ pe = e ∧ Waiting e w.log
    rw [← h.waiting e, hpe, List.mem_cons, or_iff_right (fun hev => nomatch hev)]
    refine ⟨?_, ?_⟩
    · intro he
      exact ⟨fun heq => hnot (heq ▸ List.mem_map_of_mem he), .inr he⟩
    · rintro ⟨hne, rfl | he⟩
      · exact absurd rfl hne
      · exact he
  · exact ⟨(h.waiting pe).1 (hpe ▸ List.mem_cons_self), h.runs⟩

end

/-! ## The invariant -/

/-- The invariant (module doc). -/
structure SchedInv (c : Prop) (w : Sched κ) (q : Queue) : Prop extends SchedTimer c w q where
  logged : Logged w
  armed : c → w.Allocates → w.schd.entries ≠ [] → Armed.In w.timerAddr q

section
variable {c : Prop} {w w' : Sched κ} {q q' : Queue} {entries : List SchedulerEntry}

theorem SchedInv.mono {c' : Prop} (h : SchedInv c w q) (hc : c' → c) : SchedInv c' w q where
  sound := h.sound
  timer := h.timer
  only := h.only
  repeats := fun h' => h.repeats (hc h')
  logged := h.logged
  armed := fun h' => h.armed (hc h')

theorem init_schedInv (clock : Nat → Timeval) (malloc : Nat → Bool) (timerAddr : { p : Ptr // p ≠ 0 })
    (alloc : Nat → Bool) : SchedInv c (Sched.init clock malloc timerAddr alloc : Sched κ) ⟨[], []⟩ where
  sound := init_sound clock malloc
  timer := .inl ⟨rfl, rfl⟩
  only := fun _ _ htm => nomatch htm
  repeats := fun _ _ he => nomatch he
  logged := ⟨List.nodup_nil, fun _ => iff_of_false List.not_mem_nil id, trivial⟩
  armed := fun _ _ hne => absurd rfl hne

theorem schedulerAddTask_eq (h : Tasks w.schd.entries) (ctxt task : Ptr) (pior : Int) :
    schedulerAddTask w ctxt task pior =
      let l := w.schd.entries.filter fun e => !e.Is ctxt task
      let w₁ : Sched κ := { w.setEntries l with allocs := w.allocs + 1 }
      if w.alloc w.allocs then
        if l = [] then schedulerEnable (w₁.setEntries (insertEntry ⟨pior, ctxt, task⟩ l))
          >>= fun a => .ok (a.1, 0)
        else .ok (w₁.setEntries (insertEntry ⟨pior, ctxt, task⟩ l), 0)
      else .ok (w₁, -1) := by
  have hdelete := schedulerDeleteTask_entries h ctxt task
  unfold schedulerAddTask
  generalize schedulerDeleteTask w ctxt task = deleted at hdelete ⊢
  obtain ⟨w₂, r⟩ := deleted
  obtain rfl : w₂ = _ := hdelete
  rfl

theorem schedulerAddTask_ok (h : SchedInv c w q) (ctxt task : Ptr) (pior : Int) :
    ∃ w' r q', schedulerAddTask w ctxt task pior = .ok (w', r) ∧ SchedTimer c w' q' ∧ SchedFrame w w' q q' ∧
      w'.schd.entries = (SchedOp.add (κ := κ) ctxt task pior).entries (w.alloc w.allocs) w.schd.entries ∧
      w'.log = w.log ∧ (r = 0 ↔ w.alloc w.allocs = true) ∧
      (c → w.Allocates → w'.schd.entries ≠ [] → Armed.In w.timerAddr q') := by
  rw [schedulerAddTask_eq h.logged.tasks]
  by_cases hok : w.alloc w.allocs = true
  · simp only [hok, if_true, SchedOp.entries, iff_true]
    generalize hl : w.schd.entries.filter (fun e => !e.Is ctxt task) = l
    let w₁ : Sched κ := { w.setEntries (insertEntry ⟨pior, ctxt, task⟩ l) with allocs := w.allocs + 1 }
    have h₁ : SchedTimer c w₁ q := ⟨h.sound, h.timer, h.only, h.repeats⟩
    have hfr₁ : SchedFrame w w₁ q q := ⟨rfl, rfl, rfl, rfl, fun _ => .refl _⟩
    by_cases hnil : l = []
    · rw [if_pos hnil]
      obtain ⟨w', r, q', hrun, h', hfr, hentries, hlog, harmed⟩ := schedulerEnable_ok h₁
      refine ⟨w', 0, q', ?_, h', hfr₁.trans hfr, hentries, hlog, rfl,
        fun _ ha _ => harmed (hfr₁.allocates ha)⟩
      show schedulerEnable w₁ >>= _ = _
      rw [hrun]
      rfl
    · rw [if_neg hnil]
      refine ⟨w₁, 0, q, rfl, h₁, hfr₁, rfl, rfl, rfl, fun hc ha _ => h.armed hc ha fun hempty => hnil ?_⟩
      rw [← hl, hempty]
      rfl
  · rw [Bool.not_eq_true] at hok
    simp only [hok, Bool.false_eq_true, if_false, SchedOp.entries, iff_false]
    refine ⟨_, -1, q, rfl, ⟨h.sound, h.timer, h.only, h.repeats⟩,
      ⟨rfl, rfl, rfl, rfl, fun _ => .refl _⟩, rfl,
      rfl, by decide, fun _ ha => ?_⟩
    rw [ha.1] at hok
    cases hok

/-- **Step lemma.** A call keeps the invariant, within a pass or not. -/
theorem op_ok (h : SchedInv c w q) (o : SchedOp κ) :
    ∃ w' r q', w.op o = .ok (w', r) ∧ SchedInv c w' q' ∧ SchedFrame w w' q q' ∧
      w'.schd.entries = o.entries (w.alloc w.allocs) w.schd.entries := by
  -- entries that are left were there
  have hsub : ∀ p : SchedulerEntry → Bool, c → w.Allocates → w.schd.entries.filter p ≠ [] →
      Armed.In w.timerAddr q := fun p hc ha hne => h.armed hc ha fun hnil => hne (by rw [hnil]; rfl)
  cases o with
  | add ctxt task pior =>
    obtain ⟨w', r, q', hrun, h', hfr, hentries, hlog, hr, harmed⟩ := schedulerAddTask_ok h ctxt task pior
    let w'' : Sched κ :=
      { w' with log := (SchedOp.add (κ := κ) ctxt task pior).events (w.alloc w.allocs) ++ w.log }
    have hop : w.op (.add ctxt task pior) = .ok (w'', r) := by
      rw [Sched.op, hrun, Res.ok_bind]
      by_cases hr0 : r = 0
      · simp only [w'', hr0, hr.1 hr0, SchedOp.events, if_true, ← hlog]
        rfl
      · have hfail : w.alloc w.allocs = false := by simpa [hr] using hr0
        simp only [w'', hr0, hfail, SchedOp.events, if_false, ← hlog]
        rfl
    refine ⟨w'', r, q', hop, ⟨⟨h'.sound, h'.timer, h'.only, h'.repeats⟩, ?_, fun hc ha hne => ?_⟩,
      ⟨hfr.alloc, hfr.malloc, hfr.lock, hfr.timerAddr, hfr.list⟩, hentries⟩
    · exact h.logged.op (.add (κ := κ) ctxt task pior) _ hentries rfl
    · have ha' : w.Allocates := ⟨hfr.alloc ▸ ha.1, hfr.malloc ▸ ha.2⟩
      have hin := harmed hc ha' hne
      rw [← hfr.timerAddr] at hin
      exact hin
  | delete ctxt task =>
    have hdelete := schedulerDeleteTask_entries h.logged.tasks ctxt task
    let w' := (w.setEntries (w.schd.entries.filter fun e => !e.Is ctxt task)).note (.deleted ctxt task)
    refine ⟨w', (schedulerDeleteTask w ctxt task).2, q, ?_, ⟨⟨h.sound, h.timer, h.only, h.repeats⟩,
      h.logged.op (.delete (κ := κ) ctxt task) true rfl rfl, hsub _⟩,
      ⟨rfl, rfl, rfl, rfl, fun _ => .refl _⟩, rfl⟩
    have hop : w.op (.delete ctxt task) = .ok ((schedulerDeleteTask w ctxt task).1.note (.deleted ctxt task),
      (schedulerDeleteTask w ctxt task).2) := rfl
    rw [hop, hdelete]
  | deleteAll ctxt =>
    let w' := (w.setEntries (w.schd.entries.filter fun e => !e.Of ctxt)).note (.deletedAll ctxt)
    refine ⟨w', 0, q, ?_, ⟨⟨h.sound, h.timer, h.only, h.repeats⟩,
      h.logged.op (.deleteAll (κ := κ) ctxt) true rfl rfl, hsub _⟩,
      ⟨rfl, rfl, rfl, rfl, fun _ => .refl _⟩, rfl⟩
    show Res.ok ((w.setEntries (deleteAllEntries ctxt w.schd.entries)).note _, 0) = _
    rw [deleteAllEntries_eq]
  | timer o =>
    have hop : w.op (.timer o) = if o.lift.target.1 = w.timerAddr then .ok (w, 0)
      else do
        let run ← TimerRun.op ⟨w.ts, none, []⟩ o.lift
        return ({ w with ts := run.ts }, 0) := rfl
    rw [hop]
    by_cases ht : o.lift.target.1 = w.timerAddr
    · exact ⟨w, 0, q, if_pos ht, h, .refl w q, rfl⟩
    · rw [if_neg ht]
      obtain ⟨run, q', hrun, h', hfr, harmed⟩ := otherTimer_ok h.toSchedTimer o ht
      refine ⟨{ w with ts := run.ts }, 0, q', by rw [hrun]; rfl, ⟨h', ?_, fun hc ha hne => ?_⟩, hfr, rfl⟩
      · exact ⟨h.logged.tasks, h.logged.waiting, h.logged.runs⟩
      · exact harmed (h.armed hc ⟨ha.1, hfr.malloc ▸ ha.2⟩ hne)

theorem ops_ok (h : SchedInv c w q) (os : List (SchedOp κ)) :
    ∃ w' q', Sched.ops os w = .ok w' ∧ SchedInv c w' q' ∧ SchedFrame w w' q q' := by
  induction os generalizing w q with
  | nil => exact ⟨w, q, rfl, h, .refl w q⟩
  | cons o os ih =>
    obtain ⟨w₁, r, q₁, hop, h₁, hfr₁, -⟩ := op_ok h o
    obtain ⟨w', q', hops, h', hfr⟩ := ih h₁
    exact ⟨w', q', by rw [Sched.ops, hop]; exact hops, h', hfr₁.trans hfr⟩

/-- Switching the timer off when the list is empty. -/
theorem schedulerDisable_inv (h : SchedInv c w q) (hnil : w.schd.entries = []) :
    ∃ w' q', schedulerDisable w = .ok w' ∧ SchedInv c w' q' ∧ SchedFrame w w' q q' := by
  obtain ⟨w', q', hrun, h', hfr, hschd, hlog⟩ := schedulerDisable_ok h.toSchedTimer
  refine ⟨w', q', hrun, ⟨h', ?_, fun _ _ hne => ?_⟩, hfr⟩
  · exact ⟨hschd ▸ h.logged.tasks, hschd ▸ hlog ▸ h.logged.waiting, hlog ▸ h.logged.runs⟩
  · rw [hschd] at hne
    exact absurd hnil hne

theorem schedulerCallback_ok (h : SchedInv c w q) (script : List (SchedOp κ)) :
    ∃ w' q', schedulerCallback w script = .ok w' ∧ SchedInv c w' q' ∧ SchedFrame w w' q q' := by
  unfold schedulerCallback
  cases hentries : w.schd.entries with
  | nil => exact schedulerDisable_inv h hentries
  | cons pe entries =>
    let w₁ := (w.setEntries entries).note (.ran pe)
    have h₁ : SchedInv c w₁ q := by
      refine ⟨⟨h.sound, h.timer, h.only, h.repeats⟩, h.logged.ran hentries,
        fun hc ha _ => h.armed hc ha ?_⟩
      rw [hentries]
      exact List.cons_ne_nil _ _
    obtain ⟨w₂, q₂, hops, h₂, hfr₂⟩ := ops_ok h₁ script
    have hfr : SchedFrame w w₂ q q₂ := ⟨hfr₂.alloc, hfr₂.malloc, hfr₂.lock, hfr₂.timerAddr, hfr₂.list⟩
    show ∃ w' q', (Sched.ops script w₁ >>= _) = Res.ok w' ∧ _
    rw [hops, Res.ok_bind]
    by_cases hnil : w₂.schd.entries = []
    · rw [if_pos hnil]
      obtain ⟨w', q', hrun, h', hfr'⟩ := schedulerDisable_inv h₂ hnil
      exact ⟨w', q', hrun, h', hfr.trans hfr'⟩
    · rw [if_neg hnil]
      exact ⟨w₂, q₂, rfl, h₂, hfr⟩

theorem call_ok (h : SchedInv c w q) (f : TimerFn κ) (script : List (SchedOp κ)) :
    ∃ w' q', f.call w script = .ok w' ∧ SchedInv c w' q' ∧ SchedFrame w w' q q' := by
  cases f with
  | schedulerCallback => exact schedulerCallback_ok h script
  | other k => exact ops_ok h script

theorem sub_one_ne_one {n : Int32} : n - 1 ≠ 1 ↔ n ≠ 2 := by
  grind

/-- The timer whose round it is: a repeating one is armed again, and so the scheduler's is. -/
theorem SchedInv.fired {e : Armed} {rest pend : List Armed} {ts : Timers (TimerFn κ)} {d : Timeval}
    (h : SchedInv c w ⟨e :: rest, pend⟩) (hlast : c → e.timer = w.timerAddr → e.repeats ≠ 2)
    (hfr : Frame w.ts ts) (hs : Sound ts (Queue.fired e rest pend d)) :
    SchedInv c { w with ts := ts } (Queue.fired e rest pend d) := by
  have hmem : ∀ x ∈ (Queue.fired e rest pend d).all,
      x ∈ (Queue.mk (e :: rest) pend).all ∨ x = ⟨e.timer, d, e.repeats - 1⟩ := by
    intro x hx
    simp only [Queue.fired, Queue.all, List.mem_append] at hx ⊢
    split at hx <;> simp only [List.mem_cons] at hx ⊢ <;> tauto
  refine ⟨⟨hs, ?_, fun t tm htm => h.only t tm (hfr.timers ▸ htm), fun hc x hx hxt => ?_⟩,
    ⟨h.logged.tasks, h.logged.waiting, h.logged.runs⟩, fun hc ha hne => ?_⟩
  · show _ ∧ ts.timers _ = _ ∨ _ ∧ ts.timers _ = _
    rw [hfr.timers]
    exact h.timer
  · cases hmem x hx with
    | inl hx => exact h.repeats hc x hx hxt
    | inr hx =>
      subst hx
      exact sub_one_ne_one.2 (hlast hc hxt)
  · obtain ⟨x, hx, hxt⟩ := h.armed hc ⟨ha.1, hfr.malloc ▸ ha.2⟩ hne
    have hx' : x = e ∨ x ∈ rest ∨ x ∈ pend := by simpa [Queue.all, or_assoc] using hx
    rcases hx' with rfl | hx
    · refine ⟨⟨x.timer, d, x.repeats - 1⟩, ?_, hxt⟩
      rw [Queue.fired, if_neg (h.repeats hc x hx hxt)]
      simp [Queue.all]
    · refine ⟨x, ?_, hxt⟩
      simp only [Queue.fired, Queue.all, List.mem_append]
      split
      · exact hx
      · exact hx.imp_right (List.mem_cons_of_mem _)

/-- The loop of a pass: each round keeps the invariant and takes an entry from `timer_list`. -/
theorem schedLoop_ok {tv : Timeval} : ∀ (fuel : Nat) {w : Sched κ} {q : Queue}
    (scripts : List (List (SchedOp κ))),
    SchedInv c w q → (c → ∀ e ∈ q.list, e.timer = w.timerAddr → e.repeats ≠ 2) →
    w.ts.inCheckTimeoutLock = true → q.list.length < fuel →
    ∃ w' scripts' q', timerLoop Sched.getTs Sched.setTs Sched.callback tv fuel (w, scripts) =
      .ok (w', scripts') ∧ SchedInv c w' q' ∧ w'.alloc = w.alloc ∧ w'.ts.malloc = w.ts.malloc
  | 0, _, _, _, _, _, _, hf => absurd hf (Nat.not_lt_zero _)
  | fuel + 1, w, q, scripts, h, hlast, hlock, hf => by
    by_cases hq : ∀ e ∈ q.list.head?, tvcmp tv e.timeout < 0
    · refine ⟨w, scripts, q, ?_, h, rfl, rfl⟩
      simp only [timerLoop, Sched.getTs, timerFire_none h.sound.rep hq, Res.ok_bind]
    obtain ⟨l, pend⟩ := q
    cases l with
    | nil => simp at hq
    | cons e rest =>
      have hdue : 0 ≤ tvcmp tv e.timeout := by simpa using hq
      obtain ⟨ts, hts, hfr, d, hs⟩ := timerFire_sound h.sound hlock hdue
      obtain ⟨tm, htm⟩ := Option.isSome_iff_exists.1 (hfr.timers ▸ h.sound.alive e (by simp [Queue.all]))
      obtain ⟨w₁, q₁, hcall, h₁, hfr₁⟩ := call_ok
        (h.fired (fun hc => hlast hc e List.mem_cons_self) hfr hs) tm.callBack (scripts.headD [])
      have hl : ts.inCheckTimeoutLock = true := hfr.lock.trans hlock
      have hsub : q₁.list.Sublist rest := hfr₁.list hl
      have hlast₁ : c → ∀ x ∈ q₁.list, x.timer = w₁.timerAddr → x.repeats ≠ 2 := by
        intro hc x hx hxt
        rw [hfr₁.timerAddr] at hxt
        exact hlast hc x (List.mem_cons_of_mem _ (hsub.subset hx)) hxt
      obtain ⟨w', scripts', q', hloop, h', halloc, hmalloc⟩ := schedLoop_ok fuel scripts.tail h₁ hlast₁
        (hfr₁.lock.trans hl) (Nat.lt_of_le_of_lt hsub.length_le (Nat.lt_of_succ_lt_succ hf))
      refine ⟨w', scripts', q', ?_, h', halloc.trans hfr₁.alloc, hmalloc.trans (hfr₁.malloc.trans hfr.malloc)⟩
      have hround : Sched.callback e.timer tm (Sched.setTs (w, scripts) ts) = .ok (w₁, scripts.tail) := by
        show tm.callBack.call { w with ts := ts } (scripts.headD []) >>= _ = _
        rw [hcall]
        rfl
      simp only [timerLoop, Sched.getTs, hts, Res.ok_bind, Res.deref_of_some htm, hround]
      exact hloop

/-- The timer of the scheduler does not fire for the last time but one in the pass to come. -/
def Sched.Lasts (w : Sched κ) : Prop :=
  ∀ e, w.ts.Listed e → (w.ts.entries e).timer = w.schd.timer → (w.ts.entries e).repeats ≠ 2

theorem SchedInv.lasts (h : SchedInv c w q) (hlast : w.Lasts) {e : Armed} (he : e ∈ q.list)
    (het : e.timer = w.timerAddr) : e.repeats ≠ 2 := by
  have halive := h.sound.alive e (List.mem_append_left _ he)
  obtain ⟨x, hx, rfl⟩ := h.sound.rep.listed.1 he
  cases h.timer with
  | inl hno =>
    rw [het, hno.2] at halive
    cases halive
  | inr hsome => exact hlast x hx (het.trans hsome.1.symm)

theorem pass_ok (h : SchedInv c w q) (scripts : List (List (SchedOp κ))) :
    ∃ w' q', w.pass scripts = .ok w' ∧ SchedInv (c ∧ w.Lasts) w' q' ∧ w'.ts.inCheckTimeoutLock = false ∧
      w'.alloc = w.alloc ∧ w'.ts.malloc = w.ts.malloc := by
  have hlen : q.list.length < w.ts.brk := by
    obtain ⟨l, p, f, hl, hb, rfl⟩ := h.sound.rep
    have hsub : l.Sublist (l ++ p ++ f) := by simp
    simpa using hl.length_lt hsub hb
  let w₀ : Sched κ := { w with ts := (timerEnter w.ts).2 }
  have h' := h.mono (And.left (b := w.Lasts))
  have h₀ : SchedInv (c ∧ w.Lasts) w₀ q := ⟨⟨timerEnter_sound h.sound, h.timer, h.only, h'.repeats⟩,
    ⟨h.logged.tasks, h.logged.waiting, h.logged.runs⟩, h'.armed⟩
  obtain ⟨w₁, scripts₁, q₁, hloop, h₁, halloc, hmalloc⟩ :=
    @schedLoop_ok _ (c ∧ w.Lasts) (timerEnter w.ts).1 w₀.ts.brk _ _ scripts h₀
      (fun hc e he het => h.lasts hc.2 he het) rfl hlen
  obtain ⟨ts, r, hleave, hs, hl, htimers, -, hm⟩ := timerLeave_sound h₁.sound
  have hmem : ∀ e, e ∈ q₁.merge.all ↔ e ∈ q₁.all := fun e => (Queue.merge_perm q₁).mem_iff
  refine ⟨{ w₁ with ts := ts }, q₁.merge, ?_, ⟨⟨hs, ?_, fun t tm htm => h₁.only t tm (htimers ▸ htm),
    fun hc e he => h₁.repeats hc e ((hmem e).1 he)⟩,
    ⟨h₁.logged.tasks, h₁.logged.waiting, h₁.logged.runs⟩, fun hc ha hne => ?_⟩, hl, halloc, hm.trans hmalloc⟩
  · have hcheck : timerCheckTimeout Sched.getTs Sched.setTs Sched.callback (w, scripts) =
        .ok (({ w₁ with ts := ts }, scripts₁), r) := by
      show timerLoop Sched.getTs Sched.setTs Sched.callback (timerEnter w.ts).1
        w₀.ts.brk (w₀, scripts) >>= _ = _
      rw [hloop, Res.ok_bind]
      show timerLeave w₁.ts >>= _ = _
      rw [hleave]
      rfl
    rw [Sched.pass, hcheck]
    rfl
  · show _ ∧ ts.timers _ = _ ∨ _ ∧ ts.timers _ = _
    rw [htimers]
    exact h₁.timer
  · obtain ⟨e, he, het⟩ := h₁.armed hc ⟨ha.1, hm ▸ ha.2⟩ hne
    exact ⟨e, (hmem e).2 he, het⟩

end

end Utils
