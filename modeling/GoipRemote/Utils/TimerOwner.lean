import GoipRemote.Utils.TimerInv

/-!
# One-shot timers with an owner

`Timed intervalOf ts q timerOf idle`: every timer belongs to an object, `timerOf k x` being the timer
of the object at `x` that calls `k` after `intervalOf k`; every timer was started to expire once; and
every timer but the `idle` ones has an entry in the queue `q`. A timer is idle from its expiry, in a
pass, to the end of its callback.
-/

namespace Utils

open Function

variable {κ : Type}

/-- The relation of the objects and their timers (module doc). -/
structure Timed (intervalOf : κ → Nat) (ts : Timers κ) (q : Queue) (timerOf : κ → Ptr → Option Ptr)
    (idle : Ptr → Prop) : Prop where
  sound : Sound ts q
  malloc : ts.malloc = fun _ => true
  owner : ∀ k x t, timerOf k x = some t ↔
    ∃ tm, ts.timers t = some tm ∧ tm.callBack = k ∧ tm.ctxt = x
  interval : ∀ t tm, ts.timers t = some tm → tm.interval = intervalOf tm.callBack
  repeats : ∀ e ∈ q.all, e.repeats = 1
  armed : ∀ t, (ts.timers t).isSome → ¬ idle t → ∃ e ∈ q.all, e.timer = t

section
variable {intervalOf : κ → Nat} {ts ts' : Timers κ} {q q' : Queue} {timerOf timerOf' : κ → Ptr → Option Ptr}
  {idle idle' : Ptr → Prop} {k : κ} {x t : Ptr}

theorem Timed.isSome (h : Timed intervalOf ts q timerOf idle) (ht : timerOf k x = some t) :
    (ts.timers t).isSome = true := by
  obtain ⟨tm, htm, -, -⟩ := (h.owner k x t).1 ht
  rw [htm]
  rfl

/-- A timer has one owner. -/
theorem Timed.owner_inj {k' : κ} {x' : Ptr} (h : Timed intervalOf ts q timerOf idle)
    (ht : timerOf k x = some t)
    (ht' : timerOf k' x' = some t) : k' = k ∧ x' = x := by
  obtain ⟨tm, htm, rfl, rfl⟩ := (h.owner k x t).1 ht
  obtain ⟨tm', htm', rfl, rfl⟩ := (h.owner k' x' t).1 ht'
  rw [htm] at htm'
  cases htm'
  exact ⟨rfl, rfl⟩

/-- A timer that is not idle is armed exactly once. -/
theorem Timed.count (h : Timed intervalOf ts q timerOf idle) (ht : (ts.timers t).isSome = true)
    (hi : ¬ idle t) :
    (q.all.map Armed.timer).count t = 1 := by
  obtain ⟨e, he, het⟩ := h.armed t ht hi
  exact List.count_eq_one_of_mem h.sound.unique (het ▸ List.mem_map_of_mem he)

/-- The timers are the same, and none was stopped. -/
theorem Timed.retime (h : Timed intervalOf ts q timerOf idle) (htimers : ts'.timers = ts.timers)
    (hmalloc : ts'.malloc = ts.malloc) (hs : Sound ts' q') (hrep : ∀ e ∈ q'.all, e.repeats = 1)
    (hall : ∀ e ∈ q.all, ∃ e' ∈ q'.all, e'.timer = e.timer) : Timed intervalOf ts' q' timerOf idle where
  sound := hs
  malloc := hmalloc.trans h.malloc
  owner := by
    rw [htimers]
    exact h.owner
  interval := by
    rw [htimers]
    exact h.interval
  repeats := hrep
  armed := fun t ht hi => by
    rw [htimers] at ht
    obtain ⟨e, he, het⟩ := h.armed t ht hi
    obtain ⟨e', he', het'⟩ := hall e he
    exact ⟨e', he', het'.trans het⟩

/-- A timer that has an owner is started anew. -/
theorem Timed.restart (h : Timed intervalOf ts q timerOf idle) (ht : (ts.timers t).isSome = true) :
    ∃ ts' q', restartTimer ts t 1 = .ok ts' ∧ Frame ts ts' ∧ Timed intervalOf ts' q' timerOf idle := by
  obtain ⟨ts', d, hrun, hfr, hs⟩ := restartTimer_sound h.sound ht 1 h.malloc
  have hmem := @Queue.mem_restart q h.sound.unique ts.inCheckTimeoutLock ⟨t, d, 1⟩
  refine ⟨ts', _, hrun, hfr, h.retime hfr.timers hfr.malloc hs (fun e he => ?_) fun e he => ?_⟩
  · rcases hmem.1 he with rfl | ⟨he, -⟩
    · rfl
    · exact h.repeats e he
  · by_cases het : e.timer = t
    · exact ⟨_, hmem.2 (.inl rfl), het.symm⟩
    · exact ⟨e, hmem.2 (.inr ⟨he, het⟩), rfl⟩

/-- The same with `start_timer` alone; a timer that was idle is so no more. -/
theorem Timed.start (h : Timed intervalOf ts q timerOf idle) (ht : (ts.timers t).isSome = true) :
    ∃ ts' r q', startTimer ts t 1 = .ok (ts', r) ∧ Frame ts ts' ∧
      Timed intervalOf ts' q' timerOf fun x => idle x ∧ x ≠ t := by
  obtain ⟨ts', r, q', hrun, hfr, hs, ⟨-, -, hm⟩ | ⟨-, d, rfl⟩⟩ := startTimer_sound h.sound ht 1
  · exact absurd h.malloc hm
  have hmem : ∀ e, e ∈ ((q.remove t).arm ts.inCheckTimeoutLock ⟨t, d, 1⟩).all ↔
      e = ⟨t, d, 1⟩ ∨ e ∈ q.all ∧ e.timer ≠ t := by
    intro e
    rw [Queue.mem_arm, Queue.mem_remove h.sound.unique]
  refine ⟨ts', r, _, hrun, hfr, hs, hfr.malloc.trans h.malloc, ?_, ?_, fun e he => ?_,
    fun y hy hi => ?_⟩
  · rw [hfr.timers]
    exact h.owner
  · rw [hfr.timers]
    exact h.interval
  · rcases (hmem e).1 he with rfl | ⟨he, -⟩
    · rfl
    · exact h.repeats e he
  · rw [hfr.timers] at hy
    by_cases hyt : y = t
    · exact ⟨_, (hmem _).2 (.inl rfl), hyt.symm⟩
    · obtain ⟨e, he, rfl⟩ := h.armed y hy fun hc => hi ⟨hc, hyt⟩
      exact ⟨e, (hmem e).2 (.inr ⟨he, hyt⟩), rfl⟩

/-- A new object with a new timer, which is not started yet. -/
theorem Timed.create (h : Timed intervalOf ts q timerOf idle) (ht0 : t ≠ 0) (ht : ts.timers t = none)
    (hx : timerOf k x = none) (hsome : timerOf' k x = some t)
    (hother : ∀ k' x', ¬ (k' = k ∧ x' = x) → timerOf' k' x' = timerOf k' x') :
    Timed intervalOf (createTimer ts t (intervalOf k) x k) q timerOf' fun y => idle y ∨ y = t := by
  have htimers : (createTimer ts t (intervalOf k) x k).timers =
      update ts.timers t (some ⟨intervalOf k, x, k⟩) := by
    rw [createTimer, if_neg ht0]
  have hno : ∀ k' x', timerOf k' x' ≠ some t := by
    intro k' x' ht'
    obtain ⟨tm, htm, -, -⟩ := (h.owner k' x' t).1 ht'
    rw [ht] at htm
    cases htm
  refine ⟨createTimer_sound h.sound ht .., ?_, fun k' x' t' => ?_, fun t' tm htm => ?_, h.repeats,
    fun y hy hi => ?_⟩
  · rw [createTimer, if_neg ht0]
    exact h.malloc
  · rw [htimers]
    by_cases htt : t' = t
    · subst htt
      rw [update_self]
      refine ⟨?_, ?_⟩
      · intro ht'
        by_cases heq : k' = k ∧ x' = x
        · exact ⟨_, rfl, heq.1.symm, heq.2.symm⟩
        · rw [hother k' x' heq] at ht'
          exact absurd ht' (hno k' x')
      · rintro ⟨tm, htm, rfl, rfl⟩
        cases htm
        exact hsome
    · rw [update_of_ne htt, ← h.owner]
      by_cases heq : k' = k ∧ x' = x
      · obtain ⟨rfl, rfl⟩ := heq
        rw [hsome, hx]
        refine ⟨?_, ?_⟩
        · intro hc
          exact absurd (Option.some.inj hc).symm htt
        · intro hc
          cases hc
      · rw [hother k' x' heq]
  · rw [htimers] at htm
    by_cases htt : t' = t
    · rw [htt, update_self] at htm
      cases htm
      rfl
    · rw [update_of_ne htt] at htm
      exact h.interval t' tm htm
  · have hyt : y ≠ t := fun hc => hi (.inr hc)
    rw [htimers, update_of_ne hyt] at hy
    exact h.armed y hy fun hc => hi (.inl hc)

/-- An object goes with its timer. -/
theorem Timed.destroy (h : Timed intervalOf ts q timerOf idle) (ht : timerOf k x = some t)
    (hnone : timerOf' k x = none)
    (hother : ∀ k' x', ¬ (k' = k ∧ x' = x) → timerOf' k' x' = timerOf k' x') :
    ∃ ts', destroyTimer ts t = .ok ts' ∧ ts'.inCheckTimeoutLock = ts.inCheckTimeoutLock ∧
      Timed intervalOf ts' (q.remove t) timerOf' fun y => idle y ∧ y ≠ t := by
  obtain ⟨ts', hrun, hs, hlock, htimers, -, hmalloc⟩ := destroyTimer_sound h.sound (h.isSome ht)
  refine ⟨ts', hrun, hlock, hs, hmalloc.trans h.malloc, fun k' x' t' => ?_, fun t' tm htm => ?_,
    fun e he => ?_, fun y hy hi => ?_⟩
  · rw [htimers]
    by_cases heq : k' = k ∧ x' = x
    · obtain ⟨rfl, rfl⟩ := heq
      rw [hnone]
      refine ⟨?_, ?_⟩
      · intro hc
        cases hc
      · rintro ⟨tm, htm, hk, hx⟩
        by_cases htt : t' = t
        · rw [htt, update_self] at htm
          cases htm
        · rw [update_of_ne htt] at htm
          have ht' := (h.owner k' x' t').2 ⟨tm, htm, hk, hx⟩
          rw [ht] at ht'
          exact absurd (Option.some.inj ht').symm htt
    · rw [hother k' x' heq, h.owner]
      by_cases htt : t' = t
      · subst htt
        rw [update_self]
        refine ⟨?_, ?_⟩
        · rintro ⟨tm, htm, hk, hx⟩
          exact absurd (h.owner_inj ht ((h.owner k' x' t').2 ⟨tm, htm, hk, hx⟩)) heq
        · rintro ⟨tm, htm, -⟩
          cases htm
      · rw [update_of_ne htt]
  · rw [htimers] at htm
    by_cases htt : t' = t
    · rw [htt, update_self] at htm
      cases htm
    · rw [update_of_ne htt] at htm
      exact h.interval t' tm htm
  · exact h.repeats e ((Queue.mem_remove h.sound.unique).1 he).1
  · by_cases hyt : y = t
    · rw [htimers, hyt, update_self] at hy
      cases hy
    · rw [htimers, update_of_ne hyt] at hy
      obtain ⟨e, he, rfl⟩ := h.armed y hy fun hc => hi ⟨hc, hyt⟩
      exact ⟨e, (Queue.mem_remove h.sound.unique).2 ⟨he, hyt⟩, rfl⟩

/-- `stop_timer` before `destroy_timer` changes nothing. -/
theorem Timed.stop_destroy (h : Timed intervalOf ts q timerOf idle) (ht : timerOf k x = some t)
    (hnone : timerOf' k x = none)
    (hother : ∀ k' x', ¬ (k' = k ∧ x' = x) → timerOf' k' x' = timerOf k' x') :
    ∃ ts₁ ts₂, stopTimer ts t = .ok ts₁ ∧ destroyTimer ts₁ t = .ok ts₂ ∧
      ts₂.inCheckTimeoutLock = ts.inCheckTimeoutLock ∧
      Timed intervalOf ts₂ ((q.remove t).remove t) timerOf' fun y => idle y ∧ y ≠ t := by
  obtain ⟨ts₁, hstop, hs₁, hfr⟩ := stopTimer_sound h.sound t
  have h₁ : Timed intervalOf ts₁ (q.remove t) timerOf fun y => idle y ∨ y = t := by
    refine ⟨hs₁, hfr.malloc.trans h.malloc, ?_, ?_, fun e he => ?_, fun y hy hi => ?_⟩
    · rw [hfr.timers]
      exact h.owner
    · rw [hfr.timers]
      exact h.interval
    · exact h.repeats e ((Queue.mem_remove h.sound.unique).1 he).1
    · rw [hfr.timers] at hy
      obtain ⟨e, he, rfl⟩ := h.armed y hy fun hc => hi (.inl hc)
      exact ⟨e, (Queue.mem_remove h.sound.unique).2 ⟨he, fun hc => hi (.inr hc)⟩, rfl⟩
  obtain ⟨ts₂, hdestroy, hlock, h₂⟩ := h₁.destroy ht hnone hother
  refine ⟨ts₁, ts₂, hstop, hdestroy, hlock.trans hfr.lock, { h₂ with armed := fun y hy hi => ?_ }⟩
  exact h₂.armed y hy fun hc => hi ⟨hc.1.resolve_right hc.2, hc.2⟩

theorem Timed.congr (h : Timed intervalOf ts q timerOf idle) (hof : ∀ k x, timerOf' k x = timerOf k x)
    (hidle : ∀ t, idle t → idle' t) : Timed intervalOf ts q timerOf' idle' :=
  { h with
    owner := fun k x t => by rw [hof, h.owner]
    armed := fun t ht hi => h.armed t ht fun hc => hi (hidle t hc) }

/-! ## In a pass -/

/-- The timer of a round has expired. -/
theorem Timed.fired {e : Armed} {rest pend : List Armed} {d : Timeval}
    (h : Timed intervalOf ts ⟨e :: rest, pend⟩ timerOf idle) (hfr : Frame ts ts')
    (hs : Sound ts' (Queue.fired e rest pend d)) :
    Queue.fired e rest pend d = ⟨rest, pend⟩ ∧
      Timed intervalOf ts' ⟨rest, pend⟩ timerOf fun y => idle y ∨ y = e.timer := by
  have hq : Queue.fired e rest pend d = ⟨rest, pend⟩ := by
    rw [Queue.fired, if_pos (h.repeats e (by simp [Queue.all]))]
  rw [hq] at hs
  refine ⟨hq, hs, hfr.malloc.trans h.malloc, ?_, ?_, fun x hx => h.repeats x ?_, fun y hy hi => ?_⟩
  · rw [hfr.timers]
    exact h.owner
  · rw [hfr.timers]
    exact h.interval
  · simp only [Queue.all, List.cons_append, List.mem_cons]
    exact .inr hx
  · rw [hfr.timers] at hy
    obtain ⟨x, hx, rfl⟩ := h.armed y hy fun hc => hi (.inl hc)
    simp only [Queue.all, List.cons_append, List.mem_cons] at hx
    rcases hx with rfl | hx
    · exact absurd (.inr rfl) hi
    · exact ⟨x, hx, rfl⟩

theorem Timed.enter (h : Timed intervalOf ts q timerOf idle) :
    Timed intervalOf (timerEnter ts).2 q timerOf idle :=
  { h with sound := timerEnter_sound h.sound }

theorem Timed.leave (h : Timed intervalOf ts q timerOf idle) (hs : Sound ts' q.merge)
    (htimers : ts'.timers = ts.timers) (hmalloc : ts'.malloc = ts.malloc) :
    Timed intervalOf ts' q.merge timerOf idle := by
  have hmem : ∀ e, e ∈ q.merge.all ↔ e ∈ q.all := fun e => (Queue.merge_perm q).mem_iff
  exact h.retime htimers hmalloc hs (fun e he => h.repeats e ((hmem e).1 he))
    fun e he => ⟨e, (hmem e).2 he, rfl⟩

end

end Utils
