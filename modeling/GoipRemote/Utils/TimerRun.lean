import GoipRemote.Utils.TimerInv

/-!
# Runs of the timer queue

The machine `TimerRun` makes every order of calls of the file: `op` is a call by an owner of timers,
and a pass is `enter`, `fire` for each round of its loop and `leave`; the calls between two rounds
are what the callback of the first one does. An action the program cannot take in a state (a nested
pass, a round with no due head, an end while the head is due) leaves the state as it is, and so does
a call on a destroyed timer, which its owner does not make.

`run_inv`: after every run the queue is `Sound`, so no timer has two entries, and no callback is
called for a timer that was stopped and not started since (`stopping_effective`).
-/

namespace Utils

open Function

variable {κ : Type}

/-- The calls an owner of timers makes. -/
inductive TimerOp (κ : Type) where
  | create (t : Ptr) (interval : Nat) (ctxt : Ptr) (callBack : κ)
  | setInterval (t : Ptr) (interval : Nat)
  | setCallback (t : Ptr) (callBack : κ)
  | start (t : Ptr) (repeats : Int32)
  | setTimeout (t : Ptr) (timeout : Timeval)
  | stop (t : Ptr)
  | destroy (t : Ptr)

/-- What is seen of a run: callbacks, and calls that (re)start or stop a timer. A `start_timer` or
`set_timeout` for which `malloc` fails has only stopped the timer. -/
inductive TimerEvent where
  | fired (t : Ptr)
  | started (t : Ptr)
  | stopped (t : Ptr)
  deriving DecidableEq, Repr

/-- The state of a run: the queue, the time of the pass that is running, the events so far with the
newest first. -/
structure TimerRun (κ : Type) where
  ts : Timers κ
  now : Option Timeval
  log : List TimerEvent

/-- `set_timer_interval` and `set_timer_callback`: a field of the timer is replaced. -/
def Timers.setTimer (s : Timers κ) (t : Ptr) (f : Timer κ → Timer κ) : Timers κ :=
  { s with timers := update s.timers t ((s.timers t).map f) }

/-- The event of a `start_timer` or `set_timeout` with result `r`. -/
def startEvent (t : Ptr) (r : Int) : TimerEvent := if r = 0 then .started t else .stopped t

/-- A call by an owner, on a timer that has not been destroyed (`create`: at an address that holds
none). -/
def TimerRun.call (w : TimerRun κ) : TimerOp κ → Res (TimerRun κ)
  | .create t i c f => .ok { w with ts := createTimer w.ts t i c f }
  | .setInterval t i => .ok { w with ts := w.ts.setTimer t fun tm => { tm with interval := i } }
  | .setCallback t f => .ok { w with ts := w.ts.setTimer t fun tm => { tm with callBack := f } }
  | .start t n => do
    let (ts, r) ← startTimer w.ts t n
    .ok { w with ts := ts, log := startEvent t r :: w.log }
  | .setTimeout t tv => do
    let (ts, r) ← Utils.setTimeout w.ts t tv
    .ok { w with ts := ts, log := startEvent t r :: w.log }
  | .stop t => do
    let ts ← stopTimer w.ts t
    .ok { w with ts := ts, log := .stopped t :: w.log }
  | .destroy t => do
    let ts ← destroyTimer w.ts t
    .ok { w with ts := ts, log := .stopped t :: w.log }

/-- The timer a call is about, and whether it has to exist (`create`: must not). -/
def TimerOp.target : TimerOp κ → Ptr × Bool
  | .create t _ _ _ => (t, false)
  | .setInterval t _ | .setCallback t _ | .start t _ | .setTimeout t _ | .stop t | .destroy t =>
    (t, true)

/-- A call, unless its timer has been destroyed (module doc). -/
def TimerRun.op (w : TimerRun κ) (o : TimerOp κ) : Res (TimerRun κ) :=
  if (w.ts.timers o.target.1).isSome = o.target.2 then w.call o else .ok w

/-- The steps of a run. -/
inductive TimerAction (κ : Type) where
  | op (o : TimerOp κ)
  | enter
  | fire
  | leave

def TimerRun.step (w : TimerRun κ) : TimerAction κ → Res (TimerRun κ)
  | .op o => w.op o
  | .enter =>
    match w.now with
    | some _ => .ok w
    | none =>
      let (tv, ts) := timerEnter w.ts
      .ok { w with ts := ts, now := some tv }
  | .fire =>
    match w.now with
    | none => .ok w
    | some tv => do
      match ← timerFire tv w.ts with
      | none => .ok w
      | some (t, ts) => do
        let _ ← Res.deref ts.timers t
        .ok { w with ts := ts, log := .fired t :: w.log }
  | .leave =>
    match w.now with
    | none => .ok w
    | some tv => do
      match ← timerFire tv w.ts with
      | some _ => .ok w
      | none => do
        let (ts, _) ← timerLeave w.ts
        .ok { w with ts := ts, now := none }

/-- The run of a list of actions. -/
def TimerRun.run : List (TimerAction κ) → TimerRun κ → Res (TimerRun κ)
  | [], w => .ok w
  | a :: acts, w => do
    let w ← w.step a
    run acts w

/-- The state before any call. -/
def TimerRun.init (clock : Nat → Timeval) (malloc : Nat → Bool) : TimerRun κ :=
  ⟨Timers.init clock malloc, none, []⟩

/-! ## Stopped timers -/

/-- The timer was stopped and has not been started since. -/
def StoppedIn (t : Ptr) : List TimerEvent → Prop
  | [] => False
  | e :: log => e = .stopped t ∨ e ≠ .started t ∧ StoppedIn t log

/-- No callback was called for a timer that was stopped and not started since. -/
def StopEffective : List TimerEvent → Prop
  | [] => True
  | .fired t :: log => ¬ StoppedIn t log ∧ StopEffective log
  | _ :: log => StopEffective log

theorem stoppedIn_append {t : Ptr} {post pre : List TimerEvent} (h : .started t ∉ post) :
    StoppedIn t (post ++ .stopped t :: pre) := by
  induction post with
  | nil => exact .inl rfl
  | cons e post ih =>
    simp only [List.mem_cons, not_or] at h
    exact .inr ⟨Ne.symm h.1, ih h.2⟩

theorem StopEffective.append {post pre : List TimerEvent} (h : StopEffective (post ++ pre)) :
    StopEffective pre := by
  induction post with
  | nil => exact h
  | cons e post ih => cases e <;> first | exact ih h | exact ih h.2

/-! ## The invariant of a run -/

/-- The invariant of a run (module doc). -/
structure RunInv (w : TimerRun κ) (q : Queue) : Prop where
  sound : Sound w.ts q
  lock : w.ts.inCheckTimeoutLock = w.now.isSome
  armed : ∀ e ∈ q.all, ¬ StoppedIn e.timer w.log
  stops : StopEffective w.log

theorem init_inv (clock : Nat → Timeval) (malloc : Nat → Bool) :
    RunInv (TimerRun.init clock malloc : TimerRun κ) ⟨[], []⟩ :=
  ⟨init_sound clock malloc, rfl, by simp [Queue.all], trivial⟩

theorem setTimer_sound {s : Timers κ} {q : Queue} (h : Sound s q) (t : Ptr)
    (f : Timer κ → Timer κ) : Sound (s.setTimer t f) q := by
  refine ⟨h.rep.congr rfl rfl rfl rfl rfl, h.unique, fun e he => ?_, h.idle⟩
  show (update s.timers t ((s.timers t).map f) e.timer).isSome
  by_cases hx : e.timer = t
  · rw [hx, update_self, Option.isSome_map, ← hx]
    exact h.alive e he
  · rw [update_of_ne hx]
    exact h.alive e he

/-- An event about `t` with no entry left for `t`. -/
theorem stopped_armed {q : Queue} {log : List TimerEvent} (h : q.Unique) (t : Ptr)
    (ha : ∀ e ∈ q.all, ¬ StoppedIn e.timer log) :
    ∀ e ∈ (q.remove t).all, ¬ StoppedIn e.timer (.stopped t :: log) := by
  intro e he
  obtain ⟨he, hne⟩ := (Queue.mem_remove h).1 he
  rintro (hs | ⟨-, hs⟩)
  · cases hs
    exact hne rfl
  · exact ha e he hs

theorem started_armed {q : Queue} {log : List TimerEvent} (h : q.Unique) {a : Armed} {lock : Bool}
    (ha : ∀ e ∈ q.all, ¬ StoppedIn e.timer log) :
    ∀ e ∈ ((q.remove a.timer).arm lock a).all, ¬ StoppedIn e.timer (.started a.timer :: log) := by
  intro e he
  rintro (hs | ⟨hne, hs⟩)
  · cases hs
  · rcases Queue.mem_arm.1 he with rfl | he
    · exact hne rfl
    · exact ha e ((Queue.mem_remove h).1 he).1 hs

/-- What a call can do to the queue and the log. -/
theorem op_cases {w : TimerRun κ} {q : Queue} (h : Sound w.ts q) (o : TimerOp κ) :
    ∃ ts log q', w.op o = .ok ⟨ts, w.now, log⟩ ∧ Sound ts q' ∧
      ts.inCheckTimeoutLock = w.ts.inCheckTimeoutLock ∧
      ((log = w.log ∧ q' = q) ∨
        (∃ t, log = .stopped t :: w.log ∧ q' = q.remove t) ∨
        ∃ a : Armed, log = .started a.timer :: w.log ∧
          q' = (q.remove a.timer).arm w.ts.inCheckTimeoutLock a) := by
  unfold TimerRun.op
  split
  · rename_i hc
    cases o with
    | create t i c f =>
      have ht : w.ts.timers t = none := by simpa [TimerOp.target] using hc
      refine ⟨_, _, q, rfl, createTimer_sound h ht i c f, ?_, .inl ⟨rfl, rfl⟩⟩
      unfold createTimer
      split <;> rfl
    | setInterval t i => exact ⟨_, _, q, rfl, setTimer_sound h .., rfl, .inl ⟨rfl, rfl⟩⟩
    | setCallback t f => exact ⟨_, _, q, rfl, setTimer_sound h .., rfl, .inl ⟨rfl, rfl⟩⟩
    | start t n =>
      obtain ⟨ts, r, q', hts, hfr, hs, hq⟩ := startTimer_sound h (t := t) hc n
      refine ⟨ts, startEvent t r :: w.log, q', by simp only [TimerRun.call, hts, Res.ok_bind], hs,
        hfr.lock, ?_⟩
      rcases hq with ⟨rfl, rfl, -⟩ | ⟨rfl, d, rfl⟩
      · exact .inr (.inl ⟨t, rfl, rfl⟩)
      · exact .inr (.inr ⟨⟨t, d, n⟩, rfl, rfl⟩)
    | setTimeout t tv =>
      obtain ⟨ts, r, q', hts, hfr, hs, hq⟩ := setTimeout_sound h (t := t) hc tv
      refine ⟨ts, startEvent t r :: w.log, q', by simp only [TimerRun.call, hts, Res.ok_bind], hs,
        hfr.lock, ?_⟩
      rcases hq with ⟨rfl, rfl⟩ | ⟨rfl, rfl⟩
      · exact .inr (.inl ⟨t, rfl, rfl⟩)
      · exact .inr (.inr ⟨⟨t, tv, 1⟩, rfl, rfl⟩)
    | stop t =>
      obtain ⟨ts, hts, hs, hfr⟩ := stopTimer_sound h t
      exact ⟨ts, .stopped t :: w.log, _, by simp only [TimerRun.call, hts, Res.ok_bind], hs,
        hfr.lock, .inr (.inl ⟨t, rfl, rfl⟩)⟩
    | destroy t =>
      obtain ⟨ts, hts, hs, hl, -⟩ := destroyTimer_sound h (t := t) hc
      exact ⟨ts, .stopped t :: w.log, _, by simp only [TimerRun.call, hts, Res.ok_bind], hs, hl,
        .inr (.inl ⟨t, rfl, rfl⟩)⟩
  · exact ⟨w.ts, w.log, q, rfl, h, rfl, .inl ⟨rfl, rfl⟩⟩

/-- **Step lemma, calls.** -/
theorem op_inv {w : TimerRun κ} {q : Queue} (h : RunInv w q) (o : TimerOp κ) :
    ∃ w' q', w.op o = .ok w' ∧ RunInv w' q' := by
  obtain ⟨ts, log, q', ho, hs, hl, hq⟩ := op_cases h.sound o
  refine ⟨_, q', ho, hs, hl.trans h.lock, ?_, ?_⟩
  · rcases hq with ⟨rfl, rfl⟩ | ⟨t, rfl, rfl⟩ | ⟨a, rfl, rfl⟩
    · exact h.armed
    · exact stopped_armed h.sound.unique t h.armed
    · exact started_armed h.sound.unique h.armed
  · rcases hq with ⟨rfl, -⟩ | ⟨t, rfl, -⟩ | ⟨a, rfl, -⟩ <;> exact h.stops

/-- A round of the loop calls the callback of a timer that has an entry. -/
theorem fire_inv {ts : Timers κ} {tv : Timeval} {log : List TimerEvent} {q : Queue}
    (h : RunInv ⟨ts, some tv, log⟩ q) :
    ∃ w' q', (TimerRun.mk ts (some tv) log).step .fire = .ok w' ∧ RunInv w' q' := by
  have hlock : ts.inCheckTimeoutLock = true := h.lock
  by_cases hq : ∀ e ∈ q.list.head?, tvcmp tv e.timeout < 0
  · exact ⟨_, q, by simp only [TimerRun.step, timerFire_none h.sound.rep hq, Res.ok_bind], h⟩
  obtain ⟨l, p⟩ := q
  cases l with
  | nil => simp at hq
  | cons e rest =>
    have hdue : 0 ≤ tvcmp tv e.timeout := by simpa using hq
    obtain ⟨ts', hts, hfr, d, hs⟩ := timerFire_sound h.sound hlock hdue
    have halive := h.sound.alive e (by simp [Queue.all])
    rw [← hfr.timers] at halive
    obtain ⟨tm, htm⟩ := Option.isSome_iff_exists.1 halive
    refine ⟨⟨ts', some tv, .fired e.timer :: log⟩, _, ?_, hs, hfr.lock.trans h.lock, ?_,
      h.armed e (by simp [Queue.all]), h.stops⟩
    · simp only [TimerRun.step, hts, Res.ok_bind, Res.deref_of_some htm]
    · intro x hx
      -- the entry's timer had an entry before the round
      obtain ⟨y, hy, hyx⟩ : ∃ y ∈ (Queue.mk (e :: rest) p).all, y.timer = x.timer := by
        simp only [Queue.all, List.mem_append] at hx
        rcases hx with hx | hx
        · exact ⟨x, by simp [Queue.all, hx], rfl⟩
        · split at hx
          · exact ⟨x, by simp [Queue.all, hx], rfl⟩
          · rcases List.mem_cons.1 hx with rfl | hx
            · exact ⟨e, by simp [Queue.all], rfl⟩
            · exact ⟨x, by simp [Queue.all, hx], rfl⟩
      rintro (hc | ⟨-, hc⟩)
      · cases hc
      · exact h.armed y hy (hyx ▸ hc)

theorem leave_inv {ts : Timers κ} {tv : Timeval} {log : List TimerEvent} {q : Queue}
    (h : RunInv ⟨ts, some tv, log⟩ q) :
    ∃ w' q', (TimerRun.mk ts (some tv) log).step .leave = .ok w' ∧ RunInv w' q' := by
  have hlock : ts.inCheckTimeoutLock = true := h.lock
  by_cases hq : ∀ e ∈ q.list.head?, tvcmp tv e.timeout < 0
  · obtain ⟨ts', r, hts, hs, hl, -⟩ := timerLeave_sound h.sound
    refine ⟨⟨ts', none, log⟩, _, ?_, hs, hl, fun e he => ?_, h.stops⟩
    · simp only [TimerRun.step, timerFire_none h.sound.rep hq, Res.ok_bind, hts]
    · exact h.armed e ((Queue.merge_perm q).mem_iff.1 he)
  obtain ⟨l, p⟩ := q
  cases l with
  | nil => simp at hq
  | cons e rest =>
    have hdue : 0 ≤ tvcmp tv e.timeout := by simpa using hq
    obtain ⟨ts', hts, -⟩ := timerFire_sound h.sound hlock hdue
    exact ⟨_, _, by simp only [TimerRun.step, hts, Res.ok_bind], h⟩

/-- **Step lemma.** Every action keeps the invariant, without a fault. -/
theorem step_inv {w : TimerRun κ} {q : Queue} (h : RunInv w q) (a : TimerAction κ) :
    ∃ w' q', w.step a = .ok w' ∧ RunInv w' q' := by
  cases a with
  | op o => exact op_inv h o
  | enter =>
    obtain ⟨ts, _ | tv, log⟩ := w
    · exact ⟨⟨(timerEnter ts).2, some (timerEnter ts).1, log⟩, q, rfl, timerEnter_sound h.sound, rfl,
        h.armed, h.stops⟩
    · exact ⟨_, q, rfl, h⟩
  | fire =>
    obtain ⟨ts, _ | tv, log⟩ := w
    · exact ⟨_, q, rfl, h⟩
    · exact fire_inv h
  | leave =>
    obtain ⟨ts, _ | tv, log⟩ := w
    · exact ⟨_, q, rfl, h⟩
    · exact leave_inv h

/-- **Run lemma.** -/
theorem run_inv (acts : List (TimerAction κ)) {w : TimerRun κ} {q : Queue} (h : RunInv w q) :
    ∃ w' q', w.run acts = .ok w' ∧ RunInv w' q' := by
  induction acts generalizing w q with
  | nil => exact ⟨w, q, rfl, h⟩
  | cons a acts ih =>
    obtain ⟨w₁, q₁, hw₁, h₁⟩ := step_inv h a
    obtain ⟨w₂, q₂, hw₂, h₂⟩ := ih h₁
    exact ⟨w₂, q₂, by rw [TimerRun.run, hw₁]; exact hw₂, h₂⟩

/-! ## What holds of every run -/

/-- **Unique entries, effective stops.** After every run: the three lists are disjoint and acyclic,
no timer has two entries in `timer_list` and `pending_list`, `pending_list` is empty outside a pass,
and between the stop of a timer and a later call of its callback the timer was started. -/
theorem timer_entries_unique_stop_effective (clock : Nat → Timeval) (malloc : Nat → Bool)
    (acts : List (TimerAction κ)) :
    ∃ w, (TimerRun.init clock malloc).run acts = .ok w ∧
      (∃ l p f, LinkedList.IsList w.ts.next w.ts.timerList l ∧
        LinkedList.IsList w.ts.next w.ts.pendingList p ∧
        LinkedList.IsList w.ts.next w.ts.freeEntries f ∧ (l ++ p ++ f).Nodup ∧
        ((l ++ p).map fun e => (w.ts.entries e).timer).Nodup) ∧
      (w.now = none → w.ts.pendingList = 0) ∧
      ∀ after between before t,
        w.log = after ++ .fired t :: between ++ .stopped t :: before → .started t ∈ between := by
  obtain ⟨w, q, hw, h⟩ := run_inv acts (init_inv clock malloc)
  obtain ⟨l, p, f, hl, hb, rfl⟩ := h.sound.rep
  refine ⟨w, hw, ⟨l, p, f, hl.list, hl.pending, hl.free, hl.nodup, ?_⟩, fun hnow => ?_, ?_⟩
  · have hu := h.sound.unique
    rwa [Queue.Unique, Queue.all, ← List.map_append, List.map_map] at hu
  · have hp := h.sound.idle (by rw [h.lock, hnow]; rfl)
    exact hl.pending.eq_zero_iff.2 (List.map_eq_nil_iff.1 hp)
  · intro after between before t hlog
    have hs := h.stops
    rw [hlog, List.append_assoc, List.cons_append] at hs
    by_contra hnot
    exact hs.append.1 (stoppedIn_append hnot)

end Utils
