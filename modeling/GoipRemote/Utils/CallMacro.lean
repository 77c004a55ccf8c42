import GoipRemote.Utils.TimerPass

/-!
# The `CALL` macro (`utils/debug.h`) in `timer_check_timeout`

`CALL(timer->call_back, (timer->ctxt))` stands for

`log_function_enter(timer->call_back) ? timer->call_back (timer->ctxt) : 0;`
`log_function_exit(timer->call_back)`

unless `NDEBUG` is defined: the timer is read once more when its callback has returned. A read through the
pointer of a destroyed timer is a fault here, also where its memory holds another timer by then.
`debugPass_iff` says for which callbacks a pass reads no destroyed timer and leaves `call_stack_top` as it
was.
-/

namespace Utils

open Function

variable {κ : Type}

/-- A run, and the timers that `destroy_timer` was called on, latest first. -/
structure Watched (κ : Type) where
  run : TimerRun κ
  destroyed : List Ptr

/-- The process of the default build: `call_stack` and `call_stack_top` besides. -/
structure Debug (κ : Type) where
  timers : Watched κ
  callStack : Int → κ
  callStackTop : Int

namespace Watched

def setTs (w : Watched κ) (ts : Timers κ) : Watched κ := { w with run := { w.run with ts := ts } }

/-- `TimerRun.op`, with its note. -/
def op (w : Watched κ) (o : TimerOp κ) : Res (Watched κ) := do
  let run ← w.run.op o
  return ⟨run,
    match o with
    | .destroy t => if (w.run.ts.timers t).isSome then t :: w.destroyed else w.destroyed
    | _ => w.destroyed⟩

/-- Calls one after the other. -/
def ops : List (TimerOp κ) → Watched κ → Res (Watched κ)
  | [], w => .ok w
  | o :: os, w => w.op o >>= ops os

/-- A callback: it makes the calls of the next script. -/
def callback (t : Ptr) : Watched κ × List (List (TimerOp κ)) → Res (Watched κ × List (List (TimerOp κ)))
  | (w, scripts) => do
    let w ← ops (scripts.headD []) { w with run := { w.run with log := .fired t :: w.run.log } }
    return (w, scripts.tail)

/-- The timer at `t`, read through a pointer from when `n` timers had been destroyed there. -/
def timer (w : Watched κ) (t : Ptr) (n : Nat) : Res (Timer κ) :=
  if w.destroyed.count t = n then Res.deref w.run.ts.timers t else .fault

end Watched

section
variable [DecidableEq κ]

/-- `log_function_enter`. -/
def logFunctionEnter (w : Debug κ) (func : κ) : Res (Int × Debug κ) :=
  if 0 ≤ w.callStackTop ∧ w.callStackTop < 256 then
    .ok (w.callStackTop + 1, { w with
      callStack := update w.callStack w.callStackTop func
      callStackTop := w.callStackTop + 1 })
  else .fault

/-- `log_function_exit`. -/
def logFunctionExit (w : Debug κ) (func : κ) : Debug κ :=
  if ¬ (w.callStackTop > 0 ∧ func = w.callStack (w.callStackTop - 1)) then w
  else { w with callStackTop := w.callStackTop - 1 }

/-- `CALL(timer->call_back, (timer->ctxt))`. -/
def callTimer (t : Ptr) (timer : Timer κ) :
    Debug κ × List (List (TimerOp κ)) → Res (Debug κ × List (List (TimerOp κ)))
  | (w, scripts) => do
    let n := w.timers.destroyed.count t
    let (entered, w) ← logFunctionEnter w timer.callBack
    let (timers, scripts) ←
      if entered ≠ 0 then Watched.callback t (w.timers, scripts) else .ok (w.timers, scripts)
    -- the argument of `log_function_exit`
    let timer ← timers.timer t n
    return (logFunctionExit { w with timers := timers } timer.callBack, scripts)

/-- A pass of the default build; the `k`-th callback it calls makes the calls of the `k`-th script. -/
def Debug.pass (w : Debug κ) (scripts : List (List (TimerOp κ))) : Res (Debug κ) := do
  let (w, _) ← timerCheckTimeout (fun w => w.1.timers.run.ts)
    (fun w ts => ({ w.1 with timers := w.1.timers.setTs ts }, w.2)) callTimer (w, scripts)
  return w.1

/-- In the rounds of a pass at `tv`: there is room in `call_stack`, whose top is `top`, and the callback
leaves its timer there, with the function it had. -/
def KeepsTimers (tv : Timeval) (top : Int) : Nat → Watched κ → List (List (TimerOp κ)) → Prop
  | 0, _, _ => True
  | rounds + 1, w, scripts => ∀ t ts, timerFire tv w.run.ts = .ok (some (t, ts)) →
    (0 ≤ top ∧ top < 256) ∧ ∀ timer, ts.timers t = some timer → ∀ w' scripts',
      Watched.callback t (w.setTs ts, scripts) = .ok (w', scripts') →
        (w'.destroyed.count t = w.destroyed.count t ∧
          (w'.run.ts.timers t).map Timer.callBack = some timer.callBack) ∧
        KeepsTimers tv top rounds w' scripts'

/-- The same of a whole pass. -/
def Debug.KeepsTimers (w : Debug κ) (scripts : List (List (TimerOp κ))) : Prop :=
  let (tv, ts) := timerEnter w.timers.run.ts
  Utils.KeepsTimers tv w.callStackTop ts.brk (w.timers.setTs ts) scripts

end

/-! ## A callback -/

theorem Watched.op_run {w : Watched κ} {o : TimerOp κ} {run : TimerRun κ} (h : w.run.op o = .ok run) :
    ∃ destroyed, w.op o = .ok ⟨run, destroyed⟩ := by
  unfold Watched.op
  rw [h]
  exact ⟨_, rfl⟩

theorem Watched.ops_run {os : List (TimerOp κ)} {w : Watched κ} {run : TimerRun κ}
    (h : TimerRun.ops os w.run = .ok run) : ∃ destroyed, Watched.ops os w = .ok ⟨run, destroyed⟩ := by
  induction os generalizing w with
  | nil =>
    cases h
    exact ⟨_, rfl⟩
  | cons o os ih =>
    obtain ⟨run₁, ho, hos⟩ := Res.bind_eq_ok.1 h
    obtain ⟨destroyed₁, ho'⟩ := Watched.op_run ho
    obtain ⟨destroyed, hos'⟩ := ih (w := ⟨run₁, destroyed₁⟩) hos
    refine ⟨destroyed, ?_⟩
    rw [Watched.ops, ho']
    exact hos'

theorem Watched.callback_run {w : Watched κ} {t : Ptr} {scripts : List (List (TimerOp κ))}
    {run : TimerRun κ}
    (h : TimerRun.ops (scripts.headD []) { w.run with log := .fired t :: w.run.log } = .ok run) :
    ∃ destroyed, Watched.callback t (w, scripts) = .ok (⟨run, destroyed⟩, scripts.tail) := by
  obtain ⟨destroyed, hops⟩ := Watched.ops_run
    (w := { w with run := { w.run with log := .fired t :: w.run.log } }) h
  exact ⟨destroyed, by rw [Watched.callback, hops]; rfl⟩

section
variable [DecidableEq κ] {w w' : Debug κ} {w₁ : Watched κ} {t : Ptr} {timer : Timer κ}
  {scripts scripts' : List (List (TimerOp κ))}

/-- `CALL` around a callback that returns. -/
theorem callTimer_eq (hcall : Watched.callback t (w.timers, scripts) = .ok (w₁, scripts')) :
    callTimer t timer (w, scripts) =
      if 0 ≤ w.callStackTop ∧ w.callStackTop < 256 then
        w₁.timer t (w.timers.destroyed.count t) >>= fun tm =>
          .ok (if tm.callBack = timer.callBack then
              ⟨w₁, update w.callStack w.callStackTop timer.callBack, w.callStackTop⟩
            else ⟨w₁, update w.callStack w.callStackTop timer.callBack, w.callStackTop + 1⟩, scripts')
      else .fault := by
  unfold callTimer logFunctionEnter
  by_cases hroom : 0 ≤ w.callStackTop ∧ w.callStackTop < 256
  · have hne : w.callStackTop + 1 ≠ 0 := by omega
    simp only [if_pos hroom, Res.ok_bind, hne, ne_eq, not_false_eq_true, if_true, hcall, Res.pure_eq]
    cases w₁.timer t (w.timers.destroyed.count t) with
    | ok tm =>
      simp only [Res.ok_bind]
      have hpos : w.callStackTop + 1 > 0 := by omega
      unfold logFunctionExit
      simp only [Int.add_sub_cancel, update_self, hpos, true_and]
      by_cases htm : tm.callBack = timer.callBack
      · simp [htm]
      · simp [htm]
    | exit => rfl
    | fault => rfl
  · simp only [if_neg hroom, Res.fault_bind]

/-- A callback that leaves its timer as it was. -/
theorem callTimer_kept (hcall : Watched.callback t (w.timers, scripts) = .ok (w₁, scripts'))
    (hroom : 0 ≤ w.callStackTop ∧ w.callStackTop < 256)
    (hcount : w₁.destroyed.count t = w.timers.destroyed.count t)
    (htimer : (w₁.run.ts.timers t).map Timer.callBack = some timer.callBack) :
    ∃ w', callTimer t timer (w, scripts) = .ok (w', scripts') ∧ w'.timers = w₁ ∧
      w'.callStackTop = w.callStackTop := by
  obtain ⟨tm, htm, hback⟩ := Option.map_eq_some_iff.1 htimer
  rw [callTimer_eq hcall, if_pos hroom, Watched.timer, if_pos hcount, Res.deref_of_some htm, Res.ok_bind,
    if_pos hback]
  exact ⟨_, rfl, rfl, rfl⟩

/-- What a `CALL` that returned did. -/
theorem callTimer_ok (h : callTimer t timer (w, scripts) = .ok (w', scripts')) :
    (0 ≤ w.callStackTop ∧ w.callStackTop < 256) ∧
      Watched.callback t (w.timers, scripts) = .ok (w'.timers, scripts') ∧
      (w'.callStackTop = w.callStackTop + 1 ∨ w'.callStackTop = w.callStackTop ∧
        w'.timers.destroyed.count t = w.timers.destroyed.count t ∧
        (w'.timers.run.ts.timers t).map Timer.callBack = some timer.callBack) := by
  have hroom : 0 ≤ w.callStackTop ∧ w.callStackTop < 256 := by
    by_contra hroom
    unfold callTimer logFunctionEnter at h
    simp only [if_neg hroom, Res.fault_bind] at h
    cases h
  have hcall : ∃ r, Watched.callback t (w.timers, scripts) = .ok r := by
    unfold callTimer logFunctionEnter at h
    have hne : w.callStackTop + 1 ≠ 0 := by omega
    simp only [if_pos hroom, Res.ok_bind, hne, ne_eq, not_false_eq_true, if_true] at h
    obtain ⟨r, hr, -⟩ := Res.bind_eq_ok.1 h
    exact ⟨r, hr⟩
  obtain ⟨⟨w₁, scripts₁⟩, hcall⟩ := hcall
  rw [callTimer_eq hcall, if_pos hroom] at h
  obtain ⟨tm, htm, hw'⟩ := Res.bind_eq_ok.1 h
  unfold Watched.timer at htm
  split at htm
  · rename_i hcount
    have htm' : w₁.run.ts.timers t = some tm := Res.deref_eq_ok.1 htm
    split at hw'
    · rename_i hback
      cases hw'
      exact ⟨hroom, hcall, .inr ⟨rfl, hcount, by rw [htm', Option.map_some, hback]⟩⟩
    · cases hw'
      exact ⟨hroom, hcall, .inl rfl⟩
  · cases htm

end

/-! ## A pass -/

section
variable [DecidableEq κ] {L : List Armed} {log : List TimerEvent} {tv : Timeval}

/-- The loop of a pass in the default build. -/
def Debug.loop (tv : Timeval) (rounds : Nat) (w : Debug κ) (scripts : List (List (TimerOp κ))) :
    Res (Debug κ × List (List (TimerOp κ))) :=
  timerLoop (fun w => w.1.timers.run.ts) (fun w ts => ({ w.1 with timers := w.1.timers.setTs ts }, w.2))
    callTimer tv rounds (w, scripts)

/-- The loop where the callbacks leave their timers. -/
theorem loop_kept : ∀ {rounds : Nat} (w : Debug κ) {q : Queue} {evs : List TimerEvent}
    (scripts : List (List (TimerOp κ))), PassInv L log tv w.timers.run q evs → q.list.length < rounds →
    KeepsTimers tv w.callStackTop rounds w.timers scripts →
    ∃ w' scripts' q' evs', Debug.loop tv rounds w scripts = .ok (w', scripts') ∧
      PassInv L log tv w'.timers.run q' evs' ∧ w'.callStackTop = w.callStackTop := by
  intro rounds
  induction rounds with
  | zero =>
    intro w q evs scripts _ hf
    exact absurd hf (Nat.not_lt_zero _)
  | succ rounds ih =>
    intro w q evs scripts h hf hk
    unfold Debug.loop
    by_cases hq : ∀ e ∈ q.list.head?, tvcmp tv e.timeout < 0
    · refine ⟨w, scripts, q, evs, ?_, h, rfl⟩
      simp only [timerLoop, timerFire_none h.sound.rep hq, Res.ok_bind]
    obtain ⟨l, p⟩ := q
    cases l with
    | nil => simp at hq
    | cons e rest =>
      have hdue : 0 ≤ tvcmp tv e.timeout := by simpa using hq
      obtain ⟨ts, hts, hfr, d, hs⟩ := timerFire_sound h.sound h.lock hdue
      obtain ⟨tm, htm⟩ := Option.isSome_iff_exists.1
        (hfr.timers ▸ h.sound.alive e (by simp [Queue.all]))
      have hfired := h.fired hs (hfr.lock.trans h.lock) hdue rfl
      obtain ⟨run₁, q₁, evs₁, hos, h₁, hsub⟩ := ops_passInv (scripts.headD []) hfired
      obtain ⟨destroyed, hcall⟩ := Watched.callback_run (w := w.timers.setTs ts) hos
      obtain ⟨hroom, hkept⟩ := hk e.timer ts hts
      obtain ⟨⟨hcount, hback⟩, hrest⟩ := hkept tm htm _ _ hcall
      obtain ⟨w₁, hw₁, htimers, htop⟩ :=
        callTimer_kept (w := { w with timers := w.timers.setTs ts }) hcall hroom hcount hback
      obtain ⟨w', scripts', q', evs', hw', h', htop'⟩ := ih w₁ scripts.tail
        (by rw [htimers]; exact h₁) (Nat.lt_of_le_of_lt hsub.length_le (Nat.lt_of_succ_lt_succ hf))
        (by rw [htimers, htop]; exact hrest)
      refine ⟨w', scripts', q', evs', ?_, h', htop'.trans htop⟩
      simp only [timerLoop, hts, Res.ok_bind, Res.deref_of_some htm, hw₁]
      exact hw'

/-- `call_stack_top` does not fall in a pass, and the callbacks left their timers if it is the same. -/
theorem loop_top : ∀ {rounds : Nat} {w w' : Debug κ} {scripts scripts' : List (List (TimerOp κ))},
    Debug.loop tv rounds w scripts = .ok (w', scripts') → w.callStackTop ≤ w'.callStackTop ∧
      (w'.callStackTop = w.callStackTop → KeepsTimers tv w.callStackTop rounds w.timers scripts) := by
  intro rounds
  induction rounds with
  | zero =>
    intro w w' scripts scripts' h
    cases h
  | succ rounds ih =>
    intro w w' scripts scripts' h
    unfold Debug.loop at h
    rw [timerLoop] at h
    obtain ⟨fired, hfire, h⟩ := Res.bind_eq_ok.1 h
    cases fired with
    | none =>
      cases h
      refine ⟨le_rfl, fun _ t ts hts => ?_⟩
      rw [hfire] at hts
      cases hts
    | some fired =>
      obtain ⟨t, ts⟩ := fired
      obtain ⟨tm, htm, h⟩ := Res.bind_eq_ok.1 h
      obtain ⟨⟨w₁, scripts₁⟩, hcall, h⟩ := Res.bind_eq_ok.1 h
      obtain ⟨hroom, hcallback, htop⟩ := callTimer_ok hcall
      obtain ⟨hle, hkeeps⟩ := ih h
      simp only at htop hroom hcallback
      refine ⟨by omega, fun heq t' ts' hts' => ?_⟩
      rw [hfire] at hts'
      cases hts'
      refine ⟨hroom, fun timer htimer w₂ scripts₂ hcall₂ => ?_⟩
      rw [hcallback] at hcall₂
      cases hcall₂
      have hsame : tm = timer := by
        rw [Res.deref_of_some htimer] at htm
        cases htm
        rfl
      subst hsame
      rcases htop with htop | ⟨htop, hkept⟩
      · omega
      · rw [htop] at hkeeps
        exact ⟨hkept, hkeeps (by omega)⟩

/-- **No destroyed timer** is read in a pass of the default build, and `call_stack_top` is afterwards what
it was, when each callback leaves its own timer there, with the function it had; otherwise a destroyed
timer is read or `call_stack_top` has changed. -/
theorem debugPass_iff {clock : Nat → Timeval} {malloc : Nat → Bool} {acts : List (TimerAction κ)}
    {w : TimerRun κ} (hrun : (TimerRun.init clock malloc).run acts = .ok w) (destroyed : List Ptr)
    (callStack : Int → κ) (top : Int) (scripts : List (List (TimerOp κ))) :
    (∃ w', Debug.pass ⟨⟨w, destroyed⟩, callStack, top⟩ scripts = .ok w' ∧ w'.callStackTop = top) ↔
      Debug.KeepsTimers ⟨⟨w, destroyed⟩, callStack, top⟩ scripts := by
  obtain ⟨w₀, q, hw₀, hinv⟩ := run_inv acts (init_inv clock malloc)
  cases hrun.symm.trans hw₀
  have hlen : q.list.length < w.ts.brk := by
    obtain ⟨l, p, f, hl, hb, rfl⟩ := hinv.sound.rep
    have hsub : l.Sublist (l ++ p ++ f) := by simp
    simpa using hl.length_lt hsub hb
  let start : Debug κ := ⟨⟨{ w with ts := (timerEnter w.ts).2 }, destroyed⟩, callStack, top⟩
  have hpass : Debug.pass ⟨⟨w, destroyed⟩, callStack, top⟩ scripts =
      Debug.loop (timerEnter w.ts).1 (timerEnter w.ts).2.brk start scripts >>= fun r =>
        timerLeave r.1.timers.run.ts >>= fun l => .ok { r.1 with timers := r.1.timers.setTs l.1 } := by
    unfold Debug.pass timerCheckTimeout
    simp only [Res.bind_assoc]
    rfl
  refine ⟨?_, ?_⟩
  · rintro ⟨w', hw', htop⟩
    rw [hpass] at hw'
    obtain ⟨⟨w₁, scripts₁⟩, hloop, hleave⟩ := Res.bind_eq_ok.1 hw'
    obtain ⟨⟨ts, r⟩, -, hts⟩ := Res.bind_eq_ok.1 hleave
    cases hts
    exact (loop_top hloop).2 htop
  · intro hk
    obtain ⟨w₁, scripts₁, q₁, evs, hloop, hpassInv, htop⟩ :=
      loop_kept start scripts (enter_passInv hinv.sound) hlen hk
    obtain ⟨ts, r, hleave, -⟩ := timerLeave_sound hpassInv.sound
    refine ⟨{ w₁ with timers := w₁.timers.setTs ts }, ?_, htop⟩
    have hloop' : Debug.loop (timerEnter w.ts).1 (timerEnter w.ts).2.brk start scripts =
        .ok (w₁, scripts₁) := hloop
    rw [hpass, hloop', Res.ok_bind, hleave]
    rfl

end

theorem debugPass_iff_idle :
    ∃ w : TimerRun Unit, (TimerRun.init (fun _ => ⟨20, 0⟩) fun _ => true).run
        [.op (.create 1 0 0 ()), .op (.start 1 1)] = .ok w ∧
      ((∃ w', Debug.pass ⟨⟨w, []⟩, fun _ => (), 0⟩ [[.start 1 1]] = .ok w' ∧ w'.callStackTop = 0) ↔
        Debug.KeepsTimers ⟨⟨w, []⟩, fun _ => (), 0⟩ [[.start 1 1]]) := by
  obtain ⟨w, hw⟩ : ∃ w, (TimerRun.init (fun _ => ⟨20, 0⟩) fun _ => true).run
    [.op (.create 1 0 0 ()), .op (.start 1 1)] = .ok w := ⟨_, rfl⟩
  exact ⟨w, hw, debugPass_iff hw [] _ 0 _⟩

/-- The callback destroys its own timer, as `timeout_del` does. -/
theorem debugPass_destroyed :
    ∃ w : TimerRun Unit, (TimerRun.init (fun _ => ⟨20, 0⟩) fun _ => true).run
        [.op (.create 1 0 0 ()), .op (.start 1 1)] = .ok w ∧
      Debug.pass ⟨⟨w, []⟩, fun _ => (), 0⟩ [[.destroy 1]] = .fault :=
  ⟨_, rfl, rfl⟩

end Utils
