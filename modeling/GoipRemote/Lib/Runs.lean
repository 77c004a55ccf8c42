import GoipRemote.Lib.Res

/-!
# Runs

A program takes a list of events, each with its step. `Along` says that a condition on the state and
the event holds at each step of a run. `run_safe` carries an invariant along such a run.
-/

namespace Runs

variable {σ ε : Type} (step : σ → ε → Res σ)

/-- The events one after the other. -/
def run : List ε → σ → Res σ
  | [], s => .ok s
  | ev :: evs, s => step s ev >>= run evs

/-- `P` holds of the state before each event of a run. -/
def Along (P : σ → ε → Prop) : List ε → σ → Prop
  | [], _ => True
  | ev :: evs, s => P s ev ∧ ∀ s', step s ev = .ok s' → Along P evs s'

variable {step} {I : σ → Prop} {P : σ → ε → Prop} {evs : List ε} {s : σ}

theorem run_append (evs evs' : List ε) (s : σ) :
    run step (evs ++ evs') s = run step evs s >>= run step evs' := by
  induction evs generalizing s with
  | nil => rfl
  | cons ev evs ih =>
    rw [List.cons_append, run, run, Res.bind_assoc]
    exact congrArg _ (funext ih)

theorem run_trans {evs' : List ε} {s' : σ} {r : Res σ} (h : run step evs s = .ok s')
    (h' : run step evs' s' = r) : run step (evs ++ evs') s = r := by
  rw [run_append, h, Res.ok_bind, h']

theorem along_of_forall (h : ∀ s ev, P s ev) : Along step P evs s := by
  induction evs generalizing s with
  | nil => trivial
  | cons ev evs ih => exact ⟨h s ev, fun s' _ => ih⟩

theorem Along.cons {ev : ε} {s' : σ} (hs : P s ev) (hstep : step s ev = .ok s') (h : Along step P evs s') :
    Along step P (ev :: evs) s := by
  refine ⟨hs, fun s₁ hs₁ => ?_⟩
  cases hstep.symm.trans hs₁
  exact h

/-- An invariant that each step keeps under its condition holds after every run. -/
theorem run_safe (hstep : ∀ s ev, I s → P s ev → Res.Safe I (step s ev)) (hs : I s)
    (h : Along step P evs s) : Res.Safe I (run step evs s) := by
  induction evs generalizing s with
  | nil => exact hs
  | cons ev evs ih =>
    have hsafe := hstep s ev hs h.1
    rw [run, Res.safe_bind]
    cases hev : step s ev with
    | ok s' => exact ih (hsafe.of_ok hev) (h.2 s' hev)
    | exit => trivial
    | fault => exact hsafe.ne_fault hev

end Runs
