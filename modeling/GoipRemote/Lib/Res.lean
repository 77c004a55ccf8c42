import Mathlib.Tactic

/-!
# Outcomes of a C function

`Res α`: what running a function ends in. `ok a` is a normal return; `exit` is the end of the
process (`exit(..)`); `fault` is undefined behaviour (a read through a freed or null pointer, a
second `close` or `free`) or a loop that has not ended within its bound. `Res.Safe Q r` says that
`r` is no fault and that a normal return is in `Q`; a specification lemma of the model is a `Safe`
statement, and `safe_bind` composes them.
-/

universe u

/-- The outcome of running a function (module doc). -/
inductive Res (α : Type u) where
  | ok (a : α)
  | exit
  | fault
  deriving DecidableEq, Repr

namespace Res

variable {α β γ : Type u}

/-- Run `f` on the value of a normal return. -/
def bind (r : Res α) (f : α → Res β) : Res β :=
  match r with
  | ok a => f a
  | exit => exit
  | fault => fault

instance : Monad Res where
  pure := ok
  bind := bind

@[simp] theorem pure_eq (a : α) : (pure a : Res α) = ok a := rfl
@[simp] theorem ok_bind (a : α) (f : α → Res β) : ok a >>= f = f a := rfl
@[simp] theorem exit_bind (f : α → Res β) : (exit : Res α) >>= f = exit := rfl
@[simp] theorem fault_bind (f : α → Res β) : (fault : Res α) >>= f = fault := rfl

theorem bind_assoc (r : Res α) (f : α → Res β) (g : β → Res γ) :
    r >>= f >>= g = r >>= fun a => f a >>= g := by
  cases r <;> rfl

instance : LawfulMonad Res :=
  LawfulMonad.mk' Res (fun r => by cases r <;> rfl) (fun _ _ => rfl) bind_assoc

theorem bind_eq_ok {r : Res α} {f : α → Res β} {b : β} :
    r >>= f = ok b ↔ ∃ a, r = ok a ∧ f a = ok b := by
  cases r <;> simp

/-- The value at a pointer; a fault when nothing is allocated there. -/
def deref {κ : Type} (heap : κ → Option α) (p : κ) : Res α :=
  match heap p with
  | some a => ok a
  | none => fault

theorem deref_of_some {κ : Type} {heap : κ → Option α} {p : κ} {a : α} (h : heap p = some a) :
    deref heap p = ok a := by simp [deref, h]

theorem deref_eq_ok {κ : Type} {heap : κ → Option α} {p : κ} {a : α} :
    deref heap p = ok a ↔ heap p = some a := by
  unfold deref
  split <;> simp [*]

/-- No fault, and a normal return is in `Q`. -/
def Safe (Q : α → Prop) : Res α → Prop
  | ok a => Q a
  | exit => True
  | fault => False

@[simp] theorem safe_ok {Q : α → Prop} {a : α} : Safe Q (ok a) ↔ Q a := Iff.rfl
@[simp] theorem safe_exit {Q : α → Prop} : Safe Q (exit : Res α) ↔ True := Iff.rfl
@[simp] theorem safe_fault {Q : α → Prop} : Safe Q (fault : Res α) ↔ False := Iff.rfl

instance {Q : α → Prop} [DecidablePred Q] : (r : Res α) → Decidable (Safe Q r)
  | ok a => inferInstanceAs (Decidable (Q a))
  | exit => isTrue trivial
  | fault => isFalse id

theorem safe_bind {r : Res α} {f : α → Res β} {Q : β → Prop} :
    Safe Q (r >>= f) ↔ Safe (fun a => Safe Q (f a)) r := by
  cases r <;> rfl

theorem Safe.mono {Q R : α → Prop} {r : Res α} (h : Safe Q r) (hqr : ∀ a, Q a → R a) :
    Safe R r := by
  cases r with
  | ok a => exact hqr a h
  | exit => trivial
  | fault => exact h

theorem Safe.of_ok {Q : α → Prop} {r : Res α} {a : α} (h : Safe Q r) (hr : r = ok a) : Q a := by
  subst hr; exact h

theorem Safe.ne_fault {Q : α → Prop} {r : Res α} (h : Safe Q r) : r ≠ fault := by
  rintro rfl; exact h

end Res
