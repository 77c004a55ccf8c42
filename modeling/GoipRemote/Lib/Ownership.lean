import Mathlib.Logic.Function.Basic

/-!
# Ownership

Resources (descriptors, allocations) are held in slots: `own a` is what slot `a` holds. `Owned own
live` says that each live resource is in exactly one slot and that nothing else is in any. The three
moves of a resource keep it: `acquire` (a fresh resource is put in an empty slot), `release` (it is
given up together with its slot) and `move`.
-/

namespace Ownership

open Function

variable {ι α : Type*}

/-- Every live resource has exactly one owner, and owners hold live resources. -/
structure Owned (own : ι → Option α) (live : α → Prop) : Prop where
  inj : ∀ a b x, own a = some x → own b = some x → a = b
  live_iff : ∀ x, live x ↔ ∃ a, own a = some x

variable {own : ι → Option α} {live : α → Prop} {a b : ι} {x : α}

theorem Owned.live_of (h : Owned own live) (ha : own a = some x) : live x :=
  (h.live_iff x).2 ⟨a, ha⟩

theorem Owned.congr {own' : ι → Option α} {live' : α → Prop} (h : Owned own live)
    (ho : ∀ a, own' a = own a) (hl : ∀ x, live' x ↔ live x) : Owned own' live' := by
  obtain rfl : own' = own := funext ho
  obtain rfl : live' = live := funext fun x => propext (hl x)
  exact h

/-- Slots that never hold anything can be left out. -/
theorem Owned.comap {κ : Type*} (h : Owned own live) (f : κ → ι) (hf : Injective f)
    (hcover : ∀ a x, own a = some x → ∃ b, f b = a) : Owned (own ∘ f) live where
  inj := fun a b x ha hb => hf (h.inj _ _ x ha hb)
  live_iff := fun x => by
    rw [h.live_iff]
    refine ⟨?_, ?_⟩
    · rintro ⟨a, ha⟩
      obtain ⟨b, rfl⟩ := hcover a x ha
      exact ⟨b, ha⟩
    · rintro ⟨b, hb⟩
      exact ⟨f b, hb⟩

variable [DecidableEq ι]

/-- A fresh resource is put in an empty slot. -/
theorem Owned.acquire (h : Owned own live) (ha : own a = none) (hx : ¬ live x) :
    Owned (update own a (some x)) fun y => y = x ∨ live y := by
  have hno : ∀ b, own b ≠ some x := fun b hb => hx (h.live_of hb)
  refine ⟨?_, ?_⟩
  · intro b c y hb hc
    by_cases hba : b = a <;> by_cases hca : c = a
    · rw [hba, hca]
    · subst hba
      rw [update_self] at hb
      rw [update_of_ne hca, ← hb] at hc
      exact absurd hc (hno c)
    · subst hca
      rw [update_self] at hc
      rw [update_of_ne hba, ← hc] at hb
      exact absurd hb (hno b)
    · rw [update_of_ne hba] at hb
      rw [update_of_ne hca] at hc
      exact h.inj b c y hb hc
  · intro y
    refine ⟨?_, ?_⟩
    · rintro (rfl | hy)
      · exact ⟨a, update_self ..⟩
      · obtain ⟨b, hb⟩ := (h.live_iff y).1 hy
        have hne : b ≠ a := by
          rintro rfl
          rw [ha] at hb
          cases hb
        exact ⟨b, by rw [update_of_ne hne]; exact hb⟩
    · rintro ⟨b, hb⟩
      by_cases hba : b = a
      · subst hba
        rw [update_self] at hb
        exact .inl (Option.some.inj hb).symm
      · rw [update_of_ne hba] at hb
        exact .inr (h.live_of hb)

/-- A resource is given up by its owner. -/
theorem Owned.release (h : Owned own live) (ha : own a = some x) :
    Owned (update own a none) fun y => y ≠ x ∧ live y := by
  have hsome : ∀ {b y}, update own a none b = some y → b ≠ a ∧ own b = some y := by
    intro b y hb
    by_cases hba : b = a
    · subst hba
      rw [update_self] at hb
      cases hb
    · rw [update_of_ne hba] at hb
      exact ⟨hba, hb⟩
  refine ⟨?_, ?_⟩
  · intro b c y hb hc
    exact h.inj b c y (hsome hb).2 (hsome hc).2
  · intro y
    refine ⟨?_, ?_⟩
    · rintro ⟨hne, hy⟩
      obtain ⟨b, hb⟩ := (h.live_iff y).1 hy
      have hba : b ≠ a := by
        rintro rfl
        rw [ha] at hb
        exact hne (Option.some.inj hb).symm
      exact ⟨b, by rw [update_of_ne hba]; exact hb⟩
    · rintro ⟨b, hb⟩
      obtain ⟨hba, hb⟩ := hsome hb
      refine ⟨?_, h.live_of hb⟩
      rintro rfl
      exact hba (h.inj b a y hb ha)

/-- A resource goes from its slot to an empty one. -/
theorem Owned.move (h : Owned own live) (ha : own a = some x) (hb : own b = none) :
    Owned (update (update own a none) b (some x)) live := by
  have hab : b ≠ a := by
    rintro rfl
    rw [ha] at hb
    cases hb
  have hr := h.release ha
  have hacq := hr.acquire (a := b) (x := x) (by rw [update_of_ne hab]; exact hb) fun hx => hx.1 rfl
  refine hacq.congr (fun _ => rfl) fun y => ?_
  by_cases hy : y = x
  · subst hy
    exact ⟨fun _ => .inl rfl, fun _ => h.live_of ha⟩
  · exact ⟨fun hl => .inr ⟨hy, hl⟩, fun hl => (hl.resolve_left hy).2⟩

end Ownership
