import Mathlib.Data.List.Sort

/-!
# Insertion with a tolerant comparison

`List.orderedInsert lt e` puts `e` before the first element that `lt e` holds of. When `lt` is no
strict weak order (a comparison that rounds, say), the result is not sorted by `lt`, but it can
still be sorted up to a tolerance `R`: `pairwise_orderedInsert` says what `lt` and `R` must have to
do with each other for the insertion to keep `Pairwise R`.
-/

namespace Tolerant

variable {α : Type*} {lt R : α → α → Prop} [DecidableRel lt] {e : α} {l : List α}

/-- Where the insertion puts `e`: after elements it is not before, in front of one it is before. -/
theorem orderedInsert_split (lt : α → α → Prop) [DecidableRel lt] (e : α) (l : List α) :
    ∃ pre suf, l = pre ++ suf ∧ l.orderedInsert lt e = pre ++ e :: suf ∧
      (∀ x ∈ pre, ¬ lt e x) ∧ ∀ x ∈ suf.head?, lt e x := by
  induction l with
  | nil => exact ⟨[], [], rfl, rfl, by simp, by simp⟩
  | cons x l ih =>
    by_cases hx : lt e x
    · exact ⟨[], x :: l, rfl, by simp [List.orderedInsert, hx], by simp, by simpa using hx⟩
    · obtain ⟨pre, suf, hl, hi, hpre, hsuf⟩ := ih
      refine ⟨x :: pre, suf, by rw [hl]; rfl, ?_, ?_, hsuf⟩
      · simp [List.orderedInsert, hx, hi]
      · simp only [List.mem_cons, forall_eq_or_imp]
        exact ⟨hx, hpre⟩

omit [DecidableRel lt] in
/-- An element between a list's two parts. -/
theorem pairwise_insert {pre suf : List α} (h : (pre ++ suf).Pairwise R) (hpre : ∀ x ∈ pre, R x e)
    (hhead : ∀ x ∈ suf.head?, R e x) (htrans : ∀ x ∈ suf.head?, ∀ y ∈ suf, R x y → R e y) :
    (pre ++ e :: suf).Pairwise R := by
  rw [List.pairwise_append] at h ⊢
  obtain ⟨h1, h2, h3⟩ := h
  refine ⟨h1, List.pairwise_cons.2 ⟨fun y hy => ?_, h2⟩, fun x hx y hy => ?_⟩
  · cases suf with
    | nil => simp at hy
    | cons z suf =>
      rcases List.mem_cons.1 hy with rfl | hy'
      · exact hhead y (by simp)
      · exact htrans z (by simp) y (by simp [hy']) ((List.pairwise_cons.1 h2).1 y hy')
  · rcases List.mem_cons.1 hy with rfl | hy
    · exact hpre x hx
    · exact h3 x hx y hy

/-- **Tolerant insertion.** If not being before `x` puts `x` within the tolerance of `e`, and being
before `x` puts `e` within the tolerance of all that `x` is within the tolerance of, the insertion
keeps the list sorted up to the tolerance. -/
theorem pairwise_orderedInsert (hge : ∀ x ∈ l, ¬ lt e x → R x e) (hlt : ∀ x ∈ l, lt e x → R e x)
    (htrans : ∀ x ∈ l, ∀ y ∈ l, lt e x → R x y → R e y) (h : l.Pairwise R) :
    (l.orderedInsert lt e).Pairwise R := by
  obtain ⟨pre, suf, rfl, hi, hpre, hsuf⟩ := orderedInsert_split lt e l
  rw [hi]
  have hmem : ∀ x ∈ suf.head?, x ∈ pre ++ suf := fun x hx =>
    List.mem_append_right _ (List.mem_of_mem_head? hx)
  refine pairwise_insert h (fun x hx => hge x (by simp [hx]) (hpre x hx))
    (fun x hx => hlt x (hmem x hx) (hsuf x hx)) fun x hx y hy => ?_
  exact htrans x (hmem x hx) y (by simp [hy]) (hsuf x hx)

end Tolerant
