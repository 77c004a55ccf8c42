import Mathlib.Tactic

/-!
# The parts of a split list

A part between two separators holds no separator and stands in the list as it is, and one as long as the
list is the list.
-/

namespace SplitOn

variable {α : Type} [BEq α] [LawfulBEq α] {a : α}

/-- The first part is the list's beginning. -/
theorem splitOn_cases (l : List α) : ∃ first rest, l.splitOn a = first :: rest ∧ a ∉ first ∧
    first <+: l ∧ ∀ part ∈ rest, a ∉ part ∧ part <:+: l := by
  induction l with
  | nil => exact ⟨[], [], List.splitOn_nil a, by simp, List.nil_prefix, by simp⟩
  | cons b l ih =>
    obtain ⟨first, rest, hsplit, hfirst, hpre, hrest⟩ := ih
    have hinfix : ∀ part, part <:+: l → part <:+: b :: l :=
      fun part h => h.trans (List.suffix_cons b l).isInfix
    rw [List.splitOn_cons_eq_if_modifyHead, hsplit]
    by_cases hb : b = a
    · subst hb
      refine ⟨[], first :: rest, by simp, by simp, List.nil_prefix, fun part hpart => ?_⟩
      cases List.mem_cons.1 hpart with
      | inl h => exact h ▸ ⟨hfirst, hinfix first hpre.isInfix⟩
      | inr h => exact ⟨(hrest part h).1, hinfix part (hrest part h).2⟩
    · refine ⟨b :: first, rest, by simp [hb], by simp [hfirst, Ne.symm hb], ?_, fun part hpart => ?_⟩
      · exact List.cons_prefix_cons.2 ⟨rfl, hpre⟩
      · exact ⟨(hrest part hpart).1, hinfix part (hrest part hpart).2⟩

theorem of_mem_splitOn {l part : List α} (h : part ∈ l.splitOn a) : a ∉ part ∧ part <:+: l := by
  obtain ⟨first, rest, hsplit, hfirst, hpre, hrest⟩ := @splitOn_cases α _ _ a l
  rw [hsplit] at h
  cases List.mem_cons.1 h with
  | inl h => exact h ▸ ⟨hfirst, hpre.isInfix⟩
  | inr h => exact hrest part h

theorem eq_of_mem_splitOn {l part : List α} (h : part ∈ l.splitOn a) (hlen : l.length ≤ part.length) :
    part = l ∧ a ∉ l := by
  obtain ⟨hpart, hinfix⟩ := of_mem_splitOn h
  have heq : part = l := hinfix.eq_of_length_le hlen
  exact ⟨heq, heq ▸ hpart⟩

end SplitOn
