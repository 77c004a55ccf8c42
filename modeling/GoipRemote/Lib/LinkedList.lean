import GoipRemote.Lib.Res
import Mathlib.Logic.Function.Basic
import Mathlib.Data.List.Nodup

/-!
# Singly linked lists in a heap

A heap of nodes is seen through its link field `next : Ptr → Ptr`; `0` is the null pointer.
`Seg next p xs q`: from `p` the links visit the nodes `xs` and then stand at `q`. `IsList next p xs`
is the case `q = 0`: the whole list headed at `p`. A list visits no node twice (`IsList.nodup`), and
its nodes are determined by its head (`IsList.unique`).

The loops programs run over such lists are here with what they answer: `walk` (to the first node that
passes a test), `advance` and `advanceTo` (to the last node before the first successor that passes it)
and `seek` (`walk` with a trailing pointer). Each takes a bound on its rounds and faults when that is
used up, so the lemmas also say that a bound above the number of nodes is enough. The updates are
`IsList.push`, `IsList.insertAfter` and `IsList.removeAfter`.
-/

/-- An address; `0` is the null pointer. -/
abbrev Ptr := Nat

namespace LinkedList

open Function

/-- From `p` the links visit `xs` and then stand at `q`. -/
def Seg (next : Ptr → Ptr) : Ptr → List Ptr → Ptr → Prop
  | p, [], q => p = q
  | p, x :: xs, q => p = x ∧ x ≠ 0 ∧ Seg next (next x) xs q

/-- `xs` are the nodes of the list headed at `p`, in order. -/
def IsList (next : Ptr → Ptr) (p : Ptr) (xs : List Ptr) : Prop := Seg next p xs 0

variable {next next' : Ptr → Ptr} {p q : Ptr} {xs ys : List Ptr}

@[simp] theorem seg_nil : Seg next p [] q ↔ p = q := Iff.rfl

theorem seg_cons {x : Ptr} :
    Seg next p (x :: xs) q ↔ p = x ∧ x ≠ 0 ∧ Seg next (next x) xs q := Iff.rfl

theorem seg_append : Seg next p (xs ++ ys) q ↔ ∃ m, Seg next p xs m ∧ Seg next m ys q := by
  induction xs generalizing p with
  | nil => simp
  | cons x xs ih => simp only [List.cons_append, seg_cons, ih]; tauto

theorem Seg.congr (h : Seg next p xs q) (hn : ∀ x ∈ xs, next' x = next x) : Seg next' p xs q := by
  induction xs generalizing p with
  | nil => exact h
  | cons x xs ih =>
    obtain ⟨rfl, hx, h⟩ := h
    refine ⟨rfl, hx, ?_⟩
    rw [hn p (by simp)]
    exact ih h fun y hy => hn y (by simp [hy])

theorem isList_nil : IsList next p [] ↔ p = 0 := Iff.rfl

theorem isList_cons {x : Ptr} :
    IsList next p (x :: xs) ↔ p = x ∧ x ≠ 0 ∧ IsList next (next x) xs := Iff.rfl

@[simp] theorem isList_zero : IsList next 0 xs ↔ xs = [] := by
  cases xs with
  | nil => simp [IsList]
  | cons x xs => simp only [isList_cons]; constructor <;> simp_all

theorem IsList.ne_zero (h : IsList next p xs) : ∀ x ∈ xs, x ≠ 0 := by
  induction xs generalizing p with
  | nil => simp
  | cons x xs ih =>
    obtain ⟨rfl, hx, h⟩ := h
    intro y hy
    rcases List.mem_cons.1 hy with rfl | hy
    · exact hx
    · exact ih h y hy

/-- The nodes of a list are determined by its head. -/
theorem IsList.unique (h : IsList next p xs) (h' : IsList next p ys) : xs = ys := by
  induction xs generalizing p ys with
  | nil =>
    rw [isList_nil] at h
    subst h
    exact (isList_zero.1 h').symm
  | cons x xs ih =>
    obtain ⟨rfl, hx, h⟩ := h
    cases ys with
    | nil => exact absurd h' hx
    | cons y ys =>
      obtain ⟨rfl, -, h'⟩ := h'
      rw [ih h h']

/-- A node's own list is a suffix of every list through it. -/
theorem IsList.suffix (h : IsList next p xs) {x : Ptr} (hx : x ∈ xs) :
    ∃ pre suf, xs = pre ++ x :: suf ∧ IsList next x (x :: suf) := by
  obtain ⟨pre, suf, rfl⟩ := List.append_of_mem hx
  obtain ⟨m, -, hm⟩ := seg_append.1 h
  obtain ⟨rfl, hm⟩ := hm
  exact ⟨pre, suf, rfl, rfl, hm⟩

/-- A list is acyclic. -/
theorem IsList.nodup (h : IsList next p xs) : xs.Nodup := by
  induction xs generalizing p with
  | nil => exact List.nodup_nil
  | cons x xs ih =>
    have hcons := h
    obtain ⟨rfl, hx, h⟩ := isList_cons.1 h
    refine List.nodup_cons.2 ⟨fun hm => ?_, ih h⟩
    -- `p` heads both its list and the list of its later occurrence, which is shorter
    obtain ⟨pre, suf, hxs, hsuf⟩ := h.suffix hm
    have hl := congrArg List.length (hcons.unique hsuf)
    rw [hxs] at hl
    simp at hl
    omega

theorem IsList.congr (h : IsList next p xs) (hn : ∀ x ∈ xs, next' x = next x) :
    IsList next' p xs := Seg.congr h hn

theorem IsList.update_of_notMem (h : IsList next p xs) {a v : Ptr} (ha : a ∉ xs) :
    IsList (update next a v) p xs :=
  h.congr fun _ hx => update_of_ne (ne_of_mem_of_not_mem hx ha) _ _

/-! ## Updates -/

theorem IsList.push (h : IsList next p xs) {x : Ptr} (hx : x ≠ 0) (hn : x ∉ xs) :
    IsList (update next x p) x (x :: xs) := by
  refine ⟨rfl, hx, ?_⟩
  rw [update_self]
  exact h.update_of_notMem hn

theorem Seg.update_of_notMem (h : Seg next p xs q) {a v : Ptr} (ha : a ∉ xs) :
    Seg (update next a v) p xs q :=
  h.congr fun _ hx => update_of_ne (ne_of_mem_of_not_mem hx ha) _ _

/-- `x->next = a->next; a->next = x`. -/
theorem IsList.insertAfter {a x : Ptr} (h : IsList next p (xs ++ a :: ys)) (hx : x ≠ 0)
    (hn : x ∉ xs ++ a :: ys) :
    IsList (update (update next x (next a)) a x) p (xs ++ a :: x :: ys) := by
  have hnd := h.nodup
  obtain ⟨m, h1, h2⟩ := seg_append.1 h
  obtain ⟨rfl, ha, h2⟩ := h2
  simp only [List.mem_append, List.mem_cons, not_or] at hn
  obtain ⟨hnx, hna, hny⟩ := hn
  have hax : m ∉ xs := fun hm =>
    (List.nodup_append.1 hnd).2.2 m hm m (by simp) rfl
  have hay : m ∉ ys := (List.nodup_cons.1 (List.nodup_append.1 hnd).2.1).1
  refine seg_append.2 ⟨m, (h1.update_of_notMem hnx).update_of_notMem hax, rfl, ha, ?_⟩
  rw [update_self]
  refine ⟨rfl, hx, ?_⟩
  rw [update_of_ne hna, update_self]
  exact (Seg.update_of_notMem h2 hny).update_of_notMem hay

/-- `a->next = a->next->next`. -/
theorem IsList.removeAfter {a x : Ptr} (h : IsList next p (xs ++ a :: x :: ys)) :
    IsList (update next a (next x)) p (xs ++ a :: ys) := by
  have hnd := h.nodup
  obtain ⟨m, h1, h2⟩ := seg_append.1 h
  obtain ⟨rfl, ha, rfl, hx, h2⟩ := h2
  have hax : m ∉ xs := fun hm =>
    (List.nodup_append.1 hnd).2.2 m hm m (by simp) rfl
  have hay : m ∉ next m :: ys := (List.nodup_cons.1 (List.nodup_append.1 hnd).2.1).1
  refine seg_append.2 ⟨m, h1.update_of_notMem hax, rfl, ha, ?_⟩
  rw [update_self]
  exact Seg.update_of_notMem h2 fun hm => hay (List.mem_cons_of_mem _ hm)

/-- The node after `a` is the head of the rest. -/
theorem IsList.next_eq {a : Ptr} (h : IsList next p (xs ++ a :: ys)) : next a = ys.headD 0 := by
  obtain ⟨m, -, h2⟩ := seg_append.1 h
  obtain ⟨rfl, -, h2⟩ := h2
  cases ys with
  | nil => exact h2
  | cons y ys => exact h2.1

theorem IsList.head_eq (h : IsList next p xs) : p = xs.headD 0 := by
  cases xs with
  | nil => exact h
  | cons x xs => exact h.1

theorem IsList.eq_zero_iff (h : IsList next p xs) : p = 0 ↔ xs = [] := by
  refine ⟨?_, ?_⟩
  · rintro rfl; exact isList_zero.1 h
  · rintro rfl; exact h

/-! ## Loops -/

section
variable (next)

/-- `while (p && !test(p)) p = p->next;`, where the test may fault. -/
def walk (test : Ptr → Res Bool) : Nat → Ptr → Res Ptr
  | 0, _ => .fault
  | fuel + 1, p =>
    if p = 0 then .ok 0
    else do
      if ← test p then .ok p else walk test fuel (next p)

/-- `while (p->next && !stop(p->next)) p = p->next;`, where the test may fault. -/
def advanceTo (stop : Ptr → Res Bool) : Nat → Ptr → Res Ptr
  | 0, _ => .fault
  | fuel + 1, p =>
    if next p = 0 then .ok p
    else do
      if ← stop (next p) then .ok p else advanceTo stop fuel (next p)

/-- `while (p->next && !stop(p->next)) p = p->next;` -/
def advance (stop : Ptr → Bool) : Nat → Ptr → Res Ptr
  | 0, _ => .fault
  | fuel + 1, p =>
    if next p = 0 then .ok p else if stop (next p) then .ok p else advance stop fuel (next p)

/-- `while (p && !test(p)) { pp = p; p = p->next; }`, answering `(pp, p)`. -/
def seek (test : Ptr → Bool) : Nat → Ptr → Ptr → Res (Ptr × Ptr)
  | 0, _, _ => .fault
  | fuel + 1, pp, p =>
    if p = 0 then .ok (pp, 0) else if test p then .ok (pp, p) else seek test fuel p (next p)

end

variable {test stop : Ptr → Bool} {fuel : Nat}

theorem walk_found {test : Ptr → Res Bool} {x : Ptr} (h : IsList next p (xs ++ x :: ys))
    (hf : xs.length < fuel) (hxs : ∀ y ∈ xs, test y = .ok false) (hx : test x = .ok true) :
    walk next test fuel p = .ok x := by
  induction xs generalizing p fuel with
  | nil =>
    obtain ⟨rfl, h0, -⟩ := h
    obtain ⟨fuel, rfl⟩ : ∃ f, fuel = f + 1 := ⟨fuel - 1, by simp at hf; omega⟩
    simp [walk, h0, hx]
  | cons y xs ih =>
    obtain ⟨rfl, h0, h⟩ := isList_cons.1 h
    obtain ⟨fuel, rfl⟩ : ∃ f, fuel = f + 1 := ⟨fuel - 1, by simp at hf; omega⟩
    have hy : test p = .ok false := hxs p (by simp)
    simp only [walk, h0, hy, if_false, Bool.false_eq_true, Res.ok_bind]
    exact ih h (by simpa using hf) fun z hz => hxs z (by simp [hz])

theorem walk_none {test : Ptr → Res Bool} (h : IsList next p xs) (hf : xs.length < fuel)
    (hxs : ∀ y ∈ xs, test y = .ok false) : walk next test fuel p = .ok 0 := by
  induction xs generalizing p fuel with
  | nil =>
    rw [isList_nil] at h
    obtain ⟨fuel, rfl⟩ : ∃ f, fuel = f + 1 := ⟨fuel - 1, by simp at hf; omega⟩
    simp [walk, h]
  | cons y xs ih =>
    obtain ⟨rfl, h0, h⟩ := isList_cons.1 h
    obtain ⟨fuel, rfl⟩ : ∃ f, fuel = f + 1 := ⟨fuel - 1, by simp at hf; omega⟩
    have hy : test p = .ok false := hxs p (by simp)
    simp only [walk, h0, hy, if_false, Bool.false_eq_true, Res.ok_bind]
    exact ih h (by simpa using hf) fun z hz => hxs z (by simp [hz])

/-- `advance` stands at the node `a` before the first successor that stops it. -/
theorem advance_eq {a : Ptr} {pre suf : List Ptr}
    (h : IsList next p (pre ++ a :: suf)) (hf : pre.length < fuel)
    (hpre : ∀ y ∈ (pre ++ [a]).tail, stop y = false) (hsuf : ∀ y ∈ suf.head?, stop y = true) :
    advance next stop fuel p = .ok a := by
  induction pre generalizing p fuel with
  | nil =>
    have hn : next a = suf.headD 0 := IsList.next_eq (show IsList next p ([] ++ a :: suf) from h)
    obtain ⟨rfl, h0, -⟩ := h
    obtain ⟨fuel, rfl⟩ : ∃ f, fuel = f + 1 := ⟨fuel - 1, by simp at hf; omega⟩
    cases suf with
    | nil => simp only [advance, hn, List.headD_nil, if_true]
    | cons y suf =>
      have hy : stop y = true := hsuf y (by simp)
      simp [advance, hn, hy]
  | cons x pre ih =>
    rw [List.cons_append] at h
    obtain ⟨rfl, h0, h⟩ := isList_cons.1 h
    obtain ⟨fuel, rfl⟩ : ∃ f, fuel = f + 1 := ⟨fuel - 1, by simp at hf; omega⟩
    have hhead := IsList.head_eq h
    obtain ⟨y, ys, hys⟩ : ∃ y ys, pre ++ a :: suf = y :: ys := by
      cases pre with
      | nil => exact ⟨_, _, rfl⟩
      | cons y pre => exact ⟨_, _, rfl⟩
    have hne : next p ≠ 0 := by
      rw [hys] at h hhead
      rw [hhead]
      exact h.ne_zero y (by simp)
    have hstop : stop (next p) = false := by
      apply hpre _
      rw [hhead]
      cases pre <;> simp
    simp only [advance, hne, hstop, if_false, Bool.false_eq_true]
    refine ih h (by simpa using hf) fun z hz => hpre z ?_
    cases pre with
    | nil => simp at hz
    | cons w pre => simpa using Or.inr hz

/-- What `walk` answers on a list of nodes that can be tested. -/
theorem walk_cases {test : Ptr → Res Bool} {ok : Ptr → Bool} (h : IsList next p xs)
    (hf : xs.length < fuel) (hok : ∀ y ∈ xs, test y = .ok (ok y)) :
    (∃ y ∈ xs, ok y = true ∧ walk next test fuel p = .ok y) ∨
      (∀ y ∈ xs, ok y = false) ∧ walk next test fuel p = .ok 0 := by
  by_cases hany : ∃ y ∈ xs, ok y = true
  · obtain ⟨y, hy, hoky⟩ := hany
    have hmem : true ∈ xs.map ok := List.mem_map.2 ⟨y, hy, hoky⟩
    obtain ⟨as, bs, hsplit, has⟩ := List.eq_append_cons_of_mem hmem
    obtain ⟨pre, l, rfl, rfl, hl⟩ := List.map_eq_append_iff.1 hsplit
    obtain ⟨x, suf, rfl, hx, -⟩ := List.map_eq_cons_iff.1 hl
    refine .inl ⟨x, by simp, hx, walk_found h (by simp at hf; omega) (fun z hz => ?_) ?_⟩
    · rw [hok z (by simp [hz])]
      congr
      by_contra hc
      exact has (List.mem_map.2 ⟨z, hz, by simpa using hc⟩)
    · rw [hok x (by simp), hx]
  · have hnone : ∀ y ∈ xs, ok y = false := fun y hy => by
      by_contra hc
      exact hany ⟨y, hy, by simpa using hc⟩
    exact .inr ⟨hnone, walk_none h hf fun y hy => by rw [hok y hy, hnone y hy]⟩

/-- Where `advanceTo` stands in a list of nodes that can be tested. -/
theorem advanceTo_cases {stop' : Ptr → Res Bool} {x : Ptr} (h : IsList next p (x :: xs))
    (hf : xs.length < fuel) (hok : ∀ y ∈ xs, stop' y = .ok (stop y)) :
    ∃ pre a suf, x :: xs = pre ++ a :: suf ∧ advanceTo next stop' fuel p = .ok a ∧
      (∀ y ∈ (pre ++ [a]).tail, stop y = false) ∧ ∀ y ∈ suf.head?, stop y = true := by
  induction xs generalizing p x fuel with
  | nil =>
    obtain ⟨rfl, h0, hn⟩ := isList_cons.1 h
    obtain ⟨fuel, rfl⟩ : ∃ f, fuel = f + 1 := ⟨fuel - 1, by simp at hf; omega⟩
    refine ⟨[], p, [], rfl, ?_, by simp, by simp⟩
    rw [advanceTo, if_pos (isList_nil.1 hn)]
  | cons y xs ih =>
    obtain ⟨rfl, h0, h⟩ := isList_cons.1 h
    obtain ⟨fuel, rfl⟩ : ∃ f, fuel = f + 1 := ⟨fuel - 1, by simp at hf; omega⟩
    have hy : next p = y := h.1
    have hn : next p ≠ 0 := hy ▸ (isList_cons.1 h).2.1
    by_cases hstop : stop y = true
    · refine ⟨[], p, y :: xs, rfl, ?_, by simp, by simpa using hstop⟩
      rw [advanceTo, if_neg hn, hy, hok y List.mem_cons_self, hstop]
      rfl
    · have hgo : stop y = false := by simpa using hstop
      obtain ⟨pre, a, suf, hsplit, hadv, hpre, hsuf⟩ :=
        ih h (show xs.length < fuel by simp at hf; omega) fun z hz => hok z (List.mem_cons_of_mem _ hz)
      refine ⟨p :: pre, a, suf, by rw [hsplit]; rfl, ?_, fun z hz => ?_, hsuf⟩
      · rw [advanceTo, if_neg hn, hy, hok y List.mem_cons_self, hgo, ← hy]
        exact hadv
      · rw [List.cons_append, List.tail_cons] at hz
        cases pre with
        | nil =>
          obtain rfl : z = a := by simpa using hz
          obtain rfl : y = z := by simpa using congrArg List.head? hsplit
          exact hgo
        | cons w pre =>
          obtain rfl : y = w := by simpa using congrArg List.head? hsplit
          rcases List.mem_cons.1 hz with rfl | hz
          · exact hgo
          · exact hpre z hz

theorem seek_found {x pp : Ptr} (h : IsList next p (xs ++ x :: ys)) (hf : xs.length < fuel)
    (hxs : ∀ y ∈ xs, test y = false) (hx : test x = true) :
    seek next test fuel pp p = .ok (xs.getLastD pp, x) := by
  induction xs generalizing p pp fuel with
  | nil =>
    obtain ⟨rfl, h0, -⟩ := h
    obtain ⟨fuel, rfl⟩ : ∃ f, fuel = f + 1 := ⟨fuel - 1, by simp at hf; omega⟩
    simp [seek, h0, hx]
  | cons y xs ih =>
    obtain ⟨rfl, h0, h⟩ := isList_cons.1 h
    obtain ⟨fuel, rfl⟩ : ∃ f, fuel = f + 1 := ⟨fuel - 1, by simp at hf; omega⟩
    have hy : test p = false := hxs p (by simp)
    simp only [seek, h0, hy, if_false, Bool.false_eq_true]
    rw [ih h (by simpa using hf) fun z hz => hxs z (by simp [hz]), List.getLastD_cons]

theorem seek_none (pp : Ptr) (h : IsList next p xs) (hf : xs.length < fuel)
    (hxs : ∀ y ∈ xs, test y = false) : ∃ pp', seek next test fuel pp p = .ok (pp', 0) := by
  induction xs generalizing p pp fuel with
  | nil =>
    rw [isList_nil] at h
    obtain ⟨fuel, rfl⟩ : ∃ f, fuel = f + 1 := ⟨fuel - 1, by simp at hf; omega⟩
    exact ⟨pp, by simp [seek, h]⟩
  | cons y xs ih =>
    obtain ⟨rfl, h0, h⟩ := isList_cons.1 h
    obtain ⟨fuel, rfl⟩ : ∃ f, fuel = f + 1 := ⟨fuel - 1, by simp at hf; omega⟩
    have hy : test p = false := hxs p (by simp)
    simp only [seek, h0, hy, if_false, Bool.false_eq_true]
    exact ih p h (by simpa using hf) fun z hz => hxs z (by simp [hz])

end LinkedList
