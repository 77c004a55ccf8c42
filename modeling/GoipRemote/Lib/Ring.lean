import Mathlib.Data.List.Chain
import Mathlib.Data.List.Nodup
import Mathlib.Logic.Function.Basic
import Mathlib.Tactic

/-!
# Circular doubly linked lists

`Links κ` are the links of the nodes that there are. `Path m l`: neighbours in `l` are linked to each other,
both ways. `IsRing m h xs`: from the head `h` the links go once around `xs`. A node that is in no list is
`Alone`, linked to itself.

`IsRing.link` puts a node between two neighbours, `IsRing.join` takes one out. `Holds m h xs live` is a
list whose nodes are among the live ones, with all others alone: what a program keeps of an intrusive list.
-/

open Function

/-- The links of each node; nothing for a node that is not there. -/
structure Links (κ : Type) where
  next : κ → Option κ
  prev : κ → Option κ

namespace Links

variable {κ : Type}

/-- A node with both its links. -/
def Has (m : Links κ) (a : κ) : Prop := m.next a ≠ none ∧ m.prev a ≠ none

def Edge (m : Links κ) (a b : κ) : Prop := m.next a = some b ∧ m.prev b = some a

/-- Neighbours in the list are neighbours in memory. -/
def Path (m : Links κ) (l : List κ) : Prop := l.IsChain m.Edge

def Alone (m : Links κ) (x : κ) : Prop := m.next x = some x ∧ m.prev x = some x

structure IsRing (m : Links κ) (h : κ) (xs : List κ) : Prop where
  nodup : (h :: xs).Nodup
  path : m.Path (h :: xs ++ [h])

section
variable {m m' : Links κ} {l front back xs ys : List κ} {h p q x : κ}

theorem Alone.has (hx : m.Alone x) : m.Has x := by
  simp [Has, hx.1, hx.2]

/-- A path is in the links out of all its nodes but the last, and back into all but the first. -/
theorem Path.congr (hl : m.Path l) (hnext : ∀ a ∈ l.dropLast, m'.next a = m.next a)
    (hprev : ∀ b ∈ l.tail, m'.prev b = m.prev b) : m'.Path l := by
  induction l with
  | nil => exact List.IsChain.nil
  | cons a l ih =>
    cases l with
    | nil => exact List.IsChain.singleton a
    | cons b l =>
      obtain ⟨hab, hl⟩ := List.isChain_cons_cons.1 hl
      refine List.isChain_cons_cons.2 ⟨⟨?_, ?_⟩, ih hl ?_ ?_⟩
      · rw [hnext a (by simp), hab.1]
      · rw [hprev b (by simp), hab.2]
      · intro c hc
        exact hnext c (by rw [List.dropLast_cons_cons]; exact List.mem_cons_of_mem a hc)
      · intro c hc
        exact hprev c (List.mem_of_mem_tail hc)

theorem path_iff : m.Path (front ++ q :: p :: back) ↔
    m.Path (front ++ [q]) ∧ m.Edge q p ∧ m.Path (p :: back) := List.isChain_append_cons_cons

/-- The nodes between which a path is cut: each other one is on one side only. -/
theorem ends_of_nodup (hs : (front ++ q :: p :: back).dropLast.Nodup)
    (ht : (front ++ q :: p :: back).tail.Nodup) :
    (q ∉ front ∧ q ∉ (p :: back).dropLast) ∧ (p ∉ (front ++ [q]).tail ∧ p ∉ back) := by
  have hs' : (front ++ q :: p :: back).dropLast = front ++ q :: (p :: back).dropLast := by simp
  rw [hs', List.nodup_middle] at hs
  have hq := (List.nodup_cons.1 hs).1
  rw [List.mem_append] at hq
  have ht' : (front ++ q :: p :: back).tail = (front ++ [q]).tail ++ p :: back := by
    cases front <;> simp
  rw [ht', List.nodup_middle] at ht
  have hp := (List.nodup_cons.1 ht).1
  rw [List.mem_append] at hp
  exact ⟨⟨fun h => hq (.inl h), fun h => hq (.inr h)⟩, fun h => hp (.inl h), fun h => hp (.inr h)⟩

theorem split_ring (hfront : h :: xs = front ++ [q]) (hback : ys ++ [h] = p :: back) :
    h :: (xs ++ ys) ++ [h] = front ++ q :: p :: back := by
  rw [List.cons_append, List.append_assoc, ← List.cons_append, hfront, hback]
  simp

theorem nodup_sources (hn : (h :: xs).Nodup) : (h :: xs ++ [h]).dropLast.Nodup := by
  rwa [List.dropLast_concat]

theorem nodup_targets (hn : (h :: xs).Nodup) : (h :: xs ++ [h]).tail.Nodup := by
  rw [List.cons_append, List.tail_cons]
  exact (List.perm_append_singleton h xs).nodup_iff.2 hn

/-- The nodes on the two sides of a place in a ring. -/
theorem IsRing.sides (hr : m.IsRing h (xs ++ ys)) : ∃ front q p back, h :: xs = front ++ [q] ∧
    ys ++ [h] = p :: back ∧ m.prev p = some q ∧ m.next q = some p := by
  obtain ⟨front, q, hfront⟩ : ∃ front q, h :: xs = front ++ [q] :=
    ⟨_, _, (List.dropLast_append_getLast (List.cons_ne_nil h xs)).symm⟩
  obtain ⟨p, back, hback⟩ : ∃ p back, ys ++ [h] = p :: back := by
    cases ys with
    | nil => exact ⟨h, [], rfl⟩
    | cons y ys => exact ⟨y, ys ++ [h], rfl⟩
  have hpath := hr.path
  rw [split_ring hfront hback] at hpath
  obtain ⟨hnext, hprev⟩ := (path_iff.1 hpath).2.1
  exact ⟨front, q, p, back, hfront, hback, hprev, hnext⟩

theorem headD_eq (hback : ys ++ [h] = p :: back) : ys.headD h = p := by
  cases ys with
  | nil => exact (List.cons.inj hback).1
  | cons y ys => exact (List.cons.inj hback).1

/-- The first node, or the head. -/
theorem IsRing.next_head (hr : m.IsRing h xs) : m.next h = some (xs.headD h) := by
  obtain ⟨front, q, p, back, hfront, hback, -, hnext⟩ := @IsRing.sides _ m [] xs h hr
  cases front with
  | nil =>
    obtain rfl : h = q := by simpa using hfront
    rw [hnext, headD_eq hback]
  | cons a front => simp at hfront

/-- The node behind another. -/
theorem IsRing.next_eq {y : κ} (hr : m.IsRing h (xs ++ y :: ys)) : m.next y = some (ys.headD h) := by
  obtain ⟨front, q, p, back, hfront, hback, -, hnext⟩ :=
    @IsRing.sides _ m (xs ++ [y]) ys h (by simpa using hr)
  obtain rfl : y = q := by
    rw [← List.cons_append] at hfront
    simpa using (List.append_inj' hfront rfl).2
  rw [hnext, headD_eq hback]

theorem IsRing.ne_head {y : κ} (hr : m.IsRing h xs) (hy : y ∈ xs) : y ≠ h :=
  ne_of_mem_of_not_mem hy (List.nodup_cons.1 hr.nodup).1

/-- From the same node on, two readings of the links are the same. -/
theorem IsRing.unique_from {front' : List κ} (hr : m.IsRing h (front ++ xs)) (hr' : m.IsRing h (front' ++ ys))
    (hhead : xs.headD h = ys.headD h) : xs = ys := by
  induction xs generalizing front front' ys with
  | nil =>
    cases ys with
    | nil => rfl
    | cons y ys => exact (hr'.ne_head (List.mem_append_right front' List.mem_cons_self) hhead.symm).elim
  | cons x xs ih =>
    cases ys with
    | nil => exact (hr.ne_head (List.mem_append_right front List.mem_cons_self) hhead).elim
    | cons y ys =>
      obtain rfl : x = y := hhead
      have hnext := hr.next_eq.symm.trans hr'.next_eq
      have hrest : m.IsRing h ((front ++ [x]) ++ xs) := by simpa using hr
      have hrest' : m.IsRing h ((front' ++ [x]) ++ ys) := by simpa using hr'
      rw [ih hrest hrest' (Option.some_inj.1 hnext)]

/-- The links say what the ring is. -/
theorem IsRing.unique (hr : m.IsRing h xs) (hr' : m.IsRing h ys) : xs = ys := by
  have hxs : m.IsRing h ([] ++ xs) := hr
  have hys : m.IsRing h ([] ++ ys) := hr'
  exact hxs.unique_from hys (Option.some_inj.1 (hr.next_head.symm.trans hr'.next_head))

/-- A ring is in the links of its nodes. -/
theorem IsRing.congr (hr : m.IsRing h xs) (hnext : ∀ a ∈ h :: xs, m'.next a = m.next a)
    (hprev : ∀ a ∈ h :: xs, m'.prev a = m.prev a) : m'.IsRing h xs := by
  refine ⟨hr.nodup, hr.path.congr ?_ ?_⟩
  · intro a ha
    rw [List.dropLast_concat] at ha
    exact hnext a ha
  · intro a ha
    rw [List.cons_append, List.tail_cons] at ha
    exact hprev a (by simpa [or_comm] using ha)

end

/-! ## Linking -/

variable [DecidableEq κ]

instance (m : Links κ) (a : κ) : Decidable (m.Has a) := inferInstanceAs (Decidable (_ ∧ _))

/-- `q` and `p` as neighbours. -/
def join (m : Links κ) (q p : κ) : Links κ := ⟨update m.next q (some p), update m.prev p (some q)⟩

/-- `x` between `q` and `p`. -/
def link (m : Links κ) (x q p : κ) : Links κ :=
  ⟨update (update m.next x (some p)) q (some x), update (update m.prev p (some x)) x (some q)⟩

/-- `x` linked to itself. -/
def single (m : Links κ) (x : κ) : Links κ := ⟨update m.next x (some x), update m.prev x (some x)⟩

/-- `x` is no node any more. -/
def remove (m : Links κ) (x : κ) : Links κ := ⟨update m.next x none, update m.prev x none⟩

section
variable {m : Links κ} {front back xs ys : List κ} {h p q x : κ}

theorem Path.link (hl : m.Path (front ++ q :: p :: back)) (hs : (front ++ q :: p :: back).dropLast.Nodup)
    (ht : (front ++ q :: p :: back).tail.Nodup) (hx : x ∉ front ++ q :: p :: back) :
    (m.link x q p).Path (front ++ q :: x :: p :: back) := by
  obtain ⟨hfront, -, hback⟩ := path_iff.1 hl
  obtain ⟨⟨hq, hq'⟩, hp, hp'⟩ := ends_of_nodup hs ht
  simp only [List.mem_append, List.mem_cons, not_or] at hx
  obtain ⟨hx, hxq, hxp, hx'⟩ := hx
  refine path_iff.2 ⟨hfront.congr ?_ ?_, ⟨by simp [Links.link], by simp [Links.link]⟩, ?_⟩
  · intro a ha
    rw [List.dropLast_concat] at ha
    simp [Links.link, update_of_ne (ne_of_mem_of_not_mem ha hq), update_of_ne (ne_of_mem_of_not_mem ha hx)]
  · intro b hb
    have hbx : b ≠ x := by
      intro hbx
      have := List.mem_of_mem_tail hb
      simp only [List.mem_append, List.mem_singleton] at this
      subst hbx
      exact this.elim hx hxq
    simp [Links.link, update_of_ne hbx, update_of_ne (ne_of_mem_of_not_mem hb hp)]
  · refine List.isChain_cons_cons.2 ⟨⟨by simp [Links.link, hxq], by simp [Links.link, Ne.symm hxp]⟩,
      hback.congr ?_ ?_⟩
    · intro a ha
      have hax : a ≠ x := by
        intro hax
        have := List.mem_of_mem_dropLast ha
        rw [hax] at this
        exact (List.mem_cons.1 this).elim hxp hx'
      simp [Links.link, update_of_ne (ne_of_mem_of_not_mem ha hq'), update_of_ne hax]
    · intro b hb
      simp [Links.link, update_of_ne (ne_of_mem_of_not_mem hb hx'),
        update_of_ne (ne_of_mem_of_not_mem hb hp')]

theorem Path.join (hl : m.Path (front ++ q :: x :: p :: back))
    (hs : (front ++ q :: p :: back).dropLast.Nodup) (ht : (front ++ q :: p :: back).tail.Nodup) :
    (m.join q p).Path (front ++ q :: p :: back) := by
  obtain ⟨hfront, -, hback⟩ := path_iff.1 hl
  obtain ⟨⟨hq, hq'⟩, hp, hp'⟩ := ends_of_nodup hs ht
  have hback : m.Path (p :: back) := (List.isChain_cons_cons.1 hback).2
  refine path_iff.2 ⟨hfront.congr ?_ ?_, ⟨by simp [Links.join], by simp [Links.join]⟩, hback.congr ?_ ?_⟩
  · intro a ha
    rw [List.dropLast_concat] at ha
    simp [Links.join, update_of_ne (ne_of_mem_of_not_mem ha hq)]
  · intro b hb
    simp [Links.join, update_of_ne (ne_of_mem_of_not_mem hb hp)]
  · intro a ha
    simp [Links.join, update_of_ne (ne_of_mem_of_not_mem ha hq')]
  · intro b hb
    simp [Links.join, update_of_ne (ne_of_mem_of_not_mem hb hp')]

/-- A node goes in between `xs` and `ys`. -/
theorem IsRing.link (hr : m.IsRing h (xs ++ ys)) (hx : x ∉ h :: (xs ++ ys)) :
    ∃ q, m.prev (ys.headD h) = some q ∧ q ∈ h :: xs ∧ (m.link x q (ys.headD h)).IsRing h (xs ++ x :: ys) := by
  obtain ⟨front, q, p', back, hfront, hback, hprev, -⟩ := hr.sides
  rw [headD_eq hback]
  refine ⟨q, hprev, by rw [hfront]; simp, ?_, ?_⟩
  · have hperm : (h :: (xs ++ x :: ys)).Perm (x :: h :: (xs ++ ys)) :=
      (List.perm_middle.cons h).trans (List.Perm.swap x h (xs ++ ys))
    exact hperm.nodup_iff.2 (List.nodup_cons.2 ⟨hx, hr.nodup⟩)
  · have hlist : h :: (xs ++ x :: ys) ++ [h] = front ++ q :: x :: p' :: back :=
      split_ring hfront (by rw [List.cons_append, hback])
    have hpath := hr.path
    have hsources := nodup_sources hr.nodup
    have htargets := nodup_targets hr.nodup
    rw [split_ring hfront hback] at hpath hsources htargets
    rw [hlist]
    apply hpath.link hsources htargets
    rw [← split_ring hfront hback]
    intro hmem
    rcases List.mem_append.1 hmem with hmem | hmem
    · exact hx hmem
    · exact hx (List.mem_cons.2 (.inl (List.mem_singleton.1 hmem)))

/-- A node goes out. -/
theorem IsRing.join (hr : m.IsRing h (xs ++ x :: ys)) : ∃ q p, m.prev x = some q ∧ m.next x = some p ∧
    q ∈ h :: xs ∧ p ∈ ys ++ [h] ∧ (m.join q p).IsRing h (xs ++ ys) := by
  obtain ⟨front, q, x', back, hfront, hback, hprev, -⟩ := hr.sides
  obtain ⟨rfl, hrest⟩ : x = x' ∧ ys ++ [h] = back := by simpa using hback
  obtain ⟨p, back, rfl⟩ : ∃ p back', back = p :: back' := by
    cases back with
    | nil => simp at hrest
    | cons p back => exact ⟨p, back, rfl⟩
  have hlist : h :: (xs ++ x :: ys) ++ [h] = front ++ q :: x :: p :: back :=
    split_ring hfront (by rw [List.cons_append, hrest])
  have hn : (h :: (xs ++ ys)).Nodup := by
    have hsub : (h :: (xs ++ ys)).Sublist (h :: (xs ++ x :: ys)) :=
      ((List.sublist_cons_self x ys).append_left xs).cons_cons h
    exact hsub.nodup hr.nodup
  have hpath := hr.path
  rw [hlist] at hpath
  refine ⟨q, p, hprev, (List.isChain_cons_cons.1 (path_iff.1 hpath).2.2).1.1, by rw [hfront]; simp,
    by rw [hrest]; simp, hn, ?_⟩
  have hsources := nodup_sources hn
  have htargets := nodup_targets hn
  rw [split_ring hfront hrest] at hsources htargets ⊢
  exact hpath.join hsources htargets

end

/-! ## A list and the nodes that are in none -/

/-- The list at `h` is `xs`, of live nodes; each other live node is alone. -/
structure Holds (m : Links κ) (h : κ) (xs : List κ) (live : κ → Prop) : Prop where
  ring : m.IsRing h xs
  mem : ∀ x ∈ xs, live x
  alone : ∀ x, live x → x ∉ xs → m.Alone x
  head : ¬live h

section
variable {m : Links κ} {xs ys : List κ} {live : κ → Prop} {h p x : κ}

theorem IsRing.has (hr : m.IsRing h xs) : ∀ a ∈ h :: xs, m.Has a := by
  intro a ha
  rcases List.mem_cons.1 ha with rfl | ha
  · obtain ⟨front, q, p, back, -, hp, hprev, -⟩ := @IsRing.sides _ m xs [] a (by simpa using hr)
    obtain ⟨front', q', p', back', hq, -, -, hnext⟩ := @IsRing.sides _ m [] xs a hr
    obtain ⟨rfl, -⟩ : a = p ∧ back = [] := by simpa [eq_comm] using hp
    have hq' : q' = a := by
      cases front' with
      | nil => simpa [eq_comm] using hq
      | cons b front' => simp at hq
    subst hq'
    simp [Has, hprev, hnext]
  · obtain ⟨front, back, rfl⟩ := List.append_of_mem ha
    obtain ⟨q, p, hprev, hnext, -⟩ := hr.join
    simp [Has, hprev, hnext]

theorem Holds.has (hm : m.Holds h xs live) (hx : live x) : m.Has x := by
  by_cases hmem : x ∈ xs
  · exact hm.ring.has x (List.mem_cons_of_mem h hmem)
  · exact (hm.alone x hx hmem).has

/-- A node that is alone goes in between `xs` and `ys`. -/
theorem Holds.link (hm : m.Holds h (xs ++ ys) live) (hx : live x) (hmem : x ∉ xs ++ ys) :
    ∃ q, m.prev (ys.headD h) = some q ∧ m.Has q ∧ m.Has (ys.headD h) ∧
      (m.link x q (ys.headD h)).Holds h (xs ++ x :: ys) live := by
  have hxh : x ≠ h := fun heq => hm.head (heq ▸ hx)
  have hx' : x ∉ h :: (xs ++ ys) := by
    simp only [List.mem_cons, not_or]
    exact ⟨hxh, hmem⟩
  obtain ⟨q, hprev, hq, hring⟩ := hm.ring.link hx'
  have hpmem : ys.headD h ∈ h :: (xs ++ ys) := by
    cases ys with
    | nil => simp
    | cons y ys => simp
  have hqmem : q ∈ h :: (xs ++ ys) := by
    rw [List.mem_cons, List.mem_append]
    rcases List.mem_cons.1 hq with hq | hq
    · exact .inl hq
    · exact .inr (.inl hq)
  refine ⟨q, hprev, hm.ring.has q hqmem, hm.ring.has _ hpmem, hring, ?_, ?_, hm.head⟩
  · intro a ha
    rcases List.mem_append.1 ha with ha | ha
    · exact hm.mem a (List.mem_append_left ys ha)
    · rcases List.mem_cons.1 ha with rfl | ha
      · exact hx
      · exact hm.mem a (List.mem_append_right xs ha)
  · intro a ha hout
    simp only [List.mem_append, List.mem_cons, not_or] at hout
    obtain ⟨hax, hax', hay⟩ := hout
    have halone := hm.alone a ha (by simp [hax, hay])
    have hah : a ≠ h := fun heq => hm.head (heq ▸ ha)
    have hne : ∀ c ∈ h :: (xs ++ ys), a ≠ c := by
      intro c hc heq
      subst heq
      simp [hah, hax, hay] at hc
    simp only [Alone, Links.link, update_of_ne hax', update_of_ne (hne q hqmem), update_of_ne (hne _ hpmem)]
    exact halone

theorem filter_middle {front back : List κ} (hn : (front ++ x :: back).Nodup) :
    (front ++ x :: back).filter (· ≠ x) = front ++ back := by
  rw [List.nodup_middle] at hn
  have hnot := (List.nodup_cons.1 hn).1
  rw [List.filter_append, List.filter_cons_of_neg (by simp), ← List.filter_append, List.filter_eq_self]
  intro a ha
  simpa using ne_of_mem_of_not_mem ha hnot

/-- The neighbours of a node that goes out: whatever becomes of its own links, the rest is the list
without it. -/
theorem Holds.unlink (hm : m.Holds h xs live) (hx : live x) : ∃ q p, m.prev x = some q ∧ m.next x = some p ∧
    m.Has q ∧ m.Has p ∧ ∀ m' : Links κ, (∀ a, a ≠ x → m'.next a = (m.join q p).next a) →
      (∀ a, a ≠ x → m'.prev a = (m.join q p).prev a) →
        m'.IsRing h (xs.filter (· ≠ x)) ∧ ∀ a, live a → a ≠ x → a ∉ xs → m'.Alone a := by
  have hxh : x ≠ h := fun heq => hm.head (heq ▸ hx)
  by_cases hmem : x ∈ xs
  · obtain ⟨front, back, rfl⟩ := List.append_of_mem hmem
    have hn := (List.nodup_cons.1 hm.ring.nodup).2
    obtain ⟨q, p, hprev, hnext, hq, hp, hring⟩ := hm.ring.join
    have hout : x ∉ h :: (front ++ back) := by
      rw [List.nodup_middle] at hn
      simpa [hxh] using (List.nodup_cons.1 hn).1
    have hqmem : q ∈ h :: (front ++ x :: back) := List.mem_cons.2 ((List.mem_cons.1 hq).imp_right
      (List.mem_append_left (x :: back)))
    have hpmem : p ∈ h :: (front ++ x :: back) := by
      rcases List.mem_append.1 hp with hp | hp
      · exact List.mem_cons_of_mem h (List.mem_append_right front (List.mem_cons_of_mem x hp))
      · rw [List.mem_singleton.1 hp]
        exact List.mem_cons_self
    refine ⟨q, p, hprev, hnext, hm.ring.has q hqmem, hm.ring.has p hpmem, fun m' hmnext hmprev => ⟨?_, ?_⟩⟩
    · rw [filter_middle hn]
      exact hring.congr (fun a ha => hmnext a (ne_of_mem_of_not_mem ha hout))
        fun a ha => hmprev a (ne_of_mem_of_not_mem ha hout)
    · intro a ha hax hnot
      have halone := hm.alone a ha hnot
      have hout : a ∉ h :: (front ++ x :: back) := by
        rw [List.mem_cons, not_or]
        exact ⟨fun heq => hm.head (heq ▸ ha), hnot⟩
      have haq : a ≠ q := (ne_of_mem_of_not_mem hqmem hout).symm
      have hap : a ≠ p := (ne_of_mem_of_not_mem hpmem hout).symm
      rw [Alone, hmnext a hax, hmprev a hax]
      simpa [Links.join, Alone, haq, hap] using halone
  · have halone := hm.alone x hx hmem
    refine ⟨x, x, halone.2, halone.1, halone.has, halone.has, fun m' hmnext hmprev => ⟨?_, ?_⟩⟩
    · have hout : x ∉ h :: xs := by simp [hxh, hmem]
      have hself : xs.filter (· ≠ x) = xs := by
        rw [List.filter_eq_self]
        intro a ha
        simpa using ne_of_mem_of_not_mem ha hmem
      rw [hself]
      refine hm.ring.congr (fun a ha => ?_) fun a ha => ?_
      · rw [hmnext a (ne_of_mem_of_not_mem ha hout)]
        simp [Links.join, ne_of_mem_of_not_mem ha hout]
      · rw [hmprev a (ne_of_mem_of_not_mem ha hout)]
        simp [Links.join, ne_of_mem_of_not_mem ha hout]
    · intro a ha hax hnot
      rw [Alone, hmnext a hax, hmprev a hax]
      simpa [Links.join, Alone, hax] using hm.alone a ha hnot

/-- A node goes out and is alone then. -/
theorem Holds.unlink_single (hm : m.Holds h xs live) (hx : live x) : ∃ q p, m.prev x = some q ∧
    m.next x = some p ∧ m.Has q ∧ m.Has p ∧ ((m.join q p).single x).Holds h (xs.filter (· ≠ x)) live := by
  obtain ⟨q, p, hprev, hnext, hq, hp, hrest⟩ := hm.unlink hx
  obtain ⟨hring, halone⟩ := hrest ((m.join q p).single x) (fun a ha => by simp [single, ha])
    fun a ha => by simp [single, ha]
  refine ⟨q, p, hprev, hnext, hq, hp, hring, fun a ha => hm.mem a (List.mem_of_mem_filter ha), ?_, hm.head⟩
  intro a ha hout
  by_cases hax : a = x
  · subst hax
    simp [Alone, single]
  · exact halone a ha hax fun hmem => hout (List.mem_filter.2 ⟨hmem, by simpa using hax⟩)

/-- A node goes out and is freed. -/
theorem Holds.unlink_remove (hm : m.Holds h xs live) (hx : live x) : ∃ q p, m.prev x = some q ∧
    m.next x = some p ∧ m.Has q ∧ m.Has p ∧
      ((m.join q p).remove x).Holds h (xs.filter (· ≠ x)) fun a => live a ∧ a ≠ x := by
  obtain ⟨q, p, hprev, hnext, hq, hp, hrest⟩ := hm.unlink hx
  obtain ⟨hring, halone⟩ := hrest ((m.join q p).remove x) (fun a ha => by simp [remove, ha])
    fun a ha => by simp [remove, ha]
  refine ⟨q, p, hprev, hnext, hq, hp, hring, fun a ha => ⟨hm.mem a (List.mem_of_mem_filter ha), ?_⟩, ?_,
    fun hh => hm.head hh.1⟩
  · simpa using (List.mem_filter.1 ha).2
  · intro a ha hout
    exact halone a ha.1 ha.2 fun hmem => hout (List.mem_filter.2 ⟨hmem, by simpa using ha.2⟩)

/-- A node that is in no list is freed. -/
theorem Holds.remove (hm : m.Holds h xs live) (hx : live x) (hmem : x ∉ xs) :
    (m.remove x).Holds h xs fun a => live a ∧ a ≠ x := by
  have hxh : x ≠ h := fun heq => hm.head (heq ▸ hx)
  have hne : ∀ a ∈ h :: xs, a ≠ x := by
    intro a ha heq
    subst heq
    simp [hxh, hmem] at ha
  refine ⟨hm.ring.congr (fun a ha => ?_) fun a ha => ?_, fun a ha =>
    ⟨hm.mem a ha, hne a (List.mem_cons_of_mem h ha)⟩,
    fun a ha hout => ?_, fun hh => hm.head hh.1⟩
  · simp [Links.remove, hne a ha]
  · simp [Links.remove, hne a ha]
  · simpa [Links.remove, Alone, ha.2] using hm.alone a ha.1 hout

/-- A new node is alone. -/
theorem Holds.add (hm : m.Holds h xs live) (hx : ¬live x) (hxh : x ≠ h) :
    (m.single x).Holds h xs fun a => a = x ∨ live a := by
  have hne : ∀ a, live a → a ≠ x := fun a ha heq => hx (heq ▸ ha)
  refine ⟨hm.ring.congr (fun a ha => ?_) fun a ha => ?_, fun a ha => .inr (hm.mem a ha), ?_, ?_⟩
  · have hax : a ≠ x := (List.mem_cons.1 ha).elim (fun heq => heq ▸ hxh.symm) fun hmem =>
      hne a (hm.mem a hmem)
    simp [single, hax]
  · have hax : a ≠ x := (List.mem_cons.1 ha).elim (fun heq => heq ▸ hxh.symm) fun hmem =>
      hne a (hm.mem a hmem)
    simp [single, hax]
  · intro a ha hout
    by_cases hax : a = x
    · subst hax
      simp [Alone, single]
    · simpa [Alone, single, hax] using hm.alone a (ha.resolve_left hax) hout
  · intro hh
    exact hh.elim (fun heq => hxh heq.symm) hm.head

end

end Links
