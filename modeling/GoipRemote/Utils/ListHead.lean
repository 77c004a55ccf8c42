import GoipRemote.Lib.Res
import GoipRemote.Lib.Ring

/-!
# Lists (utils/list.h)

The operations on `struct list_head`, over the links of the nodes that there are (`Links`): a link of a node
that is not there is a fault. Each has what it does to a well-formed list (`Links.Holds`), and `listSeek` is a
`list_for_each` that leaves at the first node that passes a test.
-/

open Function

namespace Utils

variable {κ : Type} [DecidableEq κ]

/-! ## The operations -/

/-- `a->next = b`. -/
def setNext (m : Links κ) (a b : κ) : Res (Links κ) :=
  if m.Has a then .ok ⟨update m.next a (some b), m.prev⟩ else .fault

/-- `a->prev = b`. -/
def setPrev (m : Links κ) (a b : κ) : Res (Links κ) :=
  if m.Has a then .ok ⟨m.next, update m.prev a (some b)⟩ else .fault

/-- `INIT_LIST_HEAD`. -/
def initListHead (m : Links κ) (ptr : κ) : Links κ := m.single ptr

/-- `__list_insert`. -/
def listInsert (m : Links κ) (newNode prevNode nextNode : κ) : Res (Links κ) := do
  let m ← setPrev m nextNode newNode
  let m ← setNext m newNode nextNode
  let m ← setPrev m newNode prevNode
  setNext m prevNode newNode

/-- `__list_add_tail`. -/
def listAddTail (m : Links κ) (new head : κ) : Res (Links κ) := do
  let prev ← Res.deref m.prev head
  listInsert m new prev head

/-- `__list_jion`. -/
def listJion (m : Links κ) (prev next : κ) : Res (Links κ) := do
  let m ← setPrev m next prev
  setNext m prev next

/-- `__list_del`. The entry's links are null then, and lead nowhere. -/
def listDel (m : Links κ) (entry : κ) : Res (Links κ) := do
  let prev ← Res.deref m.prev entry
  let next ← Res.deref m.next entry
  let m ← listJion m prev next
  return m.remove entry

/-- `__list_del_init`. -/
def listDelInit (m : Links κ) (entry : κ) : Res (Links κ) := do
  let prev ← Res.deref m.prev entry
  let next ← Res.deref m.next entry
  let m ← listJion m prev next
  return initListHead m entry

/-- `__list_empty`. -/
def listEmpty (m : Links κ) (head : κ) : Res Bool := do
  let next ← Res.deref m.next head
  return decide (next = head)

/-- `list_for_each` from `p` on, left with `break` where `test` says so. -/
def listSeek (m : Links κ) (head : κ) (test : κ → Res Bool) : Nat → κ → Res κ
  | 0, _ => .fault
  | fuel + 1, p =>
    if p = head then .ok p
    else do
      let found ← test p
      if found then return p
      else do
        let next ← Res.deref m.next p
        listSeek m head test fuel next

/-! ## What they do -/

section
variable {m : Links κ} {h p q x : κ} {xs ys : List κ} {live : κ → Prop}

theorem has_update_next {a b c : κ} (ha : m.Has a) :
    (⟨update m.next b (some c), m.prev⟩ : Links κ).Has a := by
  by_cases hab : a = b
  · subst hab
    simpa [Links.Has] using ha.2
  · simpa [Links.Has, hab] using ha

theorem has_update_prev {a b c : κ} (ha : m.Has a) :
    (⟨m.next, update m.prev b (some c)⟩ : Links κ).Has a := by
  by_cases hab : a = b
  · subst hab
    simpa [Links.Has] using ha.1
  · simpa [Links.Has, hab] using ha

theorem listInsert_ok (hx : m.Has x) (hq : m.Has q) (hp : m.Has p) :
    listInsert m x q p = .ok (m.link x q p) := by
  have hx1 := has_update_prev (b := p) (c := x) hx
  have hx2 := has_update_next (b := x) (c := p) hx1
  have hq1 := has_update_next (b := x) (c := p) (has_update_prev (b := p) (c := x) hq)
  have hq2 := has_update_prev (b := x) (c := q) hq1
  rw [listInsert, setPrev, if_pos hp, Res.ok_bind, setNext, if_pos hx1, Res.ok_bind, setPrev, if_pos hx2,
    Res.ok_bind,
    setNext, if_pos hq2]
  rfl

theorem listJion_ok (hq : m.Has q) (hp : m.Has p) : listJion m q p = .ok (m.join q p) := by
  have hq1 := has_update_prev (b := p) (c := q) hq
  rw [listJion, setPrev, if_pos hp, Res.ok_bind, setNext, if_pos hq1]
  rfl

/-- A node that is alone goes in between `xs` and `ys`. -/
theorem listAddTail_ok (hm : m.Holds h (xs ++ ys) live) (hx : live x) (hmem : x ∉ xs ++ ys) :
    ∃ m', listAddTail m x (ys.headD h) = .ok m' ∧ m'.Holds h (xs ++ x :: ys) live := by
  obtain ⟨q, hprev, hq, hp, hlink⟩ := hm.link hx hmem
  refine ⟨m.link x q (ys.headD h), ?_, hlink⟩
  rw [listAddTail, Res.deref_of_some hprev, Res.ok_bind, listInsert_ok (hm.has hx) hq hp]

theorem listDelInit_ok (hm : m.Holds h xs live) (hx : live x) :
    ∃ m', listDelInit m x = .ok m' ∧ m'.Holds h (xs.filter (· ≠ x)) live := by
  obtain ⟨q, p, hprev, hnext, hq, hp, hout⟩ := hm.unlink_single hx
  refine ⟨(m.join q p).single x, ?_, hout⟩
  rw [listDelInit, Res.deref_of_some hprev, Res.ok_bind, Res.deref_of_some hnext, Res.ok_bind,
    listJion_ok hq hp]
  rfl

theorem listDel_ok (hm : m.Holds h xs live) (hx : live x) :
    ∃ m', listDel m x = .ok m' ∧ m'.Holds h (xs.filter (· ≠ x)) fun a => live a ∧ a ≠ x := by
  obtain ⟨q, p, hprev, hnext, hq, hp, hout⟩ := hm.unlink_remove hx
  refine ⟨(m.join q p).remove x, ?_, hout⟩
  rw [listDel, Res.deref_of_some hprev, Res.ok_bind, Res.deref_of_some hnext, Res.ok_bind, listJion_ok hq hp]
  rfl

theorem listEmpty_eq (hr : m.IsRing h xs) : listEmpty m h = .ok (decide (xs = [])) := by
  rw [listEmpty, Res.deref_of_some hr.next_head, Res.ok_bind]
  cases xs with
  | nil => simp
  | cons x xs =>
    have hne : x ≠ h := fun heq => (List.nodup_cons.1 hr.nodup).1 (heq ▸ List.mem_cons_self)
    simp [hne]

/-- The loop passes over the nodes that the test says no to and stops at the next, or at the head. -/
theorem listSeek_eq {test : κ → Res Bool} {fuel : Nat} (hr : m.IsRing h (xs ++ ys)) {test' : κ → Bool}
    (htest : ∀ y ∈ ys, test y = .ok (test' y)) : listSeek m h test fuel (ys.headD h) =
      if (ys.takeWhile fun y => !test' y).length < fuel then .ok ((ys.dropWhile fun y => !test' y).headD h)
      else .fault := by
  induction ys generalizing xs fuel with
  | nil =>
    cases fuel with
    | zero => rfl
    | succ fuel => simp [listSeek]
  | cons y ys ih =>
    cases fuel with
    | zero => rfl
    | succ fuel =>
      have hne : y ≠ h := fun heq =>
        (List.nodup_cons.1 hr.nodup).1 (heq ▸ List.mem_append_right xs List.mem_cons_self)
      rw [List.headD_cons, listSeek, if_neg hne, htest y List.mem_cons_self, Res.ok_bind]
      cases hy : test' y with
      | true => simp [hy]
      | false =>
        have hrest : m.IsRing h ((xs ++ [y]) ++ ys) := by simpa using hr
        have hseek := @ih (xs ++ [y]) fuel hrest fun z hz => htest z (List.mem_cons_of_mem y hz)
        rw [if_neg Bool.false_ne_true, Res.deref_of_some hr.next_eq, Res.ok_bind, hseek]
        simp [hy]

end

end Utils
