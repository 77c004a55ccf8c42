import GoipRemote.Lib.LinkedList
import GoipRemote.Utils.Timer
import Mathlib.Tactic

/-!
# Lists of pointers (`utils/datalist.c`)

`struct datalist`: iterators in a linked list with pointers to its first and its last node, and a
list of iterators to use again. `Datalist.Rep s ds`: the list holds the pointers `ds`.
`datalist_append` puts one at the end (`datalistAppend_rep`), `datalist_remove_data` removes the
first occurrence of one (`datalistRemoveData_rep`).
-/

namespace Utils

open LinkedList Function

/-- `struct datalist_iterator`. -/
structure DatalistIterator where
  data : Ptr
  next : Ptr
  deriving DecidableEq, Repr, Inhabited

/-- `struct datalist`. Iterators are numbered in the order they are taken from the arena; those up to
`brk - 1` exist. -/
structure Datalist where
  n : Int
  first : Ptr
  last : Ptr
  free : Ptr
  its : Ptr → DatalistIterator
  brk : Nat

namespace Datalist

/-- `datalist_init`. -/
def init : Datalist := ⟨0, 0, 0, 0, fun _ => default, 1⟩

/-- The link field. -/
def next (s : Datalist) (it : Ptr) : Ptr := (s.its it).next

/-- Store `v` at `it`. -/
def setIt (s : Datalist) (it : Ptr) (v : DatalistIterator) : Datalist :=
  { s with its := update s.its it v }

/-- `it->next = v`. -/
def setNext (s : Datalist) (it v : Ptr) : Datalist := s.setIt it { s.its it with next := v }

@[simp] theorem next_setIt (s : Datalist) (it : Ptr) (v : DatalistIterator) :
    (s.setIt it v).next = update s.next it v.next := by
  funext x
  by_cases h : x = it <;> simp [next, setIt, h]

end Datalist

/-- `alloc_datalist_iterator`. -/
def allocDatalistIterator (s : Datalist) : Ptr × Datalist :=
  if s.free = 0 then (s.brk, { s with brk := s.brk + 1 }.setIt s.brk ⟨0, 0⟩)
  else (s.free, { s with free := s.next s.free }.setNext s.free 0)

/-- `free_datalist_iterator`. -/
def freeDatalistIterator (s : Datalist) (it : Ptr) : Datalist :=
  { s.setIt it ⟨0, s.free⟩ with free := it }

/-- `datalist_append`. -/
def datalistAppend (s : Datalist) (data : Ptr) : Datalist :=
  let (it, s) := allocDatalistIterator s
  let s := s.setIt it { s.its it with data := data }
  let s := if s.last = 0 then { s with first := it, last := it }
    else { s.setNext s.last it with last := it }
  { s with n := toInt (s.n + 1) }

/-- `datalist_remove_data`. -/
def datalistRemoveData (s : Datalist) (data : Ptr) : Res (Datalist × Int) :=
  let it := s.first
  if it = 0 then .ok (s, -1)
  else if (s.its it).data = data then
    let s := { s with first := s.next it }
    let s := if it = s.last then { s with last := 0 } else s
    let s := freeDatalistIterator s it
    .ok ({ s with n := toInt (s.n - 1) }, 0)
  else do
    let it ← advance s.next (fun x => (s.its x).data = data) s.brk it
    let tmp := s.next it
    if tmp = 0 then .ok (s, -1)
    else
      let s := s.setNext it (s.next tmp)
      let s := if tmp = s.last then { s with last := it } else s
      let s := freeDatalistIterator s tmp
      .ok ({ s with n := toInt (s.n - 1) }, 0)

/-! ## Sequences -/

namespace Datalist

/-- The list visits the iterators `l`, whose number `n` has as an `int` has it, and `f` can be used
again. -/
structure Lists (s : Datalist) (l f : List Ptr) : Prop where
  list : IsList s.next s.first l
  free : IsList s.next s.free f
  nodup : (l ++ f).Nodup
  lt : ∀ x ∈ l ++ f, x < s.brk
  last : s.last = l.getLastD 0
  n : s.n = toInt l.length
  brk_pos : 0 < s.brk

/-- The list holds the pointers `ds`. -/
def Rep (s : Datalist) (ds : List Ptr) : Prop :=
  ∃ l f, s.Lists l f ∧ ds = l.map fun it => (s.its it).data

theorem init_rep : init.Rep [] :=
  ⟨[], [], ⟨isList_nil.2 rfl, isList_nil.2 rfl, List.nodup_nil, by simp, rfl, rfl, Nat.one_pos⟩, rfl⟩

variable {s : Datalist} {l f ds : List Ptr}

theorem Lists.length_lt (h : s.Lists l f) : l.length < s.brk := by
  have hsub : l ⊆ (List.range s.brk).erase 0 := by
    intro x hx
    rw [List.mem_erase_of_ne (h.list.ne_zero x hx), List.mem_range]
    exact h.lt x (List.mem_append_left _ hx)
  have hl : l.length ≤ ((List.range s.brk).erase 0).length :=
    (List.subperm_of_subset (List.nodup_append.1 h.nodup).1 hsub).length_le
  rw [List.length_erase_of_mem (List.mem_range.2 h.brk_pos), List.length_range] at hl
  have := h.brk_pos
  omega

/-- `n` with a node less. -/
theorem Lists.n_pred (h : s.Lists l f) {l' : List Ptr} (hlen : l.length = l'.length + 1) :
    toInt (s.n - 1) = toInt l'.length := by
  rw [h.n, toInt_sub, hlen, Nat.cast_succ, add_sub_cancel_right]

theorem alloc_lists (h : s.Lists l f) : ∃ it s' f', allocDatalistIterator s = (it, s') ∧ it ≠ 0 ∧
    it ∉ l ∧ s'.next it = 0 ∧ s'.Lists l f' ∧ (it :: (l ++ f')).Nodup ∧ it < s'.brk ∧
    ∀ x, x ≠ it → s'.its x = s.its x := by
  by_cases hfree : s.free = 0
  · have hnew : s.brk ∉ l ++ f := fun hx => Nat.lt_irrefl _ (h.lt _ hx)
    have hl : s.brk ∉ l := fun hx => hnew (List.mem_append_left _ hx)
    have hf : s.brk ∉ f := fun hx => hnew (List.mem_append_right _ hx)
    refine ⟨s.brk, _, f, if_pos hfree, h.brk_pos.ne', hl, by simp, ⟨?_, ?_, h.nodup, ?_, h.last, h.n,
      Nat.succ_pos _⟩, List.nodup_cons.2 ⟨hnew, h.nodup⟩, Nat.lt_succ_self _, fun x hx => ?_⟩
    · rw [next_setIt]
      exact h.list.update_of_notMem hl
    · rw [next_setIt]
      exact h.free.update_of_notMem hf
    · exact fun x hx => Nat.lt_succ_of_lt (h.lt x hx)
    · exact update_of_ne hx ..
  · obtain ⟨x, f, rfl⟩ := List.exists_cons_of_ne_nil (mt h.free.eq_zero_iff.2 hfree)
    obtain ⟨hx, hx0, hf⟩ := isList_cons.1 h.free
    have hnd := h.nodup
    rw [List.nodup_middle, List.nodup_cons] at hnd
    have hxl : x ∉ l := fun hm => hnd.1 (List.mem_append_left _ hm)
    have hxf : x ∉ f := fun hm => hnd.1 (List.mem_append_right _ hm)
    have hlt : x < s.brk := h.lt x (by simp)
    refine ⟨x, { s with free := s.next x }.setNext x 0, f, ?_, hx0, hxl, ?_, ⟨?_, ?_, hnd.2, ?_, h.last,
      h.n, h.brk_pos⟩, List.nodup_cons.2 ⟨hnd.1, hnd.2⟩, hlt, fun y hy => ?_⟩
    · rw [allocDatalistIterator, if_neg hfree, hx]
    · rw [setNext, next_setIt]
      exact update_self ..
    · rw [setNext, next_setIt]
      exact h.list.update_of_notMem hxl
    · rw [setNext, next_setIt]
      exact hf.update_of_notMem hxf
    · intro y hy
      apply h.lt y
      rcases List.mem_append.1 hy with hy | hy
      · exact List.mem_append_left _ hy
      · exact List.mem_append_right _ (List.mem_cons_of_mem _ hy)
    · exact update_of_ne hy ..

theorem data_setNext (s : Datalist) (it v x : Ptr) : ((s.setNext it v).its x).data = (s.its x).data := by
  by_cases h : x = it <;> simp [setNext, setIt, h]

/-- **`datalist_append`.** -/
theorem datalistAppend_rep (h : s.Rep ds) (data : Ptr) : (datalistAppend s data).Rep (ds ++ [data]) := by
  obtain ⟨l, f, hl, rfl⟩ := h
  obtain ⟨it, s₁, f₁, hs₁, hit0, hit, hnext, h₁, hnd, hlt, hits⟩ := alloc_lists hl
  obtain ⟨hitf, hnd'⟩ := List.nodup_cons.1 hnd
  set s₂ := s₁.setIt it { s₁.its it with data := data } with hs₂
  have hn₂ : s₂.next = s₁.next := by
    rw [hs₂, next_setIt]
    exact update_eq_self_iff.2 rfl
  have hdata : ∀ x ∈ l, (s₂.its x).data = (s.its x).data := by
    intro x hx
    have hne : x ≠ it := fun he => hit (he ▸ hx)
    rw [hs₂, setIt, ← hits x hne]
    exact congrArg DatalistIterator.data (update_of_ne hne ..)
  have hdata' : (s₂.its it).data = data := by simp [hs₂, setIt]
  have hnodup : (l ++ [it] ++ f₁).Nodup := by
    rw [List.append_assoc, List.singleton_append, List.nodup_middle]
    exact hnd
  have hbound : ∀ x ∈ l ++ [it] ++ f₁, x < s₁.brk := by
    intro x hx
    rw [List.append_assoc, List.mem_append, List.singleton_append, List.mem_cons] at hx
    rcases hx with hx | rfl | hx
    · exact h₁.lt x (List.mem_append_left _ hx)
    · exact hlt
    · exact h₁.lt x (List.mem_append_right _ hx)
  have hn : toInt (s₁.n + 1) = toInt (l ++ [it]).length := by
    rw [h₁.n, toInt_add, List.length_append]
    rfl
  simp only [datalistAppend, hs₁]
  rw [← hs₂, show s₂.last = s₁.last from rfl, show s₂.n = s₁.n from rfl]
  rcases List.eq_nil_or_concat l with rfl | ⟨pre, a, rfl⟩
  · -- the first node
    rw [if_pos (show s₁.last = 0 from h₁.last)]
    refine ⟨[it], f₁, ⟨?_, ?_, hnodup, hbound, rfl, hn, h₁.brk_pos⟩, ?_⟩
    · show IsList s₂.next it [it]
      rw [hn₂]
      exact ⟨rfl, hit0, hnext⟩
    · show IsList s₂.next s₁.free f₁
      rw [hn₂]
      exact h₁.free
    · simp [hdata']
  · -- after the last node
    have hlast : s₁.last = a := by
      rw [h₁.last]
      simp
    have ha0 : a ≠ 0 := h₁.list.ne_zero a (by simp)
    have hlist : IsList s₁.next s₁.first (pre ++ a :: []) := by simpa using h₁.list
    have ha : s₁.next a = 0 := hlist.next_eq
    have hinsert : IsList (update s₁.next a it) s₁.first (pre ++ [a] ++ [it]) := by
      have := hlist.insertAfter hit0 (by simpa using hit)
      rw [ha, show update s₁.next it 0 = s₁.next from update_eq_self_iff.2 hnext.symm] at this
      simpa using this
    rw [hlast, if_neg ha0]
    rw [List.concat_eq_append] at *
    refine ⟨pre ++ [a] ++ [it], f₁, ⟨?_, ?_, hnodup, hbound, ?_, hn, h₁.brk_pos⟩, ?_⟩
    · show IsList (s₂.setNext a it).next s₁.first _
      rw [setNext, next_setIt, hn₂]
      exact hinsert
    · show IsList (s₂.setNext a it).next s₁.free f₁
      rw [setNext, next_setIt, hn₂]
      refine h₁.free.update_of_notMem fun hm => ?_
      exact (List.nodup_append.1 hnd').2.2 a (by simp) a hm rfl
    · show it = (pre ++ [a] ++ [it]).getLastD 0
      simp
    · show _ = (pre ++ [a] ++ [it]).map fun x => ((s₂.setNext a it).its x).data
      simp only [data_setNext, List.map_append, List.map_cons, List.map_nil, hdata']
      rw [hdata a (by simp), List.map_congr_left fun x hx => hdata x (by simp [hx])]

/-- A node that is in no list any more goes to the free list. -/
theorem free_lists {it : Ptr} {l' : List Ptr} (hlist : IsList s.next s.first l')
    (hfree : IsList s.next s.free f) (hit0 : it ≠ 0) (hnd : (it :: (l' ++ f)).Nodup)
    (hlt : ∀ x ∈ it :: (l' ++ f), x < s.brk) (hlast : s.last = l'.getLastD 0)
    (hn : toInt (s.n - 1) = toInt l'.length) (hpos : 0 < s.brk) :
    Rep { freeDatalistIterator s it with n := toInt (s.n - 1) } (l'.map fun x => (s.its x).data) := by
  obtain ⟨hit, hnd'⟩ := List.nodup_cons.1 hnd
  have hitl : it ∉ l' := fun hm => hit (List.mem_append_left _ hm)
  have hitf : it ∉ f := fun hm => hit (List.mem_append_right _ hm)
  have hnext : (freeDatalistIterator s it).next = update s.next it s.free := next_setIt ..
  refine ⟨l', it :: f, ⟨?_, ?_, ?_, fun x hx => hlt x ?_, hlast, hn, hpos⟩, ?_⟩
  · show IsList (freeDatalistIterator s it).next s.first l'
    rw [hnext]
    exact hlist.update_of_notMem hitl
  · show IsList (freeDatalistIterator s it).next it (it :: f)
    rw [hnext]
    exact hfree.push hit0 hitf
  · rw [List.nodup_middle]
    exact hnd
  · simp only [List.mem_append, List.mem_cons] at hx ⊢
    tauto
  · refine List.map_congr_left fun x hx => ?_
    have hne : x ≠ it := fun he => hitl (he ▸ hx)
    exact (congrArg DatalistIterator.data (update_of_ne hne ..)).symm

theorem getLastD_append_cons (pre suf : List Ptr) (a b : Ptr) :
    (pre ++ a :: suf).getLastD b = suf.getLastD a := by
  induction pre generalizing b with
  | nil => rw [List.nil_append, List.getLastD_cons]
  | cons x pre ih => rw [List.cons_append, List.getLastD_cons, ih]

/-- The list without its first node. -/
def removeFirst (s : Datalist) (x : Ptr) : Datalist :=
  let s := { s with first := s.next x }
  let s := if x = s.last then { s with last := 0 } else s
  { freeDatalistIterator s x with n := toInt (s.n - 1) }

theorem removeFirst_eq {x data : Ptr} (hx : s.first = x) (hx0 : x ≠ 0) (hd : (s.its x).data = data) :
    datalistRemoveData s data = .ok (s.removeFirst x, 0) := by
  rw [datalistRemoveData, hx, if_neg hx0, if_pos hd]
  unfold removeFirst
  simp only
  split <;> rfl

theorem removeFirst_rep {x data : Ptr} (h : s.Lists (x :: l) f) (hd : (s.its x).data = data) :
    (s.removeFirst x).Rep (((x :: l).map fun y => (s.its y).data).erase data) := by
  obtain ⟨hx, hx0, hl'⟩ := isList_cons.1 h.list
  have hxl : x ∉ l := fun hm => (List.nodup_cons.1 h.nodup).1 (List.mem_append_left _ hm)
  have hn : toInt (s.n - 1) = toInt l.length := h.n_pred (List.length_cons ..)
  have hlt : ∀ y ∈ x :: (l ++ f), y < s.brk := h.lt
  rw [List.map_cons, hd, List.erase_cons_head]
  unfold removeFirst
  by_cases hlast : x = s.last
  · simp only [if_pos hlast]
    refine free_lists (s := { s with first := s.next x, last := 0 }) hl' h.free hx0 h.nodup hlt ?_ hn
      h.brk_pos
    -- it was the only node
    cases l with
    | nil => rfl
    | cons y l =>
      refine absurd ?_ hxl
      rw [hlast, h.last, List.getLastD_cons, List.getLastD_cons]
      exact List.getLastD_mem_cons
  · simp only [if_neg hlast]
    refine free_lists (s := { s with first := s.next x }) hl' h.free hx0 h.nodup hlt ?_ hn h.brk_pos
    show s.last = _
    rw [h.last]
    cases l with
    | nil => exact absurd h.last.symm hlast
    | cons y l => rfl

/-- The list without the node `x` after `a`. -/
def removeAfter (s : Datalist) (a x : Ptr) : Datalist :=
  let s := s.setNext a (s.next x)
  let s := if x = s.last then { s with last := a } else s
  { freeDatalistIterator s x with n := toInt (s.n - 1) }

theorem removeAfter_rep {pre suf : List Ptr} {a x : Ptr} (h : s.Lists (pre ++ a :: x :: suf) f) :
    (s.removeAfter a x).Rep ((pre ++ a :: suf).map fun y => (s.its y).data) := by
  have hlist := h.list.removeAfter
  have hx0 : x ≠ 0 := h.list.ne_zero x (by simp)
  have hperm : (pre ++ a :: x :: suf ++ f).Perm (x :: (pre ++ a :: suf ++ f)) := by
    simp only [List.append_assoc, List.cons_append]
    exact ((List.Perm.swap x a _).append_left pre).trans List.perm_middle
  have hnd : (x :: (pre ++ a :: suf ++ f)).Nodup := hperm.nodup_iff.1 h.nodup
  have hlt : ∀ y ∈ x :: (pre ++ a :: suf ++ f), y < s.brk := fun y hy => h.lt y (hperm.mem_iff.2 hy)
  have hn : toInt (s.n - 1) = toInt (pre ++ a :: suf).length := by
    apply h.n_pred
    simp only [List.length_append, List.length_cons]
    omega
  have haf : a ∉ f := fun hm => (List.nodup_append.1 h.nodup).2.2 a (by simp) a hm rfl
  have hfree : IsList (update s.next a (s.next x)) s.free f := h.free.update_of_notMem haf
  have hnext : (s.setNext a (s.next x)).next = update s.next a (s.next x) := next_setIt ..
  have hmap : ((pre ++ a :: suf).map fun y => ((s.setNext a (s.next x)).its y).data) =
      (pre ++ a :: suf).map fun y => (s.its y).data := by simp only [data_setNext]
  rw [← hmap]
  unfold removeAfter
  by_cases hlast : x = s.last
  · simp only [show (s.setNext a (s.next x)).last = s.last from rfl, if_pos hlast]
    refine free_lists (s := { s.setNext a (s.next x) with last := a }) (hnext ▸ hlist) (hnext ▸ hfree)
      hx0 hnd hlt ?_ hn h.brk_pos
    -- nothing is behind it
    show a = _
    rw [getLastD_append_cons]
    cases suf with
    | nil => rfl
    | cons b suf =>
      refine absurd ?_ (List.nodup_cons.1 hnd).1
      have hmem : x ∈ b :: suf := by
        rw [hlast, h.last, getLastD_append_cons, List.getLastD_cons, List.getLastD_cons]
        exact List.getLastD_mem_cons
      simp only [List.mem_append, List.mem_cons] at hmem ⊢
      tauto
  · simp only [show (s.setNext a (s.next x)).last = s.last from rfl, if_neg hlast]
    refine free_lists (s := s.setNext a (s.next x)) (hnext ▸ hlist) (hnext ▸ hfree) hx0 hnd hlt ?_ hn
      h.brk_pos
    show s.last = _
    rw [h.last, getLastD_append_cons, getLastD_append_cons]
    cases suf with
    | nil =>
      rw [h.last, getLastD_append_cons] at hlast
      exact absurd rfl hlast
    | cons b suf => rfl

/-- **`datalist_remove_data`.** -/
theorem datalistRemoveData_rep (h : s.Rep ds) (data : Ptr) :
    ∃ s' r, datalistRemoveData s data = .ok (s', r) ∧ s'.Rep (ds.erase data) := by
  obtain ⟨l, f, hl, rfl⟩ := h
  cases l with
  | nil =>
    have hfirst : s.first = 0 := hl.list
    exact ⟨s, -1, by rw [datalistRemoveData, if_pos hfirst], [], f, hl, rfl⟩
  | cons x l =>
    obtain ⟨hx, hx0, hl'⟩ := isList_cons.1 hl.list
    have hfirst : s.first ≠ 0 := hx ▸ hx0
    by_cases hd : (s.its x).data = data
    · exact ⟨_, 0, removeFirst_eq hx hx0 hd, removeFirst_rep hl hd⟩
    · by_cases hmem : data ∈ l.map fun y => (s.its y).data
      · -- the loop stands before the first match
        obtain ⟨as, bs, hsplit, has⟩ := List.eq_append_cons_of_mem hmem
        obtain ⟨l₁, l₂, rfl, rfl, h₂⟩ := List.map_eq_append_iff.1 hsplit
        obtain ⟨y, suf, rfl, hy, rfl⟩ := List.map_eq_cons_iff.1 h₂
        obtain ⟨pre, a, hpre⟩ : ∃ pre a, x :: l₁ = pre ++ [a] :=
          ⟨_, _, (List.dropLast_append_getLast (List.cons_ne_nil x l₁)).symm⟩
        have hwhole : x :: (l₁ ++ y :: suf) = pre ++ a :: y :: suf := by
          rw [← List.cons_append, hpre]
          simp
        rw [hwhole] at hl ⊢
        have hlen : pre.length < s.brk := by
          have := hl.length_lt
          rw [List.length_append] at this
          omega
        have hadv : advance s.next (fun y => (s.its y).data = data) s.brk s.first = .ok a := advance_eq
          hl.list hlen
          (by
            rw [← hpre]
            exact fun z hz => decide_eq_false fun hc => has (hc ▸ List.mem_map_of_mem hz))
          (by simpa using hy)
        have hnext : s.next a = y := hl.list.next_eq
        have hy0 : y ≠ 0 := hl.list.ne_zero y (by simp)
        refine ⟨s.removeAfter a y, 0, ?_, ?_⟩
        · rw [datalistRemoveData, if_neg hfirst, hx, if_neg hd, ← hx, hadv, Res.ok_bind, hnext,
            if_neg hy0]
          unfold removeAfter
          simp only
          split <;> rfl
        · have hrep := removeAfter_rep hl
          have hnot : data ∉ (pre ++ [a]).map fun z => (s.its z).data := by
            rw [← hpre, List.map_cons, List.mem_cons, not_or]
            exact ⟨Ne.symm hd, has⟩
          have herase : ((pre ++ a :: y :: suf).map fun z => (s.its z).data).erase data =
              (pre ++ a :: suf).map fun z => (s.its z).data := by
            rw [show pre ++ a :: y :: suf = (pre ++ [a]) ++ y :: suf by simp, List.map_append,
              List.erase_append_right _ hnot, List.map_cons, hy, List.erase_cons_head,
              ← List.map_append]
            simp
          rw [herase]
          exact hrep
      · -- the loop reaches the last node
        obtain ⟨pre, a, hpre⟩ : ∃ pre a, x :: l = pre ++ [a] :=
          ⟨_, _, (List.dropLast_append_getLast (List.cons_ne_nil x l)).symm⟩
        have hlist : IsList s.next s.first (pre ++ a :: []) := hpre ▸ hl.list
        have hlen : pre.length < s.brk := by
          have := hl.length_lt
          rw [hpre, List.length_append] at this
          omega
        have hadv : advance s.next (fun y => (s.its y).data = data) s.brk s.first = .ok a := advance_eq
          hlist hlen
          (by
            rw [← hpre]
            exact fun y hy => decide_eq_false fun hc => hmem (hc ▸ List.mem_map_of_mem hy))
          (by simp)
        refine ⟨s, -1, ?_, x :: l, f, hl, ?_⟩
        · have hnext : s.next a = 0 := hlist.next_eq
          rw [datalistRemoveData, if_neg hfirst, hx, if_neg hd, ← hx, hadv, Res.ok_bind, hnext,
            if_pos rfl]
        · rw [List.erase_of_not_mem]
          rw [List.map_cons, List.mem_cons, not_or]
          exact ⟨Ne.symm hd, hmem⟩

end Datalist

end Utils
