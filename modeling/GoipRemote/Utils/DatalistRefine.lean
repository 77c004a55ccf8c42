import GoipRemote.Lib.Runs
import GoipRemote.Utils.Datalist
import Mathlib.Data.List.GetD

/-!
# `utils/datalist.c` refines lists

The rest of the file (`datalist_insert`, `datalist_remove`, `datalist_get`, `datalist_copy` and the
iteration), and what it does to lists of pointers: `datalistRun_iff` says for which sequences of calls the
lists hold what the same calls make of lists (`listSpec`). `datalist_insert` loses a node that goes between
two others and reads through the last node's pointer, `datalist_remove` reads through the second node's,
and `datalist_copy` does not reset `n`. No iterator has a `typeinfo` here.
-/

namespace Utils

open LinkedList Function

/-! ## The code -/

/-- The loop of `datalist_insert`, of at most the given number of rounds, from round `i` on. -/
def insertWalk (s : Datalist) (index : Int) : Nat → Int → Ptr → Res Ptr
  | 0, _, tmp => .ok tmp
  | rounds + 1, i, tmp =>
    if i = index then .ok tmp else if tmp = 0 then .fault else insertWalk s index rounds (i + 1) (s.next tmp)

/-- The part of `datalist_insert` that links the new node in. -/
def insertLink (s : Datalist) (index : Int) (it : Ptr) : Res Datalist :=
  if index = 0 then
    let s := { s.setNext it s.first with first := it }
    .ok (if s.last = 0 then { s with last := it } else s)
  else if index ≥ s.n then
    if s.last = 0 then .fault else .ok { s.setNext s.last it with last := it }
  else do
    let tmp ← insertWalk s index s.n.toNat 0 s.first
    -- `tmp = it` links the node nowhere
    return s.setNext it tmp

/-- `datalist_insert`. -/
def datalistInsert (s : Datalist) (index : Int) (data : Ptr) : Res (Datalist × Int) := do
  let (it, s) := allocDatalistIterator s
  let s ← insertLink (s.setIt it { s.its it with data := data }) index it
  return ({ s with n := toInt (s.n + 1) }, 0)

/-- The loop of `datalist_remove`, from round `i` on. -/
def removeLoop (s : Datalist) (index : Int) : Nat → Int → Ptr → Ptr → Res (Datalist × Int)
  | 0, _, _, _ => .ok (s, -1)
  | rounds + 1, i, it, tmp =>
    if tmp = 0 then .fault
    else if i = index then
      let s := s.setNext it (s.next tmp)
      let s := if tmp = s.last then { s with last := it } else s
      let s := freeDatalistIterator s tmp
      .ok ({ s with n := toInt (s.n - 1) }, 0)
    else removeLoop s index rounds (i + 1) tmp (s.next tmp)

/-- `datalist_remove`. -/
def datalistRemove (s : Datalist) (index : Int) : Res (Datalist × Int) :=
  let it := s.first
  if index ≥ s.n ∨ index < 0 ∨ it = 0 then .ok (s, -1)
  else
    let tmp := s.next it
    if index = 0 then
      if tmp = 0 then .fault
      else
        let s := s.setNext it (s.next tmp)
        let s := { s with first := tmp }
        let s := freeDatalistIterator s it
        .ok ({ s with n := toInt (s.n - 1) }, 0)
    else removeLoop s index (s.n - 1).toNat 1 it tmp

/-- The loop of `datalist_get`, from round `i` on. -/
def getLoop (s : Datalist) (index : Int) : Nat → Int → Ptr → Res Ptr
  | 0, _, _ => .ok 0
  | rounds + 1, i, it =>
    if it = 0 then .fault
    else if i = index then .ok (s.its it).data
    else getLoop s index rounds (i + 1) (s.next it)

/-- `datalist_get`. -/
def datalistGet (s : Datalist) (index : Int) : Res Ptr :=
  if index ≥ s.n ∨ index < 0 ∨ s.first = 0 then .ok 0 else getLoop s index s.n.toNat 0 s.first

/-- `for (it = datalist_first(..); it; it = datalist_next(it))`: what `datalist_itdata` answers. -/
def datalistEach (s : Datalist) : Nat → Ptr → Res (List Ptr)
  | 0, _ => .fault
  | rounds + 1, it =>
    if it = 0 then .ok []
    else do
      let rest ← datalistEach s rounds (s.next it)
      return (s.its it).data :: rest

/-- `datalist_size`. -/
def datalistSize (s : Datalist) : Int := s.n

/-- The loop of `datalist_copy` that frees the nodes of `dest`. -/
def freeAll : Nat → Ptr → Datalist → Res Datalist
  | 0, _, _ => .fault
  | rounds + 1, it, s => if it = 0 then .ok s else freeAll rounds (s.next it) (freeDatalistIterator s it)

/-- The loop of `datalist_copy` over the nodes of `src`. -/
def appendAll (src : Datalist) : Nat → Ptr → Datalist → Res Datalist
  | 0, _, _ => .fault
  | rounds + 1, it, s =>
    if it = 0 then .ok s else appendAll src rounds (src.next it) (datalistAppend s (src.its it).data)

/-- `datalist_copy`, between lists of a family, or of one to itself. -/
def datalistCopy (lists : Nat → Datalist) (dest src : Nat) : Res ((Nat → Datalist) × Int) := do
  let s := lists dest
  let s ← if s.first ≠ 0 then do
      let s ← freeAll s.brk s.first s
      .ok { s with first := 0, last := 0 }
    else .ok s
  let from' := update lists dest s src
  let s ← appendAll from' from'.brk from'.first s
  return (update lists dest s, s.n)

/-- A call on a family of lists. -/
inductive ListOp where
  | append (list : Nat) (data : Ptr)
  | insert (list : Nat) (index : Int) (data : Ptr)
  | remove (list : Nat) (index : Int)
  | removeData (list : Nat) (data : Ptr)
  | copy (dest src : Nat)
  deriving DecidableEq, Repr

/-- The call. -/
def ListOp.run (lists : Nat → Datalist) : ListOp → Res (Nat → Datalist)
  | append i data => .ok (update lists i (datalistAppend (lists i) data))
  | insert i index data => do
    let (s, _) ← datalistInsert (lists i) index data
    return update lists i s
  | remove i index => do
    let (s, _) ← datalistRemove (lists i) index
    return update lists i s
  | removeData i data => do
    let (s, _) ← datalistRemoveData (lists i) data
    return update lists i s
  | copy dest src => do
    let (lists, _) ← datalistCopy lists dest src
    return lists

/-! ## Lists -/

/-- What the call makes of a family of lists. -/
def listSpec (lists : Nat → List Ptr) : ListOp → Nat → List Ptr
  | .append i data => update lists i (lists i ++ [data])
  | .insert i index data => update lists i ((lists i).take index.toNat ++ data :: (lists i).drop index.toNat)
  | .remove i index => if index < 0 then lists else update lists i ((lists i).eraseIdx index.toNat)
  | .removeData i data => update lists i ((lists i).erase data)
  | .copy dest src => update lists dest (lists src)

/-- The list holds `ds`: its nodes, its fields and what it answers. -/
structure Datalist.Holds (s : Datalist) (ds : List Ptr) : Prop where
  nodes : ∃ l f, IsList s.next s.first l ∧ IsList s.next s.free f ∧ (l ++ f).Nodup ∧ s.n = l.length ∧
    s.last = l.getLastD 0
  size : datalistSize s = ds.length
  get : ∀ i, datalistGet s i = .ok (if i < 0 then 0 else ds.getD i.toNat 0)
  each : datalistEach s s.brk s.first = .ok ds

/-- The call returns, and the lists hold what it makes of the lists before. -/
def ListOp.Refines (s : (Nat → Datalist) × (Nat → List Ptr)) (op : ListOp) : Prop :=
  ∃ lists, op.run s.1 = .ok lists ∧ ∀ i, (lists i).Holds (listSpec s.2 op i)

/-- A call, beside what it makes of lists. -/
def ListOp.step (s : (Nat → Datalist) × (Nat → List Ptr)) (op : ListOp) :
    Res ((Nat → Datalist) × (Nat → List Ptr)) := do
  let lists ← op.run s.1
  return (lists, listSpec s.2 op)

/-- The calls that do not lose a node, read through `NULL`, leave `n` behind or count beyond an `int`. -/
def ListOp.Sound (lists : Nat → List Ptr) : ListOp → Prop
  | append i _ => (lists i).length + 1 < 2 ^ 31
  | insert i index _ =>
    (index = 0 ∨ lists i ≠ [] ∧ (lists i).length ≤ index) ∧ (lists i).length + 1 < 2 ^ 31
  | remove i index => ¬ (index = 0 ∧ (lists i).length = 1)
  | removeData _ _ => True
  | copy dest _ => lists dest = []

namespace Datalist

variable {s : Datalist} {l f ds : List Ptr}

/-! ## Reading -/

theorem getLoop_eq {index : Int} : ∀ {l : List Ptr} {rounds : Nat} {i : Int} {it : Ptr} {k : Nat},
    IsList s.next it l → k < l.length → k < rounds → i + k = index →
    getLoop s index rounds i it = .ok ((l.map fun x => (s.its x).data).getD k 0) := by
  intro l
  induction l with
  | nil =>
    intro rounds i it k _ hk
    exact absurd hk (Nat.not_lt_zero _)
  | cons x l ih =>
    intro rounds i it k h hk hr hi
    obtain ⟨rfl, hx, h⟩ := isList_cons.1 h
    obtain ⟨rounds, rfl⟩ := Nat.exists_eq_succ_of_ne_zero (Nat.ne_of_gt (Nat.zero_lt_of_lt hr))
    rw [getLoop, if_neg hx]
    cases k with
    | zero =>
      rw [if_pos (by omega)]
      rfl
    | succ k =>
      rw [if_neg (by omega), ih h (Nat.lt_of_succ_lt_succ hk) (Nat.lt_of_succ_lt_succ hr) (by omega)]
      rfl

theorem datalistEach_eq : ∀ {l : List Ptr} {rounds : Nat} {it : Ptr}, IsList s.next it l →
    l.length < rounds → datalistEach s rounds it = .ok (l.map fun x => (s.its x).data) := by
  intro l
  induction l with
  | nil =>
    intro rounds it h hr
    obtain ⟨rounds, rfl⟩ := Nat.exists_eq_succ_of_ne_zero (Nat.ne_of_gt hr)
    rw [datalistEach, if_pos (isList_nil.1 h)]
    rfl
  | cons x l ih =>
    intro rounds it h hr
    obtain ⟨rfl, hx, h⟩ := isList_cons.1 h
    obtain ⟨rounds, rfl⟩ := Nat.exists_eq_succ_of_ne_zero (Nat.ne_of_gt (Nat.zero_lt_of_lt hr))
    rw [datalistEach, if_neg hx, ih h (Nat.lt_of_succ_lt_succ hr)]
    rfl

/-- A list that is in order, and the number of its nodes is an `int`. -/
structure Fits (s : Datalist) (ds : List Ptr) : Prop where
  rep : s.Rep ds
  length : ds.length < 2 ^ 31

theorem Lists.n_eq (h : s.Lists l f) (hlen : l.length < 2 ^ 31) : s.n = l.length := by
  rw [h.n, toInt_of_lt] <;> omega

theorem Fits.lists (h : s.Fits ds) : ∃ l f, s.Lists l f ∧ ds = (l.map fun x => (s.its x).data) ∧
    l.length < 2 ^ 31 ∧ s.n = l.length := by
  obtain ⟨⟨l, f, hl, rfl⟩, hlen⟩ := h
  rw [List.length_map] at hlen
  exact ⟨l, f, hl, rfl, hlen, hl.n_eq hlen⟩

/-- What it answers. -/
theorem Fits.holds (h : s.Fits ds) : s.Holds ds := by
  obtain ⟨l, f, hl, rfl, -, hn⟩ := h.lists
  refine ⟨⟨l, f, hl.list, hl.free, hl.nodup, hn, hl.last⟩, ?_, fun i => ?_,
    datalistEach_eq hl.list hl.length_lt⟩
  · rw [datalistSize, hn, List.length_map]
  · unfold datalistGet
    by_cases hi : i ≥ s.n ∨ i < 0 ∨ s.first = 0
    · rw [if_pos hi]
      by_cases hneg : i < 0
      · rw [if_pos hneg]
      · rw [if_neg hneg, List.getD_eq_default]
        rw [List.length_map]
        rcases hi with hi | hi | hi
        · omega
        · exact absurd hi hneg
        · rw [hl.list.eq_zero_iff.1 hi]
          exact Nat.zero_le _
    · rw [if_neg hi]
      push Not at hi
      rw [if_neg (by omega), getLoop_eq (k := i.toNat) hl.list (by omega) (by omega) (by omega)]

/-- A list with more nodes than an `int` counts is not in order. -/
theorem Rep.length_of_holds (h : s.Rep ds) (hholds : s.Holds ds) : ds.length < 2 ^ 31 := by
  obtain ⟨l, f, hl, rfl⟩ := h
  have hn : s.n = toInt l.length := hl.n
  rw [show s.n = l.length from hholds.size.trans (by rw [List.length_map]), toInt, Int.bmod_def] at hn
  rw [List.length_map]
  omega

/-- A list whose `n` does not count its nodes is not in order. -/
theorem not_holds (hlist : IsList s.next s.first l) (hn : s.n ≠ l.length) : ¬ s.Holds ds := by
  intro h
  obtain ⟨l', f, hl', -, -, hn', -⟩ := h.nodes
  rw [hlist.unique hl'] at hn
  exact hn hn'

/-! ## A new node -/

/-- `alloc_datalist_iterator`, and the data of the new node. -/
theorem alloc_data (h : s.Lists l f) (data : Ptr) : ∃ it s₁ s₂ f', allocDatalistIterator s = (it, s₁) ∧
    s₁.setIt it { s₁.its it with data := data } = s₂ ∧ s₂.Lists l f' ∧ it ≠ 0 ∧ s₂.next it = 0 ∧
    (it :: (l ++ f')).Nodup ∧ it < s₂.brk ∧ (s₂.its it).data = data ∧
    ∀ x ∈ l, (s₂.its x).data = (s.its x).data := by
  obtain ⟨it, s₁, f₁, hs₁, hit0, hit, hnext, h₁, hnd, hlt, hits⟩ := alloc_lists h
  have hn : (s₁.setIt it { s₁.its it with data := data }).next = s₁.next := by
    rw [next_setIt]
    exact update_eq_self_iff.2 rfl
  refine ⟨it, s₁, _, f₁, hs₁, rfl, ⟨hn ▸ h₁.list, hn ▸ h₁.free, h₁.nodup, h₁.lt, h₁.last, h₁.n, h₁.brk_pos⟩,
    hit0, hn ▸ hnext, hnd, hlt, by simp [setIt], fun x hx => ?_⟩
  have hne : x ≠ it := fun he => hit (he ▸ hx)
  rw [← hits x hne]
  exact congrArg DatalistIterator.data (update_of_ne hne ..)

/-- The new node becomes the first. -/
theorem insertFirst_rep (h : s.Rep ds) (data : Ptr) :
    ∃ s', datalistInsert s 0 data = .ok (s', 0) ∧ s'.Rep (data :: ds) := by
  obtain ⟨l, f, hl, rfl⟩ := h
  obtain ⟨it, s₁, s₂, f', hs₁, hs₂, h₂, hit0, -, hnd, hlt, hdata, hsame⟩ := alloc_data hl data
  obtain ⟨hit, -⟩ := List.nodup_cons.1 hnd
  have hitl : it ∉ l := fun hm => hit (List.mem_append_left _ hm)
  have hitf : it ∉ f' := fun hm => hit (List.mem_append_right _ hm)
  have hnext : (s₂.setNext it s₂.first).next = update s₂.next it s₂.first := next_setIt ..
  have hmap : data :: l.map (fun x => (s.its x).data) =
      (it :: l).map fun x => ((s₂.setNext it s₂.first).its x).data := by
    simp only [data_setNext, List.map_cons, hdata]
    rw [List.map_congr_left hsame]
  have hlists : ∀ last, last = (it :: l).getLastD 0 →
      Lists { s₂.setNext it s₂.first with first := it, last := last, n := toInt (s₂.n + 1) } (it :: l) f' := by
    intro last hlast
    refine ⟨?_, ?_, hnd, fun x hx => ?_, hlast, ?_, h₂.brk_pos⟩
    · show IsList (s₂.setNext it s₂.first).next it (it :: l)
      rw [hnext]
      exact h₂.list.push hit0 hitl
    · show IsList (s₂.setNext it s₂.first).next s₂.free f'
      rw [hnext]
      exact h₂.free.update_of_notMem hitf
    · rcases List.mem_cons.1 hx with rfl | hx
      · exact hlt
      · exact h₂.lt x hx
    · show toInt (s₂.n + 1) = _
      rw [h₂.n, toInt_add, List.length_cons]
      rfl
  simp only [datalistInsert, insertLink, hs₁, hs₂, if_true, Res.ok_bind, Res.pure_eq]
  refine ⟨_, rfl, it :: l, f', ?_, ?_⟩
  · by_cases hlast : s₂.last = 0
    · rw [if_pos (show (s₂.setNext it s₂.first).last = 0 from hlast)]
      apply hlists it
      -- it is the only node
      cases l with
      | nil => rfl
      | cons x l =>
        have hmem : (x :: l).getLastD 0 ∈ x :: l := by
          rw [List.getLastD_cons]
          exact List.getLastD_mem_cons
        rw [← h₂.last, hlast] at hmem
        exact absurd rfl (h₂.list.ne_zero 0 hmem)
    · rw [if_neg (show (s₂.setNext it s₂.first).last ≠ 0 from hlast)]
      apply hlists s₂.last
      rw [h₂.last] at hlast ⊢
      cases l with
      | nil => exact absurd rfl hlast
      | cons x l => rfl
  · rw [hmap]
    split <;> rfl

/-- The new node becomes the last. -/
theorem datalistInsert_last (h : s.Fits ds) (hne : ds ≠ []) {index : Int} (hindex : ds.length ≤ index)
    (data : Ptr) : datalistInsert s index data = .ok (datalistAppend s data, 0) := by
  obtain ⟨l, f, hl, rfl, hlen, -⟩ := h.lists
  obtain ⟨it, s₁, s₂, f', hs₁, hs₂, h₂, -⟩ := alloc_data hl data
  rw [List.length_map] at hindex
  have hlast : s₂.last ≠ 0 := by
    rw [h₂.last]
    cases l with
    | nil => exact absurd rfl hne
    | cons x l =>
      rw [List.getLastD_cons]
      exact h₂.list.ne_zero _ List.getLastD_mem_cons
  have hpos : 0 < l.length := List.length_pos_of_ne_nil fun hnil => hne (by rw [hnil]; rfl)
  have hindex' : index ≥ s₂.n := by
    rw [h₂.n_eq hlen]
    exact hindex
  simp only [datalistInsert, insertLink, datalistAppend, hs₁, hs₂, if_neg (show index ≠ 0 by omega),
    if_pos hindex', if_neg hlast, Res.ok_bind]
  rfl

theorem insertWalk_ok (index : Int) : ∀ {rounds : Nat} {l : List Ptr} (i : Int) {tmp : Ptr},
    IsList s.next tmp l → rounds ≤ l.length → ∃ tmp', insertWalk s index rounds i tmp = .ok tmp' := by
  intro rounds
  induction rounds with
  | zero =>
    intro l i tmp _ _
    exact ⟨tmp, rfl⟩
  | succ rounds ih =>
    intro l i tmp h hr
    cases l with
    | nil => exact absurd hr (Nat.not_succ_le_zero _)
    | cons x l =>
      obtain ⟨rfl, hx, h⟩ := isList_cons.1 h
      rw [insertWalk]
      by_cases hi : i = index
      · exact ⟨tmp, if_pos hi⟩
      · rw [if_neg hi, if_neg hx]
        exact ih (i + 1) h (Nat.le_of_succ_le_succ hr)

/-- The new node is lost, or there is no last node to link it to. -/
theorem datalistInsert_unsound (h : s.Fits ds) {index : Int} (hne : index ≠ 0)
    (hnot : ¬ (ds ≠ [] ∧ ds.length ≤ index)) {data : Ptr} {s' : Datalist} {r : Int}
    (hrun : datalistInsert s index data = .ok (s', r)) (ds' : List Ptr) : ¬ s'.Holds ds' := by
  obtain ⟨l, f, hl, rfl, hlen, -⟩ := h.lists
  obtain ⟨it, s₁, s₂, f', hs₁, hs₂, h₂, -, -, hnd, -⟩ := alloc_data hl data
  rw [List.length_map] at hnot
  have hn₂ : s₂.n = l.length := h₂.n_eq hlen
  simp only [datalistInsert, insertLink, hs₁, hs₂, if_neg hne] at hrun
  by_cases hindex : index ≥ s₂.n
  · have hnil : l = [] := by
      by_contra hl0
      refine hnot ⟨fun hmap => hl0 (List.map_eq_nil_iff.1 hmap), ?_⟩
      rw [← hn₂]
      exact hindex
    subst hnil
    rw [if_pos hindex, if_pos (show s₂.last = 0 from h₂.last), Res.fault_bind] at hrun
    cases hrun
  · have hrounds : s₂.n.toNat ≤ l.length := by
      rw [hn₂]
      exact Nat.le_refl _
    obtain ⟨tmp, htmp⟩ := insertWalk_ok (s := s₂) index 0 h₂.list hrounds
    rw [if_neg hindex, htmp] at hrun
    cases hrun
    have hit : it ∉ l := fun hm => (List.nodup_cons.1 hnd).1 (List.mem_append_left _ hm)
    refine not_holds (l := l) ?_ ?_
    · show IsList (s₂.setNext it tmp).next s₂.first l
      rw [setNext, next_setIt]
      exact h₂.list.update_of_notMem hit
    · show toInt (s₂.n + 1) ≠ _
      rw [hn₂, toInt, Int.bmod_def]
      omega

/-! ## A node less -/

theorem removeLoop_eq {index : Int} {a x : Ptr} {suf : List Ptr} :
    ∀ {pre : List Ptr} {rounds : Nat} {i : Int} {it : Ptr}, IsList s.next it (pre ++ a :: x :: suf) →
      pre.length < rounds → i + pre.length = index →
      removeLoop s index rounds i it (s.next it) = .ok (s.removeAfter a x, 0) := by
  intro pre
  induction pre with
  | nil =>
    intro rounds i it h hr hi
    obtain ⟨rounds, rfl⟩ := Nat.exists_eq_succ_of_ne_zero (Nat.ne_of_gt hr)
    obtain ⟨rfl, -, h⟩ := isList_cons.1 h
    obtain ⟨hx, hx0, -⟩ := isList_cons.1 h
    rw [removeLoop, hx, if_neg hx0, if_pos (by simpa using hi)]
    unfold removeAfter
    simp only
    split <;> rfl
  | cons y pre ih =>
    intro rounds i it h hr hi
    obtain ⟨rounds, rfl⟩ := Nat.exists_eq_succ_of_ne_zero (Nat.ne_of_gt (Nat.zero_lt_of_lt hr))
    obtain ⟨rfl, -, h⟩ := isList_cons.1 h
    have hne : s.next it ≠ 0 := by
      intro hzero
      have hnil := h.eq_zero_iff.1 hzero
      simp at hnil
    rw [List.length_cons] at hi
    rw [removeLoop, if_neg hne, if_neg (by omega)]
    exact ih h (Nat.lt_of_succ_lt_succ hr) (by omega)

/-- The first of two or more nodes goes. -/
theorem datalistRemove_first {x y : Ptr} (h : s.Lists (x :: y :: l) f) (hlen : (x :: y :: l).length < 2 ^ 31) :
    ∃ s', datalistRemove s 0 = .ok (s', 0) ∧ s'.Rep ((y :: l).map fun z => (s.its z).data) := by
  obtain ⟨hx, hx0, htail⟩ := isList_cons.1 h.list
  obtain ⟨hy, hy0, -⟩ := isList_cons.1 htail
  obtain ⟨hxnot, -⟩ := List.nodup_cons.1 h.nodup
  have hn := h.n_eq hlen
  rw [List.length_cons, List.length_cons] at hn
  have hnext : (s.setNext x (s.next y)).next = update s.next x (s.next y) := next_setIt ..
  have hmap : ((y :: l).map fun z => (s.its z).data) =
      (y :: l).map fun z => ((s.setNext x (s.next y)).its z).data := by simp only [data_setNext]
  rw [hmap]
  refine ⟨_, ?_, free_lists (s := { s.setNext x (s.next y) with first := y }) (f := f) ?_ ?_
    hx0 h.nodup h.lt ?_ ?_ h.brk_pos⟩
  · have hin : ¬ ((0 : Int) ≥ s.n ∨ (0 : Int) < 0 ∨ x = 0) := by
      rw [not_or, not_or]
      exact ⟨by omega, by omega, hx0⟩
    rw [datalistRemove, hx, if_neg hin, if_pos rfl, hy, if_neg hy0]
    rfl
  · show IsList (s.setNext x (s.next y)).next y (y :: l)
    rw [hnext]
    exact (hy ▸ htail).update_of_notMem fun hm => hxnot (List.mem_append_left _ hm)
  · show IsList (s.setNext x (s.next y)).next s.free f
    rw [hnext]
    exact h.free.update_of_notMem fun hm => hxnot (List.mem_append_right _ hm)
  · show s.last = _
    rw [h.last]
    rfl
  · exact h.n_pred (List.length_cons ..)

/-- **`datalist_remove`**, but of the only node. -/
theorem datalistRemove_rep (h : s.Fits ds) {index : Int} (hnot : ¬ (index = 0 ∧ ds.length = 1)) :
    ∃ s' r, datalistRemove s index = .ok (s', r) ∧
      s'.Rep (if index < 0 then ds else ds.eraseIdx index.toNat) := by
  have hrep := h.rep
  obtain ⟨l, f, hl, rfl, hlen, hn⟩ := h.lists
  rw [List.length_map] at hnot
  by_cases hout : index ≥ s.n ∨ index < 0 ∨ s.first = 0
  · refine ⟨s, -1, by rw [datalistRemove, if_pos hout], ?_⟩
    have hsame : (if index < 0 then l.map (fun x => (s.its x).data)
        else (l.map fun x => (s.its x).data).eraseIdx index.toNat) = l.map fun x => (s.its x).data := by
      split
      · rfl
      · rename_i hneg
        apply List.eraseIdx_of_length_le
        rw [List.length_map]
        rcases hout with hge | hlt | hzero
        · omega
        · exact absurd hlt hneg
        · rw [hl.list.eq_zero_iff.1 hzero]
          exact Nat.zero_le _
    rw [hsame]
    exact hrep
  · have hin := hout
    push Not at hin
    rw [if_neg (by omega)]
    by_cases hzero : index = 0
    · subst hzero
      match l, hl, hn, hnot, hlen with
      | [], _, hn, _, _ => exact absurd hn (by simp only [List.length_nil]; omega)
      | [x], _, _, hnot, _ => exact absurd ⟨rfl, rfl⟩ hnot
      | x :: y :: l, hl, _, _, hlen =>
        obtain ⟨s', hrun, hrep'⟩ := datalistRemove_first hl hlen
        exact ⟨s', 0, hrun, hrep'⟩
    · -- the node and the one before it
      obtain ⟨pre, a, x, suf, rfl, hlen⟩ : ∃ pre a x suf, l = pre ++ a :: x :: suf ∧
          (pre.length : Int) + 1 = index := by
        have hk : index.toNat - 1 + 1 < l.length := by omega
        refine ⟨l.take (index.toNat - 1), l[index.toNat - 1], l[index.toNat - 1 + 1],
          l.drop (index.toNat - 1 + 1 + 1), ?_, ?_⟩
        · rw [List.getElem_cons_drop, List.getElem_cons_drop, List.take_append_drop]
        · rw [List.length_take]
          omega
      rw [List.length_append, List.length_cons, List.length_cons] at hn
      refine ⟨s.removeAfter a x, 0, ?_, ?_⟩
      · rw [datalistRemove, if_neg hout, if_neg hzero]
        exact removeLoop_eq hl.list (by omega) (by omega)
      · have herase : ((pre ++ a :: x :: suf).map fun z => (s.its z).data).eraseIdx index.toNat =
            (pre ++ a :: suf).map fun z => (s.its z).data := by
          rw [show pre ++ a :: x :: suf = (pre ++ [a]) ++ x :: suf by simp, List.map_append,
            List.eraseIdx_append_of_length_le (by simp; omega)]
          have hsub : index.toNat - ((pre ++ [a]).map fun z => (s.its z).data).length = 0 := by
            simp only [List.length_map, List.length_append, List.length_singleton]
            omega
          rw [hsub]
          simp
        rw [herase]
        exact removeAfter_rep hl

/-- There is no second node to read. -/
theorem datalistRemove_unsound (h : s.Rep ds) (hlen : ds.length = 1) : datalistRemove s 0 = .fault := by
  obtain ⟨l, f, hl, rfl⟩ := h
  rw [List.length_map] at hlen
  obtain ⟨x, rfl⟩ := List.length_eq_one_iff.1 hlen
  obtain ⟨hx, hx0, hnil⟩ := isList_cons.1 hl.list
  have hn : s.n = 1 := hl.n_eq (by rw [List.length_singleton]; omega)
  have hzero : s.next x = 0 := isList_nil.1 hnil
  have hin : ¬ ((0 : Int) ≥ s.n ∨ (0 : Int) < 0 ∨ x = 0) := by
    rw [not_or, not_or]
    exact ⟨by omega, by omega, hx0⟩
  rw [datalistRemove, hx, if_neg hin, if_pos rfl, hzero, if_pos rfl]

/-! ## A copy -/

/-- The nodes go to the free list, and `n` stays as it is. -/
theorem freeAll_eq : ∀ {l f : List Ptr} {s : Datalist} {rounds : Nat} {it : Ptr}, IsList s.next it l →
    IsList s.next s.free f → (l ++ f).Nodup → (∀ x ∈ l ++ f, x < s.brk) → l.length < rounds →
    ∃ s' f', freeAll rounds it s = .ok s' ∧ IsList s'.next s'.free f' ∧ f'.Nodup ∧
      (∀ x ∈ f', x < s'.brk) ∧ s'.brk = s.brk ∧ s'.n = s.n := by
  intro l
  induction l with
  | nil =>
    intro f s rounds it h hf hnd hlt hr
    obtain ⟨rounds, rfl⟩ := Nat.exists_eq_succ_of_ne_zero (Nat.ne_of_gt hr)
    exact ⟨s, f, by rw [freeAll, if_pos (isList_nil.1 h)], hf, hnd, hlt, rfl, rfl⟩
  | cons x l ih =>
    intro f s rounds it h hf hnd hlt hr
    obtain ⟨rounds, rfl⟩ := Nat.exists_eq_succ_of_ne_zero (Nat.ne_of_gt (Nat.zero_lt_of_lt hr))
    obtain ⟨rfl, hx, h⟩ := isList_cons.1 h
    obtain ⟨hxnot, hnd'⟩ := List.nodup_cons.1 hnd
    have hxl : it ∉ l := fun hm => hxnot (List.mem_append_left _ hm)
    have hxf : it ∉ f := fun hm => hxnot (List.mem_append_right _ hm)
    have hnext : (freeDatalistIterator s it).next = update s.next it s.free := next_setIt ..
    rw [freeAll, if_neg hx]
    refine ih (f := it :: f) (hnext ▸ h.update_of_notMem hxl) ?_ ?_ (fun y hy => ?_)
      (Nat.lt_of_succ_lt_succ hr)
    · rw [hnext]
      exact hf.push hx hxf
    · rw [List.nodup_middle]
      exact hnd
    · apply hlt y
      simp only [List.mem_append, List.mem_cons] at hy ⊢
      tauto

theorem datalistAppend_n (s : Datalist) (m : Int) (data : Ptr) :
    datalistAppend { s with n := m } data = { datalistAppend s data with n := toInt (m + 1) } := by
  unfold datalistAppend allocDatalistIterator
  by_cases hfree : s.free = 0
  · simp only [if_pos hfree]
    by_cases hlast : s.last = 0
    · simp only [setIt, hlast, if_true]
    · simp only [setIt, setNext, hlast, if_false]
  · simp only [if_neg hfree]
    by_cases hlast : s.last = 0
    · simp only [setIt, setNext, hlast, if_true]
      rfl
    · simp only [setIt, setNext, hlast, if_false]
      rfl

theorem datalistAppend_count (s : Datalist) (data : Ptr) : (datalistAppend s data).n = toInt (s.n + 1) := by
  unfold datalistAppend allocDatalistIterator
  by_cases hfree : s.free = 0 <;> by_cases hlast : s.last = 0 <;> simp [hfree, hlast, setIt, setNext]

/-- The appends of a copy, to a list whose `n` counts `k` nodes more than there are. -/
theorem appendAll_rep {src : Datalist} (k : Int) : ∀ {l : List Ptr} {rounds : Nat} {it : Ptr} {s : Datalist}
    {ds : List Ptr}, IsList src.next it l → l.length < rounds → toInt s.n = s.n →
    Rep { s with n := toInt (s.n - k) } ds →
    ∃ s', appendAll src rounds it s = .ok s' ∧ toInt s'.n = s'.n ∧
      Rep { s' with n := toInt (s'.n - k) } (ds ++ l.map fun x => (src.its x).data) := by
  intro l
  induction l with
  | nil =>
    intro rounds it s ds h hr hs hrep
    obtain ⟨rounds, rfl⟩ := Nat.exists_eq_succ_of_ne_zero (Nat.ne_of_gt hr)
    refine ⟨s, by rw [appendAll, if_pos (isList_nil.1 h)], hs, ?_⟩
    simpa using hrep
  | cons x l ih =>
    intro rounds it s ds h hr hs hrep
    obtain ⟨rounds, rfl⟩ := Nat.exists_eq_succ_of_ne_zero (Nat.ne_of_gt (Nat.zero_lt_of_lt hr))
    obtain ⟨rfl, hx, h⟩ := isList_cons.1 h
    have hcount := datalistAppend_count s (src.its it).data
    have hone := datalistAppend_rep hrep (src.its it).data
    have hn : toInt (toInt (s.n - k) + 1) = toInt ((datalistAppend s (src.its it).data).n - k) := by
      rw [hcount, toInt_add, toInt_sub, sub_add_eq_add_sub]
    rw [datalistAppend_n, hn] at hone
    obtain ⟨s', hrun, hs', hrep'⟩ := ih h (Nat.lt_of_succ_lt_succ hr) (by rw [hcount, toInt_toInt]) hone
    refine ⟨s', by rw [appendAll, if_neg hx]; exact hrun, hs', ?_⟩
    rw [List.map_cons, List.append_cons]
    exact hrep'

section
variable {lists : Nat → Datalist} {m : Nat → List Ptr} {dest src : Nat}

/-- **`datalist_copy`** to a list without nodes. -/
theorem datalistCopy_rep (h : ∀ i, (lists i).Rep (m i)) (hnil : m dest = []) :
    ∃ s r, datalistCopy lists dest src = .ok (update lists dest s, r) ∧ s.Rep (m src) := by
  have hdest := h dest
  rw [hnil] at hdest
  obtain ⟨l, f, hl, hmap⟩ := hdest
  obtain rfl : l = [] := List.map_eq_nil_iff.1 hmap.symm
  have hfirst : (lists dest).first = 0 := isList_nil.1 hl.list
  have hn : (lists dest).n = 0 := hl.n
  obtain ⟨l', f', hl', hmap'⟩ := h src
  have hempty : Rep { lists dest with n := toInt ((lists dest).n - 0) } [] := by
    rw [sub_zero, hn, show toInt 0 = 0 from rfl, ← hn]
    exact ⟨[], f, hl, rfl⟩
  obtain ⟨s, hrun, hs, hrep⟩ := appendAll_rep 0 hl'.list hl'.length_lt (by rw [hn]; rfl) hempty
  refine ⟨s, s.n, ?_, ?_⟩
  · unfold datalistCopy
    simp only [hfirst, ne_eq, not_true, if_false, Res.ok_bind, update_eq_self, hrun,
      Res.pure_eq]
  · rw [sub_zero, hs, List.nil_append, ← hmap'] at hrep
    exact hrep

theorem toInt_sub_ne {a : Int} {k : Nat} (hpos : 0 < k) (hlt : k < 2 ^ 31) : toInt (a - k) ≠ toInt a := by
  unfold toInt
  rw [Int.bmod_def, Int.bmod_def]
  omega

/-- The nodes of `dest` still count. -/
theorem datalistCopy_unsound (h : ∀ i, (lists i).Fits (m i)) (hne : m dest ≠ [])
    {lists' : Nat → Datalist} {r : Int} (hrun : datalistCopy lists dest src = .ok (lists', r))
    (ds : List Ptr) : ¬ (lists' dest).Holds ds := by
  obtain ⟨l, f, hl, hmap, hlen, hnum⟩ := (h dest).lists
  have hl0 : l ≠ [] := by
    rintro rfl
    exact hne hmap
  have hfirst : (lists dest).first ≠ 0 := fun hzero => hl0 (hl.list.eq_zero_iff.1 hzero)
  have hpos := List.length_pos_of_ne_nil hl0
  obtain ⟨s, f', hfree, hf', hnd, hlt, hbrk, hn⟩ :=
    freeAll_eq hl.list hl.free hl.nodup hl.lt hl.length_lt
  rw [hnum] at hn
  have hcleared : Rep { s with n := toInt (s.n - l.length), first := 0, last := 0 } [] := by
    rw [hn, sub_self]
    exact ⟨[], f', ⟨isList_nil.2 rfl, hf', hnd, hlt, rfl, rfl, hbrk ▸ hl.brk_pos⟩, rfl⟩
  -- the list that is copied, which has no nodes any more where it is `dest`
  have hsrc : ∃ l', IsList (update lists dest { s with first := 0, last := 0 } src).next
      (update lists dest { s with first := 0, last := 0 } src).first l' ∧
      l'.length < (update lists dest { s with first := 0, last := 0 } src).brk := by
    by_cases hsame : src = dest
    · subst hsame
      rw [update_self]
      exact ⟨[], isList_nil.2 rfl, hbrk ▸ hl.brk_pos⟩
    · rw [update_of_ne hsame]
      obtain ⟨l', f'', hl', -⟩ := (h src).rep
      exact ⟨l', hl'.list, hl'.length_lt⟩
  obtain ⟨l', hlist', hlen'⟩ := hsrc
  obtain ⟨s', happend, hs', l'', f'', hl'', hmap'⟩ :=
    appendAll_rep l.length (s := { s with first := 0, last := 0 }) hlist' hlen'
      (by rw [hn, toInt_of_lt] <;> omega) hcleared
  unfold datalistCopy at hrun
  simp only [hfirst, ne_eq, not_false_eq_true, if_true, hfree, Res.ok_bind, happend, Res.pure_eq] at hrun
  cases hrun
  rw [update_self]
  refine not_holds (l := l'') hl''.list ?_
  -- `n` is ahead by the nodes that were freed
  intro hall
  have hahead : toInt (s'.n - l.length) = toInt l''.length := hl''.n
  rw [hall] at hahead
  exact toInt_sub_ne hpos hlen hahead

end

end Datalist

/-! ## Sequences of calls -/

section
variable {lists : Nat → Datalist} {m : Nat → List Ptr}

theorem update_fits (h : ∀ i, (lists i).Fits (m i)) {i : Nat} {s : Datalist} {ds : List Ptr}
    (hs : s.Rep ds) (hlen : ds.length < 2 ^ 31) (j : Nat) : (update lists i s j).Fits (update m i ds j) := by
  by_cases hj : j = i
  · subst hj
    rw [update_self, update_self]
    exact ⟨hs, hlen⟩
  · rw [update_of_ne hj, update_of_ne hj]
    exact h j

/-- **Step lemma.** A sound call keeps the lists in order. -/
theorem ListOp.run_fits (h : ∀ i, (lists i).Fits (m i)) {op : ListOp} (hop : op.Sound m) :
    ∃ lists', op.run lists = .ok lists' ∧ ∀ i, (lists' i).Fits (listSpec m op i) := by
  cases op with
  | append i data =>
    refine ⟨_, rfl, update_fits h (Datalist.datalistAppend_rep (h i).rep data) ?_⟩
    rw [List.length_append]
    exact hop
  | insert i index data =>
    obtain ⟨hplace, hlen⟩ := hop
    rcases hplace with rfl | ⟨hne, hle⟩
    · obtain ⟨s, hrun, hrep⟩ := Datalist.insertFirst_rep (h i).rep data
      exact ⟨_, by rw [run, hrun]; rfl, update_fits h hrep hlen⟩
    · refine ⟨_, by rw [run, Datalist.datalistInsert_last (h i) hne hle]; rfl, fun j => ?_⟩
      have hindex : (m i).length ≤ index.toNat := by omega
      rw [listSpec, List.take_of_length_le hindex, List.drop_of_length_le hindex]
      refine update_fits h (Datalist.datalistAppend_rep (h i).rep data) ?_ j
      rw [List.length_append]
      exact hlen
  | remove i index =>
    obtain ⟨s, r, hrun, hrep⟩ := Datalist.datalistRemove_rep (h i) hop
    refine ⟨_, by rw [run, hrun]; rfl, fun j => ?_⟩
    by_cases hneg : index < 0
    · rw [if_pos hneg] at hrep
      have hj := update_fits (i := i) h hrep (h i).length j
      rw [update_eq_self] at hj
      rw [listSpec, if_pos hneg]
      exact hj
    · rw [if_neg hneg] at hrep
      rw [listSpec, if_neg hneg]
      exact update_fits h hrep ((List.length_eraseIdx_le ..).trans_lt (h i).length) j
  | removeData i data =>
    obtain ⟨s, r, hrun, hrep⟩ := Datalist.datalistRemoveData_rep (h i).rep data
    exact ⟨_, by rw [run, hrun]; rfl, update_fits h hrep (List.length_erase_le.trans_lt (h i).length)⟩
  | copy dest src =>
    obtain ⟨s, r, hrun, hrep⟩ : ∃ s r, datalistCopy lists dest src = .ok (update lists dest s, r) ∧
        s.Rep (m src) := Datalist.datalistCopy_rep (fun i => (h i).rep) hop
    exact ⟨_, by rw [run, hrun]; rfl, update_fits h hrep (h src).length⟩

/-- No other call does what it makes of lists. -/
theorem ListOp.sound_of_refines (h : ∀ i, (lists i).Fits (m i)) {op : ListOp}
    (hop : op.Refines (lists, m)) : op.Sound m := by
  obtain ⟨lists', hrun, hholds⟩ := hop
  -- a list that has got a node more answers its length
  have hmore : ∀ {i : Nat} {s : Datalist} {ds : List Ptr}, s.Rep ds → ds.length = (m i).length + 1 →
      s.Holds ds → (m i).length + 1 < 2 ^ 31 := fun hs hlen hds => hlen ▸ hs.length_of_holds hds
  cases op with
  | append i data =>
    cases hrun
    have hi := hholds i
    rw [update_self, listSpec, update_self] at hi
    exact hmore (Datalist.datalistAppend_rep (h i).rep data) List.length_append hi
  | insert i index data =>
    obtain ⟨⟨s, r⟩, hinsert, heq⟩ := Res.bind_eq_ok.1 hrun
    cases heq
    have hi := hholds i
    rw [update_self] at hi
    have hplace : index = 0 ∨ m i ≠ [] ∧ (m i).length ≤ index := by
      by_contra hnot
      obtain ⟨hne, hlast⟩ := not_or.1 hnot
      exact Datalist.datalistInsert_unsound (h i) hne hlast hinsert _ hi
    refine ⟨hplace, ?_⟩
    rw [listSpec, update_self] at hi
    rcases hplace with rfl | ⟨hne, hle⟩
    · obtain ⟨s', hrun', hrep⟩ := Datalist.insertFirst_rep (h i).rep data
      cases hrun'.symm.trans hinsert
      exact hmore hrep rfl hi
    · have hindex : (m i).length ≤ index.toNat := by omega
      rw [List.take_of_length_le hindex, List.drop_of_length_le hindex] at hi
      cases (Datalist.datalistInsert_last (h i) hne hle data).symm.trans hinsert
      exact hmore (Datalist.datalistAppend_rep (h i).rep data) List.length_append hi
  | remove i index =>
    rintro ⟨rfl, hlen⟩
    rw [run, Datalist.datalistRemove_unsound (h i).rep hlen, Res.fault_bind] at hrun
    cases hrun
  | removeData i data => trivial
  | copy dest src =>
    by_contra hne
    obtain ⟨⟨lists₁, r⟩, hcopy, heq⟩ := Res.bind_eq_ok.1 hrun
    cases heq
    exact Datalist.datalistCopy_unsound h hne hcopy _ (hholds dest)

theorem run_refines (h : ∀ i, (lists i).Fits (m i)) {ops : List ListOp} :
    Runs.Along ListOp.step ListOp.Refines ops (lists, m) ↔
      Runs.Along (fun m op => .ok (listSpec m op)) ListOp.Sound ops m := by
  induction ops generalizing lists m with
  | nil => exact Iff.rfl
  | cons op ops ih =>
    refine ⟨?_, ?_⟩
    · rintro ⟨hop, hrest⟩
      have hsound := ListOp.sound_of_refines h hop
      refine ⟨hsound, fun m' hm' => ?_⟩
      cases hm'
      obtain ⟨lists', hrun, hfits⟩ := ListOp.run_fits h hsound
      exact (ih hfits).1 (hrest _ (by rw [ListOp.step, hrun]; rfl))
    · rintro ⟨hsound, hrest⟩
      obtain ⟨lists', hrun, hfits⟩ := ListOp.run_fits h hsound
      refine ⟨⟨lists', hrun, fun i => (hfits i).holds⟩, fun s' hs' => ?_⟩
      rw [ListOp.step, hrun] at hs'
      cases hs'
      exact (ih hfits).2 (hrest _ rfl)

end

/-- **`utils/datalist.c`.** From lists that `datalist_init` made, each call of a sequence does to the lists
what it makes of lists, when none inserts between two nodes or behind none, removes the only node by its
index, copies to a list with nodes or makes more nodes than an `int` counts; otherwise one does not. -/
theorem datalistRun_iff (ops : List ListOp) :
    Runs.Along ListOp.step ListOp.Refines ops (fun _ => .init, fun _ => []) ↔
      Runs.Along (fun m op => .ok (listSpec m op)) ListOp.Sound ops fun _ => [] :=
  run_refines fun _ => ⟨Datalist.init_rep, by decide⟩

/-- A node that is inserted between two others is lost. -/
theorem datalistRun_lost : ¬ Runs.Along ListOp.step ListOp.Refines
    [.append 0 7, .append 0 8, .insert 0 1 9] (fun _ => .init, fun _ => []) := by
  rintro ⟨-, h⟩
  obtain ⟨-, h⟩ := h _ rfl
  obtain ⟨⟨lists, hrun, hholds⟩, -⟩ := h _ rfl
  cases hrun
  have heach := (hholds 0).each
  revert heach
  decide

end Utils
