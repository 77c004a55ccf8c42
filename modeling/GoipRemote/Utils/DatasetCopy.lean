import GoipRemote.Utils.Dataset

/-!
# A copied dataset and its source

`Entries mem d rest`: the names of `d` differ, and its objects, with those at `rest`, are live and apart.
`datasetCopy_answers`: a copy answers what its source does. `destStep_keeps_iff`: a call on the copy leaves the
strings of the source as they were unless it writes another string to where one of them is stored.
-/

namespace Utils

open Function

variable {α : Type} {mem mem' : Mem α} {d d' : List (DatasetIterator α)} {rest : List UInt64}
  {it : DatasetIterator α} {name : CString} {p u : UInt64}

/-! ## Lists of iterators -/

/-- The addresses of the objects. -/
def typed (d : List (DatasetIterator α)) : List UInt64 :=
  (d.filter fun it => it.typeinfo.isSome).map DatasetIterator.u

@[simp] theorem typed_nil : typed ([] : List (DatasetIterator α)) = [] := rfl

@[simp] theorem typed_append (d d' : List (DatasetIterator α)) : typed (d ++ d') = typed d ++ typed d' := by
  rw [typed, List.filter_append, List.map_append]
  rfl

theorem typed_cons (it : DatasetIterator α) (d : List (DatasetIterator α)) :
    typed (it :: d) = if it.typeinfo.isSome then it.u :: typed d else typed d := by
  unfold typed
  rw [List.filter_cons]
  split <;> rfl

theorem mem_typed (hit : it ∈ d) (ht : it.typeinfo ≠ none) : it.u ∈ typed d :=
  List.mem_map_of_mem (List.mem_filter.2 ⟨hit, Option.isSome_iff_ne_none.2 ht⟩)

theorem findByName_some (h : findByName d name = some it) : it ∈ d ∧ it.name = name :=
  ⟨List.mem_of_find?_eq_some h, by simpa using List.find?_some h⟩

theorem findByName_none : findByName d name = none ↔ name ∉ d.map DatasetIterator.name := by
  rw [findByName, List.find?_eq_none]
  simp [eq_comm]

theorem setU_names (name : CString) (u : UInt64) (d : List (DatasetIterator α)) :
    (setU name u d).map DatasetIterator.name = d.map DatasetIterator.name := by
  induction d with
  | nil => rfl
  | cons it d ih =>
    unfold setU
    split
    · rfl
    · rw [List.map_cons, List.map_cons, ih]

/-- The word of an iterator without a type is none of an object. -/
theorem typed_setU (h : ∀ it, findByName d name = some it → it.typeinfo = none) (u : UInt64) :
    typed (setU name u d) = typed d := by
  induction d with
  | nil => rfl
  | cons it d ih =>
    unfold setU
    by_cases hname : it.name = name
    · have ht := h it (List.find?_cons_of_pos (by simpa using hname))
      rw [if_pos hname, typed_cons, typed_cons, ht]
      rfl
    · rw [if_neg hname, typed_cons, typed_cons, ih fun it' hit' => h it' ?_]
      rw [findByName, List.find?_cons_of_neg (by simpa using hname)]
      exact hit'

theorem findByName_append (hnone : findByName d name = none) : findByName (d ++ [it]) name =
    if it.name = name then some it else none := by
  unfold findByName at hnone ⊢
  rw [List.find?_append, hnone, Option.none_or]
  by_cases hname : it.name = name <;> simp [hname]

theorem setU_append (hnone : findByName d name = none) (ti : Option (Typeinfo α)) (v u : UInt64) :
    setU name u (d ++ [⟨name, ti, v⟩]) = d ++ [⟨name, ti, u⟩] := by
  induction d with
  | nil => exact if_pos rfl
  | cons x d ih =>
    obtain ⟨hx, hd⟩ : x.name ≠ name ∧ findByName d name = none := by
      simpa [findByName] using hnone
    rw [List.cons_append, setU, if_neg hx, ih hd]
    rfl

/-! ## What a call keeps -/

/-- Names that differ, and live objects (module doc). -/
structure Entries (mem : Mem α) (d : List (DatasetIterator α)) (rest : List UInt64) : Prop where
  names : (d.map DatasetIterator.name).Nodup
  live : ∀ p ∈ typed d ++ rest, ∃ a, mem p = some (.obj a)
  distinct : (typed d ++ rest).Nodup

theorem Entries.setMem (h : Entries mem d rest) (hm : ∀ p ∈ typed d ++ rest, mem' p = mem p) :
    Entries mem' d rest :=
  ⟨h.names, fun p hp => by rw [hm p hp]; exact h.live p hp, h.distinct⟩

/-- A new string, or another one in place of a string. -/
theorem Entries.setStr (h : Entries mem d rest) (hp : ∀ a, mem p ≠ some (.obj a)) (c : Option (Cell α)) :
    Entries (update mem p c) d rest := by
  apply h.setMem
  intro x hx
  obtain ⟨a, ha⟩ := h.live x hx
  exact update_of_ne (fun heq => hp a (by rw [← heq]; exact ha)) _ _

theorem Entries.setObj (h : Entries mem d rest) (p : UInt64) (a : α) :
    Entries (update mem p (some (.obj a))) d rest := by
  refine ⟨h.names, fun x hx => ?_, h.distinct⟩
  by_cases hxp : x = p
  · exact ⟨a, by rw [hxp, update_self]⟩
  · rw [update_of_ne hxp]
    exact h.live x hx

theorem Entries.names_append (h : Entries mem d rest) (hnone : findByName d name = none)
    (ht : it.name = name) : ((d ++ [it]).map DatasetIterator.name).Nodup := by
  rw [List.map_append, List.map_singleton, List.nodup_append]
  refine ⟨h.names, List.nodup_singleton _, fun a ha b hb => ?_⟩
  intro heq
  rw [heq, List.mem_singleton.1 hb, ht] at ha
  exact findByName_none.1 hnone ha

/-- An address that is not in use is none of an object. -/
theorem Entries.notMem (h : Entries mem d rest) (hp : ∀ a, mem p ≠ some (.obj a)) : p ∉ typed d ++ rest := by
  intro hmem
  obtain ⟨a, ha⟩ := h.live p hmem
  exact hp a ha

/-- The iterator of a name that has none, or is of no type. -/
theorem findOrAlloc_entries (h : Entries mem d rest)
    (hp : ∀ it, findByName d name = some it → it.typeinfo = none) :
    Entries mem (findOrAlloc d name).2 rest ∧ (findOrAlloc d name).1.typeinfo = none ∧
      ∀ u, Entries mem (setU name u (findOrAlloc d name).2) rest := by
  have hset : ∀ {d'}, Entries mem d' rest → (∀ it, findByName d' name = some it → it.typeinfo = none) →
      ∀ u, Entries mem (setU name u d') rest := fun h' ht u =>
    ⟨by rw [setU_names]; exact h'.names, by rw [typed_setU ht]; exact h'.live,
      by rw [typed_setU ht]; exact h'.distinct⟩
  unfold findOrAlloc
  cases hfind : findByName d name with
  | some it => exact ⟨h, hp it hfind, hset h hp⟩
  | none =>
    have htyped : typed (d ++ [⟨name, none, 0⟩]) = typed d := by
      rw [typed_append, typed_cons]
      exact List.append_nil _
    have hnew : Entries mem (d ++ [⟨name, none, 0⟩]) rest := by
      exact ⟨h.names_append hfind rfl, htyped ▸ h.live, htyped ▸ h.distinct⟩
    refine ⟨hnew, rfl, hset hnew fun it hit => ?_⟩
    rw [findByName_append hfind, if_pos rfl] at hit
    cases hit
    rfl

theorem alloc_cases (mem : Mem α) (p : UInt64) (c : Cell α) : mem.alloc p c = .exit ∨
    mem p = none ∧ mem.alloc p c = .ok (update mem p (some c)) := by
  unfold Mem.alloc
  by_cases hp : p = 0 ∨ (mem p).isSome = true
  · exact .inl (if_pos hp)
  · exact .inr ⟨by simpa using fun h => hp (.inr h), if_neg hp⟩

/-- `dataset_insert_string` writes `str` to where the entry has its string `s`. -/
structure Overwrites (mem : Mem α) (d : List (DatasetIterator α)) (name str : CString)
    (it : DatasetIterator α) (s : CString) : Prop where
  find : findByName d name = some it
  ne_zero : it.u ≠ 0
  stored : mem it.u = some (.str s)
  fits : str.bytes.length ≤ s.bytes.length

theorem datasetInsertString_eq {d₁ : List (DatasetIterator α)} {str : CString}
    (hfind : findOrAlloc d name = (it, d₁)) : datasetInsertString mem d name str p =
      isShort mem it.u str >>= fun short =>
        if short then mem.alloc p (.str str) >>= fun mem => .ok (mem, setU name p d₁)
        else .ok (update mem it.u (some (.str str)), d₁) := by
  unfold datasetInsertString
  rw [hfind]
  rfl

/-- A string is written in place, or to new storage. -/
theorem datasetInsertString_cases (h : Entries mem d rest) {str : CString}
    (hp : (DatasetOp.insertString name str p).Proper mem d) :
    (∃ it s, Overwrites mem d name str it s ∧
      datasetInsertString mem d name str p = .ok (update mem it.u (some (.str str)), d)) ∨
    (∀ it s, ¬ Overwrites mem d name str it s) ∧ (datasetInsertString mem d name str p = .exit ∨
      mem p = none ∧ ∃ d', datasetInsertString mem d name str p = .ok (update mem p (some (.str str)), d') ∧
        Entries mem d' rest) := by
  obtain ⟨-, -, hset⟩ := findOrAlloc_entries h fun it hit => (hp it hit).1
  have halloc : isShort mem (findOrAlloc d name).1.u str = .ok true →
      datasetInsertString mem d name str p = .exit ∨
      mem p = none ∧ ∃ d', datasetInsertString mem d name str p = .ok (update mem p (some (.str str)), d') ∧
        Entries mem d' rest := by
    intro hshort
    rw [datasetInsertString_eq (Prod.mk.eta).symm, hshort, Res.ok_bind, if_pos rfl]
    rcases alloc_cases mem p (.str str) with hexit | ⟨hfree, hok⟩
    · exact .inl (by rw [hexit]; rfl)
    · exact .inr ⟨hfree, _, by rw [hok]; rfl, hset p⟩
  cases hfind : findByName d name with
  | none =>
    have hfst : findOrAlloc d name = (⟨name, none, 0⟩, d ++ [⟨name, none, 0⟩]) := by
      rw [findOrAlloc, hfind]
    exact .inr ⟨fun it s ho => (nomatch hfind.symm.trans ho.find), halloc (by rw [hfst]; rfl)⟩
  | some it =>
    have hfst : findOrAlloc d name = (it, d) := by rw [findOrAlloc, hfind]
    obtain ⟨-, hstr⟩ := hp it hfind
    have hsame : ∀ {it' s}, Overwrites mem d name str it' s → it' = it := fun ho =>
      Option.some.inj (ho.find.symm.trans hfind)
    by_cases hzero : it.u = 0
    · refine .inr ⟨fun it' s ho => ho.ne_zero (hsame ho ▸ hzero), halloc ?_⟩
      rw [hfst]
      exact if_pos hzero
    obtain ⟨s, hs⟩ := hstr.resolve_left hzero
    have hshort : isShort mem it.u str = .ok (decide (s.bytes.length < str.bytes.length)) := by
      rw [isShort, if_neg hzero, Mem.readStr, hs]
      rfl
    by_cases hlt : s.bytes.length < str.bytes.length
    · refine .inr ⟨fun it' s' ho => ?_, halloc ?_⟩
      · have hstored := ho.stored
        rw [hsame ho, hs] at hstored
        cases hstored
        exact absurd ho.fits (not_le.2 hlt)
      · rw [hfst, hshort, decide_eq_true hlt]
    · refine .inl ⟨it, s, ⟨hfind, hzero, hs, not_lt.1 hlt⟩, ?_⟩
      rw [datasetInsertString_eq hfst, hshort, decide_eq_false hlt]
      rfl

theorem datasetInsertType_new (h : Entries mem d rest) (hfind : findByName d name = none) (ti : Typeinfo α)
    (p : UInt64) : datasetInsertType mem d name ti p = .exit ∨ mem p = none ∧
      datasetInsertType mem d name ti p = .ok ((update mem p (some (.obj ti.init)), d ++
        [⟨name, some ti, p⟩]), p) ∧
      Entries (update mem p (some (.obj ti.init))) (d ++ [⟨name, some ti, p⟩]) rest := by
  unfold datasetInsertType
  rw [hfind]
  rcases alloc_cases mem p (.obj ti.init) with hexit | ⟨hfree, hok⟩
  · exact .inl (by simp only [hexit, Res.exit_bind])
  · have hnot := h.notMem (p := p) (by rw [hfree]; exact fun _ heq => nomatch heq)
    have htyped : typed (d ++ [⟨name, some ti, p⟩]) ++ rest = typed d ++ p :: rest := by
      rw [typed_append, typed_cons, List.append_assoc]
      rfl
    refine .inr ⟨hfree, by simp only [hok, Res.ok_bind, Res.pure_eq], h.names_append hfind rfl, ?_, ?_⟩
    · intro x hx
      by_cases hxp : x = p
      · exact ⟨ti.init, by rw [hxp, update_self]⟩
      · rw [update_of_ne hxp]
        rw [htyped, List.mem_append, List.mem_cons, or_iff_right (a := x = p) hxp, ← List.mem_append] at hx
        exact h.live x hx
    · rw [htyped, List.nodup_middle]
      exact List.nodup_cons.2 ⟨hnot, h.distinct⟩

theorem datasetInsertType_cases (h : Entries mem d rest) {ti : Typeinfo α}
    (hp : (DatasetOp.insertType name ti p).Proper mem d) :
    (∃ r, datasetInsertType mem d name ti p = .ok ((mem, d), r)) ∨
    datasetInsertType mem d name ti p = .exit ∨ mem p = none ∧
      datasetInsertType mem d name ti p = .ok ((update mem p (some (.obj ti.init)), d ++
        [⟨name, some ti, p⟩]), p) ∧
      Entries (update mem p (some (.obj ti.init))) (d ++ [⟨name, some ti, p⟩]) rest := by
  cases hfind : findByName d name with
  | none => exact .inr (datasetInsertType_new h hfind ti p)
  | some it =>
    obtain ⟨ti', hti'⟩ := Option.ne_none_iff_exists'.1 (hp it hfind)
    refine .inl ⟨if ti'.name = ti.name then it.u else 0, ?_⟩
    unfold datasetInsertType
    rw [hfind]
    simp only [hti']

/-- An iterator is freed, with its object. -/
theorem freeDatasetIterator_ok {pre suf : List (DatasetIterator α)}
    (h : Entries mem (pre ++ it :: suf) rest) :
    ∃ mem', freeDatasetIterator mem it = .ok mem' ∧ Entries mem' (pre ++ suf) rest ∧
      ∀ q, q ∉ typed [it] → mem' q = mem q := by
  have hnames : ((pre ++ suf).map DatasetIterator.name).Nodup :=
    h.names.sublist (((List.sublist_cons_self it suf).append_left pre).map _)
  unfold freeDatasetIterator
  cases ht : it.typeinfo with
  | none =>
    have htyped : typed (pre ++ it :: suf) = typed (pre ++ suf) := by
      rw [typed_append, typed_append, typed_cons, ht]
      rfl
    exact ⟨mem, rfl, ⟨hnames, htyped ▸ h.live, htyped ▸ h.distinct⟩, fun _ _ => rfl⟩
  | some ti =>
    have htyped : typed (pre ++ it :: suf) ++ rest = typed pre ++ it.u :: (typed suf ++ rest) := by
      rw [typed_append, typed_cons, ht, List.append_assoc]
      rfl
    have hrest : typed (pre ++ suf) ++ rest = typed pre ++ (typed suf ++ rest) := by
      rw [typed_append, List.append_assoc]
    have hdistinct := h.distinct
    have hlive := h.live
    rw [htyped] at hlive
    rw [htyped, List.nodup_middle, List.nodup_cons] at hdistinct
    obtain ⟨a, ha⟩ := hlive it.u (by simp)
    refine ⟨update mem it.u none, ?_, ⟨hnames, fun x hx => ?_, ?_⟩, fun q hq => ?_⟩
    · rw [typeFree, Mem.readObj, ha]
      rfl
    · rw [hrest] at hx
      have hne : x ≠ it.u := fun heq => hdistinct.1 (heq ▸ hx)
      rw [update_of_ne hne]
      apply hlive
      simp only [List.mem_append, List.mem_cons] at hx ⊢
      tauto
    · rw [hrest]
      exact hdistinct.2
    · have hne : q ≠ it.u := fun heq => hq (by rw [typed_cons, ht, heq]; exact List.mem_singleton_self _)
      exact update_of_ne hne _ _

theorem findByName_split (h : findByName d name = some it) : ∃ pre suf, d = pre ++ it :: suf ∧
    d.eraseP (fun it => it.name = name) = pre ++ suf := by
  obtain ⟨hname, pre, suf, rfl, hpre⟩ := List.find?_eq_some_iff_append.1 h
  refine ⟨pre, suf, rfl, ?_⟩
  rw [List.eraseP_append_right _ (by simpa using hpre), List.eraseP_cons_of_pos (by simpa using hname)]

theorem datasetRemove_ok (h : Entries mem d rest) (name : CString) :
    ∃ mem' d' r, datasetRemove mem d name = .ok ((mem', d'), r) ∧ Entries mem' d' rest ∧
      ∀ q, q ∉ typed d → mem' q = mem q := by
  unfold datasetRemove
  cases hfind : findByName d name with
  | none => exact ⟨mem, d, -1, rfl, h, fun _ _ => rfl⟩
  | some it =>
    obtain ⟨pre, suf, rfl, herase⟩ := findByName_split hfind
    obtain ⟨mem', hfree, h', hsame⟩ := freeDatasetIterator_ok h
    refine ⟨mem', pre ++ suf, 0, ?_, h', fun q hq => hsame q fun hit => hq ?_⟩
    · simp only [hfree, Res.ok_bind, Res.pure_eq, herase]
    · rw [typed_append, List.mem_append, typed_cons]
      rw [typed_cons, typed_nil] at hit
      split at hit <;> simp_all

/-- The strings that are stored are so again. -/
def StringsKept (mem mem' : Mem α) : Prop := ∀ q s, mem q = some (.str s) → mem' q = some (.str s)

theorem stringsKept_alloc (hfree : mem p = none) (c : Cell α) : StringsKept mem (update mem p (some c)) := by
  intro q s hq
  have hne : q ≠ p := fun heq => by
    rw [heq, hfree] at hq
    cases hq
  rw [update_of_ne hne]
  exact hq

/-- What a call does to the strings that are stored: it keeps them, or overwrites one. -/
theorem DatasetOp.run_cases (h : Entries mem d rest) {op : DatasetOp α} (hp : op.Proper mem d) :
    (op.run mem d = .exit ∨ ∃ mem' d', op.run mem d = .ok (mem', d') ∧ Entries mem' d' rest ∧
      StringsKept mem mem') ∧
      (∀ name str p, op = .insertString name str p → ∀ it s, ¬ Overwrites mem d name str it s) ∨
    ∃ name str p it s, op = .insertString name str p ∧ Overwrites mem d name str it s ∧
      op.run mem d = .ok (update mem it.u (some (.str str)), d) := by
  cases op with
  | insertString name str p =>
    rcases datasetInsertString_cases h hp with ⟨it, s, ho, hrun⟩ | ⟨hno, hexit | ⟨hfree, d', hrun, h'⟩⟩
    · exact .inr ⟨name, str, p, it, s, rfl, ho, hrun⟩
    · exact .inl ⟨.inl hexit, fun _ _ _ hop => by cases hop; exact hno⟩
    · have hnew := h'.setStr (p := p) (by rw [hfree]; exact fun _ heq => nomatch heq) (some (.str str))
      exact .inl ⟨.inr ⟨_, d', hrun, hnew, stringsKept_alloc hfree _⟩,
        fun _ _ _ hop => by cases hop; exact hno⟩
  | insertValue name value =>
    have hentries := (findOrAlloc_entries h hp).2.2 value
    exact .inl ⟨.inr ⟨mem, _, rfl, hentries, fun _ _ hq => hq⟩, fun _ _ _ hop => nomatch hop⟩
  | insertType name ti p =>
    refine .inl ⟨?_, fun _ _ _ hop => nomatch hop⟩
    rcases datasetInsertType_cases h hp with ⟨r, hrun⟩ | hexit | ⟨hfree, hrun, h'⟩
    · exact .inr ⟨mem, d, by simp only [DatasetOp.run, hrun, Res.ok_bind, Res.pure_eq], h, fun _ _ hq => hq⟩
    · exact .inl (by simp only [DatasetOp.run, hexit, Res.exit_bind])
    · exact .inr ⟨_, _, by simp only [DatasetOp.run, hrun, Res.ok_bind, Res.pure_eq],
        h', stringsKept_alloc hfree _⟩
  | remove name =>
    refine .inl ⟨.inr ?_, fun _ _ _ hop => nomatch hop⟩
    obtain ⟨mem', d', r, hrun, h', hsame⟩ := datasetRemove_ok h name
    refine ⟨mem', d', by rw [DatasetOp.run, hrun]; rfl, h', fun q s hq => ?_⟩
    have hnot := h.notMem (p := q) (by rw [hq]; exact fun _ heq => nomatch heq)
    rw [hsame q fun hmem => hnot (List.mem_append_left _ hmem)]
    exact hq

/-- **Step lemma.** A proper call keeps the names and the objects. -/
theorem DatasetOp.run_safe (h : Entries mem d rest) {op : DatasetOp α} (hp : op.Proper mem d) :
    Res.Safe (fun r => Entries r.1 r.2 rest) (op.run mem d) := by
  rcases DatasetOp.run_cases h hp with
    ⟨hexit | ⟨mem', d', hrun, h', -⟩, -⟩ | ⟨name, str, p, it, s, rfl, ho, hrun⟩
  · rw [hexit]
    trivial
  · rw [hrun]
    exact h'
  · rw [hrun]
    exact h.setStr (by rw [ho.stored]; exact fun _ heq => nomatch heq) _

/-! ## Both datasets -/

/-- The names of each differ, and the objects of both are live and apart. -/
structure DatasetsInv (w : Datasets α) : Prop where
  src : Entries w.mem w.src (typed w.dest)
  dest : Entries w.mem w.dest (typed w.src)

theorem Entries.swap {d₁ d₂ : List (DatasetIterator α)} (h : Entries mem d₁ (typed d₂))
    (hnames : (d₂.map DatasetIterator.name).Nodup) : Entries mem d₂ (typed d₁) :=
  ⟨hnames, fun p hp => h.live p (List.perm_append_comm.mem_iff.1 hp),
    List.perm_append_comm.nodup_iff.1 h.distinct⟩

theorem Datasets.init_inv : DatasetsInv (.init : Datasets α) :=
  ⟨⟨List.nodup_nil, fun _ hp => (nomatch hp), List.nodup_nil⟩,
    ⟨List.nodup_nil, fun _ hp => (nomatch hp), List.nodup_nil⟩⟩

theorem Datasets.destStep_safe {w : Datasets α} (h : DatasetsInv w) {op : DatasetOp α}
    (hp : op.Proper w.mem w.dest) : Res.Safe DatasetsInv (w.destStep op) := by
  unfold Datasets.destStep
  rw [Res.safe_bind]
  refine (DatasetOp.run_safe h.dest hp).mono ?_
  intro r hr
  exact ⟨hr.swap h.src.names, hr⟩

theorem Datasets.step_safe {w : Datasets α} (h : DatasetsInv w) {c : DatasetCall α} (hp : c.Proper w) :
    Res.Safe DatasetsInv (w.step c) := by
  cases c with
  | dest op => exact Datasets.destStep_safe h hp
  | src op =>
    show Res.Safe _ (w.srcStep op)
    unfold Datasets.srcStep
    rw [Res.safe_bind]
    refine (DatasetOp.run_safe h.src hp).mono ?_
    intro r hr
    exact ⟨hr, hr.swap h.dest.names⟩

/-! ## The copy -/

theorem freeIterators_ok (h : Entries mem d rest) : ∃ mem', freeIterators mem d = .ok mem' ∧
    Entries mem' [] rest ∧ ∀ q, q ∉ typed d → mem' q = mem q := by
  induction d generalizing mem with
  | nil => exact ⟨mem, rfl, h, fun _ _ => rfl⟩
  | cons it d ih =>
    have hhead : Entries mem ([] ++ it :: d) rest := h
    obtain ⟨mem₁, hfree, h₁, hsame₁⟩ := freeDatasetIterator_ok hhead
    obtain ⟨mem', hrest, h', hsame⟩ := ih h₁
    refine ⟨mem', by rw [freeIterators, hfree]; exact hrest, h', fun q hq => ?_⟩
    have hq' : q ∉ typed [it] ∧ q ∉ typed d := by
      have happend := typed_append [it] d
      rw [List.singleton_append] at happend
      rwa [happend, List.mem_append, not_or] at hq
    rw [hsame q hq'.2, hsame₁ q hq'.1]

/-- What `dataset_copy` makes of an iterator. -/
structure CopyOf (mem mem' : Mem α) (it new : DatasetIterator α) : Prop where
  name : new.name = it.name
  typeinfo : new.typeinfo = it.typeinfo
  u : it.typeinfo = none → new.u = it.u
  object : ∀ ti a, it.typeinfo = some ti → mem it.u = some (.obj a) →
    mem' new.u = some (.obj (ti.copied ti.init a))

theorem CopyOf.mono {mem₀ : Mem α} {new : DatasetIterator α} (h : CopyOf mem mem' it new)
    (hsame : ∀ q, mem₀ q ≠ none → mem q = mem₀ q) : CopyOf mem₀ mem' it new :=
  ⟨h.name, h.typeinfo, h.u, fun ti a ht ha =>
    h.object ti a ht ((hsame _ (by rw [ha]; exact Option.some_ne_none _)).trans ha)⟩

/-- One round of the loop of `dataset_copy`. -/
theorem copyRound_ok (h : Entries mem d rest) (hnone : findByName d it.name = none)
    (hlive : it.typeinfo ≠ none → it.u ∈ rest) (ps : List UInt64) :
    (copyType mem d it ps >>= fun r => datasetInsertData r.1.1 r.1.2 it.name it.u) = .exit ∨
    ∃ mem' new ps', copyType mem d it ps = .ok ps' ∧
      datasetInsertData ps'.1.1 ps'.1.2 it.name it.u = .ok (mem', d ++ [new]) ∧
      Entries mem' (d ++ [new]) rest ∧
      CopyOf mem mem' it new ∧ ∀ q, mem q ≠ none → mem' q = mem q := by
  unfold copyType
  cases ht : it.typeinfo with
  | none =>
    have hfind : findOrAlloc d it.name = (⟨it.name, none, 0⟩, d ++ [⟨it.name, none, 0⟩]) := by
      rw [findOrAlloc, hnone]
    have htyped : typed (d ++ [⟨it.name, none, it.u⟩]) = typed d := by
      rw [typed_append, typed_cons]
      exact List.append_nil _
    refine .inr ⟨mem, ⟨it.name, none, it.u⟩, ((mem, d), ps), rfl, ?_,
      ⟨h.names_append hnone rfl, htyped ▸ h.live, htyped ▸ h.distinct⟩,
      ⟨rfl, ht.symm, fun _ => rfl, fun ti a ht' => nomatch ht.symm.trans ht'⟩, fun _ _ => rfl⟩
    unfold datasetInsertData
    rw [hfind]
    exact congrArg (fun l => Res.ok (mem, l)) (setU_append hnone none 0 it.u)
  | some ti =>
    rcases datasetInsertType_new h hnone ti (ps.headD 0) with hexit | ⟨hfree, hrun, h'⟩
    · exact .inl (by simp only [hexit, Res.exit_bind])
    obtain ⟨a, ha⟩ := h.live it.u (List.mem_append_right _ (hlive (by rw [ht]; exact Option.some_ne_none _)))
    set q := ps.headD 0 with hq
    have hne : it.u ≠ q := fun heq => by
      rw [heq, hfree] at ha
      cases ha
    have hfind : findOrAlloc (d ++ [⟨it.name, some ti, q⟩]) it.name =
        (⟨it.name, some ti, q⟩, d ++ [⟨it.name, some ti, q⟩]) := by
      rw [findOrAlloc, findByName_append hnone, if_pos rfl]
    -- the new object is overwritten by a copy of the old one
    let mem₂ : Mem α := update (update mem q (some (.obj ti.init))) q (some (.obj (ti.copied ti.init a)))
    have hcopy : typeCopy (update mem q (some (.obj ti.init))) ti q it.u = .ok mem₂ := by
      rw [typeCopy, Mem.readObj, Mem.readObj, update_self, update_of_ne hne, ha]
      rfl
    refine .inr ⟨mem₂, ⟨it.name, some ti, q⟩,
      ((update mem q (some (.obj ti.init)), d ++ [⟨it.name, some ti, q⟩]), ps.tail),
      by simp only [hrun, Res.ok_bind, Res.pure_eq], ?_,
      h'.setObj q _, ⟨rfl, ht.symm, fun hno => (nomatch hno.symm.trans ht), fun ti' a' ht' ha' => ?_⟩,
      fun x hx => ?_⟩
    · unfold datasetInsertData
      rw [hfind]
      simp only [hcopy, Res.ok_bind, Res.pure_eq]
    · obtain rfl : ti = ti' := Option.some.inj (ht.symm.trans ht')
      obtain rfl : a = a' := Cell.obj.inj (Option.some.inj (ha.symm.trans ha'))
      exact update_self ..
    · have hxq : x ≠ q := fun heq => hx (heq ▸ hfree)
      show update (update mem q _) q _ x = _
      rw [update_of_ne hxq, update_of_ne hxq]

/-- The loop of `dataset_copy`. -/
theorem copyIterators_ok {its : List (DatasetIterator α)} (h : Entries mem d rest)
    (hnames : ((d ++ its).map DatasetIterator.name).Nodup)
    (hlive : ∀ it ∈ its, it.typeinfo ≠ none → it.u ∈ rest) (ps : List UInt64) :
    copyIterators mem d its ps = .exit ∨
    ∃ mem' news, copyIterators mem d its ps = .ok (mem', d ++ news) ∧ Entries mem' (d ++ news) rest ∧
      List.Forall₂ (CopyOf mem mem') its news ∧ ∀ q, mem q ≠ none → mem' q = mem q := by
  induction its generalizing mem d ps with
  | nil => exact .inr ⟨mem, [], by rw [List.append_nil]; rfl, by rwa [List.append_nil], .nil, fun _ _ => rfl⟩
  | cons it its ih =>
    have hnone : findByName d it.name = none := by
      rw [findByName_none]
      intro hmem
      rw [List.map_append, List.nodup_append] at hnames
      exact hnames.2.2 _ hmem _ List.mem_cons_self rfl
    have hstep : copyIterators mem d (it :: its) ps = (copyType mem d it ps >>= fun r =>
        datasetInsertData r.1.1 r.1.2 it.name it.u >>= fun s => copyIterators s.1 s.2 its r.2) := rfl
    rcases copyRound_ok h hnone (hlive it List.mem_cons_self) ps with
      hexit | ⟨mem₁, new, ps', htype, hdata, h₁, hcopy, hsame₁⟩
    · refine .inl ?_
      rw [hstep]
      cases htype : copyType mem d it ps with
      | ok r =>
        rw [htype] at hexit
        rw [Res.ok_bind, show datasetInsertData r.1.1 r.1.2 it.name it.u = .exit from hexit]
        rfl
      | exit => rfl
      | fault =>
        rw [htype] at hexit
        cases hexit
    · have hnames₁ : ((d ++ [new] ++ its).map DatasetIterator.name).Nodup := by
        have heq : (d ++ [new] ++ its).map DatasetIterator.name =
            (d ++ it :: its).map DatasetIterator.name := by
          simp [hcopy.name]
        rw [heq]
        exact hnames
      rw [hstep, htype, Res.ok_bind, hdata, Res.ok_bind]
      rcases ih h₁ hnames₁ (fun it' hit' => hlive it' (List.mem_cons_of_mem _ hit')) ps'.2 with
        hexit | ⟨mem', news, hrun, h', hcopies, hsame⟩
      · exact .inl hexit
      · have hsame' : ∀ q, mem q ≠ none → mem' q = mem q := fun q hq =>
          (hsame q (by rw [hsame₁ q hq]; exact hq)).trans (hsame₁ q hq)
        have hassoc : d ++ [new] ++ news = d ++ new :: news := by simp
        rw [hassoc] at hrun h'
        refine .inr ⟨mem', new :: news, hrun, h',
          .cons ⟨hcopy.name, hcopy.typeinfo, hcopy.u, fun ti a ht ha => ?_⟩
          (hcopies.imp fun _ _ hc => hc.mono hsame₁), hsame'⟩
        have hnew := hcopy.object ti a ht ha
        rw [hsame new.u (by rw [hnew]; exact Option.some_ne_none _)]
        exact hnew

/-- The entries of a name in two lists that agree. -/
theorem findByName_copy {its news : List (DatasetIterator α)} (h : List.Forall₂ (CopyOf mem mem') its news)
    (name : CString) : findByName its name = none ∧ findByName news name = none ∨
      ∃ it new, findByName its name = some it ∧ findByName news name = some new ∧ CopyOf mem mem' it new := by
  induction h with
  | nil => exact .inl ⟨rfl, rfl⟩
  | @cons it new its news hcopy _ ih =>
    unfold findByName at ih ⊢
    by_cases hname : it.name = name
    · refine .inr ⟨it, new, List.find?_cons_of_pos (by simpa using hname), List.find?_cons_of_pos ?_, hcopy⟩
      simpa [hcopy.name] using hname
    · rw [List.find?_cons_of_neg (by simpa using hname),
        List.find?_cons_of_neg (by simpa [hcopy.name] using hname)]
      exact ih

/-- `dest` answers every name as `src` does. -/
structure Datasets.Answers (w : Datasets α) : Prop where
  hasName : ∀ name, (findByName w.dest name).isSome = (findByName w.src name).isSome
  type : ∀ name, datasetGetType w.dest name = datasetGetType w.src name
  word : ∀ name, datasetGetType w.src name = none → datasetGet w.dest name = datasetGet w.src name ∧
    datasetGetValue w.dest name = datasetGetValue w.src name ∧
    datasetGetString w.mem w.dest name = datasetGetString w.mem w.src name
  object : ∀ name ti a, datasetGetType w.src name = some ti → w.mem (datasetGet w.src name) = some (.obj a) →
    w.mem (datasetGet w.dest name) = some (.obj (ti.copied ti.init a))

theorem Datasets.answers_of_copies {w : Datasets α} {mem : Mem α}
    (hcopies : List.Forall₂ (CopyOf mem w.mem) w.src w.dest) (hsame : ∀ q, mem q ≠ none → w.mem q = mem q)
    (hlive : ∀ q ∈ typed w.src, mem q ≠ none) : w.Answers := by
  refine ⟨fun name => ?_, fun name => ?_, fun name ht => ?_, fun name ti a ht ha => ?_⟩
  · rcases findByName_copy hcopies name with ⟨hsrc, hdest⟩ | ⟨it, new, hsrc, hdest, -⟩ <;> rw [hsrc, hdest]
    rfl
  · unfold datasetGetType
    rcases findByName_copy hcopies name with
      ⟨hsrc, hdest⟩ | ⟨it, new, hsrc, hdest, hcopy⟩ <;> rw [hsrc, hdest]
    exact hcopy.typeinfo
  · have hu : (findByName w.dest name).map DatasetIterator.u =
        (findByName w.src name).map DatasetIterator.u := by
      rcases findByName_copy hcopies name with ⟨hsrc, hdest⟩ | ⟨it, new, hsrc, hdest, hcopy⟩
      · rw [hsrc, hdest]
      · rw [datasetGetType, hsrc] at ht
        rw [hsrc, hdest]
        exact congrArg some (hcopy.u ht)
    have hget : datasetGet w.dest name = datasetGet w.src name := by rw [datasetGet, hu, datasetGet]
    exact ⟨hget, hu, by rw [datasetGetString, hget, datasetGetString]⟩
  · rcases findByName_copy hcopies name with ⟨hsrc, -⟩ | ⟨it, new, hsrc, hdest, hcopy⟩
    · rw [datasetGetType, hsrc] at ht
      cases ht
    · rw [datasetGetType, hsrc] at ht
      rw [datasetGet, hsrc] at ha
      rw [datasetGet, hdest]
      have hmem := hlive it.u (mem_typed (findByName_some hsrc).1 (by
        rw [show it.typeinfo = some ti from ht]
        exact Option.some_ne_none _))
      exact hcopy.object ti a ht ((hsame it.u hmem).symm.trans ha)

theorem Datasets.copy_ok {w : Datasets α} (h : DatasetsInv w) (ps : List UInt64) :
    w.copy ps = .exit ∨ ∃ w₁, w.copy ps = .ok w₁ ∧ DatasetsInv w₁ ∧ w₁.Answers := by
  obtain ⟨mem, hfree, hmem, -⟩ := freeIterators_ok h.dest
  have hnames : (([] ++ w.src).map DatasetIterator.name).Nodup := h.src.names
  have hcopy : w.copy ps =
      copyIterators mem [] w.src ps >>= fun r => .ok { w with mem := r.1, dest := r.2 } := by
    unfold Datasets.copy datasetCopy
    rw [hfree, Res.ok_bind]
    cases copyIterators mem [] w.src ps <;> rfl
  rw [hcopy]
  rcases copyIterators_ok hmem hnames (fun it hit ht => mem_typed hit ht) ps with
    hexit | ⟨mem', news, hrun, h', hcopies, hsame⟩
  · exact .inl (by rw [hexit]; rfl)
  · have hinv : DatasetsInv { w with mem := mem', dest := [] ++ news } := ⟨h'.swap h.src.names, h'⟩
    refine .inr ⟨_, by rw [hrun]; rfl, hinv, Datasets.answers_of_copies hcopies hsame fun q hq => ?_⟩
    obtain ⟨a, ha⟩ := hmem.live q (List.mem_append_right _ hq)
    rw [ha]
    exact Option.some_ne_none _

/-! ## Calls on the copy -/

/-- Every lookup in `src` returns what it returned in `w₁`. -/
structure Datasets.SrcAs (w w₁ : Datasets α) : Prop where
  value : ∀ name, datasetGetValue w.src name = datasetGetValue w₁.src name
  string : ∀ name s, datasetGetString w₁.mem w₁.src name = some s → datasetGetString w.mem w.src name = some s

/-- After the call, every lookup in `src` returns what it returned in `w₁`. -/
def DatasetOp.Keeps (w₁ w : Datasets α) (op : DatasetOp α) : Prop :=
  Res.Safe (fun w' => w'.SrcAs w₁) (w.destStep op)

/-- What the call writes to where `src` has a string in `w₁` is what is there. -/
def DatasetOp.Apart (w₁ w : Datasets α) : DatasetOp α → Prop
  | .insertString name str _ => ∀ it s, Overwrites w.mem w.dest name str it s →
    (∃ n, (datasetGetString w₁.mem w₁.src n).isSome ∧ datasetGet w₁.src n = it.u) → str = s
  | _ => True

theorem datasetGetString_eq {s : CString} : datasetGetString mem d name = some s ↔
    mem (datasetGet d name) = some (.str s) := by
  unfold datasetGetString
  split
  · rename_i s' hs
    rw [hs]
    simp
  · rename_i hno
    exact iff_of_false (fun hc => nomatch hc) fun hc => hno s hc

/-- **Step lemma.** -/
theorem destStep_keeps_iff {w w₁ : Datasets α} (h : DatasetsInv w) (hsrc : w.src = w₁.src)
    (hsame : w.SrcAs w₁)
    {op : DatasetOp α} (hp : op.Proper w.mem w.dest) : op.Keeps w₁ w ↔ op.Apart w₁ w := by
  unfold DatasetOp.Keeps Datasets.destStep
  have hkept : ∀ {mem' dest'}, StringsKept w.mem mem' → Datasets.SrcAs ⟨mem', w.src, dest'⟩ w₁ := fun hk =>
    ⟨hsame.value, fun n s hs => datasetGetString_eq.2 (hk _ _ (datasetGetString_eq.1 (hsame.string n s hs)))⟩
  rcases DatasetOp.run_cases h.dest hp with ⟨hrun, hno⟩ | ⟨name, str, p, it, s, rfl, ho, hrun⟩
  · have hapart : op.Apart w₁ w := by
      cases op with
      | insertString name str p => exact fun it s ho => absurd ho (hno name str p rfl it s)
      | _ => trivial
    refine iff_of_true ?_ hapart
    rcases hrun with hexit | ⟨mem', d', hok, -, hk⟩
    · rw [hexit]
      trivial
    · rw [hok]
      exact hkept hk
  · rw [hrun]
    show Datasets.SrcAs ⟨update w.mem it.u (some (.str str)), w.src, w.dest⟩ w₁ ↔ _
    refine ⟨?_, ?_⟩
    · intro hafter it' s' ho' hshared
      obtain rfl : it = it' := Option.some.inj (ho.find.symm.trans ho'.find)
      obtain ⟨n, hn, hu⟩ := hshared
      obtain ⟨t, ht⟩ := Option.isSome_iff_exists.1 hn
      have hbefore := datasetGetString_eq.1 (hsame.string n t ht)
      have hnow := datasetGetString_eq.1 (hafter.string n t ht)
      rw [hsrc, hu] at hbefore
      simp only [hsrc, hu, update_self] at hnow
      have hstored := ho'.stored.symm.trans hbefore
      cases hstored
      cases hnow
      rfl
    · intro hapart
      by_cases hshared : ∃ n, (datasetGetString w₁.mem w₁.src n).isSome ∧ datasetGet w₁.src n = it.u
      · -- the string is written over itself
        obtain rfl := hapart it s ho hshared
        apply hkept
        intro q t hq
        by_cases hqu : q = it.u
        · rw [hqu, update_self, ← hq, hqu, ho.stored]
        · rw [update_of_ne hqu]
          exact hq
      · refine ⟨hsame.value, fun n t ht => datasetGetString_eq.2 ?_⟩
        have hne : datasetGet w₁.src n ≠ it.u := fun heq => hshared ⟨n, by rw [ht]; rfl, heq⟩
        have hbefore := datasetGetString_eq.1 (hsame.string n t ht)
        rw [hsrc] at hbefore
        simp only [hsrc]
        rw [update_of_ne hne]
        exact hbefore

theorem destRun_keeps_iff {w w₁ : Datasets α} (h : DatasetsInv w) (hsrc : w.src = w₁.src) (hsame : w.SrcAs w₁)
    {ops : List (DatasetOp α)}
    (hp : Runs.Along Datasets.destStep (fun w op => op.Proper w.mem w.dest) ops w) :
    Runs.Along Datasets.destStep (DatasetOp.Keeps w₁) ops w ↔
      Runs.Along Datasets.destStep (DatasetOp.Apart w₁) ops w := by
  induction ops generalizing w with
  | nil => exact Iff.rfl
  | cons op ops ih =>
    obtain ⟨hop, hrest⟩ := hp
    have hstep := destStep_keeps_iff h hsrc hsame hop
    have hnext : ∀ w', w.destStep op = .ok w' → op.Keeps w₁ w →
        (Runs.Along Datasets.destStep (DatasetOp.Keeps w₁) ops w' ↔
          Runs.Along Datasets.destStep (DatasetOp.Apart w₁) ops w') := by
      intro w' hw' hkeeps
      obtain ⟨r, -, hr⟩ := Res.bind_eq_ok.1 hw'
      have hsrc' : w'.src = w₁.src := by
        cases hr
        exact hsrc
      have hsafe : Res.Safe (fun w' => w'.SrcAs w₁) (w.destStep op) := hkeeps
      exact ih ((Datasets.destStep_safe h hop).of_ok hw') hsrc' (hsafe.of_ok hw') (hrest w' hw')
    refine ⟨?_, ?_⟩
    · intro hall
      exact ⟨hstep.1 hall.1, fun w' hw' => (hnext w' hw' hall.1).1 (hall.2 w' hw')⟩
    · intro hall
      have hkeeps := hstep.2 hall.1
      exact ⟨hkeeps, fun w' hw' => (hnext w' hw' hkeeps).2 (hall.2 w' hw')⟩

/-- **`dataset_copy`.** Whatever calls made the two datasets: the copy answers as its source does, and later
calls on it leave every lookup in the source as it was, exactly if none of them writes a string over another
one that the source has. -/
theorem datasetCopy_iff {calls : List (DatasetCall α)} {w w₁ : Datasets α} {ps : List UInt64}
    (hcalls : Runs.Along Datasets.step (fun w c => c.Proper w) calls .init)
    (hw : Runs.run Datasets.step calls .init = .ok w) (hcopy : w.copy ps = .ok w₁)
    {later : List (DatasetOp α)}
    (hlater : Runs.Along Datasets.destStep (fun w op => op.Proper w.mem w.dest) later w₁) :
    w₁.Answers ∧ (Runs.Along Datasets.destStep (DatasetOp.Keeps w₁) later w₁ ↔
      Runs.Along Datasets.destStep (DatasetOp.Apart w₁) later w₁) := by
  have hinv : DatasetsInv w := (Runs.run_safe (I := DatasetsInv) (fun w c h hp => Datasets.step_safe h hp)
    Datasets.init_inv hcalls).of_ok hw
  rcases Datasets.copy_ok hinv ps with hexit | ⟨w', hw', h', hanswers⟩
  · rw [hexit] at hcopy
    cases hcopy
  · obtain rfl : w' = w₁ := Res.ok.inj (hw'.symm.trans hcopy)
    exact ⟨hanswers, destRun_keeps_iff h' rfl ⟨fun _ => rfl, fun _ _ hs => hs⟩ hlater⟩

/-- A source with a string, at address `100`. -/
def oneString : List (DatasetCall Unit) :=
  [.src (.insertString (CString.ofBuf (bytesOf "n")) (CString.ofBuf (bytesOf "ab")) 100)]

theorem oneString_proper : Runs.Along Datasets.step (fun w c => c.Proper w) oneString .init := by
  refine ⟨fun it hit => ?_, fun _ _ => trivial⟩
  cases hit

/-- A longer string is stored elsewhere. -/
theorem datasetCopy_iff_longer : ∃ w w₁, Runs.run Datasets.step oneString .init = .ok w ∧ w.copy [] = .ok w₁ ∧
    w₁.Answers ∧
    (Runs.Along Datasets.destStep (DatasetOp.Keeps w₁)
        [.insertString (CString.ofBuf (bytesOf "n")) (CString.ofBuf (bytesOf "xyz")) 200] w₁ ↔
      Runs.Along Datasets.destStep (DatasetOp.Apart w₁)
        [.insertString (CString.ofBuf (bytesOf "n")) (CString.ofBuf (bytesOf "xyz")) 200] w₁) := by
  obtain ⟨w, hw⟩ : ∃ w, Runs.run Datasets.step oneString .init = .ok w := ⟨_, rfl⟩
  obtain ⟨w₁, hcopy⟩ : ∃ w₁, w.copy [] = .ok w₁ := by
    cases hw
    exact ⟨_, rfl⟩
  refine ⟨w, w₁, hw, hcopy, datasetCopy_iff oneString_proper hw hcopy ⟨fun it hit => ?_, fun _ _ => trivial⟩⟩
  cases hw
  cases hcopy
  cases hit
  exact ⟨rfl, .inr ⟨_, rfl⟩⟩

/-- A shorter one is written over the string of the source. -/
theorem datasetCopy_shared : ∃ w w₁, Runs.run Datasets.step oneString .init = .ok w ∧ w.copy [] = .ok w₁ ∧
    Runs.Along Datasets.destStep (fun w op => op.Proper w.mem w.dest)
      [.insertString (CString.ofBuf (bytesOf "n")) (CString.ofBuf (bytesOf "x")) 200] w₁ ∧
    ¬ Runs.Along Datasets.destStep (DatasetOp.Keeps w₁)
      [.insertString (CString.ofBuf (bytesOf "n")) (CString.ofBuf (bytesOf "x")) 200] w₁ := by
  refine ⟨_, _, rfl, rfl, ⟨fun it hit => ?_, fun _ _ => trivial⟩, fun h => ?_⟩
  · cases hit
    exact ⟨rfl, .inr ⟨_, rfl⟩⟩
  · have hstring := h.1.string (CString.ofBuf (bytesOf "n")) (CString.ofBuf (bytesOf "ab")) rfl
    revert hstring
    decide

end Utils
