import GoipRemote.Lib.SplitOn
import GoipRemote.Utils.Options

/-!
# Repeatable options

`Collected` is what the entry of a repeatable option holds after a sequence of `setopt_arg` calls: the
elements of the arguments, their values, or the number of the calls. An array is allocated for four cells
and looked at for growth only when its count is a multiple of four before an element is added, while the
NULL pointer, or the count, takes a cell too: the fourth element is written behind the block. An element of
no bytes has the length that `add_value` takes for the whole text, and the counter starts from what is left
in its block.

A run of the calls is followed by a fold of the abstract step of one call (`Follows`, `setoptArgs_follows`).
-/

namespace Utils.Options

open Buffer Strtol CString SplitOn

/-- The elements of an argument. -/
def elements (value : Text) : List Text := if value = [] then [] else value.splitOn 44

/-- The elements of what a call has as its argument. -/
def elementsOf : Option CString → List Text
  | none => []
  | some s => elements s.bytes

/-- A list with its terminator; an option without elements has none. -/
def ListIs : Value → List Text → Prop
  | .null, els => els = []
  | .text _, _ => False
  | .list cells, els => els.map some ++ [none] <+: cells

/-- The numbers behind their count. -/
def VectorIs : Vector → List Int → Prop
  | .null, vals => vals = []
  | .longs cells, vals => (vals.length : Int) :: vals <+: cells
  | _, _ => False

/-- A counter. -/
def CounterIs : Vector → Nat → Prop
  | .null, n => n = 0
  | .longs cells, n => cells.head? = some (n : Int)
  | _, _ => False

/-- What a repeatable option holds after its calls. -/
def Collected (argType : UInt32) (args : List (Option CString)) (ent : Optent) : Prop :=
  if argType &&& ~~~ARG_MULTI = ARG_NONE then CounterIs ent.vector args.length
  else if argType &&& ~~~ARG_MULTI = ARG_INT then
    ListIs ent.value (args.flatMap elementsOf) ∧
      ∃ vals, (args.flatMap elementsOf).map integer = vals.map some ∧ VectorIs ent.vector vals
  else ListIs ent.value (args.flatMap elementsOf)

/-- The entry of an option; one that has not been given has an empty one. -/
def optentNow (option : AppOption) (s : State) : Optent :=
  (findOptent option.longName s.optlist).getD (newOptent option)

/-- Every call returns `0`, no call leaves a block, and the entry holds what was collected. -/
def Meets (m : Malloc) (option : AppOption) (args : List (Option CString)) (s : State) : Prop :=
  ∃ s', setoptArgs m option args s = .ok (args.map fun _ => 0, s') ∧
    Collected option.argType args (optentNow option s')

/-! ## Runs -/

/-- One call on the entry does what the abstract step says; where there is none, it fails. -/
def Follows {σ : Type} (m : Malloc) (argType : UInt32) (Rep : σ → Optent → Nat → Prop)
    (Dom : Option CString → Prop) (step : σ → Option CString → Option σ) : Prop :=
  ∀ st arg ent n, Rep st ent n → Dom arg →
    match step st arg with
    | some st' =>
      ∃ ent' n', setMulti m argType arg ent n = .ok (0, ent', n') ∧ ent'.name = ent.name ∧ Rep st' ent' n'
    | none => ∀ r ent' n', setMulti m argType arg ent n = .ok (r, ent', n') → r ≠ 0

/-- The number of the next allocation, behind that of the entry. -/
def allocsNow (option : AppOption) (s : State) : Nat :=
  s.allocs + if (findOptent option.longName s.optlist).isSome then 0 else 1

section
variable {m : Malloc} {option : AppOption} {s : State}

theorem findOptent_cons (ent : Optent) (optlist : List Optent) :
    findOptent ent.name (ent :: optlist) = some ent := by
  simp [findOptent]

theorem findOptent_name {name : Option CString} {optlist : List Optent} {ent : Optent}
    (h : findOptent name optlist = some ent) : ent.name = name := by
  simpa using List.find?_some h

theorem findOptent_put {name : Option CString} {optlist : List Optent} {ent ent' : Optent}
    (h : findOptent name optlist = some ent) (hname : ent'.name = ent.name) :
    findOptent name (putOptent ent' optlist) = some ent' := by
  have hent := findOptent_name h
  induction optlist with
  | nil => cases h
  | cons e optlist ih =>
    unfold putOptent
    by_cases he : e.name = ent'.name
    · rw [if_pos he, ← hent, ← hname, findOptent_cons]
    · have hne : e.name ≠ name := fun heq => he (by rw [heq, hname, hent])
      rw [if_neg he]
      simp only [findOptent, List.find?_cons, hne, decide_false] at h ⊢
      exact ih h

/-- The entry that a call works on. -/
theorem optentOf_eq (hm : ∀ n, m.null n = false) (option : AppOption) (s : State) :
    ∃ s1, optentOf m option s = .ok (optentNow option s, s1) ∧
      findOptent option.longName s1.optlist = some (optentNow option s) ∧ s1.allocs = allocsNow option s := by
  unfold optentOf optentNow allocsNow
  cases h : findOptent option.longName s.optlist with
  | some ent => exact ⟨s, rfl, h, rfl⟩
  | none =>
    refine ⟨{ optlist := newOptent option :: s.optlist, allocs := s.allocs + 1 }, ?_, ?_, rfl⟩
    · simp [hm]
    · exact findOptent_cons (newOptent option) s.optlist

variable {σ : Type} {Rep : σ → Optent → Nat → Prop} {Dom : Option CString → Prop}
  {step : σ → Option CString → Option σ}

/-- One call. -/
theorem setoptArg_follows (hm : ∀ n, m.null n = false) (hmulti : option.argType &&& ARG_MULTI ≠ 0)
    (hfollows : Follows m option.argType Rep Dom step) {st : σ}
    (hrep : Rep st (optentNow option s) (allocsNow option s)) {arg : Option CString} (harg : Dom arg) :
    match step st arg with
    | some st' => ∃ s', setoptArg m option arg s = .ok (0, s') ∧
        Rep st' (optentNow option s') (allocsNow option s')
    | none => ∀ r s', setoptArg m option arg s = .ok (r, s') → r ≠ 0 := by
  obtain ⟨s1, hs1, hfind, hallocs⟩ := optentOf_eq hm option s
  have hcall := hfollows st arg (optentNow option s) (allocsNow option s) hrep harg
  rw [← hallocs] at hcall
  unfold setoptArg
  rw [hs1, Res.ok_bind]
  simp only [hmulti, ne_eq, not_false_eq_true, if_true]
  cases hstep : step st arg with
  | some st' =>
    rw [hstep] at hcall
    obtain ⟨ent', n', hset, hname, hrep'⟩ := hcall
    rw [hset]
    refine ⟨_, rfl, ?_⟩
    unfold optentNow allocsNow
    rw [findOptent_put hfind hname]
    exact hrep'
  | none =>
    rw [hstep] at hcall
    intro r s' hr
    obtain ⟨⟨r', ent', n'⟩, hset, hret⟩ := Res.bind_eq_ok.1 hr
    cases hret
    exact hcall _ ent' n' hset

/-- A sequence of calls. -/
theorem setoptArgs_follows (hm : ∀ n, m.null n = false) (hmulti : option.argType &&& ARG_MULTI ≠ 0)
    (hfollows : Follows m option.argType Rep Dom step) {args : List (Option CString)} {st : σ}
    (hrep : Rep st (optentNow option s) (allocsNow option s)) (hargs : ∀ arg ∈ args, Dom arg) :
    match args.foldlM step st with
    | some st' => ∃ s', setoptArgs m option args s = .ok (args.map fun _ => 0, s') ∧
        Rep st' (optentNow option s') (allocsNow option s')
    | none => ∀ s', setoptArgs m option args s ≠ .ok (args.map fun _ => 0, s') := by
  induction args generalizing st s with
  | nil => exact ⟨s, rfl, hrep⟩
  | cons arg args ih =>
    have hcall := setoptArg_follows hm hmulti hfollows hrep (hargs arg List.mem_cons_self)
    rw [List.foldlM_cons, setoptArgs]
    cases hstep : step st arg with
    | none =>
      rw [hstep] at hcall
      intro s' h
      obtain ⟨⟨r, s1⟩, hr, hrest⟩ := Res.bind_eq_ok.1 h
      obtain ⟨⟨rs, s2⟩, -, hret⟩ := Res.bind_eq_ok.1 hrest
      have hzero : r = 0 := by
        cases hret
        rfl
      exact hcall r s1 hr hzero
    | some st1 =>
      rw [hstep] at hcall
      obtain ⟨s1, hs1, hrep1⟩ := hcall
      have hrest := ih hrep1 fun a ha => hargs a (List.mem_cons_of_mem _ ha)
      simp only [hs1, Res.ok_bind, Option.bind_eq_bind, Option.bind_some]
      cases hfold : args.foldlM step st1 with
      | some st2 =>
        rw [hfold] at hrest
        obtain ⟨s2, hs2, hrep2⟩ := hrest
        exact ⟨s2, by simp [hs2], hrep2⟩
      | none =>
        rw [hfold] at hrest
        intro s' h
        obtain ⟨⟨rs, s2⟩, hr, hret⟩ := Res.bind_eq_ok.1 h
        cases hret
        exact hrest _ hr

/-- What a sequence of calls meets, by what the abstract steps come to. -/
theorem meets_iff_of_follows (hm : ∀ n, m.null n = false) (hmulti : option.argType &&& ARG_MULTI ≠ 0)
    (hfollows : Follows m option.argType Rep Dom step) {args : List (Option CString)} {st : σ}
    (hrep : Rep st (optentNow option s) (allocsNow option s))
    (hargs : ∀ arg ∈ args, Dom arg) {Good : σ → Prop}
    (hgood : ∀ st' ent n, Rep st' ent n → (Collected option.argType args ent ↔ Good st')) :
    Meets m option args s ↔ ∃ st', args.foldlM step st = some st' ∧ Good st' := by
  have hrun := setoptArgs_follows hm hmulti hfollows hrep hargs
  unfold Meets
  cases hfold : args.foldlM step st with
  | none =>
    rw [hfold] at hrun
    refine ⟨?_, ?_⟩
    · rintro ⟨s', hs', -⟩
      exact absurd hs' (hrun s')
    · rintro ⟨st', hst', -⟩
      cases hst'
  | some st' =>
    rw [hfold] at hrun
    obtain ⟨s', hs', hrep'⟩ := hrun
    have hiff := hgood st' _ _ hrep'
    refine ⟨?_, ?_⟩
    · rintro ⟨s1, hs1, hcollected⟩
      rw [hs'] at hs1
      cases hs1
      exact ⟨st', rfl, hiff.1 hcollected⟩
    · rintro ⟨st1, hst1, hst⟩
      cases hst1
      exact ⟨s', hs', hiff.2 hst⟩

end

/-! ## A counter -/

section
variable {m : Malloc}

/-- The counter after a call, with what the first `malloc` finds in its block. -/
def countStep (first : Int) (c : Option Int) (_ : Option CString) : Option (Option Int) :=
  if c.getD first = 2 ^ 63 - 1 then none else some (some (c.getD first + 1))

/-- A counter that is not there yet, or one. -/
def CountRep (k : Nat) : Option Int → Optent → Nat → Prop
  | none, ent, n => ent.vector = .null ∧ n = k
  | some c, ent, _ => ent.vector = .longs [c]

theorem incVector_follows (hm : ∀ n, m.null n = false) {argType : UInt32}
    (hnone : argType &&& ~~~ARG_MULTI = ARG_NONE) (k : Nat) :
    Follows m argType (CountRep k) (fun _ => True) (countStep (m.longs k 0)) := by
  intro c arg ent n hrep _
  have hlong : ∃ n', longAt m ent.vector n = .ok ([c.getD (m.longs k 0)], n') := by
    cases c with
    | none =>
      obtain ⟨hvector, hn⟩ := hrep
      exact ⟨n + 1, by simp [longAt, hvector, hm, hn, region]⟩
    | some c => exact ⟨n, by rw [show ent.vector = .longs [c] from hrep]; rfl⟩
  obtain ⟨n', hlong⟩ := hlong
  have hload : load [c.getD (m.longs k 0)] 0 = .ok (c.getD (m.longs k 0)) := rfl
  have hstore : store [c.getD (m.longs k 0)] 0 (c.getD (m.longs k 0) + 1) =
      .ok [c.getD (m.longs k 0) + 1] := rfl
  unfold setMulti incVector countStep
  rw [if_pos hnone, hlong]
  by_cases hmax : c.getD (m.longs k 0) = 2 ^ 63 - 1
  · rw [if_pos hmax]
    simp [load, hmax]
  · rw [if_neg hmax]
    refine ⟨{ ent with vector := .longs [c.getD (m.longs k 0) + 1] }, n', ?_, rfl, rfl⟩
    simp only [Res.ok_bind, hload, if_neg hmax, hstore, Res.pure_eq]

theorem foldlM_countStep (first c : Int) (args : List (Option CString)) :
    args.foldlM (countStep first) (some c) =
      if ∃ i < args.length, c + i = 2 ^ 63 - 1 then none else some (some (c + args.length)) := by
  induction args generalizing c with
  | nil => simp
  | cons arg args ih =>
    rw [List.foldlM_cons]
    unfold countStep
    by_cases hmax : c = 2 ^ 63 - 1
    · have hex : ∃ i < (arg :: args).length, c + i = 2 ^ 63 - 1 := ⟨0, by simp, by simp [hmax]⟩
      simp only [Option.getD_some, if_pos hmax, if_pos hex]
      rfl
    · have hex : (∃ i < (arg :: args).length, c + i = 2 ^ 63 - 1) ↔
          ∃ i < args.length, c + 1 + i = 2 ^ 63 - 1 := by
        refine ⟨?_, ?_⟩
        · rintro ⟨i, hi, heq⟩
          rw [List.length_cons] at hi
          exact ⟨i - 1, by omega, by omega⟩
        · rintro ⟨i, hi, heq⟩
          refine ⟨i + 1, ?_, ?_⟩
          · rw [List.length_cons]
            omega
          · omega
      have hlen : c + 1 + args.length = c + (arg :: args).length := by
        rw [List.length_cons]
        omega
      simp only [Option.getD_some, if_neg hmax, Option.bind_eq_bind, Option.bind_some, hex, ← hlen]
      exact ih (c + 1)
end

/-! ## A list of texts -/

section
variable {m : Malloc}

/-- What `add_value` is called with for the elements of an argument: the rest of the text for an element of
no bytes, and nothing for one at the end. -/
def stored : List Text → List Text
  | [] => []
  | [e] => if e = [] then [] else [e]
  | e :: f :: es => (if e = [] then [44].intercalate (e :: f :: es) else e) :: stored (f :: es)

theorem nil_notMem_stored (es : List Text) : [] ∉ stored es := by
  induction es with
  | nil => simp [stored]
  | cons e es ih =>
    cases es with
    | nil =>
      unfold stored
      split
      · simp
      · rename_i h
        simpa using Ne.symm h
    | cons f es =>
      unfold stored
      rw [List.mem_cons, not_or]
      refine ⟨?_, ih⟩
      split
      · simp [List.intercalate]
      · rename_i h
        exact Ne.symm h

theorem stored_eq {es : List Text} (h : [] ∉ es) : stored es = es := by
  induction es with
  | nil => rfl
  | cons e es ih =>
    rw [List.mem_cons, not_or] at h
    have he : e ≠ [] := Ne.symm h.1
    cases es with
    | nil => simp [stored, he]
    | cons f es => rw [stored, if_neg he, ih h.2]

/-- The list of an entry, in the block of four cells that it is first given. -/
def ListRep (value : Value) (l : List Text) : Prop :=
  l = [] ∧ value = .null ∨
    l ≠ [] ∧ ∃ rest, value = .list (l.map some ++ none :: rest) ∧ l.length + rest.length = 3

theorem ListRep.length_le {value : Value} {l : List Text} (h : ListRep value l) : l.length ≤ 3 := by
  rcases h with ⟨rfl, -⟩ | ⟨-, rest, -, hlen⟩
  · exact Nat.zero_le 3
  · omega

theorem terminator_eq {α : Type} (l : List α) (rest : List (Option α)) :
    terminator (l.map some ++ none :: rest) = .ok l.length := by
  induction l with
  | nil => rfl
  | cons a l ih =>
    rw [List.map_cons, List.cons_append, terminator, ih]
    rfl

/-- The list before an element is added: four cells, the elements in front. -/
theorem growList_rep (hm : ∀ n, m.null n = false) {value : Value} {l : List Text}
    (h : ListRep value l) (n : Nat) :
    ∃ rest n', growList m value n = .ok (some (l.map some ++ rest, l.length), n') ∧
      l.length + rest.length = 4 := by
  rcases h with ⟨rfl, rfl⟩ | ⟨hne, rest, rfl, hlen⟩
  · exact ⟨region [] 4 (m.ptrs n), n + 1, by simp [growList, hm], by simp [region]⟩
  · refine ⟨none :: rest, n, ?_, by simp; omega⟩
    have hpos := List.length_pos_iff.2 hne
    have hmod : l.length % 4 ≠ 0 := by omega
    simp only [growList, terminator_eq, Res.ok_bind, if_neg hmod, Res.pure_eq]

/-- An element and the terminator behind it, where there is room for both. -/
theorem store_element {l : List Text} {rest : List (Option Text)} (hlen : l.length + rest.length = 4)
    (e : Text) :
    (store (l.map some ++ rest) l.length (some e) >>= fun list => store list (l.length + 1) none) =
      if l.length < 3 then .ok ((l ++ [e]).map some ++ none :: rest.drop 2) else .fault := by
  have hfirst := @store_eq (Option Text) (l.map some) rest (some e)
  rw [List.length_map] at hfirst
  rw [hfirst]
  by_cases hrest : rest = []
  · subst hrest
    rw [if_pos rfl, if_neg (by simp at hlen; omega)]
    rfl
  · have hsecond := @store_eq (Option Text) ((l ++ [e]).map some) (rest.drop 1) none
    have hcells : l.map some ++ some e :: rest.drop 1 = (l ++ [e]).map some ++ rest.drop 1 := by simp
    rw [List.length_map, List.length_append, List.length_singleton] at hsecond
    rw [if_neg hrest, Res.ok_bind, hcells, hsecond, List.drop_drop]
    have hiff : rest.drop 1 = [] ↔ ¬l.length < 3 := by
      have hpos := List.length_pos_iff.2 hrest
      rw [List.drop_eq_nil_iff]
      omega
    by_cases hroom : l.length < 3
    · rw [if_neg (fun h => hiff.1 h hroom), if_pos hroom]
    · rw [if_pos (hiff.2 hroom), if_neg hroom]

/-- `add_value`: the fourth element leaves the block. -/
theorem addValue_rep (hm : ∀ n, m.null n = false) {ent : Optent} {l : List Text} (h : ListRep ent.value l)
    (value : Text) (len n : Nat) : ∃ value' n', addValue m value len ent n =
      (if l.length < 3 then .ok (0, { ent with value := value' }, n') else .fault) ∧
      (l.length < 3 → ListRep value' (l ++ [value.take (if len = 0 then value.length else len)])) := by
  obtain ⟨rest, n1, hgrow, hlen⟩ := growList_rep hm h n
  have hstore := store_element hlen (value.take (if len = 0 then value.length else len))
  refine ⟨.list ((l ++ [value.take (if len = 0 then value.length else len)]).map some ++ none :: rest.drop 2),
    n1 + 1, ?_, ?_⟩
  · unfold addValue
    simp only [hgrow, Res.ok_bind, hm, Bool.false_eq_true, if_false]
    rw [← Res.bind_assoc, hstore]
    split <;> rfl
  · intro hroom
    refine .inr ⟨by simp, _, rfl, ?_⟩
    simp
    omega

/-- `parse_list` at an element that is not the last, and at the last. -/
theorem parseList_cons {e : Text} (he : 44 ∉ e) (rest : Text) :
    parseList (e ++ 44 :: rest) 44 = (e.length, rest) := by
  have htake : (e ++ 44 :: rest).takeWhile (· ≠ 44) = e := by
    rw [List.takeWhile_append_of_pos]
    · simp
    · intro b hb
      simpa using ne_of_mem_of_not_mem hb he
  unfold parseList
  simp only [htake]
  simp

theorem parseList_last {e : Text} (he : 44 ∉ e) : parseList e 44 = (e.length, []) := by
  have htake : e.takeWhile (· ≠ 44) = e := by
    refine List.takeWhile_eq_self_iff.2 fun b hb => ?_
    simpa using ne_of_mem_of_not_mem hb he
  unfold parseList
  simp only [htake]
  simp

/-- One round of the loop. -/
theorem stringLoop_cons (hm : ∀ n, m.null n = false) {ent : Optent} {l : List Text} (h : ListRep ent.value l)
    {value np x : Text} (hvalue : value ≠ []) {len : Nat} (hparse : parseList value 44 = (len, np))
    (hx : value.take (if len = 0 then value.length else len) = x) (fuel n : Nat) :
    (l.length < 3 → ∃ value' n', ListRep value' (l ++ [x]) ∧
      stringLoop m (fuel + 1) value ent n = stringLoop m fuel np { ent with value := value' } n') ∧
    (¬l.length < 3 → stringLoop m (fuel + 1) value ent n = .fault) := by
  obtain ⟨value', n', hadd, hrep⟩ := addValue_rep hm h value len n
  rw [hx] at hrep
  rw [stringLoop, if_neg hvalue, hparse, hadd]
  refine ⟨?_, ?_⟩
  · intro hroom
    rw [if_pos hroom]
    exact ⟨value', n', hrep hroom, rfl⟩
  · intro hroom
    rw [if_neg hroom]
    rfl

/-- The loop over the elements of a text. -/
theorem stringLoop_rep (hm : ∀ n, m.null n = false) {es : List Text} (hes : ∀ e ∈ es, 44 ∉ e) {ent : Optent}
    {l : List Text} (h : ListRep ent.value l) (n : Nat) {fuel : Nat}
    (hfuel : ([44].intercalate es).length < fuel) :
    ∃ value' n', stringLoop m fuel ([44].intercalate es) ent n =
      (if l.length + (stored es).length ≤ 3 then .ok ({ ent with value := value' }, n') else .fault) ∧
      (l.length + (stored es).length ≤ 3 → ListRep value' (l ++ stored es)) := by
  have hlen := h.length_le
  induction es generalizing ent l n fuel with
  | nil =>
    obtain ⟨fuel, rfl⟩ := Nat.exists_eq_succ_of_ne_zero (Nat.ne_of_gt hfuel)
    refine ⟨ent.value, n, ?_, ?_⟩
    · rw [if_pos (by simpa [stored] using hlen)]
      rfl
    · intro _
      simpa [stored] using h
  | cons e es ih =>
    obtain ⟨fuel, rfl⟩ := Nat.exists_eq_succ_of_ne_zero (Nat.ne_of_gt (Nat.zero_lt_of_lt hfuel))
    have he := hes e List.mem_cons_self
    cases es with
    | nil =>
      have htext : [44].intercalate [e] = e := by simp [List.intercalate]
      rw [htext] at hfuel ⊢
      by_cases hnil : e = []
      · subst hnil
        refine ⟨ent.value, n, ?_, ?_⟩
        · rw [stringLoop, if_pos rfl, if_pos (by simpa [stored] using hlen)]
        · intro _
          simpa [stored] using h
      · have hpos := List.length_pos_iff.2 hnil
        have hx : e.take (if e.length = 0 then e.length else e.length) = e := by simp
        obtain ⟨hadds, hfaults⟩ := stringLoop_cons hm h hnil (parseList_last he) hx fuel n
        have hstored : stored [e] = [e] := by simp [stored, hnil]
        rw [hstored, List.length_singleton]
        by_cases hroom : l.length < 3
        · obtain ⟨value', n', hrep, hloop⟩ := hadds hroom
          obtain ⟨fuel, rfl⟩ := Nat.exists_eq_succ_of_ne_zero (show fuel ≠ 0 by omega)
          refine ⟨value', n', ?_, fun _ => hrep⟩
          rw [hloop, if_pos (show l.length + 1 ≤ 3 by omega), stringLoop, if_pos rfl]
        · refine ⟨ent.value, n, ?_, fun hle => absurd hle (by omega)⟩
          rw [hfaults hroom, if_neg (by omega)]
    | cons f es =>
      have htext : [44].intercalate (e :: f :: es) = e ++ 44 :: [44].intercalate (f :: es) := by
        simp [List.intercalate]
      have hne : e ++ 44 :: [44].intercalate (f :: es) ≠ [] := by simp
      have hx : (e ++ 44 :: [44].intercalate (f :: es)).take (if e.length = 0 then
          (e ++ 44 :: [44].intercalate (f :: es)).length else e.length) =
          if e = [] then [44].intercalate (e :: f :: es) else e := by
        rw [htext]
        by_cases hnil : e = []
        · simp [hnil]
        · simp [hnil]
      rw [htext] at hfuel ⊢
      obtain ⟨hadds, hfaults⟩ := stringLoop_cons hm h hne (parseList_cons he _) hx fuel n
      by_cases hroom : l.length < 3
      · obtain ⟨value1, n1, hrep, hloop⟩ := hadds hroom
        have hlen1 : (l ++ [if e = [] then [44].intercalate (e :: f :: es) else e]).length ≤ 3 := by
          rw [List.length_append, List.length_singleton]
          omega
        have hfuel1 : ([44].intercalate (f :: es)).length < fuel := by
          simp only [List.length_append, List.length_cons] at hfuel
          omega
        obtain ⟨value2, n2, hrest, hrep2⟩ :=
          @ih (fun a ha => hes a (List.mem_cons_of_mem _ ha)) { ent with value := value1 } _ hrep n1 _
            hfuel1 hlen1
        have hcount : (l ++ [if e = [] then [44].intercalate (e :: f :: es) else e]).length +
            (stored (f :: es)).length = l.length + (stored (e :: f :: es)).length := by
          simp only [stored, List.length_append, List.length_cons, List.length_nil]
          omega
        refine ⟨value2, n2, ?_, ?_⟩
        · rw [hloop, hrest, hcount]
        · rw [hcount] at hrep2
          intro hle
          simpa [stored] using hrep2 hle
      · refine ⟨ent.value, n, ?_, fun hle => absurd hle ?_⟩
        · rw [hfaults hroom, if_neg]
          rw [stored, List.length_cons]
          omega
        · rw [stored, List.length_cons]
          omega

/-! ## What was collected -/

/-- The elements after a call, as long as there is room for them and for their terminator. -/
def collectStep (fits : Option CString → Prop) [DecidablePred fits] (f : Option CString → List Text)
    (l : List Text)
    (arg : Option CString) : Option (List Text) :=
  if fits arg ∧ l.length + (f arg).length ≤ 3 then some (l ++ f arg) else none

theorem foldlM_collectStep (fits : Option CString → Prop) [DecidablePred fits]
    (f : Option CString → List Text)
    (args : List (Option CString)) (l : List Text) (hl : l.length ≤ 3) :
    args.foldlM (collectStep fits f) l =
      if (∀ arg ∈ args, fits arg) ∧ l.length + (args.flatMap f).length ≤ 3 then some (l ++ args.flatMap f)
      else none := by
  induction args generalizing l with
  | nil => simp [hl]
  | cons arg args ih =>
    rw [List.foldlM_cons, List.flatMap_cons]
    by_cases h : fits arg ∧ l.length + (f arg).length ≤ 3
    · have hrest := ih (l ++ f arg) (by rw [List.length_append]; exact h.2)
      rw [collectStep, if_pos h, Option.bind_eq_bind, Option.bind_some, hrest]
      simp only [List.length_append, List.append_assoc, List.forall_mem_cons, h.1, true_and, Nat.add_assoc]
    · rw [collectStep, if_neg h, if_neg]
      · rfl
      · rintro ⟨hfits, hlen⟩
        refine h ⟨hfits arg List.mem_cons_self, ?_⟩
        rw [List.length_append] at hlen
        omega

theorem foldlM_collect (fits : Option CString → Prop) [DecidablePred fits] (f : Option CString → List Text)
    (args : List (Option CString)) (l : List Text) : args.foldlM (collectStep fits f) [] = some l ↔
      ((∀ arg ∈ args, fits arg) ∧ (args.flatMap f).length ≤ 3) ∧ l = args.flatMap f := by
  rw [foldlM_collectStep fits f args [] (Nat.zero_le 3)]
  simp [eq_comm]

theorem elements_intercalate {value : Text} {es : List Text} (h : elements value = es) :
    [44].intercalate es = value := by
  subst h
  unfold elements
  split
  · rename_i hnil
    simp [hnil, List.intercalate]
  · exact List.intercalate_splitOn 44

theorem of_mem_elements {value e : Text} (h : e ∈ elements value) : 44 ∉ e ∧ ∀ b ∈ e, b ∈ value := by
  unfold elements at h
  split at h
  · cases h
  · obtain ⟨hsep, hinfix⟩ := of_mem_splitOn h
    exact ⟨hsep, fun b hb => hinfix.subset hb⟩

theorem listIs_iff {value : Value} {l : List Text} (h : ListRep value l) (els : List Text) :
    ListIs value els ↔ els = l := by
  rcases h with ⟨rfl, rfl⟩ | ⟨-, rest, rfl, -⟩
  · rfl
  · unfold ListIs
    induction els generalizing l with
    | nil => cases l <;> simp
    | cons e els ih => cases l <;> simp_all

/-- What is stored for the arguments is their elements, as long as none of these is empty. -/
theorem flatMap_stored_iff (args : List (Option CString)) :
    args.flatMap elementsOf = args.flatMap (fun arg => stored (elementsOf arg)) ↔
      [] ∉ args.flatMap elementsOf := by
  refine ⟨?_, ?_⟩
  · intro heq
    rw [heq, List.mem_flatMap]
    rintro ⟨arg, -, harg⟩
    exact nil_notMem_stored _ harg
  · intro hne
    refine List.flatMap_congr fun arg harg => (stored_eq ?_).symm
    exact fun hmem => hne (List.mem_flatMap.2 ⟨arg, harg, hmem⟩)

/-- A call for a text option. -/
theorem stringLoop_follows (hm : ∀ n, m.null n = false) {argType : UInt32}
    (hnone : argType &&& ~~~ARG_MULTI ≠ ARG_NONE) (hint : argType &&& ~~~ARG_MULTI ≠ ARG_INT) :
    Follows m argType (fun l ent _ => ListRep ent.value l) (fun arg => arg.isSome)
      (collectStep (fun _ => True) fun arg => stored (elementsOf arg)) := by
  intro l arg ent n hrep harg
  obtain ⟨s, rfl⟩ := Option.isSome_iff_exists.1 harg
  obtain ⟨value', n', hloop, hrep'⟩ := stringLoop_rep hm (fun e he => (of_mem_elements he).1) hrep n
    (show ([44].intercalate (elements s.bytes)).length < s.bytes.length + 1 by
      rw [elements_intercalate rfl]
      exact Nat.lt_succ_self _)
  rw [elements_intercalate rfl] at hloop
  unfold setMulti collectStep
  simp only [if_neg hnone, if_neg hint, hloop, elementsOf, true_and]
  by_cases hroom : l.length + (stored (elements s.bytes)).length ≤ 3
  · rw [if_pos hroom, if_pos hroom]
    exact ⟨{ ent with value := value', vector := .value }, n', rfl, rfl, hrep' hroom⟩
  · rw [if_neg hroom, if_neg hroom]
    simp

end

end Utils.Options
