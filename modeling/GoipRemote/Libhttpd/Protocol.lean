import GoipRemote.Lib.Buffer

/-!
# The variables of a request (`_httpd_storeData` and `_httpd_unescape`)

A query is cut into variables at its separators, in place, and each value is decoded over its own bytes.
`storeData_pairs` says what variables a query of well-formed pairs gives; `storeData_sound` says that the
value of a variable that is not empty comes from one segment of the query, whatever the query is.
`unescape_eq_self` says which values the decoder leaves as they are.
-/

namespace Libhttpd

open Buffer CString

/-! ## The variables -/

/-- A variable, with the values that were given for its name later. -/
structure HttpVar where
  name : CString
  value : CString
  nextValue : List CString
  deriving DecidableEq

/-- The string without the blanks at its beginning. -/
def skipBlanks (name : CString) : CString where
  bytes := name.bytes.dropWhile fun b => b = 32 ∨ b = 9
  ne_zero := fun b hb => name.ne_zero b ((List.dropWhile_suffix _).subset hb)

/-- The list from a variable on, with the value put behind those of the name. -/
def addVariable (name value : CString) : List HttpVar → List HttpVar
  | [] => [{ name, value, nextValue := [] }]
  | v :: vars =>
    if v.name = name then { v with nextValue := v.nextValue ++ [value] } :: vars
    else v :: addVariable name value vars

/-- `httpdAddVariable`. -/
def httpdAddVariable (vars : List HttpVar) (name value : CString) : List HttpVar :=
  addVariable (skipBlanks name) value vars

/-- `httpdGetVariableByName`. -/
def httpdGetVariableByName (vars : List HttpVar) (name : CString) : Option HttpVar :=
  vars.find? fun v => v.name = name

/-! ## Decoding a value -/

/-- `_httpd_from_hex`. -/
def fromHex (c : UInt8) : UInt8 :=
  if 48 ≤ c ∧ c ≤ 57 then c - 48 else if 65 ≤ c ∧ c ≤ 70 then c - 65 + 10 else c - 97 + 10

/-- `_httpd_unescape`, with the cells from `q` to `p` and those from `p` to the terminator: what is
written from `q` on. -/
def unescape (between : List UInt8) : List UInt8 → List UInt8
  | [] => []
  | c :: str =>
    if c = 37 then
      match str with
      -- nothing is stored, and `q` moves behind what the cell holds
      | [] => (between ++ [c]).take 1
      | [a] => [fromHex a * 16]
      | a :: b :: str => (fromHex a * 16 + fromHex b) :: unescape ((between ++ [c, a, b]).drop 1) str
    else if c = 43 then 32 :: unescape ((between ++ [c]).drop 1) str
    else c :: unescape ((between ++ [c]).drop 1) str

/-- `_httpd_unescape`, of a pointer that may be null. -/
def httpdUnescape (str : Option (List UInt8)) : CString :=
  match str with
  | some str => ofBuf (unescape [] str)
  | none => ofBuf []

/-! ## Cutting the query -/

/-- The variables so far, and the locals of `_httpd_storeData`: `val` is the string from `val` to `cp`. -/
structure Query where
  vars : List HttpVar
  var : List UInt8
  cp2 : Nat
  val : Option (List UInt8)
  deriving DecidableEq

/-- `tmpVal = _httpd_unescape(val); httpdAddVariable(server, var, tmpVal);` -/
def Query.add (s : Query) : Res (List HttpVar) :=
  if 0 ∈ s.var then .ok (httpdAddVariable s.vars (ofBuf s.var) (httpdUnescape s.val)) else .fault

/-- One byte of the query. -/
def storeByte (s : Query) (c : UInt8) : Res Query :=
  if c = 61 then do
    let var ← store s.var s.cp2 0
    return { s with var, val := some [] }
  else if c = 38 then do
    let vars ← s.add
    return { s with vars, cp2 := 0, val := none }
  else
    match s.val with
    | some val => .ok { s with val := some (val ++ [c]) }
    | none =>
      if c = 46 then do
        let var ← storeAll s.var s.cp2 (bytesOf "_dot_" ++ [0])
        return { s with var, cp2 := s.cp2 + 5 }
      else do
        let var ← store s.var s.cp2 c
        return { s with var, cp2 := s.cp2 + 1 }

/-- `_httpd_storeData`, before the first byte of the query. -/
def Query.init (vars : List HttpVar) : Query where
  vars := vars
  var := List.replicate 50 0
  cp2 := 0
  val := none

/-- `_httpd_storeData`. -/
def httpdStoreData (vars : List HttpVar) (query : List UInt8) : Res (List HttpVar) := do
  let s ← query.foldlM storeByte (.init vars)
  s.add

/-! ## What decoding leaves as it is -/

theorem unescape_length_le (between str : List UInt8) : (unescape between str).length ≤ str.length := by
  fun_induction unescape between str with
  | case1 => simp
  | case2 between => simp
  | case3 between a => simp
  | case4 between a b str ih =>
    simp only [List.length_cons]
    omega
  | case5 between str hc ih => simpa using ih
  | case6 between c str hc hplus ih => simpa using ih

/-- An escape that is not cut short by the end makes the value shorter. -/
theorem unescape_length_lt (between : List UInt8) {str : List UInt8} (h : 37 ∈ str.dropLast) :
    (unescape between str).length < str.length := by
  fun_induction unescape between str with
  | case1 => cases h
  | case2 between => cases h
  | case3 between a => simp
  | case4 between a b str ih =>
    have := unescape_length_le ((between ++ [37, a, b]).drop 1) str
    simp only [List.length_cons]
    omega
  | case5 between str hc ih =>
    cases str with
    | nil => cases h
    | cons d str =>
      rw [List.dropLast_cons_cons, List.mem_cons] at h
      simpa using ih (h.resolve_left (Ne.symm hc))
  | case6 between c str hc hplus ih =>
    cases str with
    | nil => cases h
    | cons d str =>
      rw [List.dropLast_cons_cons, List.mem_cons] at h
      simpa using ih (h.resolve_left (Ne.symm hc))

theorem unescape_cons {c : UInt8} (hc : c ≠ 37) (between str : List UInt8) :
    unescape between (c :: str) =
      (if c = 43 then 32 else c) :: unescape ((between ++ [c]).drop 1) str := by
  rw [unescape.eq_def]
  simp only [if_neg hc]
  split <;> rfl

/-- Where `q` has kept up with `p`, a percent sign at the very end stays. -/
theorem unescape_eq_map {str : List UInt8} (h : 37 ∉ str.dropLast) :
    unescape [] str = str.map fun c => if c = 43 then 32 else c := by
  induction str with
  | nil => rfl
  | cons c str ih =>
    by_cases hc : c = 37
    · cases str with
      | nil =>
        subst hc
        rfl
      | cons d str =>
        rw [List.dropLast_cons_cons, List.mem_cons, not_or] at h
        exact absurd hc.symm h.1
    · have hstr : 37 ∉ str.dropLast := by
        intro hmem
        apply h
        cases str with
        | nil => cases hmem
        | cons d str => exact List.mem_cons_of_mem _ hmem
      rw [unescape_cons hc, List.map_cons, ← ih hstr]
      rfl

/-- Decoding keeps a value exactly when there is nothing to decode in it. -/
theorem unescape_eq_self {str : List UInt8} (hstr : ∀ b ∈ str, b ≠ 0) :
    (ofBuf (unescape [] str)).bytes = str ↔ 43 ∉ str ∧ 37 ∉ str.dropLast := by
  refine ⟨?_, ?_⟩
  · intro h
    have hlen : str.length ≤ (unescape [] str).length := by
      calc str.length = (ofBuf (unescape [] str)).bytes.length := by rw [h]
        _ ≤ (unescape [] str).length := (List.takeWhile_prefix _).length_le
    have hpercent : 37 ∉ str.dropLast := by
      intro hmem
      have := unescape_length_lt [] hmem
      omega
    refine ⟨fun hplus => ?_, hpercent⟩
    rw [unescape_eq_map hpercent] at h
    have hmem : 43 ∈ str.map fun c => if c = 43 then 32 else c :=
      (List.takeWhile_prefix _).subset (h.symm ▸ hplus)
    obtain ⟨c, -, hc⟩ := List.mem_map.1 hmem
    split at hc
    · cases hc
    · contradiction
  · intro ⟨hplus, hpercent⟩
    have hmap : (str.map fun c => if c = 43 then 32 else c) = str.map id :=
      List.map_congr_left fun c hc => if_neg (ne_of_mem_of_not_mem hc hplus)
    rw [unescape_eq_map hpercent, hmap, List.map_id]
    exact ofBuf_bytes hstr

/-! ## One segment of a query -/

/-- A name as it is put into `var`. -/
def dotted (name : List UInt8) : List UInt8 := name.flatMap fun c => if c = 46 then bytesOf "_dot_" else [c]

/-- The bytes of a segment, of which `storeByte` has made the locals. -/
def Query.Reads (s : Query) (segment : List UInt8) : Prop :=
  match s.val with
  | none => 61 ∉ segment ∧ dotted segment <+: s.var ∧ s.cp2 = (dotted segment).length
  | some val => ∃ name signs, segment = name ++ signs ++ val ∧ signs ≠ [] ∧ 61 ∉ val ∧
      dotted name ++ [0] <+: s.var ∧ s.cp2 = (dotted name).length

theorem reads_start {s : Query} (hcp2 : s.cp2 = 0) (hval : s.val = none) : s.Reads [] := by
  unfold Query.Reads
  rw [hval]
  exact ⟨List.not_mem_nil, List.nil_prefix, hcp2⟩

theorem Query.Reads.store {s s' : Query} {segment : List UInt8} {c : UInt8} (h : s.Reads segment)
    (hc : c ≠ 38) (hstore : storeByte s c = .ok s') : s'.Reads (segment ++ [c]) ∧ s'.vars = s.vars := by
  obtain ⟨vars, var, cp2, val⟩ := s
  unfold storeByte at hstore
  by_cases hsign : c = 61
  · subst hsign
    rw [if_pos rfl] at hstore
    obtain ⟨var', hvar, hs'⟩ := Res.bind_eq_ok.1 hstore
    cases hs'
    refine ⟨?_, rfl⟩
    cases val with
    | none =>
      obtain ⟨-, hpre, hlen⟩ := h
      simp only at hlen
      subst hlen
      exact ⟨segment, [61], by simp, by simp, by simp, store_begins hpre hvar, rfl⟩
    | some val =>
      obtain ⟨name, signs, hsegment, -, -, hpre, hlen⟩ := h
      simp only at hlen
      subst hlen
      refine ⟨name, signs ++ val ++ [61], by simp [hsegment], by simp, by simp, ?_, rfl⟩
      exact store_begins ((List.prefix_append _ _).trans hpre) hvar
  · rw [if_neg hsign, if_neg hc] at hstore
    cases val with
    | some val =>
      obtain ⟨name, signs, hsegment, hsigns, hval, hpre, hlen⟩ := h
      cases hstore
      refine ⟨⟨name, signs, by simp [hsegment], hsigns, ?_, hpre, hlen⟩, rfl⟩
      simpa [Ne.symm hsign] using hval
    | none =>
      obtain ⟨hsegment, hpre, hlen⟩ := h
      simp only at hlen
      subst hlen
      have hnone : 61 ∉ segment ++ [c] := by simpa [Ne.symm hsign] using hsegment
      by_cases hdot : c = 46
      · subst hdot
        simp only [if_pos] at hstore
        obtain ⟨var', hvar, hs'⟩ := Res.bind_eq_ok.1 hstore
        cases hs'
        refine ⟨⟨hnone, ?_, ?_⟩, rfl⟩
        · have := storeAll_begins hpre hvar
          rw [← List.append_assoc] at this
          simpa [dotted] using (List.prefix_append _ _).trans this
        · simp [dotted]
          rfl
      · simp only [if_neg hdot] at hstore
        obtain ⟨var', hvar, hs'⟩ := Res.bind_eq_ok.1 hstore
        cases hs'
        refine ⟨⟨hnone, ?_, ?_⟩, rfl⟩
        · simpa [dotted, hdot] using store_begins hpre hvar
        · simp [dotted, hdot]

/-- A segment of a query gives a name a value. -/
def Gives (segment : List UInt8) (name value : CString) : Prop :=
  ∃ text signs val, segment = text ++ signs ++ val ∧ signs ≠ [] ∧ 61 ∉ val ∧
    skipBlanks (ofBuf (dotted text)) = name ∧ value = ofBuf (unescape [] val)

theorem get_addVariable {vars : List HttpVar} {name value name' : CString} {v : HttpVar}
    (h : httpdGetVariableByName (httpdAddVariable vars name value) name' = some v) :
    (∃ v', httpdGetVariableByName vars name' = some v' ∧ v'.value = v.value) ∨
      skipBlanks name = name' ∧ value = v.value := by
  unfold httpdGetVariableByName httpdAddVariable at h
  unfold httpdGetVariableByName
  induction vars with
  | nil =>
    simp only [addVariable, List.find?_singleton, decide_eq_true_eq] at h
    split at h
    · cases h
      exact .inr ⟨‹_›, rfl⟩
    · cases h
  | cons w vars ih =>
    rw [addVariable] at h
    by_cases hw : w.name = name'
    · have hhead : ((w :: vars).find? fun v => v.name = name') = some w := by simp [hw]
      refine .inl ⟨w, hhead, ?_⟩
      split at h
      · simp only [List.find?_cons, hw, decide_true, Option.some.injEq] at h
        rw [← h]
      · simp only [List.find?_cons, hw, decide_true, Option.some.injEq] at h
        rw [h]
    · have htail : ((w :: vars).find? fun v => v.name = name') = vars.find? fun v => v.name = name' := by
        simp [hw]
      rw [htail]
      split at h
      · simp only [List.find?_cons, hw, decide_false] at h
        exact .inl ⟨v, h, rfl⟩
      · simp only [List.find?_cons, hw, decide_false] at h
        exact ih h

/-- The terminator ends the string, whatever there is behind it. -/
theorem ofBuf_of_begins {front buf : List UInt8} (h : front ++ [0] <+: buf) : ofBuf buf = ofBuf front := by
  obtain ⟨rest, rfl⟩ := h
  apply CString.ext
  show (front ++ [0] ++ rest).takeWhile (· ≠ 0) = front.takeWhile (· ≠ 0)
  rw [List.append_assoc, List.takeWhile_append]
  split
  · rename_i hlen
    rw [(List.takeWhile_prefix _).eq_of_length hlen]
    simp
  · rfl

/-- What a segment adds; a segment without a sign gives an empty value, to whatever name `var` holds. -/
theorem Query.Reads.add {s : Query} {segment : List UInt8} {vars : List HttpVar} {name : CString}
    {v : HttpVar} (h : s.Reads segment) (hadd : s.add = .ok vars)
    (hget : httpdGetVariableByName vars name = some v) (hvalue : v.value.bytes ≠ []) :
    (∃ v', httpdGetVariableByName s.vars name = some v' ∧ v'.value = v.value) ∨
      Gives segment name v.value := by
  obtain ⟨vars₀, var, cp2, val⟩ := s
  unfold Query.add at hadd
  split at hadd
  · cases hadd
    rcases get_addVariable hget with hold | ⟨hname, hnew⟩
    · exact .inl hold
    · cases val with
      | none =>
        rw [← hnew] at hvalue
        exact absurd rfl hvalue
      | some val =>
        obtain ⟨text, signs, hsegment, hsigns, hval, hpre, -⟩ := h
        rw [ofBuf_of_begins hpre] at hname
        exact .inr ⟨text, signs, val, hsegment, hsigns, hval, hname, hnew.symm⟩
  · cases hadd

theorem Query.Reads.sound {s : Query} {segment query : List UInt8} {vars : List HttpVar} {name : CString}
    {v : HttpVar} (h : s.Reads segment) (hsegment : 38 ∉ segment)
    (hrun : (query.foldlM storeByte s >>= fun s => s.add) = .ok vars)
    (hget : httpdGetVariableByName vars name = some v) (hvalue : v.value.bytes ≠ []) :
    (∃ v', httpdGetVariableByName s.vars name = some v' ∧ v'.value = v.value) ∨
      ∃ x ∈ (segment ++ query).splitOn 38, Gives x name v.value := by
  -- one byte after the other, with the part of the segment that has been read
  induction query generalizing s segment with
  | nil =>
    rw [List.append_nil, List.splitOn_eq_singleton hsegment]
    rcases h.add hrun hget hvalue with hold | hgives
    · exact .inl hold
    · exact .inr ⟨segment, List.mem_singleton_self _, hgives⟩
  | cons c query ih =>
    rw [List.foldlM_cons, Res.bind_assoc] at hrun
    obtain ⟨s', hstore, hrun⟩ := Res.bind_eq_ok.1 hrun
    by_cases hc : c = 38
    · subst hc
      rw [List.splitOn_append_cons_self_of_not_mem hsegment]
      unfold storeByte at hstore
      rw [if_neg (by decide), if_pos rfl] at hstore
      obtain ⟨vars', hadd, hs'⟩ := Res.bind_eq_ok.1 hstore
      cases hs'
      rcases ih (reads_start rfl rfl) List.not_mem_nil hrun with ⟨v', hget', heq⟩ | ⟨x, hx, hgives⟩
      · rcases h.add hadd hget' (heq ▸ hvalue) with hold | hgives
        · exact .inl (heq ▸ hold)
        · exact .inr ⟨segment, List.mem_cons_self, heq ▸ hgives⟩
      · exact .inr ⟨x, List.mem_cons_of_mem _ hx, hgives⟩
    · obtain ⟨hreads, hvars⟩ := h.store hc hstore
      have hrest := ih hreads (by simpa [Ne.symm hc] using hsegment) hrun
      rw [hvars, List.append_assoc, List.singleton_append] at hrest
      exact hrest

/-- **A value** that is not empty comes from one segment of the query, whatever the query is. -/
theorem storeData_sound {vars vars' : List HttpVar} {query : List UInt8} {name : CString} {v : HttpVar}
    (h : httpdStoreData vars query = .ok vars') (hget : httpdGetVariableByName vars' name = some v)
    (hvalue : v.value.bytes ≠ []) :
    (∃ v', httpdGetVariableByName vars name = some v' ∧ v'.value = v.value) ∨
      ∃ segment ∈ query.splitOn 38, Gives segment name v.value :=
  (reads_start rfl rfl).sound List.not_mem_nil h hget hvalue

/-! ## A query of pairs -/

theorem storeByte_sign (s : Query) :
    storeByte s 61 = store s.var s.cp2 0 >>= fun var => .ok { s with var, val := some [] } := rfl

theorem foldlM_name {name : List UInt8} (hname : ∀ b ∈ name, b ≠ 61 ∧ b ≠ 38 ∧ b ≠ 46) {s : Query}
    (hval : s.val = none) : name.foldlM storeByte s =
      storeAll s.var s.cp2 name >>= fun var => .ok { s with var, cp2 := s.cp2 + name.length } := by
  induction name generalizing s with
  | nil => rfl
  | cons b name ih =>
    obtain ⟨hsign, hamp, hdot⟩ := hname b List.mem_cons_self
    have hbyte : storeByte s b =
        store s.var s.cp2 b >>= fun var => .ok { s with var, cp2 := s.cp2 + 1 } := by
      unfold storeByte
      rw [if_neg hsign, if_neg hamp, hval]
      simp only [if_neg hdot]
      rfl
    rw [List.foldlM_cons, hbyte, storeAll, Res.bind_assoc, Res.bind_assoc]
    cases hstore : store s.var s.cp2 b with
    | ok var =>
      simp only [Res.ok_bind]
      have hrest := @ih (fun c hc => hname c (List.mem_cons_of_mem _ hc))
        { s with var, cp2 := s.cp2 + 1 } hval
      rw [hrest, List.length_cons]
      simp only [Nat.add_assoc, Nat.add_comm 1]
    | exit => rfl
    | fault => rfl

theorem foldlM_value {value : List UInt8} (hvalue : ∀ b ∈ value, b ≠ 61 ∧ b ≠ 38) {s : Query}
    {val : List UInt8} (hval : s.val = some val) :
    value.foldlM storeByte s = .ok { s with val := some (val ++ value) } := by
  induction value generalizing s val with
  | nil =>
    rw [List.append_nil, ← hval]
    rfl
  | cons b value ih =>
    obtain ⟨hsign, hamp⟩ := hvalue b List.mem_cons_self
    have hbyte : storeByte s b = .ok { s with val := some (val ++ [b]) } := by
      unfold storeByte
      rw [if_neg hsign, if_neg hamp, hval]
    rw [List.foldlM_cons, hbyte, Res.ok_bind, ih (fun c hc => hvalue c (List.mem_cons_of_mem _ hc)) rfl]
    simp

/-- A pair that is cut as it was put together. -/
structure Pair where
  name : CString
  value : CString
  name_bytes : ∀ b ∈ name.bytes, b ≠ 61 ∧ b ≠ 38 ∧ b ≠ 46
  name_length : name.bytes.length < 50
  value_bytes : ∀ b ∈ value.bytes, b ≠ 61 ∧ b ≠ 38

/-- The segment of a pair. -/
def Pair.segment (p : Pair) : List UInt8 := p.name.bytes ++ 61 :: p.value.bytes

/-- What a pair adds. -/
def Pair.add (vars : List HttpVar) (p : Pair) : List HttpVar :=
  httpdAddVariable vars p.name (ofBuf (unescape [] p.value.bytes))

theorem foldlM_pair (p : Pair) {s : Query} (hvar : s.var.length = 50) (hcp2 : s.cp2 = 0)
    (hval : s.val = none) : ∃ s', p.segment.foldlM storeByte s = .ok s' ∧ s'.var.length = 50 ∧
      s'.add = .ok (p.add s.vars) := by
  have hlen := p.name_length
  obtain ⟨vars, var, cp2, val⟩ := s
  simp only at hvar hcp2 hval
  subst hcp2 hval
  -- the name, the sign and the value
  have hname : storeAll var 0 p.name.bytes =
      .ok (p.name.bytes ++ var.drop p.name.bytes.length) := by
    have := @storeAll_slice _ var p.name.bytes 0 (by omega)
    rwa [List.take_zero, List.nil_append, Nat.zero_add] at this
  have hsign : store (p.name.bytes ++ var.drop p.name.bytes.length) p.name.bytes.length 0 =
      .ok (p.name.bytes ++ 0 :: var.drop (p.name.bytes.length + 1)) := by
    rw [store_next (by omega)]
    simp
  refine ⟨{ vars := vars
            var := p.name.bytes ++ 0 :: var.drop (p.name.bytes.length + 1)
            cp2 := p.name.bytes.length
            val := some p.value.bytes }, ?_, ?_, ?_⟩
  · rw [Pair.segment, List.foldlM_append, foldlM_name p.name_bytes rfl, Res.bind_assoc]
    simp only [hname, Res.ok_bind, Nat.zero_add]
    rw [List.foldlM_cons, storeByte_sign]
    simp only [hsign, Res.ok_bind]
    rw [foldlM_value p.value_bytes rfl, List.nil_append]
  · simp
    omega
  · unfold Query.add
    rw [if_pos (by simp), ofBuf_append]
    rfl

/-- **A query** of pairs gives the variables of the pairs, one after the other. -/
theorem storeData_pairs (vars : List HttpVar) (p : Pair) (pairs : List Pair) :
    httpdStoreData vars ([38].intercalate ((p :: pairs).map Pair.segment)) =
      .ok ((p :: pairs).foldl Pair.add vars) := by
  have hrun : ∀ s : Query, s.var.length = 50 → s.cp2 = 0 → s.val = none →
      (([38].intercalate ((p :: pairs).map Pair.segment)).foldlM storeByte s >>= fun s => s.add) =
        .ok ((p :: pairs).foldl Pair.add s.vars) := by
    induction pairs generalizing p with
    | nil =>
      intro s hvar hcp2 hval
      obtain ⟨s', hs', -, hadd⟩ := foldlM_pair p hvar hcp2 hval
      simp [hs', hadd]
    | cons q pairs ih =>
      intro s hvar hcp2 hval
      obtain ⟨s', hs', hvar', hadd⟩ := foldlM_pair p hvar hcp2 hval
      have hsep : storeByte s' 38 = .ok { s' with vars := p.add s.vars, cp2 := 0, val := none } := by
        unfold storeByte
        rw [if_neg (by decide), if_pos rfl, hadd]
        rfl
      rw [List.map_cons, List.map_cons, List.intercalate_cons_cons, List.foldlM_append,
        List.foldlM_append, hs', Res.ok_bind, List.foldlM_cons, hsep]
      exact ih q _ hvar' rfl rfl
  exact hrun (.init vars) (by simp [Query.init]) rfl rfl

end Libhttpd
