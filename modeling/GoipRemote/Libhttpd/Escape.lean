import GoipRemote.Libhttpd.Protocol

/-!
# Escaping a value (`_httpd_escape` and `httpdUrlEncode`)

A first pass over the string counts what its escape needs, and a second one writes it. `urlEncode_ok` says
that the count is exact, and `urlEncode_unescape` that the decoder gives every string back.
`storeData_form` puts the two together: the values of a form come back from its query.
-/

namespace Libhttpd

open Buffer CString

/-! ## The code -/

/-- `isAcceptable`. -/
def isAcceptable : List UInt8 :=
  [7, 0, 0, 0, 0, 0, 0, 0, 0, 0, 7, 0, 0, 7, 7, 7,
    7, 7, 7, 7, 7, 7, 7, 7, 7, 7, 0, 0, 0, 0, 0, 0,
    7, 7, 7, 7, 7, 7, 7, 7, 7, 7, 7, 7, 7, 7, 7, 7,
    7, 7, 7, 7, 7, 7, 7, 7, 7, 7, 7, 0, 0, 0, 0, 7,
    0, 7, 7, 7, 7, 7, 7, 7, 7, 7, 7, 7, 7, 7, 7, 7,
    7, 7, 7, 7, 7, 7, 7, 7, 7, 7, 7, 0, 0, 0, 0, 0]

/-- `ACCEPTABLE`, with the mask `URL_XPALPHAS`. -/
def acceptable (a : UInt8) : Bool :=
  32 ≤ a ∧ a < 128 ∧ isAcceptable.getD (a.toNat - 32) 0 &&& 2 ≠ 0

/-- `hex`. -/
def hex : List UInt8 := bytesOf "0123456789ABCDEF"

/-- `_httpd_escape`, what it writes for one byte. -/
def escapeByte (a : UInt8) : List UInt8 :=
  if acceptable a then [a] else [37, hex.getD (a >>> 4).toNat 0, hex.getD (a &&& 15).toNat 0]

/-- `_httpd_escape`, its first loop. -/
def unacceptable (str : List UInt8) : Nat :=
  str.foldl (fun n a => if acceptable a then n else n + 2) 0

/-- `_httpd_escape`, its second loop, with `q` as an index of `result`. -/
def escapeLoop (result : List UInt8) (q : Nat) : List UInt8 → Res (List UInt8 × Nat)
  | [] => .ok (result, q)
  | a :: str => do
    let result ← storeAll result q (escapeByte a)
    escapeLoop result (q + (escapeByte a).length) str

/-- `_httpd_escape`, with whether `malloc` has memory: the block is cleared before the test. -/
def httpdEscape (malloc : Bool) (str : CString) : Res (List UInt8) :=
  if malloc then do
    let result := List.replicate (str.bytes.length + unacceptable str.bytes + 1) 0
    let (result, q) ← escapeLoop result 0 str.bytes
    store result q 0
  else .fault

/-- `httpdUrlEncode`. -/
def httpdUrlEncode (malloc : Bool) (str : CString) : Res (List UInt8) := do
  let new ← httpdEscape malloc str
  if 0 ∈ new then
    return (ofBuf new).bytes.map (fun c => if c = 32 then 43 else c) ++ new.drop (ofBuf new).bytes.length
  else .fault

/-! ## One byte -/

/-- The two digits are those of the byte. -/
theorem fromHex_hex (a : UInt8) :
    fromHex (hex.getD (a >>> 4).toNat 0) * 16 + fromHex (hex.getD (a &&& 15).toNat 0) = a :=
  @forall_byte (fun a => fromHex (hex.getD (a >>> 4).toNat 0) * 16 +
    fromHex (hex.getD (a &&& 15).toNat 0) = a) (by decide +kernel) a

theorem acceptable_ne (a : UInt8) : acceptable a → a ≠ 37 ∧ a ≠ 43 := by
  revert a
  exact forall_byte (by decide +kernel)

/-- Nothing that separates, and no terminator. -/
theorem escapeByte_ne (a : UInt8) : ∀ b ∈ escapeByte a, b ≠ 0 ∧ b ≠ 38 ∧ b ≠ 43 ∧ b ≠ 61 := by
  have hall : (escapeByte a).all fun b => b ≠ 0 ∧ b ≠ 38 ∧ b ≠ 43 ∧ b ≠ 61 :=
    @forall_byte (fun a => (escapeByte a).all fun b => b ≠ 0 ∧ b ≠ 38 ∧ b ≠ 43 ∧ b ≠ 61)
      (by decide +kernel) a
  intro b hb
  exact of_decide_eq_true (List.all_eq_true.1 hall b hb)

theorem escapeByte_length (a : UInt8) : (escapeByte a).length = if acceptable a then 1 else 3 := by
  unfold escapeByte
  split <;> rfl

theorem unacceptable_cons (a : UInt8) (str : List UInt8) :
    unacceptable (a :: str) = (if acceptable a then 0 else 2) + unacceptable str := by
  have hfrom : ∀ (str : List UInt8) (n : Nat),
      str.foldl (fun n a => if acceptable a then n else n + 2) n = n + unacceptable str := by
    intro str
    induction str with
    | nil => intro n; rfl
    | cons b str ih =>
      intro n
      unfold unacceptable
      rw [List.foldl_cons, List.foldl_cons, ih, ih]
      split <;> omega
  conv_lhs => unfold unacceptable
  rw [List.foldl_cons, hfrom]

/-! ## The buffer -/

/-- The first loop counts what the second one writes. -/
theorem length_flatMap_escapeByte (str : List UInt8) :
    (str.flatMap escapeByte).length = str.length + unacceptable str := by
  induction str with
  | nil => rfl
  | cons a str ih =>
    rw [List.flatMap_cons, List.length_append, ih, escapeByte_length, unacceptable_cons, List.length_cons]
    split <;> omega

theorem escapeLoop_eq {front rest : List UInt8} (str : List UInt8)
    (h : (str.flatMap escapeByte).length ≤ rest.length) :
    escapeLoop (front ++ rest) front.length str =
      .ok (front ++ str.flatMap escapeByte ++ rest.drop (str.flatMap escapeByte).length,
        (front ++ str.flatMap escapeByte).length) := by
  induction str generalizing front rest with
  | nil => simp [escapeLoop]
  | cons a str ih =>
    rw [List.flatMap_cons, List.length_append] at h
    rw [escapeLoop, storeAll_ok (by omega), Res.ok_bind, ← List.length_append,
      ih (by rw [List.length_drop]; omega)]
    simp [List.append_assoc]

theorem httpdEscape_eq (str : CString) :
    httpdEscape true str = .ok (str.bytes.flatMap escapeByte ++ [0]) := by
  have hlen := length_flatMap_escapeByte str.bytes
  have hloop := @escapeLoop_eq [] (List.replicate (str.bytes.length + unacceptable str.bytes + 1) 0)
    str.bytes (by rw [List.length_replicate]; omega)
  rw [List.nil_append, List.length_nil] at hloop
  rw [List.drop_replicate, hlen, Nat.add_sub_cancel_left, List.replicate_one, List.nil_append] at hloop
  unfold httpdEscape
  simp only [if_true, hloop, Res.ok_bind]
  rw [store_eq]
  simp

theorem ne_zero_of_escaped {str : List UInt8} {b : UInt8} (hb : b ∈ str.flatMap escapeByte) : b ≠ 0 := by
  obtain ⟨a, -, hb⟩ := List.mem_flatMap.1 hb
  exact (escapeByte_ne a b hb).1

/-- A space as a plus sign. -/
def plusSign (c : UInt8) : UInt8 := if c = 32 then 43 else c

/-- The string that the escape is. -/
def urlEncode (str : List UInt8) : CString where
  bytes := (str.flatMap escapeByte).map plusSign
  ne_zero := by
    intro b hb
    obtain ⟨c, hc, rfl⟩ := List.mem_map.1 hb
    unfold plusSign
    split
    · decide
    · exact ne_zero_of_escaped hc

theorem mem_urlEncode {str : List UInt8} {b : UInt8} (hb : b ∈ (urlEncode str).bytes) :
    b ≠ 32 ∧ b ≠ 38 ∧ b ≠ 61 := by
  obtain ⟨c, hc, rfl⟩ := List.mem_map.1 hb
  obtain ⟨a, -, hc⟩ := List.mem_flatMap.1 hc
  obtain ⟨-, hamp, -, hsign⟩ := escapeByte_ne a c hc
  unfold plusSign
  split
  · decide
  · exact ⟨‹_›, hamp, hsign⟩

/-- **The escape** fits its block to the byte, for every string. -/
theorem urlEncode_ok (str : CString) :
    httpdUrlEncode true str = .ok ((urlEncode str.bytes).bytes ++ [0]) ∧
      ((urlEncode str.bytes).bytes ++ [0]).length = str.bytes.length + unacceptable str.bytes + 1 := by
  have hbytes : ofBuf (str.bytes.flatMap escapeByte ++ [0]) =
      ⟨str.bytes.flatMap escapeByte, fun _ hb => ne_zero_of_escaped hb⟩ :=
    ofBuf_append ⟨str.bytes.flatMap escapeByte, fun _ hb => ne_zero_of_escaped hb⟩ []
  refine ⟨?_, ?_⟩
  · unfold httpdUrlEncode
    rw [httpdEscape_eq, Res.ok_bind, if_pos (by simp), hbytes]
    simp [urlEncode, plusSign]
  · rw [List.length_append, urlEncode, List.length_map, length_flatMap_escapeByte]
    rfl

/-! ## Decoding what was escaped -/

theorem unescape_percent (between : List UInt8) (x y : UInt8) (str : List UInt8) :
    unescape between (37 :: x :: y :: str) =
      (fromHex x * 16 + fromHex y) :: unescape ((between ++ [37, x, y]).drop 1) str := by
  rw [unescape.eq_def]
  rfl

theorem map_plusSign_escapeByte (a : UInt8) : ¬ acceptable a →
    (escapeByte a).map plusSign = [37, hex.getD (a >>> 4).toNat 0, hex.getD (a &&& 15).toNat 0] := by
  revert a
  exact forall_byte (by decide +kernel)

/-- The decoder reads back what was written for a byte, wherever its write pointer is. -/
theorem unescape_escapeByte (between : List UInt8) (a : UInt8) (str : List UInt8) :
    ∃ between', unescape between ((escapeByte a).map plusSign ++ str) = a :: unescape between' str := by
  by_cases ha : acceptable a
  · obtain ⟨hpercent, hplus⟩ := acceptable_ne a ha
    unfold escapeByte plusSign
    rw [if_pos ha, List.map_singleton, List.singleton_append]
    by_cases hspace : a = 32
    · subst hspace
      rw [if_pos rfl, unescape_cons (by decide), if_pos rfl]
      exact ⟨_, rfl⟩
    · rw [if_neg hspace, unescape_cons hpercent, if_neg hplus]
      exact ⟨_, rfl⟩
  · rw [map_plusSign_escapeByte a ha, List.cons_append, List.cons_append, List.singleton_append,
      unescape_percent, fromHex_hex]
    exact ⟨_, rfl⟩

theorem unescape_urlEncode (between str : List UInt8) :
    unescape between (urlEncode str).bytes = str := by
  induction str generalizing between with
  | nil => rfl
  | cons a str ih =>
    have hcons : (urlEncode (a :: str)).bytes = (escapeByte a).map plusSign ++ (urlEncode str).bytes := by
      show ((a :: str).flatMap escapeByte).map plusSign = _
      rw [List.flatMap_cons, List.map_append]
      rfl
    obtain ⟨between', hnext⟩ := unescape_escapeByte between a (urlEncode str).bytes
    rw [hcons, hnext, ih]

/-- **The round trip**: every string is read back from its escape, which fits its block and has no
separator in it. -/
theorem urlEncode_unescape (str : CString) :
    ∃ buf, httpdUrlEncode true str = .ok buf ∧ httpdUnescape (some (ofBuf buf).bytes) = str ∧
      ∀ b ∈ (ofBuf buf).bytes, b ≠ 32 ∧ b ≠ 38 ∧ b ≠ 61 := by
  refine ⟨_, (urlEncode_ok str).1, ?_, ?_⟩
  · rw [ofBuf_append]
    apply CString.ext
    show (ofBuf (unescape [] (urlEncode str.bytes).bytes)).bytes = str.bytes
    rw [unescape_urlEncode]
    exact ofBuf_bytes str.ne_zero
  · rw [ofBuf_append]
    exact fun b hb => mem_urlEncode hb

/-! ## A form -/

/-- A field of a form: its value is any string. -/
structure Field where
  name : CString
  value : CString
  name_bytes : ∀ b ∈ name.bytes, b ≠ 61 ∧ b ≠ 38 ∧ b ≠ 46
  name_length : name.bytes.length < 50

/-- The pair that is sent for a field. -/
def Field.pair (f : Field) : Pair where
  name := f.name
  value := urlEncode f.value.bytes
  name_bytes := f.name_bytes
  name_length := f.name_length
  value_bytes := fun _ hb => ⟨(mem_urlEncode hb).2.2, (mem_urlEncode hb).2.1⟩

theorem Field.add_pair (f : Field) (vars : List HttpVar) :
    f.pair.add vars = httpdAddVariable vars f.name f.value := by
  unfold Pair.add
  congr 1
  apply CString.ext
  show (ofBuf (unescape [] (urlEncode f.value.bytes).bytes)).bytes = f.value.bytes
  rw [unescape_urlEncode]
  exact ofBuf_bytes f.value.ne_zero

/-- **A form** comes back from the query that is made of its escaped values: the fields in their order,
whatever bytes the values have. -/
theorem storeData_form (vars : List HttpVar) (f : Field) (fields : List Field) :
    httpdStoreData vars ([38].intercalate ((f :: fields).map fun g => g.pair.segment)) =
      .ok ((f :: fields).foldl (fun vars g => httpdAddVariable vars g.name g.value) vars) := by
  have hquery := storeData_pairs vars f.pair (fields.map Field.pair)
  rw [← List.map_cons, List.map_map, List.foldl_map] at hquery
  simp only [Field.add_pair] at hquery
  exact hquery

/-- Two fields, the second of which has a separator in its value. -/
theorem storeData_form_two :
    let user : Field := ⟨ofBuf (bytesOf "user"), ofBuf (bytesOf "a"), by decide +kernel, by decide +kernel⟩
    let text : Field := ⟨ofBuf (bytesOf "text"), ofBuf (bytesOf "b&c=d"), by decide +kernel, by decide +kernel⟩
    httpdStoreData [] (bytesOf "user=a&text=b%26c%3Dd") =
      .ok [⟨user.name, user.value, []⟩, ⟨text.name, text.value, []⟩] := by
  intro user text
  have hform := storeData_form [] user [text]
  have hquery : [38].intercalate ([user, text].map fun g => g.pair.segment) =
      bytesOf "user=a&text=b%26c%3Dd" := by decide +kernel
  rw [hquery] at hform
  rw [hform]
  decide +kernel

end Libhttpd
