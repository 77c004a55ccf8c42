import GoipRemote.Lib.Base64
import GoipRemote.Lib.Res

/-!
# Base-64 decoding (`_httpd_decode`)

The decoder goes over a string byte by byte, in one of four phases, and passes over what is no letter of
the alphabet. `httpdDecode_eq` says that it writes the bytes of the letters, as far as its buffer reaches,
and `httpdDecode_text` that it gives back what was encoded, however the text is broken into lines.
-/

namespace Libhttpd

open CString Base64

/-! ## The code -/

/-- `b64_decode_table`. -/
def b64DecodeTable : List Int :=
  [-1, -1, -1, -1, -1, -1, -1, -1, -1, -1, -1, -1, -1, -1, -1, -1,
    -1, -1, -1, -1, -1, -1, -1, -1, -1, -1, -1, -1, -1, -1, -1, -1,
    -1, -1, -1, -1, -1, -1, -1, -1, -1, -1, -1, 62, -1, -1, -1, 63,
    52, 53, 54, 55, 56, 57, 58, 59, 60, 61, -1, -1, -1, -1, -1, -1,
    -1, 0, 1, 2, 3, 4, 5, 6, 7, 8, 9, 10, 11, 12, 13, 14,
    15, 16, 17, 18, 19, 20, 21, 22, 23, 24, 25, -1, -1, -1, -1, -1,
    -1, 26, 27, 28, 29, 30, 31, 32, 33, 34, 35, 36, 37, 38, 39, 40,
    41, 42, 43, 44, 45, 46, 47, 48, 49, 50, 51, -1, -1, -1, -1, -1] ++ List.replicate 128 (-1)

/-- The locals of `_httpd_decode`: `space` is what has been written, up to `space_idx`. -/
structure Decoder where
  space : List UInt8
  phase : Nat
  prevD : UInt8
  deriving DecidableEq, Repr

/-- `if (space_idx < size) space[space_idx++] = c;` -/
def put (size : Nat) (space : List UInt8) (c : UInt8) : List UInt8 :=
  if space.length < size then space ++ [c] else space

/-- What is done with a letter. -/
def decodeDigit (size : Nat) (s : Decoder) (d : UInt8) : Decoder :=
  match s.phase with
  | 0 => ⟨s.space, 1, d⟩
  | 1 => ⟨put size s.space (s.prevD <<< 2 ||| (d &&& 0x30) >>> 4), 2, d⟩
  | 2 => ⟨put size s.space ((s.prevD &&& 0xf) <<< 4 ||| (d &&& 0x3c) >>> 2), 3, d⟩
  | 3 => ⟨put size s.space ((s.prevD &&& 0x03) <<< 6 ||| d), 0, d⟩
  | phase => ⟨s.space, phase, d⟩

/-- One byte of the string. Its index is negative from 128 on, where `char` is signed. -/
def decodeByte (size : Nat) (s : Decoder) (c : UInt8) : Res Decoder :=
  match if c < 128 then b64DecodeTable[c.toNat]? else none with
  | none => .fault
  | some d => .ok (if d = -1 then s else decodeDigit size s (.ofNat d.toNat))

/-- `_httpd_decode`. -/
def httpdDecode (str : CString) (size : Nat) : Res (List UInt8) := do
  let s ← str.bytes.foldlM (decodeByte size) ⟨[], 0, 0⟩
  return s.space

/-! ## The table -/

/-- The table is the one of the alphabet. -/
theorem b64DecodeTable_eq (c : UInt8) : c < 128 →
    b64DecodeTable[c.toNat]? = some (match digit? c with | some d => (d : Int) | none => -1) := by
  revert c
  exact forall_byte (by decide +kernel)

/-- A byte of an ASCII text is a digit, or it is passed over. -/
theorem decodeByte_eq (size : Nat) (s : Decoder) {c : UInt8} (hc : c < 128) :
    decodeByte size s c =
      .ok (match digit? c with | some d => decodeDigit size s (.ofNat d) | none => s) := by
  unfold decodeByte
  rw [if_pos hc, b64DecodeTable_eq c hc]
  cases digit? c with
  | none => rfl
  | some d =>
    have hd : (d : Int) ≠ -1 := by omega
    simp only [if_neg hd, Int.toNat_natCast]

theorem decode_digits (size : Nat) {text : List UInt8} (htext : ∀ c ∈ text, c < 128) (s : Decoder) :
    text.foldlM (decodeByte size) s =
      .ok ((digits text).foldl (fun s d => decodeDigit size s (.ofNat d)) s) := by
  induction text generalizing s with
  | nil => rfl
  | cons c text ih =>
    have hrest := ih (fun b hb => htext b (List.mem_cons_of_mem _ hb))
    rw [List.foldlM_cons, decodeByte_eq size s (htext c List.mem_cons_self), Res.ok_bind, hrest, digits,
      digits, List.filterMap_cons]
    cases digit? c with
    | none => rfl
    | some d => rfl

/-! ## Four digits -/

section
variable {size : Nat}

/-- High bits and low bits are put together. -/
theorem or_eq_ofNat {a b : UInt8} {x y k : Nat} (ha : a.toNat = 2 ^ k * x) (hb : b.toNat = y)
    (hy : y < 2 ^ k) : a ||| b = .ofNat (2 ^ k * x + y) := by
  rw [Nat.two_pow_add_eq_or_of_lt hy, ← ha, ← hb, ← UInt8.toNat_or, UInt8.ofNat_toNat]

/-- The parts of a digit. -/
theorem digit_bits : ∀ x < 64, (UInt8.ofNat x <<< 2).toNat = 2 ^ 2 * x ∧
    ((UInt8.ofNat x &&& 0x30) >>> 4).toNat = x / 16 ∧
    ((UInt8.ofNat x &&& 0xf) <<< 4).toNat = 2 ^ 4 * (x % 16) ∧
    ((UInt8.ofNat x &&& 0x3c) >>> 2).toNat = x / 4 ∧
    ((UInt8.ofNat x &&& 0x03) <<< 6).toNat = 2 ^ 6 * (x % 4) ∧ (UInt8.ofNat x).toNat = x := by
  decide +kernel

/-- The three ways in which two digits make a byte. -/
theorem digits_byte (x : Nat) (hx : x < 64) (y : Nat) (hy : y < 64) :
    UInt8.ofNat x <<< 2 ||| (UInt8.ofNat y &&& 0x30) >>> 4 = .ofNat (x * 4 + y / 16) ∧
    (UInt8.ofNat x &&& 0xf) <<< 4 ||| (UInt8.ofNat y &&& 0x3c) >>> 2 = .ofNat (x % 16 * 16 + y / 4) ∧
    (UInt8.ofNat x &&& 0x03) <<< 6 ||| UInt8.ofNat y = .ofNat (x % 4 * 64 + y) := by
  obtain ⟨hshift, -, hlow, -, hlast, -⟩ := digit_bits x hx
  obtain ⟨-, hhigh, -, hmiddle, -, hself⟩ := digit_bits y hy
  refine ⟨?_, ?_, ?_⟩
  · rw [or_eq_ofNat hshift hhigh (by omega), Nat.mul_comm]
    rfl
  · rw [or_eq_ofNat hlow hmiddle (by omega), Nat.mul_comm]
    rfl
  · rw [or_eq_ofNat hlast hself (by omega), Nat.mul_comm]
    rfl

/-- A byte is written where there is room. -/
theorem put_take (bytes : List UInt8) (c : UInt8) :
    put size (bytes.take size) c = (bytes ++ [c]).take size := by
  unfold put
  rw [List.length_take]
  split
  · rw [List.take_of_length_le (by omega), List.take_of_length_le (by simp; omega)]
  · rw [List.take_append_of_le_length (by omega)]

/-- The digits from a group on: what has been written stays. -/
theorem foldl_digits {ds : List Nat} (hds : ∀ d ∈ ds, d < 64) (bytes : List UInt8) (prevD : UInt8) :
    (ds.foldl (fun s d => decodeDigit size s (.ofNat d)) ⟨bytes.take size, 0, prevD⟩).space =
      (bytes ++ decode ds).take size := by
  fun_induction decode ds generalizing bytes prevD with
  | case1 => rw [List.append_nil]; rfl
  | case2 x => rw [List.append_nil]; rfl
  | case3 x y =>
    obtain ⟨hfirst, -, -⟩ := digits_byte x (hds x (by simp)) y (hds y (by simp))
    simp only [List.foldl_cons, List.foldl_nil, decodeDigit, hfirst, put_take]
  | case4 x y z =>
    obtain ⟨hfirst, -, -⟩ := digits_byte x (hds x (by simp)) y (hds y (by simp))
    obtain ⟨-, hsecond, -⟩ := digits_byte y (hds y (by simp)) z (hds z (by simp))
    simp only [List.foldl_cons, List.foldl_nil, decodeDigit, hfirst, hsecond, put_take]
    simp
  | case5 x y z w ds ih =>
    obtain ⟨hfirst, -, -⟩ := digits_byte x (hds x (by simp)) y (hds y (by simp))
    obtain ⟨-, hsecond, -⟩ := digits_byte y (hds y (by simp)) z (hds z (by simp))
    obtain ⟨-, -, hthird⟩ := digits_byte z (hds z (by simp)) w (hds w (by simp))
    have hrest : ∀ d ∈ ds, d < 64 := fun d hd => hds d (by simp [hd])
    have hgroup : [x, y, z, w].foldl (fun s d => decodeDigit size s (.ofNat d)) ⟨bytes.take size, 0, prevD⟩ =
        ⟨(bytes ++ [UInt8.ofNat (x * 4 + y / 16)] ++ [UInt8.ofNat (y % 16 * 16 + z / 4)] ++
          [UInt8.ofNat (z % 4 * 64 + w)]).take size, 0, .ofNat w⟩ := by
      simp only [List.foldl_cons, List.foldl_nil, decodeDigit, hfirst, hsecond, hthird, put_take]
    have hcons : x :: y :: z :: w :: ds = [x, y, z, w] ++ ds := rfl
    rw [hcons, List.foldl_append, hgroup, ih hrest]
    simp

end

/-! ## The string -/

/-- **The decoder** writes the bytes of the letters, as far as its buffer reaches. -/
theorem httpdDecode_eq {str : CString} (hstr : ∀ c ∈ str.bytes, c < 128) (size : Nat) :
    httpdDecode str size = .ok ((decode (digits str.bytes)).take size) := by
  have hds : ∀ d ∈ digits str.bytes, d < 64 := by
    intro d hd
    obtain ⟨c, -, hc⟩ := List.mem_filterMap.1 hd
    exact digit?_lt hc
  have hspace := @foldl_digits size _ hds [] 0
  rw [List.take_nil, List.nil_append] at hspace
  unfold httpdDecode
  rw [decode_digits size hstr, Res.ok_bind, hspace]
  rfl

/-- **What was encoded** is read back, from every text that has its letters in their order. -/
theorem httpdDecode_text {str : CString} (hstr : ∀ c ∈ str.bytes, c < 128) {bytes : List UInt8}
    (hdigits : digits str.bytes = digits (text bytes)) (size : Nat) :
    httpdDecode str size = .ok (bytes.take size) := by
  rw [httpdDecode_eq hstr, hdigits, digits_text, decode_encode]

/-- A code that is broken into two lines. -/
theorem httpdDecode_text_lines :
    httpdDecode (ofBuf (bytesOf "YT\r\npi")) 100 = .ok ((bytesOf "a:b").take 100) :=
  httpdDecode_text (by decide +kernel) (by decide +kernel) 100

end Libhttpd
