import GoipRemote.Lib.CString

/-!
# Base 64

Three bytes are four digits of six bits, the first byte's high bits first; at the end one byte is two
digits, and two bytes are three. `decode_encode` says that the digits give the bytes back. `text` writes
the digits with the alphabet, and fills the last group up.
-/

namespace Base64

/-- The digits of some bytes. -/
def encode : List UInt8 → List Nat
  | [] => []
  | [a] => [a.toNat / 4, a.toNat % 4 * 16]
  | [a, b] => [a.toNat / 4, a.toNat % 4 * 16 + b.toNat / 16, b.toNat % 16 * 4]
  | a :: b :: c :: bytes =>
    a.toNat / 4 :: (a.toNat % 4 * 16 + b.toNat / 16) :: (b.toNat % 16 * 4 + c.toNat / 64) :: c.toNat % 64 ::
      encode bytes

/-- The bytes of some digits; a digit that is left over gives none. -/
def decode : List Nat → List UInt8
  | [] => []
  | [_] => []
  | [x, y] => [.ofNat (x * 4 + y / 16)]
  | [x, y, z] => [.ofNat (x * 4 + y / 16), .ofNat (y % 16 * 16 + z / 4)]
  | x :: y :: z :: w :: digits =>
    .ofNat (x * 4 + y / 16) :: .ofNat (y % 16 * 16 + z / 4) :: .ofNat (z % 4 * 64 + w) :: decode digits

theorem ofNat_of_eq {a : UInt8} {n : Nat} (h : n = a.toNat) : UInt8.ofNat n = a := by
  rw [h, UInt8.ofNat_toNat]

/-- **The digits** give the bytes back. -/
theorem decode_encode (bytes : List UInt8) : decode (encode bytes) = bytes := by
  fun_induction encode bytes with
  | case1 => rfl
  | case2 a =>
    rw [decode, ofNat_of_eq (a := a) (by omega)]
  | case3 a b =>
    have hb := b.toNat_lt
    rw [decode, ofNat_of_eq (a := a) (by omega), ofNat_of_eq (a := b) (by omega)]
  | case4 a b c bytes ih =>
    have hb := b.toNat_lt
    have hc := c.toNat_lt
    rw [decode, ih, ofNat_of_eq (a := a) (by omega), ofNat_of_eq (a := b) (by omega),
      ofNat_of_eq (a := c) (by omega)]

theorem lt_of_mem_encode {bytes : List UInt8} {d : Nat} (h : d ∈ encode bytes) : d < 64 := by
  fun_induction encode bytes with
  | case1 => cases h
  | case2 a =>
    have := a.toNat_lt
    simp only [List.mem_cons, List.not_mem_nil, or_false] at h
    omega
  | case3 a b =>
    have := a.toNat_lt
    have := b.toNat_lt
    simp only [List.mem_cons, List.not_mem_nil, or_false] at h
    omega
  | case4 a b c bytes ih =>
    have := a.toNat_lt
    have := b.toNat_lt
    have := c.toNat_lt
    simp only [List.mem_cons] at h
    rcases h with h | h | h | h | h
    · omega
    · omega
    · omega
    · omega
    · exact ih h

/-! ## The text -/

/-- The letter of a digit: `A` to `Z`, `a` to `z`, `0` to `9`, `+` and `/`. -/
def letter (d : Nat) : UInt8 :=
  .ofNat (if d < 26 then d + 65 else if d < 52 then d + 71 else if d < 62 then d - 4
    else if d = 62 then 43 else 47)

/-- The digit of a letter. -/
def digit? (c : UInt8) : Option Nat :=
  let n := c.toNat
  if 65 ≤ n ∧ n ≤ 90 then some (n - 65)
  else if 97 ≤ n ∧ n ≤ 122 then some (n - 71)
  else if 48 ≤ n ∧ n ≤ 57 then some (n + 4)
  else if n = 43 then some 62
  else if n = 47 then some 63
  else none

/-- The text of some bytes, filled up to a group of four. -/
def text (bytes : List UInt8) : List UInt8 :=
  (encode bytes).map letter ++ List.replicate ((4 - (encode bytes).length % 4) % 4) 61

theorem digit?_letter {d : Nat} (h : d < 64) : digit? (letter d) = some d := by
  revert d
  decide

theorem digit?_lt {c : UInt8} {d : Nat} (h : digit? c = some d) : d < 64 := by
  unfold digit? at h
  grind

/-- The digits of a text: what is no letter is not looked at. -/
def digits (text : List UInt8) : List Nat := text.filterMap digit?

theorem digits_append (s t : List UInt8) : digits (s ++ t) = digits s ++ digits t := List.filterMap_append

theorem digits_map_letter {ds : List Nat} (h : ∀ d ∈ ds, d < 64) : digits (ds.map letter) = ds := by
  induction ds with
  | nil => rfl
  | cons d ds ih =>
    rw [List.map_cons, digits, List.filterMap_cons, digit?_letter (h d List.mem_cons_self)]
    exact congrArg (d :: ·) (ih fun e he => h e (List.mem_cons_of_mem _ he))

/-- The text has the digits of its bytes, padding or not. -/
theorem digits_text (bytes : List UInt8) : digits (text bytes) = encode bytes := by
  have hpad : ∀ n, digits (List.replicate n 61) = [] := by
    intro n
    apply List.filterMap_eq_nil_iff.2
    intro b hb
    rw [List.eq_of_mem_replicate hb]
    decide
  rw [text, digits_append, digits_map_letter fun _ => lt_of_mem_encode, hpad, List.append_nil]

end Base64
