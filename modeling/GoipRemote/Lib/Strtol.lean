import GoipRemote.Lib.CString
import Mathlib.Data.List.DropRight

/-!
# Numbers in texts (`strtol`, `%d`)

A text is the list of its bytes up to the terminator, so that the end of the list is the NUL. `strtol` is
the C function, with a `long` of 64 bits. `strtol_decimal`: the decimal digits of a number are read back,
up to the first byte that is no digit.
-/

namespace Strtol

/-- `isspace`, in the C locale. -/
def isspace (b : UInt8) : Bool := b = 32 ∨ 9 ≤ b ∧ b ≤ 13

/-- The value of a digit or a letter. -/
def digitValue (b : UInt8) : Option Nat :=
  if 48 ≤ b ∧ b ≤ 57 then some (b.toNat - 48)
  else if 97 ≤ b ∧ b ≤ 122 then some (b.toNat - 87)
  else if 65 ≤ b ∧ b ≤ 90 then some (b.toNat - 55)
  else none

/-- The value of a digit of a base. -/
def digitOf (base : Nat) (b : UInt8) : Option Nat := (digitValue b).filter (· < base)

/-- The value of the digits at the beginning of a text, and what is behind them. -/
def digits (base n : Nat) : List UInt8 → Nat × List UInt8
  | [] => (n, [])
  | b :: text =>
    match digitOf base b with
    | some d => digits base (base * n + d) text
    | none => (n, b :: text)

/-- Whether a text begins with a digit of a base. -/
def isNumber (base : Nat) (text : List UInt8) : Bool := (text.head?.bind (digitOf base)).isSome

/-- The value, the text at `*endptr`, and whether `errno` has been set to `ERANGE`. -/
structure Parsed where
  value : Int
  rest : List UInt8
  erange : Bool
  deriving DecidableEq, Repr

/-- A magnitude with its sign, in the range of a `long`. -/
def clip (negative : Bool) (n : Nat) (rest : List UInt8) : Parsed :=
  if negative then { value := -(min n (2 ^ 63) : Nat), rest := rest, erange := 2 ^ 63 < n }
  else { value := (min n (2 ^ 63 - 1) : Nat), rest := rest, erange := 2 ^ 63 - 1 < n }

/-- The base and the text behind a `0x`, which is one only before a hexadecimal digit. -/
def prefixed (base : Nat) : List UInt8 → Nat × List UInt8
  | 48 :: x :: text =>
    if (x = 120 ∨ x = 88) ∧ (base = 0 ∨ base = 16) ∧ isNumber 16 text then (16, text)
    else (if base = 0 then 8 else base, 48 :: x :: text)
  | text => (if base = 0 then (if text.head? = some 48 then 8 else 10) else base, text)

/-- The number at the beginning of a text: its sign, its magnitude and what is behind it. -/
def number (base : Nat) (str : List UInt8) : Option (Bool × Nat × List UInt8) :=
  let text := str.dropWhile isspace
  let negative : Bool := text.head? = some 45
  let text := if text.head? = some 45 ∨ text.head? = some 43 then text.tail else text
  let (base, text) := prefixed base text
  if isNumber base text then some (negative, digits base 0 text) else none

/-- `strtol(str, &ep, base)`. Where there is no number, `ep` is `str`. -/
def strtol (base : Nat) (str : List UInt8) : Parsed :=
  match number base str with
  | some (negative, n, rest) => clip negative n rest
  | none => { value := 0, rest := str, erange := false }

/-- A text without the white space at its ends. -/
def trim (text : List UInt8) : List UInt8 := (text.dropWhile isspace).rdropWhile isspace

/-- The integer that a text is, in any of the notations of C and with white space around it. -/
def integer (text : List UInt8) : Option Int :=
  match number 0 (trim text) with
  | some (negative, n, []) => some (if negative then -(n : Int) else n)
  | _ => none

/-- `%d` of a number that is not negative. -/
def decimal (n : Nat) : List UInt8 := (Nat.toDigits 10 n).map fun c => UInt8.ofNat c.toNat

/-! ## Reading back -/

/-- The byte of a decimal digit. -/
def digitByte (d : Nat) : UInt8 := UInt8.ofNat (48 + d)

theorem digitChar_byte {d : Nat} (h : d < 10) : UInt8.ofNat d.digitChar.toNat = digitByte d := by
  interval_cases d <;> rfl

theorem digitOf_digitByte {d : Nat} (h : d < 10) : digitOf 10 (digitByte d) = some d := by
  interval_cases d <;> rfl

theorem decimal_eq (n : Nat) :
    decimal n = if n < 10 then [digitByte n] else decimal (n / 10) ++ [digitByte (n % 10)] := by
  unfold decimal
  rw [Nat.toDigits_eq_if (by omega)]
  split
  · rename_i h
    simp [digitChar_byte h]
  · simp [digitChar_byte (Nat.mod_lt n (by omega))]

/-- Digits are read up to the first byte that is none. -/
theorem digits_decimal (n : Nat) (rest : List UInt8) :
    digits 10 0 (decimal n ++ rest) = digits 10 n rest := by
  induction n using Nat.strongRecOn generalizing rest with
  | ind n ih =>
    rw [decimal_eq]
    split
    · rename_i h
      simp [digits, digitOf_digitByte h]
    · have hdigit := digitOf_digitByte (Nat.mod_lt n (by omega : 0 < 10))
      rw [List.append_assoc, ih (n / 10) (by omega)]
      simp only [List.cons_append, List.nil_append, digits, hdigit]
      congr 1
      omega

/-- The first digit. -/
theorem decimal_cons (n : Nat) : ∃ d t, decimal n = digitByte d :: t ∧ d < 10 := by
  induction n using Nat.strongRecOn with
  | ind n ih =>
    rw [decimal_eq]
    split
    · exact ⟨n, [], rfl, by assumption⟩
    · obtain ⟨d, t, ht, hd⟩ := ih (n / 10) (by omega)
      exact ⟨d, t ++ [digitByte (n % 10)], by simp [ht], hd⟩

theorem digitByte_facts {d : Nat} (h : d < 10) : isspace (digitByte d) = false ∧ digitByte d ≠ 45 ∧
    digitByte d ≠ 43 ∧ digitByte d ≠ 0 := by
  interval_cases d <;> decide

theorem isNumber_cons {base : Nat} {b : UInt8} {d : Nat} (h : digitOf base b = some d)
    (text : List UInt8) : isNumber base (b :: text) = true := by
  simp [isNumber, h]

theorem prefixed_ten (text : List UInt8) : prefixed 10 text = (10, text) := by
  unfold prefixed
  split <;> simp

theorem digits_stop {base n : Nat} {text : List UInt8} (h : isNumber base text = false) :
    digits base n text = (n, text) := by
  cases text with
  | nil => rfl
  | cons b text =>
    have hb : digitOf base b = none := by simpa [isNumber] using h
    simp [digits, hb]

/-- The digits of a number are read back. -/
theorem strtol_decimal {n : Nat} (h : n < 2 ^ 63) {rest : List UInt8} (hrest : isNumber 10 rest = false) :
    strtol 10 (decimal n ++ rest) = { value := n, rest := rest, erange := false } := by
  obtain ⟨d, t, ht, hd⟩ := decimal_cons n
  obtain ⟨hspace, hminus, hplus, -⟩ := digitByte_facts hd
  have hdigits := digits_decimal n rest
  rw [digits_stop hrest] at hdigits
  rw [ht, List.cons_append] at hdigits ⊢
  have hnumber := isNumber_cons (digitOf_digitByte hd) (t ++ rest)
  have hdrop : (digitByte d :: (t ++ rest)).dropWhile isspace = digitByte d :: (t ++ rest) := by
    simp [hspace]
  have hparsed : number 10 (digitByte d :: (t ++ rest)) = some (false, n, rest) := by
    unfold number
    simp only [hdrop, List.head?_cons, Option.some.injEq, hminus, hplus, or_self, if_false, prefixed_ten,
      hnumber, if_true, hdigits, decide_false]
  have hmin : min n (2 ^ 63 - 1) = n := Nat.min_eq_left (by omega)
  unfold strtol
  rw [hparsed]
  simp only [clip, Bool.false_eq_true, if_false, hmin, Parsed.mk.injEq, decide_eq_false_iff_not, true_and]
  omega

theorem decimal_ne_nil (n : Nat) : decimal n ≠ [] := by
  obtain ⟨d, t, ht, -⟩ := decimal_cons n
  simp [ht]

theorem length_decimal_le {n k : Nat} (hk : 0 < k) (h : n < 10 ^ k) : (decimal n).length ≤ k := by
  unfold decimal
  rw [List.length_map]
  exact (Nat.length_toDigits_le_iff (by omega) hk).2 h

/-! ## Numbers with something behind them -/

/-- A byte that ends every number. -/
def Ends (text : List UInt8) : Prop := ∀ b ∈ text.head?, digitValue b = none

theorem digitValue_of_isspace {b : UInt8} (h : isspace b = true) : digitValue b = none := by
  have hb : b = 32 ∨ 9 ≤ b.toNat ∧ b.toNat ≤ 13 := by
    simpa [isspace, UInt8.le_iff_toNat_le] using h
  have hlt : b.toNat < 48 := by
    cases hb with
    | inl h => simp [h]
    | inr h => omega
  unfold digitValue
  simp only [UInt8.le_iff_toNat_le, UInt8.reduceToNat]
  rw [if_neg (by omega), if_neg (by omega), if_neg (by omega)]

theorem digitOf_none {base : Nat} {b : UInt8} (h : digitValue b = none) : digitOf base b = none := by
  simp [digitOf, h]

theorem digits_append {base n : Nat} {text x : List UInt8} (hx : Ends x) :
    digits base n (text ++ x) = ((digits base n text).1, (digits base n text).2 ++ x) := by
  induction text generalizing n with
  | nil =>
    apply digits_stop
    cases x with
    | nil => rfl
    | cons b x => simp [isNumber, digitOf_none (hx b rfl)]
  | cons b text ih =>
    rw [List.cons_append, digits, digits]
    cases digitOf base b with
    | none => rfl
    | some d => exact ih

theorem isNumber_append {base : Nat} {text x : List UInt8} (hx : Ends x) :
    isNumber base (text ++ x) = isNumber base text := by
  cases text with
  | nil =>
    cases x with
    | nil => rfl
    | cons b x => simp [isNumber, digitOf_none (hx b rfl)]
  | cons b text => rfl

theorem prefixed_append {base : Nat} {text x : List UInt8} (htext : text ≠ []) (hx : Ends x) :
    prefixed base (text ++ x) = ((prefixed base text).1, (prefixed base text).2 ++ x) := by
  match text, htext with
  | [b], _ =>
    cases x with
    | nil => simp
    | cons c x =>
      have hc : ¬(c = 120 ∨ c = 88) := by
        have hnone := hx c rfl
        rintro (rfl | rfl) <;> simp [digitValue] at hnone
      by_cases hb : b = 48
      · subst hb
        simp [prefixed, hc]
      · unfold prefixed
        simp [hb]
  | b :: c :: text, _ =>
    by_cases hb : b = 48
    · subst hb
      simp only [prefixed, List.cons_append, isNumber_append hx]
      split <;> rfl
    · unfold prefixed
      simp [hb]

/-- A number ends where it ended before. -/
theorem number_append {base : Nat} {text x rest : List UInt8} {negative : Bool} {n : Nat}
    (h : number base text = some (negative, n, rest)) (hx : Ends x) :
    number base (text ++ x) = some (negative, n, rest ++ x) := by
  have hnone : ∀ base, isNumber (prefixed base []).1 (prefixed base []).2 = false := fun _ => rfl
  unfold number at h ⊢
  rw [List.dropWhile_append]
  cases htext : text.dropWhile isspace with
  | nil =>
    rw [htext] at h
    simp [hnone] at h
  | cons b t =>
    rw [htext] at h
    simp only [List.isEmpty_cons, Bool.false_eq_true, if_false, List.cons_append, List.head?_cons,
      Option.some.injEq, List.tail_cons] at h ⊢
    by_cases hsign : b = 45 ∨ b = 43
    · simp only [if_pos hsign] at h ⊢
      have ht : t ≠ [] := by
        rintro rfl
        simp [hnone] at h
      simp only [prefixed_append ht hx, isNumber_append hx, digits_append hx]
      split at h <;> simp_all
    · simp only [if_neg hsign] at h ⊢
      have happend := @prefixed_append base (b :: t) x (List.cons_ne_nil b t) hx
      rw [List.cons_append] at happend
      simp only [happend, isNumber_append hx, digits_append hx]
      split at h <;> simp_all

/-- The parts of a text: the white space at its ends, and what is left of it. -/
theorem trim_eq (text : List UInt8) : ∃ front behind, text = front ++ trim text ++ behind ∧
    (∀ b ∈ front, isspace b = true) ∧ ∀ b ∈ behind, isspace b = true := by
  refine ⟨text.takeWhile isspace, (text.dropWhile isspace).rtakeWhile isspace, ?_, ?_, ?_⟩
  · rw [trim, List.append_assoc, List.rdropWhile_append_rtakeWhile, List.takeWhile_append_dropWhile]
  · exact fun b hb => List.mem_takeWhile_imp hb
  · exact fun b hb => List.mem_rtakeWhile_imp hb

/-- What is left begins and ends with no white space. -/
theorem trim_head {text t : List UInt8} {b : UInt8} (h : trim text = b :: t) : isspace b = false := by
  obtain ⟨behind, hbehind⟩ := List.rdropWhile_prefix isspace (text.dropWhile isspace)
  have hhead := List.head?_dropWhile_not isspace text
  rw [← hbehind, ← trim, h] at hhead
  exact hhead

theorem trim_last {text t : List UInt8} {b : UInt8} (h : trim text = t ++ [b]) : isspace b = false := by
  unfold trim at h
  have hne : (text.dropWhile isspace).rdropWhile isspace ≠ [] := by
    rw [h]
    simp
  have hlast := List.rdropWhile_last_not isspace (text.dropWhile isspace) hne
  simp only [h, List.getLast_append] at hlast
  simpa using hlast

/-- The text of an integer. -/
theorem integer_eq {text : List UInt8} {v : Int} (h : integer text = some v) :
    ∃ negative n, number 0 (trim text) = some (negative, n, []) ∧ v = if negative then -(n : Int) else n := by
  unfold integer at h
  split at h
  · rename_i negative n heq
    exact ⟨negative, n, heq, (Option.some.inj h).symm⟩
  · cases h

theorem number_ne_nil {base : Nat} {text : List UInt8} {p : Bool × Nat × List UInt8}
    (h : number base text = some p) :
    text ≠ [] := by
  rintro rfl
  cases h

/-- The value that is read is the integer, where a `long` holds it. -/
theorem clip_value {negative : Bool} {n : Nat} {rest : List UInt8} :
    (clip negative n rest).value = (if negative then -(n : Int) else n) ↔
      -2 ^ 63 ≤ (if negative then -(n : Int) else n) ∧ (if negative then -(n : Int) else n) < 2 ^ 63 := by
  cases negative <;> simp [clip] <;> omega

example : strtol 0 (bytesOf " -0x1Fz") = { value := -31, rest := bytesOf "z", erange := false } := by decide

end Strtol
