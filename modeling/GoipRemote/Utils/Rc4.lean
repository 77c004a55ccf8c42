import GoipRemote.Lib.StreamCipher
import Mathlib.Tactic

/-!
# RC4 (`utils/rc4.c`)

The `int`s of `struct rc4_state` hold bytes, and their sums are cut to bytes wherever they index
`m`.
-/

namespace Utils

/-- `struct rc4_state`. -/
structure Rc4State where
  x : UInt8
  y : UInt8
  m : Vector UInt8 256
  deriving DecidableEq, Repr

/-- A round of the second loop of `rc4_setup`, on `m`, `j` and `k`. A key of length `0` is read at its
terminator. -/
def rc4SetupRound (key : List UInt8) : Vector UInt8 256 × UInt8 × Nat → Fin 256 →
    Vector UInt8 256 × UInt8 × Nat
  | (m, j, k), i =>
    let a := m.get i
    let j := j + a + key.getD k 0
    let m := (m.set i (m.get j.toFin)).set j.toFin a
    (m, j, if k + 1 ≥ key.length then 0 else k + 1)

/-- `rc4_setup`. -/
def rc4Setup (key : List UInt8) : Rc4State :=
  let m := Vector.ofFn fun i : Fin 256 => UInt8.ofNat i
  ⟨0, 0, ((List.finRange 256).foldl (rc4SetupRound key) (m, 0, 0)).1⟩

/-- A round of `rc4_crypt`: the state after it and the byte that the data is xored with. -/
def rc4Next (s : Rc4State) : Rc4State × UInt8 :=
  let x := s.x + 1
  let a := s.m.get x.toFin
  let y := s.y + a
  let b := s.m.get y.toFin
  let m := (s.m.set x.toFin b).set y.toFin a
  (⟨x, y, m⟩, m.get (a + b).toFin)

/-- `rc4_crypt`: the data after it and the state. -/
def rc4Crypt (s : Rc4State) (data : List UInt8) : List UInt8 × Rc4State :=
  StreamCipher.crypt rc4Next (fun k b => b ^^^ k) s data

/-- The state after `n` bytes. -/
def rc4Advance (n : Nat) (s : Rc4State) : Rc4State := StreamCipher.advance rc4Next n s

theorem rc4Crypt_snd (s : Rc4State) (data : List UInt8) :
    (rc4Crypt s data).2 = rc4Advance data.length s := StreamCipher.crypt_snd s data

@[simp] theorem rc4Crypt_length (s : Rc4State) (data : List UInt8) :
    (rc4Crypt s data).1.length = data.length := StreamCipher.crypt_length s data

theorem rc4Advance_add (m n : Nat) (s : Rc4State) :
    rc4Advance (m + n) s = rc4Advance n (rc4Advance m s) := StreamCipher.advance_add m n s

theorem rc4Crypt_append (s : Rc4State) (as bs : List UInt8) :
    (rc4Crypt s (as ++ bs)).1 = (rc4Crypt s as).1 ++ (rc4Crypt (rc4Advance as.length s) bs).1 :=
  StreamCipher.crypt_append s as bs

theorem rc4Crypt_isPrefix {as bs : List UInt8} (s : Rc4State) (h : as <+: bs) :
    (rc4Crypt s as).1 <+: (rc4Crypt s bs).1 := StreamCipher.crypt_isPrefix s h

theorem xor_xor (k b : UInt8) : (b ^^^ k) ^^^ k = b := by
  rw [UInt8.xor_assoc, UInt8.xor_self, UInt8.xor_zero]

/-- A peer with the same state decrypts. -/
theorem rc4Crypt_rc4Crypt (s : Rc4State) (data : List UInt8) :
    (rc4Crypt s (rc4Crypt s data).1).1 = data := StreamCipher.crypt_crypt xor_xor s data

/-- Also where the parts reach it in pieces. -/
theorem rc4Crypt_relay (s : Rc4State) {input got out got' output : List UInt8} (hgot : got <+: input)
    (hout : out <+: (rc4Crypt s got).1) (hgot' : got' <+: out)
    (houtput : output <+: (rc4Crypt s got').1) : output <+: input :=
  StreamCipher.crypt_relay xor_xor s hgot hout hgot' houtput

end Utils
