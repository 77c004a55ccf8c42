import Mathlib.Data.List.Basic

/-!
# Stream ciphers

A stream cipher is a state that yields a key for each symbol and a mask that mixes the key into the
symbol. `crypt` runs it over a text. The state afterwards depends on the length of the text alone
(`crypt_snd`), a text may be cut anywhere (`crypt_append`), and where the mask is an involution the
cipher decrypts what it encrypted from the same state (`crypt_crypt`), also in pieces (`crypt_relay`).
-/

namespace StreamCipher

variable {σ κ β : Type*} (next : σ → σ × κ) (mask : κ → β → β)

/-- The text under the cipher from a state, and the state after it. -/
def crypt : σ → List β → List β × σ
  | s, [] => ([], s)
  | s, b :: bs =>
    let (s', k) := next s
    let (cs, s'') := crypt s' bs
    (mask k b :: cs, s'')

/-- The state after `n` symbols. -/
def advance : Nat → σ → σ
  | 0, s => s
  | n + 1, s => advance n (next s).1

variable {next mask}

theorem crypt_snd (s : σ) (bs : List β) : (crypt next mask s bs).2 = advance next bs.length s := by
  induction bs generalizing s with
  | nil => rfl
  | cons b bs ih => exact ih _

theorem crypt_length (s : σ) (bs : List β) : (crypt next mask s bs).1.length = bs.length := by
  induction bs generalizing s with
  | nil => rfl
  | cons b bs ih => exact congrArg Nat.succ (ih _)

theorem advance_add (m n : Nat) (s : σ) : advance next (m + n) s = advance next n (advance next m s) := by
  induction m generalizing s with
  | zero => rw [Nat.zero_add]; rfl
  | succ m ih => rw [Nat.succ_add]; exact ih _

/-- A text may be cut anywhere. -/
theorem crypt_append (s : σ) (as bs : List β) :
    (crypt next mask s (as ++ bs)).1 =
      (crypt next mask s as).1 ++ (crypt next mask (advance next as.length s) bs).1 := by
  induction as generalizing s with
  | nil => rfl
  | cons a as ih => exact congrArg (List.cons _) (ih _)

/-- Where the mask is an involution, so is the cipher. -/
theorem crypt_crypt (hmask : ∀ k b, mask k (mask k b) = b) (s : σ) (bs : List β) :
    (crypt next mask s (crypt next mask s bs).1).1 = bs := by
  induction bs generalizing s with
  | nil => rfl
  | cons b bs ih =>
    show mask _ (mask _ b) :: _ = b :: bs
    rw [hmask]
    exact congrArg (List.cons b) (ih _)

theorem crypt_isPrefix {as bs : List β} (s : σ) (h : as <+: bs) :
    (crypt next mask s as).1 <+: (crypt next mask s bs).1 := by
  obtain ⟨cs, rfl⟩ := h
  rw [crypt_append]
  exact List.prefix_append _ _

/-- What is encrypted, carried and decrypted in pieces comes out in order: each of the four texts is a
prefix of what could have come before it. -/
theorem crypt_relay (hmask : ∀ k b, mask k (mask k b) = b) (s : σ) {input got out got' output : List β}
    (hgot : got <+: input) (hout : out <+: (crypt next mask s got).1) (hgot' : got' <+: out)
    (houtput : output <+: (crypt next mask s got').1) : output <+: input := by
  have hback : (crypt next mask s got').1 <+: got := by
    have h : (crypt next mask s got').1 <+: (crypt next mask s (crypt next mask s got).1).1 :=
      crypt_isPrefix s (hgot'.trans hout)
    rwa [crypt_crypt hmask] at h
  exact (houtput.trans hback).trans hgot

end StreamCipher
