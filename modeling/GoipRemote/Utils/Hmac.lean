import GoipRemote.Utils.Sha1

/-!
# The keyed hash (`sha1.c`)

`Hmac.code` is the hash under a key as the comments of `sha1.c` have it, and `hmacSha2_eq` says that
`hmac_sha2` comes to it for the texts one behind the other.
-/

namespace Utils

open BlockHash Sha1

/-- A key of more than 64 bytes is hashed, in the variable `tctx`. -/
def hmacKey (o : ByteOrder) (tctx : Vector UInt8 64) (key : List UInt8) : Res (List UInt8) :=
  if key.length > 64 then do
    let tctx ← shaUpdate o (shaInit o tctx.toList) key
    let (tk, _) ← shaFinal o tctx
    return tk
  else return key

/-- What `hmac_sha` and `hmac_sha2` have in common; `inner` hashes the text. The memory is that of
`tctx` and `context`. -/
def hmacWith (o : ByteOrder) (tctx context : Vector UInt8 64) (inner : ShaCtx → Res ShaCtx)
    (key : List UInt8) : Res (List UInt8) := do
  let key ← hmacKey o tctx key
  let k_ipad ← Buffer.storeAll (List.replicate 65 0) 0 key
  let k_opad ← Buffer.storeAll (List.replicate 65 0) 0 key
  let k_ipad := (k_ipad.take 64).map (· ^^^ 0x36) ++ k_ipad.drop 64
  let k_opad := (k_opad.take 64).map (· ^^^ 0x5c) ++ k_opad.drop 64
  let context ← shaUpdate o (shaInit o context.toList) (k_ipad.take 64)
  let context ← inner context
  let (digest, context) ← shaFinal o context
  let context ← shaUpdate o (shaInit o context.data) (k_opad.take 64)
  let context ← shaUpdate o context (digest.take 20)
  let (digest, _) ← shaFinal o context
  return digest

/-- `hmac_sha`. -/
def hmacSha (o : ByteOrder) (tctx context : Vector UInt8 64) (text key : List UInt8) :
    Res (List UInt8) :=
  hmacWith o tctx context (fun context => shaUpdate o context text) key

/-- `hmac_sha2`, for the texts of the list. -/
def hmacSha2 (o : ByteOrder) (tctx context : Vector UInt8 64) (texts : List (List UInt8))
    (key : List UInt8) : Res (List UInt8) :=
  hmacWith o tctx context (fun context => texts.foldlM (shaUpdate o) context) key

namespace Hmac

/-- A key of a block's length: a longer one is hashed, a shorter one is filled up. -/
def blockKey (hash : List UInt8 → List UInt8) (key : List UInt8) : List UInt8 :=
  let key := if key.length > 64 then hash key else key
  key ++ List.replicate (64 - key.length) 0

/-- `SHA(K XOR opad, SHA(K XOR ipad, text))`. -/
def code (hash : List UInt8 → List UInt8) (key text : List UInt8) : List UInt8 :=
  let k := blockKey hash key
  hash (k.map (· ^^^ 0x5c) ++ hash (k.map (· ^^^ 0x36) ++ text))

theorem digest_length (text : List UInt8) : (digest text).length = 20 := by
  rw [digest, ByteOrder.bytes_length]
  rfl

/-- The pads hold the key, and zeros behind it. -/
theorem storeAll_key {key : List UInt8} (h : key.length ≤ 64) :
    Buffer.storeAll (List.replicate 65 0) 0 key =
      .ok (key ++ List.replicate (64 - key.length) 0 ++ [0]) := by
  have hstore := @Buffer.storeAll_slice _ (List.replicate 65 (0 : UInt8)) key 0
    (by rw [List.length_replicate]; omega)
  have hrest : List.replicate (65 - key.length) (0 : UInt8) =
      List.replicate (64 - key.length) 0 ++ [0] := by
    rw [show 65 - key.length = 64 - key.length + 1 by omega, List.replicate_succ']
  rw [hstore, Nat.zero_add, List.take_zero, List.nil_append, List.drop_replicate, hrest,
    List.append_assoc]

/-- The first 64 bytes of a pad, with a byte on each of them. -/
theorem take_pad {k : List UInt8} (h : k.length = 64) (b : UInt8) :
    (((k ++ [0]).take 64).map (· ^^^ b) ++ (k ++ [0]).drop 64).take 64 = k.map (· ^^^ b) := by
  have htake : (k ++ [0]).take 64 = k := List.take_left' h
  rw [htake, List.take_left' (by rw [List.length_map, h])]

end Hmac

open Hmac

section
variable {o : ByteOrder} {tctx context : Vector UInt8 64} {key : List UInt8}

/-- The key that is put into the pads. -/
theorem hmacKey_eq (hkey : key.length < 2 ^ 31) :
    ∃ k, hmacKey o tctx key = .ok k ∧ k.length ≤ 64 ∧
      k ++ List.replicate (64 - k.length) 0 = blockKey digest key := by
  unfold hmacKey blockKey
  by_cases hlong : key.length > 64
  · obtain ⟨ctx, hctx, hholds⟩ := shaUpdate_holds (shaInit_holds o tctx.length_toList) hkey
    obtain ⟨ctx', hctx', _⟩ := shaFinal_digest hholds
    refine ⟨digest key, ?_, ?_, ?_⟩
    · rw [if_pos hlong, hctx, Res.ok_bind, hctx']
      rfl
    · rw [digest_length]
      decide
    · rw [if_pos hlong]
  · refine ⟨key, ?_, Nat.le_of_not_gt hlong, ?_⟩
    · rw [if_neg hlong]
      rfl
    · rw [if_neg hlong]

/-- The hash of a text behind the key, with any function that takes the text in. -/
theorem hmacWith_eq {inner : ShaCtx → Res ShaCtx} {text : List UInt8} (hkey : key.length < 2 ^ 31)
    (hinner : ∀ front ctx, CtxHolds o front ctx →
      ∃ ctx', inner ctx = .ok ctx' ∧ CtxHolds o (front ++ text) ctx') :
    hmacWith o tctx context inner key = .ok (code digest key text) := by
  obtain ⟨k, hk, hle, hblock⟩ := @hmacKey_eq o tctx key hkey
  have hlen : (blockKey digest key).length = 64 := by
    rw [← hblock, List.length_append, List.length_replicate]
    omega
  have hpad : ∀ b : UInt8, ((blockKey digest key).map (· ^^^ b)).length < 2 ^ 31 := by
    intro b
    rw [List.length_map, hlen]
    decide
  obtain ⟨c₁, h₁, hc₁⟩ := shaUpdate_holds (shaInit_holds o context.length_toList) (hpad 0x36)
  obtain ⟨c₂, h₂, hc₂⟩ := hinner _ _ hc₁
  obtain ⟨c₃, h₃, hdata⟩ := shaFinal_digest hc₂
  obtain ⟨c₄, h₄, hc₄⟩ := shaUpdate_holds (shaInit_holds o hdata) (hpad 0x5c)
  obtain ⟨c₅, h₅, hc₅⟩ :=
    shaUpdate_holds (b := digest ([] ++ (blockKey digest key).map (· ^^^ 0x36) ++ text)) hc₄
      (by rw [digest_length]; decide)
  obtain ⟨c₆, h₆, _⟩ := shaFinal_digest hc₅
  have hstore := storeAll_key hle
  rw [hblock] at hstore
  have htake : ∀ text, (digest text).take 20 = digest text := fun text =>
    List.take_of_length_le (Nat.le_of_eq (digest_length text))
  unfold hmacWith
  rw [hk]
  simp only [Res.ok_bind, hstore, take_pad hlen, h₁, h₂, h₃, h₄, htake, h₅, h₆]
  rfl

end

/-- **The code of some texts** is that of the texts one behind the other, and `hmac_sha` finds it
too. -/
theorem hmacSha2_eq (o : ByteOrder) (tctx context : Vector UInt8 64) (texts : List (List UInt8))
    (key : List UInt8) (hkey : key.length < 2 ^ 31)
    (htexts : ∀ text ∈ texts, text.length < 2 ^ 31) :
    hmacSha2 o tctx context texts key = .ok (code digest key texts.flatten) ∧
      (texts.flatten.length < 2 ^ 31 →
        hmacSha o tctx context texts.flatten key = hmacSha2 o tctx context texts key) := by
  have hlist : hmacSha2 o tctx context texts key = .ok (code digest key texts.flatten) :=
    hmacWith_eq hkey fun front ctx hctx => foldlM_parts (fun _ _ _ => shaUpdate_holds) htexts hctx
  refine ⟨hlist, fun hlen => ?_⟩
  rw [hlist]
  exact hmacWith_eq hkey fun front ctx hctx => shaUpdate_holds hctx hlen

/-- Two texts under a short key, on a machine with the high byte first. -/
theorem hmacSha2_eq_two :
    hmacSha2 .big (Vector.replicate 64 7) (Vector.replicate 64 9) [[97, 98], [99]] [1, 2, 3] =
        .ok (code digest [1, 2, 3] [97, 98, 99]) ∧
      (([97, 98, 99] : List UInt8).length < 2 ^ 31 →
        hmacSha .big (Vector.replicate 64 7) (Vector.replicate 64 9) [97, 98, 99] [1, 2, 3] =
          hmacSha2 .big (Vector.replicate 64 7) (Vector.replicate 64 9) [[97, 98], [99]]
            [1, 2, 3]) :=
  hmacSha2_eq .big (Vector.replicate 64 7) (Vector.replicate 64 9) [[97, 98], [99]] [1, 2, 3]
    (by decide) (by decide)

end Utils
