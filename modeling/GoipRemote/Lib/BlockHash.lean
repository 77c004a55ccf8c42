import GoipRemote.Lib.Buffer

/-!
# Hashing a text block by block

`absorb`: a chain value takes in the whole blocks of a text, and `rest` is what is left of it. A
`Hasher` has the chain value and a block that is being filled, and takes a text in part by part
(`feed`); `Holds` is what it holds then, however the text was cut (`feed_holds`). `pad` marks the
end of the text and fills up to the last cells of a block (`pad_holds`). A `Window` has the last
values of a recurrence, each in the place of the one that is no longer needed.
-/

namespace BlockHash

variable {α σ : Type}

section
variable (n : Nat) (compress : σ → List α → σ)

/-- The whole blocks of a text into the chain value. -/
def absorb (chain : σ) (text : List α) : σ :=
  if _ : 0 < n ∧ n ≤ text.length then absorb (compress chain (text.take n)) (text.drop n) else chain
termination_by text.length
decreasing_by
  rw [List.length_drop]
  omega

/-- What of a text makes no whole block. -/
def rest (text : List α) : List α := text.drop (text.length - text.length % n)

end

section
variable {n : Nat} {compress : σ → List α → σ} {chain : σ} {front text more : List α}

theorem absorb_block (hn : 0 < n) (h : front.length = n) :
    absorb n compress chain (front ++ more) = absorb n compress (compress chain front) more := by
  rw [absorb, dif_pos ⟨hn, by simp [h]⟩, List.take_left' h, List.drop_left' h]

theorem absorb_short (h : text.length < n) : absorb n compress chain text = chain := by
  rw [absorb, dif_neg (by omega)]

/-- Whole blocks in front are taken in first. -/
theorem absorb_append (hn : 0 < n) (h : n ∣ front.length) :
    absorb n compress chain (front ++ more) =
      absorb n compress (absorb n compress chain front) more := by
  obtain ⟨k, hk⟩ := h
  induction k generalizing chain front with
  | zero =>
    have hnil : front = [] := List.eq_nil_of_length_eq_zero (by simpa using hk)
    rw [hnil, List.nil_append, absorb_short (show ([] : List α).length < n from hn)]
  | succ k ih =>
    have hlen : n ≤ front.length := by
      rw [hk]
      exact Nat.le_mul_of_pos_right n (Nat.succ_pos k)
    have htake : (front.take n).length = n := by
      rw [List.length_take]
      omega
    have hleft : (front.drop n).length = n * k := by
      rw [List.length_drop, hk, Nat.mul_succ]
      omega
    have hfront := @absorb_block α σ n compress chain (front.take n) (front.drop n) hn htake
    rw [List.take_append_drop] at hfront
    rw [hfront, ← ih hleft, ← absorb_block hn htake, ← List.append_assoc, List.take_append_drop]

theorem rest_length (text : List α) : (rest n text).length = text.length % n := by
  have := Nat.mod_le text.length n
  rw [rest, List.length_drop]
  omega

theorem rest_short (h : text.length < n) : rest n text = text := by
  rw [rest, Nat.mod_eq_of_lt h, Nat.sub_self, List.drop_zero]

theorem rest_eq_nil (h : n ∣ text.length) : rest n text = [] := by
  apply List.eq_nil_of_length_eq_zero
  rw [rest_length, Nat.mod_eq_zero_of_dvd h]

/-- A text is its whole blocks and the rest. -/
theorem exists_blocks (n : Nat) (text : List α) :
    ∃ front, n ∣ front.length ∧ text = front ++ rest n text := by
  refine ⟨text.take (text.length - text.length % n), ?_, (List.take_append_drop _ _).symm⟩
  rw [List.length_take, Nat.min_eq_left (Nat.sub_le _ _)]
  exact Nat.dvd_sub_mod _

/-- More of a text goes behind what made no whole block. -/
theorem absorb_more (hn : 0 < n) :
    absorb n compress chain (text ++ more) =
      absorb n compress (absorb n compress chain text) (rest n text ++ more) := by
  obtain ⟨front, hfront, htext⟩ := exists_blocks n text
  have hrest : (rest n text).length < n := by
    rw [rest_length]
    exact Nat.mod_lt _ hn
  have habsorb : absorb n compress chain (front ++ rest n text) =
      absorb n compress chain front := by
    rw [absorb_append hn hfront, absorb_short hrest]
  rw [← htext] at habsorb
  rw [habsorb, ← absorb_append hn hfront, ← List.append_assoc, ← htext]

theorem rest_more : rest n (text ++ more) = rest n (rest n text ++ more) := by
  obtain ⟨front, ⟨k, hk⟩, htext⟩ := exists_blocks n text
  generalize rest n text = r at htext
  subst htext
  have hlen : (front ++ r ++ more).length = n * k + (r ++ more).length := by
    simp only [List.length_append]
    omega
  have hmod : (front ++ r ++ more).length % n = (r ++ more).length % n := by
    rw [hlen, Nat.mul_add_mod]
  have hle := Nat.mod_le (r ++ more).length n
  rw [rest, rest, hmod, hlen, List.append_assoc, List.drop_append,
    List.drop_eq_nil_of_le (by omega), List.nil_append]
  congr 1
  omega

end

/-! ## Part by part -/

/-- A chain value and the block that is being filled. -/
structure Hasher (σ α : Type) where
  chain : σ
  block : List α

section
variable (n : Nat) (transform : Hasher σ α → Hasher σ α)

/-- A text that begins a block: each whole block of it is hashed, and what is left stays in the
block. -/
def feedBlocks (s : Hasher σ α) (buf : List α) : Res (Hasher σ α) :=
  if _ : 0 < n ∧ n ≤ buf.length then do
    let block ← Buffer.storeAll s.block 0 (buf.take n)
    feedBlocks (transform { s with block }) (buf.drop n)
  else do
    let block ← Buffer.storeAll s.block 0 buf
    return { s with block }
termination_by buf.length
decreasing_by
  rw [List.length_drop]
  omega

/-- A text behind the `used` cells of the block. -/
def feed (s : Hasher σ α) (used : Nat) (buf : List α) : Res (Hasher σ α) :=
  if used = 0 then feedBlocks n transform s buf
  else if buf.length < n - used then do
    let block ← Buffer.storeAll s.block used buf
    return { s with block }
  else do
    let block ← Buffer.storeAll s.block used (buf.take (n - used))
    feedBlocks n transform (transform { s with block }) (buf.drop (n - used))

/-- The mark behind the text, and fill up to the last `k` cells of a block. -/
def pad (mark zero : α) (k : Nat) (s : Hasher σ α) (used : Nat) : Res (Hasher σ α) := do
  let block ← Buffer.store s.block used mark
  let count := n - 1 - used
  if count < k then do
    let block ← Buffer.storeAll block (used + 1) (List.replicate count zero)
    let s := transform { s with block }
    let block ← Buffer.storeAll s.block 0 (List.replicate (n - k) zero)
    return { s with block }
  else do
    let block ← Buffer.storeAll block (used + 1) (List.replicate (count - k) zero)
    return { s with block }

end

/-- The cells between the mark and the last `k` cells of a block, for a text of the given length. -/
def zeros (n k length : Nat) : Nat := (2 * n - k - 1 - length % n) % n

/-- A text with its mark, filled up to the last `k` cells of a block. -/
def padded (n k : Nat) (mark zero : α) (text : List α) : List α :=
  text ++ mark :: List.replicate (zeros n k text.length) zero

/-- The block is hashed, and used up by it. -/
def Hashes (n : Nat) (compress : σ → List α → σ) (transform : Hasher σ α → Hasher σ α) : Prop :=
  ∀ s, s.block.length = n →
    (transform s).chain = compress s.chain s.block ∧ (transform s).block.length = n

/-- A stream holds a text: its whole blocks are in the chain value, and the block begins with the
rest. -/
structure Holds (n : Nat) (compress : σ → List α → σ) (init : σ) (text : List α)
    (s : Hasher σ α) : Prop where
  chain : s.chain = absorb n compress init text
  length : s.block.length = n
  filled : s.block.take (text.length % n) = rest n text

section
variable {n : Nat} {compress : σ → List α → σ} {transform : Hasher σ α → Hasher σ α} {init : σ}
  {text b : List α} {s : Hasher σ α}

theorem holds_nil {block : List α} (hn : 0 < n) (h : block.length = n) :
    Holds n compress init [] ⟨init, block⟩ := by
  refine ⟨(absorb_short ?_).symm, h, ?_⟩
  · exact hn
  · simp [rest]

namespace Holds

/-- The last block of a text whose length is a multiple of the block's. -/
theorem last (h : Holds n compress init text s) (hn : 0 < n)
    (hlen : b.length = n - text.length % n) :
    absorb n compress init (text ++ b) =
      compress s.chain (s.block.take (text.length % n) ++ b) := by
  have hmod := Nat.mod_lt text.length hn
  have hblock : (rest n text ++ b).length = n := by
    rw [List.length_append, rest_length]
    omega
  have hone := @absorb_block α σ n compress s.chain (rest n text ++ b) [] hn hblock
  rw [List.append_nil] at hone
  rw [absorb_more hn, ← h.chain, hone, absorb_short hn, h.filled]

/-- Cells that leave the block open. -/
theorem store (h : Holds n compress init text s) (hlen : b.length < n - text.length % n) :
    ∃ block, Buffer.storeAll s.block (text.length % n) b = .ok block ∧
      Holds n compress init (text ++ b) { s with block } := by
  have hn : 0 < n := by omega
  have hroom : text.length % n + b.length ≤ s.block.length := by
    rw [h.length]
    omega
  have hshort : (rest n text ++ b).length < n := by
    rw [List.length_append, rest_length]
    omega
  have hmod : (text ++ b).length % n = text.length % n + b.length := by
    rw [List.length_append, Nat.add_mod, Nat.mod_eq_of_lt (show b.length < n by omega)]
    exact Nat.mod_eq_of_lt (by omega)
  refine ⟨_, Buffer.storeAll_slice hroom, ?_, ?_, ?_⟩
  · rw [absorb_more hn, absorb_short hshort]
    exact h.chain
  · simp only [List.length_append, List.length_take, List.length_drop, h.length]
    omega
  · have htake : (s.block.take (text.length % n) ++ b).length = text.length % n + b.length := by
      rw [List.length_append, h.filled, rest_length]
    rw [hmod, List.take_left' htake, rest_more, h.filled, rest_short hshort]

/-- Cells that fill the block up, which is hashed then. -/
theorem fill (h : Holds n compress init text s) (hhash : Hashes n compress transform)
    (hlen : b.length = n - text.length % n) (hn : 0 < n) :
    ∃ block, Buffer.storeAll s.block (text.length % n) b = .ok block ∧
      Holds n compress init (text ++ b) (transform { s with block }) ∧ n ∣ (text ++ b).length := by
  have hmod := Nat.mod_lt text.length hn
  have hroom : text.length % n + b.length = s.block.length := by
    rw [h.length]
    omega
  have hdvd : n ∣ (text ++ b).length := by
    have hdiv := Nat.div_add_mod text.length n
    have hsum : (text ++ b).length = n * (text.length / n) + n := by
      rw [List.length_append]
      omega
    rw [hsum]
    exact (Nat.dvd_mul_right n _).add (Nat.dvd_refl n)
  refine ⟨_, Buffer.storeAll_slice (Nat.le_of_eq hroom), ?_, hdvd⟩
  rw [hroom, List.drop_length, List.append_nil]
  have hblock : (s.block.take (text.length % n) ++ b).length = n := by
    rw [List.length_append, h.filled, rest_length]
    omega
  obtain ⟨hchain, hlength⟩ := hhash { s with block := s.block.take (text.length % n) ++ b } hblock
  refine ⟨?_, hlength, ?_⟩
  · rw [hchain, h.last hn hlen]
  · rw [Nat.mod_eq_zero_of_dvd hdvd, rest_eq_nil hdvd, List.take_zero]

end Holds

/-- The loop over the blocks, from the end of a block on. -/
theorem feedBlocks_holds {text b : List α} {s : Hasher σ α} (hhash : Hashes n compress transform)
    (hn : 0 < n) (h : Holds n compress init text s) (hdvd : n ∣ text.length) :
    ∃ s', feedBlocks n transform s b = .ok s' ∧ Holds n compress init (text ++ b) s' := by
  have hmod := Nat.mod_eq_zero_of_dvd hdvd
  by_cases hlen : n ≤ b.length
  · have htake : (b.take n).length = n - text.length % n := by
      rw [List.length_take, hmod]
      omega
    obtain ⟨block, hstore, hnext, hdvd'⟩ := h.fill hhash htake hn
    obtain ⟨s', hs', h'⟩ := feedBlocks_holds (b := b.drop n) hhash hn hnext hdvd'
    rw [hmod] at hstore
    refine ⟨s', ?_, ?_⟩
    · rw [feedBlocks, dif_pos ⟨hn, hlen⟩, hstore, Res.ok_bind, hs']
    · rwa [List.append_assoc, List.take_append_drop] at h'
  · obtain ⟨block, hstore, h'⟩ := h.store (b := b) (by omega)
    rw [hmod] at hstore
    refine ⟨{ s with block }, ?_, h'⟩
    rw [feedBlocks, dif_neg (fun hle => hlen hle.2), hstore]
    rfl
termination_by b.length
decreasing_by
  rw [List.length_drop]
  omega

/-- **A part** of the text, of any length. -/
theorem feed_holds (hhash : Hashes n compress transform) (hn : 0 < n)
    (h : Holds n compress init text s) (buf : List α) :
    ∃ s', feed n transform s (text.length % n) buf = .ok s' ∧
      Holds n compress init (text ++ buf) s' := by
  unfold feed
  by_cases hused : text.length % n = 0
  · rw [if_pos hused]
    exact feedBlocks_holds hhash hn h (Nat.dvd_of_mod_eq_zero hused)
  · rw [if_neg hused]
    by_cases hlen : buf.length < n - text.length % n
    · obtain ⟨block, hstore, h'⟩ := h.store hlen
      rw [if_pos hlen, hstore]
      exact ⟨_, rfl, h'⟩
    · have htake : (buf.take (n - text.length % n)).length = n - text.length % n := by
        rw [List.length_take]
        omega
      obtain ⟨block, hstore, hnext, hdvd⟩ := h.fill hhash htake hn
      obtain ⟨s', hs', h'⟩ :=
        feedBlocks_holds (b := buf.drop (n - text.length % n)) hhash hn hnext hdvd
      rw [List.append_assoc, List.take_append_drop] at h'
      rw [if_neg hlen, hstore]
      exact ⟨s', hs', h'⟩

theorem zeros_open {k length : Nat} (h : k + length % n < n) :
    zeros n k length = n - 1 - length % n - k := by
  have hsum : 2 * n - k - 1 - length % n = n - 1 - length % n - k + n := by omega
  rw [zeros, hsum, Nat.add_mod_right, Nat.mod_eq_of_lt (by omega)]

theorem zeros_full {k length : Nat} (hk : 0 < k) (hkn : k < n) (h : n ≤ k + length % n) :
    zeros n k length = n - 1 - length % n + (n - k) := by
  have hmod := Nat.mod_lt length (show 0 < n by omega)
  rw [zeros, Nat.mod_eq_of_lt (by omega)]
  omega

/-- **The mark** and what fills up behind it: `k` cells of a block are left. -/
theorem pad_holds {k : Nat} (hhash : Hashes n compress transform) (hk : 0 < k) (hkn : k < n)
    (h : Holds n compress init text s) (mark zero : α) :
    ∃ s', pad n transform mark zero k s (text.length % n) = .ok s' ∧
      Holds n compress init (padded n k mark zero text) s' ∧
      (padded n k mark zero text).length % n = n - k := by
  have hn : 0 < n := by omega
  have hmod := Nat.mod_lt text.length hn
  have hdiv := Nat.div_add_mod text.length n
  have hstores : ∀ (cells : List α) (f : List α → Res (Hasher σ α)),
      (Buffer.store s.block (text.length % n) mark >>= fun block =>
        Buffer.storeAll block (text.length % n + 1) cells >>= f) =
      Buffer.storeAll s.block (text.length % n) (mark :: cells) >>= f := by
    intro cells f
    rw [Buffer.storeAll, Res.bind_assoc]
  unfold pad padded
  by_cases hroom : n - 1 - text.length % n < k
  · -- the block is full before `k` cells are left, and the next one begins with zeros
    obtain ⟨block, hstore, hnext, hdvd⟩ :=
      h.fill (b := mark :: List.replicate (n - 1 - text.length % n) zero) hhash
        (by rw [List.length_cons, List.length_replicate]; omega) hn
    obtain ⟨block', hstore', h'⟩ := hnext.store (b := List.replicate (n - k) zero)
      (by rw [List.length_replicate, Nat.mod_eq_zero_of_dvd hdvd]; omega)
    rw [Nat.mod_eq_zero_of_dvd hdvd] at hstore'
    have htext : text ++ mark :: List.replicate (n - 1 - text.length % n) zero ++
        List.replicate (n - k) zero =
        text ++ mark :: List.replicate (zeros n k text.length) zero := by
      rw [zeros_full hk hkn (by omega), List.append_assoc, List.cons_append,
        List.replicate_append_replicate]
    rw [htext] at h'
    refine ⟨_, ?_, h', ?_⟩
    · simp only [if_pos hroom]
      rw [hstores, hstore, Res.ok_bind, hstore']
      rfl
    · have hsum : (text ++ mark :: List.replicate (zeros n k text.length) zero).length =
          n * (text.length / n) + n + (n - k) := by
        rw [zeros_full hk hkn (by omega)]
        simp only [List.length_append, List.length_cons, List.length_replicate]
        omega
      rw [hsum, Nat.add_assoc, Nat.mul_add_mod, Nat.add_mod_left, Nat.mod_eq_of_lt (by omega)]
  · have hzeros := zeros_open (k := k) (show k + text.length % n < n by omega)
    obtain ⟨block, hstore, h'⟩ :=
      h.store (b := mark :: List.replicate (n - 1 - text.length % n - k) zero)
        (by rw [List.length_cons, List.length_replicate]; omega)
    rw [← hzeros] at hstore h'
    refine ⟨_, ?_, h', ?_⟩
    · simp only [if_neg hroom, ← hzeros]
      rw [hstores, hstore]
      rfl
    · have hsum : (text ++ mark :: List.replicate (zeros n k text.length) zero).length =
          n * (text.length / n) + (n - k) := by
        simp only [hzeros, List.length_append, List.length_cons, List.length_replicate]
        omega
      rw [hsum, Nat.mul_add_mod, Nat.mod_eq_of_lt (by omega)]

end

/-! ## The length of the text

Its bits are counted in two words, for a text of bytes. -/

/-- More bytes, with the carry from the low word to the high one. -/
def addBits (lo hi : UInt32) (length : Nat) : UInt32 × UInt32 :=
  let sum := lo + (UInt32.ofNat length <<< 3)
  let hi := if sum < lo then hi + 1 else hi
  (sum, hi + .ofNat (length >>> 29))

/-- The words count the bits of so many bytes, modulo 2 to the 64. -/
def Counts (lo hi : UInt32) (length : Nat) : Prop :=
  lo = .ofNat (8 * length) ∧ hi = .ofNat (8 * length / 4294967296)

theorem addBits_counts {lo hi : UInt32} {length more : Nat} (h : Counts lo hi length)
    (hmore : more < 4294967296) :
    Counts (addBits lo hi more).1 (addBits lo hi more).2 (length + more) := by
  obtain ⟨rfl, rfl⟩ := h
  have hlo : (UInt32.ofNat (8 * length) + (UInt32.ofNat more <<< 3)).toNat =
      (8 * length + 8 * more) % 4294967296 := by
    have hshift : (UInt32.ofNat more <<< 3).toNat = 8 * more % 4294967296 := by
      rw [UInt32.toNat_shiftLeft, UInt32.toNat_ofNat_of_lt' hmore,
        show (3 : UInt32).toNat % 32 = 3 from rfl, Nat.shiftLeft_eq]
      omega
    rw [UInt32.toNat_add, hshift, UInt32.toNat_ofNat']
    omega
  have hcarry : UInt32.ofNat (8 * length) + (UInt32.ofNat more <<< 3) < UInt32.ofNat (8 * length) ↔
      4294967296 ≤ 8 * length % 4294967296 + 8 * more % 4294967296 := by
    rw [UInt32.lt_iff_toNat_lt, hlo, UInt32.toNat_ofNat']
    omega
  refine ⟨UInt32.toNat_inj.1 ?_, UInt32.toNat_inj.1 ?_⟩
  · rw [addBits, hlo, UInt32.toNat_ofNat']
    omega
  · simp only [addBits, hcarry]
    split
    · rw [UInt32.toNat_add, UInt32.toNat_add, UInt32.toNat_ofNat', UInt32.toNat_ofNat',
        UInt32.toNat_ofNat', Nat.shiftRight_eq_div_pow, show (1 : UInt32).toNat = 1 from rfl]
      omega
    · rw [UInt32.toNat_add, UInt32.toNat_ofNat', UInt32.toNat_ofNat', UInt32.toNat_ofNat',
        Nat.shiftRight_eq_div_pow]
      omega

/-- The bytes of the last block that is not full, of 64. -/
theorem Counts.used {lo hi : UInt32} {length : Nat} (h : Counts lo hi length) :
    ((lo >>> 3) &&& 0x3f).toNat = length % 64 := by
  rw [h.1, UInt32.toNat_and, UInt32.toNat_shiftRight, UInt32.toNat_ofNat',
    show (3 : UInt32).toNat % 32 = 3 from rfl, show (0x3f : UInt32).toNat = 2 ^ 6 - 1 from rfl,
    Nat.and_two_pow_sub_one_eq_mod, Nat.shiftRight_eq_div_pow]
  omega

/-- A part of a text of bytes, for blocks of 64 of them and a count of the bits. -/
def update (transform : Hasher σ UInt8 → Hasher σ UInt8) (s : Hasher σ UInt8) (lo hi : UInt32)
    (buf : List UInt8) : Res (Hasher σ UInt8 × UInt32 × UInt32) := do
  let count := addBits lo hi buf.length
  let used := ((lo >>> 3) &&& 0x3f).toNat
  let s ← feed 64 transform s used buf
  return (s, count)

theorem update_holds {compress : σ → List UInt8 → σ} {transform : Hasher σ UInt8 → Hasher σ UInt8}
    {init : σ} {text buf : List UInt8} {s : Hasher σ UInt8} {lo hi : UInt32}
    (hhash : Hashes 64 compress transform) (h : Holds 64 compress init text s)
    (hcount : Counts lo hi text.length) (hbuf : buf.length < 4294967296) :
    ∃ s' lo' hi', update transform s lo hi buf = .ok (s', lo', hi') ∧
      Holds 64 compress init (text ++ buf) s' ∧ Counts lo' hi' (text ++ buf).length := by
  obtain ⟨s', hs, hholds⟩ := feed_holds hhash (by decide) h buf
  have hcounts := addBits_counts hcount hbuf
  rw [← List.length_append] at hcounts
  refine ⟨s', _, _, ?_, hholds, hcounts⟩
  rw [update, hcount.used, hs]
  rfl

/-- What one part keeps, any number of parts keep. -/
theorem foldlM_parts {γ : Type} {f : γ → List α → Res γ} {I : List α → γ → Prop}
    {P : List α → Prop}
    (hstep : ∀ text ctx part, I text ctx → P part →
      ∃ ctx', f ctx part = .ok ctx' ∧ I (text ++ part) ctx')
    {parts : List (List α)} (hparts : ∀ part ∈ parts, P part)
    {text : List α} {ctx : γ} (h : I text ctx) :
    ∃ ctx', parts.foldlM f ctx = .ok ctx' ∧ I (text ++ parts.flatten) ctx' := by
  induction parts generalizing text ctx with
  | nil => exact ⟨ctx, rfl, by simpa using h⟩
  | cons part parts ih =>
    obtain ⟨ctx₁, hone, h₁⟩ := hstep text ctx part h (hparts part List.mem_cons_self)
    obtain ⟨ctx₂, hrest, h₂⟩ :=
      ih (fun other hother => hparts other (List.mem_cons_of_mem _ hother)) h₁
    refine ⟨ctx₂, ?_, ?_⟩
    · rw [List.foldlM_cons, hone, Res.ok_bind, hrest]
    · rwa [List.flatten_cons, ← List.append_assoc]

/-! ## A round -/

/-- Each bit of one word chooses between those of two others. -/
theorem xor_and_xor (x y z : UInt32) : z ^^^ (x &&& (y ^^^ z)) = (x &&& y) ||| (~~~x &&& z) := by
  apply UInt32.toBitVec_inj.1
  apply BitVec.eq_of_getLsbD_eq
  intro i hi
  simp only [UInt32.toBitVec_xor, UInt32.toBitVec_and, UInt32.toBitVec_or, UInt32.toBitVec_not,
    BitVec.getLsbD_xor, BitVec.getLsbD_and, BitVec.getLsbD_or, BitVec.getLsbD_not, hi, decide_true,
    Bool.true_and]
  cases x.toBitVec.getLsbD i <;> cases y.toBitVec.getLsbD i <;> cases z.toBitVec.getLsbD i <;> rfl

/-! ## A recurrence in a window -/

section
variable {n : Nat}

/-- The `n` values before `i` of a sequence, each at its index modulo `n`. -/
def Window (w : Nat → α) (i : Nat) (ring : Vector α n) : Prop :=
  ∀ (hn : 0 < n) (j : Nat), j < i → i ≤ j + n → ring.get ⟨j % n, Nat.mod_lt j hn⟩ = w j

/-- The next value takes the place of the oldest one. -/
theorem Window.push {w : Nat → α} {i : Nat} {ring : Vector α n} (h : Window w i ring)
    (hn : 0 < n) {a : α} (ha : a = w i) :
    Window w (i + 1) (ring.set (i % n) a (Nat.mod_lt i hn)) := by
  intro _ j hj hi
  have hbound := Nat.mod_lt j hn
  show (ring.set (i % n) a (Nat.mod_lt i hn))[j % n] = w j
  rw [Vector.getElem_set]
  split
  · next heq =>
    -- of the `n` indices up to `i`, none but `i` has its place
    have hji : j = i := by
      by_contra hne
      have hmod := Nat.sub_mod_eq_zero_of_mod_eq heq
      have hle := Nat.le_of_dvd (by omega) (Nat.dvd_of_mod_eq_zero hmod)
      omega
    rw [ha, hji]
  · next hne =>
    have hlt : j ≠ i := fun heq => hne (by rw [heq])
    exact h hn j (by omega) (by omega)

end

end BlockHash
