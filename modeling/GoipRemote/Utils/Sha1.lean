import GoipRemote.Lib.BlockHash
import GoipRemote.Lib.ByteOrder

/-!
# SHA-1 (`sha1.h`, `sha1.c`)

`UINT4` is an `unsigned long`, taken to have 32 bits as its comment says, and the 64 bytes of `data` are kept
as they lie in the memory of a machine of either byte order. `Sha1.digest` is the hash as the comments of `sha1.h` describe it: 80 words by a
recurrence, 80 rounds that rename their variables, the text padded to whole blocks. The code keeps
16 of the words in a ring, has the renaming unrolled and takes the text in parts; `sha_parts` says
that it comes to the same.
-/

namespace Utils

open BlockHash

/-- The five words of a digest, and the variables `A` to `E`. -/
structure Words5 where
  a : UInt32
  b : UInt32
  c : UInt32
  d : UInt32
  e : UInt32
  deriving DecidableEq, Repr

namespace Sha1

def words : Words5 → List UInt32
  | ⟨a, b, c, d, e⟩ => [a, b, c, d, e]

def f1 (x y z : UInt32) : UInt32 := z ^^^ (x &&& (y ^^^ z))

def f2 (x y z : UInt32) : UInt32 := x ^^^ y ^^^ z

def f3 (x y z : UInt32) : UInt32 := (x &&& y) ||| (z &&& (x ||| y))

def f4 (x y z : UInt32) : UInt32 := x ^^^ y ^^^ z

def K1 : UInt32 := 0x5A827999

def K2 : UInt32 := 0x6ED9EBA1

def K3 : UInt32 := 0x8F1BBCDC

def K4 : UInt32 := 0xCA62C1D6

/-- `h0init` to `h4init`. -/
def hinit : Words5 := ⟨0x67452301, 0xEFCDAB89, 0x98BADCFE, 0x10325476, 0xC3D2E1F0⟩

/-- `ROTL`. -/
def rotl (n x : UInt32) : UInt32 := (x <<< n) ||| (x >>> (32 - n))

/-- `expand`. The macro's `& 15` is the remainder by 16. -/
def expand (W : Vector UInt32 16) (i : Nat) : Vector UInt32 16 × UInt32 :=
  let x := rotl 1 (W[i % 16] ^^^ W[(i - 14) % 16] ^^^ W[(i - 8) % 16] ^^^ W[(i - 3) % 16])
  (W.set (i % 16) x, x)

/-- The data of call `i` of `subRound`: `eData[i]`, from 16 on `expand(eData, i)`. -/
def data (eData : Vector UInt32 16) (i : Nat) : Vector UInt32 16 × UInt32 :=
  if i < 16 then (eData, eData[i % 16]) else expand eData i

/-- `subRound`: the new values of `e` and `b`. -/
def subRound (a b c d e : UInt32) (f : UInt32 → UInt32 → UInt32 → UInt32) (k data : UInt32) :
    UInt32 × UInt32 :=
  (e + (rotl 5 a + f b c d + k + data), rotl 30 b)

/-- Five calls of `subRound` from call `i` on: then the variables have their names again. -/
def fiveRounds (f : UInt32 → UInt32 → UInt32 → UInt32) (k : UInt32) (i : Nat) :
    Words5 × Vector UInt32 16 → Words5 × Vector UInt32 16
  | (⟨A, B, C, D, E⟩, eData) =>
    let (eData, x) := data eData i
    let (E, B) := subRound A B C D E f k x
    let (eData, x) := data eData (i + 1)
    let (D, A) := subRound E A B C D f k x
    let (eData, x) := data eData (i + 2)
    let (C, E) := subRound D E A B C f k x
    let (eData, x) := data eData (i + 3)
    let (B, D) := subRound C D E A B f k x
    let (eData, x) := data eData (i + 4)
    let (A, C) := subRound B C D E A f k x
    (⟨A, B, C, D, E⟩, eData)

/-- The calls with one of the functions. -/
def twentyRounds (f : UInt32 → UInt32 → UInt32 → UInt32) (k : UInt32) (i : Nat)
    (s : Words5 × Vector UInt32 16) : Words5 × Vector UInt32 16 :=
  fiveRounds f k (i + 15) (fiveRounds f k (i + 10) (fiveRounds f k (i + 5) (fiveRounds f k i s)))

end Sha1

open Sha1

/-- `SHSTransform`. -/
def shsTransform (digest : Words5) (eData : Vector UInt32 16) : Words5 :=
  let s := twentyRounds f1 K1 0 (digest, eData)
  let s := twentyRounds f2 K2 20 s
  let s := twentyRounds f3 K3 40 s
  let s := twentyRounds f4 K4 60 s
  ⟨digest.a + s.1.a, digest.b + s.1.b, digest.c + s.1.c, digest.d + s.1.d, digest.e + s.1.e⟩

/-! ## The context -/

/-- `SHA_CTX`. -/
structure ShaCtx where
  digest : Words5
  countLo : UInt32
  countHi : UInt32
  data : List UInt8
  endianness : Bool

/-- `endianTest` on a machine of the order `o`, whose short word is that of the bytes of `"#S"`. -/
def endianTest (o : ByteOrder) : Bool :=
  let short : Nat := match o with
    | .little => 0x53 * 256 + 0x23
    | .big => 0x23 * 256 + 0x53
  short >>> 8 == 0x23

/-- `SHAInit`: the data stay as they are in memory. -/
def shaInit (o : ByteOrder) (data : List UInt8) : ShaCtx where
  digest := hinit
  countLo := 0
  countHi := 0
  data
  endianness := endianTest o

namespace Sha1

/-- The two assignments of `longReverse` to `value`. -/
def swap (value : UInt32) : UInt32 :=
  let value := ((value &&& 0xFF00FF00) >>> 8) ||| ((value &&& 0x00FF00FF) <<< 8)
  (value <<< 16) ||| (value >>> 16)

end Sha1

/-- `longReverse`. -/
def longReverse (o : ByteOrder) (buffer : List UInt8) (byteCount : Nat) (endianness : Bool) :
    List UInt8 :=
  if endianness then buffer
  else
    let front := buffer.take (byteCount / 4 * 4)
    o.bytes ((o.words front).map swap) ++ buffer.drop (byteCount / 4 * 4)

namespace Sha1

/-- The `data` as words. -/
def wordsOf (o : ByteOrder) (data : List UInt8) : Vector UInt32 16 :=
  Vector.ofFn fun i => (o.words data).getD i 0

/-- `longReverse` and `SHSTransform`, as they are called on a full block. -/
def transform (o : ByteOrder) (endianness : Bool) (s : Hasher Words5 UInt8) : Hasher Words5 UInt8 :=
  let data := longReverse o s.block 64 endianness
  ⟨shsTransform s.chain (wordsOf o data), data⟩

end Sha1

/-- `SHAUpdate`. -/
def shaUpdate (o : ByteOrder) (ctx : ShaCtx) (buffer : List UInt8) : Res ShaCtx := do
  let (s, countLo, countHi) ←
    update (transform o ctx.endianness) ⟨ctx.digest, ctx.data⟩ ctx.countLo ctx.countHi buffer
  return { ctx with digest := s.chain, data := s.block, countLo, countHi }

/-- `SHAtoByte`. -/
def shaToByte (input : List UInt32) : List UInt8 :=
  input.flatMap fun (w : UInt32) => [((w >>> 24) &&& 0xff).toUInt8, ((w >>> 16) &&& 0xff).toUInt8,
    ((w >>> 8) &&& 0xff).toUInt8, (w &&& 0xff).toUInt8]

/-- `SHAFinal`: the output, and the context. The last `memset` has the size of a pointer, of 32 bits
here, and clears one word. -/
def shaFinal (o : ByteOrder) (ctx : ShaCtx) : Res (List UInt8 × ShaCtx) := do
  let count := ((ctx.countLo >>> 3) &&& 0x3f).toNat
  let s ← pad 64 (transform o ctx.endianness) 0x80 0 8 ⟨ctx.digest, ctx.data⟩ count
  let data ← Buffer.storeAll s.block 56 (o.store ctx.countHi ++ o.store ctx.countLo)
  let data := longReverse o data 56 ctx.endianness
  let digest := shsTransform s.chain (wordsOf o data)
  return (shaToByte (Sha1.words digest), { ctx with digest := { digest with a := 0 }, data })

/-- `SHA1`. -/
def sha1 (o : ByteOrder) (memory : Vector UInt8 64) (d : List UInt8) : Res (List UInt8) := do
  let c ← shaUpdate o (shaInit o memory.toList) d
  let (md, _) ← shaFinal o c
  return md

/-! ## The hash -/

namespace Sha1

def choose (x y z : UInt32) : UInt32 := (x &&& y) ||| (~~~x &&& z)

def parity (x y z : UInt32) : UInt32 := x ^^^ y ^^^ z

def majority (x y z : UInt32) : UInt32 := (x &&& y) ||| (x &&& z) ||| (y &&& z)

/-- The function and the constant of a round. -/
def ofRound (i : Nat) : (UInt32 → UInt32 → UInt32 → UInt32) × UInt32 :=
  if i < 20 then (choose, K1) else if i < 40 then (parity, K2) else if i < 60 then (majority, K3)
  else (parity, K4)

/-- The expanded words. -/
def schedule (m : Nat → UInt32) (i : Nat) : UInt32 :=
  if i < 16 then m i
  else
    rotl 1 (schedule m (i - 16) ^^^ schedule m (i - 14) ^^^ schedule m (i - 8) ^^^
      schedule m (i - 3))
termination_by i

/-- A round renames its variables. -/
def round (f : UInt32 → UInt32 → UInt32 → UInt32) (k x : UInt32) (v : Words5) : Words5 :=
  ⟨v.e + (rotl 5 v.a + f v.b v.c v.d + k + x), v.a, rotl 30 v.b, v.c, v.d⟩

/-- Some rounds, from round `i` on. -/
def rounds (w : Nat → UInt32) (i count : Nat) (v : Words5) : Words5 :=
  (List.range' i count).foldl (fun v i => round (ofRound i).1 (ofRound i).2 (w i) v) v

def compressWords (chain : Words5) (m : Nat → UInt32) : Words5 :=
  let v := rounds (schedule m) 0 80 chain
  ⟨chain.a + v.a, chain.b + v.b, chain.c + v.c, chain.d + v.d, chain.e + v.e⟩

def compress (chain : Words5) (block : List UInt8) : Words5 :=
  compressWords chain fun i => (ByteOrder.big.words block).getD i 0

/-- A text, padded, and the number of its bits, the high word first. -/
def message (text : List UInt8) : List UInt8 :=
  padded 64 8 0x80 0 text ++
    ByteOrder.big.bytes [.ofNat (8 * text.length / 4294967296), .ofNat (8 * text.length)]

/-- The hash of a text. -/
def digest (text : List UInt8) : List UInt8 :=
  ByteOrder.big.bytes (words (absorb 64 compress hinit (message text)))

/-! ### The rounds -/

theorem f1_eq (x y z : UInt32) : f1 x y z = choose x y z := xor_and_xor x y z

theorem f3_eq (x y z : UInt32) : f3 x y z = majority x y z := by
  apply UInt32.toBitVec_inj.1
  apply BitVec.eq_of_getLsbD_eq
  intro i hi
  simp only [f3, majority, UInt32.toBitVec_and, UInt32.toBitVec_or, BitVec.getLsbD_and,
    BitVec.getLsbD_or]
  cases x.toBitVec.getLsbD i <;> cases y.toBitVec.getLsbD i <;> cases z.toBitVec.getLsbD i <;> rfl

section
variable {m : Nat → UInt32} {eData : Vector UInt32 16} {i : Nat}

/-- The data of a call is the word of its round, in a ring with the words before it. -/
theorem data_spec (h : Window (schedule m) (max i 16) eData) :
    (data eData i).2 = schedule m i ∧
      Window (schedule m) (max (i + 1) 16) (data eData i).1 := by
  unfold data
  by_cases hi : i < 16
  · rw [if_pos hi]
    refine ⟨h (by decide) i (by omega) (by omega), ?_⟩
    rwa [show max (i + 1) 16 = max i 16 by omega]
  · rw [if_neg hi]
    have hmax : max i 16 = i := by omega
    rw [hmax] at h
    have h16 : eData[i % 16] = schedule m (i - 16) := by
      have hold := h (by decide) (i - 16) (by omega) (by omega)
      simp only [show (i - 16) % 16 = i % 16 by omega] at hold
      exact hold
    have hword : (expand eData i).2 = schedule m i := by
      rw [schedule, if_neg hi, ← h16, ← h (by decide) (i - 14) (by omega) (by omega),
        ← h (by decide) (i - 8) (by omega) (by omega),
        ← h (by decide) (i - 3) (by omega) (by omega)]
      rfl
    refine ⟨hword, ?_⟩
    rw [show max (i + 1) 16 = i + 1 by omega]
    exact h.push (by decide) hword

theorem rounds_add (w : Nat → UInt32) (i k l : Nat) (v : Words5) :
    rounds w i (k + l) v = rounds w (i + k) l (rounds w i k v) := by
  unfold rounds
  rw [← List.foldl_append, List.range'_append_1]

/-- The variables have their names again after five calls. -/
theorem fiveRounds_eq (f : UInt32 → UInt32 → UInt32 → UInt32) (k : UInt32) (i : Nat) (v : Words5)
    (e₀ : Vector UInt32 16) :
    let e₁ := (data e₀ i).1
    let e₂ := (data e₁ (i + 1)).1
    let e₃ := (data e₂ (i + 2)).1
    let e₄ := (data e₃ (i + 3)).1
    fiveRounds f k i (v, e₀) = (round f k (data e₄ (i + 4)).2 (round f k (data e₃ (i + 3)).2
      (round f k (data e₂ (i + 2)).2 (round f k (data e₁ (i + 1)).2 (round f k (data e₀ i).2 v)))),
      (data e₄ (i + 4)).1) := rfl

/-- Five calls are five rounds. -/
theorem fiveRounds_spec {f : UInt32 → UInt32 → UInt32 → UInt32} {k : UInt32} (v : Words5)
    (h : Window (schedule m) (max i 16) eData) (hf : ∀ j, i ≤ j → j < i + 5 → ofRound j = (f, k)) :
    (fiveRounds f k i (v, eData)).1 = rounds (schedule m) i 5 v ∧
      Window (schedule m) (max (i + 5) 16) (fiveRounds f k i (v, eData)).2 := by
  obtain ⟨h0, w0⟩ := data_spec h
  obtain ⟨h1, w1⟩ := data_spec w0
  obtain ⟨h2, w2⟩ := data_spec w1
  obtain ⟨h3, w3⟩ := data_spec w2
  obtain ⟨h4, w4⟩ := data_spec w3
  have hi0 := hf i (by omega) (by omega)
  have hi1 := hf (i + 1) (by omega) (by omega)
  have hi2 := hf (i + 2) (by omega) (by omega)
  have hi3 := hf (i + 3) (by omega) (by omega)
  have hi4 := hf (i + 4) (by omega) (by omega)
  rw [fiveRounds_eq]
  refine ⟨?_, w4⟩
  simp only [rounds, List.range'_succ, List.range'_zero, List.foldl_cons, List.foldl_nil,
    Nat.add_assoc, Nat.reduceAdd, hi0, hi1, hi2, hi3, hi4, h0, h1, h2, h3, h4]

theorem twentyRounds_spec {f : UInt32 → UInt32 → UInt32 → UInt32} {k : UInt32}
    {s : Words5 × Vector UInt32 16} (h : Window (schedule m) (max i 16) s.2)
    (hf : ∀ j, i ≤ j → j < i + 20 → ofRound j = (f, k)) :
    (twentyRounds f k i s).1 = rounds (schedule m) i 20 s.1 ∧
      Window (schedule m) (max (i + 20) 16) (twentyRounds f k i s).2 := by
  obtain ⟨h5, w5⟩ := fiveRounds_spec s.1 h fun j hj hlt => hf j (by omega) (by omega)
  obtain ⟨h10, w10⟩ := fiveRounds_spec (fiveRounds f k i s).1 w5
    fun j hj hlt => hf j (by omega) (by omega)
  obtain ⟨h15, w15⟩ := fiveRounds_spec (fiveRounds f k (i + 5) (fiveRounds f k i s)).1 w10
    fun j hj hlt => hf j (by omega) (by omega)
  obtain ⟨h20, w20⟩ := fiveRounds_spec
    (fiveRounds f k (i + 10) (fiveRounds f k (i + 5) (fiveRounds f k i s))).1 w15
    fun j hj hlt => hf j (by omega) (by omega)
  refine ⟨?_, w20⟩
  rw [show (20 : Nat) = 5 + (5 + (5 + 5)) from rfl, rounds_add, rounds_add, rounds_add, ← h5, ← h10,
    ← h15, ← h20]
  rfl

end

theorem ofRound_eq {i j : Nat} (hi : i % 20 = 0) (hj : i ≤ j) (hlt : j < i + 20) :
    ofRound j = ofRound i := by
  unfold ofRound
  have h20 : j < 20 ↔ i < 20 := by omega
  have h40 : j < 40 ↔ i < 40 := by omega
  have h60 : j < 60 ↔ i < 60 := by omega
  rw [if_congr h20 rfl (if_congr h40 rfl (if_congr h60 rfl rfl))]

/-- **The transformation** is the 80 rounds on the expanded words. -/
theorem shsTransform_eq (chain : Words5) {eData : Vector UInt32 16} {m : Nat → UInt32}
    (h : ∀ (i : Nat) (hi : i < 16), eData[i] = m i) :
    shsTransform chain eData = compressWords chain m := by
  have hring : Window (schedule m) (max 0 16) eData := by
    intro hn j hj hle
    have hword : schedule m j = m j := by rw [schedule, if_pos (by omega)]
    rw [hword, ← h j (by omega)]
    simp only [Nat.mod_eq_of_lt (show j < 16 by omega)]
    rfl
  have hf1 : f1 = choose := funext fun x => funext fun y => funext fun z => f1_eq x y z
  have hf3 : f3 = majority := funext fun x => funext fun y => funext fun z => f3_eq x y z
  obtain ⟨h20, w20⟩ := twentyRounds_spec (i := 0) (f := f1) (k := K1) (s := (chain, eData)) hring
    fun j hj hlt => by rw [ofRound_eq (i := 0) rfl hj hlt, hf1]; rfl
  obtain ⟨h40, w40⟩ := twentyRounds_spec (i := 20) (f := f2) (k := K2) w20
    fun j hj hlt => ofRound_eq (i := 20) rfl hj hlt
  obtain ⟨h60, w60⟩ := twentyRounds_spec (i := 40) (f := f3) (k := K3) w40
    fun j hj hlt => by rw [ofRound_eq (i := 40) rfl hj hlt, hf3]; rfl
  obtain ⟨h80, _⟩ := twentyRounds_spec (i := 60) (f := f4) (k := K4) w60
    fun j hj hlt => ofRound_eq (i := 60) rfl hj hlt
  have hrounds : rounds (schedule m) 0 80 chain = (twentyRounds f4 K4 60 (twentyRounds f3 K3 40
      (twentyRounds f2 K2 20 (twentyRounds f1 K1 0 (chain, eData))))).1 := by
    rw [show (80 : Nat) = 20 + (20 + (20 + 20)) from rfl, rounds_add, rounds_add, rounds_add, h80,
      h60, h40, h20]
  rw [compressWords, hrounds]
  rfl

/-! ### The order of the bytes -/

theorem swap_eq (w : UInt32) : swap w = ByteOrder.reverse w := by
  refine (ByteOrder.word_eq ?_ ?_ ?_ ?_).symm <;>
  · apply UInt8.toBitVec_inj.1
    apply BitVec.eq_of_getLsbD_eq
    intro i hi
    interval_cases i <;> simp [swap]

/-- On either machine the words are read as those of the bytes with the high byte first. -/
theorem words_longReverse (o : ByteOrder) {front : List UInt8} (back : List UInt8) {k : Nat}
    (h : front.length = 4 * k) :
    o.words (longReverse o (front ++ back) (4 * k) (endianTest o)) =
        ByteOrder.big.words front ++ o.words back ∧
      (longReverse o (front ++ back) (4 * k) (endianTest o)).length = (front ++ back).length := by
  have hcount : 4 * k / 4 * 4 = front.length := by omega
  cases o with
  | big => exact ⟨ByteOrder.words_append .big back h, rfl⟩
  | little =>
    have hreverse : (ByteOrder.little.words front).map swap = ByteOrder.big.words front := by
      rw [funext swap_eq, ByteOrder.map_reverse_words]
      rfl
    have hrun : longReverse .little (front ++ back) (4 * k) (endianTest .little) =
        ByteOrder.little.bytes (ByteOrder.big.words front) ++ back := by
      show ByteOrder.little.bytes
          ((ByteOrder.little.words ((front ++ back).take (4 * k / 4 * 4))).map swap) ++
        (front ++ back).drop (4 * k / 4 * 4) = _
      rw [hcount, List.take_left, List.drop_left, hreverse]
    rw [hrun]
    refine ⟨ByteOrder.words_bytes .little _ back, ?_⟩
    rw [List.length_append, List.length_append, ByteOrder.bytes_length,
      ByteOrder.words_length .big h, h]

theorem shsTransform_wordsOf (o : ByteOrder) (chain : Words5) (data : List UInt8) :
    shsTransform chain (wordsOf o data) = compressWords chain fun i => (o.words data).getD i 0 := by
  apply shsTransform_eq
  intro i hi
  rw [wordsOf, Vector.getElem_ofFn]

theorem transform_hashes (o : ByteOrder) : Hashes 64 compress (transform o (endianTest o)) := by
  intro s hs
  have hwords := words_longReverse o [] (k := 16) hs
  rw [List.append_nil] at hwords
  obtain ⟨hwords, hlength⟩ := hwords
  refine ⟨?_, hlength.trans hs⟩
  have hsame : o.words (longReverse o s.block 64 (endianTest o)) = ByteOrder.big.words s.block := by
    rw [hwords]
    exact List.append_nil _
  rw [transform, shsTransform_wordsOf, hsame]
  rfl

theorem shaToByte_eq (ws : List UInt32) : shaToByte ws = ByteOrder.big.bytes ws := by
  have hbyte : ∀ w : UInt32, (w &&& 0xff).toUInt8 = w.toUInt8 := by
    intro w
    apply UInt8.toNat_inj.1
    rw [UInt32.toNat_toUInt8, UInt32.toNat_toUInt8, UInt32.toNat_and,
      show (0xff : UInt32).toNat = 2 ^ 8 - 1 from rfl, Nat.and_two_pow_sub_one_eq_mod, Nat.mod_mod]
  unfold shaToByte ByteOrder.bytes
  simp only [hbyte]
  rfl

/-! ### The context -/

/-- A context that has taken in a text. -/
structure CtxHolds (o : ByteOrder) (text : List UInt8) (ctx : ShaCtx) : Prop where
  endianness : ctx.endianness = endianTest o
  holds : Holds 64 compress hinit text ⟨ctx.digest, ctx.data⟩
  counts : Counts ctx.countLo ctx.countHi text.length

theorem shaInit_holds (o : ByteOrder) {data : List UInt8} (h : data.length = 64) :
    CtxHolds o [] (shaInit o data) where
  endianness := rfl
  holds := holds_nil (by decide) h
  counts := ⟨rfl, rfl⟩

theorem shaUpdate_holds {o : ByteOrder} {text b : List UInt8} {ctx : ShaCtx}
    (h : CtxHolds o text ctx) (hlen : b.length < 2 ^ 31) :
    ∃ ctx', shaUpdate o ctx b = .ok ctx' ∧ CtxHolds o (text ++ b) ctx' := by
  obtain ⟨s, lo, hi, hs, hholds, hcounts⟩ :=
    update_holds (transform_hashes o) h.holds h.counts (show b.length < 4294967296 by omega)
  refine ⟨{ ctx with digest := s.chain, data := s.block, countLo := lo, countHi := hi }, ?_,
    h.endianness, hholds, hcounts⟩
  rw [shaUpdate, h.endianness, hs]
  rfl

/-- The last block has the end of the padded text and the two counts. -/
theorem shsTransform_last {o : ByteOrder} {text : List UInt8} {lo hi : UInt32}
    {s : Hasher Words5 UInt8} (hcounts : Counts lo hi text.length)
    (hholds : Holds 64 compress hinit (padded 64 8 0x80 0 text) s)
    (hlen : (padded 64 8 0x80 0 text).length % 64 = 56) (htake : (s.block.take 56).length = 4 * 14) :
    shsTransform s.chain (wordsOf o
      (longReverse o (s.block.take 56 ++ (o.store hi ++ o.store lo)) 56 (endianTest o))) =
      absorb 64 compress hinit (message text) := by
  obtain ⟨hwords, _⟩ := words_longReverse o (o.store hi ++ o.store lo) htake
  have hpair : o.words (o.store hi ++ o.store lo) = [hi, lo] := ByteOrder.words_pair o _ _
  have hblock : ByteOrder.big.words (s.block.take 56 ++ ByteOrder.big.bytes [hi, lo]) =
      o.words (longReverse o (s.block.take 56 ++ (o.store hi ++ o.store lo)) (4 * 14)
        (endianTest o)) := by
    rw [hwords, hpair, ByteOrder.words_append .big _ htake]
    rw [ByteOrder.words_bytes_self]
  have htext : message text = padded 64 8 0x80 0 text ++ ByteOrder.big.bytes [hi, lo] := by
    rw [message, hcounts.1, hcounts.2]
  have hlast := hholds.last (b := ByteOrder.big.bytes [hi, lo]) (by decide) (by rw [hlen]; rfl)
  rw [htext, hlast, hlen, compress, hblock, shsTransform_wordsOf]

theorem shaFinal_digest {o : ByteOrder} {text : List UInt8} {ctx : ShaCtx}
    (h : CtxHolds o text ctx) :
    ∃ ctx', shaFinal o ctx = .ok (digest text, ctx') ∧ ctx'.data.length = 64 := by
  obtain ⟨s, hs, hholds, hlen⟩ :=
    pad_holds (k := 8) (transform_hashes o) (by decide) (by decide) h.holds 0x80 0
  have hlength := hholds.length
  have htake : (s.block.take 56).length = 4 * 14 := by
    rw [List.length_take]
    omega
  have htail : (o.store ctx.countHi ++ o.store ctx.countLo).length = 8 := by
    rw [List.length_append, ByteOrder.store_length, ByteOrder.store_length]
  have hstore := @Buffer.storeAll_slice _ s.block
    (o.store ctx.countHi ++ o.store ctx.countLo) 56 (by omega)
  rw [htail, List.drop_eq_nil_of_le (by omega), List.append_nil] at hstore
  have hdigest := shsTransform_last (o := o) h.counts hholds hlen htake
  obtain ⟨_, hfinal⟩ := words_longReverse o (o.store ctx.countHi ++ o.store ctx.countLo) htake
  unfold shaFinal
  simp only [h.endianness, h.counts.used, hs, Res.ok_bind, hstore, hdigest, shaToByte_eq]
  refine ⟨_, rfl, hfinal.trans ?_⟩
  rw [List.length_append, htake, htail]

end Sha1

/-- `SHA1` is the hash. -/
theorem sha1_eq (o : ByteOrder) (memory : Vector UInt8 64) {d : List UInt8} (hlen : d.length < 2 ^ 31) :
    sha1 o memory d = .ok (digest d) := by
  obtain ⟨ctx, hctx, hholds⟩ := shaUpdate_holds (shaInit_holds o memory.length_toList) hlen
  obtain ⟨ctx', hctx', _⟩ := shaFinal_digest hholds
  rw [sha1, hctx, Res.ok_bind, hctx']
  rfl

/-- **A text in parts** has the digest of the whole text, on a machine of either byte order and
whatever its memory has held. -/
theorem sha_parts (o : ByteOrder) (memory : Vector UInt8 64) (parts : List (List UInt8))
    (hlen : ∀ part ∈ parts, part.length < 2 ^ 31) :
    ∃ ctx ctx', parts.foldlM (shaUpdate o) (shaInit o memory.toList) = .ok ctx ∧
      shaFinal o ctx = .ok (digest parts.flatten, ctx') := by
  obtain ⟨ctx, hctx, hholds⟩ :=
    foldlM_parts (fun _ _ _ => shaUpdate_holds) hlen (shaInit_holds o memory.length_toList)
  obtain ⟨ctx', hctx', _⟩ := shaFinal_digest hholds
  exact ⟨ctx, ctx', hctx, hctx'⟩

/-- Two parts on a machine with the low byte first. -/
theorem sha_parts_two : ∃ ctx ctx',
    [[97, 98], [99]].foldlM (shaUpdate .little)
        (shaInit .little (Vector.replicate 64 7).toList) = .ok ctx ∧
      shaFinal .little ctx = .ok (digest [97, 98, 99], ctx') :=
  sha_parts .little (Vector.replicate 64 7) [[97, 98], [99]] (by decide)

end Utils
