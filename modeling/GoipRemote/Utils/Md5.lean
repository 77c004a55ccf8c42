import GoipRemote.Lib.BlockHash
import GoipRemote.Lib.ByteOrder

/-!
# MD5 (`md5.c`)

`uint32` is an `unsigned long`, taken to have the 32 bits of its name, and the 64 bytes of `in` are kept as
they lie in memory. `Md5.digest` is the hash as one loop that takes its word, its shift and its function
from the number of the round. The code has the loop unrolled and takes the text in parts; `md5_parts` says
that it comes to the same, on every machine with the low byte first, and on one with the high byte first if
it is built with `HIGHFIRST`.
-/

namespace Utils

open BlockHash

/-- The four words of `buf`, and the variables `a` to `d`. -/
structure Words4 where
  a : UInt32
  b : UInt32
  c : UInt32
  d : UInt32
  deriving DecidableEq, Repr

namespace Md5

def words : Words4 → List UInt32
  | ⟨a, b, c, d⟩ => [a, b, c, d]

def F1 (x y z : UInt32) : UInt32 := z ^^^ (x &&& (y ^^^ z))

def F2 (x y z : UInt32) : UInt32 := F1 z x y

def F3 (x y z : UInt32) : UInt32 := x ^^^ y ^^^ z

def F4 (x y z : UInt32) : UInt32 := y ^^^ (x ||| ~~~z)

/-- `MD5STEP`: the new value of `w`. -/
def md5step (f : UInt32 → UInt32 → UInt32 → UInt32) (w x y z data s : UInt32) : UInt32 :=
  let w := w + (f x y z + data)
  let w := (w <<< s) ||| (w >>> (32 - s))
  w + x

/-- Of each call of `MD5STEP` the index into `in`, the constant and the shift. -/
def table : List (Fin 16 × UInt32 × UInt32) := [
  (0, 0xd76aa478, 7), (1, 0xe8c7b756, 12), (2, 0x242070db, 17), (3, 0xc1bdceee, 22),
  (4, 0xf57c0faf, 7), (5, 0x4787c62a, 12), (6, 0xa8304613, 17), (7, 0xfd469501, 22),
  (8, 0x698098d8, 7), (9, 0x8b44f7af, 12), (10, 0xffff5bb1, 17), (11, 0x895cd7be, 22),
  (12, 0x6b901122, 7), (13, 0xfd987193, 12), (14, 0xa679438e, 17), (15, 0x49b40821, 22),
  (1, 0xf61e2562, 5), (6, 0xc040b340, 9), (11, 0x265e5a51, 14), (0, 0xe9b6c7aa, 20),
  (5, 0xd62f105d, 5), (10, 0x02441453, 9), (15, 0xd8a1e681, 14), (4, 0xe7d3fbc8, 20),
  (9, 0x21e1cde6, 5), (14, 0xc33707d6, 9), (3, 0xf4d50d87, 14), (8, 0x455a14ed, 20),
  (13, 0xa9e3e905, 5), (2, 0xfcefa3f8, 9), (7, 0x676f02d9, 14), (12, 0x8d2a4c8a, 20),
  (5, 0xfffa3942, 4), (8, 0x8771f681, 11), (11, 0x6d9d6122, 16), (14, 0xfde5380c, 23),
  (1, 0xa4beea44, 4), (4, 0x4bdecfa9, 11), (7, 0xf6bb4b60, 16), (10, 0xbebfbc70, 23),
  (13, 0x289b7ec6, 4), (0, 0xeaa127fa, 11), (3, 0xd4ef3085, 16), (6, 0x04881d05, 23),
  (9, 0xd9d4d039, 4), (12, 0xe6db99e5, 11), (15, 0x1fa27cf8, 16), (2, 0xc4ac5665, 23),
  (0, 0xf4292244, 6), (7, 0x432aff97, 10), (14, 0xab9423a7, 15), (5, 0xfc93a039, 21),
  (12, 0x655b59c3, 6), (3, 0x8f0ccc92, 10), (10, 0xffeff47d, 15), (1, 0x85845dd1, 21),
  (8, 0x6fa87e4f, 6), (15, 0xfe2ce6e0, 10), (6, 0xa3014314, 15), (13, 0x4e0811a1, 21),
  (4, 0xf7537e82, 6), (11, 0xbd3af235, 10), (2, 0x2ad7d2bb, 15), (9, 0xeb86d391, 21)]

/-- The data and the shift of a call. -/
def entry (inp : Vector UInt32 16) (i : Nat) : UInt32 × UInt32 :=
  let (k, c, s) := table.getD i (0, 0, 0)
  (inp.get k + c, s)

/-- Four calls of `MD5STEP` from call `i` on. -/
def fourSteps (f : UInt32 → UInt32 → UInt32 → UInt32) (inp : Vector UInt32 16) (i : Nat) :
    Words4 → Words4
  | ⟨a, b, c, d⟩ =>
    let a := md5step f a b c d (entry inp i).1 (entry inp i).2
    let d := md5step f d a b c (entry inp (i + 1)).1 (entry inp (i + 1)).2
    let c := md5step f c d a b (entry inp (i + 2)).1 (entry inp (i + 2)).2
    let b := md5step f b c d a (entry inp (i + 3)).1 (entry inp (i + 3)).2
    ⟨a, b, c, d⟩

/-- The calls with one of the functions. -/
def sixteenSteps (f : UInt32 → UInt32 → UInt32 → UInt32) (inp : Vector UInt32 16) (i : Nat)
    (v : Words4) : Words4 :=
  fourSteps f inp (i + 12) (fourSteps f inp (i + 8) (fourSteps f inp (i + 4) (fourSteps f inp i v)))

end Md5

open Md5

/-- `MD5Transform`. -/
def md5Transform (buf : Words4) (inp : Vector UInt32 16) : Words4 :=
  let v := sixteenSteps F1 inp 0 buf
  let v := sixteenSteps F2 inp 16 v
  let v := sixteenSteps F3 inp 32 v
  let v := sixteenSteps F4 inp 48 v
  ⟨buf.a + v.a, buf.b + v.b, buf.c + v.c, buf.d + v.d⟩

/-! ## The context -/

/-- `struct MD5Context`. -/
structure Md5Context where
  buf : Words4
  bits₀ : UInt32
  bits₁ : UInt32
  inp : List UInt8

/-- `MD5Init`: `in` stays as it is in memory. -/
def md5Init (inp : List UInt8) : Md5Context where
  buf := ⟨0x67452301, 0xefcdab89, 0x98badcfe, 0x10325476⟩
  bits₀ := 0
  bits₁ := 0
  inp

/-- `byteReverse`, which is nothing without `HIGHFIRST`: each of the words is put together from its
bytes, the low one first, and stored as the machine of the order `o` does. -/
def byteReverse (o : ByteOrder) (highfirst : Bool) (buf : List UInt8) (longs : Nat) : List UInt8 :=
  if highfirst then o.bytes (ByteOrder.little.words (buf.take (4 * longs))) ++ buf.drop (4 * longs)
  else buf

namespace Md5

/-- `in` as words. -/
def wordsOf (o : ByteOrder) (inp : List UInt8) : Vector UInt32 16 :=
  Vector.ofFn fun i => (o.words inp).getD i 0

/-- `byteReverse` and `MD5Transform`, as they are called on a full block. -/
def transform (o : ByteOrder) (highfirst : Bool) (s : Hasher Words4 UInt8) : Hasher Words4 UInt8 :=
  let inp := byteReverse o highfirst s.block 16
  ⟨md5Transform s.chain (wordsOf o inp), inp⟩

end Md5

/-- `MD5Update`. -/
def md5Update (o : ByteOrder) (highfirst : Bool) (ctx : Md5Context) (buf : List UInt8) :
    Res Md5Context := do
  let (s, bits₀, bits₁) ←
    update (transform o highfirst) ⟨ctx.buf, ctx.inp⟩ ctx.bits₀ ctx.bits₁ buf
  return ⟨s.chain, bits₀, bits₁, s.block⟩

/-- `buf`, as it lies in memory. -/
def Words4.load (o : ByteOrder) (mem : List UInt8) : Words4 :=
  let ws := o.words mem
  ⟨ws.getD 0 0, ws.getD 1 0, ws.getD 2 0, ws.getD 3 0⟩

/-- `MD5Final`: the digest, and the context. The last `memset` has the size of a pointer, of 32 bits
here, and clears one word. -/
def md5Final (o : ByteOrder) (highfirst : Bool) (ctx : Md5Context) :
    Res (List UInt8 × Md5Context) := do
  let count := ((ctx.bits₀ >>> 3) &&& 0x3f).toNat
  let s ← pad 64 (transform o highfirst) 0x80 0 8 ⟨ctx.buf, ctx.inp⟩ count
  let inp := byteReverse o highfirst s.block 14
  let inp ← Buffer.storeAll inp 56 (o.store ctx.bits₀ ++ o.store ctx.bits₁)
  let buf := md5Transform s.chain (wordsOf o inp)
  let digest := byteReverse o highfirst (o.bytes (Md5.words buf)) 4
  return (digest, { ctx with buf := { Words4.load o digest with a := 0 }, inp })

/-- `MD5`. -/
def md5 (o : ByteOrder) (highfirst : Bool) (memory : Vector UInt8 64) (buf : List UInt8) :
    Res (List UInt8) := do
  let ctx ← md5Update o highfirst (md5Init memory.toList) buf
  let (digest, _) ← md5Final o highfirst ctx
  return digest

/-! ## The hash -/

namespace Md5

def choose (x y z : UInt32) : UInt32 := (x &&& y) ||| (~~~x &&& z)

/-- The function of a round. -/
def function (i : Nat) : UInt32 → UInt32 → UInt32 → UInt32 :=
  if i < 16 then choose else if i < 32 then fun x y z => choose z x y
  else if i < 48 then fun x y z => x ^^^ y ^^^ z else fun x y z => y ^^^ (x ||| ~~~z)

/-- Which word a round takes. -/
def index (i : Nat) : Nat :=
  if i < 16 then i % 16 else if i < 32 then (5 * i + 1) % 16 else if i < 48 then (3 * i + 5) % 16
  else 7 * i % 16

/-- By how many bits a round rotates. -/
def shift (i : Nat) : UInt32 :=
  (if i < 16 then [7, 12, 17, 22] else if i < 32 then [5, 9, 14, 20]
    else if i < 48 then [4, 11, 16, 23] else [6, 10, 15, 21]).getD (i % 4) 0

def constant (i : Nat) : UInt32 := (table.getD i (0, 0, 0)).2.1

/-- A round renames its variables. -/
def round (f : UInt32 → UInt32 → UInt32 → UInt32) (data s : UInt32) (v : Words4) : Words4 :=
  ⟨v.d, md5step f v.a v.b v.c v.d data s, v.b, v.c⟩

/-- Some rounds, from round `i` on. -/
def rounds (m : Nat → UInt32) (i count : Nat) (v : Words4) : Words4 :=
  (List.range' i count).foldl
    (fun v i => round (function i) (m (index i) + constant i) (shift i) v) v

def compressWords (chain : Words4) (m : Nat → UInt32) : Words4 :=
  let v := rounds m 0 64 chain
  ⟨chain.a + v.a, chain.b + v.b, chain.c + v.c, chain.d + v.d⟩

def compress (chain : Words4) (block : List UInt8) : Words4 :=
  compressWords chain fun i => (ByteOrder.little.words block).getD i 0

/-- A text, padded, and the number of its bits, the low word first. -/
def message (text : List UInt8) : List UInt8 :=
  padded 64 8 0x80 0 text ++
    ByteOrder.little.bytes [.ofNat (8 * text.length), .ofNat (8 * text.length / 4294967296)]

/-- The hash of a text. -/
def digest (text : List UInt8) : List UInt8 :=
  ByteOrder.little.bytes (words (absorb 64 compress (md5Init []).buf (message text)))

/-! ### The rounds -/

theorem F1_eq (x y z : UInt32) : F1 x y z = choose x y z := xor_and_xor x y z

/-- The table has the words and the shifts of the rounds. -/
theorem table_rounds : ∀ i < 64, (table.getD i (0, 0, 0)).1.val = index i ∧
    (table.getD i (0, 0, 0)).2.2 = shift i := by
  decide

section
variable {m : Nat → UInt32} {inp : Vector UInt32 16} {i : Nat}

theorem entry_eq (h : ∀ (i : Nat) (hi : i < 16), inp[i] = m i) (hi : i < 64) :
    entry inp i = (m (index i) + constant i, shift i) := by
  obtain ⟨hindex, hshift⟩ := table_rounds i hi
  have hword : inp.get (table.getD i (0, 0, 0)).1 = m (index i) := by
    rw [← hindex]
    exact h _ (table.getD i (0, 0, 0)).1.isLt
  rw [← hword, ← hshift]
  rfl

theorem rounds_add (i k l : Nat) (v : Words4) :
    rounds m i (k + l) v = rounds m (i + k) l (rounds m i k v) := by
  unfold rounds
  rw [← List.foldl_append, List.range'_append_1]

/-- The variables have their names again after four calls. -/
theorem fourSteps_eq (f : UInt32 → UInt32 → UInt32 → UInt32) (v : Words4) :
    fourSteps f inp i v = round f (entry inp (i + 3)).1 (entry inp (i + 3)).2
      (round f (entry inp (i + 2)).1 (entry inp (i + 2)).2
        (round f (entry inp (i + 1)).1 (entry inp (i + 1)).2
          (round f (entry inp i).1 (entry inp i).2 v))) := rfl

theorem fourSteps_rounds {f : UInt32 → UInt32 → UInt32 → UInt32} (v : Words4)
    (h : ∀ (i : Nat) (hi : i < 16), inp[i] = m i) (hi : i + 4 ≤ 64)
    (hf : ∀ j, i ≤ j → j < i + 4 → function j = f) : fourSteps f inp i v = rounds m i 4 v := by
  rw [fourSteps_eq, entry_eq h (by omega), entry_eq h (by omega), entry_eq h (by omega),
    entry_eq h (by omega)]
  simp only [rounds, List.range'_succ, List.range'_zero, List.foldl_cons, List.foldl_nil,
    Nat.add_assoc, Nat.reduceAdd, hf i (by omega) (by omega), hf (i + 1) (by omega) (by omega),
    hf (i + 2) (by omega) (by omega), hf (i + 3) (by omega) (by omega)]

theorem sixteenSteps_rounds {f : UInt32 → UInt32 → UInt32 → UInt32} (v : Words4)
    (h : ∀ (i : Nat) (hi : i < 16), inp[i] = m i) (hi : i + 16 ≤ 64)
    (hf : ∀ j, i ≤ j → j < i + 16 → function j = f) : sixteenSteps f inp i v = rounds m i 16 v := by
  rw [sixteenSteps,
    fourSteps_rounds (i := i) _ h (by omega) fun j hj hlt => hf j (by omega) (by omega),
    fourSteps_rounds (i := i + 4) _ h (by omega) fun j hj hlt => hf j (by omega) (by omega),
    fourSteps_rounds (i := i + 8) _ h (by omega) fun j hj hlt => hf j (by omega) (by omega),
    fourSteps_rounds (i := i + 12) _ h (by omega) fun j hj hlt => hf j (by omega) (by omega),
    show (16 : Nat) = 4 + (4 + (4 + 4)) from rfl, rounds_add, rounds_add, rounds_add]

end

theorem function_eq {i j : Nat} (hi : i % 16 = 0) (hj : i ≤ j) (hlt : j < i + 16) :
    function j = function i := by
  unfold function
  have h16 : j < 16 ↔ i < 16 := by omega
  have h32 : j < 32 ↔ i < 32 := by omega
  have h48 : j < 48 ↔ i < 48 := by omega
  rw [if_congr h16 rfl (if_congr h32 rfl (if_congr h48 rfl rfl))]

/-- **The transformation** is the 64 rounds. -/
theorem md5Transform_eq (chain : Words4) {inp : Vector UInt32 16} {m : Nat → UInt32}
    (h : ∀ (i : Nat) (hi : i < 16), inp[i] = m i) :
    md5Transform chain inp = compressWords chain m := by
  have hF1 : F1 = choose := funext fun x => funext fun y => funext fun z => F1_eq x y z
  have hF2 : F2 = fun x y z => choose z x y := by
    unfold F2
    rw [hF1]
  have h0 := fun v => sixteenSteps_rounds (i := 0) (f := F1) v h (by decide)
    fun j hj hlt => by rw [function_eq (i := 0) rfl hj hlt, hF1]; rfl
  have h16 := fun v => sixteenSteps_rounds (i := 16) (f := F2) v h (by decide)
    fun j hj hlt => by rw [function_eq (i := 16) rfl hj hlt, hF2]; rfl
  have h32 := fun v => sixteenSteps_rounds (i := 32) (f := F3) v h (by decide)
    fun j hj hlt => function_eq (i := 32) rfl hj hlt
  have h48 := fun v => sixteenSteps_rounds (i := 48) (f := F4) v h (by decide)
    fun j hj hlt => function_eq (i := 48) rfl hj hlt
  rw [compressWords, show (64 : Nat) = 16 + (16 + (16 + 16)) from rfl, rounds_add, rounds_add,
    rounds_add, md5Transform, h0, h16, h32, h48]

/-! ### The order of the bytes -/

/-- The words are read as those of the bytes with the low byte first. -/
theorem words_byteReverse {o : ByteOrder} {highfirst : Bool} (ho : o = .little ∨ highfirst)
    {front : List UInt8} (back : List UInt8) {k : Nat} (h : front.length = 4 * k) :
    ∃ front', byteReverse o highfirst (front ++ back) k = front' ++ back ∧ front'.length = 4 * k ∧
      o.words front' = ByteOrder.little.words front := by
  cases highfirst with
  | true =>
    refine ⟨o.bytes (ByteOrder.little.words front), ?_, ?_, ?_⟩
    · rw [byteReverse, if_pos rfl, List.take_left' h, List.drop_left' h]
    · rw [ByteOrder.bytes_length, ByteOrder.words_length _ h]
    · exact ByteOrder.words_bytes_self o _
  | false =>
    have hlittle : o = .little := by simpa using ho
    subst hlittle
    exact ⟨front, rfl, h, rfl⟩

theorem md5Transform_wordsOf (o : ByteOrder) (chain : Words4) (inp : List UInt8) :
    md5Transform chain (wordsOf o inp) = compressWords chain fun i => (o.words inp).getD i 0 := by
  apply md5Transform_eq
  intro i hi
  rw [wordsOf, Vector.getElem_ofFn]

variable {o : ByteOrder} {highfirst : Bool}

theorem transform_hashes (ho : o = .little ∨ highfirst) :
    Hashes 64 compress (transform o highfirst) := by
  intro s hs
  obtain ⟨inp, hrun, hlength, hwords⟩ := words_byteReverse ho [] (k := 16) hs
  rw [List.append_nil, List.append_nil] at hrun
  rw [transform, hrun]
  refine ⟨?_, hlength⟩
  rw [md5Transform_wordsOf, hwords]
  rfl

/-- The words of the digest are written with the low byte first. -/
theorem byteReverse_bytes (ho : o = .little ∨ highfirst) {ws : List UInt32} {k : Nat}
    (h : ws.length = k) : byteReverse o highfirst (o.bytes ws) k = ByteOrder.little.bytes ws := by
  have hlen : (o.bytes ws).length = 4 * k := by
    rw [ByteOrder.bytes_length, h]
  cases highfirst with
  | true =>
    rw [byteReverse, if_pos rfl, List.take_of_length_le (Nat.le_of_eq hlen),
      List.drop_eq_nil_of_le (Nat.le_of_eq hlen), List.append_nil]
    cases o with
    | little => rw [ByteOrder.words_bytes_self]
    | big => exact ByteOrder.bytes_words_other .big ws
  | false =>
    have hlittle : o = .little := by simpa using ho
    subst hlittle
    rfl

/-! ### The context -/

/-- A context that has taken in a text. -/
structure CtxHolds (text : List UInt8) (ctx : Md5Context) : Prop where
  holds : Holds 64 compress (md5Init []).buf text ⟨ctx.buf, ctx.inp⟩
  counts : Counts ctx.bits₀ ctx.bits₁ text.length

theorem md5Init_holds {inp : List UInt8} (h : inp.length = 64) : CtxHolds [] (md5Init inp) where
  holds := holds_nil (by decide) h
  counts := ⟨rfl, rfl⟩

theorem md5Update_holds {text buf : List UInt8} {ctx : Md5Context} (ho : o = .little ∨ highfirst)
    (h : CtxHolds text ctx) (hlen : buf.length < 2 ^ 32) :
    ∃ ctx', md5Update o highfirst ctx buf = .ok ctx' ∧ CtxHolds (text ++ buf) ctx' := by
  obtain ⟨s, bits₀, bits₁, hs, hholds, hcounts⟩ :=
    update_holds (transform_hashes ho) h.holds h.counts hlen
  refine ⟨⟨s.chain, bits₀, bits₁, s.block⟩, ?_, hholds, hcounts⟩
  rw [md5Update, hs]
  rfl

/-- The last block has the end of the padded text and the two counts. -/
theorem md5Transform_last {text front : List UInt8} {lo hi : UInt32} {s : Hasher Words4 UInt8}
    (hcounts : Counts lo hi text.length)
    (hholds : Holds 64 compress (md5Init []).buf (padded 64 8 0x80 0 text) s)
    (hlen : (padded 64 8 0x80 0 text).length % 64 = 56) (hfront : front.length = 4 * 14)
    (htake : (s.block.take 56).length = 4 * 14)
    (hwords : o.words front = ByteOrder.little.words (s.block.take 56)) :
    md5Transform s.chain (wordsOf o (front ++ (o.store lo ++ o.store hi))) =
      absorb 64 compress (md5Init []).buf (message text) := by
  have hpair : o.words (o.store lo ++ o.store hi) = [lo, hi] := ByteOrder.words_pair o _ _
  have hblock : ByteOrder.little.words (s.block.take 56 ++ ByteOrder.little.bytes [lo, hi]) =
      o.words (front ++ (o.store lo ++ o.store hi)) := by
    rw [ByteOrder.words_append o _ hfront, hwords, hpair, ByteOrder.words_append .little _ htake]
    rw [ByteOrder.words_bytes_self]
  have htext : message text = padded 64 8 0x80 0 text ++ ByteOrder.little.bytes [lo, hi] := by
    rw [message, hcounts.1, hcounts.2]
  have hlast := hholds.last (b := ByteOrder.little.bytes [lo, hi]) (by decide) (by rw [hlen]; rfl)
  rw [htext, hlast, hlen, compress, hblock, md5Transform_wordsOf]

theorem md5Final_digest {text : List UInt8} {ctx : Md5Context} (ho : o = .little ∨ highfirst)
    (h : CtxHolds text ctx) : ∃ ctx', md5Final o highfirst ctx = .ok (digest text, ctx') := by
  obtain ⟨s, hs, hholds, hlen⟩ :=
    pad_holds (k := 8) (transform_hashes ho) (by decide) (by decide) h.holds 0x80 0
  have hlength := hholds.length
  have htake : (s.block.take 56).length = 4 * 14 := by
    rw [List.length_take]
    omega
  have hback : (s.block.drop 56).length = 8 := by
    rw [List.length_drop]
    omega
  obtain ⟨front, hreverse, hfront, hwords⟩ := words_byteReverse ho (s.block.drop 56) htake
  rw [List.take_append_drop] at hreverse
  have htail : (o.store ctx.bits₀ ++ o.store ctx.bits₁).length = 8 := by
    rw [List.length_append, ByteOrder.store_length, ByteOrder.store_length]
  have hstore := @Buffer.storeAll_ok _ front (s.block.drop 56)
    (o.store ctx.bits₀ ++ o.store ctx.bits₁) (by omega)
  rw [hfront, htail, List.drop_eq_nil_of_le (Nat.le_of_eq hback), List.append_nil] at hstore
  have hdigest := md5Transform_last (o := o) h.counts hholds hlen hfront htake hwords
  unfold md5Final
  simp only [h.counts.used, hs, Res.ok_bind, hreverse, hstore, hdigest]
  rw [@byteReverse_bytes o highfirst ho (words _) 4 rfl]
  exact ⟨_, rfl⟩

end Md5

/-- `MD5` is the hash, on the machines of which `md5_parts` speaks. -/
theorem md5_eq (o : ByteOrder) (highfirst : Bool) (ho : o = .little ∨ highfirst)
    (memory : Vector UInt8 64) {buf : List UInt8} (hlen : buf.length < 2 ^ 32) :
    md5 o highfirst memory buf = .ok (digest buf) := by
  obtain ⟨ctx, hctx, hholds⟩ := md5Update_holds ho (md5Init_holds memory.length_toList) hlen
  obtain ⟨ctx', hctx'⟩ := md5Final_digest ho hholds
  rw [md5, hctx, Res.ok_bind, hctx']
  rfl

/-- **A text in parts** has the digest of the whole text, whatever the memory has held, unless a
machine with the high byte first is built without `HIGHFIRST`. -/
theorem md5_parts (o : ByteOrder) (highfirst : Bool) (ho : o = .little ∨ highfirst)
    (memory : Vector UInt8 64) (parts : List (List UInt8))
    (hlen : ∀ part ∈ parts, part.length < 2 ^ 32) :
    ∃ ctx ctx', parts.foldlM (md5Update o highfirst) (md5Init memory.toList) = .ok ctx ∧
      md5Final o highfirst ctx = .ok (Md5.digest parts.flatten, ctx') := by
  obtain ⟨ctx, hctx, hholds⟩ :=
    foldlM_parts (fun _ _ _ => md5Update_holds ho) hlen (md5Init_holds memory.length_toList)
  obtain ⟨ctx', hctx'⟩ := md5Final_digest ho hholds
  exact ⟨ctx, ctx', hctx, hctx'⟩

/-- Two parts on a machine with the high byte first. -/
theorem md5_parts_two : ∃ ctx ctx',
    [[97, 98], [99]].foldlM (md5Update .big true)
        (md5Init (Vector.replicate 64 7).toList) = .ok ctx ∧
      md5Final .big true ctx = .ok (Md5.digest [97, 98, 99], ctx') :=
  md5_parts .big true (.inr rfl) (Vector.replicate 64 7) [[97, 98], [99]] (by decide)

end Utils
