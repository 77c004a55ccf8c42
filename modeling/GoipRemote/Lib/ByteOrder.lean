import Mathlib.Tactic

/-!
# The bytes of a word

A word of four bytes lies in memory with its low byte first or with its high byte first
(`ByteOrder`). `words` reads some bytes as words and `bytes` writes words (`words_bytes`); `reverse`
exchanges the two orders (`map_reverse_words`).
-/

/-- Which byte of a word comes first. -/
inductive ByteOrder where
  | little
  | big
  deriving DecidableEq, Repr

namespace ByteOrder

def other : ByteOrder → ByteOrder
  | little => big
  | big => little

/-- The word of four bytes, the highest one first. -/
def word (a b c d : UInt8) : UInt32 :=
  .ofNat (((a.toNat * 256 + b.toNat) * 256 + c.toNat) * 256 + d.toNat)

/-- The word that four bytes in memory are. -/
def load (o : ByteOrder) (a b c d : UInt8) : UInt32 :=
  match o with
  | little => word d c b a
  | big => word a b c d

def store (o : ByteOrder) (w : UInt32) : List UInt8 :=
  match o with
  | little => [w.toUInt8, (w >>> 8).toUInt8, (w >>> 16).toUInt8, (w >>> 24).toUInt8]
  | big => [(w >>> 24).toUInt8, (w >>> 16).toUInt8, (w >>> 8).toUInt8, w.toUInt8]

/-- The words that some bytes are. -/
def words (o : ByteOrder) : List UInt8 → List UInt32
  | a :: b :: c :: d :: mem => load o a b c d :: words o mem
  | _ => []

def bytes (o : ByteOrder) (ws : List UInt32) : List UInt8 := ws.flatMap (store o)

/-- The word with its bytes in the other order. -/
def reverse (w : UInt32) : UInt32 :=
  word w.toUInt8 (w >>> 8).toUInt8 (w >>> 16).toUInt8 (w >>> 24).toUInt8

section
variable (a b c d : UInt8)

theorem word_toNat : (word a b c d).toNat =
    ((a.toNat * 256 + b.toNat) * 256 + c.toNat) * 256 + d.toNat := by
  have := a.toNat_lt
  have := b.toNat_lt
  have := c.toNat_lt
  have := d.toNat_lt
  rw [word, UInt32.toNat_ofNat_of_lt']
  show _ < 4294967296
  omega

@[simp] theorem toUInt8_word : (word a b c d).toUInt8 = d := by
  apply UInt8.toNat_inj.1
  have := d.toNat_lt
  rw [UInt32.toNat_toUInt8, word_toNat]
  omega

theorem toUInt8_shift (w : UInt32) (k : UInt32) (hk : k.toNat < 32) :
    (w >>> k).toUInt8.toNat = w.toNat / 2 ^ k.toNat % 256 := by
  rw [UInt32.toNat_toUInt8, UInt32.toNat_shiftRight, Nat.mod_eq_of_lt hk, Nat.shiftRight_eq_div_pow]

@[simp] theorem toUInt8_word_8 : (word a b c d >>> 8).toUInt8 = c := by
  apply UInt8.toNat_inj.1
  have := c.toNat_lt
  have := d.toNat_lt
  rw [toUInt8_shift _ _ (by decide), word_toNat, show 2 ^ (8 : UInt32).toNat = 256 from rfl]
  omega

@[simp] theorem toUInt8_word_16 : (word a b c d >>> 16).toUInt8 = b := by
  apply UInt8.toNat_inj.1
  have := b.toNat_lt
  have := c.toNat_lt
  have := d.toNat_lt
  rw [toUInt8_shift _ _ (by decide), word_toNat, show 2 ^ (16 : UInt32).toNat = 65536 from rfl]
  omega

@[simp] theorem toUInt8_word_24 : (word a b c d >>> 24).toUInt8 = a := by
  apply UInt8.toNat_inj.1
  have := a.toNat_lt
  have := b.toNat_lt
  have := c.toNat_lt
  have := d.toNat_lt
  rw [toUInt8_shift _ _ (by decide), word_toNat, show 2 ^ (24 : UInt32).toNat = 16777216 from rfl]
  omega

end

/-- A word is its bytes. -/
theorem word_eq {w : UInt32} {a b c d : UInt8} (ha : (w >>> 24).toUInt8 = a)
    (hb : (w >>> 16).toUInt8 = b) (hc : (w >>> 8).toUInt8 = c) (hd : w.toUInt8 = d) :
    word a b c d = w := by
  subst ha hb hc hd
  apply UInt32.toNat_inj.1
  have hw : w.toNat < 4294967296 := w.toNat_lt
  have h24 := toUInt8_shift w 24 (by decide)
  have h16 := toUInt8_shift w 16 (by decide)
  have h8 := toUInt8_shift w 8 (by decide)
  rw [show 2 ^ (24 : UInt32).toNat = 16777216 from rfl] at h24
  rw [show 2 ^ (16 : UInt32).toNat = 65536 from rfl] at h16
  rw [show 2 ^ (8 : UInt32).toNat = 256 from rfl] at h8
  rw [word_toNat, h24, h16, h8, UInt32.toNat_toUInt8]
  omega

/-! ## In memory -/

theorem store_length (o : ByteOrder) (w : UInt32) : (store o w).length = 4 := by
  cases o <;> rfl

theorem bytes_cons (o : ByteOrder) (w : UInt32) (ws : List UInt32) :
    bytes o (w :: ws) = store o w ++ bytes o ws :=
  rfl

@[simp] theorem bytes_length (o : ByteOrder) (ws : List UInt32) :
    (bytes o ws).length = 4 * ws.length := by
  induction ws with
  | nil => rfl
  | cons w ws ih =>
    rw [bytes_cons, List.length_append, store_length, ih, List.length_cons]
    omega

theorem words_store (o : ByteOrder) (w : UInt32) (mem : List UInt8) :
    words o (store o w ++ mem) = w :: words o mem := by
  cases o with
  | little => exact congrArg (· :: _) (word_eq rfl rfl rfl rfl)
  | big => exact congrArg (· :: _) (word_eq rfl rfl rfl rfl)

/-- **What is written** as words is read as these words. -/
theorem words_bytes (o : ByteOrder) (ws : List UInt32) (mem : List UInt8) :
    words o (bytes o ws ++ mem) = ws ++ words o mem := by
  induction ws with
  | nil => rfl
  | cons w ws ih => rw [bytes_cons, List.append_assoc, words_store, ih, List.cons_append]

theorem words_bytes_self (o : ByteOrder) (ws : List UInt32) : words o (bytes o ws) = ws := by
  have h := words_bytes o ws []
  rw [List.append_nil] at h
  exact h.trans (List.append_nil _)

theorem words_pair (o : ByteOrder) (v w : UInt32) : words o (store o v ++ store o w) = [v, w] := by
  rw [words_store, ← List.append_nil (store o w), words_store]
  rfl

theorem words_append (o : ByteOrder) {front : List UInt8} (back : List UInt8) {k : Nat}
    (h : front.length = 4 * k) :
    words o (front ++ back) = words o front ++ words o back := by
  induction k generalizing front with
  | zero =>
    have hnil : front = [] := List.eq_nil_of_length_eq_zero h
    subst hnil
    rfl
  | succ k ih =>
    match front, h with
    | a :: b :: c :: d :: front, h =>
      have hfront : front.length = 4 * k := by
        simp only [List.length_cons] at h
        omega
      simp only [List.cons_append, words, ih hfront]

theorem words_length (o : ByteOrder) {mem : List UInt8} {k : Nat} (h : mem.length = 4 * k) :
    (words o mem).length = k := by
  induction k generalizing mem with
  | zero =>
    have hnil : mem = [] := List.eq_nil_of_length_eq_zero h
    subst hnil
    rfl
  | succ k ih =>
    match mem, h with
    | a :: b :: c :: d :: mem, h =>
      have hmem : mem.length = 4 * k := by
        simp only [List.length_cons] at h
        omega
      rw [words, List.length_cons, ih hmem]

/-- Reversed words are the words in the other order. -/
theorem map_reverse_words (o : ByteOrder) (mem : List UInt8) :
    (words o mem).map reverse = words o.other mem := by
  fun_induction words o mem with
  | case1 a b c d mem ih =>
    rw [List.map_cons, ih]
    cases o with
    | little => simp [reverse, load, other, words]
    | big => simp [reverse, load, other, words]
  | case2 mem h =>
    match mem, h with
    | [], _ => rfl
    | [_], _ => rfl
    | [_, _], _ => rfl
    | [_, _, _], _ => rfl
    | a :: b :: c :: d :: mem, h => exact absurd rfl (h a b c d mem)

/-- What is written in one order and read in the other one is written in the other order by that. -/
theorem bytes_words_other (o : ByteOrder) (ws : List UInt32) :
    bytes o (words o.other (bytes o ws)) = bytes o.other ws := by
  induction ws with
  | nil => rfl
  | cons w ws ih =>
    rw [bytes_cons, bytes_cons, ← ih]
    cases o with
    | little => simp [store, words, load, other, bytes_cons]
    | big => simp [store, words, load, other, bytes_cons]

end ByteOrder
