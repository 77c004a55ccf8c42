import GoipRemote.Lib.Buffer

/-!
# UTF-8 (utils/utf8.c)

`unicodeToUtf8` writes 16 bit units as UTF-8 into a buffer of `lenOut` bytes, `utf8ToUnicode` reads bytes
back into a buffer of `lenOut` units. An array with its length is a list and a count, and the buffers
written to have bounds.

`encode` is the encoding by its arithmetic, and `pieces` cuts a byte string into what the decoder makes a
unit of: the decoder's loop is `emit` over the pieces (`utf8ToUnicodeLoop_eq`), which is what its output, its
room and its errors are proved about.

* The encoder writes the encoding of a prefix, as much as there is room for (`encodeLoop_eq`).
* The pieces of an encoding are its units (`pieces_encode`), so the decoder gives the prefix back
  (`unicodeToUtf8_roundtrip`).
-/

namespace Utils

/-! ## Writing -/

def strlen16bit : List UInt16 → Res Nat
  | [] => .fault
  | c :: s =>
    if c = 0 then return 0
    else do
      let len ← strlen16bit s
      return len + 1

/-- The loop of `unicode_to_utf8` over the next units of `uc`. -/
def unicodeToUtf8Loop (lenOut : Int) : Nat → List UInt16 → List UInt8 → Nat → Res (List UInt8 × Nat)
  | 0, _, out, p => .ok (out, p)
  | _ + 1, [], _, _ => .fault
  | n + 1, u :: uc, out, p =>
    let row := u.toNat >>> 8 &&& 0xff
    let cell := u.toNat &&& 0xff
    if row = 0 ∧ cell < 0x80 then
      if (p : Int) ≥ lenOut - 1 then return (out, p)
      else do
        let out ← Buffer.storeAll out p [UInt8.ofNat cell]
        unicodeToUtf8Loop lenOut n uc out (p + 1)
    else
      let b := UInt8.ofNat (row <<< 2 ||| cell >>> 6)
      if row < 0x08 then
        if (p : Int) ≥ lenOut - 2 then return (out, p)
        else do
          let out ← Buffer.storeAll out p [UInt8.ofNat (0xc0 ||| b.toNat),
            UInt8.ofNat (0x80 ||| (cell &&& 0x3f))]
          unicodeToUtf8Loop lenOut n uc out (p + 2)
      else
        if (p : Int) ≥ lenOut - 3 then return (out, p)
        else do
          let out ← Buffer.storeAll out p [UInt8.ofNat (0xe0 ||| row >>> 4),
            UInt8.ofNat (0x80 ||| (b.toNat &&& 0x3f)),
            UInt8.ofNat (0x80 ||| (cell &&& 0x3f))]
          unicodeToUtf8Loop lenOut n uc out (p + 3)

def unicodeToUtf8 (uc : List UInt16) (len : Int) (out : List UInt8) (lenOut : Int) :
    Res (List UInt8 × Nat) := do
  let len ← if len ≤ 0 then strlen16bit uc else pure len.toNat
  let (out, p) ← unicodeToUtf8Loop lenOut len uc out 0
  let out ← Buffer.store out p 0
  return (out, p)

/-! ## Reading -/

/-- The loop of `utf8_to_unicode` over the next bytes of `chars`. -/
def utf8ToUnicodeLoop (lenOut : Int) :
    Nat → List UInt8 → UInt16 → Nat → List UInt16 → Nat → Res (List UInt16 × Nat)
  | 0, _, _, _, result, p => .ok (result, p)
  | _ + 1, [], _, _, _, _ => .fault
  | n + 1, ch :: chars, uc, need, result, p =>
    if need ≠ 0 then
      if ch &&& 0xc0 = 0x80 then
        let uc := uc <<< 6 ||| (ch.toUInt16 &&& 0x3f)
        if need - 1 = 0 then
          if (p : Int) ≥ lenOut - 1 then return (result, p)
          else do
            let result ← Buffer.store result p uc
            utf8ToUnicodeLoop lenOut n chars uc (need - 1) result (p + 1)
        else utf8ToUnicodeLoop lenOut n chars uc (need - 1) result p
      else do
        let result ← Buffer.store result p 0xfffd
        utf8ToUnicodeLoop lenOut n chars uc 0 result (p + 1)
    else if ch < 128 then do
      let result ← Buffer.store result p ch.toUInt16
      utf8ToUnicodeLoop lenOut n chars uc need result (p + 1)
    else if ch &&& 0xe0 = 0xc0 then utf8ToUnicodeLoop lenOut n chars (ch.toUInt16 &&& 0x1f) 1 result p
    else if ch &&& 0xf0 = 0xe0 then utf8ToUnicodeLoop lenOut n chars (ch.toUInt16 &&& 0x0f) 2 result p
    else utf8ToUnicodeLoop lenOut n chars uc need result p

def utf8ToUnicode (chars : List UInt8) (len : Int) (result : List UInt16) (lenOut : Int) :
    Res (List UInt16 × Nat) :=
  utf8ToUnicodeLoop lenOut len.toNat chars 0 0 result 0

/-! ## The encoding -/

/-- A unit's bytes. -/
def encodeUnit (u : UInt16) : List UInt8 :=
  if u.toNat < 0x80 then [UInt8.ofNat u.toNat]
  else if u.toNat < 0x800 then [UInt8.ofNat (0xc0 + u.toNat / 64), UInt8.ofNat (0x80 + u.toNat % 64)]
  else [UInt8.ofNat (0xe0 + u.toNat / 4096), UInt8.ofNat (0x80 + u.toNat / 64 % 64),
    UInt8.ofNat (0x80 + u.toNat % 64)]

def encode (us : List UInt16) : List UInt8 := us.flatMap encodeUnit

theorem encodeUnit_length_le (u : UInt16) : (encodeUnit u).length ≤ 3 := by
  unfold encodeUnit
  split
  · simp
  · split <;> simp

theorem or_eq_add {a b c k : Nat} (hc : c = 2 ^ k * a) (hb : b < 2 ^ k) : c ||| b = c + b := by
  rw [hc]
  exact (Nat.two_pow_add_eq_or_of_lt hb a).symm

theorem and_ff (n : Nat) : n &&& 0xff = n % 256 := Nat.and_two_pow_sub_one_eq_mod n 8

theorem and_3f (n : Nat) : n &&& 0x3f = n % 64 := Nat.and_two_pow_sub_one_eq_mod n 6

theorem row_eq (u : UInt16) : (u.toNat >>> 8) % 256 = u.toNat / 256 := by
  have := u.toNat_lt
  rw [Nat.shiftRight_eq_div_pow]
  omega

/-- The 8 bit intermediate, as the code computes it. -/
theorem slice_eq (u : UInt16) :
    (UInt8.ofNat ((u.toNat / 256) <<< 2 ||| (u.toNat % 256) >>> 6)).toNat = u.toNat / 64 % 256 := by
  have hor : (u.toNat / 256) <<< 2 ||| (u.toNat % 256) >>> 6 = u.toNat / 64 := by
    rw [Nat.shiftLeft_eq, Nat.shiftRight_eq_div_pow, Nat.mul_comm, or_eq_add rfl (by omega)]
    omega
  rw [hor, UInt8.toNat_ofNat']

theorem encode_two {u : UInt16} (h : 0x80 ≤ u.toNat) (h' : u.toNat < 0x800) :
    [UInt8.ofNat (0xc0 ||| u.toNat / 64 % 256), UInt8.ofNat (0x80 ||| u.toNat % 256 % 64)] =
      encodeUnit u := by
  have h1 : 0xc0 ||| u.toNat / 64 % 256 = 0xc0 + u.toNat / 64 % 256 :=
    or_eq_add (a := 3) (k := 6) rfl (by omega)
  have h2 : 0x80 ||| u.toNat % 256 % 64 = 0x80 + u.toNat % 256 % 64 :=
    or_eq_add (a := 2) (k := 6) rfl (by omega)
  have h3 : u.toNat / 64 % 256 = u.toNat / 64 := by omega
  have h4 : u.toNat % 256 % 64 = u.toNat % 64 := by omega
  rw [encodeUnit, if_neg (by omega), if_pos h', h1, h2, h3, h4]

theorem encode_three {u : UInt16} (h : 0x800 ≤ u.toNat) :
    [UInt8.ofNat (0xe0 ||| (u.toNat / 256) >>> 4), UInt8.ofNat (0x80 ||| u.toNat / 64 % 256 % 64),
      UInt8.ofNat (0x80 ||| u.toNat % 256 % 64)] = encodeUnit u := by
  have hu := u.toNat_lt
  have h1 : 0xe0 ||| u.toNat / 256 / 2 ^ 4 = 0xe0 + u.toNat / 256 / 2 ^ 4 :=
    or_eq_add (a := 14) (k := 4) rfl (by omega)
  have h2 : 0x80 ||| u.toNat / 64 % 256 % 64 = 0x80 + u.toNat / 64 % 256 % 64 :=
    or_eq_add (a := 2) (k := 6) rfl (by omega)
  have h3 : 0x80 ||| u.toNat % 256 % 64 = 0x80 + u.toNat % 256 % 64 :=
    or_eq_add (a := 2) (k := 6) rfl (by omega)
  have h4 : u.toNat / 256 / 2 ^ 4 = u.toNat / 4096 := by omega
  have h5 : u.toNat / 64 % 256 % 64 = u.toNat / 64 % 64 := by omega
  have h6 : u.toNat % 256 % 64 = u.toNat % 64 := by omega
  rw [Nat.shiftRight_eq_div_pow, encodeUnit, if_neg (by omega), if_neg (by omega), h1, h2, h3, h4, h5, h6]

/-- One pass of the encoder's loop: it leaves when the unit's bytes and a terminator do not fit. -/
theorem encodeLoop_cons (lenOut : Int) (n : Nat) (u : UInt16) (uc : List UInt16)
    (out : List UInt8) (p : Nat) :
    unicodeToUtf8Loop lenOut (n + 1) (u :: uc) out p =
      if (p : Int) ≥ lenOut - (encodeUnit u).length then .ok (out, p)
      else Buffer.storeAll out p (encodeUnit u) >>= fun out =>
        unicodeToUtf8Loop lenOut n uc out (p + (encodeUnit u).length) := by
  have hu := u.toNat_lt
  simp only [unicodeToUtf8Loop, and_ff, row_eq, and_3f, slice_eq]
  by_cases h1 : u.toNat < 0x80
  · have henc : encodeUnit u = [UInt8.ofNat u.toNat] := by rw [encodeUnit, if_pos h1]
    have hcell : u.toNat % 256 = u.toNat := by omega
    rw [if_pos (by omega), hcell, ← henc]
    simp [henc]
  · rw [if_neg (by omega)]
    by_cases h2 : u.toNat < 0x800
    · rw [if_pos (by omega), encode_two (by omega) h2]
      simp [encodeUnit, h1, h2]
    · rw [if_neg (by omega), encode_three (by omega)]
      simp [encodeUnit, h1, h2]

/-! ## The pieces of a byte string -/

def IsCont (b : UInt8) : Prop := 0x80 ≤ b ∧ b < 0xc0

instance : DecidablePred IsCont := fun _ => inferInstanceAs (Decidable (_ ∧ _))

def Lead2 (b : UInt8) : Prop := 0xc0 ≤ b ∧ b < 0xe0

instance : DecidablePred Lead2 := fun _ => inferInstanceAs (Decidable (_ ∧ _))

def Lead3 (b : UInt8) : Prop := 0xe0 ≤ b ∧ b < 0xf0

instance : DecidablePred Lead3 := fun _ => inferInstanceAs (Decidable (_ ∧ _))

/-- What a unit is made of: an ASCII byte, a sequence with all its continuation bytes, a sequence that a
byte cut short. -/
inductive Piece where
  | ascii (ch : UInt8)
  | whole (uc : UInt16)
  | cut (b : UInt8)
  deriving DecidableEq, Repr

def Piece.unit : Piece → UInt16
  | .ascii ch => ch.toUInt16
  | .whole uc => uc
  | .cut _ => 0xfffd

def Piece.IsWhole : Piece → Prop
  | .whole _ => True
  | _ => False

instance : DecidablePred Piece.IsWhole := fun c => by
  cases c <;> unfold Piece.IsWhole <;> infer_instance

def seq2 (a b : UInt8) : UInt16 := UInt16.ofNat (a.toNat % 32 * 64 + b.toNat % 64)

def seq3 (a b c : UInt8) : UInt16 := UInt16.ofNat (a.toNat % 16 * 4096 + b.toNat % 64 * 64 + c.toNat % 64)

/-- A byte string by its pieces. A sequence that the string ends in is none, nor is a byte that begins
nothing: a continuation byte, and each from `0xf0` on. -/
def pieces : List UInt8 → List Piece
  | [] => []
  | a :: s =>
    if a < 0x80 then .ascii a :: pieces s
    else if Lead2 a then
      match s with
      | [] => []
      | b :: s =>
        if IsCont b then .whole (seq2 a b) :: pieces s
        else .cut b :: pieces s
    else if Lead3 a then
      match s with
      | [] => []
      | b :: s =>
        if IsCont b then
          match s with
          | [] => []
          | c :: s =>
            if IsCont c then .whole (seq3 a b c) :: pieces s
            else .cut c :: pieces s
        else .cut b :: pieces s
    else pieces s

theorem pieces_cons (a : UInt8) (s : List UInt8) : pieces (a :: s) =
    if a < 0x80 then .ascii a :: pieces s
    else if Lead2 a then
      match s with
      | [] => []
      | b :: s =>
        if IsCont b then .whole (seq2 a b) :: pieces s
        else .cut b :: pieces s
    else if Lead3 a then
      match s with
      | [] => []
      | b :: s =>
        if IsCont b then
          match s with
          | [] => []
          | c :: s =>
            if IsCont c then .whole (seq3 a b c) :: pieces s
            else .cut c :: pieces s
        else .cut b :: pieces s
    else pieces s :=
  pieces.eq_def (a :: s)

theorem Lead2.not_ascii {a : UInt8} (h : Lead2 a) : ¬a < 0x80 := by
  have := h.1
  simp only [UInt8.lt_iff_toNat_lt, UInt8.le_iff_toNat_le, UInt8.reduceToNat] at *
  omega

theorem Lead3.not_ascii {a : UInt8} (h : Lead3 a) : ¬a < 0x80 := by
  have := h.1
  simp only [UInt8.lt_iff_toNat_lt, UInt8.le_iff_toNat_le, UInt8.reduceToNat] at *
  omega

theorem Lead3.not_lead2 {a : UInt8} (h : Lead3 a) : ¬Lead2 a := by
  intro h2
  have h2 := h2.2
  have h3 := h.1
  simp only [UInt8.lt_iff_toNat_lt, UInt8.le_iff_toNat_le, UInt8.reduceToNat] at *
  omega

section
variable {a b c : UInt8}

theorem pieces_ascii (ha : a < 0x80) (s : List UInt8) : pieces (a :: s) = .ascii a :: pieces s := by
  simp [pieces_cons, ha]

theorem pieces_two (ha : Lead2 a) (hb : IsCont b) (s : List UInt8) :
    pieces (a :: b :: s) = .whole (seq2 a b) :: pieces s := by
  simp [pieces_cons, ha.not_ascii, ha, hb]

theorem pieces_two_cut (ha : Lead2 a) (hb : ¬IsCont b) (s : List UInt8) :
    pieces (a :: b :: s) = .cut b :: pieces s := by
  simp [pieces_cons, ha.not_ascii, ha, hb]

theorem pieces_three (ha : Lead3 a) (hb : IsCont b) (hc : IsCont c) (s : List UInt8) :
    pieces (a :: b :: c :: s) = .whole (seq3 a b c) :: pieces s := by
  simp [pieces_cons, ha.not_ascii, ha.not_lead2, ha, hb, hc]

theorem pieces_three_cut (ha : Lead3 a) (hb : ¬IsCont b) (s : List UInt8) :
    pieces (a :: b :: s) = .cut b :: pieces s := by
  simp [pieces_cons, ha.not_ascii, ha.not_lead2, ha, hb]

theorem pieces_three_cut_late (ha : Lead3 a) (hb : IsCont b) (hc : ¬IsCont c) (s : List UInt8) :
    pieces (a :: b :: c :: s) = .cut c :: pieces s := by
  simp [pieces_cons, ha.not_ascii, ha.not_lead2, ha, hb, hc]

theorem pieces_skip (h1 : ¬a < 0x80) (h2 : ¬Lead2 a) (h3 : ¬Lead3 a) (s : List UInt8) :
    pieces (a :: s) = pieces s := by
  simp [pieces_cons, h1, h2, h3]

end

/-- The pieces' units into a buffer: the room is looked at for a whole sequence alone. -/
def emit (lenOut : Int) : List Piece → List UInt16 → Nat → Res (List UInt16 × Nat)
  | [], result, p => .ok (result, p)
  | c :: cs, result, p =>
    if c.IsWhole ∧ (p : Int) ≥ lenOut - 1 then .ok (result, p)
    else Buffer.store result p c.unit >>= fun result => emit lenOut cs result (p + 1)

theorem isCont_iff (b : UInt8) : b &&& 0xc0 = 0x80 ↔ IsCont b := by
  have h : ∀ n : Fin 256, UInt8.ofFin n &&& 0xc0 = 0x80 ↔ IsCont (UInt8.ofFin n) := by decide +kernel
  exact h b.toFin

theorem lead2_iff (b : UInt8) : b &&& 0xe0 = 0xc0 ↔ Lead2 b := by
  have h : ∀ n : Fin 256, UInt8.ofFin n &&& 0xe0 = 0xc0 ↔ Lead2 (UInt8.ofFin n) := by decide +kernel
  exact h b.toFin

theorem lead3_iff (b : UInt8) : b &&& 0xf0 = 0xe0 ↔ Lead3 b := by
  have h : ∀ n : Fin 256, UInt8.ofFin n &&& 0xf0 = 0xe0 ↔ Lead3 (UInt8.ofFin n) := by decide +kernel
  exact h b.toFin

/-- A continuation byte's six bits behind what has been read. -/
theorem shift_or_eq {uc : UInt16} {n : Nat} (h : uc.toNat = n) (hn : n < 1024) (b : UInt8) :
    (uc <<< 6 ||| (b.toUInt16 &&& 0x3f)) = UInt16.ofNat (n * 64 + b.toNat % 64) := by
  have hb := b.toNat_lt
  apply UInt16.toNat_inj.1
  have h6 : n * 64 ||| b.toNat % 64 = n * 64 + b.toNat % 64 :=
    or_eq_add (a := n) (k := 6) (Nat.mul_comm _ _) (by omega)
  have hshift : n <<< 6 % 65536 = n * 64 := by
    rw [Nat.shiftLeft_eq]
    omega
  simp [UInt16.toNat_or, UInt16.toNat_shiftLeft, and_3f, h, hshift, h6]
  omega

theorem seq2_eq (a b : UInt8) : (a.toUInt16 &&& 0x1f) <<< 6 ||| (b.toUInt16 &&& 0x3f) = seq2 a b := by
  have ha : (a.toUInt16 &&& 0x1f).toNat = a.toNat % 32 := by
    rw [UInt16.toNat_and]
    exact Nat.and_two_pow_sub_one_eq_mod _ 5
  rw [shift_or_eq ha (by omega), seq2]

theorem seq3_eq (a b c : UInt8) :
    ((a.toUInt16 &&& 0x0f) <<< 6 ||| (b.toUInt16 &&& 0x3f)) <<< 6 ||| (c.toUInt16 &&& 0x3f) = seq3 a b c := by
  have ha : (a.toUInt16 &&& 0x0f).toNat = a.toNat % 16 := by
    rw [UInt16.toNat_and]
    exact Nat.and_two_pow_sub_one_eq_mod _ 4
  have hab : (UInt16.ofNat (a.toNat % 16 * 64 + b.toNat % 64)).toNat = a.toNat % 16 * 64 + b.toNat % 64 := by
    rw [UInt16.toNat_ofNat']
    omega
  rw [shift_or_eq ha (by omega), shift_or_eq hab (by omega), seq3, Nat.add_mul, Nat.mul_assoc]

/-- From between two sequences, the decoder's loop is `emit` over the pieces. -/
theorem utf8ToUnicodeLoop_eq (lenOut : Int) (s : List UInt8) (uc : UInt16) (result : List UInt16) (p : Nat) :
    utf8ToUnicodeLoop lenOut s.length s uc 0 result p = emit lenOut (pieces s) result p := by
  fun_induction pieces s generalizing uc result p with
  | case1 => rfl
  | case2 a s ha ih => simp [utf8ToUnicodeLoop, emit, Piece.IsWhole, Piece.unit, ha, ih]
  | case3 a ha hlead => simp [utf8ToUnicodeLoop, emit, ha, lead2_iff, hlead]
  | case4 a ha hlead b s hb ih =>
    simp [utf8ToUnicodeLoop, emit, Piece.IsWhole, Piece.unit, ha, lead2_iff, hlead, isCont_iff, hb,
      ih, seq2_eq]
  | case5 a ha hlead b s hb ih =>
    simp [utf8ToUnicodeLoop, emit, Piece.IsWhole, Piece.unit, ha, lead2_iff, hlead, isCont_iff, hb, ih]
  | case6 a ha h2 hlead => simp [utf8ToUnicodeLoop, emit, ha, lead2_iff, h2, lead3_iff, hlead]
  | case7 a ha h2 hlead b hb =>
    simp [utf8ToUnicodeLoop, emit, ha, lead2_iff, h2, lead3_iff, hlead, isCont_iff, hb]
  | case8 a ha h2 hlead b hb c s hc ih =>
    simp [utf8ToUnicodeLoop, emit, Piece.IsWhole, Piece.unit, ha, lead2_iff, h2, lead3_iff, hlead,
      isCont_iff, hb,
      hc, ih, seq3_eq]
  | case9 a ha h2 hlead b hb c s hc ih =>
    simp [utf8ToUnicodeLoop, emit, Piece.IsWhole, Piece.unit, ha, lead2_iff, h2, lead3_iff, hlead,
      isCont_iff, hb,
      hc, ih]
  | case10 a ha h2 hlead b s hb ih =>
    simp [utf8ToUnicodeLoop, emit, Piece.IsWhole, Piece.unit, ha, lead2_iff, h2, lead3_iff, hlead,
      isCont_iff, hb, ih]
  | case11 a s ha h2 h3 ih => simp [utf8ToUnicodeLoop, ha, lead2_iff, h2, lead3_iff, h3, ih]

section
variable {lenOut : Int}

/-- Pieces that there is room for, with one unit to spare. -/
theorem emit_ok {front rest : List UInt16} {cs : List Piece} (h : (front.length + cs.length : Nat) < lenOut)
    (hrest : cs.length ≤ rest.length) : emit lenOut cs (front ++ rest) front.length =
      .ok (front ++ cs.map Piece.unit ++ rest.drop cs.length, front.length + cs.length) := by
  induction cs generalizing front rest with
  | nil => simp [emit]
  | cons c cs ih =>
    cases rest with
    | nil => simp at hrest
    | cons x rest =>
      rw [List.length_cons] at h
      rw [List.length_cons, List.length_cons] at hrest
      have hroom : ¬(c.IsWhole ∧ (front.length : Int) ≥ lenOut - 1) := fun hc => by omega
      have hnext := @ih (front ++ [c.unit]) rest (by simp; omega) (by omega)
      rw [List.length_append, List.length_singleton] at hnext
      rw [emit, if_neg hroom, Buffer.store_eq, if_neg (by simp), Res.ok_bind, List.drop_one, List.tail_cons,
        List.append_cons, hnext]
      simp [Nat.add_comm, Nat.add_left_comm]

/-! ## Round trip -/

/-- A unit as a piece. -/
def pieceOf (u : UInt16) : Piece := if u.toNat < 0x80 then .ascii (UInt8.ofNat u.toNat) else .whole u

theorem pieceOf_unit (u : UInt16) : (pieceOf u).unit = u := by
  unfold pieceOf
  split
  · apply UInt16.toNat_inj.1
    simp [Piece.unit]
    omega
  · rfl

theorem isCont_ofNat {n : Nat} (h : n < 64) : IsCont (UInt8.ofNat (0x80 + n)) := by
  have hn : (0x80 + n) % 2 ^ 8 = 0x80 + n := by omega
  simp only [IsCont, UInt8.lt_iff_toNat_lt, UInt8.le_iff_toNat_le, UInt8.reduceToNat, UInt8.toNat_ofNat', hn]
  omega

theorem lead2_ofNat {n : Nat} (h : n < 32) : Lead2 (UInt8.ofNat (0xc0 + n)) := by
  have hn : (0xc0 + n) % 2 ^ 8 = 0xc0 + n := by omega
  simp only [Lead2, UInt8.lt_iff_toNat_lt, UInt8.le_iff_toNat_le, UInt8.reduceToNat, UInt8.toNat_ofNat', hn]
  omega

theorem lead3_ofNat {n : Nat} (h : n < 16) : Lead3 (UInt8.ofNat (0xe0 + n)) := by
  have hn : (0xe0 + n) % 2 ^ 8 = 0xe0 + n := by omega
  simp only [Lead3, UInt8.lt_iff_toNat_lt, UInt8.le_iff_toNat_le, UInt8.reduceToNat, UInt8.toNat_ofNat', hn]
  omega

theorem pieces_encodeUnit (u : UInt16) (s : List UInt8) :
    pieces (encodeUnit u ++ s) = pieceOf u :: pieces s := by
  have hu := u.toNat_lt
  unfold encodeUnit pieceOf
  by_cases h1 : u.toNat < 0x80
  · have ha : UInt8.ofNat u.toNat < 0x80 := by
      rw [UInt8.lt_iff_toNat_lt, UInt8.toNat_ofNat']
      simp
      omega
    rw [if_pos h1, if_pos h1, List.singleton_append, pieces_ascii ha]
  · rw [if_neg h1, if_neg h1]
    by_cases h2 : u.toNat < 0x800
    · have hseq : seq2 (UInt8.ofNat (0xc0 + u.toNat / 64)) (UInt8.ofNat (0x80 + u.toNat % 64)) = u := by
        apply UInt16.toNat_inj.1
        rw [seq2, UInt16.toNat_ofNat', UInt8.toNat_ofNat', UInt8.toNat_ofNat']
        omega
      rw [if_pos h2, List.cons_append, List.singleton_append, pieces_two (lead2_ofNat (by omega))
        (isCont_ofNat (by omega)), hseq]
    · have hseq : seq3 (UInt8.ofNat (0xe0 + u.toNat / 4096)) (UInt8.ofNat (0x80 + u.toNat / 64 % 64))
          (UInt8.ofNat (0x80 + u.toNat % 64)) = u := by
        apply UInt16.toNat_inj.1
        rw [seq3, UInt16.toNat_ofNat', UInt8.toNat_ofNat', UInt8.toNat_ofNat', UInt8.toNat_ofNat']
        omega
      rw [if_neg h2, List.cons_append, List.cons_append, List.singleton_append, pieces_three
        (lead3_ofNat (by omega)) (isCont_ofNat (by omega)) (isCont_ofNat (by omega)), hseq]

theorem pieces_encode (us : List UInt16) : pieces (encode us) = us.map pieceOf := by
  induction us with
  | nil => rfl
  | cons u us ih => rw [encode, List.flatMap_cons, pieces_encodeUnit, ← encode, ih, List.map_cons]

/-- The encoder writes the encoding of a prefix behind what is there, and leaves room for the terminator. -/
theorem encodeLoop_eq {front rest : List UInt8} {us : List UInt16} (h : (front.length : Int) < lenOut)
    (hbuf : lenOut ≤ (front.length + rest.length : Nat)) :
    ∃ k ≤ us.length, unicodeToUtf8Loop lenOut us.length us (front ++ rest) front.length =
        .ok (front ++ encode (us.take k) ++ rest.drop (encode (us.take k)).length,
          front.length + (encode (us.take k)).length) ∧
      (front.length + (encode (us.take k)).length : Nat) < lenOut ∧
      ((front.length + 3 * us.length : Nat) < lenOut → k = us.length) := by
  induction us generalizing front rest with
  | nil => exact ⟨0, Nat.le_refl 0, by simp [unicodeToUtf8Loop, encode], by simpa [encode] using h,
    fun _ => rfl⟩
  | cons u us ih =>
    have hlen := encodeUnit_length_le u
    rw [List.length_cons, encodeLoop_cons]
    by_cases hroom : (front.length : Int) ≥ lenOut - (encodeUnit u).length
    · refine ⟨0, Nat.zero_le _, ?_, by simpa [encode] using h, fun hall => ?_⟩
      · rw [if_pos hroom]
        simp [encode]
      · omega
    · have hfit : (encodeUnit u).length ≤ rest.length := by omega
      obtain ⟨k, hk, heq, hlt, hall⟩ := @ih (front ++ encodeUnit u) (rest.drop (encodeUnit u).length)
        (by rw [List.length_append]; omega) (by rw [List.length_append, List.length_drop]; omega)
      rw [List.length_append] at heq hlt hall
      refine ⟨k + 1, by omega, ?_, ?_, fun h3 => ?_⟩
      · rw [if_neg hroom, Buffer.storeAll_ok hfit, Res.ok_bind, heq]
        simp [encode, Nat.add_assoc]
      · simpa [encode, Nat.add_assoc] using hlt
      · rw [hall (by omega)]

end

/-- What the encoder writes of a text is the encoding of a prefix, with its terminator within `lenOut` bytes;
the decoder makes the prefix of it. -/
theorem unicodeToUtf8_roundtrip {us : List UInt16} (hus : us ≠ []) {out : List UInt8} {lenOut : Int}
    (hpos : 1 ≤ lenOut) (hout : lenOut ≤ out.length) :
    ∃ k ≤ us.length, ∃ bytes : List UInt8, bytes = encode (us.take k) ∧ (bytes.length : Int) + 1 ≤ lenOut ∧
      unicodeToUtf8 us us.length out lenOut = .ok (bytes ++ 0 :: out.drop (bytes.length + 1), bytes.length) ∧
      ((3 * us.length : Int) + 1 ≤ lenOut → k = us.length) ∧
      ∀ (units : List UInt16) (lenUnits : Int), (k : Int) < lenUnits → lenUnits ≤ units.length →
        utf8ToUnicode bytes bytes.length units lenUnits = .ok (us.take k ++ units.drop k, k) := by
  obtain ⟨k, hk, hloop, hlt, hall⟩ := @encodeLoop_eq lenOut [] out us (by simp; omega) (by simpa using hout)
  simp only [List.nil_append, List.length_nil, Nat.zero_add] at hloop hlt hall
  refine ⟨k, hk, encode (us.take k), rfl, by omega, ?_, fun h3 => hall (by omega), ?_⟩
  · have hlen : ¬(us.length : Int) ≤ 0 := by
      have := List.length_pos_of_ne_nil hus
      omega
    have hrest : out.drop (encode (us.take k)).length ≠ [] := by
      intro hnil
      have := List.drop_eq_nil_iff.1 hnil
      omega
    rw [unicodeToUtf8, if_neg hlen, Res.pure_eq, Res.ok_bind, Int.toNat_natCast]
    simp only [hloop, Res.ok_bind, Buffer.store_eq, if_neg hrest, List.drop_drop, Res.pure_eq]
  · intro units lenUnits hroom hunits
    have hlen : ((us.take k).map pieceOf).length = k := by
      rw [List.length_map, List.length_take]
      omega
    have hunit : ((us.take k).map pieceOf).map Piece.unit = us.take k := by
      simp [Function.comp_def, pieceOf_unit]
    have hemit := @emit_ok lenUnits [] units ((us.take k).map pieceOf) (by rw [hlen]; simpa using hroom)
      (by rw [hlen]; omega)
    rw [hlen, hunit] at hemit
    rw [utf8ToUnicode, Int.toNat_natCast, utf8ToUnicodeLoop_eq, pieces_encode]
    simpa using hemit

/-- Three units of one, two and three bytes, with room for the first two. -/
theorem unicodeToUtf8_roundtrip_short :
    ∃ k ≤ 3, ∃ bytes : List UInt8, bytes = encode (List.take k [0x41, 0xe9, 0x20ac]) ∧
      (bytes.length : Int) + 1 ≤ 5 ∧
      unicodeToUtf8 [0x41, 0xe9, 0x20ac] 3 [9, 9, 9, 9, 9] 5 =
        .ok (bytes ++ 0 :: List.drop (bytes.length + 1) [9, 9, 9, 9, 9], bytes.length) ∧
      ((3 * 3 : Int) + 1 ≤ 5 → k = 3) ∧
      ∀ (units : List UInt16) (lenUnits : Int), (k : Int) < lenUnits → lenUnits ≤ units.length →
        utf8ToUnicode bytes bytes.length units lenUnits =
          .ok (List.take k [0x41, 0xe9, 0x20ac] ++ units.drop k, k) :=
  @unicodeToUtf8_roundtrip [0x41, 0xe9, 0x20ac] (by simp) [9, 9, 9, 9, 9] 5 (by decide) (by decide)

end Utils
