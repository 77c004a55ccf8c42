import GoipRemote.Utils.Utf8

/-!
# Malformed UTF-8 (utils/utf8.c)

What `utf8_to_unicode` does of a string that is no encoding, and where it writes.

* The room is tested for a whole sequence alone: the decoder stays within `n` units when there are no more
  pieces, or a whole sequence stands where the test ends it (`emit_ne_fault_iff`, `Stays`).
* A byte that cuts a sequence short is a part of the piece (`pieces_of_cut`) and is not read again. What is
  lost with it is nothing when the rest reads the same without it (`adds_iff`).
-/

namespace Utils

/-! ## Room -/

def WholeAt (cs : List Piece) (i : Nat) : Prop := ∃ uc, cs[i]? = some (.whole uc)

/-- The decoder writes no unit behind the first `n`. -/
def Stays (n : Nat) (cs : List Piece) : Prop := cs.length ≤ n ∨ WholeAt cs (n - 1) ∨ WholeAt cs n

theorem wholeAt_cons {c : Piece} {cs : List Piece} {i : Nat} : WholeAt (c :: cs) (i + 1) ↔ WholeAt cs i := by
  simp [WholeAt]

theorem wholeAt_zero {c : Piece} {cs : List Piece} : WholeAt (c :: cs) 0 ↔ c.IsWhole := by
  cases c <;> simp [WholeAt, Piece.IsWhole]

theorem emit_ne_fault_iff {lenOut : Int} {cs : List Piece} {result : List UInt16} {p : Nat}
    (hlen : result.length = lenOut.toNat) (hp : p ≤ lenOut.toNat) :
    emit lenOut cs result p ≠ .fault ↔
      cs.length + p ≤ lenOut.toNat ∨ (p < lenOut.toNat ∧ WholeAt cs (lenOut.toNat - 1 - p)) ∨
        WholeAt cs (lenOut.toNat - p) := by
  induction cs generalizing result p with
  | nil => simpa [emit] using .inl hp
  | cons c cs ih =>
    rw [emit]
    by_cases hroom : c.IsWhole ∧ (p : Int) ≥ lenOut - 1
    · -- the test ends the loop: the piece is the last of the room, or behind it
      rw [if_pos hroom]
      have hat : WholeAt (c :: cs) 0 := wholeAt_zero.2 hroom.1
      refine iff_of_true (by simp) (.inr ?_)
      by_cases hlt : p < lenOut.toNat
      · have h0 : lenOut.toNat - 1 - p = 0 := by omega
        exact .inl ⟨hlt, h0 ▸ hat⟩
      · have h0 : lenOut.toNat - p = 0 := by omega
        exact .inr (h0 ▸ hat)
    · rw [if_neg hroom, Buffer.store]
      by_cases hlt : p < lenOut.toNat
      · rw [if_pos (by omega), Res.ok_bind, ih (by simpa using hlen) hlt, List.length_cons]
        have hn : lenOut.toNat - p = lenOut.toNat - (p + 1) + 1 := by omega
        have hle : cs.length + 1 + p = cs.length + (p + 1) := by omega
        rw [hn, wholeAt_cons, hle]
        by_cases hlast : p + 1 < lenOut.toNat
        · have hn' : lenOut.toNat - 1 - p = lenOut.toNat - 1 - (p + 1) + 1 := by omega
          rw [hn', wholeAt_cons]
          simp only [hlast, hlt, true_and]
        · have hn' : lenOut.toNat - 1 - p = 0 := by omega
          have hw : ¬c.IsWhole := fun hw => hroom ⟨hw, by omega⟩
          rw [hn', wholeAt_zero]
          simp only [hlast, hw, false_and, and_false, false_or]
      · rw [if_neg (by omega), Res.fault_bind, List.length_cons]
        have hn : lenOut.toNat - p = 0 := by omega
        have hw : ¬c.IsWhole := fun hw => hroom ⟨hw, by omega⟩
        rw [hn, wholeAt_zero]
        simp only [hlt, hw, false_and, or_false, ne_eq, not_true_eq_false, false_iff]
        omega

theorem utf8ToUnicode_ne_fault_iff {s : List UInt8} {result : List UInt16} {lenOut : Int}
    (hlen : result.length = lenOut.toNat) :
    utf8ToUnicode s s.length result lenOut ≠ .fault ↔ Stays lenOut.toNat (pieces s) := by
  rw [utf8ToUnicode, Int.toNat_natCast, utf8ToUnicodeLoop_eq, emit_ne_fault_iff hlen (Nat.zero_le _), Stays]
  by_cases hpos : 0 < lenOut.toNat
  · simp [hpos]
  · have hn : lenOut.toNat = 0 := by omega
    simp [hn]

/-! ## Sequences cut short -/

/-- What a string is read as, whatever the buffer with room for as many units as it has bytes. -/
def Decodes (s : List UInt8) (us : List UInt16) : Prop :=
  ∀ (result : List UInt16) (lenOut : Int), (s.length : Int) < lenOut → lenOut ≤ result.length →
    utf8ToUnicode s s.length result lenOut = .ok (us ++ result.drop us.length, us.length)

/-- A string that ends in a sequence with bytes still to come. -/
def Unfinished : List UInt8 → Prop
  | [] => False
  | a :: s =>
    if a < 0x80 then Unfinished s
    else if Lead2 a then
      match s with
      | [] => True
      | _ :: s => Unfinished s
    else if Lead3 a then
      match s with
      | [] => True
      | b :: s =>
        if IsCont b then
          match s with
          | [] => True
          | _ :: s => Unfinished s
        else Unfinished s
    else Unfinished s

/-- Behind each sequence that a byte cut short, the string is read from that byte on. -/
def Resyncs (s : List UInt8) : Prop :=
  ∀ (front : List UInt8) (b : UInt8) (rest : List UInt8), s = front ++ b :: rest →
    Unfinished front → ¬IsCont b →
    ∀ us vs, Decodes front us → Decodes (b :: rest) vs → Decodes s (us ++ 0xfffd :: vs)

def units (s : List UInt8) : List UInt16 := (pieces s).map Piece.unit

theorem pieces_length_le (s : List UInt8) : (pieces s).length ≤ s.length := by
  fun_induction pieces s <;> simp only [List.length_cons, List.length_nil] <;> omega

theorem decodes_units (s : List UInt8) : Decodes s (units s) := by
  intro result lenOut hroom hres
  have hlen := pieces_length_le s
  have hemit := @emit_ok lenOut [] result (pieces s) (by rw [List.length_nil]; omega) (by omega)
  rw [utf8ToUnicode, Int.toNat_natCast, utf8ToUnicodeLoop_eq]
  simpa [units] using hemit

theorem decodes_iff {s : List UInt8} {us : List UInt16} : Decodes s us ↔ us = units s := by
  refine ⟨?_, ?_⟩
  · intro h
    have h1 := h (List.replicate (s.length + 1) 0) (s.length + 1) (by omega) (by simp)
    have h2 := decodes_units s (List.replicate (s.length + 1) 0) (s.length + 1) (by omega) (by simp)
    rw [h1] at h2
    simp only [Res.ok.injEq, Prod.mk.injEq] at h2
    exact List.append_inj_left h2.1 h2.2
  · intro h
    subst h
    exact decodes_units s

/-- The byte that cuts a sequence short goes with it. -/
theorem pieces_of_cut {front : List UInt8} (hfront : Unfinished front) {b : UInt8} (hb : ¬IsCont b)
    (rest : List UInt8) : pieces (front ++ b :: rest) = pieces front ++ .cut b :: pieces rest := by
  fun_induction pieces front with
  | case1 => exact hfront.elim
  | case2 a s ha ih =>
    rw [Unfinished.eq_def] at hfront
    simp only [ha, if_true] at hfront
    rw [List.cons_append, pieces_ascii ha, ih hfront, List.cons_append]
  | case3 a ha hlead => rw [List.singleton_append, pieces_two_cut hlead hb, List.nil_append]
  | case4 a ha hlead c s hc ih =>
    rw [Unfinished.eq_def] at hfront
    simp only [ha, hlead, if_true, if_false] at hfront
    rw [List.cons_append, List.cons_append, pieces_two hlead hc, ih hfront, List.cons_append]
  | case5 a ha hlead c s hc ih =>
    rw [Unfinished.eq_def] at hfront
    simp only [ha, hlead, if_true, if_false] at hfront
    rw [List.cons_append, List.cons_append, pieces_two_cut hlead hc, ih hfront, List.cons_append]
  | case6 a ha h2 hlead => rw [List.singleton_append, pieces_three_cut hlead hb, List.nil_append]
  | case7 a ha h2 hlead c hc =>
    rw [List.cons_append, List.singleton_append, pieces_three_cut_late hlead hc hb, List.nil_append]
  | case8 a ha h2 hlead c hc d s hd ih =>
    rw [Unfinished.eq_def] at hfront
    simp only [ha, h2, hlead, hc, if_true, if_false] at hfront
    rw [List.cons_append, List.cons_append, List.cons_append, pieces_three hlead hc hd, ih hfront,
      List.cons_append]
  | case9 a ha h2 hlead c hc d s hd ih =>
    rw [Unfinished.eq_def] at hfront
    simp only [ha, h2, hlead, hc, if_true, if_false] at hfront
    rw [List.cons_append, List.cons_append, List.cons_append, pieces_three_cut_late hlead hc hd, ih hfront,
      List.cons_append]
  | case10 a ha h2 hlead c s hc ih =>
    rw [Unfinished.eq_def] at hfront
    simp only [ha, h2, hlead, hc, if_true, if_false] at hfront
    rw [List.cons_append, List.cons_append, pieces_three_cut hlead hc, ih hfront, List.cons_append]
  | case11 a s ha h2 h3 ih =>
    rw [Unfinished.eq_def] at hfront
    simp only [ha, h2, h3, if_false] at hfront
    rw [List.cons_append, pieces_skip ha h2 h3, ih hfront]

/-- Whether the first byte of a string adds nothing to what the rest is read as (`false`), or one replacement
unit (`true`). -/
def adds : List UInt8 → Bool → Bool
  | [], _ => false
  | a :: s, one =>
    if a < 0x80 then false
    else if Lead2 a then
      match s with
      | [] => !one
      | b :: t => if IsCont b then false else adds (b :: t) (!one)
    else if Lead3 a then
      match s with
      | [] => !one
      | b :: t =>
        if IsCont b then
          match t with
          | [] => !one
          | c :: t => if IsCont c then one && seq3 a b c == 0xfffd else adds (c :: t) (!one)
        else adds (b :: t) (!one)
    else !one

/-- The units that `adds` speaks of. -/
def extra (one : Bool) : List UInt16 := if one then [0xfffd] else []

theorem IsCont.not_lead {b : UInt8} (h : IsCont b) : ¬b < 0x80 ∧ ¬Lead2 b ∧ ¬Lead3 b := by
  have h1 := h.1
  have h2 := h.2
  simp only [Lead2, Lead3, UInt8.lt_iff_toNat_lt, UInt8.le_iff_toNat_le, UInt8.reduceToNat] at *
  omega

theorem units_cont {b : UInt8} (h : IsCont b) (s : List UInt8) : units (b :: s) = units s := by
  obtain ⟨h1, h2, h3⟩ := h.not_lead
  rw [units, pieces_skip h1 h2 h3, units]

/-- A sequence that is cut short by `b` stands for one unit, so what it adds is decided by what `b` adds. -/
theorem cut_adds_iff {one : Bool} {us vs : List UInt16} :
    (0xfffd :: us = extra one ++ vs) ↔ vs = extra (!one) ++ us := by
  cases one with
  | false => simp [extra, eq_comm]
  | true => simp [extra, eq_comm]

theorem cons_eq_extra_iff {one : Bool} {x : UInt16} {us : List UInt16} :
    x :: us = extra one ++ us ↔ (one && x == 0xfffd) = true := by
  cases one with
  | false => simp [extra]
  | true => simp [extra]

theorem self_eq_extra_iff {one : Bool} {us : List UInt16} : us = extra one ++ us ↔ (!one) = true := by
  cases one with
  | false => simp [extra]
  | true => simp [extra]

theorem toUInt16_ne (a : UInt8) : a.toUInt16 ≠ 0xfffd := by
  intro h
  have h := congrArg UInt16.toNat h
  have := a.toNat_lt
  rw [UInt8.toNat_toUInt16] at h
  simp at h
  omega

theorem seq2_ne (a b : UInt8) : seq2 a b ≠ 0xfffd := by
  intro h
  have h := congrArg UInt16.toNat h
  rw [seq2, UInt16.toNat_ofNat'] at h
  simp at h
  omega

/-- `adds` says how the first byte of a string counts. -/
theorem adds_iff {t : List UInt8} (ht : t ≠ []) (one : Bool) :
    adds t one = true ↔ units t = extra one ++ units t.tail := by
  fun_induction adds t one with
  | case1 => exact (ht rfl).elim
  | case2 a s one ha =>
    rw [List.tail_cons, units, pieces_ascii ha, List.map_cons, ← units, cons_eq_extra_iff]
    simp [Piece.unit, toUInt16_ne]
  | case3 a one ha hlead =>
    have hnil : units [a] = units [] := by simp [units, pieces, ha, hlead]
    rw [List.tail_cons, hnil, self_eq_extra_iff]
  | case4 a one ha hlead b s hb =>
    rw [List.tail_cons, units, pieces_two hlead hb, List.map_cons, ← units, units_cont hb, cons_eq_extra_iff]
    simp [Piece.unit, seq2_ne]
  | case5 a one ha hlead b s hb ih =>
    rw [List.tail_cons, units, pieces_two_cut hlead hb, List.map_cons, ← units, Piece.unit, cut_adds_iff,
      ih (by simp), List.tail_cons]
  | case6 a one ha h2 hlead =>
    have hnil : units [a] = units [] := by simp [units, pieces, ha, h2, hlead]
    rw [List.tail_cons, hnil, self_eq_extra_iff]
  | case7 a one ha h2 hlead b hb =>
    have hnil : units [a, b] = units [] := by simp [units, pieces, ha, h2, hlead, hb]
    rw [List.tail_cons, hnil, units_cont hb, self_eq_extra_iff]
  | case8 a one ha h2 hlead b hb c s hc =>
    rw [List.tail_cons, units, pieces_three hlead hb hc, List.map_cons, ← units, units_cont hb, units_cont hc,
      cons_eq_extra_iff, Piece.unit]
  | case9 a one ha h2 hlead b hb c s hc ih =>
    rw [List.tail_cons, units, pieces_three_cut_late hlead hb hc, List.map_cons, ← units, Piece.unit,
      cut_adds_iff,
      units_cont hb, ih (by simp), List.tail_cons]
  | case10 a one ha h2 hlead b s hb ih =>
    rw [List.tail_cons, units, pieces_three_cut hlead hb, List.map_cons, ← units, Piece.unit, cut_adds_iff,
      ih (by simp), List.tail_cons]
  | case11 a s one ha h2 h3 =>
    rw [List.tail_cons, units, pieces_skip ha h2 h3, ← units, self_eq_extra_iff]

/-- Each byte that cuts a sequence short is one that the rest reads the same without. -/
def CutsHarmless (s : List UInt8) : Prop :=
  ∀ (front : List UInt8) (b : UInt8) (rest : List UInt8), s = front ++ b :: rest →
    Unfinished front → ¬IsCont b →
    adds (b :: rest) false = true

theorem resyncs_iff (s : List UInt8) : Resyncs s ↔ CutsHarmless s := by
  unfold Resyncs CutsHarmless
  refine forall_congr' fun front => forall_congr' fun b => forall_congr' fun rest => ?_
  refine imp_congr_right fun hs => imp_congr_right fun hfront => imp_congr_right fun hb => ?_
  have hunits : units s = units front ++ 0xfffd :: units rest := by
    rw [hs, units, pieces_of_cut hfront hb, List.map_append, List.map_cons]
    rfl
  rw [adds_iff (by simp), List.tail_cons]
  simp only [decodes_iff, forall_eq_apply_imp_iff, forall_eq, hunits]
  simp [extra, eq_comm]

/-- The decoder stays within a buffer of `lenOut` units and reads on behind each error, if and only if the
pieces end where it looks at the room, and no byte that cuts a sequence short stands for something. -/
theorem utf8ToUnicode_stays_resyncs_iff (s : List UInt8) {result : List UInt16} {lenOut : Int}
    (hlen : result.length = lenOut.toNat) :
    (utf8ToUnicode s s.length result lenOut ≠ .fault ∧ Resyncs s) ↔
      (Stays lenOut.toNat (pieces s) ∧ CutsHarmless s) := by
  rw [utf8ToUnicode_ne_fault_iff hlen, resyncs_iff]

/-- A second ASCII byte goes behind a buffer of one unit, and an `A` that cuts a sequence short is lost. -/
theorem utf8ToUnicode_out_of_bounds :
    utf8ToUnicode [0x41, 0x42] 2 [0] 1 = .fault ∧ ¬Resyncs [0xc3, 0x41] := by
  refine ⟨rfl, fun h => ?_⟩
  have h := h [0xc3] 0x41 [] rfl (by simp [Unfinished, Lead2]) (by decide) [] [0x41] (decodes_units _)
    (decodes_units _)
    [0, 0, 0] 3 (by decide) (by decide)
  exact absurd h (by decide)

/-- A whole sequence at the last unit, and a byte of four byte sequences as the one that cuts one short. -/
theorem utf8ToUnicode_stays_resyncs_room :
    (utf8ToUnicode [0xc3, 0xf0, 0xc3, 0xa9] 4 [0, 0] 2 ≠ .fault ∧ Resyncs [0xc3, 0xf0, 0xc3, 0xa9]) ↔
      (Stays 2 (pieces [0xc3, 0xf0, 0xc3, 0xa9]) ∧ CutsHarmless [0xc3, 0xf0, 0xc3, 0xa9]) :=
  @utf8ToUnicode_stays_resyncs_iff [0xc3, 0xf0, 0xc3, 0xa9] [0, 0] 2 rfl

end Utils
