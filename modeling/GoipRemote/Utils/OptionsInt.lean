import GoipRemote.Utils.OptionsMulti

/-!
# Repeatable integers

`add_long_vector` walks over white space in front of an element without making its length smaller, so that
it cuts out bytes behind the element: the comma, or the terminator (`ElementsFit`). What it cuts out has to
be shorter than its buffer of twenty bytes. `setoptArgs_meets_iff` says for which arguments a repeatable
option of any kind collects what its calls say.
-/

namespace Utils.Options

open Buffer Strtol CString

/-! ## One element -/

theorem trimEnd_eq {front ws behind : Text} {b : UInt8} (hb : isspace b = false)
    (hws : ∀ c ∈ ws, isspace c = true) :
    trimEnd (front ++ b :: ws ++ behind) (front.length + 1 + ws.length) = .ok (front.length + 1) := by
  induction ws using List.reverseRecOn generalizing behind with
  | nil =>
    have hload := @load_eq UInt8 front b behind
    rw [List.append_assoc]
    show trimEnd (front ++ b :: behind) (front.length + 1) = _
    rw [trimEnd, hload, Res.ok_bind, hb]
    rfl
  | append_singleton ws c ih =>
    have hc := hws c (by simp)
    have hload := @load_eq UInt8 (front ++ b :: ws) c behind
    have hmem : front ++ b :: (ws ++ [c]) ++ behind = front ++ b :: ws ++ c :: behind := by simp
    have hlen : (front ++ b :: ws).length = front.length + 1 + ws.length := by
      simp
      omega
    rw [hlen] at hload
    rw [hmem, List.length_append, List.length_singleton, ← Nat.add_assoc, trimEnd, hload, Res.ok_bind,
      hc, if_pos rfl]
    exact ih fun d hd => hws d (List.mem_append_left _ hd)

/-- A byte that is no white space stays. -/
theorem trimEnd_ge {mem : Text} {i : Nat} {b : UInt8} (hb : mem[i]? = some b) (hspace : isspace b = false)
    {len len' : Nat}
    (hi : i < len) (h : trimEnd mem len = .ok len') : i < len' ∧ len' ≤ len ∧ len ≤ mem.length := by
  induction len with
  | zero => omega
  | succ len ih =>
    obtain ⟨c, hc, hrest⟩ := Res.bind_eq_ok.1 h
    have hlen : len < mem.length := by
      unfold load at hc
      split at hc
      · rename_i heq
        exact (List.getElem?_eq_some_iff.1 heq).1
      · cases hc
    by_cases hlast : i = len
    · subst hlast
      have hcb : c = b := by
        unfold load at hc
        rw [hb] at hc
        cases hc
        rfl
      rw [hcb, hspace] at hrest
      cases hrest
      omega
    · split at hrest
      · have hrec := ih (by omega) hrest
        omega
      · cases hrest
        omega

theorem cutLong_eq {value : Text} {len len' : Nat} (hlen : len ≠ 0)
    (htrim : trimEnd (value.dropWhile isspace ++ [0]) len = .ok len') (hpos : len' ≠ 0)
    (hin : len' ≤ (value.dropWhile isspace ++ [0]).length) :
    cutLong value len = .ok (if 20 ≤ len' then none
      else some (ofBuf ((value.dropWhile isspace ++ [0]).take len')).bytes) := by
  have hload := @loadAll_eq UInt8 [] ((value.dropWhile isspace ++ [0]).drop len')
    ((value.dropWhile isspace ++ [0]).take len')
  rw [List.nil_append, List.take_append_drop, List.length_nil, List.length_take, Nat.min_eq_left hin] at hload
  unfold cutLong
  simp only [if_neg hlen, htrim, Res.ok_bind]
  by_cases hlong : 20 ≤ len'
  · rw [if_pos (.inr hlong), if_pos hlong]
    rfl
  · rw [if_neg (by omega), if_neg hlong, hload]
    rfl

/-- An element that begins with its number. -/
def Fits (e : Text) : Prop := isspace (e.headD 0) = false ∧ (trim e).length < 20

/-- The last element of an argument: one byte of white space in front of it takes the place of the
terminator. -/
def LastFits (e : Text) : Prop := Fits e ∨ e.tail = trim e ∧ e.length < 20

instance : DecidablePred Fits := fun _ => inferInstanceAs (Decidable (_ ∧ _))

instance : DecidablePred LastFits := fun _ => inferInstanceAs (Decidable (_ ∨ _))

theorem strtol_of_number {text rest : Text} {negative : Bool} {n : Nat}
    (h : number 0 text = some (negative, n, rest)) : strtol 0 text = clip negative n rest := by
  unfold strtol
  rw [h]

@[simp] theorem clip_rest (negative : Bool) (n : Nat) (rest : Text) : (clip negative n rest).rest = rest := by
  unfold clip
  split <;> rfl

theorem ends_of_isspace {x y : Text} (hx : ∀ b ∈ x, isspace b = true) (hy : Ends y) : Ends (x ++ y) := by
  cases x with
  | nil => exact hy
  | cons b x =>
    intro c hc
    cases hc
    exact digitValue_of_isspace (hx b List.mem_cons_self)

/-- An integer between white space. -/
structure IntegerParts (front t behind : Text) : Prop where
  before : ∀ b ∈ front, isspace b = true
  after : ∀ b ∈ behind, isspace b = true
  number : ∃ negative n, number 0 t = some (negative, n, [])
  head : isspace (t.headD 0) = false
  last : ∃ t' b, t = t' ++ [b] ∧ isspace b = false
  zero : ∀ b ∈ t ++ behind, b ≠ 0

theorem integerParts {e : Text} {v : Int} (hint : integer e = some v) (hzero : ∀ b ∈ e, b ≠ 0) :
    ∃ front behind, e = front ++ trim e ++ behind ∧ IntegerParts front (trim e) behind := by
  obtain ⟨negative, n, hnumber, -⟩ := integer_eq hint
  obtain ⟨front, behind, he, hfront, hbehind⟩ := trim_eq e
  have hne := number_ne_nil hnumber
  refine ⟨front, behind, he, hfront, hbehind, ⟨negative, n, hnumber⟩, ?_, ?_, ?_⟩
  · obtain ⟨c, t', hc⟩ := List.exists_cons_of_ne_nil hne
    have hhead := trim_head hc
    rw [hc]
    exact hhead
  · obtain ⟨t', b, hb⟩ := (List.eq_nil_or_concat' (trim e)).resolve_left hne
    exact ⟨t', b, hb, trim_last hb⟩
  · intro b hb
    apply hzero b
    rw [he, List.append_assoc]
    exact List.mem_append_right _ hb

namespace IntegerParts

variable {front t behind : Text}

theorem ne_nil (h : IntegerParts front t behind) : t ≠ [] := by
  obtain ⟨negative, n, hnumber⟩ := h.number
  exact number_ne_nil hnumber

/-- The white space in front is skipped. -/
theorem skip (h : IntegerParts front t behind) (x : Text) : (front ++ t ++ x).dropWhile isspace = t ++ x := by
  obtain ⟨c, t', rfl⟩ := List.exists_cons_of_ne_nil h.ne_nil
  have hc : isspace c = false := h.head
  rw [List.append_assoc, List.dropWhile_append_of_pos h.before, List.cons_append,
    List.dropWhile_cons_of_neg (by simp [hc])]

/-- What `strtol` leaves behind the number. -/
theorem strtol_rest (h : IntegerParts front t behind) {x : Text} (hx : Ends x) :
    (strtol 0 (t ++ x)).rest = x := by
  obtain ⟨negative, n, hnumber⟩ := h.number
  rw [strtol_of_number (number_append hnumber hx), clip_rest]
  rfl

/-- Without white space in front, white space behind the number is cut off. -/
theorem cutLong_tight (h : IntegerParts [] t behind) (rest : Text) :
    cutLong (t ++ behind ++ rest) (t ++ behind).length = .ok (if 20 ≤ t.length then none else some t) := by
  obtain ⟨t', b, ht, hb⟩ := h.last
  have hskip := h.skip (behind ++ rest)
  rw [List.nil_append, ← List.append_assoc] at hskip
  have hmem : t ++ behind ++ rest ++ [0] = t' ++ b :: behind ++ (rest ++ [0]) := by simp [ht]
  have hlen : (t ++ behind).length = t'.length + 1 + behind.length := by
    simp [ht]
    omega
  have hlen' : t'.length + 1 = t.length := by simp [ht]
  have htrim := @trimEnd_eq t' behind (rest ++ [0]) b hb h.after
  rw [← hmem, ← hlen, hlen', ← hskip] at htrim
  have hpos := List.length_pos_iff.2 h.ne_nil
  have htake : (t ++ (behind ++ (rest ++ [0]))).take t.length = t := List.take_left
  have hbytes : (ofBuf t).bytes = t := ofBuf_bytes fun c hc => h.zero c (List.mem_append_left _ hc)
  rw [cutLong_eq (by rw [List.length_append]; omega) htrim (by omega) (by rw [hskip]; simp), hskip]
  simp only [List.append_assoc, htake, hbytes]

/-- One byte of white space in front of the last element: the terminator is cut out with it. -/
theorem cutLong_terminator {w : UInt8} (h : IntegerParts [w] t behind) :
    cutLong ([w] ++ t ++ behind) ([w] ++ t ++ behind).length =
      .ok (if 20 ≤ ([w] ++ t ++ behind).length then none else some (t ++ behind)) := by
  have hskip := h.skip behind
  have htrim := @trimEnd_eq (t ++ behind) [] [] 0 rfl (by simp)
  have hlen : (t ++ behind).length + 1 + ([] : Text).length = ([w] ++ t ++ behind).length := by
    simp
  have hlen' : (t ++ behind).length + 1 = ([w] ++ t ++ behind).length := hlen
  rw [hlen, hlen', List.append_nil, ← hskip] at htrim
  have htake : (t ++ behind ++ [0]).take ([w] ++ t ++ behind).length = t ++ behind ++ [0] := by
    apply List.take_of_length_le
    simp
    omega
  have hbytes : (ofBuf (t ++ behind ++ [0])).bytes = t ++ behind := by
    have happend := ofBuf_append (ofBuf (t ++ behind)) []
    rw [ofBuf_bytes h.zero] at happend
    rw [happend, ofBuf_bytes h.zero]
  rw [cutLong_eq (by simp) htrim (by simp) (by rw [hskip]; simp), hskip, htake, hbytes]

/-- More of it, and bytes behind the terminator are looked at. -/
theorem cutLong_behind (h : IntegerParts front t behind) (hfront : 1 < front.length) {buf : Option Text} :
    cutLong (front ++ t ++ behind) (front ++ t ++ behind).length ≠ .ok buf := by
  intro hcut
  obtain ⟨len', htrim, -⟩ := Res.bind_eq_ok.1 hcut
  have hlen : (front ++ t ++ behind).length ≠ 0 := by
    simp only [List.length_append]
    omega
  rw [h.skip behind, if_neg hlen] at htrim
  have hzero : (t ++ behind ++ [0])[(t ++ behind).length]? = some 0 := by simp
  have hge := trimEnd_ge hzero rfl (by simp; omega) htrim
  simp at hge
  omega

/-- White space in front of an element that is not the last: the comma is cut out with it. -/
theorem cutLong_comma (h : IntegerParts front t behind) (hfront : front ≠ []) (rest : Text) {buf : Text}
    (hcut : cutLong (front ++ t ++ behind ++ 44 :: rest) (front ++ t ++ behind).length = .ok (some buf)) :
    (strtol 0 buf).rest ≠ [] := by
  have hpos := List.length_pos_iff.2 hfront
  have hskip := h.skip (behind ++ 44 :: rest)
  rw [← List.append_assoc] at hskip
  have hlen : (front ++ t ++ behind).length ≠ 0 := by
    simp only [List.length_append]
    omega
  obtain ⟨len', htrim, -⟩ := Res.bind_eq_ok.1 hcut
  rw [if_neg hlen] at htrim
  have htrim' := htrim
  rw [hskip] at htrim'
  have hcomma : (t ++ (behind ++ 44 :: rest) ++ [0])[(t ++ behind).length]? = some 44 := by
    have hassoc : t ++ (behind ++ 44 :: rest) ++ [0] = t ++ behind ++ 44 :: (rest ++ [0]) := by simp
    rw [hassoc]
    simp
  obtain ⟨hgt, hle, hin⟩ := trimEnd_ge hcomma rfl (by simp; omega) htrim'
  rw [cutLong_eq hlen htrim (by omega) (by rw [hskip]; omega), hskip] at hcut
  split at hcut
  · cases hcut
  · obtain ⟨y, hy⟩ : ∃ y, (t ++ (behind ++ 44 :: rest) ++ [0]).take len' = t ++ behind ++ 44 :: y := by
      refine ⟨(rest ++ [0]).take (len' - (t ++ behind ++ [44]).length), ?_⟩
      have hassoc : t ++ (behind ++ 44 :: rest) ++ [0] = (t ++ behind ++ [44]) ++ (rest ++ [0]) := by simp
      rw [hassoc, List.take_append, List.take_of_length_le (by simp at hgt ⊢; omega), List.append_assoc,
        List.singleton_append]
    have hbuf : (ofBuf (t ++ behind ++ 44 :: y)).bytes = t ++ behind ++ 44 :: (ofBuf y).bytes := by
      show (t ++ behind ++ 44 :: y).takeWhile (· ≠ 0) = _
      rw [List.takeWhile_append_of_pos fun b hb => by simpa using h.zero b hb]
      rfl
    rw [hy, hbuf] at hcut
    cases hcut
    rw [List.append_assoc, h.strtol_rest (ends_of_isspace h.after fun b hb => by cases hb; rfl)]
    simp

theorem fits_iff {e : Text} (h : IntegerParts front t behind) (ht : trim e = t)
    (he : e = front ++ t ++ behind) :
    Fits e ↔ front = [] ∧ t.length < 20 := by
  unfold Fits
  rw [ht]
  cases front with
  | nil =>
    obtain ⟨c, t', rfl⟩ := List.exists_cons_of_ne_nil h.ne_nil
    have hhead : isspace (e.headD 0) = false := by
      rw [he]
      exact h.head
    simp only [hhead, true_and]
  | cons w front =>
    have hhead : isspace (e.headD 0) = true := by
      rw [he]
      exact h.before w List.mem_cons_self
    simp only [hhead, Bool.true_eq_false, false_and, List.cons_ne_nil]

theorem tail_iff {e : Text} (h : IntegerParts front t behind) (he : e = front ++ t ++ behind) :
    e.tail = t ↔ front.length = 1 ∧ behind = [] := by
  have hlen := congrArg List.length he
  simp only [List.length_append] at hlen
  have hpos := List.length_pos_iff.2 h.ne_nil
  refine ⟨?_, ?_⟩
  · intro htail
    have htlen := congrArg List.length htail
    rw [List.length_tail] at htlen
    cases front with
    | cons w front =>
      rw [List.length_cons] at hlen ⊢
      exact ⟨by omega, List.length_eq_zero_iff.1 (by omega)⟩
    | nil =>
      -- the byte behind the number would be its last one too
      obtain ⟨t', b, rfl, hspace⟩ := h.last
      obtain ⟨w, rfl⟩ := List.length_eq_one_iff.1 (show behind.length = 1 by simp at hlen htlen; omega)
      have hw : isspace w = true := h.after w List.mem_cons_self
      rw [he, List.nil_append, List.tail_append_of_ne_nil h.ne_nil] at htail
      have hlast := (List.append_inj' htail rfl).2
      cases hlast
      rw [hspace] at hw
      cases hw
  · rintro ⟨hone, rfl⟩
    obtain ⟨w, rfl⟩ := List.length_eq_one_iff.1 hone
    rw [he]
    simp

end IntegerParts

/-- What is cut out for an integer: its digits, where the condition on its white space and length holds, and
otherwise at most a text that is no integer. -/
theorem cutLong_integer {e rest : Text} {v : Int} (hint : integer e = some v) (hzero : ∀ b ∈ e, b ≠ 0)
    (hrest : rest = [] ∨ ∃ r, rest = 44 :: r) :
    (Fits e ∨ rest = [] ∧ LastFits e → cutLong (e ++ rest) e.length = .ok (some (trim e))) ∧
    (¬(Fits e ∨ rest = [] ∧ LastFits e) →
      ∀ buf, cutLong (e ++ rest) e.length = .ok (some buf) → (strtol 0 buf).rest ≠ []) := by
  obtain ⟨front, behind, he, hparts⟩ := integerParts hint hzero
  unfold LastFits
  rw [hparts.fits_iff rfl he, hparts.tail_iff he]
  match front with
  | [] =>
    have hcut := hparts.cutLong_tight rest
    rw [List.nil_append] at he
    rw [← he] at hcut
    rw [hcut]
    refine ⟨?_, ?_⟩
    · intro hfits
      rw [if_neg]
      simp at hfits
      omega
    · intro hfits
      rw [if_pos]
      · simp
      · simp at hfits
        omega
  | [w] =>
    rcases hrest with rfl | ⟨r, rfl⟩
    · have hcut := hparts.cutLong_terminator
      rw [← he] at hcut
      rw [List.append_nil, hcut]
      refine ⟨?_, ?_⟩
      · intro hfits
        simp only [List.cons_ne_nil, false_and, false_or, List.length_singleton, true_and] at hfits
        rw [if_neg (by omega), hfits.1, List.append_nil]
      · intro hfits buf hbuf
        split at hbuf
        · cases hbuf
        · rename_i hlong
          have hbehind : behind ≠ [] := by
            intro hnil
            refine hfits (.inr ⟨rfl, .inr ⟨⟨rfl, hnil⟩, by omega⟩⟩)
          cases hbuf
          have hend := @ends_of_isspace behind [] hparts.after fun b hb => by cases hb
          rw [List.append_nil] at hend
          rw [hparts.strtol_rest hend]
          exact hbehind
    · refine ⟨fun hfits => absurd hfits (by simp), fun _ buf hbuf => ?_⟩
      rw [he] at hbuf
      exact hparts.cutLong_comma (List.cons_ne_nil _ _) r hbuf
  | w :: w' :: front =>
    refine ⟨fun hfits => absurd hfits (by simp), fun _ buf hbuf => ?_⟩
    rcases hrest with rfl | ⟨r, rfl⟩
    · rw [List.append_nil, he] at hbuf
      exact absurd hbuf (hparts.cutLong_behind (by simp))
    · rw [he] at hbuf
      exact hparts.cutLong_comma (List.cons_ne_nil _ _) r hbuf

/-! ## The vector -/

/-- The value that is stored for an element. -/
def longOf (e : Text) : Int := (strtol 0 (trim e)).value

/-- The vector of an entry, in the block of four cells that it is first given. -/
def VectorRep (vector : Vector) (vals : List Int) : Prop :=
  vals = [] ∧ vector = .null ∨
    vals ≠ [] ∧ ∃ rest, vector = .longs ((vals.length : Int) :: (vals ++ rest)) ∧
      vals.length + rest.length = 3

theorem vectorIs_iff {vector : Vector} {l : List Int} (h : VectorRep vector l) (vals : List Int) :
    VectorIs vector vals ↔ vals = l := by
  rcases h with ⟨rfl, rfl⟩ | ⟨-, rest, rfl, -⟩
  · rfl
  · show (vals.length : Int) :: vals <+: (l.length : Int) :: (l ++ rest) ↔ vals = l
    rw [List.cons_prefix_cons]
    refine ⟨?_, ?_⟩
    · rintro ⟨hlen, x, hx⟩
      exact List.append_inj_left hx (by omega)
    · rintro rfl
      exact ⟨rfl, List.prefix_append _ _⟩

section
variable {m : Malloc} {ent : Optent} {vals : List Int}

/-- A count of a few values is one of an `int`. -/
theorem bmod_small {k : Nat} (h : k < 4) : Int.bmod (k : Int) (2 ^ 32) = k := by
  interval_cases k <;> rfl

theorem growLongs_longs {cells : List Int} {first count : Int} (hload : load cells 0 = .ok first)
    (hcount : Int.bmod first (2 ^ 32) = count) (hmod : count % 4 ≠ 0) (n : Nat) :
    growLongs m (.longs cells) n = .ok (some (cells, count), .longs cells, n) := by
  subst hcount
  simp only [growLongs, hload, Res.ok_bind, if_pos hmod, Res.pure_eq]

/-- The vector before a value is added. -/
theorem growLongs_rep (hm : ∀ n, m.null n = false) {vector : Vector} (h : VectorRep vector vals) (n : Nat) :
    ∃ first rest n', growLongs m vector n =
      .ok (some (first :: (vals ++ rest), (vals.length : Int)), .longs (first :: (vals ++ rest)), n') ∧
      vals.length + rest.length = 3 := by
  rcases h with ⟨rfl, rfl⟩ | ⟨hne, rest, rfl, hlen⟩
  · refine ⟨m.longs n 0, [m.longs n 1, m.longs n 2, m.longs n 3], n + 1, ?_, rfl⟩
    simp [growLongs, hm, region, List.range_succ]
  · have hpos := List.length_pos_iff.2 hne
    have hmod : (vals.length : Int) % 4 ≠ 0 := by omega
    exact ⟨vals.length, rest, n, growLongs_longs rfl (bmod_small (by omega)) hmod n, hlen⟩

/-- A value is added. -/
theorem addLongVector_rep (hm : ∀ n, m.null n = false) (h : VectorRep ent.vector vals)
    (hroom : vals.length < 3)
    {value t : Text} {len : Nat} (hcut : cutLong value len = .ok (some t)) (ht : t ≠ [])
    (hrest : (strtol 0 t).rest = []) (n : Nat) :
    ∃ vector' n', addLongVector m value len ent n = .ok (0, { ent with vector := vector' }, n') ∧
      VectorRep vector' (vals ++ [(strtol 0 t).value]) := by
  obtain ⟨first, rest, n', hgrow, hlen⟩ := growLongs_rep hm h n
  have hne : rest ≠ [] := by
    rintro rfl
    simp at hlen
    omega
  have hfirst := @store_eq Int (first :: vals) rest (strtol 0 t).value
  rw [if_neg hne, List.length_cons, List.cons_append] at hfirst
  have hlong : storeLong (first :: (vals ++ rest)) vals.length (strtol 0 t).value =
      .ok (first :: vals ++ (strtol 0 t).value :: rest.drop 1) := by
    unfold storeLong
    rw [if_neg (by omega), show ((vals.length : Int) + 1).toNat = vals.length + 1 by omega]
    exact hfirst
  refine ⟨.longs ((vals.length + 1 : Int) :: (vals ++ (strtol 0 t).value :: rest.drop 1)), n', ?_, ?_⟩
  · unfold addLongVector
    simp only [hgrow, hcut, hlong, Res.ok_bind, hrest, ne_eq, not_true_eq_false, or_false,
      Ne.symm ht, if_false]
    rfl
  · refine .inr ⟨by simp, rest.drop 1, ?_, ?_⟩
    · simp
    · simp
      omega

/-- A text that is no integer is not added. -/
theorem addLongVector_refuses {value : Text} {len : Nat}
    (hcut : ∀ buf, cutLong value len = .ok (some buf) → (strtol 0 buf).rest ≠ []) {n n' : Nat} {r : Int}
    {ent' : Optent} (h : addLongVector m value len ent n = .ok (r, ent', n')) : r = -1 := by
  obtain ⟨⟨room, vector, n1⟩, -, hroom⟩ := Res.bind_eq_ok.1 h
  cases room with
  | none =>
    cases hroom
    rfl
  | some p =>
    obtain ⟨cut, hbuf, hrest⟩ := Res.bind_eq_ok.1 hroom
    cases cut with
    | none =>
      cases hrest
      rfl
    | some buf =>
      obtain ⟨list, -, hstored⟩ := Res.bind_eq_ok.1 hrest
      rw [if_pos (.inr (hcut buf hbuf))] at hstored
      cases hstored
      rfl

/-! ## The loop -/

/-- Every element can be read; the last has a terminator behind it. -/
def ElementsFit : List Text → Prop
  | [] => True
  | [e] => LastFits e
  | e :: f :: es => Fits e ∧ ElementsFit (f :: es)

theorem integer_ne_nil {e : Text} {v : Int} (h : integer e = some v) : e ≠ [] := by
  obtain ⟨negative, n, hnumber, -⟩ := integer_eq h
  rintro rfl
  exact number_ne_nil hnumber rfl

instance decidableElementsFit : DecidablePred ElementsFit
  | [] => isTrue trivial
  | [e] => inferInstanceAs (Decidable (LastFits e))
  | e :: f :: es =>
    have : Decidable (ElementsFit (f :: es)) := decidableElementsFit (f :: es)
    inferInstanceAs (Decidable (Fits e ∧ ElementsFit (f :: es)))

/-- One round of the loop. -/
theorem intLoop_cons (hm : ∀ n, m.null n = false) {l : List Text} (hlist : ListRep ent.value l)
    (hvector : VectorRep ent.vector (l.map longOf)) {e rest np : Text} {v : Int} (hint : integer e = some v)
    (hzero : ∀ b ∈ e, b ≠ 0) (hrest : rest = [] ∨ ∃ r, rest = 44 :: r)
    (hparse : parseList (e ++ rest) 44 = (e.length, np)) (fuel n : Nat) :
    ((Fits e ∨ rest = [] ∧ LastFits e) ∧ l.length < 3 → ∃ value' vector' n', ListRep value' (l ++ [e]) ∧
      VectorRep vector' ((l ++ [e]).map longOf) ∧
      intLoop m (fuel + 1) (e ++ rest) ent n =
        intLoop m fuel np { ent with value := value', vector := vector' } n') ∧
    (¬((Fits e ∨ rest = [] ∧ LastFits e) ∧ l.length < 3) →
      ∀ r ent' n', intLoop m (fuel + 1) (e ++ rest) ent n = .ok (r, ent', n') → r ≠ 0) := by
  obtain ⟨negative, k, hnumber, -⟩ := integer_eq hint
  have htrim := number_ne_nil hnumber
  have hne := integer_ne_nil hint
  have hpos := List.length_pos_iff.2 hne
  have hvalue : e ++ rest ≠ [] := by simp [hne]
  obtain ⟨value', n1, hadd, hrep⟩ := addValue_rep hm hlist (e ++ rest) e.length n
  rw [if_neg (show e.length ≠ 0 by omega), List.take_left] at hrep
  obtain ⟨hcut, hbad⟩ := cutLong_integer hint hzero hrest
  rw [intLoop, if_neg hvalue, hparse, hadd]
  by_cases hroom : l.length < 3
  · rw [if_pos hroom]
    simp only [hroom, and_true, Res.ok_bind, show ¬((0 : Int) < 0) by omega, if_false]
    refine ⟨?_, ?_⟩
    · intro hfits
      have hstrtol : (strtol 0 (trim e)).rest = [] := by rw [strtol_of_number hnumber, clip_rest]
      obtain ⟨vector', n2, hlong, hvector'⟩ :=
        @addLongVector_rep m { ent with value := value' } _ hm hvector (by simpa using hroom)
          (e ++ rest) (trim e)
          e.length (hcut hfits) htrim hstrtol n1
      refine ⟨value', vector', n2, hrep hroom, by simpa [longOf] using hvector', ?_⟩
      rw [hlong]
      rfl
    · intro hfits r ent' n' hloop
      obtain ⟨⟨r1, ent1, n2⟩, hlong, hret⟩ := Res.bind_eq_ok.1 hloop
      have hr1 := addLongVector_refuses (hbad hfits) hlong
      rw [hr1] at hret
      cases hret
      decide
  · rw [if_neg hroom]
    exact ⟨fun h => absurd h.2 hroom, fun _ _ _ _ h => by cases h⟩

/-- The loop over the elements of a text. -/
theorem intLoop_rep (hm : ∀ n, m.null n = false) {es : List Text} (hcomma : ∀ e ∈ es, 44 ∉ e)
    (hint : ∀ e ∈ es, (integer e).isSome) (hzero : ∀ e ∈ es, ∀ b ∈ e, b ≠ 0) {l : List Text}
    (hlist : ListRep ent.value l) (hvector : VectorRep ent.vector (l.map longOf)) (n : Nat) {fuel : Nat}
    (hfuel : ([44].intercalate es).length < fuel) :
    (ElementsFit es ∧ l.length + es.length ≤ 3 → ∃ ent' n',
      intLoop m fuel ([44].intercalate es) ent n = .ok (0, ent', n') ∧ ent'.name = ent.name ∧
      ListRep ent'.value (l ++ es) ∧ VectorRep ent'.vector ((l ++ es).map longOf)) ∧
    (¬(ElementsFit es ∧ l.length + es.length ≤ 3) →
      ∀ r ent' n', intLoop m fuel ([44].intercalate es) ent n = .ok (r, ent', n') → r ≠ 0) := by
  have hlen := hlist.length_le
  induction es generalizing ent l n fuel with
  | nil =>
    obtain ⟨fuel, rfl⟩ := Nat.exists_eq_succ_of_ne_zero (Nat.ne_of_gt hfuel)
    refine ⟨fun _ => ⟨ent, n, rfl, rfl, by simpa using hlist, by simpa using hvector⟩, fun hbad => ?_⟩
    exact absurd ⟨trivial, hlen⟩ hbad
  | cons e es ih =>
    obtain ⟨fuel, rfl⟩ := Nat.exists_eq_succ_of_ne_zero (Nat.ne_of_gt (Nat.zero_lt_of_lt hfuel))
    obtain ⟨v, hv⟩ := Option.isSome_iff_exists.1 (hint e List.mem_cons_self)
    have he := hcomma e List.mem_cons_self
    have he0 := hzero e List.mem_cons_self
    cases es with
    | nil =>
      have htext : [44].intercalate [e] = e ++ [] := by simp [List.intercalate]
      rw [htext] at hfuel ⊢
      have hparse : parseList (e ++ []) 44 = (e.length, []) := by
        rw [List.append_nil]
        exact parseList_last he
      have hpos := List.length_pos_iff.2 (integer_ne_nil hv)
      rw [List.append_nil] at hfuel
      obtain ⟨fuel, rfl⟩ := Nat.exists_eq_succ_of_ne_zero (show fuel ≠ 0 by omega)
      obtain ⟨hadds, hrefuses⟩ := intLoop_cons hm hlist hvector hv he0 (.inl rfl) hparse (fuel + 1) n
      have hiff : ElementsFit [e] ∧ l.length + [e].length ≤ 3 ↔
          (Fits e ∨ ([] : Text) = [] ∧ LastFits e) ∧ l.length < 3 := by
        have hlast : Fits e → LastFits e := .inl
        simp only [ElementsFit, List.length_singleton, true_and]
        refine ⟨?_, ?_⟩
        · rintro ⟨hfits, hroom⟩
          exact ⟨.inr hfits, by omega⟩
        · rintro ⟨hfits, hroom⟩
          exact ⟨hfits.elim hlast id, by omega⟩
      rw [hiff]
      refine ⟨fun hgood => ?_, hrefuses⟩
      obtain ⟨value', vector', n', hlist', hvector', hloop⟩ := hadds hgood
      exact ⟨{ ent with value := value', vector := vector' }, n', by rw [hloop, intLoop, if_pos rfl],
        rfl, hlist',
        hvector'⟩
    | cons f es =>
      have htext : [44].intercalate (e :: f :: es) = e ++ 44 :: [44].intercalate (f :: es) := by
        simp [List.intercalate]
      rw [htext] at hfuel ⊢
      obtain ⟨hadds, hrefuses⟩ := intLoop_cons hm hlist hvector hv he0 (.inr ⟨_, rfl⟩)
        (parseList_cons he _) fuel n
      have hfuel1 : ([44].intercalate (f :: es)).length < fuel := by
        simp only [List.length_append, List.length_cons] at hfuel
        omega
      have hone : (Fits e ∨ 44 :: [44].intercalate (f :: es) = [] ∧ LastFits e) ∧ l.length < 3 ↔
          Fits e ∧ l.length < 3 := by simp
      rw [hone] at hadds hrefuses
      have hcount : ElementsFit (e :: f :: es) ∧ l.length + (e :: f :: es).length ≤ 3 ↔
        (Fits e ∧ l.length < 3) ∧
          ElementsFit (f :: es) ∧ (l ++ [e]).length + (f :: es).length ≤ 3 := by
        simp only [ElementsFit, List.length_cons, List.length_append, List.length_nil]
        refine ⟨?_, ?_⟩
        · rintro ⟨⟨hfits, hrest⟩, hroom⟩
          exact ⟨⟨hfits, by omega⟩, hrest, by omega⟩
        · rintro ⟨⟨hfits, -⟩, hrest, hroom⟩
          exact ⟨⟨hfits, hrest⟩, by omega⟩
      rw [hcount]
      by_cases hgood : Fits e ∧ l.length < 3
      · obtain ⟨value1, vector1, n1, hlist1, hvector1, hloop⟩ := hadds hgood
        obtain ⟨hrest, hbad⟩ := @ih { ent with value := value1, vector := vector1 }
          (fun a ha => hcomma a (List.mem_cons_of_mem _ ha)) (fun a ha => hint a (List.mem_cons_of_mem _ ha))
          (fun a ha => hzero a (List.mem_cons_of_mem _ ha))
            (l ++ [e]) hlist1 hvector1 n1 fuel hfuel1 hlist1.length_le
        rw [hloop]
        simp only [hgood, true_and]
        refine ⟨fun h => ?_, hbad⟩
        obtain ⟨ent', n', hret, hname, hlist', hvector'⟩ := hrest h
        rw [List.append_assoc] at hlist' hvector'
        exact ⟨ent', n', hret, hname, hlist', hvector'⟩
      · exact ⟨fun h => absurd h.1 hgood, fun _ => hrefuses hgood⟩

/-- A call for an integer option. -/
theorem intLoop_follows (hm : ∀ n, m.null n = false) {argType : UInt32}
    (hint : argType &&& ~~~ARG_MULTI = ARG_INT) :
    Follows m argType (fun l ent _ => ListRep ent.value l ∧ VectorRep ent.vector (l.map longOf))
      (fun arg => arg.isSome ∧ ∀ e ∈ elementsOf arg, (integer e).isSome)
      (collectStep (fun arg => ElementsFit (elementsOf arg)) elementsOf) := by
  intro l arg ent n hrep harg
  obtain ⟨hsome, hintegers⟩ := harg
  obtain ⟨s, rfl⟩ := Option.isSome_iff_exists.1 hsome
  have hnone : argType &&& ~~~ARG_MULTI ≠ ARG_NONE := by
    rw [hint]
    decide
  have htext : [44].intercalate (elements s.bytes) = s.bytes := elements_intercalate rfl
  obtain ⟨hgood, hbad⟩ := intLoop_rep hm (fun e he => (of_mem_elements he).1) hintegers
    (fun e he b hb => s.ne_zero b ((of_mem_elements he).2 b hb)) hrep.1 hrep.2 n
    (show ([44].intercalate (elements s.bytes)).length < s.bytes.length + 1 by
      rw [htext]
      exact Nat.lt_succ_self _)
  rw [htext] at hgood hbad
  have hset : setMulti m argType (some s) ent n = intLoop m (s.bytes.length + 1) s.bytes ent n := by
    simp only [setMulti, if_neg hnone, if_pos hint]
  rw [hset]
  by_cases hfits : ElementsFit (elements s.bytes) ∧ l.length + (elements s.bytes).length ≤ 3
  · have hstep : collectStep (fun arg => ElementsFit (elementsOf arg)) elementsOf l (some s) =
        some (l ++ elements s.bytes) := if_pos hfits
    rw [hstep]
    exact hgood hfits
  · have hstep : collectStep (fun arg => ElementsFit (elementsOf arg)) elementsOf l (some s) = none :=
      if_neg hfits
    rw [hstep]
    exact hbad hfits

end

/-! ## Every kind of repeatable option -/

/-- A `long` holds the integer. -/
def InLong (e : Text) : Prop := ∀ v ∈ integer e, -2 ^ 63 ≤ v ∧ v < 2 ^ 63

instance : DecidablePred InLong := fun _ => inferInstanceAs (Decidable (∀ _ ∈ _, _))

theorem integer_longOf {e : Text} (h : (integer e).isSome) : integer e = some (longOf e) ↔ InLong e := by
  obtain ⟨v, hv⟩ := Option.isSome_iff_exists.1 h
  obtain ⟨negative, n, hnumber, rfl⟩ := integer_eq hv
  have hclip := @clip_value negative n []
  unfold InLong longOf
  rw [hv, strtol_of_number hnumber]
  simp only [Option.some.injEq, Option.mem_def, forall_eq']
  rw [← hclip]
  exact eq_comm

/-- When the calls for an option collect what they say. For a counter, the block that `malloc` gives it
happens to hold zero. For a list, there are at most three elements, and none of no bytes; integers have no
white space in front, but for one byte at the end of an argument, and less than twenty bytes. -/
def Collects (m : Malloc) (s : State) (argType : UInt32) (args : List (Option CString)) : Prop :=
  if argType &&& ~~~ARG_MULTI = ARG_NONE then args = [] ∨ m.longs (s.allocs + 1) 0 = 0 ∧ args.length < 2 ^ 63
  else if argType &&& ~~~ARG_MULTI = ARG_INT then (args.flatMap elementsOf).length ≤ 3 ∧
    ∀ arg ∈ args, ElementsFit (elementsOf arg) ∧ ∀ e ∈ elementsOf arg, InLong e
  else (args.flatMap elementsOf).length ≤ 3 ∧ [] ∉ args.flatMap elementsOf

section
variable {m : Malloc} {option : AppOption} {s : State} {args : List (Option CString)}

theorem meets_none (hm : ∀ n, m.null n = false) (hmulti : option.argType &&& ARG_MULTI ≠ 0)
    (hs : findOptent option.longName s.optlist = none) (hnone : option.argType &&& ~~~ARG_MULTI = ARG_NONE) :
    Meets m option args s ↔ args = [] ∨ m.longs (s.allocs + 1) 0 = 0 ∧ args.length < 2 ^ 63 := by
  have hrep : CountRep (s.allocs + 1) none (optentNow option s) (allocsNow option s) := by
    unfold optentNow allocsNow
    rw [hs]
    exact ⟨rfl, rfl⟩
  rw [@meets_iff_of_follows m option s _ _ _ _ hm hmulti
    (incVector_follows hm hnone (s.allocs + 1)) args none hrep
    (fun _ _ => trivial) (fun c => c.getD 0 = args.length) ?_]
  · cases args with
    | nil => simp
    | cons arg args =>
      rw [List.foldlM_cons]
      unfold countStep
      by_cases hmax : m.longs (s.allocs + 1) 0 = 2 ^ 63 - 1
      · simp [hmax]
      · simp only [Option.getD_none, if_neg hmax, Option.bind_eq_bind, Option.bind_some]
        have hfold := foldlM_countStep (m.longs (s.allocs + 1) 0) (m.longs (s.allocs + 1) 0 + 1) args
        unfold countStep at hfold
        rw [hfold]
        simp only [List.cons_ne_nil, false_or, List.length_cons]
        by_cases hover : ∃ i < args.length, m.longs (s.allocs + 1) 0 + 1 + i = 2 ^ 63 - 1
        · rw [if_pos hover]
          obtain ⟨i, hi, heq⟩ := hover
          refine ⟨?_, ?_⟩
          · rintro ⟨c, hc, -⟩
            cases hc
          · rintro ⟨hzero, hlen⟩
            omega
        · rw [if_neg hover]
          refine ⟨?_, ?_⟩
          · rintro ⟨c, hc, hcount⟩
            cases hc
            simp only [Option.getD_some] at hcount
            have hzero : m.longs (s.allocs + 1) 0 = 0 := by omega
            refine ⟨hzero, Nat.lt_of_not_le fun hlen => hover ⟨2 ^ 63 - 2, by omega, by omega⟩⟩
          · rintro ⟨hzero, -⟩
            refine ⟨_, rfl, ?_⟩
            simp only [Option.getD_some, hzero]
            omega
  · intro c ent n hc
    unfold Collected
    rw [if_pos hnone]
    cases c with
    | none =>
      rw [hc.1]
      simp [CounterIs, eq_comm]
    | some c =>
      rw [show ent.vector = .longs [c] from hc]
      simp [CounterIs]

theorem meets_int (hm : ∀ n, m.null n = false) (hmulti : option.argType &&& ARG_MULTI ≠ 0)
    (hs : findOptent option.longName s.optlist = none) (hint : option.argType &&& ~~~ARG_MULTI = ARG_INT)
    (hargs : none ∉ args) (hintegers : ∀ e ∈ args.flatMap elementsOf, (integer e).isSome) :
    Meets m option args s ↔ (args.flatMap elementsOf).length ≤ 3 ∧
      ∀ arg ∈ args, ElementsFit (elementsOf arg) ∧ ∀ e ∈ elementsOf arg, InLong e := by
  have hrep : ListRep (optentNow option s).value [] ∧
    VectorRep (optentNow option s).vector (([] : List Text).map longOf) := by
    unfold optentNow
    rw [hs]
    exact ⟨.inl ⟨rfl, rfl⟩, .inl ⟨rfl, rfl⟩⟩
  rw [@meets_iff_of_follows m option s _ _ _ _ hm hmulti (intLoop_follows hm hint) args [] hrep ?_
    (fun l => args.flatMap elementsOf = l ∧ (args.flatMap elementsOf).map integer = l.map fun e =>
      some (longOf e)) ?_]
  · simp only [foldlM_collect]
    have hvalues : ((args.flatMap elementsOf).map integer = (args.flatMap elementsOf).map fun e =>
      some (longOf e)) ↔
        ∀ e ∈ args.flatMap elementsOf, InLong e := by
      rw [List.map_inj_left]
      exact forall₂_congr fun e he => integer_longOf (hintegers e he)
    refine ⟨?_, ?_⟩
    · rintro ⟨l, ⟨⟨hfits, hlen⟩, rfl⟩, -, heq⟩
      refine ⟨hlen, fun arg harg => ⟨hfits arg harg, fun e he => ?_⟩⟩
      exact hvalues.1 heq e (List.mem_flatMap.2 ⟨arg, harg, he⟩)
    · rintro ⟨hlen, hfits⟩
      refine ⟨_, ⟨⟨fun arg harg => (hfits arg harg).1, hlen⟩, rfl⟩, rfl, hvalues.2 fun e he => ?_⟩
      obtain ⟨arg, harg, he⟩ := List.mem_flatMap.1 he
      exact (hfits arg harg).2 e he
  · intro arg harg
    refine ⟨?_, fun e he => hintegers e (List.mem_flatMap.2 ⟨arg, harg, he⟩)⟩
    cases arg with
    | none => exact absurd harg hargs
    | some _ => rfl
  · intro l ent n hl
    have hnone : option.argType &&& ~~~ARG_MULTI ≠ ARG_NONE := by
      rw [hint]
      decide
    unfold Collected
    rw [if_neg hnone, if_pos hint, listIs_iff hl.1]
    simp only [vectorIs_iff hl.2]
    refine and_congr_right fun heq => ?_
    simp only [exists_eq_right, List.map_map]
    rfl

theorem meets_string (hm : ∀ n, m.null n = false) (hmulti : option.argType &&& ARG_MULTI ≠ 0)
    (hs : findOptent option.longName s.optlist = none) (hnone : option.argType &&& ~~~ARG_MULTI ≠ ARG_NONE)
    (hint : option.argType &&& ~~~ARG_MULTI ≠ ARG_INT) (hargs : none ∉ args) :
    Meets m option args s ↔ (args.flatMap elementsOf).length ≤ 3 ∧ [] ∉ args.flatMap elementsOf := by
  have hrep : ListRep (optentNow option s).value [] := by
    unfold optentNow
    rw [hs]
    exact .inl ⟨rfl, rfl⟩
  rw [@meets_iff_of_follows m option s _ _ _ _ hm hmulti (stringLoop_follows hm hnone hint) args [] hrep ?_
    (fun l => args.flatMap elementsOf = l) ?_]
  · simp only [foldlM_collect, implies_true, true_and]
    refine ⟨?_, ?_⟩
    · rintro ⟨l, ⟨hlen, rfl⟩, heq⟩
      rw [← heq] at hlen
      exact ⟨hlen, (flatMap_stored_iff args).1 heq⟩
    · rintro ⟨hlen, hne⟩
      have heq := (flatMap_stored_iff args).2 hne
      rw [heq] at hlen
      exact ⟨_, ⟨hlen, rfl⟩, heq⟩
  · intro arg harg
    cases arg with
    | none => exact absurd harg hargs
    | some _ => rfl
  · intro l ent n hl
    unfold Collected
    rw [if_neg hnone, if_neg hint]
    exact listIs_iff hl _

/-- A repeatable option that has not been given yet collects what its calls say, under exactly the conditions
of `Collects`. -/
theorem setoptArgs_meets_iff (hm : ∀ n, m.null n = false) (hmulti : option.argType &&& ARG_MULTI ≠ 0)
    (hs : findOptent option.longName s.optlist = none)
    (hargs : option.argType &&& ~~~ARG_MULTI ≠ ARG_NONE → none ∉ args)
    (hintegers : option.argType &&& ~~~ARG_MULTI = ARG_INT →
      ∀ e ∈ args.flatMap elementsOf, (integer e).isSome) :
    Meets m option args s ↔ Collects m s option.argType args := by
  unfold Collects
  by_cases hnone : option.argType &&& ~~~ARG_MULTI = ARG_NONE
  · rw [if_pos hnone]
    exact meets_none hm hmulti hs hnone
  · rw [if_neg hnone]
    by_cases hint : option.argType &&& ~~~ARG_MULTI = ARG_INT
    · rw [if_pos hint]
      exact meets_int hm hmulti hs hint (hargs hnone) (hintegers hint)
    · rw [if_neg hint]
      exact meets_string hm hmulti hs hnone hint (hargs hnone)

end

/-- A `malloc` that always finds memory, and in it NULL pointers or one number. -/
def mallocOf (long : Int) : Malloc where
  null := fun _ => false
  ptrs := fun _ _ => none
  longs := fun _ _ => long

/-- An option `--x`. -/
def optionX (argType : UInt32) : AppOption where
  longName := some (ofBuf (bytesOf "x"))
  argType := argType

/-- The arguments `1,2` and ` 0x10` are collected. -/
theorem setoptArgs_two :
    Meets (mallocOf 0) (optionX (ARG_MULTI ||| ARG_INT))
      [some (ofBuf (bytesOf "1,2")), some (ofBuf (bytesOf " 0x10"))] { optlist := [], allocs := 0 } :=
  (setoptArgs_meets_iff (fun _ => rfl) (by decide) rfl (fun _ => by decide) fun _ => by decide +kernel).2
    (by
      unfold Collects
      decide +kernel)

/-- A fourth element is written behind the block, an empty element takes in the rest of the text, and a
counter begins with what its block holds. -/
theorem setoptArgs_four :
    setoptArgs (mallocOf 0) (optionX (ARG_MULTI ||| ARG_STRING)) [some (ofBuf (bytesOf "a,b,c,d"))]
      { optlist := [], allocs := 0 } = .fault ∧
    (setoptArgs (mallocOf 0) (optionX (ARG_MULTI ||| ARG_STRING)) [some (ofBuf (bytesOf ",b"))]
      { optlist := [], allocs := 0 } >>= fun r => .ok (r.2.optlist.map Optent.value)) =
      .ok [.list [some (bytesOf ",b"), some (bytesOf "b"), none, none]] ∧
    (setoptArgs (mallocOf 7) (optionX (ARG_MULTI ||| ARG_NONE)) [none] { optlist := [], allocs := 0 } >>=
      fun r => .ok (r.2.optlist.map Optent.vector)) = .ok [.longs [8]] := by
  decide +kernel

end Utils.Options
