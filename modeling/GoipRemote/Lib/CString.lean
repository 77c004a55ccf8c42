import Mathlib.Data.List.TakeWhile
import Mathlib.Tactic

/-!
# C strings

A string is the list of its bytes before the terminator, none of which is NUL. `strcmp` orders them
(`strcmp_neg`, `strcmp_trans`) and is `0` for equal ones alone (`strcmp_eq_zero`).
-/

/-- The bytes of a string before its terminator. -/
structure CString where
  bytes : List UInt8
  ne_zero : ∀ b ∈ bytes, b ≠ 0
  deriving DecidableEq, Repr

/-- A literal's bytes. -/
def bytesOf (s : String) : List UInt8 := s.toList.map fun c => UInt8.ofNat c.toNat

/-- What holds of the 256 bytes. -/
theorem forall_byte {p : UInt8 → Prop} (h : ∀ n < 256, p (.ofNat n)) (a : UInt8) : p a := by
  have ha := h a.toNat a.toNat_lt
  rwa [UInt8.ofNat_toNat] at ha

namespace CString

@[ext] theorem ext {s t : CString} (h : s.bytes = t.bytes) : s = t := by
  cases s
  cases t
  cases h
  rfl

/-- The string that starts at the beginning of a buffer. -/
def ofBuf (buf : List UInt8) : CString where
  bytes := buf.takeWhile (· ≠ 0)
  ne_zero := by
    intro b h
    induction buf with
    | nil => cases h
    | cons x buf ih =>
      by_cases hx : x ≠ 0
      · rw [List.takeWhile_cons_of_pos (by simpa using hx)] at h
        rcases List.mem_cons.1 h with rfl | h
        · exact hx
        · exact ih h
      · rw [List.takeWhile_cons_of_neg (by simpa using hx)] at h
        cases h

/-- A buffer without NUL is the string. -/
theorem ofBuf_bytes {buf : List UInt8} (h : ∀ b ∈ buf, b ≠ 0) : (ofBuf buf).bytes = buf := by
  refine List.takeWhile_eq_self_iff.2 fun b hb => ?_
  simpa using h b hb

/-- A buffer with a string and its terminator. -/
theorem ofBuf_append (s : CString) (buf : List UInt8) : ofBuf (s.bytes ++ 0 :: buf) = s := by
  apply CString.ext
  have hs : s.bytes.takeWhile (· ≠ 0) = s.bytes := ofBuf_bytes s.ne_zero
  show (s.bytes ++ 0 :: buf).takeWhile (· ≠ 0) = s.bytes
  rw [List.takeWhile_append, hs, if_pos rfl]
  simp

theorem ofBuf_cons {b : UInt8} (hb : b ≠ 0) (buf : List UInt8) :
    (ofBuf (b :: buf)).bytes = b :: (ofBuf buf).bytes := by
  show (b :: buf).takeWhile (· ≠ 0) = _
  rw [List.takeWhile_cons_of_pos (by simpa using hb)]
  rfl

/-- A buffer with a terminator. -/
theorem exists_ofBuf {buf : List UInt8} (h : 0 ∈ buf) :
    ∃ behind, buf = (ofBuf buf).bytes ++ 0 :: behind := by
  induction buf with
  | nil => cases h
  | cons b buf ih =>
    by_cases hb : b = 0
    · subst hb
      exact ⟨buf, rfl⟩
    · obtain ⟨behind, hbehind⟩ := ih ((List.mem_cons.1 h).resolve_left (Ne.symm hb))
      refine ⟨behind, ?_⟩
      rw [ofBuf_cons hb, List.cons_append, ← hbehind]

/-- The string behind its first `n` bytes. -/
def drop (s : CString) (n : Nat) : CString where
  bytes := s.bytes.drop n
  ne_zero := fun b hb => s.ne_zero b (List.mem_of_mem_drop hb)

/-- The string's first `n` bytes. -/
def take (s : CString) (n : Nat) : CString where
  bytes := s.bytes.take n
  ne_zero := fun b hb => s.ne_zero b (List.mem_of_mem_take hb)

/-- The difference of the first bytes that differ, the terminator counting as `0`. -/
def compareBytes : List UInt8 → List UInt8 → Int
  | [], [] => 0
  | [], b :: _ => -b.toNat
  | a :: _, [] => a.toNat
  | a :: as, b :: bs => if a = b then compareBytes as bs else a.toNat - b.toNat

def strcmp (s t : CString) : Int := compareBytes s.bytes t.bytes

def strncmp (s t : CString) (n : Nat) : Int := strcmp (s.take n) (t.take n)

theorem toNat_pos {b : UInt8} (h : b ≠ 0) : 0 < b.toNat :=
  Nat.pos_of_ne_zero fun hb => h (UInt8.toNat_inj.1 hb)

theorem compareBytes_self (a : List UInt8) : compareBytes a a = 0 := by
  induction a with
  | nil => rfl
  | cons x a ih => rw [compareBytes, if_pos rfl, ih]

theorem compareBytes_neg (a b : List UInt8) : compareBytes b a = -compareBytes a b := by
  induction a generalizing b with
  | nil => cases b <;> simp [compareBytes]
  | cons x a ih =>
    cases b with
    | nil => rfl
    | cons y b =>
      by_cases h : x = y
      · subst h
        rw [compareBytes, compareBytes, if_pos rfl, if_pos rfl, ih]
      · rw [compareBytes, compareBytes, if_neg h, if_neg (Ne.symm h)]
        omega

theorem strcmp_self (s : CString) : strcmp s s = 0 := compareBytes_self s.bytes

theorem strcmp_neg (s t : CString) : strcmp t s = -strcmp s t := compareBytes_neg s.bytes t.bytes

theorem strcmp_eq_zero {s t : CString} : strcmp s t = 0 ↔ s = t := by
  refine ⟨?_, ?_⟩
  · intro h
    obtain ⟨a, ha⟩ := s
    obtain ⟨b, hb⟩ := t
    apply CString.ext
    change compareBytes a b = 0 at h
    show a = b
    induction a generalizing b with
    | nil =>
      cases b with
      | nil => rfl
      | cons y b =>
        have := toNat_pos (hb y List.mem_cons_self)
        simp only [compareBytes] at h
        omega
    | cons x a ih =>
      cases b with
      | nil =>
        have := toNat_pos (ha x List.mem_cons_self)
        simp only [compareBytes] at h
        omega
      | cons y b =>
        rw [compareBytes] at h
        split at h
        · rename_i hxy
          rw [hxy, ih (fun z hz => ha z (List.mem_cons_of_mem _ hz)) b
            (fun z hz => hb z (List.mem_cons_of_mem _ hz)) h]
        · rename_i hxy
          exact absurd (UInt8.toNat_inj.1 (by omega)) hxy
  · rintro rfl
    exact strcmp_self s

theorem strcmp_trans {s t u : CString} (h : strcmp s t ≤ 0) (h' : strcmp t u ≤ 0) :
    strcmp s u ≤ 0 := by
  obtain ⟨a, ha⟩ := s
  obtain ⟨b, hb⟩ := t
  obtain ⟨c, hc⟩ := u
  change compareBytes a b ≤ 0 at h
  change compareBytes b c ≤ 0 at h'
  show compareBytes a c ≤ 0
  induction a generalizing b c with
  | nil => cases c <;> simp [compareBytes]
  | cons x a ih =>
    have hx := toNat_pos (ha x List.mem_cons_self)
    cases b with
    | nil =>
      simp only [compareBytes] at h
      omega
    | cons y b =>
      have hy := toNat_pos (hb y List.mem_cons_self)
      cases c with
      | nil =>
        simp only [compareBytes] at h'
        omega
      | cons z c =>
        have htail := ih (fun w hw => ha w (List.mem_cons_of_mem _ hw)) b
          (fun w hw => hb w (List.mem_cons_of_mem _ hw)) (c := c)
          (fun w hw => hc w (List.mem_cons_of_mem _ hw))
        have hlt : ∀ {v w : UInt8}, v ≠ w → (v.toNat : Int) - w.toNat ≤ 0 → v.toNat < w.toNat := by
          intro v w hne hle
          have : v.toNat ≠ w.toNat := fun heq => hne (UInt8.toNat_inj.1 heq)
          omega
        simp only [compareBytes] at h h' ⊢
        by_cases hxy : x = y
        · by_cases hyz : y = z
          · rw [if_pos hxy] at h
            rw [if_pos hyz] at h'
            rw [if_pos (hxy.trans hyz)]
            exact htail h h'
          · rw [if_neg hyz] at h'
            rw [hxy, if_neg hyz]
            exact h'
        · rw [if_neg hxy] at h
          have hxy' := hlt hxy h
          by_cases hyz : y = z
          · rw [← hyz, if_neg hxy]
            exact h
          · rw [if_neg hyz] at h'
            have hyz' := hlt hyz h'
            have hxz : x ≠ z := by
              rintro rfl
              omega
            rw [if_neg hxz]
            omega

end CString
