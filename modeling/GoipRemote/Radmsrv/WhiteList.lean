import GoipRemote.Radmsrv.Server

/-!
# The white list (`check_white_ip`)

An operator writes the list as addresses with `|` between them (`entries`). `check_white_ip` cuts its
copy at the first `|` alone, so that it compares an address with the first entry and with all the rest
taken as one string; that string is an entry only when no second `|` follows (`checkWhiteIp_iff`).
-/

namespace Radmsrv

open CString

/-- The separator. -/
def bar : UInt8 := 124

/-- The entries of a white list. -/
def entries (whiteListIp : CString) : List (List UInt8) := whiteListIp.bytes.splitOn bar

theorem decimal_digit {n : Nat} {b : UInt8} (h : b ∈ decimal n) : 48 ≤ b.toNat ∧ b.toNat ≤ 57 := by
  obtain ⟨c, hc, rfl⟩ := List.mem_map.1 h
  have hdigit := Nat.isDigit_of_mem_toDigits (by omega) (by omega) hc
  simp only [Char.isDigit, Bool.and_eq_true, decide_eq_true_eq, UInt32.le_iff_toNat_le] at hdigit
  change 48 ≤ c.toNat ∧ c.toNat ≤ 57 at hdigit
  rw [UInt8.toNat_ofNat']
  omega

/-- A dotted quad has no separator. -/
theorem bar_notMem_getIpString (ip : UInt32) : bar ∉ (getIpString ip).bytes := by
  intro h
  have hmem := (List.takeWhile_sublist _).mem h
  simp only [List.mem_append] at hmem
  have hdot : bar ∉ bytesOf "." := by decide
  have hno : ∀ n, bar ∉ decimal n := fun n hb => by
    have hd := (decimal_digit hb).2
    revert hd
    decide
  simp only [hno, hdot, or_self] at hmem

theorem strcmp_ofBuf {s : CString} {buf : List UInt8} (h : ∀ b ∈ buf, b ≠ 0) :
    strcmp s (ofBuf buf) = 0 ↔ s.bytes = buf := by
  rw [strcmp_eq_zero, CString.ext_iff, ofBuf_bytes h]

/-- Without a separator, the list is compared as a whole. -/
theorem checkWhiteIp_single {whiteListIp : CString} (hlen : whiteListIp.bytes.length < 256)
    (hbar : bar ∉ whiteListIp.bytes) (ip : UInt32) :
    checkWhiteIp whiteListIp ip = true ↔ (getIpString ip).bytes = whiteListIp.bytes := by
  have hbuf : (whiteListIp.take 256).bytes = whiteListIp.bytes := List.take_of_length_le (by omega)
  have hdrop : whiteListIp.bytes.dropWhile (· ≠ 124) = [] := by
    refine List.dropWhile_eq_nil_iff.2 fun b hb => ?_
    have hb' : b ≠ bar := ne_of_mem_of_not_mem hb hbar
    simpa [bar] using hb'
  simp only [checkWhiteIp, hbuf, hdrop, ne_eq, not_true_eq_false, if_false, decide_eq_true_eq]
  exact strcmp_ofBuf whiteListIp.ne_zero

/-- With separators, the part before the first and the part after it are compared. -/
theorem checkWhiteIp_cut {whiteListIp : CString} {first rest : List UInt8}
    (hlen : whiteListIp.bytes.length < 256) (hcut : whiteListIp.bytes = first ++ bar :: rest)
    (hbar : bar ∉ first) (ip : UInt32) : checkWhiteIp whiteListIp ip = true ↔
      (getIpString ip).bytes = first ∨ (getIpString ip).bytes = rest := by
  have hbuf : (whiteListIp.take 256).bytes = whiteListIp.bytes := List.take_of_length_le (by omega)
  have hne : ∀ b ∈ first ++ bar :: rest, b ≠ 0 := hcut ▸ whiteListIp.ne_zero
  have hfirst : ∀ b ∈ first, decide (b ≠ 124) = true := by
    intro b hb
    have hb' : b ≠ bar := ne_of_mem_of_not_mem hb hbar
    simpa [bar] using hb'
  have hdrop : (first ++ bar :: rest).dropWhile (· ≠ 124) = bar :: rest := by
    rw [List.dropWhile_append_of_pos hfirst]
    rfl
  have htake : (first ++ bar :: rest).takeWhile (· ≠ 124) = first := by
    rw [List.takeWhile_append_of_pos hfirst]
    simp [bar]
  simp only [checkWhiteIp, hbuf, hcut, hdrop, htake, ne_eq, reduceCtorEq, not_false_eq_true, if_true,
    Bool.or_eq_true, decide_eq_true_eq, Bool.decide_or, List.tail_cons]
  rw [strcmp_ofBuf fun b hb => hne b (List.mem_append_left _ hb),
    strcmp_ofBuf fun b hb => hne b (List.mem_append_right _ (List.mem_cons_of_mem _ hb))]

/-- **The white list** accepts exactly its entries, for an address, unless the list has more than one
separator and the address is an entry, but not the first. -/
theorem checkWhiteIp_iff {whiteListIp : CString} (hlen : whiteListIp.bytes.length < 256) (ip : UInt32) :
    (checkWhiteIp whiteListIp ip = true ↔ (getIpString ip).bytes ∈ entries whiteListIp) ↔
      whiteListIp.bytes.count bar ≤ 1 ∨ (entries whiteListIp).head? = some (getIpString ip).bytes ∨
        (getIpString ip).bytes ∉ (entries whiteListIp).tail := by
  by_cases hbar : bar ∈ whiteListIp.bytes
  · obtain ⟨first, rest, hcut, hfirst⟩ := List.eq_append_cons_of_mem hbar
    have hentries : entries whiteListIp = first :: rest.splitOn bar := by
      rw [entries, hcut, List.splitOn_append_cons_self_of_not_mem hfirst]
    have hcount : whiteListIp.bytes.count bar = rest.count bar + 1 := by
      rw [hcut, List.count_append, List.count_cons_self, List.count_eq_zero.2 hfirst, Nat.zero_add]
    rw [checkWhiteIp_cut hlen hcut hfirst, hentries, hcount, List.head?_cons, List.tail_cons,
      List.mem_cons, Option.some.injEq]
    by_cases hone : bar ∈ rest
    · -- the rest is no address, and has entries that are not looked at
      have hrest : (getIpString ip).bytes ≠ rest := fun hc =>
        bar_notMem_getIpString ip (hc ▸ hone)
      have hpos := List.count_pos_iff.2 hone
      have hle : ¬ rest.count bar + 1 ≤ 1 := by omega
      simp only [hrest, or_false, hle, false_or]
      by_cases haddr : (getIpString ip).bytes = first
      · simp only [haddr, true_or]
      · simp only [haddr, Ne.symm haddr, false_or, false_iff]
    · have hsingle : rest.splitOn bar = [rest] := List.splitOn_eq_singleton hone
      have hzero : rest.count bar + 1 ≤ 1 := by
        rw [List.count_eq_zero.2 hone]
      simp [hsingle, hzero]
  · have hzero : whiteListIp.bytes.count bar ≤ 1 := by
      rw [List.count_eq_zero.2 hbar]
      exact Nat.zero_le 1
    rw [checkWhiteIp_single hlen hbar, entries, List.splitOn_eq_singleton hbar, List.mem_singleton]
    exact iff_of_true Iff.rfl (.inl hzero)

/-- The second of two entries. -/
theorem checkWhiteIp_iff_two :
    checkWhiteIp (ofBuf (bytesOf "10.0.0.1|10.0.0.2")) 33554442 = true ∧
      (getIpString 33554442).bytes ∈ entries (ofBuf (bytesOf "10.0.0.1|10.0.0.2")) := by
  have hmem : (getIpString 33554442).bytes ∈ entries (ofBuf (bytesOf "10.0.0.1|10.0.0.2")) := by decide
  exact ⟨((checkWhiteIp_iff (by decide) 33554442).2 (.inl (by decide))).2 hmem, hmem⟩
/-- The second of three entries is not accepted. -/
theorem checkWhiteIp_second :
    (ofBuf (bytesOf "10.0.0.1|10.0.0.2|10.0.0.3")).bytes.length < 256 ∧
      ¬ (checkWhiteIp (ofBuf (bytesOf "10.0.0.1|10.0.0.2|10.0.0.3")) 33554442 = true ↔
        (getIpString 33554442).bytes ∈ entries (ofBuf (bytesOf "10.0.0.1|10.0.0.2|10.0.0.3"))) := by
  decide

end Radmsrv
