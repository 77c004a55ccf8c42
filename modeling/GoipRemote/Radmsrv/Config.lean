import GoipRemote.Lib.CString
import GoipRemote.Lib.Res

/-!
# The configuration file (the `cfg` branches of `show_radmclient_list`)

The page writes what was posted as lines `NAME='value'` and reads them back into `value`, seven rows of
fifty bytes, by the index of the name. `readCfg_cfgLines` says for which lines the file gives back what was
posted: there are nine names, a value is read up to its first quote, and a row has room for 49 bytes. The
tests that come before the lines are in `SaveCfg`.
-/

namespace Radmsrv

open CString

/-- `cfgname`. -/
def cfgname : Fin 9 → List UInt8 :=
  ![bytesOf "WEBPORT", bytesOf "USERNAME", bytesOf "PASSWORD", bytesOf "CLIPORT", bytesOf "CLIKEY",
    bytesOf "PORTRANGE", bytesOf "CFGFILE", bytesOf "STARTSH", bytesOf "WHITEIP"]

/-- `fprintf(fp, "%s='%s'\n", cfgname[i], var->value)`. -/
def cfgLine (i : Fin 9) (value : CString) : List UInt8 := cfgname i ++ 61 :: 39 :: value.bytes ++ [39, 10]

/-- What the loop writes into the open file, for the parameters that were posted. -/
def cfgLines (posted : Fin 9 → Option CString) : List UInt8 :=
  (List.finRange 9).flatMap fun i => ((posted i).map (cfgLine i)).getD []

/-- `fgets(buf, n, fp)`: the line, the rest of the file and whether its end was met. -/
def fgets (n : Nat) (file : List UInt8) : List UInt8 × List UInt8 × Bool :=
  let line := file.take (n - 1)
  if 10 ∈ line then
    let line := line.takeWhile (· ≠ 10) ++ [10]
    (line, file.drop line.length, false)
  else (line, file.drop (n - 1), decide (file.length < n - 1))

/-- `sscanf(buf, "%[^=]='%[^']'", tmpname, tmpvalue)`, into cleared buffers. -/
def scanLine (buf : CString) : List UInt8 × List UInt8 :=
  let tmpname := buf.bytes.takeWhile (· ≠ 61)
  match buf.bytes.dropWhile (· ≠ 61) with
  | 61 :: 39 :: value => (tmpname, if tmpname = [] then [] else value.takeWhile (· ≠ 39))
  | _ => (tmpname, [])

/-- `strncpy(.., src, n)`. -/
def strncpy (src : List UInt8) (n : Nat) : List UInt8 := (src ++ List.replicate n 0).take n

/-- A store into `value`: the index of the row and what the row gets. -/
structure RowStore where
  row : Nat
  bytes : List UInt8
  deriving DecidableEq, Repr

/-- What is stored for a line: six bytes of its name count. -/
def cfgStore (buf : CString) : Option RowStore :=
  let (tmpname, tmpvalue) := scanLine buf
  let same := fun i => decide ((tmpname ++ List.replicate 6 0).take 6 = (cfgname i).take 6)
  ((List.finRange 9).find? same).map fun i => ⟨i, strncpy tmpvalue 50⟩

/-- The loop that reads the file, of at most the given number of rounds: its stores in order. -/
def cfgRead : Nat → List UInt8 → Res (List RowStore)
  | 0, _ => .fault
  | rounds + 1, file => do
    let (line, rest, eof) := fgets 1024 file
    let stores ← if eof then .ok [] else cfgRead rounds rest
    return (cfgStore (ofBuf line)).toList ++ stores

/-- The branch that reads the file; a round takes a byte, if there is one. -/
def readCfg (file : List UInt8) : Res (List RowStore) := cfgRead (file.length + 1) file

/-- What a row holds after some stores; `none` while there was none to it. -/
def rowAfter (stores : List RowStore) (i : Nat) : Option (List UInt8) :=
  (stores.reverse.find? fun st => st.row = i).map RowStore.bytes

/-- Reading stores into the rows that there are, and gives back each value that was posted. -/
structure RoundTrip (posted : Fin 9 → Option CString) (stores : List RowStore) : Prop where
  inside : ∀ st ∈ stores, st.row < 7
  same : ∀ i v, posted i = some v → ∃ row, rowAfter stores i = some row ∧ 0 ∈ row ∧ ofBuf row = v

/-! ## Reading a line -/

theorem cfgname_spec : ∀ i, cfgname i ≠ [] ∧ (∀ b ∈ cfgname i, b ≠ 0 ∧ b ≠ 10 ∧ b ≠ 61) ∧
    (List.finRange 9).find? (fun j =>
      decide ((cfgname i ++ List.replicate 6 0).take 6 = (cfgname j).take 6)) = some i := by
  decide +kernel

section
variable {i : Fin 9} {v : CString}

/-- What is stored for the line of a value. -/
def storeOf (i : Fin 9) (v : CString) : RowStore := ⟨i, strncpy (v.bytes.takeWhile (· ≠ 39)) 50⟩

theorem fgets_cfgLine (hnl : 10 ∉ v.bytes) (hlen : (cfgLine i v).length < 1024) (file : List UInt8) :
    fgets 1024 (cfgLine i v ++ file) = (cfgLine i v, file, false) := by
  obtain ⟨-, hname, -⟩ := cfgname_spec i
  have hsplit : cfgLine i v = cfgname i ++ 61 :: 39 :: v.bytes ++ [39] ++ [10] := by simp [cfgLine]
  have hbody : ∀ b ∈ cfgname i ++ 61 :: 39 :: v.bytes ++ [39], decide (b ≠ 10) = true := by
    intro b hb
    simp only [List.mem_append, List.mem_cons, List.not_mem_nil, or_false] at hb
    rcases hb with (hb | rfl | rfl | hb) | rfl
    · simpa using (hname b hb).2.1
    · decide
    · decide
    · simpa using ne_of_mem_of_not_mem hb hnl
    · decide
  have htake : (cfgLine i v ++ file).take (1024 - 1) =
      cfgLine i v ++ file.take (1024 - 1 - (cfgLine i v).length) := by
    rw [List.take_append, List.take_of_length_le (by omega)]
  unfold fgets
  rw [htake]
  have hmem : 10 ∈ cfgLine i v ++ file.take (1024 - 1 - (cfgLine i v).length) := by
    rw [hsplit]
    simp
  have hwhile : (cfgLine i v ++ file.take (1024 - 1 - (cfgLine i v).length)).takeWhile (· ≠ 10) ++ [10] =
      cfgLine i v := by
    conv_lhs => rw [hsplit]
    rw [List.append_assoc _ [10], List.takeWhile_append_of_pos hbody, hsplit]
    simp
  simp only [if_pos hmem, hwhile, List.drop_left]

theorem scanLine_cfgLine (v : CString) {buf : CString} (hbuf : buf.bytes = cfgLine i v) :
    scanLine buf = (cfgname i, v.bytes.takeWhile (· ≠ 39)) := by
  obtain ⟨hne, hname, -⟩ := cfgname_spec i
  have hbody : ∀ b ∈ cfgname i, decide (b ≠ 61) = true := fun b hb => by simpa using (hname b hb).2.2
  have htake : buf.bytes.takeWhile (· ≠ 61) = cfgname i := by
    rw [hbuf, cfgLine, List.append_assoc, List.takeWhile_append_of_pos hbody]
    simp
  have hdrop : buf.bytes.dropWhile (· ≠ 61) = 61 :: 39 :: (v.bytes ++ [39, 10]) := by
    rw [hbuf, cfgLine, List.append_assoc, List.dropWhile_append_of_pos hbody]
    simp
  have hvalue : (v.bytes ++ [39, 10]).takeWhile (· ≠ 39) = v.bytes.takeWhile (· ≠ 39) := by
    rw [List.takeWhile_append]
    split
    · rename_i hall
      rw [(List.takeWhile_prefix _).eq_of_length hall]
      simp
    · rfl
  unfold scanLine
  rw [htake, hdrop]
  simp only [if_neg hne, hvalue]

theorem cfgStore_cfgLine (i : Fin 9) (v : CString) : cfgStore (ofBuf (cfgLine i v)) = some (storeOf i v) := by
  obtain ⟨-, hname, hfind⟩ := cfgname_spec i
  have hbytes : (ofBuf (cfgLine i v)).bytes = cfgLine i v := by
    refine ofBuf_bytes fun b hb => ?_
    simp only [cfgLine, List.mem_append, List.mem_cons, List.not_mem_nil, or_false] at hb
    rcases hb with (hb | rfl | rfl | hb) | rfl | rfl
    · exact (hname b hb).1
    · decide
    · decide
    · exact v.ne_zero b hb
    · decide
    · decide
  unfold cfgStore
  rw [scanLine_cfgLine v hbytes]
  simp only [hfind]
  rfl

end

/-! ## The round trip -/

section
variable {posted : Fin 9 → Option CString}

/-- The stores for the lines of some parameters. -/
theorem cfgRead_lines (hnl : ∀ i v, posted i = some v → 10 ∉ v.bytes)
    (hlen : ∀ i v, posted i = some v → (cfgLine i v).length < 1024) :
    ∀ {l : List (Fin 9)} {rounds : Nat},
      (l.flatMap fun i => ((posted i).map (cfgLine i)).getD []).length < rounds →
      cfgRead rounds (l.flatMap fun i => ((posted i).map (cfgLine i)).getD []) =
        .ok (l.filterMap fun i => (posted i).map (storeOf i)) := by
  intro l
  induction l with
  | nil =>
    intro rounds hr
    obtain ⟨rounds, rfl⟩ := Nat.exists_eq_succ_of_ne_zero (Nat.ne_of_gt hr)
    rfl
  | cons i l ih =>
    intro rounds hr
    rw [List.flatMap_cons] at hr ⊢
    cases hv : posted i with
    | none =>
      rw [hv] at hr
      rw [List.filterMap_cons, hv]
      exact ih hr
    | some v =>
      rw [hv] at hr
      obtain ⟨rounds, rfl⟩ := Nat.exists_eq_succ_of_ne_zero (Nat.ne_of_gt (Nat.zero_lt_of_lt hr))
      have hpos : 0 < (cfgLine i v).length := by simp [cfgLine]
      simp only [Option.map_some, Option.getD_some, List.length_append] at hr
      rw [List.filterMap_cons, hv]
      simp only [Option.map_some, Option.getD_some]
      rw [cfgRead, fgets_cfgLine (hnl i v hv) (hlen i v hv)]
      simp only [Bool.false_eq_true, if_false]
      rw [ih (by omega), cfgStore_cfgLine]
      rfl

theorem mem_stores {st : RowStore} :
    st ∈ (List.finRange 9).filterMap (fun i => (posted i).map (storeOf i)) ↔
      ∃ i v, posted i = some v ∧ storeOf i v = st := by
  simp [List.mem_filterMap, Option.map_eq_some_iff]

/-- What a row gets is the value where that has no quote and leaves room for the terminator. -/
theorem strncpy_iff (v : CString) :
    (0 ∈ strncpy (v.bytes.takeWhile (· ≠ 39)) 50 ∧ ofBuf (strncpy (v.bytes.takeWhile (· ≠ 39)) 50) = v) ↔
      39 ∉ v.bytes ∧ v.bytes.length < 50 := by
  have htake := List.takeWhile_prefix (l := v.bytes) (· ≠ 39)
  have hself : v.bytes.takeWhile (· ≠ 39) = v.bytes ↔ 39 ∉ v.bytes := by
    rw [List.takeWhile_eq_self_iff]
    refine ⟨?_, ?_⟩
    · intro h hmem
      exact absurd (h 39 hmem) (by decide)
    · intro h b hb
      simpa using ne_of_mem_of_not_mem hb h
  have hzero : (0 : UInt8) ∉ v.bytes.takeWhile (· ≠ 39) := fun h => v.ne_zero 0 (htake.subset h) rfl
  by_cases hlen : (v.bytes.takeWhile (· ≠ 39)).length < 50
  · have hrow : strncpy (v.bytes.takeWhile (· ≠ 39)) 50 = v.bytes.takeWhile (· ≠ 39) ++
        0 :: List.replicate (49 - (v.bytes.takeWhile (· ≠ 39)).length) 0 := by
      rw [strncpy, List.take_append, List.take_of_length_le (Nat.le_of_lt hlen), List.take_replicate,
        ← List.replicate_succ]
      congr 2
      omega
    have hbytes : ofBuf (strncpy (v.bytes.takeWhile (· ≠ 39)) 50) = v ↔
        v.bytes.takeWhile (· ≠ 39) = v.bytes := by
      rw [hrow, ofBuf_append ⟨_, fun b hb => v.ne_zero b (htake.subset hb)⟩]
      exact ⟨fun h => congrArg CString.bytes h, fun h => CString.ext h⟩
    rw [hbytes, hself]
    refine ⟨?_, ?_⟩
    · rintro ⟨-, hquote⟩
      rw [hself.2 hquote] at hlen
      exact ⟨hquote, hlen⟩
    · rintro ⟨hquote, -⟩
      exact ⟨by rw [hrow]; simp, hquote⟩
  · have hrow : strncpy (v.bytes.takeWhile (· ≠ 39)) 50 = (v.bytes.takeWhile (· ≠ 39)).take 50 := by
      rw [strncpy, List.take_append_of_le_length (by omega)]
    refine ⟨?_, ?_⟩
    · rintro ⟨hmem, -⟩
      rw [hrow] at hmem
      exact absurd (List.mem_of_mem_take hmem) hzero
    · rintro ⟨hquote, hshort⟩
      rw [hself.2 hquote] at hlen
      exact absurd hshort hlen

theorem rowAfter_stores {i : Fin 9} {v : CString} (hv : posted i = some v) :
    rowAfter ((List.finRange 9).filterMap fun i => (posted i).map (storeOf i)) i =
      some (storeOf i v).bytes := by
  unfold rowAfter
  cases hfind : (List.reverse _).find? fun st : RowStore => st.row = i with
  | none =>
    have hnone := List.find?_eq_none.1 hfind (storeOf i v)
      (List.mem_reverse.2 (mem_stores.2 ⟨i, v, hv, rfl⟩))
    exact absurd (decide_eq_true rfl) hnone
  | some st =>
    obtain ⟨j, w, hw, rfl⟩ := mem_stores.1 (List.mem_reverse.1 (List.mem_of_find?_eq_some hfind))
    have hrow := List.find?_some hfind
    have hij : j = i := Fin.ext (by simpa [storeOf] using hrow)
    subst hij
    cases hv.symm.trans hw
    rfl

/-- The lines give back what was posted, and reading them stores into the rows that there are, when neither
`STARTSH` nor `WHITEIP` was posted and each value has no quote and fits its row. -/
theorem readCfg_cfgLines (hnl : ∀ i v, posted i = some v → 10 ∉ v.bytes)
    (hlen : ∀ i v, posted i = some v → (cfgLine i v).length < 1024) :
    ∃ stores, readCfg (cfgLines posted) = .ok stores ∧ (RoundTrip posted stores ↔
      posted 7 = none ∧ posted 8 = none ∧
        ∀ i v, posted i = some v → 39 ∉ v.bytes ∧ v.bytes.length < 50) := by
  refine ⟨_, cfgRead_lines hnl hlen (Nat.lt_succ_self _), ?_⟩
  have hnames : (∀ i v, posted i = some v → (i : Nat) < 7) ↔ posted 7 = none ∧ posted 8 = none := by
    refine ⟨?_, ?_⟩
    · intro h
      refine ⟨?_, ?_⟩
      · exact Option.eq_none_iff_forall_ne_some.2 fun v hv => absurd (h 7 v hv) (by decide)
      · exact Option.eq_none_iff_forall_ne_some.2 fun v hv => absurd (h 8 v hv) (by decide)
    · rintro ⟨h7, h8⟩ i v hv
      have h7' : i ≠ 7 := by
        rintro rfl
        rw [h7] at hv
        cases hv
      have h8' : i ≠ 8 := by
        rintro rfl
        rw [h8] at hv
        cases hv
      omega
  rw [← and_assoc, ← hnames]
  refine ⟨?_, ?_⟩
  · intro h
    refine ⟨fun i v hv => h.inside _ (mem_stores.2 ⟨i, v, hv, rfl⟩), fun i v hv => ?_⟩
    obtain ⟨row, hrow, hok⟩ := h.same i v hv
    rw [rowAfter_stores hv] at hrow
    cases hrow
    exact (strncpy_iff v).1 hok
  · rintro ⟨hin, hok⟩
    refine ⟨fun st hst => ?_, fun i v hv => ⟨_, rowAfter_stores hv, (strncpy_iff v).2 (hok i v hv)⟩⟩
    obtain ⟨i, v, hv, rfl⟩ := mem_stores.1 hst
    exact hin i v hv

end

end Radmsrv
