import GoipRemote.Utils.Options

/-!
# Configuration files (`parse_config_file`)

A line is read into a buffer of 1024 bytes and taken apart there: indices of the buffer stand for the
pointers. `ConfigLine` is what a line may be, with the option and the value that it sets. The NUL that ends
the value is stored on its last byte and not behind it, so that each setting is a byte short
(`lineCall_setting`), and a line sets what it says exactly where it sets nothing (`configRound_iff`).
-/

namespace Utils.Options

open Buffer Strtol CString

/-- `find_option`. The table ends with an option that has no name. -/
def findOption : List AppOption → Option CString → Nat → Res (Option AppOption)
  | [], _, _ => .fault
  | option :: options, name, n =>
    match option.longName with
    | none => .ok (if name = none then some option else none)
    | some longName =>
      let found := if 0 < n then
          decide (longName.bytes.length = n) && name.any fun s => strncmp longName s n = 0
        else name.any fun s => strcmp longName s = 0
      if found then .ok (some option) else findOption options name n

/-- `fgets(buf, n, fp)`: the buffer and the rest of the file. -/
def fgets (buf : List UInt8) (n : Nat) (file : List UInt8) : Option (List UInt8 × List UInt8) :=
  if file = [] then none
  else
    let most := file.take (n - 1)
    let line := if 10 ∈ most then most.takeWhile (· ≠ 10) ++ [10] else most
    some (line ++ 0 :: buf.drop (line.length + 1), file.drop line.length)

/-- `while (isspace(*p)) p++;`, at most the given number of times. -/
def skipSpaces (buf : List UInt8) (p : Nat) : Nat → Res Nat
  | 0 => .fault
  | n + 1 => do
    let b ← load buf p
    if isspace b then skipSpaces buf (p + 1) n else return p

/-- `while (isspace(*pp)) pp--;` -/
def lastNonSpace (buf : List UInt8) : Nat → Res Nat
  | 0 => do
    let b ← load buf 0
    if isspace b then .fault else return 0
  | pp + 1 => do
    let b ← load buf (pp + 1)
    if isspace b then lastNonSpace buf pp else return pp + 1

/-- `while (isspace(*tp)) *tp-- = 0;`, with the number of bytes up to `tp`. -/
def clearSpaces : Nat → List UInt8 → Res (List UInt8)
  | 0, _ => .fault
  | tp + 1, buf => do
    let b ← load buf tp
    if isspace b then do
      let buf ← store buf tp 0
      clearSpaces tp buf
    else return buf

/-- The end of the text at `p` is cut off. -/
def cutLine (buf : List UInt8) (p : Nat) : Res (List UInt8) := do
  let text ← stringAt buf p (buf.length + 1)
  let pp ← lastNonSpace buf (p + (text.length - 1))
  store buf pp 0

/-- The texts at `p` and at `pp`, which is NULL without an equals sign. -/
def splitLine (buf : List UInt8) (p : Nat) : Res (CString × Option CString) := do
  let text ← stringAt buf p (buf.length + 1)
  if 61 ∈ text then do
    let pp := p + (text.takeWhile (· ≠ 61)).length
    let buf ← store buf pp 0
    let buf ← clearSpaces pp buf
    let name ← stringAt buf p (buf.length + 1)
    let value ← stringAt buf (pp + 1) (buf.length + 1)
    return (ofBuf name, some (ofBuf value))
  else return (ofBuf text, none)

/-- What `parse_config_file` makes of a line in its buffer. -/
def parseLine (buf : List UInt8) : Res (Option (CString × Option CString)) := do
  let p ← skipSpaces buf 0 (buf.length + 1)
  let b ← load buf p
  if b = 35 ∨ b = 0 then return none
  else do
    let buf ← cutLine buf p
    let texts ← splitLine buf p
    return some texts

/-- What is passed to `setopt_arg` for a line. -/
def lineCall (options : List AppOption) (buf : List UInt8) (s : State) :
    Res (Option (AppOption × Option CString)) := do
  let parsed ← parseLine buf
  match parsed with
  | none => return none
  | some (name, value) => do
    let option ← findOption options (some name) 0
    match option with
    | none => return none
    | some option =>
      return if (findOptent option.longName s.optlist).isNone then some (option, value) else none

/-- What one round of `parse_config_file` does up to `setopt_arg`: its call, the buffer and the rest of the
file. -/
structure Round where
  call : Option (AppOption × Option CString)
  buf : List UInt8
  file : List UInt8

/-- A round; there is none at the end of the file. -/
def configRound (options : List AppOption) (buf file : List UInt8) (s : State) : Res (Option Round) :=
  match fgets buf 1023 file with
  | none => .ok none
  | some (buf, file) => do
    let call ← lineCall options buf s
    return some { call := call, buf := buf, file := file }

/-- The loop of `parse_config_file`. -/
def configLoop (m : Malloc) (options : List AppOption) : Nat → List UInt8 → List UInt8 → State → Res State
  | 0, _, _, _ => .fault
  | fuel + 1, buf, file, s => do
    let round ← configRound options buf file s
    match round with
    | none => return s
    | some r => do
      let s ← (match r.call with
        | none => .ok s
        | some (option, value) => do
          let (_, s) ← setoptArg m option value s
          return s)
      configLoop m options fuel r.buf r.file s

/-- `parse_config_file`; a round takes a byte at least. -/
def parseConfigFile (m : Malloc) (options : List AppOption) (file : List UInt8) (s : State) : Res State :=
  configLoop m options (file.length + 1) (List.replicate 1024 0) file s

/-! ## Lines -/

/-- A table declares an option under a name. -/
def Declares (options : List AppOption) (option : AppOption) (name : CString) : Prop :=
  ∃ before after, options = before ++ option :: after ∧ option.longName = some name ∧
    ∀ o ∈ before, ∃ other, o.longName = some other ∧ other ≠ name

/-- A line of a configuration file up to its newline, with what it sets. -/
inductive ConfigLine (options : List AppOption) : List UInt8 → Option (AppOption × CString) → Prop
  | setting {lead front tail : List UInt8} {name value : CString} {option : AppOption}
      (hlead : ∀ b ∈ lead, isspace b = true) (hname : ∀ b ∈ name.bytes, isspace b = false ∧ b ≠ 61)
      (hfront : ∀ b ∈ front, isspace b = true) (hvalue : value.bytes ≠ [])
      (hhead : ∀ b ∈ value.bytes.head?, isspace b = false)
      (hlast : ∀ b ∈ value.bytes.getLast?, isspace b = false)
      (htail : ∀ b ∈ tail, isspace b = true) (hdeclared : Declares options option name) :
      ConfigLine options (lead ++ name.bytes ++ front ++ 61 :: value.bytes ++ tail) (some (option, value))
  | blank {lead : List UInt8} (hlead : ∀ b ∈ lead, isspace b = true) : ConfigLine options lead none
  | comment {lead text : List UInt8} (hlead : ∀ b ∈ lead, isspace b = true) :
      ConfigLine options (lead ++ 35 :: text) none

/-- A line ends with a newline, or with the file. -/
def LineEnd (text ending rest : List UInt8) : Prop := ending = [10] ∨ ending = [] ∧ rest = [] ∧ text ≠ []

theorem fgets_line {text ending rest buf : List UInt8} (htext : 10 ∉ text) (hend : LineEnd text ending rest)
    (hlen : (text ++ ending).length < 1023) :
    fgets buf 1023 (text ++ ending ++ rest) =
      some (text ++ ending ++ 0 :: buf.drop ((text ++ ending).length + 1), rest) := by
  unfold fgets
  rcases hend with rfl | ⟨rfl, rfl, hne⟩
  · have hne : text ++ [10] ++ rest ≠ [] := by simp
    have hmost : (text ++ [10] ++ rest).take (1023 - 1) = text ++ [10] ++
      rest.take (1022 - (text ++ [10]).length) := by
      rw [List.take_append, List.take_of_length_le (by omega)]
    have hmem : 10 ∈ text ++ [10] ++ rest.take (1022 - (text ++ [10]).length) := by simp
    have hwhile : ∀ next : List UInt8, (text ++ [10] ++ next).takeWhile (· ≠ 10) = text := by
      intro next
      rw [List.append_assoc, List.takeWhile_append_of_pos fun b hb =>
        by simpa using ne_of_mem_of_not_mem hb htext]
      simp
    simp only [if_neg hne, hmost, if_pos hmem, hwhile, List.drop_left]
  · have hmost : text.take (1023 - 1) = text := List.take_of_length_le (by simp at hlen; omega)
    simp only [List.append_nil, if_neg hne, hmost, if_neg htext, List.drop_length]

/-! ## Taking a line apart -/

theorem skipSpaces_eq {ws : List UInt8} (hws : ∀ b ∈ ws, isspace b = true) {b : UInt8}
    (hb : isspace b = false)
    (front rest : List UInt8) {n : Nat} (hn : ws.length < n) :
    skipSpaces (front ++ ws ++ b :: rest) front.length n = .ok (front.length + ws.length) := by
  induction ws generalizing front n with
  | nil =>
    obtain ⟨n, rfl⟩ := Nat.exists_eq_succ_of_ne_zero (Nat.ne_of_gt hn)
    rw [List.append_nil, skipSpaces, load_eq, Res.ok_bind, hb]
    rfl
  | cons w ws ih =>
    obtain ⟨n, rfl⟩ := Nat.exists_eq_succ_of_ne_zero (Nat.ne_of_gt (Nat.zero_lt_of_lt hn))
    have hrest := ih (fun c hc => hws c (List.mem_cons_of_mem _ hc)) (front ++ [w])
      (Nat.lt_of_succ_lt_succ hn)
    simp only [List.append_assoc, List.cons_append, List.nil_append, List.length_append,
      List.length_singleton] at hrest
    rw [List.append_assoc, List.cons_append, skipSpaces, load_eq, Res.ok_bind,
      hws w List.mem_cons_self, if_pos rfl,
      hrest, List.length_cons]
    congr 1
    omega

theorem lastNonSpace_eq {ws : List UInt8} (hws : ∀ b ∈ ws, isspace b = true) {b : UInt8}
    (hb : isspace b = false)
    (front behind : List UInt8) :
    lastNonSpace (front ++ b :: ws ++ behind) (front.length + ws.length) = .ok front.length := by
  induction ws using List.reverseRecOn generalizing behind with
  | nil =>
    have hload := @load_eq UInt8 front b behind
    rw [List.append_assoc]
    show lastNonSpace (front ++ b :: behind) front.length = _
    cases hlen : front.length with
    | zero =>
      rw [hlen] at hload
      rw [lastNonSpace, hload, Res.ok_bind, hb]
      rfl
    | succ n =>
      rw [hlen] at hload
      rw [lastNonSpace, hload, Res.ok_bind, hb]
      rfl
  | append_singleton ws w ih =>
    have hw := hws w (by simp)
    have hload := @load_eq UInt8 (front ++ b :: ws) w behind
    have hbuf : front ++ b :: (ws ++ [w]) ++ behind = front ++ b :: ws ++ w :: behind := by simp
    have hlen : (front ++ b :: ws).length = front.length + ws.length + 1 := by simp; omega
    rw [hlen] at hload
    rw [hbuf, List.length_append, List.length_singleton, ← Nat.add_assoc, lastNonSpace, hload,
      Res.ok_bind, hw,
      if_pos rfl]
    exact ih (fun c hc => hws c (List.mem_append_left _ hc)) (w :: behind)

theorem clearSpaces_eq {ws : List UInt8} (hws : ∀ b ∈ ws, isspace b = true) {b : UInt8}
    (hb : isspace b = false)
    (front behind : List UInt8) : clearSpaces (front.length + 1 + ws.length) (front ++ b :: ws ++ behind) =
      .ok (front ++ b :: List.replicate ws.length 0 ++ behind) := by
  induction ws using List.reverseRecOn generalizing behind with
  | nil =>
    have hload := @load_eq UInt8 front b behind
    rw [List.append_assoc]
    show clearSpaces (front.length + 1) (front ++ b :: behind) = _
    rw [clearSpaces, hload, Res.ok_bind, hb]
    simp
  | append_singleton ws w ih =>
    have hw := hws w (by simp)
    have hload := @load_eq UInt8 (front ++ b :: ws) w behind
    have hstore := @store_eq UInt8 (front ++ b :: ws) (w :: behind) 0
    have hbuf : front ++ b :: (ws ++ [w]) ++ behind = front ++ b :: ws ++ w :: behind := by simp
    have hlen : (front ++ b :: ws).length = front.length + 1 + ws.length := by simp; omega
    rw [hlen] at hload hstore
    rw [hbuf, List.length_append, List.length_singleton, ← Nat.add_assoc, clearSpaces, hload, Res.ok_bind, hw,
      if_pos rfl, hstore, if_neg (List.cons_ne_nil _ _), Res.ok_bind]
    have hrest := ih (fun c hc => hws c (List.mem_append_left _ hc)) (0 :: behind)
    rw [List.drop_one, List.tail_cons, hrest, List.replicate_succ']
    simp

/-- Nothing in front of the equals sign stops the loop. -/
theorem clearSpaces_fault {ws : List UInt8} (hws : ∀ b ∈ ws, isspace b = true) (behind : List UInt8) :
    clearSpaces ws.length (ws ++ behind) = .fault := by
  induction ws using List.reverseRecOn generalizing behind with
  | nil => rfl
  | append_singleton ws w ih =>
    have hload := @load_eq UInt8 ws w behind
    have hstore := @store_eq UInt8 ws (w :: behind) 0
    rw [List.append_assoc, List.singleton_append, List.length_append, List.length_singleton,
      clearSpaces, hload,
      Res.ok_bind, hws w (by simp), if_pos rfl, hstore, if_neg (List.cons_ne_nil _ _), Res.ok_bind,
        List.drop_one,
      List.tail_cons]
    exact ih (fun c hc => hws c (List.mem_append_left _ hc)) (0 :: behind)

theorem ne_zero_of_isspace {b : UInt8} (h : isspace b = true) : b ≠ 0 := by
  rintro rfl
  cases h

/-- The byte that is overwritten is the last one of the text itself. -/
theorem cutLine_eq {lead text tail : List UInt8} {last : UInt8} (stale : List UInt8)
    (htext : ∀ b ∈ text, b ≠ 0)
    (hlast : isspace last = false) (hlast0 : last ≠ 0) (htail : ∀ b ∈ tail, isspace b = true) :
    cutLine (lead ++ (text ++ last :: tail) ++ 0 :: stale) lead.length =
      .ok (lead ++ text ++ 0 :: (tail ++ 0 :: stale)) := by
  have hzero : ∀ b ∈ text ++ last :: tail, b ≠ 0 := by
    intro b hb
    cases List.mem_append.1 hb with
    | inl hb => exact htext b hb
    | inr hb =>
      cases List.mem_cons.1 hb with
      | inl hb => exact hb ▸ hlast0
      | inr hb => exact ne_zero_of_isspace (htail b hb)
  have hstring := @stringAt_ok lead _ hzero stale
    ((lead ++ (text ++ last :: tail) ++ 0 :: stale).length + 1) (by
      simp only [List.length_append, List.length_cons]
      omega)
  have hfind := lastNonSpace_eq htail hlast (lead ++ text) (0 :: stale)
  have hstore := @store_eq UInt8 (lead ++ text) (last :: tail ++ 0 :: stale) 0
  have hbuf : lead ++ (text ++ last :: tail) ++ 0 :: stale = lead ++ text ++ last :: tail ++
    0 :: stale := by simp
  have hend : lead.length + ((text ++ last :: tail).length - 1) = (lead ++ text).length + tail.length := by
    simp only [List.length_append, List.length_cons]
    omega
  unfold cutLine
  rw [hstring, Res.ok_bind, hend, hbuf, hfind, Res.ok_bind, List.append_assoc _ (last :: tail), hstore,
    if_neg (by simp)]
  simp

section
variable {lead front v : List UInt8}

theorem stringAt_split {text : List UInt8} (htext : ∀ b ∈ text, b ≠ 0) (stale : List UInt8) :
    stringAt (lead ++ text ++ 0 :: stale) lead.length ((lead ++ text ++ 0 :: stale).length + 1) =
      .ok text := by
  apply stringAt_ok htext stale
  simp only [List.length_append, List.length_cons]
  omega

theorem ne_zero_of_parts {name : List UInt8} (hname : ∀ b ∈ name, b ≠ 0)
    (hfront : ∀ b ∈ front, isspace b = true)
    (hv : ∀ b ∈ v, b ≠ 0) : ∀ b ∈ name ++ front ++ 61 :: v, b ≠ 0 := by
  intro b hb
  cases List.mem_append.1 hb with
  | inl hb =>
    cases List.mem_append.1 hb with
    | inl hb => exact hname b hb
    | inr hb => exact ne_zero_of_isspace (hfront b hb)
  | inr hb =>
    cases List.mem_cons.1 hb with
    | inl hb =>
      rw [hb]
      decide
    | inr hb => exact hv b hb

/-- The name ends in front of the white space. -/
theorem splitLine_eq {name : List UInt8} (stale : List UInt8)
    (hname : ∀ b ∈ name, isspace b = false ∧ b ≠ 61 ∧ b ≠ 0)
    (hne : name ≠ []) (hfront : ∀ b ∈ front, isspace b = true) (hv : ∀ b ∈ v, b ≠ 0) :
    splitLine (lead ++ (name ++ front ++ 61 :: v) ++ 0 :: stale) lead.length =
      .ok (ofBuf name, some (ofBuf v)) := by
  obtain ⟨n', x, rfl⟩ := (List.eq_nil_or_concat' name).resolve_left hne
  have hx := (hname x (by simp)).1
  have hbefore : ∀ b ∈ n' ++ [x] ++ front, decide (b ≠ 61) = true := by
    intro b hb
    cases List.mem_append.1 hb with
    | inl hb => simpa using (hname b hb).2.1
    | inr hb =>
      have hspace := hfront b hb
      have hb61 : b ≠ 61 := by
        rintro rfl
        cases hspace
      simpa using hb61
  have htext := ne_zero_of_parts (fun b hb => (hname b hb).2.2) hfront hv
  have htake : (n' ++ [x] ++ front ++ 61 :: v).takeWhile (· ≠ 61) = n' ++ [x] ++ front := by
    rw [List.takeWhile_append_of_pos hbefore]
    simp
  have hpp : (lead ++ (n' ++ [x] ++ front)).length = lead.length + (n' ++ [x] ++ front).length :=
    List.length_append
  have hstore := @store_eq UInt8 (lead ++ (n' ++ [x] ++ front)) (61 :: v ++ 0 :: stale) 0
  rw [hpp, if_neg (by simp), List.cons_append, List.drop_one, List.tail_cons] at hstore
  have hclear := clearSpaces_eq hfront hx (lead ++ n') (0 :: (v ++ 0 :: stale))
  have hlen : (lead ++ n').length + 1 + front.length = lead.length + (n' ++ [x] ++ front).length := by
    simp only [List.length_append, List.length_singleton]
    omega
  have hbuf : lead ++ n' ++ x :: front ++ 0 :: (v ++ 0 :: stale) =
      lead ++ (n' ++ [x] ++ front) ++ 0 :: (v ++ 0 :: stale) := by simp
  rw [hlen, hbuf] at hclear
  have hcleared : lead ++ n' ++ x :: List.replicate front.length 0 ++ 0 :: (v ++ 0 :: stale) =
      lead ++ (n' ++ [x]) ++ 0 :: (List.replicate front.length 0 ++ (v ++ 0 :: stale)) := by
    have hzeros : List.replicate front.length (0 : UInt8) ++ 0 :: (v ++ 0 :: stale) =
        0 :: (List.replicate front.length 0 ++ (v ++ 0 :: stale)) := by
      rw [← List.singleton_append, ← List.append_assoc, ← List.replicate_succ', List.replicate_succ,
        List.cons_append]
    simp [hzeros]
  have hbehind : lead ++ n' ++ x :: List.replicate front.length 0 ++ 0 :: (v ++ 0 :: stale) =
      lead ++ n' ++ x :: List.replicate front.length 0 ++ [0] ++ v ++ 0 :: stale := by simp
  have hvalue := @stringAt_split (lead ++ n' ++ x :: List.replicate front.length 0 ++ [0]) v hv stale
  have hlen' : (lead ++ n' ++ x :: List.replicate front.length 0 ++ [0]).length =
      lead.length + (n' ++ [x] ++ front).length + 1 := by
    simp only [List.length_append, List.length_cons, List.length_replicate, List.length_nil]
    omega
  rw [← hbehind, hlen'] at hvalue
  have hfirst := @stringAt_split lead (n' ++ [x]) (fun b hb => (hname b hb).2.2)
    (List.replicate front.length 0 ++ (v ++ 0 :: stale))
  rw [← hcleared] at hfirst
  unfold splitLine
  rw [stringAt_split htext, Res.ok_bind, if_pos (by simp)]
  simp only [htake]
  have hsplit : lead ++ (n' ++ [x] ++ front ++ 61 :: v) ++ 0 :: stale =
      lead ++ (n' ++ [x] ++ front) ++ 61 :: (v ++ 0 :: stale) := by simp
  rw [hsplit, hstore, Res.ok_bind, hclear, Res.ok_bind, hfirst, Res.ok_bind, hvalue]
  rfl

/-- Without a name, bytes in front of the buffer are looked at. -/
theorem splitLine_fault (stale : List UInt8) (hlead : ∀ b ∈ lead, isspace b = true) (hv : ∀ b ∈ v, b ≠ 0) :
    splitLine (lead ++ (61 :: v) ++ 0 :: stale) lead.length = .fault := by
  have htext : ∀ b ∈ 61 :: v, b ≠ 0 := by
    intro b hb
    cases List.mem_cons.1 hb with
    | inl hb =>
      rw [hb]
      decide
    | inr hb => exact hv b hb
  have hstore := @store_eq UInt8 lead (61 :: v ++ 0 :: stale) 0
  unfold splitLine
  rw [stringAt_split htext, Res.ok_bind, if_pos List.mem_cons_self]
  simp only [ne_eq, not_true_eq_false, decide_false, Bool.false_eq_true, not_false_eq_true,
    List.takeWhile_cons_of_neg, List.length_nil, Nat.add_zero]
  rw [List.append_assoc, hstore, if_neg (by simp), Res.ok_bind, clearSpaces_fault hlead]
  rfl

end

/-! ## A round -/

/-- The first byte that is no white space decides. -/
theorem parseLine_skip {lead rest : List UInt8} {c : UInt8} (hlead : ∀ b ∈ lead, isspace b = true)
    (hc : isspace c = false) : parseLine (lead ++ c :: rest) = if c = 35 ∨ c = 0 then .ok none else do
      let buf ← cutLine (lead ++ c :: rest) lead.length
      let texts ← splitLine buf lead.length
      return some texts := by
  have hskip := skipSpaces_eq hlead hc [] rest
    (show lead.length < (lead ++ c :: rest).length + 1 by simp only [List.length_append]; omega)
  rw [List.nil_append, List.length_nil, Nat.zero_add] at hskip
  unfold parseLine
  rw [hskip, Res.ok_bind, load_eq, Res.ok_bind]
  rfl

theorem findOption_declared {options : List AppOption} {option : AppOption} {name : CString}
    (h : Declares options option name) : findOption options (some name) 0 = .ok (some option) := by
  obtain ⟨before, after, rfl, hname, hbefore⟩ := h
  induction before with
  | nil => simp [findOption, hname, strcmp_self]
  | cons o before ih =>
    obtain ⟨other, hother, hne⟩ := hbefore o List.mem_cons_self
    have hcmp : strcmp other name ≠ 0 := fun heq => hne (strcmp_eq_zero.1 heq)
    simp only [List.cons_append, findOption, hother, Nat.lt_irrefl, if_false, Option.any_some, hcmp,
      decide_false,
      Bool.false_eq_true]
    exact ih fun o' ho' => hbefore o' (List.mem_cons_of_mem _ ho')

section
variable {options : List AppOption} {s : State} {lead front tail : List UInt8}

/-- What is passed for a line that sets an option: its value without its last byte. -/
theorem lineCall_setting {name value : CString} {option : AppOption} (stale : List UInt8)
    (hlead : ∀ b ∈ lead, isspace b = true) (hname : ∀ b ∈ name.bytes, isspace b = false ∧ b ≠ 61)
    (hfront : ∀ b ∈ front, isspace b = true) (hvalue : value.bytes ≠ [])
    (hlast : ∀ b ∈ value.bytes.getLast?, isspace b = false) (htail : ∀ b ∈ tail, isspace b = true)
    (hdeclared : Declares options option name) (hset : findOptent option.longName s.optlist = none) :
    lineCall options (lead ++ (name.bytes ++ front ++ 61 :: value.bytes ++ tail) ++ 0 :: stale) s =
      if name.bytes = [] then .fault
      else if name.bytes.head? = some 35 then .ok none
      else .ok (some (option, some (ofBuf value.bytes.dropLast))) := by
  obtain ⟨v, last, hv⟩ := (List.eq_nil_or_concat' value.bytes).resolve_left hvalue
  have hspace : isspace last = false := hlast last (by simp [hv])
  have hv0 : ∀ b ∈ v ++ [last], b ≠ 0 := fun b hb => value.ne_zero b (by rw [hv]; exact hb)
  have hlast0 : last ≠ 0 := hv0 last (by simp)
  have hvzero : ∀ b ∈ v, b ≠ 0 := fun b hb => hv0 b (List.mem_append_left _ hb)
  unfold lineCall
  cases hbytes : name.bytes with
  | nil =>
    have hspaces : ∀ b ∈ lead ++ front, isspace b = true :=
      fun b hb => (List.mem_append.1 hb).elim (hlead b) (hfront b)
    have htext : ∀ b ∈ 61 :: v, b ≠ 0 := by simpa using hvzero
    have hcut := @cutLine_eq (lead ++ front) (61 :: v) tail last stale htext hspace hlast0 htail
    have hbuf : lead ++ ([] ++ front ++ 61 :: value.bytes ++ tail) ++ 0 :: stale =
        lead ++ front ++ 61 :: (v ++ last :: tail ++ 0 :: stale) := by simp [hv]
    have hbuf' : lead ++ front ++ (61 :: v ++ last :: tail) ++ 0 :: stale =
        lead ++ front ++ 61 :: (v ++ last :: tail ++ 0 :: stale) := by simp
    rw [hbuf'] at hcut
    rw [hbuf, parseLine_skip hspaces rfl, if_neg (by decide), hcut, Res.ok_bind,
      splitLine_fault _ hspaces hvzero]
    rfl
  | cons d n' =>
    have hd : isspace d = false := (hname d (by simp [hbytes])).1
    have hd0 : d ≠ 0 := name.ne_zero d (by simp [hbytes])
    have hbuf : lead ++ (d :: n' ++ front ++ 61 :: value.bytes ++ tail) ++ 0 :: stale =
        lead ++ d :: (n' ++ front ++ 61 :: v ++ last :: tail ++ 0 :: stale) := by simp [hv]
    rw [hbuf, parseLine_skip hlead hd]
    by_cases hd35 : d = 35
    · simp [hd35]
    · have htext := ne_zero_of_parts (fun b hb => name.ne_zero b (hbytes ▸ hb)) hfront hvzero
      have hcut := @cutLine_eq lead (d :: n' ++ front ++ 61 :: v) tail last stale htext hspace hlast0 htail
      have hbuf' : lead ++ (d :: n' ++ front ++ 61 :: v ++ last :: tail) ++ 0 :: stale =
          lead ++ d :: (n' ++ front ++ 61 :: v ++ last :: tail ++ 0 :: stale) := by simp
      rw [hbuf'] at hcut
      have hsplit := @splitLine_eq lead front v (d :: n') (tail ++ 0 :: stale)
        (fun b hb => ⟨(hname b (hbytes ▸ hb)).1, (hname b (hbytes ▸ hb)).2, name.ne_zero b (hbytes ▸ hb)⟩)
        (List.cons_ne_nil d n') hfront hvzero
      have hofBuf : ofBuf (d :: n') = name := by
        rw [← hbytes]
        exact CString.ext (ofBuf_bytes name.ne_zero)
      rw [if_neg (by simp [hd35, hd0]), hcut, Res.ok_bind, hsplit, hofBuf, hv, List.dropLast_concat]
      simp [findOption_declared hdeclared, hset, hd35]

end

/-- A line of a configuration file is passed on as it stands exactly where there is nothing to pass on. -/
theorem configRound_iff {options : List AppOption} {text ending rest : List UInt8}
    {expected : Option (AppOption × CString)} (h : ConfigLine options text expected) (htext : 10 ∉ text)
    (hend : LineEnd text ending rest) (hlen : (text ++ ending).length < 1023) {s : State}
    (hset : ∀ p ∈ expected, findOptent p.1.longName s.optlist = none) (buf : List UInt8) :
    (∃ buf', configRound options buf (text ++ ending ++ rest) s =
      .ok (some { call := expected.map fun p => (p.1, some p.2), buf := buf', file := rest })) ↔
      expected = none := by
  have hcall : ∀ call, (∃ buf', configRound options buf (text ++ ending ++ rest) s =
      .ok (some { call := call, buf := buf', file := rest })) ↔
      lineCall options (text ++ ending ++ 0 :: buf.drop ((text ++ ending).length + 1)) s = .ok call := by
    intro call
    unfold configRound
    rw [fgets_line htext hend hlen]
    refine ⟨?_, ?_⟩
    · rintro ⟨buf', hround⟩
      obtain ⟨call', hline, hret⟩ := Res.bind_eq_ok.1 hround
      cases hret
      exact hline
    · intro hline
      refine ⟨text ++ ending ++ 0 :: buf.drop ((text ++ ending).length + 1), ?_⟩
      simp only [hline, Res.ok_bind, Res.pure_eq]
  have hending : ∀ b ∈ ending, isspace b = true := by
    rcases hend with rfl | ⟨rfl, -, -⟩ <;> decide +kernel
  rw [hcall]
  generalize buf.drop ((text ++ ending).length + 1) = stale
  cases h with
  | @setting lead front tail name value option hlead hname hfront hvalue hhead hlast htail hdeclared =>
    have htail' : ∀ b ∈ tail ++ ending, isspace b = true :=
      fun b hb => (List.mem_append.1 hb).elim (htail b) (hending b)
    have hline := lineCall_setting stale hlead hname hfront hvalue hlast htail' hdeclared (hset _ rfl)
    have hbuf : lead ++ name.bytes ++ front ++ 61 :: value.bytes ++ tail ++ ending ++ 0 :: stale =
        lead ++ (name.bytes ++ front ++ 61 :: value.bytes ++ (tail ++ ending)) ++ 0 :: stale := by simp
    rw [hbuf, hline]
    simp only [Option.map_some, reduceCtorEq, iff_false]
    split
    · simp
    · split
      · simp
      · -- the value that is passed has one byte less
        intro heq
        simp only [Res.ok.injEq, Option.some.injEq, Prod.mk.injEq, true_and] at heq
        have hbytes : (ofBuf value.bytes.dropLast).bytes = value.bytes.dropLast :=
          ofBuf_bytes fun b hb => value.ne_zero b (List.mem_of_mem_dropLast hb)
        have hshort := congrArg List.length hbytes
        rw [heq, List.length_dropLast] at hshort
        have hpos := List.length_pos_iff.2 hvalue
        omega
  | blank hlead =>
    have hskip := @parseLine_skip (text ++ ending) stale 0
      (fun b hb => (List.mem_append.1 hb).elim (hlead b) (hending b)) rfl
    unfold lineCall
    rw [hskip]
    simp
  | @comment lead text hlead =>
    have hskip := @parseLine_skip lead (text ++ ending ++ 0 :: stale) 35 hlead rfl
    have hbuf : lead ++ 35 :: text ++ ending ++ 0 :: stale = lead ++
      35 :: (text ++ ending ++ 0 :: stale) := by simp
    unfold lineCall
    rw [hbuf, hskip]
    simp

/-- The table of one option `--x`. -/
def tableX : List AppOption :=
  [{ longName := some (ofBuf (bytesOf "x")), argType := ARG_STRING }, { longName := none, argType := 0 }]

/-- A comment sets nothing. -/
theorem configRound_comment : ∃ buf',
    configRound tableX (List.replicate 1024 0) (bytesOf "# x=1" ++ [10] ++ bytesOf "x=2")
      { optlist := [], allocs := 0 } = .ok (some { call := none, buf := buf', file := bytesOf "x=2" }) :=
  (configRound_iff (@ConfigLine.comment tableX [] (bytesOf " x=1") (by simp)) (by decide) (.inl rfl)
    (by decide) (by simp) (List.replicate 1024 0)).2 rfl

/-- An allocation never fails. -/
def Malloc.enough : Malloc := ⟨fun _ => false, fun _ _ => none, fun _ _ => 0⟩

/-- A line that sets an option passes its value without the last byte, and so it is set. -/
theorem configRound_short :
    (configRound tableX (List.replicate 1024 0) (bytesOf "x =ab" ++ [10]) { optlist := [], allocs := 0 } >>=
      fun r => .ok (r.map Round.call)) =
        .ok (some (some (tableX.head (by decide), some (ofBuf (bytesOf "a"))))) ∧
    (configRound tableX (List.replicate 1024 0) (bytesOf "x=1" ++ [10]) { optlist := [], allocs := 0 } >>=
      fun r => .ok (r.map Round.call)) = .ok (some (some (tableX.head (by decide), some (ofBuf [])))) ∧
    (parseConfigFile .enough tableX (bytesOf "x =ab" ++ [10]) { optlist := [], allocs := 0 } >>=
      fun s => .ok (s.optlist.map Optent.value)) = .ok [.text (bytesOf "a")] := by
  decide +kernel

end Utils.Options
