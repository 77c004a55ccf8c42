import GoipRemote.Lib.Buffer
import GoipRemote.Utils.Syscfg

/-!
# The id of the device (`build_id` of `radmcli/main.c`)

The template is read where `getsyscfg` left it, in the one static buffer into which each `getsyscfg` for a
variable of the template reads its answer: behind a variable the pointer goes on in that answer.
`pointerPieces` is what it really reads, `pieces` what the template consists of, and `buildId_iff` says
when the id that is built is the template with its variables replaced.
-/

namespace Radmcli

open Utils CString Buffer

/-- The static `buf` of `getsyscfg` when it has read an answer. -/
def replyBuf (answer : Answer) : List UInt8 :=
  answer.bytes.take 511 ++ List.replicate (512 - (answer.bytes.take 511).length) 0

/-- `getsyscfg`: what is in its buffer afterwards, and the string behind the pointer that it returns. The
request has room for 32 bytes of the name. -/
def getsyscfgStatic (server : CString → Answer) (var : CString) : List UInt8 × Option CString :=
  let buf := replyBuf (server (var.take 32))
  (buf, if buf.head? = some 62 then some (ofBuf buf.tail) else none)

/-- The part of the loop for a variable: its name is kept in the buffer of the id while it is asked for, and
the value then takes its place. -/
def buildIdVar (server : CString → Answer) (buf : List UInt8) (var : Nat) (name : List UInt8) :
    Res (List UInt8 × List UInt8 × Nat) := do
  let buf ← storeAll buf var name
  let buf ← store buf (var + name.length) 0
  let (cfg, p) := getsyscfgStatic server (ofBuf (buf.drop var))
  let value := (p.map CString.bytes).getD []
  let buf ← storeAll buf var value
  return (cfg, buf, var + value.length)

/-- The loop of `build_id`, of at most the given number of rounds: the buffer of `getsyscfg` with the index
`id`, and the buffer of the id with the index `p`. -/
def buildIdLoop (server : CString → Answer) :
    Nat → List UInt8 → Nat → List UInt8 → Nat → Res (List UInt8 × Nat)
  | 0, _, _, _, _ => .fault
  | rounds + 1, cfg, id, buf, p => do
    let b ← load cfg id
    if b = 0 then return (buf, p)
    else if b = 36 ∧ cfg[id + 1]? = some 123 then
      let name := (cfg.drop (id + 2)).takeWhile fun b => b ≠ 0 ∧ b ≠ 125
      let id := id + 2 + name.length
      let last ← load cfg id
      let id := if last = 125 then id + 1 else id
      let (cfg, buf, p) ← buildIdVar server buf p name
      buildIdLoop server rounds cfg id buf p
    else do
      let buf ← store buf p b
      buildIdLoop server rounds cfg (id + 1) buf (p + 1)

/-- `build_id`, of a template in the buffer of `getsyscfg`. -/
def buildId (server : CString → Answer) (cfg : List UInt8) : Res CString := do
  let (buf, p) ← buildIdLoop server 512 cfg 1 (List.replicate 256 0) 0
  let buf ← store buf p 0
  return ofBuf buf

/-! ## What the template says -/

/-- What a template consists of. -/
inductive Piece where
  | char (b : UInt8)
  | var (name : List UInt8)
  deriving DecidableEq, Repr

/-- A variable's name, behind its `${`. -/
def varName (tail : List UInt8) : List UInt8 := tail.takeWhile (· ≠ 125)

/-- A template's pieces; what is not closed is no variable. -/
def pieces : List UInt8 → List Piece
  | [] => []
  | b :: rest =>
    if [36, 123] <+: b :: rest ∧ 125 ∈ rest.drop 1 then
      .var (varName (rest.drop 1)) :: pieces (((rest.drop 1).dropWhile (· ≠ 125)).drop 1)
    else .char b :: pieces rest
termination_by l => l.length
decreasing_by
  · have h := (List.dropWhile_suffix (· ≠ 125) (l := rest.drop 1)).length_le
    simp only [List.length_drop, List.length_cons] at h ⊢
    omega
  · simp

/-- The bytes of pieces, for the values of variables. -/
def expand (value : List UInt8 → List UInt8) (ps : List Piece) : List UInt8 :=
  ps.flatMap fun
    | .char b => [b]
    | .var name => value name

/-- The value of a variable, empty when it is unset. -/
def valueOf (server : CString → Answer) (name : List UInt8) : List UInt8 :=
  match server (ofBuf name) with
  | .value text => text.bytes
  | .err _ => []

/-! ## What the pointer reads -/

/-- The answer to a request for a variable, as it is in the buffer. -/
def reply (server : CString → Answer) (name : List UInt8) : List UInt8 :=
  (server ((ofBuf name).take 32)).bytes.take 511

/-- What is copied of it. -/
def copied (server : CString → Answer) (name : List UInt8) : List UInt8 :=
  if (reply server name).head? = some 62 then (reply server name).tail else []

/-- The pieces that the pointer reads, of at most the given number, from an index of a text on. -/
def pointerPieces (server : CString → Answer) : Nat → List UInt8 → Nat → List Piece
  | 0, _, _ => []
  | rounds + 1, text, id =>
    match text.drop id with
    | [] => []
    | b :: rest =>
      if [36, 123] <+: b :: rest then
        let name := varName (rest.drop 1)
        let id := id + 2 + name.length
        .var name :: pointerPieces server rounds (reply server name)
          (if 125 ∈ rest.drop 1 then id + 1 else id)
      else .char b :: pointerPieces server rounds text (id + 1)

/-- There is room for pieces, for the names while they are asked for, and for the terminator. -/
def Fits (server : CString → Answer) : Nat → List Piece → Prop
  | room, [] => 0 < room
  | room, .char _ :: ps => 0 < room ∧ Fits server (room - 1) ps
  | room, .var name :: ps => name.length < room ∧ (copied server name).length ≤ room ∧
    Fits server (room - (copied server name).length) ps

/-! ## One round -/

section
variable {server : CString → Answer} {text name : List UInt8} {id : Nat}

/-- A string of an answer in the buffer, with the zeros behind. -/
def padded (text : List UInt8) : List UInt8 := text ++ List.replicate (512 - text.length) 0

/-- The strings that can be in the buffer. -/
structure Buffered (text : List UInt8) : Prop where
  length : text.length ≤ 511
  ne_zero : ∀ b ∈ text, b ≠ 0

theorem answer_ne_zero (answer : Answer) : ∀ b ∈ answer.bytes, b ≠ 0 := by
  intro b hb
  cases answer with
  | value text =>
    rcases List.mem_cons.1 hb with rfl | hb
    · decide
    · exact text.ne_zero b hb
  | err info =>
    rcases List.mem_append.1 hb with hb | hb
    · exact (by decide +kernel : ∀ b ∈ bytesOf "!ERR", b ≠ 0) b hb
    · exact info.ne_zero b hb

theorem answer_buffered (answer : Answer) : Buffered (answer.bytes.take 511) where
  length := by simp
  ne_zero := fun b hb => answer_ne_zero answer b (List.mem_of_mem_take hb)

theorem padded_drop (h : Buffered text) (hid : id ≤ 511) :
    ∃ zeros, (padded text).drop id = text.drop id ++ 0 :: zeros := by
  have hlen := h.length
  rw [padded, List.drop_append, List.drop_replicate]
  obtain ⟨n, hn⟩ : ∃ n, 512 - text.length - (id - text.length) = n + 1 :=
    ⟨512 - text.length - (id - text.length) - 1, by omega⟩
  rw [hn]
  exact ⟨_, rfl⟩

theorem load_drop (buf : List UInt8) (i j : Nat) : load buf (i + j) = load (buf.drop i) j := by
  unfold load
  rw [List.getElem?_drop]

/-- What `getsyscfg` leaves and returns for a variable. -/
theorem getsyscfgStatic_eq (server : CString → Answer) (name : List UInt8) :
    ∃ value, getsyscfgStatic server (ofBuf name) = (padded (reply server name), value) ∧
      (value.map CString.bytes).getD [] = copied server name := by
  refine ⟨_, rfl, ?_⟩
  have hbuf := answer_buffered (server ((ofBuf name).take 32))
  obtain ⟨zeros, hzeros⟩ := padded_drop hbuf (Nat.zero_le 511)
  change padded (reply server name) = reply server name ++ 0 :: zeros at hzeros
  change (Option.map CString.bytes (if (padded (reply server name)).head? = some 62 then
    some (ofBuf (padded (reply server name)).tail) else none)).getD [] = _
  rw [hzeros, copied]
  cases hreply : reply server name with
  | nil => rfl
  | cons b rest =>
    have hrest : ∀ b ∈ rest, b ≠ 0 := fun c hc => hbuf.ne_zero c (by
      change c ∈ reply server name
      rw [hreply]
      exact List.mem_cons_of_mem _ hc)
    have htail : (ofBuf (rest ++ 0 :: zeros)).bytes = rest :=
      congrArg CString.bytes (ofBuf_append ⟨rest, hrest⟩ zeros)
    by_cases hb : b = 62
    · simpa [hb] using htail
    · simp [hb]

theorem loop_end (h : Buffered text) (hid : id ≤ 511) (htext : text.drop id = []) (rounds : Nat)
    (buf : List UInt8) (p : Nat) :
    buildIdLoop server (rounds + 1) (padded text) id buf p = .ok (buf, p) := by
  obtain ⟨zeros, hdrop⟩ := padded_drop h hid
  rw [htext, List.nil_append] at hdrop
  have hload : load (padded text) id = .ok 0 := by
    rw [← Nat.add_zero id, load_drop, hdrop]
    rfl
  rw [buildIdLoop, hload]
  rfl

/-- A byte that is read: the buffer has the next one if it has not ended. -/
theorem load_cons (h : Buffered text) (hid : id ≤ 511) {b : UInt8} {rest : List UInt8}
    (htext : text.drop id = b :: rest) : load (padded text) id = .ok b ∧ b ≠ 0 ∧
      (b = 36 ∧ (padded text)[id + 1]? = some 123 ↔ [36, 123] <+: b :: rest) := by
  obtain ⟨zeros, hdrop⟩ := padded_drop h hid
  rw [htext] at hdrop
  have hload : load (padded text) id = .ok b := by
    rw [← Nat.add_zero id, load_drop, hdrop]
    rfl
  refine ⟨hload, h.ne_zero b (List.mem_of_mem_drop (htext ▸ List.mem_cons_self)), ?_⟩
  rw [← List.getElem?_drop, hdrop]
  cases rest with
  | nil => simp
  | cons c rest => simp [List.cons_prefix_cons, eq_comm]

theorem loop_char (h : Buffered text) (hid : id ≤ 511) {b : UInt8} {rest : List UInt8}
    (htext : text.drop id = b :: rest) (hb : ¬ [36, 123] <+: b :: rest) (rounds : Nat)
    (out room : List UInt8) :
    buildIdLoop server (rounds + 1) (padded text) id (out ++ room) out.length =
      if room = [] then .fault
      else buildIdLoop server rounds (padded text) (id + 1)
        (out ++ [b] ++ room.drop 1) (out ++ [b]).length := by
  obtain ⟨hload, hzero, hopens⟩ := load_cons h hid htext
  rw [buildIdLoop, hload, Res.ok_bind, if_neg hzero, if_neg (mt hopens.1 hb), store_eq]
  by_cases hroom : room = []
  · rw [if_pos hroom, if_pos hroom]
    rfl
  · rw [if_neg hroom, if_neg hroom]
    simp

/-- The loop over a name ends at its brace, or at the end of the string. -/
theorem name_spec {tail : List UInt8} (zeros : List UInt8) (h : ∀ b ∈ tail, b ≠ 0) :
    (tail ++ 0 :: zeros).takeWhile (fun b => b ≠ 0 ∧ b ≠ 125) = varName tail ∧
      load (tail ++ 0 :: zeros) (varName tail).length = .ok (if 125 ∈ tail then 125 else 0) := by
  induction tail with
  | nil => simp [varName, load]
  | cons b tail ih =>
    have ih := ih fun c hc => h c (List.mem_cons_of_mem _ hc)
    by_cases hb : b = 125
    · simp [varName, hb, load]
    · have hmem : 125 ∈ b :: tail ↔ 125 ∈ tail := by simp [Ne.symm hb]
      have hzero : b ≠ 0 := h b List.mem_cons_self
      simp only [varName, load, List.cons_append, hmem] at ih ⊢
      rw [List.takeWhile_cons_of_pos (by simp [hb, hzero]), List.takeWhile_cons_of_pos (by simp [hb])]
      exact ⟨congrArg _ ih.1, ih.2⟩

/-- What a variable leaves in both buffers. -/
theorem buildIdVar_eq (hname : ∀ b ∈ name, b ≠ 0) (out room : List UInt8) :
    buildIdVar server (out ++ room) out.length name =
      if name.length < room.length ∧ (copied server name).length ≤ room.length then
        .ok (padded (reply server name), out ++ copied server name ++
          (name ++ 0 :: room.drop (name.length + 1)).drop (copied server name).length,
          (out ++ copied server name).length)
      else .fault := by
  unfold buildIdVar
  by_cases hlen : name.length < room.length
  · have hroom : room.drop name.length ≠ [] := by
      rw [ne_eq, List.drop_eq_nil_iff]
      omega
    have hstore := @store_eq UInt8 (out ++ name) (room.drop name.length) 0
    rw [if_neg hroom, List.length_append, List.drop_drop] at hstore
    rw [storeAll_ok (Nat.le_of_lt hlen), Res.ok_bind, hstore, Res.ok_bind, List.append_assoc, List.drop_left]
    have hstring : ofBuf (name ++ 0 :: room.drop (name.length + 1)) = ofBuf name :=
      (ofBuf_append ⟨name, hname⟩ _).trans (CString.ext (ofBuf_bytes hname).symm)
    obtain ⟨value, hget, hvalue⟩ := getsyscfgStatic_eq server name
    have hlong : (name ++ 0 :: room.drop (name.length + 1)).length = room.length := by
      simp
      omega
    simp only [hstring, hget, hvalue, storeAll_eq, hlong]
    by_cases hvalue : (copied server name).length ≤ room.length
    · simp [hlen, hvalue]
    · simp [hvalue]
  · rw [if_neg fun h => hlen h.1, storeAll_eq]
    by_cases hle : name.length ≤ room.length
    · have hstore := @store_eq UInt8 (out ++ name) (room.drop name.length) 0
      rw [if_pos (by rw [List.drop_eq_nil_iff]; omega), List.length_append] at hstore
      rw [if_pos hle, Res.ok_bind, hstore, Res.fault_bind]
    · rw [if_neg hle, Res.fault_bind]

/-- A variable that is read, behind its `${`. -/
theorem loop_var (h : Buffered text) (hid : id ≤ 511) {tail : List UInt8}
    (htext : text.drop id = 36 :: 123 :: tail) (rounds : Nat) (buf : List UInt8) (p : Nat) :
    let next := id + 2 + (varName tail).length
    buildIdLoop server (rounds + 1) (padded text) id buf p =
      buildIdVar server buf p (varName tail) >>= fun r =>
        buildIdLoop server rounds r.1 (if 125 ∈ tail then next + 1 else next) r.2.1 r.2.2 := by
  intro next
  obtain ⟨hload, hzero, hopens⟩ := load_cons h hid htext
  have hlen := congrArg List.length htext
  simp only [List.length_drop, List.length_cons] at hlen
  have hmax := h.length
  -- the name ends at the brace, or at the end of the string
  obtain ⟨zeros, hdrop⟩ := @padded_drop text (id + 2) h (by omega)
  have htail : text.drop (id + 2) = tail := by
    rw [← List.drop_drop, htext]
    rfl
  rw [htail] at hdrop
  obtain ⟨hname, hload'⟩ := @name_spec tail zeros fun b hb =>
    h.ne_zero b (List.mem_of_mem_drop (htail ▸ hb))
  rw [← hdrop, ← load_drop] at hload'
  rw [buildIdLoop, hload, Res.ok_bind, if_neg hzero, if_pos (hopens.2 (by simp))]
  simp only [hdrop, hname, hload', Res.ok_bind]
  by_cases hmem : 125 ∈ tail
  · simp only [hmem, if_true]
    rfl
  · simp only [hmem, if_false, show (0 : UInt8) ≠ 125 by decide]
    rfl

theorem opens_iff {b : UInt8} {rest : List UInt8} :
    [36, 123] <+: b :: rest ↔ ∃ tail, b = 36 ∧ rest = 123 :: tail := by
  cases rest with
  | nil => simp
  | cons c rest => simp [List.cons_prefix_cons, eq_comm]

theorem varName_length_le (tail : List UInt8) :
    (varName tail).length + (if 125 ∈ tail then 1 else 0) ≤ tail.length := by
  unfold varName
  induction tail with
  | nil => simp
  | cons b tail ih =>
    by_cases hb : b = 125
    · simp [hb]
    · have hmem : 125 ∈ b :: tail ↔ 125 ∈ tail := by simp [Ne.symm hb]
      rw [List.takeWhile_cons_of_pos (by simp [hb])]
      simp only [hmem, List.length_cons]
      omega

theorem varName_ne_zero {tail : List UInt8} (h : ∀ b ∈ tail, b ≠ 0) : ∀ b ∈ varName tail, b ≠ 0 :=
  fun b hb => h b ((List.takeWhile_prefix _).subset hb)

/-! ## The run -/

/-- How a run of the loop ends, terminator included, when the pointer still reads these pieces. -/
def EndsIn (server : CString → Answer) (ends : Res (List UInt8)) (out room : List UInt8)
    (ps : List Piece) : Prop :=
  (Fits server room.length ps → ∃ tail, ends = .ok (out ++ expand (copied server) ps ++ 0 :: tail)) ∧
    (¬ Fits server room.length ps → ends = .fault)

theorem EndsIn.nil (server : CString → Answer) (out room : List UInt8) :
    EndsIn server (store (out ++ room) out.length 0) out room [] := by
  unfold EndsIn Fits
  rw [store_eq, List.length_pos_iff]
  refine ⟨?_, ?_⟩
  · intro hroom
    rw [if_neg hroom]
    exact ⟨room.drop 1, by simp [expand]⟩
  · intro hroom
    rw [if_pos (not_not.1 hroom)]

theorem EndsIn.char {ends : Res (List UInt8)} {out room : List UInt8} {ps : List Piece} {b : UInt8}
    (h : EndsIn server ends (out ++ [b]) (room.drop 1) ps) :
    EndsIn server (if room = [] then .fault else ends) out room (.char b :: ps) := by
  obtain ⟨hok, hfault⟩ := h
  rw [List.length_drop] at hok hfault
  unfold EndsIn
  rw [Fits, List.length_pos_iff]
  by_cases hroom : room = []
  · rw [if_pos hroom]
    exact ⟨fun hfits => absurd hroom hfits.1, fun _ => rfl⟩
  · rw [if_neg hroom]
    refine ⟨?_, ?_⟩
    · intro hfits
      obtain ⟨tail, htail⟩ := hok hfits.2
      exact ⟨tail, by simpa [expand] using htail⟩
    · intro hfits
      exact hfault fun hrest => hfits ⟨hroom, hrest⟩

theorem EndsIn.var {out room : List UInt8} {ps : List Piece}
    {ends : List UInt8 × List UInt8 × Nat → Res (List UInt8)} (hname : ∀ b ∈ name, b ≠ 0)
    (h : ∀ {rest : List UInt8}, rest.length = room.length - (copied server name).length →
      EndsIn server (ends (padded (reply server name), out ++ copied server name ++ rest,
        (out ++ copied server name).length)) (out ++ copied server name) rest ps) :
    EndsIn server (buildIdVar server (out ++ room) out.length name >>= ends) out room (.var name :: ps) := by
  unfold EndsIn
  rw [buildIdVar_eq hname, Fits]
  by_cases hroom : name.length < room.length ∧ (copied server name).length ≤ room.length
  · obtain ⟨hok, hfault⟩ := @h ((name ++ 0 :: room.drop (name.length + 1)).drop
      (copied server name).length) (by simp; omega)
    rw [if_pos hroom, Res.ok_bind]
    rw [show List.length (List.drop _ _) = room.length - (copied server name).length by
      simp; omega] at hok hfault
    refine ⟨?_, ?_⟩
    · intro hfits
      obtain ⟨tail, htail⟩ := hok hfits.2.2
      exact ⟨tail, by simpa [expand] using htail⟩
    · intro hfits
      exact hfault fun hrest => hfits ⟨hroom.1, hroom.2, hrest⟩
  · rw [if_neg hroom]
    exact ⟨fun hfits => absurd ⟨hfits.1, hfits.2.1⟩ hroom, fun _ => rfl⟩

/-- The loop, from an index on at which enough rounds are left for the rest of the buffer. -/
theorem loop_run (server : CString → Answer) (rounds : Nat) :
    ∀ {text : List UInt8} {id : Nat} {out room : List UInt8}, Buffered text → id ≤ 511 →
      511 < rounds + id →
      EndsIn server (buildIdLoop server rounds (padded text) id (out ++ room) out.length >>= fun r =>
        store r.1 r.2 0) out room (pointerPieces server rounds text id) := by
  induction rounds with
  | zero =>
    intro text id out room h hid hrounds
    omega
  | succ rounds ih =>
    intro text id out room h hid hrounds
    have hlen := h.length
    cases htext : text.drop id with
    | nil =>
      rw [pointerPieces, htext, loop_end h hid htext, Res.ok_bind]
      exact EndsIn.nil server out room
    | cons b rest =>
      have hdrop := congrArg List.length htext
      simp only [List.length_drop, List.length_cons] at hdrop
      rw [pointerPieces, htext]
      by_cases hb : [36, 123] <+: b :: rest
      · obtain ⟨tail, rfl, rfl⟩ := opens_iff.1 hb
        have htail := varName_length_le tail
        simp only [List.length_cons] at hdrop
        rw [loop_var h hid htext, Res.bind_assoc]
        simp only [if_pos hb]
        refine EndsIn.var (varName_ne_zero fun b hb => h.ne_zero b (List.mem_of_mem_drop
          (htext ▸ List.mem_cons_of_mem _ (List.mem_cons_of_mem _ hb)))) fun _ => ?_
        refine ih (answer_buffered _) ?_ ?_ <;> split at htail <;> simp_all <;> omega
      · rw [loop_char h hid htext hb]
        simp only [if_neg hb]
        rw [show ∀ r : Res (List UInt8 × Nat), ((if room = [] then Res.fault else r) >>= fun r =>
            store r.1 r.2 0) = if room = [] then Res.fault else r >>= fun r => store r.1 r.2 0 by
          intro r
          split <;> rfl]
        exact EndsIn.char (ih h (by omega) (by omega))

theorem copied_ne_zero (server : CString → Answer) (name : List UInt8) : ∀ b ∈ copied server name, b ≠ 0 := by
  intro b hb
  unfold copied at hb
  split at hb
  · exact (answer_buffered _).ne_zero b (List.mem_of_mem_tail hb)
  · cases hb

theorem pointerPieces_ne_zero (server : CString → Answer) (rounds : Nat) :
    ∀ {text : List UInt8} {id : Nat}, Buffered text →
      ∀ b ∈ expand (copied server) (pointerPieces server rounds text id), b ≠ 0 := by
  induction rounds with
  | zero =>
    intro text id h b hb
    cases hb
  | succ rounds ih =>
    intro text id h b hb
    rw [pointerPieces] at hb
    cases htext : text.drop id with
    | nil =>
      rw [htext] at hb
      cases hb
    | cons c rest =>
      simp only [htext] at hb
      split at hb
      · rcases List.mem_append.1 hb with hb | hb
        · exact copied_ne_zero server _ b hb
        · exact ih (answer_buffered _) b hb
      · rcases List.mem_cons.1 hb with rfl | hb
        · exact h.ne_zero b (List.mem_of_mem_drop (htext ▸ List.mem_cons_self))
        · exact ih h b hb

end

/-- What the pointer reads of a template. -/
def readPieces (server : CString → Answer) (template : CString) : List Piece :=
  pointerPieces server 512 (62 :: template.bytes) 1

/-- **`build_id`** gives what the pointer reads, and faults exactly where that has no room. -/
theorem buildId_eq (server : CString → Answer) {template : CString} (hlen : template.bytes.length ≤ 510) :
    (Fits server 256 (readPieces server template) →
      ∃ id, buildId server (replyBuf (.value template)) = .ok id ∧
        id.bytes = expand (copied server) (readPieces server template)) ∧
      (¬ Fits server 256 (readPieces server template) →
        buildId server (replyBuf (.value template)) = .fault) := by
  have htext : (Answer.value template).bytes.take 511 = 62 :: template.bytes :=
    List.take_of_length_le (by simp [Answer.bytes]; omega)
  have hbuffered := answer_buffered (.value template)
  obtain ⟨hok, hfault⟩ := @loop_run server 512 _ 1 [] (List.replicate 256 0) hbuffered (by omega) (by omega)
  rw [htext, List.length_replicate] at hok hfault
  have hbuild : buildId server (replyBuf (.value template)) =
      (buildIdLoop server 512 (padded (62 :: template.bytes)) 1 ([] ++ List.replicate 256 0)
        ([] : List UInt8).length >>= fun r => store r.1 r.2 0) >>= fun buf => .ok (ofBuf buf) := by
    rw [Res.bind_assoc, ← htext]
    rfl
  rw [hbuild]
  refine ⟨?_, ?_⟩
  · intro hfits
    obtain ⟨tail, htail⟩ := hok hfits
    have hbytes := @pointerPieces_ne_zero server 512 _ 1 hbuffered
    rw [htext] at hbytes
    exact ⟨_, by rw [htail]; rfl, congrArg CString.bytes (ofBuf_append ⟨_, hbytes⟩ tail)⟩
  · intro hfits
    rw [hfault hfits]
    rfl

/-! ## Templates with a variable and without -/

section
variable {server : CString → Answer} {lit tail : List UInt8}

@[simp] theorem expand_append (value : List UInt8 → List UInt8) (ps qs : List Piece) :
    expand value (ps ++ qs) = expand value ps ++ expand value qs := by
  simp [expand]

@[simp] theorem expand_chars (value : List UInt8 → List UInt8) (l : List UInt8) :
    expand value (l.map .char) = l := by
  induction l with
  | nil => rfl
  | cons b l ih => exact congrArg (b :: ·) ih

theorem expand_length_le (value : List UInt8 → List UInt8) (ps : List Piece) :
    (expand (fun _ => []) ps).length ≤ (expand value ps).length := by
  induction ps with
  | nil => simp [expand]
  | cons p ps ih =>
    cases p with
    | char b => exact Nat.succ_le_succ ih
    | var name =>
      show (expand (fun _ => []) ps).length ≤ (value name ++ expand value ps).length
      rw [List.length_append]
      omega

theorem Fits.drop_chars {ps : List Piece} :
    ∀ {l : List UInt8} {room : Nat}, Fits server room (l.map .char ++ ps) →
      Fits server (room - l.length) ps := by
  intro l
  induction l with
  | nil => exact id
  | cons b l ih =>
    intro room h
    have h := ih h.2
    rwa [Nat.sub_sub, Nat.add_comm] at h

theorem Fits.chars : ∀ {l : List UInt8} {room : Nat}, l.length < room → Fits server room (l.map .char) := by
  intro l
  induction l with
  | nil => exact id
  | cons b l ih =>
    intro room h
    rw [List.length_cons] at h
    exact ⟨by omega, ih (by omega)⟩

/-- Bytes at which no variable opens. -/
theorem pieces_chars (h : ∀ k < lit.length, ¬ [36, 123] <+: (lit ++ tail).drop k) :
    pieces (lit ++ tail) = lit.map .char ++ pieces tail := by
  induction lit with
  | nil => rfl
  | cons b lit ih =>
    have hb : ¬ [36, 123] <+: b :: (lit ++ tail) := h 0 (Nat.succ_pos _)
    have hlit : ∀ k < lit.length, ¬ [36, 123] <+: (lit ++ tail).drop k := fun k hk =>
      h (k + 1) (Nat.succ_lt_succ hk)
    rw [List.cons_append, pieces, if_neg fun h => hb h.1, ih hlit]
    rfl

theorem pointerPieces_chars (rounds : Nat) {text : List UInt8} :
    ∀ {lit : List UInt8} {id : Nat}, text.drop id = lit ++ tail →
      (∀ k < lit.length, ¬ [36, 123] <+: (lit ++ tail).drop k) →
      pointerPieces server (lit.length + rounds) text id =
        lit.map .char ++ pointerPieces server rounds text (id + lit.length) := by
  intro lit
  induction lit with
  | nil =>
    intro id htext h
    simp
  | cons b lit ih =>
    intro id htext h
    have hb : ¬ [36, 123] <+: b :: (lit ++ tail) := h 0 (Nat.succ_pos _)
    have hnext : text.drop (id + 1) = lit ++ tail := by
      rw [← List.drop_drop, htext]
      rfl
    rw [List.length_cons, Nat.add_right_comm, pointerPieces, htext]
    simp only [List.cons_append, if_neg hb]
    rw [ih hnext fun k hk => h (k + 1) (Nat.succ_lt_succ hk), Nat.add_assoc, Nat.add_comm 1]
    rfl

theorem pointerPieces_end {rounds : Nat} {text : List UInt8} {id : Nat} (h : text.drop id = []) :
    pointerPieces server rounds text id = [] := by
  cases rounds with
  | zero => rfl
  | succ rounds => rw [pointerPieces, h]

/-- What is never closed is no variable. -/
theorem pieces_unclosed : ∀ {l : List UInt8}, 125 ∉ l → pieces l = l.map .char := by
  intro l
  induction l with
  | nil =>
    intro _
    rw [pieces]
    rfl
  | cons b l ih =>
    intro h
    rw [List.mem_cons, not_or] at h
    rw [pieces, if_neg fun hopen => h.2 (List.mem_of_mem_drop hopen.2), ih h.2]
    rfl

/-- The first variable that opens. -/
theorem exists_opens : ∀ {l : List UInt8}, [36, 123] <:+: l →
    ∃ lit tail, l = lit ++ 36 :: 123 :: tail ∧ ∀ k < lit.length, ¬ [36, 123] <+: l.drop k := by
  intro l
  induction l with
  | nil =>
    intro h
    exact absurd (List.infix_nil.1 h) (by simp)
  | cons b l ih =>
    intro h
    by_cases hb : [36, 123] <+: b :: l
    · obtain ⟨tail, rfl, rfl⟩ := opens_iff.1 hb
      exact ⟨[], tail, rfl, fun k hk => absurd hk (Nat.not_lt_zero k)⟩
    · obtain ⟨lit, tail, hl, hlit⟩ := ih ((List.infix_cons_iff.1 h).resolve_left hb)
      refine ⟨b :: lit, tail, by rw [hl]; rfl, fun k hk => ?_⟩
      cases k with
      | zero => exact hb
      | succ k => exact hlit k (Nat.lt_of_succ_lt_succ hk)

end

/-! ## When the id is right -/

/-- `build_id` returns the template with its variables replaced. -/
def BuildsId (server : CString → Answer) (template : CString) : Prop :=
  ∃ id, buildId server (replyBuf (.value template)) = .ok id ∧
    id.bytes = expand (valueOf server) (pieces template.bytes)

section
variable {template : CString}

theorem buildsId_iff (hlen : template.bytes.length ≤ 510) (server : CString → Answer) :
    BuildsId server template ↔ Fits server 256 (readPieces server template) ∧
      expand (copied server) (readPieces server template) =
        expand (valueOf server) (pieces template.bytes) := by
  obtain ⟨hok, hfault⟩ := buildId_eq server hlen
  refine ⟨?_, ?_⟩
  · rintro ⟨id, hid, hbytes⟩
    by_cases hfits : Fits server 256 (readPieces server template)
    · obtain ⟨id', hid', hbytes'⟩ := hok hfits
      cases hid.symm.trans hid'
      exact ⟨hfits, hbytes'.symm.trans hbytes⟩
    · rw [hfault hfits] at hid
      cases hid
  · rintro ⟨hfits, hsame⟩
    obtain ⟨id, hid, hbytes⟩ := hok hfits
    exact ⟨id, hid, hbytes.trans hsame⟩

/-- A template in which no variable opens. -/
theorem buildsId_plain (hlen : template.bytes.length ≤ 510) (h : ¬ [36, 123] <:+: template.bytes)
    (server : CString → Answer)
    (hexpand : (expand (valueOf server) (pieces template.bytes)).length ≤ 255) :
    BuildsId server template := by
  have hopens : ∀ k < template.bytes.length, ¬ [36, 123] <+: (template.bytes ++ []).drop k := by
    intro k _ hk
    rw [List.append_nil] at hk
    exact h (hk.isInfix.trans (List.drop_suffix k _).isInfix)
  have hpieces : pieces template.bytes = template.bytes.map .char := by
    have hchars := pieces_chars hopens
    rw [pieces] at hchars
    simpa using hchars
  have hread : readPieces server template = template.bytes.map .char := by
    have hrest := @pointerPieces_chars server [] (512 - template.bytes.length) (62 :: template.bytes)
      template.bytes 1 (by simp) hopens
    have hend : (62 :: template.bytes).drop (1 + template.bytes.length) = [] := by simp [Nat.add_comm]
    rw [show template.bytes.length + (512 - template.bytes.length) = 512 by omega,
      pointerPieces_end hend, List.append_nil] at hrest
    exact hrest
  rw [hpieces, expand_chars] at hexpand
  rw [buildsId_iff hlen, hread, hpieces, expand_chars, expand_chars]
  exact ⟨Fits.chars (by omega), rfl⟩

/-- What is read of a template up to its first variable, and behind it. -/
theorem readPieces_opens (hlen : template.bytes.length ≤ 510) (server : CString → Answer)
    {lit tail : List UInt8} (htemplate : template.bytes = lit ++ 36 :: 123 :: tail)
    (hlit : ∀ k < lit.length, ¬ [36, 123] <+: template.bytes.drop k) :
    let next := 1 + lit.length + 2 + (varName tail).length
    readPieces server template = lit.map .char ++ .var (varName tail) ::
      pointerPieces server (511 - lit.length) (reply server (varName tail))
        (if 125 ∈ tail then next + 1 else next) := by
  intro next
  have hlength := congrArg List.length htemplate
  simp only [List.length_append, List.length_cons] at hlength
  rw [htemplate] at hlit
  have hdrop : (62 :: template.bytes).drop 1 = lit ++ 36 :: 123 :: tail := by
    rw [htemplate]
    rfl
  have hread := @pointerPieces_chars server _ (511 - lit.length + 1) _ lit 1 hdrop hlit
  rw [show lit.length + (511 - lit.length + 1) = 512 by omega] at hread
  have hvar : (62 :: template.bytes).drop (1 + lit.length) = 36 :: 123 :: tail := by
    rw [← List.drop_drop, hdrop, List.drop_left]
  rw [readPieces, hread, pointerPieces, hvar]
  simp [next]

/-- An error text can have its last byte at any index of the buffer. -/
theorem exists_err {next : Nat} (h : 4 ≤ next) (hlast : next < 511) :
    ∃ info, ((Answer.err info).bytes.take 511).drop next = [120] := by
  have hinfo : ∀ b ∈ List.replicate (next - 3) (120 : UInt8), b ≠ 0 := fun b hb => by
    rw [List.eq_of_mem_replicate hb]
    decide
  have herr : (bytesOf "!ERR").length = 4 := rfl
  refine ⟨⟨List.replicate (next - 3) 120, hinfo⟩, ?_⟩
  show ((bytesOf "!ERR" ++ List.replicate (next - 3) 120).take 511).drop next = [120]
  rw [List.take_of_length_le (by rw [List.length_append, List.length_replicate, herr]; omega),
    List.drop_append, List.drop_of_length_le (by omega), List.drop_replicate, herr,
    show next - 3 - (next - 4) = 1 by omega]
  rfl

/-- A template in which a variable opens is expanded wrongly for some answers: nothing is read behind the
variable, or a byte is where the template has ended. -/
theorem exists_not_buildsId (hlen : template.bytes.length ≤ 510) (h : [36, 123] <:+: template.bytes)
    (hshort : (expand (fun _ => []) (pieces template.bytes)).length ≤ 255) :
    ∃ server, (expand (valueOf server) (pieces template.bytes)).length ≤ 255 ∧
      ¬ BuildsId server template := by
  obtain ⟨lit, tail, htemplate, hlit⟩ := exists_opens h
  have hpieces : expand (fun _ => []) (pieces template.bytes) =
      lit ++ expand (fun _ => []) (pieces (36 :: 123 :: tail)) := by
    rw [htemplate] at hlit ⊢
    rw [pieces_chars hlit, expand_append, expand_chars]
  by_cases hrest : expand (fun _ => []) (pieces template.bytes) = lit
  · have hclosed : 125 ∈ tail := by
      by_contra hopen
      rw [hpieces, pieces_unclosed (by simp [hopen]), expand_chars] at hrest
      simp at hrest
    have hread := fun server => readPieces_opens hlen server htemplate hlit
    simp only [if_pos hclosed] at hread
    generalize hnext : 1 + lit.length + 2 + (varName tail).length + 1 = next at hread
    by_cases hlast : next < 511
    · obtain ⟨info, hinfo⟩ := exists_err (by omega) hlast
      refine ⟨fun _ => .err info, hshort, ?_⟩
      rw [buildsId_iff hlen, hread]
      rintro ⟨-, hsame⟩
      have hone := @pointerPieces_chars (fun _ => .err info) [] (510 - lit.length)
        (reply (fun _ => .err info) (varName tail)) [120] next hinfo (by decide)
      have hend : (reply (fun _ => .err info) (varName tail)).drop (next + 1) = [] := by
        show ((Answer.err info).bytes.take 511).drop (next + 1) = []
        rw [← List.drop_drop, hinfo]
        rfl
      rw [List.length_singleton, pointerPieces_end hend, List.append_nil,
        show 1 + (510 - lit.length) = 511 - lit.length by omega] at hone
      rw [hone, expand_append, expand_chars] at hsame
      have hlong := congrArg List.length (hsame.trans hrest)
      rw [List.length_append] at hlong
      exact absurd hlong (by simp [expand])
    · refine ⟨fun _ => .err ⟨[], fun _ h => (by cases h)⟩, hshort, ?_⟩
      rw [buildsId_iff hlen, hread]
      rintro ⟨hfits, -⟩
      have hroom := hfits.drop_chars.1
      omega
  · refine ⟨fun _ => .value ⟨[], fun _ h => (by cases h)⟩, hshort, ?_⟩
    rw [buildsId_iff hlen, readPieces_opens hlen _ htemplate hlit]
    rintro ⟨-, hsame⟩
    have hend : ∀ {next}, 1 ≤ next →
        (reply (fun _ => .value ⟨[], fun _ h => (by cases h)⟩) (varName tail)).drop next = [] :=
      fun hnext => List.drop_of_length_le hnext
    rw [pointerPieces_end (hend (by split <;> omega)), expand_append, expand_chars] at hsame
    refine hrest (Eq.trans hsame.symm ?_)
    exact List.append_nil lit

/-- **The device id.** `build_id` is right for a template and answers exactly where there is room and what
the pointer reads, in one answer after the other, comes to the same as the template; and for a template
and all answers exactly where no variable opens in it, or where what is outside of its variables is too
long already. -/
theorem buildId_iff (hlen : template.bytes.length ≤ 510) :
    (∀ server, BuildsId server template ↔ Fits server 256 (readPieces server template) ∧
      expand (copied server) (readPieces server template) =
        expand (valueOf server) (pieces template.bytes)) ∧
    ((∀ server, (expand (valueOf server) (pieces template.bytes)).length ≤ 255 →
        BuildsId server template) ↔
      ¬ [36, 123] <:+: template.bytes ∨ 255 < (expand (fun _ => []) (pieces template.bytes)).length) := by
  refine ⟨buildsId_iff hlen, ?_⟩
  refine ⟨?_, ?_⟩
  · intro h
    by_contra hnot
    rw [not_or, not_not, Nat.not_lt] at hnot
    obtain ⟨server, hshort, hwrong⟩ := exists_not_buildsId hlen hnot.1 hnot.2
    exact hwrong (h server hshort)
  · rintro (hplain | hlong) server hshort
    · exact buildsId_plain hlen hplain server hshort
    · have hle := expand_length_le (valueOf server) (pieces template.bytes)
      omega

end

/-- The template `${SN}`. -/
def serialTemplate : CString := ⟨[36, 123, 83, 78, 125], by decide +kernel⟩

theorem buildId_iff_serial :
    (∀ server, BuildsId server serialTemplate ↔ Fits server 256 (readPieces server serialTemplate) ∧
      expand (copied server) (readPieces server serialTemplate) =
        expand (valueOf server) (pieces serialTemplate.bytes)) ∧
    ((∀ server, (expand (valueOf server) (pieces serialTemplate.bytes)).length ≤ 255 →
        BuildsId server serialTemplate) ↔
      ¬ [36, 123] <:+: serialTemplate.bytes ∨
        255 < (expand (fun _ => []) (pieces serialTemplate.bytes)).length) :=
  buildId_iff (by decide)

/-- A serial number of eight bytes is longer than the template, and its end is read as the rest of it. -/
theorem buildId_twice :
    let server : CString → Answer := fun _ => .value (ofBuf (bytesOf "12345678"))
    expand (valueOf server) (pieces serialTemplate.bytes) = bytesOf "12345678" ∧
      (∃ id, buildId server (replyBuf (.value serialTemplate)) = .ok id ∧
        id.bytes = bytesOf "12345678678") ∧ ¬ BuildsId server serialTemplate := by
  intro server
  have hpieces : pieces serialTemplate.bytes = [.var [83, 78]] := by
    simp [serialTemplate, pieces, varName]
  have hread : readPieces server serialTemplate = [.var [83, 78], .char 54, .char 55, .char 56] := rfl
  have hfits : Fits server 256 [.var [83, 78], .char 54, .char 55, .char 56] :=
    ⟨by decide, by decide, by decide, by decide, by decide, by unfold Fits; decide⟩
  obtain ⟨id, hid, hbytes⟩ := (buildId_eq server (by decide)).1 (hread ▸ hfits)
  have hvalue : expand (valueOf server) (pieces serialTemplate.bytes) = bytesOf "12345678" := by
    rw [hpieces]
    rfl
  have htwice : id.bytes = bytesOf "12345678678" := by
    rw [hbytes, hread]
    rfl
  refine ⟨hvalue, ⟨id, hid, htwice⟩, ?_⟩
  rintro ⟨id', hid', hbytes'⟩
  cases hid.symm.trans hid'
  rw [htwice, hvalue] at hbytes'
  exact absurd hbytes' (by decide)

end Radmcli
