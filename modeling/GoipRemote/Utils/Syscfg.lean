import GoipRemote.Lib.CString
import GoipRemote.Lib.Runs

/-!
# The client of the configuration server (`utils/syscfg.c`)

Requests and replies are datagrams on one socket, and whoever reads next gets the earliest reply that
nobody has read: `Wire.queue` is the list of these. `sendto` and `recvfrom` succeed here, but a `recvfrom`
waits as long as there is no reply. It then is a `fault`, and so is a loop that has not ended after the
given number of rounds.

The handler of `syscfg_enum` may make such calls too (`Script`), while the rest of the list waits to be
read. `Wire.log` notes each call that returned, with the replies that it found and that it left.

`syscfgPaired_iff` says for which sequences of calls each call reads the replies to its own request and no
others: `syscfg_enum` ends on `!OK` alone, gives up on a line without `=`, and leaves its other replies to
a call that its handler makes.
-/

namespace Utils

open CString

abbrev Datagram := List UInt8

/-- `syscfg_p_write`, out of a buffer of 512 bytes, and the server's replies. -/
def syscfgPWrite (text : List UInt8) (replies queue : List Datagram) : Res (List Datagram) :=
  if text.length > 512 then .fault else .ok (queue ++ replies)

/-- `syscfg_p_read`: what is in the buffer, and the replies behind. -/
def syscfgPRead (bufsiz : Nat) : List Datagram → Res (List UInt8 × List Datagram)
  | [] => .fault
  | reply :: queue => .ok (reply.take bufsiz, queue)

/-- `getsyscfg`. -/
def getsyscfg (var : CString) (replies queue : List Datagram) :
    Res (List Datagram × Option CString) := do
  let queue ← syscfgPWrite (63 :: var.bytes) replies queue
  let (buf, queue) ← syscfgPRead 511 queue
  return (queue, if buf.head? = some 62 then some (ofBuf buf.tail) else none)

/-- A request that is answered `!OK` or not. -/
def syscfgRequest (text : List UInt8) (replies queue : List Datagram) : Res (List Datagram × Int) := do
  let queue ← syscfgPWrite text replies queue
  let (buf, queue) ← syscfgPRead 512 queue
  return (queue, if strncmp (ofBuf buf) (ofBuf (bytesOf "!OK")) 3 = 0 then 0 else -1)

/-- `setsyscfg`. -/
def setsyscfg (var value : CString) : List Datagram → List Datagram → Res (List Datagram × Int) :=
  syscfgRequest (var.bytes ++ 61 :: value.bytes)

/-- `syscfg_apply`. -/
def syscfgApply : List Datagram → List Datagram → Res (List Datagram × Int) :=
  syscfgRequest (bytesOf "%apply")

/-- `syscfg_save`. -/
def syscfgSave : List Datagram → List Datagram → Res (List Datagram × Int) :=
  syscfgRequest (bytesOf "%save")

/-- `syscfg_reload`. -/
def syscfgReload : List Datagram → List Datagram → Res (List Datagram × Int) :=
  syscfgRequest (bytesOf "%reload")

/-- The variable and the value of a line, behind its `>`. -/
def enumLine (line : CString) : Option (CString × CString) :=
  match line.bytes.dropWhile (· ≠ 61) with
  | 61 :: 34 :: value => some (ofBuf (line.bytes.takeWhile (· ≠ 61)), ofBuf (value.takeWhile (· ≠ 34)))
  | 61 :: value => some (ofBuf (line.bytes.takeWhile (· ≠ 61)), ofBuf value)
  | _ => none

/-! ## Calls and the server's replies -/

/-- The server's reply to a command, or its last one to `%list`. -/
inductive Reply where
  | ok
  | err (info : CString)
  deriving DecidableEq, Repr

/-- The server's reply to a query. -/
inductive Answer where
  | value (value : CString)
  | err (info : CString)
  deriving DecidableEq, Repr

def Reply.bytes : Reply → Datagram
  | ok => bytesOf "!OK"
  | err info => bytesOf "!ERR" ++ info.bytes

def Answer.bytes : Answer → Datagram
  | value text => 62 :: text.bytes
  | err info => bytesOf "!ERR" ++ info.bytes

/-- A line of the list. -/
def listLine (line : CString × CString) : Datagram := 62 :: line.1.bytes ++ 61 :: line.2.bytes

/-- What a call returns. -/
inductive Ret where
  | text (text : Option CString)
  | status (status : Int)
  deriving DecidableEq, Repr

/-- `NULL`, or the status of an error. -/
def Ret.Error (ret : Ret) : Prop := ret = .text none ∨ ret = .status (-1)

mutual

/-- A call, and what the server replies to it. The handler of `syscfg_enum` is given the number of its call,
the variable and its value. -/
inductive Call where
  | get (var : CString) (answer : Answer)
  | set (var value : CString) (reply : Reply)
  | enum (handler : Nat → CString → CString → Script) (lines : List (CString × CString)) (reply : Reply)
  | apply (reply : Reply)
  | save (reply : Reply)
  | reload (reply : Reply)

/-- What a handler does: it makes calls, each with what the one before returned, and answers. -/
inductive Script where
  | done (res : Int)
  | call (c : Call) (next : Ret → Script)

end

namespace Call

def replies : Call → List Datagram
  | get _ answer => [answer.bytes]
  | set _ _ reply => [reply.bytes]
  | enum _ lines reply => lines.map listLine ++ [reply.bytes]
  | apply reply => [reply.bytes]
  | save reply => [reply.bytes]
  | reload reply => [reply.bytes]

/-- The reply of the call is `!ERR`. -/
def Refused : Call → Prop
  | get _ answer => ∃ info, answer = .err info
  | set _ _ reply => reply ≠ .ok
  | enum _ _ reply => reply ≠ .ok
  | apply reply => reply ≠ .ok
  | save reply => reply ≠ .ok
  | reload reply => reply ≠ .ok

end Call

/-- A call that returned: the replies that nobody had read before it and after it. -/
structure Record where
  call : Call
  before : List Datagram
  after : List Datagram
  ret : Ret

/-- The call found no replies to other requests, left none to its own, and returned an error when its reply
was `!ERR`. -/
def Record.Paired (r : Record) : Prop :=
  r.before = [] ∧ r.after = [] ∧ (r.call.Refused → r.ret.Error)

/-- The replies on their way, and the calls that returned (module doc), the last one first. -/
structure Wire where
  queue : List Datagram
  log : List Record

/-! ## Runs of calls -/

/-- The loop of `syscfg_enum`, of at most the given number of rounds, from the handler's call `n` on. -/
def syscfgEnumLoop (handler : Nat → CString → CString → Wire → Res (Wire × Int)) :
    Nat → Nat → Bool → Wire → Res (Wire × Int)
  | 0, _, _, _ => .fault
  | rounds + 1, n, skip, w => do
    let (buf, queue) ← syscfgPRead 511 w.queue
    let buf := ofBuf buf
    let w := { w with queue := queue }
    if strcmp (ofBuf (bytesOf "!OK")) buf = 0 then return (w, 0)
    else if buf.bytes.head? = some 62 ∧ ¬ skip then
      match enumLine (buf.drop 1) with
      | none => return (w, -1)
      | some (var, value) => do
        let (w, res) ← handler n var value w
        syscfgEnumLoop handler rounds (n + 1) (res ≠ 0) w
    else syscfgEnumLoop handler rounds n skip w

/-- `syscfg_enum`. -/
def syscfgEnum (handler : Nat → CString → CString → Wire → Res (Wire × Int)) (rounds : Nat)
    (replies : List Datagram) (w : Wire) : Res (Wire × Int) := do
  let queue ← syscfgPWrite (bytesOf "%list") replies w.queue
  syscfgEnumLoop handler rounds 0 false { w with queue := queue }

/-- Note that the call has returned; `w` is the wire before it. -/
def Call.returned (c : Call) (w : Wire) (r : Res (Wire × Ret)) : Res (Wire × Ret) := do
  let (w', ret) ← r
  return ({ w' with log := ⟨c, w.queue, w'.queue, ret⟩ :: w'.log }, ret)

/-- A call that reads one reply. -/
def Wire.request (w : Wire) (r : List Datagram → Res (List Datagram × Int)) : Res (Wire × Ret) := do
  let (queue, res) ← r w.queue
  return ({ w with queue := queue }, .status res)

mutual

/-- A call, whose loops have at most `rounds` rounds. -/
def Call.run (rounds : Nat) : Call → Wire → Res (Wire × Ret)
  | .get var answer, w => Call.returned (.get var answer) w do
    let (queue, text) ← getsyscfg var (Call.get var answer).replies w.queue
    return ({ w with queue := queue }, .text text)
  | .set var value reply, w => Call.returned (.set var value reply) w
    (w.request (setsyscfg var value (Call.set var value reply).replies))
  | .enum handler lines reply, w => Call.returned (.enum handler lines reply) w do
    let (w, res) ← syscfgEnum (fun n var value w => Script.run rounds (handler n var value) w) rounds
      (Call.enum handler lines reply).replies w
    return (w, .status res)
  | .apply reply, w => Call.returned (.apply reply) w (w.request (syscfgApply (Call.apply reply).replies))
  | .save reply, w => Call.returned (.save reply) w (w.request (syscfgSave (Call.save reply).replies))
  | .reload reply, w => Call.returned (.reload reply) w
    (w.request (syscfgReload (Call.reload reply).replies))

/-- The calls of a handler, and its answer. -/
def Script.run (rounds : Nat) : Script → Wire → Res (Wire × Int)
  | .done res, w => .ok (w, res)
  | .call c next, w => do
    let (w, ret) ← Call.run rounds c w
    Script.run rounds (next ret) w

end

/-- A call of the program. -/
def syscfgStep (rounds : Nat) (w : Wire) (c : Call) : Res Wire := do
  let (w, _) ← c.run rounds w
  return w

/-- The lines that `syscfg_enum` looks at, up to the one at which its handler needs no more, have their
`=` within the buffer, and the handler makes no call of its own at them. -/
def Readable (handler : Nat → CString → CString → Script) : Nat → List (CString × CString) → Prop
  | _, [] => True
  | n, line :: lines => 61 ∈ (listLine line).take 511 ∧
    ∀ var value, enumLine ((ofBuf ((listLine line).take 511)).drop 1) = some (var, value) →
      ∃ res, handler n var value = .done res ∧ (res = 0 → Readable handler (n + 1) lines)

/-- A name has at most 32 bytes. -/
def Call.Named : Call → Prop
  | get var _ => var.bytes.length ≤ 32
  | _ => True

/-- The list is not refused and its lines are readable, and what is set fits the buffer. -/
def Call.Ends : Call → Prop
  | set var value _ => var.bytes.length + 1 + value.bytes.length ≤ 512
  | enum handler lines reply => reply = .ok ∧ Readable handler 0 lines
  | _ => True

/-! ## One reply -/

section
variable {handler : Nat → CString → CString → Wire → Res (Wire × Int)} {rounds : Nat} {w w' : Wire}

theorem syscfgRequest_ok (reply : Reply) {text : List UInt8} (h : text.length ≤ 512) :
    syscfgRequest text [reply.bytes] [] = .ok ([], if reply = .ok then 0 else -1) := by
  unfold syscfgRequest syscfgPWrite
  rw [if_neg (by omega)]
  cases reply with
  | ok => decide
  | err info => rfl

theorem syscfgRequest_long {text : List UInt8} (replies queue : List Datagram) (h : 512 < text.length) :
    syscfgRequest text replies queue = .fault := by
  unfold syscfgRequest syscfgPWrite
  rw [if_pos h]
  rfl

theorem getsyscfg_ok {var : CString} (h : var.bytes.length ≤ 32) (answer : Answer) :
    ∃ text, getsyscfg var [answer.bytes] [] = .ok ([], text) ∧
      ((∃ info, answer = .err info) → text = none) := by
  unfold getsyscfg syscfgPWrite
  rw [if_neg (by rw [List.length_cons]; omega)]
  cases answer with
  | value text =>
    refine ⟨_, rfl, ?_⟩
    rintro ⟨info, heq⟩
    cases heq
  | err info => exact ⟨none, rfl, fun _ => rfl⟩

/-! ## The list -/

theorem listLine_buf (line : CString × CString) :
    (ofBuf ((listLine line).take 511)).bytes = (listLine line).take 511 := by
  refine ofBuf_bytes fun b hb => ?_
  have hb := List.mem_of_mem_take hb
  simp only [listLine, List.mem_append, List.mem_cons] at hb
  rcases hb with (rfl | hb) | rfl | hb
  · decide
  · exact line.1.ne_zero b hb
  · decide
  · exact line.2.ne_zero b hb

theorem enumLine_isSome (line : CString) : (enumLine line).isSome ↔ 61 ∈ line.bytes := by
  unfold enumLine
  refine ⟨?_, ?_⟩
  · intro h
    by_contra hmem
    have hall : line.bytes.dropWhile (· ≠ 61) = [] := by
      rw [List.dropWhile_eq_nil_iff]
      intro b hb
      simpa using ne_of_mem_of_not_mem hb hmem
    rw [hall] at h
    cases h
  · intro hmem
    obtain ⟨var, value, hsplit, hvar⟩ := List.eq_append_cons_of_mem hmem
    have hdrop : line.bytes.dropWhile (· ≠ 61) = 61 :: value := by
      rw [hsplit, List.dropWhile_append_of_pos fun b hb => by simpa using ne_of_mem_of_not_mem hb hvar]
      rfl
    rw [hdrop]
    split <;> simp_all

/-- A line is read when its `=` is within the buffer; the `>` in front is none. -/
theorem mem_listLine_buf (line : CString × CString) :
    61 ∈ (listLine line).take 511 ↔ (enumLine ((ofBuf ((listLine line).take 511)).drop 1)).isSome := by
  rw [enumLine_isSome]
  show _ ↔ 61 ∈ (ofBuf ((listLine line).take 511)).bytes.drop 1
  rw [listLine_buf]
  show 61 ∈ 62 :: _ ↔ 61 ∈ List.drop 1 (62 :: _)
  simp

variable (handler rounds) in
/-- A round on a line of the list. -/
theorem syscfgEnumLoop_line (n : Nat) (skip : Bool) (line : CString × CString) (queue : List Datagram)
    (log : List Record) :
    syscfgEnumLoop handler (rounds + 1) n skip ⟨listLine line :: queue, log⟩ =
      if skip = true then syscfgEnumLoop handler rounds n skip ⟨queue, log⟩
      else
        match enumLine ((ofBuf ((listLine line).take 511)).drop 1) with
        | none => .ok (⟨queue, log⟩, -1)
        | some (var, value) => handler n var value ⟨queue, log⟩ >>= fun (w, res) =>
          syscfgEnumLoop handler rounds (n + 1) (res ≠ 0) w := by
  have hbytes := listLine_buf line
  have hhead : (ofBuf ((listLine line).take 511)).bytes.head? = some 62 := by
    rw [hbytes]
    rfl
  have hne : strcmp (ofBuf (bytesOf "!OK")) (ofBuf ((listLine line).take 511)) ≠ 0 := by
    intro hzero
    rw [← strcmp_eq_zero.1 hzero] at hhead
    revert hhead
    decide
  rw [syscfgEnumLoop]
  simp only [syscfgPRead, Res.ok_bind, if_neg hne, hhead, true_and]
  cases skip
  · rfl
  · rfl

theorem syscfgEnumLoop_ok (n : Nat) (skip : Bool) (log : List Record) :
    syscfgEnumLoop handler (rounds + 1) n skip ⟨[Reply.ok.bytes], log⟩ = .ok (⟨[], log⟩, 0) := by
  rfl

/-- After `!ERR`, the next reply is waited for. -/
theorem syscfgEnumLoop_err (info : CString) (n : Nat) (skip : Bool) (log : List Record) :
    syscfgEnumLoop handler rounds n skip ⟨[(Reply.err info).bytes], log⟩ = .fault := by
  cases rounds with
  | zero => rfl
  | succ rounds =>
    cases rounds with
    | zero => rfl
    | succ rounds => rfl

/-- The lines that the handler does not need, and the last reply. -/
theorem syscfgEnumLoop_skip (reply : Reply) (n : Nat) (log : List Record) :
    ∀ {lines : List (CString × CString)} {rounds : Nat},
      (∀ w' res, syscfgEnumLoop handler rounds n true ⟨lines.map listLine ++ [reply.bytes], log⟩ =
        .ok (w', res) → reply = .ok) ∧
      (reply = .ok → lines.length < rounds →
        syscfgEnumLoop handler rounds n true ⟨lines.map listLine ++ [reply.bytes], log⟩ =
          .ok (⟨[], log⟩, 0)) := by
  intro lines
  induction lines with
  | nil =>
    intro rounds
    refine ⟨fun w' res hrun => ?_, fun hok hr => ?_⟩
    · cases reply with
      | ok => rfl
      | err info =>
        rw [List.map_nil, List.nil_append, syscfgEnumLoop_err] at hrun
        cases hrun
    · obtain ⟨rounds, rfl⟩ := Nat.exists_eq_succ_of_ne_zero (Nat.ne_of_gt hr)
      rw [hok]
      exact syscfgEnumLoop_ok n true log
  | cons line lines ih =>
    intro rounds
    cases rounds with
    | zero => exact ⟨fun _ _ hrun => (nomatch hrun), fun _ hr => absurd hr (Nat.not_lt_zero _)⟩
    | succ rounds =>
      rw [List.map_cons, List.cons_append, syscfgEnumLoop_line, if_pos rfl]
      exact ⟨ih.1, fun hok hr => ih.2 hok (Nat.lt_of_succ_lt_succ hr)⟩

/-! ## The log grows -/

theorem Call.returned_ok {c : Call} {r : Res (Wire × Ret)} {ret : Ret}
    (h : c.returned w r = .ok (w', ret)) :
    ∃ w₁, r = .ok (w₁, ret) ∧ w' = { w₁ with log := ⟨c, w.queue, w₁.queue, ret⟩ :: w₁.log } := by
  obtain ⟨⟨w₁, ret₁⟩, hr, hrun⟩ := Res.bind_eq_ok.1 h
  cases hrun
  exact ⟨w₁, hr, rfl⟩

theorem Wire.request_ok {r : List Datagram → Res (List Datagram × Int)} {ret : Ret}
    (h : w.request r = .ok (w', ret)) : w'.log = w.log := by
  obtain ⟨⟨queue, res⟩, -, hrun⟩ := Res.bind_eq_ok.1 h
  cases hrun
  rfl

theorem syscfgEnumLoop_grows
    (h : ∀ n var value w w' res, handler n var value w = .ok (w', res) → w.log <:+ w'.log) {n : Nat}
    {skip : Bool} {res : Int} (hrun : syscfgEnumLoop handler rounds n skip w = .ok (w', res)) :
    w.log <:+ w'.log := by
  induction rounds generalizing n skip w with
  | zero => cases hrun
  | succ rounds ih =>
    obtain ⟨⟨buf, queue⟩, -, hrun⟩ := Res.bind_eq_ok.1 hrun
    dsimp only at hrun
    split at hrun
    · cases hrun
      exact List.suffix_refl _
    split at hrun
    · split at hrun
      · cases hrun
        exact List.suffix_refl _
      · obtain ⟨⟨w₁, res₁⟩, hcall, hrun⟩ := Res.bind_eq_ok.1 hrun
        exact (h _ _ _ _ _ _ hcall).trans (ih hrun)
    · have hgrows := ih hrun
      exact hgrows

variable (rounds) in
mutual

/-- A call that returns is noted, on top of the calls that its handler made. -/
theorem Call.run_grows : ∀ (c : Call) {w w' : Wire} {ret : Ret}, c.run rounds w = .ok (w', ret) →
    ∃ log, w'.log = ⟨c, w.queue, w'.queue, ret⟩ :: log ∧ w.log <:+ log
  | .get var answer, w, w', ret, h => by
    obtain ⟨w₁, hr, rfl⟩ := Call.returned_ok h
    obtain ⟨⟨queue, text⟩, -, hrun⟩ := Res.bind_eq_ok.1 hr
    cases hrun
    exact ⟨_, rfl, List.suffix_refl _⟩
  | .set var value reply, w, w', ret, h => by
    obtain ⟨w₁, hr, rfl⟩ := Call.returned_ok h
    exact ⟨_, rfl, (Wire.request_ok hr) ▸ List.suffix_refl _⟩
  | .enum handler lines reply, w, w', ret, h => by
    obtain ⟨w₁, hr, rfl⟩ := Call.returned_ok h
    obtain ⟨⟨w₂, res⟩, henum, hrun⟩ := Res.bind_eq_ok.1 hr
    cases hrun
    obtain ⟨queue, -, hloop⟩ := Res.bind_eq_ok.1 henum
    have hgrows := syscfgEnumLoop_grows (fun n var value _ _ _ => Script.run_grows (handler n var value)) hloop
    exact ⟨_, rfl, hgrows⟩
  | .apply reply, w, w', ret, h => by
    obtain ⟨w₁, hr, rfl⟩ := Call.returned_ok h
    exact ⟨_, rfl, (Wire.request_ok hr) ▸ List.suffix_refl _⟩
  | .save reply, w, w', ret, h => by
    obtain ⟨w₁, hr, rfl⟩ := Call.returned_ok h
    exact ⟨_, rfl, (Wire.request_ok hr) ▸ List.suffix_refl _⟩
  | .reload reply, w, w', ret, h => by
    obtain ⟨w₁, hr, rfl⟩ := Call.returned_ok h
    exact ⟨_, rfl, (Wire.request_ok hr) ▸ List.suffix_refl _⟩

theorem Script.run_grows : ∀ (s : Script) {w w' : Wire} {res : Int}, s.run rounds w = .ok (w', res) →
    w.log <:+ w'.log
  | .done res, w, w', _, h => by
    cases h
    exact List.suffix_refl _
  | .call c next, w, w', res, h => by
    obtain ⟨⟨w₁, ret⟩, hcall, hrun⟩ := Res.bind_eq_ok.1 h
    obtain ⟨log, hlog, hsuffix⟩ := Call.run_grows c hcall
    have htail : w.log <:+ w₁.log := by
      rw [hlog]
      exact hsuffix.trans (List.suffix_cons _ _)
    exact htail.trans (Script.run_grows (next ret) hrun)

end

end

/-! ## The list -/

section
variable {handler : Nat → CString → CString → Script} {reply : Reply} {rounds : Nat}

/-- A handler that makes a call while there are replies left spoils the pairing. -/
theorem Script.run_call {c : Call} {next : Ret → Script} {w w' : Wire} {res : Int} (hqueue : w.queue ≠ [])
    (h : (Script.call c next).run rounds w = .ok (w', res)) : ∃ r ∈ w'.log, ¬ r.Paired := by
  obtain ⟨⟨w₁, ret⟩, hcall, hrun⟩ := Res.bind_eq_ok.1 h
  obtain ⟨log, hlog, -⟩ := Call.run_grows rounds c hcall
  have hmem : ⟨c, w.queue, w₁.queue, ret⟩ ∈ w₁.log := by
    rw [hlog]
    exact List.mem_cons_self
  exact ⟨_, (Script.run_grows rounds _ hrun).subset hmem, fun hpaired => hqueue hpaired.1⟩

/-- **The list.** When the loop returns and nothing is left or spoilt, the lines were readable and the list
was not refused. -/
theorem syscfgEnumLoop_readable : ∀ {lines : List (CString × CString)} {rounds' n : Nat} {log : List Record}
    {w : Wire} {res : Int},
    syscfgEnumLoop (fun n var value => (handler n var value).run rounds) rounds' n false
      ⟨lines.map listLine ++ [reply.bytes], log⟩ = .ok (w, res) →
    w.queue = [] → (∀ r ∈ w.log, r.Paired) → reply = .ok ∧ Readable handler n lines := by
  intro lines
  induction lines with
  | nil =>
    intro rounds' n log w res hrun _ _
    cases reply with
    | ok => exact ⟨rfl, trivial⟩
    | err info =>
      rw [List.map_nil, List.nil_append, syscfgEnumLoop_err] at hrun
      cases hrun
  | cons line lines ih =>
    intro rounds' n log w res hrun hqueue hlog
    cases rounds' with
    | zero => cases hrun
    | succ rounds' =>
      rw [List.map_cons, List.cons_append, syscfgEnumLoop_line, if_neg Bool.false_ne_true] at hrun
      rw [Readable, mem_listLine_buf]
      cases hline : enumLine ((ofBuf ((listLine line).take 511)).drop 1) with
      | none =>
        rw [hline] at hrun
        cases hrun
        simp at hqueue
      | some parsed =>
        obtain ⟨var, value⟩ := parsed
        rw [hline] at hrun
        obtain ⟨⟨w₁, res₁⟩, hcall, hrun⟩ := Res.bind_eq_ok.1 hrun
        cases hscript : handler n var value with
        | call c next =>
          rw [hscript] at hcall
          obtain ⟨r, hr, hnot⟩ := Script.run_call (by simp) hcall
          have hgrows := syscfgEnumLoop_grows
            (fun n var value _ _ _ => Script.run_grows rounds (handler n var value)) hrun
          exact absurd (hlog r (hgrows.subset hr)) hnot
        | done answer =>
          rw [hscript] at hcall
          cases hcall
          replace hrun : syscfgEnumLoop _ rounds' (n + 1) (decide (res₁ ≠ 0))
            ⟨lines.map listLine ++ [reply.bytes], log⟩ = .ok (w, res) := hrun
          have hrest : reply = .ok ∧ (res₁ = 0 → Readable handler (n + 1) lines) := by
            by_cases hzero : res₁ = 0
            · rw [decide_eq_false (not_not.2 hzero)] at hrun
              have hread := ih hrun hqueue hlog
              exact ⟨hread.1, fun _ => hread.2⟩
            · rw [decide_eq_true hzero] at hrun
              exact ⟨(syscfgEnumLoop_skip reply (n + 1) log).1 _ _ hrun, fun h => absurd h hzero⟩
          refine ⟨hrest.1, rfl, fun var' value' heq => ?_⟩
          cases heq
          exact ⟨res₁, hscript, hrest.2⟩

/-- Readable lines are read to the end. -/
theorem syscfgEnumLoop_of_readable : ∀ {lines : List (CString × CString)} {rounds' n : Nat}
    (log : List Record), Readable handler n lines → lines.length < rounds' →
    syscfgEnumLoop (fun n var value => (handler n var value).run rounds) rounds' n false
      ⟨lines.map listLine ++ [Reply.ok.bytes], log⟩ = .ok (⟨[], log⟩, 0) := by
  intro lines
  induction lines with
  | nil =>
    intro rounds' n log _ hr
    obtain ⟨rounds', rfl⟩ := Nat.exists_eq_succ_of_ne_zero (Nat.ne_of_gt hr)
    exact syscfgEnumLoop_ok n false log
  | cons line lines ih =>
    intro rounds' n log hread hr
    obtain ⟨rounds', rfl⟩ := Nat.exists_eq_succ_of_ne_zero (Nat.ne_of_gt (Nat.zero_lt_of_lt hr))
    have hlen : lines.length < rounds' := Nat.lt_of_succ_lt_succ hr
    obtain ⟨hmem, hscript⟩ := hread
    obtain ⟨⟨var, value⟩, hline⟩ := Option.isSome_iff_exists.1 ((mem_listLine_buf line).1 hmem)
    obtain ⟨res, hdone, hrest⟩ := hscript var value hline
    rw [List.map_cons, List.cons_append, syscfgEnumLoop_line, if_neg Bool.false_ne_true, hline]
    show (handler n var value).run rounds _ >>= _ = _
    rw [hdone]
    show syscfgEnumLoop _ rounds' (n + 1) (decide (res ≠ 0)) _ = _
    by_cases hzero : res = 0
    · rw [decide_eq_false (not_not.2 hzero)]
      exact ih log (hrest hzero) hlen
    · rw [decide_eq_true hzero]
      exact (syscfgEnumLoop_skip .ok (n + 1) log).2 rfl hlen

end

/-! ## Sequences of calls -/

section
variable {c : Call} {calls : List Call} {rounds : Nat} {w : Wire} {ret : Ret} {log : List Record}

theorem set_length {var value : CString} :
    (var.bytes ++ 61 :: value.bytes).length = var.bytes.length + 1 + value.bytes.length := by
  simp only [List.length_append, List.length_cons]
  omega

/-- A call that is paired, and whose handler makes only such calls, ends as it should. -/
theorem Call.ends_of_run (h : c.run rounds ⟨[], log⟩ = .ok (w, ret)) (hlog : ∀ r ∈ w.log, r.Paired) :
    c.Ends ∧ w.queue = [] := by
  obtain ⟨log', hw, -⟩ := Call.run_grows rounds c h
  have hqueue : w.queue = [] := by
    have hpaired := hlog ⟨c, [], w.queue, ret⟩ (by rw [hw]; exact List.mem_cons_self)
    exact hpaired.2.1
  refine ⟨?_, hqueue⟩
  cases c with
  | set var value reply =>
    by_contra hlong
    have hlong : 512 < (var.bytes ++ 61 :: value.bytes).length := by
      rw [set_length]
      exact not_le.1 hlong
    obtain ⟨w₁, hr, -⟩ := Call.returned_ok h
    obtain ⟨⟨queue, res⟩, hset, -⟩ := Res.bind_eq_ok.1 hr
    rw [setsyscfg, syscfgRequest_long _ _ hlong] at hset
    cases hset
  | enum handler lines reply =>
    obtain ⟨w₁, hr, rfl⟩ := Call.returned_ok h
    obtain ⟨⟨w₂, res⟩, henum, hrun⟩ := Res.bind_eq_ok.1 hr
    cases hrun
    -- the replies are those of the call alone
    obtain ⟨queue, hwrite, hloop⟩ := Res.bind_eq_ok.1 henum
    cases hwrite
    exact syscfgEnumLoop_readable hloop hqueue fun r hr => hlog r (List.mem_cons_of_mem _ hr)
  | _ => trivial

/-- The lines of the list. -/
def Call.lines : Call → List (CString × CString)
  | enum _ lines _ => lines
  | _ => []

theorem Call.run_request {text : List UInt8} {reply : Reply} (hlen : text.length ≤ 512)
    (hrun : c.run rounds ⟨[], log⟩ =
      c.returned ⟨[], log⟩ (Wire.request ⟨[], log⟩ (syscfgRequest text [reply.bytes])))
    (hrefused : c.Refused ↔ reply ≠ .ok) :
    ∃ ret, c.run rounds ⟨[], log⟩ = .ok (⟨[], ⟨c, [], [], ret⟩ :: log⟩, ret) ∧ (c.Refused → ret.Error) := by
  rw [Wire.request, syscfgRequest_ok reply hlen] at hrun
  refine ⟨_, hrun, fun h => .inr ?_⟩
  rw [if_neg (hrefused.1 h)]

/-- A call that ends as it should is paired, and its handler makes no calls. -/
theorem Call.run_of_ends (hname : c.Named) (hends : c.Ends) (hrounds : c.lines.length < rounds)
    (log : List Record) :
    ∃ ret, c.run rounds ⟨[], log⟩ = .ok (⟨[], ⟨c, [], [], ret⟩ :: log⟩, ret) ∧ (c.Refused → ret.Error) := by
  cases c with
  | get var answer =>
    obtain ⟨text, hrun, herr⟩ := getsyscfg_ok hname answer
    refine ⟨.text text, ?_, fun hrefused => .inl (by rw [herr hrefused])⟩
    show Call.returned _ _ (getsyscfg var [answer.bytes] [] >>= _) = _
    rw [hrun]
    rfl
  | set var value reply => exact run_request (set_length ▸ hends) rfl Iff.rfl
  | enum handler lines reply =>
    obtain ⟨rfl, hread⟩ := hends
    refine ⟨.status 0, ?_, fun hrefused => absurd rfl hrefused⟩
    show Call.returned _ _ (syscfgEnumLoop _ rounds 0 false ⟨lines.map listLine ++ [Reply.ok.bytes], log⟩ >>= _)
      = _
    rw [syscfgEnumLoop_of_readable log hread hrounds]
    rfl
  | apply reply => exact run_request (by decide) rfl Iff.rfl
  | save reply => exact run_request (by decide) rfl Iff.rfl
  | reload reply => exact run_request (by decide) rfl Iff.rfl

theorem syscfgStep_grows {w₁ : Wire} (h : Runs.run (syscfgStep rounds) calls w₁ = .ok w) :
    w₁.log <:+ w.log := by
  induction calls generalizing w₁ with
  | nil =>
    cases h
    exact List.suffix_refl _
  | cons c calls ih =>
    obtain ⟨w₂, hstep, hrest⟩ := Res.bind_eq_ok.1 h
    obtain ⟨⟨w₃, ret⟩, hcall, hw⟩ := Res.bind_eq_ok.1 hstep
    cases hw
    obtain ⟨log, hnoted, hsuffix⟩ := Call.run_grows rounds c hcall
    have htail : w₁.log <:+ w₂.log := hnoted ▸ hsuffix.trans (List.suffix_cons _ _)
    exact htail.trans (ih hrest)

/-- **Run lemma.** Calls that return and are paired end as they should. -/
theorem ends_of_run (h : Runs.run (syscfgStep rounds) calls ⟨[], log⟩ = .ok w)
    (hlog : ∀ r ∈ w.log, r.Paired) : ∀ c ∈ calls, c.Ends := by
  induction calls generalizing log with
  | nil => simp
  | cons c calls ih =>
    obtain ⟨w₁, hstep, hrest⟩ := Res.bind_eq_ok.1 h
    obtain ⟨⟨w₂, ret⟩, hcall, hw⟩ := Res.bind_eq_ok.1 hstep
    cases hw
    obtain ⟨hends, hqueue⟩ := Call.ends_of_run hcall fun r hr => hlog r ((syscfgStep_grows hrest).subset hr)
    obtain ⟨queue, log₁⟩ := w₁
    obtain rfl : queue = [] := hqueue
    exact List.forall_mem_cons.2 ⟨hends, ih hrest⟩

/-- **Run lemma.** Calls that end as they should return, and are paired. -/
theorem run_of_ends (hnamed : ∀ c ∈ calls, c.Named) (hends : ∀ c ∈ calls, c.Ends)
    (hrounds : ∀ c ∈ calls, c.lines.length < rounds) (hlog : ∀ r ∈ log, r.Paired) :
    ∃ w, Runs.run (syscfgStep rounds) calls ⟨[], log⟩ = .ok w ∧ ∀ r ∈ w.log, r.Paired := by
  induction calls generalizing log with
  | nil => exact ⟨_, rfl, hlog⟩
  | cons c calls ih =>
    rw [List.forall_mem_cons] at hnamed hends hrounds
    obtain ⟨ret, hrun, herror⟩ := Call.run_of_ends hnamed.1 hends.1 hrounds.1 log
    have hnoted : Record.Paired ⟨c, [], [], ret⟩ := ⟨rfl, rfl, herror⟩
    obtain ⟨w, hrest, hpaired⟩ := ih hnamed.2 hends.2 hrounds.2 (List.forall_mem_cons.2 ⟨hnoted, hlog⟩)
    refine ⟨w, ?_, hpaired⟩
    rw [Runs.run, syscfgStep, hrun]
    exact hrest

end

/-- **Requests and replies** stay paired over a sequence of calls when each list is answered `!OK`, its lines
have their `=` within the buffer and its handler makes no calls, and each setting fits the buffer; otherwise
they do not. -/
theorem syscfgPaired_iff {calls : List Call} (hnamed : ∀ c ∈ calls, c.Named) :
    (∃ rounds w, Runs.run (syscfgStep rounds) calls ⟨[], []⟩ = .ok w ∧ ∀ r ∈ w.log, r.Paired) ↔
      ∀ c ∈ calls, c.Ends := by
  refine ⟨fun ⟨rounds, w, hrun, hlog⟩ => ends_of_run hrun hlog, fun hends => ?_⟩
  have hrounds : ∀ c ∈ calls, c.lines.length < (calls.map fun c => c.lines.length).sum + 1 := fun c hc =>
    Nat.lt_succ_of_le (List.single_le_sum (by simp) _ (List.mem_map_of_mem hc))
  exact ⟨_, run_of_ends hnamed hends hrounds (by simp)⟩

/-- A list of two lines, a query and a command that is refused. -/
theorem syscfgPaired_iff_list :
    let line : CString × CString := (ofBuf (bytesOf "A"), ofBuf (bytesOf "1"))
    let calls : List Call := [.enum (fun n _ _ => .done n) [line, line] .ok,
      .get (ofBuf (bytesOf "A")) (.value (ofBuf (bytesOf "1"))), .save (.err (ofBuf (bytesOf ": flash")))]
    ∃ rounds w, Runs.run (syscfgStep rounds) calls ⟨[], []⟩ = .ok w ∧ ∀ r ∈ w.log, r.Paired := by
  intro line calls
  refine (@syscfgPaired_iff calls ?_).2 ?_
  · intro c hc
    simp only [calls, List.mem_cons, List.not_mem_nil, or_false] at hc
    rcases hc with rfl | rfl | rfl
    · trivial
    · show (1 : Nat) ≤ 32
      decide
    · trivial
  · intro c hc
    simp only [calls, List.mem_cons, List.not_mem_nil, or_false] at hc
    rcases hc with rfl | rfl | rfl
    · refine ⟨rfl, by decide, fun var value _ => ⟨0, rfl, fun _ => ⟨by decide, fun var value _ => ?_⟩⟩⟩
      exact ⟨1, rfl, fun h => absurd h (by decide)⟩
    · trivial
    · trivial

/-- The list is refused, and the call waits for another reply. -/
theorem syscfgPaired_refused : ¬ ∃ rounds w, Runs.run (syscfgStep rounds)
    [.enum (fun _ _ _ => .done 0) [] (.err (ofBuf (bytesOf ": busy")))] ⟨[], []⟩ = .ok w ∧
      ∀ r ∈ w.log, r.Paired := by
  rintro ⟨rounds, w, hrun, hlog⟩
  have hends := ends_of_run hrun hlog _ List.mem_cons_self
  cases hends.1

end Utils
