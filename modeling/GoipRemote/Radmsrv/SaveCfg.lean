import GoipRemote.Radmsrv.Config
import GoipRemote.Radmsrv.Ctl

/-!
# Saving the configuration (the `cfg=write` branch of `show_radmclient_list`)

The handler tests a posted port where it is not the running one, sends the posted white list to the
server, and then opens the file and writes what was posted. `saveCfg_iff` says for which postings and
answers of the system a reported success has written two distinct ports, and a reported failure has left
the file and the white list of the server alone: an exact condition on both. `cfgRoundTrip_iff` says which
postings are written, and for which of these the page reads back what was posted.
-/

namespace Radmsrv

open Utils Relay CString

/-- `atoi`: `strtol`, with a `long` of 64 bits, cut to 32 bits. -/
def atoi (s : CString) : Int :=
  let buf := s.bytes.dropWhile isspace
  let negative := buf.head? = some 45
  let buf := if buf.head? = some 45 ∨ buf.head? = some 43 then buf.tail else buf
  let value : Nat := (buf.takeWhile isdigit).foldl (fun n b => 10 * n + (b.toNat - 48)) 0
  Int.bmod (if negative then -(min value (2 ^ 63)) else min value (2 ^ 63 - 1)) (2 ^ 32)

/-- `htons`, of an `int`: the port number that is left of it. -/
def htons (port : Int) : UInt16 := .ofInt port

/-- How the handler ends: with a page, without one, or in the `exit` of `MYDLOG`. -/
inductive Report where
  /-- `Cannot use port %s` -/
  | cannotUse (port : CString)
  /-- `Cannot open file for write` -/
  | cannotOpen
  /-- `Has been saved`, and whether it says that the server is restarted -/
  | saved (restart : Bool)
  | silent
  | exited
  deriving DecidableEq, Repr

/-- What the system answers where a port is tested. -/
structure PortIn where
  sock : Bool
  emfile : Bool
  bind : UInt16 → Bool

/-- What the handler finds: the running ports, the posted parameters, and what the system answers. -/
structure SaveIn where
  httpport : Int
  srvport : Int
  submit : Option CString
  posted : Fin 9 → Option CString
  web : PortIn
  cli : PortIn
  control : Bool
  fopen : Bool

/-- What the handler has done: its report, its message into `radmsrv_ctl[1]`, what it wrote into a
file that was opened, and whether it ran `startsh`. -/
structure SaveOut where
  report : Report
  control : Option (List UInt8)
  file : Option (List UInt8)
  restart : Bool
  deriving DecidableEq, Repr

/-- The test of a port, with `taken` for the port that conflicts with it. -/
def portTest (i : PortIn) (value : CString) (taken : Bool) : Option Report :=
  if i.sock then
    if i.bind (htons (atoi value)) = false ∨ taken ∨ atoi value = 0 then some (.cannotUse value) else none
  else some (if i.emfile then .exited else .silent)

/-- The test of `WEBPORT`. -/
def webTest (i : SaveIn) (web : CString) : Option Report :=
  if i.httpport ≠ atoi web then portTest i.web web false else none

/-- The test of `CLIPORT`; `tmpport` is still the web port. -/
def cliTest (i : SaveIn) (tmpport : Int) (cli : CString) : Option Report :=
  if i.srvport ≠ atoi cli then portTest i.cli cli (tmpport = atoi cli) else none

/-- The branch from the tests on. -/
def writeBranch (i : SaveIn) (rebootflag : Bool) : SaveOut :=
  let message := (i.posted 8).map whiteMessage
  if message.isSome ∧ i.control = false then ⟨.silent, none, none, false⟩
  else if i.fopen = false then ⟨.cannotOpen, message, none, false⟩
  else ⟨.saved rebootflag, message, some (cfgLines i.posted), rebootflag⟩

/-- The branch that saves. The message is printed into `buf`, which has 1024 bytes. -/
def saveCfg (i : SaveIn) : Res SaveOut := do
  let ends := fun report => (⟨report, none, none, false⟩ : SaveOut)
  match i.submit with
  | none => .fault
  | some submit =>
    let rebootflag := decide (strcmp submit (ofBuf (bytesOf "Save Reboot")) = 0)
    if strcmp submit (ofBuf (bytesOf "Save")) = 0 ∨ rebootflag then
      let web ← Res.deref i.posted 0
      match webTest i web with
      | some report => return ends report
      | none =>
        let cli ← Res.deref i.posted 3
        match cliTest i (atoi web) cli with
        | some report => return ends report
        | none =>
          if (i.posted 8).any fun v => decide (1024 ≤ (whiteMessage v).length) then .fault
          else return writeBranch i rebootflag
    else return ends .silent

/-- The server gets the message that was sent, if there is one. -/
def Server.receives (s : Server) (c : CtlIn) : Option (List UInt8) → Res Server
  | none => .ok s
  | some msg => radmsrvCtlCallback s { c with msg := msg }

/-- The form was submitted to be saved. -/
def Submitted (i : SaveIn) : Prop :=
  i.submit = some (ofBuf (bytesOf "Save")) ∨ i.submit = some (ofBuf (bytesOf "Save Reboot"))

/-- What it takes that the file is written: two ports that pass the tests, a white list that is sent where
one is posted, and a file that opens. -/
structure Written (i : SaveIn) : Prop where
  ports : ∃ web cli, i.posted 0 = some web ∧ i.posted 3 = some cli ∧
    webTest i web = none ∧ cliTest i (atoi web) cli = none
  control : (i.posted 8).isSome → i.control = true
  fopen : i.fopen = true

/-- Two different port numbers. -/
def DistinctPorts (web cli : Int) : Prop :=
  (1 ≤ web ∧ web ≤ 65535) ∧ (1 ≤ cli ∧ cli ≤ 65535) ∧ web ≠ cli

/-- Saving is validated, with ports as `main` of the server reads them, by `atoi`; and a failure leaves the
file and the white list of the server as they were. -/
structure Atomic (posted : Fin 9 → CString) (s : Server) (c : CtlIn) (out : SaveOut) : Prop where
  ports : ∀ restart, out.report = .saved restart →
    out.file = some (cfgLines fun i => some (posted i)) ∧ DistinctPorts (atoi (posted 0)) (atoi (posted 3))
  kept : (∀ restart, out.report ≠ .saved restart) →
    out.file = none ∧ ∃ s', s.receives c out.control = .ok s' ∧ s'.whiteListIp = s.whiteListIp

/-- What the tests cover of two ports that pass them: numbers that `htons` keeps, where a running port is
no `0` that is posted again, and where no web port is the running port of `CLIPORT`, left as it is. -/
structure Covered (i : SaveIn) (web cli : Int) : Prop where
  webKept : ((htons web).toNat : Int) = web
  cliKept : ((htons cli).toNat : Int) = cli
  webZero : web = 0 → i.httpport ≠ 0
  cliZero : cli = 0 → i.srvport ≠ 0
  conflict : cli = i.srvport → web ≠ i.srvport

/-- The white list that comes of a posted one, with what the message leaves of the server's buffer. -/
def whiteOf (v : CString) (left : List UInt8) : List UInt8 :=
  ((v.bytes ++ 10 :: (ofBuf left).bytes).dropLast).take 256

/-! ## The tests -/

section
variable {i : SaveIn} {web cli : CString}

theorem portTest_eq_none {p : PortIn} {value : CString} {taken : Bool} : portTest p value taken = none ↔
    p.sock = true ∧ p.bind (htons (atoi value)) = true ∧ taken = false ∧ atoi value ≠ 0 := by
  unfold portTest
  split <;> simp [*]

/-- A web port that passes is the running one, or it is not `0`. -/
theorem webTest_none (h : webTest i web = none) : atoi web ≠ i.httpport → atoi web ≠ 0 := by
  intro hne
  rw [webTest, if_pos (Ne.symm hne), portTest_eq_none] at h
  exact h.2.2.2

theorem cliTest_none {tmpport : Int} (h : cliTest i tmpport cli = none) :
    atoi cli ≠ i.srvport → tmpport ≠ atoi cli ∧ atoi cli ≠ 0 := by
  intro hne
  rw [cliTest, if_pos (Ne.symm hne), portTest_eq_none] at h
  exact ⟨of_decide_eq_false h.2.2.1, h.2.2.2⟩

theorem htons_keeps {port : Int} : ((htons port).toNat : Int) = port ↔ 0 ≤ port ∧ port ≤ 65535 := by
  have h : ((htons port).toNat : Int) = port % 65536 := by
    unfold htons UInt16.ofInt
    simp
    omega
  omega

/-- Ports that pass the tests are two different ones where the tests cover them. -/
theorem covered_iff (hweb : webTest i web = none) (hcli : cliTest i (atoi web) cli = none) :
    DistinctPorts (atoi web) (atoi cli) ↔ Covered i (atoi web) (atoi cli) := by
  have hweb := webTest_none hweb
  have hcli := cliTest_none hcli
  generalize atoi web = web, atoi cli = cli at hweb hcli ⊢
  refine ⟨?_, ?_⟩
  · intro ⟨h, h', hne⟩
    refine ⟨htons_keeps.2 (by omega), htons_keeps.2 (by omega), by omega, by omega, by omega⟩
  · intro h
    have hw := htons_keeps.1 h.webKept
    have hc := htons_keeps.1 h.cliKept
    have hzero := h.webZero
    have hzero' := h.cliZero
    have hconflict := h.conflict
    refine ⟨⟨by omega, hw.2⟩, ⟨by omega, hc.2⟩, by omega⟩

theorem portTest_ne_saved {p : PortIn} {value : CString} {taken restart : Bool} :
    portTest p value taken ≠ some (.saved restart) := by
  unfold portTest
  split
  · split <;> simp
  · split <;> simp

/-- Where a test ends the handler, it reports no success. -/
theorem webTest_ne_saved {report : Report} (h : webTest i web = some report) (restart : Bool) :
    report ≠ .saved restart := by
  rintro rfl
  unfold webTest at h
  split at h
  · exact portTest_ne_saved h
  · cases h

theorem cliTest_ne_saved {tmpport : Int} {report : Report} (h : cliTest i tmpport cli = some report)
    (restart : Bool) : report ≠ .saved restart := by
  rintro rfl
  unfold cliTest at h
  split at h
  · exact portTest_ne_saved h
  · cases h

end

/-! ## The message -/

section
variable {s : Server} {c : CtlIn} {v : CString}

/-- What the server has of the message of a posted white list. -/
theorem receives_white (hlen : v.bytes.length ≤ 4094) {list : CString} :
    (∃ s', s.receives c (some (whiteMessage v)) = .ok s' ∧ s'.whiteListIp = list) ↔
      0 ∈ c.buf.drop (v.bytes.length + 2) ∧ whiteOf v (c.buf.drop (v.bytes.length + 2)) = list.bytes := by
  have hdrop : { c with msg := whiteMessage v : CtlIn }.msg.length = v.bytes.length + 2 :=
    whiteMessage_length v
  show (∃ s', radmsrvCtlCallback s { c with msg := whiteMessage v } = .ok s' ∧ s'.whiteListIp = list) ↔ _
  unfold radmsrvCtlCallback
  by_cases hnul : 0 ∈ c.buf.drop (v.bytes.length + 2)
  · obtain ⟨list', hdecode, hlist⟩ := @decodeCtl_white { c with msg := whiteMessage v } v rfl hlen
      (by rw [hdrop]; exact hnul)
    rw [hdrop] at hlist
    rw [hdecode, Res.ok_bind]
    change (∃ s', Res.ok { s with whiteListIp := list'.take 256 } = Res.ok s' ∧ _) ↔ _
    have hbytes : whiteOf v (c.buf.drop (v.bytes.length + 2)) = (list'.take 256).bytes := by
      rw [whiteOf, ← hlist]
      rfl
    rw [and_iff_right hnul, hbytes]
    refine ⟨?_, ?_⟩
    · rintro ⟨s', hs', rfl⟩
      cases hs'
      rfl
    · intro h
      exact ⟨_, rfl, CString.ext h⟩
  · rw [@decodeCtl_white_fault { c with msg := whiteMessage v } v rfl hlen (by rw [hdrop]; exact hnul)]
    simp [hnul]

end

/-! ## Saving -/

section
variable {i : SaveIn} {posted : Fin 9 → CString} {s : Server} {c : CtlIn}

/-- The rest of the branch, behind tests that are passed. -/
theorem writeBranch_iff (rebootflag : Bool) (hposted : ∀ j, i.posted j = some (posted j))
    (hweb : webTest i (posted 0) = none) (hcli : cliTest i (atoi (posted 0)) (posted 3) = none)
    (hlen : (posted 8).bytes.length ≤ 1021) : Atomic posted s c (writeBranch i rebootflag) ↔
      (i.control = true → if i.fopen then Covered i (atoi (posted 0)) (atoi (posted 3))
        else 0 ∈ c.buf.drop ((posted 8).bytes.length + 2) ∧
          whiteOf (posted 8) (c.buf.drop ((posted 8).bytes.length + 2)) = s.whiteListIp.bytes) := by
  have hfile : i.posted = fun j => some (posted j) := funext hposted
  unfold writeBranch
  rw [hposted 8]
  cases hcontrol : i.control with
  | false =>
    refine ⟨fun _ h => (by cases h), fun _ => ⟨?_, fun _ => ⟨rfl, s, rfl, rfl⟩⟩⟩
    intro restart h
    cases h
  | true =>
    cases hopen : i.fopen with
    | true =>
      rw [hfile]
      refine ⟨?_, ?_⟩
      · intro h _
        exact (covered_iff hweb hcli).1 (h.ports rebootflag rfl).2
      · intro h
        exact ⟨fun _ _ => ⟨rfl, (covered_iff hweb hcli).2 (h rfl)⟩, fun h => absurd rfl (h rebootflag)⟩
    | false =>
      refine ⟨?_, ?_⟩
      · intro h _
        have hkept := h.kept fun restart h => (by cases h)
        exact (receives_white (by omega)).1 hkept.2
      · intro h
        refine ⟨?_, fun _ => ⟨rfl, (receives_white (by omega)).2 (h rfl)⟩⟩
        intro restart h
        cases h

/-- The handler on a form that is to be saved. -/
theorem saveCfg_submitted (hsubmit : Submitted i) :
    ∃ rebootflag, saveCfg i = do
      let web ← Res.deref i.posted 0
      match webTest i web with
      | some report => return ⟨report, none, none, false⟩
      | none =>
        let cli ← Res.deref i.posted 3
        match cliTest i (atoi web) cli with
        | some report => return ⟨report, none, none, false⟩
        | none =>
          if (i.posted 8).any fun v => decide (1024 ≤ (whiteMessage v).length) then .fault
          else return writeBranch i rebootflag := by
  obtain ⟨submit, hsome, hsave⟩ : ∃ submit, i.submit = some submit ∧
      (strcmp submit (ofBuf (bytesOf "Save")) = 0 ∨
        decide (strcmp submit (ofBuf (bytesOf "Save Reboot")) = 0) = true) := by
    rcases hsubmit with h | h
    · exact ⟨_, h, .inl (strcmp_self _)⟩
    · exact ⟨_, h, .inr (decide_eq_true (strcmp_self _))⟩
  refine ⟨decide (strcmp submit (ofBuf (bytesOf "Save Reboot")) = 0), ?_⟩
  unfold saveCfg
  simp only [hsome, if_pos hsave]

/-- The handler on a form that carries all parameters. -/
theorem saveCfg_eq (hsubmit : Submitted i) (hposted : ∀ j, i.posted j = some (posted j)) :
    ∃ rebootflag, saveCfg i =
      match webTest i (posted 0), cliTest i (atoi (posted 0)) (posted 3) with
      | some report, _ => .ok ⟨report, none, none, false⟩
      | none, some report => .ok ⟨report, none, none, false⟩
      | none, none => if 1021 < (posted 8).bytes.length then .fault else .ok (writeBranch i rebootflag) := by
  have hmessage : (i.posted 8).any (fun v => decide (1024 ≤ (whiteMessage v).length)) = true ↔
      1021 < (posted 8).bytes.length := by
    rw [hposted 8, Option.any_some, decide_eq_true_iff, whiteMessage_length]
    omega
  obtain ⟨rebootflag, heq⟩ := saveCfg_submitted hsubmit
  refine ⟨rebootflag, ?_⟩
  simp only [heq, Res.deref_of_some (hposted 0), Res.deref_of_some (hposted 3), Res.ok_bind, Res.pure_eq,
    hmessage]
  cases webTest i (posted 0) with
  | some report => rfl
  | none => cases cliTest i (atoi (posted 0)) (posted 3) <;> rfl

/-- What it takes behind tests that are passed. -/
theorem saveCfg_passed (hsubmit : Submitted i) (hposted : ∀ j, i.posted j = some (posted j))
    (hweb : webTest i (posted 0) = none) (hcli : cliTest i (atoi (posted 0)) (posted 3) = none) :
    (∃ out, saveCfg i = .ok out ∧ Atomic posted s c out) ↔ (posted 8).bytes.length ≤ 1021 ∧
      (i.control = true → if i.fopen then Covered i (atoi (posted 0)) (atoi (posted 3))
        else 0 ∈ c.buf.drop ((posted 8).bytes.length + 2) ∧
          whiteOf (posted 8) (c.buf.drop ((posted 8).bytes.length + 2)) = s.whiteListIp.bytes) := by
  obtain ⟨rebootflag, heq⟩ := saveCfg_eq hsubmit hposted
  simp only [heq, hweb, hcli]
  by_cases hlen : (posted 8).bytes.length ≤ 1021
  · rw [if_neg (by omega), and_iff_right hlen, ← writeBranch_iff rebootflag hposted hweb hcli hlen]
    refine ⟨?_, ?_⟩
    · rintro ⟨out, hout, h⟩
      cases hout
      exact h
    · intro h
      exact ⟨_, rfl, h⟩
  · rw [if_pos (by omega)]
    refine ⟨?_, ?_⟩
    · rintro ⟨out, hout, -⟩
      cases hout
    · intro h
      exact absurd h.1 hlen

/-- **Saving the configuration** is validated and atomic exactly where ports that pass the tests are
covered by them, and where a file that cannot be opened finds the posted white list, as the server reads
it, to be the one that the server has. -/
theorem saveCfg_iff (hsubmit : Submitted i) (hposted : ∀ j, i.posted j = some (posted j)) :
    (∃ out, saveCfg i = .ok out ∧ Atomic posted s c out) ↔
      (webTest i (posted 0) = none → cliTest i (atoi (posted 0)) (posted 3) = none →
        (posted 8).bytes.length ≤ 1021 ∧
        (i.control = true → if i.fopen then Covered i (atoi (posted 0)) (atoi (posted 3))
          else 0 ∈ c.buf.drop ((posted 8).bytes.length + 2) ∧
            whiteOf (posted 8) (c.buf.drop ((posted 8).bytes.length + 2)) = s.whiteListIp.bytes)) := by
  have hends : ∀ {report}, (∀ restart, report ≠ .saved restart) →
      ∃ out, Res.ok (⟨report, none, none, false⟩ : SaveOut) = .ok out ∧ Atomic posted s c out :=
    fun hne => ⟨_, rfl, fun restart h => absurd h (hne restart), fun _ => ⟨rfl, s, rfl, rfl⟩⟩
  obtain ⟨rebootflag, heq⟩ := saveCfg_eq hsubmit hposted
  cases hweb : webTest i (posted 0) with
  | some report =>
    simp only [heq, hweb]
    exact iff_of_true (hends (webTest_ne_saved hweb)) fun h => (by cases h)
  | none =>
    cases hcli : cliTest i (atoi (posted 0)) (posted 3) with
    | some report =>
      simp only [heq, hweb, hcli]
      exact iff_of_true (hends (cliTest_ne_saved hcli)) fun _ h => (by cases h)
    | none =>
      rw [saveCfg_passed hsubmit hposted hweb hcli]
      exact ⟨fun h _ _ => h, fun h => h rfl rfl⟩

end

/-- A port that is not the running one, and a client port that is. -/
theorem saveCfg_iff_saved :
    let posted : Fin 9 → CString := fun j => ofBuf (bytesOf (if j = 0 then "80" else "8085"))
    let i : SaveIn := ⟨8086, 8085, some (ofBuf (bytesOf "Save")), fun j => some (posted j),
      ⟨true, false, fun _ => true⟩, ⟨true, false, fun _ => true⟩, true, true⟩
    (∃ out, saveCfg i = .ok out ∧ Atomic posted .initZero ⟨[], 0, [], 1, 1⟩ out) ↔
      (webTest i (posted 0) = none → cliTest i (atoi (posted 0)) (posted 3) = none →
        (posted 8).bytes.length ≤ 1021 ∧
        (i.control = true → if i.fopen then Covered i (atoi (posted 0)) (atoi (posted 3))
          else 0 ∈ List.drop ((posted 8).bytes.length + 2) [] ∧
            whiteOf (posted 8) (List.drop ((posted 8).bytes.length + 2) []) =
              Server.initZero.whiteListIp.bytes)) := by
  intro posted i
  exact saveCfg_iff (.inl rfl) fun _ => rfl

/-- The web port `65616`, which `bind` takes for 80, is written as it was posted; and the white list is
replaced where the file cannot be opened. -/
theorem saveCfg_spoiled :
    let posted : Fin 9 → CString := fun j => ofBuf (bytesOf (if j = 0 then "65616" else "8085"))
    let i : SaveIn := ⟨8086, 8085, some (ofBuf (bytesOf "Save")), fun j => some (posted j),
      ⟨true, false, fun _ => true⟩, ⟨true, false, fun _ => true⟩, true, true⟩
    let c : CtlIn := ⟨List.replicate 4096 0, 0, [], 1, 1⟩
    (¬ ∃ out, saveCfg i = .ok out ∧ Atomic posted .initZero c out) ∧
      ¬ ∃ out, saveCfg { i with fopen := false } = .ok out ∧ Atomic posted .initZero c out := by
  intro posted i c
  have hposted : ∀ j, i.posted j = some (posted j) := fun _ => rfl
  have hweb : webTest i (posted 0) = none := by decide
  have hcli : cliTest i (atoi (posted 0)) (posted 3) = none := by decide
  have hlist : whiteOf (posted 8) (0 :: List.replicate 4089 0) ≠ [] := by
    unfold whiteOf
    rw [show (ofBuf (0 :: List.replicate 4089 0)).bytes = [] from rfl]
    decide
  refine ⟨?_, ?_⟩
  · intro h
    have hcovered := ((saveCfg_passed (.inl rfl) hposted hweb hcli).1 h).2 rfl
    exact absurd hcovered.webKept (by decide)
  · intro h
    have hsame := ((saveCfg_passed (i := { i with fopen := false }) (.inl rfl) hposted hweb hcli).1 h).2 rfl
    exact hlist hsame.2

/-! ## Reading it back -/

section
variable {i : SaveIn} {out : SaveOut} {file : List UInt8}

theorem writeBranch_file (rebootflag : Bool) : (writeBranch i rebootflag).file = some file ↔
    ((i.posted 8).isSome → i.control = true) ∧ i.fopen = true ∧ file = cfgLines i.posted := by
  unfold writeBranch
  cases i.posted 8 <;> cases i.control <;> cases i.fopen <;> simp [eq_comm]

/-- A file that was written has the lines of what was posted. -/
theorem written_of_saveCfg (hsubmit : Submitted i) (hout : saveCfg i = .ok out) (hfile : out.file = some file) :
    Written i ∧ file = cfgLines i.posted := by
  obtain ⟨rebootflag, heq⟩ := saveCfg_submitted hsubmit
  rw [heq] at hout
  cases hweb : i.posted 0 with
  | none =>
    rw [Res.deref, hweb] at hout
    cases hout
  | some web =>
    simp only [Res.deref_of_some hweb, Res.ok_bind] at hout
    cases htest : webTest i web with
    | some report =>
      rw [htest] at hout
      cases hout
      cases hfile
    | none =>
      rw [htest] at hout
      cases hcli : i.posted 3 with
      | none =>
        rw [Res.deref, hcli] at hout
        cases hout
      | some cli =>
        simp only [Res.deref_of_some hcli, Res.ok_bind] at hout
        cases htest' : cliTest i (atoi web) cli with
        | some report =>
          rw [htest'] at hout
          cases hout
          cases hfile
        | none =>
          rw [htest'] at hout
          dsimp only at hout
          split at hout
          · cases hout
          · cases hout
            obtain ⟨hcontrol, hopen, hlines⟩ := (writeBranch_file rebootflag).1 hfile
            exact ⟨⟨⟨web, cli, hweb, hcli, htest, htest'⟩, hcontrol, hopen⟩, hlines⟩

theorem saveCfg_of_written (hsubmit : Submitted i) (hlen : ∀ j v, i.posted j = some v → (cfgLine j v).length < 1024)
    (h : Written i) : ∃ out, saveCfg i = .ok out ∧ out.file = some (cfgLines i.posted) := by
  obtain ⟨rebootflag, heq⟩ := saveCfg_submitted hsubmit
  obtain ⟨web, cli, hweb, hcli, htest, htest'⟩ := h.ports
  -- the message is no longer than the line
  have hmessage : (i.posted 8).any (fun v => decide (1024 ≤ (whiteMessage v).length)) = false := by
    cases hv : i.posted 8 with
    | none => rfl
    | some v =>
      have hline := hlen 8 v hv
      have hname : (cfgname 8).length = 7 := rfl
      simp only [cfgLine, List.length_append, List.length_cons, List.length_nil, hname] at hline
      rw [Option.any_some, decide_eq_false_iff_not, whiteMessage_length]
      omega
  refine ⟨writeBranch i rebootflag, ?_, (writeBranch_file rebootflag).2 ⟨h.control, h.fopen, rfl⟩⟩
  simp [heq, Res.deref_of_some hweb, Res.deref_of_some hcli, htest, htest', hmessage]

/-- **The configuration file.** It is written when the ports that are posted pass their tests, a white list
that is posted is sent and the file opens. The page then reads it, and has what was posted, with each store
inside the rows that there are, exactly when neither `STARTSH` nor `WHITEIP` was posted and each value has no
quote and fits its row. -/
theorem cfgRoundTrip_iff (hsubmit : Submitted i) (hnl : ∀ j v, i.posted j = some v → 10 ∉ v.bytes)
    (hlen : ∀ j v, i.posted j = some v → (cfgLine j v).length < 1024) :
    ((∃ out file, saveCfg i = .ok out ∧ out.file = some file) ↔ Written i) ∧
      ∀ out file, saveCfg i = .ok out → out.file = some file →
        ∃ stores, readCfg file = .ok stores ∧ (RoundTrip i.posted stores ↔
          i.posted 7 = none ∧ i.posted 8 = none ∧
            ∀ j v, i.posted j = some v → 39 ∉ v.bytes ∧ v.bytes.length < 50) := by
  refine ⟨⟨?_, ?_⟩, ?_⟩
  · rintro ⟨out, file, hout, hfile⟩
    exact (written_of_saveCfg hsubmit hout hfile).1
  · intro h
    obtain ⟨out, hout, hfile⟩ := saveCfg_of_written hsubmit hlen h
    exact ⟨out, _, hout, hfile⟩
  · intro out file hout hfile
    obtain ⟨-, rfl⟩ := written_of_saveCfg hsubmit hout hfile
    exact readCfg_cfgLines hnl hlen

end

/-- The two ports are posted, and come back. -/
theorem cfgRoundTrip_iff_ports :
    let posted : Fin 9 → Option CString := fun j =>
      if j = 0 then some (ofBuf (bytesOf "80")) else if j = 3 then some (ofBuf (bytesOf "8085")) else none
    let i : SaveIn := ⟨8086, 8085, some (ofBuf (bytesOf "Save")), posted, ⟨true, false, fun _ => true⟩,
      ⟨true, false, fun _ => true⟩, true, true⟩
    ∃ out file stores, saveCfg i = .ok out ∧ out.file = some file ∧ readCfg file = .ok stores ∧
      RoundTrip posted stores := by
  intro posted i
  have hvalues : ∀ j, ∀ v ∈ posted j,
      10 ∉ v.bytes ∧ (cfgLine j v).length < 1024 ∧ 39 ∉ v.bytes ∧ v.bytes.length < 50 := by decide
  obtain ⟨hwritten, hread⟩ := cfgRoundTrip_iff (i := i) (.inl rfl) (fun j v hv => (hvalues j v hv).1)
    fun j v hv => (hvalues j v hv).2.1
  obtain ⟨out, file, hout, hfile⟩ := hwritten.2
    ⟨⟨_, _, rfl, rfl, by decide, by decide⟩, fun _ => rfl, rfl⟩
  obtain ⟨stores, hstores, hiff⟩ := hread out file hout hfile
  exact ⟨out, file, stores, hout, hfile, hstores,
    hiff.2 ⟨rfl, rfl, fun j v hv => (hvalues j v hv).2.2⟩⟩

/-- All nine names are posted, the ports pass their tests, and `STARTSH` and `WHITEIP` are stored behind the
rows. -/
theorem cfgRoundTrip_nine :
    let posted : Fin 9 → CString := fun j => ofBuf (bytesOf (if j = 3 then "8085" else "80"))
    let i : SaveIn := ⟨8086, 8085, some (ofBuf (bytesOf "Save")), fun j => some (posted j),
      ⟨true, false, fun _ => true⟩, ⟨true, false, fun _ => true⟩, true, true⟩
    (∀ j, 10 ∉ (posted j).bytes ∧ (cfgLine j (posted j)).length < 1024) ∧
      ∃ out file stores, saveCfg i = .ok out ∧ out.file = some file ∧ readCfg file = .ok stores ∧
        ¬ RoundTrip i.posted stores := by
  intro posted i
  have hvalues : ∀ j, 10 ∉ (posted j).bytes ∧ (cfgLine j (posted j)).length < 1024 := by decide
  have hposted : ∀ {j v}, i.posted j = some v → posted j = v := fun hv => Option.some.inj hv
  obtain ⟨out, hout, hfile⟩ := saveCfg_of_written (i := i) (.inl rfl)
    (fun j v hv => hposted hv ▸ (hvalues j).2) ⟨⟨_, _, rfl, rfl, by decide, by decide⟩, fun _ => rfl, rfl⟩
  obtain ⟨stores, hread, hiff⟩ := @readCfg_cfgLines i.posted
    (fun j v hv => hposted hv ▸ (hvalues j).1) fun j v hv => hposted hv ▸ (hvalues j).2
  refine ⟨hvalues, out, _, stores, hout, hfile, hread, fun h => ?_⟩
  cases (hiff.1 h).1

end Radmsrv
