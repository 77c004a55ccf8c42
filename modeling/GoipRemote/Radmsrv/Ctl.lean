import GoipRemote.Radmsrv.Handshake
import Mathlib.Data.List.DropRight

/-!
# Control messages (`radmsrv_ctl_callback`, and the web handlers that write them)

A message comes as a datagram into a buffer on the stack, and carries neither its length nor a
terminator. `decodeCtl` finds in it what `radmsrvCtl` acts on. `radmsrvDel_total` says when
`radmsrv_del` does its work, `deleteMessage_iff` when the message of a web handler deletes the client it
was written for, and `whiteMessage_iff` when the message of a new white list installs that list.
-/

namespace Radmsrv

open Utils Relay Function LinkedList CString

/-- `isspace`, in the C locale. -/
def isspace (b : UInt8) : Bool := b = 32 ∨ 9 ≤ b ∧ b ≤ 13

/-- `isdigit`. -/
def isdigit (b : UInt8) : Bool := 48 ≤ b ∧ b ≤ 57

/-- `while (isspace(*p)) *p-- = '\0';`, with `p` an index of the buffer. -/
def stripSpaces : Nat → List UInt8 → Res (List UInt8)
  | 0, buf => if isspace (buf.getD 0 0) then .fault else .ok buf
  | p + 1, buf => if isspace (buf.getD (p + 1) 0) then stripSpaces p (buf.set (p + 1) 0) else .ok buf

/-- `sscanf(buf, "%u", &ip)`, with a `long` of 64 bits; `none` when there is no number. -/
def scanUnsigned (buf : List UInt8) : Option UInt32 :=
  let buf := buf.dropWhile isspace
  let negative := buf.head? = some 45
  let buf := if buf.head? = some 45 ∨ buf.head? = some 43 then buf.tail else buf
  let digits := buf.takeWhile isdigit
  let value := min (digits.foldl (fun n b => 10 * n + (b.toNat - 48)) 0) (2 ^ 64 - 1)
  if digits = [] then none else some (.ofNat (if negative then 2 ^ 64 - value else value))

/-- What `radmsrv_ctl_callback` finds before it acts: the contents of `buf` and of `ip` from earlier
calls, the datagram that `read` answers, and what `malloc` answers in `add_ip`. -/
structure CtlIn where
  buf : List UInt8
  ip : UInt32
  msg : List UInt8
  ipData : Ptr
  timer : Ptr

/-- `buf` after the `read`. -/
def CtlIn.read (i : CtlIn) : List UInt8 := i.msg.take 4096 ++ i.buf.drop i.msg.length

/-- What `radmsrv_ctl_callback` finds in its buffer. -/
def decodeCtl (i : CtlIn) : Res (Option Ctl) :=
  let res := min i.msg.length 4096
  let buf := i.read
  if buf.head? = some 68 then
    -- the message is printed as a string first
    if 0 ∉ buf ∨ res = 0 ∨ res = 4096 then .fault
    else do
      let type := buf.getD 1 0
      let buf ← stripSpaces (res - 1) (buf.set res 0)
      if 0 ∉ buf.drop 2 then .fault else return some (.del type (ofBuf (buf.drop 2)))
  else if buf.take 2 = bytesOf "IP" then
    .ok (some (.ip ((scanUnsigned (buf.drop 2)).getD i.ip) i.ipData i.timer))
  else if buf.head? = some 87 then
    if 0 ∉ buf then .fault
    else .ok (some (.white (ofBuf ((buf.set ((ofBuf buf).bytes.length - 1) 0).drop 1))))
  else .ok none

/-- `radmsrv_ctl_callback`. -/
def radmsrvCtlCallback (s : Server) (i : CtlIn) : Res Server := do
  match ← decodeCtl i with
  | some c => radmsrvCtl s c
  | none => return s

/-- `sprintf(buf, "D%d%s\n", type, id)`, as `show_radmclient_list` and `show_radmclient_list_xml` have
it. -/
def deleteMessage (type : Int) (id : CString) : List UInt8 :=
  bytesOf "D" ++ (if type < 0 then bytesOf "-" else []) ++ decimal type.natAbs ++ id.bytes ++ bytesOf "\n"

/-! ## Deleting a client -/

section
variable {s s' : Server} {x : Ptr}
variable {clock : Nat → Timeval} {pfdList : Nat → Pollfd} {pfdCallBacks : Nat → PfdCallBack Ptr CallBack}
  {whiteListIp : CString} {portMin portMax getPort : UInt16} {srv : Ptr} {sock : Option Int}
  {listening : Bool} {key : List UInt8}
  (hs : radmsrvCreate (.init clock pfdList pfdCallBacks whiteListIp portMin portMax getPort) srv sock
    listening key = some s)

/-- `radmsrv_del` removes the one client of the id and type, or answers `-1` when there is none. -/
def DelExact (s : Server) (id : CString) (isRadmin : Int) : Prop :=
  ∃ s' r, radmsrvDel s id isRadmin = .ok (s', r) ∧
    ((∃ x c, (x, c) ∈ s.registry ∧ c.id = id ∧ c.isRadmin = isRadmin ∧ r = 0 ∧
        s'.registry = s.registry.filter fun a => a.1 ≠ x) ∨
      (∀ x c, (x, c) ∈ s.registry → c.id = id → c.isRadmin ≠ isRadmin) ∧ r = -1 ∧ s' = s)

theorem Good.delExact (h : Good s) (hzero : s.clients ≠ 0) (id : CString) (isRadmin : Int) :
    DelExact s id isRadmin := by
  obtain ⟨q, l, ds, h, -⟩ := h
  rcases radmsrvDel_ok h hzero id isRadmin with
    ⟨x, c, p, timers, clis, clients, s', hc, hid, hr, hrun, -, hobjects, -, hinv⟩ | ⟨hrun, hno⟩
  · refine ⟨s', 0, hrun, .inl ⟨x, c.view, (mem_registry h.clients).2 (clis_some hc), hid, hr, rfl, ?_⟩⟩
    rw [registry_eq h.clients, registry_eq hinv.clients, hobjects]
    exact listed_erase h.clients.list.nodup
  · exact ⟨s, -1, hrun, .inr ⟨fun x c hx hid => hno x c ((mem_registry h.clients).1 hx) hid, rfl, rfl⟩⟩

include hs in
/-- **Deleting** a client is exact where there is a client, whatever its id and type; where there is
none the null pointer is read. -/
theorem radmsrvDel_total {evs : List Event} (hrun : s.run evs = .ok s')
    (id : CString) (isRadmin : Int) : DelExact s' id isRadmin ↔ s'.clients ≠ 0 := by
  have hgood : Good s' := (run_good evs (create_good hs)).of_ok hrun
  refine ⟨fun h hzero => ?_, fun hzero => hgood.delExact hzero id isRadmin⟩
  obtain ⟨q, l, ds, hinv, -⟩ := hgood
  obtain ⟨s'', r, hdel, -⟩ := h
  have hnone : s'.clis 0 = none := hinv.clients.clis_zero
  unfold radmsrvDel Server.isClient at hdel
  rw [hzero] at hdel
  simp only [Res.deref, hnone, Res.fault_bind] at hdel
  cases hdel

/-- The only client is deleted. -/
theorem radmsrvDel_total_device : ∃ s s', radmsrvCreate .initZero 1 (some 3) true [65] = some s ∧
    s.run firstDevice = .ok s' ∧ s'.registry = [(1, ⟨0, ofBuf [66], 6, 5, 1, 2, 1⟩)] ∧
    DelExact s' (ofBuf [66]) 1 := by
  obtain ⟨s, s', -, -, hs, hrun, hregistry, hclients, -⟩ := exists_firstDevice
  exact ⟨s, s', hs, hrun, hregistry, (radmsrvDel_total hs hrun _ _).2 (by rw [hclients]; decide)⟩

/-- No device has connected yet. -/
theorem radmsrvDel_null :
    ∃ s, radmsrvCreate .initZero 1 (some 3) true [65] = some s ∧
      radmsrvDel s (ofBuf (bytesOf "a")) 1 = .fault := ⟨_, rfl, rfl⟩

/-! ## The message of a web handler -/

/-- The string without the white space at its end. -/
def trimmed (id : CString) : CString where
  bytes := id.bytes.rdropWhile isspace
  ne_zero := fun b hb => id.ne_zero b ((List.rdropWhile_prefix isspace _).subset hb)

theorem trimmed_eq_self_iff {id : CString} :
    trimmed id = id ↔ ∀ b ∈ id.bytes.getLast?, isspace b = false := by
  have hbytes : trimmed id = id ↔ id.bytes.rdropWhile isspace = id.bytes :=
    ⟨fun h => congrArg CString.bytes h, fun h => CString.ext h⟩
  rw [hbytes, List.rdropWhile_eq_self_iff]
  refine ⟨?_, ?_⟩
  · intro h b hb
    obtain ⟨hne, hlast⟩ := List.mem_getLast?_eq_getLast hb
    rw [hlast]
    exact Bool.not_eq_true _ ▸ h hne
  · intro h hne
    rw [Bool.not_eq_true]
    exact h _ (List.getLast_mem_getLast? hne)

/-- White space behind a byte that is none becomes NUL, from its last byte on. -/
theorem stripSpaces_append {before : List UInt8} {b : UInt8} (hb : isspace b = false) :
    ∀ {spaces : List UInt8} (behind : List UInt8), (∀ b ∈ spaces, isspace b = true) →
      stripSpaces (before.length + spaces.length) (before ++ b :: spaces ++ behind) =
        .ok (before ++ b :: List.replicate spaces.length 0 ++ behind) := by
  intro spaces
  induction spaces using List.reverseRecOn with
  | nil =>
    intro behind _
    have hget : (before ++ b :: behind).getD before.length 0 = b := by simp
    cases before with
    | nil => simp [stripSpaces, hb]
    | cons a before =>
      simp only [List.length_nil, Nat.add_zero, List.length_cons, List.append_assoc, List.cons_append,
        List.nil_append, List.replicate_zero] at hget ⊢
      rw [stripSpaces, hget, hb]
      rfl
  | append_singleton spaces c ih =>
    intro behind hspaces
    have hc : isspace c = true := hspaces c (by simp)
    have hbuf : before ++ b :: (spaces ++ [c]) ++ behind = (before ++ b :: spaces) ++ c :: behind := by
      simp
    have hindex : before.length + (spaces ++ [c]).length = (before ++ b :: spaces).length := by
      simp only [List.length_append, List.length_cons, List.length_nil]
    have hlast : (before ++ b :: spaces).length = before.length + spaces.length + 1 := by
      simp only [List.length_append, List.length_cons]
      omega
    rw [hbuf, hindex, hlast, stripSpaces, ← hlast]
    have hget : ((before ++ b :: spaces) ++ c :: behind).getD (before ++ b :: spaces).length 0 = c := by
      simp
    rw [hget, if_pos hc, List.set_append_right _ _ (Nat.le_refl _), Nat.sub_self, List.set_cons_zero,
      ih _ fun b hb => hspaces b (List.mem_append_left _ hb)]
    simp [List.replicate_succ']

/-- The white space at the end of a string, and what is before it, behind a byte that is none. -/
theorem exists_spaces {t : UInt8} (ht : isspace t = false) (id : CString) :
    ∃ before b spaces, isspace b = false ∧ (∀ c ∈ spaces, isspace c = true) ∧
      68 :: t :: id.bytes = before ++ b :: spaces ∧ 68 :: t :: (trimmed id).bytes = before ++ [b] := by
  obtain ⟨spaces, hsplit, hspaces⟩ : ∃ spaces, id.bytes = (trimmed id).bytes ++ spaces ∧
      ∀ c ∈ spaces, isspace c = true :=
    ⟨_, (List.rdropWhile_append_rtakeWhile (p := isspace)).symm, fun _ => List.mem_rtakeWhile_imp⟩
  rcases List.eq_nil_or_concat (trimmed id).bytes with hnil | ⟨front, b, hcons⟩
  · rw [hnil] at hsplit ⊢
    refine ⟨[68], t, _, ht, hspaces, ?_, rfl⟩
    rw [hsplit]
    rfl
  · have hb : isspace b = false := by
      have hfront : id.bytes.rdropWhile isspace = front ++ [b] := hcons.trans (List.concat_eq_append ..)
      have hlast := List.rdropWhile_last_not isspace id.bytes (by rw [hfront]; simp)
      simpa only [hfront, List.getLast_append_singleton, Bool.not_eq_true] using hlast
    refine ⟨68 :: t :: front, b, _, hb, hspaces, ?_, by rw [hcons]; simp⟩
    rw [hcons] at hsplit
    rw [hsplit]
    simp

/-- What the message of a web handler decodes to. -/
theorem decodeCtl_del {i : CtlIn} {t : UInt8} {id : CString} (hmsg : i.msg = 68 :: t :: id.bytes ++ [10])
    (ht : isspace t = false) (hzero : t ≠ 0) (hlen : id.bytes.length ≤ 247) :
    decodeCtl i = if 0 ∈ i.buf.drop i.msg.length then .ok (some (.del t (trimmed id))) else .fault := by
  have hmlen : i.msg.length = id.bytes.length + 3 := by
    rw [hmsg]
    simp only [List.length_append, List.length_cons, List.length_nil]
  have hread : i.read = i.msg ++ i.buf.drop i.msg.length := by
    unfold CtlIn.read
    rw [List.take_of_length_le (by omega)]
  have hnul : 0 ∈ i.read ↔ 0 ∈ i.buf.drop i.msg.length := by
    have hid : (0 : UInt8) ∉ id.bytes := fun h => id.ne_zero 0 h rfl
    have hmem : (0 : UInt8) ∉ i.msg := by
      rw [hmsg]
      simp [hid, Ne.symm hzero]
    rw [hread, List.mem_append]
    exact or_iff_right hmem
  have hhead : i.read.head? = some 68 := by
    rw [hread, hmsg]
    rfl
  have htype : i.read.getD 1 0 = t := by
    rw [hread, hmsg]
    rfl
  unfold decodeCtl
  simp only [show min i.msg.length 4096 = i.msg.length by omega, if_pos hhead, htype]
  by_cases hbuf : 0 ∈ i.buf.drop i.msg.length
  · rw [if_neg (by rw [hnul, not_or, not_not]; exact ⟨hbuf, by omega⟩), if_pos hbuf]
    obtain ⟨r, rest, hrest⟩ : ∃ r rest, i.buf.drop i.msg.length = r :: rest :=
      List.exists_cons_of_ne_nil (List.ne_nil_of_mem hbuf)
    obtain ⟨before, b, spaces, hb, hspaces, hid, htrim⟩ := exists_spaces ht id
    have hmsg' : i.msg = before ++ b :: (spaces ++ [10]) := by
      rw [hmsg, hid]
      simp
    have hset : i.read.set i.msg.length 0 = before ++ b :: (spaces ++ [10]) ++ 0 :: rest := by
      rw [hread, hrest, List.set_append_right _ _ (Nat.le_refl _), Nat.sub_self, List.set_cons_zero, hmsg']
    have hindex : i.msg.length - 1 = before.length + (spaces ++ [10]).length := by
      rw [hmsg']
      simp only [List.length_append, List.length_cons, List.length_nil]
      omega
    have hstrip := @stripSpaces_append before b hb (spaces ++ [10]) (0 :: rest)
      fun c hc => (List.mem_append.1 hc).elim (hspaces c) fun hc => by
        rw [List.mem_singleton.1 hc]
        decide
    have hdrop : (before ++ b :: List.replicate (spaces ++ [10]).length 0 ++ 0 :: rest).drop 2 =
        (trimmed id).bytes ++ 0 :: (List.replicate spaces.length 0 ++ 0 :: rest) := by
      rw [List.length_append, List.length_singleton, List.replicate_succ, List.append_cons before b, ← htrim]
      simp
    rw [hset, hindex, hstrip, Res.ok_bind, hdrop, if_neg (by simp), ofBuf_append]
    rfl
  · rw [if_pos (Or.inl (by rw [hnul]; exact hbuf)), if_neg hbuf]

/-- `radmsrv_del` removes the client, and no other, for its own id alone. -/
theorem Good.del_iff (h : Good s) {c : Radmcli} (hx : (x, c) ∈ s.registry) (id : CString) :
    (∃ s' r, radmsrvDel s id c.isRadmin = .ok (s', r) ∧
      s'.registry = s.registry.filter fun a => a.1 ≠ x) ↔ id = c.id := by
  obtain ⟨q, l, ds, hinv, hlock⟩ := h
  have hkey : ∀ y d, (y, d) ∈ s.registry → s.objects y = some d := fun y d =>
    (mem_registry hinv.clients).1
  have hzero : s.clients ≠ 0 := hinv.clients.ne_nil (hkey x c hx)
  have hkept : ∀ y : Ptr, y ≠ x → (x, c) ∈ s.registry.filter fun a => a.1 ≠ y := by
    intro y hy
    exact List.mem_filter.2 ⟨hx, decide_eq_true (Ne.symm hy)⟩
  have hgone : (x, c) ∉ s.registry.filter fun a => a.1 ≠ x := by simp
  obtain ⟨s', r, hrun, ⟨y, d, hy, hid, hr, -, hreg⟩ | ⟨hno, -, rfl⟩⟩ :=
    Good.delExact ⟨q, l, ds, hinv, hlock⟩ hzero id c.isRadmin
  · refine ⟨?_, ?_⟩
    · rintro ⟨s'', r', hrun', hreg'⟩
      cases hrun.symm.trans hrun'
      by_cases hyx : y = x
      · subst hyx
        rw [← hid, Option.some.inj ((hkey y d hy).symm.trans (hkey y c hx))]
      · have hmem := hkept y hyx
        rw [← hreg, hreg'] at hmem
        exact absurd hmem hgone
    · rintro rfl
      have hyx : y = x := hinv.clients.unique y x d c (hkey y d hy) (hkey x c hx) hid hr
      exact ⟨s', r, hrun, hyx ▸ hreg⟩
  · refine ⟨?_, ?_⟩
    · rintro ⟨s'', r', hrun', hreg'⟩
      cases hrun.symm.trans hrun'
      rw [← hreg'] at hgone
      exact absurd hx hgone
    · rintro rfl
      exact absurd rfl (hno x c hx rfl)

theorem radmsrvDel_ok_iff {id : CString} {isRadmin : Int} :
    (do let (s, _) ← radmsrvDel s id isRadmin; return s) = .ok s' ↔
      ∃ r, radmsrvDel s id isRadmin = .ok (s', r) := by
  rw [Res.bind_eq_ok]
  refine ⟨?_, ?_⟩
  · rintro ⟨⟨s'', r⟩, hrun, hs⟩
    cases hs
    exact ⟨r, hrun⟩
  · rintro ⟨r, hrun⟩
    exact ⟨(s', r), hrun, rfl⟩

theorem deleteMessage_eq {type : Int} (htype : type = 1 ∨ type = 2 ∨ type = 3) (id : CString) :
    deleteMessage type id = 68 :: (48 + UInt8.ofNat type.toNat) :: id.bytes ++ [10] := by
  rcases htype with rfl | rfl | rfl <;> rfl

include hs in
/-- **The message to delete a client** deletes that client and no other, whatever else is in the buffer
of the message, unless the type is that of `RLOGIN`, the id ends in white space or there is no NUL behind
the message. -/
theorem deleteMessage_iff {evs : List Event} (hrun : s.run evs = .ok s')
    {c : Radmcli} (hx : (x, c) ∈ s'.registry) (hlen : c.id.bytes.length ≤ 247)
    (htype : c.isRadmin = 1 ∨ c.isRadmin = 2 ∨ c.isRadmin = 3) {i : CtlIn}
    (hmsg : i.msg = deleteMessage c.isRadmin c.id) :
    (∃ s'', radmsrvCtlCallback s' i = .ok s'' ∧
      s''.registry = s'.registry.filter fun a => a.1 ≠ x) ↔
    c.isRadmin ≠ 2 ∧ (∀ b ∈ c.id.bytes.getLast?, isspace b = false) ∧ 0 ∈ i.buf.drop i.msg.length := by
  have hgood : Good s' := (run_good evs (create_good hs)).of_ok hrun
  have hdel := hgood.del_iff hx (trimmed c.id)
  rw [trimmed_eq_self_iff] at hdel
  rw [← hdel]
  have hdecode := decodeCtl_del (hmsg.trans (deleteMessage_eq htype c.id))
    (by rcases htype with h | h | h <;> rw [h] <;> decide)
    (by rcases htype with h | h | h <;> rw [h] <;> decide) hlen
  unfold radmsrvCtlCallback
  rw [hdecode]
  by_cases hbuf : 0 ∈ i.buf.drop i.msg.length
  · rw [if_pos hbuf, Res.ok_bind]
    have hone : ∀ {s'' : Server}, radmsrvCtl s' (.del 49 (trimmed c.id)) = .ok s'' ↔
        ∃ r, radmsrvDel s' (trimmed c.id) 1 = .ok (s'', r) := radmsrvDel_ok_iff
    have hthree : ∀ {s'' : Server}, radmsrvCtl s' (.del 51 (trimmed c.id)) = .ok s'' ↔
        ∃ r, radmsrvDel s' (trimmed c.id) 3 = .ok (s'', r) := radmsrvDel_ok_iff
    rcases htype with h | h | h
    · rw [h]
      change (∃ s'', radmsrvCtl s' (.del 49 (trimmed c.id)) = _ ∧ _) ↔ _
      simp only [hone, hbuf, and_true, exists_and_right]
      exact (and_iff_right (by decide)).symm
    · rw [h]
      change (∃ s'', Res.ok s' = _ ∧ _) ↔ _
      refine ⟨?_, ?_⟩
      · rintro ⟨s'', hok, hreg⟩
        cases hok
        have hgone : (x, c) ∉ s'.registry.filter fun a => a.1 ≠ x := by simp
        rw [← hreg] at hgone
        exact absurd hx hgone
      · rintro ⟨hne, -⟩
        exact absurd rfl hne
    · rw [h]
      change (∃ s'', radmsrvCtl s' (.del 51 (trimmed c.id)) = _ ∧ _) ↔ _
      simp only [hthree, hbuf, and_true, exists_and_right]
      exact (and_iff_right (by decide)).symm
  · rw [if_neg hbuf, Res.fault_bind]
    refine ⟨?_, ?_⟩
    · rintro ⟨s'', hok, -⟩
      cases hok
    · rintro ⟨-, -, hmem⟩
      exact absurd hmem hbuf

theorem deleteMessage_iff_radmin :
    ∃ s evs s' x c, radmsrvCreate .initZero 1 (some 3) true [65] = some s ∧ s.run evs = .ok s' ∧
      (x, c) ∈ s'.registry ∧ c.isRadmin = 1 ∧ ∀ i : CtlIn, i.msg = deleteMessage c.isRadmin c.id →
        ((∃ s'', radmsrvCtlCallback s' i = .ok s'' ∧
          s''.registry = s'.registry.filter fun a => a.1 ≠ x) ↔
        c.isRadmin ≠ 2 ∧ (∀ b ∈ c.id.bytes.getLast?, isspace b = false) ∧
          0 ∈ i.buf.drop i.msg.length) := by
  obtain ⟨s, evs, s', x, c, hs, hrun, hx, hid, hr⟩ :=
    exists_client (ofBuf (bytesOf "a")) (by decide) 1 (.inl rfl)
  exact ⟨s, evs, s', x, c, hs, hrun, hx, hr, fun i hmsg =>
    deleteMessage_iff hs hrun hx (by rw [hid]; decide) (.inl hr) hmsg⟩

/-- The message for an `RLOGIN` client leaves it there. -/
theorem deleteMessage_rlogin :
    ∃ s evs s' x c, radmsrvCreate .initZero 1 (some 3) true [65] = some s ∧ s.run evs = .ok s' ∧
      (x, c) ∈ s'.registry ∧ c.id = ofBuf (bytesOf "a") ∧ c.isRadmin = 2 ∧
      ¬ ∃ s'', radmsrvCtlCallback s'
          ⟨List.replicate 4096 0, 0, deleteMessage c.isRadmin c.id, 1, 1⟩ = .ok s'' ∧
        s''.registry = s'.registry.filter fun a => a.1 ≠ x := by
  obtain ⟨s, evs, s', x, c, hs, hrun, hx, hid, hr⟩ :=
    exists_client (ofBuf (bytesOf "a")) (by decide) 2 (.inr (.inl rfl))
  refine ⟨s, evs, s', x, c, hs, hrun, hx, hid, hr, ?_⟩
  rintro ⟨s'', hok, hreg⟩
  have hmsg : deleteMessage c.isRadmin c.id = [68, 50, 97, 10] := by
    rw [hr, hid]
    decide
  have hbytes : ([68, 50, 97, 10] : List UInt8) = 68 :: 50 :: (ofBuf (bytesOf "a")).bytes ++ [10] := by
    decide
  have hdecode := decodeCtl_del (i := ⟨List.replicate 4096 0, 0, [68, 50, 97, 10], 1, 1⟩) hbytes
    (by decide) (by decide) (by decide)
  have hnul : (0 : UInt8) ∈ (List.replicate 4096 0).drop 4 := by
    rw [List.drop_replicate]
    exact List.mem_replicate.2 ⟨by decide, rfl⟩
  rw [hmsg, radmsrvCtlCallback, hdecode.trans (if_pos hnul)] at hok
  change Res.ok s' = Res.ok s'' at hok
  cases hok
  have hgone : (x, c) ∉ s'.registry.filter fun a => a.1 ≠ x := by simp
  rw [← hreg] at hgone
  exact hgone hx

end

/-! ## The message of a new white list -/

/-- `sprintf(buf, "W%s\n", var->value)`, as `show_radmclient_list` has it. -/
def whiteMessage (value : CString) : List UInt8 := 87 :: value.bytes ++ [10]

section
variable {i : CtlIn} {v : CString}

theorem set_last {α : Type*} {l : List α} (hl : l ≠ []) (x : α) (rest : List α) :
    (l ++ rest).set (l.length - 1) x = l.dropLast ++ x :: rest := by
  obtain ⟨front, y, rfl⟩ : ∃ front y, l = front ++ [y] :=
    ⟨l.dropLast, l.getLast hl, (List.dropLast_append_getLast hl).symm⟩
  simp

theorem whiteMessage_length (v : CString) : (whiteMessage v).length = v.bytes.length + 2 := by
  rw [whiteMessage, List.length_append, List.length_cons, List.length_singleton]

theorem read_white (hmsg : i.msg = whiteMessage v) (hlen : v.bytes.length ≤ 4094) :
    i.read = whiteMessage v ++ i.buf.drop i.msg.length := by
  rw [CtlIn.read, hmsg, List.take_of_length_le (by rw [whiteMessage_length]; omega)]

theorem decodeCtl_head (hread : i.read.head? = some 87) : decodeCtl i =
    if 0 ∉ i.read then .fault
    else .ok (some (.white (ofBuf ((i.read.set ((ofBuf i.read).bytes.length - 1) 0).drop 1)))) := by
  have hip : i.read.take 2 ≠ bytesOf "IP" := by
    intro h
    have h' := congrArg List.head? h
    rw [List.head?_take, if_neg (by decide), hread] at h'
    cases h'
  unfold decodeCtl
  simp only [hread, hip, if_false, if_true, show some (87 : UInt8) ≠ some 68 by decide]

/-- What is left behind the message belongs to its string, whose last byte is cut off. -/
theorem decodeCtl_white (hmsg : i.msg = whiteMessage v) (hlen : v.bytes.length ≤ 4094)
    (hnul : 0 ∈ i.buf.drop i.msg.length) : ∃ list, decodeCtl i = .ok (some (.white list)) ∧
      list.bytes = (v.bytes ++ 10 :: (ofBuf (i.buf.drop i.msg.length)).bytes).dropLast := by
  have hread := read_white hmsg hlen
  generalize i.buf.drop i.msg.length = left at hread hnul
  obtain ⟨behind, hleft⟩ := exists_ofBuf hnul
  generalize (ofBuf left).bytes = garbage, (ofBuf left).ne_zero = hgarbage at hleft
  have hne : ∀ b ∈ v.bytes ++ 10 :: garbage, b ≠ 0 := by
    intro b hb
    rcases List.mem_append.1 hb with hb | hb
    · exact v.ne_zero b hb
    · rcases List.mem_cons.1 hb with rfl | hb
      · decide
      · exact hgarbage b hb
  set text := v.bytes ++ 10 :: garbage with htext
  have hbuf : i.read = 87 :: text ++ 0 :: behind := by
    rw [hread, hleft, whiteMessage, htext]
    simp
  have hstring : (ofBuf i.read).bytes = 87 :: text := by
    rw [hbuf]
    exact congrArg CString.bytes (ofBuf_append ⟨87 :: text, fun b hb =>
      (List.mem_cons.1 hb).elim (fun h => h ▸ by decide) (hne b)⟩ behind)
  have hcut : (i.read.set ((ofBuf i.read).bytes.length - 1) 0).drop 1 =
      text.dropLast ++ 0 :: 0 :: behind := by
    rw [hstring, hbuf, set_last (List.cons_ne_nil _ _), List.dropLast_cons_of_ne_nil (by simp [htext])]
    rfl
  refine ⟨ofBuf (text.dropLast ++ 0 :: 0 :: behind), ?_, congrArg CString.bytes (ofBuf_append
    ⟨text.dropLast, fun b hb => hne b (List.dropLast_subset _ hb)⟩ (0 :: behind))⟩
  rw [decodeCtl_head (by rw [hbuf]; rfl), if_neg (by rw [hbuf]; simp), hcut]

/-- Without a terminator the message has no end. -/
theorem decodeCtl_white_fault (hmsg : i.msg = whiteMessage v) (hlen : v.bytes.length ≤ 4094)
    (hnul : 0 ∉ i.buf.drop i.msg.length) : decodeCtl i = .fault := by
  have hread := read_white hmsg hlen
  have hzero : (0 : UInt8) ∉ i.read := by
    have hv : (0 : UInt8) ∉ v.bytes := fun h => v.ne_zero 0 h rfl
    rw [hread, List.mem_append]
    simp [whiteMessage, hv, hnul]
  rw [decodeCtl_head (by rw [hread]; rfl), if_pos hzero]

/-- A byte that is left directly behind the message stays in the list, behind its newline. -/
theorem white_spoiled (s : Server) (hmsg : i.msg = whiteMessage v) (hlen : v.bytes.length < 255)
    {b : UInt8} {left : List UInt8} (hleft : i.buf.drop i.msg.length = b :: left) (hb : b ≠ 0) :
    ¬ ∃ s', radmsrvCtlCallback s i = .ok s' ∧ s'.whiteListIp = v := by
  intro ⟨s', hs', hsame⟩
  rw [radmsrvCtlCallback] at hs'
  by_cases hnul : 0 ∈ i.buf.drop i.msg.length
  · obtain ⟨list, hdecode, hlist⟩ := decodeCtl_white hmsg (by omega) hnul
    rw [hdecode] at hs'
    cases hs'
    have hlength := congrArg List.length (congrArg CString.bytes hsame)
    change (list.bytes.take 256).length = v.bytes.length at hlength
    rw [hlist, hleft, ofBuf_cons hb, List.length_take, List.length_dropLast, List.length_append,
      List.length_cons, List.length_cons] at hlength
    omega
  · rw [decodeCtl_white_fault hmsg (by omega) hnul] at hs'
    cases hs'

/-- **A new white list** is what was submitted exactly where the byte behind the message is NUL. -/
theorem whiteMessage_iff (s : Server) (hmsg : i.msg = whiteMessage v) (hlen : v.bytes.length < 255) :
    (∃ s', radmsrvCtlCallback s i = .ok s' ∧ s'.whiteListIp = v) ↔
      i.buf[v.bytes.length + 2]? = some 0 := by
  have hmlen : i.msg.length = v.bytes.length + 2 := hmsg ▸ whiteMessage_length v
  rw [← hmlen, ← List.head?_drop]
  cases hleft : i.buf.drop i.msg.length with
  | nil =>
    have hfault := decodeCtl_white_fault hmsg (by omega) (by rw [hleft]; exact List.not_mem_nil)
    refine ⟨fun ⟨s', hs', hsame⟩ => ?_, fun h => nomatch h⟩
    rw [radmsrvCtlCallback, hfault] at hs'
    cases hs'
  | cons b left =>
    by_cases hb : b = 0
    · subst hb
      obtain ⟨list, hdecode, hlist⟩ :=
        decodeCtl_white hmsg (by omega) (by rw [hleft]; exact List.mem_cons_self)
      have hcall : radmsrvCtlCallback s i = .ok { s with whiteListIp := list.take 256 } := by
        rw [radmsrvCtlCallback, hdecode]
        rfl
      have hsame : list.take 256 = v := by
        apply CString.ext
        show list.bytes.take 256 = v.bytes
        rw [hlist, hleft, show (ofBuf (0 :: left)).bytes = [] from rfl, List.dropLast_concat,
          List.take_of_length_le (by omega)]
      exact ⟨fun _ => rfl, fun _ => ⟨_, hcall, hsame⟩⟩
    · exact ⟨fun h => absurd h (white_spoiled s hmsg hlen hleft hb), fun h => absurd (Option.some.inj h) hb⟩

theorem whiteMessage_iff_clean :
    let v := ofBuf (bytesOf "7.0.0.0")
    let i : CtlIn := ⟨List.replicate 4096 0, 0, whiteMessage v, 1, 1⟩
    i.msg = whiteMessage v ∧ v.bytes.length < 255 ∧
      ((∃ s', radmsrvCtlCallback .initZero i = .ok s' ∧ s'.whiteListIp = v) ↔
        i.buf[v.bytes.length + 2]? = some 0) :=
  ⟨rfl, by decide, whiteMessage_iff .initZero rfl (by decide)⟩

/-- A byte `A` is left behind the message. -/
theorem whiteMessage_dirty :
    let buf : List UInt8 := List.replicate 10 65 ++ List.replicate 4086 0
    let v := ofBuf (bytesOf "7.0.0.0")
    buf.length = 4096 ∧ ¬ ∃ s', radmsrvCtlCallback .initZero ⟨buf, 0, whiteMessage v, 1, 1⟩ = .ok s' ∧
      s'.whiteListIp = v := by
  intro buf v
  have hleft : buf.drop (whiteMessage v).length = 65 :: List.replicate 4086 0 := rfl
  refine ⟨?_, white_spoiled .initZero rfl (by decide) hleft (by decide)⟩
  rw [List.length_append, List.length_replicate, List.length_replicate]

end

end Radmsrv
