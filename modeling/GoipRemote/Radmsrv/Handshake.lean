import GoipRemote.Radmsrv.RadmRun

/-!
# A device introduces itself

`radmsrvConnCallback_eq` is the step of `radmsrv_conn_callback` on bytes that fit into the buffer.
`exists_client` puts a client of any id and type into the list of a server, and `exists_firstDevice` has a
user get the connection of one.
-/

namespace Radmsrv

open Utils Relay Function LinkedList CString

/-- How a device names a type. -/
def typeName (isRadmin : Int) : List UInt8 :=
  bytesOf (if isRadmin = 1 then "RADMIN: " else if isRadmin = 2 then "RLOGIN: " else "TELNET: ")

theorem typeName_length {isRadmin : Int} (h : isRadmin = 1 ∨ isRadmin = 2 ∨ isRadmin = 3) :
    (typeName isRadmin).length = 8 := by
  rcases h with rfl | rfl | rfl <;> rfl

theorem typeName_ne_zero {isRadmin : Int} (h : isRadmin = 1 ∨ isRadmin = 2 ∨ isRadmin = 3) :
    ∀ b ∈ typeName isRadmin, b ≠ 0 := by
  rcases h with rfl | rfl | rfl <;> decide +kernel

theorem typeName_ne_newline {isRadmin : Int} (h : isRadmin = 1 ∨ isRadmin = 2 ∨ isRadmin = 3) :
    ∀ b ∈ typeName isRadmin, b ≠ 10 := by
  rcases h with rfl | rfl | rfl <;> decide +kernel

theorem lineType_typeName {isRadmin : Int} (h : isRadmin = 1 ∨ isRadmin = 2 ∨ isRadmin = 3)
    {line id : CString} (hline : line.bytes = typeName isRadmin ++ id.bytes) :
    lineType line = some isRadmin ∧ line.drop 8 = id := by
  have hlen := typeName_length h
  have hn : ∀ lit : CString, lit.bytes.length = 8 →
      (strncmp line lit 8 = 0 ↔ typeName isRadmin = lit.bytes) := by
    intro lit hl
    rw [strncmp, strcmp_eq_zero, CString.ext_iff]
    change line.bytes.take 8 = lit.bytes.take 8 ↔ _
    rw [hline, List.take_append_of_le_length (by omega), List.take_of_length_le (by omega),
      List.take_of_length_le (by omega)]
  refine ⟨?_, ?_⟩
  · unfold lineType
    simp only [hn _ (show (ofBuf (bytesOf "RADMIN: ")).bytes.length = 8 by decide),
      hn _ (show (ofBuf (bytesOf "RLOGIN: ")).bytes.length = 8 by decide),
      hn _ (show (ofBuf (bytesOf "TELNET: ")).bytes.length = 8 by decide)]
    rcases h with rfl | rfl | rfl <;> decide
  · apply CString.ext
    change line.bytes.drop 8 = _
    rw [hline]
    rcases h with rfl | rfl | rfl <;> rfl

/-- `s` when `bytes` have come in on the connection `c` at `conn`, whose cipher state was `k`. -/
def Server.gets (s : Server) (conn : Ptr) (c : Radmconn) (k : Rc4State) (bytes : List UInt8) : Server :=
  { s with proc := { s.proc.receive c.sock bytes with
      rc4 := update s.proc.rc4 c.rc4Dec (some (rc4Crypt k bytes).2) } }.setConn conn
    { c with buf := c.buf ++ (rc4Crypt k bytes).1 }

section
variable {s s' : Server} {conn : Ptr} {c : Radmconn} {k : Rc4State} {bytes : List UInt8}

theorem gets_conns (s : Server) (conn : Ptr) (c : Radmconn) (k : Rc4State) (bytes : List UInt8) :
    (s.gets conn c k bytes).conns conn = some { c with buf := c.buf ++ (rc4Crypt k bytes).1 } :=
  update_self ..

theorem gets_rc4 (s : Server) (conn : Ptr) (c : Radmconn) (k : Rc4State) (bytes : List UInt8) :
    (s.gets conn c k bytes).proc.rc4 c.rc4Dec = some (rc4Crypt k bytes).2 :=
  update_self ..

theorem gets_nil (hc : s.conns conn = some c) (hk : s.proc.rc4 c.rc4Dec = some k) :
    s.gets conn c k [] = s := by
  have hrcvd : update s.proc.rcvd c.sock (s.proc.rcvd c.sock ++ []) = s.proc.rcvd := by
    rw [List.append_nil, update_eq_self]
  have hrc4 : update s.proc.rc4 c.rc4Dec (some (rc4Crypt k []).2) = s.proc.rc4 :=
    update_eq_self_iff.2 hk.symm
  have hconns : update s.conns conn (some { c with buf := c.buf ++ (rc4Crypt k []).1 }) = s.conns := by
    rw [show (rc4Crypt k []).1 = [] from rfl, List.append_nil]
    exact update_eq_self_iff.2 hc.symm
  simp only [Server.gets, Proc.receive, Server.setConn, hrcvd, hrc4, hconns]

/-- What comes in may be cut anywhere. -/
theorem gets_gets (s : Server) (conn : Ptr) (c : Radmconn) (k : Rc4State) (as bs : List UInt8) :
    (s.gets conn c k as).gets conn { c with buf := c.buf ++ (rc4Crypt k as).1 } (rc4Crypt k as).2 bs =
      s.gets conn c k (as ++ bs) := by
  have hstate : (rc4Crypt (rc4Crypt k as).2 bs).2 = (rc4Crypt k (as ++ bs)).2 := by
    rw [rc4Crypt_snd, rc4Crypt_snd, rc4Crypt_snd, List.length_append, rc4Advance_add]
  have hdata : (rc4Crypt k as).1 ++ (rc4Crypt (rc4Crypt k as).2 bs).1 = (rc4Crypt k (as ++ bs)).1 := by
    rw [rc4Crypt_append, rc4Crypt_snd]
  simp only [Server.gets, Server.setConn, Proc.receive, update_idem, update_self, List.append_assoc,
    hstate, hdata]

theorem Inv.gets_setConn {q : Queue} {l ds : List Ptr} {idle fresh : Ptr → Prop}
    (h : Inv s q l ds idle fresh) (hc : s.conns conn = some c) (hk : s.proc.rc4 c.rc4Dec = some k)
    (bytes : List UInt8) {buf : List UInt8} (hbuf : buf.length ≤ 256) :
    Inv ((s.gets conn c k bytes).setConn conn { c with buf := buf }) q l ds idle fresh := by
  obtain ⟨k', hk', p, -, hp, hinv⟩ := h.received hc bytes
  cases hk.symm.trans hk'
  have hgets := hinv buf hbuf
  rw [hp, ← rc4Crypt_snd] at hgets
  rw [Server.gets, setConn_setConn]
  exact hgets

theorem Inv.gets {q : Queue} {l ds : List Ptr} {idle fresh : Ptr → Prop}
    (h : Inv s q l ds idle fresh) (hc : s.conns conn = some c) (hk : s.proc.rc4 c.rc4Dec = some k)
    (hfit : c.buf.length + bytes.length ≤ 256) : Inv (s.gets conn c k bytes) q l ds idle fresh := by
  have hlen : (c.buf ++ (rc4Crypt k bytes).1).length ≤ 256 := by
    rw [List.length_append, rc4Crypt_length]
    exact hfit
  have hgets := h.gets_setConn hc hk bytes hlen
  rwa [Server.gets, setConn_setConn] at hgets

/-- What `radmsrv_conn_callback` does with bytes that fit into its buffer. -/
theorem radmsrvConnCallback_eq (hc : s.conns conn = some c) (hk : s.proc.rc4 c.rc4Dec = some k)
    (hne : bytes ≠ []) (hfit : c.buf.length + bytes.length ≤ 256) (emfile : Bool) (new : NewClientIn) :
    let buf := c.buf ++ (rc4Crypt k bytes).1
    let s' := s.gets conn c k bytes
    radmsrvConnCallback s conn ⟨false, some bytes, emfile, new⟩ =
      if buf.getLast? ≠ some 10 then .ok s'
      else connLine (s'.setConn conn { c with buf := buf.dropLast ++ [0] }) conn
        (ofBuf buf.dropLast) new := by
  intro buf s'
  obtain ⟨b, bs, rfl⟩ := List.exists_cons_of_ne_nil hne
  unfold radmsrvConnCallback
  rw [Res.deref_of_some hc, Res.ok_bind, if_neg Bool.false_ne_true, Option.map_some,
    List.take_of_length_le (by omega)]
  have hcrypt : (s.proc.receive c.sock (b :: bs)).crypt c.rc4Dec (b :: bs) =
      .ok ((rc4Crypt k (b :: bs)).1, s'.proc) := by
    unfold Proc.crypt
    rw [show (s.proc.receive c.sock (b :: bs)).rc4 = s.proc.rc4 from rfl, Res.deref_of_some hk]
    rfl
  simp only [hcrypt, Res.ok_bind]
  rfl

/-- **All that `radmsrv_conn_callback` does with a connection.** It closes it, or takes something, which
may end the line. -/
theorem radmsrvConnCallback_cases {q : Queue} {l ds : List Ptr} (h : Inv s q l ds nobody nobody)
    (hc : s.conns conn = some c) (hk : s.proc.rc4 c.rc4Dec = some k) {i : ConnIn}
    (hr : radmsrvConnCallback s conn i = .ok s') : connErrExit s conn = .ok s' ∨
      ∃ all bytes, i.recv = some all ∧ bytes <+: all ∧
        let buf := c.buf ++ (rc4Crypt k bytes).1
        (buf.getLast? ≠ some 10 ∧ s' = s.gets conn c k bytes ∨
          buf.getLast? = some 10 ∧ Settled (s.gets conn c k bytes) conn c s') := by
  obtain ⟨sockerr, recv, emfile, new⟩ := i
  have herror : (if emfile = true then .exit else connErrExit s conn) = .ok s' →
      connErrExit s conn = .ok s' := by
    intro hr
    split at hr
    · cases hr
    · exact hr
  have hlen := h.conns conn c hc
  by_cases hsockerr : sockerr = true
  · rw [radmsrvConnCallback, Res.deref_of_some hc, Res.ok_bind, if_pos hsockerr] at hr
    exact .inl hr
  obtain rfl := Bool.eq_false_of_not_eq_true hsockerr
  cases recv with
  | none =>
    rw [radmsrvConnCallback, Res.deref_of_some hc, Res.ok_bind, if_neg hsockerr] at hr
    exact .inl (herror hr)
  | some all =>
    set bytes := all.take (256 - c.buf.length) with hbytes
    by_cases hne : bytes = []
    · rw [radmsrvConnCallback, Res.deref_of_some hc, Res.ok_bind, if_neg hsockerr, Option.map_some,
        ← hbytes, hne] at hr
      exact .inl (herror hr)
    -- what does not fit is not asked for
    have hfit : c.buf.length + bytes.length ≤ 256 := by
      have hle : bytes.length ≤ 256 - c.buf.length := List.length_take_le _ _
      omega
    have hsame : radmsrvConnCallback s conn ⟨false, some all, emfile, new⟩ =
        radmsrvConnCallback s conn ⟨false, some bytes, emfile, new⟩ := by
      simp only [radmsrvConnCallback, Res.deref_of_some hc, Res.ok_bind, Option.map_some, hbytes,
        List.take_take, min_self]
    have heq := radmsrvConnCallback_eq hc hk hne hfit emfile new
    dsimp only at heq
    rw [hsame, heq] at hr
    refine .inr ⟨all, bytes, rfl, List.take_prefix _ _, ?_⟩
    by_cases hlast : (c.buf ++ (rc4Crypt k bytes).1).getLast? ≠ some 10
    · rw [if_pos hlast] at hr
      cases hr
      exact .inl ⟨hlast, rfl⟩
    · rw [if_neg hlast] at hr
      have hbuf : (c.buf ++ (rc4Crypt k bytes).1).length ≤ 256 := by
        rw [List.length_append, rc4Crypt_length]
        exact hfit
      obtain ⟨hdrop, hline⟩ := line_length hbuf hlast
      rcases connLine_ok (h.gets_setConn hc hk bytes hdrop) (update_self ..) hline new with
        ⟨hexit, -⟩ | ⟨s₁, q', l', hrun, -, -, hset, -⟩
      · rw [hexit] at hr
        cases hr
      · obtain rfl := Res.ok.inj (hrun.symm.trans hr)
        exact .inr ⟨not_not.1 hlast, ⟨hset.conns, hset.client, hset.rcvd, hset.sent, hset.key⟩⟩

end

/-- What it does with a whole line that comes at once. -/
theorem radmsrvConnCallback_line {s : Server} {conn rc4 : Ptr} {fd : Int} {k : Rc4State}
    (hc : s.conns conn = some ⟨[], fd, rc4⟩) (hk : s.proc.rc4 rc4 = some k) (id : CString)
    (hlen : id.bytes.length ≤ 247) {isRadmin : Int}
    (htype : isRadmin = 1 ∨ isRadmin = 2 ∨ isRadmin = 3) (emfile : Bool) (new : NewClientIn) :
    let line := typeName isRadmin ++ id.bytes
    let bytes := (rc4Crypt k (line ++ [10])).1
    let p := { s.proc.receive fd bytes with rc4 := update s.proc.rc4 rc4 (some (rc4Crypt k bytes).2) }
    let s' := { s with proc := p }.setConn conn ⟨line ++ [0], fd, rc4⟩
    radmsrvConnCallback s conn ⟨false, some bytes, emfile, new⟩ = (do
      let (cli, s'') ← radmsrvFindClient s' id isRadmin
      let (cli, s'') ← if cli = 0 then radmsrvNewClient s'' id new else .ok (cli, s'')
      if cli = 0 then connErrExit s'' conn else connAttach s'' conn cli isRadmin) := by
  intro line bytes p s'
  have hbytes : (rc4Crypt k bytes).1 = line ++ [10] := rc4Crypt_rc4Crypt k _
  have hlength : bytes.length = id.bytes.length + 9 := by
    simp only [bytes, line, rc4Crypt_length, List.length_append, typeName_length htype,
      List.length_singleton]
    omega
  have hne : bytes ≠ [] := List.ne_nil_of_length_pos (by omega)
  have heq := radmsrvConnCallback_eq hc hk hne (by rw [hlength, List.length_nil]; omega) emfile new
  have hline : (ofBuf line).bytes = typeName isRadmin ++ id.bytes := by
    apply ofBuf_bytes
    intro b hb
    cases List.mem_append.1 hb with
    | inl hb => exact typeName_ne_zero htype b hb
    | inr hb => exact id.ne_zero b hb
  obtain ⟨htag, hid⟩ := lineType_typeName htype hline
  simp only [List.nil_append, hbytes, List.getLast?_concat, ne_eq, not_true, if_false,
    List.dropLast_concat, Server.gets, setConn_setConn, connLine, htag, hid] at heq
  exact heq

/-- A device may have any id that fits into the buffer. -/
theorem exists_client (id : CString) (hlen : id.bytes.length ≤ 247) (isRadmin : Int)
    (htype : isRadmin = 1 ∨ isRadmin = 2 ∨ isRadmin = 3) :
    ∃ s evs s' x c, radmsrvCreate .initZero 1 (some 3) true [65] = some s ∧ s.run evs = .ok s' ∧
      (x, c) ∈ s'.registry ∧ c.id = id ∧ c.isRadmin = isRadmin := by
  obtain ⟨s, hs⟩ : ∃ s, radmsrvCreate .initZero 1 (some 3) true [65] = some s := ⟨_, rfl⟩
  obtain ⟨s₁, hs₁⟩ : ∃ s₁, s.step (.accept ⟨some 5, false, 1, 2⟩) = .ok s₁ := by
    cases hs
    exact ⟨_, rfl⟩
  obtain ⟨k, hreg, hc, hk⟩ : ∃ k, s₁.proc.registered 1 .radmsrvConn = true ∧
      s₁.conns 1 = some ⟨[], 5, 2⟩ ∧ s₁.proc.rc4 2 = some k := by
    cases hs
    cases hs₁
    exact ⟨_, rfl, rfl, rfl⟩
  let new : NewClientIn := ⟨some 6, false, fun _ => none, none, 1, 1⟩
  let bytes := (rc4Crypt k (typeName isRadmin ++ id.bytes ++ [10])).1
  have hline := radmsrvConnCallback_line hc hk id hlen htype false new
  obtain ⟨s', hs', hregistry⟩ : ∃ s', s₁.step (.conn 1 ⟨false, some bytes, false, new⟩) = .ok s' ∧
      s'.registry = [(1, ⟨0, id.take 255, 6, 5, isRadmin, 2, 1⟩)] := by
    unfold Server.step
    simp only [if_pos hreg]
    rw [hline]
    cases hs
    cases hs₁
    exact ⟨_, rfl, rfl⟩
  refine ⟨s, [.accept ⟨some 5, false, 1, 2⟩, .conn 1 ⟨false, some bytes, false, new⟩], s', 1, _, hs, ?_,
    hregistry ▸ List.mem_singleton_self _, CString.ext (List.take_of_length_le (by omega)), rfl⟩
  rw [Server.run, hs₁, Res.ok_bind, Server.run, hs', Res.ok_bind, Server.run]

/-! ## A first device -/

/-- What the system answers when the server makes a client for the first device. -/
def firstClient : NewClientIn := ⟨some 6, false, fun _ => none, none, 1, 1⟩

/-- The line of the device `B`, as it is sent to a server with the key `A`. -/
def firstLine : List UInt8 := (rc4Crypt (rc4Setup [65]) (typeName 1 ++ (ofBuf [66]).bytes ++ [10])).1

/-- The device connects, and then its line comes. -/
def firstDevice : List Event :=
  [.accept ⟨some 5, false, 1, 2⟩, .conn 1 ⟨false, some firstLine, false, firstClient⟩]

/-- A user at the address 7 connects to the client's port. -/
def firstUser : Event := .user 1 ⟨some 8, 7, false, 20, 21⟩

/-- The device is in the list; then a user gets its connection, or an address logs in. -/
theorem exists_firstDevice : ∃ s s₁ s₂ s₃, radmsrvCreate .initZero 1 (some 3) true [65] = some s ∧
    s.run firstDevice = .ok s₁ ∧ s₁.registry = [(1, ⟨0, ofBuf [66], 6, 5, 1, 2, 1⟩)] ∧ s₁.clients = 1 ∧
    s.run (firstDevice ++ [.ctl (.white (ofBuf (bytesOf "7.0.0.0"))), firstUser]) = .ok s₂ ∧
    s₂.proc.fwds 21 = some (newFwd 5 8 20 2) ∧
    s₁.ipList.first = 0 ∧ Server.run [.ctl (.ip 7 1 2), .timers] { s₁ with log := [] } = .ok s₃ ∧
    s₃.proc.registered 1 .radmcliAccept = true ∧ s₃.Allowed 7 := by
  obtain ⟨s, hs⟩ : ∃ s, radmsrvCreate .initZero 1 (some 3) true [65] = some s := ⟨_, rfl⟩
  obtain ⟨t, ht⟩ : ∃ t, s.step (.accept ⟨some 5, false, 1, 2⟩) = .ok t := by
    cases hs
    exact ⟨_, rfl⟩
  obtain ⟨hreg, hc, hk⟩ : t.proc.registered 1 .radmsrvConn = true ∧ t.conns 1 = some ⟨[], 5, 2⟩ ∧
      t.proc.rc4 2 = some (rc4Setup [65]) := by
    cases hs
    cases ht
    exact ⟨rfl, rfl, rfl⟩
  have hline := radmsrvConnCallback_line hc hk (ofBuf [66]) (by decide) (.inl rfl) false firstClient
  obtain ⟨s₁, hs₁⟩ : ∃ s₁, t.step (.conn 1 ⟨false, some firstLine, false, firstClient⟩) = .ok s₁ := by
    rw [Server.step, if_pos hreg, firstLine, hline]
    cases hs
    cases ht
    exact ⟨_, rfl⟩
  have hrun : ∀ rest, s.run (firstDevice ++ rest) = s₁.run rest := by
    intro rest
    rw [firstDevice, List.cons_append, List.cons_append, List.nil_append, Server.run, ht, Res.ok_bind,
      Server.run, hs₁]
    rfl
  rw [Server.step, if_pos hreg, firstLine, hline] at hs₁
  cases hs
  cases ht
  cases hs₁
  exact ⟨_, _, _, _, rfl, hrun [], rfl, rfl, hrun _, rfl, rfl, rfl, rfl,
    .inr ⟨2, [], [], rfl, fun _ h => absurd h List.not_mem_nil, List.not_mem_nil⟩⟩

end Radmsrv
