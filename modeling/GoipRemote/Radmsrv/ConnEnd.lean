import GoipRemote.Radmsrv.ConnBuf

/-!
# How a call of the handshake reader ends

A call of `radmsrv_conn_callback` leaves its connection waiting with more in the buffer than before
(`KeepsWaiting`), hands it to a client with its socket open (`HandedOver`), or closes it and leaves the
clients alone (`GivenUp`); only `MYDLOG` and `malloc` end the process (`ConnIn.Exits`).
`connCallbackAt_ends` says so of every call, and that no access to the buffer faults.
-/

namespace Radmsrv

open Utils Relay Function LinkedList CString Buffer

/-- The connection `c` at `x` waits for the rest of its line. -/
structure KeepsWaiting (s : Server) (x : Ptr) (c : Radmconn) (s' : Server) (b' : ConnBuf) : Prop where
  conns : ∃ buf, s'.conns = update s.conns x (some { c with buf := buf }) ∧ b'.Holds buf ∧
    c.buf.length < buf.length ∧ buf.length ≤ 256
  registered : s'.proc.registered x .radmsrvConn = true
  opened : s'.proc.opened c.sock = true
  registry : s'.registry = s.registry

/-- A client has the connection `c` at `x` now, by the id that stands in the buffer with its
terminator. -/
structure HandedOver (s : Server) (x : Ptr) (c : Radmconn) (s' : Server) (b' : ConnBuf) : Prop where
  conns : s'.conns = update s.conns x none
  registered : s'.proc.registered x .radmsrvConn = false
  opened : s'.proc.opened c.sock = true
  rc4 : (s'.proc.rc4 c.rc4Dec).isSome = true
  client : ∃ y k, (y, k) ∈ s'.registry ∧ k.rSock = c.sock ∧ k.rc4Dec = c.rc4Dec ∧
    (∀ p, p ≠ y → s'.objects p = s.objects p) ∧
    ∃ rest, b'.cells.drop 8 = k.id.bytes ++ 0 :: rest
  size : b'.cells.length = 256

/-- The connection `c` at `x` is gone. -/
structure GivenUp (s : Server) (x : Ptr) (c : Radmconn) (s' : Server) : Prop where
  conns : s'.conns = update s.conns x none
  registered : s'.proc.registered x .radmsrvConn = false
  opened : s'.proc.opened c.sock = false
  rc4 : s'.proc.rc4 c.rc4Dec = none
  registry : s'.registry = s.registry

/-- What ends the process in `radmsrv_conn_callback`. -/
def ConnIn.Exits (i : ConnIn) (s : Server) (c : Radmconn) : Prop :=
  i.emfile = true ∧ (∀ bytes, i.recv.map (List.take (256 - c.buf.length)) = some bytes → bytes = []) ∨
    i.new.Exits s

/-- What a call comes to. -/
def CallEnds (s : Server) (x : Ptr) (c : Radmconn) (i : ConnIn) : Res (Server × ConnBuf) → Prop
  | .ok (s', b') => KeepsWaiting s x c s' b' ∨ Xor (HandedOver s x c s' b') (GivenUp s x c s')
  | .exit => i.Exits s c
  | .fault => False

section
variable {s s' : Server} {q : Queue} {l ds : List Ptr} {idle fresh : Ptr → Prop} {x y : Ptr}
  {c : Radmconn}

/-! ## The ends of a connection -/

theorem not_registered_conn (h : Inv s q l ds idle fresh) (hx : s.conns x = none) :
    s.proc.registered x .radmsrvConn = false := by
  apply Bool.eq_false_of_not_eq_true
  intro hr
  obtain ⟨c, hc⟩ := registered_conn h hr
  rw [hx] at hc
  cases hc

theorem conn_registered (h : Inv s q l ds idle fresh) (hc : s.conns x = some c) :
    s.proc.registered x .radmsrvConn = true :=
  registered_iff.2 ⟨c.sock, (h.proc.has _).2 (.inl ⟨Slot.conn x, (slots_of_conn hc).2.2⟩)⟩

theorem connErrExit_closed (h : Inv s q l ds idle fresh) (hc : s.conns x = some c) :
    ∃ s', connErrExit s x = .ok s' ∧ GivenUp s x c s' := by
  obtain ⟨p, herr, hinv⟩ := connErrExit_ok h hc
  obtain ⟨c', p₁, p₂, hc', hclose, hfree, hp⟩ := connErrExit_eq_ok herr
  cases hc.symm.trans hc'
  obtain rfl : p = p₂ := congrArg Server.proc hp
  have hp₂ := Proc.freeRc4_eq_ok hfree
  refine ⟨_, herr, rfl, not_registered_conn hinv (update_self ..), ?_, ?_, rfl⟩
  · show p.opened c.sock = false
    rw [hp₂]
    rcases Proc.close_eq_ok hclose with ⟨hneg, -⟩ | hp₁
    · have hpos := h.fd_pos (slots_of_conn hc).1 (by simp)
      omega
    · rw [hp₁]
      exact update_self ..
  · show p.rc4 c.rc4Dec = none
    rw [hp₂]
    exact update_self ..

theorem Attached.handedOver (h : Inv s q l ds idle fresh) (hc : s.conns x = some c) {id : CString}
    {isRadmin : Int} (hatt : Attached s x c y id isRadmin s') {q' : Queue} {l' : List Ptr}
    {idle' fresh' : Ptr → Prop} (h' : Inv s' q' l' ds idle' fresh') {b' : ConnBuf} {line : CString}
    {rest : List UInt8} (hid : line.drop 8 = id) (hlen : 8 ≤ line.bytes.length)
    (hb' : b'.cells = line.bytes ++ 0 :: rest) (hsize : b'.cells.length = 256) :
    HandedOver s x c s' b' := by
  obtain ⟨hfd, hrc4, -⟩ := slots_of_conn hc
  obtain ⟨k, hk, hkid, -, hsock, hdec⟩ := hatt.client
  have hnone : s'.conns x = none := by
    rw [hatt.conns]
    exact update_self ..
  have hpos : 0 < c.sock := h.fd_pos hfd (by simp)
  have hdevice : s'.fdOf (.device y) = some c.sock := by
    simp [Server.fdOf, hk, hsock, hpos]
  refine ⟨hatt.conns, not_registered_conn h' hnone, (h'.proc.opened_of (a := Slot.device y) hdevice).1, ?_,
    ⟨y, k, (mem_registry h'.clients).2 hk, hsock, hdec, hatt.others, rest, ?_⟩, hsize⟩
  · obtain ⟨st, hst⟩ := h.proc.rc4_isSome (a := Slot.conn x) hrc4
    rw [hatt.rc4, hst]
    rfl
  · rw [hb', List.drop_append_of_le_length hlen, hkid, ← hid]
    rfl

/-! ## A line that gets no client -/

theorem NewClientIn.Exits.congr {i : NewClientIn} (h : i.Exits s) (hopened : s'.proc.opened = s.proc.opened)
    (hclis : s'.clis = s.clis) (htimers : s'.timers = s.timers) : i.Exits s' := by
  rcases h with ⟨hsock, hem⟩ | h
  · left
    have hsome := newSock_isSome hopened i.sock
    rw [hsock] at hsome
    exact ⟨Option.not_isSome_iff_eq_none.1 (by simp [hsome]), hem⟩
  · right
    rw [hclis, htimers]
    exact h

/-- A line that no client admits closes the connection. -/
theorem connLine_closed (h : Inv s q l ds nobody nobody) (hc : s.conns x = some c) {line : CString}
    {new : NewClientIn} (hno : ∀ isRadmin, ¬ Admits s line new isRadmin) :
    connLine s x line new = .exit ∧ new.Exits s ∨
      ∃ s', connLine s x line new = .ok s' ∧ GivenUp s x c s' := by
  unfold connLine
  cases htype : lineType line with
  | none => exact .inr (connErrExit_closed h hc)
  | some isRadmin =>
    obtain ⟨cli, k, ts, q', hfind, -, hk, hkid, hkr, -, h'⟩ | ⟨hfind, -⟩ :=
      radmsrvFindClient_ok h (line.drop 8) isRadmin
    · exact absurd ⟨htype, .inl ⟨cli, k.view, clis_some hk, hkid, hkr⟩⟩ (hno isRadmin)
    · have hlisten : ¬ new.Listens s := fun hl => hno isRadmin ⟨htype, .inr hl⟩
      rcases radmsrvNewClient_none h (line.drop 8) hlisten with ⟨hexit, hem⟩ | ⟨p, port, hnew, h'⟩
      · left
        simp only [hfind, Res.ok_bind, if_true, hexit, Res.exit_bind, true_and]
        exact hem
      · obtain ⟨s', herr, hclosed⟩ := connErrExit_closed h' hc
        refine .inr ⟨s', ?_, hclosed.conns, hclosed.registered, hclosed.opened, hclosed.rc4, hclosed.registry⟩
        simp only [hfind, Res.ok_bind, if_true, hnew, herr]

/-! ## A call -/

theorem GivenUp.ends (h : GivenUp s x c s') {i : ConnIn} {b' : ConnBuf} :
    CallEnds s x c i (.ok (s', b')) := by
  refine .inr (.inr ⟨h, fun hover => ?_⟩)
  have hopened := hover.opened
  rw [h.opened] at hopened
  cases hopened

theorem HandedOver.ends {b' : ConnBuf} (h : HandedOver s x c s' b') {i : ConnIn} :
    CallEnds s x c i (.ok (s', b')) := by
  refine .inr (.inl ⟨h, fun hclosed => ?_⟩)
  have hopened := h.opened
  rw [hclosed.opened] at hopened
  cases hopened

theorem gets_keepsWaiting (h : Inv s q l ds nobody nobody) (hc : s.conns x = some c) {k : Rc4State}
    (hk : s.proc.rc4 c.rc4Dec = some k) {bytes : List UInt8} (hne : bytes ≠ []) {b' : ConnBuf}
    (hb' : b'.Holds (c.buf ++ (rc4Crypt k bytes).1)) : KeepsWaiting s x c (s.gets x c k bytes) b' := by
  have hlen : (c.buf ++ (rc4Crypt k bytes).1).length = c.buf.length + bytes.length := by
    rw [List.length_append, rc4Crypt_length]
  have hpos := List.length_pos_of_ne_nil hne
  have hle := hb'.length_le
  have hgets : Inv (s.gets x c k bytes) q l ds nobody nobody := h.gets hc hk (by omega)
  have hconn := gets_conns s x c k bytes
  exact ⟨⟨_, rfl, hb', by omega, hle⟩, conn_registered hgets hconn,
    (hgets.proc.opened_of (a := Slot.conn x) (slots_of_conn hconn).1).1, rfl⟩

/-- **How a call ends**, whatever came in, from a buffer that holds what was read. -/
theorem connCallbackAt_ends {b : ConnBuf} (h : Inv s q l ds nobody nobody) (hc : s.conns x = some c)
    (hb : b.Holds c.buf) (i : ConnIn) : CallEnds s x c i (connCallbackAt s x b i) := by
  have hcalled := connCallbackAt_called h hc hb i
  generalize radmsrvConnCallback s x i = r at hcalled
  generalize connCallbackAt s x b i = r' at hcalled ⊢
  cases hcalled with
  | exit hem hnone => exact .inl ⟨hem, hnone⟩
  | err =>
    obtain ⟨s', herr, hclosed⟩ := connErrExit_closed h hc
    rw [herr]
    exact hclosed.ends
  | waits hk hne hb' => exact .inl (gets_keepsWaiting h hc hk hne hb')
  | @line s₁ k bytes buf rest line b' hk hb' hcells hlen hs₁ =>
    have h₁ := h.gets_setConn hc hk bytes hb'.length_le
    rw [← hs₁] at h₁
    have hc₁ : s₁.conns x = some { c with buf := buf } := by
      rw [hs₁]
      exact update_self ..
    have hconns : update s₁.conns x none = update s.conns x none := by
      rw [hs₁]
      simp only [Server.gets, Server.setConn, update_idem]
    by_cases hadm : ∃ isRadmin, Admits s₁ line i.new isRadmin
    · obtain ⟨isRadmin, hadm⟩ := hadm
      rcases connLine_ok h₁ hc₁ hlen i.new with ⟨-, hno⟩ | ⟨s', q', l', hrun, h', -, -, hatt⟩
      · exact absurd hadm (hno isRadmin)
      · obtain ⟨y, hatt⟩ := hatt isRadmin hadm
        have hover := hatt.handedOver h₁ hc₁ h' rfl (lineType_length hadm.1) hcells hb'.size
        rw [hrun]
        apply HandedOver.ends
        obtain ⟨y, k, hy, hsock, hrc4, hothers, hid⟩ := hover.client
        refine ⟨hover.conns.trans hconns, hover.registered, hover.opened, hover.rc4,
          ⟨y, k, hy, hsock, hrc4, fun p hp => (hothers p hp).trans ?_, hid⟩, hover.size⟩
        rw [hs₁]
        rfl
    · rcases connLine_closed h₁ hc₁ (not_exists.1 hadm) with ⟨hexit, hem⟩ | ⟨s', hrun, hclosed⟩
      · rw [hexit]
        exact .inr (hem.congr (by rw [hs₁]; rfl) (by rw [hs₁]; rfl) (by rw [hs₁]; rfl))
      · rw [hrun]
        apply GivenUp.ends
        refine ⟨hclosed.conns.trans hconns, hclosed.registered, hclosed.opened, hclosed.rc4,
          hclosed.registry.trans ?_⟩
        rw [hs₁]
        rfl

end

end Radmsrv
