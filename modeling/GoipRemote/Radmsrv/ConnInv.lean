import GoipRemote.Radmsrv.RadmInv

/-!
# The connection of a device

`radmsrv_conn_callback` against the invariant. A whole line ends a connection (`connLine_ok`): it waits
in a client of the line's id and type (`Attached`), or is closed, and in both cases it is `Settled`.
-/

namespace Radmsrv

open Utils Relay Function LinkedList CString

section
variable {s s' : Server} {q : Queue} {l ds : List Ptr} {idle fresh : Ptr → Prop} {x y : Ptr}
  {c : Radmconn}

/-! ## Normal returns -/

theorem freeRc4If_eq_ok {p p' : Proc} {ptr : Ptr} (h : freeRc4If p ptr = .ok p') :
    p' = { p with rc4 := p'.rc4 } := by
  unfold freeRc4If at h
  split at h
  · rw [Proc.freeRc4_eq_ok h]
  · cases h
    rfl

theorem connErrExit_eq_ok (hr : connErrExit s x = .ok s') : ∃ c p₁ p₂, s.conns x = some c ∧
    (s.proc.unregister c.sock x .radmsrvConn).close c.sock = .ok p₁ ∧ p₁.freeRc4 c.rc4Dec = .ok p₂ ∧
    s' = { s with proc := p₂, conns := update s.conns x none } := by
  simp only [connErrExit, Res.bind_eq_ok, Res.deref_eq_ok, Res.pure_eq, Res.ok.injEq] at hr
  obtain ⟨c, hc, p₁, h₁, p₂, h₂, rfl⟩ := hr
  exact ⟨c, p₁, p₂, hc, h₁, h₂, rfl⟩

theorem connAttach_eq_ok {isRadmin : Int} (hr : connAttach s x y isRadmin = .ok s') :
    ∃ c k p₁ p₂, s.conns x = some c ∧ s.clis y = some k ∧
      (if k.rSock > 0 then s.proc.close k.rSock else .ok s.proc) = .ok p₁ ∧
      freeRc4If p₁ k.rc4Dec = .ok p₂ ∧
      s' = { s.setCli y { k with rSock := c.sock, isRadmin := isRadmin, rc4Dec := c.rc4Dec } with
        proc := (p₂.register k.lSock sockin y .radmcliAccept).unregister c.sock x .radmsrvConn
        conns := update s.conns x none } := by
  unfold connAttach at hr
  obtain ⟨c, hc, hr⟩ := Res.bind_eq_ok.1 hr
  obtain ⟨k, hk, hr⟩ := Res.bind_eq_ok.1 hr
  split at hr
  · obtain ⟨p₁, h₁, hr⟩ := Res.bind_eq_ok.1 hr
    obtain ⟨p₂, h₂, hr⟩ := Res.bind_eq_ok.1 hr
    cases hr
    exact ⟨c, k, p₁, p₂, Res.deref_eq_ok.1 hc, Res.deref_eq_ok.1 hk, (if_pos ‹_›).trans h₁, h₂, rfl⟩
  · obtain ⟨p₁, h₁, hr⟩ := Res.bind_eq_ok.1 hr
    obtain ⟨p₂, h₂, hr⟩ := Res.bind_eq_ok.1 hr
    cases hr
    exact ⟨c, k, p₁, p₂, Res.deref_eq_ok.1 hc, Res.deref_eq_ok.1 hk, (if_neg ‹_›).trans h₁, h₂, rfl⟩

theorem radmsrvLink_eq_ok {id : CString} {c : Radmcli} (hr : radmsrvLink s id x c = .ok s') :
    s'.proc = s.proc ∧ s'.rc4Key = s.rc4Key := by
  have hlink : ∀ first : Bool, (if first = true then
        (.ok { s.setCli x { c with next := s.clients } with clients := x, created := s.created + 1 } :
          Res Server)
      else do
        let y ← advanceTo s.next (s.greater id) (s.created + 1) s.clients
        let t ← Res.deref s.clis y
        return { (s.setCli x { c with next := t.next }).setCli y { t with next := x } with
          created := s.created + 1 }) = .ok s' → s'.proc = s.proc ∧ s'.rc4Key = s.rc4Key := by
    intro first hr
    split at hr
    · cases hr
      exact ⟨rfl, rfl⟩
    · obtain ⟨y, -, hr⟩ := Res.bind_eq_ok.1 hr
      obtain ⟨t, -, hr⟩ := Res.bind_eq_ok.1 hr
      cases hr
      exact ⟨rfl, rfl⟩
  unfold radmsrvLink at hr
  split at hr
  · exact hlink true hr
  · obtain ⟨first, -, hr⟩ := Res.bind_eq_ok.1 hr
    exact hlink first hr

/-- A new socket is all that `radmsrv_new_client` does to the process, and it may have closed it. -/
theorem radmsrvNewClient_eq_ok {id : CString} {i : NewClientIn}
    (hr : radmsrvNewClient s id i = .ok (y, s')) : s'.rc4Key = s.rc4Key ∧
      (s'.proc = s.proc ∨ ∃ sock p, s.proc.newSock i.sock = some (sock, p) ∧
        (s'.proc = p ∨ p.close sock = .ok s'.proc)) := by
  unfold radmsrvNewClient at hr
  split at hr
  · split at hr
    · cases hr
    · cases hr
      exact ⟨rfl, .inl rfl⟩
  · rename_i sock p hsock
    obtain ⟨⟨bound, s₁⟩, hbind, hr⟩ := Res.bind_eq_ok.1 hr
    rcases radmsrvBind_cases i.bind 10 0 { s with proc := p } with hexit | ⟨b, port, hok⟩
    · rw [hexit] at hbind
      cases hbind
    rw [hok] at hbind
    cases hbind
    dsimp only at hr
    split at hr
    · obtain ⟨p₁, h₁, hr⟩ := Res.bind_eq_ok.1 hr
      cases hr
      exact ⟨rfl, .inr ⟨sock, p, hsock, .inr h₁⟩⟩
    · split at hr
      · obtain ⟨p₁, h₁, hr⟩ := Res.bind_eq_ok.1 hr
        split at hr
        · cases hr
        · cases hr
          exact ⟨rfl, .inr ⟨sock, p, hsock, .inr h₁⟩⟩
      · split at hr
        · cases hr
        · obtain ⟨s₂, hlink, hr⟩ := Res.bind_eq_ok.1 hr
          obtain ⟨⟨ts, r⟩, -, hr⟩ := Res.bind_eq_ok.1 hr
          cases hr
          obtain ⟨hproc, hkey⟩ := radmsrvLink_eq_ok hlink
          exact ⟨hkey, .inr ⟨sock, p, hsock, .inl hproc⟩⟩

/-! ## A device connects -/

/-- Only the timers changed. -/
theorem Inv.setTimers (h : Inv s q l ds idle fresh) {ts : Timers TimerCallBack} {q' : Queue}
    {idle' : Ptr → Prop} (htimed : Timed TimerCallBack.interval ts q' s.timerOf idle') :
    Inv { s with timers := ts } q' l ds idle' fresh where
  proc := h.proc
  clients := h.clients.congr rfl rfl rfl
  whole := h.whole
  conns := h.conns
  addresses := ⟨htimed, h.addresses.ips, h.addresses.log⟩
  notes := h.notes

/-- **`radmsrv_find_client`.** -/
theorem radmsrvFindClient_ok (h : Inv s q l ds idle fresh) (id : CString) (isRadmin : Int) :
    (∃ cli c ts q', radmsrvFindClient s id isRadmin = .ok (cli, { s with timers := ts }) ∧ cli ≠ 0 ∧
      s.clis cli = some c ∧ c.id = id ∧ c.isRadmin = isRadmin ∧
      ts.inCheckTimeoutLock = s.timers.inCheckTimeoutLock ∧
      Inv { s with timers := ts } q' l ds idle fresh) ∨
    radmsrvFindClient s id isRadmin = .ok (0, s) ∧
      ∀ p c, s.objects p = some c → c.id = id → c.isRadmin ≠ isRadmin := by
  unfold radmsrvFindClient
  rcases findClient_cases h.clients id isRadmin with ⟨cli, c, hwalk, hc, hid, hr⟩ | ⟨hwalk, hno⟩
  · have hx := clis_some hc
    have hne := h.clients.ne_zero hx
    have howner : s.timerOf .timeoutDel cli = some c.deltimer := by
      simp [Server.timerOf, hx, Radmcli.view]
    obtain ⟨ts, q', hrestart, hfr, htimed⟩ :=
      h.addresses.timed.restart (h.addresses.timed.isSome howner)
    refine .inl ⟨cli, c, ts, q', ?_, hne, hc, hid, hr, hfr.lock, h.setTimers htimed⟩
    simp only [hwalk, Res.ok_bind, if_neg hne, Res.deref_of_some hc, hrestart, Res.pure_eq]
  · refine .inr ⟨?_, hno⟩
    simp only [hwalk, Res.ok_bind, if_true, Res.pure_eq]

/-- The connection at `x` waits in the client at `y`. -/
structure Attached (s : Server) (x : Ptr) (c : Radmconn) (y : Ptr) (id : CString) (isRadmin : Int)
    (s' : Server) : Prop where
  client : ∃ k, s'.objects y = some k ∧ k.id = id ∧ k.isRadmin = isRadmin ∧ k.rSock = c.sock ∧
    k.rc4Dec = c.rc4Dec
  conns : s'.conns = update s.conns x none
  rc4 : s'.proc.rc4 c.rc4Dec = s.proc.rc4 c.rc4Dec
  others : ∀ p, p ≠ y → s'.objects p = s.objects p

/-- **The end of `radmsrv_conn_callback`.** -/
theorem connAttach_ok (h : Inv s q l ds idle fresh) {y : Ptr} {c : Radmconn} {k : Radmcli}
    {isRadmin : Int} (hc : s.conns x = some c) (hk : s.clis y = some k)
    (hkey : ∀ p d, s.objects p = some d → d.id = k.id → d.isRadmin = isRadmin → p = y)
    (htype : isRadmin ≠ 0) (hfresh : ∀ z, fresh z → z = y) :
    ∃ p s', connAttach s x y isRadmin = .ok s' ∧ Inv s' q l ds idle nobody ∧
      s' = { s with proc := p, conns := s'.conns, clis := s'.clis } ∧
      Attached s x c y k.id isRadmin s' := by
  have hx := clis_some hk
  obtain ⟨hsock, hrc, hkeyc⟩ := slots_of_conn hc
  obtain ⟨hfdl, hfdd, hrcd, hkeyl⟩ := slots_of_cli hk
  have hpos : 0 < c.sock := h.fd_pos hsock (by simp)
  obtain ⟨st, hst⟩ := h.proc.rc4_isSome (a := Slot.conn x) hrc
  have hne : c.rc4Dec ≠ 0 := by
    intro hc0
    rw [hc0, h.proc.rc4_zero] at hst
    cases hst
  have hother : k.rc4Dec ≠ 0 → c.rc4Dec ≠ k.rc4Dec := by
    intro h0 heq
    rw [if_pos h0, ← heq] at hrcd
    cases h.proc.rc4_inj (a := Slot.conn x) (b := Slot.device y) hrc hrcd
  obtain ⟨p₁, hclose, hp₁, h1⟩ := closeIf_ok (a := Slot.device y) h.proc hfdd
  obtain ⟨p₂, hfree, hp₂, hrc4, h2⟩ := freeIf_ok (a := Slot.device y) h1 hrcd
  have h3 := register_ok h2 (h.proc.opened_of (a := Slot.listen y) hfdl).2 sockin y .radmcliAccept rfl
  have h4 := unregister_ok h3 c.sock x .radmsrvConn rfl
  have h5 := h4.moveFd (a := Slot.conn x) (b := Slot.device y)
    (show _ = some c.sock by simp [Ext.want, hsock])
    (by simp [Ext.want])
  have h6 := h5.moveRc4 (a := Slot.conn x) (b := Slot.device y) (show _ = some c.rc4Dec by
    simp [Ext.want, hrc]) (by simp [Ext.want])
  set p := (p₂.register k.lSock sockin y .radmcliAccept).unregister c.sock x .radmsrvConn with hp
  set k' : Radmcli := { k with rSock := c.sock, isRadmin := isRadmin, rc4Dec := c.rc4Dec } with hk'
  set conns := update s.conns x none with hconns
  obtain ⟨hfd₁, hrc₁, hkey₁⟩ := slots_conn s { s with conns := conns } rfl rfl rfl hconns
  obtain ⟨hfd₂, hrc₂, hkey₂⟩ := slots_cli { s with conns := conns }
    ({ s with conns := conns }.setCli y k') rfl rfl rfl (objects_setCli ..)
  have hwait : k'.view.Waiting := ⟨hpos, hne⟩
  have hinv : ProcInv (ext ({ s with proc := p, conns := conns }.setCli y k')) p := by
    refine h6.congr (fun a => (congrFun hfd₂ a).trans ?_) (fun a => (congrFun hrc₂ a).trans ?_)
      fun k => (wants_congr hkey₂ k).trans ?_
    · rw [hfd₁]
      cases a with
      | listen z => by_cases hz : z = y <;> simp [Ext.want, hz, hfdl, hk', Radmcli.view]
      | device z => by_cases hz : z = y <;> simp [Ext.want, hz, hk', Radmcli.view, hpos]
      | conn z => by_cases hz : z = x <;> simp [Ext.want, hz]
      | _ => simp [Ext.want]
    · rw [hrc₁]
      cases a with
      | device z => by_cases hz : z = y <;> simp [Ext.want, hz, hk', Radmcli.view, hne]
      | conn z => by_cases hz : z = x <;> simp [Ext.want, hz]
      | _ => simp [Ext.want]
    · rw [hkey₁, Option.bind_some, if_pos hwait]
      have hconn : (∃ b, update s.keyOf (.conn x) none b = some k) ↔
          k ≠ (c.sock, x, .radmsrvConn) ∧ ∃ b, s.keyOf b = some k := by
        refine exists_update_none (fun k hk => ?_) fun b hb => keyOf_conn hb rfl
        rw [hkeyc] at hk
        exact (Option.some.inj hk).symm
      refine (exists_update_some fun k hk => ?_).trans ?_
      · rw [Option.map_none, update_of_ne (by simp), hkeyl] at hk
        split at hk
        · exact (Option.some.inj hk).symm
        · cases hk
      · rw [Option.map_none, hconn]
        show _ ↔ k ≠ _ ∧ (k = _ ∨ ∃ b, s.keyOf b = some k)
        refine ⟨?_, ?_⟩
        · rintro (rfl | ⟨hne, hb⟩)
          · exact ⟨by simp, .inl rfl⟩
          · exact ⟨hne, .inr hb⟩
        · rintro ⟨hne, rfl | hb⟩
          · exact .inl rfl
          · exact .inr ⟨hne, hb⟩
  have hres : Inv ({ s with proc := p, conns := conns }.setCli y k') q l ds idle nobody :=
    h.setClient hk rfl rfl rfl hkey ⟨.inl hwait, htype⟩ (fun z hz hne => hne (hfresh z hz))
      (update_conns h.conns fun c hc => by cases hc) hinv
  refine ⟨p, _, ?_, hres, rfl, ?_, rfl, ?_, ?_⟩
  · unfold connAttach
    rw [Res.deref_of_some hc, Res.ok_bind, Res.deref_of_some hk, Res.ok_bind]
    by_cases hr : k.rSock > 0
    · rw [if_pos hr] at hclose ⊢
      simp only [hclose, Res.ok_bind, hfree]
      rfl
    · rw [if_neg hr] at hclose ⊢
      cases hclose
      simp only [Res.ok_bind, hfree]
      rfl
  · exact ⟨k'.view, by rw [objects_setCli]; exact update_self .., rfl, rfl, rfl, rfl⟩
  · show p₂.rc4 c.rc4Dec = _
    rw [← show p₁.rc4 = s.proc.rc4 by rw [hp₁]]
    by_cases h0 : k.rc4Dec = 0
    · exact hrc4 _ (by rw [h0]; exact hne)
    · exact hrc4 _ (hother h0)
  · intro z hz
    rw [objects_setCli]
    exact update_of_ne hz ..

/-! ## The end of a connection -/

/-- The connection at `x` has come to its end: if a client has its socket now, then with its cipher
state. -/
structure Settled (s : Server) (x : Ptr) (c : Radmconn) (s' : Server) : Prop where
  conns : s'.conns x = none
  client : ∀ y k, s'.objects y = some k → k.rSock = c.sock →
    k.rc4Dec = c.rc4Dec ∧ s'.proc.rc4 c.rc4Dec = s.proc.rc4 c.rc4Dec
  rcvd : s'.proc.rcvd c.sock = s.proc.rcvd c.sock
  sent : s'.proc.sent c.sock = s.proc.sent c.sock
  key : s'.rc4Key = s.rc4Key

theorem Inv.rSock_ne (h : Inv s q l ds idle fresh) (hc : s.conns x = some c)
    {k : Radmcli} (hk : s.objects y = some k) : k.rSock ≠ c.sock := by
  intro heq
  obtain ⟨k', hk', rfl⟩ := objects_some hk
  obtain ⟨hsock, -, -⟩ := slots_of_conn hc
  obtain ⟨-, hdevice, -, -⟩ := slots_of_cli hk'
  have hpos : k'.rSock > 0 := by
    rw [show k'.rSock = c.sock from heq]
    exact h.fd_pos hsock (by simp)
  rw [if_pos hpos, show k'.rSock = c.sock from heq] at hdevice
  cases h.proc.fd_inj (a := Slot.conn x) (b := Slot.device y) hsock hdevice

theorem connErrExit_settled (h : Inv s q l ds idle fresh)
    (hc : s.conns x = some c) (hr : connErrExit s x = .ok s') : Settled s x c s' := by
  obtain ⟨c', p₁, p₂, hc', h₁, h₂, rfl⟩ := connErrExit_eq_ok hr
  obtain rfl := Option.some.inj (hc.symm.trans hc')
  have hp₁ := Proc.close_frame h₁
  have hp₂ := Proc.freeRc4_eq_ok h₂
  refine ⟨update_self .., fun y k hk heq => absurd heq (h.rSock_ne hc hk), ?_, ?_, rfl⟩
  · show p₂.rcvd c.sock = _
    rw [hp₂, hp₁]
    rfl
  · show p₂.sent c.sock = _
    rw [hp₂, hp₁]
    rfl

/-- A new client is nothing to a connection. -/
theorem radmsrvNewClient_settled (hopened : s.proc.opened c.sock = true) {id : CString} {i : NewClientIn}
    {s₁ : Server} (hr : radmsrvNewClient s id i = .ok (y, s₁)) (h : Settled s₁ x c s') :
    Settled s x c s' := by
  obtain ⟨hkey, hproc⟩ := radmsrvNewClient_eq_ok hr
  obtain ⟨hrcvd, hsent, hrc4⟩ : s₁.proc.rcvd c.sock = s.proc.rcvd c.sock ∧
      s₁.proc.sent c.sock = s.proc.sent c.sock ∧ s₁.proc.rc4 = s.proc.rc4 := by
    cases hproc with
    | inl hproc =>
      rw [hproc]
      exact ⟨rfl, rfl, rfl⟩
    | inr hproc =>
      obtain ⟨sock, p, hsock, hp⟩ := hproc
      obtain ⟨-, -, hfresh, rfl⟩ := Proc.newSock_eq_some hsock
      have hne : c.sock ≠ sock := by
        intro hc
        rw [← hc, hopened] at hfresh
        cases hfresh
      have hopen : (s.proc.openSock sock).rcvd c.sock = s.proc.rcvd c.sock ∧
          (s.proc.openSock sock).sent c.sock = s.proc.sent c.sock ∧
          (s.proc.openSock sock).rc4 = s.proc.rc4 := ⟨update_of_ne hne .., update_of_ne hne .., rfl⟩
      cases hp with
      | inl hp => rwa [hp]
      | inr hclose =>
        rw [Proc.close_frame hclose]
        exact hopen
  exact ⟨h.conns, fun y k hk heq => hrc4 ▸ h.client y k hk heq, h.rcvd.trans hrcvd, h.sent.trans hsent,
    h.key.trans hkey⟩

theorem connAttach_settled (h : Inv s q l ds idle fresh)
    (hc : s.conns x = some c) {isRadmin : Int}
    (hr : connAttach s x y isRadmin = .ok s') {id : CString} (hatt : Attached s x c y id isRadmin s') :
    Settled s x c s' := by
  obtain ⟨c', k', p₁, p₂, hc', -, h₁, h₂, rfl⟩ := connAttach_eq_ok hr
  obtain rfl := Option.some.inj (hc.symm.trans hc')
  have hp₂ := freeRc4If_eq_ok h₂
  have hp₁ : p₁ = { s.proc with opened := p₁.opened } := by
    split at h₁
    · exact Proc.close_frame h₁
    · cases h₁
      rfl
  refine ⟨update_self .., fun z d hd heq => ⟨?_, hatt.rc4⟩, ?_, ?_, rfl⟩
  · by_cases hz : z = y
    · obtain ⟨d', hd', -, -, -, hrc4⟩ := hatt.client
      rw [hz] at hd
      obtain rfl := Option.some.inj (hd.symm.trans hd')
      exact hrc4
    · rw [hatt.others z hz] at hd
      exact absurd heq (h.rSock_ne hc hd)
  · show p₂.rcvd c.sock = _
    rw [hp₂, hp₁]
  · show p₂.sent c.sock = _
    rw [hp₂, hp₁]

theorem lineType_ne_zero {line : CString} {isRadmin : Int} (h : lineType line = some isRadmin) :
    isRadmin ≠ 0 := by
  unfold lineType at h
  split at h
  · cases h
    decide
  · split at h
    · cases h
      decide
    · split at h
      · cases h
        decide
      · cases h

/-- A line names a type, and there is a client of its id and type or a new one can listen. -/
def Admits (s : Server) (line : CString) (new : NewClientIn) (isRadmin : Int) : Prop :=
  lineType line = some isRadmin ∧
    ((∃ p c, s.objects p = some c ∧ c.id = line.drop 8 ∧ c.isRadmin = isRadmin) ∨ new.Listens s)

/-- **A whole line.** The connection waits in a client of the line's id and type, or is closed. -/
theorem connLine_ok (h : Inv s q l ds nobody nobody) {c : Radmconn} (hc : s.conns x = some c)
    {line : CString} (hline : line.bytes.length ≤ 255) (new : NewClientIn) :
    connLine s x line new = .exit ∧ (∀ isRadmin, ¬ Admits s line new isRadmin) ∨
    ∃ s' q' l', connLine s x line new = .ok s' ∧ Inv s' q' l' ds nobody nobody ∧
      s'.timers.inCheckTimeoutLock = s.timers.inCheckTimeoutLock ∧ Settled s x c s' ∧
      ∀ isRadmin, Admits s line new isRadmin → ∃ y, Attached s x c y (line.drop 8) isRadmin s' := by
  have hopened := (h.proc.opened_of (a := Slot.conn x) (slots_of_conn hc).1).1
  unfold connLine
  cases htype : lineType line with
  | none =>
    obtain ⟨p, herr, hinv⟩ := connErrExit_ok h hc
    refine .inr ⟨_, _, _, herr, hinv, rfl, connErrExit_settled h hc herr, fun isRadmin ha => ?_⟩
    rw [ha.1] at htype
    cases htype
  | some isRadmin =>
    have hne := lineType_ne_zero htype
    have hsame : ∀ r, Admits s line new r → r = isRadmin := fun r ha =>
      Option.some.inj (ha.1.symm.trans htype)
    have hid : (line.drop 8).bytes.length ≤ 255 := by
      show (line.bytes.drop 8).length ≤ 255
      rw [List.length_drop]
      omega
    rcases radmsrvFindClient_ok h (line.drop 8) isRadmin with
      ⟨cli, k, ts, q', hfind, hcli, hk, hkid, hkr, hlock, h'⟩ | ⟨hfind, hno⟩
    · obtain ⟨p, s', hrun, hinv, hs', hatt⟩ := connAttach_ok h' hc hk
        (fun p d hd hid hr => h.clients.unique p cli d k.view hd (clis_some hk) hid (hr.trans hkr.symm))
        hne fun _ hz => hz.elim
      have hset := connAttach_settled h' hc hrun hatt
      refine .inr ⟨s', _, _, ?_, hinv, by rw [hs']; exact hlock,
        ⟨hset.conns, hset.client, hset.rcvd, hset.sent, hset.key⟩, fun r ha => ⟨cli, ?_⟩⟩
      · simp only [hfind, Res.ok_bind, if_neg hcli, hrun]
      · rw [hsame r ha, ← hkid]
        exact ⟨hatt.client, hatt.conns, hatt.rc4, hatt.others⟩
    · have hnone : ∀ r, Admits s line new r → new.Listens s := by
        intro r ha
        cases ha.2 with
        | inl hex =>
          obtain ⟨p, d, hd, hdid, hdr⟩ := hex
          exact absurd (hdr.trans (hsame r ha)) (hno p d hd hdid)
        | inr hl => exact hl
      rcases radmsrvNewClient_ok h hid new with
        ⟨hexit, hnot⟩ | ⟨s₁, hnew, h', hconns, htimers, hnot⟩ |
        ⟨s₁, q', l', k, hnew, hcli, h', hconns, hrc4, hlock, -, hobjects, hk⟩
      · refine .inl ⟨?_, fun r ha => hnot (hnone r ha)⟩
        simp only [hfind, Res.ok_bind, if_true, hexit, Res.exit_bind]
      · have hc₁ : s₁.conns x = some c := by rw [hconns, hc]
        obtain ⟨p, herr, hinv⟩ := connErrExit_ok h' hc₁
        refine .inr ⟨_, _, _, ?_, hinv, by rw [← htimers],
          radmsrvNewClient_settled hopened hnew (connErrExit_settled h' hc₁ herr),
          fun r ha => absurd (hnone r ha) hnot⟩
        simp only [hfind, Res.ok_bind, if_true, hnew, herr]
      · obtain ⟨k', hk', hview⟩ := objects_some ((congrFun hobjects new.cli).trans (update_self ..))
        have hkid : k'.id = line.drop 8 := (view_eq.1 (hview.trans (by rw [← hview]; rfl))).1.trans hk.id
        have hc₁ : s₁.conns x = some c := by rw [hconns, hc]
        obtain ⟨p, s', hrun, hinv, hs', hatt⟩ := connAttach_ok h' hc₁ hk'
          (fun p d hd hid hr => by
            rw [hobjects] at hd
            by_contra hp
            rw [update_of_ne hp] at hd
            exact hno p d hd (hid.trans hkid) hr) hne fun _ hz => hz
        refine .inr ⟨s', _, _, ?_, hinv, by rw [hs']; exact hlock,
          radmsrvNewClient_settled hopened hnew (connAttach_settled h' hc₁ hrun hatt),
          fun r ha => ⟨new.cli, ?_⟩⟩
        · simp only [hfind, Res.ok_bind, if_true, hnew, if_neg hcli, hrun]
        · rw [hsame r ha, ← hkid]
          refine ⟨hatt.client, by rw [hatt.conns, hconns], by rw [hatt.rc4, hrc4], fun z hz => ?_⟩
          rw [hatt.others z hz, hobjects]
          exact update_of_ne hz ..

/-- The state that `radmsrv_conn_callback` works on once it has received something. -/
theorem Inv.received (h : Inv s q l ds idle fresh) {c : Radmconn} (hc : s.conns x = some c)
    (bytes : List UInt8) : ∃ st, s.proc.rc4 c.rc4Dec = some st ∧ ∃ p,
      (s.proc.receive c.sock bytes).crypt c.rc4Dec bytes = .ok ((rc4Crypt st bytes).1, p) ∧
      p = { s.proc.receive c.sock bytes with
        rc4 := update s.proc.rc4 c.rc4Dec (some (rc4Advance bytes.length st)) } ∧
      ∀ buf, buf.length ≤ 256 → Inv ({ s with proc := p }.setConn x { c with buf := buf }) q l ds idle
        fresh := by
  obtain ⟨hsock, hrc, hkey⟩ := slots_of_conn hc
  obtain ⟨st, hst⟩ := h.proc.rc4_isSome (a := Slot.conn x) hrc
  obtain ⟨p, hcrypt, hp, hinv⟩ := crypt_ok (h.proc.receive c.sock bytes) hst bytes
  refine ⟨st, hst, p, hcrypt, hp, fun buf hbuf => h.setConns (hinv.congr (fun a => ?_) (fun a => ?_)
    fun k => ?_) (update_conns h.conns fun c' hc' => by cases hc'; exact hbuf)⟩
  all_goals
    obtain ⟨hfd', hrc', hkey'⟩ := slots_conn s
      { s with conns := update s.conns x (some { c with buf := buf }) } rfl rfl rfl rfl
  · refine (congrFun hfd' a).trans (congrFun (update_eq_self_iff.2 ?_) a)
    exact hsock.symm
  · refine (congrFun hrc' a).trans (congrFun (update_eq_self_iff.2 ?_) a)
    exact hrc.symm
  · refine (wants_congr hkey' k).trans ?_
    rw [update_eq_self_iff.2]
    · rfl
    · exact hkey.symm

theorem setConn_setConn (s : Server) (x : Ptr) (c c' : Radmconn) :
    (s.setConn x c).setConn x c' = s.setConn x c' := by
  simp only [Server.setConn, update_idem]

/-- `recv` is asked for what still fits into the buffer. -/
theorem received_length {buf bytes : List UInt8} {recv : Option (List UInt8)}
    (hbuf : buf.length ≤ 256) (hrecv : recv.map (List.take (256 - buf.length)) = some bytes)
    (st : Rc4State) :
    (buf ++ (rc4Crypt st bytes).1).length ≤ 256 := by
  obtain ⟨all, -, htake⟩ := Option.map_eq_some_iff.1 hrecv
  have hle := List.length_take_le (256 - buf.length) all
  rw [htake] at hle
  rw [List.length_append, rc4Crypt_length]
  omega

/-- The terminator of a line takes the place of its end. -/
theorem line_length {buf : List UInt8} (hbuf : buf.length ≤ 256) (hlast : ¬ buf.getLast? ≠ some 10) :
    (buf.dropLast ++ [0]).length ≤ 256 ∧ (ofBuf buf.dropLast).bytes.length ≤ 255 := by
  have hpos : 0 < buf.length := by
    apply List.length_pos_of_ne_nil
    intro hnil
    rw [hnil] at hlast
    exact hlast (by simp)
  have hle : (buf.dropLast.takeWhile (· ≠ 0)).length ≤ buf.dropLast.length :=
    (List.takeWhile_sublist _).length_le
  rw [List.length_dropLast] at hle
  refine ⟨?_, ?_⟩
  · rw [List.length_append, List.length_dropLast, List.length_singleton]
    omega
  · show (buf.dropLast.takeWhile (· ≠ 0)).length ≤ 255
    omega

/-- **`radmsrv_conn_callback`.** -/
theorem radmsrvConnCallback_ok (h : Inv s q l ds nobody nobody) {c : Radmconn}
    (hc : s.conns x = some c) (i : ConnIn) :
    radmsrvConnCallback s x i = .exit ∨ ∃ s' q' l', radmsrvConnCallback s x i = .ok s' ∧
      Inv s' q' l' ds nobody nobody ∧
      s'.timers.inCheckTimeoutLock = s.timers.inCheckTimeoutLock := by
  obtain ⟨p, herr, hinv⟩ := connErrExit_ok h hc
  unfold radmsrvConnCallback
  rw [Res.deref_of_some hc, Res.ok_bind]
  by_cases hsockerr : i.sockerr = true
  · rw [if_pos hsockerr]
    exact .inr ⟨_, _, _, herr, hinv, rfl⟩
  rw [if_neg hsockerr]
  have hfail : (if i.emfile = true then Res.exit else connErrExit s x) = .exit ∨ ∃ s' q' l',
      (if i.emfile = true then Res.exit else connErrExit s x) = .ok s' ∧
        Inv s' q' l' ds nobody nobody ∧
        s'.timers.inCheckTimeoutLock = s.timers.inCheckTimeoutLock := by
    by_cases hem : i.emfile = true
    · exact .inl (if_pos hem)
    · exact .inr ⟨_, _, _, (if_neg hem).trans herr, hinv, rfl⟩
  cases hrecv : i.recv.map (List.take (256 - c.buf.length)) with
  | none => exact hfail
  | some bytes =>
    cases bytes with
    | nil => exact hfail
    | cons b bs =>
      obtain ⟨st, -, p, hcrypt, -, hrcvd⟩ := h.received hc (b :: bs)
      simp only [hcrypt, Res.ok_bind]
      have hlen := received_length (h.conns x c hc) hrecv st
      set buf := c.buf ++ (rc4Crypt st (b :: bs)).1 with hbuf
      by_cases hlast : buf.getLast? ≠ some 10
      · rw [if_pos hlast]
        exact .inr ⟨_, _, _, rfl, hrcvd buf hlen, rfl⟩
      · rw [if_neg hlast]
        obtain ⟨hdrop, hline⟩ := line_length hlen hlast
        have hinv' := hrcvd (buf.dropLast ++ [0]) hdrop
        rw [setConn_setConn]
        rcases connLine_ok hinv' (update_self ..) hline i.new with
          ⟨hexit, -⟩ | ⟨s', q', l', hrun, hinv, hlock, -, -⟩
        · exact .inl hexit
        · exact .inr ⟨s', q', l', hrun, hinv, hlock⟩

end

end Radmsrv
