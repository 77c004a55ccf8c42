import GoipRemote.Radmsrv.ServerInv

/-!
# The functions of `radmsrv/radm.c` against the invariant

One lemma a function: a client goes (`radmcliRelease_ok`, `radmsrvDel_ok`), gives the connection of its
device to a user (`radmcliAcceptCallback_ok`), and is made (`radmsrvNewClient_ok`).
-/

namespace Radmsrv

open Utils Relay Function LinkedList CString

section
variable {s s' : Server} {q : Queue} {l ds : List Ptr} {idle fresh fresh' : Ptr → Prop} {x : Ptr}

theorem timerOf_cli {v : Option Radmcli} (hdatas : s'.ipDatas = s.ipDatas)
    (hobjects : s'.objects = update s.objects x v) :
    s'.timerOf .timeoutDel x = v.map Radmcli.deltimer ∧
      ∀ k' x', ¬ (k' = .timeoutDel ∧ x' = x) → s'.timerOf k' x' = s.timerOf k' x' := by
  refine ⟨?_, ?_⟩
  · simp [Server.timerOf, hobjects]
  · intro k' x' hne
    cases k' with
    | ipTimeout => simp [Server.timerOf, hdatas]
    | timeoutDel =>
      have hx : x' ≠ x := fun hc => hne ⟨rfl, hc⟩
      simp [Server.timerOf, hobjects, hx]

/-! ## A client goes -/

/-- `close` where the socket may be `-1`. -/
theorem close_eq {p : Proc} {c : Radmcli} (hc : c.Whole) :
    p.close c.rSock = if c.rSock > 0 then p.close c.rSock else .ok p := by
  rcases hc.device with hw | ⟨hr, -⟩
  · rw [if_pos hw.1]
  · rw [if_neg (by omega), Proc.close, if_pos (by omega)]

/-- **`radmcli_release`**, after the client was unlinked. -/
theorem radmcliRelease_ok (h : Inv s q l ds idle fresh) {s₁ : Server} {clis : Ptr → Option Radmcli}
    {clients : Ptr} {c : Radmcli} (hs₁ : s₁ = { s with clis := clis, clients := clients })
    (hobjects : s₁.objects = s.objects) (hlist : IsList s₁.next s₁.clients (l.erase x))
    (hc : s.clis x = some c) (hwhole : c.Whole) :
    ∃ p timers s', radmcliRelease s₁ x = .ok s' ∧
      s' = { s with proc := p, timers := timers, clis := update clis x none, clients := clients } ∧
      s'.objects = update s.objects x none ∧
      timers.inCheckTimeoutLock = s.timers.inCheckTimeoutLock ∧
      Inv s' ((q.remove c.deltimer).remove c.deltimer) (l.erase x) ds
        (fun y => idle y ∧ y ≠ c.deltimer) fresh := by
  have hx := clis_some hc
  obtain ⟨c₁, hc₁, hview⟩ := objects_some ((congrFun hobjects x).trans hx)
  obtain ⟨-, hsock, hrsock, -, hrc4, htimer⟩ := view_eq.1 hview
  have hobj : ∀ p timers, Server.objects
      { s with proc := p, timers := timers, clis := update clis x none, clients := clients } =
        update s.objects x none := by
    intro p timers
    rw [← hobjects, hs₁]
    funext y
    by_cases hy : y = x <;> simp [Server.objects, hy]
  -- its timer
  obtain ⟨hnone, hother⟩ := timerOf_cli (s := s) (x := x) (v := none)
    (rfl : Server.ipDatas { s with clis := update clis x none, clients := clients } = s.ipDatas)
    (hobj s.proc s.timers)
  have howner : s.timerOf .timeoutDel x = some c.deltimer := by simp [Server.timerOf, hx, Radmcli.view]
  obtain ⟨ts₁, ts₂, hstop, hdestroy, hlock, htimed⟩ :=
    h.addresses.timed.stop_destroy howner hnone hother
  -- its sockets and cipher state
  obtain ⟨hfdl, hfdd, hrcd, hkey₀⟩ := slots_of_cli hc
  have h1 := unregister_ok h.proc c.lSock x .radmcliAccept rfl
  obtain ⟨p₂, hclose, -, h2⟩ := closeExt_ok h1 (a := Slot.listen x) hfdl
  obtain ⟨p₃, hclose', -, h3⟩ := closeIf_ok (a := Slot.device x) h2
    (by simpa using hfdd)
  obtain ⟨p₄, hfree, -, -, h4⟩ := freeIf_ok (a := Slot.device x) h3 hrcd
  obtain ⟨hfd, hrc, hkey⟩ := slots_cli s { s with clis := update clis x none, clients := clients } rfl
    rfl rfl (hobj s.proc s.timers)
  refine ⟨p₄, ts₂, _, ?_, rfl, hobj p₄ ts₂, hlock, h4.congr (congrFun hfd) (congrFun hrc) fun k => ?_,
    h.clients.erase ?_ (hobj p₄ ts₂) rfl, fun y d hd hy => ?_, h.conns,
    ⟨htimed, h.addresses.ips, h.addresses.log⟩, h.notes⟩
  · subst hs₁
    simp only [radmcliRelease, Res.deref_of_some hc₁, hsock, hrsock, hrc4, htimer, Res.ok_bind, hstop,
      hdestroy, hclose]
    rw [close_eq hwhole, hclose', Res.ok_bind, hfree]
    rfl
  · refine (wants_congr hkey k).trans (exists_update_none (fun k hk => ?_) fun b hb => ?_)
    · rw [hkey₀] at hk
      split at hk
      · exact (Option.some.inj hk).symm
      · cases hk
    · exact keyOf_listen hb rfl
  · have hnd := h.clients.list.nodup
    subst hs₁
    refine hlist.congr fun y hy => ?_
    have hyx : y ≠ x := (hnd.mem_erase_iff.1 hy).1
    simp [Server.next, hyx]
  · rw [hobj] at hd
    by_cases hyx : y = x
    · rw [hyx, update_self] at hd
      cases hd
    · rw [update_of_ne hyx] at hd
      exact h.whole y d hd hy

theorem Radmcli.Whole.of_view {c : Radmcli} (h : c.view.Whole) : c.Whole := ⟨h.device, h.type⟩

/-- **`radmsrv_del`** while there is a client. -/
theorem radmsrvDel_ok (h : Inv s q l ds idle nobody) (hzero : s.clients ≠ 0) (id : CString)
    (isRadmin : Int) :
    (∃ x c p timers clis clients s', s.clis x = some c ∧ c.id = id ∧ c.isRadmin = isRadmin ∧
      radmsrvDel s id isRadmin = .ok (s', 0) ∧
      s' = { s with proc := p, timers := timers, clis := clis, clients := clients } ∧
      s'.objects = update s.objects x none ∧
      timers.inCheckTimeoutLock = s.timers.inCheckTimeoutLock ∧
      Inv s' ((q.remove c.deltimer).remove c.deltimer) (l.erase x) ds
        (fun y => idle y ∧ y ≠ c.deltimer) nobody) ∨
    radmsrvDel s id isRadmin = .ok (s, -1) ∧
      ∀ p c, s.objects p = some c → c.id = id → c.isRadmin ≠ isRadmin := by
  rcases radmsrvDel_cases h.clients hzero id isRadmin with
    ⟨x, c, clis, clients, s₁, hc, hid, hr, hrun, hs₁, hlist, hobjects⟩ | hno
  · have hwhole := Radmcli.Whole.of_view (h.whole x _ (clis_some hc) fun hf => hf)
    obtain ⟨p, timers, s', hrel, hs', hobj, hlock, hinv⟩ :=
      radmcliRelease_ok h hs₁ hobjects hlist hc hwhole
    refine .inl ⟨x, c, p, timers, _, _, s', hc, hid, hr, ?_, hs', hobj, hlock, hinv⟩
    rw [hrun, hrel, Res.ok_bind]
  · exact .inr hno

/-! ## A client changes -/

/-- A client's connection, type and place in the process change. -/
theorem Inv.setClient (h : Inv s q l ds idle fresh) {c c' : Radmcli} {p : Proc}
    {conns : Ptr → Option Radmconn} (hc : s.clis x = some c) (hnext : c'.next = c.next)
    (hid : c'.id = c.id) (htimer : c'.deltimer = c.deltimer)
    (hkey : ∀ p d, s.objects p = some d → d.id = c.id → d.isRadmin = c'.isRadmin → p = x)
    (hwhole : c'.Whole) (hfresh : ∀ y, fresh y → y ≠ x → fresh' y)
    (hconns : ∀ x c, conns x = some c → c.buf.length ≤ 256)
    (hp : ProcInv (ext ({ s with proc := p, conns := conns }.setCli x c')) p) :
    Inv ({ s with proc := p, conns := conns }.setCli x c') q l ds idle fresh' where
  proc := hp
  clients := (h.clients.set hc hnext hid hkey).congr rfl rfl rfl
  whole := fun y d hd hy => by
    rw [objects_setCli] at hd
    by_cases hyx : y = x
    · rw [hyx, update_self] at hd
      cases hd
      exact ⟨hwhole.device, hwhole.type⟩
    · rw [update_of_ne hyx] at hd
      exact h.whole y d hd fun hc => hy (hfresh y hc hyx)
  conns := hconns
  addresses := by
    refine ⟨h.addresses.timed.congr (fun k y => ?_) fun _ => id, h.addresses.ips, h.addresses.log⟩
    have htim := timerOf_cli (s := s) (x := x) (v := some c'.view)
      (rfl : Server.ipDatas ({ s with proc := p, conns := conns }.setCli x c') = s.ipDatas)
      (objects_setCli { s with proc := p, conns := conns } x c')
    by_cases hky : k = .timeoutDel ∧ y = x
    · obtain ⟨rfl, rfl⟩ := hky
      rw [htim.1, Server.timerOf, clis_some hc]
      exact congrArg some htimer
    · exact htim.2 k y hky
  notes := h.notes

/-- Anyone may connect from a white address, and from one whose owner has logged in. -/
def Server.Allowed (s : Server) (ip : UInt32) : Prop :=
  checkWhiteIp s.whiteListIp ip = true ∨ ∃ t, Pending ip t s.log

/-- What `radmcli_accept_callback` does with a user's connection: it becomes a `struct fwd` with that of
the device, or is closed. -/
structure Forwarded (s : Server) (x : Ptr) (c : Radmcli) (i : UserIn) (sock : Int) (s' : Server) :
    Prop where
  fwds : s'.proc.fwds = update s.proc.fwds i.fwd (some (newFwd c.rSock sock i.rc4 c.rc4Dec))
  fresh : s.proc.fwds i.fwd = none
  opened : s'.proc.opened = update s.proc.opened sock true
  closed : s.proc.opened sock = false
  rcvd : s'.proc.rcvd = update s.proc.rcvd sock []
  sent : s'.proc.sent = update s.proc.sent sock []
  rc4 : s'.proc.rc4 = update s.proc.rc4 i.rc4 (some (rc4Setup s.rc4Key))
  free : s.proc.rc4 i.rc4 = none
  objects : s'.objects = update s.objects x (some { c.view with rSock := -1, rc4Dec := 0 })

@[inherit_doc Forwarded]
structure Refused (s : Server) (s' : Server) : Prop where
  fwds : s'.proc.fwds = s.proc.fwds
  opened : s'.proc.opened = s.proc.opened
  rcvd : ∀ fd, s.proc.opened fd = true → s'.proc.rcvd fd = s.proc.rcvd fd
  sent : ∀ fd, s.proc.opened fd = true → s'.proc.sent fd = s.proc.sent fd
  rc4 : s'.proc.rc4 = s.proc.rc4
  poll : s'.proc.poll = s.proc.poll
  clis : s'.clis = s.clis

/-- The system accepts a connection, and `malloc` succeeds. -/
structure UserIn.Fresh (p : Proc) (i : UserIn) : Prop where
  accept : (p.newSock i.accept).isSome = true
  rc4 : i.rc4 ≠ 0 ∧ p.rc4 i.rc4 = none
  fwd : i.fwd ≠ 0 ∧ p.fwds i.fwd = none

/-- **`radmcli_accept_callback`.** -/
theorem radmcliAcceptCallback_ok (h : Inv s q l ds idle nobody) {c : Radmcli} (hc : s.clis x = some c)
    (hw : c.Waiting) (i : UserIn) :
    (radmcliAcceptCallback s x i = .exit ∨ radmcliAcceptCallback s x i = .ok s) ∧ ¬ i.Fresh s.proc ∨
    ∃ sock p clis s', radmcliAcceptCallback s x i = .ok s' ∧ s' = { s with proc := p, clis := clis } ∧
      i.accept = some sock ∧ Inv s' q l ds idle nobody ∧
      (s.Allowed i.ip ∧ Forwarded s x c i sock s' ∨ ¬ s.Allowed i.ip ∧ Refused s s') := by
  have hx := clis_some hc
  unfold radmcliAcceptCallback
  rw [Res.deref_of_some hc, Res.ok_bind]
  cases hsock : s.proc.newSock i.accept with
  | none =>
    have hnot : ¬ i.Fresh s.proc := fun hf => by
      have hs := hf.accept
      rw [hsock] at hs
      cases hs
    by_cases hem : i.emfile = true
    · exact .inl ⟨.inl (if_pos hem), hnot⟩
    · exact .inl ⟨.inr (if_neg hem), hnot⟩
  | some a =>
    obtain ⟨sock, p₁⟩ := a
    obtain ⟨hr, hpos, hfresh, hp₁, h1⟩ := newSock_ok h.proc hsock (a := Slot.var) rfl
    obtain ⟨ipData, hget, hip⟩ := getIpData_pending h.addresses i.ip
    simp only [hget, Res.ok_bind]
    by_cases hno : ¬ checkWhiteIp s.whiteListIp i.ip = true ∧ ipData = 0
    · -- nobody from this address may connect
      have hnot : ¬ s.Allowed i.ip := by
        rintro (hwhite | hpend)
        · exact hno.1 hwhite
        · exact hip.2 hpend hno.2
      obtain ⟨p₂, hclose, hp₂, h2⟩ := closeExt_ok h1 (a := Slot.var) (show _ = some sock by simp)
      have hinv : ProcInv (ext s) p₂ := by
        refine h2.congr (fun a => ?_) (fun _ => rfl) fun _ => Iff.rfl
        by_cases ha : a = .var
        · rw [ha]
          simp [ext, Ext.ofSlots, Server.fdOf]
        · simp [ha]
      refine .inr ⟨sock, p₂, s.clis, _, ?_, rfl, hr, h.setProc hinv, .inr ⟨hnot, ?_⟩⟩
      · rw [if_pos hno, hclose]
        rfl
      · subst hp₂ hp₁
        have hne : ∀ fd, s.proc.opened fd = true → fd ≠ sock := by
          rintro fd hfd rfl
          rw [hfresh] at hfd
          cases hfd
        refine ⟨rfl, ?_, fun fd hfd => update_of_ne (hne fd hfd) .., fun fd hfd =>
          update_of_ne (hne fd hfd) .., rfl, rfl, rfl⟩
        show update (update s.proc.opened sock true) sock false = s.proc.opened
        rw [update_idem, update_eq_self_iff, hfresh]
    · have hallowed : s.Allowed i.ip := by
        by_cases hwhite : checkWhiteIp s.whiteListIp i.ip = true
        · exact .inl hwhite
        · exact .inr (hip.1 fun hc => hno ⟨hwhite, hc⟩)
      rcases newRc4_ok h1 i.rc4 (a := Slot.var) rfl s.rc4Key with hx | ⟨p₂, hnew, hfree, -, hp₂, h2⟩
      · refine .inl ⟨.inl (by rw [if_neg hno, hx]; rfl), fun hf => ?_⟩
        rw [Proc.newRc4, if_neg] at hx
        · cases hx
        · rw [hp₁]
          simp [hf.rc4.1, Proc.openSock, hf.rc4.2]
      obtain ⟨hfdl, hfdx, hrcx, hkey₀⟩ := slots_of_cli hc
      rw [if_pos hw.1] at hfdx
      rw [if_pos hw.2] at hrcx
      rw [if_pos hw] at hkey₀
      rcases doForward_ok (q := i.fwd) h2 (a := Slot.device x) (b := Slot.var)
          (c := Slot.device x) (g := Slot.var)
          (show _ = some c.rSock by simp [hfdx]) (show _ = some sock by simp) (by simp)
          (show _ = some c.rc4Dec by simp [hrcx]) (show _ = some i.rc4 by simp) (by simp) with
        hexit | ⟨p₃, hfwd, hnone, hfwds, hopened, hrcvd, hsent, hrc4, h3⟩
      · refine .inl ⟨.inl (by rw [if_neg hno, hnew, Res.ok_bind, hexit]; rfl), fun hf => ?_⟩
        rw [doForward, if_neg] at hexit
        · cases hexit
        · rw [hp₂, hp₁]
          simp [hf.fwd.1, Proc.openSock, hf.fwd.2]
      set c' : Radmcli := { c with rSock := -1, rc4Dec := 0 } with hc'
      have h4 := unregister_ok h3 c.lSock x .radmcliAccept rfl
      obtain ⟨hfd, hrc, hkey⟩ := slots_cli s (s.setCli x c') rfl rfl rfl (objects_setCli ..)
      have htype := (h.whole x _ hx fun hf => hf).type
      have hnowait : ¬ c'.view.Waiting := fun hc => hc.2 rfl
      have hp : ProcInv (ext ({ s with
          proc := p₃.unregister c.lSock x .radmcliAccept
          conns := s.conns }.setCli x c')) (p₃.unregister c.lSock x .radmcliAccept) := by
        refine h4.congr (fun a => (congrFun hfd a).trans ?_) (fun a => (congrFun hrc a).trans ?_)
          fun k => (wants_congr hkey k).trans ?_
        · cases a with
          | listen y =>
            by_cases hy : y = x <;> simp [hy, hfdl, hc', Radmcli.view]
          | device y => by_cases hy : y = x <;> simp [hy, hc', Radmcli.view]
          | _ => simp [Server.fdOf]
        · cases a with
          | device y => by_cases hy : y = x <;> simp [hy, hc', Radmcli.view]
          | _ => simp [Server.rc4Of]
        · rw [Option.bind_some, if_neg hnowait]
          refine exists_update_none (fun k hk => ?_) fun b hb => keyOf_listen hb rfl
          rw [hkey₀] at hk
          exact (Option.some.inj hk).symm
      have hkeys : ∀ p d, s.objects p = some d → d.id = c.id → d.isRadmin = c'.isRadmin → p = x :=
        fun p d hd hid hr => h.clients.unique p x d c.view hd hx hid hr
      have hinv : Inv ({ s with
          proc := p₃.unregister c.lSock x .radmcliAccept
          conns := s.conns }.setCli x c') q l ds idle nobody :=
        h.setClient hc rfl rfl rfl hkeys ⟨.inr ⟨rfl, rfl⟩, htype⟩ (fun _ hy _ => hy) h.conns hp
      refine .inr ⟨sock, _, _, _, ?_, rfl, hr, hinv, .inl ⟨hallowed, ?_⟩⟩
      · rw [if_neg hno, hnew, Res.ok_bind, hfwd]
        rfl
      · subst hp₁ hp₂
        exact ⟨hfwds, hnone, hopened, hfresh, hrcvd, hsent, hrc4, hfree, objects_setCli ..⟩

/-! ## A new client -/

theorem radmsrvAllocAddr_eq (s : Server) :
    ∃ a port, radmsrvAllocAddr s = (a, { s with getPort := port }) := by
  unfold radmsrvAllocAddr
  split
  · exact ⟨_, _, rfl⟩
  · exact ⟨0, s.getPort, rfl⟩

/-- The rounds of the loop up to the `m`-th find their port in use. -/
def Busy (bind : Nat → Option Bool) (i m : Nat) : Prop := ∀ j < m, bind (i + j) = some false

/-- **The loop that binds** ends in the first round that does not find its port in use. -/
theorem radmsrvBind_spec (bind : Nat → Option Bool) : ∀ (n i : Nat) (s : Server),
    radmsrvBind bind n i s = .exit ∧ (∃ m < n, bind (i + m) = some true ∧ Busy bind i m) ∨
    (∃ port, radmsrvBind bind n i s = .ok (false, { s with getPort := port })) ∧ Busy bind i n ∨
    (∃ port, radmsrvBind bind n i s = .ok (true, { s with getPort := port })) ∧
      ∃ m < n, bind (i + m) = none ∧ Busy bind i m
  | 0, _, s => .inr (.inl ⟨⟨s.getPort, rfl⟩, fun j hj => absurd hj (Nat.not_lt_zero j)⟩)
  | n + 1, i, s => by
    obtain ⟨a, port, hport⟩ := radmsrvAllocAddr_eq s
    have hfirst : Busy bind i 0 := fun j hj => absurd hj (Nat.not_lt_zero j)
    rw [radmsrvBind, hport]
    cases hb : bind i with
    | none => exact .inr (.inr ⟨⟨port, rfl⟩, 0, Nat.succ_pos n, hb, hfirst⟩)
    | some b =>
      cases b with
      | true => exact .inl ⟨rfl, 0, Nat.succ_pos n, hb, hfirst⟩
      | false =>
        have hround : ∀ m, i + 1 + m = i + (m + 1) := fun m => by omega
        have hbusy : ∀ {m}, Busy bind (i + 1) m → Busy bind i (m + 1) := by
          intro m h j hj
          cases j with
          | zero => exact hb
          | succ j =>
            rw [← hround]
            exact h j (Nat.lt_of_succ_lt_succ hj)
        obtain ⟨hexit, m, hm, hem, h⟩ | ⟨hok, h⟩ | ⟨hok, m, hm, hnone, h⟩ :=
          radmsrvBind_spec bind n (i + 1) { s with getPort := port }
        · exact .inl ⟨hexit, m + 1, Nat.succ_lt_succ hm, hround m ▸ hem, hbusy h⟩
        · exact .inr (.inl ⟨hok, hbusy h⟩)
        · exact .inr (.inr ⟨hok, m + 1, Nat.succ_lt_succ hm, hround m ▸ hnone, hbusy h⟩)

theorem radmsrvBind_cases (bind : Nat → Option Bool) (n i : Nat) (s : Server) :
    radmsrvBind bind n i s = .exit ∨
      ∃ b port, radmsrvBind bind n i s = .ok (b, { s with getPort := port }) := by
  rcases radmsrvBind_spec bind n i s with ⟨hexit, -⟩ | ⟨⟨port, hok⟩, -⟩ | ⟨⟨port, hok⟩, -⟩
  · exact .inl hexit
  · exact .inr ⟨false, port, hok⟩
  · exact .inr ⟨true, port, hok⟩

/-- A round that binds, after others that find their port in use, ends the loop. -/
theorem radmsrvBind_bound (bind : Nat → Option Bool) {n m i : Nat} (s : Server) (hm : m < n)
    (hbound : bind (i + m) = none) (hbusy : Busy bind i m) :
    ∃ port, radmsrvBind bind n i s = .ok (true, { s with getPort := port }) := by
  rcases radmsrvBind_spec bind n i s with ⟨-, k, -, hem, hk⟩ | ⟨-, hall⟩ | ⟨hok, -⟩
  · rcases Nat.lt_trichotomy k m with hlt | rfl | hlt
    · rw [hbusy k hlt] at hem
      cases hem
    · rw [hbound] at hem
      cases hem
    · rw [hk m hlt] at hbound
      cases hbound
  · rw [hall m hm] at hbound
    cases hbound
  · exact hok

/-- A socket can be opened, is bound in one of the ten rounds and listens, and `malloc` succeeds. -/
structure NewClientIn.Listens (s : Server) (i : NewClientIn) : Prop where
  sock : (s.proc.newSock i.sock).isSome = true
  bind : ∃ n < 10, i.bind n = none ∧ ∀ m < n, i.bind m = some false
  listen : i.listen = none
  cli : i.cli ≠ 0 ∧ s.clis i.cli = none
  timer : i.timer ≠ 0 ∧ s.timers.timers i.timer = none

theorem NewClientIn.Listens.congr {i : NewClientIn} (h : i.Listens s)
    (hopened : s'.proc.opened = s.proc.opened) (hclis : s'.clis = s.clis)
    (htimers : s'.timers = s.timers) : i.Listens s' where
  sock := (newSock_isSome hopened i.sock).trans h.sock
  bind := h.bind
  listen := h.listen
  cli := hclis ▸ h.cli
  timer := htimers ▸ h.timer

/-- The process and the next port changed. -/
theorem Inv.setPort (h : Inv s q l ds idle fresh) {p : Proc} (port : UInt16)
    (hp : ProcInv (ext s) p) : Inv { s with proc := p, getPort := port } q l ds idle fresh where
  proc := hp
  clients := h.clients.congr rfl rfl rfl
  whole := h.whole
  conns := h.conns
  addresses := ⟨h.addresses.timed, h.addresses.ips, h.addresses.log⟩
  notes := h.notes

/-- A socket in a variable is closed. -/
theorem closeVar_ok {p : Proc} {sock : Int} (hp : ProcInv ((ext s).setFd .var (some sock)) p) :
    ∃ p', p.close sock = .ok p' ∧ ProcInv (ext s) p' := by
  obtain ⟨p', hclose, -, h'⟩ := closeExt_ok hp (a := Slot.var) (show _ = some sock by simp)
  refine ⟨p', hclose, h'.congr (fun a => ?_) (fun _ => rfl) fun _ => Iff.rfl⟩
  by_cases ha : a = .var
  · rw [ha]
    simp [ext, Ext.ofSlots, Server.fdOf]
  · simp [ha]

/-- A client that `radmsrv_new_client` has just made. -/
structure Radmcli.New (c : Radmcli) (id : CString) : Prop where
  id : c.id = id
  isRadmin : c.isRadmin = 0
  rSock : c.rSock = 0
  rc4Dec : c.rc4Dec = 0

/-- `MYDLOG` of `radmsrv_new_client` finds errno 24, or `malloc` answers nothing new. -/
def NewClientIn.Exits (i : NewClientIn) (s : Server) : Prop :=
  s.proc.newSock i.sock = none ∧ i.emfile = true ∨ (∃ n, i.bind n = some true) ∨ i.listen = some true ∨
    i.cli = 0 ∨ (s.clis i.cli).isSome = true ∨ i.timer = 0 ∨ (s.timers.timers i.timer).isSome = true

/-- Where no new client can listen, `radmsrv_new_client` changes no client. -/
theorem radmsrvNewClient_none (h : Inv s q l ds idle fresh) (id : CString) {i : NewClientIn}
    (hno : ¬ i.Listens s) : radmsrvNewClient s id i = .exit ∧ i.Exits s ∨
      ∃ p port, radmsrvNewClient s id i = .ok (0, { s with proc := p, getPort := port }) ∧
        Inv { s with proc := p, getPort := port } q l ds idle fresh := by
  unfold radmsrvNewClient
  cases hsock : s.proc.newSock i.sock with
  | none =>
    by_cases hem : i.emfile = true
    · exact .inl ⟨if_pos hem, .inl ⟨hsock, hem⟩⟩
    · exact .inr ⟨s.proc, s.getPort, if_neg hem, h⟩
  | some a =>
    obtain ⟨sock, p₁⟩ := a
    obtain ⟨-, -, -, -, h1⟩ := newSock_ok h.proc hsock (a := Slot.var) rfl
    obtain ⟨p₂, hclose, h2⟩ := closeVar_ok h1
    obtain ⟨hexit, m, -, hem, -⟩ | ⟨⟨port, hbind⟩, -⟩ | ⟨⟨port, hbind⟩, m, hm, hbound, hbusy⟩ :=
      radmsrvBind_spec i.bind 10 0 { s with proc := p₁ }
    · left
      simp only [hexit, Res.exit_bind, true_and]
      exact .inr (.inl ⟨_, hem⟩)
    · refine .inr ⟨p₂, port, ?_, h.setPort port h2⟩
      simp only [hbind, Res.ok_bind, Bool.false_eq_true, not_false_eq_true, if_true, hclose, Res.pure_eq]
    · simp only [hbind, Res.ok_bind, not_true_eq_false, if_false]
      by_cases hlisten : i.listen.isSome = true
      · simp only [if_pos hlisten, hclose, Res.ok_bind, Res.pure_eq]
        by_cases hem : i.listen = some true
        · exact .inl ⟨if_pos hem, .inr (.inr (.inl hem))⟩
        · exact .inr ⟨p₂, port, if_neg hem, h.setPort port h2⟩
      · rw [if_neg hlisten]
        by_cases hfresh : i.cli = 0 ∨ (s.clis i.cli).isSome = true ∨ i.timer = 0 ∨
            (s.timers.timers i.timer).isSome = true
        · exact .inl ⟨if_pos hfresh, .inr (.inr (.inr hfresh))⟩
        · simp only [not_or, Option.not_isSome_iff_eq_none] at hfresh hlisten
          obtain ⟨hcli, hclis, htimer, htimers⟩ := hfresh
          rw [Nat.zero_add] at hbound
          refine absurd ⟨by rw [hsock]; rfl, ⟨m, hm, hbound, fun j hj => ?_⟩, hlisten, ⟨hcli, hclis⟩,
            htimer, htimers⟩ hno
          rw [← hbusy j hj, Nat.zero_add]

/-- Where it can, `radmsrv_new_client` makes it. -/
theorem radmsrvNewClient_listens (h : Inv s q l ds nobody nobody) {id : CString}
    (hid : id.bytes.length ≤ 255) {i : NewClientIn} (hl : i.Listens s) :
    ∃ s' q' l' c, radmsrvNewClient s id i = .ok (i.cli, s') ∧ i.cli ≠ 0 ∧
      Inv s' q' l' ds nobody (· = i.cli) ∧ s'.conns = s.conns ∧ s'.proc.rc4 = s.proc.rc4 ∧
      s'.timers.inCheckTimeoutLock = s.timers.inCheckTimeoutLock ∧ s.objects i.cli = none ∧
      s'.objects = update s.objects i.cli (some c) ∧ c.New id := by
  obtain ⟨⟨sock, p₁⟩, hsock⟩ := Option.isSome_iff_exists.1 hl.sock
  obtain ⟨-, -, -, hp₁, h1⟩ := newSock_ok h.proc hsock (a := Slot.var) rfl
  obtain ⟨n, hn, hnone, hbusy⟩ := hl.bind
  obtain ⟨port, hbind⟩ := radmsrvBind_bound i.bind (i := 0) { s with proc := p₁ } hn
    (by rw [Nat.zero_add, hnone]) fun m hm => by rw [Nat.zero_add, hbusy m hm]
  obtain ⟨hcli, hclis⟩ := hl.cli
  obtain ⟨htimer, htimers⟩ := hl.timer
  unfold radmsrvNewClient
  simp only [hsock, hbind, Res.ok_bind, not_true_eq_false, if_false, hl.listen, Option.isSome_none,
    Bool.false_eq_true, hcli, hclis, htimer, htimers, or_self]
  have hobj : s.objects i.cli = none := objects_none.2 hclis
  set s₁ : Server := { s with proc := p₁, getPort := port } with hs₁
  have hinv₁ : Clients s₁ l := h.clients.congr rfl rfl rfl
  have htake : id.take 255 = id := CString.ext (List.take_of_length_le hid)
  set c : Radmcli := ⟨0, id.take 255, sock, 0, 0, 0, i.timer⟩ with hc
  have hnew : ∀ p d, s₁.objects p = some d → d.id = c.id → d.isRadmin ≠ c.isRadmin :=
    fun p d hd _ => (h.whole p d hd fun hf => hf).type
  obtain ⟨clis, clients, s₂, l', hlink, hs₂, hclients, hobjects⟩ :=
    radmsrvLink_ok hinv₁ hcli (x := i.cli) hclis hnew
  rw [show c.id = id from htake] at hlink
  -- its timer
  obtain ⟨howner, hother⟩ := timerOf_cli (s := s) (x := i.cli) (v := some c.view)
    (show s₂.ipDatas = s.ipDatas by rw [hs₂, hs₁]) hobjects
  have hcreate := h.addresses.timed.create htimer htimers (by simp [Server.timerOf, hobj])
    howner hother
  obtain ⟨ts, r, q', hstart, hfr, htimed⟩ := hcreate.start (hcreate.isSome howner)
  have hstart' : startTimer (createTimer s₂.timers i.timer (30 * 60 * 1000) i.cli .timeoutDel)
      i.timer 1 = .ok (ts, r) := by
    rw [show s₂.timers = s.timers by rw [hs₂]]
    exact hstart
  obtain ⟨hfd, hrc, hkey⟩ := slots_cli s s₂ (x := i.cli) (v := some c.view) (by rw [hs₂]) (by rw [hs₂])
    (by rw [hs₂]) hobjects
  refine ⟨{ s₂ with timers := ts }, q', l', c.view, ?_, hcli, ?_, by rw [hs₂], ?_, ?_, hobj, hobjects,
    htake, rfl, rfl, rfl⟩
  · simp only [hlink, Res.ok_bind, hstart', Res.pure_eq]
  · refine ⟨?_, hclients.congr rfl rfl rfl, fun y d hd hy => ?_, ?_, ⟨?_, ?_, ?_⟩, ?_⟩
    · -- the listening socket goes from the variable to the client
      have hmove := h1.moveFd (a := Slot.var) (b := Slot.listen i.cli) (show _ = some sock by simp)
        (by simp [Server.fdOf, hobj])
      rw [show (Server.proc { s₂ with timers := ts }) = p₁ by rw [hs₂]]
      refine hmove.congr (fun a => (congrFun hfd a).trans ?_) (fun a => (congrFun hrc a).trans ?_)
        fun k => (wants_congr hkey k).trans ?_
      · cases a with
        | listen y => by_cases hy : y = i.cli <;> simp [hy, hc, Radmcli.view]
        | device y =>
          by_cases hy : y = i.cli <;>
            simp [Server.fdOf, hy, hc, hobj, Radmcli.view]
        | _ => simp [Server.fdOf]
      · cases a with
        | device y =>
          by_cases hy : y = i.cli <;>
            simp [Server.rc4Of, hy, hc, hobj, Radmcli.view]
        | _ => simp [Server.rc4Of]
      · have hnowait : ¬ c.view.Waiting := fun hw => hw.2 rfl
        rw [Option.bind_some, if_neg hnowait, update_eq_self_iff.2]
        · rfl
        · simp [Server.keyOf, hobj]
    · have hd' := (congrFun hobjects y).symm.trans hd
      rw [update_of_ne hy] at hd'
      exact h.whole y d hd' fun hf => hf
    · rw [hs₂]
      exact h.conns
    · exact htimed.congr (fun _ _ => rfl) fun y hi => hi.2 (hi.1.resolve_left fun hf => hf)
    · rw [hs₂]
      exact h.addresses.ips
    · rw [hs₂]
      exact h.addresses.log
    · rw [hs₂]
      exact h.notes
  · rw [hs₂, hs₁, hp₁]
    rfl
  · show ts.inCheckTimeoutLock = _
    rw [hfr.lock, createTimer, if_neg htimer]

/-- **`radmsrv_new_client`.** -/
theorem radmsrvNewClient_ok (h : Inv s q l ds nobody nobody) {id : CString} (hid : id.bytes.length ≤ 255)
    (i : NewClientIn) :
    radmsrvNewClient s id i = .exit ∧ ¬ i.Listens s ∨
    (∃ s', radmsrvNewClient s id i = .ok (0, s') ∧ Inv s' q l ds nobody nobody ∧ s'.conns = s.conns ∧
      s'.timers = s.timers ∧ ¬ i.Listens s) ∨
    ∃ s' q' l' c, radmsrvNewClient s id i = .ok (i.cli, s') ∧ i.cli ≠ 0 ∧
      Inv s' q' l' ds nobody (· = i.cli) ∧ s'.conns = s.conns ∧ s'.proc.rc4 = s.proc.rc4 ∧
      s'.timers.inCheckTimeoutLock = s.timers.inCheckTimeoutLock ∧ s.objects i.cli = none ∧
      s'.objects = update s.objects i.cli (some c) ∧ c.New id := by
  by_cases hl : i.Listens s
  · exact .inr (.inr (radmsrvNewClient_listens h hid hl))
  · rcases radmsrvNewClient_none h id hl with ⟨hexit, -⟩ | ⟨p, port, hnew, hinv⟩
    · exact .inl ⟨hexit, hl⟩
    · exact .inr (.inl ⟨_, hnew, hinv, rfl, rfl, hl⟩)

end

end Radmsrv
