import GoipRemote.Radmsrv.ConnInv

/-!
# Runs of the server

`step_good` and `run_good`: the invariant holds after every event of every run, and no event ends in a
fault. `create_good`: it holds when the server has been created.
-/

namespace Radmsrv

open Utils Relay Function LinkedList CString Ownership

section
variable {s s' : Server} {q : Queue} {l ds : List Ptr} {idle fresh : Ptr → Prop} {x : Ptr}

/-! ## The list as the log has it -/

/-- The clients of a list, without their links. -/
def listed (objects : Ptr → Option Radmcli) (l : List Ptr) : List (Ptr × Radmcli) :=
  l.filterMap fun p => (objects p).map fun c => (p, c)

theorem readClients_eq (h0 : s.clis 0 = none) : ∀ {l : List Ptr} {p : Ptr} {fuel : Nat},
    IsList s.next p l → (∀ x ∈ l, ∃ c, s.clis x = some c) → l.length < fuel →
    Server.readClients s.clis fuel p = listed s.objects l
  | _, _, 0, _, _, hf => absurd hf (Nat.not_lt_zero _)
  | [], p, fuel + 1, h, _, _ => by
    rw [isList_nil.1 h, Server.readClients, h0]
    rfl
  | x :: l, p, fuel + 1, h, hl, hf => by
    obtain ⟨rfl, -, h'⟩ := isList_cons.1 h
    obtain ⟨c, hc⟩ := hl p List.mem_cons_self
    have hnext : s.next p = c.next := by rw [Server.next, hc]; rfl
    rw [hnext] at h'
    rw [Server.readClients, hc, listed, List.filterMap_cons, clis_some hc]
    exact congrArg _ (readClients_eq h0 h' (fun x hx => hl x (List.mem_cons_of_mem _ hx))
      (Nat.lt_of_succ_lt_succ hf))

theorem registry_eq (h : Clients s l) : s.registry = listed s.objects l :=
  readClients_eq h.clis_zero h.list (fun _ hx => h.clis hx) (Nat.lt_succ_of_le h.length_le)

theorem mem_listed {objects : Ptr → Option Radmcli} {c : Radmcli} :
    (x, c) ∈ listed objects l ↔ x ∈ l ∧ objects x = some c := by
  simp [listed]

/-- The client list has the clients that are allocated. -/
theorem mem_registry (h : Clients s l) {c : Radmcli} : (x, c) ∈ s.registry ↔ s.objects x = some c := by
  rw [registry_eq h, mem_listed, h.mem]
  exact and_iff_right_of_imp fun hc => by rw [hc]; rfl

/-- Where there is a client the list is not empty. -/
theorem Clients.ne_nil (h : Clients s l) {c : Radmcli} (hx : s.objects x = some c) : s.clients ≠ 0 := by
  intro hzero
  have hxl : x ∈ l := (h.mem x).2 (by rw [hx]; rfl)
  rw [h.list.eq_zero_iff.1 hzero] at hxl
  cases hxl

theorem listed_erase {objects : Ptr → Option Radmcli} (hnd : l.Nodup) :
    listed (update objects x none) (l.erase x) = (listed objects l).filter fun a => a.1 ≠ x := by
  rw [hnd.erase_eq_filter, listed, listed, List.filterMap_filter, List.filter_filterMap]
  refine List.filterMap_congr fun p _ => ?_
  by_cases hp : p = x
  · subst hp
    cases objects p <;> simp [Option.filter]
  · cases hobj : objects p <;> simp [Option.filter, hp, hobj]

/-! ## A pass of the timers -/

/-- The addresses changed, and the log. -/
theorem Inv.setAddresses (h : Inv s q l ds idle fresh) {timers : Timers TimerCallBack}
    {ipList : Datalist} {ipDatas : Ptr → Option IpData} {log : List Note} {q' : Queue} {ds' : List Ptr}
    {idle' : Ptr → Prop}
    (haddr : Addresses { s with timers := timers, ipList := ipList, ipDatas := ipDatas, log := log } q'
      ds' idle') (hnotes : ∀ n ∈ log, n.Ok) :
    Inv { s with timers := timers, ipList := ipList, ipDatas := ipDatas, log := log } q' l ds' idle'
      fresh where
  proc := h.proc
  clients := h.clients.congr rfl rfl rfl
  whole := h.whole
  conns := h.conns
  addresses := haddr
  notes := hnotes

theorem cons_notes {n : Note} {log : List Note} (h : ∀ n ∈ log, n.Ok) (hn : n.Ok) :
    ∀ m ∈ n :: log, m.Ok := by
  intro m hm
  rcases List.mem_cons.1 hm with rfl | hm
  · exact hn
  · exact h m hm

/-- Something is noted in the log. -/
theorem Inv.note (h : Inv s q l ds idle fresh) {n : Note} (hn : n.Ok)
    (hlog : Logged (n :: s.log) s.ipDatas) : Inv { s with log := n :: s.log } q l ds idle fresh :=
  h.setAddresses ⟨h.addresses.timed, h.addresses.ips, hlog⟩ (cons_notes h.notes hn)

theorem Inv.idle_mono {idle' : Ptr → Prop} (h : Inv s q l ds idle fresh)
    (hidle : ∀ t, idle t → idle' t) : Inv s q l ds idle' fresh :=
  { h with addresses := { h.addresses with
      timed := h.addresses.timed.congr (fun _ _ => rfl) hidle } }

theorem remove_list_length (q : Queue) (t : Ptr) : (q.remove t).list.length ≤ q.list.length := by
  unfold Queue.remove
  split
  · exact List.eraseP_sublist.length_le
  · exact le_rfl

/-- **`timeout_del`**, when the timer of the client fires. -/
theorem timeoutDel_ok {t : Ptr} (h : Inv s q l ds (fun y => False ∨ y = t) nobody)
    (ht : s.timerOf .timeoutDel x = some t) :
    ∃ s' q' l', (timeoutDel { s with log := .fired t :: s.log } x >>= fun s' => .ok { s' with
        log := .expired t x (Server.registry { s with log := .fired t :: s.log }) s'.registry :: s'.log })
          = .ok s' ∧ Inv s' q' l' ds nobody nobody ∧
      s'.timers.inCheckTimeoutLock = s.timers.inCheckTimeoutLock ∧
      q'.list.length ≤ q.list.length := by
  obtain ⟨c₀, hx, htimer⟩ := Option.map_eq_some_iff.1 ht
  obtain ⟨c, hc, rfl⟩ := objects_some hx
  have hfired : Inv { s with log := .fired t :: s.log } q l ds (fun y => False ∨ y = t) nobody :=
    h.note trivial (h.addresses.log.fired_client h.addresses.timed (by decide) ht)
  rcases radmsrvDel_ok hfired (h.clients.ne_nil hx) c.id c.isRadmin with
    ⟨y, d, p, timers, clis, clients, s', hd, hdid, hdr, hrun, hs', hobjects, hlock, hinv⟩ | ⟨-, hno⟩
  · -- the client of that id and type is the one whose timer fired
    obtain rfl : y = x := h.clients.unique y x d.view c.view (clis_some hd) hx hdid hdr
    rw [show s.clis y = some d from hd] at hc
    cases hc
    have htimer' : c.deltimer = t := htimer
    have hidle : ∀ z, (False ∨ z = t) ∧ z ≠ c.deltimer → nobody z := fun z hz =>
      hz.2 (by rw [htimer']; exact hz.1.resolve_left fun hf => hf)
    have hbefore : Server.registry { s with log := .fired t :: s.log } = listed s.objects l :=
      registry_eq hfired.clients
    have hafter : s'.registry = (listed s.objects l).filter fun a => a.1 ≠ y := by
      rw [registry_eq hinv.clients, hobjects]
      exact listed_erase h.clients.list.nodup
    have hnote : (Note.expired t y (listed s.objects l) s'.registry).Ok :=
      ⟨⟨c.view, registry_eq h.clients ▸ (mem_registry h.clients).2 hx, htimer⟩, hafter⟩
    refine ⟨_, _, _, ?_, (hinv.idle_mono hidle).note hnote fun ip t' => ?_, ?_, ?_⟩
    · simp only [timeoutDel, Res.deref_of_some hd, Res.ok_bind, hrun, Res.pure_eq, hbefore]
    · exact pending_expired.trans (hinv.addresses.log ip t')
    · rw [hs']
      exact hlock
    · exact (remove_list_length _ _).trans (remove_list_length _ _)
  · exact absurd rfl (hno x c.view hx rfl)

/-- A round of the pass with its callback. -/
theorem call_ok {e : Armed} {rest pend : List Armed} {ts : Timers TimerCallBack} {d : Timeval}
    {tm : Timer TimerCallBack} (h : Inv s ⟨e :: rest, pend⟩ l ds nobody nobody)
    (hlock : s.timers.inCheckTimeoutLock = true) (hfr : Frame s.timers ts)
    (hs : Sound ts (Queue.fired e rest pend d)) (htm : ts.timers e.timer = some tm) :
    ∃ s' q' l' ds', Server.call e.timer tm { s with timers := ts } = .ok s' ∧
      Inv s' q' l' ds' nobody nobody ∧ s'.timers.inCheckTimeoutLock = true ∧
      q'.list.length ≤ rest.length := by
  obtain ⟨-, htimed⟩ := h.addresses.timed.fired hfr hs
  have h' : Inv { s with timers := ts } ⟨rest, pend⟩ l ds (fun y => False ∨ y = e.timer) nobody :=
    h.setTimers htimed
  obtain ⟨interval, ctxt, callBack⟩ := tm
  have howner : s.timerOf callBack ctxt = some e.timer := (htimed.owner _ _ _).2 ⟨_, htm, rfl, rfl⟩
  have hlock' : ts.inCheckTimeoutLock = true := hfr.lock.trans hlock
  cases callBack with
  | timeoutDel =>
    obtain ⟨s', q', l', hrun, hinv, hl, hlen⟩ := timeoutDel_ok h' howner
    exact ⟨s', q', l', ds, hrun, hinv, hl.trans hlock', hlen⟩
  | ipTimeout =>
    obtain ⟨timers, ipList, s', hrun, rfl, hl, haddr⟩ :=
      ipTimeout_ok h'.addresses.timed h'.addresses.ips h'.addresses.log howner
    exact ⟨_, _, l, _, hrun, h'.setAddresses haddr (cons_notes h.notes trivial), hl.trans hlock',
      remove_list_length _ _⟩

/-- The invariant between two events. -/
def Good (s : Server) : Prop :=
  ∃ q l ds, Inv s q l ds nobody nobody ∧ s.timers.inCheckTimeoutLock = false

/-- **A pass of the timers.** -/
theorem timerPass_good (h : Good s) : Res.Safe Good s.timerPass := by
  obtain ⟨q, l, ds, hinv, -⟩ := h
  rw [Server.timerPass, Res.safe_bind]
  refine (timerCheckTimeout_rule
    (I := fun w q => ∃ l ds, Inv w q l ds nobody nobody ∧ w.timers.inCheckTimeoutLock = true)
    (J := fun w q => ∃ l ds, Inv w q l ds nobody nobody ∧ w.timers.inCheckTimeoutLock = false)
    hinv.addresses.timed.sound ?_ ?_ ?_ ?_).mono ?_
  · exact ⟨l, ds, hinv.setTimers hinv.addresses.timed.enter, rfl⟩
  · intro w q ⟨l, ds, hw, hlock⟩
    exact ⟨hw.addresses.timed.sound, hlock⟩
  · intro w e rest pend ts d tm ⟨l, ds, hw, hlock⟩ _ hfr hs htm
    obtain ⟨s', q', l', ds', hrun, hinv', hlock', hlen⟩ := call_ok hw hlock hfr hs htm
    rw [hrun]
    exact ⟨q', ⟨l', ds', hinv', hlock'⟩, hlen⟩
  · intro w q ts ⟨l, ds, hw, _⟩ hs hlock htimers hmalloc
    exact ⟨l, ds, hw.setTimers (hw.addresses.timed.leave hs htimers hmalloc), hlock⟩
  · intro w ⟨q', l', ds', hw, hlock⟩
    exact ⟨q', l', ds', hw, hlock⟩

/-! ## Steps -/

theorem registered_ext (h : Inv s q l ds idle fresh) {cb : CallBack} (hcb : cb.ofFwd = false)
    (hr : s.proc.registered x cb = true) : ∃ fd a, s.keyOf a = some (fd, x, cb) := by
  obtain ⟨fd, hk⟩ := registered_iff.1 hr
  rcases (h.proc.has _).1 hk with ⟨a, ha⟩ | ⟨q', f, d, -, hk⟩
  · exact ⟨fd, a, ha⟩
  · have hside := (wantKey_side q' f d).2
    rw [← hk] at hside
    exact absurd (hcb.symm.trans hside) (by decide)

theorem registered_conn (h : Inv s q l ds idle fresh) (hr : s.proc.registered x .radmsrvConn = true) :
    ∃ c, s.conns x = some c := by
  obtain ⟨fd, a, ha⟩ := registered_ext h rfl hr
  rw [keyOf_conn ha rfl] at ha
  obtain ⟨c, hc, -⟩ := Option.map_eq_some_iff.1 ha
  exact ⟨c, hc⟩

/-- What `radmcli_accept_callback` is called for holds the connection of a device. -/
theorem registered_client (h : Inv s q l ds idle fresh)
    (hr : s.proc.registered x .radmcliAccept = true) : ∃ c, s.clis x = some c ∧ c.Waiting := by
  obtain ⟨fd, a, ha⟩ := registered_ext h rfl hr
  rw [keyOf_listen ha rfl] at ha
  obtain ⟨c, hc, hk⟩ := Option.bind_eq_some_iff.1 ha
  obtain ⟨c', hc', rfl⟩ := objects_some hc
  refine ⟨c', hc', ?_⟩
  by_contra hw
  rw [if_neg (show ¬ c'.view.Waiting from hw)] at hk
  cases hk

/-- **The step lemma.** -/
theorem step_good (h : Good s) (ev : Event) : Res.Safe Good (s.step ev) := by
  have hgood := h
  obtain ⟨q, l, ds, hinv, hlock⟩ := h
  cases ev with
  | accept i =>
    by_cases hr : s.proc.registered s.srv .radmsrvAccept = true
    · rw [Server.step, if_pos hr]
      rcases radmsrvAcceptCallback_ok hinv i with hrun | hrun | ⟨sock, p, hrun, -, -, -, hinv'⟩
      · rw [hrun]
        trivial
      · rw [hrun]
        exact hgood
      · rw [hrun]
        exact ⟨q, l, ds, hinv', hlock⟩
    · rw [Server.step, if_neg hr]
      exact hgood
  | conn conn i =>
    by_cases hr : s.proc.registered conn .radmsrvConn = true
    · obtain ⟨c, hc⟩ := registered_conn hinv hr
      rw [Server.step, if_pos hr]
      rcases radmsrvConnCallback_ok hinv hc i with hrun | ⟨s', q', l', hrun, hinv', hlock'⟩
      · rw [hrun]
        trivial
      · rw [hrun]
        exact ⟨q', l', ds, hinv', hlock'.trans hlock⟩
    · rw [Server.step, if_neg hr]
      exact hgood
  | user cli i =>
    by_cases hr : s.proc.registered cli .radmcliAccept = true
    · obtain ⟨c, hc, hw⟩ := registered_client hinv hr
      rw [Server.step, if_pos hr]
      rcases radmcliAcceptCallback_ok hinv hc hw i with
        ⟨hrun | hrun, -⟩ | ⟨sock, p, clis, s', hrun, rfl, -, hinv', -⟩
      · rw [hrun]
        trivial
      · rw [hrun]
        exact hgood
      · rw [hrun]
        exact ⟨q, l, ds, hinv', hlock⟩
    · rw [Server.step, if_neg hr]
      exact hgood
  | fwd ev =>
    obtain ⟨p', hrun, hp, -⟩ := fwdStep_ok hinv.proc ev
    simp only [Server.step, hrun, Res.ok_bind]
    exact ⟨q, l, ds, hinv.setProc hp, hlock⟩
  | ctl c =>
    cases c with
    | del type id =>
      have hdel : ∀ isRadmin, s.clients ≠ 0 →
          Res.Safe Good (radmsrvDel s id isRadmin >>= fun r => .ok r.1) := by
        intro isRadmin hzero
        rcases radmsrvDel_ok hinv hzero id isRadmin with
          ⟨x, c, p, timers, clis, clients, s', -, -, -, hrun, hs', -, hl, hinv'⟩ | ⟨hrun, -⟩
        · rw [hrun]
          refine ⟨_, _, _, hinv'.idle_mono fun _ hy => hy.1, ?_⟩
          rw [hs']
          exact hl.trans hlock
        · rw [hrun]
          exact hgood
      by_cases hzero : s.clients ≠ 0
      · rw [Server.step, if_pos hzero, radmsrvCtl]
        split
        · exact hdel 1 hzero
        · split
          · exact hdel 3 hzero
          · exact hgood
      · rw [Server.step, if_neg hzero]
        exact hgood
    | ip ip ipData timer =>
      rcases ctlIp_ok hinv.addresses ip ipData timer with
        hrun | ⟨timers, ipList, ipDatas, t, s', q', ds', hrun, rfl, hl, haddr⟩
      · rw [Server.step, hrun]
        · trivial
        · intro _ _ hc
          cases hc
      · rw [Server.step, hrun]
        · exact ⟨q', l, ds', hinv.setAddresses haddr (cons_notes hinv.notes trivial), hl.trans hlock⟩
        · intro _ _ hc
          cases hc
    | white list =>
      exact ⟨q, l, ds, ⟨hinv.proc, hinv.clients.congr rfl rfl rfl, hinv.whole, hinv.conns,
        ⟨hinv.addresses.timed, hinv.addresses.ips, hinv.addresses.log⟩, hinv.notes⟩, hlock⟩
  | defragment => exact ⟨q, l, ds, hinv.setProc hinv.proc.defragment, hlock⟩
  | timers => exact timerPass_good hgood

theorem run_good (evs : List Event) (h : Good s) : Res.Safe Good (s.run evs) := by
  induction evs generalizing s with
  | nil => exact h
  | cons ev evs ih =>
    rw [Server.run, Res.safe_bind]
    exact (step_good h ev).mono fun s' h' => ih h'

/-! ## Creation -/

theorem create_good {clock : Nat → Timeval} {pfdList : Nat → Pollfd}
    {pfdCallBacks : Nat → PfdCallBack Ptr CallBack} {whiteListIp : CString}
    {portMin portMax getPort : UInt16} {srv : Ptr} {sock : Option Int} {listening : Bool}
    {key : List UInt8} (hs : radmsrvCreate (.init clock pfdList pfdCallBacks whiteListIp portMin portMax
      getPort) srv sock listening key = some s) : Good s := by
  unfold radmsrvCreate at hs
  cases hsock : Proc.newSock (Server.init clock pfdList pfdCallBacks whiteListIp portMin portMax
      getPort).proc sock with
  | none =>
    rw [hsock] at hs
    cases hs
  | some a =>
    obtain ⟨fd, p⟩ := a
    rw [hsock] at hs
    cases listening with
    | false => cases hs
    | true =>
      obtain rfl := Option.some.inj hs
      -- the standard input, then the listening socket
      let e : Ext Slot := .ofSlots (fun _ => none) (fun _ => none) (fun _ => none) fun _ _ h => by cases h
      have h0 : ProcInv e (.init pfdList pfdCallBacks) :=
        .init pfdList pfdCallBacks (fun _ => rfl) (fun _ => rfl) fun k ⟨_, hk⟩ => by cases hk
      have hstd : Proc.newSock (.init pfdList pfdCallBacks) (some 0) =
          some (0, (Proc.init pfdList pfdCallBacks).openSock 0) := rfl
      obtain ⟨-, -, -, -, h1⟩ := newSock_ok h0 hstd (a := Slot.std) rfl
      obtain ⟨-, hpos, -, hp, h2⟩ := newSock_ok h1 hsock (a := Slot.srv) rfl
      have h3 := register_ok h2 hpos sockin srv .radmsrvAccept rfl
      refine ⟨⟨[], []⟩, [], [], ⟨h3.congr (fun a => ?_) (fun a => ?_) fun k => ?_, ⟨rfl, fun p => ?_,
        Nat.zero_le _, .nil, ?_⟩, ?_, ?_, ⟨⟨init_sound clock _, rfl, fun k x t => ?_, ?_, ?_, ?_⟩,
        ⟨Datalist.init_rep, fun p => ?_, List.nodup_nil, rfl, ?_⟩, fun ip t => ?_⟩, ?_⟩, rfl⟩
      · cases a <;> rfl
      · cases a <;> rfl
      · refine ⟨?_, ?_⟩
        · rintro ⟨a, ha⟩
          cases a with
          | srv => exact .inl (Option.some.inj ha).symm
          | _ => cases ha
        · rintro (rfl | ⟨a, ha⟩)
          · exact ⟨.srv, rfl⟩
          · cases ha
      · exact ⟨fun h => absurd h List.not_mem_nil, fun h => by cases h⟩
      · intro p q c d hc
        cases hc
      · intro x c hc
        cases hc
      · intro x c hc
        cases hc
      · refine ⟨?_, ?_⟩
        · intro ht
          cases k <;> cases ht
        · rintro ⟨tm, htm, -⟩
          cases htm
      · intro t tm htm
        cases htm
      · intro e he
        cases he
      · intro t ht
        cases ht
      · exact ⟨fun h => absurd h List.not_mem_nil, fun h => by cases h⟩
      · intro p q d e hd
        cases hd
      · refine ⟨?_, ?_⟩
        · rintro ⟨post, pre, hlog, -⟩
          cases post <;> cases hlog
        · rintro ⟨p, hp⟩
          cases hp
      · intro n hn
        cases hn

/-- A process whose clock, poll table and other arguments are zero. -/
def Server.initZero : Server :=
  .init (fun _ => ⟨0, 0⟩) (fun _ => ⟨-1, 0, 0⟩) (fun _ => ⟨0, .radmsrvAccept⟩) (ofBuf []) 0 0 0

end

end Radmsrv
