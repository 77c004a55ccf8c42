import GoipRemote.Radmsrv.Handshake
import GoipRemote.Relay.FlowControl

/-!
# The relay in a run of the server

Whatever the server does for its connections, clients and timers, it leaves a live `struct fwd` alone:
one lemma a function, from what the objects of the server own (`Apart`). With the callbacks of the relay
(`fwdStep_went`) this says what becomes of a `struct fwd` in a run (`run_went`), and `run_flow` puts the
registrations and the bytes together.
-/

namespace Radmsrv

open Utils Relay Function LinkedList CString

section
variable {s s' s₁ : Server} {Q : Queue} {l ds : List Ptr} {idle fresh : Ptr → Prop} {x q : Ptr} {f : Fwd}
variable {clock : Nat → Timeval} {pfdList : Nat → Pollfd} {pfdCallBacks : Nat → PfdCallBack Ptr CallBack}
  {whiteListIp : CString} {portMin portMax getPort : UInt16} {srv : Ptr} {sock : Option Int}
  {listening : Bool} {key : List UInt8}
  (hs : radmsrvCreate (.init clock pfdList pfdCallBacks whiteListIp portMin portMax getPort) srv sock
    listening key = some s)
  {p₀ : Proc}

/-- What the objects of the server own is not the `struct fwd`'s. -/
structure Apart (s : Server) (f : Fwd) : Prop where
  conn : ∀ x c, s.conns x = some c → ∀ d, c.sock ≠ (f d).sock ∧ c.rc4Dec ≠ (f d).rc4
  cli : ∀ x c, s.objects x = some c → ∀ d,
    c.lSock ≠ (f d).sock ∧ c.rSock ≠ (f d).sock ∧ c.rc4Dec ≠ (f d).rc4

theorem Inv.apart (h : Inv s Q l ds idle fresh) (hf : s.proc.fwds q = some f) : Apart s f where
  conn := by
    intro x c hc d
    obtain ⟨hfd, hrc, -⟩ := slots_of_conn hc
    exact ⟨h.proc.sock_ne hf d (a := Slot.conn x) hfd, h.proc.rc4_ne hf d (a := Slot.conn x) hrc⟩
  cli := by
    intro x c hx d
    obtain ⟨c', hc', rfl⟩ := objects_some hx
    obtain ⟨hl, hd, hr, -⟩ := slots_of_cli hc'
    have hpos := h.proc.sock_nonneg hf d
    have hstd : (0 : Int) ≠ (f d).sock := h.proc.sock_ne hf d (a := Slot.std) rfl
    obtain ⟨st, hst⟩ := h.proc.rc4_some hf d
    refine ⟨h.proc.sock_ne hf d (a := Slot.listen x) hl, ?_, ?_⟩
    · show c'.rSock ≠ (f d).sock
      by_cases hw : c'.rSock > 0
      · rw [if_pos hw] at hd
        exact h.proc.sock_ne hf d (a := Slot.device x) hd
      · omega
    · show c'.rc4Dec ≠ (f d).rc4
      by_cases hw : c'.rc4Dec ≠ 0
      · rw [if_pos hw] at hr
        exact h.proc.rc4_ne hf d (a := Slot.device x) hr
      · intro hc
        rw [← hc, not_not.1 hw, h.proc.rc4_zero] at hst
        cases hst

/-! ## The functions of the server -/

theorem radmcliRelease_intact (ha : Apart s f) (h : Intact q f p₀ s.proc)
    (hr : radmcliRelease s x = .ok s') : Intact q f p₀ s'.proc := by
  simp only [radmcliRelease, Res.bind_eq_ok, Res.deref_eq_ok, Res.pure_eq, Res.ok.injEq] at hr
  obtain ⟨c, hc, _, -, _, -, p₁, h₁, p₂, h₂, p₃, h₃, rfl⟩ := hr
  have hcli := ha.cli x c.view (clis_some hc)
  exact (((h.setPoll _).close (fun d => (hcli d).1) h₁).close (fun d => (hcli d).2.1) h₂).freeRc4If
    (fun d => (hcli d).2.2) h₃

theorem radmsrvDel_intact (ha : Apart s f) (h : Intact q f p₀ s.proc) {id : CString} {isRadmin n : Int}
    (hr : radmsrvDel s id isRadmin = .ok (s', n)) : Intact q f p₀ s'.proc := by
  simp only [radmsrvDel, Res.bind_eq_ok, Res.deref_eq_ok, Res.pure_eq] at hr
  obtain ⟨first, -, c, hc, hr⟩ := hr
  split at hr
  · obtain ⟨s₁, hrel, hs₁⟩ := Res.bind_eq_ok.1 hr
    cases hs₁
    exact radmcliRelease_intact (s := { s with clients := c.next }) ⟨ha.conn, ha.cli⟩ h hrel
  · simp only [Res.bind_eq_ok, Res.deref_eq_ok] at hr
    obtain ⟨y, -, k, hk, hr⟩ := hr
    split at hr
    · cases hr
      exact h
    · obtain ⟨t, -, hr⟩ := Res.bind_eq_ok.1 hr
      obtain ⟨s₁, hrel, hs₁⟩ := Res.bind_eq_ok.1 hr
      cases hs₁
      refine radmcliRelease_intact (s := s.setCli y { k with next := t.next }) ⟨ha.conn, ?_⟩ h hrel
      rw [objects_setNext hk]
      exact ha.cli

theorem connErrExit_intact (ha : Apart s f) (h : Intact q f p₀ s.proc)
    (hr : connErrExit s x = .ok s') : Intact q f p₀ s'.proc := by
  obtain ⟨c, p₁, p₂, hc, h₁, h₂, rfl⟩ := connErrExit_eq_ok hr
  have hconn := ha.conn x c hc
  exact ((h.setPoll _).close (fun d => (hconn d).1) h₁).freeRc4 (fun d => (hconn d).2) h₂

theorem connAttach_intact (ha : Apart s f) (h : Intact q f p₀ s.proc) {y : Ptr} {isRadmin : Int}
    (hr : connAttach s x y isRadmin = .ok s') : Intact q f p₀ s'.proc := by
  obtain ⟨c, k, p₁, p₂, -, hk, h₁, h₂, rfl⟩ := connAttach_eq_ok hr
  have hcli := ha.cli y k.view (clis_some hk)
  have hclose : Intact q f p₀ p₁ := by
    split at h₁
    · exact h.close (fun d => (hcli d).2.1) h₁
    · cases h₁
      exact h
  exact ((hclose.freeRc4If (fun d => (hcli d).2.2) h₂).setPoll _).setPoll _

theorem radmsrvNewClient_intact (h : Intact q f p₀ s.proc) {id : CString} {i : NewClientIn}
    (hr : radmsrvNewClient s id i = .ok (x, s')) : Intact q f p₀ s'.proc := by
  obtain ⟨-, hproc | ⟨sock, p, hsock, hproc | hclose⟩⟩ := radmsrvNewClient_eq_ok hr
  · rw [hproc]
    exact h
  · rw [hproc]
    exact (h.newSock hsock).1
  · obtain ⟨hp, hne⟩ := h.newSock hsock
    exact hp.close hne hclose

theorem connLine_intact (h : Inv s Q l ds nobody nobody) (hi : Intact q f p₀ s.proc)
    {line : CString} (hline : line.bytes.length ≤ 255) {new : NewClientIn}
    (hr : connLine s x line new = .ok s') : Intact q f p₀ s'.proc := by
  have ha := h.apart hi.fwds
  unfold connLine at hr
  split at hr
  · exact connErrExit_intact ha hi hr
  · have hid : (line.drop 8).bytes.length ≤ 255 := by
      show (line.bytes.drop 8).length ≤ 255
      rw [List.length_drop]
      omega
    rename_i isRadmin _
    rcases radmsrvFindClient_ok h (line.drop 8) isRadmin with
      ⟨cli, k, ts, q', hfind, hcli, -, -, -, -, h'⟩ | ⟨hfind, -⟩
    · simp only [hfind, Res.ok_bind, if_neg hcli] at hr
      exact connAttach_intact (s := { s with timers := ts }) ⟨ha.conn, ha.cli⟩ hi hr
    · simp only [hfind, Res.ok_bind, if_true] at hr
      obtain ⟨⟨cli, s₁⟩, hnew, hr⟩ := Res.bind_eq_ok.1 hr
      have hi' := radmsrvNewClient_intact hi hnew
      obtain ⟨q', l', fresh, h'⟩ : ∃ q' l' fresh, Inv s₁ q' l' ds nobody fresh := by
        rcases radmsrvNewClient_ok h hid new with
          ⟨hexit, -⟩ | ⟨s₂, hok, h', -⟩ | ⟨s₂, q', l', k, hok, -, h', -⟩
        · rw [hexit] at hnew
          cases hnew
        · cases hok.symm.trans hnew
          exact ⟨_, _, _, h'⟩
        · cases hok.symm.trans hnew
          exact ⟨_, _, _, h'⟩
      have ha' := h'.apart hi'.fwds
      dsimp only at hr
      split at hr
      · exact connErrExit_intact ha' hi' hr
      · exact connAttach_intact ha' hi' hr

theorem radmsrvConnCallback_intact (h : Inv s Q l ds nobody nobody) (hf : s.proc.fwds q = some f)
    {i : ConnIn} (hr : radmsrvConnCallback s x i = .ok s') : Intact q f s.proc s'.proc := by
  have ha := h.apart hf
  have hi := h.proc.toHeld.intact hf
  unfold radmsrvConnCallback at hr
  obtain ⟨c, hc, hr⟩ := Res.bind_eq_ok.1 hr
  have hc := Res.deref_eq_ok.1 hc
  split at hr
  · exact connErrExit_intact ha hi hr
  · have hfail : (if i.emfile = true then Res.exit else connErrExit s x) = .ok s' →
        Intact q f s.proc s'.proc := by
      intro hr
      split at hr
      · cases hr
      · exact connErrExit_intact ha hi hr
    cases hrecv : i.recv.map (List.take (256 - c.buf.length)) with
    | none =>
      rw [hrecv] at hr
      exact hfail hr
    | some bytes =>
      rw [hrecv] at hr
      cases bytes with
      | nil => exact hfail hr
      | cons b bs =>
        obtain ⟨st, -, p, hcrypt, -, hrcvd⟩ := h.received hc (b :: bs)
        have hi' : Intact q f s.proc p := (hi.receive (fun d => (ha.conn x c hc d).1) _).crypt
          (fun d => (ha.conn x c hc d).2) hcrypt
        simp only [hcrypt, Res.ok_bind] at hr
        split at hr
        · cases hr
          exact hi'
        · have hlen := received_length (h.conns x c hc) hrecv st
          obtain ⟨hdrop, hline⟩ := line_length hlen ‹_›
          rw [setConn_setConn] at hr
          exact connLine_intact (hrcvd _ hdrop) hi' hline hr

/-- **The functions of the server**, but for the timers, leave a `struct fwd` alone. -/
theorem radmsrvAcceptCallback_intact (hi : Intact q f p₀ s.proc) {i : AcceptIn}
    (hr : radmsrvAcceptCallback s i = .ok s') : Intact q f p₀ s'.proc := by
  unfold radmsrvAcceptCallback at hr
  split at hr
  · split at hr
    · cases hr
    · cases hr
      exact hi
  · obtain ⟨hp, -⟩ := hi.newSock ‹_›
    split at hr
    · cases hr
    · obtain ⟨p₁, h₁, hr⟩ := Res.bind_eq_ok.1 hr
      cases hr
      exact (hp.newRc4 h₁).1.setPoll _

theorem radmcliAcceptCallback_intact (hi : Intact q f p₀ s.proc) {i : UserIn}
    (hr : radmcliAcceptCallback s x i = .ok s') : Intact q f p₀ s'.proc := by
  unfold radmcliAcceptCallback at hr
  obtain ⟨c, -, hr⟩ := Res.bind_eq_ok.1 hr
  split at hr
  · split at hr
    · cases hr
    · cases hr
      exact hi
  · obtain ⟨hp, hsock⟩ := hi.newSock ‹_›
    obtain ⟨ipData, -, hr⟩ := Res.bind_eq_ok.1 hr
    split at hr
    · obtain ⟨p₁, h₁, hr⟩ := Res.bind_eq_ok.1 hr
      cases hr
      exact hp.close hsock h₁
    · obtain ⟨p₁, h₁, hr⟩ := Res.bind_eq_ok.1 hr
      obtain ⟨p₂, h₂, hr⟩ := Res.bind_eq_ok.1 hr
      cases hr
      exact ((hp.newRc4 h₁).1.doForward h₂).setPoll _

/-- **A pass of the timers.** -/
theorem timerPass_intact (h : Good s) (hf : s.proc.fwds q = some f) :
    Res.Safe (fun s' => Intact q f s.proc s'.proc) s.timerPass := by
  obtain ⟨q', l, ds, hinv, -⟩ := h
  rw [Server.timerPass, Res.safe_bind]
  refine (timerCheckTimeout_rule
    (I := fun w q' => (∃ l ds, Inv w q' l ds nobody nobody ∧ w.timers.inCheckTimeoutLock = true) ∧
      Intact q f s.proc w.proc)
    (J := fun w _ => Intact q f s.proc w.proc) hinv.addresses.timed.sound ?_ ?_ ?_ ?_).mono ?_
  · exact ⟨⟨l, ds, hinv.setTimers hinv.addresses.timed.enter, rfl⟩, hinv.proc.toHeld.intact hf⟩
  · intro w q' h
    obtain ⟨⟨l, ds, hw, hlock⟩, -⟩ := h
    exact ⟨hw.addresses.timed.sound, hlock⟩
  · intro w e rest pend ts d tm h _ hfr hs htm
    obtain ⟨⟨l, ds, hw, hlock⟩, hi⟩ := h
    obtain ⟨s', q'', l', ds', hrun, hinv', hlock', hlen⟩ := call_ok hw hlock hfr hs htm
    rw [hrun]
    refine ⟨q'', ⟨⟨l', ds', hinv', hlock'⟩, ?_⟩, hlen⟩
    -- the callback deletes a client or an address
    have ha := hw.apart hi.fwds
    unfold Server.call at hrun
    dsimp only at hrun
    split at hrun
    · obtain ⟨s₁, hdel, hrun⟩ := Res.bind_eq_ok.1 hrun
      cases hrun
      obtain ⟨c, -, hdel⟩ := Res.bind_eq_ok.1 hdel
      obtain ⟨⟨s₂, n⟩, hdel, hs₂⟩ := Res.bind_eq_ok.1 hdel
      cases hs₂
      have hdel' := radmsrvDel_intact (s := { w with timers := ts, log := .fired e.timer :: w.log })
        ⟨ha.conn, ha.cli⟩ hi hdel
      exact hdel'
    · obtain ⟨d, -, hrun⟩ := Res.bind_eq_ok.1 hrun
      obtain ⟨⟨ips, n⟩, -, hrun⟩ := Res.bind_eq_ok.1 hrun
      obtain ⟨ts', -, hrun⟩ := Res.bind_eq_ok.1 hrun
      cases hrun
      exact hi
  · intro w q' ts h _ _ _ _
    exact h.2
  · intro w h
    obtain ⟨-, hi⟩ := h
    exact hi

/-! ## Runs -/

/-- **The step lemma.** -/
theorem step_went (h : Good s) (hf : s.proc.fwds q = some f) {ev : Event} (hr : s.step ev = .ok s') :
    Went q f s.proc s'.proc := by
  have hgood := h
  obtain ⟨q', l, ds, hinv, -⟩ := h
  have ha := hinv.apart hf
  have hi := hinv.proc.toHeld.intact hf
  cases ev with
  | accept i =>
    rw [Server.step] at hr
    split at hr
    · exact (radmsrvAcceptCallback_intact hi hr).went
    · cases hr
      exact hi.went
  | conn conn i =>
    rw [Server.step] at hr
    split at hr
    · exact (radmsrvConnCallback_intact hinv hf hr).went
    · cases hr
      exact hi.went
  | user cli i =>
    rw [Server.step] at hr
    split at hr
    · exact (radmcliAcceptCallback_intact hi hr).went
    · cases hr
      exact hi.went
  | fwd ev =>
    obtain ⟨p', hp', hr⟩ := Res.bind_eq_ok.1 hr
    cases hr
    exact fwdStep_went hinv.proc hf hp'
  | ctl c =>
    cases c with
    | del type id =>
      have hdel : ∀ isRadmin, (radmsrvDel s id isRadmin >>= fun r => .ok r.1) = .ok s' →
          Went q f s.proc s'.proc := by
        intro isRadmin hr
        obtain ⟨⟨s₁, n⟩, hdel, hs₁⟩ := Res.bind_eq_ok.1 hr
        cases hs₁
        exact (radmsrvDel_intact ha hi hdel).went
      rw [Server.step] at hr
      split at hr
      · rw [radmsrvCtl] at hr
        split at hr
        · exact hdel 1 hr
        · split at hr
          · exact hdel 3 hr
          · cases hr
            exact hi.went
      · cases hr
        exact hi.went
    | ip ip ipData timer =>
      obtain hrun | ⟨timers, ipList, ipDatas, t, s₁, q', ds', hrun, rfl, -⟩ :=
        ctlIp_ok hinv.addresses ip ipData timer
      · cases hrun.symm.trans hr
      · cases hrun.symm.trans hr
        exact hi.went
    | white list =>
      cases hr
      exact hi.went
  | defragment =>
    cases hr
    exact (hi.setPoll _).went
  | timers => exact ((timerPass_intact hgood hf).of_ok hr).went

/-- The `struct fwd` at `q` was released in a run. -/
def Ended (q : Ptr) (s : Server) (evs : List Event) : Prop :=
  ∃ pre s', pre <+: evs ∧ s.run pre = .ok s' ∧ s'.proc.fwds q = none

theorem run_went (h : Good s) (hf : s.proc.fwds q = some f) {evs : List Event}
    (hr : s.run evs = .ok s') :
    Ended q s evs ∨ ∃ f', s'.proc.fwds q = some f' ∧ Passed f f' s.proc s'.proc := by
  induction evs generalizing s f with
  | nil =>
    cases hr
    obtain ⟨_, _, _, hinv, -⟩ := h
    exact .inr ⟨f, hf, (hinv.proc.toHeld.intact hf).passed⟩
  | cons ev evs ih =>
    obtain ⟨s₁, hs₁, hr⟩ := Res.bind_eq_ok.1 hr
    have hrun : ∀ pre, s.run (ev :: pre) = s₁.run pre := fun pre => by rw [Server.run, hs₁, Res.ok_bind]
    cases step_went h hf hs₁ with
    | inl hnone => exact .inl ⟨[ev], s₁, ⟨evs, rfl⟩, hrun [], hnone⟩
    | inr hlive =>
      obtain ⟨f₁, hf₁, hpass⟩ := hlive
      cases ih ((step_good h ev).of_ok hs₁) hf₁ hr with
      | inl hend =>
        obtain ⟨pre, s₂, hpre, hs₂, hnone⟩ := hend
        exact .inl ⟨ev :: pre, s₂, List.cons_prefix_cons.2 ⟨rfl, hpre⟩, (hrun pre).trans hs₂, hnone⟩
      | inr hlive =>
        obtain ⟨f₂, hf₂, hpass'⟩ := hlive
        exact .inr ⟨f₂, hf₂, hpass.trans hpass'⟩

include hs in
/-- **The relay's flow control.** In every state of every run, a direction of a live `struct fwd` has one
registration, as its buffer has it, and a `struct fwd` that is not there has none. From any state of the
run on, what a direction received was deciphered and sent in order, but for what its buffer holds, until
the `struct fwd` was released; and whenever the direction may read, its end of file included, the buffer
holds nothing. -/
theorem run_flow {earlier : List Event} (hrun : s.run earlier = .ok s')
    (evs : List Event) :
    Res.Safe (fun s'' => FlowOk s''.proc ∧ ∀ q f, s'.proc.fwds q = some f →
      Ended q s' evs ∨ ∃ f', s''.proc.fwds q = some f' ∧ Passed f f' s'.proc s''.proc ∧
        ∀ d, s''.proc.registered q d.readCallBack = true → (f' d).rest = []) (s'.run evs) := by
  have hstart : Good s' := (run_good earlier (create_good hs)).of_ok hrun
  have hgood := run_good evs hstart
  cases hevs : s'.run evs with
  | fault => exact absurd hevs hgood.ne_fault
  | exit => trivial
  | ok s'' =>
    obtain ⟨_, _, _, hinv, -⟩ := hgood.of_ok hevs
    have hflow := hinv.proc.flowOk
    refine ⟨hflow, fun q f hf => ?_⟩
    cases run_went hstart hf hevs with
    | inl hend => exact .inl hend
    | inr hlive =>
      obtain ⟨f', hf', hpass⟩ := hlive
      exact .inr ⟨f', hf', hpass, fun d => (hflow.live q f' d hf').rest_nil⟩

/-- A user gets the connection of a device, whose three bytes go out in part. -/
theorem run_flow_user : ∃ s earlier s' f evs s'',
    radmsrvCreate .initZero 1 (some 3) true [65] = some s ∧ s.run earlier = .ok s' ∧
      s'.proc.fwds 21 = some f ∧ s'.run evs = .ok s'' ∧ FlowOk s''.proc ∧
      (Ended 21 s' evs ∨ ∃ f', s''.proc.fwds 21 = some f' ∧ Passed f f' s'.proc s''.proc) := by
  obtain ⟨s, -, s', -, hs, -, -, -, hrun, hf, -⟩ := exists_firstDevice
  obtain ⟨_, _, _, hinv, -⟩ := (run_good _ (create_good hs)).of_ok hrun
  obtain ⟨p, hp, -⟩ := fwdStep_ok hinv.proc (.read .t 21 (some [1, 2, 3]) (.sent 1))
  have hs'' : s'.run [.fwd (.read .t 21 (some [1, 2, 3]) (.sent 1))] = .ok { s' with proc := p } := by
    rw [Server.run, Server.step, hp]
    rfl
  obtain ⟨hflow, hwent⟩ := (run_flow hs hrun _).of_ok hs''
  refine ⟨s, _, s', _, _, _, hs, hrun, hf, hs'', hflow, ?_⟩
  cases hwent 21 _ hf with
  | inl hend => exact .inl hend
  | inr hlive =>
    obtain ⟨f', hf', hpass, -⟩ := hlive
    exact .inr ⟨f', hf', hpass⟩

end

end Radmsrv
