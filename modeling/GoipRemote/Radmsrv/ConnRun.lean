import GoipRemote.Lib.Runs
import GoipRemote.Radmsrv.ConnEnd

/-!
# The handshake reader in a run of the server

`BufServer` is the server with the buffers of its connections; it runs the callback with its indices. A
buffer holds what the server has read of its connection (`BufGood`), so that `bufStep_eq` makes a run of it
a run of the server, and each call in it ends as `connCallbackAt_ends` has it (`connCallback_run`).
-/

namespace Radmsrv

open Utils Relay Function LinkedList CString Buffer

/-! ## Who writes to a connection -/

section
variable {s s' : Server} {x y : Ptr}

theorem radmcliRelease_conns (hr : radmcliRelease s x = .ok s') : s'.conns = s.conns := by
  simp only [radmcliRelease, Res.bind_eq_ok, Res.deref_eq_ok, Res.pure_eq, Res.ok.injEq] at hr
  obtain ⟨c, -, _, -, _, -, p₁, -, p₂, -, p₃, -, rfl⟩ := hr
  rfl

theorem radmsrvDel_conns {id : CString} {isRadmin n : Int} (hr : radmsrvDel s id isRadmin = .ok (s', n)) :
    s'.conns = s.conns := by
  simp only [radmsrvDel, Res.bind_eq_ok, Res.deref_eq_ok, Res.pure_eq] at hr
  obtain ⟨first, -, c, -, hr⟩ := hr
  split at hr
  · obtain ⟨s₁, hrel, hs₁⟩ := Res.bind_eq_ok.1 hr
    cases hs₁
    have hconns := radmcliRelease_conns hrel
    exact hconns
  · simp only [Res.bind_eq_ok, Res.deref_eq_ok] at hr
    obtain ⟨y, -, k, -, hr⟩ := hr
    split at hr
    · cases hr
      rfl
    · obtain ⟨t, -, hr⟩ := Res.bind_eq_ok.1 hr
      obtain ⟨s₁, hrel, hs₁⟩ := Res.bind_eq_ok.1 hr
      cases hs₁
      have hconns := radmcliRelease_conns hrel
      exact hconns

theorem radmcliAcceptCallback_conns {i : UserIn} (hr : radmcliAcceptCallback s x i = .ok s') :
    s'.conns = s.conns := by
  unfold radmcliAcceptCallback at hr
  obtain ⟨c, -, hr⟩ := Res.bind_eq_ok.1 hr
  split at hr
  · split at hr
    · cases hr
    · cases hr
      rfl
  · obtain ⟨ipData, -, hr⟩ := Res.bind_eq_ok.1 hr
    split at hr
    · obtain ⟨p₁, -, hr⟩ := Res.bind_eq_ok.1 hr
      cases hr
      rfl
    · obtain ⟨p₁, -, hr⟩ := Res.bind_eq_ok.1 hr
      obtain ⟨p₂, -, hr⟩ := Res.bind_eq_ok.1 hr
      cases hr
      rfl

theorem radmsrvAcceptCallback_conns {i : AcceptIn} (hr : radmsrvAcceptCallback s i = .ok s') :
    s'.conns = s.conns ∨ s.conns i.conn = none ∧
      ∃ sock, s'.conns = update s.conns i.conn (some ⟨[], sock, i.rc4⟩) := by
  unfold radmsrvAcceptCallback at hr
  split at hr
  · split at hr
    · cases hr
    · cases hr
      exact .inl rfl
  · rename_i sock p _
    split at hr
    · cases hr
    · rename_i hfresh
      obtain ⟨p₁, -, hr⟩ := Res.bind_eq_ok.1 hr
      cases hr
      simp only [not_or, Option.not_isSome_iff_eq_none] at hfresh
      exact .inr ⟨hfresh.2, sock, rfl⟩

theorem acceptStep_conns {i : AcceptIn} (hr : s.step (.accept i) = .ok s') :
    s'.conns = s.conns ∨ s.conns i.conn = none ∧
      ∃ sock, s'.conns = update s.conns i.conn (some ⟨[], sock, i.rc4⟩) := by
  rw [Server.step] at hr
  split at hr
  · exact radmsrvAcceptCallback_conns hr
  · cases hr
    exact .inl rfl

/-- **A pass of the timers** deletes clients and addresses. -/
theorem timerPass_conns (h : Good s) : Res.Safe (fun s' => s'.conns = s.conns) s.timerPass := by
  obtain ⟨q', l, ds, hinv, -⟩ := h
  rw [Server.timerPass, Res.safe_bind]
  refine (timerCheckTimeout_rule
    (I := fun w q' => (∃ l ds, Inv w q' l ds nobody nobody ∧ w.timers.inCheckTimeoutLock = true) ∧
      w.conns = s.conns)
    (J := fun w _ => w.conns = s.conns) hinv.addresses.timed.sound ?_ ?_ ?_ ?_).mono ?_
  · exact ⟨⟨l, ds, hinv.setTimers hinv.addresses.timed.enter, rfl⟩, rfl⟩
  · intro w q' h
    obtain ⟨⟨l, ds, hw, hlock⟩, -⟩ := h
    exact ⟨hw.addresses.timed.sound, hlock⟩
  · intro w e rest pend ts d tm h _ hfr hs htm
    obtain ⟨⟨l, ds, hw, hlock⟩, hconns⟩ := h
    obtain ⟨s', q'', l', ds', hrun, hinv', hlock', hlen⟩ := call_ok hw hlock hfr hs htm
    rw [hrun]
    refine ⟨q'', ⟨⟨l', ds', hinv', hlock'⟩, ?_⟩, hlen⟩
    unfold Server.call at hrun
    dsimp only at hrun
    split at hrun
    · obtain ⟨s₁, hdel, hrun⟩ := Res.bind_eq_ok.1 hrun
      cases hrun
      obtain ⟨c, -, hdel⟩ := Res.bind_eq_ok.1 hdel
      obtain ⟨⟨s₂, n⟩, hdel, hs₂⟩ := Res.bind_eq_ok.1 hdel
      cases hs₂
      exact (radmsrvDel_conns hdel).trans hconns
    · obtain ⟨d, -, hrun⟩ := Res.bind_eq_ok.1 hrun
      obtain ⟨⟨ips, n⟩, -, hrun⟩ := Res.bind_eq_ok.1 hrun
      obtain ⟨ts', -, hrun⟩ := Res.bind_eq_ok.1 hrun
      cases hrun
      exact hconns
  · intro w q' ts h _ _ _ _
    exact h.2
  · intro w h
    obtain ⟨-, hconns⟩ := h
    exact hconns

/-- The events that are none of a connection leave all of them alone. -/
theorem step_conns (h : Good s) {ev : Event} (hr : s.step ev = .ok s')
    (hconn : ∀ conn i, ev ≠ .conn conn i) (haccept : ∀ i, ev ≠ .accept i) : s'.conns = s.conns := by
  have hgood := h
  obtain ⟨q', l, ds, hinv, -⟩ := h
  cases ev with
  | accept i => exact absurd rfl (haccept i)
  | conn conn i => exact absurd rfl (hconn conn i)
  | user cli i =>
    rw [Server.step] at hr
    split at hr
    · exact radmcliAcceptCallback_conns hr
    · cases hr
      rfl
  | fwd ev =>
    obtain ⟨p', -, hr⟩ := Res.bind_eq_ok.1 hr
    cases hr
    rfl
  | ctl c =>
    cases c with
    | del type id =>
      have hdel : ∀ isRadmin, (radmsrvDel s id isRadmin >>= fun r => .ok r.1) = .ok s' →
          s'.conns = s.conns := by
        intro isRadmin hr
        obtain ⟨⟨s₁, n⟩, hdel, hs₁⟩ := Res.bind_eq_ok.1 hr
        cases hs₁
        exact radmsrvDel_conns hdel
      rw [Server.step] at hr
      split at hr
      · rw [radmsrvCtl] at hr
        split at hr
        · exact hdel 1 hr
        · split at hr
          · exact hdel 3 hr
          · cases hr
            rfl
      · cases hr
        rfl
    | ip ip ipData timer =>
      obtain hrun | ⟨timers, ipList, ipDatas, t, s₁, q', ds', hrun, rfl, -⟩ :=
        ctlIp_ok hinv.addresses ip ipData timer
      · cases hrun.symm.trans hr
      · cases hrun.symm.trans hr
        rfl
    | white list =>
      cases hr
      rfl
  | defragment =>
    cases hr
    rfl
  | timers => exact (timerPass_conns hgood).of_ok hr

end

/-! ## The server with its buffers -/

/-- The server and the buffers of its connections. -/
structure BufServer where
  server : Server
  bufs : Ptr → ConnBuf

/-- An event, with the callback of a connection on its buffer; a connection that is new has been
cleared. -/
def BufServer.step (s : BufServer) : Event → Res BufServer
  | .conn conn i =>
    if s.server.proc.registered conn .radmsrvConn then do
      let (server, b) ← connCallbackAt s.server conn (s.bufs conn) i
      return ⟨server, update s.bufs conn b⟩
    else .ok s
  | .accept i => do
    let server ← s.server.step (.accept i)
    return ⟨server, if (s.server.conns i.conn).isSome then s.bufs else update s.bufs i.conn .zero⟩
  | ev => do
    let server ← s.server.step ev
    return ⟨server, s.bufs⟩

/-- Each buffer holds what the server has read of its connection. -/
structure BufGood (s : BufServer) : Prop where
  server : Good s.server
  bufs : ∀ x c, s.server.conns x = some c → (s.bufs x).Holds c.buf

/-- What a call leaves of its connection, its buffer holds; it leaves the others alone. -/
theorem CallEnds.conns {s s' : Server} {x : Ptr} {c : Radmconn} {i : ConnIn} {b' : ConnBuf}
    (h : CallEnds s x c i (.ok (s', b'))) :
    ∃ v, s'.conns = update s.conns x v ∧ ∀ c', v = some c' → b'.Holds c'.buf := by
  rcases h with hwaits | ⟨hover, -⟩ | ⟨hclosed, -⟩
  · obtain ⟨buf, hconns, hb', -⟩ := hwaits.conns
    refine ⟨_, hconns, fun c' hc' => ?_⟩
    cases hc'
    exact hb'
  · exact ⟨none, hover.conns, fun c' hc' => (by cases hc')⟩
  · exact ⟨none, hclosed.conns, fun c' hc' => (by cases hc')⟩

theorem ConnCalled.eq {s : Server} {conn : Ptr} {c : Radmconn} {b : ConnBuf} {i : ConnIn} {r : Res Server}
    {r' : Res (Server × ConnBuf)} (h : ConnCalled s conn c b i r r') :
    ∃ b', r' = r >>= fun s' => .ok (s', b') := by
  cases h with
  | exit => exact ⟨b, rfl⟩
  | err => exact ⟨b, rfl⟩
  | waits => exact ⟨_, rfl⟩
  | line => exact ⟨_, rfl⟩

section
variable {s : BufServer}

theorem BufGood.same {server : Server} (h : BufGood s) (hgood : Good server)
    (hconns : server.conns = s.server.conns) : BufGood ⟨server, s.bufs⟩ :=
  ⟨hgood, fun x c hc => h.bufs x c (hconns ▸ hc)⟩

/-- A connection changes with its buffer. -/
theorem BufGood.put {server : Server} {x : Ptr} {v : Option Radmconn} {b : ConnBuf} (h : BufGood s)
    (hgood : Good server) (hconns : server.conns = update s.server.conns x v)
    (hb : ∀ c, v = some c → b.Holds c.buf) : BufGood ⟨server, update s.bufs x b⟩ := by
  refine ⟨hgood, fun y d hd => ?_⟩
  rw [hconns] at hd
  show (update s.bufs x b y).Holds d.buf
  by_cases hy : y = x
  · rw [hy, update_self] at hd ⊢
    exact hb d hd
  · rw [update_of_ne hy] at hd ⊢
    exact h.bufs y d hd

theorem bufStep_conn (h : BufGood s) (conn : Ptr) (i : ConnIn) : ∃ bufs,
    s.step (.conn conn i) = (s.server.step (.conn conn i) >>= fun server => .ok ⟨server, bufs⟩) ∧
      ∀ server, s.server.step (.conn conn i) = .ok server → BufGood ⟨server, bufs⟩ := by
  obtain ⟨q, l, ds, hinv, -⟩ := h.server
  by_cases hreg : s.server.proc.registered conn .radmsrvConn = true
  · obtain ⟨c, hc⟩ := registered_conn hinv hreg
    obtain ⟨b', heq⟩ := (connCallbackAt_called hinv hc (h.bufs conn c hc) i).eq
    have hends := connCallbackAt_ends hinv hc (h.bufs conn c hc) i
    refine ⟨update s.bufs conn b', ?_, fun server hr => ?_⟩
    · rw [BufServer.step, if_pos hreg, heq, Res.bind_assoc, Server.step, if_pos hreg]
      rfl
    · have hcall := hr
      rw [Server.step, if_pos hreg] at hcall
      rw [heq, hcall] at hends
      obtain ⟨v, hconns, hv⟩ := hends.conns
      exact h.put ((step_good h.server _).of_ok hr) hconns hv
  · refine ⟨s.bufs, ?_, fun server hr => ?_⟩
    · rw [BufServer.step, if_neg hreg, Server.step, if_neg hreg]
      rfl
    · rw [Server.step, if_neg hreg] at hr
      cases hr
      exact h

theorem bufStep_accept (h : BufGood s) (i : AcceptIn) {server : Server}
    (hr : s.server.step (.accept i) = .ok server) :
    BufGood ⟨server, if (s.server.conns i.conn).isSome then s.bufs else update s.bufs i.conn .zero⟩ := by
  have hgood := (step_good h.server _).of_ok hr
  rcases acceptStep_conns hr with hconns | ⟨hfresh, sock, hconns⟩
  · by_cases hfresh : (s.server.conns i.conn).isSome = true
    · rw [if_pos hfresh]
      exact h.same hgood hconns
    · rw [if_neg hfresh]
      apply h.put hgood (v := none)
      · rw [hconns]
        exact (update_eq_self_iff.2 (Option.not_isSome_iff_eq_none.1 hfresh).symm).symm
      · intro c hc
        cases hc
  · rw [if_neg (by simp [hfresh])]
    apply h.put hgood hconns
    intro c hc
    cases hc
    exact ConnBuf.Holds.zero

/-- **The step lemma.** The indices change nothing, and the buffers hold what was read. -/
theorem bufStep_eq (h : BufGood s) (ev : Event) : ∃ bufs,
    s.step ev = (s.server.step ev >>= fun server => .ok ⟨server, bufs⟩) ∧
      ∀ server, s.server.step ev = .ok server → BufGood ⟨server, bufs⟩ := by
  have hsame : (∀ conn i, ev ≠ .conn conn i) → (∀ i, ev ≠ .accept i) →
      ∀ server, s.server.step ev = .ok server → BufGood ⟨server, s.bufs⟩ :=
    fun hconn haccept server hr =>
      h.same ((step_good h.server ev).of_ok hr) (step_conns h.server hr hconn haccept)
  cases ev with
  | conn conn i => exact bufStep_conn h conn i
  | accept i => exact ⟨_, rfl, fun server hr => bufStep_accept h i hr⟩
  | user cli i => exact ⟨s.bufs, rfl, hsame (by simp) (by simp)⟩
  | fwd ev => exact ⟨s.bufs, rfl, hsame (by simp) (by simp)⟩
  | ctl c => exact ⟨s.bufs, rfl, hsame (by simp) (by simp)⟩
  | defragment => exact ⟨s.bufs, rfl, hsame (by simp) (by simp)⟩
  | timers => exact ⟨s.bufs, rfl, hsame (by simp) (by simp)⟩

theorem bufStep_good (h : BufGood s) (ev : Event) : Res.Safe BufGood (s.step ev) := by
  obtain ⟨bufs, heq, hbufs⟩ := bufStep_eq h ev
  have hgood := step_good h.server ev
  rw [heq]
  cases hr : s.server.step ev with
  | ok server => exact hbufs server hr
  | exit => trivial
  | fault => exact hgood.ne_fault hr

/-- A run of the server with its buffers is a run of the server. -/
theorem bufRun_server (h : BufGood s) (evs : List Event) :
    (Runs.run BufServer.step evs s >>= fun t => .ok t.server) = s.server.run evs := by
  induction evs generalizing s with
  | nil => rfl
  | cons ev evs ih =>
    obtain ⟨bufs, heq, hbufs⟩ := bufStep_eq h ev
    rw [Runs.run, Server.run, heq, Res.bind_assoc, Res.bind_assoc]
    cases hr : s.server.step ev with
    | ok server => exact ih (hbufs server hr)
    | exit => rfl
    | fault => rfl

/-- **The run lemma.** -/
theorem bufRun_good (h : BufGood s) (evs : List Event) :
    Res.Safe BufGood (Runs.run BufServer.step evs s) := by
  apply Runs.run_safe (P := fun _ _ => True)
  · intro s ev h _
    exact bufStep_good h ev
  · exact h
  · exact Runs.along_of_forall fun _ _ => trivial

end

section
variable {s : Server} {clock : Nat → Timeval} {pfdList : Nat → Pollfd} {pfdCallBacks : Nat → PfdCallBack Ptr CallBack}
  {whiteListIp : CString} {portMin portMax getPort : UInt16} {srv : Ptr} {sock : Option Int}
  {listening : Bool} {key : List UInt8}
  (hs : radmsrvCreate (.init clock pfdList pfdCallBacks whiteListIp portMin portMax getPort) srv sock
    listening key = some s)

include hs

/-- Right after `radmsrv_create` there is no connection. -/
theorem create_bufGood (bufs : Ptr → ConnBuf) : BufGood ⟨s, bufs⟩ := by
  refine ⟨create_good hs, fun x c hc => ?_⟩
  have hnone : s.conns x = none := by
    unfold radmsrvCreate at hs
    split at hs
    · cases hs
    · split at hs
      · cases hs
      · cases hs
        rfl
  rw [hnone] at hc
  cases hc

/-- **Every call of the handshake reader, in every run** of the server: no access to a buffer faults, the
run goes as it does without the buffers, and the call ends as `CallEnds` has it. -/
theorem connCallback_run (bufs : Ptr → ConnBuf) (evs : List Event) :
    Runs.run BufServer.step evs ⟨s, bufs⟩ ≠ .fault ∧
      (Runs.run BufServer.step evs ⟨s, bufs⟩ >>= fun t => .ok t.server) = s.run evs ∧
      ∀ t, Runs.run BufServer.step evs ⟨s, bufs⟩ = .ok t → ∀ x i,
        t.server.proc.registered x .radmsrvConn = true →
          ∃ c, t.server.conns x = some c ∧
            CallEnds t.server x c i (connCallbackAt t.server x (t.bufs x) i) := by
  have hgood := bufRun_good (create_bufGood hs bufs) evs
  refine ⟨hgood.ne_fault, bufRun_server (create_bufGood hs bufs) evs, fun t ht x i hreg => ?_⟩
  have hgood := hgood.of_ok ht
  obtain ⟨q, l, ds, hinv, -⟩ := hgood.server
  obtain ⟨c, hc⟩ := registered_conn hinv hreg
  exact ⟨c, hc, connCallbackAt_ends hinv hc (hgood.bufs x c hc) i⟩

end

/-- A device has connected, and its line comes. -/
theorem connCallback_run_line : ∃ s t c, radmsrvCreate .initZero 1 (some 3) true [65] = some s ∧
    Runs.run BufServer.step [.accept ⟨some 5, false, 1, 2⟩] ⟨s, fun _ => .zero⟩ = .ok t ∧
    t.server.proc.registered 1 .radmsrvConn = true ∧ t.server.conns 1 = some c ∧
    CallEnds t.server 1 c ⟨false, some firstLine, false, firstClient⟩
      (connCallbackAt t.server 1 (t.bufs 1) ⟨false, some firstLine, false, firstClient⟩) := by
  obtain ⟨s, hs⟩ : ∃ s, radmsrvCreate .initZero 1 (some 3) true [65] = some s := ⟨_, rfl⟩
  obtain ⟨t, ht, hreg⟩ : ∃ t, Runs.run BufServer.step [.accept ⟨some 5, false, 1, 2⟩] ⟨s, fun _ => .zero⟩ =
      .ok t ∧ t.server.proc.registered 1 .radmsrvConn = true := by
    cases hs
    exact ⟨_, rfl, rfl⟩
  obtain ⟨c, hc, hends⟩ := (connCallback_run hs (fun _ => .zero) _).2.2 t ht 1
    ⟨false, some firstLine, false, firstClient⟩ hreg
  exact ⟨s, t, c, hs, ht, hreg, hc, hends⟩

/-- A device whose line needs a client while the process is out of descriptors. -/
theorem connCallback_emfile : ∃ s t c i, radmsrvCreate .initZero 1 (some 3) true [65] = some s ∧
    Runs.run BufServer.step [.accept ⟨some 5, false, 1, 2⟩] ⟨s, fun _ => .zero⟩ = .ok t ∧
    t.server.proc.registered 1 .radmsrvConn = true ∧ t.server.conns 1 = some c ∧
    ¬ ∃ s' b', connCallbackAt t.server 1 (t.bufs 1) i = .ok (s', b') ∧
      (KeepsWaiting t.server 1 c s' b' ∨ Xor (HandedOver t.server 1 c s' b') (GivenUp t.server 1 c s')) := by
  obtain ⟨s, hs⟩ : ∃ s, radmsrvCreate .initZero 1 (some 3) true [65] = some s := ⟨_, rfl⟩
  obtain ⟨t, ht⟩ : ∃ t,
      Runs.run BufServer.step [.accept ⟨some 5, false, 1, 2⟩] ⟨s, fun _ => .zero⟩ = .ok t := by
    cases hs
    exact ⟨_, rfl⟩
  obtain ⟨k, hreg, hc, hk⟩ : ∃ k, t.server.proc.registered 1 .radmsrvConn = true ∧
      t.server.conns 1 = some ⟨[], 5, 2⟩ ∧ t.server.proc.rc4 2 = some k := by
    cases hs
    cases ht
    exact ⟨_, rfl, rfl, rfl⟩
  let new : NewClientIn := ⟨none, true, fun _ => none, none, 1, 1⟩
  let bytes := (rc4Crypt k (typeName 1 ++ (ofBuf []).bytes ++ [10])).1
  have hline := radmsrvConnCallback_line hc hk (ofBuf []) (Nat.zero_le _) (.inl rfl) false new
  have hexit : radmsrvConnCallback t.server 1 ⟨false, some bytes, false, new⟩ = .exit := by
    rw [hline]
    cases hs
    cases ht
    rfl
  refine ⟨s, t, ⟨[], 5, 2⟩, ⟨false, some bytes, false, new⟩, hs, ht, hreg, hc, ?_⟩
  rintro ⟨s', b', hok, -⟩
  have hgood := (bufRun_good (create_bufGood hs fun _ => .zero) _).of_ok ht
  obtain ⟨q, l, ds, hinv, -⟩ := hgood.server
  obtain ⟨b, heq⟩ := (connCallbackAt_called hinv hc (hgood.bufs 1 _ hc) _).eq
  rw [heq, hexit] at hok
  cases hok

end Radmsrv
