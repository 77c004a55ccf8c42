import GoipRemote.Radmsrv.ConnRun

/-!
# Who may connect, between two messages

The white list and the addresses that have logged in are changed by the messages of the web pages alone:
`step_access` goes through the server's own events, one lemma a function.
-/

namespace Radmsrv

open Utils Relay Function LinkedList CString

/-! ## The functions -/

section
variable {s s' : Server} {x : Ptr}

/-- Who may connect is nobody's but the messages'. -/
structure SameAccess (s s' : Server) : Prop where
  log : ∀ ip t, .added ip t ∈ s'.log → .added ip t ∈ s.log
  white : s'.whiteListIp = s.whiteListIp

theorem SameAccess.refl (s : Server) : SameAccess s s := ⟨fun _ _ h => h, rfl⟩

theorem SameAccess.of_eq (hlog : s'.log = s.log) (hwhite : s'.whiteListIp = s.whiteListIp) :
    SameAccess s s' := ⟨fun _ _ h => hlog ▸ h, hwhite⟩

theorem SameAccess.trans {s'' : Server} (h : SameAccess s s') (h' : SameAccess s' s'') : SameAccess s s'' :=
  ⟨fun ip t ht => h.log ip t (h'.log ip t ht), h'.white.trans h.white⟩

theorem radmcliRelease_access (hr : radmcliRelease s x = .ok s') : SameAccess s s' := by
  simp only [radmcliRelease, Res.bind_eq_ok, Res.deref_eq_ok, Res.pure_eq, Res.ok.injEq] at hr
  obtain ⟨c, -, _, -, _, -, p₁, -, p₂, -, p₃, -, rfl⟩ := hr
  exact .of_eq rfl rfl

theorem radmsrvDel_access {id : CString} {isRadmin n : Int} (hr : radmsrvDel s id isRadmin = .ok (s', n)) :
    SameAccess s s' := by
  simp only [radmsrvDel, Res.bind_eq_ok, Res.deref_eq_ok, Res.pure_eq] at hr
  obtain ⟨first, -, c, -, hr⟩ := hr
  split at hr
  · obtain ⟨s₁, hrel, hs₁⟩ := Res.bind_eq_ok.1 hr
    cases hs₁
    have h := radmcliRelease_access hrel
    exact ⟨h.log, h.white⟩
  · simp only [Res.bind_eq_ok, Res.deref_eq_ok] at hr
    obtain ⟨y, -, k, -, hr⟩ := hr
    split at hr
    · cases hr
      exact .refl s
    · obtain ⟨t, -, hr⟩ := Res.bind_eq_ok.1 hr
      obtain ⟨s₁, hrel, hs₁⟩ := Res.bind_eq_ok.1 hr
      cases hs₁
      have h := radmcliRelease_access hrel
      exact ⟨h.log, h.white⟩

theorem radmcliAcceptCallback_access {i : UserIn} (hr : radmcliAcceptCallback s x i = .ok s') :
    SameAccess s s' := by
  unfold radmcliAcceptCallback at hr
  obtain ⟨c, -, hr⟩ := Res.bind_eq_ok.1 hr
  split at hr
  · split at hr
    · cases hr
    · cases hr
      exact .refl s
  · obtain ⟨ipData, -, hr⟩ := Res.bind_eq_ok.1 hr
    split at hr
    · obtain ⟨p₁, -, hr⟩ := Res.bind_eq_ok.1 hr
      cases hr
      exact .of_eq rfl rfl
    · obtain ⟨p₁, -, hr⟩ := Res.bind_eq_ok.1 hr
      obtain ⟨p₂, -, hr⟩ := Res.bind_eq_ok.1 hr
      cases hr
      exact .of_eq rfl rfl

theorem radmsrvAcceptCallback_access {i : AcceptIn} (hr : radmsrvAcceptCallback s i = .ok s') :
    SameAccess s s' := by
  unfold radmsrvAcceptCallback at hr
  split at hr
  · split at hr
    · cases hr
    · cases hr
      exact .refl s
  · split at hr
    · cases hr
    · obtain ⟨p₁, -, hr⟩ := Res.bind_eq_ok.1 hr
      cases hr
      exact .of_eq rfl rfl

theorem connErrExit_access (hr : connErrExit s x = .ok s') : SameAccess s s' := by
  simp only [connErrExit, Res.bind_eq_ok, Res.deref_eq_ok, Res.pure_eq, Res.ok.injEq] at hr
  obtain ⟨c, -, p₁, -, p₂, -, rfl⟩ := hr
  exact .of_eq rfl rfl

theorem connAttach_access {cli : Ptr} {isRadmin : Int} (hr : connAttach s x cli isRadmin = .ok s') :
    SameAccess s s' := by
  unfold connAttach at hr
  obtain ⟨c, -, hr⟩ := Res.bind_eq_ok.1 hr
  obtain ⟨k, -, hr⟩ := Res.bind_eq_ok.1 hr
  have hlast : ∀ p, (freeRc4If p k.rc4Dec >>= fun p => .ok { s.setCli cli { k with
      rSock := c.sock, isRadmin := isRadmin, rc4Dec := c.rc4Dec } with
        proc := (p.register k.lSock sockin cli .radmcliAccept).unregister c.sock x .radmsrvConn
        conns := update s.conns x none }) = .ok s' → SameAccess s s' := by
    intro p hr
    obtain ⟨p', -, hr⟩ := Res.bind_eq_ok.1 hr
    cases hr
    exact .of_eq rfl rfl
  dsimp only at hr
  split at hr
  · obtain ⟨p, -, hr⟩ := Res.bind_eq_ok.1 hr
    exact hlast p hr
  · exact hlast s.proc hr

theorem radmsrvFindClient_access {id : CString} {isRadmin : Int}
    (hr : radmsrvFindClient s id isRadmin = .ok (x, s')) : SameAccess s s' := by
  obtain ⟨cli, -, hr⟩ := Res.bind_eq_ok.1 hr
  split at hr
  · cases hr
    exact .refl s
  · obtain ⟨c, -, hr⟩ := Res.bind_eq_ok.1 hr
    obtain ⟨timers, -, hr⟩ := Res.bind_eq_ok.1 hr
    cases hr
    exact .of_eq rfl rfl

theorem radmsrvBind_access {bind : Nat → Option Bool} {n i : Nat} {b : Bool}
    (hr : radmsrvBind bind n i s = .ok (b, s')) : SameAccess s s' := by
  have halloc : ∀ s, SameAccess s (radmsrvAllocAddr s).2 := by
    intro s
    unfold radmsrvAllocAddr
    split
    · exact .of_eq rfl rfl
    · exact .refl s
  induction n generalizing i s with
  | zero =>
    cases hr
    exact .refl _
  | succ n ih =>
    rw [radmsrvBind] at hr
    dsimp only at hr
    split at hr
    · cases hr
      exact halloc s
    · cases hr
    · exact (halloc s).trans (ih hr)

theorem radmsrvLink_access {id : CString} {cli : Ptr} {c : Radmcli} (hr : radmsrvLink s id cli c = .ok s') :
    SameAccess s s' := by
  have hlast : ∀ first : Bool, (if first then Res.ok { s.setCli cli { c with next := s.clients } with
      clients := cli, created := s.created + 1 } else do
        let tmp ← advanceTo s.next (s.greater id) (s.created + 1) s.clients
        let t ← Res.deref s.clis tmp
        return { (s.setCli cli { c with next := t.next }).setCli tmp { t with next := cli } with
          created := s.created + 1 }) = .ok s' → SameAccess s s' := by
    intro first hr
    split at hr
    · cases hr
      exact .of_eq rfl rfl
    · obtain ⟨tmp, -, hr⟩ := Res.bind_eq_ok.1 hr
      obtain ⟨t, -, hr⟩ := Res.bind_eq_ok.1 hr
      cases hr
      exact .of_eq rfl rfl
  unfold radmsrvLink at hr
  dsimp only at hr
  split at hr
  · exact hlast true hr
  · obtain ⟨first, -, hr⟩ := Res.bind_eq_ok.1 hr
    exact hlast first hr

theorem radmsrvNewClient_access {id : CString} {i : NewClientIn}
    (hr : radmsrvNewClient s id i = .ok (x, s')) : SameAccess s s' := by
  unfold radmsrvNewClient at hr
  split at hr
  · split at hr
    · cases hr
    · cases hr
      exact .refl s
  · rename_i sock p _
    obtain ⟨⟨bound, s₁⟩, hbind, hr⟩ := Res.bind_eq_ok.1 hr
    have h := radmsrvBind_access hbind
    have h₁ : SameAccess s s₁ := ⟨h.log, h.white⟩
    dsimp only at hr
    split at hr
    · obtain ⟨p₁, -, hr⟩ := Res.bind_eq_ok.1 hr
      cases hr
      exact h₁.trans (.of_eq rfl rfl)
    · split at hr
      · obtain ⟨p₁, -, hr⟩ := Res.bind_eq_ok.1 hr
        split at hr
        · cases hr
        · cases hr
          exact h₁.trans (.of_eq rfl rfl)
      · split at hr
        · cases hr
        · obtain ⟨s₂, hlink, hr⟩ := Res.bind_eq_ok.1 hr
          obtain ⟨timers, -, hr⟩ := Res.bind_eq_ok.1 hr
          cases hr
          exact (h₁.trans (radmsrvLink_access hlink)).trans (.of_eq rfl rfl)

theorem connLine_access {line : CString} {new : NewClientIn} (hr : connLine s x line new = .ok s') :
    SameAccess s s' := by
  unfold connLine at hr
  split at hr
  · exact connErrExit_access hr
  · rename_i isRadmin _
    obtain ⟨⟨cli, s₁⟩, hfind, hr⟩ := Res.bind_eq_ok.1 hr
    have h₁ := radmsrvFindClient_access hfind
    have hlast : ∀ {cli : Ptr} {s₂ : Server}, SameAccess s s₂ →
        (if cli = 0 then connErrExit s₂ x else connAttach s₂ x cli isRadmin) = .ok s' → SameAccess s s' := by
      intro cli s₂ h₂ hr
      split at hr
      · exact h₂.trans (connErrExit_access hr)
      · exact h₂.trans (connAttach_access hr)
    dsimp only at hr
    split at hr
    · obtain ⟨⟨cli', s₂⟩, hnew, hr⟩ := Res.bind_eq_ok.1 hr
      exact hlast (h₁.trans (radmsrvNewClient_access hnew)) hr
    · exact hlast h₁ hr

theorem radmsrvConnCallback_access {i : ConnIn} (hr : radmsrvConnCallback s x i = .ok s') :
    SameAccess s s' := by
  have herr : ∀ {s' : Server}, (if i.emfile then Res.exit else connErrExit s x) = .ok s' →
      SameAccess s s' := by
    intro s' hr
    split at hr
    · cases hr
    · exact connErrExit_access hr
  unfold radmsrvConnCallback at hr
  obtain ⟨c, -, hr⟩ := Res.bind_eq_ok.1 hr
  split at hr
  · exact connErrExit_access hr
  · split at hr
    · exact herr hr
    · exact herr hr
    · obtain ⟨⟨data, p⟩, -, hr⟩ := Res.bind_eq_ok.1 hr
      dsimp only at hr
      split at hr
      · cases hr
        exact .of_eq rfl rfl
      · have h := connLine_access hr
        exact ⟨h.log, h.white⟩

/-! ## A pass of the timers -/

theorem fired_access {t : Ptr} (h : SameAccess s s') :
    SameAccess s { s' with log := .fired t :: s'.log } := by
  refine ⟨fun ip t' ht => ?_, h.white⟩
  rcases List.mem_cons.1 ht with hc | ht
  · cases hc
  · exact h.log ip t' ht

theorem expired_access {t cli : Ptr} {before after : List (Ptr × Radmcli)} (h : SameAccess s s') :
    SameAccess s { s' with log := .expired t cli before after :: s'.log } := by
  refine ⟨fun ip t' ht => ?_, h.white⟩
  rcases List.mem_cons.1 ht with hc | ht
  · cases hc
  · exact h.log ip t' ht

theorem call_access {t : Ptr} {tm : Timer TimerCallBack} (hr : Server.call t tm s = .ok s') :
    SameAccess s s' := by
  have hfired := @fired_access s s t (.refl s)
  unfold Server.call at hr
  dsimp only at hr
  split at hr
  · obtain ⟨s₁, hdel, hr⟩ := Res.bind_eq_ok.1 hr
    cases hr
    obtain ⟨c, -, hdel⟩ := Res.bind_eq_ok.1 hdel
    obtain ⟨⟨s₂, n⟩, hdel, hs₂⟩ := Res.bind_eq_ok.1 hdel
    cases hs₂
    exact expired_access (hfired.trans (radmsrvDel_access hdel))
  · obtain ⟨d, -, hr⟩ := Res.bind_eq_ok.1 hr
    obtain ⟨⟨ips, n⟩, -, hr⟩ := Res.bind_eq_ok.1 hr
    obtain ⟨ts', -, hr⟩ := Res.bind_eq_ok.1 hr
    cases hr
    exact ⟨hfired.log, hfired.white⟩

/-- **A pass of the timers.** -/
theorem timerPass_access (h : Good s) : Res.Safe (SameAccess s) s.timerPass := by
  obtain ⟨q', l, ds, hinv, -⟩ := h
  rw [Server.timerPass, Res.safe_bind]
  refine (timerCheckTimeout_rule
    (I := fun w q' => (∃ l ds, Inv w q' l ds nobody nobody ∧ w.timers.inCheckTimeoutLock = true) ∧
      SameAccess s w)
    (J := fun w _ => SameAccess s w) hinv.addresses.timed.sound ?_ ?_ ?_ ?_).mono ?_
  · exact ⟨⟨l, ds, hinv.setTimers hinv.addresses.timed.enter, rfl⟩, .of_eq rfl rfl⟩
  · intro w q' h
    obtain ⟨⟨l, ds, hw, hlock⟩, -⟩ := h
    exact ⟨hw.addresses.timed.sound, hlock⟩
  · intro w e rest pend ts d tm h _ hfr hs htm
    obtain ⟨⟨l, ds, hw, hlock⟩, hsame⟩ := h
    obtain ⟨s', q'', l', ds', hrun, hinv', hlock', hlen⟩ := call_ok hw hlock hfr hs htm
    rw [hrun]
    have hcall := call_access hrun
    exact ⟨q'', ⟨⟨l', ds', hinv', hlock'⟩, hsame.trans ⟨hcall.log, hcall.white⟩⟩, hlen⟩
  · intro w q' ts h _ _ _ _
    exact ⟨h.2.log, h.2.white⟩
  · intro w h
    obtain ⟨-, hsame⟩ := h
    exact hsame

/-- **The server's own events** let nobody in. -/
theorem step_access (h : Good s) {ev : Event} (hctl : ∀ c, ev ≠ .ctl c) (hr : s.step ev = .ok s') :
    SameAccess s s' := by
  cases ev with
  | accept i =>
    rw [Server.step] at hr
    split at hr
    · exact radmsrvAcceptCallback_access hr
    · cases hr
      exact .refl s
  | conn conn i =>
    rw [Server.step] at hr
    split at hr
    · exact radmsrvConnCallback_access hr
    · cases hr
      exact .refl s
  | user cli i =>
    rw [Server.step] at hr
    split at hr
    · exact radmcliAcceptCallback_access hr
    · cases hr
      exact .refl s
  | fwd ev =>
    obtain ⟨p', -, hr⟩ := Res.bind_eq_ok.1 hr
    cases hr
    exact .of_eq rfl rfl
  | ctl c => exact absurd rfl (hctl c)
  | defragment =>
    cases hr
    exact .of_eq rfl rfl
  | timers => exact (timerPass_access h).of_ok hr

end

end Radmsrv
