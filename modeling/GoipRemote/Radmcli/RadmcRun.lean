import GoipRemote.Radmcli.RadmcInv

/-!
# Runs of the device

`Connected d` is what the device is for, read off its state. `run_connected`: it holds after every
event of every run in which no socket with the number 0 is given up (`Event.Ok`), and no event ends
in a double `close` or `free`.
-/

namespace Radmcli

open Utils Relay Function Ownership

section
variable {d : Device} {q : Queue}

/-! ## A pass of the timers -/

/-- What a round leaves of the timers, before the callback restarts the one that has fired. -/
theorem Objects.fired {a : Armed} {rest pend : List Armed} {ts : Timers TimerCallBack}
    {dl : Timeval} {r : Ptr} {rc : Radmc} (h : Objects d ⟨a :: rest, pend⟩ fun _ => False)
    (hrc : d.radmcs r = some rc) (htimer : rc.timer = a.timer) (hfr : Frame d.timers ts)
    (hs : Sound ts (Queue.fired a rest pend dl)) :
    Objects { d with timers := ts } (Queue.fired a rest pend dl) (· = r) := by
  have hne : a.repeats ≠ 1 := by
    rw [h.restarted (by simp [Queue.all])]
    decide
  have hall : (Queue.fired a rest pend dl).all = rest ++ ⟨a.timer, dl, a.repeats - 1⟩ :: pend := by
    rw [Queue.fired, if_neg hne]
    rfl
  refine (h.mono fun _ hx => hx.elim).retime hfr hs (fun e he => ?_) fun e he => ?_
  · rw [hall, List.mem_append, List.mem_cons] at he
    rcases he with he | rfl | he
    · exact .inl (h.restarted (by simp [Queue.all, he]))
    · exact .inr ⟨r, rc, rfl, hrc, htimer⟩
    · exact .inl (h.restarted (by simp [Queue.all, he]))
  · rw [hall]
    simp only [Queue.all, List.cons_append, List.mem_cons, List.mem_append] at he
    rcases he with rfl | he | he
    · exact ⟨⟨e.timer, dl, e.repeats - 1⟩, by simp, rfl⟩
    · exact ⟨e, by simp [he], rfl⟩
    · exact ⟨e, by simp [he], rfl⟩

/-- No timer in the list that is due at `tv` gives up a socket with the number 0. -/
def DueOk (tv : Timeval) (d : Device) (q : Queue) : Prop :=
  ∀ a ∈ q.list.takeWhile (fun a => 0 ≤ tvcmp tv a.timeout), ∀ r rc, d.radmcs r = some rc →
    rc.timer = a.timer → rc.sock ≠ 0

/-- A round of the pass with its callback. -/
theorem radmcKeepalive_ok {tv : Timeval} {a : Armed} {rest pend : List Armed}
    {ts : Timers TimerCallBack} {dl : Timeval} {tm : Timer TimerCallBack} (h : Inv d ⟨a :: rest, pend⟩)
    (hdue : 0 ≤ tvcmp tv a.timeout) (hok : DueOk tv d ⟨a :: rest, pend⟩) (hfr : Frame d.timers ts)
    (hlock : d.timers.inCheckTimeoutLock = true) (hs : Sound ts (Queue.fired a rest pend dl))
    (htm : ts.timers a.timer = some tm) (rs : List Reconnect) :
    Res.Safe (fun w : Device × List Reconnect => ∃ q', (Inv w.1 q' ∧
        w.1.timers.inCheckTimeoutLock = true ∧ DueOk tv w.1 q') ∧ q'.list.length ≤ rest.length)
      (radmcKeepalive a.timer tm ({ d with timers := ts }, rs)) := by
  cases rs with
  | nil => trivial
  | cons ans rs =>
    obtain ⟨rc, hrc, htimer⟩ := h.objects.ctxt a.timer tm (hfr.timers ▸ htm)
    have hsock : rc.sock ≠ 0 := by
      refine hok a ?_ tm.ctxt rc hrc htimer
      rw [List.takeWhile_cons_of_pos (by simpa using hdue)]
      exact List.mem_cons_self
    have hfired := h.objects.fired hrc htimer hfr hs
    -- the timer has no other entry
    have hrest : ∀ x ∈ (Queue.fired a rest pend dl).list, x.timer ≠ rc.timer := by
      intro x hx
      have hu := h.objects.timers.unique
      simp only [Queue.Unique, Queue.all, List.cons_append, List.map_cons, List.nodup_cons,
        List.mem_map, List.mem_append, not_exists, not_and] at hu
      rw [htimer]
      exact hu.1 x (.inl hx)
    rcases tryAgain_ok (d := { d with timers := ts }) h.proc hfired (fun _ hx => hx) hrc hsock rfl rfl
      (Inv.wants_self hrc) ans with
      hexit | ⟨p', s', rc', dl', hrun, htm', hfr', hinv⟩
    · have : radmcTimeoutCallback { d with timers := ts } tm.ctxt ans = .exit := hexit
      simp only [radmcKeepalive, this, Res.exit_bind]
      trivial
    · have : radmcTimeoutCallback { d with timers := ts } tm.ctxt ans = .ok _ := hrun
      simp only [radmcKeepalive, this, Res.ok_bind]
      have hlock' : ts.inCheckTimeoutLock = true := hfr.lock.trans hlock
      have hlist : (Queue.restart (Queue.fired a rest pend dl) ts.inCheckTimeoutLock
          ⟨rc.timer, dl', -1⟩).list = rest := by
        rw [hlock']
        exact Queue.restart_list hs.unique hrest
      refine ⟨_, ⟨hinv, hfr'.lock.trans hlock', ?_⟩, le_of_eq (congrArg List.length hlist)⟩
      intro x hx r rcx hrcx hxt
      rw [hlist] at hx
      have hxr : x ∈ rest := List.takeWhile_subset _ hx
      change update d.radmcs tm.ctxt (some rc') r = some rcx at hrcx
      have hne : r ≠ tm.ctxt := by
        rintro rfl
        rw [update_self] at hrcx
        cases hrcx
        exact hrest x hxr (hxt.symm.trans htm')
      rw [update_of_ne hne] at hrcx
      refine hok x ?_ r rcx hrcx hxt
      rw [List.takeWhile_cons_of_pos (by simpa using hdue)]
      exact List.mem_cons_of_mem _ hx

/-- No timer that the pass fires gives up a socket with the number 0. -/
def Device.PassOk (d : Device) : Prop :=
  ∀ r rc, d.radmcs r = some rc →
    rc.timer ∈ dueTimers d.timers (timerEnter d.timers).1 d.timers.brk d.timers.timerList →
    rc.sock ≠ 0

theorem timerPass_ok (h : Inv d q) (hok : d.PassOk) (rs : List Reconnect) :
    Res.Safe (fun d' => ∃ q', Inv d' q' ∧ d'.timers.inCheckTimeoutLock = false) (d.timerPass rs) := by
  rw [Device.timerPass, Res.safe_bind]
  refine (timerCheckTimeout_rule
    (I := fun w : Device × List Reconnect => fun q => Inv w.1 q ∧
      w.1.timers.inCheckTimeoutLock = true ∧ DueOk (timerEnter d.timers).1 w.1 q)
    (J := fun w q => Inv w.1 q ∧ w.1.timers.inCheckTimeoutLock = false)
    h.objects.timers ?_ (fun w q hw => ⟨hw.1.objects.timers, hw.2.1⟩) ?_ ?_).mono ?_
  · refine ⟨⟨h.proc, ?_⟩, rfl, fun a ha r rc hrc hat => hok r rc hrc ?_⟩
    · exact { h.objects with timers := timerEnter_sound h.objects.timers }
    · rw [h.objects.timers.rep.dueTimers_eq, hat]
      exact List.mem_map_of_mem ha
  · intro w a rest pend ts dl tm ⟨hw, hlock, hdueOk⟩ hdue hfr hs htm
    obtain ⟨d', rs'⟩ := w
    exact radmcKeepalive_ok hw hdue hdueOk hfr hlock hs htm rs'
  · intro w q ts ⟨hw, _, _⟩ hs hlock htimers hmalloc
    refine ⟨⟨hw.proc, ?_⟩, hlock⟩
    have hmem : ∀ e, e ∈ q.merge.all ↔ e ∈ q.all := fun e => (Queue.merge_perm q).mem_iff
    exact
      { hw.objects with
        timers := hs
        malloc := hmalloc.trans hw.objects.malloc
        timer := fun r rc hrc => by
          show _ ∧ ∃ tm, ts.timers _ = some tm ∧ _
          rw [htimers]
          exact hw.objects.timer r rc hrc
        ctxt := fun t tm ht => hw.objects.ctxt t tm (by rw [← htimers]; exact ht)
        repeats := fun e he => hw.objects.repeats e ((hmem e).1 he)
        armed := fun r rc hrc hne => by
          obtain ⟨e, he, het⟩ := hw.objects.armed r rc hrc hne
          exact ⟨e, (hmem e).2 he, het⟩ }
  · rintro ⟨w, n⟩ ⟨q', hw⟩
    exact ⟨q', hw⟩

/-! ## Runs -/

/-- No socket with the number 0 is given up in the event. -/
def Event.Ok (d : Device) : Event → Prop
  | .radmc r i => d.proc.registered r .radmc = true →
      ∀ rc, d.radmcs r = some rc → i.Ok d.proc rc
  | .timers _ => d.PassOk
  | _ => True

/-- The same for all events of a run. -/
def RunOk : List Event → Device → Prop
  | [], _ => True
  | ev :: evs, d => ev.Ok d ∧ ∀ d', d.step ev = .ok d' → RunOk evs d'

theorem registered_radmc (h : Inv d q) {r : Ptr} (hr : d.proc.registered r .radmc = true) :
    ∃ rc, d.radmcs r = some rc := by
  obtain ⟨fd, hk⟩ := registered_iff.1 hr
  rcases (h.proc.has _).1 hk with ⟨r', rc, hrc, hk⟩ | ⟨q', f, s, -, hk⟩
  · obtain rfl : r = r' := congrArg (fun k : Key => k.2.1) hk
    exact ⟨rc, hrc⟩
  · have hside := (wantKey_side q' f s).2
    rw [← hk] at hside
    cases hside

/-- **The step lemma.** -/
theorem step_ok (h : Inv d q) (hlock : d.timers.inCheckTimeoutLock = false) {ev : Event}
    (hok : ev.Ok d) :
    Res.Safe (fun d' => ∃ q', Inv d' q' ∧ d'.timers.inCheckTimeoutLock = false) (d.step ev) := by
  cases ev with
  | radmc r i =>
    by_cases hr : d.proc.registered r .radmc = true
    · obtain ⟨rc, hrc⟩ := registered_radmc h hr
      rw [Device.step, if_pos hr]
      rcases radmcCallback_ok h hrc (hok hr rc hrc) with hexit | ⟨d', q', hrun, hinv, hl⟩
      · rw [hexit]
        trivial
      · rw [hrun]
        exact ⟨q', hinv, hl.trans hlock⟩
    · rw [Device.step, if_neg hr]
      exact ⟨q, h, hlock⟩
  | fwd ev =>
    obtain ⟨p', hrun, hinv, hf⟩ := fwdStep_ok h.proc ev
    simp only [Device.step, hrun, Res.ok_bind]
    exact ⟨q, ⟨hinv, h.objects.setProc hf⟩, hlock⟩
  | defragment =>
    exact ⟨q, ⟨h.proc.defragment, h.objects.setProc ⟨fun _ _ _ => rfl, fun _ _ _ => rfl,
      fun _ _ _ => rfl⟩⟩, hlock⟩
  | timers rs => exact timerPass_ok h hok rs

theorem run_ok (evs : List Event) {d : Device} {q : Queue} (h : Inv d q)
    (hlock : d.timers.inCheckTimeoutLock = false) (hok : RunOk evs d) :
    Res.Safe (fun d' => ∃ q', Inv d' q' ∧ d'.timers.inCheckTimeoutLock = false) (d.run evs) := by
  induction evs generalizing d q with
  | nil => exact ⟨q, h, hlock⟩
  | cons ev evs ih =>
    rw [Device.run, Res.safe_bind]
    have hstep := step_ok h hlock hok.1
    cases hs : d.step ev with
    | ok d' =>
      rw [hs] at hstep
      obtain ⟨q', hinv, hlock'⟩ := hstep
      exact ih hinv hlock' (hok.2 d' hs)
    | exit => trivial
    | fault =>
      rw [hs] at hstep
      exact hstep

/-! ## Creation -/

theorem init_inv (clock : Nat → Timeval) (pfdList : Nat → Pollfd)
    (pfdCallBacks : Nat → PfdCallBack Ptr CallBack) :
    Inv (Device.init clock pfdList pfdCallBacks) ⟨[], []⟩ := by
  refine ⟨.init pfdList pfdCallBacks ?_ ?_ ?_, init_sound clock _, rfl, ?_, ?_, ?_, ?_, ?_, ?_⟩
  · rintro (_ | _) <;> rfl
  · rintro (_ | _) <;> rfl
  · rintro k ⟨_, _, h, -⟩
    cases h
  · intro _ _ h
    cases h
  · intro _ _ h
    cases h
  · intro _ _ h
    cases h
  · intro _ _ h
    cases h
  · intro _ h
    cases h
  · intro _ _ h
    cases h

/-- A successful `radmc_reconnect` has a line that fits. -/
theorem line_of_reconnect {d' : Device} {r : Ptr} {rc : Radmc} {ans : Reconnect}
    (hrc : d.radmcs r = some rc) (h : radmcReconnect d r ans = .ok d') : (handshake rc).length < 256 := by
  unfold radmcReconnect at h
  rw [Res.deref_of_some hrc, Res.ok_bind] at h
  split at h
  · cases h
  · split at h
    · cases h
    · obtain ⟨p, -, h⟩ := Res.bind_eq_ok.1 h
      by_contra hlong
      have hfault := (if_pos (not_lt.1 hlong)).symm.trans h
      cases hfault

theorem radmcCreate_ok (h : Inv d q) (hlock : d.timers.inCheckTimeoutLock = false)
    {key id : List UInt8} {isRadmin timeout : Int} {c : Create} {d' : Device}
    (hrun : radmcCreate d key id isRadmin timeout c = .ok d') :
    ∃ q', Inv d' q' ∧ d'.timers.inCheckTimeoutLock = false := by
  unfold radmcCreate at hrun
  split at hrun
  · cases hrun
  rename_i hfresh
  obtain ⟨hradmc, htimer, hzero⟩ : d.radmcs c.radmc = none ∧ d.timers.timers c.timer = none ∧
      c.timer ≠ 0 := by simpa [not_or] using hfresh
  obtain ⟨rc, hrc', hline'⟩ : ∃ rc : Radmc, rc = ⟨key, id, 0, 0, isRadmin, c.timer⟩ ∧
      (handshake rc).length < 256 := ⟨_, rfl, line_of_reconnect (update_self ..) hrun⟩
  rw [← hrc'] at hrun
  set interval := (if timeout > 0 then timeout else 30) * 1000
  set s₁ := createTimer d.timers c.timer interval.toNat c.radmc .radmcKeepalive with hs₁
  have htimers : s₁.timers = update d.timers.timers c.timer
      (some ⟨interval.toNat, c.radmc, .radmcKeepalive⟩) := by
    rw [hs₁, createTimer, if_neg hzero]
  have hlock₁ : s₁.inCheckTimeoutLock = false := by
    rw [hs₁, createTimer, if_neg hzero]
    exact hlock
  have hmalloc : s₁.malloc = fun _ => true := by
    rw [hs₁, createTimer, if_neg hzero]
    exact h.objects.malloc
  have hcases : ∀ {x rcx}, update d.radmcs c.radmc (some rc) x = some rcx →
      x = c.radmc ∧ rcx = rc ∨ x ≠ c.radmc ∧ d.radmcs x = some rcx := by
    intro x rcx hx
    by_cases hxr : x = c.radmc
    · subst hxr
      rw [update_self] at hx
      exact .inl ⟨rfl, (Option.some.inj hx).symm⟩
    · rw [update_of_ne hxr] at hx
      exact .inr ⟨hxr, hx⟩
  have htorn : Torn ({ d with timers := s₁ }.setRadmc c.radmc rc) q c.radmc := by
    refine ⟨?_, createTimer_sound h.objects.timers htimer .., hmalloc, fun x rcx hx => ?_,
      fun t tm ht => ?_, fun x rcx hx => ?_, fun x rcx hx hne => ?_,
      fun e he => .inl (h.objects.restarted he), fun x rcx hx hne => ?_⟩
    · show ProcInv (ext (update (update d.radmcs c.radmc (some rc)) c.radmc none)) d.proc
      rw [update_idem, update_eq_self_iff.2 hradmc.symm]
      exact h.proc
    · show _ ∧ ∃ tm, s₁.timers rcx.timer = some tm ∧ _
      rw [htimers]
      rcases hcases hx with ⟨rfl, rfl⟩ | ⟨-, hx⟩
      · rw [hrc']
        exact ⟨hzero, _, update_self .., rfl⟩
      · obtain ⟨h0, tm, htm, hctxt⟩ := h.objects.timer x rcx hx
        refine ⟨h0, tm, ?_, hctxt⟩
        rw [update_of_ne, htm]
        intro heq
        rw [heq, htimer] at htm
        cases htm
    · change s₁.timers t = some tm at ht
      show ∃ rcx, update d.radmcs c.radmc (some rc) tm.ctxt = some rcx ∧ _
      rw [htimers] at ht
      by_cases htt : t = c.timer
      · subst htt
        rw [update_self] at ht
        cases ht
        exact ⟨rc, update_self .., by rw [hrc']⟩
      · rw [update_of_ne htt] at ht
        obtain ⟨rcx, hx, hxt⟩ := h.objects.ctxt t tm ht
        refine ⟨rcx, ?_, hxt⟩
        rw [update_of_ne, hx]
        intro heq
        rw [heq, hradmc] at hx
        cases hx
    · rcases hcases hx with ⟨rfl, rfl⟩ | ⟨-, hx⟩
      · exact hline'
      · exact h.objects.line x rcx hx
    · rcases hcases hx with ⟨rfl, -⟩ | ⟨-, hx⟩
      · exact absurd rfl hne
      · exact h.objects.greeted x rcx hx not_false
    · rcases hcases hx with ⟨rfl, -⟩ | ⟨-, hx⟩
      · exact absurd rfl hne
      · exact h.objects.armed x rcx hx not_false
  rcases radmcReconnect_ok htorn (update_self ..) c.reconnect with
    hexit | ⟨p', s', rc'', dl, hrun', -, hfr, hinv⟩
  · rw [hexit] at hrun
    cases hrun
  · rw [hrun'] at hrun
    cases hrun
    exact ⟨_, hinv, hfr.lock.trans hlock₁⟩

theorem radmcsCreate_ok (h : Inv d q) (hlock : d.timers.inCheckTimeoutLock = false)
    {key id : List UInt8} {timeout : Int} {http telnet : Option Create} {d' : Device}
    (hrun : radmcsCreate d key id timeout http telnet = .ok d') :
    ∃ q', Inv d' q' ∧ d'.timers.inCheckTimeoutLock = false := by
  obtain ⟨d₁, h1, h2⟩ := Res.bind_eq_ok.1 hrun
  have hd₁ : ∃ q', Inv d₁ q' ∧ d₁.timers.inCheckTimeoutLock = false := by
    cases http with
    | none =>
      cases h1
      exact ⟨q, h, hlock⟩
    | some c => exact radmcCreate_ok h hlock h1
  obtain ⟨q₁, hinv, hlock₁⟩ := hd₁
  cases telnet with
  | none =>
    cases h2
    exact ⟨q₁, hinv, hlock₁⟩
  | some c => exact radmcCreate_ok hinv hlock₁ h2

/-! ## Connections -/

/-- Each `struct radmc` holds one connection of its own, and nothing is lost. -/
structure Connected (d : Device) : Prop where
  greeted : ∀ r rc, d.radmcs r = some rc → d.proc.opened rc.sock = true ∧ Greeted d.proc rc
  registered : ∀ r rc, d.radmcs r = some rc → ∀ fd, d.proc.poll.Has (fd, r, .radmc) ↔ fd = rc.sock
  unshared : ∀ r rc q f s, d.radmcs r = some rc → d.proc.fwds q = some f →
    (f s).sock ≠ rc.sock ∧ (f s).rc4 ≠ rc.rc4Enc
  armed : ∃ q, Sound d.timers q ∧ q.pending = [] ∧ ∀ r rc, d.radmcs r = some rc →
    (∃ e ∈ q.list, e.timer = rc.timer ∧ e.repeats < 0) ∧
      ∃ tm, d.timers.timers rc.timer = some tm ∧ tm.ctxt = r
  socks : Owned (Sum.elim (fun r => (d.radmcs r).map Radmc.sock) (fwdFd d.proc.fwds))
    fun fd => d.proc.opened fd = true
  rc4s : Owned (Sum.elim (fun r => (d.radmcs r).map Radmc.rc4Enc) (fwdRc4 d.proc.fwds))
    fun x => (d.proc.rc4 x).isSome = true

theorem Inv.connected (h : Inv d q) (hlock : d.timers.inCheckTimeoutLock = false) : Connected d := by
  have hfd : ∀ {r rc}, d.radmcs r = some rc → (ext d.radmcs).fd (.radmc r) = some rc.sock :=
    fun hrc => by simp [ext, hrc]
  have hrc4 : ∀ {r rc}, d.radmcs r = some rc → (ext d.radmcs).rc4 (.radmc r) = some rc.rc4Enc :=
    fun hrc => by simp [ext, hrc]
  -- between events, the variables of `radmc_callback` hold nothing
  have hinj : Injective (Sum.map Slot.radmc id : Ptr ⊕ Ptr × Side → Slot ⊕ Ptr × Side) :=
    Injective.sumMap (fun _ _ => Slot.radmc.inj) injective_id
  have hcover : ∀ {α : Type} {own : Slot → Option α} {own₂ : Ptr × Side → Option α}, own .var = none →
      ∀ a x, Sum.elim own own₂ a = some x → ∃ b, Sum.map Slot.radmc id b = a := by
    intro α own own₂ hvar a x ha
    cases a with
    | inl a =>
      cases a with
      | radmc r => exact ⟨.inl r, rfl⟩
      | var =>
        rw [Sum.elim_inl, hvar] at ha
        cases ha
    | inr a => exact ⟨.inr a, rfl⟩
  refine ⟨fun r rc hrc => ⟨(h.proc.opened_of (hfd hrc)).1, h.objects.greeted r rc hrc not_false⟩,
    fun r rc hrc fd => ?_, fun r rc q f s hrc hf => ⟨?_, ?_⟩, ⟨q, h.objects.timers, ?_, ?_⟩, ?_, ?_⟩
  · rw [h.proc.has]
    refine ⟨?_, ?_⟩
    · rintro (⟨r', rc', hrc', hk⟩ | ⟨q', f, s, -, hk⟩)
      · obtain rfl : r = r' := congrArg (fun k : Key => k.2.1) hk
        rw [hrc] at hrc'
        cases hrc'
        exact congrArg (fun k : Key => k.1) hk
      · have hside := (wantKey_side q' f s).2
        rw [← hk] at hside
        cases hside
    · rintro rfl
      exact .inl ⟨r, rc, hrc, rfl⟩
  · exact (h.proc.sock_ne hf s (hfd hrc)).symm
  · exact (h.proc.rc4_ne hf s (hrc4 hrc)).symm
  · exact h.objects.timers.idle hlock
  · intro r rc hrc
    obtain ⟨e, he, het⟩ := h.objects.armed r rc hrc not_false
    have hpend := h.objects.timers.idle hlock
    have hrestarted := h.objects.restarted he
    refine ⟨⟨e, ?_, het, by rw [hrestarted]; decide⟩, (h.objects.timer r rc hrc).2⟩
    rwa [Queue.all, hpend, List.append_nil] at he
  · exact (h.proc.fds.comap (Sum.map Slot.radmc id) hinj (hcover rfl)).congr
      (by rintro (_ | _) <;> rfl) fun _ => Iff.rfl
  · exact (h.proc.rc4s.comap (Sum.map Slot.radmc id) hinj (hcover rfl)).congr
      (by rintro (_ | _) <;> rfl) fun _ => Iff.rfl

end

/-- **Every run of the device** after `radmcs_create`, up to the loss of a socket with the number 0. -/
theorem run_connected (clock : Nat → Timeval) (pfdList : Nat → Pollfd)
    (pfdCallBacks : Nat → PfdCallBack Ptr CallBack) (key id : List UInt8) (timeout : Int)
    (http telnet : Option Create) {d : Device}
    (hcreate : radmcsCreate (Device.init clock pfdList pfdCallBacks) key id timeout http telnet = .ok d)
    (evs : List Event) (hok : RunOk evs d) : Res.Safe Connected (d.run evs) := by
  obtain ⟨q, hinv, hlock⟩ := radmcsCreate_ok (init_inv clock pfdList pfdCallBacks) rfl hcreate
  refine (run_ok evs hinv hlock hok).mono ?_
  rintro d' ⟨q', hinv', hlock'⟩
  exact hinv'.connected hlock'

/-- The process at its start, at time 0. -/
def Device.initZero : Device := Device.init (fun _ => ⟨0, 0⟩) (fun _ => ⟨-1, 0, 0⟩) fun _ => ⟨0, .radmc⟩

/-- Socket 5 is attached to the local socket 6, and 7 takes its place. -/
theorem run_connected_attach :
    ∃ d, radmcsCreate .initZero [1, 2] [65] 0 (some ⟨1, 2, ⟨some 5, true, 3, true⟩⟩) none = .ok d ∧
      Res.Safe Connected
        (d.run [.radmc 1 ⟨false, some 1, some 6, true, 4, 9, ⟨some 7, true, 8, true⟩⟩]) := by
  refine ⟨_, rfl, run_connected (fun _ => ⟨0, 0⟩) (fun _ => ⟨-1, 0, 0⟩) (fun _ => ⟨0, .radmc⟩) [1, 2]
    [65] 0 (some ⟨1, 2, ⟨some 5, true, 3, true⟩⟩) none rfl _
    ⟨fun _ rc hrc => ⟨fun _ => ?_, fun _ h => nomatch h⟩, fun _ _ => trivial⟩⟩
  cases hrc
  decide

/-- `CLOSE` does not close socket 0: after an error on it, nobody owns it any more. -/
theorem socket_zero_lost :
    ∃ d d', radmcsCreate .initZero [1, 2] [65] 0 (some ⟨1, 2, ⟨some 0, true, 3, true⟩⟩) none = .ok d ∧
      d.run [.radmc 1 ⟨true, none, none, true, 0, 0, ⟨some 4, true, 5, true⟩⟩] = .ok d' ∧
      ¬ Connected d' := by
  refine ⟨_, _, rfl, rfl, fun h => ?_⟩
  obtain ⟨a, ha⟩ := (h.socks.live_iff 0).1 rfl
  rcases a with r | a
  · by_cases hr : r = 1
    · subst hr
      exact absurd (Option.some.inj ha) (by decide)
    · have hnone : ∀ a b c d : Option Radmc,
          update (update (update (update (fun _ => none) 1 a) 1 b) 1 c) 1 d r = none := by
        intro a b c d
        simp [hr]
      have ha' : Option.map Radmc.sock none = some (0 : Int) := (hnone _ _ _ _) ▸ ha
      cases ha'
  · cases ha

end Radmcli
