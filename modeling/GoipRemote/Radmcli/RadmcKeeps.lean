import GoipRemote.Radmcli.RadmcRun

/-!
# What the device keeps, whatever was lost

`CLOSE` takes descriptor 0 for none, so a socket with that number may be left open (`socket_zero_lost`).
`Keeps` is the part of the invariant that does not mind: every object has a socket and a cipher state of
its own, and its handshake and nothing else was sent on the socket. What was lost has a place, too.

`run_keeps` is about every run. `radmcCallback_keeps` says what becomes of the connection of an object:
it goes to a `struct fwd` (`Attaches`), or is given up.
-/

namespace Radmcli

open Utils Relay Function

/-- The part of the invariant (module doc). `none` is the place of the lost socket, and the objects in
`torn` have no connection. -/
structure Keeps (e : Ext (Option Slot)) (d : Device) (torn : Ptr → Prop) : Prop where
  proc : ProcInv e d.proc
  owns : ∀ r rc, d.radmcs r = some rc → ¬ torn r →
    e.fd (some (.radmc r)) = some rc.sock ∧ e.rc4 (some (.radmc r)) = some rc.rc4Enc ∧ Greeted d.proc rc
  free : ∀ r, torn r ∨ d.radmcs r = none →
    e.fd (some (.radmc r)) = none ∧ e.rc4 (some (.radmc r)) = none
  var : e.fd (some .var) = none ∧ e.rc4 (some .var) = none
  lost : ∀ fd, e.fd none = some fd → fd = 0

/-- What a run keeps. -/
def Device.Kept (d : Device) : Prop := ∃ e, Keeps e d fun _ => False

section
variable {e : Ext (Option Slot)} {d d' : Device} {torn : Ptr → Prop} {r : Ptr} {rc : Radmc}

/-- The process changed, but not for what is owned. -/
theorem Keeps.setProc (h : Keeps e d torn) {e' : Ext (Option Slot)} {p : Proc} (ts : Timers TimerCallBack)
    (hp : ProcInv e' p) (hfd : ∀ a, e'.fd (some a) = e.fd (some a)) (hrc4 : e'.rc4 = e.rc4)
    (hlost : ∀ fd, e'.fd none = some fd → fd = 0) (hf : ExtFrame e d.proc p) :
    Keeps e' { d with proc := p, timers := ts } torn where
  proc := hp
  owns := by
    intro r rc hrc ht
    obtain ⟨hsock, henc, hsent, hst⟩ := h.owns r rc hrc ht
    exact ⟨(hfd _).trans hsock, (congrFun hrc4 _).trans henc, (hf.sent _ _ hsock).trans hsent,
      (hf.rc4 _ _ henc).trans hst⟩
  free := by
    intro r hr
    rw [hfd, hrc4]
    exact h.free r hr
  var := by
    rw [hfd, hrc4]
    exact h.var
  lost := hlost

/-! ## Giving a connection up -/

/-- **`CLOSE`** of the socket of a place. -/
theorem closeMacro_keeps {p : Proc} {a : Slot} {sock : Int} (hi : ProcInv e p)
    (ha : e.fd (some a) = some sock) (hlost : ∀ fd, e.fd none = some fd → fd = 0) :
    ∃ p' sock' e', closeMacro p sock = .ok (p', sock') ∧ ProcInv e' p' ∧ e'.rc4 = e.rc4 ∧
      (∀ b, e'.fd (some b) = if b = a then none else e.fd (some b)) ∧
      (∀ fd, e'.fd none = some fd → fd = 0) ∧ p' = { p with opened := p'.opened } := by
  unfold closeMacro
  by_cases hpos : sock > 0
  · obtain ⟨p', hclose, hp', h'⟩ := closeExt_ok hi ha
    refine ⟨p', -1, _, ?_, h', rfl, fun b => ?_, fun fd hfd => hlost fd ?_, by rw [hp']⟩
    · rw [if_pos hpos, hclose]
      rfl
    · by_cases hb : b = a <;> simp [hb]
    · simpa using hfd
  · -- the socket stays open
    have hzero : sock = 0 := le_antisymm (not_lt.1 hpos) (hi.opened_of ha).2
    have hnone : e.fd none = none := by
      by_contra hsome
      obtain ⟨fd, hfd⟩ := Option.ne_none_iff_exists'.1 hsome
      rw [hlost fd hfd, ← hzero] at hfd
      cases hi.fd_inj hfd ha
    refine ⟨p, sock, _, if_neg hpos, hi.moveFd ha hnone, rfl, fun b => ?_, fun fd hfd => ?_, rfl⟩
    · by_cases hb : b = a <;> simp [hb]
    · have hfd' : some sock = some fd := by simpa using hfd
      rw [← Option.some.inj hfd', hzero]

theorem radmcReset_keeps (h : Keeps e d fun _ => False) (hr : radmcReset d r = .ok d') :
    ∃ e', Keeps e' d' (· = r) ∧ d'.proc.fwds = d.proc.fwds := by
  obtain ⟨rc, hrc, hr⟩ := Res.bind_eq_ok.1 hr
  have hrc := Res.deref_eq_ok.1 hrc
  obtain ⟨hsock, henc, -⟩ := h.owns r rc hrc not_false
  obtain ⟨hne, p₁, hfree, hp₁, h1⟩ := freeExt_ok h.proc henc
  have h2 := unregister_ok h1 rc.sock r .radmc rfl
  obtain ⟨p₃, sock, e', hclose, h3, hrc4, hfd, hlost, hp₃⟩ := closeMacro_keeps h2 (a := .radmc r)
    (by exact hsock) h.lost
  simp only [freeRc4If, if_pos hne, hfree, Res.ok_bind, hclose] at hr
  cases hr
  have hsent : p₃.sent = d.proc.sent := by
    rw [hp₃, hp₁]
    rfl
  have hrc4' : p₃.rc4 = update d.proc.rc4 rc.rc4Enc none := by
    rw [hp₃, hp₁]
    rfl
  refine ⟨e', ⟨h3, fun x rcx hx hne => ?_, fun x hx => ?_, ?_, hlost⟩, ?_⟩
  · -- the others do not notice
    have hx' : d.radmcs x = some rcx := (update_of_ne hne ..).symm.trans hx
    obtain ⟨hsockx, hencx, hsentx, hstx⟩ := h.owns x rcx hx' not_false
    have hslot : (.radmc x : Slot) ≠ .radmc r := fun hc => hne (Slot.radmc.inj hc)
    refine ⟨?_, ?_, (congrFun hsent _).trans hsentx, ?_⟩
    · rw [hfd, if_neg hslot]
      exact hsockx
    · rw [hrc4]
      exact (update_of_ne (fun hc => hslot (Option.some.inj hc)) ..).trans hencx
    · show p₃.rc4 rcx.rc4Enc = _
      rw [hrc4', update_of_ne, hstx]
      intro hc
      exact hslot (Option.some.inj (h.proc.rc4_inj hencx (hc ▸ henc)))
  · by_cases hxr : x = r
    · subst hxr
      rw [hfd, if_pos rfl, hrc4]
      exact ⟨rfl, update_self ..⟩
    · have hx' : d.radmcs x = none := (update_of_ne hxr ..).symm.trans (hx.resolve_left hxr)
      have hslot : (.radmc x : Slot) ≠ .radmc r := fun hc => hxr (Slot.radmc.inj hc)
      rw [hfd, if_neg hslot, hrc4]
      exact ⟨(h.free x (.inr hx')).1,
        (update_of_ne (fun hc => hslot (Option.some.inj hc)) ..).trans (h.free x (.inr hx')).2⟩
  · rw [hfd, hrc4]
    simp [h.var]
  · show p₃.fwds = _
    rw [hp₃, hp₁]
    rfl

/-! ## Connecting -/

theorem radmcReconnect_keeps (h : Keeps e d (· = r)) {ans : Reconnect}
    (hr : radmcReconnect d r ans = .ok d') :
    d'.Kept ∧ d'.proc.fwds = d.proc.fwds ∧
      ∀ q f p₀, Intact q f p₀ d.proc → Intact q f p₀ d'.proc := by
  obtain ⟨rc, hrc, -⟩ := Res.bind_eq_ok.1 hr
  have hrc := Res.deref_eq_ok.1 hrc
  have hslot := h.free r (.inl rfl)
  rcases radmcReconnect_proc h.proc hslot.1 hslot.2 hrc (line_of_reconnect hrc hr) ans with
    hexit | ⟨sock, p', hrun, hre⟩
  · rw [hexit] at hr
    cases hr
  rw [hrun] at hr
  obtain ⟨ts, -, hr⟩ := Res.bind_eq_ok.1 hr
  cases hr
  refine ⟨⟨_, hre.proc, fun x rcx hx _ => ?_, fun x hx => ?_, ?_, fun fd hfd => h.lost fd ?_⟩, hre.fwds,
    hre.intact⟩
  · by_cases hxr : x = r
    · subst hxr
      cases (update_self ..).symm.trans hx
      exact ⟨update_self .., update_self .., hre.greeted⟩
    · have hx' : d.radmcs x = some rcx := (update_of_ne hxr ..).symm.trans hx
      obtain ⟨hsockx, hencx, hsentx, hstx⟩ := h.owns x rcx hx' hxr
      have hne : (some (.radmc x) : Option Slot) ≠ some (.radmc r) := by simp [hxr]
      exact ⟨(update_of_ne hne ..).trans hsockx, (update_of_ne hne ..).trans hencx,
        (hre.frame.sent _ _ hsockx).trans hsentx, (hre.frame.rc4 _ _ hencx).trans hstx⟩
  · have hx := hx.resolve_left fun hc => hc
    have hxr : x ≠ r := by
      intro hc
      subst hc
      cases (update_self ..).symm.trans hx
    have hx' : d.radmcs x = none := (update_of_ne hxr ..).symm.trans hx
    have hne : (some (.radmc x) : Option Slot) ≠ some (.radmc r) := by simp [hxr]
    exact ⟨(update_of_ne hne ..).trans (h.free x (.inr hx')).1,
      (update_of_ne hne ..).trans (h.free x (.inr hx')).2⟩
  · show update e.fd (some (.radmc r)) (some sock) (some .var) = none ∧
      update e.rc4 (some (.radmc r)) (some ans.rc4) (some .var) = none
    simp [h.var]
  · change update e.fd (some (.radmc r)) (some sock) none = some fd at hfd
    simpa using hfd

/-- A reset and a new connection. -/
theorem tryAgain_keeps (h : Keeps e d fun _ => False) {ans : Reconnect}
    (hr : (radmcReset d r >>= fun d => radmcReconnect d r ans) = .ok d') :
    d'.Kept ∧ d'.proc.fwds = d.proc.fwds := by
  obtain ⟨d₁, hreset, hr⟩ := Res.bind_eq_ok.1 hr
  obtain ⟨e', h', hfwds⟩ := radmcReset_keeps h hreset
  obtain ⟨h'', hfwds', -⟩ := radmcReconnect_keeps h' hr
  exact ⟨h'', hfwds'.trans hfwds⟩

/-! ## The callback -/

/-- The connection of the object goes to the `struct fwd` at `i.fwd`, with the local socket `sock`. -/
structure Attaches (d : Device) (rc : Radmc) (i : RadmcIn) (sock : Int) (d' : Device) : Prop where
  data : i.data
  psock : i.sock = some sock
  fresh : d.proc.fwds i.fwd = none
  fwd : d'.proc.fwds i.fwd = some (newFwd rc.sock sock rc.rc4Enc i.rc4)
  dec : d'.proc.rc4 i.rc4 = some (rc4Setup rc.rc4Key)
  enc : d'.proc.rc4 rc.rc4Enc = d.proc.rc4 rc.rc4Enc
  rcvd : d'.proc.rcvd rc.sock = d.proc.rcvd rc.sock
  sent : d'.proc.sent rc.sock = d.proc.sent rc.sock
  output : d'.proc.sent sock = []

/-- **`radmc_callback`.** The connection goes to a `struct fwd`, or is given up. -/
theorem radmcCallback_keeps (h : Keeps e d fun _ => False) (hrc : d.radmcs r = some rc) {i : RadmcIn}
    (hr : radmcCallback d r i = .ok d') :
    d'.Kept ∧ (d'.proc.fwds = d.proc.fwds ∨ ∃ sock, Attaches d rc i sock d') := by
  obtain ⟨hsockr, hencr, -⟩ := h.owns r rc hrc not_false
  unfold radmcCallback at hr
  rw [Res.deref_of_some hrc, Res.ok_bind] at hr
  dsimp only at hr
  by_cases hdata : i.data
  swap
  · -- an error, or the server has closed the connection
    have hagain : (radmcReset d r >>= fun d => radmcReconnect d r i.reconnect) = .ok d' := by
      by_cases h1 : i.sockerr = true ∨ i.peek = none
      · rwa [if_pos h1] at hr
      · rwa [if_neg h1, if_pos (not_not.1 fun h2 => hdata ⟨h1, h2⟩)] at hr
    obtain ⟨h', hfwds⟩ := tryAgain_keeps h hagain
    exact ⟨h', .inl hfwds⟩
  rw [if_neg hdata.1, if_neg hdata.2] at hr
  obtain ⟨ts, -, hr⟩ := Res.bind_eq_ok.1 hr
  have h1 := unregister_ok h.proc rc.sock r .radmc rfl
  cases hsock : (d.proc.unregister rc.sock r .radmc).newSock i.sock with
  | none =>
    rw [hsock] at hr
    obtain ⟨h', hfwds⟩ := tryAgain_keeps (h.setProc ts h1 (fun _ => rfl) rfl h.lost
      ⟨fun _ _ _ => rfl, fun _ _ _ => rfl, fun _ _ _ => rfl⟩) hr
    exact ⟨h', .inl hfwds⟩
  | some b =>
    obtain ⟨sock, p₂⟩ := b
    rw [hsock] at hr
    dsimp only at hr
    obtain ⟨hi, -, -, hp₂, h2⟩ := newSock_ok h1 hsock (a := some .var)
      (by exact h.var.1)
    have hf2 : ExtFrame e d.proc p₂ := h.proc.frame_newSock hsock rfl
    by_cases hconn : i.connected = true
    swap
    · -- the local address does not answer
      rw [if_pos hconn] at hr
      obtain ⟨p₃, sock', e', hclose, h3, hrc4, hfd, hlost, hp₃⟩ := closeMacro_keeps h2 (a := .var)
        (show _ = some sock by simp) (by simpa using h.lost)
      rw [hclose, Res.ok_bind] at hr
      have hkeeps := h.setProc ts h3 (fun a => ?_) (by rw [hrc4]; rfl) hlost (by
        rw [hp₃]
        exact ⟨hf2.rcvd, hf2.sent, hf2.rc4⟩)
      · obtain ⟨h', hfwds⟩ := tryAgain_keeps hkeeps hr
        refine ⟨h', .inl (hfwds.trans ?_)⟩
        rw [hp₃, hp₂]
        rfl
      · rw [hfd]
        by_cases ha : a = .var
        · rw [if_pos ha, ha, h.var.1]
        · simp [ha]
    · -- the connection and its cipher state go to a `struct fwd`
      rw [if_neg (not_not.2 hconn)] at hr
      rcases newRc4_ok h2 i.rc4 (a := some .var) (by exact h.var.2) rc.rc4Key with
        hx | ⟨p₃, hnew, -, -, hp₃, h3⟩
      · rw [hx] at hr
        cases hr
      rw [hnew, Res.ok_bind] at hr
      rcases doForward_ok (q := i.fwd) h3 (a := some (.radmc r)) (b := some .var) (c := some .var)
          (g := some (.radmc r)) (show _ = some rc.sock by simpa using hsockr)
          (show _ = some sock by simp) (by simp) (show _ = some i.rc4 by simp)
          (show _ = some rc.rc4Enc by simpa using hencr) (by simp) with
        hx | ⟨p₄, hfwd, hnone', hfwds, -, hrcvd, hsent, hrc4, h4⟩
      · rw [hx] at hr
        cases hr
      rw [hfwd, Res.ok_bind] at hr
      have hf3 : ExtFrame e p₂ p₃ := h.proc.frame_newRc4 hnew (by rw [hp₂]; rfl)
      have hf4 : ExtFrame e d.proc p₄ := (hf2.trans hf3).trans
        ⟨fun _ _ _ => by rw [hrcvd], fun _ _ _ => by rw [hsent], fun _ _ _ => by rw [hrc4]⟩
      obtain ⟨e₄, hkeeps⟩ : ∃ e', Keeps e' { d with proc := p₄, timers := ts } (· = r) := by
        refine ⟨_, h4, fun x rcx hx hne => ?_, fun x hx => ?_, by simp, by simpa using h.lost⟩
        · obtain ⟨hsockx, hencx, hsentx, hstx⟩ := h.owns x rcx hx not_false
          exact ⟨by simpa [hne] using hsockx, by simpa [hne] using hencx,
            (hf4.sent _ _ hsockx).trans hsentx, (hf4.rc4 _ _ hencx).trans hstx⟩
        · by_cases hxr : x = r
          · simp [hxr]
          · have hx' := h.free x (.inr (hx.resolve_left hxr))
            simpa [hxr] using hx'
      obtain ⟨h', -, hintact⟩ := radmcReconnect_keeps hkeeps hr
      set f := newFwd rc.sock sock rc.rc4Enc i.rc4 with hf
      have hin : Intact i.fwd f p₄ d'.proc :=
        hintact _ _ _ (h4.toHeld.intact (by rw [hfwds, update_self]))
      refine ⟨h', .inr ⟨sock, hdata, hi, ?_, hin.fwds, ?_, ?_, ?_, ?_, ?_⟩⟩
      · rw [hp₃, hp₂] at hnone'
        exact hnone'
      · exact (hin.rc4 .t).trans (by rw [hrc4, hp₃]; exact update_self ..)
      · exact (hin.rc4 .p).trans (hf4.rc4 _ _ hencr)
      · exact (hin.rcvd .t).trans (hf4.rcvd _ _ hsockr)
      · exact (hin.sent .t).trans (hf4.sent _ _ hsockr)
      · exact (hin.sent .p).trans (by rw [hsent, hp₃, hp₂]; exact update_self ..)

/-! ## Runs -/

theorem radmcKeepalive_keeps {w w' : Device × List Reconnect} {t : Ptr} {tm : Timer TimerCallBack}
    (h : w.1.Kept) (hr : radmcKeepalive t tm w = .ok w') : w'.1.Kept := by
  obtain ⟨d, rs⟩ := w
  obtain ⟨e, h⟩ := h
  cases rs with
  | nil => cases hr
  | cons ans rs =>
    rw [radmcKeepalive] at hr
    obtain ⟨d', hrun, hr⟩ := Res.bind_eq_ok.1 hr
    cases hr
    exact (tryAgain_keeps h hrun).1

/-- **The step lemma.** -/
theorem step_keeps (h : d.Kept) {ev : Event} (hr : d.step ev = .ok d') :
    d'.Kept := by
  obtain ⟨e, h⟩ := h
  cases ev with
  | radmc r i =>
    rw [Device.step] at hr
    split at hr
    · obtain ⟨rc, hrc, -⟩ := Res.bind_eq_ok.1 hr
      exact (radmcCallback_keeps h (Res.deref_eq_ok.1 hrc) hr).1
    · cases hr
      exact ⟨e, h⟩
  | fwd ev =>
    obtain ⟨p', hrun, hinv, hf⟩ := fwdStep_ok h.proc ev
    rw [Device.step, hrun] at hr
    cases hr
    exact ⟨e, h.setProc d.timers hinv (fun _ => rfl) rfl h.lost hf⟩
  | defragment =>
    cases hr
    exact ⟨e, h.setProc d.timers h.proc.defragment (fun _ => rfl) rfl h.lost
      ⟨fun _ _ _ => rfl, fun _ _ _ => rfl, fun _ _ _ => rfl⟩⟩
  | timers rs =>
    obtain ⟨⟨w, n⟩, hpass, hr⟩ := Res.bind_eq_ok.1 hr
    cases hr
    refine timerCheckTimeout_keeps (P := fun w : Device × List Reconnect => w.1.Kept)
      (fun w ts hw => ?_) (fun _ _ _ _ => radmcKeepalive_keeps) ⟨e, h⟩ hpass
    obtain ⟨e', h'⟩ := hw
    exact ⟨e', h'.setProc ts h'.proc (fun _ => rfl) rfl h'.lost (.refl e' _)⟩

/-- **Every run of the device.** -/
theorem run_keeps {evs : List Event} (h : d.Kept) (hr : d.run evs = .ok d') :
    d'.Kept := by
  induction evs generalizing d with
  | nil =>
    cases hr
    exact h
  | cons ev evs ih =>
    obtain ⟨d₁, hstep, hr⟩ := Res.bind_eq_ok.1 hr
    exact ih (step_keeps h hstep) hr

theorem init_keeps (clock : Nat → Timeval) (pfdList : Nat → Pollfd)
    (pfdCallBacks : Nat → PfdCallBack Ptr CallBack) :
    (Device.init clock pfdList pfdCallBacks).Kept := by
  refine ⟨⟨fun _ => none, fun _ => none, fun _ => False, fun _ h => h.elim⟩,
    .init pfdList pfdCallBacks (fun _ => rfl) (fun _ => rfl) fun _ h => h, fun r rc hrc _ => ?_,
    fun _ _ => ⟨rfl, rfl⟩, ⟨rfl, rfl⟩, fun fd h => nomatch h⟩
  cases hrc

theorem radmcCreate_keeps (h : d.Kept) {key id : List UInt8} {isRadmin timeout : Int}
    {c : Create} (hr : radmcCreate d key id isRadmin timeout c = .ok d') : d'.Kept := by
  obtain ⟨e, h⟩ := h
  unfold radmcCreate at hr
  split at hr
  · cases hr
  rename_i hfresh
  have hnone : d.radmcs c.radmc = none := by
    by_contra hsome
    exact hfresh (.inl (Option.isSome_iff_ne_none.2 hsome))
  dsimp only at hr
  refine (radmcReconnect_keeps (e := e) ?_ hr).1
  refine ⟨h.proc, fun x rcx hx hne => ?_, fun x hx => ?_, h.var, h.lost⟩
  · exact h.owns x rcx ((update_of_ne hne ..).symm.trans hx) not_false
  · refine h.free x (.inr ?_)
    by_cases hxr : x = c.radmc
    · rw [hxr, hnone]
    · exact (update_of_ne hxr ..).symm.trans (hx.resolve_left hxr)

theorem radmcsCreate_keeps (h : d.Kept) {key id : List UInt8} {timeout : Int}
    {http telnet : Option Create} (hr : radmcsCreate d key id timeout http telnet = .ok d') :
    d'.Kept := by
  obtain ⟨d₁, h1, h2⟩ := Res.bind_eq_ok.1 hr
  have hd₁ : d₁.Kept := by
    cases http with
    | none =>
      cases h1
      exact h
    | some c => exact radmcCreate_keeps h h1
  cases telnet with
  | none =>
    cases h2
    exact hd₁
  | some c => exact radmcCreate_keeps hd₁ h2

end

end Radmcli
