import GoipRemote.Radmcli.Radmc
import GoipRemote.Relay.ExtOps
import GoipRemote.Relay.FlowControl
import GoipRemote.Utils.TimerInv

/-!
# The invariant of the device

`Inv d q`: each `struct radmc` owns one open socket, registered with `radmc_callback`, and one cipher
state, and nobody else owns these; the handshake and nothing else was sent on the socket; and the
keep-alive timer is armed in the queue `q`.

`radmc_reset` and `do_forward` leave an object without socket and cipher state (`Torn`, where the
fields of the object may still name those of the new `struct fwd`), and `radmc_reconnect` makes it
whole again.

`CLOSE` takes descriptor 0 for none, so that a socket with that number is given up and stays open.
`Event.Ok` says that this does not happen.
-/

namespace Radmcli

open Utils Relay Function

/-- Where the device keeps a descriptor or a cipher state: in a `struct radmc`, or, while
`radmc_callback` runs, in its variables `sock` and `rc4_dec`. -/
inductive Slot where
  | radmc (radmc : Ptr)
  | var
  deriving DecidableEq, Repr

/-- What the objects own and want registered. -/
def ext (radmcs : Ptr → Option Radmc) : Ext Slot where
  fd
    | .radmc r => (radmcs r).map Radmc.sock
    | .var => none
  rc4
    | .radmc r => (radmcs r).map Radmc.rc4Enc
    | .var => none
  wants k := ∃ r rc, radmcs r = some rc ∧ k = (rc.sock, r, .radmc)
  ofFwd_false := by
    rintro k ⟨_, _, _, rfl⟩
    rfl

/-- The handshake was sent, and the cipher state has advanced over it. -/
structure Greeted (p : Proc) (rc : Radmc) : Prop where
  sent : p.sent rc.sock = (rc4Crypt (rc4Setup rc.rc4Key) (handshake rc)).1
  rc4 : p.rc4 rc.rc4Enc = some (rc4Advance (handshake rc).length (rc4Setup rc.rc4Key))

/-- The parts of the invariant about single objects and their timers. Those in `torn` have no
connection, and their timers may just have fired. -/
structure Objects (d : Device) (q : Queue) (torn : Ptr → Prop) : Prop where
  timers : Sound d.timers q
  malloc : d.timers.malloc = fun _ => true
  timer : ∀ r rc, d.radmcs r = some rc →
    rc.timer ≠ 0 ∧ ∃ tm, d.timers.timers rc.timer = some tm ∧ tm.ctxt = r
  ctxt : ∀ t tm, d.timers.timers t = some tm → ∃ rc, d.radmcs tm.ctxt = some rc ∧ rc.timer = t
  line : ∀ r rc, d.radmcs r = some rc → (handshake rc).length < 256
  greeted : ∀ r rc, d.radmcs r = some rc → ¬ torn r → Greeted d.proc rc
  repeats : ∀ e ∈ q.all, e.repeats = -1 ∨
    ∃ r rc, torn r ∧ d.radmcs r = some rc ∧ rc.timer = e.timer
  armed : ∀ r rc, d.radmcs r = some rc → ¬ torn r → ∃ e ∈ q.all, e.timer = rc.timer

/-- The invariant (module doc). -/
structure Inv (d : Device) (q : Queue) : Prop where
  proc : ProcInv (ext d.radmcs) d.proc
  objects : Objects d q fun _ => False

/-- The object at `r` has no connection. -/
structure Torn (d : Device) (q : Queue) (r : Ptr) : Prop where
  proc : ProcInv (ext (update d.radmcs r none)) d.proc
  objects : Objects d q (· = r)

/-! ## The objects' resources -/

section
variable {radmcs : Ptr → Option Radmc} {r : Ptr} {rc : Radmc}

theorem ext_none_fd : (ext (update radmcs r none)).fd = update (ext radmcs).fd (.radmc r) none := by
  funext a
  cases a with
  | radmc r' => by_cases h : r' = r <;> simp [ext, h]
  | var => rfl

theorem ext_none_rc4 :
    (ext (update radmcs r none)).rc4 = update (ext radmcs).rc4 (.radmc r) none := by
  funext a
  cases a with
  | radmc r' => by_cases h : r' = r <;> simp [ext, h]
  | var => rfl

theorem ext_none_wants (hrc : radmcs r = some rc) (k : Key) :
    (ext (update radmcs r none)).wants k ↔ k ≠ (rc.sock, r, .radmc) ∧ (ext radmcs).wants k := by
  refine ⟨?_, ?_⟩
  · rintro ⟨r', rc', hrc', rfl⟩
    have hne : r' ≠ r := by
      rintro rfl
      rw [update_self] at hrc'
      cases hrc'
    rw [update_of_ne hne] at hrc'
    exact ⟨fun hk => hne (congrArg (fun k : Key => k.2.1) hk), r', rc', hrc', rfl⟩
  · rintro ⟨hk, r', rc', hrc', rfl⟩
    have hne : r' ≠ r := by
      rintro rfl
      rw [hrc] at hrc'
      cases hrc'
      exact hk rfl
    exact ⟨r', rc', by rw [update_of_ne hne, hrc'], rfl⟩

theorem ext_some_fd (radmcs : Ptr → Option Radmc) (r : Ptr) (rc : Radmc) :
    (ext (update radmcs r (some rc))).fd =
      update (ext (update radmcs r none)).fd (.radmc r) (some rc.sock) := by
  funext a
  cases a with
  | radmc r' => by_cases h : r' = r <;> simp [ext, h]
  | var => rfl

theorem ext_some_rc4 (radmcs : Ptr → Option Radmc) (r : Ptr) (rc : Radmc) :
    (ext (update radmcs r (some rc))).rc4 =
      update (ext (update radmcs r none)).rc4 (.radmc r) (some rc.rc4Enc) := by
  funext a
  cases a with
  | radmc r' => by_cases h : r' = r <;> simp [ext, h]
  | var => rfl

theorem ext_some_wants (radmcs : Ptr → Option Radmc) (r : Ptr) (rc : Radmc) (k : Key) :
    (ext (update radmcs r (some rc))).wants k ↔
      k = (rc.sock, r, .radmc) ∨ (ext (update radmcs r none)).wants k := by
  refine ⟨?_, ?_⟩
  · rintro ⟨r', rc', hrc', rfl⟩
    by_cases h : r' = r
    · subst h
      rw [update_self] at hrc'
      cases hrc'
      exact .inl rfl
    · rw [update_of_ne h] at hrc'
      exact .inr ⟨r', rc', by rw [update_of_ne h, hrc'], rfl⟩
  · rintro (rfl | ⟨r', rc', hrc', rfl⟩)
    · exact ⟨r, rc, update_self .., rfl⟩
    · have hne : r' ≠ r := by
        rintro rfl
        rw [update_self] at hrc'
        cases hrc'
      rw [update_of_ne hne] at hrc'
      exact ⟨r', rc', by rw [update_of_ne hne, hrc'], rfl⟩

theorem Greeted.frame {p p' : Proc} (h : Greeted p rc) (hrc : radmcs r = some rc)
    (hf : ExtFrame (ext radmcs) p p') : Greeted p' rc where
  sent := (hf.sent (.radmc r) _ (by simp [ext, hrc])).trans h.sent
  rc4 := (hf.rc4 (.radmc r) _ (by simp [ext, hrc])).trans h.rc4

end

/-! ## Giving a connection up -/

section
variable {d : Device} {q : Queue} {r : Ptr} {rc : Radmc}

/-- Other objects do not notice what happens to a connection that is gone. -/
theorem Objects.tear {d' : Device} {torn : Ptr → Prop} (h : Objects d q torn)
    (hrc : d.radmcs r = some rc) {sock : Int} {rc4Enc : Ptr}
    (hradmcs : d'.radmcs = update d.radmcs r (some { rc with sock := sock, rc4Enc := rc4Enc }))
    (htimers : d'.timers = d.timers) (htorn : ∀ x, torn x → x = r)
    (hf : ExtFrame (ext (update d.radmcs r none)) d.proc d'.proc) : Objects d' q (· = r) := by
  have hof : ∀ x rc', d'.radmcs x = some rc' → ∃ rc₀, d.radmcs x = some rc₀ ∧
      rc'.timer = rc₀.timer ∧ handshake rc' = handshake rc₀ ∧ (x ≠ r → rc' = rc₀) := by
    intro x rc' hx
    rw [hradmcs] at hx
    by_cases hxr : x = r
    · subst hxr
      rw [update_self] at hx
      cases hx
      exact ⟨rc, hrc, rfl, rfl, fun hne => absurd rfl hne⟩
    · rw [update_of_ne hxr] at hx
      exact ⟨rc', hx, rfl, rfl, fun _ => rfl⟩
  refine ⟨htimers ▸ h.timers, htimers ▸ h.malloc, fun x rc' hx => ?_, fun t tm ht => ?_,
    fun x rc' hx => ?_, fun x rc' hx hne => ?_, fun a ha => ?_, fun x rc' hx hne => ?_⟩
  · obtain ⟨rc₀, hx₀, htm, -, -⟩ := hof x rc' hx
    rw [htm, htimers]
    exact h.timer x rc₀ hx₀
  · rw [htimers] at ht
    obtain ⟨rc₀, hx₀, htm⟩ := h.ctxt t tm ht
    rw [hradmcs]
    by_cases hxr : tm.ctxt = r
    · rw [hxr] at hx₀ ⊢
      rw [hrc] at hx₀
      cases hx₀
      exact ⟨_, update_self .., htm⟩
    · exact ⟨rc₀, by rw [update_of_ne hxr, hx₀], htm⟩
  · obtain ⟨rc₀, hx₀, -, hline, -⟩ := hof x rc' hx
    rw [hline]
    exact h.line x rc₀ hx₀
  · obtain ⟨rc₀, hx₀, -, -, heq⟩ := hof x rc' hx
    rw [heq hne]
    have hrest : update d.radmcs r none x = some rc₀ := by rw [update_of_ne hne, hx₀]
    exact (h.greeted x rc₀ hx₀ fun ht => hne (htorn x ht)).frame hrest hf
  · refine (h.repeats a ha).imp_right fun ⟨x, rc₀, ht, hx₀, htm⟩ => ?_
    obtain rfl := htorn x ht
    cases hrc.symm.trans hx₀
    exact ⟨x, { rc with sock := sock, rc4Enc := rc4Enc }, rfl, by rw [hradmcs, update_self], htm⟩
  · obtain ⟨rc₀, hx₀, htm, -, -⟩ := hof x rc' hx
    rw [htm]
    exact h.armed x rc₀ hx₀ fun ht => hne (htorn x ht)

/-- The object after `radmc_reset`. -/
def Radmc.reset (rc : Radmc) : Radmc := { rc with rc4Enc := 0, sock := -1 }

/-- **`radmc_reset`**, whether the socket is still registered or not. -/
theorem radmcReset_ok {e : Ext Slot} {torn : Ptr → Prop} (hi : ProcInv e d.proc)
    (h : Objects d q torn) (htorn : ∀ x, torn x → x = r) (hrc : d.radmcs r = some rc) (hsock : rc.sock ≠ 0) (hfd : e.fd = (ext d.radmcs).fd)
    (hrc4 : e.rc4 = (ext d.radmcs).rc4)
    (hwants : ∀ k, (ext d.radmcs).wants k ↔ k = (rc.sock, r, .radmc) ∨ e.wants k) :
    ∃ p', radmcReset d r = .ok ({ d with proc := p' }.setRadmc r rc.reset) ∧
      Torn ({ d with proc := p' }.setRadmc r rc.reset) q r := by
  have hfd₀ : e.fd (.radmc r) = some rc.sock := by rw [hfd]; simp [ext, hrc]
  have hrc₀ : e.rc4 (.radmc r) = some rc.rc4Enc := by rw [hrc4]; simp [ext, hrc]
  obtain ⟨hne, p₁, hfree, hp₁, h1⟩ := freeExt_ok hi hrc₀
  have h2 := unregister_ok h1 rc.sock r .radmc rfl
  obtain ⟨p₃, hclose, hp₃, h3⟩ := closeExt_ok h2 (a := .radmc r) (by exact hfd₀)
  have hpos : rc.sock > 0 := by
    have := (hi.opened_of hfd₀).2
    omega
  refine ⟨p₃, ?_, ?_, ?_⟩
  · simp only [radmcReset, Res.deref_of_some hrc, Res.ok_bind, freeRc4If, if_pos hne, hfree,
      closeMacro, if_pos hpos, hclose, Res.pure_eq]
    rfl
  · -- what is left owns and wants what the other objects do
    show ProcInv (ext (update (update d.radmcs r (some rc.reset)) r none)) p₃
    rw [update_idem]
    refine h3.congr (fun a => ?_) (fun a => ?_) fun k => ?_
    · rw [ext_none_fd, ← hfd]
      rfl
    · rw [ext_none_rc4, ← hrc4]
      rfl
    · rw [ext_none_wants hrc, hwants]
      show _ ↔ _ ∧ e.wants k
      tauto
  · refine h.tear hrc rfl rfl htorn ?_
    have hno : ∀ a, (ext (update d.radmcs r none)).rc4 a ≠ some rc.rc4Enc := by
      intro a ha
      rw [ext_none_rc4, ← hrc4] at ha
      by_cases har : a = .radmc r
      · rw [har, update_self] at ha
        cases ha
      · rw [update_of_ne har] at ha
        exact har (hi.rc4_inj ha hrc₀)
    subst hp₁ hp₃
    exact .of_rc4 hno rfl rfl rfl

theorem Inv.reset (h : Inv d q) (hrc : d.radmcs r = some rc) (hsock : rc.sock ≠ 0) :
    ∃ p', radmcReset d r = .ok ({ d with proc := p' }.setRadmc r rc.reset) ∧
      Torn ({ d with proc := p' }.setRadmc r rc.reset) q r := by
  refine radmcReset_ok h.proc h.objects (fun _ ht => ht.elim) hrc hsock rfl rfl fun k => ?_
  refine ⟨?_, ?_⟩
  · exact .inr
  · rintro (rfl | hk)
    · exact ⟨r, rc, hrc, rfl⟩
    · exact hk

/-! ## Connecting -/

/-- An object is whole again. -/
theorem Torn.join {p' : Proc} {s' : Timers TimerCallBack} {rc' : Radmc} {dl : Timeval}
    (h : Torn d q r) (hrc : d.radmcs r = some rc) (htimer : rc'.timer = rc.timer)
    (hline : handshake rc' = handshake rc) (hfr : Frame d.timers s')
    (hs : Sound s' (q.restart d.timers.inCheckTimeoutLock ⟨rc.timer, dl, -1⟩))
    (hp : ProcInv (ext (update d.radmcs r (some rc'))) p') (hg : Greeted p' rc')
    (hf : ExtFrame (ext (update d.radmcs r none)) d.proc p') :
    Inv ({ d with proc := p', timers := s' }.setRadmc r rc')
      (q.restart d.timers.inCheckTimeoutLock ⟨rc.timer, dl, -1⟩) := by
  have hof : ∀ x rcx, update d.radmcs r (some rc') x = some rcx → ∃ rc₀, d.radmcs x = some rc₀ ∧
      rcx.timer = rc₀.timer ∧ handshake rcx = handshake rc₀ ∧
      (x = r ∧ rcx = rc' ∨ x ≠ r ∧ rcx = rc₀) := by
    intro x rcx hx
    by_cases hxr : x = r
    · subst hxr
      rw [update_self] at hx
      cases hx
      exact ⟨rc, hrc, htimer, hline, .inl ⟨rfl, rfl⟩⟩
    · rw [update_of_ne hxr] at hx
      exact ⟨rcx, hx, rfl, rfl, .inr ⟨hxr, rfl⟩⟩
  have hu := h.objects.timers.unique
  refine ⟨hp, hs, hfr.malloc.trans h.objects.malloc, fun x rcx hx => ?_, fun t tm ht => ?_,
    fun x rcx hx => ?_, fun x rcx hx _ => ?_, fun x hx => ?_, fun x rcx hx _ => ?_⟩
  · obtain ⟨rc₀, hx₀, htm, -, -⟩ := hof x rcx hx
    rw [htm]
    show _ ∧ ∃ tm, s'.timers _ = some tm ∧ _
    rw [hfr.timers]
    exact h.objects.timer x rc₀ hx₀
  · change s'.timers t = some tm at ht
    rw [hfr.timers] at ht
    obtain ⟨rc₀, hx₀, htm⟩ := h.objects.ctxt t tm ht
    show ∃ rcx, update d.radmcs r (some rc') tm.ctxt = some rcx ∧ _
    by_cases hxr : tm.ctxt = r
    · rw [hxr] at hx₀ ⊢
      rw [hrc] at hx₀
      cases hx₀
      exact ⟨rc', update_self .., htimer.trans htm⟩
    · exact ⟨rc₀, by rw [update_of_ne hxr, hx₀], htm⟩
  · obtain ⟨rc₀, hx₀, -, hl, -⟩ := hof x rcx hx
    rw [hl]
    exact h.objects.line x rc₀ hx₀
  · obtain ⟨rc₀, hx₀, -, -, ⟨rfl, rfl⟩ | ⟨hne, rfl⟩⟩ := hof x rcx hx
    · exact hg
    · exact (h.objects.greeted x rcx hx₀ hne).frame (r := x) (by rw [update_of_ne hne, hx₀]) hf
  · rcases (Queue.mem_restart hu).1 hx with rfl | ⟨hx, hne⟩
    · exact .inl rfl
    · refine .inl ((h.objects.repeats x hx).resolve_right fun ⟨y, rc₀, hy, hx₀, htm⟩ => hne ?_)
      rw [hy, hrc] at hx₀
      cases hx₀
      exact htm.symm
  · obtain ⟨rc₀, hx₀, htm, -, ⟨rfl, rfl⟩ | ⟨hne, rfl⟩⟩ := hof x rcx hx
    · exact ⟨⟨rc.timer, dl, -1⟩, (Queue.mem_restart hu).2 (.inl rfl), htimer.symm⟩
    · obtain ⟨a, ha, hat⟩ := h.objects.armed x rcx hx₀ hne
      by_cases hsame : a.timer = rc.timer
      · exact ⟨⟨rc.timer, dl, -1⟩, (Queue.mem_restart hu).2 (.inl rfl), hsame.symm.trans hat⟩
      · exact ⟨a, (Queue.mem_restart hu).2 (.inr ⟨ha, hsame⟩), hat⟩

/-- The timer of an object is restarted, if it has one. -/
def Device.rearm (d : Device) (rc : Radmc) : Res (Timers TimerCallBack) :=
  if rc.timer ≠ 0 then restartTimer d.timers rc.timer (-1) else .ok d.timers

/-- What `radmc_reconnect` does for the object at `r`, whose place `a` is empty. -/
structure Reconnected {ι : Type} [DecidableEq ι] (e : Ext ι) (a : ι) (r : Ptr) (rc : Radmc) (p p' : Proc) :
    Prop where
  greeted : Greeted p' rc
  proc : ProcInv (((e.setFd a (some rc.sock)).setRc4 a (some rc.rc4Enc)).want (rc.sock, r, .radmc) rfl) p'
  frame : ExtFrame e p p'
  intact : ∀ q f p₀, Intact q f p₀ p → Intact q f p₀ p'
  fwds : p'.fwds = p.fwds

/-- **`radmc_reconnect`**, whatever else the program owns. -/
theorem radmcReconnect_proc {ι : Type} [DecidableEq ι] {e : Ext ι} {a : ι} (hi : ProcInv e d.proc)
    (hfd : e.fd a = none) (hrc4 : e.rc4 a = none) (hrc : d.radmcs r = some rc)
    (hline : (handshake rc).length < 256) (ans : Reconnect) :
    radmcReconnect d r ans = .exit ∨ ∃ sock p',
      radmcReconnect d r ans = (d.rearm rc >>= fun s => .ok ({ d with proc := p', timers := s }.setRadmc r
        { rc with sock := sock, rc4Enc := ans.rc4 })) ∧
      Reconnected e a r { rc with sock := sock, rc4Enc := ans.rc4 } d.proc p' := by
  unfold radmcReconnect
  rw [Res.deref_of_some hrc, Res.ok_bind]
  cases hsock : d.proc.newSock ans.sock with
  | none => exact .inl rfl
  | some b =>
    obtain ⟨sock, p₁⟩ := b
    obtain ⟨-, hpos, hfresh, hp₁, h1⟩ := newSock_ok hi hsock hfd
    by_cases hconn : ans.connected = true
    swap
    · exact .inl (if_pos hconn)
    simp only [hconn, not_true, if_false]
    rcases newRc4_ok h1 ans.rc4 (a := a) (by exact hrc4) rc.rc4Key with
      hx | ⟨p₂, hnew, hnone, -, hp₂, h2⟩
    · exact .inl (by rw [hx]; rfl)
    rw [hnew, Res.ok_bind]
    set rc' : Radmc := { rc with sock := sock, rc4Enc := ans.rc4 } with hrc'
    rw [if_neg (show ¬ (handshake rc').length ≥ 256 from not_le.2 hline)]
    have hst : p₂.rc4 ans.rc4 = some (rc4Setup rc.rc4Key) := by
      rw [hp₂]
      exact update_self ..
    obtain ⟨p₃, hcrypt, hp₃, h3⟩ := crypt_ok h2 hst (handshake rc')
    simp only [hcrypt, Res.ok_bind]
    by_cases hsent : ans.sent = true
    swap
    · exact .inl (if_pos hsent)
    simp only [hsent, not_true, if_false]
    set buf := (rc4Crypt (rc4Setup rc.rc4Key) (handshake rc')).1 with hbuf
    refine .inr ⟨sock, (p₃.send sock buf).register sock sockin r .radmc, ?_, ⟨?_, ?_⟩,
      register_ok (h3.send sock buf) hpos sockin r .radmc rfl, ?_, ?_, ?_⟩
    · unfold Device.rearm
      split <;> rfl
    · show update p₃.sent sock (p₃.sent sock ++ buf) sock = buf
      rw [update_self, hp₃, hp₂, hp₁]
      show update d.proc.sent sock [] sock ++ buf = buf
      rw [update_self, List.nil_append]
    · show p₃.rc4 ans.rc4 = _
      rw [hp₃]
      exact update_self ..
    · -- the descriptor and the cipher state were nobody's
      have hno : ∀ a, e.fd a ≠ some sock := fun a ha => by
        rw [(hi.opened_of ha).1] at hfresh
        cases hfresh
      have hno4 : ∀ a, e.rc4 a ≠ some ans.rc4 := fun a ha => by
        obtain ⟨st, hst⟩ := hi.rc4_isSome ha
        rw [hp₁] at hnone
        rw [show d.proc.rc4 ans.rc4 = none from hnone] at hst
        cases hst
      have hf1 : ExtFrame e d.proc p₁ := hi.frame_newSock hsock rfl
      have hf2 : ExtFrame e p₁ p₂ := hi.frame_newRc4 hnew (by rw [hp₁]; rfl)
      have hf3 : ExtFrame e p₂ p₃ := .of_rc4 hno4 (by rw [hp₃]) (by rw [hp₃]) (by rw [hp₃])
      have hf4 : ExtFrame e p₃ (p₃.send sock buf) := .of_send buf hno
      exact ((hf1.trans hf2).trans hf3).trans ⟨hf4.rcvd, hf4.sent, hf4.rc4⟩
    · intro q f p₀ hin
      obtain ⟨hin₁, hfd₁⟩ := hin.newSock hsock
      obtain ⟨hin₂, hrc₂⟩ := hin₁.newRc4 hnew
      exact ((hin₂.crypt hrc₂ hcrypt).send hfd₁ buf).setPoll _
    · show p₃.fwds = _
      rw [hp₃, hp₂, hp₁]
      rfl

/-- **`radmc_reconnect`** for an object without a connection. -/
theorem radmcReconnect_ok (h : Torn d q r) (hrc : d.radmcs r = some rc) (ans : Reconnect) :
    radmcReconnect d r ans = .exit ∨ ∃ p' s' rc' dl,
      radmcReconnect d r ans = .ok ({ d with proc := p', timers := s' }.setRadmc r rc') ∧
      rc'.timer = rc.timer ∧ Frame d.timers s' ∧
      Inv ({ d with proc := p', timers := s' }.setRadmc r rc')
        (q.restart d.timers.inCheckTimeoutLock ⟨rc.timer, dl, -1⟩) := by
  obtain ⟨htimer, tm, htm, -⟩ := h.objects.timer r rc hrc
  obtain ⟨s', dl, hs', hfr, hsound⟩ := restartTimer_sound h.objects.timers (t := rc.timer)
    (by rw [htm]; rfl) (-1) h.objects.malloc
  rcases radmcReconnect_proc (a := .radmc r) h.proc (by simp [ext]) (by simp [ext]) hrc
      (h.objects.line r rc hrc) ans with
    hexit | ⟨sock, p', hrun, hre⟩
  · exact .inl hexit
  · set rc' : Radmc := { rc with sock := sock, rc4Enc := ans.rc4 } with hrc'
    refine .inr ⟨p', s', rc', dl, ?_, rfl, hfr, h.join hrc rfl rfl hfr hsound (hre.proc.congr (fun a => ?_)
      (fun a => ?_) fun k => ?_) hre.greeted hre.frame⟩
    · rw [hrun, Device.rearm, if_pos htimer, hs', Res.ok_bind]
    · rw [ext_some_fd]
      rfl
    · rw [ext_some_rc4]
      rfl
    · exact ext_some_wants d.radmcs r rc' k

/-! ## The callbacks -/

theorem Objects.mono {torn torn' : Ptr → Prop} (h : Objects d q torn) (ht : ∀ x, torn x → torn' x) :
    Objects d q torn' :=
  { h with
    greeted := fun r rc hrc hne => h.greeted r rc hrc fun hx => hne (ht r hx)
    repeats := fun e he => (h.repeats e he).imp_right fun ⟨r, rc, hr, hrc⟩ => ⟨r, rc, ht r hr, hrc⟩
    armed := fun r rc hrc hne => h.armed r rc hrc fun hx => hne (ht r hx) }

/-- Every timer of whole objects has just been restarted. -/
theorem Objects.restarted (h : Objects d q fun _ => False) {e : Armed} (he : e ∈ q.all) :
    e.repeats = -1 :=
  (h.repeats e he).resolve_right fun ⟨_, _, hx, _⟩ => hx

theorem Objects.setProc {torn : Ptr → Prop} {p' : Proc} (h : Objects d q torn)
    (hf : ExtFrame (ext d.radmcs) d.proc p') : Objects { d with proc := p' } q torn :=
  { h with greeted := fun r rc hrc hne => (h.greeted r rc hrc hne).frame hrc hf }

/-- Only the timers changed, and none was stopped. -/
theorem Objects.retime {torn : Ptr → Prop} {s' : Timers TimerCallBack} {q' : Queue}
    (h : Objects d q torn) (hfr : Frame d.timers s') (hs : Sound s' q')
    (hrep : ∀ e ∈ q'.all, e.repeats = -1 ∨
      ∃ r rc, torn r ∧ d.radmcs r = some rc ∧ rc.timer = e.timer)
    (hall : ∀ e ∈ q.all, ∃ e' ∈ q'.all, e'.timer = e.timer) :
    Objects { d with timers := s' } q' torn where
  timers := hs
  malloc := hfr.malloc.trans h.malloc
  timer := fun r rc hrc => by
    show _ ∧ ∃ tm, s'.timers _ = some tm ∧ _
    rw [hfr.timers]
    exact h.timer r rc hrc
  ctxt := fun t tm ht => h.ctxt t tm (by rw [← hfr.timers]; exact ht)
  line := h.line
  greeted := h.greeted
  repeats := hrep
  armed := fun r rc hrc hne => by
    obtain ⟨e, he, het⟩ := h.armed r rc hrc hne
    obtain ⟨e', he', het'⟩ := hall e he
    exact ⟨e', he', het'.trans het⟩

theorem Objects.restart {torn : Ptr → Prop} {s' : Timers TimerCallBack} {t : Ptr} {dl : Timeval}
    {lock : Bool} (h : Objects d q torn) (hfr : Frame d.timers s')
    (hs : Sound s' (q.restart lock ⟨t, dl, -1⟩)) :
    Objects { d with timers := s' } (q.restart lock ⟨t, dl, -1⟩) torn := by
  have hu := h.timers.unique
  refine h.retime hfr hs (fun e he => ?_) fun e he => ?_
  · rcases (Queue.mem_restart hu).1 he with rfl | ⟨he, -⟩
    · exact .inl rfl
    · exact h.repeats e he
  · by_cases het : e.timer = t
    · exact ⟨_, (Queue.mem_restart hu).2 (.inl rfl), het.symm⟩
    · exact ⟨e, (Queue.mem_restart hu).2 (.inr ⟨he, het⟩), rfl⟩

theorem radmcReconnect_inv (h : Torn d q r) (hrc : d.radmcs r = some rc) (ans : Reconnect) {lock : Bool}
    (hlock : d.timers.inCheckTimeoutLock = lock) :
    radmcReconnect d r ans = .exit ∨ ∃ d' q', radmcReconnect d r ans = .ok d' ∧ Inv d' q' ∧
      d'.timers.inCheckTimeoutLock = lock := by
  rcases radmcReconnect_ok h hrc ans with hexit | ⟨p', s', rc', dl, hok, -, hfr, hinv⟩
  · exact .inl hexit
  · exact .inr ⟨_, _, hok, hinv, hfr.lock.trans hlock⟩

/-- A reset and a new connection. -/
theorem tryAgain_ok {e : Ext Slot} {torn : Ptr → Prop} (hi : ProcInv e d.proc)
    (h : Objects d q torn) (htorn : ∀ x, torn x → x = r) (hrc : d.radmcs r = some rc)
    (hsock : rc.sock ≠ 0) (hfd : e.fd = (ext d.radmcs).fd) (hrc4 : e.rc4 = (ext d.radmcs).rc4)
    (hwants : ∀ k, (ext d.radmcs).wants k ↔ k = (rc.sock, r, .radmc) ∨ e.wants k) (ans : Reconnect) :
    (radmcReset d r >>= fun d => radmcReconnect d r ans) = .exit ∨ ∃ p' s' rc' dl,
      (radmcReset d r >>= fun d => radmcReconnect d r ans) =
        .ok ({ d with proc := p', timers := s' }.setRadmc r rc') ∧ rc'.timer = rc.timer ∧
      Frame d.timers s' ∧ Inv ({ d with proc := p', timers := s' }.setRadmc r rc')
        (q.restart d.timers.inCheckTimeoutLock ⟨rc.timer, dl, -1⟩) := by
  obtain ⟨p₁, hreset, hreset'⟩ := radmcReset_ok hi h htorn hrc hsock hfd hrc4 hwants
  rw [hreset, Res.ok_bind]
  rcases radmcReconnect_ok hreset' (update_self ..) ans with
    hexit | ⟨p', s', rc', dl, hok, htm, hfr, hinv⟩
  · exact .inl hexit
  · refine .inr ⟨p', s', rc', dl, ?_, htm, hfr, ?_⟩
    · rw [hok]
      simp only [Device.setRadmc, update_idem]
    · simp only [Device.setRadmc, update_idem] at hinv ⊢
      exact hinv

theorem tryAgain_inv {e : Ext Slot} (hi : ProcInv e d.proc) (h : Objects d q fun _ => False)
    (hrc : d.radmcs r = some rc) (hsock : rc.sock ≠ 0) (hfd : e.fd = (ext d.radmcs).fd)
    (hrc4 : e.rc4 = (ext d.radmcs).rc4)
    (hwants : ∀ k, (ext d.radmcs).wants k ↔ k = (rc.sock, r, .radmc) ∨ e.wants k) (ans : Reconnect)
    {lock : Bool} (hlock : d.timers.inCheckTimeoutLock = lock) :
    (radmcReset d r >>= fun d => radmcReconnect d r ans) = .exit ∨ ∃ d' q',
      (radmcReset d r >>= fun d => radmcReconnect d r ans) = .ok d' ∧ Inv d' q' ∧
        d'.timers.inCheckTimeoutLock = lock := by
  rcases tryAgain_ok hi h (fun _ hx => hx.elim) hrc hsock hfd hrc4 hwants ans with
    hexit | ⟨p', s', rc', dl, hok, -, hfr, hinv⟩
  · exact .inl hexit
  · exact .inr ⟨_, _, hok, hinv, hfr.lock.trans hlock⟩

theorem Inv.wants_self (hrc : d.radmcs r = some rc) (k : Key) :
    (ext d.radmcs).wants k ↔ k = (rc.sock, r, .radmc) ∨ (ext d.radmcs).wants k := by
  refine ⟨?_, ?_⟩
  · exact .inr
  · rintro (rfl | hk)
    · exact ⟨r, rc, hrc, rfl⟩
    · exact hk

/-- The server has sent something. -/
def RadmcIn.data (i : RadmcIn) : Prop := ¬ (i.sockerr = true ∨ i.peek = none) ∧ i.peek ≠ some 0

/-- The local socket is attached: the only case in which the connection is not given up. -/
def RadmcIn.attached (p : Proc) (i : RadmcIn) : Prop :=
  i.data ∧ (p.newSock i.sock).isSome = true ∧ i.connected = true

/-- No socket with the number 0 is given up. -/
structure RadmcIn.Ok (p : Proc) (rc : Radmc) (i : RadmcIn) : Prop where
  sock : ¬ i.attached p → rc.sock ≠ 0
  localSock : i.data → i.connected = false → i.sock = some 0 → p.opened 0 = true

/-- **`radmc_callback`.** -/
theorem radmcCallback_ok (h : Inv d q) (hrc : d.radmcs r = some rc) {i : RadmcIn}
    (hok : i.Ok d.proc rc) : radmcCallback d r i = .exit ∨ ∃ d' q',
      radmcCallback d r i = .ok d' ∧ Inv d' q' ∧
        d'.timers.inCheckTimeoutLock = d.timers.inCheckTimeoutLock := by
  have hself := Inv.wants_self hrc
  by_cases hdata : i.data
  swap
  · -- an error, or the server has closed the connection
    have hrun : radmcCallback d r i = radmcReset d r >>= fun d => radmcReconnect d r i.reconnect := by
      rw [radmcCallback, Res.deref_of_some hrc, Res.ok_bind]
      by_cases h1 : i.sockerr = true ∨ i.peek = none
      · rw [if_pos h1]
      · rw [if_neg h1, if_pos]
        exact not_not.1 fun h2 => hdata ⟨h1, h2⟩
    rw [hrun]
    exact tryAgain_inv h.proc h.objects hrc (hok.sock fun ha => hdata ha.1) rfl rfl hself i.reconnect rfl
  obtain ⟨-, tm, htm, -⟩ := h.objects.timer r rc hrc
  obtain ⟨s₁, dl, hs₁, hfr₁, hsound₁⟩ := restartTimer_sound h.objects.timers (t := rc.timer)
    (by rw [htm]; rfl) (-1) h.objects.malloc
  have ho₁ := h.objects.restart hfr₁ hsound₁
  have h1 := unregister_ok h.proc rc.sock r .radmc rfl
  set e₁ := (ext d.radmcs).unwant (rc.sock, r, .radmc) with he₁
  set p₁ := d.proc.unregister rc.sock r .radmc with hp₁
  have hwants : ∀ k, (ext d.radmcs).wants k ↔ k = (rc.sock, r, .radmc) ∨ e₁.wants k := by
    intro k
    rw [hself]
    show _ ↔ _ ∨ _ ∧ (ext d.radmcs).wants k
    tauto
  simp only [radmcCallback, Res.deref_of_some hrc, Res.ok_bind, if_neg hdata.1, if_neg hdata.2, hs₁]
  rw [← hp₁]
  cases hsock : p₁.newSock i.sock with
  | none =>
    -- no local socket
    have hna : ¬ i.attached d.proc := fun ha => by
      have hs := ha.2.1
      rw [← newSock_isSome (show p₁.opened = d.proc.opened from rfl), hsock] at hs
      cases hs
    exact tryAgain_inv (d := { d with proc := p₁, timers := s₁ }) h1
      (ho₁.setProc ⟨fun _ _ _ => rfl, fun _ _ _ => rfl, fun _ _ _ => rfl⟩) hrc (hok.sock hna) rfl rfl
      hwants i.reconnect hfr₁.lock
  | some a =>
    obtain ⟨sock, p₂⟩ := a
    obtain ⟨hr, hpos, hfresh, hp₂, h2⟩ := newSock_ok h1 hsock (a := .var) rfl
    have hf2 : ExtFrame (ext d.radmcs) d.proc p₂ := h.proc.frame_newSock hsock rfl
    by_cases hconn : i.connected = true
    · -- the connection and its cipher state go to a `struct fwd`
      simp only [hconn, not_true, if_false]
      rcases newRc4_ok h2 i.rc4 (a := .var) rfl rc.rc4Key with hx | ⟨p₃, hnew, -, -, hp₃, h3⟩
      · exact .inl (by rw [hx]; rfl)
      rw [hnew, Res.ok_bind]
      have hfd : (ext d.radmcs).fd (.radmc r) = some rc.sock := by simp [ext, hrc]
      have hrc4 : (ext d.radmcs).rc4 (.radmc r) = some rc.rc4Enc := by simp [ext, hrc]
      rcases doForward_ok (q := i.fwd) h3 (a := .radmc r) (b := .var) (c := .var) (g := .radmc r)
          (by exact hfd) rfl (by simp) rfl (by exact hrc4) (by simp) with
        hx | ⟨p₄, hfwd, -, -, -, hrcvd, hsent, hrc4s, h4⟩
      · exact .inl (by rw [hx]; rfl)
      rw [hfwd, Res.ok_bind]
      have hf3 : ExtFrame (ext d.radmcs) p₂ p₃ := h.proc.frame_newRc4 hnew (by rw [hp₂]; rfl)
      have hf4 : ExtFrame (ext d.radmcs) p₃ p₄ :=
        ⟨fun _ _ _ => by rw [hrcvd], fun _ _ _ => by rw [hsent], fun _ _ _ => by rw [hrc4s]⟩
      have htorn : Torn { d with proc := p₄, timers := s₁ }
          (q.restart d.timers.inCheckTimeoutLock ⟨rc.timer, dl, -1⟩) r := by
        refine ⟨h4.congr (fun a => ?_) (fun a => ?_) fun k => ?_,
          (ho₁.setProc ((hf2.trans hf3).trans hf4)).mono fun _ hx => hx.elim⟩
        · rw [ext_none_fd]
          cases a with
          | radmc x => by_cases hx : x = r <;> simp [hx, he₁]
          | var => simp [ext]
        · rw [ext_none_rc4]
          cases a with
          | radmc x => by_cases hx : x = r <;> simp [hx, he₁]
          | var => simp [ext]
        · exact ext_none_wants hrc k
      exact radmcReconnect_inv htorn hrc i.reconnect hfr₁.lock
    · -- the local address does not answer
      simp only [hconn]
      have hne : sock ≠ 0 := by
        rintro rfl
        have h0 := hok.localSock hdata (by simpa using hconn) hr
        rw [show d.proc.opened 0 = false from hfresh] at h0
        cases h0
      obtain ⟨p₃, hclose, hp₃, h3⟩ := closeExt_ok h2
        (show (e₁.setFd .var (some sock)).fd .var = some sock by simp)
      have hcl : closeMacro p₂ sock = .ok (p₃, -1) := by
        rw [closeMacro, if_pos (by omega), hclose]
        rfl
      rw [hcl, Res.ok_bind]
      have hf3 : ExtFrame (ext d.radmcs) d.proc p₃ := by
        rw [hp₃]
        exact ⟨hf2.rcvd, hf2.sent, hf2.rc4⟩
      have hfd : ((e₁.setFd .var (some sock)).setFd .var none).fd = (ext d.radmcs).fd := by
        rw [Ext.setFd_fd, Ext.setFd_fd, update_idem]
        exact update_eq_self_iff.2 rfl
      exact tryAgain_inv (d := { d with proc := p₃, timers := s₁ }) h3 (ho₁.setProc hf3) hrc
        (hok.sock fun ha => hconn ha.2.2) hfd rfl hwants i.reconnect hfr₁.lock

end

end Radmcli
