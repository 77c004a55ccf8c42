import GoipRemote.Relay.FwdInv

/-!
# What a program does with its own descriptors and cipher states

Each operation of `Proc` against what the objects of the program own (`Ext`): `newSock_ok`,
`closeExt_ok`, `newRc4_ok` and `freeExt_ok` for a slot that is filled or emptied, `ProcInv.moveFd` and
`ProcInv.moveRc4` for a resource that goes from one slot to another, `register_ok` and `unregister_ok`
for what the objects want registered. `Ext.ofSlots` is the case that each slot wants one key.
-/

namespace Relay

open Utils Function Ownership

variable {ι : Type} {e e' : Ext ι} {p p' : Proc} {a b : ι}

/-- Only the logs and the contents of cipher states changed. -/
theorem ProcInv.of_eq (hi : ProcInv e p) (hopened : p'.opened = p.opened)
    (hrc4 : ∀ x, (p'.rc4 x).isSome = (p.rc4 x).isSome) (hfwds : p'.fwds = p.fwds)
    (hpoll : p'.poll = p.poll) : ProcInv e p' := by
  refine ⟨⟨?_, ?_, ?_, ?_, ?_⟩, ?_, ?_⟩
  · rw [hpoll]
    exact hi.poll
  · rw [hfwds, hopened]
    exact hi.fds
  · rw [hopened]
    exact hi.fd_nonneg
  · rw [hfwds]
    exact hi.rc4s.congr (fun _ => rfl) fun x => by rw [hrc4]
  · have h0 := hrc4 0
    rw [hi.rc4_zero] at h0
    simpa using h0
  · rw [hpoll, hfwds]
    exact hi.has
  · rw [hfwds]
    exact hi.halves

/-- Another description of what the program owns. -/
theorem ProcInv.congr (hi : ProcInv e p) (hfd : ∀ a, e'.fd a = e.fd a) (hrc : ∀ a, e'.rc4 a = e.rc4 a)
    (hwants : ∀ k, e'.wants k ↔ e.wants k) : ProcInv e' p := by
  obtain ⟨fd, rc4, wants, hno⟩ := e
  obtain ⟨fd', rc4', wants', hno'⟩ := e'
  obtain rfl : fd' = fd := funext hfd
  obtain rfl : rc4' = rc4 := funext hrc
  obtain rfl : wants' = wants := funext fun k => propext (hwants k)
  exact hi

/-- At the start, nobody owns anything. -/
theorem ProcInv.init (pfdList : Nat → Pollfd) (pfdCallBacks : Nat → PfdCallBack Ptr CallBack)
    (hfd : ∀ a, e.fd a = none) (hrc : ∀ a, e.rc4 a = none) (hwants : ∀ k, ¬ e.wants k) :
    ProcInv e (.init pfdList pfdCallBacks) := by
  have hnone : ∀ {α : Type} {own : ι → Option α}, (∀ a, own a = none) →
      Owned (Sum.elim own fun _ : Ptr × Side => none) fun _ => False := by
    intro α own hown
    have h : ∀ a x, Sum.elim own (fun _ : Ptr × Side => none) a ≠ some x := by
      rintro (a | a) x
      · simp [hown]
      · simp
    exact ⟨fun a _ x ha => absurd ha (h a x), fun x => ⟨False.elim, fun ⟨a, ha⟩ => h a x ha⟩⟩
  refine ⟨⟨⟨_, init_live pfdList pfdCallBacks⟩, ?_, ?_, ?_, rfl⟩, fun k => ?_, ?_⟩
  · exact (hnone hfd).congr (fun _ => rfl) fun _ => by simp [Proc.init]
  · intro fd h
    cases h
  · exact (hnone hrc).congr (fun _ => rfl) fun _ => by simp [Proc.init]
  · refine ⟨?_, ?_⟩
    · intro h
      cases h
    · rintro (h | ⟨_, _, _, h, -⟩)
      · exact absurd h (hwants k)
      · cases h
  · intro _ _ _ h
    cases h

theorem ProcInv.receive (hi : ProcInv e p) (fd : Int) (data : List UInt8) :
    ProcInv e (p.receive fd data) := hi.of_eq rfl (fun _ => rfl) rfl rfl

theorem ProcInv.send (hi : ProcInv e p) (fd : Int) (data : List UInt8) :
    ProcInv e (p.send fd data) := hi.of_eq rfl (fun _ => rfl) rfl rfl

/-- `rc4_crypt` on a state of the program. -/
theorem crypt_ok (hi : ProcInv e p) {x : Ptr} {s : Rc4State} (hs : p.rc4 x = some s)
    (data : List UInt8) : ∃ p', p.crypt x data = .ok ((rc4Crypt s data).1, p') ∧
      p' = { p with rc4 := update p.rc4 x (some (rc4Advance data.length s)) } ∧ ProcInv e p' := by
  refine ⟨_, ?_, rfl, hi.of_eq rfl (fun y => ?_) rfl rfl⟩
  · rw [Proc.crypt, Res.deref_of_some hs, Res.ok_bind, ← rc4Crypt_snd]
    rfl
  · show (update p.rc4 x (some _) y).isSome = (p.rc4 y).isSome
    by_cases hy : y = x
    · rw [hy, update_self, hs]
      rfl
    · rw [update_of_ne hy]

/-! ## What is left alone -/

/-- A descriptor that nobody had. -/
theorem ProcInv.frame_openSock (hi : ProcInv e p) {fd : Int} (hfd : p.opened fd = false) :
    ExtFrame e p (p.openSock fd) := by
  have hne : ∀ a x, e.fd a = some x → x ≠ fd := by
    rintro a x ha rfl
    have hopen : p.opened x = true := hi.fds.live_of (a := Sum.inl a) ha
    rw [hfd] at hopen
    cases hopen
  exact ⟨fun a x ha => update_of_ne (hne a x ha) .., fun a x ha => update_of_ne (hne a x ha) ..,
    fun _ _ _ => rfl⟩

/-- A new descriptor, which nobody had. -/
theorem ProcInv.frame_newSock (hi : ProcInv e p) {p₀ : Proc} {r : Option Int} {fd : Int}
    (hr : p₀.newSock r = some (fd, p')) (hp₀ : p₀ = { p with poll := p₀.poll }) : ExtFrame e p p' := by
  obtain ⟨-, -, hfresh, rfl⟩ := Proc.newSock_eq_some hr
  obtain ⟨poll, rfl⟩ : ∃ poll, p₀ = { p with poll := poll } := ⟨_, hp₀⟩
  have hf := hi.frame_openSock hfresh
  exact ⟨hf.rcvd, hf.sent, hf.rc4⟩

/-- A cipher state that nobody of `e` has. -/
theorem ExtFrame.of_rc4 {x : Ptr} {s : Option Rc4State} (h : ∀ a, e.rc4 a ≠ some x)
    (hrc4 : p'.rc4 = update p.rc4 x s) (hrcvd : p'.rcvd = p.rcvd) (hsent : p'.sent = p.sent) :
    ExtFrame e p p' where
  rcvd := fun _ _ _ => by rw [hrcvd]
  sent := fun _ _ _ => by rw [hsent]
  rc4 := fun a y ha => by
    rw [hrc4, update_of_ne]
    rintro rfl
    exact h a ha

/-- A socket that nobody of `e` has. -/
theorem ExtFrame.of_send {fd : Int} (data : List UInt8) (h : ∀ a, e.fd a ≠ some fd) :
    ExtFrame e p (p.send fd data) where
  rcvd := fun _ _ _ => rfl
  sent := fun a x ha => by
    refine update_of_ne ?_ ..
    rintro rfl
    exact h a ha
  rc4 := fun _ _ _ => rfl

theorem ProcInv.rc4_isSome (hi : ProcInv e p) {x : Ptr} (ha : e.rc4 a = some x) :
    ∃ s, p.rc4 x = some s :=
  Option.isSome_iff_exists.1 (hi.rc4s.live_of (a := Sum.inl a) ha)

/-- A new cipher state, which nobody had. -/
theorem ProcInv.frame_newRc4 (hi : ProcInv e p) {p₀ : Proc} {x : Ptr} {key : List UInt8}
    (hr : p₀.newRc4 x key = .ok p') (hp₀ : p₀.rc4 = p.rc4) : ExtFrame e p₀ p' := by
  obtain ⟨-, hnone, rfl⟩ := Proc.newRc4_eq_ok hr
  refine .of_rc4 (fun a ha => ?_) rfl rfl rfl
  obtain ⟨st, hst⟩ := hi.rc4_isSome ha
  rw [hp₀, hst] at hnone
  cases hnone

theorem ProcInv.opened_of (hi : ProcInv e p) {fd : Int} (ha : e.fd a = some fd) :
    p.opened fd = true ∧ 0 ≤ fd :=
  have h : p.opened fd = true := hi.fds.live_of (a := Sum.inl a) ha
  ⟨h, hi.fd_nonneg _ h⟩

theorem ProcInv.fd_inj (hi : ProcInv e p) {fd : Int} (ha : e.fd a = some fd) (hb : e.fd b = some fd) :
    a = b := Sum.inl.inj (hi.fds.inj (.inl a) (.inl b) fd ha hb)

theorem ProcInv.rc4_inj (hi : ProcInv e p) {x : Ptr} (ha : e.rc4 a = some x) (hb : e.rc4 b = some x) :
    a = b := Sum.inl.inj (hi.rc4s.inj (.inl a) (.inl b) x ha hb)

/-! ## Registrations -/

/-- The objects of the program want another set of keys, and it is registered. -/
theorem ProcInv.rewant (hi : ProcInv e p) (hpoll : p'.poll.Ok) (hopened : p'.opened = p.opened)
    (hrc4 : p'.rc4 = p.rc4) (hfwds : p'.fwds = p.fwds) (hfd : e'.fd = e.fd) (hrc : e'.rc4 = e.rc4)
    (hhas : ∀ k, p'.poll.Has k ↔ e'.wants k ∨ FwdWants p.fwds k) : ProcInv e' p' := by
  refine ⟨⟨hpoll, ?_, ?_, ?_, ?_⟩, ?_, ?_⟩
  · rw [hfwds, hopened, hfd]
    exact hi.fds
  · rw [hopened]
    exact hi.fd_nonneg
  · rw [hfwds, hrc4, hrc]
    exact hi.rc4s
  · rw [hrc4]
    exact hi.rc4_zero
  · rw [hfwds]
    exact hhas
  · rw [hfwds]
    exact hi.halves

theorem register_ok (hi : ProcInv e p) {sock : Int} (hsock : 0 ≤ sock) (events : BitVec 32)
    (inst : Ptr) (callBack : CallBack) (hcb : callBack.ofFwd = false) :
    ProcInv (e.want (sock, inst, callBack) hcb) (p.register sock events inst callBack) := by
  obtain ⟨hok, hk⟩ := proc_register hi.poll (show sock ≠ -1 by omega) events inst callBack
  refine hi.rewant hok rfl rfl rfl rfl rfl fun k => ?_
  rw [hk, hi.has, ← or_assoc]
  rfl

theorem unregister_ok (hi : ProcInv e p) (sock : Int) (inst : Ptr) (callBack : CallBack)
    (hcb : callBack.ofFwd = false) :
    ProcInv (e.unwant (sock, inst, callBack)) (p.unregister sock inst callBack) := by
  obtain ⟨hok, hk⟩ := proc_unregister hi.poll sock inst callBack
  refine hi.rewant hok rfl rfl rfl rfl rfl fun k => ?_
  rw [hk, hi.has]
  refine ⟨?_, ?_⟩
  · rintro ⟨hne, hw | hw⟩
    · exact .inl ⟨hne, hw⟩
    · exact .inr hw
  · rintro (⟨hne, hw⟩ | ⟨q, f, d, hf, rfl⟩)
    · exact ⟨hne, .inl hw⟩
    · refine ⟨fun hc => ?_, .inr ⟨q, f, d, hf, rfl⟩⟩
      have hside := (wantKey_side q f d).2
      rw [hc, hcb] at hside
      cases hside

theorem ProcInv.defragment (hi : ProcInv e p) : ProcInv e p.defragment := by
  obtain ⟨hok, hk⟩ := has_defrag hi.poll
  exact hi.rewant hok rfl rfl rfl rfl rfl fun k => (hk k).trans (hi.has k)

/-! ## Resources -/

/-- Other owners of the program's resources, and other resources. -/
theorem ProcInv.reown (hi : ProcInv e p) (hpoll : p'.poll = p.poll) (hfwds : p'.fwds = p.fwds)
    (hwants : e'.wants = e.wants)
    (hfds : Owned (Sum.elim e'.fd (fwdFd p.fwds)) fun fd => p'.opened fd = true)
    (hpos : ∀ fd, p'.opened fd = true → 0 ≤ fd)
    (hrc4s : Owned (Sum.elim e'.rc4 (fwdRc4 p.fwds)) fun x => (p'.rc4 x).isSome = true)
    (hzero : p'.rc4 0 = none) : ProcInv e' p' := by
  refine ⟨⟨?_, ?_, hpos, ?_, hzero⟩, ?_, ?_⟩
  · rw [hpoll]
    exact hi.poll
  · rw [hfwds]
    exact hfds
  · rw [hfwds]
    exact hrc4s
  · rw [hpoll, hfwds, hwants]
    exact hi.has
  · rw [hfwds]
    exact hi.halves

section
variable [DecidableEq ι]

omit [DecidableEq ι] in
theorem newSock_isSome (hopened : p'.opened = p.opened) (r : Option Int) :
    (p'.newSock r).isSome = (p.newSock r).isSome := by
  cases r with
  | none => rfl
  | some fd =>
    simp only [Proc.newSock, hopened]
    split <;> rfl

/-- A new descriptor is put in an empty slot. -/
theorem newSock_ok (hi : ProcInv e p) {r : Option Int} {fd : Int} (hr : p.newSock r = some (fd, p'))
    (ha : e.fd a = none) : r = some fd ∧ 0 ≤ fd ∧ p.opened fd = false ∧ p' = p.openSock fd ∧
      ProcInv (e.setFd a (some fd)) p' := by
  obtain ⟨rfl, hpos, hnew, rfl⟩ := Proc.newSock_eq_some hr
  refine ⟨rfl, hpos, hnew, rfl, hi.reown rfl rfl rfl ?_ ?_ hi.rc4s hi.rc4_zero⟩
  · rw [Ext.setFd, ← Sum.update_elim_inl]
    refine (hi.fds.acquire (a := Sum.inl a) ha (by rw [hnew]; simp)).congr (fun _ => rfl)
      fun x => ?_
    by_cases hx : x = fd <;> simp [Proc.openSock, hx]
  · intro x hx
    by_cases hxf : x = fd
    · exact hxf ▸ hpos
    · exact hi.fd_nonneg x (by simpa [Proc.openSock, hxf] using hx)

theorem closeExt_ok (hi : ProcInv e p) {fd : Int} (ha : e.fd a = some fd) :
    ∃ p', p.close fd = .ok p' ∧ p' = { p with opened := update p.opened fd false } ∧
      ProcInv (e.setFd a none) p' := by
  have hopen : p.opened fd = true := hi.fds.live_of (a := Sum.inl a) ha
  refine ⟨_, close_ok (hi.fd_nonneg _ hopen) hopen, rfl, hi.reown rfl rfl rfl ?_ ?_ hi.rc4s hi.rc4_zero⟩
  · rw [Ext.setFd, ← Sum.update_elim_inl]
    exact (hi.fds.release (a := Sum.inl a) ha).congr (fun _ => rfl) fun x => update_opened
  · intro x hx
    exact hi.fd_nonneg x (update_opened.1 hx).2

/-- A new cipher state is put in an empty slot. -/
theorem newRc4_ok (hi : ProcInv e p) (x : Ptr) (ha : e.rc4 a = none) (key : List UInt8) :
    p.newRc4 x key = .exit ∨ ∃ p', p.newRc4 x key = .ok p' ∧ p.rc4 x = none ∧ x ≠ 0 ∧
      p' = { p with rc4 := update p.rc4 x (some (rc4Setup key)) } ∧
      ProcInv (e.setRc4 a (some x)) p' := by
  by_cases hfresh : x = 0 ∨ (p.rc4 x).isSome = true
  · exact .inl (if_pos hfresh)
  obtain ⟨hx, hsome⟩ := not_or.1 hfresh
  have hnew : p.rc4 x = none := by simpa using hsome
  refine .inr ⟨_, if_neg hfresh, hnew, hx, rfl, hi.reown rfl rfl rfl hi.fds hi.fd_nonneg ?_ ?_⟩
  · rw [Ext.setRc4, ← Sum.update_elim_inl]
    refine (hi.rc4s.acquire (a := Sum.inl a) ha (by rw [hnew]; simp)).congr (fun _ => rfl) fun y => ?_
    by_cases hy : y = x <;> simp [hy]
  · show update p.rc4 x _ 0 = none
    rw [update_of_ne (Ne.symm hx)]
    exact hi.rc4_zero

theorem freeExt_ok (hi : ProcInv e p) {x : Ptr} (ha : e.rc4 a = some x) :
    x ≠ 0 ∧ ∃ p', p.freeRc4 x = .ok p' ∧ p' = { p with rc4 := update p.rc4 x none } ∧
      ProcInv (e.setRc4 a none) p' := by
  have hlive : (p.rc4 x).isSome = true := hi.rc4s.live_of (a := Sum.inl a) ha
  have hx : x ≠ 0 := by
    rintro rfl
    rw [hi.rc4_zero] at hlive
    cases hlive
  refine ⟨hx, _, by rw [Proc.freeRc4, if_pos hlive], rfl,
    hi.reown rfl rfl rfl hi.fds hi.fd_nonneg ?_ ?_⟩
  · rw [Ext.setRc4, ← Sum.update_elim_inl]
    exact (hi.rc4s.release (a := Sum.inl a) ha).congr (fun _ => rfl) fun y => update_isSome
  · show update p.rc4 x none 0 = none
    rw [update_of_ne hx.symm]
    exact hi.rc4_zero

/-- A socket of the program goes to another of its slots. -/
theorem ProcInv.moveFd (hi : ProcInv e p) {fd : Int} (ha : e.fd a = some fd) (hb : e.fd b = none) :
    ProcInv ((e.setFd a none).setFd b (some fd)) p := by
  refine hi.reown rfl rfl rfl ?_ hi.fd_nonneg hi.rc4s hi.rc4_zero
  rw [Ext.setFd, Ext.setFd, ← Sum.update_elim_inl, ← Sum.update_elim_inl]
  exact hi.fds.move (a := Sum.inl a) (b := Sum.inl b) ha hb

/-- A cipher state of the program goes to another of its slots. -/
theorem ProcInv.moveRc4 (hi : ProcInv e p) {x : Ptr} (ha : e.rc4 a = some x) (hb : e.rc4 b = none) :
    ProcInv ((e.setRc4 a none).setRc4 b (some x)) p := by
  refine hi.reown rfl rfl rfl hi.fds hi.fd_nonneg ?_ hi.rc4_zero
  rw [Ext.setRc4, Ext.setRc4, ← Sum.update_elim_inl, ← Sum.update_elim_inl]
  exact hi.rc4s.move (a := Sum.inl a) (b := Sum.inl b) ha hb

end

/-! ## Keys of slots -/

/-- What the slots own, and the key that each wants registered. -/
def Ext.ofSlots (fd : ι → Option Int) (rc4 : ι → Option Ptr) (key : ι → Option Key)
    (hno : ∀ a k, key a = some k → k.2.2.ofFwd = false) : Ext ι where
  fd := fd
  rc4 := rc4
  wants k := ∃ a, key a = some k
  ofFwd_false k h := by
    obtain ⟨a, ha⟩ := h
    exact hno a k ha

section
variable [DecidableEq ι] {key : ι → Option Key} {k k₀ : Key}

theorem exists_update_some (ha : ∀ k, key a = some k → k = k₀) :
    (∃ b, update key a (some k₀) b = some k) ↔ k = k₀ ∨ ∃ b, key b = some k := by
  refine ⟨?_, ?_⟩
  · rintro ⟨b, hb⟩
    by_cases hba : b = a
    · rw [hba, update_self] at hb
      exact .inl (Option.some.inj hb).symm
    · rw [update_of_ne hba] at hb
      exact .inr ⟨b, hb⟩
  · rintro (rfl | ⟨b, hb⟩)
    · exact ⟨a, update_self ..⟩
    · by_cases hba : b = a
      · refine ⟨a, ?_⟩
        rw [update_self, ha k (hba ▸ hb)]
      · exact ⟨b, by rw [update_of_ne hba, hb]⟩

theorem exists_update_none (ha : ∀ k, key a = some k → k = k₀) (hinj : ∀ b, key b = some k₀ → b = a) :
    (∃ b, update key a none b = some k) ↔ k ≠ k₀ ∧ ∃ b, key b = some k := by
  refine ⟨?_, ?_⟩
  · rintro ⟨b, hb⟩
    by_cases hba : b = a
    · rw [hba, update_self] at hb
      cases hb
    · rw [update_of_ne hba] at hb
      refine ⟨?_, b, hb⟩
      rintro rfl
      exact hba (hinj b hb)
  · rintro ⟨hk, b, hb⟩
    refine ⟨b, ?_⟩
    rw [update_of_ne, hb]
    rintro rfl
    exact hk (ha k hb)

end

end Relay
