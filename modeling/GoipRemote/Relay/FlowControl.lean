import GoipRemote.Relay.FwdInv

/-!
# The flow control of the relay

`FlowOk p`: a direction of a live `struct fwd` is registered for reading while its buffer is empty and
for writing while there is something left in it, and a `struct fwd` that was released is not registered
at all. This is read off `ProcInv`.

`Passed f f' p p'`: what a direction received on the way from `p` to `p'` was deciphered and sent in
order, but for what its buffer holds now. A callback passes on (`fwdStep_passed`), and what leaves a
`struct fwd` alone is `Intact`.
-/

namespace Relay

open Utils Function Ownership

variable {ι : Type} {e : Ext ι} {p₀ p p' p'' : Proc} {q : Ptr} {f f' f'' : Fwd} {d : Side}

/-! ## Registrations -/

/-- A direction of a live `struct fwd` has one of its two registrations. -/
structure Flows (p : Proc) (q : Ptr) (f : Fwd) (d : Side) : Prop where
  read : ∀ fd, p.poll.Has (fd, q, d.readCallBack) ↔
    fd = (f d).sock ∧ (f d).buf = [] ∧ (f d).bufpos = 0
  write : ∀ fd, p.poll.Has (fd, q, d.writeCallBack) ↔
    fd = (f d.other).sock ∧ (f d).bufpos < (f d).buf.length ∧ (f d).buf.length ≤ 512
  one : Xor (p.poll.Has ((f d).sock, q, d.readCallBack))
    (p.poll.Has ((f d.other).sock, q, d.writeCallBack))

/-- The registrations of the relay (module doc); none is there twice. -/
structure FlowOk (p : Proc) : Prop where
  nodup : (p.poll.live.map Reg.key).Nodup
  live : ∀ q f d, p.fwds q = some f → Flows p q f d
  released : ∀ q k, p.fwds q = none → p.poll.Has k → k.2.1 = q → k.2.2.ofFwd = false

theorem readCallBack_inj {d d' : Side} (h : d.readCallBack = d'.readCallBack) : d = d' := by
  cases d <;> cases d' <;> first | rfl | cases h

theorem writeCallBack_inj {d d' : Side} (h : d.writeCallBack = d'.writeCallBack) : d = d' := by
  cases d <;> cases d' <;> first | rfl | cases h

theorem read_eq_wantKey {fd : Int} : (∃ c, (fd, q, d.readCallBack) = wantKey q f c) ↔
    fd = (f d).sock ∧ (f d).buf = [] := by
  unfold wantKey
  refine ⟨?_, ?_⟩
  · intro ⟨c, hc⟩
    split at hc
    · simp only [Prod.mk.injEq] at hc
      obtain rfl := readCallBack_inj hc.2.2
      exact ⟨hc.1, ‹_›⟩
    · simp only [Prod.mk.injEq] at hc
      exact absurd hc.2.2 (readCallBack_ne_writeCallBack d c)
  · intro ⟨hfd, hbuf⟩
    exact ⟨d, by rw [if_pos hbuf, hfd]⟩

theorem write_eq_wantKey {fd : Int} : (∃ c, (fd, q, d.writeCallBack) = wantKey q f c) ↔
    fd = (f d.other).sock ∧ (f d).buf ≠ [] := by
  unfold wantKey
  refine ⟨?_, ?_⟩
  · intro ⟨c, hc⟩
    split at hc
    · simp only [Prod.mk.injEq] at hc
      exact absurd hc.2.2.symm (readCallBack_ne_writeCallBack c d)
    · simp only [Prod.mk.injEq] at hc
      obtain rfl := writeCallBack_inj hc.2.2
      exact ⟨hc.1, ‹_›⟩
  · intro ⟨hfd, hbuf⟩
    exact ⟨d, by rw [if_neg hbuf, hfd]⟩

theorem ProcInv.has_fwd (hi : ProcInv e p) (hf : p.fwds q = some f) {fd : Int} {callBack : CallBack}
    (hcb : callBack.ofFwd = true) :
    p.poll.Has (fd, q, callBack) ↔ ∃ c, (fd, q, callBack) = wantKey q f c := by
  rw [hi.has]
  refine ⟨?_, ?_⟩
  · intro hw
    cases hw with
    | inl hw =>
      have hno := e.ofFwd_false _ hw
      rw [hcb] at hno
      cases hno
    | inr hw =>
      obtain ⟨q', f', c, hf', hk⟩ := hw
      obtain rfl : q = q' := by simpa using congrArg (fun k : Key => k.2.1) hk
      obtain rfl := Option.some.inj (hf.symm.trans hf')
      exact ⟨c, hk⟩
  · intro ⟨c, hk⟩
    exact .inr ⟨q, f, c, hf, hk⟩

theorem ProcInv.flowOk (hi : ProcInv e p) : FlowOk p where
  nodup := by
    obtain ⟨R, hR⟩ := hi.poll
    rw [hR.live]
    exact R.nodup
  live := by
    intro q f d hf
    have hok := hi.halves q f d hf
    have hread : ∀ fd, p.poll.Has (fd, q, d.readCallBack) ↔ fd = (f d).sock ∧ (f d).buf = [] :=
      fun fd => (hi.has_fwd hf (by cases d <;> rfl)).trans read_eq_wantKey
    have hwrite : ∀ fd, p.poll.Has (fd, q, d.writeCallBack) ↔
        fd = (f d.other).sock ∧ (f d).buf ≠ [] :=
      fun fd => (hi.has_fwd hf (by cases d <;> rfl)).trans write_eq_wantKey
    refine ⟨fun fd => (hread fd).trans ?_, fun fd => (hwrite fd).trans ?_, ?_⟩
    · exact and_congr_right fun _ => ⟨fun hb => ⟨hb, hok.bufpos_eq hb⟩, And.left⟩
    · refine and_congr_right fun _ => ⟨fun hb => ⟨hok.bufpos_lt hb, hok.length_le⟩, fun hb hnil => ?_⟩
      rw [hnil] at hb
      exact absurd hb.1 (Nat.not_lt_zero _)
    · by_cases hbuf : (f d).buf = []
      · exact .inl ⟨(hread _).2 ⟨rfl, hbuf⟩, fun hw => ((hwrite _).1 hw).2 hbuf⟩
      · exact .inr ⟨(hwrite _).2 ⟨rfl, hbuf⟩, fun hr => hbuf ((hread _).1 hr).2⟩
  released := by
    intro q k hf hk hq
    cases (hi.has k).1 hk with
    | inl hw => exact e.ofFwd_false k hw
    | inr hw => exact absurd hw (not_fwdWants_ptr hf hq)

/-- Whatever is read next, all that was read before has been sent. -/
theorem Flows.rest_nil (h : Flows p q f d) (hr : p.registered q d.readCallBack = true) :
    (f d).rest = [] := by
  obtain ⟨fd, hk⟩ := registered_iff.1 hr
  rw [Half.rest, ((h.read fd).1 hk).2.1, List.drop_nil]

/-! ## What leaves a `struct fwd` alone -/

/-- The `struct fwd` at `q` is `f` in `p'`, and its sockets and cipher states are as they were in `p`. -/
structure Intact (q : Ptr) (f : Fwd) (p p' : Proc) : Prop where
  fwds : p'.fwds q = some f
  opened : ∀ d, p'.opened (f d).sock = true
  live : ∀ d, (p'.rc4 (f d).rc4).isSome = true
  rcvd : ∀ d, p'.rcvd (f d).sock = p.rcvd (f d).sock
  sent : ∀ d, p'.sent (f d).sock = p.sent (f d).sock
  rc4 : ∀ d, p'.rc4 (f d).rc4 = p.rc4 (f d).rc4

theorem Held.intact (hi : Held e p) (hf : p.fwds q = some f) : Intact q f p p where
  fwds := hf
  opened := fun d => hi.fds.live_of (a := Sum.inr (q, d)) (by simp [fwdFd, hf])
  live := fun d => hi.rc4s.live_of (a := Sum.inr (q, d)) (by simp [fwdRc4, hf])
  rcvd := fun _ => rfl
  sent := fun _ => rfl
  rc4 := fun _ => rfl

namespace Intact

/-- The poll table is nothing to it. -/
theorem setPoll (h : Intact q f p₀ p) (poll : PollTable Ptr CallBack) :
    Intact q f p₀ { p with poll := poll } := ⟨h.fwds, h.opened, h.live, h.rcvd, h.sent, h.rc4⟩

theorem newSock (h : Intact q f p₀ p) {r : Option Int} {fd : Int}
    (hr : p.newSock r = some (fd, p')) : Intact q f p₀ p' ∧ ∀ d, fd ≠ (f d).sock := by
  obtain ⟨-, -, hfresh, rfl⟩ := Proc.newSock_eq_some hr
  have hne : ∀ d, (f d).sock ≠ fd := by
    intro d hd
    have hopen := h.opened d
    rw [hd, hfresh] at hopen
    cases hopen
  exact ⟨⟨h.fwds, fun d => (update_of_ne (hne d) ..).trans (h.opened d), h.live,
    fun d => (update_of_ne (hne d) ..).trans (h.rcvd d),
    fun d => (update_of_ne (hne d) ..).trans (h.sent d), h.rc4⟩, fun d => (hne d).symm⟩

theorem close (h : Intact q f p₀ p) {fd : Int} (hfd : ∀ d, fd ≠ (f d).sock)
    (hr : p.close fd = .ok p') : Intact q f p₀ p' := by
  rcases Proc.close_eq_ok hr with ⟨-, rfl⟩ | rfl
  · exact h
  · exact ⟨h.fwds, fun d => (update_of_ne (hfd d).symm ..).trans (h.opened d), h.live, h.rcvd, h.sent,
      h.rc4⟩

/-- Another cipher state changes, or its own is found again. -/
theorem setRc4 (h : Intact q f p₀ p) {x : Ptr} (hx : ∀ d, x ≠ (f d).rc4) (st : Option Rc4State) :
    Intact q f p₀ { p with rc4 := update p.rc4 x st } := by
  have hrc4 : ∀ d, update p.rc4 x st (f d).rc4 = p.rc4 (f d).rc4 := fun d => update_of_ne (hx d).symm ..
  exact ⟨h.fwds, h.opened, fun d => (congrArg Option.isSome (hrc4 d)).trans (h.live d), h.rcvd, h.sent,
    fun d => (hrc4 d).trans (h.rc4 d)⟩

theorem newRc4 (h : Intact q f p₀ p) {x : Ptr} {key : List UInt8} (hr : p.newRc4 x key = .ok p') :
    Intact q f p₀ p' ∧ ∀ d, x ≠ (f d).rc4 := by
  obtain ⟨-, hnone, rfl⟩ := Proc.newRc4_eq_ok hr
  have hne : ∀ d, x ≠ (f d).rc4 := by
    intro d hd
    have hlive := h.live d
    rw [← hd, hnone] at hlive
    cases hlive
  exact ⟨h.setRc4 hne _, hne⟩

theorem freeRc4 (h : Intact q f p₀ p) {x : Ptr} (hx : ∀ d, x ≠ (f d).rc4)
    (hr : p.freeRc4 x = .ok p') : Intact q f p₀ p' := by
  obtain rfl := Proc.freeRc4_eq_ok hr
  exact h.setRc4 hx none

theorem freeRc4If (h : Intact q f p₀ p) {x : Ptr} (hx : ∀ d, x ≠ (f d).rc4)
    (hr : Relay.freeRc4If p x = .ok p') : Intact q f p₀ p' := by
  unfold Relay.freeRc4If at hr
  split at hr
  · exact h.freeRc4 hx hr
  · cases hr
    exact h

theorem receive (h : Intact q f p₀ p) {fd : Int} (hfd : ∀ d, fd ≠ (f d).sock) (data : List UInt8) :
    Intact q f p₀ (p.receive fd data) :=
  ⟨h.fwds, h.opened, h.live, fun d => (update_of_ne (hfd d).symm ..).trans (h.rcvd d), h.sent, h.rc4⟩

theorem send (h : Intact q f p₀ p) {fd : Int} (hfd : ∀ d, fd ≠ (f d).sock) (data : List UInt8) :
    Intact q f p₀ (p.send fd data) :=
  ⟨h.fwds, h.opened, h.live, h.rcvd, fun d => (update_of_ne (hfd d).symm ..).trans (h.sent d), h.rc4⟩

theorem crypt (h : Intact q f p₀ p) {x : Ptr} (hx : ∀ d, x ≠ (f d).rc4) {data data' : List UInt8}
    (hr : p.crypt x data = .ok (data', p')) : Intact q f p₀ p' := by
  obtain ⟨st, -, -, rfl⟩ := Proc.crypt_eq_ok hr
  exact h.setRc4 hx _

theorem doForward (h : Intact q f p₀ p) {x : Ptr} {tsock psock : Int} {enc dec : Ptr}
    (hr : Relay.doForward p x tsock psock enc dec = .ok p') : Intact q f p₀ p' := by
  obtain ⟨-, hfresh, hp'⟩ := doForward_eq_ok hr
  have hne : q ≠ x := by
    intro hq
    rw [← hq, h.fwds] at hfresh
    cases hfresh
  rw [hp']
  exact ⟨(update_of_ne hne ..).trans h.fwds, h.opened, h.live, h.rcvd, h.sent, h.rc4⟩

end Intact

/-! ## What passes -/

/-- On the way from `p` to `p'`, each direction deciphered and sent what it received, in order, but for
what its buffer holds. -/
structure Passed (f f' : Fwd) (p p' : Proc) : Prop where
  sock : ∀ d, (f' d).sock = (f d).sock
  rc4 : ∀ d, (f' d).rc4 = (f d).rc4
  stream : ∀ d, ∃ st bytes taken, p.rc4 (f d).rc4 = some st ∧
    p'.rc4 (f d).rc4 = some (rc4Advance bytes.length st) ∧
    p'.rcvd (f d).sock = p.rcvd (f d).sock ++ bytes ∧
    p'.sent (f d.other).sock = p.sent (f d.other).sock ++ taken ∧
    taken ++ (f' d).rest = (f d).rest ++ (rc4Crypt st bytes).1

theorem Intact.passed (h : Intact q f p p') : Passed f f p p' where
  sock := fun _ => rfl
  rc4 := fun _ => rfl
  stream := by
    intro d
    obtain ⟨st, hst⟩ := Option.isSome_iff_exists.1 (h.live d)
    refine ⟨st, [], [], (h.rc4 d).symm.trans hst, hst, ?_, ?_, (List.append_nil _).symm⟩
    · rw [h.rcvd, List.append_nil]
    · rw [h.sent, List.append_nil]

theorem Passed.trans (h : Passed f f' p p') (h' : Passed f' f'' p' p'') : Passed f f'' p p'' where
  sock := fun d => (h'.sock d).trans (h.sock d)
  rc4 := fun d => (h'.rc4 d).trans (h.rc4 d)
  stream := by
    intro d
    obtain ⟨st, bytes, taken, hst, hrc4, hrcvd, hsent, hpass⟩ := h.stream d
    obtain ⟨st', bytes', taken', hst', hrc4', hrcvd', hsent', hpass'⟩ := h'.stream d
    rw [h.rc4, hrc4] at hst'
    obtain rfl := Option.some.inj hst'
    rw [h.sock, hrcvd] at hrcvd'
    rw [h.sock, hsent] at hsent'
    refine ⟨st, bytes ++ bytes', taken ++ taken', hst, ?_, ?_, ?_, ?_⟩
    · rw [← h.rc4, hrc4', List.length_append, rc4Advance_add]
    · rw [hrcvd', List.append_assoc]
    · rw [hsent', List.append_assoc]
    · calc taken ++ taken' ++ (f'' d).rest
          = taken ++ (f' d).rest ++ (rc4Crypt (rc4Advance bytes.length st) bytes').1 := by
            rw [List.append_assoc, hpass', List.append_assoc]
        _ = (f d).rest ++ (rc4Crypt st (bytes ++ bytes')).1 := by
            rw [hpass, List.append_assoc, rc4Crypt_append]

theorem Held.sock_inj (hi : Held e p) (hf : p.fwds q = some f) {q' : Ptr} (hf' : p.fwds q' = some f')
    {d d' : Side} (h : (f d).sock = (f' d').sock) : (q, d) = (q', d') :=
  Sum.inr.inj (hi.fds.inj (.inr (q, d)) (.inr (q', d')) (f d).sock (by simp [fwdFd, hf])
    (by simp [fwdFd, hf', h]))

theorem Held.rc4_inj (hi : Held e p) (hf : p.fwds q = some f) {q' : Ptr} (hf' : p.fwds q' = some f')
    {d d' : Side} (h : (f d).rc4 = (f' d').rc4) : (q, d) = (q', d') :=
  Sum.inr.inj (hi.rc4s.inj (.inr (q, d)) (.inr (q', d')) (f d).rc4 (by simp [fwdRc4, hf])
    (by simp [fwdRc4, hf', h]))

/-- A callback leaves another `struct fwd` alone. -/
theorem Relayed.intact (hi : Held e p) (hf : p.fwds q = some f) {x : Ptr} {g : Fwd}
    (hg : p.fwds x = some g) (hx : q ≠ x) {bytes taken : List UInt8} {h : Half}
    (hr : Relayed d x g bytes taken h p p') : Intact q f p p' := by
  have hsock : ∀ c c', (f c).sock ≠ (g c').sock := fun c c' hc =>
    hx (Prod.mk.inj (hi.sock_inj hf hg hc)).1
  have hrc4 : ∀ c, p'.rc4 (f c).rc4 = p.rc4 (f c).rc4 := by
    intro c
    obtain ⟨st, -, hadv, -⟩ := hr.rc4
    rw [hadv]
    exact update_of_ne (fun hc => hx (Prod.mk.inj (hi.rc4_inj hf hg hc)).1) ..
  have h0 := hi.intact hf
  refine ⟨?_, fun c => ?_, fun c => ?_, fun c => ?_, fun c => ?_, hrc4⟩
  · rw [hr.fwds, update_of_ne hx, hf]
  · rw [hr.opened, h0.opened]
  · rw [hrc4, h0.live]
  · rw [hr.rcvd, update_of_ne (hsock c d)]
  · rw [hr.sent, update_of_ne (hsock c d.other)]

theorem Closed.intact (hi : Held e p) (hf : p.fwds q = some f) {x : Ptr} {g : Fwd}
    (hg : p.fwds x = some g) (hx : q ≠ x) (hc : Closed x g p p') : Intact q f p p' := by
  have hsock : ∀ c c', (f c).sock ≠ (g c').sock := fun c c' hc =>
    hx (Prod.mk.inj (hi.sock_inj hf hg hc)).1
  have hrc4 : ∀ c, p'.rc4 (f c).rc4 = p.rc4 (f c).rc4 := fun c =>
    hc.rc4 _ (fun hc => hx (Prod.mk.inj (hi.rc4_inj hf hg hc)).1) fun hc =>
      hx (Prod.mk.inj (hi.rc4_inj hf hg hc)).1
  have h0 := hi.intact hf
  refine ⟨?_, fun c => (hc.opened _).2 ⟨hsock c .p, hsock c .t, h0.opened c⟩, fun c => ?_,
    fun c => hc.rcvd _ (hsock c .t) (hsock c .p), fun c => by rw [hc.sent], hrc4⟩
  · rw [hc.fwds, update_of_ne hx, hf]
  · rw [hrc4, h0.live]

/-- A callback passes on what it reads and sends, and the other direction stays as it was. -/
theorem Relayed.passed (hi : Held e p) (hf : p.fwds q = some f) {bytes taken : List UInt8} {h : Half}
    (hr : Relayed d q f bytes taken h p p') : Passed f (update f d h) p p' := by
  obtain ⟨st, hst, hadv, hpass⟩ := hr.rc4
  refine ⟨fun c => ?_, fun c => ?_, fun c => ?_⟩
  · by_cases hc : c = d
    · rw [hc, update_self, hr.sock]
    · rw [update_of_ne hc]
  · by_cases hc : c = d
    · rw [hc, update_self, hr.ptr]
    · rw [update_of_ne hc]
  · by_cases hc : c = d
    · subst hc
      refine ⟨st, bytes, taken, hst, ?_, ?_, ?_, ?_⟩
      · rw [hadv, update_self]
      · rw [hr.rcvd, update_self]
      · rw [hr.sent, update_self]
      · rw [update_self, hpass]
    · obtain ⟨st', hst'⟩ := hi.rc4_some hf c
      have hother : c.other ≠ d.other := by
        cases c <;> cases d <;> first | exact absurd rfl hc | decide
      refine ⟨st', [], [], hst', ?_, ?_, ?_, ?_⟩
      · rw [hadv, update_of_ne fun h => hc (Prod.mk.inj (hi.rc4_inj hf hf h)).2, hst']
        rfl
      · rw [hr.rcvd, update_of_ne fun h => hc (Prod.mk.inj (hi.sock_inj hf hf h)).2, List.append_nil]
      · rw [hr.sent, update_of_ne fun h => hother (Prod.mk.inj (hi.sock_inj hf hf h)).2,
          List.append_nil]
      · rw [update_of_ne hc]
        exact (List.append_nil _).symm

/-- What became of a `struct fwd`: it was released, or passed on. -/
def Went (q : Ptr) (f : Fwd) (p p' : Proc) : Prop :=
  p'.fwds q = none ∨ ∃ f', p'.fwds q = some f' ∧ Passed f f' p p'

theorem Intact.went (h : Intact q f p p') : Went q f p p' := .inr ⟨f, h.fwds, h.passed⟩

/-- **A callback of the relay**, whosever it is. -/
theorem fwdStep_went [DecidableEq ι] (hi : ProcInv e p) (hf : p.fwds q = some f) {ev : FwdEvent}
    (hrun : p.fwdStep ev = .ok p') : Went q f p p' := by
  have hclosed : ∀ x g, p.fwds x = some g → Closed x g p p' → Went q f p p' := by
    intro x g hg hc
    by_cases hx : q = x
    · left
      rw [hc.fwds, hx, update_self]
    · exact (hc.intact hi.toHeld hf hg hx).went
  have hrelayed : ∀ x g d bytes taken h, p.fwds x = some g → Relayed d x g bytes taken h p p' →
      Went q f p p' := by
    intro x g d bytes taken h hg hr
    by_cases hx : q = x
    · subst hx
      obtain rfl := Option.some.inj (hg.symm.trans hf)
      exact .inr ⟨_, by rw [hr.fwds, update_self], hr.passed hi.toHeld hf⟩
    · exact (hr.intact hi.toHeld hf hg hx).went
  cases ev with
  | read d x recv send =>
    rw [Proc.fwdStep] at hrun
    split at hrun
    · obtain ⟨g, hg, hbuf⟩ := registered_read hi ‹_›
      obtain ⟨p₁, hp₁, -, hc | ⟨bytes, taken, h, hr, -⟩⟩ := readCallback_ok hi hg hbuf recv send
      · obtain rfl := Res.ok.inj (hp₁.symm.trans hrun)
        exact hclosed x g hg hc
      · obtain rfl := Res.ok.inj (hp₁.symm.trans hrun)
        exact hrelayed x g d bytes taken h hg hr
    · cases hrun
      exact (hi.toHeld.intact hf).went
  | write d x send =>
    rw [Proc.fwdStep] at hrun
    split at hrun
    · obtain ⟨g, hg, hbuf⟩ := registered_write hi ‹_›
      obtain ⟨p₁, hp₁, -, hc | ⟨taken, h, hr⟩⟩ := writeCallback_ok hi hg hbuf send
      · obtain rfl := Res.ok.inj (hp₁.symm.trans hrun)
        exact hclosed x g hg hc
      · obtain rfl := Res.ok.inj (hp₁.symm.trans hrun)
        exact hrelayed x g d [] taken h hg hr
    · cases hrun
      exact (hi.toHeld.intact hf).went

/-- A read with an empty buffer whose `send` takes everything. -/
theorem fwdStep_read_all {p : Proc} {fwd : Ptr} {f : Fwd} {d : Side} {k : Rc4State} {bytes : List UInt8}
    (hf : p.fwds fwd = some f) (hreg : p.registered fwd d.readCallBack = true)
    (hk : p.rc4 (f d).rc4 = some k) (hbuf : (f d).buf = []) (hne : bytes ≠ []) (hlen : bytes.length ≤ 512)
    {n : Nat} (hn : bytes.length ≤ n) :
    ∃ p', p.fwdStep (.read d fwd (some bytes) (.sent n)) = .ok p' ∧
      Relayed d fwd f bytes (rc4Crypt k bytes).1 { f d with buf := [], bufpos := 0 } p p' := by
  have hcrypt : (p.receive (f d).sock bytes).crypt (f d).rc4 bytes = .ok ((rc4Crypt k bytes).1,
      { p.receive (f d).sock bytes with rc4 := update p.rc4 (f d).rc4 (some (rc4Crypt k bytes).2) }) := by
    simp only [Proc.crypt, Proc.receive, hk, Res.deref, Res.ok_bind, Res.pure_eq]
  have htaken : (rc4Crypt k bytes).1.take n = (rc4Crypt k bytes).1 :=
    List.take_of_length_le (by rw [rc4Crypt_length]; exact hn)
  have hrest : (f d).rest = [] := by rw [Half.rest, hbuf, List.drop_nil]
  obtain ⟨b, bs, rfl⟩ := List.exists_cons_of_ne_nil hne
  rw [Proc.fwdStep, if_pos hreg]
  simp only [readCallback, hf, Res.deref, Res.ok_bind, Option.map_some, List.take_of_length_le hlen,
    hcrypt, htaken, lt_irrefl, if_false, Res.pure_eq]
  refine ⟨_, rfl, rfl, rfl, update_idem .., rfl, rfl, rfl, k, hk, ?_, ?_⟩
  · rw [← rc4Crypt_snd]
    rfl
  · rw [hrest]
    exact List.append_nil _

end Relay
