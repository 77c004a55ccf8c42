import GoipRemote.Lib.Ownership
import GoipRemote.Lib.Res
import GoipRemote.Relay.Fwd

/-!
# The invariant of the relay

`ProcInv e p`: the descriptors and cipher states of `p` have exactly one owner each, among the live
`struct fwd`s and the objects of the program itself (`e`); what is registered in the poll table is
what these want (`FwdWants`: a side wants its read callback when its buffer is empty, else the write
callback of the buffer); and the buffers are in bounds.

The four callbacks and `fwdRelease` keep it, without a fault. `doForward` takes two sockets and two
cipher states over from the program.
-/

namespace Relay

open Utils Function Ownership

/-- What `find_registered_sock` compares. -/
abbrev Key := Int × Ptr × CallBack

/-- A callback of a `struct fwd`. -/
def CallBack.ofFwd : CallBack → Bool
  | .tsockRead | .tsockWrite | .psockRead | .psockWrite => true
  | _ => false

/-- What the objects of the program itself own and want registered. -/
structure Ext (ι : Type) where
  fd : ι → Option Int
  rc4 : ι → Option Ptr
  wants : Key → Prop
  ofFwd_false : ∀ k, wants k → k.2.2.ofFwd = false

namespace Ext

variable {ι : Type} (e : Ext ι)

/-- Another key is wanted. -/
def want (k : Key) (hk : k.2.2.ofFwd = false) : Ext ι where
  fd := e.fd
  rc4 := e.rc4
  wants k' := k' = k ∨ e.wants k'
  ofFwd_false k' h := by
    rcases h with rfl | h
    · exact hk
    · exact e.ofFwd_false k' h

/-- A key is not wanted any more. -/
def unwant (k : Key) : Ext ι where
  fd := e.fd
  rc4 := e.rc4
  wants k' := k' ≠ k ∧ e.wants k'
  ofFwd_false k' h := e.ofFwd_false k' h.2

variable [DecidableEq ι]

/-- What a slot owns changes. -/
def setFd (a : ι) (fd : Option Int) : Ext ι := { e with fd := update e.fd a fd }

@[inherit_doc setFd]
def setRc4 (a : ι) (rc4 : Option Ptr) : Ext ι := { e with rc4 := update e.rc4 a rc4 }

variable {e}

omit [DecidableEq ι] in
@[simp] theorem want_fd {k : Key} {hk : k.2.2.ofFwd = false} : (e.want k hk).fd = e.fd := rfl

omit [DecidableEq ι] in
@[simp] theorem want_rc4 {k : Key} {hk : k.2.2.ofFwd = false} : (e.want k hk).rc4 = e.rc4 := rfl

omit [DecidableEq ι] in
@[simp] theorem want_wants {k k' : Key} {hk : k.2.2.ofFwd = false} :
    (e.want k hk).wants k' ↔ k' = k ∨ e.wants k' := Iff.rfl

omit [DecidableEq ι] in
@[simp] theorem unwant_fd {k : Key} : (e.unwant k).fd = e.fd := rfl

omit [DecidableEq ι] in
@[simp] theorem unwant_rc4 {k : Key} : (e.unwant k).rc4 = e.rc4 := rfl

omit [DecidableEq ι] in
@[simp] theorem unwant_wants {k k' : Key} : (e.unwant k).wants k' ↔ k' ≠ k ∧ e.wants k' := Iff.rfl

variable {a : ι} {fd : Option Int} {rc4 : Option Ptr}

@[simp] theorem setFd_fd : (e.setFd a fd).fd = update e.fd a fd := rfl
@[simp] theorem setFd_rc4 : (e.setFd a fd).rc4 = e.rc4 := rfl
@[simp] theorem setFd_wants {k : Key} : (e.setFd a fd).wants k ↔ e.wants k := Iff.rfl
@[simp] theorem setRc4_fd : (e.setRc4 a rc4).fd = e.fd := rfl
@[simp] theorem setRc4_rc4 : (e.setRc4 a rc4).rc4 = update e.rc4 a rc4 := rfl
@[simp] theorem setRc4_wants {k : Key} : (e.setRc4 a rc4).wants k ↔ e.wants k := Iff.rfl

end Ext

/-- The sockets of the `struct fwd`s. -/
def fwdFd (fwds : Ptr → Option Fwd) (a : Ptr × Side) : Option Int :=
  (fwds a.1).map fun f => (f a.2).sock

/-- The cipher states of the `struct fwd`s. -/
def fwdRc4 (fwds : Ptr → Option Fwd) (a : Ptr × Side) : Option Ptr :=
  (fwds a.1).map fun f => (f a.2).rc4

/-- What a side wants registered. -/
def wantKey (q : Ptr) (f : Fwd) (d : Side) : Key :=
  if (f d).buf = [] then ((f d).sock, q, d.readCallBack) else ((f d.other).sock, q, d.writeCallBack)

/-- What the `struct fwd`s want registered. -/
def FwdWants (fwds : Ptr → Option Fwd) (k : Key) : Prop :=
  ∃ q f d, fwds q = some f ∧ k = wantKey q f d

/-- The buffer of a side is in bounds, and empty or with something left to send. -/
structure Half.Ok (h : Half) : Prop where
  length_le : h.buf.length ≤ 512
  bufpos_eq : h.buf = [] → h.bufpos = 0
  bufpos_lt : h.buf ≠ [] → h.bufpos < h.buf.length

section
variable {ι : Type}

/-- Every descriptor and cipher state has exactly one owner. -/
structure Held (e : Ext ι) (p : Proc) : Prop where
  poll : p.poll.Ok
  fds : Owned (Sum.elim e.fd (fwdFd p.fwds)) fun fd => p.opened fd = true
  fd_nonneg : ∀ fd, p.opened fd = true → 0 ≤ fd
  rc4s : Owned (Sum.elim e.rc4 (fwdRc4 p.fwds)) fun q => (p.rc4 q).isSome = true
  rc4_zero : p.rc4 0 = none

/-- The invariant (module doc). -/
structure ProcInv (e : Ext ι) (p : Proc) : Prop extends Held e p where
  has : ∀ k, p.poll.Has k ↔ e.wants k ∨ FwdWants p.fwds k
  halves : ∀ q f d, p.fwds q = some f → (f d).Ok

/-! ## Keys -/

/-- The keys that `fwd_release` unregisters. -/
def fwdKeys (q : Ptr) (f : Fwd) : List Key :=
  [((f .t).sock, q, .tsockRead), ((f .t).sock, q, .tsockWrite), ((f .p).sock, q, .psockRead),
    ((f .p).sock, q, .psockWrite)]

theorem wantKey_mem_fwdKeys (q : Ptr) (f : Fwd) (d : Side) : wantKey q f d ∈ fwdKeys q f := by
  unfold wantKey
  cases d <;> split <;> simp [fwdKeys, Side.readCallBack, Side.writeCallBack, Side.other]

@[simp] theorem wantKey_ptr (q : Ptr) (f : Fwd) (d : Side) : (wantKey q f d).2.1 = q := by
  unfold wantKey
  split <;> rfl

theorem ofFwd_of_mem_fwdKeys {q : Ptr} {f : Fwd} {k : Key} (h : k ∈ fwdKeys q f) :
    k.2.2.ofFwd = true ∧ k.2.1 = q := by
  simp only [fwdKeys, List.mem_cons, List.not_mem_nil, or_false] at h
  rcases h with rfl | rfl | rfl | rfl <;> exact ⟨rfl, rfl⟩

/-- The side a callback belongs to. -/
def CallBack.side : CallBack → Option Side
  | .tsockRead | .psockWrite => some .t
  | .psockRead | .tsockWrite => some .p
  | _ => none

theorem wantKey_side (q : Ptr) (f : Fwd) (d : Side) :
    (wantKey q f d).2.2.side = some d ∧ (wantKey q f d).2.2.ofFwd = true := by
  unfold wantKey
  cases d <;> split <;> exact ⟨rfl, rfl⟩

theorem not_fwdWants_ptr {fwds : Ptr → Option Fwd} {q : Ptr} {k : Key} (hf : fwds q = none)
    (hk : k.2.1 = q) : ¬ FwdWants fwds k := by
  rintro ⟨q', f', d, hf', rfl⟩
  rw [wantKey_ptr] at hk
  rw [hk, hf] at hf'
  cases hf'

/-! ## Release -/

variable {e : Ext ι} {p : Proc} {q : Ptr} {f : Fwd}

/-- A release leaves the rest of the process alone. -/
structure Released (q : Ptr) (f : Fwd) (p p' : Proc) : Prop where
  fwds : p'.fwds = update p.fwds q none
  opened : ∀ fd, p'.opened fd = true ↔ (fd ≠ (f .p).sock ∧ fd ≠ (f .t).sock ∧ p.opened fd = true)
  rcvd : p'.rcvd = p.rcvd
  sent : p'.sent = p.sent
  rc4 : ∀ x, x ≠ (f .t).rc4 → x ≠ (f .p).rc4 → p'.rc4 x = p.rc4 x

theorem proc_register (h : p.poll.Ok) {sock : Int} (hsock : sock ≠ -1) (events : BitVec 32)
    (inst : Ptr) (callBack : CallBack) : (p.register sock events inst callBack).poll.Ok ∧
      ∀ k, (p.register sock events inst callBack).poll.Has k ↔
        k = (sock, inst, callBack) ∨ p.poll.Has k :=
  has_register h hsock events inst callBack

theorem proc_unregister (h : p.poll.Ok) (sock : Int) (inst : Ptr) (callBack : CallBack) :
    (p.unregister sock inst callBack).poll.Ok ∧
      ∀ k, (p.unregister sock inst callBack).poll.Has k ↔
        k ≠ (sock, inst, callBack) ∧ p.poll.Has k :=
  has_unregister h sock inst callBack

theorem unregister_four (h : p.poll.Ok) (q : Ptr) (f : Fwd) :
    ∃ poll, (((p.unregister (f .t).sock q .tsockRead).unregister (f .t).sock q .tsockWrite).unregister
        (f .p).sock q .psockRead).unregister (f .p).sock q .psockWrite = { p with poll := poll } ∧
      poll.Ok ∧ ∀ k, poll.Has k ↔ k ∉ fwdKeys q f ∧ p.poll.Has k := by
  obtain ⟨h1, hk1⟩ := proc_unregister h (f .t).sock q .tsockRead
  obtain ⟨h2, hk2⟩ := proc_unregister h1 (f .t).sock q .tsockWrite
  obtain ⟨h3, hk3⟩ := proc_unregister h2 (f .p).sock q .psockRead
  obtain ⟨h4, hk4⟩ := proc_unregister h3 (f .p).sock q .psockWrite
  refine ⟨_, rfl, h4, fun k => (hk4 k).trans ?_⟩
  rw [hk3, hk2, hk1]
  simp only [fwdKeys, List.mem_cons, List.not_mem_nil, or_false, not_or]
  tauto

theorem close_ok {fd : Int} (hpos : 0 ≤ fd) (h : p.opened fd = true) :
    p.close fd = .ok { p with opened := update p.opened fd false } := by
  rw [Proc.close, if_neg (by omega), if_pos h]

theorem freeRc4If_ok {x : Ptr} (hx : x ≠ 0) (h : (p.rc4 x).isSome = true) :
    freeRc4If p x = .ok { p with rc4 := update p.rc4 x none } := by
  rw [freeRc4If, if_pos hx, Proc.freeRc4, if_pos h]

theorem update_isSome {x y : Ptr} {rc4 : Ptr → Option Rc4State} :
    (update rc4 x none y).isSome = true ↔ y ≠ x ∧ (rc4 y).isSome = true := by
  by_cases h : y = x <;> simp [h]

theorem update_opened {x y : Int} {opened : Int → Bool} :
    update opened x false y = true ↔ y ≠ x ∧ opened y = true := by
  by_cases h : y = x <;> simp [h]

variable [DecidableEq ι]

/-- Two slots of a `struct fwd` are given up. -/
theorem release_two {α : Type} {own : ι → Option α} {own₂ : Ptr × Side → Option α} {live : α → Prop}
    {x y : α} (h : Owned (Sum.elim own own₂) live) (ht : own₂ (q, .t) = some x)
    (hp : own₂ (q, .p) = some y) :
    live x ∧ (y ≠ x ∧ live y) ∧
      Owned (Sum.elim own fun a => if a.1 = q then none else own₂ a)
        fun z => z ≠ y ∧ z ≠ x ∧ live z := by
  have ht1 : Sum.elim own own₂ (Sum.inr (q, Side.t)) = some x := ht
  have h1 := h.release ht1
  have hp1 : update (Sum.elim own own₂) (Sum.inr (q, .t)) none (Sum.inr (q, Side.p)) = some y := by
    rw [update_of_ne (by simp)]
    exact hp
  have h2 := h1.release hp1
  refine ⟨h.live_of ht1, h1.live_of hp1, h2.congr (fun a => ?_) fun _ => Iff.rfl⟩
  -- the simp set moves updates in and out of `Sum.elim`
  rw [Sum.update_elim_inr, Sum.update_elim_inr]
  cases a with
  | inl a => rfl
  | inr a =>
    obtain ⟨q', d⟩ := a
    rw [Sum.elim_inr, Sum.elim_inr]
    by_cases hq : q' = q
    · subst hq
      cases d <;> simp
    · simp [hq]

theorem fwdRelease_ok (h : Held e p) (hf : p.fwds q = some f)
    (hhas : ∀ k, k ∉ fwdKeys q f → (p.poll.Has k ↔ e.wants k ∨ FwdWants (update p.fwds q none) k))
    (hhalves : ∀ q' f d, q' ≠ q → p.fwds q' = some f → (f d).Ok) :
    ∃ p', fwdRelease p q = .ok p' ∧ ProcInv e p' ∧ Released q f p p' := by
  obtain ⟨poll, hpoll, hok, hkeys⟩ := unregister_four h.poll q f
  obtain ⟨ht, ⟨hpt, hp⟩, hrc4s⟩ := release_two (q := q) (x := (f .t).rc4) (y := (f .p).rc4) h.rc4s
    (by simp [fwdRc4, hf]) (by simp [fwdRc4, hf])
  obtain ⟨hto, ⟨hpto, hpo⟩, hfds⟩ := release_two (q := q) (x := (f .t).sock) (y := (f .p).sock) h.fds
    (by simp [fwdFd, hf]) (by simp [fwdFd, hf])
  have hne : ∀ {x}, (p.rc4 x).isSome = true → x ≠ 0 := by
    rintro x hx rfl
    rw [h.rc4_zero] at hx
    cases hx
  let p' : Proc :=
    { opened := update (update p.opened (f .t).sock false) (f .p).sock false
      rcvd := p.rcvd
      sent := p.sent
      rc4 := update (update p.rc4 (f .t).rc4 none) (f .p).rc4 none
      fwds := update p.fwds q none
      poll := poll }
  have hrun : fwdRelease p q = .ok p' := by
    have h1 := freeRc4If_ok (p := { p with poll := poll }) (hne ht) ht
    have h2 := freeRc4If_ok (p := { p with poll := poll, rc4 := update p.rc4 (f .t).rc4 none })
      (hne hp) (update_isSome.2 ⟨hpt, hp⟩)
    have h3 := close_ok (p := { p with poll := poll, rc4 := p'.rc4 }) (h.fd_nonneg _ hto) hto
    have h4 := close_ok (p := { p with
        poll := poll, rc4 := p'.rc4, opened := update p.opened (f .t).sock false })
      (h.fd_nonneg (f .p).sock hpo) (update_opened.2 ⟨hpto, hpo⟩)
    simp only [fwdRelease, Res.deref_of_some hf, Res.ok_bind, hpoll, h1, h2]
    simp only [p'] at h3 h4 ⊢
    simp only [h3, h4, Res.ok_bind, Res.pure_eq]
  have hfwd : ∀ a : Ptr × Side, update p.fwds q none a.1 = if a.1 = q then none else p.fwds a.1 := by
    intro a
    by_cases hq : a.1 = q <;> simp [hq]
  refine ⟨p', hrun, ⟨⟨hok, ?_, ?_, ?_, ?_⟩, fun k => ?_, fun q' f' d hf' => ?_⟩, rfl, fun fd => ?_, rfl,
    rfl, fun x hxt hxp => ?_⟩
  · refine hfds.congr (fun a => ?_) fun fd => ?_
    · cases a with
      | inl a => rfl
      | inr a =>
        simp only [Sum.elim_inr, fwdFd, p', hfwd]
        split <;> simp
    · rw [update_opened, update_opened]
  · intro fd hfd
    exact h.fd_nonneg fd (update_opened.1 (update_opened.1 hfd).2).2
  · refine hrc4s.congr (fun a => ?_) fun x => ?_
    · cases a with
      | inl a => rfl
      | inr a =>
        simp only [Sum.elim_inr, fwdRc4, p', hfwd]
        split <;> simp
    · rw [update_isSome, update_isSome]
  · show update (update p.rc4 _ none) _ none 0 = none
    rw [update_of_ne (hne hp).symm, update_of_ne (hne ht).symm]
    exact h.rc4_zero
  · rw [hkeys]
    by_cases hk : k ∈ fwdKeys q f
    · obtain ⟨hcb, hptr⟩ := ofFwd_of_mem_fwdKeys hk
      refine ⟨?_, ?_⟩
      · intro hh
        exact absurd hk hh.1
      · rintro (hw | hw)
        · rw [e.ofFwd_false k hw] at hcb
          cases hcb
        · exact absurd hw (not_fwdWants_ptr (update_self ..) hptr)
    · rw [← hhas k hk]
      exact ⟨fun hh => hh.2, fun hh => ⟨hk, hh⟩⟩
  · have hq : q' ≠ q := by
      rintro rfl
      rw [show p'.fwds q' = none from update_self ..] at hf'
      cases hf'
    exact hhalves q' f' d hq ((update_of_ne hq _ _).symm.trans hf')
  · rw [update_opened, update_opened]
  · show update (update p.rc4 _ none) _ none x = _
    rw [update_of_ne hxp, update_of_ne hxt]

/-! ## The callbacks -/

/-- What the buffer still has to send. -/
def Half.rest (h : Half) : List UInt8 := h.buf.drop h.bufpos

/-- A callback of side `d` that read `bytes` and sent `taken`. -/
structure Relayed (d : Side) (q : Ptr) (f : Fwd) (bytes taken : List UInt8) (h : Half) (p p' : Proc) :
    Prop where
  sock : h.sock = (f d).sock
  ptr : h.rc4 = (f d).rc4
  fwds : p'.fwds = update p.fwds q (some (update f d h))
  opened : p'.opened = p.opened
  rcvd : p'.rcvd = update p.rcvd (f d).sock (p.rcvd (f d).sock ++ bytes)
  sent : p'.sent = update p.sent (f d.other).sock (p.sent (f d.other).sock ++ taken)
  rc4 : ∃ s, p.rc4 (f d).rc4 = some s ∧
    p'.rc4 = update p.rc4 (f d).rc4 (some (rc4Advance bytes.length s)) ∧
    taken ++ h.rest = (f d).rest ++ (rc4Crypt s bytes).1

/-- A callback that released the `struct fwd`; it may have received bytes first. -/
structure Closed (q : Ptr) (f : Fwd) (p p' : Proc) : Prop where
  fwds : p'.fwds = update p.fwds q none
  opened : ∀ fd, p'.opened fd = true ↔ (fd ≠ (f .p).sock ∧ fd ≠ (f .t).sock ∧ p.opened fd = true)
  rcvd : ∀ fd, fd ≠ (f .t).sock → fd ≠ (f .p).sock → p'.rcvd fd = p.rcvd fd
  sent : p'.sent = p.sent
  rc4 : ∀ x, x ≠ (f .t).rc4 → x ≠ (f .p).rc4 → p'.rc4 x = p.rc4 x

omit [DecidableEq ι] in
theorem side_unique {q q' : Ptr} {f f' : Fwd} {d d' : Side} (h : wantKey q f d = wantKey q' f' d') :
    q = q' ∧ d = d' := by
  have h1 := congrArg (fun k : Key => k.2.1) h
  have h2 := congrArg (fun k : Key => k.2.2.side) h
  simp only [wantKey_ptr, (wantKey_side _ _ _).1, Option.some.injEq] at h1 h2
  exact ⟨h1, h2⟩

omit [DecidableEq ι] in
/-- One side's registration is replaced. -/
theorem has_swap {poll : PollTable Ptr CallBack} {fwds : Ptr → Option Fwd} {d : Side} {h : Half}
    (hhas : ∀ k, p.poll.Has k ↔ e.wants k ∨ FwdWants fwds k) (hf : fwds q = some f)
    (hsock : h.sock = (f d).sock)
    (hswap : ∀ k, poll.Has k ↔ k = wantKey q (update f d h) d ∨ k ≠ wantKey q f d ∧ p.poll.Has k)
    (k : Key) : poll.Has k ↔ e.wants k ∨ FwdWants (update fwds q (some (update f d h))) k := by
  -- the other side wants what it wanted
  have hother : ∀ d', d' ≠ d → wantKey q (update f d h) d' = wantKey q f d' := by
    intro d' hd'
    have hs : ∀ c, (update f d h c).sock = (f c).sock := by
      intro c
      by_cases hc : c = d
      · subst hc
        rw [update_self, hsock]
      · rw [update_of_ne hc]
    unfold wantKey
    rw [hs, hs, update_of_ne hd']
  have hwants : FwdWants (update fwds q (some (update f d h))) k ↔
      k = wantKey q (update f d h) d ∨ k ≠ wantKey q f d ∧ FwdWants fwds k := by
    refine ⟨?_, ?_⟩
    · rintro ⟨q', f', d', hf', rfl⟩
      by_cases hq : q' = q
      · subst hq
        rw [update_self] at hf'
        cases hf'
        by_cases hd : d' = d
        · exact .inl (by rw [hd])
        · rw [hother d' hd]
          refine .inr ⟨fun hk => hd (side_unique hk).2, q', f, d', hf, rfl⟩
      · rw [update_of_ne hq] at hf'
        exact .inr ⟨fun hk => hq (side_unique hk).1, q', f', d', hf', rfl⟩
    · rintro (rfl | ⟨hne, q', f', d', hf', rfl⟩)
      · exact ⟨q, _, d, update_self .., rfl⟩
      · by_cases hq : q' = q
        · subst hq
          rw [hf] at hf'
          cases hf'
          have hd : d' ≠ d := by
            rintro rfl
            exact hne rfl
          exact ⟨q', _, d', update_self .., (hother d' hd).symm⟩
        · exact ⟨q', f', d', by rw [update_of_ne hq]; exact hf', rfl⟩
  rw [hswap, hhas, hwants]
  refine ⟨?_, ?_⟩
  · rintro (hk | ⟨hne, hw | hw⟩)
    · exact .inr (.inl hk)
    · exact .inl hw
    · exact .inr (.inr ⟨hne, hw⟩)
  · rintro (hw | hk | ⟨hne, hw⟩)
    · refine .inr ⟨?_, .inl hw⟩
      rintro rfl
      have := e.ofFwd_false _ hw
      rw [(wantKey_side q f d).2] at this
      cases this
    · exact .inl hk
    · exact .inr ⟨hne, .inr hw⟩

section
variable {p' : Proc} {d : Side} {h : Half}

omit [DecidableEq ι] in
/-- A side's half changes, its socket and its cipher state's place excepted. -/
theorem Held.setHalf (hi : Held e p) (hf : p.fwds q = some f) (hsock : h.sock = (f d).sock)
    (hptr : h.rc4 = (f d).rc4) (hpoll : p'.poll.Ok)
    (hfwds : p'.fwds = update p.fwds q (some (update f d h))) (hopened : p'.opened = p.opened)
    (hrc4 : ∀ x, (p'.rc4 x).isSome = (p.rc4 x).isSome) : Held e p' := by
  have hfd : fwdFd p'.fwds = fwdFd p.fwds := by
    funext ⟨q', d'⟩
    rw [fwdFd, fwdFd, hfwds]
    by_cases hq : q' = q
    · subst hq
      by_cases hd : d' = d
      · subst hd
        simp [hf, hsock]
      · simp [hf, hd]
    · simp [hq]
  have hrc : fwdRc4 p'.fwds = fwdRc4 p.fwds := by
    funext ⟨q', d'⟩
    rw [fwdRc4, fwdRc4, hfwds]
    by_cases hq : q' = q
    · subst hq
      by_cases hd : d' = d
      · subst hd
        simp [hf, hptr]
      · simp [hf, hd]
    · simp [hq]
  refine ⟨hpoll, ?_, ?_, ?_, ?_⟩
  · rw [hfd, hopened]
    exact hi.fds
  · rw [hopened]
    exact hi.fd_nonneg
  · rw [hrc]
    exact hi.rc4s.congr (fun _ => rfl) fun x => by rw [hrc4]
  · have h0 := hrc4 0
    rw [hi.rc4_zero] at h0
    simpa using h0

omit [DecidableEq ι] in
theorem ProcInv.setHalf (hi : ProcInv e p) (hf : p.fwds q = some f) (hsock : h.sock = (f d).sock)
    (hptr : h.rc4 = (f d).rc4) (hok : h.Ok) (hpoll : p'.poll.Ok)
    (hfwds : p'.fwds = update p.fwds q (some (update f d h))) (hopened : p'.opened = p.opened)
    (hrc4 : ∀ x, (p'.rc4 x).isSome = (p.rc4 x).isSome)
    (hswap : ∀ k, p'.poll.Has k ↔
      k = wantKey q (update f d h) d ∨ k ≠ wantKey q f d ∧ p.poll.Has k) : ProcInv e p' := by
  refine ⟨hi.toHeld.setHalf hf hsock hptr hpoll hfwds hopened hrc4, ?_, ?_⟩
  · rw [hfwds]
    exact has_swap hi.has hf hsock hswap
  · intro q' f' d' hf'
    rw [hfwds] at hf'
    by_cases hq : q' = q
    · subst hq
      rw [update_self] at hf'
      cases hf'
      by_cases hd : d' = d
      · subst hd
        rw [update_self]
        exact hok
      · rw [update_of_ne hd]
        exact hi.halves q' f d' hf
    · rw [update_of_ne hq] at hf'
      exact hi.halves q' f' d' hf'

omit [DecidableEq ι] in
/-- All that a `struct fwd` wants is among the keys its release unregisters. -/
theorem fwdWants_none {fwds : Ptr → Option Fwd} (hf : fwds q = some f) {k : Key}
    (hk : k ∉ fwdKeys q f) : FwdWants fwds k ↔ FwdWants (update fwds q none) k := by
  refine ⟨?_, ?_⟩
  · rintro ⟨q', f', d, hf', rfl⟩
    have hq : q' ≠ q := by
      rintro rfl
      rw [hf] at hf'
      cases hf'
      exact hk (wantKey_mem_fwdKeys ..)
    exact ⟨q', f', d, by rw [update_of_ne hq]; exact hf', rfl⟩
  · rintro ⟨q', f', d, hf', rfl⟩
    have hq : q' ≠ q := by
      rintro rfl
      rw [update_self] at hf'
      cases hf'
    rw [update_of_ne hq] at hf'
    exact ⟨q', f', d, hf', rfl⟩

/-- A release after the half of a side was changed. -/
theorem ProcInv.release (hi : ProcInv e p) (hf : p.fwds q = some f) (hheld : Held e p')
    (hpoll : p'.poll = p.poll) (hfwds : p'.fwds = update p.fwds q (some (update f d h)))
    (hsock : h.sock = (f d).sock) (hptr : h.rc4 = (f d).rc4) (hopened : p'.opened = p.opened)
    (hsent : p'.sent = p.sent) (hrcvd : ∀ fd, fd ≠ (f d).sock → p'.rcvd fd = p.rcvd fd)
    (hrc4 : ∀ x, x ≠ (f d).rc4 → p'.rc4 x = p.rc4 x) :
    ∃ p'', fwdRelease p' q = .ok p'' ∧ ProcInv e p'' ∧ Closed q f p p'' := by
  have hf' : p'.fwds q = some (update f d h) := by rw [hfwds, update_self]
  have hs : ∀ c, (update f d h c).sock = (f c).sock := by
    intro c
    by_cases hc : c = d
    · rw [hc, update_self, hsock]
    · rw [update_of_ne hc]
  have hr : ∀ c, (update f d h c).rc4 = (f c).rc4 := by
    intro c
    by_cases hc : c = d
    · rw [hc, update_self, hptr]
    · rw [update_of_ne hc]
  have hnone : update p'.fwds q none = update p.fwds q none := by rw [hfwds, update_idem]
  have hkeys : fwdKeys q (update f d h) = fwdKeys q f := by simp only [fwdKeys, hs]
  obtain ⟨p'', hp'', hinv, hrel⟩ := fwdRelease_ok hheld hf'
    (fun k hk => by
      rw [hpoll, hi.has, hnone, ← fwdWants_none hf (hkeys ▸ hk)])
    (fun q' f' d' hq hf'' => hi.halves q' f' d' (by
      rw [hfwds, update_of_ne hq] at hf''
      exact hf''))
  have hd : (f d).sock = (f .t).sock ∨ (f d).sock = (f .p).sock := by cases d <;> simp
  have hd' : (f d).rc4 = (f .t).rc4 ∨ (f d).rc4 = (f .p).rc4 := by cases d <;> simp
  refine ⟨p'', hp'', hinv, hrel.fwds.trans hnone, ?_, ?_, hrel.sent.trans hsent, ?_⟩
  · intro fd
    rw [hrel.opened, hs, hs, hopened]
  · intro fd ht hp
    rw [hrel.rcvd]
    apply hrcvd fd
    rintro rfl
    exact hd.elim ht hp
  · intro x ht hp
    rw [hrel.rc4 x (by rw [hr]; exact ht) (by rw [hr]; exact hp)]
    apply hrc4 x
    rintro rfl
    exact hd'.elim ht hp

end

omit [DecidableEq ι] in
theorem Held.sock_nonneg (hi : Held e p) (hf : p.fwds q = some f) (d : Side) : 0 ≤ (f d).sock := by
  have ho : Sum.elim e.fd (fwdFd p.fwds) (.inr (q, d)) = some (f d).sock := by
    simp [fwdFd, hf]
  exact hi.fd_nonneg _ (hi.fds.live_of ho)

omit [DecidableEq ι] in
theorem Held.rc4_some (hi : Held e p) (hf : p.fwds q = some f) (d : Side) :
    ∃ s, p.rc4 (f d).rc4 = some s := by
  have ho : Sum.elim e.rc4 (fwdRc4 p.fwds) (.inr (q, d)) = some (f d).rc4 := by
    simp [fwdRc4, hf]
  exact Option.isSome_iff_exists.1 (hi.rc4s.live_of ho)

theorem Side.other_ne (d : Side) : d.other ≠ d := by cases d <;> decide

theorem wantKey_update (q : Ptr) (f : Fwd) {d : Side} {h : Half} (hsock : h.sock = (f d).sock) :
    wantKey q (update f d h) d =
      if h.buf = [] then ((f d).sock, q, d.readCallBack)
      else ((f d.other).sock, q, d.writeCallBack) := by
  rw [wantKey, update_self, update_of_ne d.other_ne, hsock]

theorem readCallBack_ne_writeCallBack (d d' : Side) : d.readCallBack ≠ d'.writeCallBack := by
  cases d <;> cases d' <;> decide

/-- **The write callbacks.** -/
theorem writeCallback_ok (hi : ProcInv e p) (hf : p.fwds q = some f) {d : Side}
    (hbuf : (f d).buf ≠ []) (send : SendResult) :
    ∃ p', writeCallback d p q send = .ok p' ∧ ProcInv e p' ∧
      (Closed q f p p' ∨ ∃ taken h, Relayed d q f [] taken h p p') := by
  cases send with
  | error b =>
    obtain ⟨p', hp', hinv, hc⟩ := hi.release (d := d) (h := f d) hf hi.toHeld rfl
      (by rw [update_eq_self, update_eq_self_iff.2 hf.symm]) rfl rfl rfl rfl (fun _ _ => rfl) fun _ _ => rfl
    refine ⟨p', ?_, hinv, .inl hc⟩
    simp only [writeCallback, Res.deref_of_some hf, Res.ok_bind]
    exact hp'
  | sent n =>
    obtain ⟨st, hst⟩ := hi.rc4_some hf d
    have hok := hi.halves q f d hf
    have hwant : wantKey q f d = ((f d.other).sock, q, d.writeCallBack) := if_neg hbuf
    have hlen : (f d).rest.length = (f d).buf.length - (f d).bufpos := List.length_drop
    have hpre : (f d).rest.take n ++ (f d).rest.drop ((f d).rest.take n).length = (f d).rest :=
      List.prefix_iff_eq_append.1 (List.take_prefix n _)
    have hcrypt : update p.rc4 (f d).rc4 (some (rc4Advance 0 st)) = p.rc4 :=
      update_eq_self_iff.2 hst.symm
    by_cases hfull : (f d).bufpos + ((f d).rest.take n).length = (f d).buf.length
    · -- the buffer is done, and the side reads again
      set h : Half := { f d with buf := [], bufpos := 0 } with hh
      set p₁ : Proc := (p.send (f d.other).sock ((f d).rest.take n)).setFwd q (update f d h) with hp₁
      have hrun : writeCallback d p q (.sent n) = .ok
          ((p₁.register (f d).sock sockin q d.readCallBack).unregister (f d.other).sock q
            d.writeCallBack) := by
        simp only [writeCallback, Res.deref_of_some hf, Res.ok_bind]
        exact if_pos hfull
      have hpos := hi.sock_nonneg hf d
      obtain ⟨h1, hk1⟩ := proc_register (p := p₁) hi.poll (show (f d).sock ≠ -1 by omega) sockin q
        d.readCallBack
      obtain ⟨h2, hk2⟩ := proc_unregister h1 (f d.other).sock q d.writeCallBack
      have hwant' : wantKey q (update f d h) d = ((f d).sock, q, d.readCallBack) :=
        wantKey_update q f rfl
      refine ⟨_, hrun, hi.setHalf (d := d) (h := h) hf rfl rfl ⟨by simp [hh], fun _ => rfl, by simp [hh]⟩
        h2 rfl rfl (fun _ => rfl) ?_,
        .inr ⟨(f d).rest.take n, h, rfl, rfl, rfl, rfl, ?_, rfl, st, hst, ?_, ?_⟩⟩
      · intro k
        rw [hk2, hk1, hwant', hwant]
        refine ⟨?_, ?_⟩
        · rintro ⟨hne, hk | hk⟩
          · exact .inl hk
          · exact .inr ⟨hne, hk⟩
        · rintro (rfl | ⟨hne, hk⟩)
          · refine ⟨fun hc => readCallBack_ne_writeCallBack d d ?_, .inl rfl⟩
            exact congrArg (fun k : Key => k.2.2) hc
          · exact ⟨hne, .inr hk⟩
      · rw [List.append_nil, update_eq_self]
        rfl
      · exact hcrypt.symm
      · have hall : (f d).rest.take n = (f d).rest := by
          apply List.take_of_length_le
          rw [List.length_take] at hfull
          have := hok.bufpos_lt hbuf
          omega
        rw [hall]
        rfl
    · set h : Half := { f d with bufpos := (f d).bufpos + ((f d).rest.take n).length } with hh
      have hrun : writeCallback d p q (.sent n) = .ok
          ((p.send (f d.other).sock ((f d).rest.take n)).setFwd q (update f d h)) := by
        simp only [writeCallback, Res.deref_of_some hf, Res.ok_bind]
        exact if_neg hfull
      have hwant' : wantKey q (update f d h) d = wantKey q f d := by
        rw [wantKey_update q f (show h.sock = (f d).sock from rfl), if_neg (show h.buf ≠ [] from hbuf), hwant]
      refine ⟨_, hrun, hi.setHalf (d := d) (h := h) hf rfl rfl ⟨hok.length_le, fun hc => absurd hc hbuf,
        fun _ => ?_⟩ hi.poll rfl rfl (fun _ => rfl) ?_, .inr ⟨(f d).rest.take n, h, rfl, rfl, rfl, rfl, ?_,
        rfl, st, hst, hcrypt.symm, ?_⟩⟩
      · have := hok.bufpos_lt hbuf
        rw [List.length_take] at hfull
        show (f d).bufpos + ((f d).rest.take n).length < (f d).buf.length
        rw [List.length_take]
        omega
      · intro k
        rw [hwant']
        refine ⟨?_, ?_⟩
        · intro hk
          by_cases hkw : k = wantKey q f d
          · exact .inl hkw
          · exact .inr ⟨hkw, hk⟩
        · rintro (rfl | ⟨-, hk⟩)
          · exact (hi.has _).2 (.inr ⟨q, f, d, hf, rfl⟩)
          · exact hk
      · rw [List.append_nil, update_eq_self]
        rfl
      · have hrest : h.rest = (f d).rest.drop ((f d).rest.take n).length := List.drop_drop.symm
        rw [hrest, hpre]
        exact (List.append_nil _).symm

omit [DecidableEq ι] in
/-- The end of a read callback that took `bytes` and whose `send` took `taken` of what they became. -/
theorem readCallback_taken (hi : ProcInv e p) (hf : p.fwds q = some f) {d : Side}
    (hbuf : (f d).buf = []) {bytes taken : List UInt8} (hlen : bytes.length ≤ 512) {st : Rc4State}
    (hst : p.rc4 (f d).rc4 = some st) (htaken : taken <+: (rc4Crypt st bytes).1) :
    let data := (rc4Crypt st bytes).1
    let p₁ := ({ p.receive (f d).sock bytes with
      rc4 := update p.rc4 (f d).rc4 (some (rc4Advance bytes.length st)) }.setFwd q
        (update f d { f d with buf := data })).send (f d.other).sock taken
    ∃ p', (if taken.length < data.length then
        ((p₁.setFwd q (update f d { f d with buf := data, bufpos := taken.length })).unregister
          (f d).sock q d.readCallBack).register (f d.other).sock sockout q d.writeCallBack
        else p₁.setFwd q (update f d { f d with buf := [], bufpos := 0 })) = p' ∧
      ProcInv e p' ∧ ∃ h, Relayed d q f bytes taken h p p' := by
  intro data p₁
  have hrc4 : ∀ x, (update p.rc4 (f d).rc4 (some (rc4Advance bytes.length st)) x).isSome =
      (p.rc4 x).isSome := by
    intro x
    by_cases hx : x = (f d).rc4
    · rw [hx, update_self, hst]
      rfl
    · rw [update_of_ne hx]
  have hwant : wantKey q f d = ((f d).sock, q, d.readCallBack) := if_pos hbuf
  have hrest : (f d).rest = [] := by rw [Half.rest, hbuf, List.drop_nil]
  have hsets : ∀ a b : Fwd, update (update p.fwds q (some a)) q (some b) = update p.fwds q (some b) :=
    fun a b => update_idem ..
  refine ⟨_, rfl, ?_⟩
  split
  · -- some of it is left, and the side waits until it can be sent
    rename_i hlt
    set h : Half := { f d with buf := data, bufpos := taken.length } with hh
    have hdata : data ≠ [] := List.ne_nil_of_length_pos (Nat.zero_lt_of_lt hlt)
    have hpos := hi.sock_nonneg hf d.other
    obtain ⟨h1, hk1⟩ := proc_unregister (p := p₁.setFwd q (update f d h)) hi.poll (f d).sock q
      d.readCallBack
    obtain ⟨h2, hk2⟩ := proc_register h1 (show (f d.other).sock ≠ -1 by omega) sockout q
      d.writeCallBack
    have hwant' : wantKey q (update f d h) d = ((f d.other).sock, q, d.writeCallBack) := by
      rw [wantKey_update q f (show h.sock = (f d).sock from rfl), if_neg hdata]
    refine ⟨hi.setHalf (d := d) (h := h) hf rfl rfl ⟨?_, fun hc => absurd hc hdata, fun _ => hlt⟩ h2
      (hsets _ _) rfl hrc4 ?_, h, rfl, rfl, hsets _ _, rfl, rfl, rfl, st, hst, rfl, ?_⟩
    · show data.length ≤ 512
      rw [rc4Crypt_length]
      exact hlen
    · intro k
      rw [hk2, hk1, hwant', hwant]
      rfl
    · rw [hrest]
      exact List.prefix_iff_eq_append.1 htaken
  · -- all of it was sent
    rename_i hlt
    set h : Half := { f d with buf := [], bufpos := 0 } with hh
    have hwant' : wantKey q (update f d h) d = wantKey q f d := by
      rw [wantKey_update q f (show h.sock = (f d).sock from rfl), if_pos rfl, hwant]
    refine ⟨hi.setHalf (d := d) (h := h) hf rfl rfl ⟨by simp [hh], fun _ => rfl, by simp [hh]⟩ hi.poll
      (hsets _ _) rfl hrc4 ?_, h, rfl, rfl, hsets _ _, rfl, rfl, rfl, st, hst, rfl, ?_⟩
    · intro k
      rw [hwant']
      refine ⟨?_, ?_⟩
      · intro hk
        by_cases hkw : k = wantKey q f d
        · exact .inl hkw
        · exact .inr ⟨hkw, hk⟩
      · rintro (rfl | ⟨-, hk⟩)
        · exact (hi.has _).2 (.inr ⟨q, f, d, hf, rfl⟩)
        · exact hk
    · rw [hrest, htaken.eq_of_length_le (Nat.not_lt.1 hlt)]
      exact List.append_nil _

/-- **The read callbacks.** -/
theorem readCallback_ok (hi : ProcInv e p) (hf : p.fwds q = some f) {d : Side}
    (hbuf : (f d).buf = []) (recv : Option (List UInt8)) (send : SendResult) :
    ∃ p', readCallback d p q recv send = .ok p' ∧ ProcInv e p' ∧
      (Closed q f p p' ∨ ∃ bytes taken h, Relayed d q f bytes taken h p p' ∧
        recv.map (List.take 512) = some bytes) := by
  have hclose : ∃ p', fwdRelease p q = .ok p' ∧ ProcInv e p' ∧ Closed q f p p' :=
    hi.release (d := d) (h := f d) hf hi.toHeld rfl
      (by rw [update_eq_self, update_eq_self_iff.2 hf.symm]) rfl rfl rfl rfl (fun _ _ => rfl) fun _ _ => rfl
  cases hrecv : recv.map (List.take 512) with
  | none =>
    obtain ⟨p', hp', hinv, hc⟩ := hclose
    refine ⟨p', ?_, hinv, .inl hc⟩
    simp only [readCallback, Res.deref_of_some hf, Res.ok_bind, hrecv]
    exact hp'
  | some bytes =>
    have hlen : bytes.length ≤ 512 := by
      obtain ⟨bs, -, rfl⟩ := Option.map_eq_some_iff.1 hrecv
      rw [List.length_take]
      exact Nat.min_le_left ..
    cases bytes with
    | nil =>
      obtain ⟨p', hp', hinv, hc⟩ := hclose
      refine ⟨p', ?_, hinv, .inl hc⟩
      simp only [readCallback, Res.deref_of_some hf, Res.ok_bind, hrecv]
      exact hp'
    | cons b bs =>
      obtain ⟨st, hst⟩ := hi.rc4_some hf d
      have hcrypt : (p.receive (f d).sock (b :: bs)).crypt (f d).rc4 (b :: bs) =
          .ok ((rc4Crypt st (b :: bs)).1, { p.receive (f d).sock (b :: bs) with
            rc4 := update p.rc4 (f d).rc4 (some (rc4Advance (b :: bs).length st)) }) := by
        rw [Proc.crypt, show (p.receive (f d).sock (b :: bs)).rc4 = p.rc4 from rfl,
          Res.deref_of_some hst, Res.ok_bind, ← rc4Crypt_snd]
        rfl
      have htaken := fun taken => @readCallback_taken _ _ _ _ _ hi hf d hbuf (b :: bs) taken hlen st hst
      cases send with
      | error eagain =>
        cases eagain with
        | false =>
          set p₂ : Proc := { p.receive (f d).sock (b :: bs) with
            rc4 := update p.rc4 (f d).rc4 (some (rc4Advance (b :: bs).length st)) }.setFwd q
              (update f d { f d with buf := (rc4Crypt st (b :: bs)).1 }) with hp₂
          have hrc4 : ∀ x, x ≠ (f d).rc4 → p₂.rc4 x = p.rc4 x := fun x hx => update_of_ne hx ..
          have hsome : ∀ x, (p₂.rc4 x).isSome = (p.rc4 x).isSome := by
            intro x
            by_cases hx : x = (f d).rc4
            · rw [hx, show p₂.rc4 (f d).rc4 = _ from update_self .., hst]
              rfl
            · rw [hrc4 x hx]
          have hheld : Held e p₂ := hi.toHeld.setHalf (d := d)
            (h := { f d with buf := (rc4Crypt st (b :: bs)).1 }) hf rfl rfl hi.poll rfl rfl hsome
          obtain ⟨p', hp', hinv, hc⟩ := hi.release (d := d)
            (h := { f d with buf := (rc4Crypt st (b :: bs)).1 }) hf hheld rfl rfl rfl rfl rfl rfl
            (fun fd hfd => update_of_ne hfd ..) hrc4
          refine ⟨p', ?_, hinv, .inl hc⟩
          simp only [readCallback, Res.deref_of_some hf, Res.ok_bind, hrecv, hcrypt]
          exact hp'
        | true =>
          obtain ⟨p', hp', hinv, h, hrel⟩ := htaken [] List.nil_prefix
          refine ⟨p', ?_, hinv, .inr ⟨_, _, h, hrel, rfl⟩⟩
          simp only [readCallback, Res.deref_of_some hf, Res.ok_bind, hrecv, hcrypt, ← hp']
          split <;> rfl
      | sent n =>
        obtain ⟨p', hp', hinv, h, hrel⟩ := htaken _ (List.take_prefix n _)
        refine ⟨p', ?_, hinv, .inr ⟨_, _, h, hrel, rfl⟩⟩
        simp only [readCallback, Res.deref_of_some hf, Res.ok_bind, hrecv, hcrypt, ← hp']
        split <;> rfl

/-! ## From the event loop -/

theorem registered_iff {inst : Ptr} {callBack : CallBack} :
    p.registered inst callBack = true ↔ ∃ fd, p.poll.Has (fd, inst, callBack) := by
  have hhas : ∀ k, p.poll.Has k ↔ ∃ i < p.poll.pfdCount, (p.poll.pfdList i).fd ≠ -1 ∧
      ((p.poll.pfdList i).fd, (p.poll.pfdCallBacks i).ctxt, (p.poll.pfdCallBacks i).callBack) = k := by
    intro k
    simp [PollTable.Has, PollTable.live, PollTable.slots, PollTable.regAt, Reg.key, and_assoc]
  rw [Proc.registered, List.any_eq_true]
  simp only [List.mem_range, decide_eq_true_iff, hhas]
  refine ⟨?_, ?_⟩
  · rintro ⟨i, hi, hfd, rfl, rfl⟩
    exact ⟨_, i, hi, hfd, rfl⟩
  · rintro ⟨fd, i, hi, hfd, hk⟩
    cases hk
    exact ⟨i, hi, hfd, rfl, rfl⟩

omit [DecidableEq ι] in
theorem registered_fwd (hi : ProcInv e p) {callBack : CallBack} (hcb : callBack.ofFwd = true)
    (h : p.registered q callBack = true) :
    ∃ f d, p.fwds q = some f ∧ (wantKey q f d).2.2 = callBack := by
  obtain ⟨fd, hk⟩ := registered_iff.1 h
  rcases (hi.has _).1 hk with hw | ⟨q', f, d, hf, hk⟩
  · have hno := e.ofFwd_false _ hw
    rw [hcb] at hno
    cases hno
  · obtain rfl : q = q' := by simpa using congrArg (fun k : Key => k.2.1) hk
    exact ⟨f, d, hf, (congrArg (fun k : Key => k.2.2) hk).symm⟩

omit [DecidableEq ι] in
/-- A read callback is registered only while its buffer is empty. -/
theorem registered_read (hi : ProcInv e p) {d : Side} (h : p.registered q d.readCallBack = true) :
    ∃ f, p.fwds q = some f ∧ (f d).buf = [] := by
  obtain ⟨f, d', hf, hk⟩ := registered_fwd hi (by cases d <;> rfl) h
  refine ⟨f, hf, ?_⟩
  unfold wantKey at hk
  split at hk
  · rename_i hbuf
    obtain rfl : d' = d := by cases d <;> cases d' <;> first | rfl | cases hk
    exact hbuf
  · exact absurd hk.symm (readCallBack_ne_writeCallBack d d')

omit [DecidableEq ι] in
/-- A write callback is registered only while its buffer is not. -/
theorem registered_write (hi : ProcInv e p) {d : Side} (h : p.registered q d.writeCallBack = true) :
    ∃ f, p.fwds q = some f ∧ (f d).buf ≠ [] := by
  obtain ⟨f, d', hf, hk⟩ := registered_fwd hi (by cases d <;> rfl) h
  refine ⟨f, hf, ?_⟩
  unfold wantKey at hk
  split at hk
  · exact absurd hk (readCallBack_ne_writeCallBack d' d)
  · rename_i hbuf
    obtain rfl : d' = d := by cases d <;> cases d' <;> first | rfl | cases hk
    exact hbuf

/-- What a callback of a `struct fwd` leaves of the program's own resources. -/
structure ExtFrame (e : Ext ι) (p p' : Proc) : Prop where
  rcvd : ∀ a fd, e.fd a = some fd → p'.rcvd fd = p.rcvd fd
  sent : ∀ a fd, e.fd a = some fd → p'.sent fd = p.sent fd
  rc4 : ∀ a x, e.rc4 a = some x → p'.rc4 x = p.rc4 x

omit [DecidableEq ι] in
theorem ExtFrame.refl (e : Ext ι) (p : Proc) : ExtFrame e p p :=
  ⟨fun _ _ _ => rfl, fun _ _ _ => rfl, fun _ _ _ => rfl⟩

omit [DecidableEq ι] in
theorem ExtFrame.trans {p' p'' : Proc} (h : ExtFrame e p p') (h' : ExtFrame e p' p'') :
    ExtFrame e p p'' where
  rcvd := fun a fd ha => (h'.rcvd a fd ha).trans (h.rcvd a fd ha)
  sent := fun a fd ha => (h'.sent a fd ha).trans (h.sent a fd ha)
  rc4 := fun a x ha => (h'.rc4 a x ha).trans (h.rc4 a x ha)

omit [DecidableEq ι] in
theorem Held.sock_ne (hi : Held e p) (hf : p.fwds q = some f) (d : Side) {a : ι} {fd : Int}
    (ha : e.fd a = some fd) : fd ≠ (f d).sock := by
  rintro rfl
  have hd : Sum.elim e.fd (fwdFd p.fwds) (.inr (q, d)) = some (f d).sock := by simp [fwdFd, hf]
  cases hi.fds.inj (.inl a) _ _ ha hd

omit [DecidableEq ι] in
theorem Held.rc4_ne (hi : Held e p) (hf : p.fwds q = some f) (d : Side) {a : ι} {x : Ptr}
    (ha : e.rc4 a = some x) : x ≠ (f d).rc4 := by
  rintro rfl
  have hd : Sum.elim e.rc4 (fwdRc4 p.fwds) (.inr (q, d)) = some (f d).rc4 := by simp [fwdRc4, hf]
  cases hi.rc4s.inj (.inl a) _ _ ha hd

omit [DecidableEq ι] in
theorem Closed.extFrame {p' : Proc} (hi : Held e p) (hf : p.fwds q = some f) (h : Closed q f p p') :
    ExtFrame e p p' where
  rcvd := fun _ _ ha => h.rcvd _ (hi.sock_ne hf .t ha) (hi.sock_ne hf .p ha)
  sent := fun _ _ _ => by rw [h.sent]
  rc4 := fun _ _ ha => h.rc4 _ (hi.rc4_ne hf .t ha) (hi.rc4_ne hf .p ha)

omit [DecidableEq ι] in
theorem Relayed.extFrame {p' : Proc} {d : Side} {bytes taken : List UInt8} {h : Half} (hi : Held e p)
    (hf : p.fwds q = some f) (hr : Relayed d q f bytes taken h p p') : ExtFrame e p p' where
  rcvd := fun _ _ ha => by rw [hr.rcvd, update_of_ne (hi.sock_ne hf d ha)]
  sent := fun _ _ ha => by rw [hr.sent, update_of_ne (hi.sock_ne hf d.other ha)]
  rc4 := fun _ _ ha => by
    obtain ⟨_, _, hrc4, _⟩ := hr.rc4
    rw [hrc4, update_of_ne (hi.rc4_ne hf d ha)]

/-- **The callbacks of the relay**, whenever the event loop calls them. -/
theorem fwdStep_ok (hi : ProcInv e p) (ev : FwdEvent) :
    ∃ p', p.fwdStep ev = .ok p' ∧ ProcInv e p' ∧ ExtFrame e p p' := by
  cases ev with
  | read d q recv send =>
    by_cases h : p.registered q d.readCallBack = true
    · obtain ⟨f, hf, hbuf⟩ := registered_read hi h
      obtain ⟨p', hp', hinv, hc | ⟨_, _, _, hr, -⟩⟩ := readCallback_ok hi hf hbuf recv send
      · exact ⟨p', by rw [Proc.fwdStep, if_pos h, hp'], hinv, hc.extFrame hi.toHeld hf⟩
      · exact ⟨p', by rw [Proc.fwdStep, if_pos h, hp'], hinv, hr.extFrame hi.toHeld hf⟩
    · exact ⟨p, by rw [Proc.fwdStep, if_neg h], hi, .refl e p⟩
  | write d q send =>
    by_cases h : p.registered q d.writeCallBack = true
    · obtain ⟨f, hf, hbuf⟩ := registered_write hi h
      obtain ⟨p', hp', hinv, hc | ⟨_, _, hr⟩⟩ := writeCallback_ok hi hf hbuf send
      · exact ⟨p', by rw [Proc.fwdStep, if_pos h, hp'], hinv, hc.extFrame hi.toHeld hf⟩
      · exact ⟨p', by rw [Proc.fwdStep, if_pos h, hp'], hinv, hr.extFrame hi.toHeld hf⟩
    · exact ⟨p, by rw [Proc.fwdStep, if_neg h], hi, .refl e p⟩

/-! ## Attaching -/

/-- Two resources of the program become those of a `struct fwd`. -/
theorem take_two {α : Type} {own own' : ι → Option α} {own₂ own₂' : Ptr × Side → Option α}
    {live : α → Prop} {a b : ι} {x y : α} (h : Owned (Sum.elim own own₂) live) (ha : own a = some x)
    (hb : own b = some y) (hab : b ≠ a) (ht : own₂ (q, .t) = none) (hp : own₂ (q, .p) = none)
    (hown : own' = update (update own a none) b none)
    (hown₂ : own₂' = update (update own₂ (q, .t) (some x)) (q, .p) (some y)) :
    Owned (Sum.elim own' own₂') live := by
  have h1 := h.move (a := Sum.inl a) (b := Sum.inr (q, Side.t)) ha ht
  rw [Sum.update_elim_inl, Sum.update_elim_inr] at h1
  have hb1 : update own a none b = some y := by rw [update_of_ne hab, hb]
  have hp1 : update own₂ (q, Side.t) (some x) (q, Side.p) = none := by
    rw [update_of_ne (by simp), hp]
  have h2 := h1.move (a := Sum.inl b) (b := Sum.inr (q, Side.p)) hb1 hp1
  rw [Sum.update_elim_inl, Sum.update_elim_inr] at h2
  rw [hown, hown₂]
  exact h2

/-- **`do_forward`.** It takes the sockets of `a` and `b` over, and the cipher states of `c` and `g`. -/
theorem doForward_ok (hi : ProcInv e p) {a b c g : ι} {tsock psock : Int} {enc dec : Ptr}
    (ha : e.fd a = some tsock) (hb : e.fd b = some psock) (hab : b ≠ a)
    (hc : e.rc4 c = some dec) (hg : e.rc4 g = some enc) (hcg : g ≠ c) :
    doForward p q tsock psock enc dec = .exit ∨
    ∃ p', doForward p q tsock psock enc dec = .ok p' ∧ p.fwds q = none ∧
      p'.fwds = update p.fwds q (some (newFwd tsock psock enc dec)) ∧ p'.opened = p.opened ∧
      p'.rcvd = p.rcvd ∧ p'.sent = p.sent ∧ p'.rc4 = p.rc4 ∧
      ProcInv ((((e.setFd a none).setFd b none).setRc4 c none).setRc4 g none) p' := by
  by_cases hfresh : q = 0 ∨ (p.fwds q).isSome = true
  · exact .inl (if_pos hfresh)
  have hq : p.fwds q = none := by simpa using fun h => hfresh (.inr h)
  refine .inr ⟨_, if_neg hfresh, hq, rfl, rfl, rfl, rfl, rfl, ?_⟩
  set f : Fwd := newFwd tsock psock enc dec with hfdef
  have hta : 0 ≤ tsock := hi.fd_nonneg _ (hi.fds.live_of (a := Sum.inl a) ha)
  have hpb : 0 ≤ psock := hi.fd_nonneg _ (hi.fds.live_of (a := Sum.inl b) hb)
  obtain ⟨h1, hk1⟩ := proc_register (p := p.setFwd q f) hi.poll (show tsock ≠ -1 by omega) sockin q
    .tsockRead
  obtain ⟨h2, hk2⟩ := proc_register h1 (show psock ≠ -1 by omega) sockin q .psockRead
  have hslots : ∀ {α : Type} (get : Half → α), (fun a : Ptr × Side =>
        (update p.fwds q (some f) a.1).map fun f => get (f a.2)) =
      update (update (fun a : Ptr × Side => (p.fwds a.1).map fun f => get (f a.2))
        (q, .t) (some (get (f .t)))) (q, .p) (some (get (f .p))) := by
    intro α get
    funext ⟨q', d⟩
    by_cases hqq : q' = q
    · subst hqq
      cases d <;> simp
    · simp [hqq]
  refine ⟨⟨h2, ?_, hi.fd_nonneg, ?_, hi.rc4_zero⟩, fun k => ?_, fun q' f' d hf' => ?_⟩
  · exact take_two hi.fds ha hb hab (by simp [fwdFd, hq]) (by simp [fwdFd, hq]) rfl (hslots Half.sock)
  · exact take_two hi.rc4s hc hg hcg (by simp [fwdRc4, hq]) (by simp [fwdRc4, hq]) rfl
      (hslots Half.rc4)
  · refine (hk2 k).trans ?_
    rw [hk1, show (p.setFwd q f).poll.Has k ↔ _ from hi.has k]
    show _ ↔ e.wants k ∨ FwdWants (update p.fwds q (some f)) k
    have hnew : FwdWants (update p.fwds q (some f)) k ↔
        (k = wantKey q f .t ∨ k = wantKey q f .p) ∨ FwdWants p.fwds k := by
      refine ⟨?_, ?_⟩
      · rintro ⟨q', f', d, hf', rfl⟩
        by_cases hqq : q' = q
        · subst hqq
          rw [update_self] at hf'
          cases hf'
          cases d
          · exact .inl (.inl rfl)
          · exact .inl (.inr rfl)
        · rw [update_of_ne hqq] at hf'
          exact .inr ⟨q', f', d, hf', rfl⟩
      · rintro ((rfl | rfl) | ⟨q', f', d, hf', rfl⟩)
        · exact ⟨q, f, .t, update_self .., rfl⟩
        · exact ⟨q, f, .p, update_self .., rfl⟩
        · have hqq : q' ≠ q := by
            rintro rfl
            rw [hq] at hf'
            cases hf'
          exact ⟨q', f', d, by rw [update_of_ne hqq]; exact hf', rfl⟩
    rw [hnew, show wantKey q f .t = (tsock, q, .tsockRead) from if_pos rfl,
      show wantKey q f .p = (psock, q, .psockRead) from if_pos rfl]
    tauto
  · change update p.fwds q (some f) q' = some f' at hf'
    by_cases hqq : q' = q
    · subst hqq
      rw [update_self] at hf'
      cases hf'
      cases d <;> exact ⟨Nat.zero_le _, fun _ => rfl, fun hne => absurd rfl hne⟩
    · rw [update_of_ne hqq] at hf'
      exact hi.halves q' f' d hf'

end

end Relay
