import GoipRemote.Radmsrv.Addresses
import GoipRemote.Relay.ExtOps

/-!
# The invariant of the server

`Inv s q l ds idle fresh`: every descriptor and cipher state is owned by the standard input, the
listening socket, a connection, a client or a `struct fwd`, and by one of these alone (`ext`); the
clients are the list `l`, each with the connection of a device, and then registered, or without; the
timers and the addresses are as `Addresses` has them. The timers in `idle` have just fired, and the
clients in `fresh` were just made.
-/

namespace Radmsrv

open Utils Relay Function LinkedList CString

/-- Where the server keeps a descriptor or a cipher state. `var` stands for the variables of the
callback that runs. -/
inductive Slot where
  | std
  | srv
  | conn (conn : Ptr)
  | listen (cli : Ptr)
  | device (cli : Ptr)
  | var
  deriving DecidableEq, Repr

/-- The client holds the connection of a device. -/
def Radmcli.Waiting (c : Radmcli) : Prop := c.rSock > 0 ∧ c.rc4Dec ≠ 0

instance (c : Radmcli) : Decidable c.Waiting := inferInstanceAs (Decidable (_ ∧ _))

namespace Server

variable (s : Server)

/-- The descriptors that the slots own. -/
def fdOf : Slot → Option Int
  | .std => some 0
  | .srv => some s.sock
  | .conn x => (s.conns x).map Radmconn.sock
  | .listen x => (s.objects x).map Radmcli.lSock
  | .device x => (s.objects x).bind fun c => if c.rSock > 0 then some c.rSock else none
  | .var => none

/-- The cipher states that the slots own. -/
def rc4Of : Slot → Option Ptr
  | .conn x => (s.conns x).map Radmconn.rc4Dec
  | .device x => (s.objects x).bind fun c => if c.rc4Dec ≠ 0 then some c.rc4Dec else none
  | _ => none

/-- What the slots want registered. -/
def keyOf : Slot → Option Key
  | .srv => some (s.sock, s.srv, .radmsrvAccept)
  | .conn x => (s.conns x).map fun c => (c.sock, x, .radmsrvConn)
  | .listen x => (s.objects x).bind fun c =>
      if c.Waiting then some (c.lSock, x, .radmcliAccept) else none
  | _ => none

end Server

theorem keyOf_ofFwd (s : Server) (a : Slot) (k : Key) (h : s.keyOf a = some k) :
    k.2.2.ofFwd = false := by
  cases a with
  | srv =>
    cases h
    rfl
  | conn x =>
    obtain ⟨c, -, rfl⟩ := Option.map_eq_some_iff.1 h
    rfl
  | listen x =>
    obtain ⟨c, -, hk⟩ := Option.bind_eq_some_iff.1 h
    split at hk
    · cases hk
      rfl
    · cases hk
  | std => cases h
  | device x => cases h
  | var => cases h

/-- What the server owns and wants registered. -/
def ext (s : Server) : Ext Slot := .ofSlots s.fdOf s.rc4Of s.keyOf (keyOf_ofFwd s)

@[simp] theorem ext_fd (s : Server) : (ext s).fd = s.fdOf := rfl
@[simp] theorem ext_rc4 (s : Server) : (ext s).rc4 = s.rc4Of := rfl

/-- A client between two events. -/
structure Radmcli.Whole (c : Radmcli) : Prop where
  device : c.Waiting ∨ c.rSock = -1 ∧ c.rc4Dec = 0
  type : c.isRadmin ≠ 0

/-- An expiry took the client whose timer fired, and that one alone. -/
def Note.Ok : Note → Prop
  | .expired t cli before after =>
    (∃ c, (cli, c) ∈ before ∧ c.deltimer = t) ∧ after = before.filter fun a => a.1 ≠ cli
  | _ => True

/-- The invariant (module doc). -/
structure Inv (s : Server) (q : Queue) (l ds : List Ptr) (idle fresh : Ptr → Prop) : Prop where
  proc : ProcInv (ext s) s.proc
  clients : Clients s l
  whole : ∀ x c, s.objects x = some c → ¬ fresh x → c.Whole
  conns : ∀ x c, s.conns x = some c → c.buf.length ≤ 256
  addresses : Addresses s q ds idle
  notes : ∀ n ∈ s.log, n.Ok

/-- No timer or client. -/
abbrev nobody : Ptr → Prop := fun _ => False

/-! ## The slots -/

section
variable {s s' : Server} {q : Queue} {l ds : List Ptr} {idle fresh : Ptr → Prop} {x : Ptr}

theorem keyOf_conn {k : Key} {a : Slot} (h : s.keyOf a = some k) (hk : k.2 = (x, .radmsrvConn)) :
    a = .conn x := by
  cases a with
  | srv =>
    cases h
    cases hk
  | conn y =>
    obtain ⟨c, -, rfl⟩ := Option.map_eq_some_iff.1 h
    cases hk
    rfl
  | listen y =>
    obtain ⟨c, -, h⟩ := Option.bind_eq_some_iff.1 h
    split at h
    · cases h
      cases hk
    · cases h
  | std => cases h
  | device y => cases h
  | var => cases h

theorem keyOf_listen {k : Key} {a : Slot} (h : s.keyOf a = some k) (hk : k.2 = (x, .radmcliAccept)) :
    a = .listen x := by
  cases a with
  | srv =>
    cases h
    cases hk
  | conn y =>
    obtain ⟨c, -, rfl⟩ := Option.map_eq_some_iff.1 h
    cases hk
  | listen y =>
    obtain ⟨c, -, h⟩ := Option.bind_eq_some_iff.1 h
    split at h
    · cases h
      cases hk
      rfl
    · cases h
  | std => cases h
  | device y => cases h
  | var => cases h

theorem wants_congr {key key' : Slot → Option Key} (h : key' = key) (k : Key) :
    (∃ a, key' a = some k) ↔ ∃ a, key a = some k := by rw [h]

theorem slots_of_conn {c : Radmconn} (hc : s.conns x = some c) :
    s.fdOf (.conn x) = some c.sock ∧ s.rc4Of (.conn x) = some c.rc4Dec ∧
      s.keyOf (.conn x) = some (c.sock, x, .radmsrvConn) := by
  simp [Server.fdOf, Server.rc4Of, Server.keyOf, hc]

theorem slots_of_cli {c : Radmcli} (hc : s.clis x = some c) :
    s.fdOf (.listen x) = some c.lSock ∧
      s.fdOf (.device x) = (if c.rSock > 0 then some c.rSock else none) ∧
      s.rc4Of (.device x) = (if c.rc4Dec ≠ 0 then some c.rc4Dec else none) ∧
      s.keyOf (.listen x) = if c.Waiting then some (c.lSock, x, .radmcliAccept) else none := by
  simp [Server.fdOf, Server.rc4Of, Server.keyOf, Radmcli.Waiting, clis_some hc, Radmcli.view]

/-- A connection changes. -/
theorem slots_conn (s s' : Server) {v : Option Radmconn} (hsock : s'.sock = s.sock) (hsrv : s'.srv = s.srv)
    (hobjects : s'.objects = s.objects) (hconns : s'.conns = update s.conns x v) :
    s'.fdOf = update s.fdOf (.conn x) (v.map Radmconn.sock) ∧
      s'.rc4Of = update s.rc4Of (.conn x) (v.map Radmconn.rc4Dec) ∧
      s'.keyOf = update s.keyOf (.conn x) (v.map fun c => (c.sock, x, .radmsrvConn)) := by
  refine ⟨funext fun a => ?_, funext fun a => ?_, funext fun a => ?_⟩
  all_goals
    cases a with
    | conn y => by_cases hy : y = x <;> simp [Server.fdOf, Server.rc4Of, Server.keyOf, hconns, hy]
    | _ => simp [Server.fdOf, Server.rc4Of, Server.keyOf, hsock, hsrv, hobjects]

/-- A client changes. -/
theorem slots_cli (s s' : Server) {v : Option Radmcli} (hsock : s'.sock = s.sock) (hsrv : s'.srv = s.srv)
    (hconns : s'.conns = s.conns) (hobjects : s'.objects = update s.objects x v) :
    s'.fdOf = update (update s.fdOf (.listen x) (v.map Radmcli.lSock)) (.device x)
        (v.bind fun c => if c.rSock > 0 then some c.rSock else none) ∧
      s'.rc4Of = update s.rc4Of (.device x)
        (v.bind fun c => if c.rc4Dec ≠ 0 then some c.rc4Dec else none) ∧
      s'.keyOf = update s.keyOf (.listen x)
        (v.bind fun c => if c.Waiting then some (c.lSock, x, .radmcliAccept) else none) := by
  refine ⟨funext fun a => ?_, funext fun a => ?_, funext fun a => ?_⟩
  all_goals
    cases a with
    | listen y => by_cases hy : y = x <;> simp [Server.fdOf, Server.rc4Of, Server.keyOf, hobjects, hy]
    | device y => by_cases hy : y = x <;> simp [Server.fdOf, Server.rc4Of, Server.keyOf, hobjects, hy]
    | _ => simp [Server.fdOf, Server.rc4Of, Server.keyOf, hsock, hsrv, hconns]

/-- Descriptor 0 is the standard input's. -/
theorem Inv.fd_pos (h : Inv s q l ds idle fresh) {a : Slot} {fd : Int} (ha : s.fdOf a = some fd)
    (hne : a ≠ .std) : 0 < fd := by
  have hnonneg := (h.proc.opened_of (a := a) ha).2
  have hzero : fd ≠ 0 := by
    rintro rfl
    exact hne (h.proc.fd_inj (b := .std) ha rfl)
  omega

/-! ## What an operation leaves alone -/

theorem Clients.congr (h : Clients s l) (hclis : s'.clis = s.clis) (hclients : s'.clients = s.clients)
    (hcreated : s'.created = s.created) : Clients s' l := by
  have hnext : s'.next = s.next := by
    unfold Server.next
    rw [hclis]
  have hobjects : s'.objects = s.objects := by
    unfold Server.objects
    rw [hclis]
  obtain ⟨hlist, hmem, hlen, hsorted, hunique⟩ := h
  rw [← hnext, ← hclients] at hlist
  rw [← hobjects] at hmem hsorted hunique
  exact ⟨hlist, hmem, hcreated ▸ hlen, hsorted, hunique⟩

/-- Only the process changed. -/
theorem Inv.setProc (h : Inv s q l ds idle fresh) {p : Proc} (hp : ProcInv (ext s) p) :
    Inv { s with proc := p } q l ds idle fresh where
  proc := hp
  clients := h.clients.congr rfl rfl rfl
  whole := h.whole
  conns := h.conns
  addresses := ⟨h.addresses.timed, h.addresses.ips, h.addresses.log⟩
  notes := h.notes

/-- The process and a connection changed. -/
theorem Inv.setConns (h : Inv s q l ds idle fresh) {p : Proc} {conns : Ptr → Option Radmconn}
    (hp : ProcInv (ext { s with proc := p, conns := conns }) p)
    (hconns : ∀ x c, conns x = some c → c.buf.length ≤ 256) :
    Inv { s with proc := p, conns := conns } q l ds idle fresh where
  proc := hp
  clients := h.clients.congr rfl rfl rfl
  whole := h.whole
  conns := hconns
  addresses := ⟨h.addresses.timed, h.addresses.ips, h.addresses.log⟩
  notes := h.notes

theorem update_conns {conns : Ptr → Option Radmconn} {v : Option Radmconn}
    (h : ∀ x c, conns x = some c → c.buf.length ≤ 256) (hv : ∀ c, v = some c → c.buf.length ≤ 256)
    (y : Ptr) (c : Radmconn) (hc : update conns x v y = some c) : c.buf.length ≤ 256 := by
  by_cases hy : y = x
  · rw [hy, update_self] at hc
    exact hv c hc
  · rw [update_of_ne hy] at hc
    exact h y c hc

/-! ## Connections -/

/-- **`radmsrv_accept_callback`.** -/
theorem radmsrvAcceptCallback_ok (h : Inv s q l ds idle fresh) (i : AcceptIn) :
    radmsrvAcceptCallback s i = .exit ∨ radmsrvAcceptCallback s i = .ok s ∨
      ∃ sock p, radmsrvAcceptCallback s i =
          .ok { s with proc := p, conns := update s.conns i.conn (some ⟨[], sock, i.rc4⟩) } ∧
        i.accept = some sock ∧ p.opened sock = true ∧ p.rc4 i.rc4 = some (rc4Setup s.rc4Key) ∧
        Inv { s with proc := p, conns := update s.conns i.conn (some ⟨[], sock, i.rc4⟩) } q l ds idle
          fresh := by
  unfold radmsrvAcceptCallback
  cases hsock : s.proc.newSock i.accept with
  | none =>
    by_cases hem : i.emfile = true
    · exact .inl (if_pos hem)
    · exact .inr (.inl (if_neg hem))
  | some a =>
    obtain ⟨sock, p₁⟩ := a
    by_cases hfresh : i.conn = 0 ∨ (s.conns i.conn).isSome = true
    · exact .inl (if_pos hfresh)
    have hnone : s.conns i.conn = none := by
      simpa using fun hc => hfresh (.inr hc)
    obtain ⟨hr, hpos, -, hp₁, h1⟩ := newSock_ok h.proc hsock (a := Slot.conn i.conn)
      (by simp [Server.fdOf, hnone])
    rcases newRc4_ok h1 i.rc4 (a := Slot.conn i.conn) (by simp [Server.rc4Of, hnone])
      s.rc4Key with hx | ⟨p₂, hnew, -, -, hp₂, h2⟩
    · refine .inl ?_
      simp only [if_neg hfresh, hx, Res.exit_bind]
    have h3 := register_ok h2 hpos sockin i.conn .radmsrvConn rfl
    obtain ⟨hfd, hrc, hkey⟩ := slots_conn s
      { s with conns := update s.conns i.conn (some ⟨[], sock, i.rc4⟩) } rfl rfl rfl rfl
    refine .inr (.inr ⟨sock, _, ?_, hr, ?_, ?_, h.setConns (h3.congr (congrFun hfd) (congrFun hrc)
      fun k => ?_) (update_conns h.conns fun c hc => ?_)⟩)
    · simp only [if_neg hfresh, hnew, Res.ok_bind, Res.pure_eq]
      rfl
    · show p₂.opened sock = true
      rw [hp₂, hp₁]
      exact update_self ..
    · show p₂.rc4 i.rc4 = _
      rw [hp₂]
      exact update_self ..
    · refine (wants_congr hkey k).trans (exists_update_some fun k hk => ?_)
      simp [Server.keyOf, hnone] at hk
    · cases hc
      exact Nat.zero_le _

/-- **The error exit of `radmsrv_conn_callback`.** -/
theorem connErrExit_ok (h : Inv s q l ds idle fresh) {c : Radmconn} (hc : s.conns x = some c) :
    ∃ p, connErrExit s x = .ok { s with proc := p, conns := update s.conns x none } ∧
      Inv { s with proc := p, conns := update s.conns x none } q l ds idle fresh := by
  obtain ⟨hsock, hrc4, hkey₀⟩ := slots_of_conn hc
  have h1 := unregister_ok h.proc c.sock x .radmsrvConn rfl
  obtain ⟨p₂, hclose, -, h2⟩ := closeExt_ok h1 (a := Slot.conn x) hsock
  obtain ⟨-, p₃, hfree, -, h3⟩ := freeExt_ok h2 (a := Slot.conn x) hrc4
  obtain ⟨hfd, hrc, hkey⟩ := slots_conn s { s with conns := update s.conns x none } rfl rfl rfl
    rfl
  refine ⟨p₃, ?_, h.setConns (h3.congr (congrFun hfd) (congrFun hrc) fun k => ?_)
    (update_conns h.conns fun c hc => by cases hc)⟩
  · simp only [connErrExit, Res.deref_of_some hc, Res.ok_bind, hclose, hfree, Res.pure_eq]
  · refine (wants_congr hkey k).trans
      (exists_update_none (fun k hk => ?_) fun b hb => ?_)
    · rw [hkey₀] at hk
      exact (Option.some.inj hk).symm
    · exact keyOf_conn hb rfl

/-! ## The resources of a client -/

/-- `close` of a socket that may not be there. -/
theorem closeIf_ok {p : Proc} {e : Ext Slot} {fd : Int} {a : Slot} (hi : ProcInv e p)
    (ha : e.fd a = if fd > 0 then some fd else none) :
    ∃ p', (if fd > 0 then p.close fd else .ok p) = .ok p' ∧ p' = { p with opened := p'.opened } ∧
      ProcInv (e.setFd a none) p' := by
  by_cases hfd : fd > 0
  · rw [if_pos hfd] at ha
    obtain ⟨p', hclose, hp', h'⟩ := closeExt_ok hi ha
    exact ⟨p', by rw [if_pos hfd, hclose], by rw [hp'], h'⟩
  · rw [if_neg hfd] at ha
    refine ⟨p, if_neg hfd, rfl, hi.congr (fun b => ?_) (fun _ => rfl) fun _ => Iff.rfl⟩
    exact congrFun (update_eq_self_iff.2 ha.symm) b

/-- `free` of a cipher state that may not be there. -/
theorem freeIf_ok {p : Proc} {e : Ext Slot} {y : Ptr} {a : Slot} (hi : ProcInv e p)
    (ha : e.rc4 a = if y ≠ 0 then some y else none) :
    ∃ p', freeRc4If p y = .ok p' ∧ p' = { p with rc4 := p'.rc4 } ∧
      (∀ z, z ≠ y → p'.rc4 z = p.rc4 z) ∧ ProcInv (e.setRc4 a none) p' := by
  by_cases hy : y ≠ 0
  · rw [if_pos hy] at ha
    obtain ⟨-, p', hfree, hp', h'⟩ := freeExt_ok hi ha
    refine ⟨p', by rw [freeRc4If, if_pos hy, hfree], by rw [hp'], fun z hz => ?_, h'⟩
    rw [hp']
    exact update_of_ne hz ..
  · rw [if_neg hy] at ha
    refine ⟨p, by rw [freeRc4If, if_neg hy], rfl, fun _ _ => rfl, hi.congr (fun _ => rfl) (fun b => ?_)
      fun _ => Iff.rfl⟩
    exact congrFun (update_eq_self_iff.2 ha.symm) b

end

end Radmsrv
