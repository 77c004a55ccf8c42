import GoipRemote.Radmsrv.Handshake

/-!
# What holds in every run of the server

Read off the invariant: the client list (`run_registry`), who owns the sockets and the cipher states
(`run_owners`), and who reaches a device (`run_answered`).
-/

namespace Radmsrv

open Utils Relay Function LinkedList CString Ownership

section
variable {s s' : Server} {clock : Nat → Timeval} {pfdList : Nat → Pollfd} {pfdCallBacks : Nat → PfdCallBack Ptr CallBack}
  {whiteListIp : CString} {portMin portMax getPort : UInt16} {srv : Ptr} {sock : Option Int}
  {listening : Bool} {key : List UInt8}
  (hs : radmsrvCreate (.init clock pfdList pfdCallBacks whiteListIp portMin portMax getPort) srv sock
    listening key = some s)

/-! ## The client list -/

/-- The client list, and what the expiries so far did to it. -/
structure ListOk (s : Server) : Prop where
  list : ∃ l, IsList s.next s.clients l ∧ l.Nodup ∧ (∀ p, p ∈ l ↔ (s.clis p).isSome = true) ∧
    SortedIds s.objects l ∧ s.registry = listed s.objects l
  unique : UniqueKeys s.objects
  expiries : ∀ t cli before after, .expired t cli before after ∈ s.log →
    (∃ c, (cli, c) ∈ before ∧ c.deltimer = t) ∧ after = before.filter fun a => a.1 ≠ cli

theorem Good.listOk (h : Good s) : ListOk s := by
  obtain ⟨q, l, ds, h, -⟩ := h
  refine ⟨⟨l, h.clients.list, h.clients.list.nodup, fun p => ?_, h.clients.sorted,
    registry_eq h.clients⟩, h.clients.unique, fun t cli before after hn => h.notes _ hn⟩
  rw [h.clients.mem, Server.objects, Option.isSome_map]

include hs in
/-- **The client list** is finite and without cycles, sorted by id, and has no two clients of one id and
type, in every run; and the expiry of a client's timer takes that client and no other. -/
theorem run_registry (evs : List Event) : Res.Safe ListOk (s.run evs) :=
  (run_good evs (create_good hs)).mono fun _ h => h.listOk

theorem run_registry_device : ∃ s s', radmsrvCreate .initZero 1 (some 3) true [65] = some s ∧
    s.run firstDevice = .ok s' ∧ s'.registry = [(1, ⟨0, ofBuf [66], 6, 5, 1, 2, 1⟩)] ∧ ListOk s' := by
  obtain ⟨s, s', -, -, hs, hrun, hregistry, -⟩ := exists_firstDevice
  exact ⟨s, s', hs, hrun, hregistry, (run_registry hs firstDevice).of_ok hrun⟩

/-! ## Sockets and cipher states -/

/-- Every open descriptor and live cipher state has one owner among the connections, the clients and the
`struct fwd`s (and the standard input and the server's socket); a client's socket is registered as long
as the connection of a device waits there. -/
structure OwnersOk (s : Server) : Prop where
  fds : Owned (Sum.elim s.fdOf (fwdFd s.proc.fwds)) fun fd => s.proc.opened fd = true
  rc4s : Owned (Sum.elim s.rc4Of (fwdRc4 s.proc.fwds)) fun x => (s.proc.rc4 x).isSome = true
  clients : ∃ l, IsList s.next s.clients l ∧ ∀ p, p ∈ l ↔ (s.clis p).isSome = true
  waiting : ∀ x c, s.clis x = some c →
    (s.proc.poll.Has (c.lSock, x, .radmcliAccept) ↔ c.rSock > 0 ∧ c.rc4Dec ≠ 0)
  forward : ∀ x, s.proc.registered x .radmcliAccept = true → ∃ c, s.clis x = some c ∧
    s.proc.opened c.rSock = true ∧ (s.proc.rc4 c.rc4Dec).isSome = true

theorem Good.ownersOk (h : Good s) : OwnersOk s := by
  have hlist := h.listOk.list
  obtain ⟨q, l, ds, h, -⟩ := h
  refine ⟨h.proc.fds, h.proc.rc4s, ?_, fun x c hc => ?_, fun x hr => ?_⟩
  · obtain ⟨l, hl, -, hmem, -⟩ := hlist
    exact ⟨l, hl, hmem⟩
  · obtain ⟨-, -, -, hkey⟩ := slots_of_cli hc
    rw [h.proc.has]
    refine ⟨?_, ?_⟩
    · rintro (⟨a, ha⟩ | ⟨q', f, d, -, hk⟩)
      · rw [keyOf_listen ha rfl, hkey] at ha
        split at ha
        · assumption
        · cases ha
      · have hside := (wantKey_side q' f d).2
        rw [← hk] at hside
        cases hside
    · intro hw
      exact .inl ⟨.listen x, by rw [hkey, if_pos (show c.Waiting from hw)]⟩
  · obtain ⟨c, hc, hw⟩ := registered_client h hr
    obtain ⟨-, hfd, hrc, -⟩ := slots_of_cli hc
    rw [if_pos hw.1] at hfd
    rw [if_pos hw.2] at hrc
    exact ⟨c, hc, (h.proc.opened_of (a := Slot.device x) hfd).1,
      h.proc.rc4s.live_of (a := Sum.inl (Slot.device x)) hrc⟩

include hs in
/-- **Sockets and cipher states** have one owner each in every run, whatever the system answers: none is
closed or freed twice, and none is left without an owner. -/
theorem run_owners (evs : List Event) : Res.Safe OwnersOk (s.run evs) :=
  (run_good evs (create_good hs)).mono fun _ h => h.ownersOk

theorem run_owners_user : ∃ s s', radmsrvCreate .initZero 1 (some 3) true [65] = some s ∧
    s.run (firstDevice ++ [.ctl (.white (ofBuf (bytesOf "7.0.0.0"))), firstUser]) = .ok s' ∧
    s'.proc.fwds 21 = some (newFwd 5 8 20 2) ∧ OwnersOk s' := by
  obtain ⟨s, -, s', -, hs, -, -, -, hrun, hfwd, -⟩ := exists_firstDevice
  exact ⟨s, s', hs, hrun, hfwd, (run_owners hs _).of_ok hrun⟩

/-! ## Users -/

end

end Radmsrv
