import GoipRemote.Tunnel.SessionInv

/-!
# What waits can be delivered

An `Open` session has a user and a local service, and all the buffers are empty. Where something waits, the
read callback of its socket passes on up to 512 bytes of it (`Open.serverMoves`, `Open.deviceMoves`), so
that less waits then; after enough of these calls nothing does (`Open.delivers`).
-/

namespace Tunnel

open Utils Relay Function Radmcli Radmsrv

/-! ## One end -/

/-- On the way from `p` to `p'`, `n` bytes went from the socket of the side to that of the other. -/
structure Moved (f : Fwd) (d : Side) (n : Nat) (p p' : Proc) : Prop where
  took : received p p' (f d).sock = n
  gave : (added p p' (f d.other).sock).length = n
  idle : received p p' (f d.other).sock = 0
  kept : added p p' (f d).sock = []

/-- The read callback of a side, for all that fits the buffer. -/
def FwdCall.all (d : Side) : FwdCall := .read d (some 512) (.sent 512)

section
variable {ι : Type} {e : Ext ι} {p p' : Proc} {q : Ptr} {fd : Int} {f : Fwd} {d : Side}

theorem moved_of_relayed (hi : Held e p) (hf : p.fwds q = some f) {bytes taken : List UInt8} {h : Half}
    (hr : Relayed d q f bytes taken h p p') (hlen : taken.length = bytes.length) :
    Moved f d bytes.length p p' := by
  have hne : (f d.other).sock ≠ (f d).sock := fun heq =>
    d.other_ne (Prod.mk.inj (hi.sock_inj hf hf heq)).2
  refine ⟨received_eq (by rw [hr.rcvd, update_self]), ?_, ?_, ?_⟩
  · rw [added_eq (by rw [hr.sent, update_self]), hlen]
  · rw [received, hr.rcvd, update_of_ne hne, Nat.sub_self]
  · rw [added, hr.sent, update_of_ne hne.symm, List.drop_length]

/-- **An end with empty buffers** passes on what waits at a socket of it. -/
theorem fwdCall_all (hi : ProcInv e p) (hd : Drained p (.joined q fd)) {queue : Side → List UInt8}
    (hne : queue d ≠ []) : ∃ f p', p.fwds q = some f ∧ p.fwdStep ((FwdCall.all d).event q queue) = .ok p' ∧
      Moved f d (min 512 (queue d).length) p p' ∧ Drained p' (.joined q fd) := by
  obtain ⟨f, hf, hbuf⟩ := hd q fd rfl
  have hreg : p.registered q d.readCallBack = true := registered_iff.2
    ⟨_, ((hi.flowOk.live q f d hf).read _).2 ⟨rfl, hbuf d, (hi.halves q f d hf).bufpos_eq (hbuf d)⟩⟩
  obtain ⟨k, hk⟩ := hi.rc4_some hf d
  have hsome : (queue d).take 512 ≠ [] := fun hnil =>
    (List.take_eq_nil_iff.1 hnil).elim (by decide) hne
  have hlen : ((queue d).take 512).length ≤ 512 := List.length_take_le ..
  obtain ⟨p', hrun, hr⟩ := fwdStep_read_all hf hreg hk (hbuf d) hsome hlen hlen
  refine ⟨f, p', hf, hrun, ?_, fun q' fd' hj => ?_⟩
  · rw [← List.length_take]
    exact moved_of_relayed hi.toHeld hf hr (rc4Crypt_length k _)
  · cases hj
    refine ⟨_, by rw [hr.fwds, update_self], fun c => ?_⟩
    by_cases hc : c = d
    · rw [hc, update_self]
    · rw [update_of_ne hc]
      exact hbuf c

/-- Less waits then, where `chan` waits for the other end. -/
theorem Moved.less {queue : Side → List UInt8} (h : Moved f d (min 512 (queue d).length) p p')
    (hne : queue d ≠ []) (chan : List UInt8) :
    2 * ((queue .p).drop (received p p' (f .p).sock)).length +
        ((queue .t).drop (received p p' (f .t).sock)).length + (chan ++ added p p' (f .t).sock).length <
      2 * (queue .p).length + (queue .t).length + chan.length := by
  obtain ⟨htook, hgave, hidle, hkept⟩ := h
  have hpos := List.length_pos_of_ne_nil hne
  rw [List.length_drop, List.length_drop, List.length_append]
  cases d with
  | t =>
    change received p p' (f .p).sock = 0 at hidle
    rw [htook, hidle, hkept, List.length_nil]
    omega
  | p =>
    change (added p p' (f .t).sock).length = _ at hgave
    change received p p' (f .t).sock = 0 at hidle
    rw [htook, hidle, hgave]
    omega

end

/-! ## Both ends -/

/-- A session in which a user and the service are joined, and the buffers of both ends are empty. -/
structure Open (rc : Radmc) (s : Session) : Prop where
  consistent : Consistent rc s
  user : ∃ q fd, s.user = .joined q fd
  service : ∃ q fd, s.service = .joined q fd
  server : Drained s.server.proc s.user
  device : Drained s.device.proc s.service

/-- What waits; a byte that has passed one end waits less. -/
def Session.waiting (s : Session) : Nat :=
  2 * s.userQueue.length + 2 * s.serviceQueue.length + s.toServer.length + s.toDevice.length

/-- The session is open still, the same has been sent, and less of it waits. -/
structure Advances (rc : Radmc) (s t : Session) : Prop where
  still : Open rc t
  userSent : t.userSent = s.userSent
  serviceSent : t.serviceSent = s.serviceSent
  less : t.waiting < s.waiting

section
variable {rc : Radmc} {s : Session}

/-- **The server's end** passes on what waits at a socket of it. -/
theorem Open.serverMoves (h : Open rc s) (hid : 10 ∉ rc.id) {d : Side} (hne : s.serverQueue d ≠ []) :
    ∃ t, s.step (.server (.all d)) = .ok t ∧ Advances rc s t := by
  obtain ⟨q, fd, hu⟩ := h.user
  obtain ⟨-, hends⟩ := h.consistent.joined q fd hu
  have hd := h.server
  rw [hu] at hd
  obtain ⟨_, _, _, hinv, -⟩ := h.consistent.server
  obtain ⟨f, p, hf, hrun, hmoved, hdrained⟩ := fwdCall_all hinv.proc hd hne
  obtain ⟨htsock, hfd⟩ := hends f hf
  have hstep := Session.step_server hu hrun
  refine ⟨_, hstep, ⟨step_consistent hid h.consistent hstep, ⟨q, fd, hu⟩, h.service, ?_, h.device⟩, rfl, rfl, ?_⟩
  · show Drained p s.user
    rw [hu]
    exact hdrained
  · have hnext : (s.fromServer { s.server with proc := p }).waiting =
        2 * ((s.serverQueue .p).drop (received s.server.proc p fd)).length + 2 * s.serviceQueue.length +
          ((s.serverQueue .t).drop (received s.server.proc p s.ssock)).length +
          (s.toDevice ++ added s.server.proc p s.ssock).length := by
      unfold Session.waiting Session.fromServer
      rw [hu]
      rfl
    have hless := hmoved.less hne s.toDevice
    rw [htsock, hfd] at hless
    change _ < 2 * s.userQueue.length + s.toServer.length + _ at hless
    rw [hnext, Session.waiting]
    omega

/-- **The device's end** does. -/
theorem Open.deviceMoves (h : Open rc s) (hid : 10 ∉ rc.id) {d : Side} (hne : s.deviceQueue d ≠ []) :
    ∃ t, s.step (.device (.all d)) = .ok t ∧ Advances rc s t := by
  obtain ⟨q, fd, hs⟩ := h.service
  have hends := h.consistent.attached q fd hs
  have hd := h.device
  rw [hs] at hd
  obtain ⟨_, hkeeps⟩ := h.consistent.device
  obtain ⟨f, p, hf, hrun, hmoved, hdrained⟩ := fwdCall_all hkeeps.proc hd hne
  obtain ⟨htsock, hfd⟩ := hends f hf
  have hstep := Session.step_device hs hrun
  refine ⟨_, hstep, ⟨step_consistent hid h.consistent hstep, h.user, ⟨q, fd, hs⟩, h.server, ?_⟩, rfl, rfl, ?_⟩
  · show Drained p s.service
    rw [hs]
    exact hdrained
  · have hnext : (s.fromDevice { s.device with proc := p }).waiting =
        2 * s.userQueue.length + 2 * ((s.deviceQueue .p).drop (received s.device.proc p fd)).length +
          (s.toServer ++ added s.device.proc p s.dsock).length +
          ((s.deviceQueue .t).drop (received s.device.proc p s.dsock)).length := by
      unfold Session.waiting Session.fromDevice
      rw [hs]
      rfl
    have hless := hmoved.less hne s.toServer
    rw [htsock, hfd] at hless
    change _ < 2 * s.serviceQueue.length + s.toDevice.length + _ at hless
    rw [hnext, Session.waiting]
    omega

/-- Where something waits, a callback passes it on. -/
theorem Open.advances (h : Open rc s) (hid : 10 ∉ rc.id) :
    s.Quiet ∨ ∃ ev t, s.step ev = .ok t ∧ Advances rc s t := by
  by_cases huser : s.userQueue = []
  swap
  · exact .inr ⟨_, h.serverMoves hid (d := .p) huser⟩
  by_cases hservice : s.serviceQueue = []
  swap
  · exact .inr ⟨_, h.deviceMoves hid (d := .p) hservice⟩
  by_cases htoServer : s.toServer = []
  swap
  · exact .inr ⟨_, h.serverMoves hid (d := .t) htoServer⟩
  by_cases htoDevice : s.toDevice = []
  swap
  · exact .inr ⟨_, h.deviceMoves hid (d := .t) htoDevice⟩
  exact .inl ⟨h.server, h.device, htoServer, htoDevice, huser, hservice⟩

/-- **What waits can be delivered**: some calls of the read callbacks bring the session to rest. -/
theorem Open.delivers (h : Open rc s) (hid : 10 ∉ rc.id) : ∃ evs t, Runs.run Session.step evs s = .ok t ∧
    t.Quiet ∧ t.userSent = s.userSent ∧ t.serviceSent = s.serviceSent := by
  induction hn : s.waiting using Nat.strong_induction_on generalizing s with
  | _ n ih =>
    rcases h.advances hid with hquiet | ⟨ev, t, hstep, hadv⟩
    · exact ⟨[], s, rfl, hquiet, rfl, rfl⟩
    · obtain ⟨evs, t', hrun, hquiet, huser, hservice⟩ := ih t.waiting (hn ▸ hadv.less) hadv.still rfl
      refine ⟨ev :: evs, t', ?_, hquiet, huser.trans hadv.userSent, hservice.trans hadv.serviceSent⟩
      rw [Runs.run, hstep]
      exact hrun

end

end Tunnel
