import GoipRemote.Radmcli.RadmcKeeps
import GoipRemote.Tunnel.RoundTrip
import GoipRemote.Tunnel.Session

/-!
# The invariant of a session

`Introduced` is the server's end before a user connects: it is reading the handshake, or has done with
the connection, and then a client that has it has the cipher state for what comes next. `Consistent`
holds at every moment of a session: each of the two texts is on its `Way`.
-/

namespace Tunnel

open Utils Relay Function CString Radmcli Radmsrv

/-- The state of both ciphers from the device to the server once the handshake has passed. -/
def greeted (rc : Radmc) : Rc4State := rc4Advance (handshake rc).length (rc4Setup rc.rc4Key)

/-- The server's end before a user connects (module doc). `chan` is under way to it. -/
inductive Introduced (rc : Radmc) (s : Server) (conn : Ptr) (sock : Int) (chan : List UInt8) : Prop where
  | reading (c : Radmconn) (got : List UInt8) (hc : s.conns conn = some c) (hsock : c.sock = sock)
      (hrc4 : s.proc.rc4 c.rc4Dec = some (rc4Advance got.length (rc4Setup rc.rc4Key)))
      (hbuf : c.buf = (rc4Crypt (rc4Setup rc.rc4Key) got).1)
      (hall : (rc4Crypt (rc4Setup rc.rc4Key) (got ++ chan)).1 = handshake rc)
  | done (hconns : s.conns conn = none)
      (hclient : ∀ y k, s.objects y = some k → k.rSock = sock →
        chan = [] ∧ s.proc.rc4 k.rc4Dec = some (greeted rc))

section
variable {rc : Radmc} {s s' : Server} {q : Queue} {l ds : List Ptr} {conn : Ptr} {sock : Int}
  {chan : List UInt8}

/-- A part of the handshake that ends in its end is all of it. -/
theorem eq_handshake {buf : List UInt8} (hid : 10 ∉ rc.id) (h : buf <+: handshake rc)
    (hlast : buf.getLast? = some 10) : buf = handshake rc := by
  rw [handshake_eq] at h ⊢
  refine (List.prefix_concat_iff.1 h).resolve_right fun hline => ?_
  have hmem := hline.subset (List.mem_of_getLast? hlast)
  cases List.mem_append.1 hmem with
  | inl hname => exact typeName_ne_newline (kind_cases rc) 10 hname rfl
  | inr hmem => exact hid hmem

/-- Nobody calls `radmsrv_conn_callback` for a connection that is gone. -/
theorem step_conn_none (hinv : Radmsrv.Inv s q l ds nobody nobody) (hconns : s.conns conn = none)
    {i : ConnIn} (hr : s.step (.conn conn i) = .ok s') : s' = s := by
  have hno : s.proc.registered conn .radmsrvConn ≠ true := by
    intro hreg
    obtain ⟨c, hc⟩ := registered_conn hinv hreg
    rw [hconns] at hc
    cases hc
  rw [Server.step, if_neg hno] at hr
  cases hr
  rfl

/-- **`radmsrv_conn_callback`**, of which the session has sent nothing but the handshake. -/
theorem Introduced.line (h : Introduced rc s conn sock chan) (hinv : Radmsrv.Inv s q l ds nobody nobody)
    (hid : 10 ∉ rc.id) {i : ConnIn} (hrecv : ∀ all, i.recv = some all → all <+: chan)
    (hr : s.step (.conn conn i) = .ok s') :
    Introduced rc s' conn sock (chan.drop (received s.proc s'.proc sock)) ∧
      s'.proc.sent sock = s.proc.sent sock ∧ s'.rc4Key = s.rc4Key := by
  have hsame : received s.proc s.proc sock = 0 := Nat.sub_self _
  cases h with
  | done hconns hclient =>
    rw [step_conn_none hinv hconns hr, hsame]
    exact ⟨.done hconns hclient, rfl, rfl⟩
  | reading c got hc hsock hrc4 hbuf hall =>
    rw [Server.step] at hr
    split at hr
    swap
    · cases hr
      rw [hsame]
      exact ⟨.reading c got hc hsock hrc4 hbuf hall, rfl, rfl⟩
    subst hsock
    set k := rc4Setup rc.rc4Key with hk
    rcases radmsrvConnCallback_cases hinv hc hrc4 hr with herr | ⟨all, bytes, hall', hbytes, hcase⟩
    · -- the connection is closed
      have hset := connErrExit_settled hinv hc herr
      refine ⟨.done hset.conns fun y d hd heq => ?_, hset.sent, hset.key⟩
      obtain ⟨_, _, _, _, _, _, hs'⟩ := connErrExit_eq_ok herr
      rw [hs'] at hd
      exact absurd heq (hinv.rSock_ne hc hd)
    have htook : bytes ++ chan.drop bytes.length = chan :=
      List.prefix_iff_eq_append.1 (hbytes.trans (hrecv all hall'))
    have hbuf' : c.buf ++ (rc4Crypt (rc4Advance got.length k) bytes).1 = (rc4Crypt k (got ++ bytes)).1 := by
      rw [hbuf, rc4Crypt_append]
    have hstate : (rc4Crypt (rc4Advance got.length k) bytes).2 = rc4Advance (got ++ bytes).length k := by
      rw [rc4Crypt_snd, List.length_append, rc4Advance_add]
    have hrest : (rc4Crypt k (got ++ bytes ++ chan.drop bytes.length)).1 = handshake rc := by
      rw [List.append_assoc, htook, hall]
    have hgets := gets_rc4 s conn c (rc4Advance got.length k) bytes
    rw [hstate] at hgets
    have hrcvd : (s.gets conn c (rc4Advance got.length k) bytes).proc.rcvd c.sock =
        s.proc.rcvd c.sock ++ bytes := update_self ..
    dsimp only at hcase
    rw [hbuf'] at hcase
    cases hcase with
    | inl hmore =>
      obtain ⟨-, rfl⟩ := hmore
      rw [received_eq hrcvd]
      exact ⟨.reading _ (got ++ bytes) (gets_conns s conn c _ bytes) rfl hgets hbuf' hrest, rfl, rfl⟩
    | inr hend =>
      obtain ⟨hlast, hset⟩ := hend
      rw [received_eq (hset.rcvd.trans hrcvd)]
      have hwhole : (rc4Crypt k (got ++ bytes)).1 = handshake rc := by
        refine eq_handshake hid ?_ hlast
        rw [← hrest]
        exact rc4Crypt_isPrefix k (List.prefix_append _ _)
      have hlen : (got ++ bytes).length = (handshake rc).length := by
        rw [← hwhole, rc4Crypt_length]
      refine ⟨.done hset.conns fun y d hd heq => ⟨?_, ?_⟩, hset.sent, hset.key⟩
      · have hboth := congrArg List.length hrest
        rw [rc4Crypt_length, List.length_append, hlen] at hboth
        exact List.eq_nil_of_length_eq_zero (by omega)
      · obtain ⟨hdec, hsame'⟩ := hset.client y d hd heq
        rw [hdec, hsame', hgets, hlen]
        rfl

/-- The session's connection is in use as long as a client has it. -/
theorem client_opened (hinv : Radmsrv.Inv s q l ds nobody nobody) {cli : Ptr} {c : Radmsrv.Radmcli}
    (hc : s.clis cli = some c) (hw : c.Waiting) : s.proc.opened c.rSock = true := by
  obtain ⟨-, hdevice, -, -⟩ := slots_of_cli hc
  rw [if_pos hw.1] at hdevice
  exact (hinv.proc.opened_of (a := Radmsrv.Slot.device cli) hdevice).1

/-- **`radmcli_accept_callback`** of the client that has the session's connection. -/
theorem Introduced.connect (h : Introduced rc s conn sock chan) (hinv : Radmsrv.Inv s q l ds nobody nobody)
    (hkey : s.rc4Key = rc.rc4Key) {cli : Ptr} (hcli : (s.clis cli).map Radmcli.rSock = some sock)
    {i : UserIn} (hr : s.step (.user cli i) = .ok s') :
    s'.rc4Key = s.rc4Key ∧
      (Introduced rc s' conn sock chan ∧ s'.proc.rcvd sock = s.proc.rcvd sock ∧
          s'.proc.sent sock = s.proc.sent sock ∧ s'.proc.fwds = s.proc.fwds ∨
        chan = [] ∧ s'.conns conn = none ∧ ∃ psock, i.accept = some psock ∧
          Joined s.proc s'.proc i.fwd sock psock (rc4Setup rc.rc4Key) (greeted rc)) := by
  obtain ⟨c, hc, rfl⟩ := Option.map_eq_some_iff.1 hcli
  cases h with
  | reading c' got hc' hsock => exact (hinv.rSock_ne hc' (clis_some hc) hsock.symm).elim
  | done hconns hclient =>
    obtain ⟨hchan, hdec⟩ := hclient cli c.view (clis_some hc) rfl
    have hsame : s' = s → Introduced rc s' conn c.rSock chan ∧
        s'.proc.rcvd c.rSock = s.proc.rcvd c.rSock ∧ s'.proc.sent c.rSock = s.proc.sent c.rSock ∧
        s'.proc.fwds = s.proc.fwds := by
      intro hs
      rw [hs]
      exact ⟨.done hconns hclient, rfl, rfl, rfl⟩
    rw [Server.step] at hr
    split at hr
    swap
    · cases hr
      exact ⟨rfl, .inl (hsame rfl)⟩
    obtain ⟨c₁, hc₁, hw⟩ := registered_client hinv ‹_›
    obtain rfl := Option.some.inj (hc.symm.trans hc₁)
    have hopened := client_opened hinv hc hw
    rcases radmcliAcceptCallback_ok hinv hc hw i with
      ⟨hrun | hrun, -⟩ | ⟨psock, p, clis, s₁, hrun, hs₁, hi, -, hfwd | hrefused⟩
    · rw [hrun] at hr
      cases hr
    · rw [hrun] at hr
      cases hr
      exact ⟨rfl, .inl (hsame rfl)⟩
    · -- the user gets the device
      obtain rfl := Res.ok.inj (hrun.symm.trans hr)
      obtain ⟨-, hf⟩ := hfwd
      have hne : c.rSock ≠ psock := by
        intro hps
        have hclosed := hf.closed
        rw [← hps, hopened] at hclosed
        cases hclosed
      have hdec' : c.rc4Dec ≠ i.rc4 := by
        intro hd
        have hfree := hf.free
        rw [← hd, show s.proc.rc4 c.rc4Dec = _ from hdec] at hfree
        cases hfree
      refine ⟨by rw [hs₁], .inr ⟨hchan, by rw [hs₁]; exact hconns, psock, hi, hf.fresh, ?_, ?_, ?_, ?_⟩⟩
      · refine ⟨i.rc4, c.rc4Dec, ?_, ?_, ?_⟩
        · rw [hf.fwds, update_self]
        · rw [hf.rc4, update_self, hkey]
        · rw [hf.rc4, update_of_ne hdec']
          exact hdec
      · rw [hf.rcvd, update_of_ne hne]
      · rw [hf.sent, update_of_ne hne]
      · rw [hf.sent, update_self]
    · -- nobody from this address may connect
      obtain rfl := Res.ok.inj (hrun.symm.trans hr)
      obtain ⟨-, hf⟩ := hrefused
      refine ⟨by rw [hs₁], .inl ⟨.done (by rw [hs₁]; exact hconns) fun y k hk heq => ?_,
        hf.rcvd _ hopened, hf.sent _ hopened, hf.fwds⟩⟩
      rw [hf.rc4]
      refine hclient y k ?_ heq
      unfold Server.objects at hk ⊢
      rw [← hf.clis]
      exact hk

end

/-! ## Both ends -/

/-- What holds at every moment of a session (module doc). -/
structure Consistent (rc : Radmc) (s : Session) : Prop where
  server : Good s.server
  key : s.server.rc4Key = rc.rc4Key
  device : s.device.Kept
  waiting : s.user = .waiting →
    s.toDevice = [] ∧ s.service.Away ∧ Introduced rc s.server s.conn s.ssock s.toServer
  joined : ∀ q fd, s.user = .joined q fd → s.server.conns s.conn = none ∧ Ends s.server.proc q s.ssock fd
  ne_lost : s.user ≠ .lost
  unattached : s.service = .waiting → s.device.radmcs s.radmc = some rc ∧ s.dsock = rc.sock
  attached : ∀ q fd, s.service = .joined q fd → Ends s.device.proc q s.dsock fd
  down : ∃ got out got', Way (rc4Setup rc.rc4Key) s.userSent s.userQueue s.server.proc s.user
    s.toDevice s.device.proc s.service (s.service.output s.device.proc) got out got'
  up : ∃ got out got', Way (greeted rc) s.serviceSent s.serviceQueue s.device.proc s.service
    (s.user.channel s.toServer) s.server.proc s.user (s.user.output s.server.proc) got out got'

section
variable {rc : Radmc} {s s' : Session} {server : Server} {device : Device} {q : Ptr} {fd : Int}

theorem away_of_waiting {stage : Stage} (h : stage = .waiting) : stage.Away := by
  intro q fd hj
  rw [h] at hj
  cases hj

/-- The server's process changes before a user connects. -/
theorem Consistent.setServer (h : Consistent rc s) (hu : s.user = .waiting) {chan : List UInt8}
    (hgood : Good server) (hkey : server.rc4Key = rc.rc4Key)
    (hintro : Introduced rc server s.conn s.ssock chan) :
    Consistent rc { s with server := server, toServer := chan } := by
  have haway := away_of_waiting hu
  obtain ⟨htoDevice, hservice, -⟩ := h.waiting hu
  obtain ⟨got, out, got', hdown⟩ := h.down
  obtain ⟨got₁, out₁, got₁', hup⟩ := h.up
  rw [haway.channel_eq, haway.output_eq] at hup
  exact { h with
    server := hgood
    key := hkey
    waiting := fun _ => ⟨htoDevice, hservice, hintro⟩
    joined := fun q fd hj => absurd hj (haway q fd)
    down := ⟨got, out, got', hdown.setSource (hdown.source.away haway) haway.not_released⟩
    up := by
      refine ⟨got₁, out₁, got₁', ?_⟩
      show Way _ _ _ _ _ (s.user.channel chan) server.proc s.user (s.user.output server.proc) _ _ _
      rw [haway.channel_eq, haway.output_eq]
      exact hup.setSink (hup.sink.away haway) haway.not_released }

/-- A user connects. -/
theorem Consistent.connect (h : Consistent rc s) (hu : s.user = .waiting) (hgood : Good server)
    (hkey : server.rc4Key = rc.rc4Key) (hchan : s.toServer = []) (hconns : server.conns s.conn = none)
    (hj : Joined s.server.proc server.proc q s.ssock fd (rc4Setup rc.rc4Key) (greeted rc)) :
    Consistent rc { s with server := server, user := .joined q fd } := by
  have haway := away_of_waiting hu
  obtain ⟨got, out, got', hdown⟩ := h.down
  obtain ⟨got₁, out₁, got₁', hup⟩ := h.up
  rw [haway.channel_eq, haway.output_eq] at hup
  obtain ⟨rfl, rfl⟩ := hdown.source.eq_nil haway
  obtain ⟨rfl, -⟩ := hup.sink.eq_nil haway
  exact { h with
    server := hgood
    key := hkey
    waiting := fun hw => nomatch hw
    joined := fun q fd hq => by
      cases hq
      exact ⟨hconns, hj.ends⟩
    ne_lost := fun hl => nomatch hl
    down := ⟨[], [], got', hdown.setSource hj.source haway.not_released⟩
    up := by
      refine ⟨got₁, out₁, [], ?_⟩
      show Way _ _ _ _ _ s.toServer server.proc (.joined q fd) (server.proc.sent fd) _ _ _
      rw [hchan, hj.output]
      exact hup.setSink hj.sink haway.not_released }

/-- The device attaches its local socket. -/
theorem Consistent.attach (h : Consistent rc s) (hs : s.service = .waiting) (hu : s.user ≠ .waiting)
    (hkept : device.Kept)
    (hj : Joined s.device.proc device.proc q s.dsock fd (greeted rc) (rc4Setup rc.rc4Key)) :
    Consistent rc { s with device := device, service := .joined q fd } := by
  have haway := away_of_waiting hs
  obtain ⟨got, out, got', hdown⟩ := h.down
  obtain ⟨got₁, out₁, got₁', hup⟩ := h.up
  rw [haway.output_eq] at hdown
  obtain ⟨rfl, -⟩ := hdown.sink.eq_nil haway
  obtain ⟨rfl, rfl⟩ := hup.source.eq_nil haway
  exact { h with
    device := hkept
    waiting := fun hw => absurd hw hu
    unattached := fun hw => nomatch hw
    attached := fun q fd hq => by
      cases hq
      exact hj.ends
    down := by
      refine ⟨got, out, [], ?_⟩
      show Way _ _ _ _ _ s.toDevice device.proc (.joined q fd) (device.proc.sent fd) _ _ _
      rw [hj.output]
      exact hdown.setSink hj.sink haway.not_released
    up := ⟨[], [], got₁', hup.setSource hj.source haway.not_released⟩ }

/-- The device gives the connection up. -/
theorem Consistent.giveUp (h : Consistent rc s) (hs : s.service = .waiting) (hkept : device.Kept) :
    Consistent rc { s with device := device, service := .lost } := by
  have haway := away_of_waiting hs
  obtain ⟨got, out, got', hdown⟩ := h.down
  obtain ⟨got₁, out₁, got₁', hup⟩ := h.up
  rw [haway.output_eq] at hdown
  obtain ⟨rfl, -⟩ := hdown.sink.eq_nil haway
  obtain ⟨rfl, rfl⟩ := hup.source.eq_nil haway
  have hlost : Stage.lost.Away := fun q fd hq => nomatch hq
  exact { h with
    device := hkept
    waiting := fun hw => ⟨(h.waiting hw).1, hlost, (h.waiting hw).2.2⟩
    unattached := fun hw => nomatch hw
    attached := fun q fd hq => nomatch hq
    down := ⟨got, out, [], hdown.setSink .lost haway.not_released⟩
    up := ⟨[], [], got₁', hup.setSource .lost haway.not_released⟩ }

/-- A callback of the server's `struct fwd`. -/
theorem Consistent.serverCall (h : Consistent rc s) (hu : s.user = .joined q fd) (hgood : Good server)
    (hsame : server = { s.server with proc := server.proc })
    (hc : Called s.serverQueue q s.server.proc server.proc) : Consistent rc (s.fromServer server) := by
  obtain ⟨hconns, hends⟩ := h.joined q fd hu
  obtain ⟨got, out, got', hdown⟩ := h.down
  obtain ⟨got₁, out₁, got₁', hup⟩ := h.up
  rw [hu] at hdown hup
  obtain ⟨got, out, hdown⟩ := hdown.source_called hends hc rfl
  obtain ⟨got₁', hup⟩ := hup.sink_called hends hc rfl
  exact { h with
    server := hgood
    key := by
      rw [show (s.fromServer server).server = server from rfl, hsame]
      exact h.key
    waiting := fun hw => by
      cases hu.symm.trans hw
    joined := fun q' fd' hq => by
      cases hu.symm.trans hq
      refine ⟨?_, hends.called hc⟩
      rw [show (s.fromServer server).server = server from rfl, hsame]
      exact hconns
    down := by
      refine ⟨got, out, got', ?_⟩
      show Way _ s.userSent (s.user.queue _ _ s.userQueue) server.proc s.user _ _ _ _ _ _ _
      rw [hu]
      exact hdown
    up := by
      refine ⟨got₁, out₁, got₁', ?_⟩
      show Way _ _ _ _ _ (s.user.channel _) server.proc s.user (s.user.output server.proc) _ _ _
      rw [hu]
      exact hup }

/-- There is a user once the device has attached its socket: it had something to attach it for. -/
theorem Consistent.user_joined (h : Consistent rc s) (hu : s.user ≠ .waiting) :
    ∃ q fd, s.user = .joined q fd := by
  cases hs : s.user with
  | waiting => exact absurd hs hu
  | joined q fd => exact ⟨q, fd, rfl⟩
  | lost => exact absurd hs h.ne_lost

/-- A callback of the device's `struct fwd`. -/
theorem Consistent.deviceCall (h : Consistent rc s) (hs : s.service = .joined q fd) (hkept : device.Kept)
    (hc : Called s.deviceQueue q s.device.proc device.proc) : Consistent rc (s.fromDevice device) := by
  have hends := h.attached q fd hs
  have hnot : s.user ≠ .waiting := fun hw => (h.waiting hw).2.1 q fd hs
  obtain ⟨q', fd', hu⟩ := h.user_joined hnot
  obtain ⟨got, out, got', hdown⟩ := h.down
  obtain ⟨got₁, out₁, got₁', hup⟩ := h.up
  rw [hs] at hdown hup
  rw [show s.user.channel s.toServer = s.toServer by rw [hu]; rfl] at hup
  obtain ⟨got', hdown⟩ := hdown.sink_called hends hc rfl
  obtain ⟨got₁, out₁, hup⟩ := hup.source_called hends hc rfl
  exact { h with
    device := hkept
    waiting := fun hw => absurd hw hnot
    unattached := fun hw => by
      cases hs.symm.trans hw
    attached := fun q fd hq => by
      cases hs.symm.trans hq
      exact hends.called hc
    down := by
      refine ⟨got, out, got', ?_⟩
      show Way _ _ _ _ _ _ device.proc s.service (s.service.output device.proc) _ _ _
      rw [hs]
      exact hdown
    up := by
      refine ⟨got₁, out₁, got₁', ?_⟩
      show Way _ s.serviceSent (s.service.queue _ _ s.serviceQueue) device.proc s.service
        (s.user.channel (s.toServer ++ _)) _ _ _ _ _ _
      rw [hs, show ∀ chan, s.user.channel chan = chan from fun chan => by rw [hu]; rfl]
      exact hup }

/-! ## Steps -/

theorem fromServer_self (s : Session) : s.fromServer s.server = s := by
  have hqueue : s.user.queue s.server.proc s.server.proc s.userQueue = s.userQueue := by
    cases s.user with
    | joined q fd =>
      rw [Stage.queue, received, Nat.sub_self]
      rfl
    | _ => rfl
  rw [Session.fromServer, hqueue, received, Nat.sub_self, added, List.drop_length, List.append_nil]
  rfl

theorem fromServer_of_waiting (hu : s.user = .waiting)
    (hsent : server.proc.sent s.ssock = s.server.proc.sent s.ssock) :
    s.fromServer server = { s with
      server := server
      toServer := s.toServer.drop (received s.server.proc server.proc s.ssock) } := by
  have hqueue : Stage.waiting.queue s.server.proc server.proc s.userQueue = s.userQueue := rfl
  rw [Session.fromServer, hu, hqueue, added, hsent, List.drop_length, List.append_nil]

theorem fromDevice_of_waiting (hs : s.service = .waiting)
    (hrcvd : device.proc.rcvd s.dsock = s.device.proc.rcvd s.dsock)
    (hsent : device.proc.sent s.dsock = s.device.proc.sent s.dsock) :
    s.fromDevice device = { s with device := device } := by
  have hqueue : Stage.waiting.queue s.device.proc device.proc s.serviceQueue = s.serviceQueue := rfl
  rw [Session.fromDevice, hs, hqueue, added, hsent, List.drop_length, List.append_nil, received, hrcvd,
    Nat.sub_self]
  rfl

section
variable {p p' : Proc} {sock : Option Int} {otherwise : Stage}

theorem joins_of_eq (h : p'.fwds = p.fwds) : Session.joins p p' q sock otherwise = otherwise := by
  unfold Session.joins
  rw [h]
  cases p.fwds q <;> rfl

theorem Joined.joins {tsock psock : Int} {kp kt : Rc4State} (h : Joined p p' q tsock psock kp kt) :
    Session.joins p p' q (some psock) otherwise = .joined q psock := by
  obtain ⟨enc, dec, hf, -, -⟩ := h.fwd
  unfold Session.joins
  rw [h.fresh, hf]

end

/-- **The step lemma.** -/
theorem step_consistent (hid : 10 ∉ rc.id) (h : Consistent rc s) {ev : Session.Event}
    (hr : s.step ev = .ok s') : Consistent rc s' := by
  cases ev with
  | userSends bytes =>
    cases hr
    obtain ⟨got, out, got', hw⟩ := h.down
    exact { h with down := ⟨got, out, got', hw.more bytes⟩ }
  | serviceSends bytes =>
    cases hr
    obtain ⟨got, out, got', hw⟩ := h.up
    exact { h with up := ⟨got, out, got', hw.more bytes⟩ }
  | line sockerr recv emfile new =>
    obtain ⟨server, hstep, hr⟩ := Res.bind_eq_ok.1 hr
    cases hr
    have hgood := (step_good h.server _).of_ok hstep
    obtain ⟨q, l, ds, hinv, -⟩ := h.server
    by_cases hu : s.user = .waiting
    · obtain ⟨-, -, hintro⟩ := h.waiting hu
      have hrecv : ∀ all, (recv.map fun n => s.toServer.take n) = some all → all <+: s.toServer := by
        intro all hall
        obtain ⟨n, -, rfl⟩ := Option.map_eq_some_iff.1 hall
        exact List.take_prefix n _
      obtain ⟨hintro', hsent, hkey⟩ := hintro.line hinv hid hrecv hstep
      rw [fromServer_of_waiting hu hsent]
      exact h.setServer hu hgood (hkey.trans h.key) hintro'
    · obtain ⟨q', fd, hj⟩ := h.user_joined hu
      rw [step_conn_none hinv (h.joined q' fd hj).1 hstep, fromServer_self]
      exact h
  | connect cli i =>
    rw [Session.step] at hr
    split at hr
    swap
    · cases hr
      exact h
    obtain ⟨hu, hcli⟩ := ‹_ ∧ _›
    obtain ⟨server, hstep, hr⟩ := Res.bind_eq_ok.1 hr
    cases hr
    have hgood := (step_good h.server _).of_ok hstep
    obtain ⟨q, l, ds, hinv, -⟩ := h.server
    obtain ⟨-, -, hintro⟩ := h.waiting hu
    obtain ⟨hkey, ⟨hintro', hrcvd, hsent, hfwds⟩ | ⟨hchan, hconns, psock, hi, hj⟩⟩ :=
      hintro.connect hinv h.key hcli hstep
    · have htaken : received s.server.proc server.proc s.ssock = 0 := by
        rw [received, hrcvd, Nat.sub_self]
      rw [joins_of_eq hfwds, fromServer_of_waiting hu hsent, htaken]
      exact h.setServer hu hgood (hkey.trans h.key) hintro'
    · have htaken : received s.server.proc server.proc s.ssock = 0 := by
        rw [received, hj.rcvd, Nat.sub_self]
      rw [hi, hj.joins, fromServer_of_waiting hu hj.sent, htaken]
      exact h.connect hu hgood (hkey.trans h.key) hchan hconns hj
  | attach i =>
    rw [Session.step] at hr
    split at hr
    swap
    · cases hr
      exact h
    obtain ⟨hs, -⟩ := ‹_ ∧ _›
    obtain ⟨device, hstep, hr⟩ := Res.bind_eq_ok.1 hr
    obtain ⟨hrc, hdsock⟩ := h.unattached hs
    obtain ⟨e, hkeeps⟩ := h.device
    obtain ⟨hkept, hfwds | ⟨psock, hatt⟩⟩ := radmcCallback_keeps hkeeps hrc hstep
    · dsimp only at hr
      rw [joins_of_eq hfwds] at hr
      cases hr
      exact h.giveUp hs hkept
    · -- there was something to read
      have hu : s.user ≠ .waiting := by
        intro hw
        obtain ⟨hpeek, hzero⟩ := hatt.data
        dsimp only at hpeek hzero
        rw [(h.waiting hw).1] at hpeek hzero
        cases hp : i.peek with
        | none =>
          rw [hp] at hpeek
          exact hpeek (.inr rfl)
        | some n =>
          rw [hp] at hzero
          exact hzero rfl
      have hj : Joined s.device.proc device.proc i.fwd s.dsock psock (greeted rc)
          (rc4Setup rc.rc4Key) := by
        rw [hdsock]
        refine ⟨hatt.fresh, ⟨rc.rc4Enc, i.rc4, hatt.fwd, ?_, hatt.dec⟩, hatt.rcvd, hatt.sent, hatt.output⟩
        exact hatt.enc.trans (hkeeps.owns s.radmc rc hrc not_false).2.2.rc4
      dsimp only at hr
      rw [show i.sock = some psock from hatt.psock, hj.joins] at hr
      cases hr
      rw [fromDevice_of_waiting hs hj.rcvd hj.sent]
      exact h.attach hs hu hkept hj
  | server call =>
    rw [Session.step] at hr
    cases hu : s.user with
    | joined q fd =>
      rw [hu] at hr
      obtain ⟨server, hstep, hr⟩ := Res.bind_eq_ok.1 hr
      cases hr
      have hgood := (step_good h.server _).of_ok hstep
      obtain ⟨q', l, ds, hinv, -⟩ := h.server
      obtain ⟨p, hfwd, hp⟩ := Res.bind_eq_ok.1 hstep
      cases hp
      exact h.serverCall hu hgood rfl (fwdCall_called hinv.proc hfwd)
    | _ =>
      rw [hu] at hr
      cases hr
      exact h
  | device call =>
    rw [Session.step] at hr
    cases hs : s.service with
    | joined q fd =>
      rw [hs] at hr
      obtain ⟨device, hstep, hr⟩ := Res.bind_eq_ok.1 hr
      cases hr
      have hkept := step_keeps h.device hstep
      obtain ⟨e, hkeeps⟩ := h.device
      obtain ⟨p, hfwd, hp⟩ := Res.bind_eq_ok.1 hstep
      cases hp
      exact h.deviceCall hs hkept (fwdCall_called hkeeps.proc hfwd)
    | _ =>
      rw [hs] at hr
      cases hr
      exact h

end

end Tunnel
