import GoipRemote.Tunnel.Delivery

/-!
# The tunnel is transparent

`transparent`: in every run of a session, what the user and the local service are given is the beginning
of what the other one has sent, and all of it when nothing is under way. While both are joined it can be
brought to that (`Open.delivered`). The line of the device is the only one in what it sends first: an id
with a newline ends it too early.
-/

namespace Tunnel

open Utils Relay Function CString Radmcli Radmsrv

section
variable {rc : Radmc} {d : Device} {s s₁ : Server} {radmc x : Ptr} {c : Radmconn} {i : AcceptIn}

/-- A session starts with the handshake under way. -/
theorem start_consistent (hd : d.Kept) (hrc : d.radmcs radmc = some rc) (hs : Good s)
    (hx : s.conns x = none) (haccept : s.step (.accept i) = .ok s₁) (hc : s₁.conns x = some c)
    (hkey : s₁.rc4Key = rc.rc4Key) : Consistent rc (.start s₁ d x radmc c rc) := by
  obtain ⟨hbuf, hrc4⟩ := accept_conn hs hx haccept hc
  have hsent : d.proc.sent rc.sock = (rc4Crypt (rc4Setup rc.rc4Key) (handshake rc)).1 := by
    obtain ⟨e, hkeeps⟩ := hd
    exact (hkeeps.owns radmc rc hrc not_false).2.2.sent
  rw [hkey] at hrc4
  have hnothing : ∀ k p₁ p₂, Way k [] [] p₁ .waiting [] p₂ .waiting [] [] [] [] := fun k p₁ p₂ =>
    ⟨List.nil_prefix, fun _ => rfl, .waiting, List.nil_prefix, fun _ => rfl, .waiting⟩
  exact {
    server := (step_good hs _).of_ok haccept
    key := hkey
    device := hd
    waiting := fun _ => by
      refine ⟨rfl, away_of_waiting rfl, .reading c [] hc rfl hrc4 hbuf ?_⟩
      show (rc4Crypt _ (d.proc.sent rc.sock)).1 = _
      rw [hsent, rc4Crypt_rc4Crypt]
    joined := fun q fd hj => nomatch hj
    ne_lost := fun hl => nomatch hl
    unattached := fun _ => ⟨hrc, rfl⟩
    attached := fun q fd hj => nomatch hj
    down := ⟨[], [], [], hnothing _ _ _⟩
    up := ⟨[], [], [], hnothing _ _ _⟩ }

/-- **The run lemma.** -/
theorem run_consistent (hid : 10 ∉ rc.id) {evs : List Session.Event} {t t' : Session}
    (h : Consistent rc t) (hr : Runs.run Session.step evs t = .ok t') : Consistent rc t' := by
  induction evs generalizing t with
  | nil =>
    cases hr
    exact h
  | cons ev evs ih =>
    obtain ⟨t₁, hstep, hr⟩ := Res.bind_eq_ok.1 hr
    exact ih (step_consistent hid h hstep) hr

/-- What was given to the two is what a text makes on its way. -/
theorem Consistent.outputs {t : Session} (h : Consistent rc t) :
    t.toUser <+: t.serviceSent ∧ t.toService <+: t.userSent ∧
      (t.Quiet → t.toUser = t.serviceSent ∧ t.toService = t.userSent) := by
  obtain ⟨got, out, got', hdown⟩ := h.down
  obtain ⟨got₁, out₁, got₁', hup⟩ := h.up
  refine ⟨hup.output_isPrefix, hdown.output_isPrefix, fun hq => ⟨?_, ?_⟩⟩
  · apply hup.output_eq hq.device hq.server hq.serviceQueue
    rw [hq.toServer]
    cases t.user <;> rfl
  · exact hdown.output_eq hq.server hq.device hq.userQueue hq.toDevice

/-- **Whatever has been sent** in an open session can be delivered. -/
theorem Open.delivered {s : Session} (h : Open rc s) (hid : 10 ∉ rc.id) : ∃ evs t,
    Runs.run Session.step evs s = .ok t ∧ t.Quiet ∧ t.toUser = s.serviceSent ∧ t.toService = s.userSent := by
  obtain ⟨evs, t, hrun, hquiet, huser, hservice⟩ := h.delivers hid
  obtain ⟨-, -, hall⟩ := (run_consistent hid h.consistent hrun).outputs
  obtain ⟨htoUser, htoService⟩ := hall hquiet
  exact ⟨evs, t, hrun, hquiet, htoUser.trans hservice, htoService.trans huser⟩

end

/-- **Transparency.** The device has connected, after any run, and the server has accepted, after any
run; then whatever happens in the session. -/
theorem transparent {clock : Nat → Timeval} {pfdList : Nat → Pollfd}
    {pfdCallBacks : Nat → PfdCallBack Ptr CallBack} {key id : List UInt8} {timeout : Int}
    {http telnet : Option Create} {d₀ d : Device} {devs : List Radmcli.Event}
    (hd₀ : radmcsCreate (.init clock pfdList pfdCallBacks) key id timeout http telnet = .ok d₀)
    (hd : d₀.run devs = .ok d) {radmc : Ptr} {rc : Radmc} (hrc : d.radmcs radmc = some rc)
    (hid : 10 ∉ rc.id)
    {sclock : Nat → Timeval} {spfdList : Nat → Pollfd} {spfdCallBacks : Nat → PfdCallBack Ptr CallBack}
    {whiteListIp : CString} {portMin portMax getPort : UInt16} {srv : Ptr} {sock : Option Int}
    {listening : Bool} {skey : List UInt8} {s₀ s s₁ : Server} {sevs : List Radmsrv.Event}
    (hs₀ : radmsrvCreate (.init sclock spfdList spfdCallBacks whiteListIp portMin portMax getPort) srv
      sock listening skey = some s₀)
    (hs : s₀.run sevs = .ok s) {x : Ptr} {c : Radmconn} {i : AcceptIn} (hx : s.conns x = none)
    (haccept : s.step (.accept i) = .ok s₁) (hc : s₁.conns x = some c) (hkey : s₁.rc4Key = rc.rc4Key)
    {evs : List Session.Event} {t : Session}
    (ht : Runs.run Session.step evs (.start s₁ d x radmc c rc) = .ok t) :
    t.toUser <+: t.serviceSent ∧ t.toService <+: t.userSent ∧
      (t.Quiet → t.toUser = t.serviceSent ∧ t.toService = t.userSent) := by
  have hkept : d.Kept := run_keeps (radmcsCreate_keeps (init_keeps _ _ _) hd₀) hd
  have hgood : Good s := (run_good sevs (create_good hs₀)).of_ok hs
  exact (run_consistent hid (start_consistent hkept hrc hgood hx haccept hc hkey) ht).outputs

/-- A server that has accepted the connection of a device with the same key. -/
theorem exists_server {id : List UInt8} {c : Create} {rc : Radmc} {d : Device}
    (hd : radmcsCreate .initZero [65] id 0 (some c) none = .ok d) (hrc : d.radmcs 1 = some rc)
    (hkey : rc.rc4Key = [65]) : ∃ s₀ s s₁ k,
    radmsrvCreate .initZero 1 (some 3) true [65] = some s₀ ∧
    s₀.run [.ctl (.white (ofBuf (bytesOf "7.0.0.0")))] = .ok s ∧ s.conns 1 = none ∧
    s.step (.accept ⟨some 5, false, 1, 2⟩) = .ok s₁ ∧ s₁.conns 1 = some ⟨[], 5, 2⟩ ∧ s₁.rc4Key = [65] ∧
    s₁.proc.registered 1 .radmsrvConn = true ∧ s₁.proc.rc4 2 = some k ∧
    d.proc.sent rc.sock = (rc4Crypt k (handshake rc)).1 := by
  obtain ⟨s₀, hs₀⟩ : ∃ s, radmsrvCreate .initZero 1 (some 3) true [65] = some s := ⟨_, rfl⟩
  obtain ⟨s, hs, hx⟩ : ∃ s, s₀.run [.ctl (.white (ofBuf (bytesOf "7.0.0.0")))] = .ok s ∧
      s.conns 1 = none := by
    cases hs₀
    exact ⟨_, rfl, rfl⟩
  obtain ⟨s₁, hs₁⟩ : ∃ s₁, s.step (.accept ⟨some 5, false, 1, 2⟩) = .ok s₁ := by
    cases hs₀
    cases hs
    exact ⟨_, rfl⟩
  obtain ⟨hc, hkey', hreg, hk⟩ : s₁.conns 1 = some ⟨[], 5, 2⟩ ∧ s₁.rc4Key = [65] ∧
      s₁.proc.registered 1 .radmsrvConn = true ∧ s₁.proc.rc4 2 = some (rc4Setup [65]) := by
    cases hs₀
    cases hs
    cases hs₁
    exact ⟨rfl, rfl, rfl, rfl⟩
  obtain ⟨e, hkeeps⟩ := radmcsCreate_keeps (init_keeps _ _ _) hd
  have hsent := (hkeeps.owns 1 rc hrc not_false).2.2.sent
  rw [hkey] at hsent
  exact ⟨s₀, s, s₁, _, hs₀, hs, hx, hs₁, hc, hkey', hreg, hk, hsent⟩

/-- The server reads a line that the device has sent, and a user connects to its port. What the device has
sent behind the line is under way. -/
theorem exists_connected {c : Create} {rc : Radmc} {d : Device}
    (hd : radmcsCreate .initZero [65] rc.id 0 (some c) none = .ok d) (hrc : d.radmcs 1 = some rc)
    (hkey : rc.rc4Key = [65]) {rest : List UInt8}
    (hrest : handshake rc = typeName 1 ++ (ofBuf [65]).bytes ++ [10] ++ rest) : ∃ s₀ s s₁ s₃ k,
    radmsrvCreate .initZero 1 (some 3) true [65] = some s₀ ∧
    s₀.run [.ctl (.white (ofBuf (bytesOf "7.0.0.0")))] = .ok s ∧ s.conns 1 = none ∧
    s.step (.accept ⟨some 5, false, 1, 2⟩) = .ok s₁ ∧ s₁.conns 1 = some ⟨[], 5, 2⟩ ∧ s₁.rc4Key = [65] ∧
    Runs.run Session.step [.line false (some 10) false firstClient, .connect 1 ⟨some 8, 7, false, 20, 21⟩]
      (.start s₁ d 1 1 ⟨[], 5, 2⟩ rc) = .ok { Session.start s₃ d 1 1 ⟨[], 5, 2⟩ rc with
        user := .joined 21 8, toServer := (rc4Crypt k rest).1 } ∧
    Good s₃ ∧ s₃.proc.fwds 21 = some (newFwd 5 8 20 2) ∧ s₃.proc.rc4 2 = some k := by
  obtain ⟨s₀, s, s₁, k, hs₀, hs, hx, hs₁, hc, hkey', hreg, hk, hsent⟩ := exists_server hd hrc hkey
  rw [hrest, rc4Crypt_append] at hsent
  have hline := radmsrvConnCallback_line hc hk (ofBuf [65]) (by decide) (.inl rfl) false firstClient
  have hlen : (rc4Crypt k (typeName 1 ++ (ofBuf [65]).bytes ++ [10])).1.length = 10 := rc4Crypt_length k _
  generalize hbytes : (rc4Crypt k (typeName 1 ++ (ofBuf [65]).bytes ++ [10])).1 = bytes at hsent hlen
  simp only [hbytes] at hline
  obtain ⟨s₂, hs₂⟩ : ∃ s₂, radmsrvConnCallback s₁ 1 ⟨false, some bytes, false, firstClient⟩ = .ok s₂ := by
    rw [hline]
    cases hs₀
    cases hs
    cases hs₁
    exact ⟨_, rfl⟩
  rw [hline] at hs₂
  obtain ⟨hrcvd, hsent₂, hcli, hnone⟩ : s₂.proc.rcvd 5 = s₁.proc.rcvd 5 ++ bytes ∧
      s₂.proc.sent 5 = s₁.proc.sent 5 ∧ (s₂.clis 1).map Radmcli.rSock = some 5 ∧
      s₂.proc.fwds 21 = none := by
    cases hs₀
    cases hs
    cases hs₁
    cases hs₂
    exact ⟨rfl, rfl, rfl, rfl⟩
  obtain ⟨s₃, hs₃⟩ : ∃ s₃, s₂.step (.user 1 ⟨some 8, 7, false, 20, 21⟩) = .ok s₃ := by
    cases hs₀
    cases hs
    cases hs₁
    cases hs₂
    exact ⟨_, rfl⟩
  obtain ⟨hrcvd', hsent₃, hsome, hrc4⟩ : s₃.proc.rcvd 5 = s₂.proc.rcvd 5 ∧
      s₃.proc.sent 5 = s₂.proc.sent 5 ∧ s₃.proc.fwds 21 = some (newFwd 5 8 20 2) ∧
      s₃.proc.rc4 2 = some (rc4Crypt k bytes).2 := by
    cases hs₀
    cases hs
    cases hs₁
    cases hs₂
    cases hs₃
    exact ⟨rfl, rfl, rfl, rfl⟩
  have hs₂ : s₁.step (.conn 1 ⟨false, some bytes, false, firstClient⟩) = .ok s₂ := by
    rw [Server.step, if_pos hreg, hline, hs₂]
  have hgood : Good s₃ := (step_good ((step_good ((step_good ((run_good _ (create_good hs₀)).of_ok hs)
    _).of_ok hs₁) _).of_ok hs₂) _).of_ok hs₃
  let t₀ : Session := .start s₁ d 1 1 ⟨[], 5, 2⟩ rc
  have hto : t₀.toServer = bytes ++ (rc4Crypt (rc4Advance 10 k) rest).1 := hsent
  let t₁ : Session := { t₀ with server := s₂, toServer := (rc4Crypt (rc4Advance 10 k) rest).1 }
  have ht₁ : t₀.step (.line false (some 10) false firstClient) = .ok t₁ := by
    have htake : t₀.toServer.take 10 = bytes := by rw [hto, ← hlen, List.take_left]
    have hfrom : t₀.fromServer s₂ = t₁ := by
      rw [fromServer_of_waiting rfl hsent₂]
      show { t₀ with server := s₂, toServer := t₀.toServer.drop (received s₁.proc s₂.proc 5) } = _
      rw [received_eq hrcvd, hto, List.drop_left]
    rw [← hfrom]
    refine Session.step_line ?_
    rw [Option.map_some, htake]
    exact hs₂
  have ht₂ : t₁.step (.connect 1 ⟨some 8, 7, false, 20, 21⟩) =
      .ok { t₁ with server := s₃, user := .joined 21 8 } := by
    have hjoins : Session.joins s₂.proc s₃.proc 21 (some 8) .waiting = .joined 21 8 := by
      simp only [Session.joins, hnone, hsome]
    have hfrom : t₁.fromServer s₃ = { t₁ with server := s₃ } := by
      rw [fromServer_of_waiting rfl hsent₃]
      show { t₁ with server := s₃, toServer := t₁.toServer.drop (received s₂.proc s₃.proc 5) } = _
      rw [received, hrcvd', Nat.sub_self]
      rfl
    have hstep := Session.step_connect (s := t₁) rfl hcli hs₃ hjoins
    rw [hfrom] at hstep
    exact hstep
  refine ⟨s₀, s, s₁, s₃, rc4Advance 10 k, hs₀, hs, hx, hs₁, hc, hkey', ?_, hgood, hsome, ?_⟩
  · show (t₀.step _ >>= _) = _
    rw [ht₁, Res.ok_bind, Runs.run, ht₂]
    rfl
  · rw [hrc4, rc4Crypt_snd, hlen]

/-- The device attaches its local service to the connection. -/
theorem exists_attached {d : Device}
    (hd : radmcsCreate .initZero [65] [65] 0 (some ⟨1, 2, ⟨some 5, true, 3, true⟩⟩) none = .ok d) :
    ∃ d', radmcCallback d 1 ⟨false, some 1, some 9, true, 30, 31, ⟨some 6, true, 32, true⟩⟩ = .ok d' ∧
      d.proc.registered 1 .radmc = true ∧ d.proc.fwds 31 = none ∧
      d'.proc.fwds 31 = some (newFwd 5 9 3 30) := by
  cases hd
  exact ⟨_, rfl, rfl, rfl, rfl⟩

/-- A user has sent three bytes and the service one, and both are given them. -/
theorem transparent_line : ∃ d s₀ s s₁ evs t,
    radmcsCreate .initZero [65] [65] 0 (some ⟨1, 2, ⟨some 5, true, 3, true⟩⟩) none = .ok d ∧
    radmsrvCreate .initZero 1 (some 3) true [65] = some s₀ ∧
    s₀.run [.ctl (.white (ofBuf (bytesOf "7.0.0.0")))] = .ok s ∧
    s.step (.accept ⟨some 5, false, 1, 2⟩) = .ok s₁ ∧
    Runs.run Session.step ([.line false (some 10) false firstClient, .connect 1 ⟨some 8, 7, false, 20, 21⟩,
        .userSends [1, 2, 3], .server (.read .p (some 512) (.sent 512)),
        .attach ⟨false, some 1, some 9, true, 30, 31, ⟨some 6, true, 32, true⟩⟩, .serviceSends [4]] ++ evs)
      (.start s₁ d 1 1 ⟨[], 5, 2⟩ ⟨[65], [65], 3, 5, 1, 2⟩) = .ok t ∧
    t.toUser = [4] ∧ t.toService = [1, 2, 3] ∧
    (t.toUser <+: t.serviceSent ∧ t.toService <+: t.userSent ∧
      (t.Quiet → t.toUser = t.serviceSent ∧ t.toService = t.userSent)) := by
  obtain ⟨d, hd, hrc⟩ : ∃ d, radmcsCreate .initZero [65] [65] 0
      (some ⟨1, 2, ⟨some 5, true, 3, true⟩⟩) none = .ok d ∧
      d.radmcs 1 = some ⟨[65], [65], 3, 5, 1, 2⟩ := ⟨_, rfl, rfl⟩
  obtain ⟨s₀, s, s₁, s₃, k, hs₀, hs, hx, hs₁, hc, hkey, hconnected, hgood, hf, -⟩ :=
    @exists_connected _ ⟨[65], [65], 3, 5, 1, 2⟩ d hd hrc rfl [] rfl
  obtain ⟨d', hattach, hreg, hnone, hf'⟩ := exists_attached hd
  -- the server reads what the user has sent
  let t₃ : Session := { Session.start s₃ d 1 1 ⟨[], 5, 2⟩ ⟨[65], [65], 3, 5, 1, 2⟩ with
    user := .joined 21 8, toServer := [], userSent := [1, 2, 3], userQueue := [1, 2, 3] }
  have hdrained : Drained s₃.proc (.joined 21 8) := fun q fd hj => by
    cases hj
    exact ⟨_, hf, fun c => by cases c <;> rfl⟩
  obtain ⟨_, _, _, hinv, -⟩ := hgood
  have hqueue : t₃.serverQueue .p ≠ [] := List.cons_ne_nil 1 [2, 3]
  obtain ⟨f, p, hfwd, hread, hmoved, hdrained'⟩ := fwdCall_all hinv.proc hdrained hqueue
  obtain rfl := Option.some.inj (hf.symm.trans hfwd)
  let t₄ := t₃.fromServer { s₃ with proc := p }
  have ht₄ : t₃.step (.server (.read .p (some 512) (.sent 512))) = .ok t₄ :=
    Session.step_server rfl hread
  -- the device finds something to read
  have hlen : t₄.toDevice.length = 3 := by
    show ([] ++ added s₃.proc p 5).length = 3
    exact hmoved.gave
  let t₅ := { t₄.fromDevice d' with service := .joined 31 9 }
  have ht₅ : t₄.step (.attach ⟨false, some 1, some 9, true, 30, 31, ⟨some 6, true, 32, true⟩⟩) = .ok t₅ := by
    have hjoins : Session.joins d.proc d'.proc 31 (some 9) .lost = .joined 31 9 := by
      simp only [Session.joins, hnone, hf']
    refine Session.step_attach rfl hreg ?_ hjoins
    rw [hlen]
    exact hattach
  let t₆ := { t₅ with serviceSent := [4], serviceQueue := [4] }
  have hrun : Runs.run Session.step [.line false (some 10) false firstClient,
        .connect 1 ⟨some 8, 7, false, 20, 21⟩, .userSends [1, 2, 3], .server (.read .p (some 512) (.sent 512)),
        .attach ⟨false, some 1, some 9, true, 30, 31, ⟨some 6, true, 32, true⟩⟩, .serviceSends [4]]
      (.start s₁ d 1 1 ⟨[], 5, 2⟩ ⟨[65], [65], 3, 5, 1, 2⟩) = .ok t₆ := by
    refine Runs.run_trans hconnected ?_
    show (t₃.step _ >>= _) = _
    rw [ht₄, Res.ok_bind, Runs.run, ht₅]
    rfl
  -- and the session is open
  have hid : 10 ∉ ([65] : List UInt8) := by decide
  have hkept : d.Kept := radmcsCreate_keeps (init_keeps _ _ _) hd
  have hcons : Consistent _ t₆ := run_consistent hid
    (start_consistent hkept hrc ((run_good _ (create_good hs₀)).of_ok hs) hx hs₁ hc hkey) hrun
  have hdevice : Drained d'.proc (.joined 31 9) := fun q fd hj => by
    cases hj
    exact ⟨_, hf', fun c => by cases c <;> rfl⟩
  have hopen : Open _ t₆ := ⟨hcons, ⟨21, 8, rfl⟩, ⟨31, 9, rfl⟩, hdrained', hdevice⟩
  obtain ⟨evs, t, hevs, -, htoUser, htoService⟩ := hopen.delivered hid
  have hall := Runs.run_trans hrun hevs
  exact ⟨d, s₀, s, s₁, evs, t, hd, hs₀, hs, hs₁, hall, htoUser, htoService,
    transparent hd (rfl : d.run [] = .ok d) hrc hid hs₀ hs hx hs₁ hc hkey hall⟩

/-- An id with a newline: the server reads the line up to there, and the user is given the rest. -/
theorem newline_leaks : ∃ d s₀ s s₁ t,
    radmcsCreate .initZero [65] [65, 10, 66] 0 (some ⟨1, 2, ⟨some 5, true, 3, true⟩⟩) none = .ok d ∧
    d.radmcs 1 = some ⟨[65], [65, 10, 66], 3, 5, 1, 2⟩ ∧
    radmsrvCreate .initZero 1 (some 3) true [65] = some s₀ ∧
    s₀.run [.ctl (.white (ofBuf (bytesOf "7.0.0.0")))] = .ok s ∧ s.conns 1 = none ∧
    s.step (.accept ⟨some 5, false, 1, 2⟩) = .ok s₁ ∧ s₁.conns 1 = some ⟨[], 5, 2⟩ ∧ s₁.rc4Key = [65] ∧
    Runs.run Session.step [.line false (some 10) false firstClient,
        .connect 1 ⟨some 8, 7, false, 20, 21⟩, .server (.read .t (some 2) (.sent 2))]
      (.start s₁ d 1 1 ⟨[], 5, 2⟩ ⟨[65], [65, 10, 66], 3, 5, 1, 2⟩) = .ok t ∧
    ¬ t.toUser <+: t.serviceSent := by
  obtain ⟨d, hd, hrc⟩ : ∃ d, radmcsCreate .initZero [65] [65, 10, 66] 0
      (some ⟨1, 2, ⟨some 5, true, 3, true⟩⟩) none = .ok d ∧
      d.radmcs 1 = some ⟨[65], [65, 10, 66], 3, 5, 1, 2⟩ := ⟨_, rfl, rfl⟩
  obtain ⟨s₀, s, s₁, s₃, k, hs₀, hs, hx, hs₁, hc, hkey, hconnected, hgood, hf, hrc4⟩ :=
    @exists_connected _ ⟨[65], [65, 10, 66], 3, 5, 1, 2⟩ d hd hrc rfl [66, 10] rfl
  obtain ⟨b₁, b₂, hb⟩ : ∃ b₁ b₂, (rc4Crypt k [66, 10]).1 = [b₁, b₂] := ⟨_, _, rfl⟩
  rw [hb] at hconnected
  obtain ⟨_, _, _, hinv, -⟩ := hgood
  have hreg : s₃.proc.registered 21 .tsockRead = true :=
    registered_iff.2 ⟨5, ((hinv.proc.flowOk.live 21 _ .t hf).read 5).2 ⟨rfl, rfl, rfl⟩⟩
  obtain ⟨p, hp, hrelayed⟩ := fwdStep_read_all (d := .t) hf hreg hrc4 rfl (List.cons_ne_nil b₁ [b₂])
    (Nat.le_add_left 2 510) (Nat.le_refl 2)
  let t₂ : Session := { Session.start s₃ d 1 1 ⟨[], 5, 2⟩ ⟨[65], [65, 10, 66], 3, 5, 1, 2⟩ with
    user := .joined 21 8, toServer := [b₁, b₂] }
  let t₃ := t₂.fromServer { s₃ with proc := p }
  have ht₃ : t₂.step (.server (.read .t (some 2) (.sent 2))) = .ok t₃ :=
    Session.step_server rfl hp
  refine ⟨d, s₀, s, s₁, t₃, hd, hrc, hs₀, hs, hx, hs₁, hc, hkey, ?_, fun h => ?_⟩
  · refine Runs.run_trans hconnected ?_
    show (t₂.step _ >>= _) = _
    rw [ht₃]
    rfl
  · have hnil : p.sent 8 = [] := List.prefix_nil.1 h
    have hlength := congrArg List.length (congrFun hrelayed.sent 8)
    rw [hnil, show (newFwd 5 8 20 2 Side.t.other).sock = 8 from rfl, update_self, List.length_append,
      rc4Crypt_length] at hlength
    cases hlength

end Tunnel
