import GoipRemote.Lib.Runs
import GoipRemote.Radmcli.RadmcRun
import GoipRemote.Radmsrv.Handshake

/-!
# The handshake from the device to the server

What `radmc_reconnect` sends arrives at the server in any pieces. `run_gets` takes the pieces that do not
end the line, `connCallback_attached` the one that does, and `handshake_fragmented` puts them together.
-/

namespace Tunnel

open Utils Relay Function CString Radmcli Radmsrv

/-! ## The device -/

/-- The type under which the server keeps the client. -/
def kind (rc : Radmc) : Int := if rc.isRadmin ≠ 0 then 1 else 3

theorem kind_cases (rc : Radmc) : kind rc = 1 ∨ kind rc = 2 ∨ kind rc = 3 := by
  unfold kind
  split
  · exact .inl rfl
  · exact .inr (.inr rfl)

theorem handshake_eq (rc : Radmc) : handshake rc = typeName (kind rc) ++ rc.id ++ [10] := by
  have hend : bytesOf "\n" = [10] := by decide
  unfold handshake kind
  rw [hend]
  by_cases h : rc.isRadmin ≠ 0
  · rw [if_pos h, if_pos h]
    rfl
  · rw [if_neg h, if_neg h]
    rfl

/-- **`radmc_reconnect`**, whatever the state it is called in. -/
theorem radmcReconnect_greeted {d d' : Device} {radmc : Ptr} {r : Reconnect}
    (h : radmcReconnect d radmc r = .ok d') :
    ∃ rc, d'.radmcs radmc = some rc ∧ Greeted d'.proc rc ∧ (handshake rc).length < 256 := by
  unfold radmcReconnect at h
  obtain ⟨rc, -, h⟩ := Res.bind_eq_ok.1 h
  cases hsock : d.proc.newSock r.sock with
  | none =>
    rw [hsock] at h
    cases h
  | some a =>
    obtain ⟨sock, p₁⟩ := a
    rw [hsock] at h
    dsimp only at h
    split at h
    · cases h
    obtain ⟨p₂, hnew, h⟩ := Res.bind_eq_ok.1 h
    split at h
    · cases h
    rename_i hlen
    obtain ⟨⟨buf, p₃⟩, hcrypt, h⟩ := Res.bind_eq_ok.1 h
    obtain ⟨-, -, -, rfl⟩ := Proc.newSock_eq_some hsock
    obtain ⟨-, -, rfl⟩ := Proc.newRc4_eq_ok hnew
    obtain ⟨st, hst, rfl, rfl⟩ := Proc.crypt_eq_ok hcrypt
    obtain rfl : st = rc4Setup rc.rc4Key := Option.some.inj (hst.symm.trans (update_self ..))
    split at h
    · cases h
    have hsent : ∀ line, update (update d.proc.sent sock []) sock
        (update d.proc.sent sock [] sock ++ line) sock = line := by
      intro line
      rw [update_self, update_self, List.nil_append]
    split at h
    all_goals
      obtain ⟨timers, -, h⟩ := Res.bind_eq_ok.1 h
      cases h
      refine ⟨_, update_self .., ⟨hsent _, ?_⟩, not_le.1 hlen⟩
      rw [← rc4Crypt_snd]
      exact update_self ..

/-! ## The server -/

section
variable {s s' : Server} {x : Ptr} {c : Radmconn} {k : Rc4State}

/-- The connection that `radmsrv_accept_callback` makes. -/
theorem accept_conn {i : AcceptIn} (h : Good s) (hx : s.conns x = none)
    (hr : s.step (.accept i) = .ok s') (hc : s'.conns x = some c) :
    c.buf = [] ∧ s'.proc.rc4 c.rc4Dec = some (rc4Setup s'.rc4Key) := by
  obtain ⟨q, l, ds, hinv, -⟩ := h
  by_cases hreg : s.proc.registered s.srv .radmsrvAccept = true
  · rw [Server.step, if_pos hreg] at hr
    rcases radmsrvAcceptCallback_ok hinv i with hexit | hsame | ⟨sock, p, hrun, -, -, hrc4, -⟩
    · rw [hexit] at hr
      cases hr
    · rw [hsame] at hr
      cases hr
      rw [hx] at hc
      cases hc
    · rw [hrun] at hr
      cases hr
      by_cases hxi : x = i.conn
      · subst hxi
        cases (update_self ..).symm.trans hc
        exact ⟨rfl, hrc4⟩
      · cases (hx.symm.trans (update_of_ne hxi ..).symm).trans hc
  · rw [Server.step, if_neg hreg] at hr
    cases hr
    rw [hx] at hc
    cases hc

/-- What a call of `radmsrv_conn_callback` receives. -/
def chunk (i : ConnIn) : List UInt8 := if i.sockerr then [] else i.recv.getD []

theorem eq_of_chunk {i : ConnIn} (h : chunk i ≠ []) :
    i = ⟨false, some (chunk i), i.emfile, i.new⟩ := by
  obtain ⟨sockerr, recv, emfile, new⟩ := i
  cases sockerr with
  | true => exact absurd rfl h
  | false =>
    cases recv with
    | none => exact absurd rfl h
    | some bytes => rfl

/-- The calls of `radmsrv_conn_callback` for the pieces that the connection receives. -/
def receives (x : Ptr) : List ConnIn → Server → Res Server :=
  Runs.run fun s i => radmsrvConnCallback s x i

/-- **Pieces that do not end the line.** -/
theorem run_gets {is : List ConnIn} (hc : s.conns x = some c) (hk : s.proc.rc4 c.rc4Dec = some k)
    (hne : ∀ i ∈ is, chunk i ≠ []) (hfit : c.buf.length + (is.flatMap chunk).length ≤ 256)
    (hline : ∀ b ∈ c.buf ++ (rc4Crypt k (is.flatMap chunk)).1, b ≠ 10) :
    receives x is s = .ok (s.gets x c k (is.flatMap chunk)) := by
  induction is generalizing s c k with
  | nil => exact congrArg Res.ok (gets_nil hc hk).symm
  | cons i is ih =>
    obtain ⟨hi, his⟩ := List.forall_mem_cons.1 hne
    rw [List.flatMap_cons] at hfit hline ⊢
    rw [List.length_append] at hfit
    rw [rc4Crypt_append, ← List.append_assoc, ← rc4Crypt_snd] at hline
    have hlast : (c.buf ++ (rc4Crypt k (chunk i)).1).getLast? ≠ some 10 := fun hl =>
      hline 10 (List.mem_append_left _ (List.mem_of_getLast? hl)) rfl
    have hstep : radmsrvConnCallback s x i = .ok (s.gets x c k (chunk i)) :=
      (congrArg _ (eq_of_chunk hi)).trans
        ((radmsrvConnCallback_eq hc hk hi (by omega) i.emfile i.new).trans (if_pos hlast))
    have hrest := ih (gets_conns s x c k (chunk i)) (gets_rc4 s x c k (chunk i)) his
      (by rw [List.length_append, rc4Crypt_length]; omega) hline
    rw [gets_gets] at hrest
    show (radmsrvConnCallback s x i >>= receives x is) = _
    rw [hstep, Res.ok_bind, hrest]

/-- **The piece that ends the line.** -/
theorem connCallback_attached {q : Queue} {l ds : List Ptr} {i : ConnIn} {id : CString} {isRadmin : Int}
    (h : Radmsrv.Inv s q l ds nobody nobody) (hc : s.conns x = some c)
    (hk : s.proc.rc4 c.rc4Dec = some k) (hne : chunk i ≠ [])
    (hfit : c.buf.length + (chunk i).length ≤ 256)
    (hline : c.buf ++ (rc4Crypt k (chunk i)).1 = typeName isRadmin ++ id.bytes ++ [10])
    (htype : isRadmin = 1 ∨ isRadmin = 2 ∨ isRadmin = 3)
    (hlisten : (∀ p d, s.objects p = some d → d.id = id → d.isRadmin ≠ isRadmin) → i.new.Listens s) :
    ∃ s' q' l', radmsrvConnCallback s x i = .ok s' ∧ Radmsrv.Inv s' q' l' ds nobody nobody ∧
      s'.proc.rc4 c.rc4Dec = some (rc4Crypt k (chunk i)).2 ∧
      ∃ y d, s'.objects y = some d ∧ d.id = id ∧ d.isRadmin = isRadmin ∧ d.rSock = c.sock ∧
        d.rc4Dec = c.rc4Dec := by
  set line := typeName isRadmin ++ id.bytes with hline'
  have hlen : line.length ≤ 255 := by
    have htotal := congrArg List.length hline
    rw [List.length_append, rc4Crypt_length, List.length_append, List.length_singleton] at htotal
    omega
  have hbytes : (ofBuf line).bytes = line := by
    apply ofBuf_bytes
    intro b hb
    cases List.mem_append.1 hb with
    | inl hb => exact typeName_ne_zero htype b hb
    | inr hb => exact id.ne_zero b hb
  obtain ⟨htag, hid⟩ := lineType_typeName htype hbytes
  have hstep : radmsrvConnCallback s x i = connLine
      ((s.gets x c k (chunk i)).setConn x { c with buf := line ++ [0] }) x (ofBuf line) i.new := by
    have heq := radmsrvConnCallback_eq hc hk hne hfit i.emfile i.new
    dsimp only at heq
    rw [← eq_of_chunk hne, hline, List.getLast?_concat, List.dropLast_concat] at heq
    exact heq.trans (if_neg (by simp))
  have hroom : (line ++ [0]).length ≤ 256 := by
    rw [List.length_append, List.length_singleton]
    omega
  have hinv := h.gets_setConn hc hk (chunk i) hroom
  have hadmits : Admits ((s.gets x c k (chunk i)).setConn x { c with buf := line ++ [0] }) (ofBuf line)
      i.new isRadmin := by
    refine ⟨htag, ?_⟩
    rw [hid]
    by_cases hex : ∃ p d, s.objects p = some d ∧ d.id = id ∧ d.isRadmin = isRadmin
    · exact .inl hex
    · have hl := hlisten fun p d hd hdid hdr => hex ⟨p, d, hd, hdid, hdr⟩
      exact .inr (hl.congr rfl rfl rfl)
  have hlength : (ofBuf line).bytes.length ≤ 255 := by
    rw [hbytes]
    exact hlen
  rcases connLine_ok hinv (update_self ..) hlength i.new with
    ⟨-, hnot⟩ | ⟨s', q', l', hrun, hinv', -, -, hatt⟩
  · exact absurd hadmits (hnot isRadmin)
  · obtain ⟨y, ⟨⟨d, hd, hdid, hdr, hsock, hrc4⟩, -, hstate, -⟩⟩ := hatt isRadmin hadmits
    refine ⟨s', q', l', hstep.trans hrun, hinv', hstate.trans (gets_rc4 s x c k _),
      y, d, hd, ?_, hdr, hsock, hrc4⟩
    rw [hdid, hid]

/-- What comes before the last piece of a line is in front of its end. -/
theorem before_end {got last line : List UInt8} (h : (rc4Crypt k (got ++ last)).1 = line ++ [10])
    (hlast : last ≠ []) :
    (rc4Crypt k got).1 <+: line ∧ got.length + last.length = line.length + 1 := by
  have hlength : got.length + last.length = line.length + 1 := by
    have hboth := congrArg List.length h
    rwa [rc4Crypt_length, List.length_append, List.length_append] at hboth
  have hmissing : 0 < last.length := List.length_pos_of_ne_nil hlast
  have hle := rc4Crypt_isPrefix k (List.prefix_append got last)
  rw [h, List.prefix_concat_iff] at hle
  refine ⟨hle.resolve_left fun heq => ?_, hlength⟩
  have hboth := congrArg List.length heq
  rw [rc4Crypt_length, List.length_append, List.length_singleton] at hboth
  omega

/-- Nothing is registered between the two states, with the server or in the poll table. -/
structure Waits (s s' : Server) (x : Ptr) : Prop where
  conn : (s'.conns x).isSome = true
  registry : s'.registry = s.registry
  poll : s'.proc.poll = s.proc.poll

theorem gets_waits (bytes : List UInt8) : Waits s (s.gets x c k bytes) x where
  conn := by
    rw [gets_conns]
    rfl
  registry := rfl
  poll := rfl

end

/-- **The round trip.** -/
theorem handshake_fragmented {d d' : Device} {radmc : Ptr} {rc : Radmc} {r : Reconnect}
    (hd : radmcReconnect d radmc r = .ok d') (hrc : d'.radmcs radmc = some rc)
    (hid : ∀ b ∈ rc.id, b ≠ 0 ∧ b ≠ 10) (hlen : rc.id.length ≤ 246)
    {clock : Nat → Timeval} {pfdList : Nat → Pollfd} {pfdCallBacks : Nat → PfdCallBack Ptr CallBack}
    {whiteListIp : CString} {portMin portMax getPort : UInt16} {srv : Ptr} {sock : Option Int}
    {listening : Bool} {key : List UInt8} {s₀ s s₁ : Server} {evs : List Radmsrv.Event}
    (hs₀ : radmsrvCreate (.init clock pfdList pfdCallBacks whiteListIp portMin portMax getPort) srv sock
      listening key = some s₀) (hs : s₀.run evs = .ok s)
    {x : Ptr} {c : Radmconn} {i : AcceptIn} (hx : s.conns x = none)
    (haccept : s.step (.accept i) = .ok s₁) (hc : s₁.conns x = some c) (hkey : s₁.rc4Key = rc.rc4Key)
    (is : List ConnIn) (last : ConnIn) (hchunk : ∀ i ∈ is ++ [last], chunk i ≠ [])
    (hall : (is ++ [last]).flatMap chunk = d'.proc.sent rc.sock)
    (hlisten : (∀ y k, (y, k) ∈ s₁.registry → k.id.bytes = rc.id → k.isRadmin ≠ kind rc) →
      last.new.Listens s₁) :
    (∀ is', is' <+: is → ∃ s', receives x is' s₁ = .ok s' ∧ Waits s₁ s' x) ∧
    ∃ s', receives x (is ++ [last]) s₁ = .ok s' ∧ ∃ y k, (y, k) ∈ s'.registry ∧ k.id.bytes = rc.id ∧
      k.isRadmin = kind rc ∧ k.rSock = c.sock ∧
      ∃ st, s'.proc.rc4 k.rc4Dec = some st ∧ d'.proc.rc4 rc.rc4Enc = some st := by
  -- the two ends
  obtain ⟨rc', hrc', hgreeted, -⟩ := radmcReconnect_greeted hd
  cases hrc.symm.trans hrc'
  have hgood := step_good ((run_good evs (create_good hs₀)).of_ok hs) (.accept i)
  obtain ⟨q, l, ds, hinv, -⟩ := hgood.of_ok haccept
  obtain ⟨hbuf, hk⟩ := accept_conn ((run_good evs (create_good hs₀)).of_ok hs) hx haccept hc
  rw [hkey] at hk
  set k := rc4Setup rc.rc4Key with hk'
  rw [hgreeted.sent] at hall
  -- the line
  set line := typeName (kind rc) ++ rc.id with hline
  have hne : ∀ b ∈ line, b ≠ 0 ∧ b ≠ 10 := by
    intro b hb
    cases List.mem_append.1 hb with
    | inl hb => exact ⟨typeName_ne_zero (kind_cases rc) b hb, typeName_ne_newline (kind_cases rc) b hb⟩
    | inr hb => exact hid b hb
  have hlength : line.length ≤ 254 := by
    rw [hline, List.length_append, typeName_length (kind_cases rc)]
    omega
  set got := is.flatMap chunk with hgot
  have htotal : (is ++ [last]).flatMap chunk = got ++ chunk last := by
    rw [List.flatMap_append, List.flatMap_singleton]
  have hplain : (rc4Crypt k (got ++ chunk last)).1 = line ++ [10] := by
    rw [← htotal, hall, rc4Crypt_rc4Crypt, handshake_eq]
  have hlast : chunk last ≠ [] := hchunk last (List.mem_append_right _ (List.mem_singleton_self _))
  obtain ⟨hbefore, hbytes⟩ := before_end hplain hlast
  -- the pieces before the last
  have hreceives : ∀ is', is' <+: is → receives x is' s₁ = .ok (s₁.gets x c k (is'.flatMap chunk)) := by
    intro is' hle
    obtain ⟨rest, rfl⟩ := hle
    have hsub : (rc4Crypt k (is'.flatMap chunk)).1 <+: line := by
      refine List.IsPrefix.trans (rc4Crypt_isPrefix k ?_) hbefore
      rw [hgot, List.flatMap_append]
      exact List.prefix_append _ _
    have hshort := hsub.length_le
    rw [rc4Crypt_length] at hshort
    refine run_gets hc hk (fun i hi => hchunk i ?_) ?_ fun b hb => ?_
    · exact List.mem_append_left _ (List.mem_append_left _ hi)
    · rw [hbuf, List.length_nil]
      omega
    · rw [hbuf, List.nil_append] at hb
      exact (hne b (hsub.subset hb)).2
  refine ⟨fun is' hle => ⟨_, hreceives is' hle, gets_waits _⟩, ?_⟩
  -- the last
  have hfit : c.buf.length + got.length ≤ 256 := by
    rw [hbuf, List.length_nil]
    omega
  let id : CString := ⟨rc.id, fun b hb => (hid b hb).1⟩
  have hend : c.buf ++ (rc4Crypt k got).1 ++ (rc4Crypt (rc4Crypt k got).2 (chunk last)).1 =
      typeName (kind rc) ++ id.bytes ++ [10] := by
    rw [hbuf, List.nil_append, rc4Crypt_snd, ← rc4Crypt_append]
    exact hplain
  have hlistens : (∀ p d, s₁.objects p = some d → d.id = id → d.isRadmin ≠ kind rc) →
      last.new.Listens (s₁.gets x c k got) := by
    intro hno
    have hl := hlisten fun y k hy hyid => hno y k ((mem_registry hinv.clients).1 hy) (CString.ext hyid)
    exact hl.congr rfl rfl rfl
  obtain ⟨s', q', l', hrun, hinv', hstate, y, k', hy, hyid, hykind, hysock, hyrc4⟩ :=
    connCallback_attached (hinv.gets hc hk hfit) (gets_conns s₁ x c k got) (gets_rc4 s₁ x c k got) hlast
      (by rw [List.length_append, rc4Crypt_length, hbuf, List.length_nil]; omega) hend (kind_cases rc)
      hlistens
  have hbytes' : k'.id.bytes = rc.id := by rw [hyid]
  refine ⟨s', ?_, y, k', (mem_registry hinv'.clients).2 hy, hbytes', hykind, hysock, _, ?_, hgreeted.rc4⟩
  · refine Runs.run_trans (hreceives is (List.prefix_refl is)) ?_
    rw [Runs.run, hrun]
    rfl
  · have hsum : (handshake rc).length = line.length + 1 := by
      rw [handshake_eq]
      exact List.length_append
    rw [hyrc4, hstate, rc4Crypt_snd, rc4Crypt_snd, ← rc4Advance_add, hbytes, hsum]

/-- The line of a web page's device comes in two pieces. -/
theorem handshake_fragmented_halves :
    ∃ d' sent s₁ s', radmcReconnect (Device.setRadmc .initZero 1 ⟨[65], [66], 0, 0, 1, 0⟩) 1
        ⟨some 5, true, 3, true⟩ = .ok d' ∧ d'.proc.sent 5 = sent ∧
      receives 1 [⟨false, some (sent.take 4), false, ⟨some 6, false, fun _ => none, none, 1, 1⟩⟩,
        ⟨false, some (sent.drop 4), false, ⟨some 6, false, fun _ => none, none, 1, 1⟩⟩] s₁ = .ok s' ∧
      ∃ y k, (y, k) ∈ s'.registry ∧ k.id.bytes = [66] ∧ k.isRadmin = 1 := by
  obtain ⟨d', hd, hrc⟩ : ∃ d', radmcReconnect (Device.setRadmc .initZero 1 ⟨[65], [66], 0, 0, 1, 0⟩) 1
      ⟨some 5, true, 3, true⟩ = .ok d' ∧ d'.radmcs 1 = some ⟨[65], [66], 3, 5, 1, 0⟩ := ⟨_, rfl, rfl⟩
  obtain ⟨s, hs⟩ : ∃ s, radmsrvCreate .initZero 1 (some 3) true [65] = some s := ⟨_, rfl⟩
  obtain ⟨s₁, hs₁⟩ : ∃ s₁, s.step (.accept ⟨some 5, false, 1, 2⟩) = .ok s₁ := by
    cases hs
    exact ⟨_, rfl⟩
  obtain ⟨hx, hc, hkey⟩ : s.conns 1 = none ∧ s₁.conns 1 = some ⟨[], 5, 2⟩ ∧ s₁.rc4Key = [65] := by
    cases hs
    cases hs₁
    exact ⟨rfl, rfl, rfl⟩
  have hlisten : NewClientIn.Listens s₁ ⟨some 6, false, fun _ => none, none, 1, 1⟩ := by
    cases hs
    cases hs₁
    exact ⟨rfl, ⟨0, by decide, rfl, fun m hm => absurd hm (Nat.not_lt_zero m)⟩, rfl, ⟨by decide, rfl⟩,
      ⟨by decide, rfl⟩⟩
  obtain ⟨rc, hrc', hgreeted, -⟩ := radmcReconnect_greeted hd
  cases hrc.symm.trans hrc'
  have hlen : (d'.proc.sent 5).length = 10 := by
    rw [hgreeted.sent, rc4Crypt_length]
    rfl
  have hcut : ∀ i ∈ [(⟨false, some ((d'.proc.sent 5).take 4), false,
        ⟨some 6, false, fun _ => none, none, 1, 1⟩⟩ : ConnIn)] ++
      [⟨false, some ((d'.proc.sent 5).drop 4), false, ⟨some 6, false, fun _ => none, none, 1, 1⟩⟩],
      chunk i ≠ [] := by
    intro i hi
    apply List.ne_nil_of_length_pos
    cases List.mem_cons.1 hi with
    | inl hi =>
      subst hi
      show 0 < ((d'.proc.sent 5).take 4).length
      rw [List.length_take]
      omega
    | inr hi =>
      obtain rfl := List.mem_singleton.1 hi
      show 0 < ((d'.proc.sent 5).drop 4).length
      rw [List.length_drop]
      omega
  obtain ⟨-, s', hrun, y, k, hy, hid, hkind, -⟩ := handshake_fragmented hd hrc (by decide +kernel)
    (by decide +kernel) hs (rfl : s.run [] = .ok s) hx hs₁ hc hkey _ _ hcut
    ((congrArg _ (List.append_nil _)).trans (List.take_append_drop 4 (d'.proc.sent 5))) fun _ => hlisten
  exact ⟨d', _, s₁, s', hd, rfl, hrun, y, k, hy, hid, hkind⟩

end Tunnel
