import GoipRemote.Radmsrv.Access
import GoipRemote.Radmsrv.Web

/-!
# The server with its web pages

Each request runs in a process of its own, whose messages reach the server one by one, between those of the
others and the server's own events. `site_allowed` follows every address that may connect, in every such run,
back to a request with the operator's credentials, and `login_allowed` is the way there. Requests without
them might as well not have been sent (`site_without_login`).
-/

namespace Radmsrv

open Utils Relay Libhttpd Function LinkedList CString

/-! ## The run -/

/-- The server, the messages that each process has still to write, those in `radmsrv_ctl`, and what the
requests have been answered with. -/
structure Site where
  server : Server
  writes : List (List (List UInt8))
  queue : List (List UInt8)
  outs : List WebOut

/-- A process has served a request, and writes its messages later. -/
def Site.served (x : Site) (out : WebOut) : Site :=
  { x with writes := x.writes ++ [out.control], outs := x.outs ++ [out] }

/-- What happens next: an event of the server, a request, the next write of a process, or the callback of
`radmsrv_ctl[0]`, on what it finds besides the message. -/
inductive SiteEvent where
  | server (ev : Event)
  | request (i : WebIn) (input : List UInt8)
  | write (k : Nat)
  | control (c : CtlIn)

/-- A step, with `ht_user` and `ht_pass`. The server reads no message but those of the queue. -/
def Site.step (user password : CString) (x : Site) : SiteEvent → Res Site
  | .server (.ctl _) => .ok x
  | .server ev => do
    let server ← x.server.step ev
    return { x with server }
  | .request i input =>
    match webServe x.server { i with htUser := user, htPass := password } input with
    | .ok out => .ok (x.served out)
    | .exit => .ok x
    | .fault => .fault
  | .write k =>
    match x.writes[k]? with
    | some (msg :: msgs) => .ok { x with writes := x.writes.set k msgs, queue := x.queue ++ [msg] }
    | _ => .ok x
  | .control c =>
    match x.queue with
    | [] => .ok x
    | msg :: queue => do
      let server ← radmsrvCtlCallback x.server { c with msg }
      return { x with server, queue }

def Site.run (user password : CString) : List SiteEvent → Site → Res Site
  | [], x => .ok x
  | ev :: evs, x => x.step user password ev >>= Site.run user password evs

/-! ## The messages -/

section
variable {s s' : Server}

/-- A message that has been read is an event of the server, except that a client cannot be deleted where
there is none. -/
theorem ctlCallback_good (h : Good s) {c : CtlIn} (hr : radmsrvCtlCallback s c = .ok s') : Good s' := by
  obtain ⟨ctl, hctl, hr⟩ := Res.bind_eq_ok.1 hr
  cases ctl with
  | none =>
    cases hr
    exact h
  | some ctl =>
    change radmsrvCtl s ctl = .ok s' at hr
    have hstep : ∀ {s₁ : Server}, s.step (.ctl ctl) = .ok s₁ → Good s₁ := fun hr => (step_good h _).of_ok hr
    cases ctl with
    | del type id =>
      by_cases hzero : s.clients = 0
      · -- without a client, only another type is left
        rw [radmsrvCtl] at hr
        have hnone : s.clis 0 = none := by
          obtain ⟨q, l, ds, hinv, -⟩ := h
          exact hinv.clients.clis_zero
        have hfault : ∀ n, radmsrvDel s id n = .fault := by
          intro n
          unfold radmsrvDel Server.isClient
          rw [hzero]
          simp only [Res.deref, hnone, Res.fault_bind]
        rw [hfault, hfault] at hr
        split at hr
        · cases hr
        · split at hr
          · cases hr
          · cases hr
            exact h
      · apply hstep
        rw [Server.step, if_pos hzero]
        exact hr
    | ip ip ipData timer => exact hstep hr
    | white list => exact hstep hr

/-- A message of a request adds the address of its browser, or none. -/
theorem ctlCallback_log (h : Good s) {c : CtlIn} {i : WebIn} (hmsg : i.Sends c.msg)
    (hr : radmsrvCtlCallback s c = .ok s') (ip : UInt32) (t : Ptr) (ht : .added ip t ∈ s'.log) :
    .added ip t ∈ s.log ∨ ip = i.ip := by
  obtain ⟨ctl, hctl, hr⟩ := Res.bind_eq_ok.1 hr
  rcases hmsg with hip | haction
  · rw [decodeCtl_ip hip] at hctl
    cases hctl
    obtain ⟨q, l, ds, hinv, -⟩ := h
    rcases ctlIp_ok hinv.addresses i.ip c.ipData c.timer with
      hrun | ⟨timers, ipList, ipDatas, t', s₁, q', ds', hrun, rfl, -⟩
    · cases hrun.symm.trans hr
    · cases hrun.symm.trans hr
      rcases List.mem_cons.1 ht with hc | ht
      · cases hc
        exact .inr rfl
      · exact .inl ht
  · left
    cases ctl with
    | none =>
      cases hr
      exact ht
    | some ctl =>
      cases ctl with
      | del type id =>
        change radmsrvCtl s (.del type id) = .ok s' at hr
        have hdel : ∀ n, (radmsrvDel s id n >>= fun r => .ok r.1) = .ok s' → .added ip t ∈ s.log := by
          intro n hr
          obtain ⟨⟨s₁, k⟩, hdel, hs₁⟩ := Res.bind_eq_ok.1 hr
          cases hs₁
          exact (radmsrvDel_access hdel).log ip t ht
        rw [radmsrvCtl] at hr
        split at hr
        · exact hdel 1 hr
        · split at hr
          · exact hdel 3 hr
          · cases hr
            exact ht
      | ip ip' ipData timer => exact absurd rfl (decodeCtl_action haction hctl ip' ipData timer)
      | white list =>
        cases hr
        exact ht

end

/-! ## The server in a run -/

section
variable {user password : CString} {x x' : Site}

/-- An event of the server itself. -/
theorem Site.step_server {ev : Event} (hr : x.step user password (.server ev) = .ok x') :
    (∃ c, ev = .ctl c) ∧ x' = x ∨
      (∀ c, ev ≠ .ctl c) ∧ ∃ s, x.server.step ev = .ok s ∧ x' = { x with server := s } := by
  have hstep : (x.server.step ev >>= fun server => .ok { x with server }) = .ok x' →
      ∃ s, x.server.step ev = .ok s ∧ x' = { x with server := s } := by
    intro hr
    obtain ⟨s, hs, hx'⟩ := Res.bind_eq_ok.1 hr
    exact ⟨s, hs, (Res.ok.inj hx').symm⟩
  cases ev with
  | ctl c => exact .inl ⟨⟨c, rfl⟩, (Res.ok.inj hr).symm⟩
  | accept i => exact .inr ⟨fun c hc => Event.noConfusion hc, hstep hr⟩
  | conn conn i => exact .inr ⟨fun c hc => Event.noConfusion hc, hstep hr⟩
  | user cli i => exact .inr ⟨fun c hc => Event.noConfusion hc, hstep hr⟩
  | fwd ev => exact .inr ⟨fun c hc => Event.noConfusion hc, hstep hr⟩
  | defragment => exact .inr ⟨fun c hc => Event.noConfusion hc, hstep hr⟩
  | timers => exact .inr ⟨fun c hc => Event.noConfusion hc, hstep hr⟩

theorem Site.step_good {ev : SiteEvent} (h : Good x.server) (hr : x.step user password ev = .ok x') :
    Good x'.server := by
  cases ev with
  | server ev =>
    rcases Site.step_server hr with ⟨-, rfl⟩ | ⟨-, s, hs, rfl⟩
    · exact h
    · exact (Radmsrv.step_good h ev).of_ok hs
  | request i input =>
    rw [Site.step] at hr
    split at hr
    · cases hr
      exact h
    · cases hr
      exact h
    · cases hr
  | write k =>
    rw [Site.step] at hr
    split at hr
    · cases hr
      exact h
    · cases hr
      exact h
  | control c =>
    rw [Site.step] at hr
    split at hr
    · cases hr
      exact h
    · obtain ⟨s, hctl, hx'⟩ := Res.bind_eq_ok.1 hr
      cases hx'
      exact ctlCallback_good h hctl

theorem Site.run_good {evs : List SiteEvent} (h : Good x.server) (hr : x.run user password evs = .ok x') :
    Good x'.server := by
  induction evs generalizing x with
  | nil =>
    cases hr
    exact h
  | cons ev evs ih =>
    obtain ⟨x₁, hstep, hr⟩ := Res.bind_eq_ok.1 hr
    exact ih (Site.step_good h hstep) hr

end

/-! ## The invariant -/

section
variable {user password white : CString} {P : WebIn → Prop} {x x' : Site}

/-- A message of one of these requests. -/
def Vouched (P : WebIn → Prop) (msg : List UInt8) : Prop := ∃ i, P i ∧ i.Sends msg

/-- Nobody has been let in but by these requests, and nobody is on the way. -/
structure Entitled (P : WebIn → Prop) (white : CString) (x : Site) : Prop where
  writes : ∀ msgs ∈ x.writes, ∀ msg ∈ msgs, Vouched P msg
  queue : ∀ msg ∈ x.queue, Vouched P msg
  log : ∀ ip t, .added ip t ∈ x.server.log → ∃ i, P i ∧ i.ip = ip
  white : x.server.whiteListIp = white ∨ ∃ i, P i

theorem Entitled.request (h : Entitled P white x) {i : WebIn} {input : List UInt8}
    (hauth : Authorised (lines input) user password → P i)
    (hr : x.step user password (.request i input) = .ok x') : Entitled P white x' := by
  rw [Site.step] at hr
  split at hr
  · rename_i out hout
    cases hr
    refine ⟨fun msgs hmsgs msg hmsg => ?_, h.queue, h.log, h.white⟩
    rcases List.mem_append.1 hmsgs with hmsgs | hmsgs
    · exact h.writes msgs hmsgs msg hmsg
    · rw [List.mem_singleton.1 hmsgs] at hmsg
      rcases webServe_operator hout with hgate | hgate
      · exact ⟨i, hauth hgate, webServe_messages hout msg hmsg⟩
      · rw [hgate.control] at hmsg
        cases hmsg
  · cases hr
    exact h
  · cases hr

theorem Entitled.write (h : Entitled P white x) {k : Nat} (hr : x.step user password (.write k) = .ok x') :
    Entitled P white x' := by
  rw [Site.step] at hr
  split at hr
  · rename_i msg msgs hwrites
    cases hr
    have hmem := List.mem_of_getElem? hwrites
    refine ⟨fun m hm n hn => ?_, fun n hn => ?_, h.log, h.white⟩
    · rcases List.mem_or_eq_of_mem_set hm with hm | rfl
      · exact h.writes m hm n hn
      · exact h.writes _ hmem n (List.mem_cons_of_mem _ hn)
    · rcases List.mem_append.1 hn with hn | hn
      · exact h.queue n hn
      · rw [List.mem_singleton.1 hn]
        exact h.writes _ hmem msg List.mem_cons_self
  · cases hr
    exact h

theorem Entitled.control (h : Entitled P white x) (hgood : Good x.server) {c : CtlIn}
    (hr : x.step user password (.control c) = .ok x') : Entitled P white x' := by
  rw [Site.step] at hr
  split at hr
  · cases hr
    exact h
  · rename_i msg queue hqueue
    obtain ⟨s, hctl, hr⟩ := Res.bind_eq_ok.1 hr
    cases hr
    obtain ⟨i, hi, hsends⟩ := h.queue msg (hqueue ▸ List.mem_cons_self)
    refine ⟨h.writes, fun n hn => ?_, fun ip t ht => ?_, .inr ⟨i, hi⟩⟩
    · exact h.queue n (hqueue ▸ List.mem_cons_of_mem _ hn)
    · rcases ctlCallback_log hgood hsends hctl ip t ht with ht | rfl
      · exact h.log ip t ht
      · exact ⟨i, hi, rfl⟩

theorem Entitled.server (h : Entitled P white x) (hgood : Good x.server) {ev : Event}
    (hr : x.step user password (.server ev) = .ok x') : Entitled P white x' := by
  rcases Site.step_server hr with ⟨-, rfl⟩ | ⟨hno, s, hs, rfl⟩
  · exact h
  · have hsame := step_access hgood hno hs
    refine ⟨h.writes, h.queue, fun ip t ht => h.log ip t (hsame.log ip t ht), ?_⟩
    change s.whiteListIp = white ∨ _
    rw [hsame.white]
    exact h.white

/-- **The step lemma.** -/
theorem Entitled.step (h : Entitled P white x) (hgood : Good x.server) {ev : SiteEvent}
    (hauth : ∀ i input, ev = .request i input → Authorised (lines input) user password → P i)
    (hr : x.step user password ev = .ok x') : Entitled P white x' := by
  cases ev with
  | server ev => exact h.server hgood hr
  | request i input => exact h.request (hauth i input rfl) hr
  | write k => exact h.write hr
  | control c => exact h.control hgood hr

theorem Entitled.run {evs : List SiteEvent} (h : Entitled P white x) (hgood : Good x.server)
    (hauth : ∀ i input, .request i input ∈ evs → Authorised (lines input) user password → P i)
    (hr : x.run user password evs = .ok x') : Entitled P white x' := by
  induction evs generalizing x with
  | nil =>
    cases hr
    exact h
  | cons ev evs ih =>
    obtain ⟨x₁, hstep, hr⟩ := Res.bind_eq_ok.1 hr
    refine ih (h.step hgood (fun i input hev => ?_) hstep) (Site.step_good hgood hstep)
      (fun i input hmem => ?_) hr
    · exact hauth i input (hev ▸ List.mem_cons_self)
    · exact hauth i input (List.mem_cons_of_mem _ hmem)

end

/-! ## Who may connect -/

/-- The server before its first request. -/
def Site.start (s : Server) : Site := ⟨s, [], [], []⟩

/-- One of the requests brought the credentials of the operator. -/
def Operator (user password : CString) (evs : List SiteEvent) (i : WebIn) : Prop :=
  ∃ input, .request i input ∈ evs ∧ Authorised (lines input) user password

section
variable {s : Server} {clock : Nat → Timeval} {pfdList : Nat → Pollfd} {pfdCallBacks : Nat → PfdCallBack Ptr CallBack}
  {whiteListIp : CString} {portMin portMax getPort : UInt16} {srv : Ptr} {sock : Option Int}
  {listening : Bool} {key : List UInt8}
  (hs : radmsrvCreate (.init clock pfdList pfdCallBacks whiteListIp portMin portMax getPort) srv sock
    listening key = some s)

include hs in
/-- **Nobody gets in** without a login, in any order of events, requests and messages: an address that may
connect is one whose operator has logged in from there, or is in the white list, which is the one that the
server was started with unless an operator has logged in. -/
theorem site_allowed {user password : CString} {evs : List SiteEvent}
    {x : Site} (hrun : (Site.start s).run user password evs = .ok x) {ip : UInt32}
    (hip : x.server.Allowed ip) :
    (∃ i, Operator user password evs i ∧ i.ip = ip) ∨ checkWhiteIp x.server.whiteListIp ip = true ∧
      (x.server.whiteListIp = whiteListIp ∨ ∃ i, Operator user password evs i) := by
  obtain ⟨hlog, hwhite⟩ : s.log = [] ∧ s.whiteListIp = whiteListIp := by
    unfold radmsrvCreate at hs
    split at hs
    · cases hs
    · split at hs
      · cases hs
      · cases hs
        exact ⟨rfl, rfl⟩
  have hstart : Entitled (Operator user password evs) whiteListIp (.start s) := by
    refine ⟨fun msgs hmsgs => absurd hmsgs List.not_mem_nil,
      fun msg hmsg => absurd hmsg List.not_mem_nil, fun ip t ht => ?_, .inl hwhite⟩
    change _ ∈ s.log at ht
    rw [hlog] at ht
    cases ht
  have hend := hstart.run (create_good hs) (fun i input hmem hauth => ⟨input, hmem, hauth⟩) hrun
  rcases hip with hcheck | ⟨t, post, pre, hpost, -⟩
  · exact .inr ⟨hcheck, hend.white⟩
  · exact .inl (hend.log ip t (by rw [hpost]; simp))

/-- A browser at the address 7. -/
def WebIn.seven : WebIn where
  htUser := ofBuf (bytesOf "a")
  htPass := ofBuf (bytesOf "b")
  httpport := 80
  srvport := 81
  ip := 7
  sent := true
  control := true
  web := ⟨true, false, fun _ => true⟩
  cli := ⟨true, false, fun _ => true⟩
  fopen := true
  sockname := 1
  port := fun _ => 1

/-- Its login. -/
def sevenLogin : Login where
  user := ofBuf (bytesOf "a")
  password := ofBuf (bytesOf "b")
  colon := by decide
  length := by decide

/-- The page of the clients. -/
def indexTarget : UrlPath where
  url := []
  plain := by simp
  length := by decide

/-- The server hears of the login. -/
def sevenRun : List SiteEvent :=
  [.request .seven (browserRequest indexTarget [] [] sevenLogin), .write 0, .control ⟨[], 0, [], 1, 2⟩]

set_option maxRecDepth 8000 in
theorem site_allowed_seven : ∃ s x, radmsrvCreate .initZero 1 (some 3) true [65] = some s ∧
    (Site.start s).run (ofBuf (bytesOf "a")) (ofBuf (bytesOf "b")) sevenRun = .ok x ∧ x.server.Allowed 7 ∧
      ((∃ i, Operator (ofBuf (bytesOf "a")) (ofBuf (bytesOf "b")) sevenRun i ∧ i.ip = 7) ∨
        checkWhiteIp x.server.whiteListIp 7 = true ∧ (x.server.whiteListIp = ofBuf [] ∨
          ∃ i, Operator (ofBuf (bytesOf "a")) (ofBuf (bytesOf "b")) sevenRun i)) := by
  obtain ⟨s, hs⟩ : ∃ s, radmsrvCreate .initZero 1 (some 3) true [65] = some s := ⟨_, rfl⟩
  obtain ⟨x, hx⟩ : ∃ x, (Site.start s).run (ofBuf (bytesOf "a")) (ofBuf (bytesOf "b")) sevenRun = .ok x := by
    cases hs
    exact ⟨_, rfl⟩
  have hip : x.server.Allowed 7 := by
    cases hs
    cases hx
    exact .inr ⟨2, [], [], rfl, fun _ h => absurd h List.not_mem_nil, List.not_mem_nil⟩
  exact ⟨s, x, hs, hx, hip, site_allowed hs hx hip⟩

/-- A message that an address has logged in lets the address in. -/
theorem Good.admits {s s' : Server} (h : Good s) {c : CtlIn} {ip : UInt32}
    (hr : radmsrvCtlCallback s { c with msg := ipMessage ip } = .ok s') : s'.Allowed ip := by
  unfold radmsrvCtlCallback at hr
  rw [decodeCtl_ip rfl, Res.ok_bind] at hr
  obtain ⟨q, l, ds, hinv, -⟩ := h
  rcases ctlIp_ok hinv.addresses ip c.ipData c.timer with hrun | ⟨timers, ipList, ipDatas, t, s₁, q', ds',
    hrun, rfl, -⟩
  · cases hrun.symm.trans hr
  · cases hrun.symm.trans hr
    exact .inr ⟨t, pending_cons.2 (.inl rfl)⟩

include hs in
/-- **A login lets in**, at whatever time the server reads the first message of the process that has served
it: the request of a browser for the page, with the credentials of the operator and whatever plain headers. -/
theorem login_allowed {l : Login} {evs : List SiteEvent} {x : Site}
    (hrun : (Site.start s).run l.user l.password evs = .ok x) {i : WebIn} {vars : List HttpVar}
    {out : WebOut} (t : UrlPath) (before after : List PlainHeader)
    (hvars : pathVariables (47 :: t.url) = .ok vars) (hpage : contentPath (47 :: t.url) ∈ indexPaths)
    (hfind : httpdGetVariableByName vars (ofBuf (bytesOf "findcli")) = none) (hsent : i.sent = true)
    (hout : webServe x.server { i with htUser := l.user, htPass := l.password }
      (browserRequest t before after l) = .ok out) :
    ∃ msg rest, out.control = msg :: rest ∧ ∀ {later : List SiteEvent} {y : Site} {c : CtlIn} {s' : Server},
      (x.served out).run l.user l.password later = .ok y →
        radmsrvCtlCallback y.server { c with msg } = .ok s' → s'.Allowed i.ip := by
  have hhead := @webServe_login _ { i with htUser := l.user, htPass := l.password } _ l _ t before after
    hvars hpage hfind rfl rfl hsent hout
  obtain ⟨rest, hcontrol⟩ := List.head?_eq_some_iff.1 hhead
  refine ⟨ipMessage i.ip, rest, hcontrol, fun hlater hread => ?_⟩
  have hx : Good x.server := Site.run_good (create_good hs) hrun
  have hy := @Site.run_good _ _ (x.served out) _ _ hx hlater
  exact hy.admits hread

/-- The page with a query. -/
def queryTarget : UrlPath where
  url := bytesOf "?a=b"
  plain := by decide +kernel
  length := by decide +kernel

/-- What a browser says of itself. -/
def agentHeader : PlainHeader where
  line := ofBuf (bytesOf "User-Agent: x")
  ne_nil := by decide +kernel
  feed := by decide +kernel
  ret := by decide +kernel
  length := by decide +kernel
  plain := by decide +kernel

set_option maxRecDepth 8000 in
theorem login_allowed_seven : ∃ s out, radmsrvCreate .initZero 1 (some 3) true [65] = some s ∧
    webServe s .seven (browserRequest queryTarget [agentHeader] [agentHeader] sevenLogin) = .ok out ∧
      ∃ msg rest, out.control = msg :: rest ∧ ∀ {later : List SiteEvent} {y : Site} {c : CtlIn} {s' : Server},
        ((Site.start s).served out).run sevenLogin.user sevenLogin.password later = .ok y →
          radmsrvCtlCallback y.server { c with msg } = .ok s' → s'.Allowed 7 := by
  obtain ⟨s, hs⟩ : ∃ s, radmsrvCreate .initZero 1 (some 3) true [65] = some s := ⟨_, rfl⟩
  obtain ⟨out, hout⟩ : ∃ out,
      webServe s .seven (browserRequest queryTarget [agentHeader] [agentHeader] sevenLogin) = .ok out := by
    cases hs
    exact ⟨_, rfl⟩
  have hvars : pathVariables (47 :: queryTarget.url) =
      .ok [⟨ofBuf (bytesOf "a"), ofBuf (bytesOf "b"), []⟩] := by decide +kernel
  have hrun : (Site.start s).run sevenLogin.user sevenLogin.password [] = .ok (.start s) := rfl
  exact ⟨s, out, hs, hout, login_allowed hs hrun (i := .seven) queryTarget [agentHeader] [agentHeader] hvars
    (by decide +kernel) (by decide) rfl hout⟩

end

/-! ## Requests without a login -/

/-- The event of the server that it is. -/
def SiteEvent.own : SiteEvent → Option Event
  | .server (.ctl _) => none
  | .server ev => some ev
  | _ => none

theorem SiteEvent.own_server {ev : Event} (h : ∀ c, ev ≠ .ctl c) : (SiteEvent.server ev).own = some ev := by
  cases ev with
  | ctl c => exact absurd rfl (h c)
  | accept i => rfl
  | conn conn i => rfl
  | user cli i => rfl
  | fwd ev => rfl
  | defragment => rfl
  | timers => rfl

/-- Nothing has been sent to the server, and nobody has been shown anything. -/
structure Idle (x : Site) : Prop where
  writes : ∀ msgs ∈ x.writes, msgs = []
  queue : x.queue = []
  outs : ∀ out ∈ x.outs, out.Harmless

section
variable {user password : CString} {x x' : Site}

/-- A step without a login is one of the server, or none. -/
theorem Idle.step {ev : SiteEvent} (h : Idle x)
    (hno : ∀ i input, ev = .request i input → ¬ Authorised (lines input) user password)
    (hr : x.step user password ev = .ok x') : Idle x' ∧
      (ev.own = none ∧ x'.server = x.server ∨ ∃ e, ev.own = some e ∧ x.server.step e = .ok x'.server) := by
  cases ev with
  | server ev =>
    rcases Site.step_server hr with ⟨⟨c, rfl⟩, rfl⟩ | ⟨hctl, s, hs, rfl⟩
    · exact ⟨h, .inl ⟨rfl, rfl⟩⟩
    · exact ⟨⟨h.writes, h.queue, h.outs⟩, .inr ⟨ev, SiteEvent.own_server hctl, hs⟩⟩
  | request i input =>
    rw [Site.step] at hr
    split at hr
    · rename_i out hout
      cases hr
      have hout := (webServe_operator hout).resolve_left (hno i input rfl)
      refine ⟨⟨fun msgs hmsgs => ?_, h.queue, fun o ho => ?_⟩, .inl ⟨rfl, rfl⟩⟩
      · rcases List.mem_append.1 hmsgs with hmsgs | hmsgs
        · exact h.writes msgs hmsgs
        · rw [List.mem_singleton.1 hmsgs, hout.control]
      · rcases List.mem_append.1 ho with ho | ho
        · exact h.outs o ho
        · rw [List.mem_singleton.1 ho]
          exact hout
    · cases hr
      exact ⟨h, .inl ⟨rfl, rfl⟩⟩
    · cases hr
  | write k =>
    rw [Site.step] at hr
    split at hr
    · rename_i msg msgs hwrites
      cases h.writes _ (List.mem_of_getElem? hwrites)
    · cases hr
      exact ⟨h, .inl ⟨rfl, rfl⟩⟩
  | control c =>
    rw [Site.step, h.queue] at hr
    cases hr
    exact ⟨h, .inl ⟨rfl, rfl⟩⟩

theorem Idle.run {evs : List SiteEvent} (h : Idle x)
    (hno : ∀ i input, .request i input ∈ evs → ¬ Authorised (lines input) user password)
    (hr : x.run user password evs = .ok x') :
    Idle x' ∧ x.server.run (evs.filterMap SiteEvent.own) = .ok x'.server := by
  induction evs generalizing x with
  | nil =>
    cases hr
    exact ⟨h, rfl⟩
  | cons ev evs ih =>
    obtain ⟨x₁, hstep, hr⟩ := Res.bind_eq_ok.1 hr
    obtain ⟨h₁, hown⟩ := h.step (fun i input hev => hno i input (hev ▸ List.mem_cons_self)) hstep
    obtain ⟨h', hrun⟩ := ih h₁ (fun i input hmem => hno i input (List.mem_cons_of_mem _ hmem)) hr
    refine ⟨h', ?_⟩
    rcases hown with ⟨hnone, hserver⟩ | ⟨e, he, hserver⟩
    · rw [List.filterMap_cons_none hnone, ← hserver]
      exact hrun
    · rw [List.filterMap_cons_some he, Server.run, hserver]
      exact hrun

end

/-- **Without a login**, requests might as well not have been sent: in any order of events, the server comes
to where its own events alone bring it, and all the answers are such as everybody gets. -/
theorem site_without_login {user password : CString} {s : Server} {evs : List SiteEvent} {x : Site}
    (hno : ∀ i input, .request i input ∈ evs → ¬ Authorised (lines input) user password)
    (hrun : (Site.start s).run user password evs = .ok x) :
    s.run (evs.filterMap SiteEvent.own) = .ok x.server ∧ x.queue = [] ∧ ∀ out ∈ x.outs, out.Harmless := by
  have hstart : Idle (.start s) :=
    ⟨fun msgs hmsgs => absurd hmsgs List.not_mem_nil, rfl, fun out hout => absurd hout List.not_mem_nil⟩
  obtain ⟨h, hserver⟩ := hstart.run hno hrun
  exact ⟨hserver, h.queue, h.outs⟩

/-- A request without credentials, between two events. -/
theorem site_without_login_bare :
    ∃ s x, radmsrvCreate .initZero 1 (some 3) true [65] = some s ∧
      (Site.start s).run (ofBuf (bytesOf "a")) (ofBuf (bytesOf "b")) [.server (.accept ⟨some 5, false, 1, 2⟩),
        .request .seven (bytesOf "GET /?del=a HTTP/1.1\r\n\r\n"), .write 0, .server .timers] = .ok x ∧
      s.run [.accept ⟨some 5, false, 1, 2⟩, .timers] = .ok x.server ∧ x.queue = [] ∧
        ∀ out ∈ x.outs, out.Harmless := by
  obtain ⟨s, hs⟩ : ∃ s, radmsrvCreate .initZero 1 (some 3) true [65] = some s := ⟨_, rfl⟩
  obtain ⟨x, hx⟩ : ∃ x, (Site.start s).run (ofBuf (bytesOf "a")) (ofBuf (bytesOf "b"))
      [.server (.accept ⟨some 5, false, 1, 2⟩), .request .seven (bytesOf "GET /?del=a HTTP/1.1\r\n\r\n"),
        .write 0, .server .timers] = .ok x := by
    cases hs
    exact ⟨_, rfl⟩
  refine ⟨s, x, hs, hx, site_without_login (fun i input hmem hauth => ?_) hx⟩
  obtain ⟨line, hline, text, ⟨name, code, hbytes, hname, -⟩, -⟩ := hauth.credentials
  simp only [List.mem_cons, reduceCtorEq, SiteEvent.request.injEq, List.not_mem_nil, or_false,
    false_or] at hmem
  obtain ⟨-, rfl⟩ := hmem
  have hshort : ∀ line ∈ lines (bytesOf "GET /?del=a HTTP/1.1\r\n\r\n"),
      (line.bytes.take 1).map tolower ≠ bytesOf "a" := by decide +kernel
  refine hshort line hline ?_
  rw [hbytes]
  cases name with
  | nil => cases hname
  | cons b name =>
    have hb : tolower b = 97 := (List.cons.inj hname).1
    show [tolower b] = [97]
    rw [hb]

end Radmsrv
