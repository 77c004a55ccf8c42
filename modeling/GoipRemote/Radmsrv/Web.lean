import GoipRemote.Libhttpd.Content
import GoipRemote.Libhttpd.Login
import GoipRemote.Radmsrv.DelLink
import GoipRemote.Radmsrv.WhiteList

/-!
# The web pages (`show_radmclient_list`, `show_radmclient_list_xml`)

A process of its own reads a request, finds the page that it asks for and runs its handler. What it does to
the server are the messages that it writes into `radmsrv_ctl[1]`, the file that it writes, and `startsh`.
`webServe_operator` says what a request has to bring for any of this, and `webServe_login` that it is enough.
-/

namespace Radmsrv

open Utils Relay Libhttpd CString

/-! ## The pages -/

/-- What a page shows of a client. -/
structure Row where
  cli : Ptr
  id : CString
  isRadmin : Int
  host : List UInt8
  port : UInt16

/-- What is sent to the browser. -/
inductive Page where
  /-- `cannot find id` -/
  | unknown (id : CString)
  | refresh (url : List UInt8)
  /-- `401 Please Authenticate` -/
  | login
  | save (report : Report)
  | seeOther (refer : CString)
  | clients (rows : List Row)
  | clientsXml (rows : List Row)
  | notFound
  /-- `Invalid request path` -/
  | invalid
  | silent

/-- Nothing that an operator alone may see. -/
def Page.Open : Page → Prop
  | .unknown _ | .refresh _ | .login | .notFound | .invalid | .silent => True
  | .save _ | .seeOther _ | .clients _ | .clientsXml _ => False

/-- What a handler has done: its page, its messages in their order, what it wrote into the configuration
file, and whether it ran `startsh`. -/
structure WebOut where
  page : Page
  control : List (List UInt8)
  file : Option (List UInt8)
  restart : Bool

/-- A page, and nothing else. -/
def WebOut.show (page : Page) : WebOut := ⟨page, [], none, false⟩

/-- What a handler finds: the server's variables, the address of the browser (`inet_addr` of
`clientAddr`), and what the system answers: for the messages of the address and of an action, for the ports
that are tested, for the configuration file, and for the names of the sockets. -/
structure WebIn where
  htUser : CString
  htPass : CString
  httpport : Int
  srvport : Int
  ip : UInt32
  sent : Bool
  control : Bool
  web : PortIn
  cli : PortIn
  fopen : Bool
  sockname : UInt32
  port : Ptr → UInt16

/-- `sprintf(buf, "IP%u\n", inet_addr(server->clientAddr))`. -/
def ipMessage (ip : UInt32) : List UInt8 := bytesOf "IP" ++ decimal ip.toNat ++ [10]

/-- The three conditions of a login. -/
def authenticated (i : WebIn) (r : HttpReq) : Bool :=
  r.authLength ≠ 0 ∧ strcmp (ofBuf r.authUser) i.htUser = 0 ∧ strcmp (ofBuf r.authPassword) i.htPass = 0

/-- `server->request.host`, where it is printed. -/
def printedHost (r : HttpReq) : Res CString := if 0 ∈ r.host then .ok (ofBuf r.host) else .fault

/-- The `host` of a client, which has 256 bytes; the sockets of the clients are bound to any address. -/
def clientHost (i : WebIn) (r : HttpReq) : Res (List UInt8) :=
  let host := (ofBuf r.host).bytes
  if host = [] then .ok (getIpString i.sockname).bytes
  else if host.length < 256 then .ok (host.takeWhile (· ≠ 58)) else .fault

/-- The rows of a page. -/
def clientRows (i : WebIn) (r : HttpReq) (clients : List (Ptr × Radmcli)) : Res (List Row) :=
  clients.mapM fun a => do
    let host ← clientHost i r
    return ⟨a.1, a.2.id, a.2.isRadmin, host, i.port a.1⟩

/-! ## The handlers -/

/-- The page of `findcli`. The timer of the client is the one of this process. -/
def findPage (s : Server) (i : WebIn) (r : HttpReq) (id : CString) : Res Page := do
  let (cli, _) ← radmsrvFindClient s id 1
  if cli = 0 then return .unknown id
  else do
    let host ← clientHost i r
    let refer := bytesOf "http://" ++ host ++ bytesOf ":" ++ decimal (i.port cli).toNat
    if refer.length < 256 then return .refresh refer else .fault

/-- The parameters of `cfg=write`. -/
def saveIn (i : WebIn) (r : HttpReq) : SaveIn where
  httpport := i.httpport
  srvport := i.srvport
  submit := (httpdGetVariableByName r.vars (ofBuf (bytesOf "Submit"))).map HttpVar.value
  posted := fun j => (httpdGetVariableByName r.vars (ofBuf (cfgname j))).map HttpVar.value
  web := i.web
  cli := i.cli
  control := i.control
  fopen := i.fopen

/-- The branch of `cfg`. -/
def cfgPage (i : WebIn) (r : HttpReq) (cfg : CString) : Res WebOut :=
  if strcmp cfg (ofBuf (bytesOf "write")) = 0 then do
    let out ← saveCfg (saveIn i r)
    let page : WebOut := ⟨.save out.report, out.control.toList, out.file, out.restart⟩
    if out.report = .silent ∨ out.report = .exited then return page
    else do
      let _ ← printedHost r
      return page
  else if i.fopen then
    -- the form shows `value[8]`, of seven rows
    .fault
  else do
    let _ ← printedHost r
    return .show (.save .cannotOpen)

/-- What `httpdAddHeader` appends for `Location`. -/
def locationHeader (refer : CString) : List UInt8 :=
  let header := (bytesOf "Location: " ++ refer.bytes).take 1023
  if header.getLast? = some 10 then header else header ++ [10]

/-- The branch of `del`, where `back` is the page that is shown next if there is no `refer`. The headers
are an array of 1024 bytes. -/
def delPage (i : WebIn) (r : HttpReq) (message : List UInt8) (back : CString) : Res WebOut :=
  if 1024 ≤ message.length then .fault
  else if i.control = false then .ok (.show .silent)
  else
    let refer := ((httpdGetVariableByName r.vars (ofBuf (bytesOf "refer"))).map HttpVar.value).getD back
    if (locationHeader refer).length < 1024 then .ok ⟨.seeOther refer, [message], none, false⟩ else .fault

/-- `show_radmclient_list`, for an operator whose address has been sent. -/
def operatorPage (s : Server) (i : WebIn) (r : HttpReq) : Res WebOut :=
  match httpdGetVariableByName r.vars (ofBuf (bytesOf "cfg")) with
  | some var => cfgPage i r var.value
  | none =>
    match delMessage r.vars with
    | some message => delPage i r message (ofBuf (bytesOf "/"))
    | none => do
      let _ ← printedHost r
      let telnet := (httpdGetVariableByName r.vars (ofBuf (bytesOf "telnet"))).isSome
      let rows ← clientRows i r (s.registry.filter fun a => decide (a.2.isRadmin = 3) = telnet)
      return .show (.clients rows)

/-- `show_radmclient_list`. -/
def showRadmclientList (s : Server) (i : WebIn) (r : HttpReq) : Res WebOut :=
  match httpdGetVariableByName r.vars (ofBuf (bytesOf "findcli")) with
  | some var => do
    let page ← findPage s i r var.value
    return .show page
  | none =>
    if authenticated i r = false then .ok (.show .login)
    else if i.sent = false then .ok (.show .silent)
    else do
      let out ← operatorPage s i r
      return { out with control := ipMessage i.ip :: out.control }

/-- `show_radmclient_list_xml`. -/
def showRadmclientListXml (s : Server) (i : WebIn) (r : HttpReq) : Res WebOut :=
  if authenticated i r = false then .ok (.show .login)
  else
    match delMessage r.vars with
    | some message => delPage i r message (ofBuf (bytesOf "/clients.xml"))
    | none => do
      let rows ← clientRows i r s.registry
      return .show (.clientsXml rows)

/-- The handlers that there are. -/
inductive Handler where
  | showRadmclientList
  | showRadmclientListXml
  deriving DecidableEq

def Handler.run (s : Server) (i : WebIn) (r : HttpReq) : Handler → Res WebOut
  | .showRadmclientList => Radmsrv.showRadmclientList s i r
  | .showRadmclientListXml => Radmsrv.showRadmclientListXml s i r

/-- `create_http_server`, the contents. -/
def createHttpServer : Res (HttpDir Handler) := do
  let content ← httpdAddCContent .init (ofBuf (bytesOf "/")) (ofBuf (bytesOf "index.html")) true none
    .showRadmclientList
  httpdAddCContent content (ofBuf (bytesOf "/")) (ofBuf (bytesOf "clients.xml")) false none
    .showRadmclientListXml

/-- `httpd_accept_callback`, the process of a connection. -/
def webServe (s : Server) (i : WebIn) (input : List UInt8) : Res WebOut := do
  match ← httpdReadRequest input with
  | none => return .show .silent
  | some r => do
    let content ← createHttpServer
    match ← httpdProcessRequest content (ofBuf r.path) with
    | .invalid => return .show .invalid
    | .notFound => return .show .notFound
    | .entry e _ =>
      match e.target with
      | .function f => f.run s i r
      -- no other content has been added
      | .data _ | .path _ => return .show .silent

/-! ## What needs a login -/

section
variable {s : Server} {i : WebIn} {r : HttpReq} {input : List UInt8} {out : WebOut}

/-- Lines with these credentials; a request may bring the user and the password in different ones. -/
structure Authorised (L : List CString) (user password : CString) : Prop where
  credentials : ∃ line ∈ L, ∃ text, Credentials line text ∧ text.bytes ≠ []
  user : user.bytes ≠ [] → ∃ line ∈ L, ∃ text, Credentials line text ∧
    user.bytes = text.bytes.takeWhile (· ≠ 58)
  password : password.bytes ≠ [] → ∃ line ∈ L, ∃ text name, Credentials line text ∧ 58 ∉ name ∧
    text.bytes = name ++ 58 :: password.bytes

theorem Authorised.of_authFrom {L : List CString} (h : AuthFrom L r) (hauth : authenticated i r = true) :
    Authorised L i.htUser i.htPass := by
  unfold authenticated at hauth
  obtain ⟨hlength, huser, hpassword⟩ := of_decide_eq_true hauth
  rw [strcmp_eq_zero] at huser hpassword
  rw [← huser, ← hpassword]
  exact ⟨h.length hlength, h.user, h.password⟩

/-- Nothing has been done that needs a login. -/
structure WebOut.Harmless (out : WebOut) : Prop where
  page : out.page.Open
  control : out.control = []
  file : out.file = none
  restart : out.restart = false

theorem findPage_open {id : CString} {page : Page} (h : findPage s i r id = .ok page) : page.Open := by
  obtain ⟨⟨cli, s'⟩, -, h⟩ := Res.bind_eq_ok.1 h
  dsimp only at h
  by_cases hcli : cli = 0
  · rw [if_pos hcli] at h
    cases h
    trivial
  · rw [if_neg hcli] at h
    obtain ⟨host, -, h⟩ := Res.bind_eq_ok.1 h
    split at h
    · cases h
      trivial
    · cases h

theorem handler_gate {f : Handler} (h : f.run s i r = .ok out) :
    authenticated i r = true ∨ out.Harmless := by
  by_cases hauth : authenticated i r = true
  · exact .inl hauth
  · rw [Bool.not_eq_true] at hauth
    right
    cases f with
    | showRadmclientList =>
      change showRadmclientList s i r = .ok out at h
      unfold showRadmclientList at h
      split at h
      · obtain ⟨page, hpage, h⟩ := Res.bind_eq_ok.1 h
        cases h
        exact ⟨findPage_open hpage, rfl, rfl, rfl⟩
      · rw [if_pos hauth] at h
        cases h
        exact ⟨trivial, rfl, rfl, rfl⟩
    | showRadmclientListXml =>
      change showRadmclientListXml s i r = .ok out at h
      unfold showRadmclientListXml at h
      rw [if_pos hauth] at h
      cases h
      exact ⟨trivial, rfl, rfl, rfl⟩

/-- The answer to a request is one that everybody gets, or that of a handler. -/
theorem webServe_cases (h : webServe s i input = .ok out) : out.Harmless ∨
    ∃ r f, httpdReadRequest input = .ok (some r) ∧ Handler.run s i r f = .ok out := by
  obtain ⟨r, hread, h⟩ := Res.bind_eq_ok.1 h
  cases r with
  | none =>
    cases h
    exact .inl ⟨trivial, rfl, rfl, rfl⟩
  | some r =>
    obtain ⟨content, -, h⟩ := Res.bind_eq_ok.1 h
    obtain ⟨answer, -, h⟩ := Res.bind_eq_ok.1 h
    cases answer with
    | invalid =>
      cases h
      exact .inl ⟨trivial, rfl, rfl, rfl⟩
    | notFound =>
      cases h
      exact .inl ⟨trivial, rfl, rfl, rfl⟩
    | entry e entryName =>
      simp only at h
      split at h
      · exact .inr ⟨r, _, hread, h⟩
      · cases h
        exact .inl ⟨trivial, rfl, rfl, rfl⟩
      · cases h
        exact .inl ⟨trivial, rfl, rfl, rfl⟩

theorem webServe_operator (h : webServe s i input = .ok out) :
    Authorised (lines input) i.htUser i.htPass ∨ out.Harmless := by
  rcases webServe_cases h with hout | ⟨r, f, hread, hrun⟩
  · exact .inr hout
  · rcases handler_gate hrun with hauth | hout
    · exact .inl (.of_authFrom (readRequest_credentials hread) hauth)
    · exact .inr hout

/-! ## The messages -/

/-- The messages that a request may send: the address of its browser, and actions. -/
def WebIn.Sends (i : WebIn) (msg : List UInt8) : Prop :=
  msg = ipMessage i.ip ∨ msg.head? = some 68 ∨ msg.head? = some 87

theorem saveCfg_message {si : SaveIn} {so : SaveOut} (h : saveCfg si = .ok so) :
    ∀ msg ∈ so.control, msg.head? = some 87 := by
  unfold saveCfg at h
  split at h
  · cases h
  · simp only at h
    split at h
    · obtain ⟨web, -, h⟩ := Res.bind_eq_ok.1 h
      split at h
      · cases h
        exact fun msg hmsg => absurd hmsg (Option.not_mem_none msg)
      · obtain ⟨cli, -, h⟩ := Res.bind_eq_ok.1 h
        split at h
        · cases h
          exact fun msg hmsg => absurd hmsg (Option.not_mem_none msg)
        · split at h
          · cases h
          · cases h
            have hwhite : ∀ msg ∈ (si.posted 8).map whiteMessage, msg.head? = some 87 := by
              intro msg hmsg
              obtain ⟨v, -, rfl⟩ := Option.mem_map.1 hmsg
              rfl
            unfold writeBranch
            simp only
            split
            · exact fun msg hmsg => absurd hmsg (Option.not_mem_none msg)
            · split
              · exact hwhite
              · exact hwhite
    · cases h
      exact fun msg hmsg => absurd hmsg (Option.not_mem_none msg)

theorem cfgPage_messages {cfg : CString} (h : cfgPage i r cfg = .ok out) :
    ∀ msg ∈ out.control, msg.head? = some 87 := by
  unfold cfgPage at h
  split at h
  · obtain ⟨so, hso, h⟩ := Res.bind_eq_ok.1 h
    have hmsg : ∀ msg ∈ so.control.toList, msg.head? = some 87 :=
      fun msg hmsg => saveCfg_message hso msg (Option.mem_toList.1 hmsg)
    simp only at h
    split at h
    · cases h
      exact hmsg
    · obtain ⟨host, -, h⟩ := Res.bind_eq_ok.1 h
      cases h
      exact hmsg
  · split at h
    · cases h
    · obtain ⟨host, -, h⟩ := Res.bind_eq_ok.1 h
      cases h
      exact fun msg hmsg => absurd hmsg List.not_mem_nil

theorem delPage_messages {message : List UInt8} {back : CString} (hd : message.head? = some 68)
    (h : delPage i r message back = .ok out) : ∀ msg ∈ out.control, msg.head? = some 68 := by
  unfold delPage at h
  split at h
  · cases h
  · split at h
    · cases h
      exact fun msg hmsg => absurd hmsg List.not_mem_nil
    · simp only at h
      split at h
      · cases h
        intro msg hmsg
        rw [List.mem_singleton.1 hmsg]
        exact hd
      · cases h

theorem delMessage_head {vars : List HttpVar} {message : List UInt8} (h : delMessage vars = some message) :
    message.head? = some 68 := by
  obtain ⟨var, -, rfl⟩ := Option.map_eq_some_iff.1 h
  rfl

theorem operatorPage_messages (h : operatorPage s i r = .ok out) :
    ∀ msg ∈ out.control, msg.head? = some 68 ∨ msg.head? = some 87 := by
  unfold operatorPage at h
  split at h
  · exact fun msg hmsg => .inr (cfgPage_messages h msg hmsg)
  · split at h
    · rename_i message hmessage
      exact fun msg hmsg => .inl (delPage_messages (delMessage_head hmessage) h msg hmsg)
    · obtain ⟨host, -, h⟩ := Res.bind_eq_ok.1 h
      obtain ⟨rows, -, h⟩ := Res.bind_eq_ok.1 h
      cases h
      exact fun msg hmsg => absurd hmsg List.not_mem_nil

/-- No request says that another address has logged in. -/
theorem webServe_messages (h : webServe s i input = .ok out) : ∀ msg ∈ out.control, i.Sends msg := by
  rcases webServe_cases h with hout | ⟨r, f, -, h⟩
  · rw [hout.control]
    exact fun msg hmsg => absurd hmsg List.not_mem_nil
  · cases f with
    | showRadmclientList =>
      change showRadmclientList s i r = .ok out at h
      unfold showRadmclientList at h
      split at h
      · obtain ⟨page, -, h⟩ := Res.bind_eq_ok.1 h
        cases h
        exact fun msg hmsg => absurd hmsg List.not_mem_nil
      · split at h
        · cases h
          exact fun msg hmsg => absurd hmsg List.not_mem_nil
        · split at h
          · cases h
            exact fun msg hmsg => absurd hmsg List.not_mem_nil
          · obtain ⟨o, ho, h⟩ := Res.bind_eq_ok.1 h
            cases h
            intro msg hmsg
            rcases List.mem_cons.1 hmsg with rfl | hmsg
            · exact .inl rfl
            · exact .inr (operatorPage_messages ho msg hmsg)
    | showRadmclientListXml =>
      change showRadmclientListXml s i r = .ok out at h
      unfold showRadmclientListXml at h
      split at h
      · cases h
        exact fun msg hmsg => absurd hmsg List.not_mem_nil
      · split at h
        · rename_i message hmessage
          exact fun msg hmsg => .inr (.inl (delPage_messages (delMessage_head hmessage) h msg hmsg))
        · obtain ⟨rows, -, h⟩ := Res.bind_eq_ok.1 h
          cases h
          exact fun msg hmsg => absurd hmsg List.not_mem_nil

/-! ## A login -/

/-- The paths of the page that shows the clients. -/
def indexPaths : List (List UInt8) := [bytesOf "/", bytesOf "/index.html"]

theorem createHttpServer_route {path : List UInt8} (hpath : path ∈ indexPaths) :
    ∃ content e entryName, createHttpServer = .ok content ∧
      httpdProcessRequest content (ofBuf path) = .ok (.entry e entryName) ∧
      e.target = .function .showRadmclientList := by
  rcases List.mem_cons.1 hpath with rfl | hpath
  · exact ⟨_, _, _, rfl, rfl, rfl⟩
  · rw [List.mem_singleton.1 hpath]
    exact ⟨_, _, _, rfl, rfl, rfl⟩

/-- **The login**: the request of a browser for the page, with the credentials of the operator, sends the
address of the browser before anything else. -/
theorem webServe_login {s : Server} {i : WebIn} {out : WebOut} {l : Login} {vars : List HttpVar} (t : UrlPath)
    (before after : List PlainHeader) (hvars : pathVariables (47 :: t.url) = .ok vars)
    (hpage : contentPath (47 :: t.url) ∈ indexPaths)
    (hfind : httpdGetVariableByName vars (ofBuf (bytesOf "findcli")) = none)
    (huser : l.user = i.htUser) (hpass : l.password = i.htPass) (hsent : i.sent = true)
    (h : webServe s i (browserRequest t before after l) = .ok out) :
    out.control.head? = some (ipMessage i.ip) := by
  obtain ⟨r, hread, hruser, hrpass, hlength, hpath, rfl⟩ := readRequest_login t before after l hvars
  obtain ⟨content, e, entryName, hcontent, hroute, htarget⟩ := createHttpServer_route hpage
  have hauth : authenticated i r = true := by
    unfold authenticated
    rw [hruser, hrpass, huser, hpass]
    simp [hlength, strcmp_self]
  have hlist : showRadmclientList s i r = .ok out := by
    unfold webServe at h
    rw [hread, Res.ok_bind] at h
    simp only at h
    rw [hcontent, Res.ok_bind, hpath, hroute, Res.ok_bind] at h
    simp only [htarget] at h
    exact h
  unfold showRadmclientList at hlist
  rw [hfind] at hlist
  simp only at hlist
  rw [hauth, if_neg (by decide), hsent, if_neg (by decide)] at hlist
  obtain ⟨o, -, ho⟩ := Res.bind_eq_ok.1 hlist
  cases ho
  rfl

/-! ## What the server reads of them -/

theorem isdigit_decimal {n : Nat} {b : UInt8} (h : b ∈ decimal n) : isdigit b = true := by
  have := decimal_digit h
  simp only [isdigit, UInt8.le_iff_toNat_le, decide_eq_true_eq]
  exact this

theorem foldl_decimal (n : Nat) : (decimal n).foldl (fun n b => 10 * n + (b.toNat - 48)) 0 = n := by
  induction n using Nat.strongRecOn with
  | ind n ih =>
    have hdigit : ∀ d < 10, (Strtol.digitByte d).toNat - 48 = d := by decide
    change (Strtol.decimal n).foldl _ 0 = n
    rw [Strtol.decimal_eq]
    split
    · rename_i hn
      simpa using hdigit n hn
    · have hrest : (Strtol.decimal (n / 10)).foldl (fun n b => 10 * n + (b.toNat - 48)) 0 = n / 10 :=
        ih (n / 10) (by omega)
      rw [List.foldl_append, hrest, List.foldl_cons, List.foldl_nil, hdigit _ (Nat.mod_lt n (by omega))]
      omega

theorem scanUnsigned_decimal (ip : UInt32) (rest : List UInt8) :
    scanUnsigned (decimal ip.toNat ++ 10 :: rest) = some ip := by
  obtain ⟨d, t, hcons, hd⟩ := Strtol.decimal_cons ip.toNat
  change decimal ip.toNat = _ at hcons
  have hbyte : ∀ d < 10, isspace (Strtol.digitByte d) = false ∧ Strtol.digitByte d ≠ 45 ∧
      Strtol.digitByte d ≠ 43 := by decide
  obtain ⟨hspace, hminus, hplus⟩ := hbyte d hd
  have hdigits : (decimal ip.toNat ++ 10 :: rest).takeWhile isdigit = decimal ip.toNat := by
    rw [List.takeWhile_append_of_pos fun b hb => isdigit_decimal hb, List.takeWhile_cons_of_neg (by decide),
      List.append_nil]
  have hdrop : (decimal ip.toNat ++ 10 :: rest).dropWhile isspace = decimal ip.toNat ++ 10 :: rest := by
    rw [hcons, List.cons_append, List.dropWhile_cons_of_neg (by simp [hspace])]
  have hhead : (decimal ip.toNat ++ 10 :: rest).head? = some (Strtol.digitByte d) := by
    rw [hcons]
    rfl
  have hlt : ip.toNat < 2 ^ 32 := ip.toNat_lt
  unfold scanUnsigned
  simp only [hdrop, hhead, Option.some.injEq, hminus, hplus, or_self, if_false, hdigits, foldl_decimal]
  rw [if_neg (by rw [hcons]; simp), min_eq_left (by omega)]
  simp

section
variable {c : CtlIn}

/-- The address that a message names is the one that is added. -/
theorem decodeCtl_ip {ip : UInt32} (hmsg : c.msg = ipMessage ip) :
    decodeCtl c = .ok (some (.ip ip c.ipData c.timer)) := by
  have hlen : c.msg.length ≤ 4096 := by
    have hdecimal : (Strtol.decimal ip.toNat).length ≤ 10 :=
      Strtol.length_decimal_le (by decide) (Nat.lt_trans ip.toNat_lt (by decide))
    rw [hmsg, ipMessage, List.length_append, List.length_append]
    change 2 + (Strtol.decimal ip.toNat).length + 1 ≤ 4096
    omega
  have hread : c.read = 73 :: 80 :: (decimal ip.toNat ++ 10 :: c.buf.drop c.msg.length) := by
    unfold CtlIn.read
    rw [List.take_of_length_le hlen, hmsg, ipMessage]
    simp [bytesOf]
  unfold decodeCtl
  rw [hread]
  simp only
  rw [if_neg (by simp), if_pos (by rfl)]
  change Res.ok (some (Ctl.ip ((scanUnsigned (decimal ip.toNat ++ 10 :: _)).getD c.ip) c.ipData c.timer)) = _
  rw [scanUnsigned_decimal, Option.getD_some]

/-- The other messages add no address. -/
theorem decodeCtl_action {ctl : Ctl} (hmsg : c.msg.head? = some 68 ∨ c.msg.head? = some 87)
    (h : decodeCtl c = .ok (some ctl)) (ip : UInt32) (ipData timer : Ptr) : ctl ≠ .ip ip ipData timer := by
  obtain ⟨b, msg, hcons⟩ : ∃ b msg, c.msg = b :: msg := by
    cases hm : c.msg with
    | nil => simp [hm] at hmsg
    | cons b msg => exact ⟨b, msg, rfl⟩
  rw [hcons, List.head?_cons, Option.some.injEq, Option.some.injEq] at hmsg
  obtain ⟨rest, hread⟩ : ∃ rest, c.read = b :: rest := by
    unfold CtlIn.read
    rw [hcons]
    exact ⟨_, rfl⟩
  unfold decodeCtl at h
  rw [hread] at h
  simp only [List.head?_cons, Option.some.injEq] at h
  rintro rfl
  rcases hmsg with rfl | rfl
  · rw [if_pos rfl] at h
    split at h
    · cases h
    · obtain ⟨buf, -, h⟩ := Res.bind_eq_ok.1 h
      split at h
      · cases h
      · cases h
  · rw [if_neg (by decide), if_neg (by simp [bytesOf]), if_pos rfl] at h
    split at h
    · cases h
    · cases h

end

end

end Radmsrv
