import GoipRemote.Lib.Strtol
import GoipRemote.Libhttpd.Decode
import GoipRemote.Libhttpd.Url

/-!
# A whole request (`httpdReadRequest`)

The request line, the headers one after the other, the body of a form and the URL data. A request is read
by the process of one connection, whose `request` and variables are empty before.
`readRequest_login` says that the credentials of a browser's request arrive as they were, and
`readRequest_credentials` that none arrive but from an `Authorization` line.
-/

namespace Libhttpd

open Buffer CString Strtol

/-! ## The state -/

/-- `httpReq`, and the variables. The path is its string; the other arrays are their cells. -/
structure HttpReq where
  method : Nat
  contentLength : Int
  authLength : Nat
  path : List UInt8
  host : List UInt8
  referer : List UInt8
  ifModified : List UInt8
  contentType : List UInt8
  authUser : List UInt8
  authPassword : List UInt8
  vars : List HttpVar
  deriving DecidableEq

/-- `bzero(&server->request, sizeof(server->request))`. -/
def HttpReq.init : HttpReq where
  method := 0
  contentLength := 0
  authLength := 0
  path := []
  host := List.replicate 1024 0
  referer := List.replicate 1024 0
  ifModified := List.replicate 1024 0
  contentType := List.replicate 1024 0
  authUser := List.replicate 128 0
  authPassword := List.replicate 128 0
  vars := []

/-- `strncpy(.., src, n)`. -/
def strncpy (src : CString) (n : Nat) : List UInt8 := (src.bytes ++ List.replicate n 0).take n

/-- `tolower`, in the C locale. -/
def tolower (b : UInt8) : UInt8 := if 65 ≤ b ∧ b ≤ 90 then b + 32 else b

/-- `strncasecmp(buf, name, n) == 0`. -/
def sameHeader (buf : CString) (name : List UInt8) (n : Nat) : Bool :=
  (buf.bytes.take n).map tolower = (name.take n).map tolower

/-- `strchr(buf, ':') + 2`, of a header that has been recognised. -/
def headerValue (buf : CString) : CString := ofBuf ((buf.bytes.dropWhile (· ≠ 58)).drop 2)

/-! ## The headers -/

/-- The loop over the cookies: `var` are the bytes from `var` on, and `val` those from `val` on. -/
def cookieLoop (vars : List HttpVar) (var : List UInt8) :
    Option (List UInt8) → List UInt8 → Res (List HttpVar)
  -- there is no sign to write through
  | none, [] => .fault
  | some val, [] => .ok (httpdAddVariable vars (ofBuf var) (ofBuf val))
  | none, c :: text =>
    if c = 61 then cookieLoop vars var (some []) text else cookieLoop vars (var ++ [c]) none text
  | some val, c :: text =>
    if c = 59 then cookieLoop (httpdAddVariable vars (ofBuf var) (ofBuf val)) [] none text
    else cookieLoop vars var (some (val ++ [c])) text

/-- `Cookie`: the comparison is of seven bytes. -/
def cookieHeader (r : HttpReq) (buf : CString) : Res HttpReq :=
  if sameHeader buf (bytesOf "Cookie: ") 7 then do
    let vars ← cookieLoop r.vars [] none ((buf.bytes.dropWhile (· ≠ 58)).drop 1)
    return { r with vars }
  else .ok r

/-- The credentials, from `authBuf` on. -/
def storeAuth (r : HttpReq) (authBuf : CString) : HttpReq :=
  let r := { r with authLength := authBuf.bytes.length }
  let r :=
    match authBuf.bytes.dropWhile (· ≠ 58) with
    | [] => r
    | _ :: password => { r with authPassword := strncpy (ofBuf password) 128 }
  { r with authUser := strncpy (ofBuf (authBuf.bytes.takeWhile (· ≠ 58))) 128 }

/-- `Authorization`. The terminator of 100 decoded bytes is written behind `authBuf`. -/
def authHeader (r : HttpReq) (buf : CString) : Res HttpReq :=
  if sameHeader buf (bytesOf "Authorization: ") 15 then
    let cp := headerValue buf
    if cp.bytes.take 6 ≠ bytesOf "Basic " then .ok r
    else do
      let space ← httpdDecode (ofBuf ((cp.bytes.dropWhile (· ≠ 32)).drop 1)) 100
      if space.length < 100 then return storeAuth r (ofBuf space) else .fault
  else .ok r

/-- `Host`. -/
def hostHeader (r : HttpReq) (buf : CString) : HttpReq :=
  if sameHeader buf (bytesOf "Host: ") 6 then { r with host := strncpy (headerValue buf) 1024 } else r

/-- `Referer`. -/
def refererHeader (r : HttpReq) (buf : CString) : HttpReq :=
  if sameHeader buf (bytesOf "Referer: ") 9 then { r with referer := strncpy (headerValue buf) 1024 } else r

/-- `If-Modified-Since`, which is cut at its first `;`. -/
def ifModifiedHeader (r : HttpReq) (buf : CString) : Res HttpReq :=
  if sameHeader buf (bytesOf "If-Modified-Since: ") 19 then
    let ifModified := strncpy (headerValue buf) 1024
    match ifModified.dropWhile (fun b => b ≠ 59 ∧ b ≠ 0) with
    | [] => .fault
    | b :: _ =>
      let i := (ifModified.takeWhile fun b => b ≠ 59 ∧ b ≠ 0).length
      .ok { r with ifModified := if b = 59 then ifModified.set i 0 else ifModified }
  else .ok r

/-- `Content-Type`. -/
def contentTypeHeader (r : HttpReq) (buf : CString) : HttpReq :=
  if sameHeader buf (bytesOf "Content-Type: ") 14 then
    { r with contentType := strncpy (headerValue buf) 1024 }
  else r

/-- `Content-Length`, with `atoi`. -/
def contentLengthHeader (r : HttpReq) (buf : CString) : HttpReq :=
  if sameHeader buf (bytesOf "Content-Length: ") 16 then
    { r with contentLength := Int.bmod (strtol 10 (headerValue buf).bytes).value (2 ^ 32) }
  else r

/-- One line of the headers. -/
def requestHeader (r : HttpReq) (buf : CString) : Res HttpReq := do
  let r ← cookieHeader r buf
  let r ← authHeader r buf
  let r := refererHeader (hostHeader r buf) buf
  let r ← ifModifiedHeader r buf
  return contentLengthHeader (contentTypeHeader r buf) buf

/-- The lines up to an empty one, and what is behind it. Each line takes a byte, at least. -/
def readHeaders : Nat → HttpReq → List UInt8 → Res (HttpReq × List UInt8)
  | 0, _, _ => .fault
  | fuel + 1, r, input => do
    match ← httpdReadLine 10240 input with
    | none => return (r, [])
    | some (line, rest) =>
      let buf := ofBuf line
      if buf.bytes = [] then return (r, rest)
      else do
        let r ← requestHeader r buf
        readHeaders fuel r rest

/-! ## The request -/

/-- The request line; nothing where the method is neither of the two. -/
def requestLine (r : HttpReq) (buf : List UInt8) : Res (Option HttpReq) :=
  match requestPath buf with
  | none => .ok none
  | some path =>
    let method := if sameWord (buf.takeWhile isalpha) (bytesOf "get") then 1 else 2
    -- `request.path` has no terminator where the path fills it
    if path.length < 1024 then .ok (some { r with method, path := httpdSanitiseUrl path }) else .fault

/-- The body of a form. `buf` has 10240 bytes, and is read as a string. -/
def requestBody (r : HttpReq) (input : List UInt8) : Res HttpReq :=
  if 0 < r.contentLength ∧
      (ofBuf r.contentType).bytes = bytesOf "application/x-www-form-urlencoded" then do
    let buf ← storeAll (List.replicate 10240 0) 0 (input.take r.contentLength.toNat)
    if 0 ∈ buf then do
      let vars ← httpdStoreData r.vars (ofBuf buf).bytes
      return { r with vars }
    else .fault
  else .ok r

/-- The URL data. -/
def requestUrl (r : HttpReq) : Res HttpReq :=
  match r.path.dropWhile (· ≠ 63) with
  | [] => .ok r
  | _ :: query => do
    let vars ← httpdStoreData r.vars query
    return { r with path := r.path.takeWhile (· ≠ 63), vars }

/-- `httpdReadRequest`, of what the client sends before it ends or pauses; nothing for `-1`. -/
def httpdReadRequest (input : List UInt8) : Res (Option HttpReq) := do
  match ← httpdReadLine 10240 input with
  | none => do
    let r ← requestBody .init []
    let r ← requestUrl r
    return some r
  | some (line, rest) =>
    match ← requestLine .init line with
    | none => return none
    | some r => do
      let (r, rest) ← readHeaders (rest.length + 1) r rest
      let r ← requestBody r rest
      let r ← requestUrl r
      return some r

/-! ## Reading lines -/

/-- The lines of an input, without their carriage returns. -/
def lines (input : List UInt8) : List CString :=
  (input.splitOn 10).map fun line => ofBuf (line.filter (· ≠ 13))

theorem lines_cons {line : List UInt8} (hline : 10 ∉ line) (rest : List UInt8) :
    lines (line ++ 10 :: rest) = ofBuf (line.filter (· ≠ 13)) :: lines rest := by
  rw [lines, List.splitOn_append_cons_self_of_not_mem hline]
  rfl

/-- What has been read is a line, and it has been taken from the input. -/
theorem readLine_some {room : Nat} {input line rest : List UInt8}
    (h : httpdReadLine room input = .ok (some (line, rest))) :
    ∃ raw, input = raw ++ 10 :: rest ∧ 10 ∉ raw ∧ line = raw.filter (· ≠ 13) := by
  induction input generalizing room line with
  | nil =>
    rw [httpdReadLine] at h
    split at h
    · cases h
    · cases h
  | cons c input ih =>
    rw [httpdReadLine] at h
    split at h
    · cases h
    · split at h
      · rename_i hc
        cases h
        exact ⟨[], by rw [hc]; rfl, List.not_mem_nil, rfl⟩
      · rename_i hline
        split at h
        · rename_i hc
          obtain ⟨raw, hinput, hraw, hl⟩ := ih h
          refine ⟨c :: raw, by rw [hinput]; rfl, ?_, ?_⟩
          · simpa [Ne.symm hline] using hraw
          · rw [hl, List.filter_cons_of_neg (by simp [hc])]
        · rename_i hc
          obtain ⟨l, hl, hmap⟩ := Res.bind_eq_ok.1 h
          cases l with
          | none => cases hmap
          | some l =>
            obtain ⟨l, rest'⟩ := l
            cases hmap
            obtain ⟨raw, hinput, hraw, hl⟩ := ih hl
            refine ⟨c :: raw, by rw [hinput]; rfl, ?_, ?_⟩
            · simpa [Ne.symm hline] using hraw
            · rw [hl, List.filter_cons_of_pos (by simp [hc])]

/-- Every line takes a byte of the input, so that the lines do not run out of fuel. -/
theorem readHeaders_fuel {fuel fuel' : Nat} {input : List UInt8} (h : input.length < fuel)
    (h' : input.length < fuel') (r : HttpReq) : readHeaders fuel r input = readHeaders fuel' r input := by
  induction fuel generalizing fuel' input r with
  | zero => omega
  | succ fuel ih =>
    obtain ⟨fuel', rfl⟩ := Nat.exists_eq_succ_of_ne_zero (Nat.ne_of_gt (Nat.zero_lt_of_lt h'))
    rw [readHeaders, readHeaders]
    cases hread : httpdReadLine 10240 input with
    | exit => rfl
    | fault => rfl
    | ok l =>
      cases l with
      | none => rfl
      | some l =>
        obtain ⟨line, rest⟩ := l
        obtain ⟨raw, rfl, -, -⟩ := readLine_some hread
        rw [List.length_append, List.length_cons] at h h'
        simp only [Res.ok_bind]
        split
        · rfl
        · cases requestHeader r (ofBuf line) with
          | exit => rfl
          | fault => rfl
          | ok r' => exact ih (by omega) (by omega) r'

/-! ## Recognising a header -/

theorem tolower_colon {b : UInt8} : tolower b = 58 ↔ b = 58 := by
  revert b
  exact @forall_byte (fun b => tolower b = 58 ↔ b = 58) (by decide +kernel)

theorem dropWhile_colon {name rest : List UInt8} (hname : 58 ∉ name) :
    (name ++ 58 :: rest).dropWhile (· ≠ 58) = 58 :: rest := by
  rw [List.dropWhile_append_of_pos fun b hb => by simpa using ne_of_mem_of_not_mem hb hname]
  rfl

/-- The value of a header is what is behind its name. -/
theorem headerValue_of_same {buf : CString} {name : List UInt8} (hname : 58 ∉ name.map tolower)
    (h : sameHeader buf (name ++ [58, 32]) (name.length + 2)) :
    ∃ front, buf.bytes = front ++ (headerValue buf).bytes ∧
      front.map tolower = name.map tolower ++ [58, 32] := by
  have hfront : (buf.bytes.take (name.length + 2)).map tolower = name.map tolower ++ [58, 32] := by
    have htake : (name ++ [58, 32]).take (name.length + 2) = name ++ [58, 32] :=
      List.take_of_length_le (by simp)
    have htail : [58, 32].map tolower = [58, 32] := by decide
    unfold sameHeader at h
    rw [htake, List.map_append, htail] at h
    exact of_decide_eq_true h
  refine ⟨buf.bytes.take (name.length + 2), ?_, hfront⟩
  obtain ⟨first, second, hsplit, hfirst, hsecond⟩ := List.map_eq_append_iff.1 hfront
  obtain ⟨b, second, rfl, hb, hrest⟩ := List.map_eq_cons_iff.1 hsecond
  obtain ⟨c, second, rfl, -, hnil⟩ := List.map_eq_cons_iff.1 hrest
  cases List.map_eq_nil_iff.1 hnil
  have hcolon : 58 ∉ first := by
    intro hmem
    apply hname
    rw [← hfirst]
    exact List.mem_map.2 ⟨58, hmem, rfl⟩
  have hbuf : buf.bytes = first ++ 58 :: c :: buf.bytes.drop (name.length + 2) := by
    conv_lhs => rw [← List.take_append_drop (name.length + 2) buf.bytes, hsplit, tolower_colon.1 hb]
    simp
  have hvalue : (headerValue buf).bytes = buf.bytes.drop (name.length + 2) := by
    unfold headerValue
    rw [hbuf, dropWhile_colon hcolon, ← hbuf]
    exact ofBuf_bytes fun b hb => buf.ne_zero b (List.mem_of_mem_drop hb)
  rw [hvalue, List.take_append_drop]

/-! ## Where credentials come from -/

/-- A header line with credentials, and the text that they are. -/
def Credentials (line text : CString) : Prop :=
  ∃ name code, line.bytes = name ++ bytesOf "Basic " ++ code ∧
    name.map tolower = bytesOf "authorization: " ∧ text = ofBuf (Base64.decode (Base64.digits code))

/-- The credentials of a request are those of its lines. -/
structure AuthFrom (L : List CString) (r : HttpReq) : Prop where
  length : r.authLength ≠ 0 → ∃ line ∈ L, ∃ text, Credentials line text ∧ text.bytes ≠ []
  user : (ofBuf r.authUser).bytes ≠ [] → ∃ line ∈ L, ∃ text, Credentials line text ∧
    (ofBuf r.authUser).bytes = text.bytes.takeWhile (· ≠ 58)
  password : (ofBuf r.authPassword).bytes ≠ [] → ∃ line ∈ L, ∃ text user, Credentials line text ∧
    58 ∉ user ∧ text.bytes = user ++ 58 :: (ofBuf r.authPassword).bytes

theorem ofBuf_strncpy {src : CString} {n : Nat} (h : src.bytes.length < n) : ofBuf (strncpy src n) = src := by
  obtain ⟨k, rfl⟩ : ∃ k, n = src.bytes.length + (k + 1) := ⟨n - src.bytes.length - 1, by omega⟩
  have hcells : strncpy src (src.bytes.length + (k + 1)) = src.bytes ++ 0 :: List.replicate k 0 := by
    rw [strncpy, List.take_length_add_append, List.take_replicate, min_eq_left (by omega)]
    rfl
  rw [hcells, ofBuf_append]

/-- A decoder that has not left its table has seen nothing but ASCII. -/
theorem decode_ascii {size : Nat} {text : List UInt8} {s s' : Decoder}
    (h : text.foldlM (decodeByte size) s = .ok s') : ∀ c ∈ text, c < 128 := by
  induction text generalizing s with
  | nil => intro c hc; cases hc
  | cons b text ih =>
    rw [List.foldlM_cons] at h
    obtain ⟨s₁, hbyte, hrest⟩ := Res.bind_eq_ok.1 h
    intro c hc
    rcases List.mem_cons.1 hc with rfl | hc
    · by_contra hlt
      unfold decodeByte at hbyte
      rw [if_neg hlt] at hbyte
      cases hbyte
    · exact ih hrest c hc

theorem httpdDecode_ok {str : CString} {size : Nat} {space : List UInt8}
    (h : httpdDecode str size = .ok space) :
    space = (Base64.decode (Base64.digits str.bytes)).take size := by
  have hascii : ∀ c ∈ str.bytes, c < 128 := by
    unfold httpdDecode at h
    obtain ⟨s, hs, -⟩ := Res.bind_eq_ok.1 h
    exact decode_ascii hs
  rw [httpdDecode_eq hascii] at h
  cases h
  rfl

/-- What an `Authorization` header does: nothing, or it stores credentials of its line. -/
theorem authHeader_ok {r r' : HttpReq} {buf : CString} (h : authHeader r buf = .ok r') :
    r' = r ∨ ∃ text, Credentials buf text ∧ text.bytes.length < 100 ∧ r' = storeAuth r text := by
  unfold authHeader at h
  split at h
  · rename_i hsame
    simp only at h
    split at h
    · cases h
      exact .inl rfl
    · rename_i hbasic
      obtain ⟨space, hspace, hstore⟩ := Res.bind_eq_ok.1 h
      split at hstore
      · rename_i hlen
        cases hstore
        obtain ⟨front, hbuf, hfront⟩ :=
          @headerValue_of_same buf (bytesOf "Authorization") (by decide +kernel) hsame
        -- the scheme, and the code behind its space
        have hcode : (headerValue buf).bytes = bytesOf "Basic " ++ (headerValue buf).bytes.drop 6 := by
          rw [← not_not.1 hbasic, List.take_append_drop]
        have hdrop : ((headerValue buf).bytes.dropWhile (· ≠ 32)).drop 1 =
            (headerValue buf).bytes.drop 6 := by
          rw [hcode]
          rfl
        have hne : ∀ b ∈ (headerValue buf).bytes.drop 6, b ≠ 0 :=
          fun b hb => (headerValue buf).ne_zero b (List.mem_of_mem_drop hb)
        rw [hdrop] at hspace
        have htake := httpdDecode_ok hspace
        rw [ofBuf_bytes hne] at htake
        have hall : space = Base64.decode (Base64.digits ((headerValue buf).bytes.drop 6)) := by
          rw [htake]
          apply List.take_of_length_le
          rw [htake, List.length_take] at hlen
          omega
        refine .inr ⟨ofBuf space, ⟨front, (headerValue buf).bytes.drop 6, ?_, hfront, by rw [hall]⟩, ?_, rfl⟩
        · rw [List.append_assoc, ← hcode]
          exact hbuf
        · exact (List.takeWhile_prefix _).length_le.trans_lt hlen
      · cases hstore
  · cases h
    exact .inl rfl

/-- The credentials are those of the other request. -/
structure SameAuth (r r' : HttpReq) : Prop where
  length : r'.authLength = r.authLength
  user : r'.authUser = r.authUser
  password : r'.authPassword = r.authPassword

theorem AuthFrom.same {L : List CString} {r r' : HttpReq} (h : AuthFrom L r) (hsame : SameAuth r r') :
    AuthFrom L r' where
  length := by
    rw [hsame.length]
    exact h.length
  user := by
    rw [hsame.user]
    exact h.user
  password := by
    rw [hsame.password]
    exact h.password

theorem authFrom_init (L : List CString) : AuthFrom L .init := by
  have hempty : (ofBuf (List.replicate 128 0)).bytes = [] := by decide
  exact ⟨fun h => absurd rfl h, fun h => absurd hempty h, fun h => absurd hempty h⟩

theorem AuthFrom.store {L : List CString} {r : HttpReq} {line text : CString} (h : AuthFrom L r)
    (hline : line ∈ L) (htext : Credentials line text) (hlen : text.bytes.length < 100) :
    AuthFrom L (storeAuth r text) := by
  have hne : ∀ b ∈ text.bytes.takeWhile (· ≠ 58), b ≠ 0 :=
    fun b hb => text.ne_zero b ((List.takeWhile_prefix _).subset hb)
  have huser : (ofBuf (storeAuth r text).authUser).bytes = text.bytes.takeWhile (· ≠ 58) := by
    have hshort := (@List.takeWhile_prefix _ text.bytes fun b : UInt8 => decide (b ≠ 58)).length_le
    show (ofBuf (strncpy (ofBuf (text.bytes.takeWhile (· ≠ 58))) 128)).bytes = _
    rw [ofBuf_strncpy (by rw [ofBuf_bytes hne]; omega), ofBuf_bytes hne]
  have hlength : (storeAuth r text).authLength = text.bytes.length := by
    unfold storeAuth
    simp only
    split <;> rfl
  refine ⟨fun hne => ⟨line, hline, text, htext, ?_⟩, fun _ => ⟨line, hline, text, htext, huser⟩, ?_⟩
  · rw [hlength] at hne
    exact List.length_pos_iff.1 (Nat.pos_of_ne_zero hne)
  have hsplit := @List.takeWhile_append_dropWhile _ (fun b : UInt8 => decide (b ≠ 58)) text.bytes
  cases hrest : text.bytes.dropWhile (· ≠ 58) with
  | nil =>
    have hkept : (storeAuth r text).authPassword = r.authPassword := by
      unfold storeAuth
      rw [hrest]
    rw [hkept]
    exact h.password
  | cons b password =>
    have hb : b = 58 := by
      have := List.head?_dropWhile_not (· ≠ 58) text.bytes
      rw [hrest] at this
      simpa using this
    subst hb
    have hpass : ∀ c ∈ password, c ≠ 0 := by
      intro c hc
      apply text.ne_zero c
      rw [← hsplit, hrest]
      exact List.mem_append_right _ (List.mem_cons_of_mem _ hc)
    have hstored : (ofBuf (storeAuth r text).authPassword).bytes = password := by
      have hfield : (storeAuth r text).authPassword = strncpy (ofBuf password) 128 := by
        unfold storeAuth
        rw [hrest]
      have hshort : password.length < 128 := by
        have := congrArg List.length hsplit
        rw [hrest, List.length_append, List.length_cons] at this
        omega
      rw [hfield, ofBuf_strncpy (by rw [ofBuf_bytes hpass]; exact hshort), ofBuf_bytes hpass]
    intro _
    refine ⟨line, hline, text, text.bytes.takeWhile (· ≠ 58), htext, ?_, ?_⟩
    · intro hmem
      simpa using List.mem_takeWhile_imp hmem
    · rw [hstored, ← hrest, hsplit]

theorem cookieHeader_same {r r' : HttpReq} {buf : CString} (h : cookieHeader r buf = .ok r') :
    SameAuth r r' := by
  unfold cookieHeader at h
  split at h
  · obtain ⟨vars, -, hr'⟩ := Res.bind_eq_ok.1 h
    cases hr'
    exact ⟨rfl, rfl, rfl⟩
  · cases h
    exact ⟨rfl, rfl, rfl⟩

theorem ifModifiedHeader_same {r r' : HttpReq} {buf : CString} (h : ifModifiedHeader r buf = .ok r') :
    SameAuth r r' := by
  unfold ifModifiedHeader at h
  split at h
  · simp only at h
    split at h
    · cases h
    · cases h
      exact ⟨rfl, rfl, rfl⟩
  · cases h
    exact ⟨rfl, rfl, rfl⟩

theorem stored_same (r : HttpReq) (buf : CString) :
    SameAuth r (refererHeader (hostHeader r buf) buf) ∧
      SameAuth r (contentLengthHeader (contentTypeHeader r buf) buf) := by
  unfold refererHeader hostHeader contentLengthHeader contentTypeHeader
  refine ⟨⟨?_, ?_, ?_⟩, ⟨?_, ?_, ?_⟩⟩
  all_goals
    split
    · split <;> rfl
    · split <;> rfl

/-- A header keeps the credentials those of the lines. -/
theorem AuthFrom.header {L : List CString} {r r' : HttpReq} {buf : CString} (h : AuthFrom L r)
    (hbuf : buf ∈ L) (hrun : requestHeader r buf = .ok r') : AuthFrom L r' := by
  obtain ⟨r₁, hcookie, hrun⟩ := Res.bind_eq_ok.1 hrun
  obtain ⟨r₂, hauth, hrun⟩ := Res.bind_eq_ok.1 hrun
  obtain ⟨r₃, hmodified, hr'⟩ := Res.bind_eq_ok.1 hrun
  cases hr'
  have h₁ := h.same (cookieHeader_same hcookie)
  have h₂ : AuthFrom L r₂ := by
    rcases authHeader_ok hauth with rfl | ⟨text, htext, hlen, rfl⟩
    · exact h₁
    · exact h₁.store hbuf htext hlen
  exact ((h₂.same (stored_same r₂ buf).1).same (ifModifiedHeader_same hmodified)).same (stored_same r₃ buf).2

theorem AuthFrom.headers {L : List CString} {fuel : Nat} {r r' : HttpReq} {input rest : List UInt8}
    (h : AuthFrom L r) (hinput : ∀ line ∈ lines input, line ∈ L)
    (hrun : readHeaders fuel r input = .ok (r', rest)) : AuthFrom L r' := by
  induction fuel generalizing r input with
  | zero => cases hrun
  | succ fuel ih =>
    rw [readHeaders] at hrun
    obtain ⟨l, hread, hrun⟩ := Res.bind_eq_ok.1 hrun
    cases l with
    | none =>
      cases hrun
      exact h
    | some l =>
      obtain ⟨line, input'⟩ := l
      obtain ⟨raw, rfl, hraw, rfl⟩ := readLine_some hread
      rw [lines_cons hraw] at hinput
      simp only at hrun
      split at hrun
      · cases hrun
        exact h
      · obtain ⟨r₁, hheader, hrun⟩ := Res.bind_eq_ok.1 hrun
        exact ih (h.header (hinput _ List.mem_cons_self) hheader)
          (fun l hl => hinput l (List.mem_cons_of_mem _ hl)) hrun

theorem requestBody_same {r r' : HttpReq} {input : List UInt8} (h : requestBody r input = .ok r') :
    SameAuth r r' := by
  unfold requestBody at h
  split at h
  · obtain ⟨buf, -, h⟩ := Res.bind_eq_ok.1 h
    split at h
    · obtain ⟨vars, -, h⟩ := Res.bind_eq_ok.1 h
      cases h
      exact ⟨rfl, rfl, rfl⟩
    · cases h
  · cases h
    exact ⟨rfl, rfl, rfl⟩

theorem requestUrl_same {r r' : HttpReq} (h : requestUrl r = .ok r') : SameAuth r r' := by
  unfold requestUrl at h
  split at h
  · cases h
    exact ⟨rfl, rfl, rfl⟩
  · obtain ⟨vars, -, h⟩ := Res.bind_eq_ok.1 h
    cases h
    exact ⟨rfl, rfl, rfl⟩

theorem requestLine_same {r r' : HttpReq} {buf : List UInt8} (h : requestLine r buf = .ok (some r')) :
    SameAuth r r' := by
  unfold requestLine at h
  split at h
  · cases h
  · simp only at h
    split at h
    · cases h
      exact ⟨rfl, rfl, rfl⟩
    · cases h

/-- **No credentials** but those of an `Authorization` line of the request: whatever the client sends, a
user and a password that are not empty have been decoded from its lines. -/
theorem readRequest_credentials {input : List UInt8} {r : HttpReq}
    (h : httpdReadRequest input = .ok (some r)) : AuthFrom (lines input) r := by
  unfold httpdReadRequest at h
  obtain ⟨l, hread, h⟩ := Res.bind_eq_ok.1 h
  have hinit := authFrom_init (lines input)
  cases l with
  | none =>
    obtain ⟨r₁, hbody, h⟩ := Res.bind_eq_ok.1 h
    obtain ⟨r₂, hurl, h⟩ := Res.bind_eq_ok.1 h
    cases h
    exact (hinit.same (requestBody_same hbody)).same (requestUrl_same hurl)
  | some l =>
    obtain ⟨line, rest⟩ := l
    obtain ⟨raw, rfl, hraw, rfl⟩ := readLine_some hread
    obtain ⟨r₀, hline, h⟩ := Res.bind_eq_ok.1 h
    cases r₀ with
    | none => cases h
    | some r₀ =>
      obtain ⟨p, hheaders, h⟩ := Res.bind_eq_ok.1 h
      obtain ⟨r₁, hbody, h⟩ := Res.bind_eq_ok.1 h
      obtain ⟨r₂, hurl, h⟩ := Res.bind_eq_ok.1 h
      cases h
      have hmem : ∀ l ∈ lines rest, l ∈ lines (raw ++ 10 :: rest) := by
        intro l hl
        rw [lines_cons hraw]
        exact List.mem_cons_of_mem _ hl
      have hauth := (hinit.same (requestLine_same hline)).headers hmem hheaders
      exact (hauth.same (requestBody_same hbody)).same (requestUrl_same hurl)

end Libhttpd
