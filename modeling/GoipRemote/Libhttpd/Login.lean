import GoipRemote.Libhttpd.Request

/-!
# A browser's request with credentials

A request that a browser puts together is read back: its path gives the variables, and its line of
credentials the user and the password, whatever other headers stand around that line
(`readRequest_login`).
-/

namespace Libhttpd

open Buffer CString

/-! ## The lines of a browser -/

/-- A line that is read as it was written. -/
structure HeaderLine where
  line : CString
  ne_nil : line.bytes ≠ []
  feed : 10 ∉ line.bytes
  ret : 13 ∉ line.bytes
  length : line.bytes.length < 10239

/-- The line with its end. -/
def HeaderLine.text (h : HeaderLine) : List UInt8 := h.line.bytes ++ [13, 10]

/-- The headers that more is done with than to store their value. -/
def special : List (List UInt8 × Nat) :=
  [(bytesOf "Cookie: ", 7), (bytesOf "Authorization: ", 15), (bytesOf "If-Modified-Since: ", 19),
    (bytesOf "Content-Length: ", 16)]

/-- A line that is none of them. -/
structure PlainHeader extends HeaderLine where
  plain : ∀ name ∈ special, sameHeader line name.1 name.2 = false

theorem HeaderLine.read (h : HeaderLine) (rest : List UInt8) :
    httpdReadLine 10240 (h.text ++ rest) = .ok (some (h.line.bytes, rest)) := by
  have hfilter : (h.line.bytes ++ [13]).filter (· ≠ 13) = h.line.bytes := by
    rw [List.filter_append, List.filter_eq_self.2 fun b hb => by
      simpa using ne_of_mem_of_not_mem hb h.ret]
    simp
  have hread := @readLine_eq 10240 (h.line.bytes ++ [13]) (by simpa using h.feed)
    (by rw [List.length_append]; exact Nat.succ_lt_succ h.length) rest
  rw [hfilter] at hread
  simpa [HeaderLine.text] using hread

theorem readHeaders_lines (hs : List HeaderLine) (r : HttpReq) (rest : List UInt8) :
    readHeaders ((hs.flatMap HeaderLine.text ++ 13 :: 10 :: rest).length + 1) r
        (hs.flatMap HeaderLine.text ++ 13 :: 10 :: rest) =
      hs.foldlM (fun r h => requestHeader r h.line) r >>= fun r => .ok (r, rest) := by
  induction hs generalizing r with
  | nil =>
    have hread := @readLine_eq 10240 [13] (by decide) (by decide) rest
    rw [List.flatMap_nil, List.nil_append, readHeaders]
    change httpdReadLine 10240 (13 :: 10 :: rest) = _ at hread
    rw [hread]
    rfl
  | cons h hs ih =>
    have hline : ofBuf h.line.bytes = h.line := CString.ext (ofBuf_bytes h.line.ne_zero)
    have hfuel : (hs.flatMap HeaderLine.text ++ 13 :: 10 :: rest).length <
        (h.text ++ (hs.flatMap HeaderLine.text ++ 13 :: 10 :: rest)).length := by
      have hpos : 0 < h.text.length := by
        rw [HeaderLine.text, List.length_append]
        exact Nat.add_pos_right _ Nat.zero_lt_two
      exact (Nat.lt_add_of_pos_left hpos).trans_eq List.length_append.symm
    rw [List.flatMap_cons, List.append_assoc, readHeaders, h.read, Res.ok_bind]
    simp only [hline, if_neg h.ne_nil]
    rw [List.foldlM_cons, Res.bind_assoc]
    cases requestHeader r h.line with
    | exit => rfl
    | fault => rfl
    | ok r' => exact (readHeaders_fuel hfuel (Nat.lt_succ_self _) r').trans (ih r')

/-! ## What the lines do -/

/-- What the answer to a request looks at, but for its host and the like, is that of the other one. -/
structure SameLogin (r r' : HttpReq) : Prop extends SameAuth r r' where
  method : r'.method = r.method
  path : r'.path = r.path
  vars : r'.vars = r.vars
  content : r'.contentLength = r.contentLength

theorem SameLogin.trans {r r' r'' : HttpReq} (h : SameLogin r r') (h' : SameLogin r' r'') :
    SameLogin r r'' where
  length := h'.length.trans h.length
  user := h'.user.trans h.user
  password := h'.password.trans h.password
  method := h'.method.trans h.method
  path := h'.path.trans h.path
  vars := h'.vars.trans h.vars
  content := h'.content.trans h.content

theorem stored_login (r : HttpReq) (buf : CString) :
    SameLogin r (refererHeader (hostHeader r buf) buf) ∧ SameLogin r (contentTypeHeader r buf) := by
  unfold refererHeader hostHeader contentTypeHeader
  refine ⟨?_, ?_⟩
  · split
    · split <;> exact ⟨⟨rfl, rfl, rfl⟩, rfl, rfl, rfl, rfl⟩
    · split <;> exact ⟨⟨rfl, rfl, rfl⟩, rfl, rfl, rfl, rfl⟩
  · split <;> exact ⟨⟨rfl, rfl, rfl⟩, rfl, rfl, rfl, rfl⟩

/-- A plain header stores at most its value. -/
theorem PlainHeader.header (h : PlainHeader) (r : HttpReq) :
    ∃ r', requestHeader r h.line = .ok r' ∧ SameLogin r r' := by
  have hno : ∀ name ∈ special, ¬ sameHeader h.line name.1 name.2 = true :=
    fun name hname => by simpa using h.plain name hname
  refine ⟨_, ?_, (stored_login r h.line).1.trans (stored_login (refererHeader (hostHeader r h.line) h.line)
    h.line).2⟩
  unfold requestHeader cookieHeader authHeader ifModifiedHeader contentLengthHeader
  rw [if_neg (hno (bytesOf "Cookie: ", 7) (by simp [special])), Res.ok_bind,
    if_neg (hno (bytesOf "Authorization: ", 15) (by simp [special])), Res.ok_bind]
  simp only
  rw [if_neg (hno (bytesOf "If-Modified-Since: ", 19) (by simp [special])), Res.ok_bind,
    if_neg (hno (bytesOf "Content-Length: ", 16) (by simp [special]))]
  rfl

theorem foldlM_plain (hs : List PlainHeader) (r : HttpReq) :
    ∃ r', (hs.map PlainHeader.toHeaderLine).foldlM (fun r h => requestHeader r h.line) r = .ok r' ∧
      SameLogin r r' := by
  induction hs generalizing r with
  | nil => exact ⟨r, rfl, ⟨⟨rfl, rfl, rfl⟩, rfl, rfl, rfl, rfl⟩⟩
  | cons h hs ih =>
    obtain ⟨r₁, hheader, hsame⟩ := h.header r
    obtain ⟨r', hrest, hsame'⟩ := ih r₁
    refine ⟨r', ?_, hsame.trans hsame'⟩
    rw [List.map_cons, List.foldlM_cons, hheader]
    exact hrest

/-! ## The line of credentials -/

/-- A user and a password that are cut as they were put together, and fit `authBuf`. -/
structure Login where
  user : CString
  password : CString
  colon : 58 ∉ user.bytes
  length : user.bytes.length + password.bytes.length < 99

/-- The text that is encoded. -/
def Login.text (l : Login) : CString where
  bytes := l.user.bytes ++ 58 :: l.password.bytes
  ne_zero := by
    intro b hb
    rcases List.mem_append.1 hb with hb | hb
    · exact l.user.ne_zero b hb
    · rcases List.mem_cons.1 hb with rfl | hb
      · decide
      · exact l.password.ne_zero b hb

theorem Login.stored (l : Login) (r : HttpReq) :
    ofBuf (storeAuth r l.text).authUser = l.user ∧ ofBuf (storeAuth r l.text).authPassword = l.password ∧
      (storeAuth r l.text).authLength = l.user.bytes.length + l.password.bytes.length + 1 ∧
      (storeAuth r l.text).method = r.method ∧ (storeAuth r l.text).path = r.path ∧
      (storeAuth r l.text).vars = r.vars ∧ (storeAuth r l.text).contentLength = r.contentLength := by
  have hlen := l.length
  have hdrop : l.text.bytes.dropWhile (· ≠ 58) = 58 :: l.password.bytes := dropWhile_colon l.colon
  have htake : l.text.bytes.takeWhile (· ≠ 58) = l.user.bytes := by
    show (l.user.bytes ++ 58 :: l.password.bytes).takeWhile (· ≠ 58) = _
    rw [List.takeWhile_append_of_pos fun b hb => by simpa using ne_of_mem_of_not_mem hb l.colon]
    simp
  have huser : ofBuf l.user.bytes = l.user := CString.ext (ofBuf_bytes l.user.ne_zero)
  have hpassword : ofBuf l.password.bytes = l.password := CString.ext (ofBuf_bytes l.password.ne_zero)
  have hstore : storeAuth r l.text =
      { r with authLength := l.text.bytes.length, authPassword := strncpy l.password 128,
               authUser := strncpy l.user 128 } := by
    unfold storeAuth
    rw [hdrop, htake, huser]
    simp only [hpassword]
  rw [hstore]
  refine ⟨ofBuf_strncpy (by omega), ofBuf_strncpy (by omega), ?_, rfl, rfl, rfl, rfl⟩
  show (l.user.bytes ++ 58 :: l.password.bytes).length = _
  rw [List.length_append, List.length_cons]
  omega

theorem letter_ne {d : Nat} (h : d < 64) : Base64.letter d ≠ 0 ∧ Base64.letter d ≠ 10 ∧
    Base64.letter d ≠ 13 ∧ Base64.letter d < 128 := by
  revert d
  decide +kernel

/-- The code of some bytes is printed in one line. -/
theorem mem_text {bytes : List UInt8} {b : UInt8} (h : b ∈ Base64.text bytes) :
    b ≠ 0 ∧ b ≠ 10 ∧ b ≠ 13 ∧ b < 128 := by
  rcases List.mem_append.1 h with h | h
  · obtain ⟨d, hd, rfl⟩ := List.mem_map.1 h
    exact letter_ne (Base64.lt_of_mem_encode hd)
  · rw [List.eq_of_mem_replicate h]
    decide

theorem text_length_le (bytes : List UInt8) : (Base64.text bytes).length ≤ 2 * bytes.length + 3 := by
  have hencode : (Base64.encode bytes).length ≤ 2 * bytes.length := by
    fun_induction Base64.encode bytes with
    | case1 => simp
    | case2 a => simp
    | case3 a b => simp
    | case4 a b c bytes ih =>
      simp only [List.length_cons]
      omega
  rw [Base64.text, List.length_append, List.length_map, List.length_replicate]
  omega

/-- The line of the credentials. -/
def Login.header (l : Login) : HeaderLine where
  line := {
    bytes := bytesOf "Authorization: Basic " ++ Base64.text l.text.bytes
    ne_zero := by
      intro b hb
      rcases List.mem_append.1 hb with hb | hb
      · have hne : ∀ c ∈ bytesOf "Authorization: Basic ", c ≠ 0 := by decide +kernel
        exact hne b hb
      · exact (mem_text hb).1 }
  ne_nil := by simp [bytesOf]
  feed := by
    intro hb
    rcases List.mem_append.1 hb with hb | hb
    · revert hb
      decide +kernel
    · exact absurd rfl (mem_text hb).2.1
  ret := by
    intro hb
    rcases List.mem_append.1 hb with hb | hb
    · revert hb
      decide +kernel
    · exact absurd rfl (mem_text hb).2.2.1
  length := by
    have hlen := text_length_le l.text.bytes
    have htext : l.text.bytes.length = l.user.bytes.length + (l.password.bytes.length + 1) := by
      show (l.user.bytes ++ 58 :: l.password.bytes).length = _
      rw [List.length_append, List.length_cons]
    have := l.length
    rw [List.length_append]
    change 21 + _ < 10239
    omega

theorem Login.text_length (l : Login) : l.text.bytes.length < 100 := by
  have hlen := l.length
  show (l.user.bytes ++ 58 :: l.password.bytes).length < 100
  rw [List.length_append, List.length_cons]
  omega

/-- The line stores its credentials, and nothing else is done with it. -/
theorem Login.read_header (l : Login) (r : HttpReq) :
    requestHeader r l.header.line = .ok (storeAuth r l.text) := by
  have hbytes : l.header.line.bytes = bytesOf "Authorization: Basic " ++ Base64.text l.text.bytes := rfl
  -- the names of the headers are compared with the beginning of the line alone
  have hsame : ∀ (name : List UInt8) (n : Nat), n ≤ 21 → sameHeader l.header.line name n =
      decide (((bytesOf "Authorization: Basic ").take n).map tolower = (name.take n).map tolower) := by
    intro name n hn
    unfold sameHeader
    rw [hbytes, List.take_append_of_le_length hn]
  have hvalue : (headerValue l.header.line).bytes = bytesOf "Basic " ++ Base64.text l.text.bytes :=
    @ofBuf_bytes (bytesOf "Basic " ++ Base64.text l.text.bytes) fun b hb =>
      l.header.line.ne_zero b (List.mem_append_right (bytesOf "Authorization: ") hb)
  have hspace : httpdDecode (ofBuf (Base64.text l.text.bytes)) 100 = .ok l.text.bytes := by
    have hcode : (ofBuf (Base64.text l.text.bytes)).bytes = Base64.text l.text.bytes :=
      ofBuf_bytes fun b hb => (mem_text hb).1
    rw [httpdDecode_eq (by rw [hcode]; exact fun b hb => (mem_text hb).2.2.2), hcode, Base64.digits_text,
      Base64.decode_encode, List.take_of_length_le (Nat.le_of_lt l.text_length)]
  have hauth : authHeader r l.header.line = .ok (storeAuth r l.text) := by
    unfold authHeader
    rw [hsame _ _ (by decide), if_pos (by decide +kernel)]
    simp only [hvalue]
    rw [if_neg (by rw [List.take_append_of_le_length (by decide)]; decide)]
    have hdrop : ((bytesOf "Basic " ++ Base64.text l.text.bytes).dropWhile (· ≠ 32)).drop 1 =
        Base64.text l.text.bytes := rfl
    rw [hdrop, hspace, Res.ok_bind, if_pos l.text_length]
    rw [CString.ext (ofBuf_bytes l.text.ne_zero) (s := ofBuf l.text.bytes)]
    rfl
  unfold requestHeader cookieHeader refererHeader hostHeader ifModifiedHeader contentLengthHeader
    contentTypeHeader
  rw [hsame (bytesOf "Cookie: ") 7 (by decide), hsame (bytesOf "Host: ") 6 (by decide),
    hsame (bytesOf "Referer: ") 9 (by decide), hsame (bytesOf "If-Modified-Since: ") 19 (by decide),
    hsame (bytesOf "Content-Type: ") 14 (by decide), hsame (bytesOf "Content-Length: ") 16 (by decide)]
  rw [if_neg (by decide +kernel), Res.ok_bind, hauth, Res.ok_bind]
  simp only
  rw [if_neg (by decide +kernel), if_neg (by decide +kernel), if_neg (by decide +kernel), Res.ok_bind,
    if_neg (by decide +kernel), if_neg (by decide +kernel)]
  rfl

/-! ## The request -/

/-- A path as it is asked for. -/
structure UrlPath where
  url : List UInt8
  plain : ∀ b ∈ url, b ≠ 0 ∧ b ≠ 10 ∧ b ≠ 13 ∧ b ≠ 32
  length : url.length < 1023

/-- The headers of a browser: the credentials stand among others. -/
def Login.headers (l : Login) (before after : List PlainHeader) : List HeaderLine :=
  before.map PlainHeader.toHeaderLine ++ l.header :: after.map PlainHeader.toHeaderLine

/-- The request of a browser. -/
def browserRequest (t : UrlPath) (before after : List PlainHeader) (l : Login) : List UInt8 :=
  bytesOf "GET " ++ 47 :: t.url ++ bytesOf " HTTP/1.1\r\n" ++
    ((l.headers before after).flatMap HeaderLine.text ++ bytesOf "\r\n")

/-- The request after its first line. -/
def HttpReq.asked (method : Nat) (path : List UInt8) : HttpReq := { HttpReq.init with method, path }

/-- The headers of a browser store the credentials, and leave the rest that matters as it is. -/
theorem foldlM_login (before after : List PlainHeader) (l : Login) (r : HttpReq) :
    ∃ r', (l.headers before after).foldlM (fun r h => requestHeader r h.line) r = .ok r' ∧
      ofBuf r'.authUser = l.user ∧
      ofBuf r'.authPassword = l.password ∧ r'.authLength ≠ 0 ∧ r'.path = r.path ∧ r'.vars = r.vars ∧
      r'.contentLength = r.contentLength := by
  obtain ⟨r₁, hbefore, hsame⟩ := foldlM_plain before r
  obtain ⟨r₂, hafter, hsame'⟩ := foldlM_plain after (storeAuth r₁ l.text)
  obtain ⟨huser, hpassword, hlength, -, hpath, hvars, hcontent⟩ := l.stored r₁
  refine ⟨r₂, ?_, ?_, ?_, ?_, ?_, ?_, ?_⟩
  · rw [Login.headers, List.foldlM_append, hbefore, Res.ok_bind, List.foldlM_cons, l.read_header, Res.ok_bind]
    exact hafter
  · rw [hsame'.user, huser]
  · rw [hsame'.password, hpassword]
  · rw [hsame'.length, hlength]
    omega
  · rw [hsame'.path, hpath, hsame.path]
  · rw [hsame'.vars, hvars, hsame.vars]
  · rw [hsame'.content, hcontent, hsame.content]

/-- The request line of a browser gives the path. -/
theorem UrlPath.readLine (t : UrlPath) (rest : List UInt8) :
    ∃ line method, httpdReadLine 10240 (bytesOf "GET " ++ 47 :: t.url ++ bytesOf " HTTP/1.1\r\n" ++ rest) =
        .ok (some (line, rest)) ∧
      requestLine .init line = .ok (some (.asked method (httpdSanitiseUrl (47 :: t.url)))) := by
  have hfilter : (bytesOf "GET " ++ 47 :: t.url ++ bytesOf " HTTP/1.1\r").filter (· ≠ 13) =
      bytesOf "GET " ++ 47 :: t.url ++ 32 :: bytesOf "HTTP/1.1" := by
    have hurl : t.url.filter (· ≠ 13) = t.url :=
      List.filter_eq_self.2 fun b hb => by simpa using (t.plain b hb).2.2.1
    rw [List.filter_append, List.filter_append, List.filter_cons_of_pos (by decide), hurl]
    rfl
  have hfeed : 10 ∉ bytesOf "GET " ++ 47 :: t.url ++ bytesOf " HTTP/1.1\r" := by
    have hurl : 10 ∉ t.url := fun hb => (t.plain 10 hb).2.1 rfl
    simp [hurl, bytesOf]
  have hlen : (bytesOf "GET " ++ 47 :: t.url ++ bytesOf " HTTP/1.1\r").length < 10240 := by
    have := t.length
    rw [List.length_append, List.length_append, List.length_cons]
    change 4 + (t.url.length + 1) + 10 < 10240
    omega
  have hread := readLine_eq hfeed hlen rest
  rw [hfilter] at hread
  have hcut : (47 :: t.url).takeWhile (fun b => b ≠ 32 ∧ b ≠ 0) = 47 :: t.url := by
    refine List.takeWhile_eq_self_iff.2 fun b hb => ?_
    rcases List.mem_cons.1 hb with rfl | hb
    · decide
    · obtain ⟨hzero, -, -, hspace⟩ := t.plain b hb
      simpa using ⟨hspace, hzero⟩
  refine ⟨bytesOf "GET " ++ 47 :: t.url ++ 32 :: bytesOf "HTTP/1.1",
    if sameWord ((bytesOf "GET " ++ 47 :: t.url ++ 32 :: bytesOf "HTTP/1.1").takeWhile isalpha)
      (bytesOf "get") then 1 else 2, ?_, ?_⟩
  · rw [← hread, List.append_assoc, List.append_assoc]
    congr 1
    simp [bytesOf]
  · unfold requestLine
    rw [requestPath_get, hcut]
    simp only
    rw [if_pos (by rw [List.length_cons]; have := t.length; omega)]
    rfl

/-- The path of the content that a URL asks for. -/
def contentPath (url : List UInt8) : List UInt8 := (httpdSanitiseUrl url).takeWhile (· ≠ 63)

/-- **A login** arrives: the user, the password, the path and the variables of the URL are what the
browser was given, whatever plain headers it sends. -/
theorem readRequest_login (t : UrlPath) (before after : List PlainHeader) (l : Login) {vars : List HttpVar}
    (hvars : pathVariables (47 :: t.url) = .ok vars) :
    ∃ r, httpdReadRequest (browserRequest t before after l) = .ok (some r) ∧ ofBuf r.authUser = l.user ∧
      ofBuf r.authPassword = l.password ∧ r.authLength ≠ 0 ∧ r.path = contentPath (47 :: t.url) ∧
      r.vars = vars := by
  obtain ⟨line, method, hline, hrequest⟩ :=
    t.readLine ((l.headers before after).flatMap HeaderLine.text ++ bytesOf "\r\n")
  obtain ⟨r, hheaders, huser, hpassword, hlength, hpath, hempty, hcontent⟩ :=
    foldlM_login before after l (.asked method (httpdSanitiseUrl (47 :: t.url)))
  have hread := readHeaders_lines (l.headers before after) (.asked method (httpdSanitiseUrl (47 :: t.url))) []
  rw [hheaders] at hread
  have hbody : requestBody r [] = .ok r := by
    have hzero : ¬ (0 < r.contentLength) := by
      change r.contentLength = 0 at hcontent
      omega
    unfold requestBody
    rw [if_neg fun h => hzero h.1]
  -- the variables of the URL are those of the path alone
  have hurl : ∃ r', requestUrl r = .ok r' ∧ SameAuth r r' ∧ r'.path = contentPath (47 :: t.url) ∧
      r'.vars = vars := by
    change r.path = httpdSanitiseUrl (47 :: t.url) at hpath
    change r.vars = [] at hempty
    unfold pathVariables at hvars
    unfold requestUrl contentPath
    rw [hpath]
    cases hquery : (httpdSanitiseUrl (47 :: t.url)).dropWhile (· ≠ 63) with
    | nil =>
      rw [hquery] at hvars
      cases hvars
      have hself : (httpdSanitiseUrl (47 :: t.url)).takeWhile (· ≠ 63) =
          httpdSanitiseUrl (47 :: t.url) := by
        rw [List.takeWhile_eq_self_iff]
        exact List.dropWhile_eq_nil_iff.1 hquery
      exact ⟨r, rfl, ⟨rfl, rfl, rfl⟩, by rw [hself, hpath], hempty⟩
    | cons b query =>
      rw [hquery] at hvars
      simp only at hvars
      rw [hempty]
      simp only [hvars, Res.ok_bind]
      exact ⟨_, rfl, ⟨rfl, rfl, rfl⟩, rfl, rfl⟩
  obtain ⟨r', hurl, hsame, hpath', hvars'⟩ := hurl
  refine ⟨r', ?_, by rw [hsame.user, huser], by rw [hsame.password, hpassword],
    by rwa [hsame.length], hpath', hvars'⟩
  unfold httpdReadRequest browserRequest
  rw [hline, Res.ok_bind]
  simp only
  rw [hrequest, Res.ok_bind]
  simp only
  change readHeaders ((_ ++ bytesOf "\r\n").length + 1) _ (_ ++ bytesOf "\r\n") = _ at hread
  rw [hread]
  simp only [Res.ok_bind]
  rw [hbody, Res.ok_bind, hurl]
  rfl

end Libhttpd
