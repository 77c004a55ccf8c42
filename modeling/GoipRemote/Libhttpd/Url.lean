import GoipRemote.Libhttpd.Protocol

/-!
# The path of a request (`_httpd_readLine`, `_httpd_sanitiseUrl` and the URL data of `httpdReadRequest`)

The path is cut out of the request line, three passes remove slashes and dots from it, and what is behind
its first question mark is the query. The passes leave a path as it is exactly when none of `//`, `/./` and
`/../` is in it; else it gets shorter (`sanitiseUrl_length`).
-/

namespace Libhttpd

open CString

/-! ## Sanitising -/

/-- `_httpd_sanitiseUrl`, one of its first two passes, with the number of bytes that `from` still moves
over: of each text `pattern` only the last byte is kept. -/
def collapse (pattern : List UInt8) : Nat → List UInt8 → List UInt8
  | _, [] => []
  | skip + 1, _ :: url => collapse pattern skip url
  | 0, c :: url =>
    if pattern <+: c :: url then collapse pattern (pattern.length - 2) url
    else c :: collapse pattern 0 url

/-- Remove multiple slashes. -/
def removeSlashes (url : List UInt8) : List UInt8 := collapse (bytesOf "//") 0 url

/-- Get rid of `./` sequences. -/
def removeDots (url : List UInt8) : List UInt8 := collapse (bytesOf "/./") 0 url

/-- Remove `/../` sequences, each with the path element before it: `out` are the bytes before `to`, and
`last` is the index of the last slash in them. -/
def removeUps (out : List UInt8) (last : Nat) : Nat → List UInt8 → List UInt8
  | _, [] => out
  | skip + 1, _ :: url => removeUps out last skip url
  | 0, c :: url =>
    if bytesOf "/../" <+: c :: url then removeUps (out.take last) last 2 url
    else removeUps (out ++ [c]) (if c = 47 then out.length else last) 0 url

/-- `_httpd_sanitiseUrl`. -/
def httpdSanitiseUrl (url : List UInt8) : List UInt8 := removeUps [] 0 0 (removeDots (removeSlashes url))

/-! ## A request -/

/-- `_httpd_readLine`, with the room that is left in the buffer: the line and the input behind it, or
nothing at the end of the input. -/
def httpdReadLine (room : Nat) : List UInt8 → Res (Option (List UInt8 × List UInt8))
  | [] => if room = 0 then .fault else .ok none
  | c :: input =>
    -- a line that fills the buffer is terminated behind it
    if room = 0 then .fault
    else if c = 10 then .ok (some ([], input))
    else if c = 13 then httpdReadLine room input
    else do
      let line ← httpdReadLine (room - 1) input
      return line.map fun l => (c :: l.1, l.2)

/-- `isalpha`, in the C locale. -/
def isalpha (b : UInt8) : Bool := 65 ≤ b ∧ b ≤ 90 ∨ 97 ≤ b ∧ b ≤ 122

/-- `strcasecmp(word, s) == 0`, for a word of letters and a lower-case `s`. -/
def sameWord (word s : List UInt8) : Bool := word.map (fun b => if b ≤ 90 then b + 32 else b) = s

/-- `httpdReadRequest`, what it takes from the request line for the path; nothing where the method is
neither of the two. -/
def requestPath (buf : List UInt8) : Option (List UInt8) :=
  let method := buf.takeWhile isalpha
  let words := ((buf.dropWhile isalpha).drop 1).dropWhile (· = 32)
  if sameWord method (bytesOf "get") ∨ sameWord method (bytesOf "post") then
    some (words.takeWhile fun b => b ≠ 32 ∧ b ≠ 0)
  else none

/-- `httpdReadRequest`, the URL data, with the path as it came: the variables of the query. -/
def pathVariables (path : List UInt8) : Res (List HttpVar) :=
  match (httpdSanitiseUrl path).dropWhile (· ≠ 63) with
  | [] => .ok []
  | _ :: query => httpdStoreData [] query

/-- `httpdReadRequest`, with its request line and its URL data: of a request without headers that give
variables, and without a body. -/
def requestVariables (input : List UInt8) : Res (Option (List HttpVar)) := do
  match ← httpdReadLine 10240 input with
  | none => .ok (some [])
  | some (buf, _) =>
    match requestPath buf with
    | none => .ok none
    | some path =>
      -- `request.path` has no terminator where the path fills it
      if path.length < 1024 then do
        let vars ← pathVariables path
        return some vars
      else .fault

/-! ## A pass that replaces texts by their last byte -/

section
variable {pattern : List UInt8}

theorem collapse_eq_self {url : List UInt8} (h : ¬ pattern <:+: url) : collapse pattern 0 url = url := by
  induction url with
  | nil => rfl
  | cons c url ih =>
    rw [List.infix_cons_iff, not_or] at h
    rw [collapse, if_neg h.1, ih h.2]

theorem collapse_length_le (skip : Nat) (url : List UInt8) :
    (collapse pattern skip url).length ≤ url.length := by
  induction url generalizing skip with
  | nil => simp [collapse]
  | cons c url ih =>
    cases skip with
    | succ skip =>
      have := ih skip
      rw [collapse, List.length_cons]
      omega
    | zero =>
      rw [collapse]
      split
      · have := ih (pattern.length - 2)
        rw [List.length_cons]
        omega
      · simpa using ih 0

theorem collapse_length_lt {url : List UInt8} (hpattern : pattern ≠ []) (h : pattern <:+: url) :
    (collapse pattern 0 url).length < url.length := by
  induction url with
  | nil => exact absurd (List.infix_nil.1 h) hpattern
  | cons c url ih =>
    rw [collapse]
    split
    · have := @collapse_length_le pattern (pattern.length - 2) url
      rw [List.length_cons]
      omega
    · rename_i hpre
      simpa using ih ((List.infix_cons_iff.1 h).resolve_left hpre)

end

/-- A text that ends in a slash is not completed by bytes among which there is none. -/
theorem prefix_append_slash {front url tail : List UInt8} (htail : 47 ∉ tail) :
    front ++ [47] <+: url ++ tail ↔ front ++ [47] <+: url := by
  refine ⟨?_, ?_⟩
  · intro ⟨rest, hrest⟩
    rcases List.append_eq_append_iff.1 hrest with ⟨more, hurl, -⟩ | ⟨more, hfront, hmore⟩
    · exact ⟨more, hurl.symm⟩
    · rcases List.eq_nil_or_concat more with rfl | ⟨init, b, rfl⟩
      · rw [List.append_nil] at hfront
        exact hfront ▸ List.prefix_refl _
      · rw [List.concat_eq_append, ← List.append_assoc] at hfront
        obtain ⟨-, hb⟩ := List.append_inj' hfront rfl
        refine absurd ?_ htail
        simp [hmore, ← hb]
  · intro h
    exact h.trans (List.prefix_append _ _)

section
variable {pattern front : List UInt8} (hpattern : pattern = front ++ [47])
include hpattern

theorem collapse_append {skip : Nat} {url tail : List UInt8} (htail : 47 ∉ tail) (hskip : skip ≤ url.length) :
    collapse pattern skip (url ++ tail) = collapse pattern skip url ++ tail := by
  induction url generalizing skip with
  | nil =>
    cases Nat.le_zero.1 hskip
    refine collapse_eq_self fun h => htail (h.subset ?_)
    rw [hpattern]
    simp
  | cons c url ih =>
    cases skip with
    | succ skip => exact ih (Nat.le_of_succ_le_succ hskip)
    | zero =>
      have hpre : pattern <+: c :: (url ++ tail) ↔ pattern <+: c :: url := by
        rw [hpattern]
        exact @prefix_append_slash front (c :: url) tail htail
      rw [List.cons_append, collapse, collapse]
      by_cases h : pattern <+: c :: url
      · have := h.length_le
        rw [List.length_cons] at this
        rw [if_pos h, if_pos (hpre.2 h)]
        exact ih (by omega)
      · rw [if_neg h, if_neg (mt hpre.1 h), ih (Nat.zero_le _)]
        rfl

theorem collapse_head (hfront : front ≠ []) {skip : Nat} {url : List UInt8}
    (h : (url.drop skip).head? = some 47) :
    (collapse pattern skip url).head? = some 47 := by
  induction url generalizing skip with
  | nil => simp at h
  | cons c url ih =>
    cases skip with
    | succ skip => exact ih h
    | zero =>
      rw [collapse]
      split
      · -- the last byte of the text is the next one that is kept
        rename_i hpre
        obtain ⟨rest, hrest⟩ := hpre
        apply ih
        obtain ⟨b, front', rfl⟩ := List.exists_cons_of_ne_nil hfront
        rw [hpattern] at hrest
        have hurl : url = front' ++ 47 :: rest := by simpa using (List.cons.inj hrest).2.symm
        simp [hpattern, hurl]
      · exact h

end

/-! ## The pass that removes path elements -/

theorem removeUps_eq_append {out : List UInt8} {last : Nat} {url : List UInt8}
    (h : ¬ bytesOf "/../" <:+: url) : removeUps out last 0 url = out ++ url := by
  induction url generalizing out last with
  | nil => simp [removeUps]
  | cons c url ih =>
    rw [List.infix_cons_iff, not_or] at h
    rw [removeUps, if_neg h.1, ih h.2]
    simp

theorem removeUps_length_le {out : List UInt8} {last : Nat} (hlast : last ≤ out.length) (skip : Nat)
    (url : List UInt8) : (removeUps out last skip url).length ≤ out.length + url.length := by
  induction url generalizing out last skip with
  | nil => simp [removeUps]
  | cons c url ih =>
    cases skip with
    | succ skip =>
      have := ih hlast skip
      rw [removeUps, List.length_cons]
      omega
    | zero =>
      rw [removeUps, List.length_cons]
      split
      · have hout : (out.take last).length = last := List.length_take_of_le hlast
        have := ih hout.ge 2
        omega
      · have hout : (out ++ [c]).length = out.length + 1 := by simp
        have := @ih (out ++ [c]) (if c = 47 then out.length else last) (by split <;> omega) 0
        omega

theorem removeUps_length_lt {out : List UInt8} {last : Nat} (hlast : last ≤ out.length) {url : List UInt8}
    (h : bytesOf "/../" <:+: url) : (removeUps out last 0 url).length < out.length + url.length := by
  induction url generalizing out last with
  | nil => exact absurd (List.infix_nil.1 h) (by decide)
  | cons c url ih =>
    rw [removeUps, List.length_cons]
    split
    · have hout : (out.take last).length = last := List.length_take_of_le hlast
      have := removeUps_length_le hout.ge 2 url
      omega
    · rename_i hpre
      have hout : (out ++ [c]).length = out.length + 1 := by simp
      have := @ih (out ++ [c]) (if c = 47 then out.length else last) (by split <;> omega)
        ((List.infix_cons_iff.1 h).resolve_left hpre)
      omega

theorem removeUps_append {out : List UInt8} {last skip : Nat} {url tail : List UInt8} (htail : 47 ∉ tail)
    (hskip : skip ≤ url.length) :
    removeUps out last skip (url ++ tail) = removeUps out last skip url ++ tail := by
  induction url generalizing out last skip with
  | nil =>
    cases Nat.le_zero.1 hskip
    exact removeUps_eq_append fun h => htail (h.subset (by decide))
  | cons c url ih =>
    cases skip with
    | succ skip => exact ih (Nat.le_of_succ_le_succ hskip)
    | zero =>
      have hpre : bytesOf "/../" <+: c :: (url ++ tail) ↔ bytesOf "/../" <+: c :: url :=
        @prefix_append_slash [47, 46, 46] (c :: url) tail htail
      rw [List.cons_append, removeUps, removeUps]
      by_cases h : bytesOf "/../" <+: c :: url
      · have hlen : 4 ≤ url.length + 1 := h.length_le
        rw [if_pos h, if_pos (hpre.2 h)]
        exact ih (by omega)
      · rw [if_neg h, if_neg (mt hpre.1 h)]
        exact ih (Nat.zero_le _)

theorem removeUps_head {out : List UInt8} {last skip : Nat} {url : List UInt8}
    (hout : out ≠ [] → out.head? = some 47) (hurl : out = [] → (url.drop skip).head? = some 47) :
    (removeUps out last skip url).head? = some 47 := by
  induction url generalizing out last skip with
  | nil =>
    by_cases h : out = []
    · simpa using hurl h
    · exact hout h
  | cons c url ih =>
    cases skip with
    | succ skip => exact ih hout hurl
    | zero =>
      rw [removeUps]
      split
      · rename_i hpre
        obtain ⟨rest, hrest⟩ := hpre
        have hrest : url = 46 :: 46 :: 47 :: rest := (List.cons.inj hrest).2.symm
        refine ih (fun hne => ?_) (fun _ => by rw [hrest]; rfl)
        cases out with
        | nil => simp at hne
        | cons b out =>
          cases last with
          | zero => exact absurd rfl hne
          | succ last => exact hout (by simp)
      · refine ih (fun _ => ?_) (fun h => absurd h (by simp))
        cases out with
        | nil => exact hurl rfl
        | cons b out => exact hout (by simp)

/-! ## The three passes -/

/-- Nothing is removed from a path with none of these in it. -/
structure Kept (url : List UInt8) : Prop where
  slashes : ¬ bytesOf "//" <:+: url
  dots : ¬ bytesOf "/./" <:+: url
  ups : ¬ bytesOf "/../" <:+: url

theorem sanitiseUrl_eq_self {url : List UInt8} (h : Kept url) : httpdSanitiseUrl url = url := by
  unfold httpdSanitiseUrl removeDots removeSlashes
  rw [collapse_eq_self h.slashes, collapse_eq_self h.dots, removeUps_eq_append h.ups, List.nil_append]

theorem sanitiseUrl_length_lt {url : List UInt8} (h : ¬ Kept url) :
    (httpdSanitiseUrl url).length < url.length := by
  have hslashes : (removeSlashes url).length ≤ url.length := collapse_length_le 0 url
  have hdots := @collapse_length_le (bytesOf "/./") 0 (removeSlashes url)
  have hups := @removeUps_length_le [] 0 (Nat.le_refl 0) 0 (removeDots (removeSlashes url))
  rw [List.length_nil, Nat.zero_add] at hups
  unfold httpdSanitiseUrl
  by_cases h₁ : bytesOf "//" <:+: url
  · have : (removeSlashes url).length < url.length := collapse_length_lt (by decide) h₁
    unfold removeDots at hups ⊢
    omega
  · have hfirst : removeSlashes url = url := collapse_eq_self h₁
    rw [hfirst] at hdots hups ⊢
    by_cases h₂ : bytesOf "/./" <:+: url
    · have : (removeDots url).length < url.length := collapse_length_lt (by decide) h₂
      omega
    · have hsecond : removeDots url = url := collapse_eq_self h₂
      rw [hsecond]
      have h₃ : bytesOf "/../" <:+: url := by
        by_contra hups
        exact h ⟨h₁, h₂, hups⟩
      simpa using @removeUps_length_lt [] 0 (Nat.le_refl 0) url h₃

/-- What has no slash behind a path stays behind it. -/
theorem sanitiseUrl_append {tail : List UInt8} (htail : 47 ∉ tail) (url : List UInt8) :
    httpdSanitiseUrl (url ++ tail) = httpdSanitiseUrl url ++ tail := by
  have hfirst : removeSlashes (url ++ tail) = removeSlashes url ++ tail :=
    @collapse_append _ [47] rfl 0 url tail htail (Nat.zero_le _)
  have hsecond (url) : removeDots (url ++ tail) = removeDots url ++ tail :=
    @collapse_append _ [47, 46] rfl 0 url tail htail (Nat.zero_le _)
  rw [httpdSanitiseUrl, hfirst, hsecond, removeUps_append htail (Nat.zero_le _)]
  rfl

theorem sanitiseUrl_head {url : List UInt8} (h : url.head? = some 47) :
    (httpdSanitiseUrl url).head? = some 47 := by
  have hfirst : (removeSlashes url).head? = some 47 := @collapse_head _ [47] rfl (by simp) 0 url h
  have hsecond : (removeDots (removeSlashes url)).head? = some 47 :=
    @collapse_head _ [47, 46] rfl (by simp) 0 _ hfirst
  exact removeUps_head (fun h => absurd rfl h) fun _ => hsecond

/-! ## The request line -/

theorem readLine_eq {room : Nat} {line : List UInt8} (hline : 10 ∉ line) (hlen : line.length < room)
    (rest : List UInt8) :
    httpdReadLine room (line ++ 10 :: rest) = .ok (some (line.filter (· ≠ 13), rest)) := by
  induction line generalizing room with
  | nil =>
    have hroom : room ≠ 0 := Nat.ne_of_gt hlen
    rw [List.nil_append, httpdReadLine, if_neg hroom, if_pos rfl]
    rfl
  | cons c line ih =>
    rw [List.mem_cons, not_or] at hline
    rw [List.length_cons] at hlen
    have hroom : room ≠ 0 := by omega
    rw [List.cons_append, httpdReadLine, if_neg hroom, if_neg (Ne.symm hline.1)]
    by_cases hc : c = 13
    · rw [if_pos hc, ih hline.2 (by omega), List.filter_cons_of_neg (by simp [hc])]
    · rw [if_neg hc, ih hline.2 (by omega), List.filter_cons_of_pos (by simp [hc])]
      rfl

/-- The path of a request line that a browser has put together. -/
theorem requestPath_get (url more : List UInt8) :
    requestPath (bytesOf "GET " ++ (47 :: url) ++ 32 :: more) =
      some ((47 :: url).takeWhile fun b => b ≠ 32 ∧ b ≠ 0) := by
  have hwords : ((47 :: url) ++ 32 :: more).takeWhile (fun b => b ≠ 32 ∧ b ≠ 0) =
      (47 :: url).takeWhile fun b => b ≠ 32 ∧ b ≠ 0 := by
    rw [List.takeWhile_append]
    split
    · rename_i hall
      rw [(List.takeWhile_prefix _).eq_of_length hall]
      simp
    · rfl
  rw [← hwords, List.append_assoc]
  rfl

end Libhttpd
