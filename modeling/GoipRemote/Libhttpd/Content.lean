import GoipRemote.Lib.NameTree
import GoipRemote.Libhttpd.Protocol
import Mathlib.Data.List.DropRight

/-!
# The contents of a server (`httpdAddCContent` and its like, `httpdProcessRequest`)

Each content is put before the others of its directory, and the directories are a tree that grows with the
contents. `processRequest_route` says what a request is answered with, whatever has been added: the latest
content of the directories' names that answers to the entry's name.
-/

namespace Libhttpd

open CString

/-! ## The tree -/

/-- `type`. -/
inductive ContentType where
  | file
  | cFunct
  | emberFunct
  | static
  | wildcard
  | cWildcard
  deriving DecidableEq, Repr

/-- `function`, `data` or `path`. -/
inductive ContentTarget (φ : Type) where
  | function (f : φ)
  | data (data : CString)
  | path (path : CString)
  deriving DecidableEq

/-- `httpContent`, with functions from `φ`. -/
structure HttpContent (φ : Type) where
  name : Option CString
  type : ContentType
  indexFlag : Bool
  preload : Option φ
  target : ContentTarget φ
  deriving DecidableEq

/-- `httpDir`. -/
abbrev HttpDir (φ : Type) := NameTree (List UInt8) (List (HttpContent φ))

variable {φ : Type}

/-- The content of a server that has been created. -/
def HttpDir.init : HttpDir φ := .node [] []

/-- The words that `strtok_r` finds between slashes. -/
def words (dir : List UInt8) : List (List UInt8) := (dir.splitOn 47).filter (· ≠ [])

/-- `_httpd_findContentDir`, the words of its copy, which has 1024 bytes. -/
def dirWords (dir : List UInt8) : Res (List (List UInt8)) :=
  if dir.length < 1024 then .ok (words dir) else .fault

/-! ## Adding a content -/

/-- The entry becomes the first of its directory, which is made where it is missing. -/
def addContent (content : HttpDir φ) (dir : CString) (newEntry : HttpContent φ) : Res (HttpDir φ) := do
  let ks ← dirWords dir.bytes
  return content.modify [] (newEntry :: ·) ks

/-- `newEntry->path`, of `httpdAddFileContent` and `httpdAddWildcardContent`. -/
def filePath (fileBasePath path : CString) : CString :=
  if path.bytes.head? = some 47 then path
  else ofBuf ((fileBasePath.bytes ++ 47 :: path.bytes).take 1023)

/-- `httpdAddFileContent`. -/
def httpdAddFileContent (content : HttpDir φ) (fileBasePath dir name : CString) (indexFlag : Bool)
    (preload : Option φ) (path : CString) : Res (HttpDir φ) :=
  addContent content dir ⟨some name, .file, indexFlag, preload, .path (filePath fileBasePath path)⟩

/-- `httpdAddWildcardContent`. -/
def httpdAddWildcardContent (content : HttpDir φ) (fileBasePath dir : CString) (preload : Option φ)
    (path : CString) : Res (HttpDir φ) :=
  addContent content dir ⟨none, .wildcard, false, preload, .path (filePath fileBasePath path)⟩

/-- `httpdAddCContent`. -/
def httpdAddCContent (content : HttpDir φ) (dir name : CString) (indexFlag : Bool) (preload : Option φ)
    (function : φ) : Res (HttpDir φ) :=
  addContent content dir ⟨some name, .cFunct, indexFlag, preload, .function function⟩

/-- `httpdAddCWildcardContent`. -/
def httpdAddCWildcardContent (content : HttpDir φ) (dir : CString) (preload : Option φ) (function : φ) :
    Res (HttpDir φ) :=
  addContent content dir ⟨none, .cWildcard, false, preload, .function function⟩

/-- `httpdAddStaticContent`. -/
def httpdAddStaticContent (content : HttpDir φ) (dir name : CString) (indexFlag : Bool) (preload : Option φ)
    (data : CString) : Res (HttpDir φ) :=
  addContent content dir ⟨some name, .static, indexFlag, preload, .data data⟩

/-- `httpdAddEmberContect`. -/
def httpdAddEmberContect (content : HttpDir φ) (dir name : CString) (indexFlag : Bool) (preload : Option φ)
    (script : CString) : Res (HttpDir φ) :=
  addContent content dir ⟨some name, .emberFunct, indexFlag, preload, .data script⟩

/-! ## Finding a content -/

/-- `_httpd_findContentDir`, where nothing is created. -/
def httpdFindContentDir (content : HttpDir φ) (dir : List UInt8) : Res (Option (HttpDir φ)) := do
  let ks ← dirWords dir
  return content.find ks

/-- `_httpd_findContentEntry`, its three tests. -/
def HttpContent.answers (entryName : List UInt8) (e : HttpContent φ) : Bool :=
  e.type = .wildcard ∨ e.type = .cWildcard ∨ entryName = [] ∧ e.indexFlag ∨
    e.name.map CString.bytes = some entryName

/-- `_httpd_findContentEntry`. -/
def httpdFindContentEntry (dir : HttpDir φ) (entryName : List UInt8) : Option (HttpContent φ) :=
  dir.data.find? (HttpContent.answers entryName)

/-- What a request is answered with. -/
inductive Answer (φ : Type) where
  /-- `Invalid request path` -/
  | invalid
  /-- `404 Not Found` -/
  | notFound
  | entry (e : HttpContent φ) (entryName : List UInt8)
  deriving DecidableEq

/-- `httpdProcessRequest`, from the directory's name on. -/
def findAnswer (content : HttpDir φ) (dirName entryName : List UInt8) : Res (Answer φ) := do
  match ← httpdFindContentDir content dirName with
  | none => return .notFound
  | some dir =>
    match httpdFindContentEntry dir entryName with
    | none => return .notFound
    | some e => return .entry e entryName

/-- `httpdProcessRequest`, up to the entry that is served. -/
def httpdProcessRequest (content : HttpDir φ) (path : CString) : Res (Answer φ) :=
  let front := path.bytes.rdropWhile (· ≠ 47)
  let entryName := path.bytes.rtakeWhile (· ≠ 47)
  if front = [] then .ok .invalid
  else if front.length = 1 then findAnswer content front entryName
  else findAnswer content front.dropLast entryName

/-! ## What a request finds -/

/-- What has been added, in its order: the directory and the entry. -/
def addAll (content : HttpDir φ) (added : List (CString × HttpContent φ)) : Res (HttpDir φ) :=
  added.foldlM (fun content a => addContent content a.1 a.2) content

/-- The latest of the contents that a path asks for. -/
def latest (added : List (CString × HttpContent φ)) (front entryName : List UInt8) :
    Option (HttpContent φ) :=
  (added.reverse.find? fun a => words a.1.bytes = words front ∧ a.2.answers entryName).map Prod.snd

/-- The answer, without a tree. -/
def route (added : List (CString × HttpContent φ)) (path : CString) : Answer φ :=
  let entryName := path.bytes.rtakeWhile (· ≠ 47)
  if 47 ∈ path.bytes then
    match latest added (path.bytes.rdropWhile (· ≠ 47)) entryName with
    | none => .notFound
    | some e => .entry e entryName
  else .invalid

/-- The entries of a directory are those that have been added, the latest first. -/
theorem addAll_ok (added : List (CString × HttpContent φ)) (hdirs : ∀ a ∈ added, a.1.bytes.length < 1024)
    (content : HttpDir φ) :
    ∃ content', addAll content added = .ok content' ∧ ∀ ks, content'.get [] ks =
      (added.reverse.filter fun a => words a.1.bytes = ks).map Prod.snd ++ content.get [] ks := by
  induction added generalizing content with
  | nil => exact ⟨content, rfl, fun ks => rfl⟩
  | cons a added ih =>
    have hadd : addContent content a.1 a.2 = .ok (content.modify [] (a.2 :: ·) (words a.1.bytes)) := by
      unfold addContent dirWords
      rw [if_pos (hdirs a List.mem_cons_self)]
      rfl
    obtain ⟨content', hrun, hget⟩ := ih (fun b hb => hdirs b (List.mem_cons_of_mem _ hb))
      (content.modify [] (a.2 :: ·) (words a.1.bytes))
    refine ⟨content', ?_, fun ks => ?_⟩
    · unfold addAll
      rw [List.foldlM_cons, hadd]
      exact hrun
    · rw [hget, NameTree.get_modify, List.reverse_cons, List.filter_append, List.map_append,
        List.append_assoc]
      congr 1
      by_cases hks : ks = words a.1.bytes
      · subst hks
        simp
      · simp [hks, Ne.symm hks]

/-- A last slash makes no word. -/
theorem words_concat (dir : List UInt8) : words (dir ++ [47]) = words dir := by
  unfold words
  rw [List.splitOn_append_cons_self, List.splitOn_nil, List.filter_append]
  simp

theorem find?_latest (added : List (CString × HttpContent φ)) (ks : List (List UInt8))
    (entryName : List UInt8) :
    ((added.filter fun a => words a.1.bytes = ks).map Prod.snd).find? (HttpContent.answers entryName) =
      (added.find? fun a => words a.1.bytes = ks ∧ a.2.answers entryName).map Prod.snd := by
  rw [List.find?_map, List.find?_filter]
  congr 2
  funext a
  simp

/-- A directory that is missing has no entries, so that its requests find none. -/
theorem find_entry (content : HttpDir φ) (ks : List (List UInt8)) (entryName : List UInt8) :
    (content.find ks).bind (httpdFindContentEntry · entryName) =
      (content.get [] ks).find? (HttpContent.answers entryName) := by
  unfold NameTree.get
  cases content.find ks with
  | none => rfl
  | some dir => rfl

/-- What is found in a tree that holds `added`. -/
theorem findAnswer_eq {added : List (CString × HttpContent φ)} {content : HttpDir φ}
    (hget : ∀ ks, content.get [] ks = (added.reverse.filter fun a => words a.1.bytes = ks).map Prod.snd)
    {dirName : List UInt8} (hlen : dirName.length < 1024) (entryName : List UInt8) :
    findAnswer content dirName entryName = .ok (match latest added dirName entryName with
      | none => .notFound
      | some e => .entry e entryName) := by
  have hentry := find_entry content (words dirName) entryName
  rw [hget, find?_latest] at hentry
  unfold findAnswer httpdFindContentDir dirWords latest
  rw [if_pos hlen, ← hentry]
  simp only [Res.ok_bind]
  cases content.find (words dirName) with
  | none => rfl
  | some dir =>
    rw [Option.bind_some]
    change (match httpdFindContentEntry dir entryName with
      | none => Res.ok Answer.notFound
      | some e => Res.ok (Answer.entry e entryName)) = _
    cases httpdFindContentEntry dir entryName with
    | none => rfl
    | some e => rfl

/-- **Routing**: whatever has been added, a request is answered with the latest content that answers to
it. -/
theorem processRequest_route (added : List (CString × HttpContent φ))
    (hdirs : ∀ a ∈ added, a.1.bytes.length < 1024) :
    ∃ content, addAll .init added = .ok content ∧ ∀ path : CString, path.bytes.length < 1024 →
      httpdProcessRequest content path = .ok (route added path) := by
  obtain ⟨content, hadd, hget⟩ := addAll_ok added hdirs .init
  have hentries : ∀ ks, content.get [] ks =
      (added.reverse.filter fun a => words a.1.bytes = ks).map Prod.snd := by
    intro ks
    rw [hget, HttpDir.init, NameTree.get_empty, List.append_nil]
  refine ⟨content, hadd, fun path hpath => ?_⟩
  unfold httpdProcessRequest route
  simp only
  by_cases hslash : 47 ∈ path.bytes
  · have hfront : path.bytes.rdropWhile (· ≠ 47) ≠ [] := by
      rw [Ne, List.rdropWhile_eq_nil_iff]
      intro h
      simpa using h 47 hslash
    have hlen := (List.rdropWhile_prefix (fun b : UInt8 => decide (b ≠ 47)) path.bytes).length_le
    -- the directory is up to the last slash, which makes no word of it
    have hwords : words (path.bytes.rdropWhile (· ≠ 47)).dropLast =
        words (path.bytes.rdropWhile (· ≠ 47)) := by
      have hlast := List.rdropWhile_last_not _ _ hfront
      conv_rhs => rw [← List.dropLast_append_getLast hfront]
      rw [show (path.bytes.rdropWhile (· ≠ 47)).getLast hfront = 47 by simpa using hlast, words_concat]
    rw [if_neg hfront, if_pos hslash]
    split
    · exact findAnswer_eq hentries (by omega) _
    · rw [findAnswer_eq hentries (by rw [List.length_dropLast]; omega)]
      unfold latest
      rw [hwords]
  · rw [if_neg hslash, if_pos]
    rw [List.rdropWhile_eq_nil_iff]
    intro b hb
    simpa using ne_of_mem_of_not_mem hb hslash

/-- Two contents of one name: the later one is found. -/
theorem processRequest_route_twice :
    let page : HttpContent Nat := ⟨some (ofBuf (bytesOf "b")), .static, false, none, .data (ofBuf (bytesOf "x"))⟩
    let entry : HttpContent Nat := ⟨some (ofBuf (bytesOf "b")), .cFunct, false, none, .function 2⟩
    ∃ content, addAll .init [(ofBuf (bytesOf "/a"), page), (ofBuf (bytesOf "a/"), entry)] = .ok content ∧
      httpdProcessRequest content (ofBuf (bytesOf "/a/b")) = .ok (.entry entry (bytesOf "b")) := by
  intro page entry
  obtain ⟨content, hadd, hroute⟩ := processRequest_route
    [(ofBuf (bytesOf "/a"), page), (ofBuf (bytesOf "a/"), entry)] (by decide +kernel)
  refine ⟨content, hadd, ?_⟩
  rw [hroute _ (by decide +kernel)]
  decide +kernel

end Libhttpd
