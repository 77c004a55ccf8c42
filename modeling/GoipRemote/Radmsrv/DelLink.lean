import GoipRemote.Lib.SplitOn
import GoipRemote.Libhttpd.Url
import GoipRemote.Radmsrv.SaveCfg

/-!
# The `Del` link of a client (`show_radmclient_list`)

The page prints the id of a client as it is into the query of the link that deletes it, and the library
cleans, cuts and decodes what is requested. `delLink_names_iff` says for which ids the request names the
client: exactly those in which none of the three steps finds anything.
-/

namespace Radmsrv

open Libhttpd CString SplitOn

/-- The path and the query of the `Del` link of a client; for another `is_radmin` there is none. -/
def delLink (id : CString) (isRadmin : Int) : Option (List UInt8) :=
  if isRadmin = 3 then some (bytesOf "/?del=" ++ id.bytes ++ bytesOf "&type=3&refer=%3Ftelnet")
  else if isRadmin = 1 then some (bytesOf "/?del=" ++ id.bytes ++ bytesOf "&type=1")
  else if isRadmin = 2 then some (bytesOf "/?del=" ++ id.bytes ++ bytesOf "&type=2")
  else none

/-- The variables that the handler of the link looks up name the client. -/
def NamesClient (vars : List HttpVar) (id : CString) (isRadmin : Int) : Prop :=
  (httpdGetVariableByName vars (ofBuf (bytesOf "del"))).map (·.value) = some id ∧
    (httpdGetVariableByName vars (ofBuf (bytesOf "type"))).map (·.value) =
      some (ofBuf (decimal isRadmin.natAbs))

/-- `show_radmclient_list`, the message that the handler of the link writes. -/
def delMessage (vars : List HttpVar) : Option (List UInt8) :=
  (httpdGetVariableByName vars (ofBuf (bytesOf "del"))).map fun var =>
    let type :=
      match httpdGetVariableByName vars (ofBuf (bytesOf "type")) with
      | some varDel => atoi varDel.value
      | none => 1
    deleteMessage type var.value

/-- A browser's request line for a path. -/
def getRequest (path : List UInt8) : List UInt8 := bytesOf "GET " ++ path ++ bytesOf " HTTP/1.1\r\n"

/-- Nothing in an id is removed, cut or decoded. -/
structure Plain (id : List UInt8) : Prop where
  kept : Kept id
  amp : 38 ∉ id
  sign : 61 ∉ id
  plus : 43 ∉ id
  percent : 37 ∉ id.dropLast

theorem atoi_digit {d : UInt8} (h : isdigit d = true) : atoi (ofBuf [d]) = d.toNat - 48 := by
  have hd : 48 ≤ d.toNat ∧ d.toNat ≤ 57 := by simpa [isdigit, UInt8.le_iff_toNat_le] using h
  have hzero : d ≠ 0 := by
    rintro rfl
    simp at hd
  have hbytes : (ofBuf [d]).bytes = [d] := ofBuf_bytes (by simpa using hzero)
  have hspace : isspace d = false := by
    simp [isspace, ← UInt8.toNat_inj, UInt8.le_iff_toNat_le]
    omega
  have hminus : d ≠ 45 := by
    rintro rfl
    simp at hd
  have hplus : d ≠ 43 := by
    rintro rfl
    simp at hd
  have hatoi : atoi (ofBuf [d]) = Int.bmod (min ((d.toNat - 48 : Nat) : Int) 9223372036854775807)
    4294967296 := by
    unfold atoi
    rw [hbytes]
    simp [hspace, hminus, hplus, h]
  rw [hatoi, min_eq_left (by omega), Int.bmod_eq_of_le (by omega) (by omega)]
  omega

/-- The handler writes the message that deletes the client. -/
theorem NamesClient.message {vars : List HttpVar} {id : CString} {isRadmin : Int}
    (h : NamesClient vars id isRadmin) (htype : isRadmin = 1 ∨ isRadmin = 2 ∨ isRadmin = 3) :
    delMessage vars = some (deleteMessage isRadmin id) := by
  obtain ⟨var, hvar, hid⟩ := Option.map_eq_some_iff.1 h.1
  obtain ⟨varDel, hvarDel, hvalue⟩ := Option.map_eq_some_iff.1 h.2
  have hatoi : atoi (ofBuf (decimal isRadmin.natAbs)) = isRadmin := by
    obtain ⟨d, hd, htext, hvalue⟩ : ∃ d, isdigit d = true ∧ decimal isRadmin.natAbs = [d] ∧
        (d.toNat : Int) - 48 = isRadmin := by
      rcases htype with rfl | rfl | rfl
      · exact ⟨49, rfl, rfl, rfl⟩
      · exact ⟨50, rfl, rfl, rfl⟩
      · exact ⟨51, rfl, rfl, rfl⟩
    rw [htext, atoi_digit hd, hvalue]
  unfold delMessage
  rw [hvar, hvarDel, Option.map_some]
  simp only [hvalue, hatoi, hid]

/-! ## The value of `del`, whatever is requested -/

theorem ofBuf_dotted (text : List UInt8) :
    (ofBuf (dotted text)).bytes = dotted (text.takeWhile (· ≠ 0)) := by
  induction text with
  | nil => rfl
  | cons b text ih =>
    by_cases hb : b = 0
    · subst hb
      rfl
    · rw [List.takeWhile_cons_of_pos (by simpa using hb)]
      by_cases hdot : b = 46
      · subst hdot
        show (ofBuf (95 :: 100 :: 111 :: 116 :: 95 :: dotted text)).bytes = _
        rw [ofBuf_cons (by decide), ofBuf_cons (by decide), ofBuf_cons (by decide), ofBuf_cons (by decide),
          ofBuf_cons (by decide), ih]
        rfl
      · have hcons (l) : dotted (b :: l) = b :: dotted l := by simp [dotted, hdot]
        rw [hcons, hcons, ofBuf_cons hb, ih]

/-- The name `del` is written as it is: an underscore would stand for a dot. -/
theorem del_text {text : List UInt8} (h : skipBlanks (ofBuf (dotted text)) = ofBuf (bytesOf "del")) :
    3 ≤ text.length ∧ 100 ∈ text := by
  have hdrop : (dotted (text.takeWhile (· ≠ 0))).dropWhile (fun b => b = 32 ∨ b = 9) = bytesOf "del" := by
    rw [← ofBuf_dotted]
    exact congrArg CString.bytes h
  have hdotted : dotted (text.takeWhile (· ≠ 0)) =
      (dotted (text.takeWhile (· ≠ 0))).takeWhile (fun b => b = 32 ∨ b = 9) ++ bytesOf "del" := by
    rw [← hdrop, List.takeWhile_append_dropWhile]
  have hunder : 95 ∉ dotted (text.takeWhile (· ≠ 0)) := by
    rw [hdotted, List.mem_append, not_or]
    refine ⟨fun hmem => ?_, by decide⟩
    have := List.mem_takeWhile_imp hmem
    simp at this
  have hdot : 46 ∉ text.takeWhile (· ≠ 0) := by
    intro hmem
    exact hunder (List.mem_flatMap.2 ⟨46, hmem, by decide⟩)
  have hself : dotted (text.takeWhile (· ≠ 0)) = text.takeWhile (· ≠ 0) := by
    have hmap : dotted (text.takeWhile (· ≠ 0)) = (text.takeWhile (· ≠ 0)).flatMap fun c => [c] := by
      refine List.flatMap_congr fun c hc => if_neg ?_
      exact ne_of_mem_of_not_mem hc hdot
    rw [hmap, List.flatMap_singleton']
  rw [hself] at hdotted
  have hpre : text.takeWhile (· ≠ 0) <+: text := List.takeWhile_prefix _
  refine ⟨?_, ?_⟩
  · refine Nat.le_trans ?_ hpre.length_le
    rw [hdotted, List.length_append]
    exact Nat.le_add_left _ _
  · apply hpre.subset
    rw [hdotted]
    exact List.mem_append_right _ (by decide)

/-- A segment that gives `del` a value is at least four bytes longer than the value. -/
theorem gives_del {segment : List UInt8} {value : CString}
    (h : Gives segment (ofBuf (bytesOf "del")) value) :
    100 ∈ segment ∧ value.bytes.length + 4 ≤ segment.length ∧
      (value.bytes.length + 4 = segment.length → 61 ∉ segment.drop 4 ∧
        value = ofBuf (unescape [] (segment.drop 4))) := by
  obtain ⟨text, signs, val, hsegment, hsigns, hval, hname, hvalue⟩ := h
  obtain ⟨htext, hd⟩ := del_text hname
  have hsigns : 1 ≤ signs.length := List.length_pos_iff.2 hsigns
  have hlen : value.bytes.length ≤ val.length := by
    rw [hvalue]
    exact (List.takeWhile_prefix _).length_le.trans (unescape_length_le [] val)
  have hsum : segment.length = text.length + signs.length + val.length := by
    rw [hsegment, List.length_append, List.length_append]
  refine ⟨?_, by omega, fun heq => ?_⟩
  · rw [hsegment]
    simp [hd]
  · have hfront : (text ++ signs).length = 4 := by
      rw [List.length_append]
      omega
    have hdrop : segment.drop 4 = val := by rw [hsegment, ← hfront, List.drop_left]
    rw [hdrop]
    exact ⟨hval, hvalue⟩

/-- What stands behind the id in a request: nothing, or further variables, none of them `del`. -/
structure Behind (tail : List UInt8) : Prop where
  slash : 47 ∉ tail
  question : 63 ∉ tail
  del : 100 ∉ tail
  amp : tail.head? = none ∨ tail.head? = some 38

theorem segment_of_behind {query tail segment : List UInt8} (htail : Behind tail) (hd : 100 ∈ segment)
    (h : segment ∈ (query ++ tail).splitOn 38) : segment ∈ query.splitOn 38 := by
  cases tail with
  | nil => rwa [List.append_nil] at h
  | cons b tail =>
    rcases htail.amp with hamp | hamp
    · cases hamp
    · cases hamp
      rw [List.splitOn_append_cons_self, List.mem_append] at h
      refine h.resolve_right fun hmem => htail.del ?_
      exact List.mem_cons_of_mem _ ((of_mem_splitOn hmem).2.subset hd)

/-- What sanitising leaves of the query, and what it has left alone where that has the same length. -/
theorem sanitised_query {query tail rest : List UInt8} {b : UInt8} (htail : Behind tail)
    (h : (httpdSanitiseUrl (47 :: 63 :: query ++ tail)).dropWhile (· ≠ 63) = b :: rest) :
    ∃ front, rest = front ++ tail ∧ front.length ≤ query.length ∧
      (front.length = query.length → front = query ∧ Kept (47 :: 63 :: query)) := by
  rw [sanitiseUrl_append htail.slash] at h
  by_cases hkept : Kept (47 :: 63 :: query)
  · rw [sanitiseUrl_eq_self hkept, List.cons_append, List.cons_append,
      List.dropWhile_cons_of_pos (by decide), List.dropWhile_cons_of_neg (by decide)] at h
    cases h
    exact ⟨query, rfl, Nat.le_refl _, fun _ => ⟨rfl, hkept⟩⟩
  · have hlen := sanitiseUrl_length_lt hkept
    have hhead := @sanitiseUrl_head (47 :: 63 :: query) rfl
    simp only [List.length_cons] at hlen
    -- the slash before the question mark stays in any case
    obtain ⟨url, hurl⟩ : ∃ url, httpdSanitiseUrl (47 :: 63 :: query) = 47 :: url := by
      cases hsan : httpdSanitiseUrl (47 :: 63 :: query) with
      | nil => simp [hsan] at hhead
      | cons c url =>
        rw [hsan] at hhead
        cases hhead
        exact ⟨url, rfl⟩
    rw [hurl, List.length_cons] at hlen
    rw [hurl, List.cons_append, List.dropWhile_cons_of_pos (by decide), List.dropWhile_append] at h
    split at h
    · have : tail.dropWhile (· ≠ 63) = [] := by
        rw [List.dropWhile_eq_nil_iff]
        intro c hc
        simpa using ne_of_mem_of_not_mem hc htail.question
      rw [this] at h
      cases h
    · rename_i hne
      cases hdrop : url.dropWhile (· ≠ 63) with
      | nil =>
        rw [hdrop] at hne
        exact absurd rfl hne
      | cons c front =>
        have hfront := (List.dropWhile_suffix (l := url) fun b : UInt8 => decide (b ≠ 63)).length_le
        rw [hdrop] at h hfront
        rw [List.length_cons] at hfront
        cases h
        exact ⟨front, rfl, by omega, fun heq => by omega⟩

theorem kept_query {id : List UInt8} : Kept (47 :: 63 :: (bytesOf "del=" ++ id)) ↔ Kept id := by
  have hslashes : bytesOf "//" <:+: 47 :: 63 :: (bytesOf "del=" ++ id) ↔ bytesOf "//" <:+: id := by
    simp [bytesOf, List.infix_cons_iff, List.cons_prefix_cons]
  have hdots : bytesOf "/./" <:+: 47 :: 63 :: (bytesOf "del=" ++ id) ↔ bytesOf "/./" <:+: id := by
    simp [bytesOf, List.infix_cons_iff, List.cons_prefix_cons]
  have hups : bytesOf "/../" <:+: 47 :: 63 :: (bytesOf "del=" ++ id) ↔ bytesOf "/../" <:+: id := by
    simp [bytesOf, List.infix_cons_iff, List.cons_prefix_cons]
  refine ⟨?_, ?_⟩
  · intro h
    exact ⟨mt hslashes.2 h.slashes, mt hdots.2 h.dots, mt hups.2 h.ups⟩
  · intro h
    exact ⟨mt hslashes.1 h.slashes, mt hdots.1 h.dots, mt hups.1 h.ups⟩

/-- **The value** of `del` is never longer than what is requested for it, and is as long only where
nothing is removed from the path and nothing in it separates. -/
theorem pathVariables_del {text tail : List UInt8} {vars : List HttpVar} {v : HttpVar} (htail : Behind tail)
    (h : pathVariables (bytesOf "/?del=" ++ text ++ tail) = .ok vars)
    (hget : httpdGetVariableByName vars (ofBuf (bytesOf "del")) = some v) (hvalue : v.value.bytes ≠ []) :
    v.value.bytes.length ≤ text.length ∧ (v.value.bytes.length = text.length →
      Kept text ∧ 38 ∉ text ∧ 61 ∉ text ∧ v.value = ofBuf (unescape [] text)) := by
  unfold pathVariables at h
  split at h
  · cases h
    cases hget
  · rename_i b rest hquery
    obtain ⟨front, hrest, hlen, hfront⟩ := @sanitised_query (bytesOf "del=" ++ text) tail rest b htail hquery
    subst hrest
    rcases storeData_sound h hget hvalue with ⟨v', hget', -⟩ | ⟨segment, hsegment, hgives⟩
    · cases hget'
    · obtain ⟨hd, hvalue, heq⟩ := gives_del hgives
      have hmem := segment_of_behind htail hd hsegment
      have hle := (of_mem_splitOn hmem).2.length_le
      have hquery : (bytesOf "del=" ++ text).length = text.length + 4 := by
        rw [List.length_append]
        exact Nat.add_comm _ _
      refine ⟨by omega, fun hsame => ?_⟩
      -- nothing is missing, so that the segment is all of the query
      obtain ⟨rfl, hkept⟩ := hfront (by omega)
      obtain ⟨hself, hamp⟩ := eq_of_mem_splitOn hmem (by omega)
      subst hself
      obtain ⟨hsign, hval⟩ := heq (by omega)
      exact ⟨kept_query.1 hkept, fun h => hamp (List.mem_append_right _ h), hsign, hval⟩

/-! ## The link that is requested back -/

/-- The pair of the id. -/
def delPair (id : CString) (hsign : 61 ∉ id.bytes) (hamp : 38 ∉ id.bytes) : Pair where
  name := ofBuf (bytesOf "del")
  value := id
  name_bytes := by decide +kernel
  name_length := by decide
  value_bytes := fun _ hb => ⟨ne_of_mem_of_not_mem hb hsign, ne_of_mem_of_not_mem hb hamp⟩

/-- The pair of a type. -/
def typePair (type : CString) (htype : ∀ b ∈ type.bytes, b ≠ 61 ∧ b ≠ 38) : Pair where
  name := ofBuf (bytesOf "type")
  value := type
  name_bytes := by decide +kernel
  name_length := by decide
  value_bytes := htype

/-- The pair that brings the browser back to the page of the `TELNET` clients. -/
def referPair : Pair where
  name := ofBuf (bytesOf "refer")
  value := ofBuf (bytesOf "%3Ftelnet")
  name_bytes := by decide +kernel
  name_length := by decide
  value_bytes := by decide +kernel

/-- What the link has behind the id. -/
def linkTail (isRadmin : Int) : List UInt8 :=
  if isRadmin = 3 then bytesOf "&type=3&refer=%3Ftelnet"
  else if isRadmin = 1 then bytesOf "&type=1"
  else bytesOf "&type=2"

theorem delLink_eq {id : CString} {isRadmin : Int} {link : List UInt8} (h : delLink id isRadmin = some link) :
    link = bytesOf "/?del=" ++ id.bytes ++ linkTail isRadmin ∧
      (isRadmin = 1 ∨ isRadmin = 2 ∨ isRadmin = 3) := by
  unfold delLink at h
  unfold linkTail
  split at h
  · cases h
    exact ⟨by simp [*], .inr (.inr ‹_›)⟩
  · split at h
    · cases h
      exact ⟨by simp [*], .inl ‹_›⟩
    · split at h
      · cases h
        exact ⟨by simp [*], .inr (.inl ‹_›)⟩
      · cases h

theorem behind_linkTail {isRadmin : Int} (h : isRadmin = 1 ∨ isRadmin = 2 ∨ isRadmin = 3) :
    Behind (linkTail isRadmin) := by
  rcases h with rfl | rfl | rfl
  · exact ⟨by decide, by decide, by decide, by decide⟩
  · exact ⟨by decide, by decide, by decide, by decide⟩
  · exact ⟨by decide, by decide, by decide, by decide⟩

theorem pathVariables_kept {text tail : List UInt8} (htail : Behind tail) (h : Kept text) :
    pathVariables (bytesOf "/?del=" ++ text ++ tail) =
      httpdStoreData [] (bytesOf "del=" ++ text ++ tail) := by
  have hpath : bytesOf "/?del=" ++ text = 47 :: 63 :: (bytesOf "del=" ++ text) := rfl
  have hsan : httpdSanitiseUrl (bytesOf "/?del=" ++ text ++ tail) = bytesOf "/?del=" ++ text ++ tail := by
    rw [sanitiseUrl_append htail.slash, hpath, sanitiseUrl_eq_self (kept_query.2 h)]
  unfold pathVariables
  rw [hsan]
  rfl

/-- A plain id comes back. -/
theorem pathVariables_of_plain {id : CString} {isRadmin : Int}
    (htype : isRadmin = 1 ∨ isRadmin = 2 ∨ isRadmin = 3) (h : Plain id.bytes) :
    ∃ vars, pathVariables (bytesOf "/?del=" ++ id.bytes ++ linkTail isRadmin) = .ok vars ∧
      NamesClient vars id isRadmin := by
  have hid : ofBuf (unescape [] id.bytes) = id :=
    CString.ext ((unescape_eq_self id.ne_zero).2 ⟨h.plus, h.percent⟩)
  rw [pathVariables_kept (behind_linkTail htype) h.kept]
  rcases htype with rfl | rfl | rfl
  · have hquery : bytesOf "del=" ++ id.bytes ++ linkTail 1 = [38].intercalate
        ([delPair id h.sign h.amp, typePair (ofBuf (bytesOf "1")) (by decide +kernel)].map Pair.segment) := by
      simp [List.intercalate, Pair.segment, delPair, typePair, linkTail, bytesOf, ofBuf]
    rw [hquery, storeData_pairs]
    exact ⟨_, rfl, congrArg some hid, rfl⟩
  · have hquery : bytesOf "del=" ++ id.bytes ++ linkTail 2 = [38].intercalate
        ([delPair id h.sign h.amp, typePair (ofBuf (bytesOf "2")) (by decide +kernel)].map Pair.segment) := by
      simp [List.intercalate, Pair.segment, delPair, typePair, linkTail, bytesOf, ofBuf]
    rw [hquery, storeData_pairs]
    exact ⟨_, rfl, congrArg some hid, rfl⟩
  · have hquery : bytesOf "del=" ++ id.bytes ++ linkTail 3 = [38].intercalate
        ([delPair id h.sign h.amp, typePair (ofBuf (bytesOf "3")) (by decide +kernel), referPair].map
          Pair.segment) := by
      simp [List.intercalate, Pair.segment, delPair, typePair, referPair, linkTail, bytesOf, ofBuf]
    rw [hquery, storeData_pairs]
    exact ⟨_, rfl, congrArg some hid, rfl⟩

theorem plain_nil : Plain [] := ⟨⟨by decide, by decide, by decide⟩, by decide, by decide,
    by decide, by decide⟩

/-- The variable `del` of variables that name a client. -/
theorem NamesClient.del {vars : List HttpVar} {id : CString} {isRadmin : Int}
    (h : NamesClient vars id isRadmin) :
    ∃ v, httpdGetVariableByName vars (ofBuf (bytesOf "del")) = some v ∧ v.value = id :=
  Option.map_eq_some_iff.1 h.1

theorem pathVariables_iff {id : CString} {isRadmin : Int}
    (htype : isRadmin = 1 ∨ isRadmin = 2 ∨ isRadmin = 3) :
    (∃ vars, pathVariables (bytesOf "/?del=" ++ id.bytes ++ linkTail isRadmin) = .ok vars ∧
      NamesClient vars id isRadmin) ↔ Plain id.bytes := by
  refine ⟨?_, ?_⟩
  · intro ⟨vars, hvars, hnames⟩
    by_cases hnil : id.bytes = []
    · rw [hnil]
      exact plain_nil
    · obtain ⟨v, hget, rfl⟩ := hnames.del
      obtain ⟨-, hsame⟩ := pathVariables_del (behind_linkTail htype) hvars hget hnil
      obtain ⟨hkept, hamp, hsign, hvalue⟩ := hsame rfl
      obtain ⟨hplus, hpercent⟩ := (unescape_eq_self v.value.ne_zero).1 (congrArg CString.bytes hvalue.symm)
      exact ⟨hkept, hamp, hsign, hplus, hpercent⟩
  · exact pathVariables_of_plain htype

/-! ## The link in a request line -/

/-- The id as the server finds it in the request line. -/
def requestedId (id : List UInt8) : List UInt8 := (id.filter (· ≠ 13)).takeWhile fun b => b ≠ 32 ∧ b ≠ 0

theorem requestedId_length_le (id : List UInt8) : (requestedId id).length ≤ id.length :=
  (List.takeWhile_prefix _).length_le.trans (List.length_filter_le _ _)

theorem requestedId_of_length {id : List UInt8} (h : (requestedId id).length = id.length) :
    32 ∉ id ∧ 13 ∉ id := by
  have hfilter := List.length_filter_le (fun b : UInt8 => decide (b ≠ 13)) id
  have hpre : requestedId id <+: id.filter (· ≠ 13) := List.takeWhile_prefix _
  have hle := hpre.length_le
  have hself : id.filter (· ≠ 13) = id := List.filter_sublist.eq_of_length (by omega)
  have hall : requestedId id = id := by
    rw [hself] at hpre
    exact hpre.eq_of_length h
  refine ⟨?_, ?_⟩
  · intro hmem
    rw [← hall] at hmem
    simpa using List.mem_takeWhile_imp hmem
  · intro hmem
    rw [← hself] at hmem
    simpa using List.of_mem_filter hmem

theorem requestedId_eq_self {id : List UInt8} (hid : ∀ b ∈ id, b ≠ 0) (hspace : 32 ∉ id) (hreturn : 13 ∉ id) :
    requestedId id = id := by
  have hfilter : id.filter (· ≠ 13) = id :=
    List.filter_eq_self.2 fun b hb => by simpa using ne_of_mem_of_not_mem hb hreturn
  unfold requestedId
  rw [hfilter]
  refine List.takeWhile_eq_self_iff.2 fun b hb => ?_
  simpa using ⟨ne_of_mem_of_not_mem hb hspace, hid b hb⟩

/-- The id and what is behind it, up to the first space. -/
theorem requestedId_append {id : CString} {tail : List UInt8}
    (htail : tail.takeWhile (fun b => b ≠ 32 ∧ b ≠ 0) = tail) :
    ∃ tail', (id.bytes.filter (· ≠ 13) ++ tail).takeWhile (fun b => b ≠ 32 ∧ b ≠ 0) =
        requestedId id.bytes ++ tail' ∧ (tail' = tail ∨ tail' = [] ∧ 32 ∈ id.bytes) := by
  rw [List.takeWhile_append]
  split
  · rename_i hall
    refine ⟨tail, ?_, .inl rfl⟩
    rw [htail, requestedId, (List.takeWhile_prefix _).eq_of_length hall]
  · rename_i hall
    refine ⟨[], (List.append_nil _).symm, .inr ⟨rfl, ?_⟩⟩
    by_contra hspace
    refine hall (congrArg List.length (List.takeWhile_eq_self_iff.2 fun b hb => ?_))
    have hb := List.mem_of_mem_filter hb
    simpa using ⟨ne_of_mem_of_not_mem hb hspace, id.ne_zero b hb⟩

/-- The path that the server takes from the request line: what is behind a space in the id is lost. -/
theorem requestVariables_link {id : CString} {isRadmin : Int}
    (htype : isRadmin = 1 ∨ isRadmin = 2 ∨ isRadmin = 3) (hlen : id.bytes.length ≤ 247)
    (hline : 10 ∉ id.bytes) :
    ∃ tail, Behind tail ∧ (32 ∉ id.bytes → tail = linkTail isRadmin) ∧
      requestVariables (getRequest (bytesOf "/?del=" ++ id.bytes ++ linkTail isRadmin)) =
        pathVariables (bytesOf "/?del=" ++ requestedId id.bytes ++ tail) >>= fun vars => .ok (some vars) := by
  have hlink : (linkTail isRadmin).length ≤ 23 ∧ 10 ∉ linkTail isRadmin ∧
      (linkTail isRadmin).filter (· ≠ 13) = linkTail isRadmin ∧
      (linkTail isRadmin).takeWhile (fun b => b ≠ 32 ∧ b ≠ 0) = linkTail isRadmin := by
    rcases htype with rfl | rfl | rfl
    · decide
    · decide
    · decide
  obtain ⟨hlinklen, hlinkline, hfilter, hwhile⟩ := hlink
  obtain ⟨tail, hpath, htail⟩ := @requestedId_append id (linkTail isRadmin) hwhile
  have hbehind : Behind tail := by
    rcases htail with rfl | ⟨rfl, -⟩
    · exact behind_linkTail htype
    · exact ⟨by decide, by decide, by decide, .inl rfl⟩
  have htaillen : tail.length ≤ 23 := by
    rcases htail with rfl | ⟨rfl, -⟩
    · exact hlinklen
    · exact Nat.zero_le _
  refine ⟨tail, hbehind, fun hspace => htail.resolve_right fun h => hspace h.2, ?_⟩
  -- the line, without its carriage returns, and the path in it
  have hrequest : getRequest (bytesOf "/?del=" ++ id.bytes ++ linkTail isRadmin) =
      (bytesOf "GET /?del=" ++ id.bytes ++ linkTail isRadmin ++ bytesOf " HTTP/1.1\x0d") ++ [10] := by
    unfold getRequest
    simp [bytesOf]
  have hread := @readLine_eq 10240
    (bytesOf "GET /?del=" ++ id.bytes ++ linkTail isRadmin ++ bytesOf " HTTP/1.1\x0d")
    (by simp [hline, hlinkline, bytesOf]) (by simp [bytesOf]; omega) []
  have hbuf :
      (bytesOf "GET /?del=" ++ id.bytes ++ linkTail isRadmin ++ bytesOf " HTTP/1.1\x0d").filter (· ≠ 13) =
      bytesOf "GET " ++ (47 :: (bytesOf "?del=" ++ (id.bytes.filter (· ≠ 13) ++ linkTail isRadmin))) ++
        32 :: bytesOf "HTTP/1.1" := by
    rw [List.filter_append, List.filter_append, List.filter_append, hfilter]
    simp [bytesOf]
  have hcut : (47 :: (bytesOf "?del=" ++ (id.bytes.filter (· ≠ 13) ++ linkTail isRadmin))).takeWhile
      (fun b => b ≠ 32 ∧ b ≠ 0) = bytesOf "/?del=" ++ requestedId id.bytes ++ tail := by
    rw [List.append_assoc, ← hpath]
    rfl
  have hshort : (bytesOf "/?del=" ++ requestedId id.bytes ++ tail).length < 1024 := by
    have := requestedId_length_le id.bytes
    rw [List.length_append, List.length_append]
    change 6 + _ + _ < 1024
    omega
  unfold requestVariables
  rw [hrequest, hread, Res.ok_bind]
  simp only [hbuf, requestPath_get, hcut, if_pos hshort]
  rfl

/-- **The link** of a listed client names it, as a path, exactly when its id is plain; in a request line the
id must have no space and no carriage return either. -/
theorem delLink_names_iff {id : CString} {isRadmin : Int} {link : List UInt8}
    (hlink : delLink id isRadmin = some link) (hlen : id.bytes.length ≤ 247) (hline : 10 ∉ id.bytes) :
    ((∃ vars, pathVariables link = .ok vars ∧ NamesClient vars id isRadmin) ↔ Plain id.bytes) ∧
      ((∃ vars, requestVariables (getRequest link) = .ok (some vars) ∧ NamesClient vars id isRadmin) ↔
        Plain id.bytes ∧ 32 ∉ id.bytes ∧ 13 ∉ id.bytes) := by
  obtain ⟨rfl, htype⟩ := delLink_eq hlink
  refine ⟨pathVariables_iff htype, ?_⟩
  obtain ⟨tail, htail, hspace, hrequest⟩ := requestVariables_link htype hlen hline
  rw [hrequest]
  refine ⟨?_, ?_⟩
  · intro ⟨vars, hvars, hnames⟩
    obtain ⟨vars', hvars', heq⟩ := Res.bind_eq_ok.1 hvars
    cases heq
    have hlength : (requestedId id.bytes).length = id.bytes.length := by
      apply Nat.le_antisymm (requestedId_length_le _)
      by_cases hnil : id.bytes = []
      · rw [hnil]
        exact Nat.zero_le _
      · obtain ⟨v, hget, rfl⟩ := hnames.del
        exact (pathVariables_del htail hvars' hget hnil).1
    obtain ⟨h32, h13⟩ := requestedId_of_length hlength
    rw [requestedId_eq_self id.ne_zero h32 h13, hspace h32] at hvars'
    exact ⟨(pathVariables_iff htype).1 ⟨vars, hvars', hnames⟩, h32, h13⟩
  · intro ⟨hplain, h32, h13⟩
    obtain ⟨vars, hvars, hnames⟩ := (pathVariables_iff htype).2 hplain
    refine ⟨vars, ?_, hnames⟩
    rw [requestedId_eq_self id.ne_zero h32 h13, hspace h32, hvars]
    rfl

theorem delLink_names_telnet :
    ∃ link, delLink (ofBuf (bytesOf "goip/1%")) 3 = some link ∧
      (∃ vars, pathVariables link = .ok vars ∧ NamesClient vars (ofBuf (bytesOf "goip/1%")) 3) ∧
      ∃ vars, requestVariables (getRequest link) = .ok (some vars) ∧
        NamesClient vars (ofBuf (bytesOf "goip/1%")) 3 := by
  have hplain : Plain (ofBuf (bytesOf "goip/1%")).bytes :=
    ⟨⟨by decide, by decide, by decide⟩, by decide, by decide, by decide, by decide⟩
  obtain ⟨hpath, hrequest⟩ := @delLink_names_iff (ofBuf (bytesOf "goip/1%")) 3 _ rfl (by decide) (by decide)
  exact ⟨_, rfl, hpath.2 hplain, hrequest.2 ⟨hplain, by decide, by decide⟩⟩

/-- A plus sign comes back as a space. -/
theorem delLink_names_plus : ∃ link, delLink (ofBuf (bytesOf "a+b")) 1 = some link ∧
    ¬ ∃ vars, pathVariables link = .ok vars ∧ NamesClient vars (ofBuf (bytesOf "a+b")) 1 := by
  refine ⟨bytesOf "/?del=a+b&type=1", rfl, ?_⟩
  intro ⟨vars, hvars, hdel, _⟩
  have hspace : pathVariables (bytesOf "/?del=a+b&type=1") =
      .ok [⟨ofBuf (bytesOf "del"), ofBuf (bytesOf "a b"), []⟩,
        ⟨ofBuf (bytesOf "type"), ofBuf (bytesOf "1"), []⟩] := by decide +kernel
  rw [hspace] at hvars
  cases hvars
  exact absurd hdel (by decide)

end Radmsrv
