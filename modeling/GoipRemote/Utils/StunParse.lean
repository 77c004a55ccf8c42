import GoipRemote.Utils.Stun

/-!
# What a STUN message is

The grammar of the messages that `stunParseMessage` accepts: a `Message` is a header and a list of attributes
that are valid by their type and length. `stunParseMessage_true_iff` says that nothing else is accepted, and
`stunParseMessage_outcome` for which datagrams the parser leaves an array.
-/

namespace Utils.Stun

/-! ## The grammar -/

/-- An attribute as it stands in a message. -/
structure Attribute where
  typeHi : UInt8
  typeLo : UInt8
  lenHi : UInt8
  lenLo : UInt8
  value : List UInt8
  length_eq : value.length = (ntohs lenHi lenLo).toNat

namespace Attribute

def type (a : Attribute) : UInt16 := ntohs a.typeHi a.typeLo

def bytes (a : Attribute) : List UInt8 := a.typeHi :: a.typeLo :: a.lenHi :: a.lenLo :: a.value

/-- The value of an address: a pad byte, the family, the port and the address. -/
def isAddress (value : List UInt8) : Bool := value.length = 8 ∧ value[1]? = some IPv4Family

def address : List UInt8 → Option StunAddress4
  | [_, _, p₁, p₀, a₃, a₂, a₁, a₀] => some ⟨ntohs p₁ p₀, ntohl a₃ a₂ a₁ a₀⟩
  | _ => none

/-- The attributes that are accepted. -/
def valid (a : Attribute) : Bool :=
  match a.type.toNat with
  | 1 | 2 | 4 | 5 | 11 => isAddress a.value
  | 3 => a.value.length = 4
  | 6 | 7 => a.value.length < 256 ∧ a.value.length % 4 = 0
  | 8 => a.value.length = 20
  | 9 => 4 ≤ a.value.length ∧ a.value.length < 260
  | 10 => a.value.length < 18 ∧ a.value.length % 4 = 0
  | _ => 0x7FFF < a.type

/-- An error code without its four bytes of data, or with a text that leaves no room for a terminator but is
no longer than the `struct`. -/
def Harmful (a : Attribute) : Prop :=
  a.type.toNat = 9 ∧ (a.value.length < 4 ∨ 260 ≤ a.value.length ∧ a.value.length < 262)

def mapped (a : Attribute) : Option StunAddress4 := if a.type.toNat = 1 then address a.value else none

end Attribute

/-- What is left of a text behind some valid attributes. -/
def Reaches (text rest : List UInt8) : Prop :=
  ∃ attrs : List Attribute, (∀ a ∈ attrs, a.valid) ∧ text = attrs.flatMap Attribute.bytes ++ rest

/-- Parsing goes wrong on what is left of a text: the header of the next attribute is not within the buffer,
which has `behind` bytes behind the text, or the attribute is a harmful one. -/
def Harms (behind : Nat) (rest : List UInt8) : Prop :=
  rest ≠ [] ∧ (rest.length + behind < 4 ∨ ∃ a : Attribute, a.Harmful ∧ ∃ rest', rest = a.bytes ++ rest')

/-- A message with its attributes. -/
structure Message where
  typeHi : UInt8
  typeLo : UInt8
  lenHi : UInt8
  lenLo : UInt8
  id : Cells UInt8 16
  attributes : List Attribute
  valid : ∀ a ∈ attributes, a.valid
  length_eq : (attributes.flatMap Attribute.bytes).length = (ntohs lenHi lenLo).toNat

namespace Message

def type (m : Message) : UInt16 := ntohs m.typeHi m.typeLo

def bytes (m : Message) : List UInt8 :=
  m.typeHi :: m.typeLo :: m.lenHi :: m.lenLo :: (m.id.cells ++ m.attributes.flatMap Attribute.bytes)

/-- The last of several mapped addresses counts. -/
def mappedAddress (m : Message) : Option StunAddress4 := (m.attributes.filterMap Attribute.mapped).getLast?

end Message

/-- The mapped address of a parsed message. -/
def StunMessage.mapped (pmsg : StunMessage) : Option StunAddress4 :=
  if pmsg.hasMappedAddress then some pmsg.mappedAddress.ipv4 else none

/-! ## Attributes -/

/-- Four bytes in front. -/
theorem exists_four {text : List UInt8} (h : 4 ≤ text.length) :
    ∃ a b c d rest, text = a :: b :: c :: d :: rest := by
  match text, h with
  | a :: b :: c :: d :: rest, _ => exact ⟨a, b, c, d, rest, rfl⟩

section
variable {value rest : List UInt8}

theorem memcpy_ok {n : Nat} (dst : Cells UInt8 n) {src : List UInt8} {len : Nat} (hroom : len ≤ n)
    (hlen : len ≤ src.length) : ∃ dst', memcpy dst src len = .ok dst' := by
  unfold memcpy
  rw [dif_pos ⟨hroom, hlen⟩]
  exact ⟨_, rfl⟩

theorem memcpy_append {n : Nat} (dst : Cells UInt8 n) (h : value.length ≤ n) :
    ∃ dst', memcpy dst (value ++ rest) value.length = .ok dst' := by
  apply memcpy_ok dst h
  rw [List.length_append]
  omega

theorem Cells.set_ok {n : Nat} (dst : Cells UInt8 n) {i : Nat} (h : i < n) (a : UInt8) :
    ∃ dst', dst.set i a = .ok dst' := by
  unfold Cells.set
  rw [if_pos h]
  exact ⟨_, rfl⟩

theorem Cells.set_fault {n : Nat} (dst : Cells UInt8 n) {i : Nat} (h : n ≤ i) (a : UInt8) :
    dst.set i a = .fault := by
  unfold Cells.set
  rw [if_neg (Nat.not_lt.2 h)]

theorem stunParseAtrAddress_append (result : StunAtrAddress4) :
    ∃ r, stunParseAtrAddress (value ++ rest) value.length result = .ok (Attribute.isAddress value, r) ∧
      (Attribute.isAddress value → Attribute.address value = some r.ipv4) := by
  unfold stunParseAtrAddress Attribute.isAddress
  by_cases hlen : value.length = 8
  · match value, hlen with
    | [pad, family, p₁, p₀, a₃, a₂, a₁, a₀], _ =>
      by_cases hfamily : family = IPv4Family
      · subst hfamily
        exact ⟨_, rfl, fun _ => rfl⟩
      · refine ⟨⟨pad, family, result.ipv4⟩, ?_, ?_⟩
        · simp [hfamily]
        · simp [hfamily]
  · refine ⟨result, ?_, ?_⟩
    · simp [hlen]
    · simp [hlen]

theorem stunParseAtrChangeRequest_append (result : StunAtrChangeRequest) :
    ∃ r, stunParseAtrChangeRequest (value ++ rest) value.length result =
      .ok (decide (value.length = 4), r) := by
  unfold stunParseAtrChangeRequest
  by_cases hlen : value.length = 4
  · match value, hlen with
    | [v₃, v₂, v₁, v₀], _ => exact ⟨_, rfl⟩
  · exact ⟨result, by simp [hlen]⟩

theorem stunParseAtrString_append (result : StunAtrString) :
    ∃ r, stunParseAtrString (value ++ rest) value.length result =
      .ok (decide (value.length < 256 ∧ value.length % 4 = 0), r) := by
  unfold stunParseAtrString
  by_cases hlen : value.length < 256
  · by_cases hmod : value.length % 4 = 0
    · obtain ⟨copied, hcopy⟩ := @memcpy_append value rest _ result.value (Nat.le_of_lt hlen)
      obtain ⟨ended, hset⟩ := copied.set_ok hlen 0
      refine ⟨⟨ended, .ofNat value.length⟩, ?_⟩
      rw [if_neg (Nat.not_le.2 hlen), if_neg (not_not.2 hmod), hcopy, Res.ok_bind, hset, Res.ok_bind]
      simp [hlen, hmod]
    · exact ⟨result, by simp [hlen, hmod]⟩
  · exact ⟨result, by simp [hlen, Nat.not_lt.1 hlen]⟩

theorem stunParseAtrIntegrity_append (result : StunAtrIntegrity) :
    ∃ r, stunParseAtrIntegrity (value ++ rest) value.length result =
      .ok (decide (value.length = 20), r) := by
  unfold stunParseAtrIntegrity
  by_cases hlen : value.length = 20
  · obtain ⟨copied, hcopy⟩ := @memcpy_append value rest _ result.hash (Nat.le_of_eq hlen)
    refine ⟨⟨copied⟩, ?_⟩
    rw [if_neg (not_not.2 hlen), hcopy]
    simp [hlen]
  · exact ⟨result, by simp [hlen]⟩

theorem unknownTypes_append (n : Nat) (hlen : 2 * n ≤ value.length) :
    ∃ types, unknownTypes n (value ++ rest) = .ok types ∧ types.length = n := by
  induction n generalizing value with
  | zero => exact ⟨[], rfl, rfl⟩
  | succ n ih =>
    match value, hlen with
    | hi :: lo :: value, hlen =>
      have hleft : 2 * n ≤ value.length := by simp at hlen; omega
      obtain ⟨types, htypes, hcount⟩ := ih hleft
      refine ⟨ntohs hi lo :: types, ?_, by simp [hcount]⟩
      show unknownTypes (n + 1) (hi :: lo :: (value ++ rest)) = _
      rw [unknownTypes, htypes]
      rfl

theorem stunParseAtrUnknown_append (result : StunAtrUnknown) :
    ∃ r, stunParseAtrUnknown (value ++ rest) value.length result =
      .ok (decide (value.length < 18 ∧ value.length % 4 = 0), r) := by
  unfold stunParseAtrUnknown sizeofStunAtrUnknown
  by_cases hlen : value.length < 18
  · by_cases hmod : value.length % 4 = 0
    · obtain ⟨types, htypes, hcount⟩ :=
        @unknownTypes_append value rest (value.length / 4) (by omega)
      have hroom : types.length ≤ 8 ∧ types.length ≤ types.length := by omega
      rw [if_neg (by omega), if_neg (by omega), htypes, Res.ok_bind, memcpy, dif_pos hroom]
      exact ⟨_, by simp [hlen, hmod]; rfl⟩
    · exact ⟨result, by simp [hlen, hmod]⟩
  · exact ⟨result, by simp [hlen, Nat.not_lt.1 hlen]⟩

/-- A length below four wraps. -/
theorem sizeReason_toNat {hdrLen : Nat} (h : hdrLen < 262) :
    (UInt16.ofNat hdrLen - 4).toNat = if hdrLen < 4 then 65532 + hdrLen else hdrLen - 4 := by
  have hround : (UInt16.ofNat hdrLen).toNat = hdrLen :=
    UInt16.toNat_ofNat_of_lt' (show hdrLen < 65536 by omega)
  have hfour : (4 : UInt16).toNat = 4 := rfl
  rw [UInt16.toNat_sub, hround, hfour]
  split <;> omega

theorem stunParseAtrError_append (result : StunAtrError)
    (h : ¬(value.length < 4 ∨ 260 ≤ value.length ∧ value.length < 262)) :
    ∃ r, stunParseAtrError (value ++ rest) value.length result =
      .ok (decide (4 ≤ value.length ∧ value.length < 260), r) := by
  unfold stunParseAtrError sizeofStunAtrError
  by_cases hlen : value.length < 262
  · have hsize := sizeReason_toNat hlen
    rw [if_neg (by omega)] at hsize
    rw [if_neg (Nat.not_le.2 hlen)]
    obtain ⟨p₁, p₀, errorClass, number, reason, rfl⟩ := exists_four (show 4 ≤ value.length by omega)
    have hreason : reason.length < 256 := by simp at h hlen; omega
    obtain ⟨copied, hcopy⟩ := @memcpy_append reason rest _ result.reason (Nat.le_of_lt hreason)
    obtain ⟨ended, hset⟩ := copied.set_ok hreason 0
    have hvalid : 4 ≤ (p₁ :: p₀ :: errorClass :: number :: reason).length ∧
        (p₁ :: p₀ :: errorClass :: number :: reason).length < 260 := by
      simp only [List.length_cons]
      omega
    have hdiff : (p₁ :: p₀ :: errorClass :: number :: reason).length - 4 = reason.length := rfl
    rw [hdiff] at hsize
    simp only [List.cons_append, hsize, hcopy, Res.ok_bind, hset, decide_eq_true hvalid]
    exact ⟨_, rfl⟩
  · exact ⟨result, by rw [if_pos (Nat.not_lt.1 hlen)]; simp; omega⟩

/-- A terminator has to be within the array. -/
theorem memcpy_set_fault {β : Type} {n : Nat} (dst : Cells UInt8 n) {src : List UInt8} {len : Nat}
    (h : n ≤ len)
    (f : Cells UInt8 n → Res β) : (memcpy dst src len >>= fun copied => copied.set len 0 >>= f) = .fault := by
  unfold memcpy
  split
  · rw [Res.ok_bind, Cells.set_fault _ h, Res.fault_bind]
  · rfl

/-- A length below four wraps, one from 260 on is at least that of the array. -/
theorem stunParseAtrError_fault (result : StunAtrError)
    (h : value.length < 4 ∨ 260 ≤ value.length ∧ value.length < 262) :
    stunParseAtrError (value ++ rest) value.length result = .fault := by
  have hlen : value.length < 262 := by omega
  have hsize : 256 ≤ (UInt16.ofNat value.length - 4).toNat := by
    rw [sizeReason_toNat hlen]
    split <;> omega
  unfold stunParseAtrError sizeofStunAtrError
  rw [if_neg (Nat.not_le.2 hlen)]
  split
  · exact memcpy_set_fault _ hsize _
  · rfl

end

/-- A part of the message that is parsed, and is not the mapped address. -/
theorem parsed_put {β : Type} {pmsg : StunMessage} {result : Res (Bool × β)} {valid : Bool}
    (h : ∃ r, result = .ok (valid, r)) (put : β → StunMessage)
    (hput : ∀ r, (put r).msgHdr = pmsg.msgHdr ∧ (put r).mapped = pmsg.mapped) :
    ∃ pmsg', (result >>= fun parsed => .ok (parsed.1, put parsed.2)) = .ok (valid, pmsg') ∧
      pmsg'.msgHdr = pmsg.msgHdr ∧ (valid → pmsg'.mapped = Option.none.or pmsg.mapped) := by
  obtain ⟨r, hr⟩ := h
  refine ⟨put r, ?_, (hput r).1, fun _ => (hput r).2⟩
  rw [hr]
  rfl

/-- The switch on the attributes but for the harmful ones: of what is written, the mapped address alone is
told here. -/
theorem parseAttribute_append (a : Attribute) (h : ¬a.Harmful) (rest : List UInt8) (pmsg : StunMessage) :
    ∃ pmsg', parseAttribute a.type (a.value ++ rest) a.value.length pmsg = .ok (a.valid, pmsg') ∧
      pmsg'.msgHdr = pmsg.msgHdr ∧ (a.valid → pmsg'.mapped = a.mapped.or pmsg.mapped) := by
  have haddress : ∀ old, ∃ r, stunParseAtrAddress (a.value ++ rest) a.value.length old =
      .ok (Attribute.isAddress a.value, r) := fun old => by
    obtain ⟨r, hr, _⟩ := @stunParseAtrAddress_append a.value rest old
    exact ⟨r, hr⟩
  unfold parseAttribute Attribute.valid Attribute.mapped
  match htype : a.type.toNat with
  | 1 =>
    obtain ⟨r, hr, hmapped⟩ := @stunParseAtrAddress_append a.value rest pmsg.mappedAddress
    refine ⟨{ pmsg with hasMappedAddress := true, mappedAddress := r }, ?_, rfl, fun hvalid => ?_⟩
    · simp only [hr]
      rfl
    · rw [if_pos rfl, hmapped hvalid]
      rfl
  | 2 =>
    apply parsed_put (haddress _) fun r => { pmsg with hasResponseAddress := true, responseAddress := r }
    exact fun _ => ⟨rfl, rfl⟩
  | 3 =>
    apply parsed_put (stunParseAtrChangeRequest_append _) fun r =>
      { pmsg with hasChangeRequest := true, changeRequest := r }
    exact fun _ => ⟨rfl, rfl⟩
  | 4 =>
    apply parsed_put (haddress _) fun r => { pmsg with hasSourceAddress := true, sourceAddress := r }
    exact fun _ => ⟨rfl, rfl⟩
  | 5 =>
    apply parsed_put (haddress _) fun r => { pmsg with hasChangedAddress := true, changedAddress := r }
    exact fun _ => ⟨rfl, rfl⟩
  | 6 =>
    apply parsed_put (stunParseAtrString_append _) fun r => { pmsg with hasUsername := true, username := r }
    exact fun _ => ⟨rfl, rfl⟩
  | 7 =>
    apply parsed_put (stunParseAtrString_append _) fun r => { pmsg with hasPassword := true, password := r }
    exact fun _ => ⟨rfl, rfl⟩
  | 8 =>
    apply parsed_put (stunParseAtrIntegrity_append _) fun r =>
      { pmsg with hasMessageIntegrity := true, messageIntegrity := r }
    exact fun _ => ⟨rfl, rfl⟩
  | 9 =>
    have herror := @stunParseAtrError_append a.value rest pmsg.errorCode fun hlen => h ⟨htype, hlen⟩
    apply parsed_put herror fun r => { pmsg with hasErrorCode := true, errorCode := r }
    exact fun _ => ⟨rfl, rfl⟩
  | 10 =>
    apply parsed_put (stunParseAtrUnknown_append _) fun r =>
      { pmsg with hasUnknownAttributes := true, unknownAttributes := r }
    exact fun _ => ⟨rfl, rfl⟩
  | 11 =>
    apply parsed_put (haddress _) fun r => { pmsg with hasReflectedFrom := true, reflectedFrom := r }
    exact fun _ => ⟨rfl, rfl⟩
  | 0 => exact ⟨pmsg, rfl, rfl, fun _ => rfl⟩
  | _ + 12 => exact ⟨pmsg, rfl, rfl, fun _ => rfl⟩

theorem parseAttribute_fault (a : Attribute) (h : a.Harmful) (rest : List UInt8) (pmsg : StunMessage) :
    parseAttribute a.type (a.value ++ rest) a.value.length pmsg = .fault := by
  unfold parseAttribute
  rw [h.1]
  simp only [stunParseAtrError_fault _ h.2, Res.fault_bind]

/-! ## The loop -/

theorem Attribute.length_bytes (a : Attribute) : a.bytes.length = a.value.length + 4 := rfl

/-- An attribute in front is parsed and left behind. -/
theorem parseAttributes_cons (a : Attribute) (rest behind : List UInt8) (pmsg : StunMessage) :
    parseAttributes (a.bytes ++ rest ++ behind) (a.bytes ++ rest).length pmsg =
      parseAttribute a.type (a.value ++ (rest ++ behind)) a.value.length pmsg >>= fun parsed =>
        if parsed.1 then parseAttributes (rest ++ behind) rest.length parsed.2 else .ok (false,
          parsed.2) := by
  have hbytes : a.bytes ++ rest ++ behind =
      a.typeHi :: a.typeLo :: a.lenHi :: a.lenLo :: (a.value ++ (rest ++ behind)) := by
    simp [Attribute.bytes]
  have hsize : (a.bytes ++ rest).length = a.value.length + 4 + rest.length := by
    rw [List.length_append, a.length_bytes]
  have hleft : a.value.length + 4 + rest.length - 4 - a.value.length = rest.length := by omega
  rw [hbytes, hsize, parseAttributes.eq_def, if_neg (by omega)]
  simp only [← a.length_eq]
  rw [if_neg (by omega), List.drop_left, hleft]
  rfl

theorem parseAttributes_nil (behind : List UInt8) (pmsg : StunMessage) :
    parseAttributes behind 0 pmsg = .ok (true, pmsg) := by
  rw [parseAttributes.eq_def, if_pos rfl]

/-- Without a complete attribute in front, it matters how much there is behind the text. -/
theorem parseAttributes_cut {text : List UInt8} (hne : text ≠ [])
    (hcut : ∀ (a : Attribute) rest, text ≠ a.bytes ++ rest) (behind : List UInt8) (pmsg : StunMessage) :
    parseAttributes (text ++ behind) text.length pmsg =
      if text.length + behind.length < 4 then .fault else .ok (false, pmsg) := by
  have hsize : text.length ≠ 0 := mt List.length_eq_zero_iff.1 hne
  rw [parseAttributes.eq_def, if_neg hsize]
  by_cases hlong : 4 ≤ text.length
  · obtain ⟨t₁, t₀, l₁, l₀, text, rfl⟩ := exists_four hlong
    rw [if_neg (by omega : ¬(t₁ :: t₀ :: l₁ :: l₀ :: text).length + behind.length < 4)]
    refine if_pos (Decidable.by_contra fun hfits => ?_)
    have hvalue : (text.take (ntohs l₁ l₀).toNat).length = (ntohs l₁ l₀).toNat := by
      rw [List.length_take]
      simp only [List.length_cons] at hfits
      omega
    refine hcut ⟨t₁, t₀, l₁, l₀, _, hvalue⟩ (text.drop (ntohs l₁ l₀).toNat) ?_
    simp [Attribute.bytes]
  · split
    · rename_i t₁ t₀ l₁ l₀ body hbody
      have hlen := congrArg List.length hbody
      rw [List.length_append] at hlen
      simp only [List.length_cons] at hlen
      rw [if_neg (by omega : ¬text.length + behind.length < 4)]
      exact if_pos (by omega)
    · rename_i hshort
      refine (if_pos (Decidable.by_contra fun hroom => ?_)).symm
      have hfour : 4 ≤ (text ++ behind).length := by
        rw [List.length_append]
        omega
      obtain ⟨t₁, t₀, l₁, l₀, body, hbody⟩ := exists_four hfour
      exact hshort _ _ _ _ _ hbody

theorem Attribute.not_harmful {a : Attribute} (hvalid : a.valid) : ¬a.Harmful := by
  intro ⟨htype, hlen⟩
  unfold valid at hvalid
  rw [htype] at hvalid
  have hbounds : 4 ≤ a.value.length ∧ a.value.length < 260 := of_decide_eq_true hvalid
  omega

/-- **Valid attributes** in front are parsed and left behind; the last mapped address stays. -/
theorem parseAttributes_flatMap {attrs : List Attribute} (hvalid : ∀ a ∈ attrs, a.valid)
    (rest behind : List UInt8) (pmsg : StunMessage) :
    ∃ pmsg', parseAttributes (attrs.flatMap Attribute.bytes ++ rest ++ behind)
        (attrs.flatMap Attribute.bytes ++ rest).length pmsg =
          parseAttributes (rest ++ behind) rest.length pmsg' ∧
      pmsg'.msgHdr = pmsg.msgHdr ∧
      pmsg'.mapped = (attrs.filterMap Attribute.mapped).getLast?.or pmsg.mapped := by
  induction attrs generalizing pmsg with
  | nil => exact ⟨pmsg, rfl, rfl, rfl⟩
  | cons a attrs ih =>
    have ha : a.valid := hvalid a List.mem_cons_self
    obtain ⟨first, hfirst, hhdr, hmapped⟩ := parseAttribute_append a (Attribute.not_harmful ha)
      (attrs.flatMap Attribute.bytes ++ rest ++ behind) pmsg
    obtain ⟨last, hlast, hhdr', hmapped'⟩ := ih (fun b hb => hvalid b (List.mem_cons_of_mem _ hb)) first
    refine ⟨last, ?_, hhdr'.trans hhdr, ?_⟩
    · have hflat : (a :: attrs).flatMap Attribute.bytes ++ rest =
          a.bytes ++ (attrs.flatMap Attribute.bytes ++ rest) := by
        rw [List.flatMap_cons, List.append_assoc]
      rw [hflat, parseAttributes_cons, hfirst, Res.ok_bind, if_pos ha, hlast]
    · rw [hmapped', hmapped ha, List.filterMap_cons]
      cases a.mapped with
      | none => rfl
      | some address =>
        rw [List.getLast?_cons]
        cases (attrs.filterMap Attribute.mapped).getLast? <;> rfl

/-- Where the run over a text comes to its end: there is no further valid attribute. -/
theorem exists_reaches (text : List UInt8) :
    ∃ rest, Reaches text rest ∧ ∀ (a : Attribute) rest', rest = a.bytes ++ rest' → ¬a.valid := by
  induction hn : text.length using Nat.strong_induction_on generalizing text with | _ n ih
  by_cases h : ∃ a : Attribute, a.valid ∧ ∃ rest', text = a.bytes ++ rest'
  · obtain ⟨a, ha, rest', rfl⟩ := h
    have hless : rest'.length < n := by
      rw [← hn, List.length_append, a.length_bytes]
      omega
    obtain ⟨rest, ⟨attrs, hattrs, htext⟩, hstop⟩ := ih _ hless rest' rfl
    refine ⟨rest, ⟨a :: attrs, ?_, ?_⟩, hstop⟩
    · intro b hb
      rcases List.mem_cons.1 hb with rfl | hb
      · exact ha
      · exact hattrs b hb
    · rw [List.flatMap_cons, List.append_assoc, ← htext]
  · exact ⟨text, ⟨[], by simp, rfl⟩, fun a rest' htext ha => h ⟨a, ha, rest', htext⟩⟩

section
variable {rest : List UInt8}

theorem parseAttributes_harms {behind : List UInt8} (h : Harms behind.length rest) (pmsg : StunMessage) :
    parseAttributes (rest ++ behind) rest.length pmsg = .fault := by
  obtain ⟨hne, hshort | ⟨a, ha, rest', rfl⟩⟩ := h
  · have hcut : ∀ (a : Attribute) rest', rest ≠ a.bytes ++ rest' := by
      intro a rest' htext
      have hlen := congrArg List.length htext
      rw [List.length_append, a.length_bytes] at hlen
      omega
    rw [parseAttributes_cut hne hcut, if_pos hshort]
  · rw [parseAttributes_cons, parseAttribute_fault a ha, Res.fault_bind]

theorem parseAttributes_stop {behind : List UInt8} (hne : rest ≠ []) (hharm : ¬Harms behind.length rest)
    (hstop : ∀ (a : Attribute) rest', rest = a.bytes ++ rest' → ¬a.valid) (pmsg : StunMessage) :
    ∃ pmsg', parseAttributes (rest ++ behind) rest.length pmsg = .ok (false, pmsg') ∧
      pmsg'.msgHdr = pmsg.msgHdr := by
  by_cases h : ∃ a : Attribute, ∃ rest', rest = a.bytes ++ rest'
  · obtain ⟨a, rest', rfl⟩ := h
    have ha : ¬a.Harmful := fun hbad => hharm ⟨hne, .inr ⟨a, hbad, rest', rfl⟩⟩
    obtain ⟨pmsg', hparse, hhdr, _⟩ := parseAttribute_append a ha (rest' ++ behind) pmsg
    refine ⟨pmsg', ?_, hhdr⟩
    rw [parseAttributes_cons, hparse, Res.ok_bind, if_neg (hstop a rest' rfl)]
  · refine ⟨pmsg, ?_, rfl⟩
    rw [parseAttributes_cut hne fun a rest' htext => h ⟨a, rest', htext⟩]
    exact if_neg fun hshort => hharm ⟨hne, .inl hshort⟩

end

theorem Reaches.parse {text rest : List UInt8} (h : Reaches text rest) (behind : List UInt8)
    (pmsg : StunMessage) :
    ∃ pmsg', parseAttributes (text ++ behind) text.length pmsg =
      parseAttributes (rest ++ behind) rest.length pmsg' ∧
      pmsg'.msgHdr = pmsg.msgHdr := by
  obtain ⟨attrs, hvalid, rfl⟩ := h
  obtain ⟨pmsg', hparse, hhdr, _⟩ := parseAttributes_flatMap hvalid rest behind pmsg
  exact ⟨pmsg', hparse, hhdr⟩

/-- What becomes of a text: a fault on the way, or an answer with the header as it was. -/
theorem parseAttributes_outcome (text behind : List UInt8) (pmsg : StunMessage) :
    (∃ rest, Reaches text rest ∧ Harms behind.length rest) ∧
        parseAttributes (text ++ behind) text.length pmsg = .fault ∨
      (¬∃ rest, Reaches text rest ∧ Harms behind.length rest) ∧
        ∃ parsed pmsg', parseAttributes (text ++ behind) text.length pmsg = .ok (parsed, pmsg') ∧
          pmsg'.msgHdr = pmsg.msgHdr ∧ (parsed = true ↔ Reaches text []) := by
  by_cases h : ∃ rest, Reaches text rest ∧ Harms behind.length rest
  · obtain ⟨rest, hreach, hharm⟩ := h
    obtain ⟨pmsg', hparse, _⟩ := hreach.parse behind pmsg
    exact .inl ⟨⟨rest, hreach, hharm⟩, hparse.trans (parseAttributes_harms hharm pmsg')⟩
  · refine .inr ⟨h, ?_⟩
    obtain ⟨rest, hreach, hstop⟩ := exists_reaches text
    obtain ⟨pmsg', hparse, hhdr⟩ := hreach.parse behind pmsg
    by_cases hnil : rest = []
    · subst hnil
      exact ⟨true, pmsg', hparse.trans (parseAttributes_nil behind pmsg'), hhdr, by simp [hreach]⟩
    · obtain ⟨last, hlast, hhdr'⟩ :=
        parseAttributes_stop hnil (fun hharm => h ⟨rest, hreach, hharm⟩) hstop pmsg'
      refine ⟨false, last, hparse.trans hlast, hhdr'.trans hhdr, ?_⟩
      -- a complete text would have been answered with `true`
      refine iff_of_false Bool.false_ne_true fun hcomplete => ?_
      obtain ⟨full, hfull, _⟩ := hcomplete.parse behind pmsg
      have hboth := (hparse.trans hlast).symm.trans (hfull.trans (parseAttributes_nil behind full))
      cases hboth

/-! ## The message -/

/-- The type and the length that a datagram names. -/
def msgTypeOf (datagram : List UInt8) : UInt16 := ntohs (datagram.getD 0 0) (datagram.getD 1 0)

def msgLengthOf (datagram : List UInt8) : UInt16 := ntohs (datagram.getD 2 0) (datagram.getD 3 0)

/-- Parsing a datagram, with `behind` bytes of the buffer behind it, leaves an array. -/
def Trips (behind : Nat) (datagram : List UInt8) : Prop :=
  (msgLengthOf datagram).toNat + sizeofStunMsgHdr = datagram.length ∧
    ∃ rest, Reaches (datagram.drop sizeofStunMsgHdr) rest ∧ Harms behind rest

/-- The header is taken over before its length is looked at. -/
theorem stunParseMessage_eq {buf : List UInt8} {bufLen : Nat} (hbuf : sizeofStunMsgHdr ≤ buf.length)
    (hlen : sizeofStunMsgHdr ≤ bufLen) :
    ∃ pmsg, pmsg.msgHdr.msgType = msgTypeOf buf ∧ pmsg.mapped = none ∧
      pmsg.mappedAddress = .zero ∧
      stunParseMessage buf bufLen =
        if (msgLengthOf buf).toNat + sizeofStunMsgHdr ≠ bufLen then .ok (false, pmsg)
        else parseAttributes (buf.drop sizeofStunMsgHdr) (msgLengthOf buf).toNat pmsg := by
  unfold sizeofStunMsgHdr at hbuf
  obtain ⟨t₁, t₀, l₁, l₀, rest, rfl⟩ := exists_four (show 4 ≤ buf.length by omega)
  have hrest : 16 ≤ rest.length := by
    simp only [List.length_cons] at hbuf
    omega
  obtain ⟨id, hid⟩ := memcpy_ok StunMessage.zero.msgHdr.id (Nat.le_refl 16) hrest
  refine ⟨{ StunMessage.zero with msgHdr := ⟨ntohs t₁ t₀, ntohs l₁ l₀, id⟩ }, rfl, rfl, rfl, ?_⟩
  unfold stunParseMessage
  rw [if_neg (Nat.not_lt.2 hlen)]
  simp only [hid, Res.ok_bind]
  rfl

section
variable {datagram : List UInt8} (behind : List UInt8)

theorem stunParseMessage_short (h : datagram.length < sizeofStunMsgHdr) :
    stunParseMessage (datagram ++ behind) datagram.length = .ok (false, .zero) := if_pos h

/-- The header of a datagram is found within the datagram. -/
theorem stunParseMessage_append (h : sizeofStunMsgHdr ≤ datagram.length) :
    ∃ pmsg, pmsg.msgHdr.msgType = msgTypeOf datagram ∧ pmsg.mapped = none ∧
      stunParseMessage (datagram ++ behind) datagram.length =
        if (msgLengthOf datagram).toNat + sizeofStunMsgHdr ≠ datagram.length then .ok (false, pmsg)
        else parseAttributes (datagram.drop sizeofStunMsgHdr ++ behind)
          (datagram.drop sizeofStunMsgHdr).length pmsg := by
  have hbuf : sizeofStunMsgHdr ≤ (datagram ++ behind).length := by
    rw [List.length_append]
    omega
  obtain ⟨pmsg, htype, hmapped, _, hparse⟩ := stunParseMessage_eq hbuf h
  obtain ⟨htypeOf, hlengthOf⟩ : msgTypeOf (datagram ++ behind) = msgTypeOf datagram ∧
      msgLengthOf (datagram ++ behind) = msgLengthOf datagram := by
    obtain ⟨t₁, t₀, l₁, l₀, rest, rfl⟩ := exists_four (Nat.le_trans (by decide) h)
    exact ⟨rfl, rfl⟩
  refine ⟨pmsg, htype.trans htypeOf, hmapped, ?_⟩
  rw [hparse, hlengthOf, List.drop_append_of_le_length h]
  by_cases hlen : (msgLengthOf datagram).toNat + sizeofStunMsgHdr = datagram.length
  · have hsize : (datagram.drop sizeofStunMsgHdr).length = (msgLengthOf datagram).toNat := by
      rw [List.length_drop]
      omega
    rw [if_neg (not_not.2 hlen), if_neg (not_not.2 hlen), hsize]
  · rw [if_pos hlen, if_pos hlen]

/-- **What becomes of a datagram** that is long enough for a header: a fault on the way, or an answer with the
type that the datagram names. -/
theorem stunParseMessage_outcome (h : sizeofStunMsgHdr ≤ datagram.length) :
    Trips behind.length datagram ∧ stunParseMessage (datagram ++ behind) datagram.length = .fault ∨
      ¬Trips behind.length datagram ∧
        ∃ parsed pmsg, stunParseMessage (datagram ++ behind) datagram.length = .ok (parsed, pmsg) ∧
          pmsg.msgHdr.msgType = msgTypeOf datagram ∧
          (parsed = true ↔ (msgLengthOf datagram).toNat + sizeofStunMsgHdr = datagram.length ∧
            Reaches (datagram.drop sizeofStunMsgHdr) []) := by
  obtain ⟨pmsg, htype, _, hparse⟩ := stunParseMessage_append behind h
  rw [hparse]
  by_cases hlen : (msgLengthOf datagram).toNat + sizeofStunMsgHdr = datagram.length
  · rw [if_neg (not_not.2 hlen)]
    rcases parseAttributes_outcome (datagram.drop sizeofStunMsgHdr) behind pmsg with
      ⟨htrip, hfault⟩ | ⟨hsafe, parsed, pmsg', hok, hhdr, hparsed⟩
    · exact .inl ⟨⟨hlen, htrip⟩, hfault⟩
    · refine .inr ⟨fun htrip => hsafe htrip.2, parsed, pmsg', hok, ?_, ?_⟩
      · rw [hhdr, htype]
      · rw [hparsed, and_iff_right hlen]
  · rw [if_pos hlen]
    refine .inr ⟨fun htrip => hlen htrip.1, false, pmsg, rfl, htype, ?_⟩
    exact iff_of_false Bool.false_ne_true fun hcomplete => hlen hcomplete.1

theorem Message.length_bytes (m : Message) :
    m.bytes.length = (msgLengthOf m.bytes).toNat + sizeofStunMsgHdr := by
  have hlength : (msgLengthOf m.bytes).toNat = (m.attributes.flatMap Attribute.bytes).length :=
    m.length_eq.symm
  rw [hlength]
  unfold bytes sizeofStunMsgHdr
  simp only [List.length_cons, List.length_append, m.id.length_eq]
  omega

/-- A message is parsed, with the mapped address that it carries. -/
theorem stunParseMessage_message (m : Message) :
    ∃ pmsg, stunParseMessage (m.bytes ++ behind) m.bytes.length = .ok (true, pmsg) ∧
      pmsg.msgHdr.msgType = m.type ∧ pmsg.mapped = m.mappedAddress := by
  have hid : m.id.cells.length = 16 := m.id.length_eq
  have hdrop : m.bytes.drop sizeofStunMsgHdr = m.attributes.flatMap Attribute.bytes := by
    show (m.id.cells ++ m.attributes.flatMap Attribute.bytes).drop 16 = _
    rw [List.drop_left' hid]
  have hlen := m.length_bytes
  obtain ⟨pmsg, htype, hmapped, hparse⟩ := @stunParseMessage_append m.bytes behind (by omega)
  rw [hparse, if_neg (not_not.2 hlen.symm), hdrop]
  obtain ⟨last, hlast, hhdr, hmapped'⟩ := parseAttributes_flatMap m.valid [] behind pmsg
  rw [List.append_nil, List.nil_append] at hlast
  refine ⟨last, hlast.trans (parseAttributes_nil behind last), ?_, ?_⟩
  · rw [hhdr, htype]
    rfl
  · rw [hmapped', hmapped]
    exact Option.or_none

/-- The attributes of a datagram and its header make a message. -/
theorem exists_message (h : sizeofStunMsgHdr ≤ datagram.length)
    (hlen : (msgLengthOf datagram).toNat + sizeofStunMsgHdr = datagram.length)
    (hreach : Reaches (datagram.drop sizeofStunMsgHdr) []) : ∃ m : Message, datagram = m.bytes := by
  unfold sizeofStunMsgHdr at h
  obtain ⟨attrs, hvalid, htext⟩ := hreach
  obtain ⟨t₁, t₀, l₁, l₀, rest, rfl⟩ := exists_four (show 4 ≤ datagram.length by omega)
  have hattrs : rest.drop 16 = attrs.flatMap Attribute.bytes := htext.trans (List.append_nil _)
  simp only [List.length_cons] at h hlen
  have hid : (rest.take 16).length = 16 := by
    rw [List.length_take]
    omega
  have hlength : (attrs.flatMap Attribute.bytes).length = (ntohs l₁ l₀).toNat := by
    have hcount : (ntohs l₁ l₀).toNat + 20 = rest.length + 4 := hlen
    rw [← hattrs, List.length_drop]
    omega
  refine ⟨⟨t₁, t₀, l₁, l₀, ⟨rest.take 16, hid⟩, attrs, hvalid, hlength⟩, ?_⟩
  unfold Message.bytes
  rw [← hattrs, List.take_append_drop]

/-- **Only messages** are accepted, and all of them. -/
theorem stunParseMessage_true_iff :
    (∃ pmsg, stunParseMessage (datagram ++ behind) datagram.length = .ok (true, pmsg)) ↔
      ∃ m : Message, datagram = m.bytes := by
  refine ⟨fun ⟨pmsg, hparse⟩ => ?_, ?_⟩
  · by_cases h : datagram.length < sizeofStunMsgHdr
    · rw [stunParseMessage_short behind h] at hparse
      cases hparse
    · rcases stunParseMessage_outcome behind (Nat.not_lt.1 h) with ⟨_, hfault⟩ |
        ⟨_, parsed, _, hok, _, hparsed⟩
      · rw [hfault] at hparse
        cases hparse
      · rw [hok] at hparse
        cases hparse
        obtain ⟨hlen, hreach⟩ := hparsed.1 rfl
        exact exists_message (Nat.not_lt.1 h) hlen hreach
  · intro ⟨m, hbytes⟩
    obtain ⟨pmsg, hparse, _⟩ := stunParseMessage_message behind m
    exact ⟨pmsg, hbytes ▸ hparse⟩

end

end Utils.Stun
