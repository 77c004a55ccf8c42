import GoipRemote.Lib.Res

/-!
# Parsing a STUN message (`stun.c`)

A pointer into the buffer of a message is the list of the bytes from there to the end of the buffer, so that
a read behind the end is a fault. An array of a `struct` has its length in its type (`Cells`), and a store
behind it is a fault. What is printed in the verbose mode is left out.
-/

namespace Utils.Stun

/-! ## The data -/

variable {α : Type} {n : Nat}

/-- An array of `n` cells. -/
structure Cells (α : Type) (n : Nat) where
  cells : List α
  length_eq : cells.length = n

def Cells.zero : Cells UInt8 n := ⟨List.replicate n 0, List.length_replicate⟩

/-- `memcpy(dst, src, len)`, in cells. -/
def memcpy (dst : Cells α n) (src : List α) (len : Nat) : Res (Cells α n) :=
  if h : len ≤ n ∧ len ≤ src.length then
    .ok ⟨src.take len ++ dst.cells.drop len, by
      rw [List.length_append, List.length_take, List.length_drop, dst.length_eq]
      omega⟩
  else .fault

/-- `dst[i] = a`. -/
def Cells.set (dst : Cells α n) (i : Nat) (a : α) : Res (Cells α n) :=
  if i < n then .ok ⟨dst.cells.set i a, by rw [List.length_set, dst.length_eq]⟩ else .fault

abbrev STUN_MAX_STRING : Nat := 256

abbrev STUN_MAX_UNKNOWN_ATTRIBUTES : Nat := 8

abbrev STUN_MAX_MESSAGE_SIZE : Nat := 2048

def IPv4Family : UInt8 := 0x01

def BindResponseMsg : UInt16 := 0x0101

structure StunMsgHdr where
  msgType : UInt16
  msgLength : UInt16
  id : Cells UInt8 16

def sizeofStunMsgHdr : Nat := 20

structure StunAddress4 where
  port : UInt16
  addr : UInt32
  deriving DecidableEq

structure StunAtrAddress4 where
  pad : UInt8
  family : UInt8
  ipv4 : StunAddress4

structure StunAtrChangeRequest where
  value : UInt32

structure StunAtrError where
  pad : UInt16
  errorClass : UInt8
  number : UInt8
  reason : Cells UInt8 STUN_MAX_STRING
  sizeReason : UInt16

def sizeofStunAtrError : Nat := 262

structure StunAtrUnknown where
  attrType : Cells UInt16 STUN_MAX_UNKNOWN_ATTRIBUTES
  numAttributes : UInt16

def sizeofStunAtrUnknown : Nat := 18

structure StunAtrString where
  value : Cells UInt8 STUN_MAX_STRING
  sizeValue : UInt16

structure StunAtrIntegrity where
  hash : Cells UInt8 20

structure StunMessage where
  msgHdr : StunMsgHdr
  hasMappedAddress : Bool
  mappedAddress : StunAtrAddress4
  hasResponseAddress : Bool
  responseAddress : StunAtrAddress4
  hasChangeRequest : Bool
  changeRequest : StunAtrChangeRequest
  hasSourceAddress : Bool
  sourceAddress : StunAtrAddress4
  hasChangedAddress : Bool
  changedAddress : StunAtrAddress4
  hasUsername : Bool
  username : StunAtrString
  hasPassword : Bool
  password : StunAtrString
  hasMessageIntegrity : Bool
  messageIntegrity : StunAtrIntegrity
  hasErrorCode : Bool
  errorCode : StunAtrError
  hasUnknownAttributes : Bool
  unknownAttributes : StunAtrUnknown
  hasReflectedFrom : Bool
  reflectedFrom : StunAtrAddress4

def StunAtrAddress4.zero : StunAtrAddress4 := ⟨0, 0, ⟨0, 0⟩⟩

def StunAtrString.zero : StunAtrString := ⟨.zero, 0⟩

/-- What `memset(pmsg, 0, sizeof(StunMessage))` leaves. -/
def StunMessage.zero : StunMessage where
  msgHdr := ⟨0, 0, .zero⟩
  hasMappedAddress := false
  mappedAddress := .zero
  hasResponseAddress := false
  responseAddress := .zero
  hasChangeRequest := false
  changeRequest := ⟨0⟩
  hasSourceAddress := false
  sourceAddress := .zero
  hasChangedAddress := false
  changedAddress := .zero
  hasUsername := false
  username := .zero
  hasPassword := false
  password := .zero
  hasMessageIntegrity := false
  messageIntegrity := ⟨.zero⟩
  hasErrorCode := false
  errorCode := ⟨0, 0, 0, .zero, 0⟩
  hasUnknownAttributes := false
  unknownAttributes := ⟨⟨List.replicate _ 0, List.length_replicate⟩, 0⟩
  hasReflectedFrom := false
  reflectedFrom := .zero

/-- `ntohs` of the two bytes at a pointer. -/
def ntohs (hi lo : UInt8) : UInt16 := .ofNat (256 * hi.toNat + lo.toNat)

/-- `ntohl` of the four bytes at a pointer. -/
def ntohl (a b c d : UInt8) : UInt32 := .ofNat (256 * (256 * (256 * a.toNat + b.toNat) + c.toNat) + d.toNat)

/-! ## Attributes

A function answers whether the attribute could be parsed, and what it has written until then. -/

/-- `stunParseAtrAddress`. -/
def stunParseAtrAddress (body : List UInt8) (hdrLen : Nat) (result : StunAtrAddress4) :
    Res (Bool × StunAtrAddress4) :=
  if hdrLen ≠ 8 then .ok (false, result)
  else
    match body with
    | pad :: family :: body =>
      let result := { result with pad, family }
      if family = IPv4Family then
        match body with
        | p₁ :: p₀ :: a₃ :: a₂ :: a₁ :: a₀ :: _ =>
          .ok (true, { result with ipv4 := ⟨ntohs p₁ p₀, ntohl a₃ a₂ a₁ a₀⟩ })
        | _ => .fault
      else .ok (false, result)
    | _ => .fault

/-- `stunParseAtrChangeRequest`. -/
def stunParseAtrChangeRequest (body : List UInt8) (hdrLen : Nat) (result : StunAtrChangeRequest) :
    Res (Bool × StunAtrChangeRequest) :=
  if hdrLen ≠ 4 then .ok (false, result)
  else
    match body with
    | v₃ :: v₂ :: v₁ :: v₀ :: _ => .ok (true, ⟨ntohl v₃ v₂ v₁ v₀⟩)
    | _ => .fault

/-- `stunParseAtrError`. -/
def stunParseAtrError (body : List UInt8) (hdrLen : Nat) (result : StunAtrError) :
    Res (Bool × StunAtrError) :=
  if hdrLen ≥ sizeofStunAtrError then .ok (false, result)
  else
    match body with
    | p₁ :: p₀ :: errorClass :: number :: body => do
      -- unsigned arithmetic, which wraps for a length below 4
      let sizeReason : UInt16 := .ofNat hdrLen - 4
      let reason ← memcpy result.reason body sizeReason.toNat
      let reason ← reason.set sizeReason.toNat 0
      return (true, ⟨ntohs p₁ p₀, errorClass, number, reason, sizeReason⟩)
    | _ => .fault

/-- The loop of `stunParseAtrUnknown` over the types that are left. -/
def unknownTypes : Nat → List UInt8 → Res (List UInt16)
  | 0, _ => .ok []
  | left + 1, hi :: lo :: body => do
    let types ← unknownTypes left body
    return ntohs hi lo :: types
  | _, _ => .fault

/-- `stunParseAtrUnknown`. -/
def stunParseAtrUnknown (body : List UInt8) (hdrLen : Nat) (result : StunAtrUnknown) :
    Res (Bool × StunAtrUnknown) :=
  if hdrLen ≥ sizeofStunAtrUnknown then .ok (false, result)
  else if hdrLen % 4 ≠ 0 then .ok (false, result)
  else do
    let types ← unknownTypes (hdrLen / 4) body
    let attrType ← memcpy result.attrType types types.length
    return (true, ⟨attrType, .ofNat (hdrLen / 4)⟩)

/-- `stunParseAtrString`. -/
def stunParseAtrString (body : List UInt8) (hdrLen : Nat) (result : StunAtrString) :
    Res (Bool × StunAtrString) :=
  if hdrLen ≥ STUN_MAX_STRING then .ok (false, result)
  else if hdrLen % 4 ≠ 0 then .ok (false, result)
  else do
    let value ← memcpy result.value body hdrLen
    let value ← value.set hdrLen 0
    return (true, ⟨value, .ofNat hdrLen⟩)

/-- `stunParseAtrIntegrity`. -/
def stunParseAtrIntegrity (body : List UInt8) (hdrLen : Nat) (result : StunAtrIntegrity) :
    Res (Bool × StunAtrIntegrity) :=
  if hdrLen ≠ 20 then .ok (false, result)
  else do
    let hash ← memcpy result.hash body hdrLen
    return (true, ⟨hash⟩)

/-! ## The message -/

/-- The `switch` of `stunParseMessage`: the flag of the attribute is set before it is parsed. -/
def parseAttribute (atrType : UInt16) (body : List UInt8) (attrLen : Nat) (pmsg : StunMessage) :
    Res (Bool × StunMessage) :=
  match atrType.toNat with
  | 1 => do
    let (parsed, a) ← stunParseAtrAddress body attrLen pmsg.mappedAddress
    return (parsed, { pmsg with hasMappedAddress := true, mappedAddress := a })
  | 2 => do
    let (parsed, a) ← stunParseAtrAddress body attrLen pmsg.responseAddress
    return (parsed, { pmsg with hasResponseAddress := true, responseAddress := a })
  | 3 => do
    let (parsed, a) ← stunParseAtrChangeRequest body attrLen pmsg.changeRequest
    return (parsed, { pmsg with hasChangeRequest := true, changeRequest := a })
  | 4 => do
    let (parsed, a) ← stunParseAtrAddress body attrLen pmsg.sourceAddress
    return (parsed, { pmsg with hasSourceAddress := true, sourceAddress := a })
  | 5 => do
    let (parsed, a) ← stunParseAtrAddress body attrLen pmsg.changedAddress
    return (parsed, { pmsg with hasChangedAddress := true, changedAddress := a })
  | 6 => do
    let (parsed, a) ← stunParseAtrString body attrLen pmsg.username
    return (parsed, { pmsg with hasUsername := true, username := a })
  | 7 => do
    let (parsed, a) ← stunParseAtrString body attrLen pmsg.password
    return (parsed, { pmsg with hasPassword := true, password := a })
  | 8 => do
    let (parsed, a) ← stunParseAtrIntegrity body attrLen pmsg.messageIntegrity
    return (parsed, { pmsg with hasMessageIntegrity := true, messageIntegrity := a })
  | 9 => do
    let (parsed, a) ← stunParseAtrError body attrLen pmsg.errorCode
    return (parsed, { pmsg with hasErrorCode := true, errorCode := a })
  | 10 => do
    let (parsed, a) ← stunParseAtrUnknown body attrLen pmsg.unknownAttributes
    return (parsed, { pmsg with hasUnknownAttributes := true, unknownAttributes := a })
  | 11 => do
    let (parsed, a) ← stunParseAtrAddress body attrLen pmsg.reflectedFrom
    return (parsed, { pmsg with hasReflectedFrom := true, reflectedFrom := a })
  | _ => return (decide (0x7FFF < atrType), pmsg)

/-- The loop of `stunParseMessage`. -/
def parseAttributes (body : List UInt8) (size : Nat) (pmsg : StunMessage) : Res (Bool × StunMessage) :=
  if size = 0 then .ok (true, pmsg)
  else
    match body with
    | t₁ :: t₀ :: l₁ :: l₀ :: body =>
      -- the header of an attribute is read before `size` is looked at
      let attrLen := (ntohs l₁ l₀).toNat
      if attrLen + 4 > size then .ok (false, pmsg)
      else do
        let (parsed, pmsg) ← parseAttribute (ntohs t₁ t₀) body attrLen pmsg
        if parsed then parseAttributes (body.drop attrLen) (size - 4 - attrLen) pmsg
        else return (false, pmsg)
    | _ => .fault
termination_by size

/-- `stunParseMessage`. -/
def stunParseMessage (buf : List UInt8) (bufLen : Nat) : Res (Bool × StunMessage) :=
  if sizeofStunMsgHdr > bufLen then .ok (false, .zero)
  else
    match buf with
    | t₁ :: t₀ :: l₁ :: l₀ :: rest => do
      let id ← memcpy StunMessage.zero.msgHdr.id rest 16
      let pmsg := { StunMessage.zero with msgHdr := ⟨ntohs t₁ t₀, ntohs l₁ l₀, id⟩ }
      let msgLength := pmsg.msgHdr.msgLength.toNat
      if msgLength + sizeofStunMsgHdr ≠ bufLen then return (false, pmsg)
      else parseAttributes (rest.drop 16) msgLength pmsg
    | _ => .fault

end Utils.Stun
