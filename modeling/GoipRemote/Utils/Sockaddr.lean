import GoipRemote.Lib.Buffer
import GoipRemote.Lib.Strtol

/-!
# Socket addresses as text (`sockaddr.c`)

A socket address is the list of its bytes in memory, the family in the order of a little-endian host.
`sock_aton` parses into a `sockaddr_storage` on the stack, of which it writes the family, the port and the
address alone, and asks for `errno` without having cleared it. `sockAton_sockNtopHost_iff` says for which
stacks and values of `errno` an address that was printed is read back as one that compares equal.
-/

namespace Utils

open Buffer Strtol CString

namespace Sockaddr

def AF_UNIX : Nat := 1

def AF_INET : Nat := 2

def ERANGE : Int := 34

/-- `sizeof(struct sockaddr_in)`, and of a `struct sockaddr`. -/
def sizeofSockaddrIn : Nat := 16

def sizeofSockaddrUn : Nat := 110

def sizeofSockaddrStorage : Nat := 128

/-- `sa->sa_family`. -/
def saFamily (sa : List UInt8) : Res Nat := do
  let lo ← load sa 0
  let hi ← load sa 1
  return lo.toNat + 256 * hi.toNat

/-- `ntohs(sin->sin_port)`. -/
def sinPort (sa : List UInt8) : Res Nat := do
  let hi ← load sa 2
  let lo ← load sa 3
  return 256 * hi.toNat + lo.toNat

/-- `socklen`. -/
def socklen (sa : List UInt8) : Res Nat := do
  let family ← saFamily sa
  return if family = AF_INET then sizeofSockaddrIn else if family = AF_UNIX then sizeofSockaddrUn else 16

/-- `memcmp`. -/
def memcmp (a b : List UInt8) (n : Nat) : Res Int := do
  let as ← loadAll a 0 n
  let bs ← loadAll b 0 n
  return compareBytes as bs

/-- `sockcmp`. -/
def sockcmp (addr1 addr2 : List UInt8) : Res Int := do
  let family1 ← saFamily addr1
  let family2 ← saFamily addr2
  if family1 ≠ family2 then return -1
  else do
    let n ← socklen addr1
    memcmp addr1 addr2 n

/-- The bytes of `inet_ntop(AF_INET, ..)`. -/
def dotted (ip : List UInt8) : List UInt8 :=
  (bytesOf ".").intercalate (ip.map fun b => decimal b.toNat)

/-- `sock_ntop_host`; `str` has room for the longest text, and `portstr` for six bytes of a port. -/
def sockNtopHost (sa : List UInt8) : Res (Option (List UInt8)) := do
  let family ← saFamily sa
  if family = AF_INET then do
    let ip ← loadAll sa 4 4
    let port ← sinPort sa
    return some (if port ≠ 0 then dotted ip ++ (bytesOf ":" ++ decimal port).take 6 else dotted ip)
  else return none

/-- One number of `parse_ipv4_addr`: its value and what is behind it. `errno` is the value before the
call, which `strtol` changes on an overflow alone. -/
def parseNumber (errno : Int) (str : List UInt8) : Option (Int × List UInt8) :=
  let p := strtol 10 str
  if p.rest = str ∨ p.erange ∨ errno = ERANGE then none else some (p.value, p.rest)

/-- The loop of `parse_ipv4_addr`: the octets that are left, and the text at `ep`. A pointer one behind the
terminator is not read, as `*ep` is tested first: the tail of the empty text stands for it. -/
def parseOctets (errno : Int) : Nat → List UInt8 → Option (List UInt8 × List UInt8)
  | 0, _ => none
  | left + 1, str => do
    let (n, ep) ← parseNumber errno str
    if (0 < left ∧ ep.head? ≠ some 46) ∨ n < 0 ∨ 255 < n then none
    else if left = 0 then some ([.ofInt n], ep)
    else do
      let (ip, ep) ← parseOctets errno left ep.tail
      return (.ofInt n :: ip, ep)

/-- The port behind the octets. -/
def parsePort (errno : Int) (ep : List UInt8) : Option UInt16 :=
  if ep.head? = some 58 then do
    let (n, _) ← parseNumber errno ep.tail
    if n < 0 ∨ 65535 < n then none else some (.ofInt n)
  else some 0

/-- What `parse_ipv4_addr` finds in the text. -/
def parseText (errno : Int) (str : List UInt8) : Option (List UInt8 × UInt16) := do
  let str := if str.head?.any isspace then str.tail else str
  let (ip, ep) ← parseOctets errno 4 str
  let port ← parsePort errno ep
  return (ip, port)

/-- The bytes of `htons(port)`. -/
def portBytes (port : UInt16) : List UInt8 := [.ofNat (port.toNat / 256), .ofNat port.toNat]

/-- `parse_ipv4_addr`, into the memory at `sin`; `none` is the result `-1`. -/
def parseIpv4Addr (errno : Int) (str sin : List UInt8) : Res (Option (List UInt8)) :=
  match parseText errno str with
  | none => return none
  | some (ip, port) => do
    let sin ← storeAll sin 0 [.ofNat AF_INET, 0]
    let sin ← storeAll sin 4 ip
    let sin ← storeAll sin 2 (portBytes port)
    return some sin

/-- `sock_aton`, with the value of `errno` and the contents of the local variable before the call. -/
def sockAton (errno : Int) (addr : List UInt8) (s sa : List UInt8) (salen : Nat) :
    Res (Int × List UInt8) := do
  let parsed ← parseIpv4Addr errno s addr
  match parsed with
  | none => return (-1, sa)
  | some addr =>
    if salen < sizeofSockaddrIn then return (-1, sa)
    else do
      let copy ← loadAll addr 0 sizeofSockaddrIn
      let sa ← storeAll sa 0 copy
      return (0, sa)

/-- An address of the family `AF_INET` whose padding is zero. -/
structure IsSockaddrIn (sa : List UInt8) : Prop where
  length : sa.length = sizeofSockaddrIn
  family : saFamily sa = .ok AF_INET
  padding : ∀ b ∈ sa.drop 8, b = 0

/-- The padding of the local variable of `sock_aton` happens to be zero. -/
def PaddingZero (stack : List UInt8) : Prop := ∀ b ∈ (stack.take sizeofSockaddrIn).drop 8, b = 0

instance : DecidablePred PaddingZero := fun _ => inferInstanceAs (Decidable (∀ _ ∈ _, _))

/-! ## What is printed is parsed -/

variable {errno : Int}

theorem parseNumber_decimal {n : Nat} (hn : n < 2 ^ 63) {rest : List UInt8}
    (hrest : isNumber 10 rest = false) :
    parseNumber errno (decimal n ++ rest) = if errno = ERANGE then none else some ((n : Int), rest) := by
  have hne : rest ≠ decimal n ++ rest := by
    intro h
    have hlen := congrArg List.length h
    rw [List.length_append] at hlen
    exact decimal_ne_nil n (List.length_eq_zero_iff.1 (by omega))
  unfold parseNumber
  simp only [strtol_decimal hn hrest, hne, Bool.false_eq_true, false_or]

/-- After an overflow that nobody has cleared, no number is parsed. -/
theorem parseNumber_erange (str : List UInt8) : parseNumber ERANGE str = none := by
  simp [parseNumber]

theorem parseText_erange (str : List UInt8) : parseText ERANGE str = none := by
  have hoctets : ∀ s, parseOctets ERANGE (3 + 1) s = none := by
    intro s
    rw [parseOctets, parseNumber_erange]
    rfl
  unfold parseText
  simp only [hoctets]
  rfl

theorem sockAton_erange (addr s sa : List UInt8) (salen : Nat) :
    sockAton ERANGE addr s sa salen = .ok (-1, sa) := by
  unfold sockAton parseIpv4Addr
  rw [parseText_erange]
  rfl

theorem ofInt_toNat (b : UInt8) : UInt8.ofInt (b.toNat : Int) = b := by
  have hb := b.toNat_lt
  have hmod : (b.toNat : Int) % 2 ^ 8 = b.toNat := by omega
  rw [UInt8.ofInt, hmod, Int.toNat_natCast, UInt8.ofNat_toNat]

/-- An octet before a dot. -/
theorem parseOctets_cons (h : errno ≠ ERANGE) (b : UInt8) (left : Nat) (str : List UInt8) :
    parseOctets errno (left + 2) (decimal b.toNat ++ 46 :: str) =
      (parseOctets errno (left + 1) str).map fun q => (b :: q.1, q.2) := by
  have hb := b.toNat_lt
  rw [parseOctets, parseNumber_decimal (by omega) (by rfl), if_neg h]
  have hrange : ¬((0 < left + 1 ∧ (46 :: str).head? ≠ some 46) ∨ (b.toNat : Int) < 0 ∨
    255 < (b.toNat : Int)) := by
    simp
    omega
  simp only [Option.bind_eq_bind, Option.bind_some, if_neg hrange, Nat.succ_ne_zero, if_false, List.tail_cons,
    ofInt_toNat]
  cases parseOctets errno (left + 1) str <;> rfl

/-- The last octet. -/
theorem parseOctets_last (h : errno ≠ ERANGE) (b : UInt8) {ep : List UInt8} (hep : isNumber 10 ep = false) :
    parseOctets errno 1 (decimal b.toNat ++ ep) = some ([b], ep) := by
  have hb := b.toNat_lt
  rw [parseOctets, parseNumber_decimal (by omega) hep, if_neg h]
  have hrange : ¬((0 < 0 ∧ ep.head? ≠ some 46) ∨ (b.toNat : Int) < 0 ∨ 255 < (b.toNat : Int)) := by
    simp
    omega
  simp only [Option.bind_eq_bind, Option.bind_some, if_neg hrange, if_true, ofInt_toNat]

/-- The octets of a dotted quad. -/
theorem parseOctets_dotted (h : errno ≠ ERANGE) (a b c d : UInt8) {ep : List UInt8}
    (hep : isNumber 10 ep = false) :
    parseOctets errno 4 (dotted [a, b, c, d] ++ ep) = some ([a, b, c, d], ep) := by
  have hdot : bytesOf "." = [46] := rfl
  have htext : dotted [a, b, c, d] ++ ep = decimal a.toNat ++ 46 :: (decimal b.toNat ++ 46 ::
      (decimal c.toNat ++ 46 :: (decimal d.toNat ++ ep))) := by
    simp [dotted, hdot, List.intercalate]
  rw [htext, parseOctets_cons h, parseOctets_cons h, parseOctets_cons h, parseOctets_last h d hep]
  rfl

/-- The text behind the octets: nothing for the port `0`. -/
def portText (port : Nat) : List UInt8 := if port ≠ 0 then 58 :: decimal port else []

theorem isNumber_portText (port : Nat) : isNumber 10 (portText port) = false := by
  unfold portText
  split <;> rfl

theorem parsePort_portText (h : errno ≠ ERANGE) (port : UInt16) :
    parsePort errno (portText port.toNat) = some port := by
  have hlt := port.toNat_lt
  unfold portText parsePort
  by_cases hport : port.toNat = 0
  · have hzero : port = 0 := UInt16.toNat_inj.1 hport
    subst hzero
    rfl
  · have hnumber := @parseNumber_decimal errno port.toNat (by omega) [] (by rfl)
    have hrange : ¬((port.toNat : Int) < 0 ∨ 65535 < (port.toNat : Int)) := by omega
    rw [List.append_nil, if_neg h] at hnumber
    have hmod : (port.toNat : Int) % 2 ^ 16 = port.toNat := by omega
    have hback : UInt16.ofInt port.toNat = port := by
      rw [UInt16.ofInt, hmod, Int.toNat_natCast, UInt16.ofNat_toNat]
    simp only [hport, ne_eq, not_false_eq_true, if_true, List.head?_cons, List.tail_cons, hnumber,
      Option.bind_eq_bind, Option.bind_some, if_neg hrange, hback]

/-- The text of an address, as it is parsed. -/
theorem parseText_printed (h : errno ≠ ERANGE) (a b c d : UInt8) (port : UInt16) :
    parseText errno (dotted [a, b, c, d] ++ portText port.toNat) = some ([a, b, c, d], port) := by
  obtain ⟨digit, t, ht, hdigit⟩ := decimal_cons a.toNat
  have hspace := (digitByte_facts hdigit).1
  have hhead : (dotted [a, b, c, d] ++ portText port.toNat).head? = some (digitByte digit) := by
    simp [dotted, List.intercalate, ht]
  unfold parseText
  simp [hhead, hspace, parseOctets_dotted h a b c d (isNumber_portText port.toNat), parsePort_portText h]

/-! ## The round trip -/

/-- An address in memory. -/
def image (port : UInt16) (ip padding : List UInt8) : List UInt8 :=
  [2, 0] ++ portBytes port ++ ip ++ padding

theorem IsSockaddrIn.eq {sa : List UInt8} (h : IsSockaddrIn sa) :
    ∃ port a b c d, sa = image port [a, b, c, d] (List.replicate 8 0) := by
  obtain ⟨hlen, hfamily, hpadding⟩ := h
  have hzero : sa.drop 8 = List.replicate 8 0 :=
    List.eq_replicate_iff.2 ⟨by rw [List.length_drop, hlen]; rfl, hpadding⟩
  obtain ⟨front, hfront, hfront8⟩ : ∃ front, sa = front ++ List.replicate 8 0 ∧ front.length = 8 :=
    ⟨sa.take 8, by rw [← hzero, List.take_append_drop], by rw [List.length_take, hlen]; rfl⟩
  obtain ⟨f0, f1, p0, p1, a, b, c, d, rfl⟩ : ∃ f0 f1 p0 p1 a b c d, front = [f0, f1, p0, p1, a, b, c, d] := by
    match front, hfront8 with
    | [f0, f1, p0, p1, a, b, c, d], _ => exact ⟨f0, f1, p0, p1, a, b, c, d, rfl⟩
  have hbytes : f0 = 2 ∧ f1 = 0 := by
    rw [hfront] at hfamily
    have hsum : f0.toNat + 256 * f1.toNat = 2 := by simpa [saFamily, load, AF_INET] using hfamily
    have h0 := f0.toNat_lt
    exact ⟨UInt8.toNat_inj.1 (show f0.toNat = 2 by omega), UInt8.toNat_inj.1 (show f1.toNat = 0 by omega)⟩
  have hp0 := p0.toNat_lt
  have hp1 := p1.toNat_lt
  refine ⟨.ofNat (256 * p0.toNat + p1.toNat), a, b, c, d, ?_⟩
  have hport : portBytes (.ofNat (256 * p0.toNat + p1.toNat)) = [p0, p1] := by
    have hnat : (UInt16.ofNat (256 * p0.toNat + p1.toNat)).toNat = 256 * p0.toNat + p1.toNat := by
      rw [UInt16.toNat_ofNat']
      omega
    have hhi : (256 * p0.toNat + p1.toNat) / 256 = p0.toNat := by omega
    unfold portBytes
    rw [hnat, hhi]
    simp
  rw [hfront, hbytes.1, hbytes.2, image, hport]
  rfl

theorem sockNtopHost_image (port : UInt16) (a b c d : UInt8) (padding : List UInt8) :
    sockNtopHost (image port [a, b, c, d] padding) =
      .ok (some (dotted [a, b, c, d] ++ portText port.toNat)) := by
  have hlt := port.toNat_lt
  have hfamily : saFamily (image port [a, b, c, d] padding) = .ok AF_INET := rfl
  have hip : loadAll (image port [a, b, c, d] padding) 4 4 = .ok [a, b, c, d] := rfl
  have hport : sinPort (image port [a, b, c, d] padding) = .ok port.toNat := by
    have hsum : 256 * (UInt8.ofNat (port.toNat / 256)).toNat + (UInt8.ofNat port.toNat).toNat =
      port.toNat := by
      simp only [UInt8.toNat_ofNat']
      omega
    show Res.ok (256 * (UInt8.ofNat (port.toNat / 256)).toNat + (UInt8.ofNat port.toNat).toNat) = _
    rw [hsum]
  have htake : (bytesOf ":" ++ decimal port.toNat).take 6 = 58 :: decimal port.toNat := by
    have hlen := @length_decimal_le port.toNat 5 (by omega) (by omega)
    exact List.take_of_length_le (by simp [bytesOf]; omega)
  unfold sockNtopHost
  rw [hfamily, Res.ok_bind, if_pos rfl, hip, Res.ok_bind, hport, Res.ok_bind, htake]
  unfold portText
  split <;> simp

theorem compareBytes_eq_zero {as bs : List UInt8} (h : as.length = bs.length) :
    compareBytes as bs = 0 ↔ as = bs := by
  induction as generalizing bs with
  | nil =>
    cases bs with
    | nil => simp [compareBytes]
    | cons b bs => cases h
  | cons a as ih =>
    cases bs with
    | nil => cases h
    | cons b bs =>
      rw [compareBytes]
      split
      · rename_i hab
        simp [hab, ih (Nat.succ.inj h)]
      · rename_i hab
        have hne : a.toNat ≠ b.toNat := fun heq => hab (UInt8.toNat_inj.1 heq)
        simp only [List.cons.injEq, hab, false_and, iff_false]
        omega

/-- Addresses that differ in their padding are different. -/
theorem sockcmp_image (port : UInt16) {ip padding padding' : List UInt8} (hip : ip.length = 4)
    (hp : padding.length = 8) (hp' : padding'.length = 8) (behind behind' : List UInt8) :
    ∃ n, sockcmp (image port ip padding ++ behind) (image port ip padding' ++ behind') = .ok n ∧
      (n = 0 ↔ padding = padding') := by
  have hload : ∀ p q : List UInt8, p.length = 8 →
      loadAll (image port ip p ++ q) 0 16 = .ok (image port ip p) := by
    intro p q hlen
    have h := @loadAll_eq UInt8 [] q (image port ip p)
    have h16 : (image port ip p).length = 16 := by simp [image, portBytes, hip, hlen]
    rwa [h16] at h
  have hfamily : ∀ p q : List UInt8, saFamily (image port ip p ++ q) = .ok AF_INET := fun _ _ => rfl
  refine ⟨compareBytes (image port ip padding) (image port ip padding'), ?_, ?_⟩
  · unfold sockcmp socklen memcmp
    simp only [hfamily, Res.ok_bind, ne_eq, not_true_eq_false, if_false, if_true, Res.pure_eq,
      sizeofSockaddrIn,
      hload padding behind hp, hload padding' behind' hp']
  · rw [compareBytes_eq_zero (by simp [image, hp, hp'])]
    exact List.append_right_inj _

/-- What is left in memory: the padding of the local variable. -/
theorem parseIpv4Addr_printed (h : errno ≠ ERANGE) (a b c d : UInt8) (port : UInt16)
    {front padding behind : List UInt8}
    (hfront : front.length = 8) :
    parseIpv4Addr errno (dotted [a, b, c, d] ++ portText port.toNat) (front ++ padding ++ behind) =
      .ok (some (image port [a, b, c, d] padding ++ behind)) := by
  obtain ⟨f0, f1, f2, f3, f4, f5, f6, f7, rfl⟩ :
      ∃ f0 f1 f2 f3 f4 f5 f6 f7, front = [f0, f1, f2, f3, f4, f5, f6, f7] := by
    match front, hfront with
    | [f0, f1, f2, f3, f4, f5, f6, f7], _ => exact ⟨f0, f1, f2, f3, f4, f5, f6, f7, rfl⟩
  unfold parseIpv4Addr
  rw [parseText_printed h]
  simp [storeAll, store, portBytes, image, AF_INET]

/-- The address that is copied has the padding of the local variable. -/
theorem sockAton_printed (h : errno ≠ ERANGE) (a b c d : UInt8) (port : UInt16) {front padding : List UInt8}
    (hfront : front.length = 8) (hpadding : padding.length = 8) (behind : List UInt8) {dest : List UInt8}
    {salen : Nat} (hdest : salen ≤ dest.length) :
    sockAton errno (front ++ padding ++ behind) (dotted [a, b, c, d] ++ portText port.toNat) dest salen =
      if salen < sizeofSockaddrIn then .ok (-1, dest)
      else .ok (0, image port [a, b, c, d] padding ++ dest.drop sizeofSockaddrIn) := by
  have h16 : (image port [a, b, c, d] padding).length = sizeofSockaddrIn := by
    simp [image, portBytes, hpadding, sizeofSockaddrIn]
  have hcopy := @loadAll_eq UInt8 [] behind (image port [a, b, c, d] padding)
  rw [h16] at hcopy
  unfold sockAton
  rw [parseIpv4Addr_printed h a b c d port hfront, Res.ok_bind]
  by_cases hroom : salen < sizeofSockaddrIn
  · simp only [if_pos hroom, Res.pure_eq]
  · have hstore := @storeAll_ok UInt8 [] dest (image port [a, b, c, d] padding) (by omega)
    simp only [List.nil_append, List.length_nil] at hcopy hstore
    simp only [if_neg hroom, hcopy, hstore, Res.ok_bind, Res.pure_eq, h16]

/-- An address that was printed is read back as one that compares equal, if and only if `errno` is not a
left over `ERANGE`, the caller has room for the address, and the stack has zeros in the place of the
padding. -/
theorem sockAton_sockNtopHost_iff {sa : List UInt8} (hsa : IsSockaddrIn sa) (errno : Int) {stack : List UInt8}
    (hstack : stack.length = sizeofSockaddrStorage) {dest : List UInt8} {salen : Nat}
    (hdest : salen ≤ dest.length) :
    (∃ s copy, sockNtopHost sa = .ok (some s) ∧ sockAton errno stack s dest salen = .ok (0, copy) ∧
      sockcmp copy sa = .ok 0) ↔ errno ≠ ERANGE ∧ sizeofSockaddrIn ≤ salen ∧ PaddingZero stack := by
  obtain ⟨port, a, b, c, d, rfl⟩ := hsa.eq
  rw [sockNtopHost_image]
  by_cases herrno : errno = ERANGE
  · subst herrno
    refine iff_of_false ?_ fun h => h.1 rfl
    rintro ⟨s, copy, -, hcopy, -⟩
    rw [sockAton_erange] at hcopy
    cases hcopy
  obtain ⟨front, padding, behind, rfl, hfront, hpadding⟩ : ∃ front padding behind,
      stack = front ++ padding ++ behind ∧ front.length = 8 ∧ padding.length = 8 := by
    refine ⟨stack.take 8, (stack.drop 8).take 8, (stack.drop 8).drop 8, ?_, ?_, ?_⟩
    · rw [List.append_assoc, List.take_append_drop, List.take_append_drop]
    · simp [hstack, sizeofSockaddrStorage]
    · simp [hstack, sizeofSockaddrStorage]
  have hzero : PaddingZero (front ++ padding ++ behind) ↔ padding = List.replicate 8 0 := by
    have hdrop : ((front ++ padding ++ behind).take sizeofSockaddrIn).drop 8 = padding := by
      rw [List.take_left' (by simp [hfront, hpadding, sizeofSockaddrIn]), List.drop_left' hfront]
    unfold PaddingZero
    rw [hdrop, List.eq_replicate_iff]
    simp [hpadding]
  have haton := sockAton_printed herrno a b c d port hfront hpadding behind hdest
  by_cases hroom : salen < sizeofSockaddrIn
  · rw [if_pos hroom] at haton
    refine ⟨?_, ?_⟩
    · rintro ⟨s, copy, hs, hcopy, -⟩
      cases hs
      rw [haton] at hcopy
      cases hcopy
    · intro h
      omega
  · rw [if_neg hroom] at haton
    obtain ⟨n, hn, hequal⟩ := @sockcmp_image port [a, b, c, d] padding (List.replicate 8 0) rfl hpadding rfl
      (dest.drop sizeofSockaddrIn) []
    rw [List.append_nil] at hn
    rw [hzero]
    refine ⟨?_, ?_⟩
    · rintro ⟨s, copy, hs, hcopy, hcmp⟩
      cases hs
      rw [haton] at hcopy
      cases hcopy
      rw [hn] at hcmp
      cases hcmp
      exact ⟨herrno, Nat.not_lt.1 hroom, hequal.1 rfl⟩
    · rintro ⟨-, -, hpad⟩
      exact ⟨_, _, rfl, haton, by rw [hn, hequal.2 hpad]⟩

/-- The address `127.0.0.1:80`. -/
def loopback : List UInt8 := image 80 [127, 0, 0, 1] (List.replicate 8 0)

theorem isSockaddrIn_loopback : IsSockaddrIn loopback := by
  refine ⟨rfl, rfl, ?_⟩
  decide +kernel

/-- On a stack of zeros, `127.0.0.1:80` is read back. -/
theorem sockAton_sockNtopHost_loopback :
    ∃ s copy, sockNtopHost loopback = .ok (some s) ∧
      sockAton 0 (List.replicate 128 0) s (List.replicate 16 0) 16 = .ok (0, copy) ∧
      sockcmp copy loopback = .ok 0 :=
  (sockAton_sockNtopHost_iff isSockaddrIn_loopback 0 List.length_replicate (by simp)).2
    ⟨by decide, by decide, by decide +kernel⟩

/-- On a stack of ones the address that is read back compares as a different one, and with an `ERANGE` from
an earlier call nothing is read back. -/
theorem sockAton_sockNtopHost_differs :
    sockNtopHost loopback = .ok (some (bytesOf "127.0.0.1:80")) ∧
    (sockAton 0 (List.replicate 128 1) (bytesOf "127.0.0.1:80") (List.replicate 16 0) 16 >>=
      fun r => sockcmp r.2 loopback) = .ok 1 ∧
    sockAton ERANGE (List.replicate 128 0) (bytesOf "127.0.0.1:80") (List.replicate 16 0) 16 =
      .ok (-1, List.replicate 16 0) := by
  decide +kernel

end Sockaddr

end Utils
