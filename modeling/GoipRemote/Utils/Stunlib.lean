import GoipRemote.Utils.StunParse

/-!
# The NAT address (`stunlib.c`)

`recv_bindingresp` takes the mapped address of a binding response over into the handler. It does not look at
what the parser has answered, and the test for an error of `recvfrom` is never true; so the type in the header
decides alone. `recvBindingresp_settles_iff` says for which results of `recvfrom` the address is right.
-/

namespace Utils.Stunlib

open Stun

/-! ## The code -/

def AF_INET : UInt16 := 2

/-- `htons`, on a little-endian host. -/
def htons (x : UInt16) : UInt16 := x <<< 8 ||| x >>> 8

/-- `htonl`, on a little-endian host. -/
def htonl (x : UInt32) : UInt32 :=
  x <<< 24 ||| (x &&& (0xff00 : UInt32)) <<< 8 ||| (x >>> 8 &&& (0xff00 : UInt32)) ||| x >>> 24

structure SockaddrIn where
  sinFamily : UInt16
  sinPort : UInt16
  sinAddr : UInt32
  deriving DecidableEq

/-- The fields of `stun_handler_t` that are used here. -/
structure StunHandler where
  udpSocket : Int
  nataddr : SockaddrIn

/-- What `recvfrom` meets; a datagram without bytes stands for an end of file, too. -/
inductive Recv where
  | error
  | datagram (bytes : List UInt8)

/-- The result of `recvfrom` and what the buffer holds then: a datagram is cut to the buffer, and an error
leaves the buffer as it was. -/
def recvfrom (buf : Cells UInt8 STUN_MAX_MESSAGE_SIZE) : Recv → Int × List UInt8
  | .error => (-1, buf.cells)
  | .datagram bytes =>
    let n := min bytes.length STUN_MAX_MESSAGE_SIZE
    (n, bytes.take n ++ buf.cells.drop n)

/-- The conversion of an `int` to an `unsigned int`. -/
def toUnsigned (n : Int) : Nat := (n % 2 ^ 32).toNat

/-- What `recv_bindingresp` does with the parsed message, and returns. -/
def takeResponse (handler : StunHandler) (msglen : Int) (resp : StunMessage) : Int × StunHandler :=
  if resp.msgHdr.msgType = BindResponseMsg then
    (msglen, { handler with
      nataddr := ⟨AF_INET, htons resp.mappedAddress.ipv4.port, htonl resp.mappedAddress.ipv4.addr⟩ })
  else (0, handler)

/-- `recv_bindingresp`, with the bytes that are in `buf` before: an array on the stack without a value. -/
def recvBindingresp (handler : StunHandler) (buf : Cells UInt8 STUN_MAX_MESSAGE_SIZE) (recv : Recv) :
    Res (Int × StunHandler) :=
  if handler.udpSocket = -1 then .ok (-1, handler)
  else
    let (msglen, buf) := recvfrom buf recv
    if msglen < 0 ∧ msglen = 0 then .ok (-1, handler)
    else if msglen + 1 > STUN_MAX_MESSAGE_SIZE then .ok (-1, handler)
    else do
      let (_, resp) ← stunParseMessage buf (toUnsigned msglen)
      return takeResponse handler msglen resp

/-! ## What it is for -/

/-- The socket address of an address in a message. -/
def natAddress (address : StunAddress4) : SockaddrIn := ⟨AF_INET, htons address.port, htonl address.addr⟩

/-- A binding response with a mapped address has been received, and all of it. -/
def Answers (handler : StunHandler) (recv : Recv) (address : StunAddress4) : Prop :=
  handler.udpSocket ≠ -1 ∧ ∃ m : Message, recv = .datagram m.bytes ∧ m.bytes.length < STUN_MAX_MESSAGE_SIZE ∧
    m.type = BindResponseMsg ∧ m.mappedAddress = some address

/-- An answer is taken over, and nothing else changes the handler or looks like an answer. -/
def Settles (handler : StunHandler) (buf : Cells UInt8 STUN_MAX_MESSAGE_SIZE) (recv : Recv) : Prop :=
  ∃ res handler', recvBindingresp handler buf recv = .ok (res, handler') ∧
    ((∃ address, Answers handler recv address ∧ handler' = { handler with nataddr := natAddress address }) ∨
      (¬∃ address, Answers handler recv address) ∧ handler' = handler ∧ res ≤ 0)

/-- The results of `recvfrom` that do no harm. -/
def Harmless (handler : StunHandler) (buf : Cells UInt8 STUN_MAX_MESSAGE_SIZE) : Recv → Prop
  | .error => msgTypeOf buf.cells = BindResponseMsg → handler.nataddr = natAddress ⟨0, 0⟩
  | .datagram bytes =>
    bytes.length < sizeofStunMsgHdr ∨ STUN_MAX_MESSAGE_SIZE ≤ bytes.length ∨
      (msgTypeOf bytes ≠ BindResponseMsg ∧ ¬Trips (STUN_MAX_MESSAGE_SIZE - bytes.length) bytes) ∨
      ∃ m : Message, bytes = m.bytes ∧ m.type = BindResponseMsg ∧ m.mappedAddress ≠ none

section
variable {handler : StunHandler} {buf : Cells UInt8 STUN_MAX_MESSAGE_SIZE}

theorem not_answers_of_closed (h : handler.udpSocket = -1) (recv : Recv) :
    ¬∃ address, Answers handler recv address := fun ⟨_, hsock, _⟩ => hsock h

/-- Without a response, the handler has to stay and the result not to be positive. -/
theorem settles_iff_of_not_answers {recv : Recv} {res : Int} {handler' : StunHandler}
    (hno : ¬∃ address, Answers handler recv address)
    (hrecv : recvBindingresp handler buf recv = .ok (res, handler')) :
    Settles handler buf recv ↔ handler' = handler ∧ res ≤ 0 := by
  refine ⟨fun ⟨res', last, hlast, hsettles⟩ => ?_, fun h => ⟨res, handler', hrecv, .inr ⟨hno, h⟩⟩⟩
  rw [hrecv] at hlast
  cases hlast
  rcases hsettles with ⟨address, hanswer, _⟩ | ⟨_, h⟩
  · exact absurd ⟨address, hanswer⟩ hno
  · exact h

theorem recvBindingresp_error (hsock : handler.udpSocket ≠ -1) :
    recvBindingresp handler buf .error =
      .ok (if msgTypeOf buf.cells = BindResponseMsg then
        (-1, { handler with nataddr := natAddress ⟨0, 0⟩ }) else (0, handler)) := by
  have hbuf : sizeofStunMsgHdr ≤ buf.cells.length := by
    rw [buf.length_eq]
    decide
  have hunsigned : toUnsigned (-1) = 4294967295 := rfl
  obtain ⟨pmsg, htype, _, hzero, hparse⟩ :=
    stunParseMessage_eq hbuf (show sizeofStunMsgHdr ≤ 4294967295 by decide)
  -- no length of two bytes is that of an error
  have hother : (msgLengthOf buf.cells).toNat + sizeofStunMsgHdr ≠ 4294967295 := by
    have hlt := (msgLengthOf buf.cells).toNat_lt
    unfold sizeofStunMsgHdr
    omega
  rw [if_pos hother] at hparse
  unfold recvBindingresp recvfrom
  simp only [if_neg hsock, hunsigned, hparse, Res.ok_bind, takeResponse, htype, hzero]
  rfl

theorem recvBindingresp_datagram (hsock : handler.udpSocket ≠ -1) {bytes : List UInt8}
    (hlen : bytes.length < STUN_MAX_MESSAGE_SIZE) :
    recvBindingresp handler buf (.datagram bytes) =
      stunParseMessage (bytes ++ buf.cells.drop bytes.length) bytes.length >>= fun parsed =>
        .ok (takeResponse handler bytes.length parsed.2) := by
  have hmin : min bytes.length STUN_MAX_MESSAGE_SIZE = bytes.length := Nat.min_eq_left (Nat.le_of_lt hlen)
  have hbound : bytes.length < 2048 := hlen
  have hnonneg : ¬((bytes.length : Int) < 0 ∧ (bytes.length : Int) = 0) := by omega
  have hfits : ¬(bytes.length : Int) + 1 > (2048 : Nat) := by omega
  have hunsigned : toUnsigned bytes.length = bytes.length := by
    unfold toUnsigned
    omega
  unfold recvBindingresp recvfrom
  rw [if_neg hsock]
  simp only [hmin, if_neg hnonneg, if_neg hfits, hunsigned, List.take_length]
  rfl

theorem recvBindingresp_long (hsock : handler.udpSocket ≠ -1) {bytes : List UInt8}
    (hlen : STUN_MAX_MESSAGE_SIZE ≤ bytes.length) :
    recvBindingresp handler buf (.datagram bytes) = .ok (-1, handler) := by
  have hmin : min bytes.length STUN_MAX_MESSAGE_SIZE = 2048 := Nat.min_eq_right hlen
  unfold recvBindingresp recvfrom
  rw [if_neg hsock]
  simp only [hmin]
  rfl

/-- A message that is received is taken over as it says. -/
theorem recvBindingresp_message (hsock : handler.udpSocket ≠ -1) {m : Message} {address : StunAddress4}
    (hlen : m.bytes.length < STUN_MAX_MESSAGE_SIZE) (htype : m.type = BindResponseMsg)
    (hmapped : m.mappedAddress = some address) :
    recvBindingresp handler buf (.datagram m.bytes) =
      .ok (m.bytes.length, { handler with nataddr := natAddress address }) := by
  obtain ⟨pmsg, hparse, htypeOf, hfound⟩ := stunParseMessage_message (buf.cells.drop m.bytes.length) m
  have haddress : pmsg.mappedAddress.ipv4 = address := by
    rw [hmapped] at hfound
    unfold StunMessage.mapped at hfound
    split at hfound
    · exact Option.some.inj hfound
    · cases hfound
  rw [recvBindingresp_datagram hsock hlen, hparse, Res.ok_bind, takeResponse,
    if_pos (htypeOf.trans htype), haddress]
  rfl

/-! ## Which results are harmless -/

theorem settles_error_iff (hsock : handler.udpSocket ≠ -1) :
    Settles handler buf .error ↔ Harmless handler buf .error := by
  have hno : ¬∃ address, Answers handler .error address := by
    intro ⟨_, _, _, herror, _⟩
    cases herror
  have hrecv := @recvBindingresp_error handler buf hsock
  unfold Harmless
  by_cases htype : msgTypeOf buf.cells = BindResponseMsg
  · rw [if_pos htype] at hrecv
    rw [settles_iff_of_not_answers hno hrecv]
    refine ⟨fun h _ => ?_, fun h => ⟨?_, by decide⟩⟩
    · rw [← h.1]
    · rw [← h htype]
  · rw [if_neg htype] at hrecv
    rw [settles_iff_of_not_answers hno hrecv]
    exact iff_of_true ⟨rfl, Int.le_refl 0⟩ fun h => absurd h htype

theorem settles_message {m : Message} (hsock : handler.udpSocket ≠ -1)
    (hlen : m.bytes.length < STUN_MAX_MESSAGE_SIZE) (htype : m.type = BindResponseMsg)
    (hmapped : m.mappedAddress ≠ none) : Settles handler buf (.datagram m.bytes) := by
  obtain ⟨address, haddress⟩ := Option.ne_none_iff_exists'.1 hmapped
  exact ⟨_, _, recvBindingresp_message hsock hlen htype haddress,
    .inl ⟨address, ⟨hsock, m, rfl, hlen, htype, haddress⟩, rfl⟩⟩

theorem settles_datagram_iff (hsock : handler.udpSocket ≠ -1) (bytes : List UInt8) :
    Settles handler buf (.datagram bytes) ↔ Harmless handler buf (.datagram bytes) := by
  unfold Harmless
  by_cases hlong : STUN_MAX_MESSAGE_SIZE ≤ bytes.length
  · have hno : ¬∃ address, Answers handler (.datagram bytes) address := by
      intro ⟨_, _, m, hm, hlen, _⟩
      cases hm
      omega
    rw [settles_iff_of_not_answers hno (recvBindingresp_long hsock hlong)]
    exact iff_of_true ⟨rfl, by decide⟩ (.inr (.inl hlong))
  have hlen : bytes.length < STUN_MAX_MESSAGE_SIZE := Nat.not_le.1 hlong
  by_cases hm : ∃ m : Message, bytes = m.bytes ∧ m.type = BindResponseMsg ∧ m.mappedAddress ≠ none
  · refine iff_of_true ?_ (.inr (.inr (.inr hm)))
    obtain ⟨m, rfl, htype, hmapped⟩ := hm
    exact settles_message hsock hlen htype hmapped
  have hno : ¬∃ address, Answers handler (.datagram bytes) address := by
    intro ⟨address, _, m, hbytes, _, htype, hmapped⟩
    cases hbytes
    exact hm ⟨m, rfl, htype, by simp [hmapped]⟩
  have hrecv := @recvBindingresp_datagram handler buf hsock bytes hlen
  by_cases hshort : bytes.length < sizeofStunMsgHdr
  · rw [stunParseMessage_short _ hshort] at hrecv
    rw [settles_iff_of_not_answers hno hrecv]
    exact iff_of_true ⟨rfl, Int.le_refl 0⟩ (.inl hshort)
  have hbehind : (buf.cells.drop bytes.length).length = STUN_MAX_MESSAGE_SIZE - bytes.length := by
    rw [List.length_drop, buf.length_eq]
  rcases stunParseMessage_outcome (buf.cells.drop bytes.length) (Nat.not_lt.1 hshort) with
    ⟨htrip, hfault⟩ | ⟨htrip, parsed, pmsg, hparse, htype, _⟩
  · rw [hfault, Res.fault_bind] at hrecv
    rw [hbehind] at htrip
    refine iff_of_false ?_ ?_
    · intro ⟨_, _, hok, _⟩
      rw [hrecv] at hok
      cases hok
    · simp [hshort, hlong, htrip, hm]
  · rw [hparse, Res.ok_bind, takeResponse, htype] at hrecv
    rw [hbehind] at htrip
    by_cases hbind : msgTypeOf bytes = BindResponseMsg
    · rw [if_pos hbind] at hrecv
      rw [settles_iff_of_not_answers hno hrecv]
      refine iff_of_false ?_ ?_
      · intro ⟨_, hres⟩
        unfold sizeofStunMsgHdr at hshort
        omega
      · simp [hshort, hlong, hbind, hm]
    · rw [if_neg hbind] at hrecv
      rw [settles_iff_of_not_answers hno hrecv]
      exact iff_of_true ⟨rfl, Int.le_refl 0⟩ (.inr (.inr (.inl ⟨hbind, htrip⟩)))

/-- **The NAT address** is right exactly when no socket is open or the result of `recvfrom` is a harmless
one. -/
theorem recvBindingresp_settles_iff (handler : StunHandler) (buf : Cells UInt8 STUN_MAX_MESSAGE_SIZE)
    (recv : Recv) : Settles handler buf recv ↔ handler.udpSocket = -1 ∨ Harmless handler buf recv := by
  by_cases hsock : handler.udpSocket = -1
  · refine iff_of_true ⟨-1, handler, if_pos hsock, .inr ⟨?_, rfl, by decide⟩⟩ (.inl hsock)
    exact not_answers_of_closed hsock recv
  · rw [or_iff_right hsock]
    cases recv with
    | error => exact settles_error_iff hsock
    | datagram bytes => exact settles_datagram_iff hsock bytes

/-- The header of a binding response that announces eight bytes of attributes and brings none. -/
theorem recvBindingresp_settles_fails :
    ¬Settles ⟨3, ⟨AF_INET, 0x3930, 0x07c6336f⟩⟩ .zero
      (.datagram [1, 1, 0, 8, 0, 1, 2, 3, 4, 5, 6, 7, 8, 9, 10, 11, 12, 13, 14, 15]) := by
  rw [settles_datagram_iff (by decide)]
  intro h
  rcases h with h | h | ⟨h, _⟩ | ⟨m, hbytes, _⟩
  · exact absurd h (by decide)
  · exact absurd h (by decide)
  · exact h rfl
  · -- the parser refuses it, and it takes every message
    obtain ⟨pmsg, hparse⟩ := (stunParseMessage_true_iff []).2 ⟨m, hbytes⟩
    cases hparse

end

end Utils.Stunlib
