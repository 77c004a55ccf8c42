import GoipRemote.Lib.Buffer

/-!
# The SOCKS client (`socks.c`)

`readn` gathers what `recv` answers until the count is there, an error occurs or the other end closes the
connection; in the last case it returns how much there was, which is no error to its callers. The request
and the reply share a buffer, and the byte that decides lies in the part that a short reply leaves as the
request had it. `socks_believes_iff` says when a reply that is cut off passes for a success.
-/

namespace Utils.Socks

open Buffer CString

/-- An answer of `recv`: bytes that have arrived, of which it takes as many as there is room for, or `-1`.
After the last answer the other end has closed the connection. -/
inductive Recv where
  | data (b : UInt8) (bs : List UInt8)
  | eintr
  | error
  deriving DecidableEq

/-- An answer of `send`: a positive number of bytes that it takes at most, or none, with `EINTR` in `errno` or
something else. After the last answer it takes everything. -/
inductive Send where
  | sent (n : Nat)
  | failed (eintr : Bool)
  deriving DecidableEq

/-- A connection: what `recv` and `send` will answer, and what has been sent. -/
structure Sock where
  recvs : List Recv
  sends : List Send
  out : List UInt8
  deriving DecidableEq

/-- The loop of `readn` with `ls_ptr` as an index and `lt_left`: what is left when it ends, or `-1`. -/
def readLoop : List Recv → List UInt8 → Nat → Nat → Res (Option Nat × List UInt8 × List Recv)
  | recvs, buf, _, 0 => .ok (some 0, buf, recvs)
  | [], buf, _, left + 1 => .ok (some (left + 1), buf, [])
  | .eintr :: recvs, buf, i, left + 1 => readLoop recvs buf i (left + 1)
  | .error :: recvs, buf, _, _ + 1 => .ok (none, buf, recvs)
  | .data b bs :: recvs, buf, i, left + 1 => do
    let buf ← storeAll buf i ((b :: bs).take (left + 1))
    match (b :: bs).drop (left + 1) with
    | [] => readLoop recvs buf (i + (bs.length + 1)) (left - bs.length)
    | b :: bs => return (some 0, buf, .data b bs :: recvs)

/-- `readn`, to the beginning of a buffer. -/
def readn (sock : Sock) (buf : List UInt8) (count : Nat) : Res (Int × List UInt8 × Sock) := do
  let (left, buf, recvs) ← readLoop sock.recvs buf 0 count
  match left with
  | none => return (-1, buf, { sock with recvs := recvs })
  | some left => return ((count - left : Nat), buf, { sock with recvs := recvs })

/-- The loop of `writen` over the bytes that are left: whether it ends without an error. -/
def writeLoop : List Send → List UInt8 → List UInt8 → Bool × List Send × List UInt8
  | sends, out, [] => (true, sends, out)
  | [], out, b :: bs => (true, [], out ++ b :: bs)
  | .sent n :: sends, out, b :: bs => writeLoop sends (out ++ (b :: bs).take (n + 1)) (bs.drop n)
  | .failed true :: sends, out, b :: bs => writeLoop sends out (b :: bs)
  | .failed false :: sends, out, _ :: _ => (false, sends, out)

/-- `writen`, from the beginning of a buffer. -/
def writen (sock : Sock) (buf : List UInt8) (count : Nat) : Res (Int × Sock) := do
  let bytes ← loadAll buf 0 count
  let (fine, sends, out) := writeLoop sock.sends sock.out bytes
  return (if fine then (count : Int) else -1, { sock with sends := sends, out := out })

/-- What both calls do with their buffer: its first `n` bytes are sent, and `m` bytes of a reply are read into
it. There is no buffer after an error. -/
def exchange (sock : Sock) (buf : List UInt8) (n m : Nat) : Res (Option (List UInt8) × Sock) := do
  let (written, sock) ← writen sock buf n
  if written < 0 then return (none, sock)
  else do
    let (got, buf, sock) ← readn sock buf m
    return (if got < 0 then none else some buf, sock)

/-- The request of `socks_auth_rfc1929`. -/
def authRequest (usr pass : CString) (buf : List UInt8) : Res (List UInt8) := do
  let usrlen := usr.bytes.length
  let buf ← store buf 0 0x01
  let buf ← store buf 1 (.ofNat usrlen)
  let buf ← storeAll buf 2 usr.bytes
  let buf ← store buf (2 + usrlen) (.ofNat pass.bytes.length)
  storeAll buf (usrlen + 3) pass.bytes

/-- `socks_auth_rfc1929`, with the answers of `app_getopt` and the contents of `buf` before the call. -/
def socksAuthRfc1929 (usr pass : Option CString) (buf : List UInt8) (sock : Sock) : Res (Int × Sock) :=
  match usr, pass with
  | none, _ => .ok (-1, sock)
  | some _, none => .ok (-1, sock)
  | some usr, some pass =>
    if 255 < usr.bytes.length ∨ 255 < pass.bytes.length then .ok (-1, sock)
    else do
      let buf ← authRequest usr pass buf
      let (buf, sock) ← exchange sock buf (3 + usr.bytes.length + pass.bytes.length) 2
      match buf with
      | none => return (-1, sock)
      | some buf => do
        let status ← load buf 1
        return (if status ≠ 0 then -1 else 0, sock)

/-- The request of `socks_cmd`. -/
def cmdRequest (cmd : Int) (addr buf : List UInt8) : Res (List UInt8) := do
  let buf ← store buf 0 0x05
  let buf ← store buf 1 (.ofInt cmd)
  let buf ← store buf 2 0x00
  let buf ← store buf 3 0x01
  let sinAddr ← loadAll addr 4 4
  let buf ← storeAll buf 4 sinAddr
  let sinPort ← loadAll addr 2 2
  storeAll buf 8 sinPort

/-- `socks_cmd`, with the `sockaddr_in` at `addr` as its bytes. -/
def socksCmd (cmd : Int) (addr buf : List UInt8) (sock : Sock) : Res (Int × List UInt8 × Sock) := do
  let buf ← cmdRequest cmd addr buf
  let (buf, sock) ← exchange sock buf 10 10
  match buf with
  | none => return (-1, addr, sock)
  | some buf => do
    let status ← load buf 1
    if status ≠ 0 then return (-(status.toNat : Int), addr, sock)
    else do
      let sinAddr ← loadAll buf 4 4
      let addr ← storeAll addr 4 sinAddr
      let sinPort ← loadAll buf 8 2
      let addr ← storeAll addr 2 sinPort
      return (0, addr, sock)

/-! ## What arrives -/

/-- The bytes that arrive before an error or the end. -/
def stream : List Recv → List UInt8
  | [] => []
  | .eintr :: recvs => stream recvs
  | .error :: _ => []
  | .data b bs :: recvs => b :: bs ++ stream recvs

/-- The number of bytes that are taken before an error. -/
def accepted : List Send → Nat
  | [] => 0
  | .failed true :: sends => accepted sends
  | .failed false :: _ => 0
  | .sent n :: sends => n + 1 + accepted sends

/-- An error of `recv` before so many bytes have arrived. -/
def RecvFails (recvs : List Recv) (n : Nat) : Prop := .error ∈ recvs ∧ (stream recvs).length < n

/-- An error of `send` before so many bytes have been taken. -/
def SendFails (sends : List Send) (n : Nat) : Prop := .failed false ∈ sends ∧ accepted sends < n

instance (recvs : List Recv) (n : Nat) : Decidable (RecvFails recvs n) := inferInstanceAs (Decidable (_ ∧ _))

instance (sends : List Send) (n : Nat) : Decidable (SendFails sends n) := inferInstanceAs (Decidable (_ ∧ _))

theorem writeLoop_iff (sends : List Send) (out bytes : List UInt8) :
    (writeLoop sends out bytes).1 = true ↔ ¬SendFails sends bytes.length := by
  induction sends generalizing out bytes with
  | nil => cases bytes <;> simp [writeLoop, SendFails]
  | cons send sends ih =>
    cases bytes with
    | nil => simp [writeLoop, SendFails]
    | cons b bs =>
      match send with
      | .sent n =>
        rw [writeLoop, ih]
        simp only [SendFails, accepted, List.mem_cons, reduceCtorEq, false_or, List.length_drop,
          List.length_cons]
        refine not_congr (and_congr_right fun _ => ?_)
        omega
      | .failed true =>
        rw [writeLoop, ih]
        simp [SendFails, accepted]
      | .failed false => simp [writeLoop, SendFails, accepted]

/-- A piece that fits into the room that is left: the loop goes on behind it. -/
theorem readLoop_fits {b : UInt8} {bs old : List UInt8} (hfits : bs.length ≤ old.length) (recvs : List Recv)
    (front rest : List UInt8) (a : UInt8) :
    readLoop (.data b bs :: recvs) (front ++ a :: old ++ rest) front.length (old.length + 1) =
      readLoop recvs (front ++ b :: bs ++ old.drop bs.length ++ rest) (front ++ b :: bs).length
        (old.drop bs.length).length := by
  have htake : (b :: bs).take (old.length + 1) = b :: bs := List.take_of_length_le (by simpa using hfits)
  have hdrop : (b :: bs).drop (old.length + 1) = [] := List.drop_eq_nil_of_le (by simpa using hfits)
  have hstore : storeAll (front ++ a :: old ++ rest) front.length (b :: bs) =
      .ok (front ++ b :: bs ++ (a :: old ++ rest).drop (b :: bs).length) := by
    rw [List.append_assoc]
    apply storeAll_ok
    simp only [List.length_append, List.length_cons]
    omega
  have hbuf : front ++ b :: bs ++ (a :: old ++ rest).drop (b :: bs).length =
      front ++ b :: bs ++ old.drop bs.length ++ rest := by
    simp [List.drop_append, Nat.sub_eq_zero_of_le hfits]
  have hlen : (front ++ b :: bs).length = front.length + (bs.length + 1) := by simp
  rw [readLoop, htake, hdrop, hstore, Res.ok_bind, hbuf, hlen, List.length_drop]

/-- A piece with more bytes than there is room for: what is left of it stays for a later call. -/
theorem readLoop_more {b : UInt8} {bs old : List UInt8} (hmore : old.length < bs.length) (recvs : List Recv)
    (front rest : List UInt8) (a : UInt8) :
    ∃ recvs', readLoop (.data b bs :: recvs) (front ++ a :: old ++ rest) front.length (old.length + 1) =
      .ok (some 0, front ++ (b :: bs).take (old.length + 1) ++ rest, recvs') := by
  have hlen : ((b :: bs).take (old.length + 1)).length = (a :: old).length := by
    rw [List.length_take, List.length_cons, List.length_cons]
    omega
  have hstore : storeAll (front ++ a :: old ++ rest) front.length ((b :: bs).take (old.length + 1)) =
      .ok (front ++ (b :: bs).take (old.length + 1) ++ rest) := by
    rw [List.append_assoc, storeAll_ok, hlen, List.drop_left]
    rw [hlen, List.length_append]
    omega
  have hleft : (b :: bs).drop (old.length + 1) ≠ [] := by
    intro hnil
    have hle := List.drop_eq_nil_iff.1 hnil
    rw [List.length_cons] at hle
    omega
  obtain ⟨c, cs, hcs⟩ := List.exists_cons_of_ne_nil hleft
  refine ⟨.data c cs :: recvs, ?_⟩
  rw [readLoop, hstore, Res.ok_bind, hcs]
  rfl

/-- What is read over the room is the piece, and then what is read over the room behind it. -/
theorem stream_data {b : UInt8} {bs old : List UInt8} {recvs : List Recv} (hfits : bs.length ≤ old.length)
    (a : UInt8) :
    (stream (.data b bs :: recvs)).take (old.length + 1) ++
        (a :: old).drop (stream (.data b bs :: recvs)).length =
      b :: bs ++ ((stream recvs).take (old.drop bs.length).length ++
        (old.drop bs.length).drop (stream recvs).length) := by
  have htake : (b :: bs).take (old.length + 1) = b :: bs := List.take_of_length_le (by simpa using hfits)
  have hcount : old.length + 1 - (b :: bs).length = (old.drop bs.length).length := by
    rw [List.length_cons, List.length_drop]
    omega
  have hbehind : (a :: old).drop (b :: bs ++ stream recvs).length =
      (old.drop bs.length).drop (stream recvs).length := by
    rw [List.length_append, List.length_cons, Nat.add_right_comm, List.drop_succ_cons, List.drop_drop]
  rw [stream, List.take_append, htake, hcount, hbehind, List.append_assoc]

/-- What `readn` leaves: the bytes that have arrived, over what was there. -/
theorem readLoop_eq (recvs : List Recv) (front old rest : List UInt8) :
    ∃ buf recvs', readLoop recvs (front ++ old ++ rest) front.length old.length =
      (if RecvFails recvs old.length then .ok (none, buf, recvs')
        else .ok (some (old.length - (stream recvs).length),
        front ++ ((stream recvs).take old.length ++ old.drop (stream recvs).length) ++ rest, recvs')) := by
  induction recvs generalizing front old with
  | nil =>
    cases old with
    | nil => exact ⟨[], [], by simp [readLoop, RecvFails, stream]⟩
    | cons a old => exact ⟨[], [], by simp [readLoop, RecvFails, stream]⟩
  | cons recv recvs ih =>
    cases old with
    | nil => exact ⟨[], recv :: recvs, by simp [readLoop, RecvFails]⟩
    | cons a old =>
      match recv with
      | .eintr =>
        obtain ⟨buf, recvs', hloop⟩ := ih front (a :: old)
        refine ⟨buf, recvs', ?_⟩
        rw [List.length_cons] at hloop ⊢
        rw [readLoop, hloop]
        simp [RecvFails, stream]
      | .error => exact ⟨front ++ a :: old ++ rest, recvs, by simp [readLoop, RecvFails, stream]⟩
      | .data b bs =>
        rw [List.length_cons]
        by_cases hfits : bs.length ≤ old.length
        · obtain ⟨buf, recvs', hloop⟩ := ih (front ++ b :: bs) (old.drop bs.length)
          have hfails : RecvFails (.data b bs :: recvs) (old.length + 1) ↔
              RecvFails recvs (old.drop bs.length).length := by
            simp only [RecvFails, stream, List.mem_cons, reduceCtorEq, false_or, List.length_append,
              List.length_cons, List.length_drop]
            refine and_congr_right fun _ => ?_
            omega
          have hleft : old.length + 1 - (stream (.data b bs :: recvs)).length =
              (old.drop bs.length).length - (stream recvs).length := by
            rw [stream, List.length_append, List.length_cons, List.length_drop]
            omega
          refine ⟨buf, recvs', ?_⟩
          rw [readLoop_fits hfits, hloop]
          simp only [hfails, hleft, stream_data hfits, List.append_assoc]
        · have hmore := Nat.not_le.1 hfits
          have hfails : ¬RecvFails (.data b bs :: recvs) (old.length + 1) := by
            simp only [RecvFails, stream, List.length_append, List.length_cons]
            omega
          have htake : (stream (.data b bs :: recvs)).take (old.length + 1) =
              (b :: bs).take (old.length + 1) := by
            rw [stream, List.take_append_of_le_length]
            rw [List.length_cons]
            omega
          have hnone : (a :: old).drop (stream (.data b bs :: recvs)).length = [] := by
            rw [List.drop_eq_nil_iff, stream, List.length_append, List.length_cons, List.length_cons]
            omega
          have hleft : old.length + 1 - (stream (.data b bs :: recvs)).length = 0 := by
            rw [stream, List.length_append, List.length_cons]
            omega
          obtain ⟨recvs', hloop⟩ := readLoop_more hmore recvs front rest a
          refine ⟨[], recvs', ?_⟩
          rw [hloop, if_neg hfails, htake, hnone, hleft, List.append_nil]

/-- A reply of a number of bytes, over what the buffer held. -/
def reply (recvs : List Recv) (old : List UInt8) : List UInt8 :=
  (stream recvs).take old.length ++ old.drop (stream recvs).length

section
variable {sock : Sock} {old buf : List UInt8}

/-- A short reply is none for `readn` to complain of. -/
theorem readn_eq (sock : Sock) (old rest : List UInt8) :
    ∃ got buf sock', readn sock (old ++ rest) old.length = .ok (got, buf, sock') ∧
      (RecvFails sock.recvs old.length → got = -1) ∧
      (¬RecvFails sock.recvs old.length → 0 ≤ got ∧ buf = reply sock.recvs old ++ rest) := by
  obtain ⟨buf, recvs', hloop⟩ := readLoop_eq sock.recvs [] old rest
  rw [List.nil_append, List.length_nil, List.nil_append] at hloop
  unfold readn
  rw [hloop]
  by_cases h : RecvFails sock.recvs old.length
  · rw [if_pos h]
    exact ⟨-1, buf, _, rfl, fun _ => rfl, fun hno => absurd h hno⟩
  · rw [if_neg h]
    exact ⟨_, _, _, rfl, fun hyes => absurd hyes h, fun _ => ⟨Int.natCast_nonneg _, rfl⟩⟩

theorem writen_eq (sock : Sock) (bytes rest : List UInt8) :
    ∃ sock', writen sock (bytes ++ rest) bytes.length =
      .ok (if SendFails sock.sends bytes.length then -1 else (bytes.length : Int), sock') ∧
      sock'.recvs = sock.recvs := by
  have hload := @loadAll_eq UInt8 [] rest bytes
  rw [List.nil_append, List.length_nil] at hload
  have hiff := writeLoop_iff sock.sends sock.out bytes
  unfold writen
  rw [hload, Res.ok_bind]
  by_cases hfails : SendFails sock.sends bytes.length
  · have hfine : (writeLoop sock.sends sock.out bytes).1 = false :=
      Bool.eq_false_iff.2 fun h => hiff.1 h hfails
    simp [hfails, hfine]
  · simp [hfails, hiff.2 hfails]

/-- An exchange, where the reply takes the place of the first bytes of the request. -/
theorem exchange_eq (sock : Sock) {request rest old behind : List UInt8}
    (hold : request ++ rest = old ++ behind) : ∃ sock',
      exchange sock (request ++ rest) request.length old.length =
      .ok (if SendFails sock.sends request.length ∨ RecvFails sock.recvs old.length then none
        else some (reply sock.recvs old ++ behind), sock') := by
  obtain ⟨sock1, hwrite, hrecvs⟩ := writen_eq sock request rest
  obtain ⟨got, buf, sock2, hread, hfails, hfine⟩ := readn_eq sock1 old behind
  rw [hrecvs] at hfails hfine
  unfold exchange
  rw [hwrite, Res.ok_bind]
  by_cases hsend : SendFails sock.sends request.length
  · exact ⟨sock1, by simp [hsend]⟩
  · refine ⟨sock2, ?_⟩
    have hwritten : ¬((request.length : Int) < 0) := by omega
    simp only [hsend, if_false, hwritten, false_or, hold, hread, Res.ok_bind, Res.pure_eq]
    by_cases hrecv : RecvFails sock.recvs old.length
    · simp [hrecv, hfails hrecv]
    · obtain ⟨hgot, hbuf⟩ := hfine hrecv
      simp [hrecv, hbuf, Int.not_lt.2 hgot]

end

/-! ## The decision -/

/-- `socks_auth_rfc1929` believes complete replies alone. -/
def AuthBelieves (usr pass : Option CString) (buf : List UInt8) (sock : Sock) : Prop :=
  ∃ r sock', socksAuthRfc1929 usr pass buf sock = .ok (r, sock') ∧
    (r = 0 ∧ 2 ≤ (stream sock.recvs).length ∧ (stream sock.recvs)[1]? = some 0 ∨ r < 0)

/-- The address and the port of a reply in a `sockaddr_in`. -/
def withReply (addr bytes : List UInt8) : List UInt8 :=
  addr.take 2 ++ (bytes.drop 8).take 2 ++ (bytes.drop 4).take 4 ++ addr.drop 8

/-- `socks_cmd` believes complete replies alone, and stores what they say. -/
def CmdBelieves (cmd : Int) (addr buf : List UInt8) (sock : Sock) : Prop :=
  ∃ r addr' sock', socksCmd cmd addr buf sock = .ok (r, addr', sock') ∧
    (r = 0 ∧ 10 ≤ (stream sock.recvs).length ∧ (stream sock.recvs)[1]? = some 0 ∧
      addr' = withReply addr (stream sock.recvs) ∨ r < 0 ∧ addr' = addr)

/-- When a connection is not closed in the middle of a reply that passes for a success: with a user name, the
byte that is tested holds its length. -/
def AuthSound (usr pass : Option CString) (sock : Sock) : Prop :=
  ∀ u ∈ usr, ∀ p ∈ pass, u.bytes = [] → p.bytes.length ≤ 255 → ¬SendFails sock.sends (3 + p.bytes.length) →
    .error ∉ sock.recvs → 2 ≤ (stream sock.recvs).length

/-- The byte that is tested is the status, or else the command. -/
def CmdSound (cmd : Int) (sock : Sock) : Prop :=
  ¬SendFails sock.sends 10 → .error ∉ sock.recvs → (stream sock.recvs)[1]?.getD (.ofInt cmd) = 0 →
    10 ≤ (stream sock.recvs).length

section
variable {sock : Sock} {buf : List UInt8}

theorem reply_status (recvs : List Recv) (a b : UInt8) (old rest : List UInt8) :
    load (reply recvs (a :: b :: old) ++ rest) 1 = .ok ((stream recvs)[1]?.getD b) := by
  unfold reply
  match stream recvs with
  | [] => rfl
  | [_] => rfl
  | _ :: _ :: _ => rfl

/-- What `socks_auth_rfc1929` sends. -/
theorem authRequest_eq {usr pass : CString} (hlen : 3 + usr.bytes.length + pass.bytes.length ≤ buf.length) :
    ∃ request, authRequest usr pass buf =
      .ok ([0x01, .ofNat usr.bytes.length] ++ request ++
        buf.drop (3 + usr.bytes.length + pass.bytes.length)) ∧
      request.length = 1 + usr.bytes.length + pass.bytes.length := by
  have h0 : store buf 0 0x01 = .ok ([0x01] ++ buf.drop 1) := @store_next UInt8 [] buf (by simp; omega) 0x01
  have h1 : store ([0x01] ++ buf.drop 1) 1 (.ofNat usr.bytes.length) =
      .ok ([0x01, .ofNat usr.bytes.length] ++ buf.drop 2) := @store_next UInt8 [0x01] buf (by simp; omega) _
  have h2 : storeAll ([0x01, .ofNat usr.bytes.length] ++ buf.drop 2) 2 usr.bytes = _ :=
    @storeAll_next UInt8 [0x01, .ofNat usr.bytes.length] buf usr.bytes (by simp; omega)
  have h3 := @store_next UInt8 ([0x01, .ofNat usr.bytes.length] ++ usr.bytes) buf (by simp; omega)
    (.ofNat pass.bytes.length)
  have h4 := @storeAll_next UInt8 ([0x01, .ofNat usr.bytes.length] ++ usr.bytes ++
    [.ofNat pass.bytes.length]) buf pass.bytes
    (by simp; omega)
  have hlen3 : ([0x01, UInt8.ofNat usr.bytes.length] ++ usr.bytes).length =
    2 + usr.bytes.length := by simp; omega
  have hlen4 : ([0x01, UInt8.ofNat usr.bytes.length] ++ usr.bytes ++ [UInt8.ofNat pass.bytes.length]).length =
      usr.bytes.length + 3 := by simp
  have hlen5 : ([0x01, UInt8.ofNat usr.bytes.length] ++ usr.bytes ++ [UInt8.ofNat pass.bytes.length] ++
      pass.bytes).length = 3 + usr.bytes.length + pass.bytes.length := by simp; omega
  rw [hlen3] at h2 h3
  rw [hlen4] at h3 h4
  rw [hlen5] at h4
  refine ⟨usr.bytes ++ [.ofNat pass.bytes.length] ++ pass.bytes, ?_, by simp; omega⟩
  unfold authRequest
  simp only [h0, h1, h2, h3, h4, Res.ok_bind]
  simp only [List.append_assoc]

/-- The result, by what is sent and received. -/
theorem socksAuthRfc1929_eq {usr pass : CString} (husr : usr.bytes.length ≤ 255)
    (hpass : pass.bytes.length ≤ 255)
    (hbuf : buf.length = 515) (sock : Sock) : ∃ sock', socksAuthRfc1929 (some usr) (some pass) buf sock =
      .ok (if (SendFails sock.sends (3 + usr.bytes.length + pass.bytes.length) ∨ RecvFails sock.recvs 2) ∨
        (stream sock.recvs)[1]?.getD (.ofNat usr.bytes.length) ≠ 0 then -1 else 0, sock') := by
  obtain ⟨request, hrequest, hlen⟩ := @authRequest_eq buf usr pass (by omega)
  have hold : [0x01, UInt8.ofNat usr.bytes.length] ++ request ++
    buf.drop (3 + usr.bytes.length + pass.bytes.length) =
      [0x01, UInt8.ofNat usr.bytes.length] ++ (request ++
        buf.drop (3 + usr.bytes.length + pass.bytes.length)) := by simp
  obtain ⟨sock', hexchange⟩ := exchange_eq sock hold
  have hsent : ([0x01, UInt8.ofNat usr.bytes.length] ++ request).length =
    3 + usr.bytes.length + pass.bytes.length := by
    simp
    omega
  rw [hsent] at hexchange
  have hrange : ¬(255 < usr.bytes.length ∨ 255 < pass.bytes.length) := by omega
  simp only [List.length_cons, List.length_nil, Nat.zero_add, Nat.reduceAdd] at hexchange
  refine ⟨sock', ?_⟩
  simp only [socksAuthRfc1929, if_neg hrange, hrequest, Res.ok_bind, hexchange]
  by_cases hfails : SendFails sock.sends (3 + usr.bytes.length + pass.bytes.length) ∨ RecvFails sock.recvs 2
  · rw [if_pos hfails, if_pos (.inl hfails)]
    rfl
  · rw [if_neg hfails]
    simp only [reply_status, Res.ok_bind, Res.pure_eq, hfails, false_or]

/-- What `socks_cmd` sends. -/
theorem cmdRequest_eq (cmd : Int) {addr : List UInt8} (haddr : addr.length = 16) (hbuf : buf.length = 22) :
    ∃ request, cmdRequest cmd addr buf = .ok ([0x05, .ofInt cmd] ++ request ++ buf.drop 10) ∧
      request.length = 8 := by
  have h0 : store buf 0 0x05 = .ok ([0x05] ++ buf.drop 1) := @store_next UInt8 [] buf (by simp; omega) 0x05
  have h1 : store ([0x05] ++ buf.drop 1) 1 (.ofInt cmd) = .ok ([0x05, .ofInt cmd] ++ buf.drop 2) :=
    @store_next UInt8 [0x05] buf (by simp; omega) _
  have h2 : store ([0x05, .ofInt cmd] ++ buf.drop 2) 2 0x00 = .ok ([0x05, .ofInt cmd, 0x00] ++ buf.drop 3) :=
    @store_next UInt8 [0x05, .ofInt cmd] buf (by simp; omega) _
  have h3 : store ([0x05, .ofInt cmd, 0x00] ++ buf.drop 3) 3 0x01 =
      .ok ([0x05, .ofInt cmd, 0x00, 0x01] ++ buf.drop 4) :=
        @store_next UInt8 [0x05, .ofInt cmd, 0x00] buf (by simp; omega) _
  have h4 := @storeAll_next UInt8 [0x05, .ofInt cmd, 0x00, 0x01] buf ((addr.drop 4).take 4) (by simp; omega)
  have h5 := @storeAll_next UInt8 ([0x05, .ofInt cmd, 0x00, 0x01] ++ (addr.drop 4).take 4) buf
    ((addr.drop 2).take 2)
    (by simp; omega)
  have hip : ([0x05, UInt8.ofInt cmd, 0x00, 0x01] ++ (addr.drop 4).take 4).length = 8 := by simp; omega
  have hport : ([0x05, UInt8.ofInt cmd, 0x00, 0x01] ++ (addr.drop 4).take 4 ++
    (addr.drop 2).take 2).length = 10 := by
    simp
    omega
  rw [hip] at h4 h5
  rw [hport] at h5
  refine ⟨[0x00, 0x01] ++ (addr.drop 4).take 4 ++ (addr.drop 2).take 2, ?_, by simp; omega⟩
  have h4' : storeAll ([0x05, .ofInt cmd, 0x00, 0x01] ++ buf.drop 4) 4 ((addr.drop 4).take 4) = _ := h4
  unfold cmdRequest
  simp only [h0, h1, h2, h3, Res.ok_bind, loadAll_slice (show 4 + 4 ≤ addr.length by omega), h4',
    loadAll_slice (show 2 + 2 ≤ addr.length by omega), h5]
  rfl

theorem length_reply (recvs : List Recv) (old : List UInt8) : (reply recvs old).length = old.length := by
  simp only [reply, List.length_append, List.length_take, List.length_drop]
  omega

/-- The bytes of a complete reply are those that have arrived. -/
theorem withReply_complete {recvs : List Recv} {old : List UInt8} (hold : old.length = 10)
    (h : 10 ≤ (stream recvs).length) (addr behind : List UInt8) :
    withReply addr (reply recvs old ++ behind) = withReply addr (stream recvs) := by
  have hreply : reply recvs old = (stream recvs).take 10 := by
    rw [reply, hold, List.drop_eq_nil_of_le (by omega), List.append_nil]
  have hlen : ((stream recvs).take 10).length = 10 := by
    rw [List.length_take]
    omega
  have hport : (((stream recvs).take 10 ++ behind).drop 8).take 2 = ((stream recvs).drop 8).take 2 := by
    rw [List.drop_append_of_le_length (by omega), List.take_append_of_le_length (by simp; omega),
      List.drop_take,
      List.take_take]
    rfl
  have hip : (((stream recvs).take 10 ++ behind).drop 4).take 4 = ((stream recvs).drop 4).take 4 := by
    rw [List.drop_append_of_le_length (by omega), List.take_append_of_le_length (by simp; omega),
      List.drop_take,
      List.take_take]
    rfl
  rw [hreply, withReply, hport, hip]
  rfl

/-- The two copies of `socks_cmd` into the address. -/
theorem withReply_stored {addr bytes : List UInt8} (haddr : addr.length = 16) (hbytes : bytes.length = 22)
    (sock : Sock) :
    (do
      let sinAddr ← loadAll bytes 4 4
      let addr ← storeAll addr 4 sinAddr
      let sinPort ← loadAll bytes 8 2
      let addr ← storeAll addr 2 sinPort
      Res.ok ((0 : Int), addr, sock)) = .ok (0, withReply addr bytes, sock) := by
  have hip : ((bytes.drop 4).take 4).length = 4 := by simp; omega
  have hport : ((bytes.drop 8).take 2).length = 2 := by simp; omega
  have hfirst := @storeAll_slice UInt8 addr ((bytes.drop 4).take 4) 4 (by omega)
  have hsecond := @storeAll_slice UInt8 (addr.take 4 ++ (bytes.drop 4).take 4 ++ addr.drop 8)
    ((bytes.drop 8).take 2) 2
    (by simp; omega)
  rw [hip] at hfirst
  rw [hport] at hsecond
  simp only [loadAll_slice (show 4 + 4 ≤ bytes.length by omega),
    loadAll_slice (show 8 + 2 ≤ bytes.length by omega),
    hfirst, hsecond, Res.ok_bind]
  have htake : (addr.take 4 ++ (bytes.drop 4).take 4 ++ addr.drop 8).take 2 = addr.take 2 := by
    rw [List.append_assoc, List.take_append_of_le_length (by simp; omega), List.take_take]
    rfl
  have hdrop : (addr.take 4 ++ (bytes.drop 4).take 4 ++ addr.drop 8).drop (2 + 2) =
      (bytes.drop 4).take 4 ++ addr.drop 8 := by
    rw [List.append_assoc]
    exact List.drop_left' (by simp; omega)
  rw [htake, hdrop, withReply]
  simp only [List.append_assoc]

/-- The result of `socks_cmd`, with the address that it stores. -/
theorem socksCmd_eq (cmd : Int) {addr : List UInt8} (haddr : addr.length = 16) (hbuf : buf.length = 22)
    (sock : Sock) :
    ∃ old sock', old.length = 10 ∧ socksCmd cmd addr buf sock = .ok (
      if SendFails sock.sends 10 ∨ RecvFails sock.recvs 10 then (-1, addr, sock')
      else if (stream sock.recvs)[1]?.getD (.ofInt cmd) ≠ 0 then
        (-(((stream sock.recvs)[1]?.getD (UInt8.ofInt cmd)).toNat : Int), addr, sock')
      else (0, withReply addr (reply sock.recvs old ++ buf.drop 10), sock')) := by
  obtain ⟨request, hrequest, hlen⟩ := cmdRequest_eq cmd haddr hbuf
  obtain ⟨sock', hexchange⟩ := @exchange_eq sock (0x05 :: UInt8.ofInt cmd :: request) (buf.drop 10)
    (0x05 :: UInt8.ofInt cmd :: request) (buf.drop 10) rfl
  have hlen10 : (0x05 :: UInt8.ofInt cmd :: request).length = 10 := by simp [hlen]
  have hbehind := length_reply sock.recvs (0x05 :: UInt8.ofInt cmd :: request)
  rw [hlen10] at hexchange hbehind
  refine ⟨0x05 :: UInt8.ofInt cmd :: request, sock', hlen10, ?_⟩
  simp only [socksCmd, hrequest, List.cons_append, List.nil_append, Res.ok_bind] at hexchange ⊢
  rw [hexchange]
  by_cases hfails : SendFails sock.sends 10 ∨ RecvFails sock.recvs 10
  · simp only [if_pos hfails, Res.ok_bind, Res.pure_eq]
  · simp only [if_neg hfails, Res.ok_bind, Res.pure_eq, reply_status]
    split
    · rfl
    · have hstored := withReply_stored haddr
        (show (reply sock.recvs (0x05 :: UInt8.ofInt cmd :: request) ++ buf.drop 10).length =
          22 by simp; omega)
      exact hstored sock'

/-- The second byte of a stream, or what was there before. -/
theorem status_cases {bytes : List UInt8} {b : UInt8} :
    (2 ≤ bytes.length ∧ bytes[1]? = some (bytes[1]?.getD b)) ∨ (bytes.length < 2 ∧ bytes[1]?.getD b = b) := by
  match bytes with
  | [] => exact .inr ⟨by decide, rfl⟩
  | [_] => exact .inr ⟨by simp, rfl⟩
  | _ :: _ :: _ => exact .inl ⟨by simp, rfl⟩

/-- A success is one of a complete reply, if no success is left by a connection that is closed before. -/
theorem complete_iff {recvs : List Recv} {n : Nat} (hn : 2 ≤ n) (sendFails : Prop) (b : UInt8) :
    (¬(sendFails ∨ RecvFails recvs n) → (stream recvs)[1]?.getD b = 0 →
      n ≤ (stream recvs).length ∧ (stream recvs)[1]? = some 0) ↔
      (¬sendFails → .error ∉ recvs → (stream recvs)[1]?.getD b = 0 → n ≤ (stream recvs).length) := by
  have hstatus := @status_cases (stream recvs) b
  refine ⟨?_, ?_⟩
  · intro h hsend herror hzero
    exact (h (fun hfails => hfails.elim hsend fun hrecv => herror hrecv.1) hzero).1
  · intro h hfails hzero
    rw [not_or] at hfails
    have hlen : n ≤ (stream recvs).length := by
      by_cases hshort : (stream recvs).length < n
      · exact h hfails.1 (fun herror => hfails.2 ⟨herror, hshort⟩) hzero
      · omega
    rcases hstatus with ⟨-, hsome⟩ | ⟨hshort, -⟩
    · exact ⟨hlen, by rw [hsome, hzero]⟩
    · omega

theorem authBelieves_iff (usr pass : Option CString) (hbuf : buf.length = 515) (sock : Sock) :
    AuthBelieves usr pass buf sock ↔ AuthSound usr pass sock := by
  cases usr with
  | none => exact ⟨fun _ u hu => (by cases hu), fun _ => ⟨-1, sock, rfl, .inr (by decide)⟩⟩
  | some usr =>
    cases pass with
    | none => exact ⟨fun _ _ _ p hp => (by cases hp), fun _ => ⟨-1, sock, rfl, .inr (by decide)⟩⟩
    | some pass =>
      unfold AuthSound
      simp only [Option.mem_def, Option.some.injEq, forall_eq']
      by_cases hrange : 255 < usr.bytes.length ∨ 255 < pass.bytes.length
      · refine ⟨?_, ?_⟩
        · intro _ husr hpass
          rw [husr] at hrange
          simp at hrange
          omega
        · intro _
          exact ⟨-1, sock, by simp only [socksAuthRfc1929, if_pos hrange], .inr (by decide)⟩
      · obtain ⟨sock', hauth⟩ := @socksAuthRfc1929_eq buf usr pass (by omega) (by omega) hbuf sock
        have hbelieves : AuthBelieves (some usr) (some pass) buf sock ↔
            (¬(SendFails sock.sends (3 + usr.bytes.length + pass.bytes.length) ∨ RecvFails sock.recvs 2) →
              (stream sock.recvs)[1]?.getD (.ofNat usr.bytes.length) = 0 →
              2 ≤ (stream sock.recvs).length ∧ (stream sock.recvs)[1]? = some 0) := by
          unfold AuthBelieves
          rw [hauth]
          refine ⟨?_, ?_⟩
          · rintro ⟨r, sock1, hr, hcases⟩ hfails hzero
            rw [if_neg (by simp only [hfails, hzero]; simp)] at hr
            cases hr
            exact hcases.elim (fun h => h.2) fun h => absurd h (by decide)
          · intro h
            refine ⟨_, _, rfl, ?_⟩
            split
            · exact .inr (by decide)
            · rename_i hno
              rw [not_or, ne_eq, not_not] at hno
              exact .inl ⟨rfl, h hno.1 hno.2⟩
        rw [hbelieves, complete_iff (Nat.le_refl 2)]
        have hstatus := @status_cases (stream sock.recvs) (.ofNat usr.bytes.length)
        refine ⟨?_, ?_⟩
        · intro h husr _ hsend herror
          rw [husr, List.length_nil] at h hstatus
          rcases hstatus with ⟨hlen, -⟩ | ⟨hshort, hdefault⟩
          · exact hlen
          · exact h hsend herror hdefault
        · intro h hsend herror hzero
          rcases hstatus with ⟨hlen, -⟩ | ⟨hshort, hdefault⟩
          · exact hlen
          · rw [hdefault] at hzero
            have hnat := congrArg UInt8.toNat hzero
            rw [UInt8.toNat_ofNat'] at hnat
            have husr : usr.bytes = [] := List.length_eq_zero_iff.1 (by simp at hnat; omega)
            rw [husr] at hsend
            exact h husr (by omega) hsend herror

theorem cmdBelieves_iff (cmd : Int) {addr : List UInt8} (haddr : addr.length = 16) (hbuf : buf.length = 22)
    (sock : Sock) : CmdBelieves cmd addr buf sock ↔ CmdSound cmd sock := by
  obtain ⟨old, sock', hold, hcmd⟩ := socksCmd_eq cmd haddr hbuf sock
  unfold CmdSound
  rw [← complete_iff (show 2 ≤ 10 by decide)]
  unfold CmdBelieves
  rw [hcmd]
  refine ⟨?_, ?_⟩
  · rintro ⟨r, addr', sock1, hr, hcases⟩ hfails hzero
    rw [if_neg hfails, if_neg (not_not.2 hzero)] at hr
    cases hr
    exact hcases.elim (fun h => ⟨h.2.1, h.2.2.1⟩) fun h => absurd h.1 (by decide)
  · intro h
    by_cases hfails : SendFails sock.sends 10 ∨ RecvFails sock.recvs 10
    · rw [if_pos hfails]
      exact ⟨-1, addr, sock', rfl, .inr ⟨by decide, rfl⟩⟩
    · rw [if_neg hfails]
      by_cases hzero : (stream sock.recvs)[1]?.getD (.ofInt cmd) = 0
      · rw [if_neg (not_not.2 hzero)]
        obtain ⟨hlen, hsome⟩ := h hfails hzero
        exact ⟨0, _, sock', rfl, .inl ⟨rfl, hlen, hsome, withReply_complete hold hlen addr _⟩⟩
      · rw [if_pos hzero]
        refine ⟨_, addr, sock', rfl, .inr ⟨?_, rfl⟩⟩
        have hpos := CString.toNat_pos hzero
        omega

end

/-- The client believes complete replies alone, if and only if no connection is closed in the middle of a
reply whose status byte would be zero: one that has arrived, or what the request has left in its place. -/
theorem socks_believes_iff (usr pass : Option CString) (cmd : Int) {addr authBuf cmdBuf : List UInt8}
    (haddr : addr.length = 16) (hauth : authBuf.length = 515) (hcmd : cmdBuf.length = 22)
    (authSock cmdSock : Sock) :
    (AuthBelieves usr pass authBuf authSock ↔ AuthSound usr pass authSock) ∧
      (CmdBelieves cmd addr cmdBuf cmdSock ↔ CmdSound cmd cmdSock) :=
  ⟨authBelieves_iff usr pass hauth authSock, cmdBelieves_iff cmd haddr hcmd cmdSock⟩

/-- A connection that has bytes for `recv` in two pieces, and is closed then. -/
def sockOf (b c : UInt8) (bs cs : List UInt8) : Sock where
  recvs := [.data b bs, .eintr, .data c cs]
  sends := []
  out := []

/-- Complete replies are believed, in pieces too. -/
theorem socks_believes_complete :
    AuthBelieves (some (ofBuf [])) (some (ofBuf [])) (List.replicate 515 0) (sockOf 1 0 [] []) ∧
    CmdBelieves 1 (List.replicate 16 0) (List.replicate 22 0) (sockOf 5 9 [0, 0] [1, 2, 3, 4, 5, 6]) := by
  have h := @socks_believes_iff (some (ofBuf [])) (some (ofBuf [])) 1 (List.replicate 16 0)
    (List.replicate 515 0)
    (List.replicate 22 0) (by decide) List.length_replicate (by decide) (sockOf 1 0 [] [])
    (sockOf 5 9 [0, 0] [1, 2, 3, 4, 5, 6])
  exact ⟨h.1.2 fun _ _ _ _ _ _ _ _ => (by decide), h.2.2 fun _ _ _ => (by decide)⟩

/-- With an empty user name, a connection that is closed at once passes for a success, and so does a reply
of six bytes, of whose address two have not arrived. -/
theorem socks_believes_cut :
    socksAuthRfc1929 (some (ofBuf [])) (some (ofBuf [])) (List.replicate 515 0) ⟨[], [], []⟩ =
      .ok (0, ⟨[], [], [1, 0, 0]⟩) ∧
    socksCmd 1 (List.replicate 16 7) (List.replicate 22 0) ⟨[.data 5 [0, 0, 1, 9, 9]], [], []⟩ =
      .ok (0, List.replicate 4 7 ++ [9, 9] ++ List.replicate 10 7,
        ⟨[], [], [5, 1, 0, 1, 7, 7, 7, 7, 7, 7]⟩) := by
  decide +kernel

end Utils.Socks
