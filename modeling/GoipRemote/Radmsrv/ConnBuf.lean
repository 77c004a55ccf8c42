import GoipRemote.Lib.Buffer
import GoipRemote.Radmsrv.Handshake

/-!
# The buffer of a connection, index by index

`radmsrv_conn_callback` with every access to `conn->buf` checked against its 256 bytes. What `recv` left
there is `Holds`; from a buffer that holds what the server has read so far, the callback with its indices
does what `radmsrv_conn_callback` does with the bytes (`connCallbackAt_eq`), so that no access faults.
-/

namespace Radmsrv

open Utils Relay Function LinkedList CString Buffer

/-- `buf` and `buflen` of a `struct radmconn`. -/
structure ConnBuf where
  cells : List UInt8
  buflen : Nat
  deriving DecidableEq, Repr

/-- After `memset`. -/
def ConnBuf.zero : ConnBuf := ⟨List.replicate 256 0, 0⟩

/-- `recv` into the buffer, and `rc4_crypt` of what came in, in its place. -/
def connFill (p : Proc) (c : Radmconn) (b : ConnBuf) (bytes : List UInt8) : Res (ConnBuf × Proc) := do
  let cells ← storeAll b.cells b.buflen bytes
  let data ← loadAll cells b.buflen bytes.length
  let (data, p) ← (p.receive c.sock bytes).crypt c.rc4Dec data
  let cells ← storeAll cells b.buflen data
  return (⟨cells, b.buflen + data.length⟩, p)

/-- The type that the buffer begins with. -/
def cellsType (cells : List UInt8) : Res (Option Int) := do
  let radmin ← beginsAt cells 0 (bytesOf "RADMIN: ")
  if radmin then return some 1
  else do
    let rlogin ← beginsAt cells 0 (bytesOf "RLOGIN: ")
    if rlogin then return some 2
    else do
      let telnet ← beginsAt cells 0 (bytesOf "TELNET: ")
      return if telnet then some 3 else none

/-- `radmsrv_conn_callback` with an id and a type. -/
def connAdmit (s : Server) (conn : Ptr) (id : CString) (isRadmin : Int) (new : NewClientIn) :
    Res Server := do
  let (cli, s) ← radmsrvFindClient s id isRadmin
  let (cli, s) ← if cli = 0 then radmsrvNewClient s id new else .ok (cli, s)
  if cli = 0 then connErrExit s conn else connAttach s conn cli isRadmin

/-- `radmsrv_conn_callback` on a buffer that has its terminator. -/
def connLineAt (s : Server) (conn : Ptr) (cells : List UInt8) (new : NewClientIn) : Res Server := do
  match ← cellsType cells with
  | none => connErrExit s conn
  | some isRadmin =>
    let id ← stringAt cells 8 256
    connAdmit s conn (ofBuf id) isRadmin new

/-- `radmsrv_conn_callback`, and what it leaves in the buffer. -/
def connCallbackAt (s : Server) (conn : Ptr) (b : ConnBuf) (i : ConnIn) : Res (Server × ConnBuf) := do
  let c ← Res.deref s.conns conn
  if i.sockerr then do
    let s ← connErrExit s conn
    return (s, b)
  else
    match i.recv.map (List.take (256 - b.buflen)) with
    | none | some [] =>
      if i.emfile then .exit
      else do
        let s ← connErrExit s conn
        return (s, b)
    | some bytes => do
      let (b, p) ← connFill s.proc c b bytes
      let s := { s with proc := p }.setConn conn { c with buf := b.cells.take b.buflen }
      let last ← load b.cells (b.buflen - 1)
      if last ≠ 10 then return (s, b)
      else do
        let cells ← store b.cells (b.buflen - 1) 0
        let s ← connLineAt (s.setConn conn { c with buf := cells.take b.buflen }) conn cells i.new
        return (s, ⟨cells, b.buflen⟩)

/-! ## The accesses -/

/-- The buffer holds some bytes. -/
structure ConnBuf.Holds (b : ConnBuf) (buf : List UInt8) : Prop where
  size : b.cells.length = 256
  buflen : b.buflen = buf.length
  bytes : buf <+: b.cells

section
variable {b : ConnBuf} {buf bytes cells line rest : List UInt8}

theorem ConnBuf.Holds.zero : ConnBuf.zero.Holds [] := ⟨List.length_replicate .., rfl, List.nil_prefix⟩

theorem ConnBuf.Holds.length_le (h : b.Holds buf) : buf.length ≤ 256 := h.size ▸ h.bytes.length_le

theorem ConnBuf.Holds.take (h : b.Holds buf) : b.cells.take b.buflen = buf := by
  rw [h.buflen]
  exact (List.prefix_iff_eq_take.1 h.bytes).symm

/-- What came in stands behind what was there. -/
theorem connFill_eq (h : b.Holds buf) {p p' : Proc} {c : Radmconn} {data : List UInt8}
    (hfit : buf.length + bytes.length ≤ 256)
    (hcrypt : (p.receive c.sock bytes).crypt c.rc4Dec bytes = .ok (data, p'))
    (hdata : data.length = bytes.length) :
    ∃ b', connFill p c b bytes = .ok (b', p') ∧ b'.Holds (buf ++ data) := by
  obtain ⟨rest, hrest⟩ := h.bytes
  have hsize := congrArg List.length hrest
  rw [List.length_append, h.size] at hsize
  have hfill := @storeAll_ok UInt8 buf rest bytes (by omega)
  have hread := @loadAll_eq UInt8 buf (rest.drop bytes.length) bytes
  have hplace := @storeAll_ok UInt8 buf (bytes ++ rest.drop bytes.length) data
    (by rw [List.length_append]; omega)
  rw [hdata, List.drop_left] at hplace
  rw [List.append_assoc] at hfill
  refine ⟨⟨buf ++ data ++ rest.drop bytes.length, buf.length + data.length⟩, ?_, ?_, ?_, ?_⟩
  · unfold connFill
    rw [h.buflen, ← hrest, hfill, Res.ok_bind, ← List.append_assoc, hread, Res.ok_bind, hcrypt, Res.ok_bind]
    show storeAll (buf ++ bytes ++ rest.drop bytes.length) buf.length data >>= _ = _
    rw [List.append_assoc, hplace]
    rfl
  · simp only [List.length_append, List.length_drop]
    omega
  · exact (List.length_append ..).symm
  · exact List.prefix_append _ _

/-- A text without NUL begins a buffer as it begins the string there. -/
theorem begins_ofBuf {text : List UInt8} (htext : ∀ b ∈ text, b ≠ 0) :
    text <+: cells ↔ text <+: (ofBuf cells).bytes := by
  induction text generalizing cells with
  | nil => simp
  | cons t text ih =>
    have ht := htext t List.mem_cons_self
    cases cells with
    | nil => simp [ofBuf]
    | cons a cells =>
      by_cases ha : a = 0
      · subst ha
        have hnil : (ofBuf (0 :: cells)).bytes = [] := rfl
        simp [hnil, List.cons_prefix_cons, ht]
      · rw [ofBuf_cons ha, List.cons_prefix_cons, List.cons_prefix_cons,
          ih fun c hc => htext c (List.mem_cons_of_mem _ hc)]

theorem strncmp_begins {text line : CString} (h : text.bytes.length = 8) :
    strncmp line text 8 = 0 ↔ text.bytes <+: line.bytes := by
  unfold strncmp
  rw [strcmp_eq_zero]
  have htext : text.take 8 = text := CString.ext (List.take_of_length_le (Nat.le_of_eq h))
  rw [htext, List.prefix_iff_eq_take, h]
  refine ⟨?_, ?_⟩
  · intro heq
    exact (congrArg CString.bytes heq).symm
  · intro heq
    exact CString.ext heq.symm

/-- The type that is read off the buffer is that of the line. -/
theorem cellsType_eq (h : 0 ∈ cells) : cellsType cells = .ok (lineType (ofBuf cells)) := by
  have hbegins : ∀ {text : List UInt8}, (∀ b ∈ text, b ≠ 0) → text.length = 8 →
      beginsAt cells 0 text = .ok (decide (strncmp (ofBuf cells) (ofBuf text) 8 = 0)) := by
    intro text htext hlen
    have hbytes : (ofBuf text).bytes = text := ofBuf_bytes htext
    have hat := @beginsAt_eq [] cells text h htext
    rw [List.nil_append, List.length_nil] at hat
    rw [hat]
    congr 1
    rw [decide_eq_decide, strncmp_begins (by rw [hbytes]; exact hlen), hbytes]
    exact begins_ofBuf htext
  unfold cellsType lineType
  rw [hbegins (by decide +kernel) (by decide), hbegins (by decide +kernel) (by decide),
    hbegins (by decide +kernel) (by decide)]
  simp only [Res.ok_bind, decide_eq_true_eq, Res.pure_eq]
  repeat' split
  all_goals rfl

theorem lineType_length {line : CString} {isRadmin : Int} (h : lineType line = some isRadmin) :
    8 ≤ line.bytes.length := by
  have hle : ∀ {text : CString}, text.bytes.length = 8 → strncmp line text 8 = 0 → 8 ≤ line.bytes.length :=
    fun hlen hzero => hlen ▸ ((strncmp_begins hlen).1 hzero).length_le
  unfold lineType at h
  split at h
  · exact hle (show (ofBuf (bytesOf "RADMIN: ")).bytes.length = 8 by decide) ‹_›
  · split at h
    · exact hle (show (ofBuf (bytesOf "RLOGIN: ")).bytes.length = 8 by decide) ‹_›
    · split at h
      · exact hle (show (ofBuf (bytesOf "TELNET: ")).bytes.length = 8 by decide) ‹_›
      · cases h

theorem ofBuf_zero (line rest : List UInt8) : ofBuf (line ++ 0 :: rest) = ofBuf line := by
  apply CString.ext
  show (line ++ 0 :: rest).takeWhile (· ≠ 0) = line.takeWhile (· ≠ 0)
  rw [List.takeWhile_append]
  split
  · rename_i hall
    rw [(List.takeWhile_prefix _).eq_of_length hall]
    simp
  · rfl

/-- The rest of the callback, on a buffer that has its terminator. -/
theorem connLineAt_eq (s : Server) (conn : Ptr) (h : 0 ∈ cells) (hsize : cells.length ≤ 256)
    (new : NewClientIn) : connLineAt s conn cells new = connLine s conn (ofBuf cells) new := by
  unfold connLineAt connLine
  rw [cellsType_eq h, Res.ok_bind]
  cases htype : lineType (ofBuf cells) with
  | none => rfl
  | some isRadmin =>
    obtain ⟨behind, hcells⟩ := exists_ofBuf h
    generalize ofBuf cells = line at hcells htype
    have hlen := lineType_length htype
    have hlength := congrArg List.length hcells
    rw [List.length_append, List.length_cons] at hlength
    have hread := @stringAt_ok (line.bytes.take 8) (line.bytes.drop 8)
      (fun b hb => line.ne_zero b (List.mem_of_mem_drop hb)) behind 256 (by rw [List.length_drop]; omega)
    rw [List.take_append_drop, ← hcells, List.length_take, Nat.min_eq_left hlen] at hread
    have hid : ofBuf (line.bytes.drop 8) = line.drop 8 :=
      CString.ext (ofBuf_bytes fun b hb => line.ne_zero b (List.mem_of_mem_drop hb))
    show stringAt cells 8 256 >>= _ = _
    rw [hread, Res.ok_bind, hid]
    rfl

theorem load_last (h : b.Holds buf) (hne : buf ≠ []) :
    load b.cells (b.buflen - 1) = .ok (buf.getLast hne) := by
  obtain ⟨rest, hrest⟩ := h.bytes
  have hlast := @load_eq UInt8 buf.dropLast (buf.getLast hne) rest
  rwa [List.append_cons, List.dropLast_append_getLast hne, hrest, List.length_dropLast, ← h.buflen] at hlast

/-- The terminator takes the place of the last byte. -/
theorem store_last (h : b.Holds buf) (hne : buf ≠ []) : ∃ cells, store b.cells (b.buflen - 1) 0 = .ok cells ∧
    (ConnBuf.mk cells b.buflen).Holds (buf.dropLast ++ [0]) := by
  obtain ⟨rest, hrest⟩ := h.bytes
  have hsize := h.size
  have hpos := List.length_pos_of_ne_nil hne
  have hlast := @store_eq UInt8 buf.dropLast (buf.getLast hne :: rest) 0
  rw [List.append_cons, List.dropLast_append_getLast hne, hrest, List.length_dropLast, ← h.buflen] at hlast
  refine ⟨_, hlast, ?_, ?_, ?_⟩
  · rw [← hrest, List.length_append] at hsize
    simp
    omega
  · rw [h.buflen, List.length_append, List.length_dropLast, List.length_singleton]
    omega
  · simp

/-- A call of the callback of the connection `c` at `conn`, without its indices and with them. -/
inductive ConnCalled (s : Server) (conn : Ptr) (c : Radmconn) (b : ConnBuf) (i : ConnIn) :
    Res Server → Res (Server × ConnBuf) → Prop
  /-- `MYDLOG` finds errno 24. -/
  | exit : i.emfile = true →
      (∀ bytes, i.recv.map (List.take (256 - c.buf.length)) = some bytes → bytes = []) →
      ConnCalled s conn c b i .exit .exit
  | err : ConnCalled s conn c b i (connErrExit s conn) (connErrExit s conn >>= fun s' => .ok (s', b))
  | waits {k : Rc4State} {bytes : List UInt8} {b' : ConnBuf} : s.proc.rc4 c.rc4Dec = some k → bytes ≠ [] →
      b'.Holds (c.buf ++ (rc4Crypt k bytes).1) →
      ConnCalled s conn c b i (.ok (s.gets conn c k bytes)) (.ok (s.gets conn c k bytes, b'))
  /-- `line` has its terminator in the buffer. -/
  | line {s₁ : Server} {k : Rc4State} {bytes buf rest : List UInt8} {line : CString} {b' : ConnBuf} :
      s.proc.rc4 c.rc4Dec = some k → b'.Holds buf → b'.cells = line.bytes ++ 0 :: rest →
      line.bytes.length ≤ 255 →
      s₁ = (s.gets conn c k bytes).setConn conn { c with buf := buf } →
      ConnCalled s conn c b i (connLine s₁ conn line i.new)
        (connLine s₁ conn line i.new >>= fun s' => .ok (s', b'))

/-- **The callback with its indices** does what it does with the bytes, from a buffer that holds them. -/
theorem connCallbackAt_called {s : Server} {conn : Ptr} {q : Queue} {l ds : List Ptr}
    (hinv : Inv s q l ds nobody nobody) {c : Radmconn} (hc : s.conns conn = some c) (h : b.Holds c.buf)
    (i : ConnIn) :
    ConnCalled s conn c b i (radmsrvConnCallback s conn i) (connCallbackAt s conn b i) := by
  unfold connCallbackAt radmsrvConnCallback
  rw [Res.deref_of_some hc]
  simp only [Res.ok_bind]
  by_cases hsockerr : i.sockerr = true
  · rw [if_pos hsockerr, if_pos hsockerr]
    exact .err
  rw [if_neg hsockerr, if_neg hsockerr, h.buflen]
  have hfail : (∀ bytes, i.recv.map (List.take (256 - c.buf.length)) = some bytes → bytes = []) →
      ConnCalled s conn c b i (if i.emfile then .exit else connErrExit s conn)
        (if i.emfile then .exit else connErrExit s conn >>= fun s' => .ok (s', b)) := by
    intro hnone
    by_cases hem : i.emfile = true
    · rw [if_pos hem, if_pos hem]
      exact .exit hem hnone
    · rw [if_neg hem, if_neg hem]
      exact .err
  cases hrecv : i.recv.map (List.take (256 - c.buf.length)) with
  | none =>
    apply hfail
    intro bytes hbytes
    rw [hrecv] at hbytes
    cases hbytes
  | some bytes =>
    cases bytes with
    | nil =>
      apply hfail
      intro bytes hbytes
      rw [hrecv] at hbytes
      cases hbytes
      rfl
    | cons a bytes =>
      obtain ⟨k, hk⟩ := hinv.proc.rc4_isSome (a := Slot.conn conn) (slots_of_conn hc).2.1
      have hlen := received_length h.length_le hrecv k
      have hdata : (rc4Crypt k (a :: bytes)).1.length = (a :: bytes).length := rc4Crypt_length ..
      have hcrypt : (s.proc.receive c.sock (a :: bytes)).crypt c.rc4Dec (a :: bytes) =
          .ok ((rc4Crypt k (a :: bytes)).1, (s.gets conn c k (a :: bytes)).proc) := by
        unfold Proc.crypt
        rw [show (s.proc.receive c.sock (a :: bytes)).rc4 = s.proc.rc4 from rfl, Res.deref_of_some hk]
        rfl
      obtain ⟨b', hfill, hb'⟩ := connFill_eq h (by rw [List.length_append] at hlen; omega) hcrypt hdata
      simp only [hfill, hcrypt, Res.ok_bind, hb'.take]
      set buf := c.buf ++ (rc4Crypt k (a :: bytes)).1 with hbuf
      have hne : buf ≠ [] := by
        intro hnil
        rw [hbuf, List.append_eq_nil_iff] at hnil
        rw [hnil.2] at hdata
        cases hdata
      have hlast : buf.getLast? = some (buf.getLast hne) := List.getLast?_eq_some_getLast hne
      simp only [load_last hb' hne, Res.ok_bind, hlast, ne_eq, Option.some.injEq]
      by_cases hline : buf.getLast hne = 10
      · obtain ⟨cells, hcells, hb''⟩ := store_last hb' hne
        have hstored : cells.take b'.buflen = buf.dropLast ++ [0] := hb''.take
        obtain ⟨rest, hrest⟩ := hb''.bytes
        have hrest : buf.dropLast ++ [0] ++ rest = cells := hrest
        have hzero : 0 ∈ cells := by
          rw [← hrest]
          simp
        have hstring : ofBuf cells = ofBuf buf.dropLast := by
          rw [← hrest, List.append_assoc]
          exact ofBuf_zero _ _
        obtain ⟨behind, hbehind⟩ := exists_ofBuf hzero
        simp only [hline, not_true, if_false, hcells, Res.ok_bind, hstored,
          connLineAt_eq _ conn hzero (Nat.le_of_eq hb''.size), hstring]
        apply ConnCalled.line hk hb''
        · rw [← hstring]
          exact hbehind
        · exact (line_length hlen (by rw [hlast, hline]; exact fun hn => hn rfl)).2
        · rfl
      · simp only [hline, not_false_eq_true, if_true]
        exact .waits hk (List.cons_ne_nil _ _) hb'

end

end Radmsrv
