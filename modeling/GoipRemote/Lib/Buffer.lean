import GoipRemote.Lib.CString
import GoipRemote.Lib.Res

/-!
# A buffer and its bounds

A buffer is the list of its cells, and a `load` or a `store` behind its end is a fault. `storeAll` stores
one cell after the other; `storeAll_eq` says what the buffer holds then, before and behind. A string in a
buffer is read up to its terminator, which has to be in the buffer (`stringAt_ok`).
-/

namespace Buffer

variable {α : Type}

/-- `buf[i]`. -/
def load (buf : List α) (i : Nat) : Res α :=
  match buf[i]? with
  | some a => .ok a
  | none => .fault

/-- `buf[i] = a`. -/
def store (buf : List α) (i : Nat) (a : α) : Res (List α) :=
  if i < buf.length then .ok (buf.set i a) else .fault

/-- `buf[i++] = ..` for each of the cells. -/
def storeAll (buf : List α) (i : Nat) : List α → Res (List α)
  | [] => .ok buf
  | a :: as => do
    let buf ← store buf i a
    storeAll buf (i + 1) as

/-- `n` cells from an index on. -/
def loadAll (buf : List α) (i : Nat) : Nat → Res (List α)
  | 0 => .ok []
  | n + 1 => do
    let a ← load buf i
    let as ← loadAll buf (i + 1) n
    return a :: as

/-- The string at an index, of less than the given number of bytes. -/
def stringAt (buf : List UInt8) (i : Nat) : Nat → Res (List UInt8)
  | 0 => .fault
  | n + 1 => do
    let b ← load buf i
    if b = 0 then return []
    else do
      let bs ← stringAt buf (i + 1) n
      return b :: bs

/-- Whether a text is at an index; what is behind the first byte that differs is not looked at. -/
def beginsAt (buf : List UInt8) (i : Nat) : List UInt8 → Res Bool
  | [] => .ok true
  | b :: text => do
    let a ← load buf i
    if a = b then beginsAt buf (i + 1) text else return false

section
variable {front : List α}

theorem store_eq (rest : List α) (a : α) : store (front ++ rest) front.length a =
    if rest = [] then .fault else .ok (front ++ a :: rest.drop 1) := by
  unfold store
  cases rest with
  | nil => simp
  | cons b rest => simp

/-- Cells that are stored at the end of `front` take the place of as many behind it. -/
theorem storeAll_eq (rest as : List α) : storeAll (front ++ rest) front.length as =
    if as.length ≤ rest.length then .ok (front ++ as ++ rest.drop as.length) else .fault := by
  induction as generalizing front rest with
  | nil => simp [storeAll]
  | cons a as ih =>
    rw [storeAll, store_eq]
    cases rest with
    | nil => rfl
    | cons b rest =>
      have hlen : (front ++ [a]).length = front.length + 1 := by simp
      have hrest := @ih (front ++ [a]) rest
      rw [hlen] at hrest
      simpa using hrest

theorem storeAll_ok {rest as : List α} (h : as.length ≤ rest.length) :
    storeAll (front ++ rest) front.length as = .ok (front ++ as ++ rest.drop as.length) := by
  rw [storeAll_eq, if_pos h]

theorem storeAll_begins {buf buf' as : List α} (hfront : front <+: buf)
    (h : storeAll buf front.length as = .ok buf') : front ++ as <+: buf' := by
  obtain ⟨rest, rfl⟩ := hfront
  rw [storeAll_eq] at h
  split at h
  · cases h
    exact List.prefix_append _ _
  · cases h

theorem store_begins {buf buf' : List α} {a : α} (hfront : front <+: buf)
    (h : store buf front.length a = .ok buf') : front ++ [a] <+: buf' := by
  apply storeAll_begins hfront
  rw [storeAll, h]
  rfl

theorem load_eq (a : α) (rest : List α) : load (front ++ a :: rest) front.length = .ok a := by
  simp [load]

theorem loadAll_eq (rest as : List α) : loadAll (front ++ as ++ rest) front.length as.length = .ok as := by
  induction as generalizing front with
  | nil => rfl
  | cons a as ih =>
    have hrest := @ih (front ++ [a])
    simp only [List.append_assoc, List.cons_append, List.nil_append, List.length_append,
      List.length_singleton] at hrest
    rw [List.append_assoc, List.cons_append, List.length_cons, loadAll, load_eq, Res.ok_bind, hrest]
    rfl

/-- The cells behind an index. -/
theorem loadAll_slice {buf : List α} {i n : Nat} (h : i + n ≤ buf.length) :
    loadAll buf i n = .ok ((buf.drop i).take n) := by
  have hload := @loadAll_eq α (buf.take i) (buf.drop (i + n)) ((buf.drop i).take n)
  have hfront : (buf.take i).length = i := by
    rw [List.length_take]
    omega
  have hcells : ((buf.drop i).take n).length = n := by
    rw [List.length_take, List.length_drop]
    omega
  rw [hfront, hcells, List.append_assoc, ← List.drop_drop, List.take_append_drop,
    List.take_append_drop] at hload
  exact hload

theorem storeAll_slice {buf as : List α} {i : Nat} (h : i + as.length ≤ buf.length) :
    storeAll buf i as = .ok (buf.take i ++ as ++ buf.drop (i + as.length)) := by
  have hfront : (buf.take i).length = i := by
    rw [List.length_take]
    omega
  have hstore := @storeAll_ok α (buf.take i) (buf.drop i) as (by rw [List.length_drop]; omega)
  rw [hfront, List.take_append_drop, List.drop_drop] at hstore
  exact hstore

/-- A cell behind those that have been stored. -/
theorem store_next {buf : List α} (h : front.length < buf.length) (a : α) :
    store (front ++ buf.drop front.length) front.length a =
      .ok (front ++ [a] ++ buf.drop (front ++ [a]).length) := by
  rw [store_eq, if_neg (by rw [List.drop_eq_nil_iff]; omega)]
  simp

theorem storeAll_next {buf as : List α} (h : (front ++ as).length ≤ buf.length) :
    storeAll (front ++ buf.drop front.length) front.length as =
      .ok (front ++ as ++ buf.drop (front ++ as).length) := by
  rw [List.length_append] at h
  rw [storeAll_ok (by rw [List.length_drop]; omega), List.drop_drop, List.length_append]

end

/-! ## Strings -/

section
variable {buf front : List UInt8}

/-- A string with its terminator in the buffer. -/
theorem stringAt_ok {s : List UInt8} (hs : ∀ b ∈ s, b ≠ 0) (rest : List UInt8) {n : Nat} (hn : s.length < n) :
    stringAt (front ++ s ++ 0 :: rest) front.length n = .ok s := by
  induction s generalizing front n with
  | nil =>
    obtain ⟨n, rfl⟩ := Nat.exists_eq_succ_of_ne_zero (Nat.ne_of_gt hn)
    rw [List.append_nil, stringAt, load_eq]
    rfl
  | cons b s ih =>
    obtain ⟨n, rfl⟩ := Nat.exists_eq_succ_of_ne_zero (Nat.ne_of_gt (Nat.zero_lt_of_lt hn))
    have hrest := @ih (front ++ [b]) (fun c hc => hs c (List.mem_cons_of_mem _ hc)) n
      (Nat.lt_of_succ_lt_succ hn)
    simp only [List.append_assoc, List.cons_append, List.nil_append, List.length_append,
      List.length_singleton] at hrest
    rw [List.append_assoc, List.cons_append, stringAt, load_eq, Res.ok_bind,
      if_neg (hs b List.mem_cons_self), hrest]
    rfl

/-- A text is looked for in a buffer that has a terminator. -/
theorem beginsAt_eq {rest text : List UInt8} (h : 0 ∈ rest) (htext : ∀ b ∈ text, b ≠ 0) :
    beginsAt (front ++ rest) front.length text = .ok (decide (text <+: rest)) := by
  induction text generalizing front rest with
  | nil => simp [beginsAt]
  | cons b text ih =>
    cases rest with
    | nil => cases h
    | cons a rest =>
      have hb : b ≠ 0 := htext b List.mem_cons_self
      rw [beginsAt, load_eq, Res.ok_bind]
      by_cases hab : a = b
      · subst hab
        have hrest := @ih (front ++ [a]) rest ((List.mem_cons.1 h).resolve_left (Ne.symm hb))
          fun c hc => htext c (List.mem_cons_of_mem _ hc)
        simp only [List.append_assoc, List.singleton_append, List.length_append,
          List.length_singleton] at hrest
        rw [if_pos rfl, hrest]
        simp [List.cons_prefix_cons]
      · rw [if_neg hab]
        simp [List.cons_prefix_cons, Ne.symm hab]

end

end Buffer
