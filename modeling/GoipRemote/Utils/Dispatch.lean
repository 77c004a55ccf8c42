import GoipRemote.Utils.PollRefine

/-!
# Which callbacks a pass of `dispatch_sock_events` invokes

`Dispatch` is a pass whose callbacks register and unregister as the scripts say, with a log of the
callbacks invoked and the entries unregistered. `Genuine` is what a pass should do: invoke a
callback for an entry that was there when `poll` ran, is still there, and was reported; and once.

The loop counts only the entries it finds alive, so one more entry is visited for each reported
entry that an earlier callback unregistered, and those behind the entries `poll` saw have whatever
`revents` their memory held (`register_sock` does not set it). `dispatch_genuine_iff` is what that
memory must hold.
-/

namespace Utils

open Function

variable {γ κ : Type}

/-- What a callback does to the table. -/
inductive PollCall (γ κ : Type) where
  | register (sock : Int) (events : BitVec 32) (inst : γ) (callBack : κ)
  | unregister (sock : Int) (inst : γ) (callBack : κ)

/-- What is seen of a pass: the callback of entry `i` was invoked, entry `i` being `r`, or the entry
was unregistered. -/
inductive DispatchEvent (γ κ : Type) where
  | called (i : Nat) (r : Int × γ × κ) (events : BitVec 32)
  | dropped (i : Nat)
  deriving DecidableEq, Repr

/-- A pass: the table, the events with the newest first, and the calls that the callbacks to come
will make. -/
structure Dispatch (γ κ : Type) where
  table : PollTable γ κ
  log : List (DispatchEvent γ κ)
  scripts : List (List (PollCall γ κ))

section
variable [DecidableEq γ] [DecidableEq κ]

/-- One call of a callback, with `realloc` succeeding. -/
def PollCall.run (w : Dispatch γ κ) : PollCall γ κ → Dispatch γ κ
  | .register sock events inst callBack =>
    { w with table := (registerSock (true, true) w.table sock events inst callBack).1 }
  | .unregister sock inst callBack =>
    { w with
      table := unregisterSock w.table sock inst callBack
      log := ((findRegisteredSock w.table sock inst callBack).map .dropped).toList ++ w.log }

/-- The callback of entry `i`: it makes the calls of the next script. -/
def Dispatch.call (i : Nat) (events : BitVec 32) (w : Dispatch γ κ) : Dispatch γ κ :=
  (w.scripts.headD []).foldl PollCall.run
    { w with
      log := .called i (w.table.regAt i).key events :: w.log
      scripts := w.scripts.tail }

/-- The pass after a `poll` that left the table `s`. -/
def Dispatch.pass (s : PollTable γ κ) (scripts : List (List (PollCall γ κ))) : Dispatch γ κ :=
  dispatchSockEvents Dispatch.table (fun w s => { w with table := s }) Dispatch.call s.reported
    ⟨s, [], scripts⟩

/-- Every callback of the log is of an entry that `s`, the table that `poll` left, holds, that has
not been unregistered, and that reported the events; and it is the first of that entry. -/
def Genuine (s : PollTable γ κ) : List (DispatchEvent γ κ) → Prop
  | [] => True
  | .dropped _ :: log => Genuine s log
  | .called i r events :: log =>
    (i < s.pfdCount ∧ 0 ≤ (s.pfdList i).fd ∧ r = (s.regAt i).key ∧ .dropped i ∉ log ∧
      events = sockEvents (s.pfdList i).revents ∧ events ≠ 0 ∧
      ∀ r' events', .called i r' events' ∉ log) ∧ Genuine s log

/-- The visit of an entry in a pass. -/
abbrev Dispatch.entry (i : Nat) (w : Dispatch γ κ) : Dispatch γ κ :=
  dispatchEntry Dispatch.table (fun w s => { w with table := s }) Dispatch.call i w

/-- The pass over the entries `is` as it is meant: a visit to each that was reported and has not
been unregistered, and the number of these visits. -/
def Dispatch.visit : List Nat → Dispatch γ κ → Dispatch γ κ × Nat
  | [], w => (w, 0)
  | i :: is, w =>
    if w.table.ready i then
      let (w, n) := visit is (w.entry i)
      (w, n + 1)
    else visit is w

/-- Once the entries that `poll` saw are done, of those that callbacks have added, are still there
and hold stale events, as many as reported entries were lost have no event that is passed on. -/
def StaleQuiet (s : PollTable γ κ) (scripts : List (List (PollCall γ κ))) : Prop :=
  let (w, visits) := Dispatch.visit (List.range s.pfdCount) ⟨s, [], scripts⟩
  let added := List.range' s.pfdCount (w.table.pfdCount - s.pfdCount)
  let stale := added.filter fun j => (s.pfdList j).revents ≠ 0 ∧ (w.table.pfdList j).fd ≥ 0
  ∀ j ∈ stale.take (s.reported - visits), sockEvents (s.pfdList j).revents = 0

/-! ## What a callback can do -/

/-- What no callback changes: the entries keep their places, their stale events and, while they are
there, their keys; and what is dropped stays dropped. -/
structure Kept (s s' : PollTable γ κ) : Prop where
  count : s.pfdCount ≤ s'.pfdCount
  revents : ∀ j, (s'.pfdList j).revents = (s.pfdList j).revents
  callBacks : ∀ j < s.pfdCount, s'.pfdCallBacks j = s.pfdCallBacks j
  fd : ∀ j < s.pfdCount, (s'.pfdList j).fd = (s.pfdList j).fd ∨ (s'.pfdList j).fd = -1

omit [DecidableEq γ] [DecidableEq κ] in
theorem Kept.refl (s : PollTable γ κ) : Kept s s :=
  ⟨le_rfl, fun _ => rfl, fun _ _ => rfl, fun _ _ => .inl rfl⟩

omit [DecidableEq γ] [DecidableEq κ] in
theorem Kept.trans {s s' s'' : PollTable γ κ} (h : Kept s s') (h' : Kept s' s'') : Kept s s'' where
  count := h.count.trans h'.count
  revents := fun j => (h'.revents j).trans (h.revents j)
  callBacks := fun j hj =>
    (h'.callBacks j (Nat.lt_of_lt_of_le hj h.count)).trans (h.callBacks j hj)
  fd := fun j hj => by
    rcases h'.fd j (Nat.lt_of_lt_of_le hj h.count) with h1 | h1
    · rw [h1]
      exact h.fd j hj
    · exact .inr h1

omit [DecidableEq γ] [DecidableEq κ] in
theorem kept_drop (s : PollTable γ κ) (i : Nat) : Kept s (s.drop i) := by
  refine ⟨le_rfl, fun j => ?_, fun _ _ => rfl, fun j _ => ?_⟩ <;> by_cases hj : j = i <;>
    simp [PollTable.drop, hj]

theorem kept_register (s : PollTable γ κ) (sock : Int) (events : BitVec 32) (inst : γ)
    (callBack : κ) : Kept s (registerSock (true, true) s sock events inst callBack).1 := by
  unfold registerSock
  cases hf : findRegisteredSock s sock inst callBack with
  | some i =>
    refine ⟨le_rfl, fun j => ?_, fun _ _ => rfl, fun j _ => .inl ?_⟩ <;> by_cases hj : j = i <;>
      simp [hj]
  | none =>
    simp only [and_self, not_true_eq_false, and_false, if_false]
    refine ⟨Nat.le_succ _, fun j => ?_, fun j hj => ?_, fun j hj => .inl ?_⟩
    · by_cases hj : j = s.pfdCount <;> simp [hj]
    · exact update_of_ne (Nat.ne_of_lt hj) _ _
    · show (update s.pfdList s.pfdCount _ j).fd = _
      rw [update_of_ne (Nat.ne_of_lt hj)]

/-- The log of a callback's calls: entries unregistered, which are gaps afterwards. -/
structure Ran (w w' : Dispatch γ κ) : Prop where
  kept : Kept w.table w'.table
  log : ∃ new, w'.log = new ++ w.log ∧ ∀ e ∈ new, ∃ j, e = .dropped j ∧ (w'.table.pfdList j).fd = -1 ∧
    j < w'.table.pfdCount

omit [DecidableEq γ] [DecidableEq κ] in
theorem Ran.trans {w w' w'' : Dispatch γ κ} (h : Ran w w') (h' : Ran w' w'') : Ran w w'' := by
  obtain ⟨new, hnew, hd⟩ := h.log
  obtain ⟨new', hnew', hd'⟩ := h'.log
  refine ⟨h.kept.trans h'.kept, new' ++ new, by rw [hnew', hnew, List.append_assoc], fun e he => ?_⟩
  rcases List.mem_append.1 he with he | he
  · exact hd' e he
  · obtain ⟨j, rfl, hj, hlt⟩ := hd e he
    refine ⟨j, rfl, ?_, Nat.lt_of_lt_of_le hlt h'.kept.count⟩
    rcases h'.kept.fd j hlt with h1 | h1
    · rw [h1, hj]
    · exact h1

theorem run_ran (w : Dispatch γ κ) (c : PollCall γ κ) : Ran w (c.run w) := by
  cases c with
  | register sock events inst callBack =>
    exact ⟨kept_register .., [], rfl, by simp⟩
  | unregister sock inst callBack =>
    simp only [PollCall.run, unregisterSock]
    cases hf : findRegisteredSock w.table sock inst callBack with
    | none => exact ⟨Kept.refl _, [], rfl, by simp⟩
    | some i =>
      refine ⟨kept_drop .., [.dropped i], rfl, fun e he => ?_⟩
      exact ⟨i, List.mem_singleton.1 he, by simp [PollTable.drop], (findRegisteredSock_some hf).1⟩

theorem runs_ran (cs : List (PollCall γ κ)) (w : Dispatch γ κ) : Ran w (cs.foldl PollCall.run w) := by
  induction cs generalizing w with
  | nil => exact ⟨Kept.refl _, [], rfl, by simp⟩
  | cons c cs ih => exact (run_ran w c).trans (ih _)

/-! ## The visit of an entry -/

omit [DecidableEq γ] [DecidableEq κ] in
theorem Genuine.append {s : PollTable γ κ} : ∀ {new old : List (DispatchEvent γ κ)},
    Genuine s (new ++ old) → Genuine s old
  | [], _, h => h
  | .dropped _ :: new, old, h => Genuine.append (show Genuine s (new ++ old) from h)
  | .called .. :: new, old, h => Genuine.append (show Genuine s (new ++ old) from h.2)

omit [DecidableEq γ] [DecidableEq κ] in
/-- Entries unregistered do not matter for the log so far. -/
theorem Genuine.dropped {s : PollTable γ κ} {new old : List (DispatchEvent γ κ)}
    (hnew : ∀ e ∈ new, ∃ j, e = .dropped j) (h : Genuine s old) : Genuine s (new ++ old) := by
  induction new with
  | nil => exact h
  | cons e new ih =>
    obtain ⟨j, rfl⟩ := hnew e List.mem_cons_self
    exact ih fun e he => hnew e (List.mem_cons_of_mem _ he)

omit [DecidableEq γ] [DecidableEq κ] in
theorem Genuine.lt {s : PollTable γ κ} : ∀ {log : List (DispatchEvent γ κ)} {i : Nat}
    {r : Int × γ × κ} {events : BitVec 32}, Genuine s log → .called i r events ∈ log →
    i < s.pfdCount
  | .dropped _ :: log, i, r, events, h, hm =>
    (show Genuine s log from h).lt ((List.mem_cons.1 hm).resolve_left (by simp))
  | .called .. :: log, i, r, events, h, hm => by
    rcases List.mem_cons.1 hm with heq | hm
    · cases heq
      exact h.1.1
    · exact Genuine.lt h.2 hm

/-- The visit of an entry: its callback, if there is an event to pass on, and `revents = 0`. -/
theorem entry_spec (w : Dispatch γ κ) (i : Nat) :
    (w.table.pfdCount ≤ (w.entry i).table.pfdCount) ∧
    (∀ j, ((w.entry i).table.pfdList j).revents =
      if j = i then 0 else (w.table.pfdList j).revents) ∧
    (∀ j < w.table.pfdCount, (w.entry i).table.pfdCallBacks j = w.table.pfdCallBacks j) ∧
    (∀ j < w.table.pfdCount, ((w.entry i).table.pfdList j).fd = (w.table.pfdList j).fd ∨
      ((w.entry i).table.pfdList j).fd = -1) ∧
    ∃ new : List (DispatchEvent γ κ), (∀ e ∈ new, ∃ j, e = .dropped j ∧
        ((w.entry i).table.pfdList j).fd = -1 ∧ j < (w.entry i).table.pfdCount) ∧
      (w.entry i).log = new ++
        if sockEvents (w.table.pfdList i).revents = 0 then w.log
        else .called i (w.table.regAt i).key (sockEvents (w.table.pfdList i).revents) :: w.log := by
  -- the callback
  obtain ⟨w₁, hw₁, hk, new, hlog, hnew⟩ : ∃ w₁ : Dispatch γ κ,
      (if sockEvents (w.table.pfdList i).revents ≠ 0 then
        w.call i (sockEvents (w.table.pfdList i).revents) else w) = w₁ ∧
      Kept w.table w₁.table ∧ ∃ new : List (DispatchEvent γ κ), w₁.log = new ++
        (if sockEvents (w.table.pfdList i).revents = 0 then w.log
        else .called i (w.table.regAt i).key (sockEvents (w.table.pfdList i).revents) :: w.log) ∧
        ∀ e ∈ new, ∃ j, e = .dropped j ∧ (w₁.table.pfdList j).fd = -1 ∧
          j < w₁.table.pfdCount := by
    refine ⟨_, rfl, ?_⟩
    split
    · obtain ⟨hk, new, hlog, hnew⟩ := runs_ran (w.scripts.headD [])
        { w with
          log := .called i (w.table.regAt i).key (sockEvents (w.table.pfdList i).revents) :: w.log
          scripts := w.scripts.tail }
      exact ⟨hk, new, hlog, hnew⟩
    · rename_i hev
      exact ⟨Kept.refl _, [], by rw [if_pos (not_not.1 hev)]; rfl, by simp⟩
  have hentry : w.entry i = { w₁ with
      table := { w₁.table with
        pfdList := update w₁.table.pfdList i { w₁.table.pfdList i with revents := 0 } } } := by
    rw [← hw₁]
    rfl
  have hfd : ∀ j, ((w.entry i).table.pfdList j).fd = (w₁.table.pfdList j).fd := fun j => by
    by_cases hj : j = i <;> simp [hentry, hj]
  rw [hentry] at hfd ⊢
  refine ⟨hk.count, fun j => ?_, hk.callBacks, fun j hj => ?_, new, fun e he => ?_, hlog⟩
  · by_cases hj : j = i <;> simp [hj, hk.revents]
  · rw [hfd]
    exact hk.fd j hj
  · obtain ⟨j, rfl, hj, hlt⟩ := hnew e he
    exact ⟨j, rfl, by rw [hfd, hj], hlt⟩

/-- A pass that has done the entries below `i` of those that `poll` saw, in the table `s`. -/
structure Visited (s : PollTable γ κ) (i : Nat) (w : Dispatch γ κ) : Prop where
  count : s.pfdCount ≤ w.table.pfdCount
  revents : ∀ j, i ≤ j → (w.table.pfdList j).revents = (s.pfdList j).revents
  callBacks : ∀ j < s.pfdCount, w.table.pfdCallBacks j = s.pfdCallBacks j
  fd : ∀ j < s.pfdCount, (w.table.pfdList j).fd = (s.pfdList j).fd ∨ (w.table.pfdList j).fd = -1
  dropped : ∀ j, .dropped j ∈ w.log → (w.table.pfdList j).fd = -1 ∧ j < w.table.pfdCount
  called : ∀ j r events, .called j r events ∈ w.log → j < i
  genuine : Genuine s w.log

section
variable {s : PollTable γ κ} {i : Nat} {w : Dispatch γ κ}

omit [DecidableEq γ] [DecidableEq κ] in
theorem Visited.skip (h : Visited s i w) : Visited s (i + 1) w :=
  { h with
    revents := fun j hj => h.revents j (Nat.le_of_succ_le hj)
    called := fun j r events hm => Nat.lt_succ_of_lt (h.called j r events hm) }

/-- **Step lemma.** A visit to an entry that `poll` saw. -/
theorem Visited.entry (h : Visited s i w) (hi : i < s.pfdCount) (hready : w.table.ready i = true) :
    Visited s (i + 1) (w.entry i) := by
  obtain ⟨hcount, hrev, hcb, hfd, new, hnew, hlog⟩ := entry_spec w i
  obtain ⟨hre, hge⟩ : (w.table.pfdList i).revents ≠ 0 ∧ (w.table.pfdList i).fd ≥ 0 :=
    of_decide_eq_true hready
  -- the entry is the one that `poll` saw
  have hfdi : (w.table.pfdList i).fd = (s.pfdList i).fd := (h.fd i hi).resolve_right (by omega)
  have hkey : (w.table.regAt i).key = (s.regAt i).key := by
    simp only [PollTable.regAt, Reg.key, hfdi, h.callBacks i hi]
  have hold : ∀ j, .dropped j ∈ w.log → ((w.entry i).table.pfdList j).fd = -1 ∧
      j < (w.entry i).table.pfdCount := fun j hj => by
    obtain ⟨h1, h2⟩ := h.dropped j hj
    refine ⟨?_, Nat.lt_of_lt_of_le h2 hcount⟩
    rcases hfd j h2 with h3 | h3
    · rw [h3, h1]
    · exact h3
  refine ⟨h.count.trans hcount, fun j hj => ?_, fun j hj => ?_, fun j hj => ?_, fun j hj => ?_,
    fun j r events hm => ?_, ?_⟩
  · rw [hrev, if_neg (by omega), h.revents j (by omega)]
  · rw [hcb j (Nat.lt_of_lt_of_le hj h.count), h.callBacks j hj]
  · rcases hfd j (Nat.lt_of_lt_of_le hj h.count) with h1 | h1
    · rw [h1]
      exact h.fd j hj
    · exact .inr h1
  · rw [hlog] at hj
    rcases List.mem_append.1 hj with hj | hj
    · obtain ⟨j', heq, hj'⟩ := hnew _ hj
      cases heq
      exact hj'
    · split at hj
      · exact hold j hj
      · exact hold j ((List.mem_cons.1 hj).resolve_left (by simp))
  · rw [hlog] at hm
    rcases List.mem_append.1 hm with hm | hm
    · obtain ⟨j', heq, -⟩ := hnew _ hm
      cases heq
    · split at hm
      · exact Nat.lt_succ_of_lt (h.called j r events hm)
      · rcases List.mem_cons.1 hm with heq | hm
        · cases heq
          exact Nat.lt_succ_self _
        · exact Nat.lt_succ_of_lt (h.called j r events hm)
  · rw [hlog]
    refine Genuine.dropped (fun e he => ?_) ?_
    · obtain ⟨j, rfl, -⟩ := hnew e he
      exact ⟨j, rfl⟩
    · split
      · exact h.genuine
      · rename_i hev
        refine ⟨⟨hi, by omega, hkey, fun hm => ?_, ?_, hev, fun r' events' hm => ?_⟩, h.genuine⟩
        · have := (h.dropped i hm).1
          omega
        · rw [h.revents i le_rfl]
        · exact absurd (h.called i r' events' hm) (Nat.lt_irrefl i)

end

/-! ## The loop -/

/-- The loop of `dispatch_sock_events`. -/
abbrev Dispatch.loop (n i : Nat) (w : Dispatch γ κ) : Dispatch γ κ :=
  dispatchLoop Dispatch.table (fun w s => { w with table := s }) Dispatch.call n i w

theorem loop_ready {w : Dispatch γ κ} {i : Nat} (n : Nat) (hi : i < w.table.pfdCount)
    (h : w.table.ready i = true) :
    Dispatch.loop (n + 1) i w = Dispatch.loop n (i + 1) (w.entry i) := by
  have hr : List.range' i (w.table.pfdCount - i) =
      i :: List.range' (i + 1) (w.table.pfdCount - (i + 1)) := by
    rw [show w.table.pfdCount - i = w.table.pfdCount - (i + 1) + 1 by omega, List.range'_succ]
  simp only [Dispatch.loop, dispatchLoop, hr, List.find?_cons_of_pos h]

theorem loop_skip {w : Dispatch γ κ} {i : Nat} (n : Nat) (hi : i < w.table.pfdCount)
    (h : w.table.ready i = false) : Dispatch.loop n i w = Dispatch.loop n (i + 1) w := by
  have hr : List.range' i (w.table.pfdCount - i) =
      i :: List.range' (i + 1) (w.table.pfdCount - (i + 1)) := by
    rw [show w.table.pfdCount - i = w.table.pfdCount - (i + 1) + 1 by omega, List.range'_succ]
  cases n with
  | zero => rfl
  | succ n =>
    simp only [Dispatch.loop, dispatchLoop, hr]
    rw [List.find?_cons_of_neg (by simp [h])]

/-- A visit readies no other entry. -/
theorem ready_entry {s : PollTable γ κ} {i j : Nat} {w : Dispatch γ κ} (h : Visited s i w)
    (hj : j < s.pfdCount) (hij : i < j) (hr : (w.entry i).table.ready j = true) :
    w.table.ready j = true := by
  obtain ⟨-, hrev, -, hfd, -⟩ := entry_spec w i
  obtain ⟨h1, h2⟩ : ((w.entry i).table.pfdList j).revents ≠ 0 ∧
      ((w.entry i).table.pfdList j).fd ≥ 0 := of_decide_eq_true hr
  rw [hrev, if_neg (by omega)] at h1
  refine decide_eq_true ⟨h1, ?_⟩
  rcases hfd j (Nat.lt_of_lt_of_le hj h.count) with h3 | h3 <;> omega

/-- **The entries that `poll` saw.** The loop makes the visits it is meant to make, and has the
rest of its count left for the entries behind them. -/
theorem loop_visit {s : PollTable γ κ} : ∀ (m i n : Nat) (w : Dispatch γ κ), i + m = s.pfdCount →
    Visited s i w → ((List.range' i m).countP w.table.ready) ≤ n →
    Dispatch.loop n i w = Dispatch.loop (n - (Dispatch.visit (List.range' i m) w).2) s.pfdCount
        (Dispatch.visit (List.range' i m) w).1 ∧
      Visited s s.pfdCount (Dispatch.visit (List.range' i m) w).1
  | 0, i, n, w, him, h, _ => by
    have hi : i = s.pfdCount := by omega
    subst hi
    exact ⟨rfl, h⟩
  | m + 1, i, n, w, him, h, hn => by
    have hi : i < s.pfdCount := by omega
    have hi' : i < w.table.pfdCount := Nat.lt_of_lt_of_le hi h.count
    rw [List.range'_succ] at hn ⊢
    cases hr : w.table.ready i with
    | false =>
      rw [List.countP_cons_of_neg (by simp [hr])] at hn
      obtain ⟨h1, h2⟩ := loop_visit m (i + 1) n w (by omega) h.skip hn
      rw [loop_skip n hi' hr]
      simp only [Dispatch.visit, hr, Bool.false_eq_true, if_false]
      exact ⟨h1, h2⟩
    | true =>
      rw [List.countP_cons_of_pos hr] at hn
      obtain ⟨n, rfl⟩ : ∃ k, n = k + 1 := ⟨n - 1, by omega⟩
      have hcount : (List.range' (i + 1) m).countP (w.entry i).table.ready ≤ n := by
        refine Nat.le_trans (List.countP_mono_left fun j hj hrj => ?_) (Nat.le_of_succ_le_succ hn)
        have := List.mem_range'_1.1 hj
        exact ready_entry h (by omega) (by omega) hrj
      obtain ⟨h1, h2⟩ := loop_visit m (i + 1) n (w.entry i) (by omega) (h.entry hi hr) hcount
      rw [loop_ready n hi' hr]
      simp only [Dispatch.visit, hr, if_true, Nat.add_sub_add_right]
      exact ⟨h1, h2⟩

theorem entry_log (w : Dispatch γ κ) (i : Nat) : ∃ new, (w.entry i).log = new ++ w.log := by
  obtain ⟨-, -, -, -, new, -, hlog⟩ := entry_spec w i
  rw [hlog]
  split
  · exact ⟨new, rfl⟩
  · exact ⟨new ++ [_], by rw [List.append_assoc]; rfl⟩

theorem loop_log : ∀ (n i : Nat) (w : Dispatch γ κ), ∃ new, (Dispatch.loop n i w).log = new ++ w.log
  | 0, _, _ => ⟨[], rfl⟩
  | n + 1, i, w => by
    simp only [Dispatch.loop, dispatchLoop]
    split
    · exact ⟨[], rfl⟩
    · rename_i j _
      obtain ⟨new, hnew⟩ := loop_log n (j + 1) (w.entry j)
      obtain ⟨new', hnew'⟩ := entry_log w j
      exact ⟨new ++ new', by rw [List.append_assoc, ← hnew']; exact hnew⟩

/-- **The entries behind those that `poll` saw.** The loop leaves the log alone if the first `n`
that are ready have no event to pass on, and else it invokes the callback of one of them. -/
theorem loop_stale : ∀ (m i n : Nat) (w : Dispatch γ κ), i + m = w.table.pfdCount →
    (∀ j ∈ ((List.range' i m).filter w.table.ready).take n,
        sockEvents (w.table.pfdList j).revents = 0) ∧ (Dispatch.loop n i w).log = w.log ∨
    (∃ j ∈ ((List.range' i m).filter w.table.ready).take n,
        sockEvents (w.table.pfdList j).revents ≠ 0) ∧
      ∃ j r events, i ≤ j ∧ .called j r events ∈ (Dispatch.loop n i w).log
  | _, _, 0, _, _ => .inl ⟨by simp, rfl⟩
  | 0, i, n + 1, w, him => by
    refine .inl ⟨by simp, ?_⟩
    have hi : w.table.pfdCount - i = 0 := by omega
    simp [Dispatch.loop, dispatchLoop, hi]
  | m + 1, i, n + 1, w, him => by
    have hi : i < w.table.pfdCount := by omega
    rw [List.range'_succ]
    cases hr : w.table.ready i with
    | false =>
      rw [List.filter_cons_of_neg (by simp [hr]), loop_skip (n + 1) hi hr]
      refine (loop_stale m (i + 1) (n + 1) w (by omega)).imp id ?_
      rintro ⟨h, j, r, events, hj, hm⟩
      exact ⟨h, j, r, events, Nat.le_of_succ_le hj, hm⟩
    | true =>
      rw [List.filter_cons_of_pos hr, List.take_succ_cons, loop_ready n hi hr]
      by_cases hev : sockEvents (w.table.pfdList i).revents = 0
      · -- the visit only clears the entry's events
        have hentry : w.entry i = { w with
            table := { w.table with
              pfdList := update w.table.pfdList i { w.table.pfdList i with revents := 0 } } } := by
          simp [Dispatch.entry, dispatchEntry, hev]
        have hat : ∀ j ∈ List.range' (i + 1) m,
            (w.entry i).table.pfdList j = w.table.pfdList j := fun j hj => by
          have := (List.mem_range'_1.1 hj).1
          rw [hentry]
          exact update_of_ne (by omega) _ _
        have hready : (List.range' (i + 1) m).filter (w.entry i).table.ready =
            (List.range' (i + 1) m).filter w.table.ready :=
          List.filter_congr fun j hj => by simp only [PollTable.ready, hat j hj]
        have hlog : (w.entry i).log = w.log := by rw [hentry]
        have hrest : ∀ j ∈ ((List.range' (i + 1) m).filter w.table.ready).take n,
            (w.entry i).table.pfdList j = w.table.pfdList j := fun j hj =>
          hat j (List.mem_filter.1 (List.mem_of_mem_take hj)).1
        have ih := loop_stale m (i + 1) n (w.entry i) (by rw [hentry]; show _ = w.table.pfdCount; omega)
        rw [hready, hlog] at ih
        rcases ih with ⟨h1, h2⟩ | ⟨⟨j, hj, h1⟩, h2⟩
        · refine .inl ⟨fun j hj => ?_, h2⟩
          rcases List.mem_cons.1 hj with rfl | hj
          · exact hev
          · rw [← hrest j hj]
            exact h1 j hj
        · obtain ⟨j', r, events, hj', hm⟩ := h2
          refine .inr ⟨⟨j, List.mem_cons_of_mem _ hj, ?_⟩, j', r, events, Nat.le_of_succ_le hj', hm⟩
          rw [← hrest j hj]
          exact h1
      · obtain ⟨-, -, -, -, new, -, hlog⟩ := entry_spec w i
        obtain ⟨new', hnew'⟩ := loop_log n (i + 1) (w.entry i)
        rw [if_neg hev] at hlog
        refine .inr ⟨⟨i, List.mem_cons_self, hev⟩, i, (w.table.regAt i).key,
          sockEvents (w.table.pfdList i).revents, le_rfl, ?_⟩
        rw [hnew', hlog]
        simp

/-- **When a pass is genuine.** For every table, every report of `poll` and every behaviour of the
callbacks, a pass invokes callbacks only for entries that were there when `poll` ran, are still
there and were reported, each at most once, if and only if the memory behind the table is quiet. -/
theorem dispatch_genuine_iff (s : PollTable γ κ) (rev : Nat → BitVec 16)
    (scripts : List (List (PollCall γ κ))) :
    Genuine (s.poll rev) (Dispatch.pass (s.poll rev) scripts).log ↔
      StaleQuiet (s.poll rev) scripts := by
  generalize s.poll rev = s
  have hstart : Visited s 0 (⟨s, [], scripts⟩ : Dispatch γ κ) :=
    ⟨le_rfl, fun _ _ => rfl, fun _ _ => rfl, fun _ _ => .inl rfl, by simp, by simp, trivial⟩
  have hn : (List.range' 0 s.pfdCount).countP s.ready ≤ s.reported := by
    rw [PollTable.reported, List.range_eq_range']
    exact List.countP_mono_left fun j _ hj => decide_eq_true (of_decide_eq_true hj).1
  obtain ⟨hloop, hvis⟩ := loop_visit s.pfdCount 0 s.reported _ (Nat.zero_add _) hstart hn
  rw [← List.range_eq_range'] at hloop hvis
  unfold StaleQuiet
  generalize Dispatch.visit (List.range s.pfdCount) (⟨s, [], scripts⟩ : Dispatch γ κ) = v at *
  obtain ⟨w, visits⟩ := v
  dsimp only at hloop hvis ⊢
  have hpass : Dispatch.pass s scripts = Dispatch.loop (s.reported - visits) s.pfdCount w := hloop
  rw [hpass]
  -- behind the table, the events are those that the memory held
  have hstale : (List.range' s.pfdCount (w.table.pfdCount - s.pfdCount)).filter (fun j =>
        (s.pfdList j).revents ≠ 0 ∧ (w.table.pfdList j).fd ≥ 0) =
      (List.range' s.pfdCount (w.table.pfdCount - s.pfdCount)).filter w.table.ready :=
    List.filter_congr fun j hj => by
      simp only [PollTable.ready, hvis.revents j (List.mem_range'_1.1 hj).1]
  have hevents : ∀ j ∈ ((List.range' s.pfdCount (w.table.pfdCount - s.pfdCount)).filter
      w.table.ready).take (s.reported - visits), (w.table.pfdList j).revents = (s.pfdList j).revents :=
    fun j hj => hvis.revents j
      (List.mem_range'_1.1 (List.mem_filter.1 (List.mem_of_mem_take hj)).1).1
  rw [hstale]
  rcases loop_stale (w.table.pfdCount - s.pfdCount) s.pfdCount (s.reported - visits) w
    (Nat.add_sub_of_le hvis.count) with ⟨hq, hlog⟩ | ⟨⟨j, hj, hne⟩, j', r, events, hj', hm⟩
  · rw [hlog]
    exact ⟨fun _ j hj => hevents j hj ▸ hq j hj, fun _ => hvis.genuine⟩
  · refine ⟨?_, ?_⟩
    · intro hg
      exact absurd (hg.lt hm) (Nat.not_lt.2 hj')
    · intro hq
      exact absurd (hevents j hj ▸ hq j hj) hne

end

/-- Two registrations, made with a third that was reported in a pass whose first callback
unregistered it. -/
def staleTable : PollTable Nat Nat :=
  let s := [PollOp.register 5 1 0 0, .register 6 1 0 0, .register 7 1 0 0].foldl PollTable.step
    (PollTable.init (fun _ => ⟨0, 0, 0⟩) fun _ => ⟨0, 0⟩)
  pfdDefragGuarded (Dispatch.pass (s.poll fun _ => pollin) [[.unregister 7 0 0]]).table

/-- Both are reported, and the callback of the first unregisters the second and registers `8`: the
loop then invokes the callback of `8`, which `poll` has not seen. -/
theorem dispatch_calls_unpolled :
    ¬ Genuine (staleTable.poll fun _ => pollin)
      (Dispatch.pass (staleTable.poll fun _ => pollin)
        [[.unregister 6 0 0, .register 8 1 0 0]]).log := by
  intro h
  have hm : DispatchEvent.called 2 (8, 0, 0) sockin ∈ (Dispatch.pass (staleTable.poll fun _ => pollin)
      [[.unregister 6 0 0, .register 8 1 0 0]]).log := by decide
  exact absurd (h.lt hm) (by decide)

end Utils
