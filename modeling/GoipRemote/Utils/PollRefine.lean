import GoipRemote.Utils.PollTable
import Mathlib.Tactic

/-!
# The poll table refines an ordered set of registrations

`Registrations` is what the table is for: a list of registrations with distinct keys, where the key
is what `find_registered_sock` compares. `PollTable.live` reads it off a table, and every operation
on tables is the one of the same name on registrations (`registerSock_live`, `unregisterSock_live`,
`unregisterObject_live`, `pfdDefragGuarded_live`).

`pfdDefragment` without a gap would empty the table, so the guard of `app_run` has to imply that
there is one: `Gap`, which every operation keeps.
-/

namespace Utils

open Function

variable {γ κ : Type}

/-- A registration. -/
structure Reg (γ κ : Type) where
  fd : Int
  ctxt : γ
  callBack : κ
  events : BitVec 16
  deriving DecidableEq, Repr

/-- What `find_registered_sock` compares. -/
def Reg.key (r : Reg γ κ) : Int × γ × κ := (r.fd, r.ctxt, r.callBack)

/-- Registrations in the order they were made. -/
structure Registrations (γ κ : Type) where
  list : List (Reg γ κ)
  nodup : (list.map Reg.key).Nodup
  fd_ne : ∀ r ∈ list, r.fd ≠ -1

namespace Registrations

def empty : Registrations γ κ := ⟨[], List.nodup_nil, by simp⟩

/-- Keep what satisfies `p`. -/
def filter (R : Registrations γ κ) (p : Reg γ κ → Bool) : Registrations γ κ where
  list := R.list.filter p
  nodup := R.nodup.sublist (List.filter_sublist.map _)
  fd_ne := fun r hr => R.fd_ne r (List.mem_filter.1 hr).1

variable [DecidableEq γ] [DecidableEq κ]

/-- Without the registration of a key. -/
def unregister (R : Registrations γ κ) (k : Int × γ × κ) : Registrations γ κ :=
  R.filter fun r => r.key ≠ k

/-- Without the registrations of a context. -/
def unregisterObject (R : Registrations γ κ) (object : γ) : Registrations γ κ :=
  R.filter fun r => r.ctxt ≠ object

/-- The mask of a registration with key `k` replaced. -/
def remask (k : Int × γ × κ) (events : BitVec 16) (r : Reg γ κ) : Reg γ κ :=
  if r.key = k then { r with events := events } else r

theorem remask_key (k : Int × γ × κ) (events : BitVec 16) (r : Reg γ κ) :
    (remask k events r).key = r.key := by
  unfold remask
  split <;> rfl

theorem remask_fd (k : Int × γ × κ) (events : BitVec 16) (r : Reg γ κ) :
    (remask k events r).fd = r.fd := congrArg Prod.fst (remask_key k events r)

/-- With the mask of an existing key changed, or a new registration at the end. -/
def register (R : Registrations γ κ) (x : Reg γ κ) (hx : x.fd ≠ -1) : Registrations γ κ :=
  if h : x.key ∈ R.list.map Reg.key then
    { list := R.list.map (remask x.key x.events)
      nodup := by
        rw [List.map_map, show Reg.key ∘ remask x.key x.events = Reg.key from
          funext (remask_key x.key x.events)]
        exact R.nodup
      fd_ne := fun r hr => by
        obtain ⟨r', hr', rfl⟩ := List.mem_map.1 hr
        rw [remask_fd]
        exact R.fd_ne r' hr' }
  else
    { list := R.list ++ [x]
      nodup := by
        rw [List.map_append, List.nodup_append]
        refine ⟨R.nodup, by simp, fun k hk k' hk' => ?_⟩
        rw [List.mem_singleton.1 hk']
        rintro rfl
        exact h hk
      fd_ne := fun r hr => by
        rcases List.mem_append.1 hr with hr | hr
        · exact R.fd_ne r hr
        · rw [List.mem_singleton.1 hr]
          exact hx }

theorem register_list_of_mem (R : Registrations γ κ) {x : Reg γ κ} (hx : x.fd ≠ -1)
    (h : x.key ∈ R.list.map Reg.key) :
    (R.register x hx).list = R.list.map (remask x.key x.events) := by rw [register, dif_pos h]

theorem register_list_of_notMem (R : Registrations γ κ) {x : Reg γ κ} (hx : x.fd ≠ -1)
    (h : x.key ∉ R.list.map Reg.key) : (R.register x hx).list = R.list ++ [x] := by
  rw [register, dif_neg h]

theorem mem_register (R : Registrations γ κ) {x : Reg γ κ} (hx : x.fd ≠ -1) (k : Int × γ × κ) :
    k ∈ (R.register x hx).list.map Reg.key ↔ k = x.key ∨ k ∈ R.list.map Reg.key := by
  by_cases h : x.key ∈ R.list.map Reg.key
  · rw [R.register_list_of_mem hx h, List.map_map,
      show Reg.key ∘ remask x.key x.events = Reg.key from funext (remask_key x.key x.events)]
    refine ⟨.inr, ?_⟩
    rintro (rfl | hk)
    · exact h
    · exact hk
  · rw [R.register_list_of_notMem hx h, List.map_append, List.mem_append, List.map_singleton,
      List.mem_singleton, or_comm]

theorem mem_unregister (R : Registrations γ κ) (k k' : Int × γ × κ) :
    k' ∈ (R.unregister k).list.map Reg.key ↔ k' ≠ k ∧ k' ∈ R.list.map Reg.key := by
  simp only [unregister, filter, List.mem_map, List.mem_filter, decide_eq_true_iff]
  refine ⟨?_, ?_⟩
  · rintro ⟨r, ⟨hr, hne⟩, rfl⟩
    exact ⟨hne, r, hr, rfl⟩
  · rintro ⟨hne, r, hr, rfl⟩
    exact ⟨r, ⟨hr, hne⟩, rfl⟩

end Registrations

/-! ## Reading a table -/

namespace PollTable

/-- Entry `i`. -/
def regAt (s : PollTable γ κ) (i : Nat) : Reg γ κ :=
  ⟨(s.pfdList i).fd, (s.pfdCallBacks i).ctxt, (s.pfdCallBacks i).callBack, (s.pfdList i).events⟩

/-- The entries in use, gaps included. -/
def slots (s : PollTable γ κ) : List (Reg γ κ) := (List.range s.pfdCount).map s.regAt

/-- The registrations: the entries whose `fd` is not `-1`. -/
def live (s : PollTable γ κ) : List (Reg γ κ) := s.slots.filter fun r => r.fd ≠ -1

/-- When the counter asks for a defragmentation, there is a gap to close. -/
def Gap (s : PollTable γ κ) : Prop := s.pfdDefrag ≠ 0 → ∃ r ∈ s.slots, r.fd = -1

end PollTable

/-- The table represents the registrations. -/
structure PollRep (s : PollTable γ κ) (R : Registrations γ κ) : Prop where
  live : s.live = R.list
  gap : s.Gap

section
variable {s s' : PollTable γ κ} {i : Nat}

theorem range_split {n i : Nat} (h : i < n) :
    List.range n = List.range i ++ i :: List.range' (i + 1) (n - (i + 1)) := by
  have hn : n = i + (n - (i + 1) + 1) := by omega
  calc List.range n = List.range' 0 (i + (n - (i + 1) + 1)) := by rw [← hn, List.range_eq_range']
    _ = List.range' 0 i ++ List.range' i (n - (i + 1) + 1) := by
      rw [← List.range'_append_1, Nat.zero_add]
    _ = List.range i ++ i :: List.range' (i + 1) (n - (i + 1)) := by
      rw [List.range_eq_range', List.range'_succ]

/-- Two tables that agree but at entry `i`. -/
theorem slots_split (hi : i < s.pfdCount) (hc : s'.pfdCount = s.pfdCount)
    (h : ∀ j, j ≠ i → s'.regAt j = s.regAt j) :
    s'.slots = (List.range i).map s.regAt ++ s'.regAt i ::
      (List.range' (i + 1) (s.pfdCount - (i + 1))).map s.regAt := by
  rw [PollTable.slots, hc, range_split hi, List.map_append, List.map_cons]
  congr 1
  · exact List.map_congr_left fun j hj => h j (Nat.ne_of_lt (List.mem_range.1 hj))
  · congr 1
    exact List.map_congr_left fun j hj => h j (Nat.ne_of_gt (List.mem_range'_1.1 hj).1)

theorem mem_slots {r : Reg γ κ} : r ∈ s.slots ↔ ∃ i < s.pfdCount, s.regAt i = r := by
  simp [PollTable.slots]

theorem regAt_drop (s : PollTable γ κ) (i : Nat) :
    (s.drop i).regAt = update s.regAt i { s.regAt i with fd := -1, events := 0 } := by
  funext j
  by_cases hj : j = i
  · subst hj
    simp [PollTable.regAt, PollTable.drop]
  · simp [PollTable.regAt, PollTable.drop, hj]

theorem drop_gap (hi : i < s.pfdCount) : (s.drop i).Gap := by
  intro _
  refine ⟨_, mem_slots.2 ⟨i, hi, rfl⟩, ?_⟩
  rw [regAt_drop, update_self]

variable [DecidableEq γ] [DecidableEq κ] {R : Registrations γ κ}

theorem findRegisteredSock_some {sock : Int} {inst : γ} {callBack : κ}
    (h : findRegisteredSock s sock inst callBack = some i) :
    i < s.pfdCount ∧ (s.regAt i).key = (sock, inst, callBack) ∧
      ∀ r ∈ (List.range i).map s.regAt, r.key ≠ (sock, inst, callBack) := by
  obtain ⟨hp, hi, hlt⟩ := List.find?_range_eq_some.1 h
  obtain ⟨h1, h2, h3⟩ := of_decide_eq_true hp
  refine ⟨List.mem_range.1 hi, by rw [h1, h2, h3]; rfl, fun r hr hkey => ?_⟩
  obtain ⟨j, hj, rfl⟩ := List.mem_map.1 hr
  have hno := hlt j (List.mem_range.1 hj)
  simp only [PollTable.regAt, Reg.key, Prod.mk.injEq] at hkey
  simp [hkey] at hno

theorem findRegisteredSock_none {sock : Int} {inst : γ} {callBack : κ}
    (h : findRegisteredSock s sock inst callBack = none) :
    ∀ r ∈ s.slots, r.key ≠ (sock, inst, callBack) := by
  intro r hr hkey
  obtain ⟨j, hj, rfl⟩ := mem_slots.1 hr
  have hno := List.find?_eq_none.1 h j (List.mem_range.2 hj)
  simp only [PollTable.regAt, Reg.key, Prod.mk.injEq] at hkey
  simp [hkey] at hno

/-! ## The operations -/

theorem filter_live_of_keys {k : Int × γ × κ} {l : List (Reg γ κ)} (h : ∀ r ∈ l, r.key ≠ k) :
    l.filter (fun r => r.key ≠ k) = l :=
  List.filter_eq_self.2 fun r hr => decide_eq_true (h r hr)

theorem map_remask_of_keys {k : Int × γ × κ} {events : BitVec 16} {l : List (Reg γ κ)}
    (h : ∀ r ∈ l, r.key ≠ k) : l.map (Registrations.remask k events) = l := by
  refine (List.map_congr_left fun r hr => ?_).trans (List.map_id l)
  rw [Registrations.remask, if_neg (h r hr)]
  rfl

/-- The entry that was found is the only registration of its key. -/
theorem found_split (h : PollRep s R) {sock : Int} {inst : γ} {callBack : κ}
    (hf : findRegisteredSock s sock inst callBack = some i) :
    ∃ pre suf, (∀ s' : PollTable γ κ, s'.pfdCount = s.pfdCount →
        (∀ j, j ≠ i → s'.regAt j = s.regAt j) → s'.slots = pre ++ s'.regAt i :: suf) ∧
      ∀ r ∈ pre ++ suf, r.fd ≠ -1 → r.key ≠ (sock, inst, callBack) := by
  obtain ⟨hi, hkey, hpre⟩ := findRegisteredSock_some hf
  refine ⟨_, _, fun s' hc hs' => slots_split hi hc hs', fun r hr hfd hrk => ?_⟩
  rcases List.mem_append.1 hr with hr | hr
  · exact hpre r hr hrk
  · have hnd : (s.live.map Reg.key).Nodup := h.live ▸ R.nodup
    have hfd' : (s.regAt i).fd ≠ -1 := by
      rw [show (s.regAt i).fd = r.fd from congrArg Prod.fst (hkey.trans hrk.symm)]
      exact hfd
    rw [PollTable.live, slots_split hi rfl fun _ _ => rfl, List.filter_append, List.map_append,
      List.filter_cons_of_pos (by simpa using hfd'), List.map_cons] at hnd
    have hnot := (List.nodup_cons.1 (List.nodup_append.1 hnd).2.1).1
    refine hnot (List.mem_map.2 ⟨r, List.mem_filter.2 ⟨hr, by simpa using hfd⟩, ?_⟩)
    rw [hrk, hkey]

theorem unregisterSock_live (h : PollRep s R) (sock : Int) (inst : γ) (callBack : κ) :
    PollRep (unregisterSock s sock inst callBack) (R.unregister (sock, inst, callBack)) := by
  unfold unregisterSock
  cases hf : findRegisteredSock s sock inst callBack with
  | none =>
    have hno := findRegisteredSock_none hf
    refine ⟨?_, h.gap⟩
    show s.live = R.list.filter _
    rw [← h.live]
    exact (filter_live_of_keys fun r hr => hno r (List.mem_filter.1 hr).1).symm
  | some i =>
    obtain ⟨hi, hkey, -⟩ := findRegisteredSock_some hf
    obtain ⟨pre, suf, hsplit, hno⟩ := found_split h hf
    refine ⟨?_, drop_gap hi⟩
    show (s.drop i).live = R.list.filter _
    have hs := hsplit s rfl fun _ _ => rfl
    have hs' := hsplit (s.drop i) rfl fun j hj => by rw [regAt_drop, update_of_ne hj]
    rw [← h.live, PollTable.live, PollTable.live, hs, hs', regAt_drop, update_self]
    have hrest : ∀ l : List (Reg γ κ), (∀ r ∈ l, r ∈ pre ++ suf) →
        (l.filter fun r => r.fd ≠ -1).filter (fun r => r.key ≠ (sock, inst, callBack)) =
          l.filter fun r => r.fd ≠ -1 := fun l hl =>
      filter_live_of_keys fun r hr =>
        hno r (hl r (List.mem_filter.1 hr).1) (by simpa using (List.mem_filter.1 hr).2)
    rw [List.filter_append, List.filter_append, List.filter_append,
      hrest pre fun r hr => List.mem_append_left _ hr]
    congr 1
    -- the entry itself is gone on both sides, also when it was a gap before
    rw [List.filter_cons_of_neg (by simp)]
    by_cases hfd : (s.regAt i).fd = -1
    · rw [List.filter_cons_of_neg (by simpa using hfd), hrest suf fun r hr => List.mem_append_right _ hr]
    · rw [List.filter_cons_of_pos (by simpa using hfd), List.filter_cons_of_neg (by simpa using hkey),
        hrest suf fun r hr => List.mem_append_right _ hr]

/-- The table after `register_sock`, with `realloc` succeeding. -/
theorem registerSock_live (h : PollRep s R) {sock : Int} (hsock : sock ≠ -1) (events : BitVec 32)
    (inst : γ) (callBack : κ) :
    PollRep (registerSock (true, true) s sock events inst callBack).1
      (R.register ⟨sock, inst, callBack, events.setWidth 16⟩ hsock) := by
  set x : Reg γ κ := ⟨sock, inst, callBack, events.setWidth 16⟩ with hx
  unfold registerSock
  cases hf : findRegisteredSock s sock inst callBack with
  | none =>
    have hno := findRegisteredSock_none hf
    have hnew : x.key ∉ R.list.map Reg.key := fun hm => by
      obtain ⟨r, hr, hrk⟩ := List.mem_map.1 hm
      rw [← h.live] at hr
      exact hno r (List.mem_filter.1 hr).1 hrk
    simp only [and_self, not_true_eq_false, and_false, if_false]
    generalize hs' : PollTable.mk _ _ _ (s.pfdCount + 1) _ = s'
    have hold : ∀ j < s.pfdCount, s'.regAt j = s.regAt j := fun j hj => by
      simp [← hs', PollTable.regAt, Nat.ne_of_lt hj]
    have hlast : s'.regAt s.pfdCount = x := by simp [← hs', PollTable.regAt, hx]
    have hslots : s'.slots = s.slots ++ [x] := by
      rw [PollTable.slots, show s'.pfdCount = s.pfdCount + 1 by rw [← hs'], List.range_succ,
        List.map_append, List.map_singleton, hlast]
      congr 1
      exact List.map_congr_left fun j hj => hold j (List.mem_range.1 hj)
    refine ⟨?_, ?_⟩
    · rw [PollTable.live, hslots, List.filter_append, ← PollTable.live, h.live,
        R.register_list_of_notMem hsock hnew, List.filter_cons_of_pos (by simpa using hsock),
        List.filter_nil]
    · intro hd
      obtain ⟨r, hr, hfd⟩ := h.gap (by rw [← hs'] at hd; exact hd)
      exact ⟨r, by rw [hslots]; exact List.mem_append_left _ hr, hfd⟩
  | some i =>
    obtain ⟨hi, hkey, -⟩ := findRegisteredSock_some hf
    obtain ⟨pre, suf, hsplit, hno⟩ := found_split h hf
    have hfd : (s.regAt i).fd = sock := congrArg Prod.fst hkey
    have hold : x.key ∈ R.list.map Reg.key := by
      rw [← h.live, show x.key = (s.regAt i).key from hkey.symm]
      refine List.mem_map_of_mem (List.mem_filter.2 ⟨mem_slots.2 ⟨i, hi, rfl⟩, ?_⟩)
      simpa [hfd] using hsock
    dsimp only
    generalize hs' : PollTable.mk (update s.pfdList i _) _ _ _ _ = s'
    have hslots := hsplit s' (by rw [← hs']) fun j hj => by
      simp [← hs', PollTable.regAt, hj]
    have hat : s'.regAt i = Registrations.remask x.key x.events (s.regAt i) := by
      rw [Registrations.remask, if_pos (show _ = x.key from hkey), ← hs']
      simp [PollTable.regAt, hx]
    have hs := hsplit s rfl fun _ _ => rfl
    refine ⟨?_, ?_⟩
    · have hrest : ∀ l : List (Reg γ κ), (∀ r ∈ l, r ∈ pre ++ suf) →
          (l.filter fun r => r.fd ≠ -1).map (Registrations.remask x.key x.events) =
            l.filter fun r => r.fd ≠ -1 := fun l hl =>
        map_remask_of_keys fun r hr =>
          hno r (hl r (List.mem_filter.1 hr).1) (by simpa using (List.mem_filter.1 hr).2)
      rw [R.register_list_of_mem hsock hold, ← h.live, PollTable.live, PollTable.live, hs, hslots,
        List.filter_append,
        List.filter_append, List.map_append, hrest pre fun r hr => List.mem_append_left _ hr, hat,
        List.filter_cons_of_pos (by simpa [Registrations.remask_fd, hfd] using hsock),
        List.filter_cons_of_pos (by simpa [hfd] using hsock), List.map_cons,
        hrest suf fun r hr => List.mem_append_right _ hr]
    · intro hd
      obtain ⟨r, hr, hrfd⟩ := h.gap (by rw [← hs'] at hd; exact hd)
      -- the gap is not the entry whose mask was set
      rw [hs] at hr
      refine ⟨r, ?_, hrfd⟩
      rw [hslots]
      rcases List.mem_append.1 hr with hr | hr
      · exact List.mem_append_left _ hr
      · rcases List.mem_cons.1 hr with rfl | hr
        · exact absurd (hfd.symm.trans hrfd) hsock
        · exact List.mem_append_right _ (List.mem_cons_of_mem _ hr)

omit [DecidableEq κ] in
/-- The loop of `unregister_object` over the entries `js`. -/
theorem unregisterObject_loop (object : γ) : ∀ (js : List Nat) (s : PollTable γ κ),
    (∀ j ∈ js, j < s.pfdCount) → js.Nodup → s.Gap →
    let s' := js.foldl (fun s i => if object = (s.pfdCallBacks i).ctxt then s.drop i else s) s
    s'.pfdCount = s.pfdCount ∧ s'.Gap ∧ ∀ i, s'.regAt i =
      if i ∈ js ∧ (s.regAt i).ctxt = object then { s.regAt i with fd := -1, events := 0 }
      else s.regAt i
  | [], s, _, _, hgap => by simp [hgap]
  | j :: js, s, hjs, hnd, hgap => by
    obtain ⟨hj, hnd⟩ := List.nodup_cons.1 hnd
    simp only [List.foldl_cons]
    by_cases hc : object = (s.pfdCallBacks j).ctxt
    · rw [if_pos hc]
      obtain ⟨h1, h2, h3⟩ := unregisterObject_loop object js (s.drop j)
        (fun i hi => hjs i (List.mem_cons_of_mem _ hi)) hnd (drop_gap (hjs j List.mem_cons_self))
      refine ⟨h1, h2, fun i => ?_⟩
      rw [h3, regAt_drop]
      by_cases hij : i = j
      · subst hij
        simp [hj, show (s.regAt i).ctxt = object from hc.symm]
      · simp [hij]
    · rw [if_neg hc]
      obtain ⟨h1, h2, h3⟩ := unregisterObject_loop object js s
        (fun i hi => hjs i (List.mem_cons_of_mem _ hi)) hnd hgap
      refine ⟨h1, h2, fun i => ?_⟩
      rw [h3]
      by_cases hij : i = j
      · subst hij
        simp [hj, show (s.regAt i).ctxt ≠ object from Ne.symm hc]
      · simp [hij]

omit [DecidableEq κ] in
theorem unregisterObject_live (h : PollRep s R) (object : γ) :
    PollRep (unregisterObject s object) (R.unregisterObject object) := by
  obtain ⟨hc, hgap, hat⟩ := unregisterObject_loop object (List.range s.pfdCount) s
    (fun j hj => List.mem_range.1 hj) List.nodup_range h.gap
  refine ⟨?_, hgap⟩
  show (unregisterObject s object).live = R.list.filter _
  have hat' : ∀ i ∈ List.range s.pfdCount, (unregisterObject s object).regAt i =
      if (s.regAt i).ctxt = object then { s.regAt i with fd := -1, events := 0 } else s.regAt i :=
    fun i hi => (hat i).trans (by simp only [hi, true_and])
  rw [← h.live, PollTable.live, PollTable.live, List.filter_filter, PollTable.slots, PollTable.slots,
    show (unregisterObject s object).pfdCount = s.pfdCount from hc, List.filter_map, List.filter_map]
  have hfilter : (List.range s.pfdCount).filter
        ((fun r => decide (r.fd ≠ -1)) ∘ (unregisterObject s object).regAt) =
      (List.range s.pfdCount).filter
        ((fun r => decide (r.ctxt ≠ object) && decide (r.fd ≠ -1)) ∘ s.regAt) := by
    refine List.filter_congr fun i hi => ?_
    simp only [Function.comp_apply, hat' i hi]
    by_cases hobj : (s.regAt i).ctxt = object <;> simp [hobj]
  rw [hfilter]
  refine List.map_congr_left fun i hi => ?_
  obtain ⟨hi, hp⟩ := List.mem_filter.1 hi
  have hobj : (s.regAt i).ctxt ≠ object := by simpa using (Bool.and_eq_true_iff.1 hp).1
  rw [hat' i hi, if_neg hobj]

end

/-! ## Defragmentation -/

section
variable {s : PollTable γ κ}

/-- The second loop of `pfd_defragment`: the entries below `p` are what it has kept, and those it has
not reached are as they were. -/
theorem pfdMove_loop : ∀ (n i : Nat) (s : PollTable γ κ) (p : Nat), p ≤ i →
    let r := (List.range' i n).foldl pfdMove (s, p)
    (List.range r.2).map r.1.regAt = (List.range p).map s.regAt ++
      ((List.range' i n).map s.regAt).filter fun x => x.fd ≠ -1
  | 0, i, s, p, _ => by simp
  | n + 1, i, s, p, hp => by
    simp only [List.range'_succ, List.foldl_cons, List.map_cons]
    by_cases hfd : (s.regAt i).fd = -1
    · have hfd' : ¬ (s.pfdList i).fd ≠ -1 := not_not.2 hfd
      rw [pfdMove, if_neg hfd', List.filter_cons_of_neg (by simpa using hfd)]
      exact pfdMove_loop n (i + 1) s p (Nat.le_succ_of_le hp)
    · have hfd' : (s.pfdList i).fd ≠ -1 := hfd
      rw [pfdMove, if_pos hfd', List.filter_cons_of_pos (by simpa using hfd)]
      generalize hs₁ : PollTable.mk _ _ s.pfdSize s.pfdCount s.pfdDefrag = s₁
      have hat : s₁.regAt = update s.regAt p (s.regAt i) := by
        funext j
        by_cases hj : j = p <;> simp [← hs₁, PollTable.regAt, hj]
      have hkept : (List.range p).map s₁.regAt = (List.range p).map s.regAt :=
        List.map_congr_left fun j hj => by
          rw [hat, update_of_ne (Nat.ne_of_lt (List.mem_range.1 hj))]
      have hrest : (List.range' (i + 1) n).map s₁.regAt = (List.range' (i + 1) n).map s.regAt :=
        List.map_congr_left fun j hj => by
          have := (List.mem_range'_1.1 hj).1
          rw [hat, update_of_ne (by omega)]
      have ih := pfdMove_loop n (i + 1) s₁ (p + 1) (Nat.succ_le_succ hp)
      rw [ih, List.range_succ, List.map_append, hkept, hrest, List.map_singleton, hat, update_self,
        List.append_assoc, List.singleton_append]

/-- With a gap to close, defragmentation keeps the registrations and their order. -/
theorem pfdDefragment_live (h : ∃ r ∈ s.slots, r.fd = -1) : (pfdDefragment s).live = s.live := by
  obtain ⟨r, hr, hfd⟩ := h
  unfold pfdDefragment
  cases hf : (List.range s.pfdCount).find? fun i => (s.pfdList i).fd = -1 with
  | none =>
    obtain ⟨j, hj, rfl⟩ := mem_slots.1 hr
    have hno : ¬ (s.pfdList j).fd = -1 := by
      simpa using List.find?_eq_none.1 hf j (List.mem_range.2 hj)
    exact absurd hfd hno
  | some i =>
    obtain ⟨hp, hi, hlt⟩ := List.find?_range_eq_some.1 hf
    have hi := List.mem_range.1 hi
    have hloop := pfdMove_loop (s.pfdCount - (i + 1)) (i + 1) s i (Nat.le_succ i)
    have hpre : ((List.range i).map s.regAt).filter (fun x => x.fd ≠ -1) = (List.range i).map s.regAt := by
      refine List.filter_eq_self.2 fun x hx => ?_
      obtain ⟨j, hj, rfl⟩ := List.mem_map.1 hx
      have hno : ¬ (s.pfdList j).fd = -1 := by simpa using hlt j (List.mem_range.1 hj)
      exact decide_eq_true hno
    have hgap : (s.regAt i).fd = -1 := of_decide_eq_true hp
    have hlive : s.live = (List.range i).map s.regAt ++
        ((List.range' (i + 1) (s.pfdCount - (i + 1))).map s.regAt).filter fun x => x.fd ≠ -1 := by
      rw [PollTable.live, slots_split hi rfl fun _ _ => rfl, List.filter_append, hpre,
        List.filter_cons_of_neg (by simpa using hgap)]
    -- the entries below the new count are all registrations
    have hall : ∀ l : List (Reg γ κ), l = s.live → l.filter (fun x => x.fd ≠ -1) = l := by
      rintro l rfl
      rw [PollTable.live, List.filter_filter]
      simp
    show List.filter _ (List.map _ (List.range _)) = s.live
    exact (hall _ (hloop.trans hlive.symm)).trans (hloop.trans hlive.symm)

theorem pfdDefragGuarded_live {R : Registrations γ κ} (h : PollRep s R) :
    PollRep (pfdDefragGuarded s) R := by
  unfold pfdDefragGuarded
  split
  · rename_i hd
    refine ⟨(pfdDefragment_live (h.gap hd)).trans h.live, fun hd' => absurd ?_ hd'⟩
    unfold pfdDefragment
    split <;> rfl
  · exact h

theorem poll_live {R : Registrations γ κ} (h : PollRep s R) (rev : Nat → BitVec 16) :
    PollRep (s.poll rev) R := by
  have hat : (s.poll rev).regAt = s.regAt := by
    funext i
    simp only [PollTable.regAt, PollTable.poll]
    split <;> rfl
  have hslots : (s.poll rev).slots = s.slots := by
    rw [PollTable.slots, hat]
    rfl
  refine ⟨by rw [PollTable.live, hslots]; exact h.live, fun hd => ?_⟩
  rw [hslots]
  exact h.gap hd

end

/-! ## Registered keys -/

/-- The table represents some registrations. -/
def PollTable.Ok (s : PollTable γ κ) : Prop := ∃ R, PollRep s R

/-- There is a registration of the key. -/
def PollTable.Has (s : PollTable γ κ) (k : Int × γ × κ) : Prop := k ∈ s.live.map Reg.key

section
variable [DecidableEq γ] [DecidableEq κ] {s : PollTable γ κ}

theorem has_register (h : s.Ok) {sock : Int} (hsock : sock ≠ -1) (events : BitVec 32) (inst : γ)
    (callBack : κ) : (registerSock (true, true) s sock events inst callBack).1.Ok ∧
      ∀ k, (registerSock (true, true) s sock events inst callBack).1.Has k ↔
        k = (sock, inst, callBack) ∨ s.Has k := by
  obtain ⟨R, hR⟩ := h
  have hreg := registerSock_live hR hsock events inst callBack
  refine ⟨⟨_, hreg⟩, fun k => ?_⟩
  rw [PollTable.Has, hreg.live, Registrations.mem_register, PollTable.Has, hR.live]
  rfl

theorem has_unregister (h : s.Ok) (sock : Int) (inst : γ) (callBack : κ) :
    (unregisterSock s sock inst callBack).Ok ∧
      ∀ k, (unregisterSock s sock inst callBack).Has k ↔
        k ≠ (sock, inst, callBack) ∧ s.Has k := by
  obtain ⟨R, hR⟩ := h
  have hreg := unregisterSock_live hR sock inst callBack
  refine ⟨⟨_, hreg⟩, fun k => ?_⟩
  rw [PollTable.Has, hreg.live, Registrations.mem_unregister, PollTable.Has, hR.live]

omit [DecidableEq γ] [DecidableEq κ] in
theorem has_defrag (h : s.Ok) :
    (pfdDefragGuarded s).Ok ∧ ∀ k, (pfdDefragGuarded s).Has k ↔ s.Has k := by
  obtain ⟨R, hR⟩ := h
  have hdef := pfdDefragGuarded_live hR
  refine ⟨⟨_, hdef⟩, fun k => ?_⟩
  rw [PollTable.Has, hdef.live, PollTable.Has, hR.live]

end

/-! ## Runs -/

/-- What is done to the table between two calls of `dispatch_sock_events`. -/
inductive PollOp (γ κ : Type) where
  | register (sock : Nat) (events : BitVec 32) (inst : γ) (callBack : κ)
  | unregister (sock : Int) (inst : γ) (callBack : κ)
  | unregisterObject (object : γ)
  | defrag
  | poll (rev : Nat → BitVec 16)

variable [DecidableEq γ] [DecidableEq κ]

/-- The operation on the table, with `realloc` succeeding. -/
def PollTable.step (s : PollTable γ κ) : PollOp γ κ → PollTable γ κ
  | .register sock events inst callBack => (registerSock (true, true) s sock events inst callBack).1
  | .unregister sock inst callBack => unregisterSock s sock inst callBack
  | .unregisterObject object => Utils.unregisterObject s object
  | .defrag => pfdDefragGuarded s
  | .poll rev => s.poll rev

/-- What the operation means. -/
def Registrations.step (R : Registrations γ κ) : PollOp γ κ → Registrations γ κ
  | .register sock events inst callBack =>
    R.register ⟨sock, inst, callBack, events.setWidth 16⟩ (by simp)
  | .unregister sock inst callBack => R.unregister (sock, inst, callBack)
  | .unregisterObject object => R.unregisterObject object
  | .defrag => R
  | .poll _ => R

theorem step_live {s : PollTable γ κ} {R : Registrations γ κ} (h : PollRep s R) (o : PollOp γ κ) :
    PollRep (s.step o) (R.step o) := by
  cases o with
  | register sock events inst callBack => exact registerSock_live h (by simp) events inst callBack
  | unregister sock inst callBack => exact unregisterSock_live h sock inst callBack
  | unregisterObject object => exact unregisterObject_live h object
  | defrag => exact pfdDefragGuarded_live h
  | poll rev => exact poll_live h rev

omit [DecidableEq γ] [DecidableEq κ] in
theorem init_live (pfdList : Nat → Pollfd) (pfdCallBacks : Nat → PfdCallBack γ κ) :
    PollRep (PollTable.init pfdList pfdCallBacks) Registrations.empty :=
  ⟨rfl, fun h => absurd rfl h⟩

theorem run_live {s : PollTable γ κ} {R : Registrations γ κ} (h : PollRep s R)
    (ops : List (PollOp γ κ)) :
    PollRep (ops.foldl PollTable.step s) (ops.foldl Registrations.step R) := by
  induction ops generalizing s R with
  | nil => exact h
  | cons o ops ih => exact ih (step_live h o)

/-- **The poll table is an ordered set of registrations.** For every sequence of operations, and
whatever the memory held, the entries whose `fd` is not `-1` are what the same operations make of an
empty set, in the same order. -/
theorem poll_table_refines (pfdList : Nat → Pollfd) (pfdCallBacks : Nat → PfdCallBack γ κ)
    (ops : List (PollOp γ κ)) :
    (ops.foldl PollTable.step (PollTable.init pfdList pfdCallBacks)).live =
      (ops.foldl Registrations.step Registrations.empty).list :=
  (run_live (init_live pfdList pfdCallBacks) ops).live

end Utils
