import GoipRemote.Utils.Timer
import GoipRemote.Lib.Tolerant

/-!
# The timer queue refines two lists

What the module is for, without its pointers: a `Queue` is the list of armed timers in the order
they are looked at and the list of those pending, each with its deadline and repeat count. `Rep s q`:
the three linked lists of `s` are disjoint lists of allocated entries, and `timer_list` and
`pending_list` read as `q`. Every function of the file takes a state that represents a queue to one
that represents the queue its abstract counterpart answers, without a fault:

* `removeTimer_rep`, `stopTimer_rep`, `destroyTimer_rep`: `Queue.remove`;
* `startTimer_rep`, `setTimeout_rep`: `Queue.remove`, then `Queue.arm` (unless `malloc` fails);
* `timerFire_rep`, `timerLeave_rep`: `Queue.due` and `Queue.merge`.
-/

namespace Utils

open LinkedList Function

variable {κ : Type}

/-! ## The abstract queue -/

/-- What an entry says. -/
structure Armed where
  timer : Ptr
  timeout : Timeval
  repeats : Int32
  deriving DecidableEq, Repr

/-- What the entry says. -/
def Entry.armed (e : Entry) : Armed := ⟨e.timer, e.timeout, e.repeats⟩

/-- `timer_list` and `pending_list`. -/
structure Queue where
  list : List Armed
  pending : List Armed
  deriving DecidableEq, Repr

/-- `e` is inserted before `x`. -/
def Armed.Before (e x : Armed) : Prop := tvcmp e.timeout x.timeout < 0

instance : DecidableRel Armed.Before := fun _ _ => inferInstanceAs (Decidable (_ < _))

/-- The entry is one of timer `t`. -/
def Armed.of (t : Ptr) (e : Armed) : Bool := e.timer = t

namespace Queue

/-- All entries. -/
def all (q : Queue) : List Armed := q.list ++ q.pending

/-- Without the first entry of `t`. -/
def remove (q : Queue) (t : Ptr) : Queue :=
  if q.list.any (Armed.of t) then { q with list := q.list.eraseP (Armed.of t) }
  else { q with pending := q.pending.eraseP (Armed.of t) }

/-- With a new entry; `lock` says whether a pass is running. -/
def arm (q : Queue) (lock : Bool) (e : Armed) : Queue :=
  if lock then { q with pending := e :: q.pending }
  else { q with list := q.list.orderedInsert Armed.Before e }

/-- With the pending entries inserted. -/
def merge (q : Queue) : Queue :=
  ⟨q.pending.foldl (fun l e => l.orderedInsert Armed.Before e) q.list, []⟩

end Queue

/-! ## Representation -/

/-- The three lists of `s` are `l`, `p` and `f`: disjoint, of allocated entries. -/
structure Lists (s : Timers κ) (l p f : List Ptr) : Prop where
  list : IsList s.next s.timerList l
  pending : IsList s.next s.pendingList p
  free : IsList s.next s.freeEntries f
  nodup : (l ++ p ++ f).Nodup
  lt : ∀ x ∈ l ++ p ++ f, x < s.brk

/-- What the entry at `x` says. -/
def Timers.armedAt (s : Timers κ) (x : Ptr) : Armed := (s.entries x).armed

/-- The state represents the queue (module doc). -/
def Rep (s : Timers κ) (q : Queue) : Prop :=
  ∃ l p f, Lists s l p f ∧ 0 < s.brk ∧ q = ⟨l.map s.armedAt, p.map s.armedAt⟩

/-- What no operation on the lists touches. -/
structure Frame (s s' : Timers κ) : Prop where
  lock : s'.inCheckTimeoutLock = s.inCheckTimeoutLock
  timers : s'.timers = s.timers
  clock : s'.clock = s.clock
  malloc : s'.malloc = s.malloc

theorem Frame.refl (s : Timers κ) : Frame s s := ⟨rfl, rfl, rfl, rfl⟩

theorem Frame.trans {s s' s'' : Timers κ} (h : Frame s s') (h' : Frame s' s'') : Frame s s'' :=
  ⟨h'.lock.trans h.lock, h'.timers.trans h.timers, h'.clock.trans h.clock,
    h'.malloc.trans h.malloc⟩

@[simp] theorem next_setEntry (s : Timers κ) (p : Ptr) (e : Entry) :
    (s.setEntry p e).next = update s.next p e.next := by
  funext x
  by_cases hx : x = p <;> simp [Timers.next, Timers.setEntry, hx]

@[simp] theorem next_setNext (s : Timers κ) (p v : Ptr) :
    (s.setNext p v).next = update s.next p v := by simp [Timers.setNext]

theorem armedAt_setEntry (s : Timers κ) (p : Ptr) (e : Entry) :
    (s.setEntry p e).armedAt = update s.armedAt p e.armed := by
  funext x
  by_cases hx : x = p <;> simp [Timers.armedAt, Timers.setEntry, hx]

@[simp] theorem armedAt_setNext (s : Timers κ) (p v : Ptr) :
    (s.setNext p v).armedAt = s.armedAt := by
  rw [Timers.setNext, armedAt_setEntry]
  exact update_eq_self p s.armedAt

theorem map_armedAt_setEntry {s : Timers κ} {x : Ptr} {e : Entry} {l : List Ptr} (hx : x ∉ l) :
    l.map (s.setEntry x e).armedAt = l.map s.armedAt := by
  rw [armedAt_setEntry]
  exact List.map_congr_left fun y hy => update_of_ne (ne_of_mem_of_not_mem hy hx) _ _

/-- The number of entries in the lists is below the bound of every walk. -/
theorem Lists.length_lt {s : Timers κ} {l p f xs : List Ptr} (h : Lists s l p f)
    (hxs : xs.Sublist (l ++ p ++ f)) (hb : 0 < s.brk) : xs.length < s.brk := by
  have hnd : xs.Nodup := hxs.nodup h.nodup
  have h0 : ∀ x ∈ l ++ p ++ f, x ≠ 0 := by
    intro x hx
    rcases List.mem_append.1 hx with hx | hx
    · rcases List.mem_append.1 hx with hx | hx
      · exact h.list.ne_zero x hx
      · exact h.pending.ne_zero x hx
    · exact h.free.ne_zero x hx
  have hsub : xs.toFinset ⊆ (Finset.range s.brk).erase 0 := by
    intro x hx
    have hm := hxs.subset (List.mem_toFinset.1 hx)
    simp [h0 x hm, h.lt x hm]
  have hc := Finset.card_le_card hsub
  rw [List.toFinset_card_of_nodup hnd, Finset.card_erase_of_mem (by simpa using hb),
    Finset.card_range] at hc
  omega

/-- An entry outside the three lists. -/
structure Loose (s : Timers κ) (l p f : List Ptr) (e : Ptr) : Prop where
  ne_zero : e ≠ 0
  lt : e < s.brk
  notMem : e ∉ l ++ p ++ f

theorem Lists.setEntry {s : Timers κ} {l p f : List Ptr} {e : Ptr} (h : Lists s l p f)
    (he : e ∉ l ++ p ++ f) (v : Entry) : Lists (s.setEntry e v) l p f := by
  simp only [List.mem_append, not_or] at he
  obtain ⟨⟨hl, hp⟩, hf⟩ := he
  refine ⟨?_, ?_, ?_, h.nodup, h.lt⟩ <;> rw [next_setEntry]
  · exact h.list.update_of_notMem hl
  · exact h.pending.update_of_notMem hp
  · exact h.free.update_of_notMem hf

/-- One more entry in the lists. -/
theorem Loose.cons_perm {s : Timers κ} {l p f xs : List Ptr} {e : Ptr} (he : Loose s l p f e)
    (h : Lists s l p f) (hxs : xs.Perm (e :: (l ++ p ++ f))) :
    xs.Nodup ∧ ∀ x ∈ xs, x < s.brk := by
  refine ⟨hxs.nodup_iff.2 (List.nodup_cons.2 ⟨he.notMem, h.nodup⟩), fun x hx => ?_⟩
  rcases List.mem_cons.1 (hxs.mem_iff.1 hx) with rfl | hx
  · exact he.lt
  · exact h.lt x hx

/-! ## The steps of the functions -/

section
variable {s : Timers κ} {l p f : List Ptr} {e : Ptr}

theorem insertTimer_lists (h : Lists s l p f) (he : Loose s l p f e) :
    ∃ s', insertTimer s e = .ok s' ∧
      Lists s' (l.orderedInsert (fun a b => (s.armedAt a).Before (s.armedAt b)) e) p f ∧
      s'.armedAt = s.armedAt ∧ Frame s s' ∧ s'.brk = s.brk := by
  have hb : 0 < s.brk := Nat.lt_of_le_of_lt (Nat.zero_le _) he.lt
  obtain ⟨pre, suf, rfl, hi, hpre, hsuf⟩ :=
    Tolerant.orderedInsert_split (fun a b => (s.armedAt a).Before (s.armedAt b)) e l
  rw [hi]
  have hperm : (pre ++ e :: suf ++ p ++ f).Perm (e :: (pre ++ suf ++ p ++ f)) := by
    simp
  obtain ⟨hnd, hlt⟩ := he.cons_perm h hperm
  have hnot := he.notMem
  simp only [List.mem_append, not_or] at hnot
  obtain ⟨⟨⟨hepre, hesuf⟩, hep⟩, hef⟩ := hnot
  rcases List.eq_nil_or_concat' pre with rfl | ⟨pre, a, rfl⟩
  · -- the entry becomes the head
    have hcond : s.timerList = 0 ∨ s.before e s.timerList = true := by
      have hh := h.list.head_eq
      cases suf with
      | nil => exact .inl hh
      | cons x suf =>
        have hx : s.timerList = x := hh
        exact .inr (by rw [hx]; exact decide_eq_true (hsuf x (by simp)))
    refine ⟨{ s.setNext e s.timerList with timerList := e }, ?_, ?_, ?_, ⟨rfl, rfl, rfl, rfl⟩, rfl⟩
    · simp only [insertTimer, hcond, if_true]
    · refine ⟨?_, ?_, ?_, hnd, hlt⟩
      · show IsList (s.setNext e s.timerList).next e (e :: suf)
        rw [next_setNext]
        exact h.list.push he.ne_zero hesuf
      · show IsList (s.setNext e s.timerList).next s.pendingList p
        rw [next_setNext]
        exact h.pending.update_of_notMem hep
      · show IsList (s.setNext e s.timerList).next s.freeEntries f
        rw [next_setNext]
        exact h.free.update_of_notMem hef
    · exact armedAt_setNext s e s.timerList
  · -- the entry goes after `a`
    have hlist : IsList s.next s.timerList (pre ++ a :: suf) := by
      have hl := h.list
      rwa [List.append_assoc, List.singleton_append] at hl
    have hnb : ∀ x ∈ pre ++ [a], s.before e x = false :=
      fun x hx => decide_eq_false (hpre x hx)
    have hcond : ¬ (s.timerList = 0 ∨ s.before e s.timerList = true) := by
      obtain ⟨x, hx, hm⟩ : ∃ x, s.timerList = x ∧ x ∈ pre ++ [a] := by
        rw [hlist.head_eq]
        cases pre with
        | nil => exact ⟨a, rfl, by simp⟩
        | cons y pre => exact ⟨y, rfl, by simp⟩
      rw [hx, hnb x hm]
      have := hlist.ne_zero x (by simp only [List.mem_append, List.mem_cons] at hm ⊢; tauto)
      simp [this]
    have hadv : advance s.next (s.before e) s.brk s.timerList = .ok a := by
      refine advance_eq hlist ?_ (fun y hy => hnb y (List.mem_of_mem_tail hy))
        fun y hy => decide_eq_true (hsuf y hy)
      refine h.length_lt ?_ hb
      simp only [List.append_assoc]
      exact List.sublist_append_left _ _
    have hea : a ≠ e := fun hae => hepre (by simp [hae])
    refine ⟨(s.setNext e (s.next a)).setNext a e, ?_, ?_, ?_, ⟨rfl, rfl, rfl, rfl⟩, rfl⟩
    · simp only [insertTimer, hcond, if_false, hadv, Res.ok_bind]
    · have hmem : a ∈ pre ++ [a] ++ suf := by simp
      have hndl := List.nodup_append.1 h.nodup
      have hndl' := List.nodup_append.1 hndl.1
      have hap : a ∉ p := fun hm => hndl'.2.2 a hmem a hm rfl
      have haf : a ∉ f := fun hm => hndl.2.2 a (List.mem_append_left _ hmem) a hm rfl
      refine ⟨?_, ?_, ?_, hnd, hlt⟩
      · show IsList ((s.setNext e (s.next a)).setNext a e).next s.timerList (pre ++ [a] ++ e :: suf)
        rw [next_setNext, next_setNext, List.append_assoc, List.singleton_append]
        apply hlist.insertAfter he.ne_zero
        simp only [List.mem_append, List.mem_cons, not_or] at hepre ⊢
        exact ⟨hepre.1, fun hae => hea hae.symm, hesuf⟩
      · show IsList ((s.setNext e (s.next a)).setNext a e).next s.pendingList p
        rw [next_setNext, next_setNext]
        exact (h.pending.update_of_notMem hep).update_of_notMem hap
      · show IsList ((s.setNext e (s.next a)).setNext a e).next s.freeEntries f
        rw [next_setNext, next_setNext]
        exact (h.free.update_of_notMem hef).update_of_notMem haf
    · rw [armedAt_setNext, armedAt_setNext]

theorem pendTimer_lists (h : Lists s l p f) (he : Loose s l p f e) :
    Lists (pendTimer s e) l (e :: p) f ∧ (pendTimer s e).armedAt = s.armedAt := by
  have hperm : (l ++ e :: p ++ f).Perm (e :: (l ++ p ++ f)) := by simp
  obtain ⟨hnd, hlt⟩ := he.cons_perm h hperm
  have hnot := he.notMem
  simp only [List.mem_append, not_or] at hnot
  obtain ⟨⟨hel, hep⟩, hef⟩ := hnot
  refine ⟨⟨?_, ?_, ?_, hnd, hlt⟩, armedAt_setNext s e s.pendingList⟩
  · show IsList (s.setNext e s.pendingList).next s.timerList l
    rw [next_setNext]
    exact h.list.update_of_notMem hel
  · show IsList (s.setNext e s.pendingList).next e (e :: p)
    rw [next_setNext]
    exact h.pending.push he.ne_zero hep
  · show IsList (s.setNext e s.pendingList).next s.freeEntries f
    rw [next_setNext]
    exact h.free.update_of_notMem hef

theorem recycle_lists (h : Lists s l p f) (he : Loose s l p f e) :
    Lists (s.recycle e) l p (e :: f) ∧ (s.recycle e).armedAt = s.armedAt := by
  have hperm : (l ++ p ++ e :: f).Perm (e :: (l ++ p ++ f)) := List.perm_middle
  obtain ⟨hnd, hlt⟩ := he.cons_perm h hperm
  have hnot := he.notMem
  simp only [List.mem_append, not_or] at hnot
  obtain ⟨⟨hel, hep⟩, hef⟩ := hnot
  refine ⟨⟨?_, ?_, ?_, hnd, hlt⟩, armedAt_setNext s e s.freeEntries⟩
  · show IsList (s.setNext e s.freeEntries).next s.timerList l
    rw [next_setNext]
    exact h.list.update_of_notMem hel
  · show IsList (s.setNext e s.freeEntries).next s.pendingList p
    rw [next_setNext]
    exact h.pending.update_of_notMem hep
  · show IsList (s.setNext e s.freeEntries).next e (e :: f)
    rw [next_setNext]
    exact h.free.push he.ne_zero hef

/-- `timer_list` without its node `e`. -/
theorem unlinkList_lists {l₁ l₂ : List Ptr} (h : Lists s (l₁ ++ e :: l₂) p f) :
    let s' := if l₁.getLastD 0 = 0 then { s with timerList := s.next e }
      else s.setNext (l₁.getLastD 0) (s.next e)
    Lists s' (l₁ ++ l₂) p f ∧ Loose s' (l₁ ++ l₂) p f e ∧ s'.armedAt = s.armedAt ∧ Frame s s' ∧
      s'.brk = s.brk := by
  have hperm : (l₁ ++ e :: l₂ ++ p ++ f).Perm (e :: (l₁ ++ l₂ ++ p ++ f)) := by simp
  obtain ⟨hnot, hnd⟩ := List.nodup_cons.1 (hperm.nodup_iff.1 h.nodup)
  have hlt : ∀ x ∈ l₁ ++ l₂ ++ p ++ f, x < s.brk := fun x hx =>
    h.lt x (hperm.mem_iff.2 (List.mem_cons_of_mem _ hx))
  have he0 : e ≠ 0 := h.list.ne_zero e (by simp)
  have helt : e < s.brk := h.lt e (by simp)
  rcases List.eq_nil_or_concat' l₁ with rfl | ⟨pre, a, rfl⟩
  · simp only [List.getLastD_nil, if_true, List.nil_append] at *
    obtain ⟨-, -, hl⟩ := isList_cons.1 h.list
    exact ⟨⟨hl, h.pending, h.free, hnd, hlt⟩, ⟨he0, helt, hnot⟩, rfl, ⟨rfl, rfl, rfl, rfl⟩, trivial⟩
  · have ha0 : a ≠ 0 := h.list.ne_zero a (by simp)
    have hndl := List.nodup_append.1 h.nodup
    have hndl' := List.nodup_append.1 hndl.1
    have hap : a ∉ p := fun hm => hndl'.2.2 a (by simp) a hm rfl
    have haf : a ∉ f := fun hm => hndl.2.2 a (by simp) a hm rfl
    simp only [List.getLastD_concat, ha0, if_false]
    refine ⟨⟨?_, ?_, ?_, hnd, hlt⟩, ⟨he0, helt, hnot⟩, armedAt_setNext .., ⟨rfl, rfl, rfl, rfl⟩, rfl⟩
    · rw [next_setNext, List.append_assoc]
      have hl := h.list
      rw [List.append_assoc] at hl
      exact hl.removeAfter
    · rw [next_setNext]
      exact h.pending.update_of_notMem hap
    · rw [next_setNext]
      exact h.free.update_of_notMem haf

/-- `pending_list` without its node `e`. -/
theorem unlinkPending_lists {p₁ p₂ : List Ptr} (h : Lists s l (p₁ ++ e :: p₂) f) :
    let s' := if p₁.getLastD 0 = 0 then { s with pendingList := s.next e }
      else s.setNext (p₁.getLastD 0) (s.next e)
    Lists s' l (p₁ ++ p₂) f ∧ Loose s' l (p₁ ++ p₂) f e ∧ s'.armedAt = s.armedAt ∧ Frame s s' ∧
      s'.brk = s.brk := by
  have hperm : (l ++ (p₁ ++ e :: p₂) ++ f).Perm (e :: (l ++ (p₁ ++ p₂) ++ f)) := by
    rw [← List.append_assoc l, ← List.append_assoc l, List.append_assoc _ (e :: p₂),
      List.append_assoc _ p₂]
    exact List.perm_middle
  obtain ⟨hnot, hnd⟩ := List.nodup_cons.1 (hperm.nodup_iff.1 h.nodup)
  have hlt : ∀ x ∈ l ++ (p₁ ++ p₂) ++ f, x < s.brk := fun x hx =>
    h.lt x (hperm.mem_iff.2 (List.mem_cons_of_mem _ hx))
  have he0 : e ≠ 0 := h.pending.ne_zero e (by simp)
  have helt : e < s.brk := h.lt e (by simp)
  rcases List.eq_nil_or_concat' p₁ with rfl | ⟨pre, a, rfl⟩
  · simp only [List.getLastD_nil, if_true, List.nil_append] at *
    obtain ⟨-, -, hp⟩ := isList_cons.1 h.pending
    exact ⟨⟨h.list, hp, h.free, hnd, hlt⟩, ⟨he0, helt, hnot⟩, rfl, ⟨rfl, rfl, rfl, rfl⟩, trivial⟩
  · have ha0 : a ≠ 0 := h.pending.ne_zero a (by simp)
    have hndl := List.nodup_append.1 h.nodup
    have hndl' := List.nodup_append.1 hndl.1
    have hal : a ∉ l := fun hm => hndl'.2.2 a hm a (by simp) rfl
    have haf : a ∉ f := fun hm => hndl.2.2 a (by simp) a hm rfl
    simp only [List.getLastD_concat, ha0, if_false]
    refine ⟨⟨?_, ?_, ?_, hnd, hlt⟩, ⟨he0, helt, hnot⟩, armedAt_setNext .., ⟨rfl, rfl, rfl, rfl⟩, rfl⟩
    · rw [next_setNext]
      exact h.list.update_of_notMem hal
    · rw [next_setNext, List.append_assoc]
      have hp := h.pending
      rw [List.append_assoc] at hp
      exact hp.removeAfter
    · rw [next_setNext]
      exact h.free.update_of_notMem haf

/-- An entry from `allocEntry` is outside the lists, which are not touched when there is none. -/
theorem allocEntry_lists {s' : Timers κ} (h : Lists s l p f) (hb : 0 < s.brk)
    (ha : allocEntry s = (e, s')) :
    (e = 0 ∧ s' = { s with mallocs := s.mallocs + 1 } ∧ s.malloc ≠ fun _ => true) ∨
      e ≠ 0 ∧ ∃ f', Lists s' l p f' ∧ Loose s' l p f' e ∧ s'.armedAt = s.armedAt ∧ Frame s s' := by
  unfold allocEntry at ha
  split at ha
  · rename_i hf
    cases ha
    cases f with
    | nil => exact absurd h.free hf
    | cons x f =>
      obtain ⟨hx, hx0, hf'⟩ := isList_cons.1 h.free
      have hperm : (l ++ p ++ x :: f).Perm (x :: (l ++ p ++ f)) := List.perm_middle
      obtain ⟨hnot, hnd⟩ := List.nodup_cons.1 (hperm.nodup_iff.1 h.nodup)
      have hlt : ∀ y ∈ l ++ p ++ f, y < s.brk := fun y hy =>
        h.lt y (hperm.mem_iff.2 (List.mem_cons_of_mem _ hy))
      rw [hx]
      exact .inr ⟨hx0, f, ⟨h.list, h.pending, hf', hnd, hlt⟩, ⟨hx0, h.lt x (by simp), hnot⟩, rfl,
        ⟨rfl, rfl, rfl, rfl⟩⟩
  · split at ha
    · cases ha
      refine .inr ⟨hb.ne', f, ⟨h.list, h.pending, h.free, h.nodup, fun x hx => ?_⟩, ⟨?_, ?_, ?_⟩,
        rfl, ⟨rfl, rfl, rfl, rfl⟩⟩
      · exact Nat.lt_succ_of_lt (h.lt x hx)
      · exact Nat.ne_of_gt hb
      · exact Nat.lt_succ_self _
      · exact fun hm => Nat.lt_irrefl _ (h.lt _ hm)
    · rename_i hfail
      cases ha
      exact .inl ⟨rfl, rfl, fun hm => hfail (congrFun hm _)⟩

end

/-! ## The functions -/

section
variable {s : Timers κ} {q : Queue}

/-- Fields the lists do not read may change. -/
theorem Rep.congr {s' : Timers κ} (h : Rep s q) (he : s'.entries = s.entries)
    (hl : s'.timerList = s.timerList) (hp : s'.pendingList = s.pendingList)
    (hf : s'.freeEntries = s.freeEntries) (hb : s'.brk = s.brk) : Rep s' q := by
  obtain ⟨l, p, f, h, hb0, rfl⟩ := h
  have hn : s'.next = s.next := by unfold Timers.next; rw [he]
  have ha : s'.armedAt = s.armedAt := by unfold Timers.armedAt; rw [he]
  refine ⟨l, p, f, ⟨?_, ?_, ?_, h.nodup, ?_⟩, by rw [hb]; exact hb0, by rw [ha]⟩
  · rw [hn, hl]; exact h.list
  · rw [hn, hp]; exact h.pending
  · rw [hn, hf]; exact h.free
  · rw [hb]; exact h.lt

/-- The end of `add_timer` and of `set_timeout`: the entry is pended or inserted. -/
theorem arm_rep {l p f : List Ptr} {e : Ptr} (h : Lists s l p f) (he : Loose s l p f e) :
    ∃ s', (if s.inCheckTimeoutLock then Res.ok (pendTimer s e) else insertTimer s e) = .ok s' ∧
      Rep s' (Queue.arm ⟨l.map s.armedAt, p.map s.armedAt⟩ s.inCheckTimeoutLock (s.armedAt e)) ∧
      Frame s s' := by
  have hb : 0 < s.brk := Nat.lt_of_le_of_lt (Nat.zero_le _) he.lt
  cases hlock : s.inCheckTimeoutLock with
  | true =>
    obtain ⟨hl, ha⟩ := pendTimer_lists h he
    refine ⟨_, if_pos rfl, ⟨l, e :: p, f, hl, hb, ?_⟩, ⟨rfl, rfl, rfl, rfl⟩⟩
    rw [ha]
    simp [Queue.arm]
  | false =>
    obtain ⟨s', hs', hl, ha, hfr, hbrk⟩ := insertTimer_lists h he
    refine ⟨s', by rw [if_neg Bool.false_ne_true]; exact hs', ⟨_, p, f, hl, hbrk ▸ hb, ?_⟩, hfr⟩
    rw [ha]
    simp only [Queue.arm, if_neg Bool.false_ne_true]
    rw [List.map_orderedInsert (fun a b => (s.armedAt a).Before (s.armedAt b)) Armed.Before]
    · exact fun _ _ => Iff.rfl
    · exact fun _ _ => Iff.rfl

theorem addTimer_rep {l p f : List Ptr} {e : Ptr} (h : Lists s l p f) (he : Loose s l p f e)
    (ht : (s.timers (s.entries e).timer).isSome) :
    ∃ s', addTimer s e = .ok s' ∧ Frame s s' ∧ ∃ d,
      Rep s' (Queue.arm ⟨l.map s.armedAt, p.map s.armedAt⟩ s.inCheckTimeoutLock
        { s.armedAt e with timeout := d }) := by
  obtain ⟨tm, htm⟩ := Option.isSome_iff_exists.1 ht
  have hnot := he.notMem
  simp only [List.mem_append, not_or] at hnot
  let s₁ := { s with tick := s.tick + 1 }
  let s₂ := s₁.setEntry e
    { s.entries e with timeout := deadline (sampleTime s).1 tm.interval }
  have h₁ : Lists s₁ l p f := ⟨h.list, h.pending, h.free, h.nodup, h.lt⟩
  obtain ⟨s', hs', hr, hfr⟩ := arm_rep (h₁.setEntry he.notMem _ : Lists s₂ l p f)
    ⟨he.ne_zero, he.lt, he.notMem⟩
  refine ⟨s', ?_, (⟨rfl, rfl, rfl, rfl⟩ : Frame s s₂).trans hfr,
    deadline (sampleTime s).1 tm.interval, ?_⟩
  · have hd : Res.deref s₁.timers (s₁.entries e).timer = .ok tm := Res.deref_of_some htm
    simp only [addTimer, sampleTime]
    rw [show Res.deref s.timers (s.entries e).timer = .ok tm from hd]
    exact hs'
  · have hl : l.map s₂.armedAt = l.map s.armedAt := map_armedAt_setEntry hnot.1.1
    have hp : p.map s₂.armedAt = p.map s.armedAt := map_armedAt_setEntry hnot.1.2
    rw [hl, hp, armedAt_setEntry, update_self] at hr
    exact hr

theorem removeTimer_rep (h : Rep s q) (t : Ptr) :
    ∃ s' r, removeTimer s t = .ok (s', r) ∧ Rep s' (q.remove t) ∧ Frame s s' := by
  obtain ⟨l, p, f, h, hb, rfl⟩ := h
  have hof : s.isOf t = fun x => (s.armedAt x).of t := rfl
  simp only [removeTimer, hof]
  by_cases hl : ∃ x ∈ l, (s.armedAt x).of t = true
  · obtain ⟨x, hxl, hx⟩ := hl
    obtain ⟨e, l₁, l₂, h1, he, rfl, her⟩ :=
      List.exists_of_eraseP (p := fun x => (s.armedAt x).of t) hxl hx
    have hseek : seek s.next (fun x => (s.armedAt x).of t) s.brk 0 s.timerList
        = .ok (l₁.getLastD 0, e) :=
      seek_found h.list (h.length_lt (by simp) hb) (by simpa using h1) he
    have he0 : e ≠ 0 := h.list.ne_zero e (by simp)
    have hun := unlinkList_lists h
    simp only [hseek, Res.ok_bind, ne_eq, he0, not_false_eq_true, if_true, Res.pure_eq] at hun ⊢
    generalize (if l₁.getLastD 0 = 0 then { s with timerList := s.next e }
      else s.setNext (l₁.getLastD 0) (s.next e)) = s₁ at hun ⊢
    obtain ⟨hu, hloose, harm, hfr, hbrk⟩ := hun
    obtain ⟨hrec, harm'⟩ := recycle_lists hu hloose
    refine ⟨_, 0, rfl, ⟨_, _, _, hrec, ?_, ?_⟩, hfr.trans ⟨rfl, rfl, rfl, rfl⟩⟩
    · show 0 < s₁.brk
      omega
    · have hany : ((l₁ ++ e :: l₂).map s.armedAt).any (Armed.of t) = true := by
        simp only [List.any_eq_true, List.mem_map]
        exact ⟨_, ⟨e, by simp, rfl⟩, he⟩
      have her' : (l₁ ++ e :: l₂).eraseP (Armed.of t ∘ s.armedAt) = l₁ ++ l₂ := her
      rw [harm', harm, Queue.remove, if_pos hany, List.eraseP_map, her']
  have hl' : ∀ x ∈ l, (s.armedAt x).of t = false := fun x hx => by
    by_contra hc
    exact hl ⟨x, hx, by simpa using hc⟩
  have hany : (l.map s.armedAt).any (Armed.of t) = false := by
    rw [List.any_map, List.any_eq_false]
    exact fun x hx => by simp [hl' x hx]
  obtain ⟨pp, hseek⟩ := seek_none 0 h.list (h.length_lt (by simp) hb) hl'
  by_cases hp : ∃ x ∈ p, (s.armedAt x).of t = true
  · obtain ⟨x, hxp, hx⟩ := hp
    obtain ⟨e, p₁, p₂, h1, he, rfl, her⟩ :=
      List.exists_of_eraseP (p := fun x => (s.armedAt x).of t) hxp hx
    have hseek' : seek s.next (fun x => (s.armedAt x).of t) s.brk 0 s.pendingList
        = .ok (p₁.getLastD 0, e) :=
      seek_found h.pending (h.length_lt (by simp) hb) (by simpa using h1) he
    have he0 : e ≠ 0 := h.pending.ne_zero e (by simp)
    have hun := unlinkPending_lists h
    simp only [hseek, hseek', Res.ok_bind, ne_eq, he0, not_false_eq_true, if_true, Res.pure_eq,
      not_true_eq_false, if_false] at hun ⊢
    generalize (if p₁.getLastD 0 = 0 then { s with pendingList := s.next e }
      else s.setNext (p₁.getLastD 0) (s.next e)) = s₁ at hun ⊢
    obtain ⟨hu, hloose, harm, hfr, hbrk⟩ := hun
    obtain ⟨hrec, harm'⟩ := recycle_lists hu hloose
    refine ⟨_, 0, rfl, ⟨_, _, _, hrec, ?_, ?_⟩, hfr.trans ⟨rfl, rfl, rfl, rfl⟩⟩
    · show 0 < s₁.brk
      omega
    · have her' : (p₁ ++ e :: p₂).eraseP (Armed.of t ∘ s.armedAt) = p₁ ++ p₂ := her
      rw [harm', harm, Queue.remove, if_neg (by simp [hany]), List.eraseP_map, her']
  · have hp' : ∀ x ∈ p, (s.armedAt x).of t = false := fun x hx => by
      by_contra hc
      exact hp ⟨x, hx, by simpa using hc⟩
    obtain ⟨pp', hseek'⟩ := seek_none 0 h.pending (h.length_lt (by simp) hb) hp'
    simp only [hseek, hseek', Res.ok_bind, ne_eq, not_true_eq_false, if_false, Res.pure_eq]
    refine ⟨_, -1, rfl, ⟨l, p, f, h, hb, ?_⟩, Frame.refl s⟩
    rw [Queue.remove, if_neg (by simp [hany]), List.eraseP_of_forall_not]
    simpa using hp'

theorem stopTimer_rep (h : Rep s q) (t : Ptr) :
    ∃ s', stopTimer s t = .ok s' ∧ Rep s' (q.remove t) ∧ Frame s s' := by
  obtain ⟨s', r, hs', hr, hfr⟩ := removeTimer_rep h t
  exact ⟨s', by simp [stopTimer, hs'], hr, hfr⟩

theorem destroyTimer_rep (h : Rep s q) {t : Ptr} (ht : (s.timers t).isSome) :
    ∃ s', destroyTimer s t = .ok s' ∧ Rep s' (q.remove t) ∧
      s'.inCheckTimeoutLock = s.inCheckTimeoutLock ∧ s'.timers = update s.timers t none ∧
      s'.clock = s.clock ∧ s'.malloc = s.malloc := by
  obtain ⟨s', r, hs', hr, hfr⟩ := removeTimer_rep h t
  obtain ⟨tm, htm⟩ := Option.isSome_iff_exists.1 ht
  rw [← hfr.timers] at htm
  refine ⟨{ s' with timers := update s'.timers t none }, ?_, hr.congr rfl rfl rfl rfl rfl, hfr.lock,
    by rw [← hfr.timers], hfr.clock, hfr.malloc⟩
  simp [destroyTimer, hs', Res.deref_of_some htm]

/-- `start_timer` arms the timer anew; when `malloc` fails it answers `-1` and has only stopped
it. -/
theorem startTimer_rep (h : Rep s q) {t : Ptr} (ht : (s.timers t).isSome) (n : Int32) :
    ∃ s' r, startTimer s t n = .ok (s', r) ∧ Frame s s' ∧
      ((r = -1 ∧ Rep s' (q.remove t) ∧ s.malloc ≠ fun _ => true) ∨
        (r = 0 ∧ ∃ d, Rep s' ((q.remove t).arm s.inCheckTimeoutLock ⟨t, d, n⟩))) := by
  obtain ⟨s₁, r, hs₁, ⟨l, p, f, hl, hb, hq⟩, hfr⟩ := removeTimer_rep h t
  simp only [startTimer, hs₁, Res.ok_bind]
  obtain ⟨e, s₂, ha⟩ : ∃ e s₂, allocEntry s₁ = (e, s₂) := ⟨_, _, rfl⟩
  rw [ha]
  rcases allocEntry_lists hl hb ha with ⟨he0, rfl, hm⟩ | ⟨he0, f', hl₂, he, harm, hfr₂⟩
  · simp only [if_pos he0]
    refine ⟨_, -1, rfl, hfr.trans ⟨rfl, rfl, rfl, rfl⟩, .inl ⟨rfl, ?_, hfr.malloc ▸ hm⟩⟩
    exact Rep.congr ⟨l, p, f, hl, hb, hq⟩ rfl rfl rfl rfl rfl
  · simp only [if_neg he0]
    let s₃ := s₂.setEntry e { s₂.entries e with timer := t, repeats := n }
    have hent : s₃.entries e = { s₂.entries e with timer := t, repeats := n } := update_self ..
    obtain ⟨s', hs', hfr', d, hr⟩ := addTimer_rep (s := s₃) (hl₂.setEntry he.notMem _)
      ⟨he.ne_zero, he.lt, he.notMem⟩ (by
        rw [hent]
        show (s₂.timers t).isSome
        rw [hfr₂.timers, hfr.timers]
        exact ht)
    have hnot := he.notMem
    simp only [List.mem_append, not_or] at hnot
    refine ⟨s', 0, ?_, (hfr.trans hfr₂).trans ⟨hfr'.lock, hfr'.timers, hfr'.clock, hfr'.malloc⟩,
      .inr ⟨rfl, d, ?_⟩⟩
    · show (addTimer s₃ e >>= fun s => Res.ok (s, 0)) = _
      rw [hs', Res.ok_bind]
    · have h1 : l.map s₃.armedAt = l.map s₁.armedAt := by
        rw [map_armedAt_setEntry hnot.1.1, harm]
      have h2 : p.map s₃.armedAt = p.map s₁.armedAt := by
        rw [map_armedAt_setEntry hnot.1.2, harm]
      have h3 : s₃.inCheckTimeoutLock = s.inCheckTimeoutLock := hfr₂.lock.trans hfr.lock
      have h4 : { s₃.armedAt e with timeout := d } = ⟨t, d, n⟩ := by
        simp [Timers.armedAt, hent, Entry.armed]
      rw [h1, h2, h3, h4, ← hq] at hr
      exact hr

theorem setTimeout_rep (h : Rep s q) (t : Ptr) (tv : Timeval) :
    ∃ s' r, setTimeout s t tv = .ok (s', r) ∧ Frame s s' ∧
      ((r = -1 ∧ Rep s' (q.remove t)) ∨
        (r = 0 ∧ Rep s' ((q.remove t).arm s.inCheckTimeoutLock ⟨t, tv, 1⟩))) := by
  obtain ⟨s₁, r, hs₁, ⟨l, p, f, hl, hb, hq⟩, hfr⟩ := removeTimer_rep h t
  simp only [setTimeout, hs₁, Res.ok_bind]
  obtain ⟨e, s₂, ha⟩ : ∃ e s₂, allocEntry s₁ = (e, s₂) := ⟨_, _, rfl⟩
  rw [ha]
  rcases allocEntry_lists hl hb ha with ⟨he0, rfl, -⟩ | ⟨he0, f', hl₂, he, harm, hfr₂⟩
  · simp only [if_pos he0]
    refine ⟨_, -1, rfl, hfr.trans ⟨rfl, rfl, rfl, rfl⟩, .inl ⟨rfl, ?_⟩⟩
    exact Rep.congr ⟨l, p, f, hl, hb, hq⟩ rfl rfl rfl rfl rfl
  · simp only [if_neg he0]
    let s₃ := s₂.setEntry e { s₂.entries e with timer := t, repeats := 1, timeout := tv }
    have hent : s₃.entries e = { s₂.entries e with timer := t, repeats := 1, timeout := tv } :=
      update_self ..
    obtain ⟨s', hs', hr, hfr'⟩ := arm_rep (s := s₃) (hl₂.setEntry he.notMem _)
      ⟨he.ne_zero, he.lt, he.notMem⟩
    have hnot := he.notMem
    simp only [List.mem_append, not_or] at hnot
    refine ⟨s', 0, ?_, (hfr.trans hfr₂).trans ⟨hfr'.lock, hfr'.timers, hfr'.clock, hfr'.malloc⟩,
      .inr ⟨rfl, ?_⟩⟩
    · show (if s₃.inCheckTimeoutLock = true then Res.ok (pendTimer s₃ e, (0 : Int)) else
        insertTimer s₃ e >>= fun s => Res.ok (s, 0)) = _
      split at hs'
      · rename_i hc
        rw [if_pos hc, Res.ok.inj hs']
      · rename_i hc
        rw [if_neg hc, hs', Res.ok_bind]
    · have h1 : l.map s₃.armedAt = l.map s₁.armedAt := by
        rw [map_armedAt_setEntry hnot.1.1, harm]
      have h2 : p.map s₃.armedAt = p.map s₁.armedAt := by
        rw [map_armedAt_setEntry hnot.1.2, harm]
      have h3 : s₃.inCheckTimeoutLock = s.inCheckTimeoutLock := hfr₂.lock.trans hfr.lock
      have h4 : s₃.armedAt e = ⟨t, tv, 1⟩ := by simp [Timers.armedAt, hent, Entry.armed]
      rw [h1, h2, h3, h4, ← hq] at hr
      exact hr

/-! ## The pass -/

theorem timerEnter_rep (h : Rep s q) : Rep (timerEnter s).2 q := h.congr rfl rfl rfl rfl rfl

/-- The loop ends when the head of `timer_list` is not due. -/
theorem timerFire_none (h : Rep s q) {tv : Timeval}
    (hq : ∀ e ∈ q.list.head?, tvcmp tv e.timeout < 0) : timerFire tv s = .ok none := by
  obtain ⟨l, p, f, h, -, rfl⟩ := h
  have hc : s.timerList = 0 ∨ tvcmp tv (s.entries s.timerList).timeout < 0 := by
    cases l with
    | nil => exact .inl h.list
    | cons x l =>
      have hx : s.timerList = x := (isList_cons.1 h.list).1
      exact .inr (by rw [hx]; exact hq (s.armedAt x) rfl)
  simp [timerFire, hc]

theorem unlinkHead_lists {x : Ptr} {l p f : List Ptr} (h : Lists s (x :: l) p f) :
    Lists (unlinkHead s) l p f ∧ Loose (unlinkHead s) l p f x ∧
      (unlinkHead s).armedAt = update s.armedAt x
        { s.armedAt x with repeats := (s.armedAt x).repeats - 1 } ∧ Frame s (unlinkHead s) := by
  obtain ⟨hx, hx0, hl⟩ := isList_cons.1 h.list
  have hperm : (x :: l ++ p ++ f).Perm (x :: (l ++ p ++ f)) := by simp
  obtain ⟨hnot, hnd⟩ := List.nodup_cons.1 (hperm.nodup_iff.1 h.nodup)
  have hlt : ∀ y ∈ l ++ p ++ f, y < s.brk := fun y hy =>
    h.lt y (hperm.mem_iff.2 (List.mem_cons_of_mem _ hy))
  have h₁ : Lists { s with timerList := s.next x } l p f := ⟨hl, h.pending, h.free, hnd, hlt⟩
  simp only [unlinkHead, hx]
  exact ⟨h₁.setEntry hnot _, ⟨hx0, h.lt x (by simp), hnot⟩, armedAt_setEntry .., ⟨rfl, rfl, rfl, rfl⟩⟩

theorem sub_one_ne_zero {n : Int32} : n - 1 ≠ 0 ↔ n ≠ 1 := by
  grind

/-- A round of the loop takes the head off `timer_list` and, unless it was its last time, pends it
for its next one. -/
theorem timerFire_rep {e : Armed} {rest pend : List Armed} (h : Rep s ⟨e :: rest, pend⟩)
    (hlock : s.inCheckTimeoutLock = true) (ht : (s.timers e.timer).isSome) {tv : Timeval}
    (hdue : 0 ≤ tvcmp tv e.timeout) :
    ∃ s', timerFire tv s = .ok (some (e.timer, s')) ∧ Frame s s' ∧ ∃ d,
      Rep s' ⟨rest, if e.repeats = 1 then pend else ⟨e.timer, d, e.repeats - 1⟩ :: pend⟩ := by
  obtain ⟨l, p, f, h, hb, hq⟩ := h
  cases l with
  | nil => simp at hq
  | cons x l =>
    simp only [List.map_cons, Queue.mk.injEq, List.cons.injEq] at hq
    obtain ⟨⟨rfl, rfl⟩, rfl⟩ := hq
    obtain ⟨hx, hx0, -⟩ := isList_cons.1 h.list
    have hdue' : 0 ≤ tvcmp tv (s.entries x).timeout := hdue
    have hc : ¬ (x = 0 ∨ tvcmp tv (s.entries x).timeout < 0) := not_or.2 ⟨hx0, not_lt.2 hdue'⟩
    -- `s₁` is `s` but for its jitter
    obtain ⟨s₁, hs₁⟩ : ∃ s₁, noteJitter s (tvcmp tv (s.entries x).timeout) = s₁ := ⟨_, rfl⟩
    have h₁ : Lists s₁ (x :: l) p f := by
      rw [← hs₁]; exact ⟨h.list, h.pending, h.free, h.nodup, h.lt⟩
    have hfr₁ : Frame s s₁ := by rw [← hs₁]; exact ⟨rfl, rfl, rfl, rfl⟩
    have ha₁ : s₁.armedAt = s.armedAt := by rw [← hs₁]; rfl
    obtain ⟨h₂, he, ha₂, hfr₂⟩ := unlinkHead_lists h₁
    rw [ha₁] at ha₂
    have hax : (unlinkHead s₁).armedAt x = { s.armedAt x with repeats := (s.armedAt x).repeats - 1 } := by
      rw [ha₂, update_self]
    have hnot := he.notMem
    simp only [List.mem_append, not_or] at hnot
    have hml : l.map (unlinkHead s₁).armedAt = l.map s.armedAt := by
      rw [ha₂]
      exact List.map_congr_left fun y hy => update_of_ne (ne_of_mem_of_not_mem hy hnot.1.1) _ _
    have hmp : p.map (unlinkHead s₁).armedAt = p.map s.armedAt := by
      rw [ha₂]
      exact List.map_congr_left fun y hy => update_of_ne (ne_of_mem_of_not_mem hy hnot.1.2) _ _
    have htx : ((unlinkHead s₁).entries x).timer = (s.armedAt x).timer := congrArg Armed.timer hax
    have hrx : ((unlinkHead s₁).entries x).repeats = (s.armedAt x).repeats - 1 :=
      congrArg Armed.repeats hax
    simp only [timerFire, hx, if_neg hc, hs₁, htx, hrx]
    by_cases hrep : (s.armedAt x).repeats = 1
    · obtain ⟨h₃, ha₃⟩ := recycle_lists h₂ he
      refine ⟨(unlinkHead s₁).recycle x, if_neg (by rw [hrep]; decide),
        (hfr₁.trans hfr₂).trans ⟨rfl, rfl, rfl, rfl⟩, (s.armedAt x).timeout, l, p, x :: f, h₃, ?_, ?_⟩
      · exact Nat.lt_of_le_of_lt (Nat.zero_le _) he.lt
      · rw [ha₃, hml, hmp, if_pos hrep]
    · obtain ⟨s', hs', hfr', d, hr⟩ := addTimer_rep h₂ he (by
        rw [htx, hfr₂.timers, hfr₁.timers]
        exact ht)
      refine ⟨s', ?_, (hfr₁.trans hfr₂).trans hfr', d, ?_⟩
      · rw [if_pos (sub_one_ne_zero.2 hrep), hs', Res.ok_bind]
      · rw [hml, hmp, hfr₂.lock, hfr₁.lock, hlock, hax] at hr
        rw [if_neg hrep]
        exact hr

/-- `insert_timer` does not look at `pending_list`. -/
theorem insertTimer_pendingList (s : Timers κ) (e v : Ptr) {s' : Timers κ}
    (h : insertTimer { s with pendingList := v } e = .ok s') :
    s'.pendingList = v ∧ insertTimer s e = .ok { s' with pendingList := s.pendingList } := by
  by_cases hc : s.timerList = 0 ∨ s.before e s.timerList
  · simp only [insertTimer, if_pos hc] at h ⊢
    rw [if_pos (show _ ∨ Timers.before { s with pendingList := v } e s.timerList = true from hc)] at h
    cases h
    exact ⟨rfl, rfl⟩
  · simp only [insertTimer, if_neg hc] at h ⊢
    rw [if_neg (show ¬ (_ ∨ Timers.before { s with pendingList := v } e s.timerList = true)
      from hc)] at h
    obtain ⟨ep, hep, h⟩ := Res.bind_eq_ok.1 h
    cases h
    exact ⟨rfl, Res.bind_eq_ok.2 ⟨ep, hep, rfl⟩⟩

/-- The merge loop, from a state whose remaining pending entries start at `e`. -/
theorem mergePending_lists : ∀ {p l f : List Ptr} {s : Timers κ} {e : Ptr} {fuel : Nat},
    Lists { s with pendingList := e } l p f → 0 < s.brk → p.length < fuel →
    ∃ s', mergePending fuel e s = .ok s' ∧ Frame s s' ∧
      Rep { s' with pendingList := 0 } (Queue.merge ⟨l.map s.armedAt, p.map s.armedAt⟩)
  | [], l, f, s, e, fuel, h, hb, hf => by
    obtain ⟨fuel, rfl⟩ : ∃ n, fuel = n + 1 := ⟨fuel - 1, by simp at hf; omega⟩
    have he : e = 0 := h.pending
    refine ⟨s, by simp [mergePending, he], Frame.refl s, l, [], f, ?_, hb, rfl⟩
    exact ⟨h.list, isList_nil.2 rfl, h.free, h.nodup, h.lt⟩
  | x :: p, l, f, s, e, fuel, h, hb, hf => by
    obtain ⟨fuel, rfl⟩ : ∃ n, fuel = n + 1 := ⟨fuel - 1, by simp at hf; omega⟩
    obtain ⟨hx, hx0, hp⟩ := isList_cons.1 h.pending
    have hx' : e = x := hx
    subst hx'
    have hperm : (l ++ e :: p ++ f).Perm (e :: (l ++ p ++ f)) := by simp
    obtain ⟨hnot, hnd⟩ := List.nodup_cons.1 (hperm.nodup_iff.1 h.nodup)
    have hlt : ∀ y ∈ l ++ p ++ f, y < s.brk := fun y hy =>
      h.lt y (hperm.mem_iff.2 (List.mem_cons_of_mem _ hy))
    have h₁ : Lists { s with pendingList := s.next e } l p f := ⟨h.list, hp, h.free, hnd, hlt⟩
    obtain ⟨s', hs', h₂, ha, hfr, hbrk⟩ :=
      insertTimer_lists h₁ ⟨hx0, h.lt e (by simp), hnot⟩
    obtain ⟨hpl, hs''⟩ := insertTimer_pendingList s e (s.next e) hs'
    let s'' := { s' with pendingList := s.pendingList }
    have h₃ : Lists { s'' with pendingList := s.next e }
        (l.orderedInsert (fun a b => (s.armedAt a).Before (s.armedAt b)) e) p f := by
      rw [show ({ s'' with pendingList := s.next e } : Timers κ) = s' by rw [← hpl]]
      exact h₂
    obtain ⟨s₃, hs₃, hfr₃, hr⟩ := mergePending_lists h₃ (show 0 < s'.brk by rw [hbrk]; exact hb)
      (show p.length < fuel by simpa using hf)
    refine ⟨s₃, ?_, (⟨hfr.lock, hfr.timers, hfr.clock, hfr.malloc⟩ : Frame s s'').trans hfr₃, ?_⟩
    · have he0 : ¬ e = 0 := hx0
      simp only [mergePending, if_neg he0, hs'', Res.ok_bind]
      exact hs₃
    · have ha' : s''.armedAt = s.armedAt := ha
      rw [ha', List.map_orderedInsert _ Armed.Before] at hr
      · exact hr
      · exact fun _ _ => Iff.rfl
      · exact fun _ _ => Iff.rfl

/-- The end of a pass inserts what is pending. -/
theorem timerLeave_rep (h : Rep s q) :
    ∃ s' r, timerLeave s = .ok (s', r) ∧ Rep s' q.merge ∧ s'.inCheckTimeoutLock = false ∧
      s'.timers = s.timers ∧ s'.clock = s.clock ∧ s'.malloc = s.malloc := by
  obtain ⟨l, p, f, h, hb, rfl⟩ := h
  obtain ⟨s₁, hs₁, hfr, hr⟩ := mergePending_lists (s := { s with inCheckTimeoutLock := false })
    (e := s.pendingList) ⟨h.list, h.pending, h.free, h.nodup, h.lt⟩ hb (h.length_lt (by simp) hb)
  simp only [timerLeave, hs₁, Res.ok_bind, Res.pure_eq]
  split
  · exact ⟨_, -1, rfl, hr, hfr.lock, hfr.timers, hfr.clock, hfr.malloc⟩
  · exact ⟨_, _, rfl, hr.congr rfl rfl rfl rfl rfl, hfr.lock, hfr.timers, hfr.clock, hfr.malloc⟩

end

end Utils
