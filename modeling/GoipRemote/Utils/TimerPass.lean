import GoipRemote.Lib.Tolerant
import GoipRemote.Utils.TimerRun

/-!
# Which timers a pass fires

`insert_timer` compares with `tvcmp`, which drops what is below a millisecond within a second, so
`timer_list` is sorted only up to a tolerance: `Timeval.Le`. This is enough for a pass that looks at
the head alone (`Timeval.Le.due`), it is kept by an insertion (`orderedInsert_sorted`) and by every
call, and so holds at the start of every pass (`Reach.sorted`).

A pass is `timerCheckTimeout` with callbacks that make the calls of a script (`TimerRun.pass`).
`timerLoop_scripted` is the invariant of its loop: what is left of `timer_list` is what was there at
the start and has been neither fired nor named by a call since.
-/

namespace Utils

open Function LinkedList

variable {κ : Type}

/-! ## Deadlines -/

/-- The microseconds since the epoch. -/
def Timeval.micros (tv : Timeval) : Int := tv.tvSec * 1000000 + tv.tvUsec

/-- In the `2 ^ 31 - 1` milliseconds from `lo`, and the microseconds as the file leaves them. -/
structure Timeval.Within (lo : Int) (tv : Timeval) : Prop where
  usec_nonneg : 0 ≤ tv.tvUsec
  usec_le : tv.tvUsec ≤ 1000000
  lo_le : lo ≤ tv.micros
  le_hi : tv.micros ≤ lo + (2 ^ 31 - 1) * 1000

/-- `x` may stand in front of `y`: it is not later, or later by less than a millisecond in the same
second. -/
def Timeval.Le (x y : Timeval) : Prop :=
  x.micros ≤ y.micros ∨ x.tvSec = y.tvSec ∧ x.tvUsec < y.tvUsec + 1000

/-- The sign of `tvcmp`. The last case is that of one point in time written in two ways. -/
theorem tvcmp_nonneg {lo : Int} {x y : Timeval} (hx : x.Within lo) (hy : y.Within lo) :
    0 ≤ tvcmp x y ↔ y.tvSec < x.tvSec ∨ x.tvSec = y.tvSec ∧ y.tvUsec < x.tvUsec + 1000 ∨
      y.tvSec = x.tvSec + 1 ∧ x.tvUsec = 1000000 ∧ y.tvUsec = 0 := by
  obtain ⟨hx1, hx2, hx3, hx4⟩ := hx
  obtain ⟨hy1, hy2, hy3, hy4⟩ := hy
  unfold Timeval.micros at hx3 hx4 hy3 hy4
  have hd : (x.tvUsec - y.tvUsec).tdiv 1000 =
      if 0 ≤ x.tvUsec - y.tvUsec then (x.tvUsec - y.tvUsec) / 1000
      else -((y.tvUsec - x.tvUsec) / 1000) := by
    split
    · rw [Int.tdiv_eq_ediv_of_nonneg ‹_›]
    · have hneg := Int.neg_tdiv (y.tvUsec - x.tvUsec) 1000
      rw [Int.neg_sub] at hneg
      rw [hneg, Int.tdiv_eq_ediv_of_nonneg (by omega)]
  -- the difference fits an `int`
  have hfit : tvcmp x y = (x.tvSec - y.tvSec) * 1000 + (x.tvUsec - y.tvUsec).tdiv 1000 := by
    unfold tvcmp toInt
    rw [hd]
    refine Int.bmod_eq_of_le ?_ ?_ <;> split <;> omega
  rw [hfit, hd]
  split <;> omega

theorem Timeval.Le.of_not_before {lo : Int} {e x : Timeval} (he : e.Within lo) (hx : x.Within lo)
    (h : ¬ tvcmp e x < 0) : x.Le e := by
  rw [not_lt, tvcmp_nonneg he hx] at h
  obtain ⟨he1, he2, -, -⟩ := he
  obtain ⟨hx1, hx2, -, -⟩ := hx
  unfold Timeval.Le Timeval.micros
  omega

theorem micros_le_of_before {lo : Int} {e x : Timeval} (he : e.Within lo) (hx : x.Within lo)
    (h : tvcmp e x < 0) : e.tvSec < x.tvSec ∨ e.tvSec = x.tvSec ∧ e.tvUsec + 1000 ≤ x.tvUsec := by
  have hn := mt (tvcmp_nonneg he hx).2 (not_le.2 h)
  omega

/-- Being before `x` puts `e` in front of all that `x` may stand in front of. -/
theorem Timeval.Le.trans_before {lo : Int} {e x y : Timeval} (he : e.Within lo) (hx : x.Within lo)
    (hy : y.Within lo) (h : tvcmp e x < 0) (hxy : x.Le y) : e.Le y := by
  have hlt := micros_le_of_before he hx h
  obtain ⟨he1, he2, -, -⟩ := he
  obtain ⟨hx1, hx2, -, -⟩ := hx
  obtain ⟨hy1, hy2, -, -⟩ := hy
  unfold Timeval.Le Timeval.micros at hxy ⊢
  omega

theorem Timeval.Le.refl (x : Timeval) : x.Le x := .inl le_rfl

/-- What the head check finds: if `y` is due, so is all that stands in front of it. The time of the
pass is below a full second, as the clock answers it. -/
theorem Timeval.Le.due {lo : Int} {now x y : Timeval} (hnow : now.Within lo) (hx : x.Within lo)
    (hy : y.Within lo) (hus : now.tvUsec < 1000000) (hxy : x.Le y) (hdue : y.micros ≤ now.micros) :
    0 ≤ tvcmp now x := by
  rw [tvcmp_nonneg hnow hx]
  obtain ⟨hn1, hn2, -, -⟩ := hnow
  obtain ⟨hx1, hx2, -, -⟩ := hx
  obtain ⟨hy1, hy2, -, -⟩ := hy
  unfold Timeval.Le Timeval.micros at *
  omega

/-- What passes the head check is due within the millisecond. -/
theorem micros_lt_of_due {lo : Int} {now x : Timeval} (hnow : now.Within lo) (hx : x.Within lo)
    (h : 0 ≤ tvcmp now x) : x.micros < now.micros + 1000 := by
  rw [tvcmp_nonneg hnow hx] at h
  obtain ⟨hn1, hn2, -, -⟩ := hnow
  obtain ⟨hx1, hx2, -, -⟩ := hx
  unfold Timeval.micros
  omega

/-! ## Sorted queues -/

/-- `timer_list` is sorted up to the tolerance. -/
def Sorted (l : List Armed) : Prop := l.Pairwise fun x y => x.timeout.Le y.timeout

theorem orderedInsert_sorted {lo : Int} {e : Armed} {l : List Armed} (h : Sorted l)
    (he : e.timeout.Within lo) (hl : ∀ x ∈ l, x.timeout.Within lo) :
    Sorted (l.orderedInsert Armed.Before e) := by
  refine Tolerant.pairwise_orderedInsert (fun x hx hlt => ?_) (fun x hx hlt => ?_)
    (fun x hx y hy hlt hxy => ?_) h
  · exact Timeval.Le.of_not_before he (hl x hx) hlt
  · exact Timeval.Le.trans_before he (hl x hx) (hl x hx) hlt (Timeval.Le.refl _)
  · exact Timeval.Le.trans_before he (hl x hx) (hl y hy) hlt hxy

theorem merge_sorted {lo : Int} : ∀ {p l : List Armed}, Sorted l →
    (∀ x ∈ (Queue.mk l p).merge.list, x.timeout.Within lo) → Sorted (Queue.mk l p).merge.list
  | [], l, h, _ => h
  | e :: p, l, h, hw => by
    have hmem : ∀ x, x ∈ e :: l → x ∈ (Queue.mk l (e :: p)).merge.list := fun x hx => by
      have hp := (Queue.merge_perm ⟨l, e :: p⟩).mem_iff (a := x)
      rw [Queue.all, Queue.all, show (Queue.mk l (e :: p)).merge.pending = [] from rfl,
        List.append_nil] at hp
      rw [hp]
      rcases List.mem_cons.1 hx with rfl | hx <;> simp [*]
    refine merge_sorted (p := p) (l := l.orderedInsert Armed.Before e) ?_ hw
    exact orderedInsert_sorted h (hw e (hmem e (by simp)))
      fun x hx => hw x (hmem x (List.mem_cons_of_mem _ hx))

/-! ## A pass -/

/-- The timer an event is about. -/
def TimerEvent.timer : TimerEvent → Ptr
  | .fired t | .started t | .stopped t => t

/-- Calls one after the other. -/
def TimerRun.ops : List (TimerOp κ) → TimerRun κ → Res (TimerRun κ)
  | [], w => .ok w
  | o :: os, w => do
    let w ← w.op o
    ops os w

/-- A callback: it makes the calls of the next script. -/
def TimerRun.callback (t : Ptr) (_ : Timer κ) :
    TimerRun κ × List (List (TimerOp κ)) → Res (TimerRun κ × List (List (TimerOp κ)))
  | (w, scripts) => do
    let w ← TimerRun.ops (scripts.headD []) { w with log := .fired t :: w.log }
    .ok (w, scripts.tail)

/-- A pass; the `k`-th callback it calls makes the calls of the `k`-th script. -/
def TimerRun.pass (w : TimerRun κ) (scripts : List (List (TimerOp κ))) : Res (TimerRun κ) := do
  let (w, _) ← timerCheckTimeout (fun w => w.1.ts) (fun w ts => ({ w.1 with ts := ts }, w.2))
    TimerRun.callback (w, scripts)
  .ok w.1

/-- The loop of a pass that began with `L` as `timer_list`, `evs` being its events so far. -/
structure PassInv (L : List Armed) (log : List TimerEvent) (tv : Timeval) (w : TimerRun κ)
    (q : Queue) (evs : List TimerEvent) : Prop where
  sound : Sound w.ts q
  lock : w.ts.inCheckTimeoutLock = true
  log : w.log = evs ++ log
  left : q.list = L.filter fun e => e.timer ∉ evs.map TimerEvent.timer
  due : ∀ t, .fired t ∈ evs → ∃ e ∈ L, e.timer = t ∧ 0 ≤ tvcmp tv e.timeout
  once : evs.Pairwise fun a b => ∀ t, a = .fired t → b.timer ≠ t

section
variable {L : List Armed} {log : List TimerEvent} {tv : Timeval} {w : TimerRun κ} {q : Queue}
  {evs : List TimerEvent}

theorem filter_event (L : List Armed) (ev : TimerEvent) (evs : List TimerEvent) :
    (L.filter fun e => e.timer ∉ evs.map TimerEvent.timer).filter (fun e => e.timer ≠ ev.timer) =
      L.filter fun e => e.timer ∉ (ev :: evs).map TimerEvent.timer := by
  rw [List.filter_filter]
  refine List.filter_congr fun e _ => ?_
  simp [List.mem_cons, not_or]

/-- A call that restarts or stops a timer takes its entry out of what is left. -/
theorem PassInv.event {ts : Timers κ} {q' : Queue} (h : PassInv L log tv w q evs) (ev : TimerEvent)
    (hs : Sound ts q') (hl : ts.inCheckTimeoutLock = true)
    (hev : ∀ t, ev ≠ .fired t) (hq : q'.list = q.list.filter fun e => e.timer ≠ ev.timer) :
    PassInv L log tv ⟨ts, w.now, ev :: w.log⟩ q' (ev :: evs) where
  sound := hs
  lock := hl
  log := by rw [h.log]; rfl
  left := by rw [hq, h.left, filter_event]
  due := fun t ht => h.due t ((List.mem_cons.1 ht).resolve_left fun hc => hev t hc.symm)
  once := List.pairwise_cons.2 ⟨fun b _ t hc => absurd hc (hev t), h.once⟩

theorem op_passInv (h : PassInv L log tv w q evs) (o : TimerOp κ) :
    ∃ w' q' evs', w.op o = .ok w' ∧ PassInv L log tv w' q' evs' ∧ q'.list.Sublist q.list := by
  obtain ⟨ts, log', q', ho, hs, hl, hq⟩ := op_cases h.sound o
  have hl' : ts.inCheckTimeoutLock = true := hl.trans h.lock
  rcases hq with ⟨rfl, rfl⟩ | ⟨t, rfl, rfl⟩ | ⟨a, rfl, rfl⟩
  · exact ⟨_, _, evs, ho, ⟨hs, hl', h.log, h.left, h.due, h.once⟩, List.Sublist.refl _⟩
  · have hlist : (q.remove t).list = q.list.filter fun e => e.timer ≠ t := by
      rw [Queue.remove_eq h.sound.unique]
    refine ⟨_, _, _, ho, h.event (.stopped t) hs hl' (by simp) hlist, ?_⟩
    rw [hlist]
    exact List.filter_sublist
  · have hlist : ((q.remove a.timer).arm w.ts.inCheckTimeoutLock a).list =
        q.list.filter fun e => e.timer ≠ a.timer := by
      rw [h.lock, Queue.arm, if_pos rfl, Queue.remove_eq h.sound.unique]
    refine ⟨_, _, _, ho, h.event (.started a.timer) hs hl' (by simp) hlist, ?_⟩
    rw [hlist]
    exact List.filter_sublist

theorem ops_passInv (os : List (TimerOp κ)) (h : PassInv L log tv w q evs) :
    ∃ w' q' evs', w.ops os = .ok w' ∧ PassInv L log tv w' q' evs' ∧ q'.list.Sublist q.list := by
  induction os generalizing w q evs with
  | nil => exact ⟨w, q, evs, rfl, h, List.Sublist.refl _⟩
  | cons o os ih =>
    obtain ⟨w₁, q₁, evs₁, ho, h₁, hsub₁⟩ := op_passInv h o
    obtain ⟨w₂, q₂, evs₂, hos, h₂, hsub₂⟩ := ih h₁
    exact ⟨w₂, q₂, evs₂, by rw [TimerRun.ops, ho]; exact hos, h₂, hsub₂.trans hsub₁⟩

theorem PassInv.mem_left (h : PassInv L log tv w q evs) {e : Armed} :
    e ∈ q.list ↔ e ∈ L ∧ e.timer ∉ evs.map TimerEvent.timer := by
  rw [h.left, List.mem_filter, decide_eq_true_iff]

/-- A round whose head is due: the head's timer is fired, and the rest of the list is left. -/
theorem PassInv.fired {e : Armed} {rest pend : List Armed} {ts : Timers κ} {q' : Queue}
    (h : PassInv L log tv w ⟨e :: rest, pend⟩ evs) (hs : Sound ts q')
    (hl : ts.inCheckTimeoutLock = true) (hdue : 0 ≤ tvcmp tv e.timeout) (hq : q'.list = rest) :
    PassInv L log tv ⟨ts, w.now, .fired e.timer :: w.log⟩ q' (.fired e.timer :: evs) where
  sound := hs
  lock := hl
  log := by rw [h.log]; rfl
  left := by
    -- the head is the only entry of its timer
    have hrest : rest = (e :: rest).filter fun x => x.timer ≠ (TimerEvent.fired e.timer).timer := by
      have hu := h.sound.unique
      rw [Queue.Unique, Queue.all, List.map_append] at hu
      have hnot := (List.nodup_cons.1 (List.Nodup.of_append_left hu)).1
      rw [List.filter_cons_of_neg (by simp [TimerEvent.timer])]
      refine (List.filter_eq_self.2 fun x hx => ?_).symm
      have hne : x.timer ≠ e.timer := fun hxe => hnot (List.mem_map.2 ⟨x, hx, hxe⟩)
      rw [decide_eq_true_iff]
      exact hne
    rw [hq, hrest, show e :: rest = L.filter _ from h.left, filter_event]
  due := fun t ht => by
    rcases List.mem_cons.1 ht with heq | ht
    · cases heq
      exact ⟨e, (h.mem_left.1 List.mem_cons_self).1, rfl, hdue⟩
    · exact h.due t ht
  once := by
    refine List.pairwise_cons.2 ⟨fun b hb t ht => ?_, h.once⟩
    cases ht
    have hnot := (h.mem_left.1 List.mem_cons_self).2
    exact fun hc => hnot (List.mem_map.2 ⟨b, hb, hc⟩)

end

/-- **The loop of a pass.** It ends, and then the head of what is left is not due. -/
theorem timerLoop_scripted {L : List Armed} {log : List TimerEvent} {tv : Timeval} :
    ∀ (fuel : Nat) {w : TimerRun κ} {q : Queue} {evs : List TimerEvent}
      (scripts : List (List (TimerOp κ))), PassInv L log tv w q evs → q.list.length < fuel →
    ∃ w' scripts' q' evs', timerLoop (fun w => w.1.ts) (fun w ts => ({ w.1 with ts := ts }, w.2))
        TimerRun.callback tv fuel (w, scripts) = .ok (w', scripts') ∧
      PassInv L log tv w' q' evs' ∧ ∀ e ∈ q'.list.head?, tvcmp tv e.timeout < 0
  | 0, _, _, _, _, _, hf => absurd hf (Nat.not_lt_zero _)
  | fuel + 1, w, q, evs, scripts, h, hf => by
    by_cases hq : ∀ e ∈ q.list.head?, tvcmp tv e.timeout < 0
    · refine ⟨w, scripts, q, evs, ?_, h, hq⟩
      simp only [timerLoop, timerFire_none h.sound.rep hq, Res.ok_bind]
    obtain ⟨l, p⟩ := q
    cases l with
    | nil => simp at hq
    | cons e rest =>
      have hdue : 0 ≤ tvcmp tv e.timeout := by simpa using hq
      obtain ⟨ts, hts, hfr, d, hs⟩ := timerFire_sound h.sound h.lock hdue
      obtain ⟨tm, htm⟩ := Option.isSome_iff_exists.1
        (hfr.timers ▸ h.sound.alive e (by simp [Queue.all]))
      have hfired := h.fired hs (hfr.lock.trans h.lock) hdue rfl
      obtain ⟨w₁, q₁, evs₁, hos, h₁, hsub⟩ := ops_passInv (scripts.headD []) hfired
      obtain ⟨w', scripts', q', evs', hw', h', hq'⟩ := timerLoop_scripted fuel
        scripts.tail h₁ (Nat.lt_of_le_of_lt hsub.length_le (Nat.lt_of_succ_lt_succ hf))
      refine ⟨w', scripts', q', evs', ?_, h', hq'⟩
      simp only [timerLoop, hts, Res.ok_bind, Res.deref_of_some htm, TimerRun.callback, hos, hw']

/-! ## Reachable states -/

/-- `e` is an entry of `timer_list`. -/
def Timers.Listed (s : Timers κ) (e : Ptr) : Prop := ∃ l, IsList s.next s.timerList l ∧ e ∈ l

/-- The deadlines in `timer_list` lie within `2 ^ 31 - 1` milliseconds. -/
def Timely (s : Timers κ) : Prop := ∃ lo, ∀ e, s.Listed e → (s.entries e).timeout.Within lo

/-- The states between two passes, in runs that keep `Timely`. -/
inductive Reach (clock : Nat → Timeval) (malloc : Nat → Bool) : TimerRun κ → Prop
  | init : Reach clock malloc (TimerRun.init clock malloc)
  | op {w w'} (o : TimerOp κ) (h : Reach clock malloc w) (hw : w.op o = .ok w')
      (ht : Timely w'.ts) : Reach clock malloc w'
  | pass {w w'} (scripts : List (List (TimerOp κ))) (h : Reach clock malloc w)
      (hw : w.pass scripts = .ok w') (ht : Timely w'.ts) : Reach clock malloc w'

theorem Rep.listed {s : Timers κ} {q : Queue} (h : Rep s q) {a : Armed} :
    a ∈ q.list ↔ ∃ e, s.Listed e ∧ s.armedAt e = a := by
  obtain ⟨l, p, f, hl, -, rfl⟩ := h
  rw [List.mem_map]
  refine ⟨?_, ?_⟩
  · rintro ⟨e, he, rfl⟩
    exact ⟨e, ⟨l, hl.list, he⟩, rfl⟩
  · rintro ⟨e, ⟨l', hl', he⟩, rfl⟩
    exact ⟨e, hl.list.unique hl' ▸ he, rfl⟩

theorem Timely.within {s : Timers κ} {q : Queue} (h : Timely s) (hr : Rep s q) :
    ∃ lo, ∀ a ∈ q.list, a.timeout.Within lo := by
  obtain ⟨lo, h⟩ := h
  refine ⟨lo, fun a ha => ?_⟩
  obtain ⟨e, he, rfl⟩ := hr.listed.1 ha
  exact h e he

/-- What holds between two passes. -/
structure ReachInv (w : TimerRun κ) (q : Queue) : Prop where
  sound : Sound w.ts q
  lock : w.ts.inCheckTimeoutLock = false
  sorted : Sorted q.list

theorem Sorted.filter {l : List Armed} (h : Sorted l) (p : Armed → Bool) : Sorted (l.filter p) :=
  h.sublist List.filter_sublist

theorem op_reachInv {w w' : TimerRun κ} {q : Queue} (h : ReachInv w q) {o : TimerOp κ}
    (hw : w.op o = .ok w') (ht : Timely w'.ts) : ∃ q', ReachInv w' q' := by
  obtain ⟨ts, log, q', ho, hs, hl, hq⟩ := op_cases h.sound o
  rw [ho] at hw
  cases hw
  refine ⟨q', hs, hl.trans h.lock, ?_⟩
  have hremove : ∀ t, Sorted (q.remove t).list := fun t => by
    rw [Queue.remove_eq h.sound.unique]
    exact h.sorted.filter _
  rcases hq with ⟨-, rfl⟩ | ⟨t, -, rfl⟩ | ⟨a, -, rfl⟩
  · exact h.sorted
  · exact hremove t
  · obtain ⟨lo, hin⟩ := ht.within hs.rep
    rw [h.lock] at hin ⊢
    -- what is compared is in the list after the insertion
    have hmem : ∀ x, x = a ∨ x ∈ (q.remove a.timer).list → x.timeout.Within lo := fun x hx =>
      hin x (by rw [Queue.arm, if_neg Bool.false_ne_true]; simpa using hx)
    exact orderedInsert_sorted (hremove a.timer) (hmem a (.inl rfl)) fun x hx => hmem x (.inr hx)

/-- The start of a pass. -/
theorem enter_passInv {w : TimerRun κ} {q : Queue} (h : Sound w.ts q) :
    PassInv q.list w.log (sampleTime w.ts).1 { w with ts := (timerEnter w.ts).2 } q [] where
  sound := timerEnter_sound h
  lock := rfl
  log := rfl
  left := (List.filter_eq_self.2 fun e _ => by simp).symm
  due := by simp
  once := List.Pairwise.nil

/-- A whole pass: it ends, and what its loop left was merged with what is pending. -/
theorem pass_passInv {w : TimerRun κ} {q : Queue} (h : ReachInv w q)
    (scripts : List (List (TimerOp κ))) :
    ∃ (w' w₁ : TimerRun κ) (q₁ : Queue) (evs : List TimerEvent), w.pass scripts = .ok w' ∧
      PassInv q.list w.log (sampleTime w.ts).1 w₁ q₁ evs ∧
      (∀ e ∈ q₁.list.head?, tvcmp (sampleTime w.ts).1 e.timeout < 0) ∧
      w'.log = w₁.log ∧ Sound w'.ts q₁.merge ∧ w'.ts.inCheckTimeoutLock = false := by
  have hlen : q.list.length < w.ts.brk := by
    obtain ⟨l, p, f, hl, hb, rfl⟩ := h.sound.rep
    have hsub : l.Sublist (l ++ p ++ f) := by simp
    simpa using hl.length_lt hsub hb
  obtain ⟨w₁, scripts₁, q₁, evs, hloop, hinv, hhead⟩ := timerLoop_scripted
    (timerEnter w.ts).2.brk scripts (enter_passInv h.sound) hlen
  obtain ⟨ts, r, hleave, hs, hl, -⟩ := timerLeave_sound hinv.sound
  refine ⟨{ w₁ with ts := ts }, w₁, q₁, evs, ?_, hinv, hhead, rfl, hs, hl⟩
  simp only [timerEnter] at hloop
  simp only [TimerRun.pass, timerCheckTimeout, timerEnter, hloop, hleave, Res.ok_bind]

theorem Reach.inv {clock : Nat → Timeval} {malloc : Nat → Bool} {w : TimerRun κ}
    (h : Reach clock malloc w) : ∃ q, ReachInv w q := by
  induction h with
  | init => exact ⟨⟨[], []⟩, init_sound clock malloc, rfl, List.Pairwise.nil⟩
  | op o _ hw ht ih =>
    obtain ⟨q, hq⟩ := ih
    exact op_reachInv hq hw ht
  | pass scripts _ hw ht ih =>
    obtain ⟨q, hq⟩ := ih
    obtain ⟨w', w₁, q₁, evs, hw', hinv, -, -, hs, hl⟩ := pass_passInv hq scripts
    rw [hw'] at hw
    cases hw
    obtain ⟨lo, hin⟩ := ht.within hs.rep
    refine ⟨q₁.merge, hs, hl, merge_sorted ?_ hin⟩
    rw [hinv.left]
    exact hq.sorted.filter _

/-! ## The timers that a pass fires -/

theorem count_fired : ∀ {evs : List TimerEvent} {t : Ptr},
    evs.Pairwise (fun a b => ∀ t, a = .fired t → b.timer ≠ t) → .fired t ∈ evs →
    evs.count (.fired t) = 1
  | ev :: evs, t, h, ht => by
    obtain ⟨h1, h2⟩ := List.pairwise_cons.1 h
    by_cases hev : ev = .fired t
    · have hnot : .fired t ∉ evs := fun hm => h1 _ hm t hev rfl
      rw [hev, List.count_cons_self, List.count_eq_zero_of_not_mem hnot]
    · rw [List.count_cons_of_ne (by simpa using hev)]
      exact count_fired h2 ((List.mem_cons.1 ht).resolve_left (Ne.symm hev))

/-- What the loop leaves is not due: the head of what is left is not. -/
theorem PassInv.not_due {L : List Armed} {log : List TimerEvent} {now : Timeval} {w : TimerRun κ}
    {q : Queue} {evs : List TimerEvent} (h : PassInv L log now w q evs) (hsort : Sorted L) {lo : Int}
    (hnow : now.Within lo) (hsec : now.tvUsec < 1000000) (hin : ∀ a ∈ L, a.timeout.Within lo)
    (hhead : ∀ e ∈ q.list.head?, tvcmp now e.timeout < 0) {a : Armed} (ha : a ∈ q.list) :
    now.micros < a.timeout.micros := by
  have hsort' : Sorted q.list := h.left ▸ hsort.filter _
  have hin' : ∀ x ∈ q.list, x.timeout.Within lo := fun x hx => hin x (h.mem_left.1 hx).1
  by_contra hdue
  cases hl : q.list with
  | nil => simp [hl] at ha
  | cons e rest =>
    rw [hl] at ha hsort' hin' hhead
    have hle : e.timeout.Le a.timeout := by
      rcases List.mem_cons.1 ha with rfl | ha
      · exact Timeval.Le.refl _
      · exact (List.pairwise_cons.1 hsort').1 a ha
    have := hle.due hnow (hin' e (by simp)) (hin' a ha) hsec (not_lt.1 hdue)
    exact absurd (hhead e rfl) (not_lt.2 this)

/-- **A pass fires exactly the due timers.** From every reachable state, for every behaviour of the
callbacks: the pass ends; every entry that is due is fired once, unless a callback restarted or
stopped its timer; an entry whose deadline is a millisecond or more away is not fired; and what was
fired, restarted or stopped in the pass is not fired again in it. -/
theorem pass_fires_due {clock : Nat → Timeval} {malloc : Nat → Bool} {w : TimerRun κ}
    (h : Reach clock malloc w) (lo : Int) (hnow : (sampleTime w.ts).1.Within lo)
    (hsec : (sampleTime w.ts).1.tvUsec < 1000000)
    (hin : ∀ e, w.ts.Listed e → (w.ts.entries e).timeout.Within lo)
    (scripts : List (List (TimerOp κ))) :
    ∃ (w' : TimerRun κ) (evs : List TimerEvent), w.pass scripts = .ok w' ∧
      w'.log = evs.reverse ++ w.log ∧
      (∀ e, w.ts.Listed e → (w.ts.entries e).timeout.micros ≤ (sampleTime w.ts).1.micros →
        evs.count (.fired (w.ts.entries e).timer) = 1 ∨
          .fired (w.ts.entries e).timer ∉ evs ∧
            (.started (w.ts.entries e).timer ∈ evs ∨ .stopped (w.ts.entries e).timer ∈ evs)) ∧
      (∀ e, w.ts.Listed e → (sampleTime w.ts).1.micros + 1000 ≤ (w.ts.entries e).timeout.micros →
        .fired (w.ts.entries e).timer ∉ evs) ∧
      (∀ t, .fired t ∈ evs → ∃ e, w.ts.Listed e ∧ (w.ts.entries e).timer = t) ∧
      evs.Pairwise fun a b => ∀ t, b = .fired t → a.timer ≠ t := by
  obtain ⟨q, hq⟩ := h.inv
  obtain ⟨w', w₁, q₁, evs, hw', hinv, hhead, hlog, -, -⟩ := pass_passInv hq scripts
  have hwithin : ∀ a ∈ q.list, a.timeout.Within lo := fun a ha => by
    obtain ⟨e, he, rfl⟩ := hq.sound.rep.listed.1 ha
    exact hin e he
  have hlisted : ∀ e, w.ts.Listed e → w.ts.armedAt e ∈ q.list := fun e he =>
    hq.sound.rep.listed.2 ⟨e, he, rfl⟩
  have honce : evs.Pairwise fun a b => ∀ t, a = .fired t → b.timer ≠ t := hinv.once
  refine ⟨w', evs.reverse, hw', ?_, fun e he hdue => ?_, fun e he hlate hf => ?_, fun t ht => ?_,
    List.pairwise_reverse.2 honce⟩
  · rw [List.reverse_reverse, hlog, hinv.log]
  · rw [List.count_reverse]
    simp only [List.mem_reverse]
    by_cases hf : .fired (w.ts.entries e).timer ∈ evs
    · exact .inl (count_fired honce hf)
    · refine .inr ⟨hf, ?_⟩
      -- otherwise it would be left at the end
      have htouched : (w.ts.entries e).timer ∈ evs.map TimerEvent.timer := by
        by_contra hnot
        have hleft := hinv.mem_left.2 ⟨hlisted e he, hnot⟩
        exact absurd hdue
          (not_le.2 (hinv.not_due hq.sorted hnow hsec hwithin hhead hleft))
      obtain ⟨ev, hev, heq⟩ := List.mem_map.1 htouched
      rw [← heq] at hf ⊢
      cases ev with
      | fired t => exact absurd hev hf
      | started t => exact .inl hev
      | stopped t => exact .inr hev
  · obtain ⟨a, ha, hat, hdue⟩ := hinv.due _ (List.mem_reverse.1 hf)
    have hlt := micros_lt_of_due hnow (hwithin a ha) hdue
    -- the timer has one entry only
    have hnd : (q.list.map Armed.timer).Nodup := by
      have hu := hq.sound.unique
      rw [Queue.Unique, Queue.all, List.map_append] at hu
      exact hu.of_append_left
    have haeq : a = w.ts.armedAt e := List.inj_on_of_nodup_map hnd ha (hlisted e he) hat
    rw [haeq] at hlt
    exact absurd hlate (not_le.2 hlt)
  · obtain ⟨a, ha, hat, -⟩ := hinv.due t (List.mem_reverse.1 ht)
    obtain ⟨e, he, rfl⟩ := hq.sound.rep.listed.1 ha
    exact ⟨e, he, hat⟩

theorem timely_of_list {s : Timers κ} {l : List Ptr} (h : IsList s.next s.timerList l) (lo : Int)
    (hl : ∀ e ∈ l, (s.entries e).timeout.Within lo) : Timely s := by
  refine ⟨lo, fun e ⟨l', hl', he⟩ => hl e ?_⟩
  rw [h.unique hl']
  exact he

instance (lo : Int) (tv : Timeval) : Decidable (tv.Within lo) :=
  decidable_of_iff (0 ≤ tv.tvUsec ∧ tv.tvUsec ≤ 1000000 ∧ lo ≤ tv.micros ∧
      tv.micros ≤ lo + (2 ^ 31 - 1) * 1000)
    ⟨fun ⟨h1, h2, h3, h4⟩ => ⟨h1, h2, h3, h4⟩, fun ⟨h1, h2, h3, h4⟩ => ⟨h1, h2, h3, h4⟩⟩

/-- With the clock at `now`, timer `1` was set to `10.0005` and then timer `2` to `10`. -/
def setTwo (now : Timeval) : TimerRun Unit :=
  match TimerRun.ops [.create 1 0 0 (), .setTimeout 1 ⟨10, 500⟩, .create 2 0 0 (),
    .setTimeout 2 ⟨10, 0⟩] (TimerRun.init (fun _ => now) fun _ => true) with
  | .ok w => w
  | _ => TimerRun.init (fun _ => now) fun _ => true

/-- The second timer is earlier, and stands behind the first. -/
theorem setTwo_list (now : Timeval) : IsList (setTwo now).ts.next (setTwo now).ts.timerList [1, 2] :=
  isList_cons.2 ⟨rfl, by simp, isList_cons.2 ⟨rfl, by simp, isList_nil.2 rfl⟩⟩

theorem setTwo_listed (now : Timeval) (e : Ptr) (he : (setTwo now).ts.Listed e) : e = 1 ∨ e = 2 := by
  obtain ⟨l, hl, he⟩ := he
  rw [← (setTwo_list now).unique hl] at he
  simpa using he

theorem setTwo_reach (now : Timeval) :
    Reach (fun _ => now) (fun _ => true) (setTwo now) := by
  have hin : ∀ d ∈ [Timeval.mk 10 500, ⟨10, 0⟩], d.Within 0 := by decide
  refine .op (.setTimeout 2 ⟨10, 0⟩) (.op (.create 2 0 0 ()) (.op (.setTimeout 1 ⟨10, 500⟩)
    (.op (.create 1 0 0 ()) .init rfl ?_) rfl ?_) rfl ?_) rfl ?_
  · exact timely_of_list (isList_nil.2 rfl) 0 (by simp)
  · refine timely_of_list (isList_cons.2 ⟨rfl, Nat.one_ne_zero, isList_nil.2 rfl⟩) 0 fun e he => ?_
    rw [List.mem_singleton] at he
    exact he ▸ hin ⟨10, 500⟩ (by simp)
  · refine timely_of_list (isList_cons.2 ⟨rfl, Nat.one_ne_zero, isList_nil.2 rfl⟩) 0 fun e he => ?_
    rw [List.mem_singleton] at he
    exact he ▸ hin ⟨10, 500⟩ (by simp)
  · refine ⟨0, fun e he => ?_⟩
    rcases setTwo_listed now e he with rfl | rfl
    · exact hin ⟨10, 500⟩ (by simp)
    · exact hin ⟨10, 0⟩ (by simp)

/-- At `20` both timers are due, and the pass fires both. -/
theorem pass_fires_due_at_twenty :
    ∃ (w' : TimerRun Unit) (evs : List TimerEvent), (setTwo ⟨20, 0⟩).pass [] = .ok w' ∧
      w'.log = evs.reverse ++ (setTwo ⟨20, 0⟩).log ∧
      ∀ t ∈ [1, 2], evs.count (.fired t) = 1 ∨
        .fired t ∉ evs ∧ (.started t ∈ evs ∨ .stopped t ∈ evs) := by
  have hin : ∀ e, (setTwo ⟨20, 0⟩).ts.Listed e →
      ((setTwo ⟨20, 0⟩).ts.entries e).timeout.Within 0 := fun e he => by
    rcases setTwo_listed _ e he with rfl | rfl <;> decide
  obtain ⟨w', evs, hw', hlog, hdue, -⟩ := pass_fires_due (setTwo_reach ⟨20, 0⟩) 0
    (by decide) (by decide) hin []
  refine ⟨w', evs, hw', hlog, fun t ht => ?_⟩
  fin_cases ht
  · exact hdue 1 ⟨_, setTwo_list _, by simp⟩ (by decide)
  · exact hdue 2 ⟨_, setTwo_list _, by simp⟩ (by decide)

/-- A pass at `now` does not fire the second timer of `setTwo now`, which is due, with all times as near as
they have to be. -/
structure MissesDue (now : Timeval) : Prop where
  reach : Reach (fun _ => now) (fun _ => true) (setTwo now)
  listed : (setTwo now).ts.Listed 2
  sampled : (sampleTime (setTwo now).ts).1 = now
  due : ((setTwo now).ts.entries 2).timeout.micros ≤ now.micros
  near : ∀ e, (setTwo now).ts.Listed e → ((setTwo now).ts.entries e).timeout.tvUsec ∈ Set.Icc 0 1000000 ∧
    |now.micros - ((setTwo now).ts.entries e).timeout.micros| ≤ 2 ^ 31 * 1000
  missed : ∃ w', (setTwo now).pass [] = .ok w' ∧ w'.log.count (.fired 2) = 0 ∧
    w'.log.count (.started 2) = (setTwo now).log.count (.started 2) ∧ .stopped 2 ∉ w'.log

/-- A due entry is not fired when the pass is at a full second written as the last one's million
microseconds, nor when it has been due for `2 ^ 31` milliseconds. -/
theorem pass_misses_due : MissesDue ⟨9, 1000000⟩ ∧ MissesDue ⟨2147493, 648000⟩ := by
  refine ⟨⟨setTwo_reach _, ⟨_, setTwo_list _, by simp⟩, rfl, by decide, fun e he => ?_, _, rfl, by decide,
    by decide, by decide⟩, ⟨setTwo_reach _, ⟨_, setTwo_list _, by simp⟩, rfl, by decide, fun e he => ?_, _,
    rfl, by decide, by decide, by decide⟩⟩
  · rcases setTwo_listed _ e he with rfl | rfl <;> decide
  · rcases setTwo_listed _ e he with rfl | rfl <;> decide

end Utils
