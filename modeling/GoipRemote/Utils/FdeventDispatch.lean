import GoipRemote.Utils.FdeventInv

/-!
# Dispatching descriptor events (utils/fdsel.c)

`fdevent_dispatch` schedules the events that `poll` reported, each going out of the timeout list with that, and
then those whose deadline is due. Scheduling links an event into the loop's pending list and leaves the timeout
list alone (`eventSchedule_spec`), so the second loop finds at the head of the list what it found before: it
returns at once, or never (`dispatchTimeouts_eq`, `dispatchTimeouts_stuck`). What it is to do for the events
whose deadline has passed it does when there are none (`fdeventDispatch_iff`).
-/

open Function

namespace Utils

namespace FdeventSource

/-- The test by which the second loop goes on. -/
def Due (t current : Timeval) : Prop :=
  ¬(t.tvSec > current.tvSec ∨ (current.tvSec = t.tvSec ∧ t.tvUsec > current.tvUsec))

/-- Entry `i` was reported by `poll`. -/
def reported (s : FdeventSource) (i : Nat) : Bool :=
  match s.pollfds[i]? with
  | some pfd => decide (pfd.revents ≠ 0)
  | none => false

/-- An event is that of an entry that was reported, among the `n` from `i` on. -/
def ready (s : FdeventSource) : Nat → Nat → Ptr → Bool
  | 0, _, _ => false
  | n + 1, i, event => (decide (s.fdevents[i]? = some event) && s.reported i) || s.ready n (i + 1) event

/-- The entries of the table lead to events, and the two lists are well-formed. -/
structure WellFormed (s : FdeventSource) (xs : List Ptr) : Prop where
  table : ∀ i < s.fdcount.toNat, ∃ event pfd, s.fdevents[i]? = some event ∧ s.pollfds[i]? = some pfd ∧
    s.heap event ≠ none
  timeouts : s.timeouts.Holds none (xs.map some) s.Live
  pending : ∃ zs, s.pending.Holds none zs s.Live

/-- An event has been scheduled for its timeout and is not on the timeout list. -/
def TimedOut (s : FdeventSource) (event : Ptr) : Prop :=
  (∃ e, s.heap event = some e ∧ e.revents &&& evTimeout ≠ 0) ∧
  (∃ zs, s.pending.IsRing none zs ∧ some event ∈ zs) ∧
  ∃ ys : List Ptr, s.timeouts.IsRing none (ys.map some) ∧ event ∉ ys

theorem Inv.wellFormed {s : FdeventSource} {xs : List Ptr} (h : s.Inv xs) : s.WellFormed xs := by
  refine ⟨fun i hi => ?_, h.lists.timeouts, h.lists.pending⟩
  obtain ⟨event, e, hevent, he, -, pfd, hpfd, -⟩ := h.table.slot i hi
  exact ⟨event, pfd, hevent, hpfd, by simp [he]⟩

section
variable {s s' : FdeventSource} {event : Ptr} {e e' : Fdevent} {xs : List Ptr} {zs : List (Option Ptr)}
  {current : Timeval} {fuel n i : Nat}

/-! ## Scheduling -/

/-- Scheduling changes the pending list alone, and puts the event on it. -/
theorem eventSchedule_spec (hz : s.pending.Holds none zs s.Live) (he : s.heap event = some e) :
    (∀ s', eventSchedule fuel event s = .ok s' → ∃ m zs', s' = { s with pending := m } ∧
      m.Holds none zs' s.Live ∧ some event ∈ zs' ∧ zs'.length ≤ zs.length + 1) ∧
    (zs.length < fuel → ∃ s', eventSchedule fuel event s = .ok s') := by
  obtain ⟨m1, hdel, hm1⟩ := listDelInit_ok hz (live_of he)
  generalize hzs : zs.filter (· ≠ some event) = ws at hm1
  have hlen : ws.length ≤ zs.length := hzs ▸ List.length_filter_le _ _
  have hseek := @listSeek_eq _ _ m1 none [] ws (s.lowerAt e.priority) fuel hm1.ring
    (fun a => ((a.bind s.heap).map fun d => decide (d.priority > e.priority)).getD false) (by
      intro y hy
      have hlive := hm1.mem y hy
      cases y with
      | none => exact hlive.elim
      | some q =>
        obtain ⟨d, hd⟩ := Option.ne_none_iff_exists'.1 hlive
        simp [lowerAt, Res.deref_of_some hd, hd])
  generalize htest : (fun a : Option Ptr => !((a.bind s.heap).map fun d =>
    decide (d.priority > e.priority)).getD false) =
    test at hseek
  have hsplit : ws.takeWhile test ++ ws.dropWhile test = ws := List.takeWhile_append_dropWhile
  have hholds : m1.Holds none (ws.takeWhile test ++ ws.dropWhile test) s.Live := by
    rw [hsplit]
    exact hm1
  have hout : some event ∉ ws.takeWhile test ++ ws.dropWhile test := by
    rw [hsplit, ← hzs]
    simp
  obtain ⟨m2, hadd, hm2⟩ := listAddTail_ok hholds (live_of he) hout
  have hrun : eventSchedule fuel event s =
      if (ws.takeWhile test).length < fuel then .ok { s with pending := m2 } else .fault := by
    rw [eventSchedule, Res.deref_of_some he, Res.ok_bind, hdel, Res.ok_bind,
      Res.deref_of_some hm1.ring.next_head,
      Res.ok_bind, hseek]
    split
    · rw [Res.ok_bind, hadd]
      rfl
    · rfl
  have htake : (ws.takeWhile test).length ≤ ws.length := (List.takeWhile_sublist test).length_le
  have hlen' := congrArg List.length hsplit
  rw [List.length_append] at hlen'
  refine ⟨fun s' hs' => ?_, fun hfuel => ⟨_, by rw [hrun, if_pos (by omega)]⟩⟩
  rw [hrun] at hs'
  split at hs'
  · cases hs'
    exact ⟨m2, _, rfl, hm2, by simp, by rw [List.length_append, List.length_cons]; omega⟩
  · cases hs'

/-! ## The events that were reported -/

/-- What the first loop leaves: the events reported are off the timeout list and have what `poll`
answered, the others are as they were. -/
structure Dispatched (s s' : FdeventSource) (xs : List Ptr) (n i : Nat) : Prop where
  timeouts : s'.timeouts.Holds none ((xs.filter fun q => !s.ready n i q).map some) s'.Live
  live : s'.Live = s.Live
  pending : ∃ zs, s'.pending.Holds none zs s'.Live
  others : ∀ q, s.ready n i q = false → s'.heap q = s.heap q
  told : ∀ q, s.ready n i q = true → ∃ d r, s'.heap q = some d ∧ d.revents = eventsOf r

theorem ready_congr (hpollfds : s'.pollfds = s.pollfds) (hfdevents : s'.fdevents = s.fdevents) (n i : Nat) :
    s'.ready n i = s.ready n i := by
  induction n generalizing i with
  | zero => rfl
  | succ n ih =>
    funext q
    simp only [ready, reported, hpollfds, hfdevents, ih]

/-- What one round changes: an event that was reported has its answer, is off the timeout list, and is
pending. -/
structure Told (s s' : FdeventSource) (event : Ptr) (xs : List Ptr) (r : BitVec 16) : Prop where
  timeouts : s'.timeouts.Holds none ((xs.filter (· ≠ event)).map some) s'.Live
  live : s'.Live = s.Live
  others : ∀ q, q ≠ event → s'.heap q = s.heap q
  told : ∃ d, s'.heap event = some d ∧ d.revents = eventsOf r
  pollfds : s'.pollfds = s.pollfds
  fdevents : s'.fdevents = s.fdevents

/-- One round, and the ones behind it. -/
theorem Told.dispatched {s₁ : FdeventSource} {r : BitVec 16} (h : Told s s₁ event xs r)
    (hreported : s.reported i = true)
    (hevent : s.fdevents[i]? = some event) (hd : Dispatched s₁ s' (xs.filter (· ≠ event)) n (i + 1)) :
    Dispatched s s' xs (n + 1) i := by
  have hlater : s₁.ready n (i + 1) = s.ready n (i + 1) := ready_congr h.pollfds h.fdevents n (i + 1)
  have hready : ∀ q, s.ready (n + 1) i q = (decide (event = q) || s.ready n (i + 1) q) := by
    intro q
    simp [ready, hreported, hevent]
  have hfilter : (xs.filter (· ≠ event)).filter (fun q => !s.ready n (i + 1) q) =
      xs.filter fun q => !s.ready (n + 1) i q := by
    rw [List.filter_filter]
    apply List.filter_congr
    intro q hq
    have hne : decide (q ≠ event) = !decide (event = q) := by simp [eq_comm]
    rw [hready, Bool.not_or, hne, Bool.and_comm]
  refine ⟨?_, hd.live.trans h.live, hd.pending, fun q hq => ?_, fun q hq => ?_⟩
  · rw [← hfilter, ← hlater]
    exact hd.timeouts
  · rw [hready, Bool.or_eq_false_iff] at hq
    rw [hd.others q (by rw [hlater]; exact hq.2)]
    exact h.others q (by simpa [eq_comm] using hq.1)
  · by_cases hq' : s.ready n (i + 1) q = true
    · exact hd.told q (by rw [hlater]; exact hq')
    · have hqe : event = q := by
        rw [hready] at hq
        simpa [hq'] using hq
      subst hqe
      obtain ⟨d, hheap, hrevents⟩ := h.told
      have hsame := hd.others event (by rw [hlater]; simpa using hq')
      exact ⟨d, r, hsame.trans hheap, hrevents⟩

/-- A round that `poll` reported: the event is told, scheduled, and taken off the timeout list. -/
theorem dispatchReady_round {pfd : Pollfd} (ht : s.timeouts.Holds none (xs.map some) s.Live)
    (hz : s.pending.Holds none zs s.Live) (hevent : s.fdevents[i]? = some event)
    (hpfd : s.pollfds[i]? = some pfd)
    (hrevents : pfd.revents ≠ 0) (he : s.heap event = some e) :
    (∀ s', dispatchReady fuel (n + 1) i s = .ok s' → ∃ s₁ zs', dispatchReady fuel n (i + 1) s₁ = .ok s' ∧
      Told s s₁ event xs pfd.revents ∧ s₁.pending.Holds none zs' s₁.Live) ∧
    (zs.length < fuel → ∃ s₁ zs', dispatchReady fuel (n + 1) i s = dispatchReady fuel n (i + 1) s₁ ∧
      Told s s₁ event xs pfd.revents ∧ s₁.pending.Holds none zs' s₁.Live ∧ zs'.length ≤ zs.length + 1) := by
  generalize hs1 : s.put event { e with revents := eventsOf pfd.revents } = s1
  have hlive1 : s1.Live = s.Live := by rw [← hs1, live_put he]
  have he1 : s1.heap event = some { e with revents := eventsOf pfd.revents } := by simp [← hs1]
  have hz1 : s1.pending.Holds none zs s1.Live := by
    rw [hlive1, ← hs1]
    exact hz
  have htimeouts : s1.timeouts = s.timeouts := by rw [← hs1]; rfl
  obtain ⟨m, hdel, hm⟩ := listDelInit_ok ht (live_of he)
  rw [filter_map_some, ← hlive1] at hm
  have hrun : dispatchReady fuel (n + 1) i s = eventSchedule fuel event s1 >>= fun s2 =>
      listDelInit s2.timeouts (some event) >>= fun m =>
        dispatchReady fuel n (i + 1) { s2 with timeouts := m } := by
    rw [dispatchReady, Buffer.load, hpfd]
    dsimp only
    rw [Res.ok_bind, if_pos hrevents, Buffer.load, hevent]
    dsimp only
    rw [Res.ok_bind, Res.deref_of_some he, Res.ok_bind, hs1]
  have htold : ∀ m2, Told s { s1 with pending := m2, timeouts := m } event xs pfd.revents := by
    intro m2
    refine ⟨hm, hlive1, fun q hq => ?_, ⟨_, he1, rfl⟩, by rw [← hs1]; rfl, by rw [← hs1]; rfl⟩
    show s1.heap q = s.heap q
    rw [← hs1, put_heap, if_neg hq]
  obtain ⟨hsched, hsched'⟩ := eventSchedule_spec hz1 he1
  refine ⟨fun s' hs' => ?_, fun hfuel => ?_⟩
  · rw [hrun] at hs'
    obtain ⟨s2, h2, hs'⟩ := Res.bind_eq_ok.1 hs'
    obtain ⟨m2, zs', rfl, hm2, -, -⟩ := hsched s2 h2
    obtain ⟨m', hm', hs'⟩ := Res.bind_eq_ok.1 hs'
    obtain rfl : m = m' := Res.ok.inj (hdel.symm.trans (by rw [← htimeouts]; exact hm'))
    exact ⟨_, zs', hs', htold m2, hm2⟩
  · obtain ⟨s2, h2⟩ := hsched' hfuel
    obtain ⟨m2, zs', rfl, hm2, -, hlen⟩ := hsched s2 h2
    refine ⟨{ s1 with pending := m2, timeouts := m }, zs', ?_, htold m2, hm2, hlen⟩
    have hdel' : listDelInit s1.timeouts (some event) = .ok m := by
      rw [htimeouts]
      exact hdel
    rw [hrun, h2, Res.ok_bind]
    simp only [hdel', Res.ok_bind]

/-- The table of the events is as live behind a round as before it. -/
theorem Told.table {s₁ : FdeventSource} {r : BitVec 16} (h : Told s s₁ event xs r)
    (htable : ∀ j < i + (n + 1), ∃ event pfd, s.fdevents[j]? = some event ∧ s.pollfds[j]? = some pfd ∧
      s.heap event ≠ none) :
    ∀ j < i + 1 + n, ∃ event pfd, s₁.fdevents[j]? = some event ∧ s₁.pollfds[j]? = some pfd ∧
      s₁.heap event ≠ none := by
  intro j hj
  obtain ⟨q, pfd, hq, hpfd, hlive⟩ := htable j (by omega)
  refine ⟨q, pfd, by rw [h.fdevents]; exact hq, by rw [h.pollfds]; exact hpfd, ?_⟩
  by_cases hqe : q = event
  · obtain ⟨d, hd, -⟩ := h.told
    rw [hqe, hd]
    simp
  · rw [h.others q hqe]
    exact hlive

/-- The rounds of the first loop. It ends when its bound is above what the pending list can come to. -/
theorem dispatchReady_spec (ht : s.timeouts.Holds none (xs.map some) s.Live)
    (hz : s.pending.Holds none zs s.Live)
    (htable : ∀ j < i + n, ∃ event pfd, s.fdevents[j]? = some event ∧ s.pollfds[j]? = some pfd ∧
      s.heap event ≠ none) :
    (∀ s', dispatchReady fuel n i s = .ok s' → Dispatched s s' xs n i) ∧
    (zs.length + n < fuel → ∃ s', dispatchReady fuel n i s = .ok s') := by
  induction n generalizing i s xs zs with
  | zero =>
    refine ⟨fun s' hs' => ?_, fun _ => ⟨s, rfl⟩⟩
    cases hs'
    exact ⟨by simpa [ready] using ht, rfl, ⟨zs, hz⟩, fun q _ => rfl, fun q hq => by simp [ready] at hq⟩
  | succ n ih =>
    obtain ⟨event, pfd, hevent, hpfd, hlive⟩ := htable i (by omega)
    obtain ⟨e, he⟩ := Option.ne_none_iff_exists'.1 hlive
    by_cases hrevents : pfd.revents = 0
    · have hrun : dispatchReady fuel (n + 1) i s = dispatchReady fuel n (i + 1) s := by
        rw [dispatchReady, Buffer.load, hpfd]
        dsimp only
        rw [Res.ok_bind, if_neg (not_not.2 hrevents)]
      have hready : ∀ q, s.ready (n + 1) i q = s.ready n (i + 1) q := by
        intro q
        simp [ready, reported, hpfd, hrevents]
      have htable' : ∀ j < i + 1 + n, ∃ event pfd, s.fdevents[j]? = some event ∧ s.pollfds[j]? = some pfd ∧
          s.heap event ≠ none := fun j hj => htable j (by omega)
      obtain ⟨hpart, htotal⟩ := ih ht hz htable'
      rw [hrun]
      refine ⟨fun s' hs' => ?_, fun hfuel => htotal (by omega)⟩
      have hd := hpart s' hs'
      exact ⟨by simpa only [hready] using hd.timeouts, hd.live, hd.pending,
        by simpa only [hready] using hd.others,
        by simpa only [hready] using hd.told⟩
    · have hreported : s.reported i = true := by
        rw [reported, hpfd]
        exact decide_eq_true hrevents
      obtain ⟨hpart, htotal⟩ := @dispatchReady_round s event e xs zs fuel n i pfd ht hz hevent
        hpfd hrevents he
      refine ⟨fun s' hs' => ?_, fun hfuel => ?_⟩
      · obtain ⟨s₁, zs', hs', htold, hz'⟩ := hpart s' hs'
        exact htold.dispatched hreported hevent ((ih htold.timeouts hz' (htold.table htable)).1 s' hs')
      · obtain ⟨s₁, zs', hrun, htold, hz', hlen⟩ := htotal (by omega)
        rw [hrun]
        exact (ih htold.timeouts hz' (htold.table htable)).2 (by omega)

/-! ## The events whose deadline is due -/

theorem timeoutOf_of_some (he : s.heap event = some e) : s.timeoutOf event = e.timeout := by
  simp [timeoutOf, he]

/-- When the first deadline on the list is not due, the second loop returns at once. -/
theorem dispatchTimeouts_eq (ht : s.timeouts.Holds none (xs.map some) s.Live)
    (hdue : ∀ first, xs.head? = some first → ¬Due (s.timeoutOf first) current) :
    dispatchTimeouts fuel current (n + 1) s = .ok s := by
  rw [dispatchTimeouts, listEmpty_eq ht.ring, Res.ok_bind]
  cases xs with
  | nil => rfl
  | cons x xs =>
    obtain ⟨d, hd⟩ := Option.ne_none_iff_exists'.1 (ht.mem (some x) (by simp))
    have hnot := hdue x rfl
    rw [timeoutOf_of_some hd, Due, not_not] at hnot
    simp only [List.map_cons, reduceCtorEq, decide_false, Bool.false_eq_true, if_false,
      Res.deref_of_some ht.ring.next_head, List.headD_cons, Res.ok_bind, Res.deref_of_some hd, if_pos hnot,
      Res.pure_eq]

/-- When it is due, the loop finds it there again after each round. -/
theorem dispatchTimeouts_stuck {x : Ptr} (ht : s.timeouts.Holds none ((x :: xs).map some) s.Live)
    (hz : s.pending.Holds none zs s.Live) (hdue : Due (s.timeoutOf x) current) :
    dispatchTimeouts fuel current n s ≠ .ok s' := by
  induction n generalizing s zs with
  | zero => simp [dispatchTimeouts]
  | succ n ih =>
    intro hs'
    obtain ⟨d, hd⟩ := Option.ne_none_iff_exists'.1 (ht.mem (some x) (by simp))
    rw [timeoutOf_of_some hd] at hdue
    simp only [dispatchTimeouts, listEmpty_eq ht.ring, List.map_cons, reduceCtorEq, decide_false,
      Bool.false_eq_true, if_false, Res.deref_of_some ht.ring.next_head, List.headD_cons, Res.ok_bind,
      Res.deref_of_some hd, if_neg hdue] at hs'
    obtain ⟨s1, hsched, hs'⟩ := Res.bind_eq_ok.1 hs'
    have hlive : (s.put x { d with revents := evTimeout }).Live = s.Live := live_put hd
    have hpending : (s.put x { d with revents := evTimeout }).pending.Holds none zs
        (s.put x { d with revents := evTimeout }).Live := by
      rw [hlive]
      exact hz
    have hset : (s.put x { d with revents := evTimeout }).heap x =
      some { d with revents := evTimeout } := by simp
    obtain ⟨m, zs', rfl, hm, -, -⟩ := (eventSchedule_spec hpending hset).1 s1 hsched
    refine @ih { s.put x { d with revents := evTimeout } with pending := m } zs' ?_ hm ?_ hs'
    · show s.timeouts.Holds none _ (s.put x { d with revents := evTimeout }).Live
      rw [hlive]
      exact ht
    · have htime : (s.put x { d with revents := evTimeout }).timeoutOf x = d.timeout :=
        (timeoutOf_of_some hset).trans rfl
      show Due ((s.put x { d with revents := evTimeout }).timeoutOf x) current
      rw [htime]
      exact hdue

theorem eventsOf_and_timeout (r : BitVec 16) : eventsOf r &&& evTimeout = 0 := by
  unfold eventsOf
  split <;> split <;> split <;> decide

theorem Dispatched.timeoutOf_eq {s1 : FdeventSource} (hd : Dispatched s s1 xs n i) :
    ∀ q ∈ xs.filter (fun q => !s.ready n i q), s1.timeoutOf q = s.timeoutOf q := by
  intro q hq
  rw [timeoutOf, hd.others q (by simpa using (List.mem_filter.1 hq).2), timeoutOf]

theorem WellFormed.table_zero (h : s.WellFormed xs) : ∀ j < 0 + s.fdcount.toNat, ∃ event pfd,
    s.fdevents[j]? = some event ∧ s.pollfds[j]? = some pfd ∧ s.heap event ≠ none :=
  fun j hj => h.table j (by omega)

/-- A dispatch that finds the first event that `poll` did not report due does not return. -/
theorem fdeventDispatch_ne_ok (h : s.WellFormed xs) {first : Ptr}
    (hfirst : (xs.filter fun q => !s.ready s.fdcount.toNat 0 q).head? = some first)
    (hdue : Due (s.timeoutOf first) current) : s.fdeventDispatch fuel current ≠ .ok s' := by
  intro hs'
  obtain ⟨zs, hz⟩ := h.pending
  obtain ⟨s1, h1, hs'⟩ := Res.bind_eq_ok.1 hs'
  have hd := (dispatchReady_spec h.timeouts hz h.table_zero).1 s1 h1
  obtain ⟨ys, hys⟩ := List.head?_eq_some_iff.1 hfirst
  have ht := hd.timeouts
  rw [hys] at ht
  obtain ⟨zs1, hz1⟩ := hd.pending
  refine dispatchTimeouts_stuck ht hz1 ?_ hs'
  rw [hd.timeoutOf_eq first (by rw [hys]; exact List.mem_cons_self)]
  exact hdue

/-- A dispatch returns, and has then scheduled for its timeout each event of the list whose deadline had
passed, if and only if none had, and the first one on the list that `poll` did not report is not due. -/
theorem fdeventDispatch_iff (h : s.WellFormed xs) :
    (∃ fuel s', s.fdeventDispatch fuel current = .ok s' ∧
      ∀ event ∈ xs, s.deadline event ≤ current.usecs → s'.TimedOut event) ↔
    (∀ event ∈ xs, ¬s.deadline event ≤ current.usecs) ∧
      ∀ first, (xs.filter fun q => !s.ready s.fdcount.toNat 0 q).head? = some first →
        ¬Due (s.timeoutOf first) current := by
  obtain ⟨zs, hz⟩ := h.pending
  refine ⟨?_, ?_⟩
  · intro ⟨fuel, s', hs', hall⟩
    have hnot : ∀ first, (xs.filter fun q => !s.ready s.fdcount.toNat 0 q).head? = some first →
        ¬Due (s.timeoutOf first) current :=
      fun first hfirst hdue => fdeventDispatch_ne_ok h hfirst hdue hs'
    refine ⟨fun event hevent hpassed => ?_, hnot⟩
    obtain ⟨⟨e, he, hrevents⟩, -, ys, hys, hout⟩ := hall event hevent hpassed
    obtain ⟨s1, h1, hs'⟩ := Res.bind_eq_ok.1 hs'
    have hd := (dispatchReady_spec h.timeouts hz h.table_zero).1 s1 h1
    -- the second loop has done nothing
    cases fuel with
    | zero => simp [dispatchTimeouts] at hs'
    | succ fuel =>
      rw [dispatchTimeouts_eq hd.timeouts (fun first hfirst => by
        rw [hd.timeoutOf_eq first (List.mem_of_mem_head? hfirst)]
        exact hnot first hfirst)] at hs'
      cases hs'
      by_cases hready : s.ready s.fdcount.toNat 0 event = true
      · obtain ⟨d, r, hd', hr⟩ := hd.told event hready
        obtain rfl : e = d := Option.some_inj.1 (he.symm.trans hd')
        exact hrevents (by rw [hr]; exact eventsOf_and_timeout r)
      · have hsame := List.map_injective_iff.2 (Option.some_injective Ptr) (hys.unique hd.timeouts.ring)
        rw [hsame] at hout
        exact hout (List.mem_filter.2 ⟨hevent, by simpa using hready⟩)
  · intro ⟨hnone, hnot⟩
    obtain ⟨s1, h1⟩ := (dispatchReady_spec h.timeouts hz h.table_zero).2 (Nat.lt_succ_self _)
    have hd := (dispatchReady_spec h.timeouts hz h.table_zero).1 s1 h1
    refine ⟨zs.length + s.fdcount.toNat + 1, s1, ?_, fun event hevent hpassed =>
      absurd hpassed (hnone event hevent)⟩
    rw [fdeventDispatch, h1, Res.ok_bind]
    exact dispatchTimeouts_eq hd.timeouts fun first hfirst => by
      rw [hd.timeoutOf_eq first (List.mem_of_mem_head? hfirst)]
      exact hnot first hfirst

end

theorem armOne_inv : ∃ (s : FdeventSource) (xs : List Ptr), Runs.run fdeventStep armOne smallSource =
    .ok s ∧ s.Inv xs ∧
    s.timeouts.next none = some (some 1) ∧ s.timeoutOf 1 = ⟨3, 1050000⟩ ∧
      s.ready s.fdcount.toNat 0 1 = false := by
  have hsafe : Res.Safe (fun s => ∃ xs, s.Inv xs) (Runs.run fdeventStep armOne smallSource) :=
    Runs.run_safe fdeventStep_inv ⟨[], fdeventCreate_inv 9 4 (fun _ => ⟨0, 0, 0⟩) fun _ => 0⟩ armOne_meets
  have hfacts : ¬Res.Safe (fun s => ¬(s.timeouts.next none = some (some 1) ∧ s.timeoutOf 1 = ⟨3, 1050000⟩ ∧
      s.ready s.fdcount.toNat 0 1 = false)) (Runs.run fdeventStep armOne smallSource) := by decide +kernel
  cases hrun : Runs.run fdeventStep armOne smallSource with
  | exit => exact (hfacts (by rw [hrun]; trivial)).elim
  | fault =>
    rw [hrun] at hsafe
    exact hsafe.elim
  | ok s =>
    rw [hrun] at hsafe hfacts
    obtain ⟨xs, hinv⟩ := hsafe
    exact ⟨s, xs, rfl, hinv, not_not.1 hfacts⟩

/-- An event whose deadline has passed, in a source that four calls have made, keeps the dispatch for ever. -/
theorem fdeventDispatch_stuck : ¬∀ s, Runs.run fdeventStep armOne smallSource = .ok s →
    ∃ fuel s', s.fdeventDispatch fuel ⟨5, 0⟩ = .ok s' := by
  intro hall
  obtain ⟨s, xs, hrun, hinv, hhead, htime, hready⟩ := armOne_inv
  obtain ⟨fuel, s', hs'⟩ := hall s hrun
  cases xs with
  | nil => simp [hinv.lists.timeouts.ring.next_head] at hhead
  | cons x xs =>
    rw [hinv.lists.timeouts.ring.next_head] at hhead
    obtain rfl : x = 1 := by simpa using hhead
    have hfirst : ((1 :: xs).filter fun q => !s.ready s.fdcount.toNat 0 q).head? = some 1 := by simp [hready]
    exact fdeventDispatch_ne_ok hinv.wellFormed hfirst (by rw [htime]; simp [Due]) hs'

/-- The same source a second before. -/
theorem fdeventDispatch_early : ∃ (s : FdeventSource)
    (xs : List Ptr), Runs.run fdeventStep armOne smallSource = .ok s ∧
    ((∃ fuel s', s.fdeventDispatch fuel ⟨3, 0⟩ = .ok s' ∧
      ∀ event ∈ xs, s.deadline event ≤ (⟨3, 0⟩ : Timeval).usecs → s'.TimedOut event) ↔
    (∀ event ∈ xs, ¬s.deadline event ≤ (⟨3, 0⟩ : Timeval).usecs) ∧
      ∀ first, (xs.filter fun q => !s.ready s.fdcount.toNat 0 q).head? = some first →
        ¬Due (s.timeoutOf first) ⟨3, 0⟩) := by
  obtain ⟨s, xs, hrun, hinv, -⟩ := armOne_inv
  exact ⟨s, xs, hrun, fdeventDispatch_iff hinv.wellFormed⟩

end FdeventSource

end Utils
