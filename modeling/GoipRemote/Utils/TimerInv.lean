import GoipRemote.Utils.TimerRefine

/-!
# The invariant of the timer queue

`Sound s q`: `s` represents `q`, every timer has at most one entry in `q`, every entry is one of a
timer that has not been destroyed, and nothing is pending outside a pass. Every function of the file
keeps it, whatever the order of the calls, as long as a destroyed timer is not used again:
`stopTimer_sound`, `destroyTimer_sound`, `startTimer_sound`, `setTimeout_sound`, and the pieces of a
pass (`timerEnter_sound`, `timerFire_sound`, `timerLeave_sound`).

`Sound.armed`: the timers that have an entry, with their repeat counts.
-/

namespace Utils

open LinkedList Function

variable {κ : Type}

/-! ## Queues with one entry a timer -/

namespace Queue

/-- Every timer has at most one entry. -/
def Unique (q : Queue) : Prop := (q.all.map Armed.timer).Nodup

theorem eraseP_of_eq_filter {t : Ptr} : ∀ {l : List Armed}, (l.map Armed.timer).Nodup →
    l.eraseP (Armed.of t) = l.filter fun e => e.timer ≠ t
  | [], _ => rfl
  | e :: l, h => by
    simp only [List.map_cons, List.nodup_cons, List.mem_map, not_exists, not_and] at h
    by_cases he : e.timer = t
    · have hl : l.filter (fun e => e.timer ≠ t) = l :=
        List.filter_eq_self.2 fun x hx => by simpa using fun hxt => h.1 x hx (hxt.trans he.symm)
      rw [List.eraseP_cons_of_pos (by simp [Armed.of, he]),
        List.filter_cons_of_neg (by simp [he]), hl]
    · rw [List.eraseP_cons_of_neg (by simp [Armed.of, he]),
        List.filter_cons_of_pos (by simp [he]), eraseP_of_eq_filter h.2]

/-- Removing the first entry of a timer removes its only one. -/
theorem remove_eq {q : Queue} (h : q.Unique) (t : Ptr) :
    q.remove t = ⟨q.list.filter fun e => e.timer ≠ t, q.pending.filter fun e => e.timer ≠ t⟩ := by
  unfold Unique Queue.all at h
  rw [List.map_append, List.nodup_append] at h
  obtain ⟨h1, h2, h3⟩ := h
  unfold Queue.remove
  split
  · rename_i hany
    obtain ⟨e, he, het⟩ := List.any_eq_true.1 hany
    have hp : q.pending.filter (fun e => e.timer ≠ t) = q.pending := by
      refine List.filter_eq_self.2 fun x hx => ?_
      have hne := h3 _ (List.mem_map_of_mem he) _ (List.mem_map_of_mem hx)
      have het' : e.timer = t := of_decide_eq_true het
      exact decide_eq_true fun hxt => hne (het'.trans hxt.symm)
    rw [eraseP_of_eq_filter h1, hp]
  · rename_i hany
    have hl : q.list.filter (fun e => e.timer ≠ t) = q.list := by
      refine List.filter_eq_self.2 fun x hx => ?_
      have := mt (fun hx' => List.any_eq_true.2 ⟨x, hx, hx'⟩) hany
      simpa [Armed.of] using this
    rw [eraseP_of_eq_filter h2, hl]

theorem remove_all {q : Queue} (h : q.Unique) (t : Ptr) :
    (q.remove t).all = q.all.filter fun e => e.timer ≠ t := by
  rw [remove_eq h, Queue.all, Queue.all, List.filter_append]

theorem mem_remove {q : Queue} (h : q.Unique) {t : Ptr} {e : Armed} :
    e ∈ (q.remove t).all ↔ e ∈ q.all ∧ e.timer ≠ t := by
  rw [remove_all h, List.mem_filter]
  simp

theorem remove_unique {q : Queue} (h : q.Unique) (t : Ptr) : (q.remove t).Unique := by
  unfold Unique
  rw [remove_all h]
  exact h.sublist (List.filter_sublist.map _)

theorem arm_perm (q : Queue) (lock : Bool) (e : Armed) : (q.arm lock e).all.Perm (e :: q.all) := by
  cases lock with
  | true => simp [arm, all]
  | false =>
    simp only [arm, all, Bool.false_eq_true, if_false]
    exact (List.perm_orderedInsert Armed.Before e q.list).append_right q.pending

theorem mem_arm {q : Queue} {lock : Bool} {e x : Armed} :
    x ∈ (q.arm lock e).all ↔ x = e ∨ x ∈ q.all := by
  rw [(arm_perm q lock e).mem_iff, List.mem_cons]

theorem arm_unique {q : Queue} (h : q.Unique) {lock : Bool} {e : Armed}
    (he : ∀ x ∈ q.all, x.timer ≠ e.timer) : (q.arm lock e).Unique := by
  unfold Unique
  rw [((arm_perm q lock e).map Armed.timer).nodup_iff, List.map_cons, List.nodup_cons]
  refine ⟨fun hm => ?_, h⟩
  obtain ⟨x, hx, hxe⟩ := List.mem_map.1 hm
  exact he x hx hxe

theorem merge_perm (q : Queue) : q.merge.all.Perm q.all := by
  obtain ⟨l, p⟩ := q
  simp only [merge, all, List.append_nil]
  induction p generalizing l with
  | nil => simp
  | cons e p ih =>
    refine (ih (l.orderedInsert Armed.Before e)).trans ?_
    refine ((List.perm_orderedInsert Armed.Before e l).append_right p).trans ?_
    exact List.perm_middle.symm

theorem merge_unique {q : Queue} (h : q.Unique) : q.merge.Unique :=
  ((merge_perm q).map Armed.timer).nodup_iff.2 h

/-- What restarting a timer leaves of a queue. -/
def restart (q : Queue) (lock : Bool) (e : Armed) : Queue :=
  ((q.remove e.timer).remove e.timer).arm lock e

theorem mem_restart {q : Queue} (h : q.Unique) {lock : Bool} {e x : Armed} :
    x ∈ (q.restart lock e).all ↔ x = e ∨ x ∈ q.all ∧ x.timer ≠ e.timer := by
  rw [restart, mem_arm, mem_remove (remove_unique h _), mem_remove h]
  tauto

/-- In a pass, the timer's entry goes to `pending_list`. -/
theorem restart_list {q : Queue} (h : q.Unique) {e : Armed} (he : ∀ x ∈ q.list, x.timer ≠ e.timer) :
    (q.restart true e).list = q.list := by
  have hlist : q.list.filter (fun x => x.timer ≠ e.timer) = q.list :=
    List.filter_eq_self.2 fun x hx => decide_eq_true (he x hx)
  rw [restart, arm, if_pos rfl, remove_eq (remove_unique h _), remove_eq h]
  simp only [hlist]

end Queue

/-! ## The invariant -/

/-- The invariant of the timer queue (module doc). -/
structure Sound (s : Timers κ) (q : Queue) : Prop where
  rep : Rep s q
  unique : q.Unique
  alive : ∀ e ∈ q.all, (s.timers e.timer).isSome
  idle : s.inCheckTimeoutLock = false → q.pending = []

theorem init_sound (clock : Nat → Timeval) (malloc : Nat → Bool) :
    Sound (Timers.init clock malloc : Timers κ) ⟨[], []⟩ where
  rep := ⟨[], [], [], ⟨isList_nil.2 rfl, isList_nil.2 rfl, isList_nil.2 rfl, List.nodup_nil,
    by simp⟩, Nat.one_pos, rfl⟩
  unique := List.nodup_nil
  alive := by simp [Queue.all]
  idle := fun _ => rfl

section
variable {s : Timers κ} {q : Queue}

/-- Removing a timer's entry keeps the rest of the invariant. -/
theorem Sound.remove {s' : Timers κ} (h : Sound s q) {t : Ptr} (hr : Rep s' (q.remove t))
    (hl : s'.inCheckTimeoutLock = s.inCheckTimeoutLock)
    (ht : ∀ x, x ≠ t → s'.timers x = s.timers x) : Sound s' (q.remove t) where
  rep := hr
  unique := Queue.remove_unique h.unique t
  alive := fun e he => by
    obtain ⟨he, hne⟩ := (Queue.mem_remove h.unique).1 he
    rw [ht _ hne]
    exact h.alive e he
  idle := fun hlock => by
    rw [Queue.remove_eq h.unique, h.idle (hl ▸ hlock)]
    rfl

theorem stopTimer_sound (h : Sound s q) (t : Ptr) :
    ∃ s', stopTimer s t = .ok s' ∧ Sound s' (q.remove t) ∧ Frame s s' := by
  obtain ⟨s', hs', hr, hfr⟩ := stopTimer_rep h.rep t
  exact ⟨s', hs', h.remove hr hfr.lock fun x _ => by rw [hfr.timers], hfr⟩

theorem destroyTimer_sound (h : Sound s q) {t : Ptr} (ht : (s.timers t).isSome) :
    ∃ s', destroyTimer s t = .ok s' ∧ Sound s' (q.remove t) ∧
      s'.inCheckTimeoutLock = s.inCheckTimeoutLock ∧ s'.timers = update s.timers t none ∧
      s'.clock = s.clock ∧ s'.malloc = s.malloc := by
  obtain ⟨s', hs', hr, hl, htm, hc, hm⟩ := destroyTimer_rep h.rep ht
  exact ⟨s', hs', h.remove hr hl fun x hx => by rw [htm, update_of_ne hx], hl, htm, hc, hm⟩

/-- Arming a timer anew keeps the rest of the invariant. -/
theorem Sound.rearm {s' : Timers κ} (h : Sound s q) {e : Armed} (hfr : Frame s s')
    (hr : Rep s' ((q.remove e.timer).arm s.inCheckTimeoutLock e))
    (ht : (s.timers e.timer).isSome) :
    Sound s' ((q.remove e.timer).arm s.inCheckTimeoutLock e) where
  rep := hr
  unique := Queue.arm_unique (Queue.remove_unique h.unique _) fun _ hx =>
    ((Queue.mem_remove h.unique).1 hx).2
  alive := fun x hx => by
    rw [hfr.timers]
    rcases Queue.mem_arm.1 hx with rfl | hx
    · exact ht
    · exact h.alive x ((Queue.mem_remove h.unique).1 hx).1
  idle := fun hlock => by
    rw [hfr.lock] at hlock
    rw [hlock, Queue.arm, if_neg Bool.false_ne_true, Queue.remove_eq h.unique]
    simp [h.idle hlock]

theorem startTimer_sound (h : Sound s q) {t : Ptr} (ht : (s.timers t).isSome) (n : Int32) :
    ∃ s' r q', startTimer s t n = .ok (s', r) ∧ Frame s s' ∧ Sound s' q' ∧
      ((r = -1 ∧ q' = q.remove t ∧ s.malloc ≠ fun _ => true) ∨
        (r = 0 ∧ ∃ d, q' = (q.remove t).arm s.inCheckTimeoutLock ⟨t, d, n⟩)) := by
  obtain ⟨s', r, hs', hfr, ⟨rfl, hr, hm⟩ | ⟨rfl, d, hr⟩⟩ := startTimer_rep h.rep ht n
  · exact ⟨s', -1, _, hs', hfr, h.remove hr hfr.lock fun x _ => by rw [hfr.timers],
      .inl ⟨rfl, rfl, hm⟩⟩
  · exact ⟨s', 0, _, hs', hfr, h.rearm (e := ⟨t, d, n⟩) hfr hr ht, .inr ⟨rfl, d, rfl⟩⟩

/-- A timer is armed anew, all else stays. -/
theorem restartTimer_sound (h : Sound s q) {t : Ptr} (ht : (s.timers t).isSome) (n : Int32)
    (hm : s.malloc = fun _ => true) :
    ∃ s' d, restartTimer s t n = .ok s' ∧ Frame s s' ∧
      Sound s' (q.restart s.inCheckTimeoutLock ⟨t, d, n⟩) := by
  obtain ⟨s₁, hs₁, hsound₁, hfr₁⟩ := stopTimer_sound h t
  obtain ⟨s', r, q', hs', hfr, hsound, ⟨-, -, hm'⟩ | ⟨-, d, rfl⟩⟩ :=
    startTimer_sound hsound₁ (hfr₁.timers ▸ ht) n
  · rw [hfr₁.malloc] at hm'
    exact absurd hm hm'
  · refine ⟨s', d, ?_, hfr₁.trans hfr, ?_⟩
    · simp only [restartTimer, hs₁, hs', Res.ok_bind, Res.pure_eq]
    · rw [Queue.restart, ← hfr₁.lock]
      exact hsound

theorem setTimeout_sound (h : Sound s q) {t : Ptr} (ht : (s.timers t).isSome) (tv : Timeval) :
    ∃ s' r q', setTimeout s t tv = .ok (s', r) ∧ Frame s s' ∧ Sound s' q' ∧
      ((r = -1 ∧ q' = q.remove t) ∨
        (r = 0 ∧ q' = (q.remove t).arm s.inCheckTimeoutLock ⟨t, tv, 1⟩)) := by
  obtain ⟨s', r, hs', hfr, ⟨rfl, hr⟩ | ⟨rfl, hr⟩⟩ := setTimeout_rep h.rep t tv
  · exact ⟨s', -1, _, hs', hfr, h.remove hr hfr.lock fun x _ => by rw [hfr.timers], .inl ⟨rfl, rfl⟩⟩
  · exact ⟨s', 0, _, hs', hfr, h.rearm (e := ⟨t, tv, 1⟩) hfr hr ht, .inr ⟨rfl, rfl⟩⟩

theorem createTimer_sound (h : Sound s q) {t : Ptr} (ht : s.timers t = none) (i : Nat) (c : Ptr)
    (f : κ) : Sound (createTimer s t i c f) q := by
  unfold createTimer
  split
  · exact h
  · refine ⟨h.rep.congr rfl rfl rfl rfl rfl, h.unique, fun e he => ?_, h.idle⟩
    have hne : e.timer ≠ t := fun hc => by
      have := h.alive e he
      rw [hc, ht] at this
      cases this
    show (update s.timers t _ e.timer).isSome
    rw [update_of_ne hne]
    exact h.alive e he

/-! ## The pass -/

theorem timerEnter_sound (h : Sound s q) : Sound (timerEnter s).2 q :=
  ⟨timerEnter_rep h.rep, h.unique, h.alive, fun hl => absurd hl (by simp [timerEnter])⟩

theorem timerFire_sound {e : Armed} {rest pend : List Armed} (h : Sound s ⟨e :: rest, pend⟩)
    (hlock : s.inCheckTimeoutLock = true) {tv : Timeval} (hdue : 0 ≤ tvcmp tv e.timeout) :
    ∃ s', timerFire tv s = .ok (some (e.timer, s')) ∧ Frame s s' ∧ ∃ d,
      Sound s' ⟨rest, if e.repeats = 1 then pend else ⟨e.timer, d, e.repeats - 1⟩ :: pend⟩ := by
  obtain ⟨s', hs', hfr, d, hr⟩ := timerFire_rep h.rep hlock (h.alive e (by simp [Queue.all])) hdue
  refine ⟨s', hs', hfr, d, hr, ?_, fun x hx => ?_, fun hl => ?_⟩
  · have hu := h.unique
    unfold Queue.Unique Queue.all at hu ⊢
    split
    · exact (List.nodup_cons.1 hu).2
    · refine (List.Perm.nodup_iff ?_).1 hu
      simpa using (List.perm_middle (a := e.timer)).symm
  · rw [hfr.timers]
    split at hx
    · exact h.alive x (by simp only [Queue.all, List.mem_append, List.mem_cons] at hx ⊢; tauto)
    · simp only [Queue.all, List.mem_append, List.mem_cons] at hx
      rcases hx with hx | rfl | hx
      · exact h.alive x (by simp [Queue.all, hx])
      · exact h.alive e (by simp [Queue.all])
      · exact h.alive x (by simp [Queue.all, hx])
  · rw [hfr.lock, hlock] at hl
    cases hl

theorem timerLeave_sound (h : Sound s q) :
    ∃ s' r, timerLeave s = .ok (s', r) ∧ Sound s' q.merge ∧ s'.inCheckTimeoutLock = false ∧
      s'.timers = s.timers ∧ s'.clock = s.clock ∧ s'.malloc = s.malloc := by
  obtain ⟨s', r, hs', hr, hl, ht, hc, hm⟩ := timerLeave_rep h.rep
  refine ⟨s', r, hs', ⟨hr, Queue.merge_unique h.unique, fun e he => ?_, fun _ => rfl⟩, hl, ht, hc, hm⟩
  rw [ht]
  exact h.alive e ((Queue.merge_perm q).mem_iff.1 he)

/-! ## Invariants of a world through a pass -/

variable {σ : Type} {get : σ → Timers κ} {set : σ → Timers κ → σ}
  {call : Ptr → Timer κ → σ → Res σ}

/-- What a round of the loop leaves of a queue with head `e`, before the callback. -/
def Queue.fired (e : Armed) (rest pend : List Armed) (d : Timeval) : Queue :=
  ⟨rest, if e.repeats = 1 then pend else ⟨e.timer, d, e.repeats - 1⟩ :: pend⟩

/-- **The loop rule.** `I` holds through the loop of a pass if the callback of each round keeps it
and adds nothing to `timer_list`. -/
theorem timerLoop_rule {I : σ → Queue → Prop} {tv : Timeval}
    (hsound : ∀ w q, I w q → Sound (get w) q ∧ (get w).inCheckTimeoutLock = true)
    (hround : ∀ w e rest pend ts d tm, I w ⟨e :: rest, pend⟩ → 0 ≤ tvcmp tv e.timeout →
      Frame (get w) ts → Sound ts (Queue.fired e rest pend d) → ts.timers e.timer = some tm →
      Res.Safe (fun w' => ∃ q', I w' q' ∧ q'.list.length ≤ rest.length)
        (call e.timer tm (set w ts))) :
    ∀ (fuel : Nat) {w : σ} {q : Queue}, I w q → q.list.length < fuel →
      Res.Safe (fun w' => ∃ q', I w' q') (timerLoop get set call tv fuel w)
  | 0, _, _, _, hf => absurd hf (Nat.not_lt_zero _)
  | fuel + 1, w, q, h, hf => by
    obtain ⟨hs, hlock⟩ := hsound w q h
    by_cases hq : ∀ e ∈ q.list.head?, tvcmp tv e.timeout < 0
    · rw [timerLoop, timerFire_none hs.rep hq]
      exact ⟨q, h⟩
    obtain ⟨l, pend⟩ := q
    cases l with
    | nil => simp at hq
    | cons e rest =>
      have hdue : 0 ≤ tvcmp tv e.timeout := by simpa using hq
      obtain ⟨ts, hts, hfr, d, hs'⟩ := timerFire_sound hs hlock hdue
      obtain ⟨tm, htm⟩ := Option.isSome_iff_exists.1
        (hfr.timers ▸ hs.alive e (by simp [Queue.all]))
      simp only [timerLoop, hts, Res.ok_bind, Res.deref_of_some htm]
      rw [Res.safe_bind]
      refine (hround w e rest pend ts d tm h hdue hfr hs' htm).mono ?_
      rintro w' ⟨q', h', hlen⟩
      exact timerLoop_rule hsound hround fuel h' (by simp at hf; omega)

/-- **The pass rule.** `I` holds within the pass, and `J` after it. -/
theorem timerCheckTimeout_rule {I J : σ → Queue → Prop} {w : σ} {q : Queue} (h : Sound (get w) q)
    (henter : I (set w (timerEnter (get w)).2) q)
    (hsound : ∀ w q, I w q → Sound (get w) q ∧ (get w).inCheckTimeoutLock = true)
    (hround : ∀ w' e rest pend ts d tm, I w' ⟨e :: rest, pend⟩ →
      0 ≤ tvcmp (timerEnter (get w)).1 e.timeout → Frame (get w') ts →
      Sound ts (Queue.fired e rest pend d) → ts.timers e.timer = some tm →
      Res.Safe (fun w' => ∃ q', I w' q' ∧ q'.list.length ≤ rest.length)
        (call e.timer tm (set w' ts)))
    (hleave : ∀ w q ts, I w q → Sound ts q.merge → ts.inCheckTimeoutLock = false →
      ts.timers = (get w).timers → ts.malloc = (get w).malloc → J (set w ts) q.merge) :
    Res.Safe (fun r => ∃ q', J r.1 q') (timerCheckTimeout get set call w) := by
  have hlen : q.list.length < (timerEnter (get w)).2.brk := by
    obtain ⟨l, p, f, hl, hb, rfl⟩ := timerEnter_rep h.rep
    have hsub : l.Sublist (l ++ p ++ f) := by simp
    simpa using hl.length_lt hsub hb
  unfold timerCheckTimeout
  rw [Res.safe_bind]
  refine (timerLoop_rule hsound hround _ henter hlen).mono ?_
  rintro w' ⟨q', h'⟩
  obtain ⟨ts, r, hts, hs, hl, ht, -, hm⟩ := timerLeave_sound (hsound w' q' h').1
  simp only [hts, Res.ok_bind]
  exact ⟨q'.merge, hleave w' q' ts h' hs hl ht hm⟩

/-- What the timers have no part in, and every callback keeps, a pass keeps. -/
theorem timerLoop_keeps {P : σ → Prop} (hset : ∀ w ts, P w → P (set w ts))
    (hcall : ∀ t tm w w', P w → call t tm w = .ok w' → P w') {tv : Timeval} :
    ∀ {fuel : Nat} {w w' : σ}, P w → timerLoop get set call tv fuel w = .ok w' → P w'
  | 0, _, _, _, h => nomatch h
  | fuel + 1, w, w', hw, h => by
    obtain ⟨fire, -, h⟩ := Res.bind_eq_ok.1 h
    cases fire with
    | none =>
      cases h
      exact hw
    | some a =>
      obtain ⟨tm, -, h⟩ := Res.bind_eq_ok.1 h
      obtain ⟨w₁, hrun, h⟩ := Res.bind_eq_ok.1 h
      exact timerLoop_keeps hset hcall (hcall _ tm _ w₁ (hset w _ hw) hrun) h

theorem timerCheckTimeout_keeps {P : σ → Prop} (hset : ∀ w ts, P w → P (set w ts))
    (hcall : ∀ t tm w w', P w → call t tm w = .ok w' → P w') {w : σ} {r : σ × Int} (hw : P w)
    (h : timerCheckTimeout get set call w = .ok r) : P r.1 := by
  obtain ⟨w₁, hloop, h⟩ := Res.bind_eq_ok.1 h
  obtain ⟨⟨ts, n⟩, -, h⟩ := Res.bind_eq_ok.1 h
  cases h
  exact hset _ _ (timerLoop_keeps hset hcall (hset _ _ hw) hloop)

end

/-! ## What is due -/

/-- The timers of the entries at the front of a list that are due at `tv`. -/
def dueTimers (s : Timers κ) (tv : Timeval) : Nat → Ptr → List Ptr
  | 0, _ => []
  | fuel + 1, e =>
    if e = 0 ∨ tvcmp tv (s.entries e).timeout < 0 then []
    else (s.entries e).timer :: dueTimers s tv fuel (s.next e)

theorem dueTimers_eq {s : Timers κ} {tv : Timeval} : ∀ {l : List Ptr} {e : Ptr} {fuel : Nat},
    IsList s.next e l → l.length < fuel →
    dueTimers s tv fuel e =
      ((l.map s.armedAt).takeWhile fun a => 0 ≤ tvcmp tv a.timeout).map Armed.timer
  | _, _, 0, _, hf => absurd hf (Nat.not_lt_zero _)
  | [], e, fuel + 1, h, _ => by
    rw [dueTimers, if_pos (.inl (isList_nil.1 h))]
    rfl
  | x :: l, e, fuel + 1, h, hf => by
    obtain ⟨rfl, hx, h'⟩ := isList_cons.1 h
    by_cases hdue : tvcmp tv (s.entries e).timeout < 0
    · rw [dueTimers, if_pos (.inr hdue), List.map_cons, List.takeWhile_cons_of_neg]
      · rfl
      · exact fun hle => absurd (of_decide_eq_true hle) (not_le.2 hdue)
    · rw [dueTimers, if_neg (by simp [hx, hdue]), List.map_cons, List.takeWhile_cons_of_pos,
        dueTimers_eq h' (Nat.lt_of_succ_lt_succ hf)]
      · rfl
      · exact decide_eq_true (not_lt.1 hdue)

theorem Rep.dueTimers_eq {s : Timers κ} {q : Queue} (h : Rep s q) (tv : Timeval) :
    dueTimers s tv s.brk s.timerList =
      (q.list.takeWhile fun a => 0 ≤ tvcmp tv a.timeout).map Armed.timer := by
  obtain ⟨l, p, f, hl, hb, rfl⟩ := h
  have hsub : l.Sublist (l ++ p ++ f) := by simp
  exact Utils.dueTimers_eq hl.list (hl.length_lt hsub hb)

end Utils
