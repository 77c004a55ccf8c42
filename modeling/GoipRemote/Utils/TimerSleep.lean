import GoipRemote.Utils.TimerPass

/-!
# What `tvcmp` says, and how long the event loop sleeps

`tvcmp_agrees_iff`: the sign of `tvcmp` is that of the difference unless the narrowing to `int` puts it on
the other side. `checkTimeout_sleep`: as long as it does not, what `timer_check_timeout` returns at the end
of a pass does not let the event loop sleep beyond the millisecond of the earliest deadline, though only
the head of `timer_list` is looked at.
-/

namespace Utils

open LinkedList

/-! ## `tvcmp` -/

/-- The difference in milliseconds, the seconds and what is below on their own. -/
def Timeval.millis (a b : Timeval) : Int := (a.tvSec - b.tvSec) * 1000 + (a.tvUsec - b.tvUsec).tdiv 1000

/-- `tvcmp` tells which of two times is the earlier one, but for less than a millisecond. -/
structure TvcmpAgrees (a b : Timeval) : Prop where
  earlier : tvcmp a b < 0 → a.micros < b.micros
  later : 0 < tvcmp a b → b.micros < a.micros
  close : tvcmp a b = 0 → |a.micros - b.micros| < 1000

theorem toInt_eq (x : Int) : toInt x = if x % 2 ^ 32 < 2 ^ 31 then x % 2 ^ 32 else x % 2 ^ 32 - 2 ^ 32 := by
  rw [toInt, Int.bmod_def]
  rfl

section
variable {a b : Timeval}

theorem tdiv_thousand (x : Int) : x.tdiv 1000 = if 0 ≤ x then x / 1000 else -(-x / 1000) := by
  split
  · rw [Int.tdiv_eq_ediv_of_nonneg ‹_›]
  · have hneg := Int.neg_tdiv (-x) 1000
    rw [Int.neg_neg] at hneg
    rw [hneg, Int.tdiv_eq_ediv_of_nonneg (by omega)]

/-- The sign of the difference in milliseconds, and what it leaves open. -/
theorem millis_spec (ha : 0 ≤ a.tvUsec ∧ a.tvUsec < 1000000) (hb : 0 ≤ b.tvUsec ∧ b.tvUsec < 1000000) :
    (a.millis b < 0 → a.micros < b.micros) ∧ (0 < a.millis b → b.micros < a.micros) ∧
      (a.millis b = 0 → |a.micros - b.micros| < 1000) ∧
      (2 ≤ |a.millis b| → 1000 ≤ |a.micros - b.micros|) := by
  obtain ⟨ha1, ha2⟩ := ha
  obtain ⟨hb1, hb2⟩ := hb
  unfold Timeval.millis Timeval.micros
  rw [tdiv_thousand, abs_lt, le_abs, le_abs]
  split <;> omega

/-- **`tvcmp`** is right exactly where the difference in milliseconds, modulo `2 ^ 32`, is on its own side
of zero. -/
theorem tvcmp_agrees_iff (ha : 0 ≤ a.tvUsec ∧ a.tvUsec < 1000000)
    (hb : 0 ≤ b.tvUsec ∧ b.tvUsec < 1000000) : TvcmpAgrees a b ↔
      a.millis b = 0 ∨
      0 < a.millis b ∧ 0 < a.millis b % 2 ^ 32 ∧ a.millis b % 2 ^ 32 < 2 ^ 31 ∨
      a.millis b < 0 ∧ 2 ^ 31 ≤ a.millis b % 2 ^ 32 := by
  obtain ⟨hneg, hpos, hzero, hfar⟩ := millis_spec ha hb
  have hcmp : tvcmp a b = if a.millis b % 2 ^ 32 < 2 ^ 31 then a.millis b % 2 ^ 32
      else a.millis b % 2 ^ 32 - 2 ^ 32 := toInt_eq (a.millis b)
  generalize a.millis b = d at *
  rw [le_abs] at hfar
  refine ⟨?_, ?_⟩
  · intro ⟨hearlier, hlater, hclose⟩
    rw [hcmp] at hearlier hlater hclose
    split at hearlier <;> omega
  · intro h
    refine ⟨fun hc => hneg ?_, fun hc => hpos ?_, fun hc => hzero ?_⟩
    all_goals
      rw [hcmp] at hc
      split at hc <;> omega

end

theorem tvcmp_agrees_iff_second : TvcmpAgrees ⟨11, 0⟩ ⟨10, 999999⟩ ↔
    Timeval.millis ⟨11, 0⟩ ⟨10, 999999⟩ = 0 ∨
    0 < Timeval.millis ⟨11, 0⟩ ⟨10, 999999⟩ ∧ 0 < Timeval.millis ⟨11, 0⟩ ⟨10, 999999⟩ % 2 ^ 32 ∧
      Timeval.millis ⟨11, 0⟩ ⟨10, 999999⟩ % 2 ^ 32 < 2 ^ 31 ∨
    Timeval.millis ⟨11, 0⟩ ⟨10, 999999⟩ < 0 ∧ 2 ^ 31 ≤ Timeval.millis ⟨11, 0⟩ ⟨10, 999999⟩ % 2 ^ 32 :=
  tvcmp_agrees_iff (by decide) (by decide)

/-- A clock that started at zero is set to a day in 2023. -/
theorem tvcmp_after_set : ¬ TvcmpAgrees ⟨1700000000, 0⟩ ⟨0, 0⟩ := by
  intro h
  exact absurd (h.earlier (by decide)) (by decide)

/-! ## The end of a pass -/

/-- What is left of the time until a deadline. -/
def remaining (timeout now : Timeval) : Int :=
  let tv := tvsub timeout now
  toInt (tv.tvSec * 1000 + tv.tvUsec.tdiv 1000)

/-- What `gettimeofday` answered last, as the file takes it. -/
def Timers.lastSample {κ : Type} (s : Timers κ) : Timeval := (sampleTime { s with tick := s.tick - 1 }).1

section
variable {κ : Type} {s s' : Timers κ} {r : Int}

/-- `tvsub` is exact, with the microseconds not negative. -/
theorem tvsub_spec {t now : Timeval} (ht : 0 ≤ t.tvUsec ∧ t.tvUsec ≤ 1000000)
    (hn : 0 ≤ now.tvUsec ∧ now.tvUsec ≤ 1000000) : (tvsub t now).micros = t.micros - now.micros ∧
      0 ≤ (tvsub t now).tvUsec ∧ (tvsub t now).tvUsec ≤ 1000000 := by
  obtain ⟨ht1, ht2⟩ := ht
  obtain ⟨hn1, hn2⟩ := hn
  unfold tvsub Timeval.micros
  dsimp only
  split <;> dsimp only <;> omega

/-- What is left is rounded down. -/
theorem remaining_spec {lo : Int} {t now : Timeval} (ht : t.Within lo) (hn : now.Within lo) :
    now.micros + remaining t now * 1000 ≤ t.micros := by
  obtain ⟨hsub, hlow, hhigh⟩ := tvsub_spec ⟨ht.usec_nonneg, ht.usec_le⟩ ⟨hn.usec_nonneg, hn.usec_le⟩
  have ht1 := ht.lo_le
  have ht2 := ht.le_hi
  have hn1 := hn.lo_le
  have hn2 := hn.le_hi
  unfold remaining
  generalize tvsub t now = d at *
  have hd : d.micros = d.tvSec * 1000000 + d.tvUsec := rfl
  dsimp only
  rw [tdiv_thousand, if_pos hlow, toInt_eq]
  split <;> omega

/-- What `timer_check_timeout` returns. -/
theorem timerLeave_timeout (h : timerLeave s = .ok (s', r)) :
    s'.timerList = 0 ∧ r = -1 ∨ s'.timerList ≠ 0 ∧
      r = max 0 (remaining (s'.entries s'.timerList).timeout s'.lastSample) := by
  obtain ⟨s₁, -, h⟩ := Res.bind_eq_ok.1 h
  generalize hs₂ : ({ s₁ with pendingList := 0 } : Timers κ) = s₂ at h
  dsimp only at h
  split at h
  · cases h
    exact .inl ⟨‹_›, rfl⟩
  · obtain ⟨rfl, rfl⟩ := Prod.mk.inj (Res.ok.inj h)
    refine .inr ⟨‹_›, ?_⟩
    show (if remaining _ (sampleTime s₂).1 < 0 then 0 else remaining _ (sampleTime s₂).1) = _
    have hlast : (sampleTime s₂).2.lastSample = (sampleTime s₂).1 := rfl
    rw [hlast]
    split <;> omega

end

/-! ## Every pass -/

section
variable {κ : Type} {clock : Nat → Timeval} {malloc : Nat → Bool} {w w' : TimerRun κ} {q : Queue}
  {r lo : Int}

/-- A pass, with what `timer_check_timeout` returns. -/
def TimerRun.checkTimeout (w : TimerRun κ) (scripts : List (List (TimerOp κ))) :
    Res (TimerRun κ × Int) := do
  let (w, r) ← timerCheckTimeout (fun w => w.1.ts) (fun w ts => ({ w.1 with ts := ts }, w.2))
    TimerRun.callback (w, scripts)
  return (w.1, r)

theorem exists_checkTimeout {scripts : List (List (TimerOp κ))} (h : w.pass scripts = .ok w') :
    ∃ r ts, w.checkTimeout scripts = .ok (w', r) ∧ timerLeave ts = .ok (w'.ts, r) := by
  obtain ⟨⟨⟨w'', left⟩, r⟩, hrun, h⟩ := Res.bind_eq_ok.1 h
  cases h
  refine ⟨r, ?_⟩
  have hcheck : w.checkTimeout scripts = .ok (w'', r) := by
    rw [TimerRun.checkTimeout, hrun]
    rfl
  obtain ⟨⟨w₁, scripts₁⟩, -, hrun⟩ := Res.bind_eq_ok.1 hrun
  obtain ⟨⟨ts, r'⟩, hleave, hrun⟩ := Res.bind_eq_ok.1 hrun
  cases hrun
  exact ⟨w₁.ts, hcheck, hleave⟩

/-- The head stands for all that is armed. -/
theorem ReachInv.head_le (h : ReachInv w q) {e : Ptr} (he : w.ts.Listed e) :
    w.ts.Listed w.ts.timerList ∧
      (w.ts.entries w.ts.timerList).timeout.Le (w.ts.entries e).timeout := by
  obtain ⟨l, hl, he⟩ := he
  cases l with
  | nil => cases he
  | cons x l =>
    obtain ⟨hx, -, -⟩ := isList_cons.1 hl
    refine ⟨⟨x :: l, hl, hx ▸ List.mem_cons_self⟩, ?_⟩
    obtain ⟨l', p, f, hlists, -, rfl⟩ := h.sound.rep
    have hsorted : Sorted ((x :: l).map w.ts.armedAt) := hl.unique hlists.list ▸ h.sorted
    rw [hx]
    cases List.mem_cons.1 he with
    | inl he => exact he ▸ Timeval.Le.refl _
    | inr he => exact (List.pairwise_cons.1 hsorted).1 _ (List.mem_map_of_mem he)

/-- **The event loop never oversleeps.** After a pass from any reachable state, whatever its callbacks do,
with the deadlines and the second sample within `2 ^ 31 - 1` milliseconds. -/
theorem checkTimeout_sleep (h : Reach clock malloc w) (scripts : List (List (TimerOp κ))) :
    ∃ w' r, w.checkTimeout scripts = .ok (w', r) ∧ w'.ts.pendingList = 0 ∧ ∀ lo,
      (∀ e, w'.ts.Listed e → (w'.ts.entries e).timeout.Within lo) → w'.ts.lastSample.Within lo →
      (r = -1 ↔ ∀ e, ¬ w'.ts.Listed e) ∧ ∀ e, w'.ts.Listed e → 0 ≤ r ∧
        (r = 0 ∨ w'.ts.lastSample.micros + r * 1000 < (w'.ts.entries e).timeout.micros + 1000) := by
  obtain ⟨q, hq⟩ := h.inv
  obtain ⟨w', _, _, _, hpass, -, -, -, hsound, hlock⟩ := pass_passInv hq scripts
  obtain ⟨r, ts, hcheck, hleave⟩ := exists_checkTimeout hpass
  refine ⟨w', r, hcheck, ?_, fun lo hin hnow => ?_⟩
  · obtain ⟨l, p, f, hlists, -, hq⟩ := hsound.rep
    have hnil : p.map w'.ts.armedAt = [] := (congrArg Queue.pending hq).symm.trans (hsound.idle hlock)
    exact hlists.pending.eq_zero_iff.2 (List.map_eq_nil_iff.1 hnil)
  obtain ⟨q', hq'⟩ := (Reach.pass scripts h hpass ⟨lo, hin⟩).inv
  cases timerLeave_timeout hleave with
  | inl hnone =>
    obtain ⟨hzero, hr⟩ := hnone
    have hno : ∀ e, ¬ w'.ts.Listed e := by
      intro e ⟨l, hl, he⟩
      rw [hl.eq_zero_iff.1 hzero] at he
      cases he
    exact ⟨iff_of_true hr hno, fun e he => absurd he (hno e)⟩
  | inr hsome =>
    obtain ⟨hne, hr⟩ := hsome
    have hnonneg : 0 ≤ r := hr ▸ le_max_left _ _
    have hhead : w'.ts.Listed w'.ts.timerList := by
      obtain ⟨l, p, f, hlists, -, -⟩ := hq'.sound.rep
      cases l with
      | nil => exact absurd hlists.list hne
      | cons x l => exact ⟨x :: l, hlists.list, (isList_cons.1 hlists.list).1 ▸ List.mem_cons_self⟩
    refine ⟨iff_of_false (by omega) fun hno => hno _ hhead, fun e he => ⟨hnonneg, ?_⟩⟩
    have hle := (hq'.head_le he).2
    have hleft := remaining_spec (hin _ hhead) hnow
    generalize remaining (w'.ts.entries w'.ts.timerList).timeout w'.ts.lastSample = left at hr hleft
    unfold Timeval.Le at hle
    have hmicros : (w'.ts.entries w'.ts.timerList).timeout.micros <
        (w'.ts.entries e).timeout.micros + 1000 := by
      unfold Timeval.micros at *
      omega
    omega

end

/-- At `9` there is a second until the first of the two deadlines. -/
theorem checkTimeout_sleep_ten : ∃ w' r, (setTwo ⟨9, 0⟩).checkTimeout [] = .ok (w', r) ∧
    (r = -1 ↔ ∀ e, ¬ w'.ts.Listed e) ∧ ∀ e, w'.ts.Listed e → 0 ≤ r ∧
      (r = 0 ∨ w'.ts.lastSample.micros + r * 1000 < (w'.ts.entries e).timeout.micros + 1000) := by
  obtain ⟨w₁, r₁, h₁, hlist, hfirst, hsecond, hlast⟩ : ∃ w₁ r₁,
      (setTwo ⟨9, 0⟩).checkTimeout [] = .ok (w₁, r₁) ∧ IsList w₁.ts.next w₁.ts.timerList [1, 2] ∧
      (w₁.ts.entries 1).timeout = ⟨10, 500⟩ ∧ (w₁.ts.entries 2).timeout = ⟨10, 0⟩ ∧
      w₁.ts.lastSample = ⟨9, 0⟩ :=
    ⟨_, _, rfl, isList_cons.2 ⟨rfl, by decide, isList_cons.2 ⟨rfl, by decide, isList_nil.2 rfl⟩⟩, rfl, rfl,
      rfl⟩
  obtain ⟨w', r, hrun, -, hsleep⟩ := checkTimeout_sleep (setTwo_reach ⟨9, 0⟩) []
  obtain ⟨rfl, rfl⟩ := Prod.mk.inj (Res.ok.inj (h₁.symm.trans hrun))
  refine ⟨w₁, r₁, hrun, hsleep 0 ?_ (by rw [hlast]; decide)⟩
  intro e ⟨l, hl, he⟩
  rw [← hlist.unique hl] at he
  rcases List.mem_pair.1 he with rfl | rfl
  · rw [hfirst]
    decide
  · rw [hsecond]
    decide

/-- With the clock at `10.001`, timer `1` is set to `10` and timer `2` to `2 ^ 31` milliseconds later. -/
def setFar : Res (TimerRun Unit) :=
  TimerRun.ops [.create 1 0 0 (), .setTimeout 1 ⟨10, 0⟩, .create 2 0 0 (),
    .setTimeout 2 ⟨2147493, 648000⟩] (TimerRun.init (fun _ => ⟨10, 1000⟩) fun _ => true)

/-- The later timer stands in front, and the event loop sleeps until then though the other one is due. -/
theorem checkTimeout_oversleeps : ∃ w w' r, setFar = .ok w ∧ w.checkTimeout [] = .ok (w', r) ∧
    w'.ts.Listed 1 ∧ w'.ts.entries 1 = ⟨1, ⟨10, 0⟩, 1, 0⟩ ∧ w'.ts.Listed 2 ∧
    (w'.ts.entries 2).timeout = ⟨2147493, 648000⟩ ∧ w'.ts.lastSample = ⟨10, 1000⟩ ∧
    (Timeval.mk 2147493 648000).micros - (Timeval.mk 10 0).micros = 2 ^ 31 * 1000 ∧ r = 2 ^ 31 - 1 ∧
    (Timeval.mk 10 0).micros + 1000 ≤ (Timeval.mk 10 1000).micros + r * 1000 := by
  refine ⟨_, _, _, rfl, rfl, ⟨[2, 1], ?_, by decide⟩, rfl, ⟨[2, 1], ?_, by decide⟩, rfl, rfl,
    by decide, by decide, by decide⟩
  · exact isList_cons.2 ⟨rfl, by decide, isList_cons.2 ⟨rfl, by decide, isList_nil.2 rfl⟩⟩
  · exact isList_cons.2 ⟨rfl, by decide, isList_cons.2 ⟨rfl, by decide, isList_nil.2 rfl⟩⟩

end Utils
