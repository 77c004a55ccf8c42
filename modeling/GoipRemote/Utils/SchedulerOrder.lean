import GoipRemote.Utils.SchedulerInv

/-!
# The order of the tasks

`InOrder entries adds`: the list is in the order of the priorities, and tasks of equal priority stand in the
order `adds`, in which they were last added. `scheduler_add_task` looks for the place behind the head with the
comparison turned round, so it keeps the order in few cases only: `schedulerOrder_iff`.
-/

namespace Utils

variable {κ : Type}

/-- The list, with its tasks in the order they were last added (module doc). -/
structure InOrder (entries adds : List SchedulerEntry) : Prop where
  byPior : ByPior entries
  stable : ∀ p : Int, entries.filter (fun e => e.pior = p) = adds.filter fun e => e.pior = p
  tasks : Tasks entries
  urgent : ∀ pe ∈ entries.head?, ∀ e ∈ entries, pe.pior ≤ e.pior

/-- The tasks in the order they were last added, after a call; `ok` is whether its `malloc` succeeds. -/
def SchedOp.adds (ok : Bool) (adds : List SchedulerEntry) : SchedOp κ → List SchedulerEntry
  | .add ctxt task pior =>
    let adds := adds.filter fun e => !e.Is ctxt task
    if ok then adds ++ [⟨pior, ctxt, task⟩] else adds
  | .delete ctxt task => adds.filter fun e => !e.Is ctxt task
  | .deleteAll ctxt => adds.filter fun e => !e.Of ctxt
  | .timer _ => adds

/-- The scheduler, and the order of its tasks, after a call. -/
def SchedOp.step (x : Sched κ × List SchedulerEntry) (o : SchedOp κ) :
    Res (Sched κ × List SchedulerEntry) := do
  let (w, _) ← x.1.op o
  return (w, o.adds (x.1.alloc x.1.allocs) x.2)

/-- The call leaves the list in order. -/
def SchedOp.Orders (x : Sched κ × List SchedulerEntry) (o : SchedOp κ) : Prop :=
  ∃ w r, x.1.op o = .ok (w, r) ∧ InOrder w.schd.entries (o.adds (x.1.alloc x.1.allocs) x.2)

/-- What is added is put in front of all other tasks, or behind others that are as urgent as it. -/
def SchedOp.Fits (x : Sched κ × List SchedulerEntry) : SchedOp κ → Prop
  | .add ctxt task pior => x.1.alloc x.1.allocs = true →
    Utils.Fits pior (x.1.schd.entries.filter fun e => !e.Is ctxt task)
  | _ => True

section
variable {entry : SchedulerEntry} {entries adds : List SchedulerEntry} {w : Sched κ} {q : Queue} {c : Prop}

theorem InOrder.of_byPior (hsorted : ByPior entries)
    (hstable : ∀ p : Int, entries.filter (fun e => e.pior = p) = adds.filter fun e => e.pior = p)
    (htasks : Tasks entries) : InOrder entries adds := by
  refine ⟨hsorted, hstable, htasks, fun pe hpe e he => ?_⟩
  cases entries with
  | nil => cases hpe
  | cons x rest =>
    obtain rfl : x = pe := Option.some.inj hpe
    cases List.mem_cons.1 he with
    | inl he => exact he ▸ le_refl _
    | inr he => exact (List.pairwise_cons.1 hsorted).1 e he

theorem InOrder.filter (h : InOrder entries adds) (f : SchedulerEntry → Bool) :
    InOrder (entries.filter f) (adds.filter f) := by
  apply InOrder.of_byPior (h.byPior.sublist List.filter_sublist) _ (h.tasks.filter f)
  intro p
  rw [List.filter_comm, h.stable p, List.filter_comm]

/-- **Step lemma** for an insertion. -/
theorem insertEntry_inOrder_iff (h : InOrder entries adds) (hnew : ∀ e ∈ entries, e.key ≠ entry.key) :
    InOrder (insertEntry entry entries) (adds ++ [entry]) ↔ Fits entry.pior entries := by
  refine ⟨fun hord => fits_of_byPior hord.byPior, fun hfits => ?_⟩
  have htasks := insertEntry_tasks h.tasks hnew
  rcases hfits.insertEntry h.byPior with ⟨hlt, heq⟩ | ⟨hle, heq⟩
  · rw [heq] at htasks ⊢
    refine InOrder.of_byPior (List.pairwise_cons.2 ⟨fun e he => le_of_lt (hlt e he), h.byPior⟩)
      (fun p => ?_) htasks
    rw [List.filter_append, ← h.stable p]
    by_cases hp : entry.pior = p
    · -- all other tasks are less urgent
      have hnone : entries.filter (fun e => e.pior = p) = [] := by
        refine List.filter_eq_nil_iff.2 fun e he => ?_
        have := hlt e he
        simp
        omega
      simp [hp, hnone]
    · simp [hp]
  · rw [heq] at htasks ⊢
    refine InOrder.of_byPior ?_ (fun p => ?_) htasks
    · refine List.pairwise_append.2 ⟨h.byPior, List.pairwise_singleton .., fun e he x hx => ?_⟩
      rw [List.mem_singleton.1 hx]
      exact hle e he
    · rw [List.filter_append, List.filter_append, h.stable p]

/-- **Step lemma.** -/
theorem SchedOp.orders_iff (h : SchedInv c w q) (hord : InOrder w.schd.entries adds) (o : SchedOp κ) :
    o.Orders (w, adds) ↔ o.Fits (w, adds) := by
  obtain ⟨w', r, q', hrun, -, -, hentries⟩ := op_ok h o
  have horders : o.Orders (w, adds) ↔
      InOrder (o.entries (w.alloc w.allocs) w.schd.entries) (o.adds (w.alloc w.allocs) adds) := by
    rw [← hentries]
    refine ⟨fun ⟨w₁, r₁, hrun₁, hord₁⟩ => ?_, fun hord₁ => ⟨w', r, hrun, hord₁⟩⟩
    obtain rfl : w' = w₁ := congrArg Prod.fst (Res.ok.inj (hrun.symm.trans hrun₁))
    exact hord₁
  rw [horders]
  cases o with
  | add ctxt task pior =>
    have hfilter := hord.filter fun e => !e.Is ctxt task
    by_cases hok : w.alloc w.allocs = true
    · simp only [SchedOp.entries, SchedOp.adds, SchedOp.Fits, hok, if_true, forall_const]
      apply insertEntry_inOrder_iff hfilter
      intro e he hkey
      have hnot := (List.mem_filter.1 he).2
      rw [is_iff_key.2 hkey] at hnot
      cases hnot
    · simp only [SchedOp.entries, SchedOp.adds, SchedOp.Fits, hok]
      exact iff_of_true hfilter fun hc => absurd hc (by decide)
  | delete ctxt task => exact iff_of_true (hord.filter _) trivial
  | deleteAll ctxt => exact iff_of_true (hord.filter _) trivial
  | timer o => exact iff_of_true hord trivial

theorem orders_run_iff (h : SchedInv c w q) (hord : InOrder w.schd.entries adds) {ops : List (SchedOp κ)} :
    Runs.Along SchedOp.step SchedOp.Orders ops (w, adds) ↔
      Runs.Along SchedOp.step SchedOp.Fits ops (w, adds) := by
  induction ops generalizing w q adds with
  | nil => exact Iff.rfl
  | cons o ops ih =>
    rw [Runs.Along, Runs.Along, ← SchedOp.orders_iff h hord o]
    refine and_congr_right fun ⟨w', r, hrun, hord'⟩ => ?_
    obtain ⟨w₁, r₁, q₁, hrun₁, h₁, -⟩ := op_ok h o
    obtain rfl : w' = w₁ := congrArg Prod.fst (Res.ok.inj (hrun.symm.trans hrun₁))
    have hstep : SchedOp.step (w, adds) o = .ok (w', o.adds (w.alloc w.allocs) adds) := by
      rw [SchedOp.step, hrun]
      rfl
    rw [hstep]
    have hrest := ih h₁ hord'
    exact ⟨fun hall x hx => Res.ok.inj hx ▸ hrest.1 (hall _ rfl),
      fun hall x hx => Res.ok.inj hx ▸ hrest.2 (hall _ rfl)⟩

end

/-- **The order of `utils/scheduler.c`.** From an initialised scheduler each call of a sequence leaves the
tasks in order, when each task that is added is more urgent than all others, or none of the others but the
first is of another priority; otherwise one does not. -/
theorem schedulerOrder_iff (clock : Nat → Timeval) (malloc : Nat → Bool) (timerAddr : { p : Ptr // p ≠ 0 })
    (alloc : Nat → Bool) (ops : List (SchedOp κ)) :
    Runs.Along SchedOp.step SchedOp.Orders ops (.init clock malloc timerAddr alloc, []) ↔
      Runs.Along SchedOp.step SchedOp.Fits ops (.init clock malloc timerAddr alloc, []) :=
  orders_run_iff (init_schedInv (c := True) clock malloc timerAddr alloc)
    (.of_byPior List.Pairwise.nil (fun _ => rfl) List.nodup_nil)

/-- Tasks of the priorities `PIOR_URG`, `PIOR_MID` and `PIOR_HIGH` are added: the last is put at the end. -/
theorem schedulerOrder_reversed : ¬ Runs.Along SchedOp.step SchedOp.Orders
    [.add 1 7 0, .add 2 7 128, .add 3 7 16]
    ((.init (fun _ => ⟨0, 0⟩) (fun _ => true) ⟨9, by decide⟩ fun _ => true : Sched Unit), []) := by
  intro h
  obtain ⟨-, h⟩ := h
  obtain ⟨-, h⟩ := h _ rfl
  obtain ⟨⟨w, r, hrun, hord⟩, -⟩ := h _ rfl
  cases hrun
  have hsorted := hord.byPior
  revert hsorted
  unfold ByPior
  decide

end Utils
