import GoipRemote.Utils.ListHead

/-!
# Signals and slots (utils/observer.c)

A signal is the list of the slots connected to it, through their `link`; the signal's own link is `none`. What
a callback does is given by the world it finds: whether it calls `SLOT_DISCONNECT` on its own slot, and the
world it leaves.

`__signal_emit` takes the next link from the slot whose callback has just run. A slot that has disconnected
itself leads to itself, so the emission never gets away from it (`signalEmitLoop_alone`). It returns, and has
called each slot in order, exactly when no callback disconnects its slot (`signalEmit_iff`).
-/

namespace Utils

variable {κ σ α : Type} [DecidableEq κ]

/-- `SIGNAL_ARGMAX`. -/
def signalArgmax : Nat := 8

/-- What a callback does: whether it disconnects its slot, and the world it leaves. -/
abbrev Callback (κ σ α : Type) := κ → (Fin signalArgmax → α) → σ → Bool × σ

/-- The links, the world, and what has been done: the slots called and those disconnected. -/
structure Emission (κ σ : Type) where
  slots : Links (Option κ)
  world : σ
  called : List κ
  disconnected : List κ

/-- `__signal_init`. -/
def signalInit (m : Links (Option κ)) : Links (Option κ) := initListHead m none

/-- `__signal_connect`. -/
def signalConnect (m : Links (Option κ)) (slot : κ) : Res (Links (Option κ)) := listAddTail m (some slot) none

/-- `__slot_disconnect`. -/
def slotDisconnect (m : Links (Option κ)) (slot : κ) : Res (Links (Option κ)) := listDelInit m (some slot)

/-- `slot->callback(slot, args[0], ..)`. -/
def callSlot (callback : Callback κ σ α) (args : Fin signalArgmax → α) (s : Emission κ σ) (slot : κ) :
    Res (Emission κ σ) :=
  let (leaves, world) := callback slot args s.world
  let s := { s with world := world, called := s.called ++ [slot] }
  if leaves then do
    let slots ← slotDisconnect s.slots slot
    return { s with slots := slots, disconnected := s.disconnected ++ [slot] }
  else return s

/-- The `list_for_each` of `__signal_emit`. -/
def signalEmitLoop (callback : Callback κ σ α) (args : Fin signalArgmax → α) :
    Nat → Option κ → Emission κ σ → Res (Emission κ σ)
  | 0, _, _ => .fault
  | _ + 1, none, s => .ok s
  | fuel + 1, some slot, s => do
    let s ← callSlot callback args s slot
    let next ← Res.deref s.slots.next (some slot)
    signalEmitLoop callback args fuel next s

/-- `__signal_emit`, with at most `fuel` rounds. -/
def signalEmit (callback : Callback κ σ α) (args : Fin signalArgmax → α) (fuel : Nat) (s : Emission κ σ) :
    Res (Emission κ σ × Int) := do
  let p ← Res.deref s.slots.next none
  let s ← signalEmitLoop callback args fuel p s
  return (s, 0)

/-! ## Connecting -/

section
variable {m : Links (Option κ)} {xs : List κ} {live : Option κ → Prop}

theorem signalInit_holds (h : ¬live none) (halone : ∀ a, live a → m.Alone a) :
    (signalInit m).Holds none [] live := by
  have hne : ∀ a, live a → a ≠ none := fun a ha heq => h (heq ▸ ha)
  refine ⟨⟨by simp, ?_⟩, by simp, fun a ha _ => ?_, h⟩
  · exact List.isChain_cons_cons.2 ⟨by simp [Links.Edge, signalInit, initListHead, Links.single],
      .singleton none⟩
  · simpa [signalInit, initListHead, Links.single, Links.Alone, hne a ha] using halone a ha

/-- A slot that is in no list is the last one then. -/
theorem signalConnect_ok {slot : κ} (hm : m.Holds none (xs.map some) live) (hlive : live (some slot))
    (hslot : slot ∉ xs) :
    ∃ m', signalConnect m slot = .ok m' ∧ m'.Holds none ((xs ++ [slot]).map some) live := by
  have hmem : some slot ∉ xs.map some ++ [] := by simpa using hslot
  have hlist : m.Holds none (xs.map some ++ []) live := by simpa using hm
  obtain ⟨m', hadd, hm'⟩ := listAddTail_ok hlist hlive hmem
  exact ⟨m', hadd, by simpa using hm'⟩

end

/-! ## Emitting -/

section
variable {callback : Callback κ σ α} {args : Fin signalArgmax → α} {s s' : Emission κ σ} {slot : κ}
  {front xs : List κ}

/-- No callback disconnects its slot when its turn comes, each called in the world the one before it left. -/
def AllStay (callback : Callback κ σ α) (args : Fin signalArgmax → α) : List κ → σ → Prop
  | [], _ => True
  | slot :: slots, world =>
    (callback slot args world).1 = false ∧ AllStay callback args slots (callback slot args world).2

theorem callSlot_stay (h : (callback slot args s.world).1 = false) : callSlot callback args s slot =
    .ok { s with world := (callback slot args s.world).2, called := s.called ++ [slot] } := by
  simp [callSlot, h]

/-- A slot that disconnects itself is alone then. -/
theorem callSlot_leave (h : (callback slot args s.world).1 = true)
    (hs : callSlot callback args s slot = .ok s') :
    s'.slots.Alone (some slot) := by
  simp only [callSlot, h, if_true] at hs
  obtain ⟨m, hm, hs⟩ := Res.bind_eq_ok.1 hs
  cases hs
  simp only [slotDisconnect, listDelInit] at hm
  obtain ⟨q, -, hm⟩ := Res.bind_eq_ok.1 hm
  obtain ⟨p, -, hm⟩ := Res.bind_eq_ok.1 hm
  obtain ⟨m', -, hm⟩ := Res.bind_eq_ok.1 hm
  cases hm
  simp [initListHead, Links.single, Links.Alone]

/-- From a slot that is alone the loop never gets away. -/
theorem signalEmitLoop_alone (fuel : Nat) (h : s.slots.Alone (some slot)) :
    signalEmitLoop callback args fuel (some slot) s ≠ .ok s' := by
  induction fuel generalizing s with
  | zero => simp [signalEmitLoop]
  | succ fuel ih =>
    intro hs
    rw [signalEmitLoop] at hs
    obtain ⟨s₁, hcall, hs⟩ := Res.bind_eq_ok.1 hs
    obtain ⟨next, hnext, hs⟩ := Res.bind_eq_ok.1 hs
    have halone : s₁.slots.Alone (some slot) := by
      cases hleave : (callback slot args s.world).1 with
      | true => exact callSlot_leave hleave hcall
      | false =>
        rw [callSlot_stay hleave] at hcall
        cases hcall
        exact h
    rw [Res.deref_eq_ok, halone.1] at hnext
    cases hnext
    exact ih halone hs

/-- When all stay, each slot is called and the list is as it was. -/
theorem signalEmitLoop_stay {fuel : Nat} (hr : s.slots.IsRing none ((front ++ xs).map some))
    (hfuel : xs.length < fuel) (hstay : AllStay callback args xs s.world) :
    ∃ world, signalEmitLoop callback args fuel ((xs.map some).headD none) s =
      .ok { s with world := world, called := s.called ++ xs } := by
  induction xs generalizing front fuel s with
  | nil =>
    obtain ⟨fuel, rfl⟩ := Nat.exists_eq_succ_of_ne_zero (Nat.ne_of_gt hfuel)
    exact ⟨s.world, by simp [signalEmitLoop]⟩
  | cons slot xs ih =>
    obtain ⟨fuel, rfl⟩ := Nat.exists_eq_succ_of_ne_zero (Nat.ne_of_gt (Nat.zero_lt_of_lt hfuel))
    have hnext : s.slots.next (some slot) = some ((xs.map some).headD none) := by
      rw [List.map_append, List.map_cons] at hr
      exact hr.next_eq
    have hrest : s.slots.IsRing none (((front ++ [slot]) ++ xs).map some) := by simpa using hr
    obtain ⟨world, hloop⟩ := @ih
      { s with world := (callback slot args s.world).2, called := s.called ++ [slot] } (front ++ [slot]) fuel
      hrest (Nat.lt_of_succ_lt_succ hfuel) hstay.2
    refine ⟨world, ?_⟩
    rw [List.map_cons, List.headD_cons, signalEmitLoop, callSlot_stay hstay.1, Res.ok_bind,
      Res.deref_of_some hnext, Res.ok_bind, hloop]
    simp

/-- When one does not stay, the loop never returns. -/
theorem signalEmitLoop_leave (hr : s.slots.IsRing none ((front ++ xs).map some))
    (hleave : ¬AllStay callback args xs s.world) (fuel : Nat) :
    signalEmitLoop callback args fuel ((xs.map some).headD none) s ≠ .ok s' := by
  induction xs generalizing front fuel s with
  | nil => exact (hleave trivial).elim
  | cons slot xs ih =>
    cases fuel with
    | zero => simp [signalEmitLoop]
    | succ fuel =>
      intro hs
      rw [List.map_cons, List.headD_cons, signalEmitLoop] at hs
      obtain ⟨s₁, hcall, hs⟩ := Res.bind_eq_ok.1 hs
      obtain ⟨next, hnext, hs⟩ := Res.bind_eq_ok.1 hs
      rw [Res.deref_eq_ok] at hnext
      cases hfirst : (callback slot args s.world).1 with
      | true =>
        have halone := callSlot_leave hfirst hcall
        rw [halone.1] at hnext
        cases hnext
        exact signalEmitLoop_alone fuel halone hs
      | false =>
        rw [callSlot_stay hfirst] at hcall
        cases hcall
        rw [List.map_append, List.map_cons] at hr
        rw [hr.next_eq] at hnext
        cases hnext
        have hrest : s.slots.IsRing none (((front ++ [slot]) ++ xs).map some) := by simpa using hr
        exact @ih { s with world := (callback slot args s.world).2, called := s.called ++ [slot] }
          (front ++ [slot]) hrest (fun hstay => hleave ⟨hfirst, hstay⟩) fuel hs

/-- An emission over the slots `xs` returns, with each called once and in order, and the list as it was
but for the slots that have gone, if and only if no callback disconnects its slot. -/
theorem signalEmit_iff (hr : s.slots.IsRing none (xs.map some)) (hcalled : s.called = [])
    (hdisconnected : s.disconnected = []) :
    (∃ fuel s', signalEmit callback args fuel s = .ok (s', 0) ∧ s'.called = xs ∧
      s'.slots.IsRing none ((xs.filter (· ∉ s'.disconnected)).map some)) ↔
        AllStay callback args xs s.world := by
  have hnext := hr.next_head
  have hring : s.slots.IsRing none (([] ++ xs).map some) := hr
  refine ⟨?_, ?_⟩
  · rintro ⟨fuel, s', hs, -⟩
    rw [signalEmit, Res.deref_of_some hnext, Res.ok_bind] at hs
    obtain ⟨s₁, hloop, -⟩ := Res.bind_eq_ok.1 hs
    by_contra hleave
    exact signalEmitLoop_leave hring hleave fuel hloop
  · intro hstay
    obtain ⟨world, hloop⟩ := signalEmitLoop_stay hring (Nat.lt_succ_self xs.length) hstay
    refine ⟨xs.length + 1, { s with world := world, called := s.called ++ xs }, ?_, by rw [hcalled]; rfl, ?_⟩
    · rw [signalEmit, Res.deref_of_some hnext, Res.ok_bind, hloop]
      rfl
    · simpa [hdisconnected] using hr

end

/-- Slots 1 and 2, connected in this order. -/
def twoSlots : Links (Option Nat) where
  next
    | none => some (some 1)
    | some 1 => some (some 2)
    | some 2 => some none
    | _ => none
  prev
    | none => some (some 2)
    | some 2 => some (some 1)
    | some 1 => some none
    | _ => none

theorem twoSlots_ring : twoSlots.IsRing none ([1, 2].map some) := by
  refine ⟨by decide, ?_⟩
  simp [Links.Path, Links.Edge, twoSlots]

/-- The first of two slots disconnects itself, and the emission does not return. -/
theorem signalEmit_stuck : ¬∃ fuel s', signalEmit (fun slot _ w => (slot == 1, w)) (fun _ => 0) fuel
    (⟨twoSlots, (), [], []⟩ : Emission Nat Unit) = .ok s' := by
  intro ⟨fuel, s', hs⟩
  obtain ⟨p, hp, hs⟩ := Res.bind_eq_ok.1 hs
  obtain ⟨s₁, hloop, -⟩ := Res.bind_eq_ok.1 hs
  obtain rfl : some 1 = p := Option.some_inj.1 (Res.deref_eq_ok.1 hp)
  have hring : twoSlots.IsRing none (([] ++ [1, 2]).map some) := twoSlots_ring
  have hleave : ¬AllStay (fun slot _ w => (slot == 1, w)) (fun _ => 0) [1, 2] () := by simp [AllStay]
  exact signalEmitLoop_leave hring hleave fuel hloop

/-- Two slots are connected to a signal, and their callbacks count in the world and stay. -/
theorem signalEmit_two : ∃ m₁ m₂ : Links (Option Nat),
    signalConnect (signalInit ⟨some, some⟩) 1 = .ok m₁ ∧ signalConnect m₁ 2 = .ok m₂ ∧
    ((∃ fuel s', signalEmit (fun _ _ w => (false, w + 1)) (fun _ => 0) fuel
        (⟨m₂, 0, [], []⟩ : Emission Nat Nat) = .ok (s', 0) ∧ s'.called = [1, 2] ∧
      s'.slots.IsRing none (([1, 2].filter (· ∉ s'.disconnected)).map some)) ↔
      AllStay (fun _ _ w => (false, w + 1)) (fun _ => 0) [1, 2] 0) := by
  have hinit : (signalInit ⟨some, some⟩ : Links (Option Nat)).Holds none [] (· ≠ none) :=
    signalInit_holds (fun h => h rfl) fun _ _ => ⟨rfl, rfl⟩
  obtain ⟨m₁, hm₁, h₁⟩ := @signalConnect_ok _ _ _ [] _ _ hinit (Option.some_ne_none 1) List.not_mem_nil
  obtain ⟨m₂, hm₂, h₂⟩ := signalConnect_ok h₁ (Option.some_ne_none 2) (by decide)
  exact ⟨m₁, m₂, hm₁, hm₂, signalEmit_iff (s := ⟨m₂, 0, [], []⟩) h₂.ring rfl rfl⟩

end Utils
