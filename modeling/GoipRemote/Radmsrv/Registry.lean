import GoipRemote.Lib.Tolerant
import GoipRemote.Radmsrv.Radm

/-!
# The client list

`Clients s l`: the clients of `s` are the list `l`, which is sorted by the ids and has no two of one
id and type. The walks of `radmsrv_find_client`, `radmsrv_new_client` and `radmsrv_del` against it:
`findClient_cases`, `radmsrvLink_ok` and `radmsrvDel_cases`.

What else a client holds does not depend on the links, so it is read off `Server.objects`.
-/

namespace Radmsrv

open Utils Relay Function LinkedList CString

/-- A client without its link. -/
def Radmcli.view (c : Radmcli) : Radmcli := { c with next := 0 }

/-- The clients without their links. -/
def Server.objects (s : Server) (p : Ptr) : Option Radmcli := (s.clis p).map Radmcli.view

/-- The ids do not decrease. -/
def SortedIds (objects : Ptr → Option Radmcli) (l : List Ptr) : Prop :=
  l.Pairwise fun p q => ∀ c d, objects p = some c → objects q = some d → strcmp c.id d.id ≤ 0

/-- No two clients have the same id and type. -/
def UniqueKeys (objects : Ptr → Option Radmcli) : Prop :=
  ∀ p q c d, objects p = some c → objects q = some d → c.id = d.id → c.isRadmin = d.isRadmin → p = q

/-- The clients of `s` (module doc). -/
structure Clients (s : Server) (l : List Ptr) : Prop where
  list : IsList s.next s.clients l
  mem : ∀ p, p ∈ l ↔ (s.objects p).isSome = true
  length_le : l.length ≤ s.created
  sorted : SortedIds s.objects l
  unique : UniqueKeys s.objects

section
variable {s : Server} {l : List Ptr} {p x : Ptr} {c : Radmcli}

theorem view_eq {c d : Radmcli} : c.view = d.view ↔ c.id = d.id ∧ c.lSock = d.lSock ∧
    c.rSock = d.rSock ∧ c.isRadmin = d.isRadmin ∧ c.rc4Dec = d.rc4Dec ∧ c.deltimer = d.deltimer := by
  simp [Radmcli.view]

theorem objects_some (h : s.objects p = some c) : ∃ c', s.clis p = some c' ∧ c'.view = c :=
  Option.map_eq_some_iff.1 h

theorem clis_some (h : s.clis p = some c) : s.objects p = some c.view := by
  rw [Server.objects, h]
  rfl

theorem objects_none : s.objects p = none ↔ s.clis p = none := Option.map_eq_none_iff

@[simp] theorem objects_setCli (s : Server) (x : Ptr) (c : Radmcli) :
    (s.setCli x c).objects = update s.objects x (some c.view) := by
  funext p
  by_cases h : p = x <;> simp [Server.objects, Server.setCli, h]

/-- A client's link changes. -/
theorem objects_setNext {n : Ptr} (h : s.clis p = some c) :
    (s.setCli p { c with next := n }).objects = s.objects := by
  rw [objects_setCli, update_eq_self_iff]
  exact (clis_some h).symm

@[simp] theorem next_setCli (s : Server) (x : Ptr) (c : Radmcli) :
    (s.setCli x c).next = update s.next x c.next := by
  funext p
  by_cases h : p = x <;> simp [Server.next, Server.setCli, h]

theorem Clients.clis (h : Clients s l) (hp : p ∈ l) : ∃ c, s.clis p = some c := by
  obtain ⟨c, hc⟩ := Option.isSome_iff_exists.1 ((h.mem p).1 hp)
  obtain ⟨c', hc', -⟩ := objects_some hc
  exact ⟨c', hc'⟩

theorem Clients.ne_zero (h : Clients s l) (hp : s.objects p = some c) : p ≠ 0 :=
  h.list.ne_zero p ((h.mem p).2 (by rw [hp]; rfl))

theorem Clients.clis_zero (h : Clients s l) : s.clis 0 = none := by
  by_contra hne
  obtain ⟨c, hc⟩ := Option.ne_none_iff_exists'.1 hne
  exact h.ne_zero (clis_some hc) rfl

/-- Only the ids of a list's clients matter for its order. -/
theorem SortedIds.congr {objects objects' : Ptr → Option Radmcli} (h : SortedIds objects l)
    (hid : ∀ p ∈ l, (objects' p).map Radmcli.id = (objects p).map Radmcli.id) :
    SortedIds objects' l := by
  have hof : ∀ p ∈ l, ∀ c', objects' p = some c' → ∃ c, objects p = some c ∧ c'.id = c.id := by
    intro p hp c' hc'
    have h := hid p hp
    rw [hc'] at h
    obtain ⟨c, hc, hcid⟩ := Option.map_eq_some_iff.1 h.symm
    exact ⟨c, hc, hcid.symm⟩
  refine List.Pairwise.imp_of_mem (fun {p q} hp hq hpq c' d' hc' hd' => ?_) h
  obtain ⟨c, hc, hcid⟩ := hof p hp c' hc'
  obtain ⟨d, hd, hdid⟩ := hof q hq d' hd'
  rw [hcid, hdid]
  exact hpq c d hc hd

/-- Something of a client changes but its id and its place. -/
theorem Clients.set (h : Clients s l) {c' : Radmcli} (hc : s.clis x = some c)
    (hnext : c'.next = c.next) (hid : c'.id = c.id)
    (hkey : ∀ p d, s.objects p = some d → d.id = c.id → d.isRadmin = c'.isRadmin → p = x) :
    Clients (s.setCli x c') l := by
  have hx := clis_some hc
  have hsome : ∀ p, ((s.setCli x c').objects p).isSome = (s.objects p).isSome := by
    intro p
    rw [objects_setCli]
    by_cases hp : p = x
    · rw [hp, update_self, hx]
      rfl
    · rw [update_of_ne hp]
  refine ⟨?_, fun p => ?_, h.length_le, h.sorted.congr fun p _ => ?_, fun p q d e hd he hide hr => ?_⟩
  · refine h.list.congr fun p _ => ?_
    rw [next_setCli]
    by_cases hp : p = x
    · rw [hp, update_self, hnext, Server.next, hc]
      rfl
    · rw [update_of_ne hp]
  · rw [hsome, h.mem]
  · rw [objects_setCli]
    by_cases hp : p = x
    · rw [hp, update_self, hx]
      exact congrArg some hid
    · rw [update_of_ne hp]
  · rw [objects_setCli] at hd he
    by_cases hp : p = x <;> by_cases hq : q = x
    · rw [hp, hq]
    · rw [hp, update_self] at hd
      rw [update_of_ne hq] at he
      cases hd
      exact hp.trans (hkey q e he (hide.symm.trans hid) hr.symm).symm
    · rw [hq, update_self] at he
      rw [update_of_ne hp] at hd
      cases he
      exact (hkey p d hd (hide.trans hid) hr).trans hq.symm
    · rw [update_of_ne hp] at hd
      rw [update_of_ne hq] at he
      exact h.unique p q d e hd he hide hr

/-! ## Finding a client -/

/-- The client at `p` has the id and the type. -/
def Server.hasKey (s : Server) (id : CString) (isRadmin : Int) (p : Ptr) : Bool :=
  (s.objects p).any fun c => c.id = id ∧ c.isRadmin = isRadmin

theorem hasKey_iff {id : CString} {isRadmin : Int} : s.hasKey id isRadmin p = true ↔
    ∃ c, s.objects p = some c ∧ c.id = id ∧ c.isRadmin = isRadmin := by
  simp [Server.hasKey, Option.any_eq_true]

theorem isClient_eq (h : Clients s l) (id : CString) (isRadmin : Int) (hp : p ∈ l) :
    s.isClient id isRadmin p = .ok (s.hasKey id isRadmin p) := by
  obtain ⟨c, hc⟩ := h.clis hp
  simp only [Server.isClient, Res.deref_of_some hc, Res.ok_bind, Res.pure_eq, Server.hasKey,
    clis_some hc, strcmp_eq_zero, Option.any_some]
  rfl

/-- The walk of `radmsrv_find_client`. -/
theorem findClient_cases (h : Clients s l) (id : CString) (isRadmin : Int) :
    (∃ cli c, walk s.next (s.isClient id isRadmin) (s.created + 1) s.clients = .ok cli ∧
      s.clis cli = some c ∧ c.id = id ∧ c.isRadmin = isRadmin) ∨
    walk s.next (s.isClient id isRadmin) (s.created + 1) s.clients = .ok 0 ∧
      ∀ p c, s.objects p = some c → c.id = id → c.isRadmin ≠ isRadmin := by
  rcases walk_cases h.list (Nat.lt_succ_of_le h.length_le) fun p hp => isClient_eq h id isRadmin hp
    with ⟨cli, hcli, hkey, hwalk⟩ | ⟨hnone, hwalk⟩
  · obtain ⟨c, hc, hid, hr⟩ := hasKey_iff.1 hkey
    obtain ⟨c', hc', rfl⟩ := objects_some hc
    exact .inl ⟨cli, c', hwalk, hc', hid, hr⟩
  · refine .inr ⟨hwalk, fun p c hc hid hr => ?_⟩
    have hfalse := hnone p ((h.mem p).2 (by rw [hc]; rfl))
    rw [hasKey_iff.2 ⟨c, hc, hid, hr⟩] at hfalse
    cases hfalse

/-! ## A new client -/

/-- The client at `p` has a greater id. -/
def Server.idGreater (s : Server) (id : CString) (p : Ptr) : Bool :=
  (s.objects p).any fun c => strcmp c.id id > 0

theorem greater_eq (h : Clients s l) (id : CString) (hp : p ∈ l) :
    s.greater id p = .ok (s.idGreater id p) := by
  obtain ⟨c, hc⟩ := h.clis hp
  simp only [Server.greater, Res.deref_of_some hc, Res.ok_bind, Res.pure_eq, Server.idGreater,
    clis_some hc, Option.any_some]
  rfl

/-- A new client between those that are not greater and those that are. -/
theorem Clients.insert {s' : Server} {pre suf : List Ptr} (h : Clients s (pre ++ suf))
    (hnone : s.objects x = none) (hlist : IsList s'.next s'.clients (pre ++ x :: suf))
    (hobjects : s'.objects = update s.objects x (some c)) (hcreated : s'.created = s.created + 1)
    (hpre : ∀ p ∈ pre, s.idGreater c.id p = false) (hsuf : ∀ p ∈ suf.head?, s.idGreater c.id p = true)
    (hnew : ∀ p d, s.objects p = some d → d.id = c.id → d.isRadmin ≠ c.isRadmin) :
    Clients s' (pre ++ x :: suf) := by
  have hne : ∀ p ∈ pre ++ suf, p ≠ x := by
    rintro p hp rfl
    rw [h.mem, hnone] at hp
    cases hp
  have hold : ∀ p ∈ pre ++ suf, s'.objects p = s.objects p := fun p hp => by
    rw [hobjects, update_of_ne (hne p hp)]
  have hxnew : s'.objects x = some c := by rw [hobjects, update_self]
  have hlt : ∀ p ∈ suf.head?, ∀ d, s.objects p = some d → strcmp c.id d.id ≤ 0 := by
    intro p hp d hd
    have hgt := hsuf p hp
    rw [Server.idGreater, hd, Option.any_some, decide_eq_true_eq] at hgt
    have := strcmp_neg d.id c.id
    omega
  refine ⟨hlist, fun p => ?_, ?_, ?_, fun p q d e hd he hid hr => ?_⟩
  · have hmem : p ∈ pre ++ x :: suf ↔ p = x ∨ p ∈ pre ++ suf := by
      simp only [List.mem_append, List.mem_cons]
      tauto
    rw [hmem, h.mem, hobjects]
    by_cases hp : p = x <;> simp [hp]
  · have hlen := h.length_le
    rw [List.length_append] at hlen
    rw [hcreated, List.length_append, List.length_cons]
    omega
  · refine Tolerant.pairwise_insert (h.sorted.congr fun p hp => by rw [hold p hp]) ?_ ?_ ?_
    · intro p hp d e hd he
      rw [hold p (List.mem_append_left _ hp)] at hd
      rw [hxnew] at he
      cases he
      have hle := hpre p hp
      rw [Server.idGreater, hd, Option.any_some, decide_eq_false_iff_not] at hle
      omega
    · intro p hp d e hd he
      rw [hold p (List.mem_append_right _ (List.mem_of_mem_head? hp))] at he
      rw [hxnew] at hd
      cases hd
      exact hlt p hp e he
    · intro p hp q hq hpq d e hd he
      have hpl := List.mem_append_right pre (List.mem_of_mem_head? hp)
      obtain ⟨d', hd'⟩ := Option.isSome_iff_exists.1 ((h.mem p).1 hpl)
      rw [hxnew] at hd
      cases hd
      exact strcmp_trans (hlt p hp d' hd') (hpq d' e (by rw [hold p hpl, hd']) he)
  · rw [hobjects] at hd he
    by_cases hp : p = x <;> by_cases hq : q = x
    · rw [hp, hq]
    · rw [hp, update_self] at hd
      rw [update_of_ne hq] at he
      cases hd
      exact absurd hr.symm (hnew q e he hid.symm)
    · rw [hq, update_self] at he
      rw [update_of_ne hp] at hd
      cases he
      exact absurd hr (hnew p d hd hid)
    · rw [update_of_ne hp] at hd
      rw [update_of_ne hq] at he
      exact h.unique p q d e hd he hid hr

/-- **Linking a new client in.** -/
theorem radmsrvLink_ok (h : Clients s l) (hx : x ≠ 0) (hnone : s.clis x = none)
    (hnew : ∀ p d, s.objects p = some d → d.id = c.id → d.isRadmin ≠ c.isRadmin) :
    ∃ clis clients s' l', radmsrvLink s c.id x c = .ok s' ∧
      s' = { s with clis := clis, clients := clients, created := s.created + 1 } ∧ Clients s' l' ∧
      s'.objects = update s.objects x (some c.view) := by
  have hxl : x ∉ l := fun hm => by
    obtain ⟨c', hc'⟩ := h.clis hm
    rw [hnone] at hc'
    cases hc'
  have hobj := objects_none.2 hnone
  by_cases hfirst : s.clients = 0 ∨ s.idGreater c.id s.clients = true
  · -- it comes first
    have hhead : ∀ p ∈ l.head?, s.idGreater c.id p = true := by
      intro p hp
      have hp' : p = s.clients := by
        rw [h.list.head_eq]
        cases l <;> simp_all
      rw [hp']
      refine hfirst.resolve_left fun hc => ?_
      rw [h.list.eq_zero_iff.1 hc] at hp
      cases hp
    have hrun : radmsrvLink s c.id x c = .ok
        { s.setCli x { c with next := s.clients } with clients := x, created := s.created + 1 } := by
      unfold radmsrvLink
      by_cases hzero : s.clients = 0
      · simp only [if_pos hzero, Res.ok_bind, if_true, Res.pure_eq]
      · have hmem : s.clients ∈ l := by
          cases l with
          | nil => exact absurd h.list hzero
          | cons y l => exact h.list.1 ▸ List.mem_cons_self
        rw [if_neg hzero, greater_eq h _ hmem, hfirst.resolve_left hzero]
        simp only [Res.ok_bind, if_true, Res.pure_eq]
    refine ⟨_, _, _, [] ++ x :: l, hrun, rfl, ?_, objects_setCli ..⟩
    have hnil : Clients s ([] ++ l) := h
    refine hnil.insert (c := c.view) hobj ?_ (objects_setCli ..) rfl (fun p hp => by cases hp) hhead hnew
    show IsList (s.setCli x { c with next := s.clients }).next x ([] ++ x :: l)
    rw [next_setCli]
    exact h.list.push hx hxl
  · -- it comes after one that is not greater
    obtain ⟨hzero, hle⟩ := not_or.1 hfirst
    obtain ⟨y, l', rfl⟩ : ∃ y l', l = y :: l' := by
      cases l with
      | nil => exact absurd h.list hzero
      | cons y l' => exact ⟨y, l', rfl⟩
    have hy : s.clients = y := h.list.1
    have hle' : s.idGreater c.id y = false := by
      rw [← hy]
      simpa using hle
    have hlen : l'.length < s.created + 1 := by
      have := h.length_le
      rw [List.length_cons] at this
      omega
    obtain ⟨pre, a, suf, hsplit, hadv, hpre, hsuf⟩ := advanceTo_cases h.list hlen
      fun z hz => greater_eq h c.id (List.mem_cons_of_mem _ hz)
    rw [hsplit] at h hxl
    obtain ⟨t, ht⟩ := h.clis (p := a) (by simp)
    have hax : a ≠ x := by
      rintro rfl
      exact hxl (by simp)
    have hrun : radmsrvLink s c.id x c = .ok
        { (s.setCli x { c with next := t.next }).setCli a { t with next := x } with
          created := s.created + 1 } := by
      unfold radmsrvLink
      rw [if_neg hzero, greater_eq (p := s.clients) h _ (hsplit ▸ hy ▸ List.mem_cons_self), hy, hle']
      rw [← hy]
      simp only [Res.ok_bind, Bool.false_eq_true, if_false, hadv, Res.deref_of_some ht, Res.pure_eq]
    have ht' : (s.setCli x { c with next := t.next }).clis a = some t := by
      show update s.clis x _ a = some t
      rw [update_of_ne hax, ht]
    have hobjects : ((s.setCli x { c with next := t.next }).setCli a { t with next := x }).objects =
        update s.objects x (some c.view) := by
      rw [objects_setNext ht', objects_setCli]
      rfl
    refine ⟨_, _, _, pre ++ a :: x :: suf, hrun, rfl, ?_, hobjects⟩
    have hcons : pre ++ a :: x :: suf = (pre ++ [a]) ++ x :: suf := by simp
    rw [hcons]
    have h' : Clients s ((pre ++ [a]) ++ suf) := by simpa using h
    refine h'.insert (c := c.view) hobj ?_ hobjects rfl (fun p hp => ?_) hsuf hnew
    · show IsList ((s.setCli x { c with next := t.next }).setCli a { t with next := x }).next s.clients _
      rw [next_setCli, next_setCli, ← hcons]
      have hnext : s.next a = t.next := by rw [Server.next, ht]; rfl
      rw [← hnext]
      exact h.list.insertAfter hx hxl
    · cases pre with
      | nil =>
        obtain rfl : p = a := by simpa using hp
        obtain rfl : y = p := by simpa using congrArg List.head? hsplit
        exact hle'
      | cons w pre =>
        obtain rfl : y = w := by simpa using congrArg List.head? hsplit
        rcases List.mem_cons.1 hp with rfl | hp
        · exact hle'
        · exact hpre p hp

/-! ## A client goes -/

/-- A client is not in the list any more. -/
theorem Clients.erase {s' : Server} (h : Clients s l) (hlist : IsList s'.next s'.clients (l.erase x))
    (hobjects : s'.objects = update s.objects x none) (hcreated : s'.created = s.created) :
    Clients s' (l.erase x) := by
  have hnd := h.list.nodup
  have hof : ∀ p c, s'.objects p = some c → p ≠ x ∧ s.objects p = some c := by
    intro p c hc
    have hp : p ≠ x := by
      rintro rfl
      rw [hobjects, update_self] at hc
      cases hc
    rw [hobjects, update_of_ne hp] at hc
    exact ⟨hp, hc⟩
  refine ⟨hlist, fun p => ?_, ?_, ?_, fun p q d e hd he => ?_⟩
  · rw [hnd.mem_erase_iff, h.mem, hobjects]
    by_cases hp : p = x <;> simp [hp]
  · rw [hcreated]
    exact (List.length_erase_le).trans h.length_le
  · refine SortedIds.congr (h.sorted.sublist List.erase_sublist) fun p hp => ?_
    rw [hobjects, update_of_ne (hnd.mem_erase_iff.1 hp).1]
  · exact h.unique p q d e (hof p d hd).2 (hof q e he).2

/-- **Unlinking in `radmsrv_del`**: the client of the id and the type is released, if there is one. -/
theorem radmsrvDel_cases (h : Clients s l) (hzero : s.clients ≠ 0) (id : CString) (isRadmin : Int) :
    (∃ x c clis clients s', s.clis x = some c ∧ c.id = id ∧ c.isRadmin = isRadmin ∧
      radmsrvDel s id isRadmin = (radmcliRelease s' x >>= fun s => .ok (s, 0)) ∧
      s' = { s with clis := clis, clients := clients } ∧ IsList s'.next s'.clients (l.erase x) ∧
      s'.objects = s.objects) ∨
    radmsrvDel s id isRadmin = .ok (s, -1) ∧
      ∀ p c, s.objects p = some c → c.id = id → c.isRadmin ≠ isRadmin := by
  obtain ⟨y, l', rfl⟩ : ∃ y l', l = y :: l' := by
    cases l with
    | nil => exact absurd h.list hzero
    | cons y l' => exact ⟨y, l', rfl⟩
  have hy : s.clients = y := h.list.1
  obtain ⟨c₀, hc₀⟩ := h.clis (p := y) List.mem_cons_self
  by_cases hfirst : s.hasKey id isRadmin y = true
  · obtain ⟨c, hc, hid, hr⟩ := hasKey_iff.1 hfirst
    obtain ⟨c', hc', rfl⟩ := objects_some hc
    rw [hc₀] at hc'
    cases hc'
    refine .inl ⟨y, c₀, s.clis, c₀.next, _, hc₀, hid, hr, ?_, rfl, ?_, rfl⟩
    · simp only [radmsrvDel, hy, isClient_eq h id isRadmin List.mem_cons_self, hfirst, Res.ok_bind,
        Res.deref_of_some hc₀, if_true, Res.pure_eq]
    · rw [List.erase_cons_head]
      have hnext : s.next y = c₀.next := by rw [Server.next, hc₀]; rfl
      exact hnext ▸ h.list.2.2
  · have hgo : s.hasKey id isRadmin y = false := by simpa using hfirst
    have hlen : l'.length < s.created + 1 := by
      have := h.length_le
      rw [List.length_cons] at this
      omega
    obtain ⟨pre, a, suf, hsplit, hadv, hpre, hsuf⟩ := advanceTo_cases h.list hlen
      fun z hz => isClient_eq h id isRadmin (List.mem_cons_of_mem _ hz)
    have hpre' : ∀ z ∈ pre ++ [a], s.hasKey id isRadmin z = false := by
      intro z hz
      cases pre with
      | nil =>
        obtain rfl : z = a := by simpa using hz
        obtain rfl : y = z := by simpa using congrArg List.head? hsplit
        exact hgo
      | cons w pre =>
        obtain rfl : y = w := by simpa using congrArg List.head? hsplit
        rcases List.mem_cons.1 hz with rfl | hz
        · exact hgo
        · exact hpre z hz
    have hmem : a ∈ y :: l' := by
      rw [hsplit]
      simp
    obtain ⟨c, hc⟩ := h.clis hmem
    have hrun : radmsrvDel s id isRadmin = if c.next = 0 then .ok (s, -1) else
        (Res.deref s.clis c.next >>= fun tmp =>
          radmcliRelease (s.setCli a { c with next := tmp.next }) c.next >>= fun s => .ok (s, 0)) := by
      have hmem₀ : s.clients ∈ y :: l' := hy ▸ List.mem_cons_self
      have hgo₀ : s.hasKey id isRadmin s.clients = false := hy ▸ hgo
      have hc₀' : s.clis s.clients = some c₀ := hy ▸ hc₀
      unfold radmsrvDel
      simp only [isClient_eq h id isRadmin hmem₀, hgo₀, Res.ok_bind, Res.deref_of_some hc₀', hadv,
        Res.deref_of_some hc, Bool.false_eq_true, if_false, Res.pure_eq]
    have hnext : c.next = suf.headD 0 := by
      rw [hsplit] at h
      rw [← h.list.next_eq, Server.next, hc]
      rfl
    cases suf with
    | nil =>
      refine .inr ⟨hrun.trans (if_pos hnext), fun p d hd hid hr => ?_⟩
      have hp := (h.mem p).2 (by rw [hd]; rfl)
      rw [hsplit] at hp
      have hfalse := hpre' p hp
      rw [hasKey_iff.2 ⟨d, hd, hid, hr⟩] at hfalse
      cases hfalse
    | cons z suf =>
      have hz : c.next = z := hnext
      have hzl : z ∈ y :: l' := by
        rw [hsplit]
        simp
      obtain ⟨d, hd, hid, hr⟩ := hasKey_iff.1 (hsuf z (by simp))
      obtain ⟨t, ht, rfl⟩ := objects_some hd
      refine .inl ⟨z, t, _, s.clients, s.setCli a { c with next := t.next }, ht, hid, hr, ?_, rfl, ?_,
        objects_setNext hc⟩
      · rw [hrun, if_neg (hz ▸ h.list.ne_zero z hzl), hz, Res.deref_of_some ht, Res.ok_bind]
      · show IsList (s.setCli a { c with next := t.next }).next s.clients _
        have hnd := h.list.nodup
        rw [hsplit] at h hnd ⊢
        have herase : (pre ++ a :: z :: suf).erase z = pre ++ a :: suf := by
          have hnot : z ∉ pre ++ [a] := by
            rw [show pre ++ a :: z :: suf = (pre ++ [a]) ++ z :: suf by simp] at hnd
            exact fun hm => (List.nodup_append.1 hnd).2.2 z hm z List.mem_cons_self rfl
          rw [show pre ++ a :: z :: suf = (pre ++ [a]) ++ z :: suf by simp,
            List.erase_append_right _ hnot, List.erase_cons_head]
          simp
        rw [herase, next_setCli]
        have hnextz : s.next z = t.next := by rw [Server.next, ht]; rfl
        rw [← hnextz]
        exact h.list.removeAfter

end

end Radmsrv
