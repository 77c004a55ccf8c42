import GoipRemote.Lib.Runs
import GoipRemote.Utils.Fdevent

/-!
# What a source of descriptor events keeps (utils/fdsel.c)

`Table` is the table: entry `i` is the event with the id `i`, beside its descriptor and its poll mask, and an
event that is not in the table has the id -1. `Deadlines s xs` is the timeout list: a ring of the events `xs`,
all in the table, ordered by their deadlines in microseconds. `Inv` is both, with the loop's pending list.

Each call keeps `Inv` when it `Meets` three conditions (`fdeventStep_inv`), and a run of such calls keeps it
(`fdevent_represents`): an event in the table does not get another descriptor, an event on the timeout list is
not armed again, and the comparison by seconds first puts a new deadline where it belongs (`Lands`).
-/

open Function

namespace Utils

def Timeval.usecs (t : Timeval) : Int := t.tvSec * 1000000 + t.tvUsec

namespace FdeventSource

def Live (s : FdeventSource) : Option Ptr → Prop
  | none => False
  | some p => s.heap p ≠ none

def timeoutOf (s : FdeventSource) (p : Ptr) : Timeval := ((s.heap p).map (·.timeout)).getD ⟨0, 0⟩

def deadline (s : FdeventSource) (p : Ptr) : Int := (s.timeoutOf p).usecs

/-- The events of the list that a new deadline goes behind, and those it goes before. -/
def Lands (s : FdeventSource) (xs : List Ptr) (t : Timeval) : Prop :=
  (∀ c ∈ xs.takeWhile fun c => !t.before (s.timeoutOf c), s.deadline c ≤ t.usecs) ∧
    ∀ c ∈ xs.dropWhile fun c => !t.before (s.timeoutOf c), t.usecs ≤ s.deadline c

/-- An entry of `pollfds` is that of an event. -/
def Mirrors (s : FdeventSource) (i : Nat) (e : Fdevent) : Prop :=
  ∃ pfd, s.pollfds[i]? = some pfd ∧ pfd.fd = e.fd ∧ pfd.events = pollMask e.events

structure Table (s : FdeventSource) : Prop where
  count : 0 ≤ s.fdcount
  room : s.fdcount.toNat ≤ s.fdsize.toNat
  pollfds : s.pollfds.length = s.fdsize.toNat
  fdevents : s.fdevents.length = s.fdsize.toNat
  slot : ∀ i < s.fdcount.toNat, ∃ event e, s.fdevents[i]? = some event ∧ s.heap event = some e ∧
    e.id = i ∧ s.Mirrors i e
  known : ∀ event e, s.heap event = some e → e.id = -1 ∨
    0 ≤ e.id ∧ e.id.toNat < s.fdcount.toNat ∧ s.fdevents[e.id.toNat]? = some event

structure Lists (s : FdeventSource) (xs : List Ptr) : Prop where
  timeouts : s.timeouts.Holds none (xs.map some) s.Live
  ordered : xs.Pairwise fun a b => s.deadline a ≤ s.deadline b
  pending : ∃ zs, s.pending.Holds none zs s.Live
  source : ∀ event e, s.heap event = some e → e.source = s.self

structure Inv (s : FdeventSource) (xs : List Ptr) : Prop where
  table : s.Table
  lists : s.Lists xs
  armed : ∀ event ∈ xs, ∃ e, s.heap event = some e ∧ 0 ≤ e.id

section
variable {s : FdeventSource} {event p : Ptr} {e e' : Fdevent} {xs : List Ptr} {t now : Timeval}

theorem live_of (he : s.heap event = some e) : s.Live (some event) := by
  simp [Live, he]

/-! ## A store to an event -/

@[simp] theorem put_heap (q : Ptr) : (s.put event e).heap q = if q = event then some e else s.heap q := by
  by_cases hq : q = event
  · subst hq
    simp [put]
  · simp [put, hq]

@[simp] theorem put_fdcount : (s.put event e).fdcount = s.fdcount := rfl

@[simp] theorem put_fdsize : (s.put event e).fdsize = s.fdsize := rfl

@[simp] theorem put_pollfds : (s.put event e).pollfds = s.pollfds := rfl

@[simp] theorem put_fdevents : (s.put event e).fdevents = s.fdevents := rfl

@[simp] theorem put_timeouts : (s.put event e).timeouts = s.timeouts := rfl

@[simp] theorem put_pending : (s.put event e).pending = s.pending := rfl

@[simp] theorem put_self : (s.put event e).self = s.self := rfl

theorem live_put (he : s.heap event = some e) : (s.put event e').Live = s.Live := by
  funext a
  cases a with
  | none => rfl
  | some q =>
    by_cases hq : q = event
    · subst hq
      simp [Live, he]
    · simp [Live, hq]

theorem timeoutOf_put_of_ne (hne : p ≠ event) : (s.put event e').timeoutOf p = s.timeoutOf p := by
  simp [timeoutOf, hne]

/-- A store that leaves the id, and for an event in the table what its entry mirrors. -/
theorem Table.put (h : s.Table) (he : s.heap event = some e) (hid : e'.id = e.id)
    (hfd : 0 ≤ e.id → e'.fd = e.fd) (hevents : 0 ≤ e.id → pollMask e'.events = pollMask e.events) :
    (s.put event e').Table := by
  refine ⟨h.count, h.room, h.pollfds, h.fdevents, ?_, ?_⟩
  · intro i hi
    obtain ⟨q, d, hq, hd, hdid, pfd, hpfd, hpfd', hmask⟩ := h.slot i hi
    by_cases hqe : q = event
    · subst hqe
      obtain rfl : e = d := Option.some_inj.1 (he.symm.trans hd)
      refine ⟨q, e', hq, by simp, by rw [hid, hdid], pfd, hpfd, ?_, ?_⟩
      · rw [hfd (by omega), hpfd']
      · rw [hevents (by omega), hmask]
    · exact ⟨q, d, hq, by simp [hqe, hd], hdid, pfd, hpfd, hpfd', hmask⟩
  · intro q d hd
    by_cases hqe : q = event
    · subst hqe
      simp only [put_heap, if_true, Option.some.injEq] at hd
      subst hd
      rw [hid]
      exact h.known q e he
    · simp only [put_heap, hqe, if_false] at hd
      exact h.known q d hd

/-- A store that leaves the deadline of an event on the list. -/
theorem Lists.put (h : s.Lists xs) (he : s.heap event = some e) (hsource : e'.source = e.source)
    (htimeout : event ∈ xs → e'.timeout = e.timeout) : (s.put event e').Lists xs := by
  have htime : ∀ c ∈ xs, (s.put event e').deadline c = s.deadline c := by
    intro c hc
    by_cases hce : c = event
    · subst hce
      simp [deadline, timeoutOf, he, htimeout hc]
    · rw [deadline, timeoutOf_put_of_ne hce, deadline]
  refine ⟨?_, ?_, ?_, ?_⟩
  · rw [live_put he]
    exact h.timeouts
  · refine h.ordered.imp_of_mem fun {a b} ha hb hab => ?_
    rw [htime a ha, htime b hb]
    exact hab
  · rw [live_put he]
    exact h.pending
  · intro q d hd
    by_cases hqe : q = event
    · subst hqe
      simp only [put_heap, if_true, Option.some.injEq] at hd
      subst hd
      rw [hsource]
      exact h.source q e he
    · simp only [put_heap, hqe, if_false] at hd
      exact h.source q d hd

theorem armed_put {ys : List Ptr} (h : ∀ c ∈ ys, ∃ d, s.heap c = some d ∧ 0 ≤ d.id)
    (hid : event ∈ ys → 0 ≤ e'.id) : ∀ c ∈ ys, ∃ d, (s.put event e').heap c = some d ∧ 0 ≤ d.id := by
  intro c hc
  by_cases hce : c = event
  · subst hce
    exact ⟨e', by simp, hid hc⟩
  · obtain ⟨d, hd, hdid⟩ := h c hc
    exact ⟨d, by simp [hce, hd], hdid⟩

/-- A store that changes neither the id nor what the table mirrors. -/
theorem Inv.put (h : s.Inv xs) (he : s.heap event = some e) (hid : e'.id = e.id)
    (hfd : 0 ≤ e.id → e'.fd = e.fd) (hevents : 0 ≤ e.id → pollMask e'.events = pollMask e.events)
    (hsource : e'.source = e.source) (htimeout : event ∈ xs → e'.timeout = e.timeout) :
    (s.put event e').Inv xs := by
  refine ⟨h.table.put he hid hfd hevents, h.lists.put he hsource htimeout, armed_put h.armed fun hmem => ?_⟩
  obtain ⟨d, hd, hdid⟩ := h.armed event hmem
  obtain rfl : e = d := Option.some_inj.1 (he.symm.trans hd)
  rw [hid]
  exact hdid

theorem Lists.retable (h : s.Lists xs) (pollfds : List Pollfd) (fdevents : List Ptr) (fdcount : Int) :
    Lists { s with pollfds := pollfds, fdevents := fdevents, fdcount := fdcount } xs :=
  ⟨h.timeouts, h.ordered, h.pending, h.source⟩

/-! ## The timeout list -/

theorem Table.relink (h : s.Table) (m : Links (Option Ptr)) : Table { s with timeouts := m } :=
  ⟨h.count, h.room, h.pollfds, h.fdevents, h.slot, h.known⟩

/-- An event that the table knows is at its id. -/
theorem Table.at_id (h : s.Table) (he : s.heap event = some e) (hid : 0 ≤ e.id) :
    e.id.toNat < s.fdcount.toNat ∧ s.fdevents[e.id.toNat]? = some event := by
  rcases h.known event e he with hout | ⟨-, hlt, hat⟩
  · omega
  · exact ⟨hlt, hat⟩

/-- There are no more events on the list than in the table. -/
theorem Inv.length_le (h : s.Inv xs) : xs.length ≤ s.fdsize.toNat := by
  have hnodup : xs.Nodup := List.Nodup.of_map some (List.nodup_cons.1 h.lists.timeouts.ring.nodup).2
  have hsub : xs ⊆ s.fdevents := by
    intro c hc
    obtain ⟨d, hd, hid⟩ := h.armed c hc
    exact List.mem_of_getElem? (h.table.at_id hd hid).2
  have hle := (hnodup.subperm hsub).length_le
  rwa [h.table.fdevents] at hle

theorem beforeAt_eq {c : Ptr} (hc : s.heap c ≠ none) :
    s.beforeAt t (some c) = .ok (t.before (s.timeoutOf c)) := by
  obtain ⟨d, hd⟩ := Option.ne_none_iff_exists'.1 hc
  simp [beforeAt, timeoutOf, hd, Res.deref_of_some hd]

/-- An event of the table that is on no list is armed: its place is behind the deadlines that are not
after its own by the comparison. -/
theorem addToTimeoutList_ok (h : s.Inv xs) (he : s.heap event = some e) (hid : 0 ≤ e.id) (hout : event ∉ xs)
    (hlands : s.Lands xs (deadlineOf now e.timeoutval)) : ∃ s' ys, addToTimeoutList now event s = .ok s' ∧
      s'.Inv ys := by
  generalize ht : deadlineOf now e.timeoutval = t at hlands
  have h1 : (s.put event { e with timeout := t }).Inv xs :=
    h.put he rfl (fun _ => rfl) (fun _ => rfl) rfl fun hmem => absurd hmem hout
  generalize hs1 : s.put event { e with timeout := t } = s1 at h1
  have he1 : s1.heap event = some { e with timeout := t } := by simp [← hs1]
  have htime : ∀ c ∈ xs, s1.timeoutOf c = s.timeoutOf c := by
    intro c hc
    rw [← hs1]
    exact timeoutOf_put_of_ne (ne_of_mem_of_not_mem hc hout)
  obtain ⟨hbefore, hafter⟩ := hlands
  -- the walk over the list
  have hseek := @listSeek_eq _ _ s1.timeouts none [] (xs.map some) (s1.beforeAt t) (s1.fdsize.toNat + 1)
    h1.lists.timeouts.ring (fun a => (a.map fun c => t.before (s.timeoutOf c)).getD false) (by
      intro y hy
      obtain ⟨c, hc, rfl⟩ := List.mem_map.1 hy
      rw [beforeAt_eq (h1.lists.timeouts.mem _ hy), htime c hc]
      rfl)
  have hlen : ((xs.map some).takeWhile fun y => !(y.map fun c =>
    t.before (s.timeoutOf c)).getD false).length <
      s1.fdsize.toNat + 1 := by
    have hle := (List.takeWhile_sublist (l := xs.map some)
      fun y => !(y.map fun c => t.before (s.timeoutOf c)).getD false).length_le
    have := h1.length_le
    rw [List.length_map] at hle
    omega
  rw [if_pos hlen, List.dropWhile_map] at hseek
  generalize hfront : (xs.takeWhile fun c => !t.before (s.timeoutOf c)) = front at hbefore
  generalize hback : (xs.dropWhile fun c => !t.before (s.timeoutOf c)) = back at hafter
  have hxs : front ++ back = xs := by rw [← hfront, ← hback, List.takeWhile_append_dropWhile]
  have hholds : s1.timeouts.Holds none (front.map some ++ back.map some) s1.Live := by
    rw [← List.map_append, hxs]
    exact h1.lists.timeouts
  obtain ⟨m, hadd, hm⟩ := listAddTail_ok hholds (live_of he1) (by
    rw [← List.map_append, hxs]
    simpa using hout)
  have hdeadline : ∀ c ∈ front ++ back, s1.deadline c = s.deadline c := by
    intro c hc
    rw [hxs] at hc
    rw [deadline, htime c hc, deadline]
  have hevent : s1.deadline event = t.usecs := by simp [deadline, timeoutOf, he1]
  refine ⟨{ s1 with timeouts := m }, front ++ event :: back, ?_, h1.table.relink m,
    ⟨?_, ?_, h1.lists.pending, h1.lists.source⟩, ?_⟩
  · simp only [addToTimeoutList, Res.deref_of_some he, Res.ok_bind, ht, hs1,
      Res.deref_of_some h1.lists.timeouts.ring.next_head, hseek, Function.comp_def, Option.map_some,
      Option.getD_some, hback, hadd, Res.pure_eq]
  · rw [List.map_append, List.map_cons]
    exact hm
  · have hordered := h.lists.ordered
    rw [← hxs, List.pairwise_append] at hordered
    obtain ⟨hf, hb, hcross⟩ := hordered
    show (front ++ event :: back).Pairwise fun a b => s1.deadline a ≤ s1.deadline b
    have hmem : ∀ c ∈ front, c ∈ front ++ back := fun c hc => List.mem_append_left back hc
    have hmem' : ∀ c ∈ back, c ∈ front ++ back := fun c hc => List.mem_append_right front hc
    refine List.pairwise_append.2 ⟨hf.imp_of_mem fun {a b} ha hb hab =>
      ?_, List.pairwise_cons.2 ⟨fun c hc => ?_,
      hb.imp_of_mem fun {a b} ha hb hab => ?_⟩, fun a ha c hc => ?_⟩
    · rw [hdeadline a (hmem a ha), hdeadline b (hmem b hb)]
      exact hab
    · rw [hevent, hdeadline c (hmem' c hc)]
      exact hafter c hc
    · rw [hdeadline a (hmem' a ha), hdeadline b (hmem' b hb)]
      exact hab
    · rw [hdeadline a (hmem a ha)]
      rcases List.mem_cons.1 hc with rfl | hc
      · rw [hevent]
        exact hbefore a ha
      · rw [hdeadline c (hmem' c hc)]
        exact hcross a ha c hc
  · intro c hc
    by_cases hce : c = event
    · subst hce
      exact ⟨_, he1, hid⟩
    · exact h1.armed c (by
        rw [← hxs]
        simpa [hce] using hc)

/-! ## The calls -/

/-- A new deadline goes where it belongs. -/
def LandsRight (s : FdeventSource) (t : Timeval) : Prop :=
    ∀ xs, s.timeouts.IsRing none (xs.map some) → s.Lands xs t

theorem Inv.not_mem_of_alone (h : s.Inv xs) (ha : s.timeouts.Alone (some event)) : event ∉ xs := by
  intro hmem
  obtain ⟨front, back, rfl⟩ := List.append_of_mem hmem
  have hring := h.lists.timeouts.ring
  rw [List.map_append, List.map_cons] at hring
  have hnext := hring.next_eq
  rw [ha.1] at hnext
  have hnodup := hring.nodup
  cases back with
  | nil => simp at hnext
  | cons c back =>
    simp only [List.map_cons, List.headD_cons, Option.some.injEq] at hnext
    subst hnext
    rw [List.nodup_cons, List.nodup_append] at hnodup
    simp at hnodup

theorem addToTimeoutList_inv (h : s.Inv xs) (he : s.heap event = some e) (hid : 0 ≤ e.id)
    (hout : event ∉ xs) (hlands : s.LandsRight (deadlineOf now e.timeoutval)) :
    Res.Safe (fun s' => ∃ ys, s'.Inv ys) (addToTimeoutList now event s) := by
  obtain ⟨s', ys, heq, hinv⟩ := addToTimeoutList_ok h he hid hout (hlands xs h.lists.timeouts.ring)
  rw [heq]
  exact ⟨ys, hinv⟩

theorem timeoutOf_put (he : s.heap event = some e) (htimeout : e'.timeout = e.timeout) :
    (s.put event e').timeoutOf = s.timeoutOf := by
  funext c
  by_cases hce : c = event
  · subst hce
    simp [timeoutOf, he, htimeout]
  · exact timeoutOf_put_of_ne hce

theorem LandsRight.put (h : s.LandsRight t) (he : s.heap event = some e) (htimeout : e'.timeout = e.timeout) :
    (s.put event e').LandsRight t := by
  intro xs hxs
  have hlands := h xs hxs
  simpa only [Lands, deadline, timeoutOf_put he htimeout] using hlands

/-- The mask of an event in the table goes to its entry too. -/
theorem Table.remask (h : s.Table) (he : s.heap event = some e) (hid : 0 ≤ e.id) {pfd : Pollfd}
    (hfd : pfd.fd = e.fd) (events : BitVec 32) :
    Table { s.put event { e with events := events } with
      pollfds := s.pollfds.set e.id.toNat { pfd with events := pollMask events } } := by
  obtain ⟨hlt, hat⟩ := h.at_id he hid
  have hlen : e.id.toNat < s.pollfds.length := by
    have := h.room
    rw [h.pollfds]
    omega
  refine ⟨h.count, h.room, by simpa using h.pollfds, h.fdevents, ?_, ?_⟩
  · intro i hi
    obtain ⟨q, d, hq, hd, hdid, pfd', hpfd', hfd', hmask⟩ := h.slot i hi
    by_cases hqe : q = event
    · subst hqe
      obtain rfl : e = d := Option.some_inj.1 (he.symm.trans hd)
      have hi : e.id.toNat = i := by omega
      refine ⟨q, { e with events := events }, hq, by simp, hdid, { pfd with events := pollMask events },
        ?_, hfd, rfl⟩
      simp [hi ▸ hlen, hi]
    · have hi : e.id.toNat ≠ i := by
        intro hi
        rw [hi] at hat
        exact hqe (Option.some_inj.1 (hq.symm.trans hat))
      exact ⟨q, d, hq, by simp [hqe, hd], hdid, pfd', by simp [hi, hpfd'], hfd', hmask⟩
  · intro q d hd
    by_cases hqe : q = event
    · subst hqe
      simp only [put_heap, if_true, Option.some.injEq] at hd
      subst hd
      exact h.known q e he
    · simp only [put_heap, hqe, if_false] at hd
      exact h.known q d hd

theorem fdeventSet_inv (h : s.Inv xs) (he : s.heap event = some e) {prop : FdeventProp}
    (hfd : ∀ fd, prop = .fd fd → 0 ≤ e.id → fd = e.fd)
    (harm : ∀ ms, prop = .timeout ms → 0 ≤ e.id → 0 < ms →
      s.timeouts.Alone (some event) ∧ s.LandsRight (deadlineOf now ms)) :
    Res.Safe (fun r => ∃ ys, r.1.Inv ys) (fdeventSet now event prop s) := by
  rw [fdeventSet, Res.deref_of_some he, Res.ok_bind]
  cases prop with
  | fd fd => exact ⟨xs, h.put he rfl (hfd fd rfl) (fun _ => rfl) rfl fun _ => rfl⟩
  | other => exact ⟨xs, h⟩
  | timeout ms =>
    have hput : (s.put event { e with timeoutval := ms }).Inv xs :=
      h.put he rfl (fun _ => rfl) (fun _ => rfl) rfl fun _ => rfl
    simp only []
    split
    · rename_i hpos
      obtain ⟨halone, hlands⟩ := harm ms rfl hpos.1 hpos.2
      have hset : (s.put event { e with timeoutval := ms }).heap event =
        some { e with timeoutval := ms } := by
        simp
      have hsafe := addToTimeoutList_inv hput hset hpos.1 (h.not_mem_of_alone halone) (hlands.put he rfl)
      exact Res.safe_bind.2 (hsafe.mono fun s' hs' => hs')
    · exact ⟨xs, hput⟩
  | events events =>
    simp only []
    split
    · rename_i hid
      have hid : 0 ≤ e.id := hid
      obtain ⟨hlt, hat⟩ := h.table.at_id he hid
      obtain ⟨q, d, hq, hd, hdid, pfd, hpfd, hfd', -⟩ := h.table.slot e.id.toNat hlt
      obtain rfl : q = event := Option.some_inj.1 (hq.symm.trans hat)
      obtain rfl : e = d := Option.some_inj.1 (he.symm.trans hd)
      have hload : Buffer.load s.pollfds e.id.toNat = .ok pfd := by simp [Buffer.load, hpfd]
      have hlen : e.id.toNat < s.pollfds.length := (List.getElem?_eq_some_iff.1 hpfd).1
      have hlists : (s.put q { e with events := events &&& (evRead ||| evWrite) }).Lists xs :=
        h.lists.put he rfl fun _ => rfl
      rw [put_pollfds, hload, Res.ok_bind, Buffer.store, if_pos hlen, Res.ok_bind]
      exact ⟨xs, h.table.remask he hid hfd' _, hlists.retable _ _ _, armed_put h.armed fun _ => hid⟩
    · rename_i hid
      have hid : ¬0 ≤ e.id := hid
      exact ⟨xs, h.put he rfl (fun _ => rfl) (fun hpos => absurd hpos hid) rfl fun _ => rfl⟩

theorem Table.append (h : s.Table) (he : s.heap event = some e) (hid : e.id = -1)
    (hroom : s.fdcount < s.fdsize) :
    Table { s.put event { e with id := s.fdcount } with
      pollfds := s.pollfds.set s.fdcount.toNat ⟨e.fd, pollMask e.events, 0⟩
      fdevents := s.fdevents.set s.fdcount.toNat event
      fdcount := s.fdcount + 1 } := by
  have hcount := h.count
  have hn : (s.fdcount + 1).toNat = s.fdcount.toNat + 1 := by omega
  have hlen : s.fdcount.toNat < s.fdsize.toNat := by omega
  have hnot : ∀ i d, s.heap event = some d → d.id = (i : Nat) → False := by
    intro i d hd hdid
    obtain rfl : e = d := Option.some_inj.1 (he.symm.trans hd)
    omega
  refine ⟨by show 0 ≤ s.fdcount + 1; omega, by show (s.fdcount + 1).toNat ≤ s.fdsize.toNat; omega,
    by simpa using h.pollfds, by simpa using h.fdevents, ?_, ?_⟩
  · intro i hi
    replace hi : i < (s.fdcount + 1).toNat := hi
    by_cases hlast : i = s.fdcount.toNat
    · subst hlast
      have hlen1 : s.fdcount.toNat < s.fdevents.length := by rw [h.fdevents]; exact hlen
      have hlen2 : s.fdcount.toNat < s.pollfds.length := by rw [h.pollfds]; exact hlen
      refine ⟨event, { e with id := s.fdcount }, by simp [hlen1], by simp, ?_,
        ⟨e.fd, pollMask e.events, 0⟩, by simp [hlen2], rfl, rfl⟩
      show s.fdcount = (s.fdcount.toNat : Int)
      omega
    · obtain ⟨q, d, hq, hd, hdid, pfd, hpfd, hfd, hmask⟩ := h.slot i (by omega)
      have hqe : q ≠ event := fun hqe => hnot i d (hqe ▸ hd) hdid
      exact ⟨q, d, by simp [Ne.symm hlast, hq], by simp [hqe, hd], hdid, pfd,
        by simp [Ne.symm hlast, hpfd], hfd, hmask⟩
  · intro q d hd
    show d.id = -1 ∨ 0 ≤ d.id ∧ d.id.toNat < (s.fdcount + 1).toNat ∧
      (s.fdevents.set s.fdcount.toNat event)[d.id.toNat]? = some q
    by_cases hqe : q = event
    · subst hqe
      simp only [put_heap, if_true, Option.some.injEq] at hd
      subst hd
      have hlen1 : s.fdcount.toNat < s.fdevents.length := by rw [h.fdevents]; exact hlen
      exact .inr ⟨hcount, by rw [hn]; exact Nat.lt_succ_self _, by simp [hlen1]⟩
    · simp only [put_heap, hqe, if_false] at hd
      refine (h.known q d hd).imp_right fun ⟨hpos, hlt, hat⟩ => ⟨hpos, by omega, ?_⟩
      have hne : s.fdcount.toNat ≠ d.id.toNat := by omega
      simp [hne, hat]

theorem atItsSlot_eq (h : s.Table) (he : s.heap event = some e) :
    s.atItsSlot event e = .ok (decide (0 ≤ e.id)) := by
  unfold atItsSlot
  rcases h.known event e he with hout | ⟨hpos, hlt, hat⟩
  · have hneg : ¬(e.id ≥ 0 ∧ e.id < s.fdcount) := by omega
    have hneg' : ¬0 ≤ e.id := by omega
    rw [if_neg hneg]
    simp [hneg']
  · have hcount := h.count
    have hin : e.id ≥ 0 ∧ e.id < s.fdcount := by omega
    rw [if_pos hin]
    simp [Buffer.load, hat, hpos]

theorem fdeventAdd_inv (h : s.Inv xs) (he : s.heap event = some e)
    (hlands : e.id < 0 → 0 ≤ e.fd → s.fdcount < s.fdsize → 0 < e.timeoutval →
      s.LandsRight (deadlineOf now e.timeoutval)) :
    Res.Safe (fun r => ∃ ys, r.1.Inv ys) (fdeventAdd now event s) := by
  rw [fdeventAdd, Res.deref_of_some he, Res.ok_bind, atItsSlot_eq h.table he, Res.ok_bind]
  by_cases hpos : 0 ≤ e.id
  · simp only [hpos, decide_true, if_true]
    exact ⟨xs, h⟩
  · simp only [hpos, decide_false, Bool.false_eq_true, if_false]
    have hid : e.id = -1 := (h.table.known event e he).resolve_right fun hin => hpos hin.1
    by_cases hfull : e.fd < 0 ∨ s.fdcount ≥ s.fdsize
    · rw [if_pos hfull]
      exact ⟨xs, h⟩
    · rw [if_neg hfull]
      have hroom : s.fdcount < s.fdsize := by omega
      have hcount := h.table.count
      have hlen : s.fdcount.toNat < s.pollfds.length := by rw [h.table.pollfds]; omega
      have hlen' : s.fdcount.toNat < s.fdevents.length := by rw [h.table.fdevents]; omega
      have hout : event ∉ xs := by
        intro hmem
        obtain ⟨d, hd, hdid⟩ := h.armed event hmem
        obtain rfl : e = d := Option.some_inj.1 (he.symm.trans hd)
        exact hpos hdid
      have hlists : (s.put event { e with id := s.fdcount }).Lists xs := h.lists.put he rfl fun _ => rfl
      have harmed : ∀ c ∈ xs, ∃ d, (s.put event { e with id := s.fdcount }).heap c = some d ∧ 0 ≤ d.id :=
        armed_put h.armed fun _ => hcount
      have hset : (s.put event { e with id := s.fdcount }).heap event = some { e with id := s.fdcount } := by
        simp
      have hinv : Inv { s.put event { e with id := s.fdcount } with
          pollfds := s.pollfds.set s.fdcount.toNat ⟨e.fd, pollMask e.events, 0⟩
          fdevents := s.fdevents.set s.fdcount.toNat event
          fdcount := s.fdcount + 1 } xs :=
        ⟨h.table.append he hid hroom, hlists.retable _ _ _, harmed⟩
      rw [Buffer.store, if_pos hlen, Res.ok_bind, Buffer.store, if_pos hlen', Res.ok_bind]
      split
      · rename_i harm
        have hsafe := addToTimeoutList_inv hinv hset hcount hout
          ((hlands (by omega) (by omega) hroom harm).put he rfl)
        exact Res.safe_bind.2 (hsafe.mono fun s' hs' => hs')
      · exact ⟨xs, hinv⟩

/-! ## Removing -/

/-- The last event of the table goes out. -/
theorem Table.dropLast (h : s.Table) (he : s.heap event = some e) (hid : 0 ≤ e.id)
    (hlast : ¬e.id < s.fdcount - 1) :
    Table { s.put event { e with id := -1 } with fdcount := s.fdcount - 1 } := by
  obtain ⟨hlt, hat⟩ := h.at_id he hid
  have hcount := h.count
  have hroom := h.room
  refine ⟨by show 0 ≤ s.fdcount - 1; omega, by show (s.fdcount - 1).toNat ≤ s.fdsize.toNat; omega, h.pollfds,
    h.fdevents, ?_, ?_⟩
  · intro i hi
    replace hi : i < (s.fdcount - 1).toNat := hi
    obtain ⟨q, d, hq, hd, hdid, hmirror⟩ := h.slot i (by omega)
    have hqe : q ≠ event := by
      intro hqe
      subst hqe
      obtain rfl : e = d := Option.some_inj.1 (he.symm.trans hd)
      omega
    exact ⟨q, d, hq, by simp [hqe, hd], hdid, hmirror⟩
  · intro q d hd
    by_cases hqe : q = event
    · subst hqe
      simp only [put_heap, if_true, Option.some.injEq] at hd
      subst hd
      exact .inl rfl
    · simp only [put_heap, hqe, if_false] at hd
      refine (h.known q d hd).imp_right fun ⟨hpos, hlt', hat'⟩ => ⟨hpos, ?_, hat'⟩
      show d.id.toNat < (s.fdcount - 1).toNat
      have hne : d.id.toNat ≠ e.id.toNat := by
        intro heq
        rw [heq, hat] at hat'
        exact hqe (Option.some_inj.1 hat').symm
      omega

/-- The last event `last` of the table comes to the place of another one, which goes out. -/
theorem Table.moveLast (h : s.Table) (he : s.heap event = some e) (hid : 0 ≤ e.id)
    (hlast : e.id < s.fdcount - 1)
    {last : Ptr} {d : Fdevent} {pfd : Pollfd} (hat : s.fdevents[(s.fdcount - 1).toNat]? = some last)
    (hd : s.heap last = some d) (hdid : d.id = ((s.fdcount - 1).toNat : Nat))
    (hfd : pfd.fd = d.fd) (hmask : pfd.events = pollMask d.events) :
    Table { (s.put last { d with id := e.id }).put event { e with id := -1 } with
      pollfds := s.pollfds.set e.id.toNat pfd
      fdevents := s.fdevents.set e.id.toNat last
      fdcount := s.fdcount - 1 } := by
  obtain ⟨hlt, hate⟩ := h.at_id he hid
  have hcount := h.count
  have hroom := h.room
  have hne : last ≠ event := by
    intro heq
    subst heq
    obtain rfl : e = d := Option.some_inj.1 (he.symm.trans hd)
    omega
  have hlen : e.id.toNat < s.fdevents.length := by rw [h.fdevents]; omega
  have hlen' : e.id.toNat < s.pollfds.length := by rw [h.pollfds]; omega
  refine ⟨by show 0 ≤ s.fdcount - 1; omega, by show (s.fdcount - 1).toNat ≤ s.fdsize.toNat; omega,
    by simpa using h.pollfds, by simpa using h.fdevents, ?_, ?_⟩
  · intro i hi
    replace hi : i < (s.fdcount - 1).toNat := hi
    by_cases hie : i = e.id.toNat
    · subst hie
      have hid' : e.id = (e.id.toNat : Int) := by omega
      exact ⟨last, { d with id := e.id }, by simp [hlen], by simp [hne], hid', pfd,
        by simp [hlen'], hfd, hmask⟩
    · obtain ⟨q, c, hq, hc, hcid, pfd', hpfd', hmirror⟩ := h.slot i (by omega)
      have hqe : q ≠ event := by
        intro heq
        subst heq
        obtain rfl : e = c := Option.some_inj.1 (he.symm.trans hc)
        omega
      have hql : q ≠ last := by
        intro heq
        subst heq
        obtain rfl : d = c := Option.some_inj.1 (hd.symm.trans hc)
        omega
      exact ⟨q, c, by simp [Ne.symm hie, hq], by simp [hqe, hql, hc], hcid, pfd',
        by simp [Ne.symm hie, hpfd'], hmirror⟩
  · intro q c hc
    show c.id = -1 ∨ 0 ≤ c.id ∧ c.id.toNat < (s.fdcount - 1).toNat ∧
      (s.fdevents.set e.id.toNat last)[c.id.toNat]? = some q
    by_cases hqe : q = event
    · subst hqe
      simp only [put_heap, if_true, Option.some.injEq] at hc
      subst hc
      exact .inl rfl
    · by_cases hql : q = last
      · subst hql
        simp only [put_heap, hqe, if_true, if_false, Option.some.injEq] at hc
        subst hc
        exact .inr ⟨hid, by show e.id.toNat < (s.fdcount - 1).toNat; omega, by simp [hlen]⟩
      · simp only [put_heap, hqe, hql, if_false] at hc
        refine (h.known q c hc).imp_right fun ⟨hpos, hlt', hat'⟩ => ⟨hpos, ?_, ?_⟩
        · have hcl : c.id.toNat ≠ (s.fdcount - 1).toNat := by
            intro heq
            rw [heq, hat] at hat'
            exact hql (Option.some_inj.1 hat').symm
          omega
        · have hce : e.id.toNat ≠ c.id.toNat := by
            intro heq
            rw [← heq, hate] at hat'
            exact hqe (Option.some_inj.1 hat').symm
          simp [hce, hat']

/-- An event leaves the table: what is on the lists is as before, and each other event that was in the
table is. -/
theorem removeSlot_ok (h : s.Inv xs) (he : s.heap event = some e) (hid : 0 ≤ e.id) :
    ∃ s', removeSlot event e s = .ok s' ∧ s'.Table ∧ s'.Lists xs ∧ s'.self = s.self ∧
      s'.heap event = some { e with id := -1 } ∧
      ∀ c ∈ xs, c ≠ event → ∃ d, s'.heap c = some d ∧ 0 ≤ d.id := by
  have hcount := h.table.count
  obtain ⟨hlt, -⟩ := h.table.at_id he hid
  have harmed : ∀ c ∈ xs.filter (· ≠ event), ∃ d, s.heap c = some d ∧ 0 ≤ d.id :=
    fun c hc => h.armed c (List.mem_of_mem_filter hc)
  have hnot : event ∉ xs.filter (· ≠ event) := by simp
  by_cases hlast : e.id < s.fdcount - 1
  · obtain ⟨last, d, hat, hd, hdid, pfd, hpfd, hfd, hmask⟩ := h.table.slot (s.fdcount - 1).toNat (by omega)
    have hne : last ≠ event := by
      intro heq
      subst heq
      obtain rfl : e = d := Option.some_inj.1 (he.symm.trans hd)
      omega
    have hlen : e.id.toNat < s.fdevents.length := by rw [h.table.fdevents]; have := h.table.room; omega
    have hlen' : e.id.toNat < s.pollfds.length := by rw [h.table.pollfds]; have := h.table.room; omega
    have he1 : (s.put last { d with id := e.id }).heap event = some e := by simp [hne.symm, he]
    refine ⟨{ (s.put last { d with id := e.id }).put event { e with id := -1 } with
      pollfds := s.pollfds.set e.id.toNat pfd
      fdevents := s.fdevents.set e.id.toNat last
      fdcount := s.fdcount - 1 }, ?_, h.table.moveLast he hid hlast hat hd hdid hfd hmask, ?_, rfl,
        by simp, ?_⟩
    · simp only [removeSlot, hlast, if_true, Buffer.load, Buffer.store, hpfd, hat, hlen, hlen', Res.ok_bind,
        Res.deref_of_some hd, Res.pure_eq]
      exact Res.bind_eq_ok.2 ⟨e, Res.deref_of_some he1, rfl⟩
    · have h1 : (s.put last { d with id := e.id }).Lists xs := h.lists.put hd rfl fun _ => rfl
      have h2 : ((s.put last { d with id := e.id }).put event { e with id := -1 }).Lists xs :=
        h1.put he1 rfl fun _ => rfl
      exact h2.retable _ _ _
    · intro c hc hce
      have h1 : ∀ c ∈ xs.filter (· ≠ event), ∃ d', (s.put last { d with id := e.id }).heap c = some d' ∧
        0 ≤ d'.id :=
        armed_put harmed fun _ => hid
      exact armed_put h1 (fun hmem => absurd hmem hnot) c (by simp [hc, hce])
  · have hlists : (s.put event { e with id := -1 }).Lists xs := h.lists.put he rfl fun _ => rfl
    refine ⟨{ s.put event { e with id := -1 } with fdcount := s.fdcount - 1 }, ?_,
      h.table.dropLast he hid hlast,
      hlists.retable s.pollfds s.fdevents _, rfl, by simp, ?_⟩
    · simp only [removeSlot, hlast, if_false, Res.pure_eq, Res.ok_bind]
      exact Res.bind_eq_ok.2 ⟨e, Res.deref_of_some he, rfl⟩
    · intro c hc hce
      exact armed_put harmed (fun hmem => absurd hmem hnot) c (by simp [hc, hce])

/-- An event is freed that is neither in the table nor on a list. -/
theorem Table.free (h : s.Table) (he : s.heap event = some e) (hid : e.id = -1)
    (timeouts pending : Links (Option Ptr)) :
    Table { s with heap := update s.heap event none, timeouts := timeouts, pending := pending } := by
  refine ⟨h.count, h.room, h.pollfds, h.fdevents, ?_, ?_⟩
  · intro i hi
    obtain ⟨q, d, hq, hd, hdid, hmirror⟩ := h.slot i hi
    have hqe : q ≠ event := by
      intro hqe
      subst hqe
      obtain rfl : e = d := Option.some_inj.1 (he.symm.trans hd)
      omega
    exact ⟨q, d, hq, by simp [hqe, hd], hdid, hmirror⟩
  · intro q d hd
    have hqe : q ≠ event := by
      intro hqe
      subst hqe
      simp at hd
    exact h.known q d (by simpa [hqe] using hd)

theorem live_free {timeouts pending : Links (Option Ptr)} :
    Live { s with heap := update s.heap event none, timeouts := timeouts, pending := pending } =
      fun a => s.Live a ∧ a ≠ some event := by
  funext a
  cases a with
  | none => simp [Live]
  | some q =>
    by_cases hq : q = event
    · subst hq
      simp [Live]
    · simp [Live, hq]

theorem filter_map_some (xs : List Ptr) (event : Ptr) :
    (xs.map some).filter (· ≠ some event) = (xs.filter (· ≠ event)).map some := by
  rw [List.filter_map]
  congr 1
  apply List.filter_congr
  simp

/-- `remove_event`: the event is in neither the table nor the timeout list. -/
theorem removeEvent_ok (h : s.Inv xs) (he : s.heap event = some e) : ∃ s' e', removeEvent event s = .ok s' ∧
    s'.Inv (xs.filter (· ≠ event)) ∧ s'.self = s.self ∧ s'.heap event = some e' ∧ e'.id = -1 := by
  obtain ⟨s1, e1, hrun, htable, hlists, hself, he1, hid1, harmed⟩ : ∃ s1 e1,
      (if e.id ≥ 0 then removeSlot event e s else pure s) = .ok s1 ∧ s1.Table ∧ s1.Lists xs ∧
        s1.self = s.self ∧
      s1.heap event = some e1 ∧ e1.id = -1 ∧ ∀ c ∈ xs, c ≠ event → ∃ d, s1.heap c = some d ∧ 0 ≤ d.id := by
    by_cases hid : e.id ≥ 0
    · obtain ⟨s1, hrun, htable, hlists, hself, he1, harmed⟩ := removeSlot_ok h he hid
      exact ⟨s1, _, by rw [if_pos hid, hrun], htable, hlists, hself, he1, rfl, harmed⟩
    · have hid1 : e.id = -1 := (h.table.known event e he).resolve_right fun hin => hid hin.1
      exact ⟨s, e, by rw [if_neg hid]; rfl, h.table, h.lists, rfl, he, hid1, fun c hc _ => h.armed c hc⟩
  obtain ⟨m, hdel, hm⟩ := listDelInit_ok hlists.timeouts (live_of he1)
  rw [filter_map_some] at hm
  refine ⟨{ s1 with timeouts := m }, e1, ?_, ⟨htable.relink m, ⟨hm, ?_, hlists.pending, hlists.source⟩,
    ?_⟩, hself, he1,
    hid1⟩
  · rw [removeEvent, Res.deref_of_some he, Res.ok_bind, hrun, Res.ok_bind, hdel]
    rfl
  · exact hlists.ordered.sublist List.filter_sublist
  · intro c hc
    obtain ⟨hmem, hce⟩ := List.mem_filter.1 hc
    exact harmed c hmem (by simpa using hce)

theorem fdeventDel_inv (h : s.Inv xs) (he : s.heap event = some e) :
    Res.Safe (fun r => ∃ ys, r.1.Inv ys) (fdeventDel event s) := by
  rw [fdeventDel, Res.deref_of_some he, Res.ok_bind, if_neg (not_not.2 (h.lists.source event e he))]
  have hpresent : (if e.id ≥ 0 then s.atItsSlot event e else pure true) = .ok true := by
    by_cases hid : e.id ≥ 0
    · rw [if_pos hid, atItsSlot_eq h.table he]
      simpa using hid
    · rw [if_neg hid]
      rfl
  obtain ⟨s1, e1, hrun, hinv, hself, he1, hid1⟩ := removeEvent_ok h he
  have hnot : event ∉ xs.filter (· ≠ event) := by simp
  obtain ⟨zs, hzs⟩ := hinv.lists.pending
  obtain ⟨m, hdel, hm⟩ := listDel_ok hzs (live_of he1)
  rw [hpresent, Res.ok_bind, if_neg (by simp), hrun, Res.ok_bind, hdel, Res.ok_bind]
  have hout := hinv.lists.timeouts.remove (live_of he1) (by simp)
  have hne : ∀ c ∈ xs.filter (· ≠ event), c ≠ event := fun c hc heq => hnot (heq ▸ hc)
  refine ⟨xs.filter (· ≠ event), hinv.table.free he1 hid1 _ _,
    ⟨?_, ?_, ⟨zs.filter (· ≠ some event), ?_⟩, ?_⟩, ?_⟩
  · rw [live_free]
    exact hout
  · refine hinv.lists.ordered.imp_of_mem fun {a b} ha hb hab => ?_
    simpa [deadline, timeoutOf, hne a ha, hne b hb] using hab
  · rw [live_free]
    exact hm
  · intro q d hd
    have hqe : q ≠ event := by
      intro hqe
      subst hqe
      simp at hd
    exact hinv.lists.source q d (by simpa [hqe] using hd)
  · intro c hc
    obtain ⟨d, hd, hdid⟩ := hinv.armed c hc
    exact ⟨d, by simp [hne c hc, hd], hdid⟩

theorem fdeventNew_inv (h : s.Inv xs) {malloc : Ptr} {events : BitVec 32}
    (hmalloc : events &&& (evRead ||| evWrite) ≠ 0 → malloc ≠ 0 ∧ s.heap malloc = none) :
    Res.Safe (fun r => ∃ ys, r.1.Inv ys) (fdeventNew malloc events s) := by
  unfold fdeventNew
  by_cases hevents : events &&& (evRead ||| evWrite) = 0
  · rw [if_pos hevents]
    exact ⟨xs, h⟩
  · obtain ⟨hne, hfresh⟩ := hmalloc hevents
    rw [if_neg hevents, if_neg hne]
    have hlive : (s.put malloc ⟨s.self, 0, -1, -1, events, 0, 0, ⟨0, 0⟩⟩).Live =
        fun a => a = some malloc ∨ s.Live a := by
      funext a
      cases a with
      | none => simp [Live]
      | some q =>
        by_cases hq : q = malloc
        · subst hq
          simp [Live]
        · simp [Live, hq]
    have hnot : ¬s.Live (some malloc) := by simp [Live, hfresh]
    have hother : ∀ q d, s.heap q = some d → q ≠ malloc := by
      intro q d hd heq
      subst heq
      rw [hfresh] at hd
      cases hd
    obtain ⟨zs, hzs⟩ := h.lists.pending
    refine ⟨xs, ⟨h.table.count, h.table.room, h.table.pollfds, h.table.fdevents, ?_, ?_⟩,
      ⟨?_, ?_, ⟨zs, ?_⟩, ?_⟩, ?_⟩
    · intro i hi
      obtain ⟨q, d, hq, hd, hdid, hmirror⟩ := h.table.slot i hi
      exact ⟨q, d, hq, by simp [hother q d hd, hd], hdid, hmirror⟩
    · intro q d hd
      by_cases hqe : q = malloc
      · subst hqe
        simp only [put_heap, if_true, Option.some.injEq] at hd
        subst hd
        exact .inl rfl
      · simp only [put_heap, hqe, if_false] at hd
        exact h.table.known q d hd
    · show (s.timeouts.single (some malloc)).Holds none (xs.map some) (s.put malloc _).Live
      rw [hlive]
      exact h.lists.timeouts.add hnot (by simp)
    · refine h.lists.ordered.imp_of_mem fun {a b} ha hb hab => ?_
      have hne' : ∀ c ∈ xs, c ≠ malloc := by
        intro c hc
        obtain ⟨d, hd, -⟩ := h.armed c hc
        exact hother c d hd
      simpa [deadline, timeoutOf, hne' a ha, hne' b hb] using hab
    · show (s.pending.single (some malloc)).Holds none zs (s.put malloc _).Live
      rw [hlive]
      exact hzs.add hnot (by simp)
    · intro q d hd
      by_cases hqe : q = malloc
      · subst hqe
        simp only [put_heap, if_true, Option.some.injEq] at hd
        subst hd
        rfl
      · simp only [put_heap, hqe, if_false] at hd
        exact h.lists.source q d hd
    · intro c hc
      obtain ⟨d, hd, hdid⟩ := h.armed c hc
      exact ⟨d, by simp [hother c d hd, hd], hdid⟩

theorem fdeventCreate_inv (self : Ptr) (maxfds : Int) (pollfds : Nat → Pollfd) (fdevents : Nat → Ptr) :
    (fdeventCreate self maxfds pollfds fdevents).Inv [] := by
  have hring : (initListHead (κ := Option Ptr) ⟨fun _ => none, fun _ => none⟩ none).IsRing none [] := by
    refine ⟨by simp, ?_⟩
    exact List.isChain_cons_cons.2 ⟨by simp [Links.Edge, initListHead, Links.single], .singleton none⟩
  have hdead : ∀ a, ¬(fdeventCreate self maxfds pollfds fdevents).Live a := by
    intro a
    cases a <;> simp [Live, fdeventCreate]
  refine ⟨⟨by simp [fdeventCreate], by simp [fdeventCreate], by simp [fdeventCreate],
    by simp [fdeventCreate], ?_, ?_⟩,
    ⟨⟨hring, by simp, fun a ha => absurd ha (hdead a), hdead none⟩, .nil,
      ⟨[], hring, by simp, fun a ha => absurd ha (hdead a), hdead none⟩, ?_⟩, by simp⟩
  · intro i hi
    simp [fdeventCreate] at hi
  · intro q d hd
    simp [fdeventCreate] at hd
  · intro q d hd
    simp [fdeventCreate] at hd

end

/-! ## Runs -/

/-- What the source is to represent: entry `i` is the event with the id `i`, with its descriptor and mask,
no event is there twice, one that is not there has the id -1, and the timeout list is a ring, ordered by
deadlines. -/
structure Represents (s : FdeventSource) (xs : List Ptr) : Prop where
  slot : ∀ i < s.fdcount.toNat, ∃ event e, s.fdevents[i]? = some event ∧ s.heap event = some e ∧
    e.id = i ∧ s.Mirrors i e
  once : ∀ i < s.fdcount.toNat, ∀ j < s.fdcount.toNat, s.fdevents[i]? = s.fdevents[j]? → i = j
  outside : ∀ event e, s.heap event = some e → (∀ i < s.fdcount.toNat,
    s.fdevents[i]? ≠ some event) → e.id = -1
  ring : s.timeouts.IsRing none (xs.map some)
  ordered : xs.Pairwise fun a b => s.deadline a ≤ s.deadline b

theorem Inv.represents {s : FdeventSource} {xs : List Ptr} (h : s.Inv xs) : s.Represents xs := by
  refine ⟨h.table.slot, ?_, ?_, h.lists.timeouts.ring, h.lists.ordered⟩
  · intro i hi j hj hij
    obtain ⟨q, d, hq, hd, hdid, -⟩ := h.table.slot i hi
    obtain ⟨q', d', hq', hd', hdid', -⟩ := h.table.slot j hj
    obtain rfl : q = q' := Option.some_inj.1 (hq.symm.trans (hij.trans hq'))
    obtain rfl : d = d' := Option.some_inj.1 (hd.symm.trans hd')
    omega
  · intro event e he hnot
    exact (h.table.known event e he).resolve_right fun hin => hnot _ hin.2.1 hin.2.2

/-- A call on a source, with what `malloc` and `gettimeofday` answer in it. -/
inductive FdeventCall where
  | new (malloc : Ptr) (events : BitVec 32)
  | set (event : Ptr) (prop : FdeventProp) (now : Timeval)
  | add (event : Ptr) (now : Timeval)
  | del (event : Ptr)

def fdeventStep (s : FdeventSource) : FdeventCall → Res FdeventSource
  | .new malloc events => s.fdeventNew malloc events >>= fun r => .ok r.1
  | .set event prop now => s.fdeventSet now event prop >>= fun r => .ok r.1
  | .add event now => s.fdeventAdd now event >>= fun r => .ok r.1
  | .del event => s.fdeventDel event >>= fun r => .ok r.1

/-- `malloc` answers new memory, a call is on an event of the source, an event in the table keeps its
descriptor, one that is armed is not on the list, and its deadline lands where it belongs. -/
def Meets (s : FdeventSource) : FdeventCall → Prop
  | .new malloc events => events &&& (evRead ||| evWrite) ≠ 0 → malloc ≠ 0 ∧ s.heap malloc = none
  | .set event prop now => ∃ e, s.heap event = some e ∧ (∀ fd, prop = .fd fd → 0 ≤ e.id → fd = e.fd) ∧
    ∀ ms, prop = .timeout ms → 0 ≤ e.id → 0 < ms →
      s.timeouts.Alone (some event) ∧ s.LandsRight (deadlineOf now ms)
  | .add event now => ∃ e, s.heap event = some e ∧
    (e.id < 0 → 0 ≤ e.fd → s.fdcount < s.fdsize → 0 < e.timeoutval →
      s.LandsRight (deadlineOf now e.timeoutval))
  | .del event => ∃ e, s.heap event = some e

theorem fdeventStep_inv (s : FdeventSource) (call : FdeventCall) (h : ∃ xs, s.Inv xs)
    (hmeets : s.Meets call) :
    Res.Safe (fun s' => ∃ xs, s'.Inv xs) (fdeventStep s call) := by
  obtain ⟨xs, h⟩ := h
  cases call with
  | new malloc events => exact Res.safe_bind.2 ((fdeventNew_inv h hmeets).mono fun _ hr => hr)
  | set event prop now =>
    obtain ⟨e, he, hfd, harm⟩ := hmeets
    exact Res.safe_bind.2 ((fdeventSet_inv h he hfd harm).mono fun _ hr => hr)
  | add event now =>
    obtain ⟨e, he, hlands⟩ := hmeets
    exact Res.safe_bind.2 ((fdeventAdd_inv h he hlands).mono fun _ hr => hr)
  | del event =>
    obtain ⟨e, he⟩ := hmeets
    exact Res.safe_bind.2 ((fdeventDel_inv h he).mono fun _ hr => hr)

theorem fdevent_represents (self : Ptr) (maxfds : Int) (pollfds : Nat → Pollfd) (fdevents : Nat → Ptr)
    {calls : List FdeventCall}
    (h : Runs.Along fdeventStep Meets calls (fdeventCreate self maxfds pollfds fdevents)) :
    Res.Safe (fun s => ∃ xs, s.Represents xs)
      (Runs.run fdeventStep calls (fdeventCreate self maxfds pollfds fdevents)) :=
  (Runs.run_safe fdeventStep_inv ⟨[], fdeventCreate_inv self maxfds pollfds fdevents⟩ h).mono
    fun _ ⟨xs, hinv⟩ => ⟨xs, hinv.represents⟩

/-- A source for four events, in memory that is zero. -/
def smallSource : FdeventSource := fdeventCreate 9 4 (fun _ => ⟨0, 0, 0⟩) fun _ => 0

/-- An event that is in the table gets another descriptor. -/
def changeFd : List FdeventCall :=
  [.new 1 evRead, .set 1 (.fd 5) ⟨0, 0⟩, .add 1 ⟨0, 0⟩, .set 1 (.fd 7) ⟨0, 0⟩]

/-- An event that is on the list is armed again. -/
def armTwice : List FdeventCall :=
  [.new 1 evRead, .set 1 (.fd 5) ⟨0, 0⟩, .add 1 ⟨0, 0⟩, .set 1 (.timeout 100) ⟨0, 0⟩,
    .set 1 (.timeout 100) ⟨0, 0⟩]

/-- 900 ms from 0.9 s, and then 500 ms from 1 s: the deadlines are 0 s and 1800000 us, and 1 s and 500000
us. -/
def armInOrder : List FdeventCall :=
  [.new 1 evRead, .set 1 (.fd 5) ⟨0, 0⟩, .add 1 ⟨0, 0⟩, .new 2 evRead, .set 2 (.fd 6) ⟨0, 0⟩, .add 2 ⟨0, 0⟩,
    .set 1 (.timeout 900) ⟨0, 900000⟩, .set 2 (.timeout 500) ⟨1, 0⟩]

/-- Each of the three leaves the source representing nothing: a descriptor that is not the event's, an
event linked to itself behind the head, and a list that is not in order. -/
theorem fdevent_not_represents :
    ¬Res.Safe (fun s => ∃ xs, s.Represents xs) (Runs.run fdeventStep changeFd smallSource) ∧
    ¬Res.Safe (fun s => ∃ xs, s.Represents xs) (Runs.run fdeventStep armTwice smallSource) ∧
    ¬Res.Safe (fun s => ∃ xs, s.Represents xs) (Runs.run fdeventStep armInOrder smallSource) := by
  refine ⟨fun h => ?_, fun h => ?_, fun h => ?_⟩
  · have hfd : ¬Res.Safe (fun s => ¬(s.fdcount = 1 ∧ s.fdevents[0]? = some 1 ∧
      (s.heap 1).map (·.fd) = some 7 ∧
        s.pollfds[0]?.map (·.fd) = some 5)) (Runs.run fdeventStep changeFd smallSource) := by decide +kernel
    refine hfd (h.mono fun s ⟨xs, hs⟩ ⟨hcount, hevent, hheap, hpollfd⟩ => ?_)
    obtain ⟨event, e, hevent', he, -, pfd, hpfd, hmirror, -⟩ := hs.slot 0 (by rw [hcount]; decide)
    obtain rfl : 1 = event := Option.some_inj.1 (hevent.symm.trans hevent')
    rw [he] at hheap
    rw [hpfd] at hpollfd
    simp only [Option.map_some, Option.some.injEq] at hheap hpollfd
    omega
  · have hloop : ¬Res.Safe (fun s => ¬(s.timeouts.next none = some (some 1) ∧
        s.timeouts.next (some 1) = some (some 1)))
          (Runs.run fdeventStep armTwice smallSource) := by decide +kernel
    refine hloop (h.mono fun s ⟨xs, hs⟩ ⟨hhead, hnext⟩ => ?_)
    cases xs with
    | nil => simp [hs.ring.next_head] at hhead
    | cons x xs =>
      have hring := hs.ring
      rw [hring.next_head] at hhead
      obtain rfl : x = 1 := by simpa using hhead
      have hnext' := @Links.IsRing.next_eq _ _ [] (xs.map some) none (some 1) hring
      rw [hnext] at hnext'
      cases xs with
      | nil => simp at hnext'
      | cons y xs =>
        obtain rfl : 1 = y := by simpa using hnext'
        simpa using hring.nodup
  · have hlist : ¬Res.Safe (fun s => ¬(s.timeouts.next none = some (some 1) ∧
        s.timeouts.next (some 1) = some (some 2) ∧ s.deadline 1 = 1800000 ∧ s.deadline 2 = 1500000))
        (Runs.run fdeventStep armInOrder smallSource) := by decide +kernel
    refine hlist (h.mono fun s ⟨xs, hs⟩ ⟨hhead, hnext, h1, h2⟩ => ?_)
    cases xs with
    | nil => simp [hs.ring.next_head] at hhead
    | cons x xs =>
      have hring := hs.ring
      rw [hring.next_head] at hhead
      obtain rfl : x = 1 := by simpa using hhead
      have hnext' := @Links.IsRing.next_eq _ _ [] (xs.map some) none (some 1) hring
      rw [hnext] at hnext'
      cases xs with
      | nil => simp at hnext'
      | cons y xs =>
        obtain rfl : 2 = y := by simpa using hnext'
        have hle := (List.pairwise_cons.1 hs.ordered).1 2 List.mem_cons_self
        omega

/-- An event is added with a timeout of 100 ms, at 3.95 s. -/
def armOne : List FdeventCall :=
  [.new 1 evRead, .set 1 (.fd 5) ⟨0, 0⟩, .set 1 (.timeout 100) ⟨0, 0⟩, .add 1 ⟨3, 950000⟩]

theorem armOne_meets : Runs.Along fdeventStep Meets armOne smallSource := by
  refine .cons (fun _ => ⟨by decide, rfl⟩) rfl ?_
  refine .cons ⟨_, rfl, fun fd _ h => absurd h (by decide), fun ms h => by cases h⟩ rfl ?_
  refine .cons ⟨_, rfl, fun fd h => (by cases h), fun ms _ h => absurd h (by decide)⟩ rfl ?_
  refine .cons ⟨_, rfl, fun _ _ _ _ xs hxs => ?_⟩ rfl trivial
  -- the list is empty
  cases xs with
  | nil => simp [Lands]
  | cons x xs => exact absurd (Option.some_inj.1 hxs.next_head) (by simp)

theorem fdevent_represents_one :
    Res.Safe (fun s => ∃ xs, s.Represents xs) (Runs.run fdeventStep armOne smallSource) :=
  fdevent_represents 9 4 (fun _ => ⟨0, 0, 0⟩) (fun _ => 0) armOne_meets

end FdeventSource

end Utils
