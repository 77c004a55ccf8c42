import GoipRemote.Lib.Chain
import GoipRemote.Lib.Runs
import GoipRemote.Utils.Timer

/-!
# The queue (`utils/dataqueue.c`)

The nodes between `first` and `last` hold the data. A node that was freed is no longer in `nodes`, and
following a pointer to it is a `fault`, as is a loop that does not end. `n` is an `int`.

A queue holds a list (`Holds`). `dataqueue_fifo_iff`: each call of a run does what it does on a FIFO list,
exactly if `dataqueue_empty`, which leaves `last` as it was, finds nothing to free and the length is an `int`.
-/

namespace Utils

open Function Heap

/-- `struct dataqueue_iterator`. -/
structure DataqueueIterator where
  data : Ptr
  next : Ptr
  deriving DecidableEq, Repr

/-- `struct dataqueue`, and the nodes that are allocated. `created` counts the allocations: it bounds the
loops. -/
structure Dataqueue where
  n : Int
  first : Ptr
  last : Ptr
  nodes : Ptr → Option DataqueueIterator
  created : Nat

namespace Dataqueue

/-- `dataqueue_init`. -/
def init : Dataqueue := ⟨0, 0, 0, fun _ => none, 0⟩

/-- `*it = d`. -/
def setNode (s : Dataqueue) (it : Ptr) (d : DataqueueIterator) : Dataqueue :=
  { s with nodes := update s.nodes it (some d) }

end Dataqueue

/-- `free_dataqueue_iterator`. -/
def freeDataqueueIterator (s : Dataqueue) (it : Ptr) : Res Dataqueue := do
  let _ ← Res.deref s.nodes it
  return { s with nodes := update s.nodes it none }

/-- `dataqueue_size`. -/
def dataqueueSize (s : Dataqueue) : Int := s.n

/-- The part of `dataqueue_append` that links the new node in. -/
def linkIterator (s : Dataqueue) (it : Ptr) : Res Dataqueue :=
  if s.last = 0 then .ok { s with first := it, last := it }
  else do
    let d ← Res.deref s.nodes s.last
    return { s.setNode s.last { d with next := it } with last := it }

/-- `dataqueue_append`, with `it` the address that `malloc` answers. -/
def dataqueueAppend (s : Dataqueue) (data it : Ptr) : Res (Dataqueue × Int) :=
  if it = 0 ∨ (s.nodes it).isSome then .exit
  else do
    let s ← linkIterator { s.setNode it ⟨data, 0⟩ with created := s.created + 1 } it
    return ({ s with n := toInt (s.n + 1) }, 0)

/-- The part that `dataqueue_next` and `dataqueue_getnext` share: the data of the first node, which is
taken out. -/
def takeFirst (s : Dataqueue) : Res (Dataqueue × Option Ptr) :=
  if s.n > 0 then
    if s.first = 0 then .ok (s, none)
    else do
      let it ← Res.deref s.nodes s.first
      let s' := if s.first = s.last then { s with first := 0, last := 0 } else { s with first := it.next }
      let s' ← freeDataqueueIterator s' s.first
      return ({ s' with n := toInt (s'.n - 1) }, some it.data)
  else .ok (s, none)

/-- `dataqueue_next`: its result, and `*pdata` if that is `0`. -/
def dataqueueNext (s : Dataqueue) : Res (Dataqueue × Int × Option Ptr) := do
  let (s, data) ← takeFirst s
  return (s, if data.isSome then 0 else -1, data)

/-- `dataqueue_getnext`. -/
def dataqueueGetnext (s : Dataqueue) : Res (Dataqueue × Ptr) := do
  let (s, data) ← takeFirst s
  return (s, data.getD 0)

/-- `dataqueue_peek`: its result, and `*pdata` if that is `0`. -/
def dataqueuePeek (s : Dataqueue) : Res (Int × Option Ptr) :=
  if s.n > 0 then
    if s.first = 0 then .ok (-1, none)
    else do
      let it ← Res.deref s.nodes s.first
      return (0, some it.data)
  else .ok (-1, none)

/-- The loop of `dataqueue_empty`. -/
def dataqueueEmptyLoop : Nat → Ptr → Dataqueue → Res Dataqueue
  | 0, _, _ => .fault
  | fuel + 1, it, s =>
    if it = 0 then .ok s
    else do
      let d ← Res.deref s.nodes it
      let s ← freeDataqueueIterator s it
      dataqueueEmptyLoop fuel d.next { s with n := toInt (s.n - 1) }

/-- `dataqueue_empty`. -/
def dataqueueEmpty (s : Dataqueue) : Res (Dataqueue × Int) :=
  if s.n > 0 then
    if s.first = 0 then .ok (s, 0)
    else do
      let s ← dataqueueEmptyLoop (s.created + 1) s.first s
      return ({ s with first := 0 }, 0)
  else .ok ({ s with first := 0 }, 0)

/-- What `dataqueue_remove` does about the node `it` that holds the data, with `tmp` the one before. -/
def unlinkIterator (s : Dataqueue) (it tmp : Ptr) (d : DataqueueIterator) : Res Dataqueue :=
  if it = s.first then
    if s.first = s.last then .ok { s with first := 0, last := 0 }
    else .ok { s with first := d.next }
  else if it = s.last then do
    let t ← Res.deref s.nodes tmp
    return { s.setNode tmp { t with next := 0 } with last := tmp }
  else do
    let t ← Res.deref s.nodes tmp
    return s.setNode tmp { t with next := d.next }

/-- The loop of `dataqueue_remove`. -/
def dataqueueRemoveLoop (data : Ptr) : Nat → Ptr → Ptr → Dataqueue → Res (Dataqueue × Int)
  | 0, _, _, _ => .fault
  | fuel + 1, it, tmp, s =>
    if it = 0 then .ok (s, -1)
    else do
      let d ← Res.deref s.nodes it
      if d.data = data then do
        let s ← unlinkIterator s it tmp d
        let s ← freeDataqueueIterator s it
        return ({ s with n := toInt (s.n - 1) }, 0)
      else dataqueueRemoveLoop data fuel d.next it s

/-- `dataqueue_remove`. -/
def dataqueueRemove (s : Dataqueue) (data : Ptr) : Res (Dataqueue × Int) :=
  if s.n ≤ 0 then .ok (s, -1) else dataqueueRemoveLoop data (s.created + 1) s.first s.first s

/-! ## Calls -/

/-- A call on a queue; an append has the address that `malloc` answers. -/
inductive QueueOp where
  | append (data it : Ptr)
  | next
  | getnext
  | peek
  | remove (data : Ptr)
  | empty
  deriving DecidableEq, Repr

/-- What a call answers: its result, with the data that it hands out. -/
inductive QueueRet where
  | status (status : Int)
  | data (status : Int) (data : Option Ptr)
  | ptr (data : Ptr)
  deriving DecidableEq, Repr

/-- A call, and what it answers. -/
def Dataqueue.call (s : Dataqueue) : QueueOp → Res (Dataqueue × QueueRet)
  | .append data it => do
    let (s, r) ← dataqueueAppend s data it
    return (s, .status r)
  | .next => do
    let (s, r, data) ← dataqueueNext s
    return (s, .data r data)
  | .getnext => do
    let (s, data) ← dataqueueGetnext s
    return (s, .ptr data)
  | .peek => do
    let (r, data) ← dataqueuePeek s
    return (s, .data r data)
  | .remove data => do
    let (s, r) ← dataqueueRemove s data
    return (s, .status r)
  | .empty => do
    let (s, r) ← dataqueueEmpty s
    return (s, .status r)

/-- The same call on a FIFO list. -/
def fifoCall (l : List Ptr) : QueueOp → List Ptr × QueueRet
  | .append data _ => (l ++ [data], .status 0)
  | .next => (l.tail, .data (if l = [] then -1 else 0) l.head?)
  | .getnext => (l.tail, .ptr (l.headD 0))
  | .peek => (l, .data (if l = [] then -1 else 0) l.head?)
  | .remove data => (l.erase data, .status (if data ∈ l then 0 else -1))
  | .empty => ([], .status 0)

/-! ## The queue refines a list -/

namespace Dataqueue

/-- The nodes `cs` hold the list `l`, and `first` and `last` are their ends. -/
structure Ends (s : Dataqueue) (cs : List (Ptr × DataqueueIterator)) (l : List Ptr) : Prop where
  chain : Chain DataqueueIterator.next s.nodes s.first cs 0
  last : s.last = (addresses cs).getLastD 0
  data : cs.map (fun c => c.2.data) = l
  size : dataqueueSize s = l.length

/-- The queue holds the list. -/
def Holds (s : Dataqueue) (l : List Ptr) : Prop := ∃ cs, Ends s cs l

/-- What the calls keep of the nodes: their number is an `int`, and bounds the loops. -/
structure Nodes (s : Dataqueue) (cs : List (Ptr × DataqueueIterator)) (l : List Ptr) : Prop
    extends Ends s cs l where
  fits : l.length < 2 ^ 31
  created : cs.length ≤ s.created

/-- The invariant. -/
def Rep (s : Dataqueue) (l : List Ptr) : Prop := ∃ cs, Nodes s cs l

theorem Rep.holds {s : Dataqueue} {l : List Ptr} (h : s.Rep l) : s.Holds l :=
  h.imp fun _ h => h.toEnds

variable {s s' : Dataqueue} {cs : List (Ptr × DataqueueIterator)} {l : List Ptr}

theorem init_rep : Rep .init [] := ⟨[], ⟨rfl, rfl, rfl, rfl⟩, by decide, Nat.le_refl 0⟩

theorem Nodes.n (h : Nodes s cs l) : s.n = l.length := h.size

theorem Nodes.length_eq (h : Nodes s cs l) : cs.length = l.length := by
  rw [← h.data, List.length_map]

/-- Linking a node in that is at a new address. -/
theorem linkIterator_nodes (h : Nodes s cs l) {it : Ptr} (hne : it ≠ 0) (hfresh : s.nodes it = none)
    (data : Ptr) : ∃ s' cs', linkIterator { s.setNode it ⟨data, 0⟩ with created := s.created + 1 } it =
      .ok s' ∧ s'.n = s.n ∧ s'.created = s.created + 1 ∧
      Chain DataqueueIterator.next s'.nodes s'.first cs' 0 ∧ s'.last = (addresses cs').getLastD 0 ∧
      cs'.map (fun c => c.2.data) = l ++ [data] := by
  have hnot : it ∉ addresses cs := by
    intro hmem
    have hsome := (h.chain.mem_addresses hmem).2
    rw [hfresh] at hsome
    cases hsome
  unfold linkIterator
  rcases List.eq_nil_or_concat cs with rfl | ⟨ds, c, rfl⟩
  · have hlast : s.last = 0 := h.last
    refine ⟨_, [(it, ⟨data, 0⟩)], if_pos hlast, rfl, rfl, ⟨rfl, hne, update_self .., rfl⟩, rfl, ?_⟩
    rw [← h.data]
    rfl
  · rw [List.concat_eq_append] at h hnot
    have hlast : s.last = c.1 := by simpa using h.last
    obtain ⟨hc0, hc⟩ := h.chain.live c (by simp)
    have hcit : c.1 ≠ it := fun heq => hnot (by simp [heq])
    have hnd := h.chain.nodup
    rw [addresses_append] at hnd
    have hcds : c.1 ∉ addresses ds := fun hm => (List.nodup_append.1 hnd).2.2 c.1 hm c.1 (by simp) rfl
    let s₁ : Dataqueue := { s.setNode it ⟨data, 0⟩ with created := s.created + 1 }
    have hderef : Res.deref s₁.nodes c.1 = .ok c.2 :=
      Res.deref_of_some ((update_of_ne hcit _ _).trans hc)
    have hchain : Chain DataqueueIterator.next s₁.nodes s.first (ds ++ [c]) 0 := h.chain.update hnot _
    refine ⟨{ s₁.setNode s.last { c.2 with next := it } with last := it },
      ds ++ [(c.1, { c.2 with next := it })] ++ [(it, ⟨data, 0⟩)], ?_, rfl, rfl, ?_, ?_, ?_⟩
    · rw [← hlast] at hc0 hderef
      show (if s.last = 0 then _ else Res.deref s₁.nodes s.last >>= _) = _
      rw [if_neg hc0, hderef]
      rfl
    · show Chain _ (update s₁.nodes s.last _) _ _ _
      rw [hlast]
      refine chain_append.2 ⟨it, hchain.relink hcds { c.2 with next := it }, rfl, hne, ?_, rfl⟩
      show update s₁.nodes c.1 _ it = _
      rw [update_of_ne (Ne.symm hcit)]
      exact update_self ..
    · simp
    · simp [← h.data]

theorem dataqueueAppend_rep (h : Rep s l) (hfits : l.length + 1 < 2 ^ 31) (data : Ptr) {it : Ptr}
    (hne : it ≠ 0) (hfresh : s.nodes it = none) :
    ∃ s', dataqueueAppend s data it = .ok (s', 0) ∧ Rep s' (l ++ [data]) := by
  obtain ⟨cs, h⟩ := h
  obtain ⟨s', cs', hlink, hn, hcreated, hchain, hlast, hdata⟩ := linkIterator_nodes h hne hfresh data
  have hnot : ¬ (it = 0 ∨ (s.nodes it).isSome = true) := by simp [hne, hfresh]
  have hlen : cs'.length = l.length + 1 := by
    simpa using congrArg List.length hdata
  unfold dataqueueAppend
  rw [if_neg hnot, hlink]
  refine ⟨_, rfl, cs', ⟨hchain, hlast, hdata, ?_⟩, ?_, ?_⟩
  · show toInt (s'.n + 1) = _
    rw [hn, h.n, List.length_append, List.length_singleton, toInt_of_lt] <;> omega
  · rw [List.length_append]
    exact hfits
  · have := h.length_eq
    have := h.created
    show cs'.length ≤ s'.created
    omega

/-- One append too many: the length is no `int`. -/
theorem dataqueueAppend_overflow (h : Rep s l) (hfull : ¬ l.length + 1 < 2 ^ 31) {data it : Ptr} {r : Int}
    (hne : it ≠ 0) (hfresh : s.nodes it = none) (hrun : dataqueueAppend s data it = .ok (s', r)) :
    ¬ Holds s' (l ++ [data]) := by
  obtain ⟨cs, h⟩ := h
  obtain ⟨s₁, -, hlink, hn, -, -, -, -⟩ := linkIterator_nodes h hne hfresh data
  have hnot : ¬ (it = 0 ∨ (s.nodes it).isSome = true) := by simp [hne, hfresh]
  have hlen : l.length = 2 ^ 31 - 1 := by
    have := h.fits
    omega
  unfold dataqueueAppend at hrun
  rw [if_neg hnot, hlink] at hrun
  cases hrun
  intro hholds
  obtain ⟨_, hends⟩ := hholds
  have hsize : toInt (s₁.n + 1) = (l ++ [data]).length := hends.size
  rw [hn, h.n, List.length_append, List.length_singleton, hlen] at hsize
  revert hsize
  decide

/-- The head of the list, and what is left when its node is freed. -/
theorem Nodes.head {c : Ptr × DataqueueIterator} (h : Nodes s (c :: cs) l) :
    s.first = c.1 ∧ c.1 ≠ 0 ∧ s.nodes c.1 = some c.2 ∧ l = c.2.data :: cs.map (fun c => c.2.data) ∧
      c.1 ∉ addresses cs ∧ (s.first = s.last ↔ cs = []) := by
  obtain ⟨hfirst, hne, hc, _⟩ := h.chain
  have hnot : c.1 ∉ addresses cs := (List.nodup_cons.1 h.chain.nodup).1
  refine ⟨hfirst, hne, hc, h.data.symm, hnot, ?_⟩
  rw [hfirst, h.last]
  rcases List.eq_nil_or_concat cs with rfl | ⟨ds, d, rfl⟩
  · simp
  · have hd : c.1 ≠ d.1 := fun heq => hnot (by simp [heq])
    simp [List.getLast?_cons, hd]

/-- After unlinking, `s'` is `s` with the nodes `cs` left once `it` is freed. -/
structure Unlinked (s s' : Dataqueue) (it : Ptr) (cs : List (Ptr × DataqueueIterator)) : Prop where
  chain : Chain DataqueueIterator.next (update s'.nodes it none) s'.first cs 0
  last : s'.last = (addresses cs).getLastD 0
  live : (s'.nodes it).isSome = true
  n : s'.n = s.n
  created : s'.created = s.created

theorem Unlinked.rep {it : Ptr} {ds : List (Ptr × DataqueueIterator)} (hu : Unlinked s s' it ds)
    (h : Nodes s cs l) (hlen : cs.length = ds.length + 1) :
    ∃ s'', freeDataqueueIterator s' it = .ok s'' ∧
      Rep { s'' with n := toInt (s''.n - 1) } (ds.map fun c => c.2.data) := by
  obtain ⟨d, hd⟩ := Option.isSome_iff_exists.1 hu.live
  have hn := h.n
  have hfits := h.fits
  have hcreated := h.created
  rw [← h.length_eq, hlen] at hn hfits
  refine ⟨{ s' with nodes := update s'.nodes it none },
    by rw [freeDataqueueIterator, Res.deref_of_some hd]; rfl, ds, ⟨hu.chain, hu.last, rfl, ?_⟩, ?_, ?_⟩
  · show toInt (s'.n - 1) = _
    rw [hu.n, hn, List.length_map, toInt_of_lt] <;> omega
  · rw [List.length_map]
    omega
  · show ds.length ≤ s'.created
    rw [hu.created]
    omega

/-- Taking the first node out. -/
theorem Nodes.unlink_first {c : Ptr × DataqueueIterator} (h : Nodes s (c :: cs) l) :
    Unlinked s (if s.first = s.last then { s with first := 0, last := 0 }
      else { s with first := c.2.next }) c.1 cs := by
  obtain ⟨-, -, hc, -, hnot, hlast⟩ := h.head
  have hchain := h.chain.2.2.2.update hnot none
  by_cases hcs : cs = []
  · subst hcs
    rw [if_pos (hlast.2 rfl)]
    exact ⟨rfl, rfl, by rw [hc]; rfl, rfl, rfl⟩
  · rw [if_neg fun heq => hcs (hlast.1 heq)]
    refine ⟨hchain, ?_, by rw [hc]; rfl, rfl, rfl⟩
    show s.last = _
    rw [h.last]
    rcases List.eq_nil_or_concat cs with rfl | ⟨ds, d, rfl⟩
    · exact absurd rfl hcs
    · simp [List.getLast?_cons]

theorem takeFirst_rep (h : Rep s l) : ∃ s', takeFirst s = .ok (s', l.head?) ∧ Rep s' l.tail := by
  obtain ⟨cs, h⟩ := h
  unfold takeFirst
  cases cs with
  | nil =>
    obtain rfl : l = [] := h.data.symm
    have hn : ¬ s.n > 0 := by rw [h.n]; decide
    exact ⟨s, if_neg hn, [], h⟩
  | cons c cs =>
    obtain ⟨hfirst, hne, hc, rfl, -, -⟩ := h.head
    have hn : s.n > 0 := by rw [h.n, List.length_cons]; omega
    obtain ⟨s'', hfree, hrep⟩ := h.unlink_first.rep h rfl
    rw [if_pos hn, if_neg (hfirst ▸ hne), hfirst, Res.deref_of_some hc]
    rw [hfirst] at hfree
    simp only [Res.ok_bind, hfree, Res.pure_eq]
    exact ⟨_, rfl, hrep⟩

/-- Taking out the node after `p`. -/
theorem Nodes.unlink_next {p c : Ptr × DataqueueIterator} {pre suf : List (Ptr × DataqueueIterator)}
    (h : Nodes s (pre ++ [p] ++ c :: suf) l) : ∃ s' p', p'.2.data = p.2.data ∧
      unlinkIterator s c.1 p.1 c.2 = .ok s' ∧ Unlinked s s' c.1 (pre ++ [p'] ++ suf) := by
  have hnd := h.chain.nodup
  simp only [addresses_append, addresses_cons, addresses_nil] at hnd
  have hp : p.1 ∉ addresses pre ∧ p.1 ∉ addresses suf ∧ p.1 ≠ c.1 := by grind
  have hc : c.1 ∉ addresses (pre ++ [(p.1, { p.2 with next := c.2.next })]) ∧ c.1 ∉ addresses suf := by
    simp only [addresses_append, addresses_cons, addresses_nil]
    grind
  have hplive := (h.chain.live p (by simp)).2
  have hclive := (h.chain.live c (by simp)).2
  have hfirst : c.1 ≠ s.first := by
    cases pre with
    | nil => rw [h.chain.1]; exact Ne.symm hp.2.2
    | cons a pre =>
      rw [h.chain.1]
      intro heq
      exact hc.1 (by simp [heq])
  obtain ⟨m, hpre, hsuf⟩ := chain_append.1 h.chain
  obtain ⟨-, -, -, hsuf⟩ := hsuf
  let p' : Ptr × DataqueueIterator := (p.1, { p.2 with next := c.2.next })
  -- both branches store the same link: behind the last node it is the null pointer
  have hchain : Chain DataqueueIterator.next (update (update s.nodes p.1 (some p'.2)) c.1 none) s.first
      (pre ++ [p'] ++ suf) 0 :=
    chain_append.2 ⟨_, (hpre.relink hp.1 p'.2).update hc.1 none, (hsuf.update hp.2.1 _).update hc.2 none⟩
  have hlive : (update s.nodes p.1 (some p'.2) c.1).isSome = true := by
    rw [update_of_ne (Ne.symm hp.2.2), hclive]
    rfl
  have hlast := h.last
  unfold unlinkIterator
  rw [if_neg hfirst, Res.deref_of_some hplive]
  by_cases hsuf0 : suf = []
  · subst hsuf0
    have hnext : c.2.next = 0 := hsuf
    have heq : c.1 = s.last := by simpa using hlast.symm
    rw [if_pos heq]
    refine ⟨{ s.setNode p.1 { p.2 with next := 0 } with last := p.1 }, p', rfl, rfl, ?_⟩
    rw [← hnext]
    exact ⟨hchain, by simp [p'], hlive, rfl, rfl⟩
  · obtain ⟨ds, d, rfl⟩ := (List.eq_nil_or_concat suf).resolve_left hsuf0
    have hlast' : s.last = d.1 := by simpa [List.getLast?_cons] using hlast
    have hne : c.1 ≠ s.last := fun heq => hc.2 (by simp [heq, hlast'])
    rw [if_neg hne]
    refine ⟨s.setNode p.1 p'.2, p', rfl, rfl, hchain, ?_, hlive, rfl, rfl⟩
    show s.last = _
    simp [hlast', List.getLast?_cons]

/-- The loop of `dataqueue_remove` behind the nodes `pre`, which do not hold the data. -/
theorem dataqueueRemoveLoop_rep {data : Ptr} {fuel : Nat} {it tmp : Ptr}
    {pre suf : List (Ptr × DataqueueIterator)}
    (h : Nodes s (pre ++ suf) l) (hfuel : suf.length < fuel) (hit : it = (addresses suf).headD 0)
    (htmp : tmp = (addresses pre).getLastD s.first) (hpre : data ∉ pre.map fun c => c.2.data) :
    ∃ s', dataqueueRemoveLoop data fuel it tmp s = .ok (s', if data ∈ l then 0 else -1) ∧
      Rep s' (l.erase data) := by
  induction suf generalizing fuel it tmp pre with
  | nil =>
    obtain ⟨fuel, rfl⟩ : ∃ k, fuel = k + 1 := ⟨fuel - 1, by simp at hfuel; omega⟩
    have hnot : data ∉ l := by
      rw [← h.data, List.append_nil]
      exact hpre
    rw [if_neg hnot, List.erase_of_not_mem hnot]
    exact ⟨s, if_pos hit, _, h⟩
  | cons c suf ih =>
    obtain ⟨fuel, rfl⟩ : ∃ k, fuel = k + 1 := ⟨fuel - 1, by simp at hfuel; omega⟩
    obtain rfl : it = c.1 := hit
    obtain ⟨hne, hc⟩ := h.chain.live c (by simp)
    rw [dataqueueRemoveLoop, if_neg hne, Res.deref_of_some hc, Res.ok_bind]
    by_cases hdata : c.2.data = data
    · have hmem : data ∈ l := by
        rw [← h.data]
        simp [hdata]
      have herase : l.erase data = (pre ++ suf).map fun c => c.2.data := by
        rw [← h.data, List.map_append, List.erase_append_right _ hpre, List.map_cons, hdata,
          List.erase_cons_head, List.map_append]
      rw [if_pos hdata, if_pos hmem, herase]
      rcases List.eq_nil_or_concat pre with rfl | ⟨ps, p, rfl⟩
      · obtain ⟨s', hfree, hrep⟩ := h.unlink_first.rep h rfl
        have hfirst : s.first = c.1 := h.chain.1
        have hunlink : unlinkIterator s c.1 tmp c.2 = .ok (if s.first = s.last
            then { s with first := 0, last := 0 } else { s with first := c.2.next }) := by
          unfold unlinkIterator
          rw [if_pos hfirst.symm]
          split <;> rfl
        rw [hunlink]
        simp only [Res.ok_bind, hfree, Res.pure_eq]
        exact ⟨_, rfl, hrep⟩
      · rw [List.concat_eq_append] at h htmp ⊢
        obtain rfl : tmp = p.1 := by simpa using htmp
        obtain ⟨s', p', hp', hunlink, hu⟩ := h.unlink_next
        obtain ⟨s'', hfree, hrep⟩ := hu.rep h (by simp; omega)
        rw [hunlink]
        simp only [Res.ok_bind, hfree, Res.pure_eq]
        refine ⟨_, rfl, ?_⟩
        simpa [hp'] using hrep
    · rw [if_neg hdata]
      have hsplit : pre ++ c :: suf = pre ++ [c] ++ suf := by simp
      have hnext : c.2.next = (addresses suf).headD 0 := by
        obtain ⟨_, -, hc⟩ := chain_append.1 h.chain
        exact hc.2.2.2.eq_headD
      apply ih (hsplit ▸ h) (by simp at hfuel; omega) hnext (by simp)
      simp [Ne.symm hdata, hpre]

theorem dataqueueNext_rep (h : Rep s l) : ∃ s',
    dataqueueNext s = .ok (s', if l = [] then -1 else 0, l.head?) ∧ Rep s' l.tail := by
  obtain ⟨s', hrun, hrep⟩ := takeFirst_rep h
  refine ⟨s', ?_, hrep⟩
  rw [dataqueueNext, hrun]
  cases l <;> rfl

theorem dataqueueGetnext_rep (h : Rep s l) : ∃ s',
    dataqueueGetnext s = .ok (s', l.headD 0) ∧ Rep s' l.tail := by
  obtain ⟨s', hrun, hrep⟩ := takeFirst_rep h
  refine ⟨s', ?_, hrep⟩
  rw [dataqueueGetnext, hrun]
  cases l <;> rfl

theorem dataqueuePeek_rep (h : Rep s l) :
    dataqueuePeek s = .ok (if l = [] then -1 else 0, l.head?) := by
  obtain ⟨cs, h⟩ := h
  unfold dataqueuePeek
  cases cs with
  | nil =>
    obtain rfl : l = [] := h.data.symm
    have hn : ¬ s.n > 0 := by rw [h.n]; decide
    exact if_neg hn
  | cons c cs =>
    obtain ⟨hfirst, hne, hc, rfl, -, -⟩ := h.head
    have hn : s.n > 0 := by rw [h.n, List.length_cons]; omega
    rw [if_pos hn, if_neg (hfirst ▸ hne), hfirst, Res.deref_of_some hc]
    rfl

theorem dataqueueRemove_rep (h : Rep s l) (data : Ptr) : ∃ s',
    dataqueueRemove s data = .ok (s', if data ∈ l then 0 else -1) ∧ Rep s' (l.erase data) := by
  obtain ⟨cs, h⟩ := h
  unfold dataqueueRemove
  by_cases hn : s.n ≤ 0
  · have hl : l = [] := by
      have := h.n
      exact List.eq_nil_of_length_eq_zero (by omega)
    subst hl
    exact ⟨s, if_pos hn, cs, h⟩
  · rw [if_neg hn]
    have hnodes : Nodes s ([] ++ cs) l := h
    exact dataqueueRemoveLoop_rep hnodes (Nat.lt_succ_of_le h.created) h.chain.eq_headD rfl
      List.not_mem_nil

theorem dataqueueEmpty_nil (h : Rep s []) : ∃ s', dataqueueEmpty s = .ok (s', 0) ∧ Rep s' [] := by
  obtain ⟨cs, h⟩ := h
  obtain rfl : cs = [] := List.eq_nil_of_length_eq_zero h.length_eq
  have hn : ¬ s.n > 0 := by rw [h.n]; decide
  exact ⟨_, if_neg hn, [], ⟨rfl, h.last, rfl, h.n⟩, by decide, Nat.zero_le _⟩

theorem dataqueueEmptyLoop_last {fuel : Nat} {it : Ptr} (hrun : dataqueueEmptyLoop fuel it s = .ok s') :
    s'.last = s.last := by
  induction fuel generalizing it s with
  | zero => cases hrun
  | succ fuel ih =>
    rw [dataqueueEmptyLoop] at hrun
    split at hrun
    · cases hrun
      rfl
    · obtain ⟨d, -, hrun⟩ := Res.bind_eq_ok.1 hrun
      obtain ⟨s₁, hfree, hrun⟩ := Res.bind_eq_ok.1 hrun
      obtain ⟨_, -, hs₁⟩ := Res.bind_eq_ok.1 hfree
      cases hs₁
      have hlast := ih hrun
      exact hlast

/-- `last` still is the address of the last node, which was freed. -/
theorem dataqueueEmpty_last (h : Rep s l) (hne : l ≠ []) {r : Int} (hrun : dataqueueEmpty s = .ok (s', r)) :
    ¬ Holds s' [] := by
  obtain ⟨cs, h⟩ := h
  cases cs with
  | nil => exact absurd h.data.symm hne
  | cons c cs =>
    obtain ⟨hfirst, hc, -, rfl, -, -⟩ := h.head
    have hn : s.n > 0 := by rw [h.n, List.length_cons]; omega
    unfold dataqueueEmpty at hrun
    rw [if_pos hn, if_neg (hfirst ▸ hc)] at hrun
    obtain ⟨s₁, hloop, hs₁⟩ := Res.bind_eq_ok.1 hrun
    cases hs₁
    intro hholds
    obtain ⟨ds, hends⟩ := hholds
    obtain rfl : ds = [] := List.map_eq_nil_iff.1 hends.data
    have hlast : s₁.last = 0 := hends.last
    rw [dataqueueEmptyLoop_last hloop, h.last] at hlast
    -- the last address of a chain is no null pointer
    rcases List.eq_nil_or_concat (c :: cs) with hnil | ⟨ds, d, hds⟩
    · cases hnil
    · have hd := (h.chain.live d (by simp [hds])).1
      rw [hds] at hlast
      simp at hlast
      exact hd hlast

end Dataqueue

/-! ## Sequences of calls -/

/-- The queue, and the list that it should hold, after a call. -/
def QueueOp.step (p : Dataqueue × List Ptr) (op : QueueOp) : Res (Dataqueue × List Ptr) := do
  let (s, _) ← p.1.call op
  return (s, (fifoCall p.2 op).1)

/-- The call answers what it answers on the list, and leaves the queue of that list. -/
def QueueOp.Refines (p : Dataqueue × List Ptr) (op : QueueOp) : Prop :=
  ∃ s, p.1.call op = .ok (s, (fifoCall p.2 op).2) ∧ s.Holds (fifoCall p.2 op).1

/-- What `malloc` answers is a new node. -/
def QueueOp.Fresh (s : Dataqueue) : QueueOp → Prop
  | .append _ it => it ≠ 0 ∧ s.nodes it = none
  | _ => True

/-- What an append adds to is shorter than the longest `int`, and what `dataqueue_empty` empties is empty. -/
def QueueOp.Fits (l : List Ptr) : QueueOp → Prop
  | .append _ _ => l.length + 1 < 2 ^ 31
  | .empty => l = []
  | _ => True

section
variable {s : Dataqueue} {l : List Ptr} {op : QueueOp}

/-- **Step lemma.** -/
theorem QueueOp.call_rep (h : s.Rep l) (hfresh : op.Fresh s) (hop : op.Fits l) :
    ∃ s', s.call op = .ok (s', (fifoCall l op).2) ∧ s'.Rep (fifoCall l op).1 := by
  cases op with
  | append data it =>
    obtain ⟨s', hrun, hrep⟩ := Dataqueue.dataqueueAppend_rep h hop data hfresh.1 hfresh.2
    exact ⟨s', by rw [Dataqueue.call, hrun]; rfl, hrep⟩
  | next =>
    obtain ⟨s', hrun, hrep⟩ := Dataqueue.dataqueueNext_rep h
    exact ⟨s', by rw [Dataqueue.call, hrun]; rfl, hrep⟩
  | getnext =>
    obtain ⟨s', hrun, hrep⟩ := Dataqueue.dataqueueGetnext_rep h
    exact ⟨s', by rw [Dataqueue.call, hrun]; rfl, hrep⟩
  | peek => exact ⟨s, by rw [Dataqueue.call, Dataqueue.dataqueuePeek_rep h]; rfl, h⟩
  | remove data =>
    obtain ⟨s', hrun, hrep⟩ := Dataqueue.dataqueueRemove_rep h data
    exact ⟨s', by rw [Dataqueue.call, hrun]; rfl, hrep⟩
  | empty =>
    obtain rfl : l = [] := hop
    obtain ⟨s', hrun, hrep⟩ := Dataqueue.dataqueueEmpty_nil h
    exact ⟨s', by rw [Dataqueue.call, hrun]; rfl, hrep⟩

/-- No other call does what it does on the list. -/
theorem QueueOp.fits_of_refines (h : s.Rep l) (hfresh : op.Fresh s) (hop : op.Refines (s, l)) :
    op.Fits l := by
  obtain ⟨s', hrun, hholds⟩ := hop
  cases op with
  | append data it =>
    by_contra hfull
    obtain ⟨⟨s₁, r⟩, happend, heq⟩ := Res.bind_eq_ok.1 hrun
    cases heq
    exact Dataqueue.dataqueueAppend_overflow h hfull hfresh.1 hfresh.2 happend hholds
  | empty =>
    by_contra hne
    obtain ⟨⟨s₁, r⟩, hempty, heq⟩ := Res.bind_eq_ok.1 hrun
    cases heq
    exact Dataqueue.dataqueueEmpty_last h hne hempty hholds
  | _ => trivial

theorem queueRun_refines (h : s.Rep l) {ops : List QueueOp}
    (hfresh : Runs.Along QueueOp.step (fun p op => op.Fresh p.1) ops (s, l)) :
    Runs.Along QueueOp.step QueueOp.Refines ops (s, l) ↔
      Runs.Along (fun l op => .ok (fifoCall l op).1) QueueOp.Fits ops l := by
  induction ops generalizing s l with
  | nil => exact Iff.rfl
  | cons op ops ih =>
    obtain ⟨hop, hfresh⟩ := hfresh
    have hstep : ∀ s', s.call op = .ok (s', (fifoCall l op).2) →
        QueueOp.step (s, l) op = .ok (s', (fifoCall l op).1) := fun s' hrun => by
      rw [QueueOp.step, hrun]
      rfl
    refine ⟨?_, ?_⟩
    · intro hrefines
      have hfits := QueueOp.fits_of_refines h hop hrefines.1
      obtain ⟨s', hrun, hrep⟩ := QueueOp.call_rep h hop hfits
      have hrest := (ih hrep (hfresh _ (hstep s' hrun))).1 (hrefines.2 _ (hstep s' hrun))
      exact ⟨hfits, fun l' hl' => Res.ok.inj hl' ▸ hrest⟩
    · intro hfits
      obtain ⟨s', hrun, hrep⟩ := QueueOp.call_rep h hop hfits.1
      have hrest := (ih hrep (hfresh _ (hstep s' hrun))).2 (hfits.2 _ rfl)
      exact ⟨⟨s', hrun, hrep.holds⟩, fun p hp => Res.ok.inj ((hstep s' hrun).symm.trans hp) ▸ hrest⟩

end

/-- **`utils/dataqueue.c`.** From an initialised queue each call of a sequence does what it does on a FIFO
list, when `dataqueue_empty` is called on an empty queue only and the length stays an `int`; otherwise one
does not. -/
theorem dataqueue_fifo_iff {ops : List QueueOp}
    (hfresh : Runs.Along QueueOp.step (fun p op => op.Fresh p.1) ops (.init, [])) :
    Runs.Along QueueOp.step QueueOp.Refines ops (.init, []) ↔
      Runs.Along (fun l op => .ok (fifoCall l op).1) QueueOp.Fits ops [] :=
  queueRun_refines Dataqueue.init_rep hfresh

theorem dataqueue_fifo_iff_remove :
    Runs.Along QueueOp.step QueueOp.Refines [.append 7 1, .append 8 2, .remove 8, .next] (.init, []) ↔
      Runs.Along (fun l op => .ok (fifoCall l op).1) QueueOp.Fits
        [.append 7 1, .append 8 2, .remove 8, .next] [] := by
  refine dataqueue_fifo_iff ⟨⟨by decide, rfl⟩, fun p hp => ?_⟩
  cases hp
  refine ⟨⟨by decide, rfl⟩, fun p hp => ?_⟩
  cases hp
  exact ⟨trivial, fun p _ => ⟨trivial, fun _ _ => trivial⟩⟩

/-- After `dataqueue_empty` an append follows `last` to the node that was freed. -/
theorem dataqueue_empty_append :
    (do let (s, _) ← Dataqueue.init.call (.append 7 1)
        let (s, _) ← s.call .empty
        s.call (.append 8 2)) = .fault ∧
      ¬ Runs.Along QueueOp.step QueueOp.Refines [.append 7 1, .empty, .append 8 2] (.init, []) := by
  refine ⟨rfl, fun h => ?_⟩
  obtain ⟨-, h⟩ := h
  obtain ⟨-, h⟩ := h _ rfl
  obtain ⟨⟨s, hrun, -⟩, -⟩ := h _ rfl
  cases hrun

end Utils
