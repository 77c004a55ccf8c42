import GoipRemote.Lib.LinkedList

/-!
# Linked nodes that may be freed

A heap gives the node at an address, if one is allocated there, and `link` is the link field of a node.
`Chain link heap p cs q`: from `p` the links visit the nodes `cs`, each at its address and allocated, and
then stand at `q`. A list is a chain to the null pointer: it visits no address twice (`Chain.nodup`).
`Chain.update` is a store or a `free` elsewhere, `Chain.relink` a store to the last node of a chain.
-/

namespace Heap

open Function

variable {N : Type} {link : N → Ptr} {heap heap' : Ptr → Option N} {p q : Ptr} {c : Ptr × N}
  {cs ds : List (Ptr × N)}

/-- From `p` the links visit the nodes `cs` and then stand at `q`. -/
def Chain (link : N → Ptr) (heap : Ptr → Option N) : Ptr → List (Ptr × N) → Ptr → Prop
  | p, [], q => p = q
  | p, c :: cs, q => p = c.1 ∧ c.1 ≠ 0 ∧ heap c.1 = some c.2 ∧ Chain link heap (link c.2) cs q

/-- The addresses of some nodes. -/
def addresses (cs : List (Ptr × N)) : List Ptr := cs.map Prod.fst

@[simp] theorem addresses_append (cs ds : List (Ptr × N)) :
    addresses (cs ++ ds) = addresses cs ++ addresses ds := List.map_append

@[simp] theorem addresses_cons (c : Ptr × N) (cs : List (Ptr × N)) :
    addresses (c :: cs) = c.1 :: addresses cs := rfl

@[simp] theorem addresses_nil : addresses ([] : List (Ptr × N)) = [] := rfl

theorem chain_nil : Chain link heap p [] q ↔ p = q := Iff.rfl

theorem chain_cons : Chain link heap p (c :: cs) q ↔
    p = c.1 ∧ c.1 ≠ 0 ∧ heap c.1 = some c.2 ∧ Chain link heap (link c.2) cs q := Iff.rfl

theorem chain_append : Chain link heap p (cs ++ ds) q ↔
    ∃ m, Chain link heap p cs m ∧ Chain link heap m ds q := by
  induction cs generalizing p with
  | nil => simp [chain_nil]
  | cons c cs ih =>
    simp only [List.cons_append, chain_cons, ih]
    tauto

theorem Chain.congr (h : Chain link heap p cs q) (heq : ∀ x ∈ addresses cs, heap' x = heap x) :
    Chain link heap' p cs q := by
  induction cs generalizing p with
  | nil => exact h
  | cons c cs ih =>
    obtain ⟨hp, hne, hc, h⟩ := h
    exact ⟨hp, hne, (heq c.1 List.mem_cons_self).trans hc, ih h fun x hx => heq x (List.mem_cons_of_mem _ hx)⟩

/-- A store or a `free` at another address. -/
theorem Chain.update (h : Chain link heap p cs q) {a : Ptr} (ha : a ∉ addresses cs) (v : Option N) :
    Chain link (update heap a v) p cs q :=
  h.congr fun _ hx => update_of_ne (ne_of_mem_of_not_mem hx ha) _ _

theorem Chain.live (h : Chain link heap p cs q) : ∀ c ∈ cs, c.1 ≠ 0 ∧ heap c.1 = some c.2 := by
  induction cs generalizing p with
  | nil => exact fun c hc => nomatch hc
  | cons d cs ih =>
    obtain ⟨-, hne, hd, h⟩ := h
    intro c hc
    cases List.mem_cons.1 hc with
    | inl hc => exact hc ▸ ⟨hne, hd⟩
    | inr hc => exact ih h c hc

theorem Chain.mem_addresses (h : Chain link heap p cs q) {x : Ptr} (hx : x ∈ addresses cs) :
    x ≠ 0 ∧ (heap x).isSome = true := by
  obtain ⟨c, hc, rfl⟩ := List.mem_map.1 hx
  obtain ⟨hne, hlive⟩ := h.live c hc
  exact ⟨hne, by rw [hlive]; rfl⟩

@[simp] theorem chain_zero : Chain link heap 0 cs 0 ↔ cs = [] := by
  cases cs with
  | nil => simp [chain_nil]
  | cons c cs => simp only [chain_cons, reduceCtorEq, iff_false]; exact fun h => h.2.1 h.1.symm

theorem Chain.eq_zero_iff (h : Chain link heap p cs 0) : p = 0 ↔ cs = [] := by
  refine ⟨?_, ?_⟩
  · intro hp
    subst hp
    exact chain_zero.1 h
  · intro hcs
    subst hcs
    exact h

theorem Chain.eq_headD (h : Chain link heap p cs 0) : p = (addresses cs).headD 0 := by
  cases cs with
  | nil => exact h
  | cons c cs => exact h.1

/-- The nodes of a list are determined by its head. -/
theorem Chain.unique (h : Chain link heap p cs 0) (h' : Chain link heap p ds 0) : cs = ds := by
  induction cs generalizing p ds with
  | nil =>
    obtain rfl : p = 0 := h
    exact (chain_zero.1 h').symm
  | cons c cs ih =>
    obtain ⟨rfl, hne, hc, h⟩ := h
    cases ds with
    | nil => exact absurd h' hne
    | cons d ds =>
      obtain ⟨hcd, -, hd, h'⟩ := h'
      obtain rfl : c = d := Prod.ext hcd (Option.some.inj (hc.symm.trans (hcd ▸ hd)))
      rw [ih h h']

/-- A list visits no address twice. -/
theorem Chain.nodup (h : Chain link heap p cs 0) : (addresses cs).Nodup := by
  induction cs generalizing p with
  | nil => exact List.nodup_nil
  | cons c cs ih =>
    have hcons := h
    obtain ⟨rfl, hne, hc, h⟩ := h
    refine List.nodup_cons.2 ⟨fun hmem => ?_, ih h⟩
    -- the node heads both its list and the list of its later occurrence, which is shorter
    obtain ⟨d, hd, hdc⟩ := List.mem_map.1 hmem
    obtain ⟨pre, suf, rfl⟩ := List.append_of_mem hd
    obtain ⟨m, -, hm⟩ := chain_append.1 h
    have hlen := congrArg List.length (hcons.unique (hdc ▸ hm.1 ▸ hm : Chain link heap c.1 (d :: suf) 0))
    simp only [List.length_cons, List.length_append] at hlen
    omega

/-- A store to the last node of a chain. -/
theorem Chain.relink (h : Chain link heap p (cs ++ [c]) q) (hc : c.1 ∉ addresses cs) (n : N) :
    Chain link (Function.update heap c.1 (some n)) p (cs ++ [(c.1, n)]) (link n) := by
  obtain ⟨m, h, hm⟩ := chain_append.1 h
  obtain ⟨rfl, hne, -, -⟩ := hm
  exact chain_append.2 ⟨_, h.update hc _, rfl, hne, update_self .., rfl⟩

end Heap
