import Mathlib.Tactic

/-!
# Trees of names

A node holds data, and its children by name; of two children with one name the first is meant. Such a tree
is a map from paths to data (`get`), and `get_modify` says that a change along a path, which makes the
nodes that are missing on it, is a change of the map at that path alone.
-/

/-- A tree, with names in `κ` and data in `α`. -/
inductive NameTree (κ α : Type) where
  | node (data : α) (children : List (κ × NameTree κ α))

namespace NameTree

variable {κ α : Type} [DecidableEq κ]

/-- The data of the root. -/
def data : NameTree κ α → α
  | node data _ => data

def children : NameTree κ α → List (κ × NameTree κ α)
  | node _ children => children

omit [DecidableEq κ] in
@[simp] theorem children_node (a : α) (cs : List (κ × NameTree κ α)) : (node a cs).children = cs := rfl

/-- The child of a name. -/
def lookup (k : κ) (cs : List (κ × NameTree κ α)) : Option (NameTree κ α) :=
  (cs.find? fun c => c.1 = k).map Prod.snd

/-- The node at a path. -/
def find : List κ → NameTree κ α → Option (NameTree κ α)
  | [], t => some t
  | k :: ks, t =>
    match lookup k t.children with
    | none => none
    | some child => find ks child

/-- The children after a change of the one of a name, if there is one. -/
def changeFirst (k : κ) (f : NameTree κ α → NameTree κ α) :
    List (κ × NameTree κ α) → List (κ × NameTree κ α)
  | [] => []
  | c :: cs => if c.1 = k then (c.1, f c.2) :: cs else c :: changeFirst k f cs

/-- A change of the data at a path; a node that is missing has the data `new` first, and comes before its
siblings. -/
def modify (new : α) (f : α → α) : List κ → NameTree κ α → NameTree κ α
  | [], t => node (f t.data) t.children
  | k :: ks, t =>
    if (lookup k t.children).isSome then node t.data (changeFirst k (modify new f ks) t.children)
    else node t.data ((k, modify new f ks (node new [])) :: t.children)

/-- The data at a path, with `new` for a node that is missing. -/
def get (new : α) (ks : List κ) (t : NameTree κ α) : α := ((t.find ks).map data).getD new

/-! ## Children -/

theorem lookup_changeFirst (k k' : κ) (f : NameTree κ α → NameTree κ α) (cs : List (κ × NameTree κ α)) :
    lookup k' (changeFirst k f cs) = if k' = k then (lookup k' cs).map f else lookup k' cs := by
  induction cs with
  | nil => simp [changeFirst, lookup]
  | cons c cs ih =>
    unfold lookup at ih ⊢
    unfold changeFirst
    by_cases hc : c.1 = k
    · subst hc
      by_cases hk : k' = c.1
      · subst hk
        simp
      · simp [hk, Ne.symm hk]
    · rw [if_neg hc]
      by_cases hk : c.1 = k'
      · subst hk
        simp [hc]
      · simp [hk, ih]

theorem lookup_cons (k k' : κ) (t : NameTree κ α) (cs : List (κ × NameTree κ α)) :
    lookup k' ((k, t) :: cs) = if k = k' then some t else lookup k' cs := by
  unfold lookup
  rw [List.find?_cons]
  by_cases hk : k = k'
  · simp [hk]
  · simp [hk]

/-! ## Paths -/

theorem get_cons (new : α) (k : κ) (ks : List κ) (t : NameTree κ α) :
    get new (k :: ks) t = ((lookup k t.children).map (get new ks)).getD new := by
  unfold get
  rw [find]
  cases lookup k t.children with
  | none => rfl
  | some child => rfl

theorem get_empty (new : α) (ks : List κ) : get new ks (node new []) = new := by
  cases ks with
  | nil => rfl
  | cons k ks => rfl

/-- **A change** of the tree is a change of the map, at the path alone. -/
theorem get_modify (new : α) (f : α → α) (ks ks' : List κ) (t : NameTree κ α) :
    get new ks' (modify new f ks t) = if ks' = ks then f (get new ks' t) else get new ks' t := by
  induction ks generalizing ks' t with
  | nil =>
    cases ks' with
    | nil => rfl
    | cons k' ks' =>
      rw [if_neg (by simp), get_cons, get_cons]
      rfl
  | cons k ks ih =>
    cases ks' with
    | nil =>
      rw [if_neg (by simp), modify]
      split <;> rfl
    | cons k' ks' =>
      rw [get_cons, get_cons, modify]
      by_cases hk : k' = k
      · subst hk
        cases hchild : lookup k' t.children with
        | none => simp [lookup_cons, ih, get_empty]
        | some child => simp [lookup_changeFirst, hchild, ih]
      · have hpath : ¬ (k' :: ks' = k :: ks) := fun h => hk (List.cons.inj h).1
        rw [if_neg hpath]
        split
        · simp [lookup_changeFirst, hk]
        · simp [lookup_cons, Ne.symm hk]

end NameTree
