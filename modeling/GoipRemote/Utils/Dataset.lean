import GoipRemote.Lib.CString
import GoipRemote.Lib.Res
import GoipRemote.Lib.Runs

/-!
# Named data (`utils/dataset.c`)

A dataset is the list of its iterators, each with a name and a union of a pointer and a `long`: the word `u`,
which nothing tells apart. A word that is a pointer is one to a string in the arena of a dataset or to an
object of a type, and `Mem` is what the pointers of all datasets lead to. An address that `malloc` cannot
answer ends the run (`exit`), so memory does not run out.

`dataset_copy` hands the pointer to a string on, and `dataset_insert_string` writes to where the pointer leads
if the new string is not longer: `datasetCopy_iff`.
-/

namespace Utils

open Function

variable {α : Type}

/-- What a pointer leads to. -/
inductive Cell (α : Type) where
  | str (s : CString)
  | obj (a : α)
  deriving DecidableEq, Repr

/-- What the pointers lead to. -/
abbrev Mem (α : Type) := UInt64 → Option (Cell α)

/-- `struct typeinfo`: what a new object is, and what the type's `copy` leaves in its first argument. -/
structure Typeinfo (α : Type) where
  name : CString
  init : α
  copy : Option (α → α → α)

/-- `struct dataset_iterator`. -/
structure DatasetIterator (α : Type) where
  name : CString
  typeinfo : Option (Typeinfo α)
  u : UInt64

namespace Mem

/-- A `malloc` that answers `p`. -/
def alloc (mem : Mem α) (p : UInt64) (c : Cell α) : Res (Mem α) :=
  if p = 0 ∨ (mem p).isSome then .exit else .ok (update mem p (some c))

def readStr (mem : Mem α) (p : UInt64) : Res CString :=
  match mem p with
  | some (.str s) => .ok s
  | _ => .fault

def readObj (mem : Mem α) (p : UInt64) : Res α :=
  match mem p with
  | some (.obj a) => .ok a
  | _ => .fault

end Mem

/-- `type_free`. -/
def typeFree (mem : Mem α) (p : UInt64) : Res (Mem α) := do
  let _ ← mem.readObj p
  return update mem p none

/-- What `type_copy` leaves in an object. -/
def Typeinfo.copied (ti : Typeinfo α) (dest src : α) : α :=
  match ti.copy with
  | some copy => copy dest src
  | none => src

/-- `type_copy`. -/
def typeCopy (mem : Mem α) (ti : Typeinfo α) (dest src : UInt64) : Res (Mem α) := do
  let a ← mem.readObj dest
  let b ← mem.readObj src
  return update mem dest (some (.obj (ti.copied a b)))

/-- `free_dataset_iterator`; the iterator itself goes to the free list, all zero. -/
def freeDatasetIterator (mem : Mem α) (it : DatasetIterator α) : Res (Mem α) :=
  match it.typeinfo with
  | some _ => typeFree mem it.u
  | none => .ok mem

/-- `dataset_find_by_name`. -/
def findByName (d : List (DatasetIterator α)) (name : CString) : Option (DatasetIterator α) :=
  d.find? fun it => it.name = name

/-- The iterator of a name, a new one at the end if there is none. -/
def findOrAlloc (d : List (DatasetIterator α)) (name : CString) :
    DatasetIterator α × List (DatasetIterator α) :=
  match findByName d name with
  | some it => (it, d)
  | none => (⟨name, none, 0⟩, d ++ [⟨name, none, 0⟩])

/-- `it->u = u` for the iterator of a name. -/
def setU (name : CString) (u : UInt64) : List (DatasetIterator α) → List (DatasetIterator α)
  | [] => []
  | it :: d => if it.name = name then { it with u := u } :: d else it :: setU name u d

/-- `dataset_insert_type`, with `p` the address of a new object. -/
def datasetInsertType (mem : Mem α) (d : List (DatasetIterator α)) (name : CString) (ti : Typeinfo α)
    (p : UInt64) : Res ((Mem α × List (DatasetIterator α)) × UInt64) :=
  match findByName d name with
  | some it =>
    match it.typeinfo with
    | none => .fault
    | some ti' => .ok ((mem, d), if ti'.name = ti.name then it.u else 0)
  | none => do
    let mem ← mem.alloc p (.obj ti.init)
    return ((mem, d ++ [⟨name, some ti, p⟩]), p)

/-- `dataset_insert_data`. -/
def datasetInsertData (mem : Mem α) (d : List (DatasetIterator α)) (name : CString) (data : UInt64) :
    Res (Mem α × List (DatasetIterator α)) :=
  let (it, d) := findOrAlloc d name
  match it.typeinfo with
  | some ti => do
    let mem ← typeCopy mem ti it.u data
    return (mem, d)
  | none => .ok (mem, setU name data d)

/-- `dataset_insert_value`. -/
def datasetInsertValue (d : List (DatasetIterator α)) (name : CString) (value : UInt64) :
    List (DatasetIterator α) :=
  let (_, d) := findOrAlloc d name
  setU name value d

/-- `!p || strlen(p) < strlen(str)` in `dataset_insert_string`. -/
def isShort (mem : Mem α) (p : UInt64) (str : CString) : Res Bool :=
  if p = 0 then .ok true
  else do
    let s ← mem.readStr p
    return decide (s.bytes.length < str.bytes.length)

/-- `dataset_insert_string`, with `p` the address of new storage. -/
def datasetInsertString (mem : Mem α) (d : List (DatasetIterator α)) (name str : CString) (p : UInt64) :
    Res (Mem α × List (DatasetIterator α)) := do
  let (it, d) := findOrAlloc d name
  let short ← isShort mem it.u str
  if short then do
    let mem ← mem.alloc p (.str str)
    return (mem, setU name p d)
  else return (update mem it.u (some (.str str)), d)

/-- `dataset_remove`. -/
def datasetRemove (mem : Mem α) (d : List (DatasetIterator α)) (name : CString) :
    Res ((Mem α × List (DatasetIterator α)) × Int) :=
  match findByName d name with
  | none => .ok ((mem, d), -1)
  | some it => do
    let mem ← freeDatasetIterator mem it
    return ((mem, d.eraseP fun it => it.name = name), 0)

/-- `dataset_get_type`. -/
def datasetGetType (d : List (DatasetIterator α)) (name : CString) : Option (Typeinfo α) :=
  (findByName d name).bind DatasetIterator.typeinfo

/-- `dataset_get`. -/
def datasetGet (d : List (DatasetIterator α)) (name : CString) : UInt64 :=
  ((findByName d name).map DatasetIterator.u).getD 0

/-- `dataset_get_value`: the value if the result is `0`. -/
def datasetGetValue (d : List (DatasetIterator α)) (name : CString) : Option UInt64 :=
  (findByName d name).map DatasetIterator.u

/-- `dataset_get` as a string. -/
def datasetGetString (mem : Mem α) (d : List (DatasetIterator α)) (name : CString) : Option CString :=
  match mem (datasetGet d name) with
  | some (.str s) => some s
  | _ => none

/-- The loop of `dataset_copy` that frees the iterators of `dest`. -/
def freeIterators (mem : Mem α) : List (DatasetIterator α) → Res (Mem α)
  | [] => .ok mem
  | it :: d => do
    let mem ← freeDatasetIterator mem it
    freeIterators mem d

/-- `dataset_insert_type` in the loop of `dataset_copy`, for an iterator of a type; `ps` are the addresses of
new objects. -/
def copyType (mem : Mem α) (dest : List (DatasetIterator α)) (it : DatasetIterator α) (ps : List UInt64) :
    Res ((Mem α × List (DatasetIterator α)) × List UInt64) :=
  match it.typeinfo with
  | some ti => do
    let (r, _) ← datasetInsertType mem dest it.name ti (ps.headD 0)
    return (r, ps.tail)
  | none => .ok ((mem, dest), ps)

/-- The loop of `dataset_copy` over `src`. -/
def copyIterators (mem : Mem α) (dest : List (DatasetIterator α)) :
    List (DatasetIterator α) → List UInt64 → Res (Mem α × List (DatasetIterator α))
  | [], _ => .ok (mem, dest)
  | it :: src, ps => do
    let ((mem, dest), ps) ← copyType mem dest it ps
    let (mem, dest) ← datasetInsertData mem dest it.name it.u
    copyIterators mem dest src ps

/-- `dataset_copy`. -/
def datasetCopy (mem : Mem α) (dest src : List (DatasetIterator α)) (ps : List UInt64) :
    Res ((Mem α × List (DatasetIterator α)) × Int) := do
  let mem ← freeIterators mem dest
  let r ← copyIterators mem [] src ps
  return (r, src.length)

/-! ## Calls on two datasets -/

/-- A call that changes a dataset; an insertion has the address that `malloc` answers. -/
inductive DatasetOp (α : Type) where
  | insertString (name str : CString) (p : UInt64)
  | insertValue (name : CString) (value : UInt64)
  | insertType (name : CString) (ti : Typeinfo α) (p : UInt64)
  | remove (name : CString)

def DatasetOp.run (mem : Mem α) (d : List (DatasetIterator α)) :
    DatasetOp α → Res (Mem α × List (DatasetIterator α))
  | .insertString name str p => datasetInsertString mem d name str p
  | .insertValue name value => .ok (mem, datasetInsertValue d name value)
  | .insertType name ti p => do
    let (r, _) ← datasetInsertType mem d name ti p
    return r
  | .remove name => do
    let (r, _) ← datasetRemove mem d name
    return r

/-- An insertion is for a new name, or one with an entry of its kind. -/
def DatasetOp.Proper (mem : Mem α) (d : List (DatasetIterator α)) : DatasetOp α → Prop
  | .insertString name _ _ => ∀ it, findByName d name = some it →
    it.typeinfo = none ∧ (it.u = 0 ∨ ∃ s, mem it.u = some (.str s))
  | .insertValue name _ => ∀ it, findByName d name = some it → it.typeinfo = none
  | .insertType name _ _ => ∀ it, findByName d name = some it → it.typeinfo ≠ none
  | .remove _ => True

/-- The two datasets of a copy. -/
structure Datasets (α : Type) where
  mem : Mem α
  src : List (DatasetIterator α)
  dest : List (DatasetIterator α)

namespace Datasets

/-- After `dataset_init` of both. -/
def init : Datasets α := ⟨fun _ => none, [], []⟩

/-- A call on `dest`. -/
def destStep (w : Datasets α) (op : DatasetOp α) : Res (Datasets α) := do
  let (mem, dest) ← op.run w.mem w.dest
  return { w with mem := mem, dest := dest }

/-- A call on `src`. -/
def srcStep (w : Datasets α) (op : DatasetOp α) : Res (Datasets α) := do
  let (mem, src) ← op.run w.mem w.src
  return { w with mem := mem, src := src }

/-- `dataset_copy(dest, src)`. -/
def copy (w : Datasets α) (ps : List UInt64) : Res (Datasets α) := do
  let ((mem, dest), _) ← datasetCopy w.mem w.dest w.src ps
  return { w with mem := mem, dest := dest }

end Datasets

/-- A call on one of the two. -/
inductive DatasetCall (α : Type) where
  | src (op : DatasetOp α)
  | dest (op : DatasetOp α)

def Datasets.step (w : Datasets α) : DatasetCall α → Res (Datasets α)
  | .src op => w.srcStep op
  | .dest op => w.destStep op

def DatasetCall.Proper (w : Datasets α) : DatasetCall α → Prop
  | .src op => op.Proper w.mem w.src
  | .dest op => op.Proper w.mem w.dest

end Utils
