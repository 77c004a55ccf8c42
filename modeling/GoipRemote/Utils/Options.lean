import GoipRemote.Lib.Buffer
import GoipRemote.Lib.Strtol

/-!
# Options (`app.c`)

An option that has been given is an entry of `app_optlist`, with its text or texts in `value` and its
numbers in `vector`. A repeatable option (`ARG_MULTI`) collects the elements of its arguments in an array
that ends in a NULL pointer, and integers also in one that begins with their count; both are allocated for
four cells and grow by four. `Malloc` is what the memory allocator answers: whether there is memory, and
what a new block holds.
-/

namespace Utils.Options

open Buffer Strtol CString

abbrev Text : Type := List UInt8

def ARG_NONE : UInt32 := 0x00

def ARG_STRING : UInt32 := 0x01

def ARG_INT : UInt32 := 0x02

def ARG_MULTI : UInt32 := 0x80

/-- `struct app_option`. The last of a table has no name. -/
structure AppOption where
  longName : Option CString
  argType : UInt32
  deriving DecidableEq

/-- What `optent->value` points at: a text, or a list of texts and NULL pointers. -/
inductive Value where
  | null
  | text (s : Text)
  | list (cells : List (Option Text))
  deriving DecidableEq

/-- What `optent->vector` points at: the block at `value`, or numbers. -/
inductive Vector where
  | null
  | value
  | longs (cells : List Int)
  | freed
  deriving DecidableEq

/-- `struct app_optent`; `app_optlist` is the list of them. -/
structure Optent where
  name : Option CString
  type : UInt32
  value : Value
  vector : Vector
  deriving DecidableEq

/-- The answers of `malloc` and `realloc`, by the number of the call: whether it is NULL, and the cells of
a new block. -/
structure Malloc where
  null : Nat → Bool
  ptrs : Nat → Nat → Option Text
  longs : Nat → Nat → Int

/-- `app_optlist`, and the number of allocations so far. -/
structure State where
  optlist : List Optent
  allocs : Nat
  deriving DecidableEq

/-- A block of a size that begins with the cells of another one. -/
def region {α : Type} (cells : List α) (size : Nat) (content : Nat → α) : List α :=
  (List.range size).map fun i => cells.getD i (content i)

/-- `parse_list`: the length of the element at the beginning, and `*ep`. -/
def parseList (p : Text) (sep : UInt8) : Nat × Text :=
  let count := (p.takeWhile (· ≠ sep)).length
  (count, if p[count]? = some sep then p.drop (count + 1) else p.drop count)

/-- `while (list[i]) i++;` -/
def terminator {α : Type} : List (Option α) → Res Nat
  | [] => .fault
  | none :: _ => .ok 0
  | some _ :: cells => do
    let i ← terminator cells
    return i + 1

/-- The beginning of `add_value`: the list and the index of its NULL, or no memory. -/
def growList (m : Malloc) (value : Value) (n : Nat) : Res (Option (List (Option Text) × Nat) × Nat) :=
  match value with
  | .null => .ok (if m.null n then none else some (region [] 4 (m.ptrs n), 0), n + 1)
  | .text _ => .fault
  | .list cells => do
    let i ← terminator cells
    return if i % 4 = 0 then
      (if m.null n then none else some (region cells (i + 4) (m.ptrs n), i), n + 1)
    else (some (cells, i), n)

/-- `add_value`, with `value` up to the terminator of the argument. -/
def addValue (m : Malloc) (value : Text) (len : Nat) (ent : Optent) (n : Nat) : Res (Int × Optent × Nat) := do
  let (room, n) ← growList m ent.value n
  match room with
  | none => return (-1, ent, n)
  | some (list, i) => do
    let ent := { ent with value := .list list }
    let len := if len = 0 then value.length else len
    if m.null n then return (-1, ent, n + 1)
    else do
      let list ← store list i (some (value.take len))
      let list ← store list (i + 1) none
      return (0, { ent with value := .list list }, n + 1)

/-- The beginning of `add_long_vector`: the vector and its count, or no memory. A count of `-4` frees the
block, and one below it asks for more memory than there is. -/
def growLongs (m : Malloc) (vector : Vector) (n : Nat) : Res (Option (List Int × Int) × Vector × Nat) :=
  match vector with
  | .null =>
    .ok (if m.null n then (none, .null, n + 1)
      else (some (region [] 4 (m.longs n), 0), .longs (region [] 4 (m.longs n)), n + 1))
  | .longs cells => do
    let first ← load cells 0
    let count := Int.bmod first (2 ^ 32)
    if count % 4 ≠ 0 then return (some (cells, count), .longs cells, n)
    else if 2 ^ 31 ≤ count + 4 then .fault
    else if count + 4 = 0 then return (none, .freed, n + 1)
    else if count + 4 < 0 ∨ m.null n then return (none, .longs cells, n + 1)
    else return (some (region cells (count + 4).toNat (m.longs n), count),
      .longs (region cells (count + 4).toNat (m.longs n)), n + 1)
  | _ => .fault

/-- `while (isspace(value[len - 1])) len--;`, in the memory from `value` on. -/
def trimEnd (mem : Text) : Nat → Res Nat
  | 0 => .fault
  | len + 1 => do
    let b ← load mem len
    if isspace b then trimEnd mem len else return len + 1

/-- What `add_long_vector` copies into `buf`, where it is neither empty nor too long. -/
def cutLong (value : Text) (len : Nat) : Res (Option Text) := do
  let value := value.dropWhile isspace
  let len ← trimEnd (value ++ [0]) (if len = 0 then value.length else len)
  if len = 0 ∨ 20 ≤ len then return none
  else do
    let bytes ← loadAll (value ++ [0]) 0 len
    return some (ofBuf bytes).bytes

/-- `list[count + 1] = ..`, with an `int`. -/
def storeLong (list : List Int) (count value : Int) : Res (List Int) :=
  if count < -1 ∨ count + 1 = 2 ^ 31 then .fault else store list (count + 1).toNat value

/-- `add_long_vector`. -/
def addLongVector (m : Malloc) (value : Text) (len : Nat) (ent : Optent) (n : Nat) :
    Res (Int × Optent × Nat) := do
  let (room, vector, n) ← growLongs m ent.vector n
  let ent := { ent with vector := vector }
  match room with
  | none => return (-1, ent, n)
  | some (list, count) => do
    let cut ← cutLong value len
    match cut with
    | none => return (-1, ent, n)
    | some buf => do
      let list ← storeLong list count (strtol 0 buf).value
      let ent := { ent with vector := .longs list }
      if (strtol 0 buf).rest = buf ∨ (strtol 0 buf).rest ≠ [] then return (-1, ent, n)
      else do
        let list ← store list 0 (count + 1)
        return (0, { ent with vector := .longs list }, n)

/-- `set_value`: `strdup` of the argument. -/
def setValue (m : Malloc) (s : Option CString) (ent : Optent) (n : Nat) : Res (Optent × Nat) :=
  match s with
  | none => .fault
  | some s => .ok ({ ent with value := if m.null n then .null else .text s.bytes }, n + 1)

/-- The `long` at `ent->vector` in `set_long_vector` and `inc_vector`, which do not look at what `malloc`
answers. -/
def longAt (m : Malloc) (vector : Vector) (n : Nat) : Res (List Int × Nat) :=
  match vector with
  | .null => if m.null n then .fault else .ok (region [] 1 (m.longs n), n + 1)
  | .longs cells => .ok (cells, n)
  | _ => .fault

/-- `set_long_vector`. -/
def setLongVector (m : Malloc) (l : Int) (ent : Optent) (n : Nat) : Res (Optent × Nat) := do
  let (cells, n) ← longAt m ent.vector n
  let cells ← store cells 0 l
  return ({ ent with vector := .longs cells }, n)

/-- `inc_vector`. -/
def incVector (m : Malloc) (ent : Optent) (n : Nat) : Res (Optent × Nat) := do
  let (cells, n) ← longAt m ent.vector n
  let l ← load cells 0
  if l = 2 ^ 63 - 1 then .fault
  else do
    let cells ← store cells 0 (l + 1)
    return ({ ent with vector := .longs cells }, n)

/-- The loop for a repeatable text: a result of `add_value` is not looked at. -/
def stringLoop (m : Malloc) : Nat → Text → Optent → Nat → Res (Optent × Nat)
  | 0, _, _, _ => .fault
  | fuel + 1, value, ent, n =>
    if value = [] then .ok (ent, n)
    else do
      let (_, ent, n) ← addValue m value (parseList value 44).1 ent n
      stringLoop m fuel (parseList value 44).2 ent n

/-- The loop for a repeatable integer. -/
def intLoop (m : Malloc) : Nat → Text → Optent → Nat → Res (Int × Optent × Nat)
  | 0, _, _, _ => .fault
  | fuel + 1, value, ent, n =>
    if value = [] then .ok (0, ent, n)
    else do
      let (r, ent, n) ← addValue m value (parseList value 44).1 ent n
      if r < 0 then return (-1, ent, n)
      else do
        let (r, ent, n) ← addLongVector m value (parseList value 44).1 ent n
        if r < 0 then return (-1, ent, n) else intLoop m fuel (parseList value 44).2 ent n

/-- `setopt_arg` of an `ARG_MULTI` option, on its entry. -/
def setMulti (m : Malloc) (argType : UInt32) (value : Option CString) (ent : Optent) (n : Nat) :
    Res (Int × Optent × Nat) :=
  if argType &&& ~~~ARG_MULTI = ARG_NONE then do
    let (ent, n) ← incVector m ent n
    return (0, ent, n)
  else
    match value with
    | none => .fault
    | some value =>
      if argType &&& ~~~ARG_MULTI = ARG_INT then intLoop m (value.bytes.length + 1) value.bytes ent n
      else do
        let (ent, n) ← stringLoop m (value.bytes.length + 1) value.bytes ent n
        return (0, { ent with vector := .value }, n)

/-- `setopt_arg` of any other option, on its entry. -/
def setSingle (m : Malloc) (argType : UInt32) (value : Option CString) (ent : Optent) (n : Nat) :
    Res (Int × Optent × Nat) :=
  if argType = ARG_NONE then do
    let (ent, n) ← setValue m (some (ofBuf [])) ent n
    return (0, ent, n)
  else if argType = ARG_INT then
    match value with
    | none => .fault
    | some s =>
      if (strtol 0 s.bytes).rest = s.bytes ∨ (strtol 0 s.bytes).rest ≠ [] then return (-1, ent, n)
      else do
        let (ent, n) ← setValue m (some s) ent n
        let (ent, n) ← setLongVector m (strtol 0 s.bytes).value ent n
        return (0, ent, n)
  else do
    let (ent, n) ← setValue m value ent n
    return (0, ent, n)

/-- `find_optent`. -/
def findOptent (name : Option CString) (optlist : List Optent) : Option Optent :=
  optlist.find? fun ent => decide (ent.name = name)

/-- What is written through the pointer to the first entry of a name. -/
def putOptent (ent : Optent) : List Optent → List Optent
  | [] => []
  | e :: optlist => if e.name = ent.name then ent :: optlist else e :: putOptent ent optlist

/-- A new entry. -/
def newOptent (option : AppOption) : Optent :=
  { name := option.longName, type := option.argType, value := .null, vector := .null }

/-- The entry of an option, a new one where there is none yet. -/
def optentOf (m : Malloc) (option : AppOption) (s : State) : Res (Optent × State) :=
  match findOptent option.longName s.optlist with
  | some ent => .ok (ent, s)
  | none =>
    if m.null s.allocs then .fault
    else .ok (newOptent option, { optlist := newOptent option :: s.optlist, allocs := s.allocs + 1 })

/-- `setopt_arg`. -/
def setoptArg (m : Malloc) (option : AppOption) (value : Option CString) (s : State) : Res (Int × State) := do
  let (ent, s) ← optentOf m option s
  let (r, ent, n) ← (if option.argType &&& ARG_MULTI ≠ 0 then setMulti m option.argType value ent s.allocs
    else setSingle m option.argType value ent s.allocs)
  return (r, { optlist := putOptent ent s.optlist, allocs := n })

/-- A sequence of `setopt_arg` calls for one option, with what they return. -/
def setoptArgs (m : Malloc) (option : AppOption) : List (Option CString) → State → Res (List Int × State)
  | [], s => .ok ([], s)
  | value :: args, s => do
    let (r, s) ← setoptArg m option value s
    let (rs, s) ← setoptArgs m option args s
    return (r :: rs, s)

end Utils.Options
