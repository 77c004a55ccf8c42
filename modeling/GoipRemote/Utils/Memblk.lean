import GoipRemote.Lib.Runs
import Mathlib

/-!
# The arenas (`memblk_alloc` of `utils/utils.c`)

Containers and strings live in arenas, lists of blocks that `malloc` answered. A request is rounded up to
a multiple of four and carved from the first block with room. `MEMBLK_HDRSIZE` counts one `unsigned` where
`struct memblk` has two: `size` is four bytes more than there are, and a request that uses a block up
ends behind it. `memblkAlloc_iff` says that nothing else goes wrong.
-/

namespace Utils

/-- The data models: `int` has 32 bits, a pointer as many as a `long`. -/
inductive Target where
  | ilp32
  | lp64
  deriving DecidableEq, Repr

/-- `sizeof(void*)`. -/
def Target.ptrSize : Target → Nat
  | ilp32 => 4
  | lp64 => 8

/-- `offsetof(struct memblk, data)`, behind `next`, `size` and `free`. -/
def Target.dataOffset (t : Target) : Nat := t.ptrSize + 4 + 4

/-- `MEMBLK_HDRSIZE`. -/
def memblkHdrsize (t : Target) : Nat := 4 + t.ptrSize

/-- `MAX_MEMBLKSIZE`. -/
def maxMemblksize (t : Target) : Nat := 64 * 1024 - memblkHdrsize t

/-- The loop of `calc_blksize`, of at most the given number of rounds. -/
def blksizeLog : Nat → Nat → Nat → Nat
  | 0, _, m => m
  | rounds + 1, nbytes, m => if nbytes = 0 then m else blksizeLog rounds (nbytes >>> 1) (m + 1)

/-- `calc_blksize`; a `size_t` has at most 64 bits. -/
def calcBlksize (nbytes : Nat) : Nat := 1 <<< blksizeLog 64 (nbytes >>> 12) 12

/-- A `struct memblk` at its address, with the size that `malloc` was asked for. -/
structure Memblk where
  addr : Nat
  sz : Nat
  size : Nat
  free : Nat
  deriving DecidableEq, Repr

/-- The walk of `memblk_alloc`: the block with room as it was, and the list with it carved. -/
def carve (nbytes : Nat) : List Memblk → Option (Memblk × List Memblk)
  | [] => none
  | ptr :: next =>
    if ptr.free < nbytes then (carve nbytes next).map fun (found, next) => (found, ptr :: next)
    else some (ptr, { ptr with free := ptr.free - nbytes } :: next)

/-- `(nbytes + 3) & ~3L`. -/
def roundUp (t : Target) (nbytes : Nat) : Nat := (nbytes + 3) % 2 ^ (8 * t.ptrSize) / 4 * 4

/-- `memblk_alloc`, with what `malloc` answers: the block and the address in it, or none. -/
def memblkAlloc (t : Target) (memblk : List Memblk) (nbytes : Nat) (malloc : Option Nat) :
    Res (Option (Memblk × Nat) × List Memblk) :=
  let nbytes := roundUp t nbytes
  if nbytes > maxMemblksize t then .exit
  else
    match carve nbytes memblk with
    | some (ptr, memblk) => .ok (some (ptr, ptr.addr + t.dataOffset + (ptr.size - ptr.free)), memblk)
    | none =>
      let sz := calcBlksize (nbytes + memblkHdrsize t)
      match malloc with
      | none => .ok (none, memblk)
      | some addr =>
        let size := sz - memblkHdrsize t
        let ptr := ⟨addr, sz, size, size - nbytes⟩
        .ok (some (ptr, addr + t.dataOffset), ptr :: memblk)

/-! ## Runs of requests -/

/-- A request, and what `malloc` answers in it. -/
structure Request where
  nbytes : Nat
  malloc : Option Nat
  deriving DecidableEq, Repr

/-- What a request got: `len` bytes from `addr` on, in a block of `sz` bytes from `block` on. -/
structure Region where
  block : Nat
  sz : Nat
  addr : Nat
  len : Nat
  deriving DecidableEq, Repr

/-- An arena, and the regions of its requests, latest first. -/
structure Arena where
  memblk : List Memblk
  regions : List Region
  deriving DecidableEq, Repr

namespace Arena

def empty : Arena := ⟨[], []⟩

/-- `memblk_alloc`, with its note in the log. -/
def alloc (t : Target) (a : Arena) (r : Request) : Res Arena := do
  let (res, memblk) ← memblkAlloc t a.memblk r.nbytes r.malloc
  match res with
  | some (ptr, addr) => return ⟨memblk, ⟨ptr.addr, ptr.sz, addr, r.nbytes⟩ :: a.regions⟩
  | none => return ⟨memblk, a.regions⟩

end Arena

def Region.bytes (r : Region) : Set Nat := Set.Ico r.addr (r.addr + r.len)

def Memblk.bytes (b : Memblk) : Set Nat := Set.Ico b.addr (b.addr + b.sz)

/-- The region is in its block, behind the header. -/
def Region.Inside (t : Target) (r : Region) : Prop :=
  r.bytes ⊆ Set.Ico (r.block + t.dataOffset) (r.block + r.sz)

/-- What the requests may rely on. -/
structure Arena.Safe (t : Target) (a : Arena) : Prop where
  inside : ∀ r ∈ a.regions, r.Inside t
  disjoint : a.regions.Pairwise fun r s => Disjoint r.bytes s.bytes

/-- `malloc`, if it is asked, answers memory that no other block has. -/
def Request.Fresh (t : Target) (a : Arena) (r : Request) : Prop :=
  (∀ b ∈ a.memblk, b.free < roundUp t r.nbytes) → ∀ addr, r.malloc = some addr → ∀ b ∈ a.memblk,
    Disjoint (Set.Ico addr (addr + calcBlksize (roundUp t r.nbytes + memblkHdrsize t))) b.bytes

/-- The first block with room for the request has none to spare. -/
def Request.Fills (t : Target) (a : Arena) (r : Request) : Prop :=
  0 < r.nbytes ∧ ∃ b, a.memblk.find? (fun b => roundUp t r.nbytes ≤ b.free) = some b ∧
    b.free = roundUp t r.nbytes

/-! ## Sizes -/

theorem lt_blksizeLog {n : Nat} : ∀ {rounds nbytes m : Nat}, nbytes < 2 ^ rounds → n < (nbytes + 1) * 2 ^ m →
    n < 2 ^ blksizeLog rounds nbytes m := by
  intro rounds
  induction rounds with
  | zero =>
    intro nbytes m hr hn
    have hzero : nbytes = 0 := by omega
    subst hzero
    simpa [blksizeLog] using hn
  | succ rounds ih =>
    intro nbytes m hr hn
    rw [blksizeLog]
    by_cases hzero : nbytes = 0
    · rw [if_pos hzero]
      simpa [hzero] using hn
    · rw [if_neg hzero, Nat.shiftRight_one]
      refine ih (by rw [pow_succ] at hr; omega) (Nat.lt_of_lt_of_le hn ?_)
      rw [pow_succ, ← Nat.mul_assoc, Nat.mul_right_comm]
      exact Nat.mul_le_mul_right _ (by omega)

theorem le_blksizeLog : ∀ rounds nbytes m : Nat, m ≤ blksizeLog rounds nbytes m := by
  intro rounds
  induction rounds with
  | zero =>
    intro nbytes m
    exact Nat.le_refl m
  | succ rounds ih =>
    intro nbytes m
    rw [blksizeLog]
    split
    · exact Nat.le_refl m
    · exact Nat.le_of_succ_le (ih _ _)

/-- A block has more room than was asked for, and a multiple of four. -/
theorem calcBlksize_spec {nbytes : Nat} (h : nbytes < 2 ^ 64) :
    nbytes < calcBlksize nbytes ∧ calcBlksize nbytes % 4 = 0 := by
  unfold calcBlksize
  rw [Nat.one_shiftLeft, Nat.shiftRight_eq_div_pow]
  refine ⟨lt_blksizeLog (by omega) (by omega), ?_⟩
  have hle := le_blksizeLog 64 (nbytes / 2 ^ 12) 12
  exact Nat.mod_eq_zero_of_dvd (Nat.pow_dvd_pow 2 (Nat.le_trans (by decide : 2 ≤ 12) hle))

theorem roundUp_spec {t : Target} {nbytes : Nat} (h : nbytes ≤ maxMemblksize t) :
    nbytes ≤ roundUp t nbytes ∧ roundUp t nbytes < nbytes + 4 ∧ roundUp t nbytes % 4 = 0 ∧
      roundUp t nbytes ≤ maxMemblksize t := by
  cases t <;> simp only [roundUp, maxMemblksize, memblkHdrsize, Target.ptrSize] at h ⊢ <;> omega

/-! ## The walk -/

theorem carve_none {n : Nat} : ∀ {l : List Memblk}, carve n l = none → ∀ b ∈ l, b.free < n := by
  intro l
  induction l with
  | nil =>
    intro _ b hb
    cases hb
  | cons c l ih =>
    intro h b hb
    rw [carve] at h
    split at h
    · rcases List.mem_cons.1 hb with rfl | hb
      · assumption
      · exact ih (Option.map_eq_none_iff.1 h) b hb
    · cases h

theorem carve_some {n : Nat} {b : Memblk} : ∀ {l l' : List Memblk}, carve n l = some (b, l') →
    n ≤ b.free ∧ l.find? (fun b => n ≤ b.free) = some b ∧
      ∃ pre post, l = pre ++ b :: post ∧ l' = pre ++ { b with free := b.free - n } :: post := by
  intro l
  induction l with
  | nil =>
    intro l' h
    cases h
  | cons c l ih =>
    intro l' h
    rw [carve] at h
    split at h
    · rename_i hc
      obtain ⟨⟨b', l''⟩, hrun, heq⟩ := Option.map_eq_some_iff.1 h
      cases heq
      obtain ⟨hle, hfind, pre, post, rfl, rfl⟩ := ih hrun
      refine ⟨hle, ?_, c :: pre, post, rfl, rfl⟩
      rw [List.find?_cons_of_neg (by simpa using hc), hfind]
    · rename_i hc
      cases h
      exact ⟨Nat.le_of_not_lt hc, List.find?_cons_of_pos (by simpa using hc), [], l, rfl, rfl⟩

/-! ## What an arena keeps -/

section
variable {t : Target} {a a' : Arena} {b c : Memblk} {r : Region} {req : Request}

/-- The fields of a block. Its data and header are four bytes more than `malloc` answered. -/
structure Memblk.Ok (t : Target) (b : Memblk) : Prop where
  size : b.size + memblkHdrsize t = b.sz
  free : b.free ≤ b.size
  aligned : b.sz % 4 = 0 ∧ b.free % 4 = 0

/-- The region is in the part of the block that is no longer free. -/
structure Region.Of (t : Target) (r : Region) (b : Memblk) : Prop where
  block : r.block = b.addr
  sz : r.sz = b.sz
  after : b.addr + t.dataOffset ≤ r.addr
  before : r.addr + r.len ≤ b.addr + t.dataOffset + (b.size - b.free)

structure Arena.Inv (t : Target) (a : Arena) : Prop where
  ok : ∀ b ∈ a.memblk, b.Ok t
  apart : a.memblk.Pairwise fun b c => Disjoint b.bytes c.bytes
  of : ∀ r ∈ a.regions, ∃ b ∈ a.memblk, r.Of t b
  disjoint : a.regions.Pairwise fun r s => Disjoint r.bytes s.bytes

theorem disjoint_Ico {x n y m : Nat} : Disjoint (Set.Ico x (x + n)) (Set.Ico y (y + m)) ↔
    n = 0 ∨ m = 0 ∨ x + n ≤ y ∨ y + m ≤ x := by
  rw [Set.Ico_disjoint_Ico]
  omega

theorem dataOffset_eq (t : Target) : t.dataOffset = memblkHdrsize t + 4 := by
  cases t <;> rfl

theorem hdrsize_mod (t : Target) : memblkHdrsize t % 4 = 0 := by
  cases t <;> rfl

theorem hdrsize_pos (t : Target) : 4 < memblkHdrsize t := by
  cases t <;> decide

theorem inside_iff (hof : r.Of t b) : r.Inside t ↔ r.len = 0 ∨ r.addr + r.len ≤ b.addr + b.sz := by
  unfold Region.Inside Region.bytes
  rw [hof.block, hof.sz]
  by_cases hlen : r.len = 0
  · simp [hlen]
  · have hafter := hof.after
    rw [Set.Ico_subset_Ico_iff (by omega)]
    simp [hlen, hafter]

/-- Regions of blocks that do not overlap do not overlap, also where they end behind their blocks. -/
theorem disjoint_of_apart {s : Region} (hr : r.Of t b) (hs : s.Of t c) (hb : b.Ok t) (hc : c.Ok t)
    (h : Disjoint b.bytes c.bytes) : Disjoint r.bytes s.bytes := by
  have hdata := dataOffset_eq t
  have hpos := hdrsize_pos t
  have hbsize := hb.size
  have hcsize := hc.size
  have hrbefore := hr.before
  have hsbefore := hs.before
  have hrafter := hr.after
  have hsafter := hs.after
  rw [Memblk.bytes, Memblk.bytes, disjoint_Ico] at h
  rw [Region.bytes, Region.bytes, disjoint_Ico]
  omega

/-- A block that a region of `len` bytes was carved from. -/
theorem Memblk.Ok.carve (h : b.Ok t) {n len : Nat} (hn : n ≤ b.free) (hmod : n % 4 = 0)
    (hlen : len ≤ n) :
    { b with free := b.free - n }.Ok t ∧
      Region.Of t ⟨b.addr, b.sz, b.addr + t.dataOffset + (b.size - b.free), len⟩
        { b with free := b.free - n } := by
  have hfree := h.free
  have haligned := h.aligned
  refine ⟨⟨h.size, ?_, haligned.1, ?_⟩, rfl, rfl, ?_, ?_⟩ <;> simp only <;> omega

theorem Region.Of.carve (hr : r.Of t b) (n : Nat) : r.Of t { b with free := b.free - n } := by
  have hbefore := hr.before
  refine ⟨hr.block, hr.sz, hr.after, ?_⟩
  simp only
  omega

theorem mem_append_cons {α : Type} {x y : α} {pre post : List α} :
    x ∈ pre ++ y :: post ↔ x = y ∨ x ∈ pre ++ post := by
  simp only [List.mem_append, List.mem_cons]
  tauto

/-- A request that is carved from a block of the arena. -/
theorem Arena.Inv.carve (h : a.Inv t) {n len : Nat} {pre post : List Memblk}
    (hlist : a.memblk = pre ++ b :: post) (hn : n ≤ b.free) (hmod : n % 4 = 0) (hlen : len ≤ n) :
    Arena.Inv t ⟨pre ++ { b with free := b.free - n } :: post,
      ⟨b.addr, b.sz, b.addr + t.dataOffset + (b.size - b.free), len⟩ :: a.regions⟩ := by
  have hmem : ∀ c, c ∈ a.memblk ↔ c = b ∨ c ∈ pre ++ post := fun c => by
    rw [hlist, mem_append_cons]
  have hb := h.ok b ((hmem b).2 (.inl rfl))
  obtain ⟨hok, hof⟩ := hb.carve hn hmod hlen
  have hapart := h.apart
  rw [hlist, List.pairwise_middle fun {b c} hbc => hbc.symm] at hapart
  obtain ⟨hfirst, hrest⟩ := List.pairwise_cons.1 hapart
  refine ⟨fun c hc => ?_, ?_, fun r hr => ?_, List.pairwise_cons.2 ⟨fun r hr => ?_, h.disjoint⟩⟩
  · rcases mem_append_cons.1 hc with rfl | hc
    · exact hok
    · exact h.ok c ((hmem c).2 (.inr hc))
  · refine (List.pairwise_middle fun {b c} hbc => hbc.symm).2 (List.pairwise_cons.2 ⟨?_, hrest⟩)
    exact hfirst
  · rcases List.mem_cons.1 hr with rfl | hr
    · exact ⟨_, mem_append_cons.2 (.inl rfl), hof⟩
    · obtain ⟨c, hc, hrc⟩ := h.of r hr
      rcases (hmem c).1 hc with rfl | hc
      · exact ⟨_, mem_append_cons.2 (.inl rfl), hrc.carve n⟩
      · exact ⟨c, mem_append_cons.2 (.inr hc), hrc⟩
  · obtain ⟨c, hc, hrc⟩ := h.of r hr
    rcases (hmem c).1 hc with rfl | hc'
    · -- an earlier region of the block
      have hbefore := hrc.before
      rw [Region.bytes, Region.bytes, disjoint_Ico]
      simp only
      omega
    · exact disjoint_of_apart hof hrc hok (h.ok c hc) (hfirst c hc')

/-- A request that gets a block of its own. -/
theorem Arena.Inv.cons (h : a.Inv t) {addr sz n len : Nat} (hsz : n + memblkHdrsize t < sz)
    (hmod : sz % 4 = 0 ∧ n % 4 = 0) (hlen : len ≤ n)
    (hfresh : ∀ b ∈ a.memblk, Disjoint (Set.Ico addr (addr + sz)) b.bytes) :
    Arena.Inv t ⟨⟨addr, sz, sz - memblkHdrsize t, sz - memblkHdrsize t - n⟩ :: a.memblk,
      ⟨addr, sz, addr + t.dataOffset, len⟩ :: a.regions⟩ := by
  have hhdr := hdrsize_mod t
  have hok : Memblk.Ok t ⟨addr, sz, sz - memblkHdrsize t, sz - memblkHdrsize t - n⟩ := by
    refine ⟨?_, ?_, ?_⟩ <;> simp only <;> omega
  have hof : Region.Of t ⟨addr, sz, addr + t.dataOffset, len⟩
      ⟨addr, sz, sz - memblkHdrsize t, sz - memblkHdrsize t - n⟩ := by
    refine ⟨rfl, rfl, Nat.le_refl _, ?_⟩
    simp only
    omega
  refine ⟨fun c hc => ?_, List.pairwise_cons.2 ⟨hfresh, h.apart⟩, fun r hr => ?_,
    List.pairwise_cons.2 ⟨fun r hr => ?_, h.disjoint⟩⟩
  · rcases List.mem_cons.1 hc with rfl | hc
    · exact hok
    · exact h.ok c hc
  · rcases List.mem_cons.1 hr with rfl | hr
    · exact ⟨_, List.mem_cons_self, hof⟩
    · obtain ⟨c, hc, hrc⟩ := h.of r hr
      exact ⟨c, List.mem_cons_of_mem _ hc, hrc⟩
  · obtain ⟨c, hc, hrc⟩ := h.of r hr
    exact disjoint_of_apart hof hrc hok (h.ok c hc) (hfresh c hc)

/-- A request returns, and its region is in its block unless it uses the block up. -/
theorem alloc_ok (h : a.Inv t) (hmax : req.nbytes ≤ maxMemblksize t) (hfresh : req.Fresh t a) :
    ∃ a', a.alloc t req = .ok a' ∧ a'.Inv t ∧
      ((∀ r ∈ a'.regions, r.Inside t) ↔ ¬ req.Fills t a ∧ ∀ r ∈ a.regions, r.Inside t) := by
  obtain ⟨hle, hlt, hmod, hround⟩ := roundUp_spec hmax
  have hdata := dataOffset_eq t
  have hhdr := hdrsize_mod t
  unfold Arena.alloc memblkAlloc
  simp only
  rw [if_neg (Nat.not_lt.2 hround)]
  cases hcarve : carve (roundUp t req.nbytes) a.memblk with
  | some found =>
    obtain ⟨b, memblk⟩ := found
    obtain ⟨hroom, hfind, pre, post, hlist, rfl⟩ := carve_some hcarve
    have hinv := h.carve hlist hroom hmod hle
    refine ⟨_, rfl, hinv, ?_⟩
    have hb := h.ok b (by rw [hlist]; exact mem_append_cons.2 (.inl rfl))
    have hbsize := hb.size
    have hbfree := hb.free
    have haligned := hb.aligned
    have hnew := inside_iff (hb.carve hroom hmod hle).2
    have hfills : req.Fills t a ↔ 0 < req.nbytes ∧ b.free = roundUp t req.nbytes := by
      simp only [Request.Fills, hfind, Option.some.injEq, exists_eq_left']
    rw [List.forall_mem_cons, hnew, hfills]
    apply and_congr_left'
    simp only
    omega
  | none =>
    have hfull := carve_none hcarve
    have hfills : ¬ req.Fills t a := by
      rintro ⟨-, b, hfind, -⟩
      have hb := List.find?_some hfind
      have hlt := hfull b (List.mem_of_find?_eq_some hfind)
      simp only [decide_eq_true_eq] at hb
      omega
    simp only [hfills, not_false_eq_true, true_and]
    cases hmalloc : req.malloc with
    | none => exact ⟨a, rfl, h, Iff.rfl⟩
    | some addr =>
      have hbytes : roundUp t req.nbytes + memblkHdrsize t < 2 ^ 64 := by
        cases t <;> simp only [maxMemblksize, memblkHdrsize, Target.ptrSize] at hround ⊢ <;> omega
      obtain ⟨hsz, hszmod⟩ := calcBlksize_spec hbytes
      have hinv := h.cons hsz ⟨hszmod, hmod⟩ hle (hfresh hfull addr hmalloc)
      refine ⟨_, rfl, hinv, ?_⟩
      obtain ⟨b, hb, hof⟩ := hinv.of _ List.mem_cons_self
      have hnew := inside_iff hof
      have hsame := hof.sz
      have hblock := hof.block
      simp only at hsame hblock
      rw [List.forall_mem_cons, hnew]
      refine and_iff_right (.inr ?_)
      simp only
      omega

theorem run_alloc {reqs : List Request} (h : a.Inv t) (hmax : ∀ r ∈ reqs, r.nbytes ≤ maxMemblksize t)
    (hfresh : Runs.Along (Arena.alloc t) (fun a r => r.Fresh t a) reqs a) :
    ∃ a', Runs.run (Arena.alloc t) reqs a = .ok a' ∧ a'.Inv t ∧
      ((∀ r ∈ a'.regions, r.Inside t) ↔
        Runs.Along (Arena.alloc t) (fun a r => ¬ r.Fills t a) reqs a ∧ ∀ r ∈ a.regions, r.Inside t) := by
  induction reqs generalizing a with
  | nil => exact ⟨a, rfl, h, (and_iff_right trivial).symm⟩
  | cons req reqs ih =>
    obtain ⟨a₁, hstep, hinv, hinside⟩ := alloc_ok h (hmax req List.mem_cons_self) hfresh.1
    obtain ⟨a', hrun, hinv', hinside'⟩ :=
      ih hinv (fun r hr => hmax r (List.mem_cons_of_mem _ hr)) (hfresh.2 a₁ hstep)
    have halong : Runs.Along (Arena.alloc t) (fun a r => ¬ r.Fills t a) (req :: reqs) a ↔
        ¬ req.Fills t a ∧ Runs.Along (Arena.alloc t) (fun a r => ¬ r.Fills t a) reqs a₁ := by
      refine and_congr_right' ⟨fun hall => hall a₁ hstep, fun hone a₂ ha₂ => ?_⟩
      cases hstep.symm.trans ha₂
      exact hone
    refine ⟨a', ?_, hinv', ?_⟩
    · rw [Runs.run, hstep]
      exact hrun
    · rw [hinside', hinside, halong]
      tauto

/-- **Arenas.** Whatever the requests, each returns and no two regions overlap; and each region is in its
block, behind the header, unless a request uses its block up. -/
theorem memblkAlloc_iff {reqs : List Request} (hmax : ∀ r ∈ reqs, r.nbytes ≤ maxMemblksize t)
    (hfresh : Runs.Along (Arena.alloc t) (fun a r => r.Fresh t a) reqs .empty) :
    ∃ a, Runs.run (Arena.alloc t) reqs .empty = .ok a ∧
      (a.Safe t ↔ Runs.Along (Arena.alloc t) (fun a r => ¬ r.Fills t a) reqs .empty) := by
  have hempty : Arena.Inv t .empty :=
    ⟨fun b hb => (List.not_mem_nil hb).elim, .nil, fun r hr => (List.not_mem_nil hr).elim, .nil⟩
  obtain ⟨a, hrun, hinv, hinside⟩ := run_alloc hempty hmax hfresh
  have hnone : ∀ r ∈ Arena.empty.regions, r.Inside t := fun r hr => (List.not_mem_nil hr).elim
  rw [and_iff_left hnone] at hinside
  exact ⟨a, hrun, fun hsafe => hinside.1 hsafe.inside, fun h => ⟨hinside.2 h, hinv.disjoint⟩⟩

/-- Two regions in one block, and one in a block of its own. -/
theorem memblkAlloc_iff_three :
    ∃ a, Runs.run (Arena.alloc .lp64) [⟨10, some 4096⟩, ⟨20, none⟩, ⟨5000, some 65536⟩] .empty = .ok a ∧
      a.regions.length = 3 ∧ a.Safe .lp64 := by
  have hfresh : Runs.Along (Arena.alloc .lp64) (fun a r => r.Fresh .lp64 a)
      [⟨10, some 4096⟩, ⟨20, none⟩, ⟨5000, some 65536⟩] .empty := by
    refine .cons (fun _ _ _ b hb => (List.not_mem_nil hb).elim) rfl
      (.cons (fun _ _ h => by cases h) rfl (.cons (fun _ addr haddr b hb => ?_) rfl trivial))
    cases haddr
    rw [List.mem_singleton.1 hb]
    exact disjoint_Ico.2 (.inr (.inr (.inr (by decide))))
  have hfills : Runs.Along (Arena.alloc .lp64) (fun a r => ¬ r.Fills .lp64 a)
      [⟨10, some 4096⟩, ⟨20, none⟩, ⟨5000, some 65536⟩] .empty := by
    refine .cons ?_ rfl (.cons ?_ rfl (.cons ?_ rfl trivial))
    all_goals
      rintro ⟨-, b, hfind, hfree⟩
      cases hfind <;> revert hfree <;> decide
  obtain ⟨a, hrun, hiff⟩ := memblkAlloc_iff (t := .lp64) (by decide) hfresh
  refine ⟨a, hrun, ?_, hiff.2 hfills⟩
  cases hrun
  rfl
/-- The second request uses the block up, and ends four bytes behind it. -/
theorem memblkAlloc_fills :
    (∀ r ∈ ([⟨4, some 4096⟩, ⟨4084, none⟩] : List Request), r.nbytes ≤ maxMemblksize .ilp32) ∧
      Runs.Along (Arena.alloc .ilp32) (fun a r => r.Fresh .ilp32 a) [⟨4, some 4096⟩, ⟨4084, none⟩]
        .empty ∧
      ∃ a, Runs.run (Arena.alloc .ilp32) [⟨4, some 4096⟩, ⟨4084, none⟩] .empty = .ok a ∧
        ¬ a.Safe .ilp32 := by
  refine ⟨by decide, ⟨fun _ _ _ b hb => (List.not_mem_nil hb).elim, fun a _ =>
    ⟨fun _ addr haddr => (by cases haddr), fun _ _ => trivial⟩⟩, ?_⟩
  refine ⟨⟨[⟨4096, 4096, 4088, 0⟩], [⟨4096, 4096, 4112, 4084⟩, ⟨4096, 4096, 4108, 4⟩]⟩, rfl, fun h => ?_⟩
  have hinside := h.inside ⟨4096, 4096, 4112, 4084⟩ List.mem_cons_self
  have hlast : 8195 ∈ Set.Ico (4096 + Target.ilp32.dataOffset) (4096 + 4096) :=
    hinside (by simp [Region.bytes])
  simp at hlast

end

end Utils
