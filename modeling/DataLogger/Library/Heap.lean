/-
# An explicit heap with faults

A heap maps the allocated addresses to cells.  Reading, writing or freeing through
a pointer that is `NULL` or whose address is not allocated is a *fault*; `free(NULL)`
does nothing.  The allocator is an environment: `malloc` is given its answer, which
is either `NULL` or an address with the indeterminate content of the new block.
Nothing restricts the address beyond `Fresh` (not currently allocated), so an
address that was freed may come back at once.

The heap logs its allocations and releases.  `Balanced` is the ledger between the
log and the allocated set: each release undoes one earlier allocation.
-/
import Mathlib.Data.List.Count
import Mathlib.Logic.Function.Basic
import Mathlib.Tactic.Common

/-- A pointer: `NULL` or an address. -/
abbrev Ptr (Addr : Type*) := Option Addr

/-- An entry of the allocation log. -/
inductive HeapEvent (Addr : Type*)
  | malloc (a : Addr)
  | free (a : Addr)
  deriving DecidableEq, Repr

/-- The cells at the allocated addresses, and the log (latest entry first). -/
structure Heap (Addr Cell : Type*) where
  cell : Addr → Option Cell
  log : List (HeapEvent Addr)

namespace Heap

/-- Why a memory access fails. -/
inductive Fault (Addr : Type*)
  | null
  | unallocated (a : Addr)
  deriving DecidableEq, Repr

variable {Addr Cell : Type*}

/-- The heap with nothing allocated. -/
def empty : Heap Addr Cell := ⟨fun _ => none, []⟩

@[simp] theorem empty_cell (a : Addr) : (empty : Heap Addr Cell).cell a = none := rfl

/-- The answer of the allocator is admissible: a block is at an address that is not
currently allocated. -/
def Fresh (h : Heap Addr Cell) : Option (Addr × Cell) → Prop
  | none => True
  | some (a, _) => h.cell a = none

@[simp] theorem fresh_none (h : Heap Addr Cell) : h.Fresh none := trivial

/-- The answer of `malloc` is fresh if nothing is allocated there. -/
@[simp] theorem fresh_some (h : Heap Addr Cell) (a : Addr) (c : Cell) :
    h.Fresh (some (a, c)) ↔ h.cell a = none := Iff.rfl

/-- Load the cell behind a pointer. -/
def read (h : Heap Addr Cell) : Ptr Addr → Except (Fault Addr) Cell
  | none => .error .null
  | some a =>
      match h.cell a with
      | none => .error (.unallocated a)
      | some c => .ok c

/-- A cell that is allocated can be read. -/
theorem read_some {h : Heap Addr Cell} {a : Addr} {c : Cell} (ha : h.cell a = some c) :
    h.read (some a) = .ok c := by
  simp only [read, ha]

/-- A cell that is not allocated cannot be read. -/
theorem read_of_none {h : Heap Addr Cell} {a : Addr} (ha : h.cell a = none) :
    h.read (some a) = .error (.unallocated a) := by
  simp only [read, ha]

variable [DecidableEq Addr]

/-- Allocate the block that the allocator answers with. -/
def malloc (h : Heap Addr Cell) : Option (Addr × Cell) → Ptr Addr × Heap Addr Cell
  | none => (none, h)
  | some (a, c) => (some a, ⟨Function.update h.cell a (some c), .malloc a :: h.log⟩)

/-- Store through a pointer, changing part of the cell behind it. -/
def modify (h : Heap Addr Cell) (f : Cell → Cell) : Ptr Addr → Except (Fault Addr) (Heap Addr Cell)
  | none => .error .null
  | some a =>
      match h.cell a with
      | none => .error (.unallocated a)
      | some c => .ok { h with cell := Function.update h.cell a (some (f c)) }

/-- The heap with another content at an address. -/
def put (h : Heap Addr Cell) (a : Addr) (c : Cell) : Heap Addr Cell :=
  { h with cell := Function.update h.cell a (some c) }

@[simp] theorem put_cell_self (h : Heap Addr Cell) (a : Addr) (c : Cell) :
    (h.put a c).cell a = some c :=
  Function.update_self _ _ _

/-- A write changes no other cell. -/
theorem put_cell_of_ne (h : Heap Addr Cell) {a b : Addr} (hb : b ≠ a) (c : Cell) :
    (h.put a c).cell b = h.cell b :=
  Function.update_of_ne hb _ _

/-- The last of two writes to a cell counts. -/
theorem put_put (h : Heap Addr Cell) (a : Addr) (c c' : Cell) :
    (h.put a c).put a c' = h.put a c' := by
  rw [put, put, Function.update_idem]
  rfl

/-- A cell that is allocated can be changed. -/
theorem modify_some {h : Heap Addr Cell} {a : Addr} {c : Cell} (ha : h.cell a = some c)
    (f : Cell → Cell) :
    h.modify f (some a) = .ok (h.put a (f c)) := by
  simp only [modify, ha]
  rfl

/-- Release the block behind a pointer. -/
def free (h : Heap Addr Cell) : Ptr Addr → Except (Fault Addr) (Heap Addr Cell)
  | none => .ok h
  | some a =>
      match h.cell a with
      | none => .error (.unallocated a)
      | some _ => .ok ⟨Function.update h.cell a none, .free a :: h.log⟩

/-- A cell that is allocated can be freed. -/
theorem free_some {h : Heap Addr Cell} {a : Addr} {c : Cell} (ha : h.cell a = some c) :
    h.free (some a) = .ok ⟨Function.update h.cell a none, .free a :: h.log⟩ := by
  simp only [free, ha]

/-- A cell that is not allocated cannot be freed. -/
theorem free_of_none {h : Heap Addr Cell} {a : Addr} (ha : h.cell a = none) :
    h.free (some a) = .error (.unallocated a) := by
  simp only [free, ha]

/-- What a block holds does not matter to `free`. -/
theorem free_put {h : Heap Addr Cell} {a : Addr} {c : Cell} (ha : h.cell a = some c) (c' : Cell) :
    (h.put a c').free (some a) = h.free (some a) := by
  rw [free_some ha, free_some (put_cell_self _ _ _), put, Function.update_idem]

/-! ## The ledger -/

/-- **The ledger.**  Each address has been allocated as often as it has been freed,
and once more when it is allocated now. -/
def Balanced (h : Heap Addr Cell) : Prop :=
  ∀ a, h.log.count (.malloc a) = h.log.count (.free a) + if (h.cell a).isSome then 1 else 0

/-- Nothing was allocated and nothing freed. -/
theorem balanced_empty : (empty : Heap Addr Cell).Balanced := fun _ => rfl

/-- Allocating a fresh block keeps the ledger. -/
theorem Balanced.malloc {h : Heap Addr Cell} (hb : h.Balanced) (ans : Option (Addr × Cell))
    (hfresh : h.Fresh ans) : (h.malloc ans).2.Balanced := by
  rcases ans with _ | ⟨a, c⟩
  · exact hb
  · intro b
    have hb' := hb b
    by_cases hab : b = a
    · subst hab
      rw [fresh_some] at hfresh
      simp only [Heap.malloc, List.count_cons, Function.update_self, hfresh] at hb' ⊢
      simpa using hb'
    · have hab' : ¬ a = b := fun h => hab h.symm
      simpa [Heap.malloc, List.count_cons, Function.update_of_ne hab, hab'] using hb'

/-- Storing keeps the ledger. -/
theorem Balanced.modify {h : Heap Addr Cell} (hb : h.Balanced) {a : Addr} {c : Cell}
    (ha : h.cell a = some c) (c' : Cell) :
    ({ h with cell := Function.update h.cell a (some c') } : Heap Addr Cell).Balanced := by
  intro b
  have hb' := hb b
  by_cases hab : b = a
  · subst hab
    simpa [ha] using hb'
  · simpa [Function.update_of_ne hab] using hb'

/-- Freeing an allocated block keeps the ledger. -/
theorem Balanced.free {h : Heap Addr Cell} (hb : h.Balanced) {a : Addr} {c : Cell}
    (ha : h.cell a = some c) :
    (⟨Function.update h.cell a none, .free a :: h.log⟩ : Heap Addr Cell).Balanced := by
  intro b
  have hb' := hb b
  by_cases hab : b = a
  · subst hab
    simpa [ha, List.count_cons] using hb'
  · have hab' : ¬ a = b := fun h => hab h.symm
    simpa [List.count_cons, Function.update_of_ne hab, hab'] using hb'

/-! ## Exactly what is allocated -/

/-- The blocks `bs`, listed without repetition, are what is allocated. -/
structure Allocated (h : Heap Addr Cell) (bs : List Addr) : Prop where
  nodup : bs.Nodup
  mem : ∀ a, (h.cell a).isSome ↔ a ∈ bs
  balanced : h.Balanced

/-- Nothing is allocated at the start. -/
theorem allocated_empty : Allocated (empty : Heap Addr Cell) [] where
  nodup := List.nodup_nil
  mem := fun a => by simp
  balanced := balanced_empty

variable {h : Heap Addr Cell} {bs cs : List Addr} {a : Addr}

/-- The order of the blocks does not matter. -/
theorem Allocated.perm (ha : h.Allocated bs) (hp : bs.Perm cs) : h.Allocated cs where
  nodup := hp.nodup_iff.mp ha.nodup
  mem := fun b => (ha.mem b).trans hp.mem_iff
  balanced := ha.balanced

/-- A new block is added. -/
theorem Allocated.malloc (ha : h.Allocated bs) (hfresh : h.cell a = none) (c : Cell) :
    (h.malloc (some (a, c))).2.Allocated (a :: bs) where
  nodup := by
    refine List.nodup_cons.mpr ⟨fun hmem => ?_, ha.nodup⟩
    have hsome := (ha.mem a).mpr hmem
    rw [hfresh] at hsome
    cases hsome
  mem := fun b => by
    by_cases hb : b = a
    · simp [Heap.malloc, hb]
    · simpa [Heap.malloc, Function.update_of_ne hb, hb] using ha.mem b
  balanced := ha.balanced.malloc (some (a, c)) hfresh

/-- An allocated block can be freed, which leaves the others. -/
theorem Allocated.free (ha : h.Allocated (a :: bs)) :
    ∃ h', h.free (some a) = .ok h' ∧ h'.Allocated bs ∧ ∀ b, b ≠ a → h'.cell b = h.cell b := by
  obtain ⟨c, hc⟩ := Option.isSome_iff_exists.mp ((ha.mem a).mpr List.mem_cons_self)
  have hnot : a ∉ bs := (List.nodup_cons.mp ha.nodup).1
  refine ⟨_, free_some hc, ⟨(List.nodup_cons.mp ha.nodup).2, fun b => ?_, ha.balanced.free hc⟩,
    fun b hb => Function.update_of_ne hb _ _⟩
  by_cases hb : b = a
  · simp [hb, hnot]
  · simpa [Function.update_of_ne hb, hb] using ha.mem b

/-- Storing leaves what is allocated. -/
theorem Allocated.put (ha : h.Allocated bs) (hmem : a ∈ bs) (c : Cell) :
    (h.put a c).Allocated bs where
  nodup := ha.nodup
  mem := fun b => by
    by_cases hb : b = a
    · simp [hb, hmem]
    · rw [put_cell_of_ne h hb]
      exact ha.mem b
  balanced := by
    obtain ⟨c', hc'⟩ := Option.isSome_iff_exists.mp ((ha.mem a).mpr hmem)
    exact ha.balanced.modify hc' c

/-- A block outside the list is not allocated. -/
theorem Allocated.cell_eq_none (ha : h.Allocated bs) {b : Addr} (hb : b ∉ bs) :
    h.cell b = none := by
  rw [← Option.not_isSome_iff_eq_none, ha.mem b]
  exact hb

/-- With nothing allocated, every block was freed as often as it was allocated. -/
theorem Allocated.released (ha : h.Allocated []) (a : Addr) :
    h.log.count (.malloc a) = h.log.count (.free a) := by
  have hb := ha.balanced a
  rw [ha.cell_eq_none (List.not_mem_nil)] at hb
  simpa using hb

/-! ## Exactly what is held -/

/-- The blocks `bs` are what is allocated, with their contents. -/
structure Holds (h : Heap Addr Cell) (bs : List (Addr × Cell)) : Prop where
  allocated : h.Allocated (bs.map Prod.fst)
  cell : ∀ x ∈ bs, h.cell x.1 = some x.2

/-- Nothing is held at the start. -/
theorem holds_empty : Holds (empty : Heap Addr Cell) [] := ⟨allocated_empty, nofun⟩

variable {xs ys : List (Addr × Cell)} {c : Cell}

/-- The order of the blocks does not matter. -/
theorem Holds.perm (hh : h.Holds xs) (hp : xs.Perm ys) : h.Holds ys :=
  ⟨hh.allocated.perm (hp.map Prod.fst), fun x hx => hh.cell x (hp.mem_iff.mpr hx)⟩

/-- A fresh block is held with its content. -/
theorem Holds.malloc (hh : h.Holds xs) (hfresh : h.cell a = none) (c : Cell) :
    (h.malloc (some (a, c))).2.Holds ((a, c) :: xs) where
  allocated := hh.allocated.malloc hfresh c
  cell := fun x hx => by
    rcases List.mem_cons.mp hx with rfl | hx
    · exact Function.update_self _ _ _
    · have hcell := hh.cell x hx
      have hne : x.1 ≠ a := by
        rintro rfl
        rw [hfresh] at hcell
        cases hcell
      exact (Function.update_of_ne hne _ _).trans hcell

/-- A block that is held can be freed, and the others are still held. -/
theorem Holds.free (hh : h.Holds ((a, c) :: xs)) :
    ∃ h', h.free (some a) = .ok h' ∧ h'.Holds xs := by
  obtain ⟨h', hfree, hrest, hframe⟩ := hh.allocated.free
  refine ⟨h', hfree, hrest, fun x hx => ?_⟩
  have hnot := (List.nodup_cons.mp hh.allocated.nodup).1
  rw [hframe x.1, hh.cell x (List.mem_cons_of_mem _ hx)]
  intro hxa
  exact hnot (hxa ▸ List.mem_map_of_mem hx)

end Heap
