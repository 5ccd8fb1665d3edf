/-
# The pointer queue (`queue.h`, `queue.c`, `run.c`)

The singly linked queue of the server: a `Queue` counts its nodes in `size` and
points at the first and the last of them.  Nodes live on the heap; `enqueue` takes
one from `malloc` and `dequeue` gives it back to `free`.

The model follows the source statement by statement.  Two points are worth knowing:

* `int` is 32 bits wide and wraps, as in the code the compiler emits (the C standard
  leaves the overflow of `++(q->size)` undefined);
* `dequeue` leaves `tail` alone, so after the last node is gone `tail` points at
  freed memory.
-/
import DataLogger.CTypes
import DataLogger.Library.Machine
import DataLogger.Library.LinkedChain
import DataLogger.Library.Fifo

/-! ## Data types (`queue.h`) -/

/-- `node_data_type`. -/
abbrev NodeDataType := CInt

/-- `QUEUE_EMPTY`. -/
def queueEmpty : NodeDataType := -9999

/-- `Node`. -/
structure Node (Addr : Type*) where
  value : NodeDataType
  next : Ptr Addr
  deriving DecidableEq, Repr

/-- `Queue`. -/
structure Queue (Addr : Type*) where
  size : CInt
  head : Ptr Addr
  tail : Ptr Addr
  deriving DecidableEq, Repr

/-- The heap that the nodes live on. -/
abbrev NodeHeap (Addr : Type*) := Heap Addr (Node Addr)

/-! ## Operations (`queue.c`) -/

section Operations

variable {Addr : Type*} [DecidableEq Addr]

/-- `queue_init`. -/
def queueInit (q : Queue Addr) : Queue Addr :=
  let q := { q with size := 0 }
  let q := { q with head := none }
  { q with tail := none }

/-- `enqueue`; `ans` is what `malloc` answers.  The answer is not tested. -/
def enqueue (q : Queue Addr) (value : NodeDataType) (ans : Option (Addr × Node Addr))
    (h : NodeHeap Addr) : Except (Heap.Fault Addr) (Queue Addr × NodeHeap Addr) := do
  let (newNode, h) := h.malloc ans
  let h ← h.modify (fun n => { n with value := value }) newNode
  let h ← h.modify (fun n => { n with next := none }) newNode
  let (q, h) ←
    if q.size ≠ 0 then do
      let h ← h.modify (fun n => { n with next := newNode }) q.tail
      pure (q, h)
    else
      pure ({ q with head := newNode }, h)
  let q := { q with tail := newNode }
  let q := { q with size := q.size + 1 }
  return (q, h)

/-- `dequeue`. -/
def dequeue (q : Queue Addr) (h : NodeHeap Addr) :
    Except (Heap.Fault Addr) (NodeDataType × Queue Addr × NodeHeap Addr) := do
  if q.size ≠ 0 then
    let n ← h.read q.head
    let res := n.value
    let old := q.head
    let n ← h.read q.head
    let q := { q with head := n.next }
    let h ← h.free old
    let q := { q with size := q.size - 1 }
    return (res, q, h)
  return (queueEmpty, q, h)

/-- The printing loop of `main` (`run.c`): the values from `head` up to `NULL`.
The result is `none` when the fuel runs out before `NULL` is met. -/
def printQueue (h : NodeHeap Addr) :
    ℕ → Ptr Addr → Option (Except (Heap.Fault Addr) (List NodeDataType))
  | _, none => some (.ok [])
  | 0, some _ => none
  | fuel + 1, some a =>
      match h.read (some a) with
      | .error f => some (.error f)
      | .ok n => (printQueue h fuel n.next).map (Except.map (n.value :: ·))

/-! ## What each operation does

One equation per path; nothing below unfolds the operations again. -/

variable {q : Queue Addr} {h : NodeHeap Addr}

/-- A failed allocation is dereferenced at once. -/
theorem enqueue_alloc_failed (q : Queue Addr) (v : NodeDataType) (h : NodeHeap Addr) :
    enqueue q v none h = .error .null := rfl

/-- With `size = 0` the new node becomes both ends. -/
theorem enqueue_of_size_eq_zero (hsize : q.size = 0) (v : NodeDataType) (a : Addr)
    (junk : Node Addr) :
    enqueue q v (some (a, junk)) h =
      .ok (⟨q.size + 1, some a, some a⟩,
        ⟨Function.update h.cell a (some ⟨v, none⟩), .malloc a :: h.log⟩) := by
  simp [enqueue, Heap.malloc, Heap.modify, hsize, bind, Except.bind, pure, Except.pure]

/-- With `size ≠ 0` the new node is hung behind the node that `tail` points at. -/
theorem enqueue_of_size_ne_zero (hsize : q.size ≠ 0) (v : NodeDataType) {a t : Addr}
    (junk : Node Addr)
    (htail : q.tail = some t) (hta : t ≠ a) {n : Node Addr} (hn : h.cell t = some n) :
    enqueue q v (some (a, junk)) h =
      .ok (⟨q.size + 1, q.head, some a⟩,
        ⟨Function.update (Function.update h.cell a (some ⟨v, none⟩)) t (some ⟨n.value, some a⟩),
          .malloc a :: h.log⟩) := by
  have hsize' : ¬ q.size = 0#32 := hsize
  simp [enqueue, Heap.malloc, Heap.modify, hsize', htail, hta, hn, bind, Except.bind, pure,
    Except.pure]

/-- With `size = 0` nothing is read or written. -/
theorem dequeue_of_size_eq_zero (hsize : q.size = 0) (h : NodeHeap Addr) :
    dequeue q h = .ok (queueEmpty, q, h) := by
  simp [dequeue, hsize, pure, Except.pure]

/-- With `size ≠ 0` the first node is unlinked and freed. -/
theorem dequeue_of_size_ne_zero (hsize : q.size ≠ 0) {a : Addr} (hhead : q.head = some a)
    {n : Node Addr} (hn : h.cell a = some n) :
    dequeue q h =
      .ok (n.value, ⟨q.size - 1, n.next, q.tail⟩,
      ⟨Function.update h.cell a none, .free a :: h.log⟩) := by
  have hsize' : ¬ q.size = 0#32 := hsize
  simp [dequeue, hsize', hhead, Heap.read_some hn, Heap.free_some hn, bind, Except.bind, pure,
    Except.pure]

omit [DecidableEq Addr] in
/-- The printing loop reaches the end of a chain and prints its values in order. -/
theorem printQueue_of_linked {p : Ptr Addr} {xs : List (Addr × Node Addr)}
    (hl : Linked Node.next h p xs) {fuel : ℕ} (hfuel : xs.length ≤ fuel) :
    printQueue h fuel p = some (.ok (xs.map (·.2.value))) := by
  induction xs generalizing p fuel with
  | nil =>
      rw [Linked.nil_iff] at hl
      subst hl
      cases fuel <;> rfl
  | cons x xs ih =>
      obtain ⟨a, n⟩ := x
      obtain ⟨rfl, hn, htail⟩ := hl
      cases fuel with
      | zero => simp at hfuel
      | succ fuel =>
          have hrest := ih htail (by simpa using hfuel)
          simp [printQueue, Heap.read_some hn, hrest, Except.map]

end Operations

/-! ## Several queues on one heap -/

section System

variable {ι Addr : Type*} [DecidableEq ι] [DecidableEq Addr]

/-- The `Queue` variables of a program and the heap they share. -/
structure QueueState (ι Addr : Type*) where
  queues : ι → Queue Addr
  heap : NodeHeap Addr

/-- A call on one of the queues; a call of `enqueue` carries the answer of its `malloc`. -/
inductive QueueOp (ι Addr : Type*)
  | enqueue (i : ι) (value : NodeDataType) (ans : Option (Addr × Node Addr))
  | dequeue (i : ι)

/-- The queue that an operation is called on. -/
def QueueOp.queue : QueueOp ι Addr → ι
  | .enqueue i _ _ => i
  | .dequeue i => i

/-- The queues as a machine: an event is a call, an observation is its return value
(`none` for the `void` function `enqueue`), and only a memory fault stops it. -/
def queueMachine : Machine (QueueState ι Addr) (QueueOp ι Addr) (Option NodeDataType)
    (Heap.Fault Addr) where
  step s
    | .enqueue i v ans =>
        (enqueue (s.queues i) v ans s.heap).map fun (q, h) =>
          (⟨Function.update s.queues i q, h⟩, none)
    | .dequeue i =>
        (dequeue (s.queues i) s.heap).map fun (res, q, h) =>
          (⟨Function.update s.queues i q, h⟩, some res)

/-- The program after `queue_init` on each of its `Queue` variables, whose contents
were indeterminate before. -/
def initialQueues (garbage : ι → Queue Addr) : QueueState ι Addr :=
  ⟨fun i => queueInit (garbage i), Heap.empty⟩

/-- `malloc` obeys its contract: a block it returns is not allocated already. -/
def MallocFresh (s : QueueState ι Addr) : QueueOp ι Addr → Prop
  | .enqueue _ _ ans => s.heap.Fresh ans
  | .dequeue _ => True

instance (s : QueueState ι Addr) : DecidablePred (MallocFresh s)
  | .enqueue _ _ none => isTrue trivial
  | .enqueue _ _ (some (a, _)) => inferInstanceAs (Decidable (s.heap.cell a = none))
  | .dequeue _ => isTrue trivial

/-- The operation does not run out of memory. -/
def AllocSucceeds : QueueOp ι Addr → Prop
  | .enqueue _ _ ans => ans ≠ none
  | .dequeue _ => True

instance : (op : QueueOp ι Addr) → Decidable (AllocSucceeds op)
  | .enqueue _ _ none => isFalse fun h => h rfl
  | .enqueue _ _ (some _) => isTrue (Option.some_ne_none _)
  | .dequeue _ => isTrue trivial

/-- `malloc` succeeds, with any address that is not allocated. -/
def MallocSucceeds (s : QueueState ι Addr) (op : QueueOp ι Addr) : Prop :=
  MallocFresh s op ∧ AllocSucceeds op

instance (s : QueueState ι Addr) : DecidablePred (MallocSucceeds s) :=
  fun op => inferInstanceAs (Decidable (MallocFresh s op ∧ AllocSucceeds op))

/-- The values that wait in queue `i`: those on the chain from `head`. -/
def Pending (s : QueueState ι Addr) (i : ι) (vs : List NodeDataType) : Prop :=
  ∃ nodes, Linked Node.next s.heap (s.queues i).head nodes ∧ nodes.map (·.2.value) = vs

end System
