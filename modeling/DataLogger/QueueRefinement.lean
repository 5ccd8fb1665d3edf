/-
# The pointer queues refine FIFO lists and own the heap

Two results about every interleaving of `enqueue` and `dequeue` over a family of
queues on one heap, where `malloc` succeeds with any address that is not allocated
and no queue holds more than `INT_MAX` values:

* `queue_refines_fifo` : the queues return what independent FIFO lists return, and a
  stale `tail` influences nothing;
* `queue_heap_ownership` : the chains of the queues are exactly what is allocated.
-/
import DataLogger.QueueInvariant
import Mathlib.Data.Fin.VecNotation

variable {ι Addr : Type*} [DecidableEq ι] [DecidableEq Addr]

omit [DecidableEq ι] in
/-- A queue never reaches `INT_MAX` by starting empty. -/
theorem length_noValues_le (n : ℕ) (i : ι) : (noValues i).length ≤ n := Nat.zero_le n

/-! ## Stale tails -/

/-- The state with the `tail` of every queue of size zero replaced. -/
def withTails (s : QueueState ι Addr) (tails : ι → Ptr Addr) : QueueState ι Addr :=
  { s with
    queues := fun i =>
      if (s.queues i).size = 0 then { s.queues i with tail := tails i } else s.queues i }

omit [DecidableEq ι] [DecidableEq Addr] in
@[simp] theorem withTails_heap (s : QueueState ι Addr) (tails : ι → Ptr Addr) :
    (withTails s tails).heap = s.heap := rfl

omit [DecidableEq ι] [DecidableEq Addr] in
@[simp] theorem withTails_head (s : QueueState ι Addr) (tails : ι → Ptr Addr) (i : ι) :
    ((withTails s tails).queues i).head = (s.queues i).head := by
  unfold withTails
  dsimp only
  split <;> rfl

omit [DecidableEq ι] [DecidableEq Addr] in
@[simp] theorem withTails_size (s : QueueState ι Addr) (tails : ι → Ptr Addr) (i : ι) :
    ((withTails s tails).queues i).size = (s.queues i).size := by
  unfold withTails
  dsimp only
  split <;> rfl

omit [DecidableEq ι] in
/-- The invariant does not look at the tail of an empty queue. -/
theorem Owns.staleTails {s : QueueState ι Addr} {nodes : ι → List (Addr × Node Addr)}
    (ho : Owns s nodes)
    (tails : ι → Ptr Addr) (hlen : ∀ i, (nodes i).length < 2 ^ 32) :
    Owns (withTails s tails) nodes where
  linked := fun i => by simpa using ho.linked i
  size := fun i => by simpa using ho.size i
  tail := fun i xs x hx => by
    have hsize : (s.queues i).size ≠ 0 := ho.size_ne_zero (hlen i) (by simp [hx])
    have hsame : (withTails s tails).queues i = s.queues i := if_neg hsize
    rw [hsame]
    exact ho.tail i xs x hx
  disjoint := ho.disjoint
  owned := ho.owned
  balanced := ho.balanced

/-! ## Refinement -/

/-- An operation leaves the values that wait in other queues, and their order. -/
theorem pending_of_ne {s s' : QueueState ι Addr} {L : ι → List NodeDataType} {op : QueueOp ι Addr}
    {r : Option NodeDataType} (hr : Represents s L) (hlen : (L op.queue).length < 2 ^ 32)
    (hm : MallocSucceeds s op) (hstep : queueMachine.step s op = .ok (s', r)) {j : ι}
    (hj : j ≠ op.queue) {vs : List NodeDataType} (hp : Pending s j vs) : Pending s' j vs := by
  obtain ⟨s'', hok, hr'⟩ := represents_step hr hlen hm
  rw [hstep, Except.ok.injEq, Prod.mk.injEq] at hok
  obtain ⟨rfl, -⟩ := hok
  have hj' := hr'.pending j
  rwa [fifoStep_of_ne L op hj, (hr.pending j).unique hp] at hj'

/-- **The pointer queues refine FIFO lists.**  After every interleaving `ops` of calls:
the calls have returned what the FIFO lists return, the chain of each queue carries
its list, a dequeue on an empty queue answers `QUEUE_EMPTY` and changes nothing, a
call on one queue leaves the values of the others, and whatever the tails of the
empty queues point at makes no difference to any continuation `more`. -/
theorem queue_refines_fifo (garbage : ι → Queue Addr) (ops : List (QueueOp ι Addr))
    (hmalloc : queueMachine.Along MallocSucceeds (initialQueues garbage) ops)
    (hbound : fifoMachine.Along (HoldsAtMost intMax) noValues ops) :
    ∃ s L, fifoMachine.run noValues ops = ⟨L, (fifoMachine.run noValues ops).out, none⟩ ∧
      queueMachine.run (initialQueues garbage) ops =
        ⟨s, (fifoMachine.run noValues ops).out, none⟩ ∧
      (∀ i, Pending s i (L i)) ∧
      (∀ i, L i = [] → queueMachine.step s (.dequeue i) = .ok (s, some queueEmpty)) ∧
      (∀ op s' r, MallocSucceeds s op → queueMachine.step s op = .ok (s', r) →
        ∀ j, j ≠ op.queue → ∀ vs, Pending s j vs → Pending s' j vs) ∧
      (∀ tails more, queueMachine.Along MallocSucceeds (withTails s tails) more →
        fifoMachine.Along (HoldsAtMost intMax) L more →
        ∃ s', queueMachine.run (withTails s tails) more =
          ⟨s', (fifoMachine.run L more).out, none⟩) := by
  obtain ⟨s, hrun, hr, hL⟩ := represents_run intMax_lt ops (represents_initial garbage)
    (length_noValues_le intMax) hmalloc hbound
  have hlt : ∀ i, ((fifoMachine.run noValues ops).state i).length < 2 ^ 32 :=
    fun i => lt_of_le_of_lt (hL i) intMax_lt
  refine ⟨s, (fifoMachine.run noValues ops).state, ?_, hrun, hr.pending, ?_, ?_, ?_⟩
  · exact Machine.Outcome.ext rfl rfl (fifo_run_stop noValues ops)
  · intro i hi
    obtain ⟨nodes, ho, hvalues⟩ := hr
    have hnil : nodes i = [] := values_eq_nil_iff.mp (hvalues ▸ hi)
    exact step_dequeue_of_size_eq_zero ((ho.size_eq_zero_iff (by simp [hnil])).mpr hnil)
  · intro op s' r hm hstep j hj vs hp
    exact pending_of_ne hr (hlt op.queue) hm hstep hj hp
  · intro tails more hmalloc' hbound'
    obtain ⟨nodes, ho, hvalues⟩ := hr
    have hlen : ∀ i, (nodes i).length < 2 ^ 32 := by
      intro i
      have := hlt i
      rwa [← hvalues, length_values] at this
    obtain ⟨s', hrun', -⟩ :=
      represents_run intMax_lt more ⟨nodes, ho.staleTails tails hlen, hvalues⟩ hL
      hmalloc' hbound'
    exact ⟨s', hrun'⟩

/-- Indeterminate contents for the examples below. -/
def junkNode : Node ℕ := ⟨77, some 13⟩

/-- Two queues; the address that the first one frees comes back for the second, while
the first one's tail still points at it. -/
def reuseOps : List (QueueOp (Fin 2) ℕ) :=
  [.enqueue 0 5 (some (1, junkNode)), .dequeue 0, .enqueue 1 7 (some (1, junkNode)),
    .enqueue 0 9 (some (2, junkNode)), .dequeue 1, .dequeue 0, .dequeue 0]

/-- Two queues, and an address that is used again. -/
theorem queue_refines_fifo_reuse :
    ∃ s, queueMachine.run (initialQueues fun _ => ⟨3, some 8, none⟩) reuseOps =
      ⟨s, [none, some 5, none, none, some 7, some 9, some queueEmpty], none⟩ := by
  obtain ⟨s, -, -, hrun, -⟩ :=
    queue_refines_fifo (fun _ => ⟨3, some 8, none⟩) reuseOps (by decide) (by decide)
  exact ⟨s, hrun⟩

/-! ## Ownership -/

/-- Who owns the heap in the state `s`, when queue `i` has the nodes `nodes i` and its
waiting values are `L i`. -/
structure HeapOwnership (s : QueueState ι Addr) (nodes : ι → List (Addr × Node Addr))
    (L : ι → List NodeDataType) : Prop where
  /-- The chain from `head` is `NULL`-terminated and consists of the queue's nodes. -/
  chain : ∀ i, Linked Node.next s.heap (s.queues i).head (nodes i)
  /-- No chain meets an address twice. -/
  acyclic : ∀ i, (addrs (nodes i)).Nodup
  /-- `size` is the number of nodes. -/
  size : ∀ i, (s.queues i).size.toInt = (nodes i).length
  /-- `tail` is the last node whenever there is one. -/
  tail : ∀ i, 0 < (s.queues i).size.toInt → ∃ xs x, nodes i = xs ++ [x] ∧
    (s.queues i).tail = some x.1
  /-- `head` is `NULL` whenever the size is zero. -/
  head : ∀ i, (s.queues i).size = 0 → (s.queues i).head = none
  /-- What is allocated is the union of the chains, -/
  allocated : ∀ a, (s.heap.cell a).isSome ↔ ∃ i, a ∈ addrs (nodes i)
  /-- and the union is disjoint. -/
  disjoint : ∀ i j, i ≠ j → (addrs (nodes i)).Disjoint (addrs (nodes j))
  /-- Every release undid one allocation, and the rest is still allocated. -/
  released : ∀ a, s.heap.log.count (.malloc a) =
    s.heap.log.count (.free a) + if (s.heap.cell a).isSome then 1 else 0
  /-- Drained queues leave nothing behind. -/
  drained : (∀ i, (s.queues i).size = 0) → ∀ a, s.heap.cell a = none
  /-- The next call meets no memory fault: what it dereferences or frees is allocated. -/
  safe : ∀ op, MallocSucceeds s op → ∃ s' r, queueMachine.step s op = .ok (s', r)
  /-- The printing loop terminates and visits the waiting values, oldest first. -/
  printed : ∀ i fuel, (nodes i).length ≤ fuel →
    printQueue s.heap fuel (s.queues i).head = some (.ok (L i))

/-- **The queues own the heap** in every state that calls of `enqueue` and `dequeue`
reach from `queue_init`. -/
theorem queue_heap_ownership (garbage : ι → Queue Addr) (ops : List (QueueOp ι Addr))
    (hmalloc : queueMachine.Along MallocSucceeds (initialQueues garbage) ops)
    (hbound : fifoMachine.Along (HoldsAtMost intMax) noValues ops) :
    ∃ s nodes,
      queueMachine.run (initialQueues garbage) ops =
        ⟨s, (fifoMachine.run noValues ops).out, none⟩ ∧
      HeapOwnership s nodes (fifoMachine.run noValues ops).state := by
  obtain ⟨s, hrun, ⟨nodes, ho, hvalues⟩, hL⟩ :=
    represents_run intMax_lt ops (represents_initial garbage)
    (length_noValues_le intMax) hmalloc hbound
  have hle : ∀ i, (nodes i).length ≤ intMax := by
    intro i
    have := hL i
    rwa [← hvalues, length_values] at this
  have hlt : ∀ i, (nodes i).length < 2 ^ 32 := fun i => lt_of_le_of_lt (hle i) intMax_lt
  have hnil : ∀ i, (s.queues i).size = 0 → nodes i = [] := fun i => (ho.size_eq_zero_iff (hlt i)).mp
  refine ⟨s, nodes, hrun, ho.linked, fun i => (ho.linked i).nodup, ?_, ?_, ?_, ?_, ho.disjoint,
    ho.balanced, ?_, ?_, ?_⟩
  · intro i
    rw [ho.size i]
    exact toInt_ofNat_of_le_intMax (hle i)
  · intro i hpos
    have hne : nodes i ≠ [] := fun h => by
      simp [ho.size i, h] at hpos
    have hlast := (List.dropLast_append_getLast hne).symm
    exact ⟨(nodes i).dropLast, (nodes i).getLast hne, hlast, ho.tail i _ _ hlast⟩
  · intro i hsize
    exact (ho.linked i).head_eq_none_iff.mpr (hnil i hsize)
  · intro a
    constructor
    · exact ho.owned a
    · rintro ⟨i, hi⟩
      exact (ho.linked i).isSome_of_mem_addrs hi
  · intro hdrained
    exact ho.heap_empty fun i => hnil i (hdrained i)
  · intro op hm
    obtain ⟨s', -, r, hok, -⟩ := owns_step ho (hlt op.queue) hm
    exact ⟨s', r, hok⟩
  · intro i fuel hfuel
    rw [printQueue_of_linked (ho.linked i) hfuel, ← hvalues]
    rfl

/-- The heap in the middle of the same run. -/
theorem queue_heap_ownership_reuse :
    ∃ s nodes, queueMachine.run (initialQueues fun _ => ⟨3, some 8, none⟩) (reuseOps.take 4) =
        ⟨s, [none, some 5, none, none], none⟩ ∧
      HeapOwnership s nodes ![[9], [7]] := by
  have hlists : (fifoMachine.run noValues (reuseOps.take 4)).state = ![[9], [7]] := by decide
  rw [← hlists]
  exact queue_heap_ownership (fun _ => ⟨3, some 8, none⟩) (reuseOps.take 4) (by decide) (by decide)
