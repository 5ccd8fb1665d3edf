/-
# What a failed allocation does to a queue

`enqueue` writes through the pointer that `malloc` returned without looking at it, so
a failed allocation is a store through `NULL`.  `alloc_failure_law` says when a run in
which `malloc` may fail goes as it should: when it does not fail at all.
-/
import DataLogger.QueueRefinement

variable {ι Addr : Type*} [DecidableEq ι] [DecidableEq Addr]

/-- The run meets no memory fault, an enqueue without memory returns and leaves
everything as it was, and the dequeues return what FIFO lists of the values whose
allocation succeeded return. -/
structure SurvivesAllocFailure (garbage : ι → Queue Addr) (ops : List (QueueOp ι Addr)) : Prop where
  no_fault : (queueMachine.run (initialQueues garbage) ops).stop = none
  intact : queueMachine.Along
    (fun s op => ∀ i v, op = .enqueue i v none → queueMachine.step s op = .ok (s, none))
    (initialQueues garbage) ops
  fifo : (queueMachine.run (initialQueues garbage) ops).out = (fifoMachine.run noValues ops).out

/-- A run without a fault had memory for every enqueue. -/
theorem allocSucceeds_of_no_fault {s : QueueState ι Addr} {ops : List (QueueOp ι Addr)}
    (hrun : (queueMachine.run s ops).stop = none) : ∀ op ∈ ops, AllocSucceeds op := by
  intro op hop
  obtain ⟨s', t, hstep⟩ := Machine.exists_step_of_mem hrun hop
  rcases op with ⟨i, v, _ | block⟩ | i
  · rw [step_alloc_failed] at hstep
    cases hstep
  · exact Option.some_ne_none block
  · trivial

/-- **When allocation failures are survived.**  A run in which no allocation fails, and
in which fewer than `2 ^ 32` values wait in each queue, goes as it should; a run in
which one fails does not. -/
theorem alloc_failure_law (garbage : ι → Queue Addr) (ops : List (QueueOp ι Addr))
    (hfresh : queueMachine.Along MallocFresh (initialQueues garbage) ops) :
    ((∀ op ∈ ops, AllocSucceeds op) ∧ fifoMachine.Along (HoldsAtMost (2 ^ 32 - 1)) noValues ops →
      SurvivesAllocFailure garbage ops) ∧
    (SurvivesAllocFailure garbage ops → ∀ op ∈ ops, AllocSucceeds op) := by
  refine ⟨?_, fun h => allocSucceeds_of_no_fault h.no_fault⟩
  rintro ⟨hsucceeds, hbound⟩
  have hmalloc : queueMachine.Along MallocSucceeds (initialQueues garbage) ops :=
    hfresh.and (Machine.along_of_forall_mem hsucceeds)
  obtain ⟨s, hrun, -⟩ := represents_run (by decide) ops (represents_initial garbage)
    (length_noValues_le _) hmalloc hbound
  refine ⟨by rw [hrun], ?_, by rw [hrun]⟩
  refine (Machine.along_of_forall_mem hsucceeds).mono fun s op hop i v hnone => ?_
  subst hnone
  exact absurd rfl hop

theorem alloc_failure_law_reuse :
    SurvivesAllocFailure (fun _ : Fin 2 => ⟨3, some 8, none⟩) reuseOps :=
  (alloc_failure_law (fun _ => ⟨3, some 8, none⟩) reuseOps (by decide)).1 ⟨by decide, by decide⟩

/-- `malloc` answers `NULL` on the second enqueue. -/
def outOfMemoryOps : List (QueueOp Unit ℕ) :=
  [.enqueue () 5 (some (1, junkNode)), .enqueue () 7 none, .dequeue ()]

/-- The second enqueue stores through `NULL`, and the run ends there although a value
waits that the FIFO list goes on to return. -/
theorem out_of_memory_dereferences_null :
    queueMachine.Along MallocFresh
      (initialQueues fun _ : Unit => ⟨3, some 8, none⟩) outOfMemoryOps ∧
      (queueMachine.run (initialQueues fun _ : Unit => ⟨3, some 8, none⟩) outOfMemoryOps).stop =
        some .null ∧
      (fifoMachine.run noValues outOfMemoryOps).out = [none, none, some 5] ∧
      ¬ SurvivesAllocFailure (fun _ => ⟨3, some 8, none⟩) outOfMemoryOps := by
  have hstop : (queueMachine.run (initialQueues fun _ : Unit => ⟨3, some 8, none⟩)
      outOfMemoryOps).stop = some .null := by decide
  refine ⟨by decide, hstop, by decide, fun h => ?_⟩
  rw [h.no_fault] at hstop
  cases hstop
