/-
# The size counter

The queue decides whether it is empty by its counter `size`, an `int` that `enqueue`
increments without a bound.  `size_counter_law` says when the counter can be trusted
along a run: exactly as long as no queue ever holds more than `INT_MAX` values.  Past
that bound the counter turns negative, and after `2 ^ 32` values it is zero again:
then a dequeue reports an empty queue and an enqueue forgets the whole chain
(`counter_wraps_to_zero`).
-/
import DataLogger.QueueRefinement

variable {ι Addr : Type*} [DecidableEq ι] [DecidableEq Addr]

/-! ## What the counter should tell -/

/-- The counter of every queue is the number of nodes on its chain, and the test
`if (q->size)` tells whether there is one. -/
structure CountsNodes (s : QueueState ι Addr) : Prop where
  terminated : ∀ i, ∃ vs, Pending s i vs
  size : ∀ i vs, Pending s i vs → (s.queues i).size.toInt = vs.length
  test : ∀ i, (s.queues i).size = 0 ↔ (s.queues i).head = none

/-- The operation finds and leaves exact counters: `++size` does not overflow, `head`
is not overwritten while values wait, and a dequeue finds the value that waits. -/
structure KeepsCount (s : QueueState ι Addr) (op : QueueOp ι Addr) : Prop where
  before : CountsNodes s
  no_overflow : ∀ i v ans, op = .enqueue i v ans →
    ((s.queues i).size + 1).toInt = (s.queues i).size.toInt + 1
  head : ∀ i v ans, op = .enqueue i v ans → (s.queues i).head ≠ none →
    ∀ s' r, queueMachine.step s op = .ok (s', r) → (s'.queues i).head = (s.queues i).head
  found : ∀ i v vs, op = .dequeue i → Pending s i (v :: vs) →
    ∀ s' r, queueMachine.step s op = .ok (s', r) → r = some v
  after : ∃ s' r, queueMachine.step s op = .ok (s', r) ∧ CountsNodes s'

/-! ## When it does -/

variable {s : QueueState ι Addr} {nodes : ι → List (Addr × Node Addr)} {op : QueueOp ι Addr}
  {L : ι → List NodeDataType}

omit [DecidableEq ι] in
/-- Up to `INT_MAX` nodes the counters are exact. -/
theorem Owns.countsNodes (ho : Owns s nodes) (hle : ∀ i, (nodes i).length ≤ intMax) :
    CountsNodes s where
  terminated := fun i => ⟨_, nodes i, ho.linked i, rfl⟩
  size := fun i vs hp => by
    have hvs : vs = (nodes i).map (·.2.value) := hp.unique ⟨nodes i, ho.linked i, rfl⟩
    rw [ho.size i, hvs, List.length_map]
    exact toInt_ofNat_of_le_intMax (hle i)
  test := fun i => by
    rw [ho.size_eq_zero_iff (lt_of_le_of_lt (hle i) intMax_lt)]
    exact (ho.linked i).head_eq_none_iff.symm

omit [DecidableEq ι] in
theorem Represents.countsNodes (hr : Represents s L) (hle : ∀ i, (L i).length ≤ intMax) :
    CountsNodes s := by
  obtain ⟨nodes, ho, rfl⟩ := hr
  apply ho.countsNodes
  intro i
  rw [← length_values]
  exact hle i

omit [DecidableEq ι] in
/-- Below `INT_MAX` the counter can be incremented. -/
theorem Owns.toInt_size_succ (ho : Owns s nodes) {i : ι} (hle : (nodes i).length + 1 ≤ intMax) :
    ((s.queues i).size + 1).toInt = (s.queues i).size.toInt + 1 := by
  have hsucc := toInt_ofNat_of_le_intMax hle
  rw [BitVec.ofNat_add] at hsucc
  rw [ho.size i, toInt_ofNat_of_le_intMax (Nat.le_of_succ_le hle)]
  exact_mod_cast hsucc

/-- An enqueue leaves the head of a queue that holds nodes. -/
theorem Owns.step_enqueue_head (ho : Owns s nodes) {i : ι} (hlen : (nodes i).length < 2 ^ 32)
    {v : NodeDataType} {ans : Option (Addr × Node Addr)} (hm : MallocSucceeds s (.enqueue i v ans))
    (hhead : (s.queues i).head ≠ none) {s' : QueueState ι Addr} {r : Option NodeDataType}
    (hstep : queueMachine.step s (.enqueue i v ans) = .ok (s', r)) :
    (s'.queues i).head = (s.queues i).head := by
  rcases ans with _ | ⟨a, junk⟩
  · exact absurd rfl hm.2
  · obtain ⟨q, h', ns, hok, henq⟩ := ho.enqueued hlen v junk hm.1
    rw [step_enqueue hok] at hstep
    cases hstep
    have hne : nodes i ≠ [] := fun h => hhead ((ho.linked i).head_eq_none_iff.mpr h)
    simpa using henq.head hne

/-- **One step.**  In a state whose counters have not run over, an operation keeps them
exact exactly when it does not put more than `INT_MAX` values on a queue. -/
theorem keepsCount_iff (hr : Represents s L) (hle : ∀ i, (L i).length ≤ intMax)
    (hm : MallocSucceeds s op) : KeepsCount s op ↔ HoldsAtMost intMax L op := by
  have hlt : (L op.queue).length < 2 ^ 32 := lt_of_le_of_lt (hle op.queue) intMax_lt
  have hcount := hr.countsNodes hle
  have hsize : ∀ i, (s.queues i).size.toInt = (L i).length :=
    fun i => hcount.size i (L i) (hr.pending i)
  obtain ⟨s', hok, hr'⟩ := represents_step hr hlt hm
  constructor
  · intro hkeeps j
    rcases op with ⟨i, v, _ | block⟩ | i
    · exact absurd rfl hm.2
    · by_cases hj : j = i
      · -- the incremented counter is an `int`, so the new length is bounded by `INT_MAX`
        subst hj
        have hsucc := hkeeps.no_overflow j v (some block) rfl
        have hmax := toInt_le_intMax ((s.queues j).size + 1)
        rw [hsucc, hsize j] at hmax
        simp only [fifoStep, Fifo.push_self, List.length_append, List.length_singleton]
        omega
      · rw [fifoStep_of_ne L _ hj]
        exact hle j
    · exact (Fifo.length_pop_le L i j).trans (hle j)
  · intro hbound
    have hafter : CountsNodes s' := hr'.countsNodes hbound
    refine ⟨hcount, ?_, ?_, ?_, s', _, hok, hafter⟩
    · rintro i v ans rfl
      rcases ans with _ | block
      · exact absurd rfl hm.2
      · have hi := hbound i
        simp only [fifoStep, Fifo.push_self, List.length_append, List.length_singleton] at hi
        obtain ⟨nodes, ho, rfl⟩ := hr
        rw [length_values] at hi
        exact ho.toInt_size_succ hi
    · rintro i v ans rfl hhead s'' r hstep
      obtain ⟨nodes, ho, rfl⟩ := hr
      rw [length_values] at hlt
      exact ho.step_enqueue_head hlt hm hhead hstep
    · rintro i v vs rfl hp s'' r hstep
      have hL : L i = v :: vs := (hr.pending i).unique hp
      rw [hok] at hstep
      cases hstep
      simp [fifoStep, hL]

/-- **Whole runs**, from any state whose counters are exact. -/
theorem along_keepsCount_iff {ops : List (QueueOp ι Addr)} (hr : Represents s L)
    (hle : ∀ i, (L i).length ≤ intMax) (hmalloc : queueMachine.Along MallocSucceeds s ops) :
    queueMachine.Along KeepsCount s ops ↔ fifoMachine.Along (HoldsAtMost intMax) L ops := by
  refine Machine.along_iff_along_of_simulation
    (R := fun s L => Represents s L ∧ ∀ i, (L i).length ≤ intMax) hmalloc ⟨hr, hle⟩ ?_ ?_
  · rintro s L op ⟨hr, hle⟩ hm
    exact keepsCount_iff hr hle hm
  · rintro s L op ⟨hr, hle⟩ hm hbound
    obtain ⟨s', hok, hr'⟩ := represents_step hr (lt_of_le_of_lt (hle op.queue) intMax_lt) hm
    exact ⟨s', _, _, hok, rfl, hr', hbound⟩

/-- **When the counter can be trusted.**  Along every run of calls from `queue_init`
with `malloc` succeeding, the counters are exact exactly when no queue ever holds more
than `INT_MAX` values. -/
theorem size_counter_law (garbage : ι → Queue Addr) (ops : List (QueueOp ι Addr))
    (hmalloc : queueMachine.Along MallocSucceeds (initialQueues garbage) ops) :
    queueMachine.Along KeepsCount (initialQueues garbage) ops ↔
      fifoMachine.Along (HoldsAtMost intMax) noValues ops :=
  along_keepsCount_iff (represents_initial garbage) (length_noValues_le intMax) hmalloc

theorem size_counter_law_reuse :
    queueMachine.Along KeepsCount (initialQueues fun _ => ⟨3, some 8, none⟩) reuseOps :=
  (size_counter_law (fun _ => ⟨3, some 8, none⟩) reuseOps (by decide)).mpr (by decide)

/-! ## Past the bound -/

/-- `n` values for one queue, in blocks of 16 bytes from address 16 on, as a 64-bit
`malloc` may place them.  Irreducible, so that nothing evaluates the list. -/
@[irreducible]
def manyNodes (n : ℕ) : List (NodeDataType × BitVec 64 × Node (BitVec 64)) :=
  (List.range n).map fun k => (7, BitVec.ofNat 64 (16 * (k + 1)), ⟨0, none⟩)

theorem length_manyNodes (n : ℕ) : (manyNodes n).length = n := by
  rw [manyNodes, List.length_map, List.length_range]

/-- Up to `2 ^ 32` of these blocks have distinct addresses. -/
theorem nodup_manyNodes {n : ℕ} (hn : n ≤ 2 ^ 32) : ((manyNodes n).map (·.2.1)).Nodup := by
  unfold manyNodes
  rw [List.map_map]
  apply List.Nodup.map_on _ List.nodup_range
  intro j hj k hk heq
  rw [List.mem_range] at hj hk
  have hnat := congrArg BitVec.toNat heq
  simp only [Function.comp_apply, BitVec.toNat_ofNat] at hnat
  omega

omit [DecidableEq Addr] in
/-- A run under a bound ends under it. -/
theorem length_run_le {n : ℕ} {ops : List (QueueOp ι Addr)} (hL : ∀ i, (L i).length ≤ n)
    (hbound : fifoMachine.Along (HoldsAtMost n) L ops) (i : ι) :
    ((fifoMachine.run L ops).state i).length ≤ n := by
  have hinv := Machine.invariant_run (I := fun L => ∀ i, (L i).length ≤ n) hbound hL
  apply hinv
  intro L op L' r _ hb hstep
  have hfifo : fifoStep L op = (L', r) := Except.ok.inj hstep
  have hb' : ∀ i, ((fifoStep L op).1 i).length ≤ n := hb
  rwa [hfifo] at hb'

/-- Many enqueues on one queue: all the values wait, and the counter is their number
modulo `2 ^ 32`; it was not exact all the way if there are more than `INT_MAX`. -/
theorem counter_after_fill (garbage : Unit → Queue (BitVec 64)) {n : ℕ} (hn : n ≤ 2 ^ 32) :
    queueMachine.Along MallocSucceeds (initialQueues garbage) (fill () (manyNodes n)) ∧
      (intMax < n →
        ¬ queueMachine.Along KeepsCount (initialQueues garbage) (fill () (manyNodes n))) ∧
      ∃ s out vs,
        queueMachine.run (initialQueues garbage) (fill () (manyNodes n)) = ⟨s, out, none⟩ ∧
        Pending s () vs ∧ vs.length = n ∧ (s.queues ()).size = BitVec.ofNat 32 n := by
  have hempty : ∀ x ∈ manyNodes n, (initialQueues garbage).heap.cell x.2.1 = none := fun _ _ => rfl
  obtain ⟨hmalloc, s, out, nodes, hrun, ho, hvalues⟩ :=
    (owns_initial garbage).run_fill () (manyNodes n)
      (by rw [length_manyNodes, List.length_nil, Nat.zero_add]; exact hn) hempty
        (nodup_manyNodes hn)
  have hlen : (nodes ()).length = n := by
    have hlen := congrArg List.length hvalues
    rwa [List.length_map, List.length_append, List.length_map, List.length_map, length_manyNodes,
      List.length_nil, Nat.zero_add] at hlen
  refine ⟨hmalloc, ?_, s, out, _, hrun, ⟨nodes (), ho.linked (), rfl⟩, ?_, ?_⟩
  · intro hmax
    rw [along_keepsCount_iff (represents_initial garbage) (length_noValues_le intMax) hmalloc]
    intro hbound
    have hle := length_run_le (length_noValues_le intMax) hbound ()
    rw [fifo_run_fill, Function.update_self, List.length_append, List.length_map,
      length_manyNodes] at hle
    omega
  · rw [List.length_map, hlen]
  · rw [ho.size (), hlen]

/-- **The counter wraps.**  After `2 ^ 32` enqueues on one queue the counter is zero
while all the values wait: the next dequeue reports an empty queue, the next enqueue
makes the new node the head, and every value before it is lost. -/
theorem counter_wraps_to_zero :
    queueMachine.Along MallocSucceeds (initialQueues fun _ : Unit => ⟨3, none, none⟩)
        (fill () (manyNodes (2 ^ 32))) ∧
      ¬ queueMachine.Along KeepsCount (initialQueues fun _ : Unit => ⟨3, none, none⟩)
        (fill () (manyNodes (2 ^ 32))) ∧
      ∃ s out vs,
        queueMachine.run (initialQueues fun _ : Unit => ⟨3, none, none⟩)
          (fill () (manyNodes (2 ^ 32))) = ⟨s, out, none⟩ ∧
        Pending s () vs ∧ vs.length = 2 ^ 32 ∧ (s.queues ()).size = 0 ∧
        queueMachine.step s (.dequeue ()) = .ok (s, some queueEmpty) ∧
        ∀ v a junk, s.heap.cell a = none →
          ∃ s', queueMachine.step s (.enqueue () v (some (a, junk))) = .ok (s', none) ∧
            Pending s' () [v] := by
  obtain ⟨hmalloc, hnot, s, out, vs, hrun, hpending, hlen, hcount⟩ :=
    counter_after_fill (fun _ => ⟨3, none, none⟩) (le_refl (2 ^ 32))
  have hsize : (s.queues ()).size = 0 := by
    rw [hcount]
    decide
  refine ⟨hmalloc, hnot (by decide), s, out, vs, hrun, hpending, hlen, hsize,
    step_dequeue_of_size_eq_zero hsize, ?_⟩
  intro v a junk ha
  refine ⟨_, step_enqueue (enqueue_of_size_eq_zero hsize v a junk), [(a, ⟨v, none⟩)], ?_, rfl⟩
  constructor
  · exact congrArg Queue.head (Function.update_self () _ s.queues)
  · exact ⟨Function.update_self a _ _, rfl⟩
