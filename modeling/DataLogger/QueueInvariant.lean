/-
# The separation invariant of the pointer queues

`Owns s nodes` says that in the state `s` the queue `i` owns the nodes `nodes i`: they
form its chain, `size` counts them modulo `2 ^ 32`, `tail` points at the last of them
when there is one, the chains of different queues share no address, and nothing else
is allocated.  Nothing is said about `tail` when the queue is empty: there it may
dangle, and it may even alias a node that another queue owns by now.

Every step of the machine is matched by a step of the family of FIFO lists
(`represents_step`) as long as the counter tells an empty queue from a full one, that
is, while fewer than `2 ^ 32` values wait in each queue.
-/
import DataLogger.Queue

variable {ι Addr : Type*} [DecidableEq ι]

/-! ## The abstract machine -/

/-- What the callers of the queues expect of a call, for one FIFO list of values per
queue.  A value whose allocation failed is not in its list. -/
def fifoStep (L : ι → List NodeDataType) :
    QueueOp ι Addr → (ι → List NodeDataType) × Option NodeDataType
  | .enqueue i v (some _) => (Fifo.push L i v, none)
  | .enqueue _ _ none => (L, none)
  | .dequeue i => (Fifo.pop L i, some ((L i).head?.getD queueEmpty))

/-- The FIFO lists as a machine, which nothing stops. -/
def fifoMachine : Machine (ι → List NodeDataType) (QueueOp ι Addr) (Option NodeDataType) Empty where
  step L op := .ok (fifoStep L op)

/-- No list holds more than `n` values after the operation. -/
def HoldsAtMost (n : ℕ) (L : ι → List NodeDataType) (op : QueueOp ι Addr) : Prop :=
  ∀ i, ((fifoStep L op).1 i).length ≤ n

instance [Fintype ι] (n : ℕ) (L : ι → List NodeDataType) (op : QueueOp ι Addr) :
    Decidable (HoldsAtMost n L op) :=
  inferInstanceAs (Decidable (∀ i, ((fifoStep L op).1 i).length ≤ n))

/-- The lists of queues that were never used. -/
def noValues : ι → List NodeDataType := fun _ => []

theorem fifo_run_cons (L : ι → List NodeDataType) (op : QueueOp ι Addr)
    (ops : List (QueueOp ι Addr)) :
    fifoMachine.run L (op :: ops) =
      (fifoMachine.run (fifoStep L op).1 ops).cons (fifoStep L op).2 :=
  fifoMachine.run_cons_ok ops rfl

/-- The abstract machine has no reason to stop. -/
@[simp] theorem fifo_run_stop (L : ι → List NodeDataType) (ops : List (QueueOp ι Addr)) :
    (fifoMachine.run L ops).stop = none := by
  rcases (fifoMachine.run L ops).stop with _ | f
  · rfl
  · exact f.elim

/-- An operation changes the list of its own queue only. -/
theorem fifoStep_of_ne (L : ι → List NodeDataType) (op : QueueOp ι Addr) {j : ι}
    (hj : j ≠ op.queue) : (fifoStep L op).1 j = L j := by
  rcases op with ⟨i, v, _ | _⟩ | i
  · rfl
  · exact Fifo.push_of_ne L hj v
  · exact Fifo.pop_of_ne L hj

/-- Lists that agree on the queue of an operation agree on it afterwards. -/
theorem fifoStep_congr {L₁ L₂ : ι → List NodeDataType} (op : QueueOp ι Addr)
    (h : L₁ op.queue = L₂ op.queue) :
    (fifoStep L₁ op).1 op.queue = (fifoStep L₂ op).1 op.queue := by
  rcases op with ⟨i, v, _ | _⟩ | i
  · exact h
  · simpa [fifoStep, QueueOp.queue] using h
  · simpa [fifoStep, QueueOp.queue] using congrArg List.tail h

/-- **The lists are independent**: the list of a queue is decided by the operations
on that queue alone. -/
theorem fifo_run_local (L : ι → List NodeDataType) (ops : List (QueueOp ι Addr)) (j : ι) :
    (fifoMachine.run L ops).state j =
      (fifoMachine.run L (ops.filter fun op => op.queue = j)).state j := by
  -- generalised to two families that agree on `j` only
  suffices h : ∀ L₁ L₂ : ι → List NodeDataType, L₁ j = L₂ j →
      (fifoMachine.run L₁ ops).state j =
        (fifoMachine.run L₂ (ops.filter fun op => op.queue = j)).state j from h L L rfl
  induction ops with
  | nil => exact fun L₁ L₂ h => h
  | cons op ops ih =>
      intro L₁ L₂ h
      rw [fifo_run_cons, Machine.Outcome.cons_state]
      by_cases hop : op.queue = j
      · subst hop
        rw [List.filter_cons_of_pos (by simp), fifo_run_cons, Machine.Outcome.cons_state]
        exact ih _ _ (fifoStep_congr op h)
      · rw [List.filter_cons_of_neg (by simpa using hop)]
        exact ih _ _ ((fifoStep_of_ne L₁ op (Ne.symm hop)).trans h)

/-! ## The invariant -/

variable [DecidableEq Addr]

/-- The values that the nodes of each queue carry. -/
def values (nodes : ι → List (Addr × Node Addr)) (i : ι) : List NodeDataType :=
  (nodes i).map (·.2.value)

omit [DecidableEq ι] [DecidableEq Addr] in
theorem length_values (nodes : ι → List (Addr × Node Addr)) (i : ι) :
    (values nodes i).length = (nodes i).length :=
  List.length_map _

omit [DecidableEq ι] [DecidableEq Addr] in
theorem values_eq_nil_iff {nodes : ι → List (Addr × Node Addr)} {i : ι} :
    values nodes i = [] ↔ nodes i = [] :=
  List.map_eq_nil_iff

/-- The queue `i` owns exactly the nodes `nodes i`. -/
structure Owns (s : QueueState ι Addr) (nodes : ι → List (Addr × Node Addr)) : Prop where
  linked : ∀ i, Linked Node.next s.heap (s.queues i).head (nodes i)
  size : ∀ i, (s.queues i).size = BitVec.ofNat 32 (nodes i).length
  tail : ∀ i xs x, nodes i = xs ++ [x] → (s.queues i).tail = some x.1
  disjoint : ∀ i j, i ≠ j → (addrs (nodes i)).Disjoint (addrs (nodes j))
  owned : ∀ a, (s.heap.cell a).isSome → ∃ i, a ∈ addrs (nodes i)
  balanced : s.heap.Balanced

/-- The state holds the lists `L`. -/
def Represents (s : QueueState ι Addr) (L : ι → List NodeDataType) : Prop :=
  ∃ nodes, Owns s nodes ∧ values nodes = L

omit [DecidableEq ι] in
/-- After `queue_init` the queues are empty and own nothing. -/
theorem owns_initial (garbage : ι → Queue Addr) :
    Owns (initialQueues garbage) (fun _ => []) where
  linked := fun _ => rfl
  size := fun _ => rfl
  tail := fun _ xs x h => by simp at h
  disjoint := fun _ _ _ => List.disjoint_nil_left _
  owned := fun a h => by simp [initialQueues] at h
  balanced := Heap.balanced_empty

omit [DecidableEq ι] in
theorem represents_initial (garbage : ι → Queue Addr) :
    Represents (initialQueues garbage) noValues :=
  ⟨fun _ => [], owns_initial garbage, rfl⟩

namespace Owns

variable {s : QueueState ι Addr} {nodes : ι → List (Addr × Node Addr)}

omit [DecidableEq ι] in
/-- While fewer than `2 ^ 32` nodes wait, the test `if (q->size)` tells whether there
is one. -/
theorem size_eq_zero_iff (ho : Owns s nodes) {i : ι} (hlen : (nodes i).length < 2 ^ 32) :
    (s.queues i).size = 0 ↔ nodes i = [] := by
  rw [ho.size i, ← List.length_eq_zero_iff]
  constructor
  · intro h
    have hnat := congrArg BitVec.toNat h
    rwa [BitVec.toNat_ofNat, Nat.mod_eq_of_lt hlen] at hnat
  · intro h
    rw [h]
    rfl

omit [DecidableEq ι] in
/-- While nodes wait, the test finds them. -/
theorem size_ne_zero (ho : Owns s nodes) {i : ι} (hlen : (nodes i).length < 2 ^ 32)
    (hne : nodes i ≠ []) : (s.queues i).size ≠ 0 :=
  fun hsize => hne ((ho.size_eq_zero_iff hlen).mp hsize)

omit [DecidableEq ι] in
/-- A fresh address belongs to no queue. -/
theorem not_mem_of_fresh (ho : Owns s nodes) {a : Addr} (ha : s.heap.cell a = none) (j : ι) :
    a ∉ addrs (nodes j) := by
  intro hmem
  have hsome := (ho.linked j).isSome_of_mem_addrs hmem
  rw [ha] at hsome
  cases hsome

/-- **The rule for one queue.**  A change of queue `i` that owns the nodes `ns` afterwards
keeps the invariant, if these are nodes of the queue or fresh ones, no other cell changes, and
the nodes that it gives up are released. -/
theorem update (ho : Owns s nodes) (i : ι) {q : Queue Addr} {h' : NodeHeap Addr}
    {ns : List (Addr × Node Addr)} (hlink : Linked Node.next h' q.head ns)
    (hsize : q.size = BitVec.ofNat 32 ns.length)
    (htail : ∀ xs x, ns = xs ++ [x] → q.tail = some x.1)
    (hmine : ∀ a ∈ addrs ns, a ∈ addrs (nodes i) ∨ s.heap.cell a = none)
    (hframe : ∀ a, a ∉ addrs (nodes i) → a ∉ addrs ns → h'.cell a = s.heap.cell a)
    (hgone : ∀ a ∈ addrs (nodes i), a ∉ addrs ns → h'.cell a = none)
    (hbal : h'.Balanced) :
    Owns ⟨Function.update s.queues i q, h'⟩ (Function.update nodes i ns) := by
  -- the nodes of the other queues are neither nodes of this one nor fresh
  have hsep : ∀ j, j ≠ i → (addrs ns).Disjoint (addrs (nodes j)) := by
    intro j hj a ha haj
    rcases hmine a ha with hai | hfresh
    · exact ho.disjoint i j (Ne.symm hj) hai haj
    · exact ho.not_mem_of_fresh hfresh j haj
  have hothers : ∀ j, j ≠ i → ∀ a ∈ addrs (nodes j), h'.cell a = s.heap.cell a := by
    intro j hj a ha
    exact hframe a (fun hai => ho.disjoint i j (Ne.symm hj) hai ha) (fun hans => hsep j hj hans ha)
  constructor
  · intro j
    by_cases hj : j = i
    · subst hj
      simpa using hlink
    · simpa [hj] using (ho.linked j).congr (hothers j hj)
  · intro j
    by_cases hj : j = i
    · subst hj
      simpa using hsize
    · simpa [hj] using ho.size j
  · intro j xs x
    by_cases hj : j = i
    · subst hj
      simpa using htail xs x
    · simpa [hj] using ho.tail j xs x
  · intro j k hjk
    by_cases hj : j = i
    · subst hj
      simpa [Ne.symm hjk] using hsep k (Ne.symm hjk)
    · by_cases hk : k = i
      · subst hk
        simpa [hj] using (hsep j hj).symm
      · simpa [hj, hk] using ho.disjoint j k hjk
  · intro a ha
    by_cases hans : a ∈ addrs ns
    · exact ⟨i, by simpa using hans⟩
    · have hai : a ∉ addrs (nodes i) := fun hmem => by simp [hgone a hmem hans] at ha
      obtain ⟨j, hj⟩ := ho.owned a (by simpa [hframe a hai hans] using ha)
      have hji : j ≠ i := fun h => hai (h ▸ hj)
      exact ⟨j, by simpa [hji] using hj⟩
  · exact hbal

omit [DecidableEq ι] in
/-- Queues without nodes own no memory. -/
theorem heap_empty (ho : Owns s nodes) (hnil : ∀ i, nodes i = []) (a : Addr) :
    s.heap.cell a = none := by
  rcases hcell : s.heap.cell a with _ | n
  · rfl
  · obtain ⟨i, hi⟩ := ho.owned a (by rw [hcell]; rfl)
    rw [hnil i] at hi
    cases hi

/-! ## The operations keep the invariant -/

/-- What an enqueue of `v` at the fresh address `a` does to queue `i`: the queue has one
node more, its head stays when it had nodes before, and no other cell is allocated. -/
structure Enqueued (s : QueueState ι Addr) (nodes : ι → List (Addr × Node Addr)) (i : ι)
    (v : NodeDataType) (a : Addr) (q : Queue Addr) (h' : NodeHeap Addr)
    (ns : List (Addr × Node Addr)) : Prop where
  owns : Owns ⟨Function.update s.queues i q, h'⟩ (Function.update nodes i ns)
  values : ns.map (·.2.value) = (nodes i).map (·.2.value) ++ [v]
  head : nodes i ≠ [] → q.head = (s.queues i).head
  fresh : ∀ b, b ≠ a → s.heap.cell b = none → h'.cell b = none

/-- Enqueueing on an empty queue: the fresh node becomes the chain, and the tail
pointer, stale or not, is overwritten before anything follows it. -/
theorem enqueue_empty (ho : Owns s nodes) {i : ι} (hempty : nodes i = []) (v : NodeDataType)
    {a : Addr} (junk : Node Addr) (ha : s.heap.cell a = none) :
    ∃ q h' ns, enqueue (s.queues i) v (some (a, junk)) s.heap = .ok (q, h') ∧
      Enqueued s nodes i v a q h' ns := by
  have hsize : (s.queues i).size = 0 := by rw [ho.size i, hempty]; rfl
  refine ⟨_, _, [(a, ⟨v, none⟩)], enqueue_of_size_eq_zero hsize v a junk,
    ho.update i ?_ ?_ ?_ ?_ ?_ ?_ ?_, ?_, ?_, ?_⟩
  · exact ⟨rfl, Function.update_self .., rfl⟩
  · rw [hsize]
    rfl
  · intro xs x hx
    rcases xs with _ | ⟨y, ys⟩
    · cases hx
      rfl
    · simp at hx
  · intro b hb
    exact Or.inr (List.mem_singleton.mp hb ▸ ha)
  · intro b _ hb
    exact Function.update_of_ne (fun hba => hb (List.mem_singleton.mpr hba)) _ _
  · intro b hb
    rw [hempty] at hb
    cases hb
  · exact ho.balanced.malloc (some (a, ⟨v, none⟩)) ha
  · simp [hempty]
  · exact fun h => absurd hempty h
  · exact fun b hba hb => (Function.update_of_ne hba _ _).trans hb

/-- Enqueueing on a queue that holds nodes: `tail` is the last of them, and the fresh
node is hung behind it. -/
theorem enqueue_nonempty (ho : Owns s nodes) {i : ι} (hlen : (nodes i).length < 2 ^ 32)
    {xs : List (Addr × Node Addr)} {t : Addr} {n : Node Addr} (hnodes : nodes i = xs ++ [(t, n)])
    (v : NodeDataType) {a : Addr} (junk : Node Addr) (ha : s.heap.cell a = none) :
    ∃ q h' ns, enqueue (s.queues i) v (some (a, junk)) s.heap = .ok (q, h') ∧
      Enqueued s nodes i v a q h' ns := by
  have hsize : (s.queues i).size ≠ 0 := ho.size_ne_zero hlen (by simp [hnodes])
  have htail : (s.queues i).tail = some t := ho.tail i xs (t, n) hnodes
  have hn : s.heap.cell t = some n := (ho.linked i).cell_of_mem (by simp [hnodes])
  have hta : t ≠ a := fun h => by
    rw [h, ha] at hn
    cases hn
  have hmem : ∀ b, b ∈ addrs (nodes i) ↔ b ∈ addrs xs ∨ b = t := by
    intro b
    simp [hnodes]
  have hnodup : t ∉ addrs xs := by
    have := (ho.linked i).nodup
    rw [hnodes, addrs, List.map_append, List.nodup_append] at this
    exact fun h => this.2.2 t h t (by simp) rfl
  refine ⟨_, _, xs ++ [(t, ⟨n.value, some a⟩), (a, ⟨v, none⟩)],
    enqueue_of_size_ne_zero hsize v junk htail hta hn,
    ho.update i ?_ ?_ ?_ ?_ ?_ ?_ ?_, ?_, fun _ => rfl, ?_⟩
  · have hlink := ho.linked i
    rw [hnodes] at hlink
    refine hlink.snoc (d := ⟨n.value, some a⟩) (e := ⟨v, none⟩) ?_ ?_ rfl ?_ rfl
    · intro b hb
      have hbt : b ≠ t := fun h => hnodup (h ▸ hb)
      have hba : b ≠ a := fun h => ho.not_mem_of_fresh ha i (h ▸ (hmem b).mpr (Or.inl hb))
      simp [hbt, hba]
    · simp
    · simp [Ne.symm hta]
  · show (s.queues i).size + 1 = _
    rw [ho.size i, hnodes]
    simp [BitVec.ofNat_add, add_assoc]
  · intro ys y hy
    have hy' : (xs ++ [(t, ⟨n.value, some a⟩)]) ++ [(a, ⟨v, none⟩)] = ys ++ [y] := by simpa using hy
    cases (List.append_inj' hy' rfl).2
    rfl
  · intro b hb
    have hb : b ∈ addrs xs ∨ b = t ∨ b = a := by simpa using hb
    rcases hb with hb | rfl | rfl
    · exact Or.inl ((hmem b).mpr (Or.inl hb))
    · exact Or.inl ((hmem b).mpr (Or.inr rfl))
    · exact Or.inr ha
  · intro b _ hb
    have hb : b ∉ addrs xs ∧ b ≠ t ∧ b ≠ a := by simpa using hb
    simp [hb.2.1, hb.2.2]
  · -- every node of the queue stays
    intro b hbi hb
    refine absurd ?_ hb
    rcases (hmem b).mp hbi with hb' | rfl
    · simpa using Or.inl hb'
    · simp
  · have hmalloc := ho.balanced.malloc (some (a, ⟨v, none⟩)) ha
    refine hmalloc.modify (c := n) ?_ ⟨n.value, some a⟩
    simpa [Heap.malloc, hta] using hn
  · simp [hnodes]
  · intro b hba hb
    have hbt : b ≠ t := fun h => by
      rw [h, hn] at hb
      cases hb
    simpa [Function.update_of_ne hba, Function.update_of_ne hbt] using hb

/-- Enqueueing, whatever the queue holds. -/
theorem enqueued (ho : Owns s nodes) {i : ι} (hlen : (nodes i).length < 2 ^ 32) (v : NodeDataType)
    {a : Addr} (junk : Node Addr) (ha : s.heap.cell a = none) :
    ∃ q h' ns, enqueue (s.queues i) v (some (a, junk)) s.heap = .ok (q, h') ∧
      Enqueued s nodes i v a q h' ns := by
  rcases List.eq_nil_or_concat (nodes i) with hnodes | ⟨xs, ⟨t, n⟩, hnodes⟩
  · exact ho.enqueue_empty hnodes v junk ha
  · rw [List.concat_eq_append] at hnodes
    exact ho.enqueue_nonempty hlen hnodes v junk ha

/-- Dequeueing: the first node leaves the chain and the heap. -/
theorem dequeue_nonempty (ho : Owns s nodes) {i : ι} (hlen : (nodes i).length < 2 ^ 32)
    {a : Addr} {n : Node Addr} {xs : List (Addr × Node Addr)} (hnodes : nodes i = (a, n) :: xs) :
    ∃ q h', dequeue (s.queues i) s.heap = .ok (n.value, q, h') ∧
      Owns ⟨Function.update s.queues i q, h'⟩ (Function.update nodes i xs) := by
  have hsize : (s.queues i).size ≠ 0 := ho.size_ne_zero hlen (by simp [hnodes])
  have hlink := ho.linked i
  rw [hnodes] at hlink
  obtain ⟨hhead, hn, hrest⟩ := hlink
  have hnotmem : a ∉ addrs xs := by
    have := (ho.linked i).nodup
    rw [hnodes, addrs, List.map_cons, List.nodup_cons] at this
    exact this.1
  refine ⟨_, _, dequeue_of_size_ne_zero hsize hhead hn, ho.update i ?_ ?_ ?_ ?_ ?_ ?_ ?_⟩
  · refine hrest.congr fun b hb => ?_
    have hba : b ≠ a := fun h => hnotmem (h ▸ hb)
    exact Function.update_of_ne hba _ _
  · show (s.queues i).size - 1 = _
    rw [ho.size i, hnodes, List.length_cons, BitVec.ofNat_add]
    exact BitVec.add_sub_cancel _ _
  · intro ys y hy
    exact ho.tail i ((a, n) :: ys) y (by rw [hnodes, hy]; rfl)
  · intro b hb
    rw [hnodes]
    exact Or.inl (List.mem_cons_of_mem _ hb)
  · intro b hb _
    have hba : b ≠ a := fun h => hb (by simp [hnodes, h])
    exact Function.update_of_ne hba _ _
  · intro b hbi hb
    rw [hnodes] at hbi
    have hba : b = a := (List.mem_cons.mp hbi).resolve_right hb
    rw [hba]
    exact Function.update_self ..
  · exact ho.balanced.free hn

end Owns

/-! ## Steps and runs -/

section Runs

variable {s : QueueState ι Addr} {L : ι → List NodeDataType} {op : QueueOp ι Addr}

omit [DecidableEq Addr] in
/-- The values after the nodes of one queue changed. -/
theorem values_update (nodes : ι → List (Addr × Node Addr)) (i : ι) (ns : List (Addr × Node Addr)) :
    values (Function.update nodes i ns) =
      Function.update (values nodes) i (ns.map (·.2.value)) := by
  funext j
  by_cases hj : j = i
  · subst hj
    simp [values]
  · simp [values, hj]

/-- The machine's step on `enqueue`, from the function's result. -/
theorem step_enqueue {i : ι} {v : NodeDataType} {ans : Option (Addr × Node Addr)} {q : Queue Addr}
    {h : NodeHeap Addr} (hok : enqueue (s.queues i) v ans s.heap = .ok (q, h)) :
    queueMachine.step s (.enqueue i v ans) = .ok (⟨Function.update s.queues i q, h⟩, none) := by
  simp only [queueMachine, hok, Except.map]

/-- The machine's step on `dequeue`, from the function's result. -/
theorem step_dequeue {i : ι} {res : NodeDataType} {q : Queue Addr} {h : NodeHeap Addr}
    (hok : dequeue (s.queues i) s.heap = .ok (res, q, h)) :
    queueMachine.step s (.dequeue i) = .ok (⟨Function.update s.queues i q, h⟩, some res) := by
  simp only [queueMachine, hok, Except.map]

/-- A dequeue on an empty queue answers `QUEUE_EMPTY` and changes nothing. -/
theorem step_dequeue_of_size_eq_zero {i : ι} (hsize : (s.queues i).size = 0) :
    queueMachine.step s (.dequeue i) = .ok (s, some queueEmpty) := by
  rw [step_dequeue (dequeue_of_size_eq_zero hsize s.heap), Function.update_eq_self]

/-- A failed allocation stops the machine at a `NULL` dereference. -/
theorem step_alloc_failed (s : QueueState ι Addr) (i : ι) (v : NodeDataType) :
    queueMachine.step s (.enqueue i v none) = .error .null := by
  simp only [queueMachine, enqueue_alloc_failed, Except.map]

/-- **One step.**  While the counter of the queue has not run full, each operation
succeeds, returns what the FIFO lists return and keeps the invariant. -/
theorem owns_step {nodes : ι → List (Addr × Node Addr)} (ho : Owns s nodes)
    (hlen : (nodes op.queue).length < 2 ^ 32) (hm : MallocSucceeds s op) :
    ∃ s' nodes' r, queueMachine.step s op = .ok (s', r) ∧ Owns s' nodes' ∧
      fifoStep (values nodes) op = (values nodes', r) := by
  rcases op with ⟨i, v, _ | ⟨a, junk⟩⟩ | i
  · exact absurd rfl hm.2
  · obtain ⟨q, h', ns, hok, henq⟩ := ho.enqueued hlen v junk hm.1
    refine ⟨_, _, _, step_enqueue hok, henq.owns, ?_⟩
    rw [values_update, henq.values]
    rfl
  · have hlen : (nodes i).length < 2 ^ 32 := hlen
    rcases hnodes : nodes i with _ | ⟨⟨a, n⟩, xs⟩
    · have hsize : (s.queues i).size = 0 := (ho.size_eq_zero_iff hlen).mpr hnodes
      refine ⟨s, nodes, _, step_dequeue_of_size_eq_zero hsize, ho, ?_⟩
      have hnil : values nodes i = [] := values_eq_nil_iff.mpr hnodes
      simp [fifoStep, Fifo.pop_of_nil hnil, hnil]
    · obtain ⟨q, h', hok, ho'⟩ := ho.dequeue_nonempty hlen hnodes
      refine ⟨_, _, _, step_dequeue hok, ho', ?_⟩
      rw [values_update]
      simp [fifoStep, Fifo.pop, values, hnodes]

/-- One step, in terms of the lists that the state holds. -/
theorem represents_step (hr : Represents s L) (hlen : (L op.queue).length < 2 ^ 32)
    (hm : MallocSucceeds s op) :
    ∃ s', queueMachine.step s op = .ok (s', (fifoStep L op).2) ∧
      Represents s' (fifoStep L op).1 := by
  obtain ⟨nodes, ho, rfl⟩ := hr
  rw [length_values] at hlen
  obtain ⟨s', nodes', r, hok, ho', hfifo⟩ := owns_step ho hlen hm
  rw [hfifo]
  exact ⟨s', hok, nodes', ho', rfl⟩

/-- A dequeue answers the front of the list, or `QUEUE_EMPTY`, and drops it. -/
theorem represents_dequeue (hr : Represents s L) {i : ι} (hlen : (L i).length < 2 ^ 32) :
    ∃ s', queueMachine.step s (.dequeue i) = .ok (s', some ((L i).head?.getD queueEmpty)) ∧
      Represents s' (Fifo.pop L i) :=
  represents_step hr hlen ⟨trivial, trivial⟩

/-- **Whole runs.**  The queues run as the FIFO lists do, as long as none of them
holds more than `n < 2 ^ 32` values. -/
theorem represents_run {n : ℕ} (hn : n < 2 ^ 32) (ops : List (QueueOp ι Addr))
    (hr : Represents s L) (hL : ∀ i, (L i).length ≤ n)
    (hmalloc : queueMachine.Along MallocSucceeds s ops)
    (hbound : fifoMachine.Along (HoldsAtMost n) L ops) :
    ∃ s', queueMachine.run s ops = ⟨s', (fifoMachine.run L ops).out, none⟩ ∧
      Represents s' (fifoMachine.run L ops).state ∧
      ∀ i, ((fifoMachine.run L ops).state i).length ≤ n := by
  refine Machine.forward_simulation (R := fun s L => Represents s L ∧ ∀ i, (L i).length ≤ n)
    ?_ ⟨hr, hL⟩ hmalloc hbound (fifo_run_stop L ops)
  rintro s L op L' r ⟨hr, hL⟩ hm hb hstep
  obtain ⟨s', hok, hr'⟩ := represents_step hr (lt_of_le_of_lt (hL op.queue) hn) hm
  have hfifo : fifoStep L op = (L', r) := Except.ok.inj hstep
  have hL' : ∀ i, ((fifoStep L op).1 i).length ≤ n := hb
  rw [hfifo] at hok hr' hL'
  exact ⟨s', hok, hr', hL'⟩

omit [DecidableEq ι] in
/-- A state that holds the lists `L` has their values on its chains. -/
theorem Represents.pending (hr : Represents s L) (i : ι) : Pending s i (L i) := by
  obtain ⟨nodes, ho, rfl⟩ := hr
  exact ⟨nodes i, ho.linked i, rfl⟩

omit [DecidableEq ι] [DecidableEq Addr] in
/-- The values on a chain are determined. -/
theorem Pending.unique {i : ι} {vs ws : List NodeDataType} (hv : Pending s i vs)
    (hw : Pending s i ws) : vs = ws := by
  obtain ⟨xs, hx, rfl⟩ := hv
  obtain ⟨ys, hy, rfl⟩ := hw
  rw [hx.unique hy]

/-! ## Filling one queue -/

/-- Enqueue a list of values on queue `i`, each with the block that `malloc` returns. -/
def fill (i : ι) (xs : List (NodeDataType × Addr × Node Addr)) : List (QueueOp ι Addr) :=
  xs.map fun x => .enqueue i x.1 (some x.2)

omit [DecidableEq Addr] in
theorem fifo_run_fill (L : ι → List NodeDataType) (i : ι)
    (xs : List (NodeDataType × Addr × Node Addr)) :
    (fifoMachine.run L (fill i xs)).state = Function.update L i (L i ++ xs.map Prod.fst) := by
  induction xs generalizing L with
  | nil => simp [fill]
  | cons x xs ih =>
      have hcons : fill i (x :: xs) = .enqueue i x.1 (some x.2) :: fill i xs := rfl
      rw [hcons, fifo_run_cons, Machine.Outcome.cons_state, ih]
      simp [fifoStep, Fifo.push]

/-- **Filling a queue.**  Blocks at distinct addresses that are not allocated can be
enqueued one after the other, up to the `2 ^ 32`-nd. -/
theorem Owns.run_fill {nodes : ι → List (Addr × Node Addr)} (ho : Owns s nodes) (i : ι)
    (xs : List (NodeDataType × Addr × Node Addr)) (hlen : (nodes i).length + xs.length ≤ 2 ^ 32)
    (hfresh : ∀ x ∈ xs, s.heap.cell x.2.1 = none) (hnodup : (xs.map (·.2.1)).Nodup) :
    queueMachine.Along MallocSucceeds s (fill i xs) ∧
      ∃ s' out nodes', queueMachine.run s (fill i xs) = ⟨s', out, none⟩ ∧ Owns s' nodes' ∧
        (nodes' i).map (·.2.value) = (nodes i).map (·.2.value) ++ xs.map Prod.fst := by
  induction xs generalizing s nodes with
  | nil => exact ⟨Machine.along_nil, s, [], nodes, rfl, ho, by simp⟩
  | cons x xs ih =>
      obtain ⟨v, a, junk⟩ := x
      rw [List.length_cons] at hlen
      rw [List.map_cons, List.nodup_cons] at hnodup
      have ha : s.heap.cell a = none := hfresh (v, a, junk) List.mem_cons_self
      obtain ⟨q, h', ns, hok, henq⟩ := ho.enqueued (i := i) (by omega) v junk ha
      have hstep := step_enqueue hok
      have hns : ns.length = (nodes i).length + 1 := by
        simpa using congrArg List.length henq.values
      -- the blocks that are still to come stay free
      have hrest : ∀ x ∈ xs, h'.cell x.2.1 = none := by
        intro x hx
        apply henq.fresh
        · rintro rfl
          exact hnodup.1 (List.mem_map.mpr ⟨x, hx, rfl⟩)
        · exact hfresh x (List.mem_cons_of_mem _ hx)
      obtain ⟨hmalloc, s', out, nodes', hrun, ho', hvalues⟩ :=
        ih henq.owns (by rw [Function.update_self]; omega) hrest hnodup.2
      refine ⟨?_, s', none :: out, nodes', ?_, ho', ?_⟩
      · refine (Machine.along_cons_ok hstep).mpr ⟨⟨ha, ?_⟩, hmalloc⟩
        exact Option.some_ne_none _
      · show queueMachine.run s (.enqueue i v (some (a, junk)) :: fill i xs) = _
        rw [queueMachine.run_cons_ok _ hstep, hrun]
        rfl
      · rw [hvalues, Function.update_self, henq.values]
        simp

end Runs
