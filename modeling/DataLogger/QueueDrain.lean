/-
# Is emptiness observable from `dequeue`?

`dequeue` reports an empty queue by the value `QUEUE_EMPTY`, which is an ordinary
`int` that `enqueue` accepts like any other.  This module settles when the report can
be believed: `dequeue_empty_law` says that it can exactly when the value at the front
is not `QUEUE_EMPTY`, and that the loop a consumer writes, dequeue until
`QUEUE_EMPTY`, returns what was enqueued exactly when `QUEUE_EMPTY` was not.
-/
import DataLogger.QueueRefinement
import Mathlib.Data.List.TakeWhile

variable {ι Addr : Type*} [DecidableEq ι] [DecidableEq Addr]

/-! ## The consumer's loop -/

/-- Dequeue from queue `i` until the answer is `QUEUE_EMPTY`; the values before it, and
the state reached.  The result is `none` when the fuel runs out first. -/
def drain (i : ι) : ℕ → QueueState ι Addr →
    Option (Except (Heap.Fault Addr) (List NodeDataType × QueueState ι Addr))
  | 0, _ => none
  | fuel + 1, s =>
      match dequeue (s.queues i) s.heap with
      | .error f => some (.error f)
      | .ok (res, q, h) =>
          let s' : QueueState ι Addr := ⟨Function.update s.queues i q, h⟩
          if res = queueEmpty then some (.ok ([], s'))
          else (drain i fuel s').map (Except.map fun (vs, t) => (res :: vs, t))

/-- More fuel does not change the result of the loop. -/
theorem drain_mono {i : ι} {fuel fuel' : ℕ} (hle : fuel ≤ fuel') {s : QueueState ι Addr}
    {res : Except (Heap.Fault Addr) (List NodeDataType × QueueState ι Addr)}
    (hres : drain i fuel s = some res) : drain i fuel' s = some res := by
  induction fuel generalizing fuel' s res with
  | zero => cases hres
  | succ fuel ih =>
      obtain ⟨k, rfl⟩ : ∃ k, fuel' = k + 1 := ⟨fuel' - 1, by omega⟩
      unfold drain at hres ⊢
      rcases hdeq : dequeue (s.queues i) s.heap with f | ⟨v, q, h⟩
      · simpa only [hdeq] using hres
      · simp only [hdeq] at hres ⊢
        by_cases hv : v = queueEmpty
        · simpa only [hv, if_true] using hres
        · rw [if_neg hv, Option.map_eq_some_iff] at hres
          obtain ⟨rest, hrest, rfl⟩ := hres
          rw [if_neg hv, ih (by omega) hrest]
          rfl

/-- The loop on one step of the machine. -/
theorem drain_succ {i : ι} {fuel : ℕ} {s s' : QueueState ι Addr} {res : NodeDataType}
    (hstep : queueMachine.step s (.dequeue i) = .ok (s', some res)) :
    drain i (fuel + 1) s = if res = queueEmpty then some (.ok ([], s'))
      else (drain i fuel s').map (Except.map fun (vs, t) => (res :: vs, t)) := by
  rcases hdeq : dequeue (s.queues i) s.heap with f | ⟨v, q, h⟩
  · simp [queueMachine, hdeq, Except.map] at hstep
  · rw [step_dequeue hdeq] at hstep
    cases hstep
    simp only [drain, hdeq]

/-- **The loop runs to the first `QUEUE_EMPTY`**, be it an answer or a value: it returns
the values before, and leaves the values behind. -/
theorem drain_of_represents {s : QueueState ι Addr} {L : ι → List NodeDataType} (i : ι)
    (hr : Represents s L) (hlen : (L i).length < 2 ^ 32) {fuel : ℕ} (hfuel : (L i).length < fuel) :
    ∃ s', drain i fuel s = some (.ok ((L i).takeWhile (· ≠ queueEmpty), s')) ∧
      Represents s' (Function.update L i ((L i).dropWhile (· ≠ queueEmpty)).tail) := by
  induction hvs : L i generalizing s L fuel with
  | nil =>
      obtain ⟨s', hok, hr'⟩ := represents_dequeue hr hlen
      obtain ⟨k, rfl⟩ : ∃ k, fuel = k + 1 := ⟨fuel - 1, by omega⟩
      rw [hvs, List.head?_nil, Option.getD_none] at hok
      rw [Fifo.pop_of_nil hvs] at hr'
      refine ⟨s', by simp [drain_succ hok], ?_⟩
      have hsame : Function.update L i ([] : List NodeDataType) = L := by
        rw [← hvs, Function.update_eq_self]
      simpa [hsame] using hr'
  | cons v vs ih =>
      obtain ⟨s', hok, hr'⟩ := represents_dequeue hr hlen
      obtain ⟨k, rfl⟩ : ∃ k, fuel = k + 1 := ⟨fuel - 1, by omega⟩
      rw [hvs, List.head?_cons, Option.getD_some] at hok
      rw [hvs, List.length_cons] at hlen hfuel
      by_cases hv : v = queueEmpty
      · refine ⟨s', by simp [drain_succ hok, hv], ?_⟩
        simpa [hv, Fifo.pop, hvs] using hr'
      · have hpop : Fifo.pop L i i = vs := by rw [Fifo.pop_self, hvs, List.tail_cons]
        obtain ⟨s'', hdrain, hr''⟩ :=
          ih hr' (by rw [hpop]; omega) (by rw [hpop]; exact Nat.lt_of_succ_lt_succ hfuel) hpop
        refine ⟨s'', ?_, ?_⟩
        · simp [drain_succ hok, hv, hdrain, Except.map]
        · simpa [hv, Fifo.pop] using hr''

/-! ## The laws and when they hold -/

/-- The answer of `dequeue` tells whether the queue held a value. -/
def ReportsEmptiness (s : QueueState ι Addr) (i : ι) : Prop :=
  ∀ s' r, queueMachine.step s (.dequeue i) = .ok (s', some r) → (r = queueEmpty ↔ Pending s i [])

/-- The consumer's loop ends with exactly `vs`, and leaves the queue empty and nothing
allocated. -/
def DrainsTo (s : QueueState ι Addr) (i : ι) (vs : List NodeDataType) : Prop :=
  ∃ fuel s', drain i fuel s = some (.ok (vs, s')) ∧ Pending s' i [] ∧ ∀ a, s'.heap.cell a = none

omit [DecidableEq ι] in
/-- Queues without values own no memory. -/
theorem heap_empty_of_represents {s : QueueState ι Addr} (hr : Represents s noValues) (a : Addr) :
    s.heap.cell a = none := by
  obtain ⟨nodes, ho, hvalues⟩ := hr
  exact ho.heap_empty (fun i => values_eq_nil_iff.mp (congrFun hvalues i)) a

/-- The answer can be believed exactly when the front is not `QUEUE_EMPTY`. -/
theorem reportsEmptiness_iff {s : QueueState ι Addr} {L : ι → List NodeDataType} {i : ι}
    (hr : Represents s L) (hlen : (L i).length < 2 ^ 32) :
    ReportsEmptiness s i ↔ (L i).head? ≠ some queueEmpty := by
  obtain ⟨s', hok, -⟩ := represents_dequeue hr hlen
  have hnil : Pending s i [] ↔ L i = [] := by
    constructor
    · exact fun hp => (hr.pending i).unique hp
    · exact fun h => h ▸ hr.pending i
  have hlaw : ReportsEmptiness s i ↔ ((L i).head?.getD queueEmpty = queueEmpty ↔ L i = []) := by
    rw [← hnil]
    refine ⟨fun h => h s' _ hok, fun h t r hstep => ?_⟩
    rw [hok] at hstep
    cases hstep
    exact h
  rw [hlaw]
  rcases L i with _ | ⟨v, vs⟩ <;> simp

/-- The loop returns what waits, and clears it, exactly when `QUEUE_EMPTY` is not
among it. -/
theorem drainsTo_iff {s : QueueState ι Addr} {L : ι → List NodeDataType} {i : ι}
    (hr : Represents s L) (hlen : (L i).length < 2 ^ 32) (hother : ∀ j, j ≠ i → L j = []) :
    DrainsTo s i (L i) ↔ queueEmpty ∉ L i := by
  have hall : (L i).takeWhile (· ≠ queueEmpty) = L i ↔ queueEmpty ∉ L i := by
    rw [List.takeWhile_eq_self_iff]
    simp only [decide_eq_true_eq]
    exact ⟨fun h hmem => h _ hmem rfl, fun h v hv hve => h (hve ▸ hv)⟩
  constructor
  · rintro ⟨fuel, s', hdrain, -⟩
    obtain ⟨s'', hspec, -⟩ := drain_of_represents i hr hlen
      (lt_of_lt_of_le (Nat.lt_succ_self _) (le_max_right fuel _))
    rw [drain_mono (le_max_left fuel _) hdrain, Option.some.injEq, Except.ok.injEq,
      Prod.mk.injEq] at hspec
    exact hall.mp hspec.1.symm
  · intro hnot
    obtain ⟨s', hspec, hr'⟩ := drain_of_represents i hr hlen (Nat.lt_succ_self _)
    rw [hall.mpr hnot] at hspec
    have hdrop : (L i).dropWhile (· ≠ queueEmpty) = [] := by
      rw [List.dropWhile_eq_nil_iff]
      intro v hv
      simpa using fun hve : v = queueEmpty => hnot (hve ▸ hv)
    have hnone : Function.update L i ((L i).dropWhile (· ≠ queueEmpty)).tail = noValues := by
      funext j
      by_cases hj : j = i
      · subst hj
        rw [Function.update_self, hdrop]
        rfl
      · simp [hj, hother j hj, noValues]
    rw [hnone] at hr'
    exact ⟨_, s', hspec, hr'.pending i, heap_empty_of_represents hr'⟩

/-- **When emptiness is observable.**  In every reachable state the answer of a dequeue
tells whether the queue was empty exactly when the value at the front is not
`QUEUE_EMPTY`; and a list enqueued while the queues are empty is drained exactly when
`QUEUE_EMPTY` is not in it. -/
theorem dequeue_empty_law (garbage : ι → Queue Addr) (i : ι) :
    (∀ ops, queueMachine.Along MallocSucceeds (initialQueues garbage) ops →
      fifoMachine.Along (HoldsAtMost intMax) noValues ops →
      ∃ s, queueMachine.run (initialQueues garbage) ops =
          ⟨s, (fifoMachine.run noValues ops).out, none⟩ ∧
        (ReportsEmptiness s i ↔
          ((fifoMachine.run noValues ops).state i).head? ≠ some queueEmpty)) ∧
    (∀ ops xs, queueMachine.Along MallocSucceeds (initialQueues garbage) (ops ++ fill i xs) →
      fifoMachine.Along (HoldsAtMost intMax) noValues (ops ++ fill i xs) →
      (fifoMachine.run noValues ops).state = noValues →
      ∃ s, queueMachine.run (initialQueues garbage) (ops ++ fill i xs) =
          ⟨s, (fifoMachine.run noValues (ops ++ fill i xs)).out, none⟩ ∧
        (DrainsTo s i (xs.map Prod.fst) ↔ queueEmpty ∉ xs.map Prod.fst)) := by
  constructor
  · intro ops hmalloc hbound
    obtain ⟨s, hrun, hr, hL⟩ := represents_run intMax_lt ops (represents_initial garbage)
      (length_noValues_le intMax) hmalloc hbound
    exact ⟨s, hrun, reportsEmptiness_iff hr (lt_of_le_of_lt (hL i) intMax_lt)⟩
  · intro ops xs hmalloc hbound hempty
    obtain ⟨s, hrun, hr, hL⟩ := represents_run intMax_lt (ops ++ fill i xs)
      (represents_initial garbage) (length_noValues_le intMax) hmalloc hbound
    have hstate : (fifoMachine.run noValues (ops ++ fill i xs)).state =
        Function.update noValues i (xs.map Prod.fst) := by
      rw [fifoMachine.run_append _ (fifo_run_stop noValues ops)]
      show (fifoMachine.run (fifoMachine.run noValues ops).state (fill i xs)).state = _
      rw [hempty, fifo_run_fill]
      rfl
    rw [hstate] at hr hL
    refine ⟨s, hrun, ?_⟩
    have hiff := drainsTo_iff hr (lt_of_le_of_lt (hL i) intMax_lt)
      (fun j hj => by simp [hj, noValues])
    rwa [Function.update_self] at hiff

/-- A run that stores `QUEUE_EMPTY` in front of another value. -/
def sentinelRun : List (NodeDataType × ℕ × Node ℕ) := [(queueEmpty, 1, junkNode), (5, 2, junkNode)]

theorem dequeue_empty_law_sentinel :
    ∃ s, queueMachine.run
      (initialQueues fun _ : Unit => ⟨3, some 8, none⟩) ([] ++ fill () sentinelRun) =
        ⟨s, [none, none], none⟩ ∧
      (DrainsTo s () [queueEmpty, 5] ↔ queueEmpty ∉ [queueEmpty, 5]) :=
  (dequeue_empty_law (fun _ : Unit => ⟨3, some 8, none⟩) ()).2 [] sentinelRun
    (by decide) (by decide) rfl

/-- With `QUEUE_EMPTY` at the front, a dequeue on a queue that holds two values reports
an empty queue, and the consumer's loop gives up on the values that wait. -/
theorem sentinel_hides_values :
    ∃ s, queueMachine.run (initialQueues fun _ : Unit => ⟨3, some 8, none⟩) (fill () sentinelRun) =
        ⟨s, [none, none], none⟩ ∧
      Pending s () [queueEmpty, 5] ∧ ¬ ReportsEmptiness s () ∧ ¬ DrainsTo s () [queueEmpty, 5] := by
  obtain ⟨s, hrun, hr, -⟩ := represents_run intMax_lt (fill () sentinelRun)
    (represents_initial fun _ : Unit => ⟨3, some 8, none⟩) (length_noValues_le intMax)
    (by decide) (by decide)
  have hlist : (fifoMachine.run noValues (fill () sentinelRun)).state () = [queueEmpty, 5] := rfl
  refine ⟨s, hrun, hlist ▸ hr.pending (), ?_, ?_⟩
  · rw [reportsEmptiness_iff hr (by rw [hlist]; decide), hlist]
    decide
  · rw [← hlist, drainsTo_iff hr (by rw [hlist]; decide) (fun j hj => absurd rfl hj), hlist]
    decide
