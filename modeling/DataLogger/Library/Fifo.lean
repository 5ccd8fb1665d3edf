/-
# Families of FIFO lists

The abstract data type behind a queue, for a whole family of queues indexed by `ι`:
one list of pending values per index, oldest first.  `push` appends at the back of
one list and `pop` drops the front of one; both leave every other list alone, so the
members of the family are independent.
-/
import Mathlib.Data.List.Basic
import Mathlib.Logic.Function.Basic

namespace Fifo

variable {ι V : Type*} [DecidableEq ι]

/-- Append `v` at the back of the list of `i`. -/
def push (L : ι → List V) (i : ι) (v : V) : ι → List V := Function.update L i (L i ++ [v])

/-- Drop the front of the list of `i`, if there is one. -/
def pop (L : ι → List V) (i : ι) : ι → List V := Function.update L i (L i).tail

/-- The new value waits behind the others. -/
@[simp] theorem push_self (L : ι → List V) (i : ι) (v : V) : push L i v i = L i ++ [v] := by
  simp [push]

/-- The other queues do not see it. -/
@[simp] theorem push_of_ne (L : ι → List V) {i j : ι} (h : j ≠ i) (v : V) : push L i v j = L j := by
  simp [push, h]

/-- The first value is gone. -/
@[simp] theorem pop_self (L : ι → List V) (i : ι) : pop L i i = (L i).tail := by
  simp [pop]

/-- The other queues do not see it. -/
@[simp] theorem pop_of_ne (L : ι → List V) {i j : ι} (h : j ≠ i) : pop L i j = L j := by
  simp [pop, h]

/-- Popping an empty list changes nothing. -/
theorem pop_of_nil {L : ι → List V} {i : ι} (h : L i = []) : pop L i = L := by
  funext j
  by_cases hj : j = i
  · subst hj
    rw [pop_self, h, List.tail_nil]
  · rw [pop_of_ne L hj]

/-- A pop never makes a list longer. -/
theorem length_pop_le (L : ι → List V) (i j : ι) : (pop L i j).length ≤ (L j).length := by
  by_cases hj : j = i
  · subst hj
    simp
  · exact Nat.le_of_eq (congrArg List.length (pop_of_ne L hj))

end Fifo
