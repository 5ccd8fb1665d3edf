/-
# Singly linked chains on a heap

`Linked next h p xs` says that the chain that starts at the pointer `p` is `NULL`
terminated and visits exactly the nodes `xs`, listed with their addresses.  The
predicate follows the list, so a chain is finite by construction; `Linked.nodup`
adds that no address occurs twice, that is, a `NULL`-terminated chain is acyclic.

A chain depends only on the cells it visits (`Linked.congr`), which is the frame
rule for writes elsewhere.
-/
import DataLogger.Library.Heap

variable {Addr Cell : Type*} {next : Cell → Ptr Addr}

/-- The chain from `p` visits exactly the nodes `xs` and then meets `NULL`. -/
def Linked (next : Cell → Ptr Addr) (h : Heap Addr Cell) : Ptr Addr → List (Addr × Cell) → Prop
  | p, [] => p = none
  | p, (a, c) :: xs => p = some a ∧ h.cell a = some c ∧ Linked next h (next c) xs

/-- The addresses of the nodes of a chain. -/
abbrev addrs (xs : List (Addr × Cell)) : List Addr := xs.map Prod.fst

namespace Linked

variable {h h' : Heap Addr Cell} {p : Ptr Addr} {xs ys : List (Addr × Cell)}

@[simp] theorem nil_iff : Linked next h p [] ↔ p = none := Iff.rfl

@[simp] theorem cons_iff {a : Addr} {c : Cell} :
    Linked next h p ((a, c) :: xs) ↔
      p = some a ∧ h.cell a = some c ∧ Linked next h (next c) xs := Iff.rfl

/-- The head pointer is `NULL` exactly when the chain has no node. -/
theorem head_eq_none_iff (hl : Linked next h p xs) : p = none ↔ xs = [] := by
  cases xs with
  | nil => exact ⟨fun _ => rfl, fun _ => hl⟩
  | cons x xs =>
      obtain ⟨a, c⟩ := x
      simp [hl.1]

/-- Every node of a chain is the cell at its address. -/
theorem cell_of_mem (hl : Linked next h p xs) {a : Addr} {c : Cell} (hmem : (a, c) ∈ xs) :
    h.cell a = some c := by
  induction xs generalizing p with
  | nil => cases hmem
  | cons x xs ih =>
      obtain ⟨b, d⟩ := x
      rcases List.mem_cons.mp hmem with heq | hmem
      · cases heq
        exact hl.2.1
      · exact ih hl.2.2 hmem

/-- Every address of a chain is allocated. -/
theorem isSome_of_mem_addrs (hl : Linked next h p xs) {a : Addr} (hmem : a ∈ addrs xs) :
    (h.cell a).isSome := by
  obtain ⟨⟨b, c⟩, hbc, rfl⟩ := List.mem_map.mp hmem
  simp [hl.cell_of_mem hbc]

/-- A heap has at most one chain from a pointer. -/
theorem unique (hxs : Linked next h p xs) (hys : Linked next h p ys) : xs = ys := by
  induction xs generalizing p ys with
  | nil => exact ((hys.head_eq_none_iff).mp hxs).symm
  | cons x xs ih =>
      obtain ⟨a, c⟩ := x
      obtain ⟨hp, ha, htail⟩ := hxs
      cases ys with
      | nil => rw [nil_iff, hp] at hys; cases hys
      | cons y ys =>
          obtain ⟨b, d⟩ := y
          obtain ⟨hp', hb, htail'⟩ := hys
          rw [hp, Option.some.injEq] at hp'
          subst hp'
          rw [ha, Option.some.injEq] at hb
          subst hb
          rw [ih htail htail']

/-- Each address on a chain starts the rest of the chain. -/
theorem suffix_of_mem (hl : Linked next h p xs) {a : Addr} (hmem : a ∈ addrs xs) :
    ∃ c zs, (a, c) :: zs <:+ xs ∧ Linked next h (some a) ((a, c) :: zs) := by
  induction xs generalizing p with
  | nil => cases hmem
  | cons x xs ih =>
      obtain ⟨b, d⟩ := x
      rcases List.mem_cons.mp hmem with heq | hmem
      · cases heq
        exact ⟨d, xs, List.suffix_refl _, rfl, hl.2.1, hl.2.2⟩
      · obtain ⟨c, zs, hsuf, hlink⟩ := ih hl.2.2 hmem
        exact ⟨c, zs, hsuf.trans (List.suffix_cons _ _), hlink⟩

/-- **A `NULL`-terminated chain is acyclic**: were an address met twice, the chain
from it would be a proper part of itself. -/
theorem nodup (hl : Linked next h p xs) : (addrs xs).Nodup := by
  induction xs generalizing p with
  | nil => exact List.nodup_nil
  | cons x xs ih =>
      obtain ⟨a, c⟩ := x
      rw [addrs, List.map_cons, List.nodup_cons]
      refine ⟨fun hmem => ?_, ih hl.2.2⟩
      obtain ⟨d, zs, hsuf, hlink⟩ := hl.2.2.suffix_of_mem hmem
      have hsame : (a, d) :: zs = (a, c) :: xs := hlink.unique ⟨rfl, hl.2.1, hl.2.2⟩
      have hlen := hsuf.length_le
      rw [hsame, List.length_cons] at hlen
      omega

/-- **Frame rule.**  A chain survives every change of the heap outside its nodes. -/
theorem congr (hl : Linked next h p xs) (hsame : ∀ a ∈ addrs xs, h'.cell a = h.cell a) :
    Linked next h' p xs := by
  induction xs generalizing p with
  | nil => exact hl
  | cons x xs ih =>
      obtain ⟨a, c⟩ := x
      refine ⟨hl.1, ?_, ih hl.2.2 fun b hb => hsame b (List.mem_cons_of_mem _ hb)⟩
      rw [hsame a List.mem_cons_self]
      exact hl.2.1

/-- **Appending a node.**  Redirecting the last node to a new last node extends the
chain by it. -/
theorem snoc {a b : Addr} {c d e : Cell} (hl : Linked next h p (xs ++ [(a, c)]))
    (hsame : ∀ x ∈ addrs xs, h'.cell x = h.cell x) (ha : h'.cell a = some d)
    (hnext : next d = some b) (hb : h'.cell b = some e) (hnull : next e = none) :
    Linked next h' p (xs ++ [(a, d), (b, e)]) := by
  induction xs generalizing p with
  | nil => exact ⟨hl.1, ha, hnext, hb, hnull⟩
  | cons x xs ih =>
      obtain ⟨f, g⟩ := x
      refine ⟨hl.1, ?_, ih hl.2.2 fun y hy => hsame y (List.mem_cons_of_mem _ hy)⟩
      rw [hsame f List.mem_cons_self]
      exact hl.2.1

end Linked
