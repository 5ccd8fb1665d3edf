/-
# Runs of a linked list

What a caller does with one list is a sequence of events: it allocates contents, gives them to
the list, looks for them, takes them out again.  A caller that gives only what it holds, at
positions that are in the list, always sees a list with a cursor.

* `list_refines_cursorList` : the list of pointers and the list with a cursor answer alike;
* `list_releases` : once the list is emptied, only what the caller holds is allocated.
-/
import DataLogger.LinkedListRefinement

variable {Addr CAddr α : Type} [DecidableEq Addr] [DecidableEq CAddr]

/-! ## The list in memory -/

/-- What a caller does. -/
inductive ListEvent (Addr CAddr α : Type)
  /-- Allocate a content. -/
  | allocate (c : CAddr) (x : α)
  /-- Free a content that is not in the list. -/
  | release (c : CAddr)
  | append (c : CAddr) (size : CULong) (ans : Option (Addr × ListElement Addr CAddr))
  | insert (c : CAddr) (size : CULong) (index : Ptr Addr)
    (ans : Option (Addr × ListElement Addr CAddr))
  | find (key : ListKey CAddr α)
  | unlink (key : ListKey CAddr α) (freeContent : Bool)
  | detachHead
  | empty

/-- What a caller is told. -/
inductive ListResult (Addr CAddr : Type)
  | done
  | element (p : Ptr Addr)
  | removed (b : Bool)
  | content (p : Ptr CAddr)
  deriving DecidableEq, Repr

/-- A list and the memory. -/
abbrev ListState (Addr CAddr α : Type) := LinkedList Addr × ListMem Addr CAddr α

/-- No list and no memory yet. -/
def ListState.initial : ListState Addr CAddr α := (listZero, ⟨Heap.empty, Heap.empty⟩)

/-- The list in memory. -/
def listMachine (fuel : ℕ) :
    Machine (ListState Addr CAddr α) (ListEvent Addr CAddr α) (ListResult Addr CAddr)
      (ListFault Addr CAddr) where
  step := fun (l, m) e =>
    match e with
    | .allocate c x => .ok ((l, ⟨m.elements, (m.contents.malloc (some (c, x))).2⟩), .done)
    | .release c => (m.freeContent (some c)).map fun m => ((l, m), .done)
    | .append c size ans => (listAppend l (some c) size ans m).map fun (p, l, m) =>
      ((l, m), .element p)
    | .insert c size index ans => (listInsert l (some c) size index ans m).map fun (p, l, m) =>
      ((l, m), .element p)
    | .find key => (listFindItem fuel l key m).map fun (p, l) => ((l, m), .element p)
    | .unlink key freeContent =>
        (listUnlink fuel l key freeContent m).map fun (b, l, m) => ((l, m), .removed b)
    | .detachHead => (listDetachHead l m).map fun (c, l, m) => ((l, m), .content c)
    | .empty => (listEmpty fuel l m).map fun (l, m) => ((l, m), .done)

/-- The allocator answers with what is not allocated. -/
def ListMallocFresh : ListState Addr CAddr α → ListEvent Addr CAddr α → Prop
  | (_, m), .allocate c _ => m.contents.cell c = none
  | (_, m), .append _ _ ans => m.elements.Fresh ans
  | (_, m), .insert _ _ _ ans => m.elements.Fresh ans
  | _, _ => True

/-! ## The list with a cursor -/

/-- The list with a cursor, what the caller holds, and the sizes it named since the list was
last emptied. -/
structure ListSpec (Addr CAddr α : Type) where
  list : CursorList Addr (CAddr × α)
  held : List (CAddr × α)
  named : CULong

/-- No items, and nothing held. -/
def ListSpec.initial : ListSpec Addr CAddr α := ⟨CursorList.empty, [], 0⟩

/-- What a caller must not do. -/
inductive ListMisuse (Addr CAddr : Type)
  | notHeld (c : CAddr)
  | noPosition (i : Addr)
  deriving DecidableEq, Repr

/-- Use a content that the caller holds. -/
def ListSpec.take {β : Type} (t : ListSpec Addr CAddr α) (c : CAddr)
    (f : CAddr × α → List (CAddr × α) → β) :
    Except (ListMisuse Addr CAddr) β :=
  match t.held.find? fun y => y.1 = c with
  | none => .error (.notHeld c)
  | some y => .ok (f y (t.held.eraseP fun y => y.1 = c))

/-- Give a content to the list, which places it, if there is memory for its element. -/
def ListSpec.give (t : ListSpec Addr CAddr α) (c : CAddr) (size : CULong)
    (ans : Option (Addr × ListElement Addr CAddr))
    (place : Addr → CAddr × α → CursorList Addr (CAddr × α)) :
    Except (ListMisuse Addr CAddr) (ListSpec Addr CAddr α × ListResult Addr CAddr) :=
  t.take c fun x held =>
    match ans with
    | none => (t, .element none)
    | some (a, _) => (⟨place a x, held, t.named + size⟩, .element (some a))

/-- What the list is for. -/
def listSpec : Machine (ListSpec Addr CAddr α) (ListEvent Addr CAddr α) (ListResult Addr CAddr)
    (ListMisuse Addr CAddr) where
  step := fun t e =>
    match e with
    | .allocate c x => .ok ({ t with held := (c, x) :: t.held }, .done)
    | .release c => t.take c fun _ held => ({ t with held := held }, .done)
    | .append c size ans => t.give c size ans t.list.append
    | .insert c size none ans => t.give c size ans t.list.append
    | .insert c size (some i) ans =>
        if i ∈ t.list.items.map Prod.fst then t.give c size ans (t.list.insert i)
          else .error (.noPosition i)
    | .find key =>
        .ok ({ t with list := (t.list.find key.holds).2 },
          .element ((t.list.find key.holds).1.map Prod.fst))
    | .unlink key freeContent =>
        let (x, list) := t.list.remove key.holds
        .ok ({ t with
              list := list
              held := (if freeContent then [] else (x.map Prod.snd).toList) ++ t.held },
          .removed x.isSome)
    | .detachHead =>
        let (x, list) := t.list.detachHead
        .ok ({ t with list := list, held := (x.map Prod.snd).toList ++ t.held },
          .content (x.map (·.2.1)))
    | .empty => .ok (⟨CursorList.empty, t.held, 0⟩, .done)

/-- The list has at most `n` items. -/
def ListHoldsAtMost (n : ℕ) (t : ListSpec Addr CAddr α) (_ : ListEvent Addr CAddr α) : Prop :=
  t.list.items.length ≤ n

instance decidableListMallocFresh (s : ListState Addr CAddr α) (e : ListEvent Addr CAddr α) :
    Decidable (ListMallocFresh s e) :=
  match e with
  | .allocate c _ => inferInstanceAs (Decidable (s.2.contents.cell c = none))
  | .append _ _ none | .insert _ _ _ none => isTrue trivial
  | .append _ _ (some (a, _)) | .insert _ _ _ (some (a, _)) =>
      inferInstanceAs (Decidable (s.2.elements.cell a = none))
  | .release _ | .find _ | .unlink _ _ | .detachHead | .empty => isTrue trivial

instance (n : ℕ) (t : ListSpec Addr CAddr α) (e : ListEvent Addr CAddr α) :
    Decidable (ListHoldsAtMost n t e) :=
  inferInstanceAs (Decidable (t.list.items.length ≤ n))

/-! ## One step -/

section Step

variable {l : LinkedList Addr} {m : ListMem Addr CAddr α} {s : CursorList Addr (CAddr × α)}
  {held held' : List (CAddr × α)} {t t' : ListSpec Addr CAddr α} {c : CAddr} {β : Type} {r : β}
  {fuel : ℕ}

omit [DecidableEq Addr] in
/-- What the caller gives away, it holds. -/
theorem ListSpec.exists_of_take {f : CAddr × α → List (CAddr × α) → β} (h : t.take c f = .ok r) :
    ∃ x held, t.held.Perm ((c, x) :: held) ∧ r = f (c, x) held := by
  rw [take] at h
  split at h
  · cases h
  · rename_i y hy
    cases h
    have htrue := List.find?_some hy
    have hname : y.1 = c := of_decide_eq_true htrue
    refine ⟨y.2, t.held.eraseP fun y => y.1 = c, ?_, by rw [← hname]⟩
    obtain ⟨y', xs, ys, hxs, hy', hheld, herase⟩ :=
      List.exists_of_eraseP (p := fun y => y.1 = c) (List.mem_of_find?_eq_some hy) htrue
    have hsame : y' = y := by
      rw [hheld, List.find?_append, List.find?_eq_none.mpr hxs, Option.none_or,
        List.find?_cons] at hy
      simp only [hy'] at hy
      exact Option.some.inj hy
    rw [herase, hheld, hsame, ← hname]
    exact List.perm_middle

omit [DecidableEq Addr] in
/-- A new item is one that the caller held, or `malloc` failed and nothing changes. -/
theorem ListSpec.exists_of_give {place : Addr → CAddr × α → CursorList Addr (CAddr × α)}
    {size : CULong}
    {ans : Option (Addr × ListElement Addr CAddr)} {o : ListResult Addr CAddr}
    (h : t.give c size ans place = .ok (t', o)) :
    (ans = none ∧ t' = t ∧ o = .element none) ∨
      ∃ a junk x held, ans = some (a, junk) ∧ t.held.Perm ((c, x) :: held) ∧
        t' = ⟨place a (c, x), held, t.named + size⟩ ∧ o = .element (some a) := by
  obtain ⟨x, held, hperm, htr⟩ := exists_of_take h
  rcases ans with _ | ⟨a, junk⟩
  · cases htr
    exact .inl ⟨rfl, rfl, rfl⟩
  · cases htr
    exact .inr ⟨a, junk, x, held, rfl, hperm, rfl, rfl⟩

/-- The order of what the caller holds does not matter. -/
theorem RepresentsList.perm (h : RepresentsList l m s held) (hp : held.Perm held') :
    RepresentsList l m s held' :=
  { h with contents := h.contents.perm (hp.append_left _) }

/-- The list in memory is the list with the cursor, and its size is what the caller named. -/
def Matches (s : ListState Addr CAddr α) (t : ListSpec Addr CAddr α) : Prop :=
  RepresentsList s.1 s.2 t.list t.held ∧ s.1.size = t.named

/-- They match at the start. -/
theorem matches_initial : Matches (ListState.initial : ListState Addr CAddr α) ListSpec.initial :=
  ⟨representsList_zero, rfl⟩

/-- `ListAppend` puts the item behind the others. -/
theorem Matches.append {size : CULong} {ans : Option (Addr × ListElement Addr CAddr)}
    {o : ListResult Addr CAddr}
    (h : Matches (l, m) t) (hfresh : m.elements.Fresh ans)
    (hgive : t.give c size ans t.list.append = .ok (t', o)) :
    ∃ p l' m', listAppend l (some c) size ans m = .ok (p, l', m') ∧ o = .element p ∧
      Matches (l', m') t' := by
  obtain ⟨hrep, hsize⟩ := h
  obtain ⟨rfl, rfl, rfl⟩ | ⟨a, junk, x, held, rfl, hperm, rfl, rfl⟩ := ListSpec.exists_of_give hgive
  · exact ⟨none, l, m, rfl, rfl, hrep, hsize⟩
  · obtain ⟨l', m', happend, hrep', hsize'⟩ := (hrep.perm hperm).append hfresh junk size
    exact ⟨some a, l', m', happend, rfl, hrep', by rw [hsize', hsize]⟩

/-- `ListInsert` puts the item in front of the one at the position. -/
theorem Matches.insert {size : CULong} {ans : Option (Addr × ListElement Addr CAddr)}
    {o : ListResult Addr CAddr}
    {i : Addr} (h : Matches (l, m) t) (hfresh : m.elements.Fresh ans)
    (hi : i ∈ t.list.items.map Prod.fst)
    (hgive : t.give c size ans (t.list.insert i) = .ok (t', o)) :
    ∃ p l' m', listInsert l (some c) size (some i) ans m = .ok (p, l', m') ∧ o = .element p ∧
      Matches (l', m') t' := by
  obtain ⟨hrep, hsize⟩ := h
  obtain ⟨rfl, rfl, rfl⟩ | ⟨a, junk, x, held, rfl, hperm, rfl, rfl⟩ := ListSpec.exists_of_give hgive
  · exact ⟨none, l, m, rfl, rfl, hrep, hsize⟩
  · obtain ⟨l', m', hinsert, hrep', hsize'⟩ := (hrep.perm hperm).insert hfresh hi junk size
    exact ⟨some a, l', m', hinsert, rfl, hrep', by rw [hsize', hsize]⟩

omit [DecidableEq CAddr] in
/-- Inserting at no position is appending. -/
theorem listInsert_none (c : Ptr CAddr) (size : CULong)
    (ans : Option (Addr × ListElement Addr CAddr)) :
    listInsert l c size none ans m = listAppend l c size ans m := by
  rcases ans with _ | ⟨a, junk⟩ <;> rfl

/-- **One step** of the list in memory is one step of the list with a cursor. -/
theorem Matches.step {s : ListState Addr CAddr α} {e : ListEvent Addr CAddr α}
    {r : ListResult Addr CAddr}
    (h : Matches s t) (hfresh : ListMallocFresh s e) (hlen : t.list.items.length ≤ fuel)
    (hfuel : fuel ≤ intMax)
    (hstep : listSpec.step t e = .ok (t', r)) :
    ∃ s', (listMachine fuel).step s e = .ok (s', r) ∧ Matches s' t' := by
  obtain ⟨l, m⟩ := s
  obtain ⟨hrep, hsize⟩ := h
  cases e with
  | allocate c x =>
      cases hstep
      have hcontents := (hrep.contents.malloc hfresh x).perm List.perm_middle.symm
      exact ⟨_, rfl, ⟨{ hrep with contents := hcontents }, hsize⟩⟩
  | release c =>
      have htake : t.take c (fun _ held => ({ t with held := held }, ListResult.done)) =
          .ok (t', r) := hstep
      obtain ⟨x, held, hperm, htr⟩ := ListSpec.exists_of_take htake
      cases htr
      obtain ⟨contents, hfree, hrest⟩ := (hrep.perm hperm).release
      have hfreed : m.freeContent (some c) = .ok ⟨m.elements, contents⟩ :=
        ListMem.freeContent_ok hfree
      exact ⟨(l, ⟨m.elements, contents⟩), congrArg (Except.map _) hfreed, hrest, hsize⟩
  | append c size ans =>
      obtain ⟨p, l', m', happend, rfl, h'⟩ := Matches.append ⟨hrep, hsize⟩ hfresh hstep
      exact ⟨(l', m'), congrArg (Except.map _) happend, h'⟩
  | insert c size index ans =>
      rcases index with _ | i
      · obtain ⟨p, l', m', happend, rfl, h'⟩ := Matches.append ⟨hrep, hsize⟩ hfresh hstep
        exact ⟨(l', m'), congrArg (Except.map _) ((listInsert_none _ _ _).trans happend), h'⟩
      · by_cases hi : i ∈ t.list.items.map Prod.fst
        · obtain ⟨p, l', m', hinsert, rfl, h'⟩ :=
            Matches.insert ⟨hrep, hsize⟩ hfresh hi ((if_pos hi).symm.trans hstep)
          exact ⟨(l', m'), congrArg (Except.map _) hinsert, h'⟩
        · cases (if_neg hi).symm.trans hstep
  | find key =>
      cases hstep
      obtain ⟨hfind, hrep'⟩ := hrep.find hlen key
      exact ⟨_, congrArg (Except.map _) hfind, hrep', hsize⟩
  | unlink key freeContent =>
      cases hstep
      obtain ⟨l', m', hunlink, hrep', hsize'⟩ := hrep.unlink hlen key freeContent
      exact ⟨(l', m'), congrArg (Except.map _) hunlink, hrep', hsize'.trans hsize⟩
  | detachHead =>
      cases hstep
      obtain ⟨l', m', hdetach, hrep', hsize'⟩ := hrep.detachHead (hlen.trans hfuel)
      exact ⟨(l', m'), congrArg (Except.map _) hdetach, hrep', hsize'.trans hsize⟩
  | empty =>
      cases hstep
      obtain ⟨l', m', hempty, hrep', hsize'⟩ := hrep.empty hlen
      exact ⟨(l', m'), congrArg (Except.map _) hempty, hrep', hsize'⟩

end Step

/-! ## Runs -/

variable {fuel : ℕ} {es : List (ListEvent Addr CAddr α)}

/-- **Every run** of the list in memory is one of the list with a cursor. -/
theorem matches_run (hfuel : fuel ≤ intMax)
    (hmalloc : (listMachine fuel).Along ListMallocFresh ListState.initial es)
    (hbound : listSpec.Along (ListHoldsAtMost fuel) ListSpec.initial es)
    (huse : (listSpec.run ListSpec.initial es).stop = none) :
    ∃ s, (listMachine fuel).run ListState.initial es =
      ⟨s, (listSpec.run ListSpec.initial es).out, none⟩ ∧
      Matches s (listSpec.run ListSpec.initial es).state :=
  Machine.forward_simulation (fun _ _ _ _ _ h hfresh hlen hstep => h.step hfresh hlen hfuel hstep)
    matches_initial hmalloc hbound huse

/-- **The linked list is a list with a cursor.**  Over every run in which the caller gives the list
only what it holds, at positions in the list, and the list never has more than `fuel` items, up to
`INT_MAX`: every call returns what the list with a cursor answers, with at most `fuel` rounds of its
loop, and nothing is read, written or freed that is not allocated.  The chain of elements, its ends,
the count and the cursor are those of the list, and what is allocated is what the list and the
caller hold.  The size adds up what the caller named since the list was last emptied, also
for the items that are gone. -/
theorem list_refines_cursorList (fuel : ℕ) (es : List (ListEvent Addr CAddr α))
    (hfuel : fuel ≤ intMax)
    (hmalloc : (listMachine fuel).Along ListMallocFresh ListState.initial es)
    (hbound : listSpec.Along (ListHoldsAtMost fuel) ListSpec.initial es)
    (huse : (listSpec.run ListSpec.initial es).stop = none) :
    ∃ l m, (listMachine fuel).run ListState.initial es =
      ⟨(l, m), (listSpec.run ListSpec.initial es).out, none⟩ ∧
      RepresentsList l m (listSpec.run ListSpec.initial es).state.list
      (listSpec.run ListSpec.initial es).state.held ∧
      l.size = (listSpec.run ListSpec.initial es).state.named := by
  obtain ⟨⟨l, m⟩, hrun, hrep, hsize⟩ := matches_run hfuel hmalloc hbound huse
  exact ⟨l, m, hrun, hrep, hsize⟩

/-- Three contents; the second goes in front of the first, the first is looked for and so is the
current one when it is removed, and the address of its element comes back. -/
def cursorEvents : List (ListEvent ℕ ℕ ℕ) :=
  [.allocate 10 5, .allocate 11 6, .allocate 12 7, .append 10 4 (some (1, ⟨none, some 9, none⟩)),
    .insert 11 4 (some 1) (some (2, ⟨some 2, none, none⟩)), .find (.callback (· == 5)),
    .unlink (.pointer (some 10)) true, .append 12 4 (some (1, ⟨none, none, some 3⟩)),
      .find (.callback (· == 5)),
    .detachHead, .release 11]

/-- The run in which the item at the cursor is removed. -/
theorem list_refines_cursorList_current :
    ∃ l m, (listMachine 3).run ListState.initial cursorEvents =
        ⟨(l, m), [.done, .done, .done, .element (some 1), .element (some 2), .element (some 1),
        .removed true,
          .element (some 1), .element none, .content (some 11), .done], none⟩ ∧
      RepresentsList l m ⟨[(1, 12, 7)], none⟩ [] ∧ l.size = 12 :=
  list_refines_cursorList 3 cursorEvents (by decide) (by decide) (by decide) (by decide)

/-- **No element is lost.**  After every such run, emptying the list frees each element that was
allocated and not freed before, once; what is still allocated are the contents that the caller
holds. -/
theorem list_releases (fuel : ℕ) (es : List (ListEvent Addr CAddr α)) (hfuel : fuel ≤ intMax)
    (hmalloc : (listMachine fuel).Along ListMallocFresh ListState.initial (es ++ [.empty]))
    (hbound : listSpec.Along (ListHoldsAtMost fuel) ListSpec.initial (es ++ [.empty]))
    (huse : (listSpec.run ListSpec.initial es).stop = none) :
    ∃ m, (listMachine fuel).run ListState.initial (es ++ [.empty]) =
        ⟨(listZero, m), (listSpec.run ListSpec.initial es).out ++ [.done], none⟩ ∧
      (∀ a, m.elements.cell a = none ∧
      m.elements.log.count (.malloc a) = m.elements.log.count (.free a)) ∧
      m.contents.Holds (listSpec.run ListSpec.initial es).state.held := by
  have hempty : listSpec.run ListSpec.initial (es ++ [.empty]) =
      ⟨⟨CursorList.empty, (listSpec.run ListSpec.initial es).state.held, 0⟩,
        (listSpec.run ListSpec.initial es).out ++ [.done], none⟩ := by
    rw [Machine.run_append _ _ huse]
    rfl
  obtain ⟨⟨l, m⟩, hrun, hrep, hsize⟩ := matches_run hfuel hmalloc hbound (by rw [hempty])
  rw [hempty] at hrun hrep hsize
  have hl : l = listZero := by
    obtain ⟨first, last, current, count, size⟩ := l
    rw [listZero, LinkedList.mk.injEq]
    exact ⟨hrep.chain, hrep.last, hrep.current, hrep.count, hsize⟩
  rw [hl] at hrun
  refine ⟨m, hrun, fun a => ⟨?_, ?_⟩, hrep.contents⟩
  · exact hrep.elements.cell_eq_none List.not_mem_nil
  · exact hrep.elements.released a

/-- The same run, and the list is emptied at its end. -/
theorem list_releases_current :
    ∃ m, (listMachine 3).run ListState.initial (cursorEvents ++ [.empty]) =
        ⟨(listZero, m), [.done, .done, .done, .element (some 1), .element (some 2),
        .element (some 1), .removed true,
          .element (some 1), .element none, .content (some 11), .done, .done], none⟩ ∧
      (∀ a, m.elements.cell a = none ∧
      m.elements.log.count (.malloc a) = m.elements.log.count (.free a)) ∧
      m.contents.Holds [] :=
  list_releases 3 cursorEvents (by decide) (by decide) (by decide) (by decide)
