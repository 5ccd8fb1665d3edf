/-
# The linked list is a list with a cursor

Over every run of the operations of `LinkedList.c` the memory holds a list with a cursor
(`CursorList`), no operation reads or frees what is not there, and what the list owns is what
it holds.

* `RepresentsList` : the memory holds the list;
* `RepresentsList.append`, `RepresentsList.insert`, `RepresentsList.find`, `RepresentsList.unlink`,
  `RepresentsList.empty` : what each operation does to it.
-/
import DataLogger.LinkedList

section Refinement

variable {Addr CAddr α : Type} [DecidableEq Addr] [DecidableEq CAddr]

/-! ## Memory -/

section Memory

variable {m : ListMem Addr CAddr α} {a : Addr} {e : ListElement Addr CAddr}

omit [DecidableEq CAddr] in
/-- An element that is allocated can be written. -/
theorem ListMem.write_some (ha : m.elements.cell a = some e)
    (f : ListElement Addr CAddr → ListElement Addr CAddr) :
    m.write f (some a) = .ok { m with elements := m.elements.put a (f e) } := by
  rw [write, Heap.modify_some ha]
  rfl

omit [DecidableEq Addr] [DecidableEq CAddr] in
/-- An element that is allocated can be read. -/
theorem ListMem.read_some (ha : m.elements.cell a = some e) : m.read (some a) = .ok e := by
  rw [read, Heap.read_some ha]
  rfl

omit [DecidableEq Addr] [DecidableEq CAddr] in
/-- A content that is allocated can be read. -/
theorem ListMem.readContent_some {c : CAddr} {x : α} (hc : m.contents.cell c = some x) :
    m.readContent (some c) = .ok x := by
  rw [readContent, Heap.read_some hc]
  rfl

omit [DecidableEq CAddr] in
/-- Freeing an element leaves the contents as they are. -/
theorem ListMem.freeElement_ok {p : Ptr Addr}
    {elements elements' : Heap Addr (ListElement Addr CAddr)}
    {contents : Heap CAddr α} (hfree : elements.free p = .ok elements') :
    ListMem.freeElement ⟨elements, contents⟩ p = .ok ⟨elements', contents⟩ := by
  rw [freeElement, hfree]
  rfl

omit [DecidableEq Addr] in
/-- Freeing a content leaves the elements as they are. -/
theorem ListMem.freeContent_ok {c : Ptr CAddr} {elements : Heap Addr (ListElement Addr CAddr)}
    {contents contents' : Heap CAddr α} (hfree : contents.free c = .ok contents') :
    ListMem.freeContent ⟨elements, contents⟩ c = .ok ⟨elements, contents'⟩ := by
  rw [freeContent, hfree]
  rfl

omit [DecidableEq CAddr] in
/-- A write that is skipped at `NULL` changes a link. -/
theorem ListMem.writeUnlessNull_eq {p : Ptr Addr}
    (hp : ∀ d, p = some d → ∃ e, m.elements.cell d = some e)
    (f : ListElement Addr CAddr → ListElement Addr CAddr) :
    m.writeUnlessNull f p = .ok ⟨relink f m.elements p, m.contents⟩ := by
  rcases p with _ | d
  · rfl
  · obtain ⟨e, hd⟩ := hp d rfl
    rw [writeUnlessNull, if_neg nofun, write_some hd, relink_some hd]

omit [DecidableEq CAddr] in
/-- Changing links leaves what is allocated. -/
theorem allocated_relink {h : Heap Addr (ListElement Addr CAddr)} {bs : List Addr}
    (ha : h.Allocated bs)
    (f : ListElement Addr CAddr → ListElement Addr CAddr) (p : Ptr Addr) :
    (relink f h p).Allocated bs := by
  rcases p with _ | a
  · exact ha
  · rcases hc : h.cell a with _ | c
    · simpa only [relink, hc] using ha
    · rw [relink_some hc]
      exact ha.put ((ha.mem a).mp (by rw [hc]; rfl)) _

end Memory

/-! ## The list that the memory holds -/

/-- The items as nodes: what an element holds is a pointer to its content. -/
def listNodes (items : List (Addr × CAddr × α)) : List (Addr × Ptr CAddr) :=
  items.map fun x => (x.1, some x.2.1)

/-- The key applies to the item. -/
def ListKey.holds (key : ListKey CAddr α) (x : Addr × CAddr × α) : Bool :=
  match key with
  | .pointer content => some x.2.1 = content
  | .callback f => f x.2.2

/-- The memory holds the list; its contents and `held` are all the contents that there are. -/
structure RepresentsList (l : LinkedList Addr) (m : ListMem Addr CAddr α)
    (s : CursorList Addr (CAddr × α))
    (held : List (CAddr × α)) : Prop where
  chain : Segment m.elements none l.first (listNodes s.items) none
  last : l.last = lastOf none (listNodes s.items)
  current : l.current = s.current
  inside : ∀ k, s.current = some k → k ∈ s.items.map Prod.fst
  count : l.count = BitVec.ofNat 32 s.items.length
  elements : m.elements.Allocated (s.items.map Prod.fst)
  contents : m.contents.Holds (s.items.map Prod.snd ++ held)

section Operations

variable {l l' : LinkedList Addr} {m m' : ListMem Addr CAddr α} {s : CursorList Addr (CAddr × α)}
    {held : List (CAddr × α)}
  {a i : Addr} {c : CAddr} {x : α} {junk : ListElement Addr CAddr} {key : ListKey CAddr α}
  {fuel : ℕ}
  {items xs ys : List (Addr × CAddr × α)}

omit [DecidableEq Addr] [DecidableEq CAddr] in
theorem addrs_listNodes : addrs (listNodes items) = items.map Prod.fst := List.map_map

omit [DecidableEq Addr] [DecidableEq CAddr] in
theorem listNodes_append : listNodes (xs ++ ys) = listNodes xs ++ listNodes ys := List.map_append

/-- `ListZero` makes the list without items. -/
theorem representsList_zero : RepresentsList listZero ⟨Heap.empty, Heap.empty⟩
    (CursorList.empty : CursorList Addr (CAddr × α)) [] where
  chain := rfl
  last := rfl
  current := rfl
  inside := nofun
  count := rfl
  elements := Heap.allocated_empty
  contents := Heap.holds_empty

/-! ## Appending -/

omit [DecidableEq CAddr] in
/-- `ListAppendNoMalloc` writes the element and the link of the last one. -/
theorem listAppendNoMalloc_eq (ha : m.elements.cell a = some junk)
    (hends : l.first = none ↔ l.last = none)
    (hlast : ∀ d, l.last = some d → d ≠ a ∧ ∃ e, m.elements.cell d = some e) (content : Ptr CAddr)
    (size : CULong) :
    listAppendNoMalloc l content (some a) size m = .ok
      (⟨if l.first = none then some a else l.first, some a, l.current, l.count + 1, l.size + size⟩,
        ⟨relink (fun e => { e with next := some a }) (m.elements.put a ⟨l.last, none, content⟩)
        l.last,
          m.contents⟩) := by
  rw [listAppendNoMalloc, ListMem.write_some ha]
  simp only [bind, Except.bind]
  rw [ListMem.write_some (Heap.put_cell_self _ _ _)]
  dsimp only
  rw [ListMem.write_some (Heap.put_cell_self _ _ _)]
  dsimp only
  rw [Heap.put_put, Heap.put_put]
  rcases hl : l.last with _ | d
  · have hfirst := hends.mpr hl
    simp only [hfirst, if_true, pure, Except.pure]
    rfl
  · obtain ⟨hne, e, hd⟩ := hlast d hl
    have hfirst : l.first ≠ none := mt hends.mp (by simp [hl])
    have hd' := (Heap.put_cell_of_ne m.elements hne ⟨some d, none, content⟩).trans hd
    simp only [if_neg hfirst]
    rw [ListMem.write_some hd', relink_some hd']
    rfl

/-- The memory when a block was allocated for an element. -/
def ListMem.alloc (m : ListMem Addr CAddr α) (a : Addr) (junk : ListElement Addr CAddr) :
    ListMem Addr CAddr α :=
  ⟨(m.elements.malloc (some (a, junk))).2, m.contents⟩

omit [DecidableEq CAddr] in
theorem ListMem.alloc_cell_self : (m.alloc a junk).elements.cell a = some junk :=
  Function.update_self _ _ _

omit [DecidableEq CAddr] in
/-- Allocating an element changes no other. -/
theorem ListMem.alloc_cell_of_ne {d : Addr} (hd : d ≠ a) :
    (m.alloc a junk).elements.cell d = m.elements.cell d :=
  Function.update_of_ne hd _ _

/-- The content of an item is allocated. -/
theorem RepresentsList.content (h : RepresentsList l m s held) {y : Addr × CAddr × α}
    (hy : y ∈ s.items) :
    m.contents.cell y.2.1 = some y.2.2 :=
  h.contents.cell y.2 (List.mem_append_left _ (List.mem_map_of_mem hy))

/-- Both ends are `NULL` together. -/
theorem RepresentsList.ends (h : RepresentsList l m s held) : l.first = none ↔ l.last = none := by
  rw [h.last, lastOf_eq_none, h.chain.first]
  cases listNodes s.items with
  | nil => exact ⟨fun _ => rfl, fun _ => rfl⟩
  | cons x xs => exact ⟨nofun, nofun⟩

/-- The element of an item is allocated. -/
theorem RepresentsList.isSome_of_mem (h : RepresentsList l m s held)
    (ha : a ∈ addrs (listNodes s.items)) :
    ∃ e, m.elements.cell a = some e := by
  rw [addrs_listNodes] at ha
  exact Option.isSome_iff_exists.mp ((h.elements.mem a).mpr ha)

/-- An element that is fresh is not that of an item. -/
theorem RepresentsList.not_mem_of_fresh (h : RepresentsList l m s held)
    (ha : m.elements.cell a = none) :
    a ∉ addrs (listNodes s.items) := by
  intro hmem
  obtain ⟨e, he⟩ := h.isSome_of_mem hmem
  rw [ha] at he
  cases he

/-- The last element is there, also when there is a new one. -/
theorem RepresentsList.last_alloc (h : RepresentsList l m s held) (ha : m.elements.cell a = none)
    (junk : ListElement Addr CAddr) :
    ∀ d, l.last = some d → d ≠ a ∧ ∃ e, (m.alloc a junk).elements.cell d = some e := by
  intro d hd
  rw [h.last] at hd
  have hmem := mem_addrs_of_lastOf hd
  have hne : d ≠ a := by
    rintro rfl
    exact h.not_mem_of_fresh ha hmem
  obtain ⟨e, he⟩ := h.isSome_of_mem hmem
  exact ⟨hne, e, (ListMem.alloc_cell_of_ne hne).trans he⟩

/-- A new element leaves the chain as it is. -/
theorem RepresentsList.chain_alloc (h : RepresentsList l m s held) (ha : m.elements.cell a = none)
    (junk e : ListElement Addr CAddr) :
    Segment ((m.alloc a junk).elements.put a e) none l.first (listNodes s.items) none := by
  refine h.chain.congr fun d hd => ?_
  have hne : d ≠ a := by
    rintro rfl
    exact h.not_mem_of_fresh ha hd
  rw [Heap.put_cell_of_ne _ hne, ListMem.alloc_cell_of_ne hne]

/-- The memory where a new element holds `c` between two parts of the chain. -/
def ListMem.hang (m : ListMem Addr CAddr α) (a : Addr) (junk : ListElement Addr CAddr) (c : CAddr)
    (xs ys : List (Addr × CAddr × α)) : ListMem Addr CAddr α :=
  ⟨relink (fun e => { e with next := some a })
      (relink (fun e => { e with prev := some a })
        ((m.alloc a junk).elements.put a ⟨lastOf none (listNodes xs), firstOf none (listNodes ys),
          some c⟩)
        (firstOf none (listNodes ys)))
      (lastOf none (listNodes xs)), m.contents⟩

/-- **A new element** between two parts of the list. -/
theorem RepresentsList.hang (h : RepresentsList l m s ((c, x) :: held))
    (hitems : s.items = xs ++ ys)
    (ha : m.elements.cell a = none) (junk : ListElement Addr CAddr) (size : CULong) :
    RepresentsList ⟨firstOf (some a) (listNodes xs), lastOf (some a) (listNodes ys), l.current,
      l.count + 1, size⟩
      (m.hang a junk c xs ys) ⟨xs ++ (a, c, x) :: ys, s.current⟩ held := by
  have hnot := h.not_mem_of_fresh ha
  rw [hitems, addrs_listNodes, List.map_append, List.mem_append, not_or] at hnot
  obtain ⟨hxs, hys⟩ := hnot
  have hchain := h.chain_alloc ha junk ⟨lastOf none (listNodes xs), firstOf none (listNodes ys),
      some c⟩
  rw [hitems, listNodes_append] at hchain
  have hperm : (a :: s.items.map Prod.fst).Perm ((xs ++ (a, c, x) :: ys).map Prod.fst) := by
    rw [hitems]
    exact ((List.perm_middle (a := (a, c, x))).map Prod.fst).symm
  have hpermContents : (s.items.map Prod.snd ++ (c, x) :: held).Perm
      ((xs ++ (a, c, x) :: ys).map Prod.snd ++ held) := by
    rw [hitems]
    refine List.perm_middle.trans ?_
    exact ((List.perm_middle (a := (a, c, x))).map Prod.snd).symm.append_right held
  refine ⟨?_, ?_, h.current, fun k hk => ?_, ?_, ?_, h.contents.perm hpermContents⟩
  · have hinsert := hchain.insert (Heap.put_cell_self _ _ _) (by rwa [addrs_listNodes])
        (by rwa [addrs_listNodes])
    rw [listNodes_append]
    exact hinsert
  · rw [listNodes_append, lastOf_append]
    rfl
  · have hmem := h.inside k hk
    exact hperm.subset (List.mem_cons_of_mem _ hmem)
  · rw [h.count, hitems, List.length_append, List.length_append, List.length_cons, ← Nat.add_assoc]
    exact (BitVec.ofNat_add _ _).symm
  · refine allocated_relink (allocated_relink (Heap.Allocated.put ?_ ?_ _) _ _) _ _
    · exact (h.elements.malloc ha junk).perm hperm
    · simp

/-- **Appending** a content that is held. -/
theorem RepresentsList.append (h : RepresentsList l m s ((c, x) :: held))
    (ha : m.elements.cell a = none) (junk : ListElement Addr CAddr) (size : CULong) :
    ∃ l' m', listAppend l (some c) size (some (a, junk)) m = .ok (some a, l', m') ∧
      RepresentsList l' m' (s.append a (c, x)) held ∧ l'.size = l.size + size := by
  have happend := listAppendNoMalloc_eq (m := m.alloc a junk) ListMem.alloc_cell_self h.ends
    (h.last_alloc ha junk) (some c) size
  have hrep := h.hang (List.append_nil _).symm ha junk (l.size + size)
  have hfirst : (if l.first = none then some a else l.first) =
      firstOf (some a) (listNodes s.items) := by
    rw [h.chain.first]
    cases listNodes s.items <;> rfl
  rw [hfirst, h.last] at happend
  refine ⟨_, _, ?_, hrep, rfl⟩
  rw [listAppend]
  exact congrArg (· >>= _) happend

/-! ## Inserting -/

omit [DecidableEq CAddr] in
/-- `ListInsert` writes the element and the links of its two neighbours. -/
theorem listInsert_eq {e : ListElement Addr CAddr} (ha : m.elements.cell a = none)
    (hi : m.elements.cell i = some e)
    (hprev : ∀ d, e.prev = some d → d ≠ i ∧ ∃ e', m.elements.cell d = some e')
    (junk : ListElement Addr CAddr) (size : CULong) :
    listInsert l (some c) size (some i) (some (a, junk)) m = .ok (some a,
      ⟨if e.prev = none then some a else l.first, l.last, l.current, l.count + 1, l.size + size⟩,
      ⟨relink (fun e => { e with next := some a })
        (relink (fun e => { e with prev := some a })
          ((m.alloc a junk).elements.put a ⟨e.prev, some i, some c⟩) (some i)) e.prev,
            m.contents⟩) := by
  have hne : ∀ {d e}, m.elements.cell d = some e → d ≠ a := by
    rintro d e hd rfl
    rw [ha] at hd
    cases hd
  have hkeep : ∀ {d e} (e'), m.elements.cell d = some e →
      ((m.alloc a junk).elements.put a e').cell d = some e := by
    intro d e e' hd
    rw [Heap.put_cell_of_ne _ (hne hd), ListMem.alloc_cell_of_ne (hne hd), hd]
  have halloc : m.elements.malloc (some (a, junk)) = (some a, (m.alloc a junk).elements) := rfl
  rw [listInsert, halloc]
  simp only [reduceCtorEq, if_false, bind, Except.bind]
  rw [ListMem.write_some (m := ⟨(m.alloc a junk).elements, m.contents⟩) ListMem.alloc_cell_self]
  dsimp only
  rw [ListMem.write_some (Heap.put_cell_self _ _ _), Heap.put_put]
  dsimp only
  rw [ListMem.read_some (hkeep _ hi)]
  dsimp only
  rw [ListMem.write_some (Heap.put_cell_self _ _ _), Heap.put_put]
  dsimp only
  rw [ListMem.write_some (hkeep _ hi), relink_some (hkeep _ hi)]
  dsimp only
  rw [ListMem.read_some ((Heap.put_cell_of_ne _ (hne hi).symm _).trans (Heap.put_cell_self _ _ _))]
  dsimp only
  rcases hp : e.prev with _ | d
  · rfl
  · obtain ⟨hdi, e', hd⟩ := hprev d hp
    have hd' := (Heap.put_cell_of_ne _ hdi ⟨some a, e.next, e.content⟩).trans
      (hkeep ⟨some d, some i, some c⟩ hd)
    rw [if_pos nofun, ListMem.write_some hd', relink_some hd']
    rfl

/-- Different items have different elements. -/
theorem RepresentsList.names (h : RepresentsList l m s held) : (s.items.map Prod.fst).Nodup :=
  h.elements.nodup

/-- What the element of an item says. -/
theorem RepresentsList.cell (h : RepresentsList l m s held)
    (hitems : s.items = xs ++ (i, c, x) :: ys) :
    m.elements.cell i = some ⟨lastOf none (listNodes xs), firstOf none (listNodes ys), some c⟩ := by
  have hchain := h.chain
  rw [hitems, listNodes_append] at hchain
  exact hchain.cell

/-- The elements next to an item are there, and they are others. -/
theorem RepresentsList.prev (h : RepresentsList l m s held)
    (hitems : s.items = xs ++ (i, c, x) :: ys) :
    ∀ d, lastOf none (listNodes xs) = some d → d ≠ i ∧ ∃ e, m.elements.cell d = some e := by
  intro d hd
  have hmem := mem_addrs_of_lastOf hd
  rw [addrs_listNodes] at hmem
  have hnames := h.names
  rw [hitems, List.map_append, List.map_cons, List.nodup_append] at hnames
  refine ⟨hnames.2.2 d hmem i List.mem_cons_self, h.isSome_of_mem ?_⟩
  rw [addrs_listNodes, hitems, List.map_append]
  exact List.mem_append_left _ hmem

/-- The element behind an item is another one, and allocated. -/
theorem RepresentsList.next (h : RepresentsList l m s held)
    (hitems : s.items = xs ++ (i, c, x) :: ys) :
    ∀ d, firstOf none (listNodes ys) = some d → d ≠ i ∧ ∃ e, m.elements.cell d = some e := by
  intro d hd
  have hmem := mem_addrs_of_firstOf hd
  rw [addrs_listNodes] at hmem
  have hnames := h.names
  rw [hitems, List.map_append, List.map_cons, List.nodup_append] at hnames
  refine ⟨?_, h.isSome_of_mem ?_⟩
  · rintro rfl
    exact (List.nodup_cons.mp hnames.2.1).1 hmem
  · rw [addrs_listNodes, hitems, List.map_append]
    exact List.mem_append_right _ (List.mem_cons_of_mem _ hmem)

/-- An item and those in front of it and behind it. -/
theorem RepresentsList.split (h : RepresentsList l m s held) (hi : i ∈ s.items.map Prod.fst) :
    ∃ xs d y ys, s.items = xs ++ (i, d, y) :: ys ∧ i ∉ xs.map Prod.fst := by
  obtain ⟨⟨i', d, y⟩, hmem, rfl⟩ := List.mem_map.mp hi
  obtain ⟨xs, ys, hitems⟩ := List.append_of_mem hmem
  refine ⟨xs, d, y, ys, hitems, fun hxs => ?_⟩
  have hnames := h.names
  rw [hitems, List.map_append, List.map_cons, List.nodup_append] at hnames
  exact hnames.2.2 i' hxs i' List.mem_cons_self rfl

/-- **Inserting** a content that is held, in front of an item. -/
theorem RepresentsList.insert (h : RepresentsList l m s ((c, x) :: held))
    (ha : m.elements.cell a = none) (hi : i ∈ s.items.map Prod.fst) (junk : ListElement Addr CAddr)
    (size : CULong) :
    ∃ l' m', listInsert l (some c) size (some i) (some (a, junk)) m = .ok (some a, l', m') ∧
      RepresentsList l' m' (s.insert i a (c, x)) held ∧ l'.size = l.size + size := by
  obtain ⟨xs, d, y, ys, hitems, hxs⟩ := h.split hi
  have hrep := h.hang hitems ha junk (l.size + size)
  have hlast : lastOf (some a) (listNodes ((i, d, y) :: ys)) = l.last := by
    rw [h.last, hitems, listNodes_append, lastOf_append]
    rfl
  have hfirst : firstOf (some a) (listNodes xs) = if lastOf none (listNodes xs) = none then some a
      else l.first := by
    rw [h.chain.first, hitems, listNodes_append]
    rcases List.eq_nil_or_concat xs with rfl | ⟨xs, z, rfl⟩
    · rfl
    · rw [List.concat_eq_append, listNodes_append, if_neg]
      · cases listNodes xs <;> rfl
      · exact mt lastOf_eq_none.mp (by simp [listNodes])
  rw [hlast, hfirst] at hrep
  have heq := listInsert_eq (l := l) (c := c) ha (h.cell hitems) (h.prev hitems) junk size
  refine ⟨_, _, heq, ?_, rfl⟩
  rw [CursorList.insert, hitems, CursorList.insertBefore_split hxs rfl]
  exact hrep

/-! ## Finding -/

omit [DecidableEq Addr] in
/-- An element matches a key if its item does. -/
theorem ListKey.compare_eq {e : ListElement Addr CAddr} {y : Addr × CAddr × α}
    (he : e.content = some y.2.1)
    (hy : m.contents.cell y.2.1 = some y.2.2) : key.compare m e = .ok (key.holds y) := by
  cases key with
  | pointer content => rw [compare, holds, he]
  | callback f =>
      rw [compare, he, ListMem.readContent_some hy]
      rfl

omit [DecidableEq Addr] in
/-- The loop stops at the first element that the key applies to. -/
theorem listFindItemLoop_eq {b p : Ptr Addr} (hs : Segment m.elements b p (listNodes ys) none)
    (hcontents : ∀ y ∈ ys, m.contents.cell y.2.1 = some y.2.2) (hfuel : ys.length ≤ fuel) :
    listFindItemLoop key m fuel p = .ok ((ys.find? key.holds).map Prod.fst) := by
  induction ys generalizing b p fuel with
  | nil =>
      obtain rfl := hs
      cases fuel <;> rfl
  | cons y ys ih =>
      obtain ⟨rfl, q, hcell, hrest⟩ := hs
      obtain _ | fuel := fuel
      · simp at hfuel
      rw [listFindItemLoop, ListMem.read_some hcell]
      simp only [bind, Except.bind]
      rw [ListKey.compare_eq rfl (hcontents y List.mem_cons_self)]
      rcases hp : key.holds y with _ | _
      · rw [List.find?_cons_of_neg (by simp [hp])]
        exact ih hrest (fun z hz => hcontents z (List.mem_cons_of_mem _ hz))
          (Nat.le_of_succ_le_succ hfuel)
      · rw [List.find?_cons_of_pos hp]
        rfl

/-- The cursor matches a key if the item at it does. -/
theorem RepresentsList.atCurrent (h : RepresentsList l m s held) (key : ListKey CAddr α) :
    key.atCurrent l m = .ok (s.atCurrent.filter key.holds).isSome := by
  rw [ListKey.atCurrent, h.current]
  rcases hcur : s.current with _ | k
  · rw [CursorList.atCurrent_eq_none hcur]
    rfl
  · obtain ⟨xs, d, y, ys, hitems, -⟩ := h.split (h.inside k hcur)
    have hmem : (k, d, y) ∈ s.items := by simp [hitems]
    rw [CursorList.atCurrent_eq_some h.names hmem hcur, if_pos nofun,
      ListMem.read_some (h.cell hitems)]
    simp only [bind, Except.bind]
    rw [ListKey.compare_eq (y := (k, d, y)) rfl (h.content hmem), Option.filter_some]
    cases key.holds (k, d, y) <;> rfl

/-- **Finding** an item. -/
theorem RepresentsList.find (h : RepresentsList l m s held) (hfuel : s.items.length ≤ fuel)
    (key : ListKey CAddr α) :
    listFindItem fuel l key m =
          .ok ((s.find key.holds).1.map Prod.fst,
            { l with current := (s.find key.holds).2.current }) ∧
      RepresentsList { l with current := (s.find key.holds).2.current } m (s.find key.holds).2
      held := by
  constructor
  · have hloop : listFindItemLoop key m fuel l.first =
        .ok ((s.items.find? key.holds).map Prod.fst) :=
      listFindItemLoop_eq h.chain (fun y => h.content) hfuel
    rw [listFindItem, h.atCurrent, CursorList.find]
    rcases hfilter : s.atCurrent.filter key.holds with _ | y
    · simp only [bind, Except.bind, Option.isSome_none, Bool.false_eq_true, if_false, hloop]
      rcases s.items.find? key.holds with _ | y
      · rw [← h.current]
        rfl
      · rfl
    · have hcurrent : s.current = some y.1 := by
        have hname := List.find?_some (Option.filter_eq_some_iff.mp hfilter).1
        exact (of_decide_eq_true hname).symm
      simp only [bind, Except.bind, Option.isSome_some, if_true, pure, Except.pure, ← h.current]
      exact congrArg (fun c => Except.ok (c, l)) (h.current.trans hcurrent)
  · refine ⟨?_, ?_, rfl, fun k hk => ?_, ?_, ?_, ?_⟩
    · rw [CursorList.find_items]
      exact h.chain
    · rw [CursorList.find_items]
      exact h.last
    · rw [CursorList.find_items]
      rcases hfound : (s.find key.holds).1 with _ | y
      · rw [CursorList.find_of_none hfound] at hk
        exact h.inside k hk
      · rw [CursorList.current_of_find hfound] at hk
        cases hk
        exact List.mem_map_of_mem (CursorList.mem_of_find hfound).1
    · rw [CursorList.find_items]
      exact h.count
    · rw [CursorList.find_items]
      exact h.elements
    · rw [CursorList.find_items]
      exact h.contents

/-! ## Removing -/

/-- The elements where the neighbours of `e` point past it. -/
def bypass (h : Heap Addr (ListElement Addr CAddr)) (e : ListElement Addr CAddr) :
    Heap Addr (ListElement Addr CAddr) :=
  relink (fun n => { n with prev := e.prev }) (relink (fun p => { p with next := e.next }) h e.prev)
    e.next

/-- **An element is freed** that its neighbours point past; what it held is held. -/
theorem RepresentsList.unhang (h : RepresentsList l m s held)
    (hitems : s.items = xs ++ (i, c, x) :: ys)
    (current : Ptr Addr) (hinside : ∀ k, current = some k → k ∈ (xs ++ ys).map Prod.fst)
    (size : CULong) :
    ∃ elements, (bypass m.elements ⟨lastOf none (listNodes xs), firstOf none (listNodes ys),
      some c⟩).free (some i) =
        .ok elements ∧
      RepresentsList ⟨firstOf (firstOf none (listNodes ys)) (listNodes xs),
      lastOf (lastOf none (listNodes xs)) (listNodes ys),
        current, l.count - 1, size⟩ ⟨elements, m.contents⟩ ⟨xs ++ ys,
          current⟩ ((c, x) :: held) := by
  have hchain := h.chain
  rw [hitems, listNodes_append] at hchain
  have hbypass := hchain.unlink
  have hperm : (s.items.map Prod.fst).Perm (i :: (xs ++ ys).map Prod.fst) := by
    rw [hitems]
    exact (List.perm_middle (a := (i, c, x))).map Prod.fst
  have hallocated := (allocated_relink (allocated_relink h.elements
    (fun e => { e with next := firstOf none (listNodes ys) }) (lastOf none (listNodes xs)))
    (fun e => { e with prev := lastOf none (listNodes xs) }) (firstOf none (listNodes ys))).perm
      hperm
  obtain ⟨elements, hfree, hrest, hframe⟩ := hallocated.free
  have hnot := (List.nodup_cons.mp hallocated.nodup).1
  have hpermContents :
      (s.items.map Prod.snd ++ held).Perm ((xs ++ ys).map Prod.snd ++ (c, x) :: held) := by
    rw [hitems]
    refine List.Perm.trans ?_ List.perm_middle.symm
    exact ((List.perm_middle (a := (i, c, x))).map Prod.snd).append_right held
  refine ⟨elements, hfree, ?_, ?_, rfl, hinside, ?_, hrest, h.contents.perm hpermContents⟩
  · rw [listNodes_append]
    refine hbypass.congr fun d hd => hframe d ?_
    rintro rfl
    refine hnot ?_
    rw [← addrs_listNodes, listNodes_append]
    exact hd
  · rw [listNodes_append, lastOf_append]
  · rw [h.count, hitems, List.length_append, List.length_append, List.length_cons, ← Nat.add_assoc,
      BitVec.ofNat_add]
    exact BitVec.add_sub_cancel _ _

/-- What is held can be freed. -/
theorem RepresentsList.release (h : RepresentsList l m s ((c, x) :: held)) :
    ∃ contents, m.contents.free (some c) = .ok contents ∧
      RepresentsList l ⟨m.elements, contents⟩ s held := by
  obtain ⟨contents, hfree, hrest⟩ := (h.contents.perm List.perm_middle).free
  exact ⟨contents, hfree, h.chain, h.last, h.current, h.inside, h.count, h.elements, hrest⟩

omit [DecidableEq CAddr] in
/-- Taking an element out of the chain does not write to it. -/
theorem bypass_cell_self {h : Heap Addr (ListElement Addr CAddr)} {e : ListElement Addr CAddr}
    (hprev : e.prev ≠ some i) (hnext : e.next ≠ some i) : (bypass h e).cell i = h.cell i := by
  rw [bypass, relink_cell_of_ne hnext, relink_cell_of_ne hprev]

/-- `ListUnlink` takes out and frees the element that is found. -/
theorem listUnlink_eq {e : ListElement Addr CAddr} {elements : Heap Addr (ListElement Addr CAddr)}
    {contents : Heap CAddr α} {freeContent : Bool}
    (hfind : listFindItem fuel l key m = .ok (some i, { l with current := some i }))
    (he : m.elements.cell i = some e)
    (hprev : ∀ d, e.prev = some d → d ≠ i ∧ ∃ e', m.elements.cell d = some e')
    (hnext : ∀ d, e.next = some d → d ≠ i ∧ ∃ e', m.elements.cell d = some e')
    (hfree : (bypass m.elements e).free (some i) = .ok elements)
    (hcontents : if freeContent then m.contents.free e.content = .ok contents else contents =
    m.contents) :
    listUnlink fuel l key freeContent m = .ok (true,
      ⟨if e.prev = none then e.next else l.first, if e.next = none then e.prev else l.last,
        if l.current = some i then e.next else l.current, l.count - 1, l.size⟩,
        ⟨elements, contents⟩) := by
  have hprevNe : e.prev ≠ some i := fun hp => (hprev i hp).1 rfl
  have hnextNe : e.next ≠ some i := fun hn => (hnext i hn).1 rfl
  have hcell : (bypass m.elements e).cell i = some e := (bypass_cell_self hprevNe hnextNe).trans he
  have hbehind : ∀ d, e.next = some d →
      ∃ e', (relink (fun p => { p with next := e.next }) m.elements e.prev).cell d = some e' := by
    intro d hd
    rw [← Option.isSome_iff_exists, isSome_relink]
    exact Option.isSome_iff_exists.mpr (hnext d hd).2
  rw [listUnlink, hfind]
  simp only [bind, Except.bind, reduceCtorEq, if_false]
  rw [ListMem.read_some he]
  dsimp only
  rw [ListMem.writeUnlessNull_eq fun d hd => (hprev d hd).2]
  dsimp only
  rw [ListMem.read_some ((relink_cell_of_ne hprevNe).trans he)]
  dsimp only
  rw [ListMem.writeUnlessNull_eq hbehind]
  dsimp only
  rw [ListMem.read_some hcell]
  unfold bypass at hfree hcell
  cases freeContent with
  | false =>
      obtain rfl := hcontents
      simp only [Bool.false_eq_true, if_false, pure, Except.pure]
      rw [ListMem.freeElement_ok hfree]
  | true =>
      simp only [if_true]
      rw [ListMem.freeContent_ok hcontents]
      dsimp only
      rw [ListMem.write_some hcell]
      dsimp only
      rw [ListMem.freeElement_ok ((Heap.free_put hcell _).trans hfree)]
      rfl

omit [DecidableEq Addr] [DecidableEq CAddr] in
/-- What is behind an item in the memory is what is behind it in the list. -/
theorem firstOf_listNodes : firstOf none (listNodes ys) = CursorList.firstName ys := by
  cases ys <;> rfl

/-- When an item goes, the cursor is on another one. -/
theorem RepresentsList.inside_of_unlink (h : RepresentsList l m s held)
    (hitems : s.items = xs ++ (i, c, x) :: ys) :
    ∀ k, (if l.current = some i then firstOf none (listNodes ys) else l.current) = some k →
      k ∈ (xs ++ ys).map Prod.fst := by
  intro k hk
  rw [List.map_append, List.mem_append]
  split at hk
  · have hmem := mem_addrs_of_firstOf hk
    rw [addrs_listNodes] at hmem
    exact .inr hmem
  · rename_i hne
    have hmem := h.inside k (h.current ▸ hk)
    rw [hitems, List.map_append, List.map_cons, List.mem_append, List.mem_cons] at hmem
    rcases hmem with hmem | rfl | hmem
    · exact .inl hmem
    · exact absurd hk hne
    · exact .inr hmem

/-- **Removing** an item; its content is freed, or held. -/
theorem RepresentsList.unlink (h : RepresentsList l m s held) (hfuel : s.items.length ≤ fuel)
    (key : ListKey CAddr α) (freeContent : Bool) :
    ∃ l' m', listUnlink fuel l key freeContent m = .ok ((s.remove key.holds).1.isSome, l', m') ∧
      RepresentsList l' m' (s.remove key.holds).2
        ((if freeContent then [] else ((s.remove key.holds).1.map Prod.snd).toList) ++ held) ∧
      l'.size = l.size := by
  obtain ⟨hfind, -⟩ := h.find hfuel key
  rcases hfound : (s.find key.holds).1 with _ | ⟨i, c, x⟩
  -- what is not found leaves the list as it was, with its cursor
  · have hremove : s.remove key.holds = (none, s) := by simp only [CursorList.remove, hfound]
    rw [CursorList.find_of_none hfound, hfound, ← h.current] at hfind
    refine ⟨l, m, ?_, ?_, rfl⟩
    · rw [listUnlink, hfind, hremove]
      rfl
    · rw [hremove]
      cases freeContent <;> exact h
  · rw [CursorList.current_of_find hfound, hfound] at hfind
    obtain ⟨xs, ys, hitems⟩ := List.append_of_mem (CursorList.mem_of_find hfound).1
    rw [CursorList.remove_split h.names hfound hitems]
    obtain ⟨elements, hfree, hrep⟩ := h.unhang hitems _ (h.inside_of_unlink hitems) l.size
    have heq : ∀ contents,
        (if freeContent then m.contents.free (some c) = .ok contents else contents = m.contents) →
        listUnlink fuel l key freeContent m = .ok (true,
          ⟨firstOf (firstOf none (listNodes ys)) (listNodes xs),
          lastOf (lastOf none (listNodes xs)) (listNodes ys),
            if l.current = some i then firstOf none (listNodes ys) else l.current, l.count - 1,
              l.size⟩,
          ⟨elements, contents⟩) := by
      intro contents hcontents
      have hunlink := listUnlink_eq hfind (h.cell hitems) (h.prev hitems) (h.next hitems) hfree
          hcontents
      have hlast : l.last = lastOf (some i) (listNodes ys) := by
        rw [h.last, hitems, listNodes_append, lastOf_append]
        rfl
      have hfirst : l.first = firstOf (some i) (listNodes xs) := by
        rw [h.chain.first, hitems, listNodes_append, firstOf_append]
        rfl
      rw [hunlink, hlast, hfirst, ite_lastOf, ite_firstOf]
    rw [h.current, firstOf_listNodes] at heq hrep
    cases freeContent with
    | false => exact ⟨_, _, heq m.contents rfl, hrep, rfl⟩
    | true =>
        obtain ⟨contents, hfreeContent, hreleased⟩ := hrep.release
        exact ⟨_, _, heq contents hfreeContent, hreleased, rfl⟩

/-- **Removing the first item**; its content is held. -/
theorem RepresentsList.detachHead (h : RepresentsList l m s held) (hlen : s.items.length ≤ intMax) :
    ∃ l' m', listDetachHead l m = .ok (s.detachHead.1.map (·.2.1), l', m') ∧
      RepresentsList l' m' s.detachHead.2 ((s.detachHead.1.map Prod.snd).toList ++ held) ∧
      l'.size = l.size := by
  rcases hitems : s.items with _ | ⟨⟨i, c, x⟩, ys⟩
  · have hdetach : s.detachHead = (none, s) := by rw [CursorList.detachHead, hitems]
    have hcount : ¬ 0 < l.count.toInt := by
      rw [h.count, toInt_ofNat_of_le_intMax hlen, hitems]
      exact lt_irrefl _
    refine ⟨l, m, ?_, ?_, rfl⟩
    · rw [listDetachHead, if_neg hcount, hdetach]
      rfl
    · rw [hdetach]
      exact h
  · have hdetach : s.detachHead =
        (some (i, c, x), ⟨ys, if s.current = some i then CursorList.firstName ys
        else s.current⟩) := by
      rw [CursorList.detachHead, hitems]
    have hcount : 0 < l.count.toInt := by
      rw [h.count, toInt_ofNat_of_le_intMax hlen, hitems]
      exact Int.natCast_pos.mpr (Nat.succ_pos _)
    have hsplit : s.items = [] ++ (i, c, x) :: ys := hitems
    obtain ⟨elements, hfree, hrep⟩ := h.unhang hsplit _ (h.inside_of_unlink hsplit) l.size
    have hfirst : l.first = some i := by
      rw [h.chain.first, hitems]
      rfl
    -- the last element is another one, unless the head was the only one
    have hlast : (if l.last = some i then none else l.last) = lastOf none (listNodes ys) := by
      have hnames := h.names
      rw [hitems, List.map_cons, List.nodup_cons] at hnames
      rw [h.last, hitems]
      rcases List.eq_nil_or_concat ys with rfl | ⟨zs, ⟨d, y⟩, rfl⟩
      · exact if_pos rfl
      · have hne : d ≠ i := by
          rintro rfl
          exact hnames.1 (by simp)
        rw [List.concat_eq_append, ← List.cons_append, listNodes_append, listNodes_append]
        rw [show listNodes [(d, y)] = [(d, some y.1)] from rfl, lastOf_concat, lastOf_concat]
        exact if_neg fun hd => hne (Option.some.inj hd)
    rw [h.current, firstOf_listNodes] at hrep
    rw [hdetach]
    refine ⟨⟨CursorList.firstName ys, lastOf none (listNodes ys), _, l.count - 1, l.size⟩,
      ⟨elements, m.contents⟩, ?_,
      hrep, rfl⟩
    rw [listDetachHead, if_pos hcount, hfirst]
    simp only [bind, Except.bind]
    rw [ListMem.read_some (h.cell hsplit)]
    dsimp only
    rw [ListMem.writeUnlessNull_eq fun d hd => (h.next hsplit d hd).2]
    dsimp only
    have hfreed : (relink (fun n => { n with prev := none }) m.elements
        (firstOf none (listNodes ys))).free (some i) =
        .ok elements := hfree
    rw [ListMem.freeElement_ok hfreed, hlast, h.current, firstOf_listNodes]
    rfl

/-! ## Emptying -/

/-- The loop frees every element and every content. -/
theorem listEmptyLoop_eq {b p : Ptr Addr} (hs : Segment m.elements b p (listNodes ys) none)
    (helements : m.elements.Allocated (ys.map Prod.fst))
    (hcontents : m.contents.Holds (ys.map Prod.snd ++ held))
    (hfuel : ys.length ≤ fuel) :
    ∃ m', listEmptyLoop fuel p m = .ok m' ∧ m'.elements.Allocated [] ∧ m'.contents.Holds held := by
  induction ys generalizing b p m fuel with
  | nil =>
      obtain rfl := hs
      exact ⟨m, by cases fuel <;> rfl, helements, hcontents⟩
  | cons y ys ih =>
      obtain ⟨rfl, q, hcell, hrest⟩ := hs
      obtain _ | fuel := fuel
      · simp at hfuel
      obtain ⟨contents, hfreeContent, hcontents'⟩ := hcontents.free
      obtain ⟨elements, hfree, helements', hframe⟩ := helements.free
      have hnot := (List.nodup_cons.mp helements.nodup).1
      have hsegment : Segment elements (some y.1) q (listNodes ys) none := by
        refine hrest.congr fun d hd => hframe d ?_
        rintro rfl
        rw [← listNodes, addrs_listNodes] at hd
        exact hnot hd
      obtain ⟨m', hloop, hm'⟩ := ih (m := ⟨elements, contents⟩) hsegment helements' hcontents'
        (Nat.le_of_succ_le_succ hfuel)
      refine ⟨m', ?_, hm'⟩
      rw [listEmptyLoop, ListMem.read_some hcell]
      simp only [bind, Except.bind, ne_eq, reduceCtorEq, not_false_eq_true, if_true]
      have hfreed : m.freeContent (some y.2.1) = .ok ⟨m.elements, contents⟩ :=
        ListMem.freeContent_ok hfreeContent
      rw [hfreed]
      dsimp only
      rw [ListMem.write_some (m := ⟨m.elements, contents⟩) hcell]
      dsimp only
      rw [ListMem.read_some (m := ⟨m.elements.put y.1 ⟨b, q, none⟩, contents⟩)
        (Heap.put_cell_self _ _ _)]
      dsimp only
      rw [ListMem.freeElement_ok ((Heap.free_put hcell _).trans hfree)]
      exact hloop

/-- **Emptying** the list. -/
theorem RepresentsList.empty (h : RepresentsList l m s held) (hfuel : s.items.length ≤ fuel) :
    ∃ l' m', listEmpty fuel l m = .ok (l', m') ∧ RepresentsList l' m' CursorList.empty held ∧
      l'.size = 0 := by
  obtain ⟨m', hloop, helements, hcontents⟩ := listEmptyLoop_eq h.chain h.elements h.contents hfuel
  refine ⟨⟨none, none, none, 0, 0⟩, m', ?_, ⟨rfl, rfl, rfl, nofun, rfl, helements, hcontents⟩, rfl⟩
  rw [listEmpty, hloop]
  rfl

end Operations

end Refinement
