/-
# Doubly linked chains on a heap, and lists with a cursor

`Segment h b p xs n` says that the nodes `xs`, listed with their addresses, follow each other
from the pointer `p` to the pointer `n`; each points back at the one before it, and the first
of them at `b`.  The predicate follows the list, and two segments that meet are one
(`segment_append`).

* `Segment.insert`, `Segment.unlink` : a node is hung into a chain, or taken out of it;
* `CursorList` : what a list with a cursor is, whatever it is made of.
-/
import Mathlib.Data.List.Nodup
import DataLogger.Library.LinkedChain

/-! ## Lists with a cursor -/

/-- A list whose items have names, with a cursor that names one of them or none. -/
structure CursorList (κ β : Type*) where
  items : List (κ × β)
  current : Option κ
  deriving DecidableEq, Repr

namespace CursorList

variable {κ β : Type*} [DecidableEq κ]

/-- No items. -/
def empty : CursorList κ β := ⟨[], none⟩

/-- The item at the cursor. -/
def atCurrent (l : CursorList κ β) : Option (κ × β) := l.items.find? fun x => some x.1 = l.current

/-- A new item behind the others. -/
def append (l : CursorList κ β) (k : κ) (x : β) : CursorList κ β :=
  { l with items := l.items ++ [(k, x)] }

/-- The items with a new one in front of that with the name `i`. -/
def insertBefore (i : κ) (x : κ × β) : List (κ × β) → List (κ × β)
  | [] => []
  | y :: ys => if y.1 = i then x :: y :: ys else y :: insertBefore i x ys

/-- A new item in front of that with the name `i`. -/
def insert (l : CursorList κ β) (i : κ) (k : κ) (x : β) : CursorList κ β :=
  { l with items := insertBefore i (k, x) l.items }

/-- Find an item, that at the cursor before any other; the cursor is put on what is found. -/
def find (l : CursorList κ β) (p : κ × β → Bool) : Option (κ × β) × CursorList κ β :=
  match l.atCurrent.filter p with
  | some x => (some x, l)
  | none =>
      match l.items.find? p with
      | some x => (some x, { l with current := some x.1 })
      | none => (none, l)

/-- The name of the first item, if there is one. -/
def firstName (xs : List (κ × β)) : Option κ := xs.head?.map Prod.fst

/-- The name of the item behind that with the name `k`. -/
def nextName (k : κ) : List (κ × β) → Option κ
  | [] => none
  | x :: xs => if x.1 = k then firstName xs else nextName k xs

/-- Remove what is found; the cursor stays where it was, or goes to the next item if it was
there. -/
def remove (l : CursorList κ β) (p : κ × β → Bool) : Option (κ × β) × CursorList κ β :=
  match (l.find p).1 with
  | none => (none, l)
  | some x => (some x, {
      items := l.items.filter fun y => y.1 ≠ x.1
      current := if l.current = some x.1 then nextName x.1 l.items else l.current })

/-- Remove the first item; the cursor stays where it was, or goes to the next item if it was
there. -/
def detachHead (l : CursorList κ β) : Option (κ × β) × CursorList κ β :=
  match l.items with
  | [] => (none, l)
  | x :: xs => (some x, ⟨xs, if l.current = some x.1 then firstName xs else l.current⟩)

/-! ### What is found -/

variable {l : CursorList κ β} {p : κ × β → Bool} {x y : κ × β} {i : κ} {xs ys : List (κ × β)}

/-- A new item goes right in front of the one that is named. -/
theorem insertBefore_split (hi : i ∉ xs.map Prod.fst) (hy : y.1 = i) :
    insertBefore i x (xs ++ y :: ys) = xs ++ x :: y :: ys := by
  induction xs with
  | nil => simp only [List.nil_append, insertBefore, if_pos hy]
  | cons z xs ih =>
      rw [List.map_cons, List.mem_cons, not_or] at hi
      rw [List.cons_append, insertBefore, if_neg (Ne.symm hi.1), ih hi.2]
      rfl

/-- What follows an item is the first of those behind it. -/
theorem nextName_split (hi : i ∉ xs.map Prod.fst) (hy : y.1 = i) :
    nextName i (xs ++ y :: ys) = firstName ys := by
  induction xs with
  | nil => simp only [List.nil_append, nextName, if_pos hy]
  | cons z xs ih =>
      rw [List.map_cons, List.mem_cons, not_or] at hi
      rw [List.cons_append, nextName, if_neg (Ne.symm hi.1), ih hi.2]

/-- Without a cursor there is no item at it. -/
theorem atCurrent_eq_none (hcurrent : l.current = none) : l.atCurrent = none := by
  rw [atCurrent, hcurrent]
  exact List.find?_eq_none.mpr fun x _ => by simp

/-- The names are the items' own, so the item at the cursor is the one with that name. -/
theorem atCurrent_eq_some (hnodup : (l.items.map Prod.fst).Nodup) (hx : x ∈ l.items)
    (hcurrent : l.current = some x.1) :
    l.atCurrent = some x := by
  rcases hat : l.atCurrent with _ | y
  · have hnone := List.find?_eq_none.mp hat x hx
    simp [hcurrent] at hnone
  · have hy := List.mem_of_find?_eq_some hat
    have hname := List.find?_some hat
    simp only [hcurrent, decide_eq_true_eq, Option.some.injEq] at hname
    rw [List.inj_on_of_nodup_map hnodup hy hx hname]

/-- Looking for an item changes no item. -/
@[simp] theorem find_items : (l.find p).2.items = l.items := by
  rw [find]
  split
  · rfl
  · split <;> rfl

/-- What is found is an item that was looked for. -/
theorem mem_of_find (hfound : (l.find p).1 = some x) : x ∈ l.items ∧ p x = true := by
  rw [find] at hfound
  split at hfound
  · rename_i y hy
    cases hfound
    rw [Option.filter_eq_some_iff] at hy
    exact ⟨List.mem_of_find?_eq_some hy.1, hy.2⟩
  · split at hfound
    · rename_i y hy
      cases hfound
      exact ⟨List.mem_of_find?_eq_some hy, List.find?_some hy⟩
    · cases hfound

/-- The cursor is on what is found. -/
theorem current_of_find (hfound : (l.find p).1 = some x) : (l.find p).2.current = some x.1 := by
  rw [find] at hfound ⊢
  split at hfound
  · rename_i y hy
    cases hfound
    rw [Option.filter_eq_some_iff] at hy
    have hname := List.find?_some hy.1
    exact (of_decide_eq_true hname).symm
  · split at hfound
    · cases hfound
      rfl
    · cases hfound

/-- If nothing is found, the cursor stays where it was. -/
theorem find_of_none (hfound : (l.find p).1 = none) : (l.find p).2 = l := by
  rw [find] at hfound ⊢
  split at hfound
  · rfl
  · split at hfound
    · cases hfound
    · rfl

/-- The item is found exactly if there is one. -/
theorem isSome_find : (l.find p).1.isSome ↔ ∃ x ∈ l.items, p x = true := by
  constructor
  · intro hsome
    obtain ⟨x, hx⟩ := Option.isSome_iff_exists.mp hsome
    exact ⟨x, mem_of_find hx⟩
  · rintro ⟨x, hx, hp⟩
    rw [find]
    split
    · rfl
    · split
      · rfl
      · rename_i hnone
        exact absurd hp (List.find?_eq_none.mp hnone x hx)

/-- Removing what is found leaves the items in front of it and behind it. -/
theorem remove_split (hnodup : (l.items.map Prod.fst).Nodup) (hfound : (l.find p).1 = some x)
    (hitems : l.items = xs ++ x :: ys) :
    l.remove p = (some x,
      ⟨xs ++ ys, if l.current = some x.1 then firstName ys else l.current⟩) := by
  rw [hitems, List.map_append, List.map_cons, List.nodup_append] at hnodup
  obtain ⟨-, hys, hdisjoint⟩ := hnodup
  have hxs : x.1 ∉ xs.map Prod.fst := fun hmem => hdisjoint _ hmem _ List.mem_cons_self rfl
  have hnotys : x.1 ∉ ys.map Prod.fst := (List.nodup_cons.mp hys).1
  have hkeep : ∀ zs : List (κ × β), x.1 ∉ zs.map Prod.fst → zs.filter (fun y => y.1 ≠ x.1) =
      zs := by
    intro zs hzs
    refine List.filter_eq_self.mpr fun y hy => decide_eq_true ?_
    intro hname
    exact hzs (hname ▸ List.mem_map_of_mem hy)
  simp only [remove, hfound]
  rw [hitems, nextName_split hxs rfl, List.filter_append, List.filter_cons_of_neg (by simp),
    hkeep xs hxs,
    hkeep ys hnotys]

/-- The only item that there is to find is found. -/
theorem find_eq_some (hitems : l.items = xs ++ x :: ys) (hp : p x = true)
    (honly : ∀ y ∈ l.items, p y = true → y = x) :
    (l.find p).1 = some x := by
  have hsome : (l.find p).1.isSome := isSome_find.mpr ⟨x, by simp [hitems], hp⟩
  obtain ⟨y, hy⟩ := Option.isSome_iff_exists.mp hsome
  obtain ⟨hmem, hpy⟩ := mem_of_find hy
  rw [hy, honly y hmem hpy]

/-- Where there is nothing to find, nothing is found. -/
theorem find_eq_none (hnone : ∀ y ∈ l.items, p y = false) : l.find p = (none, l) := by
  have hnot : (l.find p).1 = none := by
    rw [← Option.not_isSome_iff_eq_none, isSome_find]
    rintro ⟨y, hmem, hpy⟩
    rw [hnone y hmem] at hpy
    cases hpy
  exact Prod.ext hnot (find_of_none hnot)

/-- The cursor stays in the list when an item is found. -/
theorem current_find_mem (hcurrent : ∀ k, l.current = some k → k ∈ l.items.map Prod.fst) {k : κ}
    (hk : (l.find p).2.current = some k) : k ∈ l.items.map Prod.fst := by
  rcases hfound : (l.find p).1 with _ | y
  · rw [find_of_none hfound] at hk
    exact hcurrent k hk
  · rw [current_of_find hfound] at hk
    cases hk
    exact List.mem_map_of_mem (mem_of_find hfound).1

/-- The cursor stays in the list when an item is removed. -/
theorem current_remove_mem (hcurrent : ∀ k, l.current = some k → k ∈ l.items.map Prod.fst)
    (hitems : l.items = xs ++ x :: ys) {k : κ}
    (hk : (if l.current = some x.1 then firstName ys else l.current) = some k) :
    k ∈ (xs ++ ys).map Prod.fst := by
  rw [List.map_append, List.mem_append]
  split at hk
  · obtain ⟨y, hy, rfl⟩ := Option.map_eq_some_iff.mp hk
    exact .inr (List.mem_map_of_mem (List.mem_of_mem_head? hy))
  · rename_i hne
    have hmem := hcurrent k hk
    rw [hitems, List.map_append, List.map_cons, List.mem_append, List.mem_cons] at hmem
    rcases hmem with hmem | rfl | hmem
    · exact .inl hmem
    · exact absurd hk hne
    · exact .inr hmem

end CursorList

/-! ## Nodes -/

/-- A node that points both ways. -/
structure Link (Addr β : Type*) where
  prev : Ptr Addr
  next : Ptr Addr
  content : β
  deriving DecidableEq, Repr

section Segments

variable {Addr β : Type*}

/-- The nodes `xs` from `p` to `n`; the first of them points back at `b`. -/
def Segment (h : Heap Addr (Link Addr β)) : Ptr Addr → Ptr Addr → List (Addr × β) → Ptr Addr → Prop
  | _, p, [], n => p = n
  | b, p, (a, x) :: xs, n => p = some a ∧ ∃ q, h.cell a = some ⟨b, q, x⟩ ∧ Segment h (some a) q xs n

/-- Where the nodes end, if `b` is in front of them. -/
def lastOf (b : Ptr Addr) : List (Addr × β) → Ptr Addr
  | [] => b
  | (a, _) :: xs => lastOf (some a) xs

/-- Where the nodes begin, if `n` is behind them. -/
def firstOf (n : Ptr Addr) : List (Addr × β) → Ptr Addr
  | [] => n
  | (a, _) :: _ => some a

variable {h h' : Heap Addr (Link Addr β)} {b p n : Ptr Addr} {xs ys : List (Addr × β)} {a d : Addr}
    {x y : β}

theorem lastOf_append : lastOf b (xs ++ ys) = lastOf (lastOf b xs) ys := by
  induction xs generalizing b with
  | nil => rfl
  | cons x xs ih => exact ih

theorem firstOf_append : firstOf n (xs ++ ys) = firstOf (firstOf n ys) xs := by
  cases xs <;> rfl

theorem lastOf_concat : lastOf b (xs ++ [(a, x)]) = some a := lastOf_append

/-- There is no last node exactly if there are no nodes. -/
theorem lastOf_eq_none : lastOf none xs = none ↔ xs = [] := by
  rcases List.eq_nil_or_concat xs with rfl | ⟨xs, ⟨a, x⟩, rfl⟩
  · exact ⟨fun _ => rfl, fun _ => rfl⟩
  · rw [List.concat_eq_append, lastOf_concat]
    exact ⟨nofun, fun h => absurd h (by simp)⟩

/-- Two segments that meet are one. -/
theorem segment_append : Segment h b p (xs ++ ys) n ↔
    ∃ q, Segment h b p xs q ∧ Segment h (lastOf b xs) q ys n := by
  induction xs generalizing b p with
  | nil => exact ⟨fun h => ⟨p, rfl, h⟩, fun ⟨q, hq, h⟩ => hq ▸ h⟩
  | cons x xs ih =>
      obtain ⟨a, x⟩ := x
      constructor
      · rintro ⟨hp, q, ha, hrest⟩
        obtain ⟨q', hxs, hys⟩ := ih.mp hrest
        exact ⟨q', ⟨hp, q, ha, hxs⟩, hys⟩
      · rintro ⟨q', ⟨hp, q, ha, hxs⟩, hys⟩
        exact ⟨hp, q, ha, ih.mpr ⟨q', hxs, hys⟩⟩

/-- A segment begins at its first node. -/
theorem Segment.first (hs : Segment h b p xs n) : p = firstOf n xs := by
  cases xs with
  | nil => exact hs
  | cons x xs => exact hs.1

/-- A node of a segment points at its two neighbours. -/
theorem Segment.cell (hs : Segment h b p (xs ++ (a, x) :: ys) n) :
    h.cell a = some ⟨lastOf b xs, firstOf n ys, x⟩ := by
  obtain ⟨q, -, -, q', ha, hys⟩ := segment_append.mp hs
  rw [ha, hys.first]

/-- **Frame rule.**  A segment survives every change of the heap outside its nodes. -/
theorem Segment.congr (hs : Segment h b p xs n) (hsame : ∀ a ∈ addrs xs, h'.cell a = h.cell a) :
    Segment h' b p xs n := by
  induction xs generalizing b p with
  | nil => exact hs
  | cons x xs ih =>
      obtain ⟨a, x⟩ := x
      obtain ⟨hp, q, ha, hrest⟩ := hs
      refine ⟨hp, q, ?_, ih hrest fun a' ha' => hsame a' (List.mem_cons_of_mem _ ha')⟩
      rw [hsame a List.mem_cons_self]
      exact ha

/-- A segment that ends in `NULL` is a chain, so no address comes twice. -/
theorem Segment.nodup (hs : Segment h b p xs none) : (addrs xs).Nodup := by
  have hlinked : ∀ {b p xs}, Segment h b p xs none → ∃ cs, Linked Link.next h p cs ∧
      addrs cs = addrs xs := by
    intro b p xs hs
    induction xs generalizing b p with
    | nil => exact ⟨[], hs, rfl⟩
    | cons x xs ih =>
        obtain ⟨a, x⟩ := x
        obtain ⟨rfl, q, ha, hrest⟩ := hs
        obtain ⟨cs, hcs, haddrs⟩ := ih hrest
        exact ⟨(a, ⟨b, q, x⟩) :: cs, ⟨rfl, ha, hcs⟩, congrArg (a :: ·) haddrs⟩
  obtain ⟨cs, hcs, haddrs⟩ := hlinked hs
  exact haddrs ▸ hcs.nodup

/-! ## Changing links -/

/-- The last node is one of the nodes. -/
theorem mem_addrs_of_lastOf (hlast : lastOf none xs = some a) : a ∈ addrs xs := by
  rcases List.eq_nil_or_concat xs with rfl | ⟨xs, ⟨d, x⟩, rfl⟩
  · cases hlast
  · rw [List.concat_eq_append, lastOf_concat] at hlast
    cases hlast
    simp

/-- The first node is one of the nodes. -/
theorem mem_addrs_of_firstOf (hfirst : firstOf none xs = some a) : a ∈ addrs xs := by
  cases xs with
  | nil => cases hfirst
  | cons x xs =>
      cases hfirst
      exact List.mem_cons_self

/-- The first pointer of a list changes only if there was no node in front. -/
theorem ite_lastOf (p n : Ptr Addr) :
    (if lastOf none xs = none then p else firstOf n xs) = firstOf p xs := by
  cases xs with
  | nil => rfl
  | cons x xs =>
      rw [if_neg (mt lastOf_eq_none.mp (List.cons_ne_nil _ _))]
      rfl

/-- The last pointer of a list changes only if there was no node behind. -/
theorem ite_firstOf (p b : Ptr Addr) :
    (if firstOf none xs = none then p else lastOf b xs) = lastOf p xs := by
  cases xs with
  | nil => rfl
  | cons x xs => rfl

variable [DecidableEq Addr]

/-- The heap where the node behind a pointer is changed; `NULL` changes nothing. -/
def relink (f : Link Addr β → Link Addr β) (h : Heap Addr (Link Addr β)) :
    Ptr Addr → Heap Addr (Link Addr β)
  | none => h
  | some a =>
      match h.cell a with
      | none => h
      | some c => h.put a (f c)

variable {f : Link Addr β → Link Addr β}

theorem relink_some {c : Link Addr β} (ha : h.cell a = some c) :
    relink f h (some a) = h.put a (f c) := by
  simp only [relink, ha]

/-- Changing one node changes no other. -/
theorem relink_cell_of_ne (hp : p ≠ some d) : (relink f h p).cell d = h.cell d := by
  rcases p with _ | a
  · rfl
  · rcases hc : h.cell a with _ | c
    · simp only [relink, hc]
    · rw [relink_some hc, Heap.put_cell_of_ne h fun hd => hp (congrArg some hd.symm)]

/-- Changing a node takes none away. -/
theorem isSome_relink : ((relink f h p).cell d).isSome = (h.cell d).isSome := by
  by_cases hp : p = some d
  · subst hp
    rcases hc : h.cell d with _ | c
    · simp only [relink, hc]
    · rw [relink_some hc, Heap.put_cell_self]
      rfl
  · rw [relink_cell_of_ne hp]

/-- The last node is made to point elsewhere. -/
theorem Segment.relinkNext (hs : Segment h none p xs n) (hnodup : (addrs xs).Nodup)
    (n' : Ptr Addr) :
    Segment (relink (fun c => { c with next := n' }) h (lastOf none xs)) none (firstOf n' xs) xs
      n' := by
  rcases List.eq_nil_or_concat xs with rfl | ⟨xs, ⟨a, x⟩, rfl⟩
  · exact rfl
  · rw [List.concat_eq_append] at hs hnodup ⊢
    have hcell := hs.cell
    rw [lastOf_concat, relink_some hcell]
    have hnot : a ∉ addrs xs := by
      rw [addrs, List.map_append, List.nodup_append] at hnodup
      exact fun hmem => hnodup.2.2 a hmem a (by simp) rfl
    obtain ⟨q, hxs, rfl, -⟩ := segment_append.mp hs
    have hframe : Segment (h.put a ⟨lastOf none xs, n', x⟩) none p xs (some a) := by
      refine hxs.congr fun d hd => Heap.put_cell_of_ne h ?_ _
      rintro rfl
      exact hnot hd
    have hfirst : firstOf n' (xs ++ [(a, x)]) = p := by
      rw [hxs.first]
      cases xs <;> rfl
    rw [hfirst]
    exact segment_append.mpr ⟨some a, hframe, rfl, n', Heap.put_cell_self _ _ _, rfl⟩

/-- The first node is made to point back elsewhere. -/
theorem Segment.relinkPrev (hs : Segment h b p xs none) (hnodup : (addrs xs).Nodup)
    (b' : Ptr Addr) :
    Segment (relink (fun c => { c with prev := b' }) h (firstOf none xs)) b' p xs none := by
  cases xs with
  | nil => exact hs
  | cons x xs =>
      obtain ⟨a, x⟩ := x
      obtain ⟨rfl, q, ha, hrest⟩ := hs
      have hnot := (List.nodup_cons.mp hnodup).1
      rw [firstOf, relink_some ha]
      refine ⟨rfl, q, Heap.put_cell_self _ _ _, hrest.congr fun d hd => Heap.put_cell_of_ne h ?_ _⟩
      rintro rfl
      exact hnot hd

/-- **A node is taken out.** -/
theorem Segment.unlink (hs : Segment h none p (xs ++ (a, x) :: ys) none) :
    Segment (relink (fun c => { c with prev := lastOf none xs })
        (relink (fun c => { c with next := firstOf none ys }) h (lastOf none xs)) (firstOf none ys))
      none (firstOf (firstOf none ys) xs) (xs ++ ys) none := by
  have hnodup := hs.nodup
  rw [addrs, List.map_append, List.map_cons, List.nodup_append] at hnodup
  obtain ⟨hxsNodup, hysNodup, hdisjoint⟩ := hnodup
  obtain ⟨q, hxs, rfl, q', -, hys⟩ := segment_append.mp hs
  rw [hys.first] at hys
  have hxs' := hxs.relinkNext hxsNodup (firstOf none ys)
  have hys' : Segment (relink (fun c => { c with next := firstOf none ys }) h (lastOf none xs))
      (some a) (firstOf none ys) ys none := by
    refine hys.congr fun d hd => relink_cell_of_ne fun hlast => ?_
    exact hdisjoint d (mem_addrs_of_lastOf hlast) d (List.mem_cons_of_mem _ hd) rfl
  refine segment_append.mpr ⟨firstOf none ys,
    hxs'.congr fun d hd => relink_cell_of_ne fun hfirst => ?_,
    hys'.relinkPrev (List.nodup_cons.mp hysNodup).2 _⟩
  exact hdisjoint d hd d (List.mem_cons_of_mem _ (mem_addrs_of_firstOf hfirst)) rfl

/-- **A new node is hung in** between two parts of a chain. -/
theorem Segment.insert (hs : Segment h none p (xs ++ ys) none)
    (hnew : h.cell a = some ⟨lastOf none xs, firstOf none ys, x⟩)
    (hxs : a ∉ addrs xs) (hys : a ∉ addrs ys) :
    Segment (relink (fun c => { c with next := some a })
        (relink (fun c => { c with prev := some a }) h (firstOf none ys)) (lastOf none xs))
      none (firstOf (some a) xs) (xs ++ (a, x) :: ys) none := by
  have hnodup := hs.nodup
  rw [addrs, List.map_append, List.nodup_append] at hnodup
  obtain ⟨hxsNodup, hysNodup, hdisjoint⟩ := hnodup
  obtain ⟨q, hsxs, hsys⟩ := segment_append.mp hs
  obtain rfl := hsys.first
  have hfirst : firstOf none ys ≠ some a := fun h => hys (mem_addrs_of_firstOf h)
  have hlast : lastOf none xs ≠ some a := fun h => hxs (mem_addrs_of_lastOf h)
  have hxs' : Segment (relink (fun c => { c with prev := some a }) h (firstOf none ys)) none p xs
      (firstOf none ys) := by
    refine hsxs.congr fun d hd => relink_cell_of_ne fun h => ?_
    exact hdisjoint d hd d (mem_addrs_of_firstOf h) rfl
  have hys' : Segment (relink (fun c => { c with next := some a })
      (relink (fun c => { c with prev := some a }) h (firstOf none ys)) (lastOf none xs))
      (some a) (firstOf none ys) ys none := by
    refine (hsys.relinkPrev hysNodup (some a)).congr fun d hd => relink_cell_of_ne fun h => ?_
    exact hdisjoint d (mem_addrs_of_lastOf h) d hd rfl
  refine segment_append.mpr ⟨some a, hxs'.relinkNext hxsNodup (some a), rfl, firstOf none ys, ?_,
    hys'⟩
  rw [relink_cell_of_ne hlast, relink_cell_of_ne hfirst]
  exact hnew

end Segments
