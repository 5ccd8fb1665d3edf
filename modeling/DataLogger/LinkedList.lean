/-
# The linked list of the client library (`LinkedList.c`)

The doubly linked list that every other part of the library keeps its things in.  A `List`
points at its first and its last element, and at a current one, which `ListFindItem` looks at
before it looks at the others.

Elements and their contents live on heaps of their own.  The loops take fuel; that they end
is part of what is proved about them.
-/
import DataLogger.CTypes
import DataLogger.Library.Machine
import DataLogger.Library.DoublyLinked

/-! ## Data types -/

/-- `ListElement`. -/
abbrev ListElement (Addr CAddr : Type) := Link Addr (Ptr CAddr)

/-- `List`. -/
structure LinkedList (Addr : Type) where
  first : Ptr Addr
  last : Ptr Addr
  current : Ptr Addr
  count : CInt
  size : CULong
  deriving DecidableEq, Repr

/-- The memory: the elements of lists, and what they are given to hold. -/
structure ListMem (Addr CAddr α : Type) where
  elements : Heap Addr (ListElement Addr CAddr)
  contents : Heap CAddr α

/-- Why an operation has no outcome. -/
inductive ListFault (Addr CAddr : Type)
  | element (f : Heap.Fault Addr)
  | content (f : Heap.Fault CAddr)
  /-- A loop has run out of fuel. -/
  | unfinished
  deriving DecidableEq, Repr

/-- What an element is looked for by: the pointer to its content, or a callback on the content. -/
inductive ListKey (CAddr α : Type)
  | pointer (content : Ptr CAddr)
  | callback (f : α → Bool)

section Operations

variable {Addr CAddr α : Type} [DecidableEq Addr] [DecidableEq CAddr]

/-! ## Memory -/

namespace ListMem

/-- Load an element. -/
def read (m : ListMem Addr CAddr α) (p : Ptr Addr) :
    Except (ListFault Addr CAddr) (ListElement Addr CAddr) :=
  (m.elements.read p).mapError .element

/-- Store into an element. -/
def write (m : ListMem Addr CAddr α) (f : ListElement Addr CAddr → ListElement Addr CAddr)
    (p : Ptr Addr) :
    Except (ListFault Addr CAddr) (ListMem Addr CAddr α) :=
  ((m.elements.modify f p).mapError .element).map fun elements => { m with elements := elements }

/-- Store into an element, unless there is none. -/
def writeUnlessNull (m : ListMem Addr CAddr α) (f : ListElement Addr CAddr → ListElement Addr CAddr)
    (p : Ptr Addr) :
    Except (ListFault Addr CAddr) (ListMem Addr CAddr α) :=
  if p = none then .ok m else m.write f p

/-- Release an element. -/
def freeElement (m : ListMem Addr CAddr α) (p : Ptr Addr) :
    Except (ListFault Addr CAddr) (ListMem Addr CAddr α) :=
  ((m.elements.free p).mapError .element).map fun elements => { m with elements := elements }

/-- Load a content. -/
def readContent (m : ListMem Addr CAddr α) (c : Ptr CAddr) : Except (ListFault Addr CAddr) α :=
  (m.contents.read c).mapError .content

/-- Release a content. -/
def freeContent (m : ListMem Addr CAddr α) (c : Ptr CAddr) :
    Except (ListFault Addr CAddr) (ListMem Addr CAddr α) :=
  ((m.contents.free c).mapError .content).map fun contents => { m with contents := contents }

end ListMem

/-! ## Operations -/

/-- `ListZero`. -/
def listZero : LinkedList Addr := ⟨none, none, none, 0, 0⟩

/-- `ListAppendNoMalloc`. -/
def listAppendNoMalloc (aList : LinkedList Addr) (content : Ptr CAddr) (newel : Ptr Addr)
    (size : CULong)
    (m : ListMem Addr CAddr α) :
    Except (ListFault Addr CAddr) (LinkedList Addr × ListMem Addr CAddr α) := do
  let m ← m.write (fun e => { e with content := content }) newel
  let m ← m.write (fun e => { e with next := none }) newel
  let m ← m.write (fun e => { e with prev := aList.last }) newel
  let (aList, m) ←
    if aList.first = none then
      pure ({ aList with first := newel }, m)
    else do
      let m ← m.write (fun e => { e with next := newel }) aList.last
      pure (aList, m)
  let aList := { aList with last := newel }
  let aList := { aList with count := aList.count + 1 }
  return ({ aList with size := aList.size + size }, m)

/-- `ListAppend`; `ans` is what `malloc` answers. -/
def listAppend (aList : LinkedList Addr) (content : Ptr CAddr) (size : CULong)
    (ans : Option (Addr × ListElement Addr CAddr)) (m : ListMem Addr CAddr α) :
    Except (ListFault Addr CAddr) (Ptr Addr × LinkedList Addr × ListMem Addr CAddr α) := do
  let (newel, elements) := m.elements.malloc ans
  let m := { m with elements := elements }
  if newel = none then
    return (newel, aList, m)
  let (aList, m) ← listAppendNoMalloc aList content newel size m
  return (newel, aList, m)

/-- `ListInsert`. -/
def listInsert (aList : LinkedList Addr) (content : Ptr CAddr) (size : CULong) (index : Ptr Addr)
    (ans : Option (Addr × ListElement Addr CAddr)) (m : ListMem Addr CAddr α) :
    Except (ListFault Addr CAddr) (Ptr Addr × LinkedList Addr × ListMem Addr CAddr α) := do
  let (newel, elements) := m.elements.malloc ans
  let m := { m with elements := elements }
  if newel = none then
    return (newel, aList, m)
  if index = none then
    let (aList, m) ← listAppendNoMalloc aList content newel size m
    return (newel, aList, m)
  let m ← m.write (fun e => { e with content := content }) newel
  let m ← m.write (fun e => { e with next := index }) newel
  let i ← m.read index
  let m ← m.write (fun e => { e with prev := i.prev }) newel
  let m ← m.write (fun i => { i with prev := newel }) index
  let e ← m.read newel
  let (aList, m) ←
    if e.prev ≠ none then do
      let m ← m.write (fun p => { p with next := newel }) e.prev
      pure (aList, m)
    else
      pure ({ aList with first := newel }, m)
  let aList := { aList with count := aList.count + 1 }
  return (newel, { aList with size := aList.size + size }, m)

/-- The comparison of `ListFindItem`. -/
def ListKey.compare (key : ListKey CAddr α) (m : ListMem Addr CAddr α)
    (e : ListElement Addr CAddr) :
    Except (ListFault Addr CAddr) Bool :=
  match key with
  | .pointer content => .ok (e.content = content)
  | .callback f => (m.readContent e.content).map f

/-- The loop of `ListFindItem`. -/
def listFindItemLoop (key : ListKey CAddr α) (m : ListMem Addr CAddr α) :
    ℕ → Ptr Addr → Except (ListFault Addr CAddr) (Ptr Addr)
  | _, none => .ok none
  | 0, some _ => .error .unfinished
  | fuel + 1, some current => do
      let e ← m.read (some current)
      if ← key.compare m e then
        return some current
      listFindItemLoop key m fuel e.next

/-- The condition of `ListFindItem` on the current element. -/
def ListKey.atCurrent (key : ListKey CAddr α) (aList : LinkedList Addr) (m : ListMem Addr CAddr α) :
    Except (ListFault Addr CAddr) Bool :=
  if aList.current ≠ none then do
    let e ← m.read aList.current
    key.compare m e
  else
    pure false

/-- `ListFindItem`. -/
def listFindItem (fuel : ℕ) (aList : LinkedList Addr) (key : ListKey CAddr α)
    (m : ListMem Addr CAddr α) :
    Except (ListFault Addr CAddr) (Ptr Addr × LinkedList Addr) := do
  if ← key.atCurrent aList m then
    return (aList.current, aList)
  let rc ← listFindItemLoop key m fuel aList.first
  return (rc, if rc ≠ none then { aList with current := rc } else aList)

/-- `ListUnlink`. -/
def listUnlink (fuel : ℕ) (aList : LinkedList Addr) (key : ListKey CAddr α) (freeContent : Bool)
    (m : ListMem Addr CAddr α) :
    Except (ListFault Addr CAddr) (Bool × LinkedList Addr × ListMem Addr CAddr α) := do
  let saved := aList.current
  let (found, aList) ← listFindItem fuel aList key m
  if found = none then
    return (false, aList, m)
  let e ← m.read aList.current
  let aList := { aList with first := if e.prev = none then e.next else aList.first }
  let m ← m.writeUnlessNull (fun p => { p with next := e.next }) e.prev
  let e ← m.read aList.current
  let aList := { aList with last := if e.next = none then e.prev else aList.last }
  let m ← m.writeUnlessNull (fun n => { n with prev := e.prev }) e.next
  let e ← m.read aList.current
  let m ← if freeContent then m.freeContent e.content else pure m
  let m ← if freeContent then m.write (fun e => { e with content := none }) aList.current
    else pure m
  let saveddeleted := saved = aList.current
  let m ← m.freeElement aList.current
  let aList := { aList with current := if saveddeleted then e.next else saved }
  return (true, { aList with count := aList.count - 1 }, m)

/-- `ListDetachHead`. -/
def listDetachHead (aList : LinkedList Addr) (m : ListMem Addr CAddr α) :
    Except (ListFault Addr CAddr) (Ptr CAddr × LinkedList Addr × ListMem Addr CAddr α) := do
  if 0 < aList.count.toInt then
    let first := aList.first
    let e ← m.read first
    let aList := { aList with current := if aList.current = first then e.next else aList.current }
    let aList := { aList with last := if aList.last = first then none else aList.last }
    let aList := { aList with first := e.next }
    let m ← m.writeUnlessNull (fun n => { n with prev := none }) aList.first
    let m ← m.freeElement first
    return (e.content, { aList with count := aList.count - 1 }, m)
  return (none, aList, m)

/-- The loop of `ListEmpty`. -/
def listEmptyLoop : ℕ → Ptr Addr → ListMem Addr CAddr α →
    Except (ListFault Addr CAddr) (ListMem Addr CAddr α)
  | _, none, m => .ok m
  | 0, some _, _ => .error .unfinished
  | fuel + 1, some first, m => do
      let e ← m.read (some first)
      let m ←
        if e.content ≠ none then do
          let m ← m.freeContent e.content
          m.write (fun e => { e with content := none }) (some first)
        else
          pure m
      let e ← m.read (some first)
      let m ← m.freeElement (some first)
      listEmptyLoop fuel e.next m

/-- `ListEmpty`. -/
def listEmpty (fuel : ℕ) (aList : LinkedList Addr) (m : ListMem Addr CAddr α) :
    Except (ListFault Addr CAddr) (LinkedList Addr × ListMem Addr CAddr α) := do
  let m ← listEmptyLoop fuel aList.first m
  return ({ aList with count := 0, size := 0, current := none, first := none, last := none }, m)

end Operations
