/-
# Messages that are handed over once

A sender hands messages to a receiver over two channels, which keep the order of what they
carry and may lose any of it.  A message is published until the receiver has it, and then
released until the receiver says that it is complete; the receiver holds a message from
its publication to its release, and delivers it then.  Messages in flight have different
ids, and an id is used again when its message is no longer in flight.

* `Exchange.conserved` : whatever is lost, what was submitted is what was delivered and what
  still waits for it, each once;
* `Exchange.Stuck.steps` : a completion that was lost is not made up for.
-/
import Mathlib.Data.List.Perm.Basic
import Mathlib.Data.List.Nodup
import Mathlib.Logic.Function.Basic
import Mathlib.Logic.Relation
import Mathlib.Tactic.Common

/-! ## Steps -/

/-- What the sender sends. -/
inductive Forward (ι μ : Type*)
  | publish (i : ι) (m : μ)
  | release (i : ι)
  deriving DecidableEq, Repr

/-- What the receiver answers. -/
inductive Reply (ι : Type*)
  | received (i : ι)
  | complete (i : ι)
  deriving DecidableEq, Repr

/-- The id that is sent. -/
def Forward.id {ι μ : Type*} : Forward ι μ → ι
  | publish i _ => i
  | release i => i

/-- The id that is answered. -/
def Reply.id {ι : Type*} : Reply ι → ι
  | received i => i
  | complete i => i

/-- A message in flight, and whether it has been released. -/
structure InFlight (ι μ : Type*) where
  id : ι
  msg : μ
  released : Bool
  deriving DecidableEq, Repr

/-- What is sent for a message in flight. -/
def InFlight.packet {ι μ : Type*} (x : InFlight ι μ) : Forward ι μ :=
  if x.released then .release x.id else .publish x.id x.msg

/-- The two ends and the channels between them, with what was submitted and delivered so far. -/
structure Exchange (ι μ : Type*) where
  inFlight : List (InFlight ι μ)
  held : ι → Option μ
  forward : List (Forward ι μ)
  replies : List (Reply ι)
  submitted : List μ
  delivered : List μ

namespace Exchange

variable {ι μ : Type*} [DecidableEq ι]

/-- Nothing was submitted yet. -/
def start : Exchange ι μ := ⟨[], fun _ => none, [], [], [], []⟩

/-- The messages in flight, where that of `i` has been released. -/
def releaseOf (i : ι) (xs : List (InFlight ι μ)) : List (InFlight ι μ) :=
  xs.map fun x => if x.id = i then { x with released := true } else x

/-- The messages in flight but for that of `i`. -/
def removeOf (i : ι) (xs : List (InFlight ι μ)) : List (InFlight ι μ) := xs.filter fun x => x.id ≠ i

/-- What a channel takes: everything, or nothing. -/
def pass {α : Type*} (up : Bool) (l : List α) : List α := if up then l else []

theorem pass_true {α : Type*} (l : List α) : pass true l = l := rfl

theorem pass_nil {α : Type*} (up : Bool) : pass up ([] : List α) = [] := by cases up <;> rfl

theorem pass_false {α : Type*} (l : List α) : pass false l = [] := rfl

/-- What one of the ends does; `up` says whether what it sends is on its way. -/
inductive Move (up : Bool) : Exchange ι μ → Exchange ι μ → Prop
  | submit {e : Exchange ι μ} {i : ι} {m : μ} (hfree : ∀ x ∈ e.inFlight, x.id ≠ i) :
      Move up e { e with
        inFlight := e.inFlight ++ [⟨i, m, false⟩]
        forward := e.forward ++ pass up [.publish i m]
        submitted := e.submitted ++ [m] }
  | resend {e : Exchange ι μ} {x : InFlight ι μ} (hx : x ∈ e.inFlight) :
      Move up e { e with forward := e.forward ++ pass up [x.packet] }
  | store {e : Exchange ι μ} {i : ι} {m : μ} {f : List (Forward ι μ)}
      (hf : e.forward = .publish i m :: f) :
      Move up e { e with
        held := Function.update e.held i (some m)
        forward := f
        replies := e.replies ++ pass up [.received i] }
  | deliver {e : Exchange ι μ} {i : ι} {m : μ} {f : List (Forward ι μ)}
      (hf : e.forward = .release i :: f) (hheld : e.held i = some m) :
      Move up e { e with
        held := Function.update e.held i none
        forward := f
        replies := e.replies ++ pass up [.complete i]
        delivered := e.delivered ++ [m] }
  | unknown {e : Exchange ι μ} {i : ι} {f : List (Forward ι μ)} (hf : e.forward = .release i :: f)
      (hheld : e.held i = none) : Move up e { e with forward := f }
  | release {e : Exchange ι μ} {x : InFlight ι μ} {r : List (Reply ι)}
      (hr : e.replies = .received x.id :: r) (hx : x ∈ e.inFlight) (hfirst : x.released = false) :
      Move up e { e with
        inFlight := releaseOf x.id e.inFlight
        forward := e.forward ++ pass up [.release x.id]
        replies := r }
  | finish {e : Exchange ι μ} {x : InFlight ι μ} {r : List (Reply ι)}
      (hr : e.replies = .complete x.id :: r) (hx : x ∈ e.inFlight) (hreleased : x.released = true) :
      Move up e { e with inFlight := removeOf x.id e.inFlight, replies := r }
  | ignore {e : Exchange ι μ} {p : Reply ι} {r : List (Reply ι)} (hr : e.replies = p :: r)
      (hp : ∀ x ∈ e.inFlight, p ≠ if x.released then .complete x.id else .received x.id) :
      Move up e { e with replies := r }

/-- What happens: one of the ends does something, or the channels lose something. -/
inductive Step : Exchange ι μ → Exchange ι μ → Prop
  | move {up : Bool} {e e' : Exchange ι μ} (h : Move up e e') : Step e e'
  | lose {e : Exchange ι μ} {f : List (Forward ι μ)} {r : List (Reply ι)} (hf : f.Sublist e.forward)
      (hr : r.Sublist e.replies) : Step e { e with forward := f, replies := r }

/-- What a channel takes is part of what it was given. -/
theorem append_pass_sublist {α : Type*} (up : Bool) (l l' : List α) :
    (l ++ pass up l').Sublist (l ++ l') := by
  cases up
  · exact List.Sublist.append_left (List.nil_sublist l') l
  · exact List.Sublist.refl _

/-- A move after which nothing is on its way is a move after which it is lost. -/
theorem Move.lossy {up : Bool} {e e' : Exchange ι μ} (h : Move up e e') : ∃ f r,
    Move true e { e' with forward := f, replies := r } ∧ e'.forward.Sublist f ∧
      e'.replies.Sublist r := by
  cases h with
  | submit hfree => exact ⟨_, _, .submit hfree, append_pass_sublist up _ _, List.Sublist.refl _⟩
  | resend hx => exact ⟨_, _, .resend hx, append_pass_sublist up _ _, List.Sublist.refl _⟩
  | store hf => exact ⟨_, _, .store hf, List.Sublist.refl _, append_pass_sublist up _ _⟩
  | deliver hf hheld =>
    exact ⟨_, _, .deliver hf hheld, List.Sublist.refl _, append_pass_sublist up _ _⟩
  | unknown hf hheld => exact ⟨_, _, .unknown hf hheld, List.Sublist.refl _, List.Sublist.refl _⟩
  | release hr hx hfirst => exact ⟨_, _, .release hr hx hfirst, append_pass_sublist up _ _,
    List.Sublist.refl _⟩
  | finish hr hx hreleased =>
    exact ⟨_, _, .finish hr hx hreleased, List.Sublist.refl _, List.Sublist.refl _⟩
  | ignore hr hp => exact ⟨_, _, .ignore hr hp, List.Sublist.refl _, List.Sublist.refl _⟩

/-! ## The phases of an id -/

/-- What the sender and the receiver have under the id `i`, and what is on its way between them. -/
inductive Phase (i : ι) :
    Option (InFlight ι μ) → Option μ → List (Forward ι μ) → List (Reply ι) → Prop
  | idle (a : ℕ) : Phase i none none (List.replicate a (.release i)) []
  | published (m : μ) (a b : ℕ) : Phase i (some ⟨i, m, false⟩) none
      (List.replicate a (.release i) ++ List.replicate b (.publish i m)) []
  | held (m : μ) (b n : ℕ) : Phase i (some ⟨i, m, false⟩) (some m)
      (List.replicate b (.publish i m)) (List.replicate n (.received i))
  | released (m : μ) (a b n : ℕ) : Phase i (some ⟨i, m, true⟩) (some m)
      (List.replicate b (.publish i m) ++ List.replicate a (.release i))
        (List.replicate n (.received i))
  | delivered (m : μ) (a n c : ℕ) (hc : c ≤ 1) : Phase i (some ⟨i, m, true⟩) none
      (List.replicate a (.release i))
        (List.replicate n (.received i) ++ List.replicate c (.complete i))

namespace Phase

variable {i : ι} {s : Option (InFlight ι μ)} {h : Option μ} {f f' : List (Forward ι μ)}
    {r r' : List (Reply ι)}

omit [DecidableEq ι] in
/-- What is left of two runs of one packet each is again two such runs. -/
theorem sublist_replicate_append {α : Type*} {x y : α} {a b : ℕ} {l : List α}
    (hl : l.Sublist (List.replicate a x ++ List.replicate b y)) :
    ∃ a' ≤ a, ∃ b' ≤ b, l = List.replicate a' x ++ List.replicate b' y := by
  obtain ⟨l₁, l₂, rfl, h₁, h₂⟩ := List.sublist_append_iff.mp hl
  obtain ⟨a', ha, rfl⟩ := List.sublist_replicate_iff.mp h₁
  obtain ⟨b', hb, rfl⟩ := List.sublist_replicate_iff.mp h₂
  exact ⟨a', ha, b', hb, rfl⟩

omit [DecidableEq ι] in
/-- Losing something leaves the phase as it is. -/
theorem lose (hp : Phase i s h f r) (hf : f'.Sublist f) (hr : r'.Sublist r) :
    Phase i s h f' r' := by
  cases hp with
  | idle a =>
      obtain ⟨a', -, rfl⟩ := List.sublist_replicate_iff.mp hf
      obtain rfl := List.sublist_nil.mp hr
      exact .idle a'
  | published m a b =>
      obtain ⟨a', -, b', -, rfl⟩ := sublist_replicate_append hf
      obtain rfl := List.sublist_nil.mp hr
      exact .published m a' b'
  | held m b n =>
      obtain ⟨b', -, rfl⟩ := List.sublist_replicate_iff.mp hf
      obtain ⟨n', -, rfl⟩ := List.sublist_replicate_iff.mp hr
      exact .held m b' n'
  | released m a b n =>
      obtain ⟨b', -, a', -, rfl⟩ := sublist_replicate_append hf
      obtain ⟨n', -, rfl⟩ := List.sublist_replicate_iff.mp hr
      exact .released m a' b' n'
  | delivered m a n c hc =>
      obtain ⟨a', -, rfl⟩ := List.sublist_replicate_iff.mp hf
      obtain ⟨n', -, c', hc', rfl⟩ := sublist_replicate_append hr
      exact .delivered m a' n' c' (Nat.le_trans hc' hc)

section Own

variable {m : μ} {x : InFlight ι μ}

omit [DecidableEq ι]

/-- A new message is published for the first time. -/
theorem submit (hp : Phase i none h f r) (m : μ) :
    Phase i (some ⟨i, m, false⟩) h (f ++ [.publish i m]) r := by
  cases hp with
  | idle a => exact .published m a 1

/-- Sending once more what is in flight keeps the phase. -/
theorem resend (hp : Phase i (some x) h f r) : Phase i (some x) h (f ++ [x.packet]) r := by
  cases hp with
  | published m a b =>
      rw [List.append_assoc, InFlight.packet, if_neg Bool.false_ne_true, ← List.replicate_succ']
      exact .published m a (b + 1)
  | held m b n =>
      rw [InFlight.packet, if_neg Bool.false_ne_true, ← List.replicate_succ']
      exact .held m (b + 1) n
  | released m a b n =>
      rw [List.append_assoc, InFlight.packet, if_pos rfl, ← List.replicate_succ']
      exact .released m (a + 1) b n
  | delivered m a n c hc =>
      rw [InFlight.packet, if_pos rfl, ← List.replicate_succ']
      exact .delivered m (a + 1) n c hc

/-- The receiver holds what is published, and answers. -/
theorem store (hp : Phase i s h (.publish i m :: f) r) :
    Phase i s (some m) f (r ++ [.received i]) := by
  generalize hf : Forward.publish i m :: f = g at hp
  cases hp with
  | idle a => cases a <;> cases hf
  | published m' a b =>
      cases a with
      | succ a => cases hf
      | zero =>
          cases b with
          | zero => cases hf
          | succ b =>
              cases hf
              exact .held m b 1
  | held m' b n =>
      cases b with
      | zero => cases hf
      | succ b =>
          cases hf
          rw [← List.replicate_succ']
          exact .held m b (n + 1)
  | released m' a b n =>
      cases b with
      | zero => cases a <;> cases hf
      | succ b =>
          cases hf
          rw [← List.replicate_succ']
          exact .released m a b (n + 1)
  | delivered m' a n c hc => cases a <;> cases hf

/-- The receiver delivers what is released, and answers. -/
theorem deliver (hp : Phase i s (some m) (.release i :: f) r) :
    Phase i s none f (r ++ [.complete i]) := by
  generalize hf : Forward.release i :: f = g at hp
  cases hp with
  | held m b n => cases b <;> cases hf
  | released m a b n =>
      cases b with
      | succ b => cases hf
      | zero =>
          cases a with
          | zero => cases hf
          | succ a =>
              cases hf
              exact .delivered m a n 1 (Nat.le_refl 1)

/-- The sender releases what was received for the first time. -/
theorem release (hp : Phase i (some x) h f (.received i :: r)) (hx : x.released = false) :
    Phase i (some { x with released := true }) h (f ++ [.release i]) r := by
  generalize hr : Reply.received i :: r = g at hp
  cases hp with
  | published m a b => cases hr
  | held m b n =>
      cases n with
      | zero => cases hr
      | succ n =>
          cases hr
          exact .released m 1 b n
  | released m a b n => cases hx
  | delivered m a n c hc => cases hx

/-- The sender gives up what is complete, and nothing of it is left on its way but releases. -/
theorem finish (hp : Phase i (some x) h f (.complete i :: r)) (hx : x.released = true) :
    Phase i none h f r := by
  generalize hr : Reply.complete i :: r = g at hp
  cases hp with
  | published m a b => cases hr
  | held m b n => cases n <;> cases hr
  | released m a b n => cases n <;> cases hr
  | delivered m a n c hc =>
      cases n with
      | succ n => cases hr
      | zero =>
          cases c with
          | zero => cases hr
          | succ c =>
              obtain rfl : c = 0 := Nat.le_zero.mp (Nat.le_of_succ_le_succ hc)
              cases hr
              exact .idle a

/-- A message that is published again still waits for its delivery. -/
theorem waits_of_publish (hp : Phase i (some x) h (.publish i m :: f) r) :
    x.released = false ∨ h ≠ none := by
  generalize hf : Forward.publish i m :: f = g at hp
  cases hp with
  | published m a b => exact Or.inl rfl
  | held m b n => exact Or.inl rfl
  | released m a b n => exact Or.inr (Option.some_ne_none m)
  | delivered m a n c hc => cases a <;> cases hf

/-- What is delivered is what is in flight. -/
theorem eq_of_release (hp : Phase i s (some m) (.release i :: f) r) : s = some ⟨i, m, true⟩ := by
  generalize hf : Forward.release i :: f = g at hp
  cases hp with
  | held m b n => cases b <;> cases hf
  | released m a b n => rfl

/-- What is released is held. -/
theorem ne_none_of_received (hp : Phase i (some x) h f (.received i :: r))
    (hx : x.released = false) :
    h ≠ none := by
  generalize hr : Reply.received i :: r = g at hp
  cases hp with
  | published m a b => cases hr
  | held m b n => exact Option.some_ne_none m
  | released m a b n => exact Option.some_ne_none m
  | delivered m a n c hc => cases hx

/-- What is complete was delivered. -/
theorem eq_none_of_complete (hp : Phase i s h f (.complete i :: r)) : h = none := by
  generalize hr : Reply.complete i :: r = g at hp
  cases hp with
  | idle a => rfl
  | published m a b => rfl
  | held m b n => cases n <;> cases hr
  | released m a b n => cases n <;> cases hr
  | delivered m a n c hc => rfl

/-- Under an id that is free, no publication and no reception is on its way. -/
theorem not_mem_of_none (hp : Phase i none h f r) : (∀ m, .publish i m ∉ f) ∧ .received i ∉ r := by
  cases hp with
  | idle a => exact ⟨fun m hm => (by cases List.eq_of_mem_replicate hm), List.not_mem_nil⟩

/-- Before a message is released, no release of it is on its way. -/
theorem not_mem_of_received (hp : Phase i (some x) h f (.received i :: r))
    (hx : x.released = false) :
    .release i ∉ f := by
  generalize hr : Reply.received i :: r = g at hp
  cases hp with
  | published m a b => cases hr
  | held m b n => exact fun hm => by cases List.eq_of_mem_replicate hm
  | released m a b n => cases hx
  | delivered m a n c hc => cases hx

end Own

end Phase

/-! ## What always holds -/

variable {e e' : Exchange ι μ} {i j : ι} {x : InFlight ι μ} {xs : List (InFlight ι μ)}

/-- The message in flight with the id `i`. -/
def findOf (i : ι) (xs : List (InFlight ι μ)) : Option (InFlight ι μ) := xs.find? fun x => x.id = i

/-- What is on its way under the id `i`. -/
def ofId {α : Type*} (key : α → ι) (i : ι) (l : List α) : List α := l.filter fun p => key p = i

/-- Each id is in one of the phases, and no two messages in flight have the same one. -/
structure Invariant (e : Exchange ι μ) : Prop where
  nodup : (e.inFlight.map (·.id)).Nodup
  phase : ∀ i, Phase i (findOf i e.inFlight) (e.held i) (ofId Forward.id i e.forward)
    (ofId Reply.id i e.replies)

/-- The invariant holds at the start. -/
theorem invariant_start : (start : Exchange ι μ).Invariant :=
  ⟨List.nodup_nil, fun _ => .idle 0⟩

/-- The message of an id is found, since no two have the same one. -/
theorem findOf_of_mem (hxs : (xs.map (·.id)).Nodup) (hx : x ∈ xs) : findOf x.id xs = some x := by
  induction xs with
  | nil => cases hx
  | cons y xs ih =>
      obtain ⟨hne, hxs⟩ := List.nodup_cons.mp hxs
      rcases List.mem_cons.mp hx with rfl | hx
      · exact List.find?_cons_of_pos (by simp)
      · have hid : y.id ≠ x.id := fun h => hne (List.mem_map.mpr ⟨x, hx, h.symm⟩)
        rw [findOf, List.find?_cons_of_neg (by simpa using hid)]
        exact ih hxs hx

/-- Nothing is found under an id that is free. -/
theorem findOf_eq_none (hfree : ∀ x ∈ xs, x.id ≠ i) : findOf i xs = none := by
  rw [findOf, List.find?_eq_none]
  intro x hx
  simpa using hfree x hx

/-- What is found is in flight, and has the id. -/
theorem mem_of_findOf (h : findOf i xs = some x) : x ∈ xs ∧ x.id = i := by
  have hid := List.find?_some h
  exact ⟨List.mem_of_find?_eq_some h, by simpa using hid⟩

/-- A new message does not hide those of other ids. -/
theorem findOf_append_of_ne (hx : x.id ≠ i) : findOf i (xs ++ [x]) = findOf i xs := by
  rw [findOf, List.find?_append, List.find?_singleton, if_neg (by simpa using hx), Option.or_none]
  rfl

/-- A new message is found under its id. -/
theorem findOf_append_self (hfree : ∀ y ∈ xs, y.id ≠ x.id) : findOf x.id (xs ++ [x]) = some x := by
  have hnone : xs.find? (fun y => y.id = x.id) = none := findOf_eq_none hfree
  rw [findOf, List.find?_append, hnone]
  simp

/-- Releasing a message changes no id. -/
theorem map_id_releaseOf (i : ι) (xs : List (InFlight ι μ)) :
    (releaseOf i xs).map (·.id) = xs.map (·.id) := by
  rw [releaseOf, List.map_map]
  refine List.map_congr_left fun x _ => ?_
  simp only [Function.comp]
  split <;> rfl

theorem findOf_releaseOf : findOf j (releaseOf i xs) =
    (findOf j xs).map fun x => if x.id = i then { x with released := true } else x := by
  induction xs with
  | nil => rfl
  | cons y xs ih =>
      have hid : (if y.id = i then { y with released := true } else y).id = y.id := by split <;> rfl
      rw [releaseOf, List.map_cons, findOf, findOf, List.find?_cons, List.find?_cons, hid]
      split
      · rfl
      · exact ih

/-- Releasing a message changes no other. -/
theorem findOf_releaseOf_of_ne (hij : j ≠ i) : findOf j (releaseOf i xs) = findOf j xs := by
  rw [findOf_releaseOf]
  rcases hx : findOf j xs with _ | x
  · rfl
  · have hid := (mem_of_findOf hx).2
    rw [Option.map_some, if_neg (by rw [hid]; exact hij)]

/-- The message that is released is found as such. -/
theorem findOf_releaseOf_self (hx : findOf i xs = some x) :
    findOf i (releaseOf i xs) = some { x with released := true } := by
  rw [findOf_releaseOf, hx, Option.map_some, if_pos (mem_of_findOf hx).2]

/-- Removing a message removes no other. -/
theorem findOf_removeOf_of_ne (hij : j ≠ i) : findOf j (removeOf i xs) = findOf j xs := by
  induction xs with
  | nil => rfl
  | cons y xs ih =>
      rw [removeOf, List.filter_cons]
      by_cases hy : y.id = i
      · have hne : y.id ≠ j := fun h => hij (h.symm.trans hy)
        rw [if_neg (by simpa using hy), findOf, findOf, List.find?_cons_of_neg (by simpa using hne)]
        exact ih
      · rw [if_pos (by simpa using hy), findOf, findOf, List.find?_cons, List.find?_cons]
        split
        · rfl
        · exact ih

/-- The message that is removed is not found any more. -/
theorem findOf_removeOf_self : findOf i (removeOf i xs) = none := by
  apply findOf_eq_none
  intro y hy
  simpa using (List.mem_filter.mp hy).2

/-- One more packet of the id. -/
theorem ofId_append_self {α : Type*} {key : α → ι} {l : List α} {p : α} (hp : key p = i) :
    ofId key i (l ++ [p]) = ofId key i l ++ [p] := by
  rw [ofId, List.filter_append, List.filter_singleton, decide_eq_true hp]
  rfl

/-- One more packet of another id. -/
theorem ofId_append_of_ne {α : Type*} {key : α → ι} {l : List α} {p : α} (hp : key p ≠ i) :
    ofId key i (l ++ [p]) = ofId key i l := by
  rw [ofId, List.filter_append, List.filter_singleton, decide_eq_false hp]
  exact List.append_nil _

theorem ofId_cons_self {α : Type*} {key : α → ι} {l : List α} {p : α} (hp : key p = i) :
    ofId key i (p :: l) = p :: ofId key i l :=
  List.filter_cons_of_pos (by simpa using hp)

theorem ofId_cons_of_ne {α : Type*} {key : α → ι} {l : List α} {p : α} (hp : key p ≠ i) :
    ofId key i (p :: l) = ofId key i l :=
  List.filter_cons_of_neg (by simpa using hp)

omit [DecidableEq ι] in
@[simp] theorem id_packet (x : InFlight ι μ) : x.packet.id = x.id := by
  rw [InFlight.packet]
  split <;> rfl

/-- The invariant survives any loss. -/
theorem Invariant.lose (hinv : e.Invariant) {f : List (Forward ι μ)} {r : List (Reply ι)}
    (hf : f.Sublist e.forward) (hr : r.Sublist e.replies) :
    Invariant { e with forward := f, replies := r } :=
  ⟨hinv.nodup, fun i => (hinv.phase i).lose (hf.filter _) (hr.filter _)⟩

/-- **Every move keeps every id in one of its phases.** -/
theorem Invariant.move_true (hinv : e.Invariant) (h : Move true e e') : e'.Invariant := by
  -- a move is about one id, and the phases of the others do not see it
  cases h with
  | @submit i m hfree =>
      refine ⟨?_, fun j => ?_⟩
      · rw [List.map_append, List.map_singleton, List.nodup_append]
        refine ⟨hinv.nodup, List.nodup_singleton _, ?_⟩
        rintro a ha b hb rfl
        obtain ⟨x, hx, hid⟩ := List.mem_map.mp ha
        exact hfree x hx (hid.trans (List.mem_singleton.mp hb))
      · have hp := hinv.phase j
        have hid : Forward.id (.publish i m : Forward ι μ) = i := rfl
        dsimp only [pass_true]
        by_cases hj : j = i
        · subst hj
          have hfind := findOf_append_self (x := ⟨j, m, false⟩) hfree
          rw [findOf_eq_none hfree] at hp
          rw [hfind, ofId_append_self hid]
          exact hp.submit m
        · rw [findOf_append_of_ne (Ne.symm hj), ofId_append_of_ne (by rw [hid]; exact Ne.symm hj)]
          exact hp
  | @resend x hx =>
      refine ⟨hinv.nodup, fun j => ?_⟩
      have hp := hinv.phase j
      dsimp only [pass_true]
      by_cases hj : x.id = j
      · subst hj
        rw [findOf_of_mem hinv.nodup hx] at hp ⊢
        rw [ofId_append_self (id_packet x)]
        exact hp.resend
      · rw [ofId_append_of_ne (by rwa [id_packet])]
        exact hp
  | @store i m f hf =>
      refine ⟨hinv.nodup, fun j => ?_⟩
      have hp := hinv.phase j
      have hid : Forward.id (.publish i m : Forward ι μ) = i := rfl
      have hid' : Reply.id (.received i : Reply ι) = i := rfl
      rw [hf] at hp
      dsimp only [pass_true]
      by_cases hj : j = i
      · subst hj
        rw [Function.update_self, ofId_append_self hid']
        rw [ofId_cons_self hid] at hp
        exact hp.store
      · rw [Function.update_of_ne hj, ofId_append_of_ne (by rw [hid']; exact Ne.symm hj)]
        rwa [ofId_cons_of_ne (by rw [hid]; exact Ne.symm hj)] at hp
  | @deliver i m f hf hheld =>
      refine ⟨hinv.nodup, fun j => ?_⟩
      have hp := hinv.phase j
      have hid : Forward.id (.release i : Forward ι μ) = i := rfl
      have hid' : Reply.id (.complete i : Reply ι) = i := rfl
      rw [hf] at hp
      dsimp only [pass_true]
      by_cases hj : j = i
      · subst hj
        rw [Function.update_self, ofId_append_self hid']
        rw [ofId_cons_self hid, hheld] at hp
        exact hp.deliver
      · rw [Function.update_of_ne hj, ofId_append_of_ne (by rw [hid']; exact Ne.symm hj)]
        rwa [ofId_cons_of_ne (by rw [hid]; exact Ne.symm hj)] at hp
  | unknown hf _ =>
      exact hinv.lose (by rw [hf]; exact List.sublist_cons_self _ _) (List.Sublist.refl _)
  | @release x r hr hx hfirst =>
      refine ⟨by rw [map_id_releaseOf]; exact hinv.nodup, fun j => ?_⟩
      have hp := hinv.phase j
      have hid : Forward.id (.release x.id : Forward ι μ) = x.id := rfl
      have hid' : Reply.id (.received x.id : Reply ι) = x.id := rfl
      rw [hr] at hp
      dsimp only [pass_true]
      by_cases hj : j = x.id
      · subst hj
        have hfind := findOf_of_mem hinv.nodup hx
        rw [findOf_releaseOf_self hfind, ofId_append_self hid]
        rw [hfind, ofId_cons_self hid'] at hp
        exact hp.release hfirst
      · rw [findOf_releaseOf_of_ne hj, ofId_append_of_ne (by rw [hid]; exact Ne.symm hj)]
        rwa [ofId_cons_of_ne (by rw [hid']; exact Ne.symm hj)] at hp
  | @finish x r hr hx hreleased =>
      refine ⟨hinv.nodup.sublist (List.filter_sublist.map _), fun j => ?_⟩
      have hp := hinv.phase j
      have hid' : Reply.id (.complete x.id : Reply ι) = x.id := rfl
      rw [hr] at hp
      dsimp only [pass_true]
      by_cases hj : j = x.id
      · subst hj
        rw [findOf_removeOf_self]
        rw [findOf_of_mem hinv.nodup hx, ofId_cons_self hid'] at hp
        exact hp.finish hreleased
      · rw [findOf_removeOf_of_ne hj]
        rwa [ofId_cons_of_ne (by rw [hid']; exact Ne.symm hj)] at hp
  | ignore hr _ =>
      exact hinv.lose (List.Sublist.refl _) (by rw [hr]; exact List.sublist_cons_self _ _)

/-- **One move keeps the invariant.** -/
theorem Invariant.move {up : Bool} (hinv : e.Invariant) (h : Move up e e') : e'.Invariant := by
  obtain ⟨f, r, hmove, hf, hr⟩ := h.lossy
  exact (hinv.move_true hmove).lose hf hr

/-- Every step keeps the invariant. -/
theorem Invariant.step (hinv : e.Invariant) (h : Step e e') : e'.Invariant := by
  cases h with
  | move h => exact hinv.move h
  | lose hf hr => exact hinv.lose hf hr

/-- **The invariant** holds after any steps. -/
theorem Invariant.steps (hinv : e.Invariant) (h : Relation.ReflTransGen Step e e') :
    e'.Invariant := by
  induction h with
  | refl => exact hinv
  | tail _ hstep ih => exact ih.step hstep

/-! ## Nothing is lost and nothing is delivered twice -/

/-- The message in flight still waits for its delivery. -/
def Waits (held : ι → Option μ) (x : InFlight ι μ) : Prop := x.released = false ∨ held x.id ≠ none

instance (held : ι → Option μ) (x : InFlight ι μ) : Decidable (Waits held x) :=
  haveI : Decidable (held x.id ≠ none) := decidable_of_iff ((held x.id).isSome = true)
    Option.isSome_iff_ne_none
  inferInstanceAs (Decidable (_ ∨ _))

/-- The messages that still wait for their delivery. -/
def undelivered (e : Exchange ι μ) : List μ := (e.inFlight.filter (Waits e.held ·)).map (·.msg)

/-- Two messages in flight with one id are the same. -/
theorem Invariant.eq_of_id (hinv : e.Invariant) {x y : InFlight ι μ} (hx : x ∈ e.inFlight)
    (hy : y ∈ e.inFlight) (hid : y.id = x.id) : y = x := by
  have hfind := findOf_of_mem hinv.nodup hy
  rw [hid, findOf_of_mem hinv.nodup hx] at hfind
  exact (Option.some.inj hfind).symm

section Waiting

variable {m : μ} {f : List (Forward ι μ)} {r : List (Reply ι)}

/-- Storing a message leaves those that wait as they are. -/
theorem filter_waits_store (hinv : e.Invariant) (hf : e.forward = .publish i m :: f) :
    e.inFlight.filter (Waits (Function.update e.held i (some m)) ·) =
      e.inFlight.filter (Waits e.held ·) := by
  refine List.filter_congr fun x hx => decide_eq_decide.mpr ?_
  have hid : Forward.id (.publish i m : Forward ι μ) = i := rfl
  rw [Waits, Waits]
  by_cases hi : x.id = i
  · have hp := hinv.phase i
    rw [hf, ofId_cons_self hid, ← hi, findOf_of_mem hinv.nodup hx, hi] at hp
    rw [hi, Function.update_self]
    exact ⟨fun _ => hp.waits_of_publish, fun _ => Or.inr (Option.some_ne_none m)⟩
  · rw [Function.update_of_ne hi]

/-- A delivery takes its message, and no other one, off those that wait. -/
theorem filter_waits_deliver (hinv : e.Invariant) (hf : e.forward = .release i :: f)
    (hheld : e.held i = some m) :
    ∃ l₁ l₂, e.inFlight.filter (Waits e.held ·) = l₁ ++ ⟨i, m, true⟩ :: l₂ ∧
      e.inFlight.filter (Waits (Function.update e.held i none) ·) = l₁ ++ l₂ := by
  have hid : Forward.id (.release i : Forward ι μ) = i := rfl
  have hp := hinv.phase i
  rw [hf, ofId_cons_self hid, hheld] at hp
  obtain ⟨hmem, -⟩ := mem_of_findOf hp.eq_of_release
  obtain ⟨l₁, l₂, hl⟩ := List.append_of_mem hmem
  have hother : ∀ x ∈ l₁ ++ l₂, decide (Waits (Function.update e.held i none) x) =
      decide (Waits e.held x) := by
    intro x hx
    have hne : x.id ≠ i := by
      intro hxi
      have hnodup := hinv.nodup
      rw [hl, List.map_append, List.map_cons, List.nodup_middle, List.nodup_cons,
        ← List.map_append] at hnodup
      exact hnodup.1 (List.mem_map.mpr ⟨x, hx, hxi⟩)
    rw [decide_eq_decide, Waits, Waits, Function.update_of_ne hne]
  refine ⟨l₁.filter (Waits e.held ·), l₂.filter (Waits e.held ·), ?_, ?_⟩
  · rw [hl, List.filter_append, List.filter_cons_of_pos]
    simp [Waits, hheld]
  · rw [hl, List.filter_append, List.filter_cons_of_neg (by simp [Waits]),
      List.filter_congr fun x hx => hother x (List.mem_append_left _ hx),
      List.filter_congr fun x hx => hother x (List.mem_append_right _ hx)]

/-- Releasing a message that is held leaves what waits as it is. -/
theorem filter_waits_releaseOf {held : ι → Option μ} (hheld : held i ≠ none)
    (xs : List (InFlight ι μ)) :
    ((releaseOf i xs).filter (Waits held ·)).map (·.msg) =
      (xs.filter (Waits held ·)).map (·.msg) := by
  induction xs with
  | nil => rfl
  | cons y xs ih =>
      rw [releaseOf] at ih ⊢
      rw [List.map_cons, List.filter_cons, List.filter_cons]
      by_cases hy : y.id = i
      · have hwaits : ∀ b, Waits held ⟨y.id, y.msg, b⟩ := fun b => Or.inr (by rw [hy]; exact hheld)
        rw [if_pos hy, if_pos (decide_eq_true (hwaits true)),
          if_pos (decide_eq_true (hwaits y.released)),
          List.map_cons, List.map_cons, ih]
      · rw [if_neg hy]
        split
        · rw [List.map_cons, List.map_cons, ih]
        · exact ih

/-- Releasing a message takes nothing from what is still to be delivered. -/
theorem undelivered_release (hinv : e.Invariant) (hr : e.replies = .received x.id :: r)
    (hx : x ∈ e.inFlight) (hfirst : x.released = false) :
    ((releaseOf x.id e.inFlight).filter (Waits e.held ·)).map (·.msg) = e.undelivered := by
  have hid : Reply.id (.received x.id : Reply ι) = x.id := rfl
  have hp := hinv.phase x.id
  rw [hr, ofId_cons_self hid, findOf_of_mem hinv.nodup hx] at hp
  exact filter_waits_releaseOf (hp.ne_none_of_received hfirst) _

/-- A message that is complete was not among those that wait. -/
theorem filter_waits_finish (hinv : e.Invariant) (hr : e.replies = .complete x.id :: r)
    (hx : x ∈ e.inFlight) (hreleased : x.released = true) (hxs : ∀ y ∈ xs, y ∈ e.inFlight) :
    (removeOf x.id xs).filter (Waits e.held ·) = xs.filter (Waits e.held ·) := by
  have hid : Reply.id (.complete x.id : Reply ι) = x.id := rfl
  have hp := hinv.phase x.id
  rw [hr, ofId_cons_self hid] at hp
  rw [removeOf, List.filter_filter]
  refine List.filter_congr fun y hy => ?_
  by_cases hyx : y.id = x.id
  · obtain rfl := hinv.eq_of_id hx (hxs y hy) hyx
    simp [Waits, hreleased, hp.eq_none_of_complete]
  · simp [hyx]

end Waiting

/-- What was submitted is what was delivered and what still waits. -/
def Conserved (e : Exchange ι μ) : Prop := e.submitted.Perm (e.delivered ++ e.undelivered)

/-- One move conserves the messages. -/
theorem Conserved.move {up : Bool} (hinv : e.Invariant) (hc : e.Conserved) (h : Move up e e') :
    e'.Conserved := by
  unfold Conserved undelivered at *
  cases h with
  | @submit i m hfree =>
      rw [List.filter_append, List.map_append, ← List.append_assoc]
      exact hc.append (by simp [Waits])
  | resend hx => exact hc
  | store hf =>
      dsimp only
      rwa [filter_waits_store hinv hf]
  | deliver hf hheld =>
      obtain ⟨l₁, l₂, hold, hnew⟩ := filter_waits_deliver hinv hf hheld
      dsimp only
      rw [hold, List.map_append, List.map_cons] at hc
      rw [hnew, List.map_append, List.append_assoc, List.singleton_append]
      exact hc.trans (List.Perm.append_left _ List.perm_middle)
  | unknown hf hheld => exact hc
  | release hr hx hfirst =>
      dsimp only
      rwa [undelivered_release hinv hr hx hfirst]
  | finish hr hx hreleased =>
      dsimp only
      rwa [filter_waits_finish hinv hr hx hreleased fun _ hy => hy]
  | ignore hr hp => exact hc

/-- **Nothing is lost, and nothing is delivered twice.**  Whatever the channels lose, what was
submitted is what was delivered and what still waits for its delivery, each message as often as it
was submitted. -/
theorem conserved (h : Relation.ReflTransGen Step start e) : e.Conserved := by
  induction h with
  | refl => exact List.Perm.refl _
  | tail hsteps hstep ih =>
      cases hstep with
      | move hmove => exact ih.move (invariant_start.steps hsteps) hmove
      | lose hf hr => exact ih

/-! ## What is lost for good -/

/-- The message `m` was delivered, but the receiver's word that it is complete is lost. -/
structure Stuck (e : Exchange ι μ) (i : ι) (m : μ) : Prop where
  inFlight : findOf i e.inFlight = some ⟨i, m, true⟩
  held : e.held i = none
  replies : .complete i ∉ e.replies

/-- **A completion that was lost is not made up for.**  From then on the message is in flight for
ever. -/
theorem Stuck.step {m : μ} (hinv : e.Invariant) (h : e.Stuck i m) (hstep : Step e e') :
    e'.Stuck i m := by
  obtain ⟨hflight, hheld, hreplies⟩ := h
  have hmem := mem_of_findOf hflight
  cases hstep with
  | lose hf hr => exact ⟨hflight, hheld, fun hmem => hreplies (hr.subset hmem)⟩
  | @move up _ _ hmove =>
      cases hmove with
      | @submit j m' hfree =>
          refine ⟨?_, hheld, hreplies⟩
          dsimp only
          rw [findOf_append_of_ne (fun hj => hfree _ hmem.1 hj.symm)]
          exact hflight
      | resend hx => exact ⟨hflight, hheld, hreplies⟩
      | @store j m' f hf =>
          by_cases hj : i = j
          · subst hj
            have hp := hinv.phase i
            have hid : Forward.id (.publish i m' : Forward ι μ) = i := rfl
            -- in its phase nothing is published again
            rw [hflight, hheld, hf, ofId_cons_self hid] at hp
            rcases hp.waits_of_publish with hfalse | hne
            · cases hfalse
            · exact absurd rfl hne
          · refine ⟨hflight, (Function.update_of_ne hj _ _).trans hheld, fun hmem => ?_⟩
            have hmem := (append_pass_sublist up _ _).subset hmem
            exact absurd hmem (by simpa using hreplies)
      | @deliver j m' f hf hheld' =>
          -- only a message that is held is delivered, and it is not
          have hj : i ≠ j := by
            rintro rfl
            rw [hheld] at hheld'
            cases hheld'
          refine ⟨hflight, (Function.update_of_ne hj _ _).trans hheld, fun hmem => ?_⟩
          have hmem := (append_pass_sublist up _ _).subset hmem
          exact absurd hmem (by simpa [hj] using hreplies)
      | unknown hf hheld' => exact ⟨hflight, hheld, hreplies⟩
      | @release x r hr hx hfirst =>
          rw [hr] at hreplies
          refine ⟨?_, hheld, mt (List.mem_cons_of_mem _) hreplies⟩
          have hne : i ≠ x.id := by
            rintro rfl
            rw [findOf_of_mem hinv.nodup hx] at hflight
            rw [Option.some.inj hflight] at hfirst
            cases hfirst
          rw [findOf_releaseOf_of_ne hne]
          exact hflight
      | @finish x r hr hx hreleased =>
          rw [hr] at hreplies
          refine ⟨?_, hheld, mt (List.mem_cons_of_mem _) hreplies⟩
          have hne : i ≠ x.id := by
            rintro rfl
            exact hreplies List.mem_cons_self
          rw [findOf_removeOf_of_ne hne]
          exact hflight
      | ignore hr hp =>
          rw [hr] at hreplies
          exact ⟨hflight, hheld, mt (List.mem_cons_of_mem _) hreplies⟩

/-- **A completion that was lost is not made up for**: the message stays in flight for ever. -/
theorem Stuck.steps {m : μ} (hinv : e.Invariant) (h : e.Stuck i m)
    (hsteps : Relation.ReflTransGen Step e e') :
    e'.Stuck i m := by
  induction hsteps with
  | refl => exact h
  | tail hsteps hstep ih => exact ih.step (hinv.steps hsteps) hstep

end Exchange
