/-
# Streams cut into frames

A *framer* reads one frame off the front of a stream: with the bytes that it has so
far it wants more, or it cannot go on, or it has a frame and a rest.  What it has
decided does not change when more arrives.  `Framer.frames` reads frame after frame.

* `Framer.frames_append` : however a stream is cut into pieces, reading the pieces one
  after the other gives the frames of the whole;
* `Framer.frames_flatMap` : the frames of what an encoder wrote are what it was given.
-/
import Mathlib.Data.List.Basic
import Mathlib.Tactic.Common

/-- What a reader makes of the bytes that it has so far. -/
inductive Parse (β α : Type*)
  | more
  | bad
  | done (a : α) (rest : List β)
  deriving DecidableEq, Repr

/-- A reader of one frame.  A frame is not empty, and a decision stands when more
arrives. -/
structure Framer (β α : Type*) where
  parse : List β → Parse β α
  parse_nil : parse [] = .more
  length_lt : ∀ {xs a rest}, parse xs = .done a rest → rest.length < xs.length
  done_append : ∀ {xs a rest} (ys), parse xs = .done a rest →
    parse (xs ++ ys) = .done a (rest ++ ys)
  bad_append : ∀ {xs} (ys), parse xs = .bad → parse (xs ++ ys) = .bad

namespace Framer

variable {β α : Type*} (F : Framer β α)

/-- The frames at the front of a stream, and what follows the last of them. -/
def frames (xs : List β) : List α × List β :=
  match h : F.parse xs with
  | .done a rest =>
      have : rest.length < xs.length := F.length_lt h
      (a :: (frames rest).1, (frames rest).2)
  | _ => ([], xs)
termination_by xs.length

variable {F} {xs ys p : List β} {as : List α} {a : α} {rest : List β}

/-- A frame that is complete is the first of the frames. -/
theorem frames_of_done (h : F.parse xs = .done a rest) :
    F.frames xs = (a :: (F.frames rest).1, (F.frames rest).2) := by
  rw [frames]
  split
  · next a' rest' h' =>
      rw [h] at h'
      cases h'
      rfl
  · next hne => exact absurd h (hne a rest)

/-- Without a complete frame at the front there are no frames. -/
theorem frames_of_not_done (h : ∀ a rest, F.parse xs ≠ .done a rest) : F.frames xs = ([], xs) := by
  rw [frames]
  split
  · next a rest h' => exact absurd h' (h a rest)
  · rfl

/-- While a frame is incomplete there are no frames. -/
theorem frames_of_more (h : F.parse xs = .more) : F.frames xs = ([], xs) := by
  apply frames_of_not_done
  intro a rest h'
  rw [h] at h'
  cases h'

/-- Behind what cannot be read there are no frames. -/
theorem frames_of_bad (h : F.parse xs = .bad) : F.frames xs = ([], xs) := by
  apply frames_of_not_done
  intro a rest h'
  rw [h] at h'
  cases h'

@[simp] theorem frames_nil : F.frames [] = ([], []) := frames_of_more F.parse_nil

/-- **Frames of a stream that comes in pieces.**  Reading goes on with what the first
piece left, and what was found in it stands. -/
theorem frames_append (xs ys : List β) :
    F.frames (xs ++ ys) =
      ((F.frames xs).1 ++ (F.frames ((F.frames xs).2 ++ ys)).1,
        (F.frames ((F.frames xs).2 ++ ys)).2) := by
  induction hn : xs.length using Nat.strongRecOn generalizing xs with
  | ind n ih =>
      by_cases h : ∃ a rest, F.parse xs = .done a rest
      · obtain ⟨a, rest, h⟩ := h
        rw [frames_of_done h, frames_of_done (F.done_append ys h),
          ih rest.length (hn ▸ F.length_lt h) rest rfl, List.cons_append]
      · rw [frames_of_not_done fun a rest h' => h ⟨a, rest, h'⟩, List.nil_append]

/-- A piece that ends the frame that had begun. -/
theorem frames_append_of_done (hp : F.frames xs = (as, p)) (h : F.parse (p ++ ys) = .done a []) :
    F.frames (xs ++ ys) = (as ++ [a], []) := by
  rw [frames_append, hp, frames_of_done h, frames_nil]

/-- A piece after which the frame that had begun is still not complete. -/
theorem frames_append_of_more (hp : F.frames xs = (as, p)) (h : F.parse (p ++ ys) = .more) :
    F.frames (xs ++ ys) = (as, p ++ ys) := by
  rw [frames_append, hp, frames_of_more h, List.append_nil]

/-- A piece with which the reader cannot go on, and what follows it. -/
theorem frames_append_of_bad (hp : F.frames xs = (as, p)) (h : F.parse (p ++ ys) = .bad) :
    F.frames (xs ++ ys) = (as, p ++ ys) := by
  rw [frames_append, hp, frames_of_bad h, List.append_nil]

/-- **Frames of what was encoded.**  If the encoding of each `a` reads back as `a`, the
frames of the encodings one after the other are what was encoded. -/
theorem frames_flatMap {enc : α → List β}
    (henc : ∀ a ∈ as, ∀ rest, F.parse (enc a ++ rest) = .done a rest) :
    F.frames (as.flatMap enc) = (as, []) := by
  induction as with
  | nil => exact frames_nil
  | cons a as ih =>
      rw [List.flatMap_cons, frames_of_done (henc a List.mem_cons_self _),
        ih fun b hb => henc b (List.mem_cons_of_mem _ hb)]

end Framer
