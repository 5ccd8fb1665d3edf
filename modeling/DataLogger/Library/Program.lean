/-
# Programs over the functions of a library

A *program* is code in which only the calls of an external library are left open: it
returns, it ends the process, or it calls a function of the library and continues with
the reply.  The functions are a type `C`, and `R c` is the type of the replies to `c`.

Two readings of a program are used:

* `Runs p t out` : with *any* replies, `p` makes the calls `t` and ends with `out`.
  What holds of all runs holds whatever the library does;
* `exec S p o s` : the run of `p` over a model `S` of the library, whose state is `s`
  and whose free choices are read from `o`.

`runs_of_exec` says that the second is an instance of the first, and `exec_of_refines` that
a more detailed model of the library gives no runs that a coarser one does not have.
-/
import Mathlib.Tactic.Common

/-! ## Results of computations -/

/-- What a computation returns came from what its first part returned. -/
theorem Except.exists_of_bind {ε : Type*} {α β : Type*} {x : Except ε α} {f : α → Except ε β}
    {b : β}
    (h : x.bind f = .ok b) : ∃ a, x = .ok a ∧ f a = .ok b := by
  rcases x with err | a
  · cases h
  · exact ⟨a, rfl, h⟩

/-- What a mapped computation returns is the image of what it returned. -/
theorem Except.exists_of_map {ε : Type*} {α β : Type*} {x : Except ε α} {f : α → β} {b : β}
    (h : x.map f = .ok b) : ∃ a, x = .ok a ∧ f a = b := by
  rcases x with err | a
  · cases h
  · exact ⟨a, rfl, Except.ok.inj h⟩

/-! ## Programs -/

/-- Code over a library with functions `C` and replies `R`, which ends the process with
a code in `E` or returns an `α`. -/
inductive Program (C : Type*) (R : C → Type*) (E α : Type*)
  | ret (a : α)
  | exit (code : E)
  | call (c : C) (k : R c → Program C R E α)

namespace Program

universe u

variable {C : Type*} {R : C → Type*} {E σ ε φ : Type*} {α β : Type u}

/-- Continue with the value that `p` returns. -/
def bind (p : Program C R E α) (f : α → Program C R E β) : Program C R E β :=
  match p with
  | .ret a => f a
  | .exit code => .exit code
  | .call c k => .call c fun r => (k r).bind f

instance : Monad (Program C R E) where
  pure := .ret
  bind := bind

/-- Call one function of the library. -/
def lib (c : C) : Program C R E (R c) := .call c .ret

/-! ## With any replies -/

/-- The calls that were made, with their replies. -/
abbrev Trace (C : Type*) (R : C → Type*) := List (Σ c, R c)

/-- With the replies in `t`, the program makes the calls in `t` and ends with `out`: it
returns a value, or it ends the process. -/
def Runs : Program C R E α → Trace C R → Except E α → Prop
  | .ret a, t, out => t = [] ∧ out = .ok a
  | .exit code, t, out => t = [] ∧ out = .error code
  | .call c k, t, out => ∃ r rest, t = ⟨c, r⟩ :: rest ∧ (k r).Runs rest out

@[simp] theorem runs_ret {a : α} {t : Trace C R} {out : Except E α} :
    (Program.ret a : Program C R E α).Runs t out ↔ t = [] ∧ out = .ok a := Iff.rfl

@[simp] theorem runs_exit {code : E} {t : Trace C R} {out : Except E α} :
    (Program.exit code : Program C R E α).Runs t out ↔ t = [] ∧ out = .error code := Iff.rfl

/-- A run that calls goes on with some reply. -/
@[simp] theorem runs_call {c : C} {k : R c → Program C R E α} {t : Trace C R} {out : Except E α} :
    (Program.call c k).Runs t out ↔ ∃ r rest, t = ⟨c, r⟩ :: rest ∧ (k r).Runs rest out := Iff.rfl

/-- Every program runs to its end with some replies. -/
theorem exists_runs [∀ c, Nonempty (R c)] (p : Program C R E α) : ∃ t out, p.Runs t out := by
  induction p with
  | ret a => exact ⟨[], .ok a, rfl, rfl⟩
  | exit code => exact ⟨[], .error code, rfl, rfl⟩
  | call c k ih =>
      obtain ⟨r⟩ := (inferInstance : Nonempty (R c))
      obtain ⟨t, out, h⟩ := ih r
      exact ⟨⟨c, r⟩ :: t, out, r, t, rfl, h⟩

/-! ## Over a model of the library -/

/-- A model of a library: how it answers a call in a state, given its free choices.  A
call that must not be made is a fault. -/
structure Service (C : Type*) (R : C → Type*) (σ ε φ : Type*) where
  answer : (c : C) → ε → σ → Except φ (σ × R c)

/-- Why a program does not return. -/
inductive Stop (E φ : Type*)
  | exited (code : E)
  | fault (f : φ)
  deriving DecidableEq, Repr

variable (S : Service C R σ ε φ)

/-- Run a program over a model of the library; the `n`-th call takes its choices from
`o n`. -/
def exec : Program C R E α → (ℕ → ε) → σ → Except (Stop E φ) (σ × α × Trace C R)
  | .ret a, _, s => .ok (s, a, [])
  | .exit code, _, _ => .error (.exited code)
  | .call c k, o, s =>
      match S.answer c (o 0) s with
      | .error f => .error (.fault f)
      | .ok (s', r) =>
          (exec (k r) (fun n => o (n + 1)) s').map fun (t, a, rest) => (t, a, ⟨c, r⟩ :: rest)

variable {S}

/-- A call that is answered goes on with the answer. -/
theorem exec_call_ok {c : C} (k : R c → Program C R E α) {o : ℕ → ε} {s s' : σ} {r : R c}
    (h : S.answer c (o 0) s = .ok (s', r)) :
    exec S (.call c k) o s = (exec S (k r) (fun n => o (n + 1)) s').map
      fun (t, a, rest) => (t, a, ⟨c, r⟩ :: rest) := by
  simp only [exec, h]

/-- A call that faults ends the program. -/
theorem exec_call_error {c : C} (k : R c → Program C R E α) {o : ℕ → ε} {s : σ} {f : φ}
    (h : S.answer c (o 0) s = .error f) : exec S (.call c k) o s = .error (.fault f) := by
  simp only [exec, h]

variable (S) in
/-- Over the model, the program returns `a` and leaves the library in the state `s'`. -/
def Returns (p : Program C R E α) (o : ℕ → ε) (s s' : σ) (a : α) : Prop :=
  ∃ t, exec S p o s = .ok (s', a, t)

variable (S) in
/-- Over the model, the program does not return. -/
def Stops (p : Program C R E α) (o : ℕ → ε) (s : σ) (stop : Stop E φ) : Prop :=
  exec S p o s = .error stop

/-- A program that is done returns. -/
theorem returns_ret (a : α) (o : ℕ → ε) (s : σ) :
    Returns S (.ret a : Program C R E α) o s s a :=
  ⟨[], rfl⟩

/-- After an answered call, the program does what its rest does. -/
theorem returns_call {c : C} {k : R c → Program C R E α} {o : ℕ → ε} {s s' s'' : σ} {r : R c}
    {a : α}
    (h : S.answer c (o 0) s = .ok (s', r)) (hk : Returns S (k r) (fun n => o (n + 1)) s' s'' a) :
    Returns S (.call c k) o s s'' a := by
  obtain ⟨t, ht⟩ := hk
  refine ⟨⟨c, r⟩ :: t, ?_⟩
  rw [exec_call_ok k h, ht]
  rfl

/-- A program that exits stops. -/
theorem stops_exit (code : E) (o : ℕ → ε) (s : σ) :
    Stops S (.exit code : Program C R E α) o s (.exited code) := rfl

/-- What stops after a call that is answered stops. -/
theorem stops_call {c : C} {k : R c → Program C R E α} {o : ℕ → ε} {s s' : σ} {r : R c}
    {stop : Stop E φ} (h : S.answer c (o 0) s = .ok (s', r))
    (hk : Stops S (k r) (fun n => o (n + 1)) s' stop) : Stops S (.call c k) o s stop := by
  unfold Stops at hk ⊢
  rw [exec_call_ok k h, hk]
  rfl

/-- A program stops at a call that faults. -/
theorem stops_fault {c : C} {k : R c → Program C R E α} {o : ℕ → ε} {s : σ} {f : φ}
    (h : S.answer c (o 0) s = .error f) : Stops S (.call c k) o s (.fault f) :=
  exec_call_error k h

/-- A call that ends well was answered, and the rest of the program ended well on the reply. -/
theorem exists_of_exec_call {c : C} {k : R c → Program C R E α} {o : ℕ → ε} {s s' : σ} {a : α}
    {t : Trace C R} (h : exec S (.call c k) o s = .ok (s', a, t)) :
    ∃ u r rest, S.answer c (o 0) s = .ok (u, r) ∧
      exec S (k r) (fun n => o (n + 1)) u = .ok (s', a, rest) ∧ t = ⟨c, r⟩ :: rest := by
  rcases hans : S.answer c (o 0) s with f | ⟨u, r⟩
  · rw [exec_call_error k hans] at h
    cases h
  · rw [exec_call_ok k hans] at h
    obtain ⟨⟨v, b, rest⟩, hrest, heq⟩ := Except.exists_of_map h
    cases heq
    exact ⟨u, r, rest, rfl, hrest, rfl⟩

/-- What a program does over a model is one of the things it does with any replies. -/
theorem runs_of_exec {p : Program C R E α} {o : ℕ → ε} {s s' : σ} {a : α} {t : Trace C R}
    (h : exec S p o s = .ok (s', a, t)) : p.Runs t (.ok a) := by
  induction p generalizing o s s' a t with
  | ret b =>
      cases h
      exact ⟨rfl, rfl⟩
  | exit code => cases h
  | call c k ih =>
      obtain ⟨u, r, rest, -, hrest, rfl⟩ := exists_of_exec_call h
      exact ⟨r, rest, rfl, ih r hrest⟩

/-- A program that ends the process over a model does so with some replies. -/
theorem runs_of_exec_exited {p : Program C R E α} {o : ℕ → ε} {s : σ} {code : E}
    (h : exec S p o s = .error (.exited code)) : ∃ t, p.Runs t (.error code) := by
  induction p generalizing o s with
  | ret b => cases h
  | exit code' =>
      cases h
      exact ⟨[], rfl, rfl⟩
  | call c k ih =>
      rcases hans : S.answer c (o 0) s with f | ⟨u, r⟩
      · rw [exec_call_error k hans] at h
        cases h
      · rw [exec_call_ok k hans] at h
        rcases hrest : exec S (k r) (fun n => o (n + 1)) u with stop | result
        · rw [hrest] at h
          cases h
          obtain ⟨t, ht⟩ := ih r hrest
          exact ⟨⟨c, r⟩ :: t, r, t, rfl, ht⟩
        · rw [hrest] at h
          cases h

/-! ## Refinement of models -/

/-- Every answer of the model `T` is one that `S` can give, where `f` forgets what `S` does
not know of a state of `T`. -/
def Service.Refines {τ δ ψ : Type*} (T : Service C R τ δ ψ) (S : Service C R σ ε φ) (f : τ → σ) :
    Prop :=
  ∀ c d t t' r, T.answer c d t = .ok (t', r) → ∃ o, S.answer c o (f t) = .ok (f t', r)

/-- **Refinement of models carries over to programs.** -/
theorem exec_of_refines [Nonempty ε] {τ δ ψ : Type*} {T : Service C R τ δ ψ} {f : τ → σ}
    (href : T.Refines S f) {p : Program C R E α} {d : ℕ → δ} {t t' : τ} {a : α} {calls : Trace C R}
    (h : exec T p d t = .ok (t', a, calls)) : ∃ o, exec S p o (f t) = .ok (f t', a, calls) := by
  induction p generalizing d t t' a calls with
  | ret b =>
      cases h
      obtain ⟨o⟩ := (inferInstance : Nonempty ε)
      exact ⟨fun _ => o, rfl⟩
  | exit code => cases h
  | call c k ih =>
      obtain ⟨u, r, rest, hans, hrest, rfl⟩ := exists_of_exec_call h
      obtain ⟨o, ho⟩ := href c (d 0) t u r hans
      obtain ⟨os, hos⟩ := ih r hrest
      -- the choice for this call, and then those for the rest
      refine ⟨fun n => Nat.casesOn n o os, ?_⟩
      rw [exec_call_ok k ho]
      exact congrArg (Except.map _) hos

end Program
