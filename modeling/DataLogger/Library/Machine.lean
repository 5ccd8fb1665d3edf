/-
# Runs of machines that can stop

A *machine* is a deterministic step function: an event either takes a state to a
next state with an observation, or stops the machine with a reason.  The run over
a list of events collects the observations and ends at the first stop.

Two notions carry every argument about whole runs:

* `Along P s es` : `P` holds of each (state, event) pair that the run visits.  It
  serves both as the assumption on an environment and as a property of a run;
* `forward_simulation` : a machine that matches an abstract machine step by step
  has the abstract machine's observations over whole runs, and does not stop.
-/
import Mathlib.Data.List.Basic
import Mathlib.Tactic.Common

/-- A deterministic machine whose step may stop it. -/
structure Machine (σ ε ρ φ : Type*) where
  step : σ → ε → Except φ (σ × ρ)

namespace Machine

variable {σ ε ρ φ : Type*}

/-- What a run leaves: the last state, the observations made on the way, and the
reason for the stop if there was one. -/
@[ext]
structure Outcome (σ ρ φ : Type*) where
  state : σ
  out : List ρ
  stop : Option φ
  deriving DecidableEq, Repr

/-- The outcome of a run that made the observation `r` first. -/
def Outcome.cons (r : ρ) (o : Outcome σ ρ φ) : Outcome σ ρ φ := { o with out := r :: o.out }

@[simp] theorem Outcome.cons_state (r : ρ) (o : Outcome σ ρ φ) : (o.cons r).state = o.state := rfl
@[simp] theorem Outcome.cons_stop (r : ρ) (o : Outcome σ ρ φ) : (o.cons r).stop = o.stop := rfl

variable (M : Machine σ ε ρ φ)

/-- The run over a list of events, up to the first stop. -/
def run : σ → List ε → Outcome σ ρ φ
  | s, [] => ⟨s, [], none⟩
  | s, e :: es =>
      match M.step s e with
      | .error f => ⟨s, [], some f⟩
      | .ok (s', r) => (run s' es).cons r

@[simp] theorem run_nil (s : σ) : M.run s [] = ⟨s, [], none⟩ := rfl

/-- A run takes its first step and goes on from there. -/
theorem run_cons_ok {s s' : σ} {e : ε} {r : ρ} (es : List ε) (h : M.step s e = .ok (s', r)) :
    M.run s (e :: es) = (M.run s' es).cons r := by
  simp only [run, h]

/-- A run ends at the first step that fails. -/
theorem run_cons_error {s : σ} {e : ε} {f : φ} (es : List ε) (h : M.step s e = .error f) :
    M.run s (e :: es) = ⟨s, [], some f⟩ := by
  simp only [run, h]

/-- A run that does not stop took its first step. -/
theorem step_of_run_cons {s : σ} {e : ε} {es : List ε} (h : (M.run s (e :: es)).stop = none) :
    ∃ s' r, M.step s e = .ok (s', r) ∧ (M.run s' es).stop = none := by
  cases hstep : M.step s e with
  | error f => simp [M.run_cons_error es hstep] at h
  | ok sr =>
      obtain ⟨s', r⟩ := sr
      rw [M.run_cons_ok es hstep, Outcome.cons_stop] at h
      exact ⟨s', r, rfl, h⟩

/-- A run over an appended list continues from where the first part ended. -/
theorem run_append {s : σ} {es : List ε} (fs : List ε) (h : (M.run s es).stop = none) :
    M.run s (es ++ fs) =
      { M.run (M.run s es).state fs with
        out := (M.run s es).out ++ (M.run (M.run s es).state fs).out } := by
  induction es generalizing s with
  | nil => simp
  | cons e es ih =>
      obtain ⟨s', r, hstep, hrest⟩ := M.step_of_run_cons h
      rw [List.cons_append, M.run_cons_ok _ hstep, M.run_cons_ok _ hstep, ih hrest]
      rfl

/-- A run that does not stop makes one observation for each event. -/
theorem length_out {s : σ} {es : List ε} (h : (M.run s es).stop = none) :
    (M.run s es).out.length = es.length := by
  induction es generalizing s with
  | nil => rfl
  | cons e es ih =>
      obtain ⟨s', r, hstep, hrest⟩ := M.step_of_run_cons h
      rw [M.run_cons_ok _ hstep, Outcome.cons, List.length_cons, List.length_cons, ih hrest]

/-- The part of a run after one of its events. -/
theorem run_after {s s' : σ} {es : List ε} {e : ε} {r : ρ} (fs : List ε)
    (h : (M.run s es).stop = none)
    (hstep : M.step (M.run s es).state e = .ok (s', r)) :
    (M.run s (es ++ e :: fs)).state = (M.run s' fs).state ∧
      (M.run s (es ++ e :: fs)).out.drop (es.length + 1) = (M.run s' fs).out := by
  rw [M.run_append _ h, M.run_cons_ok _ hstep]
  refine ⟨rfl, ?_⟩
  change ((M.run s es).out ++ r :: (M.run s' fs).out).drop (es.length + 1) = _
  rw [← M.length_out h, List.drop_append]
  simp

/-- A run that stopped is not continued. -/
theorem run_append_of_stop {s : σ} {es : List ε} (fs : List ε) {f : φ}
    (h : (M.run s es).stop = some f) : M.run s (es ++ fs) = M.run s es := by
  induction es generalizing s with
  | nil => cases h
  | cons e es ih =>
      rcases hstep : M.step s e with f' | ⟨s', r⟩
      · rw [List.cons_append, M.run_cons_error _ hstep, M.run_cons_error _ hstep]
      · rw [M.run_cons_ok _ hstep] at h
        rw [List.cons_append, M.run_cons_ok _ hstep, M.run_cons_ok _ hstep, ih h]

/-! ## Properties along a run -/

/-- `P` holds of every (state, event) pair that the run from `s` visits. -/
def Along (P : σ → ε → Prop) : σ → List ε → Prop
  | _, [] => True
  | s, e :: es => P s e ∧ ∀ s' r, M.step s e = .ok (s', r) → Along P s' es

variable {M} {P Q G : σ → ε → Prop} {s : σ} {es : List ε}

@[simp] theorem along_nil : M.Along P s [] := trivial

/-- A condition along a run holds at its first step and along the rest. -/
theorem along_cons {e : ε} : M.Along P s (e :: es) ↔
    P s e ∧ ∀ s' r, M.step s e = .ok (s', r) → M.Along P s' es := Iff.rfl

/-- Where the first step is known, the rest starts behind it. -/
theorem along_cons_ok {e : ε} {s' : σ} {r : ρ} (h : M.step s e = .ok (s', r)) :
    M.Along P s (e :: es) ↔ P s e ∧ M.Along P s' es := by
  rw [along_cons]
  refine and_congr_right fun _ => ⟨fun hall => hall s' r h, fun hrest s'' r' h' => ?_⟩
  rw [h] at h'
  cases h'
  exact hrest

/-- A property along a run can be checked by running it. -/
instance decidableAlong [∀ s e, Decidable (P s e)] : ∀ s es, Decidable (M.Along P s es)
  | _, [] => isTrue trivial
  | s, e :: es =>
      match h : M.step s e with
      | .error _ => decidable_of_iff (P s e)
          ⟨fun hP => ⟨hP, fun _ _ hok => by rw [h] at hok; cases hok⟩, fun hall => hall.1⟩
      | .ok (s', _) =>
          have := decidableAlong s' es
          decidable_of_iff (P s e ∧ M.Along P s' es) (along_cons_ok h).symm

/-- A property of every pair holds along every run. -/
theorem along_of_forall (h : ∀ s e, P s e) : M.Along P s es := by
  induction es generalizing s with
  | nil => exact along_nil
  | cons e es ih => exact ⟨h s e, fun _ _ _ => ih⟩

/-- A weaker condition holds along the run too. -/
theorem Along.mono (himp : ∀ s e, P s e → Q s e) (h : M.Along P s es) : M.Along Q s es := by
  induction es generalizing s with
  | nil => exact along_nil
  | cons e es ih => exact ⟨himp _ _ h.1, fun s' r hstep => ih (h.2 s' r hstep)⟩

/-- Properties that agree on every pair agree along runs. -/
theorem along_congr (hiff : ∀ s e, P s e ↔ Q s e) : M.Along P s es ↔ M.Along Q s es := by
  constructor
  · exact Along.mono fun s e => (hiff s e).mp
  · exact Along.mono fun s e => (hiff s e).mpr

/-- Two conditions along a run are one. -/
theorem Along.and (hP : M.Along P s es) (hQ : M.Along Q s es) :
    M.Along (fun s e => P s e ∧ Q s e) s es := by
  induction es generalizing s with
  | nil => exact along_nil
  | cons e es ih =>
      exact ⟨⟨hP.1, hQ.1⟩, fun s' r hstep => ih (hP.2 s' r hstep) (hQ.2 s' r hstep)⟩

/-- A property of the events alone holds along every run over such events. -/
theorem along_of_forall_mem {p : ε → Prop} (h : ∀ e ∈ es, p e) : M.Along (fun _ e => p e) s es := by
  induction es generalizing s with
  | nil => exact along_nil
  | cons e es ih =>
      refine ⟨h e List.mem_cons_self, fun _ _ _ => ih fun e' he' => h e' ?_⟩
      exact List.mem_cons_of_mem _ he'

/-- What holds along a run holds along its first part. -/
theorem Along.of_append {fs : List ε} (h : M.Along P s (es ++ fs)) : M.Along P s es := by
  induction es generalizing s with
  | nil => exact along_nil
  | cons e es ih => exact ⟨h.1, fun s' r hstep => ih (h.2 s' r hstep)⟩

/-- What holds along a run holds along its second part, from where the first part ends. -/
theorem Along.append_right {fs : List ε} (h : M.Along P s (es ++ fs))
    (hrun : (M.run s es).stop = none) :
    M.Along P (M.run s es).state fs := by
  induction es generalizing s with
  | nil => exact h
  | cons e es ih =>
      obtain ⟨s', r, hstep, hrest⟩ := M.step_of_run_cons hrun
      rw [M.run_cons_ok es hstep]
      exact ih (h.2 s' r hstep) hrest

/-- In a run that does not stop, every event made its step. -/
theorem exists_step_of_mem (hrun : (M.run s es).stop = none) {e : ε} (he : e ∈ es) :
    ∃ s' t, M.step s' e = .ok t := by
  induction es generalizing s with
  | nil => cases he
  | cons e' es ih =>
      obtain ⟨s', r, hstep, hrest⟩ := M.step_of_run_cons hrun
      rcases List.mem_cons.mp he with rfl | he
      · exact ⟨s, _, hstep⟩
      · exact ih hrest he

/-- What a property along a run says about every stop, it says about the stop of the run. -/
theorem stop_of_along {A : φ → Prop} (h : M.Along P s es)
    (hP : ∀ s e f, P s e → M.step s e = .error f → A f) {f : φ}
    (hstop : (M.run s es).stop = some f) : A f := by
  induction es generalizing s with
  | nil => cases hstop
  | cons e es ih =>
      rcases hstep : M.step s e with f' | ⟨s', r⟩
      · rw [M.run_cons_error es hstep] at hstop
        cases hstop
        exact hP s e f h.1 hstep
      · rw [M.run_cons_ok es hstep] at hstop
        exact ih (h.2 s' r hstep) hstop

/-- **Invariants over runs.**  An invariant that every step keeps, under the
assumption `G` on the environment, holds where the run ends. -/
theorem invariant_run {I : σ → Prop} (hG : M.Along G s es) (hs : I s)
    (hstep : ∀ s e s' r, I s → G s e → M.step s e = .ok (s', r) → I s') :
    I (M.run s es).state := by
  induction es generalizing s with
  | nil => exact hs
  | cons e es ih =>
      cases hok : M.step s e with
      | error f => rw [M.run_cons_error es hok]; exact hs
      | ok sr =>
          obtain ⟨s', r⟩ := sr
          rw [M.run_cons_ok es hok]
          exact ih (hG.2 s' r hok) (hstep s e s' r hs hG.1 hok)

/-- **Exact conditions over runs.**  If `P` and `Q` agree on every pair that
satisfies the invariant, and `Q` keeps the invariant, then `P` holds along a run
exactly when `Q` does. -/
theorem along_iff_along {I : σ → Prop} (hG : M.Along G s es) (hs : I s)
    (hiff : ∀ s e, I s → G s e → (P s e ↔ Q s e))
    (hstep : ∀ s e s' r, I s → G s e → Q s e → M.step s e = .ok (s', r) → I s') :
    M.Along P s es ↔ M.Along Q s es := by
  induction es generalizing s with
  | nil => exact ⟨fun _ => along_nil, fun _ => along_nil⟩
  | cons e es ih =>
      rw [along_cons, along_cons, hiff s e hs hG.1]
      refine and_congr_right fun hQ => ?_
      refine forall_congr' fun s' => forall_congr' fun r => ?_
      refine forall_congr' fun hok => ih (hG.2 s' r hok) (hstep s e s' r hs hG.1 hQ hok)

/-- **Safe runs.**  If every step under the invariant and the condition `Q` goes through
and keeps the invariant, then so does a run along which `Q` holds. -/
theorem run_ok {I : σ → Prop} (hG : M.Along G s es) (hQ : M.Along Q s es) (hs : I s)
    (hstep : ∀ s e, I s → G s e → Q s e → ∃ s' r, M.step s e = .ok (s', r) ∧ I s') :
    (M.run s es).stop = none ∧ I (M.run s es).state := by
  induction es generalizing s with
  | nil => exact ⟨rfl, hs⟩
  | cons e es ih =>
      obtain ⟨s', r, hok, hs'⟩ := hstep s e hs hG.1 hQ.1
      rw [M.run_cons_ok es hok]
      exact ih (hG.2 s' r hok) (hQ.2 s' r hok) hs'

/-- **Traps.**  If a step against the condition `Q` leads into a trap, when it goes through
at all, then a run that does not stop and does not end in the trap kept to `Q`. -/
theorem along_of_not_trapped {I T : σ → Prop} (hG : M.Along G s es) (hs : I s)
    (hstep : ∀ s e s' r, I s → G s e → Q s e → M.step s e = .ok (s', r) → I s')
    (hviolate : ∀ s e s' r, I s → G s e → ¬ Q s e → M.step s e = .ok (s', r) → T s')
    (htrap : ∀ s e s' r, T s → M.step s e = .ok (s', r) → T s')
    (hrun : (M.run s es).stop = none) (hend : ¬ T (M.run s es).state) : M.Along Q s es := by
  induction es generalizing s with
  | nil => exact along_nil
  | cons e es ih =>
      obtain ⟨s', r, hok, hrest⟩ := M.step_of_run_cons hrun
      rw [M.run_cons_ok es hok] at hend
      by_cases hQ : Q s e
      · exact (along_cons_ok hok).mpr
          ⟨hQ, ih (hG.2 s' r hok) (hstep s e s' r hs hG.1 hQ hok) hrest hend⟩
      · have hT : T s' := hviolate s e s' r hs hG.1 hQ hok
        have hany : M.Along (fun _ _ => True) s' es := along_of_forall fun _ _ => trivial
        exact absurd (invariant_run hany hT fun s e s' r hs _ => htrap s e s' r hs) hend

/-! ## Forward simulation -/

section Simulation

variable {τ ψ : Type*} {N : Machine τ ε ρ ψ} {R : σ → τ → Prop} {B : τ → ε → Prop} {t : τ}

/-- **Forward simulation over whole runs.**  If, in related states and under the
assumptions `G` on the concrete and `B` on the abstract side, every abstract step is
matched by a concrete step with the same observation into related states, then the
concrete run does not stop, makes the abstract run's observations and ends in a
related state. -/
theorem forward_simulation
    (hsim : ∀ s t e t' r, R s t → G s e → B t e → N.step t e = .ok (t', r) →
      ∃ s', M.step s e = .ok (s', r) ∧ R s' t')
    (hR : R s t) (hG : M.Along G s es) (hB : N.Along B t es)
    (hrun : (N.run t es).stop = none) :
    ∃ s', M.run s es = ⟨s', (N.run t es).out, none⟩ ∧ R s' (N.run t es).state := by
  induction es generalizing s t with
  | nil => exact ⟨s, rfl, hR⟩
  | cons e es ih =>
      obtain ⟨t', r, hN, hrest⟩ := N.step_of_run_cons hrun
      obtain ⟨s', hM, hR'⟩ := hsim s t e t' r hR hG.1 hB.1 hN
      obtain ⟨s'', hrun', hR''⟩ := ih hR' (hG.2 s' r hM) (hB.2 t' r hN) hrest
      refine ⟨s'', ?_, ?_⟩
      · rw [M.run_cons_ok es hM, N.run_cons_ok es hN, hrun']
        rfl
      · rw [N.run_cons_ok es hN]
        exact hR''

/-- **Exact conditions, by simulation.**  Let every step under `Q` lead from related
states to related states.  If in related states `P` of the concrete machine and `Q` of
the abstract one agree, they agree along whole runs. -/
theorem along_iff_along_of_simulation {P : σ → ε → Prop} {Q : τ → ε → Prop}
    (hG : M.Along G s es) (hR : R s t)
    (hiff : ∀ s t e, R s t → G s e → (P s e ↔ Q t e))
    (hsim : ∀ s t e, R s t → G s e → Q t e →
      ∃ s' t' r, M.step s e = .ok (s', r) ∧ N.step t e = .ok (t', r) ∧ R s' t') :
    M.Along P s es ↔ N.Along Q t es := by
  induction es generalizing s t with
  | nil => exact ⟨fun _ => along_nil, fun _ => along_nil⟩
  | cons e es ih =>
      rw [along_cons, along_cons, hiff s t e hR hG.1]
      refine and_congr_right fun hQ => ?_
      obtain ⟨s', t', r, hM, hN, hR'⟩ := hsim s t e hR hG.1 hQ
      have hrest := ih (hG.2 s' r hM) hR'
      constructor
      · intro hall t'' r' hN'
        rw [hN] at hN'
        cases hN'
        exact hrest.mp (hall s' r hM)
      · intro hall s'' r' hM'
        rw [hM] at hM'
        cases hM'
        exact hrest.mpr (hall t' r hN)

end Simulation

end Machine
