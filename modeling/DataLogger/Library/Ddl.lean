/-
# Scripts of data definitions

A database script creates tables and indexes one statement after the other, on a catalog
of those that exist, and stops at the first error.  Tables are created `IF NOT EXISTS`
and may reference other tables; indexes are created without a guard.

The rule about scripts is `blocked` : if a statement creates a table that references one
which no statement before it creates, the script cannot get past it from a catalog that
lacks both tables, and neither can any later run on what the earlier runs left.
-/
import DataLogger.Library.Machine
import Mathlib.Logic.Function.Basic

namespace Ddl

variable {N : Type*}

/-- A foreign key: its name, its column, and the table and column that it references. -/
structure ForeignKey (N : Type*) where
  name : N
  column : N
  target : N
  targetColumn : N
  deriving DecidableEq, Repr

/-- A table: the foreign keys, on which its creation depends. -/
structure Table (N : Type*) where
  foreignKeys : List (ForeignKey N)
  deriving DecidableEq, Repr

/-- An index on some columns of a table. -/
structure Index (N : Type*) where
  table : N
  columns : List N
  deriving DecidableEq, Repr

/-- A statement of a script. -/
inductive Statement (N : Type*)
  /-- `CREATE TABLE IF NOT EXISTS name (...)`. -/
  | createTable (name : N) (table : Table N)
  /-- `CREATE INDEX name ON table (...)`. -/
  | createIndex (name : N) (index : Index N)
  deriving DecidableEq, Repr

/-- The name that a statement creates. -/
def Statement.name : Statement N → N
  | .createTable name _ => name
  | .createIndex name _ => name

/-- The tables and indexes that exist, by their names. -/
@[ext]
structure Catalog (N : Type*) where
  tables : N → Option (Table N)
  indexes : N → Option (Index N)

/-- Why a statement fails. -/
inductive SqlError (N : Type*)
  | undefinedTable (name : N)
  | duplicateName (name : N)
  deriving DecidableEq, Repr

namespace Catalog

/-- The catalog in which nothing exists. -/
def empty : Catalog N := ⟨fun _ => none, fun _ => none⟩

/-- Nothing of this name exists. -/
def Lacks (c : Catalog N) (n : N) : Prop := c.tables n = none ∧ c.indexes n = none

instance (c : Catalog N) (n : N) : Decidable (c.Lacks n) :=
  match h : c.tables n, h' : c.indexes n with
  | none, none => isTrue ⟨h, h'⟩
  | some _, _ => isFalse fun hl => by
      rw [hl.1] at h
      cases h
  | none, some _ => isFalse fun hl => by
      rw [hl.2] at h'
      cases h'

variable [DecidableEq N]

/-- Execute one statement. -/
def exec (c : Catalog N) : Statement N → Except (SqlError N) (Catalog N)
  | .createTable name table =>
      if c.Lacks name then
        match table.foreignKeys.find? fun fk => (c.tables fk.target).isNone with
        | some fk => .error (.undefinedTable fk.target)
        | none => .ok { c with tables := Function.update c.tables name (some table) }
      else
        .ok c
  | .createIndex name index =>
      if (c.tables index.table).isNone then
        .error (.undefinedTable index.table)
      else if c.Lacks name then
        .ok { c with indexes := Function.update c.indexes name (some index) }
      else
        .error (.duplicateName name)

end Catalog

variable [DecidableEq N]

/-- The execution of scripts, which stops at the first error. -/
def machine : Machine (Catalog N) (Statement N) Unit (SqlError N) where
  step c stmt := (c.exec stmt).map fun c => (c, ())

/-- The catalog that runs of a script leave, each cut off after a number of statements. -/
def afterRuns (script : List (Statement N)) (c : Catalog N) (cuts : List ℕ) : Catalog N :=
  cuts.foldl (fun c k => (machine.run c (script.take k)).state) c

/-- The catalog has nothing of its own under the names that the script creates. -/
def Unrelated (script : List (Statement N)) (c : Catalog N) : Prop :=
  ∀ stmt ∈ script, c.Lacks stmt.name

/-- What a statement declares is there. -/
def Catalog.Has (c : Catalog N) : Statement N → Prop
  | .createTable name table => c.tables name = some table
  | .createIndex name index => c.indexes name = some index

/-- From the catalog `c` the script runs to its end and does what it declares, leaving
everything else as it was, and a further run changes nothing. -/
structure Runnable (script : List (Statement N)) (c : Catalog N) : Prop where
  completes : (machine.run c script).stop = none
  declared : ∀ stmt ∈ script, (machine.run c script).state.Has stmt
  others : ∀ n, (∀ stmt ∈ script, stmt.name ≠ n) →
    (machine.run c script).state.tables n = c.tables n ∧
      (machine.run c script).state.indexes n = c.indexes n
  again : (machine.run (machine.run c script).state script).state = (machine.run c script).state

variable {c c' : Catalog N} {stmt : Statement N} {n m : N}

theorem step_eq_ok {u : Unit} (h : machine.step c stmt = .ok (c', u)) : c.exec stmt = .ok c' := by
  change (c.exec stmt).map _ = _ at h
  rcases hexec : c.exec stmt with err | c''
  · rw [hexec] at h
    cases h
  · rw [hexec] at h
    cases h
    rfl

/-- **Frame rule.**  A statement changes nothing but what it creates. -/
theorem exec_of_ne (h : c.exec stmt = .ok c') (hn : stmt.name ≠ n) :
    c'.tables n = c.tables n ∧ c'.indexes n = c.indexes n := by
  cases stmt with
  | createTable name table =>
      dsimp only [Catalog.exec] at h
      split_ifs at h
      · split at h
        · cases h
        · cases h
          exact ⟨Function.update_of_ne (Ne.symm hn) _ _, rfl⟩
      · cases h
        exact ⟨rfl, rfl⟩
  | createIndex name index =>
      dsimp only [Catalog.exec] at h
      split_ifs at h
      cases h
      exact ⟨rfl, Function.update_of_ne (Ne.symm hn) _ _⟩

/-- A run over statements that create other names leaves a name alone. -/
theorem lacks_run {script : List (Statement N)} (hscript : ∀ stmt ∈ script, stmt.name ≠ n)
    (hn : c.Lacks n) : (machine.run c script).state.Lacks n := by
  have hothers : machine.Along (fun _ stmt => stmt.name ≠ n) c script :=
    Machine.along_of_forall_mem hscript
  apply Machine.invariant_run (I := fun c : Catalog N => c.Lacks n) hothers hn
  intro c stmt c' u hn hne hstep
  obtain ⟨htable, hindex⟩ := exec_of_ne (step_eq_ok hstep) hne
  exact ⟨htable.trans hn.1, hindex.trans hn.2⟩

/-- A table that references a missing one is not created. -/
theorem exec_missing {table : Table N} (hn : c.Lacks n) (hm : c.Lacks m)
    (href : ∃ fk ∈ table.foreignKeys, fk.target = m) :
    ∃ err, c.exec (.createTable n table) = .error err := by
  obtain ⟨fk, hfk, rfl⟩ := href
  dsimp only [Catalog.exec]
  rw [if_pos hn]
  rcases hfind : table.foreignKeys.find? fun fk => (c.tables fk.target).isNone with _ | fk'
  · have hall := List.find?_eq_none.mp hfind fk hfk
    rw [hm.1] at hall
    exact absurd rfl hall
  · exact ⟨.undefinedTable fk'.target, by rw [hfind]⟩

/-! ## Forward references -/

section Blocked

variable {pre post : List (Statement N)} {table : Table N}

/-- **A forward reference blocks a script.**  From a catalog that lacks the table `n` and
the table `m` that it references, a run that creates neither of them before it comes to
`n` stops with an error. -/
theorem blocked (href : ∃ fk ∈ table.foreignKeys, fk.target = m)
    (hpre : ∀ stmt ∈ pre, stmt.name ≠ n ∧ stmt.name ≠ m) (hn : c.Lacks n) (hm : c.Lacks m) :
    (machine.run c (pre ++ .createTable n table :: post)).stop ≠ none ∧
      (machine.run c (pre ++ .createTable n table :: post)).state = (machine.run c pre).state := by
  rcases hstop : (machine.run c pre).stop with _ | err
  · have hn' := lacks_run (fun stmt h => (hpre stmt h).1) hn
    have hm' := lacks_run (fun stmt h => (hpre stmt h).2) hm
    obtain ⟨err, hexec⟩ := exec_missing hn' hm' href
    have hstep : machine.step (machine.run c pre).state (.createTable n table) = .error err := by
      show (Catalog.exec _ _).map _ = _
      rw [hexec]
      rfl
    rw [machine.run_append _ hstop, machine.run_cons_error post hstep]
    exact ⟨Option.some_ne_none err, rfl⟩
  · rw [machine.run_append_of_stop _ hstop]
    exact ⟨by rw [hstop]; exact Option.some_ne_none err, rfl⟩

/-- A cut of a list falls into its first part or behind it. -/
theorem take_append_cons {β : Type*} (pre post : List β) (x : β) (k : ℕ) :
    (pre ++ x :: post).take k = pre.take k ∨
      ∃ post', (pre ++ x :: post).take k = pre ++ x :: post' := by
  rcases Nat.lt_or_ge pre.length k with hk | hk
  · right
    obtain ⟨j, rfl⟩ : ∃ j, k = pre.length + (j + 1) := ⟨k - pre.length - 1, by omega⟩
    refine ⟨post.take j, ?_⟩
    rw [List.take_length_add_append, List.take_succ_cons]
  · left
    exact List.take_append_of_le_length hk

/-- Runs that are blocked never create what blocks them, wherever they are cut off. -/
theorem lacks_afterRuns (href : ∃ fk ∈ table.foreignKeys, fk.target = m)
    (hpre : ∀ stmt ∈ pre, stmt.name ≠ n ∧ stmt.name ≠ m) (hn : c.Lacks n) (hm : c.Lacks m)
    (cuts : List ℕ) :
    (afterRuns (pre ++ .createTable n table :: post) c cuts).Lacks n ∧
      (afterRuns (pre ++ .createTable n table :: post) c cuts).Lacks m := by
  induction cuts generalizing c with
  | nil => exact ⟨hn, hm⟩
  | cons k cuts ih =>
      -- a run leaves what its statements before the blocked one leave
      have hstate : ∃ j, (machine.run c ((pre ++ .createTable n table :: post).take k)).state =
          (machine.run c (pre.take j)).state := by
        rcases take_append_cons pre post (.createTable n table) k with htake | ⟨post', htake⟩
        · exact ⟨k, by rw [htake]⟩
        · exact ⟨pre.length, by rw [htake, List.take_length, (blocked href hpre hn hm).2]⟩
      obtain ⟨j, hj⟩ := hstate
      have hn' : (machine.run c (pre.take j)).state.Lacks n :=
        lacks_run (fun stmt h => (hpre stmt (List.mem_of_mem_take h)).1) hn
      have hm' : (machine.run c (pre.take j)).state.Lacks m :=
        lacks_run (fun stmt h => (hpre stmt (List.mem_of_mem_take h)).2) hm
      rw [← hj] at hn' hm'
      exact ih hn' hm'

end Blocked

end Ddl
