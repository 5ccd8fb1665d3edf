/-
# The database schema

The `CREATE TABLE` and `CREATE INDEX` statements of `db.sql`, in the order of the script.
`Permissions` references `Stations`, which is created after it, so the script stops at
`Permissions`; and an index without `IF NOT EXISTS` stops it even before that, once an
earlier run has come past it.  So no run of the script gets to its end.
-/
import DataLogger.Library.Ddl
import Mathlib.Data.String.Basic

open Ddl

/-! ## The script -/

/-- A column that references the column of the same name in another table. -/
def references (name column target : String) : ForeignKey String := ⟨name, column, target, column⟩

def users : Table String := ⟨[references "FK_55" "group_id" "Groups"]⟩

def permissions : Table String :=
  ⟨[references "FK_60" "group_id" "Groups", references "FK_67" "station_id" "Stations"]⟩

def stations : Table String :=
  ⟨[references "FK_16" "zone_id" "Zones", references "FK_92" "power_id" "Power Types"]⟩

def data : Table String := ⟨[references "FK_24" "station_id" "Stations"]⟩

/-- The statements of `db.sql` that create tables and indexes. -/
def dbScript : List (Statement String) :=
  [.createTable "Zones" ⟨[]⟩,
    .createTable "Power Types" ⟨[]⟩,
    .createTable "Groups" ⟨[]⟩,
    .createTable "Users" users,
    .createIndex "fkIdx_55" ⟨"Users", ["group_id"]⟩,
    .createTable "Permissions" permissions,
    .createIndex "fkIdx_60" ⟨"Permissions", ["group_id"]⟩,
    .createIndex "fkIdx_67" ⟨"Permissions", ["station_id"]⟩,
    .createTable "Stations" stations,
    .createIndex "fkIdx_16" ⟨"Stations", ["zone_id"]⟩,
    .createIndex "fkIdx_92" ⟨"Stations", ["power_id"]⟩,
    .createTable "data" data,
    .createIndex "fkIdx_24" ⟨"data", ["station_id"]⟩]

/-! ## Runs of the script -/

/-- The script comes to `Permissions` before it comes to `Stations`. -/
theorem dbScript_eq : ∃ pre post,
    dbScript = pre ++ .createTable "Permissions" permissions :: post ∧
      ∀ stmt ∈ pre, stmt.name ≠ "Permissions" ∧ stmt.name ≠ "Stations" := by
  refine ⟨dbScript.take 5, dbScript.drop 6, rfl, ?_⟩
  decide

/-- `Permissions` references `Stations`. -/
theorem permissions_references :
    ∃ fk ∈ permissions.foreignKeys, fk.target = "Stations" :=
  ⟨references "FK_67" "station_id" "Stations", by simp [permissions], rfl⟩

/-- Whatever was run before, neither `Permissions` nor `Stations` exists. -/
theorem lacks_afterRuns_dbScript {c : Catalog String} (hunrelated : Unrelated dbScript c)
    (cuts : List ℕ) :
    (afterRuns dbScript c cuts).Lacks "Permissions" ∧
      (afterRuns dbScript c cuts).Lacks "Stations" := by
  obtain ⟨pre, post, hscript, hpre⟩ := dbScript_eq
  have hpermissions : c.Lacks "Permissions" :=
    hunrelated (.createTable "Permissions" permissions) (by simp [dbScript])
  have hstations : c.Lacks "Stations" :=
    hunrelated (.createTable "Stations" stations) (by simp [dbScript])
  rw [hscript]
  exact lacks_afterRuns permissions_references hpre hpermissions hstations cuts

/-- Whatever was run before, the script stops with an error. -/
theorem dbScript_stops {c : Catalog String} (hunrelated : Unrelated dbScript c)
    (cuts : List ℕ) :
    (machine.run (afterRuns dbScript c cuts) dbScript).stop ≠ none := by
  obtain ⟨pre, post, hscript, hpre⟩ := dbScript_eq
  obtain ⟨hpermissions, hstations⟩ := lacks_afterRuns_dbScript hunrelated cuts
  generalize afterRuns dbScript c cuts = c' at hpermissions hstations ⊢
  rw [hscript]
  exact (blocked permissions_references hpre hpermissions hstations).1

/-- **The script never runs.**  From a catalog with anything unrelated in it, and after any
earlier runs of the script, each cut off anywhere, a run stops with an error; `Permissions`
and `Stations` are never created. -/
theorem db_script_never_runnable {c : Catalog String} (hunrelated : Unrelated dbScript c)
    (cuts : List ℕ) :
    (machine.run (afterRuns dbScript c cuts) dbScript).stop ≠ none ∧
      (afterRuns dbScript c cuts).Lacks "Permissions" ∧
      (afterRuns dbScript c cuts).Lacks "Stations" ∧
      ¬ Runnable dbScript (afterRuns dbScript c cuts) := by
  have hstops := dbScript_stops hunrelated cuts
  obtain ⟨hpermissions, hstations⟩ := lacks_afterRuns_dbScript hunrelated cuts
  exact ⟨hstops, hpermissions, hstations, fun hrunnable => hstops hrunnable.completes⟩

/-- The catalog in which nothing exists holds nothing of the script's own. -/
theorem unrelated_empty : Unrelated dbScript (Catalog.empty : Catalog String) :=
  fun _ _ => ⟨rfl, rfl⟩

theorem db_script_never_runnable_empty :
    (machine.run (afterRuns dbScript Catalog.empty [13]) dbScript).stop ≠ none ∧
      (afterRuns dbScript Catalog.empty [13]).Lacks "Permissions" ∧
      (afterRuns dbScript Catalog.empty [13]).Lacks "Stations" ∧
      ¬ Runnable dbScript (afterRuns dbScript Catalog.empty [13]) :=
  db_script_never_runnable unrelated_empty [13]

/-- On an empty catalog the script stops because `Stations` is not there yet, and a further
run stops because `fkIdx_55` is there already. -/
theorem schema_stops_halfway :
    (machine.run Catalog.empty dbScript).stop = some (.undefinedTable "Stations") ∧
      (machine.run (machine.run Catalog.empty dbScript).state dbScript).stop =
        some (.duplicateName "fkIdx_55") ∧
      ¬ Runnable dbScript Catalog.empty := by
  have hstop : (machine.run Catalog.empty dbScript).stop = some (.undefinedTable "Stations") := by
    decide
  refine ⟨hstop, by decide, fun hrunnable => ?_⟩
  rw [hrunnable.completes] at hstop
  cases hstop
