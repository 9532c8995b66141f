import Mathlib.Data.List.Sort
import SlipScan.Foundation.Interleaving

namespace SlipScan.Model.Migrations

open Foundation.Transaction Foundation.Interleaving

inductive MigrationFault
  | sqlite (message : String)
  | migration (version : ℤ) (message : String)
  deriving DecidableEq, Repr

structure Migration (S : Type) where
  version : ℤ
  name : String
  script : S → Except String S

structure AppliedRow where
  version : ℤ
  name : String
  appliedAt : String
  deriving DecidableEq, Repr

/-- A database file, with the table of the migrations once there is one. -/
structure SchemaDb (S : Type) where
  schemaMigrations : Option (List AppliedRow)
  schema : S
  deriving DecidableEq, Repr

abbrev MigrationCall (S : Type) := Process (SchemaDb S) Unit MigrationFault

variable {S : Type}

/-- The names of the scripts, the first of which has the version 1. -/
def migrationNames : List String :=
  ["0001_init", "0002_accounting", "0003_vault", "0004_fx", "0005_shapepay", "0006_members",
    "0007_devices", "0008_oplog", "0009_locations", "0010_contacts", "0011_catalogue",
    "0012_stock", "0013_purchasing", "0014_sales", "0015_networth", "0016_assets",
    "0017_recurring"]

/-- The migrations of the program, of which each script is given by its name. -/
def migrations (script : String → S → Except String S) : List (Migration S) :=
  migrationNames.mapIdx fun i name ↦ ⟨i + 1, name, script name⟩

def noTable : MigrationFault := .sqlite "no such table: schema_migrations"

def createSchemaMigrations : Tx (SchemaDb S) MigrationFault Unit :=
  modify fun db ↦ { db with schemaMigrations := some (db.schemaMigrations.getD []) }

def appliedVersions (db : SchemaDb S) : Except MigrationFault (List ℤ) :=
  match db.schemaMigrations with
  | some rows => .ok ((rows.map AppliedRow.version).insertionSort (· ≤ ·))
  | none => .error noTable

def insertApplied (row : AppliedRow) : Tx (SchemaDb S) MigrationFault Unit := do
  match (← get).schemaMigrations with
  | none => throw noTable
  | some rows =>
    if row.version ∈ rows.map AppliedRow.version then
      throw (.sqlite "UNIQUE constraint failed: schema_migrations.version")
    else modify fun db ↦ { db with schemaMigrations := some (rows ++ [row]) }

def applyMigration (nowIso : String) (m : Migration S) : Tx (SchemaDb S) MigrationFault Unit := do
  match m.script (← get).schema with
  | .error message => throw (.migration m.version message)
  | .ok schema =>
    modify fun db ↦ { db with schema }
    insertApplied ⟨m.version, m.name, nowIso⟩

def applyPending (nowIso : String) (latest : ℤ) : List (Migration S) → MigrationCall S Unit
  | [] => pure ()
  | m :: ms =>
    if m.version ≤ latest then applyPending nowIso latest ms
    else do
      Process.atomically [] (applyMigration nowIso m)
      applyPending nowIso latest ms

def migrate (nowIso : String) (ms : List (Migration S)) : MigrationCall S Unit := do
  Process.atomically [] createSchemaMigrations
  let applied ← Process.ofExcept (← Process.query appliedVersions)
  applyPending nowIso (applied.getLast?.getD 0) ms

end SlipScan.Model.Migrations
