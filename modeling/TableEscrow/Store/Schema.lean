import TableEscrow.Store.Statement
/-!
# The state of the schema

Whether the database answers and has its tables, and how it is given them: scripts it has not run
are run in order, after it is clear that it ran no script that is not known.
-/

namespace TableEscrow.Store

structure Readiness where
  answers : Bool
  hasHands : Bool
  hasOutbox : Bool
  deriving DecidableEq

namespace Readiness

def isComplete (r : Readiness) : Bool := r.hasHands && r.hasOutbox

variable {σ : Type}

def tableExists (d : Database σ) (name : String) (s : σ) : Except StoreError Bool × σ :=
  let (result, s) := d.run (.tableExists name) s
  (Database.one (.tableExists name) result, s)

def ofDatabase (d : Database σ) (s : σ) : Except StoreError Readiness × σ :=
  match d.run .ping s with
  | (.error e, s) => (.error e, s)
  | (.ok none, s) => (.error (.failed .ping .noRow), s)
  | (.ok (some one), s) =>
    match tableExists d "hands" s with
    | (.error e, s) => (.error e, s)
    | (.ok hasHands, s) =>
      match tableExists d "control_outbox" s with
      | (.error e, s) => (.error e, s)
      | (.ok hasOutbox, s) => (.ok ⟨one == 1, hasHands, hasOutbox⟩, s)

end Readiness

namespace Migration

variable {σ : Type}

/-- The digest a version had when it was run, if it was run. -/
def digest? (applied : List Applied) (version : Int64) : Option (List UInt8) :=
  (applied.reverse.find? (·.version == version)).map (·.checksum)

/-- A version that was run and has no script here. -/
def unknown? (scripts : List Migration) (applied : List Applied) : Option Int64 :=
  (applied.find? fun a => scripts.all (·.version != a.version)).map (·.version)

/-- Runs the scripts that were not run. One that was run must be what it was then. -/
def runMissing (d : Database σ) (applied : List Applied) : List Migration → σ → Except StoreError Unit × σ
  | [], s => (.ok (), s)
  | m :: rest, s =>
    match digest? applied m.version with
    | some digest =>
      if digest = m.checksum then runMissing d applied rest s
      else (.error (.unknownMigration m.version), s)
    | none =>
      match d.run (.migrate m) s with
      | (.ok _, s) => runMissing d applied rest s
      | (.error e, s) => (.error e, s)

def run (d : Database σ) (scripts : List Migration) (s : σ) : Except StoreError Unit × σ :=
  match d.run .applied s with
  | (.error e, s) => (.error e, s)
  | (.ok applied, s) =>
    match unknown? scripts applied with
    | some version => (.error (.unknownMigration version), s)
    | none => runMissing d applied scripts s

end Migration

end TableEscrow.Store
