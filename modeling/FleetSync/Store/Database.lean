import FleetSync.Store.Documents

/-!
# Databases

A database has its tables once they are made (`Database.migrate`), which fails if the record of how
they were made was tampered with.
-/

namespace FleetSync

/-- A database. -/
structure Database where
  isMigrated : Bool
  isTampered : Bool
  documents : DocumentStore
deriving Repr, Inhabited

namespace Database

/-- A database without tables. -/
def fresh : Database := ⟨false, false, .empty⟩

/-- The database once its tables are made; one that cannot be written must have them. -/
def migrate (d : Database) (isWritable : Bool) : Except OpError Database :=
  if d.isTampered then .error (.database "migrate" "the record of an earlier run differs")
  else if !isWritable && !d.isMigrated then
    .error (.database "migrate" "the database cannot be written")
  else .ok { d with isMigrated := true }

/-- The tables of the database, by name. -/
def tables (d : Database) : List String :=
  if d.isMigrated then ["bus_messages", "documents", "resource_mappings"] else []

/-- Tampers with the record of how the tables were made; counts its entries. -/
def tamper (d : Database) : Except OpError (Nat × Database) :=
  if d.isMigrated then .ok (1, { d with isTampered := true })
  else .error DocumentStore.failed

end Database

end FleetSync
