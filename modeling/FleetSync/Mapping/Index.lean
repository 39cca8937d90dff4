import FleetSync.Mapping.Basic

/-!
# The mapping index

A table of rows, one for each resource attached to a cluster. A row holds plain text, and what does
not name a level or a kind fails when it is read back (`MappingRow.toMapping`). No two rows agree on
their identity, where a missing environment counts as the empty one (`MappingRow.clashes`); a
replaced row moves to the end.
-/

namespace FleetSync

/-- A row of the index. -/
structure MappingRow where
  level : String
  kind : String
  name : String
  namespaceName : String
  account : String
  cluster : String
  project : String
  environment : Option String
deriving DecidableEq, Repr, Inhabited

namespace MappingRow

/-- The row of a mapping. -/
def ofMapping (m : Mapping) : MappingRow :=
  ⟨m.level.name, m.kind.name, m.name, m.namespaceName, m.account, m.cluster, m.project,
    m.environment⟩

/-- The mapping a row holds. -/
def toMapping (r : MappingRow) : Except OpError Mapping := do
  let some level := Fields.get? r.level Level.variants
    | .error (.serialization ("unknown mapping heirarchy: " ++ r.level))
  let some kind := Kind.ofName? r.kind
    | .error (.serialization (Kind.unknownMessage r.kind))
  return ⟨level, kind, r.name, r.namespaceName, r.account, r.cluster, r.project, r.environment⟩

/-- The row with the given columns; only the environment may be missing. -/
def ofColumns? (column : String → Option String) : Option MappingRow := do
  return ⟨← column "heirarchy", ← column "resource_type", ← column "resource_name",
    ← column "resource_namespace", ← column "account_name", ← column "cluster_name",
    ← column "project_name", column "environment_name"⟩

/-- Whether a row is filed under a key. -/
def hasKey (r : MappingRow) (k : MappingKey) : Bool :=
  r.kind == k.kind.name && r.account == k.account && r.project == k.project &&
    r.environment == k.environment && r.name == k.name && r.namespaceName == k.namespaceName

/-- Whether two rows may not stand side by side. -/
def clashes (r s : MappingRow) : Bool :=
  r.kind == s.kind && r.account == s.account && r.project == s.project &&
    r.environment.getD "" == s.environment.getD "" && r.name == s.name &&
    r.namespaceName == s.namespaceName

/-- Whether a row belongs to a scope. The row of an environment itself is filed in its project. -/
def inScope (r : MappingRow) : Scope → Bool
  | .project a p => r.account == a && r.project == p
  | .environment a p e =>
    r.account == a && r.project == p &&
      (r.environment == some e || (r.kind == Kind.environment.name && r.name == e))

/-- Whether a row is that of the resource that owns a scope. -/
def ownsScope (r : MappingRow) : Scope → Bool
  | .project a p => r.kind == Kind.project.name && r.account == a && r.name == p
  | .environment a p e =>
    r.kind == Kind.environment.name && r.account == a && r.project == p && r.name == e

/-- The order rows are listed in. -/
def listOrder (r s : MappingRow) : Ordering :=
  compare r.kind s.kind |>.then (compare r.name s.name) |>.then (compare r.account s.account)
    |>.then (compare r.project s.project) |>.then (compare r.environment s.environment)
    |>.then (compare r.namespaceName s.namespaceName)

/-- The order rows are looked up in. -/
def lookupOrder (r s : MappingRow) : Ordering :=
  compare r.project s.project |>.then (compare (r.environment.getD "") (s.environment.getD ""))
    |>.then (compare r.namespaceName s.namespaceName)

end MappingRow

/-- The rows of the index, in insertion order. -/
structure MappingIndex where
  rows : List MappingRow
deriving DecidableEq, Repr, Inhabited

namespace MappingIndex

/-- The index without rows. -/
def empty : MappingIndex := ⟨[]⟩

/-- Adds a row that clashes with none. -/
def insert (x : MappingIndex) (r : MappingRow) : Except OpError MappingIndex :=
  if x.rows.any r.clashes then .error (.database "query" "rows clash") else .ok ⟨x.rows ++ [r]⟩

/-- Adds a row that clashes with none and, if asked to, names a level. -/
def insertChecked (x : MappingIndex) (r : MappingRow) (checked : Bool) :
    Except OpError MappingIndex :=
  if checked && (Fields.get? r.level Level.variants).isNone then
    .error (.database "query" "no level")
  else x.insert r

/-- Adds the row with the given columns. -/
def insertColumns (x : MappingIndex) (column : String → Option String) (checked : Bool) :
    Except OpError MappingIndex :=
  match MappingRow.ofColumns? column with
  | some r => x.insertChecked r checked
  | none => .error (.database "query" "missing column")

/-- The rows that are not filed under a key. -/
def without (x : MappingIndex) (k : MappingKey) : MappingIndex :=
  ⟨x.rows.filter (!·.hasKey k)⟩

/-- Replaces the row of a mapping's key. -/
def upsert (x : MappingIndex) (m : Mapping) : Except OpError MappingIndex :=
  (x.without m.key).insert (.ofMapping m)

/-- The row that comes first in the order of looking up. -/
def first? : List MappingRow → Option MappingRow
  | [] => none
  | r :: rest => match first? rest with
    | none => some r
    | some s => if (r.lookupOrder s).isLE then some r else some s

/-- The cluster of the resource that owns a scope. -/
def resolve (x : MappingIndex) (s : Scope) : Option String :=
  (first? (x.rows.filter (·.ownsScope s))).map (·.cluster)

/-- The mapping filed under a key. -/
def find (x : MappingIndex) (k : MappingKey) : Except OpError (Option Mapping) :=
  match x.rows.find? (·.hasKey k) with
  | none => .ok none
  | some r => r.toMapping.map some

/-- Removes the rows filed under a key; counts them. -/
def remove (x : MappingIndex) (k : MappingKey) : Nat × MappingIndex :=
  (x.rows.countP (·.hasKey k), x.without k)

/-- The mappings of a scope, in order. -/
def list (x : MappingIndex) (s : Scope) : Except OpError (List Mapping) :=
  ((x.rows.filter (·.inScope s)).mergeSort fun a b => (a.listOrder b).isLE).mapM (·.toMapping)

/-- The projects that have rows, in order. -/
def projects (x : MappingIndex) : List (String × String) :=
  (x.rows.map fun r => (r.account, r.project)).eraseDups.mergeSort
    fun a b => ((compare a.1 b.1).then (compare a.2 b.2)).isLE

/-- Removes the rows of a scope; counts them. -/
def removeScope (x : MappingIndex) (s : Scope) : Nat × MappingIndex :=
  (x.rows.countP (·.inScope s), ⟨x.rows.filter (!·.inScope s)⟩)

/-- Moves the rows of a scope to a cluster; counts them. -/
def reassign (x : MappingIndex) (s : Scope) (cluster : String) : Nat × MappingIndex :=
  (x.rows.countP (·.inScope s),
    ⟨x.rows.map fun r => if r.inScope s then { r with cluster } else r⟩)

end MappingIndex

end FleetSync
