import FleetSync.Program.Basic

/-!
# Looking resources up

The filters that pick resources out of their collection, and the programs that read what they pick.
-/

namespace FleetSync

namespace Filter

/-- The document of an id. -/
def byId (id : String) : Filter := [.eq ["id"] (.str id)]

/-- The document of an id while it is at a version. -/
def byIdAt (id : String) (v : Version) : Filter :=
  byId id ++ [.eq ["record_version"] (.ofInt v)]

/-- The documents of a project. -/
def inProject (account project : String) : Filter :=
  [.eq ["account_name"] (.str account), .eq ["project_name"] (.str project)]

/-- The documents that live directly in a scope. -/
def inScope (s : Scope) : Filter :=
  inProject s.accountName s.projectName ++
    [.eq ["environment_name"] (.ofOption .str s.environmentName?)]

/-- The documents of a name. -/
def hasName (name : String) : Filter := [.eq ["name"] (.str name)]

/-- The documents of a name in a scope. -/
def named (s : Scope) (name : String) : Filter := inScope s ++ hasName name

/-- The document of the resource that owns a scope. -/
def owner (s : Scope) : Filter := named s.ownerScope s.ownerName

/-- The documents of a kind that belong to a scope, its owner included; `none` if no resource of
the kind can. -/
def members? (s : Scope) (kind : Kind) : Option Filter :=
  let project := inProject s.accountName s.projectName
  match s.environmentName? with
  | none => some project
  | some e =>
    if kind = .environment then some (project ++ hasName e)
    else if kind.level = .project then none
    else some (project ++ [.eq ["environment_name"] (.str e)])

/-- The document that a report is about. -/
def reported (r : Wire.Report) : Filter := [
  .eq ["account_name"] (.str r.accountName),
  .eq ["cluster_name"] (.str r.clusterName),
  .eq ["namespace"] (.str r.object.namespaceName),
  .eq ["name"] (.str r.object.name)]

/-- The documents that wait for their agent. -/
def waiting : Filter := [.eq ["sync_status", "state"] SyncState.inQueue.encode]

end Filter

namespace Resource

/-- The document of a resource. -/
def document (r : Resource) : Document := ⟨r.kind.collection, r.id, r.identityKey, r.encode⟩

/-- The resource a document holds. -/
def ofDocument (kind : Kind) (j : Json) : Except OpError Resource :=
  ((decode kind).ofJson j).mapError .ofDecode

/-- The first resource of a kind that meets a filter. -/
def findOne (kind : Kind) (filter : Filter) : Program (Option Resource) := do
  match ← Program.findOne kind.collection filter with
  | none => return none
  | some j => return some (← Program.ofExcept (ofDocument kind j))

/-- Every resource of a kind that meets a filter. -/
def findAll (kind : Kind) (filter : Filter) : Program (List Resource) := do
  let found ← Program.find kind.collection filter
  Program.ofExcept (found.mapM (ofDocument kind))

/-- The resource of a kind and name in a scope, if there is one. -/
def find (kind : Kind) (s : Scope) (name : String) : Program (Option Resource) :=
  findOne kind (.named s name)

/-- The resource of a kind and name in a scope. -/
def get (kind : Kind) (s : Scope) (name : String) : Program Resource := do
  match ← find kind s name with
  | some r => return r
  | none => Program.fail (.notFound kind.name name)

/-- The resources of a kind that live directly in a scope. -/
def list (kind : Kind) (s : Scope) : Program (List Resource) := findAll kind (.inScope s)

/-- The resources of a kind that belong to a scope. -/
def members (kind : Kind) (s : Scope) : Program (List Resource) :=
  match Filter.members? s kind with
  | some filter => findAll kind filter
  | none => return []

/-- Patches the document of a resource. -/
def patch (r : Resource) (p : Patch) : Program Bool :=
  Program.patchOne r.kind.collection (.byId r.id) p

/-- Patches the document of a resource unless its version has changed. -/
def patchAtVersion (r : Resource) (p : Patch) : Program Bool :=
  Program.patchOne r.kind.collection (.byIdAt r.id r.recordVersion) p

end Resource

end FleetSync
