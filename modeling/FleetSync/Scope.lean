import FleetSync.Kind
import FleetSync.Name

/-!
# Scopes

A scope is a project of an account, or an environment of a project. It is owned by the resource of
that project or environment, which itself lives in the project's scope.
-/

namespace FleetSync

/-- Where resources live. -/
inductive Scope where
  | project (account project : String)
  | environment (account project environment : String)
deriving DecidableEq, Repr, Inhabited

namespace Scope

/-- The account a scope belongs to. -/
def accountName : Scope → String
  | .project a _ | .environment a _ _ => a

/-- The project of a scope. -/
def projectName : Scope → String
  | .project _ p | .environment _ p _ => p

/-- The environment of a scope, if it is one. -/
def environmentName? : Scope → Option String
  | .project .. => none
  | .environment _ _ e => some e

/-- The level of a scope. -/
def level : Scope → Level
  | .project .. => .project
  | .environment .. => .environment

/-- The kind of the resource that owns a scope. -/
def ownerKind : Scope → Kind
  | .project .. => .project
  | .environment .. => .environment

/-- The name of the resource that owns a scope. -/
def ownerName : Scope → String
  | .project _ p => p
  | .environment _ _ e => e

/-- The scope the owner lives in. -/
def ownerScope (s : Scope) : Scope := .project s.accountName s.projectName

/-- The scope of a project, or of one of its environments. -/
def of (account project : String) : Option String → Scope
  | none => .project account project
  | some e => .environment account project e

/-- The path that names a scope. -/
def path : Scope → String
  | .project a p => s!"{a}/{p}"
  | .environment a p e => s!"{a}/{p}/{e}"

/-- Checks every name of a scope. -/
def check (s : Scope) : Except OpError Unit := do
  Name.check "account_name" s.accountName
  Name.check "project_name" s.projectName
  match s.environmentName? with
  | some e => Name.check "environment_name" e
  | none => return

/-- Reads a scope, tagged by its level. -/
def decode : Decoder Scope := .tagged "level" [
  ("project", .record ["account_name", "project_name"] fun r =>
    Scope.project <$> r.required "account_name" .text <*> r.required "project_name" .text),
  ("environment", .record ["account_name", "project_name", "environment_name"] fun r =>
    Scope.environment <$> r.required "account_name" .text <*> r.required "project_name" .text
      <*> r.required "environment_name" .text)]

/-- A scope as a value. -/
def encode (s : Scope) : Json := .obj <|
  [("level", .str s.level.name), ("account_name", .str s.accountName),
    ("project_name", .str s.projectName)] ++
  s.environmentName?.toList.map fun e => ("environment_name", .str e)

end Scope

end FleetSync
