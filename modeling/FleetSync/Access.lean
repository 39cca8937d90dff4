import FleetSync.Scope

/-!
# Permissions

Before anything changes, the control plane asks whether a user may do it (`Checker`). The answer
that it may not is an error, and so is a question that could not be answered.
-/

namespace FleetSync

/-- A user, as recorded with what they changed. -/
structure User where
  id : String
  name : String
  email : String
deriving DecidableEq, Repr, Inhabited

namespace User

/-- The control plane itself. -/
def system : User := ⟨"system", "strato", ""⟩

/-- Reads a user. -/
def decode : Decoder User := .record ["user_id", "user_name", "user_email"] fun r =>
  User.mk <$> r.required "user_id" .text <*> r.defaulted "user_name" "" .text
    <*> r.defaulted "user_email" "" .text

/-- A user as a value. -/
def encode (u : User) : Json := .obj [
  ("user_id", .str u.id),
  ("user_name", .str u.name),
  ("user_email", .str u.email)]

end User

/-- What a user may be allowed to do. -/
inductive Permission where
  | create
  | update
  | delete
  | resync
  | detach
deriving DecidableEq, Repr, Inhabited

namespace Permission

/-- The name of a permission. -/
def name : Permission → String
  | create => "create"
  | update => "update"
  | delete => "delete"
  | resync => "resync"
  | detach => "detach"

/-- Every permission. -/
def all : List Permission := [create, update, delete, resync, detach]

end Permission

/-- A resource by its identity. -/
structure ResourceRef where
  kind : Kind
  account : String
  project : String
  environment : Option String
  name : String
deriving DecidableEq, Repr, Inhabited

namespace ResourceRef

/-- The resource of a kind and name in a scope. -/
def of (kind : Kind) (scope : Scope) (name : String) : ResourceRef :=
  ⟨kind, scope.accountName, scope.projectName, scope.environmentName?, name⟩

/-- The resource that owns a scope. -/
def scopeOwner (scope : Scope) : ResourceRef := of scope.ownerKind scope.ownerScope scope.ownerName

/-- The text of a reference. -/
def text (r : ResourceRef) : String :=
  match r.environment with
  | some e => s!"{r.kind.name}:{r.account}/{r.project}/{e}/{r.name}"
  | none => s!"{r.kind.name}:{r.account}/{r.project}/{r.name}"

end ResourceRef

/-- Answers whether the user of an id has a permission on a resource. -/
abbrev Checker := String → ResourceRef → Permission → Except OpError Bool

namespace Checker

/-- Allows everything. -/
def allowAll : Checker := fun _ _ _ => .ok true

/-- What follows from a checker's answer. -/
def verdict (userId : String) (resource : ResourceRef) (permission : Permission) :
    Except OpError Bool → Except OpError Unit
  | .ok true => .ok ()
  | .ok false => .error (.permissionDenied userId permission.name resource.text)
  | .error (.permissionCheckFailed details) => .error (.permissionCheckFailed details)
  | .error e => .error (.permissionCheckFailed e.message)

end Checker

end FleetSync
