import FleetSync.Json.Decode

/-!
# Errors of the control plane

Each error has a stable code and a text. Only database and bus errors are transient: the same call
may succeed later.
-/

namespace FleetSync

/-- Why an operation failed. -/
inductive OpError where
  | notFound (kind name : String)
  | alreadyExists (kind name : String)
  | permissionDenied (userId action resource : String)
  | permissionCheckFailed (details : String)
  | invalid (field reason : String)
  | markedForDeletion (kind name : String)
  | conflict (kind name : String)
  | database (operation details : String)
  | bus (operation topic details : String)
  | serialization (details : String)
  | frame (details : String)
deriving DecidableEq, Repr, Inhabited

namespace OpError

/-- The code callers react to. -/
def code : OpError → String
  | notFound .. => "NOT_FOUND"
  | alreadyExists .. => "ALREADY_EXISTS"
  | permissionDenied .. => "PERMISSION_DENIED"
  | permissionCheckFailed .. => "PERMISSION_CHECK_FAILED"
  | invalid .. => "VALIDATION_ERROR"
  | markedForDeletion .. => "MARKED_FOR_DELETION"
  | conflict .. => "CONFLICT"
  | database .. => "DATABASE_ERROR"
  | bus .. => "BUS_ERROR"
  | serialization .. => "SERIALIZATION_ERROR"
  | frame .. => "FRAME_ERROR"

/-- The text of the error. -/
def message : OpError → String
  | notFound kind name => s!"{kind} '{name}' not found"
  | alreadyExists kind name => s!"{kind} '{name}' already exists"
  | permissionDenied userId action resource =>
    s!"user '{userId}' is not allowed to {action} {resource}"
  | permissionCheckFailed details => s!"permission check failed: {details}"
  | invalid field reason => s!"Validation error for '{field}': {reason}"
  | markedForDeletion kind name => s!"{kind} '{name}' is marked for deletion"
  | conflict kind name => s!"concurrent modification of {kind} '{name}', retries exhausted"
  | database operation details => s!"Database error during '{operation}': {details}"
  | bus operation topic details =>
    s!"Bus error during '{operation}' on topic '{topic}': {details}"
  | serialization details => s!"Serialization error: {details}"
  | frame details => s!"Frame error: {details}"

/-- Whether the same call may succeed later. -/
def isTransient : OpError → Bool
  | database .. | bus .. => true
  | _ => false

/-- The error of a document that does not decode. -/
def ofDecode (e : DecodeError) : OpError := .serialization e.message

end OpError

end FleetSync
