import FleetSync.Error
import FleetSync.Store.Filter
import FleetSync.Store.Patch

/-!
# The document store

Documents live in collections, in the order they were inserted, and each has an id and a key of its
own within its collection. Whatever concerns one document concerns the first that meets a filter,
but every document of the collection is looked at (`DocumentStore.select`).
-/

namespace FleetSync

/-- A document. -/
structure Document where
  collection : String
  id : String
  key : String
  body : Json
deriving DecidableEq, Repr, Inhabited

/-- A document in a store. -/
structure StoredDocument where
  collection : String
  id : String
  key : String
  body : Body
deriving Repr, Inhabited

namespace StoredDocument

/-- A document as it is stored. -/
def of (d : Document) : StoredDocument := ⟨d.collection, d.id, d.key, .ofJson d.body.canonical⟩

/-- Whether a document is one of a collection that meets a filter. -/
def matches? (d : StoredDocument) (collection : String) (filter : Filter) : Bool :=
  d.collection == collection && filter.holds? d.body == some true

/-- The body as it reads back. -/
def read (d : StoredDocument) : Except OpError Json :=
  d.body.value?.elim (.error (.serialization "malformed document")) .ok

end StoredDocument

/-- The documents of every collection, in insertion order. -/
structure DocumentStore where
  documents : List StoredDocument
deriving Repr, Inhabited

namespace DocumentStore

/-- The store without documents. -/
def empty : DocumentStore := ⟨[]⟩

/-- The documents of a collection. -/
def collection (s : DocumentStore) (name : String) : List StoredDocument :=
  s.documents.filter (·.collection == name)

/-- Whether a document shares its id or its key with one of its collection. -/
def collides (s : DocumentStore) (d : Document) : Bool :=
  s.documents.any fun e => e.collection == d.collection && (e.id == d.id || e.key == d.key)

/-- What is said where the store fails. -/
def failed : OpError := .database "query" "the statement failed"

/-- Inserts a document that the store can read. -/
def insert (s : DocumentStore) (d : Document) : Except OpError DocumentStore :=
  let e := StoredDocument.of d
  if !e.body.isReadable then .error failed
  else if s.collides d then .error (.alreadyExists d.collection d.key)
  else .ok ⟨s.documents ++ [e]⟩

/-- The test for the documents of a collection that meet a filter, if that can be told of all of
them. -/
def select (s : DocumentStore) (collection : String) (filter : Filter) :
    Except OpError (StoredDocument → Bool) :=
  if (s.collection collection).all fun d => (filter.holds? d.body).isSome then
    .ok (·.matches? collection filter)
  else .error failed

/-- The test for all the documents that meet a filter. -/
def selectAll (s : DocumentStore) (collection : String) (filter : Filter) :
    Except OpError (StoredDocument → Bool) :=
  if filter.isAskable then s.select collection filter else .error failed

/-- The test for a document that is to be changed. -/
def selectOne (s : DocumentStore) (collection : String) (filter : Filter) :
    Except OpError (StoredDocument → Bool) :=
  if filter.isAskableWithin then s.select collection filter else .error failed

/-- The first document that meets a filter. -/
def findOne (s : DocumentStore) (collection : String) (filter : Filter) :
    Except OpError (Option Json) := do
  let test ← s.selectAll collection filter
  match s.documents.find? test with
  | none => return none
  | some d => return some (← d.read)

/-- Every document that meets a filter. -/
def find (s : DocumentStore) (collection : String) (filter : Filter) :
    Except OpError (List Json) := do
  let test ← s.selectAll collection filter
  (s.documents.filter test).mapM (·.read)

/-- The documents with the first one that meets a test changed. -/
def modifyFirst (test : StoredDocument → Bool) (f : StoredDocument → StoredDocument) :
    List StoredDocument → List StoredDocument
  | [] => []
  | d :: rest => if test d then f d :: rest else d :: modifyFirst test f rest

/-- Patches the first document that meets a filter; says whether there was one. An empty patch only
looks for it. -/
def patchOne (s : DocumentStore) (collection : String) (filter : Filter) (patch : Patch) :
    Except OpError (Bool × DocumentStore) := do
  if patch.isEmpty then return ((← s.findOne collection filter).isSome, s)
  if !patch.isAskable then throw failed
  let test ← s.selectOne collection filter
  match s.documents.find? test with
  | none => return (false, s)
  | some d => match patch.applyTo? d.body with
    | none => throw failed
    | some body => return (true, ⟨modifyFirst test (fun d => { d with body }) s.documents⟩)

/-- Deletes the first document that meets a filter; says whether there was one. -/
def deleteOne (s : DocumentStore) (collection : String) (filter : Filter) :
    Except OpError (Bool × DocumentStore) := do
  let test ← s.selectOne collection filter
  return (s.documents.any test, ⟨s.documents.eraseP test⟩)

/-- Deletes every document that meets a filter; counts them. -/
def deleteMany (s : DocumentStore) (collection : String) (filter : Filter) :
    Except OpError (Nat × DocumentStore) := do
  let test ← s.selectAll collection filter
  return (s.documents.countP test, ⟨s.documents.filter (!test ·)⟩)

end DocumentStore

end FleetSync
