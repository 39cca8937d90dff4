import FleetSync.Program.World

/-!
# Faults

A plan of faults says which of the calls to come go wrong: they fail, or another writer is at the
document just before it is patched. Of the faults that wait for a kind of call, the first one with
strikes left decides: it lets some calls pass, then it strikes (`Fault.strike`).
-/

namespace FleetSync

/-- The kinds of calls that may go wrong. -/
inductive FaultTarget where
  | insert
  | patchOne
  | findOne
  | find
  | deleteOne
  | deleteMany
  | upsert
  | resolve
  | removeMapping
  | removeScope
  | reassignScope
  | publish
deriving DecidableEq, Repr, Inhabited

/-- The kinds of calls by name. -/
def FaultTarget.variants : List (String × FaultTarget) := [
  ("create", insert), ("patch_one", patchOne), ("find_one", findOne), ("find", find),
  ("delete_one", deleteOne), ("delete_many", deleteMany), ("upsert", upsert),
  ("resolve_cluster", resolve), ("remove_for_resource", removeMapping),
  ("remove_for_scope", removeScope), ("reassign_scope", reassignScope), ("publish", publish)]

/-- The kind of a call, if it may go wrong. -/
def Call.target? : Call → Option FaultTarget
  | .now | .freshId | .authorize .. | .emit _ => none
  | .insert _ => some .insert
  | .patchOne .. => some .patchOne
  | .findOne .. => some .findOne
  | .find .. => some .find
  | .deleteOne .. => some .deleteOne
  | .deleteMany .. => some .deleteMany
  | .upsert _ => some .upsert
  | .resolve _ => some .resolve
  | .removeMapping _ => some .removeMapping
  | .removeScope _ => some .removeScope
  | .reassignScope .. => some .reassignScope
  | .publish .. => some .publish

/-- How a call goes wrong. -/
inductive FaultMode where
  /-- The call fails and does nothing. -/
  | fail
  /-- The version of the document is raised before. -/
  | bump
  /-- The document is deleted before. -/
  | vanish
deriving DecidableEq, Repr, Inhabited

/-- A fault of so many calls, after so many others. -/
structure Fault where
  target : FaultTarget
  mode : FaultMode
  times : Nat
  skip : Nat
deriving DecidableEq, Repr, Inhabited

namespace Fault

/-- What becomes of a call of some kind, and the faults that are left. -/
def strike (target : FaultTarget) : List Fault → Option FaultMode × List Fault
  | [] => (none, [])
  | f :: rest =>
    if f.target = target ∧ 0 < f.times then
      if 0 < f.skip then (none, { f with skip := f.skip - 1 } :: rest)
      else (some f.mode, { f with times := f.times - 1 } :: rest)
    else
      let (mode, rest) := strike target rest
      (mode, f :: rest)

/-- The error of a call that fails. -/
def error : Call → OpError
  | .publish topic _ _ => .bus "publish" topic "fault"
  | _ => .database "injected" "fault"

/-- The id that a filter asks for. -/
def idOf (filter : Filter) : Option Json := filter.findSome? fun
  | .eq [.field ⟨['i', 'd']⟩] value => some value
  | _ => none

/-- The documents after another writer was at one of them. -/
def disturb (mode : FaultMode) (collection : String) (filter : Filter) (s : DocumentStore) :
    DocumentStore :=
  match idOf filter with
  | none => s
  | some id =>
    let test := fun d : StoredDocument => d.matches? collection [.eq ["id"] id]
    match mode with
    | .fail => s
    | .vanish => ⟨s.documents.eraseP test⟩
    | .bump => ⟨DocumentStore.modifyFirst test (fun d => { d with body := raised d.body })
        s.documents⟩
where
  /-- A document at the next version. -/
  raised (body : Body) : Body :=
    match body.at? ["record_version"] with
    | .place (.num (.int v)) =>
      ((body.put ["record_version"] (.num (.int (v + 1)))).change? body).getD body
    | _ => body

end Fault

/-- A world in which calls go wrong as planned. -/
structure FaultyWorld where
  world : World
  faults : List Fault
deriving Inhabited

namespace FaultyWorld

/-- The world after another writer was at the document a call patches. -/
def disturb (mode : FaultMode) (c : Call) (w : World) : World :=
  match c with
  | .patchOne collection filter _ =>
    { w with documents := Fault.disturb mode collection filter w.documents }
  | _ => w

/-- Answers a call, or lets it go wrong. -/
def answer (checker : Checker) (c : Call) (x : FaultyWorld) : c.Answer × FaultyWorld :=
  let (mode, faults) := (c.target?.map (Fault.strike · x.faults)).getD (none, x.faults)
  let perform (w : World) : c.Answer × FaultyWorld :=
    let (a, w) := w.answer checker c
    (a, ⟨w, faults⟩)
  match mode with
  | none => perform x.world
  | some .fail => match c.failure? (Fault.error c) with
    | some a => (a, ⟨x.world, faults⟩)
    | none => perform x.world
  | some mode => perform (disturb mode c x.world)

end FaultyWorld

end FleetSync
