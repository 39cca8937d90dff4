import FleetSync.Store.Path

/-!
# Patches

A patch sets and removes fields of a document. Whatever their order, every field that is set is set
before any is removed (`Patch.applyTo?`). It is applied as a whole or not at all.

What was changed is written for JSON, and whoever goes on with it reads that text, unless it is long
enough to be remembered together with what was written (`Draft.handedOn?`).
-/

namespace FleetSync

/-- A change of a field. -/
inductive PatchOp where
  | set (path : Path) (value : Json)
  | unset (path : Path)
deriving DecidableEq, Repr, Inhabited

/-- The changes of a document. -/
abbrev Patch := List PatchOp

namespace PatchOp

/-- Whether a change sets a field. -/
def isSet : PatchOp → Bool
  | .set .. => true
  | .unset _ => false

/-- The body after what a change sets in it. -/
def applySet? (b : Body) : PatchOp → Option Body
  | .set path value =>
    let value := Body.ofJson value.canonical
    if value.isReadable then (b.put path value).change? b else none
  | .unset _ => some b

/-- The body after what a change removes from it. -/
def applyUnset? (b : Body) : PatchOp → Option Body
  | .set .. => some b
  | .unset path => ((b.cut path).map (·.getD .null)).change? b

end PatchOp

/-- A body that was changed, and as what it was written. -/
structure Draft where
  body : Body
  written : Body
deriving Repr, Inhabited

namespace Draft

/-- How many bytes a text has that is not remembered, at most. -/
def forgottenSize : Nat := 100

/-- A changed body, if it can be written. -/
def ofBody? (b : Body) : Option Draft := b.rewritten?.map (mk b)

/-- Whether the text of a draft is remembered. -/
def isRemembered (d : Draft) : Bool := decide (forgottenSize < d.written.text.utf8ByteSize)

/-- The body that the next one to change it has. -/
def handedOn? (d : Draft) : Option Body :=
  if d.isRemembered then some d.body else if d.written.isReadable then some d.written else none

/-- The body that is stored in the end. -/
def stored? (d : Draft) : Option Body :=
  if d.written.isReadable || d.isRemembered then some d.written else none

end Draft

namespace Patch

/-- How many arguments a change of all the fields to set, or to remove, may have. -/
def maxArguments : Nat := 127

/-- Whether a patch is not too large to be asked for. -/
def isAskable (p : Patch) : Bool :=
  decide (1 + 2 * p.countP (·.isSet) ≤ maxArguments) &&
    decide (1 + p.countP (!·.isSet) ≤ maxArguments)

/-- The body after the fields of a patch are set in it. -/
def applySets? (p : Patch) (b : Body) : Option Body := p.foldlM PatchOp.applySet? b

/-- The body after the fields of a patch are removed from it. -/
def applyUnsets? (p : Patch) (b : Body) : Option Body := p.foldlM PatchOp.applyUnset? b

/-- The body after a patch, if it can be applied. -/
def applyTo? (p : Patch) (b : Body) : Option Body := do
  if !b.isReadable then none
  else if p.all (!·.isSet) then (← Draft.ofBody? (← p.applyUnsets? b)).stored?
  else
    let d ← Draft.ofBody? (← p.applySets? b)
    if p.all (·.isSet) then d.stored?
    else (← Draft.ofBody? (← p.applyUnsets? (← d.handedOn?))).stored?

end Patch

end FleetSync
