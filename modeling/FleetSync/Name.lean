import FleetSync.Error

/-!
# Names

Accounts, projects, environments, resources and namespaces are named by at most 63 lowercase
letters, digits and dashes that neither start nor end with a dash.
-/

namespace FleetSync.Name

/-- The most characters a name has. -/
def maxLength : Nat := 63

/-- Whether a character may stand in a name. -/
def isNameChar (c : Char) : Bool := ('a' ≤ c && c ≤ 'z') || ('0' ≤ c && c ≤ '9') || c == '-'

/-- Checks a name given for `field`. -/
def check (field value : String) : Except OpError Unit :=
  if value.isEmpty then .error (.invalid field "must not be empty")
  else if maxLength < value.utf8ByteSize then
    .error (.invalid field "must be at most 63 characters")
  else if !value.toList.all isNameChar then
    .error (.invalid field "may only contain lowercase letters, digits and '-'")
  else if value.toList.head? == some '-' || value.toList.getLast? == some '-' then
    .error (.invalid field "must start and end with a letter or digit")
  else .ok ()

end FleetSync.Name
