import FleetSync.Json.Reader

/-!
# Locations of databases

A URL names a database: after the scheme its name, and after a question mark the parameters of how
it is opened (`Address.ofUrl?`). Unless the parameters ask for it to be taken as it is, a name that
starts with the word for a file is itself an address with parameters, which may ask for less than
the URL allows (`Location.ofName?`). What is opened in the end is the `Location`.

A percent sign with two hexadecimal digits writes a byte, and names are bytes. In the parameters of
a URL a plus sign writes a blank. In an address a null ends the part that it is in.
-/

namespace FleetSync

/-- The bytes of a text. -/
def bytesOf (s : String) : List UInt8 := s.toUTF8.data.toList

/-- What may be done with a file, from the least to the most. -/
inductive FileAccess where
  | readOnly
  | readWrite
  | create
deriving DecidableEq, Repr, Inhabited

/-- How much may be done with a file. -/
def FileAccess.rank : FileAccess → Nat
  | readOnly => 0
  | readWrite => 1
  | create => 2

/-- The ways of keeping files: as usual or for one process alone, without locks, with a lock that
is a file, or not on a disk at all. -/
inductive FileSystem where
  | plain
  | exclusive
  | lockless
  | dotLocked
  | memory
deriving DecidableEq, Repr, Inhabited

namespace FileSystem

/-- The ways of keeping files by name. -/
def variants : List (String × FileSystem) := [("unix", plain), ("unix-excl", exclusive),
  ("unix-none", lockless), ("unix-dotfile", dotLocked), ("memdb", memory)]

/-- The way of keeping files of a name. -/
def ofName? (name : List UInt8) : Option FileSystem :=
  (variants.find? fun (n, _) => bytesOf n == name).map (·.2)

/-- Whether changes may be kept in a log beside a file. -/
def canLog : FileSystem → Bool
  | plain | exclusive => true
  | lockless | dotLocked | memory => false

end FileSystem

/-! ## Parts of addresses -/

/-- Bytes in which a percent sign and two hexadecimal digits write a byte. -/
def unescapeBytes : List UInt8 → List UInt8
  | [] => []
  | b :: c :: d :: rest =>
    match Json.hexValue? (.ofNat c.toNat), Json.hexValue? (.ofNat d.toNat) with
    | some x, some y => if b = 37 then .ofNat (x * 16 + y) :: unescapeBytes rest
      else b :: unescapeBytes (c :: d :: rest)
    | _, _ => b :: unescapeBytes (c :: d :: rest)
  | b :: rest => b :: unescapeBytes rest

/-- The bytes before the first null. -/
def beforeNull (bytes : List UInt8) : List UInt8 := bytes.takeWhile (· != 0)

/-- The bytes before and after the first one of a kind, which is left out. -/
def splitAt (b : UInt8) (bytes : List UInt8) : List UInt8 × List UInt8 :=
  (bytes.takeWhile (· != b), bytes.drop ((bytes.takeWhile (· != b)).length + 1))

/-- The parts of bytes between those of a kind, in at most so many steps. -/
def partsBetween (b : UInt8) : Nat → List UInt8 → List (List UInt8)
  | 0, _ | _, [] => []
  | n + 1, bytes =>
    let (part, rest) := splitAt b bytes
    part :: partsBetween b n rest

/-- The parameters between ampersands, by name and value as they are written. -/
def parametersOf (bytes : List UInt8) : List (List UInt8 × List UInt8) :=
  ((partsBetween 38 bytes.length bytes).filter (· != [])).map (splitAt 61)

/-- The text of bytes, if they are one. -/
def textOf? (bytes : List UInt8) : Option String := String.fromUTF8? ⟨bytes.toArray⟩

/-! ## URLs -/

/-- What a URL says: the name of a database, and how it is opened. -/
structure Address where
  name : List UInt8
  /-- Whether the name stands for a database of its own in memory. -/
  isUnnamed : Bool
  isInMemory : Bool
  isShared : Bool
  isReadOnly : Bool
  isImmutable : Bool
  fileSystem : Option (List UInt8)
deriving DecidableEq, Repr, Inhabited

namespace Address

/-- The name of a database in memory. -/
def memoryName : String := ":memory:"

/-- A text without its repeated first part. -/
def dropRepeated (start : List Char) : Nat → List Char → List Char
  | 0, s => s
  | n + 1, s => if start.isPrefixOf s then dropRepeated start n (s.drop start.length) else s

/-- The address after one more parameter of its URL. -/
def withParameter? (a : Address) (key value : List UInt8) : Option Address := do
  match ← textOf? key with
  | "mode" => match ← textOf? value with
    | "ro" => return { a with isReadOnly := true }
    | "rw" | "rwc" => return a
    | "memory" => return { a with isInMemory := true, isShared := true }
    | _ => none
  | "cache" => match ← textOf? value with
    | "private" => return { a with isShared := false }
    | "shared" => return { a with isShared := true }
    | _ => none
  | "immutable" => match ← textOf? value with
    | "true" | "1" => return { a with isImmutable := true }
    | "false" | "0" => return { a with isImmutable := false }
    | _ => none
  | "vfs" => return { a with fileSystem := some value }
  | _ => none

/-- The bytes of a part of a parameter. -/
def parameterPart (bytes : List UInt8) : List UInt8 :=
  unescapeBytes (bytes.map fun b => if b = 43 then 32 else b)

/-- The address that a URL says. -/
def ofUrl? (url : String) : Option Address := do
  let n := url.length
  let s := dropRepeated "sqlite:".toList n (dropRepeated "sqlite://".toList n url.toList)
  let (written, parameters) := splitAt 63 (bytesOf (String.ofList s))
  let name := unescapeBytes written
  let isUnnamed := written == bytesOf memoryName
  let _ ← textOf? name
  let a : Address := ⟨name, isUnnamed, isUnnamed, isUnnamed, false, false, none⟩
  (parametersOf parameters).foldlM
    (fun a (key, value) => a.withParameter? (parameterPart key) (parameterPart value)) a

end Address

/-! ## Locations -/

/-- Where a database is and how it is opened. -/
structure Location where
  file : List UInt8
  /-- Whether the file has an address of its own, by which it can be shared. -/
  isAddressed : Bool
  access : FileAccess
  isInMemory : Bool
  isShared : Bool
  isImmutable : Bool
  isLockless : Bool
  fileSystem : FileSystem
deriving DecidableEq, Repr, Inhabited

namespace Location

/-- The location after its parameter for the access, which cannot ask for more than is allowed. -/
def withMode? (l : Location) (mode : String) : Option Location :=
  let accessed (access : FileAccess) : Option Location :=
    if l.isInMemory || decide (access.rank ≤ l.access.rank) then
      some { l with isInMemory := false, access }
    else none
  match mode with
  | "ro" => accessed .readOnly
  | "rw" => accessed .readWrite
  | "rwc" => accessed .create
  | "memory" => some { l with isInMemory := true, access := .create }
  | _ => none

/-- The location after one more parameter of its address. -/
def withParameter? (l : Location) (key value : List UInt8) : Option Location :=
  match textOf? key with
  | some "mode" => textOf? value >>= l.withMode?
  | some "cache" => match textOf? value with
    | some "shared" => some { l with isShared := true }
    | some "private" => some { l with isShared := false }
    | _ => none
  | _ => some l

/-- Whether the value of a parameter is a yes. -/
def isYes (value : List UInt8) : Bool :=
  match textOf? value with
  | none => false
  | some s =>
    let digits := s.toList.takeWhile Char.isDigit
    if digits.isEmpty then ["on", "yes", "true"].contains s.toLower
    else
      let n := Json.digitsValue digits
      decide (n < 2147483648) && n % 256 != 0

/-- The value of the first parameter of a name. -/
def parameter? (key : String) (parameters : List (List UInt8 × List UInt8)) : Option (List UInt8) :=
  (parameters.find? (·.1 == bytesOf key)).map (·.2)

/-- The location of an address after the word for a file: a host, which can only be this one, a
name and parameters, of which those without a name are left out. -/
def ofAddress? (l : Location) (bytes : List UInt8) : Option Location := do
  let hasHost := (bytesOf "//").isPrefixOf bytes
  let host := if hasHost then (bytes.drop 2).takeWhile (· != 47) else []
  if host != [] && host != bytesOf "localhost" then none
  else
    let rest := if hasHost then bytes.drop (2 + host.length) else bytes
    let (name, written) := splitAt 63 (splitAt 35 rest).1
    let part (bytes : List UInt8) := beforeNull (unescapeBytes bytes)
    let parameters := ((parametersOf written).map fun (key, value) => (part key, part value)).filter
      (·.1 != [])
    let l ← parameters.foldlM (fun l (key, value) => l.withParameter? key value)
      { l with file := part name, isAddressed := true }
    let isSet (key : String) := ((parameter? key parameters).map isYes).getD false
    return { l with
      isImmutable := isSet "immutable"
      isLockless := isSet "nolock"
      fileSystem := ← match parameter? "vfs" parameters.reverse with
        | some name => FileSystem.ofName? name
        | none => some l.fileSystem }

/-- The location of an address. -/
def ofName? (a : Address) : Option Location := do
  let start := bytesOf "file:"
  let l : Location := ⟨a.name, false, if a.isReadOnly then .readOnly else .create, a.isInMemory,
    a.isShared, a.isImmutable, false, .plain⟩
  if a.isImmutable || a.fileSystem.isSome then
    return { l with
      file := beforeNull a.name
      isAddressed := !a.isUnnamed
      fileSystem := ← FileSystem.ofName? (beforeNull (a.fileSystem.getD (bytesOf "unix"))) }
  else if a.name.contains 0 then none
  else if start.isPrefixOf a.name then l.ofAddress? (a.name.drop start.length)
  else return l

/-- The location a URL names. -/
def ofUrl? (url : String) : Option Location := Address.ofUrl? url >>= ofName?

/-- Whether a URL looks as if it named a database in memory. -/
def looksInMemory (url : String) : Bool :=
  decide (1 < (url.splitOn Address.memoryName).length) ||
    decide (1 < (url.splitOn "mode=memory").length)

/-- How many connections a database of a URL is given: one that is in memory is lost with its last
connection, so it has a single one. -/
def maxConnections (url : String) : Nat := if looksInMemory url then 1 else 5

end Location

end FleetSync
