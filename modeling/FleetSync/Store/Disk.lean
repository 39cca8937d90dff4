import FleetSync.Store.Database
import FleetSync.Store.Location

/-!
# Disks

The files of a disk and what they hold. Names are bytes, and the path of a database is resolved name
by name before anything is opened, so that it may lead up out of a directory that is not there
(`Disk.resolve?`).

The file of a database may have a log beside it: then changes go to the log, and into the file
itself when the last one who has it open closes it (`Disk.settle`).
-/

namespace FleetSync

/-- A place on a disk: the names on the way there from the root directory. -/
abbrev Place := List (List UInt8)

/-- The database of a file: what the file itself holds, and what it holds with its log. -/
structure DatabaseFile where
  settled : Database
  current : Database
  isLogged : Bool
deriving Repr, Inhabited

/-- What is at a place of a disk. -/
inductive Entry where
  | directory
  | text (s : String)
  | database (f : DatabaseFile)
deriving Repr, Inhabited

/-- Whether an entry is a directory. -/
def Entry.isDirectory : Entry → Bool
  | directory => true
  | text _ | database _ => false

/-- The entries below the root directory. -/
abbrev Disk := List (Place × Entry)

namespace Disk

/-- The directories below the root of every system. -/
def systemDirectories : List String := ["bin", "boot", "dev", "etc", "home", "lib", "media", "mnt",
  "opt", "proc", "root", "run", "sbin", "srv", "sys", "tmp", "usr", "var"]

/-- The disk of a system. -/
def system : Disk := systemDirectories.map fun name => ([bytesOf name], .directory)

/-- Where a path starts that does not start at the root directory. -/
def home : Place := [bytesOf "root"]

/-- How many bytes a name may have. -/
def maxNameSize : Nat := 255

/-- How many bytes a path may have less than. -/
def maxPathSize : Nat := 4096

/-- What the name of a file that goes with a database has more than the name of the database. -/
def companionSuffix : String := "-journal"

/-- What the name of a file that locks a database has more than the name of the database. -/
def lockSuffix : String := ".lock"

/-- How many bytes the path of a database may have. -/
def maxDatabasePathSize : Nat := 504

/-- What is at a place. -/
def get? (disk : Disk) : Place → Option Entry
  | [] => some .directory
  | place => (disk.find? (·.1 == place)).map (·.2)

/-- Whether there is a directory at a place. -/
def hasDirectory (disk : Disk) (place : Place) : Bool :=
  ((disk.get? place).map (·.isDirectory)).getD false

/-- Puts an entry at a place. -/
def put (disk : Disk) (place : Place) (e : Entry) : Disk :=
  disk.filter (·.1 != place) ++ [(place, e)]

/-- The place where the names of a path start. -/
def startOf (path : List UInt8) : Place := if path.head? == some 47 then [] else home

/-- The names of a path. -/
def namesOf (path : List UInt8) : List (List UInt8) := partsBetween 47 path.length path

/-- The names of a path, the last of which may be empty. -/
def allNamesOf (path : List UInt8) : List (List UInt8) :=
  namesOf path ++ if path.getLast? == some 47 then [[]] else []

/-- The name of a directory in itself. -/
def selfName : List UInt8 := bytesOf "."

/-- The name of the directory above. -/
def parentName : List UInt8 := bytesOf ".."

/-- The names of a path that lead somewhere else. -/
def stepsOf (path : List UInt8) : List (List UInt8) :=
  (namesOf path).filter fun s => s != [] && s != selfName

/-- Whether a name can be one of an entry. -/
def isName (name : List UInt8) : Bool := decide (name.length ≤ maxNameSize) && !name.contains 0

/-- Whether files can go with a database at a place. -/
def hasCompanions (place : Place) : Bool :=
  isName (place.getLast?.getD [] ++ bytesOf companionSuffix)

/-- Whether a file at a place can be locked: a lock that is a file has a name of its own. -/
def canLock (fileSystem : FileSystem) (place : Place) : Bool :=
  fileSystem != .dotLocked || isName (place.getLast?.getD [] ++ bytesOf lockSuffix)

/-- The place that names lead to through directories. -/
def walk? (disk : Disk) (place : Place) : List (List UInt8) → Option Place
  | [] => some place
  | name :: rest =>
    if !disk.hasDirectory place then none
    else if name == [] || name == selfName then disk.walk? place rest
    else if name == parentName then disk.walk? place.dropLast rest
    else if (disk.get? (place ++ [name])).isSome then disk.walk? (place ++ [name]) rest
    else none

/-- Whether a path is the path of a file. -/
def isFile (disk : Disk) (path : List UInt8) : Bool :=
  match (disk.walk? (startOf path) (allNamesOf path)).bind disk.get? with
  | some (.text _) | some (.database _) => true
  | some .directory | none => false

/-- The place of a database by the steps of its path. A directory on the way may be missing, but it
cannot be a file. -/
def resolve? (disk : Disk) (place : Place) : List (List UInt8) → Option Place
  | [] => some place
  | name :: rest =>
    if name == parentName then disk.resolve? place.dropLast rest
    else match disk.get? place with
      | some .directory => if isName name then disk.resolve? (place ++ [name]) rest else none
      | none => disk.resolve? (place ++ [name]) rest
      | some _ => none

/-- The path of a place. -/
def pathOf (place : Place) : List UInt8 := place.flatMap (47 :: ·)

/-- What making directories says when it fails. -/
def blocked : OpError := .database "create_dir" "unable to make a directory"

/-- Makes the directories that lead on from a place. -/
def makeDirectories (disk : Disk) (place : Place) :
    List (List UInt8) → Except OpError Unit × Disk
  | [] => (.ok (), disk)
  | name :: rest =>
    if name == parentName then disk.makeDirectories place.dropLast rest
    else
      let next := place ++ [name]
      match disk.get? next with
      | some .directory => disk.makeDirectories next rest
      | some _ => (.error blocked, disk)
      | none =>
        if isName name then (disk.put next .directory).makeDirectories next rest
        else (.error blocked, disk)

/-! ## Files of databases -/

/-- The database file at a place; a file of one byte at most holds a database without tables. -/
def databaseFile? (disk : Disk) (place : Place) : Option DatabaseFile :=
  match disk.get? place with
  | some (.database f) => some f
  | some (.text s) => if s.utf8ByteSize ≤ 1 then some ⟨.fresh, .fresh, false⟩ else none
  | some .directory | none => none

/-- Changes the database file at a place. -/
def modifyFile (disk : Disk) (place : Place) (change : DatabaseFile → DatabaseFile) : Disk :=
  match disk.databaseFile? place with
  | some f => disk.put place (.database (change f))
  | none => disk

/-- The disk with a log beside the file of a database. -/
def startLog (disk : Disk) (place : Place) : Disk :=
  disk.modifyFile place fun f => { f with isLogged := true }

/-- The disk with another database in a file, or in its log. -/
def write (disk : Disk) (place : Place) (d : Database) : Disk :=
  disk.modifyFile place fun f =>
    { f with current := d, settled := if f.isLogged then f.settled else d }

/-- The disk with the log of a file brought into it. -/
def settle (disk : Disk) (place : Place) : Disk :=
  match disk.get? place with
  | some (.database f) => disk.put place (.database { f with settled := f.current })
  | _ => disk

/-- The disk with the file of a database, and whether it is there. One that is missing is made, if
that is allowed, where there is a directory. -/
def reachFile (disk : Disk) (place : Place) (access : FileAccess) : Bool × Disk :=
  match disk.get? place with
  | some e => (!e.isDirectory, disk)
  | none =>
    if access = .create ∧ disk.hasDirectory place.dropLast then (true, disk.put place (.text ""))
    else (false, disk)

end Disk

end FleetSync
