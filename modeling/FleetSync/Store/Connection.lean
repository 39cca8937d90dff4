import FleetSync.Store.Disk

/-!
# Connections to databases

A database lives in a file of a disk or in memory alone; there it is lost when it is closed, unless
whoever is connected next shares it by name. Who shares a connection can do what it could already
(`Session.sharedBy?`). Connecting to a location makes the file (`Session.connect`); opening a path
also makes the directories it lies in and the tables (`Session.openPath`). One connection is open at
a time, and it stays open if the next one fails.
-/

namespace FleetSync

/-- A database that was connected to. One in memory may have a name by which its contents can be
reached. A file may be taken to never change, and may be one beside which no log can be, or that
cannot be locked for reading. -/
inductive Target where
  | memory (name : Option (List UInt8)) (d : Database)
  | file (place : Place) (isImmutable canLog canLock : Bool)
deriving Repr, Inhabited

/-- What a connection can be shared by: a full name, and the way files of such names are kept. -/
abbrev SharedName := List UInt8 × FileSystem

/-- A connection to a database. -/
structure Connection where
  target : Target
  isReadOnly : Bool
  sharedAs : Option SharedName
deriving Repr, Inhabited

namespace Connection

/-- The database of a connection, if it can be read. -/
def database? (c : Connection) (disk : Disk) : Option Database :=
  match c.target with
  | .memory _ d => some d
  | .file place isImmutable canLog canLock => match disk.databaseFile? place with
    | none => none
    | some f =>
      if isImmutable then some f.settled
      else if !canLock || f.isLogged && !canLog then none
      else some f.current

/-- Whether the database of a connection can be written. -/
def isWritable (c : Connection) (disk : Disk) : Bool :=
  !c.isReadOnly && match c.target with
    | .memory .. => true
    | .file place .. =>
      ((disk.databaseFile? place).map (·.isLogged)).getD false || Disk.hasCompanions place

/-- The database of a connection changed. -/
def write (c : Connection) (disk : Disk) (d : Database) : Connection × Disk :=
  match c.target with
  | .memory name _ => ({ c with target := .memory name d }, disk)
  | .file place .. => (c, disk.write place d)

/-- The place of the file of a connection. -/
def place? (c : Connection) : Option Place :=
  match c.target with
  | .memory .. => none
  | .file place .. => some place

/-- The disk after a connection is closed, while another one may have the same file open. -/
def close (c : Connection) (disk : Disk) (other : Option Connection) : Disk :=
  match c.place? with
  | none => disk
  | some place => if other.bind place? = some place then disk else disk.settle place

end Connection

/-- A disk, and the connection that is open. -/
structure Session where
  disk : Disk
  connection : Option Connection
deriving Repr, Inhabited

namespace Session

/-- What connecting says when it fails. -/
def unreachable : OpError := .database "connect" "unable to open the database"

/-- What changing the tables says when the database cannot be read. -/
def unreadable : OpError := .database "migrate" "the database cannot be read"

/-- The connection that is open, if it can be shared by a name. -/
def sharedBy? (s : Session) (name : Option SharedName) : Option Connection :=
  s.connection.filter fun c => name.isSome && c.sharedAs == name

/-- The contents of the database in memory that is open, if they have a name. -/
def contentsOf? (s : Session) (name : List UInt8) : Option Database :=
  match s.connection with
  | some ⟨.memory other d, _, _⟩ => if other = some name then some d else none
  | _ => none

/-- How many bytes the name of a file may have that is not on a disk. -/
def maxMemoryNameSize : Nat := 1016

/-- A connection to a file that is not on a disk. -/
def reachMemoryFile (s : Session) (l : Location) : Except OpError Connection :=
  let sharedAs := if l.isShared then some (l.file, l.fileSystem) else none
  let isRooted := l.file.head? == some 47 || l.file.head? == some 92
  let target : Target := if 1 < l.file.length ∧ isRooted then
    .memory (some l.file) ((s.contentsOf? l.file).getD .fresh) else .memory none .fresh
  if maxMemoryNameSize < l.file.length then .error unreachable
  else .ok ((s.sharedBy? sharedAs).getD
    ⟨target, l.isImmutable || decide (l.access = .readOnly), sharedAs⟩)

/-- A connection to a database that is in no file. -/
def reachMemory (s : Session) (l : Location) : Connection :=
  let sharedAs := if l.isAddressed && l.isShared && l.file != [] then
    some (l.file, l.fileSystem) else none
  (s.sharedBy? sharedAs).getD ⟨.memory none .fresh, decide (l.access = .readOnly), sharedAs⟩

/-- A connection to the file at a place. -/
def reachFile (s : Session) (l : Location) (place : Place) : Except OpError Connection × Disk :=
  let sharedAs := if l.isShared then some (Disk.pathOf place, l.fileSystem) else none
  if Disk.maxDatabasePathSize < (Disk.pathOf place).length then (.error unreachable, s.disk)
  else match s.sharedBy? sharedAs with
    | some c => (.ok c, s.disk)
    | none =>
      let (isThere, disk) := s.disk.reachFile place l.access
      let canLog := l.fileSystem.canLog && !l.isImmutable && !l.isLockless
      let canLock := l.isLockless || Disk.canLock l.fileSystem place
      if isThere then
        (.ok ⟨.file place l.isImmutable canLog canLock,
          l.isImmutable || decide (l.access = .readOnly), sharedAs⟩, disk)
      else (.error unreachable, disk)

/-- Starts a log for a connection to a file that can have one. For this the file has to be read. -/
def startLog (disk : Disk) (c : Connection) : Except OpError Connection × Disk :=
  match c.target, c.database? disk with
  | _, none => (.error unreachable, disk)
  | .memory .., some _ => (.ok c, disk)
  | .file place _ canLog _, some _ =>
    if !canLog || ((disk.databaseFile? place).map (·.isLogged)).getD false then (.ok c, disk)
    else if c.isWritable disk then (.ok c, disk.startLog place)
    else (.error unreachable, disk)

/-- A connection to a location. -/
def reachLocation (s : Session) (l : Location) : Except OpError Connection × Disk :=
  if l.isInMemory || l.file == bytesOf Address.memoryName || l.file == [] then
    (.ok (s.reachMemory l), s.disk)
  else if l.fileSystem = .memory then (s.reachMemoryFile l, s.disk)
  else match s.disk.resolve? (Disk.startOf l.file) (Disk.stepsOf l.file) with
    | none => (.error unreachable, s.disk)
    | some place => s.reachFile l place

/-- A connection to the database a URL names. -/
def reach (s : Session) (url : String) : Except OpError Connection × Disk :=
  match (Location.ofUrl? url).map s.reachLocation with
  | none => (.error unreachable, s.disk)
  | some (.error e, disk) => (.error e, disk)
  | some (.ok c, disk) => if Location.looksInMemory url then (.ok c, disk) else startLog disk c

/-- Opens a connection in the place of the one that is open. -/
def adopt (s : Session) (c : Connection) : Session :=
  ⟨(s.connection.map (·.close s.disk (some c))).getD s.disk, some c⟩

/-- Connects to the database a URL names. -/
def connect (s : Session) (url : String) : Except OpError Unit × Session :=
  match s.reach url with
  | (.ok c, disk) => (.ok (), { s with disk }.adopt c)
  | (.error e, disk) => (.error e, { s with disk })

/-- Makes the tables of a connection's database. -/
def migrated (disk : Disk) (c : Connection) : Except OpError (Connection × Disk) := do
  let d ← (c.database? disk).elim (.error unreadable) .ok
  let made ← d.migrate (c.isWritable disk)
  return if d.isMigrated then (c, disk) else c.write disk made

/-- Opens the database at a path, with its directories and tables. What was made before a failure
stays. -/
def openPath (s : Session) (path : String) : Except OpError Unit × Session :=
  let bytes := bytesOf path
  let (made, disk) :=
    if Disk.maxPathSize ≤ bytes.length then (.error Disk.blocked, s.disk)
    else s.disk.makeDirectories (Disk.startOf bytes) (Disk.stepsOf bytes).dropLast
  let s := { s with disk }
  match made with
  | .error e => (.error e, s)
  | .ok _ => match s.reach ("sqlite:" ++ path ++ "?mode=rwc") with
    | (.error e, disk) => (.error e, { s with disk })
    | (.ok c, disk) => match migrated disk c with
      | .error e => (.error e, { s with disk := c.close disk s.connection })
      | .ok (c, disk) => (.ok (), { s with disk }.adopt c)

/-- Closes the connection that is open. -/
def close (s : Session) : Session :=
  ⟨(s.connection.map (·.close s.disk none)).getD s.disk, none⟩

/-- Writes a text into the file at a path, if there can be one. A database that is open stays as
long as its log alone holds all of it. -/
def writeText? (s : Session) (path text : String) : Option Session := do
  let bytes := bytesOf path
  let place ← s.disk.resolve? (Disk.startOf bytes) (Disk.stepsOf bytes)
  let isOpen := decide (s.connection.bind (·.place?) = some place)
  let written : Session := { s with disk := s.disk.put place (.text text) }
  match s.disk.get? place with
  | some .directory => none
  | some (.text _) => written
  | some (.database f) =>
    if isOpen && f.isLogged && f.current.isMigrated && !f.settled.isMigrated then s else written
  | none => if s.disk.hasDirectory place.dropLast then written else none

/-- Makes the tables of the database of a connection. -/
def migrate (s : Session) (c : Connection) : Except OpError Session := do
  let (c, disk) ← migrated s.disk c
  return ⟨disk, some c⟩

/-- The database of a connection. -/
def database (s : Session) (c : Connection) : Except OpError Database :=
  (c.database? s.disk).elim (.error DocumentStore.failed) .ok

/-- Writes the database of a connection. -/
def write (s : Session) (c : Connection) (d : Database) : Except OpError Session :=
  if c.isWritable s.disk then
    let (c, disk) := c.write s.disk d
    .ok ⟨disk, some c⟩
  else .error DocumentStore.failed

/-- The documents of the database of a connection, which must have its tables. -/
def documents (s : Session) (c : Connection) : Except OpError DocumentStore := do
  let d ← s.database c
  if d.isMigrated then return d.documents else throw DocumentStore.failed

/-- Writes the documents of the database of a connection. -/
def writeDocuments (s : Session) (c : Connection) (documents : DocumentStore) :
    Except OpError Session := do
  s.write c { (← s.database c) with documents }

end Session

end FleetSync
