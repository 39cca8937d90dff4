import FleetSync.Control.Change
import FleetSync.Control.Intake
import FleetSync.Control.Sweep
import FleetSync.Program.World

/-!
# Operations in progress at once

Any number of operations may be under way at the same time. In a move of such a system one more
operation starts, or one of them makes its next call, which is answered by the world as it is then,
in one step, or fails and does nothing (`System.move`). What the world leaves open is left to the
move: the time, whether a permission is given, whether the call fails, and which id is made, so long
as no operation was given it before (`Circumstances`). A run is a list of moves, and what is said of
the system after every such list is said of it at every moment (`System.after`).
-/

namespace FleetSync

/-- What an operation ends with. -/
inductive Outcome where
  | resource (r : Resource)
  | deletion (d : Deletion)
  | dispatch (d : DispatchOutcome)
  | count (n : Nat)
  | detachment (s : DetachSummary)
  | sweep (s : Sweep)
  | intake (i : Intake)
deriving DecidableEq, Inhabited

/-- An operation that a user, a worker or an agent asks for. -/
inductive Operation where
  | create (user : User) (scope : Scope) (input : ResourceInput)
  | update (user : User) (scope : Scope) (input : ResourceInput)
  | delete (user : User) (kind : Kind) (scope : Scope) (name : String)
  | resync (user : User) (kind : Kind) (scope : Scope) (name : String)
  | resyncScope (user : User) (scope : Scope)
  | detachScope (user : User) (scope : Scope) (purge : Bool)
  | resyncStale (age : Nat)
  /-- A message of the bus, whatever it holds. -/
  | ingest (payload : ByteArray)
  /-- A report, whatever it says. -/
  | route (report : Wire.Report)
deriving DecidableEq, Inhabited

namespace Operation

/-- What an operation does. -/
def program (p : ControlPlane) : Operation → Program Outcome
  | create user scope input => Outcome.resource <$> p.create user scope input
  | update user scope input => Outcome.resource <$> p.update user scope input
  | delete user kind scope name => Outcome.deletion <$> p.delete user kind scope name
  | resync user kind scope name => Outcome.dispatch <$> p.resync user kind scope name
  | resyncScope user scope => Outcome.count <$> p.resyncScope user scope
  | detachScope user scope purge => Outcome.detachment <$> p.detachScope user scope purge
  | resyncStale age => Outcome.sweep <$> p.resyncStale age
  | ingest payload => Outcome.intake <$> p.ingest payload
  | route report => Outcome.intake <$> p.route report

/-- Whether an operation is an update. -/
def isUpdate : Operation → Bool
  | update .. => true
  | _ => false

/-- The report that an operation takes in. -/
def report? : Operation → Option Wire.Report
  | ingest payload => (ControlPlane.readReport payload).toOption
  | route report => some report
  | _ => none

end Operation

/-- A call and its answer. -/
structure Exchange where
  call : Call
  answer : call.Answer

namespace Exchange

/-- Whether the call failed. -/
def Failed (x : Exchange) : Prop := ∃ e, x.call.failure? e = some x.answer

/-- The id that was given. -/
def id? : Exchange → Option String
  | ⟨.freshId, id⟩ => some id
  | _ => none

end Exchange

/-- An operation under way: the calls it made, in order, and what it has still to do. -/
structure Task where
  operation : Operation
  past : List Exchange
  rest : Program Outcome

/-- The operations that ever started, and the world. -/
structure System where
  world : World
  tasks : List Task

/-- What a call meets with. -/
structure Circumstances where
  time : Instant
  id : String
  permission : Except OpError Bool
  /-- How the call fails, if it does. -/
  failure : Option OpError

/-- Answers a call under some circumstances. -/
def World.reply (x : Circumstances) (c : Call) (w : World) : c.Answer × World :=
  match c with
  | .freshId => (x.id, w)
  | c => match x.failure.bind c.failure? with
    | some a => (a, w)
    | none => World.answer (fun _ _ _ => x.permission) c { w with clock := x.time }

/-- A move of a system. -/
inductive Move where
  | start (operation : Operation)
  | turn (task : Nat) (circumstances : Circumstances)

namespace System

/-- The ids that operations were given. -/
def ids (s : System) : List String := s.tasks.flatMap fun t => t.past.filterMap Exchange.id?

/-- The system once an operation made its next call. -/
def turn (s : System) (i : Nat) (x : Circumstances) : System :=
  match s.tasks[i]? with
  | some ⟨operation, past, .call c next⟩ =>
    if c = .freshId ∧ x.id ∈ s.ids then s
    else
      let (a, world) := s.world.reply x c
      ⟨world, s.tasks.set i ⟨operation, past ++ [⟨c, a⟩], next a⟩⟩
  | _ => s

/-- The system after a move. -/
def move (p : ControlPlane) (s : System) : Move → System
  | .start operation => { s with tasks := s.tasks ++ [⟨operation, [], operation.program p⟩] }
  | .turn i x => s.turn i x

/-- The system after some moves from empty stores. -/
def after (p : ControlPlane) (moves : List Move) : System :=
  moves.foldl (move p) ⟨.empty default, []⟩

/-- The documents that are stored. -/
def documents (s : System) : List StoredDocument := s.world.documents.documents

/-- A task that made some calls makes one more and gets its answer. -/
def Makes (s : System) (i : Nat) (operation : Operation) (past : List Exchange) (x : Exchange)
    (s' : System) : Prop :=
  ∃ rest rest', s.tasks[i]? = some ⟨operation, past, rest⟩ ∧
    s'.tasks = s.tasks.set i ⟨operation, past ++ [x], rest'⟩

/-- What a move does to a system. -/
inductive Step (p : ControlPlane) (s : System) : System → Prop
  | idle : Step p s s
  | start (operation : Operation) :
    Step p s { s with tasks := s.tasks ++ [⟨operation, [], operation.program p⟩] }
  | turn {i : Nat} {operation : Operation} {past : List Exchange} {c : Call}
    {next : c.Answer → Program Outcome} (x : Circumstances)
    (task : s.tasks[i]? = some ⟨operation, past, .call c next⟩)
    (fresh : c = .freshId → x.id ∉ s.ids) :
    Step p s ⟨(s.world.reply x c).2,
      s.tasks.set i ⟨operation, past ++ [⟨c, (s.world.reply x c).1⟩], next (s.world.reply x c).1⟩⟩

theorem move_step (p : ControlPlane) (s : System) (m : Move) : Step p s (s.move p m) := by
  cases m with
  | start operation => exact .start operation
  | turn i x =>
    rw [move, turn]
    split
    · rename_i operation past c next h
      split
      · exact .idle
      · rename_i hfresh
        exact .turn x h fun hc hid => hfresh ⟨hc, hid⟩
    · exact .idle

variable {p : ControlPlane}

theorem after_concat (moves : List Move) (m : Move) :
    after p (moves ++ [m]) = (after p moves).move p m := by
  rw [after, List.foldl_append]
  rfl

theorem step_after (p : ControlPlane) (moves : List Move) (m : Move) :
    Step p (after p moves) (after p (moves ++ [m])) := by
  rw [after_concat]
  exact move_step p _ m

end System

end FleetSync
