import FleetSync.Program.Call

/-!
# Programs

An operation is a program: it is done, or it makes a call and goes on with the answer. So what an
operation does under any answers and between any others' calls is a matter of finite trees
(`Program`), and a run against a world is one way through such a tree (`Program.run`). Programs form
a lawful monad that stops at the first error.
-/

namespace FleetSync

/-- An operation that ends with a result or an error. -/
inductive Program (α : Type) where
  | done (r : Except OpError α)
  | call (c : Call) (next : c.Answer → Program α)

namespace Program

variable {α β σ : Type}

/-- Goes on with the result of a program, unless it failed. -/
def bind : Program α → (α → Program β) → Program β
  | done (.ok a), f => f a
  | done (.error e), _ => done (.error e)
  | call c next, f => call c fun answer => (next answer).bind f

instance : Monad Program where
  pure a := done (.ok a)
  bind := bind

@[simp] theorem pure_eq (a : α) : (pure a : Program α) = done (.ok a) := rfl

@[simp] theorem done_ok_bind (a : α) (f : α → Program β) : done (.ok a) >>= f = f a := rfl

@[simp] theorem done_error_bind (e : OpError) (f : α → Program β) :
    done (.error e) >>= f = done (.error e) := rfl

@[simp] theorem call_bind (c : Call) (next : c.Answer → Program α) (f : α → Program β) :
    call c next >>= f = call c fun answer => next answer >>= f := rfl

theorem bind_pure (p : Program α) : p >>= pure = p := by
  induction p with
  | done r => cases r <;> rfl
  | call c next ih => simp only [call_bind, ih]

theorem bind_assoc {γ : Type} (p : Program α) (f : α → Program β) (g : β → Program γ) :
    p >>= f >>= g = p >>= fun a => f a >>= g := by
  induction p with
  | done r => cases r <;> rfl
  | call c next ih => simp only [call_bind, ih]

instance : LawfulMonad Program :=
  LawfulMonad.mk' Program bind_pure (fun _ _ => rfl) bind_assoc

/-- The program that fails. -/
def fail (e : OpError) : Program α := done (.error e)

/-- A result that is already known. -/
def ofExcept (r : Except OpError α) : Program α := done r

/-- The program that hands on its error as a result. -/
def attempt : Program α → Program (Except OpError α)
  | done r => done (.ok r)
  | call c next => call c fun answer => (next answer).attempt

/-- Adds up what a program counts for each item, in order. -/
def total (count : α → Program Nat) : List α → Program Nat
  | [] => pure 0
  | a :: rest => do
    let n ← count a
    let m ← total count rest
    return n + m

/-- Runs a program for each item, in order. -/
def forEach (act : α → Program Unit) : List α → Program Unit
  | [] => pure ()
  | a :: rest => do
    act a
    forEach act rest

/-- Runs a program against a world that answers its calls. -/
def run (answer : (c : Call) → σ → c.Answer × σ) : Program α → σ → Except OpError α × σ
  | done r, world => (r, world)
  | call c next, world =>
    let (a, world) := answer c world
    (next a).run answer world

section Run

variable (answer : (c : Call) → σ → c.Answer × σ)

@[simp] theorem run_done (r : Except OpError α) (world : σ) :
    (done r).run answer world = (r, world) := rfl

@[simp] theorem run_call (c : Call) (next : c.Answer → Program α) (world : σ) :
    (call c next).run answer world =
      (next (answer c world).1).run answer (answer c world).2 := rfl

theorem run_bind (p : Program α) (f : α → Program β) (world : σ) :
    (p >>= f).run answer world = match p.run answer world with
      | (.ok a, world) => (f a).run answer world
      | (.error e, world) => (.error e, world) := by
  induction p generalizing world with
  | done r => cases r <;> rfl
  | call c next ih => simp only [call_bind, run_call, ih]

theorem run_attempt (p : Program α) (world : σ) :
    p.attempt.run answer world =
      (.ok (p.run answer world).1, (p.run answer world).2) := by
  induction p generalizing world with
  | done r => rfl
  | call c next ih => simp only [attempt, run_call, ih]

end Run

/-! ## Single calls -/

/-- The time. -/
def now : Program Instant := call .now fun t => pure t

/-- An id that was never given before. -/
def freshId : Program String := call .freshId fun id => pure id

/-- Makes sure that a user has a permission. -/
def authorize (userId : String) (resource : ResourceRef) (permission : Permission) : Program Unit :=
  call (.authorize userId resource permission) fun r =>
    done (Checker.verdict userId resource permission r)

/-- Inserts a document. -/
def insert (d : Document) : Program Unit := call (.insert d) done

/-- Patches the first document that meets a filter; says whether there was one. -/
def patchOne (collection : String) (filter : Filter) (patch : Patch) : Program Bool :=
  call (.patchOne collection filter patch) done

/-- The first document that meets a filter. -/
def findOne (collection : String) (filter : Filter) : Program (Option Json) :=
  call (.findOne collection filter) done

/-- The documents that meet a filter. -/
def find (collection : String) (filter : Filter) : Program (List Json) :=
  call (.find collection filter) done

/-- Deletes the first document that meets a filter; says whether there was one. -/
def deleteOne (collection : String) (filter : Filter) : Program Bool :=
  call (.deleteOne collection filter) done

/-- Deletes the documents that meet a filter; counts them. -/
def deleteMany (collection : String) (filter : Filter) : Program Nat :=
  call (.deleteMany collection filter) done

/-- Files a mapping under its key. -/
def upsert (m : Mapping) : Program Unit := call (.upsert m) done

/-- The cluster of a scope. -/
def resolve (s : Scope) : Program (Option String) := call (.resolve s) done

/-- Removes the mapping of a key; counts the rows. -/
def removeMapping (k : MappingKey) : Program Nat := call (.removeMapping k) done

/-- Removes the mappings of a scope; counts them. -/
def removeScope (s : Scope) : Program Nat := call (.removeScope s) done

/-- Moves the mappings of a scope to a cluster; counts them. -/
def reassignScope (s : Scope) (cluster : String) : Program Nat :=
  call (.reassignScope s cluster) done

/-- Publishes a message; gives its offset. -/
def publish (topic key : String) (payload : ByteArray) : Program Nat :=
  call (.publish topic key payload) done

/-- Tells subscribers of a change. -/
def emit (kind : EventKind) (r : Resource) : Program Unit := call (.emit (.of kind r)) pure

end Program

end FleetSync
