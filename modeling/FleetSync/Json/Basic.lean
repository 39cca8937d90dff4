import FleetSync.Json.Binary64

/-!
# JSON values

A `Json` value keeps the order of an object's fields, since a stored document's text shows it. The
canonical form (`Json.canonical`) has every object's fields sorted by key with the last of equal
keys kept (`Fields.insert`, `Fields.ofList`).
-/

namespace FleetSync

/-- A JSON number: an integer of the 64-bit ranges or a binary64 number. -/
inductive Number where
  | int (i : Int)
  | float (x : Binary64)
deriving DecidableEq, Repr, Inhabited

/-- A JSON value. -/
inductive Json where
  | null
  | bool (b : Bool)
  | num (n : Number)
  | str (s : String)
  | arr (items : List Json)
  | obj (fields : List (String × Json))
deriving Repr, Inhabited

namespace Fields

variable {α : Type}

/-- The first field of a key. -/
def get? (key : String) : List (String × α) → Option α
  | [] => none
  | (k, v) :: rest => if k = key then some v else get? key rest

/-- Puts a field into fields sorted by key, in the place of one with the same key. -/
def insert (key : String) (value : α) : List (String × α) → List (String × α)
  | [] => [(key, value)]
  | (k, v) :: rest =>
    if key < k then (key, value) :: (k, v) :: rest
    else if key = k then (key, value) :: rest
    else (k, v) :: insert key value rest

/-- The fields sorted by key; of equal keys the last one counts. -/
def ofList (fields : List (String × α)) : List (String × α) :=
  fields.foldl (fun acc (k, v) => insert k v acc) []

/-- Replaces the value of a key, or adds the key at the end. -/
def alter (key : String) (f : Option α → α) : List (String × α) → List (String × α)
  | [] => [(key, f none)]
  | (k, v) :: rest => if k = key then (k, f (some v)) :: rest else (k, v) :: alter key f rest

theorem get?_alter (key k : String) (f : Option α → α) (fields : List (String × α)) :
    get? k (alter key f fields) =
      if k = key then some (f (get? key fields)) else get? k fields := by
  induction fields with
  | nil => by_cases h : key = k <;> simp [alter, get?, h, eq_comm]
  | cons head rest ih =>
    obtain ⟨name, value⟩ := head
    by_cases hn : name = key <;> by_cases hk : k = key <;> by_cases hkn : name = k <;>
      simp_all [alter, get?]

/-- Fields with strictly increasing keys. -/
def Sorted (fields : List (String × α)) : Prop := fields.Pairwise (·.1 < ·.1)

theorem mem_insert {key : String} {value : α} {fields : List (String × α)} {p : String × α}
    (h : p ∈ insert key value fields) : p = (key, value) ∨ p ∈ fields := by
  induction fields with
  | nil => simpa [insert] using h
  | cons q rest ih =>
    simp only [insert] at h
    split at h
    · simpa using h
    · split at h
      · rcases List.mem_cons.1 h with h | h
        · exact .inl h
        · exact .inr (List.mem_cons_of_mem _ h)
      · rcases List.mem_cons.1 h with h | h
        · exact .inr (h ▸ List.mem_cons_self ..)
        · exact (ih h).imp_right (List.mem_cons_of_mem _)

theorem sorted_insert {key : String} {value : α} {fields : List (String × α)}
    (h : Sorted fields) : Sorted (insert key value fields) := by
  induction fields with
  | nil => simp [insert, Sorted]
  | cons q rest ih =>
    obtain ⟨k, v⟩ := q
    obtain ⟨hk, hr⟩ := List.pairwise_cons.1 h
    simp only [insert]
    split
    · next hlt =>
      refine List.pairwise_cons.2 ⟨fun p hp => ?_, h⟩
      rcases List.mem_cons.1 hp with rfl | hp
      · exact hlt
      · exact String.lt_trans hlt (hk p hp)
    · split
      · next heq => exact List.pairwise_cons.2 ⟨fun p hp => heq ▸ hk p hp, hr⟩
      · next hlt hne =>
        refine List.pairwise_cons.2 ⟨fun p hp => ?_, ih hr⟩
        rcases mem_insert hp with rfl | hp
        · exact Decidable.byContradiction fun h =>
            hne (String.le_antisymm (String.not_lt.1 h) (String.not_lt.1 hlt))
        · exact hk p hp

theorem sorted_ofList (fields : List (String × α)) : Sorted (ofList fields) := by
  have : ∀ (acc : List (String × α)), Sorted acc →
      Sorted (fields.foldl (fun acc (k, v) => insert k v acc) acc) := by
    induction fields with
    | nil => exact fun _ h => h
    | cons p rest ih => exact fun acc h => ih _ (sorted_insert h)
  exact this [] List.Pairwise.nil

end Fields

/-- A map from strings, its entries sorted by key. -/
structure SortedMap (α : Type) where
  entries : List (String × α)
  sorted : Fields.Sorted entries

namespace SortedMap

variable {α : Type}

/-- The empty map. -/
def empty : SortedMap α := ⟨[], List.Pairwise.nil⟩

instance : Inhabited (SortedMap α) := ⟨empty⟩

instance : EmptyCollection (SortedMap α) := ⟨empty⟩

instance [DecidableEq α] : DecidableEq (SortedMap α) := fun a b =>
  decidable_of_iff (a.entries = b.entries) (by cases a; cases b; simp)

instance [Repr α] : Repr (SortedMap α) := ⟨fun m n => reprPrec m.entries n⟩

/-- Sets the value of a key. -/
def insert (m : SortedMap α) (key : String) (value : α) : SortedMap α :=
  ⟨Fields.insert key value m.entries, Fields.sorted_insert m.sorted⟩

/-- The value of a key. -/
def get? (m : SortedMap α) (key : String) : Option α := Fields.get? key m.entries

/-- The map of a list of pairs; of equal keys the last one counts. -/
def ofList (pairs : List (String × α)) : SortedMap α :=
  ⟨Fields.ofList pairs, Fields.sorted_ofList pairs⟩

end SortedMap

namespace Json

mutual

/-- Decides whether two values are equal. -/
protected def decEq : (a b : Json) → Decidable (a = b)
  | .null, .null => isTrue rfl
  | .null, .bool _ | .null, .num _ | .null, .str _ | .null, .arr _ | .null, .obj _ => isFalse nofun
  | .bool a, .bool b => decidable_of_iff (a = b) (by simp)
  | .bool _, .null | .bool _, .num _ | .bool _, .str _ | .bool _, .arr _ | .bool _, .obj _ =>
    isFalse nofun
  | .num a, .num b => decidable_of_iff (a = b) (by simp)
  | .num _, .null | .num _, .bool _ | .num _, .str _ | .num _, .arr _ | .num _, .obj _ =>
    isFalse nofun
  | .str a, .str b => decidable_of_iff (a = b) (by simp)
  | .str _, .null | .str _, .bool _ | .str _, .num _ | .str _, .arr _ | .str _, .obj _ =>
    isFalse nofun
  | .arr a, .arr b => match Json.decEqItems a b with
    | isTrue h => isTrue (by rw [h])
    | isFalse h => isFalse (by simpa using h)
  | .arr _, .null | .arr _, .bool _ | .arr _, .num _ | .arr _, .str _ | .arr _, .obj _ =>
    isFalse nofun
  | .obj a, .obj b => match Json.decEqFields a b with
    | isTrue h => isTrue (by rw [h])
    | isFalse h => isFalse (by simpa using h)
  | .obj _, .null | .obj _, .bool _ | .obj _, .num _ | .obj _, .str _ | .obj _, .arr _ =>
    isFalse nofun

/-- Decides whether two lists of values are equal. -/
protected def decEqItems : (a b : List Json) → Decidable (a = b)
  | [], [] => isTrue rfl
  | [], _ :: _ | _ :: _, [] => isFalse nofun
  | a :: as, b :: bs => match Json.decEq a b, Json.decEqItems as bs with
    | isTrue h, isTrue hs => isTrue (by rw [h, hs])
    | isFalse h, _ => isFalse (by simp [h])
    | _, isFalse h => isFalse (by simp [h])

/-- Decides whether two lists of fields are equal. -/
protected def decEqFields : (a b : List (String × Json)) → Decidable (a = b)
  | [], [] => isTrue rfl
  | [], _ :: _ | _ :: _, [] => isFalse nofun
  | (k, a) :: as, (l, b) :: bs => match decEq k l, Json.decEq a b, Json.decEqFields as bs with
    | isTrue hk, isTrue h, isTrue hs => isTrue (by rw [hk, h, hs])
    | isFalse h, _, _ => isFalse (by simp [h])
    | _, isFalse h, _ => isFalse (by simp [h])
    | _, _, isFalse h => isFalse (by simp [h])

end

instance : DecidableEq Json := Json.decEq

/-- The integer `i` as a value. -/
def ofInt (i : Int) : Json := .num (.int i)

/-- The value of an optional one, `null` for none. -/
def ofOption {α : Type} (encode : α → Json) : Option α → Json
  | none => .null
  | some a => encode a

/-- The object of a map to strings. -/
def ofStrings (m : SortedMap String) : Json := .obj (m.entries.map fun (k, v) => (k, .str v))

mutual

/-- The value with every object's fields sorted by key and without repeated keys. -/
def canonical : Json → Json
  | .arr items => .arr (canonicalItems items)
  | .obj fields => .obj (Fields.ofList (canonicalFields fields))
  | j => j

/-- `canonical` on the items of an array. -/
def canonicalItems : List Json → List Json
  | [] => []
  | j :: rest => j.canonical :: canonicalItems rest

/-- `canonical` on the values of an object. -/
def canonicalFields : List (String × Json) → List (String × Json)
  | [] => []
  | (k, j) :: rest => (k, j.canonical) :: canonicalFields rest

end

/-- The field of an object. -/
def field? (key : String) : Json → Option Json
  | .obj fields => Fields.get? key fields
  | _ => none

end Json

end FleetSync
