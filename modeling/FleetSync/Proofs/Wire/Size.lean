import FleetSync.Proofs.Store.Writing
import FleetSync.Wire.Frame

/-!
# What does not fit in a frame

A value is written with all the texts in it (`Json.textLength_le_write`), so its payload has at
least as many bytes as they have characters. If these are too many for a payload there is no frame
of the message (`Wire.Frame.ofMessage_of_lt`), as for an envelope with a label that is too long
(`Wire.Frame.ofEnvelope_of_lt`).
-/

namespace FleetSync

namespace Json

mutual

/-- How many characters the texts in a value have. -/
def textLength : Json → Nat
  | .null | .bool _ | .num _ => 0
  | .str s => s.length
  | .arr items => itemsLength items
  | .obj fields => fieldsLength fields

/-- `textLength` on the items of an array. -/
def itemsLength : List Json → Nat
  | [] => 0
  | j :: rest => j.textLength + itemsLength rest

/-- `textLength` on the fields of an object. -/
def fieldsLength : List (String × Json) → Nat
  | [] => 0
  | (_, j) :: rest => j.textLength + fieldsLength rest

end

theorem length_le_writeString (s : String) (rest : List Char) :
    s.length + rest.length ≤ (writeString s rest).length := by
  have chars : ∀ cs : List Char, cs.length + rest.length ≤
      (cs.foldr (fun c r => escapeChar c ++ r) ('"' :: rest)).length := by
    intro cs
    induction cs with
    | nil =>
      rw [List.foldr_nil, List.length_nil, List.length_cons]
      omega
    | cons c cs ih =>
      have hc : 1 ≤ (escapeChar c).length := by
        unfold escapeChar
        split_ifs <;> exact Nat.le_add_left ..
      rw [List.foldr_cons, List.length_append, List.length_cons]
      omega
  rw [writeString, List.length_cons, ← String.length_toList]
  have hs := chars s.toList
  omega

mutual

/-- A value is written with all the texts in it, before what follows. -/
theorem textLength_le_write : ∀ (j : Json) (rest : List Char),
    j.textLength + rest.length ≤ (j.write rest).length
  | .null, rest | .bool true, rest | .bool false, rest => by
    simp only [textLength, write, List.length_cons]
    omega
  | .num n, rest => by
    rw [textLength, write, List.length_append]
    omega
  | .str s, rest => length_le_writeString s rest
  | .arr [], rest => by
    simp only [textLength, itemsLength, write, List.length_cons]
    omega
  | .arr (j :: items), rest => by
    have hitems := itemsLength_le_write items rest
    have hj := textLength_le_write j (writeItems items rest)
    rw [textLength, itemsLength, write, List.length_cons]
    omega
  | .obj [], rest => by
    simp only [textLength, fieldsLength, write, List.length_cons]
    omega
  | .obj ((k, j) :: fields), rest => by
    have hfields := fieldsLength_le_write fields rest
    have hj := textLength_le_write j (writeFields fields rest)
    have hk := length_le_writeString k (':' :: j.write (writeFields fields rest))
    rw [List.length_cons] at hk
    rw [textLength, fieldsLength, write, List.length_cons]
    omega

theorem itemsLength_le_write : ∀ (items : List Json) (rest : List Char),
    itemsLength items + rest.length ≤ (writeItems items rest).length
  | [], rest => by
    rw [itemsLength, writeItems, List.length_cons]
    omega
  | j :: items, rest => by
    have hitems := itemsLength_le_write items rest
    have hj := textLength_le_write j (writeItems items rest)
    rw [itemsLength, writeItems, List.length_cons]
    omega

theorem fieldsLength_le_write : ∀ (fields : List (String × Json)) (rest : List Char),
    fieldsLength fields + rest.length ≤ (writeFields fields rest).length
  | [], rest => by
    rw [fieldsLength, writeFields, List.length_cons]
    omega
  | (k, j) :: fields, rest => by
    have hfields := fieldsLength_le_write fields rest
    have hj := textLength_le_write j (writeFields fields rest)
    have hk := length_le_writeString k (':' :: j.write (writeFields fields rest))
    rw [List.length_cons] at hk
    rw [fieldsLength, writeFields, List.length_cons]
    omega

end

theorem textLength_le_size (j : Json) : j.textLength ≤ j.bytes.size := by
  have hwrite := j.textLength_le_write []
  have hsize : (String.ofList (j.write [])).utf8ByteSize = j.bytes.size := by
    rw [bytes_eq]
    rfl
  rw [List.length_nil, Nat.add_zero] at hwrite
  exact Nat.le_trans hwrite (hsize ▸ String.length_le_utf8ByteSize (j.write []))

/-- A map to texts has each of them. -/
theorem length_le_ofStrings {m : SortedMap String} {k v : String} (h : (k, v) ∈ m.entries) :
    v.length ≤ (ofStrings m).textLength := by
  rw [ofStrings, textLength]
  revert h
  generalize m.entries = entries
  induction entries with
  | nil => exact fun h => nomatch h
  | cons p rest ih =>
    intro h
    obtain ⟨k', v'⟩ := p
    rw [List.map_cons, fieldsLength, textLength]
    rcases List.mem_cons.1 h with h | h
    · obtain ⟨-, rfl⟩ := Prod.mk.inj h
      omega
    · have := ih h
      omega

end Json

namespace Wire.Frame

/-- There is no frame of a message whose texts are too long. -/
theorem ofMessage_of_lt (type : MessageType) {message : Json}
    (h : maxPayload < message.textLength) :
    ofMessage type message = .error (.tooLarge message.bytes.size) :=
  if_pos (Nat.lt_of_lt_of_le h message.textLength_le_size)

/-- An envelope with labels that are too long does not fit in a frame. -/
theorem ofEnvelope_of_lt {e : Envelope}
    (h : maxPayload < (Json.ofStrings e.object.labels).textLength) :
    ofEnvelope e = .error (.tooLarge e.encode.bytes.size) := by
  refine ofMessage_of_lt .dispatch (Nat.lt_of_lt_of_le h ?_)
  simp only [Envelope.encode, Object.encode, Json.textLength, Json.fieldsLength]
  omega

end Wire.Frame

end FleetSync
