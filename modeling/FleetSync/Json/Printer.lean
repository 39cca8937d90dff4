import FleetSync.Json.Basic
import FleetSync.Json.Decimal

/-!
# Compact JSON text

`Json.write` puts a value's text, with no blanks and the fields in their order, in front of a list
of characters, so that the text is built in one pass. In a string only `"`, `\` and the control
characters are escaped (`escapeChar`).
-/

namespace FleetSync.Json

/-- A digit of a four-digit hexadecimal escape. -/
def hexDigit (n : Nat) : Char := Nat.digitChar (n % 16)

/-- The written form of a character inside a string. -/
def escapeChar (c : Char) : List Char :=
  if c = '"' then ['\\', '"']
  else if c = '\\' then ['\\', '\\']
  else if c = '\n' then ['\\', 'n']
  else if c = '\r' then ['\\', 'r']
  else if c = '\t' then ['\\', 't']
  else if c = '\x08' then ['\\', 'b']
  else if c = '\x0c' then ['\\', 'f']
  else if c.toNat < 32 then ['\\', 'u', '0', '0', hexDigit (c.toNat / 16), hexDigit c.toNat]
  else [c]

/-- Writes a quoted string before `rest`. -/
def writeString (s : String) (rest : List Char) : List Char :=
  '"' :: s.toList.foldr (fun c r => escapeChar c ++ r) ('"' :: rest)

/-- The text of an integer. -/
def intText (i : Int) : List Char :=
  if i < 0 then '-' :: Nat.toDigits 10 i.natAbs else Nat.toDigits 10 i.natAbs

/-- The text of a number. -/
def numberText : Number → List Char
  | .int i => intText i
  | .float x => x.text

mutual

/-- Writes a value before `rest`. -/
def write : Json → List Char → List Char
  | .null, rest => 'n' :: 'u' :: 'l' :: 'l' :: rest
  | .bool true, rest => 't' :: 'r' :: 'u' :: 'e' :: rest
  | .bool false, rest => 'f' :: 'a' :: 'l' :: 's' :: 'e' :: rest
  | .num n, rest => numberText n ++ rest
  | .str s, rest => writeString s rest
  | .arr [], rest => '[' :: ']' :: rest
  | .arr (j :: items), rest => '[' :: j.write (writeItems items rest)
  | .obj [], rest => '{' :: '}' :: rest
  | .obj ((k, j) :: fields), rest =>
    '{' :: writeString k (':' :: j.write (writeFields fields rest))

/-- Writes the further items of an array, its end and `rest`. -/
def writeItems : List Json → List Char → List Char
  | [], rest => ']' :: rest
  | j :: items, rest => ',' :: j.write (writeItems items rest)

/-- Writes the further fields of an object, its end and `rest`. -/
def writeFields : List (String × Json) → List Char → List Char
  | [], rest => '}' :: rest
  | (k, j) :: fields, rest => ',' :: writeString k (':' :: j.write (writeFields fields rest))

end

/-- The compact text of a value. -/
def text (j : Json) : String := String.ofList (j.write [])

/-- The compact text of a value in bytes. -/
def bytes (j : Json) : ByteArray := ⟨((j.write []).flatMap String.utf8EncodeChar).toArray⟩

theorem bytes_eq (j : Json) : j.bytes = j.text.toUTF8 := by
  have hbytes : j.text.toUTF8 = ((j.write []).flatMap String.utf8EncodeChar).toByteArray :=
    String.toByteArray_ofList
  rw [hbytes, ByteArray.ext_iff, List.data_toByteArray]
  rfl

end FleetSync.Json
