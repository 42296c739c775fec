/-!
Contract: JSON values and their text.

Owns:
- the values that listings are made of: numbers, texts, lists and objects;
- quoting, which escapes no more than JSON demands;
- the layout in which a value is written, compact or with one entry to a line.
-/

set_option autoImplicit false

namespace TnslReader

inductive Json where
  | number (value : Nat)
  | text (value : String)
  | list (items : List Json)
  | object (fields : List (String × Json))
deriving Repr

namespace Json

/-- The digits of a code below 256 in lower-case hexadecimal. -/
def hexByte (code : Nat) : String :=
  String.ofList [Nat.digitChar (code / 16 % 16), Nat.digitChar (code % 16)]

def escape (character : Char) : String :=
  if character = '"' then "\\\""
  else if character = '\\' then "\\\\"
  else if character = '\x08' then "\\b"
  else if character = '\x0c' then "\\f"
  else if character = '\n' then "\\n"
  else if character = '\r' then "\\r"
  else if character = '\t' then "\\t"
  else if character.toNat < 0x20 then "\\u00" ++ hexByte character.toNat
  else character.toString

def writeQuoted (out text : String) : String :=
  (text.toList.foldl (fun written character => written ++ escape character) (out ++ "\"")) ++ "\""

/-- How the parts of a value are set off from each other. -/
structure Layout where
  /-- The text before an entry, and before the bracket that closes a list of entries, at a depth. -/
  lineBreak : Nat → String
  /-- The text between a key and its value. -/
  colon : String

def Layout.compact : Layout := ⟨fun _ => "", ":"⟩

/-- One entry to a line, indented by two spaces for each depth. -/
def Layout.pretty : Layout :=
  ⟨fun depth => "\n" ++ String.ofList (List.replicate (2 * depth) ' '), ": "⟩

mutual

def write (layout : Layout) (depth : Nat) (out : String) : Json → String
  | .number value => out ++ toString value
  | .text value => writeQuoted out value
  | .list [] => out ++ "[]"
  | .list (item :: items) =>
      writeItems layout (depth + 1)
        (write layout (depth + 1) (out ++ "[" ++ layout.lineBreak (depth + 1)) item) items ++
        layout.lineBreak depth ++ "]"
  | .object [] => out ++ "\x7b\x7d"
  | .object (field :: fields) =>
      writeFields layout (depth + 1)
        (writeField layout (depth + 1) (out ++ "\x7b" ++ layout.lineBreak (depth + 1)) field)
        fields ++ layout.lineBreak depth ++ "\x7d"

def writeItems (layout : Layout) (depth : Nat) (out : String) : List Json → String
  | [] => out
  | item :: items =>
      writeItems layout depth
        (write layout depth (out ++ "," ++ layout.lineBreak depth) item) items

def writeField (layout : Layout) (depth : Nat) (out : String) : String × Json → String
  | (key, value) => write layout depth (writeQuoted out key ++ layout.colon) value

def writeFields (layout : Layout) (depth : Nat) (out : String) : List (String × Json) → String
  | [] => out
  | field :: fields =>
      writeFields layout depth
        (writeField layout depth (out ++ "," ++ layout.lineBreak depth) field) fields

end

def compact (json : Json) : String :=
  write .compact 0 "" json

def pretty (json : Json) : String :=
  write .pretty 0 "" json

end Json

end TnslReader
