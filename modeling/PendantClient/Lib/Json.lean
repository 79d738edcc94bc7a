import Mathlib.Data.Nat.Notation

/-! JSON values and their text, indented by two spaces a level and in ASCII: a character outside is escaped in UTF-16. -/

/-- A JSON value. The fields of an object are held in their order. -/
inductive Json
  | null
  | bool (b : Bool)
  | int (n : Int)
  | string (s : String)
  | array (items : List Json)
  | object (fields : List (String × Json))

namespace Json

/-- `\u` and four hexadecimal digits. -/
def escapeUnit (unit : Nat) : String :=
  "\\u" ++ String.ofList ([unit / 4096, unit / 256, unit / 16, unit].map fun n => Nat.digitChar (n % 16))

/-- A character of a string, escaped where it must be. -/
def escapeChar (c : Char) : String :=
  let n := c.toNat
  if n = 0x22 then "\\\""
  else if n = 0x5C then "\\\\"
  else if n = 0x0A then "\\n"
  else if n = 0x0D then "\\r"
  else if n = 0x09 then "\\t"
  else if n = 0x0C then "\\f"
  else if n = 0x08 then "\\b"
  else if 0x20 ≤ n ∧ n < 0x7F then String.singleton c
  else if n < 0x10000 then escapeUnit n
  else escapeUnit (0xD800 + (n - 0x10000) / 0x400) ++ escapeUnit (0xDC00 + (n - 0x10000) % 0x400)

/-- A string between quotes. -/
def quote (s : String) : String := "\"" ++ String.join (s.toList.map escapeChar) ++ "\""

/-- A new line at a depth. -/
def newline (depth : Nat) : String := "\n" ++ String.ofList (List.replicate (2 * depth) ' ')

/-- The parts of an array or an object, each on a line of its own, between brackets. -/
def bracket (opening closing : String) (depth : Nat) (parts : List String) : String :=
  if parts.isEmpty then opening ++ closing
  else opening ++ newline (depth + 1) ++ ("," ++ newline (depth + 1)).intercalate parts ++ newline depth ++ closing

mutual

/-- A value at a depth. -/
def write (depth : Nat) : Json → String
  | null => "null"
  | bool b => if b then "true" else "false"
  | int n => toString n
  | string s => quote s
  | array items => bracket "[" "]" depth (writeItems (depth + 1) items)
  | object fields => bracket "\x7b" "\x7d" depth (writeFields (depth + 1) fields)

/-- The items of an array at a depth. -/
def writeItems (depth : Nat) : List Json → List String
  | [] => []
  | item :: items => item.write depth :: writeItems depth items

/-- The fields of an object at a depth. -/
def writeFields (depth : Nat) : List (String × Json) → List String
  | [] => []
  | (name, value) :: fields => (quote name ++ ": " ++ value.write depth) :: writeFields depth fields

end

/-- The text of a value. -/
def dumps (value : Json) : String := value.write 0

example : (object [("a", array [int (-1), string "\"\x7f"]), ("b", array [])]).dumps =
    "\x7b\n  \"a\": [\n    -1,\n    \"\\\"\\u007f\"\n  ],\n  \"b\": []\n\x7d" := by decide +kernel

end Json
