import Voxel.Json.Basic
/-!
The text of a JSON value, on one line or indented by two blanks a level. Texts escape the quote,
the backslash and the characters below the blank, and nothing else.
-/
namespace Voxel.Json

def hexDigit (n : Nat) : Char := (Nat.toDigits 16 n).headD '0'

def escaped (c : Char) : List Char :=
  if c = '"' then ['\\', '"']
  else if c = '\\' then ['\\', '\\']
  else if c = '\x08' then ['\\', 'b']
  else if c = '\x0c' then ['\\', 'f']
  else if c = '\n' then ['\\', 'n']
  else if c = '\r' then ['\\', 'r']
  else if c = '\t' then ['\\', 't']
  else if c.toNat < 0x20 then
    ['\\', 'u', '0', '0', hexDigit (c.toNat / 16), hexDigit (c.toNat % 16)]
  else [c]

def quoted (s : String) : String := "\"" ++ String.ofList (s.toList.flatMap escaped) ++ "\""

mutual

def compact : Json → String
  | .null => "null"
  | .bool true => "true"
  | .bool false => "false"
  | .number (.whole n) => n.repr
  | .number .other => "null"
  | .string (some s) => quoted s
  | .string none => "null"
  | .array items _ => "[" ++ ",".intercalate (compactItems items) ++ "]"
  | .object fields _ => "\x7b" ++ ",".intercalate (compactFields fields) ++ "\x7d"
  | .broken => "null"

def compactItems : List Json → List String
  | [] => []
  | j :: rest => j.compact :: compactItems rest

def compactFields : List (Option String × Json) → List String
  | [] => []
  | (k, j) :: rest => (quoted (k.getD "") ++ ":" ++ j.compact) :: compactFields rest

end

def newline (level : Nat) : String := "\n" ++ "".pushn ' ' (2 * level)

mutual

/-- The text of a value with each item and field on a line of its own. -/
def pretty (level : Nat) : Json → String
  | .array (j :: rest) _ =>
    "[" ++ ",".intercalate (prettyItems (level + 1) (j :: rest)) ++ newline level ++ "]"
  | .object (f :: rest) _ =>
    "\x7b" ++ ",".intercalate (prettyFields (level + 1) (f :: rest)) ++ newline level ++ "\x7d"
  | j => j.compact

def prettyItems (level : Nat) : List Json → List String
  | [] => []
  | j :: rest => (newline level ++ j.pretty level) :: prettyItems level rest

def prettyFields (level : Nat) : List (Option String × Json) → List String
  | [] => []
  | (k, j) :: rest =>
    (newline level ++ quoted (k.getD "") ++ ": " ++ j.pretty level) :: prettyFields level rest

end

end Voxel.Json
