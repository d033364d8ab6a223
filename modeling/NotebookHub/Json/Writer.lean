import NotebookHub.Json.Value
import NotebookHub.Text.Hex

namespace NotebookHub.Json

def escapedUnit (n : Nat) : List Char :=
  ['\\', 'u', Text.hexLower (n / 4096 % 16), Text.hexLower (n / 256 % 16),
   Text.hexLower (n / 16 % 16), Text.hexLower (n % 16)]

def escaped (c : Char) : List Char :=
  if c == '"' then ['\\', '"']
  else if c == '\\' then ['\\', '\\']
  else if c == '\n' then ['\\', 'n']
  else if c == '\r' then ['\\', 'r']
  else if c == '\t' then ['\\', 't']
  else if c == '\x08' then ['\\', 'b']
  else if c == '\x0c' then ['\\', 'f']
  else if 0x20 ≤ c.toNat && c.toNat ≤ 0x7E then [c]
  else if c.toNat < 0x10000 then escapedUnit c.toNat
  else
    escapedUnit (0xD800 + (c.toNat - 0x10000) / 1024) ++
      escapedUnit (0xDC00 + (c.toNat - 0x10000) % 1024)

def quoted (s : String) : String :=
  String.ofList ('"' :: (s.toList.flatMap escaped ++ ['"']))

def braces (inner : String) : String := "\x7b" ++ inner ++ "\x7d"

mutual

def compact : Json → String
  | .null => "null"
  | .bool b => if b then "true" else "false"
  | .int n => toString n
  | .real x => x.spelled "Infinity" "NaN"
  | .str s => quoted s
  | .arr vs => "[" ++ ", ".intercalate (compactItems vs) ++ "]"
  | .obj ms => braces (", ".intercalate (compactMembers ms))

def compactItems : List Json → List String
  | [] => []
  | v :: vs => compact v :: compactItems vs

def compactMembers : List (String × Json) → List String
  | [] => []
  | (name, v) :: ms => (quoted name ++ ": " ++ compact v) :: compactMembers ms

end

def lineBreak (depth : Nat) : String := "\n" ++ String.ofList (List.replicate (2 * depth) ' ')

def block (depth : Nat) (opening closing : String) (parts : List String) : String :=
  if parts.isEmpty then opening ++ closing
  else
    opening ++ lineBreak (depth + 1) ++ ("," ++ lineBreak (depth + 1)).intercalate parts ++
      lineBreak depth ++ closing

mutual

def indented (depth : Nat) : Json → String
  | .arr vs => block depth "[" "]" (indentedItems (depth + 1) vs)
  | .obj ms =>
    block depth "\x7b" "\x7d"
      (((indentedMembers (depth + 1) ms).mergeSort fun a b => a.1 ≤ b.1).map fun m =>
        quoted m.1 ++ ": " ++ m.2)
  | v => compact v

def indentedItems (depth : Nat) : List Json → List String
  | [] => []
  | v :: vs => indented depth v :: indentedItems depth vs

def indentedMembers (depth : Nat) : List (String × Json) → List (String × String)
  | [] => []
  | (name, v) :: ms => (name, indented depth v) :: indentedMembers depth ms

end

end NotebookHub.Json
