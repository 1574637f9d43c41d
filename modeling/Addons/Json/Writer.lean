import Addons.Json.Basic
import Addons.Number.Shortest

/-!
# Writing JSON text

One line without spaces. Control characters and the line ends U+0085, U+2028 and U+2029 are escaped.
-/

namespace Addons.Json

/-- Hexadecimal digits in lower case, padded with zeros to the given count. -/
def hexDigits (count n : Nat) : String :=
  let ds := Nat.toDigits 16 n
  String.ofList (List.replicate (count - ds.length) '0' ++ ds)

def escapeChar (c : Char) : String :=
  if c = '"' then "\\\""
  else if c = '\\' then "\\\\"
  else if c = '\n' then "\\n"
  else if c.toNat < 32 || (0x7f ≤ c.toNat && c.toNat ≤ 0x9f) || c.toNat = 0x2028 || c.toNat = 0x2029 then
    "\\u" ++ hexDigits 4 c.toNat
  else c.toString

def quote (s : String) : String := s.foldl (fun out c => out ++ escapeChar c) "\"" ++ "\""

def Number.text : Number → String
  | .int i => toString i
  | .float x => x.text

mutual

/-- Append the text of a value. -/
def write (out : String) : Json → String
  | .null => out ++ "null"
  | .bool b => out ++ (if b then "true" else "false")
  | .num n => out ++ Number.text n
  | .str s => out ++ quote s
  | .arr [] => out ++ "[]"
  | .arr (j :: rest) => writeItems (write (out ++ "[") j) rest
  | .obj [] => out ++ "\x7b\x7d"
  | .obj ((k, v) :: rest) => writeFields (write (out ++ "\x7b" ++ quote k ++ ":") v) rest

def writeItems (out : String) : List Json → String
  | [] => out ++ "]"
  | j :: rest => writeItems (write (out ++ ",") j) rest

def writeFields (out : String) : List (String × Json) → String
  | [] => out ++ "\x7d"
  | (k, v) :: rest => writeFields (write (out ++ "," ++ quote k ++ ":") v) rest

end

def text (j : Json) : String := j.write ""

end Addons.Json
