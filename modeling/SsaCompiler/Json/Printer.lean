import SsaCompiler.Binary64.Decimal
import SsaCompiler.Json.Value

/-!
# JSON text

`Json.render` writes a value without blanks. A string escapes what the grammar demands, the quote,
the backslash and the control characters; a number that is no integer is written in the fewest
digits.
-/

namespace SsaCompiler

namespace Json

def hexDigit (n : Nat) : Char := Nat.digitChar n

def escapeChar (c : Char) : List Char :=
  if c = '"' then ['\\', '"']
  else if c = '\\' then ['\\', '\\']
  else if c = '\n' then ['\\', 'n']
  else if c = '\r' then ['\\', 'r']
  else if c = '\t' then ['\\', 't']
  else if c = '\x08' then ['\\', 'b']
  else if c = '\x0c' then ['\\', 'f']
  else if c.toNat < 0x20 then
    ['\\', 'u', '0', '0', hexDigit (c.toNat / 16), hexDigit (c.toNat % 16)]
  else [c]

def renderString (text : String) : String :=
  "\"" ++ String.ofList (text.toList.flatMap escapeChar) ++ "\""

def renderNumber : Number → String
  | .integer value => toString value
  | .binary value => value.toText
  | .beyond negative => if negative then "-1e999" else "1e999"

mutual
def render : Json → String
  | .null => "null"
  | .bool true => "true"
  | .bool false => "false"
  | .number value => renderNumber value
  | .string value => renderString value
  | .array elements => "[" ++ ",".intercalate (renderElements elements) ++ "]"
  | .object members => "\x7b" ++ ",".intercalate (renderMembers members) ++ "\x7d"
  | .unreadable => "\"\\ud800\""

def renderElements : List Json → List String
  | [] => []
  | element :: rest => render element :: renderElements rest

def renderMembers : List (String × Json) → List String
  | [] => []
  | (name, value) :: rest => (renderString name ++ ":" ++ render value) :: renderMembers rest
end

end Json

end SsaCompiler
