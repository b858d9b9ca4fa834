import Mathlib.Algebra.Ring.Nat
import Mathlib.Data.List.Basic

/-!
# JSON values

The values that JSON texts stand for, the text that `JSON.stringify` makes of one, and the text that
one is converted to.
-/

namespace NestifyClaw

/-- A number is given by its text. -/
inductive Json
  | null
  | bool (value : Bool)
  | number (token : String)
  | string (text : String)
  | array (elements : List Json)
  | object (properties : List (String × Json))

/-- The number of UTF-16 code units, which is what JavaScript calls a text's length. -/
def utf16Length (text : String) : Nat :=
  (text.toList.map fun c => if c.val < 0x10000 then 1 else 2).sum

namespace Json

def hexDigits (n : Nat) : List Char :=
  [Nat.digitChar (n / 4096 % 16), Nat.digitChar (n / 256 % 16), Nat.digitChar (n / 16 % 16),
    Nat.digitChar (n % 16)]

def escape (c : Char) : List Char :=
  if c = '"' then ['\\', '"']
  else if c = '\\' then ['\\', '\\']
  else if c = '\x08' then ['\\', 'b']
  else if c = '\t' then ['\\', 't']
  else if c = '\n' then ['\\', 'n']
  else if c = '\x0c' then ['\\', 'f']
  else if c = '\r' then ['\\', 'r']
  else if c.val < 0x20 then ['\\', 'u'] ++ hexDigits c.toNat
  else [c]

def quote (text : String) : List Char := '"' :: text.toList.flatMap escape ++ ['"']

mutual

def print : Json → List Char
  | null => "null".toList
  | bool true => "true".toList
  | bool false => "false".toList
  | number token => token.toList
  | string text => quote text
  | array elements => '[' :: printElements elements ++ [']']
  | object properties => '\x7b' :: printProperties properties ++ ['\x7d']

def printElements : List Json → List Char
  | [] => []
  | [v] => print v
  | v :: vs => print v ++ ',' :: printElements vs

def printProperties : List (String × Json) → List Char
  | [] => []
  | [(key, v)] => quote key ++ ':' :: print v
  | (key, v) :: rest => quote key ++ ':' :: print v ++ ',' :: printProperties rest

end

def stringify (v : Json) : String := String.ofList v.print

mutual

/-- The text that a value is converted to. -/
def toText : Json → String
  | .null => "null"
  | .bool value => if value then "true" else "false"
  | .number token => token
  | .string text => text
  | .array elements => ",".intercalate (elementTexts elements)
  | .object _ => "[object Object]"

/-- What `join` puts together. -/
def elementTexts : List Json → List String
  | [] => []
  | .null :: elements => "" :: elementTexts elements
  | v :: elements => v.toText :: elementTexts elements

end

end Json

end NestifyClaw
