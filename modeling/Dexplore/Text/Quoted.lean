import Dexplore.Text.Invisible

/-!
# Quoted text

A string between double quotes.  Quote and backslash are escaped by a backslash, tab,
carriage return, line feed and the zero character have letters of their own, and a character
without a glyph is shown by its code point in hexadecimal.
-/

set_option autoImplicit false

namespace Dexplore.Text

def hexadecimal (n : Nat) : String := String.ofList (Nat.toDigits 16 n)

def zeroPadded (width : Nat) (text : String) : String :=
  String.ofList (List.replicate (width - text.length) '0') ++ text

def quotedChar (c : Char) : String :=
  if c = '\x00' then "\\0"
  else if c = '\t' then "\\t"
  else if c = '\r' then "\\r"
  else if c = '\n' then "\\n"
  else if c = '"' then "\\\""
  else if c = '\\' then "\\\\"
  else if isInvisible c then "\\u\x7b" ++ hexadecimal c.toNat ++ "\x7d"
  else c.toString

def quoted (text : String) : String :=
  "\"" ++ String.join (text.toList.map quotedChar) ++ "\""

end Dexplore.Text
