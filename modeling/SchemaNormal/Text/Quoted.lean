import SchemaNormal.Text.Hidden

/-!
# Quoted text

Text in double quotes for people to read: quotes and backslashes are escaped, and every character
that has no shape of its own is spelled out, so that two different texts look different.
-/

namespace SchemaNormal.Text

def hexDigits (n : Nat) : List Char :=
  Nat.toDigits 16 n

/-- A character as it stands between the quotes. -/
def quotedChar (c : Char) : List Char :=
  if c = '\x00' then ['\\', '0']
  else if c = '\t' then ['\\', 't']
  else if c = '\r' then ['\\', 'r']
  else if c = '\n' then ['\\', 'n']
  else if c = '"' || c = '\\' then ['\\', c]
  else if isHidden c then '\\' :: 'u' :: '\x7b' :: hexDigits c.toNat ++ ['\x7d']
  else [c]

/-- Text in double quotes. -/
def quoted (s : String) : String :=
  String.ofList ('"' :: s.toList.flatMap quotedChar ++ ['"'])

end SchemaNormal.Text
