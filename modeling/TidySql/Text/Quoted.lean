import TidySql.Text.Unshown

/-! Quoted text, as messages show it.
The quotes and what they hold can be told apart, and every character is visible. -/
namespace TidySql.Text

def hexadecimal (n : Nat) : List Char := Nat.toDigits 16 n

def showChar (c : Char) : List Char :=
  if c = '\x00' then ['\\', '0']
  else if c = '\t' then ['\\', 't']
  else if c = '\n' then ['\\', 'n']
  else if c = '\r' then ['\\', 'r']
  else if c = '\\' then ['\\', '\\']
  else if c = '\x22' then ['\\', '\x22']
  else if isUnshown c then ['\\', 'u', '\x7b'] ++ hexadecimal c.toNat ++ ['\x7d']
  else [c]

def quoted (cs : List Char) : List Char := '\x22' :: cs.flatMap showChar ++ ['\x22']

end TidySql.Text
