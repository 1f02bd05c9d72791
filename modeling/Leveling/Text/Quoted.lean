import Leveling.Text.Extending
import Leveling.Text.Invisible
import Leveling.Text.Unassigned

/-!
# Quoted text

A text inside a message is put between double quotes.  The quote itself, the backslash and
the characters that do not print are written as escapes, so that the message shows exactly
which text was meant.
-/

namespace Leveling

namespace Quoted

/-- Whether a character stands for itself inside quotes: it has a place of its own, and something to
be seen there.  The space of ASCII is the only blank that does. -/
def isPrintable (c : Char) : Bool :=
  if c.toNat < 0x80 then 0x20 ≤ c.toNat && c.toNat < 0x7f
  else !(CharTable.extending.contains c || CharTable.unassigned.contains c ||
    CharTable.invisible.contains c)

/-- The character in the form it takes inside quotes. -/
def escape (c : Char) : List Char :=
  if c = '"' then ['\\', '"']
  else if c = '\\' then ['\\', '\\']
  else if c = '\n' then ['\\', 'n']
  else if c = '\r' then ['\\', 'r']
  else if c = '\t' then ['\\', 't']
  else if c.toNat = 0 then ['\\', '0']
  else if isPrintable c then [c]
  else ['\\', 'u', '\x7b'] ++ Nat.toDigits 16 c.toNat ++ ['\x7d']

/-- The text between double quotes. -/
def quote (text : String) : String :=
  String.ofList ('"' :: text.toList.flatMap escape ++ ['"'])

end Quoted

end Leveling
