/-! Blanks and hexadecimal digits. -/

namespace PacketTypings.Text

def isBlank (c : Char) : Bool := c = ' ' || c = '\t'

def hexValue? (c : Char) : Option Nat :=
  if '0' ≤ c ∧ c ≤ '9' then some (c.toNat - '0'.toNat)
  else if 'a' ≤ c ∧ c ≤ 'f' then some (c.toNat - 'a'.toNat + 10)
  else if 'A' ≤ c ∧ c ≤ 'F' then some (c.toNat - 'A'.toNat + 10)
  else none

end PacketTypings.Text
