import PacketTypings.Text.Hidden

/-! A text between double quotes, on one line and with nothing hidden in it. -/

namespace PacketTypings.Text

/-- The hexadecimal digits of `n`, without leading zeros. -/
def hexDigits (n : Nat) : List Char := Nat.toDigits 16 n

def showChar (c : Char) : List Char :=
  if c = '"' ∨ c = '\\' then ['\\', c]
  else if c = '\n' then ['\\', 'n']
  else if c = '\r' then ['\\', 'r']
  else if c = '\t' then ['\\', 't']
  else if c = '\x00' then ['\\', '0']
  else if isHidden c then '\\' :: 'u' :: '\x7b' :: (hexDigits c.toNat ++ ['\x7d'])
  else [c]

def quoted (s : String) : String := String.ofList ('"' :: (s.toList.flatMap showChar ++ ['"']))

/-- A list of quoted texts. -/
def quotedList (texts : List String) : String :=
  "[" ++ String.intercalate ", " (texts.map quoted) ++ "]"

end PacketTypings.Text
