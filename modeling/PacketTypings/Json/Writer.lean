import PacketTypings.Json.Value

/-! The compact text of a value: no blanks, members in order. -/

namespace PacketTypings.Json

def hexDigit (n : Nat) : Char := "0123456789abcdef".toList.getD n '0'

/-- Only the quote, the backslash and the control characters below the blank are escaped. -/
def escape (c : Char) : List Char :=
  if c = '"' then ['\\', '"']
  else if c = '\\' then ['\\', '\\']
  else if c = '\n' then ['\\', 'n']
  else if c = '\r' then ['\\', 'r']
  else if c = '\t' then ['\\', 't']
  else if c = '\x08' then ['\\', 'b']
  else if c = '\x0c' then ['\\', 'f']
  else if c.toNat < 32 then
    ['\\', 'u', '0', '0', hexDigit (c.toNat / 16), hexDigit (c.toNat % 16)]
  else [c]

def strChars (s : String) : List Char := '"' :: (s.toList.flatMap escape ++ ['"'])

mutual

def chars : Json → List Char
  | .null => "null".toList
  | .bool true => "true".toList
  | .bool false => "false".toList
  | .num n => n.chars
  | .str s => strChars s
  | .arr items => '[' :: (itemsChars items ++ [']'])
  | .obj members => '\x7b' :: (membersChars members ++ ['\x7d'])

def itemsChars : List Json → List Char
  | [] => []
  | [v] => v.chars
  | v :: rest => v.chars ++ ',' :: itemsChars rest

def membersChars : List (String × Json) → List Char
  | [] => []
  | [(k, v)] => strChars k ++ ':' :: v.chars
  | (k, v) :: rest => strChars k ++ ':' :: (v.chars ++ ',' :: membersChars rest)

end

def text (v : Json) : String := String.ofList v.chars

end PacketTypings.Json
