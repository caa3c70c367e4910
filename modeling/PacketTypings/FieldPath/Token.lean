import PacketTypings.Text.Char

/-! The tokens of a path. Blanks end a word and are dropped. -/

namespace PacketTypings.FieldPath

/-- Each token knows how many characters stand before it. -/
inductive Token where
  | bars (offset : Nat)
  | slash (offset : Nat)
  | word (offset : Nat) (chars : List Char)
deriving DecidableEq, Repr

namespace Token

def offset : Token → Nat
  | bars n => n
  | slash n => n
  | word n _ => n

/-- A character before a word that starts right after it becomes part of that word. -/
def consChar (n : Nat) (c : Char) : List Token → List Token
  | word m cs :: rest =>
    if m = n + 1 then word n (c :: cs) :: rest else word n [c] :: word m cs :: rest
  | rest => word n [c] :: rest

/-- The tokens of a text with `n` characters before it. A bar alone belongs to a word. -/
def scan (n : Nat) : List Char → List Token
  | [] => []
  | '|' :: '|' :: cs => bars n :: scan (n + 2) cs
  | c :: cs =>
    if c = '/' then slash n :: scan (n + 1) cs
    else if Text.isBlank c then scan (n + 1) cs
    else consChar n c (scan (n + 1) cs)

end Token
end PacketTypings.FieldPath
