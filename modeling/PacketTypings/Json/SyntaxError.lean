import PacketTypings.Json.Cursor

/-! What can be wrong with a text, and where. -/

namespace PacketTypings.Json

inductive Problem where
  | endInValue | endInList | endInObject | endInString
  | noValue | badWord
  | noColon | noCommaOrBracket | noCommaOrBrace | keyNotString | trailingComma | trailingText
  | badNumber | numberTooLarge
  | badEscape | halfEscape | loneSurrogate | controlCharacter
  | tooDeep
deriving DecidableEq, Repr

def Problem.message : Problem → String
  | endInValue => "EOF while parsing a value"
  | endInList => "EOF while parsing a list"
  | endInObject => "EOF while parsing an object"
  | endInString => "EOF while parsing a string"
  | noValue => "expected value"
  | badWord => "expected ident"
  | noColon => "expected `:`"
  | noCommaOrBracket => "expected `,` or `]`"
  | noCommaOrBrace => "expected `,` or `\x7d`"
  | keyNotString => "key must be a string"
  | trailingComma => "trailing comma"
  | trailingText => "trailing characters"
  | badNumber => "invalid number"
  | numberTooLarge => "number out of range"
  | badEscape => "invalid escape"
  | halfEscape => "unexpected end of hex escape"
  | loneSurrogate => "lone leading surrogate in hex escape"
  | controlCharacter => "control character (\\u0000-\\u001F) found while parsing a string"
  | tooDeep => "recursion limit exceeded"

structure SyntaxError where
  problem : Problem
  place : Place
deriving DecidableEq, Repr

def SyntaxError.message (e : SyntaxError) : String :=
  e.problem.message ++ " at line " ++ toString e.place.line ++ " column " ++
    toString e.place.column

/-- What was read and where it ends, with fewer than `n` characters left; or the first problem. -/
abbrev Bounded (α : Type) (n : Nat) :=
  Except SyntaxError { r : α × Cursor // r.2.rest.length < n }

/-- A reading that starts at `c` takes at least one character. -/
abbrev Reading (α : Type) (c : Cursor) := Bounded α c.rest.length

def Bounded.widen {α : Type} {n m : Nat} (h : n ≤ m) : Bounded α n → Bounded α m
  | .ok ⟨r, hr⟩ => .ok ⟨r, Nat.lt_of_lt_of_le hr h⟩
  | .error e => .error e

/-- A character before the reading only adds to what it takes. -/
def Bounded.succ {α : Type} {n : Nat} (r : Bounded α n) : Bounded α (n + 1) :=
  r.widen (Nat.le_succ n)

end PacketTypings.Json
