import PacketTypings.TypeTerm.Basic

/-! The text of a type. An operand stands in parentheses where it would otherwise be read as
something else: brackets bind tighter than `&`, and `&` tighter than `|`. -/

namespace PacketTypings

def isIdentifierStart (c : Char) : Bool := c.isAlpha || c = '_' || c = '$'

def isIdentifierPart (c : Char) : Bool := c.isAlphanum || c = '_' || c = '$'

/-- Only names of ASCII letters, digits, `_` and `$` are written bare. -/
def isIdentifier : List Char → Bool
  | [] => false
  | c :: cs => isIdentifierStart c && cs.all isIdentifierPart

def quote : Char := '\x27'

def escapeLiteral (c : Char) : List Char :=
  if c = quote ∨ c = '\\' then ['\\', c]
  else if c = '\n' then "\\n".toList
  else if c = '\r' then "\\r".toList
  else if c = '\u2028' then "\\u2028".toList
  else if c = '\u2029' then "\\u2029".toList
  else [c]

def literalChars (s : String) : List Char := quote :: (s.toList.flatMap escapeLiteral ++ [quote])

def keyChars (key : String) : List Char :=
  if isIdentifier key.toList then key.toList else literalChars key

/-- Two blanks for each level. -/
def indentation (level : Nat) : List Char := List.replicate (2 * level) ' '

/-- A note with each end of a comment in it taken apart. -/
def noteChars : List Char → List Char
  | '*' :: '/' :: cs => '*' :: ' ' :: '/' :: noteChars cs
  | c :: cs => c :: noteChars cs
  | [] => []

namespace TypeTerm

mutual

/-- A union or an intersection of one part is written as that part. -/
def effective : TypeTerm → TypeTerm
  | union parts => (solePart? parts).getD (union parts)
  | intersection parts => (solePart? parts).getD (intersection parts)
  | t => t

def solePart? : List TypeTerm → Option TypeTerm
  | [t] => some t.effective
  | _ => none

end

def isCompoundUnion (t : TypeTerm) : Bool :=
  match t.effective with
  | union parts => 1 < parts.length
  | _ => false

/-- Whether brackets behind `t` would take hold of a part of it only. -/
def isLooseElement (t : TypeTerm) : Bool :=
  match t.effective with
  | union parts => 1 < parts.length
  | intersection parts => 1 < parts.length
  | annotated .. => true
  | _ => false

def parenthesized (b : Bool) (cs : List Char) : List Char :=
  if b then '(' :: (cs ++ [')']) else cs

mutual

/-- The text of a type whose first line stands at that level. -/
def chars (level : Nat) : TypeTerm → List Char
  | primitive name => name.toList
  | reference name => name.toList
  | text value => literalChars value
  | truth true => "true".toList
  | truth false => "false".toList
  | record [] => ['\x7b', '\x7d']
  | record (m :: ms) =>
    '\x7b' :: '\n' :: (membersChars (level + 1) (m :: ms) ++ (indentation level ++ ['\x7d']))
  | array element =>
    parenthesized element.isLooseElement (element.chars level) ++ ['[', ']']
  | union parts => unionChars level parts
  | intersection [] => "unknown".toList
  | intersection [t] => t.chars level
  | intersection (t :: u :: rest) =>
    parenthesized t.isCompoundUnion (t.chars level) ++ operandsChars level (u :: rest)
  | annotated inner note =>
    inner.chars level ++ " /* ".toList ++ noteChars note.toList ++ " */".toList

def membersChars (level : Nat) : List (String × TypeTerm) → List Char
  | [] => []
  | (key, t) :: rest =>
    indentation level ++ keyChars key ++ ": ".toList ++ t.chars level ++
      '\n' :: membersChars level rest

def unionChars (level : Nat) : List TypeTerm → List Char
  | [] => "never".toList
  | t :: rest => t.chars level ++ alternativesChars level rest

/-- The parts of a union behind the first. -/
def alternativesChars (level : Nat) : List TypeTerm → List Char
  | [] => []
  | t :: rest => " | ".toList ++ t.chars level ++ alternativesChars level rest

/-- The parts of an intersection behind the first. -/
def operandsChars (level : Nat) : List TypeTerm → List Char
  | [] => []
  | t :: rest =>
    " & ".toList ++ parenthesized t.isCompoundUnion (t.chars level) ++ operandsChars level rest

end

def toText (t : TypeTerm) : String := String.ofList (t.chars 0)

end TypeTerm
end PacketTypings
