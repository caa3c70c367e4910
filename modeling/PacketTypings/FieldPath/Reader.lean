import PacketTypings.FieldPath.Basic
import PacketTypings.FieldPath.Token

/-! Reading a path: a step, then a slash and a step, or double bars and a step, to the end. -/

namespace PacketTypings.FieldPath

/-- What the text should have had where the reading stopped. -/
inductive Expected where
  | alternative
  | step
  | pathEnd
deriving DecidableEq, Repr

def Expected.name : Expected → String
  | alternative => "alternative"
  | step => "parent, current, or name"
  | pathEnd => "EOI"

/-- The reading stopped after `offset` characters. -/
structure Refusal where
  offset : Nat
  expected : Expected
deriving DecidableEq, Repr

def stepOfWord (chars : List Char) : Step :=
  if chars = ['.', '.'] then .parent
  else if chars = ['.'] then .current
  else .name (String.ofList chars)

def consStep (s : Step) : List (List Step) → List (List Step)
  | [] => [[s]]
  | steps :: rest => (s :: steps) :: rest

/-- The alternatives of a text of `length` characters, where a step is due; its absence is told as
`expected`. -/
def alternativesOf (length : Nat) (expected : Expected) :
    List Token → Except Refusal (List (List Step))
  | [] => .error ⟨length, expected⟩
  | .bars n :: _ => .error ⟨n, expected⟩
  | .slash n :: _ => .error ⟨n, expected⟩
  | [.word _ w] => .ok [[stepOfWord w]]
  | .word _ _ :: .word n _ :: _ => .error ⟨n, .pathEnd⟩
  | .word _ w :: .slash _ :: rest => do
    return consStep (stepOfWord w) (← alternativesOf length .step rest)
  | .word _ w :: .bars _ :: rest => do
    return [stepOfWord w] :: (← alternativesOf length .alternative rest)

def ofText (text : String) : Except Refusal FieldPath := do
  let chars := text.toList
  return ⟨text, ← alternativesOf chars.length .alternative (Token.scan 0 chars)⟩

/-- The line that a character is on, with its line feed; the lines before it; and how many
characters of the line stand before it. -/
structure Spot where
  line : List Char
  before : Nat
  column : Nat

/-- Where a character stands; `seen` holds the characters of its line so far, last one first. -/
def spot (before : Nat) (seen : List Char) : (offset : Nat) → List Char → Spot
  | n + 1, c :: cs => if c = '\n' then spot (before + 1) [] n cs else spot before (c :: seen) n cs
  | _, rest =>
    let tail := rest.takeWhile (· != '\n') ++ (rest.dropWhile (· != '\n')).take 1
    ⟨seen.reverse ++ tail, before, seen.length⟩

/-- A line is shown without its line breaks, unless one of them is what the complaint is about. -/
def shownLine (chars : List Char) (column : Nat) : List Char :=
  if chars[column]? = some '\n' ∨ chars[column]? = some '\r' then
    chars.map fun c => if c = '\n' then '␊' else if c = '\r' then '␍' else c
  else chars.filter fun c => c != '\n' && c != '\r'

/-- A complaint shows the line with a mark under the place. -/
def Refusal.report (r : Refusal) (text : String) : String :=
  let s := spot 0 [] r.offset text.toList
  let shown := shownLine s.line s.column
  let number := toString (s.before + 1)
  let margin := String.ofList (List.replicate number.length ' ')
  let under := (shown.take s.column).map fun c => if c = '\t' then c else ' '
  margin ++ "--> " ++ number ++ ":" ++ toString (s.column + 1) ++ "\n" ++
    margin ++ " |\n" ++
    number ++ " | " ++ String.ofList shown ++ "\n" ++
    margin ++ " | " ++ String.ofList under ++ "^---\n" ++
    margin ++ " |\n" ++
    margin ++ " = expected " ++ r.expected.name

end PacketTypings.FieldPath
