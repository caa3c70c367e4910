import PacketTypings.TypeTerm.Text
import PacketTypings.Schema.Loader
import PacketTypings.Typing.Typer

/-! The declaration of an entry: a type, or a set of constants if the entry is a flag set. -/

namespace PacketTypings

inductive Declaration where
  | type (name : String) (term : TypeTerm)
  | constants (name : String) (values : List (String × String))

namespace Declaration

def name : Declaration → String
  | type name _ => name
  | constants name _ => name

/-- The names that the declaration refers to. -/
def references : Declaration → List String
  | type _ term => term.references
  | constants .. => []

/-- One constant to a line, with a comma behind all but the last. -/
def constantLines : List (String × String) → List Char
  | [] => []
  | [(name, value)] => indentation 1 ++ name.toList ++ " = ".toList ++ value.toList ++ ['\n']
  | (name, value) :: rest =>
    indentation 1 ++ name.toList ++ " = ".toList ++ value.toList ++ ',' :: '\n' ::
      constantLines rest

def chars : Declaration → List Char
  | type name term => "export type ".toList ++ name.toList ++ " = ".toList ++ term.chars 0
  | constants name [] =>
    "export const enum ".toList ++ name.toList ++ [' ', '\x7b', '\x7d']
  | constants name values =>
    "export const enum ".toList ++ name.toList ++ ' ' :: '\x7b' :: '\n' ::
      (constantLines values ++ ['\x7d'])

def text (d : Declaration) : String := String.ofList d.chars

/-- The declaration of the entry that `raw` describes. -/
def ofEntry (t : Typer) (name : String) (raw : Json) : Except Fault Declaration := do
  match ← Node.ofJson raw with
  | .bitflags flags => return .constants name flags.constants
  | node => return .type name (← t.type none .root node)

end Declaration
end PacketTypings
