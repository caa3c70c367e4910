import PacketTypings.Document.Protocol
import PacketTypings.Document.Declaration

/-! The document of a protocol: the outcome of each entry, and the text of the declarations. -/

namespace PacketTypings

/-- What happens when an entry has no type: it is left out, or there is no document. -/
inductive OnFailure where
  | skipEntry
  | abort
deriving DecidableEq, Repr

structure Options where
  anonymousFields : AnonymousFields
  onFailure : OnFailure
deriving DecidableEq, Repr

/-- An entry that has no type. -/
structure Failure where
  name : String
  fault : Fault
  node : Json

def Failure.message (f : Failure) : String :=
  "failed to compile `" ++ f.name ++ "`: " ++ f.fault.message

inductive Outcome where
  | skipped (name : String)
  | declared (d : Declaration)
  | failed (f : Failure)

namespace Outcome

/-- The name that users of the document have a type for. -/
def reservedName : String := "string"

def isSkipped (name : String) (raw : Json) : Bool := raw.isStr || name = reservedName

/-- An alias and the reserved name are skipped. -/
def ofEntry (t : Typer) (name : String) (raw : Json) : Outcome :=
  if isSkipped name raw then skipped name
  else
    match Declaration.ofEntry t name raw with
    | .ok d => declared d
    | .error e => failed ⟨name, e, raw⟩

def skipped? : Outcome → Option String
  | skipped name => some name
  | _ => none

def declared? : Outcome → Option Declaration
  | declared d => some d
  | _ => none

def failed? : Outcome → Option Failure
  | failed f => some f
  | _ => none

end Outcome

structure Document where
  declarations : List Declaration
  failures : List Failure
  skipped : List String

namespace Document

def ofOutcomes (outcomes : List Outcome) : Document :=
  ⟨outcomes.filterMap Outcome.declared?, outcomes.filterMap Outcome.failed?,
    outcomes.filterMap Outcome.skipped?⟩

def isComplete (d : Document) : Bool := d.failures.isEmpty

/-- Each declaration ends its line; two line feeds end the document. -/
def chars (d : Document) : List Char :=
  d.declarations.flatMap (fun declaration => declaration.chars ++ ['\n']) ++ ['\n', '\n']

def text (d : Document) : String := String.ofList d.chars

/-- An ascending list with `x` in it, once. -/
def insertName (x : String) : List String → List String
  | [] => [x]
  | y :: ys => if x < y then x :: y :: ys else if x = y then y :: ys else y :: insertName x ys

def ascending (names : List String) : List String := names.foldr insertName []

/-- A reference to a member is one to the type it belongs to. -/
def referredType (name : String) : String := String.ofList (name.toList.takeWhile (· != '.'))

/-- The names that declarations or skipped entries supply. -/
def knownNames (d : Document) : List String := d.declarations.map Declaration.name ++ d.skipped

/-- The referred types that nothing supplies, in ascending order. -/
def unresolved (d : Document) : List String :=
  ascending (((d.declarations.flatMap Declaration.references).map referredType).filter
    fun name => !d.knownNames.contains name)

end Document

namespace Protocol

def typer (p : Protocol) (anonymousFields : AnonymousFields) : Typer :=
  ⟨anonymousFields, p.entries.map Prod.fst⟩

def outcomes (p : Protocol) (anonymousFields : AnonymousFields) : List Outcome :=
  p.entries.map fun (name, raw) => Outcome.ofEntry (p.typer anonymousFields) name raw

/-- Every entry has its outcome by itself; the first failure aborts if it is to. -/
def generate (p : Protocol) (options : Options) : Except Failure Document :=
  let document := Document.ofOutcomes (p.outcomes options.anonymousFields)
  match options.onFailure, document.failures with
  | .abort, f :: _ => .error f
  | _, _ => .ok document

end Protocol
end PacketTypings
