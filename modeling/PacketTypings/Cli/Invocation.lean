import PacketTypings.Document.Basic

/-! What the arguments of the command line ask for. -/

namespace PacketTypings.Cli

/-- One run. -/
structure Invocation (Path : Type) where
  input : Path
  output : Path
  namespaceText : String
  flattenAnonymous : Bool
  failFast : Bool
deriving DecidableEq, Repr

inductive Request (Path : Type) where
  | run (i : Invocation Path)
  | help
deriving DecidableEq, Repr

def Invocation.options {Path : Type} (i : Invocation Path) : Options :=
  ⟨if i.flattenAnonymous then .flatten else .omit, if i.failFast then .abort else .skipEntry⟩

end PacketTypings.Cli
