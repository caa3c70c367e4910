import PacketTypings.Cli.Plan

/-! The program in a system: what it makes of a list of arguments and of the files. -/

namespace PacketTypings.Cli

/-- What the program takes from elsewhere. Arguments and paths need not be texts, and a write that
fails may still have changed files. -/
structure System (Argument Path Files : Type) where
  /-- There is no request if the arguments are wrong. -/
  request? : List Argument → Option (Request Path)
  shown : Path → String
  parse : String → Except String Json
  read : Path → Files → Except FileError String
  write : Path → String → Files → Except FileError Unit × Files

namespace System

variable {Argument Path Files : Type} (s : System Argument Path Files)

def run (i : Invocation Path) : StateM Files Report :=
  i.run s.shown s.parse (fun path => return s.read path (← get)) s.write

/-- The exit code, and the files as the program leaves them. -/
def start (arguments : List Argument) (files : Files) : UInt8 × Files :=
  match s.request? arguments with
  | none => (2, files)
  | some .help => (0, files)
  | some (.run i) =>
    let (report, files) := s.run i files
    (report.exitCode, files)

end System
end PacketTypings.Cli
