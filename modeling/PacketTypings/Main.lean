import PacketTypings.Cli.Arguments
import PacketTypings.Cli.Plan
import PacketTypings.Json.Reader

/-! The command line. The files are those of the system. -/

namespace PacketTypings.Cli

def fileErrorOf : IO.Error → FileError
  | .noFileOrDirectory .. => .notFound
  | .noSuchThing .. => .notFound
  | .inappropriateType _ code _ => if code = 21 then .isDirectory else .notDirectory
  | e@(.invalidArgument _ code _) =>
    if code = 36 ∨ code = -36 then .nameTooLong else .other (toString e)
  | e@(.resourceExhausted _ code _) => if code = 28 then .noSpace else .other (toString e)
  | e => .other (toString e)

def readInput (path : String) : IO (Except FileError String) := do
  try
    let content ← IO.FS.readBinFile path
    return (String.fromUTF8? content).elim (.error .notUtf8) .ok
  catch e => return .error (fileErrorOf e)

def writeOutput (path text : String) : IO (Except FileError Unit) := do
  try
    IO.FS.writeBinFile path text.toUTF8
    return .ok ()
  catch e => return .error (fileErrorOf e)

def usage : String :=
  "Usage: protodef-ts [OPTIONS] <INPUT>\n\n" ++
    "  -o, --output <OUTPUT>        Output file, typings.d.ts if not given\n" ++
    "      --namespace <NAMESPACE>  Keys that lead to the type mapping, with slashes between\n" ++
    "      --flatten-anonymous      Splice anonymous container fields into their parent\n" ++
    "      --fail-fast              Stop at the first failing entry and write nothing\n" ++
    "  -h, --help                   Print help"

end PacketTypings.Cli

open PacketTypings Cli in
def main (arguments : List String) : IO UInt32 := do
  match Request.ofArguments arguments with
  | .error _ =>
    IO.eprintln usage
    return 2
  | .ok .help =>
    IO.println usage
    return 0
  | .ok (.run i) =>
    let report ← i.run id Json.ofDocument readInput writeOutput
    for line in report.lines do
      IO.eprintln line
    return report.exitCode.toUInt32
