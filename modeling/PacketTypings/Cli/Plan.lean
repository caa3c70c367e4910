import PacketTypings.Cli.Invocation
import PacketTypings.Cli.Log

/-! A run: it reads its input, and then it stops or writes one file. How a path is shown, how a
document is parsed, and how files are read and written is up to the system. -/

namespace PacketTypings.Cli

/-- Why a file cannot be read or written. -/
inductive FileError where
  | notFound
  | notDirectory
  | isDirectory
  | noSpace
  | nameTooLong
  | notUtf8
  | other (text : String)
deriving DecidableEq, Repr

def FileError.message : FileError → String
  | notFound => "No such file or directory (os error 2)"
  | notDirectory => "Not a directory (os error 20)"
  | isDirectory => "Is a directory (os error 21)"
  | noSpace => "No space left on device (os error 28)"
  | nameTooLong => "File name too long (os error 36)"
  | notUtf8 => "stream did not contain valid UTF-8"
  | other text => text

/-- What a run prints, and whether it went well. -/
structure Report where
  lines : List String
  succeeded : Bool

def Report.exitCode (r : Report) : UInt8 := if r.succeeded then 0 else 1

/-- What is left to do once the input is read. -/
inductive Plan (Path : Type) where
  | stop (r : Report)
  | write (path : Path) (text : String) (written : Report) (refused : FileError → Report)

/-- The cause stands four blanks to the right of the margin. -/
def complaint (context cause : String) : List String :=
  let lines := (splitOn '\n' cause.toList).map String.ofList
  ["Error: " ++ context, "", "Caused by:"] ++ lines.map fun line => "    " ++ line

/-- The lines before and the complaint at the end. -/
def failedReport (log : List LogEntry) (context cause : String) : Report :=
  ⟨log.map LogEntry.text ++ complaint context cause, false⟩

def failureEntry (f : Failure) : LogEntry :=
  ⟨.error, .document, "failed to compile entry",
    [("entry", Text.quoted f.name), ("error", f.fault.message), ("node", f.node.text)]⟩

/-- A note on the names that are not declared, if there are any. -/
def unresolvedEntries (d : Document) : List LogEntry :=
  match d.unresolved with
  | [] => []
  | names =>
    [⟨.warn, .document, "forward references without a declaration",
      [("count", toString names.length), ("names", Text.quotedList names)]⟩]

def loadedEntry (p : Protocol) (input : String) : LogEntry :=
  ⟨.info, .main, "Loaded " ++ toString p.entries.length ++ " entries from " ++ input, []⟩

def savedEntry (d : Document) (output : String) : LogEntry :=
  ⟨.info, .main,
    "TypeScript definitions for " ++ toString d.declarations.length ++ " entries saved to " ++
      output ++ " (" ++ toString d.skipped.length ++ " skipped, " ++ toString d.failures.length ++
      " failed)", []⟩

def incompleteEntries (d : Document) : List LogEntry :=
  if d.isComplete then []
  else
    [⟨.error, .main,
      toString d.failures.length ++ " entries failed: " ++
        String.intercalate ", " (d.failures.map Failure.name), []⟩]

section

variable {Path : Type} {m : Type → Type} [Monad m]

def Plan.perform (write : Path → String → m (Except FileError Unit)) : Plan Path → m Report
  | .stop r => return r
  | .write path text written refused => do
    match ← write path text with
    | .ok () => return written
    | .error e => return refused e

namespace Invocation

variable (shown : Path → String) (parse : String → Except String Json)

/-- The plan for the entries of a protocol. -/
def planFor (i : Invocation Path) (p : Protocol) : Plan Path :=
  let loaded := loadedEntry p (shown i.input)
  match p.generate i.options with
  | .error f =>
    let aborted : LogEntry := ⟨.error, .main, f.message ++ "; nothing written", []⟩
    .stop ⟨[loaded, failureEntry f, aborted].map LogEntry.text, false⟩
  | .ok d =>
    let log := loaded :: d.failures.map failureEntry ++ unresolvedEntries d
    let done := log ++ savedEntry d (shown i.output) :: incompleteEntries d
    .write i.output d.text ⟨done.map LogEntry.text, d.isComplete⟩
      fun e => failedReport log ("writing " ++ shown i.output) e.message

/-- The protocol in what reading the input gave. -/
def load (i : Invocation Path) (source : Except FileError String) : Except Report Protocol := do
  let text ← source.mapError fun e => failedReport [] ("reading " ++ shown i.input) e.message
  let root ← (parse text).mapError (failedReport [] ("parsing " ++ shown i.input))
  (Protocol.ofJson root i.namespaceText).mapError fun e =>
    failedReport [] ("loading types from " ++ shown i.input) e.message

def plan (i : Invocation Path) (source : Except FileError String) : Plan Path :=
  match i.load shown parse source with
  | .error r => .stop r
  | .ok p => i.planFor shown p

def run (i : Invocation Path) (read : Path → m (Except FileError String))
    (write : Path → String → m (Except FileError Unit)) : m Report := do
  (i.plan shown parse (← read i.input)).perform write

end Invocation
end
end PacketTypings.Cli
