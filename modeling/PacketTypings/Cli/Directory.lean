import PacketTypings.Cli.Arguments
import PacketTypings.Cli.System
import PacketTypings.Json.Reader

/-! A small system to try the program in: a directory in memory that holds files and no directories.
Of what is around it, only the usual top-level directories and the null device are known. -/

namespace PacketTypings.Cli

structure Directory where
  files : List (String × ByteArray)

/-- Where the walk along a path stands. -/
inductive Spot where
  | here
  | top
  | devices
  | elsewhere
deriving DecidableEq, Repr

/-- What a name stands for. -/
inductive Entry where
  | missing
  | file (content : ByteArray)
  | directory (s : Spot)
  /-- The null device takes every text and holds none. -/
  | null

/-- A path taken apart: a path that ends in a slash leads to a directory. -/
structure Way where
  start : Spot
  names : List String
  slashed : Bool

def longestName : Nat := 255

def longestPath : Nat := 4095

def topDirectories : List String :=
  ["bin", "dev", "etc", "home", "lib", "mnt", "opt", "proc", "root", "run", "sbin", "srv", "sys",
    "tmp", "usr", "var"]

def Way.ofPath (path : String) : Except FileError Way :=
  if longestPath < path.utf8ByteSize then .error .nameTooLong
  else if path.isEmpty then .error .notFound
  else
    let chars := path.toList
    let names := ((splitOn '/' chars).filter fun piece => !piece.isEmpty).map String.ofList
    .ok ⟨if chars.head? = some '/' then .top else .here, names, chars.getLast? = some '/'⟩

namespace Directory

def get? (d : Directory) (name : String) : Option ByteArray := d.files.lookup name

def set (d : Directory) (name : String) (content : ByteArray) : Directory :=
  ⟨(name, content) :: d.files.filter fun file => file.1 ≠ name⟩

def entry (d : Directory) : Spot → String → Entry
  | s, "." => .directory s
  | .top, ".." => .directory .top
  | .devices, ".." => .directory .top
  | _, ".." => .directory .elsewhere
  | .here, name => (d.get? name).elim .missing .file
  | .top, "dev" => .directory .devices
  | .top, name => if topDirectories.contains name then .directory .elsewhere else .missing
  | .devices, "null" => .null
  | _, _ => .missing

def find (d : Directory) (s : Spot) (name : String) : Except FileError Entry :=
  if longestName < name.utf8ByteSize then .error .nameTooLong else .ok (d.entry s name)

/-- A step to a name that more of the path follows. -/
def enter (d : Directory) (s : Spot) (name : String) : Except FileError Spot := do
  match ← d.find s name with
  | .directory s => return s
  | .missing => .error .notFound
  | .file _ => .error .notDirectory
  | .null => .error .notDirectory

def decode (content : ByteArray) : Except FileError String :=
  (String.fromUTF8? content).elim (.error .notUtf8) .ok

def read (d : Directory) (path : String) : Except FileError String := do
  let way ← Way.ofPath path
  match way.names.getLast? with
  | none => .error .isDirectory
  | some name =>
    let s ← way.names.dropLast.foldlM d.enter way.start
    match ← d.find s name with
    | .missing => .error .notFound
    | .directory _ => .error .isDirectory
    | .file content => if way.slashed then .error .notDirectory else decode content
    | .null => if way.slashed then .error .notDirectory else return ""

/-- The file that a text written at the path goes to: none here if the path leads elsewhere. No file
is made under a name with a slash behind it. -/
def outlet (d : Directory) (path : String) : Except FileError (Option String) := do
  let way ← Way.ofPath path
  match way.names.getLast? with
  | none => .error .isDirectory
  | some name =>
    let s ← way.names.dropLast.foldlM d.enter way.start
    if way.slashed then .error .isDirectory
    else
      match ← d.find s name with
      | .directory _ => .error .isDirectory
      | _ => return if s = .here then some name else none

/-- The text replaces what the file holds. If there is not room for all of it, the file is left with
what there is room for. -/
def write (room? : Option Nat) (path text : String) (d : Directory) :
    Except FileError Unit × Directory :=
  match d.outlet path with
  | .error e => (.error e, d)
  | .ok none => (.ok (), d)
  | .ok (some name) =>
    let content := text.toUTF8
    let room := room?.getD content.size
    if content.size ≤ room then (.ok (), d.set name content)
    else (.error .noSpace, d.set name (content.extract 0 room))

/-- The directory on a disk on which a file has at most `room?` bytes. -/
def system (room? : Option Nat) : System String String Directory where
  request? arguments := (Request.ofArguments arguments).toOption
  shown path := path
  parse := Json.ofDocument
  read path d := d.read path
  write := write room?

def run (d : Directory) (i : Invocation String) : Report × Directory := (system none).run i d

end Directory
end PacketTypings.Cli
