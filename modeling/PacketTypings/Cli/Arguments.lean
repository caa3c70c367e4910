import PacketTypings.Cli.Invocation

/-! A reader of arguments that are texts. Paths are the texts themselves. -/

namespace PacketTypings.Cli

inductive UsageError where
  | unknownOption (text : String)
  | missingValue (option : String)
  | needlessValue (option : String)
  | repeated (option : String)
  | emptyPath
  | surplus (text : String)
  | noInput
deriving DecidableEq, Repr

/-- What the arguments have said so far. -/
structure Found where
  input? : Option String
  output? : Option String
  namespaceText? : Option String
  flattenAnonymous : Bool
  failFast : Bool

namespace Found

def nothing : Found := ⟨none, none, none, false, false⟩

/-- The output and the namespace are given when they are not said. -/
def request (f : Found) : Except UsageError (Request String) :=
  match f.input? with
  | none => .error .noInput
  | some input =>
    .ok (.run ⟨input, f.output?.getD "typings.d.ts", f.namespaceText?.getD "", f.flattenAnonymous,
      f.failFast⟩)

end Found

/-- The options that take a value. -/
inductive Setting where
  | output
  | namespaceText
deriving DecidableEq, Repr

/-- The options that do not. -/
inductive Flag where
  | flattenAnonymous
  | failFast
  | help
deriving DecidableEq, Repr

inductive Name where
  | setting (s : Setting)
  | flag (f : Flag)
deriving DecidableEq, Repr

def longName? : String → Option Name
  | "output" => some (.setting .output)
  | "namespace" => some (.setting .namespaceText)
  | "flatten-anonymous" => some (.flag .flattenAnonymous)
  | "fail-fast" => some (.flag .failFast)
  | "help" => some (.flag .help)
  | _ => none

def shortName? : Char → Option Name
  | 'o' => some (.setting .output)
  | 'h' => some (.flag .help)
  | _ => none

/-- How an argument reads before the mark that ends the options. -/
inductive Argument where
  | endOfOptions
  | option (text : String) (name? : Option Name) (value? : Option String)
  | plain (text : String)

/-- A value may follow its option at once: behind `=` after a long name, with or without `=` after a
short one. A single dash is no option. -/
def Argument.ofText (text : String) : Argument :=
  match text.toList with
  | ['-', '-'] => endOfOptions
  | '-' :: '-' :: cs =>
    let name := String.ofList (cs.takeWhile (· != '='))
    let value? := (cs.dropWhile (· != '=')).tail?.map String.ofList
    option text (longName? name) value?
  | '-' :: c :: cs =>
    let value? :=
      match cs with
      | [] => none
      | '=' :: vs => some (String.ofList vs)
      | vs => some (String.ofList vs)
    option text (shortName? c) value?
  | _ => plain text

namespace Found

def setInput (f : Found) (path : String) : Except UsageError Found :=
  if path.isEmpty then .error .emptyPath
  else if f.input?.isSome then .error (.surplus path)
  else .ok { f with input? := some path }

def set (f : Found) (value : String) : Setting → Except UsageError Found
  | .output =>
    if f.output?.isSome then .error (.repeated "--output")
    else if value.isEmpty then .error .emptyPath
    else .ok { f with output? := some value }
  | .namespaceText =>
    if f.namespaceText?.isSome then .error (.repeated "--namespace")
    else .ok { f with namespaceText? := some value }

end Found

/-- Behind the mark every argument is a path. -/
def readPaths (f : Found) : List String → Except UsageError (Request String)
  | [] => f.request
  | text :: rest => do readPaths (← f.setInput text) rest

/-- The arguments from left to right; the first one that is wrong, or that asks for help, decides. A
value that stands alone may not look like an option. -/
def read (f : Found) : List String → Except UsageError (Request String)
  | [] => f.request
  | text :: rest =>
    match Argument.ofText text with
    | .endOfOptions => readPaths f rest
    | .plain path => do read (← f.setInput path) rest
    | .option text none _ => .error (.unknownOption text)
    | .option _ (some (.setting s)) (some value) => do read (← f.set value s) rest
    | .option text (some (.setting s)) none =>
      match rest with
      | [] => .error (.missingValue text)
      | next :: rest =>
        match Argument.ofText next with
        | .plain value => do read (← f.set value s) rest
        | _ => .error (.missingValue text)
    | .option text (some (.flag flag)) value? =>
      match flag with
      | .help =>
        -- letters behind a short name are further names, not a value
        if value?.isSome && text.startsWith "--" then .error (.needlessValue text)
        else .ok .help
      | .flattenAnonymous =>
        if value?.isSome then .error (.needlessValue text)
        else if f.flattenAnonymous then .error (.repeated text)
        else read { f with flattenAnonymous := true } rest
      | .failFast =>
        if value?.isSome then .error (.needlessValue text)
        else if f.failFast then .error (.repeated text)
        else read { f with failFast := true } rest

def Request.ofArguments (arguments : List String) : Except UsageError (Request String) :=
  read .nothing arguments

end PacketTypings.Cli
