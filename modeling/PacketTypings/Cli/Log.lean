import PacketTypings.Text.Quoted

/-! The lines that a run prints about its course. -/

namespace PacketTypings.Cli

inductive Level where
  | info | warn | error
deriving DecidableEq, Repr

def Level.name : Level → String
  | info => "INFO"
  | warn => "WARN"
  | error => "ERROR"

/-- The part of the program that a line comes from. -/
inductive Origin where
  | main
  | document
deriving DecidableEq, Repr

def Origin.name : Origin → String
  | main => "protodef_ts"
  | document => "protodef_ts::document"

/-- A message, and named values behind it. -/
structure LogEntry where
  level : Level
  origin : Origin
  message : String
  values : List (String × String)

/-- In a message no character may steer the terminal. -/
def shownChar (c : Char) : List Char :=
  if c = '\x1b' then "\\x1b".toList
  else if c = '\x07' then "\\x07".toList
  else if c = '\x08' then "\\x08".toList
  else if c = '\x0c' then "\\x0c".toList
  else if c = '\x7f' then "\\x7f".toList
  else if 0x80 ≤ c.toNat ∧ c.toNat ≤ 0x9f then
    '\\' :: 'u' :: '\x7b' :: (Text.hexDigits c.toNat ++ ['\x7d'])
  else [c]

def LogEntry.text (e : LogEntry) : String :=
  e.level.name ++ " " ++ e.origin.name ++ ": " ++
    String.ofList (e.message.toList.flatMap shownChar) ++
    String.join (e.values.map fun (name, value) => " " ++ name ++ "=" ++ value)

end PacketTypings.Cli
