/-! A place in a text and the text still to be read from there. Columns count the bytes of a line,
in UTF-8, up to and including the byte that a complaint is about. -/

namespace PacketTypings.Json

structure Place where
  line : Nat
  column : Nat
deriving DecidableEq, Repr

namespace Place

def start : Place := ⟨1, 0⟩

def newline (p : Place) : Place := ⟨p.line + 1, 0⟩

def plus (p : Place) (bytes : Nat) : Place := ⟨p.line, p.column + bytes⟩

def after (p : Place) (c : Char) : Place := if c = '\n' then p.newline else p.plus c.utf8Size

/-- The place `bytes` bytes into `text`, which may fall inside a character; `none` past its end. -/
def afterBytes? (p : Place) : (bytes : Nat) → (text : List Char) → Option Place
  | 0, _ => some p
  | _ + 1, [] => none
  | n + 1, c :: cs =>
    if c.utf8Size ≤ n + 1 then (p.after c).afterBytes? (n + 1 - c.utf8Size) cs
    else some (p.plus (n + 1))
termination_by structural _ text => text

end Place

structure Cursor where
  rest : List Char
  place : Place

namespace Cursor

def ofText (text : String) : Cursor := ⟨text.toList, .start⟩

/-- The place of the byte ahead, or the end of the text. -/
def ahead (c : Cursor) : Place := (c.place.afterBytes? 1 c.rest).getD c.place

def textEnd (c : Cursor) : Place := c.rest.foldl .after c.place

def isBlank (c : Char) : Bool := c = ' ' || c = '\n' || c = '\t' || c = '\r'

def dropBlanks (place : Place) : List Char → Cursor
  | [] => ⟨[], place⟩
  | c :: cs => if isBlank c then dropBlanks (place.after c) cs else ⟨c :: cs, place⟩

def skipBlanks (c : Cursor) : Cursor := dropBlanks c.place c.rest

theorem length_dropBlanks_le (place : Place) (cs : List Char) :
    (dropBlanks place cs).rest.length ≤ cs.length := by
  induction cs generalizing place with
  | nil => simp [dropBlanks]
  | cons c cs ih =>
    unfold dropBlanks
    split
    · exact Nat.le_succ_of_le (ih _)
    · simp

theorem length_skipBlanks_le (c : Cursor) : c.skipBlanks.rest.length ≤ c.rest.length :=
  length_dropBlanks_le c.place c.rest

end Cursor
end PacketTypings.Json
