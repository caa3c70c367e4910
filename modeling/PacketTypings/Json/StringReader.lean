import PacketTypings.Json.SyntaxError
import PacketTypings.Text.Char

/-! Reading a string, from behind its opening quote to behind its closing one. -/

namespace PacketTypings.Json

open Text (hexValue?)

def hexNumber? (a b c d : Char) : Option Nat := do
  return (((← hexValue? a) * 16 + (← hexValue? b)) * 16 + (← hexValue? c)) * 16 + (← hexValue? d)

/-- Four bytes are taken for the digits of an escape, whatever they are. -/
def badHex (c : Cursor) : SyntaxError :=
  match c.place.afterBytes? 4 c.rest with
  | some place => ⟨.badEscape, place⟩
  | none => ⟨.endInString, c.textEnd⟩

def hexEscape (c : Cursor) : Reading Nat c :=
  match c with
  | ⟨x :: y :: z :: w :: cs, place⟩ =>
    match hexNumber? x y z w with
    | some n => .ok ⟨(n, ⟨cs, place.plus 4⟩), by simp; omega⟩
    | none => .error (badHex ⟨x :: y :: z :: w :: cs, place⟩)
  | c => .error (badHex c)

def isLeading (n : Nat) : Bool := 0xd800 ≤ n ∧ n ≤ 0xdbff

def isTrailing (n : Nat) : Bool := 0xdc00 ≤ n ∧ n ≤ 0xdfff

/-- The character of a pair of surrogates. -/
def joined (leading trailing : Nat) : Char :=
  Char.ofNat (0x10000 + (leading - 0xd800) * 0x400 + (trailing - 0xdc00))

/-- The second half of an escaped pair must begin with exactly `char`. -/
def demand (char : Char) (c : Cursor) : Reading Unit c :=
  match c with
  | ⟨[], place⟩ => .error ⟨.endInString, place⟩
  | ⟨x :: cs, place⟩ =>
    if x = char then .ok ⟨((), ⟨cs, place.after x⟩), by simp⟩
    else .error ⟨.halfEscape, Cursor.ahead ⟨x :: cs, place⟩⟩

def unicodeEscape (c : Cursor) : Reading Char c := do
  let ⟨(n, next), shorter⟩ ← hexEscape c
  if isTrailing n then .error ⟨.loneSurrogate, next.place⟩
  else if isLeading n then
    let ⟨((), afterSlash), h₁⟩ ← demand '\\' next
    let ⟨((), afterLetter), h₂⟩ ← demand 'u' afterSlash
    let ⟨(m, stop), h₃⟩ ← hexEscape afterLetter
    if isTrailing m then .ok ⟨(joined n m, stop), by simp_all; omega⟩
    else .error ⟨.loneSurrogate, stop.place⟩
  else .ok ⟨(Char.ofNat n, next), shorter⟩

def shortEscape? : Char → Option Char
  | '"' => some '"'
  | '\\' => some '\\'
  | '/' => some '/'
  | 'b' => some '\x08'
  | 'f' => some '\x0c'
  | 'n' => some '\n'
  | 'r' => some '\r'
  | 't' => some '\t'
  | _ => none

/-- An escape, from behind its backslash. -/
def escaped (c : Cursor) : Reading Char c :=
  match c with
  | ⟨[], place⟩ => .error ⟨.endInString, place⟩
  | ⟨x :: cs, place⟩ =>
    match shortEscape? x with
    | some char => .ok ⟨(char, ⟨cs, place.after x⟩), Nat.lt_succ_self _⟩
    | none =>
      if x = 'u' then (unicodeEscape ⟨cs, place.after x⟩).succ
      else .error ⟨.badEscape, Cursor.ahead ⟨x :: cs, place⟩⟩

/-- The rest of a string; `seen` holds what was read before, last character first. -/
def stringRest (seen : List Char) (c : Cursor) : Reading String c :=
  match c with
  | ⟨[], place⟩ => .error ⟨.endInString, place⟩
  | ⟨x :: cs, place⟩ =>
    if x = '"' then .ok ⟨(String.ofList seen.reverse, ⟨cs, place.after x⟩), by simp⟩
    else if x = '\\' then do
      let ⟨(char, next), shorter⟩ ← escaped ⟨cs, place.after x⟩
      (stringRest (char :: seen) next).widen (by simp at shorter ⊢; omega)
    else if x.toNat < 32 then .error ⟨.controlCharacter, Cursor.ahead ⟨x :: cs, place⟩⟩
    else (stringRest (x :: seen) ⟨cs, place.after x⟩).succ
termination_by c.rest.length
decreasing_by all_goals simp_all; try omega

def string (c : Cursor) : Reading String c := stringRest [] c

end PacketTypings.Json
