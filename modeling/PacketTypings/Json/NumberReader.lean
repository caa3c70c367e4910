import PacketTypings.Json.Number
import PacketTypings.Json.SyntaxError

/-! Reading a number: a whole part without needless zeros, then perhaps a fraction and an
exponent. -/

namespace PacketTypings.Json

def digitValue (c : Char) : Nat := c.toNat - '0'.toNat

/-- A run of digits. Those that are used continue the value of the digits before them; from the
first one with which the value outgrows 64 bits, all others are passed over. -/
structure Digits where
  value : Nat
  used : Nat
  passed : Nat
  stop : Cursor

def takeDigits (value used passed : Nat) (place : Place) : List Char → Digits
  | [] => ⟨value, used, passed, [], place⟩
  | c :: cs =>
    if c.isDigit then
      let continued := 10 * value + digitValue c
      if passed = 0 ∧ continued < 18446744073709551616 then
        takeDigits continued (used + 1) 0 (place.after c) cs
      else takeDigits value used (passed + 1) (place.after c) cs
    else ⟨value, used, passed, c :: cs, place⟩

theorem length_takeDigits_le (value used passed : Nat) (place : Place) (cs : List Char) :
    (takeDigits value used passed place cs).stop.rest.length ≤ cs.length := by
  induction cs generalizing value used passed place with
  | nil => simp [takeDigits]
  | cons c cs ih =>
    unfold takeDigits
    split
    · dsimp only
      split
      · exact Nat.le_succ_of_le (ih ..)
      · exact Nat.le_succ_of_le (ih ..)
    · simp

def largestExponent : Nat := 2147483647

/-- The place of the digit with which an exponent outgrows `largestExponent`. -/
def overflowPlace? (value : Nat) (place : Place) : List Char → Option Place
  | [] => none
  | c :: cs =>
    if c.isDigit then
      let value := 10 * value + digitValue c
      if largestExponent < value then some (place.after c)
      else overflowPlace? value (place.after c) cs
    else none

def decimalNumber (negative : Bool) (digits : Nat) (power : Int) (c : Cursor) :
    Bounded Number (c.rest.length + 1) :=
  match Binary64.ofDecimal? negative digits power with
  | some x => .ok ⟨(.float x, c), Nat.lt_succ_self _⟩
  | none => .error ⟨.numberTooLarge, c.place⟩

/-- The digits of an exponent that lowers the power of ten if `down`. One that is too large for a
number other than zero is a complaint; too small gives zero. -/
def exponentDigits (negative : Bool) (digits : Nat) (scale : Int) (down : Bool) (c : Cursor) :
    Bounded Number (c.rest.length + 1) :=
  match c with
  | ⟨[], place⟩ => .error ⟨.endInValue, place⟩
  | ⟨d :: cs, place⟩ =>
    if d.isDigit then
      let run := takeDigits 0 0 0 place (d :: cs)
      have shorter : run.stop.rest.length + 1 ≤ (d :: cs).length + 1 :=
        Nat.succ_le_succ (length_takeDigits_le 0 0 0 place (d :: cs))
      match overflowPlace? 0 place (d :: cs) with
      | none =>
        let power := if down then scale - run.value else scale + run.value
        (decimalNumber negative digits power run.stop).widen shorter
      | some place =>
        if digits ≠ 0 ∧ !down then .error ⟨.numberTooLarge, place⟩
        else .ok ⟨(.float (.zero negative), run.stop), shorter⟩
    else .error ⟨.badNumber, Cursor.ahead ⟨d :: cs, place⟩⟩

/-- The exponent of `digits * 10 ^ scale`, once its letter is read. -/
def exponentPart (negative : Bool) (digits : Nat) (scale : Int) (c : Cursor) :
    Bounded Number (c.rest.length + 1) :=
  match c with
  | ⟨'-' :: cs, place⟩ =>
    (exponentDigits negative digits scale true ⟨cs, place.after '-'⟩).succ
  | ⟨'+' :: cs, place⟩ =>
    (exponentDigits negative digits scale false ⟨cs, place.after '+'⟩).succ
  | c => exponentDigits negative digits scale false c

/-- What may follow the digits of a fraction. -/
def afterFraction (negative : Bool) (digits : Nat) (scale : Int) (c : Cursor) :
    Bounded Number (c.rest.length + 1) :=
  match c with
  | ⟨e :: cs, place⟩ =>
    if e = 'e' ∨ e = 'E' then
      (exponentPart negative digits scale ⟨cs, place.after e⟩).succ
    else decimalNumber negative digits scale ⟨e :: cs, place⟩
  | c => decimalNumber negative digits scale c

/-- What may follow the whole part, of which the last `passed` digits are not in `whole`. If it ends
here it is kept exactly where that is possible; a negative zero is a binary64. -/
def afterWhole (negative : Bool) (whole passed : Nat) (c : Cursor) :
    Bounded Number (c.rest.length + 1) :=
  match c with
  | ⟨'.' :: cs, place⟩ =>
    let run := takeDigits whole 0 0 (place.after '.') cs
    have shorter : run.stop.rest.length ≤ cs.length :=
      length_takeDigits_le whole 0 0 (place.after '.') cs
    if run.used = 0 ∧ run.passed = 0 then
      .error ⟨if run.stop.rest.isEmpty then .endInValue else .badNumber, run.stop.ahead⟩
    else
      (afterFraction negative run.value (passed - run.used) run.stop).widen
        (Nat.succ_le_succ (Nat.le_succ_of_le shorter))
  | ⟨e :: cs, place⟩ =>
    if e = 'e' ∨ e = 'E' then
      (exponentPart negative whole passed ⟨cs, place.after e⟩).succ
    else wholeNumber ⟨e :: cs, place⟩
  | c => wholeNumber c
where
  wholeNumber (c : Cursor) : Bounded Number (c.rest.length + 1) :=
    let n : Int := if negative then -whole else whole
    if passed = 0 ∧ fitsInt n ∧ ¬ (negative ∧ whole = 0) then
      .ok ⟨(.int n, c), Nat.lt_succ_self _⟩
    else decimalNumber negative whole passed c

def unsigned (negative : Bool) (c : Cursor) : Reading Number c :=
  match c with
  | ⟨[], place⟩ => .error ⟨.endInValue, place⟩
  | ⟨d :: cs, place⟩ =>
    let next : Cursor := ⟨cs, place.after d⟩
    if d = '0' then
      if (cs.head?.map Char.isDigit).getD false then .error ⟨.badNumber, next.ahead⟩
      else (afterWhole negative 0 0 next).widen (by simp [next])
    else if d.isDigit then
      let run := takeDigits (digitValue d) 1 0 next.place cs
      have shorter : run.stop.rest.length ≤ cs.length :=
        length_takeDigits_le (digitValue d) 1 0 next.place cs
      (afterWhole negative run.value run.passed run.stop).widen (Nat.succ_le_succ shorter)
    else .error ⟨.badNumber, Cursor.ahead ⟨d :: cs, place⟩⟩

def number (c : Cursor) : Reading Number c :=
  match c with
  | ⟨'-' :: cs, place⟩ => (unsigned true ⟨cs, place.after '-'⟩).succ
  | c => unsigned false c

end PacketTypings.Json
