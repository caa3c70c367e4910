import PacketTypings.Json.Value
import PacketTypings.Json.NumberReader
import PacketTypings.Json.StringReader

/-! Reading a value from its text. The reading of a list or an object is a loop over the reader of
what it holds; how many brackets may still be opened bounds the nesting. -/

namespace PacketTypings.Json

/-- The letters that complete `null`, `true` or `false`. -/
def word (value : Json) : (letters : List Char) → (c : Cursor) →
    Bounded Json (c.rest.length + 1)
  | [], c => .ok ⟨(value, c), Nat.lt_succ_self _⟩
  | _ :: _, ⟨[], place⟩ => .error ⟨.endInValue, place⟩
  | l :: ls, ⟨x :: cs, place⟩ =>
    if x = l then (word value ls ⟨cs, place.after x⟩).succ
    else .error ⟨.badWord, Cursor.ahead ⟨x :: cs, place⟩⟩

/-- The items of a list after one of them; `seen` holds those before, last one first. -/
def itemsAfter (element : (c : Cursor) → Reading Json c) (seen : List Json) (c : Cursor) :
    Reading Json c :=
  match h : c.skipBlanks with
  | ⟨[], place⟩ => .error ⟨.endInList, place⟩
  | ⟨x :: cs, place⟩ =>
    have shorter : cs.length < c.rest.length := by
      have := c.length_skipBlanks_le
      rw [h] at this
      exact this
    if x = ']' then .ok ⟨(.arr seen.reverse, ⟨cs, place.after x⟩), shorter⟩
    else if x = ',' then
      let next := Cursor.skipBlanks ⟨cs, place.after x⟩
      have notLonger : next.rest.length ≤ cs.length := Cursor.length_skipBlanks_le _
      match next.rest.head? with
      | none => .error ⟨.endInValue, next.place⟩
      | some ']' => .error ⟨.trailingComma, next.ahead⟩
      | some _ => do
        let ⟨(item, stop), hs⟩ ← element next
        (itemsAfter element (item :: seen) stop).widen (by simp at hs; omega)
    else .error ⟨.noCommaOrBracket, Cursor.ahead ⟨x :: cs, place⟩⟩
termination_by c.rest.length
decreasing_by simp at hs; omega

def items (element : (c : Cursor) → Reading Json c) (c : Cursor) : Reading Json c :=
  match h : c.skipBlanks with
  | ⟨[], place⟩ => .error ⟨.endInList, place⟩
  | ⟨x :: cs, place⟩ =>
    have notLonger : cs.length + 1 ≤ c.rest.length := by
      have := c.length_skipBlanks_le
      rw [h] at this
      exact this
    if x = ']' then .ok ⟨(.arr [], ⟨cs, place.after x⟩), notLonger⟩
    else do
      let ⟨(item, stop), hs⟩ ← element ⟨x :: cs, place⟩
      (itemsAfter element [item] stop).widen (by simp at hs; omega)

/-- A member from behind the quote of its key. -/
def member (element : (c : Cursor) → Reading Json c) (c : Cursor) :
    Reading (String × Json) c := do
  let ⟨(key, afterKey), h₁⟩ ← string c
  match h : afterKey.skipBlanks with
  | ⟨[], place⟩ => .error ⟨.endInObject, place⟩
  | ⟨x :: cs, place⟩ =>
    have notLonger : cs.length + 1 ≤ afterKey.rest.length := by
      have := afterKey.length_skipBlanks_le
      rw [h] at this
      exact this
    if x = ':' then
      let next := Cursor.skipBlanks ⟨cs, place.after x⟩
      have notLonger' : next.rest.length ≤ cs.length := Cursor.length_skipBlanks_le _
      let ⟨(value, stop), h₂⟩ ← element next
      .ok ⟨((key, value), stop), by simp at h₁ h₂ ⊢; omega⟩
    else .error ⟨.noColon, Cursor.ahead ⟨x :: cs, place⟩⟩

/-- The members of an object after one of them. A repeated key keeps its place and takes the last
value. -/
def membersAfter (element : (c : Cursor) → Reading Json c) (seen : List (String × Json))
    (c : Cursor) : Reading Json c :=
  match h : c.skipBlanks with
  | ⟨[], place⟩ => .error ⟨.endInObject, place⟩
  | ⟨x :: cs, place⟩ =>
    have shorter : cs.length < c.rest.length := by
      have := c.length_skipBlanks_le
      rw [h] at this
      exact this
    if x = '\x7d' then .ok ⟨(.obj seen, ⟨cs, place.after x⟩), shorter⟩
    else if x = ',' then
      match hn : Cursor.skipBlanks ⟨cs, place.after x⟩ with
      | ⟨[], stop⟩ => .error ⟨.endInValue, stop⟩
      | ⟨y :: ds, start⟩ =>
        have notLonger : ds.length + 1 ≤ cs.length := by
          have := Cursor.length_skipBlanks_le ⟨cs, place.after x⟩
          rw [hn] at this
          exact this
        if y = '"' then do
          let ⟨((key, value), stop), hs⟩ ← member element ⟨ds, start.after y⟩
          (membersAfter element (put key value seen) stop).widen (by simp at hs; omega)
        else
          .error ⟨if y = '\x7d' then .trailingComma else .keyNotString,
            Cursor.ahead ⟨y :: ds, start⟩⟩
    else .error ⟨.noCommaOrBrace, Cursor.ahead ⟨x :: cs, place⟩⟩
termination_by c.rest.length
decreasing_by simp at hs; omega

def members (element : (c : Cursor) → Reading Json c) (c : Cursor) : Reading Json c :=
  match h : c.skipBlanks with
  | ⟨[], place⟩ => .error ⟨.endInObject, place⟩
  | ⟨x :: cs, place⟩ =>
    have notLonger : cs.length + 1 ≤ c.rest.length := by
      have := c.length_skipBlanks_le
      rw [h] at this
      exact this
    if x = '\x7d' then .ok ⟨(.obj [], ⟨cs, place.after x⟩), notLonger⟩
    else if x = '"' then do
      let ⟨((key, value), stop), hs⟩ ← member element ⟨cs, place.after x⟩
      (membersAfter element [(key, value)] stop).widen (by simp at hs; omega)
    else .error ⟨.keyNotString, Cursor.ahead ⟨x :: cs, place⟩⟩

/-- A value at `c`, where `depth` brackets may still be opened. -/
def value (depth : Nat) (c : Cursor) : Reading Json c :=
  match c with
  | ⟨[], place⟩ => .error ⟨.endInValue, place⟩
  | ⟨x :: cs, place⟩ =>
    let next : Cursor := ⟨cs, place.after x⟩
    match x with
    | 'n' => (word .null "ull".toList next).widen (by simp [next])
    | 't' => (word (.bool true) "rue".toList next).widen (by simp [next])
    | 'f' => (word (.bool false) "alse".toList next).widen (by simp [next])
    | '"' => do
      let ⟨(s, stop), h⟩ ← string next
      .ok ⟨(.str s, stop), by simp [next] at h ⊢; omega⟩
    | '[' =>
      match depth with
      | 0 => .error ⟨.tooDeep, Cursor.ahead ⟨x :: cs, place⟩⟩
      | depth + 1 => (items (value depth) next).widen (by simp [next])
    | '\x7b' =>
      match depth with
      | 0 => .error ⟨.tooDeep, Cursor.ahead ⟨x :: cs, place⟩⟩
      | depth + 1 => (members (value depth) next).widen (by simp [next])
    | x =>
      if x = '-' ∨ x.isDigit then do
        let ⟨(n, stop), h⟩ ← number ⟨x :: cs, place⟩
        .ok ⟨(.num n, stop), h⟩
      else .error ⟨.noValue, Cursor.ahead ⟨x :: cs, place⟩⟩

/-- The value that `text` consists of, with at most `depth` nested brackets. -/
def ofText (depth : Nat) (text : String) : Except SyntaxError Json := do
  let ⟨(v, stop), _⟩ ← value depth (Cursor.ofText text).skipBlanks
  let stop := stop.skipBlanks
  if stop.rest.isEmpty then .ok v else .error ⟨.trailingText, stop.ahead⟩

/-- How deep the brackets of a document may be nested. -/
def documentDepth : Nat := 127

/-- The value of a document, or what is wrong with it. -/
def ofDocument (text : String) : Except String Json :=
  (ofText documentDepth text).mapError SyntaxError.message

end PacketTypings.Json
