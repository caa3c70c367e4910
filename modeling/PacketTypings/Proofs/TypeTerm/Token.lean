import PacketTypings.Proofs.TypeTerm.Note
import PacketTypings.Text.Char

/-! The tokens of a written type. Blanks and comments are left out and a text between quotes is
decoded; a line feed is a token, since it ends a member of a record. Main statements: what is
written for a name, for a literal and for a note is read as that name, that literal and nothing. -/

namespace PacketTypings.TypeText

open Text (hexValue? isBlank)

inductive Token where
  | word (name : String)
  | literal (value : String)
  | bar | ampersand | comma | colon | lineEnd
  | parenOpen | parenClose | bracketOpen | bracketClose | braceOpen | braceClose
deriving DecidableEq, Repr

/-- The characters of identifiers and of the dots between them. No character outside of ASCII
stands for anything else. -/
def isWordChar (c : Char) : Bool := isIdentifierPart c || c = '.' || decide (128 ≤ c.toNat)

def isLineEnd (c : Char) : Bool := c = '\n' || c = '\r' || c = '\u2028' || c = '\u2029'

def punctuation? : Char → Option Token
  | '|' => some .bar
  | '&' => some .ampersand
  | ',' => some .comma
  | ':' => some .colon
  | '\n' => some .lineEnd
  | '(' => some .parenOpen
  | ')' => some .parenClose
  | '[' => some .bracketOpen
  | ']' => some .bracketClose
  | '\x7b' => some .braceOpen
  | '\x7d' => some .braceClose
  | _ => none

/-- The character that a backslash and `c` stand for. -/
def unescape? (c : Char) : Option Char :=
  match c with
  | 'n' => some '\n'
  | 'r' => some '\r'
  | 't' => some '\t'
  | 'b' => some '\x08'
  | 'f' => some '\x0c'
  | 'v' => some '\x0b'
  | 'x' => none
  | _ => if c.isDigit || isLineEnd c then none else some c

/-- What stands before the next character: a part of a token or of a comment. -/
inductive Mode where
  | between
  | word (cs : List Char)
  | slash
  | comment
  /-- Behind a star in a comment. -/
  | star
  | literal (cs : List Char)
  | escape (cs : List Char)
  /-- Behind so many digits of a code of four, with that value. -/
  | code (cs : List Char) (count value : Nat)
deriving DecidableEq, Repr

namespace Mode

/-- The character after a whole token. -/
def start (c : Char) : Option (List Token × Mode) :=
  if isBlank c then some ([], between)
  else if c = quote then some ([], literal [])
  else if c = '/' then some ([], slash)
  else if isWordChar c then some ([], word [c])
  else (punctuation? c).map fun t => ([t], between)

def code? (cs : List Char) (count value : Nat) : Option Mode :=
  if count < 4 then some (code cs count value)
  else if value.isValidChar then some (literal (cs ++ [Char.ofNat value]))
  else none

def step : Mode → Char → Option (List Token × Mode)
  | between, c => start c
  | word cs, c =>
    if isWordChar c then some ([], word (cs ++ [c]))
    else (start c).map fun (ts, m) => (.word (String.ofList cs) :: ts, m)
  | slash, c => if c = '*' then some ([], comment) else none
  | comment, c => some ([], if c = '*' then star else comment)
  | star, c => some ([], if c = '/' then between else if c = '*' then star else comment)
  | literal cs, c =>
    if c = quote then some ([.literal (String.ofList cs)], between)
    else if c = '\\' then some ([], escape cs)
    else if isLineEnd c then none
    else some ([], literal (cs ++ [c]))
  | escape cs, c =>
    if c = 'u' then some ([], code cs 0 0)
    else (unescape? c).map fun d => ([], literal (cs ++ [d]))
  | code cs count value, c =>
    (hexValue? c).bind fun d => (code? cs (count + 1) (16 * value + d)).map fun m => ([], m)

/-- The token that the end of the text completes. -/
def finish : Mode → Option (List Token)
  | between => some []
  | word cs => some [.word (String.ofList cs)]
  | _ => none

end Mode

/-- Tokens in front of those of the rest. -/
def prepend (ts : List Token) (rest : Option (List Token)) : Option (List Token) :=
  rest.map (ts ++ ·)

def scan : Mode → List Char → Option (List Token)
  | m, [] => m.finish
  | m, c :: cs => (m.step c).bind fun (ts, m') => prepend ts (scan m' cs)

@[simp] theorem prepend_nil (rest : Option (List Token)) : prepend [] rest = rest := by
  cases rest <;> rfl

@[simp] theorem prepend_none (ts : List Token) : prepend ts none = none := rfl

@[simp] theorem prepend_prepend (ts us : List Token) (rest : Option (List Token)) :
    prepend ts (prepend us rest) = prepend (ts ++ us) rest := by
  cases rest <;> simp [prepend]

theorem scan_cons_of_step {m m' : Mode} {c : Char} {ts : List Token}
    (h : m.step c = some (ts, m')) (cs : List Char) :
    scan m (c :: cs) = prepend ts (scan m' cs) := by
  rw [scan, h]
  rfl

/-- No word goes on there. -/
def Delimited (cs : List Char) : Prop := ∀ c ∈ cs.head?, isWordChar c = false

theorem delimited_nil : Delimited [] := nofun

theorem delimited_cons {c : Char} (h : isWordChar c = false) (cs : List Char) :
    Delimited (c :: cs) := by
  rintro _ ⟨⟩
  exact h

/-- A name that is read as one word, such as an identifier or several with dots between them. -/
def IsWord (name : String) : Prop := name.toList ≠ [] ∧ name.toList.all isWordChar = true

theorem isWordChar_of_start {c : Char} (h : isIdentifierStart c = true) : isWordChar c = true := by
  simp only [isIdentifierStart, Bool.or_eq_true] at h
  rcases h with (h | h) | h <;> simp [isWordChar, isIdentifierPart, Char.isAlphanum, h]

theorem isWord_of_isIdentifier {name : String} (h : isIdentifier name.toList = true) :
    IsWord name := by
  cases hname : name.toList with
  | nil => rw [hname] at h; cases h
  | cons c cs =>
    rw [hname, isIdentifier, Bool.and_eq_true, List.all_eq_true] at h
    refine ⟨by simp [hname], ?_⟩
    rw [hname, List.all_cons, Bool.and_eq_true, List.all_eq_true]
    exact ⟨isWordChar_of_start h.1, fun d hd => by simp [isWordChar, h.2 d hd]⟩

/-- Identifiers with dots between them are one word. -/
theorem isWord_intercalate {pieces : List String} (hne : pieces ≠ [])
    (h : ∀ p ∈ pieces, isIdentifier p.toList = true) : IsWord (String.intercalate "." pieces) := by
  induction pieces with
  | nil => exact absurd rfl hne
  | cons p rest ih =>
    obtain ⟨hp, hrest⟩ := List.forall_mem_cons.1 h
    have hword := isWord_of_isIdentifier hp
    cases rest with
    | nil => simpa using hword
    | cons q rest =>
      have hrest' := ih (List.cons_ne_nil q rest) hrest
      rw [String.intercalate_cons_cons]
      refine ⟨by simp [hword.1], ?_⟩
      simp only [String.toList_append, List.all_append, hword.2, hrest'.2]
      rfl

theorem scan_blank (cs : List Char) : scan .between (' ' :: cs) = scan .between cs := by
  rw [scan_cons_of_step rfl, prepend_nil]

theorem step_punctuation {c : Char} {t : Token} (h : punctuation? c = some t) :
    Mode.between.step c = some ([t], .between) := by
  unfold punctuation? at h
  split at h <;> cases h <;> rfl

theorem scan_punctuation {c : Char} {t : Token} (h : punctuation? c = some t) (cs : List Char) :
    scan .between (c :: cs) = prepend [t] (scan .between cs) :=
  scan_cons_of_step (step_punctuation h) cs

theorem step_word {c : Char} (h : isWordChar c = true) :
    Mode.between.step c = some ([], .word [c]) := by
  have hblank : isBlank c = false := by
    rw [isBlank, Bool.or_eq_false_iff, decide_eq_false_iff_not, decide_eq_false_iff_not]
    constructor <;> rintro rfl <;> exact absurd h (by decide)
  have hquote : c ≠ quote := by rintro rfl; exact absurd h (by decide)
  have hslash : c ≠ '/' := by rintro rfl; exact absurd h (by decide)
  rw [Mode.step, Mode.start, hblank, if_neg (by decide), if_neg hquote, if_neg hslash, if_pos h]

theorem scan_word_append {cs : List Char} (h : ∀ c ∈ cs, isWordChar c = true) (before : List Char)
    {rest : List Char} (hrest : Delimited rest) :
    scan (.word before) (cs ++ rest) =
      prepend [.word (String.ofList (before ++ cs))] (scan .between rest) := by
  induction cs generalizing before with
  | nil =>
    cases rest with
    | nil => simp [scan, Mode.finish, prepend]
    | cons c rest =>
      have hc : isWordChar c = false := hrest c rfl
      rw [List.nil_append, List.append_nil, scan, scan, Mode.step, Mode.step, hc]
      cases Mode.start c <;> simp
  | cons c cs ih =>
    have hc := h c List.mem_cons_self
    have hstep : (Mode.word before).step c = some ([], .word (before ++ [c])) := by
      rw [Mode.step, if_pos hc]
    rw [List.cons_append, scan_cons_of_step hstep, prepend_nil,
      ih fun d hd => h d (List.mem_cons_of_mem _ hd)]
    simp

theorem scan_name {name : String} (h : IsWord name) {rest : List Char} (hrest : Delimited rest) :
    scan .between (name.toList ++ rest) = prepend [.word name] (scan .between rest) := by
  obtain ⟨hne, hall⟩ := h
  rw [List.all_eq_true] at hall
  cases hname : name.toList with
  | nil => exact absurd hname hne
  | cons c cs =>
    rw [hname] at hall
    rw [List.cons_append, scan_cons_of_step (step_word (hall c List.mem_cons_self)), prepend_nil,
      scan_word_append (fun d hd => hall d (List.mem_cons_of_mem _ hd)) [c] hrest,
      List.singleton_append, ← hname, String.ofList_toList]

theorem scan_digit {before : List Char} {count value n : Nat} {c : Char} {m : Mode}
    (hn : hexValue? c = some n) (hm : Mode.code? before (count + 1) (16 * value + n) = some m)
    (cs : List Char) : scan (.code before count value) (c :: cs) = scan m cs := by
  have hstep : (Mode.code before count value).step c = some ([], m) := by
    rw [Mode.step, hn, Option.bind_some, hm]
    rfl
  rw [scan_cons_of_step hstep, prepend_nil]

/-- A code of four digits is read as the character with that number. -/
theorem scan_code (before : List Char) {a b c d e : Char} {i j k l : Nat}
    (ha : hexValue? a = some i) (hb : hexValue? b = some j) (hc : hexValue? c = some k)
    (hd : hexValue? d = some l)
    (he : Mode.code? before 4 (16 * (16 * (16 * (16 * 0 + i) + j) + k) + l) =
      some (.literal (before ++ [e]))) (rest : List Char) :
    scan (.literal before) ('\\' :: 'u' :: a :: b :: c :: d :: rest) =
      scan (.literal (before ++ [e])) rest := by
  rw [scan_cons_of_step rfl, prepend_nil, scan_cons_of_step rfl, prepend_nil, scan_digit ha rfl,
    scan_digit hb rfl, scan_digit hc rfl]
  exact scan_digit hd he rest

/-- What is written for a character is read as that character. -/
theorem scan_escapeLiteral (before : List Char) (c : Char) (rest : List Char) :
    scan (.literal before) (escapeLiteral c ++ rest) = scan (.literal (before ++ [c])) rest := by
  unfold escapeLiteral
  split
  · next h =>
    rcases h with rfl | rfl <;> simp [scan, Mode.step, unescape?, quote, Char.isDigit, isLineEnd]
  split
  · next h => subst h; simp [scan, Mode.step, unescape?, quote]
  split
  · next h => subst h; simp [scan, Mode.step, unescape?, quote]
  split
  · next h =>
    subst h
    exact scan_code before rfl rfl rfl rfl rfl rest
  split
  · next h =>
    subst h
    exact scan_code before rfl rfl rfl rfl rfl rest
  · next h hn hr hline hparagraph =>
    rw [not_or] at h
    have hstep : (Mode.literal before).step c = some ([], .literal (before ++ [c])) := by
      simp [Mode.step, isLineEnd, *]
    rw [List.singleton_append, scan_cons_of_step hstep, prepend_nil]

theorem scan_literal_append (before cs rest : List Char) :
    scan (.literal before) (cs.flatMap escapeLiteral ++ quote :: rest) =
      prepend [.literal (String.ofList (before ++ cs))] (scan .between rest) := by
  induction cs generalizing before with
  | nil =>
    rw [List.append_nil]
    exact scan_cons_of_step rfl rest
  | cons c cs ih =>
    rw [List.flatMap_cons, List.append_assoc, scan_escapeLiteral, ih, List.append_assoc]
    rfl

theorem scan_literal (value : String) (rest : List Char) :
    scan .between (literalChars value ++ rest) = prepend [.literal value] (scan .between rest) := by
  rw [literalChars, List.cons_append, List.append_assoc, scan_cons_of_step rfl, prepend_nil,
    List.singleton_append, scan_literal_append, List.nil_append, String.ofList_toList]

/-- A star does not end a comment unless a slash follows. -/
theorem scan_star {cs : List Char} (h : cs.head? ≠ some '/') :
    scan .star cs = scan .comment cs := by
  cases cs with
  | nil => rfl
  | cons c cs =>
    have hc : c ≠ '/' := fun hc => h (congrArg some hc)
    rw [scan, scan, Mode.step, Mode.step, if_neg hc]

theorem scan_comment {c : Char} (h : c ≠ '*') (cs : List Char) :
    scan .comment (c :: cs) = scan .comment cs := by
  have hstep : Mode.comment.step c = some ([], .comment) := by rw [Mode.step, if_neg h]
  rw [scan_cons_of_step hstep, prepend_nil]

/-- A comment goes on up to the first end of a comment behind its opening. -/
theorem scan_comment_append {body : List Char} (h : ¬ commentEnd <:+: body) (rest : List Char) :
    scan .comment (body ++ commentEnd ++ rest) = scan .between rest := by
  induction body with
  | nil => simp [commentEnd, scan, Mode.step]
  | cons c cs ih =>
    have hcs : ¬ commentEnd <:+: cs := fun hinside =>
      h (hinside.trans (List.suffix_cons c cs).isInfix)
    rw [← ih hcs, List.cons_append, List.cons_append]
    by_cases hstar : c = '*'
    · subst hstar
      rw [scan_cons_of_step rfl, prepend_nil]
      refine scan_star fun hslash => ?_
      cases cs with
      | nil => simp [commentEnd] at hslash
      | cons d cs =>
        obtain rfl : d = '/' := by simpa using hslash
        exact h ⟨[], cs, rfl⟩
    · exact scan_comment hstar _

/-- A note stays in its comment. -/
theorem scan_noteChars (cs rest : List Char) :
    scan .comment (noteChars cs ++ " */".toList ++ rest) = scan .between rest := by
  have hbody : ¬ commentEnd <:+: noteChars cs ++ [' '] :=
    not_commentEnd_infix_concat (not_commentEnd_infix_noteChars cs) (by decide)
  rw [← scan_comment_append hbody rest]
  simp [commentEnd]

end PacketTypings.TypeText
