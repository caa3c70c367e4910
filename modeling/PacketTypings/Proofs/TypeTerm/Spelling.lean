import PacketTypings.Proofs.TypeTerm.Leaves

/-! The tokens of a type. Main statement: the text of a type is scanned as its tokens, at every
level and whatever follows it. -/

namespace PacketTypings
namespace TypeTerm

open TypeText

def groundTokens (name : String) : List Token :=
  if name = Ground.vector.text then
    [.bracketOpen, .word "number", .comma, .word "number", .comma, .word "number", .bracketClose]
  else [.word name]

def keyToken (key : String) : Token :=
  if isIdentifier key.toList then .word key else .literal key

def parenthesizedTokens (b : Bool) (ts : List Token) : List Token :=
  if b then .parenOpen :: (ts ++ [.parenClose]) else ts

mutual

def tokens : TypeTerm → List Token
  | primitive name => groundTokens name
  | reference name => [.word name]
  | text value => [.literal value]
  | truth true => [.word "true"]
  | truth false => [.word "false"]
  | record [] => [.braceOpen, .braceClose]
  | record (m :: ms) => .braceOpen :: .lineEnd :: (memberTokens (m :: ms) ++ [.braceClose])
  | array element =>
    parenthesizedTokens element.isLooseElement element.tokens ++ [.bracketOpen, .bracketClose]
  | union parts => unionTokens parts
  | intersection [] => [.word "unknown"]
  | intersection [t] => t.tokens
  | intersection (t :: u :: rest) =>
    parenthesizedTokens t.isCompoundUnion t.tokens ++ operandTokens (u :: rest)
  | annotated inner _ => inner.tokens

def memberTokens : List (String × TypeTerm) → List Token
  | [] => []
  | (key, t) :: rest => keyToken key :: .colon :: (t.tokens ++ .lineEnd :: memberTokens rest)

def unionTokens : List TypeTerm → List Token
  | [] => [.word "never"]
  | t :: rest => t.tokens ++ alternativeTokens rest

def alternativeTokens : List TypeTerm → List Token
  | [] => []
  | t :: rest => .bar :: (t.tokens ++ alternativeTokens rest)

def operandTokens : List TypeTerm → List Token
  | [] => []
  | t :: rest =>
    .ampersand :: (parenthesizedTokens t.isCompoundUnion t.tokens ++ operandTokens rest)

end

theorem chars_record_cons (level : Nat) (m : String × TypeTerm) (ms : List (String × TypeTerm)) :
    (record (m :: ms)).chars level =
      '\x7b' :: '\n' :: (membersChars (level + 1) (m :: ms) ++ (indentation level ++ ['\x7d'])) :=
  rfl

theorem chars_array (level : Nat) (element : TypeTerm) : (array element).chars level =
    parenthesized element.isLooseElement (element.chars level) ++ ['[', ']'] := rfl

theorem chars_union_cons (level : Nat) (t : TypeTerm) (rest : List TypeTerm) :
    (union (t :: rest)).chars level = t.chars level ++ alternativesChars level rest := rfl

theorem chars_intersection_cons (level : Nat) (t u : TypeTerm) (rest : List TypeTerm) :
    (intersection (t :: u :: rest)).chars level =
      parenthesized t.isCompoundUnion (t.chars level) ++ operandsChars level (u :: rest) := rfl

theorem chars_annotated (level : Nat) (inner : TypeTerm) (note : String) :
    (annotated inner note).chars level =
      inner.chars level ++ " /* ".toList ++ noteChars note.toList ++ " */".toList := rfl

/-- The text of the type is scanned as its tokens, unless a word goes on behind it. -/
def Spelled (e : TypeTerm) : Prop := ∀ level rest, Delimited rest →
  scan .between (e.chars level ++ rest) = prepend e.tokens (scan .between rest)

theorem scan_ground {name : String} (h : IsGround name) {rest : List Char}
    (hrest : Delimited rest) :
    scan .between (name.toList ++ rest) = prepend (groundTokens name) (scan .between rest) := by
  have hnumber {rest : List Char} (hrest : Delimited rest) :
      scan .between ("number".toList ++ rest) = prepend [.word "number"] (scan .between rest) :=
    scan_name (by constructor <;> decide) hrest
  rcases h with rfl | ⟨g, rfl⟩
  · exact scan_name (by constructor <;> decide) hrest
  cases g with
  | vector =>
    have hvector : Ground.vector.text.toList = '[' :: ("number".toList ++ ',' :: ' ' ::
        ("number".toList ++ ',' :: ' ' :: ("number".toList ++ [']']))) := rfl
    simp only [hvector, List.cons_append, List.append_assoc]
    rw [scan_punctuation rfl, hnumber (delimited_cons rfl _), scan_punctuation rfl, scan_blank,
      hnumber (delimited_cons rfl _), scan_punctuation rfl, scan_blank,
      hnumber (delimited_cons rfl _), scan_punctuation rfl]
    simp [groundTokens]
  | number => exact hnumber hrest
  | boolean => exact scan_name (by constructor <;> decide) hrest
  | string => exact scan_name (by constructor <;> decide) hrest
  | bytes => exact scan_name (by constructor <;> decide) hrest
  | any => exact scan_name (by constructor <;> decide) hrest

theorem scan_keyChars (key : String) {rest : List Char} (hrest : Delimited rest) :
    scan .between (keyChars key ++ rest) = prepend [keyToken key] (scan .between rest) := by
  unfold keyChars keyToken
  split
  · next h => exact scan_name (isWord_of_isIdentifier h) hrest
  · exact scan_literal key rest

theorem scan_indentation (level : Nat) (rest : List Char) :
    scan .between (indentation level ++ rest) = scan .between rest := by
  unfold indentation
  induction 2 * level with
  | zero => rfl
  | succ n ih => rw [List.replicate_succ, List.cons_append, scan_blank, ih]

theorem Spelled.parenthesized {e : TypeTerm} (h : e.Spelled) (b : Bool) (level : Nat)
    {rest : List Char} (hrest : Delimited rest) :
    scan .between (TypeTerm.parenthesized b (e.chars level) ++ rest) =
      prepend (parenthesizedTokens b e.tokens) (scan .between rest) := by
  cases b with
  | false => exact h level rest hrest
  | true =>
    simp only [TypeTerm.parenthesized, parenthesizedTokens, if_true, List.cons_append,
      List.append_assoc, List.nil_append]
    rw [scan_punctuation rfl, h level _ (delimited_cons rfl rest), scan_punctuation rfl]
    simp

theorem delimited_alternativesChars (level : Nat) (parts : List TypeTerm) {rest : List Char}
    (hrest : Delimited rest) : Delimited (alternativesChars level parts ++ rest) := by
  cases parts with
  | nil => exact hrest
  | cons t parts => exact delimited_cons rfl _

theorem delimited_operandsChars (level : Nat) (parts : List TypeTerm) {rest : List Char}
    (hrest : Delimited rest) : Delimited (operandsChars level parts ++ rest) := by
  cases parts with
  | nil => exact hrest
  | cons t parts => exact delimited_cons rfl _

theorem scan_alternativesChars {parts : List TypeTerm} (h : ∀ p ∈ parts, p.Spelled) (level : Nat)
    {rest : List Char} (hrest : Delimited rest) :
    scan .between (alternativesChars level parts ++ rest) =
      prepend (alternativeTokens parts) (scan .between rest) := by
  induction parts with
  | nil => simp [alternativesChars, alternativeTokens]
  | cons t parts ih =>
    obtain ⟨ht, hparts⟩ := List.forall_mem_cons.1 h
    have hbar (cs : List Char) : scan .between (" | ".toList ++ cs) =
        prepend [.bar] (scan .between cs) := by
      change scan .between (' ' :: '|' :: ' ' :: cs) = _
      rw [scan_blank, scan_punctuation rfl, scan_blank]
    rw [alternativesChars, List.append_assoc, List.append_assoc, hbar,
      ht level _ (delimited_alternativesChars level parts hrest), ih hparts]
    simp [alternativeTokens]

theorem scan_operandsChars {parts : List TypeTerm} (h : ∀ p ∈ parts, p.Spelled) (level : Nat)
    {rest : List Char} (hrest : Delimited rest) :
    scan .between (operandsChars level parts ++ rest) =
      prepend (operandTokens parts) (scan .between rest) := by
  induction parts with
  | nil => simp [operandsChars, operandTokens]
  | cons t parts ih =>
    obtain ⟨ht, hparts⟩ := List.forall_mem_cons.1 h
    have hampersand (cs : List Char) : scan .between (" & ".toList ++ cs) =
        prepend [.ampersand] (scan .between cs) := by
      change scan .between (' ' :: '&' :: ' ' :: cs) = _
      rw [scan_blank, scan_punctuation rfl, scan_blank]
    rw [operandsChars, List.append_assoc, List.append_assoc, hampersand,
      ht.parenthesized _ level (delimited_operandsChars level parts hrest), ih hparts]
    simp [operandTokens]

theorem scan_membersChars {members : List (String × TypeTerm)} (h : ∀ m ∈ members, m.2.Spelled)
    (level : Nat) (rest : List Char) :
    scan .between (membersChars level members ++ rest) =
      prepend (memberTokens members) (scan .between rest) := by
  induction members with
  | nil => simp [membersChars, memberTokens]
  | cons m members ih =>
    obtain ⟨key, t⟩ := m
    obtain ⟨ht, hmembers⟩ := List.forall_mem_cons.1 h
    have hcolon (cs : List Char) : scan .between (": ".toList ++ cs) =
        prepend [.colon] (scan .between cs) := by
      change scan .between (':' :: ' ' :: cs) = _
      rw [scan_punctuation rfl, scan_blank]
    have hdelimited (cs : List Char) : Delimited (": ".toList ++ cs) := delimited_cons rfl _
    simp only [membersChars, List.append_assoc, List.cons_append]
    rw [scan_indentation, scan_keyChars key (hdelimited _), hcolon,
      ht level _ (delimited_cons rfl _), scan_punctuation rfl, ih hmembers]
    simp [memberTokens]

theorem spelled_word {e : TypeTerm} {name : String} (hchars : ∀ level, e.chars level = name.toList)
    (htokens : e.tokens = [.word name]) (h : IsWord name) : e.Spelled := by
  intro level rest hrest
  rw [hchars, htokens, scan_name h hrest]

theorem spelled_record {members : List (String × TypeTerm)} (h : ∀ m ∈ members, m.2.Spelled) :
    (record members).Spelled := by
  intro level rest hrest
  cases members with
  | nil =>
    change scan .between ('\x7b' :: '\x7d' :: rest) = _
    rw [scan_punctuation rfl, scan_punctuation rfl]
    simp [tokens]
  | cons m ms =>
    simp only [chars_record_cons, List.cons_append, List.append_assoc, List.nil_append]
    rw [scan_punctuation rfl, scan_punctuation rfl, scan_membersChars h, scan_indentation,
      scan_punctuation rfl]
    simp [tokens]

theorem Spelled.array {element : TypeTerm} (h : element.Spelled) : (array element).Spelled := by
  intro level rest hrest
  simp only [chars_array, List.append_assoc, List.cons_append, List.nil_append]
  rw [h.parenthesized _ level (delimited_cons rfl _), scan_punctuation rfl, scan_punctuation rfl]
  simp [tokens]

theorem spelled_union {parts : List TypeTerm} (h : ∀ p ∈ parts, p.Spelled) :
    (union parts).Spelled := by
  cases parts with
  | nil => exact spelled_word (fun _ => rfl) rfl (by constructor <;> decide)
  | cons t parts =>
    intro level rest hrest
    obtain ⟨ht, hparts⟩ := List.forall_mem_cons.1 h
    rw [chars_union_cons, List.append_assoc,
      ht level _ (delimited_alternativesChars level parts hrest),
      scan_alternativesChars hparts level hrest]
    simp [tokens, unionTokens]

theorem spelled_intersection {parts : List TypeTerm} (h : ∀ p ∈ parts, p.Spelled) :
    (intersection parts).Spelled := by
  cases parts with
  | nil => exact spelled_word (fun _ => rfl) rfl (by constructor <;> decide)
  | cons t parts =>
    intro level rest hrest
    obtain ⟨ht, hparts⟩ := List.forall_mem_cons.1 h
    cases parts with
    | nil => exact ht level rest hrest
    | cons u parts =>
      rw [chars_intersection_cons, List.append_assoc,
        ht.parenthesized _ level (delimited_operandsChars level (u :: parts) hrest),
        scan_operandsChars hparts level hrest]
      simp [tokens]

theorem Spelled.annotated {inner : TypeTerm} (h : inner.Spelled) (note : String) :
    (annotated inner note).Spelled := by
  intro level rest hrest
  have hnote : " /* ".toList ++ (noteChars note.toList ++ (" */".toList ++ rest)) =
    ' ' :: '/' :: '*' :: ' ' :: (noteChars note.toList ++ " */".toList ++ rest) := by simp
  simp only [chars_annotated, List.append_assoc]
  rw [hnote, h level _ (delimited_cons rfl _), scan_blank, scan_cons_of_step rfl,
    scan_cons_of_step rfl, prepend_nil, prepend_nil, scan_comment (by decide), scan_noteChars,
    tokens]

/-- The text of a type is scanned as the tokens of the type. -/
theorem spelled_of_readable {e : TypeTerm} (h : e.Readable) : e.Spelled := by
  induction e with
  | primitive name =>
    intro level rest hrest
    exact scan_ground (h.1 name (List.mem_singleton.2 rfl)) hrest
  | reference name =>
    exact spelled_word (fun _ => rfl) rfl (h.2 name (List.mem_singleton.2 rfl))
  | text value =>
    intro level rest hrest
    exact scan_literal value rest
  | truth value =>
    cases value with
    | true => exact spelled_word (fun _ => rfl) rfl (by constructor <;> decide)
    | false => exact spelled_word (fun _ => rfl) rfl (by constructor <;> decide)
  | record members ih =>
    exact spelled_record fun m hm => ih m hm ((readable_inherited.record members).1 h m hm)
  | array element ih => exact (ih ((readable_inherited.array element).1 h)).array
  | union parts ih =>
    exact spelled_union fun p hp => ih p hp ((readable_inherited.union parts).1 h p hp)
  | intersection parts ih =>
    exact spelled_intersection fun p hp =>
      ih p hp ((readable_inherited.intersection parts).1 h p hp)
  | annotated inner note ih =>
    exact (ih ((readable_inherited.annotated inner note).1 h)).annotated note

end TypeTerm
end PacketTypings
