import PacketTypings.Proofs.TypeTerm.Token

/-! Literals and keys read back. A literal is read here by the rules of strict string literals,
those for escapes that are never written among them, up to the first quote that is not escaped.
Main statement: every literal and every key is read back from its text, whatever follows, and a key
is written bare exactly if it is an identifier of ASCII characters. -/

namespace PacketTypings

open TypeText
open Text (hexValue?)

namespace Literal

/-- The value of so many digits behind those of `value`, and what is behind them. -/
def digits? : Nat → Nat → List Char → Option (Nat × List Char)
  | 0, value, cs => some (value, cs)
  | _ + 1, _, [] => none
  | n + 1, value, c :: cs => (hexValue? c).bind fun d => digits? n (16 * value + d) cs

/-- The value of the digits before a closing brace behind those of `value`. -/
def braced? : Nat → List Char → Option (Nat × List Char)
  | _, [] => none
  | value, c :: cs =>
    if c = '\x7d' then some (value, cs)
    else (hexValue? c).bind fun d => braced? (16 * value + d) cs

/-- The character with that code. Half of a surrogate pair is none. -/
def coded? (code : Nat × List Char) : Option (Option Char × List Char) :=
  if code.1.isValidChar then some (some (Char.ofNat code.1), code.2) else none

/-- What a backslash and the beginning of the text stand for, and what is behind it. A line end
behind a backslash stands for nothing. -/
def escape? : List Char → Option (Option Char × List Char)
  | [] => none
  | 'x' :: cs => (digits? 2 0 cs).bind coded?
  | 'u' :: '\x7b' :: '\x7d' :: _ => none
  | 'u' :: '\x7b' :: cs => (braced? 0 cs).bind coded?
  | 'u' :: cs => (digits? 4 0 cs).bind coded?
  | '0' :: cs => if cs.head?.any Char.isDigit then none else some (some '\x00', cs)
  | '\r' :: '\n' :: cs => some (none, cs)
  | c :: cs =>
    if isLineEnd c then some (none, cs) else (unescape? c).map fun d => (some d, cs)

theorem length_digits? {n value : Nat} {cs : List Char} {code : Nat × List Char}
    (h : digits? n value cs = some code) : code.2.length ≤ cs.length := by
  induction n, value, cs using digits?.induct with
  | case1 value cs =>
    cases h
    exact Nat.le_refl _
  | case2 => cases h
  | case3 n value c cs ih =>
    obtain ⟨d, -, h⟩ := Option.bind_eq_some_iff.1 h
    exact Nat.le_succ_of_le (ih d h)

theorem length_braced? {value : Nat} {cs : List Char} {code : Nat × List Char}
    (h : braced? value cs = some code) : code.2.length ≤ cs.length := by
  induction value, cs using braced?.induct with
  | case1 => cases h
  | case2 value cs =>
    cases h
    exact Nat.le_succ _
  | case3 value c cs hc ih =>
    rw [braced?, if_neg hc] at h
    obtain ⟨d, -, h⟩ := Option.bind_eq_some_iff.1 h
    exact Nat.le_succ_of_le (ih d h)

theorem behind_of_coded? {code : Nat × List Char} {escape : Option Char × List Char}
    (h : coded? code = some escape) : escape.2 = code.2 := by
  unfold coded? at h
  split at h <;> cases h
  rfl

/-- Every escape takes a character off the text. -/
theorem length_escape? {cs : List Char} {escape : Option Char × List Char}
    (h : escape? cs = some escape) : escape.2.length < cs.length := by
  have hcoded {code? : Option (Nat × List Char)} {cs : List Char}
      (hlength : ∀ code ∈ code?, code.2.length ≤ cs.length)
      (h : code?.bind coded? = some escape) : escape.2.length ≤ cs.length := by
    obtain ⟨code, hcode, h⟩ := Option.bind_eq_some_iff.1 h
    rw [behind_of_coded? h]
    exact hlength code hcode
  unfold escape? at h
  split at h
  · cases h
  · exact Nat.lt_succ_of_le (hcoded (fun _ => length_digits?) h)
  · cases h
  · exact Nat.lt_succ_of_le (Nat.le_succ_of_le (hcoded (fun _ => length_braced?) h))
  · exact Nat.lt_succ_of_le (hcoded (fun _ => length_digits?) h)
  · split at h <;> cases h
    exact Nat.lt_succ_self _
  · cases h
    exact Nat.lt_succ_of_le (Nat.le_succ _)
  · split at h
    · cases h
      exact Nat.lt_succ_self _
    · obtain ⟨d, -, rfl⟩ := Option.map_eq_some_iff.1 h
      exact Nat.lt_succ_self _

/-- The value of the text behind an opening quote, and what is behind the first quote that is not
escaped. -/
def body? : List Char → Option (List Char × List Char)
  | [] => none
  | c :: cs =>
    if c = quote then some ([], cs)
    else if c = '\\' then
      match h : escape? cs with
      | none => none
      | some escape =>
        have : escape.2.length < cs.length := length_escape? h
        (body? escape.2).map (Prod.map (escape.1.toList ++ ·) id)
    else if c = '\n' ∨ c = '\r' then none
    else (body? cs).map (Prod.map (c :: ·) id)
termination_by cs => cs.length

/-- The value of the literal that a text begins with, and what is behind the literal. -/
def read? : List Char → Option (String × List Char)
  | [] => none
  | c :: cs => if c = quote then (body? cs).map (Prod.map String.ofList id) else none

theorem body?_quote (cs : List Char) : body? (quote :: cs) = some ([], cs) := by
  rw [body?, if_pos rfl]

theorem body?_escape {cs rest : List Char} {c : Char} (h : escape? cs = some (some c, rest)) :
    body? ('\\' :: cs) = (body? rest).map (Prod.map (c :: ·) id) := by
  rw [body?, if_neg (by decide), if_pos rfl]
  split
  · next hnone => rw [h] at hnone; cases hnone
  · next hsome =>
    rw [h] at hsome
    cases hsome
    rfl

theorem body?_plain {c : Char} (hquote : c ≠ quote) (hbackslash : c ≠ '\\')
    (hline : ¬(c = '\n' ∨ c = '\r')) (cs : List Char) :
    body? (c :: cs) = (body? cs).map (Prod.map (c :: ·) id) := by
  rw [body?, if_neg hquote, if_neg hbackslash, if_neg hline]

/-- What is written for a character is read as that character. -/
theorem body?_escapeLiteral (c : Char) (rest : List Char) :
    body? (escapeLiteral c ++ rest) = (body? rest).map (Prod.map (c :: ·) id) := by
  unfold escapeLiteral
  split
  · next h => rcases h with rfl | rfl <;> exact body?_escape rfl
  split
  · next h => subst h; exact body?_escape rfl
  split
  · next h => subst h; exact body?_escape rfl
  split
  · next h => subst h; exact body?_escape rfl
  split
  · next h => subst h; exact body?_escape rfl
  · next h hn hr _ _ =>
    rw [not_or] at h
    exact body?_plain h.1 h.2 (not_or.2 ⟨hn, hr⟩) rest

theorem body?_flatMap_append (cs rest : List Char) :
    body? (cs.flatMap escapeLiteral ++ quote :: rest) = some (cs, rest) := by
  induction cs with
  | nil => exact body?_quote rest
  | cons c cs ih =>
    rw [List.flatMap_cons, List.append_assoc, body?_escapeLiteral, ih]
    rfl

theorem read?_literalChars_append (s : String) (rest : List Char) :
    read? (literalChars s ++ rest) = some (s, rest) := by
  rw [literalChars, List.cons_append, List.append_assoc, read?, if_pos rfl, List.singleton_append,
    body?_flatMap_append, Option.map_some, Prod.map_apply, String.ofList_toList, id]

/-- A value is shorter than the text it is read from. -/
theorem length_body? {cs : List Char} {read : List Char × List Char} (h : body? cs = some read) :
    read.1.length + read.2.length < cs.length := by
  fun_induction body? cs generalizing read with
  | case1 => cases h
  | case2 cs =>
    cases h
    simp
  | case3 => cases h
  | case4 cs escape _ hshorter _ ih =>
    obtain ⟨⟨value, behind⟩, hbody, rfl⟩ := Option.map_eq_some_iff.1 h
    have hlength := ih hbody
    have hone : escape.1.toList.length ≤ 1 := by cases escape.1 <;> simp
    simp only [Prod.map_apply, id, List.length_append, List.length_cons] at hlength ⊢
    omega
  | case5 => cases h
  | case6 c cs _ _ _ ih =>
    obtain ⟨⟨value, behind⟩, hbody, rfl⟩ := Option.map_eq_some_iff.1 h
    have hlength := ih hbody
    simp only [Prod.map_apply, id, List.length_cons] at hlength ⊢
    omega

theorem length_read? {cs : List Char} {read : String × List Char} (h : read? cs = some read) :
    read.1.toList.length + read.2.length + 2 ≤ cs.length := by
  cases cs with
  | nil => cases h
  | cons c cs =>
    rw [read?] at h
    split at h
    · obtain ⟨⟨value, behind⟩, hbody, rfl⟩ := Option.map_eq_some_iff.1 h
      have hlength := length_body? hbody
      simp only [Prod.map_apply, id, String.toList_ofList, List.length_cons] at hlength ⊢
      omega
    · cases h

end Literal

/-! ### The text of a literal -/

/-- Every quote in the text is the second character of an escape. -/
inductive Escaped : List Char → Prop
  | nil : Escaped []
  | plain {c : Char} {cs : List Char} (notQuote : c ≠ quote) (notBackslash : c ≠ '\\')
      (rest : Escaped cs) : Escaped (c :: cs)
  | pair (c : Char) {cs : List Char} (rest : Escaped cs) : Escaped ('\\' :: c :: cs)

theorem Escaped.escapeLiteral_append (c : Char) {cs : List Char} (h : Escaped cs) :
    Escaped (escapeLiteral c ++ cs) := by
  have hcode (last : Char) (hquote : last ≠ quote) (hbackslash : last ≠ '\\') :
      Escaped ('\\' :: 'u' :: '2' :: '0' :: '2' :: last :: cs) := by
    refine .pair _ (.plain ?_ ?_ (.plain ?_ ?_ (.plain ?_ ?_ (.plain hquote hbackslash h))))
    all_goals decide
  unfold escapeLiteral
  split
  · exact .pair c h
  split
  · exact .pair 'n' h
  split
  · exact .pair 'r' h
  split
  · exact hcode '8' (by decide) (by decide)
  split
  · exact hcode '9' (by decide) (by decide)
  · next hspecial _ _ _ _ =>
    rw [not_or] at hspecial
    exact .plain hspecial.1 hspecial.2 h

theorem escaped_flatMap (cs : List Char) : Escaped (cs.flatMap escapeLiteral) := by
  induction cs with
  | nil => exact .nil
  | cons c cs ih => exact ih.escapeLiteral_append c

theorem all_escapeLiteral (c : Char) : (escapeLiteral c).all (!isLineEnd ·) = true := by
  unfold escapeLiteral
  split
  · next h => rcases h with rfl | rfl <;> decide
  repeat' split
  all_goals try decide
  simp [isLineEnd, *]

theorem isLineEnd_of_mem_literalChars {s : String} {c : Char} (h : c ∈ literalChars s) :
    isLineEnd c = false := by
  have hall : (literalChars s).all (!isLineEnd ·) = true := by
    have hquote : isLineEnd quote = false := by decide
    simp [literalChars, List.all_flatMap, all_escapeLiteral, hquote]
  simpa using List.all_eq_true.1 hall c h

theorem length_literalChars (s : String) : s.toList.length < (literalChars s).length := by
  have h := Literal.length_read? (Literal.read?_literalChars_append s [])
  rw [List.append_nil] at h
  exact Nat.lt_of_lt_of_le (by simp) h

/-! ### Keys -/

namespace TypeText

/-- The name that a text begins with, bare or between quotes, and what is behind the name. -/
def name? : List Char → Option (String × List Char)
  | [] => none
  | c :: cs =>
    if c = quote then Literal.read? (c :: cs)
    else if isIdentifierStart c then
      some (String.ofList (c :: cs.takeWhile isIdentifierPart), cs.dropWhile isIdentifierPart)
    else none

/-- No identifier goes on there. -/
def Ended (cs : List Char) : Prop := ∀ c ∈ cs.head?, isIdentifierPart c = false

theorem ended_nil : Ended [] := nofun

theorem ended_cons {c : Char} (h : isIdentifierPart c = false) (cs : List Char) :
    Ended (c :: cs) := by
  rintro _ ⟨⟩
  exact h

/-- Characters of one kind are taken off a text that goes on with another kind. -/
theorem span_append {p : Char → Bool} {cs rest : List Char} (h : ∀ c ∈ cs, p c = true)
    (hrest : ∀ c ∈ rest.head?, p c = false) :
    (cs ++ rest).takeWhile p = cs ∧ (cs ++ rest).dropWhile p = rest := by
  rw [List.takeWhile_append_of_pos h, List.dropWhile_append_of_pos h]
  cases rest with
  | nil => exact ⟨List.append_nil cs, rfl⟩
  | cons c rest =>
    have hc : p c = false := hrest c rfl
    simp [hc]

/-- A literal takes two more characters of the text than the name it stands for has. -/
theorem isIdentifier_of_name? {cs rest : List Char} {name : String}
    (h : name? cs = some (name, rest))
    (hlength : cs.length < name.toList.length + rest.length + 2) :
    isIdentifier name.toList = true := by
  cases cs with
  | nil => cases h
  | cons c cs =>
    rw [name?] at h
    split at h
    · exact absurd (Literal.length_read? h) (Nat.not_le_of_gt hlength)
    split at h
    · next hstart =>
      cases h
      rw [String.toList_ofList, isIdentifier, hstart, Bool.true_and]
      exact List.all_takeWhile
    · cases h

/-- A name that is written as it is is read back exactly if it is an identifier. -/
theorem name?_append_iff {name : String} {rest : List Char} (hrest : Ended rest) :
    name? (name.toList ++ rest) = some (name, rest) ↔ isIdentifier name.toList = true := by
  constructor
  · intro h
    refine isIdentifier_of_name? h ?_
    rw [List.length_append]
    exact Nat.lt_add_of_pos_right (by decide)
  · intro h
    cases hname : name.toList with
    | nil => rw [hname] at h; cases h
    | cons c cs =>
      rw [hname, isIdentifier, Bool.and_eq_true, List.all_eq_true] at h
      obtain ⟨hstart, hparts⟩ := h
      have hquote : c ≠ quote := by
        rintro rfl
        exact absurd hstart (by decide)
      obtain ⟨htake, hdrop⟩ := span_append hparts hrest
      rw [List.cons_append, name?, if_neg hquote, if_pos hstart, htake, hdrop, ← hname,
        String.ofList_toList]

theorem name?_keyChars_append (key : String) {rest : List Char} (hrest : Ended rest) :
    name? (keyChars key ++ rest) = some (key, rest) := by
  unfold keyChars
  split
  · next h => exact (name?_append_iff hrest).2 h
  · have hread := Literal.read?_literalChars_append key rest
    rw [literalChars, List.cons_append] at hread ⊢
    rw [name?, if_pos rfl, hread]

end TypeText

/-- Different keys have different texts. -/
theorem keyChars_injective : Function.Injective keyChars := by
  intro key key' h
  have hread := name?_keyChars_append key ended_nil
  rw [h, name?_keyChars_append key' ended_nil] at hread
  cases hread
  rfl

def IsAsciiLetter (c : Char) : Prop := 'a' ≤ c ∧ c ≤ 'z' ∨ 'A' ≤ c ∧ c ≤ 'Z'

/-- A letter, `_` or `$`, then more of these and digits. -/
def IsAsciiIdentifier (name : String) : Prop :=
  ∃ first rest, name.toList = first :: rest ∧
    (IsAsciiLetter first ∨ first = '_' ∨ first = '$') ∧
    ∀ c ∈ rest, IsAsciiLetter c ∨ ('0' ≤ c ∧ c ≤ '9') ∨ c = '_' ∨ c = '$'

theorem isAlpha_iff {c : Char} : c.isAlpha = true ↔ IsAsciiLetter c := by
  change (decide ('A' ≤ c ∧ c ≤ 'Z') || (decide ('a' ≤ c) && decide (c ≤ 'z'))) = true ↔ _
  simp only [IsAsciiLetter, Bool.or_eq_true, Bool.and_eq_true, decide_eq_true_eq]
  exact or_comm

theorem isDigit_iff {c : Char} : c.isDigit = true ↔ '0' ≤ c ∧ c ≤ '9' := by
  change (decide ('0' ≤ c) && decide (c ≤ '9')) = true ↔ _
  rw [Bool.and_eq_true, decide_eq_true_eq, decide_eq_true_eq]

theorem isIdentifierStart_iff {c : Char} :
    isIdentifierStart c = true ↔ IsAsciiLetter c ∨ c = '_' ∨ c = '$' := by
  simp only [isIdentifierStart, Bool.or_eq_true, decide_eq_true_eq, isAlpha_iff, or_assoc]

theorem isIdentifierPart_iff {c : Char} : isIdentifierPart c = true ↔
    IsAsciiLetter c ∨ ('0' ≤ c ∧ c ≤ '9') ∨ c = '_' ∨ c = '$' := by
  simp only [isIdentifierPart, Char.isAlphanum, Bool.or_eq_true, decide_eq_true_eq, isAlpha_iff,
    isDigit_iff, or_assoc]

theorem isIdentifier_iff {name : String} :
    isIdentifier name.toList = true ↔ IsAsciiIdentifier name := by
  unfold IsAsciiIdentifier
  cases name.toList with
  | nil => simp [isIdentifier]
  | cons c cs =>
    simp only [isIdentifier, Bool.and_eq_true, List.all_eq_true, isIdentifierStart_iff,
      isIdentifierPart_iff, List.cons.injEq]
    constructor
    · exact fun h => ⟨c, cs, ⟨rfl, rfl⟩, h⟩
    · rintro ⟨_, _, ⟨rfl, rfl⟩, h⟩
      exact h

theorem literalChars_ne_toList (s : String) : literalChars s ≠ s.toList := fun h =>
  absurd (congrArg List.length h) (Nat.ne_of_gt (length_literalChars s))

theorem keyChars_eq_toList_iff {key : String} :
    keyChars key = key.toList ↔ IsAsciiIdentifier key := by
  rw [← isIdentifier_iff, keyChars]
  split
  · next h => exact iff_of_true rfl h
  · next h => exact iff_of_false (literalChars_ne_toList key) h

theorem keyChars_eq_literalChars_iff {key : String} :
    keyChars key = literalChars key ↔ ¬IsAsciiIdentifier key := by
  rw [← isIdentifier_iff, keyChars]
  split
  · next h => exact iff_of_false (literalChars_ne_toList key).symm (not_not_intro h)
  · next h => exact iff_of_true rfl h

/-- A literal is one token between quotes without line ends and without a quote inside that is not
escaped, and is read as the text it stands for, whatever follows it. Different keys have different
texts, which are bare exactly for identifiers of ASCII characters. -/
theorem read?_literalChars_and_keyChars_injective :
    (∀ s : String, (∃ body, literalChars s = quote :: (body ++ [quote]) ∧ Escaped body) ∧
      ('\n' ∉ literalChars s ∧ '\r' ∉ literalChars s ∧ '\u2028' ∉ literalChars s ∧
        '\u2029' ∉ literalChars s) ∧
      ∀ rest, Literal.read? (literalChars s ++ rest) = some (s, rest)) ∧
    Function.Injective keyChars ∧
    ∀ key, (keyChars key = key.toList ↔ IsAsciiIdentifier key) ∧
      (keyChars key = literalChars key ↔ ¬IsAsciiIdentifier key) := by
  refine ⟨fun s => ⟨⟨_, rfl, escaped_flatMap s.toList⟩, ?_, Literal.read?_literalChars_append s⟩,
    keyChars_injective, fun key => ⟨keyChars_eq_toList_iff, keyChars_eq_literalChars_iff⟩⟩
  have hnone {c : Char} (hc : isLineEnd c = true) : c ∉ literalChars s := fun hmem =>
    Bool.false_ne_true ((isLineEnd_of_mem_literalChars hmem).symm.trans hc)
  exact ⟨hnone rfl, hnone rfl, hnone rfl, hnone rfl⟩

end PacketTypings
