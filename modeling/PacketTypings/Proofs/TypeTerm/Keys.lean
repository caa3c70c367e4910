import PacketTypings.Proofs.TypeTerm.Layout
import PacketTypings.Proofs.TypeTerm.Spelling

/-! The keys of the records in a type's text. Main statements: every member opens a line of the
text, with its key in front; and if no name and no note in the type has a line end, the names at the
beginnings of lines are the keys of all records, in their order. -/

namespace PacketTypings

namespace TypeText

/-- The name behind the blanks of a line, if a colon follows it. -/
def memberKey? (line : List Char) : Option String :=
  (name? (line.dropWhile (· = ' '))).bind fun named =>
    if named.2.head? = some ':' then some named.1 else none

/-- The keys of the members whose lines begin behind the line ends of a text. -/
def keysIn : List Char → List String
  | [] => []
  | c :: cs => (if c = '\n' then (memberKey? cs).toList else []) ++ keysIn cs

theorem keysIn_append_of_not_mem {cs : List Char} (h : '\n' ∉ cs) (rest : List Char) :
    keysIn (cs ++ rest) = keysIn rest := by
  induction cs with
  | nil => rfl
  | cons c cs ih =>
    have hc : c ≠ '\n' := fun hc => h (hc ▸ List.mem_cons_self)
    rw [List.cons_append, keysIn, if_neg hc, List.nil_append, ih fun hcs => h (.tail c hcs)]

theorem keysIn_lineEnd (cs : List Char) :
    keysIn ('\n' :: cs) = (memberKey? cs).toList ++ keysIn cs := by
  rw [keysIn, if_pos rfl]

theorem dropWhile_indentation_append (level : Nat) {cs : List Char} (h : cs.head? ≠ some ' ') :
    (indentation level ++ cs).dropWhile (· = ' ') = cs := by
  refine (span_append (by simp [indentation]) fun c hc => ?_).2
  rw [decide_eq_false_iff_not]
  rintro rfl
  exact h hc

theorem name?_blank (cs : List Char) : name? (' ' :: cs) = none := rfl

theorem memberKey?_keyChars (level : Nat) (key : String) (rest : List Char) :
    memberKey? (indentation level ++ (keyChars key ++ (": ".toList ++ rest))) = some key := by
  have hname := name?_keyChars_append key (ended_cons (by decide : isIdentifierPart ':' = false)
    (' ' :: rest))
  have hhead : (keyChars key ++ (": ".toList ++ rest)).head? ≠ some ' ' := by
    intro h
    obtain ⟨cs, hcs⟩ := List.head?_eq_some_iff.1 h
    change keyChars key ++ ':' :: ' ' :: rest = ' ' :: cs at hcs
    rw [hcs, name?_blank] at hname
    cases hname
  rw [memberKey?, dropWhile_indentation_append level hhead]
  change (name? (keyChars key ++ ':' :: ' ' :: rest)).bind _ = _
  rw [hname]
  rfl

theorem memberKey?_brace (level : Nat) (rest : List Char) :
    memberKey? (indentation level ++ '\x7d' :: rest) = none := by
  rw [memberKey?, dropWhile_indentation_append level (by simp)]
  rfl

end TypeText

open TypeText

/-- The keys of members open lines, and no closing brace is read as a key. -/
theorem Laid.keysIn_append {f : Nat → List Char} {ks : List String} (h : Laid f ks) (level : Nat)
    (rest : List Char) : keysIn (f level ++ rest) = ks ++ keysIn rest := by
  induction h generalizing level rest with
  | unbroken h => exact keysIn_append_of_not_mem h rest
  | append _ _ ihf ihg => rw [List.append_assoc, ihf, ihg, List.append_assoc]
  | member key _ ih =>
    simp only [List.cons_append, List.append_assoc]
    rw [keysIn_lineEnd, memberKey?_keyChars,
      keysIn_append_of_not_mem (lineEnd_not_mem_indentation _),
      keysIn_append_of_not_mem (lineEnd_not_mem_keyChars key),
      keysIn_append_of_not_mem (by decide), ih]
    rfl
  | brace =>
    have hbrace : '\n' ∉ indentation level ++ ['\x7d'] := by simp [indentation]
    rw [List.cons_append, keysIn_lineEnd, keysIn_append_of_not_mem hbrace, List.append_assoc]
    change (memberKey? (indentation level ++ '\x7d' :: rest)).toList ++ _ = _
    rw [memberKey?_brace]
    rfl

namespace TypeTerm

/-- The keys in the text of the type are its own, whatever follows. -/
def Keyed (e : TypeTerm) : Prop :=
  ∀ level rest, keysIn (e.chars level ++ rest) = e.keys ++ keysIn rest

/-- If nothing that is written as it is has a line end, the keys are read back from the text. -/
theorem keyed_of_unbroken {e : TypeTerm} (h : e.Unbroken) : e.Keyed :=
  (laid_chars h).keysIn_append

theorem keysIn_chars {e : TypeTerm} (h : e.Unbroken) (level : Nat) :
    keysIn (e.chars level) = e.keys := by
  have hkeyed := keyed_of_unbroken h level []
  rwa [List.append_nil, keysIn, List.append_nil] at hkeyed

/-! ### The lines of members -/

theorem infix_parenthesized (b : Bool) (cs : List Char) : cs <:+: parenthesized b cs := by
  cases b with
  | false => exact List.infix_refl cs
  | true => exact ⟨['('], [')'], rfl⟩

/-- The lines of a member at that level, behind the line end in front of them. -/
def memberLines (level : Nat) (m : String × TypeTerm) : List Char :=
  '\n' :: (indentation level ++ keyChars m.1 ++ ": ".toList ++ m.2.chars level ++ ['\n'])

theorem memberLines_infix_membersChars {members : List (String × TypeTerm)}
    {m : String × TypeTerm} (h : m ∈ members) (level : Nat) :
    memberLines level m <:+: '\n' :: membersChars level members := by
  induction h with
  | head rest =>
    refine ⟨[], membersChars level rest, ?_⟩
    simp [memberLines, membersChars]
  | tail m' _ ih =>
    refine ih.trans ?_
    exact (List.suffix_append _ _).isInfix.trans (List.suffix_cons '\n' _).isInfix

theorem memberLines_infix_record {members : List (String × TypeTerm)} {m : String × TypeTerm}
    (h : m ∈ members) (level : Nat) :
    memberLines (level + 1) m <:+: (record members).chars level := by
  cases members with
  | nil => cases h
  | cons m' rest =>
    refine (memberLines_infix_membersChars h (level + 1)).trans ?_
    exact ⟨['\x7b'], indentation level ++ ['\x7d'], by simp [chars_record_cons]⟩

theorem infix_alternativesChars {parts : List TypeTerm} {p : TypeTerm} (h : p ∈ parts)
    (level : Nat) : p.chars level <:+: alternativesChars level parts := by
  induction h with
  | head rest => exact ⟨" | ".toList, alternativesChars level rest, rfl⟩
  | tail t _ ih => exact ih.trans (List.suffix_append _ _).isInfix

theorem infix_operandsChars {parts : List TypeTerm} {p : TypeTerm} (h : p ∈ parts)
    (level : Nat) : p.chars level <:+: operandsChars level parts := by
  induction h with
  | head rest =>
    exact (infix_parenthesized _ _).trans ⟨" & ".toList, operandsChars level rest, rfl⟩
  | tail t _ ih => exact ih.trans (List.suffix_append _ _).isInfix

theorem infix_union {parts : List TypeTerm} {p : TypeTerm} (h : p ∈ parts) (level : Nat) :
    p.chars level <:+: (union parts).chars level := by
  cases h with
  | head rest => exact (List.prefix_append _ _).isInfix
  | tail t h => exact (infix_alternativesChars h level).trans (List.suffix_append _ _).isInfix

theorem infix_intersection {parts : List TypeTerm} {p : TypeTerm} (h : p ∈ parts) (level : Nat) :
    p.chars level <:+: (intersection parts).chars level := by
  match parts, h with
  | [t], h =>
    cases List.mem_singleton.1 h
    exact List.infix_refl _
  | t :: u :: rest, h =>
    rw [chars_intersection_cons]
    rcases List.mem_cons.1 h with rfl | h
    · exact (infix_parenthesized _ _).trans (List.prefix_append _ _).isInfix
    · exact (infix_operandsChars h level).trans (List.suffix_append _ _).isInfix

end TypeTerm
end PacketTypings
