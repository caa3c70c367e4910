import PacketTypings.Proofs.Document.Sections
import PacketTypings.Proofs.TypeTerm.Keys
import PacketTypings.Proofs.Typing.Ownership

/-! The names of members and of constants in the text of a declaration. The keys of records are
written bare or as literals, the names of constants as they are. Main statement: every key can be
read back, and the constants of a set can exactly if their names are identifiers. -/

namespace PacketTypings

open TypeText

/-! ### Names in a text -/

/-- The text is the name itself, which is an identifier then, or a literal that stands for it. -/
inductive IsPropertyName (name : String) : List Char → Prop
  | bare (identifier : IsAsciiIdentifier name) : IsPropertyName name name.toList
  | literal {body : List Char} (escaped : Escaped body)
      (value : Literal.read? (quote :: (body ++ [quote])) = some (name, [])) :
      IsPropertyName name (quote :: (body ++ [quote]))

theorem isPropertyName_keyChars (key : String) : IsPropertyName key (keyChars key) := by
  unfold keyChars
  split
  · next h => exact .bare (isIdentifier_iff.1 h)
  · have hread := Literal.read?_literalChars_append key []
    rw [List.append_nil] at hread
    exact .literal (escaped_flatMap key.toList) hread

/-- A literal is longer than the name it stands for. -/
theorem isPropertyName_toList_iff {name : String} :
    IsPropertyName name name.toList ↔ IsAsciiIdentifier name := by
  constructor
  · intro h
    generalize hcs : name.toList = cs at h
    cases h with
    | bare identifier => exact identifier
    | literal _ value =>
      have hlength := Literal.length_read? value
      rw [← hcs] at hlength
      change name.toList.length + 0 + 2 ≤ name.toList.length at hlength
      omega
  · exact .bare

/-! ### The lines of members -/

namespace TypeTerm

/-- The text of a part of a type is a part of the text. -/
theorem exists_infix_of_inside {u e : TypeTerm} (h : u.Inside e) (level : Nat) :
    ∃ level', u.chars level' <:+: e.chars level := by
  induction h generalizing level with
  | self => exact ⟨level, List.infix_refl _⟩
  | @member m members hm _ ih =>
    obtain ⟨level', hu⟩ := ih (level + 1)
    refine ⟨level', hu.trans (List.IsInfix.trans ?_ (memberLines_infix_record hm level))⟩
    exact ⟨'\n' :: (indentation (level + 1) ++ keyChars m.1 ++ ": ".toList), ['\n'],
      by simp [memberLines]⟩
  | element _ ih =>
    obtain ⟨level', hu⟩ := ih level
    refine ⟨level', hu.trans ?_⟩
    rw [chars_array]
    exact (infix_parenthesized _ _).trans (List.prefix_append _ _).isInfix
  | alternative hp _ ih =>
    obtain ⟨level', hu⟩ := ih level
    exact ⟨level', hu.trans (infix_union hp level)⟩
  | operand hp _ ih =>
    obtain ⟨level', hu⟩ := ih level
    exact ⟨level', hu.trans (infix_intersection hp level)⟩
  | inner note _ ih =>
    obtain ⟨level', hu⟩ := ih level
    refine ⟨level', hu.trans ?_⟩
    rw [chars_annotated, List.append_assoc, List.append_assoc]
    exact (List.prefix_append _ _).isInfix

/-- Every member of every record stands on lines of its own, with a property name in front. -/
theorem exists_line_of_inside {members : List (String × TypeTerm)} {e : TypeTerm}
    (h : (record members).Inside e) {m : String × TypeTerm} (hm : m ∈ members) :
    ∃ level written, IsPropertyName m.1 written ∧
      '\n' :: (indentation level ++ written ++ ": ".toList ++ m.2.chars level ++ ['\n']) <:+:
        e.chars 0 := by
  obtain ⟨level, hrecord⟩ := exists_infix_of_inside h 0
  exact ⟨level + 1, keyChars m.1, isPropertyName_keyChars m.1,
    (memberLines_infix_record hm level).trans hrecord⟩

end TypeTerm

/-! ### Reading constants -/

namespace Declaration

/-- A value up to the comma behind it. -/
def value? (cs : List Char) : Option String :=
  if (cs.dropWhile (· ≠ ',')).length ≤ 1 then some (String.ofList (cs.takeWhile (· ≠ ',')))
  else none

/-- The constant on a line: its name, bare or between quotes, and its value. -/
def constant? (line : List Char) : Option (String × String) :=
  (line.dropPrefix? (indentation 1)).bind fun cs =>
    (name? cs).bind fun named =>
      (named.2.dropPrefix? " = ".toList).bind fun value =>
        (value? value).map fun text => (named.1, text)

/-- The constants in the text behind the name of their set. -/
def constants? (body : List Char) : Option (List (String × String)) :=
  if body = " \x7b\x7d".toList then some []
  else
    (body.dropPrefix? " \x7b\n".toList).bind fun cs =>
      if (cs.splitOn '\n').getLast? = some ['\x7d'] then
        (cs.splitOn '\n').dropLast.mapM constant?
      else none

theorem length_value? {cs : List Char} {text : String} (h : value? cs = some text) :
    text.toList.length ≤ cs.length := by
  unfold value? at h
  split at h
  · cases h
    rw [String.toList_ofList]
    exact (List.takeWhile_prefix _).length_le
  · cases h

theorem value?_append {text : String} (h : ',' ∉ text.toList) {comma : List Char}
    (hcomma : comma = [] ∨ comma = [',']) : value? (text.toList ++ comma) = some text := by
  have hall : ∀ c ∈ text.toList, decide (c ≠ ',') = true := fun c hc =>
    decide_eq_true fun heq => h (heq ▸ hc)
  have hhead : ∀ c ∈ comma.head?, decide (c ≠ ',') = false := by
    rcases hcomma with rfl | rfl <;> simp
  obtain ⟨htake, hdrop⟩ := span_append hall hhead
  have hlength : comma.length ≤ 1 := by rcases hcomma with rfl | rfl <;> decide
  rw [value?, hdrop, htake, if_pos hlength, String.ofList_toList]

/-- A constant is read back from its line exactly if its name is an identifier. -/
theorem constant?_constantLine_iff {c : String × String} (h : ',' ∉ c.2.toList)
    {comma : List Char} (hcomma : comma = [] ∨ comma = [',']) :
    constant? (constantLine c comma) = some c ↔ IsAsciiIdentifier c.1 := by
  obtain ⟨name, text⟩ := c
  have hopening : (constantLine (name, text) comma).dropPrefix? (indentation 1) =
      some (name.toList ++ (" = ".toList ++ (text.toList ++ comma))) :=
    List.dropPrefix?_eq_some_iff.2 ⟨_, by simp [constantLine], BEq.rfl⟩
  rw [← isIdentifier_iff, constant?, hopening, Option.bind_some]
  constructor
  · intro hread
    obtain ⟨⟨name', rest⟩, hname, hread⟩ := Option.bind_eq_some_iff.1 hread
    obtain ⟨value, hvalue, hread⟩ := Option.bind_eq_some_iff.1 hread
    obtain ⟨text', htext, hread⟩ := Option.map_eq_some_iff.1 hread
    cases hread
    refine isIdentifier_of_name? hname ?_
    obtain ⟨opening, rfl, heq⟩ := List.dropPrefix?_eq_some_iff.1 hvalue
    have hlength := length_value? htext
    have hcomma : comma.length ≤ 1 := by rcases hcomma with rfl | rfl <;> decide
    rw [eq_of_beq heq]
    simp only [List.length_append]
    omega
  · intro hidentifier
    have hended : Ended (" = ".toList ++ (text.toList ++ comma)) := ended_cons (by decide) _
    have hequals : (" = ".toList ++ (text.toList ++ comma)).dropPrefix? " = ".toList =
        some (text.toList ++ comma) := List.dropPrefix?_eq_some_iff.2 ⟨_, rfl, BEq.rfl⟩
    rw [(name?_append_iff hended).2 hidentifier, Option.bind_some, hequals, Option.bind_some,
      value?_append h hcomma]
    rfl

/-- The lines of constants, each with a comma behind it or without. -/
def AreLines (lines : List (List Char)) (values : List (String × String)) : Prop :=
  List.Forall₂ (fun line c => ∃ comma, (comma = [] ∨ comma = [',']) ∧ line = constantLine c comma)
    lines values

theorem exists_constantLines (values : List (String × String)) : ∃ lines,
    constantLines values = lines.flatMap (· ++ ['\n']) ∧ AreLines lines values := by
  induction values with
  | nil => exact ⟨[], rfl, .nil⟩
  | cons c rest ih =>
    obtain ⟨comma, hcomma, heq⟩ := exists_constantLines_cons c rest
    obtain ⟨lines, hlines, hall⟩ := ih
    exact ⟨constantLine c comma :: lines, by simp [heq, hlines], .cons ⟨comma, hcomma, rfl⟩ hall⟩

namespace AreLines

variable {lines : List (List Char)} {values : List (String × String)}

theorem forall₂_constant?_iff (hlines : AreLines lines values)
    (h : ∀ c ∈ values, ',' ∉ c.2.toList) :
    List.Forall₂ (fun line c => constant? line = some c) lines values ↔
      ∀ c ∈ values, IsAsciiIdentifier c.1 := by
  induction hlines with
  | nil => simp
  | cons hline _ ih =>
    obtain ⟨comma, hcomma, rfl⟩ := hline
    obtain ⟨hc, hrest⟩ := List.forall_mem_cons.1 h
    rw [List.forall₂_cons, List.forall_mem_cons, constant?_constantLine_iff hc hcomma, ih hrest]

theorem lineEnd_not_mem (hlines : AreLines lines values)
    (h : ∀ c ∈ values, '\n' ∉ c.1.toList ∧ '\n' ∉ c.2.toList) : ∀ line ∈ lines, '\n' ∉ line := by
  induction hlines with
  | nil => exact nofun
  | cons hline _ ih =>
    obtain ⟨comma, hcomma, rfl⟩ := hline
    obtain ⟨⟨hname, hvalue⟩, hrest⟩ := List.forall_mem_cons.1 h
    exact List.forall_mem_cons.2 ⟨lineEnd_not_mem_constantLine hname hvalue hcomma, ih hrest⟩

end AreLines

theorem length_le_flatten_splitOn (lines : List (List Char)) :
    lines.length ≤ (lines.map (List.splitOn '\n')).flatten.length := by
  induction lines with
  | nil => exact Nat.le_refl _
  | cons line lines ih =>
    have hline := List.length_pos_of_ne_nil (List.splitOn_ne_nil '\n' line)
    simp only [List.map_cons, List.flatten_cons, List.length_append, List.length_cons]
    omega

/-- Texts that have no more lines than there are texts are lines. -/
theorem flatten_splitOn_eq_self {lines : List (List Char)}
    (h : (lines.map (List.splitOn '\n')).flatten.length ≤ lines.length) :
    (lines.map (List.splitOn '\n')).flatten = lines := by
  induction lines with
  | nil => rfl
  | cons line lines ih =>
    have hline := List.length_pos_of_ne_nil (List.splitOn_ne_nil '\n' line)
    have hlines := length_le_flatten_splitOn lines
    simp only [List.map_cons, List.flatten_cons, List.length_append, List.length_cons] at h ⊢
    obtain ⟨line', hline'⟩ := List.length_eq_one_iff.1 (by omega : (line.splitOn '\n').length = 1)
    have hself : ['\n'].intercalate (line.splitOn '\n') = line := List.intercalate_splitOn '\n'
    rw [hline', List.intercalate_singleton] at hself
    rw [hline', ih (by omega), hself]
    rfl

theorem flatten_splitOn_of_not_mem {lines : List (List Char)} (h : ∀ line ∈ lines, '\n' ∉ line) :
    (lines.map (List.splitOn '\n')).flatten = lines := by
  induction lines with
  | nil => rfl
  | cons line lines ih =>
    obtain ⟨hline, hlines⟩ := List.forall_mem_cons.1 h
    have hself := splitOn_append_of_not_mem hline []
    rw [List.append_nil] at hself
    rw [List.map_cons, List.flatten_cons, hself, ih hlines]
    simp

/-- The constants of a set are read back exactly if their names are identifiers. -/
theorem constants?_iff {values : List (String × String)}
    (h : ∀ c ∈ values, ∀ d ∈ c.2.toList, Json.isNumeral d = true) :
    constants? (" \x7b\n".toList ++ (constantLines values ++ ['\x7d'])) = some values ↔
      ∀ c ∈ values, IsAsciiIdentifier c.1 := by
  obtain ⟨lines, hlines, hall⟩ := exists_constantLines values
  have hread : constants? (" \x7b\n".toList ++ (constantLines values ++ ['\x7d'])) =
      (lines.map (List.splitOn '\n')).flatten.mapM constant? := by
    have hopening : (" \x7b\n".toList ++ (constantLines values ++ ['\x7d'])).dropPrefix?
        " \x7b\n".toList = some (constantLines values ++ ['\x7d']) :=
      List.dropPrefix?_eq_some_iff.2 ⟨_, rfl, BEq.rfl⟩
    have hsplit : (constantLines values ++ ['\x7d']).splitOn '\n' =
        (lines.map (List.splitOn '\n')).flatten ++ [['\x7d']] := by
      rw [hlines, Document.splitOn_flatMap_append]
      rfl
    rw [constants?, if_neg (by simp), hopening, Option.bind_some, hsplit,
      List.getLast?_concat, if_pos rfl, List.dropLast_concat]
  have hnone {c : Char} (hc : Json.isNumeral c = false) : ∀ x ∈ values, c ∉ x.2.toList :=
    fun x hx hmem => Bool.false_ne_true (hc.symm.trans (h x hx c hmem))
  rw [hread, mapM_eq_some_iff, ← hall.forall₂_constant?_iff (hnone (by decide))]
  -- A line end in a name makes more lines than there are constants.
  constructor
  · intro hflatten
    have hlength := hflatten.length_eq.trans hall.length_eq.symm
    rwa [flatten_splitOn_eq_self (Nat.le_of_eq hlength)] at hflatten
  · intro hforall
    have hidentifiers := (hall.forall₂_constant?_iff (hnone (by decide))).1 hforall
    rwa [flatten_splitOn_of_not_mem (hall.lineEnd_not_mem fun c hc =>
      ⟨lineEnd_not_mem_of_isIdentifier (isIdentifier_iff.2 (hidentifiers c hc)),
        hnone (by decide) c hc⟩)]

theorem line_infix_constantLines {values : List (String × String)} {c : String × String}
    (h : c ∈ values) :
    '\n' :: (indentation 1 ++ c.1.toList ++ " = ".toList ++ c.2.toList) <:+:
      '\n' :: constantLines values := by
  induction h with
  | head rest =>
    obtain ⟨comma, -, heq⟩ := exists_constantLines_cons c rest
    exact ⟨[], comma ++ '\n' :: constantLines rest, by simp [heq, constantLine]⟩
  | @tail c' rest _ ih =>
    obtain ⟨comma, -, heq⟩ := exists_constantLines_cons c' rest
    refine ih.trans (List.IsSuffix.isInfix ⟨'\n' :: constantLine c' comma, ?_⟩)
    simp [heq]

end Declaration

/-- Every key in the text of a declared type is a property name, and if no reference and no note
has a line end, the keys are read back in their order. The names of constants are written as they
are: they are property names, and the constants are read back, exactly if all of them are
identifiers. -/
theorem Declaration.propertyNames_of_ofEntry {t : Typer} {name : String} {raw : Json}
    {d : Declaration} (h : ofEntry t name raw = .ok d) :
    (∃ e body, d = .type name e ∧
      d.chars = "export type ".toList ++ name.toList ++ " = ".toList ++ body ∧
      (∀ members, (TypeTerm.record members).Inside e → ∀ m ∈ members, ∃ level written,
        IsPropertyName m.1 written ∧
        '\n' :: (indentation level ++ written ++ ": ".toList ++ m.2.chars level ++ ['\n']) <:+:
          body) ∧
      ((∀ text ∈ e.references ++ e.notes, '\n' ∉ text.toList) → keysIn body = e.keys)) ∨
    ∃ values body, d = .constants name values ∧
      d.chars = "export const enum ".toList ++ name.toList ++ body ∧
      (∀ c ∈ values, '\n' :: (indentation 1 ++ c.1.toList ++ " = ".toList ++ c.2.toList) <:+: body ∧
        (IsPropertyName c.1 c.1.toList ↔ IsAsciiIdentifier c.1)) ∧
      (constants? body = some values ↔ ∀ c ∈ values, IsAsciiIdentifier c.1) := by
  obtain ⟨n, -, hof⟩ := ofEntry_eq_ok_iff.1 h
  cases hof with
  | @type _ e _ htype =>
    refine .inl ⟨e, e.chars 0, rfl, rfl, fun members hinside m hm => ?_, fun hunbroken => ?_⟩
    · exact TypeTerm.exists_line_of_inside hinside hm
    · obtain ⟨hreferences, hnotes⟩ := List.forall_mem_append.1 hunbroken
      have hprimitives text (hmem : text ∈ e.primitives) : '\n' ∉ text.toList :=
        (Typer.isGround_of_mem_primitives htype text hmem).lineEnd_not_mem
      exact TypeTerm.keysIn_chars ⟨hprimitives, hreferences, hnotes⟩ 0
  | constants flags =>
    have hnumeral := flags.isNumeral_constants
    right
    cases hconstants : flags.constants with
    | nil => exact ⟨[], _, rfl, rfl, nofun, iff_of_true rfl nofun⟩
    | cons c rest =>
      rw [hconstants] at hnumeral
      refine ⟨c :: rest, " \x7b\n".toList ++ (constantLines (c :: rest) ++ ['\x7d']), rfl, rfl,
        fun c' hc' => ⟨?_, isPropertyName_toList_iff⟩, constants?_iff hnumeral⟩
      exact (line_infix_constantLines hc').trans ⟨[' ', '\x7b'], ['\x7d'], by simp⟩

/-- A key with a blank and one that is an identifier, and the constants `x` and `y`. -/
theorem Declaration.propertyNames_of_blank_key :
    let t : Typer := ⟨.omit, []⟩
    let packet : Json := .arr [.str "container",
      .arr [.obj [("name", .str "a b"), ("type", .str "Item")],
        .obj [("name", .str "kind"), ("type", .str "u8")]]]
    let e : TypeTerm := .record [("a b", .reference "Item"), ("kind", .primitive "number")]
    let flags : Json := .arr [.str "bitflags", .obj [("flags", .arr [.str "x", .str "y"])]]
    ofEntry t "packet" packet = .ok (.type "packet" e) ∧
      (∀ text ∈ e.references ++ e.notes, '\n' ∉ text.toList) ∧
      keysIn "\x7b\n  \x27a b\x27: Item\n  kind: number\n\x7d".toList = ["a b", "kind"] ∧
      ofEntry t "Flags" flags = .ok (.constants "Flags" [("x", "0"), ("y", "1")]) ∧
      (∀ c ∈ [("x", "0"), ("y", "1")], IsAsciiIdentifier c.1) ∧
      constants? " \x7b\n  x = 0,\n  y = 1\n\x7d".toList = some [("x", "0"), ("y", "1")] := by
  intro t packet e flags
  have hpacket : Node.ofJson packet = .ok (.container [⟨some "a b", .primitive "Item", false⟩,
      ⟨some "kind", .primitive "u8", false⟩]) := by
    rw [Node.ofJson_of_kind (k := .container) rfl]
    change ([⟨some "a b", .str "Item", false⟩, ⟨some "kind", .str "u8", false⟩].mapM
      Node.fieldOfJson >>= _) = _
    simp only [List.mapM_cons, Node.fieldOfJson, Node.ofJson_str]
    rfl
  have hflags : Node.ofJson flags = .ok (.bitflags (.sequence ["x", "y"])) :=
    (Node.ofJson_of_kind (k := .bitflags) rfl _).trans rfl
  have hd : ofEntry t "packet" packet = .ok (.type "packet" e) :=
    ofEntry_eq_ok_iff.2 ⟨_, hpacket, .type (fun _ h => by cases h) rfl⟩
  have hd' : ofEntry t "Flags" flags = .ok (.constants "Flags" [("x", "0"), ("y", "1")]) :=
    ofEntry_eq_ok_iff.2 ⟨_, hflags, .constants _⟩
  have hunbroken : ∀ text ∈ e.references ++ e.notes, '\n' ∉ text.toList := by decide
  have hidentifiers : ∀ c ∈ [("x", "0"), ("y", "1")], IsAsciiIdentifier c.1 := by
    simp only [← isIdentifier_iff]
    decide
  refine ⟨hd, hunbroken, ?_, hd', hidentifiers, ?_⟩
  · rcases propertyNames_of_ofEntry hd with ⟨_, body, ⟨⟩, hbody, -, hkeys⟩ | ⟨_, _, ⟨⟩, -⟩
    have heq : body = "\x7b\n  \x27a b\x27: Item\n  kind: number\n\x7d".toList :=
      List.append_cancel_left hbody.symm
    rw [← heq, hkeys hunbroken]
    rfl
  · rcases propertyNames_of_ofEntry hd' with ⟨_, _, ⟨⟩, -⟩ | ⟨_, body, ⟨⟩, hbody, -, hread⟩
    have heq : body = " \x7b\n  x = 0,\n  y = 1\n\x7d".toList :=
      List.append_cancel_left hbody.symm
    rw [← heq, hread.2 hidentifiers]

/-- A name with a blank is written without quotes. A name with a comma and a line end in it gives a
set of one constant the text of a set of two. -/
theorem Declaration.constants_of_blank_name :
    let t : Typer := ⟨.omit, []⟩
    let set (flags : Json) : Json :=
      .arr [.str "bitflags", .obj [("type", .str "u8"), ("flags", flags)]]
    let blank : Declaration := .constants "Flags" [("a b", "0")]
    let two : Declaration := .constants "Flags" [("a", "0"), ("b", "1")]
    let one : Declaration := .constants "Flags" [("a = 0,\n  b", "1")]
    (ofEntry t "Flags" (set (.arr [.str "a b"])) = .ok blank ∧
      blank.text = "export const enum Flags \x7b\n  a b = 0\n\x7d" ∧
      ¬IsPropertyName "a b" "a b".toList) ∧
    ofEntry t "Flags" (set (.obj [("a", .num (.int 0)), ("b", .num (.int 1))])) = .ok two ∧
      ofEntry t "Flags" (set (.obj [("a = 0,\n  b", .num (.int 1))])) = .ok one ∧
      two ≠ one ∧ two.text = one.text := by
  intro t set blank two one
  have hset (flags : Json) (f : Flags) (hf : Node.ofJson (set flags) = .ok (.bitflags f)) :
      ofEntry t "Flags" (set flags) = .ok (.constants "Flags" f.constants) :=
    ofEntry_eq_ok_iff.2 ⟨_, hf, .constants f⟩
  have hblank : Node.ofJson (set (.arr [.str "a b"])) = .ok (.bitflags (.sequence ["a b"])) :=
    (Node.ofJson_of_kind (k := .bitflags) rfl _).trans rfl
  have htwo : Node.ofJson (set (.obj [("a", .num (.int 0)), ("b", .num (.int 1))])) =
      .ok (.bitflags (.mapping [("a", .int 0), ("b", .int 1)])) :=
    (Node.ofJson_of_kind (k := .bitflags) rfl _).trans rfl
  have hone : Node.ofJson (set (.obj [("a = 0,\n  b", .num (.int 1))])) =
      .ok (.bitflags (.mapping [("a = 0,\n  b", .int 1)])) :=
    (Node.ofJson_of_kind (k := .bitflags) rfl _).trans rfl
  refine ⟨⟨hset _ _ hblank, rfl, ?_⟩, hset _ _ htwo, hset _ _ hone, fun h => ?_, rfl⟩
  · rw [isPropertyName_toList_iff, ← isIdentifier_iff]
    decide
  · injection h with _ hvalues
    exact absurd (congrArg List.length hvalues) (by decide)

end PacketTypings
