import PacketTypings.Proofs.Document.Declared
import PacketTypings.Proofs.Json.NumberText
import PacketTypings.Proofs.TypeTerm.Lines
import PacketTypings.Proofs.Typing.Origin
import Mathlib.Data.List.SplitBy

/-! The text of a document cut back into its declarations. A declaration opens a line, and all of
its other lines start with two blanks or with a closing brace. Main statement: if no name and no
note has a line end, cutting the text before every line that opens a declaration gives the texts of
the declarations, in their order. -/

namespace PacketTypings

/-! ### Texts without line ends -/

theorem Flags.lineEnd_not_mem_constants (flags : Flags) :
    ∀ c ∈ flags.constants, '\n' ∉ c.2.toList := fun c hc hmem =>
  absurd (flags.isNumeral_constants c hc _ hmem) (by decide)

theorem TypeTerm.IsGround.lineEnd_not_mem {name : String} (h : IsGround name) :
    '\n' ∉ name.toList := by
  rcases h with rfl | ⟨g, rfl⟩
  · decide
  · cases g <;> decide

/-! ### The lines of a declaration -/

namespace Declaration

/-- No name of the entry, of a flag or of a reference has a line end, and no note has one. -/
def Unbroken : Declaration → Prop
  | type name term => '\n' ∉ name.toList ∧ (∀ text ∈ term.references, '\n' ∉ text.toList) ∧
      ∀ note ∈ term.notes, '\n' ∉ note.toList
  | constants name values => '\n' ∉ name.toList ∧ ∀ c ∈ values, '\n' ∉ c.1.toList

/-- The line of a constant. -/
def constantLine (c : String × String) (comma : List Char) : List Char :=
  indentation 1 ++ c.1.toList ++ " = ".toList ++ c.2.toList ++ comma

theorem exists_constantLines_cons (c : String × String) (rest : List (String × String)) :
    ∃ comma : List Char, (comma = [] ∨ comma = [',']) ∧
      constantLines (c :: rest) = constantLine c comma ++ '\n' :: constantLines rest := by
  cases rest with
  | nil => exact ⟨[], .inl rfl, by simp [constantLines, constantLine]⟩
  | cons c' rest => exact ⟨[','], .inr rfl, by simp [constantLines, constantLine]⟩

theorem lineEnd_not_mem_constantLine {c : String × String} (hname : '\n' ∉ c.1.toList)
    (hvalue : '\n' ∉ c.2.toList) {comma : List Char} (hcomma : comma = [] ∨ comma = [',']) :
    '\n' ∉ constantLine c comma := by
  rcases hcomma with rfl | rfl <;> simp [constantLine, indentation, hname, hvalue]

theorem hanging_constantLines {values : List (String × String)}
    (h : ∀ c ∈ values, '\n' ∉ c.1.toList ∧ '\n' ∉ c.2.toList) :
    Hanging ('\n' :: (constantLines values ++ ['\x7d'])) := by
  induction values with
  | nil => exact .lineEnd (.inr (List.prefix_refl _)) (.of_not_mem _ (by decide))
  | cons c rest ih =>
    obtain ⟨⟨hname, hvalue⟩, hrest⟩ := List.forall_mem_cons.1 h
    obtain ⟨comma, hcomma, heq⟩ := exists_constantLines_cons c rest
    have hline := Hanging.of_not_mem _ (lineEnd_not_mem_constantLine hname hvalue hcomma)
    rw [heq, List.append_assoc, List.cons_append]
    exact .lineEnd (.inl ⟨_, rfl⟩) (hline.append (ih hrest))

theorem hanging_chars {t : Typer} {name : String} {n : Node} {d : Declaration}
    (hd : Of t name n d) (h : d.Unbroken) : Hanging d.chars := by
  cases hd with
  | constants flags =>
    obtain ⟨hname, hnames⟩ := h
    have hopening : Hanging ("export const enum ".toList ++ name.toList) :=
      .append (.of_not_mem _ (by decide)) (.of_not_mem _ hname)
    have hvalues := flags.lineEnd_not_mem_constants
    cases hconstants : flags.constants with
    | nil => exact hopening.append (.of_not_mem [' ', '\x7b', '\x7d'] (by decide))
    | cons c rest =>
      rw [hconstants] at hnames hvalues
      have hlines := hanging_constantLines fun c hc => ⟨hnames c hc, hvalues c hc⟩
      exact hopening.append (.append (.of_not_mem [' ', '\x7b'] (by decide)) hlines)
  | @type _ e noFlags htype =>
    obtain ⟨hname, hreferences, hnotes⟩ := h
    have hprimitives text (hmem : text ∈ e.primitives) : '\n' ∉ text.toList :=
      (Typer.isGround_of_mem_primitives htype text hmem).lineEnd_not_mem
    have hterm := TypeTerm.hanging_chars ⟨hprimitives, hreferences, hnotes⟩ 0
    refine .append (.append (.append (.of_not_mem _ (by decide)) (.of_not_mem _ hname)) ?_) hterm
    exact .of_not_mem _ (by decide)

theorem opening_prefix_chars (d : Declaration) : "export ".toList <+: d.chars := by
  cases d with
  | type name term => exact ⟨_, rfl⟩
  | constants name values => cases values <;> exact ⟨_, rfl⟩

end Declaration

/-! ### Cutting a text -/

theorem splitOn_append_of_not_mem {before : List Char} (h : '\n' ∉ before) (cs : List Char) :
    (before ++ cs).splitOn '\n' = (cs.splitOn '\n').modifyHead (before ++ ·) := by
  induction before with
  | nil => cases hcs : cs.splitOn '\n' <;> simp [hcs]
  | cons c before ih =>
    have hc : c ≠ '\n' := fun hc => h (hc ▸ List.mem_cons_self)
    rw [List.cons_append, List.splitOn_cons_eq_if_modifyHead, if_neg (by simpa using hc),
      ih fun hmem => h (.tail c hmem), List.modifyHead_modifyHead]
    rfl

/-- A beginning without line end is one of the first line. -/
theorem exists_prefix_of_splitOn {before cs : List Char} (hbefore : '\n' ∉ before)
    (h : before <+: cs) : ∃ line rest, cs.splitOn '\n' = line :: rest ∧ before <+: line := by
  obtain ⟨behind, rfl⟩ := h
  obtain ⟨line, rest, hbehind⟩ := List.exists_cons_of_ne_nil (List.splitOn_ne_nil '\n' behind)
  refine ⟨before ++ line, rest, ?_, List.prefix_append before line⟩
  rw [splitOn_append_of_not_mem hbefore, hbehind]
  rfl

theorem Hanging.continues {cs : List Char} (h : Hanging cs) :
    ∀ line ∈ (cs.splitOn '\n').tail, Continues line := by
  induction cs with
  | nil => simp
  | cons c cs ih =>
    rw [List.splitOn_cons_eq_if_modifyHead]
    split
    · next hc =>
      obtain ⟨line, rest, hlines, hline⟩ : ∃ line rest, cs.splitOn '\n' = line :: rest ∧
          Continues line := by
        rcases h.1 (by simpa using hc) with hblanks | hbrace
        · obtain ⟨line, rest, hlines, hline⟩ := exists_prefix_of_splitOn (by decide) hblanks
          exact ⟨line, rest, hlines, .inl hline⟩
        · obtain ⟨line, rest, hlines, hline⟩ := exists_prefix_of_splitOn (by decide) hbrace
          exact ⟨line, rest, hlines, .inr hline⟩
      have hrest := ih h.2
      rw [hlines] at hrest ⊢
      exact List.forall_mem_cons.2 ⟨hline, hrest⟩
    · rw [List.tail_modifyHead]
      exact ih h.2

namespace Document

/-- The lines of a text that ends with a line end. -/
def lines (cs : List Char) : List (List Char) := (cs.splitOn '\n').dropLast

def opens (line : List Char) : Bool := "export ".toList.isPrefixOf line

/-- The parts of a text that is cut before every line that opens a declaration, without the line
ends at which it is cut. -/
def sections (text : String) : List String :=
  ((lines text.toList).splitBy fun _ line => !opens line).map fun part =>
    String.ofList (['\n'].intercalate part)

theorem opens_eq_false {line : List Char} (h : Continues line) : opens line = false := by
  rcases h with ⟨rest, rfl⟩ | ⟨rest, rfl⟩ <;> rfl

theorem splitOn_flatMap_append (texts : List (List Char)) (rest : List Char) :
    (texts.flatMap (· ++ ['\n']) ++ rest).splitOn '\n' =
      (texts.map (List.splitOn '\n')).flatten ++ rest.splitOn '\n' := by
  induction texts with
  | nil => rfl
  | cons cs texts ih =>
    rw [List.flatMap_cons, List.append_assoc, List.append_assoc, List.singleton_append,
      List.splitOn_append_cons_self, ih, ← List.append_assoc]
    rfl

theorem lines_flatMap (texts : List (List Char)) :
    lines (texts.flatMap (· ++ ['\n'])) = (texts.map (List.splitOn '\n')).flatten := by
  rw [lines, ← List.append_nil (texts.flatMap _), splitOn_flatMap_append]
  exact List.dropLast_concat

/-- Texts that open a declaration on their first line, and on no other, are found again. -/
theorem sections_flatMap {texts : List (List Char)} (hopens : ∀ cs ∈ texts, "export ".toList <+: cs)
    (hcontinues : ∀ cs ∈ texts, ∀ line ∈ (cs.splitOn '\n').tail, Continues line) :
    sections (String.ofList (texts.flatMap (· ++ ['\n']))) = texts.map String.ofList := by
  have hheads : ∀ part ∈ texts.map (List.splitOn '\n'), ∃ line rest, part = line :: rest ∧
      opens line = true ∧ ∀ other ∈ rest, opens other = false := by
    refine List.forall_mem_map.2 fun cs hcs => ?_
    obtain ⟨line, rest, hlines, hline⟩ := exists_prefix_of_splitOn (by decide) (hopens cs hcs)
    refine ⟨line, rest, hlines, List.isPrefixOf_iff_prefix.2 hline, fun other hother => ?_⟩
    have htail := hcontinues cs hcs
    rw [hlines] at htail
    exact opens_eq_false (htail other hother)
  have hsplit : ((texts.map (List.splitOn '\n')).flatten.splitBy fun _ line => !opens line) =
      texts.map (List.splitOn '\n') := by
    refine List.splitBy_flatten ?_ (fun part hpart => ?_) ?_
    · intro hnil
      obtain ⟨line, rest, hpart, -⟩ := hheads [] hnil
      cases hpart
    · obtain ⟨line, rest, rfl, -, hrest⟩ := hheads part hpart
      refine List.Pairwise.isChain (List.pairwise_cons.2 ⟨fun other hother => ?_, ?_⟩)
      · simp [hrest other hother]
      · exact List.pairwise_of_forall_mem_list fun _ _ other hother => by simp [hrest other hother]
    · refine List.Pairwise.isChain (List.pairwise_of_forall_mem_list fun a ha b hb => ?_)
      obtain ⟨_, _, rfl, -⟩ := hheads a ha
      obtain ⟨_, _, rfl, hopen, -⟩ := hheads b hb
      exact ⟨List.cons_ne_nil _ _, List.cons_ne_nil _ _, by simp [hopen]⟩
  rw [sections, String.toList_ofList, lines_flatMap, hsplit, List.map_map]
  refine List.map_congr_left fun cs _ => ?_
  exact congrArg String.ofList (List.intercalate_splitOn '\n')

end Document

/-- If no name and no note has a line end, the text of a document, without the two line ends behind
it, is cut into the texts of its declarations before every line that opens one: every other line
starts with two blanks or with a closing brace. -/
theorem Protocol.sections_of_generate {p : Protocol} {options : Options} {d : Document}
    (h : p.generate options = .ok d) (hunbroken : ∀ x ∈ d.declarations, x.Unbroken) :
    (∃ body, d.text = body ++ "\n\n" ∧
      Document.sections body = d.declarations.map Declaration.text) ∧
    ∀ x ∈ d.declarations, ∀ line ∈ (x.chars.splitOn '\n').tail,
      [' ', ' '] <+: line ∨ ['\x7d'] <+: line := by
  have hcontinues x (hx : x ∈ d.declarations) : ∀ line ∈ (x.chars.splitOn '\n').tail,
      Continues line := by
    obtain ⟨entry, -, -, hentry⟩ := (mem_declarations_iff h).1 hx
    obtain ⟨n, -, hof⟩ := Declaration.ofEntry_eq_ok_iff.1 hentry
    exact (Declaration.hanging_chars hof (hunbroken x hx)).continues
  refine ⟨⟨String.ofList ((d.declarations.map Declaration.chars).flatMap (· ++ ['\n'])), ?_, ?_⟩,
    hcontinues⟩
  · apply String.toList_injective
    rw [Document.text, Document.chars, String.toList_append, String.toList_ofList,
      String.toList_ofList, List.flatMap_map]
    rfl
  · rw [Document.sections_flatMap (List.forall_mem_map.2 fun x _ => x.opening_prefix_chars)
      (List.forall_mem_map.2 hcontinues), List.map_map]
    rfl

/-- A record inside a record, under a key with a line end, and two constants. -/
theorem Protocol.sections_of_record_in_record :
    let head : Json := .arr [.str "bitfield", .arr [.obj [("name", .str "kind")]]]
    let packet : Json := .arr [.str "container",
      .arr [.obj [("name", .str "head\n"), ("type", head)]]]
    let flags : Json := .arr [.str "bitflags", .obj [("flags", .arr [.str "x", .str "y"])]]
    let p : Protocol := ⟨[("packet", packet), ("Flags", flags)]⟩
    let d : Document := ⟨[.type "packet" (.record [("head\n", .record [("kind", .primitive
      "number")])]), .constants "Flags" [("x", "0"), ("y", "1")]], [], []⟩
    p.generate ⟨.omit, .abort⟩ = .ok d ∧ (∀ x ∈ d.declarations, x.Unbroken) ∧
      ∃ body, d.text = body ++ "\n\n" ∧ Document.sections body =
        ["export type packet = \x7b\n  \x27head\\n\x27: \x7b\n    kind: number\n  \x7d\n\x7d",
          "export const enum Flags \x7b\n  x = 0,\n  y = 1\n\x7d"] := by
  intro head packet flags p d
  have hhead : Node.ofJson head = .ok (.bitfield ["kind"]) :=
    (Node.ofJson_of_kind (k := .bitfield) rfl _).trans rfl
  have hpacket : Node.ofJson packet =
      .ok (.container [⟨some "head\n", .bitfield ["kind"], false⟩]) := by
    rw [Node.ofJson_of_kind (k := .container) rfl]
    change ([⟨some "head\n", head, false⟩].mapM Node.fieldOfJson >>= _) = _
    simp only [List.mapM_cons, Node.fieldOfJson, hhead]
    rfl
  have hflags : Node.ofJson flags = .ok (.bitflags (.sequence ["x", "y"])) :=
    (Node.ofJson_of_kind (k := .bitflags) rfl _).trans rfl
  have hd : p.generate ⟨.omit, .abort⟩ = .ok d := by
    simp only [generate, outcomes, p, List.map_cons, List.map_nil]
    rw [Outcome.ofEntry_of_declaration rfl
        (Declaration.ofEntry_eq_ok_iff.2 ⟨_, hpacket, .type (fun _ h => by cases h) rfl⟩),
      Outcome.ofEntry_of_declaration rfl
        (Declaration.ofEntry_eq_ok_iff.2 ⟨_, hflags, .constants _⟩)]
    rfl
  have hunbroken : ∀ x ∈ d.declarations, x.Unbroken := by
    refine List.forall_mem_cons.2 ⟨⟨by decide, by decide, by decide⟩, ?_⟩
    exact List.forall_mem_singleton.2 ⟨by decide, by decide⟩
  exact ⟨hd, hunbroken, (sections_of_generate hd hunbroken).1⟩

end PacketTypings
