import PacketTypings.Proofs.TypeTerm.Grouping
import PacketTypings.Proofs.Typing.Origin

/-! The text of a node's type. Main statement: read back, it is the tree of the type exactly if no
operand beside others hides a union behind a note. -/

namespace PacketTypings

open TypeText

/-- If the references are words, the text of a node's type is the text of some type, and it is the
text of that type exactly if no operand beside others hides a union behind a note. -/
theorem Typer.parse_toText_iff_wellGrouped {t : Typer} {owner? : Option String} {s : Scope}
    {n : Node} {e : TypeTerm} (h : t.type owner? s n = .ok e)
    (hwords : ∀ name ∈ e.references, IsWord name) :
    (∃ tree, parse e.toText = some tree) ∧
      (parse e.toText = some e.normal ↔ e.WellGrouped) := by
  have hparse := TypeTerm.parse_chars ⟨isGround_of_mem_primitives h, hwords⟩ 0
  refine ⟨⟨_, hparse⟩, ?_⟩
  rw [TypeTerm.toText, hparse, Option.some_inj, TypeTerm.tree_reading_iff]

/-- An array of switches, one arm of which holds an optional number. -/
theorem Typer.parse_toText_of_optional_arm :
    let mode : Field := ⟨some "mode", .primitive "GameMode", false⟩
    let switch : Node := .switch "mode.creative"
      [("true", .option (.primitive "u8")), ("2", .encapsulated "varint" (.primitive "vec3f"))] none
    let n : Node := .container [mode, ⟨some "data", .array switch, false⟩]
    let creative : TypeTerm := .intersection
      [.record [("mode", .union [.reference "GameMode.creative"])],
        .union [.primitive "number", .primitive "undefined"]]
    let second : TypeTerm := .intersection [.record [("mode.creative", .text "2")],
      .annotated (.primitive "[number, number, number]") "encapsulated (lengthType: varint)"]
    let e : TypeTerm := .record
      [("mode", .reference "GameMode"), ("data", .array (.union [creative, second]))]
    (Typer.mk .omit []).type none .root n = .ok e ∧ (∀ name ∈ e.references, IsWord name) ∧
      e.WellGrouped ∧ parse e.toText = some e.normal := by
  intro mode switch n creative second e
  have htype : (Typer.mk .omit []).type none .root n = .ok e := rfl
  have hwords : ∀ name ∈ e.references, IsWord name := by
    have hreferences : e.references = ["GameMode", "GameMode.creative"] := rfl
    rw [hreferences, List.forall_mem_cons, List.forall_mem_singleton]
    refine ⟨isWord_of_isIdentifier (by decide), ?_⟩
    exact @isWord_intercalate ["GameMode", "creative"] nofun (by decide)
  have hgrouped : e.WellGrouped := by
    refine ⟨trivial, ⟨⟨?_, ?_⟩, ⟨?_, ?_⟩, trivial⟩, trivial⟩
    · exact fun _ => by decide
    · exact ⟨⟨⟨trivial, trivial⟩, trivial⟩, ⟨trivial, trivial, trivial⟩, trivial⟩
    · exact fun _ => by decide
    · exact ⟨⟨trivial, trivial⟩, trivial, trivial⟩
  exact ⟨htype, hwords, hgrouped, (parse_toText_iff_wellGrouped htype hwords).2.2 hgrouped⟩

/-- The note behind an optional number hides that it is a union: the arm's condition is read as part
of the first alternative only. -/
theorem Typer.parse_toText_ne_normal_of_noted_arm :
    let n : Node := .switch "kind" [("1", .encapsulated "varint" (.option (.primitive "u8")))] none
    ∃ e, (Typer.mk .omit []).type none .root n = .ok e ∧ e.references = [] ∧
      e.toText = "\x7b\n  kind: \x271\x27\n\x7d & number | undefined " ++
        "/* encapsulated (lengthType: varint) */" ∧
      parse e.toText = some (.union
        [.intersection [.record [("kind", .literal "1")], .word "number"], .word "undefined"]) ∧
      e.normal = .intersection
        [.record [("kind", .literal "1")], .union [.word "number", .word "undefined"]] ∧
      parse e.toText ≠ some e.normal := by
  intro n
  obtain ⟨e, htype, hreferences, htext, hreading, hnormal⟩ : ∃ e,
      (Typer.mk .omit []).type none .root n = .ok e ∧ e.references = [] ∧
      e.toText = "\x7b\n  kind: \x271\x27\n\x7d & number | undefined " ++
        "/* encapsulated (lengthType: varint) */" ∧
      e.reading.tree = .union
        [.intersection [.record [("kind", .literal "1")], .word "number"], .word "undefined"] ∧
      e.normal = .intersection
        [.record [("kind", .literal "1")], .union [.word "number", .word "undefined"]] :=
    ⟨_, rfl, rfl, rfl, rfl, rfl⟩
  have hparse : parse e.toText = some e.reading.tree :=
    TypeTerm.parse_chars ⟨isGround_of_mem_primitives htype, by simp [hreferences]⟩ 0
  refine ⟨e, htype, hreferences, htext, hreading ▸ hparse, hnormal, ?_⟩
  rw [hparse, hreading, hnormal]
  nofun

end PacketTypings
