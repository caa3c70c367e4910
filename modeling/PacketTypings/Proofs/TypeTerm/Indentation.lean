import PacketTypings.Proofs.TypeTerm.Layout

/-! The text of a type at different levels. Every line behind the first starts with the blanks of
its level and is otherwise the same at all levels. Main statement: if no name and no note in a type
has a line end, its text at a deeper level is the text with two blanks more for each level behind
every line end, whatever stands in keys and literals. -/

namespace PacketTypings

/-- The text with that many blanks behind every line end. -/
def shifted (width : Nat) (cs : List Char) : List Char :=
  cs.flatMap fun c => if c = '\n' then c :: List.replicate width ' ' else [c]

theorem shifted_append (width : Nat) (cs ds : List Char) :
    shifted width (cs ++ ds) = shifted width cs ++ shifted width ds :=
  List.flatMap_append

theorem shifted_of_not_mem {cs : List Char} (h : '\n' ∉ cs) (width : Nat) :
    shifted width cs = cs := by
  induction cs with
  | nil => rfl
  | cons c cs ih =>
    have hc : c ≠ '\n' := fun hc => h (hc ▸ List.mem_cons_self)
    rw [shifted, List.flatMap_cons, if_neg hc, ← shifted, ih fun hcs => h (.tail c hcs)]
    rfl

theorem indentation_add (level k : Nat) :
    indentation (level + k) = List.replicate (2 * k) ' ' ++ indentation level := by
  rw [indentation, indentation, List.replicate_append_replicate]
  congr 1
  omega

/-- A line that starts at a level starts that many levels deeper. -/
theorem shifted_line (k level : Nat) (cs : List Char) :
    shifted (2 * k) ('\n' :: (indentation level ++ cs)) =
      '\n' :: (indentation (level + k) ++ shifted (2 * k) cs) := by
  have hindentation := shifted_of_not_mem (lineEnd_not_mem_indentation level) (2 * k)
  rw [shifted, List.flatMap_cons, if_pos rfl, ← shifted, shifted_append, hindentation,
    indentation_add, List.cons_append, List.append_assoc]

theorem Laid.shifted {f : Nat → List Char} {ks : List String} (h : Laid f ks) (k level : Nat) :
    shifted (2 * k) (f level) = f (level + k) := by
  induction h generalizing level with
  | unbroken h => exact shifted_of_not_mem h _
  | append _ _ ihf ihg => rw [shifted_append, ihf, ihg]
  | member key _ ih =>
    have hlevel : level + 1 + k = level + k + 1 := by omega
    rw [shifted_line, shifted_append, shifted_append, ih, hlevel,
      shifted_of_not_mem (lineEnd_not_mem_keyChars key),
      shifted_of_not_mem (by decide : '\n' ∉ ": ".toList)]
  | brace => rw [shifted_line, shifted_of_not_mem (by decide : '\n' ∉ ['\x7d'])]

namespace TypeTerm

/-- A type has the same text at every level but for the blanks behind the line ends: two more for
each level. -/
theorem chars_add_eq_shifted {e : TypeTerm} (h : e.Unbroken) (n k : Nat) :
    e.chars (n + k) = shifted (2 * k) (e.chars n) :=
  ((laid_chars h).shifted k n).symm

/-- A record in an array in a record, with a line end in a key. -/
theorem chars_add_eq_shifted_of_nested :
    let e : TypeTerm := .record [("a", .annotated (.array (.record [("b\n", .text "c")])) "d")]
    e.Unbroken ∧
      e.chars 0 =
        "\x7b\n  a: \x7b\n    \x27b\\n\x27: \x27c\x27\n  \x7d[] /* d */\n\x7d".toList ∧
      e.chars (0 + 1) = shifted (2 * 1) (e.chars 0) ∧
      e.chars (0 + 1) =
        "\x7b\n    a: \x7b\n      \x27b\\n\x27: \x27c\x27\n    \x7d[] /* d */\n  \x7d".toList := by
  intro e
  have h : e.Unbroken := ⟨by decide, by decide, by decide⟩
  exact ⟨h, rfl, chars_add_eq_shifted h 0 1, rfl⟩

end TypeTerm
end PacketTypings
