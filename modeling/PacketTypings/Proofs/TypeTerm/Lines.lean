import PacketTypings.Proofs.TypeTerm.Layout

/-! The lines of a type's text. Main statement: if no name and no note in a type has a line end,
each line of its text behind the first starts with two blanks or with a closing brace, at every
level. -/

namespace PacketTypings

/-- The line belongs to a declaration that was opened above it. -/
def Continues (line : List Char) : Prop := [' ', ' '] <+: line ∨ ['\x7d'] <+: line

theorem Continues.append {cs : List Char} (h : Continues cs) (ds : List Char) :
    Continues (cs ++ ds) :=
  h.imp (·.trans (List.prefix_append cs ds)) (·.trans (List.prefix_append cs ds))

/-- What stands behind each line end belongs to a declaration that was opened above it. -/
def Hanging : List Char → Prop
  | [] => True
  | c :: cs => (c = '\n' → Continues cs) ∧ Hanging cs

namespace Hanging

theorem of_not_mem (cs : List Char) (h : '\n' ∉ cs) : Hanging cs := by
  induction cs with
  | nil => trivial
  | cons c cs ih =>
    exact ⟨fun hc => absurd (hc ▸ List.mem_cons_self) h, ih fun hcs => h (.tail c hcs)⟩

variable {cs ds : List Char}

theorem append (hcs : Hanging cs) (hds : Hanging ds) : Hanging (cs ++ ds) := by
  induction cs with
  | nil => exact hds
  | cons c cs ih => exact ⟨fun hc => (hcs.1 hc).append ds, ih hcs.2⟩

theorem lineEnd (hcontinues : Continues cs) (h : Hanging cs) : Hanging ('\n' :: cs) :=
  ⟨fun _ => hcontinues, h⟩

end Hanging

theorem Laid.hanging {f : Nat → List Char} {ks : List String} (h : Laid f ks) (level : Nat) :
    Hanging (f level) := by
  induction h generalizing level with
  | unbroken h => exact .of_not_mem _ h
  | append _ _ ihf ihg => exact .append (ihf level) (ihg level)
  | member key _ ih =>
    have hkey := Hanging.of_not_mem _ (lineEnd_not_mem_keyChars key)
    have hvalue := Hanging.append (.of_not_mem ": ".toList (by decide)) (ih (level + 1))
    refine .lineEnd (.inl ⟨_, rfl⟩) (.append (.of_not_mem _ ?_) (hkey.append hvalue))
    exact lineEnd_not_mem_indentation _
  | brace =>
    refine .lineEnd ?_ (.of_not_mem _ (by simp [indentation]))
    cases level with
    | zero => exact .inr (List.prefix_refl _)
    | succ level => exact .inl ⟨_, rfl⟩

/-- A type that is written at any level breaks its lines only before two blanks or a closing
brace. -/
theorem TypeTerm.hanging_chars {e : TypeTerm} (h : e.Unbroken) (level : Nat) :
    Hanging (e.chars level) :=
  (laid_chars h).hanging level

end PacketTypings
