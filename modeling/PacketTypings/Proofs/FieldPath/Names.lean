import PacketTypings.FieldPath.Reader
import PacketTypings.Proofs.FieldPath.Words
import Mathlib.Data.List.Infix
import Mathlib.Data.List.TakeWhile

/-! Paths that are the name of one field. Main statements: such a name is read as one step, and
behind a step that stays it is read as the same step. -/

namespace PacketTypings.FieldPath

/-- The name is one step of a path, and goes on to no member. -/
structure IsFieldName (name : String) : Prop where
  nonempty : name.toList ≠ []
  noSlash : '/' ∉ name.toList
  noSpace : ' ' ∉ name.toList
  noTab : '\t' ∉ name.toList
  noBars : ¬ ['|', '|'] <:+: name.toList
  noDot : '.' ∉ name.toList

/-- Where there is no separator and no blank, there is a word. -/
theorem runs_of_not_mem {w : List Char} (noSlash : '/' ∉ w) (noSpace : ' ' ∉ w)
    (noTab : '\t' ∉ w) (noBars : ¬ ['|', '|'] <:+: w) : Runs [] w := by
  induction w with
  | nil => exact .nil .nil
  | cons c w ih =>
    rw [List.mem_cons, not_or] at noSlash noSpace noTab
    have hstarts : startsWord (c :: (w ++ [])) = true := by
      refine startsWord_cons_iff.2 ⟨Ne.symm noSlash.1, ?_, ?_⟩
      · simp [Text.isBlank, Ne.symm noSpace.1, Ne.symm noTab.1]
      · rintro ⟨rfl, hhead⟩
        rw [List.append_nil] at hhead
        obtain ⟨w, rfl⟩ := List.head?_eq_some_iff.1 hhead
        exact noBars ⟨[], w, rfl⟩
    refine .cons hstarts (ih noSlash.2 noSpace.2 noTab.2 fun hbars => noBars ?_)
    exact hbars.trans (List.suffix_cons c w).isInfix

namespace IsFieldName

variable {name : String}

theorem runs (h : IsFieldName name) : Runs [] name.toList :=
  runs_of_not_mem h.noSlash h.noSpace h.noTab h.noBars

theorem stepOfWord_eq (h : IsFieldName name) : stepOfWord name.toList = .name name := by
  have hne {w : List Char} (hw : '.' ∈ w) : name.toList ≠ w := by
    rintro rfl
    exact h.noDot hw
  rw [stepOfWord, if_neg (hne (by simp)), if_neg (hne (by simp)), String.ofList_toList]

theorem scan_eq (h : IsFieldName name) (n : Nat) :
    Token.scan n name.toList = [.word n name.toList] := by
  have hscan := Token.scan_word n h.nonempty h.runs
  rwa [List.append_nil] at hscan

theorem ofText_eq (h : IsFieldName name) : ofText name = .ok ⟨name, [[.name name]]⟩ := by
  rw [ofText, h.scan_eq, ← h.stepOfWord_eq]
  rfl

/-- A step that stays is a step of its own. -/
theorem ofText_current (h : IsFieldName name) :
    ofText ("./" ++ name) = .ok ⟨"./" ++ name, [[.current, .name name]]⟩ := by
  have hscan : Token.scan 0 ("./" ++ name).toList =
      [.word 0 ['.'], .slash 1, .word 2 name.toList] := by
    have hdot : Runs ('/' :: name.toList) ['.'] := .cons (by rfl) (.nil (.slash name.toList))
    have htext : ("./" ++ name).toList = ['.'] ++ '/' :: name.toList := by simp
    rw [htext, Token.scan_word 0 (List.cons_ne_nil _ _) hdot, Token.scan_slash, h.scan_eq]
    rfl
  rw [ofText, hscan, ← h.stepOfWord_eq]
  rfl

theorem fieldName?_eq (h : IsFieldName name) : (Step.name name).fieldName? = some name := by
  have hwhole : name.toList.takeWhile (· != '.') = name.toList := by
    rw [List.takeWhile_eq_self_iff]
    intro c hc
    exact bne_iff_ne.2 fun heq => h.noDot (heq ▸ hc)
  rw [Step.fieldName?, hwhole, String.ofList_toList]

end IsFieldName
end PacketTypings.FieldPath
