import PacketTypings.Schema.Node

/-! The characters of written numbers. Main statement: the value of every constant of a flag set is
written with digits, signs, points and the letter of an exponent only. -/

namespace PacketTypings

namespace Json

/-- The characters that numbers are written with. -/
def isNumeral (c : Char) : Bool := c.isDigit || c = '-' || c = '+' || c = '.' || c = 'e'

theorem isNumeral_natChars (n : Nat) : ∀ c ∈ natChars n, isNumeral c = true := fun c h => by
  have hdigit : c.isDigit = true := Nat.isDigit_of_mem_toDigits (by decide) (by decide) h
  simp [isNumeral, hdigit]

theorem isNumeral_intChars (n : Int) : ∀ c ∈ intChars n, isNumeral c = true := by
  cases n with
  | ofNat n => exact isNumeral_natChars n
  | negSucc n => exact List.forall_mem_cons.2 ⟨by decide, isNumeral_natChars _⟩

variable {digits : List Char}

theorem isNumeral_plainChars (h : ∀ c ∈ digits, isNumeral c = true) (pointAfter : Int) :
    ∀ c ∈ plainChars digits pointAfter, isNumeral c = true := by
  have hzeros (n : Nat) : ∀ c ∈ List.replicate n '0', isNumeral c = true := fun c hc => by
    rw [List.eq_of_mem_replicate hc]
    decide
  unfold plainChars
  split
  · refine List.forall_mem_cons.2 ⟨by decide, List.forall_mem_cons.2 ⟨by decide, ?_⟩⟩
    exact List.forall_mem_append.2 ⟨hzeros _, h⟩
  · have hpadded (n : Nat) : ∀ c ∈ digits ++ List.replicate n '0', isNumeral c = true :=
      List.forall_mem_append.2 ⟨h, hzeros n⟩
    refine List.forall_mem_append.2 ⟨fun c hc => hpadded _ c (List.mem_of_mem_take hc),
      List.forall_mem_cons.2 ⟨by decide, ?_⟩⟩
    split
    · exact List.forall_mem_singleton.2 (by decide)
    · exact fun c hc => hpadded _ c (List.mem_of_mem_drop hc)

theorem isNumeral_exponentChars (h : ∀ c ∈ digits, isNumeral c = true) (pointAfter : Int) :
    ∀ c ∈ exponentChars digits pointAfter, isNumeral c = true := by
  have hfraction : ∀ c ∈ if digits.length ≤ 1 then [] else '.' :: digits.drop 1,
      isNumeral c = true := by
    split
    · exact nofun
    · exact List.forall_mem_cons.2 ⟨by decide, fun c hc => h c (List.mem_of_mem_drop hc)⟩
  unfold exponentChars
  refine List.forall_mem_append.2 ⟨List.forall_mem_append.2
    ⟨fun c hc => h c (List.mem_of_mem_take hc), hfraction⟩, List.forall_mem_cons.2
    ⟨by decide, List.forall_mem_cons.2 ⟨?_, isNumeral_natChars _⟩⟩⟩
  split <;> decide

theorem isNumeral_decimalChars (d : Decimal) : ∀ c ∈ decimalChars d, isNumeral c = true := by
  unfold decimalChars
  dsimp only
  split
  · exact isNumeral_plainChars (isNumeral_natChars _) _
  · exact isNumeral_exponentChars (isNumeral_natChars _) _

theorem isNumeral_floatChars (x : Binary64) : ∀ c ∈ floatChars x, isNumeral c = true := by
  have hmagnitude : ∀ c ∈ if x.significand = 0 then "0.0".toList else decimalChars x.shortest,
      isNumeral c = true := by
    split
    · exact List.all_eq_true.1 (by decide)
    · exact isNumeral_decimalChars _
  unfold floatChars
  dsimp only
  split
  · exact List.forall_mem_cons.2 ⟨by decide, hmagnitude⟩
  · exact hmagnitude

theorem Number.isNumeral_text (n : Number) : ∀ c ∈ n.text.toList, isNumeral c = true := by
  rw [text, String.toList_ofList]
  cases n with
  | int n => exact isNumeral_intChars n
  | float x => exact isNumeral_floatChars x

end Json

theorem Flags.isNumeral_constants (flags : Flags) :
    ∀ c ∈ flags.constants, ∀ d ∈ c.2.toList, Json.isNumeral d = true := by
  cases flags with
  | sequence names =>
    refine List.forall_mem_map.2 fun x _ => ?_
    change ∀ d ∈ (Nat.repr x.2).toList, Json.isNumeral d = true
    rw [Nat.toList_repr]
    exact Json.isNumeral_natChars x.2
  | mapping values => exact List.forall_mem_map.2 fun x _ => x.2.isNumeral_text

end PacketTypings
