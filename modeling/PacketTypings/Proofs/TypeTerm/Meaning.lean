import PacketTypings.TypeTerm.Basic

/-! What types mean. A type holds of a value or not; the meaning of leaves and of arrays, of objects
and of a member with given values is left open. -/

namespace PacketTypings

/-- A reading of types over the values `V`. -/
structure Meaning (V : Type) where
  /-- The value is an object: it is of the type of the empty record. -/
  object : V → Prop
  /-- The member of that name is as the constraint on its values says. -/
  member : String → (V → Prop) → V → Prop
  /-- What a leaf or an array stands for. -/
  atom : TypeTerm → V → Prop

namespace Meaning

variable {V : Type} (m : Meaning V)

mutual

/-- The value is of the type. Notes do not count. -/
def Holds : TypeTerm → V → Prop
  | .record members => fun v => m.object v ∧ MembersHold members v
  | .union parts => SomeHolds parts
  | .intersection parts => AllHold parts
  | .annotated inner _ => Holds inner
  | .primitive name => m.atom (.primitive name)
  | .reference name => m.atom (.reference name)
  | .text value => m.atom (.text value)
  | .truth value => m.atom (.truth value)
  | .array element => m.atom (.array element)

def MembersHold : List (String × TypeTerm) → V → Prop
  | [] => fun _ => True
  | (name, e) :: rest => fun v => m.member name (Holds e) v ∧ MembersHold rest v

def SomeHolds : List TypeTerm → V → Prop
  | [] => fun _ => False
  | e :: rest => fun v => Holds e v ∨ SomeHolds rest v

def AllHold : List TypeTerm → V → Prop
  | [] => fun _ => True
  | e :: rest => fun v => Holds e v ∧ AllHold rest v

end

variable {m}

theorem membersHold_iff {members : List (String × TypeTerm)} {v : V} :
    m.MembersHold members v ↔ ∀ x ∈ members, m.member x.1 (m.Holds x.2) v := by
  induction members with
  | nil => simp [MembersHold]
  | cons x rest ih => simp only [MembersHold, ih, List.forall_mem_cons]

theorem someHolds_iff {parts : List TypeTerm} {v : V} :
    m.SomeHolds parts v ↔ ∃ e ∈ parts, m.Holds e v := by
  induction parts with
  | nil => simp [SomeHolds]
  | cons e rest ih => simp [SomeHolds, ih]

theorem allHold_iff {parts : List TypeTerm} {v : V} :
    m.AllHold parts v ↔ ∀ e ∈ parts, m.Holds e v := by
  induction parts with
  | nil => simp [AllHold]
  | cons e rest ih => simp only [AllHold, ih, List.forall_mem_cons]

theorem holds_record {members : List (String × TypeTerm)} {v : V} :
    m.Holds (.record members) v ↔
      m.object v ∧ ∀ x ∈ members, m.member x.1 (m.Holds x.2) v := by
  rw [← membersHold_iff]
  rfl

theorem holds_union {parts : List TypeTerm} {v : V} :
    m.Holds (.union parts) v ↔ ∃ e ∈ parts, m.Holds e v := someHolds_iff

theorem holds_intersection {parts : List TypeTerm} {v : V} :
    m.Holds (.intersection parts) v ↔ ∀ e ∈ parts, m.Holds e v := allHold_iff

end Meaning
end PacketTypings
