import PacketTypings.Schema.Inside
import Mathlib.Logic.Relation

/-! Values that a document can hold: no object has a key twice, and every number is one of the
format. Main statement: what stands inside such a value is such a value. -/

namespace PacketTypings.Json

/-- A whole number of 64 bits, signed or unsigned, or a finite binary64. -/
def Number.Valid : Number → Prop
  | int n => fitsInt n = true
  | float x => x.exponentField < 2047

inductive WellFormed : Json → Prop
  | null : WellFormed .null
  | bool (b : Bool) : WellFormed (.bool b)
  | num {n : Number} (valid : n.Valid) : WellFormed (.num n)
  | str (s : String) : WellFormed (.str s)
  | arr {items : List Json} (inside : ∀ v ∈ items, WellFormed v) : WellFormed (.arr items)
  | obj {members : List (String × Json)} (distinct : (members.map Prod.fst).Nodup)
      (inside : ∀ m ∈ members, WellFormed m.2) : WellFormed (.obj members)

theorem WellFormed.child {v w : Json} (h : v.WellFormed) (hw : w ∈ v.children) :
    w.WellFormed := by
  cases h with
  | arr inside => exact inside w hw
  | obj distinct inside =>
    obtain ⟨m, hm, rfl⟩ := List.mem_map.1 hw
    exact inside m hm
  | null => cases hw
  | bool b => cases hw
  | num valid => cases hw
  | str s => cases hw

theorem WellFormed.keys_nodup {members : List (String × Json)} (h : (Json.obj members).WellFormed) :
    (members.map Prod.fst).Nodup := by
  cases h with
  | obj distinct inside => exact distinct

/-- The second value is the first or stands somewhere inside it. -/
def Holds : Json → Json → Prop := Relation.ReflTransGen fun v w => w ∈ v.children

theorem Holds.self (v : Json) : v.Holds v := .refl

theorem Holds.child {v c w : Json} (hc : c ∈ v.children) (h : c.Holds w) : v.Holds w := .head hc h

/-- What every value hands on to the values right inside it reaches all values inside it. -/
theorem Holds.inherits {Q : Json → Prop} (hQ : ∀ v w, w ∈ v.children → Q v → Q w) {v w : Json}
    (h : v.Holds w) (hv : Q v) : Q w := by
  induction h with
  | refl => exact hv
  | tail _ hw ih => exact hQ _ _ hw ih

theorem Holds.sizeOf_le {v w : Json} (h : v.Holds w) : sizeOf w ≤ sizeOf v :=
  h.inherits (Q := fun w => sizeOf w ≤ sizeOf v)
    (fun _ _ hw hle => Nat.le_trans (Nat.le_of_lt (sizeOf_lt_of_mem_children hw)) hle)
    (Nat.le_refl _)

end PacketTypings.Json
