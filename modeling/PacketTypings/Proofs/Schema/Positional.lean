import PacketTypings.Proofs.Schema.Encoding

/-! Options written by place. Where an object is asked for, a list of the right length is read as
the object of the same values. Main statement: options are read as the options, all written by key,
that they stand for, and are refused exactly if there are none or if these are refused. -/

namespace PacketTypings

/-- The keys of a record in the order of their places, and how many of these a list has to fill. -/
structure Places where
  keys : List String
  least : Nat

namespace Places

/-- The second value is the object that the first stands for where such a record is read. -/
inductive Named (p : Places) : Json → Json → Prop
  | byKey (members : List (String × Json)) : Named p (.obj members) (.obj members)
  | byPlace {items : List Json} (enough : p.least ≤ items.length)
      (fits : items.length ≤ p.keys.length) : Named p (.arr items) (.obj (p.keys.zip items))

/-- The second value is the first with each of its items written by key. -/
inductive Lists (p : Places) : Json → Json → Prop
  | items {items items' : List Json} (each : List.Forall₂ p.Named items items') :
      Lists p (.arr items) (.arr items')

end Places

/-- A value is read as what it stands for, and only if it stands for something. -/
structure Reads {α : Type} (StandsFor : Json → Json → Prop) (read : Json → Except ShapeFault α) :
    Prop where
  same : ∀ {v o}, StandsFor v o → read v = read o
  named : ∀ {v a}, read v = .ok a → ∃ o, StandsFor v o

namespace Reads

variable {α : Type} {StandsFor : Json → Json → Prop} {read : Json → Except ShapeFault α}

theorem mapM_eq (h : Reads StandsFor read) {items items' : List Json}
    (hitems : List.Forall₂ StandsFor items items') : items.mapM read = items'.mapM read := by
  induction hitems with
  | nil => rfl
  | cons hv _ ih => rw [List.mapM_cons, List.mapM_cons, h.same hv, ih]

theorem list {p : Places} (h : Reads p.Named read) : Reads p.Lists (listOfJson read) where
  same h' := by
    cases h' with
    | items each => exact h.mapM_eq each
  named {v as} hv := by
    cases v with
    | arr items =>
      have heach : ∀ v ∈ items, ∃ o, p.Named v o := fun v hmem => by
        obtain ⟨a, -, ha⟩ := exists_of_mem_of_mapM_eq_ok hv hmem
        exact h.named ha
      choose! spelled hspelled using heach
      refine ⟨.arr (items.map spelled), .items ?_⟩
      rw [List.forall₂_map_right_iff, List.forall₂_same]
      exact hspelled
    | null => cases hv
    | bool b => cases hv
    | num n => cases hv
    | str s => cases hv
    | obj members => cases hv

end Reads

/-- If a record is read whose last required slot stands at `i`, the value stands for an object. -/
theorem RecordName.exists_named {α : Type} {p : Places} {r : RecordName}
    (hsize : p.keys.length = r.size) {check : String → Json → Except ShapeFault Unit} {v : Json}
    {w : Written} {i : Nat} {s : Slot α} {a : α} (hleast : p.least = i + 1)
    (hshort : s.short? = none) (hw : r.ofJson check v = .ok w) (hslot : r.slot w i s = .ok a)
    (hclose : r.close w = .ok ()) : ∃ o, p.Named v o := by
  cases v with
  | obj members => exact ⟨_, .byKey members⟩
  | arr items =>
    cases hw
    have henough : i < items.length := by
      by_contra hlt
      simp [slot, List.getElem?_eq_none (Nat.le_of_not_lt hlt), hshort] at hslot
    have hfits : items.length ≤ r.size := by
      by_contra hlt
      simp [close, Nat.lt_of_not_le hlt] at hclose
    exact ⟨_, .byPlace (by omega) (by omega)⟩
  | null => cases hw
  | bool b => cases hw
  | num n => cases hw
  | str s => cases hw

namespace FieldOf

def places : Places := ⟨["name", "type", "anon"], 2⟩

theorem reads_places : Reads places.Named ofJson where
  same h := by
    cases h with
    | byKey members => rfl
    | @byPlace items enough fits =>
      match items, enough, fits with
      | [name, node], _, _ => cases name <;> rfl
      | [name, node, anonymous], _, _ => cases name <;> cases anonymous <;> rfl
  named h := by
    obtain ⟨w, hw, h⟩ := bind_eq_ok_iff.1 h
    obtain ⟨name, -, h⟩ := bind_eq_ok_iff.1 h
    obtain ⟨node, hnode, h⟩ := bind_eq_ok_iff.1 h
    obtain ⟨anonymous, -, h⟩ := bind_eq_ok_iff.1 h
    obtain ⟨_, hclose, -⟩ := bind_eq_ok_iff.1 h
    exact RecordName.exists_named rfl rfl rfl hw hnode hclose

end FieldOf

namespace SwitchOptions

def places : Places := ⟨["compareTo", "fields", "default"], 3⟩

theorem reads_places : Reads places.Named ofJson where
  same h := by
    cases h with
    | byKey members => rfl
    | @byPlace items enough fits =>
      match items, enough, fits with
      | [compareTo, arms, default], _, _ => cases compareTo <;> cases arms <;> rfl
  named h := by
    obtain ⟨w, hw, h⟩ := bind_eq_ok_iff.1 h
    obtain ⟨compareTo, -, h⟩ := bind_eq_ok_iff.1 h
    obtain ⟨arms, -, h⟩ := bind_eq_ok_iff.1 h
    obtain ⟨default?, hdefault, h⟩ := bind_eq_ok_iff.1 h
    obtain ⟨_, hclose, -⟩ := bind_eq_ok_iff.1 h
    exact RecordName.exists_named rfl rfl rfl hw hdefault hclose

end SwitchOptions

/-- A record of one value under that key. -/
def Places.sole (key : String) : Places := ⟨[key], 1⟩

namespace RecordName

/-- The value of the only slot of a record. -/
def sole {α : Type} (r : RecordName) (s : Slot α) (check : String → Json → Except ShapeFault Unit)
    (v : Json) : Except ShapeFault α := do
  let w ← r.ofJson check v
  let a ← r.slot w 0 s
  r.close w
  return a

/-- Members are checked before the slot is read; the check may find no fault that the slot does
not. -/
theorem reads_sole {α : Type} {r : RecordName} {s : Slot α}
    {check : String → Json → Except ShapeFault Unit} (hsize : r.size = 1) (hshort : s.short? = none)
    (hcheck : ∀ v e, check s.key v = .error e → s.read v = .error e) :
    Reads (Places.sole s.key).Named (r.sole s check) where
  same h := by
    cases h with
    | byKey members => rfl
    | @byPlace items enough fits =>
      match items, enough, fits with
      | [v], _, _ =>
        simp only [Places.sole, sole, ofJson, slot, close, hsize]
        cases hfault : check s.key v with
        | error e => simp [hfault, hcheck v e hfault, bind, Except.bind]
        | ok _ => simp [hfault, bind, Except.bind, pure, Except.pure, Json.get?]
  named h := by
    obtain ⟨w, hw, h⟩ := bind_eq_ok_iff.1 h
    obtain ⟨a, ha, h⟩ := bind_eq_ok_iff.1 h
    obtain ⟨_, hclose, -⟩ := bind_eq_ok_iff.1 h
    exact exists_named (p := .sole s.key) hsize.symm rfl hshort hw ha hclose

end RecordName

theorem Slot.read_eq_error_of_check {α : Type} {s : Slot α} {v : Json} {e : ShapeFault}
    (h : s.check s.key v = .error e) : s.read v = .error e := by
  rw [check, if_pos rfl] at h
  exact map_eq_error_iff.1 h

theorem reads_mappings : Reads (Places.sole "mappings").Named mappingsOfJson :=
  RecordName.reads_sole (r := ⟨"RawMapper", 1⟩) (s := .required "mappings" Slot.map) rfl rfl
    fun _ _ => Slot.read_eq_error_of_check

theorem reads_element : Reads (Places.sole "type").Named elementOfJson :=
  RecordName.reads_sole (r := ⟨"RawTyped", 1⟩) (s := .node) rfl rfl fun _ _ h => by cases h

theorem reads_bitfieldMember : Reads (Places.sole "name").Named bitfieldMemberOfJson :=
  RecordName.reads_sole (r := ⟨"RawBitfieldMember", 1⟩) (s := .required "name" Slot.string) rfl rfl
    fun _ _ => Slot.read_eq_error_of_check

theorem reads_flags : Reads (Places.sole "flags").Named Flags.ofJson where
  same h := by
    cases h with
    | byKey members => rfl
    | @byPlace items enough fits =>
      match items, enough, fits with
      | [v], _, _ => rfl
  named h := by
    obtain ⟨w, hw, h⟩ := bind_eq_ok_iff.1 h
    obtain ⟨written, hwritten, h⟩ := bind_eq_ok_iff.1 h
    obtain ⟨_, hclose, -⟩ := bind_eq_ok_iff.1 h
    exact RecordName.exists_named rfl rfl rfl hw hwritten hclose

namespace EncapsulatedOptions

def places : Places := ⟨["lengthType", "type"], 2⟩

theorem reads_places : Reads places.Named ofJson where
  same h := by
    cases h with
    | byKey members => rfl
    | @byPlace items enough fits =>
      match items, enough, fits with
      | [lengthType, content], _, _ => cases lengthType <;> rfl
  named h := by
    obtain ⟨w, hw, h⟩ := bind_eq_ok_iff.1 h
    obtain ⟨lengthType, -, h⟩ := bind_eq_ok_iff.1 h
    obtain ⟨content, hcontent, h⟩ := bind_eq_ok_iff.1 h
    obtain ⟨_, hclose, -⟩ := bind_eq_ok_iff.1 h
    exact RecordName.exists_named rfl rfl rfl hw hcontent hclose

end EncapsulatedOptions

namespace Kind

/-- The second options are the first with their records written by key. What is optional is a node,
and no record. -/
def Spells : Kind → Json → Json → Prop
  | container => FieldOf.places.Lists
  | switch => SwitchOptions.places.Named
  | mapper => (Places.sole "mappings").Named
  | array => (Places.sole "type").Named
  | option => Eq
  | bitflags => (Places.sole "flags").Named
  | bitfield => (Places.sole "name").Lists
  | encapsulated => EncapsulatedOptions.places.Named

/-- Options that hold something else than an object where one belongs. -/
def Mistyped (options : Json) : Kind → Prop
  | container | bitfield => ∃ items, options = .arr items ∧ ∃ v ∈ items, v.kind ≠ .object
  | option => False
  | _ => options.kind ≠ .object

end Kind

theorem Places.Named.kind_eq {p : Places} {v o : Json} (h : p.Named v o) : o.kind = .object := by
  cases h <;> rfl

theorem Places.Lists.kind_eq {p : Places} {v : Json} {items : List Json}
    (h : p.Lists v (.arr items)) : ∀ o ∈ items, o.kind = .object := by
  cases h with
  | items each =>
    induction each with
    | nil => exact nofun
    | cons hv _ ih => exact List.forall_mem_cons.2 ⟨hv.kind_eq, ih⟩

/-- What is written by key is not mistyped. -/
theorem Kind.Spells.not_mistyped {k : Kind} {options o : Json} (h : k.Spells options o) :
    ¬ k.Mistyped o := by
  cases k with
  | container => rintro ⟨items, rfl, v, hv, hkind⟩; exact hkind (h.kind_eq v hv)
  | bitfield => rintro ⟨items, rfl, v, hv, hkind⟩; exact hkind (h.kind_eq v hv)
  | option => exact id
  | switch => exact not_not_intro h.kind_eq
  | mapper => exact not_not_intro h.kind_eq
  | array => exact not_not_intro h.kind_eq
  | bitflags => exact not_not_intro h.kind_eq
  | encapsulated => exact not_not_intro h.kind_eq

namespace Node

/-- Options are read by shape before any node inside them. -/
theorem exists_read {k : Kind} (hk : k ≠ .option) :
    ∃ (α : Type) (read : Json → Except ShapeFault α) (build : α → Except Fault Node),
      Reads k.Spells read ∧ ∀ options, ofOptions options k = k.shaped (read options) >>= build := by
  cases k with
  | container => exact ⟨_, _, _, FieldOf.reads_places.list, fun _ => rfl⟩
  | switch => exact ⟨_, _, _, SwitchOptions.reads_places, fun _ => rfl⟩
  | mapper => exact ⟨_, _, _, reads_mappings, fun _ => rfl⟩
  | array => exact ⟨_, _, _, reads_element, fun _ => rfl⟩
  | option => exact absurd rfl hk
  | bitflags => exact ⟨_, _, _, reads_flags, fun _ => rfl⟩
  | bitfield => exact ⟨_, _, _, reads_bitfieldMember.list, fun _ => rfl⟩
  | encapsulated => exact ⟨_, _, _, EncapsulatedOptions.reads_places, fun _ => rfl⟩

theorem ofOptions_eq_of_spells {k : Kind} {options o : Json} (h : k.Spells options o) :
    ofOptions options k = ofOptions o k := by
  by_cases hk : k = .option
  · subst hk
    exact congrArg (ofOptions · .option) h
  · obtain ⟨α, read, build, hreads, heq⟩ := exists_read hk
    rw [heq, heq, hreads.same h]

theorem ofOptions_malformed_of_not_spells {k : Kind} {options : Json}
    (h : ∀ o, ¬ k.Spells options o) : ∃ e, ofOptions options k = .error (.malformed k e) := by
  have hk : k ≠ .option := by
    rintro rfl
    exact h options rfl
  obtain ⟨α, read, build, hreads, heq⟩ := exists_read hk
  rw [heq]
  cases hread : read options with
  | error e => exact ⟨e, rfl⟩
  | ok a =>
    obtain ⟨o, ho⟩ := hreads.named hread
    exact absurd ho (h o)

/-- Options are read as the well-typed options that they stand for. They are refused as malformed
exactly if these are, or if there are none. -/
theorem malformed_iff_spelled_malformed (k : Kind) (rest : List Json) :
    (∀ o, k.Spells (optionsOf rest) o → ¬ k.Mistyped o ∧
      Node.ofJson (.arr (.str k.name :: rest)) = Node.ofJson (.arr [.str k.name, o])) ∧
    ((∃ e, Node.ofJson (.arr (.str k.name :: rest)) = .error (.malformed k e)) ↔
      ∀ o, k.Spells (optionsOf rest) o →
        ∃ e, Node.ofJson (.arr [.str k.name, o]) = .error (.malformed k e)) := by
  have hsame o (ho : k.Spells (optionsOf rest) o) :
      Node.ofJson (.arr (.str k.name :: rest)) = Node.ofJson (.arr [.str k.name, o]) := by
    rw [ofJson_of_kind k.ofName?_name, ofJson_kind, ofOptions_eq_of_spells ho]
  refine ⟨fun o ho => ⟨ho.not_mistyped, hsame o ho⟩, fun hrefused o ho => ?_, fun hspelled => ?_⟩
  · rwa [← hsame o ho]
  · by_cases hsome : ∃ o, k.Spells (optionsOf rest) o
    · obtain ⟨o, ho⟩ := hsome
      rw [hsame o ho]
      exact hspelled o ho
    · rw [ofJson_of_kind k.ofName?_name]
      exact ofOptions_malformed_of_not_spells (not_exists.1 hsome)

/-- The type of an array's elements may stand alone in a list. -/
theorem not_malformed_array_of_list :
    Kind.array.Mistyped (.arr [.str "u8"]) ∧
      Node.ofJson (.arr [.str "array", .arr [.str "u8"]]) = .ok (.array (.primitive "u8")) :=
  ⟨nofun, (ofJson_kind .array _).trans
    (bind_eq_ok_iff.2 ⟨_, rfl, bind_eq_ok_iff.2 ⟨_, ofJson_str "u8", rfl⟩⟩)⟩

end Node
end PacketTypings
