import PacketTypings.Document.Protocol
import Mathlib.Data.List.Basic

/-! The entries at a namespace. A namespace is a text of keys between slashes, and each key leads
from an object to what its member holds. Main statement: there are entries exactly if the keys lead
to an object with a type mapping, the entries are that mapping with its order, and slashes only
separate keys. It does not matter for this what becomes of an object that a member was taken out
of. -/

namespace PacketTypings

namespace Json

/-- The second value is held by the last of the keys: every key is that of a member of an object,
and the next one is looked up in what the member holds. -/
inductive Leads : Json → List String → Json → Prop
  | here (v : Json) : Leads v [] v
  | member {members : List (String × Json)} {key : String} {v w : Json} {rest : List String}
      (found : get? key members = some v) (onwards : Leads v rest w) :
      Leads (.obj members) (key :: rest) w

theorem leads_cons_iff {members : List (String × Json)} {key : String} {rest : List String}
    {w : Json} : Leads (.obj members) (key :: rest) w ↔
      ∃ v, get? key members = some v ∧ Leads v rest w := by
  constructor
  · rintro (_ | ⟨found, onwards⟩)
    exact ⟨_, found, onwards⟩
  · rintro ⟨v, found, onwards⟩
    exact .member found onwards

theorem leads_append_iff {v w : Json} {ks ls : List String} :
    Leads v (ks ++ ls) w ↔ ∃ u, Leads v ks u ∧ Leads u ls w := by
  constructor
  · intro h
    induction ks generalizing v with
    | nil => exact ⟨v, .here v, h⟩
    | cons key ks ih =>
      cases h with
      | member found onwards =>
        obtain ⟨u, hks, hls⟩ := ih onwards
        exact ⟨u, .member found hks, hls⟩
  · rintro ⟨u, hks, hls⟩
    induction hks with
    | here v => exact hls
    | member found _ ih => exact .member found (ih hls)

/-- A way to take a member out of an object, with what is left of it. Only an object without the key
has to stay as it is. -/
structure Removal where
  remove : String → List (String × Json) → Option Json × List (String × Json)
  fst_remove : ∀ key members, (remove key members).1 = get? key members
  snd_remove : ∀ key members, get? key members = none → (remove key members).2 = members

/-- The last member takes the place of the one that is taken out. -/
def swapRemove (key : String) : List (String × Json) → Option Json × List (String × Json)
  | [] => (none, [])
  | (k, v) :: rest =>
    if key = k then (some v, rest.getLast?.toList ++ rest.dropLast)
    else ((swapRemove key rest).1, (k, v) :: (swapRemove key rest).2)

def Removal.swap : Removal where
  remove := swapRemove
  fst_remove key members := by
    induction members with
    | nil => rfl
    | cons m rest ih =>
      rw [swapRemove, get?, List.lookup_cons]
      by_cases h : key = m.1
      · rw [if_pos h, beq_iff_eq.2 h]
      · rw [if_neg h, beq_eq_false_iff_ne.2 h, ih]
        rfl
  snd_remove key members habsent := by
    induction members with
    | nil => rfl
    | cons m rest ih =>
      rw [get?, List.lookup_cons] at habsent
      rw [swapRemove]
      by_cases h : key = m.1
      · rw [beq_iff_eq.2 h] at habsent
        cases habsent
      · rw [beq_eq_false_iff_ne.2 h] at habsent
        rw [if_neg h, ih habsent]

namespace Removal

variable (r : Removal)

/-- What the keys lead to, taken out of one object after the other. -/
def follow? : Json → List String → Option Json
  | v, [] => some v
  | .obj members, key :: rest => (r.remove key members).1.bind fun w => follow? w rest
  | _, _ :: _ => none

/-- The types are taken out of an object; without any, they are what is left of it. -/
def types? : Json → Option (List (String × Json))
  | .obj members =>
    match r.remove "types" members with
    | (some (.obj types), _) => some types
    | (some _, _) => none
    | (none, left) => some left
  | _ => none

def entries? (root : Json) (namespaceText : String) : Option (List (String × Json)) :=
  (r.follow? root (Protocol.keys namespaceText)).bind r.types?

theorem follow?_eq (v : Json) (keys : List String) :
    r.follow? v keys = Protocol.follow? v keys := by
  induction keys generalizing v with
  | nil => cases v <;> rfl
  | cons key rest ih =>
    cases v with
    | obj members =>
      rw [follow?, Protocol.follow?, r.fst_remove]
      exact congrArg _ (funext ih)
    | _ => rfl

theorem types?_eq (v : Json) : r.types? v = Protocol.types? v := by
  cases v with
  | obj members =>
    have hleft := r.snd_remove "types" members
    simp only [types?, Protocol.types?, ← r.fst_remove "types" members] at hleft ⊢
    generalize r.remove "types" members = result at hleft ⊢
    obtain ⟨found, left⟩ := result
    cases found with
    | none => exact congrArg some (hleft rfl)
    | some types => cases types <;> rfl
  | _ => rfl

theorem entries?_eq (root : Json) (namespaceText : String) :
    r.entries? root namespaceText =
      (Protocol.follow? root (Protocol.keys namespaceText)).bind Protocol.types? := by
  rw [entries?, r.follow?_eq]
  exact congrArg _ (funext r.types?_eq)

end Removal
end Json

namespace Protocol

/-- The texts between slashes that are not empty. -/
def components (namespaceText : String) : List String :=
  ((namespaceText.toList.splitOn '/').filter (· ≠ [])).map String.ofList

theorem keys_eq_components (namespaceText : String) :
    keys namespaceText = components namespaceText := by
  rw [keys, components]
  congr 2
  funext piece
  cases piece <;> rfl

theorem components_append_slash (a b : String) :
    components (a ++ "/" ++ b) = components a ++ components b := by
  have hsplit : (a ++ "/" ++ b).toList.splitOn '/' =
      a.toList.splitOn '/' ++ b.toList.splitOn '/' := by
    rw [String.toList_append, String.toList_append, List.append_assoc]
    exact List.splitOn_append_cons_self ..
  rw [components, hsplit, List.filter_append, List.map_append]
  rfl

theorem components_intercalate (pieces : List String) :
    components (String.intercalate "/" pieces) = pieces.flatMap components := by
  induction pieces with
  | nil => rfl
  | cons piece rest ih =>
    cases rest with
    | nil => simp
    | cons next rest =>
      rw [String.intercalate_cons_cons, components_append_slash, ih, List.flatMap_cons (x := piece)]

theorem flatMap_components_filter (pieces : List String) :
    (pieces.filter (· ≠ "")).flatMap components = pieces.flatMap components := by
  induction pieces with
  | nil => rfl
  | cons piece rest ih =>
    by_cases h : piece = ""
    · rw [List.filter_cons_of_neg (by simpa using h), ih, List.flatMap_cons, h]
      rfl
    · rw [List.filter_cons_of_pos (by simpa using h), List.flatMap_cons, List.flatMap_cons, ih]

theorem follow?_eq_some_iff {v w : Json} {keys : List String} :
    follow? v keys = some w ↔ v.Leads keys w := by
  induction keys generalizing v with
  | nil =>
    rw [follow?, Option.some.injEq]
    constructor
    · rintro rfl
      exact .here v
    · rintro ⟨⟩
      rfl
  | cons key rest ih =>
    cases v with
    | obj members =>
      rw [follow?, Option.bind_eq_some_iff, Json.leads_cons_iff]
      simp only [ih]
    | _ => exact ⟨nofun, nofun⟩

/-- The types of an object are its member of that name if it holds an object, or else, without such
a member, all of its members. -/
def HasTypes (members types : List (String × Json)) : Prop :=
  Json.get? "types" members = some (.obj types) ∨
    Json.get? "types" members = none ∧ types = members

theorem types?_eq_some_iff {v : Json} {types : List (String × Json)} :
    types? v = some types ↔ ∃ members, v = .obj members ∧ HasTypes members types := by
  cases v with
  | obj members =>
    simp only [types?, HasTypes, Json.obj.injEq, exists_eq_left']
    cases Json.get? "types" members with
    | none => simp [eq_comm]
    | some found => cases found <;> simp
  | _ => simp [types?]

variable {root : Json} {namespaceText : String} {p : Protocol}

theorem ofJson_eq_ok_iff : ofJson root namespaceText = .ok p ↔
    ∃ members, root.Leads (components namespaceText) (.obj members) ∧
      HasTypes members p.entries := by
  have hentries : ofJson root namespaceText = .ok p ↔
      (follow? root (keys namespaceText)).bind types? = some p.entries := by
    obtain ⟨entries⟩ := p
    unfold ofJson
    cases (follow? root (keys namespaceText)).bind types? <;> simp
  rw [hentries, Option.bind_eq_some_iff, keys_eq_components]
  simp only [follow?_eq_some_iff, types?_eq_some_iff]
  constructor
  · rintro ⟨_, hleads, members, rfl, htypes⟩
    exact ⟨members, hleads, htypes⟩
  · rintro ⟨members, hleads, htypes⟩
    exact ⟨_, hleads, members, rfl, htypes⟩

theorem ofJson_ok_or_missingTypes (root : Json) (namespaceText : String) :
    (∃ p, ofJson root namespaceText = .ok p) ∨
      ofJson root namespaceText = .error (.missingTypes namespaceText) := by
  unfold ofJson
  cases (follow? root (keys namespaceText)).bind types? with
  | none => exact .inr rfl
  | some entries => exact .inl ⟨⟨entries⟩, rfl⟩

/-- There are entries at a namespace exactly if its components lead, object after object, to an
object whose member `types` is an object or is not there; the entries are then all members of that
mapping, in their order. Every failure names the namespace as it is given. Empty components do not
matter, and what is in front of a slash can be followed by itself. The objects may be used up on the
way: whatever is left of an object that a member is taken out of, the entries are the same. -/
theorem ofJson_selects (root : Json) :
    (∀ namespaceText p, ofJson root namespaceText = .ok p ↔
      ∃ members, root.Leads (components namespaceText) (.obj members) ∧
        HasTypes members p.entries) ∧
    (∀ namespaceText, (∃ p, ofJson root namespaceText = .ok p) ∨
      ofJson root namespaceText = .error (.missingTypes namespaceText)) ∧
    (∀ pieces p, ofJson root (String.intercalate "/" pieces) = .ok p ↔
      ofJson root (String.intercalate "/" (pieces.filter (· ≠ ""))) = .ok p) ∧
    (∀ a b p, ofJson root (a ++ "/" ++ b) = .ok p ↔
      ∃ v, root.Leads (components a) v ∧ ofJson v b = .ok p) ∧
    ∀ (r : Json.Removal) namespaceText,
      r.entries? root namespaceText = (ofJson root namespaceText).toOption.map entries := by
  refine ⟨fun _ _ => ofJson_eq_ok_iff, ofJson_ok_or_missingTypes root, fun pieces p => ?_,
    fun a b p => ?_, fun r namespaceText => ?_⟩
  · rw [ofJson_eq_ok_iff, ofJson_eq_ok_iff, components_intercalate, components_intercalate,
      flatMap_components_filter]
  · simp only [ofJson_eq_ok_iff, components_append_slash, Json.leads_append_iff]
    constructor
    · rintro ⟨members, ⟨v, ha, hb⟩, htypes⟩
      exact ⟨v, ha, members, hb, htypes⟩
    · rintro ⟨v, ha, members, hb, htypes⟩
      exact ⟨members, ⟨v, ha, hb⟩, htypes⟩
  · rw [r.entries?_eq, ofJson]
    cases (follow? root (keys namespaceText)).bind types? <;> rfl

/-- A namespace that goes through a key `types`, with the mapping in the order of its members though
the last member takes the place of one that is taken out; and a namespace that ends at no object. -/
theorem ofJson_selects_of_key_types :
    let types : List (String × Json) := [("z", .str "native"), ("a", .str "native")]
    let root : Json := .obj [("types", .obj [("x", .null), ("types", .obj types), ("y", .null)])]
    ofJson root "//types/types/" = .ok ⟨types⟩ ∧
      Json.Removal.swap.entries? root "//types/types/" = some types ∧
      ofJson root "types/x" = .error (.missingTypes "types/x") := by
  intro types root
  obtain ⟨hentries, hfailure, -, -, hremoval⟩ := ofJson_selects root
  have hleads : root.Leads (components "//types/types/") (.obj types) :=
    .member rfl (.member rfl (.here _))
  have hok : ofJson root "//types/types/" = .ok ⟨types⟩ :=
    (hentries _ _).2 ⟨types, hleads, .inr ⟨rfl, rfl⟩⟩
  refine ⟨hok, ?_, (hfailure "types/x").resolve_left ?_⟩
  · rw [hremoval, hok]
    rfl
  · rintro ⟨p, hp⟩
    obtain ⟨members, hnone, -⟩ := (hentries _ _).1 hp
    obtain ⟨_, found, onwards⟩ := Json.leads_cons_iff.1 hnone
    cases found
    obtain ⟨_, found, onwards⟩ := Json.leads_cons_iff.1 onwards
    cases found
    cases onwards

end Protocol
end PacketTypings
