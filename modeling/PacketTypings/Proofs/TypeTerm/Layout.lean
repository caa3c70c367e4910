import PacketTypings.Proofs.TypeTerm.Leaves
import PacketTypings.Proofs.TypeTerm.Literal

/-! Where the text of a type is broken into lines. Line ends in keys and literals are escaped, so a
text is broken only in front of the members of a record and of its closing brace, and what a line
starts with depends on the level alone. Main statement: if no name and no note in a type has a line
end, its text is laid out in this way at every level, with the keys of all of its records. -/

namespace PacketTypings

theorem lineEnd_not_mem_indentation (level : Nat) : '\n' ∉ indentation level := by
  simp [indentation]

theorem lineEnd_not_mem_literalChars (s : String) : '\n' ∉ literalChars s := fun h =>
  absurd (isLineEnd_of_mem_literalChars h) (by decide)

theorem lineEnd_not_mem_of_isIdentifier {cs : List Char} (h : isIdentifier cs = true) :
    '\n' ∉ cs := by
  cases cs with
  | nil => cases h
  | cons c cs =>
    simp only [isIdentifier, Bool.and_eq_true, List.all_eq_true] at h
    rintro (_ | ⟨_, hmem⟩)
    · exact absurd h.1 (by decide)
    · exact absurd (h.2 _ hmem) (by decide)

theorem lineEnd_not_mem_keyChars (key : String) : '\n' ∉ keyChars key := by
  unfold keyChars
  split
  · next h => exact lineEnd_not_mem_of_isIdentifier h
  · exact lineEnd_not_mem_literalChars key

theorem lineEnd_not_mem_noteChars {cs : List Char} (h : '\n' ∉ cs) : '\n' ∉ noteChars cs := by
  induction cs using noteChars.induct with
  | case1 cs ih => simp_all [noteChars]
  | case2 c cs _ ih => simp_all [noteChars]
  | case3 => exact h

/-- A text at every level, with the keys in it: lines are opened by the key of a member, one level
deeper, and by the closing brace of a record. -/
inductive Laid : (Nat → List Char) → List String → Prop
  | unbroken {cs : List Char} (h : '\n' ∉ cs) : Laid (fun _ => cs) []
  | append {f g : Nat → List Char} {ks ls : List String} (hf : Laid f ks) (hg : Laid g ls) :
      Laid (fun level => f level ++ g level) (ks ++ ls)
  | member {f : Nat → List Char} {ks : List String} (key : String) (h : Laid f ks) :
      Laid (fun level => '\n' :: (indentation (level + 1) ++ (keyChars key ++
        (": ".toList ++ f (level + 1))))) (key :: ks)
  | brace : Laid (fun level => '\n' :: (indentation level ++ ['\x7d'])) []

namespace Laid

variable {f : Nat → List Char} {ks : List String}

theorem before (h : Laid f ks) {cs : List Char} (hcs : '\n' ∉ cs) :
    Laid (fun level => f level ++ cs) ks := by
  have happend := h.append (unbroken hcs)
  rwa [List.append_nil] at happend

theorem behind (h : Laid f ks) {cs : List Char} (hcs : '\n' ∉ cs) :
    Laid (fun level => cs ++ f level) ks :=
  (unbroken hcs).append h

theorem parenthesized (h : Laid f ks) (b : Bool) :
    Laid (fun level => TypeTerm.parenthesized b (f level)) ks := by
  cases b with
  | false => exact h
  | true => exact (h.before (by decide : '\n' ∉ [')'])).behind (by decide : '\n' ∉ ['('])

end Laid

namespace TypeTerm

mutual

/-- The notes, from left to right. -/
def notes : TypeTerm → List String
  | primitive _ => []
  | reference _ => []
  | text _ => []
  | truth _ => []
  | record members => memberNotes members
  | array element => element.notes
  | union parts => partNotes parts
  | intersection parts => partNotes parts
  | annotated inner note => inner.notes ++ [note]

def memberNotes : List (String × TypeTerm) → List String
  | [] => []
  | (_, t) :: rest => t.notes ++ memberNotes rest

def partNotes : List TypeTerm → List String
  | [] => []
  | t :: rest => t.notes ++ partNotes rest

end

theorem memberNotes_eq (members : List (String × TypeTerm)) :
    memberNotes members = members.flatMap fun m => m.2.notes := by
  induction members with
  | nil => rfl
  | cons m rest ih => rw [memberNotes, ih, List.flatMap_cons]

theorem partNotes_eq (parts : List TypeTerm) : partNotes parts = parts.flatMap notes := by
  induction parts with
  | nil => rfl
  | cons t rest ih => rw [partNotes, ih, List.flatMap_cons]

mutual

/-- The keys of all records, from left to right. -/
def keys : TypeTerm → List String
  | primitive _ => []
  | reference _ => []
  | text _ => []
  | truth _ => []
  | record members => memberKeys members
  | array element => element.keys
  | union parts => partKeys parts
  | intersection parts => partKeys parts
  | annotated inner _ => inner.keys

def memberKeys : List (String × TypeTerm) → List String
  | [] => []
  | (key, t) :: rest => key :: (t.keys ++ memberKeys rest)

def partKeys : List TypeTerm → List String
  | [] => []
  | t :: rest => t.keys ++ partKeys rest

end

/-- What is written as it is has no line end. -/
structure Unbroken (e : TypeTerm) : Prop where
  primitives : ∀ name ∈ e.primitives, '\n' ∉ name.toList
  references : ∀ name ∈ e.references, '\n' ∉ name.toList
  notes : ∀ note ∈ e.notes, '\n' ∉ note.toList

namespace Unbroken

theorem member {members : List (String × TypeTerm)} (h : (record members).Unbroken)
    {m : String × TypeTerm} (hm : m ∈ members) : m.2.Unbroken where
  primitives := ((primitives_inherited _).record members).1 h.primitives m hm
  references := ((references_inherited _).record members).1 h.references m hm
  notes := by
    have hnotes := h.notes
    rw [TypeTerm.notes, memberNotes_eq, List.forall_mem_flatMap] at hnotes
    exact hnotes m hm

theorem alternative {parts : List TypeTerm} (h : (union parts).Unbroken) {p : TypeTerm}
    (hp : p ∈ parts) : p.Unbroken where
  primitives := ((primitives_inherited _).union parts).1 h.primitives p hp
  references := ((references_inherited _).union parts).1 h.references p hp
  notes := by
    have hnotes := h.notes
    rw [TypeTerm.notes, partNotes_eq, List.forall_mem_flatMap] at hnotes
    exact hnotes p hp

theorem operand {parts : List TypeTerm} (h : (intersection parts).Unbroken) {p : TypeTerm}
    (hp : p ∈ parts) : p.Unbroken :=
  alternative ⟨h.primitives, h.references, h.notes⟩ hp

theorem element {element : TypeTerm} (h : (array element).Unbroken) : element.Unbroken :=
  ⟨h.primitives, h.references, h.notes⟩

theorem inner {inner : TypeTerm} {note : String} (h : (annotated inner note).Unbroken) :
    inner.Unbroken ∧ '\n' ∉ note.toList := by
  obtain ⟨hinner, hnote⟩ := List.forall_mem_append.1 h.notes
  exact ⟨⟨h.primitives, h.references, hinner⟩, hnote note (List.mem_singleton.2 rfl)⟩

end Unbroken

/-- The lines of the members and the line of the closing brace. -/
theorem laid_membersChars {members : List (String × TypeTerm)}
    (h : ∀ m ∈ members, Laid (fun level => m.2.chars level) m.2.keys) :
    Laid (fun level =>
        '\n' :: (membersChars (level + 1) members ++ (indentation level ++ ['\x7d'])))
      (memberKeys members) := by
  induction members with
  | nil => exact .brace
  | cons m rest ih =>
    obtain ⟨hm, hrest⟩ := List.forall_mem_cons.1 h
    have hlines := (Laid.member m.1 hm).append (ih hrest)
    simpa [membersChars, memberKeys] using hlines

theorem laid_alternativesChars {parts : List TypeTerm}
    (h : ∀ p ∈ parts, Laid (fun level => p.chars level) p.keys) :
    Laid (fun level => alternativesChars level parts) (partKeys parts) := by
  induction parts with
  | nil => exact .unbroken List.not_mem_nil
  | cons t rest ih =>
    obtain ⟨ht, hrest⟩ := List.forall_mem_cons.1 h
    exact (ht.behind (by decide : '\n' ∉ " | ".toList)).append (ih hrest)

theorem laid_operandsChars {parts : List TypeTerm}
    (h : ∀ p ∈ parts, Laid (fun level => p.chars level) p.keys) :
    Laid (fun level => operandsChars level parts) (partKeys parts) := by
  induction parts with
  | nil => exact .unbroken List.not_mem_nil
  | cons t rest ih =>
    obtain ⟨ht, hrest⟩ := List.forall_mem_cons.1 h
    exact ((ht.parenthesized _).behind (by decide : '\n' ∉ " & ".toList)).append (ih hrest)

/-- Only the records in a type break its text into lines. -/
theorem laid_chars {e : TypeTerm} (h : e.Unbroken) : Laid (fun level => e.chars level) e.keys := by
  induction e with
  | primitive name => exact .unbroken (h.primitives name (List.mem_singleton.2 rfl))
  | reference name => exact .unbroken (h.references name (List.mem_singleton.2 rfl))
  | text value => exact .unbroken (lineEnd_not_mem_literalChars value)
  | truth value =>
    cases value with
    | true => exact .unbroken (by decide : '\n' ∉ "true".toList)
    | false => exact .unbroken (by decide : '\n' ∉ "false".toList)
  | record members ih =>
    cases members with
    | nil => exact .unbroken (by decide : '\n' ∉ ['\x7b', '\x7d'])
    | cons m ms =>
      have hmembers := laid_membersChars fun m hm => ih m hm (h.member hm)
      exact hmembers.behind (by decide : '\n' ∉ ['\x7b'])
  | array element ih =>
    exact ((ih h.element).parenthesized _).before (by decide : '\n' ∉ ['[', ']'])
  | union parts ih =>
    have hparts p (hp : p ∈ parts) := ih p hp (h.alternative hp)
    cases parts with
    | nil => exact .unbroken (by decide : '\n' ∉ "never".toList)
    | cons t rest =>
      obtain ⟨ht, hrest⟩ := List.forall_mem_cons.1 hparts
      exact ht.append (laid_alternativesChars hrest)
  | intersection parts ih =>
    have hparts p (hp : p ∈ parts) := ih p hp (h.operand hp)
    match parts with
    | [] => exact .unbroken (by decide : '\n' ∉ "unknown".toList)
    | [t] =>
      have ht := hparts t (List.mem_singleton.2 rfl)
      change Laid _ (t.keys ++ [])
      rwa [List.append_nil]
    | t :: u :: rest =>
      obtain ⟨ht, hrest⟩ := List.forall_mem_cons.1 hparts
      exact (ht.parenthesized _).append (laid_operandsChars hrest)
  | annotated inner note ih =>
    obtain ⟨hinner, hnote⟩ := h.inner
    have hopened := (ih hinner).before (by decide : '\n' ∉ " /* ".toList)
    have hnoted := hopened.before (lineEnd_not_mem_noteChars hnote)
    exact hnoted.before (by decide : '\n' ∉ " */".toList)

end TypeTerm
end PacketTypings
