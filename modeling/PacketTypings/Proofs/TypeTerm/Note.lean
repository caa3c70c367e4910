import PacketTypings.TypeTerm.Text
import Mathlib.Data.List.Infix

/-! The comment of a note. A note is cut at every end of a comment in it, and each of the cuts is
written with a blank inside. Main statement: whatever a note says, the first end of a comment behind
the opening of its own comment is the one that closes it. -/

namespace PacketTypings

def commentEnd : List Char := ['*', '/']

theorem head?_noteChars (cs : List Char) : (noteChars cs).head? = cs.head? := by
  cases cs using noteChars.fun_cases with
  | case1 cs => rfl
  | case2 c cs hc => rw [noteChars, List.head?_cons, List.head?_cons]; exact hc
  | case3 => rfl

/-- A character comes before a text with no end of a comment in it, and the two do not make one. -/
theorem not_commentEnd_infix_cons {c : Char} {cs : List Char} (h : ¬ commentEnd <:+: cs)
    (hc : c = '*' → cs.head? ≠ some '/') : ¬ commentEnd <:+: c :: cs := by
  intro hinfix
  rcases List.infix_cons_iff.1 hinfix with hprefix | hinfix
  · obtain ⟨rfl, after, rfl⟩ := List.cons_prefix_cons.1 hprefix
    exact hc rfl rfl
  · exact h hinfix

theorem not_commentEnd_infix_concat {c : Char} {cs : List Char} (h : ¬ commentEnd <:+: cs)
    (hc : c ≠ '/') : ¬ commentEnd <:+: cs ++ [c] := by
  intro hinfix
  rcases List.infix_concat_iff.1 hinfix with ⟨front, hfront⟩ | hinfix
  · have hlast : (front ++ ['*']) ++ ['/'] = cs ++ [c] := by simpa [commentEnd] using hfront
    obtain ⟨-, hslash⟩ := List.append_inj' hlast rfl
    exact hc (List.head_eq_of_cons_eq hslash).symm
  · exact h hinfix

theorem not_commentEnd_infix_noteChars (cs : List Char) : ¬ commentEnd <:+: noteChars cs := by
  induction cs using noteChars.induct with
  | case1 cs ih =>
    have hslash := not_commentEnd_infix_cons (c := '/') ih fun h => absurd h (by decide)
    have hblank := not_commentEnd_infix_cons (c := ' ') hslash fun h => absurd h (by decide)
    exact not_commentEnd_infix_cons hblank fun _ => by simp
  | case2 c cs hc ih =>
    rw [noteChars]
    · refine not_commentEnd_infix_cons ih fun hstar hslash => ?_
      rw [head?_noteChars] at hslash
      obtain ⟨cs', rfl⟩ := List.head?_eq_some_iff.1 hslash
      exact hc cs' hstar rfl
    · exact hc
  | case3 => simp [noteChars, commentEnd]

/-- If a text has no end of a comment in it, the one behind it is the only one. -/
theorem append_commentEnd_eq_iff {body : List Char} (h : ¬ commentEnd <:+: body)
    (before after : List Char) :
    body ++ commentEnd = before ++ commentEnd ++ after ↔ before = body ∧ after = [] := by
  constructor
  · intro heq
    rcases List.eq_nil_or_concat after with rfl | ⟨after', c, rfl⟩
    · rw [List.append_nil] at heq
      exact ⟨(List.append_cancel_right heq).symm, rfl⟩
    · -- an end of a comment that comes earlier is whole without the last slash
      have hconcat : (body ++ ['*']) ++ ['/'] = (before ++ commentEnd ++ after') ++ [c] := by
        simpa [commentEnd] using heq
      have hearlier : commentEnd <:+: body ++ ['*'] :=
        ⟨before, after', (List.append_inj' hconcat rfl).1.symm⟩
      exact absurd hearlier (not_commentEnd_infix_concat h (by decide))
  · rintro ⟨rfl, rfl⟩
    rw [List.append_nil]

/-- The same cuts in a note and in what is written for it. -/
theorem exists_noteParts (cs : List Char) : ∃ part parts,
    cs = commentEnd.intercalate (part :: parts) ∧
      noteChars cs = ['*', ' ', '/'].intercalate (part :: parts) ∧
      ∀ p ∈ part :: parts, ¬ commentEnd <:+: p := by
  induction cs using noteChars.induct with
  | case1 cs ih =>
    obtain ⟨part, parts, hcs, hwritten, hparts⟩ := ih
    refine ⟨[], part :: parts, ?_, ?_, List.forall_mem_cons.2 ⟨by decide, hparts⟩⟩
    · rw [List.intercalate_cons_cons, ← hcs]
      rfl
    · rw [List.intercalate_cons_cons, ← hwritten]
      rfl
  | case2 c cs hc ih =>
    obtain ⟨part, parts, hcs, hwritten, hparts⟩ := ih
    obtain ⟨hpart, hrest⟩ := List.forall_mem_cons.1 hparts
    have hhead : c = '*' → part.head? ≠ some '/' := by
      intro hstar hslash
      obtain ⟨part', rfl⟩ := List.head?_eq_some_iff.1 hslash
      rw [List.intercalate_cons_cons_left] at hcs
      exact hc _ hstar hcs
    refine ⟨c :: part, parts, ?_, ?_, List.forall_mem_cons.2
      ⟨not_commentEnd_infix_cons hpart hhead, hrest⟩⟩
    · rw [List.intercalate_cons_cons_left, ← hcs]
    · rw [List.intercalate_cons_cons_left, ← hwritten, noteChars]
      exact hc
  | case3 => exact ⟨[], [], rfl, rfl, List.forall_mem_singleton.2 (by decide)⟩

/-- A note stands in a comment behind the text of its type, with a blank in every end of a comment
that is part of the note. Behind the opening of that comment no comment ends but in the last two
characters, so all that is written for the note is inside. -/
theorem TypeTerm.annotated_closed_at_end (inner : TypeTerm) (note : String) (level : Nat) :
    ∃ parts body,
      (annotated inner note).chars level =
        inner.chars level ++ " /*".toList ++ (body ++ commentEnd) ∧
      (∀ before after,
        body ++ commentEnd = before ++ commentEnd ++ after ↔ before = body ∧ after = []) ∧
      body = ' ' :: (['*', ' ', '/'].intercalate parts ++ [' ']) ∧
      note.toList = commentEnd.intercalate parts ∧ ∀ part ∈ parts, ¬ commentEnd <:+: part := by
  obtain ⟨part, parts, hnote, hwritten, hparts⟩ := exists_noteParts note.toList
  have hend := not_commentEnd_infix_concat (c := ' ')
    (not_commentEnd_infix_noteChars note.toList) (by decide)
  have hbody := not_commentEnd_infix_cons (c := ' ') hend fun h => absurd h (by decide)
  refine ⟨part :: parts, _, ?_, append_commentEnd_eq_iff hbody, ?_, hnote, hparts⟩
  · change inner.chars level ++ " /* ".toList ++ noteChars note.toList ++ " */".toList = _
    simp [commentEnd]
  · rw [hwritten]

end PacketTypings
