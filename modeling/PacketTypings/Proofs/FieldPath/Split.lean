import PacketTypings.FieldPath.Reader
import PacketTypings.Proofs.FieldPath.Words
import Mathlib.Data.List.Basic
import Mathlib.Data.List.DropRight

/-! A path as its text split at double bars and then at slashes. Main statement: reading a path
splits its text, and asks that without the blanks around it every piece is one word. -/

namespace PacketTypings.FieldPath

/-- The texts between double bars, which are found from left to right. -/
def splitBars : List Char → List (List Char)
  | [] => [[]]
  | '|' :: '|' :: cs => [] :: splitBars cs
  | c :: cs => (splitBars cs).modifyHead (List.cons c)

/-- The alternatives, and in each of them the texts between slashes. -/
def split (cs : List Char) : List (List (List Char)) := (splitBars cs).map (List.splitOn '/')

/-- A text without the blanks at both ends. -/
def trim (cs : List Char) : List Char := (cs.dropWhile Text.isBlank).rdropWhile Text.isBlank

def pieces (cs : List Char) : List (List (List Char)) := (split cs).map (List.map trim)

/-- The texts between blanks. -/
def words (cs : List Char) : List (List Char) :=
  (cs.splitOnP Text.isBlank).filter fun w => !w.isEmpty

/-- The word is not empty and holds no blank. -/
def IsWord (w : List Char) : Prop := w ≠ [] ∧ ∀ c ∈ w, c ≠ ' ' ∧ c ≠ '\t'

instance (w : List Char) : Decidable (IsWord w) := inferInstanceAs (Decidable (_ ∧ _))

theorem isBlank_eq_false_iff {c : Char} : Text.isBlank c = false ↔ c ≠ ' ' ∧ c ≠ '\t' := by
  simp [Text.isBlank]

theorem Runs.isWord {w rest : List Char} (h : Runs rest w) (hne : w ≠ []) : IsWord w :=
  ⟨hne, fun c hc => isBlank_eq_false_iff.1 (h.isBlank_eq_false c hc)⟩

theorem splitBars_cons {c : Char} {cs : List Char} (h : ¬ (c = '|' ∧ cs.head? = some '|')) :
    splitBars (c :: cs) = (splitBars cs).modifyHead (List.cons c) := by
  rw [splitBars]
  rintro cs' rfl rfl
  exact h ⟨rfl, rfl⟩

theorem splitBars_ne_nil (cs : List Char) : splitBars cs ≠ [] := by
  induction cs using splitBars.induct with
  | case1 | case2 => nofun
  | case3 c cs h ih =>
    rw [splitBars]
    · rwa [Ne, List.modifyHead_eq_nil_iff]
    · exact h

/-- There is a first alternative, and a first piece in it. -/
theorem exists_split_eq_cons (cs : List Char) : ∃ piece alternative rest,
    split cs = (piece :: alternative) :: rest := by
  obtain ⟨alternative, rest, h⟩ := List.exists_cons_of_ne_nil (splitBars_ne_nil cs)
  obtain ⟨piece, pieces, h'⟩ := List.exists_cons_of_ne_nil (List.splitOn_ne_nil '/' alternative)
  exact ⟨piece, pieces, _, by rw [split, h, List.map_cons, h']⟩

theorem split_bars (cs : List Char) : split ('|' :: '|' :: cs) = [[]] :: split cs := rfl

theorem split_slash (cs : List Char) :
    split ('/' :: cs) = (split cs).modifyHead (List.cons []) := by
  obtain ⟨alternative, rest, h⟩ := List.exists_cons_of_ne_nil (splitBars_ne_nil cs)
  rw [split, split, splitBars_cons (by simp), h, List.modifyHead_cons, List.map_cons, List.map_cons,
    List.splitOn_cons_eq_if_modifyHead, if_pos (by rfl), List.modifyHead_cons]

theorem split_cons {c : Char} {cs : List Char} (hslash : c ≠ '/')
    (hbars : ¬ (c = '|' ∧ cs.head? = some '|')) :
    split (c :: cs) = (split cs).modifyHead (List.modifyHead (List.cons c)) := by
  obtain ⟨alternative, rest, h⟩ := List.exists_cons_of_ne_nil (splitBars_ne_nil cs)
  rw [split, split, splitBars_cons hbars, h, List.modifyHead_cons, List.map_cons, List.map_cons,
    List.splitOn_cons_eq_if_modifyHead, if_neg (by simpa using hslash), List.modifyHead_cons]

theorem split_blank {c : Char} (h : Text.isBlank c = true) (cs : List Char) :
    split (c :: cs) = (split cs).modifyHead (List.modifyHead (List.cons c)) := by
  refine split_cons ?_ ?_
  · rintro rfl
    cases h
  · rintro ⟨rfl, -⟩
    cases h

theorem split_append_of_runs {w rest : List Char} (h : Runs rest w) {piece : List Char}
    {alternative : List (List Char)} {more : List (List (List Char))}
    (hrest : split rest = (piece :: alternative) :: more) :
    split (w ++ rest) = ((w ++ piece) :: alternative) :: more := by
  induction h with
  | nil => exact hrest
  | cons starts _ ih =>
    obtain ⟨hslash, -, hbars⟩ := startsWord_cons_iff.1 starts
    rw [List.cons_append, split_cons hslash hbars, ih]
    rfl

/-- What is left of the piece behind a word does not go on with the word. -/
theorem Ends.piece {cs : List Char} (h : Ends cs) {piece : List Char}
    {alternative : List (List Char)} {more : List (List (List Char))}
    (hcs : split cs = (piece :: alternative) :: more) : ∀ c ∈ piece.head?, Text.isBlank c := by
  cases h with
  | nil | bars =>
    cases hcs
    nofun
  | slash cs =>
    obtain ⟨piece', alternative', more', h⟩ := exists_split_eq_cons cs
    rw [split_slash, h] at hcs
    cases hcs
    nofun
  | blank isBlank cs =>
    obtain ⟨piece', alternative', more', h⟩ := exists_split_eq_cons cs
    rw [split_blank isBlank, h] at hcs
    cases hcs
    rintro _ ⟨⟩
    exact isBlank

theorem words_blank {c : Char} (h : Text.isBlank c = true) (cs : List Char) :
    words (c :: cs) = words cs := by
  rw [words, words, List.splitOnP_cons_eq_if_modifyHead, if_pos h]
  rfl

theorem words_append {w : List Char} (hw : IsWord w) {cs : List Char}
    (h : ∀ c ∈ cs.head?, Text.isBlank c) : words (w ++ cs) = w :: words cs := by
  have hblank (c : Char) (hc : c ∈ w) : Text.isBlank c = false :=
    isBlank_eq_false_iff.2 (hw.2 c hc)
  have hne : w.isEmpty = false := List.isEmpty_eq_false_iff.2 hw.1
  unfold words
  cases cs with
  | nil => rw [List.append_nil, List.splitOnP_eq_singleton hblank]; simp [hne]
  | cons c cs =>
    have hc := h c rfl
    rw [List.splitOnP_append_cons_of_forall_mem hblank c hc, List.splitOnP_cons_eq_if_modifyHead,
      if_pos hc]
    simp [hne]

/-- The text is that word with blanks around it. -/
def Padded (w cs : List Char) : Prop := ∃ before after, cs = before ++ (w ++ after) ∧
  (∀ c ∈ before, Text.isBlank c = true) ∧ ∀ c ∈ after, Text.isBlank c = true

theorem exists_isWord_append {c : Char} (h : Text.isBlank c = false) (cs : List Char) :
    ∃ w rest, c :: cs = w ++ rest ∧ IsWord w ∧ ∀ d ∈ rest.head?, Text.isBlank d := by
  have hone : IsWord [c] := ⟨nofun, List.forall_mem_singleton.2 (isBlank_eq_false_iff.1 h)⟩
  induction cs generalizing c with
  | nil => exact ⟨[c], [], rfl, hone, nofun⟩
  | cons d cs ih =>
    cases hd : Text.isBlank d with
    | true => exact ⟨[c], d :: cs, rfl, hone, by rintro _ ⟨⟩; exact hd⟩
    | false =>
      have hdone : IsWord [d] := ⟨nofun, List.forall_mem_singleton.2 (isBlank_eq_false_iff.1 hd)⟩
      obtain ⟨w, rest, heq, hw, hrest⟩ := ih hd hdone
      refine ⟨c :: w, rest, congrArg _ heq, ⟨nofun, ?_⟩, hrest⟩
      exact List.forall_mem_cons.2 ⟨isBlank_eq_false_iff.1 h, hw.2⟩

theorem words_eq_nil_iff {cs : List Char} :
    words cs = [] ↔ ∀ c ∈ cs, Text.isBlank c = true := by
  induction cs with
  | nil => exact iff_of_true rfl (List.forall_mem_nil _)
  | cons c cs ih =>
    rw [List.forall_mem_cons]
    cases hc : Text.isBlank c with
    | true => rw [words_blank hc, ih, and_iff_right rfl]
    | false =>
      obtain ⟨w, rest, heq, hw, hrest⟩ := exists_isWord_append hc cs
      rw [heq, words_append hw hrest]
      exact iff_of_false nofun nofun

theorem words_blanks_append {before : List Char} (h : ∀ c ∈ before, Text.isBlank c = true)
    (cs : List Char) : words (before ++ cs) = words cs := by
  induction before with
  | nil => rfl
  | cons c before ih =>
    obtain ⟨hc, hbefore⟩ := List.forall_mem_cons.1 h
    rw [List.cons_append, words_blank hc, ih hbefore]

theorem words_eq_singleton_iff {w cs : List Char} : words cs = [w] ↔ Padded w cs ∧ IsWord w := by
  constructor
  · intro h
    induction cs with
    | nil => cases h
    | cons c cs ih =>
      cases hc : Text.isBlank c with
      | true =>
        rw [words_blank hc] at h
        obtain ⟨⟨before, after, rfl, hbefore, hafter⟩, hw⟩ := ih h
        exact ⟨⟨c :: before, after, rfl, List.forall_mem_cons.2 ⟨hc, hbefore⟩, hafter⟩, hw⟩
      | false =>
        obtain ⟨u, rest, heq, hu, hrest⟩ := exists_isWord_append hc cs
        rw [heq, words_append hu hrest, List.cons.injEq, words_eq_nil_iff] at h
        obtain ⟨rfl, hblank⟩ := h
        exact ⟨⟨[], rest, heq, List.forall_mem_nil _, hblank⟩, hu⟩
  · rintro ⟨⟨before, after, rfl, hbefore, hafter⟩, hw⟩
    have hhead : ∀ c ∈ after.head?, Text.isBlank c = true :=
      fun c hc => hafter c (List.mem_of_mem_head? hc)
    rw [words_blanks_append hbefore, words_append hw hhead, words_eq_nil_iff.2 hafter]

theorem trim_eq_iff {w cs : List Char} (hw : IsWord w) : trim cs = w ↔ Padded w cs := by
  constructor
  · rintro rfl
    refine ⟨cs.takeWhile Text.isBlank, (cs.dropWhile Text.isBlank).rtakeWhile Text.isBlank, ?_,
      fun c => List.mem_takeWhile_imp, fun c => List.mem_rtakeWhile_imp⟩
    rw [trim, List.rdropWhile_append_rtakeWhile, List.takeWhile_append_dropWhile]
  · rintro ⟨before, after, rfl, hbefore, hafter⟩
    have hblank (c : Char) (hc : c ∈ w) : ¬ Text.isBlank c = true := by
      rw [isBlank_eq_false_iff.2 (hw.2 c hc)]
      nofun
    have hleft : (w ++ after).dropWhile Text.isBlank = w ++ after := by
      obtain ⟨c, w, rfl⟩ := List.exists_cons_of_ne_nil hw.1
      exact List.dropWhile_cons_of_neg (hblank c List.mem_cons_self)
    have hright : (w ++ after).rdropWhile Text.isBlank = w.rdropWhile Text.isBlank := by
      rw [List.rdropWhile, List.reverse_append,
        List.dropWhile_append_of_pos fun c hc => hafter c (List.mem_reverse.1 hc), List.rdropWhile]
    rw [trim, List.dropWhile_append_of_pos hbefore, hleft, hright, List.rdropWhile_eq_self_iff]
    exact fun hne => hblank _ (List.getLast_mem hne)

/-- The words in the pieces that the tokens are those of. -/
def wordsOf : List Token → List (List (List (List Char)))
  | [] => [[[]]]
  | .bars _ :: ts => [[]] :: wordsOf ts
  | .slash _ :: ts => (wordsOf ts).modifyHead (List.cons [])
  | .word _ w :: ts => (wordsOf ts).modifyHead (List.modifyHead (List.cons w))

theorem wordsOf_scan (n : Nat) (cs : List Char) :
    wordsOf (Token.scan n cs) = (split cs).map (List.map words) := by
  induction cs using text_induction generalizing n with
  | nil => rfl
  | bars cs ih =>
    rw [split_bars, List.map_cons, ← ih (n + 2)]
    rfl
  | slash cs ih =>
    obtain ⟨piece, alternative, rest, h⟩ := exists_split_eq_cons cs
    rw [Token.scan_slash, wordsOf, ih, split_slash, h]
    rfl
  | blank c cs hc ih =>
    obtain ⟨piece, alternative, rest, h⟩ := exists_split_eq_cons cs
    rw [Token.scan_blank n hc, ih, split_blank hc, h]
    simp [words_blank hc]
  | word w cs hne hw ih =>
    obtain ⟨piece, alternative, rest, h⟩ := exists_split_eq_cons cs
    rw [Token.scan_word n hne hw, wordsOf, ih, split_append_of_runs hw h, h]
    simp [words_append (hw.isWord hne) (hw.ends.piece h)]

/-- A piece of one word is a step. -/
def step? : List (List Char) → Option Step
  | [w] => some (stepOfWord w)
  | _ => none

theorem exists_wordsOf_eq_cons (ts : List Token) : ∃ piece alternative rest,
    wordsOf ts = (piece :: alternative) :: rest := by
  induction ts with
  | nil => exact ⟨_, _, _, rfl⟩
  | cons t ts ih =>
    obtain ⟨piece, alternative, rest, h⟩ := ih
    cases t with
    | bars => exact ⟨_, _, _, rfl⟩
    | slash | word =>
      rw [wordsOf, h]
      exact ⟨_, _, _, rfl⟩

theorem toOption_bind_pure {ε α β : Type} (x : Except ε α) (f : α → β) :
    (x >>= fun a => pure (f a)).toOption = x.toOption.map f := by
  cases x <;> rfl

/-- Every piece has to be a step. -/
theorem toOption_alternativesOf (length : Nat) (expected : Expected) (ts : List Token) :
    (alternativesOf length expected ts).toOption = (wordsOf ts).mapM (List.mapM step?) := by
  fun_induction alternativesOf length expected ts with
  | case1 | case2 | case4 => rfl
  | case3 expected n ts =>
    obtain ⟨piece, alternative, rest, h⟩ := exists_wordsOf_eq_cons ts
    rw [wordsOf, h]
    rfl
  | case5 expected m w n w' ts =>
    obtain ⟨piece, alternative, rest, h⟩ := exists_wordsOf_eq_cons ts
    rw [wordsOf, wordsOf, h]
    rfl
  | case6 expected m w n ts ih =>
    obtain ⟨piece, alternative, rest, h⟩ := exists_wordsOf_eq_cons ts
    rw [toOption_bind_pure, ih, wordsOf, wordsOf, h]
    cases hsteps : (piece :: alternative).mapM step? with
    | none => simp [List.mapM_cons, hsteps, step?]
    | some steps =>
      cases hrest : rest.mapM (List.mapM step?) <;>
        simp [List.mapM_cons, hsteps, hrest, step?, consStep]
  | case7 expected m w n ts ih =>
    rw [toOption_bind_pure, ih, wordsOf, wordsOf]
    cases h : (wordsOf ts).mapM (List.mapM step?) <;> simp [List.mapM_cons, h, step?]

theorem step?_words (cs : List Char) :
    step? (words cs) = if IsWord (trim cs) then some (stepOfWord (trim cs)) else none := by
  split
  · next h =>
    have hwords : words cs = [trim cs] := words_eq_singleton_iff.2 ⟨(trim_eq_iff h).1 rfl, h⟩
    rw [hwords, step?]
  · next h =>
    unfold step?
    split
    · next w hwords =>
      obtain ⟨hpadded, hw⟩ := words_eq_singleton_iff.1 hwords
      exact absurd ((trim_eq_iff hw).2 hpadded ▸ hw) h
    · rfl

theorem mapM_map_eq_ite {α β γ : Type} {f : β → Option γ} {g : α → β} {k : α → γ} {P : α → Prop}
    [DecidablePred P] (h : ∀ x, f (g x) = if P x then some (k x) else none) (xs : List α) :
    (xs.map g).mapM f = if ∀ x ∈ xs, P x then some (xs.map k) else none := by
  induction xs with
  | nil => simp
  | cons x xs ih =>
    rw [List.map_cons, List.mapM_cons, h, ih]
    by_cases hx : P x
    · by_cases hxs : ∀ y ∈ xs, P y
      · rw [if_pos hx, if_pos hxs, if_pos (List.forall_mem_cons.2 ⟨hx, hxs⟩)]
        rfl
      · rw [if_pos hx, if_neg hxs, if_neg fun hall => hxs (List.forall_mem_cons.1 hall).2]
        rfl
    · rw [if_neg hx, if_neg fun hall => hx (List.forall_mem_cons.1 hall).1]
      rfl

theorem toOption_alternativesOf_scan (length : Nat) (expected : Expected) (n : Nat)
    (cs : List Char) : (alternativesOf length expected (Token.scan n cs)).toOption =
      if ∀ alternative ∈ pieces cs, ∀ piece ∈ alternative, IsWord piece
      then some ((pieces cs).map (List.map stepOfWord)) else none := by
  have h := mapM_map_eq_ite (mapM_map_eq_ite step?_words) (split cs)
  rw [toOption_alternativesOf, wordsOf_scan, h]
  simp [pieces, Function.comp_def]

/-- A path is its text split, if every piece is a word. -/
theorem toOption_ofText (text : String) : (ofText text).toOption =
    if ∀ alternative ∈ pieces text.toList, ∀ piece ∈ alternative, IsWord piece
    then some ⟨text, (pieces text.toList).map (List.map stepOfWord)⟩ else none := by
  rw [ofText, toOption_bind_pure, toOption_alternativesOf_scan]
  split <;> rfl

end PacketTypings.FieldPath
