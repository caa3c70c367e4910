import PacketTypings.FieldPath.Token

/-! The words of a path. Main statements: the characters up to the next separator or blank make one
token, and a text is made of words, separators and blanks. -/

namespace PacketTypings.FieldPath

/-- The first character belongs to a word: it is no blank, and no separator begins with it. -/
def startsWord : List Char → Bool
  | [] => false
  | c :: cs => c ≠ '/' && !Text.isBlank c && !(c = '|' && cs.head? = some '|')

/-- There is the end, a separator or a blank. -/
inductive Ends : List Char → Prop
  | nil : Ends []
  | bars (cs : List Char) : Ends ('|' :: '|' :: cs)
  | slash (cs : List Char) : Ends ('/' :: cs)
  | blank {c : Char} (isBlank : Text.isBlank c = true) (cs : List Char) : Ends (c :: cs)

theorem startsWord_cons_iff {c : Char} {cs : List Char} : startsWord (c :: cs) = true ↔
    c ≠ '/' ∧ Text.isBlank c = false ∧ ¬ (c = '|' ∧ cs.head? = some '|') := by
  simp [startsWord, and_assoc, Decidable.imp_iff_not_or]

/-- Where no word begins, one has ended. -/
theorem ends_of_startsWord {cs : List Char} (h : startsWord cs = false) : Ends cs := by
  cases cs with
  | nil => exact .nil
  | cons c cs =>
    by_cases hslash : c = '/'
    · exact hslash ▸ .slash cs
    cases hblank : Text.isBlank c with
    | true => exact .blank hblank cs
    | false =>
      by_cases hbars : c = '|' ∧ cs.head? = some '|'
      · obtain ⟨rfl, hhead⟩ := hbars
        obtain ⟨cs, rfl⟩ := List.head?_eq_some_iff.1 hhead
        exact .bars cs
      · rw [startsWord_cons_iff.2 ⟨hslash, hblank, hbars⟩] at h
        cases h

theorem Ends.startsWord_eq_false {cs : List Char} (h : Ends cs) : startsWord cs = false := by
  cases h with
  | blank isBlank cs =>
    refine Bool.eq_false_iff.2 fun hstarts => ?_
    rw [(startsWord_cons_iff.1 hstarts).2.1] at isBlank
    cases isBlank
  | nil | bars | slash => rfl

/-- The text behind is `rest`, and the word `w` before it ends there. -/
inductive Runs (rest : List Char) : List Char → Prop
  | nil (ends : Ends rest) : Runs rest []
  | cons {c : Char} {w : List Char} (starts : startsWord (c :: (w ++ rest)) = true)
      (more : Runs rest w) : Runs rest (c :: w)

theorem exists_runs (cs : List Char) : ∃ w rest, cs = w ++ rest ∧ Runs rest w := by
  induction cs with
  | nil => exact ⟨[], [], rfl, .nil .nil⟩
  | cons c cs ih =>
    cases hstarts : startsWord (c :: cs) with
    | false => exact ⟨[], c :: cs, rfl, .nil (ends_of_startsWord hstarts)⟩
    | true =>
      obtain ⟨w, rest, rfl, hw⟩ := ih
      exact ⟨c :: w, rest, rfl, .cons hstarts hw⟩

namespace Runs

variable {w rest : List Char}

theorem ends (h : Runs rest w) : Ends rest := by
  induction h with
  | nil ends => exact ends
  | cons _ _ ih => exact ih

theorem isBlank_eq_false (h : Runs rest w) : ∀ c ∈ w, Text.isBlank c = false := by
  induction h with
  | nil => exact List.forall_mem_nil _
  | cons starts _ ih => exact List.forall_mem_cons.2 ⟨(startsWord_cons_iff.1 starts).2.1, ih⟩

/-- There is one place only where the word ends. -/
theorem unique {w' rest' : List Char} (h : Runs rest w) (h' : Runs rest' w')
    (heq : w ++ rest = w' ++ rest') : w = w' := by
  induction h generalizing w' with
  | nil ends =>
    cases h' with
    | nil => rfl
    | cons starts' =>
      rw [← List.cons_append, ← heq, List.nil_append, ends.startsWord_eq_false] at starts'
      cases starts'
  | cons starts _ ih =>
    cases h' with
    | nil ends' =>
      rw [← List.cons_append, heq, List.nil_append, ends'.startsWord_eq_false] at starts
      cases starts
    | cons _ more' =>
      obtain ⟨rfl, htail⟩ := List.cons.inj heq
      rw [ih more' htail]

/-- Where a word has ended, there is none. -/
theorem eq_nil_of_ends (h : Runs rest w) (hends : Ends (w ++ rest)) : w = [] :=
  h.unique (.nil hends) rfl

end Runs

/-- A text is empty, or it begins with a separator, a blank or a word. -/
@[elab_as_elim]
theorem text_induction {motive : List Char → Prop} (nil : motive [])
    (bars : ∀ cs, motive cs → motive ('|' :: '|' :: cs))
    (slash : ∀ cs, motive cs → motive ('/' :: cs))
    (blank : ∀ c cs, Text.isBlank c = true → motive cs → motive (c :: cs))
    (word : ∀ w rest, w ≠ [] → Runs rest w → motive rest → motive (w ++ rest))
    (cs : List Char) : motive cs := by
  induction hlength : cs.length using Nat.strongRecOn generalizing cs with
  | ind n ih =>
    subst hlength
    -- a word may be of any length, so the rest behind it is not the tail of the text
    obtain ⟨w, rest, rfl, hw⟩ := exists_runs cs
    cases w with
    | cons c w =>
      refine word _ rest nofun hw (ih _ ?_ rest rfl)
      rw [List.length_append, List.length_cons]
      omega
    | nil =>
      cases hw.ends with
      | nil => exact nil
      | bars cs => exact bars cs (ih _ (Nat.lt_of_succ_lt (Nat.lt_succ_self _)) cs rfl)
      | slash cs => exact slash cs (ih _ (Nat.lt_succ_self _) cs rfl)
      | blank h cs => exact blank _ cs h (ih _ (Nat.lt_succ_self _) cs rfl)

namespace Token

theorem scan_slash (n : Nat) (cs : List Char) :
    scan n ('/' :: cs) = slash n :: scan (n + 1) cs := by
  rw [scan, if_pos rfl]
  nofun

theorem scan_blank (n : Nat) {c : Char} (h : Text.isBlank c = true) (cs : List Char) :
    scan n (c :: cs) = scan (n + 1) cs := by
  have hslash : c ≠ '/' := by rintro rfl; cases h
  rw [scan, if_neg hslash, if_pos h]
  rintro _ rfl
  cases h

theorem scan_of_startsWord (n : Nat) {c : Char} {cs : List Char}
    (h : startsWord (c :: cs) = true) : scan n (c :: cs) = consChar n c (scan (n + 1) cs) := by
  obtain ⟨hslash, hblank, hbars⟩ := startsWord_cons_iff.1 h
  rw [scan, if_neg hslash, if_neg (by simp [hblank])]
  rintro cs' rfl rfl
  exact hbars ⟨rfl, rfl⟩

theorem offset_of_mem_consChar {n : Nat} {c : Char} {ts : List Token} {t : Token}
    (h : t ∈ consChar n c ts) : t.offset = n ∨ t ∈ ts := by
  unfold consChar at h
  split at h
  · split at h
    · rcases List.mem_cons.1 h with rfl | h
      · exact .inl rfl
      · exact .inr (List.mem_cons_of_mem _ h)
    · exact (List.mem_cons.1 h).imp_left (congrArg offset)
  · exact (List.mem_cons.1 h).imp_left (congrArg offset)

theorem le_offset_of_mem_scan {n : Nat} {cs : List Char} {t : Token} (h : t ∈ scan n cs) :
    n ≤ t.offset := by
  induction n, cs using scan.induct with
  | case1 n => cases h
  | case2 n cs ih =>
    rcases List.mem_cons.1 h with rfl | h
    · exact Nat.le_refl n
    · exact Nat.le_trans (Nat.le_add_right n 2) (ih h)
  | case3 n cs _ ih =>
    rw [scan_slash] at h
    rcases List.mem_cons.1 h with rfl | h
    · exact Nat.le_refl n
    · exact Nat.le_of_succ_le (ih h)
  | case4 n c cs _ _ hblank ih =>
    rw [scan_blank n hblank] at h
    exact Nat.le_of_succ_le (ih h)
  | case5 n c cs hbars hslash hblank ih =>
    rw [scan, if_neg hslash, if_neg hblank] at h
    · rcases offset_of_mem_consChar h with hoffset | h
      · exact Nat.le_of_eq hoffset.symm
      · exact Nat.le_of_succ_le (ih h)
    · exact hbars

/-- Where no word begins, the next token is no word, or it comes later. -/
theorem scan_ne_word_cons (n : Nat) {cs : List Char} (h : Ends cs) (w : List Char)
    (ts : List Token) : scan n cs ≠ word n w :: ts := by
  cases h with
  | nil => nofun
  | bars cs => nofun
  | slash cs =>
    rw [scan_slash]
    nofun
  | blank hblank cs =>
    intro hscan
    rw [scan_blank n hblank] at hscan
    have hle := le_offset_of_mem_scan (hscan ▸ List.mem_cons_self)
    exact absurd hle (Nat.not_succ_le_self n)

theorem consChar_of_ne_word_cons {n : Nat} {ts : List Token}
    (h : ∀ w ts', ts ≠ word (n + 1) w :: ts') (c : Char) : consChar n c ts = word n [c] :: ts := by
  unfold consChar
  split
  · next m w ts' =>
    have hne : m ≠ n + 1 := by
      rintro rfl
      exact h w ts' rfl
    rw [if_neg hne]
  · rfl

/-- The characters up to where the word ends are one token. -/
theorem scan_word (n : Nat) {w rest : List Char} (hne : w ≠ []) (h : Runs rest w) :
    scan n (w ++ rest) = word n w :: scan (n + w.length) rest := by
  induction h generalizing n with
  | nil => exact absurd rfl hne
  | @cons c w starts more ih =>
    rw [List.cons_append, scan_of_startsWord n starts]
    cases w with
    | nil => exact consChar_of_ne_word_cons (scan_ne_word_cons (n + 1) more.ends) c
    | cons d w =>
      rw [ih (n + 1) nofun, consChar, if_pos rfl, List.length_cons (a := c)]
      congr 2
      omega

end Token
end PacketTypings.FieldPath
