import PacketTypings.Proofs.FieldPath.Grammar
import PacketTypings.Proofs.FieldPath.Split
import PacketTypings.Proofs.Typing.Comparison

/-! What the grammar of paths accepts. Main statements: the grammar and the reader of paths find the
same alternatives in the same texts, and they are the text split. -/

namespace PacketTypings.FieldPath

namespace Grammar

theorem length_skip_le (blanks : Bool) (cs : List Char) :
    (skip blanks cs).length ≤ cs.length := by
  cases blanks with
  | false => exact Nat.le_refl _
  | true => exact List.length_dropWhile_le _ _

theorem skip_skip (cs : List Char) : skip true (skip true cs) = skip true cs :=
  List.dropWhile_idempotent _ _

theorem length_again_le {f : List Char → Option (List Match × List Char)}
    (h : ∀ cs ms rest, f cs = some (ms, rest) → rest.length ≤ cs.length) (cs : List Char) :
    (again f cs).2.length ≤ cs.length := by
  induction cs using again.induct f with
  | case1 cs hcs => rw [again_of_eq_none hcs]
  | case2 cs ms rest hcs hlength ms' rest' _ ih =>
    rw [again_of_eq_some hcs hlength]
    exact Nat.le_trans ih (Nat.le_of_lt hlength)
  | case3 cs ms rest hcs hlength =>
    rw [again, hcs]
    simp only [if_neg hlength]
    exact h cs ms rest hcs

/-- A match does not end before it begins. -/
theorem Pattern.length_le_of_run {whole : List Char} {blanks : Bool} {e : Pattern}
    {cs rest : List Char} {ms : List Match} (h : e.run whole blanks cs = some (ms, rest)) :
    rest.length ≤ cs.length := by
  induction e generalizing blanks cs rest ms with
  | text ds =>
    obtain ⟨ds', hds, ⟨⟩⟩ := Option.map_eq_some_iff.1 h
    rw [← List.append_eq_of_isPrefixOf?_eq_some hds, List.length_append]
    exact Nat.le_add_left _ _
  | any =>
    obtain ⟨ds', hds, ⟨⟩⟩ := Option.map_eq_some_iff.1 h
    cases cs with
    | nil => cases hds
    | cons c cs =>
      cases hds
      exact Nat.le_succ _
  | textStart | textEnd =>
    obtain ⟨-, ⟨⟩⟩ := Option.ite_none_right_eq_some.1 h
    exact Nat.le_refl _
  | seq a b iha ihb =>
    obtain ⟨⟨ms, ds⟩, ha, h⟩ := Option.bind_eq_some_iff.1 h
    obtain ⟨⟨ms', ds'⟩, hb, ⟨⟩⟩ := Option.map_eq_some_iff.1 h
    exact Nat.le_trans (ihb hb) (Nat.le_trans (length_skip_le blanks ds) (iha ha))
  | choice a b iha ihb => exact (Option.or_eq_some_iff.1 h).elim iha fun h => ihb h.2
  | many e ih =>
    have hagain := length_again_le fun cs ms rest (h : e.run whole blanks _ = some (ms, rest)) =>
      Nat.le_trans (ih h) (length_skip_le blanks cs)
    rw [run_many] at h
    split at h
    · cases h
      exact Nat.le_refl _
    · next ms' ds he =>
      cases h
      exact Nat.le_trans (hagain ds) (ih he)
  | ahead e ih =>
    obtain ⟨-, -, ⟨⟩⟩ := Option.map_eq_some_iff.1 h
    exact Nat.le_refl _
  | notAhead e ih =>
    obtain ⟨-, ⟨⟩⟩ := Option.ite_none_left_eq_some.1 h
    exact Nat.le_refl _
  | rule r e ih | atomic r e ih =>
    obtain ⟨_, he, ⟨⟩⟩ := Option.map_eq_some_iff.1 h
    exact ih he

/-- Behind blanks there is the end, a separator or a word. -/
theorem skip_cases (cs : List Char) : skip true cs = [] ∨ (∃ ds, skip true cs = '/' :: ds) ∨
    (∃ ds, skip true cs = '|' :: '|' :: ds) ∨
    ∃ w rest, w ≠ [] ∧ Runs rest w ∧ skip true cs = w ++ rest := by
  obtain ⟨w, rest, heq, hw⟩ := exists_runs (skip true cs)
  cases w with
  | cons c w => exact .inr (.inr (.inr ⟨c :: w, rest, nofun, hw, heq⟩))
  | nil =>
    rw [List.nil_append] at heq
    cases hw.ends with
    | nil => exact .inl heq
    | slash ds => exact .inr (.inl ⟨ds, heq⟩)
    | bars ds => exact .inr (.inr (.inl ⟨ds, heq⟩))
    | blank hblank ds =>
      have hhead := List.head?_dropWhile_not Text.isBlank cs
      rw [show cs.dropWhile Text.isBlank = _ from heq] at hhead
      exact absurd hblank (Bool.eq_false_iff.1 hhead)

namespace Pattern

variable {whole : List Char} {e : Pattern} {w rest cs ds : List Char}

/-- What is matched behind blanks. -/
def behindBlanks (whole : List Char) (e : Pattern) (cs : List Char) :
    Option (List Match × List Char) := e.run whole true (skip true cs)

/-- Each match takes a part of the text. -/
def Shortens (whole : List Char) (e : Pattern) : Prop := ∀ cs ms rest,
  e.run whole true cs = some (ms, rest) → rest.length < cs.length

theorem shortens_seq_text (c : Char) (ds : List Char) (b : Pattern) :
    (seq (text (c :: ds)) b).Shortens whole := by
  intro cs ms rest h
  obtain ⟨⟨ms, cs'⟩, ha, h⟩ := Option.bind_eq_some_iff.1 h
  obtain ⟨⟨ms', cs''⟩, hb, ⟨⟩⟩ := Option.map_eq_some_iff.1 h
  obtain ⟨_, htext, ⟨⟩⟩ := Option.map_eq_some_iff.1 ha
  have hle := Nat.le_trans (length_le_of_run hb) (length_skip_le true cs')
  rw [← List.append_eq_of_isPrefixOf?_eq_some htext, List.length_append, List.length_cons]
  omega

theorem Shortens.length_lt {ms : List Match} (h : e.Shortens whole)
    (hcs : e.behindBlanks whole cs = some (ms, rest)) : rest.length < cs.length :=
  Nat.lt_of_lt_of_le (h _ _ _ hcs) (length_skip_le true cs)

/-- Blanks before a repetition do not count. -/
theorem Shortens.again_congr (h : e.Shortens whole) (hskip : skip true cs = skip true ds) :
    (again (e.behindBlanks whole) cs).1 = (again (e.behindBlanks whole) ds).1 ∧
      skip true (again (e.behindBlanks whole) cs).2 =
        skip true (again (e.behindBlanks whole) ds).2 := by
  have heq : e.behindBlanks whole cs = e.behindBlanks whole ds := by
    rw [behindBlanks, hskip, behindBlanks]
  cases hcs : e.behindBlanks whole cs with
  | none =>
    rw [again_of_eq_none hcs, again_of_eq_none (heq ▸ hcs)]
    exact ⟨rfl, hskip⟩
  | some matched =>
    have hds := heq ▸ hcs
    rw [again_of_eq_some hcs (h.length_lt hcs), again_of_eq_some hds (h.length_lt hds)]
    exact ⟨rfl, rfl⟩

theorem Shortens.exists_run_many (h : e.Shortens whole) (cs : List Char) : ∃ rest,
    (many e).run whole true (skip true cs) = some ((again (e.behindBlanks whole) cs).1, rest) ∧
      skip true rest = skip true (again (e.behindBlanks whole) cs).2 := by
  cases hcs : e.behindBlanks whole cs with
  | none =>
    rw [again_of_eq_none hcs]
    exact ⟨_, run_many_of_eq_none hcs, skip_skip cs⟩
  | some matched =>
    rw [again_of_eq_some hcs (h.length_lt hcs)]
    exact ⟨_, run_many_of_eq_some hcs, rfl⟩

variable (whole)

/-- The steps behind a step. -/
def steps (cs : List Char) : List Match × List Char :=
  again ((seq slash step).behindBlanks whole) cs

/-- The alternatives behind an alternative. -/
def others (cs : List Char) : List Match × List Char :=
  again ((seq bars alternative).behindBlanks whole) cs

theorem run_many_steps (cs : List Char) : ∃ rest,
    (many (seq slash step)).run whole true (skip true cs) = some ((steps whole cs).1, rest) ∧
      skip true rest = skip true (steps whole cs).2 :=
  (shortens_seq_text _ _ _).exists_run_many cs

theorem run_many_others (cs : List Char) : ∃ rest,
    (many (seq bars alternative)).run whole true (skip true cs) =
      some ((others whole cs).1, rest) ∧ skip true rest = skip true (others whole cs).2 :=
  (shortens_seq_text _ _ _).exists_run_many cs

variable {whole}

theorem steps_of_slash_word (hcs : skip true cs = '/' :: ds) (hds : skip true ds = w ++ rest)
    (hw : Runs rest w) (hne : w ≠ []) :
    steps whole cs = (matchOf w :: (steps whole rest).1, (steps whole rest).2) := by
  have hmatched : (seq slash step).behindBlanks whole cs = some ([matchOf w], rest) := by
    rw [behindBlanks, hcs]
    exact run_seq_of_eq_some (show slash.run whole true ('/' :: ds) = some ([], ds) from rfl)
      (hds ▸ run_step hw hne)
  exact again_of_eq_some hmatched ((shortens_seq_text _ _ _).length_lt hmatched)

theorem steps_of_slash_ends (hcs : skip true cs = '/' :: ds) (hds : Ends (skip true ds)) :
    steps whole cs = ([], cs) := by
  refine again_of_eq_none ?_
  rw [behindBlanks, hcs]
  exact run_seq_of_right_eq_none rfl (run_step_of_ends hds)

theorem steps_of_head_ne (h : (skip true cs).head? ≠ some '/') : steps whole cs = ([], cs) := by
  refine again_of_eq_none (run_seq_of_left_eq_none _ ?_)
  cases hcs : skip true cs with
  | nil => rfl
  | cons c cs =>
    rw [hcs] at h
    rw [slash, run_text_cons, if_neg fun hc => h (congrArg some hc.symm)]

theorem run_alternative (hw : Runs rest w) (hne : w ≠ []) : ∃ text cs,
    alternative.run whole true (w ++ rest) =
      some ([.node .alternative text (matchOf w :: (steps whole rest).1)], cs) ∧
      skip true cs = skip true (steps whole rest).2 := by
  obtain ⟨cs, hmany, hskip⟩ := run_many_steps whole rest
  have hseq := run_seq_of_eq_some (run_step hw hne) hmany
  exact ⟨_, cs, congrArg (Option.map _) hseq, hskip⟩

theorem run_alternative_of_ends (h : Ends cs) : alternative.run whole true cs = none :=
  congrArg (Option.map _) (run_seq_of_left_eq_none _ (run_step_of_ends h))

theorem others_congr (h : skip true cs = skip true ds) :
    (others whole cs).1 = (others whole ds).1 ∧
      skip true (others whole cs).2 = skip true (others whole ds).2 :=
  (shortens_seq_text _ _ _).again_congr h

theorem others_of_bars_word (hcs : skip true cs = '|' :: '|' :: ds)
    (hds : skip true ds = w ++ rest) (hw : Runs rest w) (hne : w ≠ []) : ∃ text,
    (others whole cs).1 = .node .alternative text (matchOf w :: (steps whole rest).1) ::
        (others whole (steps whole rest).2).1 ∧
      skip true (others whole cs).2 = skip true (others whole (steps whole rest).2).2 := by
  obtain ⟨text, cs', halternative, hskip⟩ := @run_alternative whole _ _ hw hne
  have hmatched : (seq bars alternative).behindBlanks whole cs =
      some ([.node .alternative text (matchOf w :: (steps whole rest).1)], cs') := by
    rw [behindBlanks, hcs]
    exact run_seq_of_eq_some (show bars.run whole true ('|' :: '|' :: ds) = some ([], ds) from rfl)
      (hds ▸ halternative)
  have hothers := again_of_eq_some hmatched ((shortens_seq_text _ _ _).length_lt hmatched)
  obtain ⟨hmatches, hrest⟩ := @others_congr whole _ _ hskip
  rw [others, hothers]
  exact ⟨text, congrArg _ hmatches, hrest⟩

theorem others_of_bars_ends (hcs : skip true cs = '|' :: '|' :: ds) (hds : Ends (skip true ds)) :
    others whole cs = ([], cs) := by
  refine again_of_eq_none ?_
  rw [behindBlanks, hcs]
  exact run_seq_of_right_eq_none rfl (run_alternative_of_ends hds)

theorem others_of_head_ne (h : ∀ ds, skip true cs ≠ '|' :: '|' :: ds) :
    others whole cs = ([], cs) := by
  refine again_of_eq_none (run_seq_of_left_eq_none _ ?_)
  cases htext : ['|', '|'].isPrefixOf? (skip true cs) with
  | none => rw [bars, run_text, htext, Option.map_none]
  | some ds => exact absurd (List.append_eq_of_isPrefixOf?_eq_some htext).symm (h ds)

end Pattern

open Pattern

/-- What the rest of a text behind a step says: the further steps of its alternative, and the other
alternatives. -/
def behindStep (whole rest : List Char) : Option (List Step × List (List Step)) :=
  if skip true (others whole (steps whole rest).2).2 = [] then
    some ((steps whole rest).1.filterMap Match.step?,
      (others whole (steps whole rest).2).1.filterMap Match.alternative?)
  else none

variable {whole w rest cs ds : List Char}

theorem behindStep_of_nil (h : skip true cs = []) : behindStep whole cs = some ([], []) := by
  have hsteps : steps whole cs = ([], cs) := steps_of_head_ne (by simp [h])
  have hothers : others whole cs = ([], cs) := others_of_head_ne (by simp [h])
  simp [behindStep, hsteps, hothers, h]

/-- The reading ends at what is no separator with a step behind it. -/
theorem behindStep_of_stuck (hsteps : steps whole cs = ([], cs))
    (hothers : others whole cs = ([], cs)) (h : skip true cs ≠ []) : behindStep whole cs = none := by
  rw [behindStep, hsteps, hothers, if_neg h]

theorem behindStep_of_slash_ends (hcs : skip true cs = '/' :: ds) (hds : Ends (skip true ds)) :
    behindStep whole cs = none :=
  behindStep_of_stuck (steps_of_slash_ends hcs hds) (others_of_head_ne (by simp [hcs]))
    (by simp [hcs])

theorem behindStep_of_bars_ends (hcs : skip true cs = '|' :: '|' :: ds)
    (hds : Ends (skip true ds)) : behindStep whole cs = none :=
  behindStep_of_stuck (steps_of_head_ne (by simp [hcs])) (others_of_bars_ends hcs hds)
    (by simp [hcs])

theorem behindStep_of_word (hcs : skip true cs = w ++ rest) (hw : Runs rest w) (hne : w ≠ []) :
    behindStep whole cs = none := by
  have hends : ¬ Ends (skip true cs) := fun hends => hne (hw.eq_nil_of_ends (hcs ▸ hends))
  refine behindStep_of_stuck (steps_of_head_ne ?_) (others_of_head_ne ?_) (by simp [hcs, hne])
  · intro hhead
    obtain ⟨ds, hds⟩ := List.head?_eq_some_iff.1 hhead
    exact hends (hds ▸ .slash ds)
  · exact fun ds hds => hends (hds ▸ .bars ds)

theorem behindStep_of_slash_word (hcs : skip true cs = '/' :: ds) (hds : skip true ds = w ++ rest)
    (hw : Runs rest w) (hne : w ≠ []) : behindStep whole cs =
      (behindStep whole rest).map fun r => (stepOfWord w :: r.1, r.2) := by
  unfold behindStep
  rw [steps_of_slash_word hcs hds hw hne]
  split <;> simp [step?_matchOf]

theorem behindStep_of_bars_word (hcs : skip true cs = '|' :: '|' :: ds)
    (hds : skip true ds = w ++ rest) (hw : Runs rest w) (hne : w ≠ []) : behindStep whole cs =
      (behindStep whole rest).map fun r => ([], (stepOfWord w :: r.1) :: r.2) := by
  have hsteps : steps whole cs = ([], cs) := steps_of_head_ne (by simp [hcs])
  obtain ⟨text, hmatches, hrest⟩ := @others_of_bars_word whole _ _ _ _ hcs hds hw hne
  unfold behindStep
  rw [hsteps, hmatches, hrest]
  split <;> simp [step?_matchOf, Match.alternative?]

end Grammar

/-- The alternatives that are read in a text. -/
def alternatives? (cs : List Char) : Option (List (List Step)) :=
  (alternativesOf 0 .alternative (Token.scan 0 cs)).toOption

open Grammar

variable {w rest cs ds : List Char}

/-- Where a text stands does not count. -/
theorem toOption_alternativesOf_eq (length : Nat) (expected : Expected) (n : Nat) (cs : List Char) :
    (alternativesOf length expected (Token.scan n cs)).toOption = alternatives? cs := by
  rw [alternatives?, toOption_alternativesOf_scan, toOption_alternativesOf_scan]

theorem exists_scan_eq_skip (n : Nat) (cs : List Char) :
    ∃ m, Token.scan n cs = Token.scan m (skip true cs) := by
  induction cs generalizing n with
  | nil => exact ⟨n, rfl⟩
  | cons c cs ih =>
    cases hc : Text.isBlank c with
    | true =>
      obtain ⟨m, hm⟩ := ih (n + 1)
      refine ⟨m, (Token.scan_blank n hc cs).trans ?_⟩
      rw [hm, skip, skip, if_pos rfl, if_pos rfl, List.dropWhile_cons_of_pos hc]
    | false =>
      refine ⟨n, ?_⟩
      rw [skip, if_pos rfl, List.dropWhile_cons_of_neg (by simp [hc])]

theorem alternatives?_skip (cs : List Char) : alternatives? (skip true cs) = alternatives? cs := by
  obtain ⟨m, hm⟩ := exists_scan_eq_skip 0 cs
  rw [← toOption_alternativesOf_eq 0 .alternative m (skip true cs), ← hm, alternatives?]

theorem alternatives?_of_ends (h : Ends (skip true cs)) : alternatives? cs = none := by
  rw [← alternatives?_skip]
  rcases skip_cases cs with hnil | ⟨ds, hslash⟩ | ⟨ds, hbars⟩ | ⟨w, rest, hne, hw, heq⟩
  · rw [hnil]
    rfl
  · rw [hslash, alternatives?, Token.scan_slash]
    rfl
  · rw [hbars]
    rfl
  · exact absurd (hw.eq_nil_of_ends (heq ▸ h)) hne

theorem exists_alternatives?_append (hw : Runs rest w) (hne : w ≠ []) : ∃ n,
    alternatives? (w ++ rest) =
      (alternativesOf 0 .alternative (.word 0 w :: Token.scan n (skip true rest))).toOption := by
  obtain ⟨n, hn⟩ := exists_scan_eq_skip (0 + w.length) rest
  exact ⟨n, by rw [alternatives?, Token.scan_word 0 hne hw, hn]⟩

theorem alternatives?_append_slash (hw : Runs rest w) (hne : w ≠ [])
    (hrest : skip true rest = '/' :: ds) :
    alternatives? (w ++ rest) = (alternatives? ds).map (consStep (stepOfWord w)) := by
  obtain ⟨n, hn⟩ := exists_alternatives?_append hw hne
  rw [hn, hrest, Token.scan_slash, ← toOption_alternativesOf_eq 0 .step (n + 1) ds]
  exact toOption_bind_pure _ _

theorem alternatives?_append_bars (hw : Runs rest w) (hne : w ≠ [])
    (hrest : skip true rest = '|' :: '|' :: ds) :
    alternatives? (w ++ rest) = (alternatives? ds).map (List.cons [stepOfWord w]) := by
  obtain ⟨n, hn⟩ := exists_alternatives?_append hw hne
  rw [hn, hrest, ← toOption_alternativesOf_eq 0 .alternative (n + 2) ds]
  exact toOption_bind_pure _ _

theorem length_lt_of_skip {separator : List Char} (hrest : skip true rest = separator ++ ds)
    (hseparator : separator ≠ []) {w' rest' : List Char} (hds : skip true ds = w' ++ rest') :
    rest'.length < rest.length := by
  have hle := length_skip_le true rest
  have hle' := length_skip_le true ds
  have hpos := List.length_pos_iff.2 hseparator
  rw [hrest, List.length_append] at hle
  rw [hds, List.length_append] at hle'
  omega

/-- A step, and what the rest of the text behind it says. -/
theorem alternatives?_append (whole : List Char) (hw : Runs rest w) (hne : w ≠ []) :
    alternatives? (w ++ rest) =
      (behindStep whole rest).map fun r => (stepOfWord w :: r.1) :: r.2 := by
  induction hlength : rest.length using Nat.strongRecOn generalizing rest w with
  | ind n ih =>
    subst hlength
    -- behind a separator a step is due again, and if there is one, less is left behind it
    rcases skip_cases rest with hnil | ⟨ds, hslash⟩ | ⟨ds, hbars⟩ | ⟨w', rest', hne', hw', heq⟩
    · obtain ⟨n, hn⟩ := exists_alternatives?_append hw hne
      rw [hn, hnil, behindStep_of_nil hnil]
      rfl
    · rw [alternatives?_append_slash hw hne hslash]
      obtain ⟨w', rest', heq, hw'⟩ := exists_runs (skip true ds)
      cases w' with
      | nil =>
        have hends : Ends (skip true ds) := heq ▸ hw'.ends
        rw [alternatives?_of_ends hends, behindStep_of_slash_ends hslash hends]
        rfl
      | cons c w' =>
        rw [← alternatives?_skip, heq,
          ih _ (length_lt_of_skip hslash (List.cons_ne_nil _ []) heq) hw' nofun rfl,
          behindStep_of_slash_word hslash heq hw' nofun, Option.map_map, Option.map_map]
        rfl
    · rw [alternatives?_append_bars hw hne hbars]
      obtain ⟨w', rest', heq, hw'⟩ := exists_runs (skip true ds)
      cases w' with
      | nil =>
        have hends : Ends (skip true ds) := heq ▸ hw'.ends
        rw [alternatives?_of_ends hends, behindStep_of_bars_ends hbars hends]
        rfl
      | cons c w' =>
        rw [← alternatives?_skip, heq,
          ih _ (length_lt_of_skip hbars (List.cons_ne_nil _ ['|']) heq) hw' nofun rfl,
          behindStep_of_bars_word hbars heq hw' nofun, Option.map_map, Option.map_map]
        rfl
    · obtain ⟨n, hn⟩ := exists_alternatives?_append hw hne
      rw [hn, heq, Token.scan_word n hne' hw', behindStep_of_word heq hw' hne']
      rfl

theorem Grammar.parse?_eq_map_run (cs : List Char) : parse? cs =
    ((Pattern.seq .alternative (.seq (.many (.seq .bars .alternative)) .textEnd)).run cs true
      (skip true cs)).map fun r => r.1.filterMap Match.alternative? := by
  rw [parse?, Pattern.path]
  generalize Pattern.seq .alternative (.seq (.many (.seq .bars .alternative)) .textEnd) = behind
  have hstart : Pattern.textStart.run cs true cs = some ([], cs) := if_pos rfl
  cases h : behind.run cs true (skip true cs) with
  | none =>
    rw [Pattern.run_rule, Pattern.run_seq_of_right_eq_none hstart h]
    rfl
  | some matched =>
    rw [Pattern.run_rule, Pattern.run_seq_of_eq_some hstart h]
    rfl

/-- The grammar finds what the reader finds. -/
theorem Grammar.parse?_eq_alternatives? (cs : List Char) : parse? cs = alternatives? cs := by
  rw [parse?_eq_map_run]
  obtain ⟨w, rest, heq, hw⟩ := exists_runs (skip true cs)
  cases w with
  | nil =>
    have hends : Ends (skip true cs) := heq ▸ hw.ends
    rw [Pattern.run_seq_of_left_eq_none _ (Pattern.run_alternative_of_ends hends),
      alternatives?_of_ends hends]
    rfl
  | cons c w =>
    obtain ⟨text, rest', halternative, hskip⟩ := @Pattern.run_alternative cs _ _ hw nofun
    obtain ⟨rest'', hmany, hskip'⟩ := Pattern.run_many_others cs rest'
    obtain ⟨hothers, hrest⟩ := @Pattern.others_congr cs _ _ hskip
    rw [hothers] at hmany
    rw [hrest] at hskip'
    rw [← alternatives?_skip, heq, alternatives?_append cs hw nofun, behindStep, ← hskip']
    split
    · next hend =>
      have htail := Pattern.run_seq_of_eq_some hmany
        (show Pattern.textEnd.run cs true (skip true rest'') =
          some ([.node .textEnd [] []], skip true rest'') from if_pos hend)
      rw [Pattern.run_seq_of_eq_some halternative htail]
      simp [Match.alternative?, step?_matchOf]
    · next hend =>
      have htail := Pattern.run_seq_of_right_eq_none hmany
        (show Pattern.textEnd.run cs true (skip true rest'') = none from if_neg hend)
      rw [Pattern.run_seq_of_right_eq_none halternative htail]
      rfl

/-- A path is read exactly if every piece of its text, split at double bars and slashes, is a word
without the blanks around it, and then the pieces are its steps. Every other text is complained
about. The grammar accepts the same texts, with the same alternatives. -/
theorem read_eq_split (text : String) :
    (∀ p, FieldPath.read text = .ok p ↔
      (∀ alternative ∈ pieces text.toList, ∀ piece ∈ alternative, IsWord piece) ∧
        p = ⟨text, (pieces text.toList).map (List.map stepOfWord)⟩) ∧
    (∀ e, FieldPath.read text = .error e → ∃ reason, e = .brokenPath text reason) ∧
    Grammar.parse? text.toList =
      if ∀ alternative ∈ pieces text.toList, ∀ piece ∈ alternative, IsWord piece
      then some ((pieces text.toList).map (List.map stepOfWord)) else none := by
  refine ⟨fun p => ?_, fun e he => ?_, ?_⟩
  · have hok : ofText text = .ok p ↔ (ofText text).toOption = some p := by
      cases ofText text <;> simp [Except.toOption]
    rw [read_eq_ok_iff, hok, toOption_ofText, Option.ite_none_right_eq_some, Option.some_inj,
      eq_comm]
  · obtain ⟨r, -, rfl⟩ := mapError_eq_error_iff.1 he
    exact ⟨_, rfl⟩
  · rw [Grammar.parse?_eq_alternatives?, alternatives?, toOption_alternativesOf_scan]

/-- A bar alone belongs to a name. -/
example : pieces "../ a |||b".toList = [[['.', '.'], ['a']], [['|', 'b']]] := by decide

end PacketTypings.FieldPath
