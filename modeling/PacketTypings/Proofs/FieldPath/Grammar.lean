import PacketTypings.FieldPath.Reader
import PacketTypings.Proofs.FieldPath.Words
import Mathlib.Data.List.Basic

/-! The grammar of paths, as parsing expressions: a choice takes the first way that succeeds, and a
repetition all that it can. Outside of atomic rules, blanks are skipped between the parts of a
sequence and between repetitions. Main statements: a step is matched where a word begins, and it is
that word. -/

namespace PacketTypings.FieldPath

namespace Grammar

inductive Rule where
  | path | alternative | parent | current | name | textEnd
deriving DecidableEq, Repr

/-- What a rule has matched: its text, and what the rules inside it have. -/
inductive Match where
  | node (rule : Rule) (text : List Char) (inner : List Match)

inductive Pattern where
  | text (cs : List Char)
  | any
  | textStart
  | textEnd
  | seq (a b : Pattern)
  | choice (a b : Pattern)
  | many (e : Pattern)
  | ahead (e : Pattern)
  | notAhead (e : Pattern)
  | rule (r : Rule) (e : Pattern)
  /-- No blanks are skipped inside, and of the rules inside nothing is told. -/
  | atomic (r : Rule) (e : Pattern)

/-- The text behind the blanks, if blanks are skipped. -/
def skip (blanks : Bool) (cs : List Char) : List Char :=
  if blanks then cs.dropWhile Text.isBlank else cs

/-- What is matched by trying again and again, and the text behind it. -/
def again (f : List Char → Option (List Match × List Char)) (cs : List Char) :
    List Match × List Char :=
  match f cs with
  | none => ([], cs)
  | some (ms, rest) =>
    if rest.length < cs.length then
      let (ms', rest') := again f rest
      (ms ++ ms', rest')
    else (ms, rest)
termination_by cs.length

/-- The match at the beginning of a text, which is the end of the whole text, and the text behind
it. -/
def Pattern.run (whole : List Char) (blanks : Bool) :
    Pattern → List Char → Option (List Match × List Char)
  | text cs, ds => (cs.isPrefixOf? ds).map fun rest => ([], rest)
  | any, ds => ds.tail?.map fun rest => ([], rest)
  | textStart, ds => if ds = whole then some ([], ds) else none
  | textEnd, ds => if ds = [] then some ([.node .textEnd [] []], ds) else none
  | seq a b, ds => (a.run whole blanks ds).bind fun (ms, rest) =>
    (b.run whole blanks (skip blanks rest)).map fun (ms', rest') => (ms ++ ms', rest')
  | choice a b, ds => (a.run whole blanks ds).or (b.run whole blanks ds)
  | many e, ds =>
    match e.run whole blanks ds with
    | none => some ([], ds)
    | some (ms, rest) =>
      let (ms', rest') := again (fun ds => e.run whole blanks (skip blanks ds)) rest
      some (ms ++ ms', rest')
  | ahead e, ds => (e.run whole blanks ds).map fun _ => ([], ds)
  | notAhead e, ds => if (e.run whole blanks ds).isSome then none else some ([], ds)
  | rule r e, ds => (e.run whole blanks ds).map fun (ms, rest) =>
    ([.node r (ds.take (ds.length - rest.length)) ms], rest)
  | atomic r e, ds => (e.run whole false ds).map fun (_, rest) =>
    ([.node r (ds.take (ds.length - rest.length)) []], rest)

namespace Pattern

def slash : Pattern := text ['/']

def bars : Pattern := text ['|', '|']

def blank : Pattern := choice (text [' ']) (text ['\t'])

def boundary : Pattern := ahead (choice slash (choice bars (choice blank textEnd)))

def parent : Pattern := atomic .parent (seq (text ['.', '.']) boundary)

def current : Pattern := atomic .current (seq (text ['.']) boundary)

def letter : Pattern := seq (notAhead (choice slash (choice bars blank))) any

def name : Pattern := atomic .name (seq letter (many letter))

def step : Pattern := choice parent (choice current name)

def alternative : Pattern := rule .alternative (seq step (many (seq slash step)))

def path : Pattern :=
  rule .path (seq textStart (seq alternative (seq (many (seq bars alternative)) textEnd)))

end Pattern

def Match.step? : Match → Option Step
  | .node .parent _ _ => some .parent
  | .node .current _ _ => some .current
  | .node .name text _ => some (.name (String.ofList text))
  | _ => none

def Match.alternative? : Match → Option (List Step)
  | .node .alternative _ inner => some (inner.filterMap step?)
  | _ => none

/-- The alternatives of a text that the grammar accepts. -/
def parse? (cs : List Char) : Option (List (List Step)) :=
  match Pattern.path.run cs true cs with
  | some (.node _ _ inner :: _, _) => some (inner.filterMap Match.alternative?)
  | _ => none

theorem again_of_eq_none {f : List Char → Option (List Match × List Char)} {cs : List Char}
    (h : f cs = none) : again f cs = ([], cs) := by
  rw [again, h]

theorem again_of_eq_some {f : List Char → Option (List Match × List Char)} {cs rest : List Char}
    {ms : List Match} (h : f cs = some (ms, rest)) (hlength : rest.length < cs.length) :
    again f cs = (ms ++ (again f rest).1, (again f rest).2) := by
  rw [again, h]
  exact if_pos hlength

namespace Pattern

variable {whole : List Char} {blanks : Bool} {w rest cs : List Char}

theorem run_text (ds cs : List Char) : (text ds).run whole blanks cs =
    (ds.isPrefixOf? cs).map fun rest => ([], rest) := rfl

theorem run_seq (a b : Pattern) (cs : List Char) : (seq a b).run whole blanks cs =
    (a.run whole blanks cs).bind fun r =>
      (b.run whole blanks (skip blanks r.2)).map fun r' => (r.1 ++ r'.1, r'.2) := rfl

theorem run_choice (a b : Pattern) (cs : List Char) : (choice a b).run whole blanks cs =
    (a.run whole blanks cs).or (b.run whole blanks cs) := rfl

theorem run_many (e : Pattern) (cs : List Char) : (many e).run whole blanks cs =
    match e.run whole blanks cs with
    | none => some ([], cs)
    | some (ms, rest) =>
      some (ms ++ (again (fun ds => e.run whole blanks (skip blanks ds)) rest).1,
        (again (fun ds => e.run whole blanks (skip blanks ds)) rest).2) := rfl

theorem run_ahead (e : Pattern) (cs : List Char) : (ahead e).run whole blanks cs =
    (e.run whole blanks cs).map fun _ => ([], cs) := rfl

theorem run_notAhead (e : Pattern) (cs : List Char) : (notAhead e).run whole blanks cs =
    if (e.run whole blanks cs).isSome then none else some ([], cs) := rfl

theorem run_rule (r : Rule) (e : Pattern) (cs : List Char) : (rule r e).run whole blanks cs =
    (e.run whole blanks cs).map fun m =>
      ([.node r (cs.take (cs.length - m.2.length)) m.1], m.2) := rfl

theorem run_atomic (r : Rule) (e : Pattern) (cs : List Char) : (atomic r e).run whole blanks cs =
    (e.run whole false cs).map fun m =>
      ([.node r (cs.take (cs.length - m.2.length)) []], m.2) := rfl

theorem run_seq_of_eq_some {a b : Pattern} {ds : List Char} {ms ms' : List Match}
    (ha : a.run whole blanks cs = some (ms, ds))
    (hb : b.run whole blanks (skip blanks ds) = some (ms', rest)) :
    (seq a b).run whole blanks cs = some (ms ++ ms', rest) := by
  rw [run_seq, ha, Option.bind_some, hb, Option.map_some]

theorem run_seq_of_left_eq_none {a : Pattern} (b : Pattern) (ha : a.run whole blanks cs = none) :
    (seq a b).run whole blanks cs = none := by
  rw [run_seq, ha, Option.bind_none]

theorem run_seq_of_right_eq_none {a b : Pattern} {ds : List Char} {ms : List Match}
    (ha : a.run whole blanks cs = some (ms, ds))
    (hb : b.run whole blanks (skip blanks ds) = none) :
    (seq a b).run whole blanks cs = none := by
  rw [run_seq, ha, Option.bind_some, hb, Option.map_none]

theorem run_many_of_eq_none {e : Pattern} (h : e.run whole blanks cs = none) :
    (many e).run whole blanks cs = some ([], cs) := by
  rw [run_many, h]

theorem run_many_of_eq_some {e : Pattern} {ds : List Char} {ms : List Match}
    (h : e.run whole blanks cs = some (ms, ds)) : (many e).run whole blanks cs =
      some (ms ++ (again (fun ds => e.run whole blanks (skip blanks ds)) ds).1,
        (again (fun ds => e.run whole blanks (skip blanks ds)) ds).2) := by
  rw [run_many, h]

theorem take_matched (w rest : List Char) :
    (w ++ rest).take ((w ++ rest).length - rest.length) = w := by
  rw [List.length_append, Nat.add_sub_cancel]
  exact List.take_left

theorem run_atomic_of_eq_some {e : Pattern} {ms : List Match}
    (h : e.run whole false (w ++ rest) = some (ms, rest)) (r : Rule) :
    (atomic r e).run whole blanks (w ++ rest) = some ([.node r w []], rest) := by
  rw [run_atomic, h, Option.map_some, take_matched]

theorem run_atomic_of_eq_none {e : Pattern} (h : e.run whole false cs = none) (r : Rule) :
    (atomic r e).run whole blanks cs = none := by
  rw [run_atomic, h, Option.map_none]

theorem run_text_cons (c : Char) (cs : List Char) (d : Char) (ds : List Char) :
    (text (c :: cs)).run whole blanks (d :: ds) =
      if c = d then (text cs).run whole blanks ds else none := by
  rw [run_text, run_text, List.isPrefixOf?]
  by_cases h : c = d
  · rw [if_pos h, if_pos (beq_iff_eq.2 h)]
  · rw [if_neg h, if_neg (by simpa using h)]
    rfl

/-- A separator or a blank is matched where no word begins. -/
theorem isSome_run_separator (c : Char) (cs : List Char) :
    ((choice slash (choice bars blank)).run whole blanks (c :: cs)).isSome =
      !startsWord (c :: cs) := by
  cases h : startsWord (c :: cs) with
  | true =>
    obtain ⟨hslash, hblank, hbars⟩ := startsWord_cons_iff.1 h
    rw [Text.isBlank, Bool.or_eq_false_iff, decide_eq_false_iff_not,
      decide_eq_false_iff_not] at hblank
    have hslash : slash.run whole blanks (c :: cs) = none := by
      rw [slash, run_text_cons, if_neg (Ne.symm hslash)]
    have hblank : blank.run whole blanks (c :: cs) = none := by
      rw [blank, run_choice, run_text_cons, run_text_cons, if_neg (Ne.symm hblank.1),
        if_neg (Ne.symm hblank.2)]
      rfl
    have hbars : bars.run whole blanks (c :: cs) = none := by
      rw [bars, run_text_cons]
      split
      · next hc =>
        cases cs with
        | nil => rfl
        | cons d cs => rw [run_text_cons, if_neg fun hd => hbars ⟨hc.symm, congrArg some hd.symm⟩]
      · rfl
    rw [run_choice, run_choice, hslash, hbars, hblank]
    rfl
  | false =>
    cases ends_of_startsWord h with
    | bars cs => rfl
    | slash cs => rfl
    | blank isBlank cs =>
      rw [Text.isBlank, Bool.or_eq_true, decide_eq_true_iff, decide_eq_true_iff] at isBlank
      rcases isBlank with rfl | rfl <;> rfl

/-- A word has to end where it ends. -/
theorem run_boundary (cs : List Char) : boundary.run whole blanks cs =
    if startsWord cs then none else some ([], cs) := by
  cases cs with
  | nil => rfl
  | cons c cs =>
    have hseparator := @isSome_run_separator whole blanks c cs
    have hend : (choice blank textEnd).run whole blanks (c :: cs) =
        blank.run whole blanks (c :: cs) := Option.or_none
    rw [run_choice, run_choice] at hseparator
    rw [boundary, run_ahead, run_choice, run_choice, hend]
    generalize (slash.run whole blanks (c :: cs)).or _ = matched at hseparator ⊢
    cases matched with
    | none =>
      rw [if_pos (by simpa using hseparator)]
      rfl
    | some _ =>
      rw [if_neg (by simpa using hseparator)]
      rfl

theorem run_letter (cs : List Char) : letter.run whole false cs =
    if startsWord cs then some ([], cs.tail) else none := by
  cases cs with
  | nil => rfl
  | cons c cs =>
    rw [letter, run_seq, run_notAhead, isSome_run_separator]
    cases startsWord (c :: cs) <;> rfl

/-- All characters of a word are matched. -/
theorem again_letter (h : Runs rest w) :
    again (letter.run whole false) (w ++ rest) = ([], rest) := by
  induction h with
  | nil ends =>
    refine again_of_eq_none ?_
    rw [List.nil_append, run_letter, ends.startsWord_eq_false]
    rfl
  | @cons c w starts _ ih =>
    have hstep : letter.run whole false (c :: (w ++ rest)) = some ([], w ++ rest) := by
      rw [run_letter, if_pos starts, List.tail_cons]
    rw [List.cons_append, again_of_eq_some hstep (Nat.lt_succ_self _), ih, List.nil_append]

theorem run_name (h : Runs rest w) (hne : w ≠ []) :
    name.run whole blanks (w ++ rest) = some ([.node .name w []], rest) := by
  have hletter {c : Char} {w : List Char} (starts : startsWord (c :: (w ++ rest)) = true) :
      letter.run whole false (c :: (w ++ rest)) = some ([], w ++ rest) := by
    rw [run_letter, if_pos starts, List.tail_cons]
  cases h with
  | nil => exact absurd rfl hne
  | @cons c w starts more =>
    have hmany : (many letter).run whole false (w ++ rest) = some ([], rest) := by
      cases more with
      | nil ends =>
        refine run_many_of_eq_none ?_
        rw [List.nil_append, run_letter, ends.startsWord_eq_false]
        rfl
      | cons starts' more' =>
        rw [List.cons_append, run_many_of_eq_some (hletter starts')]
        exact congrArg some (again_letter more')
    exact run_atomic_of_eq_some (run_seq_of_eq_some (hletter starts) hmany) .name

theorem run_name_of_ends (h : Ends cs) : name.run whole blanks cs = none := by
  refine run_atomic_of_eq_none (run_seq_of_left_eq_none _ ?_) _
  rw [run_letter, h.startsWord_eq_false]
  rfl

/-- A text that has to end is matched where it is the whole word. -/
theorem run_seq_boundary (ds : List Char) (hds : ∀ rest, Ends rest → Runs rest ds)
    (h : Runs rest w) : (seq (text ds) boundary).run whole false (w ++ rest) =
      if w = ds then some ([], rest) else none := by
  cases htext : ds.isPrefixOf? (w ++ rest) with
  | none =>
    have hne : w ≠ ds := by
      rintro rfl
      rw [List.isPrefixOf?_eq_some_iff_append_eq.2 rfl] at htext
      cases htext
    rw [if_neg hne]
    refine run_seq_of_left_eq_none _ ?_
    rw [run_text, htext, Option.map_none]
  | some cs =>
    have htext' : (text ds).run whole false (w ++ rest) = some ([], cs) := by
      rw [run_text, htext, Option.map_some]
    have heq := List.append_eq_of_isPrefixOf?_eq_some htext
    cases hcs : startsWord cs with
    | true =>
      have hne : w ≠ ds := by
        rintro rfl
        rw [List.append_cancel_left heq, h.ends.startsWord_eq_false] at hcs
        cases hcs
      rw [if_neg hne]
      refine run_seq_of_right_eq_none htext' ?_
      exact (run_boundary cs).trans (if_pos hcs)
    | false =>
      obtain rfl := h.unique (hds cs (ends_of_startsWord hcs)) heq.symm
      obtain rfl := List.append_cancel_left heq
      rw [if_pos rfl]
      refine run_seq_of_eq_some htext' ((run_boundary cs).trans (if_neg ?_))
      simp [hcs]

theorem run_atomic_boundary (ds : List Char) (hds : ∀ rest, Ends rest → Runs rest ds)
    (h : Runs rest w) (r : Rule) :
    (atomic r (seq (text ds) boundary)).run whole blanks (w ++ rest) =
      if w = ds then some ([.node r w []], rest) else none := by
  have hseq := @run_seq_boundary whole w rest ds hds h
  split
  · next hw => exact run_atomic_of_eq_some (hseq.trans (if_pos hw)) r
  · next hw => exact run_atomic_of_eq_none (hseq.trans (if_neg hw)) r

theorem runs_dot {rest : List Char} (h : Runs rest w) : Runs rest ('.' :: w) :=
  .cons (by simp [startsWord, Text.isBlank]) h

theorem run_parent (h : Runs rest w) : parent.run whole blanks (w ++ rest) =
    if w = ['.', '.'] then some ([.node .parent w []], rest) else none :=
  run_atomic_boundary _ (fun _ hends => runs_dot (runs_dot (.nil hends))) h .parent

theorem run_current (h : Runs rest w) : current.run whole blanks (w ++ rest) =
    if w = ['.'] then some ([.node .current w []], rest) else none :=
  run_atomic_boundary _ (fun _ hends => runs_dot (.nil hends)) h .current

/-- What is told of a step. -/
def matchOf (w : List Char) : Match :=
  .node (if w = ['.', '.'] then .parent else if w = ['.'] then .current else .name) w []

theorem run_step (h : Runs rest w) (hne : w ≠ []) :
    step.run whole blanks (w ++ rest) = some ([matchOf w], rest) := by
  rw [step, run_choice, run_choice, run_parent h, run_current h, run_name h hne, matchOf]
  by_cases hparent : w = ['.', '.']
  · rw [if_pos hparent, if_pos hparent]
    rfl
  rw [if_neg hparent, if_neg hparent]
  by_cases hcurrent : w = ['.']
  · rw [if_pos hcurrent, if_pos hcurrent]
    rfl
  · rw [if_neg hcurrent, if_neg hcurrent]
    rfl

theorem run_step_of_ends (h : Ends cs) : step.run whole blanks cs = none := by
  have hparent := @run_parent whole blanks _ _ (.nil h)
  have hcurrent := @run_current whole blanks _ _ (.nil h)
  rw [List.nil_append, if_neg nofun] at hparent hcurrent
  rw [step, run_choice, run_choice, hparent, hcurrent, run_name_of_ends h]
  rfl

end Pattern

theorem step?_matchOf (w : List Char) : (Pattern.matchOf w).step? = some (stepOfWord w) := by
  unfold Pattern.matchOf stepOfWord
  split
  · rfl
  · split <;> rfl

end Grammar
end PacketTypings.FieldPath
