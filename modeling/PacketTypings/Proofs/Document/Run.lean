import PacketTypings.Document.Basic
import PacketTypings.Proofs.Results
import Mathlib.Data.List.Basic

/-! A document made entry by entry. A step puts the outcome of one entry behind those of its kind,
or ends the run. Main statements: generating a document is a run over the entries; and where
failures are left out, every entry has ended up in exactly one list of the document. -/

namespace PacketTypings

theorem Outcome.isSkipped_iff {name : String} {raw : Json} :
    isSkipped name raw = true ↔ (∃ s, raw = .str s) ∨ name = "string" := by
  rw [isSkipped, Bool.or_eq_true, decide_eq_true_iff]
  cases raw <;> simp [Json.isStr, reservedName]

theorem Outcome.ofEntry_of_isSkipped {name : String} {raw : Json} (h : isSkipped name raw = true)
    (t : Typer) : ofEntry t name raw = .skipped name :=
  if_pos h

theorem Outcome.ofEntry_of_not_isSkipped {name : String} {raw : Json}
    (h : isSkipped name raw = false) (t : Typer) : ofEntry t name raw =
      match Declaration.ofEntry t name raw with
      | .ok d => .declared d
      | .error e => .failed ⟨name, e, raw⟩ :=
  if_neg (by simp [h])

theorem Declaration.name_of_ofEntry {t : Typer} {name : String} {raw : Json} {d : Declaration}
    (h : ofEntry t name raw = .ok d) : d.name = name := by
  obtain ⟨n, -, h⟩ := bind_eq_ok_iff.1 h
  split at h
  · cases h
    rfl
  · obtain ⟨e, -, h⟩ := bind_eq_ok_iff.1 h
    cases h
    rfl

namespace Document

def empty : Document := ⟨[], [], []⟩

/-- The outcome of one more entry goes behind those of its kind. -/
def add (d : Document) : Outcome → Document
  | .skipped name => { d with skipped := d.skipped ++ [name] }
  | .declared declaration => { d with declarations := d.declarations ++ [declaration] }
  | .failed failure => { d with failures := d.failures ++ [failure] }

/-- A failure ends the run if it is to abort; every other outcome goes into the document. -/
def step (t : Typer) (onFailure : OnFailure) (d : Document) (entry : String × Json) :
    Except Failure Document :=
  match onFailure, Outcome.ofEntry t entry.1 entry.2 with
  | .abort, .failed f => .error f
  | _, outcome => .ok (d.add outcome)

theorem foldl_add (d : Document) (outcomes : List Outcome) : outcomes.foldl add d =
    ⟨d.declarations ++ outcomes.filterMap Outcome.declared?,
      d.failures ++ outcomes.filterMap Outcome.failed?,
      d.skipped ++ outcomes.filterMap Outcome.skipped?⟩ := by
  induction outcomes generalizing d with
  | nil => simp
  | cons o rest ih =>
    rw [List.foldl_cons, ih]
    cases o <;>
      simp [add, List.filterMap_cons, Outcome.declared?, Outcome.failed?, Outcome.skipped?]

theorem ofOutcomes_eq_foldl (outcomes : List Outcome) :
    ofOutcomes outcomes = outcomes.foldl add empty := by
  rw [foldl_add]
  rfl

/-- What a run ends with, if `d` would be the document of all entries. -/
def ended (onFailure : OnFailure) (d : Document) : Except Failure Document :=
  match onFailure, d.failures with
  | .abort, f :: _ => .error f
  | _, _ => .ok d

theorem ended_of_failures_eq_nil {onFailure : OnFailure} {d : Document}
    (h : onFailure = .abort → d.failures = []) : ended onFailure d = .ok d := by
  cases onFailure with
  | skipEntry => rfl
  | abort =>
    unfold ended
    rw [h rfl]

/-- A step goes on, with no failure that would have ended the run, or the run ends there. -/
theorem step_cases (t : Typer) {onFailure : OnFailure} {d : Document}
    (h : onFailure = .abort → d.failures = []) (entry : String × Json) :
    (step t onFailure d entry = .ok (d.add (.ofEntry t entry.1 entry.2)) ∧
      (onFailure = .abort → (d.add (.ofEntry t entry.1 entry.2)).failures = [])) ∨
    ∃ f, onFailure = .abort ∧ Outcome.ofEntry t entry.1 entry.2 = .failed f ∧
      step t onFailure d entry = .error f := by
  unfold step
  cases onFailure with
  | skipEntry => exact .inl ⟨rfl, nofun⟩
  | abort =>
    cases Outcome.ofEntry t entry.1 entry.2 with
    | failed f => exact .inr ⟨f, rfl, rfl, rfl⟩
    | skipped name => exact .inl ⟨rfl, h⟩
    | declared declaration => exact .inl ⟨rfl, h⟩

theorem foldlM_step (t : Typer) {onFailure : OnFailure} {d : Document}
    (h : onFailure = .abort → d.failures = []) (entries : List (String × Json)) :
    entries.foldlM (step t onFailure) d =
      ended onFailure ((entries.map fun x => Outcome.ofEntry t x.1 x.2).foldl add d) := by
  induction entries generalizing d with
  | nil => exact (ended_of_failures_eq_nil h).symm
  | cons entry rest ih =>
    rw [List.foldlM_cons, List.map_cons, List.foldl_cons]
    rcases step_cases t h entry with ⟨hstep, hnone⟩ | ⟨f, rfl, houtcome, hstep⟩
    · rw [hstep]
      exact ih hnone
    · rw [hstep, houtcome, foldl_add, add, h rfl]
      rfl

end Document

/-- Generating a document is a run over the entries, one after the other. -/
theorem Protocol.generate_eq_foldlM (p : Protocol) (options : Options) : p.generate options =
    p.entries.foldlM (Document.step (p.typer options.anonymousFields) options.onFailure)
      .empty := by
  rw [Document.foldlM_step _ fun _ => rfl, ← Document.ofOutcomes_eq_foldl]
  rfl

/-- The entry is not skipped and has a declaration. -/
def Typer.declares (t : Typer) (entry : String × Json) : Bool :=
  !Outcome.isSkipped entry.1 entry.2 && (Declaration.ofEntry t entry.1 entry.2).toBool

/-- The entry is not skipped and has no declaration. -/
def Typer.refuses (t : Typer) (entry : String × Json) : Bool :=
  !Outcome.isSkipped entry.1 entry.2 && !(Declaration.ofEntry t entry.1 entry.2).toBool

namespace Document

/-- Each entry is in the one list where it belongs, in the order of the entries: its name if it is
skipped, its declaration if it has one, else the failure with its fault and its node. -/
structure Accounts (t : Typer) (entries : List (String × Json)) (d : Document) : Prop where
  skipped : d.skipped = (entries.filter fun x => Outcome.isSkipped x.1 x.2).map Prod.fst
  declared : List.Forall₂
    (fun x declaration => Declaration.ofEntry t x.1 x.2 = .ok declaration ∧ declaration.name = x.1)
    (entries.filter t.declares) d.declarations
  failed : List.Forall₂
    (fun x f => f.name = x.1 ∧ f.node = x.2 ∧ Declaration.ofEntry t x.1 x.2 = .error f.fault)
    (entries.filter t.refuses) d.failures

namespace Accounts

variable {t : Typer} {entries : List (String × Json)} {d : Document}

theorem empty (t : Typer) : Accounts t [] .empty := ⟨rfl, .nil, .nil⟩

theorem add (h : Accounts t entries d) (entry : String × Json) :
    Accounts t (entries ++ [entry]) (d.add (.ofEntry t entry.1 entry.2)) := by
  cases hskipped : Outcome.isSkipped entry.1 entry.2 with
  | true =>
    rw [Outcome.ofEntry_of_isSkipped hskipped]
    constructor
    · simp [Document.add, h.skipped, hskipped]
    · simpa [Document.add, Typer.declares, hskipped] using h.declared
    · simpa [Document.add, Typer.refuses, hskipped] using h.failed
  | false =>
    rw [Outcome.ofEntry_of_not_isSkipped hskipped]
    cases hentry : Declaration.ofEntry t entry.1 entry.2 with
    | ok declaration =>
      have hdeclares : t.declares entry = true := by
        simp [Typer.declares, hskipped, hentry, Except.toBool]
      have hrefuses : t.refuses entry = false := by
        simp [Typer.refuses, hskipped, hentry, Except.toBool]
      constructor
      · simp [Document.add, h.skipped, hskipped]
      · rw [List.filter_append, List.filter_singleton, hdeclares]
        exact List.rel_append h.declared
          (.cons ⟨hentry, Declaration.name_of_ofEntry hentry⟩ .nil)
      · simpa [Document.add, hrefuses] using h.failed
    | error e =>
      have hdeclares : t.declares entry = false := by
        simp [Typer.declares, hskipped, hentry, Except.toBool]
      have hrefuses : t.refuses entry = true := by
        simp [Typer.refuses, hskipped, hentry, Except.toBool]
      constructor
      · simp [Document.add, h.skipped, hskipped]
      · simpa [Document.add, hdeclares] using h.declared
      · rw [List.filter_append, List.filter_singleton, hrefuses]
        exact List.rel_append h.failed (.cons ⟨rfl, rfl, hentry⟩ .nil)

/-- What one step preserves, a whole run preserves. -/
theorem run (h : Accounts t entries d) (rest : List (String × Json)) : ∃ d',
    rest.foldlM (step t .skipEntry) d = .ok d' ∧ Accounts t (entries ++ rest) d' := by
  induction rest generalizing entries d with
  | nil => exact ⟨d, rfl, by rwa [List.append_nil]⟩
  | cons entry rest ih =>
    obtain ⟨d', hrun, hd'⟩ := ih (h.add entry)
    refine ⟨d', ?_, by rwa [List.append_assoc] at hd'⟩
    rw [List.foldlM_cons]
    exact hrun

theorem length_eq (h : Accounts t entries d) :
    d.skipped.length + d.declarations.length + d.failures.length = entries.length := by
  rw [h.skipped, List.length_map, ← h.declared.length_eq, ← h.failed.length_eq]
  have hskipped := entries.length_eq_length_filter_add fun x => Outcome.isSkipped x.1 x.2
  have hrest := (entries.filter fun x => !Outcome.isSkipped x.1 x.2).length_eq_length_filter_add
    fun x => (Declaration.ofEntry t x.1 x.2).toBool
  rw [List.filter_filter, List.filter_filter] at hrest
  simp only [Bool.and_comm _ (!Outcome.isSkipped _ _)] at hrest
  change _ = (entries.filter t.declares).length + (entries.filter t.refuses).length at hrest
  omega

theorem isComplete_iff (h : Accounts t entries d) : d.isComplete = true ↔
    ∀ x ∈ entries, Outcome.isSkipped x.1 x.2 = false →
      ∃ declaration, Declaration.ofEntry t x.1 x.2 = .ok declaration := by
  rw [isComplete, List.isEmpty_iff, ← List.length_eq_zero_iff, ← h.failed.length_eq,
    List.length_eq_zero_iff, List.filter_eq_nil_iff]
  refine forall₂_congr fun x _ => ?_
  unfold Typer.refuses
  cases Declaration.ofEntry t x.1 x.2 <;> simp [Except.toBool]

end Accounts

theorem text_eq_join (d : Document) : d.text =
    String.join (d.declarations.map fun x => x.text ++ "\n") ++ "\n\n" := by
  apply String.toList_injective
  rw [text, chars, String.toList_ofList, String.toList_append, String.toList_join,
    List.flatMap_map]
  simp only [String.toList_append, Declaration.text, String.toList_ofList]
  rfl

end Document

/-- If failures are left out, there is a document, and it accounts for every entry exactly once: the
aliases and the entry `string` are skipped, every other entry has its declaration or its failure.
The text has the declarations in this order, each with its line end, and two line ends more. -/
theorem Protocol.generate_accounts (p : Protocol) (anonymousFields : AnonymousFields) : ∃ d,
    p.generate ⟨anonymousFields, .skipEntry⟩ = .ok d ∧
      d.Accounts (p.typer anonymousFields) p.entries ∧
      (∀ x ∈ p.entries, Outcome.isSkipped x.1 x.2 = true ↔
        (∃ s, x.2 = .str s) ∨ x.1 = "string") ∧
      d.skipped.length + d.declarations.length + d.failures.length = p.entries.length ∧
      (d.isComplete = true ↔ ∀ x ∈ p.entries, Outcome.isSkipped x.1 x.2 = false →
        ∃ declaration, Declaration.ofEntry (p.typer anonymousFields) x.1 x.2 = .ok declaration) ∧
      d.text = String.join (d.declarations.map fun x => x.text ++ "\n") ++ "\n\n" := by
  obtain ⟨d, hrun, hd⟩ := (Document.Accounts.empty (p.typer anonymousFields)).run p.entries
  rw [← p.generate_eq_foldlM ⟨anonymousFields, .skipEntry⟩] at hrun
  exact ⟨d, hrun, hd, fun _ _ => Outcome.isSkipped_iff, hd.length_eq, hd.isComplete_iff,
    d.text_eq_join⟩

end PacketTypings
