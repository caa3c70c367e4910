import PacketTypings.Proofs.Document.Run

/-! The run that aborts beside the run that goes on. Up to the first failure both take the same
steps, and only there does the policy count. Main statement: the run that aborts has a document
exactly if the other one has no failures, and then the same one; else it ends with the first of
them, the failure of the first entry that is refused. -/

namespace PacketTypings

namespace Outcome

variable {t : Typer} {entry : String × Json}

theorem failed?_ofEntry_eq_some_iff {f : Failure} :
    (ofEntry t entry.1 entry.2).failed? = some f ↔ isSkipped entry.1 entry.2 = false ∧
      f.name = entry.1 ∧ f.node = entry.2 ∧
        Declaration.ofEntry t entry.1 entry.2 = .error f.fault := by
  cases hskipped : isSkipped entry.1 entry.2 with
  | true => simp [ofEntry_of_isSkipped hskipped, failed?]
  | false =>
    rw [ofEntry_of_not_isSkipped hskipped]
    obtain ⟨name, fault, node⟩ := f
    cases Declaration.ofEntry t entry.1 entry.2 with
    | ok d => simp [failed?]
    | error e =>
      constructor
      · rintro ⟨⟩
        exact ⟨rfl, rfl, rfl, rfl⟩
      · rintro ⟨-, rfl, rfl, ⟨⟩⟩
        rfl

theorem failed?_ofEntry_eq_none_iff :
    (ofEntry t entry.1 entry.2).failed? = none ↔ t.refuses entry = false := by
  unfold Typer.refuses
  cases hskipped : isSkipped entry.1 entry.2 with
  | true => simp [ofEntry_of_isSkipped hskipped, failed?]
  | false =>
    rw [ofEntry_of_not_isSkipped hskipped]
    cases Declaration.ofEntry t entry.1 entry.2 <;> simp [failed?, Except.toBool]

end Outcome

namespace Document

/-- The entry is refused, and every entry before it is not; the failure tells why. -/
def FirstRefused (t : Typer) (entries : List (String × Json)) (f : Failure) : Prop :=
  ∃ before entry after, entries = before ++ entry :: after ∧
    (∀ x ∈ before, t.refuses x = false) ∧ Outcome.isSkipped entry.1 entry.2 = false ∧
      f.name = entry.1 ∧ f.node = entry.2 ∧ Declaration.ofEntry t entry.1 entry.2 = .error f.fault

theorem head?_failures_eq_some_iff {t : Typer} {entries : List (String × Json)} {f : Failure} :
    (ofOutcomes (entries.map fun x => .ofEntry t x.1 x.2)).failures.head? = some f ↔
      FirstRefused t entries f := by
  change (List.filterMap Outcome.failed? _).head? = some f ↔ _
  rw [List.filterMap_map, List.head?_eq_some_iff]
  simp only [List.filterMap_eq_cons_iff, Function.comp_apply, Outcome.failed?_ofEntry_eq_some_iff,
    Outcome.failed?_ofEntry_eq_none_iff]
  constructor
  · rintro ⟨_, before, entry, after, hsplit, hbefore, hentry, -⟩
    exact ⟨before, entry, after, hsplit, hbefore, hentry⟩
  · rintro ⟨before, entry, after, hsplit, hbefore, hentry⟩
    exact ⟨_, before, entry, after, hsplit, hbefore, hentry, rfl⟩

/-- The two runs side by side: they end alike, unless the one has failures. -/
theorem runs_agree (t : Typer) (entries : List (String × Json)) : ∃ d,
    entries.foldlM (step t .skipEntry) .empty = .ok d ∧
      d = ofOutcomes (entries.map fun x => .ofEntry t x.1 x.2) ∧
      entries.foldlM (step t .abort) .empty = d.failures.head?.elim (.ok d) .error := by
  have hnone (onFailure : OnFailure) : onFailure = .abort → empty.failures = [] := fun _ => rfl
  rw [foldlM_step t (hnone .skipEntry), foldlM_step t (hnone .abort), ← ofOutcomes_eq_foldl]
  refine ⟨_, rfl, rfl, ?_⟩
  unfold ended
  cases (ofOutcomes (entries.map fun x => .ofEntry t x.1 x.2)).failures <;> rfl

end Document

/-- Under both policies a document comes from a run over the entries with the same types. The run
that aborts has a document exactly if the other one has no failures, and then it is the same in all
its parts; else it ends with the first of these failures, that of the first entry refused. -/
theorem Protocol.generate_abort_iff (p : Protocol) (anonymousFields : AnonymousFields) : ∃ d,
    p.generate ⟨anonymousFields, .skipEntry⟩ = .ok d ∧
      (∀ onFailure, p.generate ⟨anonymousFields, onFailure⟩ =
        p.entries.foldlM (Document.step (p.typer anonymousFields) onFailure) .empty) ∧
      (∀ d', p.generate ⟨anonymousFields, .abort⟩ = .ok d' ↔ d.failures = [] ∧ d' = d) ∧
      ∀ f, (p.generate ⟨anonymousFields, .abort⟩ = .error f ↔ d.failures.head? = some f) ∧
        (d.failures.head? = some f ↔
          Document.FirstRefused (p.typer anonymousFields) p.entries f) := by
  obtain ⟨d, hskip, hd, habort⟩ := Document.runs_agree (p.typer anonymousFields) p.entries
  rw [← p.generate_eq_foldlM ⟨anonymousFields, .skipEntry⟩] at hskip
  rw [← p.generate_eq_foldlM ⟨anonymousFields, .abort⟩] at habort
  refine ⟨d, hskip, fun onFailure => p.generate_eq_foldlM _, ?_, fun f => ⟨?_, ?_⟩⟩
  · rw [habort]
    cases d.failures <;> simp [eq_comm]
  · rw [habort]
    cases d.failures <;> simp
  · rw [hd]
    exact Document.head?_failures_eq_some_iff

end PacketTypings
