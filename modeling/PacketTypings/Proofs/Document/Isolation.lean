import PacketTypings.Proofs.Document.Unresolved
import PacketTypings.Proofs.Typing.Entries

/-! Entries do not see each other. All that an entry takes from the others is which names there are.
Main statement: in two protocols with the same names, what becomes of an entry is the same, and the
order of the entries only orders what becomes of them. -/

namespace PacketTypings

theorem Declaration.ofEntry_eq_of_entries {t t' : Typer}
    (hpolicy : t'.anonymousFields = t.anonymousFields)
    (hentries : ∀ name, name ∈ t'.entries ↔ name ∈ t.entries) (name : String) (raw : Json) :
    ofEntry t name raw = ofEntry t' name raw := by
  unfold ofEntry
  simp only [Typer.type_eq_of_entries hpolicy hentries]

theorem Outcome.ofEntry_eq_of_entries {t t' : Typer}
    (hpolicy : t'.anonymousFields = t.anonymousFields)
    (hentries : ∀ name, name ∈ t'.entries ↔ name ∈ t.entries) (name : String) (raw : Json) :
    ofEntry t name raw = ofEntry t' name raw := by
  unfold ofEntry
  rw [Declaration.ofEntry_eq_of_entries hpolicy hentries]

namespace Document

variable {outcomes outcomes' : List Outcome}

theorem skipped_perm (h : outcomes.Perm outcomes') :
    (ofOutcomes outcomes).skipped.Perm (ofOutcomes outcomes').skipped :=
  h.filterMap Outcome.skipped?

theorem declarations_perm (h : outcomes.Perm outcomes') :
    (ofOutcomes outcomes).declarations.Perm (ofOutcomes outcomes').declarations :=
  h.filterMap Outcome.declared?

theorem failures_perm (h : outcomes.Perm outcomes') :
    (ofOutcomes outcomes).failures.Perm (ofOutcomes outcomes').failures :=
  h.filterMap Outcome.failed?

end Document

namespace Protocol

def names (p : Protocol) : List String := p.entries.map Prod.fst

/-- In two protocols with the same names, one function tells what becomes of the entries of both,
whatever stands around them. Where the second has the entries of the first in another order, it has
the same skipped names, declarations and failures in that order, and leaves the same names open. -/
theorem generate_isolated {p q : Protocol} (h : ∀ name, name ∈ p.names ↔ name ∈ q.names)
    (anonymousFields : AnonymousFields) : ∃ outcome : String × Json → Outcome, ∃ d d' : Document,
      p.outcomes anonymousFields = p.entries.map outcome ∧
      q.outcomes anonymousFields = q.entries.map outcome ∧
      p.generate ⟨anonymousFields, .skipEntry⟩ = .ok d ∧ d = .ofOutcomes (p.entries.map outcome) ∧
      q.generate ⟨anonymousFields, .skipEntry⟩ = .ok d' ∧
      d' = .ofOutcomes (q.entries.map outcome) ∧
      (p.entries.Perm q.entries →
        d.skipped.Perm d'.skipped ∧ d.declarations.Perm d'.declarations ∧
          d.failures.Perm d'.failures ∧ d.unresolved = d'.unresolved) := by
  have houtcome (x : String × Json) : Outcome.ofEntry (q.typer anonymousFields) x.1 x.2 =
      Outcome.ofEntry (p.typer anonymousFields) x.1 x.2 :=
    Outcome.ofEntry_eq_of_entries (by rfl) h x.1 x.2
  have hq : q.outcomes anonymousFields =
      q.entries.map fun x => Outcome.ofEntry (p.typer anonymousFields) x.1 x.2 :=
    List.map_congr_left fun x _ => houtcome x
  have hgenerate : q.generate ⟨anonymousFields, .skipEntry⟩ =
      .ok (.ofOutcomes (q.outcomes anonymousFields)) := rfl
  rw [hq] at hgenerate
  refine ⟨_, _, _, rfl, hq, rfl, rfl, hgenerate, rfl, fun hperm => ?_⟩
  have houtcomes := hperm.map fun x => Outcome.ofEntry (p.typer anonymousFields) x.1 x.2
  have hdeclarations := Document.declarations_perm houtcomes
  have hskipped := Document.skipped_perm houtcomes
  exact ⟨hskipped, hdeclarations, Document.failures_perm houtcomes,
    Document.unresolved_eq_of_perm hdeclarations hskipped⟩

/-- A packet that refers to `Mode`, before and after its neighbours change places; and among other
neighbours of the same names, of which other ones fail. -/
theorem generate_isolated_of_packet :
    let mode : Json := .arr [.str "bitflags", .obj [("flags", .arr [.str "on", .str "off"])]]
    let field : Json := .obj [("name", .str "mode"), ("type", .str "Mode")]
    let packet : String × Json := ("packet", .arr [.str "container", .arr [field]])
    let p : Protocol := ⟨[("Mode", mode), ("u8", .str "native"), packet, ("rest", .null)]⟩
    let q : Protocol := ⟨[("rest", .null), packet, ("u8", .str "native"), ("Mode", mode)]⟩
    let r : Protocol := ⟨[("rest", mode), packet, ("u8", .bool true), ("Mode", .null)]⟩
    (∀ name, name ∈ p.names ↔ name ∈ q.names) ∧ (∀ name, name ∈ p.names ↔ name ∈ r.names) ∧
      p.entries.Perm q.entries ∧
      (∃ d d', p.generate ⟨.omit, .skipEntry⟩ = .ok d ∧ q.generate ⟨.omit, .skipEntry⟩ = .ok d' ∧
        d.declarations.Perm d'.declarations ∧ d.failures.Perm d'.failures ∧
        d.unresolved = d'.unresolved) ∧
      ∃ o, (p.outcomes .omit)[2]? = some o ∧ (r.outcomes .omit)[1]? = some o := by
  intro mode field packet p q r
  have hperm : p.entries.Perm q.entries := p.entries.reverse_perm.symm
  have hq (name : String) : name ∈ p.names ↔ name ∈ q.names := (hperm.map Prod.fst).mem_iff
  refine ⟨hq, hq, hperm, ?_, ?_⟩
  · obtain ⟨outcome, d, d', -, -, hp, -, hq, -, hsame⟩ := generate_isolated hq .omit
    obtain ⟨-, hdeclarations, hfailures, hunresolved⟩ := hsame hperm
    exact ⟨d, d', hp, hq, hdeclarations, hfailures, hunresolved⟩
  · obtain ⟨outcome, -, -, hp, hr, -⟩ := generate_isolated (q := r) hq .omit
    exact ⟨outcome packet, by rw [hp]; rfl, by rw [hr]; rfl⟩

end Protocol
end PacketTypings
