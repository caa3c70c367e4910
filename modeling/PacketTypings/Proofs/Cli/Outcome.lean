import PacketTypings.Proofs.Cli.Files
import PacketTypings.Proofs.Document.Policies

/-! How the program ends and which files it leaves, in every system that does what is documented.
Main statement: a run succeeds exactly if its input loads, all of its entries compile and the write
of the document succeeds; and it writes exactly if the input loads, and failures are left out or
there are none. A write that fails may leave its own file cut short, and no other file changes. -/

namespace PacketTypings

namespace Protocol

/-- Every entry that is not skipped has a declaration. -/
def Compiles (p : Protocol) (anonymousFields : AnonymousFields) : Prop :=
  ∀ x ∈ p.entries, Outcome.isSkipped x.1 x.2 = false →
    ∃ declaration, Declaration.ofEntry (p.typer anonymousFields) x.1 x.2 = .ok declaration

/-- If failures are left out there is a document, and it tells whether there are any. -/
theorem exists_document (p : Protocol) (anonymousFields : AnonymousFields) : ∃ document,
    p.generate ⟨anonymousFields, .skipEntry⟩ = .ok document ∧
      p.generate ⟨anonymousFields, .abort⟩ =
        document.failures.head?.elim (.ok document) .error ∧
      (document.isComplete = true ↔ p.Compiles anonymousFields) := by
  obtain ⟨document, hskip, -, habort⟩ :=
    Document.runs_agree (p.typer anonymousFields) p.entries
  obtain ⟨document', hrun, haccounts⟩ :=
    (Document.Accounts.empty (p.typer anonymousFields)).run p.entries
  cases hskip.symm.trans hrun
  refine ⟨document, ?_, ?_, haccounts.isComplete_iff⟩
  · rw [generate_eq_foldlM, hskip]
  · rw [generate_eq_foldlM, habort]

variable {p : Protocol} {options : Options} {document : Document}

/-- Under both policies the document tells whether all entries compile. -/
theorem isComplete_iff_of_generate (h : p.generate options = .ok document) :
    document.isComplete = true ↔ p.Compiles options.anonymousFields := by
  obtain ⟨anonymousFields, onFailure⟩ := options
  obtain ⟨document', hskip, habort, hcomplete⟩ := p.exists_document anonymousFields
  cases onFailure with
  | skipEntry =>
    cases hskip.symm.trans h
    exact hcomplete
  | abort =>
    rw [habort] at h
    cases hfailures : document'.failures with
    | nil =>
      rw [hfailures] at h
      cases h
      exact hcomplete
    | cons f rest =>
      rw [hfailures] at h
      cases h

theorem exists_generate_iff : (∃ document, p.generate options = .ok document) ↔
    options.onFailure = .skipEntry ∨ p.Compiles options.anonymousFields := by
  obtain ⟨anonymousFields, onFailure⟩ := options
  obtain ⟨document, hskip, habort, hcomplete⟩ := p.exists_document anonymousFields
  cases onFailure with
  | skipEntry => simp [hskip]
  | abort =>
    rw [← hcomplete, Document.isComplete, habort]
    cases document.failures <;> simp

end Protocol

namespace Cli
namespace System

variable {Argument Path Files File : Type} {s : System Argument Path Files}

/-- A run taken as far as its document. -/
theorem exists_loads_of_document? {i : Invocation Path} {files : Files} {text : String}
    {complete : Bool}
    (h : (s.document? i files).map (fun x => (x.text, x.isComplete)) = some (text, complete)) :
    ∃ p document, s.Loads i files p ∧ p.generate i.options = .ok document ∧
      document.text = text ∧ (complete = true ↔ p.Compiles i.options.anonymousFields) := by
  obtain ⟨document, hdocument, h⟩ := Option.map_eq_some_iff.1 h
  obtain ⟨p, hload, hdocument⟩ := document?_eq_some_iff.1 hdocument
  cases h
  exact ⟨p, document, hload, hdocument, rfl, Protocol.isComplete_iff_of_generate hdocument⟩

variable [DecidableEq Argument] {view : FileView Path Files File} {failFast mark : Argument}

theorem Documented.skipEntry_iff (laws : s.Documented view failFast mark)
    {arguments : List Argument} {i : Invocation Path}
    (h : s.request? arguments = some (.run i)) :
    i.options.onFailure = .skipEntry ↔ failFast ∉ arguments.takeWhile (· ≠ mark) := by
  rw [← laws.failFast_iff h]
  cases hfailFast : i.failFast <;> simp [Invocation.options, hfailFast]

/-- What becomes of a list of arguments that is accepted. If it asks for help, nothing else happens.
If it asks for a run, the exit code is zero exactly if the input loads, all entries compile and the
write of the document succeeds. If the input loads, and the flag is not given or all entries
compile, the document is written, once: its file then holds the text of the document, or, if the
write fails, what it held or the beginning of that text; and all other files hold what they held. In
every other case the files are as they were. -/
theorem start_outcome (laws : s.Documented view failFast mark) (arguments : List Argument)
    (files : Files) :
    (s.request? arguments = some .help → s.start arguments files = (0, files)) ∧
    ∀ i, s.request? arguments = some (.run i) →
      let after := (s.start arguments files).2
      ((s.start arguments files).1 = 0 ↔ ∃ p document, s.Loads i files p ∧
        p.Compiles i.options.anonymousFields ∧ p.generate i.options = .ok document ∧
        (s.write i.output document.text files).1 = .ok ()) ∧
      (∀ p, s.Loads i files p →
        failFast ∉ arguments.takeWhile (· ≠ mark) ∨ p.Compiles i.options.anonymousFields →
        ∃ document, p.generate i.options = .ok document ∧
          after = (s.write i.output document.text files).2 ∧
          (∀ f, view.target? files i.output = some f →
            ((s.write i.output document.text files).1 = .ok () →
              view.content? after f = some document.text.toUTF8) ∧
            ((s.write i.output document.text files).1 ≠ .ok () →
              view.content? after f = view.content? files f ∨
                ∃ n, view.content? after f = some (document.text.toUTF8.extract 0 n))) ∧
          ∀ f, view.target? files i.output ≠ some f →
            view.content? after f = view.content? files f) ∧
      ((∀ p, s.Loads i files p → failFast ∈ arguments.takeWhile (· ≠ mark) ∧
        ¬ p.Compiles i.options.anonymousFields) → after = files) := by
  refine ⟨fun h => by rw [start, h], fun i h => ?_⟩
  dsimp only
  simp only [start_of_run h, Report.exitCode_eq_zero_iff, ← laws.skipEntry_iff h]
  refine ⟨?_, fun p hload hgo => ?_, fun hstop => (run_of_no_document ?_).2⟩
  · rw [succeeded_run_iff]
    constructor
    · rintro ⟨document, hdocument, hwrite, hcomplete⟩
      obtain ⟨p, hload, hdocument⟩ := document?_eq_some_iff.1 hdocument
      exact ⟨p, document, hload, (Protocol.isComplete_iff_of_generate hdocument).1 hcomplete,
        hdocument, hwrite⟩
    · rintro ⟨p, document, hload, hcompiles, hdocument, hwrite⟩
      exact ⟨document, document?_eq_some_iff.2 ⟨p, hload, hdocument⟩, hwrite,
        (Protocol.isComplete_iff_of_generate hdocument).2 hcompiles⟩
  · obtain ⟨document, hdocument⟩ := Protocol.exists_generate_iff.2 hgo
    rw [(run_of_document (document?_eq_some_iff.2 ⟨p, hload, hdocument⟩)).2]
    exact ⟨document, hdocument, rfl,
      fun f htarget => ⟨(laws.replaced · htarget), (laws.cutShort · htarget)⟩,
      fun f => laws.untouched⟩
  · refine Option.eq_none_iff_forall_ne_some.2 fun document hdocument => ?_
    obtain ⟨p, hload, hdocument⟩ := document?_eq_some_iff.1 hdocument
    obtain ⟨hgiven, hrefused⟩ := hstop p hload
    rcases Protocol.exists_generate_iff.1 ⟨document, hdocument⟩ with hskip | hcompiles
    · exact (laws.skipEntry_iff h).1 hskip hgiven
    · exact hrefused hcompiles

/-- One entry of `p.json` compiles and one does not: the output is written all the same, unless the
flag is given. Without the other entry the run succeeds, and without an input nothing happens. -/
theorem start_outcome_of_refused_entry :
    let s := Directory.system none
    let d : Directory := ⟨[
      ("p.json", "\x7b\"a\":[\"container\",[]],\"b\":1\x7d".toUTF8),
      ("clean.json", "\x7b\"a\":[\"container\",[]]\x7d".toUTF8),
      ("typings.d.ts", "old".toUTF8)]⟩
    let text := "export type a = \x7b\x7d\n\n\n"
    ((s.start ["p.json"] d).1 ≠ 0 ∧
      (s.start ["p.json"] d).2.get? "typings.d.ts" = some text.toUTF8 ∧
      (s.start ["p.json"] d).2.get? "p.json" = d.get? "p.json") ∧
    ((s.start ["p.json", "--fail-fast"] d).1 ≠ 0 ∧ (s.start ["p.json", "--fail-fast"] d).2 = d) ∧
    ((s.start ["--fail-fast", "clean.json"] d).1 = 0 ∧
      (s.start ["--fail-fast", "clean.json"] d).2.get? "typings.d.ts" = some text.toUTF8) ∧
    (s.start ["missing.json"] d).1 ≠ 0 ∧ (s.start ["missing.json"] d).2 = d := by
  intro s d text
  let i (input : String) (failFast : Bool) : Invocation String :=
    ⟨input, "typings.d.ts", "", false, failFast⟩
  have hp : (s.document? (i "p.json" false) d).map (fun x => (x.text, x.isComplete)) =
      some (text, false) := by
    decide +kernel
  have hclean : (s.document? (i "clean.json" true) d).map (fun x => (x.text, x.isComplete)) =
      some (text, true) := by
    decide +kernel
  obtain ⟨p, document, hload, hdocument, htext, hcompiles⟩ := exists_loads_of_document? hp
  have hrefused (failFast : Bool) (p' : Protocol) (hload' : s.Loads (i "p.json" failFast) d p') :
      ¬ p'.Compiles .omit := by
    cases hload.unique hload'
    exact fun h => nomatch hcompiles.2 h
  have htarget : Directory.view.target? d "typings.d.ts" = some "typings.d.ts" :=
    Directory.target?_eq_some_iff.2
      (Directory.IsName.outlet_eq ⟨by decide, by decide, by decide⟩ d)
  have hwrite (text : String) : (s.write "typings.d.ts" text d).1 = .ok () :=
    congrArg Prod.fst (Directory.write_of_fits htarget (Nat.le_refl _))
  have laws := Directory.documented none
  refine ⟨?_, ?_, ?_, ?_⟩
  · obtain ⟨hexit, hwritten, -⟩ := (start_outcome laws ["p.json"] d).2 (i "p.json" false) rfl
    obtain ⟨document', hdocument', -, houtput, hothers⟩ := hwritten p hload (.inl (by decide))
    cases hdocument.symm.trans hdocument'
    simp only [Directory.view_content?] at houtput hothers
    refine ⟨fun hzero => ?_, ?_, hothers "p.json" (by simp [i, htarget])⟩
    · obtain ⟨p', -, hload', hcompiles', -⟩ := hexit.1 hzero
      exact hrefused _ p' hload' hcompiles'
    · rw [← htext]
      exact (houtput _ htarget).1 (hwrite _)
  · obtain ⟨hexit, -, hkept⟩ :=
      (start_outcome laws ["p.json", "--fail-fast"] d).2 (i "p.json" true) rfl
    refine ⟨fun hzero => ?_, hkept fun p' hload' => ?_⟩
    · obtain ⟨p', -, hload', hcompiles', -⟩ := hexit.1 hzero
      exact hrefused _ p' hload' hcompiles'
    · exact ⟨by decide, hrefused _ p' hload'⟩
  · obtain ⟨p, document, hload, hdocument, htext, hcompiles⟩ := exists_loads_of_document? hclean
    obtain ⟨hexit, hwritten, -⟩ :=
      (start_outcome laws ["--fail-fast", "clean.json"] d).2 (i "clean.json" true) rfl
    obtain ⟨document', hdocument', -, houtput, -⟩ := hwritten p hload (.inr (hcompiles.1 rfl))
    cases hdocument.symm.trans hdocument'
    simp only [Directory.view_content?] at houtput
    refine ⟨hexit.2 ⟨p, document, hload, hcompiles.1 rfl, hdocument, hwrite _⟩, ?_⟩
    rw [← htext]
    exact (houtput _ htarget).1 (hwrite _)
  · obtain ⟨hexit, -, hkept⟩ :=
      (start_outcome laws ["missing.json"] d).2 (i "missing.json" false) rfl
    have hmissing (p : Protocol) : ¬ s.Loads (i "missing.json" false) d p := by
      rintro ⟨text, root, hread, -⟩
      cases (Directory.IsName.read_eq ⟨by decide, by decide, by decide⟩ d).symm.trans hread
    refine ⟨fun hzero => ?_, hkept fun p hload => absurd hload (hmissing p)⟩
    obtain ⟨p, -, hload, -⟩ := hexit.1 hzero
    exact hmissing p hload

/-- The input loads, all entries compile and the output can be written; but if help is asked for as
well, the exit code is zero and the output is as it was. And where a file has room for six bytes,
the write fails, but what the output held is lost. -/
theorem output_left_by_help_and_cut_by_full_disk :
    let s := Directory.system none
    let full := Directory.system (some 6)
    let source := "\x7b\"types\":\x7b\"a\":[\"container\",[\x7b\"name\":\"x\"," ++
      "\"type\":\"u8\"\x7d]]\x7d\x7d"
    let d : Directory := ⟨[("p.json", source.toUTF8), ("typings.d.ts", "old".toUTF8)]⟩
    let i : Invocation String := ⟨"p.json", "typings.d.ts", "", false, false⟩
    let text := "export type a = \x7b\n  x: number\n\x7d\n\n\n"
    (∃ p document, s.Loads i d p ∧ p.Compiles i.options.anonymousFields ∧
      p.generate i.options = .ok document ∧ document.text = text) ∧
    (s.request? ["p.json"] = some (.run i) ∧ s.request? ["p.json", "-h"] = some .help ∧
      (s.start ["p.json", "-h"] d).1 = 0 ∧
      (s.start ["p.json", "-h"] d).2.get? "typings.d.ts" = some "old".toUTF8 ∧
      (s.start ["p.json"] d).1 = 0) ∧
    full.request? ["p.json"] = some (.run i) ∧ (full.start ["p.json"] d).1 = 1 ∧
      (full.start ["p.json"] d).2.get? "typings.d.ts" = some "export".toUTF8 := by
  intro s full source d i text
  have hdocument : (s.document? i d).map (fun x => (x.text, x.isComplete)) = some (text, true) := by
    decide +kernel
  obtain ⟨p, document, hload, hgenerate, htext, hcompiles⟩ := exists_loads_of_document? hdocument
  refine ⟨⟨p, document, hload, hcompiles.1 rfl, hgenerate, htext⟩,
    ⟨rfl, rfl, rfl, rfl, by decide +kernel⟩, rfl, by decide +kernel, by decide +kernel⟩

end System
end Cli
end PacketTypings
