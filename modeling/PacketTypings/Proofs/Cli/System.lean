import PacketTypings.Cli.System
import PacketTypings.Proofs.Results

/-! A run in a system. Main statements: a run that comes to no document leaves all files alone, and
any other run is one write of its document. -/

namespace PacketTypings.Cli

/-- How the files of a system look from outside: what each one holds, and to which of them a path
leads. A file that is not there holds nothing, and a device is no file. -/
structure FileView (Path Files File : Type) where
  content? : Files → File → Option ByteArray
  target? : Files → Path → Option File

namespace Invocation

variable {Path : Type} {shown : Path → String} {parse : String → Except String Json}
  {i : Invocation Path} {source : Except FileError String}

theorem load_eq_ok_iff {p : Protocol} : i.load shown parse source = .ok p ↔
    ∃ text root, source = .ok text ∧ parse text = .ok root ∧
      Protocol.ofJson root i.namespaceText = .ok p := by
  simp only [load, bind_eq_ok_iff, mapError_eq_ok_iff]
  constructor
  · rintro ⟨text, hread, root, hparse, hload⟩
    exact ⟨text, root, hread, hparse, hload⟩
  · rintro ⟨text, root, hread, hparse, hload⟩
    exact ⟨text, hread, root, hparse, hload⟩

/-- Whatever keeps the input from loading makes the run a failure. -/
theorem succeeded_of_load_eq_error {r : Report} (h : i.load shown parse source = .error r) :
    r.succeeded = false := by
  simp only [load, bind_eq_error_iff, mapError_eq_error_iff] at h
  rcases h with ⟨e, -, rfl⟩ | ⟨text, -, ⟨e, -, rfl⟩ | ⟨root, -, e, -, rfl⟩⟩ <;> rfl

end Invocation

/-- A plan to write writes once, and what it reports depends on how that ends. -/
theorem Plan.perform_write {Path Files : Type}
    (write : Path → String → StateM Files (Except FileError Unit)) (path : Path) (text : String)
    (written : Report) (refused : FileError → Report) (files : Files) :
    (Plan.write path text written refused).perform write files =
      (match (write path text files).1 with
        | .ok () => written
        | .error e => refused e, (write path text files).2) := by
  dsimp only [perform, bind, StateT.bind]
  rcases write path text files with ⟨_ | _, after⟩ <;> rfl

theorem Report.exitCode_eq_zero_iff {r : Report} : r.exitCode = 0 ↔ r.succeeded = true := by
  cases h : r.succeeded <;> simp [exitCode, h]

namespace System

section

variable {Argument Path Files File : Type} [DecidableEq Argument]

/-- What the program relies on, of the reader of arguments and of writing a file. -/
structure Documented (s : System Argument Path Files) (view : FileView Path Files File)
    (failFast mark : Argument) : Prop where
  /-- A flag is set if it is given, and behind the mark nothing is a flag. -/
  failFast_iff : ∀ {arguments i}, s.request? arguments = some (.run i) →
    (i.failFast = true ↔ failFast ∈ arguments.takeWhile (· ≠ mark))
  /-- The file is made if it is missing, and all that it held is replaced. -/
  replaced : ∀ {path text files f}, (s.write path text files).1 = .ok () →
    view.target? files path = some f →
    view.content? (s.write path text files).2 f = some text.toUTF8
  /-- A write that fails has not begun, or it has emptied the file and perhaps written a part. -/
  cutShort : ∀ {path text files f}, (s.write path text files).1 ≠ .ok () →
    view.target? files path = some f →
    view.content? (s.write path text files).2 f = view.content? files f ∨
      ∃ n, view.content? (s.write path text files).2 f = some (text.toUTF8.extract 0 n)
  /-- Only the file at the path is written. -/
  untouched : ∀ {path text files f}, view.target? files path ≠ some f →
    view.content? (s.write path text files).2 f = view.content? files f

end

variable {Argument Path Files : Type} {s : System Argument Path Files} {i : Invocation Path}
  {files : Files} {p : Protocol}

/-- The input is read as a text, the text is that of a value, and the value has a type mapping at
the namespace. -/
def Loads (s : System Argument Path Files) (i : Invocation Path) (files : Files) (p : Protocol) :
    Prop :=
  ∃ text root, s.read i.input files = .ok text ∧ s.parse text = .ok root ∧
    Protocol.ofJson root i.namespaceText = .ok p

theorem Loads.unique {p' : Protocol} (h : s.Loads i files p) (h' : s.Loads i files p') :
    p = p' := by
  obtain ⟨text, root, hread, hparse, hload⟩ := h
  obtain ⟨text', root', hread', hparse', hload'⟩ := h'
  cases hread.symm.trans hread'
  cases hparse.symm.trans hparse'
  cases hload.symm.trans hload'
  rfl

/-- The document that a run comes to, if it comes to one. -/
def document? (s : System Argument Path Files) (i : Invocation Path) (files : Files) :
    Option Document := do
  let p ← (i.load s.shown s.parse (s.read i.input files)).toOption
  (p.generate i.options).toOption

variable {document : Document}

theorem document?_eq_some_iff : s.document? i files = some document ↔
    ∃ p, s.Loads i files p ∧ p.generate i.options = .ok document := by
  simp only [document?, Option.bind_eq_bind, Option.bind_eq_some_iff, toOption_eq_some_iff,
    Invocation.load_eq_ok_iff, Loads]

theorem run_eq (s : System Argument Path Files) (i : Invocation Path) (files : Files) :
    s.run i files = Plan.perform (m := StateM Files) s.write
      (i.plan s.shown s.parse (s.read i.input files)) files :=
  rfl

/-- A run that comes to no document ends before it writes. -/
theorem run_of_no_document (h : s.document? i files = none) :
    (s.run i files).1.succeeded = false ∧ (s.run i files).2 = files := by
  rw [run_eq, Invocation.plan]
  cases hload : i.load s.shown s.parse (s.read i.input files) with
  | error r => exact ⟨Invocation.succeeded_of_load_eq_error hload, rfl⟩
  | ok p =>
    dsimp only
    rw [Invocation.planFor]
    cases hdocument : p.generate i.options with
    | error f => exact ⟨rfl, rfl⟩
    | ok document => simp [document?, hload, hdocument, Except.toOption] at h

/-- A run that comes to a document writes it, once. -/
theorem run_of_document (h : s.document? i files = some document) :
    ((s.run i files).1.succeeded = true ↔
      (s.write i.output document.text files).1 = .ok () ∧ document.isComplete = true) ∧
    (s.run i files).2 = (s.write i.output document.text files).2 := by
  obtain ⟨p, hload, hdocument⟩ := document?_eq_some_iff.1 h
  rw [run_eq, Invocation.plan, Invocation.load_eq_ok_iff.2 hload]
  dsimp only
  rw [Invocation.planFor, hdocument]
  dsimp only
  rw [Plan.perform_write]
  cases s.write i.output document.text files with
  | mk result after => cases result <;> simp [failedReport]

theorem succeeded_run_iff : (s.run i files).1.succeeded = true ↔ ∃ document,
    s.document? i files = some document ∧
      (s.write i.output document.text files).1 = .ok () ∧ document.isComplete = true := by
  cases h : s.document? i files with
  | none => simp [run_of_no_document h]
  | some document => simp [run_of_document h]

theorem start_of_run {arguments : List Argument} (h : s.request? arguments = some (.run i)) :
    s.start arguments files = ((s.run i files).1.exitCode, (s.run i files).2) := by
  unfold start
  rw [h]
  rfl

end System
end PacketTypings.Cli
