import PacketTypings.Cli.Directory
import PacketTypings.Proofs.Cli.Arguments
import PacketTypings.Proofs.Cli.System

/-! Reading and writing files in the small directory. Main statement: with or without a limit to the
room on its disk, the directory does what is documented. -/

namespace PacketTypings.Cli
namespace Directory

/-- The name of a file right in the directory. -/
structure IsName (name : String) : Prop where
  proper : name ∉ ["", ".", ".."]
  slashless : '/' ∉ name.toList
  short : name.utf8ByteSize ≤ longestName

namespace IsName

variable {name : String}

theorem ofPath_eq (h : IsName name) : Way.ofPath name = .ok ⟨.here, [name], false⟩ := by
  have hempty : name ≠ "" := fun heq => h.proper (by simp [heq])
  have hchars : name.toList ≠ [] := fun hnil => hempty (String.toList_injective hnil)
  have hshort : ¬ longestPath < name.utf8ByteSize := by
    have := h.short
    unfold longestPath longestName at *
    omega
  have hhead : name.toList.head? ≠ some '/' := fun heq =>
    h.slashless (List.mem_of_mem_head? heq)
  have hlast : name.toList.getLast? ≠ some '/' := fun heq =>
    h.slashless (List.mem_of_getLast? heq)
  simp [Way.ofPath, hshort, hempty, List.splitOn_eq_singleton h.slashless, hchars, hhead, hlast]

theorem find_eq (h : IsName name) (d : Directory) :
    d.find .here name = .ok ((d.get? name).elim .missing .file) := by
  have hdot : name ≠ "." := fun heq => h.proper (by simp [heq])
  have hdots : name ≠ ".." := fun heq => h.proper (by simp [heq])
  rw [find, if_neg (Nat.not_lt.2 h.short)]
  unfold entry
  split <;> simp_all

/-- A name is read as the file of that name. -/
theorem read_eq (h : IsName name) (d : Directory) :
    d.read name = (d.get? name).elim (.error .notFound) decode := by
  rw [read, h.ofPath_eq]
  change (d.find .here name >>= _) = _
  rw [h.find_eq]
  cases d.get? name <;> rfl

/-- A text written at a name goes to the file of that name. -/
theorem outlet_eq (h : IsName name) (d : Directory) : d.outlet name = .ok (some name) := by
  rw [outlet, h.ofPath_eq]
  change (d.find .here name >>= _) = _
  rw [h.find_eq]
  cases d.get? name <;> rfl

end IsName

theorem lookup_filter_of_ne {name other : String} (h : name ≠ other)
    (files : List (String × ByteArray)) :
    (files.filter fun file => file.1 ≠ name).lookup other = files.lookup other := by
  induction files with
  | nil => rfl
  | cons file rest ih =>
    rw [List.filter_cons]
    split
    · rw [List.lookup_cons, List.lookup_cons, ih]
    · next hfile =>
      have hname : file.1 = name := by simpa using hfile
      have hother : (other == name) = false := beq_eq_false_iff_ne.2 h.symm
      rw [ih, List.lookup_cons, hname, hother]

theorem get?_set (d : Directory) (name : String) (content : ByteArray) (other : String) :
    (d.set name content).get? other = if name = other then some content else d.get? other := by
  rw [get?, set, List.lookup_cons]
  by_cases h : name = other
  · rw [if_pos h, beq_iff_eq.2 h.symm]
  · rw [if_neg h, beq_eq_false_iff_ne.2 (Ne.symm h)]
    exact lookup_filter_of_ne h d.files

/-- A file is known by its name, and the null device and all that is not here is no file. -/
def view : FileView String Directory String where
  content? := get?
  target? d path := (d.outlet path).toOption.join

@[simp]
theorem view_content? (d : Directory) (name : String) : view.content? d name = d.get? name := rfl

variable {room? : Option Nat} {d : Directory} {path text name : String}

theorem target?_eq_some_iff :
    view.target? d path = some name ↔ d.outlet path = .ok (some name) := by
  change (d.outlet path).toOption.join = some name ↔ _
  rcases d.outlet path with _ | _ | _ <;> simp [Except.toOption]

theorem write_of_fits (h : view.target? d path = some name)
    (hfits : text.toUTF8.size ≤ room?.getD text.toUTF8.size) :
    write room? path text d = (.ok (), d.set name text.toUTF8) := by
  rw [write, target?_eq_some_iff.1 h]
  exact if_pos hfits

theorem write_of_cut (h : view.target? d path = some name)
    (hcut : ¬ text.toUTF8.size ≤ room?.getD text.toUTF8.size) : write room? path text d =
      (.error .noSpace, d.set name (text.toUTF8.extract 0 (room?.getD text.toUTF8.size))) := by
  rw [write, target?_eq_some_iff.1 h]
  exact if_neg hcut

theorem get?_of_write_eq_ok (hwrite : (write room? path text d).1 = .ok ())
    (h : view.target? d path = some name) :
    (write room? path text d).2.get? name = some text.toUTF8 := by
  by_cases hfits : text.toUTF8.size ≤ room?.getD text.toUTF8.size
  · simp only [write_of_fits h hfits, get?_set, if_true]
  · rw [write_of_cut h hfits] at hwrite
    cases hwrite

theorem get?_of_write_ne_ok (hwrite : (write room? path text d).1 ≠ .ok ())
    (h : view.target? d path = some name) : ∃ n,
      (write room? path text d).2.get? name = some (text.toUTF8.extract 0 n) := by
  by_cases hfits : text.toUTF8.size ≤ room?.getD text.toUTF8.size
  · exact absurd (congrArg Prod.fst (write_of_fits h hfits)) hwrite
  · refine ⟨room?.getD text.toUTF8.size, ?_⟩
    simp only [write_of_cut h hfits, get?_set, if_true]

theorem get?_write_of_ne (h : view.target? d path ≠ some name) :
    (write room? path text d).2.get? name = d.get? name := by
  rw [ne_eq, target?_eq_some_iff] at h
  unfold write
  split
  · rfl
  · rfl
  · next other hother =>
    have hne : other ≠ name := fun heq => h (heq ▸ hother)
    dsimp only
    split <;> simp [get?_set, hne]

/-- The directory is a system as the program expects it. -/
theorem documented (room? : Option Nat) :
    (system room?).Documented view "--fail-fast" "--" where
  failFast_iff h := Request.failFast_of_ofArguments (toOption_eq_some_iff.1 h)
  replaced := get?_of_write_eq_ok
  cutShort hwrite h := .inr (get?_of_write_ne_ok hwrite h)
  untouched := get?_write_of_ne

end Directory
end PacketTypings.Cli
