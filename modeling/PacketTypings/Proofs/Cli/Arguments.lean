import PacketTypings.Cli.Arguments
import PacketTypings.Proofs.Results

/-! What the arguments ask for. Main statement: a run stops at the first failure exactly if
`--fail-fast` stands before the mark that ends the options. -/

namespace PacketTypings.Cli

/-- Only `--fail-fast` itself reads as that flag. -/
theorem Argument.eq_of_ofText_failFast {text name : String}
    (h : ofText text = .option name (some (.flag .failFast)) none) : text = "--fail-fast" := by
  unfold ofText at h
  split at h
  · cases h
  · next cs _ hcs =>
    injection h with _ hname hvalue
    have hrest : cs.dropWhile (· != '=') = [] := by
      cases hdrop : cs.dropWhile (· != '=') with
      | nil => rfl
      | cons c rest => simp [hdrop] at hvalue
    have hall : cs.takeWhile (· != '=') = cs := by
      simpa [hrest] using List.takeWhile_append_dropWhile (p := (· != '=')) (l := cs)
    have hlong : String.ofList cs = "fail-fast" := by
      rw [hall] at hname
      unfold longName? at hname
      split at hname <;> first | assumption | cases hname
    apply String.toList_injective
    rw [hcs, ← String.toList_ofList (l := cs), hlong]
    rfl
  · next c cs _ _ =>
    injection h with _ hname
    unfold shortName? at hname
    split at hname <;> cases hname
  · cases h

theorem Argument.eq_of_ofText_endOfOptions {text : String} (h : ofText text = .endOfOptions) :
    text = "--" := by
  unfold ofText at h
  split at h
  · next hdashes => exact String.toList_injective hdashes
  · cases h
  · cases h
  · cases h

/-- The arguments before the mark that ends the options, one after the other. -/
theorem mem_takeWhile_cons {text flag : String} {rest : List String}
    (h : Argument.ofText text ≠ .endOfOptions) :
    flag ∈ (text :: rest).takeWhile (· ≠ "--") ↔
      flag = text ∨ flag ∈ rest.takeWhile (· ≠ "--") := by
  have hmark : text ≠ "--" := by
    rintro rfl
    exact h rfl
  rw [List.takeWhile_cons_of_pos (by simpa using hmark), List.mem_cons]

theorem ne_failFast_of_ofText {text : String} {a : Argument} (h : Argument.ofText text = a)
    (ha : ∀ name, a ≠ .option name (some (.flag .failFast)) none) : "--fail-fast" ≠ text := by
  rintro rfl
  exact ha _ h.symm

namespace Found

variable {f g : Found} {i : Invocation String}

theorem failFast_of_setInput {path : String} (h : f.setInput path = .ok g) :
    g.failFast = f.failFast := by
  unfold setInput at h
  split at h
  · cases h
  · split at h <;> cases h
    rfl

theorem failFast_of_set {value : String} {s : Setting} (h : f.set value s = .ok g) :
    g.failFast = f.failFast := by
  cases s <;> unfold set at h <;> dsimp only at h
  · split at h
    · cases h
    · split at h <;> cases h
      rfl
  · split at h <;> cases h
    rfl

theorem failFast_of_request (h : f.request = .ok (.run i)) : i.failFast = f.failFast := by
  unfold request at h
  split at h <;> cases h
  rfl

end Found

/-- Behind the mark nothing is a flag. -/
theorem failFast_of_readPaths {f : Found} {arguments : List String} {i : Invocation String}
    (h : readPaths f arguments = .ok (.run i)) : i.failFast = f.failFast := by
  induction arguments generalizing f with
  | nil => exact Found.failFast_of_request h
  | cons text rest ih =>
    obtain ⟨g, hg, h⟩ := bind_eq_ok_iff.1 h
    rw [ih h, Found.failFast_of_setInput hg]

/-- Reading on from what was found, the flag is set if it was found or is read. -/
theorem failFast_of_read {f : Found} {arguments : List String} {i : Invocation String}
    (h : read f arguments = .ok (.run i)) : i.failFast = true ↔
      f.failFast = true ∨ "--fail-fast" ∈ arguments.takeWhile (· ≠ "--") := by
  fun_induction read f arguments with
  | case1 f => simp [Found.failFast_of_request h]
  | case2 f text rest hmark =>
    obtain rfl := Argument.eq_of_ofText_endOfOptions hmark
    simp [failFast_of_readPaths h]
  | case3 f text rest path hplain ih =>
    obtain ⟨g, hg, h⟩ := bind_eq_ok_iff.1 h
    rw [ih g h, Found.failFast_of_setInput hg, mem_takeWhile_cons (by simp [hplain])]
    simp [ne_failFast_of_ofText hplain]
  | case5 f text rest name s value hoption ih =>
    obtain ⟨g, hg, h⟩ := bind_eq_ok_iff.1 h
    rw [ih g h, Found.failFast_of_set hg, mem_takeWhile_cons (by simp [hoption])]
    simp [ne_failFast_of_ofText hoption]
  | case7 f text name s hoption next rest value hplain ih =>
    obtain ⟨g, hg, h⟩ := bind_eq_ok_iff.1 h
    rw [ih g h, Found.failFast_of_set hg, mem_takeWhile_cons (by simp [hoption]),
      mem_takeWhile_cons (by simp [hplain])]
    simp [ne_failFast_of_ofText hoption, ne_failFast_of_ofText hplain]
  | case13 f text rest name value? _ _ hoption ih =>
    rw [ih h, mem_takeWhile_cons (by simp [hoption])]
    simp [ne_failFast_of_ofText hoption]
  | case16 f text rest name value? hvalue _ hoption ih =>
    obtain rfl : value? = none := by simpa using hvalue
    rw [ih h, mem_takeWhile_cons (by simp [hoption])]
    simp [Argument.eq_of_ofText_failFast hoption]
  | case4 | case6 | case8 | case9 | case10 | case11 | case12 | case14 | case15 => cases h

/-- A run stops at the first failure exactly if the arguments before the mark say so. -/
theorem Request.failFast_of_ofArguments {arguments : List String} {i : Invocation String}
    (h : ofArguments arguments = .ok (.run i)) :
    i.failFast = true ↔ "--fail-fast" ∈ arguments.takeWhile (· ≠ "--") := by
  simpa [Found.nothing] using failFast_of_read h

end PacketTypings.Cli
