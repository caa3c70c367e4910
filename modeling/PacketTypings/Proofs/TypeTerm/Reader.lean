import PacketTypings.Proofs.TypeTerm.Alternatives
import PacketTypings.Proofs.TypeTerm.Spelling

/-! Reading a written type. Brackets bind tighter than `&`, `&` tighter than `|`, parentheses group,
and a member of a record ends with its line. Main statement: the text of a type is read as what the
type says where each operand stands that is not in parentheses. -/

namespace PacketTypings
namespace TypeText

/-- An open bracket, with what was read before it. -/
inductive Frame where
  | group (before : Alternatives)
  | tuple (before : Alternatives) (elements : List Tree)
  | member (before : Alternatives) (members : List (String × Tree)) (key : String)

/-- What may come next, in which brackets and after what. -/
inductive State where
  | operand (outer : List Frame) (read : Alternatives)
  | operator (outer : List Frame) (read : Alternatives)
  /-- Behind an opening bracket that follows an operand. -/
  | bracket (outer : List Frame) (read : Alternatives)
  | key (outer : List Frame) (read : Alternatives) (members : List (String × Tree))
  | colon (outer : List Frame) (read : Alternatives) (members : List (String × Tree))
      (key : String)

namespace State

def step : State → Token → Option State
  | operand outer a, .word name => some (operator outer (a.and (.one (.word name))))
  | operand outer a, .literal value => some (operator outer (a.and (.one (.literal value))))
  | operand outer a, .parenOpen => some (operand (.group a :: outer) .none)
  | operand outer a, .bracketOpen => some (operand (.tuple a [] :: outer) .none)
  | operand outer a, .braceOpen => some (key outer a [])
  | operator outer a, .bar => some (operand outer (a.or .none))
  | operator outer a, .ampersand => some (operand outer a)
  | operator outer a, .bracketOpen => some (bracket outer a)
  | operator (.group before :: outer) a, .parenClose =>
    some (operator outer (before.and (.one a.tree)))
  | operator (.tuple before elements :: outer) a, .comma =>
    some (operand (.tuple before (elements ++ [a.tree]) :: outer) .none)
  | operator (.tuple before elements :: outer) a, .bracketClose =>
    some (operator outer (before.and (.one (.tuple (elements ++ [a.tree])))))
  | operator (.member before members k :: outer) a, .lineEnd =>
    some (key outer before (members ++ [(k, a.tree)]))
  | bracket outer a, .bracketClose => a.bracketed.map (operator outer)
  | key outer a members, .word k => some (colon outer a members k)
  | key outer a members, .literal k => some (colon outer a members k)
  | key outer a members, .lineEnd => some (key outer a members)
  | key outer a members, .braceClose => some (operator outer (a.and (.one (.record members))))
  | colon outer a members k, .colon => some (operand (.member a members k :: outer) .none)
  | _, _ => none

def run (s : State) (ts : List Token) : Option State := ts.foldlM step s

/-- A text ends behind an operand and with every bracket closed. -/
def result? : State → Option Tree
  | operator [] a => some a.tree
  | _ => none

theorem run_cons_of_step {s s' : State} {t : Token} (h : s.step t = some s') (ts : List Token) :
    s.run (t :: ts) = s'.run ts := by
  rw [run, List.foldlM_cons, h]
  rfl

theorem run_append_of_run {s s' : State} {ts : List Token} (h : s.run ts = some s')
    (us : List Token) : s.run (ts ++ us) = s'.run us := by
  rw [run, List.foldlM_append, ← run, h]
  rfl

end State

/-- The tree that a text means, if it is the text of a type. -/
def parse (s : String) : Option Tree := do
  let ts ← scan .between s.toList
  let last ← (State.operand [] .none).run ts
  last.result?

end TypeText

namespace TypeTerm

open TypeText

def groundTree (name : String) : Tree :=
  if name = Ground.vector.text then .tuple [.word "number", .word "number", .word "number"]
  else .word name

def parenthesizedReading (b : Bool) (a : Alternatives) : Alternatives :=
  if b then .one a.tree else a

mutual

/-- What is read where the type stands without parentheses. -/
def reading : TypeTerm → Alternatives
  | primitive name => .one (groundTree name)
  | reference name => .one (.word name)
  | text value => .one (.literal value)
  | truth true => .one (.word "true")
  | truth false => .one (.word "false")
  | record members => .one (.record (memberReadings members))
  | array element => .one (.array element.reading.tree)
  | union [] => .one (.word "never")
  | union (t :: rest) => (partReadings rest).foldl .or t.reading
  | intersection [] => .one (.word "unknown")
  | intersection [t] => t.reading
  | intersection (t :: u :: rest) =>
    (operandReadings (u :: rest)).foldl .and (parenthesizedReading t.isCompoundUnion t.reading)
  | annotated inner _ => inner.reading

def memberReadings : List (String × TypeTerm) → List (String × Tree)
  | [] => []
  | (key, t) :: rest => (key, t.reading.tree) :: memberReadings rest

def partReadings : List TypeTerm → List Alternatives
  | [] => []
  | t :: rest => t.reading :: partReadings rest

def operandReadings : List TypeTerm → List Alternatives
  | [] => []
  | t :: rest => parenthesizedReading t.isCompoundUnion t.reading :: operandReadings rest

end

/-- The tokens of the type are read as its reading, after whatever was read before. -/
def Parsed (e : TypeTerm) : Prop := ∀ outer a,
  (State.operand outer a).run e.tokens = some (.operator outer (a.and e.reading))

theorem run_groundTokens (name : String) (outer : List Frame) (a : Alternatives) :
    (State.operand outer a).run (groundTokens name) =
      some (.operator outer (a.and (.one (groundTree name)))) := by
  unfold groundTokens groundTree
  split <;> rfl

theorem step_key (key : String) (outer : List Frame) (a : Alternatives)
    (members : List (String × Tree)) :
    (State.key outer a members).step (keyToken key) = some (.colon outer a members key) := by
  unfold keyToken
  split <;> rfl

theorem Parsed.parenthesized {e : TypeTerm} (h : e.Parsed) (b : Bool) (outer : List Frame)
    (a : Alternatives) : (State.operand outer a).run (parenthesizedTokens b e.tokens) =
      some (.operator outer (a.and (parenthesizedReading b e.reading))) := by
  cases b with
  | false => exact h outer a
  | true =>
    rw [parenthesizedTokens, if_pos rfl, State.run_cons_of_step rfl,
      State.run_append_of_run (h _ _), Alternatives.none_and]
    rfl

theorem run_alternativeTokens {parts : List TypeTerm} (h : ∀ p ∈ parts, p.Parsed)
    (outer : List Frame) (a : Alternatives) :
    (State.operator outer a).run (alternativeTokens parts) =
      some (.operator outer ((partReadings parts).foldl .or a)) := by
  induction parts generalizing a with
  | nil => rfl
  | cons t parts ih =>
    obtain ⟨ht, hparts⟩ := List.forall_mem_cons.1 h
    rw [alternativeTokens, State.run_cons_of_step rfl, State.run_append_of_run (ht _ _),
      Alternatives.or_none_and, ih hparts]
    rfl

theorem run_operandTokens {parts : List TypeTerm} (h : ∀ p ∈ parts, p.Parsed)
    (outer : List Frame) (a : Alternatives) :
    (State.operator outer a).run (operandTokens parts) =
      some (.operator outer ((operandReadings parts).foldl .and a)) := by
  induction parts generalizing a with
  | nil => rfl
  | cons t parts ih =>
    obtain ⟨ht, hparts⟩ := List.forall_mem_cons.1 h
    rw [operandTokens, State.run_cons_of_step rfl,
      State.run_append_of_run (ht.parenthesized _ _ _), ih hparts]
    rfl

theorem run_memberTokens {members : List (String × TypeTerm)} (h : ∀ m ∈ members, m.2.Parsed)
    (outer : List Frame) (a : Alternatives) (before : List (String × Tree)) :
    (State.key outer a before).run (memberTokens members) =
      some (.key outer a (before ++ memberReadings members)) := by
  induction members generalizing before with
  | nil => simp [memberTokens, memberReadings, State.run]
  | cons m members ih =>
    obtain ⟨key, t⟩ := m
    obtain ⟨ht, hmembers⟩ := List.forall_mem_cons.1 h
    rw [memberTokens, State.run_cons_of_step (step_key key outer a before),
      State.run_cons_of_step rfl, State.run_append_of_run (ht _ _), State.run_cons_of_step rfl,
      ih hmembers, Alternatives.none_and, List.append_assoc]
    rfl

theorem foldl_or_and (a b : Alternatives) (cs : List Alternatives) :
    cs.foldl .or (a.and b) = a.and (cs.foldl .or b) := by
  induction cs generalizing b with
  | nil => rfl
  | cons c cs ih => rw [List.foldl_cons, List.foldl_cons, ← Alternatives.and_or, ih]

theorem foldl_and_and (a b : Alternatives) (cs : List Alternatives) :
    cs.foldl .and (a.and b) = a.and (cs.foldl .and b) := by
  induction cs generalizing b with
  | nil => rfl
  | cons c cs ih => rw [List.foldl_cons, List.foldl_cons, Alternatives.and_assoc, ih]

/-- Brackets behind a type without parentheses take hold of all of it. -/
theorem exists_reading_eq_one {e : TypeTerm} (h : e.isLooseElement = false) :
    ∃ t, e.reading = .one t := by
  induction e with
  | union parts ih =>
    cases parts using parts_cases with
    | none => exact ⟨_, rfl⟩
    | one t => exact ih t (List.mem_singleton.2 rfl) h
    | several => simp [isLooseElement, effective, solePart?] at h
  | intersection parts ih =>
    cases parts using parts_cases with
    | none => exact ⟨_, rfl⟩
    | one t => exact ih t (List.mem_singleton.2 rfl) h
    | several => simp [isLooseElement, effective, solePart?] at h
  | annotated inner note => cases h
  | truth value => cases value <;> exact ⟨_, rfl⟩
  | primitive | reference | text | record | array => exact ⟨_, rfl⟩

theorem parenthesizedReading_isLooseElement (e : TypeTerm) :
    parenthesizedReading e.isLooseElement e.reading = .one e.reading.tree := by
  cases h : e.isLooseElement with
  | true => rfl
  | false =>
    obtain ⟨t, ht⟩ := exists_reading_eq_one h
    rw [ht]
    rfl

/-- The tokens of a type are read as its reading. -/
theorem parsed (e : TypeTerm) : e.Parsed := by
  induction e with
  | primitive name => exact run_groundTokens name
  | reference name => exact fun _ _ => rfl
  | text value => exact fun _ _ => rfl
  | truth value => cases value <;> exact fun _ _ => rfl
  | record members ih =>
    intro outer a
    cases members with
    | nil => rfl
    | cons m ms =>
      rw [tokens, State.run_cons_of_step rfl, State.run_cons_of_step rfl,
        State.run_append_of_run (run_memberTokens ih _ _ _)]
      rfl
  | array element ih =>
    intro outer a
    rw [tokens, State.run_append_of_run (ih.parenthesized _ _ _),
      parenthesizedReading_isLooseElement, State.run_cons_of_step rfl]
    refine State.run_cons_of_step ?_ []
    rw [State.step, Alternatives.bracketed_and_one]
    rfl
  | union parts ih =>
    intro outer a
    cases parts with
    | nil => rfl
    | cons t rest =>
      obtain ⟨ht, hrest⟩ := List.forall_mem_cons.1 ih
      rw [tokens, unionTokens, State.run_append_of_run (ht _ _),
        run_alternativeTokens hrest, foldl_or_and]
      rfl
  | intersection parts ih =>
    intro outer a
    cases parts using parts_cases with
    | none => rfl
    | one t => exact ih t (List.mem_singleton.2 rfl) outer a
    | several t u rest =>
      obtain ⟨ht, hrest⟩ := List.forall_mem_cons.1 ih
      rw [tokens, State.run_append_of_run (ht.parenthesized _ _ _),
        run_operandTokens hrest, foldl_and_and]
      rfl
  | annotated inner note ih => exact ih

/-- The text of a type is read as what its reading says. -/
theorem parse_chars {e : TypeTerm} (h : e.Readable) (level : Nat) :
    parse (String.ofList (e.chars level)) = some e.reading.tree := by
  have hscan : scan .between (e.chars level) = some e.tokens := by
    have := spelled_of_readable h level [] delimited_nil
    rwa [List.append_nil, scan, Mode.finish, prepend, Option.map_some, List.append_nil] at this
  rw [parse, String.toList_ofList, hscan]
  change ((State.operand [] .none).run e.tokens).bind _ = _
  rw [e.parsed, Alternatives.none_and]
  rfl

end TypeTerm
end PacketTypings
