import MapScript.Parser.Program

/-!
# Nodes without a target

The parser puts nodes into its target, and it reads them as its scope and its mode say. Only the
repetition over nodes looks at these three, and whoever begins one puts them back when it has ended.
Hence a rule does the same whatever they are, and it leaves them as it found them.

So the nodes of a place may as well be carried along by the repetition that reads them, in one form
for expressions and in one for statements. The reader of places is shown to satisfy the same
equation with these forms, and what comes later is proved about them.
-/
namespace MapScript

namespace Parser
variable {α β : Type}

theorem run_bind (p : Parser α) (f : α → Parser β) (s : ParserState) :
    (p >>= f) s = f (p s).1 (p s).2 := rfl

theorem run_modify_bind (g : ParserState → ParserState) (f : Unit → Parser β) (s : ParserState) :
    (modify g >>= f) s = f () (g s) := rfl

theorem run_get_bind (f : ParserState → Parser β) (s : ParserState) : (get >>= f) s = f s s := rfl

theorem run_current_bind (f : Token → Parser β) (s : ParserState) :
    (current >>= f) s = f s.current s := rfl

theorem run_framed (body : Parser α) (s : ParserState) :
    framed body s =
      (((body { s with frames := false :: s.frames }).1,
        (body { s with frames := false :: s.frames }).2.frames.headD false),
        { (body { s with frames := false :: s.frames }).2 with
          frames := (body { s with frames := false :: s.frames }).2.frames.tail }) := rfl

section
variable {pass : α → Parser (Pass α)} {a b : α} {s next : ParserState}

theorem repeated_of_done (h : pass a s = (.done b, next)) : repeated pass a s = (b, next) := by
  rw [repeated, h]

theorem repeated_of_again (h : pass a s = (.again b, next))
    (lt : next.rest.length < s.rest.length) : repeated pass a s = repeated pass b next := by
  rw [repeated, h]
  exact if_pos lt

theorem repeated_of_stuck (h : pass a s = (.again b, next))
    (le : ¬ next.rest.length < s.rest.length) : repeated pass a s = (b, next) := by
  rw [repeated, h]
  exact if_neg le

end

/-- What a pass yields, whether it is the last one or not. -/
def Pass.value : Pass α → α
  | .again a => a
  | .done a => a

def Pass.map (f : α → β) : Pass α → Pass β
  | .again a => .again (f a)
  | .done a => .done (f a)

/-- What every pass keeps of its value is kept by the repetition. -/
theorem repeated_value {pass : α → Parser (Pass α)} {P : α → Prop}
    (h : ∀ a, P a → ∀ s, P (pass a s).1.value) {a : α} (ha : P a) (s : ParserState) :
    P (repeated pass a s).1 := by
  fun_induction repeated pass a s with
  | case1 a s b next run =>
      have kept := h a ha s
      rwa [run] at kept
  | case2 a s b next run lt ih =>
      have kept := h a ha s
      rw [run] at kept
      exact ih kept
  | case3 a s b next run stuck =>
      have kept := h a ha s
      rwa [run] at kept

theorem run_block (nested : PlaceReader) (opener : Span) (scope : Scope) (closers : List Stop)
    (s : ParserState) :
    block nested opener scope closers s =
      match nested (.statements scope closers) { s with openers := opener :: s.openers } with
      | ((body, none), next) => ((body, none), { next with openers := next.openers.tail })
      | ((body, some stop), next) =>
        ((body, some (stop, next.current.span)),
          { next with openers := next.openers.tail }.advance) := by
  unfold block
  rw [run_modify_bind, run_bind]
  generalize nested (.statements scope closers) { s with openers := opener :: s.openers } = r
  obtain ⟨⟨body, stop⟩, next⟩ := r
  cases stop <;> rfl

end Parser

namespace ParserState
variable (target : List Node) (scope : Scope) (inExpression : Bool) (s : ParserState)

/-- The state with another target, scope and mode. -/
def within : ParserState :=
  { s with target := target, scope := scope, inExpression := inExpression }

theorem advance_within : (s.within target scope inExpression).advance =
    s.advance.within target scope inExpression := by
  unfold advance
  rw [apply_ite (within target scope inExpression)]
  rfl

theorem record_within (error : ParseError) :
    (s.within target scope inExpression).record error =
      (s.record error).within target scope inExpression := by
  unfold record
  rw [apply_ite (within target scope inExpression)]
  rfl

theorem reject_within : (s.within target scope inExpression).reject =
    s.reject.within target scope inExpression := by
  have skipped : ((s.within target scope inExpression).advance.note
      (.skipping s.current s.budget)).record (.unexpectedToken s.current) =
      ((s.advance.note (.skipping s.current s.budget)).record
        (.unexpectedToken s.current)).within target scope inExpression := by
    rw [advance_within]
    exact (s.advance.note _).record_within target scope inExpression _
  have current : (s.within target scope inExpression).current = s.current := rfl
  have budget : (s.within target scope inExpression).budget = s.budget := rfl
  unfold reject
  simp only [current, budget, skipped, apply_ite (within target scope inExpression)]
  generalize record _ (s.advance.note _) = t
  rfl

theorem markAsync_within : (s.within target scope inExpression).markAsync =
    s.markAsync.within target scope inExpression := by
  unfold markAsync
  cases frames : s.frames <;> simp [within, frames]

end ParserState

/-- The parser does the same whatever the target, the scope and the mode are, and it leaves them as
they are. -/
class Blind {α : Type} (p : Parser α) : Prop where
  run (s : ParserState) (target : List Node) (scope : Scope) (inExpression : Bool) :
    p (s.within target scope inExpression) = ((p s).1, (p s).2.within target scope inExpression)

theorem Blind.kept {α : Type} {p : Parser α} (h : Blind p) (s : ParserState) :
    (p s).2.within s.target s.scope s.inExpression = (p s).2 :=
  (congrArg Prod.snd (h.run s s.target s.scope s.inExpression)).symm

namespace Parser
variable {α β : Type}

instance (a : α) : Blind (pure a : Parser α) := ⟨fun _ _ _ _ => rfl⟩

theorem blind_bind {p : Parser α} {f : α → Parser β} (hp : Blind p) (hf : ∀ a, Blind (f a)) :
    Blind (p >>= f) where
  run s target scope inExpression := by
    rw [run_bind, run_bind, hp.run, (hf _).run]

instance (p : Parser α) (f : α → Parser β) [hp : Blind p] [hf : ∀ a, Blind (f a)] :
    Blind (p >>= f) := blind_bind hp hf

instance (c : Prop) [Decidable c] (p q : Parser α) [hp : Blind p] [hq : Blind q] :
    Blind (if c then p else q) := by
  split
  · exact hp
  · exact hq

/-- A rule may look at the state, if it sees the same whatever the target, the scope and the mode
are. -/
theorem blind_get {k : ParserState → Parser α}
    (same : ∀ s target scope inExpression, k (s.within target scope inExpression) = k s)
    (h : ∀ s, Blind (k s)) : Blind (get >>= k) where
  run s target scope inExpression := by
    rw [run_get_bind, run_get_bind, same, (h s).run]

theorem blind_modify {f : ParserState → ParserState}
    (h : ∀ s target scope inExpression, f (s.within target scope inExpression) =
      (f s).within target scope inExpression) : Blind (modify f : Parser Unit) :=
  ⟨fun s target scope inExpression => congrArg (Prod.mk ()) (h s target scope inExpression)⟩

instance : Blind current := ⟨fun _ _ _ _ => rfl⟩
instance : Blind isAborted := ⟨fun _ _ _ _ => rfl⟩
instance : Blind skipLineEnds := ⟨fun _ _ _ _ => rfl⟩
instance : Blind advance := blind_modify fun s _ _ _ => s.advance_within _ _ _
instance : Blind reject := blind_modify fun s _ _ _ => s.reject_within _ _ _

instance (event : ParseEvent) : Blind (modify (ParserState.note event) : Parser Unit) :=
  blind_modify fun _ _ _ _ => rfl

instance : Blind (modify ParserState.markAsync : Parser Unit) :=
  blind_modify fun s _ _ _ => s.markAsync_within _ _ _

instance (error : ParseError) : Blind (record error) :=
  blind_modify fun s _ _ _ => s.record_within _ _ _ error

instance (wanted : Expectation) : Blind (expected wanted) := by unfold expected; infer_instance
instance (p : Token → Bool) : Blind (eat p) := by unfold eat; infer_instance
instance (kind : TokenKind) : Blind (eatKind kind) := by unfold eatKind; infer_instance
instance (word : String) : Blind (eatKeyword word) := by unfold eatKeyword; infer_instance
instance (symbol : String) : Blind (eatOperator symbol) := by unfold eatOperator; infer_instance
instance (wanted : Expectation) (p : Token → Bool) : Blind (eatOr wanted p) := by
  unfold eatOr; infer_instance
instance : Blind name := by unfold name; infer_instance

instance (body : Parser α) [h : Blind body] : Blind (framed body) where
  run s target scope inExpression := by
    rw [run_framed, run_framed]
    exact congrArg (fun r : α × ParserState =>
      ((r.1, r.2.frames.headD false), { r.2 with frames := r.2.frames.tail }))
      (h.run { s with frames := false :: s.frames } target scope inExpression)

instance (pass : α → Parser (Pass α)) [h : ∀ a, Blind (pass a)] (a : α) :
    Blind (repeated pass a) where
  run s target scope inExpression := by
    fun_induction repeated pass a s with
    | case1 a s b next run =>
        apply repeated_of_done
        rw [(h a).run, run]
    | case2 a s b next run lt ih =>
        rw [← ih]
        refine repeated_of_again ?_ lt
        rw [(h a).run, run]
    | case3 a s b next run stuck =>
        refine repeated_of_stuck ?_ stuck
        rw [(h a).run, run]

instance (u : Unit) : Blind (headerPass u) :=
  blind_get (fun _ _ _ _ => rfl) fun _ => inferInstance

instance : Blind skipToLineEnd := by unfold skipToLineEnd; infer_instance
instance : Blind typedName := blind_get (fun _ _ _ _ => rfl) fun _ => inferInstance

instance (list : List Param) : Blind (paramPass list) := by
  unfold paramPass; dsimp only; infer_instance

instance : Blind params := by unfold params; infer_instance
instance : Blind paramList := by unfold paramList; infer_instance

instance : Blind returnType := by
  apply blind_bind inferInstance
  intro found
  split
  · exact blind_get (fun _ _ _ _ => rfl) fun _ => inferInstance
  · infer_instance

-- The blocks of the longer rules are too deep for the usual limit on instances.
set_option synthInstance.maxSize 1000

section
variable (nested : PlaceReader) [∀ place, Blind (nested place)]

instance (stops : List Stop) : Blind (expression nested stops) := by
  unfold expression; infer_instance

instance (opener : Span) (scope : Scope) (closers : List Stop) :
    Blind (block nested opener scope closers) := by
  refine blind_bind (blind_modify fun _ _ _ _ => rfl) fun _ =>
    blind_bind inferInstance fun reading =>
      blind_bind (blind_modify fun _ _ _ _ => rfl) fun _ => ?_
  split <;> infer_instance

instance (opener : Span) (scope : Scope) (closers : List Stop) :
    Blind (blockBody nested opener scope closers) := by unfold blockBody; infer_instance

instance : Blind (link? nested) := by unfold link?; infer_instance

instance (stops : List Stop) (closer : Token → Bool) (missing : Expectation) (args : List Node) :
    Blind (argumentPass nested stops closer missing args) := by
  unfold argumentPass; dsimp only; infer_instance

instance (callee : List Node) : Blind (call nested callee) := by unfold call; infer_instance

instance (parts : List Node) : Blind (postfixPass nested parts) := by
  unfold postfixPass
  refine blind_bind inferInstance fun _ => ?_
  split
  · infer_instance
  refine blind_bind inferInstance fun _ => ?_
  split
  · infer_instance
  refine blind_bind inferInstance fun link => ?_
  cases link <;> infer_instance

instance (base : Node) : Blind (operandTail nested base) := by unfold operandTail; infer_instance

instance (chain : List Node) : Blind (chainPass nested chain) := by
  unfold chainPass
  refine blind_bind inferInstance fun _ => ?_
  split
  · infer_instance
  refine blind_bind inferInstance fun link => ?_
  cases link <;> infer_instance

instance : Blind (reference nested) := by unfold reference; dsimp only; infer_instance
instance : Blind (group nested) := by unfold group; infer_instance
instance : Blind (array nested) := by unfold array; infer_instance

instance (fields : List (String × List Node)) : Blind (fieldPass nested fields) := by
  unfold fieldPass; infer_instance

instance : Blind (object nested) := by unfold object; infer_instance
instance : Blind (await nested) := by unfold await; infer_instance
instance : Blind (doBlock nested) := by unfold doBlock; dsimp only; infer_instance
instance (node : Node) : Blind (single node) := by unfold single; infer_instance

instance (t : Token) : Blind (wordPart? nested t) := by
  unfold wordPart?
  split <;> infer_instance

instance (t : Token) : Blind (operatorPart? nested t) := by
  unfold operatorPart?; infer_instance

instance : Blind (expressionPart? nested) := by
  unfold expressionPart?
  refine blind_bind inferInstance fun t => ?_
  split <;> infer_instance

instance : Blind (function nested) := by unfold function; dsimp only; infer_instance
instance : Blind (initializer nested) := by unfold initializer; infer_instance
instance : Blind (variableDecl nested) := by unfold variableDecl; infer_instance
instance : Blind (constant nested) := by unfold constant; dsimp only; infer_instance

instance (scope : Scope) : Blind (expressionStatement nested scope) := by
  unfold expressionStatement; infer_instance

instance : Blind (assignment nested) := by
  unfold assignment
  refine blind_bind inferInstance fun _ => blind_bind inferInstance fun parts => ?_
  split <;> infer_instance

instance (closer : Option (Stop × Span)) : Blind (otherwise nested closer) := by
  unfold otherwise
  split <;> infer_instance

instance (opener : Span) : Blind (readCondition nested opener) := by
  unfold readCondition; infer_instance

instance : Blind (forStmt nested) := by unfold forStmt; dsimp only; infer_instance
instance : Blind (struct nested) := by unfold struct; dsimp only; infer_instance

instance (operands : List Node) : Blind (operandPass nested operands) := by
  unfold operandPass; dsimp only; infer_instance

instance : Blind (instruction nested) := by unfold instruction; dsimp only; infer_instance

instance (scope : Scope) (closers : List Stop) : Blind (openBlock nested scope closers) := by
  unfold openBlock; dsimp only; infer_instance

instance : Blind (afterKeyword nested) := by unfold afterKeyword; infer_instance

instance (scope : Scope) (word : StatementWord) : Blind (wordStatement nested scope word) := by
  cases word <;> unfold wordStatement <;> dsimp only <;> infer_instance

instance (scope : Scope) : Blind (nameStatement nested scope) :=
  blind_get (fun _ _ _ _ => rfl) fun _ => inferInstance

instance (scope : Scope) : Blind (statement? nested scope) := by
  unfold statement?
  refine blind_bind inferInstance fun t => ?_
  split
  · refine blind_bind inferInstance fun _ => ?_
    split <;> infer_instance
  all_goals infer_instance

/-- One part of an expression, put behind those that are carried along. -/
def expressionPass (stops : List Stop) (reading : Reading) : Parser (Pass Reading) := do
  let s ← get
  if s.aborted then return .done reading
  if stops.any (·.accepts s.current) || s.current.endsExpression then return .done reading
  match ← expressionPart? nested with
  | some parts => return .again (reading.1 ++ parts, none)
  | none =>
    reject
    return .again reading

def readExpression (stops : List Stop) : Parser Reading :=
  repeated (expressionPass nested stops) ([], none)

/-- One statement, put behind those that are carried along, or one line end. -/
def statementPass (scope : Scope) (stops : List Stop) (reading : Reading) :
    Parser (Pass Reading) := do
  let s ← get
  if s.aborted then return .done reading
  match stops.find? (·.accepts s.current) with
  | some stop => return .done (reading.1, some stop)
  | none =>
    match s.current.kind with
    | .endOfLine =>
      advance
      return .again reading
    | .endOfFile =>
      record (.unexpectedEnd s.current stops.head? s.openers.head?)
      return .done reading
    | _ =>
      match ← statement? nested scope with
      | some nodes => return .again (reading.1 ++ nodes, none)
      | none =>
        reject
        return .again reading

def readStatements (scope : Scope) (stops : List Stop) : Parser Reading :=
  repeated (statementPass nested scope stops) ([], none)

instance (stops : List Stop) (reading : Reading) : Blind (expressionPass nested stops reading) := by
  refine blind_get (fun _ _ _ _ => rfl) fun s => ?_
  split
  · infer_instance
  split
  · infer_instance
  refine blind_bind inferInstance fun found => ?_
  cases found <;> infer_instance

instance (scope : Scope) (stops : List Stop) (reading : Reading) :
    Blind (statementPass nested scope stops reading) := by
  refine blind_get (fun _ _ _ _ => rfl) fun s => ?_
  split
  · infer_instance
  split
  · infer_instance
  split
  · infer_instance
  · infer_instance
  refine blind_bind inferInstance fun found => ?_
  cases found <;> infer_instance

omit [∀ place, Blind (nested place)] in
theorem stop_readExpression (stops : List Stop) (s : ParserState) :
    (readExpression nested stops s).1.2 = none := by
  have pass (reading : Reading) (h : reading.2 = none) (s : ParserState) :
      (expressionPass nested stops reading s).1.value.2 = none := by
    unfold expressionPass
    rw [run_get_bind]
    split
    · exact h
    split
    · exact h
    rw [run_bind]
    cases (expressionPart? nested s).1 with
    | some parts => rfl
    | none => exact h
  exact repeated_value pass rfl s

/-- A pass over nodes in an expression, where the target holds what is carried along. -/
theorem nodePass_inExpression (stops : List Stop) (acrossLines : Bool) (found : Option Stop)
    (reading : Reading) (scope : Scope) (s : ParserState) : ∃ stop,
      nodePass nested stops acrossLines found (s.within reading.1 scope true) =
        ((expressionPass nested stops reading s).1.map fun _ => stop,
          (expressionPass nested stops reading s).2.within
            (expressionPass nested stops reading s).1.value.1 scope true) := by
  unfold nodePass expressionPass
  rw [run_get_bind, run_get_bind]
  have aborted : (s.within reading.1 scope true).aborted = s.aborted := rfl
  have current : (s.within reading.1 scope true).current = s.current := rfl
  simp only [aborted, current]
  split
  · exact ⟨none, rfl⟩
  cases hf : stops.find? (·.accepts s.current) with
  | some stop =>
      have stopped : stops.any (·.accepts s.current) = true := by
        rw [← List.isSome_find?, hf]
        rfl
      rw [stopped]
      exact ⟨some stop, rfl⟩
  | none =>
      have going : stops.any (·.accepts s.current) = false := by
        rw [← List.isSome_find?, hf]
        rfl
      rw [going, Bool.false_or]
      cases ends : s.current.endsExpression with
      | true => exact ⟨some ⟨s.current.kind, none⟩, rfl⟩
      | false =>
          have more : s.current.kind ≠ .endOfLine ∧ s.current.kind ≠ .endOfFile := by
            constructor <;>
              · intro hk
                simp [Token.endsExpression, hk] at ends
          have line : (acrossLines && s.current.kind == .endOfLine) = false := by
            simp [more.1]
          refine ⟨none, ?_⟩
          have part : nodes? nested (s.within reading.1 scope true) =
              ((expressionPart? nested s).1,
                (expressionPart? nested s).2.within reading.1 scope true) :=
            Blind.run (p := expressionPart? nested) s reading.1 scope true
          dsimp only
          rw [Bool.and_false, line, if_neg Bool.false_ne_true, if_neg Bool.false_ne_true,
            if_neg more.2, if_neg Bool.false_ne_true, run_bind, run_bind, part]
          cases (expressionPart? nested s).1 with
          | some parts => rfl
          | none => exact congrArg (Prod.mk _) (ParserState.reject_within _ _ _ _)

/-- A pass over nodes among statements, where the target holds what is carried along. -/
theorem nodePass_statements (stops : List Stop) (found : Option Stop) (reading : Reading)
    (fresh : reading.2 = none) (scope : Scope) (s : ParserState) :
    nodePass nested stops true found (s.within reading.1 scope false) =
      ((statementPass nested scope stops reading s).1.map (·.2),
        (statementPass nested scope stops reading s).2.within
          (statementPass nested scope stops reading s).1.value.1 scope false) := by
  obtain ⟨nodes, _⟩ := reading
  subst fresh
  unfold nodePass statementPass
  rw [run_get_bind, run_get_bind]
  have aborted : (s.within nodes scope false).aborted = s.aborted := rfl
  have current : (s.within nodes scope false).current = s.current := rfl
  simp only [aborted, current]
  split
  · rfl
  cases stops.find? (·.accepts s.current) with
  | some stop => rfl
  | none =>
      have statement : nodes? nested (s.within nodes scope false) =
          ((statement? nested scope s).1,
            (statement? nested scope s).2.within nodes scope false) :=
        Blind.run (p := statement? nested scope) s nodes scope false
      have mode : ((s.within nodes scope false).inExpression && s.current.endsExpression) =
          false := rfl
      dsimp only
      rw [mode, if_neg Bool.false_ne_true, Bool.true_and]
      cases hk : s.current.kind with
      | endOfLine => exact congrArg (Prod.mk _) (ParserState.advance_within _ _ _ _)
      | endOfFile => exact congrArg (Prod.mk _) (ParserState.record_within _ _ _ _ _)
      | _ =>
          dsimp only
          rw [if_neg (by decide), if_neg (by decide), run_bind, run_bind, statement]
          cases (statement? nested scope s).1 with
          | some parts => rfl
          | none => exact congrArg (Prod.mk _) (ParserState.reject_within _ _ _ _)

omit [∀ place, Blind (nested place)] in
/-- A pass of statements names a stop only when it is done there. -/
theorem statementPass_stop (scope : Scope) (stops : List Stop)
    {reading : Reading} (hr : reading.2 = none) (s : ParserState) :
    match statementPass nested scope stops reading s with
    | (.again reading, _) => reading.2 = none
    | (.done reading, next) => ∀ stop ∈ reading.2, stop ∈ stops ∧ stop.accepts next.current := by
  have none : ∀ stop ∈ reading.2, stop ∈ stops ∧ stop.accepts s.current := by
    rw [hr]
    rintro stop ⟨⟩
  unfold statementPass
  rw [run_get_bind]
  by_cases ha : s.aborted = true
  · rw [if_pos ha]
    exact none
  rw [if_neg ha]
  cases hf : stops.find? (·.accepts s.current) with
  | some stop =>
      rintro _ ⟨⟩
      have ha := List.find?_some hf
      exact ⟨List.mem_of_find?_eq_some hf, ha⟩
  | none =>
      dsimp only
      cases s.current.kind with
      | endOfLine => exact hr
      | endOfFile =>
          change ∀ stop ∈ reading.2, _
          rw [hr]
          rintro stop ⟨⟩
      | _ =>
          dsimp only
          rw [run_bind]
          cases (statement? nested scope s).1 with
          | none => exact hr
          | some nodes => rfl

theorem readNodes_inExpression (stops : List Stop) (acrossLines : Bool) (found : Option Stop)
    (reading : Reading) (scope : Scope) (s : ParserState) : ∃ stop,
      repeated (nodePass nested stops acrossLines) found (s.within reading.1 scope true) =
        (stop, (repeated (expressionPass nested stops) reading s).2.within
          (repeated (expressionPass nested stops) reading s).1.1 scope true) := by
  fun_induction repeated (expressionPass nested stops) reading s generalizing found with
  | case1 reading s b next run =>
      obtain ⟨stop, pass⟩ := nodePass_inExpression nested stops acrossLines found reading scope s
      rw [run] at pass
      exact ⟨stop, repeated_of_done pass⟩
  | case2 reading s b next run lt ih =>
      obtain ⟨stop, pass⟩ := nodePass_inExpression nested stops acrossLines found reading scope s
      rw [run] at pass
      rw [repeated_of_again pass lt]
      exact ih stop
  | case3 reading s b next run stuck =>
      obtain ⟨stop, pass⟩ := nodePass_inExpression nested stops acrossLines found reading scope s
      rw [run] at pass
      exact ⟨stop, repeated_of_stuck pass stuck⟩

theorem readNodes_statements (stops : List Stop) (found : Option Stop) (reading : Reading)
    (fresh : reading.2 = none) (scope : Scope) (s : ParserState) :
    repeated (nodePass nested stops true) found (s.within reading.1 scope false) =
      ((repeated (statementPass nested scope stops) reading s).1.2,
        (repeated (statementPass nested scope stops) reading s).2.within
          (repeated (statementPass nested scope stops) reading s).1.1 scope false) := by
  fun_induction repeated (statementPass nested scope stops) reading s generalizing found with
  | case1 reading s b next run =>
      have pass := nodePass_statements nested stops found reading fresh scope s
      rw [run] at pass
      exact repeated_of_done pass
  | case2 reading s b next run lt ih =>
      have pass := nodePass_statements nested stops found reading fresh scope s
      rw [run] at pass
      have stopped := statementPass_stop nested scope stops fresh s
      rw [run] at stopped
      rw [repeated_of_again pass lt]
      exact ih b.2 stopped
  | case3 reading s b next run stuck =>
      have pass := nodePass_statements nested stops found reading fresh scope s
      rw [run] at pass
      exact repeated_of_stuck pass stuck

theorem collectExpression_eq (stops : List Stop) :
    collectExpression nested stops = readExpression nested stops := by
  funext s
  have kept : (readExpression nested stops s).2.within s.target s.scope s.inExpression =
      (readExpression nested stops s).2 := Blind.kept (by unfold readExpression; infer_instance) s
  have stopped := stop_readExpression nested stops s
  obtain ⟨stop, run⟩ := readNodes_inExpression nested stops false none ([], none) s.scope s
  change (((repeated (nodePass nested stops false) none (s.within [] s.scope true)).2.target, none),
    { (repeated (nodePass nested stops false) none (s.within [] s.scope true)).2 with
      target := s.target, inExpression := s.inExpression }) = _
  rw [run]
  generalize hr : readExpression nested stops s = r at kept stopped ⊢
  have same : repeated (expressionPass nested stops) ([], none) s = r := hr
  rw [same]
  obtain ⟨⟨nodes, _⟩, t⟩ := r
  subst stopped
  exact congrArg (Prod.mk _) kept

theorem collectStatements_eq (scope : Scope) (stops : List Stop) :
    collectStatements nested scope stops = readStatements nested scope stops := by
  funext s
  have kept : (readStatements nested scope stops s).2.within s.target s.scope s.inExpression =
      (readStatements nested scope stops s).2 :=
    Blind.kept (by unfold readStatements; infer_instance) s
  have run := readNodes_statements nested stops none ([], none) rfl scope s
  change (((repeated (nodePass nested stops true) none (s.within [] scope false)).2.target,
      (repeated (nodePass nested stops true) none (s.within [] scope false)).1),
    { (repeated (nodePass nested stops true) none (s.within [] scope false)).2 with
      target := s.target, scope := s.scope, inExpression := s.inExpression }) = _
  rw [run]
  exact congrArg (Prod.mk _) kept

end

end Parser

namespace Place

/-- The rules of a place, where the nodes are carried along. -/
def plain (nested : PlaceReader) : Place → Parser Reading
  | .expression stops => Parser.readExpression nested stops
  | .statements scope stops => Parser.readStatements nested scope stops
  | .condition opener => Parser.readCondition nested opener

theorem rules_eq_plain (nested : PlaceReader) [∀ inner, Blind (nested inner)] (place : Place) :
    place.rules nested = place.plain nested := by
  cases place with
  | expression stops => exact Parser.collectExpression_eq nested stops
  | statements scope stops => exact Parser.collectStatements_eq nested scope stops
  | condition opener => rfl

instance (nested : PlaceReader) [∀ inner, Blind (nested inner)] (place : Place) :
    Blind (place.plain nested) := by
  cases place with
  | expression stops => exact inferInstanceAs (Blind (Parser.repeated _ _))
  | statements scope stops => exact inferInstanceAs (Blind (Parser.repeated _ _))
  | condition opener => exact inferInstanceAs (Blind (Parser.readCondition nested opener))

/-- The reader of the places that weigh less than `n`, which leaves the others empty. -/
def readBelow (n : Nat) : PlaceReader := fun inner t =>
  if inner.weight t < n then inner.read t else (([], none), t)

theorem weight_within (place : Place) (s : ParserState) (target : List Node) (scope : Scope)
    (inExpression : Bool) : place.weight (s.within target scope inExpression) = place.weight s := by
  cases place <;> rfl

theorem read_plain (place : Place) (s : ParserState)
    (h : ∀ inner, Blind (readBelow (place.weight s) inner)) :
    place.read s = place.plain (readBelow (place.weight s)) s := by
  rw [Place.read]
  exact congrFun (rules_eq_plain (readBelow (place.weight s)) place) s

instance (place : Place) : Blind place.read := by
  constructor
  intro s
  induction hn : place.weight s using Nat.strongRecOn generalizing place s with
  | ind n ih =>
      subst hn
      have blind (inner : Place) : Blind (readBelow (place.weight s) inner) := by
        constructor
        intro t target scope inExpression
        unfold readBelow
        rw [weight_within]
        split
        · exact ih (inner.weight t) ‹_› inner t rfl target scope inExpression
        · rfl
      intro target scope inExpression
      rw [read_plain _ _ blind, read_plain]
      · rw [weight_within]
        exact Blind.run s target scope inExpression
      · rwa [weight_within]

instance (n : Nat) (inner : Place) : Blind (readBelow n inner) where
  run t target scope inExpression := by
    unfold readBelow
    rw [weight_within]
    split
    · exact Blind.run t target scope inExpression
    · rfl

theorem read_eq_readBelow (place : Place) (s : ParserState) :
    place.read s = place.plain (readBelow (place.weight s)) s :=
  place.read_plain s inferInstance

end Place

end MapScript
