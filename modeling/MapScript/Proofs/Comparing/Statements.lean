import MapScript.Proofs.Comparing.Expressions

/-!
# Statements side by side

The places are read with each other's help, so that parsers which are alike read every place alike,
by induction on what is left to read.
-/
namespace MapScript

/-- The name with its type changed. -/
def TypedName.mapTypes (f : String → Option String) (typed : TypedName) : TypedName :=
  { typed with type := typed.type.bind f }

namespace Parser
open Comparison

variable {c : Comparison}

theorem headerPass_copies (u : Unit) : c.Copies (Pass.map id) (headerPass u) (headerPass u) := by
  refine agrees_get fun s t like => agrees_ite ?_ (fun _ => agrees_pure rfl) fun _ => ?_
  · rw [c.aborted like, (c.token like).kind]
  · exact agrees_reject.andThen fun _ => agrees_pure rfl

theorem skipToLineEnd_copies : c.Copies id skipToLineEnd skipToLineEnd :=
  copies_repeated headerPass_copies ()

theorem typedName_copies : c.Copies (TypedName.mapTypes c.onType) typedName typedName := by
  refine agrees_get fun s t like => ?_
  have alike := c.token like
  have typed : (t.current.kind == .identifier && t.beforeName) =
      (s.current.kind == .identifier && s.beforeName) := by
    rw [alike.kind]
    by_cases hk : s.current.kind = .identifier
    · rw [c.beforeName like hk]
    · rw [beq_false_of_ne hk]
      rfl
  dsimp only
  rw [typed, alike.word]
  generalize (s.current.kind == .identifier && s.beforeName) = hasType
  have type : (if hasType && t.options.types then some s.current.word else none) =
      (if hasType && s.options.types then some s.current.word else none).bind c.onType := by
    cases hasType with
    | false => rfl
    | true => exact c.types like s.current.word
  have rest : c.Copies (TypedName.mapTypes c.onType)
      (do
        let isArray ← eatKeyword "array"
        let name ← name
        return ⟨if hasType && s.options.types then some s.current.word else none, name, isArray⟩)
      (do
        let isArray ← eatKeyword "array"
        let name ← name
        return ⟨if hasType && t.options.types then some s.current.word else none, name,
          isArray⟩) := by
    refine (agrees_eat _).andThen fun isArray => agrees_name.andThen fun name => agrees_pure ?_
    rw [type]
    rfl
  exact agrees_ite Iff.rfl (fun _ => agrees_advance.andThen fun _ => rest) fun _ => rest

abbrev paramsCopy (c : Comparison) : List Param → List Param := List.map (Param.mapTypes c.onType)

theorem paramPass_copies (list : List Param) :
    c.Copies (Pass.map (paramsCopy c)) (paramPass list) (paramPass (paramsCopy c list)) := by
  refine agrees_isAborted fun aborted => ?_
  refine agrees_ite Iff.rfl (fun _ => agrees_pure rfl) fun _ => ?_
  refine agrees_current fun x y alike => agrees_ite (by rw [alike.kind]) (fun _ => ?_) fun _ => ?_
  · refine typedName_copies.bind fun typed => (agrees_eat _).andThen fun comma => ?_
    refine agrees_ite Iff.rfl (fun _ => agrees_pure ?_) fun _ => agrees_pure ?_
    · simp [Pass.map, TypedName.mapTypes, Param.mapTypes]
    · simp [Pass.map, TypedName.mapTypes, Param.mapTypes]
  · exact agrees_pure rfl

theorem params_copies : c.Copies (paramsCopy c) params params :=
  (agrees_eat _).andThen fun _ => agrees_ite Iff.rfl (fun _ => agrees_pure rfl)
    fun _ => copies_repeated paramPass_copies []

theorem paramList_copies : c.Copies (paramsCopy c) paramList paramList := by
  refine (agrees_eat _).andThen fun bracket => agrees_ite Iff.rfl (fun _ => ?_) fun _ => ?_
  · exact params_copies.bind fun list => (agrees_eatOr _ _).andThen fun _ => agrees_pure rfl
  · exact (agrees_eat _).andThen fun word => agrees_ite Iff.rfl (fun _ => params_copies)
      fun _ => agrees_pure rfl

theorem returnType_copies : c.Copies (Option.bind · c.onType) returnType returnType := by
  refine (agrees_eat _).andThen fun word => agrees_ite Iff.rfl (fun _ => ?_) fun _ => ?_
  · refine agrees_get fun s t like => agrees_ite ?_ (fun _ => ?_) fun _ => ?_
    · rw [(c.token like).kind]
    · rw [(c.token like).word]
      exact agrees_advance.andThen fun _ => agrees_pure (c.types like s.current.word)
    · exact (agrees_eatOr _ _).andThen fun _ => agrees_pure rfl
  · exact agrees_pure rfl

section
variable (nested nested' : PlaceReader) [∀ place, Evolving (nested place)]
variable [∀ place, Evolving (nested' place)] [hn : c.ReadersAgree nested nested']

-- The blocks of the longer rules are too deep for the usual limit on instances.
set_option synthInstance.maxSize 2000

theorem function_copies : c.Copies c.node (function nested) (function nested') := by
  refine agrees_current fun x y alike => agrees_advance.andThen fun _ => ?_
  refine agrees_name.andThen fun name => paramList_copies.bind fun params => ?_
  refine returnType_copies.bind fun type => skipToLineEnd_copies.bind fun _ => ?_
  refine (copies_framed (blockBody_copies nested nested' alike.span _ _)).bind fun body => ?_
  exact agrees_pure (by simp [Node.mapTypes])

theorem initializer_copies : c.Copies c.nodes (initializer nested) (initializer nested') :=
  (agrees_eat _).andThen fun _ => agrees_ite Iff.rfl
    (fun _ => expression_copies nested nested' _) fun _ => agrees_pure rfl

theorem variableDecl_copies : c.Copies c.node (variableDecl nested) (variableDecl nested') := by
  refine typedName_copies.bind fun typed => (initializer_copies nested nested').bind fun init => ?_
  exact agrees_pure (by simp [Node.mapTypes, TypedName.mapTypes])

theorem constant_copies : c.Copies c.node (constant nested) (constant nested') := by
  refine agrees_advance.andThen fun _ => agrees_current fun x y alike => ?_
  refine agrees_ite (by rw [Token.isKeyword, Token.isKeyword, alike.isA])
    (fun _ => function_copies nested nested') fun _ => ?_
  refine typedName_copies.bind fun typed => agrees_current fun x y alike => ?_
  have value : c.Copies c.node
      (do
        let init ← initializer nested
        return .varDecl typed.name typed.type false typed.isArray init)
      (do
        let init ← initializer nested'
        return .varDecl typed.name (typed.type.bind c.onType) false typed.isArray init) :=
    (initializer_copies nested nested').bind fun init => agrees_pure (by simp [Node.mapTypes])
  refine agrees_ite (by rw [Token.isOperator, Token.isOperator, alike.isA]) (fun _ => ?_)
    fun _ => value
  exact (agrees_expected .equals).andThen fun _ => value

omit [∀ place, Evolving (nested place)] [∀ place, Evolving (nested' place)] in
theorem expressionStatement_copies (scope : Scope) :
    c.Copies c.nodes (expressionStatement nested scope) (expressionStatement nested' scope) := by
  refine (expression_copies nested nested' []).bind fun parts => ?_
  refine agrees_ite (by rw [List.isEmpty_map]) (fun _ => ?_) fun _ => ?_
  · exact (agrees_expected .expression).andThen fun _ => agrees_pure rfl
  · exact agrees_pure (by simp [Node.mapTypes_ofStatementParts])

theorem assignment_copies : c.Copies c.nodes (assignment nested) (assignment nested') := by
  refine agrees_advance.bind_of (fun _ => ?_) (fun _ => ?_) fun _ _ _ => ?_
  · refine evolving_bind inferInstance fun parts => ?_
    cases splitAssignment? parts <;> infer_instance
  · refine evolving_bind inferInstance fun parts => ?_
    cases splitAssignment? parts <;> infer_instance
  refine (expression_copies nested nested' []).bind_of (fun parts => ?_) (fun parts => ?_) ?_
  · cases splitAssignment? parts <;> infer_instance
  · cases splitAssignment? parts <;> infer_instance
  rintro parts _ rfl
  rw [Node.splitAssignment?_map]
  cases splitAssignment? parts with
  | some split => exact agrees_pure (by simp [Node.mapTypes])
  | none =>
      refine (agrees_expected .equals).andThen fun _ => agrees_pure ?_
      rw [List.isEmpty_map]
      split <;> simp [Node.mapTypes]

omit [∀ place, Evolving (nested place)] [∀ place, Evolving (nested' place)] in
theorem otherwise_copies {closer closer' : Option (Stop × Span)}
    (same : Option.Rel (fun x y => y.1 = x.1 ∧ c.SpanLike x.2 y.2) closer closer') :
    c.Copies (Option.map c.nodes) (otherwise nested closer) (otherwise nested' closer') := by
  cases same with
  | none => exact agrees_pure rfl
  | @some x y same =>
      obtain ⟨stop, span⟩ := x
      obtain ⟨_, span'⟩ := y
      obtain ⟨rfl, spans⟩ := same
      refine agrees_ite Iff.rfl (fun _ => ?_) fun _ => agrees_ite Iff.rfl (fun _ => ?_) fun _ => ?_
      · exact (blockBody_copies nested nested' spans _ _).bind fun _ => agrees_pure rfl
      · exact Copies.bind (hn.place (.condition spans)) fun _ => agrees_pure rfl
      · exact agrees_pure rfl

theorem readCondition_copies {a b : Span} (hab : c.SpanLike a b) :
    c.Copies c.reading (readCondition nested a) (readCondition nested' b) := by
  refine (expression_copies nested nested' []).bind fun test => ?_
  refine (agrees_eatOr _ _).andThen fun _ => ?_
  refine (block_agrees nested nested' hab _ _).bind ?_
  rintro ⟨body, closer⟩ ⟨_, closer'⟩ ⟨rfl, same⟩
  refine (otherwise_copies nested nested' same).bind fun rest => agrees_pure ?_
  simp [Comparison.reading, Node.mapTypes]

theorem forStmt_copies : c.Copies c.node (forStmt nested) (forStmt nested') := by
  refine agrees_current fun x y alike => agrees_advance.andThen fun _ => ?_
  refine agrees_name.andThen fun indexVar => (agrees_eat _).andThen fun _ => ?_
  refine (expression_copies nested nested' _).bind fun first => ?_
  refine (agrees_eatOr _ _).andThen fun _ => ?_
  refine (expression_copies nested nested' _).bind fun last => ?_
  refine (blockBody_copies nested nested' alike.span _ _).bind fun body => ?_
  exact agrees_pure (by simp [Node.mapTypes])

theorem struct_copies : c.Copies c.node (struct nested) (struct nested') := by
  refine agrees_current fun x y alike => agrees_advance.andThen fun _ => ?_
  refine agrees_name.andThen fun name => skipToLineEnd_copies.bind fun _ => ?_
  refine (blockBody_copies nested nested' alike.span _ _).bind fun body => ?_
  exact agrees_pure (by simp [Node.mapTypes])

omit [∀ place, Evolving (nested place)] [∀ place, Evolving (nested' place)] in
theorem operandPass_copies (operands : List Node) :
    c.Copies (Pass.map c.nodes) (operandPass nested operands)
      (operandPass nested' (c.nodes operands)) := by
  refine agrees_isAborted fun aborted => ?_
  refine agrees_ite Iff.rfl (fun _ => agrees_pure rfl) fun _ => ?_
  refine (expression_copies nested nested' _).bind fun parts => ?_
  refine agrees_ite (by rw [List.isEmpty_map]) (fun _ => agrees_pure rfl) fun _ => ?_
  have more : c.nodes operands ++ [.ofParts (c.nodes parts)] =
      c.nodes (operands ++ [.ofParts parts]) := by
    simp [Node.mapTypes_ofParts]
  dsimp only
  rw [more]
  refine (agrees_eat _).andThen fun comma => ?_
  exact agrees_ite Iff.rfl (fun _ => agrees_pure rfl) fun _ => agrees_pure rfl

theorem instruction_copies : c.Copies c.node (instruction nested) (instruction nested') := by
  refine agrees_current fun x y alike => ?_
  dsimp only
  rw [alike.word]
  refine agrees_advance.andThen fun _ => ?_
  refine (copies_repeated (operandPass_copies nested nested') []).bind fun operands => ?_
  exact agrees_pure (by simp [Node.mapTypes])

theorem openBlock_copies (scope : Scope) (closers : List Stop) :
    c.Copies c.nodes (openBlock nested scope closers) (openBlock nested' scope closers) :=
  agrees_current fun _ _ alike => agrees_advance.andThen fun _ =>
    blockBody_copies nested nested' alike.span scope closers

theorem afterKeyword_copies : c.Copies c.nodes (afterKeyword nested) (afterKeyword nested') :=
  agrees_advance.andThen fun _ => expression_copies nested nested' []

/-- A statement that is made from the nodes inside it. -/
theorem madeFrom_copies {p q : Parser (List Node)} (h : c.Copies c.nodes p q)
    {make : List Node → Node} (same : ∀ inner, make (c.nodes inner) = c.node (make inner)) :
    c.Copies c.nodes (do return [make (← p)]) (do return [make (← q)]) :=
  h.bind fun inner => agrees_pure (by rw [same]; rfl)

theorem one_copies {p q : Parser Node} (h : c.Copies c.node p q) :
    c.Copies c.nodes (do return [← p]) (do return [← q]) :=
  h.bind fun _ => agrees_pure rfl

theorem wordStatement_copies (scope : Scope) (word : StatementWord) :
    c.Copies c.nodes (wordStatement nested scope word) (wordStatement nested' scope word) := by
  have openBlock := openBlock_copies nested nested' (c := c)
  have after := afterKeyword_copies nested nested' (c := c)
  have statement := expressionStatement_copies nested nested' (c := c) scope
  cases word with
  | globals => exact madeFrom_copies (openBlock _ _) fun _ => by simp [Node.mapTypes]
  | function => exact one_copies (function_copies nested nested')
  | localDecl =>
      exact agrees_advance.andThen fun _ => one_copies (variableDecl_copies nested nested')
  | constant => exact one_copies (constant_copies nested nested')
  | set => exact assignment_copies nested nested'
  | returnStmt => exact madeFrom_copies after fun _ => by simp [Node.mapTypes]
  | ifStmt =>
      refine agrees_current fun x y alike => agrees_advance.andThen fun _ => ?_
      exact Copies.bind (hn.place (.condition alike.span)) fun _ => agrees_pure rfl
  | call => exact agrees_advance.andThen fun _ => statement
  | loop => exact madeFrom_copies (openBlock _ _) fun _ => (Node.mapTypes_ofLoopBody ..).symm
  | exitWhen => exact madeFrom_copies after fun _ => by simp [Node.mapTypes]
  | forStmt => exact one_copies (forStmt_copies nested nested')
  | struct => exact one_copies (struct_copies nested nested')
  | expect => exact madeFrom_copies after fun _ => by simp [Node.mapTypes]
  | debug => exact agrees_advance.andThen fun _ => agrees_pure rfl
  | expression => exact statement

/-- Only at a name is there a look at what comes behind it. -/
theorem nameStatement_outcome (scope : Scope) {s t : ParserState} (like : c.Like s t)
    (hk : s.current.kind = .identifier) :
    c.Outcome (fun a b => b = c.nodes a) (nameStatement nested scope s)
      (nameStatement nested' scope t) := by
  unfold nameStatement
  rw [run_get_bind, run_get_bind, c.atInstruction like hk, c.beforeName like hk]
  split
  · exact one_copies (instruction_copies nested nested') s t like
  split
  · exact one_copies (variableDecl_copies nested nested') s t like
  · exact expressionStatement_copies nested nested' scope s t like

theorem some_outcome {p q : Parser (List Node)} {s t : ParserState}
    (h : c.Outcome (fun a b => b = c.nodes a) (p s) (q t)) :
    c.Outcome (fun a b => b = Option.map c.nodes a) ((do return some (← p) : Parser _) s)
      ((do return some (← q) : Parser _) t) :=
  h.imp_left (And.imp_left (congrArg some))

theorem statement?_copies (scope : Scope) :
    c.Copies (Option.map c.nodes) (statement? nested scope) (statement? nested' scope) := by
  intro s t like
  have alike := c.token like
  have statement := expressionStatement_copies nested nested' (c := c) scope s t like
  unfold statement?
  rw [run_current_bind, run_current_bind, alike.kind, alike.word]
  cases hk : s.current.kind with
  | keyword =>
      have noted := c.note s.current.word like
      dsimp only
      rw [run_modify_bind, run_modify_bind]
      cases StatementWord.ofWord? s.current.word with
      | none => exact .inl ⟨rfl, noted⟩
      | some word => exact some_outcome (wordStatement_copies nested nested' scope word _ _ noted)
  | comment => exact .inl ⟨rfl, c.advance like⟩
  | identifier => exact some_outcome (nameStatement_outcome nested nested' scope like hk)
  | number | string | operator | leftParen | leftBrace => exact some_outcome statement
  | _ => exact .inl ⟨rfl, like⟩

theorem statementPass_copies (scope : Scope) (stops : List Stop) (reading : Reading) :
    c.Copies (Pass.map c.reading) (statementPass nested scope stops reading)
      (statementPass nested' scope stops (c.reading reading)) := by
  intro s t like
  have alike := c.token like
  unfold statementPass
  rw [run_get_bind, run_get_bind, c.aborted like, alike.kind]
  simp only [alike.accepts]
  split
  · exact .inl ⟨rfl, like⟩
  rename_i going
  cases stops.find? (·.accepts s.current) with
  | some stop => exact .inl ⟨rfl, like⟩
  | none =>
      dsimp only
      cases hk : s.current.kind with
      | endOfLine => exact .inl ⟨rfl, c.advance like⟩
      | endOfFile => exact .inl ⟨rfl, c.ended stops.head? like⟩
      | _ =>
          refine (statement?_copies nested nested' scope).orReject (statement?_spares nested scope)
            (statement?_spares nested' scope) (by rfl) (by rfl) (by rfl) (fun _ => inferInstance)
            (fun _ => inferInstance) (fun nodes => ?_) like (by simpa using going) (by simp [hk])
          exact agrees_pure (by simp [Pass.map, Comparison.reading])

theorem readStatements_copies (scope : Scope) (stops : List Stop) :
    c.Copies c.reading (readStatements nested scope stops) (readStatements nested' scope stops) :=
  copies_repeated (statementPass_copies nested nested' scope stops) ([], none)

theorem rules_copies {a b : Place} (same : c.PlaceLike a b) :
    c.Copies c.reading (a.plain nested) (b.plain nested') := by
  cases same with
  | expression stops => exact readExpression_copies nested nested' stops
  | statements scope stops => exact readStatements_copies nested nested' scope stops
  | condition spans => exact readCondition_copies nested nested' spans

end

theorem weight_like {a b : Place} (same : c.PlaceLike a b) {s t : ParserState}
    (like : c.Like s t) : a.weight s + 3 * c.spare' = b.weight t + 3 * c.spare := by
  have length := c.length like
  cases same <;> dsimp only [Place.weight] <;> omega

/-- Parsers that are alike read every place alike, or part on the way. -/
theorem read_copies {a b : Place} (same : c.PlaceLike a b) : c.Copies c.reading a.read b.read := by
  intro s t like
  induction hn : a.weight s using Nat.strongRecOn generalizing a b s t with
  | ind n ih =>
      subst hn
      have weight := weight_like same like
      have inside : c.ReadersAgree (Place.readBelow (a.weight s))
          (Place.readBelow (b.weight t)) := by
        refine ⟨fun {a' b'} same' u v like' => ?_⟩
        have weight' := weight_like same' like'
        unfold Place.readBelow
        by_cases lt : a'.weight u < a.weight s
        · rw [if_pos lt, if_pos (by omega)]
          exact ih _ lt same' u v like' rfl
        · rw [if_neg lt, if_neg (by omega)]
          exact .inl ⟨rfl, like'⟩
      rw [Place.read_eq_readBelow, Place.read_eq_readBelow]
      exact rules_copies _ _ same s t like

instance : c.ReadersAgree Place.read Place.read := ⟨read_copies⟩

end Parser

end MapScript
