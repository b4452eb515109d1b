import MapScript.Proofs.LeftOpen.Leaving

/-!
# Rules that leave blocks open

A block is opened at the keyword that its rule begins with, and its statements leave the keyword
pending until the closer is read. Only the branches of a condition are different: `else` and
`elseif` close one branch and open the next, and so the keyword that is pending changes. What the
rules read otherwise is no keyword of a block, unless it is the name of a member.
-/
namespace MapScript

/-- The keyword of the block that statements stand in is pending if they have come to no stop. -/
def Reading.pending (keyword : Option Token) (reading : Reading) : List Token :=
  if reading.2 = none then keyword.toList else []

/-- What is read in nested places leaves open what it reports. -/
class LeavingPlaces (nested : PlaceReader) : Prop where
  expression (stops : List Stop) : Leaving [] (nested (.expression stops))
  condition (keyword : Token) : keyword.isBranch = true →
    Leaving [keyword] (nested (.condition keyword.span))
  statements (errors : List ParseError) (scope : Scope) (stops : List Stop) (keyword : Token)
    (s : ParserState) : s.openers.head? = some keyword.span →
    Leaves errors ((nested (.statements scope stops) s).1.pending (some keyword))
      (nested (.statements scope stops)) s
  stop : Parser.Respects nested

/-- Whatever one of the closers accepts takes the keyword off the stack. -/
class ClosedBy (keyword : Token) (closers : List Stop) : Prop where
  closes (stop : Stop) (c : Token) : stop ∈ closers → stop.accepts c = true → ∀ stack,
    c.onBlocks? (keyword :: stack) = some stack

theorem closedBy_of_closesBlock {keyword : Token} {word : BlockWord} {closers : List Stop}
    (opened : keyword.block? = some word)
    (closes : ∀ stop ∈ closers, ∀ c, stop.accepts c = true → c.ClosesBlock word) :
    ClosedBy keyword closers :=
  ⟨fun stop c listed accepted stack => (closes stop listed c accepted).onBlocks? opened stack⟩

theorem Token.block?_of_opens {t : Token} {word : BlockWord}
    (h : t.fence? = some (.opens (.block word))) : t.block? = some word := by
  rw [block?, h]

namespace Parser
variable {α β : Type} {errors : List ParseError} {pending : List Token} {s : ParserState}

-- The rules are too deep for the usual limit on instances.
set_option synthInstance.maxSize 2000

theorem leaves_congr {p q : Parser α} (same : p s = q s) (h : Leaves errors pending q s) :
    Leaves errors pending p s :=
  ⟨same ▸ h.evolves, same ▸ h.leaves⟩

instance : Leaving [] typedName := by
  apply leaving_get
  intro errors s
  dsimp only
  split
  · rename_i hasType
    rw [Bool.and_eq_true, beq_iff_eq] at hasType
    exact LeavingAt.leaves errors s (Token.isBlockWord_of_kind (by rw [hasType.1]; decide))
  · exact Leaving.leaves errors s

instance (params : List Param) : Leaving [] (paramPass params) := by
  unfold paramPass; dsimp only; infer_instance

instance : Leaving [] params := by unfold params; infer_instance
instance : Leaving [] paramList := by unfold paramList; infer_instance

instance : Leaving [] returnType := by
  apply leaving_bind
  intro found
  split
  · apply leaving_get
    intro errors s
    split
    · rename_i kind
      exact LeavingAt.leaves errors s (Token.isBlockWord_of_kind (by rw [kind]; decide))
    · exact Leaving.leaves errors s
  · infer_instance

instance (node : Node) : LeavingAt (single node) := by unfold single; infer_instance

theorem leaves_key {f : Token → Bool} [Plain f] (signs : ∀ t, f t = true → t.IsFieldSign)
    (field : s.current.kind.isFieldName) :
    Leaves errors [] (advance >>= fun _ => eatOr .colon f) s := by
  have later : Leaves errors [] (eatOr .colon f) s.advance := Leaving.leaves errors _
  refine ⟨.trans (.single (.advance s)) later.evolves, fun ends => ?_⟩
  obtain ⟨left, leaves⟩ := later.leaves ends
  refine ⟨left, LeftOpen.key field ?_ leaves⟩
  intro sign hs
  obtain rfl : s.advance.current = sign := by
    obtain ⟨rest, found⟩ := List.head?_eq_some_iff.mp hs
    exact ParserState.current_of_rest found
  by_cases taken : f s.advance.current = true
  · exact .inl (signs _ taken)
  · right
    have missed : eatOr .colon f s.advance =
        ((), s.advance.record (.expected .colon s.advance.current)) := by
      unfold eatOr
      rw [run_bind, run_eat_not (by simpa using taken)]
      rfl
    change ((eatOr .colon f s.advance).2).EndsWith errors at ends
    rw [missed] at ends
    have added := ParserState.EndsWith.errors_record ends
    exact ends.kept.subset (added ▸ List.mem_append_right _ List.mem_cons_self)

section
variable (nested : PlaceReader) [places : LeavingPlaces nested]

instance (stops : List Stop) : Leaving [] (expression nested stops) := by
  have := places.expression stops
  unfold expression; infer_instance

/-- The statements of a block, before the closer is consumed. -/
def inside (span : Span) (scope : Scope) (closers : List Stop) : Parser Reading := do
  modify fun s => { s with openers := span :: s.openers }
  let reading ← nested (.statements scope closers)
  modify fun s => { s with openers := s.openers.tail }
  return reading

/-- The closer of a block, with its span. -/
def closing (reading : Reading) : Parser (List Node × Option (Stop × Span)) :=
  match reading.2 with
  | none => return (reading.1, none)
  | some stop => do
    let span := (← current).span
    advance
    return (reading.1, some (stop, span))

theorem closing_none {reading : Reading} (h : reading.2 = none) :
    closing reading = pure (reading.1, none) := by
  unfold closing
  rw [h]

theorem closing_some {reading : Reading} {stop : Stop} (h : reading.2 = some stop) :
    closing reading = do
      let t ← current
      advance
      return (reading.1, some (stop, t.span)) := by
  unfold closing
  rw [h]

omit places in
theorem block_eq (span : Span) (scope : Scope) (closers : List Stop) :
    block nested span scope closers = inside nested span scope closers >>= closing := by
  funext s
  rw [run_block, run_bind]
  change _ = closing (nested (.statements scope closers) { s with openers := span :: s.openers }).1
    { (nested (.statements scope closers) { s with openers := span :: s.openers }).2 with
      openers := _ }
  obtain ⟨⟨body, _ | stop⟩, t⟩ :=
    nested (.statements scope closers) { s with openers := span :: s.openers } <;> rfl

/-- The block is the innermost one while its statements are read. -/
theorem leaves_inside (keyword : Token) (scope : Scope) (closers : List Stop) :
    Leaves errors ((inside nested keyword.span scope closers s).1.pending (some keyword))
      (inside nested keyword.span scope closers) s := by
  have reads := places.statements errors scope closers keyword
    { s with openers := keyword.span :: s.openers } rfl
  refine ⟨.blocked keyword.span reads.evolves, fun ends => ?_⟩
  obtain ⟨left, leaves⟩ := reads.leaves ⟨ends.going, ends.kept, ends.few⟩
  exact ⟨left, leaves.of_eq rfl rfl rfl rfl⟩

/-- Where a block has come to a stop, the closer is at the cursor. -/
theorem accepts_of_inside {span : Span} {scope : Scope} {closers : List Stop} {stop : Stop}
    (h : (inside nested span scope closers s).1.2 = some stop) :
    stop ∈ closers ∧ stop.accepts (inside nested span scope closers s).2.current = true :=
  places.stop scope closers { s with openers := span :: s.openers } stop h

theorem kind_ne_of_onBlocks? {c : Token} (keyword : Token)
    (h : c.onBlocks? [keyword] ≠ some [keyword]) : c.kind ≠ .endOfFile := by
  intro kind
  exact h (Token.onBlocks?_of_not_isBlockWord (Token.isBlockWord_of_kind (by rw [kind]; decide)) _)

instance (keyword : Token) (scope : Scope) (closers : List Stop)
    [closed : ClosedBy keyword closers] :
    Leaving [keyword] (block nested keyword.span scope closers) := by
  constructor
  intro errors s
  rw [block_eq]
  have body : Leaves errors ((inside nested keyword.span scope closers s).1.pending (some keyword))
      (inside nested keyword.span scope closers) s := leaves_inside nested keyword scope closers
  cases closer : (inside nested keyword.span scope closers s).1.2 with
  | none =>
      rw [Reading.pending, if_pos closer] at body
      apply leaves_bind_closed body
      rw [closing_none closer]
      exact Leaving.leaves errors _
  | some stop =>
      obtain ⟨listed, accepted⟩ := accepts_of_inside nested closer
      have act := closed.closes stop _ listed accepted
      have ahead : (inside nested keyword.span scope closers s).2.current.kind ≠ .endOfFile :=
        kind_ne_of_onBlocks? keyword (by rw [act]; simp)
      rw [Reading.pending, if_neg (by simp [closer])] at body
      apply leaves_bind body
      rw [closing_some closer]
      have closes : Leaves errors [keyword] (advance >>= fun _ =>
          pure ((inside nested keyword.span scope closers s).1.1,
            some (stop, (inside nested keyword.span scope closers s).2.current.span)))
          (inside nested keyword.span scope closers s).2 :=
        leaves_step [keyword] [] act ahead (Leaving.leaves errors _)
      exact ⟨closes.evolves, closes.leaves⟩

instance (keyword : Token) (scope : Scope) (closers : List Stop) [ClosedBy keyword closers] :
    Leaving [keyword] (blockBody nested keyword.span scope closers) := by
  unfold blockBody; infer_instance

/-- A rule that begins at the keyword of a block leaves open what is left of the block. -/
theorem leaves_opening {k : Token → Parser α} {word : BlockWord}
    (opens : s.current.fence? = some (.opens (.block word)))
    (h : ∀ t, t.fence? = some (.opens (.block word)) → Leaving [t] (k t)) :
    Leaves errors [] (current >>= fun t => advance >>= fun _ => k t) s := by
  have later : Leaves errors [] (advance >>= fun _ => k s.current) s :=
    leaves_step [] [s.current] (Token.onBlocks?_opens opens) (Token.kind_ne_of_fence? opens)
      ((h s.current opens).leaves errors s.advance)
  exact ⟨later.evolves, later.leaves⟩

/-- A property may be named by a keyword. -/
instance : Leaving [] (link? nested) := by
  constructor
  intro errors s
  by_cases dot : (s.current.isOperator "." || s.current.isOperator "->") = true
  · have moved : eat (fun t => t.isOperator "." || t.isOperator "->") s = (true, s.advance) := by
      unfold eat
      rw [run_current_bind, if_pos dot]
      rfl
    by_cases name : s.advance.current.kind = .identifier ∨ s.advance.current.kind = .keyword
    · have run : link? nested s = (some (.property s.advance.current.word), s.advance.advance) := by
        unfold link?
        rw [run_bind, moved, if_pos rfl, run_current_bind, if_pos name]
        rfl
      have field : s.advance.current.kind.isFieldName := by
        rcases name with name | name <;> rw [name] <;> decide
      constructor
      · rw [run]
        exact .trans (.single (.advance s)) (.single (.advance s.advance))
      · rw [run]
        exact fun _ => ⟨[], .property (Bool.or_eq_true_iff.mp dot) field (.nil rfl rfl rfl)⟩
    · have run : link? nested s = (eat (fun t => t.isOperator "." || t.isOperator "->") >>= fun _ =>
          expected .name >>= fun _ => pure none : Parser (Option Node)) s := by
        unfold link?
        rw [run_bind, run_bind, moved, if_pos rfl, run_current_bind, if_neg name]
      exact leaves_congr run (Leaving.leaves errors s)
  · have run : link? nested s = (do
        if ← eatOperator "[" then
          let index ← expression nested [.rightBracket]
          eatOr .rightBracket (·.isOperator "]")
          return some (.index index)
        else
          return none : Parser (Option Node)) s := by
      unfold link?
      rw [run_bind, run_eat_not (by simpa using dot), if_neg Bool.false_ne_true]
    exact leaves_congr run (Leaving.leaves errors s)

instance (stops : List Stop) (closer : Token → Bool) [Plain closer] (missing : Expectation)
    (args : List Node) : Leaving [] (argumentPass nested stops closer missing args) := by
  unfold argumentPass; dsimp only; infer_instance

instance (callee : List Node) : LeavingAt (call nested callee) := by
  unfold call; infer_instance

instance (parts : List Node) : Leaving [] (postfixPass nested parts) := by
  unfold postfixPass
  apply leaving_bind
  intro _
  split
  · infer_instance
  apply leaving_current
  intro errors s
  split
  · rename_i kind
    exact LeavingAt.leaves errors s (Token.isBlockWord_of_kind (by rw [kind]; decide))
  · apply leaves_bind (Leaving.leaves errors s)
    cases (link? nested s).1 <;> exact Leaving.leaves errors _

instance (base : Node) : Leaving [] (operandTail nested base) := by
  unfold operandTail; infer_instance

instance (chain : List Node) : Leaving [] (chainPass nested chain) := by
  unfold chainPass
  apply leaving_bind
  intro _
  split
  · infer_instance
  apply leaving_bind
  intro link
  cases link <;> infer_instance

instance : LeavingAt (reference nested) := by unfold reference; dsimp only; infer_instance
instance : LeavingAt (group nested) := by unfold group; infer_instance
instance : LeavingAt (array nested) := by unfold array; infer_instance

/-- The key of a field may be a keyword. -/
instance (fields : List (String × List Node)) : Leaving [] (fieldPass nested fields) := by
  unfold fieldPass
  apply leaving_bind
  intro _
  apply leaving_bind
  intro _
  split
  · infer_instance
  apply leaving_bind
  intro _
  split
  · infer_instance
  apply leaving_current
  intro errors s
  split
  · rename_i field
    rw [← bind_assoc]
    apply leaves_before
    exact leaves_key (fun t sign => Bool.or_eq_true_iff.mp sign) field
  · exact Leaving.leaves errors s

instance : LeavingAt (object nested) := by unfold object; infer_instance

instance : LeavingAt (await nested) := by
  have operand : Leaving [] (current >>= fun t =>
      if t.kind = .identifier then return awaited (← reference nested)
      else return [.operator "await"] : Parser (List Node)) := by
    apply leaving_current
    intro errors s
    split
    · rename_i kind
      exact LeavingAt.leaves errors s (Token.isBlockWord_of_kind (by rw [kind]; decide))
    · exact Leaving.leaves errors s
  unfold await
  infer_instance

theorem leaves_doBlock (opens : s.current.fence? = some (.opens (.block .doBlock))) :
    Leaves errors [] (doBlock nested) s := by
  apply leaves_opening opens
  intro t opened
  have closed : ClosedBy t Stop.doEnd := by
    apply closedBy_of_closesBlock (Token.block?_of_opens opened)
    intro stop hs c hc
    obtain rfl := List.mem_singleton.mp hs
    exact Token.closesBlock_of_end hc
  infer_instance

theorem leaves_wordPart? {t : Token} (here : s.current = t) (keyword : t.kind = .keyword) :
    Leaves errors [] (wordPart? nested t) s := by
  unfold wordPart?
  cases found : ExpressionWord.ofWord? t.word with
  | none => exact Leaving.leaves errors s
  | some word =>
      have fence := Token.fence?_of_expressionWord keyword found
      rw [← here] at fence
      cases word with
      | doBlock => exact leaves_before (leaves_doBlock nested fence)
      | _ => exact LeavingAt.leaves errors s (Token.isBlockWord_of_fence? fence)

instance (t : Token) : LeavingAt (operatorPart? nested t) := by
  unfold operatorPart?; infer_instance

instance : Leaving [] (expressionPart? nested) := by
  apply leaving_current
  intro errors s
  cases kind : s.current.kind with
  | keyword => exact leaves_wordPart? nested rfl kind
  | _ =>
      have plain := Token.isBlockWord_of_kind (t := s.current) (by rw [kind]; decide)
      exact LeavingAt.leaves errors s plain

omit places in
/-- What is not found is skipped. -/
theorem leaves_orReject {p : Parser (Option α)} (spares : Spares p) {k : Option α → Parser β}
    {b : β} (hr : k none = do reject; return b) (hk : ∀ a, Leaving [] (k (some a)))
    (h : Leaves errors [] p s) (going : s.aborted = false) (ahead : s.current.kind ≠ .endOfFile) :
    Leaves errors [] (p >>= k) s := by
  apply leaves_bind h
  cases found : (p s).1 with
  | some a => exact (hk a).leaves errors _
  | none =>
      obtain ⟨rest, aborted⟩ := spares s found
      rw [hr]
      apply leaves_before
      apply leaves_reject (aborted.trans going)
      rwa [ParserState.current_eq_of_rest rest]

instance (stops : List Stop) (reading : Reading) :
    Leaving [] (expressionPass nested stops reading) := by
  apply leaving_get
  intro errors s
  split
  · exact Leaving.leaves errors s
  split
  · exact Leaving.leaves errors s
  rename_i going more
  apply leaves_orReject (expressionPart?_spares nested) rfl (fun _ => inferInstance)
    (Leaving.leaves errors s) (by simpa using going)
  intro kind
  exact more (by simp [Token.endsExpression, kind])

instance (stops : List Stop) : Leaving [] (readExpression nested stops) := by
  unfold readExpression; infer_instance

/-- The closers of a block with a closer of its own. -/
theorem closedBy_of_opens {t : Token} {block : BlockWord} {word : String}
    (opened : t.fence? = some (.opens (.block block)))
    (closer : wordFence? (lowerWord word) = some (.closes (.block block))) :
    ClosedBy t [.plainEnd, .keyword word] :=
  closedBy_of_closesBlock (Token.block?_of_opens opened)
    fun _ hs _ hc => Token.closesBlock_of_accepts closer hs hc

theorem leaves_function (opens : s.current.fence? = some (.opens (.block .function))) :
    Leaves errors [] (function nested) s := by
  apply leaves_opening opens
  intro t opened
  have closed : ClosedBy t Stop.functionEnd := closedBy_of_opens opened (by decide)
  infer_instance

instance : Leaving [] (initializer nested) := by unfold initializer; infer_instance
instance : Leaving [] (variableDecl nested) := by unfold variableDecl; infer_instance

/-- A constant function is a function at its own keyword. -/
instance : LeavingAt (constant nested) := by
  have declared : Leaving [] (do
      if (← current).isKeyword "function" then
        function nested
      else
        let typed ← typedName
        if !(← current).isOperator "=" then expected .equals
        let init ← initializer nested
        return .varDecl typed.name typed.type false typed.isArray init : Parser Node) := by
    apply leaving_current
    intro errors s
    split
    · rename_i keyword
      exact leaves_function nested (Token.fence?_of_isKeyword keyword).2
    · exact Leaving.leaves errors s
  unfold constant
  infer_instance

instance (scope : Scope) : Leaving [] (expressionStatement nested scope) := by
  unfold expressionStatement; infer_instance

instance : LeavingAt (assignment nested) := by
  refine ⟨fun errors s plain => ?_⟩
  apply leaves_bind (LeavingAt.leaves errors s plain)
  apply leaves_bind (Leaving.leaves errors _)
  split <;> exact Leaving.leaves errors _

omit places in
/-- Behind a closer that is no `else` or `elseif` there is no branch. -/
theorem otherwise_eq {stop : Stop} (branch : ¬ (stop = Stop.otherwise ∨ stop = Stop.otherwiseIf))
    (span : Span) : otherwise nested (some (stop, span)) = pure none := by
  rw [not_or] at branch
  exact (if_neg branch.1).trans (if_neg branch.2)

/-- The closer of a branch may be the keyword of the next one. -/
theorem leaves_otherwise {keyword : Token} (branch : keyword.isBranch = true) {stop : Stop}
    (listed : stop ∈ Stop.branchEnd) (accepted : stop.accepts s.current = true)
    {k : Option (List Node) → Parser β} [∀ a, Leaving [] (k a)] :
    Leaves errors [keyword] (advance >>= fun _ =>
      otherwise nested (some (stop, s.current.span)) >>= k) s := by
  have opened : keyword.block? = some .ifStmt := by
    simp only [Token.isBranch, Bool.or_eq_true, decide_eq_true_eq] at branch
    rcases branch with branch | branch <;> rw [Token.block?, branch]
  have ahead : s.current.kind ≠ .endOfFile := by
    rw [Stop.accepts, Bool.and_eq_true, beq_iff_eq] at accepted
    have kinds : ∀ stop ∈ Stop.branchEnd, stop.kind ≠ .endOfFile := by decide
    exact accepted.1 ▸ kinds stop listed
  by_cases other : stop = Stop.otherwise ∨ stop = Stop.otherwiseIf
  · have fence : s.current.fence? = some .otherwise ∨ s.current.fence? = some .otherwiseIf := by
      rcases other with rfl | rfl
      · exact .inl (Token.fence?_of_accepts accepted)
      · exact .inr (Token.fence?_of_accepts accepted)
    apply leaves_step [keyword] [s.current] (Token.onBlocks?_branch fence branch) ahead
    apply leaves_before
    rcases other with rfl | rfl
    · have last : s.current.block? = some .ifStmt := by
        rw [Token.block?, Token.fence?_of_accepts accepted]
        rfl
      have closed : ClosedBy s.current Stop.ifEnd := closedBy_of_closesBlock last
        fun _ hs _ hc => Token.closesBlock_of_accepts (by decide) hs hc
      have body : Leaves errors [s.current]
          (blockBody nested s.current.span .block Stop.ifEnd >>= fun body => pure (some body))
          s.advance := Leaving.leaves errors s.advance
      exact body
    · have next : s.current.isBranch = true := by
        rw [Token.isBranch, Token.fence?_of_accepts accepted]
        decide
      have read := places.condition s.current next
      have rest : Leaves errors [s.current]
          (nested (.condition s.current.span) >>= fun reading => pure (some reading.1))
          s.advance := Leaving.leaves errors s.advance
      exact rest
  · rw [otherwise_eq nested other]
    have closes : s.current.ClosesBlock .ifStmt := by
      simp only [Stop.branchEnd, List.mem_cons, List.not_mem_nil, or_false] at listed
      rcases listed with rfl | rfl | rfl | rfl
      · exact absurd (.inl rfl) other
      · exact absurd (.inr rfl) other
      · exact Token.closesBlock_of_end accepted
      · exact .inl (Token.fence?_of_accepts accepted)
    exact leaves_step [keyword] [] (closes.onBlocks? opened) ahead (Leaving.leaves errors s.advance)

/-- A branch may leave its own keyword, or its closer opens the next one. -/
theorem leaving_readCondition {keyword : Token} (branch : keyword.isBranch = true) :
    Leaving [keyword] (readCondition nested keyword.span) := by
  unfold readCondition
  apply leaving_bind
  intro test
  apply leaving_bind
  intro _
  constructor
  intro errors s
  rw [block_eq, bind_assoc]
  have body : Leaves errors
      ((inside nested keyword.span .block Stop.branchEnd s).1.pending (some keyword))
      (inside nested keyword.span .block Stop.branchEnd) s :=
    leaves_inside nested keyword .block Stop.branchEnd
  cases closer : (inside nested keyword.span .block Stop.branchEnd s).1.2 with
  | none =>
      rw [Reading.pending, if_pos closer] at body
      apply leaves_bind_closed body
      rw [closing_none closer]
      have last : Leaves errors [] (pure ([Node.ifStmt test
          (inside nested keyword.span .block Stop.branchEnd s).1.1 none], none) : Parser Reading)
          (inside nested keyword.span .block Stop.branchEnd s).2 := Leaving.leaves errors _
      exact last
  | some stop =>
      obtain ⟨listed, accepted⟩ := accepts_of_inside nested closer
      rw [Reading.pending, if_neg (by simp [closer])] at body
      apply leaves_bind body
      rw [closing_some closer]
      have later : Leaves errors [keyword] _ _ := leaves_otherwise nested branch listed accepted
        (k := fun rest => (pure ([Node.ifStmt test
          (inside nested keyword.span .block Stop.branchEnd s).1.1 rest], none) : Parser Reading))
      exact ⟨later.evolves, later.leaves⟩

theorem leaves_forStmt (opens : s.current.fence? = some (.opens (.block .forStmt))) :
    Leaves errors [] (forStmt nested) s := by
  apply leaves_opening opens
  intro t opened
  have closed : ClosedBy t Stop.forEnd := closedBy_of_opens opened (by decide)
  infer_instance

theorem leaves_struct (opens : s.current.fence? = some (.opens (.block .struct))) :
    Leaves errors [] (struct nested) s := by
  apply leaves_opening opens
  intro t opened
  have closed : ClosedBy t Stop.structEnd := closedBy_of_opens opened (by decide)
  infer_instance

instance (operands : List Node) : Leaving [] (operandPass nested operands) := by
  unfold operandPass; dsimp only; infer_instance

instance : LeavingAt (instruction nested) := by unfold instruction; dsimp only; infer_instance

theorem leaves_openBlock (scope : Scope) {closers : List Stop} {word : BlockWord}
    (opens : s.current.fence? = some (.opens (.block word)))
    (closed : ∀ t : Token, t.fence? = some (.opens (.block word)) → ClosedBy t closers) :
    Leaves errors [] (openBlock nested scope closers) s := by
  apply leaves_opening opens
  intro t opened
  have := closed t opened
  infer_instance

instance : LeavingAt (afterKeyword nested) := by unfold afterKeyword; infer_instance

theorem leaves_wordStatement (scope : Scope) {word : StatementWord}
    (fence : word ≠ .expression →
      s.current.fence? = word.block?.map fun block => .opens (.block block)) :
    Leaves errors [] (wordStatement nested scope word) s := by
  unfold wordStatement
  cases word with
  | globals =>
      exact leaves_before (leaves_openBlock nested _ (fence (by decide))
        fun t opened => closedBy_of_opens opened (by decide))
  | loop =>
      exact leaves_before (leaves_openBlock nested _ (fence (by decide))
        fun t opened => closedBy_of_opens opened (by decide))
  | function => exact leaves_before (leaves_function nested (fence (by decide)))
  | forStmt => exact leaves_before (leaves_forStmt nested (fence (by decide)))
  | struct => exact leaves_before (leaves_struct nested (fence (by decide)))
  | ifStmt =>
      apply leaves_opening (fence (by decide))
      intro t opened
      have branch : t.isBranch = true := by
        rw [Token.isBranch, show t.fence? = _ from opened]
        decide
      have read := places.condition t branch
      infer_instance
  | expression => exact Leaving.leaves errors s
  | _ => exact LeavingAt.leaves errors s (Token.isBlockWord_of_fence? (fence (by decide)))

instance (scope : Scope) : LeavingAt (nameStatement nested scope) := by
  unfold nameStatement; infer_instance

instance (scope : Scope) : Leaving [] (statement? nested scope) := by
  apply leaving_current
  intro errors s
  cases kind : s.current.kind with
  | keyword =>
      apply leaves_bind (Leaving.leaves errors s)
      cases found : StatementWord.ofWord? s.current.word with
      | some word =>
          apply leaves_before
          apply leaves_wordStatement
          exact Token.fence?_of_statementWord kind found
      | none => exact Leaving.leaves errors _
  | _ =>
      have plain := Token.isBlockWord_of_kind (t := s.current) (by rw [kind]; decide)
      exact LeavingAt.leaves errors s plain

/-- A pass that is not at a loss leaves open what its statement leaves open. When it is done, it is
at a stop, or the parser has given up. -/
theorem leaves_statementPass (scope : Scope) {stops : List Stop} (reading : Reading)
    (ahead : ¬ s.AtLoss stops) :
    Leaves errors [] (statementPass nested scope stops reading) s ∧
      ∀ last, (statementPass nested scope stops reading s).1 = .done last → last.2 = none →
        (statementPass nested scope stops reading s).2.aborted = true := by
  by_cases aborted : s.aborted = true
  · refine ⟨leaves_congr (statementPass_of_aborted nested aborted) (Leaving.leaves errors s), ?_⟩
    rw [statementPass_of_aborted nested aborted]
    exact fun _ _ _ => aborted
  have going : s.aborted = false := by simpa using aborted
  cases found : stops.find? (·.accepts s.current) with
  | some stop =>
      refine ⟨leaves_congr (statementPass_of_stop nested going found) (Leaving.leaves errors s), ?_⟩
      rw [statementPass_of_stop nested going found]
      intro last done none
      cases done
      cases none
  | none =>
      have more : s.current.kind ≠ .endOfFile := fun kind => ahead ⟨going, kind, found⟩
      by_cases lineEnd : s.current.kind = .endOfLine
      · have plain := Token.isBlockWord_of_kind (t := s.current) (by rw [lineEnd]; decide)
        refine ⟨leaves_congr (statementPass_of_lineEnd nested going found lineEnd)
          (LeavingAt.leaves errors s plain), ?_⟩
        rw [statementPass_of_lineEnd nested going found lineEnd]
        intro last done
        cases done
      · refine ⟨leaves_congr (statementPass_of_statement nested going found lineEnd more) ?_, ?_⟩
        · exact leaves_orReject (statement?_spares nested scope) rfl (fun _ => inferInstance)
            (Leaving.leaves errors s) going more
        · rw [statementPass_of_statement nested going found lineEnd more, run_bind]
          intro last done
          cases nodes : (statement? nested scope s).1 <;> rw [nodes] at done <;> cases done

end

end Parser

end MapScript
