import MapScript.Proofs.Evolution
import Mathlib.Tactic.SplitIfs

/-!
# Every nested place weighs less

The reader of a place leaves a nested place empty when that does not weigh less, so that reading
ends. This never happens: a rule moves past a token before it comes back to a place of its own
kind. Hence the reader satisfies the equation that one would write down first, in which the places
inside are read by the same reader.

Two readers are compared that agree on the lighter places, and a rule does the same with either.
Most rules are only entered after a token was consumed; for those it is enough that the readers
agree wherever fewer than `n` tokens are left.
-/
namespace MapScript

/-- The parsers do the same where fewer than `n` tokens are left. -/
class SameBelow {α : Type} (n : Nat) (p q : Parser α) : Prop where
  eq (s : ParserState) : s.rest.length < n → p s = q s

/-- The parsers do the same at a token that can be consumed, where at most `n` tokens are left. -/
class SameAt {α : Type} (n : Nat) (p q : Parser α) : Prop where
  eq (s : ParserState) : s.current.kind ≠ .endOfFile → s.rest.length ≤ n → p s = q s

theorem ParserState.length_rest_advance {s : ParserState} (h : s.current.kind ≠ .endOfFile) :
    s.advance.rest.length < s.rest.length := by
  unfold advance
  rw [if_neg h]
  cases hr : s.rest with
  | nil => simp [current, peek, hr, Token.noMore] at h
  | cons t rest => simp

theorem Evolves.length_rest {s t : ParserState} (h : Evolves s t) :
    t.rest.length ≤ s.rest.length :=
  h.rest_suffix.length_le

namespace Parser
variable {α β : Type} {n : Nat}

instance (p : Parser α) : SameBelow n p p := ⟨fun _ _ => rfl⟩

instance (p q : Parser α) (f g : α → Parser β) [h : Evolving p] [hp : SameBelow n p q]
    [hf : ∀ a, SameBelow n (f a) (g a)] : SameBelow n (p >>= f) (q >>= g) := by
  constructor
  intro s hs
  change f (p s).1 (p s).2 = g (q s).1 (q s).2
  rw [← hp.eq s hs]
  exact (hf _).eq _ (Nat.lt_of_le_of_lt (h.evolves s).length_rest hs)

instance (c : Prop) [Decidable c] (p q p' q' : Parser α) [hp : SameBelow n p p']
    [hq : SameBelow n q q'] : SameBelow n (if c then p else q) (if c then p' else q') := by
  split
  · exact hp
  · exact hq

instance (pass pass' : α → Parser (Pass α)) [hp : ∀ a, SameBelow n (pass a) (pass' a)] (a : α) :
    SameBelow n (repeated pass a) (repeated pass' a) := by
  constructor
  intro s hs
  fun_induction repeated pass a s with
  | case1 a s b next run =>
      rw [(hp a).eq s hs] at run
      exact (repeated_of_done run).symm
  | case2 a s b next run lt ih =>
      rw [(hp a).eq s hs] at run
      exact (ih (Nat.lt_trans lt hs)).trans (repeated_of_again run lt).symm
  | case3 a s b next run le =>
      rw [(hp a).eq s hs] at run
      exact (repeated_of_stuck run le).symm

instance (body body' : Parser α) [h : SameBelow n body body'] :
    SameBelow n (framed body) (framed body') := by
  constructor
  intro s hs
  have run := h.eq { s with frames := false :: s.frames } hs
  change ((_, _), _) = ((_, _), _)
  rw [run]

-- The blocks of the longer rules are too deep for the usual limit on instances.
set_option synthInstance.maxSize 2000

section
variable (nested nested' : PlaceReader) [∀ place, Evolving (nested place)]
variable [∀ stops, SameBelow n (nested (.expression stops)) (nested' (.expression stops))]

instance (stops : List Stop) :
    SameBelow n (expression nested stops) (expression nested' stops) := by
  unfold expression; infer_instance

instance : SameBelow n (link? nested) (link? nested') := by unfold link?; infer_instance

instance (stops : List Stop) (closer : Token → Bool) (missing : Expectation) (args : List Node) :
    SameBelow n (argumentPass nested stops closer missing args)
      (argumentPass nested' stops closer missing args) := by
  unfold argumentPass; dsimp only; infer_instance

instance (callee : List Node) : SameBelow n (call nested callee) (call nested' callee) := by
  unfold call; infer_instance

instance (parts : List Node) :
    SameBelow n (postfixPass nested parts) (postfixPass nested' parts) := by
  unfold postfixPass; infer_instance

instance (base : Node) : SameBelow n (operandTail nested base) (operandTail nested' base) := by
  unfold operandTail; infer_instance

instance (chain : List Node) : SameBelow n (chainPass nested chain) (chainPass nested' chain) := by
  unfold chainPass; infer_instance

instance : SameBelow n (reference nested) (reference nested') := by
  unfold reference; dsimp only; infer_instance

instance (fields : List (String × List Node)) :
    SameBelow n (fieldPass nested fields) (fieldPass nested' fields) := by
  unfold fieldPass; infer_instance

instance : SameBelow n (initializer nested) (initializer nested') := by
  unfold initializer; infer_instance

instance : SameBelow n (variableDecl nested) (variableDecl nested') := by
  unfold variableDecl; infer_instance

instance (scope : Scope) :
    SameBelow n (expressionStatement nested scope) (expressionStatement nested' scope) := by
  unfold expressionStatement; infer_instance

instance (operands : List Node) :
    SameBelow n (operandPass nested operands) (operandPass nested' operands) := by
  unfold operandPass; dsimp only; infer_instance

end

section
variable (nested nested' : PlaceReader) [∀ place, Evolving (nested place)]
variable [∀ scope stops,
  SameBelow n (nested (.statements scope stops)) (nested' (.statements scope stops))]

instance (opener : Span) (scope : Scope) (closers : List Stop) :
    SameBelow n (block nested opener scope closers) (block nested' opener scope closers) := by
  constructor
  intro s hs
  have same : SameBelow n (nested (.statements scope closers))
    (nested' (.statements scope closers)) := inferInstance
  rw [run_block, run_block, same.eq { s with openers := opener :: s.openers } hs]

instance (opener : Span) (scope : Scope) (closers : List Stop) :
    SameBelow n (blockBody nested opener scope closers)
      (blockBody nested' opener scope closers) := by
  unfold blockBody; infer_instance

end

instance (p q : Parser α) [h : SameBelow (n + 1) p q] : SameAt n p q :=
  ⟨fun s _ hs => h.eq s (Nat.lt_succ_of_le hs)⟩

instance (k k' : Unit → Parser α) [h : ∀ u, SameBelow n (k u) (k' u)] :
    SameAt n (advance >>= k) (advance >>= k') :=
  ⟨fun s ht hs => (h ()).eq s.advance (Nat.lt_of_lt_of_le (s.length_rest_advance ht) hs)⟩

theorem sameAt_current {k k' : Token → Parser α} (h : ∀ t, SameAt n (k t) (k' t)) :
    SameAt n (current >>= k) (current >>= k') :=
  ⟨fun s => (h s.current).eq s⟩

instance (k k' : Token → Parser α) [h : ∀ t, SameAt n (k t) (k' t)] :
    SameAt n (current >>= k) (current >>= k') := sameAt_current h

instance (k k' : ParserState → Parser α) [h : ∀ s, SameAt n (k s) (k' s)] :
    SameAt n (get >>= k) (get >>= k') :=
  ⟨fun s => (h s).eq s⟩

instance (c : Prop) [Decidable c] (p q p' q' : Parser α) [hp : SameAt n p p']
    [hq : SameAt n q q'] : SameAt n (if c then p else q) (if c then p' else q') := by
  split
  · exact hp
  · exact hq

/-- What comes after the rule is the same in both. -/
instance (p q : Parser α) (k : α → Parser β) [h : SameAt n p q] :
    SameAt n (p >>= k) (q >>= k) := by
  constructor
  intro s ht hs
  change k (p s).1 (p s).2 = k (q s).1 (q s).2
  rw [h.eq s ht hs]

section
variable (nested nested' : PlaceReader) [∀ place, Evolving (nested place)]
variable [∀ place, SameBelow n (nested place) (nested' place)]

instance : SameAt n (reference nested) (reference nested') := by
  unfold reference; dsimp only; infer_instance

instance : SameAt n (await nested) (await nested') := by unfold await; infer_instance
instance : SameAt n (doBlock nested) (doBlock nested') := by
  unfold doBlock; dsimp only; infer_instance

instance (t : Token) : SameAt n (wordPart? nested t) (wordPart? nested' t) := by
  unfold wordPart?
  split <;> infer_instance

instance (t : Token) : SameAt n (operatorPart? nested t) (operatorPart? nested' t) := by
  unfold operatorPart? array
  simp only [bind_assoc]
  infer_instance

instance : SameAt n (expressionPart? nested) (expressionPart? nested') := by
  unfold expressionPart? group object
  simp only [bind_assoc]
  refine sameAt_current fun t => ?_
  generalize t.kind = kind
  cases kind <;> infer_instance

instance : SameBelow n (function nested) (function nested') := by
  unfold function; dsimp only; infer_instance
instance : SameAt n (function nested) (function nested') := by
  unfold function; dsimp only; infer_instance
instance : SameAt n (constant nested) (constant nested') := by
  unfold constant; dsimp only; infer_instance
instance : SameAt n (assignment nested) (assignment nested') := by
  unfold assignment; infer_instance
instance : SameAt n (forStmt nested) (forStmt nested') := by
  unfold forStmt; dsimp only; infer_instance
instance : SameAt n (struct nested) (struct nested') := by
  unfold struct; dsimp only; infer_instance
instance : SameAt n (instruction nested) (instruction nested') := by
  unfold instruction; dsimp only; infer_instance
instance (scope : Scope) (closers : List Stop) :
    SameAt n (openBlock nested scope closers) (openBlock nested' scope closers) := by
  unfold openBlock; dsimp only; infer_instance
instance : SameAt n (afterKeyword nested) (afterKeyword nested') := by
  unfold afterKeyword; infer_instance

section
variable [∀ stops, SameBelow (n + 1) (nested (.expression stops)) (nested' (.expression stops))]

instance (scope : Scope) (word : StatementWord) :
    SameAt n (wordStatement nested scope word) (wordStatement nested' scope word) := by
  cases word <;> unfold wordStatement <;> dsimp only <;> infer_instance

instance (scope : Scope) : SameAt n (nameStatement nested scope) (nameStatement nested' scope) := by
  unfold nameStatement; infer_instance

instance (scope : Scope) : SameAt n (statement? nested scope) (statement? nested' scope) := by
  unfold statement?
  refine sameAt_current fun t => ?_
  generalize t.kind = kind
  cases kind with
  | keyword =>
      -- A note changes neither the cursor nor what is left.
      suffices h : SameAt n
          (match StatementWord.ofWord? t.word with
            | some word => return some (← wordStatement nested scope word)
            | none => return none)
          (match StatementWord.ofWord? t.word with
            | some word => return some (← wordStatement nested' scope word)
            | none => return none) from
        ⟨fun s => h.eq (s.note (.statement t.word))⟩
      cases StatementWord.ofWord? t.word <;> infer_instance
  | _ => infer_instance

end

instance (stops : List Stop) (reading : Reading) :
    SameBelow (n + 1) (expressionPass nested stops reading)
      (expressionPass nested' stops reading) := by
  constructor
  intro s hs
  unfold expressionPass
  rw [run_get_bind, run_get_bind]
  split_ifs with ha he
  · rfl
  · rfl
  · have ht : s.current.kind ≠ .endOfFile := by
      intro hk
      simp [Token.endsExpression, hk] at he
    exact SameAt.eq s ht (Nat.le_of_lt_succ hs)

instance (scope : Scope) (stops : List Stop) (reading : Reading)
    [∀ stops, SameBelow (n + 1) (nested (.expression stops)) (nested' (.expression stops))] :
    SameBelow (n + 1) (statementPass nested scope stops reading)
      (statementPass nested' scope stops reading) := by
  constructor
  intro s hs
  unfold statementPass
  rw [run_get_bind, run_get_bind]
  split_ifs with ha
  · rfl
  cases stops.find? (·.accepts s.current) with
  | some stop => rfl
  | none =>
      dsimp only
      cases hk : s.current.kind with
      | endOfLine | endOfFile => rfl
      | _ => exact SameAt.eq s (by rw [hk]; decide) (Nat.le_of_lt_succ hs)

instance (closer : Option (Stop × Span)) :
    SameBelow n (otherwise nested closer) (otherwise nested' closer) := by
  unfold otherwise
  cases closer <;> infer_instance

end

/-- Statements end at one of their stops when they say so. -/
def Respects (nested : PlaceReader) : Prop :=
  ∀ scope stops s, ∀ stop ∈ (nested (.statements scope stops) s).1.2,
    stop ∈ stops ∧ stop.accepts (nested (.statements scope stops) s).2.current

section
variable {nested : PlaceReader}

theorem readStatements_stop (scope : Scope) (stops : List Stop) (s : ParserState) :
    ∀ stop ∈ (readStatements nested scope stops s).1.2,
      stop ∈ stops ∧ stop.accepts (readStatements nested scope stops s).2.current := by
  unfold readStatements
  have start : (([], none) : Reading).2 = none := rfl
  generalize (([], none) : Reading) = reading at start ⊢
  fun_induction repeated (statementPass nested scope stops) reading s with
  | case1 reading s b next run =>
      have h := statementPass_stop nested scope stops start s
      rw [run] at h
      exact h
  | case2 reading s b next run lt ih =>
      have h := statementPass_stop nested scope stops start s
      rw [run] at h
      exact ih h
  | case3 reading s b next run le =>
      have h := statementPass_stop nested scope stops start s
      rw [run] at h
      change b.2 = none at h
      dsimp only
      rw [h]
      rintro stop ⟨⟩

variable [∀ place, Evolving (nested place)] {nested' : PlaceReader}

/-- A block that was closed has moved past the token that closed it. -/
theorem length_rest_block (hr : Respects nested) {opener : Span} {scope : Scope}
    {closers : List Stop} (hc : ∀ stop ∈ closers, stop.kind ≠ .endOfFile) {s : ParserState}
    {closer : Stop × Span} (h : (block nested opener scope closers s).1.2 = some closer) :
    (block nested opener scope closers s).2.rest.length < s.rest.length := by
  have evolves := Evolving.evolves (p := nested (.statements scope closers))
    { s with openers := opener :: s.openers }
  have respected := hr scope closers { s with openers := opener :: s.openers }
  rw [run_block] at h ⊢
  generalize nested (.statements scope closers) { s with openers := opener :: s.openers } = r at *
  obtain ⟨⟨body, stop⟩, next⟩ := r
  cases stop with
  | none => cases h
  | some stop =>
      obtain ⟨hm, ha⟩ := respected stop rfl
      have hk : next.current.kind ≠ .endOfFile := by
        simp only [Stop.accepts, Bool.and_eq_true, beq_iff_eq] at ha
        rw [ha.1]
        exact hc stop hm
      have lt := ParserState.length_rest_advance
        (s := { next with openers := next.openers.tail }) hk
      exact Nat.lt_of_lt_of_le lt evolves.length_rest

theorem sameBelow_readCondition (hr : Respects nested)
    [∀ place, SameBelow n (nested place) (nested' place)]
    [∀ stops, SameBelow (n + 1) (nested (.expression stops)) (nested' (.expression stops))]
    [∀ scope stops,
      SameBelow (n + 1) (nested (.statements scope stops)) (nested' (.statements scope stops))]
    (opener : Span) :
    SameBelow (n + 1) (readCondition nested opener) (readCondition nested' opener) := by
  have branches (test : List Node) : SameBelow (n + 1)
      (block nested opener .block Stop.branchEnd >>= fun r => otherwise nested r.2 >>= fun rest =>
        return ([.ifStmt test r.1 rest], none) : Parser Reading)
      (block nested' opener .block Stop.branchEnd >>= fun r => otherwise nested' r.2 >>= fun rest =>
        return ([.ifStmt test r.1 rest], none)) := by
    constructor
    intro s hs
    have same : block nested opener .block Stop.branchEnd s =
        block nested' opener .block Stop.branchEnd s := SameBelow.eq s hs
    rw [run_bind (block nested _ _ _), run_bind (block nested' _ _ _), ← same]
    cases hc : (block nested opener .block Stop.branchEnd s).1.2 with
    | none => rfl
    | some closer =>
        have lt := length_rest_block hr (by decide) hc
        exact SameBelow.eq _ (Nat.lt_of_lt_of_le lt (Nat.le_of_lt_succ hs))
  unfold readCondition
  infer_instance

/-- Readers that agree on the lighter places do the same for the rules of a place. -/
theorem plain_eq (hr : Respects nested) (place : Place) (s : ParserState)
    (same : ∀ inner t, inner.weight t < place.weight s → nested inner t = nested' inner t) :
    place.plain nested s = place.plain nested' s := by
  have below (inner : Place) : SameBelow s.rest.length (nested inner) (nested' inner) := by
    refine ⟨fun t ht => same inner t ?_⟩
    cases inner <;> cases place <;> dsimp only [Place.weight] <;> omega
  cases place with
  | expression stops =>
      have rule : SameBelow (s.rest.length + 1) (readExpression nested stops)
          (readExpression nested' stops) := by
        unfold readExpression; infer_instance
      exact rule.eq s (Nat.lt_succ_self _)
  | statements scope stops =>
      have parts (stops : List Stop) : SameBelow (s.rest.length + 1)
          (nested (.expression stops)) (nested' (.expression stops)) := by
        refine ⟨fun t ht => same _ t ?_⟩
        dsimp only [Place.weight]
        omega
      have rule : SameBelow (s.rest.length + 1) (readStatements nested scope stops)
          (readStatements nested' scope stops) := by
        unfold readStatements; infer_instance
      exact rule.eq s (Nat.lt_succ_self _)
  | condition opener =>
      have parts (stops : List Stop) : SameBelow (s.rest.length + 1)
          (nested (.expression stops)) (nested' (.expression stops)) := by
        refine ⟨fun t ht => same _ t ?_⟩
        dsimp only [Place.weight]
        omega
      have statements (scope : Scope) (stops : List Stop) : SameBelow (s.rest.length + 1)
          (nested (.statements scope stops)) (nested' (.statements scope stops)) := by
        refine ⟨fun t ht => same _ t ?_⟩
        dsimp only [Place.weight]
        omega
      exact (sameBelow_readCondition hr opener).eq s (Nat.lt_succ_self _)

omit [∀ place, Evolving (nested place)] in
theorem nodePass_congr {stops : List Stop} {acrossLines : Bool} {found : Option Stop}
    {s : ParserState}
    (same : s.current.kind ≠ .endOfFile → nodes? nested s = nodes? nested' s) :
    nodePass nested stops acrossLines found s = nodePass nested' stops acrossLines found s := by
  unfold nodePass
  rw [run_get_bind, run_get_bind]
  cases stops.find? (·.accepts s.current) with
  | some stop => rfl
  | none =>
      dsimp only
      split_ifs with ha ends line hk
      · rfl
      · rfl
      · rfl
      · rfl
      · rw [run_bind, run_bind, same hk]

/-- Passes that do the same in one mode, and stay in it, do the same when they are repeated. -/
theorem repeated_congr {pass pass' : α → Parser (Pass α)} (inExpression : Bool)
    (same : ∀ a s, s.inExpression = inExpression → s.rest.length < n → pass a s = pass' a s)
    (stays : ∀ a s, s.inExpression = inExpression → (pass a s).2.inExpression = inExpression)
    (a : α) (s : ParserState) (mode : s.inExpression = inExpression) (hs : s.rest.length < n) :
    repeated pass a s = repeated pass' a s := by
  fun_induction repeated pass a s with
  | case1 a s b next run =>
      rw [same a s mode hs] at run
      exact (repeated_of_done run).symm
  | case2 a s b next run lt ih =>
      have kept := stays a s mode
      rw [run] at kept
      rw [same a s mode hs] at run
      exact (ih kept (Nat.lt_trans lt hs)).trans (repeated_of_again run lt).symm
  | case3 a s b next run le =>
      rw [same a s mode hs] at run
      exact (repeated_of_stuck run le).symm

/-- The same for the rules as they are, where nodes go into the target. -/
theorem rules_eq [blind : ∀ place, Blind (nested place)] (hr : Respects nested) (place : Place)
    (s : ParserState)
    (same : ∀ inner t, inner.weight t < place.weight s → nested inner t = nested' inner t) :
    place.rules nested s = place.rules nested' s := by
  have below (inner : Place) : SameBelow s.rest.length (nested inner) (nested' inner) := by
    refine ⟨fun t ht => same inner t ?_⟩
    cases inner <;> cases place <;> dsimp only [Place.weight] <;> omega
  cases place with
  | expression stops =>
      have run : readNodes nested stops false { s with target := [], inExpression := true } =
          readNodes nested' stops false { s with target := [], inExpression := true } := by
        refine repeated_congr (n := s.rest.length + 1) true ?_ ?_ none _ rfl (Nat.lt_succ_self _)
        · intro found t mode ht
          refine nodePass_congr fun hk => ?_
          unfold nodes?
          rw [run_get_bind, run_get_bind, mode]
          exact SameAt.eq (p := expressionPart? nested) (q := expressionPart? nested') t hk
            (Nat.le_of_lt_succ ht)
        · intro found t mode
          have here : t = t.within t.target t.scope true := by rw [ParserState.within, ← mode]
          obtain ⟨stop, pass⟩ :=
            nodePass_inExpression nested stops false found (t.target, none) t.scope t
          rw [here]
          exact congrArg (fun r : Pass (Option Stop) × ParserState => r.2.inExpression) pass
      exact congrArg (fun r : Option Stop × ParserState => ((r.2.target, none),
        { r.2 with target := s.target, inExpression := s.inExpression })) run
  | statements scope stops =>
      have parts (stops : List Stop) : SameBelow (s.rest.length + 1)
          (nested (.expression stops)) (nested' (.expression stops)) := by
        refine ⟨fun t ht => same _ t ?_⟩
        dsimp only [Place.weight]
        omega
      have run : readNodes nested stops true
            { s with target := [], scope := scope, inExpression := false } =
          readNodes nested' stops true
            { s with target := [], scope := scope, inExpression := false } := by
        refine repeated_congr (n := s.rest.length + 1) false ?_ ?_ none _ rfl (Nat.lt_succ_self _)
        · intro found t mode ht
          refine nodePass_congr fun hk => ?_
          unfold nodes?
          rw [run_get_bind, run_get_bind, mode]
          exact SameAt.eq (p := statement? nested t.scope) (q := statement? nested' t.scope) t hk
            (Nat.le_of_lt_succ ht)
        · intro found t mode
          have here : t = t.within t.target t.scope false := by rw [ParserState.within, ← mode]
          have pass := nodePass_statements nested stops found (t.target, none) rfl t.scope t
          rw [here]
          exact congrArg (fun r : Pass (Option Stop) × ParserState => r.2.inExpression) pass
      exact congrArg (fun r : Option Stop × ParserState => ((r.2.target, r.1),
        { r.2 with
          target := s.target, scope := s.scope, inExpression := s.inExpression })) run
  | condition opener => exact plain_eq hr (.condition opener) s same

end

end Parser

namespace Place

theorem read_respects : Parser.Respects Place.read := by
  intro scope stops s
  refine (Place.statements scope stops).read_induction (P := fun place _ r =>
    ∀ scope stops, place = .statements scope stops →
      ∀ stop ∈ r.1.2, stop ∈ stops ∧ stop.accepts r.2.current) ?_ ?_ s scope stops rfl
  · rintro _ _ _ _ _ _ ⟨⟩
  · rintro nested _ _ place s scope stops rfl
    exact Parser.readStatements_stop scope stops s

instance (n : Nat) (inner : Place) : Evolving (readBelow n inner) := by
  constructor
  intro t
  unfold readBelow
  split
  · exact Evolving.evolves t
  · exact .refl t

theorem readBelow_respects (n : Nat) : Parser.Respects (readBelow n) := by
  intro scope stops t
  unfold readBelow
  split
  · exact read_respects scope stops t
  · rintro stop ⟨⟩

/-- The places inside a place are read as the place itself is. -/
theorem read_eq (place : Place) (s : ParserState) :
    place.read s = place.plain Place.read s := by
  rw [read_eq_readBelow]
  exact Parser.plain_eq (readBelow_respects _) place s fun inner t h => if_pos h

end Place

namespace ParserState

/-- The place that a parser reads in, as it stands. -/
def place (stops : List Stop) (s : ParserState) : Place :=
  if s.inExpression then .expression stops else .statements s.scope stops

/-- Nothing is going on: a node would go into an empty target, as a statement of a block. -/
structure AtRest (s : ParserState) : Prop where
  target : s.target = []
  scope : s.scope = .block
  inExpression : s.inExpression = false

theorem atRest_start (o : ParseOptions) (tokens : List Token) : (start o tokens).AtRest :=
  ⟨rfl, rfl, rfl⟩

theorem atRest_reset (tokens : List Token) (s : ParserState) : (s.reset tokens).AtRest :=
  atRest_start s.options _

/-- The repetition over nodes reads the place that the parser stands in. -/
theorem readNodes_eq (stops : List Stop) (s : ParserState) : ∃ found,
    Parser.readNodes Place.read stops true { s with target := [] } =
      (found, ((s.place stops).read s).2.within ((s.place stops).read s).1.1 s.scope
        s.inExpression) ∧
      (s.inExpression = false → found = ((s.place stops).read s).1.2) := by
  unfold place
  cases s.inExpression with
  | false =>
      have run := Parser.readNodes_statements Place.read stops none ([], none) rfl s.scope s
      rw [Place.read_eq]
      exact ⟨_, run, fun _ => rfl⟩
  | true =>
      obtain ⟨found, run⟩ :=
        Parser.readNodes_inExpression Place.read stops true none ([], none) s.scope s
      rw [Place.read_eq]
      refine ⟨found, run, ?_⟩
      rintro ⟨⟩

/-- A stop that was found is consumed. The target, the scope and the mode are put back. -/
theorem readUntil_eq (stop : Option Stop) (s : ParserState) : ∃ found,
    s.readUntil stop =
      (((s.place (stop.toList ++ [.endOfFile])).read s).1.1,
        if found.isSome then ((s.place (stop.toList ++ [.endOfFile])).read s).2.advance
        else ((s.place (stop.toList ++ [.endOfFile])).read s).2) ∧
      (s.inExpression = false →
        found = ((s.place (stop.toList ++ [.endOfFile])).read s).1.2) := by
  obtain ⟨found, run, stopped⟩ := s.readNodes_eq (stop.toList ++ [.endOfFile])
  refine ⟨found, ?_, stopped⟩
  generalize hp : s.place (stop.toList ++ [.endOfFile]) = place at run
  have kept : (place.read s).2.within s.target s.scope s.inExpression = (place.read s).2 :=
    Blind.kept inferInstance s
  unfold readUntil
  rw [run]
  cases found with
  | none => exact congrArg (Prod.mk _) kept
  | some stop =>
      have moved := congrArg advance kept
      rw [advance_within] at moved
      change (((place.read s).2.within (place.read s).1.1 s.scope s.inExpression).advance.target,
        { ((place.read s).2.within (place.read s).1.1 s.scope s.inExpression).advance with
          target := s.target }) = _
      rw [advance_within]
      exact congrArg (Prod.mk _) moved

/-- Whatever is read, the target, the scope and the mode are the ones from before. -/
theorem kept_readUntil (stop : Option Stop) (s : ParserState) :
    (s.readUntil stop).2.within s.target s.scope s.inExpression = (s.readUntil stop).2 := by
  obtain ⟨found, run, -⟩ := s.readUntil_eq stop
  have kept : ((s.place (stop.toList ++ [.endOfFile])).read s).2.within s.target s.scope
      s.inExpression = ((s.place (stop.toList ++ [.endOfFile])).read s).2 :=
    Blind.kept inferInstance s
  rw [run]
  dsimp only
  split
  · rw [← advance_within, kept]
  · exact kept

section
variable {s : ParserState}

theorem atRest_iff : s.AtRest ↔ s.within [] .block false = s := by
  constructor
  · rintro ⟨target, scope, inExpression⟩
    rw [← target, ← scope, ← inExpression]
    rfl
  · intro same
    rw [← same]
    exact ⟨rfl, rfl, rfl⟩

theorem AtRest.advance (h : s.AtRest) : s.advance.AtRest := by
  rw [atRest_iff] at h ⊢
  rw [← advance_within, h]

theorem AtRest.readUntil (h : s.AtRest) (stop : Option Stop) : (s.readUntil stop).2.AtRest := by
  have kept := s.kept_readUntil stop
  rw [h.target, h.scope, h.inExpression] at kept
  exact atRest_iff.mpr kept

end

theorem readUntil_of_read {s t : ParserState} {stop found : Option Stop} {nodes : List Node}
    (rest : s.AtRest)
    (h : (Place.statements .block (stop.toList ++ [.endOfFile])).read s = ((nodes, found), t)) :
    s.readUntil stop = (nodes, if found.isSome then t.advance else t) := by
  have here : s.place (stop.toList ++ [.endOfFile]) =
      .statements .block (stop.toList ++ [.endOfFile]) := by
    rw [place, rest.inExpression, rest.scope]
    rfl
  obtain ⟨other, run, stopped⟩ := s.readUntil_eq stop
  rw [here, h] at run stopped
  rw [run, stopped rest.inExpression]

/-- A program is the statements up to the end of file. -/
theorem readProgram_of_read {s t : ParserState} {reading : Reading} (rest : s.AtRest)
    (h : (Place.statements .block [.endOfFile]).read s = (reading, t)) :
    s.readProgram.1 = ⟨⟨reading.1, t.isAsync⟩, t.errors, t.aborted⟩ := by
  obtain ⟨body, stop⟩ := reading
  have read : s.readUntil none = (body, if stop.isSome then t.advance else t) :=
    readUntil_of_read rest h
  unfold readProgram
  rw [read]
  cases stop with
  | none => rfl
  | some stop => simp [finish, isAsync]

theorem readUntil_evolves (stop : Option Stop) (s : ParserState) :
    Evolves s (s.readUntil stop).2 := by
  obtain ⟨found, run, -⟩ := s.readUntil_eq stop
  have read : Evolves s ((s.place (stop.toList ++ [.endOfFile])).read s).2 := Evolving.evolves s
  rw [run]
  dsimp only
  split
  · exact read.trans (.single (.advance _))
  · exact read

end ParserState

theorem parse_eq (o : ParseOptions) (tokens : List Token) {body : List Node} {stop : Option Stop}
    {s : ParserState} (h : (Place.statements .block [.endOfFile]).read
      (.start o (terminated tokens)) = ((body, stop), s)) :
    parse o tokens = ⟨⟨body, s.isAsync⟩, s.errors, s.aborted⟩ :=
  ParserState.readProgram_of_read (ParserState.atRest_start o _) h

end MapScript
