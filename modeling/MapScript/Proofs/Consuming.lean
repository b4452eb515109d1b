import MapScript.Proofs.Unrolling

/-!
# Statements consume tokens

A statement that begins at a token moves past that token at least, and so does a part of an
expression. Statements begin with an expression now and then, so that this needs the same of the
reader of nested places.
-/
namespace MapScript

/-- The token can be moved past. -/
class Token.Readable (x : Token) : Prop where
  kind_ne : x.kind ≠ .endOfFile

/-- At the token `x` the parser consumes something, unless it has given up before. -/
class Consumes {α : Type} (x : Token) (p : Parser α) : Prop where
  shorter (s : ParserState) : s.current = x → s.aborted = false →
    (p s).2.rest.length < s.rest.length

namespace Parser
variable {α β : Type} {x : Token} {p : Parser α} {k : α → Parser β}

theorem length_rest_advance_bind {k : Unit → Parser β} [h : ∀ a, Evolving (k a)] {s : ParserState}
    (hs : s.current.kind ≠ .endOfFile) : ((advance >>= k) s).2.rest.length < s.rest.length :=
  Nat.lt_of_le_of_lt ((h ()).evolves s.advance).length_rest (s.length_rest_advance hs)

instance [hx : x.Readable] : Consumes x advance :=
  ⟨fun s hs _ => s.length_rest_advance (hs ▸ hx.kind_ne)⟩

theorem consumes_bind (hp : Consumes x p) (h : ∀ a, Evolving (k a)) : Consumes x (p >>= k) :=
  ⟨fun s hs ha => Nat.lt_of_le_of_lt ((h _).evolves _).length_rest (hp.shorter s hs ha)⟩

instance [hp : Consumes x p] [h : ∀ a, Evolving (k a)] : Consumes x (p >>= k) :=
  consumes_bind hp h

theorem consumes_eat_not {f : Token → Bool} {k : Bool → Parser β} (hf : f x = false)
    (h : Consumes x (k false)) : Consumes x (eat f >>= k) := by
  constructor
  intro s hs ha
  rw [run_bind, run_eat_not (hs ▸ hf)]
  exact h.shorter s hs ha

theorem consumes_current {k : Token → Parser β} (h : Consumes x (k x)) :
    Consumes x (current >>= k) := by
  constructor
  intro s hs ha
  have run := h.shorter s hs ha
  rw [← hs] at run
  exact run

instance {k : Token → Parser β} [h : Consumes x (k x)] : Consumes x (current >>= k) :=
  consumes_current h

instance {k : ParserState → Parser β} [h : ∀ s, Consumes x (k s)] : Consumes x (get >>= k) :=
  ⟨fun s hs ha => (h s).shorter s hs ha⟩

instance (c : Prop) [Decidable c] (p q : Parser α) [hp : Consumes x p] [hq : Consumes x q] :
    Consumes x (if c then p else q) := by
  split
  · exact hp
  · exact hq

/-- A repetition consumes what its first pass does. -/
theorem consumes_repeated {pass : α → Parser (Pass α)} [∀ a, Evolving (pass a)] {a : α}
    (h : Consumes x (pass a)) : Consumes x (repeated pass a) :=
  ⟨fun s hs ha => Nat.lt_of_le_of_lt (evolves_repeated pass a s).length_rest (h.shorter s hs ha)⟩

-- The blocks of the longer rules are too deep for the usual limit on instances.
set_option synthInstance.maxSize 2000

section
variable (nested : PlaceReader) [∀ place, Evolving (nested place)]

instance [x.Readable] : Consumes x (reference nested) := by unfold reference; infer_instance
instance [x.Readable] : Consumes x (group nested) := by unfold group; infer_instance
instance [x.Readable] : Consumes x (array nested) := by unfold array; infer_instance
instance [x.Readable] : Consumes x (object nested) := by unfold object; infer_instance
instance [x.Readable] : Consumes x (await nested) := by unfold await; infer_instance
instance [x.Readable] : Consumes x (doBlock nested) := by
  unfold doBlock; dsimp only; infer_instance
instance [x.Readable] (node : Node) : Consumes x (single node) := by
  unfold single; infer_instance

/-- What the parser finds at the token `x` it consumes. -/
def FindsAhead (x : Token) (p : Parser (Option α)) : Prop :=
  ∀ s : ParserState, s.current = x → s.aborted = false → (p s).1.isSome →
    (p s).2.rest.length < s.rest.length

omit [∀ place, Evolving (nested place)] in
theorem findsAhead_none : FindsAhead x (pure none : Parser (Option α)) :=
  fun _ _ _ h => by cases h

omit [∀ place, Evolving (nested place)] in
theorem findsAhead_of {p : Parser (Option α)} (h : Consumes x p) : FindsAhead x p :=
  fun s hs ha _ => h.shorter s hs ha

omit [∀ place, Evolving (nested place)] in
theorem findsAhead_current {k : Token → Parser (Option β)} (h : FindsAhead x (k x)) :
    FindsAhead x (current >>= k) := by
  intro s hs ha
  have run := h s hs ha
  rw [← hs] at run
  exact run

/-- What is not found is rejected, and so consumed. -/
theorem consumes_orReject {p : Parser (Option α)} [hx : x.Readable] (spares : Spares p)
    (h : FindsAhead x p) {k : Option α → Parser β} {b : β} (hr : k none = do reject; return b)
    (hk : ∀ a, Evolving (k (some a))) : Consumes x (p >>= k) := by
  constructor
  intro s hs ha
  rw [run_bind]
  cases hf : (p s).1 with
  | none =>
      obtain ⟨same, -⟩ := spares s hf
      have current : (p s).2.current = x := by
        rw [← hs]
        unfold ParserState.current ParserState.peek
        rw [same]
      rw [hr]
      change (p s).2.reject.rest.length < _
      rw [ParserState.rest_reject, ← same]
      exact ParserState.length_rest_advance (current ▸ hx.kind_ne)
  | some a =>
      exact Nat.lt_of_le_of_lt ((hk a).evolves _).length_rest (h s hs ha (by rw [hf]; rfl))

theorem expressionPart?_consumes [x.Readable] : FindsAhead x (expressionPart? nested) := by
  refine findsAhead_current ?_
  generalize x.kind = kind
  cases kind with
  | identifier | number | string | leftParen | leftBrace => exact findsAhead_of inferInstance
  | operator =>
      dsimp only
      unfold operatorPart?
      split
      · exact findsAhead_none
      · exact findsAhead_of inferInstance
  | keyword =>
      dsimp only
      unfold wordPart?
      cases ExpressionWord.ofWord? x.word with
      | none => exact findsAhead_none
      | some word => cases word <;> exact findsAhead_of inferInstance
  | _ => exact findsAhead_none

theorem readable_of_endsExpression (hx : x.endsExpression = false) : x.Readable := by
  constructor
  intro hk
  simp [Token.endsExpression, hk] at hx

theorem expressionPass_consumes (hx : x.endsExpression = false) (reading : Reading) :
    Consumes x (expressionPass nested [] reading) := by
  have readable := readable_of_endsExpression hx
  constructor
  intro s hs ha
  unfold expressionPass
  rw [run_get_bind, if_neg (by simp [ha]), if_neg (by simp [hs, hx])]
  exact (consumes_orReject (expressionPart?_spares nested) (expressionPart?_consumes nested) rfl
    fun _ => inferInstance).shorter s hs ha

end

/-- An expression that begins at a token which does not end it consumes something. -/
class Thorough (nested : PlaceReader) : Prop where
  consumes {x : Token} (hx : x.endsExpression = false) : Consumes x (nested (.expression []))

instance : Thorough Place.read where
  consumes hx := by
    constructor
    intro s hs ha
    rw [Place.read_eq]
    exact (consumes_repeated (expressionPass_consumes Place.read hx _)).shorter s hs ha

theorem name_consumes (hx : x.kind = .identifier) : Consumes x name := by
  have readable : x.Readable := ⟨by rw [hx]; decide⟩
  refine consumes_current ?_
  rw [if_pos hx]
  infer_instance

theorem typedName_consumes (hx : x.kind = .identifier) : Consumes x typedName := by
  have readable : x.Readable := ⟨by rw [hx]; decide⟩
  have named := name_consumes hx
  have untyped (s : ParserState) (isTyped : Bool) : Consumes x (do
      let isArray ← eatKeyword "array"
      let name ← name
      return (⟨if isTyped && s.options.types then some s.current.word else none, name,
        isArray⟩ : TypedName)) := by
    refine consumes_eat_not ?_ inferInstance
    simp [Token.isKeyword, Token.isA, hx]
  unfold typedName
  dsimp only
  infer_instance

section
variable (nested : PlaceReader) [∀ place, Evolving (nested place)] [x.Readable]

instance : Consumes x (function nested) := by unfold function; dsimp only; infer_instance
instance : Consumes x (constant nested) := by unfold constant; dsimp only; infer_instance
instance : Consumes x (assignment nested) := by
  refine consumes_bind inferInstance fun _ => evolving_bind inferInstance fun parts => ?_
  split <;> infer_instance
instance : Consumes x (forStmt nested) := by unfold forStmt; dsimp only; infer_instance
instance : Consumes x (struct nested) := by unfold struct; dsimp only; infer_instance
instance : Consumes x (instruction nested) := by unfold instruction; dsimp only; infer_instance
instance (scope : Scope) (closers : List Stop) : Consumes x (openBlock nested scope closers) := by
  unfold openBlock; dsimp only; infer_instance
instance : Consumes x (afterKeyword nested) := by unfold afterKeyword; infer_instance

end

theorem word_eq_of_doBlock {word : String} (h : ExpressionWord.ofWord? word = some .doBlock) :
    word = "do" := by
  unfold ExpressionWord.ofWord? at h
  split_ifs at h <;> cases h
  assumption

theorem isSome_ofWord?_of_expression {word : String}
    (h : StatementWord.ofWord? word = some .expression) : (ExpressionWord.ofWord? word).isSome := by
  unfold StatementWord.ofWord? at h
  split at h
  all_goals first
    | cases h
    | skip
  split at h
  · assumption
  · cases h

theorem findsAhead_note {event : ParseEvent} {k : Unit → Parser (Option β)}
    (h : FindsAhead x (k ())) :
    FindsAhead x ((modify (ParserState.note event) : Parser Unit) >>= k) :=
  fun s hs ha => h (s.note event) hs ha

section
variable (nested : PlaceReader) [∀ place, Evolving (nested place)] [hn : Thorough nested]

omit [∀ place, Evolving (nested place)] in
theorem expressionStatement_consumes (hx : x.endsExpression = false) (scope : Scope) :
    Consumes x (expressionStatement nested scope) := by
  have read := hn.consumes hx
  have parts : Consumes x (expression nested []) := by unfold expression; infer_instance
  unfold expressionStatement
  infer_instance

theorem wordStatement_consumes [x.Readable] (scope : Scope) {word : StatementWord}
    (hw : StatementWord.ofWord? x.word = some word) (hk : x.kind = .keyword) :
    Consumes x (wordStatement nested scope word) := by
  cases word with
  | expression =>
      refine expressionStatement_consumes nested ?_ scope
      simpa [Token.endsExpression, hk] using isSome_ofWord?_of_expression hw
  | _ =>
      unfold wordStatement
      dsimp only
      infer_instance

theorem nameStatement_consumes (hx : x.kind = .identifier) (scope : Scope) :
    Consumes x (nameStatement nested scope) := by
  have readable : x.Readable := ⟨by rw [hx]; decide⟩
  have typed := typedName_consumes hx
  have decl : Consumes x (variableDecl nested) := by unfold variableDecl; infer_instance
  have expr : Consumes x (expressionStatement nested scope) :=
    expressionStatement_consumes nested (by simp [Token.endsExpression, hx]) scope
  unfold nameStatement
  infer_instance

theorem statement?_consumes [x.Readable] (scope : Scope) :
    FindsAhead x (statement? nested scope) := by
  have expression (hx : x.endsExpression = false) :
      FindsAhead x (return some (← expressionStatement nested scope)) :=
    have := expressionStatement_consumes nested hx scope
    findsAhead_of inferInstance
  refine findsAhead_current ?_
  cases hk : x.kind with
  | keyword =>
      refine findsAhead_note ?_
      cases hw : StatementWord.ofWord? x.word with
      | none => exact findsAhead_none
      | some word =>
          have := wordStatement_consumes nested scope hw hk
          exact findsAhead_of inferInstance
  | comment => exact findsAhead_of inferInstance
  | identifier =>
      have := nameStatement_consumes nested hk scope
      exact findsAhead_of inferInstance
  | number | string | operator | leftParen | leftBrace =>
      exact expression (by simp [Token.endsExpression, hk])
  | _ => exact findsAhead_none

end

end Parser

end MapScript
