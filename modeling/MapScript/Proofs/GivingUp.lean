import MapScript.Lexeme.Tokens
import MapScript.Proofs.Accounting
import MapScript.Proofs.Locating

/-!
# After the parser has given up

A parser that has given up reads no more statements and no more parts of expressions. But the rules
that are open still look for what has to come next, and report it if it is missing; so the last
error need not be that the parser gave up.

Nothing else is reported then. And nothing is reported at all unless the parser gave up inside an
expression: at a square bracket that closes nothing, which is the only token that an expression
skips, or somewhere behind a `do`. After the statements of a block no rule asks for anything.
-/
namespace MapScript

/-- If the parser has given up it knows, and what was reported since then is that something is
missing. -/
def Ceased (s : ParserState) : Prop :=
  ∀ before last after, s.errors = before ++ .budgetExhausted last :: after →
    s.aborted = true ∧ ∀ e ∈ after, ∃ wanted found, e = .expected wanted found

theorem Ceased.record {s : ParserState} (h : Ceased s) {error : ParseError}
    (plain : error.isExhausted = false)
    (missing : s.aborted = true → ∃ wanted found, error = .expected wanted found) :
    Ceased (s.record error) := by
  intro before last after errors
  unfold ParserState.record at errors ⊢
  split at errors
  · rw [if_pos ‹_›]
    dsimp only at errors ⊢
    rcases after.eq_nil_or_concat with rfl | ⟨first, e, rfl⟩
    · obtain ⟨-, same⟩ := List.append_inj' errors rfl
      obtain rfl := (List.cons.inj same).1
      cases plain
    · rw [List.concat_eq_append, ← List.cons_append, ← List.append_assoc] at errors
      obtain ⟨kept, same⟩ := List.append_inj' errors rfl
      obtain rfl := (List.cons.inj same).1
      obtain ⟨aborted, expected⟩ := h before last first kept
      refine ⟨aborted, ?_⟩
      rw [List.concat_eq_append]
      exact List.forall_mem_append.mpr ⟨expected, by simpa using missing aborted⟩
  · rw [if_neg ‹_›]
    exact h before last after errors

theorem Ceased.reject {s : ParserState} (h : Ceased s) (going : s.aborted = false) :
    Ceased s.reject := by
  have skipped : Ceased ((s.advance.note (.skipping s.current s.budget)).record
      (.unexpectedToken s.current)) := by
    apply Ceased.record _ rfl
    · intro aborted
      have : s.advance.aborted = true := aborted
      rw [s.aborted_advance, going] at this
      cases this
    · have : Ceased s.advance := by simpa [Ceased] using h
      exact this
  have stillGoing : ((s.advance.note (.skipping s.current s.budget)).record
      (.unexpectedToken s.current)).aborted = false := by
    rw [ParserState.aborted_record]
    exact s.aborted_advance.trans going
  unfold ParserState.reject
  dsimp only
  generalize ParserState.record _ (s.advance.note _) = t at skipped stillGoing
  split
  · intro before last after errors
    refine ⟨rfl, ?_⟩
    rcases after.eq_nil_or_concat with rfl | ⟨first, e, rfl⟩
    · exact List.forall_mem_nil _
    · -- The parser would have given up before.
      rw [List.concat_eq_append, ← List.cons_append, ← List.append_assoc] at errors
      obtain ⟨kept, -⟩ := List.append_inj' errors rfl
      cases stillGoing.symm.trans (skipped before last first kept).1
  · exact skipped

theorem Step.ceased {s t : ParserState} (h : Step s t) (hs : Ceased s) : Ceased t := by
  cases h with
  | advance => simpa [Ceased] using hs
  | markAsync => simpa [Ceased] using hs
  | skipLineEnds | note => exact hs
  | expected wanted => exact hs.record rfl fun _ => ⟨wanted, s.current, rfl⟩
  | ended closer going =>
      apply hs.record rfl
      intro aborted
      cases going.symm.trans aborted
  | reject going => exact hs.reject going

theorem Evolves.ceased {s t : ParserState} (h : Evolves s t) (hs : Ceased s) : Ceased t := by
  induction h with
  | refl => exact hs
  | single step => exact step.ceased hs
  | trans _ _ ih ih' => exact ih' (ih hs)
  | framed _ ih | blocked _ _ ih => exact ih hs

/-- The parser gave up inside an expression, or where one may be around it: at a bracket, or behind
a `do`. -/
def GaveUpInside (tokens : List Token) (s : ParserState) : Prop :=
  ∃ read last, read ++ [last] <+: tokens ∧ last.kind ≠ .endOfFile ∧
    .budgetExhausted last ∈ s.errors ∧
    (last.isOperator "]" = true ∨ ∃ x ∈ read, x.isKeyword "do" = true)

/-- If the parser has given up, then inside an expression. -/
structure Excused (tokens : List Token) (s : ParserState) : Prop where
  ahead : s.rest <:+ tokens
  inside : s.aborted = true → GaveUpInside tokens s

/-- If the parser has given up, then inside an expression, or it has reported nothing since. -/
structure Quiet (tokens : List Token) (s : ParserState) : Prop where
  ahead : s.rest <:+ tokens
  last : s.aborted = true → GaveUpInside tokens s ∨
    ∃ before last, s.errors = before ++ [.budgetExhausted last]

section
variable {tokens : List Token} {s t : ParserState}

theorem GaveUpInside.mono (h : GaveUpInside tokens s) (errors : s.errors <+: t.errors) :
    GaveUpInside tokens t := by
  obtain ⟨read, last, split, more, mem, inside⟩ := h
  exact ⟨read, last, split, more, errors.mem mem, inside⟩

theorem Excused.of_going (ahead : s.rest <:+ tokens) (going : s.aborted = false) :
    Excused tokens s := by
  refine ⟨ahead, fun aborted => ?_⟩
  cases going.symm.trans aborted

theorem Excused.quiet (h : Excused tokens s) : Quiet tokens s :=
  ⟨h.ahead, fun aborted => .inl (h.inside aborted)⟩

/-- A parser that skips a token gives up at this token, if it does. -/
theorem errors_of_aborted_reject (going : s.aborted = false) (aborted : s.reject.aborted = true) :
    ∃ before, s.reject.errors = before ++ [.budgetExhausted s.current] := by
  unfold ParserState.reject at aborted ⊢
  dsimp only at aborted ⊢
  split at aborted
  · rw [if_pos ‹_›]
    exact ⟨_, rfl⟩
  · simp [ParserState.note, going] at aborted

theorem Quiet.reject (ahead : s.rest <:+ tokens) (going : s.aborted = false) :
    Quiet tokens s.reject := by
  constructor
  · rw [s.rest_reject]
    exact s.rest_advance_suffix.trans ahead
  · intro aborted
    obtain ⟨before, errors⟩ := errors_of_aborted_reject going aborted
    exact .inr ⟨before, s.current, errors⟩

/-- Skipping a bracket, or a token behind a `do`, is an excuse. -/
theorem Excused.reject {read : List Token} (split : tokens = read ++ s.rest)
    (going : s.aborted = false) (more : s.current.kind ≠ .endOfFile)
    (inside : s.current.isOperator "]" = true ∨ ∃ x ∈ read, x.isKeyword "do" = true) :
    Excused tokens s.reject := by
  constructor
  · rw [s.rest_reject]
    exact s.rest_advance_suffix.trans ⟨read, split.symm⟩
  · intro aborted
    obtain ⟨before, errors⟩ := errors_of_aborted_reject going aborted
    refine ⟨read, s.current, ⟨s.advance.rest, ?_⟩, more, by simp [errors], inside⟩
    rw [split, s.rest_advance more, List.append_assoc]
    rfl

/-- A step that skips nothing keeps an excuse. -/
theorem Excused.step (h : Excused tokens s) (step : Step s t) (same : t.aborted = s.aborted) :
    Excused tokens t := by
  constructor
  · exact step.rest_suffix.trans h.ahead
  · intro aborted
    exact (h.inside (same.symm.trans aborted)).mono step.errors_prefix

/-- Behind a `do` there is always an excuse. -/
theorem Excused.evolves (h : Excused tokens s) (evolves : Evolves s t) {read : List Token}
    (split : tokens = read ++ s.rest) (behind : ∃ x ∈ read, x.isKeyword "do" = true) :
    Excused tokens t := by
  induction evolves generalizing read with
  | refl => exact h
  | single step =>
      cases step with
      | reject going more => exact .reject split going more (.inr behind)
      | advance => exact h.step (.advance _) (ParserState.aborted_advance _)
      | skipLineEnds => exact h.step (.skipLineEnds _) rfl
      | note word => exact h.step (.note _ word) rfl
      | expected wanted => exact h.step (.expected _ wanted) (ParserState.aborted_record _ _)
      | ended closer going eof =>
          exact h.step (.ended _ closer going eof) (ParserState.aborted_record _ _)
      | markAsync => exact h.step (.markAsync _) (ParserState.aborted_markAsync _)
  | trans first _ ih ih' =>
      obtain ⟨taken, rest⟩ := first.rest_suffix
      rw [← rest, ← List.append_assoc] at split
      obtain ⟨x, hx, word⟩ := behind
      exact ih' (ih h (by rw [split, List.append_assoc, rest]) ⟨x, hx, word⟩) split
        ⟨x, List.mem_append_left _ hx, word⟩
  | framed _ ih | blocked _ _ ih =>
      have inner := ih ⟨h.ahead, h.inside⟩ split behind
      exact ⟨inner.ahead, inner.inside⟩

end

/-- Where `P` holds before the parser runs, it holds afterwards. -/
class Keeps (P : ParserState → Prop) {α : Type} (p : Parser α) : Prop where
  kept (s : ParserState) : P s → P (p s).2

/-- A rule that has expressions first and statements last. -/
class Quieting (tokens : List Token) {α : Type} (p : Parser α) : Prop where
  quiets (s : ParserState) : Excused tokens s → Quiet tokens (p s).2

namespace Parser

variable {tokens : List Token} {P : ParserState → Prop} {α β : Type}

theorem keeps_bind {p : Parser α} {f : α → Parser β} (hp : Keeps P p) (hf : ∀ a, Keeps P (f a)) :
    Keeps P (p >>= f) :=
  ⟨fun s hs => (hf _).kept _ (hp.kept s hs)⟩

instance (a : α) : Keeps P (pure a : Parser α) := ⟨fun _ hs => hs⟩
instance : Keeps P (get : Parser ParserState) := ⟨fun _ hs => hs⟩
instance : Keeps P current := ⟨fun _ hs => hs⟩
instance : Keeps P isAborted := ⟨fun _ hs => hs⟩

instance (p : Parser α) (f : α → Parser β) [hp : Keeps P p] [hf : ∀ a, Keeps P (f a)] :
    Keeps P (p >>= f) := keeps_bind hp hf

instance (c : Prop) [Decidable c] (p q : Parser α) [hp : Keeps P p] [hq : Keeps P q] :
    Keeps P (if c then p else q) := by
  split
  · exact hp
  · exact hq

instance (pass : α → Parser (Pass α)) [h : ∀ a, Keeps P (pass a)] (a : α) :
    Keeps P (repeated pass a) := by
  constructor
  intro s hs
  fun_induction repeated pass a s with
  | case1 a s b next run | case3 a s b next run _ =>
      have last := (h a).kept s hs
      rwa [run] at last
  | case2 a s b next run _ ih =>
      have first := (h a).kept s hs
      rw [run] at first
      exact ih first

instance (p : Parser α) [h : Keeps (Excused tokens) p] : Quieting tokens p :=
  ⟨fun s hs => (h.kept s hs).quiet⟩

instance (p : Parser α) [h : Keeps (Quiet tokens) p] : Quieting tokens p :=
  ⟨fun s hs => h.kept s hs.quiet⟩

theorem quieting_bind {p : Parser α} {f : α → Parser β} (hp : Keeps (Excused tokens) p)
    (hf : ∀ a, Quieting tokens (f a)) : Quieting tokens (p >>= f) :=
  ⟨fun s hs => (hf _).quiets _ (hp.kept s hs)⟩

instance (p : Parser α) (f : α → Parser β) [hp : Keeps (Excused tokens) p]
    [hf : ∀ a, Quieting tokens (f a)] : Quieting tokens (p >>= f) := quieting_bind hp hf

instance (p : Parser α) (f : α → Parser β) [hp : Quieting tokens p]
    [hf : ∀ a, Keeps (Quiet tokens) (f a)] : Quieting tokens (p >>= f) :=
  ⟨fun s hs => (hf _).kept _ (hp.quiets s hs)⟩

instance (c : Prop) [Decidable c] (p q : Parser α) [hp : Quieting tokens p]
    [hq : Quieting tokens q] : Quieting tokens (if c then p else q) := by
  split
  · exact hp
  · exact hq

theorem keeps_excused_of_step {p : Parser α} (h : ∀ s, Step s (p s).2)
    (same : ∀ s, (p s).2.aborted = s.aborted) : Keeps (Excused tokens) p :=
  ⟨fun s hs => hs.step (h s) (same s)⟩

instance : Keeps (Excused tokens) advance :=
  keeps_excused_of_step .advance ParserState.aborted_advance
instance : Keeps (Excused tokens) skipLineEnds := keeps_excused_of_step .skipLineEnds fun _ => rfl
instance (wanted : Expectation) : Keeps (Excused tokens) (expected wanted) :=
  keeps_excused_of_step (fun s => .expected s wanted) fun s => s.aborted_record _
instance : Keeps (Excused tokens) (modify ParserState.markAsync : Parser Unit) :=
  keeps_excused_of_step .markAsync ParserState.aborted_markAsync
instance (word : String) :
    Keeps (Excused tokens) (modify (ParserState.note (.statement word)) : Parser Unit) :=
  keeps_excused_of_step (fun s => .note s word) fun _ => rfl

instance (p : Token → Bool) : Keeps (Excused tokens) (eat p) := by unfold eat; infer_instance
instance (kind : TokenKind) : Keeps (Excused tokens) (eatKind kind) := by
  unfold eatKind; infer_instance
instance (word : String) : Keeps (Excused tokens) (eatKeyword word) := by
  unfold eatKeyword; infer_instance
instance (symbol : String) : Keeps (Excused tokens) (eatOperator symbol) := by
  unfold eatOperator; infer_instance
instance (wanted : Expectation) (p : Token → Bool) : Keeps (Excused tokens) (eatOr wanted p) := by
  unfold eatOr; infer_instance
instance : Keeps (Excused tokens) name := by unfold name; infer_instance

instance (body : Parser α) [h : Keeps (Quiet tokens) body] :
    Keeps (Quiet tokens) (framed body) := by
  constructor
  intro s hs
  have inner := h.kept { s with frames := false :: s.frames } ⟨hs.ahead, hs.last⟩
  exact ⟨inner.ahead, inner.last⟩

instance (u : Unit) : Keeps (Quiet tokens) (headerPass u) := by
  constructor
  intro s hs
  unfold headerPass
  rw [run_get_bind]
  split
  · exact hs
  · rename_i going
    simp only [Bool.or_eq_true, not_or] at going
    exact .reject hs.ahead (by simpa using going.1)

instance : Keeps (Quiet tokens) skipToLineEnd := by unfold skipToLineEnd; infer_instance

instance : Keeps (Excused tokens) typedName := by unfold typedName; dsimp only; infer_instance

instance (list : List Param) : Keeps (Excused tokens) (paramPass list) := by
  unfold paramPass; dsimp only; infer_instance

instance : Keeps (Excused tokens) params := by unfold params; infer_instance
instance : Keeps (Excused tokens) paramList := by unfold paramList; infer_instance
instance : Keeps (Excused tokens) returnType := by unfold returnType; infer_instance

end Parser

/-- What reading a place does about giving up. Statements that come to a stop have not been given
up. -/
def Place.Ceases (tokens : List Token) (s : ParserState) (r : Reading × ParserState) :
    Place → Prop
  | expression _ => Excused tokens s → Excused tokens r.2
  | statements _ _ => (Quiet tokens s → Quiet tokens r.2) ∧ (r.1.2.isSome → r.2.aborted = false)
  | condition _ => Excused tokens s → Quiet tokens r.2

class CeasingPlaces (tokens : List Token) (nested : PlaceReader) : Prop where
  ceases (place : Place) (s : ParserState) : place.Ceases tokens s (nested place s)

namespace Parser

-- The blocks of the longer rules are too deep for the usual limit on instances.
set_option synthInstance.maxSize 1000

section
variable {tokens : List Token} (nested : PlaceReader) [∀ place, Evolving (nested place)]
  [places : CeasingPlaces tokens nested]

omit [∀ place, Evolving (nested place)] in
instance (stops : List Stop) : Keeps (Excused tokens) (expression nested stops) :=
  ⟨places.ceases (.expression stops)⟩

omit [∀ place, Evolving (nested place)] in
/-- A block that was closed has not been given up. -/
theorem quiet_block (opener : Span) (scope : Scope) (closers : List Stop) {s : ParserState}
    (hs : Quiet tokens s) : Quiet tokens (block nested opener scope closers s).2 ∧
      ((block nested opener scope closers s).1.2.isSome →
        (block nested opener scope closers s).2.aborted = false) := by
  obtain ⟨quiet, going⟩ :=
    places.ceases (.statements scope closers) { s with openers := opener :: s.openers }
  have inside := quiet ⟨hs.ahead, hs.last⟩
  clear quiet
  rw [run_block]
  generalize nested (.statements scope closers) { s with openers := opener :: s.openers } = r
    at inside going
  obtain ⟨⟨body, _ | stop⟩, next⟩ := r
  · exact ⟨⟨inside.ahead, inside.last⟩, fun closed => by cases closed⟩
  · have closed : Excused tokens { next with openers := next.openers.tail } :=
      .of_going inside.ahead (going rfl)
    have past := closed.step (.advance _) (ParserState.aborted_advance _)
    exact ⟨past.quiet, fun _ => (ParserState.aborted_advance _).trans (going rfl)⟩

omit [∀ place, Evolving (nested place)] in
instance (opener : Span) (scope : Scope) (closers : List Stop) :
    Keeps (Quiet tokens) (block nested opener scope closers) :=
  ⟨fun _ hs => (quiet_block nested opener scope closers hs).1⟩

omit [∀ place, Evolving (nested place)] in
instance (opener : Span) (scope : Scope) (closers : List Stop) :
    Keeps (Quiet tokens) (blockBody nested opener scope closers) := by
  unfold blockBody; infer_instance

instance : Keeps (Excused tokens) (link? nested) := by unfold link?; infer_instance

instance (stops : List Stop) (closer : Token → Bool) (missing : Expectation) (args : List Node) :
    Keeps (Excused tokens) (argumentPass nested stops closer missing args) := by
  unfold argumentPass; dsimp only; infer_instance

instance (callee : List Node) : Keeps (Excused tokens) (call nested callee) := by
  unfold call; infer_instance

instance (parts : List Node) : Keeps (Excused tokens) (postfixPass nested parts) := by
  unfold postfixPass
  apply keeps_bind inferInstance
  intro _
  split
  · infer_instance
  apply keeps_bind inferInstance
  intro _
  split
  · infer_instance
  apply keeps_bind inferInstance
  intro link
  cases link <;> infer_instance

instance (base : Node) : Keeps (Excused tokens) (operandTail nested base) := by
  unfold operandTail; infer_instance

instance (chain : List Node) : Keeps (Excused tokens) (chainPass nested chain) := by
  unfold chainPass
  apply keeps_bind inferInstance
  intro _
  split
  · infer_instance
  apply keeps_bind inferInstance
  intro link
  cases link <;> infer_instance

instance : Keeps (Excused tokens) (reference nested) := by
  unfold reference; dsimp only; infer_instance
instance : Keeps (Excused tokens) (group nested) := by unfold group; infer_instance
instance : Keeps (Excused tokens) (array nested) := by unfold array; infer_instance

instance (fields : List (String × List Node)) :
    Keeps (Excused tokens) (fieldPass nested fields) := by
  unfold fieldPass; infer_instance

instance : Keeps (Excused tokens) (object nested) := by unfold object; infer_instance
instance : Keeps (Excused tokens) (await nested) := by unfold await; infer_instance
instance (node : Node) : Keeps (Excused tokens) (single node) := by unfold single; infer_instance

omit places in
/-- A rule that begins with `do` stands behind it from then on. -/
theorem excused_doBlock {s : ParserState} (hs : Excused tokens s)
    (word : s.current.isKeyword "do" = true) : Excused tokens (doBlock nested s).2 := by
  have more : s.current.kind ≠ .endOfFile := kind_ne_of_isA (by decide) word
  have begun : Excused tokens s.advance := hs.step (.advance s) s.aborted_advance
  have evolves : Evolves s.advance (doBlock nested s).2 :=
    Evolving.evolves (p := framed (blockBody nested s.current.span .block Stop.doEnd)) s.advance
  obtain ⟨read, split⟩ := hs.ahead
  rw [s.rest_advance more, List.append_cons] at split
  exact begun.evolves evolves split.symm ⟨s.current, by simp, word⟩

theorem excused_wordPart? {s : ParserState} (hs : Excused tokens s)
    (keyword : s.current.kind = .keyword) :
    Excused tokens (wordPart? nested s.current s).2 := by
  unfold wordPart?
  cases found : ExpressionWord.ofWord? s.current.word with
  | none => exact hs
  | some word =>
      cases word with
      | operator => exact Keeps.kept (p := single (.operator s.current.word)) s hs
      | nil => exact Keeps.kept (p := single (.literal .nil "null")) s hs
      | bool => exact Keeps.kept (p := single (.literal .bool s.current.word)) s hs
      | await => exact Keeps.kept (p := await nested) s hs
      | doBlock =>
          have word : s.current.isKeyword "do" = true := by
            rw [Token.isKeyword, Token.isA, keyword, word_eq_of_doBlock found]
            decide
          exact excused_doBlock nested hs word

instance (t : Token) : Keeps (Excused tokens) (operatorPart? nested t) := by
  unfold operatorPart?; infer_instance

instance : Keeps (Excused tokens) (expressionPart? nested) := by
  constructor
  intro s hs
  unfold expressionPart?
  rw [run_current_bind]
  cases kind : s.current.kind with
  | keyword => exact excused_wordPart? nested hs kind
  | _ => exact Keeps.kept s hs

omit [∀ place, Evolving (nested place)] places in
/-- The only token that an expression has no rule for is the bracket. -/
theorem isOperator_of_expressionPart?_eq_none {s : ParserState}
    (h : (expressionPart? nested s).1 = none) (goesOn : s.current.endsExpression = false) :
    s.current.isOperator "]" = true := by
  unfold expressionPart? at h
  rw [run_current_bind] at h
  unfold Token.endsExpression at goesOn
  cases kind : s.current.kind with
  | operator =>
      rw [kind] at h
      by_cases bracket : s.current.word = "]"
      · rw [Token.isOperator, Token.isA, kind, bracket]
        decide
      · dsimp only [operatorPart?] at h
        rw [if_neg bracket] at h
        split at h <;> cases h
  | keyword =>
      rw [kind] at h goesOn
      dsimp only [wordPart?] at h goesOn
      cases found : ExpressionWord.ofWord? s.current.word with
      | none => simp [found] at goesOn
      | some word =>
          rw [found] at h
          cases word <;> cases h
  | identifier | number | string | leftParen | leftBrace =>
      rw [kind] at h
      cases h
  | _ =>
      rw [kind] at goesOn
      cases goesOn

instance (stops : List Stop) (reading : Reading) :
    Keeps (Excused tokens) (expressionPass nested stops reading) := by
  constructor
  intro s hs
  unfold expressionPass
  rw [run_get_bind]
  split
  · exact hs
  split
  · exact hs
  rename_i going more
  have part := Keeps.kept (p := expressionPart? nested) s hs
  rw [run_bind]
  cases found : (expressionPart? nested s).1 with
  | some parts => exact part
  | none =>
      obtain ⟨rest, aborted⟩ := expressionPart?_spares nested s found
      have current : (expressionPart? nested s).2.current = s.current := by
        unfold ParserState.current ParserState.peek
        rw [rest]
      have bracket : s.current.isOperator "]" = true := by
        apply isOperator_of_expressionPart?_eq_none nested found
        simp only [Bool.or_eq_true, not_or, Bool.not_eq_true] at more
        exact more.2
      obtain ⟨read, split⟩ := part.ahead
      apply Excused.reject split.symm
      · exact aborted.trans (by simpa using going)
      · rw [current]
        exact kind_ne_of_isA (by decide) bracket
      · exact .inl (current ▸ bracket)

instance : Quieting tokens (function nested) := by
  unfold function; dsimp only; infer_instance
instance : Keeps (Excused tokens) (initializer nested) := by unfold initializer; infer_instance
instance : Keeps (Excused tokens) (variableDecl nested) := by unfold variableDecl; infer_instance
instance : Quieting tokens (constant nested) := by unfold constant; dsimp only; infer_instance

instance (scope : Scope) : Keeps (Excused tokens) (expressionStatement nested scope) := by
  unfold expressionStatement; infer_instance

instance : Keeps (Excused tokens) (assignment nested) := by
  unfold assignment
  apply keeps_bind inferInstance
  intro _
  apply keeps_bind inferInstance
  intro parts
  split <;> infer_instance

omit [∀ place, Evolving (nested place)] in
instance (opener : Span) : Quieting tokens (nested (.condition opener)) :=
  ⟨places.ceases (.condition opener)⟩

omit [∀ place, Evolving (nested place)] in
instance (closer : Option (Stop × Span)) : Quieting tokens (otherwise nested closer) := by
  unfold otherwise
  split <;> infer_instance

/-- Another branch is read only if the one before it was closed. -/
instance (opener : Span) : Quieting tokens (readCondition nested opener) := by
  unfold readCondition
  apply quieting_bind inferInstance
  intro test
  apply quieting_bind inferInstance
  intro _
  constructor
  intro s hs
  obtain ⟨first, going⟩ := quiet_block nested opener .block Stop.branchEnd hs.quiet
  rw [run_bind]
  generalize block nested opener .block Stop.branchEnd s = r at first going
  obtain ⟨⟨body, _ | closer⟩, next⟩ := r
  · exact first
  · have again : Excused tokens next := .of_going first.ahead (going rfl)
    exact Quieting.quiets (p := otherwise nested (some closer)) next again

instance : Quieting tokens (forStmt nested) := by unfold forStmt; dsimp only; infer_instance
instance : Quieting tokens (struct nested) := by unfold struct; dsimp only; infer_instance

instance (operands : List Node) : Keeps (Excused tokens) (operandPass nested operands) := by
  unfold operandPass; dsimp only; infer_instance

instance : Keeps (Excused tokens) (instruction nested) := by
  unfold instruction; dsimp only; infer_instance

instance (scope : Scope) (closers : List Stop) :
    Quieting tokens (openBlock nested scope closers) := by
  unfold openBlock; dsimp only; infer_instance

instance : Keeps (Excused tokens) (afterKeyword nested) := by unfold afterKeyword; infer_instance

instance (scope : Scope) (word : StatementWord) :
    Quieting tokens (wordStatement nested scope word) := by
  cases word <;> unfold wordStatement <;> dsimp only <;> infer_instance

instance (scope : Scope) : Keeps (Excused tokens) (nameStatement nested scope) := by
  unfold nameStatement; infer_instance

instance (scope : Scope) : Quieting tokens (statement? nested scope) := by
  unfold statement?
  apply quieting_bind inferInstance
  intro t
  split
  · apply quieting_bind inferInstance
    intro _
    split <;> infer_instance
  all_goals infer_instance

instance (scope : Scope) (stops : List Stop) (reading : Reading) :
    Keeps (Quiet tokens) (statementPass nested scope stops reading) := by
  constructor
  intro s hs
  by_cases aborted : s.aborted = true
  · rw [statementPass_of_aborted nested aborted]
    exact hs
  have going : s.aborted = false := by simpa using aborted
  have begun : Excused tokens s := .of_going hs.ahead going
  cases found : stops.find? (·.accepts s.current) with
  | some stop =>
      rw [statementPass_of_stop nested going found]
      exact hs
  | none =>
      by_cases ended : s.current.kind = .endOfFile
      · rw [statementPass_of_atLoss nested ⟨going, ended, found⟩]
        exact (begun.step (.ended s stops.head? going ended) (s.aborted_record _)).quiet
      by_cases lineEnd : s.current.kind = .endOfLine
      · rw [statementPass_of_lineEnd nested going found lineEnd]
        exact (begun.step (.advance s) s.aborted_advance).quiet
      · have taken : Quiet tokens (statement? nested scope s).2 := Quieting.quiets s begun
        rw [statementPass_of_statement nested going found lineEnd ended, run_bind]
        cases nodes : (statement? nested scope s).1 with
        | some nodes => exact taken
        | none =>
            obtain ⟨-, aborted⟩ := statement?_spares nested scope s nodes
            have skipped : Quiet tokens (statement? nested scope s).2.reject :=
              .reject taken.ahead (aborted.trans going)
            exact skipped

end

end Parser

instance (tokens : List Token) : CeasingPlaces tokens Place.read := by
  constructor
  apply Place.read_induction (P := fun place s r => place.Ceases tokens s r)
  · intro place s
    cases place with
    | expression stops => exact id
    | statements scope stops => exact ⟨id, fun closed => by cases closed⟩
    | condition opener => exact Excused.quiet
  · intro nested _ inner place s
    have places : CeasingPlaces tokens nested := ⟨inner⟩
    cases place with
    | expression stops =>
        exact Keeps.kept (p := Parser.repeated (Parser.expressionPass nested stops) ([], none)) s
    | statements scope stops =>
        have pass : Keeps (Quiet tokens)
            (Parser.repeated (Parser.statementPass nested scope stops) ([], none)) := inferInstance
        refine ⟨pass.kept s, ?_⟩
        intro closed
        obtain ⟨stop, found⟩ := Option.isSome_iff_exists.mp closed
        exact (Parser.stop_readStatements rfl s stop found).2.2
    | condition opener => exact Quieting.quiets (p := Parser.readCondition nested opener) s

/-- A prefix that does not end in an end of file is one of the tokens themselves. -/
theorem prefix_of_prefix_terminated {tokens read : List Token} {last : Token}
    (h : read ++ [last] <+: terminated tokens) (more : last.kind ≠ .endOfFile) :
    read ++ [last] <+: tokens := by
  unfold terminated at h
  split at h
  · obtain ⟨rest, whole⟩ := h
    rw [List.append_assoc, List.append_eq_singleton_iff] at whole
    rcases whole with ⟨-, whole⟩ | ⟨-, whole⟩
    · rw [(List.cons.inj whole).1] at more
      exact absurd rfl more
    · cases whole
  · split at h
    · exact h
    · rcases List.prefix_concat_iff.mp h with whole | inside
      · rw [(List.cons.inj (List.append_inj' whole rfl).2).1] at more
        exact absurd rfl more
      · exact inside

/-- What a parser reports after it has given up is only that something is missing, and there is
nothing of this unless it gave up inside an expression: at a bracket, or somewhere behind a `do`. -/
theorem parse_gave_up (o : ParseOptions) (tokens : List Token)
    (aborted : (parse o tokens).aborted = true) :
    ∃ before last after, (parse o tokens).errors = before ++ .budgetExhausted last :: after ∧
      (∀ e ∈ before ++ after, e.isExhausted = false) ∧
      (∀ e ∈ after, ∃ wanted found, e = .expected wanted found) ∧
      (after ≠ [] → ∃ read, read ++ [last] <+: tokens ∧
        (last.isOperator "]" = true ∨ ∃ x ∈ read, x.isKeyword "do" = true)) := by
  rcases run : (Place.statements .block [.endOfFile]).read (.start o (terminated tokens)) with
    ⟨⟨body, stop⟩, s⟩
  have evolves := Evolving.evolves (p := (Place.statements .block [.endOfFile]).read)
    (.start o (terminated tokens))
  have places : CeasingPlaces (terminated tokens) Place.read := inferInstance
  have quiet := (places.ceases (.statements .block [.endOfFile]) (.start o (terminated tokens))).1
    ⟨List.suffix_rfl, fun aborted => by cases aborted⟩
  rw [run] at evolves quiet
  rw [parse_eq o tokens run] at aborted ⊢
  dsimp only at aborted ⊢
  have sound := evolves.sound (ParserState.sound_start o (terminated tokens))
  rcases sound with h | ⟨before, last, after, h⟩
  · cases aborted.symm.trans h.aborted
  have errors : s.errors = before ++ .budgetExhausted last :: after := h.errors
  have plain : ∀ e ∈ before ++ after, e.isExhausted = false :=
    List.forall_mem_append.mpr ⟨h.reports.plain, fun e he => (h.plain e he).1⟩
  have ceased : Ceased s := evolves.ceased (by simp [Ceased, ParserState.start])
  refine ⟨before, last, after, errors, plain, (ceased before last after errors).2, ?_⟩
  intro more
  -- The parser has given up only once, so the token that it gave up at is the one in the report.
  have once : ∀ other, ParseError.budgetExhausted other ∈ before ++ after → False := by
    intro other mem
    cases plain _ mem
  rcases quiet.last aborted with ⟨read, other, split, token, mem, inside⟩ | ⟨first, other, ends⟩
  · have same : other = last := by
      rw [errors, List.mem_append, List.mem_cons, ParseError.budgetExhausted.injEq] at mem
      rcases mem with mem | same | mem
      · exact (once other (List.mem_append_left _ mem)).elim
      · exact same
      · exact (once other (List.mem_append_right _ mem)).elim
    rw [same] at split token inside
    exact ⟨read, prefix_of_prefix_terminated split token, inside⟩
  · obtain ⟨others, e, rfl⟩ := (after.eq_nil_or_concat).resolve_left more
    rw [errors, List.concat_eq_append, ← List.cons_append, ← List.append_assoc] at ends
    have same := (List.cons.inj (List.append_inj' ends rfl).2).1
    exact (once other (by simp [same])).elim

/-- In a branch, with no bracket and no `do` around, the last error says that the parser gave up. -/
theorem parse_gave_up_branch :
    (parse ⟨false, false, 2⟩ (tokenize false "if a then ) )").tokens).aborted = true ∧
      ∃ before last, (parse ⟨false, false, 2⟩ (tokenize false "if a then ) )").tokens).errors =
        before ++ [.budgetExhausted last] := by
  have run : (parse ⟨false, false, 2⟩ (tokenize false "if a then ) )").tokens).aborted = true ∧
      ((tokenize false "if a then ) )").tokens.all fun t =>
        !t.isOperator "]" && !t.isKeyword "do") = true := by decide +kernel
  obtain ⟨before, last, after, errors, -, -, inside⟩ := parse_gave_up _ _ run.1
  have outside : ∀ t ∈ (tokenize false "if a then ) )").tokens,
      t.isOperator "]" = false ∧ t.isKeyword "do" = false := by
    simpa using run.2
  have none : after = [] := by
    cases after with
    | nil => rfl
    | cons e others =>
        obtain ⟨read, split, inside⟩ := inside (List.cons_ne_nil e others)
        rcases inside with bracket | ⟨x, hx, word⟩
        · cases bracket.symm.trans (outside last (split.mem (by simp))).1
        · cases word.symm.trans (outside x (split.mem (by simp [hx]))).2
  exact ⟨run.1, before, last, none ▸ errors⟩

/-- After the parser has given up between parentheses it misses the closing one. -/
theorem missing_after_giving_up :
    (parse ⟨false, false, 5⟩ (tokenize false "f(]]]]]").tokens).aborted = true ∧
      (parse ⟨false, false, 5⟩ (tokenize false "f(]]]]]").tokens).errors.map (·.message) =
        List.replicate 5 "unexpected ']'" ++ ["too many unrecognized tokens, parsing stopped",
          "expected ')', found end of file"] := by
  decide +kernel

end MapScript
