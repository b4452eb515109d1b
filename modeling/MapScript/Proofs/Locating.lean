import MapScript.Proofs.Progress

/-!
# Where errors are

An error is about the token at the cursor, and the cursor only goes forward. So the errors of a run
stand in the order of their tokens. A block is opened at a keyword that was read before it, and the
blocks that are open were opened one after the other; an error at the end of file that names an
open block therefore names a keyword before it.
-/
namespace MapScript

/-- The spans of the keywords among tokens, in their order. -/
def keywordSpans (tokens : List Token) : List Span :=
  (tokens.filter (·.kind == .keyword)).map (·.span)

theorem keywordSpans_append (first second : List Token) :
    keywordSpans (first ++ second) = keywordSpans first ++ keywordSpans second := by
  unfold keywordSpans
  rw [List.filter_append, List.map_append]

theorem mem_keywordSpans {span : Span} {tokens : List Token} :
    span ∈ keywordSpans tokens ↔ ∃ x ∈ tokens, x.kind = .keyword ∧ x.span = span := by
  simp [keywordSpans, and_assoc]

/-- The errors that a step adds are about the token at the cursor, and they name no block but the
innermost open one. -/
theorem Step.errors_added {s t : ParserState} (h : Step s t) :
    ∃ added, t.errors = s.errors ++ added ∧ ∀ e ∈ added, e.token = s.current ∧
      ∀ opener, e.opener? = some opener → s.openers.head? = some opener := by
  have recorded (e : ParseError) (u : ParserState) :
      ∃ added, (u.record e).errors = u.errors ++ added ∧ ∀ f ∈ added, f = e := by
    unfold ParserState.record
    split
    · exact ⟨[e], rfl, fun f hf => List.mem_singleton.mp hf⟩
    · exact ⟨[], (List.append_nil _).symm, fun f hf => absurd hf List.not_mem_nil⟩
  cases h with
  | advance => exact ⟨[], by simp, by simp⟩
  | skipLineEnds | note => exact ⟨[], (List.append_nil _).symm, by simp⟩
  | markAsync => exact ⟨[], by simp, by simp⟩
  | expected wanted =>
      obtain ⟨added, errors, same⟩ := recorded (.expected wanted s.current) s
      refine ⟨added, errors, fun e he => ?_⟩
      rw [same e he]
      exact ⟨rfl, by simp [ParseError.opener?]⟩
  | ended closer =>
      obtain ⟨added, errors, same⟩ :=
        recorded (.unexpectedEnd s.current closer s.openers.head?) s
      refine ⟨added, errors, fun e he => ?_⟩
      rw [same e he]
      exact ⟨rfl, fun opener ho => ho⟩
  | reject =>
      obtain ⟨added, errors, same⟩ := recorded (.unexpectedToken s.current)
        (s.advance.note (.skipping s.current s.budget))
      have before : (s.advance.note (.skipping s.current s.budget)).errors = s.errors :=
        s.errors_advance
      rw [before] at errors
      unfold ParserState.reject
      dsimp only
      split
      · refine ⟨added ++ [.budgetExhausted s.current], ?_, fun e he => ?_⟩
        · rw [← List.append_assoc, ← errors]
          rfl
        · rcases List.mem_append.mp he with he | he
          · rw [same e he]
            exact ⟨rfl, by simp [ParseError.opener?]⟩
          · rw [List.mem_singleton.mp he]
            exact ⟨rfl, by simp [ParseError.opener?]⟩
      · refine ⟨added, errors, fun e he => ?_⟩
        rw [same e he]
        exact ⟨rfl, by simp [ParseError.opener?]⟩

/-- The blocks were opened at keywords that have been read, the outer ones first. -/
def Opened (tokens rest : List Token) (openers : List Span) : Prop :=
  ∃ read, tokens = read ++ rest ∧ openers.reverse.Sublist (keywordSpans read)

/-- The errors of a run over tokens that begin one after the other. -/
structure Located (tokens : List Token) (s : ParserState) : Prop where
  increasing : tokens.Pairwise fun x y => x.span.start < y.span.start
  opened : Opened tokens s.rest s.openers
  ahead : ∃ last ∈ s.rest, last.kind = .endOfFile
  token : ∀ e ∈ s.errors, e.token ∈ tokens
  behind : ∀ e ∈ s.errors, ∀ x ∈ s.rest, e.span.start ≤ x.span.start
  sorted : s.errors.Pairwise fun e f => e.span.start ≤ f.span.start
  opener : ∀ e ∈ s.errors, ∀ span, e.opener? = some span →
    ∃ x ∈ tokens, x.kind = .keyword ∧ x.span = span ∧ span.start < e.span.start

variable {tokens : List Token} {s t : ParserState}

/-- Reading on keeps the blocks that are open, or that could be opened. -/
theorem Opened.forward {openers : List Span} (h : Opened tokens s.rest openers)
    (forward : Forward s t) : Opened tokens t.rest openers := by
  obtain ⟨read, whole, sub⟩ := h
  obtain ⟨taken, rest, -⟩ := forward
  refine ⟨read ++ taken, by rw [whole, rest, List.append_assoc], ?_⟩
  rw [keywordSpans_append]
  exact sub.trans (List.sublist_append_left _ _)

/-- A block can be opened at a keyword that has just been read. -/
theorem Opened.advance (h : Opened tokens s.rest s.openers) (keyword : s.current.kind = .keyword) :
    Opened tokens s.advance.rest (s.current.span :: s.openers) := by
  obtain ⟨read, whole, sub⟩ := h
  have rest := s.rest_advance (by rw [keyword]; decide)
  refine ⟨read ++ [s.current], ?_, ?_⟩
  · rw [whole, List.append_assoc, List.singleton_append, ← rest]
  rw [keywordSpans_append, List.reverse_cons]
  apply sub.append
  simp [keywordSpans, keyword]

theorem Opened.tail {rest : List Token} {openers : List Span} (h : Opened tokens rest openers) :
    Opened tokens rest openers.tail := by
  obtain ⟨read, whole, sub⟩ := h
  refine ⟨read, whole, List.Sublist.trans ?_ sub⟩
  exact (List.tail_sublist openers).reverse

namespace Located

theorem current_mem (h : Located tokens s) : s.current ∈ s.rest := by
  obtain ⟨last, mem, -⟩ := h.ahead
  obtain ⟨x, xs, rest⟩ := List.exists_cons_of_ne_nil (List.ne_nil_of_mem mem)
  rw [s.current_of_rest rest, rest]
  exact List.mem_cons_self

theorem mem_of_rest (h : Located tokens s) {x : Token} (hx : x ∈ s.rest) : x ∈ tokens := by
  obtain ⟨read, whole, -⟩ := h.opened
  rw [whole]
  exact List.mem_append_right read hx

/-- The token at the cursor stands before all that are left. -/
theorem current_le (h : Located tokens s) {x : Token} (hx : x ∈ s.rest) :
    s.current.span.start ≤ x.span.start := by
  obtain ⟨read, whole, -⟩ := h.opened
  have increasing := h.increasing
  rw [whole] at increasing
  obtain ⟨y, ys, rest⟩ := List.exists_cons_of_ne_nil (List.ne_nil_of_mem hx)
  have sorted := (List.pairwise_append.mp increasing).2.1
  rw [rest] at hx sorted
  rw [s.current_of_rest rest]
  rcases List.mem_cons.mp hx with rfl | hx
  · exact Nat.le_refl _
  · exact Nat.le_of_lt ((List.pairwise_cons.mp sorted).1 x hx)

/-- An open block was opened before the cursor. -/
theorem opener_lt (h : Located tokens s) {span : Span} (hs : s.openers.head? = some span) :
    ∃ x ∈ tokens, x.kind = .keyword ∧ x.span = span ∧ span.start < s.current.span.start := by
  obtain ⟨read, whole, sub⟩ := h.opened
  have mem : span ∈ keywordSpans read := sub.mem (List.mem_reverse.mpr (List.mem_of_mem_head? hs))
  obtain ⟨x, hx, keyword, rfl⟩ := mem_keywordSpans.mp mem
  have increasing := h.increasing
  rw [whole] at increasing
  have before := (List.pairwise_append.mp increasing).2.2 x hx s.current h.current_mem
  exact ⟨x, whole ▸ List.mem_append_left _ hx, keyword, rfl, before⟩

/-- Every step keeps the errors where they should be. -/
theorem step (h : Located tokens s) (step : Step s t) : Located tokens t := by
  obtain ⟨added, errors, about⟩ := step.errors_added
  have forward := step.forward
  have left : ∀ x ∈ t.rest, x ∈ s.rest := fun x hx => step.rest_suffix.mem hx
  have start : ∀ e ∈ added, e.span.start = s.current.span.start := by
    intro e he
    rw [ParseError.span, (about e he).1]
  have mem : ∀ {e}, e ∈ t.errors → e ∈ s.errors ∨ e ∈ added := by
    intro e he
    rwa [errors, List.mem_append] at he
  constructor
  case increasing => exact h.increasing
  case opened =>
    rw [step.openers]
    exact h.opened.forward forward
  case ahead =>
    obtain ⟨last, hl, eof⟩ := h.ahead
    obtain ⟨taken, rest, none⟩ := forward
    rw [rest] at hl
    rcases List.mem_append.mp hl with hl | hl
    · exact absurd eof (none last hl)
    · exact ⟨last, hl, eof⟩
  case token =>
    intro e he
    rcases mem he with he | he
    · exact h.token e he
    · rw [(about e he).1]
      exact h.mem_of_rest h.current_mem
  case behind =>
    intro e he x hx
    rcases mem he with he | he
    · exact h.behind e he x (left x hx)
    · rw [start e he]
      exact h.current_le (left x hx)
  case sorted =>
    rw [errors, List.pairwise_append]
    refine ⟨h.sorted, ?_, ?_⟩
    · apply List.pairwise_of_forall_mem_list
      intro e he f hf
      exact Nat.le_of_eq ((start e he).trans (start f hf).symm)
    · intro e he f hf
      rw [start f hf]
      exact h.behind e he _ h.current_mem
  case opener =>
    intro e he span ho
    rcases mem he with he | he
    · exact h.opener e he span ho
    · rw [start e he]
      exact h.opener_lt ((about e he).2 span ho)

theorem frames (h : Located tokens s) (frames : List Bool) :
    Located tokens { s with frames := frames } where
  increasing := h.increasing
  opened := h.opened
  ahead := h.ahead
  token := h.token
  behind := h.behind
  sorted := h.sorted
  opener := h.opener

theorem openers (h : Located tokens s) {openers : List Span}
    (opened : Opened tokens s.rest openers) : Located tokens { s with openers := openers } where
  increasing := h.increasing
  opened := opened
  ahead := h.ahead
  token := h.token
  behind := h.behind
  sorted := h.sorted
  opener := h.opener

end Located

/-- The parser keeps errors located, if a block may be opened at `opener` where it starts. -/
class Locating (tokens : List Token) (opener : Option Span) {α : Type} (p : Parser α) : Prop where
  located (s : ParserState) : Located tokens s →
    (∀ span ∈ opener, Opened tokens s.rest (span :: s.openers)) → Located tokens (p s).2

namespace Parser

variable {α β : Type} {opener : Option Span}

theorem locating_of_step {p : Parser α} (h : ∀ s, Step s (p s).2) : Locating tokens opener p :=
  ⟨fun s hs _ => hs.step (h s)⟩

instance (a : α) : Locating tokens opener (pure a : Parser α) := ⟨fun _ hs _ => hs⟩

/-- What may be opened before a rule may be opened after it. -/
theorem locating_bind {p : Parser α} {f : α → Parser β} [hp : Locating tokens opener p]
    [evolving : Evolving p] (hf : ∀ a, Locating tokens opener (f a)) :
    Locating tokens opener (p >>= f) := by
  constructor
  intro s hs opens
  have evolves := evolving.evolves s
  apply (hf _).located _ (hp.located s hs opens)
  intro span hspan
  rw [evolves.openers]
  exact (opens span hspan).forward evolves.forward

instance (p : Parser α) (f : α → Parser β) [Locating tokens opener p] [Evolving p]
    [hf : ∀ a, Locating tokens opener (f a)] : Locating tokens opener (p >>= f) := locating_bind hf

instance (c : Prop) [Decidable c] (p q : Parser α) [hp : Locating tokens opener p]
    [hq : Locating tokens opener q] : Locating tokens opener (if c then p else q) := by
  split
  · exact hp
  · exact hq

instance : Locating tokens opener (get : Parser ParserState) := ⟨fun _ hs _ => hs⟩
instance : Locating tokens opener current := ⟨fun _ hs _ => hs⟩
instance : Locating tokens opener isAborted := ⟨fun _ hs _ => hs⟩
instance : Locating tokens opener advance := locating_of_step .advance
instance : Locating tokens opener skipLineEnds := locating_of_step .skipLineEnds
instance (wanted : Expectation) : Locating tokens opener (expected wanted) :=
  locating_of_step fun s => .expected s wanted
instance : Locating tokens opener (modify ParserState.markAsync : Parser Unit) :=
  locating_of_step .markAsync

instance (p : Token → Bool) : Locating tokens opener (eat p) := by unfold eat; infer_instance
instance (kind : TokenKind) : Locating tokens opener (eatKind kind) := by
  unfold eatKind; infer_instance
instance (word : String) : Locating tokens opener (eatKeyword word) := by
  unfold eatKeyword; infer_instance
instance (symbol : String) : Locating tokens opener (eatOperator symbol) := by
  unfold eatOperator; infer_instance
instance (wanted : Expectation) (p : Token → Bool) : Locating tokens opener (eatOr wanted p) := by
  unfold eatOr; infer_instance
instance : Locating tokens opener name := by unfold name; infer_instance

instance (body : Parser α) [h : Locating tokens opener body] :
    Locating tokens opener (framed body) := by
  constructor
  intro s hs opens
  rw [run_framed]
  exact (h.located { s with frames := false :: s.frames } (hs.frames _) opens).frames _

instance (pass : α → Parser (Pass α)) [h : ∀ a, Locating tokens none (pass a)] (a : α) :
    Locating tokens opener (repeated pass a) := by
  constructor
  intro s hs opens
  clear opens
  fun_induction repeated pass a s with
  | case1 a s b next run | case3 a s b next run _ =>
      have last := (h a).located s hs (by simp)
      rwa [run] at last
  | case2 a s b next run _ ih =>
      have first := (h a).located s hs (by simp)
      rw [run] at first
      exact ih first

instance (u : Unit) : Locating tokens opener (headerPass u) := by
  constructor
  intro s hs _
  unfold headerPass
  rw [run_get_bind]
  split
  · exact hs
  · rename_i going
    simp only [Bool.or_eq_true, decide_eq_true_eq, not_or] at going
    exact hs.step (.reject s (by simpa using going.1) fun he => going.2 (by simp [he]))

instance : Locating tokens opener skipToLineEnd := by unfold skipToLineEnd; infer_instance
instance : Locating tokens opener typedName := by unfold typedName; dsimp only; infer_instance

instance (list : List Param) : Locating tokens opener (paramPass list) := by
  unfold paramPass; dsimp only; infer_instance

instance : Locating tokens opener params := by unfold params; infer_instance
instance : Locating tokens opener paramList := by unfold paramList; infer_instance
instance : Locating tokens opener returnType := by unfold returnType; infer_instance

/-- A rule may look at the token at the cursor. -/
theorem locating_current {k : Token → Parser α}
    (h : ∀ s, Located tokens s → Located tokens (k s.current s).2) :
    Locating tokens opener (current >>= k) :=
  ⟨fun s hs _ => h s hs⟩

theorem located_run (p : Parser α) [h : Locating tokens none p] (hs : Located tokens s) :
    Located tokens (p s).2 :=
  h.located s hs (by simp)

theorem located_map {p : Parser α} {f : α → β} (h : Located tokens (p s).2) :
    Located tokens ((p >>= fun a => pure (f a)) s).2 := h

/-- What is not found is skipped. -/
theorem located_orReject {p : Parser (Option α)} (spares : Spares p) {k : Option α → Parser β}
    {b : β} (hr : k none = do reject; return b) (hk : ∀ a, Locating tokens none (k (some a)))
    (hp : Located tokens (p s).2) (ha : s.aborted = false)
    (he : s.current.kind ≠ .endOfFile) : Located tokens ((p >>= k) s).2 := by
  rw [run_bind]
  cases found : (p s).1 with
  | some a => exact (hk a).located _ hp (by simp)
  | none =>
      obtain ⟨rest, aborted⟩ := spares s found
      have current : (p s).2.current = s.current := by
        unfold ParserState.current ParserState.peek
        rw [rest]
      rw [hr]
      exact hp.step (.reject _ (aborted.trans ha) (by rwa [current]))

/-- A rule that begins at a keyword may open a block there. -/
theorem located_opening {k : Token → Parser α}
    (h : ∀ t, Locating tokens (some t.span) (k t)) (hs : Located tokens s)
    (keyword : s.current.kind = .keyword) :
    Located tokens ((current >>= fun t => advance >>= fun _ => k t) s).2 := by
  apply (h s.current).located s.advance (hs.step (.advance s))
  intro span same
  cases same
  rw [s.openers_advance]
  exact hs.opened.advance keyword

end Parser

/-- Where a block may be opened for the place to be read. -/
def Place.opener? : Place → Option Span
  | condition opener => some opener
  | _ => none

/-- The reader keeps errors located in every place, and the stop that it gives is the token that
it stopped at. -/
class LocatingPlaces (tokens : List Token) (nested : PlaceReader) : Prop where
  locating (place : Place) : Locating tokens place.opener? (nested place)
  stop (scope : Scope) (stops : List Stop) (s : ParserState) :
    ∀ stop ∈ (nested (.statements scope stops) s).1.2,
      stop ∈ stops ∧ stop.accepts (nested (.statements scope stops) s).2.current = true ∧
        (nested (.statements scope stops) s).2.aborted = false

namespace Parser

variable {opener : Option Span}

-- The blocks of the longer rules are too deep for the usual limit on instances.
set_option synthInstance.maxSize 2000

section
variable (nested : PlaceReader) [∀ place, Evolving (nested place)]
  [places : LocatingPlaces tokens nested]

omit [∀ place, Evolving (nested place)] in
instance (stops : List Stop) : Locating tokens opener (expression nested stops) := by
  constructor
  intro s hs _
  exact (places.locating (.expression stops)).located s hs (by simp [Place.opener?])

/-- A block is opened where it may be, and closed again. -/
instance (span : Span) (scope : Scope) (closers : List Stop) :
    Locating tokens (some span) (block nested span scope closers) := by
  constructor
  intro s hs opens
  have inside := (places.locating (.statements scope closers)).located
    { s with openers := span :: s.openers } (hs.openers (opens span rfl)) (by simp [Place.opener?])
  rw [run_block]
  generalize nested (.statements scope closers) { s with openers := span :: s.openers } = r
    at inside
  obtain ⟨⟨body, _ | stop⟩, next⟩ := r
  · exact inside.openers inside.opened.tail
  · exact (inside.openers inside.opened.tail).step (.advance _)

instance (span : Span) (scope : Scope) (closers : List Stop) :
    Locating tokens (some span) (blockBody nested span scope closers) := by
  unfold blockBody; infer_instance

omit [∀ place, Evolving (nested place)] in
/-- Where a block was closed by a keyword, the next may be opened. -/
theorem opened_block {span : Span} (scope : Scope) {closers : List Stop}
    (keywords : ∀ stop ∈ closers, stop.kind = .keyword) (hs : Located tokens s)
    (opens : Opened tokens s.rest (span :: s.openers)) :
    ∀ closer ∈ (block nested span scope closers s).1.2,
      Opened tokens (block nested span scope closers s).2.rest
        (closer.2 :: (block nested span scope closers s).2.openers) := by
  have inside := (places.locating (.statements scope closers)).located
    { s with openers := span :: s.openers } (hs.openers opens) (by simp [Place.opener?])
  have stopped := places.stop scope closers { s with openers := span :: s.openers }
  rw [run_block]
  generalize nested (.statements scope closers) { s with openers := span :: s.openers } = r
    at inside stopped
  obtain ⟨⟨body, _ | stop⟩, next⟩ := r
  · simp
  · intro closer hc
    cases hc
    obtain ⟨listed, accepted, -⟩ := stopped stop rfl
    have keyword : next.current.kind = .keyword := by
      rw [Stop.accepts, Bool.and_eq_true, beq_iff_eq] at accepted
      rw [accepted.1]
      exact keywords stop listed
    dsimp only
    rw [ParserState.openers_advance]
    exact Opened.advance (s := { next with openers := next.openers.tail }) inside.opened.tail
      keyword

instance : Locating tokens opener (link? nested) := by unfold link?; infer_instance

instance (stops : List Stop) (closer : Token → Bool) (missing : Expectation) (args : List Node) :
    Locating tokens opener (argumentPass nested stops closer missing args) := by
  unfold argumentPass; dsimp only; infer_instance

instance (callee : List Node) : Locating tokens opener (call nested callee) := by
  unfold call; infer_instance

instance (parts : List Node) : Locating tokens opener (postfixPass nested parts) := by
  unfold postfixPass
  apply locating_bind
  intro _
  split
  · infer_instance
  apply locating_bind
  intro _
  split
  · infer_instance
  apply locating_bind
  intro link
  cases link <;> infer_instance

instance (base : Node) : Locating tokens opener (operandTail nested base) := by
  unfold operandTail; infer_instance

instance (chain : List Node) : Locating tokens opener (chainPass nested chain) := by
  unfold chainPass
  apply locating_bind
  intro _
  split
  · infer_instance
  apply locating_bind
  intro link
  cases link <;> infer_instance

instance : Locating tokens opener (reference nested) := by
  unfold reference; dsimp only; infer_instance
instance : Locating tokens opener (group nested) := by unfold group; infer_instance
instance : Locating tokens opener (array nested) := by unfold array; infer_instance

instance (fields : List (String × List Node)) :
    Locating tokens opener (fieldPass nested fields) := by
  unfold fieldPass; infer_instance

instance : Locating tokens opener (object nested) := by unfold object; infer_instance
instance : Locating tokens opener (await nested) := by unfold await; infer_instance
instance (node : Node) : Locating tokens opener (single node) := by unfold single; infer_instance

theorem located_doBlock (hs : Located tokens s) (keyword : s.current.kind = .keyword) :
    Located tokens (doBlock nested s).2 := by
  unfold doBlock
  apply located_opening _ hs keyword
  intro t
  infer_instance

theorem located_wordPart? (t : Token) (hs : Located tokens s)
    (keyword : s.current.kind = .keyword) : Located tokens (wordPart? nested t s).2 := by
  unfold wordPart?
  cases ExpressionWord.ofWord? t.word with
  | none => exact hs
  | some word =>
      cases word with
      | operator => exact located_run (single (.operator t.word)) hs
      | nil => exact located_run (single (.literal .nil "null")) hs
      | bool => exact located_run (single (.literal .bool t.word)) hs
      | await => exact located_map (located_run (await nested) hs)
      | doBlock => exact located_map (located_doBlock nested hs keyword)

instance (t : Token) : Locating tokens opener (operatorPart? nested t) := by
  unfold operatorPart?; infer_instance

instance : Locating tokens opener (expressionPart? nested) := by
  apply locating_current
  intro s hs
  cases kind : s.current.kind with
  | keyword => exact located_wordPart? nested s.current hs kind
  | _ => exact located_run _ hs

instance (stops : List Stop) (reading : Reading) :
    Locating tokens opener (expressionPass nested stops reading) := by
  constructor
  intro s hs _
  unfold expressionPass
  rw [run_get_bind]
  split
  · exact hs
  split
  · exact hs
  rename_i going more
  apply located_orReject (expressionPart?_spares nested) rfl (fun _ => inferInstance)
    (located_run (expressionPart? nested) hs) (by simpa using going)
  intro kind
  exact more (by simp [Token.endsExpression, kind])

theorem located_function (hs : Located tokens s) (keyword : s.current.kind = .keyword) :
    Located tokens (function nested s).2 := by
  unfold function
  apply located_opening _ hs keyword
  intro t
  infer_instance

instance : Locating tokens opener (initializer nested) := by unfold initializer; infer_instance
instance : Locating tokens opener (variableDecl nested) := by unfold variableDecl; infer_instance

/-- A constant function is a function at its own keyword. -/
instance : Locating tokens opener (constant nested) := by
  unfold constant
  apply locating_bind
  intro _
  apply locating_current
  intro s hs
  split
  · rename_i function
    rw [Token.isKeyword, Token.isA, Bool.and_eq_true, beq_iff_eq] at function
    exact located_function nested hs function.1
  · exact located_run _ hs

instance (scope : Scope) : Locating tokens opener (expressionStatement nested scope) := by
  unfold expressionStatement; infer_instance

instance : Locating tokens opener (assignment nested) := by
  unfold assignment
  apply locating_bind
  intro _
  apply locating_bind
  intro parts
  split <;> infer_instance

omit [∀ place, Evolving (nested place)] in
instance (span : Span) : Locating tokens (some span) (nested (.condition span)) :=
  places.locating (.condition span)

/-- The branch after a keyword is opened there. -/
theorem located_otherwise {closer : Option (Stop × Span)} (hs : Located tokens s)
    (opens : ∀ c ∈ closer, Opened tokens s.rest (c.2 :: s.openers)) :
    Located tokens (otherwise nested closer s).2 := by
  cases closer with
  | none => exact hs
  | some closer =>
      obtain ⟨stop, span⟩ := closer
      have locating : Locating tokens (some span) (otherwise nested (some (stop, span))) := by
        unfold otherwise
        infer_instance
      apply locating.located s hs
      intro other same
      cases same
      exact opens _ rfl

instance (span : Span) : Locating tokens (some span) (readCondition nested span) := by
  unfold readCondition
  apply locating_bind
  intro test
  apply locating_bind
  intro _
  constructor
  intro s hs opens
  have branch : Locating tokens (some span) (block nested span .block Stop.branchEnd) :=
    inferInstance
  have first := branch.located s hs opens
  have keywords : ∀ stop ∈ Stop.branchEnd, stop.kind = .keyword := by decide
  have next := opened_block nested .block keywords hs (opens span rfl)
  rw [run_bind]
  generalize block nested span .block Stop.branchEnd s = r at first next
  obtain ⟨⟨body, closer⟩, u⟩ := r
  exact located_otherwise nested first next

theorem located_forStmt (hs : Located tokens s) (keyword : s.current.kind = .keyword) :
    Located tokens (forStmt nested s).2 := by
  unfold forStmt
  apply located_opening _ hs keyword
  intro t
  infer_instance

theorem located_struct (hs : Located tokens s) (keyword : s.current.kind = .keyword) :
    Located tokens (struct nested s).2 := by
  unfold struct
  apply located_opening _ hs keyword
  intro t
  infer_instance

instance (operands : List Node) : Locating tokens opener (operandPass nested operands) := by
  unfold operandPass; dsimp only; infer_instance

instance : Locating tokens opener (instruction nested) := by
  unfold instruction; dsimp only; infer_instance

theorem located_openBlock (scope : Scope) (closers : List Stop) (hs : Located tokens s)
    (keyword : s.current.kind = .keyword) :
    Located tokens (openBlock nested scope closers s).2 := by
  unfold openBlock
  apply located_opening _ hs keyword
  intro t
  infer_instance

instance : Locating tokens opener (afterKeyword nested) := by unfold afterKeyword; infer_instance

theorem located_wordStatement (scope : Scope) (word : StatementWord) (hs : Located tokens s)
    (keyword : s.current.kind = .keyword) :
    Located tokens (wordStatement nested scope word s).2 := by
  unfold wordStatement
  cases word with
  | globals => exact located_map (located_openBlock nested .globals Stop.globalsEnd hs keyword)
  | function => exact located_map (located_function nested hs keyword)
  | loop => exact located_map (located_openBlock nested .block Stop.loopEnd hs keyword)
  | forStmt => exact located_map (located_forStmt nested hs keyword)
  | struct => exact located_map (located_struct nested hs keyword)
  | ifStmt =>
      apply located_opening _ hs keyword
      intro t
      infer_instance
  | _ => exact located_run _ hs

instance (scope : Scope) : Locating tokens opener (nameStatement nested scope) := by
  unfold nameStatement; infer_instance

instance (scope : Scope) : Locating tokens opener (statement? nested scope) := by
  apply locating_current
  intro s hs
  cases kind : s.current.kind with
  | keyword =>
      have noted := hs.step (.note s s.current.word)
      dsimp only
      rw [run_modify_bind]
      cases StatementWord.ofWord? s.current.word with
      | some word => exact located_map (located_wordStatement nested scope word noted kind)
      | none => exact noted
  | _ => exact located_run _ hs

instance (scope : Scope) (stops : List Stop) (reading : Reading) :
    Locating tokens opener (statementPass nested scope stops reading) := by
  constructor
  intro s hs _
  unfold statementPass
  rw [run_get_bind]
  split
  · exact hs
  rename_i going
  cases stops.find? (·.accepts s.current) with
  | some stop => exact hs
  | none =>
      dsimp only
      cases kind : s.current.kind with
      | endOfLine => exact hs.step (.advance s)
      | endOfFile => exact hs.step (.ended s stops.head? (by simpa using going) kind)
      | _ =>
          exact located_orReject (statement?_spares nested scope) rfl (fun _ => inferInstance)
            (located_run (statement? nested scope) hs) (by simpa using going) (by rw [kind]; decide)

instance (place : Place) : Locating tokens place.opener? (place.plain nested) := by
  cases place with
  | expression stops => exact inferInstanceAs (Locating tokens none (repeated _ _))
  | statements scope stops => exact inferInstanceAs (Locating tokens none (repeated _ _))
  | condition span =>
      exact inferInstanceAs (Locating tokens (some span) (readCondition nested span))

end

section
variable {nested : PlaceReader} {scope : Scope} {stops : List Stop}

/-- A pass goes on without a stop. When it is done, a stop that it gives is at the cursor, and the
parser has not given up. -/
theorem stop_statementPass {reading : Reading} (none : reading.2 = none) (s : ParserState) :
    (∃ next, (statementPass nested scope stops reading s).1 = .again next ∧ next.2 = Option.none) ∨
      ∃ last, (statementPass nested scope stops reading s).1 = .done last ∧
        ∀ stop ∈ last.2, stop ∈ stops ∧
          stop.accepts (statementPass nested scope stops reading s).2.current = true ∧
          (statementPass nested scope stops reading s).2.aborted = false := by
  unfold statementPass
  rw [run_get_bind]
  split
  · exact .inr ⟨reading, rfl, by simp [none]⟩
  · rename_i going
    have going : s.aborted = false := by simpa using going
    cases found : stops.find? (·.accepts s.current) with
    | some stop =>
        have accepted : stop.accepts s.current = true :=
          List.find?_some (p := fun stop : Stop => stop.accepts s.current) found
        refine .inr ⟨(reading.1, some stop), rfl, ?_⟩
        intro other same
        cases same
        exact ⟨List.mem_of_find?_eq_some found, accepted, going⟩
    | none =>
        dsimp only
        cases s.current.kind with
        | endOfLine => exact .inl ⟨reading, rfl, none⟩
        | endOfFile => exact .inr ⟨reading, rfl, by simp [none]⟩
        | _ =>
            left
            dsimp only
            rw [run_bind]
            cases (statement? nested scope s).1 with
            | some nodes => exact ⟨(reading.1 ++ nodes, Option.none), rfl, rfl⟩
            | none => exact ⟨reading, rfl, none⟩

theorem stop_readStatements {reading : Reading} (none : reading.2 = none) (s : ParserState) :
    ∀ stop ∈ (repeated (statementPass nested scope stops) reading s).1.2, stop ∈ stops ∧
      stop.accepts (repeated (statementPass nested scope stops) reading s).2.current = true ∧
      (repeated (statementPass nested scope stops) reading s).2.aborted = false := by
  fun_induction repeated (statementPass nested scope stops) reading s with
  | case1 reading s last t run =>
      rcases stop_statementPass none s with ⟨next, again, -⟩ | ⟨last', done, stop⟩
      · rw [run] at again
        cases again
      · rw [run] at done stop
        cases done
        exact stop
  | case2 reading s next t run _ ih =>
      rcases stop_statementPass none s with ⟨next', again, free⟩ | ⟨last, done, -⟩
      · rw [run] at again
        cases again
        exact ih free
      · rw [run] at done
        cases done
  | case3 reading s next t run _ =>
      rcases stop_statementPass none s with ⟨next', again, free⟩ | ⟨last, done, -⟩
      · rw [run] at again
        cases again
        simp [free]
      · rw [run] at done
        cases done

end

end Parser

instance : LocatingPlaces tokens Place.read := by
  have both : ∀ (place : Place) (s : ParserState),
      (Located tokens s → (∀ span ∈ place.opener?, Opened tokens s.rest (span :: s.openers)) →
        Located tokens (place.read s).2) ∧
      ∀ scope stops, place = .statements scope stops → ∀ stop ∈ (place.read s).1.2,
        stop ∈ stops ∧ stop.accepts (place.read s).2.current = true ∧
          (place.read s).2.aborted = false := by
    apply Place.read_induction (P := fun place s r =>
      (Located tokens s → (∀ span ∈ place.opener?, Opened tokens s.rest (span :: s.openers)) →
        Located tokens r.2) ∧
      ∀ scope stops, place = .statements scope stops → ∀ stop ∈ r.1.2,
        stop ∈ stops ∧ stop.accepts r.2.current = true ∧ r.2.aborted = false)
    · intro place s
      exact ⟨fun hs _ => hs, by simp⟩
    · intro nested _ inner place s
      have places : LocatingPlaces tokens nested :=
        ⟨fun place => ⟨fun s => (inner place s).1⟩,
          fun scope stops s => (inner (.statements scope stops) s).2 scope stops rfl⟩
      constructor
      · exact Locating.located s
      · intro scope stops same
        subst same
        exact Parser.stop_readStatements rfl s
  exact ⟨fun place => ⟨fun s => (both place s).1⟩,
    fun scope stops s => (both (.statements scope stops) s).2 scope stops rfl⟩

/-- A parser that has read nothing has no errors yet. -/
theorem located_start (o : ParseOptions)
    (increasing : tokens.Pairwise fun x y => x.span.start < y.span.start)
    (ahead : ∃ last ∈ tokens, last.kind = .endOfFile) : Located tokens (.start o tokens) where
  increasing := increasing
  opened := ⟨[], rfl, List.nil_sublist _⟩
  ahead := ahead
  token := by simp [ParserState.start]
  behind := by simp [ParserState.start]
  sorted := .nil
  opener := by simp [ParserState.start]

/-- The errors of a program stand in the order of its tokens, and an open block is named by a
keyword before the end. -/
theorem parse_located (o : ParseOptions)
    (increasing : (terminated tokens).Pairwise fun x y => x.span.start < y.span.start) :
    (parse o tokens).errors.Pairwise (fun e f => e.span.start ≤ f.span.start) ∧
      ∀ e ∈ (parse o tokens).errors, e.token ∈ terminated tokens ∧
        ∀ span, e.opener? = some span → ∃ x ∈ terminated tokens,
          x.kind = .keyword ∧ x.span = span ∧ span.start < e.span.start := by
  have start := located_start o increasing (exists_mem_terminated tokens)
  have places : LocatingPlaces (terminated tokens) Place.read := inferInstance
  have located := (places.locating (.statements .block [.endOfFile])).located _ start
    (by simp [Place.opener?])
  rw [parse_eq o tokens rfl]
  exact ⟨located.sorted, fun e he => ⟨located.token e he, located.opener e he⟩⟩

end MapScript
