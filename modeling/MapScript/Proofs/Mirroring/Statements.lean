import MapScript.Proofs.Mirroring.Expressions

/-!
# Statements that mirror each other

The places are read with each other's help, so that what the rules keep holds of the readers by
induction on what is left to read.
-/
namespace MapScript

namespace Parser
variable {α β : Type} {m : Mirror} {x : Token} {p q : Parser α} {k l : α → Parser β}

instance : Mirrors m skipToLineEnd skipToLineEnd := by
  refine mirrors_repeated_of_pass (fun _ => mirrors_of_at fun x => ?_) ()
  refine mirrorsAt_get fun s t shown hx => mirrorsAt_ite ?_ ?_ ?_
  · rw [shown.aborted, shown.current, hx]
    rcases m.kind_token x with hk | ⟨-, hk, hk'⟩
    · rw [hk]
    · simp [hk, hk']
  · intro _
    infer_instance
  · intro _
    infer_instance

theorem peek_eq {s : ParserState} {n : Nat} {x : Token} (h : s.rest[n]? = some x) :
    s.peek n = x := by
  simp [ParserState.peek, h]

/-- Behind a token that is not the last, both parsers see the same one. -/
theorem peek_one {s t : ParserState} (shown : m.Shows s t) (hk : s.current.kind ≠ .endOfFile) :
    s.rest[1]? = some (s.peek 1) ∧ t.peek 1 = m.token (s.peek 1) := by
  cases hr : s.rest with
  | nil => exact absurd hr shown.rest_ne_nil
  | cons x rest =>
      have hx : s.rest[0]? = some x := by simp [hr]
      have hc : s.current = x := peek_eq hx
      obtain ⟨y, hy⟩ := shown.next hx (by rwa [← hc])
      rw [peek_eq hy, shown.peek hy, ← hr]
      exact ⟨hy, rfl⟩

theorem beforeName_eq {s t : ParserState} (shown : m.Shows s t)
    (hk : s.current.kind = .identifier) : t.beforeName = s.beforeName := by
  obtain ⟨-, next⟩ := peek_one shown (by rw [hk]; decide)
  have kind : (m.token (s.peek 1)).kind = .identifier ↔ (s.peek 1).kind = .identifier :=
    Mirror.kind_eq_iff _ (by decide) (by decide)
  rw [ParserState.beforeName, ParserState.beforeName, next, Bool.eq_iff_iff]
  simp [kind]

instance : Mirrors m typedName typedName := by
  refine mirrors_of_at fun x => mirrorsAt_get fun s t shown hx => ?_
  have kind : (m.token x).kind = .identifier ↔ x.kind = .identifier :=
    Mirror.kind_eq_iff x (by decide) (by decide)
  have type : (t.current.kind == .identifier && t.beforeName) =
      (s.current.kind == .identifier && s.beforeName) := by
    rw [Bool.eq_iff_iff, shown.current, hx]
    simp only [Bool.and_eq_true, beq_iff_eq, kind]
    exact and_congr_right fun hk => by rw [beforeName_eq shown (by rw [hx, hk])]
  dsimp only
  rw [type, shown.options, shown.current, m.word_token]
  refine mirrorsAt_ite Iff.rfl (fun hc => ?_) fun _ => ?_
  · have : x.Readable := ⟨fun hk => by simp [hx, hk] at hc⟩
    infer_instance
  · infer_instance

instance (list : List Param) : Mirrors m (paramPass list) (paramPass list) := by
  refine mirrors_isAborted fun aborted => ?_
  split
  · infer_instance
  · refine mirrors_current fun x => mirrorsAt_ite ?_ (fun _ => ?_) fun _ => ?_
    · exact Mirror.kind_eq_iff x (by decide) (by decide)
    · dsimp only
      infer_instance
    · infer_instance

instance : Mirrors m params params := by unfold params; infer_instance
instance : Mirrors m paramList paramList := by unfold paramList; infer_instance
instance : Mirrors m returnType returnType := by
  refine mirrors_bind inferInstance fun word => ?_
  split
  · refine mirrors_of_at fun x => mirrorsAt_get fun s t shown hx => mirrorsAt_ite ?_ ?_ ?_
    · rw [shown.current, hx]
      exact Mirror.kind_eq_iff x (by decide) (by decide)
    · intro hk
      have : x.Readable := ⟨by rw [← hx, hk]; decide⟩
      rw [shown.options, shown.current, m.word_token]
      infer_instance
    · intro _
      infer_instance
  · infer_instance

-- The blocks of the longer rules are too deep for the usual limit on instances.
set_option synthInstance.maxSize 2000

section
variable (nested nested' : PlaceReader) [∀ place, Evolving (nested place)]
variable [hn : MirrorsPlaces m nested nested']

instance [hx : x.Readable] : MirrorsAt m x (function nested) (function nested') := by
  refine mirrorsAt_current ?_
  dsimp only
  rw [m.span_token x hx.kind_ne]
  have body := mirrors_blockBody nested nested' (m := m) x.span .block Stop.functionEnd
    (by decide)
  infer_instance

instance : Mirrors m (initializer nested) (initializer nested') := by
  unfold initializer; infer_instance

instance : Mirrors m (variableDecl nested) (variableDecl nested') := by
  unfold variableDecl; infer_instance

instance [x.Readable] : MirrorsAt m x (constant nested) (constant nested') := by
  refine mirrorsAt_bind inferInstance fun _ => mirrors_current fun x => ?_
  refine mirrorsAt_ite (by rw [Mirror.isKeyword_token]) (fun hx => ?_) fun _ => ?_
  · have : x.Readable := ⟨kind_ne_of_isA (by decide) hx⟩
    infer_instance
  · refine mirrorsAt_bind inferInstance fun typed => mirrors_current fun x => ?_
    rw [Mirror.isOperator_token]
    infer_instance

instance (scope : Scope) :
    Mirrors m (expressionStatement nested scope) (expressionStatement nested' scope) := by
  unfold expressionStatement; infer_instance

instance [x.Readable] : MirrorsAt m x (assignment nested) (assignment nested') := by
  refine mirrorsAt_match inferInstance fun _ => ⟨?_, ?_⟩
  · refine evolving_bind inferInstance fun parts => ?_
    cases splitAssignment? parts <;> infer_instance
  · refine mirrors_of_at fun x => mirrorsAt_match inferInstance fun parts => ?_
    cases splitAssignment? parts <;> exact ⟨inferInstance, inferInstance⟩

omit [∀ place, Evolving (nested place)] in
theorem mirrors_otherwise (closer : Option (Stop × Span)) :
    Mirrors m (otherwise nested closer)
      (otherwise nested' (closer.map fun (stop, span) => (stop, span.moved m.offset))) := by
  unfold otherwise
  cases closer with
  | none => exact (inferInstance : Mirrors m (pure none) (pure none))
  | some closer =>
      obtain ⟨stop, span⟩ := closer
      have body := mirrors_blockBody nested nested' (m := m) span .block Stop.ifEnd
        (by decide)
      have inner : Mirrors m (nested (.condition span))
          (nested' (.condition (span.moved m.offset))) := hn.place (.condition span) trivial
      dsimp only [Option.map_some]
      infer_instance

theorem mirrors_readCondition (opener : Span) :
    Mirrors m (readCondition nested opener) (readCondition nested' (opener.moved m.offset)) := by
  refine mirrors_bind inferInstance fun test => mirrors_bind inferInstance fun _ => ?_
  refine mirrors_block nested nested' opener .block Stop.branchEnd (by decide) fun r => ?_
  have rest := mirrors_otherwise nested nested' (m := m) r.2
  exact mirrors_bind rest fun _ => inferInstance

instance [hx : x.Readable] : MirrorsAt m x (forStmt nested) (forStmt nested') := by
  refine mirrorsAt_current ?_
  dsimp only
  rw [m.span_token x hx.kind_ne]
  have body := mirrors_blockBody nested nested' (m := m) x.span .block Stop.forEnd
    (by decide)
  infer_instance

instance [hx : x.Readable] : MirrorsAt m x (struct nested) (struct nested') := by
  refine mirrorsAt_current ?_
  dsimp only
  rw [m.span_token x hx.kind_ne]
  have body := mirrors_blockBody nested nested' (m := m) x.span .struct Stop.structEnd
    (by decide)
  infer_instance

instance (operands : List Node) :
    Mirrors m (operandPass nested operands) (operandPass nested' operands) := by
  refine mirrors_isAborted fun aborted => ?_
  dsimp only
  infer_instance

instance [x.Readable] : MirrorsAt m x (instruction nested) (instruction nested') := by
  refine mirrorsAt_current ?_
  rw [m.word_token]
  infer_instance

theorem mirrorsAt_openBlock [hx : x.Readable] (scope : Scope) (closers : List Stop)
    (hc : ∀ stop ∈ closers, stop.kind = .keyword) :
    MirrorsAt m x (openBlock nested scope closers) (openBlock nested' scope closers) := by
  refine mirrorsAt_current ?_
  dsimp only
  rw [m.span_token x hx.kind_ne]
  have body := mirrors_blockBody nested nested' (m := m) x.span scope closers hc
  infer_instance

instance [x.Readable] : MirrorsAt m x (afterKeyword nested) (afterKeyword nested') := by
  unfold afterKeyword; infer_instance

instance [hx : x.Readable] (scope : Scope) (word : StatementWord) :
    MirrorsAt m x (wordStatement nested scope word) (wordStatement nested' scope word) := by
  have globals := mirrorsAt_openBlock nested nested' (m := m) (x := x) .globals
    Stop.globalsEnd (by decide)
  have loop := mirrorsAt_openBlock nested nested' (m := m) (x := x) .block
    Stop.loopEnd (by decide)
  unfold wordStatement
  cases word with
  | ifStmt =>
      refine mirrorsAt_current ?_
      dsimp only
      rw [m.span_token x hx.kind_ne]
      have inner : Mirrors m (nested (.condition x.span))
          (nested' (.condition (x.span.moved m.offset))) := hn.place (.condition x.span) trivial
      infer_instance
  | _ =>
      dsimp only
      infer_instance

theorem atInstruction_eq {s t : ParserState} (shown : m.Shows s t)
    (hk : s.current.kind = .identifier) : t.atInstruction = s.atInstruction := by
  have readable : s.current.kind ≠ .endOfFile := by rw [hk]; decide
  obtain ⟨hy, next⟩ := peek_one shown readable
  have span := m.span_token s.current readable
  have start := m.start_token (s.peek 1)
  unfold ParserState.atInstruction
  dsimp only
  rw [shown.options, shown.current, m.word_token, next, m.word_token, span, start]
  by_cases hf : (s.peek 1).kind = .endOfFile
  · rcases m.kind_token (s.peek 1) with hk' | ⟨-, -, hk'⟩
    · rw [hk', hf]
    · rw [hk', hf]
  · obtain ⟨z, hz⟩ := shown.next hy hf
    have touches : ((s.peek 1).span.stop + m.offset == z.span.start + m.offset) =
        ((s.peek 1).span.stop == z.span.start) := by
      rw [Bool.eq_iff_iff]
      simp
    rw [Mirror.kind_of_readable _ hf, m.span_token _ hf, shown.peek hz, peek_eq hz, m.start_token]
    simp only [Span.moved, touches, Nat.add_lt_add_iff_right]

theorem mirrorsAt_nameStatement (hx : x.kind = .identifier) (scope : Scope) :
    MirrorsAt m x (nameStatement nested scope) (nameStatement nested' scope) := by
  have : x.Readable := ⟨by rw [hx]; decide⟩
  refine mirrorsAt_get fun s t shown hs => ?_
  have hk : s.current.kind = .identifier := by rw [hs, hx]
  rw [atInstruction_eq shown hk, beforeName_eq shown hk]
  infer_instance

theorem mirrorsAt_note (event : ParseEvent) {k l : Unit → Parser β}
    (h : MirrorsAt m x (k ()) (l ())) :
    MirrorsAt m x ((modify (ParserState.note event) : Parser Unit) >>= k)
      ((modify (ParserState.note event) : Parser Unit) >>= l) :=
  ⟨fun _ _ shown hx => h.outcome _ _ (shown.note event event) hx⟩

instance [hx : x.Readable] (scope : Scope) :
    MirrorsAt m x (statement? nested scope) (statement? nested' scope) := by
  refine mirrorsAt_current ?_
  rw [Mirror.kind_of_readable x hx.kind_ne, m.word_token]
  cases hk : x.kind with
  | keyword =>
      refine mirrorsAt_note _ ?_
      cases StatementWord.ofWord? x.word <;> infer_instance
  | identifier =>
      have := mirrorsAt_nameStatement nested nested' (m := m) hk scope
      infer_instance
  | _ => infer_instance

theorem find?_token {stops : List Stop}
    (same : ∀ stop ∈ stops, stop.accepts (m.token x) = stop.accepts x) :
    stops.find? (·.accepts (m.token x)) = stops.find? (·.accepts x) := by
  induction stops with
  | nil => rfl
  | cons stop stops ih =>
      rw [List.find?_cons, List.find?_cons, same stop (by simp),
        ih fun other h => same other (by simp [h])]

theorem mirrors_record {error error' : ParseError}
    (h : error' = error.map m.token (Span.moved m.offset)) :
    Mirrors m (record error) (record error') :=
  ⟨fun _ _ shown => Mirror.outcome_record shown h⟩

/-- Where an error sets the parsers apart, it does not matter what the second one does. -/
theorem mirrors_record_of_opens (ho : m.opens = true) (error : ParseError) {k : Unit → Parser β}
    [h : ∀ a, Evolving (k a)] (other : Parser β) : Mirrors m (record error >>= k) other := by
  constructor
  intro s t shown
  refine .inr ⟨ho, fun none => ?_⟩
  exact ParserState.errors_record_ne_nil (shown.clean ho).1 error
    (((h ()).evolves _).errors_eq_nil none)

/-- One statement or line end, or the end of file where none may be. -/
theorem mirrorsAt_statementPass (scope : Scope) {stops : List Stop}
    (same : ∀ stop ∈ stops, stop.accepts (m.token x) = stop.accepts x) (reading : Reading) :
    MirrorsAt m x (statementPass nested scope stops reading)
      (statementPass nested' scope stops reading) := by
  refine mirrorsAt_get fun s t shown hx => ?_
  rw [shown.aborted, shown.current, hx, find?_token same]
  split
  · infer_instance
  cases stops.find? (·.accepts x) with
  | some stop => infer_instance
  | none =>
      by_cases hf : x.kind = .endOfFile
      · rw [hf]
        rcases m.kind_token x with hk | ⟨ho, -, -⟩
        · rw [hk, hf]
          have recorded : Mirrors m (record (.unexpectedEnd x stops.head? s.openers.head?))
              (record (.unexpectedEnd (m.token x) stops.head? t.openers.head?)) := by
            refine mirrors_record ?_
            rw [shown.openers, List.head?_map]
            rfl
          infer_instance
        · have := mirrors_record_of_opens ho (.unexpectedEnd x stops.head? s.openers.head?)
            (k := fun _ => (pure (.done reading) : Parser (Pass Reading)))
          dsimp only
          infer_instance
      · have readable : x.Readable := ⟨hf⟩
        rw [Mirror.kind_of_readable x hf]
        cases hk : x.kind with
        | endOfFile => exact absurd hk hf
        | endOfLine => infer_instance
        | _ =>
            refine mirrorsAt_orReject inferInstance rfl (fun _ => inferInstance) fun nodes => ?_
            cases nodes <;> infer_instance

instance (scope : Scope) (stops : List Stop) [hs : m.SteadyStops stops] :
    Mirrors m (readStatements nested scope stops) (readStatements nested' scope stops) :=
  mirrors_repeated_of_pass
    (fun reading => mirrors_of_at fun x =>
      mirrorsAt_statementPass nested nested' scope (hs.same x) reading) ([], none)

theorem mirrors_rules (place : Place) (h : m.SteadyPlace place) :
    Mirrors m (place.plain nested) ((place.moved m.offset).plain nested') := by
  cases place with
  | expression stops =>
      have : m.SteadyStops stops := h
      exact (inferInstance : Mirrors m (readExpression nested stops) (readExpression nested' stops))
  | statements scope stops =>
      have : m.SteadyStops stops := h
      exact (inferInstance : Mirrors m (readStatements nested scope stops)
        (readStatements nested' scope stops))
  | condition opener => exact mirrors_readCondition nested nested' opener

end

theorem weight_moved {s t : ParserState} (shown : m.Shows s t) (place : Place) :
    (place.moved m.offset).weight t = place.weight s + 3 * m.tail.length := by
  have length := shown.length
  cases place <;> dsimp only [Place.moved, Place.weight] <;> omega

theorem mirrors_read (place : Place) (h : m.SteadyPlace place) :
    Mirrors m place.read (place.moved m.offset).read := by
  constructor
  intro s t shown
  induction hn : place.weight s using Nat.strongRecOn generalizing place s t with
  | ind n ih =>
      subst hn
      have inside : MirrorsPlaces m (Place.readBelow (place.weight s))
          (Place.readBelow ((place.moved m.offset).weight t)) := by
        refine ⟨fun inner steady => ⟨fun u v shown' => ?_⟩, Place.readBelow_respects _⟩
        have weight := weight_moved shown place
        have weight' := weight_moved shown' inner
        unfold Place.readBelow
        by_cases lt : inner.weight u < place.weight s
        · rw [if_pos lt, if_pos (by omega)]
          exact ih _ lt inner steady u v shown' rfl
        · rw [if_neg lt, if_neg (by omega)]
          exact .inl ⟨rfl, shown'⟩
      rw [Place.read_eq_readBelow, Place.read_eq_readBelow]
      exact (mirrors_rules _ _ place h).outcome s t shown

instance : MirrorsPlaces m Place.read Place.read := ⟨mirrors_read, Place.read_respects⟩

end Parser

end MapScript
