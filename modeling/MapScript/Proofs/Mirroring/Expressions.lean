import MapScript.Proofs.Mirroring.Basic

/-!
# Expressions that mirror each other

Where the end of file has become the end of a line, an argument or a field may go on beyond it for
the second parser. The first one misses the closing bracket then.
-/
namespace MapScript

namespace Parser
variable {α β : Type} {m : Mirror} {x : Token} {p q : Parser α} {k l : α → Parser β}

-- The blocks of the longer rules are too deep for the usual limit on instances.
set_option synthInstance.maxSize 2000

section
variable (nested nested' : PlaceReader) [∀ place, Evolving (nested place)]
variable [hn : MirrorsPlaces m nested nested']

instance (stops : List Stop) [hs : m.SteadyStops stops] :
    Mirrors m (expression nested stops) (expression nested' stops) :=
  mirrors_bind (hn.place (.expression stops) hs) fun _ => inferInstance

instance : Mirrors m (link? nested) (link? nested') := by
  refine mirrors_bind inferInstance fun sign => ?_
  split
  · refine mirrors_current fun x => mirrorsAt_ite ?_ (fun hx => ?_) fun _ => ?_
    · rw [Mirror.kind_eq_iff x (by decide) (by decide),
        Mirror.kind_eq_iff x (by decide) (by decide)]
    · have : x.Readable := ⟨by rcases hx with hx | hx <;> simp [hx]⟩
      rw [m.word_token]
      infer_instance
    · infer_instance
  · infer_instance

theorem fails_eatOr (m : Mirror) (wanted : Expectation) (f : Token → Bool) [m.Steady f] :
    Fails (eatOr wanted f) :=
  fails_eat m (fails_expected wanted)

instance (stops : List Stop) (closer : Token → Bool) [m.SteadyStops stops] [m.Steady closer]
    (missing : Expectation) (args : List Node) :
    Mirrors m (argumentPass nested stops closer missing args)
      (argumentPass nested' stops closer missing args) := by
  have ending (args : List Node) : Fails (do
      if ← eatOperator "," then return .again args
      eatOr missing closer
      return .done args : Parser (Pass (List Node))) :=
    fails_eat m (Fails.bind (fails_eatOr m missing closer))
  unfold argumentPass
  dsimp only
  refine mirrors_skipLineEnds ?_ (fails_isAborted (fails_eat m ?_))
  · refine mirrors_isAborted fun aborted => ?_
    split
    · infer_instance
    refine mirrors_bind inferInstance fun closed => ?_
    split
    · infer_instance
    refine mirrors_bind inferInstance fun parts => ?_
    exact mirrors_skipLineEnds inferInstance (ending _)
  · exact Fails.after fun parts => Fails.after fun _ => ending _

instance [x.Readable] (callee : List Node) :
    MirrorsAt m x (call nested callee) (call nested' callee) := by
  unfold call; infer_instance

instance (parts : List Node) :
    Mirrors m (postfixPass nested parts) (postfixPass nested' parts) := by
  refine mirrors_isAborted fun aborted => ?_
  split
  · infer_instance
  refine mirrors_current fun x => mirrorsAt_ite ?_ (fun hx => ?_) fun _ => ?_
  · exact Mirror.kind_eq_iff x (by decide) (by decide)
  · have : x.Readable := ⟨by rw [hx]; decide⟩
    infer_instance
  · refine mirrorsAt_match inferInstance fun link => ?_
    cases link <;> exact ⟨inferInstance, inferInstance⟩

instance (base : Node) : Mirrors m (operandTail nested base) (operandTail nested' base) := by
  unfold operandTail; infer_instance

instance (chain : List Node) : Mirrors m (chainPass nested chain) (chainPass nested' chain) := by
  refine mirrors_isAborted fun aborted => ?_
  split
  · infer_instance
  refine mirrors_of_at fun x => mirrorsAt_match inferInstance fun link => ?_
  cases link <;> exact ⟨inferInstance, inferInstance⟩

instance [x.Readable] : MirrorsAt m x (reference nested) (reference nested') := by
  refine mirrorsAt_current ?_
  rw [m.word_token]
  infer_instance

instance [x.Readable] : MirrorsAt m x (group nested) (group nested') := by
  unfold group; infer_instance

instance [x.Readable] : MirrorsAt m x (array nested) (array nested') := by
  unfold array; infer_instance

/-- A field up to its value, after the line ends before it; none where the fields end. -/
def fieldHead (nested : PlaceReader) : Parser (Option (String × List Node)) := do
  if ← isAborted then return none
  if ← eatKind .rightBrace then return none
  let key ← current
  if key.kind.isFieldName then
    advance
    eatOr .colon fun t => t.isOperator ":" || t.isOperator "="
    let value ← expression nested [.comma]
    return some (key.word, value)
  else
    expected .fieldName
    return none

/-- What comes after a field. -/
def fieldEnd (fields : List (String × List Node)) :
    Option (String × List Node) → Parser (Pass (List (String × List Node)))
  | none => return .done fields
  | some field => do
    skipLineEnds
    let _ ← eatOperator ","
    return .again (fields ++ [field])

omit [∀ place, Evolving (nested place)] in
theorem fieldPass_eq (fields : List (String × List Node)) :
    fieldPass nested fields = skipLineEnds >>= fun _ => fieldHead nested >>= fieldEnd fields := by
  unfold fieldPass fieldHead
  refine bind_congr fun _ => ?_
  rw [bind_assoc]
  refine bind_congr fun aborted => ?_
  split
  · rfl
  rw [bind_assoc]
  refine bind_congr fun closed => ?_
  split
  · rfl
  rw [bind_assoc]
  refine bind_congr fun key => ?_
  split
  · simp only [bind_assoc, pure_bind]
    rfl
  · rfl

instance : Evolving (fieldHead nested) := by unfold fieldHead; infer_instance

instance (fields : List (String × List Node)) (field : Option (String × List Node)) :
    Evolving (fieldEnd fields field) := by
  cases field <;> unfold fieldEnd <;> infer_instance

omit [∀ place, Evolving (nested place)] in
theorem fails_fieldHead (m : Mirror) : Fails (fieldHead nested) := by
  refine fails_isAborted (fails_eat m (fails_current fun key hk => ?_))
  rw [if_neg (by rw [hk]; decide)]
  exact Fails.bind (fails_expected _)

theorem fails_fieldPass (m : Mirror) (fields : List (String × List Node)) :
    Fails (fieldPass nested fields) := by
  rw [fieldPass_eq]
  exact Fails.after fun _ => Fails.bind (fails_fieldHead nested m)

theorem isFieldName_token (x : Token) : (m.token x).kind.isFieldName = x.kind.isFieldName := by
  rcases m.kind_token x with hk | ⟨-, hk, hk'⟩
  · rw [hk]
  · rw [hk, hk']
    rfl

theorem readable_of_isFieldName (h : x.kind.isFieldName = true) : x.Readable := by
  constructor
  intro hk
  rw [hk] at h
  cases h

instance : Mirrors m (fieldHead nested) (fieldHead nested') := by
  refine mirrors_isAborted fun aborted => ?_
  split
  · infer_instance
  refine mirrors_bind inferInstance fun closed => ?_
  split
  · infer_instance
  refine mirrors_current fun key => mirrorsAt_ite (by rw [isFieldName_token]) (fun hk => ?_) ?_
  · have := readable_of_isFieldName hk
    rw [m.word_token]
    infer_instance
  · intro _
    infer_instance

/-- The first parser is at the end of file and has found nothing wrong. -/
structure Ended (s : ParserState) : Prop where
  kind : s.current.kind = .endOfFile
  going : s.aborted = false
  clean : s.errors = []

/-- After a field, the second parser alone may move past the end of file. -/
theorem outcome_fieldEnd {s t : ParserState} (shown : m.Shows s t)
    (fields : List (String × List Node)) (field : Option (String × List Node)) :
    m.Outcome (fieldEnd fields field s) (fieldEnd fields field t) ∨
      m.opens = true ∧ ∃ all, (fieldEnd fields field s).1 = .again all ∧
        Ended (fieldEnd fields field s).2 := by
  cases field with
  | none => exact .inl (.inl ⟨rfl, shown⟩)
  | some field =>
      have comma : Mirrors m (do
          let _ ← eatOperator ","
          return Pass.again (fields ++ [field])) (do
          let _ ← eatOperator ","
          return Pass.again (fields ++ [field])) := inferInstance
      rcases Mirror.outcome_skipLineEnds shown with skipped | ⟨ho, ended⟩
      · exact .inl (comma.outcome _ _ skipped)
      · obtain ⟨clean, going⟩ := shown.clean ho
        have no : s.skipLineEnds.current.isOperator "," = false := by
          simp [Token.isOperator, Token.isA, ended]
        have run : fieldEnd fields (some field) s =
            (.again (fields ++ [field]), s.skipLineEnds) := by
          change ((do
            let _ ← eatOperator ","
            return Pass.again (fields ++ [field])) : Parser _) s.skipLineEnds = _
          rw [run_bind, eatOperator, run_eat_not no]
          rfl
        rw [run]
        exact .inr ⟨ho, _, rfl, ended, going, clean⟩

/-- The next pass over fields fails at the end of file. -/
theorem errors_repeated_fieldPass (m : Mirror) {s next : ParserState}
    {fields all : List (String × List Node)} (run : fieldPass nested fields s = (.again all, next))
    (lt : next.rest.length < s.rest.length) (ended : Ended next) :
    (repeated (fieldPass nested) fields s).2.errors ≠ [] := by
  rw [repeated_of_again run lt]
  intro none
  exact fails_fieldPass nested m all next ended.kind ended.going ended.clean
    ((evolves_repeated _ all next).errors_eq_nil none)

theorem mirrors_repeated_fieldPass (fields : List (String × List Node)) :
    Mirrors m (repeated (fieldPass nested) fields) (repeated (fieldPass nested') fields) := by
  refine mirrors_repeated (fun fields s t shown => ?_) fields
  have doomed (failed : (fieldPass nested fields s).2.errors ≠ []) :
      (repeated (fieldPass nested) fields s).2.errors ≠ [] :=
    fun none => failed ((evolves_repeated _ fields s).errors_eq_nil none)
  have run : fieldPass nested fields s =
      fieldEnd fields (fieldHead nested s.skipLineEnds).1 (fieldHead nested s.skipLineEnds).2 := by
    rw [fieldPass_eq]
    rfl
  have run' : fieldPass nested' fields t =
      fieldEnd fields (fieldHead nested' t.skipLineEnds).1
        (fieldHead nested' t.skipLineEnds).2 := by
    rw [fieldPass_eq]
    rfl
  rcases Mirror.outcome_skipLineEnds shown with skipped | ⟨ho, ended⟩
  · have head : m.Outcome (fieldHead nested s.skipLineEnds) (fieldHead nested' t.skipLineEnds) :=
      Mirrors.outcome _ _ skipped
    generalize fieldHead nested s.skipLineEnds = r at run head
    generalize fieldHead nested' t.skipLineEnds = r' at run' head
    have evolves : Evolves r.2 (fieldEnd fields r.1 r.2).2 := Evolving.evolves r.2
    rcases head with ⟨value, shown'⟩ | ⟨ho, failed⟩
    · rw [value] at run'
      rcases outcome_fieldEnd shown' fields r.1 with
        (alike | ⟨ho, failed⟩) | ⟨ho, all, again, ended⟩
      · rw [run, run']
        exact .inl alike
      · rw [← run] at failed
        exact .inr ⟨ho, doomed failed⟩
      · rw [← run] at again ended
        have lt := fieldPass_ahead nested fields s (by rw [again]; trivial)
        exact .inr ⟨ho, errors_repeated_fieldPass nested m (Prod.ext again rfl) lt ended⟩
    · rw [← run] at evolves
      exact .inr ⟨ho, doomed fun none => failed (evolves.errors_eq_nil none)⟩
  · obtain ⟨clean, going⟩ := shown.clean ho
    have failing : Fails (fieldHead nested >>= fieldEnd fields) := (fails_fieldHead nested m).bind
    refine .inr ⟨ho, doomed ?_⟩
    rw [run]
    exact failing s.skipLineEnds ended going clean

instance [x.Readable] : MirrorsAt m x (object nested) (object nested') := by
  have fields := mirrors_repeated_fieldPass (m := m) nested nested' []
  unfold object
  infer_instance

/-- The statements of a block, with its closer further on. -/
def movedBlock (offset : Nat) (r : List Node × Option (Stop × Span)) :
    List Node × Option (Stop × Span) :=
  (r.1, r.2.map fun (stop, span) => (stop, span.moved offset))

theorem steadyStops_keywords {stops : List Stop} (h : ∀ stop ∈ stops, stop.kind = .keyword) :
    m.SteadyStops stops :=
  steadyStops_of_kind fun stop hs => by rw [h stop hs]; decide

theorem shows_opened {s t : ParserState} (shown : m.Shows s t) (opener : Span) :
    m.Shows { s with openers := opener :: s.openers }
      { t with openers := opener.moved m.offset :: t.openers } :=
  ⟨shown.rest, shown.ended, shown.options, shown.frames, shown.framed, by simp [shown.openers],
    shown.budget, shown.aborted, shown.errors, shown.clean⟩

theorem shows_closed {s t : ParserState} (shown : m.Shows s t) :
    m.Shows { s with openers := s.openers.tail } { t with openers := t.openers.tail } := by
  refine ⟨shown.rest, shown.ended, shown.options, shown.frames, shown.framed, ?_, shown.budget,
    shown.aborted, shown.errors, shown.clean⟩
  dsimp only
  rw [shown.openers, List.map_tail]

omit [∀ place, Evolving (nested place)] in
theorem outcome_block {s t : ParserState} (shown : m.Shows s t) (opener : Span) (scope : Scope)
    {closers : List Stop} (hc : ∀ stop ∈ closers, stop.kind = .keyword) :
    (block nested' (opener.moved m.offset) scope closers t).1 =
        movedBlock m.offset (block nested opener scope closers s).1 ∧
      m.Shows (block nested opener scope closers s).2
        (block nested' (opener.moved m.offset) scope closers t).2 ∨
      m.opens = true ∧ (block nested opener scope closers s).2.errors ≠ [] := by
  have inner :
      Mirrors m (nested (.statements scope closers)) (nested' (.statements scope closers)) :=
    hn.place (.statements scope closers) (steadyStops_keywords hc)
  have outcome := inner.outcome _ _ (shows_opened shown opener)
  have respected := hn.respects scope closers { s with openers := opener :: s.openers }
  rw [run_block, run_block]
  generalize nested (.statements scope closers) { s with openers := opener :: s.openers } = r
    at outcome respected ⊢
  generalize nested' (.statements scope closers)
    { t with openers := opener.moved m.offset :: t.openers } = r' at outcome ⊢
  obtain ⟨⟨body, closer⟩, next⟩ := r
  obtain ⟨⟨body', closer'⟩, next'⟩ := r'
  rcases outcome with ⟨value, shown'⟩ | ⟨ho, failed⟩
  · cases value
    cases closer with
    | none => exact .inl ⟨rfl, shows_closed shown'⟩
    | some stop =>
        obtain ⟨hm, ha⟩ := respected stop rfl
        have readable : next.current.kind ≠ .endOfFile := by
          simp only [Stop.accepts, Bool.and_eq_true, beq_iff_eq] at ha
          rw [ha.1, hc stop hm]
          decide
        have span : next'.current.span = next.current.span.moved m.offset := by
          rw [shown'.current, m.span_token _ readable]
        refine .inl ⟨?_, (shows_closed shown').advance readable⟩
        dsimp only
        rw [span]
        rfl
  · cases closer with
    | none => exact .inr ⟨ho, failed⟩
    | some stop => exact .inr ⟨ho, by simpa using failed⟩

omit [∀ place, Evolving (nested place)] in
/-- A block is mirrored together with what follows it, which may see where it was closed. -/
theorem mirrors_block (opener : Span) (scope : Scope) (closers : List Stop)
    (hc : ∀ stop ∈ closers, stop.kind = .keyword)
    {k l : List Node × Option (Stop × Span) → Parser β} [h : ∀ r, Evolving (k r)]
    (hk : ∀ r, Mirrors m (k r) (l (movedBlock m.offset r))) :
    Mirrors m (block nested opener scope closers >>= k)
      (block nested' (opener.moved m.offset) scope closers >>= l) := by
  constructor
  intro s t shown
  rw [run_bind, run_bind]
  rcases outcome_block nested nested' shown opener scope hc with ⟨value, shown'⟩ | ⟨ho, failed⟩
  · rw [value]
    exact (hk _).outcome _ _ shown'
  · refine .inr ⟨ho, fun none => failed ?_⟩
    exact ((h _).evolves _).errors_eq_nil none

omit [∀ place, Evolving (nested place)] in
theorem mirrors_blockBody (opener : Span) (scope : Scope) (closers : List Stop)
    (hc : ∀ stop ∈ closers, stop.kind = .keyword) :
    Mirrors m (blockBody nested opener scope closers)
      (blockBody nested' (opener.moved m.offset) scope closers) :=
  mirrors_block nested nested' opener scope closers hc fun r =>
    (inferInstance : Mirrors m (pure r.1) (pure r.1))

instance [x.Readable] : MirrorsAt m x (await nested) (await nested') := by
  refine mirrorsAt_bind inferInstance fun _ => mirrors_bind inferInstance fun _ => ?_
  refine mirrors_current fun x => mirrorsAt_ite ?_ (fun hx => ?_) fun _ => ?_
  · exact Mirror.kind_eq_iff x (by decide) (by decide)
  · have : x.Readable := ⟨by rw [hx]; decide⟩
    infer_instance
  · infer_instance

instance [hx : x.Readable] : MirrorsAt m x (doBlock nested) (doBlock nested') := by
  refine mirrorsAt_current ?_
  dsimp only
  rw [m.span_token x hx.kind_ne]
  have body := mirrors_blockBody nested nested' (m := m) x.span .block Stop.doEnd (by decide)
  infer_instance

instance [x.Readable] (node : Node) : MirrorsAt m x (single node) (single node) := by
  unfold single; infer_instance

instance [x.Readable] (t : Token) :
    MirrorsAt m x (wordPart? nested t) (wordPart? nested' (m.token t)) := by
  unfold wordPart?
  rw [m.word_token]
  split <;> infer_instance

instance [x.Readable] (t : Token) :
    MirrorsAt m x (operatorPart? nested t) (operatorPart? nested' (m.token t)) := by
  unfold operatorPart?
  rw [m.word_token]
  infer_instance

instance [hx : x.Readable] : MirrorsAt m x (expressionPart? nested) (expressionPart? nested') := by
  refine mirrorsAt_current ?_
  rw [Mirror.kind_of_readable x hx.kind_ne, m.word_token]
  split <;> infer_instance

/-- Both parsers are at a stop, or neither is. -/
theorem accepts_token {stops : List Stop} (hs : m.SteadyStops stops) (x : Token) :
    stops.any (·.accepts (m.token x)) = stops.any (·.accepts x) := by
  rw [Bool.eq_iff_iff, List.any_eq_true, List.any_eq_true]
  refine exists_congr fun stop => and_congr_right fun hm => ?_
  rw [hs.same x stop hm]

instance (stops : List Stop) [hs : m.SteadyStops stops] (reading : Reading) :
    Mirrors m (expressionPass nested stops reading) (expressionPass nested' stops reading) := by
  refine mirrors_of_at fun x => mirrorsAt_get fun s t shown hx => ?_
  rw [shown.aborted, shown.current, accepts_token hs, Mirror.endsExpression_token, hx]
  split
  · infer_instance
  refine mirrorsAt_ite Iff.rfl (fun _ => inferInstance) fun hc => ?_
  have : x.Readable := by
    refine readable_of_endsExpression ?_
    rw [Bool.or_eq_true, not_or] at hc
    exact Bool.eq_false_iff.mpr hc.2
  refine mirrorsAt_orReject inferInstance rfl (fun _ => inferInstance) fun parts => ?_
  cases parts <;> infer_instance

instance (stops : List Stop) [m.SteadyStops stops] :
    Mirrors m (readExpression nested stops) (readExpression nested' stops) := by
  unfold readExpression; infer_instance

end

end Parser

end MapScript
