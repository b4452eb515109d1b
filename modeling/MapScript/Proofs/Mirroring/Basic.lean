import MapScript.Proofs.Progress

/-!
# Parsers that mirror each other

One parser reads tokens, and another reads an image of them with more tokens behind. As long as
nothing goes wrong the second does what the first does: it yields the same nodes, and its state is
an image of the state of the first.

There are two such images. In one the end of file is only moved, together with all the other
tokens. In the other it has become the end of a line, which does end expressions but is no end of
file; here the second parser may part from the first, but then the first one has found an error.
-/
namespace MapScript

def Span.moved (offset : Nat) (s : Span) : Span := ⟨s.start + offset, s.stop + offset⟩

/-- The same error about other tokens. -/
def ParseError.map (onToken : Token → Token) (onSpan : Span → Span) : ParseError → ParseError
  | .unexpectedToken found => .unexpectedToken (onToken found)
  | .unexpectedEnd found closer opener => .unexpectedEnd (onToken found) closer (opener.map onSpan)
  | .expected wanted found => .expected wanted (onToken found)
  | .budgetExhausted last => .budgetExhausted (onToken last)

/-- The flags of frames, the outermost of which waits in any case if `flag` is set. -/
def orLast (flag : Bool) : List Bool → List Bool
  | [] => []
  | [f] => [f || flag]
  | f :: g :: fs => f :: orLast flag (g :: fs)

theorem orLast_cons (flag f : Bool) {fs : List Bool} (h : fs ≠ []) :
    orLast flag (f :: fs) = f :: orLast flag fs := by
  cases fs with
  | nil => exact absurd rfl h
  | cons g fs => rfl

/-- How the tokens of one parser look to another one. -/
structure Mirror where
  token : Token → Token
  /-- What the other parser has behind them. -/
  tail : List Token
  /-- The other parser waits in the program itself. -/
  flag : Bool
  /-- How much further on the tokens stand. -/
  offset : Nat
  /-- The end of file becomes the end of a line. -/
  opens : Bool
  word_token (t : Token) : (token t).word = t.word
  kind_token (t : Token) : (token t).kind = t.kind ∨
    opens = true ∧ t.kind = .endOfFile ∧ (token t).kind = .endOfLine
  start_token (t : Token) : (token t).span.start = t.span.start + offset
  span_token (t : Token) : t.kind ≠ .endOfFile → (token t).span = t.span.moved offset

namespace Mirror
variable (m : Mirror)

/-- The state of the second parser is an image of the state of the first. Where the end of file is
the end of a line, this is said only as long as nothing is wrong. -/
structure Shows (s t : ParserState) : Prop where
  rest : t.rest = s.rest.map m.token ++ m.tail
  ended : ∃ ts last, s.rest = ts ++ [last] ∧ last.kind = .endOfFile
  options : t.options = s.options
  frames : t.frames = orLast m.flag s.frames
  framed : s.frames ≠ []
  openers : t.openers = s.openers.map (Span.moved m.offset)
  budget : t.budget = s.budget
  aborted : t.aborted = s.aborted
  errors : t.errors = s.errors.map (ParseError.map m.token (Span.moved m.offset))
  clean : m.opens = true → s.errors = [] ∧ s.aborted = false

/-- How two runs can end: alike, or apart after an error. -/
def Outcome {α : Type} (r r' : α × ParserState) : Prop :=
  r'.1 = r.1 ∧ m.Shows r.2 r'.2 ∨ m.opens = true ∧ r.2.errors ≠ []

section
variable {m} (t : Token)

theorem kind_eq_iff {kind : TokenKind} (hf : kind ≠ .endOfFile) (hl : kind ≠ .endOfLine) :
    (m.token t).kind = kind ↔ t.kind = kind := by
  rcases m.kind_token t with h | ⟨-, h, h'⟩
  · rw [h]
  · rw [h, h']
    exact ⟨fun e => absurd e.symm hl, fun e => absurd e.symm hf⟩

theorem kind_of_readable (h : t.kind ≠ .endOfFile) : (m.token t).kind = t.kind := by
  rcases m.kind_token t with h' | ⟨-, h', -⟩
  · exact h'
  · exact absurd h' h

theorem isA_token {kind : TokenKind} (hf : kind ≠ .endOfFile) (hl : kind ≠ .endOfLine)
    (word : String) : (m.token t).isA kind word = t.isA kind word := by
  have hk := kind_eq_iff (m := m) t hf hl
  simp only [Token.isA, m.word_token]
  rw [Bool.eq_iff_iff]
  simp [hk]

@[simp] theorem isOperator_token (symbol : String) :
    (m.token t).isOperator symbol = t.isOperator symbol :=
  isA_token t (by decide) (by decide) symbol

@[simp] theorem isKeyword_token (word : String) :
    (m.token t).isKeyword word = t.isKeyword word :=
  isA_token t (by decide) (by decide) word

@[simp] theorem endsExpression_token : (m.token t).endsExpression = t.endsExpression := by
  rcases m.kind_token t with h | ⟨-, h, h'⟩
  · simp only [Token.endsExpression, h, m.word_token]
  · simp only [Token.endsExpression, h, h']

end

section
variable {m} {s t : ParserState}

theorem Shows.rest_ne_nil (h : m.Shows s t) : s.rest ≠ [] := by
  obtain ⟨ts, last, hr, -⟩ := h.ended
  simp [hr]

theorem Shows.peek (h : m.Shows s t) {n : Nat} {x : Token} (hx : s.rest[n]? = some x) :
    t.peek n = m.token x := by
  have hn : n < s.rest.length := (List.getElem?_eq_some_iff.mp hx).1
  unfold ParserState.peek
  rw [h.rest, List.getElem?_append_left (by simpa using hn), List.getElem?_map, hx]
  rfl

theorem Shows.current (h : m.Shows s t) : t.current = m.token s.current := by
  cases hr : s.rest with
  | nil => exact absurd hr h.rest_ne_nil
  | cons x rest =>
      have hx : s.current = x := by simp [ParserState.current, ParserState.peek, hr]
      rw [hx]
      exact h.peek (by simp [hr])

/-- A token that is not the last one has another one behind it. -/
theorem Shows.next (h : m.Shows s t) {n : Nat} {x : Token} (hx : s.rest[n]? = some x)
    (hk : x.kind ≠ .endOfFile) : ∃ y, s.rest[n + 1]? = some y := by
  obtain ⟨ts, last, hr, hl⟩ := h.ended
  obtain ⟨hn, he⟩ := List.getElem?_eq_some_iff.mp hx
  rcases Nat.lt_or_ge (n + 1) s.rest.length with lt | ge
  · exact ⟨_, List.getElem?_eq_getElem lt⟩
  · have hlast : n = ts.length := by
      simp only [hr, List.length_append, List.length_singleton] at hn ge
      omega
    simp only [hr, hlast, List.getElem?_concat_length, Option.some.injEq] at hx
    exact absurd hl (hx ▸ hk)

theorem Shows.length (h : m.Shows s t) : t.rest.length = s.rest.length + m.tail.length := by
  rw [h.rest, List.length_append, List.length_map]

theorem Shows.advance (h : m.Shows s t) (hk : s.current.kind ≠ .endOfFile) :
    m.Shows s.advance t.advance := by
  have hk' : t.current.kind ≠ .endOfFile := by
    rwa [h.current, kind_of_readable _ hk]
  have hs : s.advance = { s with rest := s.rest.tail } := if_neg hk
  have ht : t.advance = { t with rest := t.rest.tail } := if_neg hk'
  rw [hs, ht]
  refine ⟨?_, ?_, h.options, h.frames, h.framed, h.openers, h.budget, h.aborted, h.errors, h.clean⟩
  · rw [h.rest, List.tail_append_of_ne_nil (by simpa using h.rest_ne_nil), List.map_tail]
  · obtain ⟨ts, last, hr, hl⟩ := h.ended
    cases ts with
    | nil =>
        have : s.current = last := by simp [ParserState.current, ParserState.peek, hr]
        exact absurd hl (this ▸ hk)
    | cons x ts => exact ⟨ts, last, by simp [hr], hl⟩

theorem Shows.record (h : m.Shows s t) (ho : m.opens = false) {error error' : ParseError}
    (he : error' = error.map m.token (Span.moved m.offset)) :
    m.Shows (s.record error) (t.record error') := by
  unfold ParserState.record
  rw [h.errors, List.length_map]
  split
  · refine ⟨h.rest, h.ended, h.options, h.frames, h.framed, h.openers, h.budget, h.aborted, ?_, ?_⟩
    · simp [he]
    · simp [ho]
  · exact h

/-- Both keep an error about the tokens they see, or there is one that was not there before. -/
theorem outcome_record (h : m.Shows s t) {error error' : ParseError}
    (he : error' = error.map m.token (Span.moved m.offset)) :
    m.Outcome ((), s.record error) ((), t.record error') := by
  cases ho : m.opens with
  | true => exact .inr ⟨ho, ParserState.errors_record_ne_nil (h.clean ho).1 error⟩
  | false => exact .inl ⟨rfl, h.record ho he⟩

theorem Shows.note (h : m.Shows s t) (event event' : ParseEvent) :
    m.Shows (s.note event) (t.note event') :=
  ⟨h.rest, h.ended, h.options, h.frames, h.framed, h.openers, h.budget, h.aborted, h.errors,
    h.clean⟩

/-- An end of file that stays one holds both parsers. -/
theorem Shows.advance_of_closed (h : m.Shows s t) (ho : m.opens = false) :
    m.Shows s.advance t.advance := by
  by_cases hk : s.current.kind = .endOfFile
  · have hk' : t.current.kind = .endOfFile := by
      rcases m.kind_token s.current with same | ⟨ho', -, -⟩
      · rw [h.current, same, hk]
      · rw [ho] at ho'
        cases ho'
    have hs : s.advance = s := if_pos hk
    have ht : t.advance = t := if_pos hk'
    rwa [hs, ht]
  · exact h.advance hk

theorem Shows.reject (h : m.Shows s t) (ho : m.opens = false) : m.Shows s.reject t.reject := by
  have skipped := (h.advance_of_closed ho).note (.skipping s.current s.budget)
    (.skipping t.current t.budget)
  have found : ParseError.unexpectedToken t.current =
      (ParseError.unexpectedToken s.current).map m.token (Span.moved m.offset) := by
    rw [h.current]
    rfl
  have shown := skipped.record ho found
  unfold ParserState.reject
  dsimp only
  generalize ParserState.record _ (s.advance.note _) = s' at shown ⊢
  generalize ParserState.record _ (t.advance.note _) = t' at shown ⊢
  rw [shown.budget]
  split
  · refine ⟨shown.rest, shown.ended, shown.options, shown.frames, shown.framed, shown.openers, rfl,
      rfl, ?_, by simp [ho]⟩
    simp [ParserState.abort, ParserState.note, shown.errors, h.current, ParseError.map]
  · exact ⟨shown.rest, shown.ended, shown.options, shown.frames, shown.framed, shown.openers, rfl,
      shown.aborted, shown.errors, by simp [ho]⟩

theorem outcome_reject (h : m.Shows s t) : m.Outcome ((), s.reject) ((), t.reject) := by
  cases ho : m.opens with
  | true => exact .inr ⟨ho, ParserState.errors_reject_ne_nil (h.clean ho).1⟩
  | false => exact .inl ⟨rfl, h.reject ho⟩

theorem dropWhile_lineEnds (m : Mirror) {last : Token} (hl : last.kind = .endOfFile)
    (ts : List Token) :
    (∃ us, (ts ++ [last]).dropWhile (·.kind == .endOfLine) = us ++ [last] ∧
      ((ts ++ [last]).map m.token ++ m.tail).dropWhile (·.kind == .endOfLine) =
        (us ++ [last]).map m.token ++ m.tail) ∨
      m.opens = true ∧ ∃ x us, (ts ++ [last]).dropWhile (·.kind == .endOfLine) = x :: us ∧
        x.kind = .endOfFile := by
  induction ts with
  | nil =>
      rcases m.kind_token last with hk | ⟨ho, -, -⟩
      · refine .inl ⟨[], ?_, ?_⟩
        · simp [hl]
        · simp [hk, hl]
      · exact .inr ⟨ho, last, [], by simp [hl], hl⟩
  | cons x ts ih =>
      rcases m.kind_token x with hk | ⟨ho, hx, -⟩
      · by_cases hx : x.kind = .endOfLine
        · simpa [hk, hx] using ih
        · exact .inl ⟨x :: ts, by simp [hx], by simp [hk, hx]⟩
      · exact .inr ⟨ho, x, ts ++ [last], by simp [hx], hx⟩

/-- Where the end of file is the end of a line, only the second parser moves past it. -/
theorem outcome_skipLineEnds (h : m.Shows s t) :
    m.Shows s.skipLineEnds t.skipLineEnds ∨
      m.opens = true ∧ s.skipLineEnds.current.kind = .endOfFile := by
  obtain ⟨ts, last, hr, hl⟩ := h.ended
  have rest := h.rest
  rw [hr] at rest
  rcases m.dropWhile_lineEnds hl ts with ⟨us, hs, ht⟩ | ⟨ho, x, us, hs, hx⟩
  · refine .inl ⟨?_, ⟨us, last, ?_, hl⟩, h.options, h.frames, h.framed, h.openers, h.budget,
      h.aborted, h.errors, h.clean⟩
    · unfold ParserState.skipLineEnds
      dsimp only
      rw [rest, hr, hs, ht]
    · unfold ParserState.skipLineEnds
      dsimp only
      rw [hr, hs]
  · refine .inr ⟨ho, ?_⟩
    unfold ParserState.current ParserState.peek ParserState.skipLineEnds
    dsimp only
    rw [hr, hs]
    exact hx

theorem Shows.markAsync (h : m.Shows s t) : m.Shows s.markAsync t.markAsync := by
  cases hf : s.frames with
  | nil => exact absurd hf h.framed
  | cons f outer =>
      have hs : s.markAsync = { s with frames := true :: outer } := by
        unfold ParserState.markAsync
        rw [hf]
      have ht : t.markAsync = { t with frames := orLast m.flag (true :: outer) } := by
        have frames := h.frames
        rw [hf] at frames
        unfold ParserState.markAsync
        cases outer with
        | nil =>
            rw [frames]
            simp [orLast]
        | cons g outer =>
            rw [frames]
            rfl
      rw [hs, ht]
      exact ⟨h.rest, h.ended, h.options, rfl, by simp, h.openers, h.budget, h.aborted, h.errors,
        h.clean⟩

end

end Mirror

/-- The second parser mirrors the first, whatever state that starts from. -/
class Mirrors {α : Type} (m : Mirror) (p q : Parser α) : Prop where
  outcome (s t : ParserState) : m.Shows s t → m.Outcome (p s) (q t)

/-- The second parser mirrors the first one at the token `x`. -/
class MirrorsAt {α : Type} (m : Mirror) (x : Token) (p q : Parser α) : Prop where
  outcome (s t : ParserState) : m.Shows s t → s.current = x → m.Outcome (p s) (q t)

/-- A test that finds the same in both, and never an end of file. -/
class Mirror.Steady (m : Mirror) (p : Token → Bool) : Prop where
  same (t : Token) : p (m.token t) = p t
  readable (t : Token) : p t = true → t.kind ≠ .endOfFile

/-- Stops at which both parsers end. -/
class Mirror.SteadyStops (m : Mirror) (stops : List Stop) : Prop where
  same (t : Token) : ∀ stop ∈ stops, stop.accepts (m.token t) = stop.accepts t

/-- The same place further on. -/
def Place.moved (offset : Nat) : Place → Place
  | .expression stops => .expression stops
  | .statements scope stops => .statements scope stops
  | .condition opener => .condition (opener.moved offset)

/-- A place at the end of which both parsers stop. -/
def Mirror.SteadyPlace (m : Mirror) : Place → Prop
  | .expression stops => m.SteadyStops stops
  | .statements _ stops => m.SteadyStops stops
  | .condition _ => True

namespace Parser
variable {α β : Type} {m : Mirror} {x : Token} {p q : Parser α} {k l : α → Parser β}

theorem outcome_bind {s t : ParserState} (hp : m.Outcome (p s) (q t))
    (hk : ∀ a, Mirrors m (k a) (l a)) (kept : ∀ a s, (k a s).2.errors = [] → s.errors = []) :
    m.Outcome ((p >>= k) s) ((q >>= l) t) := by
  rw [run_bind, run_bind]
  rcases hp with ⟨value, shown⟩ | ⟨ho, failed⟩
  · rw [value]
    exact (hk _).outcome _ _ shown
  · exact .inr ⟨ho, fun none => failed (kept _ _ none)⟩

theorem mirrors_bind (hp : Mirrors m p q) (hk : ∀ a, Mirrors m (k a) (l a))
    [∀ a, Evolving (k a)] : Mirrors m (p >>= k) (q >>= l) :=
  ⟨fun s t h => outcome_bind (hp.outcome s t h) hk errors_kept⟩

theorem mirrorsAt_bind (hp : MirrorsAt m x p q) (hk : ∀ a, Mirrors m (k a) (l a))
    [∀ a, Evolving (k a)] : MirrorsAt m x (p >>= k) (q >>= l) :=
  ⟨fun s t h hx => outcome_bind (hp.outcome s t h hx) hk errors_kept⟩

/-- The same, for a block that goes on with a case split. -/
theorem mirrorsAt_match (hp : MirrorsAt m x p q)
    (hk : ∀ a, Evolving (k a) ∧ Mirrors m (k a) (l a)) : MirrorsAt m x (p >>= k) (q >>= l) :=
  have (a : α) : Evolving (k a) := (hk a).1
  mirrorsAt_bind hp fun a => (hk a).2

/-- The same, for a rule that may find nothing, so that the token is skipped. -/
theorem mirrorsAt_orReject {b : β} {p q : Parser (Option α)} {k l : Option α → Parser β}
    (hp : MirrorsAt m x p q) (hr : k none = do reject; return b)
    (hs : ∀ a, Evolving (k (some a))) (hk : ∀ a, Mirrors m (k a) (l a)) :
    MirrorsAt m x (p >>= k) (q >>= l) :=
  ⟨fun s t h hx => outcome_bind (hp.outcome s t h hx) hk (errors_kept_orReject hr hs)⟩

instance (a : α) : Mirrors m (pure a : Parser α) (pure a) := ⟨fun _ _ h => .inl ⟨rfl, h⟩⟩

instance [hp : Mirrors m p q] : MirrorsAt m x p q := ⟨fun s t h _ => hp.outcome s t h⟩

theorem mirrors_of_at (h : ∀ x, MirrorsAt m x p q) : Mirrors m p q :=
  ⟨fun s t hs => (h s.current).outcome s t hs rfl⟩

instance [Mirrors m p q] [hk : ∀ a, Mirrors m (k a) (l a)] [∀ a, Evolving (k a)] :
    Mirrors m (p >>= k) (q >>= l) := mirrors_bind inferInstance hk

instance [MirrorsAt m x p q] [hk : ∀ a, Mirrors m (k a) (l a)] [∀ a, Evolving (k a)] :
    MirrorsAt m x (p >>= k) (q >>= l) := mirrorsAt_bind inferInstance hk

instance (c : Prop) [Decidable c] {p' q' : Parser α} [hp : Mirrors m p q] [hq : Mirrors m p' q'] :
    Mirrors m (if c then p else p') (if c then q else q') := by
  split
  · exact hp
  · exact hq

theorem mirrorsAt_ite {c c' : Prop} [Decidable c] [Decidable c'] {p' q' : Parser α} (h : c' ↔ c)
    (yes : c → MirrorsAt m x p q) (no : ¬ c → MirrorsAt m x p' q') :
    MirrorsAt m x (if c then p else p') (if c' then q else q') := by
  by_cases hc : c
  · rw [if_pos hc, if_pos (h.mpr hc)]
    exact yes hc
  · rw [if_neg hc, if_neg (mt h.mp hc)]
    exact no hc

instance (c : Prop) [Decidable c] {p' q' : Parser α} [hp : MirrorsAt m x p q]
    [hq : MirrorsAt m x p' q'] : MirrorsAt m x (if c then p else p') (if c then q else q') :=
  mirrorsAt_ite Iff.rfl (fun _ => hp) fun _ => hq

/-- The second parser sees the image of the token. -/
theorem mirrorsAt_current {k l : Token → Parser β} (h : MirrorsAt m x (k x) (l (m.token x))) :
    MirrorsAt m x (current >>= k) (current >>= l) := by
  constructor
  intro s t hs hx
  have ht : t.current = m.token x := by rw [hs.current, hx]
  have run := h.outcome s t hs hx
  rw [← ht] at run
  rw [← hx] at run
  exact run

theorem mirrors_current {k l : Token → Parser β}
    (h : ∀ x, MirrorsAt m x (k x) (l (m.token x))) : Mirrors m (current >>= k) (current >>= l) :=
  mirrors_of_at fun x => mirrorsAt_current (h x)

theorem mirrorsAt_get {k l : ParserState → Parser β}
    (h : ∀ s t, m.Shows s t → s.current = x → MirrorsAt m x (k s) (l t)) :
    MirrorsAt m x (get >>= k) (get >>= l) :=
  ⟨fun s t hs hx => (h s t hs hx).outcome s t hs hx⟩

instance [hx : x.Readable] : MirrorsAt m x advance advance :=
  ⟨fun _ _ h ht => .inl ⟨rfl, h.advance (ht ▸ hx.kind_ne)⟩⟩

instance : Mirrors m reject reject := ⟨fun _ _ h => Mirror.outcome_reject h⟩

theorem mirrors_isAborted {k l : Bool → Parser β} (hk : ∀ a, Mirrors m (k a) (l a)) :
    Mirrors m (isAborted >>= k) (isAborted >>= l) := by
  constructor
  intro s t shown
  change m.Outcome (k s.aborted s) (l t.aborted t)
  rw [shown.aborted]
  exact (hk _).outcome s t shown

instance (wanted : Expectation) : Mirrors m (expected wanted) (expected wanted) :=
  ⟨fun _ _ h => Mirror.outcome_record h (by rw [h.current]; rfl)⟩

instance : Mirrors m (modify ParserState.markAsync : Parser Unit) (modify ParserState.markAsync) :=
  ⟨fun _ _ h => .inl ⟨rfl, h.markAsync⟩⟩

theorem steady_kind {kind : TokenKind} (hf : kind ≠ .endOfFile) (hl : kind ≠ .endOfLine) :
    m.Steady (·.kind == kind) where
  same t := by
    rw [Bool.eq_iff_iff]
    simp [Mirror.kind_eq_iff t hf hl]
  readable t ht := by
    rw [beq_iff_eq] at ht
    rwa [ht]

instance : m.Steady (·.kind == .leftParen) := steady_kind (by decide) (by decide)
instance : m.Steady (·.kind == .rightParen) := steady_kind (by decide) (by decide)
instance : m.Steady (·.kind == .rightBrace) := steady_kind (by decide) (by decide)

instance (word : String) : m.Steady (·.isKeyword word) where
  same t := Mirror.isKeyword_token t word
  readable _ ht := kind_ne_of_isA (by decide) ht

instance (symbol : String) : m.Steady (·.isOperator symbol) where
  same t := Mirror.isOperator_token t symbol
  readable _ ht := kind_ne_of_isA (by decide) ht

instance (f g : Token → Bool) [hf : m.Steady f] [hg : m.Steady g] :
    m.Steady fun t => f t || g t where
  same t := by rw [hf.same, hg.same]
  readable t ht := by
    rcases (Bool.or_eq_true _ _).mp ht with ht | ht
    · exact hf.readable t ht
    · exact hg.readable t ht

instance (f : Token → Bool) [hf : m.Steady f] : Mirrors m (eat f) (eat f) := by
  refine mirrors_current fun x => mirrorsAt_ite (by rw [hf.same]) (fun hx => ?_) fun _ => ?_
  · have : x.Readable := ⟨hf.readable x hx⟩
    infer_instance
  · infer_instance

instance : Mirrors m (eatKind .leftParen) (eatKind .leftParen) := by
  unfold eatKind; infer_instance
instance : Mirrors m (eatKind .rightBrace) (eatKind .rightBrace) := by
  unfold eatKind; infer_instance
instance (word : String) : Mirrors m (eatKeyword word) (eatKeyword word) := by
  unfold eatKeyword; infer_instance
instance (symbol : String) : Mirrors m (eatOperator symbol) (eatOperator symbol) := by
  unfold eatOperator; infer_instance
instance (wanted : Expectation) (f : Token → Bool) [m.Steady f] :
    Mirrors m (eatOr wanted f) (eatOr wanted f) := by
  unfold eatOr; infer_instance

instance : Mirrors m name name := by
  refine mirrors_current fun x => mirrorsAt_ite ?_ (fun hx => ?_) fun _ => ?_
  · exact Mirror.kind_eq_iff x (by decide) (by decide)
  · have : x.Readable := ⟨by rw [hx]; decide⟩
    rw [m.word_token]
    infer_instance
  · infer_instance

/-- A pass may also part from its image when the repetition is bound to fail then. -/
theorem mirrors_repeated {pass pass' : α → Parser (Pass α)}
    (h : ∀ a s t, m.Shows s t → (pass' a t).1 = (pass a s).1 ∧ m.Shows (pass a s).2 (pass' a t).2 ∨
      m.opens = true ∧ (repeated pass a s).2.errors ≠ []) (a : α) :
    Mirrors m (repeated pass a) (repeated pass' a) := by
  constructor
  intro s t shown
  induction hn : s.rest.length using Nat.strongRecOn generalizing a s t with
  | ind n ih =>
      subst hn
      rcases h a s t shown with ⟨value, shown'⟩ | failed
      · rcases run : pass a s with ⟨b | b, next⟩
        · rcases run' : pass' a t with ⟨b', next'⟩
          rw [run, run'] at value shown'
          cases value
          have length := shown.length
          have length' := shown'.length
          dsimp only at length'
          by_cases lt : next.rest.length < s.rest.length
          · rw [repeated_of_again run lt, repeated_of_again run' (by omega)]
            exact ih _ lt b next next' shown' rfl
          · rw [repeated_of_stuck run lt, repeated_of_stuck run' (by omega)]
            exact .inl ⟨rfl, shown'⟩
        · rcases run' : pass' a t with ⟨b', next'⟩
          rw [run, run'] at value shown'
          cases value
          rw [repeated_of_done run, repeated_of_done run']
          exact .inl ⟨rfl, shown'⟩
      · exact .inr failed

theorem mirrors_repeated_of_pass {pass pass' : α → Parser (Pass α)}
    (h : ∀ a, Mirrors m (pass a) (pass' a)) [∀ a, Evolving (pass a)] (a : α) :
    Mirrors m (repeated pass a) (repeated pass' a) := by
  refine mirrors_repeated (fun a s t shown => ?_) a
  rcases (h a).outcome s t shown with alike | ⟨ho, failed⟩
  · exact .inl alike
  · refine .inr ⟨ho, fun none => failed ?_⟩
    exact (evolves_repeated pass a s).errors_eq_nil none

instance {pass pass' : α → Parser (Pass α)} [h : ∀ a, Mirrors m (pass a) (pass' a)]
    [∀ a, Evolving (pass a)] (a : α) : Mirrors m (repeated pass a) (repeated pass' a) :=
  mirrors_repeated_of_pass h a

instance {body body' : Parser α} [hb : Mirrors m body body'] [evolving : Evolving body] :
    Mirrors m (framed body) (framed body') := by
  constructor
  intro s t shown
  have inner : m.Shows { s with frames := false :: s.frames }
      { t with frames := false :: t.frames } := by
    refine ⟨shown.rest, shown.ended, shown.options, ?_, by simp, shown.openers, shown.budget,
      shown.aborted, shown.errors, shown.clean⟩
    rw [orLast_cons _ _ shown.framed, ← shown.frames]
  obtain ⟨g, hg⟩ := (evolving.evolves { s with frames := false :: s.frames }).frames rfl
  rw [run_framed, run_framed]
  rcases hb.outcome _ _ inner with ⟨value, after⟩ | failed
  · have frames := after.frames
    rw [hg, orLast_cons _ _ shown.framed] at frames
    refine .inl ⟨?_, after.rest, after.ended, after.options, ?_, ?_, after.openers, after.budget,
      after.aborted, after.errors, after.clean⟩
    · dsimp only
      rw [value, frames, hg]
      rfl
    · dsimp only
      rw [frames, hg]
      rfl
    · dsimp only
      rw [hg]
      exact shown.framed
  · exact .inr failed

/-- The parser finds an error at the end of file, unless there was one already. -/
def Fails (p : Parser α) : Prop :=
  ∀ s : ParserState, s.current.kind = .endOfFile → s.aborted = false → s.errors = [] →
    (p s).2.errors ≠ []

theorem Fails.bind (hp : Fails p) [h : ∀ a, Evolving (k a)] : Fails (p >>= k) := by
  intro s hk ha he none
  exact hp s hk ha he (((h _).evolves _).errors_eq_nil none)

theorem Fails.after [hp : Evolving p] (hk : ∀ a, Fails (k a)) [h : ∀ a, Evolving (k a)] :
    Fails (p >>= k) := by
  intro s hf ha he none
  have evolves := hp.evolves s
  have clean : (p s).2.errors = [] := ((h _).evolves _).errors_eq_nil none
  have current : (p s).2.current = s.current := by
    unfold ParserState.current ParserState.peek
    rw [evolves.rest_at_end hf]
  exact hk _ (p s).2 (by rw [current, hf]) ((evolves.clean clean).1.trans ha) clean none

theorem fails_expected (wanted : Expectation) : Fails (expected wanted) :=
  fun _ _ _ he => ParserState.errors_record_ne_nil he _

theorem fails_isAborted {k : Bool → Parser β} (hk : Fails (k false)) : Fails (isAborted >>= k) := by
  intro s hf ha he
  have run : (isAborted >>= k) s = k false s := by rw [← ha]; rfl
  rw [run]
  exact hk s hf ha he

theorem fails_current {k : Token → Parser β} (hk : ∀ t, t.kind = .endOfFile → Fails (k t)) :
    Fails (current >>= k) :=
  fun s hf => hk s.current hf s hf

theorem fails_eat (m : Mirror) {f : Token → Bool} [hm : m.Steady f] {k : Bool → Parser β}
    (hk : Fails (k false)) : Fails (eat f >>= k) := by
  intro s hf ha he
  have no : f s.current = false := by
    rw [Bool.eq_false_iff]
    exact fun h => hm.readable _ h hf
  rw [run_bind, run_eat_not no]
  exact hk s hf ha he

/-- Past the end of file that became the end of a line, the second parser is lost. -/
theorem mirrors_skipLineEnds {k l : Unit → Parser β} (h : Mirrors m (k ()) (l ()))
    (hf : Fails (k ())) : Mirrors m (skipLineEnds >>= k) (skipLineEnds >>= l) := by
  constructor
  intro s t shown
  rcases Mirror.outcome_skipLineEnds shown with shown' | ⟨ho, ended⟩
  · exact h.outcome _ _ shown'
  · obtain ⟨clean, going⟩ := shown.clean ho
    exact .inr ⟨ho, hf s.skipLineEnds ended going clean⟩

/-- The second reader mirrors the first at every place that ends alike for both. -/
class MirrorsPlaces (m : Mirror) (nested nested' : PlaceReader) : Prop where
  place (place : Place) : m.SteadyPlace place →
    Mirrors m (nested place) (nested' (place.moved m.offset))
  respects : Respects nested

theorem steadyStops_of_kind {stops : List Stop}
    (h : ∀ stop ∈ stops, stop.kind ≠ .endOfFile ∧ stop.kind ≠ .endOfLine) :
    m.SteadyStops stops := by
  constructor
  intro t stop hs
  have kind := Mirror.kind_eq_iff (m := m) t (h stop hs).1 (h stop hs).2
  rw [Bool.eq_iff_iff]
  simp [Stop.accepts, kind, m.word_token]

instance : m.SteadyStops [] := steadyStops_of_kind (by decide)
instance : m.SteadyStops [.comma] := steadyStops_of_kind (by decide)
instance : m.SteadyStops [.rightBracket] := steadyStops_of_kind (by decide)
instance : m.SteadyStops [.comma, .rightBracket] := steadyStops_of_kind (by decide)

end Parser

end MapScript
