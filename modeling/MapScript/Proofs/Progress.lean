import MapScript.Proofs.Consuming

/-!
# Reading comes to an end

Reading has two guards, which make it a function on all states: a repetition ends with a pass that
has consumed nothing, and a place that does not weigh less than the one around it is left empty.
Neither guard is ever needed. A pass that asks for another one has consumed a token, so that every
repetition is a finite sequence of passes; and the rules of a place ask for lighter places only.

The cursor goes forward, and never past an end of file. What is skipped on the way is always a
token, and a parser that has not given up stops at the first end of file.
-/
namespace MapScript

/-- From `s` to `t` the cursor has moved over some tokens, and no end of file is among them. -/
def Forward (s t : ParserState) : Prop :=
  ∃ taken, s.rest = taken ++ t.rest ∧ ∀ x ∈ taken, x.kind ≠ .endOfFile

theorem Forward.of_rest_eq {s t : ParserState} (h : t.rest = s.rest) : Forward s t :=
  ⟨[], by rw [h]; rfl, List.forall_mem_nil _⟩

theorem Forward.trans {s t u : ParserState} (h : Forward s t) (h' : Forward t u) :
    Forward s u := by
  obtain ⟨taken, hs, ht⟩ := h
  obtain ⟨more, hs', ht'⟩ := h'
  refine ⟨taken ++ more, ?_, List.forall_mem_append.mpr ⟨ht, ht'⟩⟩
  rw [hs, hs', List.append_assoc]

/-- An end of file that lies ahead is never passed. -/
theorem Forward.rest_ne_nil {s t : ParserState} (h : Forward s t) {x : Token} (hx : x ∈ s.rest)
    (hk : x.kind = .endOfFile) : t.rest ≠ [] := by
  obtain ⟨taken, hs, ht⟩ := h
  intro none
  rw [hs, none, List.append_nil] at hx
  exact ht x hx hk

namespace ParserState

/-- No end of file was ever skipped. -/
def SkipsTokens (s : ParserState) : Prop :=
  ∀ found budget, ParseEvent.skipping found budget ∈ s.trail → found.kind ≠ .endOfFile

theorem rest_advance {s : ParserState} (h : s.current.kind ≠ .endOfFile) :
    s.rest = s.current :: s.advance.rest := by
  unfold advance
  rw [if_neg h]
  cases hr : s.rest with
  | nil => simp [current, peek, hr, Token.noMore] at h
  | cons t rest => simp [current, peek, hr]

theorem forward_advance (s : ParserState) : Forward s s.advance := by
  by_cases h : s.current.kind = .endOfFile
  · have still : s.advance = s := if_pos h
    exact .of_rest_eq (by rw [still])
  · exact ⟨[s.current], s.rest_advance h, by simpa using h⟩

theorem forward_skipLineEnds (s : ParserState) : Forward s s.skipLineEnds := by
  refine ⟨s.rest.takeWhile (·.kind == .endOfLine), List.takeWhile_append_dropWhile.symm, ?_⟩
  intro x hx hk
  have line := List.all_eq_true.mp List.all_takeWhile x hx
  rw [hk] at line
  cases line

@[simp] theorem trail_advance (s : ParserState) : s.advance.trail = s.trail := by
  unfold advance
  split <;> rfl

@[simp] theorem trail_record (error : ParseError) (s : ParserState) :
    (s.record error).trail = s.trail := by
  unfold record
  split <;> rfl

@[simp] theorem trail_markAsync (s : ParserState) : s.markAsync.trail = s.trail := by
  unfold markAsync
  split <;> rfl

theorem mem_trail_reject {s : ParserState} {found : Token} {budget : Nat}
    (h : .skipping found budget ∈ s.reject.trail) :
    found = s.current ∨ .skipping found budget ∈ s.trail := by
  unfold reject at h
  dsimp only at h
  split at h
  · simp only [abort, note, trail_record, trail_advance, List.mem_cons, ParseEvent.skipping.injEq,
      reduceCtorEq, false_or] at h
    exact h.imp_left And.left
  · simp only [note, trail_record, trail_advance, List.mem_cons, ParseEvent.skipping.injEq] at h
    exact h.imp_left And.left

/-- The parser is at the end of file, and none of the stops is there. -/
def AtLoss (stops : List Stop) (s : ParserState) : Prop :=
  s.aborted = false ∧ s.current.kind = .endOfFile ∧ stops.find? (·.accepts s.current) = none

end ParserState

theorem Step.forward {s t : ParserState} (h : Step s t) : Forward s t := by
  cases h with
  | advance => exact s.forward_advance
  | skipLineEnds => exact s.forward_skipLineEnds
  | reject => exact s.forward_advance.trans (.of_rest_eq s.rest_reject)
  | expected | ended => exact .of_rest_eq (s.rest_record _)
  | markAsync => exact .of_rest_eq s.rest_markAsync
  | note => exact .of_rest_eq rfl

theorem Step.skipsTokens {s t : ParserState} (h : Step s t) (hs : s.SkipsTokens) :
    t.SkipsTokens := by
  intro found budget hm
  cases h with
  | reject _ hk =>
      rcases ParserState.mem_trail_reject hm with rfl | hm
      · exact hk
      · exact hs found budget hm
  | note =>
      rcases List.mem_cons.mp hm with hm | hm
      · cases hm
      · exact hs found budget hm
  | advance | expected | ended | markAsync => exact hs found budget (by simpa using hm)
  | skipLineEnds => exact hs found budget hm

namespace Evolves
variable {s t : ParserState}

theorem forward (h : Evolves s t) : Forward s t := by
  induction h with
  | refl => exact .of_rest_eq rfl
  | single step => exact step.forward
  | trans _ _ ih ih' => exact ih.trans ih'
  | framed _ ih | blocked _ _ ih => exact ih

theorem skipsTokens (h : Evolves s t) (hs : s.SkipsTokens) : t.SkipsTokens := by
  induction h with
  | refl => exact hs
  | single step => exact step.skipsTokens hs
  | trans _ _ ih ih' => exact ih' (ih hs)
  | framed _ ih | blocked _ _ ih => exact ih hs

end Evolves

namespace Parser
variable {α β : Type}

/-- Where the parser gives one of these results, it has consumed a token. -/
def Ahead (results : α → Prop) (p : Parser α) : Prop :=
  ∀ s, results (p s).1 → (p s).2.rest.length < s.rest.length

section
variable {results : β → Prop} {found : α → Prop}

theorem ahead_pure {b : β} (h : ¬ results b) : Ahead results (pure b) :=
  fun _ hb => absurd hb h

theorem ahead_after {p : Parser α} {k : α → Parser β} [hp : Evolving p]
    (h : ∀ a, Ahead results (k a)) : Ahead results (p >>= k) :=
  fun s hb => Nat.lt_of_lt_of_le (h _ _ hb) (hp.evolves s).length_rest

theorem ahead_ite {c : Prop} [Decidable c] {p q : Parser β} (hp : Ahead results p)
    (hq : Ahead results q) : Ahead results (if c then p else q) := by
  split
  · exact hp
  · exact hq

/-- What comes after a result with progress has it too. -/
theorem ahead_bind {p : Parser α} {k : α → Parser β} (hp : Ahead found p)
    (hk : ∀ a, Evolving (k a)) (h : ∀ a, ¬ found a → Ahead results (k a)) [Evolving p] :
    Ahead results (p >>= k) := by
  intro s hb
  by_cases hf : found (p s).1
  · exact Nat.lt_of_le_of_lt ((hk _).evolves _).length_rest (hp s hf)
  · exact Nat.lt_of_lt_of_le (h _ hf _ hb) (Evolving.evolves s).length_rest

theorem ahead_current {k : Token → Parser β} (h : ∀ s : ParserState, results (k s.current s).1 →
    (k s.current s).2.rest.length < s.rest.length) : Ahead results (current >>= k) := h

theorem kind_ne_of_isA {t : Token} {kind : TokenKind} {word : String} (hk : kind ≠ .endOfFile)
    (h : t.isA kind word = true) : t.kind ≠ .endOfFile := by
  simp only [Token.isA, Bool.and_eq_true, beq_iff_eq] at h
  rwa [h.1]

/-- A token that was eaten is consumed, whatever comes then. -/
theorem ahead_eat {f : Token → Bool} (hf : ∀ t, f t = true → t.kind ≠ .endOfFile) :
    Ahead (· = true) (eat f) := by
  refine ahead_current fun s hb => ?_
  by_cases hc : f s.current = true
  · rw [if_pos hc]
    exact s.length_rest_advance (hf _ hc)
  · rw [if_neg hc] at hb
    cases hb

theorem ahead_eatOperator (symbol : String) : Ahead (· = true) (eatOperator symbol) :=
  ahead_eat fun _ => kind_ne_of_isA (by decide)

end

/-- The pass asks for another one. -/
def Pass.GoesOn : Pass α → Prop
  | .again _ => True
  | .done _ => False

/-- The passes of a repetition, one after the other, up to the one that is done. -/
inductive Runs (pass : α → Parser (Pass α)) : α → ParserState → α × ParserState → Prop
  | done {a b : α} {s last : ParserState} (h : pass a s = (.done b, last)) : Runs pass a s (b, last)
  | again {a b : α} {s next : ParserState} {r : α × ParserState} (h : pass a s = (.again b, next))
      (rest : Runs pass b next r) : Runs pass a s r

/-- When every pass that asks for another one consumes a token, a repetition ends by itself. -/
theorem runs_repeated {pass : α → Parser (Pass α)} (h : ∀ a, Ahead Pass.GoesOn (pass a)) (a : α)
    (s : ParserState) : Runs pass a s (repeated pass a s) := by
  fun_induction repeated pass a s with
  | case1 a s b last run => exact .done run
  | case2 a s b next run lt ih => exact .again run ih
  | case3 a s b next run stuck =>
      have lt := h a s (by rw [run]; trivial)
      rw [run] at lt
      exact absurd lt stuck

theorem headerPass_ahead (u : Unit) : Ahead Pass.GoesOn (headerPass u) := by
  intro s hb
  unfold headerPass at hb ⊢
  rw [run_get_bind] at hb ⊢
  by_cases hc : (s.aborted || s.current.kind ∈ [.endOfLine, .endOfFile, .comment]) = true
  · rw [if_pos hc] at hb
    cases hb
  · rw [if_neg hc]
    change s.reject.rest.length < s.rest.length
    rw [s.rest_reject]
    refine s.length_rest_advance fun hk => hc ?_
    simp [hk]

theorem paramPass_ahead (params : List Param) : Ahead Pass.GoesOn (paramPass params) := by
  refine ahead_after fun _ => ahead_ite (ahead_pure id) (ahead_after fun _ => ?_)
  refine ahead_ite (ahead_after fun _ => ?_) (ahead_pure id)
  refine ahead_bind (ahead_eatOperator ",") (fun _ => inferInstance) fun comma hc => ?_
  rw [if_neg hc]
  exact ahead_pure id

section
variable (nested : PlaceReader) {scope : Scope} {stops : List Stop} {reading : Reading}
  {s : ParserState}

theorem statementPass_of_aborted (h : s.aborted = true) :
    statementPass nested scope stops reading s = (pure (.done reading) : Parser _) s := by
  unfold statementPass
  rw [run_get_bind, if_pos h]

theorem statementPass_of_stop (going : s.aborted = false) {stop : Stop}
    (found : stops.find? (·.accepts s.current) = some stop) :
    statementPass nested scope stops reading s =
      (pure (.done (reading.1, some stop)) : Parser _) s := by
  unfold statementPass
  rw [run_get_bind, if_neg (by simp [going]), found]

theorem statementPass_of_atLoss (h : s.AtLoss stops) :
    statementPass nested scope stops reading s =
      (.done reading, s.record (.unexpectedEnd s.current stops.head? s.openers.head?)) := by
  unfold statementPass
  rw [run_get_bind, if_neg (by simp [h.1]), h.2.2, h.2.1]
  rfl

theorem statementPass_of_lineEnd (going : s.aborted = false)
    (found : stops.find? (·.accepts s.current) = none) (kind : s.current.kind = .endOfLine) :
    statementPass nested scope stops reading s =
      (advance >>= fun _ => pure (.again reading) : Parser _) s := by
  unfold statementPass
  rw [run_get_bind, if_neg (by simp [going]), found, kind]

theorem statementPass_of_statement (going : s.aborted = false)
    (found : stops.find? (·.accepts s.current) = none) (kind : s.current.kind ≠ .endOfLine)
    (more : s.current.kind ≠ .endOfFile) :
    statementPass nested scope stops reading s = (do
      match ← statement? nested scope with
      | some nodes => return .again (reading.1 ++ nodes, none)
      | none =>
        reject
        return .again reading : Parser (Pass Reading)) s := by
  unfold statementPass
  rw [run_get_bind, if_neg (by simp [going]), found]
  cases same : s.current.kind with
  | endOfLine => exact absurd same kind
  | endOfFile => exact absurd same more
  | _ => rfl

end

section
variable (nested : PlaceReader) [∀ place, Evolving (nested place)]

theorem ahead_link? : Ahead (Option.isSome · = true) (link? nested) := by
  have none : ¬ (Option.none : Option Node).isSome = true := by decide
  refine ahead_bind (ahead_eat fun t ht => ?_) (fun _ => inferInstance) fun dot hd => ?_
  · rcases (Bool.or_eq_true _ _).mp ht with ht | ht <;> exact kind_ne_of_isA (by decide) ht
  rw [if_neg hd]
  refine ahead_bind (ahead_eatOperator "[") (fun _ => inferInstance) fun bracket hb => ?_
  rw [if_neg hb]
  exact ahead_pure none

theorem chainPass_ahead (chain : List Node) : Ahead Pass.GoesOn (chainPass nested chain) := by
  refine ahead_after fun _ => ahead_ite (ahead_pure id) ?_
  refine ahead_bind (ahead_link? nested) (fun link => ?_) fun link hl => ?_
  · cases link <;> infer_instance
  · cases link with
    | none => exact ahead_pure id
    | some link => exact absurd rfl hl

theorem postfixPass_ahead (parts : List Node) : Ahead Pass.GoesOn (postfixPass nested parts) := by
  refine ahead_after fun _ => ahead_ite (ahead_pure id) (ahead_current fun s => ?_)
  by_cases hk : s.current.kind = .leftParen
  · rw [if_pos hk]
    intro hb
    split at hb
    · cases hb
    · rename_i callable
      rw [if_neg callable]
      change (call nested parts s).2.rest.length < s.rest.length
      exact length_rest_advance_bind (by rw [hk]; decide)
  · rw [if_neg hk]
    refine ahead_bind (ahead_link? nested) (fun link => ?_) (fun link hl => ?_) s
    · cases link <;> infer_instance
    · cases link with
      | none => exact ahead_pure id
      | some link => exact absurd rfl hl

theorem argumentPass_ahead (stops : List Stop) (closer : Token → Bool) (missing : Expectation)
    (args : List Node) :
    Ahead Pass.GoesOn (argumentPass nested stops closer missing args) := by
  refine ahead_after fun _ => ahead_after fun _ => ahead_ite (ahead_pure id) ?_
  refine ahead_after fun _ => ahead_ite (ahead_pure id) ?_
  refine ahead_after fun _ => ahead_after fun _ => ?_
  refine ahead_bind (ahead_eatOperator ",") (fun _ => inferInstance) fun comma hc => ?_
  rw [if_neg hc]
  exact ahead_after fun _ => ahead_pure id

theorem operandPass_ahead (operands : List Node) :
    Ahead Pass.GoesOn (operandPass nested operands) := by
  refine ahead_after fun _ => ahead_ite (ahead_pure id) (ahead_after fun _ => ?_)
  refine ahead_ite (ahead_pure id) ?_
  refine ahead_bind (ahead_eatOperator ",") (fun _ => inferInstance) fun comma hc => ?_
  rw [if_neg hc]
  exact ahead_pure id

theorem fieldPass_ahead (fields : List (String × List Node)) :
    Ahead Pass.GoesOn (fieldPass nested fields) := by
  refine ahead_after fun _ => ahead_after fun _ => ahead_ite (ahead_pure id) ?_
  refine ahead_after fun _ => ahead_ite (ahead_pure id) (ahead_current fun s => ?_)
  by_cases hk : s.current.kind.isFieldName = true
  · rw [if_pos hk]
    intro _
    refine length_rest_advance_bind fun he => ?_
    rw [he] at hk
    cases hk
  · rw [if_neg hk]
    exact ahead_after (fun _ => ahead_pure id) s

theorem expressionPass_ahead (stops : List Stop) (reading : Reading) :
    Ahead Pass.GoesOn (expressionPass nested stops reading) := by
  intro s hb
  unfold expressionPass at hb ⊢
  rw [run_get_bind] at hb ⊢
  split at hb
  · cases hb
  split at hb
  · cases hb
  rename_i going more
  rw [if_neg going, if_neg more]
  have readable : s.current.Readable := by
    refine readable_of_endsExpression ?_
    simp only [Bool.or_eq_true, not_or, Bool.not_eq_true] at more
    exact more.2
  exact (consumes_orReject (expressionPart?_spares nested) (expressionPart?_consumes nested) rfl
    fun _ => inferInstance).shorter s rfl (by simpa using going)

theorem statementPass_ahead [Thorough nested] (scope : Scope) (stops : List Stop)
    (reading : Reading) : Ahead Pass.GoesOn (statementPass nested scope stops reading) := by
  intro s hb
  unfold statementPass at hb ⊢
  rw [run_get_bind] at hb ⊢
  split at hb
  · cases hb
  rename_i going
  rw [if_neg going]
  cases hs : stops.find? (·.accepts s.current) with
  | some stop =>
      rw [hs] at hb
      cases hb
  | none =>
      rw [hs] at hb
      dsimp only at hb ⊢
      cases hk : s.current.kind with
      | endOfFile =>
          rw [hk] at hb
          cases hb
      | endOfLine => exact s.length_rest_advance (by rw [hk]; decide)
      | _ =>
          have readable : s.current.Readable := ⟨by rw [hk]; decide⟩
          exact (consumes_orReject (statement?_spares _ scope) (statement?_consumes nested scope)
            rfl fun _ => inferInstance).shorter s rfl (by simpa using going)

end

/-- At a token, what the parser finds it has consumed, and where it finds nothing it has not
moved. -/
def FindsOrStays (p : Parser (Option α)) : Prop :=
  ∀ s : ParserState, s.aborted = false → s.current.kind ≠ .endOfFile →
    ((p s).1.isSome → (p s).2.rest.length < s.rest.length) ∧
    ((p s).1 = none → (p s).2.rest = s.rest)

theorem expressionPart?_findsOrStays : FindsOrStays (expressionPart? Place.read) := by
  intro s ha hk
  have readable : s.current.Readable := ⟨hk⟩
  exact ⟨expressionPart?_consumes _ s rfl ha, fun none => (expressionPart?_spares _ s none).1⟩

theorem statement?_findsOrStays (scope : Scope) : FindsOrStays (statement? Place.read scope) := by
  intro s ha hk
  have readable : s.current.Readable := ⟨hk⟩
  exact ⟨statement?_consumes _ scope s rfl ha, fun none => (statement?_spares _ scope s none).1⟩

theorem nodes?_findsOrStays : FindsOrStays (nodes? Place.read) := by
  intro s ha hk
  unfold nodes?
  rw [run_get_bind]
  split
  · exact expressionPart?_findsOrStays s ha hk
  · exact statement?_findsOrStays s.scope s ha hk

theorem nodePass_ahead (stops : List Stop) (acrossLines : Bool) (found : Option Stop) :
    Ahead Pass.GoesOn (nodePass Place.read stops acrossLines found) := by
  intro s hb
  unfold nodePass at hb ⊢
  rw [run_get_bind] at hb ⊢
  split at hb
  · cases hb
  rename_i going
  rw [if_neg going]
  cases hs : stops.find? (·.accepts s.current) with
  | some stop =>
      rw [hs] at hb
      cases hb
  | none =>
      rw [hs] at hb
      dsimp only at hb ⊢
      split at hb
      · cases hb
      rename_i more
      rw [if_neg more]
      split at hb
      · rename_i line
        rw [if_pos line]
        refine s.length_rest_advance fun hk => ?_
        simp [hk] at line
      rename_i line
      rw [if_neg line]
      split at hb
      · cases hb
      rename_i hk
      rw [if_neg hk, run_bind]
      obtain ⟨finds, stays⟩ := nodes?_findsOrStays s (by simpa using going) hk
      cases hf : (nodes? Place.read s).1 with
      | some nodes => exact finds (by rw [hf]; rfl)
      | none =>
          have current : (nodes? Place.read s).2.current = s.current := by
            unfold ParserState.current ParserState.peek
            rw [stays hf]
          change (nodes? Place.read s).2.reject.rest.length < s.rest.length
          rw [ParserState.rest_reject, ← stays hf]
          exact ParserState.length_rest_advance (current ▸ hk)

/-- The passes of the repetitions. -/
inductive Repetition : {α : Type} → (α → Parser (Pass α)) → Prop
  | header : Repetition headerPass
  | params : Repetition paramPass
  | chain : Repetition (chainPass Place.read)
  | operandTail : Repetition (postfixPass Place.read)
  | arguments (stops : List Stop) (closer : Token → Bool) (missing : Expectation) :
      Repetition (argumentPass Place.read stops closer missing)
  | fields : Repetition (fieldPass Place.read)
  | operands : Repetition (operandPass Place.read)
  | nodes (stops : List Stop) (acrossLines : Bool) :
      Repetition (nodePass Place.read stops acrossLines)

theorem Repetition.ahead {pass : α → Parser (Pass α)} (h : Repetition pass) (a : α) :
    Ahead Pass.GoesOn (pass a) := by
  cases h with
  | header => exact headerPass_ahead a
  | params => exact paramPass_ahead a
  | chain => exact chainPass_ahead _ a
  | operandTail => exact postfixPass_ahead _ a
  | arguments => exact argumentPass_ahead _ _ _ _ a
  | fields => exact fieldPass_ahead _ a
  | operands => exact operandPass_ahead _ a
  | nodes => exact nodePass_ahead _ _ a

/-- The rules of the parser, with the places inside read as they are. -/
inductive Rule : {α : Type} → Parser α → Prop
  | advance : Rule advance
  | skipLineEnds : Rule skipLineEnds
  | skipToLineEnd : Rule skipToLineEnd
  | eat (p : Token → Bool) : Rule (eat p)
  | eatOr (wanted : Expectation) (p : Token → Bool) : Rule (eatOr wanted p)
  | name : Rule name
  | typedName : Rule typedName
  | params : Rule params
  | paramList : Rule paramList
  | returnType : Rule returnType
  | place (place : Place) : Rule place.read
  | block (opener : Span) (scope : Scope) (closers : List Stop) :
      Rule (block Place.read opener scope closers)
  | link : Rule (link? Place.read)
  | call (callee : List Node) : Rule (call Place.read callee)
  | operandTail (base : Node) : Rule (operandTail Place.read base)
  | reference : Rule (reference Place.read)
  | group : Rule (group Place.read)
  | array : Rule (array Place.read)
  | object : Rule (object Place.read)
  | await : Rule (await Place.read)
  | doBlock : Rule (doBlock Place.read)
  | wordPart (t : Token) : Rule (wordPart? Place.read t)
  | operatorPart (t : Token) : Rule (operatorPart? Place.read t)
  | expressionPart : Rule (expressionPart? Place.read)
  | function : Rule (function Place.read)
  | initializer : Rule (initializer Place.read)
  | variableDecl : Rule (variableDecl Place.read)
  | constant : Rule (constant Place.read)
  | expressionStatement (scope : Scope) : Rule (expressionStatement Place.read scope)
  | assignment : Rule (assignment Place.read)
  | otherwise (closer : Option (Stop × Span)) : Rule (otherwise Place.read closer)
  | forStmt : Rule (forStmt Place.read)
  | struct : Rule (struct Place.read)
  | instruction : Rule (instruction Place.read)
  | openBlock (scope : Scope) (closers : List Stop) : Rule (openBlock Place.read scope closers)
  | afterKeyword : Rule (afterKeyword Place.read)
  | wordStatement (scope : Scope) (word : StatementWord) :
      Rule (wordStatement Place.read scope word)
  | nameStatement (scope : Scope) : Rule (nameStatement Place.read scope)
  | statement (scope : Scope) : Rule (statement? Place.read scope)

theorem Rule.evolving {p : Parser α} (h : Rule p) : Evolving p := by
  cases h <;> infer_instance

theorem Runs.last {pass : α → Parser (Pass α)} {a : α} {s : ParserState} {r : α × ParserState}
    (h : Runs pass a s r) : ∃ b t, pass b t = (.done r.1, r.2) := by
  induction h with
  | done h => exact ⟨_, _, h⟩
  | again _ _ ih => exact ih

theorem kind_of_statementPass_done {scope : Scope} {reading last : Reading} {s t : ParserState}
    (h : statementPass Place.read scope [.endOfFile] reading s = (.done last, t))
    (ha : t.aborted = false) : t.current.kind = .endOfFile := by
  unfold statementPass at h
  rw [run_get_bind] at h
  split at h
  · rename_i aborted
    obtain ⟨-, rfl⟩ := Prod.mk.inj h
    rw [ha] at aborted
    cases aborted
  cases hs : [Stop.endOfFile].find? (·.accepts s.current) with
  | some stop =>
      rw [hs] at h
      obtain ⟨-, rfl⟩ := Prod.mk.inj h
      have accepted := List.find?_some hs
      obtain rfl := List.mem_singleton.mp (List.mem_of_find?_eq_some hs)
      simpa [Stop.accepts, Stop.endOfFile] using accepted
  | none =>
      rw [hs] at h
      dsimp only at h
      cases hk : s.current.kind with
      | endOfFile => simp [Stop.accepts, Stop.endOfFile, hk] at hs
      | endOfLine =>
          rw [hk] at h
          cases (Prod.mk.inj h).1
      | _ =>
          rw [hk] at h
          dsimp only at h
          rw [run_bind] at h
          cases hf : (statement? Place.read scope s).1 with
          | none =>
              rw [hf] at h
              cases (Prod.mk.inj h).1
          | some nodes =>
              rw [hf] at h
              cases (Prod.mk.inj h).1

end Parser

/-- Of tokens with one end of file, at their end, only that is left where it comes next. -/
theorem eq_singleton_of_suffix {ts more : List Token} {x last : Token}
    (hs : x :: more <:+ ts ++ [last]) (hts : ∀ t ∈ ts, t.kind ≠ .endOfFile)
    (hx : x.kind = .endOfFile) : x :: more = [last] := by
  induction ts with
  | nil =>
      rcases List.suffix_cons_iff.mp hs with same | short
      · exact same
      · cases List.suffix_nil.mp short
  | cons t ts ih =>
      rcases List.suffix_cons_iff.mp hs with same | short
      · have hxt : x = t := (List.cons.inj same).1
        exact absurd hx (hts x (by simp [hxt]))
      · exact ih short fun u hu => hts u (by simp [hu])

theorem rest_at_end {s : ParserState} {ts : List Token} {last : Token}
    (hs : s.rest <:+ ts ++ [last]) (hts : ∀ t ∈ ts, t.kind ≠ .endOfFile) (hr : s.rest ≠ [])
    (hk : s.current.kind = .endOfFile) : s.rest = [last] := by
  cases hc : s.rest with
  | nil => exact absurd hc hr
  | cons x more =>
      have hx : s.current = x := by simp [ParserState.current, ParserState.peek, hc]
      exact eq_singleton_of_suffix (hc ▸ hs) hts (hx ▸ hk)

theorem exists_mem_terminated (tokens : List Token) :
    ∃ x ∈ terminated tokens, x.kind = .endOfFile := by
  unfold terminated
  split
  · exact ⟨.noMore, List.mem_singleton_self _, rfl⟩
  · rename_i last hl
    split
    · rename_i hk
      exact ⟨last, List.mem_of_getLast? hl, hk⟩
    · exact ⟨_, List.mem_concat_self, rfl⟩

namespace ParserState

/-- The statements of a program end at an end of file, unless the parser gives up. -/
theorem kind_of_read {s t : ParserState} {reading : Reading}
    (run : (Place.statements .block [.endOfFile]).read s = (reading, t))
    (going : t.aborted = false) : t.current.kind = .endOfFile := by
  have passes := Parser.runs_repeated
    (Parser.statementPass_ahead Place.read .block [.endOfFile]) ([], none) s
  obtain ⟨reading, u, last⟩ := passes.last
  rw [Place.read_eq] at run
  change Parser.repeated _ _ s = _ at run
  rw [run] at last
  exact Parser.kind_of_statementPass_done last going

/-- A parser that has not given up has read up to an end of file. -/
theorem kind_readUntil {s : ParserState} (rest : s.AtRest)
    (ha : (s.readUntil none).2.aborted = false) :
    (s.readUntil none).2.current.kind = .endOfFile := by
  rcases run : (Place.statements .block [.endOfFile]).read s with ⟨⟨nodes, stop⟩, t⟩
  have read : s.readUntil none = (nodes, if stop.isSome then t.advance else t) :=
    readUntil_of_read rest run
  rw [read] at ha ⊢
  cases stop with
  | none => exact kind_of_read run ha
  | some stop =>
      have hk := kind_of_read run (by simpa using ha)
      have still : t.advance = t := if_pos hk
      change t.advance.current.kind = _
      rw [still, hk]

theorem rest_readProgram (s : ParserState) :
    s.readProgram.2.rest = (s.readUntil none).2.rest := by
  unfold readProgram finish
  dsimp only
  split <;> rfl

theorem skipsTokens_readProgram {s : ParserState} (h : s.SkipsTokens) :
    s.readProgram.2.SkipsTokens := by
  have kept := (s.readUntil_evolves none).skipsTokens h
  unfold readProgram finish
  dsimp only
  split
  · exact kept
  · intro found budget hm
    rcases List.mem_cons.mp hm with hm | hm
    · cases hm
    · exact kept found budget hm

end ParserState

/-- The parser always comes to an end, and by itself: the places inside a place weigh less, so that
their guard is not needed, and the passes of each repetition end without theirs. It goes forward
over tokens; a statement or a part of an expression that was found has consumed a token; what is
skipped is one token and never an end of file; and unless the parser gives up it stops at the first
end of file. -/
theorem parser_progress :
    (∀ (place : Place) (s : ParserState) (nested : PlaceReader),
      (∀ inner t, inner.weight t < place.weight s → nested inner t = inner.read t) →
      place.rules nested s = place.read s) ∧
    (∀ (α : Type) (pass : α → Parser (Parser.Pass α)), Parser.Repetition pass → ∀ a s,
      Parser.Runs pass a s (Parser.repeated pass a s) ∧
      ((pass a s).1.GoesOn → (pass a s).2.rest.length < s.rest.length)) ∧
    (∀ (α : Type) (p : Parser α), Parser.Rule p → ∀ s, Forward s (p s).2) ∧
    Parser.FindsOrStays (Parser.expressionPart? Place.read) ∧
    (∀ scope, Parser.FindsOrStays (Parser.statement? Place.read scope)) ∧
    (∀ s : ParserState, s.current.kind ≠ .endOfFile → s.rest = s.current :: s.reject.rest) ∧
    ∀ (o : ParseOptions) (tokens : List Token),
      let first := (ParserState.ofOptions o).reset tokens
      let last := first.readProgram.2
      Forward first last ∧ last.SkipsTokens ∧
      ((parse o tokens).aborted = false → ∃ before stop after,
        terminated tokens = before ++ stop :: after ∧ (∀ x ∈ before, x.kind ≠ .endOfFile) ∧
        stop.kind = .endOfFile ∧ last.rest = stop :: after) := by
  refine ⟨?_, ?_, ?_, Parser.expressionPart?_findsOrStays, Parser.statement?_findsOrStays, ?_, ?_⟩
  · intro place s nested same
    rw [place.read_eq, ← Place.rules_eq_plain Place.read]
    refine (Parser.rules_eq Place.read_respects place s fun inner t lt => ?_).symm
    exact (same inner t lt).symm
  · intro α pass loop a s
    exact ⟨Parser.runs_repeated loop.ahead a s, loop.ahead a s⟩
  · intro α p rule s
    exact (rule.evolving.evolves s).forward
  · intro s hk
    rw [s.rest_reject]
    exact s.rest_advance hk
  · intro o tokens first last
    have rest : last.rest = (first.readUntil none).2.rest := first.rest_readProgram
    have forward : Forward first last :=
      (first.readUntil_evolves none).forward.trans (.of_rest_eq rest)
    have fresh : first.SkipsTokens := by
      intro found budget hm
      cases hm
    refine ⟨forward, ParserState.skipsTokens_readProgram fresh, fun ha => ?_⟩
    obtain ⟨x, hx, hk⟩ := exists_mem_terminated tokens
    have more : last.rest ≠ [] := forward.rest_ne_nil hx hk
    obtain ⟨before, split, tokensOnly⟩ := forward
    have ended : (first.readUntil none).2.current.kind = .endOfFile :=
      ParserState.kind_readUntil (ParserState.atRest_start o _) ha
    change terminated tokens = before ++ last.rest at split
    cases hr : last.rest with
    | nil => exact absurd hr more
    | cons stop after =>
        refine ⟨before, stop, after, hr ▸ split, tokensOnly, ?_, rfl⟩
        rw [rest] at hr
        simpa [ParserState.current, ParserState.peek, hr] using ended

end MapScript
