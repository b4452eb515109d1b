import MapScript.Proofs.Collecting

/-!
# What a parser does to its state

The rules of the parser touch the state through a few steps only, and every run is a sequence of
them. What each step keeps is therefore kept by the whole parser: it never goes back in the
tokens, it never forgets an error, and its options stay what they are.

A rule takes the reader of nested places as an argument. What is said of a rule here needs the
same of that reader; for the reader that ties the rules together it is proved at the end, by the
induction that all later proofs about it share.
-/
namespace MapScript

/-- One step of a parser. -/
inductive Step : ParserState → ParserState → Prop
  | advance (s : ParserState) : Step s s.advance
  | skipLineEnds (s : ParserState) : Step s s.skipLineEnds
  | note (s : ParserState) (word : String) : Step s (s.note (.statement word))
  | expected (s : ParserState) (wanted : Expectation) :
      Step s (s.record (.expected wanted s.current))
  /-- Only a parser that has not given up misses the closer of a block. -/
  | ended (s : ParserState) (closer : Option Stop) : s.aborted = false →
      s.current.kind = .endOfFile →
      Step s (s.record (.unexpectedEnd s.current closer s.openers.head?))
  /-- A token is skipped only where there is one, and only while the parser has not given up. -/
  | reject (s : ParserState) : s.aborted = false → s.current.kind ≠ .endOfFile → Step s s.reject
  | markAsync (s : ParserState) : Step s s.markAsync

/-- Any number of steps. A frame or a block that is opened on the way is closed again. -/
inductive Evolves : ParserState → ParserState → Prop
  | refl (s : ParserState) : Evolves s s
  | single {s t : ParserState} : Step s t → Evolves s t
  | trans {s t u : ParserState} : Evolves s t → Evolves t u → Evolves s u
  | framed {s t : ParserState} : Evolves { s with frames := false :: s.frames } t →
      Evolves s { t with frames := t.frames.tail }
  | blocked {s t : ParserState} (opener : Span) :
      Evolves { s with openers := opener :: s.openers } t →
      Evolves s { t with openers := t.openers.tail }

namespace ParserState

theorem current_of_rest {s : ParserState} {x : Token} {xs : List Token} (h : s.rest = x :: xs) :
    s.current = x := by
  simp [current, peek, h]

theorem rest_advance_suffix (s : ParserState) : s.advance.rest <:+ s.rest := by
  unfold advance
  split
  · exact List.suffix_rfl
  · exact List.tail_suffix s.rest

@[simp] theorem options_advance (s : ParserState) : s.advance.options = s.options := by
  unfold advance
  split <;> rfl

@[simp] theorem errors_advance (s : ParserState) : s.advance.errors = s.errors := by
  unfold advance
  split <;> rfl

@[simp] theorem frames_advance (s : ParserState) : s.advance.frames = s.frames := by
  unfold advance
  split <;> rfl

@[simp] theorem openers_advance (s : ParserState) : s.advance.openers = s.openers := by
  unfold advance
  split <;> rfl

@[simp] theorem aborted_advance (s : ParserState) : s.advance.aborted = s.aborted := by
  unfold advance
  split <;> rfl

@[simp] theorem budget_advance (s : ParserState) : s.advance.budget = s.budget := by
  unfold advance
  split <;> rfl

@[simp] theorem rest_record (error : ParseError) (s : ParserState) :
    (s.record error).rest = s.rest := by
  unfold record
  split <;> rfl

@[simp] theorem options_record (error : ParseError) (s : ParserState) :
    (s.record error).options = s.options := by
  unfold record
  split <;> rfl

@[simp] theorem openers_record (error : ParseError) (s : ParserState) :
    (s.record error).openers = s.openers := by
  unfold record
  split <;> rfl

@[simp] theorem aborted_record (error : ParseError) (s : ParserState) :
    (s.record error).aborted = s.aborted := by
  unfold record
  split <;> rfl

@[simp] theorem budget_record (error : ParseError) (s : ParserState) :
    (s.record error).budget = s.budget := by
  unfold record
  split <;> rfl

@[simp] theorem frames_record (error : ParseError) (s : ParserState) :
    (s.record error).frames = s.frames := by
  unfold record
  split <;> rfl

theorem errors_record_prefix (error : ParseError) (s : ParserState) :
    s.errors <+: (s.record error).errors := by
  unfold record
  split
  · exact List.prefix_append _ _
  · exact List.prefix_rfl

@[simp] theorem rest_reject (s : ParserState) : s.reject.rest = s.advance.rest := by
  unfold reject
  dsimp only
  split <;> simp [abort, note]

@[simp] theorem options_reject (s : ParserState) : s.reject.options = s.options := by
  unfold reject
  dsimp only
  split <;> simp [abort, note]

@[simp] theorem openers_reject (s : ParserState) : s.reject.openers = s.openers := by
  unfold reject
  dsimp only
  split <;> simp [abort, note]

@[simp] theorem frames_reject (s : ParserState) : s.reject.frames = s.frames := by
  unfold reject
  dsimp only
  split <;> simp [abort, note]

theorem errors_reject_prefix (s : ParserState) : s.errors <+: s.reject.errors := by
  have h := errors_record_prefix (.unexpectedToken s.current)
    (s.advance.note (.skipping s.current s.budget))
  have hs : (s.advance.note (.skipping s.current s.budget)).errors = s.errors :=
    errors_advance s
  rw [hs] at h
  unfold reject
  dsimp only
  split
  · exact h.trans (List.prefix_append _ _)
  · exact h

theorem errors_record_ne_nil {s : ParserState} (h : s.errors = []) (error : ParseError) :
    (s.record error).errors ≠ [] := by
  unfold record
  rw [h]
  simp [maxErrors]

theorem errors_reject_ne_nil {s : ParserState} (h : s.errors = []) : s.reject.errors ≠ [] := by
  unfold reject
  dsimp only
  split
  · simp [abort]
  · exact errors_record_ne_nil (s := s.advance.note _) ((errors_advance s).trans h) _

@[simp] theorem rest_markAsync (s : ParserState) : s.markAsync.rest = s.rest := by
  unfold markAsync
  split <;> rfl

@[simp] theorem options_markAsync (s : ParserState) : s.markAsync.options = s.options := by
  unfold markAsync
  split <;> rfl

@[simp] theorem openers_markAsync (s : ParserState) : s.markAsync.openers = s.openers := by
  unfold markAsync
  split <;> rfl

@[simp] theorem aborted_markAsync (s : ParserState) : s.markAsync.aborted = s.aborted := by
  unfold markAsync
  split <;> rfl

@[simp] theorem budget_markAsync (s : ParserState) : s.markAsync.budget = s.budget := by
  unfold markAsync
  split <;> rfl

@[simp] theorem errors_markAsync (s : ParserState) : s.markAsync.errors = s.errors := by
  unfold markAsync
  split <;> rfl

end ParserState

theorem Step.rest_suffix {s t : ParserState} (h : Step s t) : t.rest <:+ s.rest := by
  cases h with
  | advance => exact s.rest_advance_suffix
  | skipLineEnds => exact List.dropWhile_suffix _
  | reject =>
      rw [ParserState.rest_reject]
      exact s.rest_advance_suffix
  | expected | ended | markAsync => simp
  | note => exact List.suffix_rfl

theorem Step.options {s t : ParserState} (h : Step s t) : t.options = s.options := by
  cases h with
  | advance => exact s.options_advance
  | reject => exact s.options_reject
  | expected | ended => exact s.options_record _
  | markAsync => exact s.options_markAsync
  | skipLineEnds | note => rfl

theorem Step.errors_prefix {s t : ParserState} (h : Step s t) : s.errors <+: t.errors := by
  cases h with
  | reject => exact s.errors_reject_prefix
  | expected | ended => exact s.errors_record_prefix _
  | advance | markAsync => simp
  | skipLineEnds | note => exact List.prefix_rfl

theorem Step.openers {s t : ParserState} (h : Step s t) : t.openers = s.openers := by
  cases h with
  | advance => exact s.openers_advance
  | reject => exact s.openers_reject
  | expected | ended => exact s.openers_record _
  | markAsync => exact s.openers_markAsync
  | skipLineEnds | note => rfl

theorem Step.rest_at_end {s t : ParserState} (h : Step s t) (hs : s.current.kind = .endOfFile) :
    t.rest = s.rest := by
  have still : s.advance = s := if_pos hs
  cases h with
  | advance => rw [still]
  | reject => rw [ParserState.rest_reject, still]
  | skipLineEnds =>
      change s.rest.dropWhile (·.kind == .endOfLine) = s.rest
      cases hr : s.rest with
      | nil => rfl
      | cons x rest =>
          have hx : s.current = x := by simp [ParserState.current, ParserState.peek, hr]
          rw [hx] at hs
          rw [List.dropWhile_cons_of_neg (by simp [hs])]
  | expected | ended | markAsync => simp
  | note => rfl

theorem Step.clean {s t : ParserState} (h : Step s t) (ht : t.errors = []) :
    t.aborted = s.aborted ∧ t.budget = s.budget := by
  cases h with
  | advance => exact ⟨s.aborted_advance, s.budget_advance⟩
  | expected | ended => exact ⟨s.aborted_record _, s.budget_record _⟩
  | markAsync => exact ⟨s.aborted_markAsync, s.budget_markAsync⟩
  | skipLineEnds | note => exact ⟨rfl, rfl⟩
  | reject =>
      have none := List.prefix_nil.mp (ht ▸ s.errors_reject_prefix)
      exact absurd ht (ParserState.errors_reject_ne_nil none)

theorem Step.frames {s t : ParserState} (h : Step s t) {f : Bool} {outer : List Bool}
    (hs : s.frames = f :: outer) : ∃ g, t.frames = g :: outer := by
  cases h with
  | advance => exact ⟨f, by rw [s.frames_advance, hs]⟩
  | reject => exact ⟨f, by rw [s.frames_reject, hs]⟩
  | expected | ended => exact ⟨f, by rw [s.frames_record, hs]⟩
  | markAsync =>
      refine ⟨true, ?_⟩
      unfold ParserState.markAsync
      rw [hs]
  | skipLineEnds | note => exact ⟨f, hs⟩

namespace Evolves
variable {s t : ParserState}

theorem rest_suffix (h : Evolves s t) : t.rest <:+ s.rest := by
  induction h with
  | refl => exact List.suffix_rfl
  | single step => exact step.rest_suffix
  | trans _ _ ih ih' => exact ih'.trans ih
  | framed _ ih | blocked _ _ ih => exact ih

theorem options (h : Evolves s t) : t.options = s.options := by
  induction h with
  | refl => rfl
  | single step => exact step.options
  | trans _ _ ih ih' => exact ih'.trans ih
  | framed _ ih | blocked _ _ ih => exact ih

theorem errors_prefix (h : Evolves s t) : s.errors <+: t.errors := by
  induction h with
  | refl => exact List.prefix_rfl
  | single step => exact step.errors_prefix
  | trans _ _ ih ih' => exact ih.trans ih'
  | framed _ ih | blocked _ _ ih => exact ih

/-- The blocks that are open stay open, and no other does. -/
theorem openers (h : Evolves s t) : t.openers = s.openers := by
  induction h with
  | refl => rfl
  | single step => exact step.openers
  | trans _ _ ih ih' => exact ih'.trans ih
  | framed _ ih => exact ih
  | blocked opener _ ih =>
      dsimp only
      rw [ih]
      rfl

/-- Only the innermost frame can change. -/
theorem frames (h : Evolves s t) {f : Bool} {outer : List Bool} (hs : s.frames = f :: outer) :
    ∃ g, t.frames = g :: outer := by
  induction h generalizing f outer with
  | refl => exact ⟨f, hs⟩
  | single step => exact step.frames hs
  | trans _ _ ih ih' =>
      obtain ⟨g, hg⟩ := ih hs
      exact ih' hg
  | framed _ ih =>
      obtain ⟨g, hg⟩ := ih rfl
      exact ⟨f, by rw [hg]; exact hs⟩
  | blocked _ _ ih => exact ih hs

/-- At the end of file nothing more is read. -/
theorem rest_at_end (h : Evolves s t) (hs : s.current.kind = .endOfFile) : t.rest = s.rest := by
  induction h with
  | refl => rfl
  | single step => exact step.rest_at_end hs
  | @trans s t u _ _ ih ih' =>
      have current : t.current = s.current := by
        unfold ParserState.current ParserState.peek
        rw [ih hs]
      exact (ih' (by rw [current, hs])).trans (ih hs)
  | framed _ ih | blocked _ _ ih => exact ih hs

/-- An error is never forgotten, so a run without one had none before. -/
theorem errors_eq_nil (h : Evolves s t) (ht : t.errors = []) : s.errors = [] :=
  List.prefix_nil.mp (ht ▸ h.errors_prefix)

/-- Only with an error does a parser give up or spend something of its budget. -/
theorem clean (h : Evolves s t) (ht : t.errors = []) :
    t.aborted = s.aborted ∧ t.budget = s.budget := by
  induction h with
  | refl => exact ⟨rfl, rfl⟩
  | single step => exact step.clean ht
  | trans _ after ih ih' =>
      have first := ih (after.errors_eq_nil ht)
      have second := ih' ht
      exact ⟨second.1.trans first.1, second.2.trans first.2⟩
  | framed _ ih | blocked _ _ ih => exact ih ht

end Evolves

/-- The parser only takes steps, whatever state it starts from. -/
class Evolving {α : Type} (p : Parser α) : Prop where
  evolves (s : ParserState) : Evolves s (p s).2

namespace Parser
variable {α β : Type}

/-- A test that fails leaves everything as it is. -/
theorem run_eat_not {f : Token → Bool} {s : ParserState} (h : f s.current = false) :
    eat f s = (false, s) := by
  change (if f s.current = true then _ else _ : Parser Bool) s = _
  rw [h]
  rfl

theorem evolving_bind {p : Parser α} {f : α → Parser β} (hp : Evolving p)
    (hf : ∀ a, Evolving (f a)) : Evolving (p >>= f) :=
  ⟨fun s => (hp.evolves s).trans ((hf _).evolves _)⟩

instance (a : α) : Evolving (pure a : Parser α) := ⟨.refl⟩

instance (p : Parser α) (f : α → Parser β) [hp : Evolving p] [hf : ∀ a, Evolving (f a)] :
    Evolving (p >>= f) := evolving_bind hp hf

instance (c : Prop) [Decidable c] (p q : Parser α) [hp : Evolving p] [hq : Evolving q] :
    Evolving (if c then p else q) := by
  split
  · exact hp
  · exact hq

instance : Evolving (get : Parser ParserState) := ⟨.refl⟩
instance : Evolving current := ⟨.refl⟩
instance : Evolving isAborted := ⟨.refl⟩
instance : Evolving advance := ⟨fun s => .single (.advance s)⟩
instance : Evolving skipLineEnds := ⟨fun s => .single (.skipLineEnds s)⟩
instance (wanted : Expectation) : Evolving (expected wanted) :=
  ⟨fun s => .single (.expected s wanted)⟩
instance : Evolving (modify ParserState.markAsync : Parser Unit) :=
  ⟨fun s => .single (.markAsync s)⟩
instance (word : String) : Evolving (modify (ParserState.note (.statement word)) : Parser Unit) :=
  ⟨fun s => .single (.note s word)⟩

instance (p : Token → Bool) : Evolving (eat p) := by unfold eat; infer_instance
instance (kind : TokenKind) : Evolving (eatKind kind) := by unfold eatKind; infer_instance
instance (word : String) : Evolving (eatKeyword word) := by unfold eatKeyword; infer_instance
instance (symbol : String) : Evolving (eatOperator symbol) := by unfold eatOperator; infer_instance
instance (wanted : Expectation) (p : Token → Bool) : Evolving (eatOr wanted p) := by
  unfold eatOr; infer_instance
instance : Evolving name := by unfold name; infer_instance

instance (body : Parser α) [h : Evolving body] : Evolving (framed body) :=
  ⟨fun s => .framed (h.evolves { s with frames := false :: s.frames })⟩

theorem evolving_repeated {pass : α → Parser (Pass α)} (h : ∀ a, Evolving (pass a)) (a : α) :
    Evolving (repeated pass a) := by
  constructor
  intro s
  fun_induction repeated pass a s with
  | case1 a s b next hp =>
      have step := (h a).evolves s
      rwa [hp] at step
  | case2 a s b next hp lt ih =>
      have step := (h a).evolves s
      rw [hp] at step
      exact step.trans ih
  | case3 a s b next hp lt =>
      have step := (h a).evolves s
      rwa [hp] at step

instance (pass : α → Parser (Pass α)) [h : ∀ a, Evolving (pass a)] (a : α) :
    Evolving (repeated pass a) := evolving_repeated h a

/-- The repetition goes on from where its first pass ends. -/
theorem evolves_repeated (pass : α → Parser (Pass α)) [∀ a, Evolving (pass a)] (a : α)
    (s : ParserState) : Evolves (pass a s).2 (repeated pass a s).2 := by
  rcases run : pass a s with ⟨b | b, next⟩
  · by_cases lt : next.rest.length < s.rest.length
    · rw [repeated_of_again run lt]
      exact Evolving.evolves next
    · rw [repeated_of_stuck run lt]
      exact .refl next
  · rw [repeated_of_done run]
    exact .refl next

instance (u : Unit) : Evolving (headerPass u) := by
  constructor
  intro s
  unfold headerPass
  rw [run_get_bind]
  split
  · exact .refl s
  · rename_i going
    simp only [Bool.or_eq_true, decide_eq_true_eq, not_or] at going
    exact .single (.reject s (by simpa using going.1) fun he => going.2 (by simp [he]))

instance : Evolving skipToLineEnd := by unfold skipToLineEnd; infer_instance

instance : Evolving typedName := by unfold typedName; dsimp only; infer_instance

instance (list : List Param) : Evolving (paramPass list) := by
  unfold paramPass; dsimp only; infer_instance

instance : Evolving params := by unfold params; infer_instance
instance : Evolving paramList := by unfold paramList; infer_instance
instance : Evolving returnType := by unfold returnType; infer_instance

/-- Where the parser finds nothing, it has not moved. -/
def Spares (p : Parser (Option α)) : Prop :=
  ∀ s : ParserState, (p s).1 = none → (p s).2.rest = s.rest ∧ (p s).2.aborted = s.aborted

theorem spares_found {p : Parser α} {f : α → β} : Spares (p >>= fun a => pure (some (f a))) := by
  intro s hs
  cases hs

theorem spares_tail {p : Parser α} {q : α → Parser β} :
    Spares (p >>= fun a => q a >>= fun b => pure (some b)) := by
  intro s hs
  cases hs

theorem spares_none : Spares (pure none : Parser (Option α)) := fun _ _ => ⟨rfl, rfl⟩

theorem spares_current {k : Token → Parser (Option α)} (h : ∀ t, Spares (k t)) :
    Spares (current >>= k) := fun s => h s.current s

theorem spares_note {event : ParseEvent} {k : Unit → Parser (Option α)} (h : Spares (k ())) :
    Spares ((modify (ParserState.note event) : Parser Unit) >>= k) := fun s => h (s.note event)

/-- What is not found is skipped. -/
theorem evolves_orReject {p : Parser (Option α)} [hp : Evolving p] (h : Spares p)
    {k : Option α → Parser β} {b : β} (hr : k none = do reject; return b)
    (hk : ∀ a, Evolving (k (some a))) {s : ParserState} (ha : s.aborted = false)
    (he : s.current.kind ≠ .endOfFile) : Evolves s ((p >>= k) s).2 := by
  have found := hp.evolves s
  rw [run_bind]
  cases hf : (p s).1 with
  | some a => exact found.trans ((hk a).evolves _)
  | none =>
      obtain ⟨rest, aborted⟩ := h s hf
      have current : (p s).2.current = s.current := by
        unfold ParserState.current ParserState.peek
        rw [rest]
      rw [hr]
      exact found.trans (.single (.reject _ (aborted.trans ha) (by rwa [current])))

theorem errors_kept {k : α → Parser β} [h : ∀ a, Evolving (k a)] (a : α) (s : ParserState)
    (none : (k a s).2.errors = []) : s.errors = [] :=
  ((h a).evolves s).errors_eq_nil none

theorem errors_kept_orReject {k : Option α → Parser β} {b : β} (hr : k none = do reject; return b)
    (hk : ∀ a, Evolving (k (some a))) (found : Option α) (s : ParserState)
    (none : (k found s).2.errors = []) : s.errors = [] := by
  cases found with
  | some a => exact ((hk a).evolves s).errors_eq_nil none
  | none =>
      rw [hr] at none
      exact List.prefix_nil.mp (none ▸ s.errors_reject_prefix)

-- The blocks of the longer rules are too deep for the usual limit on instances.
set_option synthInstance.maxSize 1000

section
variable (nested : PlaceReader) [∀ place, Evolving (nested place)]

instance (stops : List Stop) : Evolving (expression nested stops) := by
  unfold expression; infer_instance

instance (opener : Span) (scope : Scope) (closers : List Stop) :
    Evolving (block nested opener scope closers) := by
  constructor
  intro s
  have inside : Evolves _ (nested (.statements scope closers) _).2 :=
    Evolving.evolves { s with openers := opener :: s.openers }
  rw [run_block]
  generalize nested (.statements scope closers) { s with openers := opener :: s.openers } = r
    at inside
  obtain ⟨⟨body, _ | stop⟩, next⟩ := r
  · exact .blocked opener inside
  · exact (Evolves.blocked opener inside).trans (.single (.advance _))

instance (opener : Span) (scope : Scope) (closers : List Stop) :
    Evolving (blockBody nested opener scope closers) := by unfold blockBody; infer_instance

instance : Evolving (link? nested) := by unfold link?; infer_instance

instance (stops : List Stop) (closer : Token → Bool) (missing : Expectation) (args : List Node) :
    Evolving (argumentPass nested stops closer missing args) := by
  unfold argumentPass; dsimp only; infer_instance

instance (callee : List Node) : Evolving (call nested callee) := by unfold call; infer_instance

instance (parts : List Node) : Evolving (postfixPass nested parts) := by
  unfold postfixPass
  refine evolving_bind inferInstance fun _ => ?_
  split
  · infer_instance
  refine evolving_bind inferInstance fun _ => ?_
  split
  · infer_instance
  refine evolving_bind inferInstance fun link => ?_
  cases link <;> infer_instance

instance (base : Node) : Evolving (operandTail nested base) := by
  unfold operandTail; infer_instance

instance (chain : List Node) : Evolving (chainPass nested chain) := by
  unfold chainPass
  refine evolving_bind inferInstance fun _ => ?_
  split
  · infer_instance
  refine evolving_bind inferInstance fun link => ?_
  cases link <;> infer_instance

instance : Evolving (reference nested) := by unfold reference; dsimp only; infer_instance
instance : Evolving (group nested) := by unfold group; infer_instance
instance : Evolving (array nested) := by unfold array; infer_instance

instance (fields : List (String × List Node)) : Evolving (fieldPass nested fields) := by
  unfold fieldPass; infer_instance

instance : Evolving (object nested) := by unfold object; infer_instance
instance : Evolving (await nested) := by unfold await; infer_instance
instance : Evolving (doBlock nested) := by unfold doBlock; dsimp only; infer_instance
instance (node : Node) : Evolving (single node) := by unfold single; infer_instance

instance (t : Token) : Evolving (wordPart? nested t) := by
  unfold wordPart?
  split <;> infer_instance

instance (t : Token) : Evolving (operatorPart? nested t) := by
  unfold operatorPart?; infer_instance

instance : Evolving (expressionPart? nested) := by
  unfold expressionPart?
  refine evolving_bind inferInstance fun t => ?_
  split <;> infer_instance

omit [∀ place, Evolving (nested place)] in
theorem expressionPart?_spares : Spares (expressionPart? nested) := by
  unfold expressionPart?
  refine spares_current fun t => ?_
  split
  · exact spares_found
  · exact spares_tail
  · exact spares_tail
  · unfold operatorPart?
    split
    · exact spares_none
    split
    · exact spares_tail
    · exact spares_found
  · exact spares_tail
  · exact spares_tail
  · unfold wordPart?
    split
    · exact spares_found
    · exact spares_found
    · exact spares_found
    · exact spares_found
    · exact spares_found
    · exact spares_none
  · exact spares_none

instance (stops : List Stop) (reading : Reading) :
    Evolving (expressionPass nested stops reading) := by
  constructor
  intro s
  unfold expressionPass
  rw [run_get_bind]
  split
  · exact .refl s
  split
  · exact .refl s
  rename_i going more
  refine evolves_orReject (expressionPart?_spares nested) rfl (fun _ => inferInstance)
    (by simpa using going) fun hk => more ?_
  simp [Token.endsExpression, hk]

instance : Evolving (function nested) := by unfold function; dsimp only; infer_instance
instance : Evolving (initializer nested) := by unfold initializer; infer_instance
instance : Evolving (variableDecl nested) := by unfold variableDecl; infer_instance
instance : Evolving (constant nested) := by unfold constant; dsimp only; infer_instance

instance (scope : Scope) : Evolving (expressionStatement nested scope) := by
  unfold expressionStatement; infer_instance

instance : Evolving (assignment nested) := by
  unfold assignment
  refine evolving_bind inferInstance fun _ => evolving_bind inferInstance fun parts => ?_
  split <;> infer_instance

instance (closer : Option (Stop × Span)) : Evolving (otherwise nested closer) := by
  unfold otherwise
  split <;> infer_instance

instance (opener : Span) : Evolving (readCondition nested opener) := by
  unfold readCondition; infer_instance

instance : Evolving (forStmt nested) := by unfold forStmt; dsimp only; infer_instance
instance : Evolving (struct nested) := by unfold struct; dsimp only; infer_instance

instance (operands : List Node) : Evolving (operandPass nested operands) := by
  unfold operandPass; dsimp only; infer_instance

instance : Evolving (instruction nested) := by unfold instruction; dsimp only; infer_instance

instance (scope : Scope) (closers : List Stop) : Evolving (openBlock nested scope closers) := by
  unfold openBlock; dsimp only; infer_instance

instance : Evolving (afterKeyword nested) := by unfold afterKeyword; infer_instance

instance (scope : Scope) (word : StatementWord) : Evolving (wordStatement nested scope word) := by
  cases word <;> unfold wordStatement <;> dsimp only <;> infer_instance

instance (scope : Scope) : Evolving (nameStatement nested scope) := by
  unfold nameStatement; infer_instance

instance (scope : Scope) : Evolving (statement? nested scope) := by
  unfold statement?
  refine evolving_bind inferInstance fun t => ?_
  split
  · refine evolving_bind inferInstance fun _ => ?_
    split <;> infer_instance
  all_goals infer_instance

omit [∀ place, Evolving (nested place)] in
theorem statement?_spares (scope : Scope) : Spares (statement? nested scope) := by
  unfold statement?
  refine spares_current fun t => ?_
  split
  · refine spares_note ?_
    split
    · exact spares_found
    · exact spares_none
  · exact spares_found
  · exact spares_found
  · exact spares_found
  · exact spares_found
  · exact spares_found
  · exact spares_found
  · exact spares_found
  · exact spares_none

instance (scope : Scope) (stops : List Stop) (reading : Reading) :
    Evolving (statementPass nested scope stops reading) := by
  constructor
  intro s
  unfold statementPass
  rw [run_get_bind]
  split
  · exact .refl _
  rename_i going
  cases stops.find? (·.accepts s.current) with
  | some stop => exact .refl _
  | none =>
      dsimp only
      cases hk : s.current.kind with
      | endOfLine => exact .single (.advance s)
      -- The error at the end of file is about the token and the block that are current here.
      | endOfFile => exact .single (.ended s stops.head? (by simpa using going) hk)
      | _ =>
          exact evolves_orReject (statement?_spares nested scope) rfl (fun _ => inferInstance)
            (by simpa using going) (by rw [hk]; decide)

instance (place : Place) : Evolving (place.plain nested) := by
  cases place with
  | expression stops => exact inferInstanceAs (Evolving (repeated _ _))
  | statements scope stops => exact inferInstanceAs (Evolving (repeated _ _))
  | condition opener => exact inferInstanceAs (Evolving (readCondition nested opener))

end

end Parser

/-- What holds of a place that is left empty, and of the rules of a place when it holds of all
places inside, holds of every place. -/
theorem Place.read_induction {P : Place → ParserState → Reading × ParserState → Prop}
    (empty : ∀ place s, P place s (([], none), s))
    (step : ∀ nested : PlaceReader, (∀ inner, Evolving (nested inner)) →
      (∀ inner t, P inner t (nested inner t)) → ∀ place s, P place s (place.plain nested s))
    (place : Place) (s : ParserState) : P place s (place.read s) := by
  suffices h : Evolves s (place.read s).2 ∧ P place s (place.read s) from h.2
  induction hn : place.weight s using Nat.strongRecOn generalizing place s with
  | ind n ih =>
      subst hn
      rw [place.read_eq_readBelow]
      generalize hr : readBelow (place.weight s) = nested
      have evolving : ∀ inner, Evolving (nested inner) := by
        intro inner
        constructor
        intro t
        rw [← hr, readBelow]
        split
        · exact (ih _ ‹_› inner t rfl).1
        · exact .refl _
      refine ⟨Evolving.evolves s, step nested evolving (fun inner t => ?_) place s⟩
      rw [← hr, readBelow]
      split
      · exact (ih _ ‹_› inner t rfl).2
      · exact empty inner t

instance (place : Place) : Evolving place.read :=
  ⟨place.read_induction (P := fun _ s r => Evolves s r.2) (fun _ s => .refl s)
    fun _ _ _ _ s => Evolving.evolves s⟩

/-- Nothing is added to tokens that end in an end of file. -/
theorem terminated_concat {last : Token} (tokens : List Token) (h : last.kind = .endOfFile) :
    terminated (tokens ++ [last]) = tokens ++ [last] := by
  unfold terminated
  rw [List.getLast?_concat]
  exact if_pos h

end MapScript
