import MapScript.Proofs.Budget
import MapScript.Proofs.LeftOpen.Blocks

/-!
# What a run leaves open

While a parser reads tokens, the blocks that are open behind them can be followed on the tokens
alone. `LeftOpen` relates two states of a run: the tokens between them leave keywords on the stack,
and those are the blocks that the run has reported. Once there is a report the cursor is at the end
of file and stays there, so that a block that is reported later was opened earlier.

A rule may begin inside a block whose keyword was read before. That keyword is pending: the rule
takes it off the stack, or it is left there and reported as well.

The rules are put together as in a program logic. Most of them read only tokens that are no keywords
of blocks, and of these nothing has to be said.
-/
namespace MapScript

/-- What an error says about a block without a closer: the token where the closer was missed, and
where the block was opened. -/
def ParseError.endReport? : ParseError → Option (Token × Option Span)
  | unexpectedEnd found _ opener => some (found, opener)
  | _ => none

/-- What errors say about blocks without a closer, in the order of the errors. -/
def endReports (errors : List ParseError) : List (Token × Option Span) :=
  errors.filterMap ParseError.endReport?

/-- The token that an error says was skipped. -/
def ParseError.unexpected? : ParseError → Option Token
  | unexpectedToken found => some found
  | _ => none

/-- The tokens that were skipped, in the order of the errors. -/
def unexpectedTokens (errors : List ParseError) : List Token :=
  errors.filterMap ParseError.unexpected?

@[simp] theorem endReports_append (errors more : List ParseError) :
    endReports (errors ++ more) = endReports errors ++ endReports more :=
  List.filterMap_append

@[simp] theorem unexpectedTokens_append (errors more : List ParseError) :
    unexpectedTokens (errors ++ more) = unexpectedTokens errors ++ unexpectedTokens more :=
  List.filterMap_append

/-- A parser that has not given up had not given up before. -/
theorem Evolves.going {s t : ParserState} (h : Evolves s t) (ht : t.aborted = false) :
    s.aborted = false := by
  rw [← Bool.not_eq_true] at ht ⊢
  exact fun hs => ht (h.aborted hs)

namespace ParserState

theorem current_eq_of_rest {s t : ParserState} (h : t.rest = s.rest) : t.current = s.current := by
  unfold current peek
  rw [h]

/-- These can be the errors in the end: the parser has not given up, and there was room for every
error so far. -/
structure EndsWith (errors : List ParseError) (s : ParserState) : Prop where
  going : s.aborted = false
  kept : s.errors <+: errors
  few : errors.length < maxErrors

variable {errors : List ParseError} {s : ParserState}

theorem EndsWith.errors_record {e : ParseError} (h : (s.record e).EndsWith errors) :
    (s.record e).errors = s.errors ++ [e] := by
  have length := h.kept.length_le
  have few := h.few
  unfold record at length ⊢
  split at length
  · rw [if_pos ‹_›]
  · omega

/-- A token that was skipped is reported, and the parser goes on behind it. -/
theorem EndsWith.reject (h : s.reject.EndsWith errors) :
    s.reject.rest = s.advance.rest ∧
      s.reject.errors = s.errors ++ [.unexpectedToken s.current] := by
  have going := h.going
  have kept := h.kept
  have few := h.few
  rw [s.reject_eq] at going kept ⊢
  split at going
  · cases going
  · rename_i left
    rw [if_neg left] at kept ⊢
    have recorded : ((s.advance.note (.skipping s.current s.budget)).record
        (.unexpectedToken s.current)).errors = s.advance.errors ++ [.unexpectedToken s.current] :=
      EndsWith.errors_record ⟨going, kept, few⟩
    refine ⟨rest_record _ _, ?_⟩
    rw [← s.errors_advance, ← recorded]
    rfl

end ParserState

theorem Evolves.endsWith {errors : List ParseError} {s t : ParserState} (h : Evolves s t)
    (ht : t.EndsWith errors) : s.EndsWith errors :=
  ⟨h.going ht.going, h.errors_prefix.trans ht.kept, ht.few⟩

/-- Between the states the tokens leave these keywords on the stack, and the run has reported their
blocks. The pending ones were on the stack before. -/
structure LeftOpen (errors : List ParseError) (pending : List Token) (s t : ParserState)
    (left : List Token) : Prop where
  reads : ∃ skipped, unexpectedTokens t.errors = unexpectedTokens s.errors ++ skipped ∧
    ∀ stack more, Blocks.Reads errors ⟨pending ++ stack, s.rest, skipped ++ more⟩
      ⟨left ++ stack, t.rest, more⟩
  atEnd : left ≠ [] → t.current.kind = .endOfFile
  reported : endReports t.errors =
    endReports s.errors ++ left.map fun keyword => (t.current, some keyword.span)

namespace LeftOpen
variable {errors : List ParseError} {pending pending' : List Token} {s t u : ParserState}
variable {left more : List Token}

/-- No token is read, and nothing is said about blocks or skipped tokens. -/
theorem nil (rest : t.rest = s.rest)
    (unexpected : unexpectedTokens t.errors = unexpectedTokens s.errors)
    (same : endReports t.errors = endReports s.errors) : LeftOpen errors [] s t [] where
  reads := by
    refine ⟨[], by rw [unexpected, List.append_nil], fun stack more => ?_⟩
    rw [rest]
    exact .refl
  atEnd none := absurd rfl none
  reported := by rw [same, List.map_nil, List.append_nil]

/-- Only the tokens and the errors matter. -/
theorem of_eq {s' t' : ParserState} (h : LeftOpen errors pending s t left)
    (rest : s'.rest = s.rest) (found : s'.errors = s.errors) (rest' : t'.rest = t.rest)
    (found' : t'.errors = t.errors) : LeftOpen errors pending s' t' left where
  reads := by
    rw [rest, found, rest', found']
    exact h.reads
  atEnd := by
    rw [ParserState.current_eq_of_rest rest']
    exact h.atEnd
  reported := by
    rw [found, found', ParserState.current_eq_of_rest rest']
    exact h.reported

/-- The token at the cursor is read first, and it does something to the stack. -/
theorem step (pending pending' : List Token)
    (act : ∀ stack, s.current.onBlocks? (pending ++ stack) = some (pending' ++ stack))
    (ahead : s.current.kind ≠ .endOfFile) (h : LeftOpen errors pending' s.advance t left) :
    LeftOpen errors pending s t left where
  reads := by
    obtain ⟨skipped, unexpected, reads⟩ := h.reads
    rw [s.errors_advance] at unexpected
    refine ⟨skipped, unexpected, fun stack more => ?_⟩
    rw [s.rest_advance ahead]
    exact .head (.word (act stack)) (reads stack more)
  atEnd := h.atEnd
  reported := by
    rw [← s.errors_advance]
    exact h.reported

/-- The name of a property is read with the dot before it. -/
theorem property (dot : s.current.IsMemberSign)
    (field : s.advance.current.kind.isFieldName)
    (h : LeftOpen errors [] s.advance.advance t left) : LeftOpen errors [] s t left where
  reads := by
    have first : s.current.kind ≠ .endOfFile := by
      rcases dot with dot | dot <;> exact Parser.kind_ne_of_isA (by decide) dot
    have second : s.advance.current.kind ≠ .endOfFile := by
      intro kind
      rw [kind] at field
      exact absurd field (by decide)
    obtain ⟨skipped, unexpected, reads⟩ := h.reads
    rw [ParserState.errors_advance, ParserState.errors_advance] at unexpected
    refine ⟨skipped, unexpected, fun stack more => ?_⟩
    rw [s.rest_advance first, s.advance.rest_advance second]
    exact .head (.property dot field) (reads stack more)
  atEnd := h.atEnd
  reported := by
    rw [h.reported, ParserState.errors_advance, ParserState.errors_advance]

/-- The key of a field is read where a colon follows or is missed. -/
theorem key (field : s.current.kind.isFieldName)
    (before : BeforeValue errors s.advance.rest) (h : LeftOpen errors [] s.advance t left) :
    LeftOpen errors [] s t left where
  reads := by
    have ahead : s.current.kind ≠ .endOfFile := by
      intro kind
      rw [kind] at field
      exact absurd field (by decide)
    obtain ⟨skipped, unexpected, reads⟩ := h.reads
    rw [s.errors_advance] at unexpected
    refine ⟨skipped, unexpected, fun stack more => ?_⟩
    rw [s.rest_advance ahead]
    exact .head (.key field before) (reads stack more)
  atEnd := h.atEnd
  reported := by rw [h.reported, s.errors_advance]

/-- The token at the cursor is skipped. -/
theorem reject (h : s.reject.EndsWith errors) (ahead : s.current.kind ≠ .endOfFile) :
    LeftOpen errors [] s s.reject [] where
  reads := by
    obtain ⟨rest, added⟩ := h.reject
    refine ⟨[s.current], by rw [added, unexpectedTokens_append]; rfl, fun stack more => ?_⟩
    rw [rest, s.rest_advance ahead]
    exact .single .skip
  atEnd none := absurd rfl none
  reported := by
    rw [h.reject.2, endReports_append]
    rfl

/-- At the end of file the pending block is reported. -/
theorem ended {keyword : Token} {closer : Option Stop} (kind : s.current.kind = .endOfFile)
    (h : (s.record (.unexpectedEnd s.current closer (some keyword.span))).EndsWith errors) :
    LeftOpen errors [keyword] s
      (s.record (.unexpectedEnd s.current closer (some keyword.span))) [keyword] where
  reads := by
    refine ⟨[], by rw [h.errors_record, unexpectedTokens_append]; rfl, fun stack more => ?_⟩
    rw [s.rest_record]
    exact .refl
  atEnd _ := by
    rw [ParserState.current_eq_of_rest (s.rest_record _)]
    exact kind
  reported := by
    rw [h.errors_record, endReports_append, ParserState.current_eq_of_rest (s.rest_record _)]
    rfl

/-- One run after the other. Where the first has left something open, the cursor is at the end of
file, and the second can only report what is pending there. -/
theorem trans (h : LeftOpen errors pending s t left) (h' : LeftOpen errors pending' t u more)
    (evolves : Evolves t u) : LeftOpen errors (pending ++ pending') s u (left ++ more) := by
  obtain ⟨skipped, unexpected, reads⟩ := h.reads
  obtain ⟨skipped', unexpected', reads'⟩ := h'.reads
  have still (some : left ≠ []) : u.rest = t.rest := evolves.rest_at_end (h.atEnd some)
  constructor
  case reads =>
    refine ⟨skipped ++ skipped', by rw [unexpected', unexpected, List.append_assoc], ?_⟩
    intro stack rest
    have first := reads (pending' ++ stack) (skipped' ++ rest)
    rw [List.append_assoc, List.append_assoc, List.append_assoc]
    by_cases none : left = []
    · subst none
      exact first.trans (reads' stack rest)
    · have same := Blocks.Reads.eq_of_ahead (reads' [] []) (still none)
      obtain ⟨rfl, -, rfl⟩ : more = pending' ∧ u.rest = t.rest ∧ skipped' = [] := by
        simpa using same
      rw [still none]
      exact first
  case atEnd =>
    intro some
    by_cases none : more = []
    · have first : left ≠ [] := by simpa [none] using some
      rw [ParserState.current_eq_of_rest (still first)]
      exact h.atEnd first
    · exact h'.atEnd none
  case reported =>
    have current : (left.map fun keyword => (t.current, some keyword.span)) =
        left.map fun keyword => (u.current, some keyword.span) := by
      by_cases none : left = []
      · rw [none, List.map_nil, List.map_nil]
      · rw [ParserState.current_eq_of_rest (still none)]
    rw [h'.reported, h.reported, current, List.map_append, List.append_assoc]

end LeftOpen

/-- Whatever the errors are in the end, a run of the parser from this state leaves open what it
reports. -/
structure Leaves {α : Type} (errors : List ParseError) (pending : List Token) (p : Parser α)
    (s : ParserState) : Prop where
  evolves : Evolves s (p s).2
  leaves : (p s).2.EndsWith errors → ∃ left, LeftOpen errors pending s (p s).2 left

class Leaving {α : Type} (pending : List Token) (p : Parser α) : Prop where
  leaves (errors : List ParseError) (s : ParserState) : Leaves errors pending p s

/-- The same, where the token at the cursor is no keyword of a block. -/
class LeavingAt {α : Type} (p : Parser α) : Prop where
  leaves (errors : List ParseError) (s : ParserState) : s.current.isBlockWord = false →
    Leaves errors [] p s

/-- The test takes no keyword of a block. -/
class Plain (f : Token → Bool) : Prop where
  plain (t : Token) : f t = true → t.isBlockWord = false

namespace Token
variable {t : Token}

theorem isBlockWord_of_isKeyword {word : String} (plain : wordFence? (lowerWord word) = none)
    (h : t.isKeyword word) : t.isBlockWord = false :=
  isBlockWord_of_fence? ((fence?_of_isKeyword h).2.trans plain)

theorem isBlockWord_of_isOperator {symbol : String} (h : t.isOperator symbol) :
    t.isBlockWord = false := by
  rw [isOperator, isA, Bool.and_eq_true, beq_iff_eq] at h
  exact isBlockWord_of_kind (by rw [h.1]; decide)

end Token

instance (symbol : String) : Plain (·.isOperator symbol) :=
  ⟨fun _ => Token.isBlockWord_of_isOperator⟩

instance (symbol other : String) : Plain fun t => t.isOperator symbol || t.isOperator other := by
  constructor
  intro t h
  rcases Bool.or_eq_true_iff.mp h with h | h <;> exact Token.isBlockWord_of_isOperator h

theorem plain_kind {kind : TokenKind} (h : kind ≠ .keyword) : Plain (·.kind == kind) :=
  ⟨fun _ ht => Token.isBlockWord_of_kind (beq_iff_eq.mp ht ▸ h)⟩

theorem plain_keyword {word : String} (h : wordFence? (lowerWord word) = none) :
    Plain (·.isKeyword word) :=
  ⟨fun _ => Token.isBlockWord_of_isKeyword h⟩

instance : Plain (·.kind == .leftParen) := plain_kind (by decide)
instance : Plain (·.kind == .rightParen) := plain_kind (by decide)
instance : Plain (·.kind == .rightBrace) := plain_kind (by decide)
instance : Plain (·.isKeyword "array") := plain_keyword (by decide)
instance : Plain (·.isKeyword "nothing") := plain_keyword (by decide)
instance : Plain (·.isKeyword "takes") := plain_keyword (by decide)
instance : Plain (·.isKeyword "returns") := plain_keyword (by decide)
instance : Plain (·.isKeyword "then") := plain_keyword (by decide)
instance : Plain (·.isKeyword "to") := plain_keyword (by decide)

namespace Parser
variable {α β : Type} {errors : List ParseError} {pending : List Token} {s : ParserState}

-- The rules are too deep for the usual limit on instances.
set_option synthInstance.maxSize 2000

/-- Nothing that matters changes. -/
theorem leaving_of_same {p : Parser α} [h : Evolving p] (rest : ∀ s, (p s).2.rest = s.rest)
    (errors : ∀ s, (p s).2.errors = s.errors) : Leaving [] p := by
  refine ⟨fun _ s => ⟨h.evolves s, fun _ => ⟨[], .nil (rest s) ?_ ?_⟩⟩⟩ <;> rw [errors s]

instance (a : α) : Leaving [] (pure a : Parser α) := leaving_of_same (fun _ => rfl) fun _ => rfl
instance : Leaving [] current := leaving_of_same (fun _ => rfl) fun _ => rfl
instance : Leaving [] isAborted := leaving_of_same (fun _ => rfl) fun _ => rfl

instance (word : String) : Leaving [] (modify (ParserState.note (.statement word)) : Parser Unit) :=
  leaving_of_same (fun _ => rfl) fun _ => rfl

instance : Leaving [] (modify ParserState.markAsync : Parser Unit) :=
  leaving_of_same (fun s => s.rest_markAsync) fun s => s.errors_markAsync

instance (wanted : Expectation) : Leaving [] (expected wanted) := by
  refine ⟨fun errors s => ⟨Evolving.evolves s, fun ends => ⟨[], .nil (s.rest_record _) ?_ ?_⟩⟩⟩
  · change unexpectedTokens (s.record _).errors = _
    rw [ParserState.EndsWith.errors_record ends, unexpectedTokens_append]
    exact List.append_nil _
  · change endReports (s.record _).errors = _
    rw [ParserState.EndsWith.errors_record ends, endReports_append]
    exact List.append_nil _

instance : Leaving [] skipLineEnds := by
  refine ⟨fun errors s => ⟨Evolving.evolves s, fun _ => ⟨[], ⟨[], ?_, ?_⟩, ?_, ?_⟩⟩⟩
  · exact (List.append_nil _).symm
  · intro stack more
    change Blocks.Reads errors ⟨stack, s.rest, more⟩ ⟨stack, s.rest.dropWhile _, more⟩
    induction s.rest with
    | nil => exact .refl
    | cons t rest ih =>
        by_cases lineEnd : t.kind = .endOfLine
        · rw [List.dropWhile_cons_of_pos (by simpa using lineEnd)]
          have plain := Token.isBlockWord_of_kind (t := t) (by rw [lineEnd]; decide)
          exact .head (.word (Token.onBlocks?_of_not_isBlockWord plain stack)) ih
        · rw [List.dropWhile_cons_of_neg (by simpa using lineEnd)]
  · exact fun none => absurd rfl none
  · exact (List.append_nil _).symm

/-- A parser that reads one token leaves what is left behind that token. -/
theorem leaves_step {k : Unit → Parser α} (pending pending' : List Token)
    (act : ∀ stack, s.current.onBlocks? (pending ++ stack) = some (pending' ++ stack))
    (ahead : s.current.kind ≠ .endOfFile) (h : Leaves errors pending' (k ()) s.advance) :
    Leaves errors pending (advance >>= k) s := by
  refine ⟨.trans (.single (.advance s)) h.evolves, fun ends => ?_⟩
  obtain ⟨left, leaves⟩ := h.leaves ends
  exact ⟨left, leaves.step pending pending' act ahead⟩

instance : LeavingAt advance := by
  refine ⟨fun errors s plain => ⟨Evolving.evolves s, fun _ => ⟨[], ?_⟩⟩⟩
  by_cases ended : s.current.kind = .endOfFile
  · have stays : s.advance = s := if_pos ended
    change LeftOpen errors [] s s.advance []
    rw [stays]
    exact .nil rfl rfl rfl
  · exact .step [] [] (Token.onBlocks?_of_not_isBlockWord plain) ended (.nil rfl rfl rfl)

theorem leaves_append {p : Parser α} {f : α → Parser β} {pending' : List Token}
    (hp : Leaves errors pending p s) (hf : Leaves errors pending' (f (p s).1) (p s).2) :
    Leaves errors (pending ++ pending') (p >>= f) s := by
  refine ⟨hp.evolves.trans hf.evolves, fun ends => ?_⟩
  obtain ⟨left, first⟩ := hp.leaves (hf.evolves.endsWith ends)
  obtain ⟨more, second⟩ := hf.leaves ends
  exact ⟨left ++ more, first.trans second hf.evolves⟩

/-- A block that is pending may be left open by the second of two parsers. -/
theorem leaves_bind {p : Parser α} {f : α → Parser β} (hp : Leaves errors [] p s)
    (hf : Leaves errors pending (f (p s).1) (p s).2) : Leaves errors pending (p >>= f) s :=
  leaves_append hp hf

theorem leaving_bind {p : Parser α} {f : α → Parser β} [hp : Leaving [] p]
    (hf : ∀ a, Leaving pending (f a)) : Leaving pending (p >>= f) :=
  ⟨fun errors s => leaves_bind (hp.leaves errors s) ((hf _).leaves errors _)⟩

instance (p : Parser α) (f : α → Parser β) [Leaving [] p] [hf : ∀ a, Leaving pending (f a)] :
    Leaving pending (p >>= f) := leaving_bind hf

/-- It may also be left open by the first. -/
theorem leaves_bind_closed {p : Parser α} {f : α → Parser β} (hp : Leaves errors pending p s)
    (hf : Leaves errors [] (f (p s).1) (p s).2) : Leaves errors pending (p >>= f) s := by
  have both := leaves_append hp hf
  rwa [List.append_nil] at both

theorem leaves_before {p : Parser α} {f : α → Parser β} (hp : Leaves errors pending p s)
    [hf : ∀ a, Leaving [] (f a)] : Leaves errors pending (p >>= f) s :=
  leaves_bind_closed hp ((hf (p s).1).leaves errors (p s).2)

instance (p : Parser α) (f : α → Parser β) [hp : Leaving pending p] [∀ a, Leaving [] (f a)] :
    Leaving pending (p >>= f) :=
  ⟨fun errors s => leaves_before (hp.leaves errors s)⟩

instance (c : Prop) [Decidable c] (p q : Parser α) [hp : Leaving pending p]
    [hq : Leaving pending q] : Leaving pending (if c then p else q) := by
  split
  · exact hp
  · exact hq

instance (p : Parser α) [hp : Leaving [] p] : LeavingAt p :=
  ⟨fun errors s _ => hp.leaves errors s⟩

instance (p : Parser α) (f : α → Parser β) [hp : LeavingAt p] [∀ a, Leaving [] (f a)] :
    LeavingAt (p >>= f) :=
  ⟨fun errors s plain => leaves_before (hp.leaves errors s plain)⟩

instance (k : Token → Parser α) [h : ∀ t, LeavingAt (k t)] : LeavingAt (current >>= k) :=
  ⟨fun errors s plain =>
    ⟨((h s.current).leaves errors s plain).evolves, ((h s.current).leaves errors s plain).leaves⟩⟩

instance (k : ParserState → Parser α) [h : ∀ t, LeavingAt (k t)] : LeavingAt (get >>= k) :=
  ⟨fun errors s plain =>
    ⟨((h s).leaves errors s plain).evolves, ((h s).leaves errors s plain).leaves⟩⟩

instance (c : Prop) [Decidable c] (p q : Parser α) [hp : LeavingAt p] [hq : LeavingAt q] :
    LeavingAt (if c then p else q) := by
  split
  · exact hp
  · exact hq

/-- A rule may look at the token at the cursor. -/
theorem leaving_current {k : Token → Parser α}
    (h : ∀ errors (s : ParserState), Leaves errors pending (k s.current) s) :
    Leaving pending (current >>= k) :=
  ⟨fun errors s => ⟨(h errors s).evolves, (h errors s).leaves⟩⟩

theorem leaving_get {k : ParserState → Parser α}
    (h : ∀ errors (s : ParserState), Leaves errors pending (k s) s) :
    Leaving pending (get >>= k) :=
  ⟨fun errors s => ⟨(h errors s).evolves, (h errors s).leaves⟩⟩

instance (f : Token → Bool) [h : Plain f] : Leaving [] (eat f) := by
  apply leaving_current
  intro errors s
  split
  · rename_i taken
    exact LeavingAt.leaves errors s (h.plain _ taken)
  · exact Leaving.leaves errors s

instance (kind : TokenKind) [Plain (·.kind == kind)] : Leaving [] (eatKind kind) := by
  unfold eatKind; infer_instance
instance (word : String) [Plain (·.isKeyword word)] : Leaving [] (eatKeyword word) := by
  unfold eatKeyword; infer_instance
instance (symbol : String) : Leaving [] (eatOperator symbol) := by
  unfold eatOperator; infer_instance
instance (wanted : Expectation) (f : Token → Bool) [Plain f] : Leaving [] (eatOr wanted f) := by
  unfold eatOr; infer_instance

instance : Leaving [] name := by
  apply leaving_current
  intro errors s
  split
  · rename_i kind
    exact LeavingAt.leaves errors s (Token.isBlockWord_of_kind (by rw [kind]; decide))
  · exact Leaving.leaves errors s

instance (body : Parser α) [h : Leaving pending body] : Leaving pending (framed body) := by
  have inside (errors : List ParseError) (s : ParserState) :=
    h.leaves errors { s with frames := false :: s.frames }
  refine ⟨fun errors s => ⟨.framed (inside errors s).evolves, fun ends => ?_⟩⟩
  obtain ⟨left, leaves⟩ := (inside errors s).leaves ⟨ends.going, ends.kept, ends.few⟩
  exact ⟨left, leaves.of_eq rfl rfl rfl rfl⟩

/-- What one pass leaves, when it ends in a state that is known. -/
theorem leaves_run {p : Parser α} {a : α} {t : ParserState} (h : Leaves errors pending p s)
    (run : p s = (a, t)) :
    Evolves s t ∧ (t.EndsWith errors → ∃ left, LeftOpen errors pending s t left) := by
  obtain ⟨evolves, leaves⟩ := h
  rw [run] at evolves leaves
  exact ⟨evolves, leaves⟩

instance (pass : α → Parser (Pass α)) [h : ∀ a, Leaving [] (pass a)] (a : α) :
    Leaving [] (repeated pass a) := by
  constructor
  intro errors s
  fun_induction repeated pass a s with
  | case1 a s b next run =>
      obtain ⟨evolves, leaves⟩ := leaves_run ((h a).leaves errors s) run
      exact ⟨by rwa [repeated_of_done run], by rwa [repeated_of_done run]⟩
  | case2 a s b next run lt ih =>
      obtain ⟨evolves, leaves⟩ := leaves_run ((h a).leaves errors s) run
      have again : repeated pass a s = repeated pass b next := repeated_of_again run lt
      constructor
      · rw [again]
        exact evolves.trans ih.evolves
      · rw [again]
        intro ends
        obtain ⟨left, first⟩ := leaves (ih.evolves.endsWith ends)
        obtain ⟨more, second⟩ := ih.leaves ends
        exact ⟨left ++ more, first.trans second ih.evolves⟩
  | case3 a s b next run stuck =>
      obtain ⟨evolves, leaves⟩ := leaves_run ((h a).leaves errors s) run
      exact ⟨by rwa [repeated_of_stuck run stuck], by rwa [repeated_of_stuck run stuck]⟩

theorem leaves_reject (going : s.aborted = false) (ahead : s.current.kind ≠ .endOfFile) :
    Leaves errors [] reject s :=
  ⟨.single (.reject s going ahead), fun ends => ⟨[], .reject ends ahead⟩⟩

instance (u : Unit) : Leaving [] (headerPass u) := by
  apply leaving_get
  intro errors s
  split
  · exact Leaving.leaves errors s
  · rename_i ahead
    simp only [Bool.or_eq_true, decide_eq_true_eq, not_or, Bool.not_eq_true] at ahead
    refine leaves_before (leaves_reject ahead.1 fun kind => ahead.2 ?_)
    rw [kind]
    decide

instance : Leaving [] skipToLineEnd := by unfold skipToLineEnd; infer_instance

end Parser

end MapScript
