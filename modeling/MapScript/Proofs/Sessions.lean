import MapScript.Proofs.Budget
import MapScript.Proofs.Comparing.Tokens

/-!
# Sessions with a parser

A parser that is kept can be asked for the statements up to a stop, for the rest of the program, or
for the errors so far, and it can be given other tokens. Whatever happened inside a step, a parser
is balanced after it: all blocks and all frames but that of the program are closed, and the target,
the scope and the mode are those of a parser that has begun nothing. What is read next does not
depend on how the cursor came to where it stands.

A parser that has given up only answers that it has, until it gets other tokens.
-/
namespace MapScript

/-- What can be asked of a parser about its tokens. -/
inductive Request where
  | readUntil (stop : Option Stop)
  | readProgram
  | finish (body : List Node)

/-- What the parser answers, and how it stands then. -/
structure Reply where
  body : List Node
  /-- The errors that are handed out. -/
  errors : List ParseError
  isAsync : Bool
  aborted : Bool

def ParseResult.reply (r : ParseResult) : Reply :=
  ⟨r.tree.body, r.errors, r.tree.isAsync, r.aborted⟩

namespace Request

def reply : Request → ParserState → Reply
  | readUntil stop, s =>
    ⟨(s.readUntil stop).1, [], (s.readUntil stop).2.isAsync, (s.readUntil stop).2.aborted⟩
  | readProgram, s => s.readProgram.1.reply
  | finish body, s => (s.finish body).1.reply

def next : Request → ParserState → ParserState
  | readUntil stop, s => (s.readUntil stop).2
  | readProgram, s => s.readProgram.2
  | finish body, s => (s.finish body).2

end Request

/-- The answers to one request after the other. -/
def replies : List Request → ParserState → List Reply
  | [], _ => []
  | r :: requests, s => r.reply s :: replies requests (r.next s)

/-- The parser after these requests. -/
def ParserState.asked : List Request → ParserState → ParserState
  | [], s => s
  | r :: requests, s => asked requests (r.next s)

/-- A step of a session. -/
inductive Call where
  | reset (tokens : List Token)
  | ask (request : Request)

def Call.next : Call → ParserState → ParserState
  | reset tokens, s => s.reset tokens
  | ask request, s => request.next s

/-- The parser after these steps. -/
def ParserState.called : List Call → ParserState → ParserState
  | [], s => s
  | c :: calls, s => called calls (c.next s)

/-- The tokens that the parser has after these steps, if it had `tokens` before. -/
def loaded : List Call → List Token → List Token
  | [], tokens => tokens
  | .reset tokens :: calls, _ => loaded calls (terminated tokens)
  | .ask _ :: calls, tokens => loaded calls tokens

namespace ParserState

theorem finish_fst (body : List Node) (s : ParserState) :
    (s.finish body).1 = ⟨⟨body, s.isAsync⟩, s.errors, s.aborted⟩ := rfl

/-- Only the errors are forgotten, and the log may be longer. -/
theorem finish_snd (body : List Node) (s : ParserState) :
    ∃ trail, (s.finish body).2 = { s with errors := [], trail := trail } := by
  unfold finish
  dsimp only
  split
  · exact ⟨s.trail, rfl⟩
  · exact ⟨_, rfl⟩

theorem readProgram_eq (s : ParserState) :
    s.readProgram = (s.readUntil none).2.finish (s.readUntil none).1 := rfl

theorem AtRest.finish {s : ParserState} (h : s.AtRest) (body : List Node) :
    (s.finish body).2.AtRest := by
  obtain ⟨trail, same⟩ := s.finish_snd body
  rw [same]
  exact ⟨h.target, h.scope, h.inExpression⟩

theorem AtRest.ask {s : ParserState} (h : s.AtRest) (r : Request) : (r.next s).AtRest := by
  cases r with
  | readUntil stop => exact h.readUntil stop
  | readProgram => exact (h.readUntil none).finish _
  | finish body => exact h.finish body

end ParserState

/-- What holds of a parser between the steps of a session. -/
structure Balanced (o : ParseOptions) (tokens : List Token) (s : ParserState) : Prop
    extends s.AtRest where
  options : s.options = o
  /-- Only the frame of the program is open. -/
  frames : ∃ waits, s.frames = [waits]
  openers : s.openers = []
  /-- The cursor is not behind the first end of file. -/
  cursor : ∃ taken, tokens = taken ++ s.rest ∧ (∀ x ∈ taken, x.kind ≠ .endOfFile) ∧
    ∃ x ∈ s.rest, x.kind = .endOfFile
  budget : s.budget ≤ o.retryBudget
  spent : s.aborted = true → s.budget = 0

theorem Step.budget {s t : ParserState} (h : Step s t) :
    t.budget ≤ s.budget ∧ (t.aborted = true → s.aborted = true ∨ t.budget = 0) := by
  cases h with
  | advance | expected | ended | markAsync =>
      constructor
      · simp
      · intro gaveUp
        simpa using Or.inl gaveUp
  | skipLineEnds | note => exact ⟨Nat.le_refl _, .inl⟩
  | reject going =>
      rw [s.reject_eq]
      split
      · rename_i out
        exact ⟨Nat.sub_le _ 1, fun _ => .inr out⟩
      · refine ⟨Nat.sub_le _ 1, fun gaveUp => .inl ?_⟩
        simpa [ParserState.skip, ParserState.note] using gaveUp

theorem Evolves.budget {s t : ParserState} (h : Evolves s t) :
    t.budget ≤ s.budget ∧ (t.aborted = true → s.aborted = true ∨ t.budget = 0) := by
  induction h with
  | refl => exact ⟨Nat.le_refl _, .inl⟩
  | single step => exact step.budget
  | trans first second ih ih' =>
      refine ⟨Nat.le_trans ih'.1 ih.1, fun gaveUp => ?_⟩
      rcases ih'.2 gaveUp with before | out
      · rcases ih.2 before with before | out
        · exact .inl before
        · exact .inr (Nat.le_zero.mp (out ▸ ih'.1))
      · exact .inr out
  | framed _ ih | blocked _ _ ih => exact ih

namespace Balanced
variable {o : ParseOptions} {tokens : List Token} {s t : ParserState}

theorem evolves (h : Balanced o tokens s) (evolves : Evolves s t) (rest : t.AtRest) :
    Balanced o tokens t := by
  obtain ⟨waits, frames⟩ := h.frames
  obtain ⟨taken, split, before, x, hx, ended⟩ := h.cursor
  obtain ⟨more, split', between⟩ := evolves.forward
  have budget := evolves.budget
  refine ⟨rest, ?_, ?_, ?_, ?_, ?_, ?_⟩
  · rw [evolves.options, h.options]
  · exact evolves.frames frames
  · rw [evolves.openers, h.openers]
  · refine ⟨taken ++ more, ?_, List.forall_mem_append.mpr ⟨before, between⟩, x, ?_, ended⟩
    · rw [split, split', List.append_assoc]
    · rw [split'] at hx
      rcases List.mem_append.mp hx with skipped | ahead
      · exact absurd ended (between x skipped)
      · exact ahead
  · exact Nat.le_trans budget.1 h.budget
  · intro gaveUp
    rcases budget.2 gaveUp with before | out
    · have none := h.spent before
      omega
    · exact out

theorem start (o : ParseOptions) (tokens : List Token) :
    Balanced o (terminated tokens) (.start o (terminated tokens)) := by
  refine ⟨ParserState.atRest_start o _, ?_, ?_, ?_, ?_, ?_, ?_⟩
  · rfl
  · exact ⟨false, rfl⟩
  · rfl
  · exact ⟨[], rfl, List.forall_mem_nil _, exists_mem_terminated tokens⟩
  · exact Nat.le_refl _
  · intro gaveUp
    cases gaveUp

theorem finish (h : Balanced o tokens s) (body : List Node) :
    Balanced o tokens (s.finish body).2 := by
  obtain ⟨trail, same⟩ := s.finish_snd body
  rw [same]
  exact ⟨same ▸ h.toAtRest.finish body, h.options, h.frames, h.openers, h.cursor, h.budget, h.spent⟩

theorem readUntil (h : Balanced o tokens s) (stop : Option Stop) :
    Balanced o tokens (s.readUntil stop).2 :=
  h.evolves (s.readUntil_evolves stop) (h.toAtRest.readUntil stop)

theorem ask (h : Balanced o tokens s) (r : Request) : Balanced o tokens (r.next s) := by
  cases r with
  | readUntil stop => exact h.readUntil stop
  | readProgram => exact (h.readUntil none).finish _
  | finish body => exact h.finish body

theorem called (h : Balanced o tokens s) (calls : List Call) :
    Balanced o (loaded calls tokens) (s.called calls) := by
  induction calls generalizing tokens s with
  | nil => exact h
  | cons c calls ih =>
      cases c with
      | reset other =>
          apply ih
          change Balanced o _ (.start s.options _)
          rw [h.options]
          exact start o other
      | ask request => exact ih (h.ask request)

end Balanced

/-- A parser that begins at the cursor of another one, with what is left of its budget. It has no
block open and no error, and it has not read anything. -/
def ParserState.resumed (s : ParserState) : ParserState :=
  { ParserState.start s.options s.rest with
    frames := [s.isAsync], budget := s.budget, aborted := s.aborted }

namespace Correspondence

/-- The same tokens up to the first end of file. -/
def same (options : ParseOptions) (remembers : Prop) (behind behind' : Nat) : Correspondence where
  Rel := Eq
  SpanLike := Eq
  alike := by
    rintro x _ rfl
    exact ⟨rfl, rfl, rfl⟩
  options := options
  remembers := remembers
  behind := behind
  behind' := behind'

/-- Answers that differ at most in the errors, and where those correspond not even there. -/
structure Same (c : Correspondence) (a b : Reply) : Prop where
  body : b.body = a.body
  isAsync : b.isAsync = a.isAsync
  aborted : b.aborted = a.aborted
  errors : c.remembers →
    List.Forall₂ (ParseError.Corresponds c.Rel c.SpanLike) a.errors b.errors

variable {c : Correspondence} {s t : ParserState}

theorem Like.isAsync (h : c.Like s t) : t.isAsync = s.isAsync := by
  rw [ParserState.isAsync, ParserState.isAsync, h.frames]

theorem Like.finish (h : c.Like s t) (body : List Node) :
    c.Same (s.finish body).1.reply (t.finish body).1.reply ∧
      c.Like (s.finish body).2 (t.finish body).2 := by
  obtain ⟨trail, first⟩ := s.finish_snd body
  obtain ⟨trail', second⟩ := t.finish_snd body
  rw [first, second]
  exact ⟨⟨rfl, h.isAsync, h.aborted, h.errors⟩, h.ahead, h.options, h.options', h.frames,
    h.openers, h.budget, h.aborted, fun _ => .nil⟩

theorem Like.ask (h : c.Like s t) (rest : s.AtRest) (rest' : t.AtRest) (r : Request) :
    c.Same (r.reply s) (r.reply t) ∧ c.Like (r.next s) (r.next t) := by
  cases r with
  | readUntil stop =>
      obtain ⟨body, like⟩ := h.readUntil rest rest' stop
      exact ⟨⟨body, like.isAsync, like.aborted, fun _ => .nil⟩, like⟩
  | readProgram =>
      obtain ⟨body, like⟩ := h.readUntil rest rest' none
      simp only [Request.reply, Request.next, ParserState.readProgram_eq, body]
      exact like.finish _
  | finish body => exact h.finish body

/-- Parsers whose tokens correspond answer alike. -/
theorem Like.replies (h : c.Like s t) (rest : s.AtRest) (rest' : t.AtRest)
    (requests : List Request) : List.Forall₂ c.Same (replies requests s) (replies requests t) := by
  induction requests generalizing s t with
  | nil => exact .nil
  | cons r requests ih =>
      obtain ⟨first, like⟩ := h.ask rest rest' r
      exact .cons first (ih like (rest.ask r) (rest'.ask r))

theorem eq_of_corresponds {errors errors' : List ParseError}
    (h : List.Forall₂ (ParseError.Corresponds Eq Eq) errors errors') : errors' = errors := by
  have each : ∀ e e', ParseError.Corresponds Eq Eq e e' → e = e' := by
    intro e e' corresponds
    cases corresponds with
    | unexpectedToken token | expected _ token | budgetExhausted token => rw [token]
    | unexpectedEnd _ token opener =>
        cases opener with
        | none => rw [token]
        | some span => rw [token, span]
  have equal : List.Forall₂ Eq errors errors' := h.imp each
  rw [List.forall₂_eq_eq_eq] at equal
  exact equal.symm

variable {options : ParseOptions} {remembers : Prop} {behind behind' : Nat}

theorem Same.eq {a b : Reply} (h : (same options remembers behind behind').Same a b)
    (hr : remembers) : b = a := by
  have errors : b.errors = a.errors := eq_of_corresponds (h.errors hr)
  obtain ⟨body, errors', isAsync, aborted⟩ := b
  obtain rfl : body = a.body := h.body
  obtain rfl : isAsync = a.isAsync := h.isAsync
  obtain rfl : aborted = a.aborted := h.aborted
  obtain rfl : errors' = a.errors := errors
  rfl

theorem eq_of_same {first second : List Reply}
    (h : List.Forall₂ (same options remembers behind behind').Same first second)
    (hr : remembers) : second = first := by
  induction h with
  | nil => rfl
  | cons head _ ih => rw [head.eq hr, ih]

end Correspondence

namespace Balanced
variable {o : ParseOptions} {tokens : List Token} {s : ParserState}

/-- A balanced parser and one that begins at its cursor have the same tokens ahead. -/
theorem like_resumed (h : Balanced o tokens s) :
    ∃ behind, (Correspondence.same o (s.errors = []) behind behind).Like s s.resumed := by
  obtain ⟨taken, -, -, ended⟩ := h.cursor
  obtain ⟨waits, frames⟩ := h.frames
  obtain ⟨behind, ahead⟩ := (Correspondence.same o (s.errors = []) 0 0).exists_ahead
    (List.forall₂_same.mpr fun _ _ => rfl) (fun _ => .refl s.rest) ended
  refine ⟨behind, ahead, h.options, h.options, ?_, ?_, rfl, rfl, ?_⟩
  · rw [frames]
    change [s.isAsync] = _
    rw [ParserState.isAsync_of_frames frames]
  · rw [h.openers]
    exact .nil
  · intro none
    rw [none]
    exact .nil

/-- What is answered next depends on what lies ahead only, apart from the errors before. -/
theorem replies_resumed (h : Balanced o tokens s) (requests : List Request) :
    (replies requests s.resumed).map (·.body) = (replies requests s).map (·.body) ∧
      (s.errors = [] → replies requests s.resumed = replies requests s) := by
  obtain ⟨behind, like⟩ := h.like_resumed
  have alike := like.replies h.toAtRest ⟨rfl, rfl, rfl⟩ requests
  refine ⟨?_, Correspondence.eq_of_same alike⟩
  generalize replies requests s = first at alike
  generalize replies requests s.resumed = second at alike
  induction alike with
  | nil => rfl
  | cons head _ ih => rw [List.map_cons, List.map_cons, head.body, ih]

end Balanced

namespace ParserState

theorem readUntil_of_aborted {s : ParserState} (h : s.aborted = true) (stop : Option Stop) :
    s.readUntil stop = ([], s) := by
  have read : Parser.readNodes Place.read (stop.toList ++ [.endOfFile]) true
      { s with target := [] } = (none, { s with target := [] }) := by
    apply Parser.repeated_of_done
    unfold Parser.nodePass
    rw [Parser.run_get_bind, if_pos h]
    rfl
  unfold readUntil
  rw [read]
  rfl

theorem readProgram_of_aborted {s : ParserState} (h : s.aborted = true) :
    s.readProgram = s.finish [] := by
  rw [readProgram_eq, readUntil_of_aborted h]

end ParserState

/-- Nothing happens any more, except that the errors are handed out. -/
structure Stands (s t : ParserState) (handedOut : List ParseError) : Prop where
  aborted : t.aborted = true
  isAsync : t.isAsync = s.isAsync
  errors : handedOut ++ t.errors = s.errors

theorem stands_finish {s : ParserState} (h : s.aborted = true) (body : List Node) :
    Stands s (s.finish body).2 s.errors := by
  obtain ⟨trail, same⟩ := s.finish_snd body
  rw [same]
  exact ⟨h, rfl, List.append_nil _⟩

theorem stands_ask {s : ParserState} (h : s.aborted = true) (r : Request) :
    Stands s (r.next s) (r.reply s).errors := by
  cases r with
  | readUntil stop =>
      simp only [Request.next, Request.reply, ParserState.readUntil_of_aborted h]
      exact ⟨h, rfl, rfl⟩
  | readProgram =>
      simp only [Request.next, Request.reply, ParserState.readProgram_of_aborted h]
      exact stands_finish h []
  | finish body => exact stands_finish h body

theorem stands_asked {s : ParserState} (h : s.aborted = true) (requests : List Request) :
    Stands s (s.asked requests) ((replies requests s).flatMap (·.errors)) := by
  induction requests generalizing s with
  | nil => exact ⟨h, rfl, rfl⟩
  | cons r requests ih =>
      have first := stands_ask h r
      have rest := ih first.aborted
      refine ⟨rest.aborted, rest.isAsync.trans first.isAsync, ?_⟩
      rw [replies, List.flatMap_cons, List.append_assoc, ← first.errors]
      exact congrArg _ rest.errors

namespace ParserState

/-- How many errors say that the parser has given up, with the one that it may still find. -/
def exhaustion (s : ParserState) : Nat :=
  s.errors.countP (·.isExhausted) + if s.aborted then 0 else 1

theorem exhaustion_start (o : ParseOptions) (tokens : List Token) :
    (start o tokens).exhaustion = 1 := rfl

theorem countP_record {e : ParseError} (plain : e.isExhausted = false) (s : ParserState) :
    (s.record e).errors.countP (·.isExhausted) = s.errors.countP (·.isExhausted) := by
  unfold record
  split
  · rw [List.countP_append, List.countP_singleton, plain]
    rfl
  · rfl

theorem exhaustion_record {e : ParseError} (plain : e.isExhausted = false) (s : ParserState) :
    (s.record e).exhaustion = s.exhaustion := by
  rw [exhaustion, exhaustion, countP_record plain, s.aborted_record]

theorem exhaustion_skip (s : ParserState) : s.skip.exhaustion = s.exhaustion := by
  have recorded := exhaustion_record (e := .unexpectedToken s.current) rfl
    (s.advance.note (.skipping s.current s.budget))
  have advanced : (s.advance.note (.skipping s.current s.budget)).exhaustion = s.exhaustion := by
    change s.advance.exhaustion = s.exhaustion
    rw [exhaustion, exhaustion, s.errors_advance, s.aborted_advance]
  exact recorded.trans advanced

/-- The parser says that it gives up when it does. -/
theorem exhaustion_abort {s : ParserState} (going : s.aborted = false) (last : Token) :
    (s.abort last).exhaustion = s.exhaustion := by
  change (s.errors ++ [ParseError.budgetExhausted last]).countP (·.isExhausted) + 0 = s.exhaustion
  rw [List.countP_append, exhaustion, going]
  rfl

end ParserState

theorem Step.exhaustion {s t : ParserState} (h : Step s t) : t.exhaustion = s.exhaustion := by
  cases h with
  | advance => rw [ParserState.exhaustion, s.errors_advance, s.aborted_advance]; rfl
  | markAsync => rw [ParserState.exhaustion, s.errors_markAsync, s.aborted_markAsync]; rfl
  | skipLineEnds | note => rfl
  | expected | ended => exact s.exhaustion_record rfl
  | reject going =>
      rw [s.reject_eq]
      split
      · have going' : s.skip.aborted = false := by
          simpa [ParserState.skip, ParserState.note] using going
        rw [ParserState.exhaustion_abort going', s.exhaustion_skip]
      · exact s.exhaustion_skip

theorem Evolves.exhaustion {s t : ParserState} (h : Evolves s t) :
    t.exhaustion = s.exhaustion := by
  induction h with
  | refl => rfl
  | single step => exact step.exhaustion
  | trans _ _ ih ih' => exact ih'.trans ih
  | framed _ ih | blocked _ _ ih => exact ih

theorem exhaustion_finish (body : List Node) (s : ParserState) :
    (s.finish body).1.errors.countP (·.isExhausted) + (s.finish body).2.exhaustion =
      s.exhaustion := by
  obtain ⟨trail, same⟩ := s.finish_snd body
  rw [same, ParserState.finish_fst]
  simp [ParserState.exhaustion]

theorem exhaustion_ask (r : Request) (s : ParserState) :
    (r.reply s).errors.countP (·.isExhausted) + (r.next s).exhaustion = s.exhaustion := by
  cases r with
  | readUntil stop =>
      have kept := (s.readUntil_evolves stop).exhaustion
      exact (Nat.zero_add _).trans kept
  | readProgram =>
      have kept := (s.readUntil_evolves none).exhaustion
      exact (exhaustion_finish _ _).trans kept
  | finish body => exact exhaustion_finish body s

/-- What the answers say and what the parser may still say add up. -/
theorem exhaustion_asked (requests : List Request) (s : ParserState) :
    ((replies requests s).flatMap (·.errors)).countP (·.isExhausted) +
      (s.asked requests).exhaustion = s.exhaustion := by
  induction requests generalizing s with
  | nil => exact Nat.zero_add _
  | cons r requests ih =>
      have first := exhaustion_ask r s
      have rest := ih (r.next s)
      rw [replies, List.flatMap_cons, List.countP_append]
      change _ + ((r.next s).asked requests).exhaustion = _
      omega

/-- A session is balanced between its steps. Nothing that a step has begun is left open, and what
comes next is what a parser would answer that begins at the cursor. After the parser has given up
nothing is read, nothing waits that did not wait before and no error is found; and it says only once
that it has given up, until it gets other tokens. -/
theorem session_balanced (o : ParseOptions) (calls : List Call) :
    let s := (ParserState.ofOptions o).called calls
    Balanced o (loaded calls [.noMore]) s ∧
    (∀ requests,
      (replies requests s.resumed).map (·.body) = (replies requests s).map (·.body) ∧
      (s.errors = [] → replies requests s.resumed = replies requests s)) ∧
    (s.aborted = true → ∀ requests,
      let t := s.asked requests
      t.aborted = true ∧ t.isAsync = s.isAsync ∧
      (∀ stop, t.readUntil stop = ([], t)) ∧ t.readProgram = t.finish [] ∧
      (replies requests s).flatMap (·.errors) ++ t.errors = s.errors) ∧
    ∀ tokens requests,
      ((replies requests (s.reset tokens)).flatMap (·.errors)).countP (·.isExhausted) ≤ 1 := by
  intro s
  have balanced : Balanced o (loaded calls [.noMore]) s :=
    (Balanced.start o []).called calls
  refine ⟨balanced, balanced.replies_resumed, ?_, ?_⟩
  · intro gaveUp requests t
    have stands := stands_asked gaveUp requests
    exact ⟨stands.aborted, stands.isAsync, ParserState.readUntil_of_aborted stands.aborted,
      ParserState.readProgram_of_aborted stands.aborted, stands.errors⟩
  · intro tokens requests
    have total := exhaustion_asked requests (s.reset tokens)
    have one : (s.reset tokens).exhaustion = 1 := ParserState.exhaustion_start s.options _
    omega

end MapScript
