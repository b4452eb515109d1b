import Mathlib.Data.List.Forall2
import MapScript.Proofs.Comparing.Settings

/-!
# Parsers with different tokens

A parser looks at the kinds and words of its tokens and, where it takes instructions, at the gaps
between them. It does not look at anything behind the first end of file. So two parsers whose
tokens correspond up to there do the same: they build the same nodes, and where one of them reports
a token the other reports the token that corresponds to it.
-/
namespace MapScript

/-- Between `y` and `y'` there is a gap if there is one between `x` and `x'`, and they touch if
those do. -/
structure SameGap (x x' y y' : Token) : Prop where
  apart : y.span.stop < y'.span.start ↔ x.span.stop < x'.span.start
  touching : y.span.stop = y'.span.start ↔ x.span.stop = x'.span.start

theorem SameGap.refl (x x' : Token) : SameGap x x' x x' := ⟨Iff.rfl, Iff.rfl⟩

instance (x x' y y' : Token) : Decidable (SameGap x x' y y') :=
  decidable_of_iff ((y.span.stop < y'.span.start ↔ x.span.stop < x'.span.start) ∧
      (y.span.stop = y'.span.start ↔ x.span.stop = x'.span.start))
    ⟨fun h => ⟨h.1, h.2⟩, fun h => ⟨h.apart, h.touching⟩⟩

/-- The gaps between neighbours are the same in both lists. -/
def SameGaps : List Token → List Token → Prop
  | x :: x' :: xs, y :: y' :: ys => SameGap x x' y y' ∧ SameGaps (x' :: xs) (y' :: ys)
  | _, _ => True

instance SameGaps.decidable : (xs ys : List Token) → Decidable (SameGaps xs ys)
  | [], _ => isTrue trivial
  | [_], _ => isTrue trivial
  | _ :: _ :: _, [] => isTrue trivial
  | _ :: _ :: _, [_] => isTrue trivial
  | x :: x' :: xs, y :: y' :: ys =>
    have := SameGaps.decidable (x' :: xs) (y' :: ys)
    inferInstanceAs (Decidable (SameGap x x' y y' ∧ SameGaps (x' :: xs) (y' :: ys)))

theorem SameGaps.refl (xs : List Token) : SameGaps xs xs := by
  induction xs with
  | nil => trivial
  | cons x xs ih =>
      cases xs with
      | nil => trivial
      | cons x' xs => exact ⟨.refl x x', ih⟩

theorem SameGaps.tail {x y : Token} {xs ys : List Token} (h : SameGaps (x :: xs) (y :: ys)) :
    SameGaps xs ys := by
  cases xs with
  | nil => cases ys <;> trivial
  | cons x' xs =>
      cases ys with
      | nil => cases xs <;> trivial
      | cons y' ys => exact h.2

/-- The same error about tokens and blocks that correspond. -/
inductive ParseError.Corresponds (Rel : Token → Token → Prop) (SpanLike : Span → Span → Prop) :
    ParseError → ParseError → Prop
  | unexpectedToken {x y : Token} : Rel x y →
      Corresponds Rel SpanLike (.unexpectedToken x) (.unexpectedToken y)
  | unexpectedEnd {x y : Token} (closer : Option Stop) {a b : Option Span} : Rel x y →
      Option.Rel SpanLike a b →
      Corresponds Rel SpanLike (.unexpectedEnd x closer a) (.unexpectedEnd y closer b)
  | expected {x y : Token} (wanted : Expectation) : Rel x y →
      Corresponds Rel SpanLike (.expected wanted x) (.expected wanted y)
  | budgetExhausted {x y : Token} : Rel x y →
      Corresponds Rel SpanLike (.budgetExhausted x) (.budgetExhausted y)

/-- A way in which the tokens of two parsers correspond. -/
structure Correspondence where
  Rel : Token → Token → Prop
  SpanLike : Span → Span → Prop
  alike {x y : Token} : Rel x y → Token.Alike SpanLike x y
  /-- The options of both parsers. -/
  options : ParseOptions
  /-- The errors that the parsers have found correspond, too. -/
  remembers : Prop
  /-- How many tokens each of them has behind the first end of file. -/
  behind : Nat
  behind' : Nat

namespace Correspondence

/-- The tokens correspond up to the first end of file. -/
inductive Ahead (c : Correspondence) : List Token → List Token → Prop
  | last {x y : Token} {xs ys : List Token} : c.Rel x y → x.kind = .endOfFile →
      xs.length = c.behind → ys.length = c.behind' → Ahead c (x :: xs) (y :: ys)
  | next {x x' y y' : Token} {xs ys : List Token} : c.Rel x y → x.kind ≠ .endOfFile →
      (c.options.asm = true → SameGap x x' y y') → Ahead c (x' :: xs) (y' :: ys) →
      Ahead c (x :: x' :: xs) (y :: y' :: ys)

/-- Both parsers have done the same, each with its own tokens. -/
structure Like (c : Correspondence) (s t : ParserState) : Prop where
  ahead : c.Ahead s.rest t.rest
  options : s.options = c.options
  options' : t.options = c.options
  frames : t.frames = s.frames
  openers : List.Forall₂ c.SpanLike s.openers t.openers
  budget : t.budget = s.budget
  aborted : t.aborted = s.aborted
  errors : c.remembers →
    List.Forall₂ (ParseError.Corresponds c.Rel c.SpanLike) s.errors t.errors

variable {c : Correspondence}

theorem Ahead.length {xs ys : List Token} (h : c.Ahead xs ys) :
    xs.length + c.behind' = ys.length + c.behind := by
  induction h with
  | last _ _ first second =>
      simp only [List.length_cons]
      omega
  | next _ _ _ _ ih =>
      simp only [List.length_cons] at ih ⊢
      omega

/-- Lists of the same length that correspond throughout, with an end of file in them. -/
theorem exists_ahead (c : Correspondence) {xs ys : List Token} (h : List.Forall₂ c.Rel xs ys)
    (gaps : c.options.asm = true → SameGaps xs ys) (ended : ∃ x ∈ xs, x.kind = .endOfFile) :
    ∃ behind, ({ c with behind := behind, behind' := behind } : Correspondence).Ahead xs ys := by
  induction h with
  | nil =>
      obtain ⟨x, hx, -⟩ := ended
      cases hx
  | @cons x y xs ys rel rest ih =>
      by_cases last : x.kind = .endOfFile
      · exact ⟨xs.length, .last rel last rfl rest.length_eq.symm⟩
      · obtain ⟨z, hz, kind⟩ := ended
        have later : z ∈ xs := by
          rcases List.mem_cons.mp hz with rfl | later
          · exact absurd kind last
          · exact later
        obtain ⟨behind, ahead⟩ := ih (fun asm => (gaps asm).tail) ⟨z, later, kind⟩
        cases rest with
        | nil => cases later
        | cons => exact ⟨behind, .next rel last (fun asm => (gaps asm).1) ahead⟩

/-- Line ends are skipped by both or by neither, and none of them is behind the end of file. -/
theorem Ahead.dropLineEnds {xs ys : List Token} (h : c.Ahead xs ys) :
    c.Ahead (xs.dropWhile (·.kind == .endOfLine)) (ys.dropWhile (·.kind == .endOfLine)) := by
  induction h with
  | @last x y xs ys rel ended first second =>
      have ended' : y.kind = .endOfFile := (c.alike rel).kind.trans ended
      rw [List.dropWhile_cons_of_neg (by simp [ended]),
        List.dropWhile_cons_of_neg (by simp [ended'])]
      exact .last rel ended first second
  | @next x x' y y' xs ys rel goesOn gap more ih =>
      have kind : y.kind = x.kind := (c.alike rel).kind
      by_cases lineEnd : x.kind = .endOfLine
      · rw [List.dropWhile_cons_of_pos (a := x) (by simp [lineEnd]),
          List.dropWhile_cons_of_pos (a := y) (by simp [kind, lineEnd])]
        exact ih
      · rw [List.dropWhile_cons_of_neg (a := x) (by simp [lineEnd]),
          List.dropWhile_cons_of_neg (a := y) (by simp [kind, lineEnd])]
        exact .next rel goesOn gap more

section
variable {s t : ParserState}

theorem Ahead.current (h : c.Ahead s.rest t.rest) : c.Rel s.current t.current := by
  generalize hs : s.rest = xs at h
  generalize ht : t.rest = ys at h
  cases h with
  | last rel | next rel =>
      rw [ParserState.current_of_rest hs, ParserState.current_of_rest ht]
      exact rel

/-- Behind a token that is no end of file there is another one, with the same gap before it. -/
theorem Ahead.tail (h : c.Ahead s.rest t.rest) (goesOn : s.current.kind ≠ .endOfFile) :
    c.Ahead s.rest.tail t.rest.tail ∧
      (c.options.asm = true → SameGap s.current (s.peek 1) t.current (t.peek 1)) := by
  generalize hs : s.rest = xs at h
  generalize ht : t.rest = ys at h
  cases h with
  | last _ ended =>
      rw [ParserState.current_of_rest hs] at goesOn
      exact absurd ended goesOn
  | next rel _ gap more =>
      rw [ParserState.current_of_rest hs, ParserState.current_of_rest ht]
      simp only [ParserState.peek, hs, ht]
      exact ⟨more, gap⟩

theorem peek_succ (s : ParserState) (n : Nat) :
    s.peek (n + 1) = ParserState.peek { s with rest := s.rest.tail } n := by
  simp [ParserState.peek, List.getElem?_tail]

theorem Ahead.peek_one (h : c.Ahead s.rest t.rest) (goesOn : s.current.kind ≠ .endOfFile) :
    c.Rel (s.peek 1) (t.peek 1) := by
  rw [peek_succ, peek_succ]
  exact Ahead.current (s := { s with rest := s.rest.tail }) (t := { t with rest := t.rest.tail })
    (h.tail goesOn).1

theorem Ahead.gap_one (h : c.Ahead s.rest t.rest) (goesOn : s.current.kind ≠ .endOfFile)
    (goesOn' : (s.peek 1).kind ≠ .endOfFile) (asm : c.options.asm = true) :
    SameGap (s.peek 1) (s.peek 2) (t.peek 1) (t.peek 2) := by
  have second := Ahead.tail (s := { s with rest := s.rest.tail })
    (t := { t with rest := t.rest.tail }) (h.tail goesOn).1
  rw [peek_succ] at goesOn'
  rw [peek_succ s 0, peek_succ s 1, peek_succ t 0, peek_succ t 1]
  exact (second goesOn').2 asm

theorem Like.beforeName (h : c.Like s t) (name : s.current.kind = .identifier) :
    t.beforeName = s.beforeName := by
  have goesOn : s.current.kind ≠ .endOfFile := by
    rw [name]
    decide
  have next := c.alike (h.ahead.peek_one goesOn)
  unfold ParserState.beforeName
  rw [next.kind, Token.isKeyword, next.isA]
  rfl

/-- Only instructions depend on the gaps, and only on those before the end of file. -/
theorem Like.atInstruction (h : c.Like s t) (name : s.current.kind = .identifier) :
    t.atInstruction = s.atInstruction := by
  have goesOn : s.current.kind ≠ .endOfFile := by
    rw [name]
    decide
  unfold ParserState.atInstruction
  rw [h.options, h.options']
  cases asm : c.options.asm with
  | false => rfl
  | true =>
      have current := c.alike h.ahead.current
      have next := c.alike (h.ahead.peek_one goesOn)
      have gap := (h.ahead.tail goesOn).2 asm
      have apart : decide (t.current.span.stop < (t.peek 1).span.start) =
          decide (s.current.span.stop < (s.peek 1).span.start) := decide_eq_decide.mpr gap.apart
      dsimp only
      rw [apart, current.word, next.kind, next.word]
      cases kind : (s.peek 1).kind with
      | operator =>
          have gap' := h.ahead.gap_one goesOn (by rw [kind]; decide) asm
          have touching : ((t.peek 1).span.stop == (t.peek 2).span.start) =
              ((s.peek 1).span.stop == (s.peek 2).span.start) := by
            rw [Bool.eq_iff_iff, beq_iff_eq, beq_iff_eq]
            exact gap'.touching
          rw [touching]
      | _ => rfl

theorem Like.advance (h : c.Like s t) : c.Like s.advance t.advance := by
  have kind : t.current.kind = s.current.kind := (c.alike h.ahead.current).kind
  unfold ParserState.advance
  rw [kind]
  split
  · exact h
  · exact ⟨(h.ahead.tail ‹_›).1, h.options, h.options', h.frames, h.openers, h.budget, h.aborted,
      h.errors⟩

theorem Like.skipLineEnds (h : c.Like s t) : c.Like s.skipLineEnds t.skipLineEnds :=
  ⟨h.ahead.dropLineEnds, h.options, h.options', h.frames, h.openers, h.budget, h.aborted, h.errors⟩

theorem Like.note (h : c.Like s t) (event event' : ParseEvent) :
    c.Like (s.note event) (t.note event') :=
  ⟨h.ahead, h.options, h.options', h.frames, h.openers, h.budget, h.aborted, h.errors⟩

theorem Like.record (h : c.Like s t) {e e' : ParseError}
    (same : e.Corresponds c.Rel c.SpanLike e') : c.Like (s.record e) (t.record e') := by
  have errors : c.remembers → List.Forall₂ (ParseError.Corresponds c.Rel c.SpanLike)
      (s.record e).errors (t.record e').errors := by
    intro remembers
    have before := h.errors remembers
    unfold ParserState.record
    rw [before.length_eq]
    split
    · exact List.rel_append before (.cons same .nil)
    · exact before
  apply Like.mk
  · simpa using h.ahead
  · simpa using h.options
  · simpa using h.options'
  · simpa using h.frames
  · simpa using h.openers
  · simpa using h.budget
  · simpa using h.aborted
  · exact errors

theorem Like.abort (h : c.Like s t) {x y : Token} (rel : c.Rel x y) :
    c.Like (s.abort x) (t.abort y) := by
  refine ⟨h.ahead, h.options, h.options', h.frames, h.openers, h.budget, rfl, ?_⟩
  intro remembers
  exact List.rel_append (h.errors remembers) (.cons (.budgetExhausted rel) .nil)

theorem Like.skip (h : c.Like s t) : c.Like s.skip t.skip := by
  have rel := h.ahead.current
  have recorded := (h.advance.note (.skipping s.current s.budget)
    (.skipping t.current t.budget)).record (.unexpectedToken rel)
  have budget : t.skip.budget = s.skip.budget := by
    rw [ParserState.budget_skip, ParserState.budget_skip, h.budget]
  exact ⟨recorded.ahead, recorded.options, recorded.options', recorded.frames, recorded.openers,
    budget, recorded.aborted, recorded.errors⟩

theorem Like.reject (h : c.Like s t) : c.Like s.reject t.reject := by
  rw [s.reject_eq, t.reject_eq, h.budget]
  split
  · exact h.skip.abort h.ahead.current
  · exact h.skip

theorem Like.markAsync (h : c.Like s t) : c.Like s.markAsync t.markAsync := by
  have frames := h.frames
  unfold ParserState.markAsync
  rw [frames]
  split
  · exact h
  · exact ⟨h.ahead, h.options, h.options', rfl, h.openers, h.budget, h.aborted, h.errors⟩

/-- The blocks around the cursor were opened at tokens that correspond. -/
theorem Like.head?_openers (h : c.Like s t) :
    Option.Rel c.SpanLike s.openers.head? t.openers.head? := by
  have openers := h.openers
  generalize s.openers = outer at openers ⊢
  generalize t.openers = outer' at openers ⊢
  cases openers with
  | nil => exact .none
  | cons first _ => exact .some first

end

/-- The comparison of parsers whose tokens correspond. They never part. -/
def comparison (c : Correspondence) : Comparison where
  Like := c.Like
  Apart _ _ := False
  SpanLike := c.SpanLike
  onType := some
  spare := c.behind
  spare' := c.behind'
  length h := h.ahead.length
  token h := c.alike h.ahead.current
  beforeName := Like.beforeName
  atInstruction := Like.atInstruction
  aborted h := h.aborted
  types h word := by rw [h.options, h.options', Option.bind_fun_some]
  waits h := by rw [h.frames]
  advance := Like.advance
  skipLineEnds := Like.skipLineEnds
  note word h := h.note (.statement word) (.statement word)
  expected wanted h := h.record (.expected wanted h.ahead.current)
  ended closer h := h.record (.unexpectedEnd closer h.ahead.current h.head?_openers)
  reject h := .inl h.reject
  markAsync := Like.markAsync
  enterFrame h := ⟨h.ahead, h.options, h.options', congrArg (false :: ·) h.frames, h.openers,
    h.budget, h.aborted, h.errors⟩
  leaveFrame h := ⟨h.ahead, h.options, h.options', congrArg List.tail h.frames, h.openers,
    h.budget, h.aborted, h.errors⟩
  enterBlock spans h := ⟨h.ahead, h.options, h.options', h.frames, .cons spans h.openers,
    h.budget, h.aborted, h.errors⟩
  leaveBlock h := by
    have outer := List.forall₂_drop 1 h.openers
    rw [List.drop_one, List.drop_one] at outer
    exact ⟨h.ahead, h.options, h.options', h.frames, outer, h.budget, h.aborted, h.errors⟩
  apart h _ _ := h
  apart_leaveFrame h := h
  apart_leaveBlock h := h

end Correspondence

/-- Parsers whose tokens correspond read the same, up to any stop. -/
theorem Correspondence.Like.readUntil {c : Correspondence} {s t : ParserState} (h : c.Like s t)
    (rest : s.AtRest) (rest' : t.AtRest) (stop : Option Stop) :
    (t.readUntil stop).1 = (s.readUntil stop).1 ∧
      c.Like (s.readUntil stop).2 (t.readUntil stop).2 := by
  have outcome := Parser.read_copies (c := c.comparison)
    (.statements .block (stop.toList ++ [.endOfFile])) s t h
  rw [Comparison.reading_of_some rfl] at outcome
  rcases run : (Place.statements .block (stop.toList ++ [.endOfFile])).read s with
    ⟨⟨nodes, found⟩, s'⟩
  rcases run' : (Place.statements .block (stop.toList ++ [.endOfFile])).read t with ⟨reading, t'⟩
  rw [run, run'] at outcome
  rcases outcome with ⟨same, like⟩ | apart
  · obtain rfl : reading = (nodes, found) := same
    rw [ParserState.readUntil_of_read rest run, ParserState.readUntil_of_read rest' run']
    cases found with
    | none => exact ⟨rfl, like⟩
    | some found => exact ⟨rfl, Correspondence.Like.advance like⟩
  · cases apart

end MapScript
