import MapScript.Proofs.Mirroring.Programs
import MapScript.Proofs.Retyping

/-!
# Two parsers side by side

Two parsers are alike when they see the same words and do the same with them. Whatever is meant by
alike, it is enough to look at the single steps of a parser: if every step keeps two parsers alike,
so does every rule, and the nodes of the second are those of the first.

The types that the two record may differ. Nor do they have to stay together: where one of them
gives up before the other they are apart, and apart they remain.
-/
namespace MapScript

/-- Tokens of the same kind and with the same word, in places that correspond. -/
structure Token.Alike (SpanLike : Span → Span → Prop) (x y : Token) : Prop where
  kind : y.kind = x.kind
  word : y.word = x.word
  span : SpanLike x.span y.span

/-- A way to compare two parsers. -/
structure Comparison where
  /-- The parsers have done the same so far and see the same ahead. -/
  Like : ParserState → ParserState → Prop
  /-- The parsers do not do the same any more. -/
  Apart : ParserState → ParserState → Prop
  /-- Places that correspond. -/
  SpanLike : Span → Span → Prop
  /-- What the second parser records where the first one records a type. -/
  onType : String → Option String
  /-- How many tokens each of them has behind those that both read. -/
  spare : Nat
  spare' : Nat
  -- What the parsers look at.
  length {s t : ParserState} : Like s t → s.rest.length + spare' = t.rest.length + spare
  token {s t : ParserState} : Like s t → Token.Alike SpanLike s.current t.current
  beforeName {s t : ParserState} : Like s t → s.current.kind = .identifier →
    t.beforeName = s.beforeName
  atInstruction {s t : ParserState} : Like s t → s.current.kind = .identifier →
    t.atInstruction = s.atInstruction
  aborted {s t : ParserState} : Like s t → t.aborted = s.aborted
  types {s t : ParserState} : Like s t → ∀ word,
    (if t.options.types then some word else none) =
      (if s.options.types then some word else none).bind onType
  waits {s t : ParserState} : Like s t → t.frames.headD false = s.frames.headD false
  -- What the parsers do.
  advance {s t : ParserState} : Like s t → Like s.advance t.advance
  skipLineEnds {s t : ParserState} : Like s t → Like s.skipLineEnds t.skipLineEnds
  note {s t : ParserState} (word : String) : Like s t →
    Like (s.note (.statement word)) (t.note (.statement word))
  expected {s t : ParserState} (wanted : Expectation) : Like s t →
    Like (s.record (.expected wanted s.current)) (t.record (.expected wanted t.current))
  ended {s t : ParserState} (closer : Option Stop) : Like s t →
    Like (s.record (.unexpectedEnd s.current closer s.openers.head?))
      (t.record (.unexpectedEnd t.current closer t.openers.head?))
  reject {s t : ParserState} : Like s t → Like s.reject t.reject ∨ Apart s.reject t.reject
  markAsync {s t : ParserState} : Like s t → Like s.markAsync t.markAsync
  enterFrame {s t : ParserState} : Like s t →
    Like { s with frames := false :: s.frames } { t with frames := false :: t.frames }
  leaveFrame {s t : ParserState} : Like s t →
    Like { s with frames := s.frames.tail } { t with frames := t.frames.tail }
  enterBlock {s t : ParserState} {a b : Span} : SpanLike a b → Like s t →
    Like { s with openers := a :: s.openers } { t with openers := b :: t.openers }
  leaveBlock {s t : ParserState} : Like s t →
    Like { s with openers := s.openers.tail } { t with openers := t.openers.tail }
  -- What keeps them apart.
  apart {s t s' t' : ParserState} : Apart s t → Evolves s s' → Evolves t t' → Apart s' t'
  apart_leaveFrame {s t : ParserState} : Apart s t →
    Apart { s with frames := s.frames.tail } { t with frames := t.frames.tail }
  apart_leaveBlock {s t : ParserState} : Apart s t →
    Apart { s with openers := s.openers.tail } { t with openers := t.openers.tail }

namespace Token.Alike
variable {SpanLike : Span → Span → Prop} {x y : Token} (h : Token.Alike SpanLike x y)
include h

theorem isA (kind : TokenKind) (word : String) : y.isA kind word = x.isA kind word := by
  rw [Token.isA, Token.isA, h.kind, h.word]

theorem endsExpression : y.endsExpression = x.endsExpression := by
  rw [Token.endsExpression, Token.endsExpression, h.kind, h.word]

theorem accepts (stop : Stop) : stop.accepts y = stop.accepts x := by
  rw [Stop.accepts, Stop.accepts, h.kind, h.word]

end Token.Alike

/-- A test that finds the same in tokens that are alike. -/
class Token.Test (f : Token → Bool) : Prop where
  same {SpanLike : Span → Span → Prop} {x y : Token} : Token.Alike SpanLike x y → f y = f x

namespace Token
instance (kind : TokenKind) : Token.Test (·.kind == kind) := ⟨fun h => by rw [h.kind]⟩
instance (word : String) : Token.Test (·.isKeyword word) := ⟨fun h => h.isA ..⟩
instance (symbol : String) : Token.Test (·.isOperator symbol) := ⟨fun h => h.isA ..⟩
instance (f g : Token → Bool) [hf : Token.Test f] [hg : Token.Test g] :
    Token.Test fun t => f t || g t := ⟨fun h => by rw [hf.same h, hg.same h]⟩
end Token

namespace Comparison
variable (c : Comparison)

/-- The node that the second parser has for a node of the first. -/
abbrev node : Node → Node := Node.mapTypes c.onType

abbrev nodes : List Node → List Node := List.map c.node

def reading (r : Reading) : Reading := (c.nodes r.1, r.2)

variable {c} in
/-- Parsers that record the same types have the same nodes. -/
theorem reading_of_some (h : c.onType = some) : c.reading = id := by
  have same : Node.mapTypes some = id := funext Node.mapTypes_some
  funext r
  rw [reading, nodes, node, h, same, List.map_id]
  rfl

/-- The runs end alike and with values for which `V` holds, or they end apart. -/
def Outcome {α β : Type} (V : α → β → Prop) (r : α × ParserState) (r' : β × ParserState) : Prop :=
  V r.1 r'.1 ∧ c.Like r.2 r'.2 ∨ c.Apart r.2 r'.2

/-- What the parsers do when they are started alike. -/
def Agrees {α β : Type} (V : α → β → Prop) (p : Parser α) (q : Parser β) : Prop :=
  ∀ s t, c.Like s t → c.Outcome V (p s) (q t)

/-- The value of the second parser is made from that of the first. -/
abbrev Copies {α β : Type} (f : α → β) (p : Parser α) (q : Parser β) : Prop :=
  c.Agrees (fun a b => b = f a) p q

variable {c} {α β γ δ : Type} {V : α → β → Prop} {W : γ → δ → Prop}
variable {p : Parser α} {q : Parser β} {k : α → Parser γ} {l : β → Parser δ}

theorem agrees_pure {a : α} {b : β} (h : V a b) :
    c.Agrees V (pure a : Parser α) (pure b : Parser β) :=
  fun _ _ like => .inl ⟨h, like⟩

/-- Where the parsers are apart nothing is known of their values, so that what comes next has to
take steps for all values. -/
theorem Agrees.bind_of (hp : c.Agrees V p q) (hk : ∀ a, Evolving (k a))
    (hl : ∀ b, Evolving (l b)) (h : ∀ a b, V a b → c.Agrees W (k a) (l b)) :
    c.Agrees W (p >>= k) (q >>= l) := by
  intro s t like
  rw [Parser.run_bind, Parser.run_bind]
  rcases hp s t like with ⟨value, like⟩ | apart
  · exact h _ _ value _ _ like
  · exact .inr (c.apart apart ((hk _).evolves _) ((hl _).evolves _))

theorem Agrees.bind (hp : c.Agrees V p q) [hk : ∀ a, Evolving (k a)] [hl : ∀ b, Evolving (l b)]
    (h : ∀ a b, V a b → c.Agrees W (k a) (l b)) : c.Agrees W (p >>= k) (q >>= l) :=
  hp.bind_of hk hl h

theorem Copies.bind {f : α → β} (hp : c.Copies f p q) [∀ a, Evolving (k a)]
    [∀ b, Evolving (l b)] (h : ∀ a, c.Agrees W (k a) (l (f a))) : c.Agrees W (p >>= k) (q >>= l) :=
  Agrees.bind hp fun a b hab => by rw [hab]; exact h a

theorem Agrees.andThen {p q : Parser α} {k : α → Parser γ} {l : α → Parser δ}
    (hp : c.Agrees Eq p q) [∀ a, Evolving (k a)] [∀ a, Evolving (l a)]
    (h : ∀ a, c.Agrees W (k a) (l a)) : c.Agrees W (p >>= k) (q >>= l) :=
  hp.bind fun a b hab => by rw [← hab]; exact h a

/-- What may be found is found by both or by neither. -/
theorem Copies.bindOption {f : α → β} {p : Parser (Option α)} {q : Parser (Option β)}
    {k : Option α → Parser γ} {l : Option β → Parser δ} (hp : c.Copies (Option.map f) p q)
    [hk : ∀ a, Evolving (k (some a))] [hk' : Evolving (k none)]
    [hl : ∀ b, Evolving (l (some b))] [hl' : Evolving (l none)]
    (found : ∀ a, c.Agrees W (k (some a)) (l (some (f a))))
    (nothing : c.Agrees W (k none) (l none)) : c.Agrees W (p >>= k) (q >>= l) := by
  refine Agrees.bind_of hp (fun a => ?_) (fun b => ?_) fun a b hab => ?_
  · cases a with
    | some a => exact hk a
    | none => exact hk'
  · cases b with
    | some b => exact hl b
    | none => exact hl'
  · rw [hab]
    cases a with
    | some a => exact found a
    | none => exact nothing

theorem agrees_ite {d d' : Prop} [Decidable d] [Decidable d'] {p' : Parser α} {q' : Parser β}
    (same : d' ↔ d) (yes : d → c.Agrees V p q) (no : ¬ d → c.Agrees V p' q') :
    c.Agrees V (if d then p else p') (if d' then q else q') := by
  by_cases hd : d
  · rw [if_pos hd, if_pos (same.mpr hd)]
    exact yes hd
  · rw [if_neg hd, if_neg (mt same.mp hd)]
    exact no hd

/-- A look at the state needs no step. -/
theorem agrees_get {k : ParserState → Parser γ} {l : ParserState → Parser δ}
    (h : ∀ s t, c.Like s t → c.Agrees W (k s) (l t)) : c.Agrees W (get >>= k) (get >>= l) :=
  fun s t like => h s t like s t like

theorem agrees_current {k : Token → Parser γ} {l : Token → Parser δ}
    (h : ∀ x y, Token.Alike c.SpanLike x y → c.Agrees W (k x) (l y)) :
    c.Agrees W (Parser.current >>= k) (Parser.current >>= l) :=
  agrees_get fun s t like => h s.current t.current (c.token like)

theorem agrees_isAborted {k : Bool → Parser γ} {l : Bool → Parser δ}
    (h : ∀ aborted, c.Agrees W (k aborted) (l aborted)) :
    c.Agrees W (Parser.isAborted >>= k) (Parser.isAborted >>= l) := by
  refine agrees_get fun s t like => ?_
  rw [c.aborted like]
  exact h s.aborted

theorem agrees_advance : c.Agrees Eq Parser.advance Parser.advance :=
  fun _ _ like => .inl ⟨rfl, c.advance like⟩

theorem agrees_skipLineEnds : c.Agrees Eq Parser.skipLineEnds Parser.skipLineEnds :=
  fun _ _ like => .inl ⟨rfl, c.skipLineEnds like⟩

theorem agrees_reject : c.Agrees Eq Parser.reject Parser.reject :=
  fun _ _ like => (c.reject like).imp_left fun like => ⟨rfl, like⟩

theorem agrees_expected (wanted : Expectation) :
    c.Agrees Eq (Parser.expected wanted) (Parser.expected wanted) :=
  fun _ _ like => .inl ⟨rfl, c.expected wanted like⟩

theorem agrees_markAsync : c.Agrees Eq (modify ParserState.markAsync : Parser Unit)
    (modify ParserState.markAsync : Parser Unit) :=
  fun _ _ like => .inl ⟨rfl, c.markAsync like⟩

theorem agrees_eat (f : Token → Bool) [hf : Token.Test f] :
    c.Agrees Eq (Parser.eat f) (Parser.eat f) := by
  apply agrees_current
  intro x y alike
  apply agrees_ite
  · rw [hf.same alike]
  · exact fun _ => agrees_advance.andThen fun _ => agrees_pure rfl
  · exact fun _ => agrees_pure rfl

theorem agrees_eatOr (wanted : Expectation) (f : Token → Bool) [Token.Test f] :
    c.Agrees Eq (Parser.eatOr wanted f) (Parser.eatOr wanted f) :=
  (agrees_eat f).andThen fun _ =>
    agrees_ite Iff.rfl (fun _ => agrees_expected wanted) fun _ => agrees_pure rfl

theorem agrees_name : c.Agrees Eq Parser.name Parser.name := by
  apply agrees_current
  intro x y alike
  apply agrees_ite
  · rw [alike.kind]
  · exact fun _ => agrees_advance.andThen fun _ => agrees_pure alike.word.symm
  · exact fun _ => (agrees_expected .name).andThen fun _ => agrees_pure rfl

theorem copies_framed {p q : Parser (List Node)} (h : c.Copies c.nodes p q) :
    c.Copies (Prod.map c.nodes id) (Parser.framed p) (Parser.framed q) := by
  intro s t like
  rw [Parser.run_framed, Parser.run_framed]
  rcases h _ _ (c.enterFrame like) with ⟨value, like⟩ | apart
  · exact .inl ⟨Prod.ext value (c.waits like), c.leaveFrame like⟩
  · exact .inr (c.apart_leaveFrame apart)

/-- The parsers consume the same, so a repetition goes on in both or in neither. -/
theorem copies_repeated {pass : α → Parser (Parser.Pass α)} {pass' : β → Parser (Parser.Pass β)}
    {f : α → β} [∀ a, Evolving (pass a)] [∀ b, Evolving (pass' b)]
    (h : ∀ a, c.Copies (Parser.Pass.map f) (pass a) (pass' (f a))) (a : α) :
    c.Copies f (Parser.repeated pass a) (Parser.repeated pass' (f a)) := by
  intro s t like
  induction hn : s.rest.length using Nat.strongRecOn generalizing a s t with
  | ind n ih =>
      subst hn
      have length := c.length like
      have first := h a s t like
      have after := Parser.evolves_repeated pass a s
      have after' := Parser.evolves_repeated pass' (f a) t
      rcases run : pass a s with ⟨value, next⟩
      rcases run' : pass' (f a) t with ⟨value', next'⟩
      rw [run, run'] at first
      rw [run] at after
      rw [run'] at after'
      rcases first with ⟨rfl, like'⟩ | apart
      · have length' := c.length like'
        dsimp only at length' run'
        cases value with
        | done b =>
            rw [Parser.repeated_of_done run, Parser.repeated_of_done run']
            exact .inl ⟨rfl, like'⟩
        | again b =>
            by_cases lt : next.rest.length < s.rest.length
            · rw [Parser.repeated_of_again run lt, Parser.repeated_of_again run' (by omega)]
              exact ih _ lt b next next' like' rfl
            · rw [Parser.repeated_of_stuck run lt, Parser.repeated_of_stuck run' (by omega)]
              exact .inl ⟨rfl, like'⟩
      · exact .inr (c.apart apart after after')

/-- A token that no rule takes is skipped, and from there on the parser takes steps as well. -/
theorem evolves_after_orReject {p : Parser (Option α)} (h : Parser.Spares p)
    {k : Option α → Parser β} {b : β} (hr : k none = do Parser.reject; return b)
    (hk : ∀ a, Evolving (k (some a))) {s : ParserState} (ha : s.aborted = false)
    (he : s.current.kind ≠ .endOfFile) : Evolves (p s).2 ((p >>= k) s).2 := by
  rw [Parser.run_bind]
  cases hf : (p s).1 with
  | some a => exact (hk a).evolves _
  | none =>
      obtain ⟨rest, aborted⟩ := h s hf
      have current : (p s).2.current = s.current := by
        unfold ParserState.current ParserState.peek
        rw [rest]
      rw [hr]
      exact .single (.reject _ (aborted.trans ha) (by rwa [current]))

/-- What neither finds both skip. -/
theorem Copies.orReject {f : α → β} {p : Parser (Option α)} {q : Parser (Option β)}
    {k : Option α → Parser γ} {l : Option β → Parser δ} (hp : c.Copies (Option.map f) p q)
    (sp : Parser.Spares p) (sq : Parser.Spares q) {a : γ} {b : δ} (hab : W a b)
    (hr : k none = do Parser.reject; return a) (hr' : l none = do Parser.reject; return b)
    (hk : ∀ a, Evolving (k (some a))) (hl : ∀ b, Evolving (l (some b)))
    (found : ∀ a, c.Agrees W (k (some a)) (l (some (f a)))) {s t : ParserState}
    (like : c.Like s t) (ha : s.aborted = false) (he : s.current.kind ≠ .endOfFile) :
    c.Outcome W ((p >>= k) s) ((q >>= l) t) := by
  rcases hp s t like with ⟨value, like'⟩ | apart
  · rw [Parser.run_bind, Parser.run_bind, value]
    cases (p s).1 with
    | some a => exact found a _ _ like'
    | none =>
        rw [Option.map_none, hr, hr']
        exact (agrees_reject.andThen fun _ => agrees_pure hab) _ _ like'
  · have ha' : t.aborted = false := (c.aborted like).trans ha
    have he' : t.current.kind ≠ .endOfFile := by rwa [(c.token like).kind]
    exact .inr (c.apart apart (evolves_after_orReject sp hr hk ha he)
      (evolves_after_orReject sq hr' hl ha' he'))

/-- Places with the same rules, opened where it corresponds. -/
inductive PlaceLike (c : Comparison) : Place → Place → Prop
  | expression (stops : List Stop) : PlaceLike c (.expression stops) (.expression stops)
  | statements (scope : Scope) (stops : List Stop) :
      PlaceLike c (.statements scope stops) (.statements scope stops)
  | condition {a b : Span} : c.SpanLike a b → PlaceLike c (.condition a) (.condition b)

/-- The readers read every place alike. -/
class ReadersAgree (c : Comparison) (nested nested' : PlaceReader) : Prop where
  place {a b : Place} : c.PlaceLike a b → c.Copies c.reading (nested a) (nested' b)

/-- Blocks with the same statements, closed by the same stop where it corresponds. -/
def BlockLike (c : Comparison) (a b : List Node × Option (Stop × Span)) : Prop :=
  b.1 = c.nodes a.1 ∧ Option.Rel (fun x y => y.1 = x.1 ∧ c.SpanLike x.2 y.2) a.2 b.2

end Comparison

namespace Parser
open Comparison

variable {c : Comparison} (nested nested' : PlaceReader) [hn : c.ReadersAgree nested nested']

theorem expression_copies (stops : List Stop) :
    c.Copies c.nodes (expression nested stops) (expression nested' stops) :=
  Copies.bind (hn.place (.expression stops)) fun _ => agrees_pure rfl

/-- Behind its statements, a block only moves past the closer. -/
theorem evolves_closer (opener : Span) (scope : Scope) (closers : List Stop) (s : ParserState)
    {reading : Reading} {next : ParserState}
    (run : nested (.statements scope closers) { s with openers := opener :: s.openers } =
      (reading, next)) :
    Evolves { next with openers := next.openers.tail }
      (block nested opener scope closers s).2 := by
  rw [run_block, run]
  obtain ⟨body, _ | stop⟩ := reading
  · exact .refl _
  · exact .single (.advance _)

theorem block_agrees {a b : Span} (hab : c.SpanLike a b) (scope : Scope) (closers : List Stop) :
    c.Agrees c.BlockLike (block nested a scope closers) (block nested' b scope closers) := by
  intro s t like
  have inside := hn.place (.statements scope closers) _ _ (c.enterBlock hab like)
  rcases run : nested (.statements scope closers) { s with openers := a :: s.openers } with
    ⟨reading, next⟩
  rcases run' : nested' (.statements scope closers) { t with openers := b :: t.openers } with
    ⟨reading', next'⟩
  rw [run, run'] at inside
  rcases inside with ⟨rfl, like⟩ | apart
  · rw [run_block, run_block, run, run']
    obtain ⟨body, _ | stop⟩ := reading
    · exact .inl ⟨⟨rfl, .none⟩, c.leaveBlock like⟩
    · exact .inl ⟨⟨rfl, .some ⟨rfl, (c.token like).span⟩⟩, c.advance (c.leaveBlock like)⟩
  · exact .inr (c.apart (c.apart_leaveBlock apart) (evolves_closer nested a scope closers s run)
      (evolves_closer nested' b scope closers t run'))

theorem blockBody_copies {a b : Span} (hab : c.SpanLike a b) (scope : Scope)
    (closers : List Stop) :
    c.Copies c.nodes (blockBody nested a scope closers) (blockBody nested' b scope closers) :=
  (block_agrees nested nested' hab scope closers).bind fun _ _ same => agrees_pure same.1

end Parser

end MapScript
