import MapScript.Proofs.Respelling.Tokens
import MapScript.Proofs.Spelling.Clean

/-!
# Two parsers for the same program

One parser reads a list of tokens, and another one, with the same options, reads a list that is
woven from it. As long as the first finds no error the second does the same things, though not in
the same steps: it reads the comments that were put in, each by a step of its own.

There is one place where it cannot do so. In a list of arguments, items or fields a parser skips
the ends of lines but not the comments before them, and the second parser is stuck there: it
reports that something else had to come.

`Tracks` says this of two parsers that are started together, and each way to put parsers together
has its rule. What the two yield is related along with the states that they end in.
-/
namespace MapScript

/-- A second list of tokens for a program. -/
structure Respelling where
  /-- The options of both parsers. -/
  options : ParseOptions
  /-- All the tokens of the second parser. -/
  tokens : List Token
  /-- Comments may have been put in. -/
  loose : Prop
  /-- The words of blocks count when it is asked what stands between brackets. -/
  blocks : Bool

namespace Parser
variable {α β : Type}

theorem run_isAborted {p q : Parser α} {s : ParserState} (h : s.aborted = false) :
    (isAborted >>= fun aborted => if aborted then p else q) s = q s := by
  change (if s.aborted = true then p else q) s = q s
  rw [if_neg (by simp [h])]

/-- At a comment the parser reports an error. -/
def Balks (p : Parser α) : Prop :=
  ∀ s : ParserState, s.current.kind = .comment → s.aborted = false → (p s).2.errors ≠ []

theorem balks_current {k : Token → Parser α} (h : ∀ x : Token, x.kind = .comment → Balks (k x)) :
    Balks (current >>= k) := fun s hs ha => h s.current hs s hs ha

theorem balks_isAborted {p q : Parser α} (h : Balks q) :
    Balks (isAborted >>= fun aborted => if aborted then p else q) := by
  intro s hs ha
  rw [run_isAborted ha]
  exact h s hs ha

theorem balks_expected {k : Unit → Parser α} [hk : ∀ u, Evolving (k u)] (wanted : Expectation) :
    Balks (expected wanted >>= k) := fun s _ _ none =>
  errors_record_ne_nil _ s (((hk ()).evolves _).errors_eq_nil none)

theorem balks_eat {f : Token → Bool} (hf : Token.Firm f) {k : Bool → Parser α}
    (h : Balks (k false)) : Balks (eat f >>= k) := by
  intro s hs ha
  rw [run_bind, run_eat_not (hf.eq_false (by simp [hs]))]
  exact h s hs ha

theorem balks_eatOr {f : Token → Bool} (hf : Token.Firm f) {wanted : Expectation}
    {k : Unit → Parser α} [∀ u, Evolving (k u)] : Balks (eatOr wanted f >>= k) := by
  unfold eatOr
  rw [bind_assoc]
  exact balks_eat hf (balks_expected wanted)

/-- A comment is not skipped with the ends of lines. -/
theorem balks_skipLineEnds {k : Unit → Parser α} :
    Balks (skipLineEnds >>= k) ↔ Balks (k ()) := by
  refine forall_congr' fun s => imp_congr_right fun hs => imp_congr_right fun _ => ?_
  have stays : s.skipLineEnds = s := by
    have rest := s.rest_advance (by rw [hs]; decide)
    unfold ParserState.skipLineEnds
    rw [rest, List.dropWhile_cons_of_neg (by simp [hs]), ← rest]
  change (k () s.skipLineEnds).2.errors ≠ [] ↔ _
  rw [stays]

/-- Before a comment there is no expression. -/
theorem balks_expression {stops : List Stop} (hs : ∀ stop ∈ stops, stop.kind = .operator)
    {k : List Node → Parser α} (h : Balks (k [])) :
    Balks (expression Place.read stops >>= k) := by
  intro s hc ha
  have unstopped : stops.any (·.accepts s.current) = false := by
    rw [List.any_eq_false]
    intro stop hm
    simpa using (Token.firm_accepts (hs stop hm)).eq_false (x := s.current) (by simp [hc])
  have read : (Place.expression stops).read s = (([], none), s) := by
    rw [Place.read_eq]
    refine repeated_of_done ?_
    unfold expressionPass
    rw [run_get_bind, if_neg (by simp [ha]), unstopped, if_pos (by simp [Token.endsExpression, hc])]
    rfl
  have run : (expression Place.read stops >>= k) s = k [] s := by
    change k ((Place.expression stops).read s).1.1 ((Place.expression stops).read s).2 = _
    rw [read]
  rw [run]
  exact h s hc ha

end Parser

namespace Respelling
variable (c : Respelling)

/-- The token may be a comment that was put in. -/
def IsLoose (t : Token) : Prop := c.loose ∧ t.kind = .comment

/-- No comment was put in between brackets. -/
def Quiet : Prop := ∀ t ∈ between c.blocks [] c.tokens, ¬ c.IsLoose t

/-- What has to be known of the tokens: where words do not count, that no comment was put in
between brackets, and where they count, that no member has the name of one. -/
structure Covered : Prop where
  quiet : c.blocks = false → c.Quiet
  apart : c.blocks = true → c.tokens.IsChain Token.KeepsApart

/-- A comment that comes next does no harm. -/
def Open (stack : List Unclosed) : Prop := inBracket stack = false ∨ c.Quiet

/-- The parsers have found no error so far and see the same ahead, with the same open. No comment
was put in between brackets among the tokens that they have behind them. -/
structure Like (stack : List Unclosed) (s t : ParserState) : Prop where
  rest : Woven c.loose s.rest t.rest
  ahead : t.rest <:+ c.tokens
  options : s.options = c.options ∧ t.options = c.options
  frames : t.frames = s.frames
  errors : s.errors = [] ∧ t.errors = []
  aborted : s.aborted = false ∧ t.aborted = false
  behind : ∃ past, between c.blocks [] c.tokens = past ++ between c.blocks stack t.rest ∧
    ∀ x ∈ past, ¬ c.IsLoose x

/-- The same, at the tokens `x` and `y`. -/
def At (stack : List Unclosed) (x y : Token) (s t : ParserState) : Prop :=
  c.Like stack s t ∧ s.current = x ∧ t.current = y

/-- The second parser is at a comment that stands between brackets. -/
structure Stuck (_s t : ParserState) : Prop where
  comment : t.current.kind = .comment
  aborted : t.aborted = false
  noisy : ¬ c.Quiet

/-- The first parser has found an error, or the second has and a comment stands between
brackets. -/
def Failed (s t : ParserState) : Prop := s.errors ≠ [] ∨ t.errors ≠ [] ∧ ¬ c.Quiet

/-- Started together, the parsers end together or fail. -/
def Tracks {α β : Type} (P : ParserState → ParserState → Prop) (p : Parser α) (q : Parser β)
    (Q : α → β → ParserState → ParserState → Prop) : Prop :=
  ∀ s t, P s t → Q (p s).1 (q t).1 (p s).2 (q t).2 ∨ c.Failed (p s).2 (q t).2

/-- The values are related, and what is open is what is said. -/
def Ends {α β : Type} (stack : List Unclosed) (V : α → β → Prop) (a : α) (b : β)
    (s t : ParserState) : Prop :=
  V a b ∧ c.Like stack s t

variable {c} {stack : List Unclosed} {s t : ParserState}

namespace Like

theorem seen (h : c.Like stack s t) : s.current.Seen c.loose t.current := h.rest.seen_head

/-- A change that leaves alone what the parsers depend on. -/
theorem congr (h : c.Like stack s t) {s' t' : ParserState} (rest : s'.rest = s.rest)
    (rest' : t'.rest = t.rest) (options : s'.options = s.options)
    (options' : t'.options = t.options) (errors : s'.errors = s.errors)
    (errors' : t'.errors = t.errors) (aborted : s'.aborted = s.aborted)
    (aborted' : t'.aborted = t.aborted) (frames : t'.frames = s'.frames) :
    c.Like stack s' t' where
  rest := by rw [rest, rest']; exact h.rest
  ahead := by rw [rest']; exact h.ahead
  options := by rw [options, options']; exact h.options
  frames := frames
  errors := by rw [errors, errors']; exact h.errors
  aborted := by rw [aborted, aborted']; exact h.aborted
  behind := by rw [rest']; exact h.behind

/-- The second parser moves on in its tokens, past some in which no comment was put in. -/
theorem move (h : c.Like stack s t) {s' t' : ParserState} {after : List Unclosed}
    {past : List Token} (rest : Woven c.loose s'.rest t'.rest) (ahead : t'.rest <:+ t.rest)
    (options : s'.options = s.options) (options' : t'.options = t.options)
    (frames : s'.frames = s.frames) (frames' : t'.frames = t.frames)
    (errors : s'.errors = s.errors) (errors' : t'.errors = t.errors)
    (aborted : s'.aborted = s.aborted) (aborted' : t'.aborted = t.aborted)
    (passed : between c.blocks stack t.rest = past ++ between c.blocks after t'.rest)
    (tight : ∀ x ∈ past, ¬ c.IsLoose x) : c.Like after s' t' where
  rest := rest
  ahead := ahead.trans h.ahead
  options := by rw [options, options']; exact h.options
  frames := by rw [frames, frames']; exact h.frames
  errors := by rw [errors, errors']; exact h.errors
  aborted := by rw [aborted, aborted']; exact h.aborted
  behind := by
    obtain ⟨before, hb, ht⟩ := h.behind
    refine ⟨before ++ past, by rw [hb, passed, List.append_assoc], fun x hx => ?_⟩
    exact (List.mem_append.mp hx).elim (ht x) (tight x)

/-- What stands ahead between brackets stands between brackets. -/
theorem mem_between (h : c.Like stack s t) {x : Token} (hx : x ∈ between c.blocks stack t.rest) :
    x ∈ between c.blocks [] c.tokens := by
  obtain ⟨past, hp, -⟩ := h.behind
  rw [hp]
  exact List.mem_append_right past hx

end Like

/-- Past one token of the second parser. -/
theorem between_advance {blocks : Bool} (h : t.current.kind ≠ .endOfFile) :
    between blocks stack t.rest = (if inBracket stack then [t.current] else []) ++
      between blocks (openAfter blocks stack t.current) t.advance.rest := by
  rw [t.rest_advance h]
  cases hb : inBracket stack with
  | true => exact between_cons hb ..
  | false => exact between_cons_of_not hb ..

/-- A token is passed that is no comment put in between brackets. -/
theorem not_isLoose_of_open (free : c.IsLoose t.current → inBracket stack = false) :
    ∀ x ∈ (if inBracket stack then [t.current] else []), ¬ c.IsLoose x := by
  intro x hx loose
  split at hx
  · rename_i hb
    rw [List.mem_singleton.mp hx] at loose
    rw [free loose] at hb
    cases hb
  · cases hx

theorem Quiet.covered (h : c.Quiet) (hb : c.blocks = false) : c.Covered :=
  ⟨fun _ => h, fun words => Bool.noConfusion (hb.symm.trans words)⟩

theorem covered_of_apart (h : c.tokens.IsChain Token.KeepsApart) (hb : c.blocks = true) :
    c.Covered :=
  ⟨fun words => Bool.noConfusion (hb.symm.trans words), fun _ => h⟩

/-- Blocks are read where comments do no harm. -/
theorem Covered.open_entered (hc : c.Covered) {opener : Unclosed}
    (ho : opener.isBracket = false) : c.Open (entered c.blocks opener stack) := by
  cases hb : c.blocks with
  | false => exact .inr (hc.quiet hb)
  | true => exact .inl ho

namespace Like

theorem current_mem (h : c.Like stack s t) (hb : inBracket stack = true)
    (hk : t.current.kind ≠ .endOfFile) : t.current ∈ between c.blocks [] c.tokens := by
  refine h.mem_between ?_
  rw [between_advance hk, if_pos hb]
  exact List.mem_cons_self

/-- Where a comment does no harm, it stands between no brackets. -/
theorem inBracket_eq_false (h : c.Like stack s t) (ho : c.Open stack)
    (hl : c.IsLoose t.current) : inBracket stack = false := by
  refine ho.elim id fun quiet => ?_
  by_contra hb
  exact quiet _ (h.current_mem (by simpa using hb) (by rw [hl.2]; decide)) hl

theorem advance (h : c.Like stack s t) (hxy : s.current.Respelled t.current)
    (hx : s.current.kind ≠ .endOfFile) (free : c.IsLoose t.current → inBracket stack = false) :
    c.Like (openAfter c.blocks stack t.current) s.advance t.advance := by
  have hy : t.current.kind ≠ .endOfFile := by rwa [hxy.kind]
  have rest := h.rest
  rw [s.rest_advance hx, t.rest_advance hy] at rest
  exact h.move (rest.tail hxy) t.rest_advance_suffix s.options_advance t.options_advance
    s.frames_advance t.frames_advance s.errors_advance t.errors_advance s.aborted_advance
    t.aborted_advance (between_advance hy) (not_isLoose_of_open free)

/-- The second parser reads a comment that was put in, and the first one waits. -/
theorem advance_right (h : c.Like stack s t) (hx : s.current.EndsLine)
    (hy : t.current.kind = .comment) (free : c.IsLoose t.current → inBracket stack = false) :
    c.Like stack s t.advance := by
  have hk : t.current.kind ≠ .endOfFile := by rw [hy]; decide
  have passed : between c.blocks stack t.rest = _ := between_advance hk
  rw [openAfter_of_kind hy (by decide)] at passed
  have rest := h.rest
  rw [t.rest_advance hk] at rest
  exact h.move (rest.drop_comment hy hx) t.rest_advance_suffix rfl t.options_advance rfl
    t.frames_advance rfl t.errors_advance rfl t.aborted_advance passed (not_isLoose_of_open free)

theorem skipLineEnds (h : c.Like stack s t) (hb : inBracket stack = true) :
    c.Like stack s.skipLineEnds t.skipLineEnds ∨ c.Stuck s.skipLineEnds t.skipLineEnds := by
  have passed : between c.blocks stack t.rest = _ := between_skipLineEnds hb t.rest
  rcases h.rest.skipLineEnds with rest | ⟨loose, y, rest, hy, comment⟩
  · refine .inl (h.move rest (List.dropWhile_suffix _) rfl rfl rfl rfl rfl rfl rfl rfl passed
      fun x hx hl => ?_)
    have line := List.all_eq_true.mp List.all_takeWhile x hx
    rw [hl.2] at line
    cases line
  · have current : t.skipLineEnds.current = y := ParserState.current_of_rest hy
    refine .inr ⟨by rw [current, comment], h.aborted.2, fun quiet => ?_⟩
    refine quiet y (h.mem_between ?_) ⟨loose, comment⟩
    rw [passed, hy, between_cons hb]
    exact List.mem_append_right _ List.mem_cons_self

/-- A token and the one behind it, where no member has the name of a block. -/
theorem keepsApart (h : c.Like stack s t) (hc : c.Covered) (hb : c.blocks = true)
    (hk : t.current.kind ≠ .endOfFile) : t.current.KeepsApart t.advance.current := by
  have chain := (hc.apart hb).suffix h.ahead
  rw [t.rest_advance hk] at chain
  unfold ParserState.current ParserState.peek
  cases hr : t.advance.rest with
  | nil => exact ⟨fun _ => rfl, fun sign => Bool.noConfusion sign⟩
  | cons next rest =>
      rw [hr] at chain
      exact (List.isChain_cons_cons.mp chain).1

end Like

theorem Failed.mono {s' t' : ParserState} (h : c.Failed s t)
    (hs : s'.errors = [] → s.errors = []) (ht : t'.errors = [] → t.errors = []) :
    c.Failed s' t' :=
  h.imp (mt hs) (And.imp_left (mt ht))

section
variable {α β γ δ : Type} {P P' : ParserState → ParserState → Prop}
  {p : Parser α} {q : Parser β} {k : α → Parser γ} {l : β → Parser δ}
  {R : α → β → ParserState → ParserState → Prop} {Q : γ → δ → ParserState → ParserState → Prop}
  {V : α → β → Prop}

/-- An error of the first parser ends the comparison. -/
theorem tracks_of_errors {q : Parser δ} {p : Parser γ} (h : ∀ s, (p s).2.errors ≠ []) :
    c.Tracks P p q Q := fun s _ _ => .inr (.inl (h s))

theorem tracks_expected {k : Unit → Parser γ} [hk : ∀ u, Evolving (k u)] (wanted : Expectation)
    {q : Parser δ} : c.Tracks P (Parser.expected wanted >>= k) q Q :=
  tracks_of_errors fun s none =>
    Parser.errors_record_ne_nil _ s (((hk ()).evolves _).errors_eq_nil none)

theorem tracks_of_balks {p : Parser γ} {q : Parser δ} (h : Parser.Balks q) :
    c.Tracks c.Stuck p q Q :=
  fun _ t stuck => .inr (.inr ⟨h t stuck.comment stuck.aborted, stuck.noisy⟩)

theorem Tracks.mono {p : Parser γ} {q : Parser δ} {Q' : γ → δ → ParserState → ParserState → Prop}
    (h : c.Tracks P' p q Q') (pre : ∀ s t, P s t → P' s t)
    (post : ∀ a b s t, Q' a b s t → Q a b s t) : c.Tracks P p q Q :=
  fun s t hp => (h s t (pre s t hp)).imp_left (post _ _ _ _)

theorem tracks_pure {a : γ} {b : δ} (h : ∀ s t, P s t → Q a b s t) :
    c.Tracks P (pure a : Parser γ) (pure b : Parser δ) Q :=
  fun s t hp => .inl (h s t hp)

theorem tracks_bind_of (hk : ∀ a s, (k a s).2.errors = [] → s.errors = [])
    (hl : ∀ b t, (l b t).2.errors = [] → t.errors = []) (hp : c.Tracks P p q R)
    (h : ∀ a b, c.Tracks (R a b) (k a) (l b) Q) : c.Tracks P (p >>= k) (q >>= l) Q := by
  intro s t start
  rw [Parser.run_bind, Parser.run_bind]
  rcases hp s t start with mid | failed
  · exact h _ _ _ _ mid
  · exact .inr (failed.mono (hk _ _) (hl _ _))

theorem tracks_bind [∀ a, Evolving (k a)] [∀ b, Evolving (l b)] (hp : c.Tracks P p q R)
    (h : ∀ a b, c.Tracks (R a b) (k a) (l b) Q) : c.Tracks P (p >>= k) (q >>= l) Q :=
  tracks_bind_of Parser.errors_kept Parser.errors_kept hp h

/-- The second parts know that the values are related. -/
theorem tracks_then_of (hk : ∀ a, Evolving (k a)) (hl : ∀ b, Evolving (l b))
    (hp : c.Tracks P p q (c.Ends stack V))
    (h : ∀ a b, V a b → c.Tracks (c.Like stack) (k a) (l b) Q) :
    c.Tracks P (p >>= k) (q >>= l) Q :=
  tracks_bind hp fun a b s t ends => h a b ends.1 s t ends.2

theorem tracks_then [hk : ∀ a, Evolving (k a)] [hl : ∀ b, Evolving (l b)]
    (hp : c.Tracks P p q (c.Ends stack V))
    (h : ∀ a b, V a b → c.Tracks (c.Like stack) (k a) (l b) Q) :
    c.Tracks P (p >>= k) (q >>= l) Q :=
  tracks_then_of hk hl hp h

theorem tracks_map {f : α → γ} {g : β → δ} {W : γ → δ → Prop}
    (hp : c.Tracks P p q (c.Ends stack V)) (h : ∀ a b, V a b → W (f a) (g b)) :
    c.Tracks P (p >>= fun a => pure (f a)) (q >>= fun b => pure (g b)) (c.Ends stack W) :=
  fun s t start => (hp s t start).imp_left fun ends => ⟨h _ _ ends.1, ends.2⟩

/-- What may be found is found by both or by neither. -/
theorem tracks_option {p : Parser (Option α)} {q : Parser (Option β)} {k : Option α → Parser γ}
    {l : Option β → Parser δ} [hk : ∀ a, Evolving (k (some a))] [hk' : Evolving (k none)]
    [hl : ∀ b, Evolving (l (some b))] [hl' : Evolving (l none)]
    (hp : c.Tracks P p q (c.Ends stack (Option.Rel V)))
    (found : ∀ a b, V a b → c.Tracks (c.Like stack) (k (some a)) (l (some b)) Q)
    (nothing : c.Tracks (c.Like stack) (k none) (l none) Q) :
    c.Tracks P (p >>= k) (q >>= l) Q := by
  have (a : Option α) : Evolving (k a) := by cases a with | none => exact hk' | some a => exact hk a
  have (b : Option β) : Evolving (l b) := by cases b with | none => exact hl' | some b => exact hl b
  refine tracks_then hp fun a b hab => ?_
  cases hab with
  | none => exact nothing
  | some hab => exact found _ _ hab

theorem tracks_ite {d d' : Prop} [Decidable d] [Decidable d'] {p p' : Parser γ} {q q' : Parser δ}
    (same : d' ↔ d) (yes : d → c.Tracks P p q Q) (no : ¬ d → c.Tracks P p' q' Q) :
    c.Tracks P (if d then p else p') (if d' then q else q') Q := by
  by_cases hd : d
  · rw [if_pos hd, if_pos (same.mpr hd)]
    exact yes hd
  · rw [if_neg hd, if_neg (mt same.mp hd)]
    exact no hd

/-- The values found by both parsers, if the first has found one. -/
def Found {α β : Type} (R : α → β → ParserState → ParserState → Prop) :
    Option α → Option β → ParserState → ParserState → Prop
  | some a, some b => R a b
  | some _, none => fun _ _ => False
  | none, _ => fun _ _ => True

theorem tracks_none {q : Parser (Option β)} :
    c.Tracks P (pure none : Parser (Option α)) q (Found R) := fun _ _ _ => .inl trivial

/-- Where the first parser has found nothing it skips a token, with an error. -/
theorem tracks_orReject {p : Parser (Option α)} {q : Parser (Option β)}
    {k : Option α → Parser γ} {l : Option β → Parser δ} {a : γ} {b : δ}
    (hr : k none = do Parser.reject; return a) (hr' : l none = do Parser.reject; return b)
    (hk : ∀ a, Evolving (k (some a))) (hl : ∀ b, Evolving (l (some b)))
    (hp : c.Tracks P p q (Found R)) (h : ∀ a b, c.Tracks (R a b) (k (some a)) (l (some b)) Q) :
    c.Tracks P (p >>= k) (q >>= l) Q := by
  refine tracks_bind_of (Parser.errors_kept_orReject hr hk) (Parser.errors_kept_orReject hr' hl)
    hp fun found found' => ?_
  cases found with
  | none =>
      rw [hr]
      exact tracks_of_errors Parser.errors_reject_ne_nil
  | some a =>
      cases found' with
      | none => exact fun _ _ none => none.elim
      | some b => exact h a b

section
variable {k : Token → Parser γ} {l : Token → Parser δ} {x y : Token}

/-- What can be done without a look at the tokens can be done at any tokens. -/
theorem Tracks.at {p : Parser γ} {q : Parser δ} (h : c.Tracks (c.Like stack) p q Q) :
    c.Tracks (c.At stack x y) p q Q :=
  h.mono (fun _ _ here => here.1) fun _ _ _ _ => id

theorem tracks_at {p : Parser γ} {q : Parser δ}
    (h : ∀ x y, x.Seen c.loose y → c.Tracks (c.At stack x y) p q Q) :
    c.Tracks (c.Like stack) p q Q :=
  fun s t like => h s.current t.current like.seen s t ⟨like, rfl, rfl⟩

theorem tracks_current_at (h : c.Tracks (c.At stack x y) (k x) (l y) Q) :
    c.Tracks (c.At stack x y) (Parser.current >>= k) (Parser.current >>= l) Q := by
  rintro s t ⟨like, rfl, rfl⟩
  exact h s t ⟨like, rfl, rfl⟩

theorem tracks_current (h : ∀ x y, x.Seen c.loose y → c.Tracks (c.At stack x y) (k x) (l y) Q) :
    c.Tracks (c.Like stack) (Parser.current >>= k) (Parser.current >>= l) Q :=
  tracks_at fun x y seen => tracks_current_at (h x y seen)

end

theorem tracks_get {k : ParserState → Parser γ} {l : ParserState → Parser δ}
    (h : ∀ s t, P s t → c.Tracks P (k s) (l t) Q) : c.Tracks P (get >>= k) (get >>= l) Q :=
  fun s t start => h s t start s t start

theorem tracks_isAborted {p p' : Parser γ} {q q' : Parser δ}
    (aborted : ∀ s t, P s t → s.aborted = false ∧ t.aborted = false) (h : c.Tracks P p' q' Q) :
    c.Tracks P (Parser.isAborted >>= fun aborted => if aborted then p else p')
      (Parser.isAborted >>= fun aborted => if aborted then q else q') Q := by
  intro s t start
  obtain ⟨hs, ht⟩ := aborted s t start
  rw [Parser.run_isAborted hs, Parser.run_isAborted ht]
  exact h s t start

section
variable {k : Unit → Parser γ} {l : Unit → Parser δ} {x y : Token} {e : List Unclosed}

theorem tracks_advance (hxy : x.Respelled y) (hx : x.kind ≠ .endOfFile)
    (free : c.IsLoose y → inBracket stack = false) (hd : openAfter c.blocks stack y = e)
    (h : c.Tracks (c.Like e) (k ()) (l ()) Q) :
    c.Tracks (c.At stack x y) (Parser.advance >>= k) (Parser.advance >>= l) Q := by
  rintro s t ⟨like, rfl, rfl⟩
  exact h _ _ (hd ▸ like.advance hxy hx free)

/-- Past a token whose kind says that it is no line end and no comment. -/
theorem tracks_take {kind : TokenKind} (seen : x.Seen c.loose y) (hk : x.kind = kind)
    (solid : kind ∉ [.endOfLine, .endOfFile, .comment]) (hd : openAfter c.blocks stack y = e)
    (h : c.Tracks (c.Like e) (k ()) (l ()) Q) :
    c.Tracks (c.At stack x y) (Parser.advance >>= k) (Parser.advance >>= l) Q := by
  simp only [List.mem_cons, List.not_mem_nil, or_false, not_or] at solid
  have hxy := seen.respelled_of (Token.not_endsLine_of_kind hk (by simp [solid.1, solid.2.1]))
  refine tracks_advance hxy (hk ▸ solid.2.1) (fun loose => ?_) hd h
  exact absurd (hk.symm.trans (hxy.kind.symm.trans loose.2)) solid.2.2

end

section
variable {f : Token → Bool} (hf : Token.Firm f) {e : List Unclosed}
  (hd : ∀ t, f t = true → openAfter c.blocks stack t = e)
include hf

/-- Both parsers are past a token, or at one that is no such token. -/
theorem tracks_eat_of {k : Bool → Parser γ} {l : Bool → Parser δ}
    (past : ∀ s t, c.Like stack s t → f t.current = true → t.current.kind ≠ .endOfFile →
      c.Like (openAfter c.blocks stack t.current) s.advance t.advance → P s.advance t.advance)
    (yes : c.Tracks P (k true) (l true) Q)
    (no : c.Tracks (c.Like stack) (k false) (l false) Q) :
    c.Tracks (c.Like stack) (Parser.eat f >>= k) (Parser.eat f >>= l) Q := by
  refine tracks_at fun x y seen => ?_
  have same := hf.seen seen
  rintro s t ⟨like, rfl, rfl⟩
  cases hx : f s.current with
  | false =>
      rw [Parser.run_bind, Parser.run_bind, Parser.run_eat_not hx,
        Parser.run_eat_not (same.trans hx)]
      exact no s t like
  | true =>
      have hy := same.trans hx
      have run {ε : Type} {k : Bool → Parser ε} {s : ParserState} (hs : f s.current = true) :
          (Parser.eat f >>= k) s = k true s.advance := by
        change ((if f s.current = true then _ else _ : Parser Bool) >>= k) s = _
        rw [if_pos hs]
        rfl
      rw [run hx, run hy]
      refine yes _ _ (past s t like hy (hf.kind_ne hy).1 ?_)
      refine like.advance (seen.respelled_of (hf.not_endsLine hx)) (hf.kind_ne hx).1 fun loose => ?_
      exact absurd loose.2 (hf.kind_ne hy).2

include hd

theorem tracks_eat {k : Bool → Parser γ} {l : Bool → Parser δ}
    (yes : c.Tracks (c.Like e) (k true) (l true) Q)
    (no : c.Tracks (c.Like stack) (k false) (l false) Q) :
    c.Tracks (c.Like stack) (Parser.eat f >>= k) (Parser.eat f >>= l) Q :=
  tracks_eat_of hf (fun _ _ _ hy _ next => hd _ hy ▸ next) yes no

theorem tracks_ifEat {p p' : Parser γ} {q q' : Parser δ} (yes : c.Tracks (c.Like e) p q Q)
    (no : c.Tracks (c.Like stack) p' q' Q) :
    c.Tracks (c.Like stack) (Parser.eat f >>= fun eaten => if eaten then p else p')
      (Parser.eat f >>= fun eaten => if eaten then q else q') Q :=
  tracks_eat hf hd yes no

theorem tracks_eatOr {wanted : Expectation} {k : Unit → Parser γ} {l : Unit → Parser δ}
    [∀ u, Evolving (k u)] (h : c.Tracks (c.Like e) (k ()) (l ()) Q) :
    c.Tracks (c.Like stack) (Parser.eatOr wanted f >>= k) (Parser.eatOr wanted f >>= l) Q := by
  have split {ε : Type} {k : Unit → Parser ε} : Parser.eatOr wanted f >>= k =
      Parser.eat f >>= fun b => (if !b then Parser.expected wanted else pure ()) >>= k := by
    unfold Parser.eatOr
    rw [bind_assoc]
  rw [split, split]
  exact tracks_eat hf hd h (tracks_expected wanted)

end

/-- A member operator, and then a name that is no word of a block where these count. -/
theorem tracks_ifMember (hc : c.Covered) {k : Token → Parser γ} {l : Token → Parser δ}
    {p : Parser γ} {q : Parser δ}
    (yes : ∀ x y, x.Seen c.loose y → (c.blocks = true → y.isBlockWord = false) →
      c.Tracks (c.At stack x y) (k x) (l y) Q)
    (no : c.Tracks (c.Like stack) p q Q) :
    c.Tracks (c.Like stack)
      (Parser.eat (fun t => t.isOperator "." || t.isOperator "->") >>= fun eaten =>
        if eaten then Parser.current >>= k else p)
      (Parser.eat (fun t => t.isOperator "." || t.isOperator "->") >>= fun eaten =>
        if eaten then Parser.current >>= l else q) Q := by
  refine tracks_eat_of (P := fun s t => c.Like stack s t ∧
    (c.blocks = true → t.current.isBlockWord = false)) (.or (.operator ".") (.operator "->"))
    (fun s t like hy hk next => ⟨?_, fun hb => (like.keepsApart hc hb hk).1 hy⟩) ?_ no
  · have stays : openAfter c.blocks stack t.current = stack := by
      rcases (Bool.or_eq_true _ _).mp hy with hy | hy <;>
        exact openAfter_of_isOperator hy (by decide) (by decide) (by decide)
    rwa [stays] at next
  · rintro s t ⟨like, plain⟩
    exact tracks_current_at (yes _ _ like.seen plain) s t ⟨like, rfl, rfl⟩

/-- A key and the sign after it. The key is no word of a block where these count. -/
theorem tracks_key (hc : c.Covered) {x y : Token} (hxy : x.Respelled y)
    (hk : y.kind.isFieldName) {wanted : Expectation} {k : Unit → Parser γ} {l : Unit → Parser δ}
    [∀ u, Evolving (k u)] (h : c.Tracks (c.Like stack) (k ()) (l ()) Q) :
    c.Tracks (c.At stack x y)
      (Parser.advance >>= fun _ =>
        Parser.eatOr wanted (fun t => t.isOperator ":" || t.isOperator "=") >>= k)
      (Parser.advance >>= fun _ =>
        Parser.eatOr wanted (fun t => t.isOperator ":" || t.isOperator "=") >>= l) Q := by
  have firm : Token.Firm fun t => t.isOperator ":" || t.isOperator "=" :=
    .or (.operator ":") (.operator "=")
  have sign : c.Tracks (c.Like stack)
      (Parser.eatOr wanted (fun t => t.isOperator ":" || t.isOperator "=") >>= k)
      (Parser.eatOr wanted (fun t => t.isOperator ":" || t.isOperator "=") >>= l) Q := by
    refine tracks_eatOr firm (fun t ht => ?_) h
    rcases (Bool.or_eq_true _ _).mp ht with ht | ht <;>
      exact openAfter_of_isOperator ht (by decide) (by decide) (by decide)
  rintro s t ⟨like, rfl, rfl⟩
  have hy : t.current.kind ≠ .endOfFile := by
    intro he
    rw [he] at hk
    cases hk
  have next := like.advance hxy (by rwa [← hxy.kind]) fun loose => by
    rw [loose.2] at hk
    cases hk
  by_cases stays : openAfter c.blocks stack t.current = stack
  · rw [stays] at next
    exact sign s.advance t.advance next
  · -- The key is a word of a block, so no sign comes after it and the first parser finds an error.
    have plain :
        (t.advance.current.isOperator ":" || t.advance.current.isOperator "=") = false := by
      by_contra found
      exact stays (openAfter_member hk fun hb =>
        (like.keepsApart hc hb hy).2 ((Bool.not_eq_false _).mp found))
    refine .inr (.inl fun none => ?_)
    have run : Parser.eat (fun t => t.isOperator ":" || t.isOperator "=") (Parser.advance s).2 =
        (false, s.advance) := Parser.run_eat_not ((firm.seen next.seen).symm.trans plain)
    unfold Parser.eatOr at none
    rw [Parser.run_bind, bind_assoc, Parser.run_bind, run] at none
    exact Parser.errors_record_ne_nil _ s.advance (Parser.errors_kept (k := k) () _ none)

section
variable {word : String} (hw : ∀ w ∈ "end" :: ownClosers, sameWord w word = false)
  (unfenced : wordFence? (lowerWord word) = none)
include hw unfenced

theorem tracks_eatKeyword {k : Bool → Parser γ} {l : Bool → Parser δ}
    (yes : c.Tracks (c.Like stack) (k true) (l true) Q)
    (no : c.Tracks (c.Like stack) (k false) (l false) Q) :
    c.Tracks (c.Like stack) (Parser.eatKeyword word >>= k) (Parser.eatKeyword word >>= l) Q :=
  tracks_eat (.keyword hw) (fun _ ht => openAfter_of_isKeyword ht unfenced) yes no

theorem tracks_eatKeywordOr {wanted : Expectation} {k : Unit → Parser γ} {l : Unit → Parser δ}
    [∀ u, Evolving (k u)] (h : c.Tracks (c.Like stack) (k ()) (l ()) Q) :
    c.Tracks (c.Like stack) (Parser.eatOr wanted (·.isKeyword word) >>= k)
      (Parser.eatOr wanted (·.isKeyword word) >>= l) Q :=
  tracks_eatOr (.keyword hw) (fun _ ht => openAfter_of_isKeyword ht unfenced) h

theorem tracks_ifKeyword {p p' : Parser γ} {q q' : Parser δ}
    (yes : c.Tracks (c.Like stack) p q Q) (no : c.Tracks (c.Like stack) p' q' Q) :
    c.Tracks (c.Like stack) (Parser.eatKeyword word >>= fun eaten => if eaten then p else p')
      (Parser.eatKeyword word >>= fun eaten => if eaten then q else q') Q :=
  tracks_eatKeyword hw unfenced yes no

end

theorem tracks_ifOperator {symbol : String} (letterless : isLetterless symbol)
    (hl : symbol ≠ "[") (hr : symbol ≠ "]") {p p' : Parser γ} {q q' : Parser δ}
    (yes : c.Tracks (c.Like stack) p q Q) (no : c.Tracks (c.Like stack) p' q' Q) :
    c.Tracks (c.Like stack) (Parser.eatOperator symbol >>= fun eaten => if eaten then p else p')
      (Parser.eatOperator symbol >>= fun eaten => if eaten then q else q') Q :=
  tracks_ifEat (.operator symbol) (fun _ ht => openAfter_of_isOperator ht letterless hl hr) yes no

theorem tracks_name {k : String → Parser γ} {l : String → Parser δ} [∀ word, Evolving (k word)]
    (h : ∀ word, c.Tracks (c.Like stack) (k word) (l word) Q) :
    c.Tracks (c.Like stack) (Parser.name >>= k) (Parser.name >>= l) Q := by
  unfold Parser.name
  rw [bind_assoc, bind_assoc]
  refine tracks_current fun x y seen => ?_
  by_cases hx : x.kind = .identifier
  · have hxy := seen.respelled_of (Token.not_endsLine_of_kind hx (by decide))
    have hy : y.kind = .identifier := hxy.kind.trans hx
    rw [if_pos hx, if_pos hy, bind_assoc, bind_assoc, hxy.word_eq (by rw [hx]; decide)]
    exact tracks_take seen hx (by decide) (openAfter_of_kind hy (by decide)) (h x.word)
  · rw [if_neg hx, bind_assoc]
    exact tracks_expected .name

/-- Nothing is left of a header line, for either parser. -/
theorem tracks_skipToLineEnd {k : Unit → Parser γ} {l : Unit → Parser δ} [∀ u, Evolving (k u)]
    (h : c.Tracks (c.Like stack) (k ()) (l ()) Q) :
    c.Tracks (c.Like stack) (Parser.skipToLineEnd >>= k) (Parser.skipToLineEnd >>= l) Q := by
  have stays {s : ParserState} (hs : s.current.kind ∈ [.endOfLine, .endOfFile, .comment]) :
      Parser.skipToLineEnd s = ((), s) := by
    unfold Parser.skipToLineEnd
    refine Parser.repeated_of_done ?_
    unfold Parser.headerPass
    rw [Parser.run_get_bind, if_pos (by simp only [hs, decide_true, Bool.or_true])]
    rfl
  refine tracks_at fun x y seen => ?_
  rintro s t ⟨like, rfl, rfl⟩
  by_cases hs : s.current.kind ∈ [.endOfLine, .endOfFile, .comment]
  · have ht : t.current.kind ∈ [.endOfLine, .endOfFile, .comment] := by
      cases seen with
      | respelled hxy => rwa [hxy.kind]
      | comment _ _ hy => simp [hy]
    rw [Parser.run_bind, Parser.run_bind, stays hs, stays ht]
    exact h s t like
  · -- The first parser would have to skip something.
    have run : Parser.headerPass () s = (.again (), s.reject) := by
      unfold Parser.headerPass
      rw [Parser.run_get_bind, if_neg (by simp only [hs, like.aborted.1]; decide)]
      rfl
    refine .inr (.inl fun none => ?_)
    have evolves := Parser.evolves_repeated Parser.headerPass () s
    rw [run] at evolves
    have before := Parser.errors_kept (k := k) _ _ none
    exact Parser.errors_reject_ne_nil s (evolves.errors_eq_nil before)

theorem tracks_skipLineEnds {k : Unit → Parser γ} {l : Unit → Parser δ}
    (hb : inBracket stack = true) (h : c.Tracks (c.Like stack) (k ()) (l ()) Q)
    (stuck : c.Tracks c.Stuck (k ()) (l ()) Q) :
    c.Tracks (c.Like stack) (Parser.skipLineEnds >>= k) (Parser.skipLineEnds >>= l) Q := by
  intro s t like
  rcases like.skipLineEnds hb with like | halted
  · exact h _ _ like
  · exact stuck _ _ halted

theorem tracks_markAsync {k : Unit → Parser γ} {l : Unit → Parser δ}
    (h : c.Tracks (c.Like stack) (k ()) (l ()) Q) :
    c.Tracks (c.Like stack) ((modify ParserState.markAsync : Parser Unit) >>= k)
      ((modify ParserState.markAsync : Parser Unit) >>= l) Q := by
  intro s t like
  refine h _ _ (like.congr s.rest_markAsync t.rest_markAsync s.options_markAsync
    t.options_markAsync s.errors_markAsync t.errors_markAsync s.aborted_markAsync
    t.aborted_markAsync ?_)
  unfold ParserState.markAsync
  rw [like.frames]
  cases hf : s.frames with
  | nil => exact like.frames
  | cons _ _ => rfl

theorem tracks_note {k : Unit → Parser γ} {l : Unit → Parser δ} {event event' : ParseEvent}
    {x y : Token} (h : c.Tracks (c.At stack x y) (k ()) (l ()) Q) :
    c.Tracks (c.At stack x y) ((modify (ParserState.note event) : Parser Unit) >>= k)
      ((modify (ParserState.note event') : Parser Unit) >>= l) Q := by
  rintro s t ⟨like, hx, hy⟩
  exact h (s.note event) (t.note event')
    ⟨like.congr rfl rfl rfl rfl rfl rfl rfl rfl like.frames, hx, hy⟩

/-- Both frames wait, or neither does. -/
theorem tracks_framed {k : α × Bool → Parser γ} {l : β × Bool → Parser δ}
    [∀ a, Evolving (k a)] [∀ b, Evolving (l b)] {after : List Unclosed}
    (h : c.Tracks (c.Like stack) p q (c.Ends after V))
    (h' : ∀ a b isAsync, V a b → c.Tracks (c.Like after) (k (a, isAsync)) (l (b, isAsync)) Q) :
    c.Tracks (c.Like stack) (Parser.framed p >>= k) (Parser.framed q >>= l) Q := by
  have framed : c.Tracks (c.Like stack) (Parser.framed p) (Parser.framed q)
      (c.Ends after fun a b => V a.1 b.1 ∧ b.2 = a.2) := by
    intro s t like
    rw [Parser.run_framed, Parser.run_framed]
    have frames : false :: t.frames = false :: s.frames := by rw [like.frames]
    have inside := h { s with frames := false :: s.frames } { t with frames := false :: t.frames }
      (like.congr rfl rfl rfl rfl rfl rfl rfl rfl frames)
    refine inside.imp_left fun ends => ⟨⟨ends.1, ?_⟩, ?_⟩
    · rw [ends.2.frames]
    · exact ends.2.congr rfl rfl rfl rfl rfl rfl rfl rfl (by rw [ends.2.frames])
  refine tracks_then framed ?_
  rintro ⟨a, isAsync⟩ ⟨b, isAsync'⟩ ⟨hab, rfl⟩
  exact h' a b isAsync' hab

/-- Both passes ask for another one and `I` holds, or both are done and `R` holds. -/
def BothPasses {α β : Type} (I R : α → β → ParserState → ParserState → Prop) :
    Parser.Pass α → Parser.Pass β → ParserState → ParserState → Prop
  | .again a, .again b => I a b
  | .done a, .done b => R a b
  | _, _ => fun _ _ => False

/-- The second parser may take passes of its own in between. -/
theorem tracks_repeated_of {pass : α → Parser (Parser.Pass α)}
    {pass' : β → Parser (Parser.Pass β)} [∀ a, Evolving (pass a)] [∀ b, Evolving (pass' b)]
    (ahead : ∀ a, Parser.Ahead Parser.Pass.GoesOn (pass a))
    (ahead' : ∀ b, Parser.Ahead Parser.Pass.GoesOn (pass' b))
    {I : α → β → ParserState → ParserState → Prop}
    (h : ∀ a b s t, I a b s t →
      (∃ b', (pass' b t).1 = .again b' ∧ I a b' s (pass' b t).2) ∨
      BothPasses I R (pass a s).1 (pass' b t).1 (pass a s).2 (pass' b t).2 ∨
      c.Failed (pass a s).2 (pass' b t).2) (a : α) (b : β) :
    c.Tracks (I a b) (Parser.repeated pass a) (Parser.repeated pass' b) R := by
  intro s t start
  -- The second parser has fewer tokens left with every pass.
  induction hn : t.rest.length using Nat.strongRecOn generalizing a b s t with
  | ind n ih =>
      subst hn
      have step := h a b s t start
      have after := Parser.evolves_repeated pass a s
      have after' := Parser.evolves_repeated pass' b t
      have lt := ahead a s
      have lt' := ahead' b t
      rcases run : pass a s with ⟨value, next⟩
      rcases run' : pass' b t with ⟨value', next'⟩
      rw [run] at step after lt
      rw [run'] at step after' lt'
      rcases step with ⟨b', rfl, kept⟩ | both | failed
      · rw [Parser.repeated_of_again run' (lt' trivial)]
        exact ih _ (lt' trivial) a b' s next' kept rfl
      · cases value with
        | done a' =>
            cases value' with
            | again b' => exact both.elim
            | done b' =>
                rw [Parser.repeated_of_done run, Parser.repeated_of_done run']
                exact .inl both
        | again a' =>
            cases value' with
            | done b' => exact both.elim
            | again b' =>
                rw [Parser.repeated_of_again run (lt trivial),
                  Parser.repeated_of_again run' (lt' trivial)]
                exact ih _ (lt' trivial) a' b' next next' both rfl
      · exact .inr (failed.mono after.errors_eq_nil after'.errors_eq_nil)

theorem tracks_repeated {pass : α → Parser (Parser.Pass α)} {pass' : β → Parser (Parser.Pass β)}
    [∀ a, Evolving (pass a)] [∀ b, Evolving (pass' b)]
    (ahead : ∀ a, Parser.Ahead Parser.Pass.GoesOn (pass a))
    (ahead' : ∀ b, Parser.Ahead Parser.Pass.GoesOn (pass' b))
    {I : α → β → ParserState → ParserState → Prop}
    (h : ∀ a b, c.Tracks (I a b) (pass a) (pass' b) (BothPasses I R)) (a : α) (b : β) :
    c.Tracks (I a b) (Parser.repeated pass a) (Parser.repeated pass' b) R :=
  tracks_repeated_of ahead ahead' (fun a b s t start => .inr (h a b s t start)) a b

end

end Respelling

end MapScript
