import MapScript.Proofs.Unrolling
import MapScript.Proofs.Waiting

/-!
# Parsers that take what they are given

A parser takes tokens when, wherever these stand before what follows, it moves past them and past
nothing else, gives the value that is said, and finds nothing wrong. Each rule below goes one step
into a block: it says what the step takes, and leaves the rest of the block with the rest of the
tokens.

What a parser does to the frames is not said again here; that follows from the nodes it yields.
-/
namespace MapScript

/-- The first token; where there is none, the end of file. -/
def front (ts : List Token) : Token := ts.head?.getD .noMore

@[simp] theorem front_cons (t : Token) (ts : List Token) : front (t :: ts) = t := rfl

theorem ParserState.current_eq (s : ParserState) : s.current = front s.rest := by
  unfold current peek front
  rw [List.head?_eq_getElem?]

theorem ParserState.peek_one (s : ParserState) : s.peek 1 = front s.rest.tail := by
  unfold peek front
  rw [List.head?_eq_getElem?, List.getElem?_tail]

/-- A state from which a program with types and without instructions is read. -/
structure ParserState.Quiet (s : ParserState) : Prop where
  going : s.aborted = false
  types : s.options.types = true
  asm : s.options.asm = false
  plain : PlainOperators s.rest
  framed : s.frames ≠ []

/-- From `s` to `t` the parser has moved to the tokens `after`, and found nothing wrong. -/
structure Moves (s t : ParserState) (after : List Token) : Prop where
  rest : t.rest = after
  options : t.options = s.options
  openers : t.openers = s.openers
  aborted : t.aborted = s.aborted
  errors : t.errors = s.errors
  framed : t.frames ≠ []

/-- The parser takes the tokens `ts` before `after`, with this value. -/
def Takes {α : Type} (p : Parser α) (ts after : List Token) (a : α) : Prop :=
  ∀ s : ParserState, s.Quiet → s.rest = ts ++ after → (p s).1 = a ∧ Moves s (p s).2 after

theorem Moves.trans {s t u : ParserState} {mid after : List Token} (h : Moves s t mid)
    (h' : Moves t u after) : Moves s u after where
  rest := h'.rest
  options := h'.options.trans h.options
  openers := h'.openers.trans h.openers
  aborted := h'.aborted.trans h.aborted
  errors := h'.errors.trans h.errors
  framed := h'.framed

theorem Moves.quiet {s t : ParserState} {ts after : List Token} (h : Moves s t after)
    (hs : s.Quiet) (hr : s.rest = ts ++ after) : t.Quiet where
  going := h.aborted.trans hs.going
  types := by rw [h.options, hs.types]
  asm := by rw [h.options, hs.asm]
  plain token ht := hs.plain token (by rw [hr]; rw [h.rest] at ht; simp [ht])
  framed := h.framed

namespace Takes
variable {α β : Type} {p : Parser α} {ts us after : List Token} {a : α} {b : β} {t : Token}

theorem bind {k : α → Parser β} (hp : Takes p ts (us ++ after) a) (hk : Takes (k a) us after b) :
    Takes (p >>= k) (ts ++ us) after b := by
  intro s hs hr
  rw [List.append_assoc] at hr
  obtain ⟨value, moves⟩ := hp s hs hr
  obtain ⟨value', moves'⟩ := hk (p s).2 (moves.quiet hs hr) moves.rest
  rw [← value] at value' moves'
  exact ⟨value', moves.trans moves'⟩

theorem pure (a : α) : Takes (Pure.pure a) [] after a := by
  intro s hs hr
  exact ⟨rfl, hr, rfl, rfl, rfl, rfl, hs.framed⟩

/-- What comes after `p` takes nothing. -/
theorem andThen {k : α → Parser β} (hp : Takes p ts after a) (hk : Takes (k a) [] after b) :
    Takes (p >>= k) ts after b := by
  have h := Takes.bind hp hk
  rwa [List.append_nil] at h

/-- The value of `p` is changed in the end. -/
theorem map {f : α → β} (hp : Takes p ts after a) :
    Takes (p >>= fun x => Pure.pure (f x)) ts after (f a) := by
  intro s hs hr
  obtain ⟨value, moves⟩ := hp s hs hr
  exact ⟨congrArg f value, moves⟩

theorem yes {q : Parser α} (h : Takes p ts after a) :
    Takes (if true = true then p else q) ts after a := h

theorem no {q : Parser α} (h : Takes q ts after a) :
    Takes (if false = true then p else q) ts after a := h

theorem get {k : ParserState → Parser β}
    (hk : ∀ s : ParserState, s.Quiet → s.rest = ts ++ after → Takes (k s) ts after b) :
    Takes (MonadState.get >>= k) ts after b :=
  fun s hs hr => hk s hs hr s hs hr

theorem current {k : Token → Parser β} (hk : Takes (k (front (ts ++ after))) ts after b) :
    Takes (Parser.current >>= k) ts after b := by
  intro s hs hr
  have h := hk s hs hr
  rw [← hr, ← s.current_eq] at h
  exact h

theorem isAborted {k : Bool → Parser β} (hk : Takes (k false) ts after b) :
    Takes (Parser.isAborted >>= k) ts after b := by
  intro s hs hr
  have h := hk s hs hr
  rw [← hs.going] at h
  exact h

end Takes

theorem ParserState.moves_advance {s : ParserState} {t : Token} {ts : List Token} (hs : s.Quiet)
    (hr : s.rest = t :: ts) (ht : t.kind ≠ .endOfFile) : Moves s s.advance ts := by
  have hc : s.current = t := by rw [s.current_eq, hr]; rfl
  have ha : s.advance = { s with rest := ts } := by
    unfold ParserState.advance
    rw [hc, if_neg ht, hr]
    rfl
  rw [ha]
  exact ⟨rfl, rfl, rfl, rfl, rfl, hs.framed⟩

namespace Takes
variable {α β : Type} {p : Parser α} {ts us after : List Token} {a : α} {b : β} {t : Token}

theorem advance {k : Unit → Parser β} (ht : t.kind ≠ .endOfFile) (hk : Takes (k ()) ts after b) :
    Takes (Parser.advance >>= k) (t :: ts) after b := by
  intro s hs hr
  have hr : s.rest = [t] ++ (ts ++ after) := hr
  have moves := s.moves_advance hs hr ht
  obtain ⟨value, moves'⟩ := hk s.advance (moves.quiet hs hr) moves.rest
  exact ⟨value, moves.trans moves'⟩

/-- A change to what is not said of the state. -/
theorem modify {g : ParserState → ParserState} {k : Unit → Parser β}
    (hg : ∀ s : ParserState, s.Quiet → Moves s (g s) s.rest) (hk : Takes (k ()) ts after b) :
    Takes (MonadStateOf.modifyGet (fun s => ((), g s)) >>= k) ts after b := by
  intro s hs hr
  have moves := hg s hs
  have hr : s.rest = [] ++ (ts ++ after) := hr
  rw [hr] at moves
  obtain ⟨value, moves'⟩ := hk (g s) (moves.quiet hs hr) moves.rest
  exact ⟨value, moves.trans moves'⟩

theorem markAsync {k : Unit → Parser β} (hk : Takes (k ()) ts after b) :
    Takes (MonadStateOf.modifyGet (fun s => ((), ParserState.markAsync s)) >>= k) ts after b := by
  refine Takes.modify (fun s hs => ?_) hk
  unfold ParserState.markAsync
  split
  · exact absurd ‹_› hs.framed
  · exact ⟨rfl, rfl, rfl, rfl, rfl, List.cons_ne_nil _ _⟩

theorem note {event : ParseEvent} {k : Unit → Parser β} (hk : Takes (k ()) ts after b) :
    Takes (MonadStateOf.modifyGet (fun s => ((), ParserState.note event s)) >>= k) ts after b :=
  Takes.modify (fun _ hs => ⟨rfl, rfl, rfl, rfl, rfl, hs.framed⟩) hk

theorem eat {q : Token → Bool} {k : Bool → Parser β} (hq : q t = true)
    (ht : t.kind ≠ .endOfFile) (hk : Takes (k true) ts after b) :
    Takes (Parser.eat q >>= k) (t :: ts) after b := by
  unfold Parser.eat
  rw [bind_assoc]
  refine Takes.current ?_
  change Takes ((if q t = true then _ else _) >>= k) _ _ _
  rw [if_pos hq, bind_assoc]
  exact Takes.advance ht hk

theorem eat_not {q : Token → Bool} {k : Bool → Parser β} (hq : q (front (ts ++ after)) = false)
    (hk : Takes (k false) ts after b) : Takes (Parser.eat q >>= k) ts after b := by
  unfold Parser.eat
  rw [bind_assoc]
  refine Takes.current ?_
  rw [hq]
  exact hk

theorem eatOr {wanted : Expectation} {q : Token → Bool} {k : Unit → Parser β} (hq : q t = true)
    (ht : t.kind ≠ .endOfFile) (hk : Takes (k ()) ts after b) :
    Takes (Parser.eatOr wanted q >>= k) (t :: ts) after b := by
  unfold Parser.eatOr
  rw [bind_assoc]
  exact Takes.eat hq ht hk

theorem name {k : String → Parser β} (ht : t.kind = .identifier)
    (hk : Takes (k t.word) ts after b) : Takes (Parser.name >>= k) (t :: ts) after b := by
  unfold Parser.name
  rw [bind_assoc]
  refine Takes.current ?_
  change Takes ((if t.kind = .identifier then _ else _) >>= k) _ _ _
  rw [if_pos ht, bind_assoc]
  exact Takes.advance (by rw [ht]; decide) hk

theorem skipLineEnds {k : Unit → Parser β} {es : List Token} (he : ∀ t ∈ es, t.kind = .endOfLine)
    (hf : (front (ts ++ after)).kind ≠ .endOfLine) (hk : Takes (k ()) ts after b) :
    Takes (Parser.skipLineEnds >>= k) (es ++ ts) after b := by
  intro s hs hr
  have hd : s.skipLineEnds = { s with rest := ts ++ after } := by
    unfold ParserState.skipLineEnds
    rw [hr, List.append_assoc, List.dropWhile_append_of_pos (by simpa using he)]
    cases hl : ts ++ after with
    | nil => rfl
    | cons t rest =>
        rw [hl] at hf
        rw [List.dropWhile_cons_of_neg (by simpa using hf)]
  have moves : Moves s s.skipLineEnds (ts ++ after) := by
    rw [hd]
    exact ⟨rfl, rfl, rfl, rfl, rfl, hs.framed⟩
  rw [List.append_assoc] at hr
  obtain ⟨value, moves'⟩ := hk s.skipLineEnds (moves.quiet hs hr) moves.rest
  exact ⟨value, moves.trans moves'⟩

theorem skipLastLineEnds {k : Unit → Parser β} {es : List Token}
    (he : ∀ t ∈ es, t.kind = .endOfLine) (hf : (front after).kind ≠ .endOfLine)
    (hk : Takes (k ()) [] after b) : Takes (Parser.skipLineEnds >>= k) es after b := by
  have h : Takes (Parser.skipLineEnds >>= k) (es ++ []) after b := Takes.skipLineEnds he hf hk
  rwa [List.append_nil] at h

theorem again {pass : α → Parser (Parser.Pass α)} {c d : α}
    (h : Takes (pass a) ts (us ++ after) (.again c)) (hne : ts ≠ [])
    (hk : Takes (Parser.repeated pass c) us after d) :
    Takes (Parser.repeated pass a) (ts ++ us) after d := by
  intro s hs hr
  rw [List.append_assoc] at hr
  obtain ⟨value, moves⟩ := h s hs hr
  have run : pass a s = (.again c, (pass a s).2) := Prod.ext value rfl
  have lt : (pass a s).2.rest.length < s.rest.length := by
    have pos := List.length_pos_iff.mpr hne
    rw [moves.rest, hr]
    simp only [List.length_append]
    omega
  rw [Parser.repeated_of_again run lt]
  obtain ⟨value', moves'⟩ := hk (pass a s).2 (moves.quiet hs hr) moves.rest
  exact ⟨value', moves.trans moves'⟩

theorem done {pass : α → Parser (Parser.Pass α)} {c : α} (h : Takes (pass a) ts after (.done c)) :
    Takes (Parser.repeated pass a) ts after c := by
  intro s hs hr
  obtain ⟨value, moves⟩ := h s hs hr
  have run : pass a s = (.done c, (pass a s).2) := Prod.ext value rfl
  rw [Parser.repeated_of_done run]
  exact ⟨rfl, moves⟩

/-- The flag of a frame is what the nodes say that were read in it. -/
theorem framed [Evolving p] {nodes : α → List Node} (hn : Collects [] p nodes)
    (hp : Takes p ts after a) :
    Takes (Parser.framed p) ts after (a, (nodes a).any Node.waits) := by
  intro s hs hr
  obtain ⟨value, moves⟩ := hp { s with frames := false :: s.frames }
    ⟨hs.going, hs.types, hs.asm, hs.plain, by simp⟩ hr
  rw [hn.run_framed hs.plain, value]
  exact ⟨rfl, moves.rest, moves.options, moves.openers, moves.aborted, moves.errors, hs.framed⟩

/-- A block takes its statements and the token that closes it. -/
theorem block {opener : Span} {scope : Scope} {closers : List Stop} {ns : List Node} {stop : Stop}
    (h : Takes (Place.read (.statements scope closers)) ts (t :: after) (ns, some stop))
    (ht : t.kind ≠ .endOfFile) :
    Takes (Parser.block Place.read opener scope closers) (ts ++ [t]) after
      (ns, some (stop, t.span)) := by
  intro s hs hr
  rw [List.append_assoc] at hr
  have quiet : { s with openers := opener :: s.openers }.Quiet :=
    ⟨hs.going, hs.types, hs.asm, hs.plain, hs.framed⟩
  obtain ⟨value, moves⟩ := h { s with openers := opener :: s.openers } quiet hr
  rw [Parser.run_block]
  generalize Place.read (.statements scope closers) { s with openers := opener :: s.openers } = r
    at value moves
  obtain ⟨⟨body, closer⟩, next⟩ := r
  cases value
  have closed : Moves s { next with openers := next.openers.tail } (t :: after) :=
    ⟨moves.rest, moves.options, by rw [moves.openers]; rfl, moves.aborted, moves.errors,
      moves.framed⟩
  have advanced := ParserState.moves_advance (closed.quiet hs hr) closed.rest ht
  have hc : next.current = t := by rw [next.current_eq, moves.rest]; rfl
  exact ⟨by rw [← hc], closed.trans advanced⟩

theorem blockBody {opener : Span} {scope : Scope} {closers : List Stop} {ns : List Node}
    {stop : Stop}
    (h : Takes (Place.read (.statements scope closers)) ts (t :: after) (ns, some stop))
    (ht : t.kind ≠ .endOfFile) :
    Takes (Parser.blockBody Place.read opener scope closers) (ts ++ [t]) after ns :=
  Takes.map (Takes.block h ht)

theorem expression {stops : List Stop} {r : Reading}
    (h : Takes (Place.read (.expression stops)) ts after r) :
    Takes (Parser.expression Place.read stops) ts after r.1 :=
  Takes.map h

/-- A place is read by its rules. -/
theorem read {place : Place} {r : Reading} (h : Takes (place.plain Place.read) ts after r) :
    Takes place.read ts after r := by
  intro s hs hr
  rw [place.read_eq]
  exact h s hs hr

end Takes

end MapScript
