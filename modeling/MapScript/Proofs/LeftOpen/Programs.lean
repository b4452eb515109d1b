import MapScript.Proofs.Diagnosing
import MapScript.Proofs.LeftOpen.Rules

/-!
# Programs with blocks that are left open

The statements of a block end at a stop, or at the end of file with a report. So the keywords that
the tokens of a program leave on the stack are those whose blocks are reported, the innermost first.

The places inside a place weigh less than it does. A reader for the lighter places only is therefore
as good as one for all of them; where it is asked for another place, it reports so many errors that
nothing has to be said about what comes after.
-/
namespace MapScript

/-- The statements of a whole program. -/
abbrev Place.program : Place := statements .block [.endOfFile]

namespace Parser
variable {errors : List ParseError} (nested : PlaceReader)

/-- Without a stop the statements end at the end of file, and the block that they stand in is
reported there. -/
theorem leaves_at_end (scope : Scope) {stops : List Stop} {s t : ParserState}
    {keyword : Option Token} {reading : Reading} (lost : s.AtLoss stops)
    (opener : s.openers.head? = keyword.map (·.span))
    (ready : keyword ≠ none ∨ Stop.endOfFile ∈ stops)
    (run : statementPass nested scope stops reading s = (.done reading, t))
    (ends : t.EndsWith errors) : LeftOpen errors keyword.toList s t keyword.toList := by
  rw [statementPass_of_atLoss nested lost] at run
  obtain rfl := (Prod.mk.inj run).2
  have inner : keyword ≠ none := by
    apply ready.resolve_right
    intro listed
    have refused := List.find?_eq_none.mp lost.2.2 _ listed
    simp [Stop.accepts, Stop.endOfFile, lost.2.1] at refused
  obtain ⟨opened, rfl⟩ := Option.ne_none_iff_exists'.mp inner
  rw [show s.openers.head? = some opened.span from opener] at ends ⊢
  exact .ended lost.2.1 ends

variable [∀ place, Evolving (nested place)] [Thorough nested] [places : LeavingPlaces nested]

theorem leaves_readStatements (scope : Scope) (stops : List Stop) {s : ParserState}
    (keyword : Option Token) (opener : s.openers.head? = keyword.map (·.span))
    (ready : keyword ≠ none ∨ Stop.endOfFile ∈ stops) :
    Leaves errors ((readStatements nested scope stops s).1.pending keyword)
      (readStatements nested scope stops) s := by
  unfold readStatements
  generalize start : (([], none) : Reading) = reading
  have none : reading.2 = none := start ▸ rfl
  clear start
  refine ⟨Evolving.evolves s, ?_⟩
  -- A reading names no stop as long as passes follow each other. So one that still names none when
  -- they are done has come to the end of file, or the parser has given up.
  fun_induction repeated (statementPass nested scope stops) reading s with
  | case1 reading s last t run =>
      intro ends
      by_cases lost : s.AtLoss stops
      · obtain rfl : reading = last := by
          rw [statementPass_of_atLoss nested lost] at run
          exact Pass.done.inj (Prod.mk.inj run).1
        rw [Reading.pending, if_pos none]
        exact ⟨keyword.toList, leaves_at_end nested scope lost opener ready run ends⟩
      · obtain ⟨step, done⟩ := leaves_statementPass nested scope reading lost
        obtain ⟨-, leaves⟩ := leaves_run step run
        have stopped : last.2 ≠ Option.none := by
          intro none
          rw [run] at done
          cases ends.going.symm.trans (done last rfl none)
        rw [Reading.pending, if_neg stopped]
        exact leaves ends
  | case2 reading s next t run lt ih =>
      intro ends
      have ahead : ¬ s.AtLoss stops := by
        intro lost
        rw [statementPass_of_atLoss nested lost] at run
        cases run
      have free : next.2 = Option.none := by
        have passes := statementPass_stop nested scope stops none s
        rw [run] at passes
        exact passes
      have step : Leaves errors [] (statementPass nested scope stops reading) s :=
        (leaves_statementPass nested scope reading ahead).1
      obtain ⟨evolves, leaves⟩ := leaves_run step run
      have after : Evolves t (repeated (statementPass nested scope stops) next t).2 :=
        Evolving.evolves t
      obtain ⟨left, first⟩ := leaves (after.endsWith ends)
      obtain ⟨more, second⟩ := ih (by rwa [evolves.openers]) free ends
      exact ⟨left ++ more, first.trans second after⟩
  | case3 reading s next t run stuck =>
      have lt := statementPass_ahead nested scope stops reading s (by rw [run]; trivial)
      rw [run] at lt
      exact absurd lt stuck

end Parser

namespace ParserState

/-- Reports so often that something is missing that there is no room for more. -/
def flood : Nat → ParserState → ParserState
  | 0, s => s
  | n + 1, s => flood n (s.record (.expected .expression s.current))

theorem flood_evolves (n : Nat) (s : ParserState) : Evolves s (flood n s) := by
  induction n generalizing s with
  | zero => exact .refl s
  | succ n ih => exact .trans (.single (.expected s .expression)) (ih _)

/-- Errors are added as long as there is room. -/
theorem le_length_flood (n : Nat) (s : ParserState) :
    min maxErrors (s.errors.length + n) ≤ (flood n s).errors.length := by
  induction n generalizing s with
  | zero => exact Nat.min_le_right _ _
  | succ n ih =>
      have later := ih (s.record (.expected .expression s.current))
      have added : min maxErrors (s.errors.length + 1) ≤
          (s.record (.expected .expression s.current)).errors.length := by
        unfold record
        split
        · rw [List.length_append]
          exact Nat.min_le_right _ _
        · omega
      unfold flood
      omega

theorem not_endsWith_flood (errors : List ParseError) (s : ParserState) :
    ¬ (flood maxErrors s).EndsWith errors := by
  intro ends
  have full := s.le_length_flood maxErrors
  have length := ends.kept.length_le
  have few := ends.few
  omega

end ParserState

namespace Place

/-- Reads the places that weigh less, and reports errors in place of the others. -/
def readOrFlood (n : Nat) : PlaceReader := fun place s =>
  if place.weight s < n then place.read s
  else (([], none), s.advance.flood maxErrors)

theorem read_eq_readOrFlood (place : Place) (s : ParserState) :
    place.read s = place.plain (readOrFlood (place.weight s)) s := by
  rw [read_eq]
  exact Parser.plain_eq read_respects place s fun inner t lighter => (if_pos lighter).symm

theorem flood_advance_evolves (s : ParserState) : Evolves s (s.advance.flood maxErrors) :=
  .trans (.single (.advance s)) (s.advance.flood_evolves maxErrors)

instance (n : Nat) (place : Place) : Evolving (readOrFlood n place) := by
  constructor
  intro s
  unfold readOrFlood
  split
  · exact Evolving.evolves s
  · dsimp only
    exact flood_advance_evolves s

instance (n : Nat) : Parser.Thorough (readOrFlood n) where
  consumes hx := by
    constructor
    intro s hs going
    unfold readOrFlood
    split
    · exact (Parser.Thorough.consumes hx).shorter s hs going
    · have more : s.current.kind ≠ .endOfFile := by
        intro kind
        rw [← hs, Token.endsExpression, kind] at hx
        cases hx
      have shorter := ParserState.length_rest_advance more
      have kept := (s.advance.flood_evolves maxErrors).length_rest
      dsimp only
      omega

/-- A place that is read leaves open what it reports, and one that is not has no room to report. -/
theorem leaves_readOrFlood {errors : List ParseError} {pending : List Token} {n : Nat}
    {place : Place} {s : ParserState}
    (h : place.weight s < n → Leaves errors pending place.read s) :
    Leaves errors pending (readOrFlood n place) s := by
  by_cases light : place.weight s < n
  · have same : readOrFlood n place s = place.read s := if_pos light
    exact Parser.leaves_congr same (h light)
  · have heavy : readOrFlood n place s = (([], none), s.advance.flood maxErrors) := if_neg light
    refine ⟨Evolving.evolves s, fun ends => ?_⟩
    rw [heavy] at ends
    dsimp only at ends
    exact absurd ends (ParserState.not_endsWith_flood errors _)

/-- What is read in a place leaves open what it reports. The statements of a block stand behind its
keyword, and a condition behind `if` or `elseif`. -/
def LeavesOpen (s : ParserState) : Place → Prop
  | expression stops => ∀ errors, Leaves errors [] (expression stops).read s
  | statements scope stops => ∀ errors keyword, s.openers.head? = some keyword.span →
      Leaves errors (((statements scope stops).read s).1.pending (some keyword))
        (statements scope stops).read s
  | condition opener => ∀ errors keyword, keyword.span = opener → keyword.isBranch = true →
      Leaves errors [keyword] (condition opener).read s

theorem leavingPlaces {n : Nat}
    (lighter : ∀ (place : Place) (s : ParserState), place.weight s < n → place.LeavesOpen s) :
    LeavingPlaces (readOrFlood n) where
  expression stops :=
    ⟨fun errors s => leaves_readOrFlood fun light => lighter (.expression stops) s light errors⟩
  condition keyword branch :=
    ⟨fun errors s => leaves_readOrFlood fun light =>
      lighter (.condition keyword.span) s light errors keyword rfl branch⟩
  statements errors scope stops keyword s opener := by
    apply leaves_readOrFlood
    intro light
    have same : readOrFlood n (.statements scope stops) s = (statements scope stops).read s :=
      if_pos light
    rw [same]
    exact lighter (.statements scope stops) s light errors keyword opener
  stop := by
    intro scope stops s
    unfold readOrFlood
    split
    · exact read_respects scope stops s
    · rintro stop ⟨⟩

/-- Reading leaves open what it reports, place by place. -/
theorem leavesOpen (place : Place) (s : ParserState) : place.LeavesOpen s := by
  induction weight : place.weight s using Nat.strongRecOn generalizing place s with
  | ind n ih =>
    subst weight
    have places := leavingPlaces fun inner t light => ih _ light inner t rfl
    have rules := place.read_eq_readOrFlood s
    cases place with
    | expression stops =>
        intro errors
        have reads : Leaving [] (Parser.readExpression
            (readOrFlood ((expression stops).weight s)) stops) := inferInstance
        exact Parser.leaves_congr rules (reads.leaves errors s)
    | statements scope stops =>
        intro errors keyword opener
        have reads : Leaves errors (Reading.pending (some keyword) _) (Parser.readStatements
            (readOrFlood ((statements scope stops).weight s)) scope stops) s :=
          Parser.leaves_readStatements _ scope stops (some keyword) opener (.inl (by simp))
        rw [rules]
        exact Parser.leaves_congr rules reads
    | condition opener =>
        rintro errors keyword rfl branch
        have reads : Leaving [keyword] (Parser.readCondition
            (readOrFlood ((condition keyword.span).weight s)) keyword.span) :=
          Parser.leaving_readCondition _ branch
        exact Parser.leaves_congr rules (reads.leaves errors s)

instance (n : Nat) : LeavingPlaces (readOrFlood n) :=
  leavingPlaces fun place s _ => place.leavesOpen s

end Place

section
variable {keepComments : Bool} {source : String} {tokens : List Token}

end

end MapScript
