import MapScript.Proofs.Mirroring.Statements

/-!
# Programs one after the other

A program without errors can stand before another one. The statements of the first are read as if
nothing came after them, up to its end of file, which is now the end of a line. From there on
the second program is read as it would be alone, with all its tokens further on.
-/
namespace MapScript

/-- The same token further on in a source. Its line stays a 32-bit word. -/
def Token.moved (bytes lines : Nat) (t : Token) : Token :=
  { t with
    line := t.line.map fun line => (line + lines) % UInt32.size
    span := t.span.moved bytes }

/-- The token when something comes after it: an end of file is the end of a line then. -/
def Token.followed (t : Token) : Token :=
  if t.kind = .endOfFile then
    { t with kind := .endOfLine, span := ⟨t.span.start, t.span.start + 1⟩ }
  else t

theorem Token.followed_of_readable {t : Token} (h : t.kind ≠ .endOfFile) : t.followed = t :=
  if_neg h

namespace Mirror

/-- A program that has other tokens behind it. -/
def before (tail : List Token) : Mirror where
  token := Token.followed
  tail := tail
  flag := false
  offset := 0
  opens := true
  word_token t := by
    unfold Token.followed
    split <;> rfl
  kind_token t := by
    unfold Token.followed
    split
    · exact .inr ⟨rfl, ‹_›, rfl⟩
    · exact .inl rfl
  start_token t := by
    unfold Token.followed
    split <;> rfl
  span_token t h := by
    rw [Token.followed_of_readable h]
    rfl

/-- A program that comes after another one, which waits or not. -/
def after (bytes lines : Nat) (flag : Bool) : Mirror where
  token := Token.moved bytes lines
  tail := []
  flag := flag
  offset := bytes
  opens := false
  word_token _ := rfl
  kind_token _ := .inl rfl
  start_token _ := rfl
  span_token _ _ := rfl

theorem steadyStops_of_closed {m : Mirror} (h : m.opens = false) (stops : List Stop) :
    m.SteadyStops stops := by
  constructor
  intro t stop _
  rcases m.kind_token t with hk | ⟨ho, -, -⟩
  · rw [Stop.accepts, Stop.accepts, hk, m.word_token]
  · rw [h] at ho
    cases ho

end Mirror

/-- The reading with other statements before it. -/
def Reading.after (nodes : List Node) (reading : Reading) : Reading :=
  (nodes ++ reading.1, reading.2)

namespace Parser

/-- A repetition whose passes commute with a map does so too. -/
theorem repeated_map {α : Type} {pass : α → Parser (Pass α)} {f : α → α}
    (h : ∀ a s, pass (f a) s = ((pass a s).1.map f, (pass a s).2)) (a : α) (s : ParserState) :
    repeated pass (f a) s = (f (repeated pass a s).1, (repeated pass a s).2) := by
  fun_induction repeated pass a s with
  | case1 a s b next run =>
      refine repeated_of_done ?_
      rw [h, run]
      rfl
  | case2 a s b next run lt ih =>
      rw [← ih]
      refine repeated_of_again ?_ lt
      rw [h, run]
      rfl
  | case3 a s b next run le =>
      refine repeated_of_stuck ?_ le
      rw [h, run]
      rfl

theorem statementPass_after (nested : PlaceReader) (scope : Scope) (stops : List Stop)
    (nodes : List Node) (reading : Reading) (s : ParserState) :
    statementPass nested scope stops (Reading.after nodes reading) s =
      ((statementPass nested scope stops reading s).1.map (Reading.after nodes),
        (statementPass nested scope stops reading s).2) := by
  unfold statementPass
  rw [run_get_bind, run_get_bind]
  split
  · rfl
  cases stops.find? (·.accepts s.current) with
  | some stop => rfl
  | none =>
      dsimp only
      cases s.current.kind with
      | endOfLine | endOfFile => rfl
      | _ =>
          dsimp only
          rw [run_bind, run_bind]
          cases (statement? nested scope s).1 with
          | none => rfl
          | some more =>
              have assoc : nodes ++ reading.1 ++ more = nodes ++ (reading.1 ++ more) :=
                List.append_assoc ..
              change (Pass.again (nodes ++ reading.1 ++ more, none), _) = _
              rw [assoc]
              rfl

def programPass : Reading → Parser (Pass Reading) :=
  statementPass Place.read .block [.endOfFile]

instance (reading : Reading) : Evolving (programPass reading) :=
  inferInstanceAs (Evolving (statementPass _ _ _ _))

theorem read_program (s : ParserState) :
    (Place.statements .block [.endOfFile]).read s = repeated programPass ([], none) s := by
  rw [Place.read_eq]
  rfl

theorem repeated_programPass_after (nodes : List Node) (s : ParserState) :
    repeated programPass (nodes, none) s =
      (Reading.after nodes (repeated programPass ([], none) s).1,
        (repeated programPass ([], none) s).2) := by
  have start : ((nodes, none) : Reading) = Reading.after nodes ([], none) := by
    simp [Reading.after]
  rw [start]
  exact repeated_map (statementPass_after _ _ _ nodes) _ s

theorem programPass_at_end {s : ParserState} (hk : s.current.kind = .endOfFile)
    (ha : s.aborted = false) (reading : Reading) :
    programPass reading s = (.done (reading.1, some .endOfFile), s) := by
  have stop : [Stop.endOfFile].find? (·.accepts s.current) = some .endOfFile := by
    simp [Stop.accepts, Stop.endOfFile, hk]
  unfold programPass statementPass
  rw [run_get_bind, if_neg (by simp [ha]), stop]
  rfl

theorem programPass_at_lineEnd {s : ParserState} (hk : s.current.kind = .endOfLine)
    (ha : s.aborted = false) (reading : Reading) :
    programPass reading s = (.again reading, s.advance) := by
  have stop : [Stop.endOfFile].find? (·.accepts s.current) = none := by
    simp [Stop.accepts, Stop.endOfFile, hk]
  unfold programPass statementPass
  rw [run_get_bind, if_neg (by simp [ha]), stop, hk]
  rfl

/-- Before the end of file a program goes on. -/
theorem programPass_goes_on {s : ParserState} (hk : s.current.kind ≠ .endOfFile)
    (ha : s.aborted = false) (nodes : List Node) :
    ∃ more next, programPass (nodes, none) s = (.again (more, none), next) ∧
      next.rest.length < s.rest.length := by
  have stop : [Stop.endOfFile].find? (·.accepts s.current) = none := by
    simp [Stop.accepts, Stop.endOfFile, hk]
  have again : ∃ more, (programPass (nodes, none) s).1 = .again (more, none) := by
    unfold programPass statementPass
    rw [run_get_bind, if_neg (by simp [ha]), stop]
    dsimp only
    cases hc : s.current.kind with
    | endOfFile => exact absurd hc hk
    | endOfLine => exact ⟨nodes, rfl⟩
    | _ =>
        dsimp only
        rw [run_bind]
        cases (statement? Place.read .block s).1 with
        | none => exact ⟨nodes, rfl⟩
        | some new => exact ⟨nodes ++ new, rfl⟩
  obtain ⟨more, again⟩ := again
  have shorter := statementPass_ahead Place.read .block [.endOfFile] (nodes, none) s (by
    change (programPass (nodes, none) s).1.GoesOn
    rw [again]
    trivial)
  exact ⟨more, (programPass (nodes, none) s).2, Prod.ext again rfl, shorter⟩

theorem programPass_shown {m : Mirror} {s t : ParserState} (shown : m.Shows s t)
    (hk : s.current.kind ≠ .endOfFile) (reading : Reading) :
    m.Outcome (programPass reading s) (programPass reading t) := by
  have same : ∀ stop ∈ [Stop.endOfFile],
      stop.accepts (m.token s.current) = stop.accepts s.current := by
    intro stop hs
    rw [List.mem_singleton.mp hs]
    simp [Stop.accepts, Stop.endOfFile, Mirror.kind_of_readable _ hk]
  exact (mirrorsAt_statementPass Place.read Place.read .block same reading).outcome s t shown rfl

/-- Up to the end of file of the first program, the two are read alike. The pass over the second
may also stop where the first has an error. -/
theorem repeated_shown {m : Mirror} (ho : m.opens = true) {pass : Reading → Parser (Pass Reading)}
    (goesOn : ∀ (s t : ParserState) (nodes : List Node), m.Shows s t →
      s.current.kind ≠ .endOfFile → (programPass (nodes, none) s).2.errors = [] →
      pass (nodes, none) t = programPass (nodes, none) t)
    {s t : ParserState} (shown : m.Shows s t) (nodes : List Node)
    (clean : (repeated programPass (nodes, none) s).2.errors = []) :
    ∃ body last t', repeated programPass (nodes, none) s = ((body, some .endOfFile), last) ∧
      last.current.kind = .endOfFile ∧ m.Shows last t' ∧
      repeated pass (nodes, none) t = repeated pass (body, none) t' := by
  induction hn : s.rest.length using Nat.strongRecOn generalizing nodes s t with
  | ind n ih =>
      subst hn
      have going : s.aborted = false := (shown.clean ho).2
      by_cases hk : s.current.kind = .endOfFile
      · refine ⟨nodes, s, t, ?_, hk, shown, rfl⟩
        exact repeated_of_done (programPass_at_end hk going (nodes, none))
      · obtain ⟨more, next, run, lt⟩ := programPass_goes_on hk going nodes
        have evolves : Evolves next (repeated programPass (more, none) next).2 :=
          Evolving.evolves next
        rw [repeated_of_again run lt] at clean ⊢
        have none : next.errors = [] := evolves.errors_eq_nil clean
        have same := goesOn s t nodes shown hk (by rw [run]; exact none)
        have outcome := programPass_shown shown hk (nodes, .none)
        rw [run, ← same] at outcome
        rcases run' : pass (nodes, .none) t with ⟨value, next'⟩
        rw [run'] at outcome
        rcases outcome with ⟨rfl, shown'⟩ | ⟨-, failed⟩
        · have lt' : next'.rest.length < t.rest.length := by
            have length := shown.length
            have length' := shown'.length
            dsimp only at length'
            omega
          rw [repeated_of_again run' lt']
          exact ih _ lt shown' more clean rfl
        · exact absurd none failed

theorem frames_start (o : ParseOptions) (ts : List Token) :
    (ParserState.start o ts).frames = [false] := rfl

/-- The parser that has read the first program and the line end after it. -/
structure Passed (o : ParseOptions) (tail : List Token) (flag : Bool) (t : ParserState) : Prop where
  options : t.options = o
  rest : t.rest = tail
  frames : t.frames = [flag]
  openers : t.openers = []
  budget : t.budget = o.retryBudget
  aborted : t.aborted = false
  errors : t.errors = []

theorem Passed.current {o : ParseOptions} {x : Token} {tail : List Token} {flag : Bool}
    {t : ParserState} (h : Passed o (x :: tail) flag t) : t.current = x :=
  ParserState.current_of_rest h.rest

theorem Passed.advance {o : ParseOptions} {x : Token} {tail : List Token} {flag : Bool}
    {t : ParserState} (h : Passed o (x :: tail) flag t) (hx : x.kind ≠ .endOfFile) :
    Passed o tail flag t.advance := by
  have rest := t.rest_advance (by rwa [h.current])
  rw [h.rest] at rest
  constructor
  · rw [t.options_advance, h.options]
  · exact (List.cons.inj rest).2.symm
  · rw [t.frames_advance, h.frames]
  · rw [t.openers_advance, h.openers]
  · rw [t.budget_advance, h.budget]
  · rw [t.aborted_advance, h.aborted]
  · rw [t.errors_advance, h.errors]

theorem frames_of_shows {m : Mirror} {s t : ParserState} (shown : m.Shows s t) {waits : Bool}
    (frames : s.frames = [waits]) : t.frames = [m.flag || waits] := by
  rw [shown.frames, frames]
  exact congrArg (fun f => [f]) (Bool.or_comm waits m.flag)

/-- Where a program without errors ends, nothing is left of it but whether it waits. -/
theorem passed_of_shows {m : Mirror} (ho : m.opens = true) {o : ParseOptions} {ts : List Token}
    {s t : ParserState} (evolves : Evolves (.start o ts) s) (shown : m.Shows s t) {waits : Bool}
    (frames : s.frames = [waits]) :
    Passed o (s.rest.map m.token ++ m.tail) (m.flag || waits) t := by
  obtain ⟨clean, -⟩ := shown.clean ho
  obtain ⟨going, budget⟩ := evolves.clean clean
  constructor
  · exact shown.options.trans evolves.options
  · exact shown.rest
  · exact frames_of_shows shown frames
  · rw [shown.openers, evolves.openers]
    rfl
  · exact shown.budget.trans budget
  · exact shown.aborted.trans going
  · rw [shown.errors, clean]
    rfl

theorem shows_before (o : ParseOptions) (ts tail : List Token) {last : Token}
    (hl : last.kind = .endOfFile) : (Mirror.before tail).Shows (.start o (ts ++ [last]))
      (.start o ((ts ++ [last]).map Token.followed ++ tail)) :=
  ⟨rfl, ⟨ts, last, rfl, hl⟩, rfl, rfl, by simp [ParserState.start], rfl, rfl, rfl, rfl,
    fun _ => ⟨rfl, rfl⟩⟩

/-- A program without errors is read up to its end of file, and past the line end in its place. -/
theorem program_before (o : ParseOptions) {ts : List Token} {last : Token}
    (hts : ∀ t ∈ ts, t.kind ≠ .endOfFile) (hl : last.kind = .endOfFile) (tail : List Token)
    (clean : (repeated programPass ([], none) (.start o (ts ++ [last]))).2.errors = []) :
    ∃ body flag s t, repeated programPass ([], none) (.start o (ts ++ [last])) =
        ((body, some .endOfFile), s) ∧ s.frames = [flag] ∧ s.errors = [] ∧ s.aborted = false ∧
      Passed o tail flag t ∧
      repeated programPass ([], none) (.start o ((ts ++ [last]).map Token.followed ++ tail)) =
        repeated programPass (body, none) t := by
  have evolves : Evolves (.start o (ts ++ [last]))
      (repeated programPass ([], none) (.start o (ts ++ [last]))).2 := Evolving.evolves _
  obtain ⟨body, s, t, run, hk, shown, run'⟩ := repeated_shown rfl (fun _ _ _ _ _ _ => rfl)
    (shows_before o ts tail hl) [] clean
  rw [run] at evolves clean
  dsimp only at evolves clean
  obtain ⟨flag, frames⟩ := evolves.frames (frames_start o _)
  have passed := passed_of_shows rfl evolves shown frames
  rw [rest_at_end evolves.rest_suffix hts shown.rest_ne_nil hk] at passed
  have lineEnd : last.followed.kind = .endOfLine := by rw [Token.followed, if_pos hl]
  have current : t.current.kind = .endOfLine := by
    rw [passed.current]
    exact lineEnd
  have shorter : t.advance.rest.length < t.rest.length :=
    t.length_rest_advance (by rw [current]; decide)
  refine ⟨body, flag, s, t.advance, run, frames, clean, (shown.clean rfl).2, ?_, ?_⟩
  · rw [← Bool.false_or flag]
    apply passed.advance
    change last.followed.kind ≠ .endOfFile
    rw [lineEnd]
    decide
  · rw [run', repeated_of_again (programPass_at_lineEnd current passed.aborted _) shorter]

theorem shows_after {o : ParseOptions} {bytes lines : Nat} {flag : Bool} {us : List Token}
    {last : Token} (hl : last.kind = .endOfFile) {t : ParserState}
    (passed : Passed o ((us ++ [last]).map (Token.moved bytes lines)) flag t) :
    (Mirror.after bytes lines flag).Shows (.start o (us ++ [last])) t := by
  refine ⟨?_, ⟨us, last, rfl, hl⟩, passed.options, ?_, by simp [ParserState.start],
    passed.openers, passed.budget, passed.aborted, passed.errors, ?_⟩
  · rw [passed.rest]
    exact (List.append_nil _).symm
  · rw [passed.frames]
    rfl
  · intro opens
    cases opens

/-- After the first program, the second one is read as it is alone. -/
theorem program_after {o : ParseOptions} {bytes lines : Nat} {flag : Bool} {us : List Token}
    {last : Token} (hl : last.kind = .endOfFile) {t : ParserState}
    (passed : Passed o ((us ++ [last]).map (Token.moved bytes lines)) flag t) :
    (repeated programPass ([], none) t).1 =
        (repeated programPass ([], none) (.start o (us ++ [last]))).1 ∧
      (Mirror.after bytes lines flag).Shows
        (repeated programPass ([], none) (.start o (us ++ [last]))).2
        (repeated programPass ([], none) t).2 := by
  have steady := Mirror.steadyStops_of_closed (m := .after bytes lines flag) rfl [.endOfFile]
  have read := mirrors_read (m := .after bytes lines flag) (.statements .block [.endOfFile]) steady
  have outcome := read.outcome _ _ (shows_after hl passed)
  rw [read_program] at outcome
  rcases outcome with alike | ⟨opens, -⟩
  · rw [← read_program t]
    exact alike
  · cases opens

end Parser

theorem parse_program (o : ParseOptions) (ts : List Token) {last : Token}
    (hl : last.kind = .endOfFile) {reading : Reading} {s : ParserState}
    (run : Parser.repeated Parser.programPass ([], none) (.start o (ts ++ [last])) = (reading, s)) :
    parse o (ts ++ [last]) = ⟨⟨reading.1, s.isAsync⟩, s.errors, s.aborted⟩ := by
  have read : (Place.statements .block [.endOfFile]).read (.start o (terminated (ts ++ [last]))) =
      ((reading.1, reading.2), s) := by
    rw [terminated_concat ts hl, Parser.read_program, run]
  exact parse_eq o _ read

theorem ParserState.isAsync_of_frames {s : ParserState} {flag : Bool} (h : s.frames = [flag]) :
    s.isAsync = flag := by
  simp [ParserState.isAsync, h]

/-- The results for two programs, one after the other. -/
def ParseResult.joined (bytes lines : Nat) (first second : ParseResult) : ParseResult where
  tree := ⟨first.tree.body ++ second.tree.body, first.tree.isAsync || second.tree.isAsync⟩
  errors := second.errors.map (ParseError.map (Token.moved bytes lines) (Span.moved bytes))
  aborted := second.aborted

/-- A program without errors can stand before another one. -/
theorem parse_append (o : ParseOptions) {ts us : List Token} {last last' : Token}
    (hts : ∀ t ∈ ts, t.kind ≠ .endOfFile) (hl : last.kind = .endOfFile)
    (hl' : last'.kind = .endOfFile) (bytes lines : Nat)
    (clean : (parse o (ts ++ [last])).errors = []) :
    parse o ((ts ++ [last]).map Token.followed ++ (us ++ [last']).map (Token.moved bytes lines)) =
      ParseResult.joined bytes lines (parse o (ts ++ [last])) (parse o (us ++ [last'])) := by
  have first := parse_program o ts hl rfl
  rw [first] at clean
  obtain ⟨body, flag, s, t, run, frames, -, -, passed, run'⟩ :=
    Parser.program_before o hts hl ((us ++ [last']).map (Token.moved bytes lines)) clean
  rw [run] at first
  obtain ⟨value, shown⟩ := Parser.program_after hl' passed
  have second := parse_program o us hl' rfl
  have evolves : Evolves (.start o (us ++ [last']))
      (Parser.repeated Parser.programPass ([], none) (.start o (us ++ [last']))).2 :=
    Evolving.evolves _
  obtain ⟨flag', frames'⟩ := evolves.frames (Parser.frames_start o _)
  rw [Parser.repeated_programPass_after body, value] at run'
  generalize Parser.repeated Parser.programPass ([], none) (.start o (us ++ [last'])) = r
    at second frames' shown run'
  have tokens : (ts ++ [last]).map Token.followed ++ (us ++ [last']).map (Token.moved bytes lines) =
      ((ts ++ [last]).map Token.followed ++ us.map (Token.moved bytes lines)) ++
        [last'.moved bytes lines] := by
    simp
  have ended : (last'.moved bytes lines).kind = .endOfFile := hl'
  have both := parse_program o
    ((ts ++ [last]).map Token.followed ++ us.map (Token.moved bytes lines)) ended
    (by rw [← tokens, run'])
  have async : (Parser.repeated Parser.programPass ([], none) t).2.isAsync = (flag || flag') :=
    ParserState.isAsync_of_frames (Parser.frames_of_shows shown frames')
  rw [tokens, both, first, second, async, shown.errors, shown.aborted]
  unfold ParseResult.joined
  rw [ParserState.isAsync_of_frames frames, ParserState.isAsync_of_frames frames']
  rfl

end MapScript
