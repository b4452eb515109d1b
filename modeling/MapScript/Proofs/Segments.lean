import MapScript.Proofs.Comparing.Basic
import MapScript.Proofs.Joining
import MapScript.Proofs.Spelling.Basic

/-!
# Reading a source in segments

A parser can be stopped at a word `end` that closes no block, and go on behind it. The segments
before such words are read as they would be alone if there is nothing wrong with them, and so is
whatever comes behind the last one: neither the budget nor anything that was open is carried over,
only that the program waits.

For this `end` has to reach the outermost statements. It does, because a program without errors has
closed all its blocks and brackets where it ends, and has no `end` among its own statements.
-/
namespace MapScript

/-- The program that is moved on, with other tokens behind it. -/
def Mirror.between (bytes lines : Nat) (flag : Bool) (tail : List Token) : Mirror where
  token t := (t.moved bytes lines).followed
  tail := tail
  flag := flag
  offset := bytes
  opens := true
  word_token t := by
    unfold Token.followed
    split <;> rfl
  kind_token t := by
    unfold Token.followed
    split
    · exact .inr ⟨rfl, ‹_›, rfl⟩
    · exact .inl rfl
  start_token t := by
    unfold Token.followed
    split <;> rfl
  span_token t h := by
    have readable : (t.moved bytes lines).kind ≠ .endOfFile := h
    rw [Token.followed_of_readable readable]
    rfl

namespace Parser

/-- The statements of a segment. -/
def segmentPass : Reading → Parser (Pass Reading) :=
  statementPass Place.read .block [.plainEnd, .endOfFile]

theorem kind_of_plainEnd {t : Token} (h : Stop.plainEnd.accepts t = true) : t.kind = .keyword := by
  simp only [Stop.accepts, Stop.plainEnd, Stop.keyword, Bool.and_eq_true, beq_iff_eq] at h
  exact h.1

/-- No statement begins with the word. -/
theorem ofWord?_of_plainEnd {t : Token} (h : Stop.plainEnd.accepts t = true) :
    StatementWord.ofWord? t.word = none := by
  have closes : t.fence? = wordFence? (lowerWord "end") := Token.fence?_of_accepts h
  have keyword := kind_of_plainEnd h
  cases found : StatementWord.ofWord? t.word with
  | none => rfl
  | some word =>
      exfalso
      by_cases expression : word = .expression
      · rw [expression] at found
        obtain ⟨part, hp⟩ := Option.isSome_iff_exists.mp (isSome_ofWord?_of_expression found)
        rw [Token.fence?_of_expressionWord keyword hp] at closes
        revert closes
        cases part <;> decide
      · rw [Token.fence?_of_statementWord keyword found expression] at closes
        revert closes
        cases word <;> decide

/-- Among the statements of a program it is an error. -/
theorem programPass_at_plainEnd {s : ParserState} (h : Stop.plainEnd.accepts s.current = true)
    (going : s.aborted = false) (clean : s.errors = []) (reading : Reading) :
    (programPass reading s).2.errors ≠ [] := by
  have keyword := kind_of_plainEnd h
  have stop : [Stop.endOfFile].find? (·.accepts s.current) = none := by
    simp [Stop.accepts, Stop.endOfFile, keyword]
  have nothing : statement? Place.read .block s =
      (none, s.note (.statement s.current.word)) := by
    unfold statement?
    rw [run_current_bind, keyword]
    dsimp only
    rw [run_modify_bind, ofWord?_of_plainEnd h]
    rfl
  unfold programPass statementPass
  rw [run_get_bind, if_neg (by simp [going]), stop, keyword]
  dsimp only
  rw [run_bind, nothing]
  exact ParserState.errors_reject_ne_nil (s := s.note _) clean

/-- At any other token a segment goes on as a program does. -/
theorem segmentPass_eq_programPass {s : ParserState}
    (h : Stop.plainEnd.accepts s.current = false) (reading : Reading) :
    segmentPass reading s = programPass reading s := by
  have stop : [Stop.plainEnd, .endOfFile].find? (·.accepts s.current) =
      [Stop.endOfFile].find? (·.accepts s.current) := by
    rw [List.find?_cons, h]
  unfold segmentPass programPass statementPass
  rw [run_get_bind, run_get_bind, stop]
  split
  · rfl
  cases found : [Stop.endOfFile].find? (·.accepts s.current) with
  | some stop => rfl
  | none =>
      dsimp only
      cases kind : s.current.kind with
      | endOfFile => simp [Stop.accepts, Stop.endOfFile, kind] at found
      | _ => rfl

theorem segmentPass_at_plainEnd {s : ParserState} (h : Stop.plainEnd.accepts s.current = true)
    (going : s.aborted = false) (reading : Reading) :
    segmentPass reading s = (.done (reading.1, some .plainEnd), s) := by
  unfold segmentPass statementPass
  rw [run_get_bind, if_neg (by simp [going]), List.find?_cons, h]
  rfl

/-- Before the end of a program without errors the word does not stand among its statements. -/
theorem segmentPass_shown {m : Mirror} (ho : m.opens = true) (s t : ParserState)
    (nodes : List Node) (shown : m.Shows s t) (hk : s.current.kind ≠ .endOfFile)
    (clean : (programPass (nodes, none) s).2.errors = []) :
    segmentPass (nodes, none) t = programPass (nodes, none) t := by
  apply segmentPass_eq_programPass
  rw [Bool.eq_false_iff, shown.current]
  intro closer
  rw [Stop.accepts, Mirror.kind_of_readable _ hk, m.word_token] at closer
  obtain ⟨none, going⟩ := shown.clean ho
  exact programPass_at_plainEnd closer going none _ clean

end Parser

/-- The parsers read the same next, since only line ends lie between them. -/
def SameReading (s t : ParserState) : Prop :=
  ∀ stop : Option Stop, (∀ x ∈ stop, x.kind ≠ .endOfLine) → s.readUntil stop = t.readUntil stop

theorem sameReading_lineEnd {s : ParserState} (rest : s.AtRest)
    (lineEnd : s.current.kind = .endOfLine) (going : s.aborted = false) :
    SameReading s s.advance := by
  intro stop other
  have nowhere : (stop.toList ++ [Stop.endOfFile]).find? (·.accepts s.current) = none := by
    rw [List.find?_eq_none]
    intro x hx
    rcases List.mem_append.mp hx with hx | hx
    · have kind := other x (by simpa using hx)
      simp [Stop.accepts, lineEnd, kind.symm]
    · rw [List.mem_singleton.mp hx]
      simp [Stop.accepts, Stop.endOfFile, lineEnd]
  have pass : Parser.statementPass Place.read .block (stop.toList ++ [.endOfFile]) ([], none) s =
      (.again ([], none), s.advance) := by
    unfold Parser.statementPass
    rw [Parser.run_get_bind, if_neg (by simp [going]), nowhere, lineEnd]
    rfl
  have shorter : s.advance.rest.length < s.rest.length :=
    s.length_rest_advance (by rw [lineEnd]; decide)
  have read : (Place.statements .block (stop.toList ++ [.endOfFile])).read s =
      (Place.statements .block (stop.toList ++ [.endOfFile])).read s.advance := by
    rw [Place.read_eq, Place.read_eq]
    exact Parser.repeated_of_again pass shorter
  rcases run : (Place.statements .block (stop.toList ++ [.endOfFile])).read s with
    ⟨⟨nodes, found⟩, t⟩
  rw [ParserState.readUntil_of_read rest run,
    ParserState.readUntil_of_read rest.advance (read ▸ run)]

namespace Parser

theorem shows_between {o : ParseOptions} {bytes lines : Nat} {flag : Bool} {tail ts : List Token}
    {last : Token} (hl : last.kind = .endOfFile) {t : ParserState}
    (passed : Passed o ((ts ++ [last]).map (fun x => (x.moved bytes lines).followed) ++ tail)
      flag t) : (Mirror.between bytes lines flag tail).Shows (.start o (ts ++ [last])) t := by
  refine ⟨passed.rest, ⟨ts, last, rfl, hl⟩, passed.options, ?_, by simp [ParserState.start],
    passed.openers, passed.budget, passed.aborted, passed.errors, fun _ => ⟨rfl, rfl⟩⟩
  rw [passed.frames]
  rfl

/-- From the line end before the word, a segment is read up to the line end after it. -/
theorem repeated_segmentPass_at_lineEnd {o : ParseOptions} {flag : Bool} {tail : List Token}
    {x closer : Token} (hx : x.kind = .endOfLine) (closes : Stop.plainEnd.accepts closer = true)
    {t : ParserState} (passed : Passed o (x :: closer :: tail) flag t) (body : List Node) :
    repeated segmentPass (body, none) t = ((body, some .plainEnd), t.advance) ∧
      Passed o tail flag t.advance.advance := by
  have readable : x.kind ≠ .endOfFile := by
    rw [hx]
    decide
  have atCloser := passed.advance readable
  have pass : segmentPass (body, none) t = (.again (body, none), t.advance) := by
    rw [segmentPass_eq_programPass]
    · apply programPass_at_lineEnd
      · rw [passed.current, hx]
      · exact passed.aborted
    · simp [Stop.accepts, Stop.plainEnd, Stop.keyword, passed.current, hx]
  have shorter := t.length_rest_advance (by rwa [passed.current])
  constructor
  · rw [repeated_of_again pass shorter]
    apply repeated_of_done
    exact segmentPass_at_plainEnd (by rwa [atCloser.current]) atCloser.aborted _
  · apply atCloser.advance
    rw [kind_of_plainEnd closes]
    decide

/-- A segment without errors is read as it is alone, and what comes next is read by a parser that
has done nothing else. -/
theorem readUntil_segment {o : ParseOptions} {bytes lines : Nat} {flag : Bool}
    {ts tail : List Token} {last closer lineEnd : Token} (hts : ∀ x ∈ ts, x.kind ≠ .endOfFile)
    (hl : last.kind = .endOfFile) (closes : Stop.plainEnd.accepts closer = true)
    (ends : lineEnd.kind = .endOfLine) {t : ParserState} (rest : t.AtRest)
    (passed : Passed o ((ts ++ [last]).map (fun x => (x.moved bytes lines).followed) ++
      closer :: lineEnd :: tail) flag t)
    (clean : (parse o (ts ++ [last])).errors = []) :
    ∃ t' u, t.readUntil (some .plainEnd) = ((parse o (ts ++ [last])).tree.body, t') ∧
      SameReading t' u ∧ u.AtRest ∧
      Passed o tail (flag || (parse o (ts ++ [last])).tree.isAsync) u := by
  have alone := parse_program o ts hl rfl
  rw [alone] at clean
  obtain ⟨body, s, u, run, ended, shown, run'⟩ :=
    repeated_shown rfl (segmentPass_shown rfl) (shows_between hl passed) [] clean
  have evolves : Evolves (.start o (ts ++ [last]))
      (repeated programPass ([], none) (.start o (ts ++ [last]))).2 := Evolving.evolves _
  rw [run] at alone evolves
  obtain ⟨waits, frames⟩ := evolves.frames (frames_start o _)
  rw [alone, ParserState.isAsync_of_frames frames]
  have atEnd := passed_of_shows rfl evolves shown frames
  rw [rest_at_end evolves.rest_suffix hts shown.rest_ne_nil ended] at atEnd
  have ended' : (last.moved bytes lines).kind = .endOfFile := hl
  have followed : (last.moved bytes lines).followed.kind = .endOfLine := by
    rw [Token.followed, if_pos ended']
  obtain ⟨stopped, atLineEnd⟩ := repeated_segmentPass_at_lineEnd followed closes atEnd body
  have read : (Place.statements .block ((some Stop.plainEnd).toList ++ [.endOfFile])).read t =
      ((body, some .plainEnd), u.advance) := by
    rw [Place.read_eq]
    exact run'.trans stopped
  have reads := ParserState.readUntil_of_read rest read
  have rest' : u.advance.advance.AtRest := by
    have kept := rest.readUntil (some .plainEnd)
    rw [reads] at kept
    exact kept
  refine ⟨u.advance.advance, u.advance.advance.advance, reads, ?_, rest'.advance, ?_⟩
  · apply sameReading_lineEnd rest'
    · rw [atLineEnd.current, ends]
    · exact atLineEnd.aborted
  · apply atLineEnd.advance
    rw [ends]
    decide

/-- Behind all segments, the rest is read as it is alone. -/
theorem readProgram_after {o : ParseOptions} {bytes lines : Nat} {flag : Bool} {us : List Token}
    {last : Token} (hl : last.kind = .endOfFile) {t : ParserState} (rest : t.AtRest)
    (passed : Passed o ((us ++ [last]).map (Token.moved bytes lines)) flag t) :
    let alone := parse o (us ++ [last])
    t.readProgram.1 = ⟨⟨alone.tree.body, flag || alone.tree.isAsync⟩,
      alone.errors.map (ParseError.map (Token.moved bytes lines) (Span.moved bytes)),
      alone.aborted⟩ := by
  intro alone
  have alone_eq : alone = _ := parse_program o us hl rfl
  have evolves : Evolves (.start o (us ++ [last]))
      (repeated programPass ([], none) (.start o (us ++ [last]))).2 := Evolving.evolves _
  obtain ⟨waits, frames⟩ := evolves.frames (frames_start o _)
  obtain ⟨value, shown⟩ := program_after hl passed
  have isAsync : (repeated programPass ([], none) t).2.isAsync = (flag || waits) :=
    ParserState.isAsync_of_frames (frames_of_shows shown frames)
  have read := ParserState.readProgram_of_read rest (read_program t)
  rw [isAsync, value, shown.errors, shown.aborted] at read
  rw [read, alone_eq, ParserState.isAsync_of_frames frames]
  rfl

end Parser

theorem Token.moved_moved (bytes lines bytes' lines' : Nat) (t : Token) :
    (t.moved bytes lines).moved bytes' lines' = t.moved (bytes' + bytes) (lines' + lines) := by
  obtain ⟨kind, text, line, span⟩ := t
  simp [Token.moved, Span.moved, Function.comp_def, Nat.add_assoc, Nat.add_comm bytes',
    Nat.add_comm lines']

theorem Token.moved_followed (bytes lines : Nat) (t : Token) :
    t.followed.moved bytes lines = (t.moved bytes lines).followed := by
  have kind : (t.moved bytes lines).kind = t.kind := rfl
  unfold Token.followed
  rw [kind]
  split
  · simp [Token.moved, Span.moved, Nat.add_right_comm]
  · rfl

/-- The text of the segments, each with the word that stops it. -/
def leading : List String → String
  | [] => ""
  | first :: segments => first ++ "\nend\n" ++ leading segments

/-- Reads so many segments one after the other. -/
def ParserState.readSegments : Nat → ParserState → List (List Node) × ParserState
  | 0, s => ([], s)
  | n + 1, s =>
    let (body, next) := s.readUntil (some .plainEnd)
    let (bodies, last) := next.readSegments n
    (body :: bodies, last)

/-- The tokens of a source further on. -/
def laterTokens (keepComments : Bool) (bytes lines : Nat) (source : String) : List Token :=
  (tokenize keepComments source).tokens.map (Token.moved bytes lines)

/-- A token that is moved nowhere stays the same, since its line is a word. -/
theorem laterTokens_zero (keepComments : Bool) (source : String) :
    laterTokens keepComments 0 0 source = (tokenize keepComments source).tokens := by
  refine (List.map_congr_left fun t ht => ?_).trans (List.map_id _)
  have word : ∃ line : UInt32, t.line = some line.toNat := by
    rcases List.mem_append.mp ht with ht | ht
    · obtain ⟨p, -, found⟩ := List.mem_filterMap.mp ht
      obtain ⟨content, -, rfl⟩ := Option.map_eq_some_iff.mp found
      exact ⟨p.line, rfl⟩
    · obtain rfl := List.mem_singleton.mp ht
      exact ⟨_, rfl⟩
  obtain ⟨line, hline⟩ := word
  obtain ⟨kind, text, _, span⟩ := t
  obtain rfl : _ = some line.toNat := hline
  simp [Token.moved, Span.moved, Nat.mod_eq_of_lt line.toNat_lt]

theorem closedSource_end : ClosedSource "end".toList := by
  unfold ClosedSource
  decide

theorem sourceTokens_end (keepComments : Bool) : sourceTokens keepComments "end".toList =
    [⟨.keyword, some "end", some 1, ⟨0, 3⟩⟩] := by
  cases keepComments <;> decide

section
variable (keepComments : Bool) (bytes lines : Nat)

theorem laterTokens_eq (source : String) : laterTokens keepComments bytes lines source =
    (sourceTokens keepComments source.toList ++ [endToken source.toList]).map
      (Token.moved bytes lines) := rfl

/-- The tokens of a segment, of the word that stops it and of what comes behind. -/
theorem laterTokens_segment {first : String} (closed : ClosedSource first.toList)
    (second : String) : ∃ closer lineEnd, Stop.plainEnd.accepts closer = true ∧
      lineEnd.kind = .endOfLine ∧
      laterTokens keepComments bytes lines (first ++ "\nend\n" ++ second) =
        (sourceTokens keepComments first.toList ++ [endToken first.toList]).map
            (fun x => (x.moved bytes lines).followed) ++
          closer :: lineEnd :: laterTokens keepComments (bytes + (byteLength first.toList + 5))
            (lines + (first.toList.count '\n' + 2)) second := by
  let word : Token := ⟨.keyword, some "end", some 1, ⟨0, 3⟩⟩
  let bytes' := bytes + (byteLength first.toList + 1)
  let lines' := lines + (first.toList.count '\n' + 1)
  have closes : Stop.plainEnd.accepts word = true := by decide
  have length : byteLength "end".toList = 3 := by decide
  have newlines : "end".toList.count '\n' = 0 := by decide
  have text : (first ++ "\nend\n" ++ second).toList =
      first.toList ++ '\n' :: ("end".toList ++ '\n' :: second.toList) := by
    simp [String.toList_append]
  refine ⟨word.moved bytes' lines', (endToken "end".toList).followed.moved bytes' lines', closes,
    rfl, ?_⟩
  rw [laterTokens_eq, laterTokens_eq, text, tokens_append closed, tokens_append closedSource_end,
    sourceTokens_end]
  simp only [List.map_append, List.map_map, Function.comp_def, Token.moved_moved,
    Token.moved_followed, length, newlines]
  rfl

end

section
variable {o : ParseOptions} {keepComments flag : Bool} {bytes lines : Nat}

theorem byteLength_leading (first : String) (segments : List String) :
    byteLength (leading (first :: segments)).toList =
      byteLength first.toList + 5 + byteLength (leading segments).toList := by
  have length : byteLength "\nend\n".toList = 5 := by decide
  rw [leading, String.toList_append, String.toList_append, byteLength_append, byteLength_append,
    length]

theorem count_leading (first : String) (segments : List String) :
    (leading (first :: segments)).toList.count '\n' =
      first.toList.count '\n' + 2 + (leading segments).toList.count '\n' := by
  have newlines : "\nend\n".toList.count '\n' = 2 := by decide
  rw [leading, String.toList_append, String.toList_append, List.count_append, List.count_append,
    newlines]

/-- Segments without errors are read as they are alone, and behind them the parser is as good as
new, but that it may have met a statement that waits. -/
theorem readSegments_passed {segments : List String} (last : String) {s t : ParserState}
    (same : SameReading s t) (rest : t.AtRest)
    (passed : Parser.Passed o (laterTokens keepComments bytes lines (leading segments ++ last))
      flag t)
    (closed : ∀ a ∈ segments, ClosedSource a.toList)
    (clean : ∀ a ∈ segments, (o.parsed keepComments a).errors = []) :
    ∃ s' t', s.readSegments segments.length =
        (segments.map fun a => (o.parsed keepComments a).tree.body, s') ∧ SameReading s' t' ∧
      t'.AtRest ∧ Parser.Passed o
        (laterTokens keepComments (bytes + byteLength (leading segments).toList)
          (lines + (leading segments).toList.count '\n') last)
        (flag || segments.any fun a => (o.parsed keepComments a).tree.isAsync) t' := by
  induction segments generalizing flag bytes lines s t with
  | nil =>
      refine ⟨s, t, rfl, same, rest, ?_⟩
      simpa [leading] using passed
  | cons first segments ih =>
      obtain ⟨closer, lineEnd, closes, ends, tokens⟩ := laterTokens_segment keepComments bytes lines
        (closed first List.mem_cons_self) (leading segments ++ last)
      rw [leading, String.append_assoc, tokens] at passed
      obtain ⟨s₁, t₁, read, same₁, rest₁, passed₁⟩ := Parser.readUntil_segment
        (fun x => kind_ne_of_mem_sourceTokens) rfl closes ends rest passed
        (clean first List.mem_cons_self)
      obtain ⟨s₂, t₂, reads, same₂, rest₂, passed₂⟩ := ih same₁ rest₁ passed₁
        (fun a ha => closed a (List.mem_cons_of_mem _ ha))
        (fun a ha => clean a (List.mem_cons_of_mem _ ha))
      refine ⟨s₂, t₂, ?_, same₂, rest₂, ?_⟩
      · have read' : s.readUntil (some .plainEnd) =
            ((o.parsed keepComments first).tree.body, s₁) := by
          rw [same _ (by decide)]
          exact read
        rw [List.length_cons, ParserState.readSegments, read']
        dsimp only
        rw [reads]
        rfl
      · rw [byteLength_leading, count_leading, List.any_cons, ← Bool.or_assoc, ← Nat.add_assoc,
          ← Nat.add_assoc lines]
        exact passed₂

end

/-- Segments without errors that leave no text and no comment open are read one by one as each of
them alone is. What is behind them is then read as it is alone, however much is wrong with it: its
errors are found further on, and the program waits if any part of it does. -/
theorem read_segments (s : ParserState) (keepComments : Bool) (segments : List String)
    (last : String)
    (closed : ∀ segment ∈ segments, ∀ a ∈ (tokenize keepComments segment).anomalies,
      a.kind ≠ .unterminatedString ∧ a.kind ≠ .unterminatedComment)
    (clean : ∀ segment ∈ segments, (s.options.parsed keepComments segment).errors = []) :
    let parsed := s.options.parsed keepComments
    let bytes := byteLength (leading segments).toList
    let lines := (leading segments).toList.count '\n'
    let whole := (tokenize keepComments (leading segments ++ last)).tokens
    ((s.reset whole).readSegments segments.length).1 = segments.map (parsed · |>.tree.body) ∧
      ((s.reset whole).readSegments segments.length).2.readProgram.1 =
        ⟨⟨(parsed last).tree.body,
            segments.any (parsed · |>.tree.isAsync) || (parsed last).tree.isAsync⟩,
          (parsed last).errors.map (ParseError.map (Token.moved bytes lines) (Span.moved bytes)),
          (parsed last).aborted⟩ := by
  intro parsed bytes lines whole
  have passed : Parser.Passed s.options
      (laterTokens keepComments 0 0 (leading segments ++ last)) false (s.reset whole) := by
    refine ⟨rfl, ?_, rfl, rfl, rfl, rfl, rfl⟩
    rw [laterTokens_zero]
    exact terminated_concat _ rfl
  obtain ⟨t, u, read, same, rest, passed⟩ := readSegments_passed last (fun _ _ => rfl)
    (ParserState.atRest_reset whole s) passed
    (fun segment hs => closedSource_of_anomalies (closed segment hs)) clean
  have begun : t.readUntil none = u.readUntil none := same none (by simp)
  rw [Nat.zero_add, Nat.zero_add, Bool.false_or] at passed
  refine ⟨by rw [read], ?_⟩
  rw [read]
  unfold ParserState.readProgram
  rw [begun]
  exact Parser.readProgram_after rfl rest passed

/-- A segment that waits inside a block, one with a block of its own, and behind them a program with
an error in it. -/
theorem read_segments_tick :
    let s : ParserState := .ofOptions default
    let waiting := "loop\nawait tick(n)\nendloop"
    let segments := [waiting, "if x then\ncall f()\nendif"]
    let last := "set x\ncall print(n)"
    let whole := (tokenize false (leading segments ++ last)).tokens
    (∀ segment ∈ segments, ∀ a ∈ (tokenize false segment).anomalies,
        a.kind ≠ .unterminatedString ∧ a.kind ≠ .unterminatedComment) ∧
      (∀ segment ∈ segments, (s.options.parsed false segment).errors = []) ∧
      (((s.reset whole).readSegments 2).1.map List.length) = [1, 1] ∧
      let result := ((s.reset whole).readSegments 2).2.readProgram.1
      result.tree.body.length = 2 ∧ result.tree.isAsync = true ∧ result.aborted = false ∧
        result.errors = [.expected .equals ⟨.endOfLine, none, some 9, ⟨65, 66⟩⟩] := by
  intro s waiting segments last whole
  have closed : ∀ segment ∈ segments, ∀ a ∈ (tokenize false segment).anomalies,
      a.kind ≠ .unterminatedString ∧ a.kind ≠ .unterminatedComment := by decide +kernel
  have clean : ∀ segment ∈ segments, (s.options.parsed false segment).errors = [] := by
    decide +kernel
  obtain ⟨bodies, program⟩ := read_segments s false segments last closed clean
  refine ⟨closed, clean, ?_, ?_⟩
  · exact (congrArg (List.map List.length) bodies).trans (by decide +kernel)
  · intro result
    rw [show result = _ from program]
    decide +kernel

/-- Here too it is not enough that no open text or comment is reported. -/
theorem reported_not_sufficient_segments :
    ¬ ∀ (s : ParserState) (keepComments : Bool) (first second : String),
      (∀ a ∈ (tokenize keepComments first).reported,
        a.kind ≠ .unterminatedString ∧ a.kind ≠ .unterminatedComment) →
      (s.options.parsed keepComments first).errors = [] →
      let whole := (tokenize keepComments (leading [first] ++ second)).tokens
      ((s.reset whole).readUntil (some .plainEnd)).1 =
          (s.options.parsed keepComments first).tree.body ∧
        ((s.reset whole).readUntil (some .plainEnd)).2.readProgram.1.tree.body =
          (s.options.parsed keepComments second).tree.body := by
  intro h
  let strays : String := String.ofList (List.replicate maxAnomalies '\\')
  have read := h (.ofOptions default) false (strays ++ "\"x") "y" (by decide +kernel)
    (by decide +kernel)
  have lengths := congrArg List.length read.2
  revert lengths
  decide +kernel

end MapScript
