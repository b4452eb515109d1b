import MapScript.Proofs.Covering
import MapScript.Proofs.Layout.Nodes
import MapScript.Proofs.Origins

/-!
# The lines of programs

The output of a source is a list of lines that does not depend on the width of the indent. The
definitions before the program and the function around it stand at depth zero, and every other line
is as deep as the number of blocks around it. Only a string of the source can have a line break in
it, since the other words of a source never do.
-/
namespace MapScript

/-- The text is that of a string among the tokens. -/
def IsString (tokens : List Token) (text : String) : Prop :=
  ∃ t ∈ tokens, t.kind = .string ∧ t.word = text

theorem not_mem_of_form {kind : LexemeKind} {text after : List Char}
    (h : Lexeme.Form kind text after)
    (hk : kind ∈ [.word, .number, .symbol, .lineComment]) : '\n' ∉ text := by
  intro mem
  cases h with
  | lineComment free => simp [free] at mem
  | whole _ digits =>
      have digit := digits _ mem
      simp at digit
  | decimal _ _ digits fraction =>
      rcases List.mem_append.mp mem with mem | mem
      · have digit := digits _ mem
        simp at digit
      · have digit := fraction _ ((List.mem_cons.mp mem).resolve_left (by decide))
        simp at digit
  | word start rest =>
      rcases List.mem_cons.mp mem with rfl | mem
      · exact absurd start (by decide)
      · exact absurd (rest _ mem) (by decide)
  | double pair =>
      have free : ∀ pair ∈ Lexeme.doubleSymbols, '\n' ∉ [pair.1, pair.2] := by decide
      exact free _ pair mem
  | single symbol =>
      have free : '\n' ∉ Lexeme.singleSymbols := by decide
      rw [List.mem_singleton.mp mem] at free
      exact free symbol
  | _ => simp at hk

/-- The text of a comment is a part of it. -/
theorem not_mem_of_isCommentText {slice text : List Char} (h : IsCommentText slice text)
    (free : '\n' ∉ slice) : '\n' ∉ text := by
  obtain ⟨slashes, left, right, rfl, -⟩ := h
  intro mem
  exact free (by simp [mem])

/-- Only strings have line breaks in them. -/
theorem oneLine_word {keepComments : Bool} {source : String} {t : Token}
    (ht : t ∈ (tokenize keepComments source).tokens)
    (hk : t.kind ∈ [.keyword, .identifier, .number, .operator, .comment]) : OneLine t.word := by
  rw [tokens_tokenize] at ht
  rcases List.mem_append.mp ht with ht | last
  · obtain ⟨-, slice, after, -, -, -, said, kind, made, form⟩ :=
      (covered_tokenize keepComments source).token t ht
    unfold TokenKind.lexemeKinds at made
    unfold TokenKind.Says at said
    unfold Token.word
    simp only [List.mem_cons, List.not_mem_nil, or_false] at hk
    rcases hk with hk | hk | hk | hk | hk
    all_goals
      rw [hk] at made said
      obtain rfl := List.mem_singleton.mp made
      have free : OneLine slice := not_mem_of_form form (by decide)
    · rw [said.1]
      exact Emit.oneLine_lowerWord free
    · rw [said.1]
      exact free
    · rw [said]
      exact free
    · rw [said]
      exact free
    · obtain ⟨body, text, part⟩ := said
      rw [text]
      exact oneLine_ofList (not_mem_of_isCommentText part free)
  · rw [List.mem_singleton.mp last] at hk
    simp [endToken] at hk

theorem Text.fits_of_oneLine {Q : String → Prop} {x : Text} (h : OneLine x.text) : x.Fits Q := by
  cases x with
  | key word | value kind text => exact h.breaksOnlyIn
  | _ => exact h

/-- The texts of a token fit on a line, apart from the breaks in a string. -/
theorem fits_of_mem_texts {keepComments : Bool} {source : String} {t : Token}
    (ht : t ∈ (tokenize keepComments source).tokens) {x : Text} (hx : x ∈ t.texts) :
    x.Fits (IsString (tokenize keepComments source).tokens) := by
  have word : x.text = t.word := by
    unfold Token.texts at hx
    split at hx <;> simp at hx <;> grind [Text.text]
  by_cases hk : t.kind = .string
  · have quoted : BreaksOnlyIn (IsString (tokenize keepComments source).tokens) t.word :=
      breaksOnlyIn_of ⟨t, ht, hk, rfl⟩
    simp only [Token.texts, hk, List.mem_cons, List.not_mem_nil, or_false] at hx
    rcases hx with rfl | rfl <;> exact quoted
  · apply Text.fits_of_oneLine
    rw [word]
    apply oneLine_word ht
    unfold Token.texts at hx
    split at hx <;> simp_all

theorem oneLine_functionText {name params action : String} (hn : OneLine name)
    (hp : OneLine params) (ha : OneLine action) : OneLine (functionText name params action) := by
  have start : OneLine ("function " ++ privateName name ++ "(") :=
    (OneLine.append (by decide) (OneLine.append (by decide) hn)).append (by decide)
  exact (((start.append hp).append (by decide)).append ha).append (by decide)

theorem Helper.oneLine_definition : ∀ h ∈ all, OneLine h.definition := by
  have actions : ∀ h ∈ all, OneLine h.action := by
    simp only [all, List.forall_mem_cons, List.not_mem_nil, false_implies, implies_true, and_true]
    and_intros <;> exact oneLine_ofList (by decide)
  have names : ∀ h ∈ all, OneLine h.name ∧ OneLine h.params := by decide
  intro h hh
  exact oneLine_functionText (names h hh).1 (names h hh).2 (actions h hh)

theorem Instruction.oneLine_definition : ∀ i ∈ all, OneLine i.definition := by
  have actions : ∀ i ∈ all, OneLine i.action := by
    simp only [all, List.forall_mem_cons, List.not_mem_nil, false_implies, implies_true, and_true]
    and_intros <;> exact oneLine_ofList (by decide)
  have names : ∀ i ∈ all, OneLine i.name ∧ OneLine i.params := by decide
  intro i hi
  exact oneLine_functionText (names i hi).1 (names i hi).2 (actions i hi)

namespace Emit
variable {Q : String → Prop} {o : EmitOptions}

theorem lays_unindented {text : String} (h : OneLine text) :
    Lays Q (fun _ => text ++ "\n") [0] := by
  refine ((flows_oneLine h).line 0).congr ?_
  intro width
  simp [blanks]

theorem lays_definitions {α : Type} {xs : List α} {f : α → String}
    (h : ∀ x ∈ xs, OneLine (f x)) :
    Lays Q (fun _ => String.join (xs.map fun x => f x ++ "\n")) (List.replicate xs.length 0) := by
  induction xs with
  | nil => exact lays_nil
  | cons x xs ih =>
      obtain ⟨first, others⟩ := List.forall_mem_cons.mp h
      refine ((lays_unindented first).append (ih others)).congr ?_
      intro width
      simp

theorem lays_registerPrelude : Lays Q (fun _ => registerPrelude ++ "\n") [0, 0] := by
  have first : OneLine "const __regs = \x7b ax: 0, bx: 0, cx: 0, dx: 0 \x7d;" := by decide
  have second : OneLine "const __stack = [];" := by decide
  refine ((lays_unindented first).append (lays_unindented second)).congr ?_
  intro width
  decide

/-- Every line of the prologue stands at depth zero. -/
theorem lays_prologue (uses : List Use) :
    ∃ count, Lays Q (fun _ => prologue uses) (List.replicate count 0) := by
  have registers : ∃ count, Lays Q (fun _ =>
      if .register ∈ uses ∨ usedInstructions uses ≠ [] then registerPrelude ++ "\n" else "")
      (List.replicate count 0) := by
    split
    · exact ⟨2, lays_registerPrelude⟩
    · exact ⟨0, lays_nil⟩
  have instructions : Lays Q (fun _ =>
      String.join ((usedInstructions uses).map (·.definition ++ "\n")))
      (List.replicate (usedInstructions uses).length 0) :=
    lays_definitions fun i hi => Instruction.oneLine_definition i (List.mem_of_mem_filter hi)
  have helpers : Lays Q (fun _ => String.join ((usedHelpers uses).map (·.definition ++ "\n")))
      (List.replicate (usedHelpers uses).length 0) :=
    lays_definitions fun h hh => Helper.oneLine_definition h (List.mem_of_mem_filter hh)
  obtain ⟨count, registers⟩ := registers
  have all := (registers.append instructions).append helpers
  rw [List.replicate_append_replicate, List.replicate_append_replicate] at all
  exact ⟨_, all⟩

/-- What a program relies on does not depend on the width. -/
theorem prologue_withWidth {body : List Node}
    (known : ∀ op operands, Occurs (.instruction op operands) body →
      ∃ i ∈ Instruction.all, sameWord i.name op = true) (width : Nat) :
    prologue (nodes (o.withWidth width) .root none true body).uses =
      prologue (nodes o .root none true body).uses := by
  classical
  have needs : (o.withWidth width).NeedsRegisters body ↔ o.NeedsRegisters body := Iff.rfl
  unfold prologue
  dsimp only
  rw [if_congr ((needsRegisters_iff .root true known).trans
    (needs.trans (needsRegisters_iff .root true known).symm)) rfl rfl, usedInstructions_eq,
    usedInstructions_eq, usedHelpers_eq, usedHelpers_eq]

/-- The line that opens the function around a program. -/
def wrapperLine (isAsync : Bool) : String :=
  if isAsync then "(async () => \x7b" else "(() => \x7b"

theorem wrapped_renderLines (isAsync : Bool) (width : Nat) (lines : List (Nat × String)) :
    wrapped isAsync (renderLines width lines) =
      renderLines width ((0, wrapperLine isAsync) :: lines ++ [(0, "\x7d)();")]) := by
  have start : (if isAsync then "(async () => \x7b\n" else "(() => \x7b\n") =
      wrapperLine isAsync ++ "\n" := by
    cases isAsync <;> rfl
  have finish : ("\x7d)();\n" : String) = "\x7d)();" ++ "\n" := rfl
  rw [wrapped, start, finish, renderLines_append]
  simp [renderLines, blanks, String.append_assoc]

end Emit

theorem known_of_occurs {p : ParseOptions} {tokens : List Token} {op : String}
    {operands : List Node} (h : Occurs (.instruction op operands) (parse p tokens).tree.body) :
    ∃ i ∈ Instruction.all, sameWord i.name op = true := by
  obtain ⟨i, found⟩ := Option.isSome_iff_exists.mp (find?_isSome_of_occurs h)
  unfold Instruction.find? at found
  have same := List.find?_some found
  exact ⟨i, List.mem_of_find?_eq_some found, same⟩

/-- The texts of a tree that is read from a source fit on lines. -/
theorem allTexts_fits (keepComments : Bool) (source : String) (p : ParseOptions) :
    AllTexts (Text.Fits (IsString (tokenize keepComments source).tokens))
      (parse p (tokenize keepComments source).tokens).tree.body := by
  intro n hn x hx
  rcases parse_allTexts p _ n hn x hx with supplied | ⟨t, ht, text⟩
  · have fixed : ∀ x ∈ suppliedTexts, OneLine x.text := by decide
    exact Text.fits_of_oneLine (fixed x supplied)
  · exact fits_of_mem_texts ht text

/-- A tree of statements is written on lines that do not depend on the width. -/
theorem exists_lines {Q : String → Prop} {p : ParseOptions} (o : EmitOptions) {tree : Tree}
    (shape : Statements p tree.body) (fits : AllTexts (Text.Fits Q) tree.body)
    (known : ∀ op operands, Occurs (.instruction op operands) tree.body →
      ∃ i ∈ Instruction.all, sameWord i.name op = true) :
    ∃ start program finish : List (Nat × String),
      (∀ width, ∃ script, generate (o.withWidth width) tree = .ok script ∧
        script.code = renderLines width (start ++ program ++ finish)) ∧
      (∀ line ∈ start ++ program ++ finish, BreaksOnlyIn Q line.2) ∧
      (∀ line ∈ start ++ finish, line.1 = 0) ∧
      program.map (·.1) = statementDepths o.types 0 tree.body ∧
      ∀ width, renderLines width program =
        (Emit.nodes (o.withWidth width) .root none true tree.body).text := by
  obtain ⟨statements, shapes⟩ := shape
  have each : ∀ n ∈ tree.body, Emit.StatementLays Q o n := by
    intro n hn
    apply Emit.statementLays (p := p) _ _ (statements n hn)
    · simpa using (everywhere_iff _).mp shapes n hn
    · simpa using (everywhere_iff _).mp fits n hn
  obtain ⟨program, text, depths, breaks⟩ := Emit.lays_nodes (c := .root) statements each rfl rfl
  obtain ⟨count, definitions, prologue, level, free⟩ :=
    Emit.lays_prologue (Q := Q) (Emit.nodes o .root none true tree.body).uses
  have unindented : ∀ line ∈ definitions, line.1 = 0 := by
    intro line hl
    have mem : line.1 ∈ definitions.map (·.1) := List.mem_map_of_mem hl
    rw [level] at mem
    exact List.eq_of_mem_replicate mem
  have code (width : Nat) : Emit.prologue (Emit.nodes (o.withWidth width) .root none true
      tree.body).uses ++ (Emit.nodes (o.withWidth width) .root none true tree.body).text =
      renderLines width (definitions ++ program) := by
    rw [Emit.prologue_withWidth known, renderLines_append, ← prologue, ← text]
  have written (width : Nat) : ∃ script, generate (o.withWidth width) tree = .ok script ∧
      script.code = if o.wrap then Emit.wrapped tree.isAsync (renderLines width
        (definitions ++ program)) else renderLines width (definitions ++ program) := by
    unfold generate
    dsimp only
    rw [Emit.unknown?_nodes, flatMap_unlisted_eq_nil known, code]
    exact ⟨_, rfl, rfl⟩
  cases hw : o.wrap with
  | false =>
      refine ⟨definitions, program, [], ?_, ?_, ?_, depths, fun width => (text width).symm⟩
      · intro width
        simpa [hw] using written width
      · rw [List.append_nil]
        exact List.forall_mem_append.mpr ⟨free, breaks⟩
      · simpa using unindented
  | true =>
      refine ⟨(0, Emit.wrapperLine tree.isAsync) :: definitions, program, [(0, "\x7d)();")], ?_, ?_,
        ?_, depths, fun width => (text width).symm⟩
      · intro width
        simpa [hw, Emit.wrapped_renderLines] using written width
      · have opening : OneLine (Emit.wrapperLine tree.isAsync) := by cases tree.isAsync <;> decide
        have closing : OneLine "\x7d)();" := by decide
        intro line hl
        simp only [List.cons_append, List.append_assoc, List.mem_cons, List.mem_append,
          List.not_mem_nil, or_false] at hl
        rcases hl with rfl | hl | hl | rfl
        · exact opening.breaksOnlyIn
        · exact free line hl
        · exact breaks line hl
        · exact closing.breaksOnlyIn
      · intro line hl
        simp only [List.cons_append, List.mem_cons, List.mem_append, List.not_mem_nil,
          or_false] at hl
        rcases hl with rfl | hl | rfl
        · rfl
        · exact unindented line hl
        · rfl

/-- The output of a source is made of lines that do not depend on the width of the indent. A line
has as many blanks in front as its depth times the width. The lines of the program are as deep as
the blocks around them, the others stand at depth zero, and only within a string of the source can
the text of a line have a line break. -/
theorem generate_lines (keepComments : Bool) (source : String) (p : ParseOptions)
    (o : EmitOptions) :
    ∃ start program finish : List (Nat × String),
      (∀ width, ∃ script,
        generate (o.withWidth width) (parse p (tokenize keepComments source).tokens).tree =
          .ok script ∧
        script.code = renderLines width (start ++ program ++ finish)) ∧
      (∀ line ∈ start ++ program ++ finish,
        BreaksOnlyIn (IsString (tokenize keepComments source).tokens) line.2) ∧
      (∀ line ∈ start ++ finish, line.1 = 0) ∧
      program.map (·.1) =
        statementDepths o.types 0 (parse p (tokenize keepComments source).tokens).tree.body ∧
      ∀ width, renderLines width program = (Emit.nodes (o.withWidth width) .root none true
        (parse p (tokenize keepComments source).tokens).tree.body).text :=
  exists_lines o (statements_parse p _) (allTexts_fits keepComments source p)
    fun _ _ => known_of_occurs

/-- A block in the middle of a line, with a branch in it. -/
example : statementDepths false 0 (parse ⟨false, false, 50⟩ (tokenize false
    "local x = f(do\nif a\nreturn 1\nelse\nreturn 2\nend\nend, 3)\n").tokens).tree.body =
    [0, 1, 2, 1, 2, 1, 0] := by
  decide +kernel

end MapScript
