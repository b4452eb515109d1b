import MapScript.Lexeme.Tokens
import MapScript.Proofs.Accounting
import MapScript.Proofs.Comparing.Settings

/-!
# Parsers with different budgets

The budget only decides where a parser stops. Two parsers that differ in nothing else do the same
until the one with the smaller budget gives up. It still closes what is open then, and may find
errors and make nodes on the way, but all of this goes into one statement of the program: what
comes before is the same for both.
-/
namespace MapScript

theorem Step.aborted {s t : ParserState} (h : Step s t) (hs : s.aborted = true) :
    t.aborted = true := by
  cases h with
  | advance => rwa [s.aborted_advance]
  | expected | ended => rwa [s.aborted_record]
  | markAsync => rwa [s.aborted_markAsync]
  | reject going => cases going.symm.trans hs
  | skipLineEnds | note => exact hs

theorem Evolves.aborted {s t : ParserState} (h : Evolves s t) (hs : s.aborted = true) :
    t.aborted = true := by
  induction h with
  | refl => exact hs
  | single step => exact step.aborted hs
  | trans _ _ ih ih' => exact ih' (ih hs)
  | framed _ ih | blocked _ _ ih => exact ih hs

/-- The first parser has given up, and the second has the errors that the first had before. -/
structure GaveUpFirst (s t : ParserState) : Prop where
  aborted : s.aborted = true
  larger : 1 < t.options.retryBudget
  errors : ∃ before last after,
    s.errors = before ++ .budgetExhausted last :: after ∧ before <+: t.errors

theorem GaveUpFirst.evolves {s t s' t' : ParserState} (h : GaveUpFirst s t) (hs : Evolves s s')
    (ht : Evolves t t') : GaveUpFirst s' t' := by
  obtain ⟨before, last, after, split, common⟩ := h.errors
  obtain ⟨more, errors⟩ := hs.errors_prefix
  refine ⟨hs.aborted h.aborted, ht.options ▸ h.larger, before, last, after ++ more, ?_,
    common.trans ht.errors_prefix⟩
  rw [← errors, split, List.append_assoc, List.cons_append]

/-- Two parsers that began with different budgets and skipped equally many tokens. -/
def Settings.budget : Settings where
  Rel o b o' b' := o'.types = o.types ∧ o'.asm = o.asm ∧ o.retryBudget ≤ o'.retryBudget ∧
    ∃ skipped, b = o.retryBudget - skipped ∧ b' = o'.retryBudget - skipped
  Apart := GaveUpFirst
  onType := some
  Ahead _ := True
  asm rel := .inl rel.2.1
  types rel word := by
    rw [rel.1, Option.bind_fun_some]
  spend := by
    rintro o o' b b' ⟨types, asm, le, skipped, rfl, rfl⟩
    exact ⟨types, asm, le, skipped + 1, Nat.sub_sub .., Nat.sub_sub ..⟩
  first := by
    rintro o o' b b' ⟨-, -, le, skipped, rfl, rfl⟩
    omega
  part := by
    rintro s o b trail last ⟨-, -, -, skipped, -, rfl⟩ - left
    refine ⟨rfl, ?_, s.skip.errors, last, [], rfl, List.prefix_rfl⟩
    change 1 < o.retryBudget
    omega
  apart := GaveUpFirst.evolves
  apart_leaveFrame h := ⟨h.aborted, h.larger, h.errors⟩
  apart_leaveBlock h := ⟨h.aborted, h.larger, h.errors⟩

namespace Parser

/-- The parser yields one node or none. -/
def AtMostOne (p : Parser (List Node)) : Prop := ∀ s, (p s).1.length ≤ 1

section
variable {α : Type} {nested : PlaceReader}

theorem atMostOne_node (p : Parser α) (make : α → Node) :
    AtMostOne (do return [make (← p)]) := fun _ => Nat.le_refl 1

theorem AtMostOne.after {p : Parser α} {f : α → Parser (List Node)} (h : ∀ a, AtMostOne (f a)) :
    AtMostOne (p >>= f) := fun s => h (p s).1 (p s).2

theorem expressionStatement_atMostOne (scope : Scope) :
    AtMostOne (expressionStatement nested scope) := by
  refine .after fun parts => ?_
  split
  · exact .after fun _ _ => Nat.zero_le 1
  · exact fun _ => Nat.le_refl 1

theorem assignment_atMostOne : AtMostOne (assignment nested) := by
  refine .after fun _ => .after fun parts => ?_
  cases splitAssignment? parts with
  | some split => exact fun _ => Nat.le_refl 1
  | none =>
      refine .after fun _ _ => ?_
      change (if parts.isEmpty then _ else _ : List Node).length ≤ 1
      split <;> simp

theorem wordStatement_atMostOne
    (condition : ∀ opener, AtMostOne (do return (← nested (.condition opener)).1)) (scope : Scope)
    (word : StatementWord) : AtMostOne (wordStatement nested scope word) := by
  cases word with
  | localDecl => exact .after fun _ => atMostOne_node _ id
  | set => exact assignment_atMostOne
  | ifStmt => exact .after fun t => .after fun _ => condition t.span
  | call => exact .after fun _ => expressionStatement_atMostOne scope
  | debug => exact .after fun _ _ => Nat.le_refl 1
  | expression => exact expressionStatement_atMostOne scope
  | _ => exact atMostOne_node _ _

theorem nameStatement_atMostOne (scope : Scope) : AtMostOne (nameStatement nested scope) := by
  refine .after fun s => ?_
  split
  · exact atMostOne_node _ id
  split
  · exact atMostOne_node _ id
  · exact expressionStatement_atMostOne scope

end

theorem statement?_atMostOne (scope : Scope) (s : ParserState) :
    ∀ nodes ∈ (statement? Place.read scope s).1, nodes.length ≤ 1 := by
  have condition (opener : Span) :
      AtMostOne (do return (← (Place.condition opener).read).1) := by
    intro s
    change ((Place.condition opener).read s).1.1.length ≤ 1
    rw [Place.read_eq]
    exact Nat.le_refl 1
  have found {p : Parser (List Node)} (h : AtMostOne p) (s : ParserState) :
      ∀ nodes ∈ ((do return some (← p) : Parser _) s).1, nodes.length ≤ 1 := by
    rintro nodes ⟨⟩
    exact h s
  have statement : AtMostOne (expressionStatement Place.read scope) :=
    expressionStatement_atMostOne scope
  unfold statement?
  rw [run_current_bind]
  cases s.current.kind with
  | keyword =>
      dsimp only
      rw [run_modify_bind]
      cases StatementWord.ofWord? s.current.word with
      | none => exact fun _ h => by cases h
      | some word => exact found (wordStatement_atMostOne condition scope word) _
  | comment =>
      rintro nodes ⟨⟩
      exact Nat.le_refl 1
  | identifier => exact found (nameStatement_atMostOne scope) s
  | number | string | operator | leftParen | leftBrace => exact found statement s
  | _ => exact fun _ h => by cases h

theorem programPass_atMostOne (s : ParserState) {new : List Node} :
    (programPass ([], none) s).1 = .again (new, none) → new.length ≤ 1 := by
  unfold programPass statementPass
  rw [run_get_bind]
  split
  · rintro ⟨⟩
  cases [Stop.endOfFile].find? (·.accepts s.current) with
  | some stop => rintro ⟨⟩
  | none =>
      dsimp only
      cases s.current.kind with
      | endOfLine =>
          rintro ⟨⟩
          exact Nat.zero_le 1
      | endOfFile => rintro ⟨⟩
      | _ =>
          dsimp only
          rw [run_bind]
          cases found : (statement? Place.read .block s).1 with
          | none =>
              rintro ⟨⟩
              exact Nat.zero_le 1
          | some nodes =>
              rintro ⟨⟩
              exact statement?_atMostOne .block s nodes found

/-- Before the end of file a pass adds one node or none. -/
theorem programPass_adds {s : ParserState} (hk : s.current.kind ≠ .endOfFile)
    (ha : s.aborted = false) (nodes : List Node) :
    ∃ new next, programPass (nodes, none) s = (.again (nodes ++ new, none), next) ∧
      new.length ≤ 1 ∧ next.rest.length < s.rest.length := by
  obtain ⟨new, next, run, lt⟩ := programPass_goes_on hk ha []
  refine ⟨new, next, ?_, programPass_atMostOne s (congrArg Prod.fst run), lt⟩
  have after := statementPass_after Place.read .block [.endOfFile] nodes ([], none) s
  change programPass (nodes ++ [], none) s =
    ((programPass ([], none) s).1.map _, (programPass ([], none) s).2) at after
  rwa [List.append_nil, run] at after

/-- A parser that has given up reads no more statements. -/
theorem repeated_programPass_aborted {s : ParserState} (h : s.aborted = true) (nodes : List Node) :
    repeated programPass (nodes, none) s = ((nodes, none), s) := by
  apply repeated_of_done
  unfold programPass statementPass
  rw [run_get_bind, if_pos h]
  rfl

theorem programPass_budget {s t : ParserState} (like : Settings.budget.Like s t)
    (reading : Reading) :
    Settings.budget.comparison.Outcome Eq (programPass reading s) (programPass reading t) := by
  have same : Settings.budget.comparison.reading = id := Comparison.reading_of_some rfl
  have outcome := statementPass_copies Place.read Place.read .block [.endOfFile] reading s t
    (c := Settings.budget.comparison) like
  rw [same] at outcome
  refine outcome.imp_left (And.imp_left fun value => ?_)
  have value : (programPass reading t).1 = (programPass reading s).1.map id := value
  rw [value]
  cases (programPass reading s).1 <;> rfl

theorem dropLast_append_prefix {nodes new : List Node} (one : new.length ≤ 1) :
    (nodes ++ new).dropLast <+: nodes := by
  cases new with
  | nil =>
      rw [List.append_nil]
      exact List.dropLast_prefix nodes
  | cons n rest =>
      have none : rest = [] := List.length_eq_zero_iff.mp (by simpa using one)
      simp [none]

/-- What the two parsers have in common at the end of a program. -/
theorem repeated_programPass_budget {s t : ParserState} (like : Settings.budget.Like s t)
    (nodes : List Node) :
    (repeated programPass (nodes, none) t).1 = (repeated programPass (nodes, none) s).1 ∧
      Settings.budget.Like (repeated programPass (nodes, none) s).2
        (repeated programPass (nodes, none) t).2 ∨
    GaveUpFirst (repeated programPass (nodes, none) s).2
        (repeated programPass (nodes, none) t).2 ∧
      (repeated programPass (nodes, none) s).1.1.dropLast <+:
        (repeated programPass (nodes, none) t).1.1 := by
  induction hn : s.rest.length using Nat.strongRecOn generalizing nodes s t with
  | ind n ih =>
      subst hn
      have aborted : t.aborted = s.aborted := Settings.budget.comparison.aborted like
      have kind : t.current.kind = s.current.kind := (Settings.budget.comparison.token like).kind
      have outcome := programPass_budget like (nodes, none)
      by_cases gaveUp : s.aborted = true
      · rw [repeated_programPass_aborted gaveUp,
          repeated_programPass_aborted (aborted.trans gaveUp)]
        exact .inl ⟨rfl, like⟩
      have going : s.aborted = false := Bool.eq_false_iff.mpr gaveUp
      by_cases ended : s.current.kind = .endOfFile
      · rw [repeated_of_done (programPass_at_end ended going _),
          repeated_of_done (programPass_at_end (kind.trans ended) (aborted.trans going) _)]
        exact .inl ⟨rfl, like⟩
      obtain ⟨new, next, run, one, lt⟩ := programPass_adds ended going nodes
      obtain ⟨new', next', run', -, lt'⟩ :=
        programPass_adds (by rwa [kind]) (aborted.trans going) nodes
      rw [repeated_of_again run lt, repeated_of_again run' lt']
      rw [run, run'] at outcome
      rcases outcome with ⟨same, like'⟩ | apart
      · have same : new' = new := by simpa using same.symm
        rw [same]
        exact ih _ lt like' _ rfl
      · -- The first parser has given up in this statement and reads no other one.
        have evolves : Evolves next' (repeated programPass (nodes ++ new', none) next').2 :=
          Evolving.evolves next'
        rw [repeated_programPass_aborted apart.aborted]
        refine .inr ⟨apart.evolves (.refl next) evolves, ?_⟩
        rw [repeated_programPass_after]
        change (nodes ++ new).dropLast <+: nodes ++ new' ++ _
        have before : (nodes ++ new).dropLast <+: nodes := dropLast_append_prefix one
        rw [List.append_assoc]
        exact before.trans (List.prefix_append _ _)

end Parser

theorem parse_eq_repeated (o : ParseOptions) (tokens : List Token) :
    let r := Parser.repeated Parser.programPass ([], none) (.start o (terminated tokens))
    parse o tokens = ⟨⟨r.1.1, r.2.isAsync⟩, r.2.errors, r.2.aborted⟩ :=
  parse_eq o tokens (Parser.read_program _)

/-- A larger budget changes nothing, or the parser with the smaller one gives up first. -/
theorem parse_eq_or_gaveUp (types asm : Bool) {b b' : Nat} (h : b ≤ b') (tokens : List Token) :
    let small := parse ⟨types, asm, b⟩ tokens
    let large := parse ⟨types, asm, b'⟩ tokens
    large = small ∨ small.aborted = true ∧ 1 < b' ∧
      (∃ before last after, small.errors = before ++ .budgetExhausted last :: after ∧
        before <+: large.errors) ∧
      small.tree.body.dropLast <+: large.tree.body := by
  dsimp only
  have start : Settings.budget.Like (.start ⟨types, asm, b⟩ (terminated tokens))
      (.start ⟨types, asm, b'⟩ (terminated tokens)) :=
    ⟨⟨types, asm, b'⟩, b', [], rfl, ⟨rfl, rfl, h, 0, rfl, rfl⟩, fun _ _ => trivial⟩
  have options : (Parser.repeated Parser.programPass ([], none)
      (.start ⟨types, asm, b'⟩ (terminated tokens))).2.options = ⟨types, asm, b'⟩ :=
    (Evolving.evolves _ : Evolves _ _).options
  have first := parse_eq_repeated ⟨types, asm, b⟩ tokens
  have second := parse_eq_repeated ⟨types, asm, b'⟩ tokens
  dsimp only at first second
  rw [first, second]
  rcases Parser.repeated_programPass_budget start [] with ⟨value, like⟩ | ⟨apart, body⟩
  · obtain ⟨o, budget, trail, same, -⟩ := like
    left
    rw [value, same]
    rfl
  · have larger := apart.larger
    rw [options] at larger
    exact .inr ⟨apart.aborted, larger, apart.errors, body⟩

/-- A parser that has given up has said so once. -/
theorem exhausted_of_aborted {o : ParseOptions} {tokens : List Token}
    (h : (parse o tokens).aborted = true) :
    (parse o tokens).errors.countP (·.isExhausted) = 1 ∧
      ∃ before last after,
        (parse o tokens).errors = before ++ .budgetExhausted last :: after := by
  have evolves := ((ParserState.ofOptions o).reset tokens).readUntil_evolves none
  have sound := evolves.sound (ParserState.sound_start o (terminated tokens))
  rcases sound with going | ⟨before, last, after, gaveUp⟩
  · cases going.aborted.symm.trans h
  · exact ⟨gaveUp.exhausted, before, last, after, gaveUp.errors⟩

theorem plain_of_exhausted {before after : List ParseError} {last : Token}
    (h : (before ++ .budgetExhausted last :: after).countP (·.isExhausted) = 1) :
    ∀ e ∈ before ++ after, e.isExhausted = false := by
  have others : (before ++ after).countP (·.isExhausted) = 0 := by
    rw [List.countP_append, List.countP_cons] at h
    change _ + (_ + 1) = 1 at h
    rw [List.countP_append]
    omega
  intro e he
  exact Bool.eq_false_iff.mpr (List.countP_eq_zero.mp others e he)

/-- With a larger budget a program is read in the same way, or it is read further: a parser that
has not given up finds the same, and one that has given up agrees with the other in the errors
before and in all statements but its last. The least budgets mean the same. -/
theorem parse_retryBudget (types asm : Bool) {b b' : Nat} (h : b ≤ b') (tokens : List Token) :
    let small := parse ⟨types, asm, b⟩ tokens
    let large := parse ⟨types, asm, b'⟩ tokens
    (small.aborted = false → large = small) ∧
    (small.aborted = true →
      (∃ before last after, small.errors = before ++ .budgetExhausted last :: after ∧
        (∀ e ∈ before ++ after, e.isExhausted = false) ∧ before <+: large.errors) ∧
      small.tree.body.dropLast <+: large.tree.body) ∧
    parse ⟨types, asm, 0⟩ tokens = parse ⟨types, asm, 1⟩ tokens := by
  dsimp only
  refine ⟨fun going => ?_, fun gaveUp => ?_, ?_⟩
  · rcases parse_eq_or_gaveUp types asm h tokens with same | ⟨gaveUp, -⟩
    · exact same
    · cases going.symm.trans gaveUp
  · obtain ⟨once, before, last, after, split⟩ := exhausted_of_aborted gaveUp
    rcases parse_eq_or_gaveUp types asm h tokens with
      same | ⟨-, -, ⟨before, last, after, split, common⟩, body⟩
    · rw [split] at once
      refine ⟨⟨before, last, after, split, plain_of_exhausted once, ?_⟩, ?_⟩
      · rw [same, split]
        exact List.prefix_append _ _
      · rw [same]
        exact List.dropLast_prefix _
    · rw [split] at once
      exact ⟨⟨before, last, after, split, plain_of_exhausted once, common⟩, body⟩
  · rcases parse_eq_or_gaveUp types asm (Nat.zero_le 1) tokens with same | ⟨-, less, -⟩
    · exact same.symm
    · exact absurd less (Nat.lt_irrefl 1)

/-- The first parser gives up inside the function, the second one after it. -/
theorem parse_retryBudget_function :
    let tokens := (tokenize false "set a = 1\nfunction f\n)\nend\nset b = 2\n)").tokens
    let small := parse ⟨false, false, 1⟩ tokens
    let large := parse ⟨false, false, 2⟩ tokens
    1 ≤ 2 ∧ small.aborted = true ∧ small.tree.body.length = 2 ∧ large.tree.body.length = 3 ∧
      (∃ before last after, small.errors = before ++ .budgetExhausted last :: after ∧
        (∀ e ∈ before ++ after, e.isExhausted = false) ∧ before <+: large.errors) ∧
      small.tree.body.dropLast <+: large.tree.body := by
  intro tokens small large
  have le : 1 ≤ 2 := by decide
  have gaveUp : small.aborted = true := by decide +kernel
  exact ⟨le, gaveUp, by decide +kernel, by decide +kernel,
    (parse_retryBudget false false le tokens).2.1 gaveUp⟩

end MapScript
