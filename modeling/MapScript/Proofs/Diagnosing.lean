import MapScript.Proofs.Accounting
import MapScript.Proofs.Composition
import MapScript.Proofs.Covering
import MapScript.Proofs.Locating

/-!
# Diagnostics in their places

Every source has an output and diagnostics. They are the warnings on the source and then the errors
of the parser, each in the order of what they are about. All their spans lie in the source and cut
no character, and those of errors are spans of tokens.
-/
namespace MapScript

section
variable {keepComments : Bool} {source : String}

theorem within_of_mem_placedLexemes {p : PlacedLexeme} (h : p ∈ placedLexemes source.toList) :
    p.span.Within source := by
  obtain ⟨before, after, marks, -⟩ := place_of_mem_placedLexemes h
  exact marks.within

/-- The end of file is an empty slice at the end. -/
theorem marks_endToken (source : String) :
    (endToken source.toList).span.Marks source source "" "" where
  whole := by simp
  start := byteLength_toList source
  stop := byteLength_toList source

theorem within_of_mem_tokens {t : Token} (h : t ∈ (tokenize keepComments source).tokens) :
    t.span.Within source := by
  rw [tokens_tokenize] at h
  rcases List.mem_append.mp h with h | h
  · obtain ⟨p, hp, span⟩ := exists_lexeme_of_mem_sourceTokens h
    rw [span]
    exact within_of_mem_placedLexemes hp
  · rw [List.mem_singleton.mp h]
    exact (marks_endToken source).within

theorem within_of_mem_anomalies {a : Anomaly}
    (h : a ∈ (tokenize keepComments source).anomalies) : a.span.Within source := by
  obtain ⟨p, hp, found⟩ := List.mem_filterMap.mp h
  rw [← (PlacedLexeme.anomaly?_eq_some.mp found).2]
  exact within_of_mem_placedLexemes hp

/-- Tokens begin one after the other, the end of file last. -/
theorem increasing_tokens (keepComments : Bool) (source : String) :
    (tokenize keepComments source).tokens.Pairwise fun x y => x.span.start < y.span.start := by
  have nonempty : ∀ t ∈ sourceTokens keepComments source.toList, t.span.start < t.span.stop := by
    intro t ht
    obtain ⟨p, hp, span⟩ := exists_lexeme_of_mem_sourceTokens ht
    rw [span]
    exact span_lt_of_mem_placedLexemes hp
  rw [tokens_tokenize, List.pairwise_append]
  refine ⟨?_, List.pairwise_singleton _ _, ?_⟩
  · apply (pairwise_sourceTokens keepComments source.toList).imp_of_mem
    intro x y hx _ after
    have some := nonempty x hx
    omega
  · intro x hx last hl
    rw [List.mem_singleton.mp hl, (marks_endToken source).start]
    obtain ⟨p, hp, span⟩ := exists_lexeme_of_mem_sourceTokens hx
    have some := nonempty x hx
    have inside := (within_of_mem_placedLexemes hp).inside
    rw [span] at some ⊢
    omega

end

/-- Warnings on a source: each is about one span of it, and they follow each other there. -/
structure WarningsPlaced (source : String) (warnings : List Diagnostic) : Prop where
  severity : ∀ d ∈ warnings, d.severity = .warning
  length : warnings.length ≤ 50
  labels : ∀ d ∈ warnings, ∃ label, d.labels = [label] ∧ label.style = .primary ∧
    label.span.Within source
  ordered : warnings.Pairwise fun d e => ∀ a ∈ d.primarySpan?, ∀ b ∈ e.primarySpan?,
    a.stop ≤ b.start ∧ a.start < b.start

/-- Errors about the tokens of a source: each is about the span of one token, in their order. -/
structure ErrorsPlaced (source : String) (tokens : List Token) (errors : List Diagnostic) :
    Prop where
  severity : ∀ d ∈ errors, d.severity = .error
  length : errors.length ≤ 51
  primary : ∀ d ∈ errors, d.labels.countP (·.style == .primary) = 1
  within : ∀ d ∈ errors, ∀ label ∈ d.labels, label.span.Within source
  token : ∀ d ∈ errors, ∀ label ∈ d.labels, ∃ t ∈ tokens, t.span = label.span
  ordered : errors.Pairwise fun d e => ∀ a ∈ d.primarySpan?, ∀ b ∈ e.primarySpan?,
    a.start ≤ b.start
  /-- Only where the input ends too early is there another span, that of the keyword before it at
  which a block was opened. -/
  secondary : ∀ d ∈ errors, ∀ label ∈ d.labels, label.style = .secondary →
    d.code = some "E0101" ∧
      (∃ t ∈ tokens, t.kind = .keyword ∧ t.span = label.span) ∧
      ∀ a ∈ d.primarySpan?, label.span.start < a.start

/-- The labels of an error are its own span and that of the block it leaves open. -/
theorem ParseError.mem_labels {e : ParseError} {label : Label} (h : label ∈ e.toDiagnostic.labels) :
    (label.style = .primary ∧ label.span = e.span) ∨
      (label.style = .secondary ∧ e.opener? = some label.span) := by
  rcases List.mem_cons.mp h with rfl | h
  · exact .inl ⟨rfl, rfl⟩
  · obtain ⟨span, opener, rfl⟩ := Option.map_eq_some_iff.mp (Option.mem_toList.mp h)
    exact .inr ⟨rfl, opener⟩

theorem ParseError.code_of_opener? {e : ParseError} {span : Span} (h : e.opener? = some span) :
    e.code = "E0101" := by
  cases e with
  | unexpectedEnd => rfl
  | _ => cases h

/-- A parser keeps 50 errors and the one that says that it gave up. -/
theorem Account.Sound.length_le {a : Account} (h : a.Sound) : a.errors.length ≤ 51 := by
  rcases h with going | ⟨before, last, after, gaveUp⟩
  · exact Nat.le_succ_of_le going.reports.room
  · have room : before.length + after.length ≤ 50 := by
      rcases gaveUp.room with none | room
      · simpa [none, maxErrors] using gaveUp.reports.room
      · exact Nat.le_of_lt room
    have length := gaveUp.length
    omega

theorem length_errors_parse (o : ParseOptions) (tokens : List Token) :
    (parse o tokens).errors.length ≤ 51 := by
  have evolves := ((ParserState.ofOptions o).reset tokens).readUntil_evolves none
  exact (evolves.sound (ParserState.sound_start o (terminated tokens))).length_le

theorem warningsPlaced_reported (keepComments : Bool) (source : String) :
    WarningsPlaced source ((tokenize keepComments source).reported.map (·.toDiagnostic)) where
  severity := by
    intro d hd
    obtain ⟨a, -, rfl⟩ := List.mem_map.mp hd
    rfl
  length := by
    rw [List.length_map]
    exact List.length_take_le _ _
  labels := by
    intro d hd
    obtain ⟨a, ha, rfl⟩ := List.mem_map.mp hd
    exact ⟨_, rfl, rfl, within_of_mem_anomalies (List.mem_of_mem_take ha)⟩
  ordered := by
    apply List.pairwise_map.mpr
    apply ((pairwise_anomalies keepComments source).sublist (List.take_sublist _ _)).imp
    intro a b after x hx y hy
    cases hx
    cases hy
    exact after

theorem errorsPlaced_parse (o : ParseOptions) (keepComments : Bool) (source : String) :
    ErrorsPlaced source (tokenize keepComments source).tokens
      ((parse o (tokenize keepComments source).tokens).errors.map (·.toDiagnostic)) := by
  have whole : terminated (tokenize keepComments source).tokens =
      (tokenize keepComments source).tokens := terminated_concat _ rfl
  have increasing := increasing_tokens keepComments source
  rw [← whole] at increasing
  obtain ⟨sorted, located⟩ := parse_located o increasing
  rw [whole] at located
  constructor
  case severity =>
    intro d hd
    obtain ⟨e, -, rfl⟩ := List.mem_map.mp hd
    rfl
  case length =>
    rw [List.length_map]
    exact length_errors_parse _ _
  case primary =>
    intro d hd
    obtain ⟨e, -, rfl⟩ := List.mem_map.mp hd
    unfold ParseError.toDiagnostic
    cases e.opener? <;> rfl
  case within =>
    intro d hd label hl
    obtain ⟨e, he, rfl⟩ := List.mem_map.mp hd
    rcases ParseError.mem_labels hl with ⟨-, span⟩ | ⟨-, opener⟩
    · rw [span]
      exact within_of_mem_tokens (located e he).1
    · obtain ⟨x, hx, -, span, -⟩ := (located e he).2 _ opener
      rw [← span]
      exact within_of_mem_tokens hx
  case token =>
    intro d hd label hl
    obtain ⟨e, he, rfl⟩ := List.mem_map.mp hd
    rcases ParseError.mem_labels hl with ⟨-, span⟩ | ⟨-, opener⟩
    · exact ⟨e.token, (located e he).1, span.symm⟩
    · obtain ⟨x, hx, -, span, -⟩ := (located e he).2 _ opener
      exact ⟨x, hx, span⟩
  case ordered =>
    apply List.pairwise_map.mpr
    apply sorted.imp
    intro e f after x hx y hy
    cases hx
    cases hy
    exact after
  case secondary =>
    intro d hd label hl style
    obtain ⟨e, he, rfl⟩ := List.mem_map.mp hd
    rcases ParseError.mem_labels hl with ⟨other, -⟩ | ⟨-, opener⟩
    · cases other.symm.trans style
    · obtain ⟨x, hx, keyword, span, before⟩ := (located e he).2 _ opener
      refine ⟨congrArg some (ParseError.code_of_opener? opener), ⟨x, hx, keyword, span⟩, ?_⟩
      intro a ha
      cases ha
      exact before

/-- Every source has an output. Its diagnostics are the warnings on the source and then the errors
about its tokens, all of them well placed. -/
theorem compile_diagnostics (o : CompileOptions) (source : String) :
    ∃ c warnings errors, compile o source = .ok c ∧ c.diagnostics = warnings ++ errors ∧
      warnings = (tokenize o.keepComments source).reported.map (·.toDiagnostic) ∧
      errors = (o.parsed source).errors.map (·.toDiagnostic) ∧
      WarningsPlaced source warnings ∧
      ErrorsPlaced source (tokenize o.keepComments source).tokens errors := by
  obtain ⟨script, written⟩ := exists_generate_eq_ok (o := o.emitOptions)
    (unlisted_parse o.parseOptions (tokenize o.keepComments source).tokens)
  exact ⟨_, _, _, compile_of_generate written, rfl, rfl, rfl,
    warningsPlaced_reported o.keepComments source, errorsPlaced_parse o.parseOptions _ source⟩

end MapScript
