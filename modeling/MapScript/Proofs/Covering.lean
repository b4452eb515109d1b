import MapScript.Proofs.Placement

/-!
# Every byte of a source is accounted for

The tokens of a source and the pieces that were dropped between them cover it, each byte once. A
token says what stands in its slice of the source. A dropped piece is white space, a comment or a
character of no lexeme, and each piece that has something wrong with it gives one anomaly, at that
piece.
-/
namespace MapScript

open Lexeme (Form Stops Inside commentEnd isStrayChar isBlankChar isWordChar isQuote)

theorem eq_of_byteLength_eq {first first' second second' : List Char}
    (whole : first ++ second = first' ++ second')
    (length : byteLength first = byteLength first') : first = first' := by
  induction first generalizing first' with
  | nil =>
      cases first' with
      | nil => rfl
      | cons c cs =>
          have some := byteLength_pos (List.cons_ne_nil c cs)
          rw [byteLength_nil] at length
          omega
  | cons c first ih =>
      cases first' with
      | nil =>
          have some := byteLength_pos (List.cons_ne_nil c first)
          rw [byteLength_nil] at length
          omega
      | cons d first' =>
          obtain ⟨rfl, rest⟩ := List.cons.inj whole
          rw [byteLength_cons, byteLength_cons] at length
          rw [ih rest (by omega)]

/-- A span marks one slice of a source. -/
theorem Span.Marks.unique {span : Span} {source before slice after before' slice' after' : String}
    (h : span.Marks source before slice after) (h' : span.Marks source before' slice' after') :
    slice = slice' ∧ after = after' := by
  have whole := congrArg String.toList (h.whole.symm.trans h'.whole)
  simp only [String.toList_append, List.append_assoc] at whole
  have start : byteLength before.toList = byteLength before'.toList := by
    rw [byteLength_toList, byteLength_toList, ← h.start, ← h'.start]
  have same := eq_of_byteLength_eq whole start
  rw [same] at whole
  have rest := List.append_cancel_left whole
  have stop : byteLength slice.toList = byteLength slice'.toList := by
    have first := h.start
    have first' := h'.start
    have last := h.stop
    have last' := h'.stop
    rw [byteLength_toList, byteLength_toList]
    omega
  have same := eq_of_byteLength_eq rest stop
  rw [same] at rest
  exact ⟨String.toList_inj.mp same, String.toList_inj.mp (List.append_cancel_left rest)⟩

/-- A slice of a source is a lexeme of one kind. -/
theorem Lexeme.Form.unique {kind kind' : LexemeKind} {text after : List Char}
    (h : Form kind text after) (h' : Form kind' text after) : kind = kind' := by
  obtain ⟨c, taken, rfl⟩ := List.exists_cons_of_ne_nil h.ne_nil
  have same := (Lexeme.cut_of_form h rfl).symm.trans (Lexeme.cut_of_form h' rfl)
  exact congrArg Lexeme.Cut.kind same

/-- The text of a comment is its slice without the slashes in front and the white space around. -/
def IsCommentText (slice text : List Char) : Prop :=
  ∃ slashes left right, slice = slashes ++ (left ++ text ++ right) ∧
    (∀ c ∈ slashes, c = '/') ∧ Stops (· == '/') (left ++ text ++ right) ∧
    (∀ c ∈ left ++ right, isBlank c = true) ∧ Stops isBlank text ∧ Stops isBlank text.reverse

namespace TokenKind

/-- The kinds of lexemes that a token of the kind is made from. -/
def lexemeKinds : TokenKind → List LexemeKind
  | endOfLine => [.lineEnd]
  | endOfFile => []
  | keyword | identifier => [.word]
  | number => [.number]
  | string => [.quoted true, .quoted false]
  | operator => [.symbol]
  | leftParen => [.leftParen]
  | rightParen => [.rightParen]
  | leftBrace => [.leftBrace]
  | rightBrace => [.rightBrace]
  | comment => [.lineComment]

/-- A token of the kind with this text says what the slice says. -/
def Says (kind : TokenKind) (text : Option String) (slice : String) : Prop :=
  match kind with
  | endOfLine | endOfFile => text = none
  | keyword => text = some (lowerWord slice) ∧ lowerWord slice ∈ keywords
  | identifier => text = some slice ∧ lowerWord slice ∉ keywords ∧ slice ≠ "#"
  | comment => ∃ body, text = some (String.ofList body) ∧ IsCommentText slice.toList body
  | _ => text = some slice

end TokenKind

/-- A word is a keyword when its small spelling is in the table. -/
theorem isKeyword_iff_mem (word : String) : isKeyword word = true ↔ lowerWord word ∈ keywords := by
  have small : (keywords.all fun k => lowerWord k == k) = true := by decide
  unfold isKeyword
  rw [List.any_eq_true]
  constructor
  · intro found
    obtain ⟨k, hk, same⟩ := found
    have spelt := beq_iff_eq.mp (List.all_eq_true.mp small k hk)
    unfold sameWord at same
    rw [beq_iff_eq] at same
    unfold lowerWord at spelt ⊢
    rw [← same, spelt]
    exact hk
  · intro listed
    refine ⟨lowerWord word, listed, ?_⟩
    have spelt := beq_iff_eq.mp (List.all_eq_true.mp small _ listed)
    unfold sameWord
    rw [beq_iff_eq]
    have chars := congrArg String.toList spelt
    simp only [lowerWord, String.toList_ofList] at chars ⊢
    exact chars

theorem dropEnd_append (p : Char → Bool) (text : List Char) :
    dropEnd p text ++ (text.reverse.takeWhile p).reverse = text := by
  unfold dropEnd
  rw [← List.reverse_append, List.takeWhile_append_dropWhile, List.reverse_reverse]

/-- What is trimmed off a text is the white space around it. -/
theorem trimBlank_spec (text : List Char) :
    ∃ left right, text = left ++ trimBlank text ++ right ∧ (∀ c ∈ left ++ right, isBlank c = true) ∧
      Stops isBlank (trimBlank text) ∧ Stops isBlank (trimBlank text).reverse := by
  have left := List.takeWhile_append_dropWhile (p := isBlank) (l := text)
  have right := dropEnd_append isBlank (text.dropWhile isBlank)
  refine ⟨text.takeWhile isBlank, ((text.dropWhile isBlank).reverse.takeWhile isBlank).reverse,
    ?_, ?_, ?_, ?_⟩
  · rw [List.append_assoc, trimBlank, right, left]
  · intro c hc
    rcases List.mem_append.mp hc with hc | hc
    · exact Lexeme.of_mem_takeWhile hc
    · exact Lexeme.of_mem_takeWhile (List.mem_reverse.mp hc)
  · -- what is cut off at the end does not reach the first character
    intro c hc
    apply Lexeme.stops_dropWhile (p := isBlank) text
    obtain ⟨rest, trimmed⟩ := List.head?_eq_some_iff.mp hc
    unfold trimBlank at trimmed
    rw [← right, trimmed]
    rfl
  · unfold trimBlank dropEnd
    rw [List.reverse_reverse]
    exact Lexeme.stops_dropWhile _

theorem isCommentText_trimBlank (slice : List Char) :
    IsCommentText slice (trimBlank (slice.dropWhile (· == '/'))) := by
  obtain ⟨left, right, whole, blank, first, last⟩ := trimBlank_spec (slice.dropWhile (· == '/'))
  refine ⟨slice.takeWhile (· == '/'), left, right, ?_, ?_, ?_, blank, first, last⟩
  · rw [← whole, List.takeWhile_append_dropWhile]
  · intro c hc
    exact beq_iff_eq.mp (Lexeme.of_mem_takeWhile (p := (· == '/')) hc)
  · rw [← whole]
    exact Lexeme.stops_dropWhile slice

/-- A word is a keyword in small letters or an identifier as it stands, but for a lone hash. -/
theorem Lexeme.content?_word_eq_some {keepComments : Bool} {text : List Char}
    {content : TokenKind × Option String}
    (h : content? keepComments ⟨.word, text⟩ = some content) :
    String.ofList text ≠ "#" ∧
      (isKeyword (String.ofList text) = true ∧
          content = (.keyword, some (lowerWord (String.ofList text))) ∨
        isKeyword (String.ofList text) = false ∧
          content = (.identifier, some (String.ofList text))) := by
  unfold content? at h
  dsimp only at h
  split at h
  · cases h
  · rename_i notHash
    refine ⟨notHash, ?_⟩
    split at h
    · rename_i listed
      exact .inl ⟨listed, (Option.some.inj h).symm⟩
    · rename_i listed
      exact .inr ⟨Bool.eq_false_iff.mpr listed, (Option.some.inj h).symm⟩

/-- A token says what its lexeme says, and only the end of a line has no text. -/
theorem says_of_content? {keepComments : Bool} {lexeme : Lexeme} {kind : TokenKind}
    {text : Option String} (h : lexeme.content? keepComments = some (kind, text)) :
    lexeme.kind ∈ kind.lexemeKinds ∧ kind.Says text (String.ofList lexeme.text) ∧
      (text = none ↔ kind = .endOfLine) ∧ (kind = .comment → keepComments = true) := by
  obtain ⟨lexemeKind, slice⟩ := lexeme
  dsimp only
  cases lexemeKind with
  | word =>
      have listed := isKeyword_iff_mem (String.ofList slice)
      obtain ⟨notHash, ⟨isWord, made⟩ | ⟨isWord, made⟩⟩ := Lexeme.content?_word_eq_some h
      · cases made
        exact ⟨by decide, ⟨rfl, listed.mp isWord⟩, by simp, by simp⟩
      · cases made
        rw [Bool.eq_false_iff] at isWord
        exact ⟨by decide, ⟨rfl, fun hw => isWord (listed.mpr hw), notHash⟩, by simp, by simp⟩
  | lineComment =>
      unfold Lexeme.content? at h
      dsimp only at h
      split at h
      · rename_i keep
        cases h
        refine ⟨by decide, ⟨_, rfl, ?_⟩, by simp, fun _ => keep⟩
        rw [String.toList_ofList]
        exact isCommentText_trimBlank slice
      · cases h
  | quoted closed =>
      cases h
      exact ⟨by cases closed <;> decide, rfl, by simp, by simp⟩
  | blank | blockComment _ | stray => cases h
  | lineEnd | number | leftParen | rightParen | leftBrace | rightBrace | symbol =>
      cases h
      exact ⟨by decide, rfl, by simp, by simp⟩

/-- Something is wrong with a piece of the source that has `after` behind it. -/
inductive Wrong : List Char → List Char → AnomalyKind → Prop
  | stray {c : Char} {after : List Char} : isStrayChar c = true →
      Wrong [c] after (.unexpectedChar c)
  | loneHash {after : List Char} : Stops isWordChar after → Wrong ['#'] after (.unexpectedChar '#')
  | openComment {body : List Char} : ¬ commentEnd <:+: body →
      Wrong ('/' :: '*' :: body) [] .unterminatedComment
  | openText {quote : Char} {body : List Char} : isQuote quote = true → Inside quote body →
      Wrong (quote :: body) [] .unterminatedString
  | openEscape {quote : Char} {body : List Char} : isQuote quote = true → Inside quote body →
      Wrong (quote :: (body ++ ['\\'])) [] .unterminatedString

/-- A piece of the source that has `after` behind it, and that no token stands for. -/
inductive Dropped (keepComments : Bool) : List Char → List Char → Prop
  | blank {text after : List Char} : text ≠ [] → (∀ c ∈ text, isBlankChar c = true) →
      Stops isBlankChar after → Dropped keepComments text after
  | lineComment {body after : List Char} : keepComments = false → '\n' ∉ body →
      Stops (· != '\n') after → Dropped keepComments ('/' :: '/' :: body) after
  | blockComment {body after : List Char} : ¬ commentEnd <:+: body ++ ['*'] →
      Dropped keepComments ('/' :: '*' :: (body ++ commentEnd)) after
  | openComment {body : List Char} : ¬ commentEnd <:+: body →
      Dropped keepComments ('/' :: '*' :: body) []
  | stray {c : Char} {after : List Char} : isStrayChar c = true → Dropped keepComments [c] after
  | loneHash {after : List Char} : Stops isWordChar after → Dropped keepComments ['#'] after

/-- A lexeme without a token is a piece that is dropped. -/
theorem dropped_of_content? {keepComments : Bool} {kind : LexemeKind} {text after : List Char}
    (form : Form kind text after) (h : Lexeme.content? keepComments ⟨kind, text⟩ = none) :
    Dropped keepComments text after := by
  cases form with
  | blank ne run stop => exact .blank ne run stop
  | lineComment free stop =>
      unfold Lexeme.content? at h
      dsimp only at h
      split at h
      · cases h
      · rename_i keep
        exact .lineComment (Bool.eq_false_iff.mpr keep) free stop
  | blockComment free => exact .blockComment free
  | openComment free => exact .openComment free
  | @word c cs _ _ _ stop =>
      unfold Lexeme.content? at h
      dsimp only at h
      split at h
      · rename_i hash
        have hash : c :: cs = ['#'] := String.ofList_injective hash
        rw [hash]
        exact .loneHash stop
      · split at h <;> cases h
  | stray hc => exact .stray hc
  | _ => cases h

/-- A lexeme leaves an anomaly when something is wrong with it. -/
theorem wrong_iff {kind : LexemeKind} {text after : List Char} (form : Form kind text after)
    (wrong : AnomalyKind) :
    Wrong text after wrong ↔ Lexeme.anomalyKind? ⟨kind, text⟩ = some wrong := by
  constructor
  · intro h
    cases h with
    | stray hc =>
        rw [form.unique (.stray hc)]
        rfl
    | loneHash stop =>
        rw [form.unique (.word (by decide) (by simp) stop)]
        rfl
    | openComment free =>
        rw [form.unique (.openComment free)]
        rfl
    | openText quote inside =>
        rw [form.unique (.openQuoted quote inside)]
        rfl
    | openEscape quote inside =>
        rw [form.unique (.openEscape quote inside)]
        rfl
  · intro h
    cases form with
    | openComment free =>
        cases h
        exact .openComment free
    | openQuoted quote inside =>
        cases h
        exact .openText quote inside
    | openEscape quote inside =>
        cases h
        exact .openEscape quote inside
    | @word c cs _ _ _ stop =>
        unfold Lexeme.anomalyKind? at h
        dsimp only at h
        split at h
        · rename_i hash
          cases h
          rw [hash]
          exact .loneHash stop
        · cases h
    | stray hc =>
        cases h
        exact .stray hc
    | _ => cases h

/-- The tokens and the dropped pieces cover the source, each byte once, and the anomalies are what
is wrong with these pieces. -/
structure Covered (keepComments : Bool) (source : String) (tokens : List Token)
    (dropped : List Span) (anomalies : List Anomaly) : Prop where
  token : ∀ t ∈ tokens, ∃ before slice after, t.span.Marks source before slice after ∧
    slice ≠ "" ∧ t.line = some ((1 + before.toList.count '\n') % UInt32.size) ∧
    t.kind.Says t.text slice ∧ ∃ kind ∈ t.kind.lexemeKinds, Form kind slice.toList after.toList
  noText : ∀ t ∈ tokens, t.text = none ↔ t.kind = .endOfLine
  comment : ∀ t ∈ tokens, t.kind = .comment → keepComments = true
  ordered : tokens.Pairwise fun t u => t.span.stop ≤ u.span.start
  drop : ∀ span ∈ dropped, ∃ before slice after, span.Marks source before slice after ∧
    Dropped keepComments slice.toList after.toList
  byte : ∀ offset < source.utf8ByteSize,
    tokens.countP (·.span.holds offset) + dropped.countP (·.holds offset) = 1
  anomaly : ∀ kind span, ⟨kind, span⟩ ∈ anomalies ↔
    (span ∈ dropped ∨ ∃ t ∈ tokens, t.span = span) ∧
      ∃ before slice after, span.Marks source before slice after ∧
        Wrong slice.toList after.toList kind
  once : anomalies.Pairwise fun a b => a.span.stop ≤ b.span.start ∧ a.span.start < b.span.start

namespace PlacedLexeme

/-- The span of a lexeme that becomes no token. -/
def dropped? (keepComments : Bool) (p : PlacedLexeme) : Option Span :=
  if (p.token? keepComments).isNone then some p.span else none

variable {keepComments : Bool} {p : PlacedLexeme}

theorem token?_eq_some {t : Token} (h : p.token? keepComments = some t) :
    t.span = p.span ∧ t.line = some p.line.toNat ∧
      p.lexeme.content? keepComments = some (t.kind, t.text) := by
  obtain ⟨⟨kind, text⟩, content, rfl⟩ := Option.map_eq_some_iff.mp h
  exact ⟨rfl, rfl, content⟩

theorem dropped?_eq_some {span : Span} (h : p.dropped? keepComments = some span) :
    p.span = span ∧ p.lexeme.content? keepComments = none := by
  unfold dropped? token? at h
  rw [Option.ite_none_right_eq_some, Option.isNone_map, Option.isNone_iff_eq_none] at h
  exact ⟨Option.some.inj h.2, h.1⟩

theorem anomaly?_eq_some {a : Anomaly} :
    p.anomaly? = some a ↔ p.lexeme.anomalyKind? = some a.kind ∧ p.span = a.span := by
  unfold anomaly?
  rw [Option.map_eq_some_iff]
  constructor
  · intro found
    obtain ⟨kind, wrong, rfl⟩ := found
    exact ⟨wrong, rfl⟩
  · intro found
    obtain ⟨wrong, place⟩ := found
    exact ⟨a.kind, wrong, by rw [place]⟩

end PlacedLexeme

/-- A byte is in a token or in a dropped piece as often as it is in a lexeme. -/
theorem countP_tokens_add_dropped (keepComments : Bool) (placed : List PlacedLexeme)
    (offset : Nat) :
    (placed.filterMap (PlacedLexeme.token? keepComments)).countP (·.span.holds offset) +
      (placed.filterMap (PlacedLexeme.dropped? keepComments)).countP (·.holds offset) =
        placed.countP (·.span.holds offset) := by
  induction placed with
  | nil => rfl
  | cons p placed ih =>
      rw [List.countP_cons, ← ih]
      cases found : p.token? keepComments with
      | some t =>
          have dropped : p.dropped? keepComments = none := by simp [PlacedLexeme.dropped?, found]
          rw [List.filterMap_cons_some found, List.filterMap_cons_none dropped, List.countP_cons,
            (PlacedLexeme.token?_eq_some found).1]
          omega
      | none =>
          have dropped : p.dropped? keepComments = some p.span := by
            simp [PlacedLexeme.dropped?, found]
          rw [List.filterMap_cons_none found, List.filterMap_cons_some dropped, List.countP_cons]
          omega

theorem span_lt_of_mem_placedLexemes {source : List Char} {p : PlacedLexeme}
    (h : p ∈ placedLexemes source) : p.span.start < p.span.stop := by
  obtain ⟨first, second, split, -, stop, -⟩ := split_of_mem_placeLexemes h
  have some := byteLength_pos (split ▸ Lexeme.formed_scan source).form.ne_nil
  omega

/-- Every token is on the line that its first byte is on. -/
theorem line_of_mem_tokens {keepComments : Bool} {source : String} {t : Token}
    (h : t ∈ (tokenize keepComments source).tokens) :
    t.line = some ((LineMap.ofSource source).lineWord t.span.start).toNat := by
  rcases List.mem_append.mp h with ht | ht
  · obtain ⟨p, hp, found⟩ := List.mem_filterMap.mp ht
    obtain ⟨span, line, -⟩ := PlacedLexeme.token?_eq_some found
    obtain ⟨_, _, _, _, _, place⟩ := split_of_mem_placeLexemes hp
    rw [line, span, place]
  · obtain rfl := List.mem_singleton.mp ht
    rfl

/-- Tokens follow each other in the source. -/
theorem pairwise_sourceTokens (keepComments : Bool) (source : List Char) :
    (sourceTokens keepComments source).Pairwise fun t u => t.span.stop ≤ u.span.start := by
  apply (pairwise_placeLexemes (.ofChars source) 0 (Lexeme.scan source)).filterMap
  intro p q after t ht u hu
  rw [(PlacedLexeme.token?_eq_some ht).1, (PlacedLexeme.token?_eq_some hu).1]
  exact after

/-- Anomalies follow each other in the source. -/
theorem pairwise_anomalies (keepComments : Bool) (source : String) :
    (tokenize keepComments source).anomalies.Pairwise fun a b =>
      a.span.stop ≤ b.span.start ∧ a.span.start < b.span.start := by
  have ordered : (placedLexemes source.toList).Pairwise fun p q =>
      p.span.stop ≤ q.span.start ∧ p.span.start < q.span.start := by
    apply (pairwise_placeLexemes (.ofSource source) 0 (Lexeme.scan source.toList)).imp_of_mem
    intro p q hp _ after
    have some := span_lt_of_mem_placedLexemes hp
    omega
  apply ordered.filterMap
  intro p q after a ha b hb
  rw [← (PlacedLexeme.anomaly?_eq_some.mp ha).2, ← (PlacedLexeme.anomaly?_eq_some.mp hb).2]
  exact after

/-- The spans of the lexemes that become no token. -/
def droppedSpans (keepComments : Bool) (source : List Char) : List Span :=
  (placedLexemes source).filterMap (PlacedLexeme.dropped? keepComments)

section
variable {keepComments : Bool}

/-- Every lexeme becomes a token or is dropped. -/
theorem mem_droppedSpans_or_sourceTokens {source : List Char} {p : PlacedLexeme}
    (h : p ∈ placedLexemes source) :
    p.span ∈ droppedSpans keepComments source ∨
      ∃ t ∈ sourceTokens keepComments source, t.span = p.span := by
  cases found : p.token? keepComments with
  | some t =>
      exact .inr ⟨t, List.mem_filterMap.mpr ⟨p, h, found⟩, (PlacedLexeme.token?_eq_some found).1⟩
  | none =>
      exact .inl (List.mem_filterMap.mpr ⟨p, h, by simp [PlacedLexeme.dropped?, found]⟩)

theorem exists_lexeme_of_mem_sourceTokens {source : List Char} {t : Token}
    (h : t ∈ sourceTokens keepComments source) :
    ∃ p ∈ placedLexemes source, t.span = p.span := by
  obtain ⟨p, hp, found⟩ := List.mem_filterMap.mp h
  exact ⟨p, hp, (PlacedLexeme.token?_eq_some found).1⟩

/-- The anomalies are found in the pieces that something is wrong with. -/
theorem mem_anomalies_iff (source : String) (kind : AnomalyKind) (span : Span) :
    ⟨kind, span⟩ ∈ (tokenize keepComments source).anomalies ↔
      (span ∈ droppedSpans keepComments source.toList ∨
        ∃ t ∈ sourceTokens keepComments source.toList, t.span = span) ∧
      ∃ before slice after, span.Marks source before slice after ∧
        Wrong slice.toList after.toList kind := by
  constructor
  · intro ha
    obtain ⟨p, hp, found⟩ := List.mem_filterMap.mp ha
    obtain ⟨wrong, place⟩ := PlacedLexeme.anomaly?_eq_some.mp found
    obtain ⟨before, after, marks, form⟩ := place_of_mem_placedLexemes hp
    rw [← show p.span = span from place]
    refine ⟨mem_droppedSpans_or_sourceTokens hp, before, String.ofList p.lexeme.text, after,
      marks, ?_⟩
    rw [String.toList_ofList]
    exact (wrong_iff form kind).mpr wrong
  · intro piece
    obtain ⟨piece, before, slice, after, marks, wrong⟩ := piece
    have placed : ∃ p ∈ placedLexemes source.toList, p.span = span := by
      rcases piece with hs | ⟨t, ht, rfl⟩
      · obtain ⟨p, hp, found⟩ := List.mem_filterMap.mp hs
        exact ⟨p, hp, (PlacedLexeme.dropped?_eq_some found).1⟩
      · obtain ⟨p, hp, found⟩ := exists_lexeme_of_mem_sourceTokens ht
        exact ⟨p, hp, found.symm⟩
    obtain ⟨p, hp, rfl⟩ := placed
    obtain ⟨before', after', marks', form⟩ := place_of_mem_placedLexemes hp
    obtain ⟨rfl, rfl⟩ := marks.unique marks'
    rw [String.toList_ofList] at wrong
    have left := (wrong_iff form kind).mp wrong
    exact List.mem_filterMap.mpr ⟨p, hp, PlacedLexeme.anomaly?_eq_some.mpr ⟨left, rfl⟩⟩

end

theorem covered_tokenize (keepComments : Bool) (source : String) :
    Covered keepComments source (sourceTokens keepComments source.toList)
      (droppedSpans keepComments source.toList) (tokenize keepComments source).anomalies where
  token := by
    intro t ht
    obtain ⟨p, hp, found⟩ := List.mem_filterMap.mp ht
    obtain ⟨span, -, content⟩ := PlacedLexeme.token?_eq_some found
    obtain ⟨before, after, marks, form⟩ := place_of_mem_placedLexemes hp
    obtain ⟨made, text, -, -⟩ := says_of_content? content
    refine ⟨before, String.ofList p.lexeme.text, after, span ▸ marks, ?_, ?_, text,
      p.lexeme.kind, made, ?_⟩
    · intro empty
      exact form.ne_nil (String.ofList_eq_empty_iff.mp empty)
    · rw [line_of_mem_tokens (List.mem_append_left _ ht), span, marks.toNat_lineWord]
    · rw [String.toList_ofList]
      exact form
  noText := by
    intro t ht
    obtain ⟨p, -, found⟩ := List.mem_filterMap.mp ht
    exact (says_of_content? (PlacedLexeme.token?_eq_some found).2.2).2.2.1
  comment := by
    intro t ht
    obtain ⟨p, -, found⟩ := List.mem_filterMap.mp ht
    exact (says_of_content? (PlacedLexeme.token?_eq_some found).2.2).2.2.2
  ordered := pairwise_sourceTokens keepComments source.toList
  drop := by
    intro span hs
    obtain ⟨p, hp, found⟩ := List.mem_filterMap.mp hs
    obtain ⟨rfl, content⟩ := PlacedLexeme.dropped?_eq_some found
    obtain ⟨before, after, marks, form⟩ := place_of_mem_placedLexemes hp
    refine ⟨before, String.ofList p.lexeme.text, after, marks, ?_⟩
    rw [String.toList_ofList]
    exact dropped_of_content? form content
  byte := by
    intro offset inside
    have counted := countP_holds_placeLexemes (.ofSource source) 0 (Lexeme.scan source.toList)
      offset
    rw [Lexeme.flatMap_text_scan, byteLength_toList, if_pos (by omega)] at counted
    rw [← counted]
    exact countP_tokens_add_dropped keepComments (placedLexemes source.toList) offset
  anomaly := mem_anomalies_iff source
  once := pairwise_anomalies keepComments source

/-- A source is covered by its tokens, which an end of file ends, and by what was dropped. The line
of a token is cut to a word, so that it counts the newlines only where they are few enough. -/
theorem tokenize_covers (keepComments : Bool) (source : String) :
    ∃ tokens dropped,
      (tokenize keepComments source).tokens =
        tokens ++ [⟨.endOfFile, none, some ((1 + source.toList.count '\n') % UInt32.size),
          .point source.utf8ByteSize⟩] ∧
      (∀ t ∈ tokens, t.kind ≠ .endOfFile) ∧
      Covered keepComments source tokens dropped (tokenize keepComments source).anomalies ∧
      (∀ t ∈ (tokenize keepComments source).tokens, ∀ before slice after,
        t.span.Marks source before slice after →
        before.toList.count '\n' < UInt32.size - 1 →
          t.line = some (1 + before.toList.count '\n')) ∧
      (tokenize keepComments source).reported =
        (tokenize keepComments source).anomalies.take 50 := by
  refine ⟨_, _, ?_, ?_, covered_tokenize keepComments source, ?_, rfl⟩
  · rw [tokens_tokenize, endToken_eq, byteLength_toList]
  · intro t ht
    exact kind_ne_of_mem_sourceTokens ht
  · intro t ht before slice after marks few
    have small : 1 + before.toList.count '\n' < UInt32.size := by omega
    rw [line_of_mem_tokens ht, marks.toNat_lineWord, Nat.mod_eq_of_lt small]

/-- Behind the last newline that a word can count, the end of the source is on line 0. -/
theorem endOfFile_line_wraps :
    let source := String.ofList (List.replicate (UInt32.size - 1) '\n')
    source.toList.count '\n' = UInt32.size - 1 ∧
      ⟨.endOfFile, none, some 0, .point source.utf8ByteSize⟩ ∈ (tokenize false source).tokens := by
  intro source
  have newlines : source.toList.count '\n' = UInt32.size - 1 := by
    rw [String.toList_ofList, List.count_replicate_self]
  refine ⟨newlines, ?_⟩
  have wrapped : (1 + source.toList.count '\n') % UInt32.size = 0 := by
    rw [newlines]
    rfl
  rw [tokens_tokenize, endToken_eq, byteLength_toList, wrapped]
  exact List.mem_append_right _ List.mem_cons_self

end MapScript
