import MapScript.Proofs.Lexing
import MapScript.Proofs.Mirroring.Programs
import MapScript.Proofs.SourceLines

/-!
# Sources one after the other

A line end between two sources keeps their lexemes apart, because no rule takes a line end into a
lexeme that it has not opened. Only a text or a comment that is still open at the end of the
first source would go on into the second.
-/
namespace MapScript

/-- What the parser finds in a source. -/
def ParseOptions.parsed (o : ParseOptions) (keepComments : Bool) (source : String) : ParseResult :=
  parse o (tokenize keepComments source).tokens

/-- A text or a comment that runs to the end of the source. -/
def LexemeKind.isOpen : LexemeKind → Bool
  | .blockComment false => true
  | .quoted false => true
  | _ => false

namespace Lexeme

/-- The cut with a line end and more after what was left. -/
def Cut.followed (more : List Char) (cut : Cut) : Cut :=
  { cut with rest := cut.rest ++ '\n' :: more }

/-- The rule does the same when a line end comes after the source, unless a lexeme stays open. -/
def Ends (rule : Char → List Char → Option Cut) : Prop :=
  ∀ c cs more, (∀ cut, rule c cs = some cut → cut.kind.isOpen = false) →
    rule c (cs ++ '\n' :: more) = (rule c cs).map (Cut.followed more)

section
variable {p : Char → Bool} (hp : p '\n' = false) (cs more : List Char)
include hp

theorem takeWhile_before_lineEnd : (cs ++ '\n' :: more).takeWhile p = cs.takeWhile p := by
  induction cs with
  | nil => simp [hp]
  | cons c cs ih =>
      by_cases hc : p c = true
      · simp [hc, ih]
      · simp [hc]

theorem dropWhile_before_lineEnd :
    (cs ++ '\n' :: more).dropWhile p = cs.dropWhile p ++ '\n' :: more := by
  induction cs with
  | nil => simp [hp]
  | cons c cs ih =>
      by_cases hc : p c = true
      · simp [hc, ih]
      · simp [hc]

theorem run_followed (kind : LexemeKind) :
    Cut.run kind p (cs ++ '\n' :: more) = (Cut.run kind p cs).followed more := by
  unfold Cut.run
  rw [takeWhile_before_lineEnd hp, dropWhile_before_lineEnd hp]
  rfl

end

theorem ends_blank? : Ends blank? := by
  intro c cs more _
  unfold blank?
  split
  · rw [run_followed (by decide)]
    rfl
  · rfl

theorem ends_lineEnd? : Ends lineEnd? := by
  intro c cs more _
  unfold lineEnd?
  split <;> rfl

theorem ends_lineComment? : Ends lineComment? := by
  intro c cs more _
  cases cs with
  | nil => simp [lineComment?]
  | cons d cs =>
      by_cases h : c = '/' ∧ d = '/'
      · obtain ⟨rfl, rfl⟩ := h
        have run := run_followed (p := (· != '\n')) (by decide) ('/' :: cs) more .lineComment
        exact congrArg some run
      · have none (text : List Char) : lineComment? c (d :: text) = none := by
          unfold lineComment?
          split
          · simp_all
          · rfl
        rw [List.cons_append, none, none]
        rfl

theorem throughCommentEnd?_append {cs taken rest : List Char}
    (h : throughCommentEnd? cs = some (taken, rest)) (more : List Char) :
    throughCommentEnd? (cs ++ more) = some (taken, rest ++ more) := by
  fun_induction throughCommentEnd? cs generalizing taken rest with
  | case1 cs =>
      cases h
      rfl
  | case2 c cs hc ih =>
      obtain ⟨⟨taken', rest'⟩, found, ⟨⟩⟩ := Option.map_eq_some_iff.mp h
      have inner := ih found
      cases cs with
      | nil => cases found
      | cons d cs =>
          have other : ∀ rest, c = '*' → d :: (cs ++ more) = '/' :: rest → False := by
            rintro _ rfl ⟨⟩
            exact hc cs rfl rfl
          rw [List.cons_append, List.cons_append, throughCommentEnd?.eq_2 _ _ other,
            ← List.cons_append, inner]
          rfl
  | case3 => cases h

theorem blockComment?_of_closed {body taken rest : List Char}
    (h : throughCommentEnd? body = some (taken, rest)) :
    blockComment? '/' ('*' :: body) = some ⟨.blockComment true, '*' :: taken, rest⟩ := by
  simp [blockComment?, h]

theorem blockComment?_of_open {body : List Char} (h : throughCommentEnd? body = none) :
    blockComment? '/' ('*' :: body) = some ⟨.blockComment false, '*' :: body, []⟩ := by
  simp [blockComment?, h]

theorem ends_blockComment? : Ends blockComment? := by
  intro c cs more closed
  cases cs with
  | nil => simp [blockComment?]
  | cons d body =>
      by_cases h : c = '/' ∧ d = '*'
      · obtain ⟨rfl, rfl⟩ := h
        cases found : throughCommentEnd? body with
        | none => cases closed _ (blockComment?_of_open found)
        | some cut =>
            rw [List.cons_append, blockComment?_of_closed found,
              blockComment?_of_closed (throughCommentEnd?_append found _)]
            rfl
      · have none (text : List Char) : blockComment? c (d :: text) = none := by
          unfold blockComment?
          split
          · simp_all
          · rfl
        rw [List.cons_append, none, none]
        rfl

theorem throughQuote?_cons (quote : Char) {c : Char} (hc : c ≠ '\\') (cs : List Char) :
    throughQuote? quote (c :: cs) = if c = quote then some ([c], cs)
      else (throughQuote? quote cs).map fun (taken, rest) => (c :: taken, rest) :=
  throughQuote?.eq_4 _ _ _ (fun h _ => hc h) fun _ _ h _ => hc h

theorem throughQuote?_append {quote : Char} {cs taken rest : List Char}
    (h : throughQuote? quote cs = some (taken, rest)) (more : List Char) :
    throughQuote? quote (cs ++ more) = some (taken, rest ++ more) := by
  have plain {c : Char} {cs : List Char} (h1 : c = '\\' → cs = [] → False)
      (h2 : ∀ d ds, c = '\\' → cs = d :: ds → False) : c ≠ '\\' := by
    intro hc
    cases cs with
    | nil => exact h1 hc rfl
    | cons d ds => exact h2 d ds hc rfl
  fun_induction throughQuote? quote cs generalizing taken rest with
  | case1 => cases h
  | case2 => cases h
  | case3 c cs ih =>
      obtain ⟨⟨taken', rest'⟩, found, ⟨⟩⟩ := Option.map_eq_some_iff.mp h
      rw [List.cons_append, List.cons_append, throughQuote?, ih found]
      rfl
  | case4 cs h1 h2 =>
      cases h
      rw [List.cons_append, throughQuote?_cons _ (plain h1 h2), if_pos rfl]
  | case5 c cs h1 h2 hc ih =>
      obtain ⟨⟨taken', rest'⟩, found, ⟨⟩⟩ := Option.map_eq_some_iff.mp h
      rw [List.cons_append, throughQuote?_cons _ (plain h1 h2), if_neg hc, ih found]
      rfl

theorem ends_quoted? : Ends quoted? := by
  intro c cs more closed
  unfold quoted? at closed ⊢
  split
  · rw [if_pos ‹_›] at closed
    cases found : throughQuote? c cs with
    | none =>
        rw [found] at closed
        cases closed _ rfl
    | some cut =>
        rw [throughQuote?_append found]
        rfl
  · rfl

theorem number?_of_fraction {c : Char} {cs rest : List Char} {d : Char} (hc : c.isDigit = true)
    (hr : cs.dropWhile Char.isDigit = '.' :: d :: rest) (hd : d.isDigit = true) :
    number? c cs = some ⟨.number,
      cs.takeWhile Char.isDigit ++ '.' :: d :: rest.takeWhile Char.isDigit,
      rest.dropWhile Char.isDigit⟩ := by
  unfold number? Cut.run
  rw [if_pos hc]
  dsimp only
  rw [hr]
  simp [hd]

theorem number?_of_whole {c : Char} {cs : List Char} (hc : c.isDigit = true)
    (hr : ∀ d rest, cs.dropWhile Char.isDigit = '.' :: d :: rest → d.isDigit = false) :
    number? c cs = some (.run .number Char.isDigit cs) := by
  unfold number? Cut.run
  rw [if_pos hc]
  dsimp only
  split
  · rw [if_neg (by simp [hr _ _ ‹_›])]
  · rfl

/-- A point at the end of the source has no fraction, with a line end after it or not. -/
theorem ends_number? : Ends number? := by
  intro c cs more _
  have lineEnd : ('\n').isDigit = false := by decide
  by_cases hc : c.isDigit = true
  · by_cases hf : ∃ d rest, cs.dropWhile Char.isDigit = '.' :: d :: rest ∧ d.isDigit = true
    · obtain ⟨d, rest, hr, hd⟩ := hf
      have hr' : (cs ++ '\n' :: more).dropWhile Char.isDigit =
          '.' :: d :: (rest ++ '\n' :: more) := by
        rw [dropWhile_before_lineEnd lineEnd, hr]
        rfl
      rw [number?_of_fraction hc hr hd, number?_of_fraction hc hr' hd,
        takeWhile_before_lineEnd lineEnd, takeWhile_before_lineEnd lineEnd,
        dropWhile_before_lineEnd lineEnd]
      rfl
    · have whole : ∀ d rest, cs.dropWhile Char.isDigit = '.' :: d :: rest → d.isDigit = false :=
        fun d rest hr => Bool.eq_false_iff.mpr fun hd => hf ⟨d, rest, hr, hd⟩
      rw [number?_of_whole hc whole, number?_of_whole hc ?_, run_followed lineEnd]
      · rfl
      · intro d rest hr
        rw [dropWhile_before_lineEnd lineEnd] at hr
        generalize cs.dropWhile Char.isDigit = after at hr whole
        cases after with
        | nil => cases hr
        | cons x after =>
            cases after with
            | nil =>
                cases hr
                exact lineEnd
            | cons e after =>
                cases hr
                exact whole d after rfl
  · have none (text : List Char) : number? c text = none := if_neg hc
    rw [none, none]
    rfl

theorem ends_bracket? : Ends bracket? := by
  intro c cs more _
  unfold bracket?
  split <;> rfl

theorem ends_word? : Ends word? := by
  intro c cs more _
  unfold word?
  split
  · rw [run_followed (by decide)]
    rfl
  · rfl

theorem ends_symbol? : Ends symbol? := by
  intro c cs more _
  have lineEnd : (c, '\n') ∉ doubleSymbols := by
    simp [doubleSymbols]
  unfold symbol?
  cases cs with
  | nil =>
      dsimp only [List.nil_append]
      rw [if_neg lineEnd]
      split <;> rfl
  | cons d cs =>
      dsimp only [List.cons_append]
      split_ifs <;> rfl

theorem ends_of_mem_rules {rule : Char → List Char → Option Cut} (h : rule ∈ rules) :
    Ends rule := by
  simp only [rules, List.mem_cons, List.not_mem_nil, or_false] at h
  rcases h with rfl | rfl | rfl | rfl | rfl | rfl | rfl | rfl | rfl
  · exact ends_blank?
  · exact ends_lineEnd?
  · exact ends_lineComment?
  · exact ends_blockComment?
  · exact ends_quoted?
  · exact ends_number?
  · exact ends_bracket?
  · exact ends_word?
  · exact ends_symbol?

/-- The rule that takes a start takes it too when a line end comes after the source. -/
theorem findSome?_followed {c : Char} {cs : List Char} (more : List Char)
    {list : List (Char → List Char → Option Cut)} (hl : ∀ rule ∈ list, Ends rule)
    (closed : ∀ cut, (list.findSome? fun rule => rule c cs) = some cut → cut.kind.isOpen = false) :
    (list.findSome? fun rule => rule c (cs ++ '\n' :: more)) =
      (list.findSome? fun rule => rule c cs).map (Cut.followed more) := by
  induction list with
  | nil => rfl
  | cons rule list ih =>
      have ends := hl rule (by simp) c cs more
      rw [List.findSome?_cons] at closed
      rw [List.findSome?_cons, List.findSome?_cons]
      cases found : rule c cs with
      | some cut =>
          rw [found] at closed ends
          rw [ends fun cut h => closed cut h]
          rfl
      | none =>
          rw [found] at closed ends
          rw [ends (by simp)]
          exact ih (fun rule hr => hl rule (by simp [hr])) closed

theorem cut_followed {c : Char} {cs : List Char} (h : (cut c cs).kind.isOpen = false)
    (more : List Char) : cut c (cs ++ '\n' :: more) = (cut c cs).followed more := by
  unfold cut at h ⊢
  rw [findSome?_followed more (fun _ => ends_of_mem_rules) fun found hf => by rwa [hf] at h]
  cases rules.findSome? fun rule => rule c cs <;> rfl

/-- Where nothing is left open, the lexemes of the second source come after a line end. -/
theorem scan_append {first : List Char} (h : ∀ lexeme ∈ scan first, lexeme.kind.isOpen = false)
    (second : List Char) :
    scan (first ++ '\n' :: second) = scan first ++ ⟨.lineEnd, ['\n']⟩ :: scan second := by
  induction hn : first.length using Nat.strongRecOn generalizing first with
  | ind n ih =>
      cases first with
      | nil =>
          have lineEnd : cut '\n' second = ⟨.lineEnd, [], second⟩ := rfl
          rw [List.nil_append, scan_cons, lineEnd]
          rfl
      | cons c cs =>
          rw [scan_cons] at h
          have closed : (cut c cs).kind.isOpen = false := h _ List.mem_cons_self
          have length : (cut c cs).rest.length < n := by
            rw [← hn, List.length_cons]
            exact Nat.lt_succ_of_le (length_rest_le c cs)
          have rest := ih _ length (fun lexeme hl => h lexeme (by simp [hl])) rfl
          rw [List.cons_append, scan_cons, scan_cons, cut_followed closed]
          exact congrArg _ rest

end Lexeme

/-- A lexeme in its place behind the characters before it. -/
def Lexeme.placedAfter (before : List Char) (lexeme : Lexeme) : PlacedLexeme :=
  ⟨lexeme, ⟨byteLength before, byteLength before + byteLength lexeme.text⟩,
    (1 + before.count '\n').toUInt32⟩

/-- The places of lexemes, from the characters before them alone. -/
def placeAfter (before : List Char) : List Lexeme → List PlacedLexeme
  | [] => []
  | lexeme :: lexemes =>
    lexeme.placedAfter before :: placeAfter (before ++ lexeme.text) lexemes

/-- What comes behind a lexeme does not count for its place. -/
theorem placeLexemes_eq_placeAfter (before after : List Char) (lexemes : List Lexeme) :
    placeLexemes (.ofChars (before ++ lexemes.flatMap (·.text) ++ after)) (byteLength before)
      lexemes = placeAfter before lexemes := by
  induction lexemes generalizing before with
  | nil => rfl
  | cons lexeme lexemes ih =>
      have whole : before ++ (lexeme :: lexemes).flatMap (·.text) ++ after =
          before ++ lexeme.text ++ lexemes.flatMap (·.text) ++ after := by
        rw [List.flatMap_cons, ← List.append_assoc]
      have line := LineMap.lineWord_append before
        (lexeme.text ++ (lexemes.flatMap (·.text) ++ after))
      have rest := ih (before ++ lexeme.text)
      rw [byteLength_append] at rest
      rw [placeLexemes, placeAfter, whole, rest, Lexeme.placedAfter, ← line]
      simp only [List.append_assoc]

theorem placeLexemes_scan (source : List Char) :
    placeLexemes (.ofChars source) 0 (Lexeme.scan source) = placeAfter [] (Lexeme.scan source) := by
  have places := placeLexemes_eq_placeAfter [] [] (Lexeme.scan source)
  rw [Lexeme.flatMap_text_scan, List.nil_append, List.append_nil] at places
  exact places

def PlacedLexeme.moved (bytes lines : Nat) (p : PlacedLexeme) : PlacedLexeme :=
  { p with span := p.span.moved bytes, line := p.line + lines.toUInt32 }

theorem placeAfter_append (before : List Char) (first second : List Lexeme) :
    placeAfter before (first ++ second) =
      placeAfter before first ++ placeAfter (before ++ first.flatMap (·.text)) second := by
  induction first generalizing before with
  | nil => simp [placeAfter]
  | cons lexeme first ih =>
      rw [List.cons_append, placeAfter, placeAfter, ih, List.flatMap_cons, List.append_assoc,
        List.cons_append]

/-- Lexemes further on are the same ones, moved. -/
theorem placeAfter_moved (first before : List Char) (lexemes : List Lexeme) :
    placeAfter (first ++ before) lexemes = (placeAfter before lexemes).map
      (PlacedLexeme.moved (byteLength first) (first.count '\n')) := by
  induction lexemes generalizing before with
  | nil => rfl
  | cons lexeme lexemes ih =>
      have here : lexeme.placedAfter (first ++ before) =
          (lexeme.placedAfter before).moved (byteLength first) (first.count '\n') := by
        have bytes : byteLength first + byteLength before + byteLength lexeme.text =
            byteLength before + byteLength lexeme.text + byteLength first := by omega
        have lines : 1 + (first.count '\n' + before.count '\n') =
            1 + before.count '\n' + first.count '\n' := by omega
        unfold Lexeme.placedAfter PlacedLexeme.moved Span.moved
        rw [byteLength_append, List.count_append, bytes, lines, Nat.toUInt32_eq, UInt32.ofNat_add,
          Nat.add_comm (byteLength first)]
      rw [placeAfter, placeAfter, List.map_cons, List.append_assoc, ih, here]

theorem filterMap_token?_moved (keepComments : Bool) (bytes lines : Nat)
    (placed : List PlacedLexeme) :
    (placed.map (PlacedLexeme.moved bytes lines)).filterMap (·.token? keepComments) =
      (placed.filterMap (·.token? keepComments)).map (Token.moved bytes lines) := by
  have token (p : PlacedLexeme) : (p.moved bytes lines).token? keepComments =
      (p.token? keepComments).map (Token.moved bytes lines) := by
    have line : (p.line + lines.toUInt32).toNat = (p.line.toNat + lines) % UInt32.size := by
      rw [UInt32.toNat_add, Nat.toUInt32_eq, UInt32.toNat_ofNat', Nat.add_mod_mod]
    unfold PlacedLexeme.token? PlacedLexeme.moved Token.moved
    dsimp only
    cases p.lexeme.content? keepComments with
    | none => rfl
    | some content => simp [line]
  rw [List.filterMap_map, List.map_filterMap]
  exact congrArg (fun f => placed.filterMap f) (funext token)

/-- The sources leave no text and no comment open. -/
def ClosedSource (source : List Char) : Prop :=
  ∀ lexeme ∈ Lexeme.scan source, lexeme.kind.isOpen = false

theorem map_lexeme_placeLexemes (lines : LineMap) (offset : Nat) (lexemes : List Lexeme) :
    (placeLexemes lines offset lexemes).map (·.lexeme) = lexemes := by
  induction lexemes generalizing offset with
  | nil => rfl
  | cons lexeme lexemes ih => rw [placeLexemes, List.map_cons, ih]

/-- A text or a comment that is left open is an anomaly of the source. -/
theorem closedSource_of_anomalies {keepComments : Bool} {source : String}
    (h : ∀ a ∈ (tokenize keepComments source).anomalies,
      a.kind ≠ .unterminatedString ∧ a.kind ≠ .unterminatedComment) :
    ClosedSource source.toList := by
  intro lexeme hl
  rw [← map_lexeme_placeLexemes (.ofSource source) 0 (Lexeme.scan source.toList)] at hl
  obtain ⟨p, hp, rfl⟩ := List.mem_map.mp hl
  have anomaly {kind : AnomalyKind} (hk : p.lexeme.anomalyKind? = some kind) :
      kind ≠ .unterminatedString ∧ kind ≠ .unterminatedComment :=
    h ⟨kind, p.span⟩ (List.mem_filterMap.mpr ⟨p, hp, by rw [PlacedLexeme.anomaly?, hk]; rfl⟩)
  rw [Bool.eq_false_iff]
  intro ho
  unfold LexemeKind.isOpen at ho
  split at ho
  · have kind : p.lexeme.anomalyKind? = some .unterminatedComment := by
      simp [Lexeme.anomalyKind?, *]
    exact (anomaly kind).2 rfl
  · have kind : p.lexeme.anomalyKind? = some .unterminatedString := by
      simp [Lexeme.anomalyKind?, *]
    exact (anomaly kind).1 rfl
  · cases ho

theorem map_followed_sourceTokens (keepComments : Bool) (source : List Char) :
    (sourceTokens keepComments source).map Token.followed = sourceTokens keepComments source := by
  refine (List.map_congr_left fun t ht => ?_).trans (List.map_id _)
  exact Token.followed_of_readable (kind_ne_of_mem_sourceTokens ht)

/-- The end of a source is on the line behind all of its newlines. -/
theorem endToken_eq (source : List Char) :
    endToken source = ⟨.endOfFile, none, some ((1 + source.count '\n') % UInt32.size),
      .point (byteLength source)⟩ := by
  have line := LineMap.toNat_lineWord_append source []
  rw [List.append_nil] at line
  rw [← line]
  rfl

theorem endToken_append (first second : List Char) :
    endToken (first ++ '\n' :: second) =
      (endToken second).moved (byteLength first + 1) (first.count '\n' + 1) := by
  have bytes : byteLength ('\n' :: second) = 1 + byteLength second := rfl
  have lines : 1 + (first.count '\n' + (second.count '\n' + 1)) =
      1 + second.count '\n' + (first.count '\n' + 1) := by omega
  rw [endToken_eq, endToken_eq]
  unfold Token.moved Span.moved Span.point
  simp only [byteLength_append, bytes, List.count_append, List.count_cons_self, Option.map_some,
    lines, Nat.mod_add_mod, Token.mk.injEq, Span.mk.injEq, true_and]
  omega

theorem sourceTokens_append {first : List Char} (h : ClosedSource first) (keepComments : Bool)
    (second : List Char) :
    sourceTokens keepComments (first ++ '\n' :: second) =
      sourceTokens keepComments first ++ (endToken first).followed ::
        (sourceTokens keepComments second).map
          (Token.moved (byteLength first + 1) (first.count '\n' + 1)) := by
  let lineEnd : Lexeme := ⟨.lineEnd, ['\n']⟩
  have placed := placeAfter_append [] (Lexeme.scan first) (lineEnd :: Lexeme.scan second)
  have rest := placeAfter_moved (first ++ ['\n']) [] (Lexeme.scan second)
  rw [byteLength_append, List.count_append, List.append_nil] at rest
  rw [List.nil_append, Lexeme.flatMap_text_scan, placeAfter, rest] at placed
  have ends : (lineEnd.placedAfter first).token? keepComments = some (endToken first).followed := by
    rw [endToken_eq]
    rfl
  unfold sourceTokens
  rw [placeLexemes_scan, placeLexemes_scan, placeLexemes_scan, Lexeme.scan_append h, placed,
    List.filterMap_append, List.filterMap_cons_some ends, filterMap_token?_moved]
  rfl

/-- The tokens of two sources with a line end between them. -/
theorem tokens_append {first : List Char} (h : ClosedSource first) (keepComments : Bool)
    (second : List Char) :
    sourceTokens keepComments (first ++ '\n' :: second) ++ [endToken (first ++ '\n' :: second)] =
      (sourceTokens keepComments first ++ [endToken first]).map Token.followed ++
        (sourceTokens keepComments second ++ [endToken second]).map
          (Token.moved (byteLength first + 1) (first.count '\n' + 1)) := by
  rw [sourceTokens_append h, endToken_append, List.map_append, map_followed_sourceTokens]
  simp

end MapScript
