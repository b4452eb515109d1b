import MapScript.Proofs.Covering
import MapScript.Proofs.Words

/-!
# Tokens that are printed and read again

The tokens of a source are printed with a space between two of them. The space keeps them apart:
each is read again as itself, whatever came between the two in the source. Nothing is wrong with
the printed text but for a text literal that is never closed, which is then its last token.
-/
namespace MapScript

open Lexeme (Form Formed Stops isBlankChar isWordStart isWordChar)

/-- A token of the kind as it is printed: an end of line is a newline, an end of file is nothing,
and every other token is its text. -/
def TokenKind.printed (kind : TokenKind) (text : Option String) : String :=
  match kind with
  | .endOfLine => "\n"
  | _ => text.getD ""

/-- The tokens before the end of file, printed with a space between two of them. -/
def printed (tokens : List Token) : String :=
  " ".intercalate ((tokens.filter (·.kind != .endOfFile)).map fun t => t.kind.printed t.text)

theorem isAlpha_toLower {c : Char} (h : c.isAlpha = true) : c.toLower.isAlpha = true := by
  unfold Char.isAlpha Char.isUpper Char.isLower at h ⊢
  unfold Char.toLower
  simp only [Bool.or_eq_true, Bool.and_eq_true, decide_eq_true_eq] at h ⊢
  grind

theorem isDigit_toLower {c : Char} (h : c.isDigit = true) : c.toLower.isDigit = true := by
  unfold Char.isDigit at h ⊢
  unfold Char.toLower
  simp only [Bool.and_eq_true, decide_eq_true_eq] at h ⊢
  grind

theorem isWordStart_toLower {c : Char} (h : isWordStart c = true) :
    isWordStart c.toLower = true := by
  simp only [isWordStart, Bool.or_eq_true, beq_iff_eq] at h
  rcases h with ((alpha | rfl) | rfl) | rfl
  · simp [isWordStart, isAlpha_toLower alpha]
  · decide
  · decide
  · decide

theorem isWordChar_toLower {c : Char} (h : isWordChar c = true) : isWordChar c.toLower = true := by
  rw [isWordChar, Bool.or_eq_true] at h
  rcases h with start | digit
  · simp [isWordChar, isWordStart_toLower start]
  · simp [isWordChar, isDigit_toLower digit]

theorem lowerWord_lowerWord (word : String) : lowerWord (lowerWord word) = lowerWord word := by
  unfold lowerWord
  rw [String.toList_ofList, List.map_map]
  congr 1
  apply List.map_congr_left
  intro c _
  exact toLower_toLower c

namespace Lexeme

variable {kind : LexemeKind} {text after : List Char} {content : TokenKind × Option String}

/-- The text that a lexeme is printed as. -/
abbrev again (content : TokenKind × Option String) : List Char :=
  (content.1.printed content.2).toList

theorem again_text {token : TokenKind} (h : token ≠ .endOfLine) (text : List Char) :
    again (token, some (String.ofList text)) = text := by
  cases token with
  | endOfLine => exact absurd rfl h
  | _ => exact String.toList_ofList

/-- The printed text of a lexeme becomes the same token again. -/
theorem content?_again (h : content? false ⟨kind, text⟩ = some content) :
    content? false ⟨kind, again content⟩ = some content := by
  cases kind with
  | word =>
      obtain ⟨notHash, ⟨listed, rfl⟩ | ⟨listed, rfl⟩⟩ := content?_word_eq_some h
      · have small := (isKeyword_iff_mem _).mp listed
        have again : isKeyword (lowerWord (String.ofList text)) = true := by
          rw [isKeyword_iff_mem, lowerWord_lowerWord]
          exact small
        have notHash : lowerWord (String.ofList text) ≠ "#" := by
          intro hash
          rw [hash] at small
          exact absurd small (by decide)
        simp [content?, TokenKind.printed, notHash, again, lowerWord_lowerWord]
      · simp [content?, TokenKind.printed, notHash, listed]
  | lineEnd =>
      cases h
      rfl
  | blank | lineComment | blockComment _ | stray => cases h
  | quoted _ | number | leftParen | rightParen | leftBrace | rightBrace | symbol =>
      cases h
      simp [content?, TokenKind.printed]

/-- A lexeme that becomes a token has at most its closing quote missing. -/
theorem anomalyKind?_of_content? {lexeme : Lexeme} {keepComments : Bool}
    (h : lexeme.content? keepComments = some content) :
    lexeme.anomalyKind? =
      if lexeme.kind = .quoted false then some .unterminatedString else none := by
  obtain ⟨kind, text⟩ := lexeme
  cases kind with
  | word =>
      have notHash : text ≠ ['#'] := by
        intro hash
        exact (content?_word_eq_some h).1 (by rw [hash])
      simp [anomalyKind?, notHash]
  | blank | blockComment _ | stray => cases h
  | quoted closed => cases closed <;> rfl
  | lineEnd | lineComment | number | leftParen | rightParen | leftBrace | rightBrace | symbol => rfl

/-- A lexeme that is dropped is no text. -/
theorem anomalyKind?_ne_of_content? {lexeme : Lexeme} {keepComments : Bool}
    (h : lexeme.content? keepComments = none) :
    lexeme.anomalyKind? ≠ some .unterminatedString := by
  obtain ⟨kind, text⟩ := lexeme
  cases kind with
  | quoted closed => cases h
  | blockComment closed => cases closed <;> simp [anomalyKind?]
  | stray => cases text <;> simp [anomalyKind?]
  | word => simp [anomalyKind?]
  | blank | lineEnd | lineComment | number | leftParen | rightParen | leftBrace | rightBrace |
    symbol => simp [anomalyKind?]

/-- The printed text of a token has the form of its lexeme, at the end or where a space comes
behind it. Only a text that is never closed would go on there. -/
theorem form_again (form : Form kind text after) (h : content? false ⟨kind, text⟩ = some content)
    {behind : List Char} (clear : behind = [] ∨ kind ≠ .quoted false ∧ behind.head? = some ' ') :
    Form kind (again content) behind := by
  have space : ∀ c ∈ behind.head?, c = ' ' := by
    intro c hc
    rcases clear with rfl | ⟨-, hb⟩
    · cases hc
    · rw [hb] at hc
      cases hc
      rfl
  have stops : ∀ p : Char → Bool, p ' ' = false → Stops p behind := by
    intro p hp c hc
    rw [space c hc]
    exact hp
  have closed : kind = .quoted false → behind = [] := by
    intro quoted
    rcases clear with none | ⟨other, -⟩
    · exact none
    · exact absurd quoted other
  cases form with
  | blank | lineComment | blockComment | openComment | stray => cases h
  | lineEnd =>
      cases h
      exact .lineEnd (.inl rfl)
  | quoted quote inside =>
      cases h
      rw [again_text (by decide)]
      exact .quoted quote inside
  | openQuoted quote inside =>
      cases h
      rw [closed rfl, again_text (by decide)]
      exact .openQuoted quote inside
  | openEscape quote inside =>
      cases h
      rw [closed rfl, again_text (by decide)]
      exact .openEscape quote inside
  | whole ne digits =>
      cases h
      rw [again_text (by decide)]
      apply Form.whole ne digits (stops _ (by decide))
      intro d more hb
      have point := space '.' (by rw [hb]; rfl)
      exact absurd point (by decide)
  | decimal ne hn digits fraction =>
      cases h
      rw [again_text (by decide)]
      exact .decimal ne hn digits fraction (stops _ (by decide))
  | leftParen | rightParen | leftBrace | rightBrace =>
      cases h
      constructor
  | @word c cs _ first run =>
      obtain ⟨-, ⟨-, rfl⟩ | ⟨-, rfl⟩⟩ := content?_word_eq_some h
      · rw [lowerWord, again_text (by decide), String.toList_ofList, List.map_cons]
        apply Form.word (isWordStart_toLower first) _ (stops _ (by decide))
        intro d hd
        obtain ⟨e, he, rfl⟩ := List.mem_map.mp hd
        exact isWordChar_toLower (run e he)
      · rw [again_text (by decide)]
        exact .word first run (stops _ (by decide))
  | double hm =>
      cases h
      rw [again_text (by decide)]
      exact .double hm
  | @single c _ hm =>
      cases h
      rw [again_text (by decide)]
      apply Form.single hm
      · intro d hd
        rw [space d hd]
        have none : (doubleSymbols.all fun pair => pair.2 != ' ') = true := by decide
        intro double
        cases List.all_eq_true.mp none _ double
      · intro _ d hd
        rw [space d hd]
        decide

/-- Only white space begins with a blank. -/
theorem Form.isBlankChar_eq_false {c : Char} (h : Form kind text after) (other : kind ≠ .blank)
    (first : text.head? = some c) : isBlankChar c = false := by
  obtain ⟨taken, rfl⟩ := List.head?_eq_some_iff.mp first
  apply Bool.eq_false_iff.mpr
  intro blank
  have cut := cut_of_form h rfl
  unfold Lexeme.cut rules at cut
  rw [List.findSome?_cons, blank?, if_pos blank] at cut
  exact other (congrArg Cut.kind cut).symm

/-- Nothing comes after a text that is never closed. -/
theorem Formed.eq_nil {lexeme : Lexeme} {lexemes : List Lexeme} (h : Formed (lexeme :: lexemes))
    (quoted : lexeme.kind = .quoted false) : lexemes = [] := by
  cases h with
  | cons form rest =>
      rw [quoted] at form
      have last : lexemes.flatMap (·.text) = [] := by
        generalize lexeme.text = text, lexemes.flatMap (·.text) = after at form
        cases form <;> rfl
      cases rest with
      | nil => rfl
      | cons next _ =>
          rw [List.flatMap_cons, List.append_eq_nil_iff] at last
          exact absurd last.1 next.ne_nil

/-- The contents of lexemes as they are printed. -/
def printedContents (contents : List (TokenKind × Option String)) : List Char :=
  [' '].intercalate (contents.map again)

theorem printedContents_singleton (content : TokenKind × Option String) :
    printedContents [content] = again content :=
  List.intercalate_singleton

theorem printedContents_cons {contents : List (TokenKind × Option String)} (more : contents ≠ [])
    (content : TokenKind × Option String) :
    printedContents (content :: contents) = again content ++ ' ' :: printedContents contents := by
  unfold printedContents
  rw [List.map_cons, List.intercalate_cons_of_ne_nil (by simpa using more), List.append_assoc,
    List.singleton_append]

/-- What is printed does not begin with a blank. -/
theorem stops_printedContents {lexemes : List Lexeme} (formed : Formed lexemes) :
    Stops isBlankChar (printedContents (lexemes.filterMap (content? false))) := by
  induction formed with
  | nil => exact stops_nil
  | @cons lexeme lexemes form rest ih =>
      cases found : lexeme.content? false with
      | none =>
          rw [List.filterMap_cons_none found]
          exact ih
      | some content =>
          rw [List.filterMap_cons_some found]
          have form := form_again form found (.inl rfl)
          have other : lexeme.kind ≠ .blank := by
            intro blank
            unfold content? at found
            rw [blank] at found
            cases found
          obtain ⟨c, text, first⟩ := List.exists_cons_of_ne_nil form.ne_nil
          have head : (printedContents (content :: lexemes.filterMap (content? false))).head? =
              some c := by
            by_cases more : lexemes.filterMap (content? false) = []
            · rw [more, printedContents_singleton, first]
              rfl
            · rw [printedContents_cons more, first]
              rfl
          intro d hd
          rw [head] at hd
          cases hd
          exact form.isBlankChar_eq_false other (by rw [first]; rfl)

theorem filterMap_anomalyKind?_cons (lexeme : Lexeme) (lexemes : List Lexeme) :
    (lexeme :: lexemes).filterMap anomalyKind? =
      lexeme.anomalyKind?.toList ++ lexemes.filterMap anomalyKind? := by
  cases h : lexeme.anomalyKind? with
  | none => exact List.filterMap_cons_none h
  | some kind => exact List.filterMap_cons_some h

/-- Printed tokens are read again as themselves, and of all that was wrong only a text that is
never closed still is. -/
theorem scan_printedContents {lexemes : List Lexeme} (formed : Formed lexemes) :
    (scan (printedContents (lexemes.filterMap (content? false)))).filterMap (content? false) =
        lexemes.filterMap (content? false) ∧
      (scan (printedContents (lexemes.filterMap (content? false)))).filterMap anomalyKind? =
        (lexemes.filterMap anomalyKind?).filter (· = .unterminatedString) := by
  induction formed with
  | nil => exact ⟨rfl, rfl⟩
  | @cons lexeme lexemes form rest ih =>
      rw [filterMap_anomalyKind?_cons lexeme, List.filter_append]
      cases found : lexeme.content? false with
      | none =>
          have other := anomalyKind?_ne_of_content? found
          have gone : lexeme.anomalyKind?.toList.filter (· = .unterminatedString) = [] := by
            cases wrong : lexeme.anomalyKind? with
            | none => rfl
            | some kind => simpa [wrong] using other
          rw [List.filterMap_cons_none found, gone, List.nil_append]
          exact ih
      | some content =>
          have same := content?_again found
          have wrong : anomalyKind? ⟨lexeme.kind, again content⟩ = lexeme.anomalyKind? := by
            rw [anomalyKind?_of_content? same, anomalyKind?_of_content? found]
          have kept : lexeme.anomalyKind?.toList.filter (· = .unterminatedString) =
              lexeme.anomalyKind?.toList := by
            rw [anomalyKind?_of_content? found]
            split <;> rfl
          rw [List.filterMap_cons_some found, kept]
          by_cases more : lexemes.filterMap (content? false) = []
          · have alone := scan_of_form (form_again form found (.inl rfl))
            rw [more] at ih ⊢
            rw [List.append_nil] at alone
            rw [printedContents_singleton, alone, List.filterMap_cons_some same,
              filterMap_anomalyKind?_cons, wrong, ← ih.2]
            exact ⟨rfl, rfl⟩
          · have closed : lexeme.kind ≠ .quoted false := by
              intro quoted
              apply more
              rw [(Formed.cons form rest).eq_nil quoted]
              rfl
            have blank : Form .blank [' '] (printedContents (lexemes.filterMap (content? false))) :=
              .blank (by simp) (by simp [isBlankChar]) (stops_printedContents rest)
            have first : scan (again content ++
                ' ' :: printedContents (lexemes.filterMap (content? false))) = _ :=
              scan_of_form (form_again form found (.inr ⟨closed, rfl⟩))
            have second := scan_of_form blank
            rw [List.singleton_append] at second
            rw [printedContents_cons more, first, second, List.filterMap_cons_some same,
              filterMap_anomalyKind?_cons, wrong, List.filterMap_cons_none rfl,
              List.filterMap_cons_none rfl, ih.1, ih.2]
            exact ⟨rfl, rfl⟩

/-- A text that is never closed is the last thing that can be wrong. -/
theorem Formed.anomalies {lexemes : List Lexeme} (formed : Formed lexemes) :
    ∃ others, .unterminatedString ∉ others ∧
      (lexemes.filterMap anomalyKind? = others ∨
        lexemes.filterMap anomalyKind? = others ++ [.unterminatedString]) := by
  induction formed with
  | nil => exact ⟨[], by simp, .inl rfl⟩
  | @cons lexeme lexemes form rest ih =>
      rw [filterMap_anomalyKind?_cons]
      by_cases quoted : lexeme.kind = .quoted false
      · rw [(Formed.cons form rest).eq_nil quoted]
        refine ⟨[], by simp, .inr ?_⟩
        unfold anomalyKind?
        rw [quoted]
        rfl
      · have other : lexeme.anomalyKind? ≠ some .unterminatedString := by
          cases found : lexeme.content? false with
          | none => exact anomalyKind?_ne_of_content? found
          | some content => simp [anomalyKind?_of_content? found, quoted]
        obtain ⟨others, clear, kinds⟩ := ih
        refine ⟨lexeme.anomalyKind?.toList ++ others, by simp [clear, other], ?_⟩
        rw [List.append_assoc]
        exact kinds.imp (congrArg _) (congrArg _)

end Lexeme

/-- A text that is never closed is reported unless too many anomalies come before it. By itself it
is always reported. -/
theorem Lexeme.Formed.reported {lexemes : List Lexeme} (formed : Formed lexemes)
    {kinds : List AnomalyKind} (met : kinds = lexemes.filterMap Lexeme.anomalyKind?) :
    (.unterminatedString ∈ (kinds.filter (· = .unterminatedString)).take maxAnomalies ↔
        .unterminatedString ∈ kinds) ∧
      (.unterminatedString ∈ kinds.take maxAnomalies ↔
        .unterminatedString ∈ kinds ∧ kinds.length ≤ maxAnomalies) := by
  obtain ⟨others, clear, last⟩ := formed.anomalies
  have none : others.filter (· = .unterminatedString) = [] := by
    apply List.filter_eq_nil_iff.mpr
    intro kind hk same
    exact clear (of_decide_eq_true same ▸ hk)
  have before : .unterminatedString ∉ others.take maxAnomalies :=
    fun mem => clear (List.mem_of_mem_take mem)
  rcases last with last | last
  · rw [met, last, none]
    simp [clear, before]
  · rw [met, last, List.filter_append, none]
    refine ⟨by simp [maxAnomalies], ?_⟩
    rw [List.length_append, List.length_singleton]
    by_cases room : others.length + 1 ≤ maxAnomalies
    · rw [List.take_of_length_le (by rwa [List.length_append])]
      simp [room]
    · rw [List.take_append_of_le_length (by omega)]
      simp [before, room]

theorem map_content_sourceTokens (source : List Char) :
    (sourceTokens false source).map (fun t => (t.kind, t.text)) =
      (Lexeme.scan source).filterMap (Lexeme.content? false) := by
  have lexemes := map_lexeme_placeLexemes (.ofChars source) 0 (Lexeme.scan source)
  unfold sourceTokens
  rw [List.map_filterMap, ← lexemes, List.filterMap_map, lexemes]
  congr 1
  funext p
  unfold PlacedLexeme.token?
  dsimp only [Function.comp]
  cases Lexeme.content? false p.lexeme <;> rfl

theorem map_kind_anomalies (source : String) :
    (tokenize false source).anomalies.map (·.kind) =
      (Lexeme.scan source.toList).filterMap Lexeme.anomalyKind? := by
  have lexemes := map_lexeme_placeLexemes (.ofSource source) 0 (Lexeme.scan source.toList)
  unfold tokenize
  rw [List.map_filterMap, ← lexemes, List.filterMap_map, lexemes]
  congr 1
  funext p
  unfold PlacedLexeme.anomaly?
  dsimp only [Function.comp]
  cases p.lexeme.anomalyKind? <;> rfl

theorem map_content_tokens (source : String) :
    (tokenize false source).tokens.map (fun t => (t.kind, t.text)) =
      (Lexeme.scan source.toList).filterMap (Lexeme.content? false) ++ [(.endOfFile, none)] := by
  rw [tokens_tokenize, List.map_append, map_content_sourceTokens]
  rfl

/-- What is printed of the tokens of a source is what their contents are printed as. -/
theorem toList_printed (source : String) :
    (printed (tokenize false source).tokens).toList =
      Lexeme.printedContents ((Lexeme.scan source.toList).filterMap (Lexeme.content? false)) := by
  have tokens : (tokenize false source).tokens.filter (·.kind != .endOfFile) =
      sourceTokens false source.toList := by
    rw [tokens_tokenize, List.filter_append, List.filter_eq_self.mpr]
    · simp [endToken]
    · intro t ht
      simpa using kind_ne_of_mem_sourceTokens ht
  unfold printed Lexeme.printedContents
  rw [String.toList_intercalate, tokens, ← map_content_sourceTokens, List.map_map, List.map_map]
  rfl

/-- A kind of anomaly that was met. -/
theorem Tokens.exists_anomalies_iff (t : Tokens) (kind : AnomalyKind) :
    (∃ a ∈ t.anomalies, a.kind = kind) ↔ kind ∈ t.anomalies.map (·.kind) :=
  List.mem_map.symm

/-- A kind of anomaly that was reported. -/
theorem Tokens.exists_reported_iff (t : Tokens) (kind : AnomalyKind) :
    (∃ a ∈ t.reported, a.kind = kind) ↔ kind ∈ (t.anomalies.map (·.kind)).take maxAnomalies := by
  rw [← List.map_take]
  exact List.mem_map.symm

/-- What the tokens of a source are read as once they have been printed. -/
def reread (source : String) : Tokens :=
  tokenize false (printed (tokenize false source).tokens)

/-- Printed tokens are read again as the same tokens. Nothing is wrong with them but for a text
that is never closed, and the source had such a text too. It was reported there unless too many
anomalies had been reported before it. -/
theorem tokenize_printed (source : String) :
    (reread source).tokens.map (fun t => (t.kind, t.text)) =
        (tokenize false source).tokens.map (fun t => (t.kind, t.text)) ∧
      (∀ a ∈ (reread source).anomalies, a.kind = .unterminatedString) ∧
      ((∃ a ∈ (reread source).reported, a.kind = .unterminatedString) ↔
        ∃ a ∈ (tokenize false source).anomalies, a.kind = .unterminatedString) ∧
      ((∃ a ∈ (tokenize false source).reported, a.kind = .unterminatedString) ↔
        (∃ a ∈ (reread source).reported, a.kind = .unterminatedString) ∧
          (tokenize false source).anomalies.length ≤ maxAnomalies) := by
  have formed := Lexeme.formed_scan source.toList
  obtain ⟨contents, wrong⟩ := Lexeme.scan_printedContents formed
  have last := formed.reported (map_kind_anomalies source)
  have same := map_content_tokens (printed (tokenize false source).tokens)
  rw [toList_printed, contents, ← map_content_tokens] at same
  rw [← toList_printed source, ← map_kind_anomalies, ← map_kind_anomalies] at wrong
  rw [← wrong] at last
  unfold reread
  generalize tokenize false source = first at same wrong last ⊢
  generalize tokenize false (printed first.tokens) = second at same wrong last ⊢
  refine ⟨same, ?_, ?_, ?_⟩
  · intro a ha
    have mem : a.kind ∈ second.anomalies.map (·.kind) := List.mem_map_of_mem ha
    rw [wrong, List.mem_filter] at mem
    exact of_decide_eq_true mem.2
  · rw [Tokens.exists_reported_iff, Tokens.exists_anomalies_iff, last.1]
  · rw [Tokens.exists_reported_iff, Tokens.exists_reported_iff, last.1, last.2, List.length_map]

/-- The two runs need not report the same: here the text that is never closed comes after as many
stray characters as are reported, and these are not printed. -/
theorem printed_reported_differs :
    ¬ ∀ source : String,
      ((∃ a ∈ (reread source).reported, a.kind = .unterminatedString) ↔
        ∃ a ∈ (tokenize false source).reported, a.kind = .unterminatedString) := by
  intro h
  let strays : String := String.ofList (List.replicate maxAnomalies '\\')
  have same := h (strays ++ "\"x")
  revert same
  decide +kernel

end MapScript
