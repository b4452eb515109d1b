import MapScript.Proofs.Placement
import MapScript.Proofs.Lexing
import MapScript.Proofs.Respelling.Statements

/-!
# Comments in a program

A source is read once without its line comments and once with them.
-/
namespace MapScript

namespace Lexeme

theorem kind_of_form_newline {kind : LexemeKind} {taken after : List Char}
    (h : Form kind ('\n' :: taken) after) : kind = .lineEnd :=
  (congrArg Cut.kind (cut_of_form h rfl)).symm

theorem content?_eq {lexeme : Lexeme} (h : lexeme.kind ≠ .lineComment) (keepComments : Bool) :
    lexeme.content? keepComments = lexeme.content? false := by
  unfold content?
  dsimp only
  split <;> first | rfl | contradiction

/-- A line comment is the last lexeme, or a line end comes behind it. -/
theorem Formed.lineEnd_of_lineComment {comment lexeme : Lexeme} {lexemes : List Lexeme}
    (h : Formed (comment :: lexeme :: lexemes)) (hk : comment.kind = .lineComment) :
    lexeme.kind = .lineEnd := by
  obtain ⟨kind, text⟩ := comment
  subst hk
  cases h with
  | cons form rest =>
      cases form with
      | lineComment _ stop =>
          cases rest with
          | cons next _ =>
              obtain ⟨c, taken, text⟩ := List.exists_cons_of_ne_nil next.ne_nil
              have newline : c = '\n' := by
                simpa using stop c (by simp [text])
              rw [text, newline] at next
              exact kind_of_form_newline next

end Lexeme

/-- Kept comments stand at the ends of lines. -/
theorem woven_placeLexemes {last : Token} (hl : last.kind = .endOfFile) {lexemes : List Lexeme}
    (h : Lexeme.Formed lexemes) (lines : LineMap) (offset : Nat) :
    Woven True ((placeLexemes lines offset lexemes).filterMap (·.token? false) ++ [last])
      ((placeLexemes lines offset lexemes).filterMap (·.token? true) ++ [last]) := by
  induction h generalizing offset with
  | nil => exact .cons (.refl last) .nil
  | @cons lexeme lexemes form rest ih =>
      have woven := ih (offset + byteLength lexeme.text)
      rw [placeLexemes, List.filterMap_cons, List.filterMap_cons]
      by_cases hk : lexeme.kind = .lineComment
      · have dropped : lexeme.content? false = none := by simp [Lexeme.content?, hk]
        have kept : lexeme.content? true =
            some (.comment, some (Lexeme.commentText lexeme.text)) := by simp [Lexeme.content?, hk]
        simp only [PlacedLexeme.token?, dropped, kept, Option.map_none, Option.map_some]
        cases lexemes with
        | nil => exact .comment trivial (.inr hl) rfl woven
        | cons next lexemes =>
            have ends := (Lexeme.Formed.cons form rest).lineEnd_of_lineComment hk
            have content : next.content? false = some (.endOfLine, none) := by
              simp [Lexeme.content?, ends]
            simp only [placeLexemes, PlacedLexeme.token?, List.filterMap_cons, content,
              Option.map_some, List.cons_append] at woven ⊢
            exact .comment trivial (.inl rfl) rfl woven
      · simp only [PlacedLexeme.token?, lexeme.content?_eq hk true]
        cases lexeme.content? false with
        | none => exact woven
        | some content => exact .cons (.refl _) woven

theorem woven_tokenize (source : String) :
    Woven True (tokenize false source).tokens (tokenize true source).tokens :=
  woven_placeLexemes rfl (Lexeme.formed_scan source.toList) (.ofSource source) 0

/-- The program is read with its comments too, or it has errors and a comment stands between
brackets. Without errors no comment stands there, since the parser is past all the tokens. -/
theorem errors_comments_iff {o : ParseOptions} {source : String}
    (clean : (parse o (tokenize false source).tokens).errors = []) {blocks : Bool}
    (covered : Respelling.Covered ⟨o, (tokenize true source).tokens, True, blocks⟩) :
    (parse o (tokenize true source).tokens).errors = [] ↔
      Respelling.Quiet ⟨o, (tokenize true source).tokens, True, blocks⟩ := by
  have ends : terminated (tokenize true source).tokens = (tokenize true source).tokens :=
    terminated_concat _ rfl
  have ends' : terminated (tokenize false source).tokens = (tokenize false source).tokens :=
    terminated_concat _ rfl
  have read := parse_respelled (c := ⟨o, (tokenize true source).tokens, True, blocks⟩) ends
    (by rw [ends']; exact woven_tokenize source) covered clean
  rcases read with ⟨errors, noisy⟩ | ⟨⟨_, -, parsed⟩, s, t, like, evolves, atEnd⟩
  · exact iff_of_false errors noisy
  · refine iff_of_true (by rw [parsed]) fun x hx => ?_
    have more := evolves.forward.rest_ne_nil (x := endToken source.toList)
      (List.mem_append_right _ (List.mem_singleton_self _)) rfl
    have rest : t.rest = [endToken source.toList] :=
      rest_at_end like.ahead (fun x => kind_ne_of_mem_sourceTokens) more atEnd
    obtain ⟨past, all, tight⟩ := like.behind
    rw [rest, between_cons_of_not rfl, between, List.append_nil] at all
    exact tight x (all ▸ hx)

/-- Comments do no harm outside brackets. Where no word of a block names a member, it is known
which ones do harm: those directly between brackets, and not in a block that stands there. -/
theorem parse_comments (o : ParseOptions) (source : String)
    (clean : (parse o (tokenize false source).tokens).errors = []) :
    ((∀ t ∈ between false [] (tokenize true source).tokens, t.kind ≠ .comment) →
      (parse o (tokenize true source).tokens).errors = []) ∧
    ((tokenize true source).tokens.IsChain Token.KeepsApart →
      ((parse o (tokenize true source).tokens).errors = [] ↔
        ∀ t ∈ between true [] (tokenize true source).tokens, t.kind ≠ .comment)) := by
  have quiet_iff (blocks : Bool) :
      Respelling.Quiet ⟨o, (tokenize true source).tokens, True, blocks⟩ ↔
        ∀ t ∈ between blocks [] (tokenize true source).tokens, t.kind ≠ .comment :=
    forall₂_congr fun _ _ => not_congr (and_iff_right trivial)
  constructor
  · intro plain
    have quiet := (quiet_iff false).mpr plain
    exact (errors_comments_iff clean (quiet.covered rfl)).mpr quiet
  · intro apart
    have covered : Respelling.Covered ⟨o, (tokenize true source).tokens, True, true⟩ :=
      Respelling.covered_of_apart apart rfl
    exact (errors_comments_iff clean covered).trans (quiet_iff true)

/-- Comments at the ends of lines, three of them in a block that is an argument. The list of
arguments itself runs over two lines and has none. -/
theorem parse_comments_lines :
    let o : ParseOptions := ⟨false, false, 5⟩
    let source := "loop // head\nexitwhen f(a,\ndo // body\ng() // call\n// last\nend) // test\nend"
    let tokens := (tokenize true source).tokens
    (parse o (tokenize false source).tokens).errors = [] ∧ tokens.IsChain Token.KeepsApart ∧
      (∀ t ∈ between true [] tokens, t.kind ≠ .comment) ∧
      tokens.countP (·.kind = .comment) = 5 ∧
      (between false [] tokens).countP (·.kind = .comment) = 3 ∧ (parse o tokens).errors = [] := by
  intro o source tokens
  have clean : (parse o (tokenize false source).tokens).errors = [] := by decide +kernel
  have placed : tokens.IsChain Token.KeepsApart ∧
      (∀ t ∈ between true [] tokens, t.kind ≠ .comment) ∧
      tokens.countP (·.kind = .comment) = 5 ∧
      (between false [] tokens).countP (·.kind = .comment) = 3 := by decide +kernel
  obtain ⟨apart, plain, all, inside⟩ := placed
  exact ⟨clean, apart, plain, all, inside, ((parse_comments o source clean).2 apart).mpr plain⟩

/-- A comment after an argument breaks a program. -/
theorem comment_after_argument :
    let o : ParseOptions := ⟨false, false, 5⟩
    let source := "f(a, // note\nb)"
    (parse o (tokenize false source).tokens).errors = [] ∧
      (parse o (tokenize true source).tokens).errors ≠ [] := by
  intro o source
  decide +kernel

end MapScript
