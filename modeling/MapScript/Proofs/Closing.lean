import MapScript.Proofs.Lexing
import MapScript.Proofs.Respelling.Statements

/-!
# Every block can be closed by `end`

A block has a word of its own that closes it, and `end` closes it as well. A program that is read
without errors is read as the same program when `end` stands for all the other words. Each of them
closed the innermost block that was open, and `end` closes that one too.

The words can also name members, and there it matters which of them it is.
-/
namespace MapScript

/-- The token with `end` in place of a word that closes blocks of one kind only. -/
def Token.closedByEnd (t : Token) : Token :=
  if t.kind = .keyword ∧ t.word ∈ ownClosers then { t with text := some "end" } else t

theorem Token.respelled_closedByEnd (t : Token) : t.Respelled t.closedByEnd := by
  unfold closedByEnd
  split
  · rename_i closing
    exact ⟨rfl, rfl, .inr ⟨closing.1, closing.2, rfl⟩⟩
  · exact .refl t

theorem woven_closedByEnd (tokens : List Token) :
    Woven False tokens (tokens.map Token.closedByEnd) := by
  induction tokens with
  | nil => exact .nil
  | cons t tokens ih => exact .cons t.respelled_closedByEnd ih

/-- The end of file is not respelled. -/
theorem terminated_map_closedByEnd (tokens : List Token) :
    terminated (tokens.map Token.closedByEnd) = (terminated tokens).map Token.closedByEnd := by
  unfold terminated
  rw [List.getLast?_map]
  cases tokens.getLast? with
  | none => rfl
  | some last =>
      dsimp only [Option.map_some]
      rw [last.respelled_closedByEnd.kind, last.respelled_closedByEnd.span]
      split
      · rfl
      · rw [List.map_append]
        rfl

/-- Tokens that are parsed without errors are parsed into the same tree when `end` closes every
block, unless one of the words that it stands for is the name of a member. -/
theorem parse_closedByEnd (o : ParseOptions) (tokens : List Token)
    (clean : (parse o tokens).errors = [])
    (plain : ∀ word ∈ ownClosers, Mention.member word ∉ mentionsOf (parse o tokens).tree.body) :
    (parse o (tokens.map Token.closedByEnd)).errors = [] ∧
      (parse o (tokens.map Token.closedByEnd)).tree = (parse o tokens).tree := by
  have woven := woven_closedByEnd (terminated tokens)
  rw [← terminated_map_closedByEnd] at woven
  have tight : Respelling.Quiet ⟨o, terminated (tokens.map Token.closedByEnd), False, false⟩ :=
    fun _ _ loose => loose.1
  rcases parse_respelled rfl woven (tight.covered rfl) clean
    with ⟨-, noisy⟩ | ⟨⟨body, same, parsed⟩, -⟩
  · exact absurd tight noisy
  · have all : body = (parse o tokens).tree.body := same id plain
    rw [parsed, all]
    exact ⟨rfl, rfl⟩

/-- A condition with a member of the name `end`, inside a loop with a block in a call. -/
theorem parse_closedByEnd_loop :
    let o : ParseOptions := ⟨true, true, 5⟩
    let source := "loop\nif a.end then\ng(do h() end)\nelse\nendif\nendloop"
    let tokens := (tokenize false source).tokens
    (tokens.countP fun t => t.kind = .keyword ∧ t.word ∈ ownClosers) = 2 ∧
      (parse o tokens).errors = [] ∧
      (∀ word ∈ ownClosers, Mention.member word ∉ mentionsOf (parse o tokens).tree.body) ∧
      (parse o (tokens.map Token.closedByEnd)).errors = [] ∧
      (parse o (tokens.map Token.closedByEnd)).tree = (parse o tokens).tree := by
  intro o source tokens
  have facts : (tokens.countP fun t => t.kind = .keyword ∧ t.word ∈ ownClosers) = 2 ∧
      (parse o tokens).errors = [] ∧
      ∀ word ∈ ownClosers, Mention.member word ∉ mentionsOf (parse o tokens).tree.body := by
    decide +kernel
  obtain ⟨closers, clean, plain⟩ := facts
  exact ⟨closers, clean, plain, parse_closedByEnd o tokens clean plain⟩

/-- The condition on members is needed. -/
example : let tokens := (tokenize false "set a.endif = 1").tokens
    (parse ⟨false, false, 5⟩ tokens).errors = [] ∧
      mentionsOf (parse ⟨false, false, 5⟩ (tokens.map Token.closedByEnd)).tree.body ≠
        mentionsOf (parse ⟨false, false, 5⟩ tokens).tree.body := by
  intro tokens
  decide +kernel

end MapScript
