import MapScript.Proofs.Nesting

/-!
# Other tokens for the same program

A list of tokens can be changed in two ways that should not matter to a parser. A word that closes
one kind of block only can become `end`, which closes them all, and comments can be put in where a
line ends. `Woven` holds of two lists when the second comes from the first in these ways.

Line ends do not matter between brackets either, but there a parser that skips them has to skip
the comments too. So it matters what is open where a token stands, and whether it is a bracket.
-/
namespace MapScript

/-- The words that close blocks of one kind only. -/
def ownClosers : List String :=
  ["endglobals", "endfunction", "endif", "endloop", "endfor", "endstruct"]

namespace Token

/-- The second token is of the same kind and in the same place. It has the same word, or it is
`end` where the first is a closing word. -/
structure Respelled (x y : Token) : Prop where
  kind : y.kind = x.kind
  span : y.span = x.span
  word : y.word = x.word ∨ x.kind = .keyword ∧ x.word ∈ ownClosers ∧ y.word = "end"

/-- There is nothing behind the token on its line. -/
def EndsLine (t : Token) : Prop := t.kind = .endOfLine ∨ t.kind = .endOfFile

/-- What is seen in the two lists at the same time. Comments are put in only if `loose` holds. -/
inductive Seen (loose : Prop) (x y : Token) : Prop
  | respelled : x.Respelled y → Seen loose x y
  | comment : loose → x.EndsLine → y.kind = .comment → Seen loose x y

theorem Respelled.refl (t : Token) : t.Respelled t := ⟨rfl, rfl, .inl rfl⟩

section
variable {loose : Prop} {x y : Token}

/-- Only the word of a keyword can change. -/
theorem Respelled.word_eq (h : x.Respelled y) (hk : x.kind ≠ .keyword) : y.word = x.word :=
  h.word.resolve_right fun closing => hk closing.1

theorem Respelled.word_eq_of_notMem (h : x.Respelled y) (hw : x.word ∉ ownClosers) :
    y.word = x.word :=
  h.word.resolve_right fun closing => hw closing.2.1

theorem Respelled.fence?_eq (h : x.Respelled y) (hw : x.word ∉ ownClosers) :
    y.fence? = x.fence? := by
  rw [fence?, fence?, h.kind, h.word_eq_of_notMem hw]

/-- What closes a block closes it when it is respelled. -/
theorem Respelled.closesBlock (h : x.Respelled y) {word : BlockWord} (hx : x.ClosesBlock word) :
    y.ClosesBlock word := by
  rcases h.word with same | ⟨hk, -, hy⟩
  · have fence : y.fence? = x.fence? := by rw [fence?, fence?, h.kind, same]
    rwa [ClosesBlock, fence]
  · refine .inr ?_
    rw [fence?, h.kind, hk, hy]
    decide

theorem Seen.respelled_of (h : x.Seen loose y) (hx : ¬ x.EndsLine) : x.Respelled y := by
  cases h with
  | respelled h => exact h
  | comment _ line _ => exact absurd line hx

theorem not_endsLine_of_kind {kind : TokenKind} (h : x.kind = kind)
    (he : kind ∉ [.endOfLine, .endOfFile]) : ¬ x.EndsLine := by
  rintro (line | line) <;> simp [← h, line] at he

end

/-- A test that finds the same in tokens that are respelled, and that no line end and no comment
passes. -/
structure Firm (f : Token → Bool) : Prop where
  same {x y : Token} : x.Respelled y → f y = f x
  solid {t : Token} : f t = true → t.kind ∉ [.endOfLine, .endOfFile, .comment]

namespace Firm
variable {f g : Token → Bool} {loose : Prop} {x y : Token}

theorem not_endsLine (hf : Firm f) (h : f x = true) : ¬ x.EndsLine := by
  have solid := hf.solid h
  rintro (line | line) <;> simp [line] at solid

theorem kind_ne (hf : Firm f) (h : f x = true) : x.kind ≠ .endOfFile ∧ x.kind ≠ .comment := by
  have solid := hf.solid h
  constructor <;> intro hk <;> simp [hk] at solid

theorem eq_false (hf : Firm f) (h : x.kind ∈ [.endOfLine, .endOfFile, .comment]) :
    f x = false := by
  by_contra yes
  exact hf.solid (by simpa using yes) h

/-- The test does not tell a comment from the line end that it stands before. -/
theorem seen (hf : Firm f) (h : x.Seen loose y) : f y = f x := by
  cases h with
  | respelled h => exact hf.same h
  | comment _ line hy =>
      rw [hf.eq_false (x := y) (by simp [hy]), hf.eq_false]
      rcases line with line | line <;> simp [line]

theorem or (hf : Firm f) (hg : Firm g) : Firm fun t => f t || g t where
  same h := by rw [hf.same h, hg.same h]
  solid h := ((Bool.or_eq_true _ _).mp h).elim hf.solid hg.solid

theorem kind {kind : TokenKind} (h : kind ∉ [.endOfLine, .endOfFile, .comment]) :
    Firm (·.kind == kind) where
  same h := by rw [h.kind]
  solid hk := by rwa [beq_iff_eq.mp hk]

theorem operator (symbol : String) : Firm (·.isOperator symbol) where
  same {x y} h := by
    unfold isOperator isA
    by_cases hk : x.kind = .operator
    · rw [h.kind, h.word_eq (by rw [hk]; decide)]
    · rw [h.kind, beq_false_of_ne hk, Bool.false_and, Bool.false_and]
  solid h := by
    simp only [isOperator, isA, Bool.and_eq_true, beq_iff_eq] at h
    rw [h.1]
    decide

/-- A keyword that closes nothing. -/
theorem keyword {word : String} (h : ∀ w ∈ "end" :: ownClosers, sameWord w word = false) :
    Firm (·.isKeyword word) where
  same {x y} hxy := by
    unfold isKeyword isA
    rw [hxy.kind]
    rcases hxy.word with hw | ⟨-, hx, hy⟩
    · rw [hw]
    · rw [hy, h "end" List.mem_cons_self, h x.word (List.mem_cons_of_mem _ hx)]
  solid h := by
    simp only [isKeyword, isA, Bool.and_eq_true, beq_iff_eq] at h
    rw [h.1]
    decide

end Firm

theorem Seen.kind_iff {loose : Prop} {x y : Token} (h : x.Seen loose y) {kind : TokenKind}
    (hk : kind ∉ [.endOfLine, .endOfFile, .comment]) : y.kind = kind ↔ x.kind = kind := by
  have test := (Firm.kind hk).seen h
  rwa [Bool.eq_iff_iff, beq_iff_eq, beq_iff_eq] at test

theorem ofWord?_of_mem_ownClosers {word : String} (h : word ∈ "end" :: ownClosers) :
    ExpressionWord.ofWord? word = none ∧ StatementWord.ofWord? word = none := by
  simp only [ownClosers, List.mem_cons, List.not_mem_nil, or_false] at h
  rcases h with rfl | rfl | rfl | rfl | rfl | rfl | rfl <;> decide

/-- An expression ends before a comment as it ends before the line end. -/
theorem Seen.endsExpression {loose : Prop} {x y : Token} (h : x.Seen loose y) :
    y.endsExpression = x.endsExpression := by
  cases h with
  | respelled h =>
      unfold Token.endsExpression
      rw [h.kind]
      rcases h.word with hw | ⟨hk, hx, hy⟩
      · rw [hw]
      · rw [hk, hy, (ofWord?_of_mem_ownClosers List.mem_cons_self).1,
          (ofWord?_of_mem_ownClosers (List.mem_cons_of_mem _ hx)).1]
  | comment _ line hy =>
      unfold Token.endsExpression
      rcases line with line | line <;> rw [hy, line]

/-- The stops of expressions are operators, which are never respelled. -/
theorem firm_accepts {stop : Stop} (h : stop.kind = .operator) : Firm stop.accepts where
  same {x y} hxy := by
    unfold Stop.accepts
    by_cases hk : x.kind = .operator
    · rw [hxy.kind, hxy.word_eq (by rw [hk]; decide)]
    · rw [hxy.kind, h, beq_false_of_ne hk, Bool.false_and, Bool.false_and]
  solid ht := by
    simp only [Stop.accepts, Bool.and_eq_true, beq_iff_eq] at ht
    rw [ht.1, h]
    decide

end Token

def Unclosed.isBracket : Unclosed → Bool
  | .round => true
  | .curly => true
  | .square => true
  | _ => false

/-- What was opened last is a bracket. -/
def inBracket (stack : List Unclosed) : Bool := stack.head?.any Unclosed.isBracket

/-- What is open behind a token. The words of blocks count only if `blocks` holds, and a token that
does not fit what is open changes nothing. -/
def openAfter (blocks : Bool) (stack : List Unclosed) (t : Token) : List Unclosed :=
  if t.kind = .keyword ∧ blocks = false then stack else (t.nest? stack).getD stack

/-- The tokens that stand between brackets, if the stack is open in front of the list. Where words
count, those inside a block are left out unless they are between brackets of their own. -/
def between (blocks : Bool) (stack : List Unclosed) : List Token → List Token
  | [] => []
  | t :: ts =>
    if inBracket stack then t :: between blocks (openAfter blocks stack t) ts
    else between blocks (openAfter blocks stack t) ts

/-- The stack with a block on it, where words count. -/
def entered (blocks : Bool) (opener : Unclosed) (stack : List Unclosed) : List Unclosed :=
  if blocks then opener :: stack else stack

section
variable {blocks : Bool} {stack : List Unclosed} {t : Token}

theorem between_cons (h : inBracket stack = true) (t : Token) (ts : List Token) :
    between blocks stack (t :: ts) = t :: between blocks (openAfter blocks stack t) ts := by
  rw [between, if_pos h]

theorem between_cons_of_not (h : inBracket stack = false) (t : Token) (ts : List Token) :
    between blocks stack (t :: ts) = between blocks (openAfter blocks stack t) ts := by
  rw [between, if_neg (by simp [h])]

theorem openAfter_of_unfenced (h : t.fence? = none) : openAfter blocks stack t = stack := by
  unfold openAfter
  split
  · rfl
  · rw [Token.nest?_of_unfenced h, Option.getD_some]

theorem openAfter_of_kind {kind : TokenKind} (h : t.kind = kind)
    (hk : kind ∈ [.endOfLine, .identifier, .number, .string, .comment]) :
    openAfter blocks stack t = stack := by
  refine openAfter_of_unfenced ?_
  unfold Token.fence?
  rw [h]
  simp only [List.mem_cons, List.not_mem_nil, or_false] at hk
  rcases hk with rfl | rfl | rfl | rfl | rfl <;> rfl

theorem openAfter_of_isKeyword {word : String} (h : t.isKeyword word = true)
    (unfenced : wordFence? (lowerWord word) = none) : openAfter blocks stack t = stack :=
  openAfter_of_unfenced (Token.isSilent_of_isKeyword h unfenced).2

theorem openAfter_of_operator (h : t.kind = .operator) (hl : t.word ≠ "[") (hr : t.word ≠ "]") :
    openAfter blocks stack t = stack :=
  openAfter_of_unfenced (Token.isSilent_of_operator h hl hr).2

theorem openAfter_of_isOperator {symbol : String} (h : t.isOperator symbol = true)
    (letterless : isLetterless symbol) (hl : symbol ≠ "[") (hr : symbol ≠ "]") :
    openAfter blocks stack t = stack :=
  openAfter_of_unfenced (Token.isSilent_of_isOperator h letterless hl hr).2

/-- Brackets always count. -/
theorem openAfter_of_fence? {fence : Fence} (hk : t.kind ≠ .keyword) (h : t.fence? = some fence) :
    openAfter blocks stack t = (fence.act? stack).getD stack := by
  rw [openAfter, if_neg fun keyword => hk keyword.1, Token.nest?_of_fence? h]

theorem openAfter_leftParen (h : t.kind = .leftParen) :
    openAfter blocks stack t = .round :: stack :=
  openAfter_of_fence? (by rw [h]; decide)
    (show t.fence? = some (.opens .round) by rw [Token.fence?, h])

theorem openAfter_rightParen (h : t.kind = .rightParen) :
    openAfter blocks (.round :: stack) t = stack :=
  openAfter_of_fence? (by rw [h]; decide)
    (show t.fence? = some (.closes .round) by rw [Token.fence?, h])

theorem openAfter_leftBrace (h : t.kind = .leftBrace) :
    openAfter blocks stack t = .curly :: stack :=
  openAfter_of_fence? (by rw [h]; decide)
    (show t.fence? = some (.opens .curly) by rw [Token.fence?, h])

theorem openAfter_rightBrace (h : t.kind = .rightBrace) :
    openAfter blocks (.curly :: stack) t = stack :=
  openAfter_of_fence? (by rw [h]; decide)
    (show t.fence? = some (.closes .curly) by rw [Token.fence?, h])

theorem openAfter_leftBracket (hk : t.kind = .operator) (hw : t.word = "[") :
    openAfter blocks stack t = .square :: stack :=
  openAfter_of_fence? (by rw [hk]; decide) (Token.fence?_leftBracket hk hw)

theorem openAfter_rightBracket (h : t.isOperator "]" = true) :
    openAfter blocks (.square :: stack) t = stack :=
  openAfter_of_fence? (by rw [(Token.word_of_isOperator h (by decide)).1]; decide)
    (Token.fence?_rightBracket h)

/-- Words count where blocks do. -/
theorem openAfter_true {after : List Unclosed} (h : t.nest? stack = some after) :
    openAfter true stack t = after := by
  rw [openAfter, if_neg fun words => Bool.noConfusion words.2, h, Option.getD_some]

section
variable {word : BlockWord} (hk : t.kind = .keyword)
include hk

theorem openAfter_false : openAfter false stack t = stack := if_pos ⟨hk, rfl⟩

theorem openAfter_opensBlock (h : t.fence? = some (.opens (.block word))) :
    openAfter blocks stack t = entered blocks (.block word) stack := by
  cases blocks with
  | false => exact openAfter_false hk
  | true => exact openAfter_true (Token.nest?_of_fence? h stack)

theorem openAfter_closesBlock (h : t.ClosesBlock word) :
    openAfter blocks (entered blocks (.block word) stack) t = stack := by
  cases blocks with
  | false => exact openAfter_false hk
  | true => exact openAfter_true (h.nest? stack)

theorem openAfter_closesLast (h : t.ClosesBlock .ifStmt) :
    openAfter blocks (entered blocks .lastBranch stack) t = stack := by
  cases blocks with
  | false => exact openAfter_false hk
  | true => exact openAfter_true (h.nest?_lastBranch stack)

theorem openAfter_otherwise (h : t.fence? = some .otherwise) :
    openAfter blocks (entered blocks (.block .ifStmt) stack) t =
      entered blocks .lastBranch stack := by
  cases blocks with
  | false => exact openAfter_false hk
  | true => exact openAfter_true (Token.nest?_of_fence? h _)

theorem openAfter_otherwiseIf (h : t.fence? = some .otherwiseIf) :
    openAfter blocks (entered blocks (.block .ifStmt) stack) t =
      entered blocks (.block .ifStmt) stack := by
  cases blocks with
  | false => exact openAfter_false hk
  | true => exact openAfter_true (Token.nest?_of_fence? h _)

end

end

theorem openAfter_member {blocks : Bool} {stack : List Unclosed} {t : Token}
    (hk : t.kind.isFieldName) (h : blocks = true → t.isBlockWord = false) :
    openAfter blocks stack t = stack := by
  simp only [TokenKind.isFieldName, List.mem_cons, List.not_mem_nil, or_false,
    decide_eq_true_eq] at hk
  rcases hk with hk | hk | hk | hk
  case inr.inl =>
      cases blocks with
      | false => exact openAfter_false hk
      | true =>
          have unfenced : t.fence?.isSome = false := by simpa [Token.isBlockWord, hk] using h rfl
          exact openAfter_of_unfenced (by simpa using unfenced)
  all_goals exact openAfter_of_kind hk (by decide)

/-- The second list comes from the first: tokens are respelled, and if `loose` holds comments may
have been put in at the ends of lines. -/
inductive Woven (loose : Prop) : List Token → List Token → Prop
  | nil : Woven loose [] []
  | cons {x y : Token} {xs ys : List Token} : x.Respelled y → Woven loose xs ys →
      Woven loose (x :: xs) (y :: ys)
  | comment {x y : Token} {xs ys : List Token} : loose → x.EndsLine → y.kind = .comment →
      Woven loose (x :: xs) ys → Woven loose (x :: xs) (y :: ys)

namespace Woven
variable {loose : Prop} {xs ys : List Token}

/-- The first tokens of the lists are seen together, as are those past their ends. -/
theorem seen_head (h : Woven loose xs ys) :
    (xs[0]?.getD Token.noMore).Seen loose (ys[0]?.getD Token.noMore) := by
  cases h with
  | nil => exact .respelled (.refl _)
  | cons token _ => exact .respelled token
  | comment hl line hy _ => exact .comment hl line hy

/-- Behind tokens that are respelled the lists go on together. -/
theorem tail {x y : Token} (h : Woven loose (x :: xs) (y :: ys)) (hxy : x.Respelled y) :
    Woven loose xs ys := by
  cases h with
  | cons _ rest => exact rest
  | comment _ line comment _ =>
      rw [hxy.kind] at comment
      rcases line with line | line <;> rw [line] at comment <;> cases comment

/-- A comment before a line end was put in. -/
theorem drop_comment {y : Token} (h : Woven loose xs (y :: ys)) (hy : y.kind = .comment)
    (hx : (xs[0]?.getD Token.noMore).EndsLine) : Woven loose xs ys := by
  cases h with
  | comment _ _ _ rest => exact rest
  | cons token _ =>
      rw [token.kind] at hy
      rcases hx with line | line <;> exact absurd (line.symm.trans hy) (by decide)

/-- Past the ends of lines the lists go on together, unless a comment was put in before one. -/
theorem skipLineEnds (h : Woven loose xs ys) :
    Woven loose (xs.dropWhile (·.kind == .endOfLine)) (ys.dropWhile (·.kind == .endOfLine)) ∨
      loose ∧ ∃ y rest, ys.dropWhile (·.kind == .endOfLine) = y :: rest ∧ y.kind = .comment := by
  induction h with
  | nil => exact .inl .nil
  | @cons x y xs ys token rest ih =>
      by_cases hx : x.kind = .endOfLine
      · have hy : y.kind = .endOfLine := token.kind.trans hx
        rwa [List.dropWhile_cons_of_pos (by simpa using hx),
          List.dropWhile_cons_of_pos (by simpa using hy)]
      · have hy : y.kind ≠ .endOfLine := by rwa [token.kind]
        rw [List.dropWhile_cons_of_neg (by simpa using hx),
          List.dropWhile_cons_of_neg (by simpa using hy)]
        exact .inl (.cons token rest)
  | @comment x y xs ys hl line hy _ _ =>
      refine .inr ⟨hl, y, ys, List.dropWhile_cons_of_neg ?_, hy⟩
      simp [hy]

end Woven

/-- Line ends between brackets are only passed. -/
theorem between_skipLineEnds {blocks : Bool} {stack : List Unclosed}
    (hb : inBracket stack = true) (ts : List Token) :
    between blocks stack ts = ts.takeWhile (·.kind == .endOfLine) ++
      between blocks stack (ts.dropWhile (·.kind == .endOfLine)) := by
  induction ts with
  | nil => rfl
  | cons t ts ih =>
      by_cases ht : t.kind = .endOfLine
      · rw [List.takeWhile_cons_of_pos (by simpa using ht),
          List.dropWhile_cons_of_pos (by simpa using ht), between_cons hb,
          openAfter_of_kind ht (by decide), ih]
        rfl
      · rw [List.takeWhile_cons_of_neg (by simpa using ht),
          List.dropWhile_cons_of_neg (by simpa using ht)]
        rfl

end MapScript
