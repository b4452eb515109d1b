import MapScript.Proofs.Mentions
import MapScript.Proofs.Progress

/-!
# How tokens spell what is mentioned

Some tokens are words of the program's own, and each of them stands for one thing that is
mentioned. Others are brackets and the keywords around blocks and branches, which come in pairs or
chains with something between. All others are silent: they separate and connect, and neither name
nor enclose anything.

`Spells` says how a list of tokens is made of these. It knows nothing of expressions and
statements; it is what is left of the grammar when only the mentions and the nesting count. The
parser spells its tree in this way whenever it finds no error, rule by rule.
-/
namespace MapScript

/-- The blocks, by the keywords that open them. -/
inductive BlockWord where
  | globals
  | function
  | doBlock
  | ifStmt
  | loop
  | forStmt
  | struct
deriving DecidableEq, Repr

/-- What is open and has to be closed. -/
inductive Unclosed where
  | round
  | curly
  | square
  | block (word : BlockWord)
  /-- A condition that is in its last branch, after `else`. -/
  | lastBranch
deriving DecidableEq, Repr

/-- What a token does to what is open. -/
inductive Fence where
  | opens (opener : Unclosed)
  /-- Closes what was opened in this way. -/
  | closes (opener : Unclosed)
  /-- Closes any block. -/
  | ends
  | otherwise
  | otherwiseIf
deriving DecidableEq, Repr

/-- The fences among the keywords, in their small spelling. -/
def wordFence? (word : String) : Option Fence :=
  match word with
  | "globals" => some (.opens (.block .globals))
  | "function" => some (.opens (.block .function))
  | "do" => some (.opens (.block .doBlock))
  | "if" => some (.opens (.block .ifStmt))
  | "loop" => some (.opens (.block .loop))
  | "for" => some (.opens (.block .forStmt))
  | "struct" => some (.opens (.block .struct))
  | "endglobals" => some (.closes (.block .globals))
  | "endfunction" => some (.closes (.block .function))
  | "endif" => some (.closes (.block .ifStmt))
  | "endloop" => some (.closes (.block .loop))
  | "endfor" => some (.closes (.block .forStmt))
  | "endstruct" => some (.closes (.block .struct))
  | "end" => some .ends
  | "else" => some .otherwise
  | "elseif" => some .otherwiseIf
  | _ => none

namespace Token

def fence? (t : Token) : Option Fence :=
  match t.kind with
  | .leftParen => some (.opens .round)
  | .rightParen => some (.closes .round)
  | .leftBrace => some (.opens .curly)
  | .rightBrace => some (.closes .curly)
  | .operator =>
    if t.word = "[" then some (.opens .square)
    else if t.word = "]" then some (.closes .square)
    else none
  | .keyword => wordFence? (lowerWord t.word)
  | _ => none

/-- The token is a word of the program's own. -/
def isOwn (t : Token) : Bool := t.kind ∈ [.identifier, .number, .string]

/-- The token neither names nor encloses anything. -/
def IsSilent (t : Token) : Prop := t.isOwn = false ∧ t.fence? = none

/-- What stands before the name of a property. -/
def IsMemberSign (t : Token) : Prop := t.isOperator "." ∨ t.isOperator "->"

/-- What stands behind the key of a field. -/
def IsFieldSign (t : Token) : Prop := t.isOperator ":" ∨ t.isOperator "="

/-- A keyword around a block or a branch. -/
def isBlockWord (t : Token) : Bool := t.kind == .keyword && t.fence?.isSome

/-- Neither token is the word of a block that names a member: one behind a member operator, or one
before the sign that comes after a key. -/
def KeepsApart (first second : Token) : Prop :=
  ((first.isOperator "." || first.isOperator "->") = true → second.isBlockWord = false) ∧
    ((second.isOperator ":" || second.isOperator "=") = true → first.isBlockWord = false)

instance : DecidableRel KeepsApart :=
  fun _ _ => inferInstanceAs (Decidable ((_ = true → _ = false) ∧ (_ = true → _ = false)))

/-- A block is closed by a word of its own or by `end`. -/
def ClosesBlock (t : Token) (word : BlockWord) : Prop :=
  t.fence? = some (.closes (.block word)) ∨ t.fence? = some .ends

end Token

/-- The parts of a program, in what follows. -/
inductive Form where
  | phrase
  /-- What comes after `if` or `elseif`, with the end of the condition. -/
  | branches
deriving DecidableEq, Repr

/-- How the tokens spell the mentions. Types may be left out of the tree. -/
inductive Spells (types : Bool) : Form → List Token → List Mention → Prop
  | nil : Spells types .phrase [] []
  | append {ts us : List Token} {ms ns : List Mention} : Spells types .phrase ts ms →
      Spells types .phrase us ns → Spells types .phrase (ts ++ us) (ms ++ ns)
  | silent {t : Token} : t.IsSilent → Spells types .phrase [t] []
  | name {t : Token} : t.kind = .identifier → Spells types .phrase [t] [.name t.word]
  | unrecorded {t : Token} : t.kind = .identifier → types = false → Spells types .phrase [t] []
  | value {t : Token} : t.kind = .number ∨ t.kind = .string →
      Spells types .phrase [t] [.value t.word]
  | property {sign t : Token} : sign.IsMemberSign → t.kind.isFieldName →
      Spells types .phrase [sign, t] [.member t.word]
  | key {t sign : Token} : t.kind.isFieldName → sign.IsFieldSign →
      Spells types .phrase [t, sign] [.member t.word]
  | instruction {t : Token} : t.kind = .identifier →
      Spells types .phrase [t] [.instruction (lowerWord t.word)]
  | bracketed {l r : Token} {opener : Unclosed} {ts : List Token} {ms : List Mention} :
      l.fence? = some (.opens opener) → Spells types .phrase ts ms →
      r.fence? = some (.closes opener) → Spells types .phrase (l :: (ts ++ [r])) ms
  | block {t c : Token} {word : BlockWord} {ts : List Token} {ms : List Mention} :
      t.fence? = some (.opens (.block word)) → Spells types .phrase ts ms → c.ClosesBlock word →
      Spells types .phrase (t :: (ts ++ [c])) ms
  | condition {t : Token} {ts : List Token} {ms : List Mention} :
      t.fence? = some (.opens (.block .ifStmt)) → Spells types .branches ts ms →
      Spells types .phrase (t :: ts) ms
  | onlyBranch {c : Token} {ts : List Token} {ms : List Mention} : Spells types .phrase ts ms →
      c.ClosesBlock .ifStmt → Spells types .branches (ts ++ [c]) ms
  | lastBranch {e c : Token} {ts us : List Token} {ms ns : List Mention} :
      Spells types .phrase ts ms → e.fence? = some .otherwise → Spells types .phrase us ns →
      c.ClosesBlock .ifStmt → Spells types .branches (ts ++ e :: (us ++ [c])) (ms ++ ns)
  | moreBranches {e : Token} {ts us : List Token} {ms ns : List Mention} :
      Spells types .phrase ts ms → e.fence? = some .otherwiseIf → Spells types .branches us ns →
      Spells types .branches (ts ++ e :: us) (ms ++ ns)

theorem lowerWord_eq_of_sameWord {a b : String} (h : sameWord a b) : lowerWord a = lowerWord b := by
  unfold sameWord at h
  unfold lowerWord
  rw [beq_iff_eq.mp h]

namespace Token
variable {t : Token}

theorem fence?_of_isKeyword {word : String} (h : t.isKeyword word) :
    t.kind = .keyword ∧ t.fence? = wordFence? (lowerWord word) := by
  simp only [isKeyword, isA, Bool.and_eq_true, beq_iff_eq] at h
  refine ⟨h.1, ?_⟩
  rw [fence?, h.1]
  dsimp only
  rw [lowerWord_eq_of_sameWord h.2]

theorem word_of_isOperator {symbol : String} (h : t.isOperator symbol)
    (letterless : isLetterless symbol) : t.kind = .operator ∧ t.word = symbol := by
  simp only [isOperator, isA, Bool.and_eq_true, beq_iff_eq] at h
  exact ⟨h.1, eq_of_sameWord letterless h.2⟩

theorem isOwn_eq_false (h : t.kind = .keyword ∨ t.kind = .operator) : t.isOwn = false := by
  rcases h with h | h <;> simp [isOwn, h]

theorem isSilent_of_isKeyword {word : String} (h : t.isKeyword word)
    (unfenced : wordFence? (lowerWord word) = none) : t.IsSilent := by
  obtain ⟨hk, hm⟩ := fence?_of_isKeyword h
  exact ⟨isOwn_eq_false (.inl hk), hm.trans unfenced⟩

theorem isSilent_of_operator (hk : t.kind = .operator) (hl : t.word ≠ "[") (hr : t.word ≠ "]") :
    t.IsSilent := by
  refine ⟨isOwn_eq_false (.inr hk), ?_⟩
  rw [fence?, hk]
  dsimp only
  rw [if_neg hl, if_neg hr]

theorem isSilent_of_isOperator {symbol : String} (h : t.isOperator symbol)
    (letterless : isLetterless symbol) (hl : symbol ≠ "[") (hr : symbol ≠ "]") : t.IsSilent := by
  obtain ⟨hk, hw⟩ := word_of_isOperator h letterless
  exact isSilent_of_operator hk (hw ▸ hl) (hw ▸ hr)

theorem IsMemberSign.isSilent (h : t.IsMemberSign) : t.IsSilent := by
  rcases h with h | h <;>
    exact isSilent_of_isOperator h (by decide) (by decide) (by decide)

theorem IsFieldSign.isSilent (h : t.IsFieldSign) : t.IsSilent := by
  rcases h with h | h <;>
    exact isSilent_of_isOperator h (by decide) (by decide) (by decide)

theorem isSilent_of_kind (h : t.kind = .endOfLine ∨ t.kind = .comment) : t.IsSilent := by
  rcases h with h | h <;> simp [IsSilent, isOwn, fence?, h]

theorem kind_ne_of_fence? {f : Fence} (h : t.fence? = some f) : t.kind ≠ .endOfFile := by
  intro hk
  rw [fence?, hk] at h
  cases h

theorem fence?_leftBracket (hk : t.kind = .operator) (hw : t.word = "[") :
    t.fence? = some (.opens .square) := by
  rw [fence?, hk]
  dsimp only
  rw [if_pos hw]

theorem fence?_rightBracket (h : t.isOperator "]") : t.fence? = some (.closes .square) := by
  obtain ⟨hk, hw⟩ := word_of_isOperator h (by decide)
  rw [fence?, hk]
  dsimp only
  rw [hw]
  decide

end Token

theorem isKeyword_lowerWord (word : String) : isKeyword (lowerWord word) = isKeyword word := by
  unfold isKeyword
  simp only [sameWord_lowerWord]

theorem wordFence?_of_expressionWord {w : String} {word : ExpressionWord}
    (h : ExpressionWord.ofWord? w = some word) : wordFence? (lowerWord w) =
      if word = .doBlock then some (.opens (.block .doBlock)) else none := by
  unfold ExpressionWord.ofWord? at h
  split_ifs at h with operator nil bool await doBlock <;> cases h
  · simp only [List.mem_cons, List.not_mem_nil, or_false] at operator
    rcases operator with rfl | rfl | rfl | rfl <;> decide
  · simp only [List.mem_cons, List.not_mem_nil, or_false] at nil
    rcases nil with rfl | rfl <;> decide
  · simp only [List.mem_cons, List.not_mem_nil, or_false] at bool
    rcases bool with rfl | rfl <;> decide
  · rw [await]
    decide
  · rw [doBlock]
    decide

/-- The block that a keyword opens at the beginning of a statement. -/
def StatementWord.block? : StatementWord → Option BlockWord
  | .globals => some .globals
  | .function => some .function
  | .ifStmt => some .ifStmt
  | .loop => some .loop
  | .forStmt => some .forStmt
  | .struct => some .struct
  | _ => none

theorem wordFence?_of_statementWord {w : String} {word : StatementWord}
    (h : StatementWord.ofWord? w = some word) (hw : word ≠ .expression) :
    wordFence? (lowerWord w) = word.block?.map fun block => .opens (.block block) := by
  unfold StatementWord.ofWord? at h
  split at h
  case h_16 =>
      split at h
      · cases h
        exact absurd rfl hw
      · cases h
  all_goals
    cases h
    decide

namespace Token
variable {t : Token}

theorem fence?_of_expressionWord {word : ExpressionWord} (hk : t.kind = .keyword)
    (h : ExpressionWord.ofWord? t.word = some word) :
    t.fence? = if word = .doBlock then some (.opens (.block .doBlock)) else none := by
  rw [fence?, hk]
  exact wordFence?_of_expressionWord h

theorem fence?_of_statementWord {word : StatementWord} (hk : t.kind = .keyword)
    (h : StatementWord.ofWord? t.word = some word) (hw : word ≠ .expression) :
    t.fence? = word.block?.map fun block => .opens (.block block) := by
  rw [fence?, hk]
  exact wordFence?_of_statementWord h hw

/-- The token that a stop accepts is a fence as the word of the stop is. -/
theorem fence?_of_accepts {word : String} (h : (Stop.keyword word).accepts t) :
    t.fence? = wordFence? (lowerWord word) := by
  simp only [Stop.accepts, Stop.keyword, Bool.and_eq_true, beq_iff_eq, Option.all_some] at h
  rw [fence?, h.1]
  dsimp only
  rw [lowerWord_eq_of_sameWord h.2]

theorem closesBlock_of_end {word : BlockWord} (h : Stop.plainEnd.accepts t) :
    t.ClosesBlock word :=
  .inr (fence?_of_accepts h)

theorem closesBlock_of_accepts {word : String} {block : BlockWord}
    (hw : wordFence? (lowerWord word) = some (.closes (.block block))) {stop : Stop}
    (hs : stop ∈ [Stop.plainEnd, Stop.keyword word]) (h : stop.accepts t) :
    t.ClosesBlock block := by
  simp only [List.mem_cons, List.not_mem_nil, or_false] at hs
  rcases hs with rfl | rfl
  · exact closesBlock_of_end h
  · exact .inl ((fence?_of_accepts h).trans hw)

end Token

end MapScript
