import MapScript.Proofs.Lexing
import MapScript.Proofs.Spelling.Statements

/-!
# Accepted programs are well nested

The brackets and the keywords around blocks are read one after the other, with a stack of what is
open. A closing one has to fit what was opened last, and a branch has to belong to a condition
that was opened last and is not in its last branch.

The parser never looks at nesting as a whole: each rule only looks for its own end. That all ends
fit together follows from what the rules spell.
-/
namespace MapScript

/-- What is open after the fence, or nothing when it does not fit what was opened last. -/
def Fence.act? : Fence → List Unclosed → Option (List Unclosed)
  | .opens opener, stack => some (opener :: stack)
  | .closes (.block .ifStmt), .lastBranch :: stack => some stack
  | .closes opener, top :: stack => if top = opener then some stack else none
  | .ends, .block _ :: stack => some stack
  | .ends, .lastBranch :: stack => some stack
  | .otherwise, .block .ifStmt :: stack => some (.lastBranch :: stack)
  | .otherwiseIf, .block .ifStmt :: stack => some (.block .ifStmt :: stack)
  | _, _ => none

/-- Tokens that are no fences leave the stack as it is. -/
def Token.nest? (stack : List Unclosed) (t : Token) : Option (List Unclosed) :=
  t.fence?.elim (some stack) fun fence => fence.act? stack

/-- What is open after the tokens, when all of them fit. -/
def nest? (stack : List Unclosed) (ts : List Token) : Option (List Unclosed) :=
  ts.foldlM Token.nest? stack

/-- Every token fits what is open before it, and nothing is left open. -/
def WellNested (ts : List Token) : Prop := nest? [] ts = some []

instance : DecidablePred WellNested := fun ts => inferInstanceAs (Decidable (nest? [] ts = some []))

theorem Fence.act?_closes (opener : Unclosed) (stack : List Unclosed) :
    (Fence.closes opener).act? (opener :: stack) = some stack := by
  unfold Fence.act?
  split <;> simp_all

namespace Token
variable {t : Token}

theorem nest?_of_fence? {fence : Fence} (h : t.fence? = some fence) (stack : List Unclosed) :
    t.nest? stack = fence.act? stack := by
  rw [nest?, h, Option.elim_some]

theorem nest?_of_unfenced (h : t.fence? = none) (stack : List Unclosed) :
    nest? stack t = some stack := by
  rw [nest?, h, Option.elim_none]

theorem ClosesBlock.nest? {word : BlockWord} (h : t.ClosesBlock word) (stack : List Unclosed) :
    t.nest? (.block word :: stack) = some stack := by
  rcases h with h | h
  · rw [nest?_of_fence? h, Fence.act?_closes]
  · rw [nest?_of_fence? h, Fence.act?]

/-- A condition is closed in its last branch as before. -/
theorem ClosesBlock.nest?_lastBranch (h : t.ClosesBlock .ifStmt) (stack : List Unclosed) :
    t.nest? (.lastBranch :: stack) = some stack := by
  rcases h with h | h <;> rw [nest?_of_fence? h, Fence.act?]

end Token

/-- The words of fences are keywords. -/
theorem isKeyword_of_wordFence? {word : String} {fence : Fence} (h : wordFence? word = some fence) :
    isKeyword word = true := by
  unfold wordFence? at h
  split at h
  case h_17 => cases h
  all_goals decide

/-- A member whose name is no keyword is no fence. -/
theorem Token.fence?_of_isFieldName {t : Token} (hk : t.kind.isFieldName)
    (plain : MapScript.isKeyword t.word = false) : t.fence? = none := by
  simp only [TokenKind.isFieldName, List.mem_cons, List.not_mem_nil, or_false,
    decide_eq_true_eq] at hk
  rcases hk with hk | hk | hk | hk
  case inr.inl =>
      rw [Option.eq_none_iff_forall_ne_some]
      intro fence h
      rw [fence?, hk] at h
      have keyword := isKeyword_of_wordFence? h
      rw [isKeyword_lowerWord, plain] at keyword
      cases keyword
  all_goals rw [fence?, hk]

theorem nest?_append {stack mid : List Unclosed} {ts : List Token} (h : nest? stack ts = some mid)
    (us : List Token) : nest? stack (ts ++ us) = nest? mid us := by
  rw [nest?, List.foldlM_append]
  exact congrArg (Option.bind · fun mid => nest? mid us) h

theorem nest?_cons {stack mid : List Unclosed} {t : Token} (h : t.nest? stack = some mid)
    (ts : List Token) : nest? stack (t :: ts) = nest? mid ts := by
  rw [nest?, List.foldlM_cons]
  exact congrArg (Option.bind · fun mid => nest? mid ts) h

theorem nest?_singleton (stack : List Unclosed) (t : Token) : nest? stack [t] = t.nest? stack :=
  Option.bind_fun_some _

/-- What is opened is closed again when what stands between leaves it open. -/
theorem nest?_enclosed {stack : List Unclosed} {opener : Unclosed} {l r : Token} {ts : List Token}
    (hl : l.fence? = some (.opens opener))
    (inner : nest? (opener :: stack) ts = some (opener :: stack))
    (hr : r.nest? (opener :: stack) = some stack) :
    nest? stack (l :: (ts ++ [r])) = some stack := by
  have opened : l.nest? stack = some (opener :: stack) := Token.nest?_of_fence? hl stack
  rw [nest?_cons opened, nest?_append inner, nest?_singleton, hr]

/-- What is open where a form begins, over what is open around it. -/
def Form.entered : Form → List Unclosed → List Unclosed
  | .phrase, stack => stack
  | .branches, stack => .block .ifStmt :: stack

/-- Whatever is open around, tokens that spell something fit it and leave it as it was. -/
theorem Spells.nests {types : Bool} {form : Form} {ts : List Token} {ms : List Mention}
    (h : Spells types form ts ms) (plain : ∀ m ∈ ms, m.isKeywordMember = false)
    (stack : List Unclosed) : nest? (form.entered stack) ts = some stack := by
  induction h generalizing stack with
  | nil => rfl
  | append _ _ ih ih' =>
      obtain ⟨left, right⟩ := List.forall_mem_append.mp plain
      rw [nest?_append (ih left stack)]
      exact ih' right stack
  | silent silent =>
      rw [nest?_singleton]
      exact Token.nest?_of_unfenced silent.2 stack
  | @name t hk | @unrecorded t hk | @instruction t hk =>
      rw [nest?_singleton]
      exact Token.nest?_of_unfenced (by rw [Token.fence?, hk]) stack
  | @value t hk =>
      rw [nest?_singleton]
      refine Token.nest?_of_unfenced ?_ stack
      rcases hk with hk | hk <;> rw [Token.fence?, hk]
  | property sign hk =>
      have member := Token.fence?_of_isFieldName hk (plain _ (List.mem_singleton_self _))
      rw [Form.entered, nest?_cons (Token.nest?_of_unfenced sign.isSilent.2 stack), nest?_singleton]
      exact Token.nest?_of_unfenced member stack
  | key hk sign =>
      have member := Token.fence?_of_isFieldName hk (plain _ (List.mem_singleton_self _))
      rw [Form.entered, nest?_cons (Token.nest?_of_unfenced member stack), nest?_singleton]
      exact Token.nest?_of_unfenced sign.isSilent.2 stack
  | bracketed hl _ hr ih =>
      refine nest?_enclosed hl (ih plain _) ?_
      rw [Token.nest?_of_fence? hr, Fence.act?_closes]
  | block ht _ hc ih => exact nest?_enclosed ht (ih plain _) (hc.nest? stack)
  | condition ht _ ih =>
      rw [nest?_cons (Token.nest?_of_fence? ht _)]
      exact ih plain stack
  | onlyBranch _ hc ih =>
      have first := ih plain (.block .ifStmt :: stack)
      exact (nest?_append first _).trans ((nest?_singleton _ _).trans (hc.nest? stack))
  | lastBranch _ he _ hc ih ih' =>
      obtain ⟨left, right⟩ := List.forall_mem_append.mp plain
      have first := ih left (.block .ifStmt :: stack)
      have last := ih' right (.lastBranch :: stack)
      refine (nest?_append first _).trans ?_
      rw [nest?_cons (Token.nest?_of_fence? he _)]
      refine (nest?_append last _).trans ?_
      rw [nest?_singleton, hc.nest?_lastBranch]
  | moreBranches _ he _ ih ih' =>
      obtain ⟨left, right⟩ := List.forall_mem_append.mp plain
      have first := ih left (.block .ifStmt :: stack)
      refine (nest?_append first _).trans ?_
      rw [nest?_cons (Token.nest?_of_fence? he _)]
      exact ih' right stack

/-- A program that is read without errors is well nested, unless the name of a member is a keyword
and may look like a fence. -/
theorem wellNested_tokenize (o : ParseOptions) (keepComments : Bool) (source : String)
    (clean : (parse o (tokenize keepComments source).tokens).errors = [])
    (plain : ∀ m ∈ mentionsOf (parse o (tokenize keepComments source).tokens).tree.body,
      m.isKeywordMember = false) :
    WellNested (tokenize keepComments source).tokens := by
  rw [tokens_tokenize] at clean plain ⊢
  have spelled := parse_spells (fun _ => kind_ne_of_mem_sourceTokens) rfl clean
  have inner : nest? [] (sourceTokens keepComments source.toList) = some [] :=
    spelled.nests plain []
  rw [WellNested, nest?_append inner]
  rfl

/-- A loop around a condition with three branches, closed by a plain `end`. -/
theorem wellNested_tokenize_loop :
    let o : ParseOptions := ⟨false, false, 5⟩
    let source := "loop\nif f(a[1]) then\nelseif b then\nelse\nset a = \x7bk: [1]\x7d\nend\nendloop"
    let tokens := (tokenize false source).tokens
    (parse o tokens).errors = [] ∧
      (∀ m ∈ mentionsOf (parse o tokens).tree.body, m.isKeywordMember = false) ∧
      WellNested tokens := by
  intro o source tokens
  have clean : (parse o tokens).errors = [] := by decide +kernel
  have plain : ∀ m ∈ mentionsOf (parse o tokens).tree.body, m.isKeywordMember = false := by
    decide +kernel
  exact ⟨clean, plain, wellNested_tokenize o false source clean plain⟩

/-- The condition on members is needed: this one closes the loop in its name. -/
example : let tokens := (tokenize false "loop\nset a.endloop = 1\nend").tokens
    (parse ⟨false, false, 5⟩ tokens).errors = [] ∧ ¬ WellNested tokens := by decide +kernel

end MapScript
