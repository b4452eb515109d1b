import MapScript.Proofs.Spelling.Basic
import Mathlib.Logic.Relation

/-!
# The blocks that tokens leave open

Tokens are read from left to right, with a stack of the keywords whose blocks are open. The keyword
of a block is put on the stack, the closer of a block takes its keyword off, and `else` and `elseif`
take the place of the keyword of the branch before them. All other tokens leave the stack as it is.

Two things are needed besides the tokens, and the errors of a parser tell them. A token that was
reported as unexpected counts for nothing. And a keyword may be the name of a member: then it stands
behind a dot or an arrow, or before a colon or where a colon is missing. In such a place a keyword
can be read in two ways. Where there is none, the keywords that are left on the stack are a function
of the tokens.
-/
namespace MapScript

namespace Token

/-- The block that stands open behind a keyword. -/
def block? (t : Token) : Option BlockWord :=
  match t.fence? with
  | some (.opens (.block word)) => some word
  | some .otherwise => some .ifStmt
  | some .otherwiseIf => some .ifStmt
  | _ => none

/-- Another branch can follow the one behind this keyword. -/
def isBranch (t : Token) : Bool :=
  t.fence? = some (.opens (.block .ifStmt)) || t.fence? = some .otherwiseIf

/-- The keywords of the open blocks behind the token, the innermost first, or nothing when the token
does not fit them. -/
def onBlocks? (t : Token) (stack : List Token) : Option (List Token) :=
  match t.fence? with
  | some (.opens (.block _)) => some (t :: stack)
  | some (.closes (.block word)) =>
    (stack.head?.filter (·.block? = some word)).map fun _ => stack.tail
  | some .ends => stack.head?.map fun _ => stack.tail
  | some .otherwise => (stack.head?.filter isBranch).map fun _ => t :: stack.tail
  | some .otherwiseIf => (stack.head?.filter isBranch).map fun _ => t :: stack.tail
  | _ => some stack

end Token

/-- The keywords that are open behind the tokens, when all of them fit. -/
def openBlocks? (stack : List Token) (ts : List Token) : Option (List Token) :=
  ts.foldlM (fun stack t => t.onBlocks? stack) stack

/-- What is known while tokens are read. -/
structure Blocks where
  /-- The keywords of the open blocks, the innermost first. -/
  stack : List Token
  /-- The tokens that are still to be read. -/
  ahead : List Token
  /-- Those among them that count for nothing. -/
  skipped : List Token

/-- The name of a member can stand before these tokens. -/
def BeforeValue (errors : List ParseError) (ahead : List Token) : Prop :=
  ∀ sign ∈ ahead.head?, sign.IsFieldSign ∨ ParseError.expected .colon sign ∈ errors

/-- How one token is read, or a dot with the name behind it. -/
inductive Blocks.Step (errors : List ParseError) : Blocks → Blocks → Prop
  | word {t : Token} {stack stack' ahead skipped : List Token} : t.onBlocks? stack = some stack' →
      Step errors ⟨stack, t :: ahead, skipped⟩ ⟨stack', ahead, skipped⟩
  | skip {t : Token} {stack ahead skipped : List Token} :
      Step errors ⟨stack, t :: ahead, t :: skipped⟩ ⟨stack, ahead, skipped⟩
  | property {sign t : Token} {stack ahead skipped : List Token} : sign.IsMemberSign →
      t.kind.isFieldName →
      Step errors ⟨stack, sign :: t :: ahead, skipped⟩ ⟨stack, ahead, skipped⟩
  | key {t : Token} {stack ahead skipped : List Token} : t.kind.isFieldName →
      BeforeValue errors ahead →
      Step errors ⟨stack, t :: ahead, skipped⟩ ⟨stack, ahead, skipped⟩

/-- Any number of tokens are read. -/
abbrev Blocks.Reads (errors : List ParseError) : Blocks → Blocks → Prop :=
  Relation.ReflTransGen (Step errors)

/-- No keyword of a block stands where it could be the name of a member. -/
def PlainMembers (errors : List ParseError) (ts : List Token) : Prop :=
  ts.IsChain fun x y =>
    x.KeepsApart y ∧ (ParseError.expected .colon y ∈ errors → x.isBlockWord = false)

instance (errors : List ParseError) : DecidablePred (PlainMembers errors) :=
  fun ts => inferInstanceAs (Decidable (ts.IsChain _))

namespace Token
variable {t : Token}

theorem isBlockWord_of_fence? (h : t.fence? = none) : t.isBlockWord = false := by
  rw [isBlockWord, h]
  exact Bool.and_false _

theorem isBlockWord_of_kind (h : t.kind ≠ .keyword) : t.isBlockWord = false := by
  simp [isBlockWord, h]

/-- Only keywords open and close blocks. -/
theorem onBlocks?_of_not_isBlockWord (h : t.isBlockWord = false) (stack : List Token) :
    t.onBlocks? stack = some stack := by
  unfold onBlocks?
  by_cases kind : t.kind = .keyword
  · have unfenced : t.fence? = none := by simpa [isBlockWord, kind] using h
    rw [unfenced]
  · split <;> rename_i fence <;> unfold fence? at fence <;> split at fence <;> grind

theorem onBlocks?_opens {word : BlockWord} (h : t.fence? = some (.opens (.block word)))
    (stack : List Token) : t.onBlocks? stack = some (t :: stack) := by
  rw [onBlocks?, h]

theorem ClosesBlock.onBlocks? {word : BlockWord} (h : t.ClosesBlock word) {keyword : Token}
    (opened : keyword.block? = some word) (stack : List Token) :
    t.onBlocks? (keyword :: stack) = some stack := by
  rcases h with h | h <;> simp [Token.onBlocks?, h, opened]

/-- `else` and `elseif` take the place of the keyword before them. -/
theorem onBlocks?_branch (h : t.fence? = some .otherwise ∨ t.fence? = some .otherwiseIf)
    {keyword : Token} (branch : keyword.isBranch = true) (stack : List Token) :
    t.onBlocks? (keyword :: stack) = some (t :: stack) := by
  rcases h with h | h <;> simp [onBlocks?, h, branch]

/-- Whatever stays or comes on the stack was there or is the token. -/
theorem sublist_of_onBlocks? {stack stack' : List Token} (h : t.onBlocks? stack = some stack') :
    stack'.Sublist (t :: stack) := by
  have below : stack.tail.Sublist stack := List.tail_sublist stack
  unfold onBlocks? at h
  split at h <;> simp only [Option.map_eq_some_iff, Option.some.injEq] at h
  · exact h ▸ .refl _
  · obtain ⟨_, _, rfl⟩ := h
    exact below.cons t
  · obtain ⟨_, _, rfl⟩ := h
    exact below.cons t
  · obtain ⟨_, _, rfl⟩ := h
    exact below.cons_cons t
  · obtain ⟨_, _, rfl⟩ := h
    exact below.cons_cons t
  · exact h ▸ List.sublist_cons_self t stack

/-- Only keywords behind which a block is open come on the stack. -/
theorem block?_of_onBlocks? {stack stack' : List Token} (h : t.onBlocks? stack = some stack')
    {keyword : Token} (hk : keyword ∈ stack') : keyword ∈ stack ∨ keyword.block?.isSome = true := by
  unfold onBlocks? at h
  split at h <;> simp only [Option.map_eq_some_iff, Option.some.injEq] at h
  case h_1 fence =>
      subst h
      rcases List.mem_cons.mp hk with rfl | hk
      · exact .inr (by rw [block?, fence]; rfl)
      · exact .inl hk
  case h_2 | h_3 =>
      obtain ⟨_, _, rfl⟩ := h
      exact .inl (List.mem_of_mem_tail hk)
  case h_4 fence | h_5 fence =>
      obtain ⟨_, _, rfl⟩ := h
      rcases List.mem_cons.mp hk with rfl | hk
      · exact .inr (by rw [block?, fence]; rfl)
      · exact .inl (List.mem_of_mem_tail hk)
  case h_6 => exact .inl (h ▸ hk)

end Token

namespace Blocks
variable {errors : List ParseError} {b c : Blocks}

theorem Step.length_lt (h : Step errors b c) : c.ahead.length < b.ahead.length := by
  cases h <;> simp only [List.length_cons] <;> omega

theorem Reads.length_le (h : Reads errors b c) : c.ahead.length ≤ b.ahead.length := by
  induction h with
  | refl => exact Nat.le_refl _
  | tail _ step ih => exact Nat.le_trans (Nat.le_of_lt step.length_lt) ih

/-- Where no token is read, nothing happens. -/
theorem Reads.eq_of_ahead (h : Reads errors b c) (same : c.ahead = b.ahead) : c = b := by
  rcases h.cases_head with rfl | ⟨next, step, rest⟩
  · rfl
  · have first := step.length_lt
    have later := Reads.length_le rest
    rw [same] at later
    omega

/-- The stack is made of keywords that were on it or that were read. -/
theorem Step.sublist (h : Step errors b c) :
    (c.stack.reverse ++ c.ahead).Sublist (b.stack.reverse ++ b.ahead) := by
  cases h with
  | @word t stack stack' ahead _ act =>
      have kept := (Token.sublist_of_onBlocks? act).reverse.append_right ahead
      simpa using kept
  | @skip t stack ahead | @key t stack ahead =>
      exact (List.sublist_cons_self t ahead).append_left _
  | @property sign t stack ahead =>
      exact ((List.sublist_cons_self t ahead).cons sign).append_left _

theorem Reads.sublist (h : Reads errors b c) :
    (c.stack.reverse ++ c.ahead).Sublist (b.stack.reverse ++ b.ahead) := by
  induction h with
  | refl => exact .refl _
  | tail _ step ih => exact step.sublist.trans ih

theorem Reads.mem {ts ahead left skipped skipped' : List Token}
    (h : Reads errors ⟨[], ts, skipped⟩ ⟨left, ahead, skipped'⟩) {keyword : Token}
    (hk : keyword ∈ left) : keyword ∈ ts := by
  have kept : (left.reverse ++ ahead).Sublist ts := h.sublist
  exact kept.subset (List.mem_append_left _ (List.mem_reverse.mpr hk))

theorem Reads.block? (h : Reads errors b c)
    (before : ∀ keyword ∈ b.stack, keyword.block?.isSome = true) :
    ∀ keyword ∈ c.stack, keyword.block?.isSome = true := by
  induction h with
  | refl => exact before
  | tail _ step ih =>
      intro keyword hk
      cases step with
      | word act =>
          rcases Token.block?_of_onBlocks? act hk with known | opens
          · exact ih keyword known
          · exact opens
      | skip | property | key => exact ih keyword hk

/-- The tokens that count for nothing are among those ahead, and each of them is passed. -/
theorem Reads.skipped_subset (h : Reads errors b c) (all : c.skipped = []) :
    b.skipped ⊆ b.ahead := by
  induction h using Relation.ReflTransGen.head_induction_on with
  | refl =>
      rw [all]
      exact List.nil_subset _
  | head step _ ih =>
      cases step with
      | word | key => exact List.subset_cons_of_subset _ ih
      | skip => exact List.cons_subset_cons _ ih
      | property => exact List.subset_cons_of_subset _ (List.subset_cons_of_subset _ ih)

/-- A token that counts does to the stack what it does. -/
theorem openBlocks?_filter_cons {t : Token} {stack stack' ahead skipped : List Token}
    (act : t.onBlocks? stack = some stack') (kept : t ∉ skipped) :
    openBlocks? stack ((t :: ahead).filter (· ∉ skipped)) =
      openBlocks? stack' (ahead.filter (· ∉ skipped)) := by
  unfold openBlocks?
  rw [List.filter_cons_of_pos (by simpa using kept), List.foldlM_cons, act]
  rfl

/-- The keywords that are left on the stack can be computed when no keyword of a block may be the
name of a member. -/
theorem Reads.openBlocks? {e : Token} (ended : e.isBlockWord = false) (h : Reads errors b c)
    (last : c.ahead = [e]) (all : c.skipped = []) (once : b.ahead.Nodup)
    (plain : PlainMembers errors b.ahead) :
    openBlocks? b.stack (b.ahead.filter (· ∉ b.skipped)) = some c.stack := by
  induction h using Relation.ReflTransGen.head_induction_on with
  | refl =>
      simp [MapScript.openBlocks?, last, all, Token.onBlocks?_of_not_isBlockWord ended]
  | head step rest ih =>
      have passed := Reads.skipped_subset rest all
      have more := Reads.length_le rest
      cases step with
      | @word t stack stack' ahead skipped act =>
          obtain ⟨fresh, once⟩ := List.nodup_cons.mp once
          have kept : t ∉ skipped := fun ht => fresh (passed ht)
          exact (openBlocks?_filter_cons act kept).trans (ih once plain.tail)
      | @skip t stack ahead skipped =>
          obtain ⟨fresh, once⟩ := List.nodup_cons.mp once
          have others : ahead.filter (· ∉ t :: skipped) = ahead.filter (· ∉ skipped) := by
            apply List.filter_congr
            intro x hx
            have other : x ≠ t := fun same => fresh (same ▸ hx)
            simp [other]
          rw [List.filter_cons_of_neg (by simp), others]
          exact ih once plain.tail
      | @property sign t stack ahead skipped dot _ =>
          obtain ⟨fresh, once⟩ := List.nodup_cons.mp once
          obtain ⟨fresh', once⟩ := List.nodup_cons.mp once
          have kept : sign ∉ skipped := fun hs => fresh (List.mem_cons_of_mem t (passed hs))
          have kept' : t ∉ skipped := fun ht => fresh' (passed ht)
          obtain ⟨member, plain⟩ := List.isChain_cons_cons.mp plain
          have silent := Token.isBlockWord_of_fence? dot.isSilent.2
          have first := Token.onBlocks?_of_not_isBlockWord silent stack
          have second := Token.onBlocks?_of_not_isBlockWord
            (member.1.1 (Bool.or_eq_true_iff.mpr dot)) stack
          exact (openBlocks?_filter_cons first kept).trans
            ((openBlocks?_filter_cons second kept').trans (ih once plain.tail))
      | @key t stack ahead skipped _ colon =>
          obtain ⟨fresh, once⟩ := List.nodup_cons.mp once
          have kept : t ∉ skipped := fun ht => fresh (passed ht)
          -- a token is still ahead, so that something stands behind the name
          cases ahead with
          | nil => simp [last] at more
          | cons sign later =>
              obtain ⟨member, -⟩ := List.isChain_cons_cons.mp plain
              have quiet : t.isBlockWord = false := by
                rcases colon sign rfl with found | missed
                · exact member.1.2 (Bool.or_eq_true_iff.mpr found)
                · exact member.2 missed
              exact (openBlocks?_filter_cons (Token.onBlocks?_of_not_isBlockWord quiet stack)
                kept).trans (ih once plain.tail)

end Blocks

end MapScript
