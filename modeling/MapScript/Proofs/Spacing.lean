import MapScript.Lexeme.Basic
import MapScript.Proofs.Emission

/-!
# What stands between names

Texts are written side by side, and a name must not run into what stands before it. Statements end
their line; the parts of an expression have a separator between them; and a part that has none
before it follows a sign or a member operator, which are symbols.
-/
namespace MapScript

/-- The text ends in a character that no name has. -/
def separates (text : String) : Bool := text.toList.getLast?.any (!Lexeme.isWordChar ·)

theorem separates_append {text : String} (h : separates text = true) (start : String) :
    separates (start ++ text) = true := by
  unfold separates at h ⊢
  rw [String.toList_append, List.getLast?_append]
  cases last : text.toList.getLast? with
  | none =>
      rw [last] at h
      cases h
  | some c => rwa [last] at h

/-- A name may begin after the piece, if it may begin before it. -/
def Piece.Apart (p : Piece) : Prop := p.text = "" ∨ separates p.text = true

namespace Piece
variable {p q : Piece}

theorem Apart.append (hp : p.Apart) (hq : q.Apart) : (p ++ q).Apart := by
  rcases hq with hq | hq
  · rw [Apart, text_append, hq, String.append_empty]
    exact hp
  · exact .inr (separates_append hq p.text)

theorem Apart.append_text {first second : String} (hf : (first : Piece).Apart)
    (hs : (second : Piece).Apart) : ((first ++ second : String) : Piece).Apart :=
  hf.append hs

theorem apart_append_text {text : String} (h : separates text = true) (p : Piece) :
    (p ++ (text : Piece)).Apart :=
  .inr (separates_append h p.text)

theorem apart_text {text : String} (h : separates text = true) : (text : Piece).Apart := .inr h

theorem Apart.separates (h : p.Apart) (ne : p.isEmpty = false) : separates p.text = true := by
  rcases h with h | h
  · rw [isEmpty, h] at ne
    cases ne
  · exact h

end Piece

namespace EmitContext

/-- What all contexts of a program have in common: parts are separated by more than nothing, and
statements are not arguments. -/
structure Ordinary (c : EmitContext) : Prop where
  separated : separates c.separatorText = true
  spaced : c.allowSpaces = true
  level : c.allowSemicolons = true → c.callDepth = 0

theorem ordinary_root : root.Ordinary := ⟨by decide, rfl, fun _ => rfl⟩

namespace Ordinary
variable {c : EmitContext} (h : c.Ordinary)
include h

theorem inline : c.inline.Ordinary where
  separated := by simp [EmitContext.inline, separatorText, h.spaced]; decide
  spaced := h.spaced
  level := Bool.noConfusion

theorem block : c.block.Ordinary where
  separated := by simp [EmitContext.block, separatorText, h.spaced]; decide
  spaced := h.spaced
  level _ := rfl

theorem object : c.object.Ordinary where
  separated := by simp [EmitContext.object, EmitContext.block, separatorText, h.spaced]; decide
  spaced := h.spaced
  level _ := rfl

theorem commas : (c.separated ", ").Ordinary where
  separated := (by decide : separates ", " = true)
  spaced := h.spaced
  level := Bool.noConfusion

theorem callArgs : c.callArgs.Ordinary where
  separated := (by decide : separates ", " = true)
  spaced := h.spaced
  level := Bool.noConfusion

end Ordinary

end EmitContext

namespace Emit
variable (o : EmitOptions)

theorem apart_pad (c : EmitContext) : (pad o c : Piece).Apart := by
  unfold pad
  cases c.indent * o.indentWidth with
  | zero => exact .inl rfl
  | succ k =>
      refine .inr ?_
      simp only [separates, Piece.ofText, String.toList_ofList, List.replicate_succ',
        List.getLast?_concat]
      decide

theorem separates_sign {symbol : String} (h : signOperators.any (sameWord · symbol) = true) :
    separates (outputSymbol symbol) = true := by
  obtain ⟨sign, mem, same⟩ := List.any_eq_true.mp h
  have known : ∀ sign ∈ signOperators, sign = "not" ∨
      isLetterless sign = true ∧ separates (outputSymbol sign) = true := by decide +kernel
  rcases known sign mem with rfl | ⟨letterless, ends⟩
  · have small : lowerWord symbol = "not" := by
      rw [← String.toList_inj, lowerWord, String.toList_ofList, ← eq_of_beq same]
      decide
    have negated : outputSymbol symbol = "!==" := by simp [outputSymbol, small]
    rw [negated]
    decide
  · rw [sameWord, BEq.comm] at same
    rwa [eq_of_sameWord letterless same]

theorem separates_member {symbol : String}
    (h : (sameWord symbol "." || sameWord symbol "->") = true) :
    separates (outputSymbol symbol) = true := by
  rcases (Bool.or_eq_true _ _).mp h with same | same
  · rw [eq_of_sameWord (by decide) same]
    decide +kernel
  · rw [eq_of_sameWord (by decide) same]
    decide +kernel

theorem apart_of_isTight {n : Node} {before : Option Node} {c : EmitContext}
    (h : isTight n before c = true) (after : Option Node) : (node o c before after n).Apart := by
  obtain ⟨-, kind⟩ := (Bool.and_eq_true _ _).mp h
  cases n with
  | operator symbol =>
      have ends : separates (outputSymbol symbol) = true := by
        rcases (Bool.or_eq_true _ _).mp kind with sign | member
        · exact separates_sign ((Bool.and_eq_true _ _).mp sign).1
        · exact separates_member member
      rw [node]
      unfold Node.operatorText
      split
      · exact Piece.apart_text (by decide)
      · split
        · exact .inl rfl
        · split
          · exact Piece.apart_text (by decide)
          · exact Piece.apart_text ends
  | _ => simp [Node.isSign, Node.isMemberOperator, Node.isOperator, Node.symbol?] at kind

theorem apart_nodes {c : EmitContext} (level : c.allowSemicolons = true) {ns : List Node}
    (h : ∀ n ∈ ns, ∀ before after, (node o c before after n).Apart) (before : Option Node)
    (tight : Bool) : (nodes o c before tight ns).Apart := by
  induction ns generalizing before tight with
  | nil =>
      rw [nodes]
      exact .inl rfl
  | cons n ns ih =>
      obtain ⟨first, others⟩ := List.forall_mem_cons.mp h
      have gap : gap n before tight c = "" := by simp [gap, level]
      rw [nodes, gap, Piece.empty_append]
      split <;> exact (first before _).append (ih others _ _)

variable {o}

theorem apart_varDecl (name : String) (type : Option String) (mutable : Bool)
    (value : Option Piece) (c : EmitContext) : (varDecl o name type mutable value c).Apart := by
  unfold varDecl
  refine .inr (separates_append ?_ _)
  split <;> exact separates_append (by decide) _

/-- Statements end their line. -/
theorem apart_statement {p : ParseOptions} (n : Node) (hs : n.isStatement)
    (wf : Everywhere (Node.WellFormed p) [n]) {c : EmitContext} (hc : c.Ordinary)
    (level : c.allowSemicolons = true) (before after : Option Node) :
    (node o c before after n).Apart := by
  induction n using Node.induction_children generalizing before after with
  | step n ih =>
      have ends {start : Piece} {text : String} (h : separates text = true) :
          (start ++ (text : Piece)).Apart := Piece.apart_append_text h start
      have value (p : Piece) : (valueOrStatement o p c).Apart := by
        simp only [valueOrStatement, EmitContext.atStatementLevel, level, hc.level level,
          beq_self_eq_true, Bool.and_self, if_true]
        exact ends (by decide)
      obtain ⟨⟨own, inside⟩, -⟩ := everywhere_cons.mp wf
      cases n with
      | globals body =>
          rw [node]
          refine apart_nodes o level (fun m hm => ?_) none true
          have held := (everywhere_iff _).mp inside m hm
          exact ih m hm (own m hm) (everywhere_cons.mpr ⟨held, everywhere_nil⟩)
      | call target isAsync args | doBlock isAsync body =>
          rw [node]
          exact value _
      | exprStmt parts =>
          rw [node, if_pos level]
          exact ends (by decide)
      | function name params returnType isAsync body =>
          rw [node, function]
          refine ends ?_
          split <;> decide
      | varDecl name type mutable isArray init =>
          cases init <;> rw [node] <;> exact apart_varDecl name type mutable _ c
      | assign target op value =>
          rw [node, assign]
          split <;> exact ends (by decide)
      | instruction op operands =>
          obtain ⟨-, listed, -⟩ := own
          obtain ⟨i, hi⟩ := Option.isSome_iff_exists.mp listed
          rw [node, instruction, hi]
          exact ends (by decide)
      | returnStmt value =>
          cases value <;> rw [node] <;> exact ends (by decide)
      | loop exit body =>
          cases exit <;> rw [node] <;> exact ends (by decide)
      | ifStmt _ _ _ | forStmt _ _ _ _ | exitWhen _ | struct _ _ | expect _ | comment _ | debug =>
          rw [node]
          exact ends (by decide)
      | _ => cases hs

end Emit

end MapScript
