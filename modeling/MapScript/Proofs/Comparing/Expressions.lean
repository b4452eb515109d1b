import MapScript.Proofs.Comparing.Basic

/-!
# Expressions side by side

Rule by rule, parsers that are alike read the same expression.
-/
namespace MapScript

namespace Parser
open Comparison

variable {c : Comparison} (nested nested' : PlaceReader) [∀ place, Evolving (nested place)]
variable [∀ place, Evolving (nested' place)] [hn : c.ReadersAgree nested nested']

-- The blocks of the longer rules are too deep for the usual limit on instances.
set_option synthInstance.maxSize 2000

theorem link?_copies : c.Copies (Option.map c.node) (link? nested) (link? nested') := by
  refine (agrees_eat _).andThen fun sign => agrees_ite Iff.rfl (fun _ => ?_) fun _ => ?_
  · refine agrees_current fun x y alike => agrees_ite ?_ (fun _ => ?_) fun _ => ?_
    · rw [alike.kind]
    · rw [alike.word]
      exact agrees_advance.andThen fun _ => agrees_pure rfl
    · exact (agrees_expected .name).andThen fun _ => agrees_pure rfl
  · refine (agrees_eat _).andThen fun bracket => agrees_ite Iff.rfl (fun _ => ?_) fun _ => ?_
    · refine (expression_copies nested nested' _).bind fun index => ?_
      exact (agrees_eatOr _ _).andThen fun _ => agrees_pure (by simp [Node.mapTypes])
    · exact agrees_pure rfl

theorem argumentPass_copies (stops : List Stop) (closer : Token → Bool) [Token.Test closer]
    (missing : Expectation) (args : List Node) :
    c.Copies (Pass.map c.nodes) (argumentPass nested stops closer missing args)
      (argumentPass nested' stops closer missing (c.nodes args)) := by
  refine agrees_skipLineEnds.andThen fun _ => agrees_isAborted fun aborted => ?_
  refine agrees_ite Iff.rfl (fun _ => agrees_pure rfl) fun _ => ?_
  refine (agrees_eat _).andThen fun closed => ?_
  refine agrees_ite Iff.rfl (fun _ => agrees_pure rfl) fun _ => ?_
  refine (expression_copies nested nested' _).bind fun parts => ?_
  dsimp only
  rw [← Node.map_addArgument]
  refine agrees_skipLineEnds.andThen fun _ => (agrees_eat _).andThen fun comma => ?_
  refine agrees_ite Iff.rfl (fun _ => agrees_pure rfl) fun _ => ?_
  exact (agrees_eatOr _ _).andThen fun _ => agrees_pure rfl

theorem call_copies (callee : List Node) :
    c.Copies c.node (call nested callee) (call nested' (c.nodes callee)) := by
  refine agrees_advance.andThen fun _ => ?_
  refine (copies_repeated (argumentPass_copies nested nested' _ _ _) []).bind fun args => ?_
  exact agrees_pure (by simp [Node.mapTypes])

theorem postfixPass_copies (parts : List Node) :
    c.Copies (Pass.map c.nodes) (postfixPass nested parts)
      (postfixPass nested' (c.nodes parts)) := by
  refine agrees_isAborted fun aborted => ?_
  refine agrees_ite Iff.rfl (fun _ => agrees_pure rfl) fun _ => ?_
  refine agrees_current fun x y alike => agrees_ite (by rw [alike.kind]) (fun _ => ?_) fun _ => ?_
  · rw [Node.isUncallable_map]
    refine agrees_ite Iff.rfl (fun _ => agrees_pure rfl) fun _ => ?_
    exact (call_copies nested nested' parts).bind fun node => agrees_pure rfl
  · refine (link?_copies nested nested').bindOption (fun link => ?_) (agrees_pure rfl)
    exact agrees_pure (by simp [Pass.map])

theorem operandTail_copies (base : Node) :
    c.Copies c.nodes (operandTail nested base) (operandTail nested' (c.node base)) :=
  copies_repeated (postfixPass_copies nested nested') [base]

theorem chainPass_copies (chain : List Node) :
    c.Copies (Pass.map c.nodes) (chainPass nested chain) (chainPass nested' (c.nodes chain)) := by
  refine agrees_isAborted fun aborted => ?_
  refine agrees_ite Iff.rfl (fun _ => agrees_pure rfl) fun _ => ?_
  refine (link?_copies nested nested').bindOption (fun link => ?_) (agrees_pure rfl)
  exact agrees_pure (by simp [Pass.map])

theorem reference_copies : c.Copies c.nodes (reference nested) (reference nested') := by
  refine agrees_current fun x y alike => ?_
  dsimp only
  rw [alike.word]
  refine agrees_advance.andThen fun _ => ?_
  refine (copies_repeated (chainPass_copies nested nested') []).bind fun chain => ?_
  rw [← Node.mapTypes_ofChain]
  exact operandTail_copies nested nested' _

theorem group_copies : c.Copies c.node (group nested) (group nested') := by
  refine agrees_advance.andThen fun _ => (expression_copies nested nested' _).bind fun body => ?_
  exact (agrees_eatOr _ _).andThen fun _ => agrees_pure (by simp [Node.mapTypes])

theorem array_copies : c.Copies c.node (array nested) (array nested') := by
  refine agrees_advance.andThen fun _ => ?_
  refine (copies_repeated (argumentPass_copies nested nested' _ _ _) []).bind fun items => ?_
  exact agrees_pure (by simp [Node.mapTypes])

/-- The fields that the second parser has for fields of the first. -/
abbrev fieldsCopy (c : Comparison) : List (String × List Node) → List (String × List Node) :=
  List.map fun field => (field.1, c.nodes field.2)

theorem fieldPass_copies (fields : List (String × List Node)) :
    c.Copies (Pass.map (fieldsCopy c)) (fieldPass nested fields)
      (fieldPass nested' (fieldsCopy c fields)) := by
  refine agrees_skipLineEnds.andThen fun _ => agrees_isAborted fun aborted => ?_
  refine agrees_ite Iff.rfl (fun _ => agrees_pure rfl) fun _ => ?_
  refine (agrees_eat _).andThen fun closed => ?_
  refine agrees_ite Iff.rfl (fun _ => agrees_pure rfl) fun _ => ?_
  refine agrees_current fun x y alike => agrees_ite (by rw [alike.kind]) (fun _ => ?_) fun _ => ?_
  · rw [alike.word]
    refine agrees_advance.andThen fun _ => (agrees_eatOr _ _).andThen fun _ => ?_
    refine (expression_copies nested nested' _).bind fun value => ?_
    refine agrees_skipLineEnds.andThen fun _ => (agrees_eat _).andThen fun _ => ?_
    exact agrees_pure (by simp [Pass.map])
  · exact (agrees_expected _).andThen fun _ => agrees_pure rfl

theorem object_copies : c.Copies c.node (object nested) (object nested') := by
  refine agrees_advance.andThen fun _ => ?_
  refine (copies_repeated (fieldPass_copies nested nested') []).bind fun fields => ?_
  exact agrees_pure (by simp [Node.mapTypes])

theorem await_copies : c.Copies c.nodes (await nested) (await nested') := by
  refine agrees_advance.andThen fun _ => agrees_markAsync.andThen fun _ => ?_
  refine agrees_current fun x y alike => agrees_ite (by rw [alike.kind]) (fun _ => ?_) fun _ => ?_
  · refine (reference_copies nested nested').bind fun parts => agrees_pure ?_
    exact (Node.map_awaited ..).symm
  · exact agrees_pure rfl

theorem doBlock_copies : c.Copies c.node (doBlock nested) (doBlock nested') := by
  refine agrees_current fun x y alike => agrees_advance.andThen fun _ => ?_
  refine (copies_framed (blockBody_copies nested nested' alike.span _ _)).bind fun body => ?_
  exact agrees_pure (by simp [Node.mapTypes])

theorem single_copies (n : Node) :
    c.Copies (Option.map c.nodes) (single n) (single (c.node n)) :=
  agrees_advance.andThen fun _ => agrees_pure rfl

theorem wordPart?_copies {x y : Token} (alike : x.Alike c.SpanLike y) :
    c.Copies (Option.map c.nodes) (wordPart? nested x) (wordPart? nested' y) := by
  unfold wordPart?
  rw [alike.word]
  cases ExpressionWord.ofWord? x.word with
  | none => exact agrees_pure rfl
  | some word =>
      cases word with
      | operator => exact single_copies (.operator x.word)
      | nil => exact single_copies (.literal .nil "null")
      | bool => exact single_copies (.literal .bool x.word)
      | await => exact (await_copies nested nested').bind fun parts => agrees_pure rfl
      | doBlock => exact (doBlock_copies nested nested').bind fun node => agrees_pure rfl

/-- An operand with what comes after it. -/
theorem operand_copies {p q : Parser Node} (h : c.Copies c.node p q) :
    c.Copies (Option.map c.nodes) (do let node ← p; return some (← operandTail nested node))
      (do let node ← q; return some (← operandTail nested' node)) :=
  h.bind fun node => (operandTail_copies nested nested' node).bind fun _ => agrees_pure rfl

theorem operatorPart?_copies {x y : Token} (alike : x.Alike c.SpanLike y) :
    c.Copies (Option.map c.nodes) (operatorPart? nested x) (operatorPart? nested' y) := by
  unfold operatorPart?
  rw [alike.word]
  refine agrees_ite Iff.rfl (fun _ => agrees_pure rfl) fun _ => ?_
  refine agrees_ite Iff.rfl (fun _ => ?_) fun _ => single_copies (.operator x.word)
  exact operand_copies nested nested' (array_copies nested nested')

theorem expressionPart?_copies :
    c.Copies (Option.map c.nodes) (expressionPart? nested) (expressionPart? nested') := by
  refine agrees_current fun x y alike => ?_
  rw [alike.kind, alike.word]
  cases x.kind with
  | identifier => exact (reference_copies nested nested').bind fun parts => agrees_pure rfl
  | number | string =>
      refine agrees_advance.andThen fun _ => ?_
      exact (operandTail_copies nested nested' _).bind fun parts => agrees_pure rfl
  | operator => exact operatorPart?_copies nested nested' alike
  | leftParen => exact operand_copies nested nested' (group_copies nested nested')
  | leftBrace => exact operand_copies nested nested' (object_copies nested nested')
  | keyword => exact wordPart?_copies nested nested' alike
  | _ => exact agrees_pure rfl

theorem expressionPass_copies (stops : List Stop) (reading : Reading) :
    c.Copies (Pass.map c.reading) (expressionPass nested stops reading)
      (expressionPass nested' stops (c.reading reading)) := by
  intro s t like
  have alike := c.token like
  unfold expressionPass
  rw [run_get_bind, run_get_bind, c.aborted like, alike.endsExpression]
  simp only [alike.accepts]
  split
  · exact .inl ⟨rfl, like⟩
  rename_i going
  split
  · exact .inl ⟨rfl, like⟩
  rename_i goesOn
  refine (expressionPart?_copies nested nested').orReject (expressionPart?_spares nested)
    (expressionPart?_spares nested') (by rfl) (by rfl) (by rfl) (fun _ => inferInstance)
    (fun _ => inferInstance) (fun parts => ?_) like (by simpa using going) ?_
  · exact agrees_pure (by simp [Pass.map, Comparison.reading])
  · intro ended
    simp [Token.endsExpression, ended] at goesOn

theorem readExpression_copies (stops : List Stop) :
    c.Copies c.reading (readExpression nested stops) (readExpression nested' stops) :=
  copies_repeated (expressionPass_copies nested nested' stops) ([], none)

end Parser

end MapScript
