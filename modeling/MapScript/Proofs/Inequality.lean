import MapScript.Proofs.Emission
import MapScript.Proofs.Words

/-!
# `is not` as one operator

The two words of an inequality are two operators in the tree. The first one looks ahead and writes
the whole inequality, the second one looks back and writes nothing, and what follows has the second
one for its neighbour. Together this is as if a single operator stood there: a node sees of the node
before it only whether that is an operator, and whether it is `is` or a member operator, and of the
node after it only whether that is `not`.
-/
namespace MapScript

namespace Node

/-- The list in which every `is` with `not` after it has become one inequality. -/
def joinIsNot : List Node → List Node
  | [] => []
  | [n] => [n]
  | n :: m :: ns =>
    if n.isOperator "is" && m.isOperator "not" then .operator "!==" :: joinIsNot ns
    else n :: joinIsNot (m :: ns)

theorem isOperator_congr {n : Node} {word : String} (h : n.isOperator word = true)
    (other : String) : n.isOperator other = sameWord word other := by
  unfold isOperator at h ⊢
  cases hs : n.symbol? with
  | none =>
      rw [hs] at h
      cases h
  | some symbol =>
      rw [hs] at h
      exact sameWord_congr h other

theorem isAnyOperator_of_isOperator {n : Node} {word : String} (h : n.isOperator word = true) :
    n.isAnyOperator = true := by
  unfold isOperator at h
  unfold isAnyOperator
  cases hs : n.symbol? with
  | none =>
      rw [hs] at h
      cases h
  | some symbol => rfl

/-- No node can tell which of the two stands before it. -/
structure SameBefore (a b : Option Node) : Prop where
  operator : inSignPosition a = inSignPosition b
  is : a.any (isOperator "is") = b.any (isOperator "is")
  member : a.any isMemberOperator = b.any isMemberOperator

/-- No node can tell which of the two stands after it. -/
def SameAfter (a b : Option Node) : Prop :=
  a.any (isOperator "not") = b.any (isOperator "not")

theorem SameBefore.refl (a : Option Node) : SameBefore a a := ⟨rfl, rfl, rfl⟩

/-- After an inequality the second of its words looks like the whole. -/
theorem sameBefore_not {m : Node} (h : m.isOperator "not" = true) :
    SameBefore (some m) (some (.operator "!==")) where
  operator := isAnyOperator_of_isOperator h
  is := isOperator_congr h "is"
  member := by
    change (m.isOperator "." || m.isOperator "->") = _
    rw [isOperator_congr h, isOperator_congr h]
    decide

/-- Joining does not change what the first node looks like from before. -/
theorem sameAfter_joinIsNot (ns : List Node) : SameAfter ns.head? (joinIsNot ns).head? := by
  fun_cases joinIsNot ns with
  | case1 => exact rfl
  | case2 n => exact rfl
  | case3 n m ns pair =>
      have first : n.isOperator "is" = true := (Bool.and_eq_true_iff.mp pair).1
      change n.isOperator "not" = (operator "!==").isOperator "not"
      rw [isOperator_congr first]
      decide
  | case4 n m ns pair => exact rfl

section
variable {a b : Option Node} (h : SameBefore a b)
include h

theorem isSign_congr (n : Node) : n.isSign a = n.isSign b := by
  unfold isSign
  rw [h.operator]

theorem isTrailing_congr (n : Node) : n.isTrailing a = n.isTrailing b := by
  unfold isTrailing
  rw [h.operator]

theorem operatorText_congr (symbol : String) {a' b' : Option Node} (h' : SameAfter a' b') :
    operatorText symbol a a' = operatorText symbol b b' := by
  unfold operatorText
  rw [h.operator, h.is, h']

end

end Node

namespace Emit
open Node

variable (o : EmitOptions) (c : EmitContext)

/-- What a node writes depends only on what its neighbours look like. -/
theorem node_congr {a b a' b' : Option Node} (h : SameBefore a b) (h' : SameAfter a' b')
    (n : Node) : node o c a a' n = node o c b b' n := by
  cases n with
  | operator symbol => rw [node, node, operatorText_congr h symbol h']
  | call callee isAsync args =>
      have helper : calledHelper? callee a = calledHelper? callee b := by
        unfold calledHelper?
        rw [h.member]
      rw [node, node, helper]
  | varDecl name type mutable isArray init => cases init <;> rw [node, node]
  | returnStmt value => cases value <;> rw [node, node]
  | loop exit body => cases exit <;> rw [node, node]
  | object fields => cases fields <;> rw [node, node]
  | literal kind value => cases kind <;> simp only [node]
  | _ => rw [node, node]

/-- A node and those after it, of which each may be followed by others than before. -/
theorem nodes_cons_congr {a b : Option Node} (h : SameBefore a b) (tight : Bool) (n : Node)
    {ns ms : List Node} (h' : SameAfter ns.head? ms.head?)
    (rest : ∀ tight, nodes o c (some n) tight ns = nodes o c (some n) tight ms) :
    nodes o c a tight (n :: ns) = nodes o c b tight (n :: ms) := by
  have gap : gap n a tight c = gap n b tight c := by
    unfold Emit.gap
    rw [isTrailing_congr h]
  have after : isTight n a c = isTight n b c := by
    unfold isTight
    rw [isSign_congr h]
  rw [nodes, nodes, node_congr o c h h', gap, after, rest, rest]

/-- The operators that are written without a blank on one side or the other. -/
def tightOperators : List String := ["++", "--", ".", "->"] ++ signOperators

section
variable {n : Node} {word : String} (h : n.isOperator word = true)
  (loose : ∀ other ∈ tightOperators, sameWord word other = false)
include h loose

theorem isOperator_of_loose {other : String} (ht : other ∈ tightOperators) :
    n.isOperator other = false := by
  rw [isOperator_congr h]
  exact loose other ht

theorem isMemberOperator_of_loose : n.isMemberOperator = false := by
  unfold isMemberOperator
  rw [isOperator_of_loose h loose (by decide), isOperator_of_loose h loose (by decide)]
  rfl

theorem gap_of_loose (before : Option Node) (tight : Bool) :
    gap n before tight c = if c.allowSemicolons || tight then "" else c.separatorText := by
  have trailing : n.isTrailing before = false := by
    unfold isTrailing
    rw [isOperator_of_loose h loose (by decide), isOperator_of_loose h loose (by decide)]
    rfl
  have access : n.isMemberAccess = false := by
    unfold isMemberAccess
    rw [isMemberOperator_of_loose h loose]
    cases n with
    | property name => cases h
    | index parts => cases h
    | _ => rfl
  unfold gap
  rw [trailing, access, Bool.or_false, Bool.or_false]

theorem isTight_of_loose (before : Option Node) : isTight n before c = false := by
  have sign : n.isSign before = false := by
    unfold isSign
    rw [Bool.and_eq_false_iff]
    left
    cases hs : n.symbol? with
    | none => rfl
    | some symbol =>
        rw [Option.any_some, List.any_eq_false]
        intro other ho
        have different := isOperator_of_loose h loose (List.mem_append_right _ ho)
        unfold isOperator at different
        rw [hs, Option.any_some, sameWord_comm] at different
        simp [different]
  unfold isTight
  rw [sign, isMemberOperator_of_loose h loose]
  simp

end

theorem node_inequality (before after : Option Node) :
    node o c before after (.operator "!==") = "!==" := by
  have is : sameWord "!==" "is" = false := by decide
  have not : sameWord "!==" "not" = false := by decide
  have symbol : outputSymbol "!==" = "!==" := by decide
  rw [node, operatorText, is, not, symbol]
  rfl

/-- An inequality and what comes after it. -/
theorem nodes_inequality (before : Option Node) (tight : Bool) (ns : List Node) :
    nodes o c before tight (.operator "!==" :: ns) =
      ((if c.allowSemicolons || tight then "" else c.separatorText : String) : Piece) ++
        ("!==" : String) ++ nodes o c (some (.operator "!==")) false ns := by
  have itself : (operator "!==").isOperator "!==" = true := by decide
  have loose : ∀ other ∈ tightOperators, sameWord "!==" other = false := by decide
  rw [nodes, node_inequality, gap_of_loose c itself loose, isTight_of_loose c itself loose]
  rfl

/-- The two words of an inequality and what comes after them. -/
theorem nodes_isNot {n m : Node} (first : n.isOperator "is" = true)
    (second : m.isOperator "not" = true) (before : Option Node) (tight : Bool) (ns : List Node) :
    nodes o c before tight (n :: m :: ns) =
      ((if c.allowSemicolons || tight then "" else c.separatorText : String) : Piece) ++
        ("!==" : String) ++ nodes o c (some m) false ns := by
  have loose : ∀ other ∈ tightOperators, sameWord "is" other = false := by decide
  have whole : node o c before (some m) n = "!==" := by
    cases n with
    | operator symbol =>
        have word : sameWord symbol "is" = true := first
        rw [node, operatorText, word, Option.any_some, second]
        rfl
    | _ => cases first
  have nothing : node o c (some n) ns.head? m = "" := by
    cases m with
    | operator symbol =>
        have word : sameWord symbol "not" = true := second
        have other : sameWord symbol "is" = false := sameWord_congr word "is"
        rw [node, operatorText, word, other, Option.any_some, first]
        rfl
    | _ => cases second
  have skipped : nodes o c (some n) false (m :: ns) = nodes o c (some m) false ns := by
    rw [nodes, nothing]
    exact Piece.empty_append _
  rw [nodes, List.head?_cons, whole, gap_of_loose c first loose, isTight_of_loose c first loose,
    skipped]
  rfl

/-- Joining the words of inequalities does not change what is written. -/
theorem nodes_joined {a b : Option Node} (h : SameBefore a b) (tight : Bool) (ns : List Node) :
    nodes o c a tight ns = nodes o c b tight (joinIsNot ns) := by
  fun_induction joinIsNot ns generalizing a b tight with
  | case1 => rw [nodes, nodes]
  | case2 n => exact nodes_cons_congr o c h tight n rfl fun _ => rfl
  | case3 n m ns pair ih =>
      obtain ⟨first, second⟩ := Bool.and_eq_true_iff.mp pair
      rw [nodes_isNot o c first second, nodes_inequality, ih (sameBefore_not second)]
  | case4 n m ns pair ih =>
      exact nodes_cons_congr o c h tight n (sameAfter_joinIsNot _) (ih (SameBefore.refl _))

end Emit

namespace Node

theorem joinIsNot_pair {n m : Node} (first : n.isOperator "is" = true)
    (second : m.isOperator "not" = true) (ns : List Node) :
    joinIsNot (n :: m :: ns) = .operator "!==" :: joinIsNot ns := by
  rw [joinIsNot, first, second]
  rfl

theorem joinIsNot_cons {n : Node} {ns : List Node}
    (h : n.isOperator "is" = true → ns.head?.any (isOperator "not") = false) :
    joinIsNot (n :: ns) = n :: joinIsNot ns := by
  cases ns with
  | nil => rfl
  | cons m ns =>
      rw [joinIsNot, if_neg]
      intro pair
      obtain ⟨first, second⟩ := Bool.and_eq_true_iff.mp pair
      have other : m.isOperator "not" = false := h first
      rw [second] at other
      cases other

/-- Nothing is left to join. -/
theorem isChain_joinIsNot (ns : List Node) :
    (joinIsNot ns).IsChain fun n m => ¬ (n.isOperator "is" = true ∧ m.isOperator "not" = true) := by
  fun_induction joinIsNot ns with
  | case1 => exact .nil
  | case2 n => exact .singleton n
  | case3 n m ns pair ih =>
      rw [List.isChain_cons]
      refine ⟨fun next _ both => ?_, ih⟩
      cases both.1
  | case4 n m ns pair ih =>
      rw [List.isChain_cons]
      refine ⟨fun next hnext both => pair ?_, ih⟩
      -- the next node is `not` only if it was `not` before
      have same : m.isOperator "not" = (joinIsNot (m :: ns)).head?.any (isOperator "not") :=
        sameAfter_joinIsNot (m :: ns)
      rw [Option.mem_def.mp hnext, Option.any_some, both.2] at same
      rw [both.1, same]
      rfl

/-- To join one pair first makes no difference. -/
theorem joinIsNot_append_pair {n m : Node} (first : n.isOperator "is" = true)
    (second : m.isOperator "not" = true) (left right : List Node) :
    joinIsNot (left ++ n :: m :: right) = joinIsNot (left ++ .operator "!==" :: right) := by
  have here : joinIsNot (n :: m :: right) = joinIsNot (.operator "!==" :: right) := by
    have different : (operator "!==").isOperator "is" = true → right.head?.any (isOperator "not") =
        false := fun is => by cases is
    rw [joinIsNot_pair first second, joinIsNot_cons different]
  fun_induction joinIsNot left with
  | case1 => exact here
  | case2 a =>
      -- neither `is` nor the inequality is a `not` for the node before
      have next : (n :: m :: right).head?.any (isOperator "not") = false :=
        isOperator_congr first "not"
      calc joinIsNot (a :: n :: m :: right)
          = a :: joinIsNot (n :: m :: right) := joinIsNot_cons fun _ => next
        _ = a :: joinIsNot (.operator "!==" :: right) := by rw [here]
        _ = joinIsNot (a :: .operator "!==" :: right) := (joinIsNot_cons fun _ => rfl).symm
  | case3 a b left pair ih =>
      obtain ⟨ha, hb⟩ := Bool.and_eq_true_iff.mp pair
      simp only [List.cons_append, joinIsNot_pair ha hb, ih]
  | case4 a b left pair ih =>
      have apart (ns : List Node) : a.isOperator "is" = true →
          (b :: ns).head?.any (isOperator "not") = false := by
        intro ha
        rw [ha, Bool.true_and] at pair
        exact Bool.not_eq_true _ ▸ pair
      simp only [List.cons_append, joinIsNot_cons (apart _)] at ih ⊢
      rw [ih]

end Node

open Node in
/-- Siblings are written as the list in which every `is not` is one inequality: the same text, which
relies on the same helpers, instructions and registers. A single pair may also be replaced alone,
whatever stands before and after it, and between all neighbours the inequality is itself. -/
theorem nodes_joinIsNot (o : EmitOptions) (c : EmitContext) (ns : List Node) :
    Emit.nodes o c none true ns = Emit.nodes o c none true (joinIsNot ns) ∧
    (joinIsNot ns).IsChain (fun n m => ¬ (n.isOperator "is" = true ∧ m.isOperator "not" = true)) ∧
    (∀ left right n m, n.isOperator "is" = true → m.isOperator "not" = true →
      ns = left ++ n :: m :: right →
      Emit.nodes o c none true ns = Emit.nodes o c none true (left ++ .operator "!==" :: right)) ∧
    ∀ before after, Emit.node o c before after (.operator "!==") = "!==" := by
  have joined (ns : List Node) :
      Emit.nodes o c none true ns = Emit.nodes o c none true (joinIsNot ns) :=
    Emit.nodes_joined o c (SameBefore.refl none) true ns
  refine ⟨joined ns, isChain_joinIsNot ns, ?_, Emit.node_inequality o c⟩
  rintro left right n m first second rfl
  rw [joined, joinIsNot_append_pair first second, ← joined]

/-- A second `not` after the pair is a negation. -/
theorem nodes_joinIsNot_twice :
    Emit.nodes default EmitContext.root.inline none true
      [.identifier "x", .operator "Is", .operator "NOT", .operator "not", .identifier "y"] =
    Emit.nodes default EmitContext.root.inline none true
      [.identifier "x", .operator "!==", .operator "not", .identifier "y"] :=
  (nodes_joinIsNot _ _ _).2.2.1 [.identifier "x"] [.operator "not", .identifier "y"]
    (.operator "Is") (.operator "NOT") (by decide) (by decide) rfl

example : Emit.nodes default EmitContext.root.inline none true
    [.identifier "x", .operator "is", .operator "not", .operator "not", .identifier "y"] =
      "x !== !y" := by
  rfl

end MapScript
