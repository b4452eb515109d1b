import MapScript.Emit.Program
import MapScript.Proofs.Shape

/-!
# The text of statements

A statement is written without regard to its neighbours, so that the text of a list of statements
is what the statements write, one after the other.
-/
namespace MapScript

namespace Piece

theorem append_def (p q : Piece) : p ++ q = ⟨p.text ++ q.text, p.uses ++ q.uses⟩ := rfl

@[simp] theorem text_append (p q : Piece) : (p ++ q).text = p.text ++ q.text := rfl

@[simp] theorem uses_append (p q : Piece) : (p ++ q).uses = p.uses ++ q.uses := rfl

@[simp] theorem empty_append (p : Piece) : ("" : Piece) ++ p = p := by
  simp [append_def, ofText]

theorem append_assoc (p q r : Piece) : p ++ q ++ r = p ++ (q ++ r) := by
  simp [append_def, String.append_assoc]

theorem text_joined (separator : String) (ps : List Piece) :
    (joined separator ps).text = String.intercalate separator (ps.map (·.text)) := by
  induction ps with
  | nil => rfl
  | cons p ps ih =>
      cases ps with
      | nil => simp [joined]
      | cons q ps =>
          rw [List.map_cons, List.map_cons, String.intercalate_cons_cons, ← List.map_cons, ← ih]
          rfl

end Piece

namespace Emit
variable (o : EmitOptions)

/-- Only operators and calls look at their neighbours, and a call only for a member operator. -/
theorem node_eq {n : Node} (hn : n.symbol? = none) (c : EmitContext) {before : Option Node}
    (hb : before.any Node.isMemberOperator = false) (after : Option Node) :
    node o c before after n = node o c none none n := by
  cases n with
  | operator symbol => cases hn
  | call callee isAsync args =>
      have helper : calledHelper? callee before = calledHelper? callee none := by
        unfold calledHelper?
        rw [hb]
        rfl
      rw [node, node, helper]
  | varDecl name type mutable isArray init => cases init <;> rw [node, node]
  | returnStmt value => cases value <;> rw [node, node]
  | loop exit body => cases exit <;> rw [node, node]
  | object fields => cases fields <;> rw [node, node]
  | literal kind value => cases kind <;> simp only [node]
  | _ => rw [node, node]

/-- What statements write, one after the other. -/
def statements (c : EmitContext) : List Node → Piece
  | [] => ""
  | n :: ns => node o c none none n ++ statements c ns

theorem statements_append (c : EmitContext) (first second : List Node) :
    statements o c (first ++ second) = statements o c first ++ statements o c second := by
  induction first with
  | nil => exact (Piece.empty_append _).symm
  | cons n first ih => rw [List.cons_append, statements, statements, ih, Piece.append_assoc]

theorem symbol?_of_isStatement {n : Node} (h : n.isStatement) : n.symbol? = none := by
  cases n with
  | operator symbol => cases h
  | _ => rfl

theorem isMemberOperator_of_symbol? {n : Node} (h : n.symbol? = none) :
    n.isMemberOperator = false := by
  simp [Node.isMemberOperator, Node.isOperator, h]

/-- Between statements nothing is written, and they do not look at each other. -/
theorem nodes_eq_statements {c : EmitContext} (hc : c.allowSemicolons = true) {ns : List Node}
    (hs : StatementList ns) {before : Option Node}
    (hb : before.any Node.isMemberOperator = false) (tight : Bool) :
    nodes o c before tight ns = statements o c ns := by
  induction ns generalizing before tight with
  | nil => rw [nodes, statements]
  | cons n ns ih =>
      have hn := symbol?_of_isStatement (hs n (by simp))
      have plain : (some n).any Node.isMemberOperator = false := isMemberOperator_of_symbol? hn
      have rest (tight : Bool) : nodes o c (some n) tight ns = statements o c ns :=
        ih (fun m hm => hs m (by simp [hm])) plain tight
      have gap : gap n before tight c = "" := by simp [gap, hc]
      rw [nodes, rest, rest, gap, Piece.empty_append, ite_self, node_eq o hn c hb, statements]

end Emit

end MapScript
