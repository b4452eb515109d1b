import MapScript.Tree.Node

/-!
# Nodes inside nodes

What a tree holds at any depth is found through one function, the nodes that a node holds itself.
A property of all nodes of a tree is then proved from the list down: it holds of a list if it
holds of each node there and of the nodes which that node holds.
-/
namespace MapScript

namespace Node

/-- The nodes that a node holds itself, from left to right. -/
def children : Node → List Node
  | .globals body => body
  | .varDecl _ _ _ _ init => init
  | .assign target _ value => target ++ value
  | .function _ _ _ _ body => body
  | .doBlock _ body => body
  | .returnStmt value => value
  | .ifStmt test body otherwise => test ++ body ++ otherwise.getD []
  | .call callee _ args => callee ++ args
  | .member _ chain => chain
  | .index parts => parts
  | .forStmt _ first last body => first ++ last ++ body
  | .loop exit body => exit.getD [] ++ body
  | .exitWhen condition => condition
  | .struct _ body => body
  | .expect condition => condition
  | .exprStmt parts => parts
  | .expr parts => parts
  | .group body => body
  | .array items => items
  | .object fields => fields.flatMap (·.2)
  | .instruction _ operands => operands
  | .property _ | .literal _ _ | .identifier _ | .operator _ | .comment _ | .debug => []

theorem sizeOf_lt_of_mem_children {m n : Node} (h : m ∈ n.children) : sizeOf m < sizeOf n := by
  have mem {nodes : List Node} (hm : m ∈ nodes) : sizeOf m < sizeOf nodes :=
    List.sizeOf_lt_of_mem hm
  have held {nodes : Option (List Node)} (hm : m ∈ nodes.getD []) : sizeOf m < sizeOf nodes := by
    cases nodes with
    | none => cases hm
    | some nodes =>
        rw [Option.getD_some] at hm
        have hs := mem hm
        simp only [Option.some.sizeOf_spec]
        omega
  cases n with
  | assign _ _ _ | call _ _ _ =>
      simp only [children, List.mem_append] at h
      rcases h with h | h <;> have hs := mem h <;> simp only [assign.sizeOf_spec, call.sizeOf_spec]
        <;> omega
  | ifStmt _ _ _ =>
      simp only [children, List.mem_append] at h
      simp only [ifStmt.sizeOf_spec]
      rcases h with (h | h) | h
      · have hs := mem h
        omega
      · have hs := mem h
        omega
      · have hs := held h
        omega
  | forStmt _ _ _ _ =>
      simp only [children, List.mem_append] at h
      simp only [forStmt.sizeOf_spec]
      rcases h with (h | h) | h <;> have hs := mem h <;> omega
  | loop _ _ =>
      simp only [children, List.mem_append] at h
      simp only [loop.sizeOf_spec]
      rcases h with h | h
      · have hs := held h
        omega
      · have hs := mem h
        omega
  | object fields =>
      simp only [children, List.mem_flatMap] at h
      obtain ⟨⟨key, value⟩, hf, hm⟩ := h
      have hs : sizeOf m < sizeOf value := mem hm
      have hp := List.sizeOf_lt_of_mem hf
      simp only [Prod.mk.sizeOf_spec] at hp
      simp only [object.sizeOf_spec]
      omega
  | property _ | literal _ _ | identifier _ | operator _ | comment _ | debug => cases h
  | _ =>
      simp only [children] at h
      have hs := mem h
      simp only [globals.sizeOf_spec, varDecl.sizeOf_spec, function.sizeOf_spec,
        doBlock.sizeOf_spec, returnStmt.sizeOf_spec, member.sizeOf_spec, index.sizeOf_spec,
        exitWhen.sizeOf_spec, struct.sizeOf_spec, expect.sizeOf_spec, exprStmt.sizeOf_spec,
        expr.sizeOf_spec, group.sizeOf_spec, array.sizeOf_spec, instruction.sizeOf_spec]
      omega

/-- What holds of a node if it holds of the nodes inside holds of all nodes. -/
theorem induction_children {P : Node → Prop} (step : ∀ n, (∀ m ∈ n.children, P m) → P n)
    (n : Node) : P n := by
  induction hn : sizeOf n using Nat.strongRecOn generalizing n with
  | ind k ih =>
      subst hn
      exact step n fun m hm => ih _ (sizeOf_lt_of_mem_children hm) m rfl

end Node

/-- The node `n` is one of the nodes or stands inside one of them, at any depth. -/
inductive Occurs (n : Node) : List Node → Prop
  | here {nodes : List Node} : n ∈ nodes → Occurs n nodes
  | inside {m : Node} {nodes : List Node} : m ∈ nodes → Occurs n m.children → Occurs n nodes

/-- `P` holds of every node at any depth. -/
def Everywhere (P : Node → Prop) (nodes : List Node) : Prop :=
  ∀ n, Occurs n nodes → P n

section
variable {P : Node → Prop} {n : Node} {nodes others : List Node}

theorem Occurs.mono (h : Occurs n nodes) (sub : ∀ m ∈ nodes, m ∈ others) : Occurs n others := by
  cases h with
  | here hn => exact .here (sub n hn)
  | inside hm hn => exact .inside (sub _ hm) hn

theorem everywhere_iff (nodes : List Node) :
    Everywhere P nodes ↔ ∀ n ∈ nodes, P n ∧ Everywhere P n.children := by
  constructor
  · intro h n hn
    exact ⟨h n (.here hn), fun m hm => h m (.inside hn hm)⟩
  · intro h n hn
    cases hn with
    | here hn => exact (h n hn).1
    | inside hm hn => exact (h _ hm).2 n hn

@[simp] theorem everywhere_nil : Everywhere P [] := by
  rw [everywhere_iff]
  intro n hn
  cases hn

@[simp] theorem everywhere_cons :
    Everywhere P (n :: nodes) ↔ (P n ∧ Everywhere P n.children) ∧ Everywhere P nodes := by
  rw [everywhere_iff, everywhere_iff nodes, List.forall_mem_cons]

@[simp] theorem everywhere_append :
    Everywhere P (nodes ++ others) ↔ Everywhere P nodes ∧ Everywhere P others := by
  rw [everywhere_iff, everywhere_iff nodes, everywhere_iff others]
  exact List.forall_mem_append

theorem everywhere_flatMap {α : Type} {xs : List α} {f : α → List Node} :
    Everywhere P (xs.flatMap f) ↔ ∀ x ∈ xs, Everywhere P (f x) := by
  induction xs with
  | nil => simp
  | cons x xs ih => simp [ih]

end

end MapScript
