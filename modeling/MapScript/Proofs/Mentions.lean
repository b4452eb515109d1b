import MapScript.Proofs.Shape
import MapScript.Token.Keyword

/-!
# What a tree mentions

The words of a program that are its own are names, the members of objects, numbers and texts. A
tree holds them in the fields of its nodes, and they are listed here in the order of the tree.

The parser builds most nodes out of lists of other nodes: it splits a list at an operator, takes a
list as a callee, or moves the first statement of a loop to its head. None of this changes what is
mentioned.
-/
namespace MapScript

/-- A word of a program that is its own. -/
inductive Mention where
  /-- The name of a variable, a function, a parameter, a struct or a type. -/
  | name (word : String)
  /-- The name of a property, or the key of a field. -/
  | member (word : String)
  /-- A number, or a text with its quotes. -/
  | value (text : String)
  /-- The name of an instruction. -/
  | instruction (op : String)
deriving DecidableEq, Repr

/-- The name of a member is a keyword. -/
def Mention.isKeywordMember : Mention → Bool
  | .member word => isKeyword word
  | _ => false

def typeMentions (type : Option String) : List Mention := type.toList.map .name

/-- A parameter stands after its type. -/
def Param.mentions (p : Param) : List Mention := typeMentions p.type ++ [.name p.name]

/-- Only numbers and texts are literals of the program's own. -/
def literalMentions : LiteralKind → String → List Mention
  | .number, value => [.value value]
  | .string, value => [.value value]
  | _, _ => []

mutual

/-- What a node mentions, from left to right. -/
def Node.mentions : Node → List Mention
  | .globals body => mentionsOf body
  | .varDecl name type _ _ init => typeMentions type ++ .name name :: mentionsOf init
  | .assign target _ value => mentionsOf target ++ mentionsOf value
  | .function name params returnType _ body =>
    .name name :: (params.flatMap Param.mentions ++ (typeMentions returnType ++ mentionsOf body))
  | .doBlock _ body => mentionsOf body
  | .returnStmt value => mentionsOf value
  | .ifStmt test body otherwise =>
    mentionsOf test ++ (mentionsOf body ++ mentionsOfOption otherwise)
  | .call callee _ args => mentionsOf callee ++ mentionsOf args
  | .member object chain => .name object :: mentionsOf chain
  | .property name => [.member name]
  | .index index => mentionsOf index
  | .forStmt indexVar first last body =>
    .name indexVar :: (mentionsOf first ++ (mentionsOf last ++ mentionsOf body))
  | .loop exit body => mentionsOfOption exit ++ mentionsOf body
  | .exitWhen condition => mentionsOf condition
  | .struct name body => .name name :: mentionsOf body
  | .expect condition => mentionsOf condition
  | .exprStmt expr => mentionsOf expr
  | .expr parts => mentionsOf parts
  | .group body => mentionsOf body
  | .array items => mentionsOf items
  | .object fields => mentionsOfFields fields
  | .literal kind value => literalMentions kind value
  | .identifier name => [.name name]
  | .operator _ => []
  | .comment _ => []
  | .instruction op operands => .instruction op :: mentionsOf operands
  | .debug => []

def mentionsOf : List Node → List Mention
  | [] => []
  | node :: nodes => node.mentions ++ mentionsOf nodes

def mentionsOfOption : Option (List Node) → List Mention
  | none => []
  | some nodes => mentionsOf nodes

/-- Each key stands before its value. -/
def mentionsOfFields : List (String × List Node) → List Mention
  | [] => []
  | (key, value) :: fields => .member key :: (mentionsOf value ++ mentionsOfFields fields)

end

attribute [local simp] Node.mentions

@[simp] theorem mentionsOf_nil : mentionsOf [] = [] := by rw [mentionsOf]

@[simp] theorem mentionsOf_cons (node : Node) (nodes : List Node) :
    mentionsOf (node :: nodes) = node.mentions ++ mentionsOf nodes := by rw [mentionsOf]

@[simp] theorem mentionsOf_append (nodes others : List Node) :
    mentionsOf (nodes ++ others) = mentionsOf nodes ++ mentionsOf others := by
  induction nodes with
  | nil => rfl
  | cons node nodes ih => rw [List.cons_append, mentionsOf_cons, ih, mentionsOf_cons,
      List.append_assoc]

theorem mentionsOfOption_eq (nodes : Option (List Node)) :
    mentionsOfOption nodes = mentionsOf (nodes.getD []) := by
  cases nodes with
  | none => rw [mentionsOfOption, Option.getD_none, mentionsOf_nil]
  | some nodes => rw [mentionsOfOption, Option.getD_some]

theorem mem_mentionsOf {x : Mention} {nodes : List Node} :
    x ∈ mentionsOf nodes ↔ ∃ n ∈ nodes, x ∈ n.mentions := by
  induction nodes with
  | nil => simp
  | cons node nodes ih => simp [ih]

/-- The keys of the fields are mentioned, and what their values mention. -/
theorem mem_mentionsOfFields {x : Mention} {fields : List (String × List Node)} :
    x ∈ mentionsOfFields fields ↔
      x ∈ fields.map (.member ·.1) ∨ x ∈ mentionsOf (fields.flatMap (·.2)) := by
  induction fields with
  | nil => simp [mentionsOfFields]
  | cons field fields ih =>
      rw [mentionsOfFields, List.map_cons, List.flatMap_cons, mentionsOf_append]
      simp only [List.mem_cons, List.mem_append, ih]
      tauto

@[simp] theorem mentionsOfFields_append (fields others : List (String × List Node)) :
    mentionsOfFields (fields ++ others) = mentionsOfFields fields ++ mentionsOfFields others := by
  induction fields with
  | nil => rfl
  | cons field fields ih =>
      obtain ⟨key, value⟩ := field
      rw [List.cons_append, mentionsOfFields, ih, mentionsOfFields, List.cons_append,
        List.append_assoc]

@[simp] theorem mentions_ofParts (parts : List Node) :
    (Node.ofParts parts).mentions = mentionsOf parts := by
  unfold Node.ofParts
  split
  · simp
  · rw [Node.mentions]

@[simp] theorem mentionsOf_addArgument (args parts : List Node) :
    mentionsOf (addArgument args parts) = mentionsOf args ++ mentionsOf parts := by
  unfold addArgument
  split
  · rename_i empty
    rw [List.isEmpty_iff.mp empty]
    simp
  · simp

@[simp] theorem mentions_ofChain (name : String) (chain : List Node) :
    (Node.ofChain name chain).mentions = .name name :: mentionsOf chain := by
  unfold Node.ofChain
  split <;> simp

@[simp] theorem mentionsOf_awaited (parts : List Node) :
    mentionsOf (awaited parts) = mentionsOf parts := by
  unfold awaited
  split <;> simp

theorem mentionsOf_splitAssignment? {parts target value : List Node} {op : String}
    (h : splitAssignment? parts = some (target, op, value)) :
    mentionsOf parts = mentionsOf target ++ mentionsOf value := by
  obtain ⟨rfl, -⟩ := splitAssignment?_eq_some h
  simp

theorem mentions_ofAssignment (scope : Scope) (target : List Node) (op : String)
    (value : List Node) : (Node.ofAssignment scope target op value).mentions =
      mentionsOf target ++ mentionsOf value := by
  unfold Node.ofAssignment
  split
  · split <;> simp [Node.bareVariable, typeMentions]
  · rw [Node.mentions]

theorem mentions_ofExpression (scope : Scope) (parts : List Node) :
    (Node.ofExpression scope parts).mentions = mentionsOf parts := by
  unfold Node.ofExpression
  split
  · split <;> simp [Node.bareVariable, typeMentions]
  · simp
  · simp
  · rw [Node.mentions]

@[simp] theorem mentions_ofStatementParts (scope : Scope) (parts : List Node) :
    (Node.ofStatementParts scope parts).mentions = mentionsOf parts := by
  unfold Node.ofStatementParts
  split
  · rename_i split
    rw [mentions_ofAssignment, mentionsOf_splitAssignment? split]
  · exact mentions_ofExpression scope parts

@[simp] theorem mentions_ofLoopBody (body : List Node) :
    (Node.ofLoopBody body).mentions = mentionsOf body := by
  unfold Node.ofLoopBody
  split <;> simp [mentionsOfOption]

end MapScript
