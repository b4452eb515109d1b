import MapScript.Compile
import MapScript.Proofs.Shape

/-!
# When a tree has no output

The only thing that cannot be written is an instruction that is not in the table. A tree is
written from left to right, and each such instruction in it is met where it stands: nothing that
is passed over on the way, such as the name of a helper or a register that is written to, can hold
one. So a tree has no output exactly if it holds an instruction that is not in the table, at any
depth.

The parser takes a word for an instruction only if the table has it, and thus every source has an
output.
-/
namespace MapScript

def Use.unknown? : Use → Option String
  | .unknownInstruction op => some op
  | _ => none

namespace Piece

/-- The instructions in a piece that do not exist, in order. -/
def unknowns (p : Piece) : List String := p.uses.filterMap Use.unknown?

@[simp] theorem unknowns_append (p q : Piece) : (p ++ q).unknowns = p.unknowns ++ q.unknowns :=
  List.filterMap_append

@[simp] theorem unknowns_ofText (text : String) : (ofText text).unknowns = [] := rfl

@[simp] theorem unknowns_helper (text name : String) :
    (⟨text, [.helper name]⟩ : Piece).unknowns = [] := rfl

@[simp] theorem unknowns_instruction (text name : String) :
    (⟨text, [.instruction name, .register]⟩ : Piece).unknowns = [] := rfl

@[simp] theorem unknowns_unknownInstruction (text op : String) :
    (⟨text, [.unknownInstruction op]⟩ : Piece).unknowns = [op] := rfl

@[simp] theorem unknowns_joined (separator : String) (ps : List Piece) :
    (joined separator ps).unknowns = ps.flatMap unknowns := by
  fun_induction joined separator ps with
  | case1 => rfl
  | case2 p => simp
  | case3 p ps _ ih => simp [ih]

end Piece

namespace Node

/-- The instruction of the node itself, when it is not in the table. -/
def ownUnlisted : Node → List String
  | .instruction op _ => if (Instruction.find? op).isSome then [] else [op]
  | _ => []

/-- The instructions in a node that are not in the table, from left to right. -/
def unlisted (n : Node) : List String :=
  n.ownUnlisted ++ n.children.attach.flatMap fun m => m.1.unlisted
termination_by sizeOf n
decreasing_by exact sizeOf_lt_of_mem_children m.2

theorem unlisted_eq (n : Node) : n.unlisted = n.ownUnlisted ++ n.children.flatMap unlisted := by
  rw [unlisted]
  simp

theorem mem_ownUnlisted {n : Node} {op : String} : op ∈ n.ownUnlisted ↔
    ∃ operands, n = .instruction op operands ∧ Instruction.find? op = none := by
  cases n with
  | instruction word operands =>
      constructor
      · intro h
        rw [ownUnlisted] at h
        split at h
        · cases h
        · rename_i unlisted
          obtain rfl := List.mem_singleton.mp h
          exact ⟨operands, rfl, by simpa using unlisted⟩
      · rintro ⟨_, ⟨⟩, hi⟩
        simp [ownUnlisted, hi]
  | _ => simp [ownUnlisted]

/-- A dotted name is made of properties only. -/
theorem flatMap_unlisted_of_chainName? {name full : String} {chain : List Node}
    (h : chainName? name chain = some full) : chain.flatMap unlisted = [] := by
  fun_induction chainName? name chain with
  | case1 => rfl
  | case2 name p links ih => rw [List.flatMap_cons, ih h, unlisted_eq]; rfl
  | case3 => cases h

theorem unlisted_of_flatName? {n : Node} {name : String} (h : n.flatName? = some name) :
    n.unlisted = [] := by
  rw [unlisted_eq]
  cases n with
  | identifier _ => rfl
  | member object chain => exact flatMap_unlisted_of_chainName? h
  | _ => cases h

end Node

/-- The instructions in the nodes that are not in the table stand somewhere in the nodes. -/
theorem mem_flatMap_unlisted {nodes : List Node} {op : String} : op ∈ nodes.flatMap Node.unlisted ↔
    ∃ operands, Occurs (.instruction op operands) nodes ∧ Instruction.find? op = none := by
  constructor
  · have inside (n : Node) : op ∈ n.unlisted →
        ∃ operands, Occurs (.instruction op operands) [n] ∧ Instruction.find? op = none := by
      induction n using Node.induction_children with
      | step n ih =>
          intro h
          rw [Node.unlisted_eq] at h
          rcases List.mem_append.mp h with own | h
          · obtain ⟨operands, rfl, hi⟩ := Node.mem_ownUnlisted.mp own
            exact ⟨operands, .here (List.mem_singleton_self _), hi⟩
          · obtain ⟨m, hm, h⟩ := List.mem_flatMap.mp h
            obtain ⟨operands, occurs, hi⟩ := ih m hm h
            refine ⟨operands, .inside (List.mem_singleton_self n) (occurs.mono ?_), hi⟩
            simpa using hm
    intro h
    obtain ⟨n, hn, h⟩ := List.mem_flatMap.mp h
    obtain ⟨operands, occurs, hi⟩ := inside n h
    exact ⟨operands, occurs.mono (by simpa using hn), hi⟩
  · rintro ⟨operands, occurs, hi⟩
    induction occurs with
    | here hn =>
        refine List.mem_flatMap.mpr ⟨_, hn, ?_⟩
        rw [Node.unlisted_eq]
        exact List.mem_append_left _ (Node.mem_ownUnlisted.mpr ⟨operands, rfl, hi⟩)
    | @inside m nodes hm _ ih =>
        refine List.mem_flatMap.mpr ⟨m, hm, ?_⟩
        rw [Node.unlisted_eq]
        exact List.mem_append_right _ ih

namespace Emit
variable (o : EmitOptions)

@[simp] theorem unknowns_name (word : String) : (Emit.name o word).unknowns = [] := by
  unfold Emit.name
  split
  · rfl
  · split <;> rfl

@[simp] theorem unknowns_valueOrStatement (value : Piece) (c : EmitContext) :
    (valueOrStatement o value c).unknowns = value.unknowns := by
  unfold valueOrStatement
  split <;> simp

@[simp] theorem unknowns_bracedBlock (head body : Piece) (c : EmitContext) :
    (bracedBlock o head body c).unknowns = head.unknowns ++ body.unknowns := by
  simp [bracedBlock]

@[simp] theorem unknowns_assign (target value : Piece) (op : String) (c : EmitContext) :
    (assign o target op value c).unknowns = target.unknowns ++ value.unknowns := by
  unfold assign
  split <;> simp

@[simp] theorem unknowns_function (name : String) (params : List Param)
    (returnType : Option String) (isAsync : Bool) (body : Piece) (c : EmitContext) :
    (function o name params returnType isAsync body c).unknowns = body.unknowns := by
  simp [function]

@[simp] theorem unknowns_varDecl (name : String) (type : Option String) (mutable : Bool)
    (value : Option Piece) (c : EmitContext) :
    (varDecl o name type mutable value c).unknowns = value.toList.flatMap Piece.unknowns := by
  unfold varDecl
  cases value <;> split <;> simp

/-- Where the node is written, it writes the instructions that it holds and that do not exist. -/
def Tells (n : Node) : Prop :=
  ∀ c before after, (node o c before after n).unknowns = n.unlisted

section
variable {o} {ns : List Node} (h : ∀ n ∈ ns, Tells o n) (c : EmitContext)
include h

theorem unknowns_nodes (before : Option Node) (tight : Bool) :
    (nodes o c before tight ns).unknowns = ns.flatMap Node.unlisted := by
  induction ns generalizing before tight with
  | nil =>
      rw [nodes]
      rfl
  | cons n ns ih =>
      have first := h n (by simp) c before ns.head?
      have rest (tight : Bool) := ih (fun m hm => h m (by simp [hm])) (some n) tight
      rw [nodes]
      split <;> simp [first, rest]

theorem unknowns_links : (links o c ns).unknowns = ns.flatMap Node.unlisted := by
  induction ns with
  | nil =>
      rw [links]
      rfl
  | cons n ns ih =>
      have first := h n (by simp) c none none
      have rest := ih fun m hm => h m (by simp [hm])
      rw [links]
      simp [first, rest]

/-- A register that is written to is no instruction. -/
theorem unknowns_operandList (destinations : Nat) :
    (operandList o c destinations ns).flatMap Piece.unknowns = ns.flatMap Node.unlisted := by
  induction ns generalizing destinations with
  | nil =>
      rw [operandList]
      rfl
  | cons n ns ih =>
      have rest := ih (fun m hm => h m (by simp [hm])) (destinations - 1)
      unfold operandList
      rw [List.flatMap_cons, List.flatMap_cons, rest]
      congr 1
      split
      · rw [Node.unlisted_eq]
        rfl
      · exact h n (by simp) c none none

end

theorem unknowns_fieldList {fields : List (String × List Node)}
    (h : ∀ n ∈ fields.flatMap (·.2), Tells o n) (c : EmitContext) :
    (fieldList o c fields).flatMap Piece.unknowns =
      (fields.flatMap (·.2)).flatMap Node.unlisted := by
  induction fields with
  | nil =>
      rw [fieldList]
      rfl
  | cons field fields ih =>
      obtain ⟨key, value⟩ := field
      obtain ⟨here, others⟩ := List.forall_mem_append.mp (List.flatMap_cons ▸ h)
      have inner := unknowns_nodes here c none true
      have rest := ih others
      rw [fieldList, List.flatMap_cons, rest, List.flatMap_cons, List.flatMap_append]
      simp [inner]

theorem unknowns_branch {otherwise : Option (List Node)}
    (h : ∀ n ∈ otherwise.getD [], Tells o n) (c : EmitContext) :
    (branch o c otherwise).unknowns = (otherwise.getD []).flatMap Node.unlisted := by
  unfold branch
  split
  · rfl
  · -- A condition relies on the same things as a statement of its own.
    rename_i test body otherwise
    have whole := h (.ifStmt test body otherwise) (by simp) c none none
    rw [node] at whole
    simpa using whole
  · rename_i body _
    have inner := unknowns_nodes h c.block none true
    simpa using inner

/-- The name of a helper holds no instruction. -/
theorem flatMap_unlisted_of_calledHelper? {callee : List Node} {before : Option Node}
    {helper : Helper} (h : calledHelper? callee before = some helper) :
    callee.flatMap Node.unlisted = [] := by
  unfold calledHelper? at h
  split at h
  · rename_i n
    split at h
    · cases h
    · obtain ⟨name, hn, -⟩ := Option.bind_eq_some_iff.mp h
      rw [List.flatMap_singleton, Node.unlisted_of_flatName? hn]
  · cases h

/-- A node tells of its instructions if the nodes that it holds do. -/
theorem tells_of_children {n : Node} (h : ∀ m ∈ n.children, Tells o m) : Tells o n := by
  intro c before after
  have inner (ns : List Node) (hs : ∀ m ∈ ns, m ∈ n.children) (c : EmitContext)
      (before : Option Node) (tight : Bool) :
      (nodes o c before tight ns).unknowns = ns.flatMap Node.unlisted :=
    unknowns_nodes (fun m hm => h m (hs m hm)) c before tight
  rw [Node.unlisted_eq]
  cases n with
  | globals body | expr body | group body | array body | index body =>
      have body := inner body fun m hm => hm
      rw [node]
      simp [body, Node.ownUnlisted, Node.children]
  | exitWhen condition | expect condition =>
      have condition := inner condition fun m hm => hm
      rw [node]
      simp [condition, Node.ownUnlisted, Node.children]
  | exprStmt parts =>
      have parts := inner parts fun m hm => hm
      rw [node]
      split <;> simp [parts, Node.ownUnlisted, Node.children]
  | varDecl name type mutable isArray init =>
      cases init with
      | nil =>
          rw [node]
          cases isArray <;> simp [Node.ownUnlisted, Node.children]
      | cons part parts =>
          have init := inner (part :: parts) fun m hm => hm
          rw [node]
          simp [init, Node.ownUnlisted, Node.children]
  | assign target op value =>
      have target := inner target (by simp +contextual [Node.children])
      have value := inner value (by simp +contextual [Node.children])
      rw [node]
      simp [target, value, Node.ownUnlisted, Node.children]
  | function name params returnType isAsync body =>
      have body := inner body fun m hm => hm
      rw [node]
      simp [body, Node.ownUnlisted, Node.children]
  | doBlock isAsync body | struct name body =>
      have body := inner body fun m hm => hm
      rw [node]
      simp [body, Node.ownUnlisted, Node.children]
  | returnStmt value =>
      cases value with
      | nil =>
          rw [node]
          simp [Node.ownUnlisted, Node.children]
      | cons part parts =>
          have value := inner (part :: parts) fun m hm => hm
          rw [node]
          simp [value, Node.ownUnlisted, Node.children]
  | ifStmt test body otherwise =>
      have test := inner test (by simp +contextual [Node.children])
      have body := inner body (by simp +contextual [Node.children])
      have rest : (branch o c otherwise).unknowns = (otherwise.getD []).flatMap Node.unlisted :=
        unknowns_branch o (fun m hm => h m (by simp [Node.children, hm])) c
      rw [node]
      simp [test, body, rest, Node.ownUnlisted, Node.children]
  | call callee isAsync args =>
      have target := inner callee (by simp +contextual [Node.children])
      have args := inner args (by simp +contextual [Node.children])
      rw [node]
      cases hc : calledHelper? callee before with
      | none => simp [target, args, Node.ownUnlisted, Node.children]
      | some helper =>
          simp [args, flatMap_unlisted_of_calledHelper? hc, Node.ownUnlisted, Node.children]
  | member object chain =>
      have chain : (links o c.inline chain).unknowns = chain.flatMap Node.unlisted :=
        unknowns_links h c.inline
      rw [node]
      simp [chain, Node.ownUnlisted, Node.children]
  | forStmt i first last body =>
      have first := inner first (by simp +contextual [Node.children])
      have last := inner last (by simp +contextual [Node.children])
      have body := inner body (by simp +contextual [Node.children])
      rw [node]
      simp [first, last, body, Node.ownUnlisted, Node.children]
  | loop exit body =>
      have body := inner body (by simp +contextual [Node.children])
      cases exit with
      | none =>
          rw [node]
          simp [body, Node.ownUnlisted, Node.children]
      | some exit =>
          have exit := inner exit (by simp +contextual [Node.children])
          rw [node]
          simp [exit, body, Node.ownUnlisted, Node.children]
  | object fields =>
      cases fields with
      | nil =>
          rw [node]
          simp [Node.ownUnlisted, Node.children]
      | cons field fields =>
          have fields := unknowns_fieldList o h c.inline
          rw [node, Piece.unknowns_append, Piece.unknowns_append, Piece.unknowns_joined, fields]
          simp [Node.ownUnlisted, Node.children]
  | literal kind value =>
      cases kind <;> simp [node, Node.ownUnlisted, Node.children]
  | instruction op operands =>
      have operands (destinations : Nat) :
          (operandList o c.inline destinations operands).flatMap Piece.unknowns =
            operands.flatMap Node.unlisted :=
        unknowns_operandList h c.inline destinations
      rw [node, instruction]
      cases hi : Instruction.find? op <;> simp [operands, hi, Node.ownUnlisted, Node.children]
  | property name | identifier name | operator name | comment name | debug =>
      rw [node]
      simp [Node.ownUnlisted, Node.children]

theorem tells (n : Node) : Tells o n :=
  n.induction_children fun _ => tells_of_children o

/-- The first instruction that does not exist is found where the tree has it. -/
theorem unknown?_nodes (c : EmitContext) (before : Option Node) (tight : Bool) (ns : List Node) :
    unknown? (nodes o c before tight ns).uses = (ns.flatMap Node.unlisted).head? := by
  have first (uses : List Use) : unknown? uses = uses.findSome? Use.unknown? := rfl
  rw [first, ← List.head?_filterMap]
  exact congrArg List.head? (unknowns_nodes (fun n _ => tells o n) c before tight)

end Emit

/-- The error names the first instruction that is not in the table. -/
theorem generate_eq_error_iff (o : EmitOptions) (tree : Tree) (op : String) :
    generate o tree = .error (.unknownInstruction op) ↔
      (tree.body.flatMap Node.unlisted).head? = some op := by
  unfold generate
  dsimp only
  rw [Emit.unknown?_nodes]
  cases (tree.body.flatMap Node.unlisted).head? <;> simp

theorem exists_generate_eq_error_iff (o : EmitOptions) (tree : Tree) :
    (∃ e, generate o tree = .error e) ↔ tree.body.flatMap Node.unlisted ≠ [] := by
  constructor
  · rintro ⟨⟨op⟩, failed⟩ none
    have first := (generate_eq_error_iff o tree op).mp failed
    rw [none] at first
    cases first
  · intro some
    obtain ⟨op, ops, unlisted⟩ := List.exists_cons_of_ne_nil some
    refine ⟨.unknownInstruction op, (generate_eq_error_iff o tree op).mpr ?_⟩
    rw [unlisted, List.head?_cons]

theorem exists_generate_eq_ok {o : EmitOptions} {tree : Tree}
    (h : tree.body.flatMap Node.unlisted = []) : ∃ script, generate o tree = .ok script := by
  unfold generate
  dsimp only
  rw [Emit.unknown?_nodes, h]
  exact ⟨_, rfl⟩

theorem Instruction.find?_eq_none {op : String} :
    find? op = none ↔ ∀ i ∈ all, sameWord i.name op = false := by
  simp [find?]

theorem flatMap_unlisted_eq_nil {nodes : List Node}
    (known : ∀ op operands, Occurs (.instruction op operands) nodes →
      ∃ i ∈ Instruction.all, sameWord i.name op = true) : nodes.flatMap Node.unlisted = [] := by
  rw [List.eq_nil_iff_forall_not_mem]
  intro op unlisted
  obtain ⟨operands, occurs, missing⟩ := mem_flatMap_unlisted.mp unlisted
  obtain ⟨i, hi, word⟩ := known op operands occurs
  rw [Instruction.find?_eq_none.mp missing i hi] at word
  cases word

/-- The parser takes only words of the table for instructions. -/
theorem find?_isSome_of_occurs {o : ParseOptions} {tokens : List Token} {op : String}
    {operands : List Node}
    (h : Occurs (.instruction op operands) (parse o tokens).tree.body) :
    (Instruction.find? op).isSome :=
  ((statements_parse o tokens).2 _ h).2.1

theorem unlisted_parse (o : ParseOptions) (tokens : List Token) :
    (parse o tokens).tree.body.flatMap Node.unlisted = [] := by
  rw [List.eq_nil_iff_forall_not_mem]
  intro op h
  obtain ⟨operands, occurs, hi⟩ := mem_flatMap_unlisted.mp h
  have listed := find?_isSome_of_occurs occurs
  rw [hi] at listed
  cases listed

theorem compile_of_generate {o : CompileOptions} {source : String} {script : Script}
    (h : generate o.emitOptions
      (parse o.parseOptions (tokenize o.keepComments source).tokens).tree =
      .ok script) :
    compile o source = .ok ⟨script, (tokenize o.keepComments source).reported.map
        (·.toDiagnostic) ++ (parse o.parseOptions
          (tokenize o.keepComments source).tokens).errors.map (·.toDiagnostic),
      (parse o.parseOptions (tokenize o.keepComments source).tokens).aborted⟩ := by
  unfold compile
  dsimp only
  rw [h]
  rfl

/-- A tree has no output exactly if it holds an instruction that is not in the table, at any depth.
No tree of the parser does, also when the tree is written with other options than it was read
with, and so every source is compiled. -/
theorem fails_iff_unlisted :
    (∀ (o : EmitOptions) (tree : Tree), (∃ e, generate o tree = .error e) ↔
      ∃ op operands, Occurs (.instruction op operands) tree.body ∧
        ∀ i ∈ Instruction.all, sameWord i.name op = false) ∧
    (∀ (p : ParseOptions) (tokens : List Token) (op : String) (operands : List Node),
      Occurs (.instruction op operands) (parse p tokens).tree.body →
        ∃ i ∈ Instruction.all, sameWord i.name op = true) ∧
    (∀ (p : ParseOptions) (o : EmitOptions) (tokens : List Token),
      ∃ script, generate o (parse p tokens).tree = .ok script) ∧
    ∀ (o : CompileOptions) (source : String), ∃ c, compile o source = .ok c := by
  have written (p : ParseOptions) (o : EmitOptions) (tokens : List Token) :
      ∃ script, generate o (parse p tokens).tree = .ok script :=
    exists_generate_eq_ok (unlisted_parse p tokens)
  refine ⟨?_, ?_, written, ?_⟩
  · intro o tree
    rw [exists_generate_eq_error_iff, Ne, List.eq_nil_iff_forall_not_mem]
    simp only [Classical.not_forall, Classical.not_not, mem_flatMap_unlisted,
      Instruction.find?_eq_none]
  · intro p tokens op operands occurs
    obtain ⟨i, hi⟩ := Option.isSome_iff_exists.mp (find?_isSome_of_occurs occurs)
    unfold Instruction.find? at hi
    have same := List.find?_some hi
    exact ⟨i, List.mem_of_find?_eq_some hi, same⟩
  · intro o source
    obtain ⟨script, hs⟩ := written o.parseOptions o.emitOptions
      (tokenize o.keepComments source).tokens
    exact ⟨_, compile_of_generate hs⟩

/-- An operand of an instruction that exists can be one that does not. -/
example : generate default ⟨[.loop none [.instruction "MOV" [.identifier "ax",
    .group [.instruction "blit" []]]]], false⟩ = .error (.unknownInstruction "blit") := by
  decide +kernel

end MapScript
