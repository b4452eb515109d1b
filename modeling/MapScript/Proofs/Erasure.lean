import MapScript.Compile
import MapScript.Proofs.Comparing.Settings

/-!
# Programs without types

The types of a program are decoration. A parser that does not record them reads the same program
and finds the same errors, and a tree is written without them as the tree in which there are none.
-/
namespace MapScript

namespace Node

/-- The node without the types in it. -/
abbrev untyped : Node → Node := mapTypes fun _ => none

@[simp] theorem isOperator_untyped (symbol : String) (n : Node) :
    n.untyped.isOperator symbol = n.isOperator symbol := by
  simp [isOperator]

@[simp] theorem isMemberOperator_untyped (n : Node) :
    n.untyped.isMemberOperator = n.isMemberOperator := by
  simp [isMemberOperator]

@[simp] theorem isMemberAccess_untyped (n : Node) :
    n.untyped.isMemberAccess = n.isMemberAccess := by
  unfold isMemberAccess
  rw [isMemberOperator_untyped]
  cases n <;> rfl

@[simp] theorem inSignPosition_untyped (before : Option Node) :
    inSignPosition (before.map untyped) = inSignPosition before := by
  cases before <;> simp [inSignPosition, isAnyOperator]

@[simp] theorem isSign_untyped (n : Node) (before : Option Node) :
    n.untyped.isSign (before.map untyped) = n.isSign before := by
  simp [isSign]

@[simp] theorem isTrailing_untyped (n : Node) (before : Option Node) :
    n.untyped.isTrailing (before.map untyped) = n.isTrailing before := by
  simp [isTrailing]

@[simp] theorem any_untyped {f : Node → Bool} (h : ∀ n, f n.untyped = f n) (before : Option Node) :
    (before.map untyped).any f = before.any f := by
  cases before with
  | none => rfl
  | some n => exact h n

theorem operatorText_untyped (symbol : String) (before after : Option Node) :
    operatorText symbol (before.map untyped) (after.map untyped) =
      operatorText symbol before after := by
  simp [operatorText]

theorem chainName?_untyped (name : String) (chain : List Node) :
    chainName? name (chain.map untyped) = chainName? name chain := by
  induction chain generalizing name with
  | nil => rfl
  | cons link chain ih =>
      cases link with
      | property p => exact ih _
      | _ => rfl

theorem flatName?_untyped (n : Node) : n.untyped.flatName? = n.flatName? := by
  cases n with
  | member name chain =>
      rw [untyped, mapTypes, mapTypesList_eq]
      exact chainName?_untyped name chain
  | _ => rfl

end Node

abbrev Param.untyped : Param → Param := Param.mapTypes fun _ => none

/-- The options with types or without them. -/
def EmitOptions.withTypes (types : Bool) (o : EmitOptions) : EmitOptions :=
  { o with types := types }

namespace Emit
open Node

variable (o : EmitOptions)

section
variable (types : Bool)

@[simp] theorem pad_withTypes (c : EmitContext) : pad (o.withTypes types) c = pad o c := rfl

@[simp] theorem name_withTypes (text : String) : name (o.withTypes types) text = name o text := rfl

@[simp] theorem assign_withTypes (target : Piece) (op : String) (value : Piece) (c : EmitContext) :
    assign (o.withTypes types) target op value c = assign o target op value c := rfl

@[simp] theorem valueOrStatement_withTypes (value : Piece) (c : EmitContext) :
    valueOrStatement (o.withTypes types) value c = valueOrStatement o value c := rfl

@[simp] theorem bracedBlock_withTypes (head body : Piece) (c : EmitContext) :
    bracedBlock (o.withTypes types) head body c = bracedBlock o head body c := rfl

@[simp] theorem instruction_withTypes (op : String) (operands : List Piece) (c : EmitContext) :
    instruction (o.withTypes types) op operands c = instruction o op operands c := rfl

end

/-- No type is written where none is recorded, nor where none is asked for. -/
theorem varDecl_untyped (name : String) (type : Option String) (mutable : Bool)
    (value : Option Piece) (c : EmitContext) :
    varDecl (o.withTypes false) name type mutable value c =
      varDecl (o.withTypes true) name none mutable value c := by
  have comment : typeComment (o.withTypes false) type c = "" := by
    cases type <;> rfl
  unfold Emit.varDecl
  rw [comment]
  rfl

theorem function_untyped (name : String) (params : List Param) (returnType : Option String)
    (isAsync : Bool) (body : Piece) (c : EmitContext) :
    function (o.withTypes false) name params returnType isAsync body c =
      function (o.withTypes true) name (params.map Param.untyped) none isAsync body c := by
  have comment : functionComment (o.withTypes true) (params.map Param.untyped) none c = "" := by
    simp [functionComment, Param.mapTypes]
  have names : (params.map Param.untyped).map (·.name) = params.map (·.name) := by
    simp [Param.mapTypes]
  unfold function
  rw [comment, names]
  rfl

theorem gap_untyped (n : Node) (before : Option Node) (tight : Bool) (c : EmitContext) :
    gap n.untyped (before.map untyped) tight c = gap n before tight c := by
  simp [gap]

theorem isTight_untyped (n : Node) (before : Option Node) (c : EmitContext) :
    isTight n.untyped (before.map untyped) c = isTight n before c := by
  simp [isTight]

theorem calledHelper?_untyped (callee : List Node) (before : Option Node) :
    calledHelper? (callee.map untyped) (before.map untyped) = calledHelper? callee before := by
  cases callee with
  | nil => rfl
  | cons n rest =>
      cases rest with
      | nil => simp [calledHelper?, flatName?_untyped]
      | cons m rest => rfl

/-- The node is written without types as the node that has none. -/
def WritesUntyped (n : Node) : Prop := ∀ c before after,
  node (o.withTypes false) c before after n =
    node (o.withTypes true) c (before.map untyped) (after.map untyped) n.untyped

/-- So is a branch that has only this node in it. -/
def BranchesUntyped (n : Node) : Prop := ∀ c,
  branch (o.withTypes false) c (some [n]) = branch (o.withTypes true) c (some [n.untyped])

section
variable {o} {ns : List Node} (h : ∀ n ∈ ns, WritesUntyped o n)
include h

theorem nodes_untyped (c : EmitContext) (before : Option Node) (tight : Bool) :
    nodes (o.withTypes false) c before tight ns =
      nodes (o.withTypes true) c (before.map untyped) tight (ns.map untyped) := by
  induction ns generalizing before tight with
  | nil => rfl
  | cons n ns ih =>
      have first := h n (by simp) c before ns.head?
      have rest (tight : Bool) := ih (fun m hm => h m (by simp [hm])) (some n) tight
      rw [List.map_cons, nodes, nodes, List.head?_map, ← first, rest, rest, gap_untyped,
        isTight_untyped]
      rfl

theorem links_untyped (c : EmitContext) :
    links (o.withTypes false) c ns = links (o.withTypes true) c (ns.map untyped) := by
  induction ns with
  | nil => rfl
  | cons n ns ih =>
      have first := h n (by simp) c none none
      have rest := ih fun m hm => h m (by simp [hm])
      rw [List.map_cons, links, links, first, rest]
      rfl

theorem operandList_untyped (c : EmitContext) (destinations : Nat) :
    operandList (o.withTypes false) c destinations ns =
      operandList (o.withTypes true) c destinations (ns.map untyped) := by
  induction ns generalizing destinations with
  | nil => rfl
  | cons n ns ih =>
      have first := h n (by simp) c none none
      have rest := ih fun m hm => h m (by simp [hm])
      rw [List.map_cons]
      unfold operandList
      rw [rest]
      congr 1
      cases n with
      | identifier name =>
          cases destinations with
          | zero => exact first
          | succ k => rfl
      | _ => exact first

theorem branch_untyped_some (hb : ∀ n ∈ ns, BranchesUntyped o n) (c : EmitContext) :
    branch (o.withTypes false) c (some ns) =
      branch (o.withTypes true) c (some (ns.map untyped)) := by
  have inner := nodes_untyped h c.block none true
  cases ns with
  | nil => rfl
  | cons n rest =>
      cases rest with
      | nil => exact hb n (by simp) c
      | cons m rest =>
          rw [List.map_cons, List.map_cons] at inner ⊢
          rw [branch, branch, inner]
          · rfl
          · simp
          · simp

end

theorem fieldList_untyped {o : EmitOptions} {fields : List (String × List Node)}
    (h : ∀ n ∈ fields.flatMap (·.2), WritesUntyped o n) (c : EmitContext) :
    fieldList (o.withTypes false) c fields =
      fieldList (o.withTypes true) c (fields.map fun (key, value) => (key, value.map untyped)) := by
  induction fields with
  | nil => rfl
  | cons field fields ih =>
      obtain ⟨key, value⟩ := field
      have first := nodes_untyped (fun n (hn : n ∈ value) => h n (by simp [hn])) c none true
      have rest := ih fun n hn => h n (by rw [List.flatMap_cons]; exact List.mem_append_right _ hn)
      rw [List.map_cons, fieldList, fieldList, first, rest]
      rfl

section
variable {o} {n : Node} (h : ∀ m ∈ n.children, WritesUntyped o m)
include h

theorem inner_untyped (ns : List Node) (hs : ∀ m ∈ ns, m ∈ n.children) (c : EmitContext) :
    nodes (o.withTypes false) c none true ns =
      nodes (o.withTypes true) c none true (ns.map untyped) :=
  nodes_untyped (fun m hm => h m (hs m hm)) c none true

variable (hb : ∀ m ∈ n.children, BranchesUntyped o m)
include hb

theorem branch_untyped {test body : List Node} {otherwise : Option (List Node)}
    (hn : n = .ifStmt test body otherwise) (c : EmitContext) :
    branch (o.withTypes false) c otherwise =
      branch (o.withTypes true) c (otherwise.map (List.map untyped)) := by
  cases otherwise with
  | none => rfl
  | some rest =>
      have inside (m : Node) (hm : m ∈ rest) : m ∈ n.children := by
        simp [hn, Node.children, hm]
      exact branch_untyped_some (fun m hm => h m (inside m hm)) (fun m hm => hb m (inside m hm)) c

theorem writesUntyped_of_children : WritesUntyped o n := by
  intro c before after
  have inner := inner_untyped h
  cases n with
  | varDecl name type mutable isArray init =>
      -- Without a value it is written by another equation, here and for `return` and `loop`.
      have inner := inner init (by simp [Node.children])
      cases init with
      | nil => simp [node, mapTypes, varDecl_untyped]
      | cons part parts => simp [node, mapTypes, inner, varDecl_untyped]
  | assign target op value =>
      have target := inner target (by simp +contextual [Node.children])
      have value := inner value (by simp +contextual [Node.children])
      simp [node, mapTypes, target, value]
  | function name params returnType isAsync body =>
      have body := inner body (by simp [Node.children])
      simp [node, mapTypes, body, function_untyped]
  | returnStmt value =>
      have inner := inner value (by simp [Node.children])
      cases value with
      | nil => simp [node, mapTypes]
      | cons part parts => simp [node, mapTypes, inner]
  | ifStmt test body otherwise =>
      have test := inner test (by simp +contextual [Node.children])
      have body := inner body (by simp +contextual [Node.children])
      have rest := branch_untyped h hb rfl c
      simp [node, mapTypes, test, body, rest]
  | call callee isAsync args =>
      have callee := inner callee (by simp +contextual [Node.children])
      have args := inner args (by simp +contextual [Node.children])
      simp [node, mapTypes, callee, args, calledHelper?_untyped]
  | member name chain =>
      have chain : links (o.withTypes false) c.inline chain =
          links (o.withTypes true) c.inline (chain.map untyped) := links_untyped h c.inline
      simp [node, mapTypes, chain]
  | forStmt i first last body =>
      have first := inner first (by simp +contextual [Node.children])
      have last := inner last (by simp +contextual [Node.children])
      have body := inner body (by simp +contextual [Node.children])
      simp [node, mapTypes, first, last, body]
  | loop exit body =>
      have body := inner body (by simp +contextual [Node.children])
      cases exit with
      | none => simp [node, mapTypes, body]
      | some exit =>
          have exit := inner exit (by simp +contextual [Node.children])
          simp [node, mapTypes, body, exit]
  | object fields =>
      have inside := fieldList_untyped h c.inline
      cases fields with
      | nil => simp [node, mapTypes]
      | cons field fields => simp [node, mapTypes, inside]
  | instruction op operands =>
      have operands (destinations : Nat) :
          operandList (o.withTypes false) c.inline destinations operands =
            operandList (o.withTypes true) c.inline destinations (operands.map untyped) :=
        operandList_untyped h c.inline destinations
      simp [node, mapTypes, operands]
  | operator symbol => simp [node, mapTypes, operatorText_untyped]
  | globals body | doBlock _ body | index body | struct _ body | exitWhen body | expect body
  | exprStmt body | expr body | group body | array body =>
      have body := inner body (by simp [Node.children])
      simp [node, mapTypes, body]
  | literal kind value => cases kind <;> simp [node, mapTypes]
  | property _ | identifier _ | comment _ | debug => simp [node, mapTypes]

/-- Only a condition is not written in a branch as it is by itself. -/
theorem branchesUntyped_of_children (own : WritesUntyped o n) : BranchesUntyped o n := by
  intro c
  have single : nodes (o.withTypes false) c.block none true [n] =
      nodes (o.withTypes true) c.block none true [n.untyped] :=
    nodes_untyped (List.forall_mem_singleton.mpr own) c.block none true
  have inner := inner_untyped h
  cases n with
  | ifStmt test body otherwise =>
      have test := inner test (by simp +contextual [Node.children])
      have body := inner body (by simp +contextual [Node.children])
      have rest := branch_untyped h hb rfl c
      simp [branch, mapTypes, test, body, rest]
  | _ => exact congrArg (bracedBlock o " else" · c) single

end

/-- Every node is written without types as the node that has none. -/
theorem writesUntyped (n : Node) : WritesUntyped o n := by
  -- A branch goes on with the branches of the condition in it, so the induction needs both.
  suffices both : WritesUntyped o n ∧ BranchesUntyped o n from both.1
  induction n using induction_children with
  | step n ih =>
      have inside (m : Node) (hm : m ∈ n.children) : WritesUntyped o m := (ih m hm).1
      have branches (m : Node) (hm : m ∈ n.children) : BranchesUntyped o m := (ih m hm).2
      have own := writesUntyped_of_children inside branches
      exact ⟨own, branchesUntyped_of_children inside branches own⟩

end Emit

/-- The program without the types in it. -/
def Tree.untyped (tree : Tree) : Tree := { tree with body := tree.body.map Node.untyped }

theorem Tree.untyped_untyped (tree : Tree) : tree.untyped.untyped = tree.untyped := by
  have twice : Node.untyped ∘ Node.untyped = Node.untyped := by
    funext n
    exact n.mapTypes_mapTypes _ _
  rw [untyped, untyped, List.map_map, twice]

theorem generate_untyped (o : EmitOptions) (tree : Tree) :
    generate (o.withTypes false) tree = generate (o.withTypes true) tree.untyped := by
  have body : Emit.nodes (o.withTypes false) .root none true tree.body =
      Emit.nodes (o.withTypes true) .root none true tree.untyped.body :=
    Emit.nodes_untyped (fun n _ => Emit.writesUntyped o n) .root none true
  unfold generate
  rw [body]
  rfl

/-- A parser that records types and one that does not. -/
def Settings.typed : Settings where
  Rel o b o' b' := o' = { o with types := false } ∧ b' = b
  Apart _ _ := False
  onType _ := none
  Ahead _ := True
  asm rel := .inl (by rw [rel.1])
  types := by
    rintro o _ b _ ⟨rfl, rfl⟩ word
    exact (Option.bind_fun_none _).symm
  spend := by
    rintro o _ b _ ⟨rfl, rfl⟩
    exact ⟨rfl, rfl⟩
  first rel out := by rwa [← rel.2]
  part := by
    rintro s _ _ trail last ⟨-, rfl⟩ out left
    exact left out
  apart h := h.elim
  apart_leaveFrame := id
  apart_leaveBlock := id

/-- Whether types are recorded decides nothing else about the result. -/
theorem parse_untyped (o : ParseOptions) (tokens : List Token) :
    let typed := parse { o with types := true } tokens
    parse { o with types := false } tokens =
      ⟨typed.tree.untyped, typed.errors, typed.aborted⟩ := by
  have start : Settings.typed.Like (.start { o with types := true } (terminated tokens))
      (.start { o with types := false } (terminated tokens)) :=
    ⟨{ o with types := false }, o.retryBudget, [], rfl, ⟨rfl, rfl⟩, fun _ _ => trivial⟩
  have read := Parser.read_copies (c := Settings.typed.comparison)
    (.statements .block [.endOfFile]) _ _ start
  rcases run : (Place.statements .block [.endOfFile]).read
    (.start { o with types := true } (terminated tokens)) with ⟨⟨body, stop⟩, s⟩
  rcases run' : (Place.statements .block [.endOfFile]).read
    (.start { o with types := false } (terminated tokens)) with ⟨⟨body', stop'⟩, s'⟩
  rw [run, run'] at read
  rcases read with ⟨value, like⟩ | apart
  · -- What the states can differ in does not go into the result.
    obtain ⟨_, _, _, rfl, -⟩ := like
    rw [parse_eq _ _ run, parse_eq _ _ run']
    have body : body' = body.map Node.untyped := congrArg Prod.fst value
    rw [body]
    rfl
  · exact apart.elim

/-- Compiles a source with types, but without those of its tree. -/
def compileUntyped (o : CompileOptions) (source : String) : Except EmitError Compilation := do
  let lexed := tokenize o.keepComments source
  let parsed := parse { o.parseOptions with types := true } lexed.tokens
  let script ← generate { o.emitOptions with types := true } parsed.tree.untyped
  return {
    script
    diagnostics :=
      lexed.reported.map (·.toDiagnostic) ++ parsed.errors.map (·.toDiagnostic)
    aborted := parsed.aborted }

/-- Types are decoration: to leave them out from the beginning is to leave them out of the tree. A
program that is read without types is the one read with types and stripped of them, with the same
errors; one that is written without types is the stripped one with types; and so it is for the
compiler as a whole. -/
theorem types_erasure :
    (∀ (o : ParseOptions) (tokens : List Token),
      let typed := parse { o with types := true } tokens
      let plain := parse { o with types := false } tokens
      plain.tree.body = typed.tree.body.map Node.untyped ∧
        plain.tree.isAsync = typed.tree.isAsync ∧
        plain.errors = typed.errors ∧ plain.aborted = typed.aborted) ∧
    (∀ (o : EmitOptions) (tree : Tree),
      generate { o with types := false } tree = generate { o with types := true } tree.untyped) ∧
    (∀ (o : CompileOptions) (source : String),
      compile { o with types := false } source = compileUntyped o source) := by
  refine ⟨fun o tokens => ?_, generate_untyped, fun o source => ?_⟩
  · dsimp only
    rw [parse_untyped]
    exact ⟨rfl, rfl, rfl, rfl⟩
  · have script (tree : Tree) : generate (o.emitOptions.withTypes false) tree.untyped =
        generate (o.emitOptions.withTypes true) tree.untyped := by
      rw [generate_untyped, Tree.untyped_untyped]
    have parsed := parse_untyped o.parseOptions (tokenize o.keepComments source).tokens
    have options : ({ o with types := false } : CompileOptions).parseOptions =
      { o.parseOptions with types := false } := rfl
    unfold compile
    dsimp only
    rw [options, parsed]
    exact congrArg (· >>= _) (script _)

end MapScript
