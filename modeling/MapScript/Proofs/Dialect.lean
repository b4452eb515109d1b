import MapScript.Proofs.Comparing.Settings
import MapScript.Proofs.Failing
import MapScript.Proofs.Naming

/-!
# Programs without instructions

Instructions and registers are an extension of the language. They are told from other names by
their words alone, and the extension is conservative: a source in which no identifier is the name
of an instruction or a register means the same with the extension and without it.

The parser asks for instructions at statements that begin with a name. The output asks for
registers wherever a name is read, and every such name is an identifier of the source.
-/
namespace MapScript

/-- The options with registers or without them. -/
def EmitOptions.withAsm (asm : Bool) (o : EmitOptions) : EmitOptions := { o with asm := asm }

/-- None of the names is a register. -/
abbrev Unregistered (ms : List Mention) : Prop := Named (fun word => isRegister word = false) ms

namespace Emit
variable (o : EmitOptions) (asm : Bool)

@[simp] theorem pad_withAsm (c : EmitContext) : pad (o.withAsm asm) c = pad o c := rfl

@[simp] theorem varDecl_withAsm (name : String) (type : Option String) (mutable : Bool)
    (value : Option Piece) (c : EmitContext) :
    varDecl (o.withAsm asm) name type mutable value c = varDecl o name type mutable value c := rfl

@[simp] theorem function_withAsm (name : String) (params : List Param)
    (returnType : Option String) (isAsync : Bool) (body : Piece) (c : EmitContext) :
    function (o.withAsm asm) name params returnType isAsync body c =
      function o name params returnType isAsync body c := rfl

@[simp] theorem assign_withAsm (target : Piece) (op : String) (value : Piece) (c : EmitContext) :
    assign (o.withAsm asm) target op value c = assign o target op value c := rfl

@[simp] theorem valueOrStatement_withAsm (value : Piece) (c : EmitContext) :
    valueOrStatement (o.withAsm asm) value c = valueOrStatement o value c := rfl

@[simp] theorem bracedBlock_withAsm (head body : Piece) (c : EmitContext) :
    bracedBlock (o.withAsm asm) head body c = bracedBlock o head body c := rfl

@[simp] theorem instruction_withAsm (op : String) (operands : List Piece) (c : EmitContext) :
    instruction (o.withAsm asm) op operands c = instruction o op operands c := rfl

/-- A name that is no register is written in one way. -/
theorem name_withAsm {text : String} (h : isRegister text = false) :
    name (o.withAsm asm) text = name o text := by
  unfold name
  rw [h, Bool.and_false, Bool.and_false]

/-- Nodes without the names of registers are written in one way. -/
theorem written_withAsm :
    (∀ c before after n, Unregistered n.mentions →
      node (o.withAsm asm) c before after n = node o c before after n) ∧
    (∀ c destinations ns, Unregistered (mentionsOf ns) →
      operandList (o.withAsm asm) c destinations ns = operandList o c destinations ns) ∧
    (∀ c fields, Unregistered (mentionsOfFields fields) →
      fieldList (o.withAsm asm) c fields = fieldList o c fields) ∧
    (∀ c before tight ns, Unregistered (mentionsOf ns) →
      nodes (o.withAsm asm) c before tight ns = nodes o c before tight ns) ∧
    (∀ c ns, Unregistered (mentionsOf ns) → links (o.withAsm asm) c ns = links o c ns) ∧
    (∀ c otherwise, Unregistered (mentionsOfOption otherwise) →
      branch (o.withAsm asm) c otherwise = branch o c otherwise) := by
  -- The induction is that of the functions that write nodes and lists of nodes.
  refine node.mutual_induct o _ _ _ _ _ _ ?globals ?bareDecl ?varDecl ?assign ?function ?doBlock
    ?bareReturn ?returnStmt ?ifStmt ?call ?member ?property ?index ?forStmt ?loop ?exitLoop
    ?exitWhen ?struct ?expect ?statement ?inline ?expr ?group ?array ?noFields ?object ?nil
    ?literal ?identifier ?operator ?comment ?instruction ?debug ?noOperands ?operand ?noNodes
    ?silent ?written ?noLinks ?link ?noBranch ?otherwiseIf ?otherwise ?fieldsNil ?field
  case member =>
    intro c before after object chain ih plain
    simp only [Node.mentions, named_name_cons] at plain
    rw [node, node, name_withAsm o asm plain.1, ih plain.2]
  case identifier =>
    intro c before after word plain
    simp only [Node.mentions, named_name_cons] at plain
    rw [node, node, name_withAsm o asm plain.1]
  case literal =>
    intro c before after kind value notNil _
    rw [node, node]
    · exact notNil
    · exact notNil
  case operand =>
    intro c destinations n ns own ih plain
    simp only [mentionsOf_cons, named_append] at plain
    unfold operandList
    rw [ih plain.2]
    congr 1
    cases n with
    | identifier word =>
        cases destinations with
        | zero => exact own plain.1
        | succ k => rfl
    | _ => exact own plain.1
  case silent =>
    intro c before tight n ns piece empty own ih plain
    simp only [mentionsOf_cons, named_append] at plain
    rw [nodes, nodes, own plain.1, if_pos empty, if_pos empty, ih plain.2]
  case written =>
    intro c before tight n ns piece text own ih plain
    simp only [mentionsOf_cons, named_append] at plain
    rw [nodes, nodes, own plain.1, if_neg text, if_neg text, ih plain.2]
  all_goals
    intros
    simp_all [node, nodes, links, operandList, fieldList, branch, Node.mentions, mentionsOfOption,
      mentionsOfFields]

end Emit

theorem generate_withAsm {o : EmitOptions} {tree : Tree}
    (plain : Unregistered (mentionsOf tree.body)) (asm : Bool) :
    generate (o.withAsm asm) tree = generate o tree := by
  have body : Emit.nodes (o.withAsm asm) .root none true tree.body =
      Emit.nodes o .root none true tree.body :=
    (Emit.written_withAsm o asm).2.2.2.1 .root none true tree.body plain
  unfold generate
  rw [body]
  rfl

/-- The word of an instruction or a register, in any letter case. -/
def isMachineWord (word : String) : Bool :=
  (Instruction.all.map (·.name) ++ registers).any (sameWord · word)

theorem isMachineWord_eq_false {word : String} :
    isMachineWord word = false ↔ Instruction.find? word = none ∧ isRegister word = false := by
  rw [Instruction.find?_eq_none, isMachineWord, isRegister, List.any_append, Bool.or_eq_false_iff]
  simp

/-- A parser that takes instructions and one that does not, with none of them ahead. -/
def Settings.dialect : Settings where
  Rel o b o' b' := o' = { o with asm := false } ∧ b' = b
  Apart _ _ := False
  onType := some
  Ahead t := t.kind = .identifier → Instruction.find? t.word = none
  asm _ := .inr fun _ => id
  types := by
    rintro o _ b _ ⟨rfl, rfl⟩ word
    exact (Option.bind_fun_some _).symm
  spend := by
    rintro o _ b _ ⟨rfl, rfl⟩
    exact ⟨rfl, rfl⟩
  first rel out := by rwa [← rel.2]
  part := by
    rintro s _ _ trail last ⟨-, rfl⟩ out left
    exact left out
  apart h _ _ := h
  apart_leaveFrame := id
  apart_leaveBlock := id

/-- Tokens without instructions are read in one way. -/
theorem parse_withoutInstructions (o : ParseOptions) {tokens : List Token}
    (plain : ∀ t ∈ tokens, t.kind = .identifier → Instruction.find? t.word = none) :
    parse { o with asm := false } tokens = parse { o with asm := true } tokens := by
  have ahead (t : Token) (ht : t ∈ terminated tokens) (hk : t.kind = .identifier) :
      Instruction.find? t.word = none :=
    plain t (mem_of_mem_terminated ht (by rw [hk]; decide)) hk
  have start : Settings.dialect.Like (.start { o with asm := true } (terminated tokens))
      (.start { o with asm := false } (terminated tokens)) :=
    ⟨{ o with asm := false }, o.retryBudget, [], rfl, ⟨rfl, rfl⟩, ahead⟩
  have read := Parser.read_copies (c := Settings.dialect.comparison)
    (.statements .block [.endOfFile]) _ _ start
  rw [Comparison.reading_of_some rfl] at read
  rcases run : (Place.statements .block [.endOfFile]).read
    (.start { o with asm := true } (terminated tokens)) with ⟨⟨body, stop⟩, s⟩
  rcases run' : (Place.statements .block [.endOfFile]).read
    (.start { o with asm := false } (terminated tokens)) with ⟨⟨body', stop'⟩, s'⟩
  rw [run, run'] at read
  rcases read with ⟨value, like⟩ | apart
  · obtain ⟨_, _, _, rfl, -⟩ := like
    have same : body' = body := congrArg Prod.fst value
    rw [parse_eq _ _ run, parse_eq _ _ run', same]
    rfl
  · exact apart.elim

/-- A source without the names of instructions and registers compiles to the same with them and
without them: the same output, the same diagnostics, and given up in both cases or in neither. -/
theorem compile_conservative (o : CompileOptions) (source : String)
    (plain : ∀ t ∈ (tokenize o.keepComments source).tokens,
      t.kind = .identifier → isMachineWord t.word = false) :
    ∃ c, compile { o with asm := true } source = .ok c ∧
      compile { o with asm := false } source = .ok c := by
  have parsed : parse ({ o with asm := false } : CompileOptions).parseOptions
        (tokenize o.keepComments source).tokens =
      parse ({ o with asm := true } : CompileOptions).parseOptions
        (tokenize o.keepComments source).tokens :=
    parse_withoutInstructions o.parseOptions fun t ht hk =>
      (isMachineWord_eq_false.mp (plain t ht hk)).1
  have unregistered : Unregistered (mentionsOf (parse ({ o with asm := true } :
      CompileOptions).parseOptions (tokenize o.keepComments source).tokens).tree.body) := by
    intro word named
    rcases parse_named _ _ named with rfl | ⟨t, ht, hk, rfl⟩
    · decide
    · exact (isMachineWord_eq_false.mp (plain t ht hk)).2
  obtain ⟨script, run⟩ := exists_generate_eq_ok (o := o.emitOptions) (unlisted_parse
    ({ o with asm := true } : CompileOptions).parseOptions (tokenize o.keepComments source).tokens)
  have runs (asm : Bool) := (generate_withAsm unregistered asm).trans run
  have first := compile_of_generate (o := { o with asm := true }) (runs true)
  have second := compile_of_generate (o := { o with asm := false }) (parsed ▸ runs false)
  rw [parsed] at second
  exact ⟨_, first, second⟩

/-- Texts, comments and lengths may hold the words, and a name that is missing is none of them. -/
theorem compile_conservative_length :
    let o : CompileOptions := ⟨true, false, true, false, 5⟩
    let source := "set x = \x7bend: \"ax\", k: #ax\x7d // mov ax\nlocal = y\n) call axe(x->adds)"
    (∀ t ∈ (tokenize o.keepComments source).tokens,
        t.kind = .identifier → isMachineWord t.word = false) ∧
      ∃ c, compile { o with asm := true } source = .ok c ∧
        compile { o with asm := false } source = .ok c := by
  intro o source
  have plain : ∀ t ∈ (tokenize o.keepComments source).tokens,
      t.kind = .identifier → isMachineWord t.word = false := by decide +kernel
  exact ⟨plain, compile_conservative o source plain⟩

end MapScript
