import MapScript.Proofs.Emission
import MapScript.Proofs.Failing

/-!
# What the prologue holds

The output begins with the definitions that the program relies on. Which these are is decided
while the tree is written, node by node, and a node sees only the one before it. So a helper is
defined exactly if some call in the tree names it and does not stand after a member operator; an
instruction, if it occurs in the tree; and the registers, if there is an instruction or if a
register is named where registers count.

Two parts of a tree are passed over when it is written: the name of a helper that is called, and a
register that an instruction writes to. Nothing is lost with them, since no helper has the name of
a register and an instruction needs the registers in any case.
-/
namespace MapScript

/-- No two helpers have the same name. -/
theorem Helper.eq_of_name : ∀ h ∈ all, ∀ h' ∈ all, h.name = h'.name → h = h' := by decide +kernel

/-- No two instructions have the same name, in any letter case. -/
theorem Instruction.eq_of_name : ∀ i ∈ all, ∀ j ∈ all, sameWord i.name j.name = true → i = j := by
  decide +kernel

/-- Every name of a helper leads to that helper. -/
theorem Helper.find?_eq_some_iff {name : String} {h : Helper} :
    find? name = some h ↔ h ∈ all ∧ (name = h.name ∨ name ∈ h.aliases) := by
  have unique : ∀ h ∈ all, ∀ name ∈ h.name :: h.aliases, find? name = some h := by decide +kernel
  constructor
  · intro found
    refine ⟨List.mem_of_find?_eq_some found, ?_⟩
    unfold find? at found
    have answers := List.find?_some found
    rw [answersTo, Bool.or_eq_true, beq_iff_eq, List.contains_iff_mem] at answers
    exact answers.imp_left Eq.symm
  · rintro ⟨hm, named⟩
    exact unique h hm name (by simpa using named)

theorem Instruction.find?_eq_some_iff {op : String} {i : Instruction} :
    find? op = some i ↔ i ∈ all ∧ sameWord i.name op = true := by
  constructor
  · intro found
    unfold find? at found
    have same := List.find?_some found
    exact ⟨List.mem_of_find?_eq_some found, same⟩
  · rintro ⟨hm, same⟩
    cases found : find? op with
    | none =>
        rw [find?_eq_none.mp found i hm] at same
        cases same
    | some j =>
        unfold find? at found
        have same' := List.find?_some found
        refine congrArg some (eq_of_name j (List.mem_of_find?_eq_some found) i hm ?_)
        rw [sameWord, beq_iff_eq] at same same' ⊢
        rw [same', same]

/-- The name of a helper is no register and has no dot in it. -/
theorem Helper.plain_of_find? {h : Helper} {name : String} (found : find? name = some h) :
    isRegister name = false ∧ '.' ∉ name.toList := by
  have plain : ∀ h ∈ all, ∀ name ∈ h.name :: h.aliases,
      isRegister name = false ∧ '.' ∉ name.toList := by decide +kernel
  obtain ⟨hm, named⟩ := find?_eq_some_iff.mp found
  exact plain h hm name (by simpa using named)

theorem counted?_of_isRegister {name : String} (h : isRegister name = true) :
    Emit.counted? name = none := by
  unfold Emit.counted?
  split
  · rename_i chars
    simp [isRegister, registers, sameWord, chars] at h
  · rfl

namespace Node

/-- The lists of neighbours that a node holds, from left to right. Links and operands are written
without regard to their neighbours, so each of them stands alone. -/
def siblings : Node → List (List Node)
  | .globals body => [body]
  | .varDecl _ _ _ _ init => [init]
  | .assign target _ value => [target, value]
  | .function _ _ _ _ body => [body]
  | .doBlock _ body => [body]
  | .returnStmt value => [value]
  | .ifStmt test body otherwise => test :: body :: otherwise.toList
  | .call callee _ args => [callee, args]
  | .member _ chain => chain.map ([·])
  | .index parts => [parts]
  | .forStmt _ first last body => [first, last, body]
  | .loop exit body => exit.toList ++ [body]
  | .exitWhen condition => [condition]
  | .struct _ body => [body]
  | .expect condition => [condition]
  | .exprStmt parts => [parts]
  | .expr parts => [parts]
  | .group body => [body]
  | .array items => [items]
  | .object fields => fields.map (·.2)
  | .instruction _ operands => operands.map ([·])
  | .property _ | .literal _ _ | .identifier _ | .operator _ | .comment _ | .debug => []

theorem flatten_siblings (n : Node) : n.siblings.flatten = n.children := by
  have alone (nodes : List Node) : (nodes.map ([·])).flatten = nodes := by
    induction nodes with
    | nil => rfl
    | cons n nodes ih => simp [ih]
  cases n with
  | member _ nodes | instruction _ nodes => exact alone nodes
  | ifStmt _ _ otherwise => cases otherwise <;> simp [siblings, children]
  | loop exit _ => cases exit <;> simp [siblings, children]
  | object fields => simp [siblings, children, List.flatMap_def]
  | _ => simp [siblings, children]

theorem prefix_of_chainName? {object full : String} {chain : List Node}
    (h : chainName? object chain = some full) : object.toList <+: full.toList := by
  fun_induction chainName? object chain with
  | case1 object =>
      obtain rfl := Option.some.inj h
      exact List.prefix_rfl
  | case2 object p links ih =>
      refine List.IsPrefix.trans ?_ (ih h)
      simp
  | case3 => cases h

/-- A name without dots has no links. -/
theorem eq_nil_of_chainName? {object full : String} {chain : List Node}
    (h : chainName? object chain = some full) (plain : '.' ∉ full.toList) :
    chain = [] ∧ full = object := by
  cases chain with
  | nil => exact ⟨rfl, (Option.some.inj h).symm⟩
  | cons link links =>
      cases link with
      | property p =>
          have linked : chainName? (object ++ "." ++ p) links = some full := h
          have dotted : '.' ∈ (object ++ "." ++ p).toList := by simp
          exact absurd ((prefix_of_chainName? linked).subset dotted) plain
      | _ => cases h

theorem mem_children_iff {m n : Node} : m ∈ n.children ↔ ∃ list ∈ n.siblings, m ∈ list := by
  rw [← flatten_siblings, List.mem_flatten]

end Node

attribute [local simp] Node.siblings

/-- Each node with the one before it; before the first one stands `before`. -/
def withBefore (before : Option Node) : List Node → List (Option Node × Node)
  | [] => []
  | n :: ns => (before, n) :: withBefore (some n) ns

theorem mem_of_mem_withBefore {ns : List Node} {before b : Option Node} {n : Node}
    (h : (b, n) ∈ withBefore before ns) : n ∈ ns := by
  induction ns generalizing before with
  | nil => cases h
  | cons m ns ih =>
      rcases List.mem_cons.mp h with same | h
      · exact List.mem_cons.mpr (.inl (Prod.mk.inj same).2)
      · exact List.mem_cons_of_mem m (ih h)

theorem exists_mem_withBefore {ns : List Node} {n : Node} (h : n ∈ ns) (before : Option Node) :
    ∃ b, (b, n) ∈ withBefore before ns := by
  induction ns generalizing before with
  | nil => cases h
  | cons m ns ih =>
      rcases List.mem_cons.mp h with rfl | h
      · exact ⟨before, List.mem_cons_self⟩
      · obtain ⟨b, hb⟩ := ih h (some m)
        exact ⟨b, List.mem_cons_of_mem _ hb⟩

/-- The node `n` is one of the nodes or stands inside one of them, at any depth, and `before` is
what stands right before it in the same list. -/
inductive Follows (before : Option Node) (n : Node) : List Node → Prop
  | here {nodes : List Node} : (before, n) ∈ withBefore none nodes → Follows before n nodes
  | inside {m : Node} {nodes list : List Node} : m ∈ nodes → list ∈ m.siblings →
      Follows before n list → Follows before n nodes

theorem occurs_iff_follows {n : Node} {nodes : List Node} :
    Occurs n nodes ↔ ∃ before, Follows before n nodes := by
  constructor
  · intro h
    induction h with
    | here hn =>
        obtain ⟨before, hb⟩ := exists_mem_withBefore hn none
        exact ⟨before, .here hb⟩
    | inside hm _ ih =>
        obtain ⟨before, follows⟩ := ih
        cases follows with
        | here hb =>
            obtain ⟨list, hl, hn⟩ := Node.mem_children_iff.mp (mem_of_mem_withBefore hb)
            obtain ⟨before, hb⟩ := exists_mem_withBefore hn none
            exact ⟨before, .inside hm hl (.here hb)⟩
        | inside hm' hl' follows =>
            obtain ⟨list, hl, hn⟩ := Node.mem_children_iff.mp hm'
            exact ⟨before, .inside hm hl (.inside hn hl' follows)⟩
  · rintro ⟨before, h⟩
    induction h with
    | here hb => exact .here (mem_of_mem_withBefore hb)
    | inside hm hl _ ih =>
        refine .inside hm (ih.mono fun m hm' => ?_)
        exact Node.mem_children_iff.mpr ⟨_, hl, hm'⟩

namespace Piece

@[simp] theorem uses_ofText (text : String) : (ofText text).uses = [] := rfl

@[simp] theorem uses_joined (separator : String) (ps : List Piece) :
    (joined separator ps).uses = ps.flatMap uses := by
  fun_induction joined separator ps with
  | case1 => rfl
  | case2 p => simp
  | case3 p ps _ ih => simp [ih]

end Piece

namespace Emit
variable (o : EmitOptions)

@[simp] theorem uses_valueOrStatement (value : Piece) (c : EmitContext) :
    (valueOrStatement o value c).uses = value.uses := by
  unfold valueOrStatement
  split <;> simp

@[simp] theorem uses_bracedBlock (head body : Piece) (c : EmitContext) :
    (bracedBlock o head body c).uses = head.uses ++ body.uses := by
  simp [bracedBlock]

@[simp] theorem uses_assign (target value : Piece) (op : String) (c : EmitContext) :
    (assign o target op value c).uses = target.uses ++ value.uses := by
  unfold assign
  split <;> simp

@[simp] theorem uses_function (name : String) (params : List Param)
    (returnType : Option String) (isAsync : Bool) (body : Piece) (c : EmitContext) :
    (function o name params returnType isAsync body c).uses = body.uses := by
  simp [function]

@[simp] theorem uses_varDecl (name : String) (type : Option String) (mutable : Bool)
    (value : Option Piece) (c : EmitContext) :
    (varDecl o name type mutable value c).uses = value.toList.flatMap Piece.uses := by
  unfold varDecl
  cases value <;> split <;> simp

theorem mem_uses_name {u : Use} {word : String} :
    u ∈ (Emit.name o word).uses ↔ u = .register ∧ o.asm = true ∧ isRegister word = true := by
  unfold Emit.name
  cases hr : isRegister word with
  | true => cases ha : o.asm <;> simp [counted?_of_isRegister hr]
  | false => split <;> simp

/-- What a node relies on by itself, when `before` stands before it. -/
def ownUses (before : Option Node) : Node → List Use
  | .call callee _ _ => (calledHelper? callee before).toList.map (.helper ·.name)
  | .identifier name => (Emit.name o name).uses
  | .member object _ => (Emit.name o object).uses
  | .instruction op _ =>
    match Instruction.find? op with
    | some i => [.instruction i.name, .register]
    | none => [.unknownInstruction op]
  | _ => []

attribute [local simp] ownUses

/-- Something in the nodes relies on `u`. -/
def Relies (u : Use) (nodes : List Node) : Prop :=
  ∃ before n, Follows before n nodes ∧ u ∈ ownUses o before n

/-- A node relies on `u`, or something inside it does. -/
def ReliesAt (u : Use) (before : Option Node) (n : Node) : Prop :=
  u ∈ ownUses o before n ∨ ∃ list ∈ n.siblings, Relies o u list

theorem relies_iff {u : Use} {nodes : List Node} :
    Relies o u nodes ↔ ∃ p ∈ withBefore none nodes, ReliesAt o u p.1 p.2 := by
  constructor
  · rintro ⟨before, n, follows, hu⟩
    cases follows with
    | here hb => exact ⟨(before, n), hb, .inl hu⟩
    | inside hm hl follows =>
        obtain ⟨b, hb⟩ := exists_mem_withBefore hm none
        exact ⟨(b, _), hb, .inr ⟨_, hl, before, n, follows, hu⟩⟩
  · rintro ⟨⟨b, m⟩, hb, hu | ⟨list, hl, before, n, follows, hu⟩⟩
    · exact ⟨b, m, .here hb, hu⟩
    · exact ⟨before, n, .inside (mem_of_mem_withBefore hb) hl follows, hu⟩

@[simp] theorem relies_nil (u : Use) : ¬ Relies o u [] := by
  simp [relies_iff, withBefore]

@[simp] theorem relies_singleton (u : Use) (n : Node) : Relies o u [n] ↔ ReliesAt o u none n := by
  simp [relies_iff, withBefore]

/-- Where the node is written, the output relies on what the node does. -/
def Declares (n : Node) : Prop :=
  ∀ u c before after, u ∈ (node o c before after n).uses ↔ ReliesAt o u before n

section
variable {o} {ns : List Node} (h : ∀ n ∈ ns, Declares o n) (c : EmitContext) (u : Use)
include h

theorem mem_uses_withBefore (before : Option Node) (tight : Bool) :
    u ∈ (nodes o c before tight ns).uses ↔
      ∃ p ∈ withBefore before ns, ReliesAt o u p.1 p.2 := by
  induction ns generalizing before tight with
  | nil => simp [nodes, withBefore]
  | cons n ns ih =>
      have first := h n (by simp) u c before ns.head?
      have rest (tight : Bool) := ih (fun m hm => h m (by simp [hm])) (some n) tight
      rw [nodes]
      split <;> simp [first, rest, withBefore]

theorem mem_uses_nodes (tight : Bool) : u ∈ (nodes o c none tight ns).uses ↔ Relies o u ns := by
  rw [mem_uses_withBefore h c u none tight, relies_iff]

theorem mem_uses_links :
    u ∈ (links o c ns).uses ↔ ∃ n ∈ ns, ReliesAt o u none n := by
  induction ns with
  | nil => simp [links]
  | cons n ns ih =>
      have first := h n (by simp) u c none none
      have rest := ih fun m hm => h m (by simp [hm])
      rw [links]
      simp [first, rest]

/-- A register that is written to is not read. -/
theorem mem_uses_operandList {destinations : Nat} (hu : destinations = 0 ∨ u ≠ .register) :
    u ∈ (operandList o c destinations ns).flatMap Piece.uses ↔
      ∃ n ∈ ns, ReliesAt o u none n := by
  induction ns generalizing destinations with
  | nil => simp [operandList]
  | cons n ns ih =>
      have first := h n (by simp) u c none none
      have later : destinations - 1 = 0 ∨ u ≠ .register := hu.imp_left (by omega)
      have rest := ih (fun m hm => h m (by simp [hm])) later
      unfold operandList
      rw [List.flatMap_cons, List.mem_append, rest, List.exists_mem_cons_iff]
      refine or_congr ?_ Iff.rfl
      split
      · have read : u ≠ .register := hu.resolve_left (by omega)
        simp [ReliesAt, mem_uses_name, read]
      · exact first

end

theorem mem_uses_fieldList {fields : List (String × List Node)}
    (h : ∀ n ∈ fields.flatMap (·.2), Declares o n) (c : EmitContext) (u : Use) :
    u ∈ (fieldList o c fields).flatMap Piece.uses ↔
      ∃ list ∈ fields.map (·.2), Relies o u list := by
  induction fields with
  | nil => simp [fieldList]
  | cons field fields ih =>
      obtain ⟨key, value⟩ := field
      obtain ⟨here, others⟩ := List.forall_mem_append.mp (List.flatMap_cons ▸ h)
      have inner := mem_uses_nodes here c u true
      have rest := ih others
      rw [fieldList, List.flatMap_cons, List.mem_append, rest]
      simp [inner]

theorem mem_uses_branch {otherwise : Option (List Node)}
    (h : ∀ n ∈ otherwise.getD [], Declares o n) (c : EmitContext) (u : Use) :
    u ∈ (branch o c otherwise).uses ↔ ∃ list ∈ otherwise.toList, Relies o u list := by
  unfold branch
  split
  · simp
  · -- A condition relies on the same things as a statement of its own.
    rename_i test body otherwise
    have whole := h (.ifStmt test body otherwise) (by simp) u c none none
    rw [node] at whole
    simpa using whole
  · rename_i body _
    have inner := mem_uses_nodes h c.block u true
    simpa using inner

/-- The name of a helper relies on nothing. -/
theorem not_relies_of_calledHelper? {callee : List Node} {before : Option Node} {helper : Helper}
    (h : calledHelper? callee before = some helper) (u : Use) : ¬ Relies o u callee := by
  unfold calledHelper? at h
  split at h
  · rename_i n
    split at h
    · cases h
    · obtain ⟨name, named, found⟩ := Option.bind_eq_some_iff.mp h
      obtain ⟨other, plain⟩ := Helper.plain_of_find? found
      rw [relies_singleton]
      cases n with
      | identifier word =>
          obtain rfl := Option.some.inj named
          simp [ReliesAt, mem_uses_name, other]
      | member object chain =>
          obtain ⟨rfl, rfl⟩ := Node.eq_nil_of_chainName? named plain
          simp [ReliesAt, mem_uses_name, other]
      | _ => cases named
  · cases h

/-- The output relies on what a node does if it does so for the nodes inside. -/
theorem declares_of_children {n : Node} (h : ∀ m ∈ n.children, Declares o m) : Declares o n := by
  intro u c before after
  have inner (ns : List Node) (hs : ∀ m ∈ ns, m ∈ n.children) (c : EmitContext) (tight : Bool) :
      u ∈ (nodes o c none tight ns).uses ↔ Relies o u ns :=
    mem_uses_nodes (fun m hm => h m (hs m hm)) c u tight
  unfold ReliesAt
  cases n with
  | globals body | expr body | group body | array body | index body =>
      have body := inner body fun m hm => hm
      rw [node]
      simp [body]
  | exitWhen condition | expect condition =>
      have condition := inner condition fun m hm => hm
      rw [node]
      simp [condition]
  | exprStmt parts =>
      have parts := inner parts fun m hm => hm
      rw [node]
      split <;> simp [parts]
  | varDecl name type mutable isArray init =>
      cases init with
      | nil =>
          rw [node]
          cases isArray <;> simp
      | cons part parts =>
          have init := inner (part :: parts) fun m hm => hm
          rw [node]
          simp [init]
  | assign target op value =>
      have target := inner target (by simp +contextual [Node.children])
      have value := inner value (by simp +contextual [Node.children])
      rw [node]
      simp [target, value]
  | function name params returnType isAsync body =>
      have body := inner body fun m hm => hm
      rw [node]
      simp [body]
  | doBlock isAsync body | struct name body =>
      have body := inner body fun m hm => hm
      rw [node]
      simp [body]
  | returnStmt value =>
      cases value with
      | nil =>
          rw [node]
          simp
      | cons part parts =>
          have value := inner (part :: parts) fun m hm => hm
          rw [node]
          simp [value]
  | ifStmt test body otherwise =>
      have test := inner test (by simp +contextual [Node.children])
      have body := inner body (by simp +contextual [Node.children])
      have rest : u ∈ (branch o c otherwise).uses ↔ ∃ list ∈ otherwise.toList, Relies o u list :=
        mem_uses_branch o (fun m hm => h m (by simp [Node.children, hm])) c u
      rw [node]
      simp [test, body, rest]
  | call callee isAsync args =>
      have target := inner callee (by simp +contextual [Node.children])
      have args := inner args (by simp +contextual [Node.children])
      rw [node]
      cases hc : calledHelper? callee before with
      | none => simp [target, args, hc]
      | some helper =>
          have silent := not_relies_of_calledHelper? o hc u
          simp [args, hc, silent]
  | member object chain =>
      have chain : u ∈ (links o c.inline chain).uses ↔ ∃ n ∈ chain, ReliesAt o u none n :=
        mem_uses_links h c.inline u
      rw [node]
      simp [chain]
  | forStmt i first last body =>
      have first := inner first (by simp +contextual [Node.children])
      have last := inner last (by simp +contextual [Node.children])
      have body := inner body (by simp +contextual [Node.children])
      rw [node]
      simp [first, last, body]
  | loop exit body =>
      have body := inner body (by simp +contextual [Node.children])
      cases exit with
      | none =>
          rw [node]
          simp [body]
      | some exit =>
          have exit := inner exit (by simp +contextual [Node.children])
          rw [node]
          simp [exit, body]
  | object fields =>
      cases fields with
      | nil =>
          rw [node]
          simp
      | cons field fields =>
          have fields := mem_uses_fieldList o h c.inline u
          rw [node, Piece.uses_append, Piece.uses_append, Piece.uses_joined]
          simp [fields]
  | literal kind value =>
      cases kind <;> simp [node]
  | instruction op operands =>
      have operands (destinations : Nat) (hu : destinations = 0 ∨ u ≠ .register) :
          u ∈ (operandList o c.inline destinations operands).flatMap Piece.uses ↔
            ∃ n ∈ operands, ReliesAt o u none n :=
        mem_uses_operandList h c.inline u hu
      rw [node, instruction]
      cases hi : Instruction.find? op with
      | none => simp [operands, hi]
      | some i =>
          by_cases hu : u = .register
          · simp [hu, hi, ownUses]
          · simp [operands, hu, hi]
  | identifier name =>
      rw [node]
      simp
  | property name | operator name | comment name | debug =>
      rw [node]
      simp

theorem declares (n : Node) : Declares o n :=
  n.induction_children fun _ => declares_of_children o

theorem mem_uses_iff (u : Use) (c : EmitContext) (tight : Bool) (ns : List Node) :
    u ∈ (nodes o c none tight ns).uses ↔ Relies o u ns :=
  mem_uses_nodes (fun n _ => declares o n) c u tight

end Emit

/-- A call in the nodes names the helper and does not stand after a member operator. -/
def Helper.CalledIn (h : Helper) (nodes : List Node) : Prop :=
  ∃ before n isAsync args name, Follows before (.call [n] isAsync args) nodes ∧
    before.any Node.isMemberOperator = false ∧
    n.flatName? = some name ∧ (name = h.name ∨ name ∈ h.aliases)

/-- The instruction stands among the nodes, in any letter case. -/
def Instruction.OccursIn (i : Instruction) (nodes : List Node) : Prop :=
  ∃ op operands, Occurs (.instruction op operands) nodes ∧ sameWord i.name op = true

/-- An instruction stands among the nodes, or a register is named there and registers count. -/
def EmitOptions.NeedsRegisters (o : EmitOptions) (nodes : List Node) : Prop :=
  (∃ op operands, Occurs (.instruction op operands) nodes) ∨
    o.asm = true ∧ ∃ name, isRegister name = true ∧
      (Occurs (.identifier name) nodes ∨ ∃ chain, Occurs (.member name chain) nodes)

namespace Emit
variable {o : EmitOptions} {nodes : List Node}

theorem calledHelper?_eq_some_iff {callee : List Node} {before : Option Node} {h : Helper} :
    calledHelper? callee before = some h ↔ ∃ n name, callee = [n] ∧
      before.any Node.isMemberOperator = false ∧ n.flatName? = some name ∧
      Helper.find? name = some h := by
  unfold calledHelper?
  split
  · rename_i n
    split
    · rename_i method
      simp [method]
    · rename_i free
      simp [free, Option.bind_eq_some_iff]
  · rename_i several
    constructor
    · intro none
      cases none
    · rintro ⟨n, -, rfl, -⟩
      exact absurd rfl (several n)

theorem mem_ownUses_helper {before : Option Node} {n : Node} {word : String} :
    .helper word ∈ ownUses o before n ↔ ∃ callee isAsync args h,
      n = .call callee isAsync args ∧ calledHelper? callee before = some h ∧ h.name = word := by
  cases n with
  | call callee isAsync args => simp [ownUses]
  | identifier _ | member _ _ => simp [ownUses, mem_uses_name]
  | instruction op _ => cases hi : Instruction.find? op <;> simp [ownUses, hi]
  | _ => simp [ownUses]

theorem mem_ownUses_instruction {before : Option Node} {n : Node} {word : String} :
    .instruction word ∈ ownUses o before n ↔ ∃ op operands i,
      n = .instruction op operands ∧ Instruction.find? op = some i ∧ i.name = word := by
  cases n with
  | call callee isAsync args => simp [ownUses]
  | identifier _ | member _ _ => simp [ownUses, mem_uses_name]
  | instruction op _ => cases hi : Instruction.find? op <;> simp [ownUses, hi, eq_comm]
  | _ => simp [ownUses]

theorem mem_ownUses_register {before : Option Node} {n : Node} :
    .register ∈ ownUses o before n ↔
      (∃ op operands, n = .instruction op operands ∧ (Instruction.find? op).isSome) ∨
      o.asm = true ∧ ∃ name, isRegister name = true ∧
        (n = .identifier name ∨ ∃ chain, n = .member name chain) := by
  cases n with
  | call callee isAsync args => simp [ownUses]
  | identifier _ | member _ _ => simp [ownUses, mem_uses_name]
  | instruction op _ => cases hi : Instruction.find? op <;> simp [ownUses, hi]
  | _ => simp [ownUses]

theorem relies_helper_iff {h : Helper} (hm : h ∈ Helper.all) :
    Relies o (.helper h.name) nodes ↔ h.CalledIn nodes := by
  constructor
  · rintro ⟨before, n, follows, hu⟩
    obtain ⟨callee, isAsync, args, h', rfl, called, same⟩ := mem_ownUses_helper.mp hu
    obtain ⟨n, name, rfl, free, flat, found⟩ := calledHelper?_eq_some_iff.mp called
    obtain ⟨hm', answers⟩ := Helper.find?_eq_some_iff.mp found
    obtain rfl := Helper.eq_of_name h' hm' h hm same
    exact ⟨before, n, isAsync, args, name, follows, free, flat, answers⟩
  · rintro ⟨before, n, isAsync, args, name, follows, free, flat, answers⟩
    have found : Helper.find? name = some h := Helper.find?_eq_some_iff.mpr ⟨hm, answers⟩
    have called := calledHelper?_eq_some_iff.mpr ⟨n, name, rfl, free, flat, found⟩
    exact ⟨before, _, follows, mem_ownUses_helper.mpr ⟨[n], isAsync, args, h, rfl, called, rfl⟩⟩

theorem relies_instruction_iff {i : Instruction} (hi : i ∈ Instruction.all) :
    Relies o (.instruction i.name) nodes ↔ i.OccursIn nodes := by
  constructor
  · rintro ⟨before, n, follows, hu⟩
    obtain ⟨op, operands, j, rfl, found, same⟩ := mem_ownUses_instruction.mp hu
    obtain ⟨hj, word⟩ := Instruction.find?_eq_some_iff.mp found
    obtain rfl := Instruction.eq_of_name j hj i hi (by rw [sameWord, same, beq_self_eq_true])
    exact ⟨op, operands, occurs_iff_follows.mpr ⟨before, follows⟩, word⟩
  · rintro ⟨op, operands, occurs, word⟩
    obtain ⟨before, follows⟩ := occurs_iff_follows.mp occurs
    have found := Instruction.find?_eq_some_iff.mpr ⟨hi, word⟩
    exact ⟨before, _, follows, mem_ownUses_instruction.mpr ⟨op, operands, i, rfl, found, rfl⟩⟩

theorem relies_register_iff (known : ∀ op operands, Occurs (.instruction op operands) nodes →
      ∃ i ∈ Instruction.all, sameWord i.name op = true) :
    Relies o .register nodes ↔ o.NeedsRegisters nodes := by
  constructor
  · rintro ⟨before, n, follows, hu⟩
    have occurs : Occurs n nodes := occurs_iff_follows.mpr ⟨before, follows⟩
    rcases mem_ownUses_register.mp hu with
      ⟨op, operands, rfl, -⟩ | ⟨asm, name, register, rfl | ⟨chain, rfl⟩⟩
    · exact .inl ⟨op, operands, occurs⟩
    · exact .inr ⟨asm, name, register, .inl occurs⟩
    · exact .inr ⟨asm, name, register, .inr ⟨chain, occurs⟩⟩
  · have relies {n : Node} (occurs : Occurs n nodes)
        (hu : ∀ before, .register ∈ ownUses o before n) : Relies o .register nodes := by
      obtain ⟨before, follows⟩ := occurs_iff_follows.mp occurs
      exact ⟨before, n, follows, hu before⟩
    rintro (⟨op, operands, occurs⟩ | ⟨asm, name, register, occurs | ⟨chain, occurs⟩⟩)
    · obtain ⟨i, hi, word⟩ := known op operands occurs
      have found := Instruction.find?_eq_some_iff.mpr ⟨hi, word⟩
      refine relies occurs fun _ => mem_ownUses_register.mpr (.inl ⟨op, operands, rfl, ?_⟩)
      rw [found]
      rfl
    · exact relies occurs fun _ => mem_ownUses_register.mpr (.inr ⟨asm, name, register, .inl rfl⟩)
    · exact relies occurs fun _ =>
        mem_ownUses_register.mpr (.inr ⟨asm, name, register, .inr ⟨chain, rfl⟩⟩)

open Classical in
theorem usedHelpers_eq (c : EmitContext) (tight : Bool) :
    usedHelpers (Emit.nodes o c none tight nodes).uses =
      Helper.all.filter fun h => h.CalledIn nodes :=
  List.filter_congr fun h hm => by
    rw [decide_eq_decide, mem_uses_iff, relies_helper_iff hm]

open Classical in
theorem usedInstructions_eq (c : EmitContext) (tight : Bool) :
    usedInstructions (Emit.nodes o c none tight nodes).uses =
      Instruction.all.filter fun i => i.OccursIn nodes :=
  List.filter_congr fun i hi => by
    rw [decide_eq_decide, mem_uses_iff, relies_instruction_iff hi]

/-- An instruction needs the registers anyway. -/
theorem needsRegisters_iff (c : EmitContext) (tight : Bool)
    (known : ∀ op operands, Occurs (.instruction op operands) nodes →
      ∃ i ∈ Instruction.all, sameWord i.name op = true) :
    (.register ∈ (Emit.nodes o c none tight nodes).uses ∨
      usedInstructions (Emit.nodes o c none tight nodes).uses ≠ []) ↔ o.NeedsRegisters nodes := by
  rw [mem_uses_iff, relies_register_iff known]
  refine or_iff_left_of_imp fun some => ?_
  obtain ⟨i, hi⟩ := List.exists_mem_of_ne_nil _ some
  obtain ⟨hm, used⟩ := List.mem_filter.mp hi
  rw [decide_eq_true_iff, mem_uses_iff, relies_instruction_iff hm] at used
  obtain ⟨op, operands, occurs, -⟩ := used
  exact .inl ⟨op, operands, occurs⟩

end Emit

open Classical in
/-- The output defines the helpers that the tree calls and the instructions that occur in it, in
the order of the tables, and the registers if they are needed; the program follows. -/
theorem generate_prologue (o : EmitOptions) (tree : Tree)
    (known : ∀ op operands, Occurs (.instruction op operands) tree.body →
      ∃ i ∈ Instruction.all, sameWord i.name op = true) :
    let helpers := Helper.all.filter fun h => h.CalledIn tree.body
    let instructions := Instruction.all.filter fun i => i.OccursIn tree.body
    ∃ script, generate o tree = .ok script ∧
      script.helpers = helpers.map (·.name) ∧ script.helpers.Nodup ∧
      script.instructions = instructions.map (·.name) ∧ script.instructions.Nodup ∧
      (o.wrap = false → script.code =
        (if o.NeedsRegisters tree.body then registerPrelude ++ "\n" else "") ++
          String.join (instructions.map (·.definition ++ "\n")) ++
          String.join (helpers.map (·.definition ++ "\n")) ++
          (Emit.nodes o .root none true tree.body).text) := by
  intro helpers instructions
  have registers := if_congr (Emit.needsRegisters_iff (o := o) .root true known)
    (rfl : registerPrelude ++ "\n" = _) (rfl : "" = _)
  have distinct : (Helper.all.map (·.name)).Nodup ∧ (Instruction.all.map (·.name)).Nodup := by
    decide +kernel
  unfold generate
  dsimp only
  rw [Emit.unknown?_nodes, flatMap_unlisted_eq_nil known]
  refine ⟨_, rfl, ?_, ?_, ?_, ?_, ?_⟩
  · rw [Emit.usedHelpers_eq]
  · exact distinct.1.sublist (List.filter_sublist.map _)
  · rw [Emit.usedInstructions_eq]
  · exact distinct.2.sublist (List.filter_sublist.map _)
  · intro unwrapped
    dsimp only
    rw [unwrapped, Emit.prologue, registers, Emit.usedHelpers_eq, Emit.usedInstructions_eq]
    rfl

/-- A call after a member operator is a method, also where a helper has its name. -/
theorem generate_prologue_method :
    let o : EmitOptions := ⟨false, false, 4, false⟩
    let tree : Tree := ⟨[.instruction "MOV" [.identifier "ax",
      .call [.identifier "I2S"] false [.identifier "s", .operator ".",
        .call [.identifier "len"] false []]]], false⟩
    (∀ op operands, Occurs (.instruction op operands) tree.body →
        ∃ i ∈ Instruction.all, sameWord i.name op = true) ∧
      ∃ script, generate o tree = .ok script ∧
        script.helpers = ["str"] ∧ script.instructions = ["mov"] ∧
        ∀ h ∈ Helper.all, h.CalledIn tree.body → h.name = "str" := by
  intro o tree
  have listed : ∃ i ∈ Instruction.all, sameWord i.name "MOV" = true := by decide +kernel
  have everywhere : Everywhere (fun n => ∀ op operands, n = .instruction op operands →
      ∃ i ∈ Instruction.all, sameWord i.name op = true) tree.body := by
    simpa [tree, Node.children] using listed
  have known := fun op operands occurs => everywhere _ occurs op operands rfl
  have used : (generate o tree).map (fun script => (script.helpers, script.instructions)) =
      .ok (["str"], ["mov"]) := by decide +kernel
  obtain ⟨script, run, helpers, -⟩ := generate_prologue o tree known
  rw [run] at used
  obtain ⟨strs, movs⟩ := Prod.mk.inj (Except.ok.inj used)
  refine ⟨known, script, run, strs, movs, fun h hm called => ?_⟩
  have mem : h.name ∈ script.helpers := by
    rw [helpers]
    exact List.mem_map.mpr ⟨h, List.mem_filter.mpr ⟨hm, by simpa using called⟩, rfl⟩
  rw [strs] at mem
  exact List.mem_singleton.mp mem

end MapScript
