import MapScript.Proofs.Descendant
import MapScript.Proofs.Unrolling
import MapScript.Proofs.Words
import Mathlib.Data.List.Chain

/-!
# The shape of the trees that the parser builds

Nodes have one type, so nothing in the type keeps a statement out of an expression. The parser
keeps the two apart: whatever the tokens are, also when it recovers from errors or gives up, every
list of statements holds statements only, every list of parts holds parts of expressions only, and
a link stands after something that it can be a link of.

The rules are followed one by one. Each says what kind of nodes it yields when the places inside
yield the kind of nodes that belongs there; nothing is said of the state but its options.
-/
namespace MapScript

namespace Node

/-- The nodes that can stand in a list of statements. -/
def isStatement : Node → Bool
  | .globals _ | .varDecl _ _ _ _ _ | .assign _ _ _ | .function _ _ _ _ _ | .doBlock _ _
  | .returnStmt _ | .ifStmt _ _ _ | .call _ _ _ | .forStmt _ _ _ _ | .loop _ _ | .exitWhen _
  | .struct _ _ | .expect _ | .exprStmt _ | .comment _ | .instruction _ _ | .debug => true
  | _ => false

/-- The nodes that can stand among the parts of an expression. -/
def isPart : Node → Bool
  | .identifier _ | .member _ _ | .literal _ _ | .operator _ | .call _ _ _ | .property _
  | .index _ | .group _ | .array _ | .object _ | .doBlock _ _ => true
  | _ => false

/-- A property or an index, which continues what stands before it. -/
def isLink : Node → Bool
  | .property _ | .index _ => true
  | _ => false

end Node

def StatementList (nodes : List Node) : Prop := ∀ n ∈ nodes, n.isStatement

/-- The parts of an expression. A link never comes first and never directly after an operator. -/
structure ExpressionList (nodes : List Node) : Prop where
  parts : ∀ n ∈ nodes, n.isPart
  first : ∀ n ∈ nodes.head?, n.isLink = false
  attached : nodes.IsChain fun before n => n.isLink → before.symbol? = none

/-- Arguments, items and operands: each is one part, but no link, or an expression of several. -/
def ArgumentList (nodes : List Node) : Prop :=
  ∀ n ∈ nodes, (n.isPart ∧ n.isLink = false) ∨ ∃ parts, n = .expr parts

namespace Node

/-- Each list that a node holds is of its kind. Types are there only if they are recorded, and
instructions only if they are taken. -/
def WellFormed (o : ParseOptions) : Node → Prop
  | .globals body => StatementList body
  | .varDecl _ type _ _ init => (type.isSome → o.types) ∧ ExpressionList init
  | .assign target op value =>
      ExpressionList target ∧ op ∈ assignmentOperators ∧ ExpressionList value
  | .function _ params returnType _ body =>
      (∀ p ∈ params, p.type.isSome → o.types) ∧ (returnType.isSome → o.types) ∧
        StatementList body
  | .doBlock _ body => StatementList body
  | .returnStmt value => ExpressionList value
  | .ifStmt test body otherwise =>
      ExpressionList test ∧ StatementList body ∧ ∀ nodes ∈ otherwise, StatementList nodes
  | .call callee _ args =>
      (callee ≠ [] ∧ ExpressionList callee ∧ ∀ n ∈ callee, n.symbol? = none) ∧ ArgumentList args
  | .member _ chain => chain ≠ [] ∧ ∀ n ∈ chain, n.isLink
  | .index parts => ExpressionList parts
  | .forStmt _ first last body => ExpressionList first ∧ ExpressionList last ∧ StatementList body
  | .loop exit body => (∀ condition ∈ exit, ExpressionList condition) ∧ StatementList body
  | .exitWhen condition => ExpressionList condition
  | .struct _ body => StatementList body
  | .expect condition => ExpressionList condition
  | .exprStmt parts => parts ≠ [] ∧ ExpressionList parts
  | .expr parts => 2 ≤ parts.length ∧ ExpressionList parts
  | .group body => ExpressionList body
  | .array items => ArgumentList items
  | .object fields => ∀ field ∈ fields, ExpressionList field.2
  | .instruction op operands =>
      o.asm ∧ (Instruction.find? op).isSome ∧ ArgumentList operands
  | .property _ | .literal _ _ | .identifier _ | .operator _ | .comment _ | .debug => True

end Node

/-- Every list in the tree, at every depth, is of its kind. -/
def Tree.WellShaped (o : ParseOptions) (tree : Tree) : Prop :=
  StatementList tree.body ∧ Everywhere (Node.WellFormed o) tree.body

theorem StatementList.append {nodes others : List Node} (h : StatementList nodes)
    (ho : StatementList others) : StatementList (nodes ++ others) :=
  List.forall_mem_append.mpr ⟨h, ho⟩

namespace ExpressionList
variable {nodes others : List Node}

theorem nil : ExpressionList [] where
  parts _ hn := by cases hn
  first _ hn := by cases hn
  attached := .nil

theorem singleton {n : Node} (hp : n.isPart) (hl : n.isLink = false) : ExpressionList [n] := by
  refine ⟨?_, ?_, .singleton n⟩
  · intro m hm
    rwa [List.mem_singleton.mp hm]
  · intro m hm
    rwa [← Option.some.inj hm]

theorem append (h : ExpressionList nodes) (ho : ExpressionList others) :
    ExpressionList (nodes ++ others) := by
  refine ⟨List.forall_mem_append.mpr ⟨h.parts, ho.parts⟩, ?_, ?_⟩
  · intro n hn
    rw [List.head?_append] at hn
    cases hh : nodes.head? with
    | none =>
        rw [hh, Option.none_or] at hn
        exact ho.first n hn
    | some m =>
        rw [hh, Option.some_or] at hn
        exact h.first n (hh ▸ hn)
  · refine List.isChain_append.mpr ⟨h.attached, ho.attached, ?_⟩
    -- What comes first in the second list is no link.
    intro m _ n hn hl
    rw [ho.first n hn] at hl
    cases hl

/-- A link can follow where no operator stands. -/
theorem append_link {n : Node} (h : ExpressionList nodes) (hne : nodes ≠ [])
    (hs : ∀ m ∈ nodes, m.symbol? = none) (hp : n.isPart) :
    ExpressionList (nodes ++ [n]) := by
  refine ⟨List.forall_mem_append.mpr ⟨h.parts, by simpa using hp⟩, ?_, ?_⟩
  · intro m hm
    rw [List.head?_append_of_ne_nil _ hne] at hm
    exact h.first m hm
  · refine List.isChain_append.mpr ⟨h.attached, .singleton n, ?_⟩
    intro m hm _ _ _
    exact hs m (List.mem_of_getLast? hm)

theorem of_append_left (h : ExpressionList (nodes ++ others)) : ExpressionList nodes := by
  refine ⟨fun n hn => h.parts n (List.mem_append_left _ hn), ?_,
    (List.isChain_append.mp h.attached).1⟩
  intro n hn
  refine h.first n ?_
  rw [List.head?_append, hn]
  rfl

/-- What follows an operator is an expression again. -/
theorem of_append_operator {symbol : String}
    (h : ExpressionList (nodes ++ .operator symbol :: others)) : ExpressionList others := by
  have chain := (List.isChain_append.mp h.attached).2.1
  refine ⟨fun n hn => h.parts n (by simp [hn]), ?_, chain.tail⟩
  intro n hn
  cases others with
  | nil => cases hn
  | cons m others =>
      cases Option.some.inj hn
      have hl := (List.isChain_cons_cons.mp chain).1
      cases hm : n.isLink with
      | false => rfl
      | true => cases hl hm

end ExpressionList

theorem splitAssignment?_eq_some {parts target value : List Node} {op : String}
    (h : splitAssignment? parts = some (target, op, value)) :
    parts = target ++ .operator op :: value ∧ op ∈ assignmentOperators := by
  fun_induction splitAssignment? parts generalizing target with
  | case1 => cases h
  | case2 node nodes symbol hs =>
      cases h
      obtain ⟨hs, ho⟩ := Option.filter_eq_some_iff.mp hs
      cases node with
      | operator symbol =>
          cases hs
          exact ⟨rfl, by simpa using ho⟩
      | _ => cases hs
  | case3 node nodes hs ih =>
      obtain ⟨⟨t, o, v⟩, hr, he⟩ := Option.map_eq_some_iff.mp h
      cases he
      obtain ⟨hp, ho⟩ := ih hr
      exact ⟨by rw [hp]; rfl, ho⟩

/-- Under these options the parser yields only values with `Q`. -/
def Yields {α : Type} (o : ParseOptions) (p : Parser α) (Q : α → Prop) : Prop :=
  ∀ s : ParserState, s.options = o → Q (p s).1

section
variable {α β : Type} {o : ParseOptions} {p : Parser α} {f : α → Parser β} {P : α → Prop}
variable {Q : β → Prop}

theorem Yields.bind [h : Evolving p] (hp : Yields o p P) (hf : ∀ a, P a → Yields o (f a) Q) :
    Yields o (p >>= f) Q := by
  intro s hs
  exact hf _ (hp s hs) _ ((h.evolves s).options.trans hs)

/-- Nothing needs to be known of the value of `p`. -/
theorem Yields.after [Evolving p] (hf : ∀ a, Yields o (f a) Q) : Yields o (p >>= f) Q :=
  Yields.bind (P := fun _ => True) (fun _ _ => trivial) fun a _ => hf a

theorem yields_pure {a : α} (h : P a) : Yields o (pure a) P := fun _ _ => h

theorem Yields.ite {c : Prop} [Decidable c] {q : Parser α} (hp : c → Yields o p P)
    (hq : ¬ c → Yields o q P) : Yields o (if c then p else q) P := by
  split
  · exact hp ‹_›
  · exact hq ‹_›

/-- What every pass keeps of the value, a repetition keeps. -/
theorem Yields.repeated {pass : α → Parser (Parser.Pass α)} [h : ∀ a, Evolving (pass a)] {a : α}
    (hp : ∀ a, P a → Yields o (pass a) fun r => P r.value) (ha : P a) :
    Yields o (Parser.repeated pass a) P := by
  intro s hs
  fun_induction Parser.repeated pass a s with
  | case1 a s b next run =>
      have hb := hp a ha s hs
      rwa [run] at hb
  | case2 a s b next run lt ih =>
      have hb := hp a ha s hs
      have ho := ((h a).evolves s).options
      rw [run] at hb ho
      exact ih hb (ho.trans hs)
  | case3 a s b next run lt =>
      have hb := hp a ha s hs
      rwa [run] at hb

end

section
variable (o : ParseOptions) (nodes : List Node)

def Parts : Prop := ExpressionList nodes ∧ Everywhere (Node.WellFormed o) nodes

def Statements : Prop := StatementList nodes ∧ Everywhere (Node.WellFormed o) nodes

def Arguments : Prop := ArgumentList nodes ∧ Everywhere (Node.WellFormed o) nodes

def Links : Prop := (∀ n ∈ nodes, n.isLink) ∧ Everywhere (Node.WellFormed o) nodes

/-- An operand, with what has been read after it. -/
structure Operand : Prop where
  parts : Parts o nodes
  nonempty : nodes ≠ []
  plain : ∀ n ∈ nodes, n.symbol? = none

end

section
variable {o : ParseOptions} {nodes others : List Node} {n : Node}

theorem Parts.nil : Parts o [] := ⟨.nil, everywhere_nil⟩

theorem Parts.append (h : Parts o nodes) (ho : Parts o others) : Parts o (nodes ++ others) :=
  ⟨h.1.append ho.1, everywhere_append.mpr ⟨h.2, ho.2⟩⟩

theorem Parts.single (hp : n.isPart) (hl : n.isLink = false) (hw : n.WellFormed o)
    (hc : Everywhere (Node.WellFormed o) n.children) : Parts o [n] :=
  ⟨.singleton hp hl, by simp [hw, hc]⟩

theorem Operand.single (hp : n.isPart) (hl : n.isLink = false) (hs : n.symbol? = none)
    (hw : n.WellFormed o) (hc : Everywhere (Node.WellFormed o) n.children) : Operand o [n] where
  parts := .single hp hl hw hc
  nonempty := by simp
  plain m hm := by rwa [List.mem_singleton.mp hm]

theorem Operand.append_link (h : Operand o nodes) (hl : Links o [n]) :
    Operand o (nodes ++ [n]) := by
  have hn : n.isLink := hl.1 n (by simp)
  have hp : n.isPart ∧ n.symbol? = none := by
    cases n with
    | property _ | index _ => exact ⟨rfl, rfl⟩
    | _ => cases hn
  refine ⟨⟨h.parts.1.append_link h.nonempty h.plain hp.1,
    everywhere_append.mpr ⟨h.parts.2, hl.2⟩⟩, by simp, ?_⟩
  intro m hm
  rcases List.mem_append.mp hm with hm | hm
  · exact h.plain m hm
  · rw [List.mem_singleton.mp hm]
    exact hp.2

theorem Statements.nil : Statements o [] := ⟨fun _ hn => (List.not_mem_nil hn).elim, everywhere_nil⟩

theorem Statements.append (h : Statements o nodes) (ho : Statements o others) :
    Statements o (nodes ++ others) :=
  ⟨h.1.append ho.1, everywhere_append.mpr ⟨h.2, ho.2⟩⟩

theorem Statements.single (hs : n.isStatement) (hw : n.WellFormed o)
    (hc : Everywhere (Node.WellFormed o) n.children) : Statements o [n] :=
  ⟨fun m hm => by rwa [List.mem_singleton.mp hm], by simp [hw, hc]⟩

theorem Arguments.nil : Arguments o [] := ⟨fun _ hn => (List.not_mem_nil hn).elim, everywhere_nil⟩

/-- One part is an argument by itself, and several parts make one. -/
theorem Arguments.append_ofParts {parts : List Node} (h : Arguments o nodes) (hp : Parts o parts)
    (hne : parts ≠ []) : Arguments o (nodes ++ [.ofParts parts]) := by
  suffices ha : Arguments o [.ofParts parts] from
    ⟨List.forall_mem_append.mpr ⟨h.1, ha.1⟩, everywhere_append.mpr ⟨h.2, ha.2⟩⟩
  cases parts with
  | nil => exact absurd rfl hne
  | cons first rest =>
      cases rest with
      | nil =>
          refine ⟨?_, hp.2⟩
          intro m hm
          rw [List.mem_singleton.mp hm]
          exact .inl ⟨hp.1.parts first (by simp), hp.1.first first rfl⟩
      | cons second rest =>
          constructor
          · intro m hm
            rw [List.mem_singleton.mp hm]
            exact .inr ⟨_, rfl⟩
          · rw [everywhere_cons]
            exact ⟨⟨⟨by simp, hp.1⟩, hp.2⟩, everywhere_nil⟩

end

/-- What is read in a place. -/
def Place.Yielded (o : ParseOptions) : Place → Reading → Prop
  | .expression _, reading => Parts o reading.1
  | .statements _ _, reading => Statements o reading.1
  | .condition _, reading => Statements o reading.1

namespace Parser

section
variable {o : ParseOptions}

theorem awaited_parts {parts : List Node} (h : Operand o parts) : Parts o (awaited parts) := by
  unfold awaited
  split
  · have hw := everywhere_cons.mp h.parts.2
    exact .single rfl rfl hw.1.1 hw.1.2
  · have ha : Parts o [.operator "await"] := .single rfl rfl trivial everywhere_nil
    exact ha.append h.parts

theorem framed_yields {α : Type} {body : Parser α} [Evolving body] {P : α → Prop}
    (h : Yields o body P) : Yields o (framed body) fun r => P r.1 := by
  intro s hs
  exact h _ hs

theorem single_yields {n : Node} {P : List Node → Prop} (h : P [n]) :
    Yields o (single n) fun r => ∀ parts ∈ r, P parts := by
  refine Yields.after fun _ => yields_pure ?_
  rintro parts ⟨⟩
  exact h

theorem some_yields {α : Type} {p : Parser α} [Evolving p] {P Q : α → Prop} (h : Yields o p P)
    (imp : ∀ a, P a → Q a) : Yields o (return some (← p)) fun r => ∀ a ∈ r, Q a := by
  refine Yields.bind h fun a ha => yields_pure ?_
  rintro b ⟨⟩
  exact imp a ha

theorem typedName_yields (o : ParseOptions) :
    Yields o typedName fun typed => typed.type.isSome → o.types := by
  intro s hs
  have type : ((typedName s).1).type =
      if (s.current.kind == .identifier && s.beforeName && s.options.types) = true then
        some s.current.word else none := by
    unfold typedName
    dsimp only
    rw [run_get_bind]
    split <;> rfl
  rw [type, ← hs]
  split
  · intro _
    simp_all
  · intro h
    cases h

theorem paramList_yields (o : ParseOptions) :
    Yields o paramList fun params => ∀ p ∈ params, p.type.isSome → o.types := by
  have none : ∀ p ∈ ([] : List Param), p.type.isSome → o.types :=
    fun _ hp => (List.not_mem_nil hp).elim
  have list : Yields o params fun params => ∀ p ∈ params, p.type.isSome → o.types := by
    unfold params
    refine Yields.after fun nothing => Yields.ite (fun _ => yields_pure none) fun _ => ?_
    refine Yields.repeated (fun params hp => ?_) none
    unfold paramPass
    refine Yields.after fun aborted => Yields.ite (fun _ => yields_pure hp) fun _ => ?_
    refine Yields.after fun t => Yields.ite (fun _ => ?_) fun _ => yields_pure hp
    refine Yields.bind (typedName_yields o) fun typed ht => ?_
    have all : ∀ p ∈ params ++ [⟨typed.name, typed.type⟩], p.type.isSome → o.types :=
      List.forall_mem_append.mpr ⟨hp, by simpa using ht⟩
    exact Yields.after fun comma => Yields.ite (fun _ => yields_pure all) fun _ => yields_pure all
  unfold paramList
  refine Yields.after fun opened => Yields.ite (fun _ => ?_) fun _ => ?_
  · exact Yields.bind list fun params hp => Yields.after fun _ => yields_pure hp
  · exact Yields.after fun takes => Yields.ite (fun _ => list) fun _ => yields_pure none

theorem returnType_yields (o : ParseOptions) :
    Yields o returnType fun type => type.isSome → o.types := by
  have none : (Option.none : Option String).isSome → o.types := fun h => by cases h
  unfold returnType
  refine Yields.after fun returns => Yields.ite (fun _ => ?_) fun _ => yields_pure none
  intro s hs
  rw [run_get_bind]
  split
  · change (if s.options.types = true then some s.current.word else Option.none).isSome → o.types
    rw [hs]
    split
    · exact fun _ => ‹_›
    · exact none
  · exact none

theorem assign_statements {parts target value : List Node} {op : String} (h : Parts o parts)
    (hs : splitAssignment? parts = some (target, op, value)) :
    Statements o [.assign target op value] ∧ Parts o value := by
  obtain ⟨rfl, ho⟩ := splitAssignment?_eq_some hs
  have hw := everywhere_append.mp h.2
  have hv : Parts o value := ⟨h.1.of_append_operator, (everywhere_cons.mp hw.2).2⟩
  refine ⟨.single rfl ⟨h.1.of_append_left, ho, hv.1⟩ ?_, hv⟩
  exact everywhere_append.mpr ⟨hw.1, hv.2⟩

theorem bareVariable_statements {init : List Node} (name : String) (h : Parts o init) :
    Statements o [.bareVariable name init] :=
  .single rfl ⟨fun ht => (by cases ht), h.1⟩ h.2

theorem ofStatementParts_statements (scope : Scope) {parts : List Node} (h : Parts o parts)
    (hne : parts ≠ []) : Statements o [.ofStatementParts scope parts] := by
  unfold Node.ofStatementParts
  split
  · rename_i target op value hs
    obtain ⟨ha, hv⟩ := assign_statements h hs
    unfold Node.ofAssignment
    split
    · split
      · exact bareVariable_statements _ hv
      · exact ha
    · exact ha
  · have he : Statements o [.exprStmt parts] := .single rfl ⟨hne, h.1⟩ h.2
    unfold Node.ofExpression
    split
    · split
      · exact bareVariable_statements _ .nil
      · exact he
    · exact ⟨by simp [StatementList, Node.isStatement], h.2⟩
    · exact ⟨by simp [StatementList, Node.isStatement], h.2⟩
    · exact he

theorem ofLoopBody_statements {body : List Node} (h : Statements o body) :
    Statements o [.ofLoopBody body] := by
  unfold Node.ofLoopBody
  split
  · rename_i condition body
    have hw := everywhere_cons.mp h.2
    refine .single rfl ⟨?_, fun n hn => h.1 n (List.mem_cons_of_mem _ hn)⟩ ?_
    · rintro c ⟨⟩
      exact hw.1.1
    · exact everywhere_append.mpr ⟨hw.1.2, hw.2⟩
  · refine .single rfl ⟨fun c hc => (by cases hc), h.1⟩ ?_
    exact everywhere_append.mpr ⟨everywhere_nil, h.2⟩

end

section
variable {o : ParseOptions} {nested : PlaceReader} [∀ place, Evolving (nested place)]
variable (hn : ∀ place, Yields o (nested place) (place.Yielded o))
include hn

theorem expression_yields (stops : List Stop) : Yields o (expression nested stops) (Parts o) :=
  Yields.bind (hn (.expression stops)) fun _ h => yields_pure h

omit [∀ place, Evolving (nested place)] in
theorem block_yields (opener : Span) (scope : Scope) (closers : List Stop) :
    Yields o (block nested opener scope closers) fun r => Statements o r.1 := by
  intro s hs
  have inside := hn (.statements scope closers) { s with openers := opener :: s.openers } hs
  rw [run_block]
  generalize nested (.statements scope closers) { s with openers := opener :: s.openers } = r
    at inside
  obtain ⟨⟨body, _ | stop⟩, next⟩ := r
  · exact inside
  · exact inside

theorem blockBody_yields (opener : Span) (scope : Scope) (closers : List Stop) :
    Yields o (blockBody nested opener scope closers) (Statements o) :=
  Yields.bind (block_yields hn opener scope closers) fun _ h => yields_pure h

theorem link?_yields : Yields o (link? nested) fun link => ∀ n ∈ link, Links o [n] := by
  unfold link?
  refine Yields.after fun moved => Yields.ite (fun _ => ?_) fun _ => ?_
  · refine Yields.after fun t => Yields.ite (fun _ => ?_) fun _ => ?_
    · refine Yields.after fun _ => yields_pure ?_
      rintro n ⟨⟩
      exact ⟨by simp [Node.isLink], by simp [Node.WellFormed, Node.children]⟩
    · refine Yields.after fun _ => yields_pure ?_
      rintro n ⟨⟩
  · refine Yields.after fun opened => Yields.ite (fun _ => ?_) fun _ => yields_pure ?_
    · refine Yields.bind (expression_yields hn _) fun index hi => ?_
      refine Yields.after fun _ => yields_pure ?_
      rintro n ⟨⟩
      exact ⟨by simp [Node.isLink], everywhere_cons.mpr ⟨hi, everywhere_nil⟩⟩
    · rintro n ⟨⟩

theorem argumentPass_yields
    (stops : List Stop) (closer : Token → Bool) (missing : Expectation) {args : List Node}
    (ha : Arguments o args) :
    Yields o (argumentPass nested stops closer missing args) fun r => Arguments o r.value := by
  unfold argumentPass
  refine Yields.after fun _ => Yields.after fun aborted => ?_
  refine Yields.ite (fun _ => yields_pure ha) fun _ => Yields.after fun closed => ?_
  refine Yields.ite (fun _ => yields_pure ha) fun _ => ?_
  refine Yields.bind (expression_yields hn stops) fun parts hp => ?_
  have hargs : Arguments o (addArgument args parts) := by
    unfold addArgument
    split
    · exact ha
    · exact ha.append_ofParts hp (by simpa using ‹¬ parts.isEmpty = true›)
  refine Yields.after fun _ => Yields.after fun comma => ?_
  exact Yields.ite (fun _ => yields_pure hargs) fun _ => Yields.after fun _ => yields_pure hargs

theorem call_yields {callee : List Node}
    (hc : Operand o callee) : Yields o (call nested callee) fun n => Operand o [n] := by
  refine Yields.after fun _ => ?_
  refine Yields.bind (Yields.repeated (fun args ha => argumentPass_yields hn _ _ _ ha) .nil)
    fun args ha => yields_pure ?_
  exact .single rfl rfl rfl ⟨⟨hc.nonempty, hc.parts.1, hc.plain⟩, ha.1⟩
    (everywhere_append.mpr ⟨hc.parts.2, ha.2⟩)

theorem operandTail_yields {base : Node}
    (hb : Operand o [base]) : Yields o (operandTail nested base) (Operand o) := by
  refine Yields.repeated (fun parts hp => ?_) hb
  unfold postfixPass
  refine Yields.after fun aborted => Yields.ite (fun _ => yields_pure hp) fun _ => ?_
  refine Yields.after fun t => Yields.ite (fun _ => ?_) fun _ => ?_
  · refine Yields.ite (fun _ => yields_pure hp) fun _ => ?_
    exact Yields.bind (call_yields hn hp) fun n h => yields_pure h
  · refine Yields.bind (link?_yields hn) fun link hl => ?_
    cases link with
    | none => exact yields_pure hp
    | some link => exact yields_pure (hp.append_link (hl link rfl))

theorem reference_yields : Yields o (reference nested) (Operand o) := by
  refine Yields.after fun t => Yields.after fun _ => ?_
  have chain : Yields o (repeated (chainPass nested) []) (Links o) := by
    refine Yields.repeated (fun chain hc => ?_) ⟨fun _ hn => (List.not_mem_nil hn).elim, by simp⟩
    unfold chainPass
    refine Yields.after fun aborted => Yields.ite (fun _ => yields_pure hc) fun _ => ?_
    refine Yields.bind (link?_yields hn) fun link hl => ?_
    cases link with
    | none => exact yields_pure hc
    | some link =>
        have h := hl link rfl
        exact yields_pure
          ⟨List.forall_mem_append.mpr ⟨hc.1, h.1⟩, everywhere_append.mpr ⟨hc.2, h.2⟩⟩
  refine Yields.bind chain fun chain hc => operandTail_yields hn ?_
  cases chain with
  | nil => exact .single rfl rfl rfl trivial everywhere_nil
  | cons link links => exact .single rfl rfl rfl ⟨by simp, hc.1⟩ hc.2

theorem group_yields : Yields o (group nested) fun n => Operand o [n] := by
  refine Yields.after fun _ => Yields.bind (expression_yields hn []) fun body hb => ?_
  exact Yields.after fun _ => yields_pure (.single rfl rfl rfl hb.1 hb.2)

theorem array_yields : Yields o (array nested) fun n => Operand o [n] := by
  refine Yields.after fun _ => ?_
  refine Yields.bind (Yields.repeated (fun items hi => argumentPass_yields hn _ _ _ hi) .nil)
    fun items hi => yields_pure ?_
  exact .single rfl rfl rfl hi.1 hi.2

theorem object_yields : Yields o (object nested) fun n => Operand o [n] := by
  refine Yields.after fun _ => ?_
  have all : Yields o (repeated (fieldPass nested) []) fun fields =>
      ∀ field ∈ fields, Parts o field.2 := by
    refine Yields.repeated (fun fields hf => ?_) (fun _ hf => (List.not_mem_nil hf).elim)
    unfold fieldPass
    refine Yields.after fun _ => Yields.after fun aborted => ?_
    refine Yields.ite (fun _ => yields_pure hf) fun _ => Yields.after fun closed => ?_
    refine Yields.ite (fun _ => yields_pure hf) fun _ => Yields.after fun key => ?_
    refine Yields.ite (fun _ => ?_) fun _ => Yields.after fun _ => yields_pure hf
    refine Yields.after fun _ => Yields.after fun _ => ?_
    refine Yields.bind (expression_yields hn _) fun value hv => ?_
    refine Yields.after fun _ => Yields.after fun _ => yields_pure ?_
    exact List.forall_mem_append.mpr ⟨hf, by simpa using hv⟩
  refine Yields.bind all fun fields hf => yields_pure ?_
  exact .single rfl rfl rfl (fun field h => (hf field h).1)
    (everywhere_flatMap.mpr fun field h => (hf field h).2)

theorem await_yields : Yields o (await nested) (Parts o) := by
  refine Yields.after fun _ => Yields.after fun _ => Yields.after fun t => ?_
  refine Yields.ite (fun _ => ?_) fun _ => ?_
  · exact Yields.bind (reference_yields hn) fun parts h => yields_pure (awaited_parts h)
  · exact yields_pure (.single rfl rfl trivial everywhere_nil)

theorem doBlock_yields : Yields o (doBlock nested) fun n => Parts o [n] := by
  refine Yields.after fun t => Yields.after fun _ => ?_
  refine Yields.bind (framed_yields (blockBody_yields hn _ _ _)) fun r h => yields_pure ?_
  exact .single rfl rfl h.1 h.2

theorem wordPart?_yields (t : Token) :
    Yields o (wordPart? nested t) fun r => ∀ parts ∈ r, Parts o parts := by
  unfold wordPart?
  split
  · exact single_yields (.single rfl rfl trivial everywhere_nil)
  · exact single_yields (.single rfl rfl trivial everywhere_nil)
  · exact single_yields (.single rfl rfl trivial everywhere_nil)
  · exact some_yields (await_yields hn) fun _ h => h
  · refine Yields.bind (doBlock_yields hn) fun n h => yields_pure ?_
    rintro parts ⟨⟩
    exact h
  · refine yields_pure ?_
    rintro parts ⟨⟩

theorem operatorPart?_yields
    (t : Token) : Yields o (operatorPart? nested t) fun r => ∀ parts ∈ r, Parts o parts := by
  unfold operatorPart?
  refine Yields.ite (fun _ => yields_pure ?_) fun _ => Yields.ite (fun _ => ?_) fun _ => ?_
  · rintro parts ⟨⟩
  · refine Yields.bind (array_yields hn) fun n h => ?_
    exact some_yields (operandTail_yields hn h) fun _ h => h.parts
  · exact single_yields (.single rfl rfl trivial everywhere_nil)

theorem expressionPart?_yields :
    Yields o (expressionPart? nested) fun r => ∀ parts ∈ r, Parts o parts := by
  unfold expressionPart?
  refine Yields.after fun t => ?_
  split
  · exact some_yields (reference_yields hn) fun _ h => h.parts
  · refine Yields.after fun _ => some_yields (operandTail_yields hn ?_) fun _ h => h.parts
    exact .single rfl rfl rfl trivial everywhere_nil
  · refine Yields.after fun _ => some_yields (operandTail_yields hn ?_) fun _ h => h.parts
    exact .single rfl rfl rfl trivial everywhere_nil
  · exact operatorPart?_yields hn t
  · refine Yields.bind (group_yields hn) fun n h => ?_
    exact some_yields (operandTail_yields hn h) fun _ h => h.parts
  · refine Yields.bind (object_yields hn) fun n h => ?_
    exact some_yields (operandTail_yields hn h) fun _ h => h.parts
  · exact wordPart?_yields hn t
  · refine yields_pure ?_
    rintro parts ⟨⟩

theorem readExpression_yields
    (stops : List Stop) : Yields o (readExpression nested stops) fun r => Parts o r.1 := by
  refine Yields.repeated (fun reading hr => ?_) .nil
  unfold expressionPass
  refine Yields.after fun s => Yields.ite (fun _ => yields_pure hr) fun _ => ?_
  refine Yields.ite (fun _ => yields_pure hr) fun _ => ?_
  refine Yields.bind (expressionPart?_yields hn) fun parts hp => ?_
  cases parts with
  | none => exact fun _ _ => hr
  | some parts => exact yields_pure (hr.append (hp parts rfl))

theorem function_yields : Yields o (function nested) fun n => Statements o [n] := by
  refine Yields.after fun t => Yields.after fun _ => Yields.after fun name => ?_
  refine Yields.bind (paramList_yields o) fun params hp => ?_
  refine Yields.bind (returnType_yields o) fun type ht => Yields.after fun _ => ?_
  refine Yields.bind (framed_yields (blockBody_yields hn _ _ _)) fun r h => yields_pure ?_
  exact .single rfl ⟨hp, ht, h.1⟩ h.2

theorem initializer_yields : Yields o (initializer nested) (Parts o) := by
  refine Yields.after fun equals => Yields.ite (fun _ => ?_) fun _ => yields_pure .nil
  exact expression_yields hn []

theorem variableDecl_yields : Yields o (variableDecl nested) fun n => Statements o [n] := by
  refine Yields.bind (typedName_yields o) fun typed ht => ?_
  refine Yields.bind (initializer_yields hn) fun init hi => yields_pure ?_
  exact .single rfl ⟨ht, hi.1⟩ hi.2

theorem constant_yields : Yields o (constant nested) fun n => Statements o [n] := by
  refine Yields.after fun _ => Yields.after fun t => ?_
  refine Yields.ite (fun _ => function_yields hn) fun _ => ?_
  refine Yields.bind (typedName_yields o) fun typed ht => Yields.after fun t => ?_
  have rest : Yields o (do
      let init ← initializer nested
      return Node.varDecl typed.name typed.type false typed.isArray init)
      fun n => Statements o [n] :=
    Yields.bind (initializer_yields hn) fun init hi => yields_pure (.single rfl ⟨ht, hi.1⟩ hi.2)
  exact Yields.ite (fun _ => Yields.after fun _ => rest) fun _ => rest

theorem expressionStatement_yields
    (scope : Scope) : Yields o (expressionStatement nested scope) (Statements o) := by
  refine Yields.bind (expression_yields hn []) fun parts hp => ?_
  refine Yields.ite (fun _ => ?_) fun hne => ?_
  · exact Yields.after fun _ => yields_pure .nil
  · exact yields_pure (ofStatementParts_statements scope hp (by simpa using hne))

theorem assignment_yields : Yields o (assignment nested) (Statements o) := by
  refine Yields.after fun _ => Yields.bind (expression_yields hn []) fun parts hp => ?_
  split
  · exact yields_pure (assign_statements hp ‹_›).1
  · refine Yields.after fun _ => yields_pure ?_
    split
    · exact .nil
    · exact .single rfl ⟨by simpa using ‹¬ parts.isEmpty = true›, hp.1⟩ hp.2

theorem otherwise_yields (closer : Option (Stop × Span)) :
    Yields o (otherwise nested closer) fun r => ∀ nodes ∈ r, Statements o nodes := by
  have none : ∀ nodes ∈ (Option.none : Option (List Node)), Statements o nodes :=
    fun _ h => by cases h
  unfold otherwise
  split
  · exact yields_pure none
  · refine Yields.ite (fun _ => ?_) fun _ => Yields.ite (fun _ => ?_) fun _ => yields_pure none
    · exact some_yields (blockBody_yields hn _ _ _) fun _ h => h
    · refine Yields.bind (hn (.condition _)) fun reading h => yields_pure ?_
      rintro nodes ⟨⟩
      exact h

theorem readCondition_yields
    (opener : Span) : Yields o (readCondition nested opener) fun r => Statements o r.1 := by
  refine Yields.bind (expression_yields hn []) fun test ht => Yields.after fun _ => ?_
  refine Yields.bind (block_yields hn _ _ _) fun r hb => ?_
  refine Yields.bind (otherwise_yields hn r.2) fun rest hr => yields_pure ?_
  refine .single rfl ⟨ht.1, hb.1, fun nodes h => (hr nodes h).1⟩ ?_
  refine everywhere_append.mpr ⟨everywhere_append.mpr ⟨ht.2, hb.2⟩, ?_⟩
  cases rest with
  | none => exact everywhere_nil
  | some nodes => exact (hr nodes rfl).2

theorem forStmt_yields : Yields o (forStmt nested) fun n => Statements o [n] := by
  refine Yields.after fun t => Yields.after fun _ => Yields.after fun name => ?_
  refine Yields.after fun _ => Yields.bind (expression_yields hn []) fun first hf => ?_
  refine Yields.after fun _ => Yields.bind (expression_yields hn []) fun last hl => ?_
  refine Yields.bind (blockBody_yields hn _ _ _) fun body hb => yields_pure ?_
  refine .single rfl ⟨hf.1, hl.1, hb.1⟩ ?_
  exact everywhere_append.mpr ⟨everywhere_append.mpr ⟨hf.2, hl.2⟩, hb.2⟩

theorem struct_yields : Yields o (struct nested) fun n => Statements o [n] := by
  refine Yields.after fun t => Yields.after fun _ => Yields.after fun name => ?_
  refine Yields.after fun _ => Yields.bind (blockBody_yields hn _ _ _) fun body hb => ?_
  exact yields_pure (.single rfl hb.1 hb.2)

theorem operands_yields : Yields o (repeated (operandPass nested) []) (Arguments o) := by
  refine Yields.repeated (fun operands ho => ?_) .nil
  unfold operandPass
  refine Yields.after fun aborted => Yields.ite (fun _ => yields_pure ho) fun _ => ?_
  refine Yields.bind (expression_yields hn _) fun parts hp => ?_
  refine Yields.ite (fun _ => yields_pure ho) fun hne => ?_
  have all := ho.append_ofParts hp (by simpa using hne)
  exact Yields.after fun comma => Yields.ite (fun _ => yields_pure all) fun _ => yields_pure all

/-- An instruction is read only where one stands. -/
theorem instruction_statements {s : ParserState} (hs : s.options = o) (at_ : s.atInstruction) :
    Statements o [(instruction nested s).1] := by
  simp only [ParserState.atInstruction, Bool.and_eq_true] at at_
  have operands := operands_yields hn s.advance (by simpa using hs)
  refine .single rfl ⟨hs ▸ at_.1.1, ?_, operands.1⟩ operands.2
  rw [Instruction.find?_lowerWord]
  exact at_.1.2

theorem openBlock_yields (scope : Scope) (closers : List Stop) :
    Yields o (openBlock nested scope closers) (Statements o) := by
  refine Yields.after fun t => Yields.after fun _ => ?_
  exact blockBody_yields hn _ _ _

theorem afterKeyword_yields : Yields o (afterKeyword nested) (Parts o) :=
  Yields.after fun _ => expression_yields hn []

theorem wordStatement_yields (scope : Scope) (word : StatementWord) :
    Yields o (wordStatement nested scope word) (Statements o) := by
  cases word with
  | globals =>
      exact Yields.bind (openBlock_yields hn _ _) fun body h => yields_pure (.single rfl h.1 h.2)
  | function => exact Yields.bind (function_yields hn) fun n h => yields_pure h
  | localDecl =>
      exact Yields.after fun _ => Yields.bind (variableDecl_yields hn) fun n h => yields_pure h
  | constant => exact Yields.bind (constant_yields hn) fun n h => yields_pure h
  | set => exact assignment_yields hn
  | returnStmt =>
      exact Yields.bind (afterKeyword_yields hn) fun value h => yields_pure (.single rfl h.1 h.2)
  | ifStmt =>
      refine Yields.after fun t => Yields.after fun _ => ?_
      exact Yields.bind (hn (.condition _)) fun reading h => yields_pure h
  | call => exact Yields.after fun _ => expressionStatement_yields hn scope
  | loop =>
      exact Yields.bind (openBlock_yields hn _ _) fun body h =>
        yields_pure (ofLoopBody_statements h)
  | exitWhen =>
      exact Yields.bind (afterKeyword_yields hn) fun value h => yields_pure (.single rfl h.1 h.2)
  | forStmt => exact Yields.bind (forStmt_yields hn) fun n h => yields_pure h
  | struct => exact Yields.bind (struct_yields hn) fun n h => yields_pure h
  | expect =>
      exact Yields.bind (afterKeyword_yields hn) fun value h => yields_pure (.single rfl h.1 h.2)
  | debug => exact Yields.after fun _ => yields_pure (.single rfl trivial everywhere_nil)
  | expression => exact expressionStatement_yields hn scope

theorem nameStatement_yields
    (scope : Scope) : Yields o (nameStatement nested scope) (Statements o) := by
  intro s hs
  unfold nameStatement
  rw [run_get_bind]
  split
  · exact instruction_statements hn hs ‹_›
  · split
    · exact variableDecl_yields hn s hs
    · exact expressionStatement_yields hn scope s hs

theorem statement?_yields (scope : Scope) :
    Yields o (statement? nested scope) fun r => ∀ nodes ∈ r, Statements o nodes := by
  have none : ∀ nodes ∈ (Option.none : Option (List Node)), Statements o nodes :=
    fun _ h => by cases h
  have expression : Yields o (return some (← expressionStatement nested scope))
      fun r => ∀ nodes ∈ r, Statements o nodes :=
    some_yields (expressionStatement_yields hn scope) fun _ h => h
  unfold statement?
  refine Yields.after fun t => ?_
  split
  · refine Yields.after fun _ => ?_
    split
    · exact some_yields (wordStatement_yields hn scope _) fun _ h => h
    · exact yields_pure none
  · refine Yields.after fun _ => yields_pure ?_
    rintro nodes ⟨⟩
    exact .single rfl trivial everywhere_nil
  · exact some_yields (nameStatement_yields hn scope) fun _ h => h
  · exact expression
  · exact expression
  · exact expression
  · exact expression
  · exact expression
  · exact yields_pure none

theorem readStatements_yields (scope : Scope) (stops : List Stop) :
    Yields o (readStatements nested scope stops) fun r => Statements o r.1 := by
  refine Yields.repeated (fun reading hr => ?_) .nil
  unfold statementPass
  refine Yields.bind (P := fun _ => True) (fun _ _ => trivial) fun s _ => ?_
  refine Yields.ite (fun _ => yields_pure hr) fun _ => ?_
  cases stops.find? (·.accepts s.current) with
  | some stop => exact yields_pure hr
  | none =>
      dsimp only
      split
      · exact Yields.after fun _ => yields_pure hr
      · exact fun _ _ => hr
      · refine Yields.bind (statement?_yields hn scope) fun nodes h => ?_
        cases nodes with
        | none => exact fun _ _ => hr
        | some nodes => exact yields_pure (hr.append (h nodes rfl))

end

end Parser

theorem Place.read_yields (o : ParseOptions) (place : Place) :
    Yields o place.read (place.Yielded o) := by
  refine place.read_induction (P := fun place s r => s.options = o → place.Yielded o r.1) ?_ ?_
  · intro place s _
    cases place with
    | expression stops => exact Parts.nil
    | statements scope stops => exact Statements.nil
    | condition opener => exact Statements.nil
  · intro nested _ hn place s hs
    have hn : ∀ inner, Yields o (nested inner) (inner.Yielded o) := hn
    cases place with
    | expression stops => exact Parser.readExpression_yields hn stops s hs
    | statements scope stops => exact Parser.readStatements_yields hn scope stops s hs
    | condition opener => exact Parser.readCondition_yields hn opener s hs

theorem statements_parse (o : ParseOptions) (tokens : List Token) :
    Statements o (parse o tokens).tree.body := by
  have h : Statements o _ := Place.read_yields o (.statements .block [.endOfFile])
    (.start o (terminated tokens)) rfl
  rw [parse_eq o tokens rfl]
  exact h

/-- Whatever the tokens and the options are, the parser builds a tree of the right shape. -/
theorem parse_wellShaped (o : ParseOptions) (tokens : List Token) :
    (parse o tokens).tree.WellShaped o :=
  statements_parse o tokens

end MapScript
