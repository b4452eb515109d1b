import MapScript.Proofs.Emission
import MapScript.Proofs.Layout.Lines
import MapScript.Proofs.Prologue
import MapScript.Proofs.Texts

/-!
# The lines of statements

A statement begins on a line of its own. The lines that begin within it are those of the blocks
that it has, one level deeper, and after each block the line that closes it and goes on with the
statement. So the tree alone says which lines there are and how deep they stand; the width of the
indent only says how many blanks that makes.
-/
namespace MapScript

/-- The options with another width of the indent. -/
def EmitOptions.withWidth (width : Nat) (o : EmitOptions) : EmitOptions :=
  { o with indentWidth := width }

/-- The lines of comment that stand over a declaration when types are written. -/
def Node.commentLines : Node → Nat
  | .varDecl _ type _ _ _ => type.toList.length
  | .function _ params returnType _ _ =>
    if params.any (·.type.isSome) || returnType.isSome then
      1 + params.length + returnType.toList.length + 1
    else 0
  | _ => 0

section
variable (types : Bool)

mutual

/-- The depths of the lines that begin within a node on a line of depth `depth`. The body of a
function, a `do`, a branch, a loop or a struct is one level deeper, and the line that closes it is
not. -/
def Node.innerDepths (depth : Nat) : Node → List Nat
  | .globals body => statementDepths depth body
  | .varDecl _ _ _ _ init => partDepths depth init
  | .assign target _ value => partDepths depth target ++ partDepths depth value
  | .function _ _ _ _ body => statementDepths (depth + 1) body ++ [depth]
  | .doBlock _ body => statementDepths (depth + 1) body ++ [depth]
  | .returnStmt value => partDepths depth value
  | .ifStmt test body otherwise =>
    partDepths depth test ++ (statementDepths (depth + 1) body ++ [depth]) ++
      branchDepths depth otherwise
  | .call callee _ args => partDepths depth callee ++ partDepths depth args
  | .member _ chain => partDepths depth chain
  | .index parts => partDepths depth parts
  | .forStmt _ first last body =>
    partDepths depth first ++ partDepths depth last ++
      (statementDepths (depth + 1) body ++ [depth])
  | .loop none body => statementDepths (depth + 1) body ++ [depth]
  | .loop (some exit) body =>
    partDepths depth exit ++ (statementDepths (depth + 1) body ++ [depth])
  | .exitWhen condition => partDepths depth condition
  | .struct _ body => statementDepths (depth + 1) body ++ [depth]
  | .expect condition => partDepths depth condition
  | .exprStmt parts => partDepths depth parts
  | .expr parts => partDepths depth parts
  | .group body => partDepths depth body
  | .array items => partDepths depth items
  | .object fields => fieldDepths depth fields
  | .instruction _ operands => partDepths depth operands
  | .property _ | .literal _ _ | .identifier _ | .operator _ | .comment _ | .debug => []

def partDepths (depth : Nat) : List Node → List Nat
  | [] => []
  | n :: ns => n.innerDepths depth ++ partDepths depth ns

/-- The depths of the lines of statements. Shared declarations have no line of their own. -/
def statementDepths (depth : Nat) : List Node → List Nat
  | [] => []
  | .globals body :: ns => statementDepths depth body ++ statementDepths depth ns
  | n :: ns =>
    List.replicate (if types then n.commentLines else 0) depth ++ depth :: n.innerDepths depth ++
      statementDepths depth ns

/-- A condition that is all of a branch goes on with the line. -/
def branchDepths (depth : Nat) : Option (List Node) → List Nat
  | none => []
  | some [.ifStmt test body otherwise] =>
    partDepths depth test ++ (statementDepths (depth + 1) body ++ [depth]) ++
      branchDepths depth otherwise
  | some body => statementDepths (depth + 1) body ++ [depth]

def fieldDepths (depth : Nat) : List (String × List Node) → List Nat
  | [] => []
  | (_, value) :: fields => partDepths depth value ++ fieldDepths depth fields

end

end

/-- A text that a line can have: only keys and values may have line breaks in them. -/
def Text.Fits (Q : String → Prop) : Text → Prop
  | .key text => BreaksOnlyIn Q text
  | .value _ text => BreaksOnlyIn Q text
  | x => OneLine x.text

/-- A part of an expression, or an expression that is one argument. -/
def Node.isInline : Node → Bool
  | .expr _ => true
  | n => n.isPart

theorem isInline_of_isPart {n : Node} (h : n.isPart) : n.isInline := by
  cases n with
  | expr parts => rfl
  | _ => exact h

theorem ArgumentList.isInline {nodes : List Node} (h : ArgumentList nodes) :
    ∀ n ∈ nodes, n.isInline := by
  intro n hn
  rcases h n hn with ⟨part, -⟩ | ⟨parts, rfl⟩
  · exact isInline_of_isPart part
  · rfl

theorem statementDepths_cons (types : Bool) (depth : Nat) (n : Node) (ns : List Node) :
    statementDepths types depth (n :: ns) =
      statementDepths types depth [n] ++ statementDepths types depth ns := by
  cases n <;> simp [statementDepths]

theorem statementDepths_own {n : Node} (own : ∀ body, n ≠ .globals body) (types : Bool)
    (depth : Nat) : statementDepths types depth [n] =
      List.replicate (if types then n.commentLines else 0) depth ++
        depth :: n.innerDepths types depth := by
  rw [statementDepths, statementDepths, List.append_nil]
  exact own

theorem statementDepths_plain {n : Node} (own : ∀ body, n ≠ .globals body)
    (bare : n.commentLines = 0) (types : Bool) (depth : Nat) :
    statementDepths types depth [n] = depth :: n.innerDepths types depth := by
  rw [statementDepths_own own, bare, ite_self, List.replicate_zero, List.nil_append]

attribute [local simp] Node.innerDepths partDepths statementDepths branchDepths fieldDepths

namespace Emit

theorem oneLine_lowerWord {word : String} (h : OneLine word) : OneLine (lowerWord word) :=
  fun mem => h (mem_of_mem_lowerWord (by decide) mem)

theorem oneLine_docType {type : String} (h : OneLine type) : OneLine (docType type) :=
  docType_cases h (by decide)

theorem oneLine_operatorText {op : String} (h : OneLine op) (before after : Option Node) :
    OneLine (Node.operatorText op before after) :=
  operatorText_cases h before after (by decide)

theorem oneLine_counted? {name rest : String} (h : OneLine name)
    (hc : counted? name = some rest) : OneLine rest :=
  fun mem => h (mem_of_counted? hc mem)

theorem oneLine_name (o : EmitOptions) {word : String} (h : OneLine word) :
    OneLine (name o word).text := by
  unfold name
  split
  · rename_i rest hc
    exact (oneLine_counted? h hc).append (by decide)
  · split
    · exact (by decide : OneLine "__regs.").append (oneLine_lowerWord h)
    · exact h

theorem oneLine_propertyText {word : String} (h : OneLine word) : OneLine (propertyText word) := by
  unfold propertyText
  have dot : OneLine "." := by decide
  split
  · rename_i rest hc
    exact (dot.append (oneLine_counted? h hc)).append (by decide)
  · exact dot.append h

theorem oneLine_intercalate {separator : String} (hs : OneLine separator) {texts : List String}
    (h : ∀ text ∈ texts, OneLine text) : OneLine (String.intercalate separator texts) :=
  intercalate_of_append (by decide) (fun _ _ => OneLine.append) hs h

variable {Q : String → Prop} {o : EmitOptions}

attribute [local simp] Piece.ofText

@[simp] theorem types_withWidth (width : Nat) : (o.withWidth width).types = o.types := rfl

theorem pad_withWidth (width : Nat) (c : EmitContext) :
    pad (o.withWidth width) c = blanks (c.indent * width) := rfl

theorem lays_typeComment {type : Option String} (h : ∀ t ∈ type, OneLine t) (c : EmitContext) :
    Lays Q (fun width => typeComment (o.withWidth width) type c)
      (List.replicate (if o.types then type.toList.length else 0) c.indent) := by
  cases type with
  | none => simpa [typeComment] using lays_nil
  | some type =>
      cases ht : o.types with
      | false => simpa [typeComment, EmitOptions.withWidth, ht] using lays_nil
      | true =>
          have doc : OneLine (braced (docType type)) :=
            (OneLine.append (by decide) (oneLine_docType (h type rfl))).append (by decide)
          have text := ((flows_oneLine (Q := Q) doc).before
            (by decide : OneLine "/** @type ")).ends c.indent (by decide : OneLine " */") rfl
          refine text.congr ?_
          intro width
          simp [typeComment, EmitOptions.withWidth, ht, ← pad_withWidth (o := o),
            String.append_assoc]

theorem lays_paramComments {params : List Param}
    (h : ∀ p ∈ params, OneLine p.name ∧ ∀ t ∈ p.type, OneLine t) (c : EmitContext) :
    Lays Q (fun width => String.join (params.map (paramComment (o.withWidth width) c)))
      (List.replicate params.length c.indent) := by
  induction params with
  | nil => exact lays_nil
  | cons p params ih =>
      obtain ⟨⟨name, type⟩, others⟩ := List.forall_mem_cons.mp h
      have doc : OneLine ((p.type.map docType).getD "*") := by
        cases ht : p.type with
        | none => exact (by decide : OneLine "*")
        | some word => exact oneLine_docType (type word ht)
      have text :
          OneLine (" * @param " ++ braced ((p.type.map docType).getD "*") ++ " " ++ p.name) :=
        ((OneLine.append (by decide) ((OneLine.append (by decide) doc).append (by decide))).append
          (by decide)).append name
      refine ((lays_line text rfl c.indent).append (ih others)).congr ?_
      intro width
      simp [paramComment, ← pad_withWidth (o := o), String.append_assoc]

theorem lays_functionComment {params : List Param} {returnType : Option String}
    (hp : ∀ p ∈ params, OneLine p.name ∧ ∀ t ∈ p.type, OneLine t)
    (ht : ∀ t ∈ returnType, OneLine t) (name : String) (isAsync : Bool) (body : List Node)
    (c : EmitContext) :
    Lays Q (fun width => functionComment (o.withWidth width) params returnType c)
      (List.replicate (if o.types then
        (Node.function name params returnType isAsync body).commentLines else 0) c.indent) := by
  have opening : Lays Q (fun width => blanks (c.indent * width) ++ "/**\n") [c.indent] :=
    lays_line (by decide : OneLine "/**") rfl c.indent
  have closing : Lays Q (fun width => blanks (c.indent * width) ++ " */\n") [c.indent] :=
    lays_line (by decide : OneLine " */") rfl c.indent
  have returns : Lays Q (fun width => returnType.elim "" fun type =>
      blanks (c.indent * width) ++ " * @returns " ++ braced (docType type) ++ "\n")
      (List.replicate returnType.toList.length c.indent) := by
    cases returnType with
    | none => exact lays_nil
    | some type =>
        have text : OneLine (" * @returns " ++ braced (docType type)) :=
          OneLine.append (by decide)
            ((OneLine.append (by decide) (oneLine_docType (ht type rfl))).append (by decide))
        refine (lays_line text rfl c.indent).congr ?_
        intro width
        simp [String.append_assoc]
  have all := ((opening.append (lays_paramComments (o := o) hp c)).append returns).append closing
  have counted : [c.indent] ++ List.replicate params.length c.indent ++
      List.replicate returnType.toList.length c.indent ++ [c.indent] =
      List.replicate (1 + params.length + returnType.toList.length + 1) c.indent := by
    rw [← List.replicate_one, List.replicate_append_replicate, List.replicate_append_replicate,
      List.replicate_append_replicate]
  rw [counted] at all
  by_cases written : (o.types && (params.any (·.type.isSome) || returnType.isSome)) = true
  · have known := written
    rw [Bool.and_eq_true] at known
    rw [if_pos known.1, Node.commentLines, if_pos known.2]
    refine all.congr ?_
    intro width
    unfold functionComment
    rw [types_withWidth, if_pos written]
    cases returnType <;> simp [pad_withWidth, String.append_assoc]
  · have none : (if o.types then
        (Node.function name params returnType isAsync body).commentLines else 0) = 0 := by
      rw [Node.commentLines]
      grind
    rw [none]
    refine lays_nil.congr ?_
    intro width
    unfold functionComment
    rw [types_withWidth, if_neg written]

/-- Where the node is a part of a line, its text flows. -/
def PartFlows (Q : String → Prop) (o : EmitOptions) (n : Node) : Prop :=
  ∀ c before after, c.allowSemicolons = false →
    Flows Q (fun width => (node (o.withWidth width) c before after n).text)
      (n.innerDepths o.types c.indent)

/-- Where the node is a statement, it has lines of its own. -/
def StatementLays (Q : String → Prop) (o : EmitOptions) (n : Node) : Prop :=
  ∀ c : EmitContext, c.allowSemicolons = true → c.callDepth = 0 →
    Lays Q (fun width => (node (o.withWidth width) c none none n).text)
      (statementDepths o.types c.indent [n])

theorem oneLine_separatorText {c : EmitContext}
    (h : c.separator = none ∨ c.separator = some ", ") : OneLine c.separatorText := by
  unfold EmitContext.separatorText
  rcases h with h | h
  · rw [h]
    cases c.allowSpaces <;> decide
  · rw [h]
    exact (by decide : OneLine ", ")

theorem flows_nodes {ns : List Node} (h : ∀ n ∈ ns, PartFlows Q o n) {c : EmitContext}
    (inline : c.allowSemicolons = false) (hs : c.separator = none ∨ c.separator = some ", ")
    (before : Option Node) (tight : Bool) :
    Flows Q (fun width => (nodes (o.withWidth width) c before tight ns).text)
      (partDepths o.types c.indent ns) := by
  induction ns generalizing before tight with
  | nil => simpa [nodes] using flows_oneLine (by decide : OneLine "")
  | cons n ns ih =>
      have first := h n (by simp) c before ns.head? inline
      have rest (tight : Bool) := ih (fun m hm => h m (by simp [hm])) (some n) tight
      rw [partDepths]
      by_cases empty : (node (o.withWidth 0) c before ns.head? n).text = ""
      · refine (first.append (rest tight)).congr ?_
        intro width
        have empty : (node (o.withWidth width) c before ns.head? n).isEmpty = true := by
          simpa [Piece.isEmpty] using (first.eq_empty_iff width 0).mpr empty
        rw [nodes, if_pos empty, Piece.text_append]
      · have gap : OneLine (gap n before tight c) := by
          unfold gap
          split
          · decide
          · exact oneLine_separatorText hs
        refine ((first.before gap).append (rest (isTight n before c))).congr ?_
        intro width
        have written : ¬ (node (o.withWidth width) c before ns.head? n).isEmpty = true := by
          intro none
          exact empty ((first.eq_empty_iff 0 width).mpr (by simpa [Piece.isEmpty] using none))
        rw [nodes, if_neg written, Piece.text_append, Piece.text_append]
        rfl

theorem flows_links {ns : List Node} (h : ∀ n ∈ ns, PartFlows Q o n) {c : EmitContext}
    (inline : c.allowSemicolons = false) :
    Flows Q (fun width => (links (o.withWidth width) c ns).text)
      (partDepths o.types c.indent ns) := by
  induction ns with
  | nil => simpa [links] using flows_oneLine (by decide : OneLine "")
  | cons n ns ih =>
      have first := h n (by simp) c none none inline
      rw [partDepths]
      refine (first.append (ih fun m hm => h m (by simp [hm]))).congr ?_
      intro width
      rw [links, Piece.text_append]

theorem lays_statements {ns : List Node} (h : ∀ n ∈ ns, StatementLays Q o n) {c : EmitContext}
    (level : c.allowSemicolons = true) (outside : c.callDepth = 0) :
    Lays Q (fun width => (statements (o.withWidth width) c ns).text)
      (statementDepths o.types c.indent ns) := by
  induction ns with
  | nil => simpa [statements] using lays_nil
  | cons n ns ih =>
      have first := h n (by simp) c level outside
      rw [statementDepths_cons]
      refine (first.append (ih fun m hm => h m (by simp [hm]))).congr ?_
      intro width
      rw [statements, Piece.text_append]

theorem lays_nodes {ns : List Node} (hs : StatementList ns) (h : ∀ n ∈ ns, StatementLays Q o n)
    {c : EmitContext} (level : c.allowSemicolons = true) (outside : c.callDepth = 0) :
    Lays Q (fun width => (nodes (o.withWidth width) c none true ns).text)
      (statementDepths o.types c.indent ns) := by
  refine (lays_statements h level outside).congr ?_
  intro width
  rw [nodes_eq_statements (o.withWidth width) level hs rfl true]

/-- A separator stands between neighbours, and all of them are there at every width. -/
theorem flows_joined_cons {p : Nat → Piece} {ps : Nat → List Piece} {ds es : List Nat}
    (hp : Flows Q (fun width => (p width).text) ds)
    (h : Flows Q (fun width => (Piece.joined ", " (ps width)).text) es)
    (same : ∀ width, ps width = [] ↔ ps 0 = []) :
    Flows Q (fun width => (Piece.joined ", " (p width :: ps width)).text) (ds ++ es) := by
  by_cases last : ps 0 = []
  · refine (hp.append h).congr ?_
    intro width
    rw [(same width).mpr last]
    simp [Piece.joined, Piece.ofText]
  · refine ((hp.followed (by decide : OneLine ", ")).append h).congr ?_
    intro width
    obtain ⟨q, qs, more⟩ := List.exists_cons_of_ne_nil (fun none => last ((same width).mp none))
    rw [more]
    rfl

/-- One operand; a register that is written to stands in quotes. -/
def operand (o : EmitOptions) (c : EmitContext) (destinations : Nat) (n : Node) : Piece :=
  match n, destinations with
  | .identifier name, _ + 1 => ("\"" ++ lowerWord name ++ "\"" : String)
  | n, _ => node o c none none n

theorem operandList_cons (o : EmitOptions) (c : EmitContext) (destinations : Nat) (n : Node)
    (ns : List Node) : operandList o c destinations (n :: ns) =
      operand o c destinations n :: operandList o c (destinations - 1) ns := by
  conv_lhs => unfold operandList
  rfl

theorem flows_operand {n : Node} (texts : n.TextsHave (Text.Fits Q)) (h : PartFlows Q o n)
    {c : EmitContext} (inline : c.allowSemicolons = false) (destinations : Nat) :
    Flows Q (fun width => (operand (o.withWidth width) c destinations n).text)
      (n.innerDepths o.types c.indent) := by
  have written := h c none none inline
  cases n with
  | identifier name =>
      cases destinations with
      | zero => exact written
      | succ k =>
          have word : OneLine name := texts (.name name) (by simp [Node.ownTexts])
          have quoted : OneLine ("\"" ++ lowerWord name ++ "\"") :=
            (OneLine.append (by decide) (oneLine_lowerWord word)).append (by decide)
          rw [Node.innerDepths]
          exact flows_oneLine quoted
  | _ => exact written

theorem flows_operands {ns : List Node} (texts : ∀ n ∈ ns, n.TextsHave (Text.Fits Q))
    (h : ∀ n ∈ ns, PartFlows Q o n) {c : EmitContext} (inline : c.allowSemicolons = false)
    (destinations : Nat) :
    Flows Q (fun width => (Piece.joined ", "
        (operandList (o.withWidth width) c destinations ns)).text)
      (partDepths o.types c.indent ns) := by
  induction ns generalizing destinations with
  | nil =>
      simpa [operandList, Piece.joined] using flows_oneLine (by decide : OneLine "")
  | cons n ns ih =>
      have first := flows_operand (texts n (by simp)) (h n (by simp)) inline destinations
      have rest := ih (fun m hm => texts m (by simp [hm])) (fun m hm => h m (by simp [hm]))
        (destinations - 1)
      rw [partDepths]
      refine (flows_joined_cons first rest ?_).congr ?_
      · intro width
        cases ns with
        | nil => simp only [operandList]
        | cons m ns => simp [operandList_cons]
      · intro width
        rw [operandList_cons]

theorem flows_fields {fields : List (String × List Node)}
    (keys : ∀ field ∈ fields, BreaksOnlyIn Q field.1)
    (h : ∀ n ∈ fields.flatMap (·.2), PartFlows Q o n) {c : EmitContext}
    (inline : c.allowSemicolons = false) (hs : c.separator = none ∨ c.separator = some ", ") :
    Flows Q (fun width => (Piece.joined ", " (fieldList (o.withWidth width) c fields)).text)
      (fieldDepths o.types c.indent fields) := by
  induction fields with
  | nil =>
      simpa [fieldList, Piece.joined] using flows_oneLine (by decide : OneLine "")
  | cons field fields ih =>
      obtain ⟨key, value⟩ := field
      obtain ⟨here, others⟩ := List.forall_mem_append.mp (List.flatMap_cons ▸ h)
      have held := flows_nodes here inline hs none true
      have named : Flows Q (fun _ => key) [] := flows_text (keys (key, value) (by simp))
      have first := (named.followed (by decide : OneLine ": ")).append held
      have rest := ih (fun field hf => keys field (by simp [hf])) others
      rw [fieldDepths]
      refine (flows_joined_cons (p := fun width => key ++ ": " ++
        nodes (o.withWidth width) c none true value) first rest ?_).congr ?_
      · intro width
        cases fields <;> simp [fieldList]
      · intro width
        rw [fieldList]

theorem flows_bracedBlock {head body : Nat → Piece} {ds es : List Nat}
    (hh : Flows Q (fun width => (head width).text) ds)
    (hb : Lays Q (fun width => (body width).text) es) (c : EmitContext) :
    Flows Q (fun width => (bracedBlock (o.withWidth width) (head width) (body width) c).text)
      (ds ++ (es ++ [c.indent])) := by
  have block := hb.enclosed (by decide : OneLine " \x7b") (by decide : OneLine "\x7d") c.indent
  refine (hh.append block).congr ?_
  intro width
  have opening : (" \x7b\n" : String) = " \x7b" ++ "\n" := rfl
  simp [bracedBlock, pad_withWidth, opening, String.append_assoc]

theorem lays_function {name : String} {params : List Param} {returnType : Option String}
    {body : Nat → Piece} {ds : List Nat} (hn : OneLine name)
    (hp : ∀ p ∈ params, OneLine p.name ∧ ∀ t ∈ p.type, OneLine t)
    (ht : ∀ t ∈ returnType, OneLine t) (hb : Lays Q (fun width => (body width).text) ds)
    (isAsync : Bool) (nodes : List Node) (c : EmitContext) :
    Lays Q (fun width =>
        (function (o.withWidth width) name params returnType isAsync (body width) c).text)
      (List.replicate (if o.types then
          (Node.function name params returnType isAsync nodes).commentLines else 0) c.indent ++
        c.indent :: (ds ++ [c.indent])) := by
  have comment := lays_functionComment (Q := Q) (o := o) hp ht name isAsync nodes c
  have names : OneLine (String.intercalate ", " (params.map (·.name))) := by
    apply oneLine_intercalate (by decide)
    intro word hw
    obtain ⟨p, hm, rfl⟩ := List.mem_map.mp hw
    exact (hp p hm).1
  have head : OneLine ((if isAsync then "async " else "") ++
      (if c.inObject then "" else "function ") ++ name ++ "(" ++
        String.intercalate ", " (params.map (·.name)) ++ ") \x7b") := by
    have start : OneLine ((if isAsync then "async " else "") ++
        (if c.inObject then "" else "function ")) := by
      cases isAsync <;> cases c.inObject <;> decide
    exact (((start.append hn).append (by decide)).append names).append (by decide)
  have last : OneLine (if c.inObject then "\x7d," else "\x7d") := by
    cases c.inObject <;> decide
  refine (comment.append ((hb.enclosed head last c.indent).line c.indent)).congr ?_
  intro width
  unfold function
  have opening : (") \x7b\n" : String) = ") \x7b" ++ "\n" := rfl
  have closing : (if c.inObject then "\x7d,\n" else "\x7d\n") =
      (if c.inObject then "\x7d," else "\x7d") ++ "\n" := by cases c.inObject <;> rfl
  generalize String.intercalate ", " _ = list
  simp only [Piece.text_append, Piece.ofText, pad_withWidth, String.append_assoc, opening, closing]

theorem lays_varDecl {name : String} {type : Option String} {value : Nat → Piece} {ds : List Nat}
    (hn : OneLine name) (ht : ∀ t ∈ type, OneLine t)
    (hv : Flows Q (fun width => (value width).text) ds) (mutable : Bool) (c : EmitContext) :
    Lays Q
      (fun width => (varDecl (o.withWidth width) name type mutable (some (value width)) c).text)
      (List.replicate (if o.types then type.toList.length else 0) c.indent ++ c.indent :: ds) := by
  have comment := lays_typeComment (Q := Q) (o := o) ht c
  cases hc : c.inObject with
  | true =>
      have field := (hv.before (hn.append (by decide : OneLine ": "))).ends c.indent
        (by decide : OneLine ",") rfl
      refine (comment.append field).congr ?_
      intro width
      simp [varDecl, hc, pad_withWidth, String.append_assoc]
  | false =>
      have start : OneLine ((if mutable then "let " else "const ") ++ name ++ " = ") := by
        have word : OneLine (if mutable then "let " else "const ") := by
          cases mutable <;> decide
        exact (word.append hn).append (by decide)
      have line := (hv.before start).ends c.indent (by decide : OneLine ";") rfl
      refine (comment.append line).congr ?_
      intro width
      simp [varDecl, hc, pad_withWidth, String.append_assoc]

theorem lays_bareDecl {name : String} {type : Option String} (hn : OneLine name)
    (ht : ∀ t ∈ type, OneLine t) (mutable : Bool) (c : EmitContext) :
    Lays Q (fun width => (varDecl (o.withWidth width) name type mutable none c).text)
      (List.replicate (if o.types then type.toList.length else 0) c.indent ++ [c.indent]) := by
  have comment := lays_typeComment (Q := Q) (o := o) ht c
  cases hc : c.inObject with
  | true =>
      have field := (flows_oneLine (Q := Q) (hn.append (by decide : OneLine ": null"))).ends
        c.indent (by decide : OneLine ",") rfl
      refine (comment.append field).congr ?_
      intro width
      have null : (": null" : String) = ": " ++ "null" := rfl
      simp [varDecl, hc, pad_withWidth, null, String.append_assoc]
  | false =>
      have start : OneLine ((if mutable then "let " else "const ") ++ name) := by
        have word : OneLine (if mutable then "let " else "const ") := by
          cases mutable <;> decide
        exact word.append hn
      have line := (flows_oneLine (Q := Q) start).ends c.indent (by decide : OneLine ";") rfl
      refine (comment.append line).congr ?_
      intro width
      simp [varDecl, hc, pad_withWidth, String.append_assoc]

theorem lays_assign {target value : Nat → Piece} {op : String} {ds es : List Nat}
    (ht : Flows Q (fun width => (target width).text) ds) (ho : OneLine op)
    (hv : Flows Q (fun width => (value width).text) es) (c : EmitContext) :
    Lays Q (fun width => (assign (o.withWidth width) (target width) op (value width) c).text)
      (c.indent :: (ds ++ es)) := by
  cases hc : c.inObject with
  | true =>
      have field := (ht.append (hv.before (by decide : OneLine ": "))).ends c.indent
        (by decide : OneLine ",") rfl
      refine field.congr ?_
      intro width
      simp [assign, hc, pad_withWidth, String.append_assoc]
  | false =>
      have sign : OneLine (" " ++ op ++ " ") := (OneLine.append (by decide) ho).append (by decide)
      have line := (ht.append (hv.before sign)).ends c.indent (by decide : OneLine ";") rfl
      refine line.congr ?_
      intro width
      simp [assign, hc, pad_withWidth, String.append_assoc]

/-- The name of a helper has no lines of its own. -/
theorem partDepths_of_chainName? {name full : String} {chain : List Node}
    (h : Node.chainName? name chain = some full) (types : Bool) (depth : Nat) :
    partDepths types depth chain = [] := by
  fun_induction Node.chainName? name chain with
  | case1 => rw [partDepths]
  | case2 name p links ih => rw [partDepths, ih h, Node.innerDepths, List.append_nil]
  | case3 => cases h

theorem partDepths_of_calledHelper? {callee : List Node} {before : Option Node} {helper : Helper}
    (h : calledHelper? callee before = some helper) (types : Bool) (depth : Nat) :
    partDepths types depth callee = [] := by
  obtain ⟨n, name, rfl, -, flat, -⟩ := calledHelper?_eq_some_iff.mp h
  rw [partDepths, partDepths, List.append_nil]
  cases n with
  | identifier word => rw [Node.innerDepths]
  | member object chain =>
      rw [Node.innerDepths]
      exact partDepths_of_chainName? flat types depth
  | _ => cases flat

/-- The text of a call, also when it is a statement of its own. -/
def callText (o : EmitOptions) (c : EmitContext) (before : Option Node) (callee : List Node)
    (isAsync : Bool) (args : List Node) : Piece :=
  let target : Piece :=
    match calledHelper? callee before with
    | some helper => ⟨helper.target, [.helper helper.name]⟩
    | none => nodes o c.inline none true callee
  let head : String := if isAsync then "await " else ""
  head ++ target ++ "(" ++ nodes o c.callArgs none true args ++ ")"

theorem node_call (o : EmitOptions) (c : EmitContext) (before after : Option Node)
    (callee : List Node) (isAsync : Bool) (args : List Node) :
    node o c before after (.call callee isAsync args) =
      valueOrStatement o (callText o c before callee isAsync args) c := by
  rw [node]
  rfl

/-- The text of a block that is a value, also when it is a statement of its own. -/
def doText (o : EmitOptions) (c : EmitContext) (isAsync : Bool) (body : List Node) : Piece :=
  let head : String := if isAsync then "(async () =>" else "(() =>"
  bracedBlock o head (nodes o c.block none true body) c ++ ")()"

theorem node_doBlock (o : EmitOptions) (c : EmitContext) (before after : Option Node)
    (isAsync : Bool) (body : List Node) : node o c before after (.doBlock isAsync body) =
      valueOrStatement o (doText o c isAsync body) c := by
  rw [node]
  rfl

theorem Helper.oneLine_target : ∀ h ∈ Helper.all, OneLine h.target := by decide

theorem Instruction.oneLine_target : ∀ i ∈ Instruction.all, OneLine i.target := by decide

theorem flows_expression {ns : List Node} (he : ExpressionList ns)
    (h : ∀ m ∈ ns, m.isInline → PartFlows Q o m) (c : EmitContext) :
    Flows Q (fun width => (nodes (o.withWidth width) c.inline none true ns).text)
      (partDepths o.types c.indent ns) :=
  flows_nodes (fun m hm => h m hm (isInline_of_isPart (he.parts m hm))) rfl (.inl rfl) none true

theorem flows_arguments {ns : List Node} (ha : ArgumentList ns)
    (h : ∀ m ∈ ns, m.isInline → PartFlows Q o m) {c : EmitContext}
    (inline : c.allowSemicolons = false) (commas : c.separator = some ", ") :
    Flows Q (fun width => (nodes (o.withWidth width) c none true ns).text)
      (partDepths o.types c.indent ns) :=
  flows_nodes (fun m hm => h m hm (ha.isInline m hm)) inline (.inr commas) none true

theorem lays_block {ns : List Node} (hs : StatementList ns)
    (h : ∀ m ∈ ns, m.isStatement → StatementLays Q o m) (c : EmitContext) :
    Lays Q (fun width => (nodes (o.withWidth width) c.block none true ns).text)
      (statementDepths o.types (c.indent + 1) ns) :=
  lays_nodes hs (fun m hm => h m hm (hs m hm)) rfl rfl

theorem flows_callText {p : ParseOptions} {callee args : List Node} {isAsync : Bool}
    (wf : (Node.call callee isAsync args).WellFormed p)
    (h : ∀ m ∈ callee ++ args, m.isInline → PartFlows Q o m) (c : EmitContext)
    (before : Option Node) :
    Flows Q (fun width => (callText (o.withWidth width) c before callee isAsync args).text)
      (partDepths o.types c.indent callee ++ partDepths o.types c.indent args) := by
  obtain ⟨⟨-, he, -⟩, ha⟩ := wf
  obtain ⟨outer, inner⟩ := List.forall_mem_append.mp h
  have head : OneLine (if isAsync then "await " else "") := by cases isAsync <;> decide
  have args : Flows Q (fun width => (nodes (o.withWidth width) c.callArgs none true args).text)
      (partDepths o.types c.indent args) := flows_arguments ha inner rfl rfl
  cases called : calledHelper? callee before with
  | some helper =>
      obtain ⟨-, name, -, -, -, found⟩ := calledHelper?_eq_some_iff.mp called
      have target := Helper.oneLine_target helper (List.mem_of_find?_eq_some found)
      have start : OneLine ((if isAsync then "await " else "") ++ helper.target ++ "(") :=
        (head.append target).append (by decide)
      rw [partDepths_of_calledHelper? called, List.nil_append]
      refine ((args.before start).followed (by decide : OneLine ")")).congr ?_
      intro width
      simp [callText, called, String.append_assoc]
  | none =>
      have callee := flows_expression he outer c
      refine (((callee.before head).append (args.before (by decide : OneLine "("))).followed
        (by decide : OneLine ")")).congr ?_
      intro width
      simp [callText, called, String.append_assoc]

theorem flows_doText {body : List Node} (hs : StatementList body)
    (h : ∀ m ∈ body, m.isStatement → StatementLays Q o m) (isAsync : Bool) (c : EmitContext) :
    Flows Q (fun width => (doText (o.withWidth width) c isAsync body).text)
      (statementDepths o.types (c.indent + 1) body ++ [c.indent]) := by
  have head : OneLine (if isAsync then "(async () =>" else "(() =>") := by cases isAsync <;> decide
  have start : Flows Q (fun _ => (Piece.ofText (if isAsync then "(async () =>" else "(() =>")).text)
      [] := flows_oneLine head
  exact (flows_bracedBlock start (lays_block hs h c) c).followed (by decide : OneLine ")()")

theorem partFlows_member {p : ParseOptions} {object : String} {chain : List Node}
    (wf : (Node.member object chain).WellFormed p)
    (texts : (Node.member object chain).TextsHave (Text.Fits Q))
    (parts : ∀ m ∈ chain, m.isInline → PartFlows Q o m) :
    PartFlows Q o (.member object chain) := by
  intro c before after _
  have object := oneLine_name o (texts (.name object) (by simp [Node.ownTexts]))
  have links : Flows Q (fun width => (links (o.withWidth width) c.inline chain).text)
      (partDepths o.types c.indent chain) := by
    apply flows_links _ rfl
    intro m hm
    apply parts m hm
    have link := wf.2 m hm
    cases m with
    | property name => rfl
    | index body => rfl
    | _ => cases link
  rw [Node.innerDepths]
  refine (links.before object).congr ?_
  intro width
  rw [node, Piece.text_append]
  rfl

theorem partFlows_object {p : ParseOptions} {fields : List (String × List Node)}
    (wf : (Node.object fields).WellFormed p)
    (texts : (Node.object fields).TextsHave (Text.Fits Q))
    (parts : ∀ m ∈ fields.flatMap (·.2), m.isInline → PartFlows Q o m) :
    PartFlows Q o (.object fields) := by
  intro c before after _
  cases fields with
  | nil =>
      rw [Node.innerDepths, fieldDepths]
      refine (flows_oneLine (by decide : OneLine "\x7b\x7d")).congr ?_
      intro width
      simp [node]
  | cons field fields =>
      have keys : ∀ f ∈ field :: fields, BreaksOnlyIn Q f.1 :=
        fun f hf => texts (.key f.1) (List.mem_map.mpr ⟨f, hf, rfl⟩)
      have values : ∀ m ∈ (field :: fields).flatMap (·.2), PartFlows Q o m := by
        intro m hm
        obtain ⟨f, hf, held⟩ := List.mem_flatMap.mp hm
        exact parts m hm (isInline_of_isPart ((wf f hf).parts m held))
      have list : Flows Q (fun width => (Piece.joined ", "
          (fieldList (o.withWidth width) c.inline (field :: fields))).text)
          (fieldDepths o.types c.indent (field :: fields)) :=
        flows_fields keys values rfl (.inl rfl)
      rw [Node.innerDepths]
      refine ((list.before (by decide : OneLine "\x7b ")).followed
        (by decide : OneLine " \x7d")).congr ?_
      intro width
      simp [node]

/-- A part flows if what it holds does. -/
theorem partFlows_of_children {p : ParseOptions} {n : Node} (wf : n.WellFormed p)
    (texts : n.TextsHave (Text.Fits Q))
    (parts : ∀ m ∈ n.children, m.isInline → PartFlows Q o m)
    (inner : ∀ m ∈ n.children, m.isStatement → StatementLays Q o m) (hn : n.isInline) :
    PartFlows Q o n := by
  intro c before after inline
  have value (width : Nat) (p : Piece) : valueOrStatement (o.withWidth width) p c = p := by
    simp [valueOrStatement, EmitContext.atStatementLevel, inline]
  cases n with
  | expr body =>
      rw [Node.innerDepths]
      refine (flows_expression wf.2 parts c).congr ?_
      intro width
      rw [node]
  | group body =>
      have body := flows_expression wf parts c
      rw [Node.innerDepths]
      refine ((body.before (by decide : OneLine "(")).followed (by decide : OneLine ")")).congr ?_
      intro width
      simp [node]
  | index body =>
      have body := flows_expression wf parts c
      rw [Node.innerDepths]
      refine ((body.before (by decide : OneLine "[")).followed (by decide : OneLine "]")).congr ?_
      intro width
      simp [node]
  | array items =>
      have items : Flows Q (fun width =>
          (nodes (o.withWidth width) (c.separated ", ") none true items).text)
          (partDepths o.types c.indent items) := flows_arguments wf parts rfl rfl
      rw [Node.innerDepths]
      refine ((items.before (by decide : OneLine "[")).followed (by decide : OneLine "]")).congr ?_
      intro width
      simp [node]
  | call callee isAsync args =>
      rw [Node.innerDepths]
      refine (flows_callText wf parts c before).congr ?_
      intro width
      rw [node_call, value]
  | doBlock isAsync body =>
      rw [Node.innerDepths]
      refine (flows_doText wf inner isAsync c).congr ?_
      intro width
      rw [node_doBlock, value]
  | member object chain => exact partFlows_member wf texts parts c before after inline
  | object fields => exact partFlows_object wf texts parts c before after inline
  | property name =>
      have word : OneLine name := texts (.member name) (by simp [Node.ownTexts])
      rw [Node.innerDepths]
      refine (flows_oneLine (oneLine_propertyText word)).congr ?_
      intro width
      simp [node]
  | identifier name =>
      have word := oneLine_name o (texts (.name name) (by simp [Node.ownTexts]))
      rw [Node.innerDepths]
      refine (flows_oneLine word).congr ?_
      intro width
      rw [node]
      rfl
  | operator op =>
      have word : OneLine op := texts (.symbol op) (by simp [Node.ownTexts])
      rw [Node.innerDepths]
      refine (flows_oneLine (oneLine_operatorText word before after)).congr ?_
      intro width
      simp [node]
  | literal kind text =>
      have written : BreaksOnlyIn Q text := texts (.value kind text) (by simp [Node.ownTexts])
      rw [Node.innerDepths]
      cases kind with
      | nil =>
          refine (flows_oneLine (by decide : OneLine "null")).congr ?_
          intro width
          simp [node]
      | _ =>
          refine (flows_text written).congr ?_
          intro width
          simp [node]
  | _ => cases hn

/-- A condition and its branches: what a statement of its own has on its lines. -/
def conditionText (o : EmitOptions) (c : EmitContext) (test body : List Node)
    (otherwise : Option (List Node)) : Piece :=
  bracedBlock o ("if (" ++ nodes o c.inline none true test ++ ")") (nodes o c.block none true body)
    c ++ branch o c otherwise

theorem node_ifStmt (o : EmitOptions) (c : EmitContext) (before after : Option Node)
    (test body : List Node) (otherwise : Option (List Node)) :
    node o c before after (.ifStmt test body otherwise) =
      pad o c ++ conditionText o c test body otherwise ++ "\n" := by
  rw [node, conditionText, Piece.append_assoc (pad o c : Piece)]

theorem branch_ifStmt (o : EmitOptions) (c : EmitContext) (test body : List Node)
    (otherwise : Option (List Node)) :
    branch o c (some [.ifStmt test body otherwise]) =
      " else " ++ conditionText o c test body otherwise := by
  rw [branch, conditionText, Piece.append_assoc]

theorem flows_branch {otherwise : Option (List Node)}
    (hs : ∀ nodes ∈ otherwise, StatementList nodes)
    (inner : ∀ m ∈ otherwise.getD [], m.isStatement → StatementLays Q o m) {c : EmitContext}
    (level : c.allowSemicolons = true) (outside : c.callDepth = 0) :
    Flows Q (fun width => (branch (o.withWidth width) c otherwise).text)
      (branchDepths o.types c.indent otherwise) := by
  fun_cases branchDepths o.types c.indent otherwise with
  | case1 =>
      refine (flows_oneLine (by decide : OneLine "")).congr ?_
      intro width
      simp [branch]
  | case2 test body otherwise =>
      -- The condition goes on with the line that a statement of its own has.
      have whole := inner (.ifStmt test body otherwise) (by simp) rfl c level outside
      rw [statementDepths_plain (by simp) rfl, Node.innerDepths] at whole
      have line := Flows.of_line (whole.congr (q := fun width => blanks (c.indent * width) ++
        (conditionText (o.withWidth width) c test body otherwise).text ++ "\n") (by
          intro width
          simp [node_ifStmt, pad_withWidth]))
      refine (line.before (by decide : OneLine " else ")).congr ?_
      intro width
      simp [branch_ifStmt]
  | case3 body other =>
      have head : Flows Q (fun _ => (Piece.ofText " else").text) [] :=
        flows_oneLine (by decide : OneLine " else")
      refine (flows_bracedBlock (o := o) head (lays_block (hs body rfl) inner c) c).congr ?_
      intro width
      rw [branch]
      exact other

theorem flows_condition {test body : List Node} {otherwise : Option (List Node)}
    (ht : ExpressionList test) (hb : StatementList body)
    (ho : ∀ nodes ∈ otherwise, StatementList nodes)
    (parts : ∀ m ∈ (Node.ifStmt test body otherwise).children, m.isInline → PartFlows Q o m)
    (inner : ∀ m ∈ (Node.ifStmt test body otherwise).children,
      m.isStatement → StatementLays Q o m)
    {c : EmitContext} (level : c.allowSemicolons = true) (outside : c.callDepth = 0) :
    Flows Q (fun width => (conditionText (o.withWidth width) c test body otherwise).text)
      (partDepths o.types c.indent test ++
        (statementDepths o.types (c.indent + 1) body ++ [c.indent]) ++
        branchDepths o.types c.indent otherwise) := by
  have test' := flows_expression ht (fun m hm => parts m (by simp [Node.children, hm])) c
  have body' := lays_block hb (fun m hm => inner m (by simp [Node.children, hm])) c
  have rest := flows_branch ho (fun m hm => inner m (by simp [Node.children, hm])) level outside
  have head : Flows Q (fun width =>
      ("if (" ++ nodes (o.withWidth width) c.inline none true test ++ ")" : Piece).text)
      (partDepths o.types c.indent test) :=
    (test'.before (by decide : OneLine "if (")).followed (by decide : OneLine ")")
  exact (flows_bracedBlock head body' c).append rest

theorem fits_of_typeTexts {type : Option String} (h : ∀ x ∈ typeTexts type, x.Fits Q) :
    ∀ t ∈ type, OneLine t := by
  intro t ht
  exact h (.name t) (List.mem_map.mpr ⟨t, Option.mem_toList.mpr ht, rfl⟩)

theorem statementLays_varDecl {p : ParseOptions} {name : String} {type : Option String}
    {mutable isArray : Bool} {init : List Node}
    (wf : (Node.varDecl name type mutable isArray init).WellFormed p)
    (texts : (Node.varDecl name type mutable isArray init).TextsHave (Text.Fits Q))
    (parts : ∀ m ∈ init, m.isInline → PartFlows Q o m) :
    StatementLays Q o (.varDecl name type mutable isArray init) := by
  intro c level outside
  obtain ⟨own, rest⟩ := List.forall_mem_cons.mp texts
  have word : OneLine name := own
  have type := fits_of_typeTexts rest
  rw [statementDepths_own (by simp), Node.innerDepths]
  cases init with
  | nil =>
      rw [partDepths]
      cases isArray with
      | false =>
          refine (lays_bareDecl word type mutable c).congr ?_
          intro width
          simp [node]
      | true =>
          have empty : Flows Q (fun _ => (Piece.ofText "[]").text) [] :=
            flows_oneLine (by decide : OneLine "[]")
          refine (lays_varDecl word type empty mutable c).congr ?_
          intro width
          simp [node]
  | cons part rest =>
      have init := flows_expression wf.2 parts c
      refine (lays_varDecl word type init mutable c).congr ?_
      intro width
      rw [node]

theorem statementLays_assign {p : ParseOptions} {target value : List Node} {op : String}
    (wf : (Node.assign target op value).WellFormed p)
    (texts : (Node.assign target op value).TextsHave (Text.Fits Q))
    (parts : ∀ m ∈ (Node.assign target op value).children, m.isInline → PartFlows Q o m) :
    StatementLays Q o (.assign target op value) := by
  intro c level outside
  obtain ⟨ht, -, hv⟩ := wf
  obtain ⟨left, right⟩ := List.forall_mem_append.mp parts
  have sign : OneLine op := texts (.symbol op) (by simp [Node.ownTexts])
  rw [statementDepths_plain (by simp) rfl, Node.innerDepths]
  have target' := flows_expression ht left c
  have value' := flows_expression hv right c
  refine (lays_assign (o := o) target' sign value' c).congr ?_
  intro width
  rw [node]

theorem statementLays_function {p : ParseOptions} {name : String} {params : List Param}
    {returnType : Option String} {isAsync : Bool} {body : List Node}
    (wf : (Node.function name params returnType isAsync body).WellFormed p)
    (texts : (Node.function name params returnType isAsync body).TextsHave (Text.Fits Q))
    (inner : ∀ m ∈ body, m.isStatement → StatementLays Q o m) :
    StatementLays Q o (.function name params returnType isAsync body) := by
  intro c level outside
  obtain ⟨own, others⟩ := List.forall_mem_cons.mp texts
  have word : OneLine name := own
  obtain ⟨list, type⟩ := List.forall_mem_append.mp others
  have each : ∀ p ∈ params, OneLine p.name ∧ ∀ t ∈ p.type, OneLine t := by
    intro p hp
    have own : ∀ x ∈ p.texts, x.Fits Q :=
      fun x hx => list x (List.mem_flatMap.mpr ⟨p, hp, hx⟩)
    obtain ⟨word, type⟩ := List.forall_mem_cons.mp own
    exact ⟨word, fits_of_typeTexts type⟩
  have body' := lays_block wf.2.2 inner c
  rw [statementDepths_own (by simp), Node.innerDepths]
  refine (lays_function word each (fits_of_typeTexts type) body' isAsync body c).congr ?_
  intro width
  rw [node]

theorem statementLays_returnStmt {p : ParseOptions} {value : List Node}
    (wf : (Node.returnStmt value).WellFormed p)
    (parts : ∀ m ∈ value, m.isInline → PartFlows Q o m) :
    StatementLays Q o (.returnStmt value) := by
  intro c level outside
  rw [statementDepths_plain (by simp) rfl, Node.innerDepths]
  cases value with
  | nil =>
      rw [partDepths]
      refine (lays_line (by decide : OneLine "return;") rfl c.indent).congr ?_
      intro width
      simp [node, pad_withWidth]
  | cons part rest =>
      have written := (flows_expression wf parts c).before (by decide : OneLine "return ")
      refine (written.ends c.indent (by decide : OneLine ";") rfl).congr ?_
      intro width
      simp [node, pad_withWidth, String.append_assoc]

theorem statementLays_forStmt {p : ParseOptions} {i : String} {first last body : List Node}
    (wf : (Node.forStmt i first last body).WellFormed p)
    (texts : (Node.forStmt i first last body).TextsHave (Text.Fits Q))
    (parts : ∀ m ∈ (Node.forStmt i first last body).children, m.isInline → PartFlows Q o m)
    (inner : ∀ m ∈ (Node.forStmt i first last body).children, m.isStatement → StatementLays Q o m) :
    StatementLays Q o (.forStmt i first last body) := by
  intro c level outside
  obtain ⟨hf, hl, hb⟩ := wf
  have index : OneLine i := texts (.name i) (by simp [Node.ownTexts])
  have first' := flows_expression hf (fun m hm => parts m (by simp [Node.children, hm])) c
  have last' := flows_expression hl (fun m hm => parts m (by simp [Node.children, hm])) c
  have body' := lays_block hb (fun m hm => inner m (by simp [Node.children, hm])) c
  have opening : OneLine ("for (let " ++ i ++ " = ") :=
    (OneLine.append (by decide) index).append (by decide)
  have middle : OneLine ("; " ++ i ++ " <= ") :=
    (OneLine.append (by decide) index).append (by decide)
  have closing : OneLine ("; " ++ i ++ "++)") :=
    (OneLine.append (by decide) index).append (by decide)
  have head : Flows Q (fun width => ("for (let " ++ i ++ " = " ++
        nodes (o.withWidth width) c.inline none true first ++ "; " ++ i ++ " <= " ++
        nodes (o.withWidth width) c.inline none true last ++ "; " ++ i ++ "++)" : Piece).text)
      (partDepths o.types c.indent first ++ partDepths o.types c.indent last) := by
    refine (((first'.before opening).append (last'.before middle)).followed closing).congr ?_
    intro width
    simp [String.append_assoc]
  rw [statementDepths_plain (by simp) rfl, Node.innerDepths]
  refine ((flows_bracedBlock (o := o) head body' c).line c.indent).congr ?_
  intro width
  simp [node, pad_withWidth]

theorem statementLays_loop {p : ParseOptions} {exit : Option (List Node)} {body : List Node}
    (wf : (Node.loop exit body).WellFormed p)
    (parts : ∀ m ∈ (Node.loop exit body).children, m.isInline → PartFlows Q o m)
    (inner : ∀ m ∈ (Node.loop exit body).children, m.isStatement → StatementLays Q o m) :
    StatementLays Q o (.loop exit body) := by
  intro c level outside
  have body' := lays_block wf.2 (fun m hm => inner m (by simp [Node.children, hm])) c
  rw [statementDepths_plain (by simp) rfl]
  cases exit with
  | none =>
      have head : Flows Q (fun _ => (Piece.ofText "while (true)").text) [] :=
        flows_oneLine (by decide : OneLine "while (true)")
      rw [Node.innerDepths]
      refine ((flows_bracedBlock (o := o) head body' c).line c.indent).congr ?_
      intro width
      simp [node, pad_withWidth]
  | some exit =>
      have test := flows_expression (wf.1 exit rfl)
        (fun m hm => parts m (by simp [Node.children, hm])) c
      have head : Flows Q (fun width => ("while (!(" ++
          nodes (o.withWidth width) c.inline none true exit ++ "))" : Piece).text)
          (partDepths o.types c.indent exit) :=
        (test.before (by decide : OneLine "while (!(")).followed (by decide : OneLine "))")
      rw [Node.innerDepths]
      refine ((flows_bracedBlock (o := o) head body' c).line c.indent).congr ?_
      intro width
      simp [node, pad_withWidth]

theorem statementLays_struct {p : ParseOptions} {name : String} {body : List Node}
    (wf : (Node.struct name body).WellFormed p)
    (texts : (Node.struct name body).TextsHave (Text.Fits Q))
    (inner : ∀ m ∈ body, m.isStatement → StatementLays Q o m) :
    StatementLays Q o (.struct name body) := by
  intro c level outside
  have word : OneLine name := texts (.name name) (by simp [Node.ownTexts])
  have body' : Lays Q (fun width => (nodes (o.withWidth width) c.object none true body).text)
      (statementDepths o.types (c.indent + 1) body) :=
    lays_nodes wf (fun m hm => inner m hm (wf m hm)) rfl rfl
  have head : Flows Q (fun _ => ("const " ++ name ++ " =" : Piece).text) [] :=
    flows_oneLine ((OneLine.append (by decide) word).append (by decide))
  rw [statementDepths_plain (by simp) rfl, Node.innerDepths]
  refine ((flows_bracedBlock (o := o) head body' c).ends c.indent
    (by decide : OneLine ";") rfl).congr ?_
  intro width
  simp [node, pad_withWidth]

theorem statementLays_instruction {p : ParseOptions} {op : String} {operands : List Node}
    (wf : (Node.instruction op operands).WellFormed p)
    (inside : ∀ m ∈ operands, m.TextsHave (Text.Fits Q))
    (parts : ∀ m ∈ operands, m.isInline → PartFlows Q o m) :
    StatementLays Q o (.instruction op operands) := by
  intro c level outside
  obtain ⟨-, listed, arguments⟩ := wf
  obtain ⟨i, found⟩ := Option.isSome_iff_exists.mp listed
  have target := Instruction.oneLine_target i (List.mem_of_find?_eq_some found)
  have list : Flows Q (fun width => (Piece.joined ", "
      (operandList (o.withWidth width) c.inline i.destinations operands)).text)
      (partDepths o.types c.indent operands) :=
    flows_operands inside (fun m hm => parts m hm (arguments.isInline m hm)) rfl i.destinations
  have start : OneLine (i.target ++ "(") := target.append (by decide)
  rw [statementDepths_plain (by simp) rfl, Node.innerDepths]
  refine ((list.before start).ends c.indent (by decide : OneLine ");") rfl).congr ?_
  intro width
  simp [node, instruction, found, pad_withWidth, String.append_assoc]

/-- A statement has lines of its own if what it holds flows or has lines. -/
theorem statementLays_of_children {p : ParseOptions} {n : Node} (wf : n.WellFormed p)
    (texts : n.TextsHave (Text.Fits Q)) (inside : ∀ m ∈ n.children, m.TextsHave (Text.Fits Q))
    (parts : ∀ m ∈ n.children, m.isInline → PartFlows Q o m)
    (inner : ∀ m ∈ n.children, m.isStatement → StatementLays Q o m) (hn : n.isStatement) :
    StatementLays Q o n := by
  intro c level outside
  have value (width : Nat) (p : Piece) : valueOrStatement (o.withWidth width) p c =
      pad (o.withWidth width) c ++ p ++ ";\n" := by
    simp [valueOrStatement, EmitContext.atStatementLevel, level, outside]
  cases n with
  | globals body =>
      rw [statementDepths, statementDepths, List.append_nil]
      refine (lays_nodes wf (fun m hm => inner m hm (wf m hm)) level outside).congr ?_
      intro width
      rw [node]
  | call callee isAsync args =>
      rw [statementDepths_plain (by simp) rfl, Node.innerDepths]
      refine ((flows_callText wf parts c none).ends c.indent (by decide : OneLine ";") rfl).congr ?_
      intro width
      simp [node_call, value, pad_withWidth]
  | doBlock isAsync body =>
      rw [statementDepths_plain (by simp) rfl, Node.innerDepths]
      refine ((flows_doText wf inner isAsync c).ends c.indent
        (by decide : OneLine ";") rfl).congr ?_
      intro width
      simp [node_doBlock, value, pad_withWidth]
  | varDecl name type mutable isArray init =>
      exact statementLays_varDecl wf texts parts c level outside
  | assign target op value => exact statementLays_assign wf texts parts c level outside
  | function name params returnType isAsync body =>
      exact statementLays_function wf texts inner c level outside
  | returnStmt value => exact statementLays_returnStmt wf parts c level outside
  | ifStmt test body otherwise =>
      obtain ⟨ht, hb, ho⟩ := wf
      have condition := flows_condition ht hb ho parts inner level outside
      rw [statementDepths_plain (by simp) rfl, Node.innerDepths]
      refine (condition.line c.indent).congr ?_
      intro width
      simp [node_ifStmt, pad_withWidth]
  | forStmt i first last body => exact statementLays_forStmt wf texts parts inner c level outside
  | loop exit body => exact statementLays_loop wf parts inner c level outside
  | exitWhen condition =>
      have written := (flows_expression wf parts c).before (by decide : OneLine "if (")
      rw [statementDepths_plain (by simp) rfl, Node.innerDepths]
      refine (written.ends c.indent (by decide : OneLine ") \x7b break; \x7d") rfl).congr ?_
      intro width
      simp [node, pad_withWidth, String.append_assoc]
  | expect condition =>
      have written := (flows_expression wf parts c).before (by decide : OneLine "if (!(")
      rw [statementDepths_plain (by simp) rfl, Node.innerDepths]
      refine (written.ends c.indent (by decide : OneLine ")) \x7b return; \x7d") rfl).congr ?_
      intro width
      simp [node, pad_withWidth, String.append_assoc]
  | struct name body => exact statementLays_struct wf texts inner c level outside
  | exprStmt list =>
      have written := flows_expression wf.2 parts c
      rw [statementDepths_plain (by simp) rfl, Node.innerDepths]
      refine (written.ends c.indent (by decide : OneLine ";") rfl).congr ?_
      intro width
      simp [node, level, pad_withWidth, String.append_assoc]
  | comment text =>
      have said : OneLine text := texts (.comment text) (by simp [Node.ownTexts])
      rw [statementDepths_plain (by simp) rfl, Node.innerDepths]
      refine (lays_line (OneLine.append (by decide : OneLine "// ") said) rfl c.indent).congr ?_
      intro width
      simp [node, pad_withWidth, String.append_assoc]
  | instruction op operands => exact statementLays_instruction wf inside parts c level outside
  | debug =>
      rw [statementDepths_plain (by simp) rfl, Node.innerDepths]
      refine (lays_line (by decide : OneLine "debugger;") rfl c.indent).congr ?_
      intro width
      simp [node, pad_withWidth]
  | _ => cases hn

/-- Every statement of a program has lines of its own. -/
theorem statementLays {p : ParseOptions} {n : Node} (wf : Everywhere (Node.WellFormed p) [n])
    (texts : Everywhere (Node.TextsHave (Text.Fits Q)) [n]) (hn : n.isStatement) :
    StatementLays Q o n := by
  have both (n : Node) : Everywhere (Node.WellFormed p) [n] →
      Everywhere (Node.TextsHave (Text.Fits Q)) [n] →
      (n.isInline → PartFlows Q o n) ∧ (n.isStatement → StatementLays Q o n) := by
    induction n using Node.induction_children with
    | step n ih =>
        intro wf texts
        obtain ⟨⟨shape, shapes⟩, -⟩ := everywhere_cons.mp wf
        obtain ⟨⟨own, others⟩, -⟩ := everywhere_cons.mp texts
        have shapes := (everywhere_iff _).mp shapes
        have others := (everywhere_iff _).mp others
        have held (m : Node) (hm : m ∈ n.children) :=
          ih m hm (by simpa using shapes m hm) (by simpa using others m hm)
        have parts := fun m hm => (held m hm).1
        have inner := fun m hm => (held m hm).2
        exact ⟨partFlows_of_children shape own parts inner,
          statementLays_of_children shape own (fun m hm => (others m hm).1) parts inner⟩
  exact (both n wf texts).2 hn

end Emit

end MapScript
