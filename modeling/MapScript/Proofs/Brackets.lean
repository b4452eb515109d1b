import MapScript.Proofs.Emission
import MapScript.Proofs.Prologue
import MapScript.Proofs.Texts

/-!
# Brackets in the output

A text is read from left to right with the closing brackets that are awaited, the next one first.
It is neutral if it leaves them as they were, whatever they are. Neutral texts may stand side by
side and between a pair of brackets, and that is how all output is put together: as long as the
texts of a tree have no brackets of their own, every node writes a neutral text.
-/
namespace MapScript

def brackets : List Char := ['(', ')', '[', ']', '\x7b', '\x7d']

/-- The bracket that closes an opening one. -/
def closing? : Char → Option Char
  | '(' => some ')'
  | '[' => some ']'
  | '\x7b' => some '\x7d'
  | _ => none

/-- The closing brackets that are awaited after a character. A closing bracket has to be the one
that is awaited next. -/
def readBracket (awaited : List Char) (c : Char) : Option (List Char) :=
  match closing? c with
  | some close => some (close :: awaited)
  | none =>
    if c ∈ brackets then
      match awaited with
      | close :: rest => if c = close then some rest else none
      | [] => none
    else some awaited

/-- The closing brackets that are awaited after a text, or nothing if a bracket in it closes no
other or one of another sort. -/
def readBrackets : List Char → List Char → Option (List Char)
  | awaited, [] => some awaited
  | awaited, c :: text => (readBracket awaited c).bind (readBrackets · text)

/-- Every bracket of the text has its partner, and pairs do not cross. -/
def ProperlyNested (text : String) : Prop := readBrackets [] text.toList = some []

instance (text : String) : Decidable (ProperlyNested text) :=
  inferInstanceAs (Decidable (_ = _))

def BracketFree (text : String) : Prop := ∀ c ∈ text.toList, c ∉ brackets

instance (text : String) : Decidable (BracketFree text) := List.decidableBAll _ text.toList

/-- The text leaves the brackets that are awaited as they are. -/
abbrev Neutral (text : String) : Prop :=
  ∀ awaited, readBrackets awaited text.toList = some awaited

@[simp] theorem readBrackets_nil (awaited : List Char) :
    readBrackets awaited [] = some awaited := rfl

@[simp] theorem readBrackets_cons (awaited : List Char) (c : Char) (text : List Char) :
    readBrackets awaited (c :: text) = (readBracket awaited c).bind (readBrackets · text) := rfl

@[simp] theorem readBrackets_append (awaited text more : List Char) :
    readBrackets awaited (text ++ more) =
      (readBrackets awaited text).bind (readBrackets · more) := by
  induction text generalizing awaited with
  | nil => rfl
  | cons c text ih => simp [ih, Option.bind_assoc]

theorem readBracket_of_not_mem {c : Char} (h : c ∉ brackets) (awaited : List Char) :
    readBracket awaited c = some awaited := by
  unfold readBracket
  split
  · rename_i close hc
    unfold closing? at hc
    split at hc <;> simp_all [brackets]
  · rw [if_neg h]

theorem readBracket_frame {awaited left : List Char} {c : Char}
    (h : readBracket awaited c = some left) (more : List Char) :
    readBracket (awaited ++ more) c = some (left ++ more) := by
  unfold readBracket at h ⊢
  cases hc : closing? c with
  | some close =>
      rw [hc] at h
      obtain rfl := Option.some.inj h
      rfl
  | none =>
      rw [hc] at h
      by_cases bracket : c ∈ brackets
      · cases awaited with
        | nil => simp [bracket] at h
        | cons close rest => simpa [bracket] using h
      · simpa [bracket] using h

/-- The brackets that are awaited beyond those of the text itself do not matter. -/
theorem readBrackets_frame {awaited left text : List Char}
    (h : readBrackets awaited text = some left) (more : List Char) :
    readBrackets (awaited ++ more) text = some (left ++ more) := by
  induction text generalizing awaited with
  | nil =>
      obtain rfl := Option.some.inj h
      rfl
  | cons c text ih =>
      obtain ⟨next, step, rest⟩ := Option.bind_eq_some_iff.mp h
      rw [readBrackets_cons, readBracket_frame step]
      exact ih rest

theorem properlyNested_iff_neutral {text : String} : ProperlyNested text ↔ Neutral text := by
  constructor
  · intro h awaited
    exact readBrackets_frame h awaited
  · intro h
    exact h []

theorem readBrackets_of_free {text : List Char} (h : ∀ c ∈ text, c ∉ brackets)
    (awaited : List Char) : readBrackets awaited text = some awaited := by
  induction text with
  | nil => rfl
  | cons c text ih =>
      have here := readBracket_of_not_mem (h c (by simp)) awaited
      have rest := ih fun d hd => h d (by simp [hd])
      simp [here, rest]

theorem BracketFree.neutral {text : String} (h : BracketFree text) : Neutral text :=
  readBrackets_of_free h

theorem properlyNested_ofList {text : List Char} (h : readBrackets [] text = some []) :
    ProperlyNested (String.ofList text) := by
  rw [ProperlyNested, String.toList_ofList]
  exact h

theorem Neutral.append {text more : String} (h : Neutral text) (hm : Neutral more) :
    Neutral (text ++ more) := by
  intro awaited
  simp [h awaited, hm awaited]

theorem neutral_empty : Neutral "" := fun _ => rfl

theorem neutral_join {texts : List String} (h : ∀ text ∈ texts, Neutral text) :
    Neutral (String.join texts) := by
  induction texts with
  | nil => exact neutral_empty
  | cons text texts ih =>
      rw [String.join_cons]
      exact (h text (by simp)).append (ih fun t ht => h t (by simp [ht]))

theorem neutral_intercalate {separator : String} (hs : Neutral separator) {texts : List String}
    (h : ∀ text ∈ texts, Neutral text) : Neutral (String.intercalate separator texts) :=
  intercalate_of_append neutral_empty (fun _ _ => Neutral.append) hs h

theorem BracketFree.lowerWord {word : String} (h : BracketFree word) :
    BracketFree (lowerWord word) := by
  have letterless : ∀ c ∈ brackets, c.isAlpha = false := by simp [brackets]
  intro c hc bracket
  exact h c (mem_of_mem_lowerWord (letterless c bracket) hc) bracket

theorem Helper.bracketFree_all : ∀ h ∈ all, BracketFree h.name ∧ BracketFree h.params := by
  decide

theorem Instruction.bracketFree_all :
    ∀ i ∈ all, BracketFree i.name ∧ BracketFree i.params := by
  decide

theorem Helper.properlyNested_action : ∀ h ∈ all, ProperlyNested h.action := by
  simp only [all, List.forall_mem_cons, List.not_mem_nil, false_implies, implies_true, and_true]
  and_intros <;> exact properlyNested_ofList (by decide)

theorem Instruction.properlyNested_action : ∀ i ∈ all, ProperlyNested i.action := by
  simp only [all, List.forall_mem_cons, List.not_mem_nil, false_implies, implies_true, and_true]
  and_intros <;> exact properlyNested_ofList (by decide)

theorem bracketFree_privateName {name : String} (h : BracketFree name) :
    BracketFree (privateName name) := by
  intro c hc
  rw [privateName, String.toList_append] at hc
  rcases List.mem_append.mp hc with fixed | own
  · exact (by decide : BracketFree "__") c fixed
  · exact h c own

theorem neutral_functionText {name params action : String} (hn : BracketFree name)
    (hp : BracketFree params) (ha : ProperlyNested action) :
    Neutral (functionText name params action) := by
  have name := (bracketFree_privateName hn).neutral
  have params := hp.neutral
  have action := properlyNested_iff_neutral.mp ha
  intro awaited
  unfold functionText
  simp [name, params, action, readBracket, closing?, brackets]

/-- The texts of a node have no brackets. -/
abbrev Node.BracketFree (n : Node) : Prop := n.TextsHave fun x => MapScript.BracketFree x.text

namespace Piece

theorem neutral_joined {separator : String} (hs : Neutral separator) {ps : List Piece}
    (h : ∀ p ∈ ps, Neutral p.text) : Neutral (joined separator ps).text := by
  rw [text_joined]
  apply neutral_intercalate hs
  intro text ht
  obtain ⟨p, hp, rfl⟩ := List.mem_map.mp ht
  exact h p hp

end Piece

namespace Emit
variable (o : EmitOptions)

theorem bracketFree_docType {type : String} (h : BracketFree type) :
    BracketFree (docType type) :=
  docType_cases h (by decide)

theorem bracketFree_operatorText {op : String} (h : BracketFree op) (before after : Option Node) :
    BracketFree (Node.operatorText op before after) :=
  operatorText_cases h before after (by decide)

theorem bracketFree_counted? {name rest : String} (h : BracketFree name)
    (hc : counted? name = some rest) : BracketFree rest :=
  fun c mem => h c (mem_of_counted? hc mem)

theorem neutral_pad (c : EmitContext) : Neutral (pad o c) := by
  apply BracketFree.neutral
  intro blank hb
  rw [pad, String.toList_ofList] at hb
  rw [List.eq_of_mem_replicate hb]
  decide

theorem neutral_comma : Neutral ", " := BracketFree.neutral (by decide)

attribute [local simp] Piece.ofText readBracket closing? brackets neutral_pad

theorem neutral_name {word : String} (h : BracketFree word) : Neutral (name o word).text := by
  intro awaited
  unfold name
  split
  · rename_i rest hc
    have rest := (bracketFree_counted? h hc).neutral
    simp [rest]
  · split
    · have small := h.lowerWord.neutral
      simp [small]
    · exact h.neutral awaited

theorem neutral_propertyText {word : String} (h : BracketFree word) :
    Neutral (propertyText word) := by
  intro awaited
  unfold propertyText
  split
  · rename_i rest hc
    have rest := (bracketFree_counted? h hc).neutral
    simp [rest]
  · simp [h.neutral]

theorem neutral_typeComment {type : Option String} (h : ∀ t ∈ type, BracketFree t)
    (c : EmitContext) : Neutral (typeComment o type c) := by
  intro awaited
  unfold typeComment
  split
  · rename_i type
    have doc := (bracketFree_docType (h type rfl)).neutral
    split <;> simp [braced, doc]
  · rfl

theorem neutral_paramComment {p : Param} (hn : BracketFree p.name)
    (ht : ∀ t ∈ p.type, BracketFree t) (c : EmitContext) : Neutral (paramComment o c p) := by
  intro awaited
  have doc : Neutral ((p.type.map docType).getD "*") := by
    cases hp : p.type with
    | none => exact BracketFree.neutral (by decide)
    | some type => exact (bracketFree_docType (ht type hp)).neutral
  simp [paramComment, braced, doc, hn.neutral]

theorem neutral_bracedBlock {head body : Piece} (hh : Neutral head.text)
    (hb : Neutral body.text) (c : EmitContext) : Neutral (bracedBlock o head body c).text := by
  intro awaited
  simp [bracedBlock, hh, hb]

theorem neutral_functionComment {params : List Param} {returnType : Option String}
    (hp : ∀ p ∈ params, BracketFree p.name ∧ ∀ t ∈ p.type, BracketFree t)
    (ht : ∀ t ∈ returnType, BracketFree t) (c : EmitContext) :
    Neutral (functionComment o params returnType c) := by
  intro awaited
  have lines : Neutral (String.join (params.map (paramComment o c))) := by
    apply neutral_join
    intro line hl
    obtain ⟨p, hm, rfl⟩ := List.mem_map.mp hl
    exact neutral_paramComment o (hp p hm).1 (hp p hm).2 c
  unfold functionComment
  generalize String.join _ = text at lines ⊢
  split
  · cases returnType with
    | none => simp [lines]
    | some type =>
        have doc := (bracketFree_docType (ht type rfl)).neutral
        simp [lines, braced, doc]
  · rfl

theorem neutral_function {name : String} {params : List Param} {returnType : Option String}
    {body : Piece} (hn : BracketFree name)
    (hp : ∀ p ∈ params, BracketFree p.name ∧ ∀ t ∈ p.type, BracketFree t)
    (ht : ∀ t ∈ returnType, BracketFree t) (hb : Neutral body.text) (isAsync : Bool)
    (c : EmitContext) : Neutral (function o name params returnType isAsync body c).text := by
  intro awaited
  have comment := neutral_functionComment o hp ht c
  have names : Neutral (String.intercalate ", " (params.map (·.name))) := by
    apply neutral_intercalate neutral_comma
    intro name hm
    obtain ⟨p, hp', rfl⟩ := List.mem_map.mp hm
    exact (hp p hp').1.neutral
  unfold function
  generalize String.intercalate _ _ = list at names ⊢
  cases isAsync <;> cases hc : c.inObject <;>
    simp [comment, names, hn.neutral, hb]

theorem neutral_varDecl {name : String} {type : Option String} {value : Option Piece}
    (hn : BracketFree name) (ht : ∀ t ∈ type, BracketFree t)
    (hv : ∀ p ∈ value, Neutral p.text) (mutable : Bool) (c : EmitContext) :
    Neutral (varDecl o name type mutable value c).text := by
  intro awaited
  have comment := neutral_typeComment o ht c
  unfold varDecl
  cases value with
  | none => split <;> cases mutable <;> simp [comment, hn.neutral]
  | some value =>
      have value := hv value rfl
      split <;> cases mutable <;> simp [comment, hn.neutral, value]

theorem neutral_assign {target value : Piece} {op : String} (ht : Neutral target.text)
    (ho : BracketFree op) (hv : Neutral value.text) (c : EmitContext) :
    Neutral (assign o target op value c).text := by
  intro awaited
  unfold assign
  split <;> simp [ht, ho.neutral, hv]

theorem neutral_valueOrStatement {value : Piece} (h : Neutral value.text) (c : EmitContext) :
    Neutral (valueOrStatement o value c).text := by
  intro awaited
  unfold valueOrStatement
  split <;> simp [h]

/-- An instruction that does not exist leaves its operands side by side. -/
theorem neutral_instruction {op : String} {operands : List Piece}
    (h : ∀ p ∈ operands, Neutral p.text) (c : EmitContext) :
    Neutral (instruction o op operands c).text := by
  intro awaited
  have operands := Piece.neutral_joined neutral_comma h
  unfold instruction
  split
  · rename_i i found
    have target := (bracketFree_privateName
      (Instruction.bracketFree_all i (List.mem_of_find?_eq_some found)).1).neutral
    simp [Instruction.target, target, operands]
  · simp [operands]

/-- Where the node is written, its text is neutral, if what stands between neighbours there is. -/
def StaysNeutral (n : Node) : Prop :=
  ∀ c before after, Neutral c.separatorText → Neutral (node o c before after n).text

theorem neutral_separatorText {c : EmitContext} (h : c.separator = none ∨ c.separator = some ", ") :
    Neutral c.separatorText := by
  unfold EmitContext.separatorText
  rcases h with h | h
  · rw [h]
    cases c.allowSpaces <;> exact BracketFree.neutral (by decide)
  · rw [h]
    exact neutral_comma

theorem neutral_gap {c : EmitContext} (hc : Neutral c.separatorText) (n : Node)
    (before : Option Node) (tight : Bool) : Neutral (gap n before tight c) := by
  unfold gap
  split
  · exact neutral_empty
  · exact hc

section
variable {o} {ns : List Node} (h : ∀ n ∈ ns, StaysNeutral o n) {c : EmitContext}
  (hc : Neutral c.separatorText)
include h hc

theorem neutral_nodes (before : Option Node) (tight : Bool) :
    Neutral (nodes o c before tight ns).text := by
  induction ns generalizing before tight with
  | nil =>
      rw [nodes]
      exact neutral_empty
  | cons n ns ih =>
      have first := h n (by simp) c before ns.head? hc
      have rest (tight : Bool) := ih (fun m hm => h m (by simp [hm])) (some n) tight
      rw [nodes]
      split
      · exact first.append (rest _)
      · exact ((neutral_gap hc n before tight).append first).append (rest _)

theorem neutral_links : Neutral (links o c ns).text := by
  induction ns with
  | nil =>
      rw [links]
      exact neutral_empty
  | cons n ns ih =>
      have first := h n (by simp) c none none hc
      rw [links]
      exact first.append (ih fun m hm => h m (by simp [hm]))

/-- A register that is written to stands in quotes. -/
theorem neutral_operandList (plain : ∀ n ∈ ns, n.BracketFree) (destinations : Nat) :
    ∀ p ∈ operandList o c destinations ns, Neutral p.text := by
  induction ns generalizing destinations with
  | nil => simp [operandList]
  | cons n ns ih =>
      have first := h n (by simp) c none none hc
      have word := plain n (by simp)
      have rest := ih (fun m hm => h m (by simp [hm])) (fun m hm => plain m (by simp [hm]))
        (destinations - 1)
      unfold operandList
      rw [List.forall_mem_cons]
      constructor
      · split
        · rename_i name _
          have plain : BracketFree name := word (.name name) (by simp [Node.ownTexts])
          intro awaited
          simp [plain.lowerWord.neutral]
        · exact first
      · exact rest

end

theorem neutral_fieldList {fields : List (String × List Node)}
    (plain : ∀ field ∈ fields, BracketFree field.1)
    (h : ∀ n ∈ fields.flatMap (·.2), StaysNeutral o n) {c : EmitContext}
    (hc : Neutral c.separatorText) : ∀ p ∈ fieldList o c fields, Neutral p.text := by
  induction fields with
  | nil => simp [fieldList]
  | cons field fields ih =>
      obtain ⟨key, value⟩ := field
      obtain ⟨here, others⟩ := List.forall_mem_append.mp (List.flatMap_cons ▸ h)
      have named : Neutral key := (plain (key, value) (by simp)).neutral
      have held : Neutral (nodes o c none true value).text := neutral_nodes here hc none true
      rw [fieldList]
      rw [List.forall_mem_cons]
      constructor
      · intro awaited
        simp [named, held]
      · exact ih (fun field hf => plain field (by simp [hf])) others

theorem neutral_branch {otherwise : Option (List Node)}
    (h : ∀ n ∈ otherwise.getD [], StaysNeutral o n) {c : EmitContext}
    (hc : Neutral c.separatorText) : Neutral (branch o c otherwise).text := by
  unfold branch
  split
  · exact neutral_empty
  · -- A condition goes on with the text of a statement of its own.
    rename_i test body otherwise
    have whole := h (.ifStmt test body otherwise) (by simp) c none none hc
    rw [node] at whole
    intro awaited
    simpa using whole awaited
  · have body := neutral_nodes h (neutral_separatorText (c := c.block) (.inl rfl)) none true
    have head : Neutral " else" := BracketFree.neutral (by decide)
    exact neutral_bracedBlock o head body c

theorem bracketFree_of_typeTexts {type : Option String}
    (h : ∀ x ∈ typeTexts type, BracketFree x.text) : ∀ t ∈ type, BracketFree t := by
  intro t ht
  exact h (.name t) (List.mem_map.mpr ⟨t, Option.mem_toList.mpr ht, rfl⟩)

section
variable {o} {ns : List Node} (h : ∀ n ∈ ns, StaysNeutral o n) (c : EmitContext)
include h

theorem neutral_inline : Neutral (nodes o c.inline none true ns).text :=
  neutral_nodes h (neutral_separatorText (.inl rfl)) none true

theorem neutral_body : Neutral (nodes o c.block none true ns).text :=
  neutral_nodes h (neutral_separatorText (.inl rfl)) none true

end

section
variable {o} (c : EmitContext) (before after : Option Node)

theorem neutral_node_varDecl {name : String} {type : Option String} {mutable isArray : Bool}
    {init : List Node} (hn : BracketFree name) (ht : ∀ t ∈ type, BracketFree t)
    (h : ∀ n ∈ init, StaysNeutral o n) :
    Neutral (node o c before after (.varDecl name type mutable isArray init)).text := by
  cases init with
  | nil =>
      rw [node]
      apply neutral_varDecl o hn ht
      intro p hp awaited
      cases isArray with
      | false => cases hp
      | true =>
          obtain rfl := Option.some.inj hp
          simp
  | cons part parts =>
      rw [node]
      apply neutral_varDecl o hn ht
      intro p hp
      obtain rfl := Option.some.inj hp
      exact neutral_inline h c

theorem neutral_node_function {name : String} {params : List Param} {returnType : Option String}
    {isAsync : Bool} {body : List Node}
    (plain : (Node.function name params returnType isAsync body).BracketFree)
    (h : ∀ n ∈ body, StaysNeutral o n) :
    Neutral (node o c before after (.function name params returnType isAsync body)).text := by
  obtain ⟨hn, others⟩ := List.forall_mem_cons.mp plain
  obtain ⟨hp, ht⟩ := List.forall_mem_append.mp others
  rw [node]
  apply neutral_function o hn _ (bracketFree_of_typeTexts ht) (neutral_body h c)
  intro p hm
  have texts : ∀ x ∈ p.texts, BracketFree x.text :=
    fun x hx => hp x (List.mem_flatMap.mpr ⟨p, hm, hx⟩)
  obtain ⟨name, type⟩ := List.forall_mem_cons.mp texts
  exact ⟨name, bracketFree_of_typeTexts type⟩

theorem neutral_node_returnStmt {value : List Node} (h : ∀ n ∈ value, StaysNeutral o n) :
    Neutral (node o c before after (.returnStmt value)).text := by
  intro awaited
  cases value with
  | nil => simp [node]
  | cons part parts =>
      have value := neutral_inline h c
      simp [node, value]

/-- What is called is a helper or has the text of the callee. -/
theorem neutral_node_call {callee args : List Node} {isAsync : Bool}
    (h : ∀ n ∈ callee, StaysNeutral o n) (h' : ∀ n ∈ args, StaysNeutral o n) :
    Neutral (node o c before after (.call callee isAsync args)).text := by
  have target := neutral_inline h c
  have args := neutral_nodes h' (neutral_separatorText (c := c.callArgs) (.inr rfl)) none true
  rw [node]
  apply neutral_valueOrStatement
  intro awaited
  cases called : calledHelper? callee before with
  | none => cases isAsync <;> simp [target, args]
  | some helper =>
      obtain ⟨n, name, -, -, -, found⟩ := calledHelper?_eq_some_iff.mp called
      have target := (bracketFree_privateName
        (Helper.bracketFree_all helper (List.mem_of_find?_eq_some found)).1).neutral
      cases isAsync <;> simp [Helper.target, target, args]

theorem neutral_node_forStmt {i : String} {first last body : List Node} (hi : BracketFree i)
    (h : ∀ n ∈ first, StaysNeutral o n) (h' : ∀ n ∈ last, StaysNeutral o n)
    (hb : ∀ n ∈ body, StaysNeutral o n) :
    Neutral (node o c before after (.forStmt i first last body)).text := by
  have first := neutral_inline h c
  have last := neutral_inline h' c
  have body := neutral_body hb c
  intro awaited
  simp [node, bracedBlock, hi.neutral, first, last, body]

theorem neutral_node_loop {exit : Option (List Node)} {body : List Node}
    (h : ∀ n ∈ exit.getD [], StaysNeutral o n) (hb : ∀ n ∈ body, StaysNeutral o n) :
    Neutral (node o c before after (.loop exit body)).text := by
  have body := neutral_body hb c
  intro awaited
  cases exit with
  | none => simp [node, bracedBlock, body]
  | some exit =>
      have exit : Neutral (nodes o c.inline none true exit).text := neutral_inline h c
      simp [node, bracedBlock, exit, body]

theorem neutral_node_object {fields : List (String × List Node)}
    (plain : ∀ field ∈ fields, BracketFree field.1)
    (h : ∀ n ∈ fields.flatMap (·.2), StaysNeutral o n) :
    Neutral (node o c before after (.object fields)).text := by
  intro awaited
  cases fields with
  | nil => simp [node]
  | cons field fields =>
      have fields := Piece.neutral_joined neutral_comma
        (neutral_fieldList o plain h (neutral_separatorText (c := c.inline) (.inl rfl)))
      simp [node, fields]

theorem neutral_node_literal {kind : LiteralKind} {value : String} (h : BracketFree value) :
    Neutral (node o c before after (.literal kind value)).text := by
  cases kind with
  | nil =>
      rw [node]
      exact BracketFree.neutral (by decide)
  | _ => simpa [node] using h.neutral

end

/-- A node writes neutral text if the nodes that it holds do. -/
theorem staysNeutral_of_children {n : Node} (plain : n.BracketFree)
    (inside : ∀ m ∈ n.children, m.BracketFree) (h : ∀ m ∈ n.children, StaysNeutral o m) :
    StaysNeutral o n := by
  intro c before after hc
  cases n with
  | globals body =>
      rw [node]
      exact neutral_nodes h hc none true
  | varDecl name type mutable isArray init =>
      obtain ⟨hn, ht⟩ := List.forall_mem_cons.mp plain
      exact neutral_node_varDecl c before after hn (bracketFree_of_typeTexts ht) h
  | assign target op value =>
      obtain ⟨target, value⟩ := List.forall_mem_append.mp h
      have op := plain (.symbol op) (by simp [Node.ownTexts])
      rw [node]
      exact neutral_assign o (neutral_inline target c) op (neutral_inline value c) c
  | function name params returnType isAsync body =>
      exact neutral_node_function c before after plain h
  | doBlock isAsync body =>
      have body : Neutral (nodes o c.block none true body).text := neutral_body h c
      rw [node]
      apply neutral_valueOrStatement
      intro awaited
      cases isAsync <;> simp [bracedBlock, body]
  | returnStmt value => exact neutral_node_returnStmt c before after h
  | ifStmt test body otherwise =>
      obtain ⟨first, others⟩ := List.forall_mem_append.mp h
      obtain ⟨test, body⟩ := List.forall_mem_append.mp first
      have rest : Neutral (branch o c otherwise).text := neutral_branch o others hc
      intro awaited
      simp [node, bracedBlock, neutral_inline test c, neutral_body body c, rest]
  | call callee isAsync args =>
      obtain ⟨callee, args⟩ := List.forall_mem_append.mp h
      exact neutral_node_call c before after callee args
  | member object chain =>
      have object := neutral_name o (plain (.name object) (by simp [Node.ownTexts]))
      rw [node]
      exact object.append (neutral_links h (neutral_separatorText (.inl rfl)))
  | property name =>
      rw [node]
      exact neutral_propertyText (plain (.member name) (by simp [Node.ownTexts]))
  | index parts | group parts =>
      have parts : Neutral (nodes o c.inline none true parts).text := neutral_inline h c
      intro awaited
      simp [node, parts]
  | forStmt i first last body =>
      obtain ⟨bounds, body⟩ := List.forall_mem_append.mp h
      obtain ⟨first, last⟩ := List.forall_mem_append.mp bounds
      have index := plain (.name i) (by simp [Node.ownTexts])
      exact neutral_node_forStmt c before after index first last body
  | loop exit body =>
      obtain ⟨exit, body⟩ := List.forall_mem_append.mp h
      exact neutral_node_loop c before after exit body
  | exitWhen condition | expect condition =>
      have condition : Neutral (nodes o c.inline none true condition).text := neutral_inline h c
      intro awaited
      simp [node, condition]
  | struct name body =>
      have named : Neutral name := (plain (.name name) (by simp [Node.ownTexts])).neutral
      have body : Neutral (nodes o c.object none true body).text :=
        neutral_nodes h (neutral_separatorText (.inl rfl)) none true
      intro awaited
      simp [node, bracedBlock, named, body]
  | exprStmt parts =>
      have parts : Neutral (nodes o c.inline none true parts).text := neutral_inline h c
      intro awaited
      rw [node]
      split <;> simp [parts]
  | expr parts =>
      rw [node]
      exact neutral_inline h c
  | array items =>
      have items : Neutral (nodes o (c.separated ", ") none true items).text :=
        neutral_nodes h (neutral_separatorText (.inr rfl)) none true
      intro awaited
      simp [node, items]
  | object fields =>
      exact neutral_node_object c before after
        (fun f hf => plain (.key f.1) (List.mem_map.mpr ⟨f, hf, rfl⟩)) h
  | literal kind value =>
      exact neutral_node_literal c before after
        (plain (.value kind value) (by simp [Node.ownTexts]))
  | identifier name =>
      rw [node]
      exact neutral_name o (plain (.name name) (by simp [Node.ownTexts]))
  | operator op =>
      rw [node]
      exact (bracketFree_operatorText (plain (.symbol op) (by simp [Node.ownTexts])) _ _).neutral
  | comment text =>
      have said : Neutral text := (plain (.comment text) (by simp [Node.ownTexts])).neutral
      intro awaited
      simp [node, said]
  | instruction op operands =>
      rw [node]
      exact neutral_instruction o
        (neutral_operandList h (neutral_separatorText (.inl rfl)) inside _) c
  | debug =>
      intro awaited
      simp [node]

theorem staysNeutral {n : Node} (plain : Everywhere Node.BracketFree [n]) : StaysNeutral o n := by
  induction n using Node.induction_children with
  | step n ih =>
      obtain ⟨⟨own, inside⟩, -⟩ := everywhere_cons.mp plain
      have inside := (everywhere_iff _).mp inside
      apply staysNeutral_of_children o own fun m hm => (inside m hm).1
      intro m hm
      exact ih m hm (by simpa using inside m hm)

/-- Every definition is neutral by itself, so that it does not matter which of them are there. -/
theorem neutral_prologue (uses : List Use) : Neutral (prologue uses) := by
  have newline : Neutral "\n" := BracketFree.neutral (by decide)
  have registers : ProperlyNested registerPrelude := by decide
  have instruction : ∀ i ∈ Instruction.all, Neutral i.definition := by
    intro i hi
    obtain ⟨name, params⟩ := Instruction.bracketFree_all i hi
    exact neutral_functionText name params (Instruction.properlyNested_action i hi)
  have helper : ∀ h ∈ Helper.all, Neutral h.definition := by
    intro h hh
    obtain ⟨name, params⟩ := Helper.bracketFree_all h hh
    exact neutral_functionText name params (Helper.properlyNested_action h hh)
  apply Neutral.append
  · apply Neutral.append
    · split
      · exact (properlyNested_iff_neutral.mp registers).append newline
      · exact neutral_empty
    · apply neutral_join
      intro text ht
      obtain ⟨i, hi, rfl⟩ := List.mem_map.mp ht
      exact (instruction i (List.mem_of_mem_filter hi)).append newline
  · apply neutral_join
    intro text ht
    obtain ⟨h, hh, rfl⟩ := List.mem_map.mp ht
    exact (helper h (List.mem_of_mem_filter hh)).append newline

theorem neutral_wrapped {code : String} (h : Neutral code) (isAsync : Bool) :
    Neutral (wrapped isAsync code) := by
  intro awaited
  cases isAsync <;> simp [wrapped, h]

end Emit

/-- The brackets in the output of a tree are properly nested, whatever the shape of the tree, as
long as its instructions exist and its texts have no brackets. -/
theorem generate_properlyNested (o : EmitOptions) (tree : Tree)
    (known : ∀ op operands, Occurs (.instruction op operands) tree.body →
      ∃ i ∈ Instruction.all, sameWord i.name op = true)
    (plain : Everywhere Node.BracketFree tree.body) :
    ∃ script, generate o tree = .ok script ∧ ProperlyNested script.code := by
  have body : Neutral (Emit.nodes o .root none true tree.body).text := by
    apply Emit.neutral_nodes _ (Emit.neutral_separatorText (.inl rfl))
    intro n hn
    apply Emit.staysNeutral
    simpa using (everywhere_iff _).mp plain n hn
  have whole := (Emit.neutral_prologue (Emit.nodes o .root none true tree.body).uses).append body
  unfold generate
  dsimp only
  rw [Emit.unknown?_nodes, flatMap_unlisted_eq_nil known]
  refine ⟨_, rfl, properlyNested_iff_neutral.mpr ?_⟩
  dsimp only
  split
  · exact Emit.neutral_wrapped whole tree.isAsync
  · exact whole

/-- A struct with a method that a program would not have in this place, and an array as the operand
of an instruction. -/
theorem generate_properlyNested_struct :
    ∃ script, generate ⟨true, true, 2, true⟩
        ⟨[.struct "Hero" [.function "grow" [⟨"by", some "real"⟩] none true
          [.ifStmt [.identifier "by"] [.instruction "PUSH" [.array [.identifier "ax"]]]
            (some [.returnStmt [.object [("level", [.literal .number "1"])]]])]]], false⟩ =
        .ok script ∧ ProperlyNested script.code := by
  apply generate_properlyNested
  · have listed : ∃ i ∈ Instruction.all, sameWord i.name "PUSH" = true := by decide
    have everywhere : Everywhere (fun n => ∀ op operands, n = .instruction op operands →
        ∃ i ∈ Instruction.all, sameWord i.name op = true) [.struct "Hero" [.function "grow"
          [⟨"by", some "real"⟩] none true [.ifStmt [.identifier "by"]
            [.instruction "PUSH" [.array [.identifier "ax"]]]
            (some [.returnStmt [.object [("level", [.literal .number "1"])]]])]]] := by
      simpa [Node.children] using listed
    exact fun op operands occurs => everywhere _ occurs op operands rfl
  · simp [Node.BracketFree, Node.TextsHave, Node.ownTexts, Node.children, Param.texts, typeTexts,
      BracketFree, brackets]

end MapScript
