import MapScript.Proofs.Prologue
import MapScript.Proofs.Spacing

/-!
# What the output calls

A call is written where it stands in the program, with its arguments. What it calls in the output
is decided by the name alone: the name of a helper stands for its private function, unless a member
operator comes before it, and every other name stands for itself. Whether the program declares a
function of that name plays no part in it.

The calls of a program are listed in its order, and in that order they are found in the output: each
of them at a place of its own, behind the places of all calls before it. A name is called only where
the text before it does not end in a name: `min(x)` is also a part of `__min(x)`.
-/
namespace MapScript

/-- A call of a plain name, with what stands right before it. -/
structure NamedCall where
  before : Option Node
  name : String
  isAsync : Bool
  args : List Node

namespace Node

/-- The call of a plain name that a node is. -/
def namedCall? (before : Option Node) : Node → Option NamedCall
  | .call [.identifier name] isAsync args => some ⟨before, name, isAsync, args⟩
  | _ => none

/-- The calls of plain names that a node is and that it holds, in the order of the program. -/
def callsAt (before : Option Node) (n : Node) : List NamedCall :=
  (n.namedCall? before).toList ++ n.siblings.attach.flatMap fun list =>
    (withBefore none list.1).attach.flatMap fun p => p.1.2.callsAt p.1.1
termination_by n
decreasing_by
  exact sizeOf_lt_of_mem_children
    (mem_children_iff.mpr ⟨list.1, list.2, mem_of_mem_withBefore p.2⟩)

end Node

/-- The calls of plain names among nodes and inside them, in the order of the program. -/
def namedCalls (before : Option Node) (ns : List Node) : List NamedCall :=
  (withBefore before ns).flatMap fun p => p.2.callsAt p.1

@[simp] theorem namedCalls_nil (before : Option Node) : namedCalls before [] = [] := rfl

theorem namedCalls_cons (before : Option Node) (n : Node) (ns : List Node) :
    namedCalls before (n :: ns) = n.callsAt before ++ namedCalls (some n) ns := rfl

theorem namedCalls_singleton (n : Node) : namedCalls none [n] = n.callsAt none := by
  rw [namedCalls_cons, namedCalls_nil, List.append_nil]

theorem Node.callsAt_eq (before : Option Node) (n : Node) :
    n.callsAt before =
      (n.namedCall? before).toList ++ n.siblings.flatMap (namedCalls none) := by
  have attached {α β : Type} (list : List α) (f : α → List β) :
      list.attach.flatMap (fun x => f x.1) = list.flatMap f := by
    rw [← List.flatMap_map, List.attach_map_subtype_val]
  rw [callsAt, attached n.siblings fun list =>
    (withBefore none list).attach.flatMap fun p => p.1.2.callsAt p.1.1]
  simp only [attached _ fun p : Option Node × Node => p.2.callsAt p.1]
  rfl

section
variable {call : NamedCall}

/-- The node that a call is. -/
def NamedCall.node (call : NamedCall) : Node :=
  .call [.identifier call.name] call.isAsync call.args

theorem Node.namedCall?_eq_some_iff {before : Option Node} {n : Node} :
    n.namedCall? before = some call ↔ call.before = before ∧ n = call.node := by
  constructor
  · intro h
    unfold namedCall? at h
    split at h
    · obtain rfl := Option.some.inj h
      exact ⟨rfl, rfl⟩
    · cases h
  · rintro ⟨rfl, rfl⟩
    rfl

theorem follows_of_mem_callsAt (n : Node) :
    ∀ before, call ∈ n.callsAt before → (call.before = before ∧ n = call.node) ∨
      ∃ list ∈ n.siblings, Follows call.before call.node list := by
  induction n using Node.induction_children with
  | step n ih =>
      intro before h
      rw [Node.callsAt_eq] at h
      rcases List.mem_append.mp h with own | inside
      · exact .inl (Node.namedCall?_eq_some_iff.mp (Option.mem_toList.mp own))
      · obtain ⟨list, hl, h⟩ := List.mem_flatMap.mp inside
        obtain ⟨⟨b, m⟩, hm, h⟩ := List.mem_flatMap.mp h
        have child := Node.mem_children_iff.mpr ⟨list, hl, mem_of_mem_withBefore hm⟩
        refine .inr ⟨list, hl, ?_⟩
        rcases ih m child b h with ⟨rfl, rfl⟩ | ⟨list', hl', follows⟩
        · exact .here hm
        · exact .inside (mem_of_mem_withBefore hm) hl' follows

/-- The list has the calls of plain names that are anywhere in the tree, and only those. -/
theorem mem_namedCalls_iff {ns : List Node} :
    call ∈ namedCalls none ns ↔ Follows call.before call.node ns := by
  constructor
  · intro h
    obtain ⟨⟨b, m⟩, hm, h⟩ := List.mem_flatMap.mp h
    rcases follows_of_mem_callsAt m b h with ⟨rfl, rfl⟩ | ⟨list, hl, follows⟩
    · exact .here hm
    · exact .inside (mem_of_mem_withBefore hm) hl follows
  · intro h
    induction h with
    | here hb =>
        refine List.mem_flatMap.mpr ⟨_, hb, ?_⟩
        rw [Node.callsAt_eq]
        exact List.mem_append_left _
          (Option.mem_toList.mpr (Node.namedCall?_eq_some_iff.mpr ⟨rfl, rfl⟩))
    | @inside m _ list hm hl _ ih =>
        obtain ⟨b, hb⟩ := exists_mem_withBefore hm none
        refine List.mem_flatMap.mpr ⟨_, hb, ?_⟩
        rw [Node.callsAt_eq]
        exact List.mem_append_right _ (List.mem_flatMap.mpr ⟨list, hl, ih⟩)

end

namespace Emit
variable (o : EmitOptions)

/-- What stands in the output for the name that is called. -/
def calledText (call : NamedCall) : String :=
  match calledHelper? [.identifier call.name] call.before with
  | some helper => helper.target
  | none => (name o call.name).text

/-- The text of a call of the target, with the arguments in the list of a call. -/
def callOf (c : EmitContext) (isAsync : Bool) (target : String) (args : List Node) : String :=
  (if isAsync then "await " else "") ++ target ++ "(" ++
    (nodes o c.callArgs none true args).text ++ ")"

/-- The call is written in the text at a place, and no name ends right before it. An inner call is
not at the start of the text. -/
def Writes (inner : Bool) (text : String) (call : NamedCall) (place : Nat) : Prop :=
  ∃ c pre post, text = pre ++ callOf o c call.isAsync (calledText o call) call.args ++ post ∧
    pre.length = place ∧ (separates pre = true ∨ inner = false ∧ pre = "")

/-- The calls are written in the piece at the places, one behind the other. -/
structure Places (calls : List NamedCall) (inner : Bool) (p : Piece) (places : List Nat) :
    Prop where
  written : List.Forall₂ (Writes o inner p.text) calls places
  sorted : places.Pairwise (· < ·)
  inside : ∀ place ∈ places, place < p.text.length

/-- The calls are written in the piece, one behind the other. -/
def Shows (calls : List NamedCall) (inner : Bool) (p : Piece) : Prop :=
  ∃ places, Places o calls inner p places

section
variable {o} {call : NamedCall} {calls others : List NamedCall} {inner inner' : Bool} {p q : Piece}

theorem Writes.append_left {text : String} {place : Nat} (h : Writes o inner text call place)
    (more : String) : Writes o inner (text ++ more) call place := by
  obtain ⟨c, pre, post, rfl, length, start⟩ := h
  refine ⟨c, pre, post ++ more, ?_, length, start⟩
  simp only [String.append_assoc]

theorem Writes.append_right {text : String} {place : Nat} (h : Writes o inner' text call place)
    {first : String} (joins : inner' = true ∨ separates first = true ∨ inner = false ∧ first = "") :
    Writes o inner (first ++ text) call (first.length + place) := by
  obtain ⟨c, pre, post, rfl, rfl, start⟩ := h
  refine ⟨c, first ++ pre, post, ?_, String.length_append .., ?_⟩
  · simp only [String.append_assoc]
  · rcases start with start | ⟨outer, rfl⟩
    · exact .inl (separates_append start _)
    · rw [String.append_empty]
      exact joins.resolve_left (by simp [outer])

theorem Writes.outer {text : String} {place : Nat} (h : Writes o inner text call place) :
    Writes o false text call place := by
  obtain ⟨c, pre, post, whole, length, start⟩ := h
  exact ⟨c, pre, post, whole, length, start.imp_right fun start => ⟨rfl, start.2⟩⟩

theorem Writes.pos {text : String} {place : Nat} (h : Writes o true text call place) :
    0 < place := by
  obtain ⟨c, pre, post, -, rfl, start⟩ := h
  rw [Nat.pos_iff_ne_zero, Ne, String.length_eq_zero_iff]
  rintro rfl
  cases start.resolve_right (by simp)

theorem shows_nil : Shows o [] inner p :=
  ⟨[], .nil, .nil, List.forall_mem_nil _⟩

/-- The calls of two pieces are written one after the other. -/
theorem Shows.append (h : Shows o calls inner p) (h' : Shows o others inner' q)
    (joins : inner' = true ∨ separates p.text = true ∨ inner = false ∧ p.text = "") :
    Shows o (calls ++ others) inner (p ++ q) := by
  obtain ⟨places, written, sorted, inside⟩ := h
  obtain ⟨places', written', sorted', inside'⟩ := h'
  refine ⟨places ++ places'.map (p.text.length + ·), ?_, ?_, ?_⟩
  · have first := written.imp fun _ _ w => w.append_left q.text
    have second := written'.imp fun _ _ w => w.append_right (o := o) joins
    exact List.rel_append first (List.forall₂_map_right_iff.mpr second)
  · refine List.pairwise_append.mpr ⟨sorted, sorted'.map _ ?_, ?_⟩
    · intro a b less
      omega
    · intro a ha b hb
      obtain ⟨b, -, rfl⟩ := List.mem_map.mp hb
      have bound := inside a ha
      omega
  · intro place hplace
    rw [Piece.text_append, String.length_append]
    rcases List.mem_append.mp hplace with h | h
    · have bound := inside place h
      omega
    · obtain ⟨place', h', rfl⟩ := List.mem_map.mp h
      have bound := inside' place' h'
      omega

theorem Shows.append_left (h : Shows o calls inner p) (q : Piece) :
    Shows o calls inner (p ++ q) := by
  have whole := h.append (shows_nil : Shows o [] true q) (.inl rfl)
  rwa [List.append_nil] at whole

theorem Shows.append_right (h : Shows o calls inner q) (hp : p.Apart) :
    Shows o calls inner (p ++ q) := by
  refine shows_nil.append h ?_
  cases inner with
  | true => exact .inl rfl
  | false => exact .inr (hp.symm.imp_right (⟨rfl, ·⟩))

/-- Behind a text that ends no name, any call is an inner one. -/
theorem Shows.after (h : Shows o calls inner q) (hp : separates p.text = true) :
    Shows o calls inner' (p ++ q) :=
  shows_nil.append h (.inr (.inl hp))

/-- An inner call stays one. -/
theorem Shows.inner_append (h : Shows o calls true q) (p : Piece) :
    Shows o calls inner (p ++ q) :=
  shows_nil.append h (.inl rfl)

theorem Shows.outer (h : Shows o calls inner p) : Shows o calls false p := by
  obtain ⟨places, written, sorted, inside⟩ := h
  exact ⟨places, written.imp fun _ _ w => w.outer, sorted, inside⟩

theorem Shows.after_text (h : Shows o calls inner q) {text : String}
    (ht : separates text = true) : Shows o calls inner' ((text : Piece) ++ q) :=
  h.after ht

theorem Shows.after_append_text (h : Shows o calls inner q) {text : String}
    (ht : separates text = true) : Shows o calls inner' (p ++ (text : Piece) ++ q) :=
  h.after (separates_append ht _)

/-- The calls of a piece, then a text that ends no name, then the calls of another piece. -/
theorem Shows.append_text (h : Shows o calls inner p) (h' : Shows o others inner' q)
    {text : String} (ht : separates text = true) :
    Shows o (calls ++ others) inner (p ++ (text : Piece) ++ q) :=
  (h.append_left _).append h' (.inr (.inl (separates_append ht _)))

theorem length_callOf_pos (c : EmitContext) (isAsync : Bool) (target : String)
    (args : List Node) : 0 < (callOf o c isAsync target args).length := by
  rw [callOf, String.length_append]
  exact Nat.add_pos_right _ (by decide)

/-- A call goes before the calls inside its text. -/
theorem Shows.cons (h : Shows o calls true p) (c : EmitContext) {post : String}
    (text : p.text = callOf o c call.isAsync (calledText o call) call.args ++ post) :
    Shows o (call :: calls) false p := by
  obtain ⟨places, written, sorted, inside⟩ := h
  have own : Writes o false p.text call 0 :=
    ⟨c, "", post, by rw [String.empty_append, text], rfl, .inr ⟨rfl, rfl⟩⟩
  have later : ∀ place ∈ places, 0 < place := by
    clear sorted inside
    induction written with
    | nil => exact List.forall_mem_nil _
    | cons first _ ih => exact List.forall_mem_cons.mpr ⟨first.pos, ih⟩
  refine ⟨0 :: places, .cons own (written.imp fun _ _ w => w.outer),
    List.pairwise_cons.mpr ⟨later, sorted⟩, List.forall_mem_cons.mpr ⟨?_, inside⟩⟩
  have pos := length_callOf_pos (o := o) c call.isAsync (calledText o call) call.args
  rw [text, String.length_append]
  omega

theorem shows_joined {separator : String} (hs : separates separator = true)
    {lists : List (List NamedCall)} {ps : List Piece}
    (h : List.Forall₂ (fun calls p => Shows o calls false p) lists ps) :
    Shows o lists.flatten false (Piece.joined separator ps) := by
  induction h with
  | nil => exact shows_nil
  | @cons calls p lists ps first rest ih =>
      cases rest with
      | nil =>
          rw [List.flatten_cons, List.flatten_nil, List.append_nil]
          exact first
      | cons _ _ => exact first.append_text ih hs

theorem separates_bracedBlock (head body : Piece) (c : EmitContext) :
    separates (bracedBlock o head body c).text = true :=
  separates_append (by decide) _

theorem shows_valueOrStatement (h : Shows o calls inner p) (c : EmitContext) :
    Shows o calls inner (valueOrStatement o p c) := by
  unfold valueOrStatement
  split
  · exact (h.append_right (apart_pad o c)).append_left _
  · exact h

theorem shows_bracedBlock (h : Shows o calls inner p) (h' : Shows o others inner' q)
    (c : EmitContext) : Shows o (calls ++ others) inner (bracedBlock o p q c) :=
  ((h.append_text h' (by decide)).append_left _).append_left _

theorem shows_bracedBlock_body (h : Shows o calls inner p) (head : Piece) (c : EmitContext) :
    Shows o calls inner' (bracedBlock o head p c) :=
  shows_bracedBlock shows_nil h c

theorem shows_assign (h : Shows o calls inner p) (h' : Shows o others inner' q) (op : String)
    (c : EmitContext) : Shows o (calls ++ others) inner (assign o p op q c) := by
  have start := h.append_right (apart_pad o c)
  unfold assign
  split
  · exact (start.append_text h' (by decide)).append_left _
  · exact (((start.append_left _).append_left _).append_text h' (by decide)).append_left _

theorem shows_function (h : Shows o calls inner p) (name : String) (params : List Param)
    (returnType : Option String) (isAsync : Bool) (c : EmitContext) :
    Shows o calls inner' (function o name params returnType isAsync p c) :=
  ((h.after_append_text (by decide)).append_left _).append_left _

theorem shows_varDecl (h : Shows o calls inner p) (name : String) (type : Option String)
    (mutable : Bool) (c : EmitContext) :
    Shows o calls inner' (varDecl o name type mutable (some p) c) := by
  unfold varDecl
  refine Shows.inner_append ?_ _
  split
  · exact (h.after_append_text (by decide)).append_left _
  · exact ((h.after_text (by decide)).inner_append _).append_left _

theorem isEmpty_of_shows (h : Shows o calls inner p) (some : calls ≠ []) : p.isEmpty = false := by
  obtain ⟨places, written, -, inside⟩ := h
  cases written with
  | nil => exact absurd rfl some
  | cons _ _ =>
      have bound := inside _ List.mem_cons_self
      rw [Piece.isEmpty, ← Bool.not_eq_true, String.isEmpty_iff, ← String.length_eq_zero_iff]
      omega

end

section
variable {o}

theorem apart_gap {c : EmitContext} (hc : c.Ordinary) (n : Node) (b : Option Node)
    (tight : Bool) : (gap n b tight c : Piece).Apart := by
  unfold gap
  split
  · exact .inl rfl
  · exact Piece.apart_text hc.separated

theorem gap_eq_separatorText {c : EmitContext} (hc : c.allowSemicolons = false) {n : Node}
    (hn : n.symbol? = none) (hl : n.isLink = false) (b : Option Node) :
    gap n b false c = c.separatorText := by
  have access : n.isMemberAccess = false := by
    cases n <;> simp_all [Node.isMemberAccess, Node.isMemberOperator, Node.isOperator,
      Node.symbol?, Node.isLink]
  simp [gap, hc, access, Node.isTrailing, Node.isOperator, hn]

/-- Where the node is written, so are the calls that it is and that it holds. -/
def ShowsNode (o : EmitOptions) (n : Node) : Prop :=
  ∀ c b after, EmitContext.Ordinary c → Shows o (n.callsAt b) n.isLink (node o c b after n)

/-- So it is where a condition is all of a branch. -/
def ShowsBranch (o : EmitOptions) (n : Node) : Prop :=
  ∀ test body otherwise, n = .ifStmt test body otherwise → ∀ c, EmitContext.Ordinary c →
    Shows o (n.siblings.flatMap (namedCalls none)) false (branch o c (some [n]))

/-- Operators hold no calls. -/
theorem symbol?_of_callsAt {n : Node} {b : Option Node} (h : n.callsAt b ≠ []) :
    n.symbol? = none := by
  cases n with
  | operator symbol =>
      rw [Node.callsAt_eq] at h
      exact absurd rfl h
  | _ => rfl

/-- The first of some neighbours, with what separates it from the node before. -/
theorem shows_gap {n : Node} (h : ShowsNode o n) {c : EmitContext} (hc : c.Ordinary)
    (b after : Option Node) (tight : Bool) :
    Shows o (n.callsAt b) (!tight && !c.allowSemicolons)
      ((gap n b tight c : Piece) ++ node o c b after n) := by
  have shown := h c b after hc
  by_cases none : n.callsAt b = []
  · rw [none]
    exact shows_nil
  cases hl : n.isLink with
  | true =>
      rw [hl] at shown
      exact shown.inner_append _
  | false =>
      rw [hl] at shown
      cases hi : !tight && !c.allowSemicolons with
      | true =>
          obtain ⟨loose, inline⟩ : tight = false ∧ c.allowSemicolons = false := by
            simpa using hi
          subst loose
          rw [gap_eq_separatorText inline (symbol?_of_callsAt none) hl]
          exact shown.after_text hc.separated
      | false => exact shown.append_right (apart_gap hc _ _ _)

/-- Neighbours are written one after the other, with a separator or a symbol between them unless
they end their line. -/
theorem shows_neighbours {ns : List Node} (h : ∀ n ∈ ns, ShowsNode o n) {c : EmitContext}
    (hc : c.Ordinary)
    (closed : c.allowSemicolons = true → ∀ n ∈ ns, ∀ b after, (node o c b after n).Apart)
    (b : Option Node) (tight : Bool) :
    Shows o (namedCalls b ns) (!tight && !c.allowSemicolons) (nodes o c b tight ns) := by
  induction ns generalizing b tight with
  | nil => exact shows_nil
  | cons n ns ih =>
      obtain ⟨first, others⟩ := List.forall_mem_cons.mp h
      have later := ih others (fun level k hk => closed level k (List.mem_cons_of_mem n hk))
        (some n)
      rw [nodes, namedCalls_cons]
      cases he : (node o c b ns.head? n).isEmpty with
      | true =>
          have none : n.callsAt b = [] := by
            by_contra some
            rw [isEmpty_of_shows (first c b ns.head? hc) some] at he
            cases he
          rw [if_pos rfl, none]
          exact (later tight).append_right (.inl (String.isEmpty_iff.mp he))
      | false =>
          rw [if_neg Bool.false_ne_true]
          refine (shows_gap first hc b ns.head? tight).append (later _) ?_
          cases ht : isTight n b c with
          | true =>
              have ends := (apart_of_isTight o ht ns.head?).separates he
              exact .inr (.inl (separates_append ends _))
          | false =>
              cases hv : c.allowSemicolons with
              | true =>
                  have ends := (closed hv n List.mem_cons_self b ns.head?).separates he
                  exact .inr (.inl (separates_append ends _))
              | false => exact .inl rfl

theorem shows_nodes {ns : List Node} (h : ∀ n ∈ ns, ShowsNode o n) {c : EmitContext}
    (hc : c.Ordinary) (inline : c.allowSemicolons = false) :
    Shows o (namedCalls none ns) false (nodes o c none true ns) :=
  shows_neighbours h hc (by simp [inline]) none true

/-- Statements end their line. -/
theorem shows_body {p : ParseOptions} {ns : List Node} (h : ∀ n ∈ ns, ShowsNode o n)
    (hs : StatementList ns) (wf : Everywhere (Node.WellFormed p) ns) {c : EmitContext}
    (hc : c.Ordinary) : Shows o (namedCalls none ns) false (nodes o c none true ns) := by
  refine shows_neighbours h hc ?_ none true
  intro level n hn
  have held := (everywhere_iff _).mp wf n hn
  exact apart_statement n (hs n hn) (everywhere_cons.mpr ⟨held, everywhere_nil⟩) hc level

theorem flatMap_namedCalls_alone (ns : List Node) :
    (ns.map ([·])).flatMap (namedCalls none) = ns.flatMap (Node.callsAt none) := by
  rw [List.flatMap_map]
  exact congrArg ns.flatMap (funext namedCalls_singleton)

theorem shows_links {ns : List Node} (h : ∀ n ∈ ns, ShowsNode o n) (linked : ∀ n ∈ ns, n.isLink)
    {c : EmitContext} (hc : c.Ordinary) :
    Shows o (ns.flatMap (Node.callsAt none)) true (links o c ns) := by
  induction ns with
  | nil => exact shows_nil
  | cons n ns ih =>
      obtain ⟨first, others⟩ := List.forall_mem_cons.mp h
      obtain ⟨link, links⟩ := List.forall_mem_cons.mp linked
      have shown := first c none none hc
      rw [link] at shown
      rw [Emit.links, List.flatMap_cons]
      exact shown.append (ih others links) (.inl rfl)

theorem shows_fieldList {fields : List (String × List Node)}
    (h : ∀ n ∈ fields.flatMap (·.2), ShowsNode o n) {c : EmitContext} (hc : c.Ordinary)
    (inline : c.allowSemicolons = false) :
    List.Forall₂ (fun calls p => Shows o calls false p)
      ((fields.map (·.2)).map (namedCalls none)) (fieldList o c fields) := by
  induction fields with
  | nil => exact .nil
  | cons field fields ih =>
      obtain ⟨key, value⟩ := field
      obtain ⟨here, others⟩ := List.forall_mem_append.mp (List.flatMap_cons ▸ h)
      rw [fieldList]
      exact .cons ((shows_nodes here hc inline).after_append_text (by decide)) (ih others)

/-- The name of a register that is written to holds no calls. -/
theorem shows_operandList {ns : List Node} (h : ∀ n ∈ ns, ShowsNode o n) {c : EmitContext}
    (hc : c.Ordinary) (destinations : Nat) :
    List.Forall₂ (fun calls p => Shows o calls false p) (ns.map (Node.callsAt none))
      (operandList o c destinations ns) := by
  induction ns generalizing destinations with
  | nil => exact .nil
  | cons n ns ih =>
      obtain ⟨first, others⟩ := List.forall_mem_cons.mp h
      unfold operandList
      refine .cons ?_ (ih others _)
      split
      · rw [Node.callsAt_eq]
        exact shows_nil
      · exact (first c none none hc).outer

/-- There are no calls in a name with properties after it. -/
theorem callsAt_of_chainName? {object full : String} {chain : List Node}
    (h : Node.chainName? object chain = some full) : chain.flatMap (Node.callsAt none) = [] := by
  fun_induction Node.chainName? object chain with
  | case1 => rfl
  | case2 object p links ih =>
      rw [List.flatMap_cons, ih h, Node.callsAt_eq]
      rfl
  | case3 => cases h

/-- There are no calls in the name of a helper. -/
theorem namedCalls_of_calledHelper? {target : List Node} {b : Option Node} {helper : Helper}
    (h : calledHelper? target b = some helper) : namedCalls none target = [] := by
  obtain ⟨n, name, rfl, -, named, -⟩ := calledHelper?_eq_some_iff.mp h
  rw [namedCalls_singleton, Node.callsAt_eq]
  cases n with
  | member object chain =>
      rw [Node.siblings, flatMap_namedCalls_alone, callsAt_of_chainName? named]
      rfl
  | identifier word => rfl
  | _ => cases named

theorem text_nodes_identifier (f : String) (c : EmitContext) :
    (nodes o c none true [.identifier f]).text = (name o f).text := by
  rw [nodes, node]
  split <;> simp [nodes, gap, Piece.ofText]

section
variable {p : ParseOptions} {c : EmitContext} (hc : c.Ordinary)
include hc

theorem shows_branch {otherwise : Option (List Node)}
    (hs : ∀ list ∈ otherwise, StatementList list)
    (wf : Everywhere (Node.WellFormed p) (otherwise.getD []))
    (h : ∀ n ∈ otherwise.getD [], ShowsNode o n)
    (hb : ∀ n ∈ otherwise.getD [], ShowsBranch o n) :
    Shows o (otherwise.toList.flatMap (namedCalls none)) false (branch o c otherwise) := by
  cases otherwise with
  | none => exact shows_nil
  | some body =>
      have inner := shows_body h (hs _ rfl) wf hc.block
      rw [Option.toList_some, List.flatMap_singleton]
      unfold branch
      split
      · rename_i none
        cases none
      · -- The condition is no call, so all calls are inside it.
        rename_i same
        obtain rfl := Option.some.inj same
        have shown := hb _ List.mem_cons_self _ _ _ rfl c hc
        rw [branch] at shown
        rw [namedCalls_singleton, Node.callsAt_eq]
        exact shown
      · rename_i same
        obtain rfl := Option.some.inj same
        exact shows_bracedBlock_body inner _ c

/-- A condition is written in the same way as a statement and as a branch. -/
theorem shows_conditional {test body : List Node} {otherwise : Option (List Node)}
    (wf : (Node.ifStmt test body otherwise).WellFormed p)
    (inside : Everywhere (Node.WellFormed p) (Node.ifStmt test body otherwise).children)
    (h : ∀ k ∈ (Node.ifStmt test body otherwise).children, ShowsNode o k)
    (hb : ∀ k ∈ (Node.ifStmt test body otherwise).children, ShowsBranch o k)
    {start : Piece} (hp : start.Apart) :
    Shows o ((Node.ifStmt test body otherwise).siblings.flatMap (namedCalls none)) false
      (start ++ bracedBlock o ("if (" ++ nodes o c.inline none true test ++ ")")
        (nodes o c.block none true body) c ++ branch o c otherwise) := by
  obtain ⟨-, statements, others⟩ := wf
  simp only [Node.children, everywhere_append] at inside
  simp only [Node.children, List.forall_mem_append] at h hb
  have first : Shows o (namedCalls none test) false
      ("if (" ++ nodes o c.inline none true test ++ ")") :=
    ((shows_nodes h.1.1 hc.inline rfl).after_text (by decide)).append_left _
  have second := shows_body h.1.2 statements inside.1.2 hc.block
  have third := shows_branch hc others inside.2 h.2 hb.2
  rw [Node.siblings, List.flatMap_cons, List.flatMap_cons, ← List.append_assoc]
  exact ((shows_bracedBlock first second c).append_right hp).append third
    (.inr (.inl (separates_append (separates_bracedBlock _ _ c) _)))

/-- The call of a plain name is written, and behind its name the calls among its arguments. -/
theorem shows_plainCall {call : NamedCall} (h : ∀ n ∈ call.args, ShowsNode o n)
    (after : Option Node) :
    Shows o (call :: namedCalls none call.args) false (node o c call.before after call.node) := by
  rw [NamedCall.node, node]
  refine shows_valueOrStatement (Shows.cons ?_ c (Eq.trans ?_ String.append_empty.symm)) c
  · exact ((shows_nodes h hc.callArgs rfl).after_append_text (by decide)).append_left _
  · rw [callOf, calledText]
    cases calledHelper? [.identifier call.name] call.before with
    | none => simp only [Piece.text_append, Piece.ofText, text_nodes_identifier]
    | some helper => simp only [Piece.text_append, Piece.ofText]

theorem shows_call {callee args : List Node} {isAsync : Bool} (h : ∀ n ∈ callee, ShowsNode o n)
    (h' : ∀ n ∈ args, ShowsNode o n) (b after : Option Node) :
    Shows o (namedCalls none callee ++ namedCalls none args) false
      (node o c b after (.call callee isAsync args)) := by
  have head : ((if isAsync then "await " else "" : String) : Piece).Apart := by
    split
    · exact Piece.apart_text (by decide)
    · exact .inl rfl
  have second := shows_nodes h' hc.callArgs rfl
  rw [node]
  refine shows_valueOrStatement (Shows.append_left (Shows.append_text ?_ second (by decide)) _) c
  refine Shows.append_right ?_ head
  cases called : calledHelper? callee b with
  | none => exact shows_nodes h hc.inline rfl
  | some helper =>
      rw [namedCalls_of_calledHelper? called]
      exact shows_nil

theorem shows_forStmt {i : String} {first last body : List Node}
    (h : ∀ n ∈ first, ShowsNode o n) (h' : ∀ n ∈ last, ShowsNode o n)
    (hb : ∀ n ∈ body, ShowsNode o n) (hs : StatementList body)
    (wf : Everywhere (Node.WellFormed p) body) (b after : Option Node) :
    Shows o (namedCalls none first ++ namedCalls none last ++ namedCalls none body) false
      (node o c b after (.forStmt i first last body)) := by
  have start : Shows o (namedCalls none first) false
      ("for (let " ++ i ++ " = " ++ nodes o c.inline none true first) :=
    (shows_nodes h hc.inline rfl).after_append_text (by decide)
  have bounds := ((start.append_left "; ").append_left i).append_text
    (shows_nodes h' hc.inline rfl) (by decide : separates " <= " = true)
  have head := ((bounds.append_left "; ").append_left i).append_left "++)"
  rw [node]
  exact ((shows_bracedBlock head (shows_body hb hs wf hc.block) c).append_right
    (apart_pad o c)).append_left _

theorem shows_loop {exit : Option (List Node)} {body : List Node}
    (h : ∀ n ∈ exit.getD [], ShowsNode o n) (hb : ∀ n ∈ body, ShowsNode o n)
    (hs : StatementList body) (wf : Everywhere (Node.WellFormed p) body) (b after : Option Node) :
    Shows o (namedCalls none (exit.getD []) ++ namedCalls none body) false
      (node o c b after (.loop exit body)) := by
  have body := shows_body hb hs wf hc.block
  cases exit with
  | none =>
      rw [node]
      exact ((shows_bracedBlock_body body _ c).append_right (apart_pad o c)).append_left _
  | some exit =>
      have head : Shows o (namedCalls none exit) false
          ("while (!(" ++ nodes o c.inline none true exit ++ "))") :=
        ((shows_nodes h hc.inline rfl).after_text (by decide)).append_left _
      rw [node]
      exact ((shows_bracedBlock head body c).append_right (apart_pad o c)).append_left _

theorem shows_object {fields : List (String × List Node)}
    (h : ∀ n ∈ fields.flatMap (·.2), ShowsNode o n) (b after : Option Node) :
    Shows o ((fields.map (·.2)).flatMap (namedCalls none)) false
      (node o c b after (.object fields)) := by
  cases fields with
  | nil => exact shows_nil
  | cons field fields =>
      rw [node, List.flatMap_def]
      exact ((shows_joined (by decide) (shows_fieldList h hc.inline rfl)).after_text
        (by decide)).append_left _

theorem shows_instruction {op : String} {operands : List Node}
    (listed : (Instruction.find? op).isSome) (h : ∀ n ∈ operands, ShowsNode o n)
    (b after : Option Node) :
    Shows o (operands.flatMap (Node.callsAt none)) false
      (node o c b after (.instruction op operands)) := by
  have all := shows_joined (by decide : separates ", " = true) (shows_operandList h hc.inline
    (((Instruction.find? op).map (·.destinations)).getD 0))
  obtain ⟨i, hi⟩ := Option.isSome_iff_exists.mp listed
  rw [node, instruction, List.flatMap_def]
  rw [hi] at all ⊢
  exact (all.after_append_text (by decide)).append_left _

end

section
variable {n : Node} {b : Option Node} {inner : Bool} {piece : Piece}
  (own : n.namedCall? b = none)
include own

theorem Shows.of_siblings (h : Shows o (n.siblings.flatMap (namedCalls none)) inner piece) :
    Shows o (n.callsAt b) inner piece := by
  rw [Node.callsAt_eq, own]
  exact h

theorem Shows.of_list {list : List Node} (held : n.siblings = [list])
    (h : Shows o (namedCalls none list) inner piece) : Shows o (n.callsAt b) inner piece := by
  refine .of_siblings own ?_
  rwa [held, List.flatMap_singleton]

end

section
variable {p : ParseOptions} {n : Node} (wf : n.WellFormed p)
  (inside : Everywhere (Node.WellFormed p) n.children)
  (h : ∀ k ∈ n.children, ShowsNode o k) (hb : ∀ k ∈ n.children, ShowsBranch o k)
include wf inside h hb

theorem showsNode_of_children : ShowsNode o n := by
  intro c b after hc
  cases n with
  | globals body =>
      rw [node]
      exact .of_list rfl rfl (shows_body h wf inside hc)
  | expr body =>
      rw [node]
      exact .of_list rfl rfl (shows_nodes h hc.inline rfl)
  | group body | index body =>
      rw [node]
      exact .of_list rfl rfl (((shows_nodes h hc.inline rfl).after_text (by decide)).append_left _)
  | array body =>
      rw [node]
      exact .of_list rfl rfl (((shows_nodes h hc.commas rfl).after_text (by decide)).append_left _)
  | exitWhen condition | expect condition =>
      rw [node]
      exact .of_list rfl rfl
        (((shows_nodes h hc.inline rfl).after_append_text (by decide)).append_left _)
  | exprStmt parts =>
      have inline := shows_nodes h hc.inline rfl
      rw [node]
      refine .of_list rfl rfl ?_
      split
      · exact (inline.append_right (apart_pad o c)).append_left _
      · exact inline
  | varDecl name type mutable isArray init =>
      refine .of_list rfl rfl ?_
      cases init with
      | nil => exact shows_nil
      | cons part parts =>
          rw [node]
          exact shows_varDecl (shows_nodes h hc.inline rfl) name type mutable c
  | assign target op value =>
      simp only [Node.children, List.forall_mem_append] at h
      rw [node]
      refine .of_siblings rfl ?_
      simpa [Node.siblings, Node.isLink] using
        shows_assign (shows_nodes h.1 hc.inline rfl) (shows_nodes h.2 hc.inline rfl) op c
  | function name params returnType isAsync body =>
      rw [node]
      exact .of_list rfl rfl
        (shows_function (shows_body h wf.2.2 inside hc.block) name params returnType isAsync c)
  | doBlock isAsync body =>
      have body := shows_body h wf inside hc.block
      rw [node]
      exact .of_list rfl rfl
        (shows_valueOrStatement ((shows_bracedBlock_body body _ c).append_left _) c)
  | struct name body =>
      have body := shows_body h wf inside hc.object
      rw [node]
      exact .of_list rfl rfl
        (((shows_bracedBlock_body body _ c).append_right (apart_pad o c)).append_left _)
  | returnStmt value =>
      refine .of_list rfl rfl ?_
      cases value with
      | nil => exact shows_nil
      | cons part parts =>
          rw [node]
          exact ((shows_nodes h hc.inline rfl).after_append_text (by decide)).append_left _
  | ifStmt test body otherwise =>
      rw [node]
      exact .of_siblings rfl ((shows_conditional hc wf inside h hb (apart_pad o c)).append_left _)
  | call callee isAsync args =>
      simp only [Node.children, List.forall_mem_append] at h
      cases named : (Node.call callee isAsync args).namedCall? b with
      | none =>
          refine .of_siblings named ?_
          simpa [Node.siblings, Node.isLink] using shows_call hc h.1 h.2 b after
      | some call =>
          obtain ⟨rfl, same⟩ := Node.namedCall?_eq_some_iff.mp named
          obtain ⟨rfl, rfl, rfl⟩ := Node.call.inj same
          have name : (Node.identifier call.name).callsAt none = [] := by
            rw [Node.callsAt_eq]
            rfl
          rw [Node.callsAt_eq, named]
          simpa [Node.siblings, Node.isLink, namedCalls_singleton, name, NamedCall.node] using
            shows_plainCall hc h.2 after
  | member object chain =>
      rw [node]
      refine .of_siblings rfl ?_
      rw [Node.siblings, flatMap_namedCalls_alone]
      exact (shows_links h wf.2 hc.inline).inner_append _
  | forStmt i first last body =>
      simp only [Node.children, List.forall_mem_append, everywhere_append] at h inside
      refine .of_siblings rfl ?_
      simpa [Node.siblings, Node.isLink] using
        shows_forStmt hc h.1.1 h.1.2 h.2 wf.2.2 inside.2 b after
  | loop exit body =>
      simp only [Node.children, List.forall_mem_append, everywhere_append] at h inside
      have shown := shows_loop hc h.1 h.2 wf.2 inside.2 b after
      refine .of_siblings rfl ?_
      cases exit <;> simpa [Node.siblings, Node.isLink] using shown
  | object fields => exact .of_siblings rfl (shows_object hc h b after)
  | instruction op operands =>
      refine .of_siblings rfl ?_
      rw [Node.siblings, flatMap_namedCalls_alone]
      exact shows_instruction hc wf.2.1 h b after
  | property _ | literal _ _ | identifier _ | operator _ | comment _ | debug =>
      exact .of_siblings rfl shows_nil

theorem showsBranch_of_children : ShowsBranch o n := by
  rintro test body otherwise rfl c hc
  rw [branch]
  exact shows_conditional hc wf inside h hb (Piece.apart_text (by decide))

end

theorem showsNode {p : ParseOptions} (n : Node) (wf : Everywhere (Node.WellFormed p) [n]) :
    ShowsNode o n := by
  -- A branch goes on with the branches of the condition in it, so the induction needs both.
  suffices both : ShowsNode o n ∧ ShowsBranch o n from both.1
  induction n using Node.induction_children with
  | step n ih =>
      obtain ⟨⟨own, inside⟩, -⟩ := everywhere_cons.mp wf
      have both (k : Node) (hk : k ∈ n.children) := ih k hk
        (everywhere_cons.mpr ⟨(everywhere_iff _).mp inside k hk, everywhere_nil⟩)
      have within (k : Node) (hk : k ∈ n.children) := (both k hk).1
      have branches (k : Node) (hk : k ∈ n.children) := (both k hk).2
      exact ⟨showsNode_of_children own inside within branches,
        showsBranch_of_children own inside within branches⟩

/-- The calls of a program are written one behind the other. -/
theorem shows_statements {p : ParseOptions} {ns : List Node} (h : Statements p ns) :
    Shows o (namedCalls none ns) false (nodes o .root none true ns) := by
  obtain ⟨statements, wf⟩ := h
  refine shows_body (fun n hn => showsNode (p := p) n ?_) statements wf EmitContext.ordinary_root
  exact everywhere_cons.mpr ⟨(everywhere_iff _).mp wf n hn, everywhere_nil⟩

end

/-- The text has at `place` a call of the target, with the arguments in the list of a call, and no
name ends right before it. -/
def Calls (isAsync : Bool) (target : String) (args : List Node) (text : String) (place : Nat) :
    Prop :=
  ∃ c pre post, text = pre ++ callOf o c isAsync target args ++ post ∧ pre.length = place ∧
    (pre = "" ∨ separates pre = true)

theorem text_name {o : EmitOptions} {f : String} (hc : counted? f = none)
    (hr : o.asm = false ∨ isRegister f = false) : (name o f).text = f := by
  unfold name
  rw [hc]
  rcases hr with hr | hr <;> simp [hr, Piece.ofText]

theorem mem_names_usedHelpers {uses : List Use} {h : Helper} (hm : h ∈ Helper.all) :
    h.name ∈ (usedHelpers uses).map (·.name) ↔ .helper h.name ∈ uses := by
  rw [List.mem_map]
  constructor
  · rintro ⟨h', used, same⟩
    rw [← same]
    exact of_decide_eq_true (List.mem_filter.mp used).2
  · intro used
    exact ⟨h, List.mem_filter.mpr ⟨hm, decide_eq_true used⟩, rfl⟩

end Emit

/-- The call is found in the text at a place: as a call of its name, unless that is one of the names
of a helper and no member operator comes before it, and then as a call of the helper. -/
structure NamedCall.FoundAt (o : EmitOptions) (text : String) (call : NamedCall) (place : Nat) :
    Prop where
  own : call.before.any Node.isMemberOperator = true ∨ Helper.find? call.name = none →
    Emit.counted? call.name = none → o.asm = false ∨ isRegister call.name = false →
      Emit.Calls o call.isAsync call.name call.args text place
  helper : ∀ h, call.before.any Node.isMemberOperator = false →
    Helper.find? call.name = some h → Emit.Calls o call.isAsync h.target call.args text place

theorem NamedCall.foundAt_of_writes {o : EmitOptions} {text : String} {call : NamedCall}
    {place : Nat} (h : Emit.Writes o false text call place) : call.FoundAt o text place := by
  obtain ⟨c, pre, post, whole, length, start⟩ := h
  have calls {target : String} (called : Emit.calledText o call = target) :
      Emit.Calls o call.isAsync target call.args text place :=
    ⟨c, pre, post, by rw [whole, called], length, start.symm.imp_left (·.2)⟩
  constructor
  · intro free uncounted plain
    apply calls
    have none : Emit.calledHelper? [.identifier call.name] call.before = none := by
      unfold Emit.calledHelper?
      rcases free with free | free <;> simp [free, Node.flatName?]
    rw [Emit.calledText, none]
    exact Emit.text_name uncounted plain
  · intro h free found
    apply calls
    rw [Emit.calledText, Emit.calledHelper?_eq_some_iff.mpr ⟨_, call.name, rfl, free, rfl, found⟩]

theorem apart_join {texts : List String} (h : ∀ text ∈ texts, separates text = true) :
    (String.join texts : Piece).Apart := by
  induction texts with
  | nil => exact .inl rfl
  | cons text texts ih =>
      obtain ⟨first, others⟩ := List.forall_mem_cons.mp h
      rw [String.join_cons]
      exact .append_text (Piece.apart_text first) (ih others)

/-- Definitions end their line. -/
theorem Emit.apart_prologue (uses : List Use) : (Emit.prologue uses : Piece).Apart := by
  have line (text : String) : separates (text ++ "\n") = true := separates_append (by decide) text
  unfold Emit.prologue
  dsimp only
  refine .append_text (.append_text ?_ (apart_join ?_)) (apart_join ?_)
  · split
    · exact .inr (line _)
    · exact .inl rfl
  · simp only [List.forall_mem_map]
    exact fun i _ => line _
  · simp only [List.forall_mem_map]
    exact fun h _ => line _

theorem code_generate {o : EmitOptions} {tree : Tree} {script : Script}
    (run : generate o tree = .ok script) :
    (∃ pre post, script.code = pre ++ (Emit.nodes o .root none true tree.body).text ++ post ∧
        (pre : Piece).Apart) ∧
      script.helpers =
        (Emit.usedHelpers (Emit.nodes o .root none true tree.body).uses).map (·.name) := by
  unfold generate at run
  dsimp only at run
  split at run
  · cases run
  · obtain rfl := Except.ok.inj run
    refine ⟨?_, rfl⟩
    dsimp only
    split
    · have opening : separates (if tree.isAsync then "(async () => \x7b\n" else "(() => \x7b\n") =
          true := by split <;> decide
      rw [Emit.wrapped, ← String.append_assoc]
      exact ⟨_, _, rfl, .append_text (Piece.apart_text opening) (Emit.apart_prologue _)⟩
    · exact ⟨_, "", String.append_empty.symm, Emit.apart_prologue _⟩

/-- The calls of plain names are found in the output in the order of the program, each at a place of
its own. A name that the program calls is called in the output too, unless it is one of the names of
a helper and no member operator comes before it: then the private function of the helper is called,
also if the program declares a function of that name. The output defines the helpers that are
called in this way and no others. -/
theorem compile_calls (o : CompileOptions) (source : String) :
    let body := (parse o.parseOptions (tokenize o.keepComments source).tokens).tree.body
    ∃ c, compile o source = .ok c ∧
      (∀ call : NamedCall, Follows call.before call.node body ↔ call ∈ namedCalls none body) ∧
      (∃ places, List.Forall₂ (NamedCall.FoundAt o.emitOptions c.script.code)
        (namedCalls none body) places ∧ places.Pairwise (· < ·)) ∧
      ∀ h ∈ Helper.all, h.name ∈ c.script.helpers ↔ h.CalledIn body := by
  intro body
  obtain ⟨script, run⟩ := exists_generate_eq_ok (o := o.emitOptions)
    (unlisted_parse o.parseOptions (tokenize o.keepComments source).tokens)
  obtain ⟨⟨pre, post, code, apart⟩, helpers⟩ := code_generate run
  refine ⟨_, compile_of_generate run, fun call => mem_namedCalls_iff.symm, ?_, ?_⟩
  · have shown := Emit.shows_statements (o := o.emitOptions)
      (statements_parse o.parseOptions (tokenize o.keepComments source).tokens)
    obtain ⟨places, written, sorted, -⟩ :=
      (shown.append_right (p := (pre : Piece)) apart).append_left (post : Piece)
    refine ⟨places, written.imp fun call place h => ?_, sorted⟩
    dsimp only
    rw [code]
    exact NamedCall.foundAt_of_writes h
  · intro h hm
    dsimp only
    rw [helpers, Emit.mem_names_usedHelpers hm, Emit.mem_uses_iff, Emit.relies_helper_iff hm]

/-- The name that a node declares as a function. -/
def Node.declared? : Node → Option String
  | .function name _ _ _ _ => some name
  | _ => none

/-- The name that a node calls. -/
def Node.called? : Node → Option String
  | .call [.identifier name] _ _ => some name
  | _ => none

theorem Node.exists_of_called? {n : Node} {name : String} (h : n.called? = some name) :
    ∃ isAsync args, n = .call [.identifier name] isAsync args := by
  unfold called? at h
  split at h
  · rename_i isAsync args
    obtain rfl := Option.some.inj h
    exact ⟨isAsync, args, rfl⟩
  · cases h

theorem Node.callsAt_of_called? {n : Node} {name : String} (h : n.called? = some name)
    (before : Option Node) :
    ∃ isAsync args inner, n.callsAt before = ⟨before, name, isAsync, args⟩ :: inner := by
  obtain ⟨isAsync, args, rfl⟩ := exists_of_called? h
  rw [callsAt_eq]
  exact ⟨isAsync, args, _, rfl⟩

/-- A function with a name of its own is called, also with the value of a helper. Two calls that are
the same are found at two places. -/
theorem compile_calls_own :
    let o : CompileOptions := ⟨false, false, false, false, 5⟩
    let source := "call f(min(1, 2))\ncall f(min(1, 2))\nfunction f takes a returns nothing\nend"
    ∃ c, compile o source = .ok c ∧ c.script.helpers = ["min"] ∧
      ∃ isAsync args place isAsync' args' place', place < place' ∧
        Emit.Calls o.emitOptions isAsync "f" args c.script.code place ∧
        Emit.Calls o.emitOptions isAsync' "f" args' c.script.code place' := by
  intro o source
  have compiled : (parse o.parseOptions (tokenize false source).tokens).tree.body.map Node.called? =
      [some "f", some "f", none] ∧ (compile o source).map (·.script.helpers) = .ok ["min"] := by
    decide +kernel
  obtain ⟨called, helpers⟩ := compiled
  have free : Helper.find? "f" = none ∧ Emit.counted? "f" = none := by decide
  obtain ⟨n, ns, body, hn, rest⟩ := List.map_eq_cons_iff.mp called
  obtain ⟨m, ms, rfl, hm, -⟩ := List.map_eq_cons_iff.mp rest
  obtain ⟨isAsync, args, inner, first⟩ := Node.callsAt_of_called? hn none
  obtain ⟨isAsync', args', inner', second⟩ := Node.callsAt_of_called? hm (some n)
  obtain ⟨c, run, -, ⟨places, found, sorted⟩, -⟩ := compile_calls o source
  change List.Forall₂ _ (namedCalls none
    (parse o.parseOptions (tokenize false source).tokens).tree.body) places at found
  rw [body, namedCalls_cons, namedCalls_cons, first, second] at found
  rw [run] at helpers
  refine ⟨c, run, Except.ok.inj helpers, isAsync, args, ?_⟩
  obtain ⟨place, others, here, later, rfl⟩ := List.forall₂_cons_left_iff.mp found
  have behind := List.forall₂_drop_append _ _ _ later.flip
  obtain ⟨place', more, there, -, split⟩ := List.forall₂_cons_right_iff.mp behind
  have mem : place' ∈ others := List.mem_of_mem_drop (split ▸ List.mem_cons_self)
  exact ⟨place, isAsync', args', place', (List.pairwise_cons.mp sorted).1 _ mem,
    here.own (.inr free.1) free.2 (.inl rfl), there.own (.inr free.1) free.2 (.inl rfl)⟩

/-- A function with the name of a helper is declared, but what is called is the helper. -/
theorem declared_min_not_called :
    let o : CompileOptions := ⟨false, false, false, false, 5⟩
    let source := "function min takes a, b returns nothing\nend\ncall min(1, 2)"
    let body := (parse o.parseOptions (tokenize false source).tokens).tree.body
    body.map Node.declared? = [some "min", none] ∧ body.map Node.called? = [none, some "min"] ∧
      (compile o source).map (fun c => (c.diagnostics, c.script.code)) = .ok ([],
        "function __min(a, b) \x7b return Math.min(a, b); \x7d\n" ++
          "function min(a, b) \x7b\n\x7d\n__min(1, 2);\n") := by
  intro o source body
  decide +kernel

end MapScript
