import MapScript.Proofs.Progress
import MapScript.Proofs.Shape
import MapScript.Proofs.Texts

/-!
# Where texts come from

Whatever the tokens are, and also where the parser recovers from errors, a text in the tree is the
word of a token among them. The token also tells which part the text can play: a name is the word
of an identifier, the name of a property may be a keyword too, and a comment is a comment. Only
three texts have no token of their own.

The rules are followed one by one, as for the shape of trees. What is known of the state is that
the texts of the tokens ahead have some property, and what is found out is that the texts of the
nodes have it too.
-/
namespace MapScript

/-- The texts that a token can be in a tree. -/
def Token.texts (t : Token) : List Text :=
  match t.kind with
  | .identifier => [.name t.word, .member t.word, .key t.word]
  | .keyword => [.member t.word, .key t.word, .symbol t.word, .value .bool t.word]
  | .number => [.key t.word, .value .number t.word]
  | .string => [.key t.word, .value .string t.word]
  | .operator => [.symbol t.word]
  | .comment => [.comment t.word]
  | _ => []

/-- The texts that no token has to be there for: a name that is missing, the operator of a value
that is waited for, and the value that is none. -/
def suppliedTexts : List Text := [.name "_", .symbol "await", .value .nil "null"]

/-- The texts of all nodes have the property, at any depth. -/
abbrev AllTexts (P : Text → Prop) (nodes : List Node) : Prop := Everywhere (Node.TextsHave P) nodes

/-- The texts of the tokens ahead have the property. -/
def ParserState.TextsAhead (P : Text → Prop) (s : ParserState) : Prop :=
  ∀ t ∈ s.rest, ∀ x ∈ t.texts, P x

/-- When the texts ahead have the property, so has the value that the parser yields. -/
def Tells {α : Type} (P : Text → Prop) (p : Parser α) (Q : α → Prop) : Prop :=
  ∀ s : ParserState, s.TextsAhead P → Q (p s).1

section
variable {α β : Type} {P : Text → Prop} {p : Parser α} {f : α → Parser β} {Q : α → Prop}
  {R : β → Prop} {s t : ParserState}

theorem ParserState.TextsAhead.evolves (h : s.TextsAhead P) (step : Evolves s t) :
    t.TextsAhead P := by
  obtain ⟨taken, split, -⟩ := step.forward
  exact fun x hx => h x (split ▸ List.mem_append_right taken hx)

theorem ParserState.TextsAhead.current (h : s.TextsAhead P) : ∀ x ∈ s.current.texts, P x := by
  by_cases hk : s.current.kind = .endOfFile
  · simp [Token.texts, hk]
  · apply h
    rw [s.rest_advance hk]
    exact List.mem_cons_self

theorem Tells.bind [hp : Evolving p] (h : Tells P p Q) (h' : ∀ a, Q a → Tells P (f a) R) :
    Tells P (p >>= f) R :=
  fun s hs => h' _ (h s hs) _ (hs.evolves (hp.evolves s))

theorem Tells.after [Evolving p] (h : ∀ a, Tells P (f a) R) : Tells P (p >>= f) R :=
  Tells.bind (Q := fun _ => True) (fun _ _ => trivial) fun a _ => h a

theorem tells_pure {a : α} (h : Q a) : Tells P (pure a) Q := fun _ _ => h

theorem Tells.ite {d : Prop} [Decidable d] {q : Parser α} (yes : d → Tells P p Q)
    (no : ¬ d → Tells P q Q) : Tells P (if d then p else q) Q := by
  split
  · exact yes ‹_›
  · exact no ‹_›

theorem Tells.repeated {pass : α → Parser (Parser.Pass α)} [hp : ∀ a, Evolving (pass a)] {a : α}
    (h : ∀ a, Q a → Tells P (pass a) fun r => Q r.value) (ha : Q a) :
    Tells P (Parser.repeated pass a) Q := by
  intro s hs
  fun_induction Parser.repeated pass a s with
  | case1 a s b next run =>
      have hb := h a ha s hs
      rwa [run] at hb
  | case2 a s b next run lt ih =>
      have hb := h a ha s hs
      have step := (hp a).evolves s
      rw [run] at hb step
      exact ih hb (hs.evolves step)
  | case3 a s b next run lt =>
      have hb := h a ha s hs
      rwa [run] at hb

/-- A look at the state: what is read next is known of the rest, too. -/
theorem tells_get {f : ParserState → Parser β}
    (h : ∀ s, s.TextsAhead P → Tells P (f s) R) : Tells P (get >>= f) R :=
  fun s hs => h s hs s hs

theorem tells_current {f : Token → Parser β}
    (h : ∀ t : Token, (∀ x ∈ t.texts, P x) → Tells P (f t) R) :
    Tells P (Parser.current >>= f) R :=
  fun s hs => h s.current hs.current s hs

theorem Tells.some {p : Parser α} [Evolving p] (h : Tells P p Q) :
    Tells P (return Option.some (← p)) fun r => ∀ a ∈ r, Q a :=
  Tells.bind h fun a ha => tells_pure (by rintro _ ⟨⟩; exact ha)

end

section
variable {P : Text → Prop} {parts args chain : List Node}

attribute [local simp] Node.TextsHave Node.ownTexts Node.children

theorem allTexts_ofParts (h : AllTexts P parts) : AllTexts P [.ofParts parts] := by
  unfold Node.ofParts
  split
  · exact h
  · simpa using h

theorem allTexts_addArgument (ha : AllTexts P args) (h : AllTexts P parts) :
    AllTexts P (addArgument args parts) := by
  unfold addArgument
  split
  · exact ha
  · exact everywhere_append.mpr ⟨ha, allTexts_ofParts h⟩

theorem allTexts_ofChain {word : String} (hw : P (.name word)) (h : AllTexts P chain) :
    AllTexts P [.ofChain word chain] := by
  unfold Node.ofChain
  split
  · simpa using hw
  · exact everywhere_cons.mpr ⟨⟨by simpa using hw, h⟩, everywhere_nil⟩

theorem allTexts_awaited (hw : P (.symbol "await")) (h : AllTexts P parts) :
    AllTexts P (awaited parts) := by
  unfold awaited
  split
  · simpa using h
  · exact everywhere_cons.mpr ⟨by simpa using hw, h⟩

theorem allTexts_of_splitAssignment? {target value : List Node} {op : String} (h : AllTexts P parts)
    (split : splitAssignment? parts = some (target, op, value)) :
    AllTexts P target ∧ P (.symbol op) ∧ AllTexts P value := by
  obtain ⟨rfl, -⟩ := splitAssignment?_eq_some split
  simpa using h

theorem allTexts_varDecl {word : String} {type : Option String}
    (h : (∀ x ∈ typeTexts type, P x) ∧ P (.name word)) (hp : AllTexts P parts)
    (mutable isArray : Bool) : AllTexts P [.varDecl word type mutable isArray parts] :=
  everywhere_cons.mpr ⟨⟨List.forall_mem_cons.mpr ⟨h.2, h.1⟩, hp⟩, everywhere_nil⟩

theorem allTexts_bareVariable {word : String} (hw : P (.name word)) (h : AllTexts P parts) :
    AllTexts P [.bareVariable word parts] :=
  allTexts_varDecl ⟨by simp [typeTexts], hw⟩ h true false

theorem allTexts_ofStatementParts (scope : Scope) (h : AllTexts P parts) :
    AllTexts P [.ofStatementParts scope parts] := by
  unfold Node.ofStatementParts
  split
  · rename_i target op value found
    obtain ⟨ht, ho, hv⟩ := allTexts_of_splitAssignment? h found
    have assigned : AllTexts P [.assign target op value] := by simp [ho, ht, hv]
    unfold Node.ofAssignment
    split
    · split
      · exact allTexts_bareVariable (by simpa using ht) hv
      · exact assigned
    · exact assigned
  · unfold Node.ofExpression
    split
    · split
      · exact allTexts_bareVariable (by simpa using h) everywhere_nil
      · simpa using h
    · exact h
    · exact h
    · simpa using h

theorem allTexts_object_append {fields : List (String × List Node)} {key : String}
    (h : AllTexts P [.object fields]) (hk : P (.key key)) (hp : AllTexts P parts) :
    AllTexts P [.object (fields ++ [(key, parts)])] := by
  obtain ⟨⟨own, inside⟩, -⟩ := everywhere_cons.mp h
  have keys : Node.TextsHave P (.object (fields ++ [(key, parts)])) := by
    rw [Node.TextsHave, Node.ownTexts, List.map_append]
    exact List.forall_mem_append.mpr ⟨own, by simpa using hk⟩
  have values : AllTexts P ((fields ++ [(key, parts)]).flatMap (·.2)) := by
    rw [List.flatMap_append, List.flatMap_singleton]
    exact everywhere_append.mpr ⟨inside, hp⟩
  exact everywhere_cons.mpr ⟨⟨keys, values⟩, everywhere_nil⟩

theorem allTexts_ofLoopBody (h : AllTexts P parts) : AllTexts P [.ofLoopBody parts] := by
  unfold Node.ofLoopBody
  split <;> simpa using h

end

namespace Parser

section
variable {P : Text → Prop} (supplied : ∀ x ∈ suppliedTexts, P x)
include supplied

theorem name_tells : Tells P name fun word => P (.name word) := by
  refine tells_current fun t ht => Tells.ite (fun hk => ?_) fun _ => ?_
  · exact Tells.after fun _ => tells_pure (ht _ (by simp [Token.texts, hk]))
  · exact Tells.after fun _ => tells_pure (supplied _ (by simp [suppliedTexts]))

theorem typedName_tells : Tells P typedName fun typed =>
    (∀ x ∈ typeTexts typed.type, P x) ∧ P (.name typed.name) := by
  refine tells_get fun s hs => ?_
  have type : ∀ x ∈ typeTexts (if (s.current.kind == .identifier && s.beforeName &&
      s.options.types) = true then Option.some s.current.word else none), P x := by
    split
    · rename_i h
      simp only [Bool.and_eq_true, beq_iff_eq] at h
      simpa [typeTexts] using hs.current (.name _) (by simp [Token.texts, h.1.1])
    · simp [typeTexts]
  have rest : Tells P (do
      let isArray ← eatKeyword "array"
      let name ← name
      return (⟨if (s.current.kind == .identifier && s.beforeName && s.options.types) = true
        then Option.some s.current.word else none, name, isArray⟩ : TypedName))
      fun typed => (∀ x ∈ typeTexts typed.type, P x) ∧ P (.name typed.name) :=
    Tells.after fun _ => Tells.bind (name_tells supplied) fun word hw => tells_pure ⟨type, hw⟩
  exact Tells.ite (fun _ => Tells.after fun _ => rest) fun _ => rest

theorem params_tells : Tells P params fun list => ∀ x ∈ list.flatMap Param.texts, P x := by
  have none : ∀ x ∈ ([] : List Param).flatMap Param.texts, P x := by simp
  refine Tells.after fun _ => Tells.ite (fun _ => tells_pure none) fun _ => ?_
  refine Tells.repeated (fun list hl => ?_) none
  refine Tells.after fun _ => Tells.ite (fun _ => tells_pure hl) fun _ => ?_
  refine Tells.after fun _ => Tells.ite (fun _ => ?_) fun _ => tells_pure hl
  refine Tells.bind (typedName_tells supplied) fun typed ht => ?_
  have all : ∀ x ∈ (list ++ [(⟨typed.name, typed.type⟩ : Param)]).flatMap Param.texts, P x := by
    rw [List.flatMap_append, List.flatMap_singleton]
    exact List.forall_mem_append.mpr ⟨hl, List.forall_mem_cons.mpr ⟨ht.2, ht.1⟩⟩
  exact Tells.after fun _ => Tells.ite (fun _ => tells_pure all) fun _ => tells_pure all

theorem paramList_tells :
    Tells P paramList fun list => ∀ x ∈ list.flatMap Param.texts, P x := by
  refine Tells.after fun _ => Tells.ite (fun _ => ?_) fun _ => ?_
  · exact Tells.bind (params_tells supplied) fun list hl => Tells.after fun _ => tells_pure hl
  · exact Tells.after fun _ =>
      Tells.ite (fun _ => params_tells supplied) fun _ => tells_pure (by simp)

omit supplied in
theorem returnType_tells : Tells P returnType fun type => ∀ x ∈ typeTexts type, P x := by
  refine Tells.after fun _ => Tells.ite (fun _ => ?_) fun _ => tells_pure (by simp [typeTexts])
  refine tells_get fun s hs => Tells.ite (fun hk => ?_) fun _ => ?_
  · refine Tells.after fun _ => tells_pure ?_
    split
    · simpa [typeTexts] using hs.current (.name _) (by simp [Token.texts, hk])
    · simp [typeTexts]
  · exact Tells.after fun _ => tells_pure (by simp [typeTexts])

end

section
variable {P : Text → Prop} {nested : PlaceReader} [∀ place, Evolving (nested place)]
  (hn : ∀ place, Tells P (nested place) fun r => AllTexts P r.1)
include hn

attribute [local simp] Node.TextsHave Node.ownTexts Node.children

theorem expression_tells (stops : List Stop) :
    Tells P (expression nested stops) fun parts => AllTexts P parts :=
  Tells.bind (hn (.expression stops)) fun _ h => tells_pure h

omit [∀ place, Evolving (nested place)] in
theorem block_tells (opener : Span) (scope : Scope) (closers : List Stop) :
    Tells P (block nested opener scope closers) fun r => AllTexts P r.1 := by
  intro s hs
  have inside := hn (.statements scope closers) { s with openers := opener :: s.openers } hs
  rw [run_block]
  generalize nested (.statements scope closers) { s with openers := opener :: s.openers } = r
    at inside
  obtain ⟨⟨body, _ | stop⟩, next⟩ := r
  · exact inside
  · exact inside

theorem blockBody_tells (opener : Span) (scope : Scope) (closers : List Stop) :
    Tells P (blockBody nested opener scope closers) fun body => AllTexts P body :=
  Tells.bind (block_tells hn opener scope closers) fun _ h => tells_pure h

theorem framed_tells (opener : Span) (scope : Scope) (closers : List Stop) :
    Tells P (framed (blockBody nested opener scope closers)) fun r =>
      AllTexts P r.1 :=
  fun s hs => blockBody_tells hn opener scope closers { s with frames := false :: s.frames } hs

theorem link?_tells : Tells P (link? nested) fun link => ∀ n ∈ link, AllTexts P [n] := by
  have none : ∀ n ∈ (Option.none : Option Node), AllTexts P [n] := fun _ h => by cases h
  refine Tells.after fun _ => Tells.ite (fun _ => ?_) fun _ => ?_
  · refine tells_current fun t ht => Tells.ite (fun hk => ?_) fun _ => ?_
    · refine Tells.after fun _ => tells_pure ?_
      rintro n ⟨⟩
      have word : P (.member t.word) := ht _ (by rcases hk with hk | hk <;> simp [Token.texts, hk])
      simpa using word
    · exact Tells.after fun _ => tells_pure none
  · refine Tells.after fun _ => Tells.ite (fun _ => ?_) fun _ => tells_pure none
    refine Tells.bind (expression_tells hn _) fun index hi => Tells.after fun _ => tells_pure ?_
    rintro n ⟨⟩
    simpa using hi

theorem arguments_tells (stops : List Stop) (closer : Token → Bool) (missing : Expectation) :
    Tells P (repeated (argumentPass nested stops closer missing) []) fun args =>
      AllTexts P args := by
  refine Tells.repeated (fun args ha => ?_) (by simp)
  refine Tells.after fun _ => Tells.after fun _ => Tells.ite (fun _ => tells_pure ha) fun _ => ?_
  refine Tells.after fun _ => Tells.ite (fun _ => tells_pure ha) fun _ => ?_
  refine Tells.bind (expression_tells hn stops) fun parts hp => ?_
  have all := allTexts_addArgument ha hp
  refine Tells.after fun _ => Tells.after fun _ => Tells.ite (fun _ => tells_pure all) fun _ => ?_
  exact Tells.after fun _ => tells_pure all

theorem call_tells {callee : List Node} (hc : AllTexts P callee) :
    Tells P (call nested callee) fun n => AllTexts P [n] := by
  refine Tells.after fun _ => Tells.bind (arguments_tells hn _ _ _) fun args ha => ?_
  exact tells_pure (by simp [hc, ha])

theorem operandTail_tells {base : Node} (hb : AllTexts P [base]) :
    Tells P (operandTail nested base) fun parts => AllTexts P parts := by
  refine Tells.repeated (fun parts hp => ?_) hb
  refine Tells.after fun _ => Tells.ite (fun _ => tells_pure hp) fun _ => ?_
  refine Tells.after fun _ => Tells.ite (fun _ => ?_) fun _ => ?_
  · refine Tells.ite (fun _ => tells_pure hp) fun _ => ?_
    exact Tells.bind (call_tells hn hp) fun n h => tells_pure h
  · refine Tells.bind (link?_tells hn) fun link hl => ?_
    cases link with
    | none => exact tells_pure hp
    | some link => exact tells_pure (everywhere_append.mpr ⟨hp, hl link rfl⟩)

/-- A reference is read only where an identifier stands. -/
theorem reference_tells {s : ParserState} (hs : s.TextsAhead P)
    (hk : s.current.kind = .identifier) : AllTexts P (reference nested s).1 := by
  have chain : Tells P (repeated (chainPass nested) []) fun chain =>
      AllTexts P chain := by
    refine Tells.repeated (fun chain hc => ?_) (by simp)
    refine Tells.after fun _ => Tells.ite (fun _ => tells_pure hc) fun _ => ?_
    refine Tells.bind (link?_tells hn) fun link hl => ?_
    cases link with
    | none => exact tells_pure hc
    | some link => exact tells_pure (everywhere_append.mpr ⟨hc, hl link rfl⟩)
  have word : P (.name s.current.word) := hs.current _ (by simp [Token.texts, hk])
  have rest : Tells P (do
      let chain ← repeated (chainPass nested) []
      operandTail nested (.ofChain s.current.word chain)) fun parts =>
        AllTexts P parts :=
    Tells.bind chain fun chain hc => operandTail_tells hn (allTexts_ofChain word hc)
  exact rest s.advance (hs.evolves (.single (.advance s)))

theorem object_tells : Tells P (object nested) fun n => AllTexts P [n] := by
  have all : Tells P (repeated (fieldPass nested) [])
      fun fields => AllTexts P [.object fields] := by
    refine Tells.repeated (fun fields hf => ?_) (by simp)
    refine Tells.after fun _ => Tells.after fun _ => Tells.ite (fun _ => tells_pure hf) fun _ => ?_
    refine Tells.after fun _ => Tells.ite (fun _ => tells_pure hf) fun _ => ?_
    refine tells_current fun key hk => Tells.ite (fun named => ?_) fun _ =>
      Tells.after fun _ => tells_pure hf
    have word : P (.key key.word) := by
      apply hk
      simp only [TokenKind.isFieldName, List.mem_cons, List.not_mem_nil, or_false,
        decide_eq_true_eq] at named
      rcases named with kind | kind | kind | kind <;> simp [Token.texts, kind]
    refine Tells.after fun _ => Tells.after fun _ => ?_
    refine Tells.bind (expression_tells hn _) fun value hv => ?_
    exact Tells.after fun _ => Tells.after fun _ => tells_pure (allTexts_object_append hf word hv)
  exact Tells.after fun _ => Tells.bind all fun fields hf => tells_pure hf

theorem doBlock_tells : Tells P (doBlock nested) fun n => AllTexts P [n] :=
  Tells.after fun _ => Tells.after fun _ => Tells.bind (framed_tells hn _ _ _) fun r h =>
    tells_pure (by simpa using h)

theorem await_tells (supplied : ∀ x ∈ suppliedTexts, P x) :
    Tells P (await nested) fun parts => AllTexts P parts := by
  have word : P (.symbol "await") := supplied _ (by simp [suppliedTexts])
  refine Tells.after fun _ => Tells.after fun _ => ?_
  intro s hs
  rw [run_current_bind]
  split
  · exact allTexts_awaited word (reference_tells hn hs ‹_›)
  · change AllTexts P [.operator "await"]
    simpa using word

omit hn [∀ place, Evolving (nested place)] in
theorem single_tells {n : Node} (h : AllTexts P [n]) :
    Tells P (single n) fun r => ∀ parts ∈ r, AllTexts P parts := by
  refine Tells.after fun _ => tells_pure ?_
  rintro parts ⟨⟩
  exact h

theorem wordPart?_tells (supplied : ∀ x ∈ suppliedTexts, P x) {t : Token}
    (ht : ∀ x ∈ t.texts, P x) (hk : t.kind = .keyword) :
    Tells P (wordPart? nested t) fun r => ∀ parts ∈ r, AllTexts P parts := by
  have symbol : P (.symbol t.word) := ht _ (by simp [Token.texts, hk])
  have value : P (.value .bool t.word) := ht _ (by simp [Token.texts, hk])
  have null : P (.value .nil "null") := supplied _ (by simp [suppliedTexts])
  unfold wordPart?
  split
  · exact single_tells (by simpa using symbol)
  · exact single_tells (by simpa using null)
  · exact single_tells (by simpa using value)
  · exact (await_tells hn supplied).some
  · refine Tells.bind (doBlock_tells hn) fun n h => tells_pure ?_
    rintro parts ⟨⟩
    exact h
  · exact tells_pure fun _ h => by cases h

theorem operand_tells {p : Parser Node} [Evolving p] (h : Tells P p fun n => AllTexts P [n]) :
    Tells P (do
      let node ← p
      return some (← operandTail nested node)) fun r =>
        ∀ parts ∈ r, AllTexts P parts :=
  Tells.bind h fun _ hb => (operandTail_tells hn hb).some

theorem group_tells : Tells P (group nested) fun n => AllTexts P [n] :=
  Tells.after fun _ => Tells.bind (expression_tells hn []) fun body hb =>
    Tells.after fun _ => tells_pure (by simpa using hb)

theorem array_tells : Tells P (array nested) fun n => AllTexts P [n] :=
  Tells.after fun _ => Tells.bind (arguments_tells hn _ _ _) fun items hi =>
    tells_pure (by simpa using hi)

theorem operatorPart?_tells {t : Token} (ht : ∀ x ∈ t.texts, P x) (hk : t.kind = .operator) :
    Tells P (operatorPart? nested t) fun r => ∀ parts ∈ r, AllTexts P parts := by
  have symbol : P (.symbol t.word) := ht _ (by simp [Token.texts, hk])
  refine Tells.ite (fun _ => tells_pure ?_) fun _ => Tells.ite (fun _ => ?_) fun _ => ?_
  · exact fun _ h => by cases h
  · exact operand_tells hn (array_tells hn)
  · exact single_tells (by simpa using symbol)

theorem expressionPart?_tells (supplied : ∀ x ∈ suppliedTexts, P x) :
    Tells P (expressionPart? nested) fun r => ∀ parts ∈ r, AllTexts P parts := by
  have literal {kind : LiteralKind} {word : String} (hw : P (.value kind word)) : Tells P (do
      advance
      return some (← operandTail nested (.literal kind word))) fun r =>
        ∀ parts ∈ r, AllTexts P parts :=
    Tells.after fun _ => (operandTail_tells hn (by simpa using hw)).some
  intro s hs
  have texts := hs.current
  unfold expressionPart?
  rw [run_current_bind]
  cases hk : s.current.kind with
  | identifier =>
      rintro parts ⟨⟩
      exact reference_tells hn hs hk
  | number | string => exact literal (texts _ (by simp [Token.texts, hk])) s hs
  | operator => exact operatorPart?_tells hn texts hk s hs
  | leftParen => exact operand_tells hn (group_tells hn) s hs
  | leftBrace => exact operand_tells hn (object_tells hn) s hs
  | keyword => exact wordPart?_tells hn supplied texts hk s hs
  | _ => exact fun _ h => by cases h

theorem readExpression_tells (supplied : ∀ x ∈ suppliedTexts, P x) (stops : List Stop) :
    Tells P (readExpression nested stops) fun r => AllTexts P r.1 := by
  refine Tells.repeated (fun reading hr => ?_) (by simp)
  refine Tells.after fun s => Tells.ite (fun _ => tells_pure hr) fun _ => ?_
  refine Tells.ite (fun _ => tells_pure hr) fun _ => ?_
  refine Tells.bind (expressionPart?_tells hn supplied) fun parts hp => ?_
  cases parts with
  | none => exact fun _ _ => hr
  | some parts => exact tells_pure (everywhere_append.mpr ⟨hr, hp parts rfl⟩)

theorem initializer_tells :
    Tells P (initializer nested) fun init => AllTexts P init :=
  Tells.after fun _ => Tells.ite (fun _ => expression_tells hn []) fun _ => tells_pure (by simp)

theorem expressionStatement_tells (scope : Scope) :
    Tells P (expressionStatement nested scope) fun nodes => AllTexts P nodes := by
  refine Tells.bind (expression_tells hn []) fun parts hp => Tells.ite (fun _ => ?_) fun _ => ?_
  · exact Tells.after fun _ => tells_pure everywhere_nil
  · exact tells_pure (allTexts_ofStatementParts scope hp)

theorem assignment_tells :
    Tells P (assignment nested) fun nodes => AllTexts P nodes := by
  refine Tells.after fun _ => Tells.bind (expression_tells hn []) fun parts hp => ?_
  split
  · rename_i found
    obtain ⟨target, op, value⟩ := allTexts_of_splitAssignment? hp found
    exact tells_pure (by simp [target, op, value])
  · refine Tells.after fun _ => tells_pure ?_
    split
    · exact everywhere_nil
    · simpa using hp

theorem otherwise_tells (closer : Option (Stop × Span)) :
    Tells P (otherwise nested closer) fun r => AllTexts P (r.getD []) := by
  unfold otherwise
  split
  · exact tells_pure everywhere_nil
  · refine Tells.ite (fun _ => ?_) fun _ => Tells.ite (fun _ => ?_) fun _ => ?_
    · exact Tells.bind (blockBody_tells hn _ _ _) fun body h => tells_pure h
    · exact Tells.bind (hn (.condition _)) fun r h => tells_pure h
    · exact tells_pure everywhere_nil

theorem readCondition_tells (opener : Span) :
    Tells P (readCondition nested opener) fun r => AllTexts P r.1 := by
  refine Tells.bind (expression_tells hn []) fun test ht => Tells.after fun _ => ?_
  refine Tells.bind (block_tells hn _ _ _) fun r hb => ?_
  refine Tells.bind (otherwise_tells hn r.2) fun rest hr => tells_pure ?_
  simp [ht, hb, hr]

theorem openBlock_tells (scope : Scope) (closers : List Stop) :
    Tells P (openBlock nested scope closers) fun body => AllTexts P body :=
  Tells.after fun _ => Tells.after fun _ => blockBody_tells hn _ _ _

theorem instruction_tells : Tells P (instruction nested) fun n => AllTexts P [n] := by
  have operands : Tells P (repeated (operandPass nested) []) fun list =>
      AllTexts P list := by
    refine Tells.repeated (fun operands ho => ?_) (by simp)
    refine Tells.after fun _ => Tells.ite (fun _ => tells_pure ho) fun _ => ?_
    refine Tells.bind (expression_tells hn _) fun parts hp => ?_
    refine Tells.ite (fun _ => tells_pure ho) fun _ => ?_
    have all : AllTexts P (operands ++ [.ofParts parts]) :=
      everywhere_append.mpr ⟨ho, allTexts_ofParts hp⟩
    exact Tells.after fun _ => Tells.ite (fun _ => tells_pure all) fun _ => tells_pure all
  refine Tells.after fun _ => Tells.after fun _ => Tells.bind operands fun list hl => ?_
  exact tells_pure (by simpa using hl)

variable (supplied : ∀ x ∈ suppliedTexts, P x)
include supplied

theorem variableDecl_tells (mutable : Bool) : Tells P (do
      let typed ← typedName
      let init ← initializer nested
      return Node.varDecl typed.name typed.type mutable typed.isArray init) fun n =>
        AllTexts P [n] := by
  refine Tells.bind (typedName_tells supplied) fun typed ht => ?_
  exact Tells.bind (initializer_tells hn) fun init hi => tells_pure (allTexts_varDecl ht hi _ _)

theorem function_tells : Tells P (function nested) fun n => AllTexts P [n] := by
  refine Tells.after fun _ => Tells.after fun _ => ?_
  refine Tells.bind (name_tells supplied) fun word hw => ?_
  refine Tells.bind (paramList_tells supplied) fun params hp => ?_
  refine Tells.bind returnType_tells fun type ht => Tells.after fun _ => ?_
  refine Tells.bind (framed_tells hn _ _ _) fun r h => tells_pure ?_
  have texts := List.forall_mem_cons.mpr ⟨hw, List.forall_mem_append.mpr ⟨hp, ht⟩⟩
  exact everywhere_cons.mpr ⟨⟨texts, h⟩, everywhere_nil⟩

theorem constant_tells : Tells P (constant nested) fun n => AllTexts P [n] := by
  refine Tells.after fun _ => Tells.after fun _ =>
    Tells.ite (fun _ => function_tells hn supplied) fun _ => ?_
  refine Tells.bind (typedName_tells supplied) fun typed ht => Tells.after fun _ => ?_
  have rest : Tells P (do
      let init ← initializer nested
      return Node.varDecl typed.name typed.type false typed.isArray init) fun n =>
        AllTexts P [n] :=
    Tells.bind (initializer_tells hn) fun init hi =>
      tells_pure (allTexts_varDecl ht hi _ _)
  exact Tells.ite (fun _ => Tells.after fun _ => rest) fun _ => rest

theorem forStmt_tells : Tells P (forStmt nested) fun n => AllTexts P [n] := by
  refine Tells.after fun _ => Tells.after fun _ => ?_
  refine Tells.bind (name_tells supplied) fun word hw => Tells.after fun _ => ?_
  refine Tells.bind (expression_tells hn []) fun first hf => Tells.after fun _ => ?_
  refine Tells.bind (expression_tells hn []) fun last hl => ?_
  refine Tells.bind (blockBody_tells hn _ _ _) fun body hb => tells_pure ?_
  simp [hw, hf, hl, hb]

theorem struct_tells : Tells P (struct nested) fun n => AllTexts P [n] := by
  refine Tells.after fun _ => Tells.after fun _ => ?_
  refine Tells.bind (name_tells supplied) fun word hw => Tells.after fun _ => ?_
  refine Tells.bind (blockBody_tells hn _ _ _) fun body hb => tells_pure ?_
  simp [hw, hb]

theorem wordStatement_tells (scope : Scope) (word : StatementWord) :
    Tells P (wordStatement nested scope word) fun nodes => AllTexts P nodes := by
  have one {p : Parser Node} [Evolving p] (h : Tells P p fun n => AllTexts P [n]) :
      Tells P (return [← p]) fun nodes => AllTexts P nodes :=
    Tells.bind h fun n hn => tells_pure (by simpa using hn)
  have after : Tells P (afterKeyword nested) fun value => AllTexts P value :=
    Tells.after fun _ => expression_tells hn []
  cases word with
  | globals =>
      exact Tells.bind (openBlock_tells hn _ _) fun body h => tells_pure (by simpa using h)
  | loop =>
      exact Tells.bind (openBlock_tells hn _ _) fun body h => tells_pure (allTexts_ofLoopBody h)
  | function => exact one (function_tells hn supplied)
  | localDecl => exact Tells.after fun _ => one (variableDecl_tells hn supplied true)
  | constant => exact one (constant_tells hn supplied)
  | set => exact assignment_tells hn
  | returnStmt | exitWhen | expect =>
      exact Tells.bind after fun value h => tells_pure (by simpa using h)
  | ifStmt =>
      refine Tells.after fun _ => Tells.after fun _ => ?_
      exact Tells.bind (hn (.condition _)) fun r h => tells_pure h
  | call => exact Tells.after fun _ => expressionStatement_tells hn scope
  | forStmt => exact one (forStmt_tells hn supplied)
  | struct => exact one (struct_tells hn supplied)
  | debug => exact Tells.after fun _ => tells_pure (by simp)
  | expression => exact expressionStatement_tells hn scope

theorem nameStatement_tells (scope : Scope) :
    Tells P (nameStatement nested scope) fun nodes => AllTexts P nodes := by
  refine Tells.after fun s => Tells.ite (fun _ => ?_) fun _ => Tells.ite (fun _ => ?_) fun _ => ?_
  · exact Tells.bind (instruction_tells hn) fun n h => tells_pure (by simpa using h)
  · exact Tells.bind (variableDecl_tells hn supplied true) fun n h =>
      tells_pure (by simpa using h)
  · exact expressionStatement_tells hn scope

theorem statement?_tells (scope : Scope) :
    Tells P (statement? nested scope) fun r => ∀ nodes ∈ r, AllTexts P nodes := by
  have none : ∀ nodes ∈ (Option.none : Option (List Node)), AllTexts P nodes :=
    fun _ h => by cases h
  have expression := (expressionStatement_tells hn scope).some
  unfold statement?
  refine tells_current fun t ht => ?_
  split
  · refine Tells.after fun _ => ?_
    split
    · exact (wordStatement_tells hn supplied scope _).some
    · exact tells_pure none
  · rename_i hk
    have text : P (.comment t.word) := ht _ (by simp [Token.texts, hk])
    refine Tells.after fun _ => tells_pure ?_
    rintro nodes ⟨⟩
    simpa using text
  · exact (nameStatement_tells hn supplied scope).some
  · exact expression
  · exact expression
  · exact expression
  · exact expression
  · exact expression
  · exact tells_pure none

theorem readStatements_tells (scope : Scope) (stops : List Stop) :
    Tells P (readStatements nested scope stops) fun r => AllTexts P r.1 := by
  refine Tells.repeated (fun reading hr => ?_) (by simp)
  refine Tells.after fun s => Tells.ite (fun _ => tells_pure hr) fun _ => ?_
  cases stops.find? (·.accepts s.current) with
  | some stop => exact tells_pure hr
  | none =>
      dsimp only
      split
      · exact Tells.after fun _ => tells_pure hr
      · exact fun _ _ => hr
      · refine Tells.bind (statement?_tells hn supplied scope) fun nodes h => ?_
        cases nodes with
        | none => exact fun _ _ => hr
        | some nodes => exact tells_pure (by simp [Pass.value, hr, h nodes rfl])

end

end Parser

theorem Place.read_tells {P : Text → Prop} (supplied : ∀ x ∈ suppliedTexts, P x)
    (place : Place) : Tells P place.read fun r => AllTexts P r.1 := by
  refine place.read_induction (P := fun _ s r => s.TextsAhead P → AllTexts P r.1.1) ?_ ?_
  · intro place s _
    cases place <;> exact everywhere_nil
  · intro nested _ hn place s hs
    have hn : ∀ inner, Tells P (nested inner) fun r => AllTexts P r.1 := hn
    cases place with
    | expression stops => exact Parser.readExpression_tells hn supplied stops s hs
    | statements scope stops => exact Parser.readStatements_tells hn supplied scope stops s hs
    | condition opener => exact Parser.readCondition_tells hn opener s hs

theorem mem_of_mem_terminated {tokens : List Token} {t : Token} (h : t ∈ terminated tokens)
    (hk : t.kind ≠ .endOfFile) : t ∈ tokens := by
  unfold terminated at h
  split at h
  · rw [List.mem_singleton.mp h] at hk
    exact absurd rfl hk
  · split at h
    · exact h
    · refine (List.mem_append.mp h).resolve_right fun last => ?_
      rw [List.mem_singleton.mp last] at hk
      exact hk rfl

/-- Whatever the options are, each text in the tree is a text of one of the tokens, or it is one of
those that need no token. -/
theorem parse_allTexts (o : ParseOptions) (tokens : List Token) :
    AllTexts (fun x => x ∈ suppliedTexts ∨ ∃ t ∈ tokens, x ∈ t.texts)
      (parse o tokens).tree.body := by
  have told := Place.read_tells (P := fun x => x ∈ suppliedTexts ∨ ∃ t ∈ tokens, x ∈ t.texts)
    (fun x hx => .inl hx) (.statements .block [.endOfFile]) (.start o (terminated tokens))
  have ahead : (ParserState.start o (terminated tokens)).TextsAhead
      fun x => x ∈ suppliedTexts ∨ ∃ t ∈ tokens, x ∈ t.texts := by
    intro t ht x hx
    have kind : t.kind ≠ .endOfFile := by
      intro hk
      simp [Token.texts, hk] at hx
    exact .inr ⟨t, mem_of_mem_terminated ht kind, hx⟩
  rw [parse_eq o tokens rfl]
  exact told ahead

end MapScript
