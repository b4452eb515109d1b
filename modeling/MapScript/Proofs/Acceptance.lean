import MapScript.Proofs.Acceptance.Statements

/-!
# The parser accepts the grammar

Every program of the grammar is read without an error, and its tree is the one that the grammar
says.
-/
namespace MapScript

open MapScript.Parser

/-- How the parser reads a phrase, before whatever may follow it. -/
def Phrase.Accepted (ts : List Token) (ns : List Node) : Phrase → Prop
  | .expression => ReadsAs ts ns
  | .parts afterOperand => ReadsAsParts afterOperand ts ns
  | .operand => ReadsAsOperand ts ns
  | .named => ∃ t rest, ts = t :: rest ∧ t.kind = .identifier ∧ ns ≠ [] ∧
      ∀ after, (front after).attaches = false → Takes (Parser.reference Place.read) ts after ns
  | .reference => ∃ t rest chain, ts = t :: rest ∧ t.kind = .identifier ∧
      ns = [.ofChain t.word chain] ∧ ∀ after, (front after).isLinkSign = false →
        Takes (repeated (chainPass Place.read) []) rest after chain
  | .link => ∃ t rest n, ts = t :: rest ∧ t.isLinkSign = true ∧ ns = [n] ∧
      ∀ after, Takes (link? Place.read) ts after (some n)
  | .links => ∀ chain after, (front after).isLinkSign = false →
      Takes (repeated (chainPass Place.read) chain) ts after (chain ++ ns)
  | .called before => (before ≠ [] → ns ≠ []) ∧ ∀ after, (front after).attaches = false →
      (front (ts ++ after)).isLinkSign = false ∧ (isUncallable before = false →
        Takes (repeated (postfixPass Place.read) before) ts after ns)
  | .suffixes before => (before ≠ [] → ns ≠ []) ∧ ∀ after, (front after).attaches = false →
      Takes (repeated (postfixPass Place.read) before) ts after ns
  | .argument => ∃ parts, ns = [.ofParts parts] ∧ ReadsAs ts parts
  | .arguments square before => ∀ stops closer missing after, Brackets square stops closer →
      Takes (repeated (argumentPass Place.read stops closer missing) before) ts after ns
  | .fields before => ts ≠ [] ∧ (front ts).kind ≠ .operator ∧ ∃ all, ns = [.object all] ∧
      ∀ after, Takes (repeated (fieldPass Place.read) before) ts after all
  | .initializer => ∀ after, (front after).Ends →
      Unnamed (ts ++ after) ∧ Takes (Parser.initializer Place.read) ts after ns
  | .function => (front ts).Opens ∧
      ∀ scope after, Takes (statement? Place.read scope) ts after (some ns)
  | .constant => (front ts).Opens ∧ ∀ scope, ReadsAsStatement scope ts ns
  | .statement => (front ts).Opens ∧ ReadsAsStatement .block ts ns
  | .body => Nameless ts ∧ ReadsAsBlock .block ts ns
  | .declaration => ∀ scope, scope ≠ .block → ReadsAsStatement scope ts ns
  | .declarations _ => ∀ scope, scope ≠ .block → ReadsAsBlock scope ts ns
  | .condition => ∀ opener after, Takes (Place.read (.condition opener)) ts after (ns, none)

theorem LineEnds.front_append_ne {es : List Token} (he : LineEnds es) {ts : List Token}
    (ht : (front ts).kind ≠ .operator) : (front (es ++ ts)).kind ≠ .operator := by
  cases es with
  | nil => exact ht
  | cons e es => simp [he e List.mem_cons_self]

theorem ExpressionWord.ofWord?_truth {word : String} (h : word ∈ ["true", "false"]) :
    ExpressionWord.ofWord? word = some .bool := by
  simp only [List.mem_cons, List.not_mem_nil, or_false] at h
  rcases h with rfl | rfl <;> decide

theorem ExpressionWord.ofWord?_nil {word : String} (h : word ∈ ["nil", "null"]) :
    ExpressionWord.ofWord? word = some .nil := by
  simp only [List.mem_cons, List.not_mem_nil, or_false] at h
  rcases h with rfl | rfl <;> decide

theorem Token.IsSymbol.begins_bracket {l : Token} (h : l.IsSymbol "[") : l.Begins := by
  refine ⟨by simp [Token.endsExpression, h.1], ?_, ?_⟩
  · rw [Token.isOperator, h.isA]
    decide
  · rw [Token.isOperator, h.isA]
    decide

theorem awaited_eq_cons {ps : List Node}
    (h : ∀ callee isAsync args, ps ≠ [.call callee isAsync args]) :
    awaited ps = .operator "await" :: ps := by
  unfold awaited
  split
  · exact absurd rfl (h _ _ _)
  · rfl

theorem Node.ofChain_of_ne_nil {chain : List Node} (h : chain ≠ []) (name : String) :
    Node.ofChain name chain = .member name chain := by
  cases chain with
  | nil => exact absurd rfl h
  | cons n ns => rfl

theorem Node.ofParts_of_two_le {parts : List Node} (h : 2 ≤ parts.length) :
    Node.ofParts parts = .expr parts := by
  unfold ofParts
  split
  · simp at h
  · rfl

theorem Node.ofLoopBody_of_ne {body : List Node} (h : ∀ exit rest, body ≠ .exitWhen exit :: rest) :
    Node.ofLoopBody body = .loop none body := by
  unfold ofLoopBody
  split
  · exact absurd rfl (h _ _)
  · rfl

namespace Phrase
variable {t : Token} {xs ts : List Token} {n : Node} {ms ns : List Node}

theorem accepted_awaitOther (ht : t.IsWord "await") (h : named.Accepted ts ns)
    (other : ∀ callee isAsync args, ns ≠ [.call callee isAsync args]) :
    operand.Accepted (t :: ts) (.operator "await" :: ns) := by
  obtain ⟨name, rest, rfl, hi, -, taken⟩ := h
  rw [← awaited_eq_cons other]
  exact ⟨ht.begins (by decide), by simp [awaited_eq_cons other],
    fun ha => takes_await ht hi (taken _ ha)⟩

theorem accepted_doBlock {c : Token} (ht : t.IsWord "do") (h : body.Accepted ts ns)
    (hc : c.IsWord "end") :
    operand.Accepted (t :: (ts ++ [c])) [.doBlock (ns.any Node.waits) ns] := by
  refine ⟨ht.begins (by decide), by simp, fun _ => ?_⟩
  refine takes_doBlock ht hc (h.2.read blockStops_doEnd ((find?_accepts hc _).trans rfl) ?_)
  exact Token.ends_of_word hc.1 (by rw [hc.2]; decide)

theorem accepted_named (hx : reference.Accepted xs [n]) (h : (called [n]).Accepted ts ns) :
    named.Accepted (xs ++ ts) ns := by
  obtain ⟨t, rest, chain, rfl, ht, hn, links⟩ := hx
  cases hn
  refine ⟨t, rest ++ ts, rfl, ht, h.1 (by simp), fun after ha => ?_⟩
  obtain ⟨sign, tail⟩ := h.2 after ha
  exact takes_reference ht (links _ sign) (tail (isUncallable_ofChain _ _))

theorem accepted_links (hx : link.Accepted xs [n]) (h : links.Accepted ts ns) :
    links.Accepted (xs ++ ts) (n :: ns) := by
  obtain ⟨t, rest, m, rfl, -, hn, taken⟩ := hx
  cases hn
  intro chain after hs
  rw [List.append_cons]
  exact takes_chainLink (List.cons_ne_nil t rest) (taken _) (h _ _ hs)

theorem accepted_fieldOnLine {es fs us : List Token} {key colon : Token} {value : List Node}
    {before : List (String × List Node)} (he : LineEnds es) (hk : key.kind.isFieldName)
    (hc : colon.IsSymbol ":" ∨ colon.IsSymbol "=") (hv : expression.Accepted ts value)
    (hf : LineEnds fs) (hu : ∀ t ∈ us.head?, t.kind ≠ .endOfLine)
    (hb : fs = [] → ∀ t ∈ us.head?, t.kind = .rightBrace)
    (h : (fields (before ++ [(key.word, value)])).Accepted us ns) :
    (fields before).Accepted (es ++ key :: colon :: (ts ++ (fs ++ us))) ns := by
  obtain ⟨some, front, all, hn, taken⟩ := h
  refine ⟨by simp, he.front_append_ne (kind_ne_of_isFieldName hk), all, hn, fun _ => ?_⟩
  obtain ⟨next, us, rfl⟩ := List.exists_cons_of_ne_nil some
  exact takes_fieldOnLine he hk hc hv hf (hu next rfl) (fun hs => hb hs next rfl) front (taken _)

theorem accepted_constant {equals : Token} {typed : TypedName}
    (ht : t.IsWord "const" ∨ t.IsWord "constant") (hx : typed.Written xs)
    (he : equals.IsSymbol "=") (h : expression.Accepted ts ns) :
    constant.Accepted (t :: (xs ++ equals :: ts))
      [.varDecl typed.name typed.type false typed.isArray ns] := by
  have opens : t.Opens := by rcases ht with ht | ht <;> exact ⟨ht.1, by rw [ht.2]; decide⟩
  refine ⟨opens, fun scope => ⟨.inl opens, fun ha => ?_⟩⟩
  have decl := takes_constant opens.1 hx he h (endsBefore_of_ends ha [])
  rcases ht with ht | ht
  · exact takes_keyword .constant ht (by decide) (Takes.map decl)
  · exact takes_keyword .constant ht (by decide) (Takes.map decl)

theorem accepted_function {name takes returns type line c : Token} {ps : List Param}
    {result : Option String} (ht : t.IsWord "function") (hn : name.kind = .identifier)
    (hk : takes.IsWord "takes") (hp : ParamList xs ps) (hr : returns.IsWord "returns")
    (hresult : ReturnType type result) (hl : line.kind = .endOfLine) (h : body.Accepted ts ns)
    (hc : c.Closes "endfunction") :
    function.Accepted (t :: name :: takes :: (xs ++ returns :: type :: line :: (ts ++ [c])))
      [.function name.word ps result (ns.any Node.waits) ns] := by
  refine ⟨⟨ht.1, by rw [front_cons, ht.2]; decide⟩, fun scope after => ?_⟩
  refine takes_keyword .function ht (by decide) (Takes.map ?_)
  exact takes_function ht hn hk hp hr hresult hl h.2 hc

theorem accepted_nameAlone (ht : t.kind = .identifier) :
    declaration.Accepted [t] [.varDecl t.word none true false []] := by
  intro scope hs
  refine ⟨.inr ht, fun ha => ?_⟩
  rw [← Node.bareVariable, ← ofStatementParts_identifier hs]
  exact takes_nameStatement ht ⟨ha.kind_ne.1, ha.notArray⟩
    (readsAsOperand_identifier ht).readsAs (endsBefore_of_ends ha [])

theorem accepted_nameWithValue {equals : Token} (ht : t.kind = .identifier)
    (he : equals.IsSymbol "=") (h : expression.Accepted ts ns) :
    declaration.Accepted (t :: equals :: ts) [.varDecl t.word none true false ns] := by
  intro scope hs
  refine ⟨.inr ht, fun ha => ?_⟩
  have value := (readsAsOperand_identifier ht).operation
    (Token.isPlainOperator_of_assignment he.1 (by rw [he.2]; decide)) h
  rw [he.2] at value
  rw [← Node.bareVariable, ← ofStatementParts_assignment hs]
  exact takes_nameStatement ht (unnamed_equals he) value (endsBefore_of_ends ha [])

theorem accepted_localDecl {typed : TypedName} (ht : t.IsWord "local") (hx : typed.Written xs)
    (h : initializer.Accepted ts ns) :
    statement.Accepted (t :: (xs ++ ts))
      [.varDecl typed.name typed.type true typed.isArray ns] := by
  refine ReadsAsStatement.ofWord ht (by decide) fun ha => ?_
  obtain ⟨unnamed, init⟩ := h _ ha
  refine takes_keyword .localDecl ht (by decide) (Takes.advance (by simp [ht.1]) ?_)
  exact Takes.map (takes_variableDecl hx unnamed init)

theorem accepted_set {op : Token} (ht : t.IsWord "set") (hx : reference.Accepted xs [n])
    (hk : op.kind = .operator) (hw : op.word ∈ assignmentOperators)
    (h : expression.Accepted ts ns) :
    statement.Accepted (t :: (xs ++ op :: ts)) [.assign [n] op.word ns] := by
  obtain ⟨name, rest, chain, rfl, hi, hn, links⟩ := hx
  cases hn
  have value := (readsAsOperand_reference hi links).operation
    (Token.isPlainOperator_of_assignment hk hw) h
  have target : ∀ n ∈ [Node.ofChain name.word chain], ¬ n.IsAssignment := by
    simp [Node.not_isAssignment_ofChain]
  have split := splitAssignment?_append hw target
  refine ReadsAsStatement.ofWord ht (by decide) fun ha => takes_keyword .set ht (by decide) ?_
  exact takes_assignment ht.1 value (split _) (endsBefore_of_ends ha [])

theorem accepted_statements (hx : statement.Accepted xs ms) (h : body.Accepted ts ns) :
    body.Accepted (xs ++ ts) (ms ++ ns) := by
  refine ⟨?_, ReadsAsBlock.statements hx.2 h.2 h.1⟩
  cases xs with
  | nil => cases hx.1.1
  | cons t xs =>
      rintro _ ⟨⟩ hk
      cases hk.symm.trans hx.1.1

end Phrase

/-- By induction on the derivation: each rule of the grammar is a rule of the parser. -/
theorem Derives.accepted {phrase : Phrase} {ts : List Token} {ns : List Node}
    (h : Derives phrase ts ns) : phrase.Accepted ts ns := by
  induction h with
  | expression hne _ ih => exact ReadsAsParts.readsAs ih hne
  | noParts => exact ReadsAsParts.nil
  | operator ht _ ih => exact ReadsAsParts.operator ht ih
  | operand _ _ ihx ih => exact ReadsAsParts.operand ihx ih
  | number ht _ ih =>
      exact ⟨Token.begins_of_kind (by simp [ht]), ih.1 (by simp),
        fun ha => takes_number ht (ih.2 _ ha)⟩
  | string ht _ ih =>
      exact ⟨Token.begins_of_kind (by simp [ht]), ih.1 (by simp),
        fun ha => takes_string ht (ih.2 _ ha)⟩
  | truth ht hw =>
      have word := ExpressionWord.ofWord?_truth hw
      exact ⟨Token.begins_of_word ht (by simp [word]), by simp,
        fun _ => takes_word ht word (takes_single (by simp [ht]))⟩
  | nil ht hw =>
      have word := ExpressionWord.ofWord?_nil hw
      exact ⟨Token.begins_of_word ht (by simp [word]), by simp,
        fun _ => takes_word ht word (takes_single (by simp [ht]))⟩
  | name _ ih =>
      obtain ⟨t, rest, rfl, ht, hn, h⟩ := ih
      exact ⟨Token.begins_of_kind (by simp [ht]), hn, fun ha => takes_name ht (h _ ha)⟩
  | awaitCall ht _ ih =>
      obtain ⟨t, rest, rfl, hi, -, h⟩ := ih
      exact ⟨ht.begins (by decide), by simp, fun ha => takes_await ht hi (h _ ha)⟩
  | awaitOther ht _ hc ih => exact Phrase.accepted_awaitOther ht ih hc
  | group hl _ hr _ ih ihs =>
      exact ⟨Token.begins_of_kind (by simp [hl]), ihs.1 (by simp),
        fun ha => takes_group hl ih hr (ihs.2 _ ha)⟩
  | array hl _ _ ih ihs =>
      exact ⟨hl.begins_bracket, ihs.1 (by simp),
        fun ha => takes_array hl (ih _ _ _ _ squareBrackets) (ihs.2 _ ha)⟩
  | object hl _ _ ih ihs =>
      obtain ⟨-, -, _, hf, h⟩ := ih
      cases hf
      exact ⟨Token.begins_of_kind (by simp [hl]), ihs.1 (by simp),
        fun ha => takes_object hl (h _) (ihs.2 _ ha)⟩
  | doBlock ht _ hc ih => exact Phrase.accepted_doBlock ht ih hc
  | named _ _ ihx ih => exact Phrase.accepted_named ihx ih
  | identifier ht => exact ⟨_, [], [], rfl, ht, rfl, fun _ hs => takes_noLinks hs []⟩
  | member ht _ hn ih =>
      exact ⟨_, _, _, rfl, ht, by rw [List.nil_append, Node.ofChain_of_ne_nil hn], ih []⟩
  | noLinks =>
      intro chain after hs
      rw [List.append_nil]
      exact takes_noLinks hs chain
  | links _ _ ihx ih => exact Phrase.accepted_links ihx ih
  | property hd ht =>
      exact ⟨_, _, _, rfl, Token.isLinkSign_of_dot hd, rfl, fun _ => takes_property hd ht⟩
  | index hl _ hr ih =>
      exact ⟨_, _, _, rfl, Token.isLinkSign_of_bracket hl, rfl, fun _ => takes_index hl ih hr⟩
  | notCalled =>
      refine ⟨id, fun after ha => ⟨?_, fun _ => takes_noSuffixes ha _⟩⟩
      exact Token.isLinkSign_of_attaches ha
  | called hl _ _ ih ihs =>
      refine ⟨fun _ => ihs.1 (by simp), fun after ha => ⟨?_, fun hb => ?_⟩⟩
      · exact Token.isLinkSign_eq_false (by simp [hl])
      · exact takes_suffixCall hb hl (ih _ _ _ _ roundBrackets) (ihs.2 _ ha)
  | noSuffixes => exact ⟨id, fun _ ha => takes_noSuffixes ha _⟩
  | suffixLink _ _ ihx ih =>
      obtain ⟨t, rest, n, rfl, ht, hn, h⟩ := ihx
      cases hn
      exact ⟨fun _ => ih.1 (by simp), fun _ ha => takes_suffixLink ht (h _) (ih.2 _ ha)⟩
  | suffixCall hb hl _ _ ih ihs =>
      exact ⟨fun _ => ihs.1 (by simp),
        fun _ ha => takes_suffixCall hb hl (ih _ _ _ _ roundBrackets) (ihs.2 _ ha)⟩
  | onePart _ ih => exact ⟨_, rfl, ih⟩
  | manyParts _ hl ih => exact ⟨_, by rw [Node.ofParts_of_two_le hl], ih⟩
  | noArguments he hr => exact fun _ _ _ _ hb => takes_noArguments hb he hr
  | lastArgument he _ hf hr ih =>
      obtain ⟨parts, hn, h⟩ := ih
      cases hn
      exact fun _ _ _ _ hb => takes_lastArgument hb he h hf hr
  | moreArguments he _ hf hc _ ih iha =>
      obtain ⟨parts, hn, h⟩ := ih
      cases hn
      exact fun _ _ _ _ hb => takes_moreArguments hb he h hf hc (iha _ _ _ _ hb)
  | noFields he hr =>
      refine ⟨by simp, he.front_append_ne (by simp [hr]), _, rfl, fun _ => takes_noFields he hr⟩
  | fieldWithComma he hk hc _ hf hm _ ih ihs =>
      obtain ⟨-, -, all, hn, h⟩ := ihs
      refine ⟨by simp, he.front_append_ne (kind_ne_of_isFieldName hk), all, hn, fun _ => ?_⟩
      exact takes_fieldWithComma he hk hc ih hf hm (h _)
  | fieldOnLine he hk hc _ hf hu hb _ ih ihs =>
      exact Phrase.accepted_fieldOnLine he hk hc ih hf hu hb ihs
  | noInitializer =>
      intro after ha
      refine ⟨⟨ha.kind_ne.1, ha.notArray⟩, takes_noInitializer ?_⟩
      exact Token.isOperator_eq_false ha.kind_ne.2 "="
  | initializer he _ ih =>
      intro after ha
      exact ⟨unnamed_equals he, takes_initializer he ih (endsBefore_of_ends ha [])⟩
  | constant ht hx he _ ih => exact Phrase.accepted_constant ht hx he ih
  | function ht hn hk hp hr hresult hl _ hc ih =>
      exact Phrase.accepted_function ht hn hk hp hr hresult hl ih hc
  | nameAlone ht => exact Phrase.accepted_nameAlone ht
  | nameWithValue ht he _ ih => exact Phrase.accepted_nameWithValue ht he ih
  | typedName hx ht _ ih =>
      intro scope _
      refine ⟨.inr (hx.front_identifier ht _), fun ha => ?_⟩
      exact takes_typeStatement hx ht (ih _ ha).1 (ih _ ha).2
  | constantDeclaration _ ih => exact fun scope _ => ih.2 scope
  | noDeclarations => exact fun _ _ => ReadsAsBlock.nil
  | blankDeclaration ht _ ih => exact fun scope hs => (ih scope hs).blankLine ht
  | declarations _ hn _ ihx ih => exact fun scope hs => (ih scope hs).statements (ihx scope hs) hn
  | method _ _ ihx ih =>
      exact fun scope hs => ReadsAsBlock.cons (.inl ihx.1) (fun _ => ihx.2 scope _) (ih scope hs)
  | globals ht _ hc ih =>
      exact ReadsAsStatement.ofWord ht (by decide) fun _ => takes_globals ht (ih _ (by decide)) hc
  | functionStatement _ ih => exact ⟨ih.1, .inl ih.1, fun _ => ih.2 .block _⟩
  | localDecl ht hx _ ih => exact Phrase.accepted_localDecl ht hx ih
  | constantStatement _ ih => exact ⟨ih.1, ih.2 .block⟩
  | set ht _ hk hw _ ihx ih => exact Phrase.accepted_set ht ihx hk hw ih
  | returnNothing ht =>
      refine ReadsAsStatement.ofWord ht (by decide) fun ha => ?_
      refine takes_keyword .returnStmt ht (by decide) (Takes.map ?_)
      exact takes_keywordAlone ht.1 (endsBefore_of_ends ha [])
  | returnValue ht _ ih =>
      exact ReadsAsStatement.afterKeyword .returnStmt ht (by decide) (by decide) rfl ih
  | ifStmt ht _ ih =>
      exact ReadsAsStatement.ofWord ht (by decide) fun _ => takes_if ht fun opener => ih opener _
  | callCall ht _ ih => exact readsAsStatement_call ht ih
  | callBlock ht _ ih => exact readsAsStatement_call ht ih
  | callAssignment ht _ ho hn ih =>
      rw [← ofStatementParts_assign ho hn]
      exact readsAsStatement_call ht ih
  | callExpression ht _ hn hc hd ih =>
      rw [← ofStatementParts_exprStmt hn hc hd]
      exact readsAsStatement_call ht ih
  | loopWithExit ht _ hc ih =>
      exact ReadsAsStatement.ofWord ht (by decide) fun _ => takes_loop ht ih.2 hc
  | loop ht _ hn hc ih =>
      rw [← Node.ofLoopBody_of_ne hn]
      exact ReadsAsStatement.ofWord ht (by decide) fun _ => takes_loop ht ih.2 hc
  | exitWhen ht _ ih =>
      exact ReadsAsStatement.afterKeyword .exitWhen ht (by decide) (by decide) rfl ih
  | forStmt ht hn he _ hu _ _ hc ihf ihl ih =>
      refine ReadsAsStatement.ofWord ht (by decide) fun _ => ?_
      exact takes_for ht hn he ihf hu ihl ih.1 ih.2 hc
  | struct ht hn hl _ hc ih =>
      exact ReadsAsStatement.ofWord ht (by decide) fun _ =>
        takes_struct ht hn hl (ih _ (by decide)) hc
  | expect ht _ ih =>
      exact ReadsAsStatement.afterKeyword .expect ht (by decide) (by decide) rfl ih
  | debug ht =>
      refine ReadsAsStatement.ofWord ht (by decide) fun _ => takes_keyword .debug ht (by decide) ?_
      exact Takes.advance (by simp [ht.1]) (.pure _)
  | conditionAlone _ ht _ hc iht ih => exact fun _ _ => takes_conditionAlone iht ht ih.2 hc
  | conditionElse _ ht _ hd _ hc iht ih iho =>
      exact fun _ _ => takes_conditionElse iht ht ih.2 hd iho.2 hc
  | conditionElseIf _ ht _ hd _ iht ih iho =>
      exact fun _ _ => takes_conditionElseIf iht ht ih.2 hd fun opener => iho opener _
  | noStatements =>
      refine ⟨?_, ReadsAsBlock.nil⟩
      rintro _ ⟨⟩
  | blankLine ht _ ih =>
      refine ⟨?_, ih.2.blankLine ht⟩
      rintro _ ⟨⟩
      simp [ht]
  | statements _ _ ihx ih => exact Phrase.accepted_statements ihx ih

theorem plainOperators_append {ts us : List Token} :
    PlainOperators (ts ++ us) ↔ PlainOperators ts ∧ PlainOperators us :=
  List.forall_mem_append

theorem plainOperators_cons {t : Token} {ts : List Token} :
    PlainOperators (t :: ts) ↔ (t.kind = .operator → t.word ≠ "await") ∧ PlainOperators ts :=
  List.forall_mem_cons

theorem plainOperators_nil : PlainOperators [] := List.forall_mem_nil _

theorem LineEnds.plainOperators {es : List Token} (h : LineEnds es) : PlainOperators es := by
  intro t ht hk
  cases hk.symm.trans (h t ht)

theorem TypedName.Written.plainOperators {xs : List Token} {typed : TypedName}
    (h : typed.Written xs) : PlainOperators xs := by
  cases h <;>
    grind -ring -linarith [plainOperators_cons, plainOperators_nil, Token.IsWord, Token.Is]

theorem ParamList.plainOperators {xs : List Token} {ps : List Param} (h : ParamList xs ps) :
    PlainOperators xs := by
  rcases h with ht | h
  · grind -ring -linarith [plainOperators_cons, plainOperators_nil, Token.IsWord, Token.Is]
  · induction h <;>
      grind -ring -linarith [plainOperators_cons, plainOperators_nil, Token.IsSymbol, Token.Is]

theorem Token.ClosesArguments.ne_await {t : Token} {square : Bool} (h : t.ClosesArguments square) :
    t.kind = .operator → t.word ≠ "await" := by
  cases square <;> grind -ring -linarith [Token.ClosesArguments, Token.IsSymbol, Token.Is]

theorem ReturnType.kind_ne {t : Token} {result : Option String} (h : ReturnType t result) :
    t.kind ≠ .operator := by
  cases h <;> grind -ring -linarith [Token.IsWord, Token.Is]

theorem Derives.plainOperators {phrase : Phrase} {ts : List Token} {ns : List Node}
    (h : Derives phrase ts ns) : PlainOperators ts := by
  -- no arithmetic is needed, and looking for instances of it takes long
  induction h <;> grind -ring -linarith [plainOperators_append, plainOperators_cons,
    plainOperators_nil, LineEnds.plainOperators, TypedName.Written.plainOperators,
    ParamList.plainOperators, Token.ClosesArguments.ne_await, ReturnType.kind_ne,
    kind_ne_of_isFieldName, Token.IsSymbol, Token.IsWord, Token.Is, Token.IsPlainOperator,
    Token.Closes, assignmentOperators]

/-- A program of the grammar is read without an error, whatever the budget is, and the tree is the
one of its derivation. -/
theorem parse_of_derives (budget : Nat) {ts : List Token} {ns : List Node} {eof : Token}
    (h : Derives .body ts ns) (he : eof.kind = .endOfFile) :
    parse ⟨true, false, budget⟩ (ts ++ [eof]) = ⟨⟨ns, ns.any Node.waits⟩, [], false⟩ := by
  have ended : terminated (ts ++ [eof]) = ts ++ [eof] := terminated_concat ts he
  have plain : PlainOperators (ts ++ [eof]) :=
    plainOperators_append.mpr ⟨h.plainOperators, by simp [PlainOperators, he]⟩
  have stops : BlockStops [.endOfFile] := fun stop hs => .inl (List.mem_singleton.mp hs)
  have found : [Stop.endOfFile].find? (·.accepts eof) = some .endOfFile := by
    simp [Stop.accepts, Stop.endOfFile, he]
  have taken : Takes (Place.read (.statements .block [.endOfFile])) ts [eof]
      (ns, some .endOfFile) := h.accepted.2.read stops found (Token.ends_of_end he)
  have quiet : (ParserState.start ⟨true, false, budget⟩ (ts ++ [eof])).Quiet :=
    ⟨rfl, rfl, rfl, plain, by simp [ParserState.start]⟩
  obtain ⟨value, moves⟩ := taken _ quiet rfl
  obtain ⟨frames, -⟩ := Place.read_collects (.statements .block [.endOfFile])
    (.start ⟨true, false, budget⟩ (ts ++ [eof])) false [] plain everywhere_nil rfl
  rw [value] at frames
  rw [← ended] at value moves frames
  rw [parse_eq _ _ (Prod.ext value rfl), moves.errors, moves.aborted, ParserState.isAsync, frames]
  rfl

/-- A token that no source put there. -/
def Token.bare (kind : TokenKind) (text : String) : Token := ⟨kind, some text, none, .point 0⟩

/-- A function that waits for a call. -/
theorem parse_of_derives_function :
    parse ⟨true, false, 0⟩ ([.bare .keyword "function", .bare .identifier "f",
      .bare .keyword "takes", .bare .identifier "integer", .bare .identifier "n",
      .bare .keyword "returns", .bare .keyword "nothing", .bare .endOfLine "",
      .bare .keyword "return", .bare .keyword "await", .bare .identifier "g",
      .bare .leftParen "(", .bare .identifier "n", .bare .rightParen ")", .bare .operator "+",
      .bare .number "1", .bare .keyword "end"] ++ [.noMore]) =
    ⟨⟨[.function "f" [⟨"n", some "integer"⟩] none true
      [.returnStmt [.call [.identifier "g"] true [.identifier "n"], .operator "+",
        .literal .number "1"]]], false⟩, [], false⟩ := by
  have word (w : String) : (Token.bare .keyword w).IsWord w := ⟨rfl, rfl⟩
  have blank : LineEnds [] := List.forall_mem_nil _
  have closer : (Token.bare .rightParen ")").ClosesArguments false := rfl
  have plus : (Token.bare .operator "+").IsPlainOperator := .inl ⟨rfl, by decide⟩
  have param : ParamList [.bare .identifier "integer", .bare .identifier "n"]
      [⟨"n", some "integer"⟩] := .some (.lastTyped rfl rfl)
  have one : Derives (.parts false) [.bare .number "1"] [.literal .number "1"] :=
    .operand (.number rfl .noSuffixes) .noParts
  have n : Derives .argument [.bare .identifier "n"] [.identifier "n"] :=
    .onePart (.expression (by simp)
      (.operand (.name (.named (.identifier rfl) .notCalled)) .noParts))
  have call : Derives .operand [.bare .keyword "await", .bare .identifier "g",
      .bare .leftParen "(", .bare .identifier "n", .bare .rightParen ")"]
      [.call [.identifier "g"] true [.identifier "n"]] :=
    .awaitCall (word "await") (.named (.identifier rfl)
      (.called rfl (.lastArgument blank n blank closer) .noSuffixes))
  have value := Derives.expression (by simp) (.operand call (.operator plus one))
  have body := Derives.statements (.returnValue (word "return") value) .noStatements
  have line : (Token.bare .endOfLine "").kind = .endOfLine := rfl
  have name : (Token.bare .identifier "f").kind = .identifier := rfl
  have function := Derives.function (word "function") name (word "takes") param (word "returns")
    (.nothing (word "nothing")) line body (.inl (word "end"))
  have program := parse_of_derives 0 (.statements (.functionStatement function) .noStatements)
    (show Token.noMore.kind = .endOfFile from rfl)
  simpa [Node.waits_eq, Node.isWait, Node.opensFrame, Node.children, Token.bare, Token.word]
    using program

end MapScript
