import MapScript.Proofs.Acceptance.Expressions

/-!
# The parser accepts statements

A statement is taken before any token that ends it, and the statements of a block are taken up to
the word that closes the block. No word closes a block and begins a statement.
-/
namespace MapScript

/-- The words that begin a statement of the grammar. -/
def openingWords : List String :=
  ["globals", "function", "local", "const", "constant", "set", "return", "if", "call", "loop",
   "exitwhen", "for", "struct", "expect", "debug"]

/-- The words at which a block or a branch ends. -/
def closingWords : List String :=
  ["end", "endglobals", "endfunction", "else", "elseif", "endif", "endloop", "endfor", "endstruct"]

theorem sameWord_opening_closing :
    ∀ opening ∈ openingWords, ∀ closing ∈ closingWords, sameWord opening closing = false := by
  decide

def Token.Opens (t : Token) : Prop := t.kind = .keyword ∧ t.word ∈ openingWords

/-- A token that ends a statement without a word of its own. -/
structure Token.Ends (t : Token) : Prop where
  expression : t.endsExpression = true
  notArray : t.isKeyword "array" = false

theorem Token.Ends.kind_ne {t : Token} (h : t.Ends) :
    t.kind ≠ .identifier ∧ t.kind ≠ .operator := by
  have ends := h.expression
  constructor <;>
  · intro hk
    simp [Token.endsExpression, hk] at ends

theorem endsBefore_of_ends {after : List Token} (h : (front after).Ends) (stops : List Stop) :
    EndsBefore stops after := by
  simp [EndsBefore, h.expression]

theorem endsBefore_word {t : Token} {word : String} {stops : List Stop} {after : List Token}
    (h : t.IsWord word) (hw : ExpressionWord.ofWord? word = none) :
    EndsBefore stops (t :: after) := by
  simp [EndsBefore, Token.endsExpression, h.1, h.2, hw]

theorem Token.ends_of_line {t : Token} (h : t.kind = .endOfLine) : t.Ends :=
  ⟨by simp [Token.endsExpression, h], by simp [Token.isKeyword, Token.isA, h]⟩

theorem Token.ends_of_end {t : Token} (h : t.kind = .endOfFile) : t.Ends :=
  ⟨by simp [Token.endsExpression, h], by simp [Token.isKeyword, Token.isA, h]⟩

theorem Token.ends_of_word {t : Token} (hk : t.kind = .keyword)
    (hw : t.word ∈ openingWords ++ closingWords) : t.Ends := by
  have all : ∀ word ∈ openingWords ++ closingWords,
      ExpressionWord.ofWord? word = none ∧ sameWord word "array" = false := by decide
  obtain ⟨he, ha⟩ := all _ hw
  exact ⟨by simp [Token.endsExpression, hk, he], by simp [Token.isKeyword, Token.isA, ha]⟩

theorem Token.Opens.ends {t : Token} (h : t.Opens) : t.Ends :=
  Token.ends_of_word h.1 (List.mem_append_left _ h.2)

theorem Token.IsWord.opens {t : Token} {word : String} (h : t.IsWord word)
    (hw : word ∈ openingWords) : t.Opens :=
  ⟨h.1, by rwa [h.2]⟩

/-- The stops of a block, or of the program. -/
def BlockStops (stops : List Stop) : Prop :=
  ∀ stop ∈ stops, stop = .endOfFile ∨ ∃ word ∈ closingWords, stop = .keyword word

theorem BlockStops.find?_eq_none {stops : List Stop} (hs : BlockStops stops) {t : Token}
    (ht : t.Opens ∨ t.kind = .identifier ∨ t.kind = .endOfLine) :
    stops.find? (·.accepts t) = none := by
  rw [List.find?_eq_none]
  intro stop hm
  rcases hs stop hm with rfl | ⟨word, hw, rfl⟩
  · rcases ht with ht | ht | ht
    · simp [Stop.accepts, Stop.endOfFile, ht.1]
    · simp [Stop.accepts, Stop.endOfFile, ht]
    · simp [Stop.accepts, Stop.endOfFile, ht]
  · rcases ht with ht | ht | ht
    · simp [Stop.accepts, Stop.keyword, sameWord_opening_closing _ ht.2 _ hw]
    · simp [Stop.accepts, Stop.keyword, ht]
    · simp [Stop.accepts, Stop.keyword, ht]

/-- The stops of a block that `end` closes, and a word of its own. -/
theorem Token.Closes.find? {c : Token} {word : String} (h : c.Closes word) :
    ∃ stop, [Stop.plainEnd, Stop.keyword word].find? (·.accepts c) = some stop := by
  rw [← Option.isSome_iff_exists, List.find?_isSome]
  rcases h with h | h
  · refine ⟨Stop.plainEnd, List.mem_cons_self, ?_⟩
    rw [h.accepts]
    rfl
  · refine ⟨Stop.keyword word, List.mem_cons_of_mem _ List.mem_cons_self, ?_⟩
    simp [h.accepts, Stop.keyword, sameWord]

theorem Token.Closes.kind {c : Token} {word : String} (h : c.Closes word) : c.kind = .keyword := by
  rcases h with h | h <;> exact h.1

theorem Token.Closes.ends {c : Token} {word : String} (h : c.Closes word)
    (hw : word ∈ closingWords) : c.Ends := by
  refine Token.ends_of_word h.kind (List.mem_append_right _ ?_)
  rcases h with h | h
  · rw [h.2]
    decide
  · rwa [h.2]

theorem Token.isKeyword_eq_false {t : Token} (hk : t.kind ≠ .keyword) (word : String) :
    t.isKeyword word = false := by
  simp [Token.isKeyword, Token.isA, hk]

theorem Token.IsWord.isKeyword_self {t : Token} {word : String} (h : t.IsWord word) :
    t.isKeyword word = true := by
  rw [Token.isKeyword, h.isA]
  simp [sameWord]

theorem TypedName.Written.front_identifier {xs : List Token} {typed : TypedName}
    (hx : typed.Written xs) (ht : typed.type.isSome) (after : List Token) :
    (front (xs ++ after)).kind = .identifier := by
  cases hx with
  | plain => cases ht
  | array => cases ht
  | typed hk => exact hk
  | typedArray hk => exact hk

theorem Token.isPlainOperator_of_assignment {t : Token} (hk : t.kind = .operator)
    (h : t.word ∈ assignmentOperators) : t.IsPlainOperator := by
  have all : ∀ op ∈ assignmentOperators, op ∉ ["[", "]", ",", ".", "->", "await"] := by decide
  exact .inl ⟨hk, all _ h⟩

theorem Node.not_isAssignment_ofChain (name : String) (chain : List Node) :
    ¬ (Node.ofChain name chain).IsAssignment := by
  rintro ⟨op, -, h⟩
  cases chain <;> cases h

theorem Params.front_identifier {ts : List Token} {ps : List Param} (h : Params ts ps) :
    ∃ t rest, ts = t :: rest ∧ t.kind = .identifier := by
  cases h with
  | last hn => exact ⟨_, _, rfl, hn⟩
  | lastTyped ht => exact ⟨_, _, rfl, ht⟩
  | more hn => exact ⟨_, _, rfl, hn⟩
  | moreTyped ht => exact ⟨_, _, rfl, ht⟩

theorem TypedName.Written.front_not_function {xs : List Token} {typed : TypedName}
    (hx : typed.Written xs) (after : List Token) :
    (front (xs ++ after)).isKeyword "function" = false := by
  cases hx with
  | plain hn => exact Token.isKeyword_eq_false (by simp [hn]) _
  | typed ht => exact Token.isKeyword_eq_false (by simp [ht]) _
  | typedArray ht => exact Token.isKeyword_eq_false (by simp [ht]) _
  | array ha =>
      rw [List.cons_append, front_cons, Token.isKeyword, ha.isA]
      decide

theorem splitAssignment?_cons {n : Node} {ns : List Node} (h : ¬ n.IsAssignment) :
    splitAssignment? (n :: ns) =
      (splitAssignment? ns).map fun (target, op, value) => (n :: target, op, value) := by
  have hn : n.symbol?.filter (· ∈ assignmentOperators) = none := by
    rw [Option.filter_eq_none_iff]
    intro op hs hop
    cases n <;> cases hs
    exact h ⟨op, by simpa using hop, rfl⟩
  rw [splitAssignment?, hn]

theorem splitAssignment?_eq_none {ns : List Node} (h : ∀ n ∈ ns, ¬ n.IsAssignment) :
    splitAssignment? ns = none := by
  induction ns with
  | nil => rfl
  | cons n ns ih =>
      rw [splitAssignment?_cons (h n List.mem_cons_self),
        ih fun m hm => h m (List.mem_cons_of_mem n hm)]
      rfl

theorem splitAssignment?_append {target : List Node} {op : String}
    (hop : op ∈ assignmentOperators) (h : ∀ n ∈ target, ¬ n.IsAssignment) (value : List Node) :
    splitAssignment? (target ++ .operator op :: value) = some (target, op, value) := by
  induction target with
  | nil =>
      have ho : (Node.operator op).symbol?.filter (· ∈ assignmentOperators) = some op :=
        Option.filter_some_pos (by simpa using hop)
      rw [List.nil_append, splitAssignment?, ho]
  | cons n target ih =>
      rw [List.cons_append, splitAssignment?_cons (h n List.mem_cons_self),
        ih fun m hm => h m (List.mem_cons_of_mem n hm)]
      rfl

namespace Parser
variable {ts us xs after : List Token} {t : Token} {stops : List Stop} {ns ms : List Node}
variable {scope : Scope}

theorem takes_noStatements {stop : Stop} (h : stops.find? (·.accepts (front after)) = some stop)
    (reading : Reading) :
    Takes (repeated (statementPass Place.read scope stops) reading) [] after
      (reading.1, some stop) := by
  refine Takes.done (Takes.get fun s hs hr => ?_)
  have hc : s.current = front after := by rw [s.current_eq, hr]; rfl
  rw [if_neg (by simp [hs.going]), hc, h]
  exact .pure _

theorem takes_blankLine {r reading : Reading} (hs : BlockStops stops) (ht : t.kind = .endOfLine)
    (hk : Takes (repeated (statementPass Place.read scope stops) reading) ts after r) :
    Takes (repeated (statementPass Place.read scope stops) reading) (t :: ts) after r := by
  have again : Takes (statementPass Place.read scope stops reading) [t] (ts ++ after)
      (.again reading) := by
    unfold statementPass
    refine Takes.get fun s hq hr => ?_
    have hc : s.current = t := by rw [s.current_eq, hr]; rfl
    rw [if_neg (by simp [hq.going]), hc, hs.find?_eq_none (.inr (.inr ht))]
    simp only [ht]
    exact Takes.advance (by simp [ht]) (.pure _)
  exact Takes.again again (List.cons_ne_nil t []) hk

theorem takes_statements {acc : List Node} {r : Reading} (hs : BlockStops stops)
    (ht : t.Opens ∨ t.kind = .identifier)
    (h : Takes (statement? Place.read scope) (t :: xs) (ts ++ after) (some ns))
    (hk : Takes (repeated (statementPass Place.read scope stops) (acc ++ ns, none)) ts after r) :
    Takes (repeated (statementPass Place.read scope stops) (acc, none)) (t :: xs ++ ts) after
      r := by
  have again : Takes (statementPass Place.read scope stops (acc, none)) (t :: xs) (ts ++ after)
      (.again (acc ++ ns, none)) := by
    unfold statementPass
    refine Takes.get fun s hq hr => ?_
    have hc : s.current = t := by rw [s.current_eq, hr]; rfl
    rw [if_neg (by simp [hq.going]), hc, hs.find?_eq_none (by tauto)]
    rcases ht with ht | ht
    · simp only [ht.1]
      exact Takes.andThen h (.pure _)
    · simp only [ht]
      exact Takes.andThen h (.pure _)
  exact Takes.again again (List.cons_ne_nil t xs) hk

/-- The tokens are read as one statement. -/
structure ReadsAsStatement (scope : Scope) (ts : List Token) (ns : List Node) : Prop where
  begins : (front ts).Opens ∨ (front ts).kind = .identifier
  takes {after : List Token} : (front after).Ends →
    Takes (statement? Place.read scope) ts after (some ns)

theorem ReadsAsStatement.ofWord {word : String} (ht : t.IsWord word) (hw : word ∈ openingWords)
    (h : ∀ {after}, (front after).Ends →
      Takes (statement? Place.read scope) (t :: ts) after (some ns)) :
    (front (t :: ts)).Opens ∧ ReadsAsStatement scope (t :: ts) ns :=
  ⟨ht.opens hw, .inl (ht.opens hw), h⟩

/-- No name stands first. -/
def Nameless (ts : List Token) : Prop := ∀ t ∈ ts.head?, t.kind ≠ .identifier

/-- The tokens are read as the statements of a block, whatever statements stand before them. -/
structure ReadsAsBlock (scope : Scope) (ts : List Token) (ns : List Node) : Prop where
  ends {after : List Token} : Nameless ts → (front after).Ends → (front (ts ++ after)).Ends
  takes {stops : List Stop} {stop : Stop} {acc : List Node} {after : List Token} :
    BlockStops stops → stops.find? (·.accepts (front after)) = some stop → (front after).Ends →
    Takes (repeated (statementPass Place.read scope stops) (acc, none)) ts after
      (acc ++ ns, some stop)

namespace ReadsAsBlock

theorem nil : ReadsAsBlock scope [] [] where
  ends _ h := h
  takes {stops stop acc after} _ hf _ := by
    rw [List.append_nil]
    exact takes_noStatements hf _

theorem blankLine (ht : t.kind = .endOfLine) (h : ReadsAsBlock scope ts ns) :
    ReadsAsBlock scope (t :: ts) ns where
  ends _ _ := Token.ends_of_line ht
  takes hs hf he := takes_blankLine hs ht (h.takes hs hf he)

theorem cons (hb : (front xs).Opens ∨ (front xs).kind = .identifier)
    (hx : ∀ {after}, (front after).Ends →
      Takes (statement? Place.read scope) xs (ts ++ after) (some ms))
    (h : ReadsAsBlock scope ts ns) : ReadsAsBlock scope (xs ++ ts) (ms ++ ns) := by
  cases xs with
  | nil =>
      rcases hb with ⟨hk, -⟩ | hk
      · cases hk
      · cases hk
  | cons t xs =>
      refine ⟨fun hl _ => ?_, fun hs hf he => ?_⟩
      · rcases hb with ht | ht
        · exact ht.ends
        · exact absurd ht (hl t rfl)
      · rw [← List.append_assoc]
        exact takes_statements hs hb (hx he) (h.takes hs hf he)

/-- A name after a statement would go on with it. -/
theorem statements (hx : ReadsAsStatement scope xs ms) (h : ReadsAsBlock scope ts ns)
    (hn : Nameless ts) : ReadsAsBlock scope (xs ++ ts) (ms ++ ns) :=
  cons hx.begins (fun he => hx.takes (h.ends hn he)) h

/-- The statements of a block, up to the word that closes it. -/
theorem read {stop : Stop} {c : Token} (h : ReadsAsBlock scope ts ns) (hs : BlockStops stops)
    (hf : stops.find? (·.accepts c) = some stop) (hc : c.Ends) :
    Takes (Place.read (.statements scope stops)) ts (c :: after) (ns, some stop) :=
  Takes.read (h.takes hs hf hc)

theorem blockBody {word : String} {opener : Span} {c : Token} (h : ReadsAsBlock scope ts ns)
    (hw : word ∈ closingWords) (hc : c.Closes word) :
    Takes (Parser.blockBody Place.read opener scope [Stop.plainEnd, Stop.keyword word]) (ts ++ [c])
      after ns := by
  have stops : BlockStops [Stop.plainEnd, Stop.keyword word] := by
    intro stop hs
    simp only [List.mem_cons, List.not_mem_nil, or_false] at hs
    rcases hs with rfl | rfl
    · exact .inr ⟨"end", by decide, rfl⟩
    · exact .inr ⟨word, hw, rfl⟩
  obtain ⟨stop, hf⟩ := hc.find?
  exact Takes.blockBody (h.read stops hf (hc.ends hw)) (by simp [hc.kind])

theorem openBlock {word : String} {c : Token} (h : ReadsAsBlock scope ts ns)
    (ht : t.kind = .keyword) (hw : word ∈ closingWords) (hc : c.Closes word) :
    Takes (Parser.openBlock Place.read scope [Stop.plainEnd, Stop.keyword word])
      (t :: (ts ++ [c])) after ns :=
  Takes.current (Takes.advance (by simp [ht]) (h.blockBody hw hc))

end ReadsAsBlock

/-- A statement that begins with a keyword. -/
theorem takes_keyword {spelling : String} (word : StatementWord) (ht : t.IsWord spelling)
    (hw : StatementWord.ofWord? spelling = some word)
    (h : Takes (wordStatement Place.read scope word) (t :: ts) after ns) :
    Takes (statement? Place.read scope) (t :: ts) after (some ns) := by
  refine Takes.current ?_
  simp only [List.cons_append, front_cons, ht.1]
  refine Takes.note ?_
  rw [ht.2, hw]
  exact Takes.map h

/-- No name and no `array` follows. -/
def Unnamed (after : List Token) : Prop :=
  (front after).kind ≠ .identifier ∧ (front after).isKeyword "array" = false

/-- What stands after the type. -/
theorem takes_plainName {name : Token} {type : Option String} (h : name.kind = .identifier) :
    Takes (do
      let isArray ← eatKeyword "array"
      let name ← Parser.name
      return (⟨type, name, isArray⟩ : TypedName)) [name] after ⟨type, name.word, false⟩ := by
  refine Takes.eat_not ?_ (Takes.name h (.pure _))
  simp [Token.isKeyword, Token.isA, h]

theorem takes_arrayName {a name : Token} {type : Option String} (ha : a.IsWord "array")
    (h : name.kind = .identifier) :
    Takes (do
      let isArray ← eatKeyword "array"
      let name ← Parser.name
      return (⟨type, name, isArray⟩ : TypedName)) [a, name] after ⟨type, name.word, true⟩ := by
  refine Takes.eat ?_ (by simp [ha.1]) (Takes.name h (.pure _))
  rw [Token.isKeyword, ha.isA]
  rfl

theorem takes_typedName {typed : TypedName} (h : typed.Written xs) (hu : Unnamed after) :
    Takes typedName xs after typed := by
  unfold typedName
  refine Takes.get fun s hs hr => ?_
  have hc : s.current = front (xs ++ after) := by rw [s.current_eq, hr]
  have hb : s.beforeName = ((front (xs ++ after).tail).kind == .identifier ||
    (front (xs ++ after).tail).isKeyword "array") := by rw [ParserState.beforeName, s.peek_one, hr]
  dsimp only
  rw [hc, hb, hs.types]
  cases h with
  | @plain name hn =>
      have flag : ((front ([name] ++ after)).kind == .identifier &&
          ((front after).kind == .identifier || (front after).isKeyword "array")) = false := by
        simp [hu.1, hu.2]
      rw [List.singleton_append, List.tail_cons, ← List.singleton_append, flag]
      exact Takes.no (takes_plainName hn)
  | @array a name ha hn =>
      have flag : (a.kind == .identifier) = false := by simp [ha.1]
      rw [List.cons_append, front_cons, flag]
      exact Takes.no (takes_arrayName ha hn)
  | @typed type name ht hn =>
      have flag : (type.kind == .identifier && (name.kind == .identifier ||
          name.isKeyword "array")) = true := by simp [ht, hn]
      simp only [List.cons_append, front_cons, List.tail_cons, flag]
      rw [if_pos trivial]
      exact Takes.advance (by simp [ht]) (takes_plainName hn)
  | @typedArray type a name ht ha hn =>
      have array : a.isKeyword "array" = true := by
        rw [Token.isKeyword, ha.isA]
        rfl
      have flag : (type.kind == .identifier && (a.kind == .identifier ||
          a.isKeyword "array")) = true := by simp [ht, array]
      simp only [List.cons_append, front_cons, List.tail_cons, flag]
      rw [if_pos trivial]
      exact Takes.advance (by simp [ht]) (takes_arrayName ha hn)

theorem isOperator_equals (h : t.IsSymbol "=") : t.isOperator "=" = true := by
  rw [Token.isOperator, h.isA]
  rfl

/-- A parameter, up to what follows it. -/
theorem takes_param {typed : TypedName} {acc : List Param} {result : Pass (List Param)}
    (h : typed.Written (t :: xs)) (ht : t.kind = .identifier) (hu : Unnamed (us ++ after))
    (hk : Takes (do
      if ← eatOperator "," then return .again (acc ++ [⟨typed.name, typed.type⟩])
      else return .done (acc ++ [⟨typed.name, typed.type⟩])) us after result) :
    Takes (paramPass acc) (t :: xs ++ us) after result := by
  refine Takes.isAborted (Takes.no (Takes.current ?_))
  rw [List.cons_append, List.cons_append, front_cons, if_pos ht]
  exact Takes.bind (takes_typedName h hu) hk

theorem takes_lastParam {typed : TypedName} {acc : List Param}
    (h : typed.Written (t :: xs)) (ht : t.kind = .identifier) (hu : Unnamed after)
    (hc : (front after).isOperator "," = false) :
    Takes (repeated paramPass acc) (t :: xs) after (acc ++ [⟨typed.name, typed.type⟩]) := by
  have done : Takes (paramPass acc) (t :: xs ++ []) after (.done _) :=
    takes_param h ht hu (Takes.eat_not hc (.pure _))
  rw [List.append_nil] at done
  exact Takes.done done

theorem takes_moreParams {typed : TypedName} {acc ps : List Param} {comma : Token}
    (h : typed.Written (t :: xs)) (ht : t.kind = .identifier) (hc : comma.IsSymbol ",")
    (hk : Takes (repeated paramPass (acc ++ [⟨typed.name, typed.type⟩])) ts after ps) :
    Takes (repeated paramPass acc) (t :: xs ++ comma :: ts) after ps := by
  have unnamed : Unnamed (comma :: (ts ++ after)) :=
    ⟨by simp [hc.1], by simp [Token.isKeyword, Token.isA, hc.1]⟩
  have again : Takes (paramPass acc) (t :: xs ++ [comma]) (ts ++ after) (.again _) :=
    takes_param h ht unnamed
      (Takes.eat (isOperator_comma hc) (by simp [hc.1]) (Takes.yes (.pure _)))
  have shape : t :: xs ++ comma :: ts = t :: xs ++ [comma] ++ ts := by simp
  rw [shape]
  exact Takes.again again (by simp) hk

theorem takes_params {ps acc : List Param} (h : Params ts ps) (hu : Unnamed after)
    (hc : (front after).isOperator "," = false) :
    Takes (repeated paramPass acc) ts after (acc ++ ps) := by
  induction h generalizing acc with
  | last hn => exact takes_lastParam (.plain hn) hn hu hc
  | lastTyped ht hn => exact takes_lastParam (.typed ht hn) ht hu hc
  | @more name comma ts ps hn hm _ ih =>
      rw [List.append_cons]
      exact takes_moreParams (.plain hn) hn hm ih
  | @moreTyped type name comma ts ps ht hn hm _ ih =>
      rw [List.append_cons]
      exact takes_moreParams (.typed ht hn) ht hm ih

theorem takes_paramList {ps : List Param} {takes returns : Token} (hk : takes.IsWord "takes")
    (h : ParamList xs ps) (hr : returns.IsWord "returns") :
    Takes paramList (takes :: xs) (returns :: after) ps := by
  refine Takes.eat_not (by simp [hk.1]) (Takes.no ?_)
  refine Takes.eat (hk.isKeyword_self) (by simp [hk.1]) (Takes.yes ?_)
  cases h with
  | nothing hn =>
      exact Takes.eat (hn.isKeyword_self) (by simp [hn.1]) (Takes.yes (.pure _))
  | some hp =>
      obtain ⟨t, rest, rfl, ht⟩ := hp.front_identifier
      refine Takes.eat_not (Token.isKeyword_eq_false (by simp [ht]) _) (Takes.no ?_)
      refine takes_params hp ⟨by simp [hr.1], ?_⟩ ?_
      · rw [front_cons, Token.isKeyword, hr.isA]
        decide
      · exact Token.isOperator_eq_false (by simp [hr.1]) ","

theorem takes_returnType {result : Option String} {returns type : Token}
    (hr : returns.IsWord "returns") (h : ReturnType type result) :
    Takes returnType [returns, type] after result := by
  refine Takes.eat (hr.isKeyword_self) (by simp [hr.1]) (Takes.yes (Takes.get fun s hs hrest => ?_))
  have hc : s.current = type := by rw [s.current_eq, hrest]; rfl
  rw [hc, hs.types]
  cases h with
  | nothing hn =>
      rw [if_neg (by simp [hn.1])]
      exact Takes.eatOr (hn.isKeyword_self) (by simp [hn.1]) (.pure _)
  | type ht =>
      rw [if_pos ht]
      exact Takes.advance (by simp [ht]) (.pure _)

theorem takes_skipToLineEnd (h : (front after).kind = .endOfLine) :
    Takes skipToLineEnd [] after () := by
  refine Takes.done (Takes.get fun s hs hr => ?_)
  have hc : s.current = front after := by rw [s.current_eq, hr]; rfl
  rw [if_pos (by simp [hc, h])]
  exact .pure _

theorem takes_function {name takes returns type line c : Token} {ps : List Param}
    {result : Option String} (ht : t.IsWord "function") (hn : name.kind = .identifier)
    (hk : takes.IsWord "takes") (hp : ParamList xs ps) (hr : returns.IsWord "returns")
    (hresult : ReturnType type result) (hl : line.kind = .endOfLine)
    (h : ReadsAsBlock .block ts ns) (hc : c.Closes "endfunction") :
    Takes (function Place.read)
      (t :: name :: takes :: (xs ++ returns :: type :: line :: (ts ++ [c]))) after
      (.function name.word ps result (ns.any Node.waits) ns) := by
  refine Takes.current (Takes.advance (by simp [ht.1]) (Takes.name hn ?_))
  rw [← List.cons_append]
  refine Takes.bind (takes_paramList hk hp hr) ?_
  have shape : returns :: type :: line :: (ts ++ [c]) =
      [returns, type] ++ ([] ++ (line :: ts ++ [c])) := by simp
  rw [shape]
  refine Takes.bind (takes_returnType hr hresult) (Takes.bind (takes_skipToLineEnd hl) ?_)
  refine Takes.map (Takes.framed (blockBody_collects Place.read_collects _ _ _) ?_)
  exact (h.blankLine hl).blockBody (by decide) hc

theorem takes_noInitializer (h : (front after).isOperator "=" = false) :
    Takes (initializer Place.read) [] after [] :=
  Takes.eat_not h (Takes.no (.pure _))

theorem takes_initializer {equals : Token} (he : equals.IsSymbol "=") (h : ReadsAs ts ns)
    (ha : EndsBefore [] after) : Takes (initializer Place.read) (equals :: ts) after ns :=
  Takes.eat (isOperator_equals he) (by simp [he.1])
    (Takes.yes (h.expression innerStops_nil ha))

theorem takes_variableDecl {typed : TypedName} (hx : typed.Written xs) (hu : Unnamed (ts ++ after))
    (h : Takes (initializer Place.read) ts after ns) :
    Takes (variableDecl Place.read) (xs ++ ts) after
      (.varDecl typed.name typed.type true typed.isArray ns) :=
  Takes.bind (takes_typedName hx hu) (Takes.map h)

theorem unnamed_equals {equals : Token} (he : equals.IsSymbol "=") : Unnamed (equals :: after) :=
  ⟨by simp [he.1], Token.isKeyword_eq_false (by simp [he.1]) _⟩

theorem takes_constant {equals : Token} {typed : TypedName} (ht : t.kind = .keyword)
    (hx : typed.Written xs) (he : equals.IsSymbol "=") (h : ReadsAs ts ns)
    (ha : EndsBefore [] after) :
    Takes (constant Place.read) (t :: (xs ++ equals :: ts)) after
      (.varDecl typed.name typed.type false typed.isArray ns) := by
  refine Takes.advance (by simp [ht]) (Takes.current ?_)
  rw [List.append_assoc, hx.front_not_function]
  refine Takes.no (Takes.bind (takes_typedName hx (unnamed_equals he)) (Takes.current ?_))
  rw [List.cons_append, front_cons, isOperator_equals he]
  exact Takes.no (Takes.map (takes_initializer he h ha))

theorem takes_afterKeyword (ht : t.kind = .keyword) (h : ReadsAs ts ns)
    (ha : EndsBefore [] after) : Takes (afterKeyword Place.read) (t :: ts) after ns :=
  Takes.advance (by simp [ht]) (h.expression innerStops_nil ha)

theorem takes_keywordAlone (ht : t.kind = .keyword) (ha : EndsBefore [] after) :
    Takes (afterKeyword Place.read) [t] after [] :=
  Takes.advance (by simp [ht]) (Takes.expression (Takes.read (takes_noParts ha ([], none))))

theorem takes_expressionStatement (h : ReadsAs ts ns) (ha : EndsBefore [] after) :
    Takes (expressionStatement Place.read scope) ts after [.ofStatementParts scope ns] := by
  refine Takes.andThen (h.expression innerStops_nil ha) ?_
  rw [if_neg (by simpa using h.nonempty)]
  exact .pure _

theorem takes_assignment {target value : List Node} {op : String} (ht : t.kind = .keyword)
    (h : ReadsAs ts ns) (hs : splitAssignment? ns = some (target, op, value))
    (ha : EndsBefore [] after) :
    Takes (assignment Place.read) (t :: ts) after [.assign target op value] := by
  refine Takes.advance (by simp [ht]) (Takes.andThen (h.expression innerStops_nil ha) ?_)
  rw [hs]
  exact .pure _

/-- A keyword with one expression, which is all that the statement consists of. -/
theorem ReadsAsStatement.afterKeyword {spelling : String} (word : StatementWord)
    {build : List Node → Node} (ht : t.IsWord spelling) (hs : spelling ∈ openingWords)
    (hw : StatementWord.ofWord? spelling = some word)
    (hb : wordStatement Place.read scope word = do
      return [build (← Parser.afterKeyword Place.read)])
    (h : ReadsAs ts ns) :
    (front (t :: ts)).Opens ∧ ReadsAsStatement scope (t :: ts) [build ns] := by
  refine ReadsAsStatement.ofWord ht hs fun ha => takes_keyword word ht hw ?_
  rw [hb]
  exact Takes.map (takes_afterKeyword ht.1 h (endsBefore_of_ends ha []))

theorem readsAsStatement_call (ht : t.IsWord "call") (h : ReadsAs ts ns) :
    (front (t :: ts)).Opens ∧
      ReadsAsStatement scope (t :: ts) [.ofStatementParts scope ns] := by
  refine ReadsAsStatement.ofWord ht (by decide) fun ha => takes_keyword .call ht (by decide) ?_
  exact Takes.advance (by simp [ht.1]) (takes_expressionStatement h (endsBefore_of_ends ha []))

theorem blockStops_doEnd : BlockStops Stop.doEnd := by
  intro stop hs
  rw [Stop.doEnd, List.mem_singleton] at hs
  exact .inr ⟨"end", by decide, hs⟩

theorem blockStops_branchEnd : BlockStops Stop.branchEnd := by
  intro stop hs
  simp only [Stop.branchEnd, List.mem_cons, List.not_mem_nil, or_false] at hs
  rcases hs with rfl | rfl | rfl | rfl
  · exact .inr ⟨"else", by decide, rfl⟩
  · exact .inr ⟨"elseif", by decide, rfl⟩
  · exact .inr ⟨"end", by decide, rfl⟩
  · exact .inr ⟨"endif", by decide, rfl⟩

theorem find?_accepts {kind : TokenKind} {word : String} (h : t.Is kind word) (stops : List Stop) :
    stops.find? (·.accepts t) =
      stops.find? fun stop => kind == stop.kind && stop.word.all (sameWord word ·) := by
  congr 1
  funext stop
  exact h.accepts stop

section
variable {thn c d : Token} {test : List Node} {opener : Span}

/-- A condition with its branch, up to what follows the word `c` at the end of that. -/
theorem takes_condition {stop : Stop} {rest : Option (List Node)} (h : ReadsAs ts test)
    (ht : thn.IsWord "then") (hb : ReadsAsBlock .block us ns)
    (hs : Stop.branchEnd.find? (·.accepts c) = some stop) (hc : c.Ends) (hk : c.kind = .keyword)
    (hr : Takes (otherwise Place.read (some (stop, c.span))) xs after rest) :
    Takes (Place.read (.condition opener)) (ts ++ thn :: (us ++ c :: xs)) after
      ([.ifStmt test ns rest], none) := by
  have shape : us ++ c :: xs = us ++ [c] ++ xs := by simp
  rw [shape]
  refine Takes.read (Takes.bind (h.expression innerStops_nil ?_) ?_)
  · exact endsBefore_word ht (by decide)
  · refine Takes.eatOr ht.isKeyword_self (by simp [ht.1]) ?_
    refine Takes.bind (Takes.block ?_ (by simp [hk])) (Takes.map hr)
    exact hb.read blockStops_branchEnd hs hc

theorem takes_conditionAlone (h : ReadsAs ts test) (ht : thn.IsWord "then")
    (hb : ReadsAsBlock .block us ns) (hc : c.Closes "endif") :
    Takes (Place.read (.condition opener)) (ts ++ thn :: (us ++ [c])) after
      ([.ifStmt test ns none], none) := by
  have ends := hc.ends (by decide)
  rcases hc with hc | hc
  · exact takes_condition h ht hb ((find?_accepts hc _).trans rfl) ends hc.1 (.pure none)
  · exact takes_condition h ht hb ((find?_accepts hc _).trans rfl) ends hc.1 (.pure none)

theorem takes_conditionElse (h : ReadsAs ts test) (ht : thn.IsWord "then")
    (hb : ReadsAsBlock .block us ns) (hd : d.IsWord "else") (ho : ReadsAsBlock .block xs ms)
    (hc : c.Closes "endif") :
    Takes (Place.read (.condition opener)) (ts ++ thn :: (us ++ d :: (xs ++ [c]))) after
      ([.ifStmt test ns (some ms)], none) := by
  have ends : d.Ends := Token.ends_of_word hd.1 (by rw [hd.2]; decide)
  refine takes_condition h ht hb ((find?_accepts hd _).trans rfl) ends hd.1 ?_
  exact Takes.map (ho.blockBody (by decide) hc)

theorem takes_conditionElseIf (h : ReadsAs ts test) (ht : thn.IsWord "then")
    (hb : ReadsAsBlock .block us ns) (hd : d.IsWord "elseif")
    (ho : ∀ opener, Takes (Place.read (.condition opener)) xs after (ms, none)) :
    Takes (Place.read (.condition opener)) (ts ++ thn :: (us ++ d :: xs)) after
      ([.ifStmt test ns (some ms)], none) := by
  have ends : d.Ends := Token.ends_of_word hd.1 (by rw [hd.2]; decide)
  refine takes_condition h ht hb ((find?_accepts hd _).trans rfl) ends hd.1 ?_
  exact Takes.map (ho d.span)

theorem takes_if (ht : t.IsWord "if")
    (h : ∀ opener, Takes (Place.read (.condition opener)) ts after (ns, none)) :
    Takes (statement? Place.read scope) (t :: ts) after (some ns) :=
  takes_keyword .ifStmt ht (by decide)
    (Takes.current (Takes.advance (by simp [ht.1]) (Takes.map (h t.span))))

end

theorem takes_for {name equals upTo c : Token} {first last : List Node} (ht : t.IsWord "for")
    (hn : name.kind = .identifier) (he : equals.IsSymbol "=") (hf : ReadsAs ts first)
    (hu : upTo.IsWord "to") (hl : ReadsAs us last) (hx : Nameless xs)
    (hb : ReadsAsBlock .block xs ns) (hc : c.Closes "endfor") :
    Takes (statement? Place.read scope)
      (t :: name :: equals :: (ts ++ upTo :: (us ++ (xs ++ [c])))) after
      (some [.forStmt name.word first last ns]) := by
  refine takes_keyword .forStmt ht (by decide) (Takes.map (Takes.current ?_))
  refine Takes.advance (by simp [ht.1]) (Takes.name hn ?_)
  refine Takes.eat (isOperator_equals he) (by simp [he.1]) ?_
  refine Takes.bind (hf.expression innerStops_nil (endsBefore_word hu (by decide))) ?_
  refine Takes.eatOr hu.isKeyword_self (by simp [hu.1]) ?_
  have closed : (front ([c] ++ after)).Ends := hc.ends (by decide)
  have ends : EndsBefore [] (xs ++ [c] ++ after) := by
    rw [List.append_assoc]
    exact endsBefore_of_ends (hb.ends hx closed) []
  exact Takes.bind (hl.expression innerStops_nil ends) (Takes.map (hb.blockBody (by decide) hc))

theorem takes_struct {name line c : Token} (ht : t.IsWord "struct") (hn : name.kind = .identifier)
    (hl : line.kind = .endOfLine) (h : ReadsAsBlock .struct ts ns) (hc : c.Closes "endstruct") :
    Takes (statement? Place.read scope) (t :: name :: line :: (ts ++ [c])) after
      (some [.struct name.word ns]) := by
  refine takes_keyword .struct ht (by decide) (Takes.map (Takes.current ?_))
  refine Takes.advance (by simp [ht.1]) (Takes.name hn ?_)
  rw [← List.nil_append (line :: (ts ++ [c]))]
  refine Takes.bind (takes_skipToLineEnd hl) (Takes.map ?_)
  exact (h.blankLine hl).blockBody (by decide) hc

theorem takes_globals {c : Token} (ht : t.IsWord "globals") (h : ReadsAsBlock .globals ts ns)
    (hc : c.Closes "endglobals") :
    Takes (statement? Place.read scope) (t :: (ts ++ [c])) after (some [.globals ns]) :=
  takes_keyword .globals ht (by decide) (Takes.map (h.openBlock ht.1 (by decide) hc))

theorem takes_loop {c : Token} (ht : t.IsWord "loop") (h : ReadsAsBlock .block ts ns)
    (hc : c.Closes "endloop") :
    Takes (statement? Place.read scope) (t :: (ts ++ [c])) after (some [.ofLoopBody ns]) :=
  takes_keyword .loop ht (by decide) (Takes.map (h.openBlock ht.1 (by decide) hc))

/-- A name that is no type begins an expression. -/
theorem takes_nameStatement (ht : t.kind = .identifier) (hu : Unnamed (ts ++ after))
    (h : ReadsAs (t :: ts) ns) (ha : EndsBefore [] after) :
    Takes (statement? Place.read scope) (t :: ts) after (some [.ofStatementParts scope ns]) := by
  refine Takes.current ?_
  simp only [List.cons_append, front_cons, ht]
  refine Takes.map (Takes.get fun s hs hr => ?_)
  have instruction : s.atInstruction = false := by simp [ParserState.atInstruction, hs.asm]
  have before : s.beforeName = false := by
    rw [ParserState.beforeName, s.peek_one, hr]
    simp [hu.1, hu.2]
  rw [instruction, before]
  exact Takes.no (Takes.no (takes_expressionStatement h ha))

/-- A type begins a declaration. -/
theorem takes_typeStatement {typed : TypedName} (hx : typed.Written xs) (ht : typed.type.isSome)
    (hu : Unnamed (ts ++ after)) (h : Takes (initializer Place.read) ts after ns) :
    Takes (statement? Place.read scope) (xs ++ ts) after
      (some [.varDecl typed.name typed.type true typed.isArray ns]) := by
  obtain ⟨type, next, rest, rfl, hk, hn⟩ : ∃ type next rest, xs = type :: next :: rest ∧
      type.kind = .identifier ∧ (next.kind == .identifier || next.isKeyword "array") = true := by
    cases hx with
    | plain => cases ht
    | array => cases ht
    | typed hk hn => exact ⟨_, _, _, rfl, hk, by simp [hn]⟩
    | typedArray hk ha => exact ⟨_, _, _, rfl, hk, by simp [ha.isKeyword_self]⟩
  refine Takes.current ?_
  simp only [List.cons_append, front_cons, hk]
  refine Takes.map (Takes.get fun s hs hr => ?_)
  have instruction : s.atInstruction = false := by simp [ParserState.atInstruction, hs.asm]
  have before : s.beforeName = true := by
    rw [ParserState.beforeName, s.peek_one, hr]
    exact hn
  rw [instruction, before]
  exact Takes.no (Takes.yes (Takes.map (takes_variableDecl hx hu h)))

/-- Outside a block, a name alone declares a variable. -/
theorem ofStatementParts_identifier (hs : scope ≠ .block) (name : String) :
    Node.ofStatementParts scope [.identifier name] = .bareVariable name [] :=
  if_pos hs

/-- Outside a block, a name with a value declares a variable. -/
theorem ofStatementParts_assignment (hs : scope ≠ .block) (name : String) (value : List Node) :
    Node.ofStatementParts scope (.identifier name :: .operator "=" :: value) =
      .bareVariable name value :=
  if_pos ⟨rfl, hs⟩

/-- In a block, an assignment is one whatever its target is. -/
theorem ofStatementParts_assign {target value : List Node} {op : String}
    (hop : op ∈ assignmentOperators) (h : ∀ n ∈ target, ¬ n.IsAssignment) :
    Node.ofStatementParts .block (target ++ .operator op :: value) = .assign target op value := by
  rw [Node.ofStatementParts, splitAssignment?_append hop h value]
  dsimp only
  unfold Node.ofAssignment
  split
  · exact if_neg (by simp)
  · rfl

/-- In a block, an expression without an assignment that is neither a call nor a block stands for
itself. -/
theorem ofStatementParts_exprStmt (hn : ∀ n ∈ ns, ¬ n.IsAssignment)
    (hc : ∀ callee isAsync args, ns ≠ [.call callee isAsync args])
    (hd : ∀ isAsync body, ns ≠ [.doBlock isAsync body]) :
    Node.ofStatementParts .block ns = .exprStmt ns := by
  rw [Node.ofStatementParts, splitAssignment?_eq_none hn]
  dsimp only
  unfold Node.ofExpression
  split
  · exact if_neg (by simp)
  · exact absurd rfl (hc _ _ _)
  · exact absurd rfl (hd _ _)
  · rfl

end Parser

end MapScript
