import MapScript.Proofs.Spelling.Expressions

/-!
# Statements are spelled

The rules of statements, and then whole programs: a list of tokens that is parsed without errors
spells its tree, up to its end of file.
-/
namespace MapScript

/-- A type is spelled whether it is recorded or not. -/
theorem Spells.type {types : Bool} {t : Token} (h : t.kind = .identifier) :
    Spells types .phrase [t] (typeMentions (if types then some t.word else none)) := by
  cases types with
  | true => exact .name h
  | false => exact .unrecorded h rfl

namespace Parser
variable {o : ParseOptions} {x : Token}

-- The blocks of the longer rules are too deep for the usual limit on instances.
set_option synthInstance.maxSize 2000

theorem typedName_accounts : Accounts o x typedName fun typed ts _ =>
    Spells o.types .phrase ts (typeMentions typed.type ++ [.name typed.name]) := by
  have named (type : Option String) {y : Token} {pre : List Token}
      (h : Spells o.types .phrase pre (typeMentions type)) : Accounts o y (do
        let isArray ← eatKeyword "array"
        let name ← name
        return (⟨type, name, isArray⟩ : TypedName)) fun typed ts _ =>
          Spells o.types .phrase (pre ++ ts) (typeMentions typed.type ++ [.name typed.name]) := by
    refine accounts_eat (fun _ => kind_ne_of_isA (by decide)) (fun ha y => ?_) fun _ => ?_
    · have silent := Token.isSilent_of_isKeyword ha (by decide)
      refine accounts_name fun hn _ => accounts_pure ?_
      simpa using h.append (.after_silent silent (.name hn))
    · refine accounts_name fun hn _ => accounts_pure ?_
      simpa using h.append (.name hn)
  refine accounts_get fun s ho _ hx => ?_
  dsimp only
  split
  · rename_i typed
    have hk : x.kind = .identifier := by
      rw [Bool.and_eq_true, beq_iff_eq, hx] at typed
      exact typed.1
    rw [typed, Bool.true_and, ho, hx]
    exact accounts_advance (by rw [hk]; decide) fun y => named _ (.type hk)
  · rename_i untyped
    rw [if_neg (by simp [untyped])]
    exact named none .nil

theorem paramPass_accounts (list : List Param) {ts : List Token}
    (h : Spells o.types .phrase ts (list.flatMap Param.mentions)) :
    Accounts o x (paramPass list)
      (Pass.Keeps (fun list ts => Spells o.types .phrase ts (list.flatMap Param.mentions))
        (fun list ts _ => Spells o.types .phrase ts (list.flatMap Param.mentions)) ts) := by
  refine accounts_isAborted (accounts_current ?_)
  split
  · refine accounts_bind typedName_accounts fun typed us comma ht => ?_
    have all : Spells o.types .phrase (ts ++ us)
        ((list ++ [(⟨typed.name, typed.type⟩ : Param)]).flatMap Param.mentions) := by
      simpa [Param.mentions] using h.append ht
    refine accounts_ifOperator (fun hc _ => accounts_pure ?_) (accounts_pure ?_)
    · have silent := Token.isSilent_of_isOperator hc (by decide) (by decide) (by decide)
      simpa [Pass.Keeps] using all.before_silent silent
    · simpa [Pass.Keeps] using all
  · refine accounts_pure ?_
    simpa [Pass.Keeps] using h

theorem params_accounts : Accounts o x params fun list ts _ =>
    Spells o.types .phrase ts (list.flatMap Param.mentions) := by
  refine accounts_ifKeyword (fun hn _ => accounts_pure ?_) ?_
  · exact .silent (Token.isSilent_of_isKeyword hn (by decide))
  · exact accounts_repeated paramPass_ahead (fun list _ _ h => paramPass_accounts list h) .nil

theorem paramList_accounts : Accounts o x paramList fun list ts _ =>
    Spells o.types .phrase ts (list.flatMap Param.mentions) := by
  refine accounts_ifKind (by decide) (fun hl _ => ?_) fun _ => ?_
  · refine accounts_bind params_accounts fun list ts r hp => ?_
    refine accounts_eatOr (fun t ht => ?_) fun hr _ => accounts_pure ?_
    · rw [beq_iff_eq.mp ht]
      decide
    · have opens : x.fence? = some (.opens .round) := by rw [Token.fence?, hl]
      have closes : r.fence? = some (.closes .round) := by rw [Token.fence?, beq_iff_eq.mp hr]
      exact .bracketed opens hp closes
  · refine accounts_ifKeyword (fun ht _ => ?_) (accounts_pure .nil)
    exact Accounts.mono params_accounts fun list ts _ hp =>
      .after_silent (Token.isSilent_of_isKeyword ht (by decide)) hp

theorem returnType_accounts : Accounts o x returnType fun type ts _ =>
    Spells o.types .phrase ts (typeMentions type) := by
  refine accounts_ifKeyword (fun hr y => ?_) (accounts_pure .nil)
  have returns := Token.isSilent_of_isKeyword hr (by decide)
  refine accounts_get fun s ho _ hy => ?_
  rw [hy, ho]
  split
  · rename_i hk
    refine accounts_advance (by rw [hk]; decide) fun _ => accounts_pure ?_
    exact .after_silent returns (.type hk)
  · refine accounts_eatOr (fun _ => kind_ne_of_isA (by decide)) fun hn _ => accounts_pure ?_
    exact .after_silent returns (.silent (Token.isSilent_of_isKeyword hn (by decide)))

section
variable (nested : PlaceReader) [∀ place, Evolving (nested place)] [read : Accountable o nested]

theorem function_accounts (hx : x.fence? = some (.opens (.block .function))) :
    Accounts o x (function nested) (SpellsNode o) := by
  refine accounts_current (accounts_advance (Token.kind_ne_of_fence? hx) fun y => ?_)
  refine accounts_name fun hn _ => accounts_bind paramList_accounts fun params ps _ hp => ?_
  refine accounts_bind returnType_accounts fun type rs _ hr => accounts_skipToLineEnd ?_
  have closes : ∀ stop ∈ Stop.functionEnd, ∀ c, stop.accepts c → c.ClosesBlock .function :=
    fun _ hs _ hc => Token.closesBlock_of_accepts (by decide) hs hc
  refine accounts_framed (blockBody_accounts nested _ _ (by decide) closes) ?_
  rintro body isAsync _ _ ⟨us, c, rfl, hb, hc⟩
  refine accounts_pure ?_
  have inside := Spells.append (.name hn) (hp.append (hr.append hb))
  simpa [Node.mentions] using Spells.block hx inside hc

theorem initializer_accounts : Accounts o x (initializer nested) (SpellsNodes o) := by
  refine accounts_ifOperator (fun he _ => ?_) (accounts_pure .nil)
  have equals := Token.isSilent_of_isOperator he (by decide) (by decide) (by decide)
  exact Accounts.mono (expression_accounts nested _) fun _ _ _ h => .after_silent equals h

theorem variableDecl_accounts : Accounts o x (variableDecl nested) (SpellsNode o) := by
  refine accounts_bind typedName_accounts fun typed ts _ ht => ?_
  refine accounts_map (initializer_accounts nested) fun init us _ hi => ?_
  simpa [Node.mentions] using ht.append hi

theorem constant_accounts (hk : x.kind = .keyword) (silent : x.IsSilent) :
    Accounts o x (constant nested) (SpellsNode o) := by
  refine accounts_advance (by rw [hk]; decide) fun y => accounts_current ?_
  split
  · rename_i hf
    have opens : y.fence? = some (.opens (.block .function)) := (Token.fence?_of_isKeyword hf).2
    exact Accounts.mono (function_accounts nested opens) fun _ _ _ h => .after_silent silent h
  · refine accounts_bind typedName_accounts fun typed ts _ ht => accounts_current ?_
    split
    · exact accounts_expected .equals
    · refine accounts_map (initializer_accounts nested) fun init us _ hi => ?_
      simpa [Node.mentions] using Spells.after_silent silent (ht.append hi)

theorem expressionStatement_accounts (scope : Scope) :
    Accounts o x (expressionStatement nested scope) (SpellsNodes o) := by
  refine accounts_bind (expression_accounts nested _) fun parts ts _ hp => ?_
  split
  · exact accounts_expected .expression
  · refine accounts_pure ?_
    simpa using hp

theorem afterKeyword_accounts (hk : x.kind = .keyword) (silent : x.IsSilent) :
    Accounts o x (afterKeyword nested) (SpellsNodes o) :=
  accounts_advance (by rw [hk]; decide) fun _ => Accounts.mono (expression_accounts nested _)
    fun _ _ _ h => .after_silent silent h

theorem assignment_accounts (hk : x.kind = .keyword) (silent : x.IsSilent) :
    Accounts o x (assignment nested) (SpellsNodes o) := by
  unfold assignment
  rw [← bind_assoc]
  refine accounts_match (afterKeyword_accounts nested hk silent) fun parts => ?_
  cases hs : splitAssignment? parts with
  | none => exact ⟨inferInstance, fun _ _ _ => accounts_expected .equals⟩
  | some split =>
      obtain ⟨target, op, value⟩ := split
      refine ⟨inferInstance, fun ts _ hp => accounts_pure ?_⟩
      rw [SpellsNodes, mentionsOf_splitAssignment? hs] at hp
      simpa [Node.mentions] using hp

theorem operandPass_accounts (operands : List Node) {ts : List Token}
    (h : Spells o.types .phrase ts (mentionsOf operands)) :
    Accounts o x (operandPass nested operands)
      (Pass.Keeps (fun operands ts => Spells o.types .phrase ts (mentionsOf operands))
        (SpellsNodes o) ts) := by
  refine accounts_isAborted (accounts_bind (expression_accounts nested _) fun parts us y hp => ?_)
  split
  · rename_i empty
    rw [SpellsNodes, List.isEmpty_iff.mp empty] at hp
    refine accounts_pure ?_
    simpa [Pass.Keeps] using h.append hp
  · have all : Spells o.types .phrase (ts ++ us) (mentionsOf (operands ++ [.ofParts parts])) := by
      simpa using h.append hp
    refine accounts_ifOperator (fun hc _ => accounts_pure ?_) (accounts_pure ?_)
    · have silent := Token.isSilent_of_isOperator hc (by decide) (by decide) (by decide)
      simpa [Pass.Keeps] using all.before_silent silent
    · simpa [Pass.Keeps] using all

theorem instruction_accounts (hx : x.kind = .identifier) :
    Accounts o x (instruction nested) (SpellsNode o) := by
  refine accounts_current (accounts_advance (by rw [hx]; decide) fun y => ?_)
  refine accounts_map (accounts_repeated (operandPass_ahead nested)
    (fun operands _ _ h => operandPass_accounts nested operands h) .nil) fun operands ts _ h => ?_
  simpa [Node.mentions] using Spells.append (.instruction hx) h

theorem openBlock_accounts {word : BlockWord} (hx : x.fence? = some (.opens (.block word)))
    (scope : Scope) {closers : List Stop} (hk : ∀ stop ∈ closers, stop.kind ≠ .endOfFile)
    (hc : ∀ stop ∈ closers, ∀ c, stop.accepts c → c.ClosesBlock word) :
    Accounts o x (openBlock nested scope closers) (SpellsNodes o) := by
  refine accounts_current (accounts_advance (Token.kind_ne_of_fence? hx) fun y => ?_)
  refine Accounts.mono (blockBody_accounts nested _ _ hk hc) ?_
  rintro body _ _ ⟨us, c, rfl, hb, hc⟩
  exact .block hx hb hc

theorem forStmt_accounts (hx : x.fence? = some (.opens (.block .forStmt))) :
    Accounts o x (forStmt nested) (SpellsNode o) := by
  refine accounts_current (accounts_advance (Token.kind_ne_of_fence? hx) fun y => ?_)
  have closes : ∀ stop ∈ Stop.forEnd, ∀ c, stop.accepts c → c.ClosesBlock .forStmt :=
    fun _ hs _ hc => Token.closesBlock_of_accepts (by decide) hs hc
  -- The sign after the name can be left out.
  have bounds {name : String} {pre : List Token} (z : Token)
      (h : Spells o.types .phrase pre [.name name]) : Accounts o z (do
        let first ← expression nested []
        eatOr .toWord (·.isKeyword "to")
        let last ← expression nested []
        let body ← blockBody nested x.span .block Stop.forEnd
        return Node.forStmt name first last body) fun n us _ =>
          Spells o.types .phrase (x :: (pre ++ us)) n.mentions := by
    refine accounts_bind (expression_accounts nested _) fun first fs _ hf => ?_
    refine accounts_eatOr (fun _ => kind_ne_of_isA (by decide)) fun ht _ => ?_
    refine accounts_bind (expression_accounts nested _) fun last ls _ hl => ?_
    refine accounts_map (blockBody_accounts nested _ _ (by decide) closes) ?_
    rintro body _ _ ⟨us, c, rfl, hb, hc⟩
    have silent := Token.isSilent_of_isKeyword ht (by decide)
    have inside := h.append (hf.append (.after_silent silent (hl.append hb)))
    simpa [Node.mentions] using Spells.block hx inside hc
  refine accounts_name fun hn z => accounts_eat (fun _ => kind_ne_of_isA (by decide))
    (fun he w => ?_) fun _ => bounds z (.name hn)
  have equals := Token.isSilent_of_isOperator he (by decide) (by decide) (by decide)
  exact bounds w (Spells.append (.name hn) (.silent equals))

theorem struct_accounts (hx : x.fence? = some (.opens (.block .struct))) :
    Accounts o x (struct nested) (SpellsNode o) := by
  refine accounts_current (accounts_advance (Token.kind_ne_of_fence? hx) fun y => ?_)
  refine accounts_name fun hn _ => accounts_skipToLineEnd ?_
  have closes : ∀ stop ∈ Stop.structEnd, ∀ c, stop.accepts c → c.ClosesBlock .struct :=
    fun _ hs _ hc => Token.closesBlock_of_accepts (by decide) hs hc
  refine accounts_map (blockBody_accounts nested _ _ (by decide) closes) ?_
  rintro body _ _ ⟨us, c, rfl, hb, hc⟩
  simpa [Node.mentions] using Spells.block hx (Spells.append (.name hn) hb) hc

omit [∀ place, Evolving (nested place)] in
/-- What comes after a branch, from the token on that has ended it. -/
theorem otherwise_accounts {stop : Stop} (hs : stop ∈ Stop.branchEnd) {c : Token}
    (hc : stop.accepts c) (span : Span) {ts : List Token} {ms : List Mention}
    (h : Spells o.types .phrase ts ms) :
    Accounts o x (otherwise nested (some (stop, span))) fun rest us _ =>
      Spells o.types .branches (ts ++ c :: us) (ms ++ mentionsOfOption rest) := by
  have closes : ∀ stop ∈ Stop.ifEnd, ∀ c, stop.accepts c → c.ClosesBlock .ifStmt :=
    fun _ hs _ hc => Token.closesBlock_of_accepts (by decide) hs hc
  unfold otherwise
  dsimp only
  split
  · rename_i first
    rw [first] at hc
    refine accounts_map (blockBody_accounts nested _ _ (by decide) closes) ?_
    rintro body _ _ ⟨us, r, rfl, hb, hr⟩
    exact .lastBranch h (Token.fence?_of_accepts hc) hb hr
  split
  · rename_i second
    rw [second] at hc
    refine accounts_map (read.accounts (.condition _) _) fun reading us _ hr => ?_
    exact .moreBranches h (Token.fence?_of_accepts hc) hr
  · rename_i first second
    refine accounts_pure ?_
    have last : stop ∈ Stop.ifEnd := by
      simp only [Stop.branchEnd, List.mem_cons, first, second, false_or] at hs
      simpa [Stop.ifEnd] using hs
    simpa [mentionsOfOption] using Spells.onlyBranch h (closes stop last c hc)

theorem readCondition_accounts (opener : Span) :
    Accounts o x (readCondition nested opener) fun r ts _ =>
      Spells o.types .branches ts (mentionsOf r.1) := by
  refine accounts_bind (expression_accounts nested _) fun test ts _ ht => ?_
  refine accounts_eatOr (fun _ => kind_ne_of_isA (by decide)) fun hw _ => ?_
  have silent := Token.isSilent_of_isKeyword hw (by decide)
  refine accounts_bind (block_accounts nested _ _ (by decide)) ?_
  rintro ⟨body, _⟩ _ y ⟨stop, hs, us, c, rfl, hb, hc, rfl⟩
  have before := ht.append (.after_silent silent hb)
  refine accounts_map (otherwise_accounts nested hs hc _ before) fun rest vs _ hr => ?_
  simpa [Node.mentions] using hr

theorem wordStatement_accounts (scope : Scope) {word : StatementWord} (hk : x.kind = .keyword)
    (hw : StatementWord.ofWord? x.word = some word) :
    Accounts o x (wordStatement nested scope word) (SpellsNodes o) := by
  have readable : x.kind ≠ .endOfFile := by rw [hk]; decide
  have fence := Token.fence?_of_statementWord hk hw
  have silent (hw : word ≠ .expression) (hb : word.block? = none) : x.IsSilent := by
    refine ⟨Token.isOwn_eq_false (.inl hk), ?_⟩
    rw [fence hw, hb]
    rfl
  have one {p : Parser Node} (h : Accounts o x p (SpellsNode o)) :
      Accounts o x (p >>= fun n => pure [n]) (SpellsNodes o) :=
    accounts_map h fun n ts _ hn => by simpa using hn
  have whole {p : Parser (List Node)} {f : List Node → Node}
      (hf : ∀ nodes, (f nodes).mentions = mentionsOf nodes) (h : Accounts o x p (SpellsNodes o)) :
      Accounts o x (p >>= fun nodes => pure [f nodes]) (SpellsNodes o) :=
    accounts_map h fun nodes ts _ hn => by simpa [hf] using hn
  cases word with
  | globals =>
      refine whole (fun nodes => by rw [Node.mentions]) (openBlock_accounts nested
        (fence (by decide)) .globals (by decide) fun _ hs _ hc => ?_)
      exact Token.closesBlock_of_accepts (by decide) hs hc
  | function => exact one (function_accounts nested (fence (by decide)))
  | localDecl =>
      refine accounts_advance readable fun _ => accounts_map (variableDecl_accounts nested) ?_
      intro n ts _ hn
      simpa using Spells.after_silent (silent (by decide) rfl) hn
  | constant => exact one (constant_accounts nested hk (silent (by decide) rfl))
  | set => exact assignment_accounts nested hk (silent (by decide) rfl)
  | returnStmt | exitWhen | expect =>
      exact whole (fun nodes => by rw [Node.mentions])
        (afterKeyword_accounts nested hk (silent (by decide) rfl))
  | ifStmt =>
      refine accounts_current (accounts_advance readable fun y => ?_)
      exact accounts_map (read.accounts (.condition _) _) fun r ts _ hr =>
        .condition (fence (by decide)) hr
  | call =>
      refine accounts_advance readable fun y => Accounts.mono
        (expressionStatement_accounts nested scope) fun nodes ts _ hn => ?_
      exact .after_silent (silent (by decide) rfl) hn
  | loop =>
      refine whole mentions_ofLoopBody (openBlock_accounts nested
        (fence (by decide)) .block (by decide) fun _ hs _ hc => ?_)
      exact Token.closesBlock_of_accepts (by decide) hs hc
  | forStmt => exact one (forStmt_accounts nested (fence (by decide)))
  | struct => exact one (struct_accounts nested (fence (by decide)))
  | debug =>
      refine accounts_advance readable fun y => accounts_pure ?_
      simpa [Node.mentions] using Spells.silent (silent (by decide) rfl)
  | expression => exact expressionStatement_accounts nested scope

theorem nameStatement_accounts (scope : Scope) (hx : x.kind = .identifier) :
    Accounts o x (nameStatement nested scope) (SpellsNodes o) := by
  refine accounts_get fun s _ _ _ => ?_
  split
  · exact accounts_map (instruction_accounts nested hx) fun n ts _ hn => by simpa using hn
  split
  · exact accounts_map (variableDecl_accounts nested) fun n ts _ hn => by simpa using hn
  · exact expressionStatement_accounts nested scope

theorem statement?_accounts (scope : Scope) :
    Accounts o x (statement? nested scope) (SpellsFound o) := by
  have expression : Accounts o x (expressionStatement nested scope >>= fun nodes =>
      pure (some nodes)) (SpellsFound o) :=
    accounts_map (expressionStatement_accounts nested scope) fun _ _ _ h => h
  refine accounts_current ?_
  cases hk : x.kind with
  | keyword =>
      refine accounts_modify (fun _ => rfl) (fun _ => rfl) (fun _ => rfl) ?_
      cases hw : StatementWord.ofWord? x.word with
      | none => exact accounts_pure trivial
      | some word =>
          exact accounts_map (wordStatement_accounts nested scope hk hw) fun _ _ _ h => h
  | comment =>
      refine accounts_advance (by rw [hk]; decide) fun y => accounts_pure ?_
      simpa [SpellsFound, Node.mentions] using
        Spells.silent (Token.isSilent_of_kind (.inr hk))
  | identifier =>
      exact accounts_map (nameStatement_accounts nested scope hk) fun _ _ _ h => h
  | number | string | operator | leftParen | leftBrace => exact expression
  | _ => exact accounts_pure trivial

theorem statementPass_accounts (scope : Scope) (stops : List Stop) (reading : Reading)
    {ts : List Token} (h : Spells o.types .phrase ts (mentionsOf reading.1)) :
    Accounts o x (statementPass nested scope stops reading)
      (Pass.Keeps (fun reading ts => Spells o.types .phrase ts (mentionsOf reading.1))
        (fun reading ts y => SpellsNodes o reading.1 ts y ∧
          ∃ stop ∈ stops, reading.2 = some stop ∧ stop.accepts y) ts) := by
  refine accounts_get fun s _ ha hx => ?_
  rw [if_neg (by simp [ha]), hx]
  cases hs : stops.find? (·.accepts x) with
  | some stop =>
      have accepted := List.find?_some hs
      refine accounts_pure ⟨?_, stop, List.mem_of_find?_eq_some hs, rfl, accepted⟩
      simpa using h
  | none =>
      dsimp only
      cases hk : x.kind with
      | endOfLine =>
          refine accounts_advance (by rw [hk]; decide) fun y => accounts_pure ?_
          simpa [Pass.Keeps] using h.before_silent (Token.isSilent_of_kind (.inl hk))
      | endOfFile =>
          intro t _ _ _ clean
          exact absurd clean (errors_record_ne_nil _ t)
      | _ =>
          refine accounts_orReject rfl (fun _ => inferInstance) (statement?_accounts nested scope)
            fun nodes us y hn => accounts_pure ?_
          simpa [Pass.Keeps] using h.append hn

theorem readStatements_accounts [Thorough nested] (scope : Scope) (stops : List Stop) :
    Accounts o x (readStatements nested scope stops) fun r ts y => SpellsNodes o r.1 ts y ∧
      ∃ stop ∈ stops, r.2 = some stop ∧ stop.accepts y :=
  accounts_repeated (statementPass_ahead nested scope stops)
    (fun reading _ _ h => statementPass_accounts nested scope stops reading h) .nil

theorem rules_accounts [Thorough nested] (place : Place) :
    Accounts o x (place.plain nested) (place.Spelled o) := by
  cases place with
  | expression stops => exact readExpression_accounts nested stops
  | statements scope stops => exact readStatements_accounts nested scope stops
  | condition opener => exact readCondition_accounts nested opener

end

end Parser

namespace Place

/-- The reader of the places that weigh less than `n`. Any other place it reads with an error, so
that nothing has to be known of it where there is none. -/
def readOrFail (n : Nat) : PlaceReader := fun inner t =>
  if inner.weight t < n then inner.read t
  else ((inner.read t).1,
    (inner.read t).2.record (.expected .expression (inner.read t).2.current))

instance (n : Nat) (inner : Place) : Evolving (readOrFail n inner) := by
  constructor
  intro t
  have read : Evolves t (inner.read t).2 := Evolving.evolves t
  unfold readOrFail
  split
  · exact read
  · exact read.trans (.single (.expected _ .expression))

instance (n : Nat) : Parser.Thorough (readOrFail n) where
  consumes hx := by
    constructor
    intro t ht ha
    have whole : Consumes _ (Place.read (.expression [])) := Parser.Thorough.consumes hx
    have lt := whole.shorter t ht ha
    unfold readOrFail
    split
    · exact lt
    · rwa [ParserState.rest_record]

theorem read_eq_readOrFail (place : Place) (s : ParserState) :
    place.read s = place.plain (readOrFail (place.weight s)) s := by
  rw [read_eq]
  exact Parser.plain_eq read_respects place s fun inner t lt => (if_pos lt).symm

/-- What is read without errors is spelled. -/
theorem read_accounts (o : ParseOptions) (place : Place) (x : Token) :
    Accounts o x place.read (place.Spelled o) := by
  intro s ho ha hx clean
  induction hn : place.weight s using Nat.strongRecOn generalizing place s x with
  | ind n ih =>
      have lighter : Accountable o (readOrFail n) := by
        refine ⟨fun inner y t ho ha hy clean => ?_⟩
        unfold readOrFail at clean ⊢
        by_cases lt : inner.weight t < n
        · rw [if_pos lt] at clean ⊢
          exact ih _ lt inner y t ho ha hy clean rfl
        · rw [if_neg lt] at clean
          exact absurd clean (Parser.errors_record_ne_nil _ _)
      rw [read_eq_readOrFail, hn] at clean ⊢
      exact Parser.rules_accounts (readOrFail n) place s ho ha hx clean

end Place

/-- Tokens that are parsed without errors spell the tree. -/
theorem parse_spells {o : ParseOptions} {ts : List Token} {last : Token}
    (hts : ∀ t ∈ ts, t.kind ≠ .endOfFile) (hl : last.kind = .endOfFile)
    (clean : (parse o (ts ++ [last])).errors = []) :
    Spells o.types .phrase ts (mentionsOf (parse o (ts ++ [last])).tree.body) := by
  rcases run : (Place.statements .block [.endOfFile]).read (.start o (ts ++ [last]))
    with ⟨⟨body, stop⟩, s⟩
  have parsed : parse o (ts ++ [last]) = ⟨⟨body, s.isAsync⟩, s.errors, s.aborted⟩ :=
    parse_eq o (ts ++ [last]) (by rw [terminated_concat ts hl, run])
  have evolves := Evolving.evolves (p := (Place.statements .block [.endOfFile]).read)
    (.start o (ts ++ [last]))
  have read := Place.read_accounts o (.statements .block [.endOfFile]) _
    (.start o (ts ++ [last])) rfl rfl rfl
  rw [run] at evolves read
  rw [parsed] at clean ⊢
  obtain ⟨us, hs, spelled, stop', hm, -, accepted⟩ := read clean
  have ended : s.current.kind = .endOfFile := by
    rw [List.mem_singleton.mp hm] at accepted
    simpa [Stop.accepts, Stop.endOfFile] using accepted
  have more : s.rest ≠ [] :=
    evolves.forward.rest_ne_nil (List.mem_append_right ts (List.mem_singleton_self last)) hl
  have rest : s.rest = [last] := rest_at_end evolves.rest_suffix hts more ended
  change ts ++ [last] = us ++ s.rest at hs
  rw [rest] at hs
  rwa [List.append_cancel_right hs]

end MapScript
