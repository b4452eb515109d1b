import MapScript.Proofs.Spelling.Clean

/-!
# Expressions are spelled

The rules of expressions, one by one: when a rule finds no error, the tokens that it consumes spell
what its nodes mention. An operand is followed from its first token on, since the calls and links
after it take the nodes that stand before them.
-/
namespace MapScript

/-- The tokens spell the nodes. -/
@[simp] abbrev SpellsNodes (o : ParseOptions) (nodes : List Node) (ts : List Token) (_ : Token) :
    Prop :=
  Spells o.types .phrase ts (mentionsOf nodes)

@[simp] abbrev SpellsNode (o : ParseOptions) (node : Node) (ts : List Token) (_ : Token) : Prop :=
  Spells o.types .phrase ts node.mentions

/-- The tokens spell the mentions and end in a token that closes something. -/
def SpellsUpTo (o : ParseOptions) (closes : Token → Prop) (ms : List Mention) (ts : List Token) :
    Prop :=
  ∃ us c, ts = us ++ [c] ∧ Spells o.types .phrase us ms ∧ closes c

/-- The tokens spell what was read in a place. Statements end at one of their stops. -/
def Place.Spelled (o : ParseOptions) (place : Place) (r : Reading) (ts : List Token) (y : Token) :
    Prop :=
  match place with
  | .expression _ => SpellsNodes o r.1 ts y
  | .statements _ stops =>
    SpellsNodes o r.1 ts y ∧ ∃ stop ∈ stops, r.2 = some stop ∧ stop.accepts y
  | .condition _ => Spells o.types .branches ts (mentionsOf r.1)

/-- What a reader of nested places reads without errors is spelled. -/
class Accountable (o : ParseOptions) (nested : PlaceReader) : Prop where
  accounts (place : Place) (x : Token) : Accounts o x (nested place) (place.Spelled o)

namespace Spells
variable {types : Bool} {t : Token} {ts : List Token} {ms : List Mention}

theorem lineEnds (h : ∀ t ∈ ts, t.kind = .endOfLine) : Spells types .phrase ts [] := by
  induction ts with
  | nil => exact .nil
  | cons t ts ih =>
      have line := Token.isSilent_of_kind (.inl (h t List.mem_cons_self))
      exact append (.silent line) (ih fun u hu => h u (List.mem_cons_of_mem t hu))

theorem after_silent (ht : t.IsSilent) (h : Spells types .phrase ts ms) :
    Spells types .phrase (t :: ts) ms :=
  append (.silent ht) h

theorem before_silent (h : Spells types .phrase ts ms) (ht : t.IsSilent) :
    Spells types .phrase (ts ++ [t]) ms := by
  simpa using append h (.silent ht)

end Spells

namespace Parser
variable {o : ParseOptions} {x : Token}

-- The blocks of the longer rules are too deep for the usual limit on instances.
set_option synthInstance.maxSize 1000

section
variable (nested : PlaceReader) [∀ place, Evolving (nested place)] [read : Accountable o nested]

omit [∀ place, Evolving (nested place)] in
theorem expression_accounts (stops : List Stop) :
    Accounts o x (expression nested stops) (SpellsNodes o) :=
  accounts_map (read.accounts (.expression stops) x) fun _ _ _ h => h

theorem link?_accounts : Accounts o x (link? nested) fun link => SpellsNodes o link.toList := by
  refine accounts_ifEat (fun t ht => ?_) (fun hd y => accounts_current ?_) fun _ => ?_
  · rcases (Bool.or_eq_true _ _).mp ht with ht | ht <;> exact kind_ne_of_isA (by decide) ht
  · split
    · rename_i hk
      refine accounts_advance ?_ fun _ => accounts_pure ?_
      · rcases hk with hk | hk <;> rw [hk] <;> decide
      · have field : y.kind.isFieldName := by rcases hk with hk | hk <;> rw [hk] <;> decide
        simpa [Node.mentions] using Spells.property ((Bool.or_eq_true _ _).mp hd) field
    · exact accounts_expected .name
  · refine accounts_ifOperator (fun hl y => ?_) (accounts_pure .nil)
    refine accounts_bind (expression_accounts nested _) fun index ts z hi => ?_
    refine accounts_eatOr (fun _ => kind_ne_of_isA (by decide)) fun hr _ => accounts_pure ?_
    obtain ⟨hk, hw⟩ := Token.word_of_isOperator hl (by decide)
    simpa [Node.mentions] using
      Spells.bracketed (Token.fence?_leftBracket hk hw) hi (Token.fence?_rightBracket hr)

theorem chainPass_accounts (chain : List Node) {ts : List Token}
    (h : Spells o.types .phrase ts (mentionsOf chain)) :
    Accounts o x (chainPass nested chain)
      (Pass.Keeps (fun chain ts => Spells o.types .phrase ts (mentionsOf chain)) (SpellsNodes o)
        ts) := by
  refine accounts_isAborted ?_
  refine accounts_match (link?_accounts nested) fun link => ?_
  cases link with
  | none =>
      refine ⟨inferInstance, fun us y hl => accounts_pure ?_⟩
      simpa [Pass.Keeps] using h.append hl
  | some link =>
      refine ⟨inferInstance, fun us y hl => accounts_pure ?_⟩
      simpa [Pass.Keeps] using h.append hl

section
variable {opener : Unclosed} {closer : Token → Bool}
  (hc : ∀ t, closer t = true → t.fence? = some (.closes opener))

include hc in
theorem argumentPass_accounts (stops : List Stop) (missing : Expectation) (args : List Node)
    {ts : List Token} (h : Spells o.types .phrase ts (mentionsOf args)) :
    Accounts o x (argumentPass nested stops closer missing args)
      (Pass.Keeps (fun args ts => Spells o.types .phrase ts (mentionsOf args))
        (fun args ts _ => SpellsUpTo o (·.fence? = some (.closes opener)) (mentionsOf args) ts)
        ts) := by
  have readable (t : Token) (ht : closer t = true) : t.kind ≠ .endOfFile :=
    Token.kind_ne_of_fence? (hc t ht)
  refine accounts_skipLineEnds fun es y he => accounts_isAborted ?_
  refine accounts_ifEat readable (fun hr _ => accounts_pure ?_) fun _ => ?_
  · exact ⟨ts ++ es, y, by simp, by simpa using h.append (.lineEnds he), hc y hr⟩
  refine accounts_bind (expression_accounts nested _) fun parts us y hp => ?_
  refine accounts_skipLineEnds fun fs comma hf => ?_
  have all : Spells o.types .phrase (ts ++ (es ++ (us ++ fs)))
      (mentionsOf (addArgument args parts)) := by
    simpa using h.append ((Spells.lineEnds he).append (hp.append (.lineEnds hf)))
  refine accounts_ifOperator (fun hcomma _ => accounts_pure ?_) ?_
  · have silent := Token.isSilent_of_isOperator hcomma (by decide) (by decide) (by decide)
    simpa [Pass.Keeps] using all.before_silent silent
  · refine accounts_eatOr readable fun hr _ => accounts_pure ?_
    exact ⟨_, comma, by simp, all, hc comma hr⟩

include hc in
theorem arguments_accounts (stops : List Stop) (missing : Expectation) :
    Accounts o x (repeated (argumentPass nested stops closer missing) []) fun args ts _ =>
      SpellsUpTo o (·.fence? = some (.closes opener)) (mentionsOf args) ts :=
  accounts_repeated (argumentPass_ahead nested stops closer missing)
    (fun args _ _ h => argumentPass_accounts nested hc stops missing args h) .nil

end

theorem call_accounts (hx : x.kind = .leftParen) {callee : List Node} {ts : List Token}
    (h : Spells o.types .phrase ts (mentionsOf callee)) :
    Accounts o x (call nested callee) fun n us _ =>
      Spells o.types .phrase (ts ++ us) n.mentions := by
  have opens : x.fence? = some (.opens .round) := by rw [Token.fence?, hx]
  have closes (t : Token) (ht : (t.kind == .rightParen) = true) :
      t.fence? = some (.closes .round) := by rw [Token.fence?, beq_iff_eq.mp ht]
  refine accounts_advance (by rw [hx]; decide) fun y =>
    accounts_map (arguments_accounts nested closes _ _) ?_
  rintro args _ z ⟨us, r, rfl, ha, hr⟩
  simpa [Node.mentions] using h.append (.bracketed opens ha hr)

theorem postfixPass_accounts (parts : List Node) {ts : List Token}
    (h : Spells o.types .phrase ts (mentionsOf parts)) :
    Accounts o x (postfixPass nested parts)
      (Pass.Keeps (fun parts ts => Spells o.types .phrase ts (mentionsOf parts)) (SpellsNodes o)
        ts) := by
  have done : Spells o.types .phrase (ts ++ []) (mentionsOf parts) := by simpa using h
  refine accounts_isAborted (accounts_current ?_)
  split
  · rename_i hx
    split
    · exact accounts_pure done
    · refine accounts_map (call_accounts nested hx h) fun n us y hn => ?_
      simpa [Pass.Keeps] using hn
  · refine accounts_match (link?_accounts nested) fun link => ?_
    cases link with
    | none =>
        refine ⟨inferInstance, fun us y hl => accounts_pure ?_⟩
        simpa [Pass.Keeps] using h.append hl
    | some link =>
        refine ⟨inferInstance, fun us y hl => accounts_pure ?_⟩
        simpa [Pass.Keeps] using h.append hl

/-- The calls and links after an operand that was spelled already. -/
theorem operandTail_accounts {base : Node} {ts : List Token}
    (h : Spells o.types .phrase ts base.mentions) :
    Accounts o x (operandTail nested base) fun parts us => SpellsNodes o parts (ts ++ us) :=
  accounts_repeated_after (postfixPass_ahead nested)
    (fun parts _ _ hp => postfixPass_accounts nested parts hp) (by simpa using h)

theorem reference_accounts (hx : x.kind = .identifier) :
    Accounts o x (reference nested) (SpellsNodes o) := by
  refine accounts_current (accounts_advance (by rw [hx]; decide) fun y => ?_)
  have links : Accounts o y (repeated (chainPass nested) []) (SpellsNodes o) :=
    accounts_repeated (chainPass_ahead nested)
      (fun chain _ _ hc => chainPass_accounts nested chain hc) .nil
  refine accounts_bind links fun chain ts z hc => ?_
  have named : Spells o.types .phrase (x :: ts) (Node.ofChain x.word chain).mentions := by
    simpa using (Spells.name hx).append hc
  exact operandTail_accounts nested named

theorem group_accounts (hx : x.kind = .leftParen) :
    Accounts o x (group nested) (SpellsNode o) := by
  refine accounts_advance (by rw [hx]; decide) fun y => ?_
  refine accounts_bind (expression_accounts nested _) fun body ts z hb => ?_
  refine accounts_eatOr (fun t ht => ?_) fun hr _ => accounts_pure ?_
  · rw [beq_iff_eq.mp ht]
    decide
  · have opens : x.fence? = some (.opens .round) := by rw [Token.fence?, hx]
    have closes : z.fence? = some (.closes .round) := by rw [Token.fence?, beq_iff_eq.mp hr]
    simpa [Node.mentions] using Spells.bracketed opens hb closes

theorem array_accounts (hk : x.kind = .operator) (hw : x.word = "[") :
    Accounts o x (array nested) (SpellsNode o) := by
  refine accounts_advance (by rw [hk]; decide) fun y => accounts_map
    (arguments_accounts nested (fun t ht => Token.fence?_rightBracket ht) _ _) ?_
  rintro items _ z ⟨us, r, rfl, hi, hr⟩
  simpa [Node.mentions] using Spells.bracketed (Token.fence?_leftBracket hk hw) hi hr

theorem fieldPass_accounts (fields : List (String × List Node)) {ts : List Token}
    (h : Spells o.types .phrase ts (mentionsOfFields fields)) :
    Accounts o x (fieldPass nested fields)
      (Pass.Keeps (fun fields ts => Spells o.types .phrase ts (mentionsOfFields fields))
        (fun fields ts _ =>
          SpellsUpTo o (·.fence? = some (.closes .curly)) (mentionsOfFields fields) ts)
        ts) := by
  refine accounts_skipLineEnds fun es y he => accounts_isAborted ?_
  refine accounts_ifKind (by decide) (fun hr _ => accounts_pure ?_) fun _ => accounts_current ?_
  · have closes : y.fence? = some (.closes .curly) := by rw [Token.fence?, hr]
    exact ⟨ts ++ es, y, by simp, by simpa using h.append (.lineEnds he), closes⟩
  split
  · rename_i hk
    have readable : y.kind ≠ .endOfFile := by
      intro he
      rw [he] at hk
      cases hk
    refine accounts_advance readable fun colon => accounts_eatOr (fun t ht => ?_) fun hcolon z => ?_
    · rcases (Bool.or_eq_true _ _).mp ht with ht | ht <;> exact kind_ne_of_isA (by decide) ht
    refine accounts_bind (expression_accounts nested _) fun value us _ hv => ?_
    refine accounts_skipLineEnds fun fs comma hf => ?_
    have all : Spells o.types .phrase (ts ++ (es ++ y :: colon :: (us ++ fs)))
        (mentionsOfFields (fields ++ [(y.word, value)])) := by
      have field := Spells.append (.key hk ((Bool.or_eq_true _ _).mp hcolon))
        (hv.append (.lineEnds hf))
      simpa [mentionsOfFields] using h.append ((Spells.lineEnds he).append field)
    refine accounts_eat (fun _ => kind_ne_of_isA (by decide)) (fun hcomma _ => ?_) fun _ => ?_
    · have silent := Token.isSilent_of_isOperator hcomma (by decide) (by decide) (by decide)
      refine accounts_pure ?_
      simpa [Pass.Keeps] using all.before_silent silent
    · refine accounts_pure ?_
      simpa [Pass.Keeps] using all
  · exact accounts_expected .fieldName

theorem object_accounts (hx : x.kind = .leftBrace) :
    Accounts o x (object nested) (SpellsNode o) := by
  refine accounts_advance (by rw [hx]; decide) fun y => accounts_map (accounts_repeated
    (fieldPass_ahead nested) (fun fields _ _ hf => fieldPass_accounts nested fields hf) .nil) ?_
  rintro fields _ z ⟨us, r, rfl, hf, hr⟩
  have opens : x.fence? = some (.opens .curly) := by rw [Token.fence?, hx]
  simpa [Node.mentions] using Spells.bracketed opens hf hr

omit [∀ place, Evolving (nested place)] in
/-- A block without errors was closed. -/
theorem block_accounts (opener : Span) (scope : Scope) {closers : List Stop}
    (hk : ∀ stop ∈ closers, stop.kind ≠ .endOfFile) :
    Accounts o x (block nested opener scope closers) fun r ts _ => ∃ stop ∈ closers,
      ∃ us c, ts = us ++ [c] ∧ Spells o.types .phrase us (mentionsOf r.1) ∧ stop.accepts c ∧
        r.2 = some (stop, c.span) := by
  intro s ho ha hx clean
  have inside := read.accounts (.statements scope closers) x
    { s with openers := opener :: s.openers } ho ha hx
  rw [run_block] at clean ⊢
  generalize nested (.statements scope closers) { s with openers := opener :: s.openers } = r
    at inside clean
  obtain ⟨⟨body, closer⟩, next⟩ := r
  cases closer with
  | none =>
      obtain ⟨ts, -, -, stop, -, none, -⟩ := inside clean
      cases none
  | some closer =>
      have clean : next.errors = [] := by simpa using clean
      obtain ⟨us, hs, hb, stop, hm, found, accepted⟩ := inside clean
      obtain rfl := Option.some.inj found
      have readable : next.current.kind ≠ .endOfFile := by
        simp only [Stop.accepts, Bool.and_eq_true, beq_iff_eq] at accepted
        rw [accepted.1]
        exact hk closer hm
      have rest : next.rest = next.current :: _ :=
        ParserState.rest_advance (s := { next with openers := next.openers.tail }) readable
      refine ⟨us ++ [next.current], ?_, closer, hm, us, next.current, rfl, hb, accepted, rfl⟩
      change s.rest = us ++ next.rest at hs
      rw [hs, List.append_assoc, List.singleton_append]
      exact congrArg (us ++ ·) rest

omit [∀ place, Evolving (nested place)] in
theorem blockBody_accounts (opener : Span) (scope : Scope) {closers : List Stop}
    {word : BlockWord} (hk : ∀ stop ∈ closers, stop.kind ≠ .endOfFile)
    (hc : ∀ stop ∈ closers, ∀ c, stop.accepts c → c.ClosesBlock word) :
    Accounts o x (blockBody nested opener scope closers) fun body ts _ =>
      SpellsUpTo o (·.ClosesBlock word) (mentionsOf body) ts := by
  refine accounts_map (block_accounts nested opener scope hk) ?_
  rintro ⟨body, closer⟩ ts y ⟨stop, hm, us, c, rfl, hb, accepted, -⟩
  exact ⟨us, c, rfl, hb, hc stop hm c accepted⟩

theorem doBlock_accounts (hx : x.fence? = some (.opens (.block .doBlock))) :
    Accounts o x (doBlock nested) (SpellsNode o) := by
  refine accounts_current (accounts_advance (Token.kind_ne_of_fence? hx) fun y => ?_)
  have closes : ∀ stop ∈ Stop.doEnd, ∀ c, stop.accepts c → c.ClosesBlock .doBlock := by
    intro stop hs c hc
    rw [List.mem_singleton.mp hs] at hc
    exact Token.closesBlock_of_end hc
  refine accounts_framed (blockBody_accounts nested _ _ (by decide) closes) ?_
  rintro body isAsync _ z ⟨us, c, rfl, hb, hc⟩
  refine accounts_pure ?_
  simpa [Node.mentions] using Spells.block hx hb hc

theorem await_accounts (hk : x.kind = .keyword) (silent : x.IsSilent) :
    Accounts o x (await nested) (SpellsNodes o) := by
  refine accounts_advance (by rw [hk]; decide) fun y => ?_
  refine accounts_modify ParserState.rest_markAsync ParserState.options_markAsync
    ParserState.aborted_markAsync (accounts_current ?_)
  split
  · rename_i hy
    refine accounts_map (reference_accounts nested hy) fun parts ts z hp => ?_
    simpa using Spells.after_silent silent hp
  · refine accounts_pure ?_
    simpa [Node.mentions] using Spells.silent silent

/-- The tokens spell the nodes, if some were found. -/
def SpellsFound (o : ParseOptions) : Option (List Node) → List Token → Token → Prop
  | some nodes, ts, y => SpellsNodes o nodes ts y
  | none, _, _ => True

omit [∀ place, Evolving (nested place)] read in
theorem single_accounts (readable : x.kind ≠ .endOfFile) {node : Node}
    (h : Spells o.types .phrase [x] node.mentions) :
    Accounts o x (single node) (SpellsFound o) := by
  refine accounts_advance readable fun y => accounts_pure ?_
  simpa [SpellsFound] using h

/-- An operand with the calls and links after it. -/
theorem operand_accounts {p : Parser Node} [Evolving p] (h : Accounts o x p (SpellsNode o)) :
    Accounts o x (do
      let node ← p
      return some (← operandTail nested node)) (SpellsFound o) :=
  accounts_bind h fun _ _ _ hn => accounts_map (operandTail_accounts nested hn) fun _ _ _ ht => ht

theorem wordPart?_accounts (hk : x.kind = .keyword) :
    Accounts o x (wordPart? nested x) (SpellsFound o) := by
  have readable : x.kind ≠ .endOfFile := by rw [hk]; decide
  have own : x.isOwn = false := Token.isOwn_eq_false (.inl hk)
  unfold wordPart?
  cases hw : ExpressionWord.ofWord? x.word with
  | none => exact accounts_pure trivial
  | some word =>
      have fence := Token.fence?_of_expressionWord hk hw
      cases word with
      | operator | nil | bool =>
          refine single_accounts readable ?_
          simpa [Node.mentions, literalMentions] using Spells.silent ⟨own, fence⟩
      | await => exact accounts_map (await_accounts nested hk ⟨own, fence⟩) fun _ _ _ h => h
      | doBlock =>
          refine accounts_map (doBlock_accounts nested fence) fun node ts y h => ?_
          simpa [SpellsFound] using h

theorem operatorPart?_accounts (hk : x.kind = .operator) :
    Accounts o x (operatorPart? nested x) (SpellsFound o) := by
  unfold operatorPart?
  split
  · exact accounts_pure trivial
  split
  · rename_i hw
    exact operand_accounts nested (array_accounts nested hk hw)
  · rename_i hr hl
    refine single_accounts (by rw [hk]; decide) ?_
    simpa [Node.mentions] using Spells.silent (Token.isSilent_of_operator hk hl hr)

theorem literal_accounts {kind : LiteralKind} (readable : x.kind ≠ .endOfFile)
    (h : Spells o.types .phrase [x] (literalMentions kind x.word)) :
    Accounts o x (do
      advance
      return some (← operandTail nested (.literal kind x.word))) (SpellsFound o) := by
  have base : Spells o.types .phrase [x] (Node.literal kind x.word).mentions := by
    rwa [Node.mentions]
  exact accounts_advance readable fun _ =>
    accounts_map (operandTail_accounts nested base) fun _ _ _ ht => ht

theorem expressionPart?_accounts : Accounts o x (expressionPart? nested) (SpellsFound o) := by
  refine accounts_current ?_
  cases hk : x.kind with
  | identifier => exact accounts_map (reference_accounts nested hk) fun _ _ _ h => h
  | number => exact literal_accounts nested (by rw [hk]; decide) (.value (.inl hk))
  | string => exact literal_accounts nested (by rw [hk]; decide) (.value (.inr hk))
  | operator => exact operatorPart?_accounts nested hk
  | leftParen => exact operand_accounts nested (group_accounts nested hk)
  | leftBrace => exact operand_accounts nested (object_accounts nested hk)
  | keyword => exact wordPart?_accounts nested hk
  | _ => exact accounts_pure trivial

theorem expressionPass_accounts (stops : List Stop) (reading : Reading) {ts : List Token}
    (h : Spells o.types .phrase ts (mentionsOf reading.1)) :
    Accounts o x (expressionPass nested stops reading)
      (Pass.Keeps (fun reading ts => Spells o.types .phrase ts (mentionsOf reading.1))
        (fun reading => SpellsNodes o reading.1) ts) := by
  have done : Spells o.types .phrase (ts ++ []) (mentionsOf reading.1) := by simpa using h
  refine accounts_get fun s _ ha _ => ?_
  rw [if_neg (by simp [ha])]
  split
  · exact accounts_pure done
  refine accounts_orReject rfl (fun _ => inferInstance) (expressionPart?_accounts nested)
    fun parts us y hp => accounts_pure ?_
  simpa [Pass.Keeps] using h.append hp

theorem readExpression_accounts (stops : List Stop) :
    Accounts o x (readExpression nested stops) fun r => SpellsNodes o r.1 :=
  accounts_repeated (expressionPass_ahead nested stops)
    (fun reading _ _ h => expressionPass_accounts nested stops reading h) .nil

end

end Parser

end MapScript
