import MapScript.Proofs.Respelling.Basic

/-!
# Expressions of two parsers

The rules of expressions, one by one: while the first parser finds no error, the second finds an
expression that looks the same, and where no comments were put in it finds the same expression.
The one exception is a member whose name is a closing word, which the second parser may see as
`end`.
-/
namespace MapScript

/-- As much of a node as decides how the parser goes on. -/
inductive Look where
  | literal
  | array
  | object
  | call
  | operator (symbol : String)
  | other
deriving DecidableEq, Repr

def Node.look : Node → Look
  | .literal _ _ => .literal
  | .array _ => .array
  | .object _ => .object
  | .call _ _ _ => .call
  | .operator symbol => .operator symbol
  | _ => .other

/-- No member is named by a closing word. -/
def NoClosers (ms : List Mention) : Prop := ∀ word ∈ ownClosers, Mention.member word ∉ ms

@[simp] theorem noClosers_append {ms ns : List Mention} :
    NoClosers (ms ++ ns) ↔ NoClosers ms ∧ NoClosers ns := by
  simp only [NoClosers, List.mem_append, not_or]
  exact ⟨fun h => ⟨fun w hw => (h w hw).1, fun w hw => (h w hw).2⟩,
    fun h w hw => ⟨h.1 w hw, h.2 w hw⟩⟩

@[simp] theorem noClosers_name_cons {word : String} {ms : List Mention} :
    NoClosers (.name word :: ms) ↔ NoClosers ms := by
  simp [NoClosers]

@[simp] theorem noClosers_instruction_cons {op : String} {ms : List Mention} :
    NoClosers (.instruction op :: ms) ↔ NoClosers ms := by
  simp [NoClosers]

@[simp] theorem noClosers_member_cons {word : String} {ms : List Mention} :
    NoClosers (.member word :: ms) ↔ word ∉ ownClosers ∧ NoClosers ms := by
  simp only [NoClosers, List.mem_cons, Mention.member.injEq, not_or]
  exact ⟨fun h => ⟨fun hw => (h word hw).1 rfl, fun w hw => (h w hw).2⟩,
    fun h w hw => ⟨fun same => h.1 (same ▸ hw), h.2 w hw⟩⟩

theorem isUncallable_eq (parts : List Node) :
    isUncallable parts = decide (parts.map Node.look ∈ [[.literal], [.array], [.object]]) := by
  cases parts with
  | nil => rfl
  | cons node nodes =>
      cases nodes with
      | nil => cases node <;> rfl
      | cons other nodes => simp [isUncallable]

theorem look_awaited (parts : List Node) : (awaited parts).map Node.look =
    if parts.map Node.look = [.call] then [.call]
    else .operator "await" :: parts.map Node.look := by
  cases parts with
  | nil => rfl
  | cons node nodes =>
      cases nodes with
      | nil => cases node <;> rfl
      | cons other nodes => simp [awaited, Node.look]

@[simp] theorem look_ofChain (name : String) (chain : List Node) :
    (Node.ofChain name chain).look = .other := by
  cases chain <;> rfl

/-- An assignment is seen by its operator. -/
theorem splitAssignment?_isSome_eq {parts parts' : List Node}
    (h : parts'.map Node.look = parts.map Node.look) :
    (splitAssignment? parts').isSome = (splitAssignment? parts).isSome := by
  have symbol (node : Node) : node.symbol? =
      match node.look with | .operator symbol => some symbol | _ => none := by cases node <;> rfl
  induction parts generalizing parts' with
  | nil => rw [List.map_eq_nil_iff.mp h]
  | cons node nodes ih =>
      obtain ⟨node', nodes', rfl, look, looks⟩ := List.map_eq_cons_iff.mp h
      simp only [splitAssignment?, symbol, look]
      split
      · rfl
      · simpa using ih looks

namespace Respelling
variable (c : Respelling)

/-- Without comments put in the second value is the first, if no member is named by a closing
word in what the first mentions. -/
def Same {α : Type} (ms : List Mention) (a b : α) : Prop := ¬ c.loose → NoClosers ms → b = a

/-- The same nodes. -/
abbrev SameNodes (a b : List Node) : Prop := c.Same (mentionsOf a) a b

/-- The same nodes, which look the same in any case. -/
structure Parts (a b : List Node) : Prop where
  looks : b.map Node.look = a.map Node.look
  same : c.SameNodes a b

variable {c} {α β γ : Type}

theorem Same.refl (ms : List Mention) (a : α) : c.Same ms a a := fun _ _ => rfl

theorem Same.map {ms ns : List Mention} {a b : α} (h : c.Same ms a b) (f : α → β)
    (hm : NoClosers ns → NoClosers ms) : c.Same ns (f a) (f b) :=
  fun tight none => congrArg f (h tight (hm none))

theorem Same.map₂ {ms ns os : List Mention} {a a' : α} {b b' : β} (h : c.Same ms a a')
    (h' : c.Same ns b b') (f : α → β → γ) (hm : NoClosers os → NoClosers ms ∧ NoClosers ns) :
    c.Same os (f a b) (f a' b') :=
  fun tight none => congrArg₂ f (h tight (hm none).1) (h' tight (hm none).2)

namespace Parts
variable {a b a' b' : List Node}

theorem refl (a : List Node) : c.Parts a a := ⟨rfl, .refl _ _⟩

theorem append (h : c.Parts a b) (h' : c.Parts a' b') : c.Parts (a ++ a') (b ++ b') where
  looks := by rw [List.map_append, List.map_append, h.looks, h'.looks]
  same := h.same.map₂ h'.same (· ++ ·) (by simp)

/-- One node that holds others. -/
theorem node {m n : Node} (look : n.look = m.look) (h : c.Same m.mentions m n) :
    c.Parts [m] [n] where
  looks := by rw [List.map_singleton, List.map_singleton, look]
  same := h.map (fun n => [n]) (by simp)

theorem isUncallable (h : c.Parts a b) : isUncallable b = isUncallable a := by
  rw [isUncallable_eq, isUncallable_eq, h.looks]

theorem isEmpty (h : c.Parts a b) : b.isEmpty = a.isEmpty := by
  have length := congrArg List.length h.looks
  rw [List.length_map, List.length_map] at length
  rw [Bool.eq_iff_iff, List.isEmpty_iff_length_eq_zero, List.isEmpty_iff_length_eq_zero, length]

theorem awaited (h : c.Parts a b) : c.Parts (awaited a) (awaited b) where
  looks := by rw [look_awaited, look_awaited, h.looks]
  same := h.same.map MapScript.awaited (by simp)

end Parts

/-- Stops that the two parsers go on from in the same way. -/
def StopLike (stop stop' : Stop) : Prop :=
  (stop' = Stop.otherwise ↔ stop = Stop.otherwise) ∧
    (stop' = Stop.otherwiseIf ↔ stop = Stop.otherwiseIf)

/-- Statements end with both parsers at one of the stops. -/
def StatementsEnd (c : Respelling) (stack : List Unclosed) (stops : List Stop) (r r' : Reading)
    (s t : ParserState) : Prop :=
  c.Like stack s t ∧ c.SameNodes r.1 r'.1 ∧ s.current.Respelled t.current ∧
    ∃ stop ∈ stops, ∃ stop', r.2 = some stop ∧ r'.2 = some stop' ∧ stop.accepts s.current ∧
      StopLike stop stop'

/-- The reader of the first parser and that of the second read places together. An expression
stops at operators, and a block at keywords, one of which is `end`. -/
class Readers (c : Respelling) (nested : PlaceReader) : Prop where
  covered : c.Covered
  expression (stack : List Unclosed) {stops : List Stop}
    (hs : ∀ stop ∈ stops, stop.kind = .operator) :
    c.Tracks (c.Like stack) (nested (.expression stops)) (Place.expression stops).read
      (c.Ends stack fun r r' => c.Parts r.1 r'.1)
  statements {stack : List Unclosed} (ho : c.Open stack) (scope : Scope) {stops : List Stop}
    (hs : ∀ stop ∈ stops, stop.kind = .keyword) (he : Stop.plainEnd ∈ stops) :
    c.Tracks (c.Like stack) (nested (.statements scope stops)) (Place.statements scope stops).read
      (c.StatementsEnd stack stops)
  condition (stack : List Unclosed) (opener opener' : Span) :
    c.Tracks (c.Like (entered c.blocks (.block .ifStmt) stack)) (nested (.condition opener))
      (Place.condition opener').read (c.Ends stack fun r r' => c.SameNodes r.1 r'.1)

theorem tracks_ends {stack : List Unclosed} {V : α → β → Prop} {a : α} {b : β} {γ δ : Type}
    {p : Parser γ} {q : Parser δ} {Q : γ → δ → ParserState → ParserState → Prop}
    (h : V a b → c.Tracks (c.Like stack) p q Q) : c.Tracks (c.Ends stack V a b) p q Q :=
  fun s t ends => h ends.1 s t ends.2

end Respelling

namespace Parser
open Respelling
variable {c : Respelling} {stack : List Unclosed} {x y : Token}

-- The blocks of the longer rules are too deep for the usual limit on instances.
set_option synthInstance.maxSize 1000

section
variable (nested : PlaceReader) [read : c.Readers nested]

theorem expression_tracks {stops : List Stop} (hs : ∀ stop ∈ stops, stop.kind = .operator) :
    c.Tracks (c.Like stack) (expression nested stops) (expression Place.read stops)
      (c.Ends stack c.Parts) :=
  tracks_map (read.expression stack hs) fun _ _ h => h

theorem link?_tracks : c.Tracks (c.Like stack) (link? nested) (link? Place.read)
    (c.Ends stack (Option.Rel fun a b => c.Parts [a] [b])) := by
  refine tracks_ifMember read.covered (fun x y seen plain => ?_) ?_
  · by_cases hx : x.kind = .identifier ∨ x.kind = .keyword
    · have hxy : x.Respelled y := by
        rcases hx with hx | hx <;>
          exact seen.respelled_of (Token.not_endsLine_of_kind hx (by decide))
      have hy : y.kind.isFieldName := by rcases hx with hx | hx <;> rw [hxy.kind, hx] <;> decide
      have same : c.Parts [.property x.word] [.property y.word] := by
        refine .node rfl fun _ none => ?_
        rw [Node.mentions, noClosers_member_cons] at none
        rw [hxy.word_eq_of_notMem none.1]
      rw [if_pos hx, if_pos (by rwa [hxy.kind])]
      have rest : c.Tracks (c.Like stack) (pure (some (Node.property x.word)))
          (pure (some (Node.property y.word))) (c.Ends stack (Option.Rel fun a b =>
            c.Parts [a] [b])) :=
        tracks_pure fun _ _ like => ⟨.some same, like⟩
      rcases hx with hx | hx <;>
        exact tracks_take seen hx (by decide) (openAfter_member hy plain) rest
    · rw [if_neg hx]
      exact tracks_expected .name
  · refine tracks_ifEat (.operator "[") (e := .square :: stack) (fun t ht => ?_) ?_
      (tracks_pure fun _ _ like => ⟨.none, like⟩)
    · obtain ⟨hk, hw⟩ := Token.word_of_isOperator ht (by decide)
      exact openAfter_leftBracket hk hw
    · refine tracks_then (expression_tracks nested (by decide)) fun index index' same => ?_
      refine tracks_eatOr (.operator "]") (e := stack) (fun _ => openAfter_rightBracket) ?_
      refine tracks_pure fun _ _ like => ⟨.some (.node rfl ?_), like⟩
      exact same.same.map Node.index (by rw [Node.mentions]; exact id)

theorem chainPass_tracks (chain chain' : List Node) :
    c.Tracks (c.Ends stack c.Parts chain chain') (chainPass nested chain)
      (chainPass Place.read chain') (BothPasses (c.Ends stack c.Parts) (c.Ends stack c.Parts)) := by
  refine tracks_ends fun same => tracks_isAborted (fun _ _ like => like.aborted) ?_
  refine tracks_option (link?_tracks nested) (fun link link' hl => ?_) ?_
  · exact tracks_pure fun _ _ like => ⟨same.append hl, like⟩
  · exact tracks_pure fun _ _ like => ⟨same, like⟩

/-- The same statements, closed by stops that are alike. The parsers are past the closing words. -/
def BlockEnd (c : Respelling) (stack : List Unclosed) (closers : List Stop)
    (a b : List Node × Option (Stop × Span)) (s t : ParserState) : Prop :=
  c.SameNodes a.1 b.1 ∧ ∃ stop ∈ closers, ∃ stop' span span', a.2 = some (stop, span) ∧
    b.2 = some (stop', span') ∧ StopLike stop stop' ∧ ∃ x y : Token, x.Respelled y ∧
      stop.accepts x ∧ c.Like (openAfter c.blocks stack y) s t

theorem block_tracks (ho : c.Open stack) (opener opener' : Span) (scope : Scope)
    {closers : List Stop} (hk : ∀ stop ∈ closers, stop.kind = .keyword)
    (he : Stop.plainEnd ∈ closers) :
    c.Tracks (c.Like stack) (block nested opener scope closers)
      (block Place.read opener' scope closers) (BlockEnd c stack closers) := by
  intro s t like
  have inside := read.statements ho scope hk he { s with openers := opener :: s.openers }
    { t with openers := opener' :: t.openers }
    (like.congr rfl rfl rfl rfl rfl rfl rfl rfl like.frames)
  rw [run_block, run_block]
  generalize nested (.statements scope closers) { s with openers := opener :: s.openers } = r
    at inside
  generalize (Place.statements scope closers).read { t with openers := opener' :: t.openers } = r'
    at inside
  obtain ⟨⟨body, closer⟩, next⟩ := r
  obtain ⟨⟨body', closer'⟩, next'⟩ := r'
  rcases inside with ⟨like, same, hxy, stop, hs, stop', rfl, rfl, accepted, alike⟩ | failed
  · have hx : next.current.kind = .keyword := by
      simp only [Stop.accepts, Bool.and_eq_true, beq_iff_eq] at accepted
      exact accepted.1.trans (hk stop hs)
    have hy : next'.current.kind = .keyword := hxy.kind.trans hx
    have closed : c.Like stack { next with openers := next.openers.tail }
        { next' with openers := next'.openers.tail } :=
      like.congr rfl rfl rfl rfl rfl rfl rfl rfl like.frames
    refine .inl ⟨same, stop, hs, stop', _, _, rfl, rfl, alike, _, _, hxy, accepted, ?_⟩
    exact closed.advance hxy (show next.current.kind ≠ _ by rw [hx]; decide)
      fun loose => absurd (hy.symm.trans loose.2) (by decide)
  · refine .inr (failed.mono ?_ ?_)
    · cases closer <;> simp
    · cases closer' <;> simp

/-- The body of a block. Behind the word that closes it no more is open than before the block. -/
theorem blockBody_tracks {opened : Unclosed} (hb : opened.isBracket = false) {word : BlockWord}
    (leaves : ∀ {y : Token}, y.kind = .keyword → y.ClosesBlock word →
      openAfter c.blocks (entered c.blocks opened stack) y = stack) {closers : List Stop}
    (closes : ∀ stop ∈ closers, ∀ c, stop.accepts c → c.ClosesBlock word)
    (hk : ∀ stop ∈ closers, stop.kind = .keyword) (he : Stop.plainEnd ∈ closers)
    (opener opener' : Span) (scope : Scope) :
    c.Tracks (c.Like (entered c.blocks opened stack)) (blockBody nested opener scope closers)
      (blockBody Place.read opener' scope closers) (c.Ends stack c.SameNodes) := by
  intro s t like
  refine (block_tracks nested (read.covered.open_entered hb) opener opener' scope hk he s t
    like).imp_left ?_
  rintro ⟨same, stop, hs, -, -, -, -, -, -, x, y, hxy, accepted, past⟩
  have hx : x.kind = .keyword := by
    simp only [Stop.accepts, Bool.and_eq_true, beq_iff_eq] at accepted
    exact accepted.1.trans (hk stop hs)
  rw [leaves (hxy.kind.trans hx) (hxy.closesBlock (closes stop hs x accepted))] at past
  exact ⟨same, past⟩

theorem doBlock_tracks (seen : x.Seen c.loose y) (hx : x.kind = .keyword)
    (fence : y.fence? = some (.opens (.block .doBlock))) :
    c.Tracks (c.At stack x y) (doBlock nested) (doBlock Place.read)
      (c.Ends stack fun a b => c.Parts [a] [b]) := by
  have hxy := seen.respelled_of (Token.not_endsLine_of_kind hx (by decide))
  have closes : ∀ stop ∈ Stop.doEnd, ∀ c, stop.accepts c → c.ClosesBlock .doBlock := by
    intro stop hs c hc
    rw [List.mem_singleton.mp hs] at hc
    exact Token.closesBlock_of_end hc
  refine tracks_current_at (tracks_take seen hx (by decide)
    (openAfter_opensBlock (hxy.kind.trans hx) fence) ?_)
  refine tracks_framed (blockBody_tracks nested rfl openAfter_closesBlock closes (by decide)
    (by decide) _ _ _) fun body body' isAsync same => ?_
  refine tracks_pure fun _ _ like => ⟨.node rfl ?_, like⟩
  exact same.map (Node.doBlock isAsync) (by rw [Node.mentions]; exact id)

theorem group_tracks (seen : x.Seen c.loose y) (hx : x.kind = .leftParen) :
    c.Tracks (c.At stack x y) (group nested) (group Place.read)
      (c.Ends stack fun a b => c.Parts [a] [b]) := by
  have hxy := seen.respelled_of (Token.not_endsLine_of_kind hx (by decide))
  refine tracks_take seen hx (by decide) (openAfter_leftParen (hxy.kind.trans hx)) ?_
  refine tracks_then (expression_tracks nested (by decide)) fun body body' same => ?_
  refine tracks_eatOr (.kind (by decide)) (e := stack)
    (fun t ht => openAfter_rightParen (beq_iff_eq.mp ht)) ?_
  refine tracks_pure fun _ _ like => ⟨.node rfl ?_, like⟩
  exact same.same.map Node.group (by rw [Node.mentions]; exact id)

section
variable {closer : Token → Bool} (hc : Token.Firm closer)
  {bracket : Unclosed} (hb : bracket.isBracket = true)
  (hd : ∀ t, closer t = true → openAfter c.blocks (bracket :: stack) t = stack)
  {stops : List Stop} (hs : ∀ stop ∈ stops, stop.kind = .operator)
include hc hb hd hs

theorem argumentPass_tracks (missing : Expectation) (args args' : List Node) :
    c.Tracks (c.Ends (bracket :: stack) c.SameNodes args args')
      (argumentPass nested stops closer missing args)
      (argumentPass Place.read stops closer missing args')
      (BothPasses (c.Ends (bracket :: stack) c.SameNodes) (c.Ends stack c.SameNodes)) := by
  have balks : Balks (do
      if ← eatOperator "," then return Pass.again (addArgument args' [])
      eatOr missing closer
      return .done (addArgument args' [])) := balks_eat (.operator ",") (balks_eatOr hc)
  refine tracks_ends fun same => tracks_skipLineEnds hb ?_ ?_
  · refine tracks_isAborted (fun _ _ like => like.aborted) ?_
    refine tracks_ifEat hc hd (tracks_pure fun _ _ like => ⟨same, like⟩) ?_
    refine tracks_then (expression_tracks nested hs) fun parts parts' hp => ?_
    have all : c.SameNodes (addArgument args parts) (addArgument args' parts') :=
      same.map₂ hp.same addArgument (by simp)
    refine tracks_skipLineEnds hb ?_
      (tracks_of_balks (balks_eat (.operator ",") (balks_eatOr hc)))
    refine tracks_ifOperator (by decide) (by decide) (by decide)
      (tracks_pure fun _ _ like => ⟨all, like⟩) ?_
    exact tracks_eatOr hc hd (tracks_pure fun _ _ like => ⟨all, like⟩)
  · exact tracks_of_balks (balks_isAborted (balks_eat hc
      (balks_expression hs (balks_skipLineEnds.mpr balks))))

theorem arguments_tracks [∀ place, Evolving (nested place)] (missing : Expectation) :
    c.Tracks (c.Like (bracket :: stack)) (repeated (argumentPass nested stops closer missing) [])
      (repeated (argumentPass Place.read stops closer missing) [])
      (c.Ends stack c.SameNodes) :=
  (tracks_repeated (argumentPass_ahead nested stops closer missing)
    (argumentPass_ahead Place.read stops closer missing)
    (argumentPass_tracks nested hc hb hd hs missing) [] []).mono
    (fun _ _ like => ⟨.refl _ _, like⟩) fun _ _ _ _ ends => ends

end

variable [∀ place, Evolving (nested place)]

theorem call_tracks (seen : x.Seen c.loose y) (hx : x.kind = .leftParen)
    {callee callee' : List Node} (h : c.SameNodes callee callee') :
    c.Tracks (c.At stack x y) (call nested callee) (call Place.read callee')
      (c.Ends stack fun a b => c.Parts [a] [b]) := by
  have hxy := seen.respelled_of (Token.not_endsLine_of_kind hx (by decide))
  refine tracks_take seen hx (by decide) (openAfter_leftParen (hxy.kind.trans hx)) ?_
  refine tracks_map (arguments_tracks nested (.kind (by decide)) rfl
    (fun t ht => openAfter_rightParen (beq_iff_eq.mp ht)) (by decide) _) fun args args' ha => ?_
  exact .node rfl (h.map₂ ha (Node.call · false ·) (by simp [Node.mentions]))

theorem postfixPass_tracks (parts parts' : List Node) :
    c.Tracks (c.Ends stack c.Parts parts parts') (postfixPass nested parts)
      (postfixPass Place.read parts')
      (BothPasses (c.Ends stack c.Parts) (c.Ends stack c.Parts)) := by
  refine tracks_ends fun same => tracks_isAborted (fun _ _ like => like.aborted) ?_
  refine tracks_current fun x y seen => ?_
  refine tracks_ite (seen.kind_iff (by decide)) (fun hx => ?_) fun _ => ?_
  · rw [same.isUncallable]
    refine tracks_ite Iff.rfl (fun _ => ?_) fun _ => ?_
    · exact tracks_pure fun _ _ here => ⟨same, here.1⟩
    · refine tracks_then (call_tracks nested seen hx same.same) fun node node' hn => ?_
      exact tracks_pure fun _ _ like => ⟨hn, like⟩
  · refine Tracks.at (tracks_option (link?_tracks nested) (fun link link' hl => ?_) ?_)
    · exact tracks_pure fun _ _ like => ⟨same.append hl, like⟩
    · exact tracks_pure fun _ _ like => ⟨same, like⟩

theorem operandTail_tracks {base base' : Node} (h : c.Parts [base] [base']) :
    c.Tracks (c.Like stack) (operandTail nested base) (operandTail Place.read base')
      (c.Ends stack c.Parts) :=
  (tracks_repeated (postfixPass_ahead nested) (postfixPass_ahead Place.read)
    (postfixPass_tracks nested) [base] [base']).mono
    (fun _ _ like => ⟨h, like⟩) fun _ _ _ _ ends => ends

theorem reference_tracks (seen : x.Seen c.loose y) (hx : x.kind = .identifier) :
    c.Tracks (c.At stack x y) (reference nested) (reference Place.read)
      (c.Ends stack c.Parts) := by
  have hxy := seen.respelled_of (Token.not_endsLine_of_kind hx (by decide))
  refine tracks_current_at (tracks_take seen hx (by decide)
    (openAfter_of_kind (hxy.kind.trans hx) (by decide)) ?_)
  have chain : c.Tracks (c.Like stack) (repeated (chainPass nested) [])
      (repeated (chainPass Place.read) []) (c.Ends stack c.Parts) :=
    (tracks_repeated (chainPass_ahead nested) (chainPass_ahead Place.read)
      (chainPass_tracks nested) [] []).mono
      (fun _ _ like => ⟨.refl _, like⟩) fun _ _ _ _ ends => ends
  refine tracks_then chain fun links links' hl => operandTail_tracks nested ?_
  rw [hxy.word_eq (by rw [hx]; decide)]
  exact .node (by simp) (hl.same.map (Node.ofChain x.word) (by simp))

theorem array_tracks (seen : x.Seen c.loose y) (hx : x.kind = .operator) (hw : x.word = "[") :
    c.Tracks (c.At stack x y) (array nested) (array Place.read)
      (c.Ends stack fun a b => c.Parts [a] [b]) := by
  have hxy := seen.respelled_of (Token.not_endsLine_of_kind hx (by decide))
  have hw' : y.word = "[" := (hxy.word_eq (by rw [hx]; decide)).trans hw
  refine tracks_take seen hx (by decide) (openAfter_leftBracket (hxy.kind.trans hx) hw') ?_
  refine tracks_map (arguments_tracks nested (.operator "]") rfl
    (fun _ => openAfter_rightBracket) (by decide) _) fun items items' hi => ?_
  exact .node rfl (hi.map Node.array (by rw [Node.mentions]; exact id))

/-- The same fields. -/
abbrev SameFields (c : Respelling) (a b : List (String × List Node)) : Prop :=
  c.Same (mentionsOfFields a) a b

/-- After a field the second parser may be stuck; it goes on to the next pass, which fails. -/
def FieldsGoOn (c : Respelling) (stack : List Unclosed) (a b : List (String × List Node))
    (s t : ParserState) : Prop :=
  c.Ends (.curly :: stack) (SameFields c) a b s t ∨ c.Stuck s t

theorem fieldPass_balks (fields : List (String × List Node)) :
    Balks (fieldPass Place.read fields) := by
  refine balks_skipLineEnds.mpr (balks_isAborted (balks_eat (.kind (by decide))
    (balks_current fun key hk => ?_)))
  rw [if_neg (by rw [hk]; decide)]
  exact balks_expected .fieldName

theorem fieldPass_tracks (fields fields' : List (String × List Node)) :
    c.Tracks (FieldsGoOn c stack fields fields') (fieldPass nested fields)
      (fieldPass Place.read fields')
      (BothPasses (FieldsGoOn c stack) (c.Ends stack (SameFields c))) := by
  suffices together : c.Tracks (c.Ends (.curly :: stack) (SameFields c) fields fields')
      (fieldPass nested fields) (fieldPass Place.read fields')
      (BothPasses (FieldsGoOn c stack) (c.Ends stack (SameFields c))) from
    fun s t start => start.elim (together s t) (tracks_of_balks (fieldPass_balks fields') s t)
  refine tracks_ends fun same => tracks_skipLineEnds rfl ?_ (tracks_of_balks ?_)
  · refine tracks_isAborted (fun _ _ like => like.aborted) ?_
    refine tracks_ifEat (.kind (by decide)) (e := stack)
      (fun t ht => openAfter_rightBrace (beq_iff_eq.mp ht))
      (tracks_pure fun _ _ like => ⟨same, like⟩) (tracks_current fun key key' seen => ?_)
    by_cases hk : key.kind.isFieldName
    · have line : ¬ key.EndsLine := by rintro (he | he) <;> rw [he] at hk <;> cases hk
      have hkey := seen.respelled_of line
      have hk' : key'.kind.isFieldName := by rwa [hkey.kind]
      rw [if_pos hk, if_pos hk']
      refine tracks_key read.covered hkey hk' ?_
      refine tracks_then (expression_tracks nested (by decide)) fun value value' hv => ?_
      have all : SameFields c (fields ++ [(key.word, value)])
          (fields' ++ [(key'.word, value')]) := by
        intro tight none
        simp only [mentionsOfFields_append, mentionsOfFields, noClosers_append,
          noClosers_member_cons] at none
        rw [same tight none.1, hv.same tight none.2.2.1, hkey.word_eq_of_notMem none.2.1]
      refine tracks_skipLineEnds rfl ?_ fun s t stuck => ?_
      · exact tracks_eat (.operator ",")
          (fun _ ht => openAfter_of_isOperator ht (by decide) (by decide) (by decide))
          (tracks_pure fun _ _ like => .inl ⟨all, like⟩)
          (tracks_pure fun _ _ like => .inl ⟨all, like⟩)
      · have run : eatOperator "," t = (false, t) :=
          run_eat_not ((Token.Firm.operator ",").eq_false (by simp [stuck.comment]))
        rw [run_bind, run_bind, run]
        exact .inl (.inr ⟨stuck.comment, stuck.aborted, stuck.noisy⟩)
    · rw [if_neg hk]
      exact tracks_expected .fieldName
  · exact balks_skipLineEnds.mp (fieldPass_balks fields')

theorem object_tracks (seen : x.Seen c.loose y) (hx : x.kind = .leftBrace) :
    c.Tracks (c.At stack x y) (object nested) (object Place.read)
      (c.Ends stack fun a b => c.Parts [a] [b]) := by
  have hxy := seen.respelled_of (Token.not_endsLine_of_kind hx (by decide))
  refine tracks_take seen hx (by decide) (openAfter_leftBrace (hxy.kind.trans hx)) ?_
  have fields : c.Tracks (c.Like (.curly :: stack)) (repeated (fieldPass nested) [])
      (repeated (fieldPass Place.read) []) (c.Ends stack (SameFields c)) :=
    (tracks_repeated (fieldPass_ahead nested) (fieldPass_ahead Place.read)
      (fieldPass_tracks nested) [] []).mono
      (fun _ _ like => .inl ⟨.refl _ _, like⟩) fun _ _ _ _ ends => ends
  refine tracks_map fields fun fields fields' hf => ?_
  exact .node rfl (hf.map Node.object (by rw [Node.mentions]; exact id))

theorem await_tracks (seen : x.Seen c.loose y) (hx : x.kind = .keyword)
    (unfenced : y.fence? = none) :
    c.Tracks (c.At stack x y) (await nested) (await Place.read) (c.Ends stack c.Parts) := by
  refine tracks_take seen hx (by decide) (openAfter_of_unfenced unfenced) ?_
  refine tracks_markAsync (tracks_current fun z w seen => ?_)
  refine tracks_ite (seen.kind_iff (by decide)) (fun hz => ?_) fun _ => ?_
  · exact tracks_map (reference_tracks nested seen hz) fun _ _ same => same.awaited
  · exact tracks_pure fun _ _ here => ⟨.refl _, here.1⟩

/-- A node that is one token. -/
theorem single_tracks (seen : x.Seen c.loose y) {kind : TokenKind} (hx : x.kind = kind)
    (solid : kind ∉ [.endOfLine, .endOfFile, .comment]) (hd : openAfter c.blocks stack y = stack)
    (node : Node) :
    c.Tracks (c.At stack x y) (single node) (single node) (Found (c.Ends stack c.Parts)) :=
  tracks_take seen hx solid hd (tracks_pure fun _ _ like => ⟨.refl [node], like⟩)

/-- An operand with the calls and links after it. -/
theorem operand_tracks {p q : Parser Node} {P : ParserState → ParserState → Prop}
    (h : c.Tracks P p q (c.Ends stack fun a b => c.Parts [a] [b])) :
    c.Tracks P (do
      let node ← p
      return some (← operandTail nested node)) (do
      let node ← q
      return some (← operandTail Place.read node)) (Found (c.Ends stack c.Parts)) :=
  tracks_then h fun _ _ hn => tracks_then (operandTail_tracks nested hn) fun _ _ ht =>
    tracks_pure fun _ _ like => ⟨ht, like⟩

theorem wordPart?_tracks (seen : x.Seen c.loose y) (hx : x.kind = .keyword) :
    c.Tracks (c.At stack x y) (wordPart? nested x) (wordPart? Place.read y)
      (Found (c.Ends stack c.Parts)) := by
  have hxy := seen.respelled_of (Token.not_endsLine_of_kind hx (by decide))
  unfold wordPart?
  cases hw : ExpressionWord.ofWord? x.word with
  | none => exact tracks_none
  | some word =>
      have same : y.word = x.word := hxy.word_eq_of_notMem fun closing => by
        rw [(Token.ofWord?_of_mem_ownClosers (List.mem_cons_of_mem _ closing)).1] at hw
        cases hw
      have fence := Token.fence?_of_expressionWord (hxy.kind.trans hx) (same ▸ hw)
      rw [same, hw]
      cases word with
      | operator | nil | bool =>
          exact single_tracks seen hx (by decide) (openAfter_of_unfenced fence) _
      | await =>
          refine tracks_then (await_tracks nested seen hx fence) fun _ _ ha => ?_
          exact tracks_pure fun _ _ like => ⟨ha, like⟩
      | doBlock =>
          refine tracks_then (doBlock_tracks nested seen hx fence) fun _ _ hb => ?_
          exact tracks_pure fun _ _ like => ⟨hb, like⟩

theorem operatorPart?_tracks (seen : x.Seen c.loose y) (hx : x.kind = .operator) :
    c.Tracks (c.At stack x y) (operatorPart? nested x) (operatorPart? Place.read y)
      (Found (c.Ends stack c.Parts)) := by
  have hxy := seen.respelled_of (Token.not_endsLine_of_kind hx (by decide))
  have same : y.word = x.word := hxy.word_eq (by rw [hx]; decide)
  unfold operatorPart?
  rw [same]
  refine tracks_ite Iff.rfl (fun _ => tracks_none) fun hr => ?_
  refine tracks_ite Iff.rfl (fun hl => ?_) fun hl => ?_
  · exact operand_tracks nested (array_tracks nested seen hx hl)
  · refine single_tracks seen hx (by decide) (openAfter_of_operator (hxy.kind.trans hx) ?_ ?_) _
    · rwa [same]
    · rwa [same]

theorem literal_tracks (seen : x.Seen c.loose y) {kind : TokenKind} (hx : x.kind = kind)
    (hk : kind ∈ [.number, .string]) (literal : LiteralKind) :
    c.Tracks (c.At stack x y) (do
      advance
      return some (← operandTail nested (.literal literal x.word))) (do
      advance
      return some (← operandTail Place.read (.literal literal y.word)))
      (Found (c.Ends stack c.Parts)) := by
  have solid : kind ∉ [.endOfLine, .endOfFile, .comment] ∧ kind ≠ .keyword ∧
      kind ∈ [.endOfLine, .identifier, .number, .string, .comment] := by
    simp only [List.mem_cons, List.not_mem_nil, or_false] at hk
    rcases hk with rfl | rfl <;> decide
  have hxy : x.Respelled y :=
    seen.respelled_of (Token.not_endsLine_of_kind hx fun he => solid.1 (by simp_all))
  rw [hxy.word_eq (by rw [hx]; exact solid.2.1)]
  refine tracks_take seen hx solid.1 (openAfter_of_kind (hxy.kind.trans hx) solid.2.2) ?_
  refine tracks_then (operandTail_tracks nested (.refl _)) fun _ _ ht => ?_
  exact tracks_pure fun _ _ like => ⟨ht, like⟩

theorem expressionPart?_tracks (seen : x.Seen c.loose y) :
    c.Tracks (c.At stack x y) (expressionPart? nested) (expressionPart? Place.read)
      (Found (c.Ends stack c.Parts)) := by
  refine tracks_current_at ?_
  cases seen with
  | comment hl line hy => rcases line with line | line <;> rw [line] <;> exact tracks_none
  | respelled hxy =>
      have seen : x.Seen c.loose y := .respelled hxy
      rw [hxy.kind]
      cases hk : x.kind with
      | identifier =>
          refine tracks_then (reference_tracks nested seen hk) fun _ _ hr => ?_
          exact tracks_pure fun _ _ like => ⟨hr, like⟩
      | number => exact literal_tracks nested seen hk (by decide) .number
      | string => exact literal_tracks nested seen hk (by decide) .string
      | operator => exact operatorPart?_tracks nested seen hk
      | leftParen => exact operand_tracks nested (group_tracks nested seen hk)
      | leftBrace => exact operand_tracks nested (object_tracks nested seen hk)
      | keyword => exact wordPart?_tracks nested seen hk
      | _ => exact tracks_none

theorem expressionPass_tracks {stops : List Stop} (hs : ∀ stop ∈ stops, stop.kind = .operator)
    (reading reading' : Reading) :
    c.Tracks (c.Ends stack (fun r r' => c.Parts r.1 r'.1) reading reading')
      (expressionPass nested stops reading) (expressionPass Place.read stops reading')
      (BothPasses (c.Ends stack fun r r' => c.Parts r.1 r'.1)
        (c.Ends stack fun r r' => c.Parts r.1 r'.1)) := by
  refine tracks_ends fun same => tracks_at fun x y seen => tracks_get ?_
  rintro s t ⟨like, rfl, rfl⟩
  have stopped : stops.any (·.accepts t.current) = stops.any (·.accepts s.current) := by
    rw [Bool.eq_iff_iff, List.any_eq_true, List.any_eq_true]
    exact exists_congr fun stop => and_congr_right fun hm => by
      rw [(Token.firm_accepts (hs stop hm)).seen seen]
  rw [stopped, seen.endsExpression, like.aborted.1, like.aborted.2]
  refine tracks_ite Iff.rfl (fun aborted => by cases aborted) fun _ => ?_
  refine tracks_ite Iff.rfl (fun _ => ?_) fun _ => ?_
  · exact tracks_pure fun _ _ here => ⟨same, here.1⟩
  · refine tracks_orReject rfl rfl (fun _ => inferInstance) (fun _ => inferInstance)
      (expressionPart?_tracks nested seen) fun parts parts' => tracks_ends fun hp => ?_
    exact tracks_pure fun _ _ like => ⟨same.append hp, like⟩

theorem readExpression_tracks {stops : List Stop} (hs : ∀ stop ∈ stops, stop.kind = .operator) :
    c.Tracks (c.Like stack) (readExpression nested stops) (readExpression Place.read stops)
      (c.Ends stack fun r r' => c.Parts r.1 r'.1) :=
  (tracks_repeated (expressionPass_ahead nested stops) (expressionPass_ahead Place.read stops)
    (expressionPass_tracks nested hs) ([], none) ([], none)).mono
    (fun _ _ like => ⟨.refl _, like⟩) fun _ _ _ _ ends => ends

end

end Parser

end MapScript
