import MapScript.Proofs.Respelling.Expressions
import MapScript.Proofs.Spelling.Statements

/-!
# Statements of two parsers

The rules of statements, and then whole programs: while the first parser finds no error, the
second reads the same program. A comment that was put in is a statement of its own for the second
parser, which then has one pass more to make than the first.
-/
namespace MapScript

namespace ParserState
variable {s : ParserState}

theorem peek_advance (h : s.current.kind ≠ .endOfFile) (n : Nat) :
    s.advance.peek n = s.peek (n + 1) := by
  unfold peek
  rw [s.rest_advance h, List.getElem?_cons_succ]

theorem current_advance (h : s.current.kind ≠ .endOfFile) : s.advance.current = s.peek 1 :=
  peek_advance h 0

end ParserState

namespace Respelling.Like
variable {c : Respelling} {stack : List Unclosed} {s t : ParserState}

/-- Behind a name the parsers see the same, up to a comment at the end of the line. -/
theorem seen_peek_one (like : c.Like stack s t)
    (hx : s.current.kind = .identifier) : (s.peek 1).Seen c.loose (t.peek 1) := by
  have hxy := like.seen.respelled_of (Token.not_endsLine_of_kind hx (by decide))
  have hy : t.current.kind = .identifier := hxy.kind.trans hx
  have next := like.advance hxy (by rw [hx]; decide)
    fun loose => absurd (hy.symm.trans loose.2) (by decide)
  have seen := next.seen
  rwa [s.current_advance (by rw [hx]; decide), t.current_advance (by rw [hy]; decide)] at seen

theorem beforeName_eq (like : c.Like stack s t)
    (hx : s.current.kind = .identifier) : t.beforeName = s.beforeName := by
  have seen := like.seen_peek_one hx
  have name : Token.Firm (·.kind == .identifier) := .kind (by decide)
  have array : Token.Firm (·.isKeyword "array") := .keyword (by decide)
  unfold ParserState.beforeName
  rw [name.seen seen, array.seen seen]

end Respelling.Like

namespace Parser
open Respelling
variable {c : Respelling} {stack : List Unclosed} {x y : Token}

-- The blocks of the longer rules are too deep for the usual limit on instances.
set_option synthInstance.maxSize 2000

theorem typedName_tracks :
    c.Tracks (c.Like stack) typedName typedName (c.Ends stack Eq) := by
  have named (type : Option String) : c.Tracks (c.Like stack) (do
        let isArray ← eatKeyword "array"
        let name ← name
        return (⟨type, name, isArray⟩ : TypedName)) (do
        let isArray ← eatKeyword "array"
        let name ← name
        return (⟨type, name, isArray⟩ : TypedName)) (c.Ends stack Eq) := by
    refine tracks_eatKeyword (by decide) (by decide) ?_ ?_ <;>
      exact tracks_name fun word => tracks_pure fun _ _ like => ⟨rfl, like⟩
  refine tracks_at fun x y seen => tracks_get ?_
  rintro s t ⟨like, rfl, rfl⟩
  dsimp only
  by_cases hx : s.current.kind = .identifier
  · have hxy := seen.respelled_of (Token.not_endsLine_of_kind hx (by decide))
    have hy : t.current.kind = .identifier := hxy.kind.trans hx
    rw [hx, hy, like.beforeName_eq hx, like.options.1, like.options.2,
      hxy.word_eq (by rw [hx]; decide)]
    refine tracks_ite Iff.rfl (fun _ => ?_) fun _ => (named _).at
    exact tracks_take seen hx (by decide) (openAfter_of_kind hy (by decide)) (named _)
  · have hy : t.current.kind ≠ .identifier := mt (seen.kind_iff (by decide)).mp hx
    rw [beq_false_of_ne hx, beq_false_of_ne hy, Bool.false_and, Bool.false_and]
    exact (named none).at

theorem paramPass_tracks (list list' : List Param) :
    c.Tracks (c.Ends stack Eq list list') (paramPass list) (paramPass list')
      (BothPasses (c.Ends stack Eq) (c.Ends stack Eq)) := by
  refine tracks_ends ?_
  rintro rfl
  refine tracks_isAborted (fun _ _ like => like.aborted) (tracks_current fun x y seen => ?_)
  refine tracks_ite (seen.kind_iff (by decide))
    (fun _ => Tracks.at (tracks_then typedName_tracks ?_)) fun _ => ?_
  · rintro typed _ rfl
    exact tracks_ifOperator (by decide) (by decide) (by decide)
      (tracks_pure fun _ _ like => ⟨rfl, like⟩) (tracks_pure fun _ _ like => ⟨rfl, like⟩)
  · exact tracks_pure fun _ _ here => ⟨rfl, here.1⟩

theorem params_tracks : c.Tracks (c.Like stack) params params (c.Ends stack Eq) :=
  tracks_ifKeyword (by decide) (by decide) (tracks_pure fun _ _ like => ⟨rfl, like⟩)
    ((tracks_repeated paramPass_ahead paramPass_ahead paramPass_tracks [] []).mono
      (fun _ _ like => ⟨rfl, like⟩) fun _ _ _ _ ends => ends)

theorem paramList_tracks : c.Tracks (c.Like stack) paramList paramList (c.Ends stack Eq) := by
  refine tracks_ifEat (.kind (by decide)) (e := .round :: stack)
    (fun t ht => openAfter_leftParen (beq_iff_eq.mp ht)) (tracks_then params_tracks ?_)
    (tracks_ifKeyword (by decide) (by decide) params_tracks
      (tracks_pure fun _ _ like => ⟨rfl, like⟩))
  rintro list _ rfl
  exact tracks_eatOr (.kind (by decide)) (fun t ht => openAfter_rightParen (beq_iff_eq.mp ht))
    (tracks_pure fun _ _ like => ⟨rfl, like⟩)

theorem returnType_tracks : c.Tracks (c.Like stack) returnType returnType (c.Ends stack Eq) := by
  refine tracks_ifKeyword (by decide) (by decide) (tracks_at fun x y seen => tracks_get ?_)
    (tracks_pure fun _ _ like => ⟨rfl, like⟩)
  rintro s t ⟨like, rfl, rfl⟩
  by_cases hx : s.current.kind = .identifier
  · have hxy := seen.respelled_of (Token.not_endsLine_of_kind hx (by decide))
    have hy : t.current.kind = .identifier := hxy.kind.trans hx
    rw [if_pos hx, if_pos hy, like.options.1, like.options.2, hxy.word_eq (by rw [hx]; decide)]
    exact tracks_take seen hx (by decide) (openAfter_of_kind hy (by decide))
      (tracks_pure fun _ _ like => ⟨rfl, like⟩)
  · have hy : t.current.kind ≠ .identifier := mt (seen.kind_iff (by decide)).mp hx
    rw [if_neg hx, if_neg hy]
    exact Tracks.at (tracks_eatKeywordOr (by decide) (by decide)
      (tracks_pure fun _ _ like => ⟨rfl, like⟩))

section
variable (nested : PlaceReader) [read : c.Readers nested]

theorem initializer_tracks : c.Tracks (c.Like stack) (initializer nested)
    (initializer Place.read) (c.Ends stack c.SameNodes) :=
  tracks_ifOperator (by decide) (by decide) (by decide)
    ((expression_tracks nested (by decide)).mono (fun _ _ like => like)
      fun _ _ _ _ ends => ⟨ends.1.same, ends.2⟩)
    (tracks_pure fun _ _ like => ⟨.refl _ _, like⟩)

theorem expressionStatement_tracks (scope : Scope) :
    c.Tracks (c.Like stack) (expressionStatement nested scope)
      (expressionStatement Place.read scope) (c.Ends stack c.SameNodes) := by
  refine tracks_then (expression_tracks nested (by decide)) fun parts parts' same => ?_
  rw [same.isEmpty]
  refine tracks_ite Iff.rfl (fun _ => tracks_expected .expression) fun _ => ?_
  refine tracks_pure fun _ _ like => ⟨?_, like⟩
  exact same.same.map (fun parts => [Node.ofStatementParts scope parts]) (by simp)

theorem afterKeyword_tracks (seen : x.Seen c.loose y) (hx : x.kind = .keyword)
    (unfenced : y.fence? = none) :
    c.Tracks (c.At stack x y) (afterKeyword nested) (afterKeyword Place.read)
      (c.Ends stack c.Parts) :=
  tracks_take seen hx (by decide) (openAfter_of_unfenced unfenced)
    (expression_tracks nested (by decide))

theorem assignment_tracks (seen : x.Seen c.loose y) (hx : x.kind = .keyword)
    (unfenced : y.fence? = none) :
    c.Tracks (c.At stack x y) (assignment nested) (assignment Place.read)
      (c.Ends stack c.SameNodes) := by
  unfold assignment
  rw [← bind_assoc, ← bind_assoc]
  refine tracks_then_of (fun parts => ?_) (fun parts => ?_)
    (afterKeyword_tracks nested seen hx unfenced) fun parts parts' same => ?_
  · split <;> infer_instance
  · split <;> infer_instance
  have found := splitAssignment?_isSome_eq same.looks
  cases hs : splitAssignment? parts with
  | none => exact tracks_expected .equals
  | some split =>
      obtain ⟨target, op, value⟩ := split
      rw [hs, Option.isSome_some, Option.isSome_iff_exists] at found
      obtain ⟨⟨target', op', value'⟩, hs'⟩ := found
      rw [hs']
      refine tracks_pure fun _ _ like => ⟨fun tight none => ?_, like⟩
      have all : parts' = parts := same.same tight (by
        rw [mentionsOf_splitAssignment? hs]
        simpa [Node.mentions] using none)
      rw [all, hs] at hs'
      cases hs'
      rfl

/-- The same node. -/
abbrev SameNode (c : Respelling) (a b : Node) : Prop := c.Same a.mentions a b

variable [∀ place, Evolving (nested place)]

theorem variableDecl_tracks : c.Tracks (c.Like stack) (variableDecl nested)
    (variableDecl Place.read) (c.Ends stack (SameNode c)) := by
  refine tracks_then typedName_tracks ?_
  rintro typed _ rfl
  refine tracks_map (initializer_tracks nested) fun init init' same => ?_
  exact same.map (Node.varDecl typed.name typed.type true typed.isArray) (by simp [Node.mentions])

theorem function_tracks (seen : x.Seen c.loose y) (hx : x.kind = .keyword)
    (fence : y.fence? = some (.opens (.block .function))) :
    c.Tracks (c.At stack x y) (function nested) (function Place.read)
      (c.Ends stack (SameNode c)) := by
  have hxy := seen.respelled_of (Token.not_endsLine_of_kind hx (by decide))
  have closes : ∀ stop ∈ Stop.functionEnd, ∀ c, stop.accepts c → c.ClosesBlock .function :=
    fun _ hs _ hc => Token.closesBlock_of_accepts (by decide) hs hc
  refine tracks_current_at (tracks_take seen hx (by decide)
    (openAfter_opensBlock (hxy.kind.trans hx) fence) (tracks_name fun word => ?_))
  refine tracks_then paramList_tracks ?_
  rintro params _ rfl
  refine tracks_then returnType_tracks ?_
  rintro type _ rfl
  refine tracks_skipToLineEnd (tracks_framed (blockBody_tracks nested rfl openAfter_closesBlock
    closes (by decide) (by decide) _ _ _) fun body body' isAsync same => ?_)
  refine tracks_pure fun _ _ like => ⟨?_, like⟩
  exact same.map (Node.function word params type isAsync) (by simp [Node.mentions])

theorem constant_tracks (seen : x.Seen c.loose y) (hx : x.kind = .keyword)
    (unfenced : y.fence? = none) :
    c.Tracks (c.At stack x y) (constant nested) (constant Place.read)
      (c.Ends stack (SameNode c)) := by
  refine tracks_take seen hx (by decide) (openAfter_of_unfenced unfenced)
    (tracks_current fun z w seen => ?_)
  have isFunction : Token.Firm (·.isKeyword "function") := .keyword (by decide)
  refine tracks_ite (by rw [isFunction.seen seen]) (fun hf => ?_)
    fun _ => Tracks.at (tracks_then typedName_tracks ?_)
  · have hw : w.isKeyword "function" = true := (isFunction.seen seen).trans hf
    exact function_tracks nested seen (Token.fence?_of_isKeyword hf).1
      ((Token.fence?_of_isKeyword hw).2.trans (by decide))
  rintro typed _ rfl
  refine tracks_current fun z w seen => ?_
  rw [(Token.Firm.operator "=").seen seen]
  refine tracks_ite Iff.rfl (fun _ => tracks_expected .equals) fun _ => Tracks.at ?_
  refine tracks_map (initializer_tracks nested) fun init init' same => ?_
  exact same.map (Node.varDecl typed.name typed.type false typed.isArray) (by simp [Node.mentions])

omit [∀ place, Evolving (nested place)] in
theorem operandPass_tracks (operands operands' : List Node) :
    c.Tracks (c.Ends stack c.SameNodes operands operands') (operandPass nested operands)
      (operandPass Place.read operands')
      (BothPasses (c.Ends stack c.SameNodes) (c.Ends stack c.SameNodes)) := by
  refine tracks_ends fun same => tracks_isAborted (fun _ _ like => like.aborted) ?_
  refine tracks_then (expression_tracks nested (by decide)) fun parts parts' hp => ?_
  rw [hp.isEmpty]
  refine tracks_ite Iff.rfl (fun _ => tracks_pure fun _ _ like => ⟨same, like⟩) fun _ => ?_
  have all : c.SameNodes (operands ++ [.ofParts parts]) (operands' ++ [.ofParts parts']) :=
    same.map₂ hp.same (fun operands parts => operands ++ [.ofParts parts]) (by simp)
  exact tracks_ifOperator (by decide) (by decide) (by decide)
    (tracks_pure fun _ _ like => ⟨all, like⟩) (tracks_pure fun _ _ like => ⟨all, like⟩)

theorem instruction_tracks (seen : x.Seen c.loose y) (hx : x.kind = .identifier) :
    c.Tracks (c.At stack x y) (instruction nested) (instruction Place.read)
      (c.Ends stack (SameNode c)) := by
  have hxy := seen.respelled_of (Token.not_endsLine_of_kind hx (by decide))
  refine tracks_current_at (tracks_take seen hx (by decide)
    (openAfter_of_kind (hxy.kind.trans hx) (by decide)) ?_)
  rw [hxy.word_eq (by rw [hx]; decide)]
  have operands : c.Tracks (c.Like stack) (repeated (operandPass nested) [])
      (repeated (operandPass Place.read) []) (c.Ends stack c.SameNodes) :=
    (tracks_repeated (operandPass_ahead nested) (operandPass_ahead Place.read)
      (operandPass_tracks nested) [] []).mono
      (fun _ _ like => ⟨.refl _ _, like⟩) fun _ _ _ _ ends => ends
  refine tracks_map operands fun list list' same => ?_
  exact same.map (Node.instruction (lowerWord x.word)) (by simp [Node.mentions])

omit [∀ place, Evolving (nested place)] in
theorem openBlock_tracks (seen : x.Seen c.loose y) (hx : x.kind = .keyword) {word : BlockWord}
    (fence : y.fence? = some (.opens (.block word))) (scope : Scope) {closers : List Stop}
    (hk : ∀ stop ∈ closers, stop.kind = .keyword) (he : Stop.plainEnd ∈ closers)
    (closes : ∀ stop ∈ closers, ∀ c, stop.accepts c → c.ClosesBlock word) :
    c.Tracks (c.At stack x y) (openBlock nested scope closers)
      (openBlock Place.read scope closers) (c.Ends stack c.SameNodes) := by
  have hxy := seen.respelled_of (Token.not_endsLine_of_kind hx (by decide))
  exact tracks_current_at (tracks_take seen hx (by decide)
    (openAfter_opensBlock (hxy.kind.trans hx) fence)
    (blockBody_tracks nested rfl openAfter_closesBlock closes hk he _ _ scope))

theorem forStmt_tracks (seen : x.Seen c.loose y) (hx : x.kind = .keyword)
    (fence : y.fence? = some (.opens (.block .forStmt))) :
    c.Tracks (c.At stack x y) (forStmt nested) (forStmt Place.read)
      (c.Ends stack (SameNode c)) := by
  have hxy := seen.respelled_of (Token.not_endsLine_of_kind hx (by decide))
  have closes : ∀ stop ∈ Stop.forEnd, ∀ c, stop.accepts c → c.ClosesBlock .forStmt :=
    fun _ hs _ hc => Token.closesBlock_of_accepts (by decide) hs hc
  have bounds (word : String) : c.Tracks (c.Like (entered c.blocks (.block .forStmt) stack)) (do
        let first ← expression nested []
        eatOr .toWord (·.isKeyword "to")
        let last ← expression nested []
        let body ← blockBody nested x.span .block Stop.forEnd
        return Node.forStmt word first last body) (do
        let first ← expression Place.read []
        eatOr .toWord (·.isKeyword "to")
        let last ← expression Place.read []
        let body ← blockBody Place.read y.span .block Stop.forEnd
        return Node.forStmt word first last body) (c.Ends stack (SameNode c)) := by
    refine tracks_then (expression_tracks nested (by decide)) fun first first' hf => ?_
    refine tracks_eatKeywordOr (by decide) (by decide) ?_
    refine tracks_then (expression_tracks nested (by decide)) fun last last' hl => ?_
    refine tracks_map (blockBody_tracks nested rfl openAfter_closesBlock closes (by decide)
      (by decide) _ _ _) fun body body' hb => ?_
    have heads := hf.same.map₂ hl.same (fun first last => Node.forStmt word first last)
      noClosers_append.mp
    exact heads.map₂ hb (fun node body => node body) (by simp [Node.mentions, and_assoc])
  refine tracks_current_at (tracks_take seen hx (by decide)
    (openAfter_opensBlock (hxy.kind.trans hx) fence) (tracks_name fun word => ?_))
  exact tracks_eat (.operator "=")
    (fun _ ht => openAfter_of_isOperator ht (by decide) (by decide) (by decide))
    (bounds word) (bounds word)

theorem struct_tracks (seen : x.Seen c.loose y) (hx : x.kind = .keyword)
    (fence : y.fence? = some (.opens (.block .struct))) :
    c.Tracks (c.At stack x y) (struct nested) (struct Place.read)
      (c.Ends stack (SameNode c)) := by
  have hxy := seen.respelled_of (Token.not_endsLine_of_kind hx (by decide))
  have closes : ∀ stop ∈ Stop.structEnd, ∀ c, stop.accepts c → c.ClosesBlock .struct :=
    fun _ hs _ hc => Token.closesBlock_of_accepts (by decide) hs hc
  refine tracks_current_at (tracks_take seen hx (by decide)
    (openAfter_opensBlock (hxy.kind.trans hx) fence) (tracks_name fun word => ?_))
  refine tracks_skipToLineEnd (tracks_map (blockBody_tracks nested rfl openAfter_closesBlock
    closes (by decide) (by decide) _ _ _) fun body body' same => ?_)
  exact same.map (Node.struct word) (by simp [Node.mentions])

omit [∀ place, Evolving (nested place)] in
/-- What comes after a branch, from the word that ends it. -/
theorem otherwise_tracks {stop stop' : Stop} (hs : stop ∈ Stop.branchEnd)
    (alike : StopLike stop stop') (hxy : x.Respelled y) (accepted : stop.accepts x)
    (span span' : Span) :
    c.Tracks (c.Like (openAfter c.blocks (entered c.blocks (.block .ifStmt) stack) y))
      (otherwise nested (some (stop, span))) (otherwise Place.read (some (stop', span')))
      (c.Ends stack fun a b => c.Same (mentionsOfOption a) a b) := by
  have closes : ∀ stop ∈ Stop.ifEnd, ∀ c, stop.accepts c → c.ClosesBlock .ifStmt :=
    fun _ hs _ hc => Token.closesBlock_of_accepts (by decide) hs hc
  have keywords : ∀ stop ∈ Stop.branchEnd, stop.kind = .keyword := by decide
  have hy : y.kind = .keyword := by
    simp only [Stop.accepts, Bool.and_eq_true, beq_iff_eq] at accepted
    exact hxy.kind.trans (accepted.1.trans (keywords stop hs))
  -- A word that goes on with another branch is never respelled.
  have fence {word : String} (hw : ∀ w ∈ "end" :: ownClosers, sameWord w word = false)
      (h : (Stop.keyword word).accepts x) : y.fence? = wordFence? (lowerWord word) := by
    rw [← Token.fence?_of_accepts h]
    refine hxy.fence?_eq fun closing => ?_
    simp [Stop.accepts, Stop.keyword, hw x.word (List.mem_cons_of_mem _ closing)] at h
  unfold otherwise
  dsimp only
  refine tracks_ite alike.1 (fun first => ?_) fun first => tracks_ite alike.2 (fun second => ?_)
    fun second => ?_
  · rw [first] at accepted
    rw [openAfter_otherwise hy (fence (by decide) accepted)]
    refine tracks_map (blockBody_tracks nested rfl openAfter_closesLast closes (by decide)
      (by decide) _ _ _) fun body body' same => ?_
    exact same.map some (by rw [mentionsOfOption]; exact id)
  · rw [second] at accepted
    rw [openAfter_otherwiseIf hy (fence (by decide) accepted)]
    refine tracks_map (read.condition stack span span') fun r r' same => ?_
    exact same.map some (by rw [mentionsOfOption]; exact id)
  · have last : stop ∈ Stop.ifEnd := by
      simp only [Stop.branchEnd, List.mem_cons, first, second, false_or] at hs
      simpa [Stop.ifEnd] using hs
    rw [openAfter_closesBlock hy (hxy.closesBlock (closes stop last x accepted))]
    exact tracks_pure fun _ _ like => ⟨.refl _ _, like⟩

theorem readCondition_tracks (opener opener' : Span) :
    c.Tracks (c.Like (entered c.blocks (.block .ifStmt) stack)) (readCondition nested opener)
      (readCondition Place.read opener') (c.Ends stack fun r r' => c.SameNodes r.1 r'.1) := by
  refine tracks_then (expression_tracks nested (by decide)) fun test test' ht => ?_
  refine tracks_eatKeywordOr (by decide) (by decide) ?_
  refine tracks_bind (block_tracks nested (read.covered.open_entered rfl) _ _ _ (by decide)
    (by decide)) ?_
  rintro ⟨body, _⟩ ⟨body', _⟩ s t
    ⟨hb, stop, hs, stop', span, span', rfl, rfl, alike, x, y, hxy, accepted, past⟩
  have rest : c.Tracks _ _ _ (c.Ends stack _) :=
    otherwise_tracks nested hs alike hxy accepted span span'
  refine tracks_map rest (fun rest rest' hr => ?_) s t past
  have branch := ht.same.map₂ hb (fun test body => Node.ifStmt test body) noClosers_append.mp
  exact branch.map₂ hr (fun node rest => [node rest]) (by simp [Node.mentions, and_assoc])

theorem wordStatement_tracks (scope : Scope) (seen : x.Seen c.loose y) (hx : x.kind = .keyword)
    {word : StatementWord} (hw : StatementWord.ofWord? y.word = some word) :
    c.Tracks (c.At stack x y) (wordStatement nested scope word)
      (wordStatement Place.read scope word) (c.Ends stack c.SameNodes) := by
  have hxy := seen.respelled_of (Token.not_endsLine_of_kind hx (by decide))
  have fence (he : word ≠ .expression) :=
    Token.fence?_of_statementWord (hxy.kind.trans hx) hw he
  have one {p q : Parser Node} (h : c.Tracks (c.At stack x y) p q (c.Ends stack (SameNode c))) :
      c.Tracks (c.At stack x y) (p >>= fun n => pure [n]) (q >>= fun n => pure [n])
        (c.Ends stack c.SameNodes) :=
    tracks_map h fun a b same => same.map (fun n => [n]) (by simp)
  have whole {p q : Parser (List Node)} {f : List Node → Node}
      (hf : ∀ nodes, (f nodes).mentions = mentionsOf nodes)
      (h : c.Tracks (c.At stack x y) p q (c.Ends stack c.SameNodes)) :
      c.Tracks (c.At stack x y) (p >>= fun nodes => pure [f nodes])
        (q >>= fun nodes => pure [f nodes]) (c.Ends stack c.SameNodes) :=
    tracks_map h fun a b same => same.map (fun nodes => [f nodes]) (by simp [hf])
  have after (unfenced : y.fence? = none) :
      c.Tracks (c.At stack x y) (afterKeyword nested) (afterKeyword Place.read)
        (c.Ends stack c.SameNodes) :=
    (afterKeyword_tracks nested seen hx unfenced).mono (fun _ _ here => here)
      fun _ _ _ _ ends => ⟨ends.1.same, ends.2⟩
  have silent (unfenced : y.fence? = none) : openAfter c.blocks stack y = stack :=
    openAfter_of_unfenced unfenced
  cases word with
  | globals =>
      refine whole (fun nodes => by rw [Node.mentions]) (openBlock_tracks nested seen hx
        (fence (by decide)) _ (by decide) (by decide) fun _ hs _ hc => ?_)
      exact Token.closesBlock_of_accepts (by decide) hs hc
  | function => exact one (function_tracks nested seen hx (fence (by decide)))
  | localDecl =>
      refine tracks_take seen hx (by decide) (silent (fence (by decide)))
        (tracks_map (variableDecl_tracks nested) ?_)
      exact fun a b same => same.map (fun n => [n]) (by simp)
  | constant => exact one (constant_tracks nested seen hx (fence (by decide)))
  | set => exact assignment_tracks nested seen hx (fence (by decide))
  | returnStmt | exitWhen | expect =>
      exact whole (fun nodes => by rw [Node.mentions]) (after (fence (by decide)))
  | ifStmt =>
      refine tracks_current_at (tracks_take seen hx (by decide)
        (openAfter_opensBlock (hxy.kind.trans hx) (fence (by decide))) ?_)
      exact tracks_map (read.condition stack _ _) fun _ _ same => same
  | call =>
      exact tracks_take seen hx (by decide) (silent (fence (by decide)))
        (expressionStatement_tracks nested scope)
  | loop =>
      refine whole mentions_ofLoopBody (openBlock_tracks nested seen hx
        (fence (by decide)) _ (by decide) (by decide) fun _ hs _ hc => ?_)
      exact Token.closesBlock_of_accepts (by decide) hs hc
  | forStmt => exact one (forStmt_tracks nested seen hx (fence (by decide)))
  | struct => exact one (struct_tracks nested seen hx (fence (by decide)))
  | debug =>
      exact tracks_take seen hx (by decide) (silent (fence (by decide)))
        (tracks_pure fun _ _ like => ⟨.refl _ _, like⟩)
  | expression => exact (expressionStatement_tracks nested scope).at

end

/-- The reader reads a place as it is read, or with an error. -/
class Faithful (nested : PlaceReader) : Prop where
  read (place : Place) (s : ParserState) :
    nested place s = place.read s ∨ (nested place s).2.errors ≠ []

instance : Faithful Place.read := ⟨fun _ _ => .inl rfl⟩

/-- A name and a sign are all that is left on the line. Whether a name is an instruction can hang on
the place of the token after a sign. Where that token is a comment for the second parser, the two
may disagree. In either case the statement is the name and the sign, and it is read without
errors. -/
structure SignAtEnd (s : ParserState) : Prop where
  going : s.aborted = false
  name : s.current.kind = .identifier
  operator : (s.peek 1).kind = .operator
  sign : (s.peek 1).word ∈ operandSigns
  ends : (s.peek 2).endsExpression = true

/-- The parsers agree on whether a name is an instruction, or a comment follows a sign. -/
theorem atInstruction_agree {s t : ParserState} (like : c.Like stack s t)
    (hx : s.current.kind = .identifier) :
    t.atInstruction = s.atInstruction ∨ c.loose ∧ SignAtEnd s ∧ SignAtEnd t := by
  have hxy := like.seen.respelled_of (Token.not_endsLine_of_kind hx (by decide))
  have hy : t.current.kind = .identifier := hxy.kind.trans hx
  have next := like.advance hxy (by rw [hx]; decide)
    fun loose => absurd (hy.symm.trans loose.2) (by decide)
  have first : s.advance.current = s.peek 1 := s.current_advance (by rw [hx]; decide)
  have first' : t.advance.current = t.peek 1 := t.current_advance (by rw [hy]; decide)
  unfold ParserState.atInstruction
  dsimp only
  rw [like.options.1, like.options.2, hxy.word_eq (by rw [hx]; decide), hxy.span]
  cases like.seen_peek_one hx with
  | comment _ line comment =>
      left
      rcases line with line | line <;> rw [line, comment]
  | respelled token =>
      rw [token.kind, token.span]
      by_cases hk : (s.peek 1).kind = .operator
      · have hk' : (t.peek 1).kind = .operator := token.kind.trans hk
        have hw : (t.peek 1).word = (s.peek 1).word := token.word_eq (by rw [hk]; decide)
        have hs : s.advance.current.kind ≠ .endOfFile := by rw [first, hk]; decide
        have ht : t.advance.current.kind ≠ .endOfFile := by rw [first', hk']; decide
        have last := (next.advance (by rwa [first, first']) hs
          fun loose => absurd ((first' ▸ hk').symm.trans loose.2) (by decide)).seen
        rw [s.advance.current_advance hs, t.advance.current_advance ht,
          s.peek_advance (by rw [hx]; decide), t.peek_advance (by rw [hy]; decide)] at last
        rw [hk, hw]
        cases last with
        | respelled token => exact .inl (by rw [token.span])
        | comment loose line comment =>
            by_cases sign : (s.peek 1).word ∈ operandSigns
            · refine .inr ⟨loose, ⟨like.aborted.1, hx, hk, sign, ?_⟩,
                ⟨like.aborted.2, hy, hk', hw ▸ sign, ?_⟩⟩
              · rcases line with line | line <;> simp [Token.endsExpression, line]
              · simp [Token.endsExpression, comment]
            · exact .inl (by simp only [sign, decide_false, Bool.false_and])
      · left
        cases hk' : (s.peek 1).kind <;> first | rfl | exact absurd hk' hk

theorem SignAtEnd.current_advance {s : ParserState} (h : SignAtEnd s) :
    s.advance.current = s.peek 1 := s.current_advance (by rw [h.name]; decide)

/-- Past a name and a sign the parsers are together again. -/
theorem like_of_sign {s t : ParserState} (like : c.Like stack s t) (hs : SignAtEnd s)
    (ht : SignAtEnd t) : c.Like stack s.advance.advance t.advance.advance := by
  have hxy := like.seen.respelled_of (Token.not_endsLine_of_kind hs.name (by decide))
  have next := like.advance hxy (by rw [hs.name]; decide)
    fun loose => absurd (ht.name.symm.trans loose.2) (by decide)
  rw [openAfter_of_kind ht.name (by decide)] at next
  have operator : s.advance.current.kind = .operator := by rw [hs.current_advance, hs.operator]
  have operator' : t.advance.current.kind = .operator := by rw [ht.current_advance, ht.operator]
  have hxy' := next.seen.respelled_of (Token.not_endsLine_of_kind operator (by decide))
  have last := next.advance hxy' (by rw [operator]; decide)
    fun loose => absurd (operator'.symm.trans loose.2) (by decide)
  have brackets : t.advance.current.word ≠ "[" ∧ t.advance.current.word ≠ "]" := by
    have sign := ht.sign
    rw [← ht.current_advance] at sign
    constructor <;> intro h <;> rw [h] at sign <;> revert sign <;> decide
  rwa [openAfter_of_operator operator' brackets.1 brackets.2] at last

section
variable {s : ParserState}

theorem isOperator_eq_false_of_sign {t : Token} (h : t.word ∈ operandSigns) (symbol : String)
    (hs : ∀ sign ∈ operandSigns, sameWord sign symbol = false) : t.isOperator symbol = false := by
  rw [Token.isOperator, Token.isA, hs t.word h, Bool.and_false]

theorem link?_of_sign (h : s.current.word ∈ operandSigns) : link? Place.read s = (none, s) := by
  unfold link?
  rw [run_bind, run_eat_not (by
    rw [isOperator_eq_false_of_sign h "." (by decide),
      isOperator_eq_false_of_sign h "->" (by decide)]
    rfl)]
  change (eatOperator "[" >>= fun eaten => if eaten = true then _ else _ : Parser _) s = _
  rw [run_bind, eatOperator, run_eat_not (isOperator_eq_false_of_sign h "[" (by decide))]
  rfl

theorem expressionPass_ends (stops : List Stop) (reading : Reading) (ha : s.aborted = false)
    (he : s.current.endsExpression = true) :
    expressionPass Place.read stops reading s = (.done reading, s) := by
  unfold expressionPass
  rw [run_get_bind, if_neg (by simp [ha]), he, Bool.or_true, if_pos rfl]
  rfl

/-- A sign is an operator by itself. -/
theorem expressionPass_sign {stops : List Stop} (hs : stops ⊆ [.comma]) (reading : Reading)
    (ha : s.aborted = false) (hk : s.current.kind = .operator)
    (hw : s.current.word ∈ operandSigns) :
    expressionPass Place.read stops reading s =
      (.again (reading.1 ++ [.operator s.current.word], none), s.advance) := by
  have unstopped : stops.any (·.accepts s.current) = false := by
    rw [List.any_eq_false]
    intro stop hm
    rw [List.mem_singleton.mp (hs hm)]
    exact Bool.eq_false_iff.mp (isOperator_eq_false_of_sign hw "," (by decide))
  have brackets : s.current.word ≠ "]" ∧ s.current.word ≠ "[" := by
    constructor <;> intro h <;> rw [h] at hw <;> revert hw <;> decide
  have part : expressionPart? Place.read s = (some [.operator s.current.word], s.advance) := by
    unfold expressionPart?
    rw [run_current_bind, hk]
    dsimp only
    unfold operatorPart?
    rw [if_neg brackets.1, if_neg brackets.2]
    rfl
  unfold expressionPass
  rw [run_get_bind, if_neg (by simp [ha]), unstopped,
    if_neg (by simp [Token.endsExpression, hk]), run_bind, part]
  rfl

/-- A name before a sign is an operand by itself. -/
theorem expressionPass_name (reading : Reading) (h : SignAtEnd s) :
    expressionPass Place.read [] reading s =
      (.again (reading.1 ++ [.identifier s.current.word], none), s.advance) := by
  have readable : s.current.kind ≠ .endOfFile := by rw [h.name]; decide
  have next : s.advance.current = s.peek 1 := s.current_advance readable
  have going : s.advance.aborted = false := s.aborted_advance.trans h.going
  have unlinked : link? Place.read s.advance = (none, s.advance) :=
    link?_of_sign (by rw [next]; exact h.sign)
  have chain : repeated (chainPass Place.read) [] s.advance = ([], s.advance) := by
    refine repeated_of_done ?_
    unfold chainPass
    rw [run_isAborted going, run_bind, unlinked]
    rfl
  have tail : operandTail Place.read (.identifier s.current.word) s.advance =
      ([.identifier s.current.word], s.advance) := by
    refine repeated_of_done ?_
    unfold postfixPass
    rw [run_isAborted going, run_current_bind, if_neg (by rw [next, h.operator]; decide),
      run_bind, unlinked]
    rfl
  have part : expressionPart? Place.read s = (some [.identifier s.current.word], s.advance) := by
    unfold expressionPart?
    rw [run_current_bind, h.name]
    change (reference Place.read >>= fun parts => pure (some parts)) s = _
    have run : reference Place.read s = ([.identifier s.current.word], s.advance) := by
      change (repeated (chainPass Place.read) [] >>= fun chain =>
        operandTail Place.read (.ofChain s.current.word chain)) s.advance = _
      rw [run_bind, chain]
      exact tail
    rw [run_bind, run]
    rfl
  unfold expressionPass
  rw [run_get_bind, if_neg (by simp [h.going]), if_neg (by simp [Token.endsExpression, h.name]),
    run_bind, part]
  rfl

theorem readExpression_sign {stops : List Stop} (hs : stops ⊆ [.comma]) (reading : Reading)
    (ha : s.aborted = false) (hk : s.current.kind = .operator)
    (hw : s.current.word ∈ operandSigns) (he : (s.peek 1).endsExpression = true) :
    repeated (expressionPass Place.read stops) reading s =
      ((reading.1 ++ [.operator s.current.word], none), s.advance) := by
  have readable : s.current.kind ≠ .endOfFile := by rw [hk]; decide
  rw [repeated_of_again (expressionPass_sign hs reading ha hk hw) (s.length_rest_advance readable)]
  refine repeated_of_done (expressionPass_ends stops _ (s.aborted_advance.trans ha) ?_)
  rwa [s.current_advance readable]

variable (nested : PlaceReader)

/-- A name and a sign at the end of the line are a statement of one form or the other, if the
reader reads the expression in it as it is read. -/
theorem nameStatement_sign (scope : Scope) (h : SignAtEnd s)
    (operand : s.atInstruction = true →
      expression nested [.comma] s.advance = expression Place.read [.comma] s.advance)
    (whole : s.atInstruction = false → expression nested [] s = expression Place.read [] s) :
    (nameStatement nested scope s).2 = s.advance.advance := by
  have readable : s.current.kind ≠ .endOfFile := by rw [h.name]; decide
  have next : s.advance.current = s.peek 1 := s.current_advance readable
  have readable' : s.advance.current.kind ≠ .endOfFile := by rw [next, h.operator]; decide
  have last : s.advance.advance.current = s.peek 2 := by
    rw [s.advance.current_advance readable', s.peek_advance readable]
  have going : s.advance.aborted = false := s.aborted_advance.trans h.going
  have sign {stops : List Stop} (hs : stops ⊆ [.comma]) (reading : Reading) :=
    readExpression_sign hs reading going (by rw [next, h.operator]) (by rw [next]; exact h.sign)
      (by rw [s.peek_advance readable]; exact h.ends)
  have run {stops : List Stop} {t : ParserState} : expression Place.read stops t =
      ((repeated (expressionPass Place.read stops) ([], none) t).1.1,
        (repeated (expressionPass Place.read stops) ([], none) t).2) := by
    change (((Place.expression stops).read t).1.1, ((Place.expression stops).read t).2) = _
    rw [Place.read_eq]
    rfl
  unfold nameStatement
  rw [run_get_bind]
  cases hi : s.atInstruction with
  | true =>
      have pass : operandPass nested [] s.advance =
          (.done [.ofParts [.operator s.advance.current.word]], s.advance.advance) := by
        have notComma : (s.peek 2).isOperator "," = false := by
          have notOperator : (s.peek 2).kind ≠ .operator := by
            intro hk
            have ends := h.ends
            simp [Token.endsExpression, hk] at ends
          simp [Token.isOperator, Token.isA, notOperator]
        unfold operandPass
        rw [run_isAborted going, run_bind, operand hi, run, sign (fun _ => id)]
        change (eatOperator "," >>= fun eaten => if eaten = true then _ else _ : Parser _)
          s.advance.advance = _
        rw [run_bind, eatOperator, run_eat_not (by rw [last, notComma])]
        rfl
      change (repeated (operandPass nested) [] s.advance).2 = _
      rw [repeated_of_done pass]
  | false =>
      have unnamed : s.beforeName = false := by
        simp [ParserState.beforeName, h.operator, Token.isKeyword, Token.isA]
      rw [unnamed]
      change (expressionStatement nested scope s).2 = _
      unfold expressionStatement
      rw [run_bind, whole hi, run, repeated_of_again (expressionPass_name _ h)
        (s.length_rest_advance readable), sign (List.nil_subset _)]
      rfl

variable [faithful : Faithful nested]

theorem run_expression {stops : List Stop} (clean : (expression nested stops s).2.errors = []) :
    expression nested stops s = expression Place.read stops s := by
  have same := (faithful.read (.expression stops) s).resolve_right fun failed => failed clean
  change ((nested (.expression stops) s).1.1, (nested (.expression stops) s).2) = _
  rw [same]
  rfl

/-- The same without errors, for any reader that reads with errors what it does not read. -/
theorem nameStatement_sign_of_clean [∀ place, Evolving (nested place)] (scope : Scope)
    (h : SignAtEnd s) (clean : (nameStatement nested scope s).2.errors = []) :
    (nameStatement nested scope s).2 = s.advance.advance := by
  have before {α β : Type} {p : Parser α} {k : α → Parser β} {t : ParserState}
      [∀ a, Evolving (k a)] (clean : ((p >>= k) t).2.errors = []) : (p t).2.errors = [] :=
    errors_kept (p t).1 (p t).2 clean
  unfold nameStatement at clean
  rw [run_get_bind] at clean
  refine nameStatement_sign nested scope h (fun hi => ?_) fun hi => ?_
  · rw [if_pos hi] at clean
    change (repeated (operandPass nested) [] s.advance).2.errors = [] at clean
    have pass := (evolves_repeated (operandPass nested) [] s.advance).errors_eq_nil clean
    unfold operandPass at pass
    rw [run_isAborted (s.aborted_advance.trans h.going)] at pass
    exact run_expression nested (before pass)
  · have unnamed : s.beforeName = false := by
      simp [ParserState.beforeName, h.operator, Token.isKeyword, Token.isA]
    rw [hi, unnamed] at clean
    change (expressionStatement nested scope s).2.errors = [] at clean
    unfold expressionStatement at clean
    exact run_expression nested (before clean)

end

section
variable (nested : PlaceReader) [read : c.Readers nested] [Faithful nested]
  [∀ place, Evolving (nested place)]

theorem nameStatement_tracks (scope : Scope) (hx : x.kind = .identifier) :
    c.Tracks (c.At stack x y) (nameStatement nested scope) (nameStatement Place.read scope)
      (c.Ends stack c.SameNodes) := by
  rintro s t ⟨like, rfl, rfl⟩
  have hxy := like.seen.respelled_of (Token.not_endsLine_of_kind hx (by decide))
  rcases atInstruction_agree like hx with same | ⟨loose, sign, sign'⟩
  · have rules : c.Tracks (c.At stack s.current t.current)
        (if s.atInstruction then (instruction nested >>= fun n => pure [n])
          else if s.beforeName then (variableDecl nested >>= fun n => pure [n])
          else expressionStatement nested scope)
        (if t.atInstruction then (instruction Place.read >>= fun n => pure [n])
          else if t.beforeName then (variableDecl Place.read >>= fun n => pure [n])
          else expressionStatement Place.read scope) (c.Ends stack c.SameNodes) := by
      rw [same, like.beforeName_eq hx]
      refine tracks_ite Iff.rfl (fun _ => ?_) fun _ => tracks_ite Iff.rfl (fun _ => ?_) fun _ => ?_
      · exact tracks_map (instruction_tracks nested like.seen hx) fun a b same =>
          same.map (fun n => [n]) (by simp)
      · exact Tracks.at (tracks_map (variableDecl_tracks nested) fun a b same =>
          same.map (fun n => [n]) (by simp))
      · exact (expressionStatement_tracks nested scope).at
    exact rules s t ⟨like, rfl, rfl⟩
  · by_cases clean : (nameStatement nested scope s).2.errors = []
    · have ends := nameStatement_sign_of_clean nested scope sign clean
      have ends' : (nameStatement Place.read scope t).2 = t.advance.advance :=
        nameStatement_sign Place.read scope sign' (fun _ => rfl) fun _ => rfl
      refine .inl ⟨fun tight => absurd loose tight, ?_⟩
      rw [ends, ends']
      exact like_of_sign like sign sign'
    · exact .inr (.inl clean)

theorem statement?_tracks (ho : c.Open stack) (scope : Scope) (hxy : x.Respelled y) :
    c.Tracks (c.At stack x y) (statement? nested scope) (statement? Place.read scope)
      (Found (c.Ends stack c.SameNodes)) := by
  have seen : x.Seen c.loose y := .respelled hxy
  have found {p q : Parser (List Node)}
      (h : c.Tracks (c.At stack x y) p q (c.Ends stack c.SameNodes)) :
      c.Tracks (c.At stack x y) (p >>= fun nodes => pure (some nodes))
        (q >>= fun nodes => pure (some nodes)) (Found (c.Ends stack c.SameNodes)) :=
    fun s t here => h s t here
  refine tracks_current_at ?_
  rw [hxy.kind]
  cases hk : x.kind with
  | keyword =>
      refine tracks_note ?_
      cases hw : StatementWord.ofWord? x.word with
      | none => exact tracks_none
      | some word =>
          have same : y.word = x.word := hxy.word_eq_of_notMem fun closing => by
            rw [(Token.ofWord?_of_mem_ownClosers (List.mem_cons_of_mem _ closing)).2] at hw
            cases hw
          rw [same, hw]
          exact found (wordStatement_tracks nested scope seen hk (same ▸ hw))
  | comment =>
      rintro s t ⟨like, rfl, rfl⟩
      have next := like.advance hxy (by rw [hk]; decide) (like.inBracket_eq_false ho)
      rw [openAfter_of_kind (hxy.kind.trans hk) (by decide)] at next
      refine .inl ⟨?_, next⟩
      rw [hxy.word_eq (by rw [hk]; decide)]
      exact .refl _ _
  | identifier => exact found (nameStatement_tracks nested scope hk)
  | number | string | operator | leftParen | leftBrace =>
      exact found (expressionStatement_tracks nested scope).at
  | _ => exact tracks_none

/-- Stops that both parsers find: `end` is one of them if any keyword is. -/
def StopsTogether (stops : List Stop) : Prop :=
  (∀ stop ∈ stops, stop.kind ≠ .comment) ∧
    (Stop.plainEnd ∈ stops ∨ ∀ stop ∈ stops, stop.kind ≠ .keyword)

omit read [Faithful nested] [∀ place, Evolving (nested place)] in
theorem find?_together {stops : List Stop} (hs : StopsTogether stops) (hxy : x.Respelled y)
    {stop : Stop} (h : stops.find? (·.accepts x) = some stop) :
    ∃ stop', stops.find? (·.accepts y) = some stop' ∧ StopLike stop stop' := by
  rcases hxy.word with same | ⟨hk, closing, hy⟩
  · have accepts (stop : Stop) : stop.accepts y = stop.accepts x := by
      rw [Stop.accepts, Stop.accepts, hxy.kind, same]
    exact ⟨stop, by simpa only [accepts] using h, Iff.rfl, Iff.rfl⟩
  · have accepted := List.find?_some h
    have keyword : stop.kind = .keyword := by
      simp only [Stop.accepts, Bool.and_eq_true, beq_iff_eq] at accepted
      exact accepted.1.symm.trans hk
    have mem : Stop.plainEnd ∈ stops :=
      hs.2.resolve_right fun none => none stop (List.mem_of_find?_eq_some h) keyword
    have ends : Stop.plainEnd.accepts y = true := by
      rw [Stop.accepts, hxy.kind, hk, hy]
      decide
    obtain ⟨stop', found⟩ := Option.isSome_iff_exists.mp
      (List.find?_isSome.mpr ⟨_, mem, ends⟩ : (stops.find? (·.accepts y)).isSome)
    have accepted' := List.find?_some found
    -- Neither word is the beginning of another branch.
    have branch {word : String} (hw : ∀ w ∈ "end" :: ownClosers, sameWord w word = false) :
        (Stop.keyword word).accepts x = false ∧ (Stop.keyword word).accepts y = false := by
      simp [Stop.accepts, Stop.keyword, hy, hw x.word (List.mem_cons_of_mem _ closing),
        hw "end" List.mem_cons_self]
    have never {word : String} (hw : ∀ w ∈ "end" :: ownClosers, sameWord w word = false) :
        stop' = Stop.keyword word ↔ stop = Stop.keyword word := by
      refine ⟨fun same => ?_, fun same => ?_⟩
      · rw [same, (branch hw).2] at accepted'
        cases accepted'
      · rw [same, (branch hw).1] at accepted
        cases accepted
    exact ⟨stop', found, never (by decide), never (by decide)⟩

theorem statementPass_tracks (ho : c.Open stack) (scope : Scope) {stops : List Stop}
    (hs : StopsTogether stops) (hxy : x.Respelled y) {reading reading' : Reading}
    (same : c.SameNodes reading.1 reading'.1) :
    c.Tracks (c.At stack x y) (statementPass nested scope stops reading)
      (statementPass Place.read scope stops reading')
      (BothPasses (c.Ends stack fun r r' => c.SameNodes r.1 r'.1)
        (c.StatementsEnd stack stops)) := by
  refine tracks_get ?_
  rintro s t ⟨like, rfl, rfl⟩
  rw [like.aborted.1, like.aborted.2]
  refine tracks_ite Iff.rfl (fun aborted => by cases aborted) fun _ => ?_
  cases find : stops.find? (·.accepts s.current) with
  | some stop =>
      obtain ⟨stop', find', alike⟩ := find?_together hs hxy find
      rw [find']
      refine tracks_pure ?_
      rintro s' t' ⟨like, hs', ht'⟩
      refine ⟨like, same, by rwa [hs', ht'], stop, List.mem_of_find?_eq_some find, stop', rfl, rfl,
        ?_, alike⟩
      have accepted := List.find?_some find
      rwa [hs']
  | none =>
      dsimp only
      rcases hxy.word with word | ⟨hk, closing, -⟩
      · have find' : stops.find? (·.accepts t.current) = none := by
          have accepts (stop : Stop) : stop.accepts t.current = stop.accepts s.current := by
            rw [Stop.accepts, Stop.accepts, hxy.kind, word]
          simpa only [accepts] using find
        rw [find', hxy.kind]
        cases hk : s.current.kind with
        | endOfLine =>
            have hy : t.current.kind = .endOfLine := hxy.kind.trans hk
            exact tracks_advance hxy (by rw [hk]; decide)
              (fun loose => absurd (hy.symm.trans loose.2) (by decide))
              (openAfter_of_kind hy (by decide)) (tracks_pure fun _ _ like => ⟨same, like⟩)
        | endOfFile => exact tracks_of_errors fun _ => errors_record_ne_nil _ _
        | _ =>
            refine tracks_orReject rfl rfl (fun _ => inferInstance) (fun _ => inferInstance)
              (statement?_tracks nested ho scope hxy) fun nodes nodes' => tracks_ends fun hn => ?_
            exact tracks_pure fun _ _ like => ⟨same.map₂ hn (· ++ ·) (by simp), like⟩
      · -- The word closes no block here, and the first parser has to skip it.
        rw [hk]
        rintro s' t' ⟨-, hs', -⟩
        have unknown : statement? nested scope s' =
            (none, s'.note (.statement s.current.word)) := by
          unfold statement?
          rw [run_current_bind, hs', hk]
          dsimp only
          rw [(Token.ofWord?_of_mem_ownClosers (List.mem_cons_of_mem _ closing)).2]
          rfl
        refine .inr (.inl ?_)
        dsimp only
        rw [run_bind, unknown]
        exact errors_reject_ne_nil _

omit read [Faithful nested] [∀ place, Evolving (nested place)] in
/-- A comment is a statement of its own. -/
theorem statementPass_comment (scope : Scope) {stops : List Stop}
    (hs : ∀ stop ∈ stops, stop.kind ≠ .comment) (reading : Reading) {t : ParserState}
    (ha : t.aborted = false) (hk : t.current.kind = .comment) :
    statementPass Place.read scope stops reading t =
      (.again (reading.1 ++ [.comment t.current.word], none), t.advance) := by
  have find : stops.find? (·.accepts t.current) = none := by
    rw [List.find?_eq_none]
    intro stop hm accepted
    simp only [Stop.accepts, Bool.and_eq_true, beq_iff_eq] at accepted
    exact hs stop hm (accepted.1.symm.trans hk)
  have found : statement? Place.read scope t = (some [.comment t.current.word], t.advance) := by
    unfold statement?
    rw [run_current_bind, hk]
    rfl
  unfold statementPass
  rw [run_get_bind, if_neg (by simp [ha]), find, hk]
  dsimp only
  rw [run_bind, found]
  rfl

/-- The second parser makes a pass more for each comment that was put in. -/
theorem readStatements_tracks [Thorough nested] (ho : c.Open stack) (scope : Scope)
    {stops : List Stop} (hs : StopsTogether stops) :
    c.Tracks (c.Like stack) (readStatements nested scope stops)
      (readStatements Place.read scope stops) (c.StatementsEnd stack stops) := by
  refine (tracks_repeated_of (statementPass_ahead nested scope stops)
    (statementPass_ahead Place.read scope stops)
    (I := c.Ends stack fun r r' => c.SameNodes r.1 r'.1) (fun r r' s t ends => ?_)
    ([], none) ([], none)).mono (fun _ _ like => ⟨.refl _ _, like⟩) fun _ _ _ _ ends => ends
  obtain ⟨same, like⟩ := ends
  cases like.seen with
  | respelled hxy =>
      exact .inr (statementPass_tracks nested ho scope hs hxy same s t ⟨like, rfl, rfl⟩)
  | comment loose line comment =>
      rw [statementPass_comment scope hs.1 r' like.aborted.2 comment]
      refine .inl ⟨_, rfl, fun tight => absurd loose tight, ?_⟩
      exact like.advance_right line comment (like.inBracket_eq_false ho)

end

end Parser

namespace Respelling
variable {c : Respelling}

instance (n : Nat) : Parser.Faithful (Place.readOrFail n) where
  read place s := by
    unfold Place.readOrFail
    split
    · exact .inl rfl
    · exact .inr (Parser.errors_record_ne_nil _ _)

/-- Places are read together, those inside them first. -/
theorem readers (hc : c.Covered) (n : Nat) : c.Readers (Place.readOrFail n) := by
  induction n using Nat.strongRecOn with
  | ind n ih =>
      have reads {place place' : Place} {P : ParserState → ParserState → Prop}
          {Q : Reading → Reading → ParserState → ParserState → Prop}
          (h : ∀ m, c.Readers (Place.readOrFail m) →
            c.Tracks P (place.plain (Place.readOrFail m)) (place'.plain Place.read) Q) :
          c.Tracks P (Place.readOrFail n place) place'.read Q := by
        intro s t start
        unfold Place.readOrFail
        by_cases lt : place.weight s < n
        · rw [if_pos lt, place.read_eq_readOrFail, place'.read_eq]
          exact h _ (ih _ lt) s t start
        · rw [if_neg lt]
          exact .inr (.inl (Parser.errors_record_ne_nil _ _))
      refine ⟨hc, fun stack stops hs => ?_, fun {stack} ho scope stops hs he => ?_,
        fun stack opener opener' => ?_⟩
      · exact reads fun m readers => Parser.readExpression_tracks (Place.readOrFail m) hs
      · refine reads fun m readers =>
          Parser.readStatements_tracks (Place.readOrFail m) ho scope ⟨fun stop hm => ?_, .inl he⟩
        rw [hs stop hm]
        decide
      · exact reads fun m readers =>
          Parser.readCondition_tracks (Place.readOrFail m) opener opener'

/-- A program is read together, from where both parsers begin. -/
theorem readProgram_tracks (hc : c.Covered) :
    c.Tracks (c.Like []) (Place.statements .block [.endOfFile]).read
      (Place.statements .block [.endOfFile]).read (c.StatementsEnd [] [.endOfFile]) := by
  intro s t like
  have := readers hc ((Place.statements .block [.endOfFile]).weight s)
  rw [Place.read_eq_readOrFail, Place.read_eq _ t]
  exact Parser.readStatements_tracks (Place.readOrFail _) (.inl rfl) .block
    ⟨by decide, .inr (by decide)⟩ s t like

/-- Both parsers are at the beginning. -/
theorem like_start {xs : List Token} (h : Woven c.loose xs c.tokens) :
    c.Like [] (.start c.options xs) (.start c.options c.tokens) where
  rest := h
  ahead := List.suffix_rfl
  options := ⟨rfl, rfl⟩
  frames := rfl
  errors := ⟨rfl, rfl⟩
  aborted := ⟨rfl, rfl⟩
  behind := ⟨[], rfl, fun _ hx => absurd hx List.not_mem_nil⟩

end Respelling

/-- What becomes of a program without errors when its tokens are respelled. There may be an error,
but then a comment was put in between brackets. Otherwise there is none, and the parsers are
together when they come to an end of file. -/
theorem parse_respelled {c : Respelling} {xs ys : List Token} (hy : terminated ys = c.tokens)
    (h : Woven c.loose (terminated xs) c.tokens) (hc : c.Covered)
    (clean : (parse c.options xs).errors = []) :
    (parse c.options ys).errors ≠ [] ∧ ¬ c.Quiet ∨
      (∃ body, c.SameNodes (parse c.options xs).tree.body body ∧
        parse c.options ys = ⟨⟨body, (parse c.options xs).tree.isAsync⟩, [], false⟩) ∧
      ∃ s t, c.Like [] s t ∧ Evolves (.start c.options c.tokens) t ∧
        t.current.kind = .endOfFile := by
  have tracks := Respelling.readProgram_tracks hc _ _ (Respelling.like_start h)
  have evolves := Evolving.evolves (p := (Place.statements .block [.endOfFile]).read)
    (.start c.options c.tokens)
  rcases run : (Place.statements .block [.endOfFile]).read (.start c.options (terminated xs))
    with ⟨⟨body, stop⟩, s⟩
  rcases run' : (Place.statements .block [.endOfFile]).read (.start c.options c.tokens)
    with ⟨⟨body', stop'⟩, t⟩
  rw [run, run'] at tracks
  rw [run'] at evolves
  rw [parse_eq c.options xs run] at clean ⊢
  rw [parse_eq c.options ys (hy ▸ run')]
  rcases tracks with ⟨like, same, token, stop, hm, -, -, -, accepted, -⟩ | failed | ⟨errors, noisy⟩
  · have ended : t.current.kind = .endOfFile := by
      rw [List.mem_singleton.mp hm] at accepted
      rw [token.kind]
      simpa [Stop.accepts, Stop.endOfFile] using accepted
    refine .inr ⟨⟨body', same, ?_⟩, s, t, like, evolves, ended⟩
    have errors := like.errors.2
    have aborted := like.aborted.2
    have frames := like.frames
    dsimp only at errors aborted frames
    rw [errors, aborted, ParserState.isAsync, frames]
    rfl
  · exact absurd clean failed
  · exact .inl ⟨errors, noisy⟩

end MapScript
