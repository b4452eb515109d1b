import MapScript.Proofs.Lexing
import MapScript.Proofs.Shape

/-!
# What waits

A function, a `do` block and the program itself are asynchronous when something inside waits: a
call that is awaited, or the operator `await` where there is no call to mark. What waits inside a
nested function or `do` block counts there and not further out.

The parser learns this on the way, in a stack of frames that says nothing of the nodes, and the
nodes travel through accumulators, callees, arguments and statements until they find their place.
The two are tied together by following the nodes that are collected since the innermost frame was
opened: the frame says at every moment whether one of them waits.
-/
namespace MapScript

namespace Node

/-- The node itself waits. -/
def isWait : Node → Bool
  | .call _ isAsync _ => isAsync
  | .operator symbol => symbol == "await"
  | _ => false

/-- What is inside waits for itself. -/
def opensFrame : Node → Bool
  | .function _ _ _ _ _ | .doBlock _ _ => true
  | _ => false

/-- The node waits, or something inside does that is in no frame of its own. -/
def waits (n : Node) : Bool :=
  n.isWait || (!n.opensFrame && n.children.attach.any fun m => m.1.waits)
termination_by sizeOf n
decreasing_by exact sizeOf_lt_of_mem_children m.2

theorem waits_eq (n : Node) :
    n.waits = (n.isWait || (!n.opensFrame && n.children.any waits)) := by
  rw [waits]
  simp

/-- A function or `do` block is asynchronous exactly if something waits in its body. -/
def FlagExact : Node → Prop
  | .function _ _ _ isAsync body => isAsync = body.any waits
  | .doBlock isAsync body => isAsync = body.any waits
  | _ => True

/-- A node that has no part in the waiting but to hold other nodes. -/
theorem waits_of_plain {n : Node} (hw : n.isWait = false) (ho : n.opensFrame = false) :
    n.waits = n.children.any waits := by
  rw [waits_eq, hw, ho]
  rfl

theorem flagExact_of_plain {n : Node} (ho : n.opensFrame = false) : n.FlagExact := by
  cases n with
  | function _ _ _ _ _ | doBlock _ _ => cases ho
  | _ => trivial

end Node

/-- The nodes before, put together in another way: as much waits as before, and flags stay
exact. -/
structure Regroups (before after : List Node) : Prop where
  waits : after.any Node.waits = before.any Node.waits
  flags : Everywhere Node.FlagExact before → Everywhere Node.FlagExact after

namespace Regroups
variable {before after : List Node}

theorem refl (nodes : List Node) : Regroups nodes nodes := ⟨rfl, id⟩

theorem of_eq (h : before = after) : Regroups before after := h ▸ refl before

theorem trans {last : List Node} (h : Regroups before after) (h' : Regroups after last) :
    Regroups before last :=
  ⟨h'.waits.trans h.waits, fun hb => h'.flags (h.flags hb)⟩

theorem append {before' after' : List Node} (h : Regroups before after)
    (h' : Regroups before' after') : Regroups (before ++ before') (after ++ after') where
  waits := by rw [List.any_append, List.any_append, h.waits, h'.waits]
  flags hb := everywhere_append.mpr
    ⟨h.flags (everywhere_append.mp hb).1, h'.flags (everywhere_append.mp hb).2⟩

/-- A plain node stands for the nodes that it holds. -/
theorem node (n : Node) (hw : n.isWait = false) (ho : n.opensFrame = false) :
    Regroups n.children [n] where
  waits := by rw [List.any_cons, List.any_nil, Bool.or_false, Node.waits_of_plain hw ho]
  flags hb := everywhere_cons.mpr ⟨⟨Node.flagExact_of_plain ho, hb⟩, everywhere_nil⟩

/-- A function or `do` block with the right flag; what is inside counts there. -/
theorem frame {n : Node} (ho : n.opensFrame) (hw : n.isWait = false) (hf : n.FlagExact)
    (hc : Everywhere Node.FlagExact n.children) : Regroups [] [n] where
  waits := by rw [List.any_cons, Node.waits_eq, ho, hw]; rfl
  flags _ := everywhere_cons.mpr ⟨⟨hf, hc⟩, everywhere_nil⟩

/-- A plain node that is left out leaves its children. -/
theorem unwrap (n : Node) (hw : n.isWait = false) (ho : n.opensFrame = false) :
    Regroups [n] n.children where
  waits := by rw [List.any_cons, List.any_nil, Bool.or_false, Node.waits_of_plain hw ho]
  flags hb := (everywhere_cons.mp hb).1.2

end Regroups

theorem regroups_ofParts (parts : List Node) : Regroups parts [.ofParts parts] := by
  unfold Node.ofParts
  split
  · exact .refl _
  · exact .node (.expr parts) rfl rfl

theorem regroups_addArgument (args parts : List Node) :
    Regroups (args ++ parts) (addArgument args parts) := by
  unfold addArgument
  split
  · have hp : parts = [] := by simpa using ‹parts.isEmpty = true›
    rw [hp, List.append_nil]
    exact .refl args
  · exact .append (.refl args) (regroups_ofParts parts)

theorem regroups_ofChain (name : String) (chain : List Node) :
    Regroups chain [.ofChain name chain] := by
  unfold Node.ofChain
  split
  · exact .node (.identifier name) rfl rfl
  · exact .node (.member name chain) rfl rfl

/-- The operator is there, or the call is marked in its place. -/
theorem regroups_awaited (parts : List Node) :
    Regroups (.operator "await" :: parts) (awaited parts) := by
  unfold awaited
  split
  · refine ⟨by simp [Node.waits_eq, Node.isWait], fun h => ?_⟩
    have hc := (everywhere_cons.mp (everywhere_cons.mp h).2).1.2
    exact everywhere_cons.mpr ⟨⟨trivial, hc⟩, everywhere_nil⟩
  · exact .refl _

theorem isWait_operator {symbol : String} (h : symbol ≠ "await") :
    (Node.operator symbol).isWait = false := by
  simpa [Node.isWait] using h

theorem ExpressionWord.ne_await {word : String} (h : ofWord? word = some .operator) :
    word ≠ "await" := by
  rintro rfl
  cases h

theorem regroups_splitAssignment? {parts target value : List Node} {op : String}
    (h : splitAssignment? parts = some (target, op, value)) :
    Regroups parts (target ++ value) := by
  obtain ⟨rfl, ho⟩ := splitAssignment?_eq_some h
  have hw : op ≠ "await" := by
    rintro rfl
    simp [assignmentOperators] at ho
  exact .append (.refl target)
    (.append (.unwrap (.operator op) (isWait_operator hw) rfl) (.refl value))

theorem regroups_ofAssignment (scope : Scope) (target : List Node) (op : String)
    (value : List Node) : Regroups (target ++ value) [.ofAssignment scope target op value] := by
  have assign : Regroups (target ++ value) [.assign target op value] :=
    .node (.assign target op value) rfl rfl
  unfold Node.ofAssignment
  split
  · rename_i name
    split
    · exact .append (.unwrap (.identifier name) rfl rfl) (.node (.bareVariable name value) rfl rfl)
    · exact assign
  · exact assign

theorem regroups_ofExpression (scope : Scope) (parts : List Node) :
    Regroups parts [.ofExpression scope parts] := by
  have expression : Regroups parts [.exprStmt parts] := .node (.exprStmt parts) rfl rfl
  unfold Node.ofExpression
  split
  · rename_i name
    split
    · exact .trans (.unwrap (.identifier name) rfl rfl) (.node (.bareVariable name []) rfl rfl)
    · exact expression
  · exact .refl _
  · exact .refl _
  · exact expression

theorem regroups_ofStatementParts (scope : Scope) (parts : List Node) :
    Regroups parts [.ofStatementParts scope parts] := by
  unfold Node.ofStatementParts
  split
  · exact (regroups_splitAssignment? ‹_›).trans (regroups_ofAssignment scope _ _ _)
  · exact regroups_ofExpression scope parts

theorem regroups_ofLoopBody (body : List Node) : Regroups body [.ofLoopBody body] := by
  unfold Node.ofLoopBody
  split
  · rename_i condition body
    refine .trans ?_ (.node (.loop (some condition) body) rfl rfl)
    exact .append (.unwrap (.exitWhen condition) rfl rfl) (.refl body)
  · exact .node (.loop none body) rfl rfl

/-- The parser leaves the frames as they are. -/
class KeepsFrames {α : Type} (p : Parser α) : Prop where
  frames (s : ParserState) : (p s).2.frames = s.frames

namespace Parser
variable {α β : Type}

instance (a : α) : KeepsFrames (pure a : Parser α) := ⟨fun _ => rfl⟩

instance (p : Parser α) (f : α → Parser β) [hp : KeepsFrames p] [hf : ∀ a, KeepsFrames (f a)] :
    KeepsFrames (p >>= f) :=
  ⟨fun s => ((hf _).frames _).trans (hp.frames s)⟩

instance (c : Prop) [Decidable c] (p q : Parser α) [hp : KeepsFrames p] [hq : KeepsFrames q] :
    KeepsFrames (if c then p else q) := by
  split
  · exact hp
  · exact hq

instance : KeepsFrames (get : Parser ParserState) := ⟨fun _ => rfl⟩
instance : KeepsFrames current := ⟨fun _ => rfl⟩
instance : KeepsFrames isAborted := ⟨fun _ => rfl⟩
instance : KeepsFrames advance := ⟨fun s => s.frames_advance⟩
instance : KeepsFrames skipLineEnds := ⟨fun _ => rfl⟩
instance : KeepsFrames reject := ⟨fun s => s.frames_reject⟩
instance (wanted : Expectation) : KeepsFrames (expected wanted) :=
  ⟨fun s => s.frames_record _⟩
instance (event : ParseEvent) : KeepsFrames (modify (ParserState.note event) : Parser Unit) :=
  ⟨fun _ => rfl⟩

instance (p : Token → Bool) : KeepsFrames (eat p) := by unfold eat; infer_instance
instance (kind : TokenKind) : KeepsFrames (eatKind kind) := by unfold eatKind; infer_instance
instance (word : String) : KeepsFrames (eatKeyword word) := by unfold eatKeyword; infer_instance
instance (symbol : String) : KeepsFrames (eatOperator symbol) := by
  unfold eatOperator; infer_instance
instance (wanted : Expectation) (p : Token → Bool) : KeepsFrames (eatOr wanted p) := by
  unfold eatOr; infer_instance
instance : KeepsFrames name := by unfold name; infer_instance

instance (pass : α → Parser (Pass α)) [h : ∀ a, KeepsFrames (pass a)] (a : α) :
    KeepsFrames (repeated pass a) := by
  constructor
  intro s
  fun_induction repeated pass a s with
  | case1 a s b next run =>
      have step := (h a).frames s
      rwa [run] at step
  | case2 a s b next run lt ih =>
      have step := (h a).frames s
      rw [run] at step
      exact ih.trans step
  | case3 a s b next run lt =>
      have step := (h a).frames s
      rwa [run] at step

instance (u : Unit) : KeepsFrames (headerPass u) := by unfold headerPass; infer_instance
instance : KeepsFrames skipToLineEnd := by unfold skipToLineEnd; infer_instance
instance : KeepsFrames typedName := by unfold typedName; dsimp only; infer_instance
instance (list : List Param) : KeepsFrames (paramPass list) := by
  unfold paramPass; dsimp only; infer_instance
instance : KeepsFrames params := by unfold params; infer_instance
instance : KeepsFrames paramList := by unfold paramList; infer_instance
instance : KeepsFrames returnType := by unfold returnType; infer_instance

end Parser

/-- No operator is written as the word `await`. -/
def PlainOperators (tokens : List Token) : Prop :=
  ∀ t ∈ tokens, t.kind = .operator → t.word ≠ "await"

theorem PlainOperators.current {s : ParserState} (h : PlainOperators s.rest) :
    s.current.kind = .operator → s.current.word ≠ "await" := by
  intro hk
  cases hr : s.rest with
  | nil => simp [ParserState.current, ParserState.peek, hr, Token.noMore] at hk
  | cons t rest =>
      have ht : s.current = t := by simp [ParserState.current, ParserState.peek, hr]
      rw [ht] at hk ⊢
      exact h t (by simp [hr]) hk

/-- While `before` is what the innermost frame has collected, the parser collects more, and in
the end that is the nodes of its value: the frame tells whether one of them waits, and their flags
are exact. -/
def Collects {α : Type} (before : List Node) (p : Parser α) (nodes : α → List Node) : Prop :=
  ∀ (s : ParserState) (f : Bool) (outer : List Bool), PlainOperators s.rest →
    Everywhere Node.FlagExact before → s.frames = (f || before.any Node.waits) :: outer →
      (p s).2.frames = (f || (nodes (p s).1).any Node.waits) :: outer ∧
        Everywhere Node.FlagExact (nodes (p s).1)

section
variable {α β : Type} {before : List Node} {p : Parser α} {k : α → Parser β}
variable {nodes : α → List Node} {out : β → List Node}

theorem Evolves.plainOperators {s t : ParserState} (h : Evolves s t)
    (hs : PlainOperators s.rest) : PlainOperators t.rest :=
  fun token ht => hs token (h.rest_suffix.subset ht)

/-- What `p` collects comes after what was there, and `k` goes on with both. -/
theorem Collects.bind [h : Evolving p] (hp : Collects [] p nodes)
    (hk : ∀ a, Collects (before ++ nodes a) (k a) out) : Collects before (p >>= k) out := by
  intro s f outer clean flags frames
  obtain ⟨hf, he⟩ := hp s (f || before.any Node.waits) outer clean everywhere_nil
    (by rw [frames, List.any_nil, Bool.or_false])
  refine hk _ _ f outer ((h.evolves s).plainOperators clean)
    (everywhere_append.mpr ⟨flags, he⟩) ?_
  rw [hf, List.any_append, Bool.or_assoc]

/-- As `bind`, for a parser that goes on with all that was there. -/
theorem Collects.andThen [h : Evolving p] (hp : Collects before p nodes)
    (hk : ∀ a, Collects (nodes a) (k a) out) : Collects before (p >>= k) out := by
  intro s f outer clean flags frames
  obtain ⟨hf, he⟩ := hp s f outer clean flags frames
  exact hk _ _ f outer ((h.evolves s).plainOperators clean) he hf

/-- A parser that leaves the frames alone collects nothing. -/
theorem Collects.after [h : Evolving p] [hp : KeepsFrames p] (hk : ∀ a, Collects before (k a) out) :
    Collects before (p >>= k) out := by
  intro s f outer clean flags frames
  exact hk _ _ f outer ((h.evolves s).plainOperators clean) flags ((hp.frames s).trans frames)

/-- The operator at the cursor, if there is one, is not written as `await`. -/
theorem Collects.current {k : Token → Parser β}
    (hk : ∀ t : Token, (t.kind = .operator → t.word ≠ "await") → Collects before (k t) out) :
    Collects before (Parser.current >>= k) out :=
  fun s f outer clean => hk s.current clean.current s f outer clean

theorem Collects.ite {c : Prop} [Decidable c] {q : Parser α} (hp : c → Collects before p nodes)
    (hq : ¬ c → Collects before q nodes) : Collects before (if c then p else q) nodes := by
  split
  · exact hp ‹_›
  · exact hq ‹_›

theorem collects_pure {a : α} (h : Regroups before (nodes a)) :
    Collects before (pure a) nodes := by
  intro s f outer _ flags frames
  refine ⟨?_, h.flags flags⟩
  change s.frames = (f || (nodes a).any Node.waits) :: outer
  rw [h.waits, frames]

theorem Collects.regroup {after : List Node} (h : Regroups before after)
    (hp : Collects after p nodes) : Collects before p nodes := by
  intro s f outer clean flags frames
  exact hp s f outer clean (h.flags flags) (by rw [h.waits, frames])

/-- The end of a rule whose value holds what was collected, in one plain node. -/
theorem collects_node (n : Node) (hw : n.isWait = false) (ho : n.opensFrame = false) :
    Collects n.children (pure n) fun n => [n] :=
  collects_pure (.node n hw ho)

/-- What every pass collects, a repetition collects. -/
theorem Collects.repeated {pass : α → Parser (Parser.Pass α)} [h : ∀ a, Evolving (pass a)]
    (hp : ∀ a, Collects (nodes a) (pass a) fun r => nodes r.value) (a : α) :
    Collects (nodes a) (Parser.repeated pass a) nodes := by
  intro s f outer clean flags frames
  fun_induction Parser.repeated pass a s with
  | case1 a s b next run =>
      have hb := hp a s f outer clean flags frames
      rwa [run] at hb
  | case2 a s b next run lt ih =>
      have hb := hp a s f outer clean flags frames
      have hr := ((h a).evolves s).plainOperators clean
      rw [run] at hb hr
      exact ih hr hb.2 hb.1
  | case3 a s b next run lt =>
      have hb := hp a s f outer clean flags frames
      rwa [run] at hb

/-- What is collected inside a new frame stays there, and the frame tells whether that waits. -/
theorem Collects.run_framed (hp : Collects [] p nodes) {s : ParserState}
    (clean : PlainOperators s.rest) :
    Parser.framed p s =
      (((p { s with frames := false :: s.frames }).1,
        (nodes (p { s with frames := false :: s.frames }).1).any Node.waits),
        { (p { s with frames := false :: s.frames }).2 with frames := s.frames }) := by
  obtain ⟨hf, -⟩ := hp { s with frames := false :: s.frames } false s.frames clean everywhere_nil
    rfl
  rw [Bool.false_or] at hf
  rw [Parser.run_framed, hf]
  rfl

theorem Collects.framed [h : Evolving p] (hp : Collects [] p nodes) {k : α × Bool → Parser β}
    (hk : ∀ a, Everywhere Node.FlagExact (nodes a) →
      Collects before (k (a, (nodes a).any Node.waits)) out) :
    Collects before (Parser.framed p >>= k) out := by
  intro s f outer clean flags frames
  obtain ⟨-, he⟩ := hp { s with frames := false :: s.frames } false s.frames clean everywhere_nil
    rfl
  have evolves := h.evolves { s with frames := false :: s.frames }
  rw [Parser.run_bind, hp.run_framed clean]
  exact hk _ he _ f outer (evolves.plainOperators clean) flags frames

end

namespace Parser

theorem markAsync_collects :
    Collects [] (modify ParserState.markAsync : Parser Unit) fun _ => [.operator "await"] := by
  intro s f outer _ _ frames
  have waits : (Node.operator "await").waits = true := by
    rw [Node.waits_eq]
    rfl
  have marked : s.markAsync.frames = true :: outer := by
    unfold ParserState.markAsync
    rw [frames]
  refine ⟨?_, everywhere_cons.mpr ⟨⟨trivial, everywhere_nil⟩, everywhere_nil⟩⟩
  change s.markAsync.frames = _
  rw [marked, List.any_cons, waits, Bool.true_or, Bool.or_true]

/-- A token that is skipped adds nothing. -/
theorem reject_collects {α : Type} {before : List Node} {nodes : α → List Node} {a : α}
    (h : Regroups before (nodes a)) : Collects before (do reject; return a) nodes := by
  intro s f outer _ flags frames
  refine ⟨?_, h.flags flags⟩
  change s.reject.frames = (f || (nodes a).any Node.waits) :: outer
  rw [s.frames_reject, h.waits, frames]

theorem single_collects {n : Node} (hw : n.isWait = false) (ho : n.opensFrame = false)
    (hc : n.children = []) : Collects [] (single n) fun r => r.getD [] :=
  Collects.after fun _ => collects_pure (hc ▸ .node n hw ho)

section
variable {nested : PlaceReader} [∀ place, Evolving (nested place)] {before : List Node}
variable (hn : ∀ place, Collects [] (nested place) fun reading => reading.1)
include hn

theorem expression_collects (stops : List Stop) : Collects [] (expression nested stops) id :=
  Collects.bind (hn _) fun _ => collects_pure (.refl _)

omit [∀ place, Evolving (nested place)] in
theorem block_collects (opener : Span) (scope : Scope) (closers : List Stop) :
    Collects [] (block nested opener scope closers) fun r => r.1 := by
  intro s f outer clean flags frames
  have inside := hn (.statements scope closers) { s with openers := opener :: s.openers } f outer
    clean flags frames
  rw [run_block]
  generalize nested (.statements scope closers) { s with openers := opener :: s.openers } = r
    at inside
  obtain ⟨⟨body, _ | stop⟩, next⟩ := r
  · exact inside
  · exact ⟨(ParserState.frames_advance _).trans inside.1, inside.2⟩

theorem blockBody_collects (opener : Span) (scope : Scope) (closers : List Stop) :
    Collects [] (blockBody nested opener scope closers) id :=
  Collects.bind (block_collects hn opener scope closers) fun _ => collects_pure (.refl _)

theorem link?_collects : Collects [] (link? nested) Option.toList := by
  unfold link?
  refine Collects.after fun moved => Collects.ite (fun _ => ?_) fun _ => ?_
  · refine Collects.after fun t => Collects.ite (fun _ => ?_) fun _ => ?_
    · exact Collects.after fun _ => collects_pure (.node (.property t.word) rfl rfl)
    · exact Collects.after fun _ => collects_pure (.refl _)
  · refine Collects.after fun opened => Collects.ite (fun _ => ?_) fun _ => ?_
    · refine Collects.bind (expression_collects hn _) fun index => Collects.after fun _ => ?_
      exact collects_pure (.node (.index index) rfl rfl)
    · exact collects_pure (.refl _)

theorem argumentPass_collects (stops : List Stop) (closer : Token → Bool) (missing : Expectation)
    (args : List Node) :
    Collects args (argumentPass nested stops closer missing args) Pass.value := by
  unfold argumentPass
  refine Collects.after fun _ => Collects.after fun aborted => ?_
  refine Collects.ite (fun _ => collects_pure (.refl _)) fun _ => Collects.after fun closed => ?_
  refine Collects.ite (fun _ => collects_pure (.refl _)) fun _ => ?_
  refine Collects.bind (expression_collects hn stops) fun parts => ?_
  refine Collects.after fun _ => Collects.after fun comma => ?_
  refine Collects.ite (fun _ => ?_) fun _ => Collects.after fun _ => ?_
  · exact collects_pure (regroups_addArgument args parts)
  · exact collects_pure (regroups_addArgument args parts)

theorem call_collects (callee : List Node) :
    Collects callee (call nested callee) fun n => [n] := by
  refine Collects.after fun _ => ?_
  refine Collects.bind (Collects.repeated (argumentPass_collects hn _ _ _) []) fun args => ?_
  exact collects_node (.call callee false args) rfl rfl

theorem postfixPass_collects (parts : List Node) :
    Collects parts (postfixPass nested parts) Pass.value := by
  unfold postfixPass
  refine Collects.after fun aborted => Collects.ite (fun _ => collects_pure (.refl _)) fun _ => ?_
  refine Collects.after fun t => Collects.ite (fun _ => ?_) fun _ => ?_
  · refine Collects.ite (fun _ => collects_pure (.refl _)) fun _ => ?_
    exact Collects.andThen (call_collects hn parts) fun n => collects_pure (.refl _)
  · refine Collects.bind (link?_collects hn) fun link => ?_
    cases link with
    | none => exact collects_pure (.of_eq (List.append_nil parts))
    | some link => exact collects_pure (.refl _)

theorem operandTail_collects (base : Node) : Collects [base] (operandTail nested base) id :=
  Collects.repeated (postfixPass_collects hn) [base]

theorem chainPass_collects (chain : List Node) :
    Collects chain (chainPass nested chain) Pass.value := by
  unfold chainPass
  refine Collects.after fun aborted => Collects.ite (fun _ => collects_pure (.refl _)) fun _ => ?_
  refine Collects.bind (link?_collects hn) fun link => ?_
  cases link with
  | none => exact collects_pure (.of_eq (List.append_nil chain))
  | some link => exact collects_pure (.refl _)

theorem reference_collects : Collects [] (reference nested) id := by
  refine Collects.after fun t => Collects.after fun _ => ?_
  refine Collects.bind (Collects.repeated (chainPass_collects hn) []) fun chain => ?_
  exact Collects.regroup (regroups_ofChain t.word chain) (operandTail_collects hn _)

theorem group_collects : Collects [] (group nested) fun n => [n] := by
  refine Collects.after fun _ => Collects.bind (expression_collects hn []) fun body => ?_
  exact Collects.after fun _ => collects_node (.group body) rfl rfl

theorem array_collects : Collects [] (array nested) fun n => [n] := by
  refine Collects.after fun _ => ?_
  refine Collects.bind (Collects.repeated (argumentPass_collects hn _ _ _) []) fun items => ?_
  exact collects_node (.array items) rfl rfl

theorem fieldPass_collects (fields : List (String × List Node)) :
    Collects (fields.flatMap (·.2)) (fieldPass nested fields) fun r => r.value.flatMap (·.2) := by
  unfold fieldPass
  refine Collects.after fun _ => Collects.after fun aborted => ?_
  refine Collects.ite (fun _ => collects_pure (.refl _)) fun _ => Collects.after fun closed => ?_
  refine Collects.ite (fun _ => collects_pure (.refl _)) fun _ => Collects.after fun key => ?_
  refine Collects.ite (fun _ => ?_) fun _ => Collects.after fun _ => collects_pure (.refl _)
  refine Collects.after fun _ => Collects.after fun _ => ?_
  refine Collects.bind (expression_collects hn _) fun value => ?_
  refine Collects.after fun _ => Collects.after fun _ => collects_pure (.of_eq ?_)
  simp [Pass.value]

theorem object_collects : Collects [] (object nested) fun n => [n] := by
  refine Collects.after fun _ => ?_
  refine Collects.bind (Collects.repeated (fieldPass_collects hn) []) fun fields => ?_
  exact collects_node (.object fields) rfl rfl

/-- The mark in the frame and the node that says the same are set together. -/
theorem await_collects : Collects [] (await nested) id := by
  refine Collects.after fun _ => Collects.bind markAsync_collects fun _ => ?_
  refine Collects.after fun t => Collects.ite (fun _ => ?_) fun _ => collects_pure (.refl _)
  exact Collects.bind (reference_collects hn) fun parts => collects_pure (regroups_awaited parts)

theorem doBlock_collects : Collects [] (doBlock nested) fun n => [n] := by
  refine Collects.after fun t => Collects.after fun _ => ?_
  refine Collects.framed (blockBody_collects hn _ _ _) fun body flags => ?_
  exact collects_pure (.frame rfl rfl rfl flags)

theorem wordPart?_collects (t : Token) :
    Collects [] (wordPart? nested t) fun r => r.getD [] := by
  unfold wordPart?
  split
  · rename_i hw
    exact single_collects (isWait_operator (ExpressionWord.ne_await hw)) rfl rfl
  · exact single_collects rfl rfl rfl
  · exact single_collects rfl rfl rfl
  · exact Collects.bind (await_collects hn) fun parts => collects_pure (.refl _)
  · exact Collects.bind (doBlock_collects hn) fun n => collects_pure (.refl _)
  · exact collects_pure (.refl _)

theorem operatorPart?_collects {t : Token} (ht : t.word ≠ "await") :
    Collects [] (operatorPart? nested t) fun r => r.getD [] := by
  unfold operatorPart?
  refine Collects.ite (fun _ => collects_pure (.refl _)) fun _ => ?_
  refine Collects.ite (fun _ => ?_) fun _ => ?_
  · refine Collects.bind (array_collects hn) fun n => ?_
    exact Collects.andThen (operandTail_collects hn n) fun parts => collects_pure (.refl _)
  · exact single_collects (isWait_operator ht) rfl rfl

theorem expressionPart?_collects : Collects [] (expressionPart? nested) fun r => r.getD [] := by
  have tail (n : Node) : Collects [n] (return some (← operandTail nested n)) fun r => r.getD [] :=
    Collects.andThen (operandTail_collects hn n) fun parts => collects_pure (.refl _)
  have literal (kind : LiteralKind) (value : String) :
      Collects [] (return some (← operandTail nested (.literal kind value))) fun r => r.getD [] :=
    Collects.regroup (.node (.literal kind value) rfl rfl) (tail _)
  unfold expressionPart?
  refine Collects.current fun t ht => ?_
  split
  · exact Collects.bind (reference_collects hn) fun parts => collects_pure (.refl _)
  · exact Collects.after fun _ => literal _ _
  · exact Collects.after fun _ => literal _ _
  · exact operatorPart?_collects hn (ht ‹_›)
  · exact Collects.bind (group_collects hn) fun n => tail n
  · exact Collects.bind (object_collects hn) fun n => tail n
  · exact wordPart?_collects hn t
  · exact collects_pure (.refl _)

theorem expressionPass_collects (stops : List Stop) (reading : Reading) :
    Collects reading.1 (expressionPass nested stops reading) fun r => r.value.1 := by
  unfold expressionPass
  refine Collects.after fun s => Collects.ite (fun _ => collects_pure (.refl _)) fun _ => ?_
  refine Collects.ite (fun _ => collects_pure (.refl _)) fun _ => ?_
  refine Collects.bind (expressionPart?_collects hn) fun parts => ?_
  cases parts with
  | none => exact reject_collects (.of_eq (List.append_nil reading.1))
  | some parts => exact collects_pure (.refl _)

theorem function_collects : Collects [] (function nested) fun n => [n] := by
  refine Collects.after fun t => Collects.after fun _ => Collects.after fun name => ?_
  refine Collects.after fun params => Collects.after fun type => Collects.after fun _ => ?_
  refine Collects.framed (blockBody_collects hn _ _ _) fun body flags => ?_
  exact collects_pure (.frame rfl rfl rfl flags)

theorem initializer_collects : Collects [] (initializer nested) id := by
  refine Collects.after fun equals => Collects.ite (fun _ => ?_) fun _ => collects_pure (.refl _)
  exact expression_collects hn []

theorem variableDecl_collects : Collects [] (variableDecl nested) fun n => [n] := by
  refine Collects.after fun typed => Collects.bind (initializer_collects hn) fun init => ?_
  exact collects_node (.varDecl typed.name typed.type true typed.isArray init) rfl rfl

theorem constant_collects : Collects [] (constant nested) fun n => [n] := by
  refine Collects.after fun _ => Collects.after fun t => ?_
  refine Collects.ite (fun _ => function_collects hn) fun _ => Collects.after fun typed => ?_
  have rest : Collects [] (do
      let init ← initializer nested
      return Node.varDecl typed.name typed.type false typed.isArray init) fun n => [n] :=
    Collects.bind (initializer_collects hn) fun init => collects_node (.varDecl ..) rfl rfl
  exact Collects.after fun t => Collects.ite (fun _ => Collects.after fun _ => rest) fun _ => rest

theorem expressionStatement_collects (scope : Scope) :
    Collects [] (expressionStatement nested scope) id := by
  refine Collects.bind (expression_collects hn []) fun parts => ?_
  refine Collects.ite (fun hp => ?_) fun _ => ?_
  · have he : parts = [] := by simpa using hp
    exact Collects.after fun _ => collects_pure (.of_eq he)
  · exact collects_pure (regroups_ofStatementParts scope parts)

theorem assignment_collects : Collects [] (assignment nested) id := by
  refine Collects.after fun _ => Collects.bind (expression_collects hn []) fun parts => ?_
  split
  · rename_i target op value hs
    have assign := Regroups.node (.assign target op value) rfl rfl
    exact collects_pure ((regroups_splitAssignment? hs).trans assign)
  · refine Collects.after fun _ => collects_pure ?_
    split
    · have he : parts = [] := by simpa using ‹parts.isEmpty = true›
      exact .of_eq he
    · exact .node (.exprStmt parts) rfl rfl

theorem otherwise_collects (closer : Option (Stop × Span)) :
    Collects [] (otherwise nested closer) fun r => r.getD [] := by
  unfold otherwise
  split
  · exact collects_pure (.refl _)
  · refine Collects.ite (fun _ => ?_) fun _ => Collects.ite (fun _ => ?_) fun _ => ?_
    · exact Collects.bind (blockBody_collects hn _ _ _) fun body => collects_pure (.refl _)
    · exact Collects.bind (hn _) fun reading => collects_pure (.refl _)
    · exact collects_pure (.refl _)

theorem readCondition_collects (opener : Span) :
    Collects [] (readCondition nested opener) fun reading => reading.1 := by
  refine Collects.bind (expression_collects hn []) fun test => Collects.after fun _ => ?_
  refine Collects.bind (block_collects hn _ _ _) fun r => ?_
  refine Collects.bind (otherwise_collects hn r.2) fun rest => ?_
  exact collects_pure (.node (.ifStmt test r.1 rest) rfl rfl)

theorem forStmt_collects : Collects [] (forStmt nested) fun n => [n] := by
  refine Collects.after fun t => Collects.after fun _ => Collects.after fun name => ?_
  refine Collects.after fun _ => Collects.bind (expression_collects hn []) fun first => ?_
  refine Collects.after fun _ => Collects.bind (expression_collects hn []) fun last => ?_
  refine Collects.bind (blockBody_collects hn _ _ _) fun body => ?_
  exact collects_node (.forStmt name first last body) rfl rfl

theorem struct_collects : Collects [] (struct nested) fun n => [n] := by
  refine Collects.after fun t => Collects.after fun _ => Collects.after fun name => ?_
  refine Collects.after fun _ => Collects.bind (blockBody_collects hn _ _ _) fun body => ?_
  exact collects_node (.struct name body) rfl rfl

theorem operandPass_collects (operands : List Node) :
    Collects operands (operandPass nested operands) Pass.value := by
  unfold operandPass
  refine Collects.after fun aborted => Collects.ite (fun _ => collects_pure (.refl _)) fun _ => ?_
  refine Collects.bind (expression_collects hn _) fun parts => ?_
  refine Collects.ite (fun hp => ?_) fun _ => ?_
  · have he : parts = [] := by simpa using hp
    rw [he]
    exact collects_pure (.of_eq (List.append_nil operands))
  · have all := (Regroups.refl operands).append (regroups_ofParts parts)
    refine Collects.after fun comma => ?_
    exact Collects.ite (fun _ => collects_pure all) fun _ => collects_pure all

theorem instruction_collects : Collects [] (instruction nested) fun n => [n] := by
  refine Collects.after fun t => Collects.after fun _ => ?_
  refine Collects.bind (Collects.repeated (operandPass_collects hn) []) fun operands => ?_
  exact collects_node (.instruction (lowerWord t.word) operands) rfl rfl

theorem openBlock_collects (scope : Scope) (closers : List Stop) :
    Collects [] (openBlock nested scope closers) id :=
  Collects.after fun _ => Collects.after fun _ => blockBody_collects hn _ _ _

theorem afterKeyword_collects : Collects [] (afterKeyword nested) id :=
  Collects.after fun _ => expression_collects hn []

theorem wordStatement_collects (scope : Scope) (word : StatementWord) :
    Collects [] (wordStatement nested scope word) id := by
  cases word with
  | globals =>
      exact Collects.bind (openBlock_collects hn _ _) fun body =>
        collects_pure (.node (.globals body) rfl rfl)
  | function => exact Collects.bind (function_collects hn) fun n => collects_pure (.refl _)
  | localDecl =>
      refine Collects.after fun _ => ?_
      exact Collects.bind (variableDecl_collects hn) fun n => collects_pure (.refl _)
  | constant => exact Collects.bind (constant_collects hn) fun n => collects_pure (.refl _)
  | set => exact assignment_collects hn
  | returnStmt =>
      exact Collects.bind (afterKeyword_collects hn) fun value =>
        collects_pure (.node (.returnStmt value) rfl rfl)
  | ifStmt =>
      refine Collects.after fun t => Collects.after fun _ => ?_
      exact Collects.bind (hn _) fun reading => collects_pure (.refl _)
  | call => exact Collects.after fun _ => expressionStatement_collects hn scope
  | loop =>
      exact Collects.bind (openBlock_collects hn _ _) fun body =>
        collects_pure (regroups_ofLoopBody body)
  | exitWhen =>
      exact Collects.bind (afterKeyword_collects hn) fun value =>
        collects_pure (.node (.exitWhen value) rfl rfl)
  | forStmt => exact Collects.bind (forStmt_collects hn) fun n => collects_pure (.refl _)
  | struct => exact Collects.bind (struct_collects hn) fun n => collects_pure (.refl _)
  | expect =>
      exact Collects.bind (afterKeyword_collects hn) fun value =>
        collects_pure (.node (.expect value) rfl rfl)
  | debug => exact Collects.after fun _ => collects_pure (.node .debug rfl rfl)
  | expression => exact expressionStatement_collects hn scope

theorem nameStatement_collects (scope : Scope) :
    Collects [] (nameStatement nested scope) id := by
  refine Collects.after fun s => Collects.ite (fun _ => ?_) fun _ => ?_
  · exact Collects.bind (instruction_collects hn) fun n => collects_pure (.refl _)
  refine Collects.ite (fun _ => ?_) fun _ => ?_
  · exact Collects.bind (variableDecl_collects hn) fun n => collects_pure (.refl _)
  · exact expressionStatement_collects hn scope

theorem statement?_collects (scope : Scope) :
    Collects [] (statement? nested scope) fun r => r.getD [] := by
  have expression : Collects [] (return some (← expressionStatement nested scope))
      fun r => r.getD [] :=
    Collects.bind (expressionStatement_collects hn scope) fun nodes => collects_pure (.refl _)
  unfold statement?
  refine Collects.after fun t => ?_
  split
  · refine Collects.after fun _ => ?_
    split
    · exact Collects.bind (wordStatement_collects hn scope _) fun nodes => collects_pure (.refl _)
    · exact collects_pure (.refl _)
  · exact Collects.after fun _ => collects_pure (.node (.comment t.word) rfl rfl)
  · exact Collects.bind (nameStatement_collects hn scope) fun nodes => collects_pure (.refl _)
  · exact expression
  · exact expression
  · exact expression
  · exact expression
  · exact expression
  · exact collects_pure (.refl _)

theorem statementPass_collects (scope : Scope) (stops : List Stop) (reading : Reading) :
    Collects reading.1 (statementPass nested scope stops reading) fun r => r.value.1 := by
  unfold statementPass
  refine Collects.after fun s => Collects.ite (fun _ => collects_pure (.refl _)) fun _ => ?_
  cases stops.find? (·.accepts s.current) with
  | some stop => exact collects_pure (.refl _)
  | none =>
      dsimp only
      split
      · exact Collects.after fun _ => collects_pure (.refl _)
      · intro s _ _ _ flags frames
        exact ⟨(s.frames_record _).trans frames, flags⟩
      · refine Collects.bind (statement?_collects hn scope) fun nodes => ?_
        cases nodes with
        | none => exact reject_collects (.of_eq (List.append_nil reading.1))
        | some nodes => exact collects_pure (.refl _)

theorem rules_collects (place : Place) :
    Collects [] (place.plain nested) fun reading => reading.1 := by
  cases place with
  | expression stops => exact Collects.repeated (expressionPass_collects hn stops) ([], none)
  | statements scope stops =>
      exact Collects.repeated (statementPass_collects hn scope stops) ([], none)
  | condition opener => exact readCondition_collects hn opener

end

end Parser

theorem Place.read_collects (place : Place) : Collects [] place.read fun reading => reading.1 := by
  refine place.read_induction (P := fun _ s r => ∀ f outer, PlainOperators s.rest →
    Everywhere Node.FlagExact [] → s.frames = (f || false) :: outer →
      r.2.frames = (f || r.1.1.any Node.waits) :: outer ∧ Everywhere Node.FlagExact r.1.1) ?_ ?_
  · intro place s f outer _ _ frames
    exact ⟨frames, everywhere_nil⟩
  · intro nested _ hn place
    exact Parser.rules_collects hn place

theorem Lexeme.symbol_of_operator {keepComments : Bool} {lexeme : Lexeme} {text : Option String}
    (h : lexeme.content? keepComments = some (.operator, text)) :
    lexeme.kind = .symbol ∧ text = some (String.ofList lexeme.text) := by
  unfold content? at h
  dsimp only at h
  split at h
  case h_12 => simp_all
  all_goals grind

/-- A source has no operator that is written as a word. -/
theorem plainOperators_tokenize (keepComments : Bool) (source : String) :
    PlainOperators (tokenize keepComments source).tokens := by
  intro t ht hk
  rcases List.mem_append.mp ht with ht | ht
  · obtain ⟨placed, hp, token⟩ := List.mem_filterMap.mp ht
    obtain ⟨⟨kind, text⟩, content, rfl⟩ := Option.map_eq_some_iff.mp token
    cases hk
    obtain ⟨hs, rfl⟩ := Lexeme.symbol_of_operator content
    have length := Lexeme.length_text_of_symbol (mem_of_mem_placeLexemes hp) hs
    intro hw
    have hw : String.ofList placed.lexeme.text = "await" := hw
    have hl : placed.lexeme.text = "await".toList := by rw [← hw, String.toList_ofList]
    rw [hl] at length
    exact absurd length (by decide)
  · rw [List.mem_singleton.mp ht] at hk
    cases hk

/-- In the tree of a source, every function and every `do` block is asynchronous exactly if its
body waits, and so is the program. -/
theorem parse_tokenize_flags (keepComments : Bool) (o : ParseOptions) (source : String) :
    Everywhere Node.FlagExact (parse o (tokenize keepComments source).tokens).tree.body ∧
      (parse o (tokenize keepComments source).tokens).tree.isAsync =
        (parse o (tokenize keepComments source).tokens).tree.body.any Node.waits := by
  have clean := plainOperators_tokenize keepComments source
  have ended : terminated (tokenize keepComments source).tokens =
      (tokenize keepComments source).tokens := terminated_concat _ rfl
  rw [← ended] at clean
  obtain ⟨frames, flags⟩ := Place.read_collects (.statements .block [.endOfFile])
    (.start o (terminated (tokenize keepComments source).tokens)) false [] clean everywhere_nil rfl
  rw [parse_eq o _ rfl]
  refine ⟨flags, ?_⟩
  unfold ParserState.isAsync
  dsimp only
  rw [frames]
  rfl

end MapScript
