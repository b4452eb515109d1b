import MapScript.Proofs.Lexing
import MapScript.Proofs.Sessions

/-!
# What a parser does not look at

The parser does not know where its tokens stand. Spans and lines go into errors and into the
openers of blocks but decide nothing, with one exception: an instruction is told from a call and
from arithmetic by the gaps around the token after its name.

Nor does the parser know what comes behind the first end of file, even where it looks ahead.
-/
namespace MapScript

theorem terminated_eq_append (tokens : List Token) :
    ∃ added, terminated tokens = tokens ++ added := by
  unfold terminated
  split
  · rename_i none
    rw [List.getLast?_eq_none_iff.mp none]
    exact ⟨_, rfl⟩
  · split
    · exact ⟨[], (List.append_nil _).symm⟩
    · exact ⟨_, rfl⟩

theorem terminated_cons (x : Token) {xs : List Token} (h : xs ≠ []) :
    terminated (x :: xs) = x :: terminated xs := by
  obtain ⟨last, hl⟩ := Option.isSome_iff_exists.mp (List.getLast?_isSome.mpr h)
  have hl' : (x :: xs).getLast? = some last := by
    rw [List.getLast?_cons, hl]
    rfl
  unfold terminated
  rw [hl, hl']
  dsimp only
  split <;> rfl

/-- The tokens differ in their places only. -/
structure SameText (x y : Token) : Prop where
  kind : y.kind = x.kind
  text : y.text = x.text

instance (x y : Token) : Decidable (SameText x y) :=
  decidable_of_iff (y.kind = x.kind ∧ y.text = x.text)
    ⟨fun h => ⟨h.1, h.2⟩, fun h => ⟨h.kind, h.text⟩⟩

/-- The spans of two tokens with the same index. -/
def SpansAt (ts us : List Token) (a b : Span) : Prop :=
  ∃ (i : Nat) (x y : Token), ts[i]? = some x ∧ us[i]? = some y ∧ x.span = a ∧ y.span = b

namespace SameText
variable {x y : Token} (h : SameText x y)
include h

theorem word : y.word = x.word := by
  rw [Token.word, Token.word, h.text]

theorem describe : y.describe = x.describe := by
  unfold Token.describe
  rw [h.kind, h.word]

theorem strayHint? : strayHint? y = strayHint? x := by
  unfold MapScript.strayHint?
  rw [h.kind, h.word]

end SameText

/-- An end of file is added to both lists or to neither, and it touches the token before it. -/
theorem terminated_sameText {ts us : List Token} (texts : List.Forall₂ SameText ts us) :
    List.Forall₂ SameText (terminated ts) (terminated us) ∧
      (SameGaps ts us → SameGaps (terminated ts) (terminated us)) := by
  induction texts with
  | nil => exact ⟨.cons ⟨rfl, rfl⟩ .nil, fun _ => trivial⟩
  | @cons x y xs ys xy rest ih =>
      cases rest with
      | nil =>
          by_cases ended : x.kind = .endOfFile
          · have first : terminated [x] = [x] := if_pos ended
            have second : terminated [y] = [y] := if_pos (xy.kind.trans ended)
            rw [first, second]
            exact ⟨.cons xy .nil, id⟩
          · have first : terminated [x] = [x, ⟨.endOfFile, none, none, .point x.span.stop⟩] :=
              if_neg ended
            have second : terminated [y] = [y, ⟨.endOfFile, none, none, .point y.span.stop⟩] :=
              if_neg (xy.kind ▸ ended)
            have gap : SameGap x ⟨.endOfFile, none, none, .point x.span.stop⟩ y
                ⟨.endOfFile, none, none, .point y.span.stop⟩ := by
              constructor
              · simp [Span.point]
              · simp [Span.point]
            rw [first, second]
            exact ⟨.cons xy (.cons ⟨rfl, rfl⟩ .nil), fun _ => ⟨gap, trivial⟩⟩
      | @cons x' y' xs ys xy' rest =>
          rw [terminated_cons x (List.cons_ne_nil x' xs),
            terminated_cons y (List.cons_ne_nil y' ys)]
          refine ⟨.cons xy ih.1, fun gaps => ?_⟩
          obtain ⟨added, first⟩ := terminated_eq_append (x' :: xs)
          obtain ⟨added', second⟩ := terminated_eq_append (y' :: ys)
          have later := ih.2 gaps.2
          rw [first, second] at later ⊢
          exact ⟨gaps.1, later⟩

/-- Tokens with the same text at the same index. -/
def Correspondence.byIndex (o : ParseOptions) (ts us : List Token) : Correspondence where
  Rel x y := SameText x y ∧ SpansAt ts us x.span y.span
  SpanLike := SpansAt ts us
  alike h := ⟨h.1.kind, h.1.word, h.2⟩
  options := o
  remembers := True
  behind := 0
  behind' := 0

theorem forall₂_byIndex (o : ParseOptions) {ts us : List Token}
    (texts : List.Forall₂ SameText ts us) :
    List.Forall₂ (Correspondence.byIndex o ts us).Rel ts us := by
  rw [List.forall₂_iff_get]
  refine ⟨texts.length_eq, fun i hi hi' => ⟨texts.get hi hi', i, ts[i], us[i], ?_, ?_, rfl, rfl⟩⟩
  · exact List.getElem?_eq_getElem hi
  · exact List.getElem?_eq_getElem hi'

/-- The same error, about the tokens with the same index in another list. -/
structure ParseError.Relocated (ts us : List Token) (e e' : ParseError) : Prop where
  kind : e.Corresponds SameText (SpansAt ts us) e'
  message : e'.message = e.message
  hint : e'.hint? = e.hint?
  span : SpansAt ts us e.span e'.span
  opener : e'.opener?.isSome = e.opener?.isSome

theorem ParseError.Relocated.of_corresponds {o : ParseOptions} {ts us : List Token}
    {e e' : ParseError}
    (h : e.Corresponds (Correspondence.byIndex o ts us).Rel (SpansAt ts us) e') :
    e.Relocated ts us e' := by
  cases h with
  | unexpectedToken rel =>
      exact ⟨.unexpectedToken rel.1, congrArg ("unexpected " ++ ·) rel.1.describe,
        rel.1.strayHint?, rel.2, rfl⟩
  | unexpectedEnd closer rel opener =>
      refine ⟨.unexpectedEnd closer rel.1 opener, rfl, rfl, rel.2, ?_⟩
      cases opener <;> rfl
  | expected wanted rel =>
      refine ⟨.expected wanted rel.1, ?_, congrArg wanted.hint? rel.1.kind, rel.2, rfl⟩
      exact congrArg ("expected " ++ wanted.describe ++ ", found " ++ ·) rel.1.describe
  | budgetExhausted rel => exact ⟨.budgetExhausted rel.1, rfl, rfl, rel.2, rfl⟩

/-- Layout does not matter. Tokens with the same kinds and texts make the same tree wherever they
stand, and the same errors, each at the token with the same index. Where instructions are taken,
the gaps between neighbours have to be the same too. -/
theorem parse_layout (o : ParseOptions) (ts us : List Token)
    (texts : List.Forall₂ SameText ts us) (gaps : o.asm = true → SameGaps ts us) :
    let r := parse o ts
    let r' := parse o us
    r'.tree = r.tree ∧ r'.aborted = r.aborted ∧
      List.Forall₂ (ParseError.Relocated (terminated ts) (terminated us)) r.errors r'.errors := by
  intro r r'
  obtain ⟨texts', gaps'⟩ := terminated_sameText texts
  let c := Correspondence.byIndex o (terminated ts) (terminated us)
  obtain ⟨behind, ahead⟩ := c.exists_ahead (forall₂_byIndex o texts')
    (fun asm => gaps' (gaps asm)) (exists_mem_terminated ts)
  have start : ({ c with behind := behind, behind' := behind } : Correspondence).Like
      (.start o (terminated ts)) (.start o (terminated us)) :=
    ⟨ahead, rfl, rfl, rfl, .nil, rfl, rfl, fun _ => .nil⟩
  obtain ⟨body, last⟩ := start.readUntil (ParserState.atRest_start o _)
    (ParserState.atRest_start o _) none
  have errors : List.Forall₂ (ParseError.Corresponds c.Rel c.SpanLike) r.errors r'.errors :=
    last.errors trivial
  refine ⟨?_, last.aborted, errors.imp fun _ _ => .of_corresponds⟩
  exact congrArg₂ Tree.mk body last.isAsync

/-- An instruction in a block that is never closed, with a bracket too many. -/
theorem parse_layout_spread :
    let o : ParseOptions := ⟨false, true, 5⟩
    let ts := (tokenize false "loop\nadd -x, 1\n)").tokens
    let us := (tokenize false "  loop\nadd \t -x,   1\n)").tokens
    List.Forall₂ SameText ts us ∧ SameGaps ts us ∧ (parse o ts).errors.length = 2 ∧
      (parse o us).tree = (parse o ts).tree ∧ (parse o us).aborted = (parse o ts).aborted ∧
      List.Forall₂ (ParseError.Relocated (terminated ts) (terminated us)) (parse o ts).errors
        (parse o us).errors := by
  intro o ts us
  have texts : List.Forall₂ SameText ts us := by decide +kernel
  have gaps : SameGaps ts us := by decide +kernel
  exact ⟨texts, gaps, by decide +kernel, parse_layout o ts us texts fun _ => gaps⟩

theorem Correspondence.ahead_same (o : ParseOptions) {before : List Token}
    (hb : ∀ x ∈ before, x.kind ≠ .endOfFile) {last : Token} (hl : last.kind = .endOfFile)
    (more more' : List Token) :
    (same o True more.length more'.length).Ahead (before ++ last :: more)
      (before ++ last :: more') := by
  induction before with
  | nil => exact .last rfl hl rfl rfl
  | cons x before ih =>
      have rest := ih fun y hy => hb y (List.mem_cons_of_mem x hy)
      have goesOn : x.kind ≠ .endOfFile := hb x List.mem_cons_self
      cases before with
      | nil => exact .next rfl goesOn (fun _ => .refl x last) rest
      | cons y before => exact .next rfl goesOn (fun _ => .refl x y) rest

/-- A parser gets these tokens or others that differ behind the end of file. -/
theorem like_reset {before : List Token} (hb : ∀ x ∈ before, x.kind ≠ .endOfFile) {last : Token}
    (hl : last.kind = .endOfFile) (more more' : List Token) (s : ParserState) :
    ∃ behind behind', (Correspondence.same s.options True behind behind').Like
      (s.reset (before ++ [last] ++ more)) (s.reset (before ++ [last] ++ more')) := by
  have split (more : List Token) :
      ∃ behind, terminated (before ++ [last] ++ more) = before ++ last :: behind := by
    obtain ⟨added, all⟩ := terminated_eq_append (before ++ [last] ++ more)
    exact ⟨more ++ added, by rw [all]; simp⟩
  obtain ⟨behind, first⟩ := split more
  obtain ⟨behind', second⟩ := split more'
  have ahead := Correspondence.ahead_same s.options hb hl behind behind'
  rw [← first, ← second] at ahead
  exact ⟨behind.length, behind'.length, ahead, rfl, rfl, rfl, .nil, rfl, rfl, fun _ => .nil⟩

theorem ParseResult.eq_of_reply {r r' : ParseResult} (h : r.reply = r'.reply) : r = r' := by
  obtain ⟨⟨body, isAsync⟩, errors, aborted⟩ := r
  obtain ⟨⟨body', isAsync'⟩, errors', aborted'⟩ := r'
  obtain ⟨rfl, rfl, rfl, rfl⟩ := Reply.mk.inj h
  rfl

/-- What comes behind the first end of file is never looked at: the parser finds the same, and so
does one that is kept and asked in any way. -/
theorem unseen_behind_endOfFile (before : List Token) (last : Token) (more more' : List Token)
    (hb : ∀ x ∈ before, x.kind ≠ .endOfFile) (hl : last.kind = .endOfFile) :
    (∀ o, parse o (before ++ [last] ++ more) = parse o (before ++ [last] ++ more')) ∧
    ∀ (s : ParserState) (requests : List Request),
      replies requests (s.reset (before ++ [last] ++ more)) =
        replies requests (s.reset (before ++ [last] ++ more')) := by
  have session (s : ParserState) (requests : List Request) :
      replies requests (s.reset (before ++ [last] ++ more)) =
        replies requests (s.reset (before ++ [last] ++ more')) := by
    obtain ⟨behind, behind', like⟩ := like_reset hb hl more more' s
    have alike := like.replies (ParserState.atRest_reset _ s) (ParserState.atRest_reset _ s)
      requests
    exact (Correspondence.eq_of_same alike trivial).symm
  refine ⟨fun o => ?_, session⟩
  have program := session (.ofOptions o) [.readProgram]
  exact ParseResult.eq_of_reply (List.cons.inj program).1

/-- Of two names in a row the first would be a type, and an instruction would have an operand, but
here the end of file stands between them. -/
theorem unseen_behind_endOfFile_name :
    let before := sourceTokens false "add".toList
    let last := endToken "add".toList
    let more := sourceTokens false "x".toList
    (∀ x ∈ before, x.kind ≠ .endOfFile) ∧ last.kind = .endOfFile ∧
      parse ⟨true, true, 5⟩ (before ++ [last] ++ more) =
        parse ⟨true, true, 5⟩ (before ++ [last] ++ []) ∧
      replies [.readUntil none, .finish []]
          ((ParserState.ofOptions ⟨true, true, 5⟩).reset (before ++ [last] ++ more)) =
        replies [.readUntil none, .finish []]
          ((ParserState.ofOptions ⟨true, true, 5⟩).reset (before ++ [last] ++ [])) := by
  intro before last more
  have hb : ∀ x ∈ before, x.kind ≠ .endOfFile := by decide +kernel
  have hl : last.kind = .endOfFile := rfl
  have same := unseen_behind_endOfFile before last more [] hb hl
  exact ⟨hb, hl, same.1 _, same.2 _ _⟩

end MapScript
