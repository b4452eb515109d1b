import MapScript.Proofs.Grammar
import MapScript.Proofs.Taking

/-!
# The parser accepts expressions

Every phrase that the grammar derives is taken by the rule of the parser for it, and the nodes are
the ones that the grammar says. The proof goes by induction on the derivation. What a rule needs
to know of the tokens after its own is little: that they do not go on with what it has just read.
-/
namespace MapScript

namespace Token
variable {t : Token} {kind : TokenKind} {word : String}

theorem Is.isA (h : t.Is kind word) (other : TokenKind) (w : String) :
    t.isA other w = (kind == other && sameWord word w) := by
  rw [Token.isA, h.1, h.2]

theorem Is.accepts (h : t.Is kind word) (stop : Stop) :
    stop.accepts t = (kind == stop.kind && stop.word.all (sameWord word ·)) := by
  rw [Stop.accepts, h.1, h.2]

/-- A symbol has no letters, so it is compared as it is. -/
theorem isSymbol_of_isOperator (hw : isLetterless word)
    (h : t.isOperator word) : t.IsSymbol word := by
  simp only [isOperator, isA, Bool.and_eq_true, beq_iff_eq] at h
  exact ⟨h.1, eq_of_sameWord hw h.2⟩

/-- The sign of a link. -/
def isLinkSign (t : Token) : Bool := t.isOperator "." || t.isOperator "->" || t.isOperator "["

/-- A token that goes on with the operand before it. -/
def attaches (t : Token) : Bool := t.kind == .leftParen || t.isLinkSign

theorem isOperator_eq_false (h : t.kind ≠ .operator) (symbol : String) :
    t.isOperator symbol = false := by
  simp [isOperator, isA, h]

theorem isLinkSign_eq_false (h : t.kind ≠ .operator) : t.isLinkSign = false := by
  simp [isLinkSign, isOperator_eq_false h]

theorem attaches_eq_false (h : t.kind ≠ .operator) (hp : t.kind ≠ .leftParen) :
    t.attaches = false := by
  simp [attaches, isLinkSign_eq_false h, hp]

theorem isLinkSign_of_attaches (h : t.attaches = false) : t.isLinkSign = false := by
  rw [attaches, Bool.or_eq_false_iff] at h
  exact h.2

theorem isLinkSign_of_dot (h : t.IsSymbol "." ∨ t.IsSymbol "->") : t.isLinkSign = true := by
  rcases h with h | h <;>
  · rw [isLinkSign, isOperator, isOperator, isOperator, h.isA, h.isA, h.isA]
    decide

theorem isLinkSign_of_bracket (h : t.IsSymbol "[") : t.isLinkSign = true := by
  rw [isLinkSign, isOperator, isOperator, isOperator, h.isA, h.isA, h.isA]
  decide

/-- The token begins a part of an expression, in any place. -/
structure Begins (t : Token) : Prop where
  goes : t.endsExpression = false
  comma : t.isOperator "," = false
  bracket : t.isOperator "]" = false

theorem begins_of_kind (h : t.kind ∈ [.identifier, .number, .string, .leftParen, .leftBrace]) :
    t.Begins := by
  have hk : t.kind ≠ .operator := by
    intro hk
    rw [hk] at h
    exact absurd h (by decide)
  refine ⟨?_, isOperator_eq_false hk _, isOperator_eq_false hk _⟩
  simp only [List.mem_cons, List.not_mem_nil, or_false] at h
  rcases h with h | h | h | h | h <;> simp [endsExpression, h]

theorem begins_of_word (hk : t.kind = .keyword) (h : (ExpressionWord.ofWord? t.word).isSome) :
    t.Begins := by
  have ho : t.kind ≠ .operator := by
    rw [hk]
    decide
  refine ⟨?_, isOperator_eq_false ho _, isOperator_eq_false ho _⟩
  rw [endsExpression, hk]
  simpa using h

theorem IsWord.begins (h : t.IsWord word) (hw : (ExpressionWord.ofWord? word).isSome) :
    t.Begins :=
  begins_of_word h.1 (by rwa [h.2])

theorem isOperator_eq_false_of_ne (symbol : String) (hw : isLetterless symbol)
    (h : t.word ≠ symbol) : t.isOperator symbol = false := by
  rw [Bool.eq_false_iff]
  intro ho
  exact h (isSymbol_of_isOperator hw ho).2

theorem IsPlainOperator.begins (h : t.IsPlainOperator) : t.Begins := by
  rcases h with ⟨hk, hw⟩ | ⟨hk, hw⟩
  · refine ⟨by simp [endsExpression, hk], ?_, ?_⟩
    · exact isOperator_eq_false_of_ne "," (by decide) fun h => by simp [h] at hw
    · exact isOperator_eq_false_of_ne "]" (by decide) fun h => by simp [h] at hw
  · refine begins_of_word hk ?_
    rw [ExpressionWord.ofWord?, if_pos hw]
    rfl

theorem IsPlainOperator.attaches (h : t.IsPlainOperator) : t.attaches = false := by
  rcases h with ⟨hk, hw⟩ | ⟨hk, hw⟩
  · have dot := isOperator_eq_false_of_ne (t := t) "." (by decide) fun h => by simp [h] at hw
    have arrow := isOperator_eq_false_of_ne (t := t) "->" (by decide) fun h => by simp [h] at hw
    have bracket := isOperator_eq_false_of_ne (t := t) "[" (by decide) fun h => by simp [h] at hw
    simp [Token.attaches, isLinkSign, dot, arrow, bracket, hk]
  · exact attaches_eq_false (by rw [hk]; decide) (by rw [hk]; decide)

theorem IsSymbol.attaches (h : t.IsSymbol word) :
    t.attaches = (sameWord word "." || sameWord word "->" || sameWord word "[") := by
  rw [Token.attaches, isLinkSign, isOperator, isOperator, isOperator, h.isA, h.isA, h.isA, h.1]
  rfl

end Token

/-- The stops of an expression inside brackets. -/
def InnerStops (stops : List Stop) : Prop := ∀ stop ∈ stops, stop = .comma ∨ stop = .rightBracket

/-- An expression with these stops ends before these tokens. -/
def EndsBefore (stops : List Stop) (after : List Token) : Prop :=
  (stops.any (·.accepts (front after)) || (front after).endsExpression) = true

theorem Token.Begins.goesOn {t : Token} (ht : t.Begins) {stops : List Stop}
    (hs : InnerStops stops) : (stops.any (·.accepts t) || t.endsExpression) = false := by
  rw [ht.goes, Bool.or_false, List.any_eq_false]
  intro stop hm
  rcases hs stop hm with rfl | rfl
  · exact Bool.eq_false_iff.mp ht.comma
  · exact Bool.eq_false_iff.mp ht.bracket

/-- What ends an expression does not go on with its last operand. -/
theorem EndsBefore.attaches {stops : List Stop} {after : List Token} (h : EndsBefore stops after)
    (hs : InnerStops stops) : (front after).attaches = false := by
  unfold EndsBefore at h
  generalize front after = t at h ⊢
  rcases (Bool.or_eq_true _ _).mp h with h | h
  · obtain ⟨stop, hm, ha⟩ := List.any_eq_true.mp h
    rcases hs stop hm with rfl | rfl
    · have comma : t.IsSymbol "," := Token.isSymbol_of_isOperator (by decide) ha
      rw [comma.attaches]
      decide
    · have bracket : t.IsSymbol "]" := Token.isSymbol_of_isOperator (by decide) ha
      rw [bracket.attaches]
      decide
  · refine Token.attaches_eq_false ?_ ?_
    · intro hk
      simp [Token.endsExpression, hk] at h
    · intro hk
      simp [Token.endsExpression, hk] at h

theorem innerStops_nil : InnerStops [] := fun _ h => (List.not_mem_nil h).elim

theorem innerBracket : InnerStops [.rightBracket] := fun _ h => .inr (List.mem_singleton.mp h)

theorem endsBefore_bracket {r : Token} {after : List Token} (hr : r.IsSymbol "]") :
    EndsBefore [.rightBracket] (r :: after) := by
  simp only [EndsBefore, front_cons, List.any_cons, hr.accepts]
  rfl

theorem endsBefore_of_kind {stops : List Stop} {t : Token} {after : List Token}
    (h : t.kind ∈ [.endOfLine, .rightParen, .rightBrace]) : EndsBefore stops (t :: after) := by
  simp only [List.mem_cons, List.not_mem_nil, or_false] at h
  rcases h with h | h | h <;> simp [EndsBefore, Token.endsExpression, h]

theorem endsBefore_lineEnds {stops : List Stop} {fs after : List Token} (hf : LineEnds fs)
    (h : EndsBefore stops after) : EndsBefore stops (fs ++ after) := by
  cases fs with
  | nil => exact h
  | cons t fs => exact endsBefore_of_kind (by simp [hf t List.mem_cons_self])

theorem innerComma : InnerStops [.comma] := fun _ h => .inl (List.mem_singleton.mp h)

theorem isOperator_comma {t : Token} (h : t.IsSymbol ",") : t.isOperator "," = true := by
  rw [Token.isOperator, h.isA]
  rfl

theorem endsBefore_comma {stops : List Stop} {comma : Token} {after : List Token}
    (hs : .comma ∈ stops) (h : comma.IsSymbol ",") : EndsBefore stops (comma :: after) := by
  rw [EndsBefore, front_cons, Bool.or_eq_true, List.any_eq_true]
  exact .inl ⟨_, hs, isOperator_comma h⟩

theorem Token.Begins.kind_ne {t : Token} (h : t.Begins) : t.kind ≠ .endOfLine := by
  intro hk
  have goes := h.goes
  simp [Token.endsExpression, hk] at goes

namespace Parser
variable {ts us xs after : List Token} {t : Token} {stops : List Stop} {ns ps : List Node}

theorem takes_noParts (h : EndsBefore stops after) (reading : Reading) :
    Takes (repeated (expressionPass Place.read stops) reading) [] after reading := by
  refine Takes.done ?_
  unfold EndsBefore at h
  unfold expressionPass
  refine Takes.get fun s hs hr => ?_
  have hc : s.current = front after := by rw [s.current_eq, hr]; rfl
  rw [if_neg (by simp [hs.going]), hc, if_pos h]
  exact .pure _

theorem takes_part {acc : List Node} {stop : Option Stop} {r : Reading} (ht : t.Begins)
    (hs : InnerStops stops)
    (hp : Takes (expressionPart? Place.read) (t :: xs) (ts ++ after) (some ps))
    (hk : Takes (repeated (expressionPass Place.read stops) (acc ++ ps, none)) ts after r) :
    Takes (repeated (expressionPass Place.read stops) (acc, stop)) (t :: xs ++ ts) after r := by
  refine Takes.again ?_ (List.cons_ne_nil t xs) hk
  unfold expressionPass
  refine Takes.get fun s hq hr => ?_
  have hc : s.current = t := by rw [s.current_eq, hr]; rfl
  rw [if_neg (by simp [hq.going]), hc, ht.goesOn hs]
  exact Takes.no (Takes.andThen hp (.pure _))

/-- The tokens are read as an expression, whatever stands before it among the parts. -/
structure ReadsAs (ts : List Token) (ns : List Node) : Prop where
  begins : (front ts).Begins
  nonempty : ns ≠ []
  takes {stops : List Stop} {acc : List Node} {after : List Token} : InnerStops stops →
    EndsBefore stops after →
    Takes (repeated (expressionPass Place.read stops) (acc, none)) ts after (acc ++ ns, none)

theorem ReadsAs.expression (h : ReadsAs ts ns) (hs : InnerStops stops)
    (he : EndsBefore stops after) : Takes (Parser.expression Place.read stops) ts after ns :=
  Takes.expression (Takes.read (h.takes hs he))

theorem ReadsAs.front_append (h : ReadsAs ts ns) (after : List Token) :
    front (ts ++ after) = front ts := by
  cases ts with
  | nil => cases h.begins.goes
  | cons t ts => rfl

theorem takes_single {n : Node} (ht : t.kind ≠ .endOfFile) :
    Takes (single n) [t] after (some [n]) :=
  Takes.advance ht (.pure _)

theorem takes_operator (h : t.IsPlainOperator) :
    Takes (expressionPart? Place.read) [t] after (some [.operator t.word]) := by
  unfold expressionPart?
  refine Takes.current ?_
  rcases h with ⟨hk, hw⟩ | ⟨hk, hw⟩
  · simp only [List.singleton_append, front_cons, hk]
    unfold operatorPart?
    rw [if_neg (by rintro h; simp [h] at hw), if_neg (by rintro h; simp [h] at hw)]
    exact takes_single (by rw [hk]; decide)
  · simp only [List.singleton_append, front_cons, hk]
    unfold wordPart?
    rw [ExpressionWord.ofWord?, if_pos hw]
    exact takes_single (by rw [hk]; decide)

theorem takes_noLink (h : (front after).isLinkSign = false) :
    Takes (link? Place.read) [] after none := by
  simp only [Token.isLinkSign, Bool.or_eq_false_iff] at h
  unfold link?
  refine Takes.eat_not (by simp [h]) (Takes.no ?_)
  exact Takes.eat_not (by simp [h]) (Takes.no (.pure _))

theorem takes_property {d : Token} (hd : d.IsSymbol "." ∨ d.IsSymbol "->")
    (ht : t.kind = .identifier ∨ t.kind = .keyword) :
    Takes (link? Place.read) [d, t] after (some (.property t.word)) := by
  have sign : (d.isOperator "." || d.isOperator "->") = true := by
    rcases hd with hd | hd
    · rw [Token.isOperator, hd.isA]
      rfl
    · rw [Bool.or_eq_true, Token.isOperator, hd.isA, Token.isOperator, hd.isA]
      exact .inr rfl
  have hk : d.kind = .operator := by rcases hd with hd | hd <;> exact hd.1
  unfold link?
  refine Takes.eat sign (by simp [hk]) (Takes.yes (Takes.current ?_))
  rw [List.singleton_append, front_cons, if_pos ht]
  exact Takes.advance (by rcases ht with ht | ht <;> simp [ht]) (.pure _)

theorem takes_index {l r : Token} (hl : l.IsSymbol "[")
    (h : ReadsAs ts ns) (hr : r.IsSymbol "]") :
    Takes (link? Place.read) (l :: (ts ++ [r])) after (some (.index ns)) := by
  unfold link?
  refine Takes.eat_not ?_ (Takes.no (Takes.eat ?_ (by simp [hl.1]) (Takes.yes ?_)))
  · simp only [List.cons_append, front_cons, Token.isOperator, hl.isA]
    rfl
  · rw [Token.isOperator, hl.isA]
    rfl
  · refine Takes.bind (h.expression innerBracket ?_) (Takes.eatOr ?_ (by simp [hr.1]) (.pure _))
    · exact endsBefore_bracket hr
    · rw [Token.isOperator, hr.isA]
      rfl

theorem takes_noLinks (h : (front after).isLinkSign = false) (chain : List Node) :
    Takes (repeated (chainPass Place.read) chain) [] after chain :=
  Takes.done (Takes.isAborted (Takes.no (Takes.andThen (takes_noLink h) (.pure _))))

theorem takes_chainLink {n : Node} {chain ns : List Node} (hx : xs ≠ [])
    (hl : Takes (link? Place.read) xs (ts ++ after) (some n))
    (hk : Takes (repeated (chainPass Place.read) (chain ++ [n])) ts after ns) :
    Takes (repeated (chainPass Place.read) chain) (xs ++ ts) after ns :=
  Takes.again (Takes.isAborted (Takes.no (Takes.andThen hl (.pure _)))) hx hk

theorem takes_noSuffixes (h : (front after).attaches = false) (parts : List Node) :
    Takes (repeated (postfixPass Place.read) parts) [] after parts := by
  simp only [Token.attaches, Bool.or_eq_false_iff, beq_eq_false_iff_ne] at h
  refine Takes.done (Takes.isAborted (Takes.no (Takes.current ?_)))
  rw [List.nil_append, if_neg h.1]
  exact Takes.andThen (takes_noLink h.2) (.pure _)

theorem takes_suffixLink {n : Node} {parts ns : List Node} (ht : t.isLinkSign)
    (hl : Takes (link? Place.read) (t :: xs) (ts ++ after) (some n))
    (hk : Takes (repeated (postfixPass Place.read) (parts ++ [n])) ts after ns) :
    Takes (repeated (postfixPass Place.read) parts) (t :: xs ++ ts) after ns := by
  have hp : t.kind ≠ .leftParen := by
    intro hp
    rw [Token.isLinkSign_eq_false (by rw [hp]; decide)] at ht
    cases ht
  refine Takes.again (Takes.isAborted (Takes.no (Takes.current ?_))) (List.cons_ne_nil t xs) hk
  rw [List.cons_append, front_cons, if_neg hp]
  exact Takes.andThen hl (.pure _)

theorem takes_suffixCall {l : Token} {parts args ns : List Node} (hp : isUncallable parts = false)
    (hl : l.kind = .leftParen)
    (ha : Takes (repeated (argumentPass Place.read [.comma] (·.kind == .rightParen) .rightParen) [])
      ts (us ++ after) args)
    (hk : Takes (repeated (postfixPass Place.read) [.call parts false args]) us after ns) :
    Takes (repeated (postfixPass Place.read) parts) (l :: (ts ++ us)) after ns := by
  have again : Takes (postfixPass Place.read parts) (l :: ts) (us ++ after)
      (.again [.call parts false args]) := by
    refine Takes.isAborted (Takes.no (Takes.current ?_))
    rw [List.cons_append, front_cons, if_pos hl, hp]
    exact Takes.no (Takes.map (Takes.advance (by simp [hl]) (Takes.map ha)))
  exact Takes.again again (List.cons_ne_nil l ts) hk

/-- What a loop over arguments asks of its stops and its closing bracket. -/
structure Brackets (square : Bool) (stops : List Stop) (closer : Token → Bool) : Prop where
  inner : InnerStops stops
  comma : .comma ∈ stops
  closes {t : Token} : t.ClosesArguments square →
    closer t = true ∧ (stops.any (·.accepts t) || t.endsExpression) = true
  begins {t : Token} : t.Begins → closer t = false
  separates {t : Token} : t.IsSymbol "," → closer t = false

theorem roundBrackets : Brackets false [.comma] (·.kind == .rightParen) where
  inner stop hs := .inl (List.mem_singleton.mp hs)
  comma := List.mem_singleton_self _
  closes {t} ht := by
    have ht : t.kind = .rightParen := ht
    simp [ht, Token.endsExpression]
  begins {t} ht := by
    rw [beq_eq_false_iff_ne]
    intro hk
    have goes := ht.goes
    simp [Token.endsExpression, hk] at goes
  separates {t} ht := by simp [ht.1]

theorem squareBrackets : Brackets true [.comma, .rightBracket] (·.isOperator "]") where
  inner stop hs := by simpa using hs
  comma := List.mem_cons_self
  closes {t} ht := by
    have ht : t.IsSymbol "]" := ht
    simp only [Token.isOperator, ht.isA, ht.accepts, List.any_cons, List.any_nil]
    exact ⟨rfl, rfl⟩
  begins ht := ht.bracket
  separates ht := by
    rw [Token.isOperator, ht.isA]
    decide

theorem kind_ne_of_closesArguments {square : Bool} (h : t.ClosesArguments square) :
    t.kind ≠ .endOfFile ∧ t.kind ≠ .endOfLine ∧ t.isOperator "," = false := by
  cases square with
  | true =>
      have h : t.IsSymbol "]" := h
      rw [Token.isOperator, h.isA, h.1]
      decide
  | false =>
      have h : t.kind = .rightParen := h
      refine ⟨by simp [h], by simp [h], Token.isOperator_eq_false (by simp [h]) _⟩

section
variable {square : Bool} {closer : Token → Bool} {missing : Expectation}
variable {es fs : List Token} {r comma : Token} {before parts args : List Node}

theorem takes_noArguments (hb : Brackets square stops closer) (he : LineEnds es)
    (hr : r.ClosesArguments square) :
    Takes (repeated (argumentPass Place.read stops closer missing) before) (es ++ [r]) after
      before := by
  obtain ⟨hf, hl, -⟩ := kind_ne_of_closesArguments hr
  refine Takes.done (Takes.skipLineEnds he hl (Takes.isAborted (Takes.no ?_)))
  exact Takes.eat (hb.closes hr).1 hf (Takes.yes (.pure _))

theorem addArgument_eq (h : parts ≠ []) :
    addArgument before parts = before ++ [.ofParts parts] := by
  rw [addArgument, if_neg (by simpa using h)]

/-- One argument with the line ends around it, up to a token `d` that ends it. -/
theorem takes_argument {d : Token} {result : Pass (List Node)} (hb : Brackets square stops closer)
    (he : LineEnds es) (h : ReadsAs ts parts) (hf : LineEnds fs) (hl : d.kind ≠ .endOfLine)
    (hd : EndsBefore stops (d :: after))
    (hk : Takes (do
      if ← eatOperator "," then return .again (before ++ [.ofParts parts])
      eatOr missing closer
      return .done (before ++ [.ofParts parts])) [d] after result) :
    Takes (argumentPass Place.read stops closer missing before) (es ++ (ts ++ (fs ++ [d]))) after
      result := by
  have ends : EndsBefore stops ((fs ++ [d]) ++ after) := by
    rw [List.append_assoc]
    exact endsBefore_lineEnds hf hd
  have first : front (ts ++ (fs ++ [d]) ++ after) = front ts := by
    rw [List.append_assoc, h.front_append]
  rw [← addArgument_eq h.nonempty] at hk
  refine Takes.skipLineEnds he (by rw [first]; exact h.begins.kind_ne) ?_
  refine Takes.isAborted (Takes.no (Takes.eat_not (by rw [first]; exact hb.begins h.begins) ?_))
  exact Takes.no (Takes.bind (h.expression hb.inner ends) (Takes.skipLineEnds hf hl hk))

theorem takes_lastArgument (hb : Brackets square stops closer) (he : LineEnds es)
    (h : ReadsAs ts parts) (hf : LineEnds fs) (hr : r.ClosesArguments square) :
    Takes (repeated (argumentPass Place.read stops closer missing) before)
      (es ++ (ts ++ (fs ++ [r]))) after (before ++ [.ofParts parts]) := by
  obtain ⟨hk, hl, hc⟩ := kind_ne_of_closesArguments hr
  refine Takes.done (takes_argument hb he h hf hl (hb.closes hr).2 ?_)
  exact Takes.eat_not hc (Takes.no (Takes.eatOr (hb.closes hr).1 hk (.pure _)))

theorem takes_moreArguments (hb : Brackets square stops closer) (he : LineEnds es)
    (h : ReadsAs ts parts) (hf : LineEnds fs) (hc : comma.IsSymbol ",")
    (hk : Takes (repeated (argumentPass Place.read stops closer missing)
      (before ++ [.ofParts parts])) us after args) :
    Takes (repeated (argumentPass Place.read stops closer missing) before)
      (es ++ (ts ++ (fs ++ comma :: us))) after args := by
  have shape : es ++ (ts ++ (fs ++ comma :: us)) = es ++ (ts ++ (fs ++ [comma])) ++ us := by simp
  rw [shape]
  refine Takes.again (takes_argument hb he h hf (by simp [hc.1]) ?_ ?_) (by simp) hk
  · exact endsBefore_comma hb.comma hc
  · exact Takes.eat (isOperator_comma hc) (by simp [hc.1]) (Takes.yes (.pure _))

end

section
variable {es fs : List Token} {key colon comma r : Token} {value : List Node}
variable {before fields : List (String × List Node)}

theorem takes_noFields (he : LineEnds es) (hr : r.kind = .rightBrace) :
    Takes (repeated (fieldPass Place.read) before) (es ++ [r]) after before := by
  refine Takes.done (Takes.skipLineEnds he (by simp [hr]) (Takes.isAborted (Takes.no ?_)))
  exact Takes.eat (by simp [hr]) (by simp [hr]) (Takes.yes (.pure _))

theorem kind_ne_of_isFieldName (h : key.kind.isFieldName) : key.kind ≠ .operator := by
  intro hk
  rw [hk] at h
  cases h

/-- One field, up to what separates it from the next. -/
theorem takes_field {ds : List Token} {result : Pass (List (String × List Node))}
    (he : LineEnds es) (hn : key.kind.isFieldName)
    (hc : colon.IsSymbol ":" ∨ colon.IsSymbol "=") (h : ReadsAs ts value)
    (hd : EndsBefore [.comma] (ds ++ after))
    (hk : Takes (do
      skipLineEnds
      let _ ← eatOperator ","
      return .again (before ++ [(key.word, value)])) ds after result) :
    Takes (fieldPass Place.read before) (es ++ key :: colon :: (ts ++ ds)) after result := by
  have hkey : key.kind ≠ .endOfLine ∧ key.kind ≠ .rightBrace ∧ key.kind ≠ .endOfFile := by
    generalize key.kind = kind at hn
    cases kind <;> simp_all [TokenKind.isFieldName]
  have sign : (colon.isOperator ":" || colon.isOperator "=") = true := by
    rcases hc with hc | hc <;>
      rw [Bool.or_eq_true, Token.isOperator, hc.isA, Token.isOperator, hc.isA]
    · exact .inl rfl
    · exact .inr rfl
  have hck : colon.kind = .operator := by rcases hc with hc | hc <;> exact hc.1
  refine Takes.skipLineEnds he hkey.1 (Takes.isAborted (Takes.no ?_))
  refine Takes.eat_not (by simpa using hkey.2.1) (Takes.no (Takes.current ?_))
  rw [List.cons_append, front_cons, if_pos hn]
  refine Takes.advance hkey.2.2 (Takes.eatOr sign (by simp [hck]) ?_)
  exact Takes.bind (h.expression innerComma hd) hk

theorem takes_fieldWithComma (he : LineEnds es) (hn : key.kind.isFieldName)
    (hc : colon.IsSymbol ":" ∨ colon.IsSymbol "=") (h : ReadsAs ts value) (hf : LineEnds fs)
    (hm : comma.IsSymbol ",")
    (hk : Takes (repeated (fieldPass Place.read) (before ++ [(key.word, value)])) us after fields) :
    Takes (repeated (fieldPass Place.read) before)
      (es ++ key :: colon :: (ts ++ (fs ++ comma :: us))) after fields := by
  have shape : es ++ key :: colon :: (ts ++ (fs ++ comma :: us)) =
      es ++ key :: colon :: (ts ++ (fs ++ [comma])) ++ us := by simp
  rw [shape]
  refine Takes.again (takes_field he hn hc h ?_ ?_) (by simp) hk
  · rw [List.append_assoc]
    exact endsBefore_lineEnds hf (endsBefore_comma (by simp) hm)
  · refine Takes.skipLineEnds hf (by simp [hm.1]) ?_
    exact Takes.eat (isOperator_comma hm) (by simp [hm.1]) (.pure _)

theorem takes_fieldOnLine (he : LineEnds es) (hn : key.kind.isFieldName)
    (hc : colon.IsSymbol ":" ∨ colon.IsSymbol "=") (h : ReadsAs ts value) (hf : LineEnds fs)
    (hu : t.kind ≠ .endOfLine) (hb : fs = [] → t.kind = .rightBrace) (hm : t.kind ≠ .operator)
    (hk : Takes (repeated (fieldPass Place.read) (before ++ [(key.word, value)])) (t :: us) after
      fields) :
    Takes (repeated (fieldPass Place.read) before)
      (es ++ key :: colon :: (ts ++ (fs ++ t :: us))) after fields := by
  have shape : es ++ key :: colon :: (ts ++ (fs ++ t :: us)) =
      es ++ key :: colon :: (ts ++ fs) ++ t :: us := by simp
  rw [shape]
  refine Takes.again (takes_field he hn hc h ?_ ?_) (by simp) hk
  · cases fs with
    | nil => exact endsBefore_of_kind (by simp [hb rfl])
    | cons f fs => exact endsBefore_of_kind (by simp [hf f List.mem_cons_self])
  · exact Takes.skipLastLineEnds hf hu
      (Takes.eat_not (Token.isOperator_eq_false hm ",") (.pure _))

end

section
variable {l r : Token} {chain body items : List Node} {fields : List (String × List Node)}

theorem takes_number (ht : t.kind = .number)
    (h : Takes (repeated (postfixPass Place.read) [.literal .number t.word]) ts after ps) :
    Takes (expressionPart? Place.read) (t :: ts) after (some ps) := by
  refine Takes.current ?_
  simp only [List.cons_append, front_cons, ht]
  exact Takes.advance (by simp [ht]) (Takes.map h)

theorem takes_string (ht : t.kind = .string)
    (h : Takes (repeated (postfixPass Place.read) [.literal .string t.word]) ts after ps) :
    Takes (expressionPart? Place.read) (t :: ts) after (some ps) := by
  refine Takes.current ?_
  simp only [List.cons_append, front_cons, ht]
  exact Takes.advance (by simp [ht]) (Takes.map h)

/-- The operand that a keyword begins. -/
theorem takes_word {word : ExpressionWord} (ht : t.kind = .keyword)
    (hw : ExpressionWord.ofWord? t.word = some word)
    (h : Takes (match word with
      | .operator => single (.operator t.word)
      | .nil => single (.literal .nil "null")
      | .bool => single (.literal .bool t.word)
      | .await => return some (← await Place.read)
      | .doBlock => return some [← doBlock Place.read]) (t :: ts) after (some ps)) :
    Takes (expressionPart? Place.read) (t :: ts) after (some ps) := by
  refine Takes.current ?_
  simp only [List.cons_append, front_cons, ht]
  unfold wordPart?
  rw [hw]
  cases word <;> exact h

theorem takes_reference (ht : t.kind = .identifier)
    (hc : Takes (repeated (chainPass Place.read) []) xs (ts ++ after) chain)
    (hs : Takes (repeated (postfixPass Place.read) [.ofChain t.word chain]) ts after ps) :
    Takes (reference Place.read) (t :: (xs ++ ts)) after ps :=
  Takes.current (Takes.advance (by simp [ht]) (Takes.bind hc hs))

theorem isUncallable_ofChain (name : String) (chain : List Node) :
    isUncallable [.ofChain name chain] = false := by
  cases chain <;> rfl

theorem takes_name (ht : t.kind = .identifier)
    (h : Takes (reference Place.read) (t :: ts) after ps) :
    Takes (expressionPart? Place.read) (t :: ts) after (some ps) := by
  refine Takes.current ?_
  simp only [List.cons_append, front_cons, ht]
  exact Takes.map h

theorem takes_await {a : Token} (ha : a.IsWord "await") (ht : t.kind = .identifier)
    (h : Takes (reference Place.read) (t :: ts) after ps) :
    Takes (expressionPart? Place.read) (a :: t :: ts) after (some (awaited ps)) := by
  refine takes_word ha.1 (by rw [ha.2]; rfl) (Takes.map ?_)
  refine Takes.advance (by simp [ha.1]) (Takes.markAsync (Takes.current ?_))
  rw [List.cons_append, front_cons, if_pos ht]
  exact Takes.map h

theorem takes_group (hl : l.kind = .leftParen) (h : ReadsAs ts body) (hr : r.kind = .rightParen)
    (hs : Takes (repeated (postfixPass Place.read) [.group body]) us after ps) :
    Takes (expressionPart? Place.read) (l :: (ts ++ r :: us)) after (some ps) := by
  have shape : l :: (ts ++ r :: us) = l :: (ts ++ [r]) ++ us := by simp
  refine Takes.current ?_
  simp only [List.cons_append, front_cons, hl]
  rw [shape]
  refine Takes.bind (Takes.advance (by simp [hl]) ?_) (Takes.map hs)
  refine Takes.bind (h.expression innerStops_nil (endsBefore_of_kind (by simp [hr]))) ?_
  exact Takes.eatOr (by simp [hr]) (by simp [hr]) (.pure _)

theorem takes_array (hl : l.IsSymbol "[")
    (h : Takes (repeated (argumentPass Place.read [.comma, .rightBracket] (·.isOperator "]")
      .rightBracket) []) ts (us ++ after) items)
    (hs : Takes (repeated (postfixPass Place.read) [.array items]) us after ps) :
    Takes (expressionPart? Place.read) (l :: (ts ++ us)) after (some ps) := by
  refine Takes.current ?_
  simp only [List.cons_append, front_cons, hl.1]
  unfold operatorPart?
  rw [hl.2, if_neg (by decide), if_pos rfl]
  rw [← List.cons_append]
  exact Takes.bind (Takes.advance (by simp [hl.1]) (Takes.map h)) (Takes.map hs)

theorem takes_object (hl : l.kind = .leftBrace)
    (h : Takes (repeated (fieldPass Place.read) []) ts (us ++ after) fields)
    (hs : Takes (repeated (postfixPass Place.read) [.object fields]) us after ps) :
    Takes (expressionPart? Place.read) (l :: (ts ++ us)) after (some ps) := by
  refine Takes.current ?_
  simp only [List.cons_append, front_cons, hl]
  rw [← List.cons_append]
  exact Takes.bind (Takes.advance (by simp [hl]) (Takes.map h)) (Takes.map hs)

theorem takes_doBlock {c : Token} {stop : Stop} (ht : t.IsWord "do") (hc : c.IsWord "end")
    (h : Takes (Place.read (.statements .block Stop.doEnd)) ts (c :: after) (ns, some stop)) :
    Takes (expressionPart? Place.read) (t :: (ts ++ [c])) after
      (some [.doBlock (ns.any Node.waits) ns]) := by
  refine takes_word ht.1 (by rw [ht.2]; rfl) (Takes.map ?_)
  refine Takes.current (Takes.advance (by simp [ht.1]) ?_)
  refine Takes.map (Takes.framed (blockBody_collects Place.read_collects _ _ _) ?_)
  exact Takes.blockBody h (by simp [hc.1])

end

/-- The tokens are read as an operand. -/
structure ReadsAsOperand (ts : List Token) (ns : List Node) : Prop where
  begins : (front ts).Begins
  nonempty : ns ≠ []
  takes {after : List Token} : (front after).attaches = false →
    Takes (expressionPart? Place.read) ts after (some ns)

/-- The tokens are read as parts of an expression, maybe right after an operand. -/
structure ReadsAsParts (afterOperand : Bool) (ts : List Token) (ns : List Node) : Prop where
  begins : ts ≠ [] → (front ts).Begins ∧ ns ≠ []
  detached {after : List Token} : afterOperand = true → (front after).attaches = false →
    (front (ts ++ after)).attaches = false
  takes {stops : List Stop} {acc : List Node} {after : List Token} : InnerStops stops →
    EndsBefore stops after →
    Takes (repeated (expressionPass Place.read stops) (acc, none)) ts after (acc ++ ns, none)

namespace ReadsAsParts
variable {b : Bool}

theorem nil : ReadsAsParts b [] [] where
  begins h := absurd rfl h
  detached _ h := h
  takes {stops acc after} _ he := by
    rw [List.append_nil]
    exact takes_noParts he _

theorem operator (ht : t.IsPlainOperator) (h : ReadsAsParts false ts ns) :
    ReadsAsParts b (t :: ts) (.operator t.word :: ns) where
  begins _ := ⟨ht.begins, List.cons_ne_nil _ _⟩
  detached _ _ := ht.attaches
  takes {stops acc after} hs he := by
    rw [List.append_cons]
    exact takes_part ht.begins hs (takes_operator ht) (h.takes hs he)

theorem operand (hx : ReadsAsOperand xs ps) (h : ReadsAsParts true ts ns) :
    ReadsAsParts false (xs ++ ts) (ps ++ ns) := by
  cases xs with
  | nil => cases hx.begins.goes
  | cons t xs =>
      refine ⟨fun _ => ⟨hx.begins, by simp [hx.nonempty]⟩, by simp,
        fun {stops acc after} hs he => ?_⟩
      have ha := h.detached rfl (he.attaches hs)
      rw [← List.append_assoc]
      exact takes_part hx.begins hs (hx.takes ha) (h.takes hs he)

theorem readsAs (h : ReadsAsParts false ts ns) (hn : ts ≠ []) : ReadsAs ts ns :=
  ⟨(h.begins hn).1, (h.begins hn).2, h.takes⟩

end ReadsAsParts

theorem ReadsAs.parts (h : ReadsAs ts ns) : ReadsAsParts false ts ns :=
  ⟨fun _ => ⟨h.begins, h.nonempty⟩, by simp, h.takes⟩

theorem ReadsAsOperand.readsAs (hx : ReadsAsOperand xs ps) : ReadsAs xs ps := by
  have parts := ReadsAsParts.operand hx .nil
  rw [List.append_nil, List.append_nil] at parts
  refine parts.readsAs ?_
  rintro rfl
  cases hx.begins.goes

/-- An operand, an operator and an expression. -/
theorem ReadsAsOperand.operation (hx : ReadsAsOperand xs ps) (ht : t.IsPlainOperator)
    (h : ReadsAs ts ns) : ReadsAs (xs ++ t :: ts) (ps ++ .operator t.word :: ns) :=
  (ReadsAsParts.operand hx (.operator ht h.parts)).readsAs (by simp)

/-- A name with its links. -/
theorem readsAsOperand_reference {chain : List Node} (ht : t.kind = .identifier)
    (h : ∀ after, (front after).isLinkSign = false →
      Takes (repeated (chainPass Place.read) []) ts after chain) :
    ReadsAsOperand (t :: ts) [.ofChain t.word chain] where
  begins := Token.begins_of_kind (by simp [ht])
  nonempty := by simp
  takes {after} ha := by
    have taken := takes_reference ht (h ([] ++ after) (Token.isLinkSign_of_attaches ha))
      (takes_noSuffixes ha _)
    rw [List.append_nil] at taken
    exact takes_name ht taken

theorem readsAsOperand_identifier (ht : t.kind = .identifier) :
    ReadsAsOperand [t] [.identifier t.word] :=
  readsAsOperand_reference ht fun _ hs => takes_noLinks hs []

end Parser

end MapScript
