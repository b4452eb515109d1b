import MapScript.Lexeme.Tokens

/-!
# How a source is cut
-/
namespace MapScript

namespace Lexeme

/-- A lexeme is what one rule takes, or a character by itself. -/
theorem cut_cases (c : Char) (cs : List Char) :
    cut c cs = .one .stray cs ∨ ∃ rule ∈ rules, rule c cs = some (cut c cs) := by
  unfold cut
  cases h : rules.findSome? fun rule => rule c cs with
  | none => exact .inl rfl
  | some found => exact .inr (List.exists_of_findSome?_eq_some h)

/-- An operator is one character or two. -/
theorem length_taken_of_symbol {c : Char} {cs : List Char} (h : (cut c cs).kind = .symbol) :
    (cut c cs).taken.length ≤ 1 := by
  rcases cut_cases c cs with hs | ⟨rule, hm, hr⟩
  · rw [hs] at h
    cases h
  generalize cut c cs = found at h hr ⊢
  simp only [rules, List.mem_cons, List.not_mem_nil, or_false] at hm
  rcases hm with rfl | rfl | rfl | rfl | rfl | rfl | rfl | rfl | rfl
  · grind [blank?, Cut.run]
  · grind [lineEnd?, Cut.one]
  · unfold lineComment? at hr
    split at hr <;> grind [Cut.run]
  · unfold blockComment? at hr
    split at hr <;> grind
  · grind [quoted?]
  · grind [number?, Cut.run]
  · unfold bracket? at hr
    split at hr <;> grind [Cut.one]
  · grind [word?, Cut.run]
  · unfold symbol? at hr
    split at hr <;> grind [Cut.one]

/-- A number or a text does not begin with a letter. -/
theorem isAlpha_of_literal {c : Char} {cs : List Char}
    (h : (cut c cs).kind = .number ∨ ∃ closed, (cut c cs).kind = .quoted closed) :
    c.isAlpha = false := by
  rcases cut_cases c cs with hs | ⟨rule, hm, hr⟩
  · rw [hs] at h
    simp [Cut.one] at h
  generalize cut c cs = found at h hr
  simp only [rules, List.mem_cons, List.not_mem_nil, or_false] at hm
  rcases hm with rfl | rfl | rfl | rfl | rfl | rfl | rfl | rfl | rfl
  · grind [blank?, Cut.run]
  · grind [lineEnd?, Cut.one]
  · unfold lineComment? at hr
    split at hr <;> grind [Cut.run]
  · unfold blockComment? at hr
    split at hr <;> grind
  · have quote : isQuote c = true := by grind [quoted?]
    simp only [isQuote, Bool.or_eq_true, beq_iff_eq] at quote
    rcases quote with (rfl | rfl) | rfl <;> decide
  · have digit : c.isDigit = true := by grind [number?]
    unfold Char.isDigit at digit
    unfold Char.isAlpha Char.isUpper Char.isLower
    simp only [Bool.and_eq_true, decide_eq_true_eq] at digit
    simp only [Bool.or_eq_false_iff, Bool.and_eq_false_iff, decide_eq_false_iff_not]
    grind
  · unfold bracket? at hr
    split at hr <;> grind [Cut.one]
  · grind [word?, Cut.run]
  · unfold symbol? at hr
    split at hr <;> grind [Cut.one]

theorem mem_scanUpTo {bound : Nat} {cs : List Char} {lexeme : Lexeme}
    (h : lexeme ∈ scanUpTo bound cs) :
    ∃ c cs, lexeme = ⟨(cut c cs).kind, c :: (cut c cs).taken⟩ := by
  fun_induction scanUpTo bound cs with
  | case1 | case2 => cases h
  | case3 bound c cs found ih =>
      rcases List.mem_cons.mp h with h | h
      · exact ⟨c, cs, h⟩
      · exact ih h

/-- An operator of a source is one character or two. -/
theorem length_text_of_symbol {source : List Char} {lexeme : Lexeme} (h : lexeme ∈ scan source)
    (hk : lexeme.kind = .symbol) : lexeme.text.length ≤ 2 := by
  obtain ⟨c, cs, rfl⟩ := mem_scanUpTo h
  have length := length_taken_of_symbol hk
  rw [List.length_cons]
  omega

theorem append_of_throughCommentEnd? {cs taken rest : List Char}
    (h : throughCommentEnd? cs = some (taken, rest)) : taken ++ rest = cs := by
  fun_induction throughCommentEnd? cs generalizing taken rest with
  | case1 cs =>
      cases h
      rfl
  | case2 c cs _ ih =>
      obtain ⟨_, found, ⟨⟩⟩ := Option.map_eq_some_iff.mp h
      rw [List.cons_append, ih found]
  | case3 => cases h

theorem append_of_throughQuote? {quote : Char} {cs taken rest : List Char}
    (h : throughQuote? quote cs = some (taken, rest)) : taken ++ rest = cs := by
  fun_induction throughQuote? quote cs generalizing taken rest with
  | case1 | case2 => cases h
  | case3 c cs ih =>
      obtain ⟨_, found, ⟨⟩⟩ := Option.map_eq_some_iff.mp h
      rw [List.cons_append, List.cons_append, ih found]
  | case4 cs =>
      cases h
      rfl
  | case5 c cs _ _ _ ih =>
      obtain ⟨_, found, ⟨⟩⟩ := Option.map_eq_some_iff.mp h
      rw [List.cons_append, ih found]

/-- A cut leaves nothing out. -/
theorem taken_append_rest (c : Char) (cs : List Char) :
    (cut c cs).taken ++ (cut c cs).rest = cs := by
  rcases cut_cases c cs with hs | ⟨rule, hm, hr⟩
  · rw [hs]
    rfl
  generalize cut c cs = found at hr ⊢
  have run (kind : LexemeKind) (p : Char → Bool) (cs : List Char) :
      (Cut.run kind p cs).taken ++ (Cut.run kind p cs).rest = cs := List.takeWhile_append_dropWhile
  simp only [rules, List.mem_cons, List.not_mem_nil, or_false] at hm
  rcases hm with rfl | rfl | rfl | rfl | rfl | rfl | rfl | rfl | rfl
  · grind [blank?]
  · grind [lineEnd?, Cut.one]
  · unfold lineComment? at hr
    split at hr <;> grind
  · unfold blockComment? at hr
    split at hr <;> grind [append_of_throughCommentEnd?]
  · grind [quoted?, append_of_throughQuote?]
  · have rest (cs : List Char) : cs.takeWhile Char.isDigit ++ cs.dropWhile Char.isDigit = cs :=
      List.takeWhile_append_dropWhile
    grind [number?, Cut.run]
  · unfold bracket? at hr
    split at hr <;> grind [Cut.one]
  · grind [word?]
  · unfold symbol? at hr
    split at hr <;> grind [Cut.one]

theorem length_rest_le (c : Char) (cs : List Char) : (cut c cs).rest.length ≤ cs.length := by
  have whole := congrArg List.length (taken_append_rest c cs)
  rw [List.length_append] at whole
  omega

theorem scanUpTo_eq_of_le {bound bound' : Nat} {cs : List Char} (h : cs.length ≤ bound)
    (h' : cs.length ≤ bound') : scanUpTo bound cs = scanUpTo bound' cs := by
  induction bound generalizing bound' cs with
  | zero =>
      cases List.length_eq_zero_iff.mp (Nat.le_zero.mp h)
      cases bound' <;> rfl
  | succ bound ih =>
      cases cs with
      | nil => cases bound' <;> rfl
      | cons c cs =>
          cases bound' with
          | zero => cases h'
          | succ bound' =>
              have length := length_rest_le c cs
              rw [List.length_cons] at h h'
              have rest : scanUpTo bound (cut c cs).rest = scanUpTo bound' (cut c cs).rest :=
                ih (by omega) (by omega)
              rw [scanUpTo, scanUpTo, rest]

/-- The first lexeme is cut off, and the rest is a source again. -/
theorem scan_cons (c : Char) (cs : List Char) :
    scan (c :: cs) = ⟨(cut c cs).kind, c :: (cut c cs).taken⟩ :: scan (cut c cs).rest := by
  have rest := scanUpTo_eq_of_le (length_rest_le c cs) (Nat.le_refl _)
  unfold scan
  rw [List.length_cons, scanUpTo, rest]

/-- The texts of the lexemes joined together are the source. -/
theorem flatMap_text_scan (source : List Char) : (scan source).flatMap (·.text) = source := by
  induction hn : source.length using Nat.strongRecOn generalizing source with
  | ind n ih =>
      cases source with
      | nil => rfl
      | cons c cs =>
          have length := length_rest_le c cs
          have rest := ih _ (by rw [← hn, List.length_cons]; omega) (cut c cs).rest rfl
          rw [scan_cons, List.flatMap_cons, rest, List.cons_append, taken_append_rest]

end Lexeme

theorem mem_of_mem_placeLexemes {lines : LineMap} {offset : Nat} {lexemes : List Lexeme}
    {p : PlacedLexeme} (h : p ∈ placeLexemes lines offset lexemes) : p.lexeme ∈ lexemes := by
  fun_induction placeLexemes lines offset lexemes with
  | case1 => cases h
  | case2 offset lexeme lexemes stop ih =>
      rcases List.mem_cons.mp h with rfl | h
      · exact List.mem_cons_self
      · exact List.mem_cons_of_mem _ (ih h)

/-- The tokens of a source without the end of file. -/
def sourceTokens (keepComments : Bool) (source : List Char) : List Token :=
  (placeLexemes (.ofChars source) 0 (Lexeme.scan source)).filterMap (·.token? keepComments)

theorem tokens_tokenize (keepComments : Bool) (source : String) :
    (tokenize keepComments source).tokens =
      sourceTokens keepComments source.toList ++ [endToken source.toList] := rfl

/-- No lexeme becomes an end of file. -/
theorem kind_ne_of_mem_sourceTokens {keepComments : Bool} {source : List Char} {t : Token}
    (h : t ∈ sourceTokens keepComments source) : t.kind ≠ .endOfFile := by
  obtain ⟨p, -, hp⟩ := List.mem_filterMap.mp h
  obtain ⟨⟨kind, text⟩, content, rfl⟩ := Option.map_eq_some_iff.mp hp
  intro (hk : kind = .endOfFile)
  subst hk
  unfold Lexeme.content? at content
  dsimp only at content
  split at content <;> grind

end MapScript
