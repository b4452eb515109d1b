import MapScript.Proofs.Lexing
import MapScript.Proofs.Spelling.Statements
import Mathlib.Data.List.Forall2

/-!
# A tree tells the words of its program

Nothing is lost on the way from a source to its tree, nothing is told twice and nothing changes its
place: when a program is read without errors, what its tree mentions is what the names, numbers and
texts of the source say, one after the other. Members whose name is a keyword are left out of the
count, since the source has a keyword there.
-/
namespace MapScript

/-- The text says what is mentioned. The name of an instruction is told in small letters. -/
def Mention.Matches : Mention → String → Prop
  | .name word, text => word = text
  | .member word, text => word = text
  | .value literal, text => literal = text
  | .instruction op, text => op = lowerWord text

/-- The mentions without the members whose name is a keyword. -/
def ownMentions (ms : List Mention) : List Mention := ms.filter fun m => !m.isKeywordMember

/-- The texts of the names, numbers and texts among the tokens. -/
def ownTexts (ts : List Token) : List String := (ts.filter Token.isOwn).map Token.word

/-- The kind of the token fits its text: keywords, and only they, are keywords. -/
structure Token.Lexed (t : Token) : Prop where
  keyword : t.kind = .keyword → MapScript.isKeyword t.word = true
  own : t.isOwn = true → MapScript.isKeyword t.word = false

theorem Token.isOwn_of_fence? {t : Token} {f : Fence} (h : t.fence? = some f) :
    t.isOwn = false := by
  cases hk : t.kind with
  | identifier | number | string =>
      rw [fence?, hk] at h
      cases h
  | _ => simp [isOwn, hk]

theorem Token.ClosesBlock.isOwn {t : Token} {word : BlockWord} (h : t.ClosesBlock word) :
    t.isOwn = false :=
  h.elim isOwn_of_fence? isOwn_of_fence?

theorem ownTexts_append (ts us : List Token) :
    ownTexts (ts ++ us) = ownTexts ts ++ ownTexts us := by
  simp [ownTexts]

theorem ownTexts_cons_of_not {t : Token} (h : t.isOwn = false) (ts : List Token) :
    ownTexts (t :: ts) = ownTexts ts := by
  simp [ownTexts, h]

theorem ownTexts_concat_of_not {t : Token} (h : t.isOwn = false) (ts : List Token) :
    ownTexts (ts ++ [t]) = ownTexts ts := by
  simp [ownTexts, h]

theorem ownTexts_singleton_of_own {t : Token} (h : t.isOwn = true) : ownTexts [t] = [t.word] := by
  simp [ownTexts, h]

theorem ownMentions_append (ms ns : List Mention) :
    ownMentions (ms ++ ns) = ownMentions ms ++ ownMentions ns := by
  simp [ownMentions]

theorem matches_member {t : Token} (hk : t.kind.isFieldName) (lexed : t.Lexed) :
    List.Forall₂ Mention.Matches (ownMentions [.member t.word]) (ownTexts [t]) := by
  cases ho : t.isOwn with
  | true =>
      rw [ownTexts_singleton_of_own ho]
      simp [ownMentions, Mention.isKeywordMember, lexed.own ho, Mention.Matches]
  | false =>
      have hw : t.kind = .keyword := by
        simp only [Token.isOwn, TokenKind.isFieldName, List.mem_cons, List.not_mem_nil,
          or_false, decide_eq_true_eq, decide_eq_false_iff_not] at hk ho
        grind
      rw [ownTexts_cons_of_not ho]
      simp [ownMentions, Mention.isKeywordMember, lexed.keyword hw, ownTexts]

/-- What the tokens spell is told by their texts, in the same order. -/
theorem Spells.matches {types : Bool} {form : Form} {ts : List Token} {ms : List Mention}
    (h : Spells types form ts ms) (ht : types = true) (lexed : ∀ t ∈ ts, t.Lexed) :
    List.Forall₂ Mention.Matches (ownMentions ms) (ownTexts ts) := by
  induction h with
  | nil => exact .nil
  | append _ _ ih ih' =>
      obtain ⟨left, right⟩ := List.forall_mem_append.mp lexed
      rw [ownMentions_append, ownTexts_append]
      exact List.rel_append (ih left) (ih' right)
  | silent silent =>
      rw [ownTexts_cons_of_not silent.1]
      exact .nil
  | unrecorded _ untyped =>
      rw [ht] at untyped
      cases untyped
  | name hk | value hk | instruction hk =>
      rw [ownTexts_singleton_of_own (by simp [Token.isOwn, hk])]
      exact .cons rfl .nil
  | property sign hk =>
      rw [ownTexts_cons_of_not sign.isSilent.1]
      exact matches_member hk (lexed _ (by simp))
  | @key t colon hk sign =>
      have texts : ownTexts [t, colon] = ownTexts [t] :=
        ownTexts_concat_of_not sign.isSilent.1 [t]
      rw [texts]
      exact matches_member hk (lexed _ (by simp))
  | bracketed hl _ hr ih =>
      rw [ownTexts_cons_of_not (Token.isOwn_of_fence? hl),
        ownTexts_concat_of_not (Token.isOwn_of_fence? hr)]
      exact ih fun t ht => lexed t (by simp [ht])
  | block ho _ hc ih =>
      rw [ownTexts_cons_of_not (Token.isOwn_of_fence? ho), ownTexts_concat_of_not hc.isOwn]
      exact ih fun t ht => lexed t (by simp [ht])
  | condition ho _ ih =>
      rw [ownTexts_cons_of_not (Token.isOwn_of_fence? ho)]
      exact ih fun t ht => lexed t (by simp [ht])
  | onlyBranch _ hc ih =>
      rw [ownTexts_concat_of_not hc.isOwn]
      exact ih fun t ht => lexed t (by simp [ht])
  | lastBranch _ he _ hc ih ih' =>
      rw [ownMentions_append, ownTexts_append, ownTexts_cons_of_not (Token.isOwn_of_fence? he),
        ownTexts_concat_of_not hc.isOwn]
      exact List.rel_append (ih fun t ht => lexed t (by simp [ht]))
        (ih' fun t ht => lexed t (by simp [ht]))
  | moreBranches _ he _ ih ih' =>
      rw [ownMentions_append, ownTexts_append, ownTexts_cons_of_not (Token.isOwn_of_fence? he)]
      exact List.rel_append (ih fun t ht => lexed t (by simp [ht]))
        (ih' fun t ht => lexed t (by simp [ht]))

/-- Keywords begin with a letter. -/
theorem isKeyword_of_isAlpha_eq_false {c : Char} (h : c.isAlpha = false) (cs : List Char) :
    isKeyword (String.ofList (c :: cs)) = false := by
  have letters : keywords.all (fun word => word.toList.head?.any Char.isAlpha) = true := by decide
  rw [isKeyword, List.any_eq_false]
  intro word hm same
  have first := List.all_eq_true.mp letters word hm
  unfold sameWord at same
  rw [beq_iff_eq, String.toList_ofList] at same
  cases hw : word.toList with
  | nil =>
      rw [hw] at same
      cases same
  | cons d ds =>
      rw [hw] at same first
      have hd : d = c := eq_of_toLower_eq h (List.cons.inj same).1
      rw [List.head?_cons, Option.any_some, hd, h] at first
      cases first

theorem lexed_of_mem_sourceTokens {keepComments : Bool} {source : List Char} {t : Token}
    (h : t ∈ sourceTokens keepComments source) : t.Lexed := by
  obtain ⟨p, hp, hc⟩ := List.mem_filterMap.mp h
  obtain ⟨⟨kind, text⟩, content, rfl⟩ := Option.map_eq_some_iff.mp hc
  obtain ⟨c, cs, lexeme⟩ := Lexeme.mem_scanUpTo (mem_of_mem_placeLexemes hp)
  -- A kind that is neither a keyword nor a word of the program's own says nothing of its text.
  have other (hk : kind ≠ .keyword) (ho : kind ∉ [.identifier, .number, .string]) :
      Token.Lexed ⟨kind, text, some p.line.toNat, p.span⟩ := by
    refine ⟨fun h => absurd h hk, fun h => absurd ?_ ho⟩
    simpa [Token.isOwn] using h
  have literal (hl : p.lexeme.kind = .number ∨ ∃ closed, p.lexeme.kind = .quoted closed)
      (hk : kind ≠ .keyword) (ht : text = some (String.ofList p.lexeme.text)) :
      Token.Lexed ⟨kind, text, some p.line.toNat, p.span⟩ := by
    refine ⟨fun h => absurd h hk, fun _ => ?_⟩
    rw [lexeme] at hl
    rw [ht, lexeme]
    exact isKeyword_of_isAlpha_eq_false (Lexeme.isAlpha_of_literal hl) _
  unfold Lexeme.content? at content
  cases hk : p.lexeme.kind with
  | quoted closed =>
      rw [hk] at content
      obtain ⟨rfl, rfl⟩ := Prod.mk.inj (Option.some.inj content)
      exact literal (.inr ⟨closed, hk⟩) (by decide) rfl
  | number =>
      rw [hk] at content
      obtain ⟨rfl, rfl⟩ := Prod.mk.inj (Option.some.inj content)
      exact literal (.inl hk) (by decide) rfl
  | word =>
      rw [hk] at content
      dsimp only at content
      split at content
      · cases content
      split at content
      · rename_i keyword
        obtain ⟨rfl, rfl⟩ := Prod.mk.inj (Option.some.inj content)
        exact ⟨fun _ => (isKeyword_lowerWord _).trans keyword, fun h => by cases h⟩
      · rename_i name
        obtain ⟨rfl, rfl⟩ := Prod.mk.inj (Option.some.inj content)
        exact ⟨fun h => (by cases h), fun _ => eq_false_of_ne_true name⟩
  | lineComment =>
      rw [hk] at content
      dsimp only at content
      split at content
      · obtain ⟨rfl, rfl⟩ := Prod.mk.inj (Option.some.inj content)
        exact other (by decide) (by decide)
      · cases content
  | blank | blockComment _ | stray =>
      rw [hk] at content
      cases content
  | lineEnd | leftParen | rightParen | leftBrace | rightBrace | symbol =>
      rw [hk] at content
      obtain ⟨rfl, rfl⟩ := Prod.mk.inj (Option.some.inj content)
      exact other (by decide) (by decide)

/-- A program that is read without errors, with its types, is told by its tree: what the tree
mentions is what the names, numbers and texts of the source say, element by element. -/
theorem parse_tokenize_words {o : ParseOptions} (types : o.types = true) (keepComments : Bool)
    (source : String) (clean : (parse o (tokenize keepComments source).tokens).errors = []) :
    List.Forall₂ Mention.Matches
      (ownMentions (mentionsOf (parse o (tokenize keepComments source).tokens).tree.body))
      (ownTexts (tokenize keepComments source).tokens) := by
  rw [tokens_tokenize] at clean ⊢
  have spelled := parse_spells (fun _ => kind_ne_of_mem_sourceTokens) rfl clean
  rw [ownTexts_concat_of_not rfl]
  exact spelled.matches types fun _ => lexed_of_mem_sourceTokens

/-- A function with types, an instruction and members whose names are keywords. -/
theorem parse_tokenize_words_heal :
    let o : ParseOptions := ⟨true, true, 5⟩
    let source := "function heal takes unit u\nMOV ax, 2\nu.end = \x7bfor: \"hp\"\x7d\nend"
    let tokens := (tokenize false source).tokens
    (parse o tokens).errors = [] ∧
      mentionsOf (parse o tokens).tree.body =
        [.name "heal", .name "unit", .name "u", .instruction "mov", .name "ax", .value "2",
          .name "u", .member "end", .member "for", .value "\"hp\""] ∧
      List.Forall₂ Mention.Matches (ownMentions (mentionsOf (parse o tokens).tree.body))
        ["heal", "unit", "u", "MOV", "ax", "2", "u", "\"hp\""] := by
  intro o source tokens
  have clean : (parse o tokens).errors = [] := by decide +kernel
  have texts : ownTexts tokens = ["heal", "unit", "u", "MOV", "ax", "2", "u", "\"hp\""] := by
    decide +kernel
  exact ⟨clean, by decide +kernel, texts ▸ parse_tokenize_words rfl false source clean⟩

end MapScript
