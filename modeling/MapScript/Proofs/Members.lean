import MapScript.Proofs.Covering
import MapScript.Proofs.Descendant
import MapScript.Proofs.Retelling

/-!
# The names of members in the source

The name of a property and the key of a field are taken over from one token each, which stands
behind a point or an arrow, or before a colon or an equals sign. The text of that token is the
slice of the source that its span marks. Only keywords are an exception: they are kept in their
small spelling, and so is a member whose name is a keyword.
-/
namespace MapScript

/-- The word is the name of a property or the key of a field, at any depth. -/
def NamesMember (word : String) (nodes : List Node) : Prop :=
  Occurs (.property word) nodes ∨
    ∃ fields, Occurs (.object fields) nodes ∧ word ∈ fields.map Prod.fst

/-- The members that a node names itself. -/
def Node.memberNames : Node → List String
  | .property name => [name]
  | .object fields => fields.map Prod.fst
  | _ => []

section
variable {word : String}

theorem member_notMem_typeMentions (type : Option String) :
    .member word ∉ typeMentions type := by
  cases type <;> simp [typeMentions]

theorem member_notMem_param (p : Param) : .member word ∉ p.mentions := by
  simp [Param.mentions, member_notMem_typeMentions]

/-- A node mentions the members that it names itself and those that its children mention. -/
theorem member_mem_mentions {n : Node} :
    .member word ∈ n.mentions ↔
      word ∈ n.memberNames ∨ .member word ∈ mentionsOf n.children := by
  cases n with
  | object fields =>
      rw [Node.mentions, mem_mentionsOfFields]
      simp [Node.memberNames, Node.children]
  | property name => simp [Node.mentions, Node.memberNames, Node.children]
  | literal kind value =>
      cases kind <;> simp [Node.mentions, Node.memberNames, Node.children, literalMentions]
  | _ =>
      simp [Node.mentions, Node.memberNames, Node.children, mentionsOfOption_eq,
        member_notMem_typeMentions, member_notMem_param]

theorem Occurs.member_mem_mentionsOf {n : Node} {nodes : List Node} (h : Occurs n nodes)
    (named : word ∈ n.memberNames) : .member word ∈ mentionsOf nodes := by
  rw [mem_mentionsOf]
  induction h with
  | here hn => exact ⟨n, hn, member_mem_mentions.mpr (.inl named)⟩
  | @inside m _ hm _ ih =>
      exact ⟨m, hm, member_mem_mentions.mpr (.inr (mem_mentionsOf.mpr ih))⟩

theorem exists_occurs_of_member_mem (n : Node) :
    .member word ∈ n.mentions → ∃ m, Occurs m [n] ∧ word ∈ m.memberNames := by
  induction n using Node.induction_children with
  | step n ih =>
      intro h
      rcases member_mem_mentions.mp h with named | inside
      · exact ⟨n, .here (List.mem_singleton_self n), named⟩
      · obtain ⟨k, hk, mentioned⟩ := mem_mentionsOf.mp inside
        obtain ⟨m, occurs, named⟩ := ih k hk mentioned
        have below : Occurs m n.children := occurs.mono (by simpa using hk)
        exact ⟨m, .inside (List.mem_singleton_self n) below, named⟩

/-- What is mentioned as a member is what names a member in the tree. -/
theorem namesMember_iff (word : String) (nodes : List Node) :
    NamesMember word nodes ↔ .member word ∈ mentionsOf nodes := by
  constructor
  · intro h
    rcases h with property | ⟨fields, object, key⟩
    · exact property.member_mem_mentionsOf (List.mem_singleton_self word)
    · exact object.member_mem_mentionsOf key
  · intro h
    obtain ⟨n, hn, mentioned⟩ := mem_mentionsOf.mp h
    obtain ⟨m, occurs, named⟩ := exists_occurs_of_member_mem n mentioned
    have occurs : Occurs m nodes := occurs.mono (by simpa using hn)
    cases m with
    | property name =>
        rw [List.mem_singleton.mp named]
        exact .inl occurs
    | object fields => exact .inr ⟨fields, occurs, named⟩
    | _ => cases named

end

/-- The mention is taken over from the token, which stands among the tokens. -/
def Mention.TakenFrom (tokens : List Token) : Mention → Token → Prop
  | .name word, t => t.kind = .identifier ∧ word = t.word
  | .value text, t => (t.kind = .number ∨ t.kind = .string) ∧ text = t.word
  | .instruction op, t => t.kind = .identifier ∧ op = lowerWord t.word
  | .member word, t => t.kind.isFieldName ∧ word = t.word ∧
      ((∃ sign : Token, sign.IsMemberSign ∧ [sign, t] <:+: tokens) ∨
        ∃ sign : Token, sign.IsFieldSign ∧ [t, sign] <:+: tokens)

/-- The tokens of `told`, and no other words of the program's own but unrecorded types, tell the
mentions in their order. -/
structure Told (types : Bool) (tokens : List Token) (ms : List Mention) (told : List Token) :
    Prop where
  sublist : told.Sublist tokens
  taken : List.Forall₂ (Mention.TakenFrom tokens) ms told
  own : ∀ t ∈ tokens, t.isOwn = true → t ∈ told ∨ t.kind = .identifier ∧ types = false

theorem Mention.TakenFrom.mono {ts us : List Token} {m : Mention} {t : Token}
    (h : m.TakenFrom ts t) (part : ts <:+: us) : m.TakenFrom us t := by
  cases m with
  | member word =>
      obtain ⟨kind, same, beside⟩ := h
      refine ⟨kind, same, ?_⟩
      rcases beside with ⟨sign, hs, beside⟩ | ⟨sign, hs, beside⟩
      · exact .inl ⟨sign, hs, beside.trans part⟩
      · exact .inr ⟨sign, hs, beside.trans part⟩
  | name word | value text | instruction op => exact h

namespace Told
variable {types : Bool} {ts us told told' : List Token} {ms ns : List Mention} {t : Token}

theorem append (h : Told types ts ms told) (h' : Told types us ns told') :
    Told types (ts ++ us) (ms ++ ns) (told ++ told') where
  sublist := h.sublist.append h'.sublist
  taken := by
    apply List.rel_append
    · exact h.taken.imp fun _ _ taken => taken.mono (List.prefix_append ts us).isInfix
    · exact h'.taken.imp fun _ _ taken => taken.mono (List.suffix_append ts us).isInfix
  own := by
    intro t ht own
    rcases List.mem_append.mp ht with ht | ht
    · exact (h.own t ht own).imp_left (List.mem_append_left told')
    · exact (h'.own t ht own).imp_left (List.mem_append_right told)

/-- A token tells nothing if it is no word of the program's own. -/
theorem silent (h : t.isOwn = false) : Told types [t] [] [] where
  sublist := List.nil_sublist _
  taken := .nil
  own := by
    intro u hu own
    rw [List.mem_singleton.mp hu, h] at own
    cases own

theorem after_silent (ht : t.isOwn = false) (h : Told types ts ms told) :
    Told types (t :: ts) ms told :=
  (silent ht).append h

theorem before_silent (h : Told types ts ms told) (ht : t.isOwn = false) :
    Told types (ts ++ [t]) ms told := by
  simpa using h.append (silent ht)

theorem single {m : Mention} (h : m.TakenFrom [t] t) : Told types [t] [m] [t] where
  sublist := List.Sublist.refl _
  taken := .cons h .nil
  own := fun _ hu _ => .inl hu

end Told

/-- What the tokens spell is told by some of them. -/
theorem Spells.told {types : Bool} {form : Form} {ts : List Token} {ms : List Mention}
    (h : Spells types form ts ms) : ∃ told, Told types ts ms told := by
  induction h with
  | nil => exact ⟨[], List.nil_sublist _, .nil, by simp⟩
  | append _ _ ih ih' =>
      obtain ⟨told, first⟩ := ih
      obtain ⟨told', second⟩ := ih'
      exact ⟨told ++ told', first.append second⟩
  | silent silent => exact ⟨[], .silent silent.1⟩
  | @name t hk => exact ⟨[t], .single ⟨hk, rfl⟩⟩
  | @value t hk => exact ⟨[t], .single ⟨hk, rfl⟩⟩
  | @instruction t hk => exact ⟨[t], .single ⟨hk, rfl⟩⟩
  | unrecorded hk untyped =>
      refine ⟨[], List.nil_sublist _, .nil, ?_⟩
      intro u hu _
      rw [List.mem_singleton.mp hu]
      exact .inr ⟨hk, untyped⟩
  | @property sign t hs hk =>
      have taken : (Mention.member t.word).TakenFrom [sign, t] t :=
        ⟨hk, rfl, .inl ⟨sign, hs, List.infix_rfl⟩⟩
      exact ⟨[t], (List.Sublist.refl _).cons sign, .cons taken .nil, by simp [hs.isSilent.1]⟩
  | @key t sign hk hs =>
      have taken : (Mention.member t.word).TakenFrom [t, sign] t :=
        ⟨hk, rfl, .inr ⟨sign, hs, List.infix_rfl⟩⟩
      exact ⟨[t], List.sublist_append_left [t] [sign], .cons taken .nil, by simp [hs.isSilent.1]⟩
  | bracketed hl _ hr ih =>
      obtain ⟨told, inner⟩ := ih
      exact ⟨told, (inner.before_silent (Token.isOwn_of_fence? hr)).after_silent
        (Token.isOwn_of_fence? hl)⟩
  | block ho _ hc ih =>
      obtain ⟨told, inner⟩ := ih
      exact ⟨told, (inner.before_silent hc.isOwn).after_silent (Token.isOwn_of_fence? ho)⟩
  | condition ho _ ih =>
      obtain ⟨told, inner⟩ := ih
      exact ⟨told, inner.after_silent (Token.isOwn_of_fence? ho)⟩
  | onlyBranch _ hc ih =>
      obtain ⟨told, inner⟩ := ih
      exact ⟨told, inner.before_silent hc.isOwn⟩
  | lastBranch _ he _ hc ih ih' =>
      obtain ⟨told, first⟩ := ih
      obtain ⟨told', second⟩ := ih'
      exact ⟨told ++ told', first.append
        ((second.before_silent hc.isOwn).after_silent (Token.isOwn_of_fence? he))⟩
  | moreBranches _ he _ ih ih' =>
      obtain ⟨told, first⟩ := ih
      obtain ⟨told', second⟩ := ih'
      exact ⟨told ++ told', first.append (second.after_silent (Token.isOwn_of_fence? he))⟩

/-- The name of a member is what its token says of the source: a keyword in its small spelling, and
anything else as it is written. -/
theorem marks_of_isFieldName {keepComments : Bool} {source : String} {t : Token}
    (ht : t ∈ sourceTokens keepComments source.toList) (hk : t.kind.isFieldName) :
    ∃ before slice after, t.span.Marks source before slice after ∧
      t.word = if isKeyword slice then lowerWord slice else slice := by
  obtain ⟨before, slice, after, marks, -, -, content, -⟩ :=
    (covered_tokenize keepComments source).token t ht
  refine ⟨before, slice, after, marks, ?_⟩
  have lexed := lexed_of_mem_sourceTokens ht
  have own (same : t.text = some slice) (own : t.isOwn = true) :
      t.word = if isKeyword slice then lowerWord slice else slice := by
    have word : t.word = slice := by rw [Token.word, same, Option.getD_some]
    have plain := lexed.own own
    rw [word] at plain ⊢
    rw [plain, if_neg Bool.false_ne_true]
  cases kind : t.kind with
  | identifier =>
      rw [kind] at content
      exact own content.1 (by simp [Token.isOwn, kind])
  | number | string =>
      rw [kind] at content
      exact own content (by simp [Token.isOwn, kind])
  | keyword =>
      rw [kind] at content
      rw [if_pos ((isKeyword_iff_mem slice).mpr content.2), Token.word, content.1, Option.getD_some]
  | _ =>
      rw [kind] at hk
      cases hk

/-- The mention is taken over from the token, and the name of a member is what the span of the token
marks in the source, but for keywords with capital letters. -/
def Mention.SpelledBy (source : String) (tokens : List Token) (m : Mention) (t : Token) : Prop :=
  m.TakenFrom tokens t ∧ ∀ word, m = .member word → ∃ before slice after,
    t.span.Marks source before slice after ∧
      (word = slice ↔ isKeyword slice = false ∨ lowerWord slice = slice) ∧
      (word ≠ slice → word = lowerWord slice)

theorem spelledBy_of_takenFrom {keepComments : Bool} {source : String} {m : Mention} {t : Token}
    (h : m.TakenFrom (sourceTokens keepComments source.toList) t)
    (ht : t ∈ sourceTokens keepComments source.toList) :
    m.SpelledBy source (tokenize keepComments source).tokens t := by
  refine ⟨h.mono (List.prefix_append _ _).isInfix, ?_⟩
  rintro word rfl
  obtain ⟨hk, rfl, -⟩ := h
  obtain ⟨before, slice, after, marks, spelled⟩ := marks_of_isFieldName ht hk
  refine ⟨before, slice, after, marks, ?_⟩
  rw [spelled]
  cases isKeyword slice <;> simp

theorem forall₂_spelledBy {keepComments : Bool} {source : String} {ms : List Mention}
    {told : List Token}
    (taken : List.Forall₂ (Mention.TakenFrom (sourceTokens keepComments source.toList)) ms told)
    (inside : ∀ t ∈ told, t ∈ sourceTokens keepComments source.toList) :
    List.Forall₂ (Mention.SpelledBy source (tokenize keepComments source).tokens) ms told := by
  induction taken with
  | nil => exact .nil
  | cons first _ ih =>
      obtain ⟨here, others⟩ := List.forall_mem_cons.mp inside
      exact .cons (spelledBy_of_takenFrom first here) (ih others)

/-- In a program that is read without errors each name of a property and each key of a field is
taken over from a token of its own, in the order of the source. It is the slice that this token
marks exactly if the slice is no keyword, or is one in small letters. -/
theorem parse_member_names (o : ParseOptions) (keepComments : Bool) (source : String)
    (clean : (parse o (tokenize keepComments source).tokens).errors = []) :
    (∀ word, NamesMember word (parse o (tokenize keepComments source).tokens).tree.body ↔
      .member word ∈ mentionsOf (parse o (tokenize keepComments source).tokens).tree.body) ∧
    ∃ told : List Token, told.Sublist (tokenize keepComments source).tokens ∧
      (∀ t ∈ (tokenize keepComments source).tokens, t.isOwn = true →
        t ∈ told ∨ t.kind = .identifier ∧ o.types = false) ∧
      List.Forall₂ (Mention.SpelledBy source (tokenize keepComments source).tokens)
        (mentionsOf (parse o (tokenize keepComments source).tokens).tree.body) told := by
  refine ⟨fun word => namesMember_iff word _, ?_⟩
  have spelled : Spells o.types .phrase (sourceTokens keepComments source.toList)
      (mentionsOf (parse o (tokenize keepComments source).tokens).tree.body) :=
    parse_spells (fun _ => kind_ne_of_mem_sourceTokens) rfl clean
  obtain ⟨told, sublist, taken, own⟩ := spelled.told
  refine ⟨told, sublist.trans (List.sublist_append_left _ _), ?_, ?_⟩
  · intro t ht word
    rcases List.mem_append.mp ht with ht | ht
    · exact own t ht word
    · rw [List.mem_singleton.mp ht] at word
      cases word
  · exact forall₂_spelledBy taken fun t => sublist.mem

/-- A key with a capital letter, a text as a key, and keywords in small letters. -/
theorem parse_member_names_keys :
    (parse ⟨false, false, 5⟩
        (tokenize false "x.end = \x7bText: y->for, \"Id\": 1\x7d").tokens).errors = [] ∧
      ∃ told, List.Forall₂
        (Mention.SpelledBy "x.end = \x7bText: y->for, \"Id\": 1\x7d"
          (tokenize false "x.end = \x7bText: y->for, \"Id\": 1\x7d").tokens)
        [.name "x", .member "end", .member "Text", .name "y", .member "for", .member "\"Id\"",
          .value "1"] told := by
  have run : (parse ⟨false, false, 5⟩
        (tokenize false "x.end = \x7bText: y->for, \"Id\": 1\x7d").tokens).errors = [] ∧
      mentionsOf (parse ⟨false, false, 5⟩
        (tokenize false "x.end = \x7bText: y->for, \"Id\": 1\x7d").tokens).tree.body =
        [.name "x", .member "end", .member "Text", .name "y", .member "for", .member "\"Id\"",
          .value "1"] := by decide +kernel
  obtain ⟨-, told, -, -, spelled⟩ := parse_member_names ⟨false, false, 5⟩ false _ run.1
  exact ⟨run.1, told, run.2 ▸ spelled⟩

/-- A property that is written `End` is named `end`. -/
theorem capital_keyword_member :
    (parse ⟨false, false, 5⟩ (tokenize false "x.End = 1").tokens).errors = [] ∧
      (tokenize false "x.End = 1").tokens.map (fun t => (t.word, t.span)) =
        [("x", ⟨0, 1⟩), (".", ⟨1, 2⟩), ("end", ⟨2, 5⟩), ("=", ⟨6, 7⟩), ("1", ⟨8, 9⟩),
          ("", ⟨9, 9⟩)] ∧
      (⟨2, 5⟩ : Span).Marks "x.End = 1" "x." "End" " = 1" ∧
      mentionsOf (parse ⟨false, false, 5⟩ (tokenize false "x.End = 1").tokens).tree.body =
        [.name "x", .member "end", .value "1"] := by
  refine ⟨by decide +kernel, by decide +kernel, ⟨by decide, by decide, by decide⟩,
    by decide +kernel⟩

end MapScript
