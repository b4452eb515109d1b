import MapScript.Proofs.Joining

/-!
# What lexemes look like

A lexeme has the form of its kind, and it could not be longer: what comes after it does not go on
with it. The two together say exactly how a source is cut. Whatever a rule takes is of such a form,
and a text of such a form is cut off whole.
-/
namespace MapScript

namespace Lexeme

/-- The text does not begin with a character of the class. -/
def Stops (p : Char → Bool) (text : List Char) : Prop := ∀ c ∈ text.head?, p c = false

section
variable {p : Char → Bool} {text after : List Char}

theorem stops_nil : Stops p [] := by
  intro c hc
  cases hc

theorem stops_cons {c : Char} (h : p c = false) : Stops p (c :: text) := by
  intro d hd
  cases hd
  exact h

theorem stops_dropWhile (text : List Char) : Stops p (text.dropWhile p) := by
  intro c hc
  have last := List.head?_dropWhile_not p text
  rw [Option.mem_def.mp hc] at last
  exact last

theorem of_mem_takeWhile {c : Char} (h : c ∈ text.takeWhile p) : p c = true :=
  List.all_eq_true.mp List.all_takeWhile c h

theorem takeWhile_of_stops (run : ∀ c ∈ text, p c = true) (stop : Stops p after) :
    (text ++ after).takeWhile p = text := by
  rw [List.takeWhile_append_of_pos run]
  cases after with
  | nil => simp
  | cons c after => simp [stop c rfl]

theorem dropWhile_of_stops (run : ∀ c ∈ text, p c = true) (stop : Stops p after) :
    (text ++ after).dropWhile p = after := by
  rw [List.dropWhile_append_of_pos run]
  cases after with
  | nil => rfl
  | cons c after => simp [stop c rfl]

theorem run_of_stops (kind : LexemeKind) (run : ∀ c ∈ text, p c = true) (stop : Stops p after) :
    Cut.run kind p (text ++ after) = ⟨kind, text, after⟩ := by
  unfold Cut.run
  rw [takeWhile_of_stops run stop, dropWhile_of_stops run stop]

end

/-- The inside of a quoted text: the quote stands there only behind a backslash, and every
backslash has a character after it. -/
inductive Inside (quote : Char) : List Char → Prop
  | nil : Inside quote []
  | escaped (c : Char) {cs : List Char} : Inside quote cs → Inside quote ('\\' :: c :: cs)
  | plain {c : Char} {cs : List Char} : c ≠ '\\' → c ≠ quote → Inside quote cs →
      Inside quote (c :: cs)

theorem isQuote_ne_backslash {quote : Char} (h : isQuote quote = true) : quote ≠ '\\' := by
  intro hq
  rw [hq] at h
  exact absurd h (by decide)

theorem inside_of_throughQuote?_eq_some {quote : Char} {cs taken rest : List Char}
    (h : throughQuote? quote cs = some (taken, rest)) :
    ∃ body, Inside quote body ∧ taken = body ++ [quote] := by
  fun_induction throughQuote? quote cs generalizing taken rest with
  | case1 => cases h
  | case2 => cases h
  | case3 c cs ih =>
      obtain ⟨⟨taken', rest'⟩, found, same⟩ := Option.map_eq_some_iff.mp h
      cases same
      obtain ⟨body, inside, rfl⟩ := ih found
      exact ⟨'\\' :: c :: body, .escaped c inside, rfl⟩
  | case4 cs _ _ =>
      cases h
      exact ⟨[], .nil, rfl⟩
  | case5 c cs last notLast hc ih =>
      obtain ⟨⟨taken', rest'⟩, found, same⟩ := Option.map_eq_some_iff.mp h
      cases same
      obtain ⟨body, inside, rfl⟩ := ih found
      have plain : c ≠ '\\' := by
        intro hb
        cases cs with
        | nil => exact last hb rfl
        | cons d ds => exact notLast d ds hb rfl
      exact ⟨c :: body, .plain plain hc inside, rfl⟩

/-- A text that is never closed is inside to its end, but for a backslash that may stand there. -/
theorem inside_of_throughQuote?_eq_none {quote : Char} {cs : List Char}
    (h : throughQuote? quote cs = none) :
    Inside quote cs ∨ ∃ body, Inside quote body ∧ cs = body ++ ['\\'] := by
  fun_induction throughQuote? quote cs with
  | case1 => exact .inl .nil
  | case2 => exact .inr ⟨[], .nil, rfl⟩
  | case3 c cs ih =>
      rcases ih (Option.map_eq_none_iff.mp h) with inside | ⟨body, inside, rfl⟩
      · exact .inl (.escaped c inside)
      · exact .inr ⟨'\\' :: c :: body, .escaped c inside, rfl⟩
  | case4 => cases h
  | case5 c cs last notLast hc ih =>
      have plain : c ≠ '\\' := by
        intro hb
        cases cs with
        | nil => exact last hb rfl
        | cons d ds => exact notLast d ds hb rfl
      rcases ih (Option.map_eq_none_iff.mp h) with inside | ⟨body, inside, rfl⟩
      · exact .inl (.plain plain hc inside)
      · exact .inr ⟨c :: body, .plain plain hc inside, rfl⟩

/-- Reading passes over the inside of a text. -/
theorem throughQuote?_inside {quote : Char} {body : List Char} (h : Inside quote body)
    (rest : List Char) :
    throughQuote? quote (body ++ rest) =
      (throughQuote? quote rest).map fun (taken, rest) => (body ++ taken, rest) := by
  induction h with
  | nil => simp
  | escaped c _ ih =>
      rw [List.cons_append, List.cons_append, throughQuote?, ih, Option.map_map]
      rfl
  | plain hb hq _ ih =>
      rw [List.cons_append, throughQuote?_cons _ hb, if_neg hq, ih, Option.map_map]
      rfl

theorem throughQuote?_closed {quote : Char} (hq : quote ≠ '\\') {body : List Char}
    (h : Inside quote body) (rest : List Char) :
    throughQuote? quote (body ++ quote :: rest) = some (body ++ [quote], rest) := by
  rw [throughQuote?_inside h, throughQuote?_cons _ hq, if_pos rfl]
  rfl

theorem throughQuote?_open {quote : Char} {body : List Char} (h : Inside quote body) :
    throughQuote? quote body = none := by
  have none := throughQuote?_inside h []
  rw [List.append_nil] at none
  exact none

theorem throughQuote?_openEscape {quote : Char} {body : List Char} (h : Inside quote body) :
    throughQuote? quote (body ++ ['\\']) = none := by
  rw [throughQuote?_inside h]
  rfl

/-- The sign that closes a comment. -/
abbrev commentEnd : List Char := ['*', '/']

theorem commentEnd_infix_cons {c : Char} {cs : List Char} :
    commentEnd <:+: c :: cs ↔ (c = '*' ∧ cs.head? = some '/') ∨ commentEnd <:+: cs := by
  rw [List.infix_cons_iff, List.cons_prefix_cons]
  cases cs with
  | nil => simp
  | cons d ds =>
      rw [List.cons_prefix_cons]
      simp [eq_comm]

/-- A comment is closed by the first sign that closes one. -/
theorem body_of_throughCommentEnd?_eq_some {cs taken rest : List Char}
    (h : throughCommentEnd? cs = some (taken, rest)) :
    ∃ body, taken = body ++ commentEnd ∧ ¬ commentEnd <:+: body ++ ['*'] := by
  fun_induction throughCommentEnd? cs generalizing taken rest with
  | case1 cs =>
      cases h
      exact ⟨[], rfl, by decide⟩
  | case2 c cs notEnd ih =>
      obtain ⟨⟨taken', rest'⟩, found, same⟩ := Option.map_eq_some_iff.mp h
      cases same
      obtain ⟨body, rfl, free⟩ := ih found
      refine ⟨c :: body, rfl, ?_⟩
      rw [List.cons_append, commentEnd_infix_cons]
      intro ends
      rcases ends with ⟨hc, hd⟩ | ends
      · have whole := append_of_throughCommentEnd? found
        cases body with
        | nil => simp at hd
        | cons d body =>
            have hd : d = '/' := by simpa using hd
            rw [hd] at whole
            exact notEnd _ hc whole.symm
      · exact free ends
  | case3 => cases h

theorem free_of_throughCommentEnd?_eq_none {cs : List Char} (h : throughCommentEnd? cs = none) :
    ¬ commentEnd <:+: cs := by
  fun_induction throughCommentEnd? cs with
  | case1 => cases h
  | case2 c cs notEnd ih =>
      rw [commentEnd_infix_cons]
      intro ends
      rcases ends with ⟨hc, hd⟩ | ends
      · obtain ⟨ds, rfl⟩ := List.head?_eq_some_iff.mp hd
        exact notEnd ds hc rfl
      · exact ih (Option.map_eq_none_iff.mp h) ends
  | case3 => decide

theorem throughCommentEnd?_closed {body : List Char} (h : ¬ commentEnd <:+: body ++ ['*'])
    (rest : List Char) :
    throughCommentEnd? (body ++ commentEnd ++ rest) = some (body ++ commentEnd, rest) := by
  induction body with
  | nil => rfl
  | cons c body ih =>
      rw [List.cons_append, commentEnd_infix_cons, not_or] at h
      have notEnd : ∀ ds, c = '*' → body ++ commentEnd ++ rest = '/' :: ds → False := by
        intro ds hc hd
        apply h.1
        cases body with
        | nil => simp at hd
        | cons d body =>
            have hd : d = '/' := by simpa using (List.cons.inj hd).1
            exact ⟨hc, by rw [hd]; rfl⟩
      rw [List.cons_append, List.cons_append, throughCommentEnd?.eq_2 _ _ notEnd, ih h.2]
      rfl

theorem throughCommentEnd?_open {body : List Char} (h : ¬ commentEnd <:+: body) :
    throughCommentEnd? body = none := by
  induction body with
  | nil => rfl
  | cons c body ih =>
      rw [commentEnd_infix_cons, not_or] at h
      have notEnd : ∀ ds, c = '*' → body = '/' :: ds → False := by
        intro ds hc hd
        apply h.1
        rw [hd]
        exact ⟨hc, rfl⟩
      rw [throughCommentEnd?.eq_2 _ _ notEnd, ih h.2]
      rfl

def brackets : List Char := ['(', ')', '{', '}']

/-- No lexeme of the language begins with the character. -/
def isStrayChar (c : Char) : Bool :=
  !(isBlankChar c || c == '\n' || c == ';' || isQuote c || c.isDigit || isWordStart c ||
    brackets.contains c || singleSymbols.contains c)

/-- The text is a lexeme of the kind when `after` comes behind it. -/
inductive Form : LexemeKind → List Char → List Char → Prop
  | blank {text after : List Char} : text ≠ [] → (∀ c ∈ text, isBlankChar c = true) →
      Stops isBlankChar after → Form .blank text after
  | lineEnd {c : Char} {after : List Char} : c = '\n' ∨ c = ';' → Form .lineEnd [c] after
  | lineComment {body after : List Char} : '\n' ∉ body → Stops (· != '\n') after →
      Form .lineComment ('/' :: '/' :: body) after
  | blockComment {body after : List Char} : ¬ commentEnd <:+: body ++ ['*'] →
      Form (.blockComment true) ('/' :: '*' :: (body ++ commentEnd)) after
  | openComment {body : List Char} : ¬ commentEnd <:+: body →
      Form (.blockComment false) ('/' :: '*' :: body) []
  | quoted {quote : Char} {body after : List Char} : isQuote quote = true → Inside quote body →
      Form (.quoted true) (quote :: (body ++ [quote])) after
  | openQuoted {quote : Char} {body : List Char} : isQuote quote = true → Inside quote body →
      Form (.quoted false) (quote :: body) []
  | openEscape {quote : Char} {body : List Char} : isQuote quote = true → Inside quote body →
      Form (.quoted false) (quote :: (body ++ ['\\'])) []
  | whole {digits after : List Char} : digits ≠ [] → (∀ c ∈ digits, c.isDigit = true) →
      Stops Char.isDigit after →
      (∀ d more, after = '.' :: d :: more → d.isDigit = false) → Form .number digits after
  | decimal {digits fraction after : List Char} : digits ≠ [] → fraction ≠ [] →
      (∀ c ∈ digits, c.isDigit = true) → (∀ c ∈ fraction, c.isDigit = true) →
      Stops Char.isDigit after → Form .number (digits ++ '.' :: fraction) after
  | leftParen {after : List Char} : Form .leftParen ['('] after
  | rightParen {after : List Char} : Form .rightParen [')'] after
  | leftBrace {after : List Char} : Form .leftBrace ['{'] after
  | rightBrace {after : List Char} : Form .rightBrace ['}'] after
  | word {c : Char} {cs after : List Char} : isWordStart c = true →
      (∀ c ∈ cs, isWordChar c = true) → Stops isWordChar after → Form .word (c :: cs) after
  | double {c d : Char} {after : List Char} : (c, d) ∈ doubleSymbols → Form .symbol [c, d] after
  | single {c : Char} {after : List Char} : c ∈ singleSymbols →
      (∀ d ∈ after.head?, (c, d) ∉ doubleSymbols) →
      (c = '/' → ∀ d ∈ after.head?, d ≠ '/' ∧ d ≠ '*') → Form .symbol [c] after
  | stray {c : Char} {after : List Char} : isStrayChar c = true → Form .stray [c] after

theorem Form.ne_nil {kind : LexemeKind} {text after : List Char} (h : Form kind text after) :
    text ≠ [] := by
  cases h with
  | blank ne | whole ne => exact ne
  | _ => simp

theorem form_of_number? {c : Char} {cs : List Char} {found : Cut}
    (h : number? c cs = some found) : Form found.kind (c :: found.taken) found.rest := by
  have hc : c.isDigit = true := by grind [number?]
  have digits : ∀ d ∈ c :: cs.takeWhile Char.isDigit, d.isDigit = true :=
    List.forall_mem_cons.mpr ⟨hc, fun d hd => of_mem_takeWhile hd⟩
  by_cases hf : ∃ d rest, cs.dropWhile Char.isDigit = '.' :: d :: rest ∧ d.isDigit = true
  · obtain ⟨d, rest, hr, hd⟩ := hf
    have fraction : ∀ e ∈ d :: rest.takeWhile Char.isDigit, e.isDigit = true :=
      List.forall_mem_cons.mpr ⟨hd, fun e he => of_mem_takeWhile he⟩
    rw [number?_of_fraction hc hr hd] at h
    cases h
    exact .decimal (List.cons_ne_nil _ _) (List.cons_ne_nil _ _) digits fraction
      (stops_dropWhile rest)
  · have whole : ∀ d rest, cs.dropWhile Char.isDigit = '.' :: d :: rest → d.isDigit = false :=
      fun d rest hr => Bool.eq_false_iff.mpr fun hd => hf ⟨d, rest, hr, hd⟩
    rw [number?_of_whole hc whole] at h
    cases h
    exact .whole (List.cons_ne_nil _ _) digits (stops_dropWhile cs) whole

theorem form_of_quoted? {c : Char} {cs : List Char} {found : Cut}
    (h : quoted? c cs = some found) : Form found.kind (c :: found.taken) found.rest := by
  unfold quoted? at h
  split at h
  · rename_i quote
    cases run : throughQuote? c cs with
    | some cut =>
        rw [run] at h
        cases h
        obtain ⟨body, inside, taken⟩ := inside_of_throughQuote?_eq_some run
        dsimp only
        rw [taken]
        exact .quoted quote inside
    | none =>
        rw [run] at h
        cases h
        rcases inside_of_throughQuote?_eq_none run with inside | ⟨body, inside, rfl⟩
        · exact .openQuoted quote inside
        · exact .openEscape quote inside
  · cases h

theorem form_of_blockComment? {c : Char} {cs : List Char} {found : Cut}
    (h : blockComment? c cs = some found) : Form found.kind (c :: found.taken) found.rest := by
  unfold blockComment? at h
  split at h
  · rename_i body
    cases run : throughCommentEnd? body with
    | some cut =>
        rw [run] at h
        cases h
        obtain ⟨body, taken, free⟩ := body_of_throughCommentEnd?_eq_some run
        dsimp only
        rw [taken]
        exact .blockComment free
    | none =>
        rw [run] at h
        cases h
        exact .openComment (free_of_throughCommentEnd?_eq_none run)
  · cases h

theorem form_of_lineComment? {c : Char} {cs : List Char} {found : Cut}
    (h : lineComment? c cs = some found) : Form found.kind (c :: found.taken) found.rest := by
  unfold lineComment? at h
  split at h
  · rename_i body
    cases h
    have free : '\n' ∉ body.takeWhile (· != '\n') := fun hm => by simpa using of_mem_takeWhile hm
    exact .lineComment free (stops_dropWhile _)
  · cases h

theorem form_of_symbol? {c : Char} {cs : List Char} {found : Cut}
    (clear : c = '/' → ∀ d ∈ cs.head?, d ≠ '/' ∧ d ≠ '*') (h : symbol? c cs = some found) :
    Form found.kind (c :: found.taken) found.rest := by
  cases cs with
  | nil =>
      simp only [symbol?, Option.ite_none_right_eq_some, Option.some.injEq] at h
      obtain ⟨single, rfl⟩ := h
      exact .single single (by simp [Cut.one]) clear
  | cons d cs =>
      unfold symbol? at h
      dsimp only at h
      split at h
      · rename_i double
        cases h
        exact .double double
      · rename_i notDouble
        rw [Option.ite_none_right_eq_some, Option.some.injEq] at h
        obtain ⟨single, rfl⟩ := h
        exact .single single (by simpa [Cut.one] using notDouble) clear

/-- What a rule takes has the form of its kind. An operator may only begin with a slash where no
comment does. -/
theorem form_of_rule {rule : Char → List Char → Option Cut} (hr : rule ∈ rules) {c : Char}
    {cs : List Char} {found : Cut} (clear : c = '/' → ∀ d ∈ cs.head?, d ≠ '/' ∧ d ≠ '*')
    (h : rule c cs = some found) : Form found.kind (c :: found.taken) found.rest := by
  simp only [rules, List.mem_cons, List.not_mem_nil, or_false] at hr
  rcases hr with rfl | rfl | rfl | rfl | rfl | rfl | rfl | rfl | rfl
  · rw [blank?, Option.ite_none_right_eq_some, Option.some.injEq] at h
    obtain ⟨hc, rfl⟩ := h
    have run : ∀ d ∈ c :: cs.takeWhile isBlankChar, isBlankChar d = true :=
      List.forall_mem_cons.mpr ⟨hc, fun d hd => of_mem_takeWhile hd⟩
    exact .blank (List.cons_ne_nil _ _) run (stops_dropWhile cs)
  · rw [lineEnd?, Option.ite_none_right_eq_some, Option.some.injEq] at h
    obtain ⟨hc, rfl⟩ := h
    exact .lineEnd hc
  · exact form_of_lineComment? h
  · exact form_of_blockComment? h
  · exact form_of_quoted? h
  · exact form_of_number? h
  · unfold bracket? at h
    split at h <;> cases h
    · exact .leftParen
    · exact .rightParen
    · exact .leftBrace
    · exact .rightBrace
  · rw [word?, Option.ite_none_right_eq_some, Option.some.injEq] at h
    obtain ⟨hc, rfl⟩ := h
    exact .word hc (fun d hd => of_mem_takeWhile hd) (stops_dropWhile cs)
  · exact form_of_symbol? clear h

theorem isStrayChar_of_rules {c : Char} {cs : List Char}
    (h : ∀ rule ∈ rules, rule c cs = none) : isStrayChar c = true := by
  have blank : isBlankChar c = false := by
    simpa [blank?] using h blank? (by simp [rules])
  have lineEnd : c ≠ '\n' ∧ c ≠ ';' := by
    simpa [lineEnd?] using h lineEnd? (by simp [rules])
  have quote : isQuote c = false := by
    have none := h quoted? (by simp [rules])
    rw [quoted?, ite_eq_right_iff] at none
    apply Bool.eq_false_iff.mpr
    intro hq
    have none := none hq
    split at none <;> cases none
  have digit : c.isDigit = false := by
    have none := h number? (by simp [rules])
    rw [number?, ite_eq_right_iff] at none
    apply Bool.eq_false_iff.mpr
    intro hd
    have none := none hd
    grind
  have bracket : c ∉ brackets := by
    intro hb
    have none := h bracket? (by simp [rules])
    simp only [brackets, List.mem_cons, List.not_mem_nil, or_false] at hb
    rcases hb with rfl | rfl | rfl | rfl <;> cases none
  have word : isWordStart c = false := by
    simpa [word?] using h word? (by simp [rules])
  have symbol : c ∉ singleSymbols := by
    intro hs
    have none := h symbol? (by simp [rules])
    unfold symbol? at none
    grind
  simp [isStrayChar, blank, lineEnd, quote, digit, bracket, word, symbol]

theorem cut_blockComment {body : List Char} {found : Cut}
    (h : blockComment? '/' ('*' :: body) = some found) : cut '/' ('*' :: body) = found := by
  have blank : blank? '/' ('*' :: body) = none := rfl
  have lineEnd : lineEnd? '/' ('*' :: body) = none := rfl
  have lineComment : lineComment? '/' ('*' :: body) = none := rfl
  simp [cut, rules, blank, lineEnd, lineComment, h]

theorem isSome_blockComment? (body : List Char) :
    (blockComment? '/' ('*' :: body)).isSome = true := by
  cases found : throughCommentEnd? body with
  | some cut => rw [blockComment?_of_closed found, Option.isSome_some]
  | none => rw [blockComment?_of_open found, Option.isSome_some]

/-- Every lexeme has the form of its kind. -/
theorem form_cut (c : Char) (cs : List Char) :
    Form (cut c cs).kind (c :: (cut c cs).taken) (cut c cs).rest := by
  by_cases comment : c = '/' ∧ (cs.head? = some '/' ∨ cs.head? = some '*')
  · obtain ⟨rfl, slash | star⟩ := comment
    · obtain ⟨body, rfl⟩ := List.head?_eq_some_iff.mp slash
      have cut : lineComment? '/' ('/' :: body) = some (cut '/' ('/' :: body)) := rfl
      exact form_of_lineComment? cut
    · obtain ⟨body, rfl⟩ := List.head?_eq_some_iff.mp star
      obtain ⟨found, taken⟩ := Option.isSome_iff_exists.mp (isSome_blockComment? body)
      rw [cut_blockComment taken]
      exact form_of_blockComment? taken
  · have clear : c = '/' → ∀ d ∈ cs.head?, d ≠ '/' ∧ d ≠ '*' := by
      intro hc d hd
      constructor
      · intro slash
        exact comment ⟨hc, .inl (slash ▸ hd)⟩
      · intro star
        exact comment ⟨hc, .inr (star ▸ hd)⟩
    unfold cut
    cases found : rules.findSome? fun rule => rule c cs with
    | none => exact .stray (isStrayChar_of_rules (List.findSome?_eq_none_iff.mp found))
    | some cut =>
        obtain ⟨rule, hr, taken⟩ := List.exists_of_findSome?_eq_some found
        exact form_of_rule hr clear taken

/-- The characters that decide by themselves, or with a second one, what begins with them, before
numbers, words and operators are looked for. -/
def decided : List Char :=
  [' ', '\t', '\r', '\x0c', '\n', ';', '/', '"', '\'', '\x60', '(', ')', '{', '}']

theorem not_decided {p : Char → Bool} (hp : (decided.all fun c => !p c) = true) {c : Char}
    (h : p c = true) : c ∉ decided := by
  intro hm
  have hc := List.all_eq_true.mp hp c hm
  rw [h] at hc
  cases hc

/-- Such a character aside, a lexeme is a number, a word or an operator, or nothing. -/
theorem cut_of_not_decided {c : Char} (h : c ∉ decided) (cs : List Char) :
    cut c cs = (((number? c cs).or (word? c cs)).or (symbol? c cs)).getD (.one .stray cs) := by
  simp only [decided, List.mem_cons, List.not_mem_nil, or_false, not_or] at h
  obtain ⟨h1, h2, h3, h4, h5, h6, h7, h8, h9, h10, h11, h12, h13, h14⟩ := h
  have blank : blank? c cs = none := by simp [blank?, isBlankChar, h1, h2, h3, h4]
  have lineEnd : lineEnd? c cs = none := by simp [lineEnd?, h5, h6]
  have lineComment : lineComment? c cs = none := by
    unfold lineComment?
    split
    · exact absurd rfl h7
    · rfl
  have blockComment : blockComment? c cs = none := by
    unfold blockComment?
    split
    · exact absurd rfl h7
    · rfl
  have quoted : quoted? c cs = none := by simp [quoted?, isQuote, h8, h9, h10]
  have bracket : bracket? c cs = none := by
    unfold bracket?
    split
    · exact absurd rfl h11
    · exact absurd rfl h12
    · exact absurd rfl h13
    · exact absurd rfl h14
    · rfl
  simp only [cut, rules, List.findSome?_cons, List.findSome?_nil, blank, lineEnd, lineComment,
    blockComment, quoted, bracket]
  cases number? c cs <;> cases word? c cs <;> cases symbol? c cs <;> rfl

theorem number?_of_not_digit {c : Char} (h : c.isDigit = false) (cs : List Char) :
    number? c cs = none := by
  rw [number?, if_neg (Bool.eq_false_iff.mp h)]

theorem word?_of_not_start {c : Char} (h : isWordStart c = false) (cs : List Char) :
    word? c cs = none := by
  rw [word?, if_neg (Bool.eq_false_iff.mp h)]

theorem isDigit_of_isWordStart {c : Char} (h : isWordStart c = true) : c.isDigit = false := by
  simp only [isWordStart, Bool.or_eq_true, beq_iff_eq] at h
  rcases h with ((alpha | rfl) | rfl) | rfl
  · apply Bool.eq_false_iff.mpr
    intro digit
    have number : (cut c []).kind = .number := by
      rw [cut_of_not_decided (not_decided (p := Char.isDigit) (by decide) digit), number?,
        if_pos digit]
      rfl
    rw [isAlpha_of_literal (.inl number)] at alpha
    cases alpha
  · decide
  · decide
  · decide

theorem cut_number {c : Char} {cs : List Char} (hc : c.isDigit = true) {found : Cut}
    (h : number? c cs = some found) : cut c cs = found := by
  rw [cut_of_not_decided (not_decided (p := Char.isDigit) (by decide) hc), h]
  rfl

theorem cut_word {c : Char} (hc : isWordStart c = true) (cs : List Char) :
    cut c cs = .run .word isWordChar cs := by
  rw [cut_of_not_decided (not_decided (p := isWordStart) (by decide) hc),
    number?_of_not_digit (isDigit_of_isWordStart hc), word?, if_pos hc]
  rfl

/-- An operator is one unless a comment begins with it. -/
theorem cut_symbol {c : Char} {cs : List Char} (hc : c ∈ singleSymbols)
    (clear : c = '/' → ∀ d ∈ cs.head?, d ≠ '/' ∧ d ≠ '*') {found : Cut}
    (h : symbol? c cs = some found) : cut c cs = found := by
  by_cases slash : c = '/'
  · subst slash
    have lineComment : lineComment? '/' cs = none := by
      unfold lineComment?
      split
      · exact absurd rfl (clear rfl '/' rfl).1
      · rfl
    have blockComment : blockComment? '/' cs = none := by
      unfold blockComment?
      split
      · exact absurd rfl (clear rfl '*' rfl).2
      · rfl
    have blank : blank? '/' cs = none := rfl
    have lineEnd : lineEnd? '/' cs = none := rfl
    have quoted : quoted? '/' cs = none := rfl
    have number : number? '/' cs = none := rfl
    have bracket : bracket? '/' cs = none := rfl
    have word : word? '/' cs = none := rfl
    simp [cut, rules, blank, lineEnd, lineComment, blockComment, quoted, number, bracket, word, h]
  · have digit : c.isDigit = false := by
      have all : (singleSymbols.all fun c => !c.isDigit) = true := by decide
      simpa using List.all_eq_true.mp all c hc
    have word : isWordStart c = false := by
      have all : (singleSymbols.all fun c => !isWordStart c) = true := by decide
      simpa using List.all_eq_true.mp all c hc
    have free : c ∉ decided := by
      have all : (singleSymbols.all fun c => c == '/' || !decided.contains c) = true := by decide
      simpa [slash] using List.all_eq_true.mp all c hc
    rw [cut_of_not_decided free, number?_of_not_digit digit, word?_of_not_start word, h]
    rfl

theorem cut_stray {c : Char} (stray : isStrayChar c = true) (cs : List Char) :
    cut c cs = .one .stray cs := by
  have classes := stray
  simp only [isStrayChar, Bool.not_eq_true', Bool.or_eq_false_iff] at classes
  obtain ⟨⟨⟨⟨-, digit⟩, word⟩, -⟩, single⟩ := classes
  have symbol : symbol? c cs = none := by
    have notSingle : c ∉ singleSymbols := by simpa using single
    have double : ∀ d, (c, d) ∉ doubleSymbols := by
      intro d hd
      have all : (doubleSymbols.all fun pair => singleSymbols.contains pair.1) = true := by decide
      have hc := List.all_eq_true.mp all _ hd
      rw [single] at hc
      cases hc
    unfold symbol?
    split
    · rw [if_neg (double _), if_neg notSingle]
    · rw [if_neg notSingle]
  rw [cut_of_not_decided (not_decided (p := isStrayChar) (by decide) stray),
    number?_of_not_digit digit, word?_of_not_start word, symbol]
  rfl

theorem cut_quoted {quote : Char} (hq : isQuote quote = true) {cs : List Char} {found : Cut}
    (h : quoted? quote cs = some found) : cut quote cs = found := by
  simp only [isQuote, Bool.or_eq_true, beq_iff_eq] at hq
  have blank : blank? quote cs = none := by
    rcases hq with (rfl | rfl) | rfl <;> rfl
  have lineEnd : lineEnd? quote cs = none := by
    rcases hq with (rfl | rfl) | rfl <;> rfl
  have lineComment : lineComment? quote cs = none := by
    rcases hq with (rfl | rfl) | rfl <;> rfl
  have blockComment : blockComment? quote cs = none := by
    rcases hq with (rfl | rfl) | rfl <;> rfl
  simp [cut, rules, blank, lineEnd, lineComment, blockComment, h]

theorem number?_decimal {c : Char} {digits fraction after : List Char} (hc : c.isDigit = true)
    (hd : ∀ d ∈ digits, d.isDigit = true) (hn : fraction ≠ [])
    (hf : ∀ d ∈ fraction, d.isDigit = true) (stop : Stops Char.isDigit after) :
    number? c (digits ++ '.' :: fraction ++ after) =
      some ⟨.number, digits ++ '.' :: fraction, after⟩ := by
  obtain ⟨d, fraction, rfl⟩ := List.exists_cons_of_ne_nil hn
  obtain ⟨hd', hf⟩ := List.forall_mem_cons.mp hf
  have point : Stops Char.isDigit ('.' :: d :: (fraction ++ after)) := stops_cons (by decide)
  have rest := dropWhile_of_stops hd point
  have whole := takeWhile_of_stops hd point
  rw [List.append_assoc, List.cons_append, List.cons_append, number?_of_fraction hc rest hd', whole,
    takeWhile_of_stops hf stop, dropWhile_of_stops hf stop]

theorem number?_whole {c : Char} {digits after : List Char} (hc : c.isDigit = true)
    (hd : ∀ d ∈ digits, d.isDigit = true) (stop : Stops Char.isDigit after)
    (point : ∀ d more, after = '.' :: d :: more → d.isDigit = false) :
    number? c (digits ++ after) = some ⟨.number, digits, after⟩ := by
  rw [number?_of_whole hc, run_of_stops .number hd stop]
  rwa [dropWhile_of_stops hd stop]

/-- A text of a form is cut off whole. -/
theorem cut_of_form {kind : LexemeKind} {c : Char} {text taken after : List Char}
    (h : Form kind text after) (ht : text = c :: taken) :
    cut c (taken ++ after) = ⟨kind, taken, after⟩ := by
  cases h with
  | blank _ run stop =>
      subst ht
      obtain ⟨hc, run⟩ := List.forall_mem_cons.mp run
      rw [← run_of_stops .blank run stop]
      simp only [isBlankChar, Bool.or_eq_true, beq_iff_eq] at hc
      rcases hc with ((rfl | rfl) | rfl) | rfl <;> rfl
  | lineEnd hc =>
      cases ht
      rcases hc with rfl | rfl <;> rfl
  | lineComment free stop =>
      cases ht
      apply run_of_stops .lineComment _ stop
      intro d hd
      rcases List.mem_cons.mp hd with rfl | hd
      · decide
      · apply bne_iff_ne.mpr
        intro newline
        exact free (newline ▸ hd)
  | blockComment free =>
      cases ht
      exact cut_blockComment (blockComment?_of_closed (throughCommentEnd?_closed free after))
  | openComment free =>
      cases ht
      rw [List.append_nil]
      exact cut_blockComment (blockComment?_of_open (throughCommentEnd?_open free))
  | quoted hq inside =>
      cases ht
      apply cut_quoted hq
      rw [quoted?, if_pos hq, List.append_assoc, List.singleton_append,
        throughQuote?_closed (isQuote_ne_backslash hq) inside]
  | openQuoted hq inside =>
      cases ht
      apply cut_quoted hq
      rw [quoted?, if_pos hq, List.append_nil, throughQuote?_open inside]
  | openEscape hq inside =>
      cases ht
      apply cut_quoted hq
      rw [quoted?, if_pos hq, List.append_nil, throughQuote?_openEscape inside]
  | whole _ digits stop point =>
      subst ht
      obtain ⟨hc, digits⟩ := List.forall_mem_cons.mp digits
      exact cut_number hc (number?_whole hc digits stop point)
  | @decimal digits fraction _ ne hn hd hf stop =>
      obtain ⟨d, digits, rfl⟩ := List.exists_cons_of_ne_nil ne
      cases ht
      obtain ⟨hc, hd⟩ := List.forall_mem_cons.mp hd
      exact cut_number hc (number?_decimal hc hd hn hf stop)
  | leftParen | rightParen | leftBrace | rightBrace =>
      cases ht
      rfl
  | word hc run stop =>
      cases ht
      rw [cut_word hc, run_of_stops .word run stop]
  | double hm =>
      cases ht
      have all : (doubleSymbols.all fun pair => singleSymbols.contains pair.1 &&
        (pair.1 != '/' || pair.2 == '=')) = true := by decide
      have first := List.all_eq_true.mp all _ hm
      simp only [Bool.and_eq_true, Bool.or_eq_true, List.contains_iff_mem, bne_iff_ne,
        beq_iff_eq] at first
      apply cut_symbol first.1
      · intro slash e he
        have equals := first.2.resolve_left fun other => other slash
        cases he
        rw [equals]
        decide
      · rw [List.singleton_append, symbol?, if_pos hm]
  | single hm notDouble clear =>
      cases ht
      apply cut_symbol hm clear
      cases after with
      | nil => rw [symbol?, if_pos hm]; rfl
      | cons d after => rw [symbol?, if_neg (notDouble d rfl), if_pos hm]; rfl
  | stray hc =>
      cases ht
      exact cut_stray hc _

/-- The first lexeme of a source is its beginning of some form, and the rest is a source again. -/
theorem scan_of_form {kind : LexemeKind} {text after : List Char} (h : Form kind text after) :
    scan (text ++ after) = ⟨kind, text⟩ :: scan after := by
  obtain ⟨c, taken, rfl⟩ := List.exists_cons_of_ne_nil h.ne_nil
  rw [List.cons_append, scan_cons, cut_of_form h rfl]

end Lexeme

end MapScript
