import MapScript.Proofs.Underlining

/-!
# Colors and the text they are put on

A terminal does not show the sequences that switch styles on and off. Without them an excerpt in
color is the excerpt without color, as long as nothing it is made of has an escape character of its
own. The two excerpts are compared part by part: a text is shown as another one if deleting its
sequences turns it into that, whatever comes after it.
-/
namespace MapScript

/-- The characters that may stand between the bracket and the `m` of a sequence. -/
def isParameter (c : Char) : Bool := c.isDigit || c == ';'

/-- What comes after a sequence, of which the escape character has been read. -/
def afterSequence? : List Char → Option (List Char)
  | '[' :: cs =>
    match cs.dropWhile isParameter with
    | 'm' :: rest => some rest
    | _ => none
  | _ => none

theorem length_lt_of_afterSequence? {cs rest : List Char} (h : afterSequence? cs = some rest) :
    rest.length < cs.length := by
  unfold afterSequence? at h
  split at h
  · rename_i cs
    split at h
    · rename_i found
      obtain rfl := Option.some.inj h
      have shorter := (List.dropWhile_sublist (l := cs) isParameter).length_le
      rw [found, List.length_cons] at shorter
      rw [List.length_cons]
      omega
    · cases h
  · cases h

/-- A text without its sequences: `ESC [`, parameters and `m`. An escape character that begins no
sequence is left. -/
def withoutSequences : List Char → List Char
  | [] => []
  | c :: cs =>
    if c = '\x1b' then
      match _ : afterSequence? cs with
      | some rest => withoutSequences rest
      | none => c :: withoutSequences cs
    else c :: withoutSequences cs
termination_by text => text.length
decreasing_by
  · have shorter := length_lt_of_afterSequence? ‹_›
    rw [List.length_cons]
    omega
  · simp
  · simp

/-- No escape character is in the text. -/
def EscapeFree (text : String) : Prop := '\x1b' ∉ text.toList

instance (text : String) : Decidable (EscapeFree text) := inferInstanceAs (Decidable (¬ _))

theorem withoutSequences_cons {c : Char} (h : c ≠ '\x1b') (cs : List Char) :
    withoutSequences (c :: cs) = c :: withoutSequences cs := by
  rw [withoutSequences, if_neg h]

theorem withoutSequences_append {text : List Char} (h : '\x1b' ∉ text) (rest : List Char) :
    withoutSequences (text ++ rest) = text ++ withoutSequences rest := by
  induction text with
  | nil => rfl
  | cons c text ih =>
      obtain ⟨first, others⟩ := not_or.mp (mt List.mem_cons.mpr h)
      rw [List.cons_append, withoutSequences_cons (Ne.symm first), ih others, List.cons_append]

/-- A sequence is deleted, whatever its parameters are. -/
theorem withoutSequences_sequence {parameters : List Char}
    (h : ∀ c ∈ parameters, isParameter c = true) (rest : List Char) :
    withoutSequences ('\x1b' :: '[' :: parameters ++ 'm' :: rest) = withoutSequences rest := by
  have found : afterSequence? ('[' :: parameters ++ 'm' :: rest) = some rest := by
    rw [List.cons_append, afterSequence?, List.dropWhile_append_of_pos h,
      List.dropWhile_cons_of_neg (by decide)]
    rfl
  rw [List.cons_append, withoutSequences, if_pos rfl]
  split
  · rename_i found'
    rw [found] at found'
    rw [Option.some.inj found']
  · rename_i none
    rw [found] at none
    cases none

theorem isParameter_code (style : Style) : ∀ c ∈ style.code.toList, isParameter c = true := by
  cases style <;> exact List.all_eq_true.mp rfl

theorem isParameter_codes (styles : List Style) :
    ∀ c ∈ (String.intercalate ";" (styles.map Style.code)).toList, isParameter c = true := by
  induction styles with
  | nil => intro c hc; simp at hc
  | cons style styles ih =>
      cases styles with
      | nil => simpa using isParameter_code style
      | cons next styles =>
          intro c hc
          rw [List.map_cons, List.map_cons, String.intercalate_cons_cons, String.toList_append,
            String.toList_append, List.mem_append, List.mem_append, ← List.map_cons] at hc
          rcases hc with (hc | hc) | hc
          · exact isParameter_code style c hc
          · obtain rfl : c = ';' := by simpa using hc
            rfl
          · exact ih c hc

theorem withoutSequences_styleStart (styles : List Style) (rest : List Char) :
    withoutSequences (styleStart styles ++ rest) = withoutSequences rest := by
  have shape : styleStart styles ++ rest = '\x1b' :: '[' ::
      (String.intercalate ";" (styles.map Style.code)).toList ++ 'm' :: rest := by
    simp [styleStart]
  rw [shape]
  exact withoutSequences_sequence (isParameter_codes styles) rest

theorem withoutSequences_styleReset (rest : List Char) :
    withoutSequences (styleReset ++ rest) = withoutSequences rest := by
  have zero : ∀ c ∈ ['0'], isParameter c = true := List.forall_mem_singleton.mpr rfl
  exact withoutSequences_sequence zero rest

/-- Where no style ends inside a text, there is none to switch on again. -/
theorem restyle_eq_self (start : List Char) {text : List Char} (h : '\x1b' ∉ text) :
    restyle start text = text := by
  fun_induction restyle start text with
  | case1 cs ih => simp at h
  | case2 c cs _ ih => rw [ih (List.not_mem_of_not_mem_cons h)]
  | case3 => rfl

/-- The first text is the second one as soon as its sequences are deleted. -/
def ShownAs (colored plain : String) : Prop :=
  ∀ rest, withoutSequences (colored.toList ++ rest) = plain.toList ++ withoutSequences rest

namespace ShownAs

/-- At the end nothing comes after the text. -/
theorem whole {colored plain : String} (h : ShownAs colored plain) :
    withoutSequences colored.toList = plain.toList := by
  have last := h []
  rwa [List.append_nil, withoutSequences, List.append_nil] at last

theorem empty : ShownAs "" "" := fun _ => rfl

theorem append {a b a' b' : String} (h : ShownAs a b) (h' : ShownAs a' b') :
    ShownAs (a ++ a') (b ++ b') := by
  intro rest
  rw [String.toList_append, String.toList_append, List.append_assoc, List.append_assoc, h, h']

theorem join {α : Type} {f g : α → String} {items : List α}
    (h : ∀ item ∈ items, ShownAs (f item) (g item)) :
    ShownAs (String.join (items.map f)) (String.join (items.map g)) := by
  induction items with
  | nil => exact empty
  | cons item items ih =>
      obtain ⟨first, others⟩ := List.forall_mem_cons.mp h
      rw [List.map_cons, List.map_cons, String.join_cons, String.join_cons]
      exact first.append (ih others)

end ShownAs

theorem EscapeFree.shownAs {text : String} (h : EscapeFree text) : ShownAs text text :=
  withoutSequences_append h

theorem shownAs_styled (styles : List Style) {text : String} (h : EscapeFree text) :
    ShownAs (styled true styles text) (styled false styles text) := by
  intro rest
  have shape : styled true styles text =
      String.ofList (styleStart styles ++ text.toList ++ styleReset) := by
    rw [styled, if_pos rfl, restyle_eq_self _ h]
  rw [shape, String.toList_ofList, List.append_assoc, List.append_assoc,
    withoutSequences_styleStart, withoutSequences_append h, withoutSequences_styleReset]
  rfl

theorem EscapeFree.append {a b : String} (ha : EscapeFree a) (hb : EscapeFree b) :
    EscapeFree (a ++ b) := by
  unfold EscapeFree
  rw [String.toList_append, List.mem_append, not_or]
  exact ⟨ha, hb⟩

theorem escapeFree_blanks (n : Nat) : EscapeFree (blanks n) := by
  unfold EscapeFree blanks
  rw [String.toList_ofList]
  intro h
  cases List.eq_of_mem_replicate h

theorem escapeFree_toString (n : Nat) : EscapeFree (toString n) := by
  intro h
  change '\x1b' ∈ n.repr.toList at h
  rw [Nat.toList_repr] at h
  have digit := Nat.isDigit_of_mem_toDigits (by decide) (by decide) h
  cases digit

theorem mem_of_mem_dropEnd {p : Char → Bool} {text : List Char} {c : Char}
    (h : c ∈ dropEnd p text) : c ∈ text := by
  rw [← dropEnd_append p text]
  exact List.mem_append_left _ h

/-- The text of a line is text of the source. -/
theorem escapeFree_of_lineText? {source : String} (h : EscapeFree source) {number : Nat}
    {text : String} (found : (LineMap.ofSource source).lineText? number = some text) :
    EscapeFree text := by
  cases number with
  | zero => cases found
  | succ n =>
      obtain ⟨line, hline, rfl⟩ := Option.map_eq_some_iff.mp found
      obtain ⟨before, after, cut, -⟩ := splitLines_cut 0 source.toList hline
      intro escape
      rw [String.toList_ofList] at escape
      apply h
      rw [cut.whole]
      exact List.mem_append_left _ (List.mem_append_right _ (mem_of_mem_dropEnd escape))

/-- The texts that a diagnostic brings along. -/
def Diagnostic.texts (d : Diagnostic) : List String :=
  d.message :: d.code.toList ++ d.labels.filterMap (·.message) ++ d.notes ++ d.help.toList

theorem Mark.mem_draw {row : List Char} {m : Mark} {c : Char} (h : c ∈ draw row m) :
    c ∈ row ∨ c = m.symbol := by
  obtain ⟨i, hi⟩ := List.mem_iff_getElem?.mp h
  rw [getElem?_draw] at hi
  obtain ⟨old, hold, rfl⟩ := Option.map_eq_some_iff.mp hi
  unfold drawAt
  split
  · exact .inr rfl
  · exact .inl (List.mem_of_getElem? hold)

theorem Mark.symbol_ne_escape (m : Mark) : m.symbol ≠ '\x1b' := by
  unfold symbol
  split <;> decide

theorem Mark.escape_not_mem_foldl_draw (marks : List Mark) {row : List Char}
    (h : '\x1b' ∉ row) : '\x1b' ∉ marks.foldl draw row := by
  induction marks generalizing row with
  | nil => exact h
  | cons m marks ih =>
      apply ih
      intro drawn
      rcases mem_draw drawn with old | new
      · exact h old
      · exact m.symbol_ne_escape new.symm

theorem escape_not_mem_underline (marks : List Mark) : '\x1b' ∉ underline marks := by
  intro h
  refine Mark.escape_not_mem_foldl_draw marks ?_ (mem_of_mem_dropEnd h)
  intro blank
  cases List.eq_of_mem_replicate blank

namespace Excerpt

theorem shownAs_bar : ShownAs (bar true) (bar false) := shownAs_styled _ (by decide)

theorem shownAs_inLabelStyle (style : LabelStyle) {text : String} (h : EscapeFree text) :
    ShownAs (inLabelStyle true style text) (inLabelStyle false style text) := by
  cases style with
  | primary => exact shownAs_styled _ h
  | secondary => exact shownAs_styled _ h

theorem shownAs_underlineRun {run : List Char} (h : '\x1b' ∉ run) :
    ShownAs (underlineRun true run) (underlineRun false run) := by
  have plain : EscapeFree (String.ofList run) := by
    unfold EscapeFree
    rwa [String.toList_ofList]
  unfold underlineRun
  split
  · exact shownAs_styled _ plain
  · exact shownAs_styled _ plain
  · exact plain.shownAs

/-- The runs of an underline are colored one by one, and together they are the underline. -/
theorem shownAs_coloredUnderline {row : List Char} (h : '\x1b' ∉ row) :
    ShownAs (coloredUnderline true row) (coloredUnderline false row) := by
  apply ShownAs.join
  intro run hrun
  apply shownAs_underlineRun
  intro escape
  apply h
  rw [← List.flatten_splitBy (· == ·) row]
  exact List.mem_flatten_of_mem hrun escape

theorem shownAs_newline : ShownAs "\n" "\n" := EscapeFree.shownAs (by decide)

theorem shownAs_blank : ShownAs " " " " := EscapeFree.shownAs (by decide)

theorem shownAs_blanks (n : Nat) : ShownAs (blanks n) (blanks n) := (escapeFree_blanks n).shownAs

/-- What stands to the left of every row but those with a line number. -/
theorem shownAs_margin {gutter : String} (h : EscapeFree gutter) :
    ShownAs (gutter ++ " " ++ bar true) (gutter ++ " " ++ bar false) :=
  (h.shownAs.append shownAs_blank).append shownAs_bar

theorem shownAs_header {d : Diagnostic} (h : ∀ text ∈ d.texts, EscapeFree text) :
    ShownAs (header true d) (header false d) := by
  have message : EscapeFree d.message := h _ (by simp [Diagnostic.texts])
  have code : EscapeFree ((d.code.map fun code => "[" ++ code ++ "]").getD "") := by
    cases hcode : d.code with
    | none => decide
    | some code =>
        have plain : EscapeFree code := h code (by simp [Diagnostic.texts, hcode])
        exact (EscapeFree.append (by decide) plain).append (by decide)
  refine (((ShownAs.append ?_ code.shownAs).append ?_).append (shownAs_styled _ message)).append
    shownAs_newline
  · cases d.severity with
    | error => exact shownAs_styled _ (by decide)
    | warning => exact shownAs_styled _ (by decide)
  · exact EscapeFree.shownAs (by decide)

theorem shownAs_location (map : LineMap) {file : Option String}
    (h : ∀ name ∈ file, EscapeFree name) (d : Diagnostic) :
    ShownAs (location true map file d) (location false map file d) := by
  have name : EscapeFree (file.getD "<source>") := by
    cases file with
    | none => decide
    | some name => exact h name rfl
  unfold location
  cases d.primarySpan? with
  | none => exact ShownAs.empty
  | some span =>
      have colon : EscapeFree ":" := by decide
      -- the position has no color of its own
      have arrow : ShownAs ("  " ++ styled true [.blue] "-->" ++ " ")
          ("  " ++ styled false [.blue] "-->" ++ " ") :=
        ((EscapeFree.shownAs (by decide)).append (shownAs_styled _ (by decide))).append
          shownAs_blank
      exact (((((arrow.append name.shownAs).append colon.shownAs).append
        (escapeFree_toString _).shownAs).append colon.shownAs).append
        (escapeFree_toString _).shownAs).append shownAs_newline

/-- The marks of a line bring no escape character along. -/
def EscapeFreeMarks (marks : List Mark) : Prop :=
  ∀ m ∈ marks, ∀ text ∈ m.message, EscapeFree text

theorem shownAs_remarks {gutter : String} (hg : EscapeFree gutter) {marks : List Mark}
    (h : EscapeFreeMarks marks) :
    ShownAs (remarks true gutter marks) (remarks false gutter marks) := by
  have left := (shownAs_margin hg).append shownAs_blank
  have row := shownAs_coloredUnderline (escape_not_mem_underline (marks.mergeSort Mark.order))
  have plain : ∀ noted ∈ (marks.mergeSort Mark.order).filterMap
      (fun m => m.message.map fun text => (m, text)), EscapeFree noted.2 := by
    intro noted hnoted
    obtain ⟨m, hm, found⟩ := List.mem_filterMap.mp hnoted
    obtain ⟨text, htext, rfl⟩ := Option.map_eq_some_iff.mp found
    exact h m (List.mem_mergeSort.mp hm) text htext
  unfold remarks
  simp only
  generalize (marks.mergeSort Mark.order).filterMap
    (fun m => m.message.map fun text => (m, text)) = noted at plain ⊢
  -- no remark, one, or several
  rcases noted with _ | ⟨first, _ | ⟨second, others⟩⟩
  · exact (left.append row).append shownAs_newline
  · have text := shownAs_inLabelStyle first.1.style (plain first List.mem_cons_self)
    exact (((left.append row).append shownAs_blank).append text).append shownAs_newline
  · refine ((left.append row).append shownAs_newline).append (ShownAs.join ?_)
    intro noted hnoted
    have text := shownAs_inLabelStyle noted.1.style (plain noted (List.mem_reverse.mp hnoted))
    have bar := shownAs_inLabelStyle noted.1.style (show EscapeFree "|" by decide)
    exact (((((left.append (shownAs_blanks _)).append bar).append shownAs_blank).append
      text).append shownAs_newline)

theorem shownAs_numbered (width : Nat) {gutter : String} (hg : EscapeFree gutter)
    {line : MarkedLine} (ht : EscapeFree line.text) (hm : EscapeFreeMarks line.marks) :
    ShownAs (numbered true width gutter line) (numbered false width gutter line) := by
  have number := shownAs_styled [.bold, .blue]
    ((escapeFree_blanks (width + 1 - (toString line.number).length)).append
      (escapeFree_toString line.number))
  exact (((((number.append shownAs_blank).append shownAs_bar).append shownAs_blank).append
    ht.shownAs).append shownAs_newline).append (shownAs_remarks hg hm)

theorem shownAs_body (width : Nat) {gutter : String} (hg : EscapeFree gutter)
    (previous : Option Nat) {lines : List MarkedLine}
    (ht : ∀ line ∈ lines, EscapeFree line.text) (hm : ∀ line ∈ lines, EscapeFreeMarks line.marks) :
    ShownAs (body true width gutter previous lines) (body false width gutter previous lines) := by
  induction lines generalizing previous with
  | nil => exact ShownAs.empty
  | cons line lines ih =>
      obtain ⟨text, texts⟩ := List.forall_mem_cons.mp ht
      obtain ⟨marks, others⟩ := List.forall_mem_cons.mp hm
      refine (ShownAs.append ?_ (shownAs_numbered width hg text marks)).append
        (ih (some line.number) texts others)
      split
      · exact (((shownAs_blanks width).append shownAs_blank).append
          (shownAs_styled _ (by decide))).append shownAs_newline
      · exact ShownAs.empty

theorem shownAs_remark {gutter name text : String} (hg : EscapeFree gutter) (hn : EscapeFree name)
    (ht : EscapeFree text) :
    ShownAs (remark true gutter name text) (remark false gutter name text) :=
  ((((((hg.shownAs.append shownAs_blank).append (shownAs_styled _ (by decide))).append
    shownAs_blank).append (shownAs_styled _ hn)).append (EscapeFree.shownAs (by decide))).append
    ht.shownAs).append shownAs_newline

theorem shownAs_footer {gutter : String} (hg : EscapeFree gutter) {d : Diagnostic}
    (h : ∀ text ∈ d.texts, EscapeFree text) :
    ShownAs (footer true gutter d) (footer false gutter d) := by
  unfold footer
  split
  · exact ShownAs.empty
  · refine (ShownAs.append ?_ (ShownAs.join ?_)).append ?_
    · split
      · exact ShownAs.empty
      · exact (shownAs_margin hg).append shownAs_newline
    · intro note hnote
      exact shownAs_remark hg (by decide) (h note (by simp [Diagnostic.texts, hnote]))
    · cases help : d.help with
      | none => exact ShownAs.empty
      | some text =>
          exact shownAs_remark hg (by decide) (h text (by simp [Diagnostic.texts, help]))

end Excerpt

/-- Colors do not change what an excerpt says: without the sequences that switch them, it is the
excerpt without color. -/
theorem withoutSequences_excerpt (source : String) (file : Option String) (d : Diagnostic)
    (plain : ∀ text ∈ source :: file.toList ++ d.texts, '\x1b' ∉ text.toList) :
    withoutSequences (d.excerpt true (.ofSource source) file).toList =
      (d.excerpt false (.ofSource source) file).toList := by
  have hs : EscapeFree source := plain source (by simp)
  have hf : ∀ name ∈ file, EscapeFree name := fun name hname => plain name (by simp_all)
  have hd : ∀ text ∈ d.texts, EscapeFree text := fun text htext => plain text (by simp [htext])
  have hl : ∀ label ∈ d.labels, ∀ text ∈ label.message, EscapeFree text := by
    intro label hlabel text htext
    apply hd
    have remark : text ∈ d.labels.filterMap (·.message) :=
      List.mem_filterMap.mpr ⟨label, hlabel, htext⟩
    simp [Diagnostic.texts, remark]
  have texts : ∀ line ∈ markedLines (.ofSource source) d.labels, EscapeFree line.text :=
    fun line hline => escapeFree_of_lineText? hs (lineText?_of_mem_markedLines hline).1
  have marks : ∀ line ∈ markedLines (.ofSource source) d.labels,
      Excerpt.EscapeFreeMarks line.marks := by
    intro line hline m hm text htext
    obtain ⟨label, hlabel, same⟩ := (lineText?_of_mem_markedLines hline).2 m hm
    exact hl label hlabel text (same ▸ htext)
  apply ShownAs.whole
  refine ((((Excerpt.shownAs_header hd).append (Excerpt.shownAs_location _ hf d)).append ?_).append
    (Excerpt.shownAs_body _ (escapeFree_blanks _) none texts marks)).append
    (Excerpt.shownAs_footer (escapeFree_blanks _) hd)
  split
  · exact ShownAs.empty
  · exact (Excerpt.shownAs_margin (escapeFree_blanks _)).append Excerpt.shownAs_newline

/-- Two remarks on one line, a label past the end, and a note. -/
theorem withoutSequences_excerpt_remarks :
    withoutSequences (Diagnostic.excerpt true (.ofSource "if x then\r\ncall f(\n") (some "map.j")
      ⟨.error, some "E0101", "input ends", [⟨⟨5, 9⟩, .primary, some "here"⟩,
        ⟨⟨0, 2⟩, .secondary, some "opened"⟩, ⟨⟨40, 50⟩, .primary, none⟩], ["n"], none⟩).toList =
    (Diagnostic.excerpt false (.ofSource "if x then\r\ncall f(\n") (some "map.j")
      ⟨.error, some "E0101", "input ends", [⟨⟨5, 9⟩, .primary, some "here"⟩,
        ⟨⟨0, 2⟩, .secondary, some "opened"⟩, ⟨⟨40, 50⟩, .primary, none⟩], ["n"], none⟩).toList :=
  withoutSequences_excerpt _ _ _ (by decide)

end MapScript
