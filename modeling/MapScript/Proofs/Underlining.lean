import Mathlib.Data.List.SplitBy
import MapScript.Diagnostic.Excerpt
import MapScript.Proofs.Covering
import MapScript.Proofs.SourceLines

/-!
# What an excerpt underlines

An excerpt shows the lines on which labels begin, each of them once and in order. Under a line, a
column has the sign of a primary label if one covers it, then that of a secondary label, and is
blank otherwise. The remarks of the labels stand with the line that their labels begin on.
-/
namespace MapScript

namespace Label

variable (map : LineMap)

/-- The line that a label begins on. -/
def line (label : Label) : Nat := map.lineOf label.span.start

/-- The column of an offset, counted from the start of the line that a label begins on. -/
def columnAt (label : Label) (offset : Nat) : Nat := offset - map.startOf (label.line map) + 1

/-- What a label covers of its line, whose text is `text`: from its first column up to where it
ends, or to the end of the text if it ends on another line, and in any case one column. -/
def mark (text : String) (label : Label) : Mark where
  start := label.columnAt map label.span.start
  stop := max (label.columnAt map label.span.start + 1)
    (if map.lineOf label.span.stop = label.line map then label.columnAt map label.span.stop
      else text.utf8ByteSize + 1)
  style := label.style
  message := label.message

end Label

namespace Mark

def Covers (m : Mark) (column : Nat) : Prop := m.start ≤ column ∧ column < m.stop

instance (m : Mark) (column : Nat) : Decidable (m.Covers column) :=
  inferInstanceAs (Decidable (_ ∧ _))

/-- The sign for a column: a primary mark goes before a secondary one. -/
def signAt (marks : List Mark) (column : Nat) : Char :=
  if ∃ m ∈ marks, m.style = .primary ∧ m.Covers column then '^'
  else if ∃ m ∈ marks, m.style = .secondary ∧ m.Covers column then '-'
  else ' '

/-- The column and the text of a remark. -/
def remark? (m : Mark) : Option (Nat × String) := m.message.map fun text => (m.start, text)

end Mark

/-- The part of an excerpt that is about one line. -/
structure LineBlock where
  number : Nat
  text : String
  signs : List Char
  remarks : List (Nat × String)

namespace LineBlock

/-- The rows of a block: the line with its number, the signs under it, and the remarks. A single
remark stands beside the signs, and several stand below them, the last one first. -/
def render (width : Nat) (b : LineBlock) : String :=
  let left := blanks (width + 1) ++ " | "
  blanks (width + 1 - (toString b.number).length) ++ toString b.number ++ " | " ++ b.text ++ "\n" ++
    left ++ String.ofList b.signs ++
    match b.remarks with
    | [] => "\n"
    | [(_, text)] => " " ++ text ++ "\n"
    | many => "\n" ++ String.join (many.reverse.map fun (column, text) =>
        left ++ blanks (column - 1) ++ "| " ++ text ++ "\n")

/-- Blocks one below the other, with dots between two lines that do not follow each other. -/
def renderAll (width : Nat) : List LineBlock → String
  | [] => ""
  | [b] => b.render width
  | b :: next :: rest =>
    b.render width ++ (if b.number + 1 = next.number then "" else blanks width ++ " ...\n") ++
      renderAll width (next :: rest)

/-- The width that the line numbers take. -/
def numberWidth (blocks : List LineBlock) : Nat :=
  max 2 ((blocks.getLast?.map fun b => (toString b.number).length).getD 1)

/-- The marks of the labels that begin on the line of a block. -/
def marks (map : LineMap) (labels : List Label) (b : LineBlock) : List Mark :=
  (labels.filter fun label => label.line map = b.number).map (Label.mark map b.text)

/-- The block shows the text of its line, and under it what the labels on that line cover and
remark, and nothing else. -/
structure Shows (map : LineMap) (labels : List Label) (b : LineBlock) : Prop where
  text : map.lineText? b.number = some b.text
  signs : ∀ column, 1 ≤ column →
    (b.signs[column - 1]?).getD ' ' = Mark.signAt (b.marks map labels) column
  trimmed : b.signs.getLast? ≠ some ' '
  remarks : b.remarks.Perm ((b.marks map labels).filterMap Mark.remark?)

end LineBlock

namespace Mark

/-- A mark drawn on one column. -/
def drawAt (column : Nat) (c : Char) (m : Mark) : Char := if m.Covers column then m.symbol else c

theorem getElem?_draw (row : List Char) (m : Mark) (i : Nat) :
    (draw row m)[i]? = row[i]?.map fun c => m.drawAt (i + 1) c := by
  unfold draw
  rw [List.getElem?_mapIdx]
  rfl

theorem getElem?_foldl_draw (marks : List Mark) (row : List Char) (i : Nat) :
    (marks.foldl draw row)[i]? = row[i]?.map fun c => marks.foldl (drawAt (i + 1)) c := by
  induction marks generalizing row with
  | nil => simp
  | cons m marks ih =>
      rw [List.foldl_cons, ih, getElem?_draw, Option.map_map]
      rfl

/-- When the primary marks are drawn last, every column gets its sign. -/
theorem foldl_drawAt {marks : List Mark} (column : Nat)
    (sorted : marks.Pairwise fun a b => a.style = .primary → b.style = .primary) :
    marks.foldl (drawAt column) ' ' = signAt marks column := by
  induction marks using List.reverseRecOn with
  | nil => simp [signAt]
  | append_singleton marks m ih =>
      obtain ⟨sorted, -, before⟩ := List.pairwise_append.mp sorted
      rw [List.foldl_append, ih sorted, List.foldl_cons, List.foldl_nil, drawAt]
      by_cases covers : m.Covers column
      · rw [if_pos covers]
        cases style : m.style with
        | primary => simp [signAt, symbol, style, covers]
        | secondary =>
            -- what comes before a secondary mark is secondary too
            have none : ∀ a ∈ marks, a.style ≠ .primary := by
              intro a ha primary
              have last := before a ha m (List.mem_singleton.mpr rfl) primary
              rw [style] at last
              cases last
            have primary : ¬ ∃ a ∈ marks ++ [m], a.style = .primary ∧ a.Covers column := by
              simpa [style] using fun a ha primary => absurd primary (none a ha)
            rw [signAt, if_neg primary]
            simp [symbol, style, covers]
      · rw [if_neg covers]
        simp [signAt, covers, or_and_right, exists_or]

theorem order_trans (a b c : Mark) (hab : order a b) (hbc : order b c) : order a c := by
  unfold order at hab hbc ⊢
  cases ha : a.style <;> cases hb : b.style <;> cases hc : c.style <;>
    simp [ha, hb, hc] at hab hbc ⊢ <;> omega

theorem order_total (a b : Mark) : order a b || order b a := by
  unfold order
  cases ha : a.style <;> cases hb : b.style <;> simp <;> omega

theorem order_primary {a b : Mark} (h : order a b) (primary : a.style = .primary) :
    b.style = .primary := by
  unfold order at h
  cases hb : b.style with
  | primary => rfl
  | secondary => simp [primary, hb] at h

/-- Sorted marks have the primary ones last. -/
theorem pairwise_mergeSort (marks : List Mark) :
    (marks.mergeSort order).Pairwise fun a b => a.style = .primary → b.style = .primary :=
  (List.pairwise_mergeSort order_trans order_total marks).imp order_primary

theorem signAt_perm {marks marks' : List Mark} (h : marks.Perm marks') (column : Nat) :
    signAt marks column = signAt marks' column := by
  simp only [signAt, h.mem_iff]

theorem signAt_eq_blank {marks : List Mark} {column : Nat} (h : ∀ m ∈ marks, m.stop ≤ column) :
    signAt marks column = ' ' := by
  have none : ∀ m ∈ marks, ¬ m.Covers column := by
    intro m hm covers
    have stop := h m hm
    have inside := covers.2
    omega
  rw [signAt, if_neg, if_neg]
  · rintro ⟨m, hm, -, covers⟩
    exact none m hm covers
  · rintro ⟨m, hm, -, covers⟩
    exact none m hm covers

end Mark

theorem foldl_max_le_iff (marks : List Mark) (initial bound : Nat) :
    marks.foldl (fun width m => max width m.stop) initial ≤ bound ↔
      initial ≤ bound ∧ ∀ m ∈ marks, m.stop ≤ bound := by
  induction marks generalizing initial with
  | nil => simp
  | cons m marks ih =>
      rw [List.foldl_cons, ih, Nat.max_le, List.forall_mem_cons, and_assoc]

/-- Blanks at the end of a row make no difference to what is read in a column. -/
theorem getD_dropEnd_blank (row : List Char) (i : Nat) :
    ((dropEnd (· == ' ') row)[i]?).getD ' ' = (row[i]?).getD ' ' := by
  have whole := dropEnd_append (· == ' ') row
  by_cases kept : i < (dropEnd (· == ' ') row).length
  · conv_rhs => rw [← whole, List.getElem?_append_left kept]
  · rw [List.getElem?_eq_none (Nat.le_of_not_lt kept)]
    conv_rhs => rw [← whole, List.getElem?_append_right (Nat.le_of_not_lt kept)]
    cases dropped : (row.reverse.takeWhile (· == ' ')).reverse[i - (dropEnd (· == ' ') row).length]?
    with
    | none => rfl
    | some c =>
        have mem := List.mem_reverse.mp (List.mem_of_getElem? dropped)
        have blank : (c == ' ') = true :=
          Lexeme.of_mem_takeWhile (p := (· == ' ')) mem
        exact (eq_of_beq blank).symm

theorem getLast?_dropEnd_blank (row : List Char) :
    (dropEnd (· == ' ') row).getLast? ≠ some ' ' := by
  intro last
  unfold dropEnd at last
  rw [List.getLast?_reverse] at last
  have stops := Lexeme.stops_dropWhile (p := (· == ' ')) row.reverse ' ' last
  cases stops

/-- The underline has in every column the sign of the marks there. -/
theorem getD_underline {marks : List Mark}
    (sorted : marks.Pairwise fun a b => a.style = .primary → b.style = .primary) {column : Nat}
    (positive : 1 ≤ column) :
    ((underline marks)[column - 1]?).getD ' ' = Mark.signAt marks column := by
  unfold underline
  simp only
  rw [getD_dropEnd_blank, Mark.getElem?_foldl_draw, Nat.sub_add_cancel positive]
  have width := (foldl_max_le_iff marks 0 _).mp (Nat.le_refl _)
  generalize marks.foldl (fun width m => max width m.stop) 0 = bound at width ⊢
  by_cases inside : column - 1 < bound
  · rw [List.getElem?_replicate_of_lt inside, Option.map_some, Option.getD_some]
    exact Mark.foldl_drawAt column sorted
  · rw [List.getElem?_eq_none (by simpa using inside), Option.map_none, Option.getD_none]
    symm
    apply Mark.signAt_eq_blank
    intro m hm
    have stop := width.2 m hm
    omega

example : underline [⟨2, 5, .secondary, none⟩, ⟨4, 7, .primary, none⟩] =
    [' ', '-', '-', '^', '^', '^'] := by
  decide

theorem mem_numbers_addMark (number n : Nat) (text : String) (mark : Mark)
    (lines : List MarkedLine) :
    n ∈ (addMark number text mark lines).map (·.number) ↔
      n = number ∨ n ∈ lines.map (·.number) := by
  fun_induction addMark number text mark lines with
  | case1 => simp
  | case2 line lines before => simp
  | case3 line lines _ same => simp [same]
  | case4 line lines _ _ ih =>
      simp only [List.map_cons, List.mem_cons, ih]
      tauto

/-- The lines stay in order. -/
theorem pairwise_addMark {number : Nat} {text : String} {mark : Mark} {lines : List MarkedLine}
    (sorted : (lines.map (·.number)).Pairwise (· < ·)) :
    ((addMark number text mark lines).map (·.number)).Pairwise (· < ·) := by
  fun_induction addMark number text mark lines with
  | case1 => simp
  | case2 line lines before =>
      apply List.pairwise_cons.mpr
      refine ⟨?_, sorted⟩
      intro n hn
      rcases List.mem_cons.mp hn with rfl | hn
      · exact before
      · exact Nat.lt_trans before ((List.pairwise_cons.mp sorted).1 n hn)
  | case3 line lines _ same => exact sorted
  | case4 line lines notBefore notSame ih =>
      obtain ⟨below, sorted⟩ := List.pairwise_cons.mp sorted
      apply List.pairwise_cons.mpr
      refine ⟨?_, ih sorted⟩
      intro n hn
      rcases (mem_numbers_addMark number n text mark lines).mp hn with rfl | hn
      · change line.number < n
        omega
      · exact below n hn

/-- A line of the result is an old one with another number, or the one that got the mark. -/
theorem mem_addMark {number : Nat} {text : String} {mark : Mark} {lines : List MarkedLine}
    (sorted : (lines.map (·.number)).Pairwise (· < ·)) {line : MarkedLine}
    (h : line ∈ addMark number text mark lines) :
    (line ∈ lines ∧ line.number ≠ number) ∨
      (∃ old ∈ lines, old.number = number ∧ line = { old with marks := old.marks ++ [mark] }) ∨
      (number ∉ lines.map (·.number) ∧ line = ⟨number, text, [mark]⟩) := by
  fun_induction addMark number text mark lines with
  | case1 =>
      right; right
      simpa using h
  | case2 first lines before =>
      have absent : ∀ old ∈ first :: lines, number < old.number := by
        intro old hold
        rcases List.mem_cons.mp hold with rfl | hold
        · exact before
        · exact Nat.lt_trans before
            ((List.pairwise_cons.mp sorted).1 _ (List.mem_map_of_mem hold))
      rcases List.mem_cons.mp h with rfl | h
      · right; right
        refine ⟨?_, rfl⟩
        intro hn
        obtain ⟨old, hold, same⟩ := List.mem_map.mp hn
        have after := absent old hold
        omega
      · exact .inl ⟨h, (Nat.ne_of_lt (absent line h)).symm⟩
  | case3 first lines _ same =>
      rcases List.mem_cons.mp h with rfl | h
      · exact .inr (.inl ⟨first, List.mem_cons_self, same.symm, rfl⟩)
      · have after : first.number < line.number :=
          (List.pairwise_cons.mp sorted).1 _ (List.mem_map_of_mem h)
        exact .inl ⟨List.mem_cons_of_mem _ h, by omega⟩
  | case4 first lines notBefore notSame ih =>
      rcases List.mem_cons.mp h with rfl | h
      · exact .inl ⟨List.mem_cons_self, Ne.symm notSame⟩
      · rcases ih (List.pairwise_cons.mp sorted).2 h with
          ⟨hl, other⟩ | ⟨old, hold, rest⟩ | ⟨absent, new⟩
        · exact .inl ⟨List.mem_cons_of_mem _ hl, other⟩
        · exact .inr (.inl ⟨old, List.mem_cons_of_mem _ hold, rest⟩)
        · exact .inr (.inr ⟨by simpa using ⟨notSame, by simpa using absent⟩, new⟩)

/-- The lines hold the marks that came so far, each line those with its number. -/
structure Gathered (placed : List (Nat × String × Mark)) (lines : List MarkedLine) : Prop where
  sorted : (lines.map (·.number)).Pairwise (· < ·)
  numbers : ∀ n, n ∈ lines.map (·.number) ↔ ∃ p ∈ placed, p.1 = n
  marks : ∀ line ∈ lines, line.marks = (placed.filter (·.1 = line.number)).map (·.2.2)
  texts : ∀ line ∈ lines, ∃ p ∈ placed, p.1 = line.number ∧ p.2.1 = line.text

theorem Gathered.nil : Gathered [] [] := by
  constructor <;> simp

theorem Gathered.step {placed : List (Nat × String × Mark)} {lines : List MarkedLine}
    (h : Gathered placed lines) (number : Nat) (text : String) (mark : Mark) :
    Gathered (placed ++ [(number, text, mark)]) (addMark number text mark lines) where
  sorted := pairwise_addMark h.sorted
  numbers n := by
    rw [mem_numbers_addMark, h.numbers]
    simp only [List.mem_append, List.mem_singleton, or_and_right, exists_or, exists_eq_left]
    rw [or_comm, @eq_comm _ n number]
  marks line hline := by
    rw [List.filter_append, List.map_append]
    rcases mem_addMark h.sorted hline with ⟨old, other⟩ | ⟨old, hold, same, rfl⟩ | ⟨absent, rfl⟩
    · rw [h.marks line old]
      simp [Ne.symm other]
    · simp [h.marks old hold, same]
    · -- nothing was on this line so far
      have none : placed.filter (·.1 = number) = [] := by
        rw [List.filter_eq_nil_iff]
        intro p hp same
        exact absent ((h.numbers number).mpr ⟨p, hp, by simpa using same⟩)
      simp [none]
  texts line hline := by
    rcases mem_addMark h.sorted hline with ⟨old, other⟩ | ⟨old, hold, same, rfl⟩ | ⟨absent, rfl⟩
    · obtain ⟨p, hp, found⟩ := h.texts line old
      exact ⟨p, List.mem_append_left _ hp, found⟩
    · obtain ⟨p, hp, found⟩ := h.texts old hold
      exact ⟨p, List.mem_append_left _ hp, found⟩
    · exact ⟨(number, text, mark), by simp, rfl, rfl⟩

theorem Gathered.run {placed : List (Nat × String × Mark)} {lines : List MarkedLine}
    (h : Gathered placed lines) (more : List (Nat × String × Mark)) :
    Gathered (placed ++ more)
      (more.foldl (fun lines (number, text, mark) => addMark number text mark lines) lines) := by
  induction more generalizing placed lines with
  | nil => simpa using h
  | cons p more ih =>
      have next := ih (h.step p.1 p.2.1 p.2.2)
      rw [List.append_assoc] at next
      exact next

/-- The offsets of a label are small enough for columns to be words. -/
def Label.Small (label : Label) : Prop :=
  label.span.start < UInt32.size - 1 ∧ label.span.stop < UInt32.size - 1

/-- A label with small offsets is on the line that it begins on, and is not left out. -/
theorem ofLabel?_eq {label : Label} (small : label.Small) {map : LineMap} {text : String}
    (h : map.lineText? (label.line map) = some text) :
    Mark.ofLabel? map label = some (label.line map, text, label.mark map text) := by
  unfold Mark.ofLabel?
  simp only [LineMap.position_eq map small.1, LineMap.position_eq map small.2]
  change Option.map _ (map.lineText? (label.line map)) = _
  rw [h, Option.map_some, Nat.max_comm]
  by_cases same : map.lineOf label.span.stop = label.line map
  · have same' : map.lineOf label.span.stop = map.lineOf label.span.start := same
    simp [Label.mark, Label.columnAt, Label.line, same']
  · have other : ¬ map.lineOf label.span.stop = map.lineOf label.span.start := same
    simp [Label.mark, Label.columnAt, Label.line, other]

theorem lineText?_of_ofLabel? {map : LineMap} {label : Label} {p : Nat × String × Mark}
    (h : Mark.ofLabel? map label = some p) :
    map.lineText? p.1 = some p.2.1 ∧ p.2.2.message = label.message := by
  obtain ⟨text, found, rfl⟩ := Option.map_eq_some_iff.mp h
  exact ⟨found, rfl⟩

/-- Every line of an excerpt is one of the source, and its remarks are remarks of labels. -/
theorem lineText?_of_mem_markedLines {map : LineMap} {labels : List Label} {line : MarkedLine}
    (h : line ∈ markedLines map labels) :
    map.lineText? line.number = some line.text ∧
      ∀ m ∈ line.marks, ∃ label ∈ labels, m.message = label.message := by
  have gathered := Gathered.nil.run (labels.filterMap (Mark.ofLabel? map))
  constructor
  · obtain ⟨p, hp, number, text⟩ := gathered.texts line h
    obtain ⟨label, -, found⟩ := List.mem_filterMap.mp hp
    rw [← number, ← text]
    exact (lineText?_of_ofLabel? found).1
  · intro m hm
    rw [gathered.marks line h] at hm
    obtain ⟨p, hp, rfl⟩ := List.mem_map.mp hm
    obtain ⟨label, hlabel, found⟩ := List.mem_filterMap.mp (List.mem_filter.mp hp).1
    exact ⟨label, hlabel, (lineText?_of_ofLabel? found).2⟩

@[simp] theorem styled_false (styles : List Style) (text : String) :
    styled false styles text = text := rfl

namespace Excerpt

@[simp] theorem bar_false : bar false = "|" := rfl

@[simp] theorem inLabelStyle_false (style : LabelStyle) (text : String) :
    inLabelStyle false style text = text := by
  cases style <;> rfl

theorem underlineRun_false (run : List Char) : underlineRun false run = String.ofList run := by
  unfold underlineRun
  split <;> rfl

theorem join_map_ofList (runs : List (List Char)) :
    String.join (runs.map String.ofList) = String.ofList runs.flatten := by
  induction runs with
  | nil => rfl
  | cons run runs ih =>
      rw [List.map_cons, String.join_cons, ih, List.flatten_cons, String.ofList_append]

theorem coloredUnderline_false (row : List Char) :
    coloredUnderline false row = String.ofList row := by
  unfold coloredUnderline
  rw [funext underlineRun_false, join_map_ofList, List.flatten_splitBy]

end Excerpt

/-- The block of a line with its marks. -/
def MarkedLine.block (line : MarkedLine) : LineBlock where
  number := line.number
  text := line.text
  signs := underline (line.marks.mergeSort Mark.order)
  remarks := (line.marks.mergeSort Mark.order).filterMap Mark.remark?

theorem numbers_map_block (lines : List MarkedLine) :
    (lines.map MarkedLine.block).map (·.number) = lines.map (·.number) := List.map_map

theorem filterMap_remark? (marks : List Mark) :
    marks.filterMap Mark.remark? =
      (marks.filterMap fun m => m.message.map fun text => (m, text)).map
        fun noted => (noted.1.start, noted.2) := by
  rw [List.map_filterMap]
  congr 1
  funext m
  rw [Mark.remark?, Option.map_map]
  rfl

theorem append_bar (text : String) : text ++ "|" ++ " " = text ++ "| " := by
  rw [String.append_assoc]
  rfl

theorem append_blank_bar (text : String) : text ++ " " ++ "| " = text ++ " | " := by
  rw [String.append_assoc]
  rfl

theorem numbered_eq_render (width : Nat) (line : MarkedLine) :
    Excerpt.numbered false width (blanks (width + 1)) line = line.block.render width := by
  unfold Excerpt.numbered Excerpt.remarks LineBlock.render MarkedLine.block
  simp only [styled_false, Excerpt.bar_false, Excerpt.inLabelStyle_false,
    Excerpt.coloredUnderline_false, append_bar, append_blank_bar, filterMap_remark?]
  generalize (line.marks.mergeSort Mark.order).filterMap
    (fun m => m.message.map fun text => (m, text)) = noted
  -- no remark, one, or several
  rcases noted with _ | ⟨first, _ | ⟨second, rest⟩⟩
  · simp only [List.map_nil, String.append_assoc]
  · simp only [List.map_cons, List.map_nil, String.append_assoc]
  · simp only [List.map_cons, List.map_nil, List.reverse_cons, List.map_append, ← List.map_reverse,
      List.map_map, Function.comp_def, String.append_assoc]

/-- The lines in order are the blocks with dots between them. -/
theorem body_eq_renderAll (width : Nat) (previous : Option Nat) (line : MarkedLine)
    (lines : List MarkedLine)
    (sorted : ((line :: lines).map (·.number)).Pairwise (· < ·)) :
    Excerpt.body false width (blanks (width + 1)) previous (line :: lines) =
      (if previous.any (· + 1 < line.number) then blanks width ++ " ...\n" else "") ++
        LineBlock.renderAll width ((line :: lines).map MarkedLine.block) := by
  have dots : " " ++ ("..." ++ "\n") = " ...\n" := rfl
  induction lines generalizing line previous with
  | nil =>
      simp only [Excerpt.body, styled_false, String.append_assoc, dots, numbered_eq_render,
        List.map_cons, List.map_nil, LineBlock.renderAll, String.append_empty]
  | cons next lines ih =>
      obtain ⟨below, sorted⟩ := List.pairwise_cons.mp sorted
      have after : line.number < next.number := below _ List.mem_cons_self
      have gap : (line.number + 1 < next.number) ↔ ¬ line.number + 1 = next.number := by omega
      rw [Excerpt.body, ih (some line.number) next sorted]
      simp only [styled_false, String.append_assoc, dots, numbered_eq_render, List.map_cons,
        LineBlock.renderAll, Option.any_some, decide_eq_true_eq, gap, ite_not]
      rfl

theorem body_none (width : Nat) {lines : List MarkedLine}
    (sorted : (lines.map (·.number)).Pairwise (· < ·)) :
    Excerpt.body false width (blanks (width + 1)) none lines =
      LineBlock.renderAll width (lines.map MarkedLine.block) := by
  cases lines with
  | nil => rfl
  | cons line lines =>
      rw [body_eq_renderAll width none line lines sorted]
      exact String.empty_append

section Source

variable (source : String)

/-- The text of the line that a label begins on. -/
def Label.lineText (map : LineMap) (label : Label) : String :=
  (map.lineText? (label.line map)).getD ""

theorem lineText?_line (label : Label) :
    (LineMap.ofSource source).lineText? (label.line (.ofSource source)) =
      some (label.lineText (.ofSource source)) := by
  obtain ⟨line, before, after, -, -, text⟩ := LineMap.locates source label.span.start
  unfold Label.lineText Label.line
  rw [text]
  rfl

theorem gathered_markedLines {labels : List Label} (small : ∀ label ∈ labels, label.Small) :
    Gathered (labels.map fun label => (label.line (.ofSource source),
        label.lineText (.ofSource source),
        label.mark (.ofSource source) (label.lineText (.ofSource source))))
      (markedLines (.ofSource source) labels) := by
  have placed : labels.filterMap (Mark.ofLabel? (.ofSource source)) =
      labels.map fun label => (label.line (.ofSource source), label.lineText (.ofSource source),
        label.mark (.ofSource source) (label.lineText (.ofSource source))) := by
    rw [← List.filterMap_eq_map]
    apply List.filterMap_congr
    intro label hlabel
    exact ofLabel?_eq (small label hlabel) (lineText?_line source label)
  unfold markedLines
  rw [placed]
  exact Gathered.nil.run _

variable {labels : List Label} (small : ∀ label ∈ labels, label.Small)

include small

/-- A line has the marks of the labels that begin on it. -/
theorem marks_block {line : MarkedLine} (h : line ∈ markedLines (.ofSource source) labels) :
    line.block.marks (.ofSource source) labels = line.marks := by
  rw [(gathered_markedLines source small).marks line h, List.filter_map, List.map_map]
  unfold LineBlock.marks
  apply List.map_congr_left
  intro label hlabel
  have here : label.line (.ofSource source) = line.number :=
    of_decide_eq_true (List.mem_filter.mp hlabel).2
  have text := lineText?_line source label
  rw [here, (lineText?_of_mem_markedLines h).1] at text
  change label.mark _ line.text = label.mark _ _
  rw [Option.some.inj text]

theorem shows_block {line : MarkedLine} (h : line ∈ markedLines (.ofSource source) labels) :
    line.block.Shows (.ofSource source) labels where
  text := (lineText?_of_mem_markedLines h).1
  signs column positive := by
    rw [marks_block source small h, ← Mark.signAt_perm (List.mergeSort_perm line.marks Mark.order)]
    exact getD_underline (Mark.pairwise_mergeSort line.marks) positive
  trimmed := getLast?_dropEnd_blank _
  remarks := by
    rw [marks_block source small h]
    exact (List.mergeSort_perm line.marks Mark.order).filterMap _

end Source

/-- The length of the row that marks are drawn on. -/
def Mark.rowLength (marks : List Mark) : Nat := marks.foldl (fun width m => max width m.stop) 0

/-- Nothing that is counted or cut out for an excerpt is out of range: the offsets of the labels are
on lines of the source, a mark is a part of the row under its line, and the number after that of a
line is a word when another line is shown below. -/
structure Excerpt.InRange (map : LineMap) (labels : List Label) : Prop where
  offsets : ∀ label ∈ labels, map.InRange label.span.start ∧ map.InRange label.span.stop
  marks : ∀ line ∈ markedLines map labels, ∀ m ∈ line.marks,
    1 ≤ m.start ∧ m.start ≤ m.stop ∧ m.stop ≤ Mark.rowLength line.marks
  numbers : ∀ line ∈ (markedLines map labels).dropLast, line.number + 1 < UInt32.size

theorem Excerpt.inRange_ofSource (source : String) {labels : List Label}
    (small : ∀ label ∈ labels, label.Small) : Excerpt.InRange (.ofSource source) labels where
  offsets label hlabel :=
    ⟨LineMap.inRange_ofSource source (small label hlabel).1,
      LineMap.inRange_ofSource source (small label hlabel).2⟩
  marks line hline m hm := by
    have stop := ((foldl_max_le_iff line.marks 0 _).mp (Nat.le_refl _)).2 m hm
    rw [(gathered_markedLines source small).marks line hline, List.filter_map, List.map_map] at hm
    obtain ⟨label, -, rfl⟩ := List.mem_map.mp hm
    exact ⟨Nat.le_add_left 1 _, Nat.le_trans (Nat.le_succ _) (Nat.le_max_left _ _), stop⟩
  numbers line hline := by
    have gathered := gathered_markedLines source small
    rcases List.eq_nil_or_concat (markedLines (.ofSource source) labels) with
      none | ⟨front, last, split⟩
    · rw [none] at hline
      cases hline
    · rw [split, List.concat_eq_append, List.dropLast_concat] at hline
      have sorted := gathered.sorted
      rw [split, List.concat_eq_append, List.map_append] at sorted
      have below : line.number < last.number := (List.pairwise_append.mp sorted).2.2 _
        (List.mem_map_of_mem hline) _ (List.mem_singleton_self _)
      obtain ⟨p, hp, number⟩ := (gathered.numbers last.number).mp (by
        rw [split, List.concat_eq_append]
        exact List.mem_map_of_mem (List.mem_append_right _ (List.mem_singleton_self last)))
      obtain ⟨label, hlabel, rfl⟩ := List.mem_map.mp hp
      have word := (LineMap.inRange_ofSource source (small label hlabel).1).word
      have here : (LineMap.ofSource source).lineOf label.span.start = last.number := number
      omega

/-- The excerpt of a diagnostic is made of blocks: one for each line on which a label begins, in
the order of the lines, and each with what the labels there cover. -/
structure Excerpted (source : String) (file : Option String) (d : Diagnostic)
    (blocks : List LineBlock) : Prop where
  ordered : (blocks.map (·.number)).Pairwise (· < ·)
  lines : ∀ n, n ∈ blocks.map (·.number) ↔ ∃ label ∈ d.labels, label.line (.ofSource source) = n
  shows : ∀ b ∈ blocks, b.Shows (.ofSource source) d.labels
  whole : d.excerpt false (.ofSource source) file =
    Excerpt.header false d ++ Excerpt.location false (.ofSource source) file d ++
      (if blocks.isEmpty then "" else blanks (LineBlock.numberWidth blocks + 1) ++ " |\n") ++
      LineBlock.renderAll (LineBlock.numberWidth blocks) blocks ++
      Excerpt.footer false (blanks (LineBlock.numberWidth blocks + 1)) d

/-- Every label of a diagnostic is underlined where it is, whatever its offsets are: they may be
past the end of the source, the wrong way round, or on different lines. The line and the columns of
an offset are those of the source, and nothing that is counted or cut out is out of range. -/
theorem excerpt_underlines (source : String) (file : Option String) (d : Diagnostic)
    (small : ∀ label ∈ d.labels, label.Small) :
    (∀ offset, ∃ line before after,
      OnLine source.toList offset ((LineMap.ofSource source).lineOf offset) line before after ∧
      (LineMap.ofSource source).startOf ((LineMap.ofSource source).lineOf offset) = line.start ∧
      (LineMap.ofSource source).lineText? ((LineMap.ofSource source).lineOf offset) =
        some (String.ofList (dropEnd (· == '\r') line.text))) ∧
    Excerpt.InRange (.ofSource source) d.labels ∧
    ∃ blocks, Excerpted source file d blocks := by
  refine ⟨LineMap.locates source, Excerpt.inRange_ofSource source small,
    (markedLines (.ofSource source) d.labels).map MarkedLine.block, ?_, ?_, ?_, ?_⟩
  · rw [numbers_map_block]
    exact (gathered_markedLines source small).sorted
  · intro n
    rw [numbers_map_block, (gathered_markedLines source small).numbers n]
    simp only [List.mem_map, exists_exists_and_eq_and]
  · intro b hb
    obtain ⟨line, hline, rfl⟩ := List.mem_map.mp hb
    exact shows_block source small hline
  · have width : LineBlock.numberWidth
        ((markedLines (.ofSource source) d.labels).map MarkedLine.block) =
        max 2 (((markedLines (.ofSource source) d.labels).getLast?.map fun line =>
          (toString line.number).length).getD 1) := by
      rw [LineBlock.numberWidth, List.getLast?_map, Option.map_map]
      rfl
    have bar (text : String) : text ++ " " ++ "|" ++ "\n" = text ++ " |\n" := by
      rw [String.append_assoc, String.append_assoc]
      rfl
    unfold Diagnostic.excerpt
    simp only
    rw [← width, body_none _ (gathered_markedLines source small).sorted, Excerpt.bar_false, bar,
      List.isEmpty_map]

/-- A label on two lines, one the wrong way round, and one past the end. -/
theorem excerpt_underlines_crossing :
    ∃ blocks, Excerpted "if x\r\nset y = 1\n\nend" (some "map.j")
      ⟨.error, none, "no then", [⟨⟨3, 10⟩, .primary, some "here"⟩, ⟨⟨12, 8⟩, .secondary, none⟩,
        ⟨⟨40, 50⟩, .primary, some "open"⟩], [], none⟩ blocks :=
  (excerpt_underlines _ _ _ (by unfold Label.Small; decide)).2.2

end MapScript
