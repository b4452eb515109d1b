import Mathlib.Data.List.Chain
import MapScript.Source.LineMap

/-!
# The lines of a source and the places on them

A line stands between two newlines, or between a newline and an end of the source, and its number
is one more than the count of newlines before it. The line that an offset is given is the one it
lies on; an offset past the end lies on the last line.
-/
namespace MapScript

@[simp] theorem byteLength_nil : byteLength [] = 0 := rfl

theorem byteLength_cons (c : Char) (cs : List Char) :
    byteLength (c :: cs) = c.utf8Size + byteLength cs := rfl

@[simp] theorem byteLength_append (first second : List Char) :
    byteLength (first ++ second) = byteLength first + byteLength second := by
  induction first with
  | nil => simp
  | cons c first ih => rw [List.cons_append, byteLength_cons, byteLength_cons, ih, Nat.add_assoc]

theorem length_le_byteLength (text : List Char) : text.length ≤ byteLength text := by
  induction text with
  | nil => exact Nat.le_refl _
  | cons c text ih =>
      have first := c.utf8Size_pos
      rw [List.length_cons, byteLength_cons]
      omega

/-- A line of a source, with the text before it and the text after it. -/
structure LineCut (source before line after : List Char) : Prop where
  whole : source = before ++ line ++ after
  unbroken : '\n' ∉ line
  opens : before = [] ∨ before.getLast? = some '\n'
  closes : after = [] ∨ after.head? = some '\n'

/-- The byte at `offset` is on a line: at its newline or before it, and anywhere after its start if
the line is the last one. -/
structure OnLine (source : List Char) (offset number : Nat) (line : SourceLine)
    (before after : List Char) : Prop extends LineCut source before line.text after where
  number : number = before.count '\n' + 1
  start : line.start = byteLength before
  reached : line.start ≤ offset
  inside : after ≠ [] → offset ≤ line.start + byteLength line.text

theorem LineCut.before_eq_nil {source before line after : List Char}
    (h : LineCut source before line after) (none : before.count '\n' = 0) : before = [] := by
  rcases h.opens with empty | last
  · exact empty
  · have newline : '\n' ∈ before := List.mem_of_getLast? last
    exact absurd newline (List.count_eq_zero.mp none)

/-- A newline more before the line. -/
theorem LineCut.after_newline {source before line after : List Char}
    (h : LineCut source before line after) :
    LineCut ('\n' :: source) ('\n' :: before) line after where
  whole := by rw [h.whole, List.cons_append, List.cons_append]
  unbroken := h.unbroken
  opens := by
    right
    rcases h.opens with rfl | last
    · rfl
    · rw [List.getLast?_cons, last]
      rfl
  closes := h.closes

/-- A character more before an earlier newline. -/
theorem LineCut.after_char {source before line after : List Char} (c : Char)
    (h : LineCut source before line after) (later : before ≠ []) :
    LineCut (c :: source) (c :: before) line after where
  whole := by rw [h.whole, List.cons_append, List.cons_append]
  unbroken := h.unbroken
  opens := by
    right
    have last := h.opens.resolve_left later
    rw [List.getLast?_cons, last]
    rfl
  closes := h.closes

theorem splitLines_ne_nil (start : Nat) (cs : List Char) : splitLines start cs ≠ [] := by
  fun_cases splitLines start cs <;> simp

/-- A character that is no newline goes to the front of the first line. -/
theorem splitLines_cons {c : Char} (h : c ≠ '\n') (start : Nat) (cs : List Char) :
    ∃ line lines, splitLines (start + c.utf8Size) cs = line :: lines ∧
      splitLines start (c :: cs) = ⟨start, c :: line.text⟩ :: lines := by
  obtain ⟨line, lines, split⟩ := List.exists_cons_of_ne_nil
    (splitLines_ne_nil (start + c.utf8Size) cs)
  refine ⟨line, lines, split, ?_⟩
  rw [splitLines, if_neg h, split]

theorem splitLines_newline (start : Nat) (cs : List Char) :
    splitLines start ('\n' :: cs) = ⟨start, []⟩ :: splitLines (start + 1) cs := by
  rw [splitLines, if_pos rfl]

/-- Every line is cut out of the text at its newlines and knows where it begins. -/
theorem splitLines_cut (start : Nat) (cs : List Char) {i : Nat} {line : SourceLine}
    (h : (splitLines start cs)[i]? = some line) :
    ∃ before after, LineCut cs before line.text after ∧ before.count '\n' = i ∧
      line.start = start + byteLength before ∧
      (after = [] ↔ i + 1 = (splitLines start cs).length) := by
  induction cs generalizing start i line with
  | nil =>
      obtain ⟨rfl, rfl⟩ : i = 0 ∧ ⟨start, []⟩ = line := by
        cases i with
        | zero => simpa [splitLines] using h
        | succ i => simp [splitLines] at h
      exact ⟨[], [], ⟨rfl, List.not_mem_nil, .inl rfl, .inl rfl⟩, rfl, rfl, by simp [splitLines]⟩
  | cons c cs ih =>
      by_cases newline : c = '\n'
      · subst newline
        rw [splitLines_newline] at h ⊢
        cases i with
        | zero =>
            obtain rfl : ⟨start, []⟩ = line := by simpa using h
            refine ⟨[], '\n' :: cs, ⟨rfl, List.not_mem_nil, .inl rfl, .inr rfl⟩, rfl, rfl, ?_⟩
            have nonempty := List.length_pos_of_ne_nil (splitLines_ne_nil (start + 1) cs)
            simp only [List.length_cons, reduceCtorEq, false_iff]
            omega
        | succ i =>
            rw [List.getElem?_cons_succ] at h
            obtain ⟨before, after, cut, number, begins, last⟩ := ih (start + 1) h
            refine ⟨'\n' :: before, after, cut.after_newline, ?_, ?_, ?_⟩
            · rw [List.count_cons_self, number]
            · rw [begins, byteLength_cons]
              exact Nat.add_assoc start 1 _
            · rw [last, List.length_cons]
              omega
      · obtain ⟨first, lines, split, whole⟩ := splitLines_cons newline start cs
        rw [whole] at h ⊢
        cases i with
        | zero =>
            obtain rfl : ⟨start, c :: first.text⟩ = line := by simpa using h
            have here : (splitLines (start + c.utf8Size) cs)[0]? = some first := by rw [split]; rfl
            obtain ⟨before, after, cut, number, begins, last⟩ := ih _ here
            -- no newline comes before the first line, so nothing does
            obtain rfl := cut.before_eq_nil number
            refine ⟨[], after, ⟨?_, ?_, .inl rfl, cut.closes⟩, rfl, rfl, ?_⟩
            · rw [cut.whole]
              rfl
            · simp only [List.mem_cons, not_or]
              exact ⟨Ne.symm newline, cut.unbroken⟩
            · rw [last, split]
              rfl
        | succ i =>
            rw [List.getElem?_cons_succ] at h
            have here : (splitLines (start + c.utf8Size) cs)[i + 1]? = some line := by
              rw [split, List.getElem?_cons_succ, h]
            obtain ⟨before, after, cut, number, begins, last⟩ := ih _ here
            have later : before ≠ [] := by
              intro empty
              rw [empty] at number
              simp at number
            refine ⟨c :: before, after, cut.after_char c later, ?_, ?_, ?_⟩
            · rw [List.count_cons_of_ne newline, number]
            · rw [begins, byteLength_cons, Nat.add_assoc]
            · rw [last, split]
              rfl

theorem head_splitLines (start : Nat) (cs : List Char) :
    (splitLines start cs).head?.map SourceLine.start = some start := by
  fun_cases splitLines start cs <;> rfl

/-- A line begins right after the newline of the line before it. -/
theorem isChain_splitLines (start : Nat) (cs : List Char) :
    (splitLines start cs).IsChain fun a b => b.start = a.start + byteLength a.text + 1 := by
  induction cs generalizing start with
  | nil => exact List.isChain_singleton _
  | cons c cs ih =>
      by_cases newline : c = '\n'
      · subst newline
        rw [splitLines_newline, List.isChain_cons]
        refine ⟨?_, ih _⟩
        intro next hnext
        have begins := head_splitLines (start + 1) cs
        rw [Option.mem_def.mp hnext] at begins
        exact Option.some.inj begins
      · obtain ⟨first, lines, split, whole⟩ := splitLines_cons newline start cs
        have begins := head_splitLines (start + c.utf8Size) cs
        have chain := ih (start + c.utf8Size)
        rw [split] at begins chain
        rw [whole]
        rw [List.isChain_cons] at chain ⊢
        refine ⟨fun next hnext => ?_, chain.2⟩
        have after := chain.1 next hnext
        have first_start : first.start = start + c.utf8Size := Option.some.inj begins
        change next.start = start + byteLength (c :: first.text) + 1
        rw [after, first_start, byteLength_cons]
        omega

theorem start_next {start : Nat} {cs : List Char} {i : Nat} {line next : SourceLine}
    (h : (splitLines start cs)[i]? = some line) (h' : (splitLines start cs)[i + 1]? = some next) :
    next.start = line.start + byteLength line.text + 1 := by
  have chain := List.isChain_iff_getElem.mp (isChain_splitLines start cs)
  obtain ⟨hi, rfl⟩ := List.getElem?_eq_some_iff.mp h
  obtain ⟨hi', rfl⟩ := List.getElem?_eq_some_iff.mp h'
  exact chain i hi'

theorem pairwise_splitLines (start : Nat) (cs : List Char) :
    (splitLines start cs).Pairwise fun a b => a.start < b.start := by
  have trans : IsTrans SourceLine fun a b => a.start < b.start := ⟨fun _ _ _ => Nat.lt_trans⟩
  apply List.isChain_iff_pairwise.mp
  apply (isChain_splitLines start cs).imp
  intro a b next
  omega

/-- In lines in order, those that begin at or before an offset are the first ones. -/
theorem start_le_iff_lt_countP {lines : List SourceLine}
    (sorted : lines.Pairwise fun a b => a.start < b.start) (offset : Nat) {i : Nat}
    {line : SourceLine} (h : lines[i]? = some line) :
    line.start ≤ offset ↔ i < lines.countP fun line => line.start ≤ offset := by
  induction lines generalizing i with
  | nil => simp at h
  | cons first lines ih =>
      obtain ⟨below, sorted⟩ := List.pairwise_cons.mp sorted
      by_cases reached : first.start ≤ offset
      · rw [List.countP_cons_of_pos (by simpa using reached)]
        cases i with
        | zero =>
            obtain rfl : first = line := by simpa using h
            simp [reached]
        | succ i =>
            rw [List.getElem?_cons_succ] at h
            rw [ih sorted h]
            omega
      · -- the first line is past the offset, and so are all others
        have none : ∀ other ∈ first :: lines, ¬ other.start ≤ offset := by
          intro other hother
          rcases List.mem_cons.mp hother with rfl | hother
          · exact reached
          · have later := below other hother
            omega
        have count : (first :: lines).countP (fun line => line.start ≤ offset) = 0 := by
          rw [List.countP_eq_zero]
          intro other hother
          simpa using none other hother
        have past := none line (List.mem_of_getElem? h)
        rw [count]
        omega

/-- A line begins at the start of a text and after each of its newlines. -/
theorem countP_splitLines_append (start : Nat) (before after : List Char) :
    (splitLines start (before ++ after)).countP
      (fun line => line.start ≤ start + byteLength before) = 1 + before.count '\n' := by
  induction before generalizing start with
  | nil =>
      obtain ⟨first, lines, split⟩ := List.exists_cons_of_ne_nil (splitLines_ne_nil start after)
      have begins := head_splitLines start after
      have sorted := pairwise_splitLines start after
      rw [split] at begins sorted
      have first_start : first.start = start := Option.some.inj begins
      have later : lines.countP (fun line => line.start ≤ start) = 0 := by
        rw [List.countP_eq_zero]
        intro line hline
        have past := (List.pairwise_cons.mp sorted).1 line hline
        simp only [decide_eq_true_eq]
        omega
      rw [List.nil_append, split, byteLength_nil, Nat.add_zero, List.countP_cons, later,
        first_start]
      simp
  | cons c before ih =>
      rw [List.cons_append, byteLength_cons, ← Nat.add_assoc]
      by_cases newline : c = '\n'
      · subst newline
        have rest := ih (start + 1)
        have size : '\n'.utf8Size = 1 := rfl
        rw [splitLines_newline, List.countP_cons, size, rest, List.count_cons_self, Nat.add_assoc]
        simp [Nat.add_assoc]
      · obtain ⟨first, lines, split, whole⟩ := splitLines_cons newline start (before ++ after)
        have begins := head_splitLines (start + c.utf8Size) (before ++ after)
        have rest := ih (start + c.utf8Size)
        rw [split] at begins rest
        have first_start : first.start = start + c.utf8Size := Option.some.inj begins
        rw [whole, List.count_cons_of_ne newline, ← rest, List.countP_cons, List.countP_cons,
          first_start]
        simp [Nat.add_assoc]

namespace LineMap

/-- The byte at which a line begins. -/
def startOf (m : LineMap) (number : Nat) : Nat :=
  (m.lines[number - 1]?.map SourceLine.start).getD 0

variable (source : String)

/-- The first line begins at or before every offset. -/
theorem countP_pos (offset : Nat) :
    0 < (ofSource source).lines.countP fun line => line.start ≤ offset := by
  obtain ⟨first, lines, split⟩ := List.exists_cons_of_ne_nil (splitLines_ne_nil 0 source.toList)
  have begins := head_splitLines 0 source.toList
  rw [split] at begins
  have zero : first.start = 0 := Option.some.inj begins
  rw [List.countP_pos_iff]
  refine ⟨first, ?_, ?_⟩
  · change first ∈ splitLines 0 source.toList
    rw [split]
    exact List.mem_cons_self
  · simp [zero]

theorem lineOf_eq_countP (offset : Nat) :
    (ofSource source).lineOf offset =
      (ofSource source).lines.countP fun line => line.start ≤ offset :=
  Nat.max_eq_right (countP_pos source offset)

/-- The line of the place behind some characters: one more than there are newlines among them. -/
theorem lineOf_append (before after : List Char) :
    (ofChars (before ++ after)).lineOf (byteLength before) = 1 + before.count '\n' := by
  have counted := countP_splitLines_append 0 before after
  rw [Nat.zero_add] at counted
  unfold lineOf ofChars
  rw [counted]
  exact Nat.max_eq_right (Nat.le_add_right 1 _)

theorem lineWord_append (before after : List Char) :
    (ofChars (before ++ after)).lineWord (byteLength before) =
      (1 + before.count '\n').toUInt32 := by
  rw [lineWord, lineOf_append]

theorem toNat_lineWord_append (before after : List Char) :
    ((ofChars (before ++ after)).lineWord (byteLength before)).toNat =
      (1 + before.count '\n') % UInt32.size := by
  rw [lineWord_append, Nat.toUInt32_eq, UInt32.toNat_ofNat']

theorem one_le_lineOf (m : LineMap) (offset : Nat) : 1 ≤ m.lineOf offset := Nat.le_max_left _ _

theorem lineOf_le_lineCount (offset : Nat) :
    (ofSource source).lineOf offset ≤ (ofSource source).lineCount := by
  rw [lineOf_eq_countP]
  exact List.countP_le_length

/-- There is a line for every offset. -/
theorem exists_line (offset : Nat) :
    ∃ line, (ofSource source).lines[(ofSource source).lineOf offset - 1]? = some line := by
  have first := one_le_lineOf (ofSource source) offset
  have last := lineOf_le_lineCount source offset
  unfold lineCount at last
  exact ⟨_, List.getElem?_eq_getElem (by omega)⟩

/-- The line that an offset is given is the one it is on. -/
theorem onLine_lineOf {offset : Nat} {line : SourceLine}
    (h : (ofSource source).lines[(ofSource source).lineOf offset - 1]? = some line) :
    ∃ before after,
      OnLine source.toList offset ((ofSource source).lineOf offset) line before after := by
  have first := one_le_lineOf (ofSource source) offset
  have number := lineOf_eq_countP source offset
  obtain ⟨before, after, cut, count, begins, last⟩ := splitLines_cut 0 source.toList h
  have sorted := pairwise_splitLines 0 source.toList
  have reached := (start_le_iff_lt_countP sorted offset h).mpr (by
    change _ < (ofSource source).lines.countP _
    omega)
  refine ⟨before, after, cut, by omega, by omega, reached, ?_⟩
  intro more
  -- there is a line after this one, and it begins after the offset
  obtain ⟨bound, -⟩ := List.getElem?_eq_some_iff.mp h
  have inner : (ofSource source).lineOf offset - 1 + 1 < (splitLines 0 source.toList).length :=
    Nat.lt_of_le_of_ne bound (mt last.mpr more)
  obtain ⟨next, hnext⟩ : ∃ next, (splitLines 0 source.toList)[
      (ofSource source).lineOf offset - 1 + 1]? = some next :=
    ⟨_, List.getElem?_eq_getElem inner⟩
  have past := mt (start_le_iff_lt_countP sorted offset hnext).mp (by
    change ¬ _ < (ofSource source).lines.countP _
    omega)
  have begins_next := start_next h hnext
  omega

theorem startOf_eq {m : LineMap} {number : Nat} {line : SourceLine}
    (h : m.lines[number - 1]? = some line) : m.startOf number = line.start := by
  rw [startOf, h, Option.map_some, Option.getD_some]

theorem lineText?_eq {m : LineMap} {number : Nat} {line : SourceLine} (positive : 1 ≤ number)
    (h : m.lines[number - 1]? = some line) :
    m.lineText? number = some (String.ofList (dropEnd (· == '\r') line.text)) := by
  obtain ⟨n, rfl⟩ := Nat.exists_eq_add_of_le' positive
  rw [Nat.add_sub_cancel] at h
  rw [lineText?, h, Option.map_some]

/-- The map knows the number, the start and the text of the line that an offset is on. -/
theorem locates (offset : Nat) :
    ∃ line before after,
      OnLine source.toList offset ((ofSource source).lineOf offset) line before after ∧
      (ofSource source).startOf ((ofSource source).lineOf offset) = line.start ∧
      (ofSource source).lineText? ((ofSource source).lineOf offset) =
        some (String.ofList (dropEnd (· == '\r') line.text)) := by
  obtain ⟨line, h⟩ := exists_line source offset
  obtain ⟨before, after, on⟩ := onLine_lineOf source h
  exact ⟨line, before, after, on, startOf_eq h, lineText?_eq (one_le_lineOf _ _) h⟩

/-- A column is not cut to its word as long as the offset is small enough. -/
theorem columnOf_eq {start offset : Nat} (h : offset < UInt32.size - 1) :
    columnOf start offset = offset - start + 1 := by
  have size : UInt32.size = 4294967296 := rfl
  unfold columnOf
  rw [UInt32.toNat_add, Nat.toUInt32_eq, UInt32.toNat_ofNat']
  simp only [UInt32.toNat_one]
  omega

/-- The line and the column of an offset are found within their bounds: the line is one of the map,
it does not begin after the offset, and neither its number nor the column is too large for a
word. -/
structure InRange (m : LineMap) (offset : Nat) : Prop where
  positive : 1 ≤ m.lineOf offset
  listed : m.lineOf offset ≤ m.lineCount
  word : m.lineOf offset < UInt32.size
  reached : m.startOf (m.lineOf offset) ≤ offset
  column : offset - m.startOf (m.lineOf offset) + 1 < UInt32.size

/-- A line is no further down than its newlines take bytes. -/
theorem inRange_ofSource {offset : Nat} (h : offset < UInt32.size - 1) :
    (ofSource source).InRange offset := by
  have size : UInt32.size = 4294967296 := rfl
  obtain ⟨line, before, after, on, start, -⟩ := locates source offset
  have number := on.number
  have begins := on.start
  have reached := on.reached
  have newlines : before.count '\n' ≤ before.length := List.count_le_length
  have bytes := length_le_byteLength before
  refine ⟨one_le_lineOf _ _, lineOf_le_lineCount source offset, ?_, ?_, ?_⟩ <;> omega

theorem position_eq (m : LineMap) {offset : Nat} (h : offset < UInt32.size - 1) :
    m.position offset = ⟨m.lineOf offset, offset - m.startOf (m.lineOf offset) + 1⟩ := by
  unfold position
  simp only [columnOf_eq h]
  rfl

end LineMap

end MapScript
