import Mathlib.Data.List.TakeWhile
import MapScript.Proofs.Covering
import MapScript.Proofs.SourceLines

/-!
# Positions and the offsets they stand for

A line and a column together say which byte is meant, also past the end of the source: every offset
has a position, every place on a line is the position of one offset, and positions are in the order
of their offsets. The number of a line is one more than the count of newline bytes before the
offset. The texts of all lines together are the source, apart from the carriage returns at the ends
of lines.
-/
namespace MapScript

/-- The newline bytes before an offset. -/
def newlinesBefore (source : String) (offset : Nat) : Nat :=
  (source.toUTF8.data.toList.take offset).count 10

theorem bytes_eq (source : String) :
    source.toUTF8.data.toList = source.toList.flatMap String.utf8EncodeChar := by
  conv_lhs => rw [← String.ofList_toList (s := source), String.toUTF8_eq_toByteArray,
    String.toByteArray_ofList, List.utf8Encode]
  rw [List.data_toByteArray]

theorem length_flatMap_utf8EncodeChar (text : List Char) :
    (text.flatMap String.utf8EncodeChar).length = byteLength text := by
  induction text with
  | nil => rfl
  | cons c text ih =>
      rw [List.flatMap_cons, List.length_append, ih, String.length_utf8EncodeChar, byteLength_cons]

/-- The byte of a newline is in no other character. -/
theorem eq_newline_of_mem_utf8EncodeChar {c : Char} (h : 10 ∈ String.utf8EncodeChar c) :
    c = '\n' := by
  have value (n : Nat) (h : 10 = UInt8.ofNat n) : n % 256 = 10 := by
    have same := congrArg UInt8.toNat h
    rw [UInt8.toNat_ofNat'] at same
    exact same.symm
  apply Char.ext
  apply UInt32.toNat_inj.mp
  change c.val.toNat = 10
  unfold String.utf8EncodeChar at h
  simp only at h
  split_ifs at h <;> simp only [List.mem_cons, List.not_mem_nil, or_false] at h
  · have byte := value _ h
    omega
  · rcases h with h | h <;> have byte := value _ h <;> omega
  · rcases h with h | h | h <;> have byte := value _ h <;> omega
  · rcases h with h | h | h | h <;> have byte := value _ h <;> omega

theorem count_flatMap_utf8EncodeChar (text : List Char) :
    (text.flatMap String.utf8EncodeChar).count 10 = text.count '\n' := by
  induction text with
  | nil => rfl
  | cons c text ih =>
      rw [List.flatMap_cons, List.count_append, ih]
      by_cases newline : c = '\n'
      · subst newline
        have byte : (String.utf8EncodeChar '\n').count 10 = 1 := by decide
        rw [byte, List.count_cons_self, Nat.add_comm]
      · have none := List.count_eq_zero.mpr (mt eq_newline_of_mem_utf8EncodeChar newline)
        rw [none, List.count_cons_of_ne newline, Nat.zero_add]

/-- All newlines before an offset are before its line. -/
theorem OnLine.newlinesBefore_eq {source : String} {offset number : Nat} {line : SourceLine}
    {before after : List Char} (h : OnLine source.toList offset number line before after) :
    newlinesBefore source offset = before.count '\n' := by
  have start := h.start
  have reached := h.reached
  have inLine (n : Nat) : ((line.text.flatMap String.utf8EncodeChar).take n).count 10 = 0 := by
    have fewer := (List.take_sublist n (line.text.flatMap String.utf8EncodeChar)).count_le 10
    rw [count_flatMap_utf8EncodeChar, List.count_eq_zero.mpr h.unbroken] at fewer
    omega
  have inAfter : ((after.flatMap String.utf8EncodeChar).take
      (offset - byteLength before - byteLength line.text)).count 10 = 0 := by
    by_cases last : after = []
    · rw [last, List.flatMap_nil, List.take_nil, List.count_nil]
    · have inside := h.inside last
      have none : offset - byteLength before - byteLength line.text = 0 := by omega
      rw [none, List.take_zero, List.count_nil]
  have whole : (before.flatMap String.utf8EncodeChar).length ≤ offset := by
    rw [length_flatMap_utf8EncodeChar]
    omega
  unfold newlinesBefore
  rw [bytes_eq, h.whole, List.flatMap_append, List.flatMap_append, List.append_assoc,
    List.take_append, List.take_append, List.take_of_length_le whole, List.count_append,
    List.count_append, count_flatMap_utf8EncodeChar, length_flatMap_utf8EncodeChar,
    length_flatMap_utf8EncodeChar, inLine, inAfter]
  exact Nat.add_zero _

theorem newlinesBefore_mono (source : String) {first second : Nat} (h : first ≤ second) :
    newlinesBefore source first ≤ newlinesBefore source second :=
  (List.take_prefix_take_left h).count_le 10

theorem length_splitLines (start : Nat) (cs : List Char) :
    (splitLines start cs).length = cs.count '\n' + 1 := by
  induction cs generalizing start with
  | nil => rfl
  | cons c cs ih =>
      by_cases newline : c = '\n'
      · subst newline
        rw [splitLines_newline, List.length_cons, ih, List.count_cons_self]
      · obtain ⟨line, lines, split, whole⟩ := splitLines_cons newline start cs
        have length := ih (start + c.utf8Size)
        rw [split] at length
        rw [whole, List.count_cons_of_ne newline, List.length_cons, ← length, List.length_cons]

namespace LineMap

variable (source : String)

/-- There are not more lines than there are bytes, and one. -/
theorem lineCount_le : (ofSource source).lineCount ≤ source.utf8ByteSize + 1 := by
  have count : source.toList.count '\n' ≤ source.toList.length := List.count_le_length
  have bytes := length_le_byteLength source.toList
  rw [byteLength_toList] at bytes
  unfold lineCount ofSource ofChars
  rw [length_splitLines]
  omega

theorem lineOf_eq (offset : Nat) :
    (ofSource source).lineOf offset = 1 + newlinesBefore source offset := by
  obtain ⟨line, before, after, on, -⟩ := locates source offset
  rw [on.newlinesBefore_eq, on.number, Nat.add_comm]

theorem lineOf_mono {first second : Nat} (h : first ≤ second) :
    (ofSource source).lineOf first ≤ (ofSource source).lineOf second := by
  rw [lineOf_eq, lineOf_eq]
  exact Nat.add_le_add_left (newlinesBefore_mono source h) 1

theorem startOf_le (offset : Nat) :
    (ofSource source).startOf ((ofSource source).lineOf offset) ≤ offset := by
  obtain ⟨line, before, after, on, start, -⟩ := locates source offset
  rw [start]
  exact on.reached

/-- Later offsets have later positions. -/
theorem position_lt {first second : Nat} (small : second < UInt32.size - 1) (h : first < second) :
    Prod.Lex (· < ·) (· < ·)
      (((ofSource source).position first).line, ((ofSource source).position first).column)
      (((ofSource source).position second).line, ((ofSource source).position second).column) := by
  rw [position_eq _ (Nat.lt_trans h small), position_eq _ small, Prod.lex_def]
  have lines := lineOf_mono source (Nat.le_of_lt h)
  have reached := startOf_le source first
  rcases Nat.lt_or_eq_of_le lines with earlier | same
  · exact .inl earlier
  · refine .inr ⟨same, ?_⟩
    change first - _ + 1 < second - _ + 1
    rw [← same]
    omega

/-- An offset from the start of a line up to that of the next one is on the line. -/
theorem lineOf_of_startOf_le {number offset : Nat} (first : 1 ≤ number)
    (last : number ≤ (ofSource source).lineCount)
    (reached : (ofSource source).startOf number ≤ offset)
    (inside : number < (ofSource source).lineCount →
      offset < (ofSource source).startOf (number + 1)) :
    (ofSource source).lineOf offset = number := by
  have sorted := pairwise_splitLines 0 source.toList
  have count := lineOf_eq_countP source offset
  have bound : number - 1 < (ofSource source).lines.length := by
    unfold lineCount at last
    omega
  have here := List.getElem?_eq_getElem bound
  rw [startOf_eq here] at reached
  have least := (start_le_iff_lt_countP sorted offset here).mp reached
  have most : (ofSource source).lineOf offset ≤ number := by
    rcases Nat.lt_or_eq_of_le last with more | same
    · -- the next line begins after the offset
      have next := List.getElem?_eq_getElem more
      have start : (ofSource source).startOf (number + 1) = _ := startOf_eq next
      have past := inside more
      rw [start] at past
      have none := mt (start_le_iff_lt_countP sorted offset next).mpr (Nat.not_le_of_lt past)
      change ¬ number < (ofSource source).lines.countP _ at none
      omega
    · rw [same]
      exact lineOf_le_lineCount source offset
  change number - 1 < (ofSource source).lines.countP _ at least
  omega

/-- Every column of a line is that of an offset. -/
theorem position_startOf_add {number column : Nat} (first : 1 ≤ number)
    (last : number ≤ (ofSource source).lineCount) (positive : 1 ≤ column)
    (inside : number < (ofSource source).lineCount →
      (ofSource source).startOf number + column ≤ (ofSource source).startOf (number + 1))
    (small : (ofSource source).startOf number + column - 1 < UInt32.size - 1) :
    (ofSource source).position ((ofSource source).startOf number + column - 1) =
      ⟨number, column⟩ := by
  have line := lineOf_of_startOf_le source first last
    (show _ ≤ (ofSource source).startOf number + column - 1 by omega)
    (fun more => by have next := inside more; omega)
  rw [position_eq _ small, line]
  congr 1
  omega

theorem isSome_lineText?_iff (m : LineMap) (number : Nat) :
    (m.lineText? number).isSome ↔ 1 ≤ number ∧ number ≤ m.lineCount := by
  cases number with
  | zero => simp [lineText?]
  | succ n =>
      have inside : n + 1 ≤ m.lines.length ↔ n < m.lines.length := Nat.succ_le_iff
      simp [lineText?, lineCount, inside]

end LineMap

/-- Only carriage returns stand before the next newline, or before the end if there is none. -/
def endsLine (text : List Char) : Bool :=
  (text.dropWhile (· == '\r')).head?.all (· == '\n')

/-- The text without the carriage returns that stand before a newline or the end, other such ones
between them at most. -/
def trimReturns : List Char → List Char
  | [] => []
  | c :: cs => if c == '\r' && endsLine cs then trimReturns cs else c :: trimReturns cs

example : trimReturns ['a', '\r', '\r', '\n', '\r', 'b', '\r'] = ['a', '\n', '\r', 'b'] := by
  decide

theorem dropEnd_of_all {p : Char → Bool} {text : List Char} (h : text.all p = true) :
    dropEnd p text = [] := by
  unfold dropEnd
  rw [List.reverse_eq_nil_iff, List.dropWhile_eq_nil_iff]
  intro c hc
  exact List.all_eq_true.mp h c (List.mem_reverse.mp hc)

theorem dropEnd_cons {p : Char → Bool} {c : Char} {text : List Char}
    (h : (p c && text.all p) = false) : dropEnd p (c :: text) = c :: dropEnd p text := by
  unfold dropEnd
  rw [List.reverse_cons, List.dropWhile_append]
  split
  · rename_i dropped
    -- the whole text goes, so that the character stays
    have all : text.all p = true := by
      rw [List.all_eq_true]
      intro d hd
      exact List.dropWhile_eq_nil_iff.mp (List.isEmpty_iff.mp dropped) d (List.mem_reverse.mpr hd)
    rw [all, Bool.and_true] at h
    rw [List.isEmpty_iff.mp dropped, List.dropWhile_cons_of_neg (by simp [h])]
    rfl
  · rw [List.reverse_append]
    rfl

/-- Whether only carriage returns are left is read off the first line. -/
theorem endsLine_eq {start : Nat} {cs : List Char} {line : SourceLine} {lines : List SourceLine}
    (h : splitLines start cs = line :: lines) :
    endsLine cs = line.text.all (· == '\r') := by
  induction cs generalizing start line lines with
  | nil =>
      obtain ⟨rfl, -⟩ := List.cons.inj h
      rfl
  | cons c cs ih =>
      by_cases newline : c = '\n'
      · subst newline
        rw [splitLines_newline] at h
        obtain ⟨rfl, -⟩ := List.cons.inj h
        rfl
      · obtain ⟨next, others, split, whole⟩ := splitLines_cons newline start cs
        rw [whole] at h
        obtain ⟨rfl, -⟩ := List.cons.inj h
        rw [List.all_cons, ← ih split]
        by_cases dropped : c = '\r'
        · subst dropped
          rfl
        · have kept : (c == '\r') = false := beq_false_of_ne dropped
          rw [endsLine, List.dropWhile_cons_of_neg (by simp [kept]), kept]
          exact beq_false_of_ne newline

theorem intercalate_cons_head (c : Char) (text : List Char) (texts : List (List Char)) :
    List.intercalate ['\n'] ((c :: text) :: texts) =
      c :: List.intercalate ['\n'] (text :: texts) := by
  cases texts with
  | nil => simp
  | cons next texts => rw [List.intercalate_cons_cons, List.intercalate_cons_cons]; rfl

/-- Lines without their carriage returns, joined again. -/
theorem intercalate_splitLines (start : Nat) (cs : List Char) :
    List.intercalate ['\n'] ((splitLines start cs).map fun line => dropEnd (· == '\r') line.text) =
      trimReturns cs := by
  induction cs generalizing start with
  | nil => rfl
  | cons c cs ih =>
      by_cases newline : c = '\n'
      · subst newline
        obtain ⟨line, lines, split⟩ :=
          List.exists_cons_of_ne_nil (splitLines_ne_nil (start + 1) cs)
        have rest := ih (start + 1)
        rw [split, List.map_cons] at rest
        rw [splitLines_newline, split, List.map_cons, List.map_cons, List.intercalate_cons_cons,
          rest]
        rfl
      · obtain ⟨line, lines, split, whole⟩ := splitLines_cons newline start cs
        have rest := ih (start + c.utf8Size)
        rw [split, List.map_cons] at rest
        rw [whole, List.map_cons, trimReturns, endsLine_eq split, ← rest]
        split
        · rename_i dropped
          have all := (Bool.and_eq_true_iff.mp dropped).2
          have dropped : ((c :: line.text).all fun d => d == '\r') = true := dropped
          rw [dropEnd_of_all dropped, dropEnd_of_all all]
        · rename_i kept
          rw [dropEnd_cons (Bool.not_eq_true _ ▸ kept), intercalate_cons_head]

namespace LineMap

theorem map_lineText? (m : LineMap) :
    (List.range' 1 m.lineCount).map m.lineText? =
      m.lines.map fun line => some (String.ofList (dropEnd (· == '\r') line.text)) := by
  apply List.ext_getElem?
  intro i
  rw [List.getElem?_map, List.getElem?_map]
  by_cases inside : i < m.lineCount
  · have inside' : i < m.lines.length := inside
    rw [List.getElem?_range' inside, List.getElem?_eq_getElem inside']
    have number : 1 + 1 * i = i + 1 := by omega
    rw [Option.map_some, Option.map_some, number, lineText?, List.getElem?_eq_getElem inside',
      Option.map_some]
  · rw [List.getElem?_eq_none (by simpa using inside), List.getElem?_eq_none (by
      simpa [lineCount] using inside)]
    rfl

/-- The texts of all lines, from the first to the last. -/
def texts (m : LineMap) : List String := (List.range' 1 m.lineCount).filterMap m.lineText?

theorem texts_eq (m : LineMap) :
    m.texts = m.lines.map fun line => String.ofList (dropEnd (· == '\r') line.text) := by
  have all := congrArg (List.filterMap id) m.map_lineText?
  rw [List.filterMap_map, List.filterMap_map] at all
  rw [texts, ← List.filterMap_eq_map]
  exact all

theorem intercalate_texts (source : String) :
    String.intercalate "\n" (ofSource source).texts =
      String.ofList (trimReturns source.toList) := by
  have chars : (ofSource source).texts.map String.toList =
      (splitLines 0 source.toList).map fun line => dropEnd (· == '\r') line.text := by
    rw [texts_eq, List.map_map]
    exact List.map_congr_left fun _ _ => String.toList_ofList
  rw [← String.toList_inj, String.toList_intercalate, chars]
  exact (intercalate_splitLines 0 source.toList).trans String.toList_ofList.symm

/-- A map of a source: what it says about offsets and lines is true of the source, and nothing is
lost when an offset becomes a line and a column. -/
structure Describes (m : LineMap) (source : String) : Prop where
  number : ∀ offset, m.lineOf offset = 1 + newlinesBefore source offset
  range : ∀ offset, 1 ≤ m.lineOf offset ∧ m.lineOf offset ≤ m.lineCount
  line : ∀ offset, (m.position offset).line = m.lineOf offset
  /-- The line that an offset is given is there, it is the one that the offset lies on, and from its
  start the column leads back to the offset. -/
  back : ∀ offset < UInt32.size - 1, ∃ line before after,
    m.lines[m.lineOf offset - 1]? = some line ∧
    OnLine source.toList offset (m.lineOf offset) line before after ∧
    line.start ≤ offset ∧ 1 ≤ (m.position offset).column ∧
    line.start + (m.position offset).column - 1 = offset
  /-- Each place on a line, that of its newline included, is the position of an offset, and on the
  last line each place after its start is. -/
  onto : ∀ number column, 1 ≤ number → number ≤ m.lineCount → 1 ≤ column →
    (number < m.lineCount → m.startOf number + column ≤ m.startOf (number + 1)) →
    m.startOf number + column - 1 < UInt32.size - 1 →
    m.position (m.startOf number + column - 1) = ⟨number, column⟩
  order : ∀ first second, first < second → second < UInt32.size - 1 →
    Prod.Lex (· < ·) (· < ·) ((m.position first).line, (m.position first).column)
      ((m.position second).line, (m.position second).column)
  /-- Line numbers are words, as columns are. -/
  words : m.lineCount < UInt32.size
  present : ∀ number, (m.lineText? number).isSome ↔ 1 ≤ number ∧ number ≤ m.lineCount
  joined : String.intercalate "\n" m.texts = String.ofList (trimReturns source.toList)

/-- The map of a source describes it. -/
theorem describes_ofSource (source : String) (small : source.utf8ByteSize < UInt32.size - 1) :
    (ofSource source).Describes source where
  number := lineOf_eq source
  range offset := ⟨one_le_lineOf _ offset, lineOf_le_lineCount source offset⟩
  line offset := rfl
  back offset bound := by
    obtain ⟨line, found⟩ := exists_line source offset
    obtain ⟨before, after, on⟩ := onLine_lineOf source found
    have reached := on.reached
    refine ⟨line, before, after, found, on, reached, ?_, ?_⟩
    · rw [position_eq _ bound]
      exact Nat.le_add_left 1 _
    · rw [position_eq _ bound, startOf_eq found]
      change line.start + (offset - line.start + 1) - 1 = offset
      omega
  onto _ _ first last positive inside bound :=
    position_startOf_add source first last positive inside bound
  order first second earlier bound := position_lt source bound earlier
  words := by
    have count := lineCount_le source
    omega
  present := isSome_lineText?_iff _
  joined := intercalate_texts source

/-- Two bytes of one character, an empty line, and carriage returns inside a line and at ends. -/
theorem describes_ofSource_returns :
    (ofSource "é\r\r\n\nx\ry\r").Describes "é\r\r\n\nx\ry\r" :=
  describes_ofSource _ (by decide)

end LineMap

end MapScript
