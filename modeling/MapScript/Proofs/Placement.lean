import MapScript.Proofs.Forms

/-!
# Where lexemes stand

Lexemes are laid end to end over the bytes of their source. Each of them is a slice of the source
that begins and ends between two characters, a later one begins where an earlier one has ended, and
every byte is in exactly one of them.
-/
namespace MapScript

namespace Span

/-- The span is that of `slice` in the source, which stands there after `before`. -/
structure Marks (span : Span) (source before slice after : String) : Prop where
  whole : source = before ++ slice ++ after
  start : span.start = before.utf8ByteSize
  stop : span.stop = before.utf8ByteSize + slice.utf8ByteSize

/-- The span lies in the source, and no character is cut by it. -/
structure Within (span : Span) (source : String) : Prop where
  ordered : span.start ≤ span.stop
  inside : span.stop ≤ source.utf8ByteSize
  start : String.Pos.Raw.IsValid source ⟨span.start⟩
  stop : String.Pos.Raw.IsValid source ⟨span.stop⟩

theorem Marks.within {span : Span} {source before slice after : String}
    (h : span.Marks source before slice after) : span.Within source where
  ordered := by
    have start := h.start
    have stop := h.stop
    omega
  inside := by
    rw [h.stop, h.whole, String.utf8ByteSize_append, String.utf8ByteSize_append]
    omega
  start := by
    rw [String.Pos.Raw.isValid_iff_exists_append]
    refine ⟨before, slice ++ after, ?_, String.Pos.Raw.ext h.start⟩
    rw [h.whole, String.append_assoc]
  stop := by
    rw [String.Pos.Raw.isValid_iff_exists_append]
    refine ⟨before ++ slice, after, h.whole, String.Pos.Raw.ext ?_⟩
    rw [String.byteIdx_rawEndPos, String.utf8ByteSize_append]
    exact h.stop

/-- The span holds the byte at an offset. -/
def holds (span : Span) (offset : Nat) : Bool := span.start ≤ offset && offset < span.stop

end Span

theorem byteLength_eq_utf8ByteSize (text : List Char) :
    byteLength text = (String.ofList text).utf8ByteSize := by
  induction text with
  | nil => rfl
  | cons c text ih =>
      rw [byteLength_cons, ih, String.ofList_cons, String.utf8ByteSize_append,
        String.utf8ByteSize_singleton]

theorem byteLength_toList (source : String) : byteLength source.toList = source.utf8ByteSize := by
  rw [byteLength_eq_utf8ByteSize, String.ofList_toList]

/-- The line of a piece of a source: one more than there are newlines before it, as a word. -/
theorem Span.Marks.toNat_lineWord {span : Span} {source before slice after : String}
    (h : span.Marks source before slice after) :
    ((LineMap.ofSource source).lineWord span.start).toNat =
      (1 + before.toList.count '\n') % UInt32.size := by
  have word := LineMap.toNat_lineWord_append before.toList (slice.toList ++ after.toList)
  rw [byteLength_toList, ← h.start] at word
  rw [LineMap.ofSource, h.whole, String.toList_append, String.toList_append, List.append_assoc]
  exact word

theorem byteLength_pos {text : List Char} (h : text ≠ []) : 0 < byteLength text := by
  obtain ⟨c, rest, rfl⟩ := List.exists_cons_of_ne_nil h
  have first := c.utf8Size_pos
  rw [byteLength_cons]
  omega

/-- The lexemes of a source, each in its place. -/
def placedLexemes (source : List Char) : List PlacedLexeme :=
  placeLexemes (.ofChars source) 0 (Lexeme.scan source)

/-- Before a lexeme in its place stand the lexemes before it. -/
theorem split_of_mem_placeLexemes {lines : LineMap} {offset : Nat} {lexemes : List Lexeme}
    {p : PlacedLexeme} (h : p ∈ placeLexemes lines offset lexemes) :
    ∃ first second, lexemes = first ++ p.lexeme :: second ∧
      p.span.start = offset + byteLength (first.flatMap (·.text)) ∧
      p.span.stop = p.span.start + byteLength p.lexeme.text ∧
      p.line = lines.lineWord p.span.start := by
  induction lexemes generalizing offset with
  | nil => cases h
  | cons lexeme lexemes ih =>
      rcases List.mem_cons.mp h with rfl | h
      · exact ⟨[], lexemes, rfl, rfl, rfl, rfl⟩
      · obtain ⟨first, second, rfl, start, stop, place⟩ := ih h
        refine ⟨lexeme :: first, second, rfl, ?_, stop, place⟩
        rw [start, List.flatMap_cons, byteLength_append]
        omega

/-- Later lexemes begin where earlier ones have ended. -/
theorem pairwise_placeLexemes (lines : LineMap) (offset : Nat) (lexemes : List Lexeme) :
    (placeLexemes lines offset lexemes).Pairwise fun p q => p.span.stop ≤ q.span.start := by
  induction lexemes generalizing offset with
  | nil => exact .nil
  | cons lexeme lexemes ih =>
      apply List.Pairwise.cons _ (ih _)
      intro q hq
      obtain ⟨first, _, _, start, _⟩ := split_of_mem_placeLexemes hq
      rw [start]
      exact Nat.le_add_right ..

/-- Every byte is in one lexeme, and only in one. -/
theorem countP_holds_placeLexemes (lines : LineMap) (offset : Nat) (lexemes : List Lexeme)
    (byte : Nat) :
    (placeLexemes lines offset lexemes).countP (·.span.holds byte) =
      if offset ≤ byte ∧ byte < offset + byteLength (lexemes.flatMap (·.text)) then 1 else 0 := by
  induction lexemes generalizing offset with
  | nil =>
      rw [if_neg (by simp)]
      rfl
  | cons lexeme lexemes ih =>
      rw [placeLexemes, List.countP_cons, ih, List.flatMap_cons, byteLength_append]
      simp only [Span.holds, Bool.and_eq_true, decide_eq_true_eq]
      split <;> split <;> split <;> omega

namespace Lexeme

/-- Every lexeme has the form of its kind where the others come behind it. -/
inductive Formed : List Lexeme → Prop
  | nil : Formed []
  | cons {lexeme : Lexeme} {lexemes : List Lexeme} :
      Form lexeme.kind lexeme.text (lexemes.flatMap (·.text)) → Formed lexemes →
      Formed (lexeme :: lexemes)

theorem formed_scan (source : List Char) : Formed (scan source) := by
  induction hn : source.length using Nat.strongRecOn generalizing source with
  | ind n ih =>
      cases source with
      | nil => exact .nil
      | cons c cs =>
          have length := length_rest_le c cs
          have rest := ih _ (by rw [← hn, List.length_cons]; omega) (cut c cs).rest rfl
          rw [scan_cons]
          apply Formed.cons _ rest
          rw [flatMap_text_scan]
          exact form_cut c cs

theorem Formed.form {first second : List Lexeme} {lexeme : Lexeme}
    (h : Formed (first ++ lexeme :: second)) :
    Form lexeme.kind lexeme.text (second.flatMap (·.text)) := by
  induction first with
  | nil =>
      cases h with
      | cons form _ => exact form
  | cons before first ih =>
      cases h with
      | cons _ rest => exact ih rest

end Lexeme

/-- A lexeme of a source, with what stands before it and after it there. -/
theorem place_of_mem_placedLexemes {source : String} {p : PlacedLexeme}
    (h : p ∈ placedLexemes source.toList) :
    ∃ before after, p.span.Marks source before (String.ofList p.lexeme.text) after ∧
      Lexeme.Form p.lexeme.kind p.lexeme.text after.toList := by
  obtain ⟨first, second, split, start, stop, -⟩ := split_of_mem_placeLexemes h
  have whole := Lexeme.flatMap_text_scan source.toList
  rw [split, List.flatMap_append, List.flatMap_cons] at whole
  refine ⟨String.ofList (first.flatMap (·.text)), String.ofList (second.flatMap (·.text)),
    ⟨?_, ?_, ?_⟩, ?_⟩
  · rw [← String.ofList_append, ← String.ofList_append, List.append_assoc, whole,
      String.ofList_toList]
  · rw [start, byteLength_eq_utf8ByteSize, Nat.zero_add]
  · rw [stop, start, byteLength_eq_utf8ByteSize, byteLength_eq_utf8ByteSize, Nat.zero_add]
  · rw [String.toList_ofList]
    exact (split ▸ Lexeme.formed_scan source.toList).form

end MapScript
