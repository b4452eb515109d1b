import MapScript.Builtin.Instruction

/-!
# Words up to letter case

Two words are the same word when their small spellings are equal, so the small spelling of a word
is the same word, and a word without letters is the same word as itself only.
-/
namespace MapScript

theorem sameWord_congr {a b : String} (h : sameWord a b = true) (word : String) :
    sameWord a word = sameWord b word := by
  unfold sameWord at h ⊢
  rw [beq_iff_eq.mp h]

theorem sameWord_comm (a b : String) : sameWord a b = sameWord b a := BEq.comm

theorem toLower_toLower (c : Char) : c.toLower.toLower = c.toLower := by
  unfold Char.toLower
  grind

theorem sameWord_lowerWord (a b : String) : sameWord a (lowerWord b) = sameWord a b := by
  have small : (b.toList.map Char.toLower).map Char.toLower = b.toList.map Char.toLower := by
    rw [List.map_map]
    exact List.map_congr_left fun c _ => toLower_toLower c
  unfold sameWord lowerWord
  rw [String.toList_ofList, small]

theorem eq_of_toLower_eq {c d : Char} (hd : d.isAlpha = false) (h : c.toLower = d.toLower) :
    c = d := by
  obtain ⟨upper, lower⟩ := Bool.or_eq_false_iff.mp hd
  have upper : ¬ (d.val ≥ 'A'.val ∧ d.val ≤ 'Z'.val) := of_decide_eq_false upper
  have lower : ¬ d.val ≥ 'a'.val ∨ ¬ d.val ≤ 'z'.val :=
    (Bool.and_eq_false_iff.mp lower).imp of_decide_eq_false of_decide_eq_false
  unfold Char.toLower at h
  rw [dif_neg upper] at h
  split at h
  · have small : d.val = c.val + 32 := by rw [← h]; rfl
    grind
  · exact h

def isLetterless (word : String) : Bool := word.toList.all fun c => !c.isAlpha

/-- Without letters in it, a word has one spelling. -/
theorem eq_of_sameWord {a b : String} (hb : isLetterless b) (h : sameWord a b) : a = b := by
  have hb : ∀ c ∈ b.toList, c.isAlpha = false := by simpa [isLetterless] using hb
  unfold sameWord at h
  rw [beq_iff_eq] at h
  rw [← String.toList_inj]
  generalize a.toList = as at h
  generalize b.toList = bs at h hb
  induction as generalizing bs with
  | nil => simpa using h
  | cons c as ih =>
      cases bs with
      | nil => cases h
      | cons d bs =>
          obtain ⟨hc, hs⟩ := List.cons.inj h
          rw [eq_of_toLower_eq (hb d List.mem_cons_self) hc,
            ih bs hs fun e he => hb e (List.mem_cons_of_mem d he)]

/-- An instruction is found by the small spelling of its name too. -/
theorem Instruction.find?_lowerWord (word : String) : find? (lowerWord word) = find? word := by
  unfold find?
  simp only [sameWord_lowerWord]

end MapScript
