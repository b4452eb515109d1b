import MapScript.Proofs.Mentions
import MapScript.Proofs.Origins

/-!
# Where names come from

A name in the tree is the word of an identifier among the tokens. The only other name is `_`,
which stands for one that was missing. Words that name members, keys and keywords give no names.
-/
namespace MapScript

/-- Every name has the property. -/
def Named (P : String → Prop) (ms : List Mention) : Prop := ∀ word, .name word ∈ ms → P word

section
variable {P : String → Prop} {ms ns : List Mention}

@[simp] theorem named_nil : Named P [] := fun _ h => absurd h List.not_mem_nil

@[simp] theorem named_append : Named P (ms ++ ns) ↔ Named P ms ∧ Named P ns := by
  simp only [Named, List.mem_append, or_imp, forall_and]

@[simp] theorem named_name_cons {word : String} :
    Named P (.name word :: ms) ↔ P word ∧ Named P ms := by
  simp [Named, or_imp, forall_and]

@[simp] theorem named_member_cons {word : String} :
    Named P (.member word :: ms) ↔ Named P ms := by
  simp [Named]

@[simp] theorem named_instruction_cons {op : String} :
    Named P (.instruction op :: ms) ↔ Named P ms := by
  simp [Named]

@[simp] theorem named_literalMentions (kind : LiteralKind) (value : String) :
    Named P (literalMentions kind value) := by
  cases kind <;> simp [Named, literalMentions]

end

theorem mem_typeMentions {word : String} {type : Option String} :
    .name word ∈ typeMentions type ↔ .name word ∈ typeTexts type := by
  simp [typeMentions, typeTexts]

/-- A name that a node mentions is its own or that of a node inside. -/
theorem mem_mentions_name {word : String} {n : Node} (h : .name word ∈ n.mentions) :
    .name word ∈ n.ownTexts ∨ .name word ∈ mentionsOf n.children := by
  have params {list : List Param} : .name word ∈ list.flatMap Param.mentions ↔
      .name word ∈ list.flatMap Param.texts := by
    simp [Param.mentions, Param.texts, mem_typeMentions, or_comm]
  cases n with
  | literal kind value => cases kind <;> simp [Node.mentions, literalMentions] at h
  | object fields =>
      rw [Node.mentions, mem_mentionsOfFields] at h
      exact .inr (by simpa [Node.children] using h)
  | _ =>
      simp only [Node.mentions, mentionsOfOption_eq, List.mem_append, List.mem_cons, params,
        mem_typeMentions] at h
      simp only [Node.ownTexts, Node.children, mentionsOf_append, List.mem_append, List.mem_cons]
      grind

theorem named_of_allTexts {P : Text → Prop} {nodes : List Node} (h : AllTexts P nodes) :
    Named (fun word => P (.name word)) (mentionsOf nodes) := by
  have inside (n : Node) : AllTexts P [n] → ∀ word, .name word ∈ n.mentions → P (.name word) := by
    induction n using Node.induction_children with
    | step n ih =>
        intro told word mentioned
        obtain ⟨⟨own, inside⟩, -⟩ := everywhere_cons.mp told
        rcases mem_mentions_name mentioned with here | below
        · exact own _ here
        · obtain ⟨m, hm, mentioned⟩ := mem_mentionsOf.mp below
          exact ih m hm (by simpa using (everywhere_iff _).mp inside m hm) word mentioned
  intro word mentioned
  obtain ⟨n, hn, mentioned⟩ := mem_mentionsOf.mp mentioned
  exact inside n (by simpa using (everywhere_iff _).mp h n hn) word mentioned

/-- Whatever the options are, the names in the tree are words of identifiers, or `_`. -/
theorem parse_named (o : ParseOptions) (tokens : List Token) {word : String}
    (h : .name word ∈ mentionsOf (parse o tokens).tree.body) :
    word = "_" ∨ ∃ t ∈ tokens, t.kind = .identifier ∧ t.word = word := by
  rcases named_of_allTexts (parse_allTexts o tokens) word h with supplied | ⟨t, ht, text⟩
  · exact .inl (by simpa [suppliedTexts] using supplied)
  · refine .inr ⟨t, ht, ?_⟩
    unfold Token.texts at text
    split at text <;> simp_all

end MapScript
