import MapScript.Proofs.Comparing.Statements

/-!
# Parsers with different settings

Parsers that have the same tokens before them can differ in their options and in what is left of
the budget. Most steps do not look at either, so little has to be known to compare the parsers:
what they record as a type, which of them gives up when both skip a token, and that they agree on
instructions, if need be because none of them is ahead.
-/
namespace MapScript

namespace ParserState

/-- The state with other options, another budget and another memory of what was done. -/
def under (options : ParseOptions) (budget : Nat) (trail : List ParseEvent) (s : ParserState) :
    ParserState :=
  { s with options := options, budget := budget, trail := trail }

/-- The state after the current token is skipped, whatever that leaves of the budget. -/
def skip (s : ParserState) : ParserState :=
  { (s.advance.note (.skipping s.current s.budget)).record (.unexpectedToken s.current) with
    budget := s.budget - 1 }

@[simp] theorem options_skip (s : ParserState) : s.skip.options = s.options := by
  simp [skip, note]

@[simp] theorem budget_skip (s : ParserState) : s.skip.budget = s.budget - 1 := rfl

@[simp] theorem rest_skip (s : ParserState) : s.skip.rest = s.advance.rest := by
  simp [skip, note]

theorem reject_eq (s : ParserState) :
    s.reject = if s.budget - 1 = 0 then s.skip.abort s.current else s.skip := by
  have budget : ((s.advance.note (.skipping s.current s.budget)).record
      (.unexpectedToken s.current)).budget = s.budget := by
    simp [note]
  unfold reject skip
  dsimp only
  rw [budget]

section
variable (options : ParseOptions) (budget : Nat) (trail : List ParseEvent) (s : ParserState)

theorem advance_under :
    (s.under options budget trail).advance = s.advance.under options budget trail := by
  change (if s.current.kind = .endOfFile then _ else _) = _
  unfold advance
  split <;> rfl

theorem record_under (error : ParseError) :
    (s.under options budget trail).record error =
      (s.record error).under options budget trail := by
  change (if s.errors.length < maxErrors then _ else _) = _
  unfold record
  split <;> rfl

theorem markAsync_under :
    (s.under options budget trail).markAsync = s.markAsync.under options budget trail := by
  unfold markAsync
  cases h : s.frames with
  | nil => simp [under, h]
  | cons f outer => simp [under, h]

theorem skip_under :
    (s.under options budget trail).skip =
      s.skip.under options (budget - 1) (.skipping s.current budget :: trail) := by
  have noted : (s.under options budget trail).advance.note (.skipping s.current budget) =
      (s.advance.note (.skipping s.current s.budget)).under options budget
        (.skipping s.current budget :: trail) := by
    rw [advance_under]
    rfl
  have recorded := record_under options budget (.skipping s.current budget :: trail)
    (s.advance.note (.skipping s.current s.budget)) (.unexpectedToken s.current)
  rw [← noted] at recorded
  exact congrArg (fun t : ParserState => { t with budget := budget - 1 }) recorded

end

end ParserState

/-- How the settings of two parsers can differ, and what happens when the first one gives up before
the second. -/
structure Settings where
  /-- The options and the budget of the first parser and those of the second. -/
  Rel : ParseOptions → Nat → ParseOptions → Nat → Prop
  Apart : ParserState → ParserState → Prop
  onType : String → Option String
  /-- What is known of all the tokens ahead. -/
  Ahead : Token → Prop
  asm {o o' : ParseOptions} {b b' : Nat} : Rel o b o' b' → o'.asm = o.asm ∨
    ∀ t, Ahead t → t.kind = .identifier → Instruction.find? t.word = none
  types {o o' : ParseOptions} {b b' : Nat} : Rel o b o' b' → ∀ word,
    (if o'.types then some word else none) = (if o.types then some word else none).bind onType
  spend {o o' : ParseOptions} {b b' : Nat} : Rel o b o' b' → Rel o (b - 1) o' (b' - 1)
  first {o o' : ParseOptions} {b b' : Nat} : Rel o b o' b' → b' - 1 = 0 → b - 1 = 0
  part {s : ParserState} {o : ParseOptions} {b : Nat} (trail : List ParseEvent) (last : Token) :
    Rel s.options s.budget o b → s.budget - 1 = 0 → b - 1 ≠ 0 →
      Apart (s.skip.abort last) (s.skip.under o (b - 1) trail)
  apart {s t s' t' : ParserState} : Apart s t → Evolves s s' → Evolves t t' → Apart s' t'
  apart_leaveFrame {s t : ParserState} : Apart s t →
    Apart { s with frames := s.frames.tail } { t with frames := t.frames.tail }
  apart_leaveBlock {s t : ParserState} : Apart s t →
    Apart { s with openers := s.openers.tail } { t with openers := t.openers.tail }

namespace Settings
variable (v : Settings)

/-- The second parser differs from the first in its settings only. -/
def Like (s t : ParserState) : Prop :=
  ∃ o b trail, t = s.under o b trail ∧ v.Rel s.options s.budget o b ∧ ∀ x ∈ s.rest, v.Ahead x

variable {v} {s t : ParserState}

/-- A step that does not look at the settings and keeps them. -/
theorem Like.step (h : v.Like s t) (step : ParserState → ParserState)
    (under : ∀ o b trail, step (s.under o b trail) = (step s).under o b trail)
    (options : (step s).options = s.options) (budget : (step s).budget = s.budget)
    (rest : (step s).rest <:+ s.rest) : v.Like (step s) (step t) := by
  obtain ⟨o, b, trail, rfl, rel, ahead⟩ := h
  refine ⟨o, b, trail, under o b trail, ?_, fun x hx => ahead x (rest.mem hx)⟩
  rwa [options, budget]

theorem Like.reject (h : v.Like s t) :
    v.Like s.reject t.reject ∨ v.Apart s.reject t.reject := by
  obtain ⟨o, b, trail, rfl, rel, ahead⟩ := h
  have ahead (x : Token) (hx : x ∈ s.skip.rest) : v.Ahead x := by
    rw [s.rest_skip] at hx
    exact ahead x (s.rest_advance_suffix.mem hx)
  have spent : v.Rel s.skip.options s.skip.budget o (b - 1) := by
    simpa using v.spend rel
  have skipped := s.skip_under o b trail
  have budget : (s.under o b trail).budget = b := rfl
  rw [s.reject_eq, ParserState.reject_eq, skipped, budget]
  by_cases out : b - 1 = 0
  · -- The second parser gives up, and so does the first.
    rw [if_pos (v.first rel out), if_pos out]
    exact .inl ⟨o, b - 1, _, rfl, spent, ahead⟩
  · rw [if_neg out]
    by_cases out' : s.budget - 1 = 0
    · rw [if_pos out']
      exact .inr (v.part _ _ rel out' out)
    · rw [if_neg out']
      exact .inl ⟨o, b - 1, _, rfl, spent, ahead⟩

/-- The parsers agree on whether a name is an instruction. -/
theorem Like.atInstruction (h : v.Like s t) (hk : s.current.kind = .identifier) :
    t.atInstruction = s.atInstruction := by
  obtain ⟨o, b, trail, rfl, rel, ahead⟩ := h
  unfold ParserState.atInstruction
  rcases v.asm rel with same | unknown
  · have asm : (s.under o b trail).options.asm = s.options.asm := same
    rw [asm]
    rfl
  · have mem : s.current ∈ s.rest := by
      rw [s.rest_advance (by rw [hk]; decide)]
      exact List.mem_cons_self
    have find : Instruction.find? s.current.word = none := unknown _ (ahead _ mem) hk
    have find' : Instruction.find? (s.under o b trail).current.word = none := find
    dsimp only
    rw [find, find', Option.isSome_none, Bool.and_false, Bool.and_false, Bool.false_and,
      Bool.false_and]

variable (v) in
/-- The comparison of parsers with such settings. -/
def comparison : Comparison where
  Like := v.Like
  Apart := v.Apart
  SpanLike := Eq
  onType := v.onType
  spare := 0
  spare' := 0
  length := by
    rintro s _ ⟨o, b, trail, rfl, -⟩
    rfl
  token := by
    rintro s _ ⟨o, b, trail, rfl, -⟩
    exact ⟨rfl, rfl, rfl⟩
  beforeName := by
    rintro s _ ⟨o, b, trail, rfl, -⟩ -
    rfl
  atInstruction := Like.atInstruction
  aborted := by
    rintro s _ ⟨o, b, trail, rfl, -⟩
    rfl
  types := by
    rintro s _ ⟨o, b, trail, rfl, rel, -⟩
    exact v.types rel
  waits := by
    rintro s _ ⟨o, b, trail, rfl, -⟩
    rfl
  advance {s _} h := h.step _ (fun o b trail => s.advance_under o b trail) (by simp) (by simp)
    s.rest_advance_suffix
  skipLineEnds h := h.step ParserState.skipLineEnds (fun _ _ _ => rfl) rfl rfl
    (List.dropWhile_suffix _)
  note word h := by
    obtain ⟨o, b, trail, rfl, rel⟩ := h
    exact ⟨o, b, .statement word :: trail, rfl, rel⟩
  expected {s _} wanted h :=
    h.step (fun s => s.record (.expected wanted s.current))
      (fun o b trail => s.record_under o b trail _) (by simp) (by simp) (by simp)
  ended {s _} closer h :=
    h.step (fun s => s.record (.unexpectedEnd s.current closer s.openers.head?))
      (fun o b trail => s.record_under o b trail _) (by simp) (by simp) (by simp)
  reject := Like.reject
  markAsync {s _} h := h.step _ (fun o b trail => s.markAsync_under o b trail) (by simp) (by simp)
    (by simp)
  enterFrame h :=
    h.step (fun s => { s with frames := false :: s.frames }) (fun _ _ _ => rfl) rfl rfl
      List.suffix_rfl
  leaveFrame h := h.step (fun s => { s with frames := s.frames.tail }) (fun _ _ _ => rfl) rfl rfl
    List.suffix_rfl
  enterBlock := by
    rintro s t a _ rfl h
    exact h.step (fun s => { s with openers := a :: s.openers }) (fun _ _ _ => rfl) rfl rfl
      List.suffix_rfl
  leaveBlock h :=
    h.step (fun s => { s with openers := s.openers.tail }) (fun _ _ _ => rfl) rfl rfl
      List.suffix_rfl
  apart := v.apart
  apart_leaveFrame := v.apart_leaveFrame
  apart_leaveBlock := v.apart_leaveBlock

end Settings

end MapScript
