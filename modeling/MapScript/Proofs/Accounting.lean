import MapScript.Proofs.Progress

/-!
# Errors and the budget

Every token that is skipped costs one from the budget and is reported, as long as there is room
for the report. With the budget the parser gives up, which it reports in any case and only once.
So the errors tell how often a token was skipped: exactly, if they are few enough that none was
left out.

All this concerns a small part of the state, the account of a parser. It is in one of two
conditions, `Going` and then `GaveUp`; each step keeps the first one or leads over to the second,
and keeps the second one.
-/
namespace MapScript

namespace ParseError

/-- The error reports a token that was skipped. -/
def isUnexpected : ParseError → Bool
  | unexpectedToken _ => true
  | _ => false

/-- The error reports that the parser gave up. -/
def isExhausted : ParseError → Bool
  | budgetExhausted _ => true
  | _ => false

end ParseError

def ParseEvent.skipped? : ParseEvent → Option Token
  | .skipping found _ => some found
  | _ => none

/-- The tokens that were skipped so far, the latest first. -/
def ParserState.skipped (s : ParserState) : List Token := s.trail.filterMap ParseEvent.skipped?

/-- The part of a state that errors and the budget depend on. -/
structure Account where
  /-- The budget that the parser began with. -/
  limit : Nat
  budget : Nat
  aborted : Bool
  errors : List ParseError
  /-- How many tokens were skipped. -/
  skipped : Nat

def ParserState.account (s : ParserState) : Account :=
  ⟨s.options.retryBudget, s.budget, s.aborted, s.errors, s.skipped.length⟩

/-- The errors with another one, if there is room for it. -/
def keepError (error : ParseError) (errors : List ParseError) : List ParseError :=
  if errors.length < maxErrors then errors ++ [error] else errors

namespace Account

def record (error : ParseError) (a : Account) : Account :=
  { a with errors := keepError error a.errors }

/-- A token is skipped and reported, and the budget gets smaller. -/
def skip (found : Token) (a : Account) : Account :=
  { a with
    budget := a.budget - 1
    errors := keepError (.unexpectedToken found) a.errors
    skipped := a.skipped + 1 }

def abort (last : Token) (a : Account) : Account :=
  { a with aborted := true, errors := a.errors ++ [.budgetExhausted last] }

def reject (found : Token) (a : Account) : Account :=
  if a.budget - 1 = 0 then (a.skip found).abort found else a.skip found

end Account

namespace ParserState

@[simp] theorem account_advance (s : ParserState) : s.advance.account = s.account := by
  simp [account, skipped]

@[simp] theorem account_markAsync (s : ParserState) : s.markAsync.account = s.account := by
  simp [account, skipped]

theorem account_record (error : ParseError) (s : ParserState) :
    (s.record error).account = s.account.record error := by
  have errors : (s.record error).errors = keepError error s.errors := by
    unfold record keepError
    split <;> rfl
  simp [account, skipped, Account.record, errors]

theorem account_reject (s : ParserState) :
    s.reject.account = s.account.reject s.current := by
  have noted : (s.advance.note (.skipping s.current s.budget)).account =
      { s.account with skipped := s.account.skipped + 1 } := by
    rw [← s.account_advance]
    rfl
  have recorded := account_record (.unexpectedToken s.current)
    (s.advance.note (.skipping s.current s.budget))
  rw [noted] at recorded
  unfold reject
  dsimp only
  generalize ParserState.record _ (s.advance.note _) = t at recorded ⊢
  have budget : t.budget = s.budget := congrArg Account.budget recorded
  have skipped : account { t with budget := t.budget - 1 } = s.account.skip s.current := by
    change { t.account with budget := t.budget - 1 } = _
    rw [recorded, budget]
    rfl
  rw [budget] at skipped ⊢
  rw [apply_ite account, Account.reject, ← skipped]
  rfl

end ParserState

/-- The errors of a parser that has skipped this many tokens and not given up: they tell of these
tokens as far as there is room. -/
structure Reports (errors : List ParseError) (skipped : Nat) : Prop where
  plain : ∀ e ∈ errors, e.isExhausted = false
  room : errors.length ≤ maxErrors
  counted : errors.countP (·.isUnexpected) ≤ skipped
  exact : errors.length < maxErrors → errors.countP (·.isUnexpected) = skipped

namespace Reports
variable {errors : List ParseError} {skipped : Nat}

theorem nil : Reports [] 0 := ⟨List.forall_mem_nil _, Nat.zero_le _, Nat.le_refl _, fun _ => rfl⟩

theorem keepError (h : Reports errors skipped) {error : ParseError}
    (plain : error.isExhausted = false) :
    Reports (keepError error errors) (skipped + if error.isUnexpected then 1 else 0) := by
  unfold MapScript.keepError
  split
  · rename_i room
    have count : (errors ++ [error]).countP (·.isUnexpected) =
        skipped + if error.isUnexpected then 1 else 0 := by
      rw [List.countP_append, h.exact room, List.countP_singleton]
    refine ⟨List.forall_mem_append.mpr ⟨h.plain, by simpa using plain⟩, ?_, Nat.le_of_eq count,
      fun _ => count⟩
    rw [List.length_append]
    exact room
  · rename_i full
    exact ⟨h.plain, h.room, Nat.le_add_right_of_le h.counted, fun room => absurd room full⟩

end Reports

theorem keepError_ne_nil (error : ParseError) (errors : List ParseError) :
    keepError error errors ≠ [] := by
  unfold keepError
  split
  · simp
  · rename_i full
    intro none
    simp [none, maxErrors] at full

theorem keepError_of_room {error : ParseError} {errors : List ParseError}
    (h : (keepError error errors).length < maxErrors) :
    keepError error errors = errors ++ [error] := by
  unfold keepError at h ⊢
  split at h
  · rename_i room
    exact if_pos room
  · exact absurd h ‹_›

namespace Account

/-- The parser has not given up: something of the budget is left, or no token was skipped yet. -/
structure Going (a : Account) : Prop where
  aborted : a.aborted = false
  budget : a.budget = a.limit - a.skipped
  below : a.skipped < max 1 a.limit
  reports : Reports a.errors a.skipped

/-- The parser gave up at the token `last`, with the errors `before`. It may have found more errors
since then, but it has skipped nothing. -/
structure GaveUp (a : Account) (before : List ParseError) (last : Token)
    (after : List ParseError) : Prop where
  aborted : a.aborted = true
  budget : a.budget = 0
  spent : a.skipped = max 1 a.limit
  errors : a.errors = before ++ .budgetExhausted last :: after
  reports : Reports before a.skipped
  reported : before ≠ []
  direct : before.length < maxErrors → ∃ first, before = first ++ [.unexpectedToken last]
  plain : ∀ e ∈ after, e.isExhausted = false ∧ e.isUnexpected = false
  room : after = [] ∨ before.length + after.length < maxErrors

/-- The errors and the budget fit together. -/
def Sound (a : Account) : Prop := a.Going ∨ ∃ before last after, a.GaveUp before last after

section
variable {a : Account}

theorem Going.reject (h : a.Going) (found : Token) : (a.reject found).Sound := by
  have reports : Reports (a.skip found).errors (a.skip found).skipped := h.reports.keepError rfl
  have budget := h.budget
  have below := h.below
  unfold Account.reject
  split
  · right
    refine ⟨(a.skip found).errors, found, [], rfl, ‹_›, ?_, rfl, reports, keepError_ne_nil _ _,
      fun room => ⟨a.errors, keepError_of_room room⟩, List.forall_mem_nil _, .inl rfl⟩
    change a.skipped + 1 = max 1 a.limit
    omega
  · left
    refine ⟨h.aborted, ?_, ?_, reports⟩
    · change a.budget - 1 = a.limit - (a.skipped + 1)
      omega
    · change a.skipped + 1 < max 1 a.limit
      omega

/-- An error that is not about a skipped token changes nothing in the account. -/
theorem Sound.record (h : a.Sound) {error : ParseError} (plain : error.isExhausted = false)
    (other : error.isUnexpected = false) : (a.record error).Sound := by
  rcases h with h | ⟨before, last, after, h⟩
  · have reports := h.reports.keepError plain
    rw [other] at reports
    exact .inl ⟨h.aborted, h.budget, h.below, reports⟩
  · right
    unfold Account.record keepError
    split
    · rename_i room
      have length : a.errors.length = before.length + after.length + 1 := by
        rw [h.errors, List.length_append, List.length_cons]
        omega
      refine ⟨before, last, after ++ [error], h.aborted, h.budget, h.spent, ?_, h.reports,
        h.reported, h.direct, ?_, .inr ?_⟩
      · simp [h.errors]
      · exact List.forall_mem_append.mpr ⟨h.plain, by simpa using ⟨plain, other⟩⟩
      · rw [List.length_append, List.length_singleton]
        omega
    · exact ⟨before, last, after, h⟩

theorem Going.unexpected_lt (h : a.Going) :
    a.errors.countP (·.isUnexpected) < max 1 a.limit :=
  Nat.lt_of_le_of_lt h.reports.counted h.below

section
variable {before after : List ParseError} {last : Token} (h : a.GaveUp before last after)
include h

theorem GaveUp.length : a.errors.length = before.length + after.length + 1 := by
  rw [h.errors, List.length_append, List.length_cons, Nat.add_assoc]

theorem GaveUp.exhausted : a.errors.countP (·.isExhausted) = 1 := by
  have first : before.countP (·.isExhausted) = 0 := by
    simpa [List.countP_eq_zero] using h.reports.plain
  have rest : after.countP (·.isExhausted) = 0 := by
    simpa [List.countP_eq_zero] using fun e he => (h.plain e he).1
  rw [h.errors, List.countP_append, List.countP_cons, first, rest]
  rfl

theorem GaveUp.unexpected :
    a.errors.countP (·.isUnexpected) = before.countP (·.isUnexpected) := by
  have rest : after.countP (·.isUnexpected) = 0 := by
    simpa [List.countP_eq_zero] using fun e he => (h.plain e he).2
  rw [h.errors, List.countP_append, List.countP_cons, rest]
  rfl

theorem GaveUp.others : a.errors.countP (!·.isExhausted) = before.length + after.length := by
  have first : before.countP (!·.isExhausted) = before.length := by
    simpa [List.countP_eq_length] using h.reports.plain
  have rest : after.countP (!·.isExhausted) = after.length := by
    simpa [List.countP_eq_length] using fun e he => (h.plain e he).1
  rw [h.errors, List.countP_append, List.countP_cons, first, rest]
  rfl

end

end

end Account

theorem Step.sound {s t : ParserState} (h : Step s t) (hs : s.account.Sound) :
    t.account.Sound := by
  cases h with
  | advance => rwa [s.account_advance]
  | markAsync => rwa [s.account_markAsync]
  | skipLineEnds | note => exact hs
  | expected | ended =>
      rw [s.account_record]
      exact hs.record rfl rfl
  | reject going =>
      rw [s.account_reject]
      rcases hs with hs | ⟨_, _, _, hs⟩
      · exact hs.reject s.current
      · cases going.symm.trans hs.aborted

theorem Evolves.sound {s t : ParserState} (h : Evolves s t) (hs : s.account.Sound) :
    t.account.Sound := by
  induction h with
  | refl => exact hs
  | single step => exact step.sound hs
  | trans _ _ ih ih' => exact ih' (ih hs)
  | framed _ ih | blocked _ _ ih => exact ih hs

theorem ParserState.sound_start (o : ParseOptions) (tokens : List Token) :
    (start o tokens).account.Sound :=
  .inl ⟨rfl, rfl, Nat.lt_of_lt_of_le Nat.zero_lt_one (Nat.le_max_left ..), .nil⟩

theorem ParserState.skipped_readProgram (s : ParserState) :
    s.readProgram.2.skipped = (s.readUntil none).2.skipped := by
  unfold readProgram finish
  dsimp only
  split <;> rfl

/-- How many errors a parser finds and which: it keeps 50 and the one that says that it gave up,
of which there is one exactly if it did. It gives up with the last token of its budget and
reports the tokens it has skipped, all of them if there is room. -/
theorem parse_accounting (o : ParseOptions) (tokens : List Token) :
    let r := parse o tokens
    let n := max 1 o.retryBudget
    let skipped := ((ParserState.ofOptions o).reset tokens).readProgram.2.skipped
    (r.aborted = false → r.errors.length ≤ 50 ∧
      r.errors.countP (·.isExhausted) = 0 ∧
      r.errors.countP (·.isUnexpected) < n) ∧
    (r.aborted = true → r.errors.length ≤ 51 ∧ 2 ≤ r.errors.length ∧
      r.errors.countP (·.isExhausted) = 1 ∧
      skipped.length = n ∧ r.errors.countP (·.isUnexpected) ≤ n ∧
      (r.errors.countP (!·.isExhausted) < 50 →
        r.errors.countP (·.isUnexpected) = n ∧
        ∃ before found after, r.errors =
          before ++ .unexpectedToken found :: .budgetExhausted found :: after)) := by
  intro r n skipped
  have evolves := ((ParserState.ofOptions o).reset tokens).readUntil_evolves none
  have sound := evolves.sound (ParserState.sound_start o (terminated tokens))
  have limit : max 1 (((ParserState.ofOptions o).reset tokens).readUntil none).2.account.limit =
      n := congrArg (max 1 ·.retryBudget) evolves.options
  have spent : skipped.length =
      (((ParserState.ofOptions o).reset tokens).readUntil none).2.account.skipped :=
    congrArg List.length (ParserState.skipped_readProgram _)
  have errors : r.errors =
    (((ParserState.ofOptions o).reset tokens).readUntil none).2.account.errors := rfl
  have aborted : r.aborted =
    (((ParserState.ofOptions o).reset tokens).readUntil none).2.account.aborted := rfl
  generalize (((ParserState.ofOptions o).reset tokens).readUntil none).2.account = a
    at sound limit spent errors aborted
  rw [errors, aborted, spent]
  refine ⟨fun going => ?_, fun gaveUp => ?_⟩
  · rcases sound with h | ⟨_, _, _, h⟩
    · have none : a.errors.countP (·.isExhausted) = 0 := by
        simpa [List.countP_eq_zero] using h.reports.plain
      exact ⟨h.reports.room, none, limit ▸ h.unexpected_lt⟩
    · cases going.symm.trans h.aborted
  · rcases sound with h | ⟨before, last, after, h⟩
    · cases gaveUp.symm.trans h.aborted
    · have spent : a.skipped = n := h.spent.trans limit
      have length := h.length
      have reported : 0 < before.length := List.length_pos_iff.mpr h.reported
      have room : before.length + after.length ≤ 50 := by
        rcases h.room with none | room
        · simpa [none, maxErrors] using h.reports.room
        · exact Nat.le_of_lt room
      refine ⟨by omega, by omega, h.exhausted, spent, ?_, fun few => ?_⟩
      · rw [h.unexpected, ← spent]
        exact h.reports.counted
      · rw [h.others] at few
        have room : before.length < maxErrors := Nat.lt_of_le_of_lt (Nat.le_add_right ..) few
        obtain ⟨first, direct⟩ := h.direct room
        refine ⟨?_, first, last, after, ?_⟩
        · rw [h.unexpected, h.reports.exact room, spent]
        · simp [h.errors, direct]

end MapScript
