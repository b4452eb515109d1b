import MapScript.Proofs.Spelling.Basic

/-!
# Runs without errors

What a parser consumes is known when its run has found no error: a token that had to be there was
there, nothing was skipped, and the parser has not given up. `Accounts` says what the tokens are
that a run without errors consumes, together with what it yields. Each way to put parsers together
has its rule, as in a program logic.
-/
namespace MapScript

/-- At the token `x` the parser accounts for what it consumes: for what it yields, the tokens that
it has consumed and the token where it stops, `Q` holds, unless there is an error. -/
def Accounts {α : Type} (o : ParseOptions) (x : Token) (p : Parser α)
    (Q : α → List Token → Token → Prop) : Prop :=
  ∀ s : ParserState, s.options = o → s.aborted = false → s.current = x → (p s).2.errors = [] →
    ∃ ts, s.rest = ts ++ (p s).2.rest ∧ Q (p s).1 ts (p s).2.current

namespace Parser
variable {α β : Type} {o : ParseOptions} {x : Token} {p : Parser α} {k : α → Parser β}
  {P : α → List Token → Token → Prop} {Q : β → List Token → Token → Prop}

theorem accounts_pure {b : β} (h : Q b [] x) : Accounts o x (pure b) Q :=
  fun _ _ _ hx _ => ⟨[], rfl, hx ▸ h⟩

theorem Accounts.mono {p : Parser β} {Q' : β → List Token → Token → Prop}
    (h : Accounts o x p Q') (imp : ∀ b ts y, Q' b ts y → Q b ts y) : Accounts o x p Q := by
  intro s ho ha hx clean
  obtain ⟨ts, hs, hq⟩ := h s ho ha hx clean
  exact ⟨ts, hs, imp _ _ _ hq⟩

/-- The tokens of the second parser come after those of the first. -/
theorem accounts_bind_of [hp : Evolving p]
    (kept : ∀ a s, (k a s).2.errors = [] → s.errors = []) (h : Accounts o x p P)
    (h' : ∀ a ts y, P a ts y → Accounts o y (k a) fun b us z => Q b (ts ++ us) z) :
    Accounts o x (p >>= k) Q := by
  intro s ho ha hx clean
  have mid : (p s).2.errors = [] := kept _ _ clean
  have evolves := hp.evolves s
  obtain ⟨ts, hs, first⟩ := h s ho ha hx mid
  obtain ⟨us, hu, second⟩ := h' _ ts _ first (p s).2 (evolves.options.trans ho)
    ((evolves.clean mid).1.trans ha) rfl clean
  refine ⟨ts ++ us, ?_, second⟩
  rw [hs, hu, List.append_assoc]
  rfl

theorem accounts_bind [Evolving p] [∀ a, Evolving (k a)] (h : Accounts o x p P)
    (h' : ∀ a ts y, P a ts y → Accounts o y (k a) fun b us z => Q b (ts ++ us) z) :
    Accounts o x (p >>= k) Q :=
  accounts_bind_of errors_kept h h'

/-- The same, for a block that goes on with a case split. -/
theorem accounts_match [Evolving p] (h : Accounts o x p P)
    (h' : ∀ a, Evolving (k a) ∧ ∀ ts y, P a ts y →
      Accounts o y (k a) fun b us z => Q b (ts ++ us) z) : Accounts o x (p >>= k) Q :=
  have (a : α) : Evolving (k a) := (h' a).1
  accounts_bind h fun a => (h' a).2

theorem accounts_get {k : ParserState → Parser β}
    (h : ∀ s, s.options = o → s.aborted = false → s.current = x → Accounts o x (k s) Q) :
    Accounts o x (get >>= k) Q :=
  fun s ho ha hx clean => h s ho ha hx s ho ha hx clean

theorem accounts_current {k : Token → Parser β} (h : Accounts o x (k x) Q) :
    Accounts o x (current >>= k) Q := by
  intro s ho ha hx clean
  subst hx
  exact h s ho ha rfl clean

theorem accounts_isAborted {p q : Parser β} (h : Accounts o x q Q) :
    Accounts o x (isAborted >>= fun aborted => if aborted then p else q) Q := by
  intro s ho ha hx clean
  have run : (isAborted >>= fun aborted => if aborted then p else q) s = q s := by
    change (if s.aborted = true then p else q) s = q s
    rw [if_neg (by simp [ha])]
  rw [run] at clean ⊢
  exact h s ho ha hx clean

theorem accounts_map {f : α → β} (h : Accounts o x p P)
    (imp : ∀ a ts y, P a ts y → Q (f a) ts y) : Accounts o x (p >>= fun a => pure (f a)) Q := by
  intro s ho ha hx clean
  obtain ⟨ts, hs, hp⟩ := h s ho ha hx clean
  exact ⟨ts, hs, imp _ _ _ hp⟩

theorem errors_record_ne_nil (error : ParseError) (s : ParserState) :
    (s.record error).errors ≠ [] := by
  intro none
  have before := List.prefix_nil.mp (none ▸ s.errors_record_prefix error)
  exact ParserState.errors_record_ne_nil before error none

theorem errors_reject_ne_nil (s : ParserState) : s.reject.errors ≠ [] := by
  intro none
  have before := List.prefix_nil.mp (none ▸ s.errors_reject_prefix)
  exact ParserState.errors_reject_ne_nil before none

/-- What was not found would have been skipped, with an error. -/
theorem accounts_orReject {p : Parser (Option α)} {P : Option α → List Token → Token → Prop}
    [Evolving p] {k : Option α → Parser β} {b : β} (hr : k none = do reject; return b)
    (hk : ∀ a, Evolving (k (some a))) (h : Accounts o x p P)
    (h' : ∀ a ts y, P (some a) ts y →
      Accounts o y (k (some a)) fun b us z => Q b (ts ++ us) z) : Accounts o x (p >>= k) Q := by
  refine accounts_bind_of (errors_kept_orReject hr hk) h fun found ts y hf => ?_
  cases found with
  | some a => exact h' a ts y hf
  | none =>
      intro s _ _ _ clean
      rw [hr] at clean
      exact absurd clean (errors_reject_ne_nil s)

theorem accounts_expected {k : Unit → Parser β} [hk : ∀ u, Evolving (k u)] (wanted : Expectation) :
    Accounts o x (expected wanted >>= k) Q := by
  intro s _ _ _ clean
  exact absurd (((hk ()).evolves _).errors_eq_nil clean) (errors_record_ne_nil _ s)

theorem accounts_advance {k : Unit → Parser β} [hk : ∀ u, Evolving (k u)]
    (hx : x.kind ≠ .endOfFile)
    (h : ∀ y, Accounts o y (k ()) fun b us z => Q b (x :: us) z) :
    Accounts o x (advance >>= k) Q := by
  have one : Accounts o x advance fun _ ts _ => ts = [x] := by
    intro s _ _ hs _
    subst hs
    exact ⟨[s.current], s.rest_advance hx, rfl⟩
  refine accounts_bind one ?_
  rintro _ _ y rfl
  exact h y

theorem accounts_eat {f : Token → Bool} {k : Bool → Parser β} [hk : ∀ b, Evolving (k b)]
    (hf : ∀ t, f t = true → t.kind ≠ .endOfFile)
    (yes : f x = true → ∀ y, Accounts o y (k true) fun b us z => Q b (x :: us) z)
    (no : f x = false → Accounts o x (k false) Q) : Accounts o x (eat f >>= k) Q := by
  cases hx : f x with
  | false =>
      intro s ho ha hs clean
      rw [run_bind, run_eat_not (hs ▸ hx)] at clean ⊢
      exact no hx s ho ha hs clean
  | true =>
      intro s ho ha hs clean
      have run : (eat f >>= k) s = (advance >>= fun _ => k true) s := by
        subst hs
        change ((if f s.current = true then _ else _ : Parser Bool) >>= k) s = _
        rw [if_pos hx]
        rfl
      rw [run] at clean ⊢
      exact accounts_advance (hf x hx) (yes hx) s ho ha hs clean

section
variable {p q : Parser β} [Evolving p] [Evolving q]

theorem accounts_ifEat {f : Token → Bool} (hf : ∀ t, f t = true → t.kind ≠ .endOfFile)
    (yes : f x = true → ∀ y, Accounts o y p fun b us z => Q b (x :: us) z)
    (no : f x = false → Accounts o x q Q) :
    Accounts o x (eat f >>= fun eaten => if eaten then p else q) Q := by
  refine accounts_eat hf (fun hx y => ?_) fun hx => ?_
  · rw [if_pos rfl]
    exact yes hx y
  · rw [if_neg (by decide)]
    exact no hx

theorem accounts_ifKind {kind : TokenKind} (hk : kind ≠ .endOfFile)
    (yes : x.kind = kind → ∀ y, Accounts o y p fun b us z => Q b (x :: us) z)
    (no : x.kind ≠ kind → Accounts o x q Q) :
    Accounts o x (eatKind kind >>= fun eaten => if eaten then p else q) Q := by
  refine accounts_ifEat (fun t ht => ?_) (fun hx => yes (beq_iff_eq.mp hx)) fun hx => no ?_
  · rwa [beq_iff_eq.mp ht]
  · simpa using hx

theorem accounts_ifKeyword {word : String}
    (yes : x.isKeyword word → ∀ y, Accounts o y p fun b us z => Q b (x :: us) z)
    (no : Accounts o x q Q) :
    Accounts o x (eatKeyword word >>= fun eaten => if eaten then p else q) Q :=
  accounts_ifEat (fun _ => kind_ne_of_isA (by decide)) yes fun _ => no

theorem accounts_ifOperator {symbol : String}
    (yes : x.isOperator symbol → ∀ y, Accounts o y p fun b us z => Q b (x :: us) z)
    (no : Accounts o x q Q) :
    Accounts o x (eatOperator symbol >>= fun eaten => if eaten then p else q) Q :=
  accounts_ifEat (fun _ => kind_ne_of_isA (by decide)) yes fun _ => no

end

/-- A token that had to come next did. -/
theorem accounts_eatOr {f : Token → Bool} {wanted : Expectation} {k : Unit → Parser β}
    [∀ u, Evolving (k u)] (hf : ∀ t, f t = true → t.kind ≠ .endOfFile)
    (h : f x = true → ∀ y, Accounts o y (k ()) fun b us z => Q b (x :: us) z) :
    Accounts o x (eatOr wanted f >>= k) Q := by
  have split : eatOr wanted f >>= k =
      eat f >>= fun b => (if !b then expected wanted else pure ()) >>= k := by
    unfold eatOr
    rw [bind_assoc]
  rw [split]
  exact accounts_eat hf h fun _ => accounts_expected wanted

theorem accounts_name {k : String → Parser β} [∀ a, Evolving (k a)]
    (h : x.kind = .identifier → ∀ y, Accounts o y (k x.word) fun b us z => Q b (x :: us) z) :
    Accounts o x (name >>= k) Q := by
  unfold name
  rw [bind_assoc]
  refine accounts_current ?_
  split
  · rename_i hx
    rw [bind_assoc]
    exact accounts_advance (by rw [hx]; decide) (h hx)
  · rw [bind_assoc]
    exact accounts_expected .name

theorem accounts_skipLineEnds {k : Unit → Parser β} [∀ u, Evolving (k u)]
    (h : ∀ es y, (∀ t ∈ es, t.kind = .endOfLine) →
      Accounts o y (k ()) fun b us z => Q b (es ++ us) z) :
    Accounts o x (skipLineEnds >>= k) Q := by
  have skips : Accounts o x skipLineEnds fun _ es _ => ∀ t ∈ es, t.kind = .endOfLine := by
    intro s _ _ _ _
    refine ⟨s.rest.takeWhile (·.kind == .endOfLine), List.takeWhile_append_dropWhile.symm, ?_⟩
    intro t ht
    exact beq_iff_eq.mp (List.all_eq_true.mp List.all_takeWhile t ht)
  exact accounts_bind skips fun _ es y he => h es y he

/-- Nothing is left of a header line. -/
theorem accounts_skipToLineEnd {k : Unit → Parser β} [∀ u, Evolving (k u)]
    (h : Accounts o x (k ()) Q) : Accounts o x (skipToLineEnd >>= k) Q := by
  have stays : Accounts o x skipToLineEnd fun _ ts y => ts = [] ∧ y = x := by
    intro s _ _ hx clean
    unfold skipToLineEnd at clean ⊢
    have run : headerPass () s = (.done (), s) ∨ headerPass () s = (.again (), s.reject) := by
      unfold headerPass
      rw [run_get_bind]
      split
      · exact .inl rfl
      · exact .inr rfl
    rcases run with run | run
    · rw [repeated_of_done run]
      exact ⟨[], rfl, rfl, hx⟩
    · have evolves := evolves_repeated headerPass () s
      rw [run] at evolves
      exact absurd (evolves.errors_eq_nil clean) (errors_reject_ne_nil s)
  refine accounts_bind stays ?_
  rintro _ _ _ ⟨rfl, rfl⟩
  exact h

/-- A change that keeps the cursor and all that a run without errors depends on. -/
theorem accounts_modify {k : Unit → Parser β} {f : ParserState → ParserState}
    (rest : ∀ s, (f s).rest = s.rest) (options : ∀ s, (f s).options = s.options)
    (aborted : ∀ s, (f s).aborted = s.aborted) (h : Accounts o x (k ()) Q) :
    Accounts o x ((modify f : Parser Unit) >>= k) Q := by
  intro s ho ha hx clean
  have current : (f s).current = s.current := by
    unfold ParserState.current ParserState.peek
    rw [rest]
  have run := h (f s) ((options s).trans ho) ((aborted s).trans ha) (current.trans hx) clean
  rwa [rest] at run

theorem accounts_framed {k : α × Bool → Parser β} [Evolving p] [∀ a, Evolving (k a)]
    (h : Accounts o x p P) (h' : ∀ a isAsync ts y, P a ts y →
      Accounts o y (k (a, isAsync)) fun b us z => Q b (ts ++ us) z) :
    Accounts o x (framed p >>= k) Q := by
  have inside : Accounts o x (framed p) fun r ts y => P r.1 ts y := by
    intro s ho ha hx clean
    exact h { s with frames := false :: s.frames } ho ha hx clean
  exact accounts_bind inside fun r ts y hr => h' r.1 r.2 ts y hr

/-- A pass after the tokens `ts`: if it asks for another one it keeps `I`, and if it is done it
reaches `Q`. -/
def Pass.Keeps (I : β → List Token → Prop) (Q : β → List Token → Token → Prop)
    (ts : List Token) : Pass β → List Token → Token → Prop
  | .again b, us, _ => I b (ts ++ us)
  | .done b, us, z => Q b (ts ++ us) z

/-- What holds after the tokens `ts` and is kept by each pass holds at the end. -/
theorem accounts_repeated_after {pass : β → Parser (Pass β)} [hp : ∀ b, Evolving (pass b)]
    (ahead : ∀ b, Ahead Pass.GoesOn (pass b)) {I : β → List Token → Prop}
    (h : ∀ b ts y, I b ts → Accounts o y (pass b) (Pass.Keeps I Q ts)) {b : β} {ts : List Token}
    (start : I b ts) : Accounts o x (repeated pass b) fun c us z => Q c (ts ++ us) z := by
  intro s ho ha hx clean
  subst hx
  fun_induction repeated pass b s generalizing ts with
  | case1 b s c next run =>
      have last := h b ts s.current start s ho ha rfl
      rw [run] at last
      exact last clean
  | case2 b s c next run lt ih =>
      have step := h b ts s.current start s ho ha rfl
      have evolves := (hp b).evolves s
      rw [run] at step evolves
      have mid : next.errors = [] :=
        Evolves.errors_eq_nil (Evolving.evolves (p := repeated _ c) next) clean
      obtain ⟨us, hs, hc⟩ := step mid
      obtain ⟨vs, hn, hq⟩ := ih hc (evolves.options.trans ho)
        ((evolves.clean mid).1.trans ha) clean
      refine ⟨us ++ vs, ?_, ?_⟩
      · rw [hs, hn, List.append_assoc]
      · dsimp only at hq ⊢
        rwa [← List.append_assoc]
  | case3 b s c next run stuck =>
      have lt := ahead b s (by rw [run]; trivial)
      rw [run] at lt
      exact absurd lt stuck

theorem accounts_repeated {pass : β → Parser (Pass β)} [∀ b, Evolving (pass b)]
    (ahead : ∀ b, Ahead Pass.GoesOn (pass b)) {I : β → List Token → Prop}
    (h : ∀ b ts y, I b ts → Accounts o y (pass b) (Pass.Keeps I Q ts)) {b : β}
    (start : I b []) : Accounts o x (repeated pass b) Q :=
  accounts_repeated_after ahead h start

end Parser

end MapScript
