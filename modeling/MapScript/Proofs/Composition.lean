import MapScript.Proofs.Emission
import MapScript.Proofs.Failing
import MapScript.Proofs.Joining

/-!
# Compiling sources one after the other

A source without errors can stand before any other source: the output for both is the output
for the one and for the other, behind one prologue. For this the first source must also leave no
text and no comment open. It is not enough that no such anomaly is reported, since only so many
anomalies are.
-/
namespace MapScript

namespace CompileOptions
variable (o : CompileOptions)

/-- What the parser finds in a source. -/
abbrev parsed (source : String) : ParseResult := o.parseOptions.parsed o.keepComments source

/-- What is written for a source after the prologue, and what that relies on. -/
def written (source : String) : Piece :=
  Emit.nodes o.emitOptions .root none true (o.parsed source).tree.body

theorem parsed_statements (source : String) :
    Statements o.parseOptions (o.parsed source).tree.body :=
  statements_parse o.parseOptions (tokenize o.keepComments source).tokens

/-- Every source has an output. -/
theorem code_compile (hw : o.wrap = false) (source : String) :
    (compile o source).map (·.script.code) =
      .ok (Emit.prologue (o.written source).uses ++ (o.written source).text) := by
  have known : Emit.unknown? (o.written source).uses = none := by
    have listed : (o.parsed source).tree.body.flatMap Node.unlisted = [] := unlisted_parse _ _
    rw [written, Emit.unknown?_nodes, listed]
    rfl
  have wrap : o.emitOptions.wrap = false := hw
  have script : generate o.emitOptions (o.parsed source).tree =
      .ok ⟨Emit.prologue (o.written source).uses ++ (o.written source).text,
        (Emit.usedHelpers (o.written source).uses).map (·.name),
        (Emit.usedInstructions (o.written source).uses).map (·.name)⟩ := by
    unfold written at known ⊢
    unfold generate
    dsimp only
    rw [known, wrap]
    rfl
  rw [compile_of_generate script]
  rfl

theorem toList_lines (first second : String) :
    (first ++ "\n" ++ second).toList = first.toList ++ '\n' :: second.toList := by
  simp [String.toList_append]

/-- The parser reads two sources as it reads each of them. -/
theorem parsed_append {first : String} (closed : ClosedSource first.toList)
    (clean : (o.parsed first).errors = []) (second : String) :
    o.parsed (first ++ "\n" ++ second) = ParseResult.joined (byteLength first.toList + 1)
      (first.toList.count '\n' + 1) (o.parsed first) (o.parsed second) := by
  unfold parsed ParseOptions.parsed at clean ⊢
  rw [tokens_tokenize] at clean
  rw [tokens_tokenize, tokens_tokenize, tokens_tokenize, toList_lines, tokens_append closed]
  exact parse_append _ (fun t => kind_ne_of_mem_sourceTokens) rfl rfl _ _ clean

theorem written_eq_statements (source : String) :
    o.written source = Emit.statements o.emitOptions .root (o.parsed source).tree.body :=
  Emit.nodes_eq_statements _ rfl (o.parsed_statements source).1 rfl true

theorem written_append {first : String} (closed : ClosedSource first.toList)
    (clean : (o.parsed first).errors = []) (second : String) :
    o.written (first ++ "\n" ++ second) = o.written first ++ o.written second := by
  rw [written_eq_statements, written_eq_statements, written_eq_statements,
    o.parsed_append closed clean]
  exact Emit.statements_append ..

end CompileOptions

/-- A source without errors that leaves no text and no comment open can stand before any other
source. The two are read and written as each of them alone is: all that is wrong with the second is
found further on, and one prologue defines what both rely on. -/
theorem compile_append (o : CompileOptions) (first second : String)
    (closed : ∀ a ∈ (tokenize o.keepComments first).anomalies,
      a.kind ≠ .unterminatedString ∧ a.kind ≠ .unterminatedComment)
    (clean : (o.parsed first).errors = []) :
    let both := first ++ "\n" ++ second
    (o.parsed both).tree.body = (o.parsed first).tree.body ++ (o.parsed second).tree.body ∧
      (o.parsed both).tree.isAsync =
        ((o.parsed first).tree.isAsync || (o.parsed second).tree.isAsync) ∧
      (o.parsed both).aborted = (o.parsed second).aborted ∧
      (o.parsed both).errors = (o.parsed second).errors.map
        (ParseError.map
          (Token.moved (byteLength first.toList + 1) (first.toList.count '\n' + 1))
          (Span.moved (byteLength first.toList + 1))) ∧
      (o.wrap = false →
        (∀ source, (compile o source).map (·.script.code) =
          .ok (Emit.prologue (o.written source).uses ++ (o.written source).text)) ∧
        (compile o both).map (·.script.code) =
          .ok (Emit.prologue ((o.written first).uses ++ (o.written second).uses) ++
            (o.written first).text ++ (o.written second).text)) := by
  intro both
  have closed := closedSource_of_anomalies closed
  have joined := o.parsed_append closed clean second
  have written := o.written_append closed clean second
  refine ⟨by rw [joined]; rfl, by rw [joined]; rfl, by rw [joined]; rfl, by rw [joined]; rfl, ?_⟩
  intro hw
  refine ⟨o.code_compile hw, ?_⟩
  rw [o.code_compile hw, written, Piece.uses_append, Piece.text_append, String.append_assoc]

/-- A program that waits and uses a register, before one with an error in it. -/
theorem compile_append_tick :
    let o : CompileOptions := ⟨false, true, false, false, 5⟩
    let first := "mov ax, 1\nawait tick(ax)"
    let second := "set x\ncall print(ax)"
    let both := first ++ "\n" ++ second
    (∀ a ∈ (tokenize false first).anomalies,
        a.kind ≠ .unterminatedString ∧ a.kind ≠ .unterminatedComment) ∧
      (o.parsed first).errors = [] ∧
      (o.parsed both).tree.body.length = 4 ∧
      (o.parsed both).tree.isAsync = true ∧
      (o.parsed both).aborted = false ∧
      (o.parsed both).errors =
        [.expected .equals ⟨.endOfLine, none, some 3, ⟨30, 31⟩⟩] ∧
      (compile o both).map (·.script.code) =
        .ok (Emit.prologue [.instruction "mov", .register, .helper "print"] ++
          "__mov(\"ax\", 1);\nawait tick(__regs.ax);\nx;\n__print(__regs.ax);\n") := by
  intro o first second both
  have closed : ∀ a ∈ (tokenize o.keepComments first).anomalies,
      a.kind ≠ .unterminatedString ∧ a.kind ≠ .unterminatedComment := by decide +kernel
  have clean : (o.parsed first).errors = [] := by decide +kernel
  obtain ⟨body, isAsync, aborted, errors, code⟩ := compile_append o first second closed clean
  refine ⟨closed, clean, ?_, ?_, ?_, ?_, ?_⟩
  · rw [body]
    decide +kernel
  · rw [isAsync]
    decide +kernel
  · rw [aborted]
    decide +kernel
  · rw [errors]
    decide +kernel
  · rw [(code rfl).2]
    decide +kernel

/-- It is not enough that no open text or comment is reported: here the text is open, but what is
reported are the characters before it. -/
theorem reported_not_sufficient :
    ¬ ∀ (o : CompileOptions) (first second : String),
      (∀ a ∈ (tokenize o.keepComments first).reported,
        a.kind ≠ .unterminatedString ∧ a.kind ≠ .unterminatedComment) →
      (o.parsed first).errors = [] →
      (o.parsed (first ++ "\n" ++ second)).tree.body =
        (o.parsed first).tree.body ++ (o.parsed second).tree.body := by
  intro h
  let strays : String := String.ofList (List.replicate maxAnomalies '\\')
  have body := h default (strays ++ "\"x") "y" (by decide +kernel) (by decide +kernel)
  have lengths := congrArg List.length body
  revert lengths
  decide +kernel

end MapScript
