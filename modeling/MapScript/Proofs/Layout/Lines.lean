import MapScript.Diagnostic.Excerpt
import Mathlib.Data.List.Basic

/-!
# Lines and the text within a line

Output is a list of lines, each with the depth at which it stands. A width says how many blanks
one level of depth takes, and only then is there a text.

What is put together to make a line can itself have lines in it, as a block in the middle of an
expression does. Such a text is a flow: it begins in the middle of a line and ends in the middle of
a line, and every line that begins within it has a depth. Flows are put side by side, lines are
enclosed in a flow, and a flow becomes lines when a depth is given to its first line.
-/
namespace MapScript

/-- The text of lines, where one level of depth takes `width` blanks. -/
def renderLines (width : Nat) : List (Nat × String) → String
  | [] => ""
  | (depth, text) :: lines => blanks (depth * width) ++ text ++ "\n" ++ renderLines width lines

theorem renderLines_append (width : Nat) (lines more : List (Nat × String)) :
    renderLines width (lines ++ more) = renderLines width lines ++ renderLines width more := by
  induction lines with
  | nil => simp [renderLines]
  | cons line lines ih =>
      obtain ⟨depth, text⟩ := line
      simp [renderLines, ih, String.append_assoc]

def OneLine (text : String) : Prop := '\n' ∉ text.toList

instance (text : String) : Decidable (OneLine text) := inferInstanceAs (Decidable (_ ∉ _))

theorem OneLine.append {text more : String} (h : OneLine text) (hm : OneLine more) :
    OneLine (text ++ more) := by
  unfold OneLine
  rw [String.toList_append, List.mem_append]
  exact fun mem => mem.elim h hm

theorem oneLine_ofList {text : List Char} (h : '\n' ∉ text) : OneLine (String.ofList text) := by
  rwa [OneLine, String.toList_ofList]

/-- The text is made of parts, and the line breaks in it stand in parts that are allowed to have
them. -/
def BreaksOnlyIn (Q : String → Prop) (text : String) : Prop :=
  ∃ parts : List String, text = String.join parts ∧ ∀ part ∈ parts, '\n' ∈ part.toList → Q part

section
variable {Q : String → Prop} {text more : String}

theorem OneLine.breaksOnlyIn (h : OneLine text) : BreaksOnlyIn Q text := by
  refine ⟨[text], by simp, ?_⟩
  intro part hp mem
  rw [List.mem_singleton.mp hp] at mem
  exact absurd mem h

theorem breaksOnlyIn_of (h : Q text) : BreaksOnlyIn Q text := by
  refine ⟨[text], by simp, ?_⟩
  intro part hp _
  rwa [List.mem_singleton.mp hp]

theorem BreaksOnlyIn.append (h : BreaksOnlyIn Q text) (hm : BreaksOnlyIn Q more) :
    BreaksOnlyIn Q (text ++ more) := by
  obtain ⟨parts, rfl, own⟩ := h
  obtain ⟨others, rfl, rest⟩ := hm
  exact ⟨parts ++ others, by simp, List.forall_mem_append.mpr ⟨own, rest⟩⟩

end

/-- Text from the middle of a line to the middle of a line. -/
inductive Flow where
  /-- Text on one line. -/
  | ending (text : String)
  /-- Text up to the end of a line, and what follows on a line of its own depth. -/
  | broken (text : String) (depth : Nat) (rest : Flow)

namespace Flow

def text (width : Nat) : Flow → String
  | .ending text => text
  | .broken text depth rest => text ++ "\n" ++ blanks (depth * width) ++ rest.text width

/-- The depths of the lines that begin within the flow. -/
def depths : Flow → List Nat
  | .ending _ => []
  | .broken _ depth rest => depth :: rest.depths

/-- What each line has of the flow. -/
def texts : Flow → List String
  | .ending text => [text]
  | .broken text _ rest => text :: rest.texts

/-- Text in front of a flow. -/
def after (start : String) : Flow → Flow
  | .ending text => .ending (start ++ text)
  | .broken text depth rest => .broken (start ++ text) depth rest

/-- One flow after the other. -/
def append : Flow → Flow → Flow
  | .ending text, more => more.after text
  | .broken text depth rest, more => .broken text depth (rest.append more)

/-- Lines between a text that ends its line and a text on a line of its own. -/
def enclosing (first : String) (lines : List (Nat × String)) (depth : Nat) (last : String) : Flow :=
  match lines with
  | [] => .broken first depth (.ending last)
  | (inner, text) :: lines => .broken first inner (enclosing text lines depth last)

/-- The lines of a flow whose first line has the given depth. -/
def lines (depth : Nat) : Flow → List (Nat × String)
  | .ending text => [(depth, text)]
  | .broken text next rest => (depth, text) :: rest.lines next

/-- The flow that goes on with the given lines. -/
def ofLines (text : String) : List (Nat × String) → Flow
  | [] => .ending text
  | (depth, next) :: lines => .broken text depth (ofLines next lines)

theorem text_after (width : Nat) (start : String) (f : Flow) :
    (f.after start).text width = start ++ f.text width := by
  cases f <;> simp [after, text, String.append_assoc]

theorem depths_after (start : String) (f : Flow) : (f.after start).depths = f.depths := by
  cases f <;> rfl

theorem text_append (width : Nat) (f g : Flow) :
    (f.append g).text width = f.text width ++ g.text width := by
  induction f with
  | ending start => exact text_after width start g
  | broken start depth rest ih => simp [append, text, ih, String.append_assoc]

theorem depths_append (f g : Flow) : (f.append g).depths = f.depths ++ g.depths := by
  induction f with
  | ending start => exact depths_after start g
  | broken start depth rest ih => simp [append, depths, ih]

theorem text_enclosing (width : Nat) (first : String) (lines : List (Nat × String)) (depth : Nat)
    (last : String) : (enclosing first lines depth last).text width =
      first ++ "\n" ++ renderLines width lines ++ blanks (depth * width) ++ last := by
  induction lines generalizing first with
  | nil => simp [enclosing, text, renderLines, String.append_assoc]
  | cons line lines ih =>
      obtain ⟨inner, start⟩ := line
      simp [enclosing, text, renderLines, ih, String.append_assoc]

theorem depths_enclosing (first : String) (lines : List (Nat × String)) (depth : Nat)
    (last : String) : (enclosing first lines depth last).depths = lines.map (·.1) ++ [depth] := by
  induction lines generalizing first with
  | nil => rfl
  | cons line lines ih => simp [enclosing, depths, ih]

theorem texts_enclosing (first : String) (lines : List (Nat × String)) (depth : Nat)
    (last : String) :
    (enclosing first lines depth last).texts = first :: (lines.map (·.2) ++ [last]) := by
  induction lines generalizing first with
  | nil => rfl
  | cons line lines ih => simp [enclosing, texts, ih]

theorem renderLines_lines (width depth : Nat) (f : Flow) :
    renderLines width (f.lines depth) = blanks (depth * width) ++ f.text width ++ "\n" := by
  induction f generalizing depth with
  | ending start => simp [lines, text, renderLines]
  | broken start next rest ih => simp [lines, text, renderLines, ih, String.append_assoc]

theorem depths_lines (depth : Nat) (f : Flow) : (f.lines depth).map (·.1) = depth :: f.depths := by
  induction f generalizing depth with
  | ending text => rfl
  | broken start next rest ih => simp [lines, depths, ih]

theorem texts_lines (depth : Nat) (f : Flow) : (f.lines depth).map (·.2) = f.texts := by
  induction f generalizing depth with
  | ending text => rfl
  | broken start next rest ih => simp [lines, texts, ih]

theorem lines_ofLines (depth : Nat) (text : String) (lines : List (Nat × String)) :
    (ofLines text lines).lines depth = (depth, text) :: lines := by
  induction lines generalizing depth text with
  | nil => rfl
  | cons line rest ih =>
      obtain ⟨inner, next⟩ := line
      rw [ofLines, Flow.lines, ih]

theorem breaksOnlyIn_append {Q : String → Prop} {f g : Flow}
    (hf : ∀ t ∈ f.texts, BreaksOnlyIn Q t) (hg : ∀ t ∈ g.texts, BreaksOnlyIn Q t) :
    ∀ t ∈ (f.append g).texts, BreaksOnlyIn Q t := by
  induction f with
  | ending start =>
      have start := hf start (by simp [texts])
      cases g with
      | ending text =>
          have text := hg text (by simp [texts])
          simpa [append, after, texts] using start.append text
      | broken text depth rest =>
          obtain ⟨text, others⟩ := List.forall_mem_cons.mp hg
          exact List.forall_mem_cons.mpr ⟨start.append text, others⟩
  | broken start depth rest ih =>
      obtain ⟨start, others⟩ := List.forall_mem_cons.mp hf
      exact List.forall_mem_cons.mpr ⟨start, ih others⟩

/-- Only a flow without any text is empty, and then at every width. -/
theorem text_eq_empty_iff (width : Nat) (f : Flow) : f.text width = "" ↔ f = .ending "" := by
  constructor
  · intro empty
    cases f with
    | ending text => rw [show text = "" from empty]
    | broken text depth rest => simp [Flow.text] at empty
  · rintro rfl
    rfl

end Flow

/-- At every width the text is that of one flow, in which lines with the given depths begin. -/
def Flows (Q : String → Prop) (p : Nat → String) (depths : List Nat) : Prop :=
  ∃ f : Flow, (∀ width, p width = f.text width) ∧ f.depths = depths ∧
    ∀ t ∈ f.texts, BreaksOnlyIn Q t

/-- At every width the text is that of the same lines, which have the given depths. -/
def Lays (Q : String → Prop) (p : Nat → String) (depths : List Nat) : Prop :=
  ∃ lines : List (Nat × String), (∀ width, p width = renderLines width lines) ∧
    lines.map (·.1) = depths ∧ ∀ line ∈ lines, BreaksOnlyIn Q line.2

section
variable {Q : String → Prop} {p q : Nat → String} {ds es : List Nat}

theorem flows_text {text : String} (h : BreaksOnlyIn Q text) : Flows Q (fun _ => text) [] :=
  ⟨.ending text, fun _ => rfl, rfl, by simpa [Flow.texts] using h⟩

theorem flows_oneLine {text : String} (h : OneLine text) : Flows Q (fun _ => text) [] :=
  flows_text h.breaksOnlyIn

theorem Flows.congr (h : Flows Q p ds) (same : ∀ width, q width = p width) : Flows Q q ds := by
  obtain ⟨f, text, rest⟩ := h
  exact ⟨f, fun width => (same width).trans (text width), rest⟩

theorem Flows.append (hp : Flows Q p ds) (hq : Flows Q q es) :
    Flows Q (fun width => p width ++ q width) (ds ++ es) := by
  obtain ⟨f, textf, rfl, breaksf⟩ := hp
  obtain ⟨g, textg, rfl, breaksg⟩ := hq
  refine ⟨f.append g, ?_, f.depths_append g, Flow.breaksOnlyIn_append breaksf breaksg⟩
  intro width
  rw [f.text_append, ← textf, ← textg]

theorem Flows.before {text : String} (h : OneLine text) (hp : Flows Q p ds) :
    Flows Q (fun width => text ++ p width) ds :=
  (flows_oneLine h).append hp

theorem Flows.followed {text : String} (hp : Flows Q p ds) (h : OneLine text) :
    Flows Q (fun width => p width ++ text) ds := by
  have both := hp.append (flows_oneLine (Q := Q) h)
  rwa [List.append_nil] at both

/-- Whether the text is empty does not depend on the width. -/
theorem Flows.eq_empty_iff (h : Flows Q p ds) (width other : Nat) :
    p width = "" ↔ p other = "" := by
  obtain ⟨f, text, -⟩ := h
  rw [text, text, f.text_eq_empty_iff, f.text_eq_empty_iff]

/-- Lines in a block, which a text opens and a text on a line of its own closes. -/
theorem Lays.enclosed (h : Lays Q p ds) {first last : String} (hf : OneLine first)
    (hl : OneLine last) (depth : Nat) :
    Flows Q (fun width => first ++ "\n" ++ p width ++ blanks (depth * width) ++ last)
      (ds ++ [depth]) := by
  obtain ⟨lines, text, rfl, breaks⟩ := h
  refine ⟨.enclosing first lines depth last, ?_, Flow.depths_enclosing .., ?_⟩
  · intro width
    rw [Flow.text_enclosing, ← text]
  · rw [Flow.texts_enclosing]
    refine List.forall_mem_cons.mpr ⟨hf.breaksOnlyIn, List.forall_mem_append.mpr ⟨?_, ?_⟩⟩
    · exact List.forall_mem_map.mpr breaks
    · simpa using hl.breaksOnlyIn

theorem Lays.congr (h : Lays Q p ds) (same : ∀ width, q width = p width) : Lays Q q ds := by
  obtain ⟨lines, text, rest⟩ := h
  exact ⟨lines, fun width => (same width).trans (text width), rest⟩

theorem lays_nil : Lays Q (fun _ => "") [] := ⟨[], fun _ => rfl, rfl, by simp⟩

theorem Lays.append (hp : Lays Q p ds) (hq : Lays Q q es) :
    Lays Q (fun width => p width ++ q width) (ds ++ es) := by
  obtain ⟨lines, text, rfl, breaks⟩ := hp
  obtain ⟨others, textq, rfl, breaksq⟩ := hq
  refine ⟨lines ++ others, ?_, List.map_append, List.forall_mem_append.mpr ⟨breaks, breaksq⟩⟩
  intro width
  rw [renderLines_append, ← text, ← textq]

/-- A flow that begins at the start of a line and ends at the end of a line. -/
theorem Flows.line (h : Flows Q p ds) (depth : Nat) :
    Lays Q (fun width => blanks (depth * width) ++ p width ++ "\n") (depth :: ds) := by
  obtain ⟨f, text, rfl, breaks⟩ := h
  refine ⟨f.lines depth, ?_, f.depths_lines depth, ?_⟩
  · intro width
    rw [f.renderLines_lines, ← text]
  · rw [← f.texts_lines depth] at breaks
    exact List.forall_mem_map.mp breaks

theorem Flows.of_line {depth : Nat}
    (h : Lays Q (fun width => blanks (depth * width) ++ p width ++ "\n") (depth :: ds)) :
    Flows Q p ds := by
  obtain ⟨lines, text, depths, breaks⟩ := h
  cases lines with
  | nil => cases depths
  | cons line lines =>
      obtain ⟨own, start⟩ := line
      obtain ⟨rfl, rest⟩ := List.cons.inj depths
      have whole := Flow.lines_ofLines own start lines
      refine ⟨.ofLines start lines, ?_, ?_, ?_⟩
      · intro width
        have same := text width
        rw [← whole, Flow.renderLines_lines] at same
        simpa using same
      · have depths := Flow.depths_lines own (.ofLines start lines)
        rw [whole] at depths
        exact (List.cons.inj depths).2.symm.trans rest
      · rw [← Flow.texts_lines own, whole]
        exact List.forall_mem_map.mpr breaks

/-- A flow on lines of its own, with the text that ends them. -/
theorem Flows.ends (h : Flows Q p ds) (depth : Nat) {last : String} (hl : OneLine last)
    {whole : String} (split : whole = last ++ "\n") :
    Lays Q (fun width => blanks (depth * width) ++ p width ++ whole) (depth :: ds) := by
  refine ((h.followed hl).line depth).congr ?_
  intro width
  simp [split, String.append_assoc]

theorem lays_line {text : String} (h : OneLine text) {whole : String} (split : whole = text ++ "\n")
    (depth : Nat) : Lays Q (fun width => blanks (depth * width) ++ whole) [depth] := by
  refine ((flows_oneLine h).line depth).congr ?_
  intro width
  simp [split, String.append_assoc]

end

end MapScript
