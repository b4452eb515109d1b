import MapScript.Compile
import MapScript.Proofs.Emission
import MapScript.Proofs.LongestMatch
import MapScript.Proofs.Printing

/-!
# Parts of an expression that run together

The parts of an expression are written with a blank between neighbours. The blank is left out
behind a sign and before an operator that trails an operand. Names and numbers end by themselves
there, and so do most signs. But a sign that stands right before an operator may begin a longer
symbol with it, and then the text is no longer read as the parts that were written: two minus signs
in a row are one decrement.
-/
namespace MapScript

open Lexeme (Form Stops isWordStart isWordChar isBlankChar doubleSymbols singleSymbols)

/-- The operators that are written as they stand. -/
def plainSymbols : List String :=
  ["+", "-", "*", "/", "%", "++", "--", "!", "~", "<", ">", "<=", ">=", "&", "|", "^", "<<", ">>",
   "**", "?", ":", "&&", "||"]

/-- A name that asks for no length. -/
def isPlainName (name : String) : Bool :=
  name.toList.head?.any isWordStart && name.toList.all (fun c => isWordChar c && c != '#') &&
    !isKeyword name

/-- Digits, or digits on both sides of a point. -/
def isNumeral (text : String) : Bool :=
  match text.toList.takeWhile Char.isDigit, text.toList.dropWhile Char.isDigit with
  | [], _ => false
  | _ :: _, [] => true
  | _ :: _, '.' :: d :: fraction => (d :: fraction).all Char.isDigit
  | _ :: _, _ => false

namespace Node

/-- A name, a number or an operator that is written as it stands. -/
def isPlain : Node → Bool
  | identifier name => isPlainName name
  | literal .number value => isNumeral value
  | operator symbol => plainSymbols.contains symbol
  | _ => false

/-- The text of a plain part. -/
def plainText : Node → String
  | identifier name => name
  | literal _ value => value
  | operator symbol => symbol
  | _ => ""

end Node

/-- The signs that make another symbol with an operator right behind them. -/
def mergingPairs : List (String × String) :=
  [("+", "+"), ("+", "++"), ("-", "-"), ("-", "--"), ("-", ">"), ("-", ">="), ("-", ">>")]

/-- Among the parts, of which the first stands after `before`, a sign makes another symbol with the
operator behind it. -/
inductive Merging : Option Node → List Node → Prop
  | here {before : Option Node} {sign next : String} {after : List Node} :
      Node.inSignPosition before = true → (sign, next) ∈ mergingPairs →
      Merging before (.operator sign :: .operator next :: after)
  | later {before : Option Node} {n : Node} {after : List Node} :
      Merging (some n) after → Merging before (n :: after)

/-- Plain parts as they are written behind `before`. -/
def written (before : Option Node) (tight : Bool) : List Node → List Char
  | [] => []
  | n :: ns =>
    (if tight || n.isTrailing before then [] else [' ']) ++
      (n.plainText.toList ++ written (some n) (n.isSign before) ns)

theorem operatorText_of_plain {symbol : String} (h : symbol ∈ plainSymbols)
    (before after : Option Node) : Node.operatorText symbol before after = symbol := by
  have table : (plainSymbols.all fun symbol => !sameWord symbol "is" && !sameWord symbol "not" &&
      outputSymbol symbol == symbol) = true := by decide
  have known := List.all_eq_true.mp table symbol h
  simp only [Bool.and_eq_true, Bool.not_eq_true', beq_iff_eq] at known
  obtain ⟨⟨notIs, notNot⟩, same⟩ := known
  simp [Node.operatorText, notIs, notNot, same]

theorem isMemberOperator_of_plain {n : Node} (h : n.isPlain = true) :
    n.isMemberOperator = false := by
  cases n with
  | operator symbol =>
      have table : (plainSymbols.all fun symbol => !sameWord symbol "." &&
        !sameWord symbol "->") = true := by decide
      have known := List.all_eq_true.mp table symbol (List.contains_iff_mem.mp h)
      simp only [Bool.and_eq_true, Bool.not_eq_true'] at known
      simp [Node.isMemberOperator, Node.isOperator, Node.symbol?, known]
  | _ => rfl

theorem isMemberAccess_of_plain {n : Node} (h : n.isPlain = true) : n.isMemberAccess = false := by
  have member := isMemberOperator_of_plain h
  cases n with
  | property | index => cases h
  | _ => simp [Node.isMemberAccess, member]

theorem counted?_of_plain {name : String} (h : isPlainName name = true) :
    Emit.counted? name = none := by
  unfold isPlainName at h
  simp only [Bool.and_eq_true, List.all_eq_true] at h
  have free := h.1.2
  unfold Emit.counted?
  split
  · rename_i c cs chars
    have hash := free '#' (by simp [chars])
    simp at hash
  · rfl

/-- A plain part is written as it stands. -/
theorem node_of_plain {o : EmitOptions} (asm : o.asm = false) {n : Node} (h : n.isPlain = true)
    (c : EmitContext) (before after : Option Node) :
    Emit.node o c before after n = (n.plainText : Piece) := by
  cases n with
  | identifier name =>
      have counted := counted?_of_plain h
      simp [Emit.node, Emit.name, counted, asm, Node.plainText]
  | literal kind value =>
      cases kind with
      | number => simp [Emit.node, Node.plainText]
      | _ => cases h
  | operator symbol =>
      rw [Emit.node, operatorText_of_plain (List.contains_iff_mem.mp h)]
      rfl
  | _ => cases h

theorem Node.eq_operator {n : Node} {symbol : String} (h : n.symbol? = some symbol) :
    n = .operator symbol := by
  cases n with
  | operator other => exact congrArg Node.operator (Option.some.inj h)
  | _ => cases h

theorem plainText_ne_empty {n : Node} (h : n.isPlain = true) : n.plainText ≠ "" := by
  intro empty
  cases n with
  | identifier name =>
      obtain rfl : name = "" := empty
      cases h
  | literal kind value =>
      obtain rfl : value = "" := empty
      cases kind with
      | number => cases h
      | _ => cases h
  | operator symbol =>
      obtain rfl : symbol = "" := empty
      cases h
  | _ => cases h

theorem exists_plainText_eq_cons {n : Node} (h : n.isPlain = true) :
    ∃ c cs, n.plainText.toList = c :: cs :=
  List.exists_cons_of_ne_nil (mt String.toList_eq_nil_iff.mp (plainText_ne_empty h))

/-- The text of plain parts in an expression. -/
theorem toList_text_nodes {o : EmitOptions} (asm : o.asm = false) {c : EmitContext}
    (spaced : c.allowSpaces = true) {parts : List Node} (plain : ∀ n ∈ parts, n.isPlain = true)
    (before : Option Node) (tight : Bool) :
    (Emit.nodes o c.inline before tight parts).text.toList = written before tight parts := by
  induction parts generalizing before tight with
  | nil =>
      rw [Emit.nodes]
      rfl
  | cons n parts ih =>
      obtain ⟨first, others⟩ := List.forall_mem_cons.mp plain
      have some : (n.plainText : Piece).isEmpty = false := by
        simpa [Piece.isEmpty, Piece.ofText] using plainText_ne_empty first
      have gap : (Emit.gap n before tight c.inline).toList =
          if tight || n.isTrailing before then [] else [' '] := by
        simp only [Emit.gap, EmitContext.inline, EmitContext.separatorText, spaced,
          isMemberAccess_of_plain first, Bool.false_or, Bool.or_false, if_true]
        split <;> rfl
      have next : Emit.isTight n before c.inline = n.isSign before := by
        simp [Emit.isTight, EmitContext.inline, isMemberOperator_of_plain first]
      rw [Emit.nodes, node_of_plain asm first, some, if_neg Bool.false_ne_true, next,
        Piece.text_append, Piece.text_append, String.toList_append, String.toList_append,
        ih others, written, ← gap, List.append_assoc]
      rfl

theorem form_name {name : String} (h : isPlainName name = true) {after : List Char}
    (stop : Stops isWordChar after) : Form .word name.toList after ∧
      Lexeme.content? false ⟨.word, name.toList⟩ = some (.identifier, some name) := by
  unfold isPlainName at h
  simp only [Bool.and_eq_true, List.all_eq_true, Bool.not_eq_true', bne_iff_ne] at h
  obtain ⟨⟨start, chars⟩, notKeyword⟩ := h
  cases split : name.toList with
  | nil => simp [split] at start
  | cons c cs =>
      rw [split] at start chars
      have same : String.ofList (c :: cs) = name := by rw [← split, String.ofList_toList]
      have notHash : name ≠ "#" := by
        rintro rfl
        exact (chars '#' (by simp [← split])).2 rfl
      constructor
      · apply Form.word start _ stop
        intro d hd
        exact (chars d (List.mem_cons_of_mem c hd)).1
      · simp [Lexeme.content?, same, notHash, notKeyword]

/-- The test takes the numerals of the language. -/
theorem isNumeral_iff {text : String} : isNumeral text = true ↔ IsNumeral text.toList := by
  have digits : IsRun Char.isDigit (text.toList.takeWhile Char.isDigit) :=
    fun c hc => Lexeme.of_mem_takeWhile hc
  have whole := List.takeWhile_append_dropWhile (p := Char.isDigit) (l := text.toList)
  constructor
  · intro h
    unfold isNumeral at h
    split at h
    · cases h
    · rename_i c cs front rest
      rw [front, rest, List.append_nil] at whole
      rw [← whole]
      exact .inl ⟨List.cons_ne_nil c cs, front ▸ digits⟩
    · rename_i c cs d fraction front rest
      rw [front, rest] at whole
      rw [← whole]
      exact .inr ⟨_, _, rfl, List.cons_ne_nil c cs, List.cons_ne_nil d fraction, front ▸ digits,
        List.all_eq_true.mp h⟩
    · cases h
  · rintro (⟨nonempty, run⟩ | ⟨front, fraction, split, nonempty, some, run, run'⟩)
    · obtain ⟨c, cs, same⟩ := List.exists_cons_of_ne_nil nonempty
      have front := Lexeme.takeWhile_of_stops run Lexeme.stops_nil
      have rest := Lexeme.dropWhile_of_stops run Lexeme.stops_nil
      rw [List.append_nil] at front rest
      rw [isNumeral, front, rest, same]
    · obtain ⟨c, cs, rfl⟩ := List.exists_cons_of_ne_nil nonempty
      obtain ⟨d, ds, rfl⟩ := List.exists_cons_of_ne_nil some
      have point : Stops Char.isDigit ('.' :: d :: ds) := Lexeme.stops_cons (by decide)
      rw [isNumeral, split, Lexeme.takeWhile_of_stops run point,
        Lexeme.dropWhile_of_stops run point]
      exact List.all_eq_true.mpr run'

theorem form_numeral {text : String} (h : isNumeral text = true) {after : List Char}
    (stop : Stops Char.isDigit after)
    (point : ∀ d more, after = '.' :: d :: more → d.isDigit = false) :
    Form .number text.toList after := by
  rcases isNumeral_iff.mp h with
    ⟨some, digits⟩ | ⟨whole, fraction, split, some, some', digits, rest⟩
  · exact .whole some digits stop point
  · rw [split]
    exact .decimal some some' digits rest stop

/-- What may stand behind a name or a number. -/
def afterOperand : List Char := [' ', '+', '-']

/-- A name or a number ends where a blank or a trailing operator stands. -/
theorem form_operand {n : Node} (h : n.isPlain = true) (operand : n.symbol? = none)
    {after : List Char} (ends : ∀ d ∈ after.head?, d ∈ afterOperand) :
    ∃ kind token, Form kind n.plainText.toList after ∧
      Lexeme.content? false ⟨kind, n.plainText.toList⟩ = some (token, some n.plainText) := by
  have stops {p : Char → Bool} (none : (afterOperand.all fun d => !p d) = true) :
      Stops p after := by
    intro d hd
    simpa using List.all_eq_true.mp none d (ends d hd)
  cases n with
  | identifier name => exact ⟨.word, .identifier, form_name h (stops (by decide))⟩
  | literal kind value =>
      cases kind with
      | number =>
          have point (d : Char) (more : List Char) (begins : after = '.' :: d :: more) :
              d.isDigit = false := by
            have first : '.' ∈ afterOperand := ends '.' (by simp [begins])
            exact absurd first (by decide)
          refine ⟨.number, .number, form_numeral h (stops (by decide)) point, ?_⟩
          simp [Lexeme.content?, Node.plainText]
      | _ => cases h
  | operator symbol => cases operand
  | _ => cases h

/-- A text of one or two characters that is a symbol of the language. -/
def isSymbol : List Char → Bool
  | [c] => singleSymbols.contains c
  | [c, d] => doubleSymbols.contains (c, d)
  | _ => false

/-- The text begins a longer symbol, or a comment, with the character behind it. -/
def goesOn : List Char → Char → Bool
  | [c], d => doubleSymbols.contains (c, d) || (c == '/' && (d == '/' || d == '*'))
  | _, _ => false

theorem form_operator {symbol : String} (h : symbol ∈ plainSymbols) {after : List Char}
    (ends : ∀ d ∈ after.head?, goesOn symbol.toList d = false) :
    Form .symbol symbol.toList after := by
  have table : (plainSymbols.all fun symbol => isSymbol symbol.toList) = true := by decide
  have known := List.all_eq_true.mp table symbol h
  generalize symbol.toList = text at known ends
  unfold isSymbol at known
  split at known
  · rename_i c
    apply Form.single (List.contains_iff_mem.mp known)
    · intro d hd pair
      simpa [goesOn, pair] using ends d hd
    · intro slash d hd
      have free := ends d hd
      simp only [goesOn, slash, Bool.or_eq_false_iff, Bool.and_eq_false_imp, beq_self_eq_true,
        true_imp_iff, beq_eq_false_iff_ne] at free
      exact free.2
  · exact .double (List.contains_iff_mem.mp known)
  · cases known

/-- A longer symbol does not go on with a letter, a digit or a blank. -/
theorem goesOn_eq_false {text : List Char} {d : Char}
    (other : isWordChar d = true ∨ isBlankChar d = true) : goesOn text d = false := by
  have table : (doubleSymbols.all fun pair =>
      !isWordChar pair.2 && !isBlankChar pair.2) = true := by decide
  unfold goesOn
  split
  · rename_i c
    rw [Bool.or_eq_false_iff]
    constructor
    · rw [← Bool.not_eq_true, List.contains_iff_mem]
      intro pair
      have known := List.all_eq_true.mp table (c, d) pair
      simp only [Bool.and_eq_true, Bool.not_eq_true'] at known
      grind
    · rw [Bool.and_eq_false_imp]
      intro _
      rw [← Bool.not_eq_true, Bool.or_eq_true, beq_iff_eq, beq_iff_eq]
      rintro (rfl | rfl) <;> exact absurd other (by decide)
  · rfl

/-- A part begins with its own text, or with a blank. -/
theorem head?_written_cons {n : Node} (h : n.isPlain = true) (before : Option Node) (tight : Bool)
    (ns : List Node) : (written before tight (n :: ns)).head? =
      if tight || n.isTrailing before then n.plainText.toList.head? else some ' ' := by
  obtain ⟨c, cs, split⟩ := exists_plainText_eq_cons h
  rw [written, split]
  split <;> rfl

/-- An operator that trails is an increment or a decrement. -/
theorem head?_of_isTrailing {m : Node} {before : Option Node} (h : m.isTrailing before = true) :
    ∀ d ∈ m.plainText.toList.head?, d ∈ afterOperand := by
  unfold Node.isTrailing at h
  rw [Bool.and_eq_true, Bool.or_eq_true] at h
  cases m with
  | operator symbol =>
      rcases h.1 with same | same
      · obtain rfl : symbol = "++" := eq_of_sameWord (by decide) same
        intro d hd
        obtain rfl : '+' = d := Option.some.inj hd
        decide
      · obtain rfl : symbol = "--" := eq_of_sameWord (by decide) same
        intro d hd
        obtain rfl : '-' = d := Option.some.inj hd
        decide
  | _ => simp [Node.isOperator, Node.symbol?] at h

/-- Behind a name or a number there is a blank or a trailing operator. -/
theorem head?_written_operand {n : Node} (operand : n.symbol? = none) (before : Option Node)
    {ns : List Node} (plain : ∀ m ∈ ns, m.isPlain = true) :
    ∀ d ∈ (written (some n) (n.isSign before) ns).head?, d ∈ afterOperand := by
  have notSign : n.isSign before = false := by simp [Node.isSign, operand]
  cases ns with
  | nil => simp [written]
  | cons m ns =>
      rw [head?_written_cons (plain m List.mem_cons_self), notSign, Bool.false_or]
      split
      · exact head?_of_isTrailing ‹_›
      · intro d hd
        obtain rfl : ' ' = d := Option.some.inj hd
        decide

theorem isDigit_of_isNumeral {text : String} (h : isNumeral text = true) :
    ∀ d ∈ text.toList.head?, d.isDigit = true := by
  intro d hd
  rcases isNumeral_iff.mp h with ⟨-, digits⟩ | ⟨whole, fraction, split, some, -, digits, -⟩
  · exact digits d (List.mem_of_mem_head? hd)
  · rw [split, List.head?_append_of_ne_nil _ some] at hd
    exact digits d (List.mem_of_mem_head? hd)

theorem isWordChar_of_operand {n : Node} (h : n.isPlain = true) (operand : n.symbol? = none) :
    ∀ d ∈ n.plainText.toList.head?, isWordChar d = true := by
  intro d hd
  cases n with
  | identifier name =>
      change isPlainName name = true at h
      unfold isPlainName at h
      simp only [Bool.and_eq_true, List.all_eq_true] at h
      exact (h.1.2 d (List.mem_of_mem_head? hd)).1
  | literal kind value =>
      cases kind with
      | number =>
          rw [isWordChar, isDigit_of_isNumeral h d hd, Bool.or_true]
      | _ => cases h
  | operator symbol => cases operand
  | _ => cases h

/-- The pairs are the only ones of a sign and an operator that go on as a longer symbol. -/
theorem mem_mergingPairs {sign next : String} (hs : sign ∈ plainSymbols) (hn : next ∈ plainSymbols)
    (isSign : signOperators.any (sameWord · sign) = true) {d : Char}
    (hd : d ∈ next.toList.head?) (longer : goesOn sign.toList d = true) :
    (sign, next) ∈ mergingPairs := by
  have table : (plainSymbols.all fun sign => plainSymbols.all fun next =>
      !signOperators.any (sameWord · sign) || !next.toList.head?.any (goesOn sign.toList) ||
        mergingPairs.contains (sign, next)) = true := by decide
  have known := List.all_eq_true.mp (List.all_eq_true.mp table sign hs) next hn
  have begins : next.toList.head?.any (goesOn sign.toList) = true := by
    rw [Option.mem_def.mp hd]
    exact longer
  simpa [isSign, begins] using known

/-- Behind an operator there is a blank, or it is a sign. -/
theorem goesOn_written {symbol : String} (h : symbol ∈ plainSymbols) (before : Option Node)
    {ns : List Node} (plain : ∀ m ∈ ns, m.isPlain = true)
    (apart : ∀ next after, ns = .operator next :: after → Node.inSignPosition before = true →
      (symbol, next) ∉ mergingPairs) :
    ∀ d ∈ (written (some (.operator symbol)) ((Node.operator symbol).isSign before) ns).head?,
      goesOn symbol.toList d = false := by
  cases ns with
  | nil => simp [written]
  | cons m ns =>
      have first := plain m List.mem_cons_self
      have untrailed : m.isTrailing (some (.operator symbol)) = false := by
        simp [Node.isTrailing, Node.inSignPosition, Node.isAnyOperator, Node.symbol?]
      rw [head?_written_cons first, untrailed, Bool.or_false]
      intro d hd
      split at hd
      · rename_i sign
        obtain ⟨sign, position⟩ := (Bool.and_eq_true _ _).mp sign
        cases operand : m.symbol? with
        | none => exact goesOn_eq_false (.inl (isWordChar_of_operand first operand d hd))
        | some next =>
            obtain rfl := Node.eq_operator operand
            rw [← Bool.not_eq_true]
            intro longer
            exact apart next ns rfl position
              (mem_mergingPairs h (List.contains_iff_mem.mp first) sign hd longer)
      · obtain rfl : ' ' = d := Option.some.inj hd
        exact goesOn_eq_false (.inr (by decide))

/-- No part begins with a blank. -/
theorem stops_plainText {n : Node} (h : n.isPlain = true) (after : List Char) :
    Stops isBlankChar (n.plainText.toList ++ after) := by
  obtain ⟨c, cs, split⟩ := exists_plainText_eq_cons h
  rw [split]
  apply Lexeme.stops_cons
  cases operand : n.symbol? with
  | none =>
      have word := isWordChar_of_operand h operand c (by simp [split])
      rw [← Bool.not_eq_true]
      intro blank
      simp only [isBlankChar, Bool.or_eq_true, beq_iff_eq] at blank
      rcases blank with ((rfl | rfl) | rfl) | rfl <;> exact absurd word (by decide)
  | some symbol =>
      obtain rfl := Node.eq_operator operand
      have table : (plainSymbols.all fun symbol => symbol.toList.all (!isBlankChar ·)) = true := by
        decide
      have known := List.all_eq_true.mp table symbol (List.contains_iff_mem.mp h)
      have chars : symbol.toList = c :: cs := split
      rw [chars, List.all_cons, Bool.and_eq_true, Bool.not_eq_true'] at known
      exact known.1

/-- The texts that the lexemes of a source leave. -/
def readTexts (source : List Char) : List (Option String) :=
  ((Lexeme.scan source).filterMap (Lexeme.content? false)).map Prod.snd

theorem readTexts_of_form {kind : LexemeKind} {text after : List Char} {token : TokenKind}
    {word : Option String} (form : Form kind text after)
    (content : Lexeme.content? false ⟨kind, text⟩ = some (token, word)) :
    readTexts (text ++ after) = word :: readTexts after := by
  unfold readTexts
  rw [Lexeme.scan_of_form form, List.filterMap_cons_some content]
  rfl

/-- A part that does not merge is read as itself. -/
theorem readTexts_part {n : Node} (h : n.isPlain = true) (before : Option Node) {ns : List Node}
    (plain : ∀ m ∈ ns, m.isPlain = true)
    (apart : ∀ sign next after, n = .operator sign → ns = .operator next :: after →
      Node.inSignPosition before = true → (sign, next) ∉ mergingPairs) :
    readTexts (n.plainText.toList ++ written (some n) (n.isSign before) ns) =
      some n.plainText :: readTexts (written (some n) (n.isSign before) ns) := by
  cases operand : n.symbol? with
  | none =>
      obtain ⟨kind, token, form, content⟩ :=
        form_operand h operand (head?_written_operand operand before plain)
      exact readTexts_of_form form content
  | some symbol =>
      obtain rfl := Node.eq_operator operand
      have listed := List.contains_iff_mem.mp h
      have form := form_operator listed
        (goesOn_written listed before plain fun next after => apart symbol next after rfl)
      have content : Lexeme.content? false ⟨.symbol, symbol.toList⟩ =
          some (.operator, some symbol) := by simp [Lexeme.content?]
      exact readTexts_of_form form content

/-- A sign and an operator that merge are read as a symbol that is not the sign. -/
theorem readTexts_merging {sign next : String} (pair : (sign, next) ∈ mergingPairs)
    (after : List Char) : ∃ text others,
      readTexts (sign.toList ++ (next.toList ++ after)) = some text :: others ∧ text ≠ sign := by
  have double {c d : Char} (known : (c, d) ∈ doubleSymbols) (more : List Char) :
      readTexts (c :: d :: more) = some (String.ofList [c, d]) :: readTexts more := by
    have form : Form .symbol [c, d] more := .double known
    exact readTexts_of_form form rfl
  simp only [mergingPairs, List.mem_cons, List.not_mem_nil, or_false, Prod.mk.injEq] at pair
  rcases pair with ⟨rfl, rfl⟩ | ⟨rfl, rfl⟩ | ⟨rfl, rfl⟩ | ⟨rfl, rfl⟩ | ⟨rfl, rfl⟩ | ⟨rfl, rfl⟩ |
    ⟨rfl, rfl⟩
  · exact ⟨"++", _, double (by decide) after, by decide⟩
  · exact ⟨"++", _, double (by decide) ('+' :: after), by decide⟩
  · exact ⟨"--", _, double (by decide) after, by decide⟩
  · exact ⟨"--", _, double (by decide) ('-' :: after), by decide⟩
  · exact ⟨"->", _, double (by decide) after, by decide⟩
  · exact ⟨"->", _, double (by decide) ('=' :: after), by decide⟩
  · exact ⟨"->", _, double (by decide) ('>' :: after), by decide⟩

theorem isSign_of_mergingPairs {sign next : String} (pair : (sign, next) ∈ mergingPairs)
    {before : Option Node} (position : Node.inSignPosition before = true) :
    (Node.operator sign).isSign before = true := by
  have table : (mergingPairs.all fun pair => signOperators.any (sameWord · pair.1)) = true := by
    decide
  have known := List.all_eq_true.mp table (sign, next) pair
  simp only [Node.isSign, Node.symbol?, Option.any_some, known, position, Bool.and_self]

/-- A blank before a part leaves nothing. -/
theorem readTexts_gap {n : Node} (h : n.isPlain = true) (joined : Bool) (after : List Char) :
    readTexts ((if joined then [] else [' ']) ++ (n.plainText.toList ++ after)) =
      readTexts (n.plainText.toList ++ after) := by
  cases joined with
  | true => rfl
  | false =>
      have form : Form .blank [' '] (n.plainText.toList ++ after) :=
        .blank (List.cons_ne_nil _ _) (List.forall_mem_singleton.mpr rfl) (stops_plainText h after)
      unfold readTexts
      rw [if_neg Bool.false_ne_true, Lexeme.scan_of_form form, List.filterMap_cons_none rfl]

/-- Plain parts are read as they were written exactly if no sign merges with the operator behind
it. -/
theorem readTexts_written {parts : List Node} (plain : ∀ n ∈ parts, n.isPlain = true)
    (before : Option Node) (tight : Bool) :
    readTexts (written before tight parts) = parts.map (fun n => some n.plainText) ↔
      ¬ Merging before parts := by
  induction parts generalizing before tight with
  | nil =>
      constructor
      · intro _ merging
        cases merging
      · intro _
        rfl
  | cons n ns ih =>
      obtain ⟨first, others⟩ := List.forall_mem_cons.mp plain
      rw [written, readTexts_gap first, List.map_cons]
      by_cases merge : ∃ sign next after, n = .operator sign ∧ ns = .operator next :: after ∧
          Node.inSignPosition before = true ∧ (sign, next) ∈ mergingPairs
      · obtain ⟨sign, next, after, rfl, rfl, position, pair⟩ := merge
        have signIs : (Node.operator sign).isSign before = true :=
          isSign_of_mergingPairs pair position
        obtain ⟨text, more, read, other⟩ := readTexts_merging pair
          (written (some (.operator next)) ((Node.operator next).isSign (some (.operator sign)))
            after)
        constructor
        · intro same
          rw [signIs, written] at same
          exact absurd (Option.some.inj (List.cons.inj (read.symm.trans same)).1) other
        · intro apart
          exact absurd (.here position pair) apart
      · have apart : ∀ sign next after, n = .operator sign → ns = .operator next :: after →
            Node.inSignPosition before = true → (sign, next) ∉ mergingPairs := by
          intro sign next after same behind position pair
          exact merge ⟨sign, next, after, same, behind, position, pair⟩
        rw [readTexts_part first before others apart, List.cons.injEq]
        simp only [true_and]
        rw [ih others, not_iff_not]
        constructor
        · exact .later
        · intro merging
          cases merging with
          | here position pair => exact absurd pair (apart _ _ _ rfl rfl position)
          | later merging => exact merging

/-- Names, numbers and operators are read as the tokens that were written, in their order, exactly
if no sign merges with the operator behind it. -/
theorem tokens_of_written_parts (o : EmitOptions) (asm : o.asm = false) (c : EmitContext)
    (spaced : c.allowSpaces = true) (parts : List Node) (plain : ∀ n ∈ parts, n.isPlain = true) :
    (tokenize false (Emit.nodes o c.inline none true parts).text).tokens.map (·.text) =
        parts.map (fun n => some n.plainText) ++ [none] ↔
      ¬ Merging none parts := by
  have texts : (tokenize false (Emit.nodes o c.inline none true parts).text).tokens.map (·.text) =
      readTexts (written none true parts) ++ [none] := by
    have contents := congrArg (List.map Prod.snd)
      (map_content_tokens (Emit.nodes o c.inline none true parts).text)
    rw [toList_text_nodes asm spaced plain, List.map_map, List.map_append] at contents
    exact contents
  rw [texts, List.append_left_inj]
  exact readTexts_written plain none true

/-- A decrement stands between an operand and a minus. -/
theorem tokens_of_written_parts_decrement :
    (tokenize false (Emit.nodes ⟨false, false, 4, false⟩ EmitContext.root.inline none true
      [.identifier "a", .operator "--", .operator "-", .literal .number "1.5"]).text
      ).tokens.map (·.text) = [some "a", some "--", some "-", some "1.5", none] := by
  apply (tokens_of_written_parts ⟨false, false, 4, false⟩ rfl .root rfl _ ?_).mpr
  · intro merging
    cases merging with
    | later merging =>
        cases merging with
        | here _ pair => exact absurd pair (by decide)
        | later merging =>
            cases merging with
            | later merging =>
                cases merging with
                | later merging => cases merging
  · decide

/-- Two minus signs are written as a decrement. -/
theorem minus_signs_merge :
    (tokenize false (Emit.nodes ⟨false, false, 4, false⟩ EmitContext.root.inline none true
      [.operator "-", .operator "-", .identifier "y"]).text).tokens.map (·.text) =
        [some "--", some "y", none] ∧
      (compile ⟨false, false, false, false, 5⟩ "x = - -y").map
        (fun c => (c.diagnostics, c.script.code)) = .ok ([], "x = --y;\n") := by
  decide +kernel

end MapScript
