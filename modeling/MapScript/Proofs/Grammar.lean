import MapScript.Proofs.Waiting

/-!
# The grammar of the language

Which tokens make a program, and the tree that they stand for. The grammar is a relation between
tokens and nodes, one rule for each way to write a construct; it knows nothing of a parser, of
lookahead or of recovery. Declarations have their types, and there are no instructions.

A rule never says where a token was found. The nodes that are told whether they wait are told
exactly that.
-/
namespace MapScript

namespace Token

def Is (t : Token) (kind : TokenKind) (word : String) : Prop := t.kind = kind ∧ t.word = word

/-- A keyword of the language, in its small spelling. -/
def IsWord (t : Token) (word : String) : Prop := t.Is .keyword word

def IsSymbol (t : Token) (symbol : String) : Prop := t.Is .operator symbol

/-- An operator that stands between or before operands. Brackets, commas and the signs of a link
are none, and `await` is a keyword. -/
def IsPlainOperator (t : Token) : Prop :=
  t.kind = .operator ∧ t.word ∉ ["[", "]", ",", ".", "->", "await"] ∨
    t.kind = .keyword ∧ t.word ∈ ["is", "not", "and", "or"]

/-- Every block can be closed by `end`, and by a word of its own. -/
def Closes (t : Token) (word : String) : Prop := t.IsWord "end" ∨ t.IsWord word

end Token

def LineEnds (ts : List Token) : Prop := ∀ t ∈ ts, t.kind = .endOfLine

/-- `[TYPE] [array] NAME` -/
inductive TypedName.Written : List Token → TypedName → Prop
  | plain {name : Token} : name.kind = .identifier → Written [name] ⟨none, name.word, false⟩
  | array {a name : Token} : a.IsWord "array" → name.kind = .identifier →
      Written [a, name] ⟨none, name.word, true⟩
  | typed {type name : Token} : type.kind = .identifier → name.kind = .identifier →
      Written [type, name] ⟨some type.word, name.word, false⟩
  | typedArray {type a name : Token} : type.kind = .identifier → a.IsWord "array" →
      name.kind = .identifier → Written [type, a, name] ⟨some type.word, name.word, true⟩

/-- `[TYPE] NAME`, with a comma between any two. -/
inductive Params : List Token → List Param → Prop
  | last {name : Token} : name.kind = .identifier → Params [name] [⟨name.word, none⟩]
  | lastTyped {type name : Token} : type.kind = .identifier → name.kind = .identifier →
      Params [type, name] [⟨name.word, some type.word⟩]
  | more {name comma : Token} {ts : List Token} {ps : List Param} : name.kind = .identifier →
      comma.IsSymbol "," → Params ts ps → Params (name :: comma :: ts) (⟨name.word, none⟩ :: ps)
  | moreTyped {type name comma : Token} {ts : List Token} {ps : List Param} :
      type.kind = .identifier → name.kind = .identifier → comma.IsSymbol "," → Params ts ps →
      Params (type :: name :: comma :: ts) (⟨name.word, some type.word⟩ :: ps)

/-- `nothing`, or parameters. -/
inductive ParamList : List Token → List Param → Prop
  | nothing {t : Token} : t.IsWord "nothing" → ParamList [t] []
  | some {ts : List Token} {ps : List Param} : Params ts ps → ParamList ts ps

/-- `nothing`, or a type. -/
inductive ReturnType : Token → Option String → Prop
  | nothing {t : Token} : t.IsWord "nothing" → ReturnType t none
  | type {t : Token} : t.kind = .identifier → ReturnType t (some t.word)

/-- What a rule of the grammar is about. A phrase that continues another one holds the nodes that
stand before it. -/
inductive Phrase where
  | expression
  /-- Operands and operators, the first of which may have to be an operator. -/
  | parts (afterOperand : Bool)
  | operand
  /-- A name with its links, and then with calls and links. -/
  | named
  /-- A name with its links. -/
  | reference
  | link
  | links
  | called (before : List Node)
  | suffixes (before : List Node)
  | argument
  /-- Arguments up to a bracket, which is square or round. -/
  | arguments (square : Bool) (before : List Node)
  | fields (before : List (String × List Node))
  | initializer
  | function
  | constant
  | condition
  | statement
  | body
  /-- A line of a `globals` block or of a struct. -/
  | declaration
  /-- Declarations, with functions between them where those are allowed. -/
  | declarations (functions : Bool)

/-- The bracket that closes arguments. -/
def Token.ClosesArguments (t : Token) : Bool → Prop
  | true => t.IsSymbol "]"
  | false => t.kind = .rightParen

def Node.IsAssignment (n : Node) : Prop := ∃ op ∈ assignmentOperators, n = .operator op

open Phrase in
inductive Derives : Phrase → List Token → List Node → Prop
  -- Expressions.
  | expression {ts : List Token} {ns : List Node} : ts ≠ [] → Derives (parts false) ts ns →
      Derives expression ts ns
  | noParts {b : Bool} : Derives (parts b) [] []
  | operator {b : Bool} {t : Token} {ts : List Token} {ns : List Node} : t.IsPlainOperator →
      Derives (parts false) ts ns → Derives (parts b) (t :: ts) (.operator t.word :: ns)
  | operand {xs ts : List Token} {ps ns : List Node} : Derives operand xs ps →
      Derives (parts true) ts ns → Derives (parts false) (xs ++ ts) (ps ++ ns)
  -- Operands.
  | number {t : Token} {ts : List Token} {ps : List Node} : t.kind = .number →
      Derives (suffixes [.literal .number t.word]) ts ps → Derives operand (t :: ts) ps
  | string {t : Token} {ts : List Token} {ps : List Node} : t.kind = .string →
      Derives (suffixes [.literal .string t.word]) ts ps → Derives operand (t :: ts) ps
  | truth {t : Token} : t.kind = .keyword → t.word ∈ ["true", "false"] →
      Derives operand [t] [.literal .bool t.word]
  | nil {t : Token} : t.kind = .keyword → t.word ∈ ["nil", "null"] →
      Derives operand [t] [.literal .nil "null"]
  | name {ts : List Token} {ps : List Node} : Derives named ts ps → Derives operand ts ps
  | awaitCall {t : Token} {ts : List Token} {callee args : List Node} {isAsync : Bool} :
      t.IsWord "await" → Derives named ts [.call callee isAsync args] →
      Derives operand (t :: ts) [.call callee true args]
  | awaitOther {t : Token} {ts : List Token} {ps : List Node} : t.IsWord "await" →
      Derives named ts ps → (∀ callee isAsync args, ps ≠ [.call callee isAsync args]) →
      Derives operand (t :: ts) (.operator "await" :: ps)
  | group {l r : Token} {ts us : List Token} {body ps : List Node} : l.kind = .leftParen →
      Derives expression ts body → r.kind = .rightParen → Derives (suffixes [.group body]) us ps →
      Derives operand (l :: (ts ++ r :: us)) ps
  | array {l : Token} {ts us : List Token} {items ps : List Node} : l.IsSymbol "[" →
      Derives (arguments true []) ts items → Derives (suffixes [.array items]) us ps →
      Derives operand (l :: (ts ++ us)) ps
  | object {l : Token} {ts us : List Token} {ps : List Node} {fs : List (String × List Node)} :
      l.kind = .leftBrace → Derives (fields []) ts [.object fs] →
      Derives (suffixes [.object fs]) us ps → Derives operand (l :: (ts ++ us)) ps
  | doBlock {t c : Token} {ts : List Token} {ns : List Node} : t.IsWord "do" → Derives body ts ns →
      c.IsWord "end" → Derives operand (t :: (ts ++ [c])) [.doBlock (ns.any Node.waits) ns]
  -- Names, links and calls.
  | named {xs ts : List Token} {n : Node} {ps : List Node} : Derives reference xs [n] →
      Derives (called [n]) ts ps → Derives named (xs ++ ts) ps
  | identifier {t : Token} : t.kind = .identifier → Derives reference [t] [.identifier t.word]
  | member {t : Token} {ts : List Token} {ns : List Node} : t.kind = .identifier →
      Derives links ts ns → ns ≠ [] → Derives reference (t :: ts) [.member t.word ns]
  | noLinks : Derives links [] []
  | links {xs ts : List Token} {n : Node} {ns : List Node} : Derives link xs [n] →
      Derives links ts ns → Derives links (xs ++ ts) (n :: ns)
  | property {d t : Token} : d.IsSymbol "." ∨ d.IsSymbol "->" →
      t.kind = .identifier ∨ t.kind = .keyword → Derives link [d, t] [.property t.word]
  | index {l r : Token} {ts : List Token} {ns : List Node} : l.IsSymbol "[" →
      Derives expression ts ns → r.IsSymbol "]" → Derives link (l :: (ts ++ [r])) [.index ns]
  | notCalled {before : List Node} : Derives (called before) [] before
  | called {l : Token} {ts us : List Token} {before args ps : List Node} : l.kind = .leftParen →
      Derives (arguments false []) ts args → Derives (suffixes [.call before false args]) us ps →
      Derives (called before) (l :: (ts ++ us)) ps
  | noSuffixes {before : List Node} : Derives (suffixes before) [] before
  | suffixLink {xs ts : List Token} {n : Node} {before ps : List Node} : Derives link xs [n] →
      Derives (suffixes (before ++ [n])) ts ps → Derives (suffixes before) (xs ++ ts) ps
  | suffixCall {l : Token} {ts us : List Token} {before args ps : List Node} :
      isUncallable before = false → l.kind = .leftParen → Derives (arguments false []) ts args →
      Derives (suffixes [.call before false args]) us ps →
      Derives (suffixes before) (l :: (ts ++ us)) ps
  -- Arguments and fields.
  | onePart {ts : List Token} {n : Node} : Derives expression ts [n] → Derives argument ts [n]
  | manyParts {ts : List Token} {ns : List Node} : Derives expression ts ns → 2 ≤ ns.length →
      Derives argument ts [.expr ns]
  | noArguments {square : Bool} {es : List Token} {r : Token} {before : List Node} : LineEnds es →
      r.ClosesArguments square → Derives (arguments square before) (es ++ [r]) before
  | lastArgument {square : Bool} {es ts fs : List Token} {r : Token} {before : List Node}
      {n : Node} : LineEnds es → Derives argument ts [n] → LineEnds fs → r.ClosesArguments square →
      Derives (arguments square before) (es ++ (ts ++ (fs ++ [r]))) (before ++ [n])
  | moreArguments {square : Bool} {es ts fs us : List Token} {comma : Token}
      {before all : List Node} {n : Node} : LineEnds es → Derives argument ts [n] → LineEnds fs →
      comma.IsSymbol "," → Derives (arguments square (before ++ [n])) us all →
      Derives (arguments square before) (es ++ (ts ++ (fs ++ comma :: us))) all
  | noFields {es : List Token} {r : Token} {before : List (String × List Node)} : LineEnds es →
      r.kind = .rightBrace → Derives (fields before) (es ++ [r]) [.object before]
  | fieldWithComma {es ts fs us : List Token} {key colon comma : Token} {value : List Node}
      {before : List (String × List Node)} {ns : List Node} : LineEnds es → key.kind.isFieldName →
      colon.IsSymbol ":" ∨ colon.IsSymbol "=" → Derives expression ts value → LineEnds fs →
      comma.IsSymbol "," → Derives (fields (before ++ [(key.word, value)])) us ns →
      Derives (fields before) (es ++ key :: colon :: (ts ++ (fs ++ comma :: us))) ns
  /-- Without a comma the next field stands on another line. -/
  | fieldOnLine {es ts fs us : List Token} {key colon : Token} {value : List Node}
      {before : List (String × List Node)} {ns : List Node} : LineEnds es → key.kind.isFieldName →
      colon.IsSymbol ":" ∨ colon.IsSymbol "=" → Derives expression ts value → LineEnds fs →
      (∀ t ∈ us.head?, t.kind ≠ .endOfLine) → (fs = [] → ∀ t ∈ us.head?, t.kind = .rightBrace) →
      Derives (fields (before ++ [(key.word, value)])) us ns →
      Derives (fields before) (es ++ key :: colon :: (ts ++ (fs ++ us))) ns
  -- Declarations.
  | noInitializer : Derives initializer [] []
  | initializer {equals : Token} {ts : List Token} {ns : List Node} : equals.IsSymbol "=" →
      Derives expression ts ns → Derives initializer (equals :: ts) ns
  | constant {t equals : Token} {xs ts : List Token} {typed : TypedName} {ns : List Node} :
      t.IsWord "const" ∨ t.IsWord "constant" → typed.Written xs → equals.IsSymbol "=" →
      Derives expression ts ns → Derives constant (t :: (xs ++ equals :: ts))
        [.varDecl typed.name typed.type false typed.isArray ns]
  | function {t name takes returns type line c : Token} {xs ts : List Token} {ps : List Param}
      {result : Option String} {ns : List Node} : t.IsWord "function" → name.kind = .identifier →
      takes.IsWord "takes" → ParamList xs ps → returns.IsWord "returns" →
      ReturnType type result → line.kind = .endOfLine → Derives body ts ns →
      c.Closes "endfunction" →
      Derives function (t :: name :: takes :: (xs ++ returns :: type :: line :: (ts ++ [c])))
        [.function name.word ps result (ns.any Node.waits) ns]
  | nameAlone {t : Token} : t.kind = .identifier →
      Derives declaration [t] [.varDecl t.word none true false []]
  | nameWithValue {t equals : Token} {ts : List Token} {ns : List Node} : t.kind = .identifier →
      equals.IsSymbol "=" → Derives expression ts ns →
      Derives declaration (t :: equals :: ts) [.varDecl t.word none true false ns]
  | typedName {xs ts : List Token} {typed : TypedName} {ns : List Node} : typed.Written xs →
      typed.type.isSome → Derives initializer ts ns → Derives declaration (xs ++ ts)
        [.varDecl typed.name typed.type true typed.isArray ns]
  | constantDeclaration {ts : List Token} {ns : List Node} : Derives constant ts ns →
      Derives declaration ts ns
  | noDeclarations {functions : Bool} : Derives (declarations functions) [] []
  | blankDeclaration {functions : Bool} {t : Token} {ts : List Token} {ns : List Node} :
      t.kind = .endOfLine → Derives (declarations functions) ts ns →
      Derives (declarations functions) (t :: ts) ns
  /-- A name after a declaration stands on another line. -/
  | declarations {functions : Bool} {xs ts : List Token} {ms ns : List Node} :
      Derives declaration xs ms → (∀ t ∈ ts.head?, t.kind ≠ .identifier) →
      Derives (declarations functions) ts ns →
      Derives (declarations functions) (xs ++ ts) (ms ++ ns)
  | method {xs ts : List Token} {ms ns : List Node} : Derives function xs ms →
      Derives (declarations true) ts ns → Derives (declarations true) (xs ++ ts) (ms ++ ns)
  -- Statements.
  | globals {t c : Token} {ts : List Token} {ns : List Node} : t.IsWord "globals" →
      Derives (declarations false) ts ns → c.Closes "endglobals" →
      Derives statement (t :: (ts ++ [c])) [.globals ns]
  | functionStatement {ts : List Token} {ns : List Node} : Derives function ts ns →
      Derives statement ts ns
  | localDecl {t : Token} {xs ts : List Token} {typed : TypedName} {ns : List Node} :
      t.IsWord "local" → typed.Written xs → Derives initializer ts ns →
      Derives statement (t :: (xs ++ ts)) [.varDecl typed.name typed.type true typed.isArray ns]
  | constantStatement {ts : List Token} {ns : List Node} : Derives constant ts ns →
      Derives statement ts ns
  | set {t op : Token} {xs ts : List Token} {n : Node} {ns : List Node} : t.IsWord "set" →
      Derives reference xs [n] → op.kind = .operator → op.word ∈ assignmentOperators →
      Derives expression ts ns → Derives statement (t :: (xs ++ op :: ts)) [.assign [n] op.word ns]
  | returnNothing {t : Token} : t.IsWord "return" → Derives statement [t] [.returnStmt []]
  | returnValue {t : Token} {ts : List Token} {ns : List Node} : t.IsWord "return" →
      Derives expression ts ns → Derives statement (t :: ts) [.returnStmt ns]
  | ifStmt {t : Token} {ts : List Token} {ns : List Node} : t.IsWord "if" →
      Derives condition ts ns → Derives statement (t :: ts) ns
  | callCall {t : Token} {ts : List Token} {callee args : List Node} {isAsync : Bool} :
      t.IsWord "call" → Derives expression ts [.call callee isAsync args] →
      Derives statement (t :: ts) [.call callee isAsync args]
  | callBlock {t : Token} {ts : List Token} {isAsync : Bool} {ns : List Node} : t.IsWord "call" →
      Derives expression ts [.doBlock isAsync ns] →
      Derives statement (t :: ts) [.doBlock isAsync ns]
  | callAssignment {t : Token} {ts : List Token} {target value : List Node} {op : String} :
      t.IsWord "call" → Derives expression ts (target ++ .operator op :: value) →
      op ∈ assignmentOperators → (∀ n ∈ target, ¬ n.IsAssignment) →
      Derives statement (t :: ts) [.assign target op value]
  | callExpression {t : Token} {ts : List Token} {ns : List Node} : t.IsWord "call" →
      Derives expression ts ns → (∀ n ∈ ns, ¬ n.IsAssignment) →
      (∀ callee isAsync args, ns ≠ [.call callee isAsync args]) →
      (∀ isAsync body, ns ≠ [.doBlock isAsync body]) → Derives statement (t :: ts) [.exprStmt ns]
  /-- A condition that stands first in a loop is its own. -/
  | loopWithExit {t c : Token} {ts : List Token} {exit ns : List Node} : t.IsWord "loop" →
      Derives body ts (.exitWhen exit :: ns) → c.Closes "endloop" →
      Derives statement (t :: (ts ++ [c])) [.loop (some exit) ns]
  | loop {t c : Token} {ts : List Token} {ns : List Node} : t.IsWord "loop" →
      Derives body ts ns → (∀ exit rest, ns ≠ .exitWhen exit :: rest) → c.Closes "endloop" →
      Derives statement (t :: (ts ++ [c])) [.loop none ns]
  | exitWhen {t : Token} {ts : List Token} {ns : List Node} : t.IsWord "exitwhen" →
      Derives expression ts ns → Derives statement (t :: ts) [.exitWhen ns]
  | forStmt {t name equals upTo c : Token} {ts us vs : List Token} {first last ns : List Node} :
      t.IsWord "for" → name.kind = .identifier → equals.IsSymbol "=" →
      Derives expression ts first → upTo.IsWord "to" → Derives expression us last →
      Derives body vs ns → c.Closes "endfor" →
      Derives statement (t :: name :: equals :: (ts ++ upTo :: (us ++ (vs ++ [c]))))
        [.forStmt name.word first last ns]
  | struct {t name line c : Token} {ts : List Token} {ns : List Node} : t.IsWord "struct" →
      name.kind = .identifier → line.kind = .endOfLine → Derives (declarations true) ts ns →
      c.Closes "endstruct" →
      Derives statement (t :: name :: line :: (ts ++ [c])) [.struct name.word ns]
  | expect {t : Token} {ts : List Token} {ns : List Node} : t.IsWord "expect" →
      Derives expression ts ns → Derives statement (t :: ts) [.expect ns]
  | debug {t : Token} : t.IsWord "debug" → Derives statement [t] [.debug]
  | conditionAlone {thn c : Token} {ts us : List Token} {test ns : List Node} :
      Derives expression ts test → thn.IsWord "then" → Derives body us ns → c.Closes "endif" →
      Derives condition (ts ++ thn :: (us ++ [c])) [.ifStmt test ns none]
  | conditionElse {thn els c : Token} {ts us vs : List Token} {test ns ms : List Node} :
      Derives expression ts test → thn.IsWord "then" → Derives body us ns →
      els.IsWord "else" → Derives body vs ms → c.Closes "endif" →
      Derives condition (ts ++ thn :: (us ++ els :: (vs ++ [c]))) [.ifStmt test ns (some ms)]
  | conditionElseIf {thn els : Token} {ts us vs : List Token} {test ns ms : List Node} :
      Derives expression ts test → thn.IsWord "then" → Derives body us ns →
      els.IsWord "elseif" → Derives condition vs ms →
      Derives condition (ts ++ thn :: (us ++ els :: vs)) [.ifStmt test ns (some ms)]
  | noStatements : Derives body [] []
  | blankLine {t : Token} {ts : List Token} {ns : List Node} : t.kind = .endOfLine →
      Derives body ts ns → Derives body (t :: ts) ns
  | statements {xs ts : List Token} {ms ns : List Node} : Derives statement xs ms →
      Derives body ts ns → Derives body (xs ++ ts) (ms ++ ns)

end MapScript
