import MapScript.Emit.Node
import MapScript.Proofs.Descendant
import MapScript.Proofs.Words

/-!
# The texts of a tree

Besides the nodes that it holds, a node may hold texts: names and types, the keys of fields,
literals, operators and comments. These are what the output takes over from a tree, and all the
rest of the output is fixed. Some texts are changed on the way: capitals are made small, a leading
`#` is taken off, and a few types and operators have a spelling of their own in the output.
-/
namespace MapScript

/-- A text of a node, with the part that it plays there. -/
inductive Text where
  /-- The name of a variable, a function, a parameter, a struct or a type. -/
  | name (word : String)
  /-- The name of a property. -/
  | member (word : String)
  /-- The key of a field. -/
  | key (word : String)
  | value (kind : LiteralKind) (text : String)
  /-- An operator, or the operator of an assignment. -/
  | symbol (op : String)
  | comment (text : String)
deriving DecidableEq, Repr

@[simp] def Text.text : Text → String
  | .name word | .member word | .key word => word
  | .value _ text => text
  | .symbol op => op
  | .comment text => text

def typeTexts (type : Option String) : List Text := type.toList.map .name

def Param.texts (p : Param) : List Text := .name p.name :: typeTexts p.type

/-- The texts that a node holds itself. -/
def Node.ownTexts : Node → List Text
  | .varDecl name type _ _ _ => .name name :: typeTexts type
  | .assign _ op _ => [.symbol op]
  | .function name params returnType _ _ =>
    .name name :: (params.flatMap Param.texts ++ typeTexts returnType)
  | .member name _ => [.name name]
  | .property name => [.member name]
  | .forStmt indexVar _ _ _ => [.name indexVar]
  | .struct name _ => [.name name]
  | .object fields => fields.map fun field => .key field.1
  | .literal kind value => [.value kind value]
  | .identifier name => [.name name]
  | .operator op => [.symbol op]
  | .comment text => [.comment text]
  | _ => []

/-- The texts of a node have the property `P`. -/
def Node.TextsHave (P : Text → Prop) (n : Node) : Prop := ∀ x ∈ n.ownTexts, P x

theorem mem_of_mem_lowerWord {c : Char} {word : String} (hc : c.isAlpha = false)
    (h : c ∈ (lowerWord word).toList) : c ∈ word.toList := by
  rw [lowerWord, String.toList_ofList] at h
  obtain ⟨d, hd, small⟩ := List.mem_map.mp h
  have same : d.toLower = c.toLower := by rw [← small, toLower_toLower]
  rwa [← eq_of_toLower_eq hc same]

namespace Emit

theorem docType_mem (type : String) :
    docType type ∈ [type, "number", "boolean", "string", "Function"] := by
  unfold docType
  split <;> simp

theorem toList_of_counted? {name rest : String} (h : counted? name = some rest) :
    name.toList = '#' :: rest.toList := by
  unfold counted? at h
  split at h
  · rename_i c cs chars
    rw [← Option.some.inj h, chars, String.toList_ofList]
  · cases h

theorem mem_of_counted? {c : Char} {name rest : String} (h : counted? name = some rest)
    (hc : c ∈ rest.toList) : c ∈ name.toList := by
  rw [toList_of_counted? h]
  exact List.mem_cons_of_mem _ hc

end Emit

theorem outputSymbol_mem (op : String) :
    outputSymbol op ∈ [op, "===", "!==", "&&", "||", "."] := by
  unfold outputSymbol
  split <;> simp

theorem operatorText_mem (op : String) (before after : Option Node) :
    Node.operatorText op before after ∈ [op, "===", "!==", "&&", "||", ".", "!", ""] := by
  have symbol := outputSymbol_mem op
  unfold Node.operatorText
  split
  · simp
  · split
    · simp
    · split
      · simp
      · exact List.mem_append_left ["!", ""] symbol

section Kept

variable {P : String → Prop}

theorem docType_cases {type : String} (h : P type)
    (fixed : ∀ text ∈ ["number", "boolean", "string", "Function"], P text) :
    P (Emit.docType type) := by
  rcases List.mem_cons.mp (Emit.docType_mem type) with same | known
  · rwa [same]
  · exact fixed _ known

theorem operatorText_cases {op : String} (h : P op) (before after : Option Node)
    (fixed : ∀ text ∈ ["===", "!==", "&&", "||", ".", "!", ""], P text) :
    P (Node.operatorText op before after) := by
  rcases List.mem_cons.mp (operatorText_mem op before after) with same | known
  · rwa [same]
  · exact fixed _ known

/-- Texts with separators between them have a property that texts keep when they are put one after
the other. -/
theorem intercalate_of_append {separator : String} {texts : List String} (empty : P "")
    (append : ∀ a b, P a → P b → P (a ++ b)) (hs : P separator) (h : ∀ text ∈ texts, P text) :
    P (String.intercalate separator texts) := by
  induction texts with
  | nil => exact empty
  | cons text texts ih =>
      have first := h text (by simp)
      have rest := ih fun t ht => h t (by simp [ht])
      cases texts with
      | nil => simpa using first
      | cons next texts =>
          rw [String.intercalate_cons_cons]
          exact append _ _ (append _ _ first hs) rest

end Kept

end MapScript
