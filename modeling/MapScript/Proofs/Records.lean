import Mathlib.Data.List.Nodup
import Mathlib.Logic.Relation
import MapScript.Proofs.RoundTrip

/-!
# Records and the fields that they do not need

Trees and tokens are written with seven kinds of records. Each has its fields, and what a record is
read as depends on these only: a field of another name may be added to any record, and a field that
may be `null` may be left out instead.
-/
namespace MapScript

/-- The kinds of records that trees and tokens are written with. -/
inductive Record where
  | tree
  | node
  | param
  | test
  | entry
  | token
  | span

namespace Record

/-- What a field holds: no record, a record, or records in an array. -/
inductive Content where
  | plain
  | one (r : Record)
  | many (r : Record)

structure Field where
  name : String
  content : Content
  /-- Whether the field may be `null`, and so be left out. -/
  nullable : Bool

namespace Field

def plain (name : String) : Field := ⟨name, .plain, false⟩

def plain? (name : String) : Field := ⟨name, .plain, true⟩

def nodes (name : String) : Field := ⟨name, .many .node, false⟩

def nodes? (name : String) : Field := ⟨name, .many .node, true⟩

end Field

/-- The fields of a node of a given form. -/
def formFields : String → List Field
  | "GlobalsBlock" => [.nodes "body"]
  | "VarDecl" =>
    [.plain "name", .plain? "var_type", .plain "mutable", .plain "is_array", .nodes "init"]
  | "Assign" => [.nodes "target", .plain "op", .nodes "value"]
  | "FuncDecl" =>
    [.plain "name", ⟨"params", .many .param, false⟩, .plain? "return_type", .plain "is_async",
     .nodes "body"]
  | "DoBlock" => [.plain "is_async", .nodes "body"]
  | "Return" => [.nodes "value"]
  | "IfStmt" => [⟨"test", .one .test, false⟩, .nodes "then", .nodes? "else_"]
  | "CallExpr" => [.nodes "callee", .plain "is_async", .nodes "args"]
  | "MemberExpr" => [.plain "object", .nodes "chain"]
  | "Property" => [.plain "name"]
  | "Index" => [.nodes "index"]
  | "ForStmt" => [.plain "index_var", .nodes "from", .nodes "to", .nodes "body"]
  | "LoopStmt" => [.nodes? "exit_when", .nodes "body"]
  | "ExitWhen" => [.nodes "condition"]
  | "StructDecl" => [.plain "name", .nodes "body"]
  | "Expect" => [.nodes "condition"]
  | "ExprStmt" => [.nodes "expr"]
  | "Expr" => [.nodes "parts"]
  | "Group" => [.nodes "body"]
  | "ArrayLiteral" => [.nodes "items"]
  | "ObjectLiteral" => [⟨"fields", .many .entry, false⟩]
  | "Literal" => [.plain "kind", .plain "value"]
  | "Identifier" => [.plain "name"]
  | "Operator" => [.plain "symbol"]
  | "Comment" => [.plain "text"]
  | "Mnemonic" => [.plain "op", .nodes "operands"]
  | "DebugStmt" => []
  | _ => []

/-- The field that says which fields there are. Only nodes have one. -/
def tag : Record → List String
  | node => ["type"]
  | _ => []

/-- The fields of a record besides its tag. -/
def fields (r : Record) (object : List (String × Json)) : List Field :=
  match r with
  | tree => [.nodes "body", .plain "is_async"]
  | node => formFields ((Json.lookup "type" object).string?.getD "")
  | param => [.plain "name", .plain? "param_type"]
  | test => [.nodes "parts"]
  | entry => [.plain "key", .nodes "value"]
  | token => [.plain "kind", .plain? "text", .plain? "line", ⟨"span", .one .span, false⟩]
  | span => [.plain "start", .plain "end"]

def names (r : Record) (object : List (String × Json)) : List String :=
  r.tag ++ (r.fields object).map (·.name)

theorem nodup_names (r : Record) (object : List (String × Json)) : (r.names object).Nodup := by
  cases r with
  | node =>
      unfold names tag fields formFields
      dsimp only
      split <;> simp [Field.plain, Field.plain?, Field.nodes, Field.nodes?]
  | _ => simp [names, tag, fields, Field.plain, Field.plain?, Field.nodes]

theorem ne_of_mem_tag {r : Record} {object : List (String × Json)} {name : String} {f : Field}
    (h : name ∈ r.tag) (hf : f ∈ r.fields object) : name ≠ f.name :=
  (List.nodup_append.mp (r.nodup_names object)).2.2 name h f.name (List.mem_map_of_mem hf)

theorem eq_of_name_eq {r : Record} {object : List (String × Json)} {f g : Field}
    (hf : f ∈ r.fields object) (hg : g ∈ r.fields object) (h : f.name = g.name) : f = g :=
  List.inj_on_of_nodup_map (List.nodup_append.mp (r.nodup_names object)).2.1 hf hg h

/-- What a record stands for. -/
abbrev Value : Record → Type
  | tree => Tree
  | node => Node
  | param => Param
  | test => List Node
  | entry => String × List Node
  | token => Token
  | span => Span

def write : (r : Record) → r.Value → Json
  | tree => Tree.toJson
  | node => Node.toJson
  | param => Param.toJson
  | test => Node.testToJson
  | entry => Node.entryToJson
  | token => Token.toJson
  | span => Span.toJson

def read? : (r : Record) → Json → Option r.Value
  | tree => Tree.ofJson?
  | node => Node.ofJson?
  | param => Param.ofJson?
  | test => Node.testOfJson?
  | entry => Node.entryOfJson?
  | token => Token.ofJson?
  | span => Span.ofJson?

/-- A record is written with all of its fields, in their order, and with no other. -/
theorem exists_write_eq (r : Record) (v : r.Value) :
    ∃ object, r.write v = .object object ∧ object.map (·.1) = r.names object := by
  cases r with
  | node =>
      change Node at v
      cases v <;> exact ⟨_, Node.toJson.eq_def _, rfl⟩
  | _ => exact ⟨_, rfl, rfl⟩

/-- What is read can be written and read again. -/
theorem read?_write {r : Record} {value : Json} {v : r.Value} (h : r.read? value = some v) :
    r.read? (r.write v) = some v := by
  cases r with
  | tree => exact Tree.ofJson?_toJson v
  | node => exact Node.ofJson?_toJson v
  | param => exact Param.ofJson?_toJson v
  | test => exact Node.testOfJson?_testToJson v
  | entry => exact Node.entryOfJson?_entryToJson fun n _ => n.ofJson?_toJson
  | token => exact Token.ofJson?_toJson (Token.fits_of_ofJson? h)
  | span => exact Span.ofJson?_toJson (Span.fits_of_ofJson? h)

/-- Nothing that reads such a content can tell the two values apart. -/
def Content.Same : Content → Json → Json → Prop
  | plain, a, b => a = b
  | one r, a, b => r.read? a = r.read? b
  | many r, a, b => a.isNull = b.isNull ∧ a.list? r.read? = b.list? r.read?

theorem Content.same_refl (content : Content) (value : Json) : content.Same value value := by
  cases content with
  | plain | one _ => exact rfl
  | many _ => exact ⟨rfl, rfl⟩

/-- Two objects that have the same in each field of a record. -/
structure Agree (r : Record) (a b : List (String × Json)) : Prop where
  tag : ∀ name ∈ r.tag, Json.lookup name a = Json.lookup name b
  fields : ∀ f ∈ r.fields a, f.content.Same (Json.lookup f.name a) (Json.lookup f.name b)

theorem read?_node_congr {a b : List (String × Json)} (h : node.Agree a b) :
    node.read? (.object a) = node.read? (.object b) := by
  obtain ⟨type, same⟩ := h
  replace type := type "type" (List.mem_singleton_self _)
  change Node.ofJson? (.object a) = Node.ofJson? (.object b)
  rw [Node.ofJson?, Node.ofJson?]
  dsimp only [fields] at same ⊢
  rw [type] at same ⊢
  cases form : (Json.lookup "type" b).string? with
  | none => rfl
  | some form =>
      rw [form, Option.getD_some] at same
      unfold formFields at same
      simp only [Node.arrayOfJson?_eq, Node.fieldArrayOfJson?_eq, Option.bind_eq_bind,
        Option.bind_some]
      split at same
      all_goals
        simp only [Field.plain, Field.plain?, Field.nodes, Field.nodes?, List.forall_mem_cons,
          Content.Same, read?, Node.testOfJson?] at same
        simp [*]

/-- A record is read from its fields. -/
theorem read?_congr {r : Record} {a b : List (String × Json)} (h : r.Agree a b) :
    r.read? (.object a) = r.read? (.object b) := by
  cases r with
  | node => exact read?_node_congr h
  | token =>
      have same := h.fields
      simp only [fields, Field.plain, Field.plain?, List.forall_mem_cons, Content.Same,
        read?] at same
      simp [read?, Token.ofJson?, Json.field_object, same]
  | _ =>
      have same := h.fields
      simp only [fields, Field.plain, Field.plain?, Field.nodes, List.forall_mem_cons,
        Content.Same, read?] at same
      simp [read?, Tree.ofJson?, Param.ofJson?, Node.testOfJson?, Node.entryOfJson?,
        Span.ofJson?, Node.arrayOfJson?_eq, Json.field_object, same]

end Record

namespace Json
variable {before after : List (String × Json)} {key name : String}

theorem lookup_append_cons_of_ne (value : Json) (h : key ≠ name) :
    lookup name (before ++ (key, value) :: after) = lookup name (before ++ after) := by
  induction before with
  | nil => exact if_neg h
  | cons first before ih =>
      rw [List.cons_append, List.cons_append, lookup, lookup, ih]

theorem lookup_eq_null {fields : List (String × Json)} (h : ∀ f ∈ fields, f.1 ≠ name) :
    lookup name fields = .null := by
  induction fields with
  | nil => rfl
  | cons first fields ih =>
      obtain ⟨other, rest⟩ := List.forall_mem_cons.mp h
      rw [lookup, if_neg other, ih rest]

/-- A field that is missing is as good as one that is `null`. -/
theorem lookup_append_null (h : ∀ f ∈ before ++ after, f.1 ≠ key) :
    lookup name (before ++ (key, .null) :: after) = lookup name (before ++ after) := by
  by_cases hk : key = name
  · subst hk
    rw [lookup_eq_null h]
    obtain ⟨first, second⟩ := List.forall_mem_append.mp h
    induction before with
    | nil => exact if_pos rfl
    | cons f before ih =>
        obtain ⟨other, rest⟩ := List.forall_mem_cons.mp first
        rw [List.cons_append, lookup, if_neg other]
        exact ih (List.forall_mem_append.mpr ⟨rest, second⟩) rest
  · exact lookup_append_cons_of_ne .null hk

/-- A change to one field is seen under its name, if at all. -/
theorem lookup_append_cons (value other : Json) :
    lookup name (before ++ (key, value) :: after) =
        lookup name (before ++ (key, other) :: after) ∨
      key = name ∧ lookup name (before ++ (key, value) :: after) = value ∧
        lookup name (before ++ (key, other) :: after) = other := by
  induction before with
  | nil =>
      by_cases hk : key = name
      · exact .inr ⟨hk, if_pos hk, if_pos hk⟩
      · exact .inl ((if_neg hk).trans (if_neg hk).symm)
  | cons first before ih =>
      simp only [List.cons_append, lookup]
      split
      · exact .inl rfl
      · exact ih

end Json

namespace Record

/-- One field is added to one of the records in a value: a field that the record has not, or one
that is `null` and was left out before. -/
inductive Extended : Record → Json → Json → Prop
  | unknown {r : Record} {before after : List (String × Json)} {name : String} (value : Json) :
      name ∉ r.names (before ++ after) →
      Extended r (.object (before ++ after)) (.object (before ++ (name, value) :: after))
  | null {r : Record} {before after : List (String × Json)} {f : Field} :
      f ∈ r.fields (before ++ after) → f.nullable = true →
      (∀ p ∈ before ++ after, p.1 ≠ f.name) →
      Extended r (.object (before ++ after)) (.object (before ++ (f.name, .null) :: after))
  | one {r s : Record} {before after : List (String × Json)} {f : Field} {a b : Json} :
      f ∈ r.fields (before ++ (f.name, a) :: after) → f.content = .one s → Extended s a b →
      Extended r (.object (before ++ (f.name, a) :: after))
        (.object (before ++ (f.name, b) :: after))
  | many {r s : Record} {before after : List (String × Json)} {f : Field} {a b : Json}
      {first second : List Json} :
      f ∈ r.fields (before ++ (f.name, .array (first ++ a :: second)) :: after) →
      f.content = .many s → Extended s a b →
      Extended r (.object (before ++ (f.name, .array (first ++ a :: second)) :: after))
        (.object (before ++ (f.name, .array (first ++ b :: second)) :: after))

/-- Where one field changes to what reads the same, the record still agrees. -/
theorem agree_of_same {r : Record} {before after : List (String × Json)} {f : Field} {a b : Json}
    (hf : f ∈ r.fields (before ++ (f.name, a) :: after)) (h : f.content.Same a b) :
    r.Agree (before ++ (f.name, a) :: after) (before ++ (f.name, b) :: after) where
  tag := by
    intro name hn
    have other := (ne_of_mem_tag hn hf).symm
    rw [Json.lookup_append_cons_of_ne _ other, Json.lookup_append_cons_of_ne _ other]
  fields := by
    intro g hg
    rcases Json.lookup_append_cons a b with same | ⟨name, here, there⟩
    · rw [same]
      exact g.content.same_refl _
    · rw [here, there, ← eq_of_name_eq hf hg name]
      exact h

theorem Extended.read?_eq {r : Record} {a b : Json} (h : Extended r a b) :
    r.read? a = r.read? b := by
  induction h with
  | @unknown r before after name value other =>
      have same {known : String} (hk : known ∈ r.names (before ++ after)) :
          Json.lookup known (before ++ after) =
            Json.lookup known (before ++ (name, value) :: after) := by
        rw [Json.lookup_append_cons_of_ne]
        rintro rfl
        exact other hk
      apply read?_congr
      constructor
      · intro known hk
        exact same (List.mem_append_left _ hk)
      · intro f hf
        rw [same (List.mem_append_right _ (List.mem_map_of_mem hf))]
        exact f.content.same_refl _
  | null _ _ missing =>
      apply read?_congr
      constructor
      · intro name _
        rw [Json.lookup_append_null missing]
      · intro g _
        rw [Json.lookup_append_null missing]
        exact g.content.same_refl _
  | one hf content _ ih =>
      apply read?_congr
      apply agree_of_same hf
      rw [content]
      exact ih
  | many hf content _ ih =>
      apply read?_congr
      apply agree_of_same hf
      rw [content]
      refine ⟨rfl, ?_⟩
      simp [Json.list?, Json.array?, ih]

/-- Any number of fields may be added and removed again. -/
theorem read?_eq_of_eqvGen {r : Record} {a b : Json} (h : Relation.EqvGen r.Extended a b) :
    r.read? a = r.read? b := by
  induction h with
  | rel _ _ h => exact h.read?_eq
  | refl _ => rfl
  | symm _ _ _ ih => exact ih.symm
  | trans _ _ _ _ _ first second => exact first.trans second

end Record

/-- Every tree is read back from what is written of it, and so is every token whose numbers are
words. All records are written with just their fields, and read the same however often fields that
they have not, or fields that are `null`, were added to records inside or removed there. So what
was read from any value is read again once it has been written. -/
theorem records_roundTrip :
    (∀ t : Tree, Tree.ofJson? t.toJson = some t) ∧
      (∀ t : Token, Token.ofJson? t.toJson = some t ↔ t.Fits) ∧
      ∀ r : Record,
        (∀ v, ∃ object, r.write v = .object object ∧ object.map (·.1) = r.names object) ∧
        (∀ a b, Relation.EqvGen r.Extended a b → r.read? a = r.read? b) ∧
        ∀ value v, r.read? value = some v → r.read? (r.write v) = some v := by
  refine ⟨Tree.ofJson?_toJson, ?_, ?_⟩
  · intro t
    exact ⟨Token.fits_of_ofJson?, Token.ofJson?_toJson⟩
  · intro r
    exact ⟨r.exists_write_eq, fun _ _ => Record.read?_eq_of_eqvGen,
      fun _ _ => Record.read?_write⟩

example :
    Token.ofJson? (.object
      [("kind", .string "Eof"), ("note", .bool true),
       ("span", .object [("end", .number 7), ("file", .null), ("start", .number 7)])]) =
      some ⟨.endOfFile, none, none, ⟨7, 7⟩⟩ := rfl

end MapScript
