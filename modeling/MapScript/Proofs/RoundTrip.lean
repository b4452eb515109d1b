import MapScript.Proofs.Descendant
import MapScript.Token.Json
import MapScript.Tree.Json

/-!
# Values that are written and read again

What is written of a tree or of a token is read as the same tree or token. Only numbers can stand
in the way: those of a token are read as words of a fixed size.
-/
namespace MapScript

namespace Json
variable {α : Type} {read : Json → Option α} {write : α → Json}

theorem field_object (name : String) (fields : List (String × Json)) :
    (object fields).field name = lookup name fields := rfl

theorem list?_ofList {as : List α} (h : ∀ a ∈ as, read (write a) = some a) :
    (ofList write as).list? read = some as := by
  unfold ofList list? array?
  induction as with
  | nil => rfl
  | cons a as ih =>
      obtain ⟨first, rest⟩ := List.forall_mem_cons.mp h
      have tail : (as.map write).mapM read = some as := ih rest
      simp [first, tail]

/-- Nothing is written as `null`, so that anything else has to be written otherwise. -/
theorem optional?_ofOption {o : Option α} (h : ∀ a ∈ o, read (write a) = some a)
    (written : ∀ a, (write a).isNull = false) : (ofOption write o).optional? read = some o := by
  cases o with
  | none => rfl
  | some a => simp [ofOption, optional?, written a, h a rfl]

theorem eq_some_of_optional? {value : Json} {o : Option α} {a : α}
    (h : value.optional? read = some o) (ha : a ∈ o) : read value = some a := by
  unfold optional? at h
  split at h
  · cases h
    cases ha
  · obtain ⟨b, hb, rfl⟩ := Option.map_eq_some_iff.mp h
    cases ha
    exact hb

theorem optional?_string (o : Option String) : (ofOption .string o).optional? string? = some o :=
  optional?_ofOption (fun _ _ => rfl) (fun _ => rfl)

theorem nat?_ofNat {n bound : Nat} (h : n < bound) : (ofNat n).nat? bound = some n := by
  simp [ofNat, nat?, h]

theorem lt_of_nat?_eq_some {value : Json} {n bound : Nat} (h : value.nat? bound = some n) :
    n < bound := by
  unfold nat? at h
  split at h
  · split at h
    · cases h
      omega
    · cases h
  · cases h

end Json

theorem LiteralKind.ofTag?_tag (kind : LiteralKind) : ofTag? kind.tag = some kind := by
  cases kind <;> rfl

theorem Param.ofJson?_toJson (p : Param) : ofJson? p.toJson = some p := by
  simp [toJson, ofJson?, Json.field_object, Json.lookup, Json.string?, Json.optional?_string]

namespace Node

/-- The condition of a choice is a record of its own. -/
def testToJson (parts : List Node) : Json :=
  .object [("parts", .ofList toJson parts)]

def testOfJson? (value : Json) : Option (List Node) :=
  (value.field "parts").list? ofJson?

/-- An entry of an object is a record of its own. -/
def entryToJson (entry : String × List Node) : Json :=
  .object [("key", .string entry.1), ("value", .ofList toJson entry.2)]

def entryOfJson? (value : Json) : Option (String × List Node) := do
  return (← (value.field "key").string?, ← (value.field "value").list? ofJson?)

theorem array_listToJson (nodes : List Node) :
    .array (listToJson nodes) = Json.ofList toJson nodes := by
  unfold Json.ofList
  congr 1
  induction nodes with
  | nil => rw [listToJson, List.map_nil]
  | cons n nodes ih => rw [listToJson, List.map_cons, ih]

theorem optionToJson_eq (o : Option (List Node)) :
    optionToJson o = Json.ofOption (Json.ofList toJson) o := by
  cases o with
  | none => rw [optionToJson, Json.ofOption]
  | some nodes => rw [optionToJson, array_listToJson, Json.ofOption]

theorem array_fieldsToJson (fields : List (String × List Node)) :
    .array (fieldsToJson fields) = Json.ofList entryToJson fields := by
  unfold Json.ofList
  congr 1
  induction fields with
  | nil => rw [fieldsToJson, List.map_nil]
  | cons entry fields ih => rw [fieldsToJson, List.map_cons, ih, array_listToJson, entryToJson]

theorem arrayOfJson?_eq (value : Json) : arrayOfJson? value = value.list? ofJson? := by
  cases value with
  | array items =>
      rw [arrayOfJson?]
      change listOfJson? items = items.mapM ofJson?
      induction items with
      | nil => rw [listOfJson?, List.mapM_nil, Option.pure_def]
      | cons item items ih => rw [listOfJson?, List.mapM_cons, ih]
  | _ => simp [arrayOfJson?, Json.list?, Json.array?]

theorem fieldArrayOfJson?_eq (value : Json) :
    fieldArrayOfJson? value = value.list? entryOfJson? := by
  cases value with
  | array items =>
      rw [fieldArrayOfJson?]
      change fieldsOfJson? items = items.mapM entryOfJson?
      induction items with
      | nil => rw [fieldsOfJson?, List.mapM_nil, Option.pure_def]
      | cons item items ih =>
          rw [fieldsOfJson?, List.mapM_cons, ih, arrayOfJson?_eq, entryOfJson?]
          simp [Option.bind_assoc]
  | _ => simp [fieldArrayOfJson?, Json.list?, Json.array?]

/-- Nodes that may be missing. -/
theorem optional?_list?_eq (value : Json) :
    (if value.isNull = true then some none else (value.list? ofJson?).map some) =
      value.optional? (Json.list? ofJson?) := by
  rw [Json.optional?]

theorem entryOfJson?_entryToJson {entry : String × List Node}
    (h : ∀ n ∈ entry.2, ofJson? n.toJson = some n) :
    entryOfJson? (entryToJson entry) = some entry := by
  simp [entryToJson, entryOfJson?, Json.field_object, Json.lookup, Json.string?,
    Json.list?_ofList h]

/-- The nodes inside are read back, and with them the fields that hold them. -/
theorem ofJson?_toJson (n : Node) : ofJson? n.toJson = some n := by
  induction n using induction_children with
  | step n inside =>
      have list {nodes : List Node} (h : ∀ m ∈ nodes, m ∈ n.children) :
          (Json.ofList toJson nodes).list? ofJson? = some nodes :=
        Json.list?_ofList fun m hm => inside m (h m hm)
      have option {o : Option (List Node)} (h : ∀ m ∈ o.getD [], m ∈ n.children) :
          (Json.ofOption (Json.ofList toJson) o).optional? (Json.list? ofJson?) = some o := by
        apply Json.optional?_ofOption
        · rintro nodes rfl
          exact list h
        · intro nodes
          rfl
      cases n with
      | object fields =>
          have entries : (Json.ofList entryToJson fields).list? entryOfJson? = some fields := by
            apply Json.list?_ofList
            intro entry he
            apply entryOfJson?_entryToJson
            intro m hm
            exact inside m (List.mem_flatMap.mpr ⟨entry, he, hm⟩)
          simp [toJson, tagged, ofJson?, fieldArrayOfJson?_eq, array_fieldsToJson, Json.lookup,
            Json.string?, entries]
      | _ =>
          simp only [children, List.mem_append] at list option
          -- The form is read first, and leaves only its own fields to read.
          rw [toJson, tagged, ofJson?]
          dsimp only
          rw [Json.lookup, if_pos rfl, Json.string?, Option.bind_eq_bind, Option.bind_some]
          simp +contextual [arrayOfJson?_eq, array_listToJson, optional?_list?_eq, optionToJson_eq,
            Json.lookup, Json.field_object, Json.string?, Json.bool?, Json.optional?_string,
            Json.list?_ofList, Param.ofJson?_toJson, LiteralKind.ofTag?_tag, list, option]

theorem testOfJson?_testToJson (parts : List Node) :
    testOfJson? (testToJson parts) = some parts := by
  rw [testToJson, testOfJson?, Json.field_object, Json.lookup, if_pos rfl]
  exact Json.list?_ofList fun n _ => n.ofJson?_toJson

end Node

theorem Tree.ofJson?_toJson (t : Tree) : ofJson? t.toJson = some t := by
  have body : (Json.ofList Node.toJson t.body).list? Node.ofJson? = some t.body :=
    Json.list?_ofList fun n _ => n.ofJson?_toJson
  simp [toJson, ofJson?, Json.field_object, Json.lookup, Json.bool?, Node.array_listToJson,
    Node.arrayOfJson?_eq, body]

/-- The numbers of a span are 64-bit words. -/
structure Span.Fits (s : Span) : Prop where
  start : s.start < 0x10000000000000000
  stop : s.stop < 0x10000000000000000

theorem Span.ofJson?_toJson {s : Span} (h : s.Fits) : ofJson? s.toJson = some s := by
  simp [toJson, ofJson?, Json.field_object, Json.lookup, Json.nat?_ofNat h.start,
    Json.nat?_ofNat h.stop]

theorem Span.fits_of_ofJson? {value : Json} {s : Span} (h : ofJson? value = some s) : s.Fits := by
  simp only [ofJson?, Option.bind_eq_bind, Option.bind_eq_some_iff] at h
  obtain ⟨start, hstart, stop, hstop, h⟩ := h
  cases h
  exact ⟨Json.lt_of_nat?_eq_some hstart, Json.lt_of_nat?_eq_some hstop⟩

theorem TokenKind.ofJson?_toJson (kind : TokenKind) : ofJson? kind.toJson = some kind := by
  cases kind <;> rfl

/-- The line of a token is a 32-bit word. -/
structure Token.Fits (t : Token) : Prop where
  line : ∀ n ∈ t.line, n < 0x100000000
  span : t.span.Fits

theorem Token.ofJson?_toJson {t : Token} (h : t.Fits) : ofJson? t.toJson = some t := by
  have line : (Json.ofOption .ofNat t.line).optional? (Json.nat? 0x100000000) = some t.line :=
    Json.optional?_ofOption (fun n hn => Json.nat?_ofNat (h.line n hn)) (fun _ => rfl)
  simp [toJson, ofJson?, Json.field_object, Json.lookup, TokenKind.ofJson?_toJson,
    Json.optional?_string, line, Span.ofJson?_toJson h.span]

theorem Token.fits_of_ofJson? {value : Json} {t : Token} (h : ofJson? value = some t) :
    t.Fits := by
  simp only [ofJson?, Option.bind_eq_bind, Option.bind_eq_some_iff] at h
  obtain ⟨kind, -, text, -, line, hline, span, hspan, h⟩ := h
  cases h
  constructor
  · intro n hn
    exact Json.lt_of_nat?_eq_some (Json.eq_some_of_optional? hline hn)
  · exact Span.fits_of_ofJson? hspan

end MapScript
