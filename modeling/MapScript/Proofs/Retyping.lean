import MapScript.Parser.Statement
import MapScript.Proofs.Descendant

/-!
# The types in a tree

The types that a tree records stand with declarations, parameters and functions. They can be
changed or left out in all places at once, and everything else stays as it is.
-/
namespace MapScript

/-- The parameter with its type changed. -/
def Param.mapTypes (f : String → Option String) (p : Param) : Param :=
  { p with type := p.type.bind f }

mutual

/-- The node with all types in it changed. -/
def Node.mapTypes (f : String → Option String) : Node → Node
  | .globals body => .globals (mapTypesList f body)
  | .varDecl name type mutable isArray init =>
    .varDecl name (type.bind f) mutable isArray (mapTypesList f init)
  | .assign target op value => .assign (mapTypesList f target) op (mapTypesList f value)
  | .function name params returnType isAsync body =>
    .function name (params.map (·.mapTypes f)) (returnType.bind f) isAsync (mapTypesList f body)
  | .doBlock isAsync body => .doBlock isAsync (mapTypesList f body)
  | .returnStmt value => .returnStmt (mapTypesList f value)
  | .ifStmt test body otherwise =>
    .ifStmt (mapTypesList f test) (mapTypesList f body) (mapTypesOption f otherwise)
  | .call callee isAsync args => .call (mapTypesList f callee) isAsync (mapTypesList f args)
  | .member name chain => .member name (mapTypesList f chain)
  | .property name => .property name
  | .index parts => .index (mapTypesList f parts)
  | .forStmt i first last body =>
    .forStmt i (mapTypesList f first) (mapTypesList f last) (mapTypesList f body)
  | .loop exit body => .loop (mapTypesOption f exit) (mapTypesList f body)
  | .exitWhen condition => .exitWhen (mapTypesList f condition)
  | .struct name body => .struct name (mapTypesList f body)
  | .expect condition => .expect (mapTypesList f condition)
  | .exprStmt parts => .exprStmt (mapTypesList f parts)
  | .expr parts => .expr (mapTypesList f parts)
  | .group body => .group (mapTypesList f body)
  | .array items => .array (mapTypesList f items)
  | .object fields => .object (mapTypesFields f fields)
  | .literal kind value => .literal kind value
  | .identifier name => .identifier name
  | .operator symbol => .operator symbol
  | .comment text => .comment text
  | .instruction op operands => .instruction op (mapTypesList f operands)
  | .debug => .debug

def Node.mapTypesList (f : String → Option String) : List Node → List Node
  | [] => []
  | n :: ns => n.mapTypes f :: mapTypesList f ns

def Node.mapTypesOption (f : String → Option String) : Option (List Node) → Option (List Node)
  | none => none
  | some ns => some (mapTypesList f ns)

def Node.mapTypesFields (f : String → Option String) :
    List (String × List Node) → List (String × List Node)
  | [] => []
  | (key, value) :: fields => (key, mapTypesList f value) :: mapTypesFields f fields

end

namespace Node
variable (f : String → Option String)

attribute [local simp] mapTypes

@[simp] theorem mapTypesList_eq (ns : List Node) : mapTypesList f ns = ns.map (mapTypes f) := by
  induction ns with
  | nil => rfl
  | cons n ns ih => rw [mapTypesList, ih, List.map_cons]

@[simp] theorem mapTypesOption_eq (ns : Option (List Node)) :
    mapTypesOption f ns = ns.map (List.map (mapTypes f)) := by
  cases ns with
  | none => rfl
  | some ns => rw [mapTypesOption, mapTypesList_eq, Option.map_some]

@[simp] theorem mapTypesFields_eq (fields : List (String × List Node)) :
    mapTypesFields f fields = fields.map fun (key, value) => (key, value.map (mapTypes f)) := by
  induction fields with
  | nil => rfl
  | cons field fields ih => rw [mapTypesFields, ih, mapTypesList_eq, List.map_cons]

theorem map_mapTypes_some_iff {ns : List Node} :
    ns.map (mapTypes some) = ns ↔ ∀ m ∈ ns, m.mapTypes some = m := by
  induction ns with
  | nil => simp
  | cons n ns ih => simp [ih]

/-- Types that stay what they are leave the whole node as it is. -/
theorem mapTypes_some (n : Node) : n.mapTypes some = n := by
  induction n using induction_children with
  | step n ih =>
      cases n with
      | ifStmt _ _ otherwise =>
          cases otherwise <;> simp_all [children, map_mapTypes_some_iff]
      | loop exit _ => cases exit <;> simp_all [children, map_mapTypes_some_iff]
      | object fields =>
          have same : ∀ field ∈ fields, (field.1, field.2.map (mapTypes some)) = field := by
            intro field hf
            rw [map_mapTypes_some_iff.mpr fun m hm => ih m (List.mem_flatMap.mpr ⟨field, hf, hm⟩)]
          rw [mapTypes, mapTypesFields_eq, List.map_congr_left same, List.map_id']
      | _ => simp_all [children, map_mapTypes_some_iff, Param.mapTypes]

/-- Two changes of the types are one. -/
theorem mapTypes_mapTypes (g : String → Option String) (n : Node) :
    (n.mapTypes g).mapTypes f = n.mapTypes fun type => (g type).bind f := by
  have types (type : Option String) : (type.bind g).bind f = type.bind fun t => (g t).bind f :=
    Option.bind_assoc ..
  induction n using induction_children with
  | step n ih =>
      cases n with
      | function => simp_all [children, List.map_inj_left, Param.mapTypes]
      | ifStmt _ _ otherwise =>
          cases otherwise <;> simp_all [children, List.map_inj_left]
      | loop exit _ => cases exit <;> simp_all [children, List.map_inj_left]
      | object fields =>
          simp only [mapTypes, mapTypesFields_eq, List.map_map]
          congr 1
          refine List.map_congr_left fun field hf => ?_
          have inside (m : Node) (hm : m ∈ field.2) :
              (m.mapTypes g).mapTypes f = m.mapTypes fun type => (g type).bind f :=
            ih m (List.mem_flatMap.mpr ⟨field, hf, hm⟩)
          simpa using inside
      | _ => simp_all [children, List.map_inj_left]

-- What the rules of the parser make of nodes does not depend on the types in them.

@[simp] theorem symbol?_mapTypes (n : Node) : (n.mapTypes f).symbol? = n.symbol? := by
  cases n <;> rfl

theorem isUncallable_map (ns : List Node) :
    isUncallable (ns.map (mapTypes f)) = isUncallable ns := by
  cases ns with
  | nil => rfl
  | cons n ns =>
      cases ns with
      | nil => cases n <;> rfl
      | cons m ns => cases n <;> rfl

theorem map_awaited (ns : List Node) :
    (awaited ns).map (mapTypes f) = awaited (ns.map (mapTypes f)) := by
  cases ns with
  | nil => rfl
  | cons n ns =>
      cases ns with
      | nil => cases n <;> rfl
      | cons m ns => cases n <;> rfl

theorem mapTypes_ofChain (name : String) (chain : List Node) :
    (ofChain name chain).mapTypes f = ofChain name (chain.map (mapTypes f)) := by
  cases chain <;> simp [ofChain]

theorem mapTypes_ofParts (parts : List Node) :
    (ofParts parts).mapTypes f = ofParts (parts.map (mapTypes f)) := by
  cases parts with
  | nil => rfl
  | cons n ns => cases ns <;> simp [ofParts]

theorem map_addArgument (args parts : List Node) :
    (addArgument args parts).map (mapTypes f) =
      addArgument (args.map (mapTypes f)) (parts.map (mapTypes f)) := by
  cases parts with
  | nil => rfl
  | cons n ns => simp [addArgument, mapTypes_ofParts]

theorem splitAssignment?_map (parts : List Node) :
    splitAssignment? (parts.map (mapTypes f)) =
      (splitAssignment? parts).map fun (target, op, value) =>
        (target.map (mapTypes f), op, value.map (mapTypes f)) := by
  induction parts with
  | nil => rfl
  | cons n ns ih =>
      rw [List.map_cons, splitAssignment?, splitAssignment?, symbol?_mapTypes, ih]
      split
      · rfl
      · rw [Option.map_map, Option.map_map]
        rfl

theorem mapTypes_ofAssignment (scope : Scope) (target : List Node) (op : String)
    (value : List Node) : (ofAssignment scope target op value).mapTypes f =
      ofAssignment scope (target.map (mapTypes f)) op (value.map (mapTypes f)) := by
  cases target with
  | nil => simp [ofAssignment]
  | cons n ns =>
      cases ns with
      | nil =>
          cases n with
          | identifier name =>
              simp only [List.map_cons, List.map_nil, ofAssignment]
              split <;> simp [bareVariable]
          | _ => simp [ofAssignment]
      | cons m ns => simp [ofAssignment]

theorem mapTypes_ofExpression (scope : Scope) (parts : List Node) :
    (ofExpression scope parts).mapTypes f = ofExpression scope (parts.map (mapTypes f)) := by
  cases parts with
  | nil => rfl
  | cons n ns =>
      cases ns with
      | nil =>
          cases n with
          | identifier name =>
              simp only [List.map_cons, List.map_nil, ofExpression]
              split <;> simp [bareVariable]
          | _ => simp [ofExpression]
      | cons m ns => simp [ofExpression]

theorem mapTypes_ofStatementParts (scope : Scope) (parts : List Node) :
    (ofStatementParts scope parts).mapTypes f =
      ofStatementParts scope (parts.map (mapTypes f)) := by
  unfold ofStatementParts
  rw [splitAssignment?_map]
  cases splitAssignment? parts with
  | none => exact mapTypes_ofExpression f scope parts
  | some split => exact mapTypes_ofAssignment f scope ..

theorem mapTypes_ofLoopBody (body : List Node) :
    (ofLoopBody body).mapTypes f = ofLoopBody (body.map (mapTypes f)) := by
  cases body with
  | nil => rfl
  | cons n ns => cases n <;> simp [ofLoopBody]

end Node

end MapScript
