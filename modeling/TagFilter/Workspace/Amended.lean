import TagFilter.Document.Reading
import TagFilter.Document.Writing
import TagFilter.Workspace.Amendment

/-!
# Filters with amendments

What the steps of a workspace find in a filter some of whose nodes have been amended. Every step
looks at members in an order of its own, and the first obstacle on its way is what it reports. The
table that takes the place of a node's members holds values and no nodes, so that a conjunction, a
disjunction or a negation with such a table is of no use to most steps, while a leaf may simply have
got another pattern.

* `Amendments.toFilter` — the filter, looked through from left to right;
* `Amendments.depth` — its depth, looked through from right to left;
* `Amendments.evaluand` — what there is to evaluate; obstacles stand where they would be met;
* `Amendments.same` — equality, looked through from right to left;
* `Amendments.document` — the filter as a value;
* `Amendments.formOf` — the form that a node claims to have;
* `Amendments.checkOperand` — may a node become an operand?
-/

namespace TagFilter.Amendments

variable (as : Amendments)

/-- Only nodes, and not values, which have no member of the given name. -/
def onlyNodes (name : String) : List Member → Except Obstacle Unit
  | [] => .ok ()
  | .node _ :: members => onlyNodes name members
  | .value v :: _ => .error (.noMember v.typeName name)

/-- The filter. -/
def toFilter : Shared → Except Obstacle Filter
  | .identifier name pattern => do
    match ← as.member (.identifier name pattern) "pattern" with
    | .value (.string found) => pure (.identifier found)
    | .value other => .error (.noText other.typeName)
    | .node _ => pure (.identifier pattern)
  | .and name left right => do
    let _ ← as.member (.and name left right) "type"
    onlyNodes "type" (← as.operands (.and name left right))
    pure (.and (← toFilter left) (← toFilter right))
  | .or name left right => do
    let _ ← as.member (.or name left right) "type"
    onlyNodes "type" (← as.operands (.or name left right))
    pure (.or (← toFilter left) (← toFilter right))
  | .not name operand => do
    let _ ← as.member (.not name operand) "type"
    onlyNodes "type" (← as.operands (.not name operand))
    pure (.not (← toFilter operand))

/-- The depth of the filter. -/
def depth : Shared → Except Obstacle Nat
  | .identifier name pattern => do
    let _ ← as.operands (.identifier name pattern)
    pure 1
  | .and name left right => do
    onlyNodes "children" (← as.operands (.and name left right)).reverse
    let r ← depth right
    let l ← depth left
    pure (max l r + 1)
  | .or name left right => do
    onlyNodes "children" (← as.operands (.or name left right)).reverse
    let r ← depth right
    let l ← depth left
    pure (max l r + 1)
  | .not name operand => do
    onlyNodes "children" (← as.operands (.not name operand)).reverse
    pure ((← depth operand) + 1)

/-! ### Evaluation -/

/-- An evaluand that is false for every item. -/
def contradiction : Evaluand Obstacle := .and (.identifier "") (.not (.identifier ""))

/-- What a leaf is to be evaluated as, by what stands under the name of its pattern. A value that is
no text equals no tag. -/
def leafEvaluand : Except Obstacle Member → Evaluand Obstacle
  | .error why => .foreign why
  | .ok (.node _) => contradiction
  | .ok (.value (.string pattern)) => .identifier pattern
  | .ok (.value (.array items)) => .foreign (.noElement (Json.array items).typeName)
  | .ok (.value (.object members)) => .foreign (.noElement (Json.object members).typeName)
  | .ok (.value _) => contradiction

/-- What an operand is to be evaluated as, by what stands under its name. -/
def operandEvaluand (own : Evaluand Obstacle) : Except Obstacle Member → Evaluand Obstacle
  | .error why => .foreign why
  | .ok (.node _) => own
  | .ok (.value v) => .foreign (.noNode v)

/-- What there is to evaluate. -/
def evaluand : Shared → Evaluand Obstacle
  | .identifier name pattern => leafEvaluand (as.member (.identifier name pattern) "pattern")
  | .and name left right =>
    let s := Shared.and name left right
    .and (operandEvaluand (evaluand left) (as.member s "left"))
      (operandEvaluand (evaluand right) (as.member s "right"))
  | .or name left right =>
    let s := Shared.or name left right
    .or (operandEvaluand (evaluand left) (as.member s "left"))
      (operandEvaluand (evaluand right) (as.member s "right"))
  | .not name operand =>
    .not (operandEvaluand (evaluand operand) (as.member (.not name operand) "expr"))

/-! ### Equality -/

/-- Are two things that stand under one name equal? -/
def sameMember : Member → Member → Bool
  | .value v, .value w => v.same w
  | .node s, .node t => s.name = t.name
  | _, _ => false

/-- Do two nodes have equal tags and equal patterns, if any? -/
def sameHead (s t : Shared) : Except Obstacle Bool := do
  let left ← as.member s "type"
  let right ← as.member t "type"
  if !sameMember left right then return false
  let left ← as.optional s "pattern"
  let right ← as.optional t "pattern"
  return left.same right

/-- Are two operands equal, of which one at least is no node? Values have no tags to compare, so
only the three words that stand for themselves are equal. -/
def sameValue : Member → Member → Except Obstacle Bool
  | .value .null, .value .null => .ok true
  | .value (.bool true), .value (.bool true) => .ok true
  | .value (.bool false), .value (.bool false) => .ok true
  | .value v, _ => .error (.noMember v.typeName "type")
  | .node s, .value v => do
    let _ ← as.member s "type"
    .error (.noMember v.typeName "type")
  | .node s, .node t => .ok (s.name = t.name)

/-- Are two operands equal? Nodes are compared by `compare`. -/
def sameOperand (compare : Shared → Except Obstacle Bool) : Member → Member → Except Obstacle Bool
  | .node _, .node t => compare t
  | m, n => as.sameValue m n

/-- Are two filters equal? -/
def same : Shared → Shared → Except Obstacle Bool
  | .identifier name pattern, t => do
    let s := Shared.identifier name pattern
    -- one node is equal to itself
    if s.name = t.name then return true
    if !(← as.sameHead s t) then return false
    let _ ← as.operands s
    let _ ← as.operands t
    return true
  | .and name left right, t => do
    let s := Shared.and name left right
    if s.name = t.name then return true
    if !(← as.sameHead s t) then return false
    match (← as.operands s).zip (← as.operands t) with
    | [(l, l'), (r, r')] =>
      if ← as.sameOperand (fun t => same right t) r r' then
        as.sameOperand (fun t => same left t) l l'
      else return false
    | [(l, l')] => as.sameOperand (fun t => same left t) l l'
    | _ => return true
  | .or name left right, t => do
    let s := Shared.or name left right
    if s.name = t.name then return true
    if !(← as.sameHead s t) then return false
    match (← as.operands s).zip (← as.operands t) with
    | [(l, l'), (r, r')] =>
      if ← as.sameOperand (fun t => same right t) r r' then
        as.sameOperand (fun t => same left t) l l'
      else return false
    | [(l, l')] => as.sameOperand (fun t => same left t) l l'
    | _ => return true
  | .not name operand, t => do
    let s := Shared.not name operand
    if s.name = t.name then return true
    if !(← as.sameHead s t) then return false
    match (← as.operands s).zip (← as.operands t) with
    | (m, n) :: _ => as.sameOperand (fun t => same operand t) m n
    | [] => return true

/-! ### Documents, forms and operands -/

/-- The members of a table that belong into a document. -/
def known (form : Filter.Form) (members : List (String × Json)) : List (String × Json) :=
  members.filter fun (name, _) => name ∈ form.names

/-- The filter as a value. -/
def document : Shared → Json
  | .identifier name pattern =>
    let s := Shared.identifier name pattern
    match (as.of s).table with
    | some members => .object (known s.form members)
    | none => (Filter.identifier pattern).toJson
  | .and name left right =>
    let s := Shared.and name left right
    match (as.of s).table with
    | some members => .object (known s.form members)
    | none =>
      .object [("type", .string s.form.tag), ("left", document left), ("right", document right)]
  | .or name left right =>
    let s := Shared.or name left right
    match (as.of s).table with
    | some members => .object (known s.form members)
    | none =>
      .object [("type", .string s.form.tag), ("left", document left), ("right", document right)]
  | .not name operand =>
    let s := Shared.not name operand
    match (as.of s).table with
    | some members => .object (known s.form members)
    | none => .object [("type", .string s.form.tag), ("expr", document operand)]

/-- The form that a node claims to have. -/
def formOf (s : Shared) : Except Obstacle Filter.Form := do
  match ← as.member s "type" with
  | .node _ => pure s.form
  | .value found =>
    match found with
    | .string tag =>
      match Filter.Form.ofTag? tag with
      | some form => pure form
      | none => .error (.noForm found)
    | _ => .error (.noForm found)

/-- May a node become an operand? It has to claim the form that it has. -/
def checkOperand (s : Shared) : Checked Unit :=
  match as.member s "type" with
  | .error (.noMember _ _) => .fail .noTag
  | .error why => .fail (.notRead (why.sort ++ ": " ++ why.message))
  | .ok (.node _) => .ok ()
  | .ok (.value (.string tag)) =>
    match Filter.Form.ofTag? tag with
    | none => .fail (.unknownTag (.string tag))
    | some form =>
      if form = s.form then .ok () else (Checked.fail (.otherNode form)).under form.tag
  | .ok (.value found) => .fail (.unknownTag found)

end TagFilter.Amendments
