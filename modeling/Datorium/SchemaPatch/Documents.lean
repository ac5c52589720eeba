
import Datorium.SchemaPatch.Spec
namespace Datorium
open Framework
namespace Any
variable {F : Type}
def walk : Any F → List String → Option (Any F)
  | v, [] => some v
  | .obj fields, seg :: segs =>
    match Fields.get? seg fields with
    | none => none
    | some v => v.walk segs
  | _, _ :: _ => none

def fieldsOf : Option (Any F) → Fields String (Any F)
  | some (.obj fields) => fields
  | _ => []

def setAt : List String → Any F → Fields String (Any F) → Fields String (Any F)
  | [], _, doc => doc
  | [last], value, doc => Fields.set last value doc
  | seg :: segs, value, doc =>
    Fields.set seg (.obj (setAt segs value (fieldsOf (Fields.get? seg doc)))) doc

def removeAt : List String → Fields String (Any F) → Fields String (Any F)
  | [], doc => doc
  | [last], doc => Fields.remove last doc
  | seg :: segs, doc =>
    match Fields.get? seg doc with
    | some (.obj next) => Fields.set seg (.obj (removeAt segs next)) doc
    | _ => doc

theorem setAt_cons (seg next : String) (segs : List String) (value : Any F)
    (doc : Fields String (Any F)) :
    setAt (seg :: next :: segs) value doc =
      Fields.set seg (.obj (setAt (next :: segs) value (fieldsOf (Fields.get? seg doc)))) doc := rfl

theorem removeAt_cons (seg next : String) (segs : List String) (doc : Fields String (Any F)) :
    removeAt (seg :: next :: segs) doc = match Fields.get? seg doc with
      | some (.obj fields) => Fields.set seg (.obj (removeAt (next :: segs) fields)) doc
      | _ => doc := rfl
end Any

def docPointerGet {F : Type} (doc : Fields String (Any F)) (path : String) : Option (Any F) :=
  (Any.obj doc).walk (splitPath path)

def docPointerSet {F : Type} (doc : Fields String (Any F)) (path : String) (value : Any F) :
    Fields String (Any F) :=
  Any.setAt (splitPath path) value doc

def docPointerRemove {F : Type} (doc : Fields String (Any F)) (path : String) :
    Fields String (Any F) :=
  Any.removeAt (splitPath path) doc

def Kind.ofString? (kind : String) : Option Kind :=
  if kind = "object" then some .object
  else if kind = "array" then some .array
  else if kind = "string" then some .string
  else if kind = "number" then some .number
  else if kind = "boolean" then some .boolean
  else if kind = "null" then some .null
  else none

/-- The `kind` of a schema object, when it is a known one. -/
def schemaKind (schema : JsonFields) : Option Kind :=
  Kind.ofString? (Json.asString (Fields.get? "kind" schema))

def schemaKindMatches {F : Type} (schema : JsonFields) (value : Any F) : Bool :=
  match schemaKind schema, value with
  | some .string, .str _ => true
  | some .string, _ => false
  | some .number, .float _ => true
  | some .number, _ => false
  | some .boolean, .bool _ => true
  | some .boolean, _ => false
  | some .array, .arr _ => true
  | some .array, _ => false
  | some .object, .obj _ => true
  | some .object, _ => false
  | _, _ => true

/-- `parseLeadingNumber`, as the text that is parsed. -/
def leadingNumber (text : List Char) : Option (List Char) :=
  let sign := text.takeWhile fun c => c = '+' ∨ c = '-'
  let rest := text.drop (sign.take 1).length
  let whole := rest.takeWhile Char.isDigit
  let fraction := match rest.dropWhile Char.isDigit with
    | '.' :: digits => '.' :: digits.takeWhile Char.isDigit
    | _ => []
  if whole = [] ∧ fraction.tail = [] then none else some (sign.take 1 ++ whole ++ fraction)

section
variable (fl : Floats)
def parseLeadingNumber (s : String) : fl.F :=
  ((leadingNumber s.toList).bind fun text => fl.parse (String.ofList text)).getD fl.zero

def isEmptyOrNilValue : Any fl.F → Bool
  | .null => true
  | .bool b => !b
  | .str s => s = ""
  | .float f => fl.eq f fl.zero
  | .number _ => false
  | .arr items => items.isEmpty
  | .obj fields => fields.isEmpty

def stringifyValue : Any fl.F → String
  | .null => "null"
  | .str s => s
  | .bool b => if b then "true" else "false"
  | .float f => fl.format f
  | v => (v.written fl).encode

def emptyValueForKind : Option Kind → Any fl.F
  | some .string => .str ""
  | some .number => .float fl.zero
  | some .boolean => .bool false
  | some .array => .arr []
  | some .object => .obj []
  | _ => .null

/-- `convertKind` to a number: a number that is kept as text becomes zero. -/
def convertToNumber : Any fl.F → fl.F
  | .bool b => if b then fl.ofNat 1 else fl.zero
  | .str s => parseLeadingNumber fl s
  | .arr items => fl.ofNat items.length
  | .obj fields => fl.ofNat (Fields.size fields)
  | .float f => f
  | _ => fl.zero

def convertKind (v : Any fl.F) : Option Kind → Any fl.F
  | some .boolean => .bool (!isEmptyOrNilValue fl v)
  | some .string => .str (stringifyValue fl v)
  | some .number => .float (convertToNumber fl v)
  | some .array =>
    match v with
    | .arr items => .arr items
    | v => .arr [v]
  | some .object =>
    match v with
    | .obj fields => .obj fields
    | _ => .obj []
  | _ => v

def presentFailover : Any fl.F → Option (Any fl.F)
  | .null => none
  | v => some v

def selectFillValue (op : UpdateOp fl.F) : Option (Any fl.F) :=
  match op.value, op.schema with
  | some value, _ => some value
  | none, none => none
  | none, some schema =>
    match Fields.get? "default" schema, presentFailover fl op.failover with
    | some value, _ => some (toPlainValue fl value)
    | none, some failover => some failover
    | none, none =>
      if Json.asBool (Fields.get? "required" schema) = false then none
      else if Json.asBool (Fields.get? "nullable" schema) then some .null
      else some (emptyValueForKind fl (schemaKind schema))

/-- The document with the field taken out that goes away, and the value that is then set. -/
structure DocChange (F : Type) where
  doc : Fields String (Any F)
  placed : Option (Any F)

def applyDocAdd (doc : Fields String (Any fl.F)) (op : UpdateOp fl.F) : DocChange fl.F :=
  let existing := if op.kind = some .importField then docPointerGet doc op.path else none
  match existing with
  | some value =>
    if schemaKindMatches (op.schema.getD []) value then ⟨doc, none⟩
    else
      -- the extra field is dropped before the value is selected
      ⟨docPointerRemove doc op.path, selectFillValue fl op⟩
  | none =>
    match selectFillValue fl op with
    | none => ⟨docPointerRemove doc op.path, none⟩
    | some value => ⟨doc, some value⟩

def applyDocMove (doc : Fields String (Any fl.F)) (op : UpdateOp fl.F) : DocChange fl.F :=
  match docPointerGet doc op.source with
  | none => ⟨doc, none⟩
  | some value => ⟨docPointerRemove doc op.source, some value⟩

def applyDocCopy (doc : Fields String (Any fl.F)) (op : UpdateOp fl.F) : DocChange fl.F :=
  ⟨doc, docPointerGet doc op.source⟩

def applyDocConvert (doc : Fields String (Any fl.F)) (op : UpdateOp fl.F) : DocChange fl.F :=
  match op.value, docPointerGet doc op.path with
  | some value, _ => ⟨doc, some value⟩
  | none, none => ⟨doc, selectFillValue fl op⟩
  | none, some current => ⟨doc, some (convertKind fl current (schemaKind (op.schema.getD [])))⟩

def docChange (doc : Fields String (Any fl.F)) (op : UpdateOp fl.F) :
    Except String (DocChange fl.F) :=
  match op.kind with
  | some .add | some .importField => .ok (applyDocAdd fl doc op)
  | some .remove => .ok ⟨docPointerRemove doc op.path, none⟩
  | some .abandon => .ok ⟨doc, none⟩
  | some .replace =>
    match op.value with
    | none => .error "replace requires a value"
    | some value => .ok ⟨doc, some value⟩
  | some .move => .ok (applyDocMove fl doc op)
  | some .copy => .ok (applyDocCopy fl doc op)
  | some .convert => .ok (applyDocConvert fl doc op)
  | none => .error ("unsupported op \"" ++ op.op ++ "\"")

def DocChange.result {F : Type} (change : DocChange F) (path : String) : Fields String (Any F) :=
  match change.placed with
  | none => change.doc
  | some value => docPointerSet change.doc path value

def applyDocOp (doc : Fields String (Any fl.F)) (op : UpdateOp fl.F) :
    Except String (Fields String (Any fl.F)) :=
  (docChange fl doc op).map fun change => change.result op.path

def applyDocOps : (i : Nat) → List (UpdateOp fl.F) → Fields String (Any fl.F) →
    Except String (Fields String (Any fl.F))
  | _, [], doc => .ok doc
  | i, op :: ops, doc =>
    match applyDocOp fl doc op with
    | .error err =>
      .error ("update[" ++ toString i ++ "] (" ++ op.op ++ " " ++ op.path ++ "): " ++ err)
    | .ok doc => applyDocOps (i + 1) ops doc

def applyToDocument (doc : Fields String (Any fl.F)) (spec : UpdateSpec fl.F) :
    Except String (Fields String (Any fl.F)) :=
  applyDocOps fl 0 spec.updates doc
end
namespace Sample
def upgrade (start : String) (updates : List JsonFields) : Json :=
  .obj [("from", .num start), ("new_ver_id", .str "01ARZ3NDEKTSV4RRFFQ69G5FAV"),
    ("updates", .arr (updates.map .obj))]

def addYear : JsonFields :=
  [("op", .str "add"), ("path", .str "/year"), ("schema", .obj [("kind", .str "number")])]
end Sample
end Datorium
