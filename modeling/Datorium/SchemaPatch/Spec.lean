
import Datorium.Document.Any
/-! # Update lists -/
namespace Datorium
open Framework
inductive UpdateKind where
  | add
  | importField
  | remove
  | abandon
  | replace
  | move
  | copy
  | convert
  deriving DecidableEq, Repr

def UpdateKind.ofString? (op : String) : Option UpdateKind :=
  if op = "add" then some .add
  else if op = "import" then some .importField
  else if op = "remove" then some .remove
  else if op = "abandon" then some .abandon
  else if op = "replace" then some .replace
  else if op = "move" then some .move
  else if op = "copy" then some .copy
  else if op = "convert" then some .convert
  else none

structure UpdateOp (F : Type) where
  op : String
  path : String
  source : String
  schema : Option JsonFields
  value : Option (Any F)
  failover : Any F

structure UpdateSpec (F : Type) where
  start : Int
  target : Option Int
  newVerID : String
  updates : List (UpdateOp F)

/-- `UpdateOp.Op`, when it is a supported one. -/
def UpdateOp.kind {F : Type} (op : UpdateOp F) : Option UpdateKind := UpdateKind.ofString? op.op

def splitPath (path : String) : List String := splitFieldPath path

def UpdateOp.segments {F : Type} (op : UpdateOp F) : List String := splitPath op.path

def parseIntError (text : String) : String :=
  "strconv.ParseInt: parsing \"" ++ text ++ "\": " ++
    if (parseDigits text.toList).isSome || (parseDigits text.toList.tail).isSome then
      "value out of range"
    else "invalid syntax"

def getInt (fields : JsonFields) (key : String) : Except String (Option Int) :=
  match Fields.get? key fields with
  | none => .ok none
  | some (.num text) =>
    match atoi text.toList with
    | some i => .ok (some i)
    | none => .error ("\"" ++ key ++ "\" must be an integer: " ++ parseIntError text)
  | some _ => .error ("\"" ++ key ++ "\" must be a number")

section
variable (fl : Floats)
mutual

def toPlainValue : Json → Any fl.F
  | .null => .null
  | .bool b => .bool b
  | .num text => .float ((fl.parse text).getD fl.zero)
  | .str s => .str s
  | .arr items => .arr (toPlainItems items)
  | .obj fields => .obj (toPlainFields fields)

def toPlainItems : List Json → List (Any fl.F)
  | [] => []
  | item :: items => toPlainValue item :: toPlainItems items

def toPlainFields : List (String × Json) → List (String × Any fl.F)
  | [] => []
  | field :: fields => toPlainField field :: toPlainFields fields

def toPlainField : String × Json → String × Any fl.F
  | (key, value) => (key, toPlainValue value)
end

def readUpdate (fields : JsonFields) : UpdateOp fl.F where
  op := Json.asString (Fields.get? "op" fields)
  path := Json.asString (Fields.get? "path" fields)
  source := Json.asString (Fields.get? "from" fields)
  schema := (Fields.get? "schema" fields).bind Json.toMap?
  value := (Fields.get? "value" fields).map (toPlainValue fl)
  failover := ((Fields.get? "failover" fields).map (toPlainValue fl)).getD .null

/-- The loop of `ParseUpdateSpec` over `updates`. -/
def readUpdates : (i : Nat) → List Json → Except String (List (UpdateOp fl.F))
  | _, [] => .ok []
  | i, .obj fields :: items =>
    match readUpdates (i + 1) items with
    | .error err => .error err
    | .ok ops => .ok (readUpdate fl fields :: ops)
  | i, _ :: _ => .error ("updates[" ++ toString i ++ "] must be an object")

def parseUpdateSpec : Json → Except String (UpdateSpec fl.F)
  | .obj root =>
    match getInt root "from" with
    | .error err => .error err
    | .ok none => .error "from is required"
    | .ok (some start) =>
      match getInt root "to" with
      | .error err => .error err
      | .ok target =>
        let newVerID := Json.asString (Fields.get? "new_ver_id" root)
        if newVerID = "" then .error "new_ver_id is required"
        else
          match Fields.get? "updates" root with
          | some (.arr items) =>
            match readUpdates fl 0 items with
            | .error err => .error err
            | .ok updates => .ok ⟨start, target, newVerID, updates⟩
          | _ => .error "updates is required and must be an array"
  | _ => .error "upgrade request must be a JSON object"
end

structure UpgradeError where
  code : String := "invalidSchemaUpgrade"
  path : String
  message : String
  expected : String := ""
  actual : String := ""
  deriving DecidableEq

/-- A character of the alphabet of `ulid`, in either case. -/
def ulidChar (c : Char) : Bool :=
  c.isAlphanum && c.toUpper ∉ ['I', 'L', 'O', 'U']

def ulidParses (text : String) : Bool :=
  text.toList.length = 26 && text.toList.all ulidChar &&
    text.toList.head?.any fun c => c.toNat ≤ '7'.toNat

def isAllDigits (seg : String) : Bool := seg ≠ "" && seg.toList.all Char.isDigit

/-- The check of one segment in `validatePathTarget`. -/
def segmentError (seg : String) : Option String :=
  if seg ∈ metaFieldOrder then
    some ("path must not target database-owned metadata field \"" ++ seg ++ "\"")
  else if isAllDigits seg then
    some ("path segment \"" ++ seg ++
      "\" looks like an array index, which is not a valid schema field path")
  else none

def validatePathTarget (path : String) : Option String :=
  if path.toList.head? ≠ some '/' then some "path must start with /"
  else if splitPath path = [] then some "path must not be the document root"
  else (splitPath path).findSome? segmentError

namespace UpdateOp
variable {F : Type} (op : UpdateOp F)
/-- The check of `from`, for the operations that have one. -/
def sourceErrors (path : String) : List UpgradeError :=
  if op.kind = some .move ∨ op.kind = some .copy then
    if op.source = "" then
      [⟨"invalidSchemaUpgrade", path ++ "/from", "from is required for move/copy", "", ""⟩]
    else
      (validatePathTarget op.source).toList.map fun err =>
        ⟨"invalidSchemaUpgrade", path ++ "/from", err, "", ""⟩
  else []

def pathErrors (path : String) : List UpgradeError :=
  if op.path = "" then
    [⟨"invalidSchemaUpgrade", path ++ "/path", "path is required", "", ""⟩]
  else
    (validatePathTarget op.path).toList.map fun err =>
      ⟨"invalidSchemaUpgrade", path ++ "/path", err, "", ""⟩

/-- The check of `schema`, for the operations that need one. -/
def schemaErrors (path : String) : List UpgradeError :=
  if (op.kind = some .add ∨ op.kind = some .importField ∨ op.kind = some .convert) ∧
      op.schema = none then
    [⟨"invalidSchemaUpgrade", path ++ "/schema", "schema object is required for " ++ op.op, "", ""⟩]
  else []

def errors (i : Nat) : List UpgradeError :=
  let path := "/updates/" ++ toString i
  if op.kind = none then
    [⟨"invalidSchemaUpgrade", path ++ "/op", "unsupported update operation", "", op.op⟩]
  else op.sourceErrors path ++ op.pathErrors path ++ op.schemaErrors path
end UpdateOp

def UpdateSpec.validate {F : Type} (spec : UpdateSpec F) (currentVersion : Int) :
    List UpgradeError :=
  (if spec.start ≠ currentVersion then
    [⟨"staleSchemaVersion", "/from",
      "Collection schema version is older or newer than the current database version.",
      toString currentVersion, toString spec.start⟩]
  else []) ++
  (match spec.target with
  | some target =>
    if target ≠ spec.start + 1 then
      [⟨"invalidSchemaUpgrade", "/to", "Schema upgrades always advance by exactly one version.",
        toString (spec.start + 1), toString target⟩]
    else []
  | none => []) ++
  (if ulidParses spec.newVerID = false then
    [⟨"invalidSchemaUpgrade", "/new_ver_id", "new_ver_id must be a valid ULID-like ID string", "",
      spec.newVerID⟩]
  else []) ++
  (if spec.updates = [] then
    [⟨"invalidSchemaUpgrade", "/updates", "updates must be a non-empty array", "", ""⟩]
  else []) ++
  spec.updates.zipIdx.flatMap fun p => p.1.errors p.2
end Datorium
