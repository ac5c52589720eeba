
import Datorium.Document.Value
/-!
# Compiled schemas and the ojson functions

The functions of the ojson library are parameters of the development; the laws of its validator that
the engine relies on are stated in `Ojson.Lawful`.
-/
namespace Datorium
open Framework
/-- `ojson.JSONKind` of a schema entry. -/
inductive Kind where
  | object
  | array
  | string
  | number
  | boolean
  | null
  deriving DecidableEq, Repr

inductive SchemaEntry where
  | mk (name : String) (kind : Kind) (format : String) (custom : Option Json)
      (children : List SchemaEntry) (items : Option SchemaEntry)

namespace SchemaEntry
def name : SchemaEntry → String
  | mk name _ _ _ _ _ => name

def kind : SchemaEntry → Kind
  | mk _ kind _ _ _ _ => kind

def children : SchemaEntry → List SchemaEntry
  | mk _ _ _ _ children _ => children

def format : SchemaEntry → String
  | mk _ _ format _ _ _ => format

def custom : SchemaEntry → Option Json
  | mk _ _ _ custom _ _ => custom

def items : SchemaEntry → Option SchemaEntry
  | mk _ _ _ _ _ items => items

def child (entry : SchemaEntry) (name : String) : Option SchemaEntry :=
  entry.children.find? fun child => child.name = name

def childNames (entry : SchemaEntry) : List String := entry.children.map name
end SchemaEntry

structure PatchOp where
  path : String
  source : String
  value : Json

structure Ojson where
  /-- `config.CompileSchemaBytes`. -/
  compile : Json → Except String SchemaEntry
  /-- `JSONSchema.Validate`. -/
  validate : SchemaEntry → Json → Except String Unit
  /-- `PatchFromJSONValue`. -/
  readPatch : Json → Except String (List PatchOp)
  /-- `ApplyPatch`. -/
  applyPatch : Json → List PatchOp → Except String Json

namespace Ojson
def Valid (o : Ojson) (entry : SchemaEntry) (v : Json) : Prop := o.validate entry v = .ok ()

/-- Validation reads an object as a map and does not look at extra fields. -/
structure Lawful (o : Ojson) : Prop where
  same : ∀ entry v w, Json.Same v w → o.Valid entry v → o.Valid entry w
  extra : ∀ entry key fields, key ∉ entry.childNames →
    (o.Valid entry (.obj (Fields.remove key fields)) ↔ o.Valid entry (.obj fields))

def validateValueAgainstSchema (o : Ojson) (schemaRaw value : Json) : Except String Unit :=
  match o.compile schemaRaw with
  | .error err => .error err
  | .ok schema =>
    if schema.kind ≠ .object then .error "collection schema root must be object"
    else o.validate schema value

theorem validateValueAgainstSchema_ok {o : Ojson} {schemaRaw value : Json}
    (h : o.validateValueAgainstSchema schemaRaw value = .ok ()) :
    ∃ schema, o.compile schemaRaw = .ok schema ∧ schema.kind = .object ∧ o.Valid schema value := by
  unfold validateValueAgainstSchema at h
  split at h
  · cases h
  · rename_i schema hc
    split at h
    · cases h
    · rename_i hk
      exact ⟨schema, hc, not_not.mp hk, h⟩
end Ojson
end Datorium
