
import Datorium.Engine.Config
namespace Datorium
open Framework
namespace WorkItem
def omitEmpty (key value : String) : JsonFields := if value = "" then [] else [(key, .str value)]

def patchField (ops : List JsonFields) : JsonFields :=
  if ops = [] then [] else [("patch", .arr (ops.map .obj))]

def payloadField : Option Json → JsonFields
  | none => []
  | some doc => [("payload", doc)]

def fields (item : WorkItem) : JsonFields :=
  [("collection", .str item.collection), ("id", .str item.id)] ++
    omitEmpty "beforeVersion" item.beforeVersion ++ omitEmpty "afterVersion" item.afterVersion ++
    [("operationId", .str item.operationId), ("command", .str item.command.text)] ++
    patchField item.patch ++ payloadField item.payload

def toJson (item : WorkItem) : Json := .obj item.fields

def stringOf : Option Json → Option String
  | none => some ""
  | some .null => some ""
  | some (.str s) => some s
  | some _ => none

def patchOf : Option Json → Option (List JsonFields)
  | none => some []
  | some .null => some []
  | some (.arr ops) => ops.mapM Json.toMap?
  | some _ => none

def ofJson (v : Json) : Option WorkItem := do
  let fields ← v.toMap?
  let collection ← stringOf (Fields.get? "collection" fields)
  let id ← stringOf (Fields.get? "id" fields)
  let beforeVersion ← stringOf (Fields.get? "beforeVersion" fields)
  let afterVersion ← stringOf (Fields.get? "afterVersion" fields)
  let operationId ← stringOf (Fields.get? "operationId" fields)
  let command ← (stringOf (Fields.get? "command" fields)).bind Command.ofText
  let patch ← patchOf (Fields.get? "patch" fields)
  return { collection, id, beforeVersion, afterVersion, operationId, command, patch,
           payload := Fields.get? "payload" fields }

theorem stringOf_omitEmpty (key value : String) :
    stringOf (Fields.get? key (omitEmpty key value)) = some value := by
  by_cases h : value = "" <;> simp [omitEmpty, h, stringOf]

theorem get?_omitEmpty_other {key key' : String} (h : key ≠ key') (value : String) :
    Fields.get? key' (omitEmpty key value) = none := by
  by_cases hv : value = "" <;> simp [omitEmpty, hv, Fields.get?_cons, h]

theorem mapM_toMap?_obj (ops : List JsonFields) : ops.mapM (Json.toMap? ∘ Json.obj) = some ops := by
  induction ops with
  | nil => rfl
  | cons op ops ih => simp [ih]

theorem get?_patchField_other {key : String} (h : "patch" ≠ key) (ops : List JsonFields) :
    Fields.get? key (patchField ops) = none := by
  by_cases hops : ops = [] <;> simp [patchField, hops, Fields.get?_cons, h]

theorem patchOf_patchField (ops : List JsonFields) :
    patchOf (Fields.get? "patch" (patchField ops)) = some ops := by
  by_cases hops : ops = []
  · simp [patchField, hops, patchOf]
  · simp [patchField, hops, patchOf, mapM_toMap?_obj]

theorem get?_payloadField_other {key : String} (h : "payload" ≠ key) (payload : Option Json) :
    Fields.get? key (payloadField payload) = none := by
  cases payload <;> simp [payloadField, Fields.get?_cons, h]

theorem get?_payloadField (payload : Option Json) :
    Fields.get? "payload" (payloadField payload) = payload := by
  cases payload <;> simp [payloadField]

section
variable (item : WorkItem)
theorem get?_fields_required : Fields.get? "collection" item.fields = some (.str item.collection) ∧
      Fields.get? "id" item.fields = some (.str item.id) ∧
      Fields.get? "operationId" item.fields = some (.str item.operationId) ∧
      Fields.get? "command" item.fields = some (.str item.command.text) := by
  simp [fields, Fields.get?_append, Fields.get?_cons, get?_omitEmpty_other]

theorem get?_fields_optional : Fields.get? "beforeVersion" item.fields =
        Fields.get? "beforeVersion" (omitEmpty "beforeVersion" item.beforeVersion) ∧
      Fields.get? "afterVersion" item.fields =
        Fields.get? "afterVersion" (omitEmpty "afterVersion" item.afterVersion) ∧
      Fields.get? "patch" item.fields = Fields.get? "patch" (patchField item.patch) ∧
      Fields.get? "payload" item.fields = item.payload := by
  simp [fields, Fields.get?_append, Fields.get?_cons, get?_omitEmpty_other,
    get?_patchField_other, get?_payloadField_other, get?_payloadField]

theorem ofJson_toJson : ofJson item.toJson = some item := by
  obtain ⟨hcollection, hid, hoperation, hcommand⟩ := item.get?_fields_required
  obtain ⟨hbefore, hafter, hpatch, hpayload⟩ := item.get?_fields_optional
  simp only [ofJson, toJson, Json.toMap?_obj, Option.bind_eq_bind, Option.bind_some, hcollection,
    hid, hbefore, hafter, hoperation, hcommand, hpatch, hpayload, stringOf_omitEmpty,
    patchOf_patchField]
  simp only [stringOf, Option.bind_some, Command.ofText_text]
  rfl
end
end WorkItem

def writePendingWrite (dataDir : Path) (collection targetServer : String) (item : WorkItem) :
    Prog (Except FsError Unit) :=
  writeFileAtomic .pending (pendingWritePath dataDir collection targetServer item.id)
    (.json item.toJson)

def targetsForAssignment (serverName : String) (assignment : ShardAssignment) : List String :=
  ((assignment.shardReadMember ++ assignment.proxyReadMember).filter
    fun name => name ≠ "" ∧ name ≠ serverName).eraseDups

theorem nodup_eraseDups {α : Type} [BEq α] [LawfulBEq α] (l : List α) : l.eraseDups.Nodup := by
  induction hn : l.length using Nat.strongRecOn generalizing l with
  | ind n ih =>
    cases l with
    | nil => simp
    | cons a l =>
      rw [List.eraseDups_cons, List.nodup_cons, List.mem_eraseDups]
      refine ⟨by simp, ih _ ?_ _ rfl⟩
      subst hn
      exact Nat.lt_succ_of_le (List.length_filter_le _ _)

theorem targetsForAssignment_nodup (serverName : String) (assignment : ShardAssignment) :
    (targetsForAssignment serverName assignment).Nodup := nodup_eraseDups _

structure PushOutcome where
  required : List String
  acknowledged : List String
  unacknowledged : List String
  timeoutMs : Nat

def PushOutcome.complete (outcome : PushOutcome) : Bool := outcome.unacknowledged.isEmpty

def defaultTimeoutMs : Nat := 10000

def pushOne (cfg : Config) (target : String) (item : WorkItem) : Prog Bool :=
  match Fields.get? target cfg.baseURLs with
  | none => pure false
  | some url => if url = "" then pure false else pushItem target item

/-- The pushes run in parallel on disjoint files, here in target order; a target that does not
acknowledge gets a pending write. -/
def pushAll (e : Engine) (item : WorkItem) : List String → Prog (List String × List String)
  | [] => pure ([], [])
  | target :: targets => do
      let acknowledged ← pushOne e.cfg target item
      if acknowledged then
        let rest ← pushAll e item targets
        pure (target :: rest.1, rest.2)
      else
        let _ ← writePendingWrite e.dataDir item.collection target item
        let rest ← pushAll e item targets
        pure (rest.1, target :: rest.2)

def replicateDocumentWrite (e : Engine) (item : WorkItem) (targets : List String) :
    Prog PushOutcome := do
  let outcome ← pushAll e item targets
  pure { required := targets, acknowledged := outcome.1, unacknowledged := outcome.2,
         timeoutMs := defaultTimeoutMs }
end Datorium
