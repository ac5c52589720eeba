
import Datorium.Framework.Insertion
import Datorium.Replication.Pending
import Datorium.Search.Value
namespace Datorium
open Framework
/-- The direction of a sort key; `compareOne` takes everything but `desc` as ascending. -/
inductive SortDir where
  | asc
  | desc
  deriving DecidableEq, Repr

structure SortSpec where
  field : String
  dir : SortDir
  deriving DecidableEq

inductive SortValue (F : Type) where
  | missing
  | null
  | known (v : Any F)

def SortValue.rank {F : Type} : SortValue F → Int
  | known _ => 0
  | null => 1
  | missing => 2

section
variable (fl : Floats)
/-- One component of `ComputeSortValues`. -/
def computeSortValue (doc : JsonFields) (spec : SortSpec) : SortValue fl.F :=
  if spec.field = "/!" then .known (.str (Json.asString (Fields.get? "!" doc)))
  else
    match pointerGet doc spec.field with
    | none => .missing
    | some .null => .null
    | some v => .known (.ofJson v)

def computeSortValues (sort : List SortSpec) (doc : JsonFields) : List (SortValue fl.F) :=
  sort.map (computeSortValue fl doc)

/-- One component of `SortValuesToJSON`. -/
def SortValue.toAny {F : Type} : SortValue F → Any F
  | missing => .null
  | null => .null
  | known v => v

def sortValuesToJSON {F : Type} (vals : List (SortValue F)) : List (Any F) := vals.map SortValue.toAny

/-- One component of `SortValuesFromJSON`. -/
def SortValue.ofAny {F : Type} : Any F → SortValue F
  | .null => .null
  | v => .known v

def sortValuesFromJSON {F : Type} (raw : List (Any F)) : List (SortValue F) := raw.map SortValue.ofAny

def toFloat64 : Any fl.F → fl.F
  | .float f => f
  | _ => fl.zero

/-- `strings.Compare`: byte order is the order of the code points. -/
def compareStrings (a b : String) : Int := if a < b then -1 else if a = b then 0 else 1

/-- The boolean case of `compareKnown`. -/
def compareBools (a b : Bool) : Int := if a = b then 0 else if a then 1 else -1

def compareKnown : Any fl.F → Any fl.F → Int
  | .str a, .str b => compareStrings a b
  | .str a, _ => compareStrings a ""
  | .bool a, .bool b => compareBools a b
  | .bool a, _ => compareBools a false
  | .float a, b => if fl.lt a (toFloat64 fl b) then -1 else if fl.lt (toFloat64 fl b) a then 1 else 0
  | _, _ => 0

def storedRank : Any fl.F → Int
  | .null => 1
  | _ => 0

def compareOne (cand : SortValue fl.F) (stored : Any fl.F) (dir : SortDir) : Int :=
  if cand.rank ≠ storedRank fl stored then cand.rank - storedRank fl stored
  else
    match cand with
    | .known v => if dir = .desc then -compareKnown fl v stored else compareKnown fl v stored
    | _ => 0

def compareStoredSort : List (SortValue fl.F) → List (Any fl.F) → List SortDir → Int
  | [], [], _ => 0
  | [], _ :: stored, _ => -(stored.length + 1)
  | _ :: cands, [], _ => cands.length + 1
  | cand :: cands, s :: stored, dirs =>
    if compareOne fl cand s (dirs.headD .asc) ≠ 0 then compareOne fl cand s (dirs.headD .asc)
    else compareStoredSort cands stored dirs.tail

structure BucketItem where
  sort : List (Any fl.F)
  id : String

structure ResultFile where
  version : String := ""
  schema : String := ""
  search : String := ""
  collection : String := ""
  key : List (Any fl.F) := []
  items : List (BucketItem fl) := []

mutual

def deepEqual : Any fl.F → Any fl.F → Bool
  | .null, .null => true
  | .bool a, .bool b => a == b
  | .number a, .number b => a == b
  | .float a, .float b => fl.eq a b
  | .str a, .str b => a == b
  | .arr as, .arr bs => deepEqualList as bs
  | .obj as, .obj bs => as.length == bs.length && deepEqualFields as bs
  | _, _ => false

def deepEqualList : List (Any fl.F) → List (Any fl.F) → Bool
  | [], [] => true
  | a :: as, b :: bs => deepEqual a b && deepEqualList as bs
  | _, _ => false

def deepEqualFields : List (String × Any fl.F) → List (String × Any fl.F) → Bool
  | [], _ => true
  | a :: as, bs => deepEqualField a bs && deepEqualFields as bs

def deepEqualField : String × Any fl.F → List (String × Any fl.F) → Bool
  | (key, a), bs =>
    match Fields.get? key bs with
    | some b => deepEqual a b
    | none => false
end
namespace ResultFile
variable {fl}
def find? (rf : ResultFile fl) (id : String) : Option (BucketItem fl) :=
  rf.items.find? fun it => it.id == id

def remove (rf : ResultFile fl) (id : String) : Bool × ResultFile fl :=
  match rf.find? id with
  | none => (false, rf)
  | some _ => (true, { rf with items := rf.items.eraseP fun it => it.id == id })

def insert (rf : ResultFile fl) (sort : List SortSpec) (id : String)
    (sortVals : List (SortValue fl.F)) : ResultFile fl :=
  { rf with
    items := insertBefore
      (fun it => compareStoredSort fl sortVals it.sort (sort.map SortSpec.dir) < 0)
      ⟨sortValuesToJSON sortVals, id⟩ rf.items }

def upsert (rf : ResultFile fl) (sort : List SortSpec) (id : String)
    (sortVals : List (SortValue fl.F)) : Bool × ResultFile fl :=
  match rf.find? id with
  | some it =>
    if deepEqualList fl it.sort (sortValuesToJSON sortVals) then (false, rf)
    else (true, (rf.remove id).2.insert sort id sortVals)
  | none => (true, rf.insert sort id sortVals)
end ResultFile

def BucketItem.toJson (it : BucketItem fl) : Json :=
  .obj [("sort", .arr (it.sort.map (Any.marshal fl))), ("id", .str it.id)]

/-- `json.MarshalIndent`; a key without components is a nil slice. -/
def ResultFile.toJson (rf : ResultFile fl) : Json :=
  .obj [("#", .str rf.version), ("$", .str rf.schema), ("search", .str rf.search),
    ("collection", .str rf.collection),
    ("key", if rf.key = [] then .null else .arr (rf.key.map (Any.marshal fl))),
    ("items", .arr (rf.items.map (BucketItem.toJson fl)))]

def anyListOf : Option Json → Option (List (Any fl.F))
  | none => some []
  | some .null => some []
  | some (.arr values) => unmarshalList fl values
  | some _ => none

def BucketItem.ofJson (v : Json) : Option (BucketItem fl) := do
  let fields ← v.toMap?
  let sort ← anyListOf fl (Fields.get? "sort" fields)
  let id ← WorkItem.stringOf (Fields.get? "id" fields)
  return { sort, id }

def bucketItems : List Json → Option (List (BucketItem fl))
  | [] => some []
  | v :: vs =>
    match BucketItem.ofJson fl v, bucketItems vs with
    | some it, some its => some (it :: its)
    | _, _ => none

def itemsOf : Option Json → Option (List (BucketItem fl))
  | none => some []
  | some .null => some []
  | some (.arr values) => bucketItems fl values
  | some _ => none

/-- `json.Unmarshal` into a result file. -/
def ResultFile.ofJson (v : Json) : Option (ResultFile fl) := do
  let fields ← v.toMap?
  let version ← WorkItem.stringOf (Fields.get? "#" fields)
  let schema ← WorkItem.stringOf (Fields.get? "$" fields)
  let search ← WorkItem.stringOf (Fields.get? "search" fields)
  let collection ← WorkItem.stringOf (Fields.get? "collection" fields)
  let key ← anyListOf fl (Fields.get? "key" fields)
  let items ← itemsOf fl (Fields.get? "items" fields)
  return { version, schema, search, collection, key, items }
end

inductive Mutation where
  | upsert (id : String) (doc : JsonFields)
  | remove (id : String)

section
variable (fl : Floats)
/-- What `ApplyMutation` works on: the loaded file, and whether there was one. -/
def loadBucket : Option Json → Option (ResultFile fl × Bool)
  | none => some ({}, false)
  | some v => (ResultFile.ofJson fl v).map fun rf => (rf, true)

def ResultFile.named (rf : ResultFile fl) : ResultFile fl :=
  if rf.schema = "" then { rf with schema := "SearchResult:v1" } else rf

/-- An undisturbed `ApplyMutation`: load, mutate, and write under a fresh version if something
changed. -/
def applyAlone (version : String) (mutate : ResultFile fl → Bool → Bool × ResultFile fl)
    (file : Option Json) : Option (Option Json) :=
  match loadBucket fl file with
  | none => none
  | some (rf, existed) =>
    match mutate (rf.named fl) existed with
    | (false, _) => some file
    | (true, rf') => some (some ({ rf' with version }.toJson fl))

structure BucketContext where
  collection : String
  search : String
  key : List (Any fl.F)
  sort : List SortSpec

variable {fl}
/-- The closure of `LocalApplier.Remove` and of the remote handler. -/
def removeFrom (id : String) (rf : ResultFile fl) (existed : Bool) : Bool × ResultFile fl :=
  if existed then rf.remove id else (false, rf)

/-- The closure of `LocalApplier.Upsert`. -/
def localUpsert (ctx : BucketContext fl) (id : String) (sortVals : List (SortValue fl.F))
    (rf : ResultFile fl) (existed : Bool) : Bool × ResultFile fl :=
  ResultFile.upsert
    { rf with
      search := ctx.search
      collection := ctx.collection
      key := if existed = false ∨ rf.key = [] then ctx.key else rf.key }
    ctx.sort id sortVals

/-- The closure of `handleApplySearchResultWrite`, which leaves the key alone. -/
def remoteUpsert (ctx : BucketContext fl) (id : String) (sortVals : List (SortValue fl.F))
    (rf : ResultFile fl) (_existed : Bool) : Bool × ResultFile fl :=
  ResultFile.upsert { rf with search := ctx.search, collection := ctx.collection } ctx.sort id
    sortVals

def applyLocally (ctx : BucketContext fl) (version : String) (file : Option Json) :
    Mutation → Option (Option Json)
  | .upsert id doc =>
    applyAlone fl version (localUpsert ctx id (computeSortValues fl ctx.sort doc)) file
  | .remove id => applyAlone fl version (removeFrom id) file

def applyRemotely (ctx : BucketContext fl) (version : String) (file : Option Json) :
    Mutation → Option (Option Json)
  | .upsert id doc =>
    match unmarshalList fl
        ((sortValuesToJSON (computeSortValues fl ctx.sort doc)).map (Any.marshal fl)) with
    | none => none
    | some raw => applyAlone fl version (remoteUpsert ctx id (sortValuesFromJSON raw)) file
  | .remove id => applyAlone fl version (removeFrom id) file

def runMutations (apply : String → Option Json → Mutation → Option (Option Json))
    (versions : Nat → String) : List Mutation → Option Json → Option (Option Json)
  | [], file => some file
  | m :: ms, file =>
    match apply (versions 0) file m with
    | none => none
    | some file => runMutations apply (fun n => versions (n + 1)) ms file
end
section
variable {fl : Floats}
def upsertItems (items : List (BucketItem fl)) (sort : List SortSpec) (id : String)
    (sortVals : List (SortValue fl.F)) : Bool × List (BucketItem fl) :=
  let inserted (rest : List (BucketItem fl)) := insertBefore
    (fun it => compareStoredSort fl sortVals it.sort (sort.map SortSpec.dir) < 0)
    ⟨sortValuesToJSON sortVals, id⟩ rest
  match items.find? fun it => it.id == id with
  | some it =>
    if deepEqualList fl it.sort (sortValuesToJSON sortVals) then (false, items)
    else (true, inserted (items.eraseP fun it => it.id == id))
  | none => (true, inserted items)

theorem ResultFile.upsert_eq (rf : ResultFile fl) (sort : List SortSpec) (id : String)
    (sortVals : List (SortValue fl.F)) :
    rf.upsert sort id sortVals = ((upsertItems rf.items sort id sortVals).1,
        { rf with items := (upsertItems rf.items sort id sortVals).2 }) := by
  unfold ResultFile.upsert upsertItems ResultFile.find?
  cases hfind : rf.items.find? fun it => it.id == id with
  | none => rfl
  | some it =>
    by_cases hsame : deepEqualList fl it.sort (sortValuesToJSON sortVals) = true
    · simp [hsame]
    · simp [hsame, ResultFile.remove, ResultFile.find?, hfind, ResultFile.insert]

theorem ResultFile.remove_eq (rf : ResultFile fl) (id : String) :
    rf.remove id = ((rf.items.find? fun it => it.id == id).isSome,
      { rf with items := rf.items.eraseP fun it => it.id == id }) := by
  unfold ResultFile.remove ResultFile.find?
  cases hfind : rf.items.find? fun it => it.id == id with
  | none =>
    have hnone : rf.items.eraseP (fun it => it.id == id) = rf.items :=
      List.eraseP_of_forall_not fun it hit => by
        simpa using List.find?_eq_none.mp hfind it hit
    rw [hnone]
    rfl
  | some it => rfl

theorem mem_upsertItems {items : List (BucketItem fl)} {sort : List SortSpec} {id : String}
    {sortVals : List (SortValue fl.F)} {it : BucketItem fl}
    (h : it ∈ (upsertItems items sort id sortVals).2) :
    it ∈ items ∨ it = ⟨sortValuesToJSON sortVals, id⟩ := by
  unfold upsertItems at h
  cases hfind : items.find? fun it => it.id == id with
  | none =>
    rw [hfind] at h
    rcases List.mem_cons.mp ((insertBefore_perm _ _ _).mem_iff.mp h) with h | h
    · exact .inr h
    · exact .inl h
  | some found =>
    rw [hfind] at h
    simp only at h
    split at h
    · exact .inl h
    · rcases List.mem_cons.mp ((insertBefore_perm _ _ _).mem_iff.mp h) with h | h
      · exact .inr h
      · exact .inl (List.mem_of_mem_eraseP h)

theorem upsertItems_unchanged {items : List (BucketItem fl)} {sort : List SortSpec} {id : String}
    {sortVals : List (SortValue fl.F)} (h : (upsertItems items sort id sortVals).1 = false) :
    (upsertItems items sort id sortVals).2 = items := by
  unfold upsertItems at h ⊢
  cases hfind : items.find? fun it => it.id == id with
  | none => simp [hfind] at h
  | some it =>
    simp only [hfind] at h ⊢
    split at h
    · rename_i hsame
      simp [hsame]
    · cases h
end
section
variable {fl : Floats}
def Any.Stable (fl : Floats) (v : Any fl.F) : Prop := Any.unmarshal fl (v.marshal fl) = some v

theorem Any.stable_null : Any.Stable fl .null := rfl

theorem Any.stable_bool (b : Bool) : Any.Stable fl (.bool b) := rfl

theorem Any.stable_str (s : String) : Any.Stable fl (.str s) := rfl

theorem Any.stable_float {f : fl.F} (h : fl.parse (fl.marshal f) = some f) :
    Any.Stable fl (.float f) := by
  rw [Any.Stable, Any.marshal, Any.written, sortKeys, Any.unmarshal, h]
  · rfl
  all_goals simp

theorem unmarshalList_marshal {vs : List (Any fl.F)} (h : ∀ v ∈ vs, Any.Stable fl v) :
    unmarshalList fl (vs.map (Any.marshal fl)) = some vs := by
  induction vs with
  | nil => rfl
  | cons v vs ih =>
    have hv : Any.unmarshal fl (v.marshal fl) = some v := h v List.mem_cons_self
    rw [List.map_cons, unmarshalList, hv, ih fun w hw => h w (List.mem_cons_of_mem _ hw)]

structure ResultFile.Stable (rf : ResultFile fl) : Prop where
  key : ∀ v ∈ rf.key, Any.Stable fl v
  items : ∀ it ∈ rf.items, ∀ v ∈ it.sort, Any.Stable fl v

theorem bucketItems_toJson {items : List (BucketItem fl)}
    (h : ∀ it ∈ items, ∀ v ∈ it.sort, Any.Stable fl v) :
    bucketItems fl (items.map (BucketItem.toJson fl)) = some items := by
  induction items with
  | nil => rfl
  | cons it items ih =>
    have hit : BucketItem.ofJson fl (it.toJson fl) = some it := by
      simp [BucketItem.ofJson, BucketItem.toJson, Fields.get?_cons, anyListOf,
        unmarshalList_marshal (h it List.mem_cons_self), WorkItem.stringOf]
    rw [List.map_cons, bucketItems, hit, ih fun it' hit' => h it' (List.mem_cons_of_mem _ hit')]

theorem ResultFile.Stable.ofJson_toJson {rf : ResultFile fl} (h : rf.Stable) :
    ResultFile.ofJson fl (rf.toJson fl) = some rf := by
  have hkey : anyListOf fl (some (if rf.key = [] then .null
      else .arr (rf.key.map (Any.marshal fl)))) = some rf.key := by
    by_cases hempty : rf.key = []
    · rw [if_pos hempty, hempty]
      rfl
    · rw [if_neg hempty]
      exact unmarshalList_marshal h.key
  simp [ResultFile.ofJson, ResultFile.toJson, Fields.get?_cons, hkey, itemsOf,
    bucketItems_toJson h.items, WorkItem.stringOf]

theorem ResultFile.Stable.load {rf : ResultFile fl} (h : rf.Stable) :
    loadBucket fl (some (rf.toJson fl)) = some (rf, true) := by
  rw [loadBucket, h.ofJson_toJson]
  rfl
end
end Datorium
