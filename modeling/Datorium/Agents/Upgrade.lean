
import Datorium.Engine.Config
import Datorium.SchemaPatch.Documents
/-! # Document migration -/
namespace Datorium
open Framework
def afterLastColon (marker : List Char) : Option (List Char) :=
  if ':' ∈ marker then some (marker.reverse.takeWhile (· ≠ ':')).reverse else none

def docVersion (doc : JsonFields) : Option Int :=
  (afterLastColon (Json.asString (Fields.get? "$" doc)).toList).bind atoi

def needsMigration (cfg : Config) (collection : String) (doc : JsonFields) : Bool :=
  match docVersion doc with
  | none => false
  | some current => current < cfg.schemaVersion collection

/-- The loop of `MigrateDocument`: `steps` update lists from version `v` on. -/
def replayUpdates (fl : Floats) (collection : String) (history : Fields Int Json) :
    (steps : Nat) → (v : Int) → Fields String (Any fl.F) → Except String (Fields String (Any fl.F))
  | 0, _, doc => .ok doc
  | steps + 1, v, doc =>
    match Fields.get? v history with
    | none =>
      .error ("missing persisted update list for " ++ collection ++ " schema version " ++
        toString v ++ "; cannot safely migrate this document")
    | some rawSpec =>
      match parseUpdateSpec fl rawSpec with
      | .error err =>
        .error ("parse persisted update list for " ++ collection ++ " version " ++
          toString v ++ ": " ++ err)
      | .ok spec =>
        match applyToDocument fl doc spec with
        | .error err =>
          .error ("apply update list for " ++ collection ++ " version " ++ toString v ++
            ": " ++ err)
        | .ok doc => replayUpdates fl collection history steps (v + 1) doc

def migrateDocument (fl : Floats) (cfg : Config) (collection : String) (doc : JsonFields)
    (targetVersion : Nat) : Except String (Fields String (Any fl.F)) :=
  match docVersion doc with
  | none => .error "document has no valid $ schema marker to migrate from"
  | some current =>
    if targetVersion ≤ current then .ok (Any.ofJsonFields doc)
    else
      let history := (Fields.get? collection cfg.schemaUpdateHistory).getD []
      match replayUpdates fl collection history (targetVersion - current).toNat (current + 1)
          (Any.ofJsonFields doc) with
      | .error err => .error err
      | .ok migrated =>
        .ok (Fields.set "$" (.str (collection ++ ":" ++ toString targetVersion)) migrated)

def migrateToCurrent (e : Engine) (collection : String) (doc : JsonFields) :
    Except String JsonFields :=
  (migrateDocument e.floats e.cfg collection doc (e.cfg.schemaVersion collection)).map
    (writtenFields e.floats)

/-- The document `ApplyToStoredDocument` writes. -/
def migratedDocument (e : Engine) (collection : String) (doc : JsonFields) (version : String) :
    Except String Json :=
  let stamped := Fields.set "#" (.str version) doc
  match Fields.get? collection e.cfg.schemas with
  | some schemaRaw => canonicalizeMap e.ojson schemaRaw stamped
  | none => .ok (encodeMap stamped)

inductive CommitError where
  | document (err : FsError)
  | queueEntry (err : FsError)

def CommitError.cause : CommitError → FsError
  | document err => err
  | queueEntry err => err

def replaceDocument (place : Site → Site) (e : Engine) (collection id : String) (doc : Json) :
    Prog (Except CommitError Unit) := do
  match ← preservePreviousIfAbsent place e.dataDir collection id with
  | .error err => pure (.error (.document err))
  | .ok () =>
    match ← writeDocumentJSONVerified place (e.live collection id) doc with
    | .error err => pure (.error (.document err))
    | .ok () =>
      match ← enqueueChange place e.dataDir collection id .patch with
      | .error err => pure (.error (.queueEntry err))
      | .ok () => pure (.ok ())

def applyToStoredDocument (e : Engine) (collection id : String) : Prog (Except FsError Bool) := do
  match ← readDocumentJSON (.migration .readLive) (e.live collection id) with
  | .error err => pure (if err.isNotExist then .ok false else .error err)
  | .ok doc =>
    if needsMigration e.cfg collection doc = false then pure (.ok false)
    else
      match migrateToCurrent e collection doc with
      | .error err => pure (.error (.other err))
      | .ok migrated =>
        match ← newId (.migration .version) with
        | .error err => pure (.error err)
        | .ok version =>
          match migratedDocument e collection migrated version with
          | .error err => pure (.error (.other err))
          | .ok newDoc =>
            match ← replaceDocument .migration e collection id newDoc with
            | .error err => pure (.error err.cause)
            | .ok () => pure (.ok true)

def migrateOnAccess (e : Engine) (collection id : String) (doc : JsonFields) :
    Prog (Except FsError JsonFields) :=
  if needsMigration e.cfg collection doc = false then pure (.ok doc)
  else do
    match ← applyToStoredDocument e collection id with
    | .error err => pure (.error err)
    | .ok _ => readDocumentJSON .reread (e.live collection id)

def staleDocumentIDs (e : Engine) (collection : String) : List String → Prog (List String)
  | [] => pure []
  | id :: ids => do
      match ← readDocumentJSON .scan (e.live collection id) with
      | .error _ => staleDocumentIDs e collection ids
      | .ok doc => do
          let rest ← staleDocumentIDs e collection ids
          pure (if needsMigration e.cfg collection doc then id :: rest else rest)

/-- The loop of `RunOnce` over the documents of a collection, to the first migration that changes a
document or fails. -/
def migrateFirst (e : Engine) (held : String → Bool) (collection : String) :
    List String → Prog (Option (Except FsError Unit))
  | [] => pure none
  | id :: ids =>
    if held (collection ++ "/" ++ id) then migrateFirst e held collection ids
    else do
      match ← applyToStoredDocument e collection id with
      | .error err => pure (some (.error err))
      | .ok true => pure (some (.ok ()))
      | .ok false => migrateFirst e held collection ids

/-- The loop of `RunOnce` over the collections. -/
def runCollections (e : Engine) (held : String → Bool) :
    List (String × Except FsError (List String)) → Prog (Bool × Except FsError Unit)
  | [] => pure (false, .ok ())
  | (_, .error _) :: collections => runCollections e held collections
  | (collection, .ok names) :: collections =>
    if e.cfg.schemaVersion collection = 0 then runCollections e held collections
    else do
      let stale ← staleDocumentIDs e collection names
      match ← migrateFirst e held collection stale with
      | some r => pure (true, r)
      | none => runCollections e held collections

def runOnce (e : Engine) (held : String → Bool)
    (listing : Except FsError (List (String × Except FsError (List String)))) :
    Prog (Bool × Except FsError Unit) :=
  match listing with
  | .error err => pure (false, .error err)
  | .ok collections => runCollections e held collections

theorem afterLastColon_append (head tail : List Char) (h : ':' ∉ tail) :
    afterLastColon (head ++ ':' :: tail) = some tail := by
  have htake : (tail.reverse ++ ':' :: head.reverse).takeWhile (· ≠ ':') = tail.reverse := by
    rw [List.takeWhile_append_of_pos]
    · simp
    · intro c hc
      simp only [List.mem_reverse] at hc
      have hne : c ≠ ':' := by
        rintro rfl
        exact h hc
      simpa using hne
  simp only [afterLastColon, List.mem_append, List.mem_cons, true_or, or_true, if_true,
    List.reverse_append, List.reverse_cons, List.append_assoc, List.singleton_append]
  simpa using congrArg List.reverse htake

theorem needsMigration_current {cfg : Config} {coll : String} {doc : JsonFields}
    (h : Fields.get? "$" doc = some (.str (cfg.currentSchemaMarker coll))) :
    needsMigration cfg coll doc = false := by
  have hdigit : ∀ c ∈ Nat.toDigits 10 (cfg.schemaVersion coll), c.isDigit = true :=
    fun c hc => Nat.isDigit_of_mem_toDigits (by decide) (by decide) hc
  have hcolon : ':' ∉ Nat.toDigits 10 (cfg.schemaVersion coll) :=
    fun hc => absurd (hdigit _ hc) (by decide)
  have hlist : (cfg.currentSchemaMarker coll).toList =
      coll.toList ++ ':' :: Nat.toDigits 10 (cfg.schemaVersion coll) := by
    simp [Config.currentSchemaMarker]
  have hatoi : ∀ v, atoi (Nat.toDigits 10 (cfg.schemaVersion coll)) = some v →
      v = cfg.schemaVersion coll := by
    intro v hv
    unfold atoi at hv
    have hsigned : ∀ c, c.isDigit = false → ∀ ds,
        Nat.toDigits 10 (cfg.schemaVersion coll) ≠ c :: ds := by
      intro c hc ds heq
      have := hdigit c (heq ▸ List.mem_cons_self)
      rw [hc] at this
      cases this
    split at hv
    · rename_i ds heq
      exact absurd heq (hsigned '-' (by decide) ds)
    · rename_i ds heq
      exact absurd heq (hsigned '+' (by decide) ds)
    · simp only [parseDigits_toDigits, Option.filter_eq_some_iff, Option.some.injEq] at hv
      exact hv.1.symm
  rw [needsMigration, docVersion, h, Json.asString_str, hlist, afterLastColon_append _ _ hcolon]
  simp only [Option.bind_some]
  cases ha : atoi (Nat.toDigits 10 (cfg.schemaVersion coll)) with
  | none => rfl
  | some v => simp [hatoi v ha]
end Datorium
