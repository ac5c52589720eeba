
import Datorium.Engine.Frames
namespace Datorium
open Framework
section
variable {ν : Type} {host : Host ν} {faults : Faults} {e : Engine} {req : Request} {w : World ν}
def Json.content : Json → Json
  | .obj fields => .obj (fields.filter fun f => contentKey f.1)
  | v => v

structure StoredDocument (e : Engine) (collection id version : String) (doc : Json) : Prop where
  bang : doc.get? "!" = some (.str id)
  marker : doc.get? "$" = some (.str (e.cfg.currentSchemaMarker collection))
  version : doc.get? "#" = some (.str version)
  valid : ∃ schemaRaw schema, Fields.get? collection e.cfg.schemas = some schemaRaw ∧
    e.ojson.compile schemaRaw = .ok schema ∧ e.ojson.Valid schema doc.content

def Result.newVersion (res : Result) : Option String := res.version.or (res.versions.map Prod.snd)

theorem run_deliverOnce_newVersion (item : WorkItem) (result : Result) :
    ((deliverOnce e item result).run (exec host faults) w).1.newVersion = result.newVersion := by
  have h := congrArg Result.newVersion (@run_deliverOnce ν host faults e w item result)
  exact h

variable {version : String} {schemaRaw doc patched : Json} {ops : List PatchOp} {new : Json}
theorem canonical_stamped {id marker : String} {out : Json} {source stamped : JsonFields}
    (hlookup : ∀ k, Fields.get? k stamped = if k = "operationId" then none
      else Fields.get? k (stampFields id marker version source))
    (h : canonicalize e.ojson schemaRaw (.obj stamped) = .ok out) :
    out.get? "!" = some (.str id) ∧ out.get? "$" = some (.str marker) ∧
      out.get? "#" = some (.str version) ∧
      Json.Same (Json.content (.obj (Fields.remove "operationId" source))) out.content := by
  obtain ⟨fields, outFields, heq, rfl, hmeta, hsame⟩ := canonicalize_ok h
  cases heq
  have hkey : ∀ k, contentKey k = false → (Json.obj outFields).get? k = Fields.get? k stamped :=
    fun k hk => hmeta k hk
  refine ⟨?_, ?_, ?_, .trans (.of_get? fun k => ?_) hsame.symm⟩
  · rw [hkey "!" (by decide), hlookup, get?_stampFields]
    simp
  · rw [hkey "$" (by decide), hlookup, get?_stampFields]
    simp
  · rw [hkey "#" (by decide), hlookup, get?_stampFields]
    simp
  · rw [Fields.get?_filter, Fields.get?_filter, hlookup, get?_stampFields]
    by_cases hk : k ∈ metaFieldOrder
    · simp [contentKey, hk]
    · by_cases hop : k = "operationId"
      · simp [hop]
      · have hne : k ≠ "#" ∧ k ≠ "$" ∧ k ≠ "!" := by
          refine ⟨?_, ?_, ?_⟩ <;> rintro rfl <;> exact hk (by decide)
        simp [hne, hop, Fields.get?_remove_other (Ne.symm hop)]

theorem createContent_ok (h : createContent e req schemaRaw = .ok ()) :
    e.ojson.validateValueAgainstSchema schemaRaw (sortKeys (.obj (stripWriteMeta req.detail))) =
      .ok () := by
  simp only [createContent] at h
  split at h
  · cases h
  · split at h
    · cases h
    · split at h
      · cases h
      · split at h
        · cases h
        · assumption

theorem same_stripWriteMeta (detail : JsonFields) : Json.Same (.obj (stripWriteMeta detail))
      (.obj (Fields.remove "RFC6902" ((Fields.remove "operationId" detail).filter
        fun f => contentKey f.1))) := by
  refine .of_get? fun k => ?_
  rw [stripWriteMeta, Fields.get?_filter (fun k => decide
    (k ∉ ["operationId", "!", "$", "#", "RFC6902"]))]
  by_cases hr : k = "RFC6902"
  · simp [hr]
  · rw [Fields.get?_remove_other (Ne.symm hr), Fields.get?_filter]
    by_cases hop : k = "operationId"
    · simp [hop]
    · rw [Fields.get?_remove_other (Ne.symm hop)]
      simp [contentKey, metaFieldOrder, hr, hop]

theorem canonicalCreateDocument_ok {marker : String}
    (h : canonicalCreateDocument e.ojson schemaRaw req marker version = .ok doc) :
    doc.get? "!" = some (.str req.parameter) ∧ doc.get? "$" = some (.str marker) ∧
      doc.get? "#" = some (.str version) ∧
      Json.Same (Json.content (.obj (Fields.remove "operationId" req.detail))) doc.content := by
  unfold canonicalCreateDocument at h
  split at h
  · cases h
  · split at h
    · cases h
    · rename_i stamped hstamp
      obtain ⟨fields, hfields, rfl⟩ := stamp_ok hstamp
      cases hfields
      have hlookup : ∀ k, Fields.get? k (stampFields req.parameter marker version
          (Fields.remove "operationId" req.detail)) = if k = "operationId" then none
            else Fields.get? k (stampFields req.parameter marker version req.detail) := by
        intro k
        rw [get?_stampFields, get?_stampFields]
        by_cases hop : k = "operationId"
        · simp [hop]
        · simp [hop, Fields.get?_remove_other (Ne.symm hop)]
      exact canonical_stamped hlookup h

theorem CreateReady.stamped (h : CreateReady e host faults req w schemaRaw doc) :
    doc.get? "!" = some (.str req.parameter) ∧
      doc.get? "$" = some (.str (e.cfg.currentSchemaMarker req.target)) ∧
      doc.get? "#" = some (.str (req.createVersion host w)) ∧
      Json.Same (Json.content (.obj (Fields.remove "operationId" req.detail))) doc.content :=
  canonicalCreateDocument_ok h.encoded

theorem CreateReady.stored (h : CreateReady e host faults req w schemaRaw doc) (ho : e.ojson.Lawful)
    (hname : ∀ schema, e.ojson.compile schemaRaw = .ok schema → "RFC6902" ∉ schema.childNames) :
    StoredDocument e req.target req.parameter (req.createVersion host w) doc := by
  obtain ⟨hraw, -⟩ := createAdmission_ok h.admitted
  obtain ⟨schema, hcompile, -, hvalid⟩ :=
    Ojson.validateValueAgainstSchema_ok (createContent_ok h.content)
  obtain ⟨hbang, hmarker, hversion, hsame⟩ := h.stamped
  refine ⟨hbang, hmarker, hversion, schemaRaw, schema, hraw, hcompile, ?_⟩
  refine ho.same _ _ _ hsame ?_
  refine (ho.extra schema "RFC6902" _ (hname schema hcompile)).mp ?_
  exact ho.same _ _ _ ((sortKeys_same _).trans (same_stripWriteMeta req.detail)) hvalid

theorem patchResult_ok (h : patchResult e req schemaRaw doc = .ok (ops, patched)) :
    e.ojson.validateValueAgainstSchema schemaRaw (patchContent patched) = .ok () := by
  unfold patchResult at h
  split at h
  · cases h
  · split at h
    · split at h
      · cases h
      · split at h
        · cases h
        · split at h
          · cases h
          · split at h
            · cases h
            · cases h
              assumption
    · cases h

theorem patchStamped_ok {after : String} {stamped : Json} {maps : List JsonFields}
    (h : patchStamped e req ops patched after = .ok (stamped, maps)) :
    ∃ fields, patched = .obj fields ∧
      stamped = .obj (Fields.remove "operationId" (stampFields req.parameter
        (e.cfg.currentSchemaMarker req.target) after fields)) := by
  unfold patchStamped at h
  split at h
  · cases h
  · rename_i doc hstamp
    obtain ⟨fields, rfl, rfl⟩ := stamp_ok hstamp
    split at h
    · cases h
    · cases h
      exact ⟨fields, rfl, rfl⟩

theorem same_patchContent (fields : JsonFields) : Json.Same (patchContent (.obj fields))
      (Json.content (.obj (Fields.remove "operationId" fields))) := by
  refine .of_get? fun k => ?_
  rw [Fields.get?_filter]
  by_cases hop : k = "operationId"
  · simp [hop]
  · rw [Fields.get?_remove_other (Ne.symm hop), Fields.get?_remove_other (Ne.symm hop)]
    by_cases hk : k ∈ metaFieldOrder
    · simp only [metaFieldOrder, List.mem_cons, List.not_mem_nil, or_false] at hk
      rcases hk with rfl | rfl | rfl <;>
        simp [contentKey, metaFieldOrder, Fields.get?_remove_other]
    · have hne : k ≠ "#" ∧ k ≠ "$" ∧ k ≠ "!" := by
        refine ⟨?_, ?_, ?_⟩ <;> rintro rfl <;> exact hk (by decide)
      rw [Fields.get?_remove_other hne.1.symm, Fields.get?_remove_other hne.2.1.symm,
        Fields.get?_remove_other hne.2.2.symm]
      simp [contentKey, hk]

theorem patchStamped_canonical {after : String} {stamped : Json} {maps : List JsonFields}
    (hstamp : patchStamped e req ops patched after = .ok (stamped, maps))
    (henc : canonicalize e.ojson schemaRaw stamped = .ok new) :
    new.get? "!" = some (.str req.parameter) ∧
      new.get? "$" = some (.str (e.cfg.currentSchemaMarker req.target)) ∧
      new.get? "#" = some (.str after) ∧ Json.Same (patchContent patched) new.content := by
  obtain ⟨fields, rfl, rfl⟩ := patchStamped_ok hstamp
  have hlookup : ∀ k, Fields.get? k (Fields.remove "operationId" (stampFields req.parameter
      (e.cfg.currentSchemaMarker req.target) after fields)) =
        if k = "operationId" then none else Fields.get? k (stampFields req.parameter
          (e.cfg.currentSchemaMarker req.target) after fields) := by
    intro k
    by_cases hop : k = "operationId"
    · simp [hop]
    · simp [hop, Fields.get?_remove_other (Ne.symm hop)]
  obtain ⟨hbang, hmarker, hversion, hsame⟩ := canonical_stamped hlookup henc
  exact ⟨hbang, hmarker, hversion, (same_patchContent fields).trans hsame⟩

theorem PatchReady.stamped {old : Json} {ops : List JsonFields}
    (h : PatchReady e host faults req w schemaRaw old new ops) :
    new.get? "!" = some (.str req.parameter) ∧
      new.get? "$" = some (.str (e.cfg.currentSchemaMarker req.target)) ∧
      new.get? "#" = some (.str (host.ids w.issued)) ∧
      ∃ validated, e.ojson.validateValueAgainstSchema schemaRaw validated = .ok () ∧
        Json.Same validated new.content := by
  obtain ⟨patchOps, patched, stamped, hres, hstamp, henc⟩ := h.encoded
  obtain ⟨hbang, hmarker, hversion, hsame⟩ := patchStamped_canonical hstamp henc
  exact ⟨hbang, hmarker, hversion, _, patchResult_ok hres, hsame⟩

theorem PatchReady.stored_new {old : Json} {ops : List JsonFields}
    (h : PatchReady e host faults req w schemaRaw old new ops) (ho : e.ojson.Lawful) :
    StoredDocument e req.target req.parameter (host.ids w.issued) new := by
  obtain ⟨hraw, -⟩ := patchAdmission_ok h.admitted
  obtain ⟨hbang, hmarker, hversion, validated, hres, hsame⟩ := h.stamped
  obtain ⟨schema, hcompile, -, hvalid⟩ := Ojson.validateValueAgainstSchema_ok hres
  exact ⟨hbang, hmarker, hversion, schemaRaw, schema, hraw, hcompile, ho.same _ _ _ hsame hvalid⟩

theorem documentVersion_of_get (h : doc.get? "#" = some (.str version)) :
    documentVersion doc = version := by
  rw [documentVersion, h, Json.text_str]

theorem migratedDocument_version {coll : String} {doc : JsonFields}
    (h : migratedDocument e coll doc version = .ok new) : documentVersion new = version := by
  have hsorted : (sortKeys (.obj (Fields.set "#" (.str version) doc))).get? "#" =
      some (.str version) := by
    rw [get?_sortKeys_obj, Fields.get?_set_same]
    simp [sortKeys]
  apply documentVersion_of_get
  unfold migratedDocument at h
  cases hraw : Fields.get? coll e.cfg.schemas with
  | none =>
    simp only [hraw, Except.ok.injEq] at h
    rw [← h]
    exact hsorted
  | some schemaRaw =>
    simp only [hraw] at h
    obtain ⟨fields, out, hfields, rfl, hmeta, -⟩ := canonicalize_ok h
    rw [hfields] at hsorted
    exact (hmeta "#" (by decide)).trans hsorted

theorem configured_of_schema {coll : String} (h : Fields.get? coll e.cfg.schemas = some schemaRaw) :
    e.cfg.Configured coll := by
  simp [Config.Configured, h]

theorem create_success (he : e.PlainTargets)
    (hok : ((create e req).run (exec host faults) w).1.ok = true) :
    ∃ schemaRaw doc, CreateReady e host faults req w schemaRaw doc ∧
      ((create e req).run (exec host faults) w).2.files (e.live req.target req.parameter) =
        some (.json doc) ∧
      ((create e req).run (exec host faults) w).1.newVersion = some (req.createVersion host w) := by
  by_cases hready : ∃ schemaRaw doc, CreateReady e host faults req w schemaRaw doc
  swap
  · obtain ⟨res, n, hrun, hfail⟩ :=
      (idle_create fun s d h => hready ⟨s, d, h⟩).run
    rw [hrun, hfail] at hok
    cases hok
  obtain ⟨schemaRaw, doc, h⟩ := hready
  refine ⟨schemaRaw, doc, h, ?_⟩
  obtain ⟨hraw, hid⟩ := createAdmission_ok h.admitted
  have hc := configured_of_schema hraw
  rw [run_create_ready h] at hok ⊢
  by_cases hr : CreateRefused e faults req (w.tick (req.operationIdDraws + 1))
  · rw [run_createLocal_refused hr] at hok
    cases hok
  by_cases hb : CreateBlocked faults
  · obtain ⟨err, herr⟩ := run_createLocal_blocked host doc hr hb
    rw [herr] at hok
    cases hok
  by_cases hu : CreateUnfinished faults doc
  · obtain ⟨err, herr⟩ := run_createLocal_unfinished host hr hb hu
    rw [herr] at hok
    cases hok
  rw [run_createLocal_ok hr hb hu]
  have hlive : e.LivePath (e.live req.target req.parameter) := ⟨_, _, hc, hid, rfl⟩
  constructor
  · refine (keeps_deliverOnce_live he hc hid hlive _).run.trans ?_
    rw [World.put_files_other _ (e.queuePath_not_live hc hid hlive _).symm, World.put_files_same]
  · exact run_deliverOnce_newVersion _ _

theorem patch_success (he : e.PlainTargets)
    (hok : ((patch e req).run (exec host faults) w).1.ok = true) :
    ∃ schemaRaw old new ops, PatchReady e host faults req w schemaRaw old new ops ∧
      ((patch e req).run (exec host faults) w).2.files (e.live req.target req.parameter) =
        some (.json new) ∧
      ((patch e req).run (exec host faults) w).1.newVersion = some (host.ids w.issued) := by
  by_cases hready : ∃ schemaRaw old new ops, PatchReady e host faults req w schemaRaw old new ops
  swap
  · obtain ⟨res, n, hrun, hfail⟩ :=
      (idle_patch fun s o d p h => hready ⟨s, o, d, p, h⟩).run
    rw [hrun, hfail] at hok
    cases hok
  obtain ⟨schemaRaw, old, new, ops, h⟩ := hready
  refine ⟨schemaRaw, old, new, ops, h, ?_⟩
  obtain ⟨hraw, hid⟩ := patchAdmission_ok h.admitted
  have hc := configured_of_schema hraw
  rw [run_patch_ready h] at hok ⊢
  by_cases hb : PreserveBlocked e id faults req.target req.parameter
      (w.tick (1 + req.operationIdDraws))
  · obtain ⟨err, herr⟩ := run_replaceDocument_blocked host new hb
    rw [herr] at hok
    cases hok
  by_cases hw : ∃ step, faults (id (.write step)) = true
  · obtain ⟨err, herr⟩ := run_replaceDocument_unwritten host new hb hw
    rw [herr] at hok
    cases hok
  by_cases hu : Unverifiable faults id new ∨ QueueFails faults id
  · obtain ⟨err, herr⟩ := run_replaceDocument_unfinished host hb hw hu
    rw [herr] at hok
    cases hok
  rw [run_replaceDocument_ok hb hw hu]
  have hlive : e.LivePath (e.live req.target req.parameter) := ⟨_, _, hc, hid, rfl⟩
  constructor
  · refine (keeps_deliverOnce_live he hc hid hlive _).run.trans ?_
    rw [World.put_files_other _ (e.queuePath_not_live hc hid hlive _).symm, World.put_files_same]
  · exact run_deliverOnce_newVersion _ _

/-- Whatever the detail object and the operations it carries, a successful create or patch leaves
a well-formed document, under the version it answers with. -/
theorem stored_document_of_success (ho : e.ojson.Lawful) (he : e.PlainTargets)
    (hname : ∀ schemaRaw schema, Fields.get? req.target e.cfg.schemas = some schemaRaw →
      e.ojson.compile schemaRaw = .ok schema → "RFC6902" ∉ schema.childNames)
    (hcmd : req.command = .create ∨ req.command = .patch)
    (hok : ((execute e req).run (exec host faults) w).1.ok = true) :
    ∃ doc version,
      ((execute e req).run (exec host faults) w).2.files (e.live req.target req.parameter) =
        some (.json doc) ∧
      ((execute e req).run (exec host faults) w).1.newVersion = some version ∧
      StoredDocument e req.target req.parameter version doc := by
  rcases hcmd with hcmd | hcmd <;> simp only [execute, hcmd] at hok ⊢
  · obtain ⟨schemaRaw, doc, h, hfile, hversion⟩ := create_success he hok
    obtain ⟨hraw, -⟩ := createAdmission_ok h.admitted
    exact ⟨doc, _, hfile, hversion, h.stored ho fun schema => hname schemaRaw schema hraw⟩
  · obtain ⟨schemaRaw, old, new, ops, h, hfile, hversion⟩ := patch_success he hok
    exact ⟨new, _, hfile, hversion, h.stored_new ho⟩
end

/-! ## A small server

One collection whose documents need a text `title`; one other member. -/

namespace Sample
def movieSchema : SchemaEntry :=
  .mk "" .object "" none [.mk "title" .string "" none [] none] none

def pointerKey (path : String) : String := String.ofList (path.toList.drop 1)

def applyOp (doc : Json) (op : PatchOp) : Except String Json :=
  let value := (op.value.get? "value").getD .null
  if op.path = "" then .ok value else doc.setTry (pointerKey op.path) value

def ojson : Ojson where
  compile _ := .ok movieSchema
  validate entry v :=
    if "title" ∈ entry.childNames then
      match v.get? "title" with
      | some (.str _) => .ok ()
      | _ => .error "title: required field is missing"
    else .ok ()
  readPatch
    | .arr ops => .ok (ops.map fun op =>
      ⟨Json.asString (op.get? "path"), Json.asString (op.get? "from"), op⟩)
    | _ => .error "patch is not an array"
  applyPatch doc ops := ops.foldlM applyOp doc

theorem ojson_lawful : ojson.Lawful where
  same entry v w hsame hv := by
    by_cases ht : "title" ∈ entry.childNames
    · simp only [Ojson.Valid, ojson, ht, if_true] at hv ⊢
      cases hsame with
      | @obj fs gs hkey hfield =>
        cases hg : Fields.get? "title" fs with
        | none => simp [hg] at hv
        | some a =>
          cases hw : Fields.get? "title" gs with
          | none => simp [(hkey "title").mpr hw] at hg
          | some b =>
            have hab := hfield "title" a b hg hw
            cases hab <;> simp_all
      | _ => exact hv
    · simp [Ojson.Valid, ojson, ht]
  extra entry key fields hkey := by
    by_cases ht : "title" ∈ entry.childNames
    · have hne : key ≠ "title" := by
        rintro rfl
        exact hkey ht
      simp only [Ojson.Valid, ojson, ht, if_true, Json.get?_obj, Fields.get?_remove_other hne]
    · simp [Ojson.Valid, ojson, ht]

def config : Config where
  version := 1
  baseURLs := [("beta", "http://beta")]
  shardMap := [("00-FF", ⟨"alpha", ["alpha", "beta"], []⟩)]
  schemas := [("Movies", .obj [])]
  schemaVersions := [("Movies", 1)]
  schemaUpdateHistory := []
  plainNames collection h := by
    by_cases hc : "Movies" = collection
    · subst hc
      decide
    · simp [Fields.get?_cons, hc] at h

def server : Engine where
  dataDir := ["data"]
  serverName := "alpha"
  cfg := config
  ojson := ojson
  floats := floats
  replicates := true
  distributes := false
  readState := none

def host : Host Unit where
  ids n := "v" ++ toString n
  push _ _ s := (false, s)
  fanOut _ _ s := (.ok true, s)
  index _ _ _ _ s := (.ok (), s)

theorem host_injective : Function.Injective host.ids := by
  intro n m h
  have hdigits : Nat.toDigits 10 n = Nat.toDigits 10 m := by
    have hlist := congrArg String.toList h
    simpa [host] using hlist
  have hvalue := congrArg (fun ds => Nat.ofDigitChars 10 ds 0) hdigits
  simpa [Nat.ofDigitChars_ten_toDigits] using hvalue

theorem host_ids_ne (n : Nat) : host.ids n ≠ "" := by
  intro h
  have hlist := congrArg String.toList h
  simp [host] at hlist

def emptyWorld : World Unit := ⟨fun _ => none, 0, ()⟩

theorem alien_id : DocumentId "alien" := .of_valid (by decide +kernel)

def createRequest : Request :=
  ⟨.create, "Movies", "alien", [("title", .str "Alien")], true⟩

def patchRequest (version : String) : Request :=
  ⟨.patch, "Movies", "alien", [("#", .str version), ("$", .str "Movies:1"),
      ("RFC6902", .arr [.obj [("op", .str "replace"), ("path", .str ""),
        ("value", .obj [("title", .str "Aliens"), ("#", .num "7")])]])], true⟩

def deleteRequest (version : String) : Request :=
  ⟨.delete, "Movies", "alien", [("#", .str version)], true⟩

def readRequest : Request := ⟨.read, "Movies", "alien", [], true⟩

def after (req : Request) (w : World Unit) : World Unit :=
  ((execute server req).run (exec host .none) w).2

theorem config_assignment (s : UInt8) :
    config.assignmentForSlot s = ⟨"alpha", ["alpha", "beta"], []⟩ := by
  have hrange : parseRange "00-FF" = some (0, 255) := by decide +kernel
  have hs : s.toNat ≤ 255 := Nat.le_of_lt_succ s.toNat_lt
  simp [Config.assignmentForSlot, config, hrange, hs]

theorem server_targets (id : String) : server.targets id = ["beta"] := by
  have ha : server.cfg.assignmentForSlot (slot id) = ⟨"alpha", ["alpha", "beta"], []⟩ :=
    config_assignment (slot id)
  rw [Engine.targets, ha]
  decide

theorem server_plainTargets : server.PlainTargets := by
  intro id t ht
  rw [server_targets, List.mem_singleton] at ht
  subst ht
  decide
end Sample
open Sample
theorem stored_document_of_root_patch : ∃ doc version, (after (patchRequest "v1")
        (after createRequest emptyWorld)).files (server.live "Movies" "alien") = some (.json doc) ∧
      ((execute server (patchRequest "v1")).run (exec host .none)
        (after createRequest emptyWorld)).1.newVersion = some version ∧
      StoredDocument server "Movies" "alien" version doc :=
  stored_document_of_success ojson_lawful server_plainTargets
    (fun _ schema _ h => by cases h; decide) (.inr rfl) (by decide +kernel)
end Datorium
