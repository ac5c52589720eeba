
import Datorium.Engine.Store
namespace Datorium
open Framework World
section
variable {ν : Type} {host : Host ν} {e : Engine} {req : Request} {w w' : World ν} {s : Store}
@[simp] theorem observe_fail (err : ApiError) : (req.fail err).observe = .failed err.code := rfl

theorem observe_deliverOnce (item : WorkItem) (result : Result) :
    ((deliverOnce e item result).run (exec host .none) w).1.observe = result.observe := by
  have h := congrArg Result.observe (@run_deliverOnce ν host .none e w item result)
  exact h

theorem encodedFields_error {out : Except String Json} {err : String} (h : out = .error err) :
    encodedFields out = .error .documentEncodeFailed := by
  rw [h]
  rfl

theorem keep_deliverOnce (he : e.PlainTargets) {item : WorkItem}
    (hc : e.cfg.Configured item.collection) (hid : DocumentId item.id) (result : Result) {p : Path}
    (hp : e.LivePath p) :
    ((deliverOnce e item result).run (exec host .none) w).2.files p = w.files p :=
  (keeps_deliverOnce_live he hc hid hp result).run

theorem Sim.committed (h : Sim e host w s) (he : e.PlainTargets) {w₁ : World ν} {item : WorkItem}
    {result : Result} {change : Command} {n : Nat} {doc : JsonFields}
    (hwell : WellStored e (item.collection, item.id) ⟨host.ids n, doc⟩)
    (hissued : w.issued ≤ w₁.issued) (hn : n < w₁.issued)
    (hother : ∀ p, e.LivePath p → p ≠ e.live item.collection item.id → w₁.files p = w.files p) :
    Sim e host ((deliverOnce e item result).run (exec host .none)
        ((w₁.put (e.live item.collection item.id) (some (.json (.obj doc)))).put
          (queuePath e.dataDir change item.collection item.id) (some .marker))).2
      (s.install (item.collection, item.id) (host.ids n) doc) := by
  have hc : e.cfg.Configured item.collection := hwell.configured
  have hid : DocumentId item.id := hwell.accepted.documentId
  have hlive : e.LivePath (e.live item.collection item.id) := ⟨_, _, hc, hid, rfl⟩
  have hqueue : ∀ p, e.LivePath p → p ≠ queuePath e.dataDir change item.collection item.id :=
    fun p hp => (e.queuePath_not_live hc hid hp change).symm
  have hdrawn := @issued_le_run ν Result host .none (deliverOnce e item result)
    ((w₁.put (e.live item.collection item.id) (some (.json (.obj doc)))).put
      (queuePath e.dataDir change item.collection item.id) (some .marker))
  simp only [put_issued] at hdrawn
  apply h.install (Nat.le_trans hissued hdrawn) (Nat.lt_of_lt_of_le hn hdrawn) hwell
  · rw [keep_deliverOnce he hc hid _ hlive, put_files_other _ (hqueue _ hlive), put_files_same]
  · intro p hp hne
    rw [keep_deliverOnce he hc hid _ hp, put_files_other _ (hqueue _ hp), put_files_other _ hne]
    exact hother p hp hne

structure Matched (e : Engine) (host : Host ν) (out : Observation × Store)
    (ran : Result × World ν) : Prop where
  answer : out.1 = ran.1.observe
  sim : Sim e host ran.2 out.2

theorem Matched.refused (h : Sim e host w s) {out : Observation × Store} {ran : Result × World ν}
    {code : ErrorCode} {res : Result} {n : Nat} (hout : out = (.failed code, s))
    (hran : ran = (res, w.tick n)) (hcode : res.observe = .failed code) :
    Matched e host out ran := by
  subst hout hran
  exact ⟨hcode.symm, h.drawn_world (drawn_tick w n)⟩

theorem createAdmission_owned (he : e.OwnsEverySlot) (req : Request) :
    createAdmission e req = match Fields.get? req.target e.cfg.schemas with
      | none => .error { req.fail collectionNotFound with id := none }
      | some schemaRaw =>
        if req.parameter = "" ∨ req.parameter = "null" then
          .error (req.fail
            { code := .documentIdRequired,
              message := "create requires a client-supplied document id; server-side id " ++
                "generation is not supported" })
        else if ¬ AcceptedId req.parameter then .error (req.fail invalidDocumentId)
        else .ok schemaRaw := by
  simp only [createAdmission, checkRouting_owned he req]
  rfl

theorem CreateReady.wellStored {schemaRaw : Json} {doc : JsonFields}
    (h : CreateReady e host .none req w schemaRaw (.obj doc)) (hid : AcceptedId req.parameter) :
    WellStored e (req.target, req.parameter) ⟨req.createVersion host w, doc⟩ := by
  obtain ⟨hraw, -⟩ := createAdmission_ok h.admitted
  obtain ⟨hbang, hmarker, hversion, -⟩ := h.stamped
  exact ⟨configured_of_schema hraw, hid, hversion, hbang, needsMigration_current hmarker⟩

theorem CreateReady.obj {schemaRaw doc : Json} (h : CreateReady e host .none req w schemaRaw doc) :
    ∃ fields, doc = .obj fields := by
  have henc := h.encoded
  unfold canonicalCreateDocument at henc
  split at henc
  · cases henc
  · split at henc
    · cases henc
    · obtain ⟨_, fields, _, rfl, _⟩ := canonicalize_ok henc
      exact ⟨fields, rfl⟩

theorem create_matched_ready (he : SoleOwner e) (h : Sim e host w s) {schemaRaw doc : Json}
    (hready : CreateReady e host .none req w schemaRaw doc) (hid : AcceptedId req.parameter)
    (hcreated : createdDocument e req (req.createVersion host w) = encodedFields (.ok doc)) :
    Matched e host (Store.create e (req.createVersion host w) s req)
      ((create e req).run (exec host .none) w) := by
  obtain ⟨fields, rfl⟩ := hready.obj
  have hspec : createdDocument e req (req.createVersion host w) = .ok fields := hcreated
  have hwell := hready.wellStored hid
  have hc : e.cfg.Configured req.target := hwell.configured
  have hfile := h.file hc hid
  rw [run_create_ready hready]
  cases hdoc : s.docs (req.target, req.parameter) with
  | some entry =>
    have hr : CreateRefused e .none req (w.tick (req.operationIdDraws + 1)) := by
      refine ⟨rfl, ?_⟩
      rw [tick_files, hfile, hdoc]
      simp
    rw [run_createLocal_refused hr]
    exact .refused h (by simp [Store.create, hspec, hdoc]; rfl) rfl rfl
  | none =>
    have hr : ¬ CreateRefused e .none req (w.tick (req.operationIdDraws + 1)) := by
      rintro ⟨-, hne⟩
      rw [tick_files, hfile, hdoc] at hne
      simp at hne
    rw [run_createLocal_ok hr (by simp [CreateBlocked]) (by
      rintro (hv | hq)
      · exact not_unverifiable_none _ _ hv
      · exact not_queueFails_none _ hq)]
    refine ⟨?_, ?_⟩
    · rw [observe_deliverOnce]
      simp [Store.create, hspec, hdoc]
      rfl
    · simp only [Store.create, hspec, hdoc]
      exact h.committed he.targets hwell (Nat.le_add_right _ _)
        (by rw [tick_issued]; omega) fun p _ _ => rfl

theorem create_matched (he : SoleOwner e) (h : Sim e host w s) :
    Matched e host (Store.create e (req.createVersion host w) s req)
      ((create e req).run (exec host .none) w) := by
  have hadm := createAdmission_owned he.owns req
  have hrun : (operationIdOr req).run (exec host .none) w = _ :=
    run_operationIdOr_ok fun _ => rfl
  cases hraw : Fields.get? req.target e.cfg.schemas with
  | none =>
    simp only [hraw] at hadm
    refine .refused h (n := 0) (by simp [Store.create, createdDocument, hraw]; rfl)
      (by simp [create, hadm]; rfl) rfl
  | some schemaRaw =>
    simp only [hraw] at hadm
    by_cases hreq : req.parameter = "" ∨ req.parameter = "null"
    · rw [if_pos hreq] at hadm
      exact .refused h (n := 0) (by simp [Store.create, createdDocument, hraw, hreq]; rfl)
        (by simp [create, hadm]; rfl) rfl
    rw [if_neg hreq] at hadm
    by_cases hid : AcceptedId req.parameter
    swap
    · rw [if_pos hid] at hadm
      exact .refused h (n := 0) (by simp [Store.create, createdDocument, hraw, hreq, hid]; rfl)
        (by simp [create, hadm]; rfl) rfl
    rw [if_neg (not_not.mpr hid)] at hadm
    cases hcon : createContent e req schemaRaw with
    | error err =>
      exact .refused h (n := req.operationIdDraws)
        (by simp [Store.create, createdDocument, hraw, hreq, hid, hcon]; rfl)
        (by simp [create, hadm, hrun, hcon]; rfl) rfl
    | ok u =>
      cases henc : canonicalCreateDocument e.ojson schemaRaw req
          (e.cfg.currentSchemaMarker req.target)
          (host.ids (w.issued + req.operationIdDraws)) with
      | error err =>
        have hspec : createdDocument e req (req.createVersion host w) =
            .error .documentEncodeFailed := by
          simp only [createdDocument, hraw, hreq, hid, hcon, not_true, if_false]
          exact encodedFields_error henc
        exact .refused h (n := req.operationIdDraws + 1) (by simp [Store.create, hspec]; rfl) (by
            simp [create, hadm, hrun, hcon, run_newId_none .version, henc]
            rfl) rfl
      | ok doc =>
        have hready : CreateReady e host .none req w schemaRaw doc :=
          ⟨hadm, fun _ => rfl, hcon, rfl, henc⟩
        refine create_matched_ready he h hready hid ?_
        simp only [createdDocument, hraw, hreq, hid, hcon, not_true, if_false]
        exact congrArg encodedFields henc

theorem patchAdmission_owned (he : e.OwnsEverySlot) (req : Request) : patchAdmission e req =
      if ¬ AcceptedId req.parameter then .error (req.fail invalidDocumentId)
      else match Fields.get? req.target e.cfg.schemas with
        | none => .error (req.fail collectionNotFound)
        | some schemaRaw => .ok schemaRaw := by
  simp only [patchAdmission, checkRouting_owned he req]
  rfl

theorem PatchReady.wellStored {schemaRaw old : Json} {new : JsonFields} {ops : List JsonFields}
    (h : PatchReady e host .none req w schemaRaw old (.obj new) ops)
    (hid : AcceptedId req.parameter) :
    WellStored e (req.target, req.parameter) ⟨host.ids w.issued, new⟩ := by
  obtain ⟨hraw, -⟩ := patchAdmission_ok h.admitted
  obtain ⟨hbang, hmarker, hversion, -⟩ := h.stamped
  exact ⟨configured_of_schema hraw, hid, hversion, hbang, needsMigration_current hmarker⟩

theorem PatchReady.obj {schemaRaw old new : Json} {ops : List JsonFields}
    (h : PatchReady e host .none req w schemaRaw old new ops) : ∃ fields, new = .obj fields := by
  obtain ⟨_, _, _, _, _, henc⟩ := h.encoded
  obtain ⟨_, fields, _, rfl, _⟩ := canonicalize_ok henc
  exact ⟨fields, rfl⟩

theorem preserved_files_live {c id : String} (hc : e.cfg.Configured c) (hid : DocumentId id)
    {p : Path} (hp : e.LivePath p) (hne : p ≠ e.live c id) :
    (w.preserved e c id).files p = w.files p := by
  unfold preserved
  split
  · exact move_files_other w hne (e.previous_not_live hc hid hp).symm
  · rfl

theorem patchGuard_stored {entry : Entry String JsonFields}
    (hwell : WellStored e (req.target, req.parameter) entry) (hne : entry.version ≠ "") :
    patchGuard e req (.obj entry.content) = if req.expectedVersion ≠ entry.version then
        .error (versionMismatch req.expectedVersion entry.version)
      else if Json.asString (Fields.get? "$" req.detail) ≠ e.cfg.currentSchemaMarker req.target then
        .error (schemaMismatch (e.cfg.currentSchemaMarker req.target)
          (Json.asString (Fields.get? "$" req.detail))) else .ok () := by
  have hversion : (Json.obj entry.content).get? "#" = some (.str entry.version) := hwell.version
  have hbang : (Json.obj entry.content).get? "!" = some (.str req.parameter) := hwell.bang
  simp only [patchGuard, hversion, hbang, Json.asString_str]
  by_cases hv : req.expectedVersion = entry.version
  · have hempty : ¬ req.expectedVersion = "" := by
      rw [hv]
      exact hne
    simp [hv, hne]
  · simp [hv]

theorem patch_matched_ready (he : SoleOwner e) (h : Sim e host w s) {schemaRaw new : Json}
    {ops : List JsonFields} {entry : Entry String JsonFields}
    (hdoc : s.docs (req.target, req.parameter) = some entry)
    (hversion : req.expectedVersion = entry.version)
    (hready : PatchReady e host .none req w schemaRaw (.obj entry.content) new ops)
    (hid : AcceptedId req.parameter)
    (hpatched : patchedDocument e req schemaRaw entry.content (host.ids w.issued) =
      encodedFields (.ok new)) :
    Matched e host (Store.patch e (host.ids w.issued) s req)
      ((patch e req).run (exec host .none) w) := by
  obtain ⟨fields, rfl⟩ := hready.obj
  have hspec : patchedDocument e req schemaRaw entry.content (host.ids w.issued) = .ok fields :=
    hpatched
  have hwell := hready.wellStored hid
  have hc : e.cfg.Configured req.target := hwell.configured
  obtain ⟨hraw, -⟩ := patchAdmission_ok hready.admitted
  have hstore : Store.patch e (host.ids w.issued) s req =
      (.patched entry.version (host.ids w.issued),
        s.install (req.target, req.parameter) (host.ids w.issued) fields) := by
    simp [Store.patch, hid, hraw, hdoc, hversion, hspec]
  rw [run_patch_ready hready, hstore, hready.replaced]
  refine ⟨?_, ?_⟩
  · rw [observe_deliverOnce, ← hversion]
    rfl
  · have hissued : (preserved e req.target req.parameter
        (w.tick (1 + req.operationIdDraws))).issued = w.issued + (1 + req.operationIdDraws) := by
      unfold preserved
      split <;> rfl
    apply h.committed he.targets hwell
    · rw [hissued]
      exact Nat.le_add_right _ _
    · rw [hissued]
      omega
    · intro p hp hne
      exact preserved_files_live hc hid.documentId hp hne

theorem patch_matched (he : SoleOwner e) (hids : FreshIds host) (h : Sim e host w s) :
    Matched e host (Store.patch e (host.ids w.issued) s req)
      ((patch e req).run (exec host .none) w) := by
  have hadm := patchAdmission_owned he.owns req
  by_cases hid : AcceptedId req.parameter
  swap
  · rw [if_pos hid] at hadm
    exact .refused h (n := 0) (by simp [Store.patch, hid]; rfl) (by simp [patch, hadm]; rfl) rfl
  rw [if_neg (not_not.mpr hid)] at hadm
  cases hraw : Fields.get? req.target e.cfg.schemas with
  | none =>
    simp only [hraw] at hadm
    exact .refused h (n := 0) (by simp [Store.patch, hid, hraw]; rfl)
      (by simp [patch, hadm]; rfl) rfl
  | some schemaRaw =>
    simp only [hraw] at hadm
    have hfile := h.file (configured_of_schema hraw) hid
    cases hdoc : s.docs (req.target, req.parameter) with
    | none =>
      rw [hdoc] at hfile
      have hread : w.readValue false (e.live req.target req.parameter) = .error .notExist := by
        simp [readValue, hfile]
      exact .refused h (n := 0) (by simp [Store.patch, hid, hraw, hdoc]; rfl)
        (by simp [patch, hadm, patchLocal, hread]; rfl) rfl
    | some entry =>
      rw [hdoc] at hfile
      obtain ⟨hwell, -⟩ := h.stored _ _ hdoc
      have hguard := patchGuard_stored hwell (h.version_ne_empty hids hdoc)
      have hread : w.readValue false (e.live req.target req.parameter) =
          .ok (.obj entry.content) := readValue_eq_ok.mpr ⟨rfl, hfile⟩
      by_cases hv : req.expectedVersion = entry.version
      swap
      · rw [if_pos hv] at hguard
        exact .refused h (n := 0) (by simp [Store.patch, hid, hraw, hdoc, hv]; rfl)
          (by simp [patch, hadm, patchLocal, hread, patchStored, hguard]; rfl) rfl
      rw [if_neg (not_not.mpr hv)] at hguard
      by_cases hm : Json.asString (Fields.get? "$" req.detail) =
          e.cfg.currentSchemaMarker req.target
      swap
      · rw [if_pos hm] at hguard
        exact .refused h (n := 0)
          (by simp [Store.patch, hid, hraw, hdoc, hv, patchedDocument, hm]; rfl)
          (by simp [patch, hadm, patchLocal, hread, patchStored, hguard]; rfl) rfl
      rw [if_neg (not_not.mpr hm)] at hguard
      cases hres : patchResult e req schemaRaw (.obj entry.content) with
      | error err =>
        exact .refused h (n := 0)
          (by simp [Store.patch, hid, hraw, hdoc, hv, patchedDocument, hm, hres]; rfl)
          (by simp [patch, hadm, patchLocal, hread, patchStored, hguard, hres]; rfl) rfl
      | ok result =>
        cases hstamp : patchStamped e req result.1 result.2 (host.ids w.issued) with
        | error err =>
          exact .refused h (n := 1) (by
              simp [Store.patch, hid, hraw, hdoc, hv, patchedDocument, hm, hres, hstamp]
              rfl)
            (by
              simp [patch, hadm, patchLocal, hread, patchStored, hguard, hres,
                run_newId_none .version, hstamp]
              rfl) rfl
        | ok out =>
          have hrun : (operationIdOr req).run (exec host .none) (w.tick 1) = _ :=
            run_operationIdOr_ok fun _ => rfl
          cases henc : canonicalize e.ojson schemaRaw out.1 with
          | error err =>
            exact .refused h (n := 1 + req.operationIdDraws) (by
                simp [Store.patch, hid, hraw, hdoc, hv, patchedDocument, hm, hres,
                  hstamp, encodedFields_error henc]
                rfl)
              (by
                simp [patch, hadm, patchLocal, hread, patchStored, hguard, hres,
                  run_newId_none .version, hstamp, hrun, patchCommit, henc]
                rfl) rfl
          | ok new =>
            refine patch_matched_ready he h hdoc hv ⟨hadm, rfl, hfile, hguard, rfl,
              fun _ => rfl, _, _, _, hres, hstamp, henc⟩ hid ?_
            simp only [patchedDocument, hm, ne_eq, not_true, if_false, hres, hstamp, henc]

theorem deleteAdmission_owned (he : e.OwnsEverySlot) (req : Request) : deleteAdmission e req =
      if ¬ AcceptedId req.parameter then .error (req.fail invalidDocumentId) else .ok () := by
  simp only [deleteAdmission, checkRouting_owned he req]
  rfl

theorem deleted_files_live {p : Path} (hc : e.cfg.Configured req.target)
    (hid : DocumentId req.parameter) (hp : e.LivePath p)
    (hne : p ≠ e.live req.target req.parameter) :
    (w.deleted e .none req).files p = w.files p := by
  obtain ⟨hlfs, hops⟩ := e.attachments_not_live hc hid hp
  rw [deleted_files (e.manifest_not_live hc hid hp).symm hlfs hops]
  exact vacate_files hne (e.previous_not_live hc hid hp).symm _

theorem deleted_files_self (hc : e.cfg.Configured req.target) (hid : DocumentId req.parameter) :
    (w.deleted e .none req).files (e.live req.target req.parameter) = none := by
  have hp : e.LivePath (e.live req.target req.parameter) := ⟨_, _, hc, hid, rfl⟩
  obtain ⟨hlfs, hops⟩ := e.attachments_not_live hc hid hp
  rw [deleted, prune_files, if_neg hops, prune_files, if_neg hlfs,
    put_files_other _ (e.manifest_not_live hc hid hp).symm]
  exact vacate_live (documentPath_ne_previousDocumentPath hid) _

theorem delete_matched (he : SoleOwner e) (hids : FreshIds host) (h : Sim e host w s)
    (hc : e.cfg.Configured req.target) :
    Matched e host (Store.delete s req) ((delete e req).run (exec host .none) w) := by
  have hadm := deleteAdmission_owned he.owns req
  by_cases hid : AcceptedId req.parameter
  swap
  · rw [if_pos hid] at hadm
    exact .refused h (n := 0) (by simp [Store.delete, hid]; rfl) (by simp [delete, hadm]; rfl) rfl
  rw [if_neg (not_not.mpr hid)] at hadm
  have hfile := h.file hc hid
  cases hdoc : s.docs (req.target, req.parameter) with
  | none =>
    rw [hdoc] at hfile
    have hread : w.readFields false (e.live req.target req.parameter) = .error .notExist := by
      simp [readFields, readValue, hfile]
    exact .refused h (n := 0) (by simp [Store.delete, hid, hdoc]; rfl)
      (by simp [delete, hadm, deleteLocal, hread]; rfl) rfl
  | some entry =>
    rw [hdoc] at hfile
    obtain ⟨hwell, -⟩ := h.stored _ _ hdoc
    have hread : w.readFields false (e.live req.target req.parameter) = .ok entry.content :=
      readFields_eq_ok.mpr ⟨rfl, hfile⟩
    have hne := h.version_ne_empty hids hdoc
    by_cases hv : req.expectedVersion = entry.version
    swap
    · have hguard : deleteGuard req entry.content =
          .error (versionMismatch req.expectedVersion entry.version) := by
        simp [deleteGuard, hwell.version, hv]
      exact .refused h (n := 0) (by simp [Store.delete, hid, hdoc, hv]; rfl)
        (by simp [delete, hadm, deleteLocal, hread, hguard]; rfl) rfl
    have hguard : deleteGuard req entry.content = .ok () := by
      simp [deleteGuard, hwell.version, hv, hne]
    have hready : DeleteReady e .none req w entry.content :=
      ⟨hadm, rfl, hfile, hguard, fun _ => rfl⟩
    have hspec : Store.delete s req =
        (.deleted entry.version, s.remove (req.target, req.parameter)) := by
      simp [Store.delete, hid, hdoc, hv]
    have hstored : (w.tick req.operationIdDraws).files (e.live req.target req.parameter) =
        some (.json (.obj entry.content)) := hfile
    rw [run_delete_ready hready, run_deleteCommit_ok rfl hstored
      (by simp [DeleteUnfinished, QueueFails]), hspec]
    refine ⟨?_, ?_⟩
    · rw [observe_deliverOnce, ← hv]
      rfl
    · have hlive : e.LivePath (e.live req.target req.parameter) :=
        ⟨_, _, hc, hid.documentId, rfl⟩
      have hqueue : ∀ p, e.LivePath p → p ≠ queuePath e.dataDir .delete req.target req.parameter :=
        fun p hp => (e.queuePath_not_live hc hid.documentId hp .delete).symm
      apply h.remove ?_ hc hid
      · rw [keep_deliverOnce he.targets hc hid.documentId _ hlive,
          put_files_other _ (hqueue _ hlive)]
        exact deleted_files_self hc hid.documentId
      · intro p hp hne
        rw [keep_deliverOnce he.targets hc hid.documentId _ hp, put_files_other _ (hqueue _ hp)]
        exact deleted_files_live hc hid.documentId hp hne
      · refine Nat.le_trans ?_ (issued_le_run _ _)
        simp

/-- A request that names a configured collection where it reads or deletes, and asks only for
summaries of documents whose names are file names. -/
structure Orderly (e : Engine) (w : World ν) (req : Request) : Prop where
  configured : req.command = .read ∨ req.command = .delete → e.cfg.Configured req.target
  plainRefs : req.command = .read → Json.asBool (Fields.get? "cacheSummaries" req.detail) = true →
    ∀ doc schemaRaw refs, w.files (e.live req.target req.parameter) = some (.json (.obj doc)) →
      Fields.get? req.target e.cfg.schemas = some schemaRaw →
      findRefFields e.ojson schemaRaw doc = .ok refs →
      ∀ ref ∈ refs, PlainName ref.targetCollection ∧ '/' ∉ ref.targetID.toList

theorem checkStaleness_owned (he : SoleOwner e) (req : Request) : checkStaleness e req = none := by
  have hsot := (he.owns (slot req.parameter)).1
  unfold checkStaleness
  cases hstate : e.readState with
  | none => rfl
  | some state => simp [hsot, he.current state hstate]

theorem readAdmission_owned (he : SoleOwner e) (req : Request) : readAdmission e req =
      if ¬ AcceptedId req.parameter then .error (req.fail invalidDocumentId) else .ok () := by
  simp only [readAdmission, checkRouting_owned he.owns req, checkStaleness_owned he req]
  rfl

theorem run_readDocument (hcmd : req.command = .read) (horderly : Orderly e w req)
    {doc : JsonFields} (hfile : w.files (e.live req.target req.parameter) = some (.json (.obj doc))) :
    ((readDocument e req doc).run (exec host .none) w).1.observe =
        (readResponse e req doc none).observe ∧
      ∀ p, e.LivePath p → ((readDocument e req doc).run (exec host .none) w).2.files p =
        w.files p := by
  unfold readDocument
  cases hwant : Json.asBool (Fields.get? "cacheSummaries" req.detail) with
  | false => exact ⟨rfl, fun _ _ => rfl⟩
  | true =>
    simp only [if_true, Program.bind_eq, Program.pure_eq]
    refine ⟨by rw [Program.run_bind]; rfl, fun p hp => ?_⟩
    have hkeep : Keeps p (buildCacheSummaries e.ojson e.dataDir doc
        (Fields.get? req.target e.cfg.schemas)) := by
      unfold buildCacheSummaries
      split
      · trivial
      · rename_i schemaRaw hraw
        split
        · trivial
        · rename_i refs hrefs
          apply keeps_collectSummaries
          intro ref href
          obtain ⟨hplain, hslash⟩ :=
            horderly.plainRefs hcmd hwant doc schemaRaw refs hfile hraw hrefs ref href
          exact e.cachePath_not_live hplain hslash hp
    have hall : Keeps p (Program.bind (buildCacheSummaries e.ojson e.dataDir doc
        (Fields.get? req.target e.cfg.schemas)) fun summaries =>
          .done (readResponse e req doc (some summaries))) := hkeep.bind fun _ => trivial
    exact hall.run

theorem read_matched (he : SoleOwner e) (h : Sim e host w s) (hcmd : req.command = .read)
    (horderly : Orderly e w req) :
    Matched e host (Store.read e s req) ((read e req).run (exec host .none) w) := by
  have hc := horderly.configured (.inl hcmd)
  have hadm := readAdmission_owned he req
  by_cases hid : AcceptedId req.parameter
  swap
  · rw [if_pos hid] at hadm
    exact .refused h (n := 0) (by simp [Store.read, hid]; rfl) (by simp [read, hadm]; rfl) rfl
  rw [if_neg (not_not.mpr hid)] at hadm
  have hfile := h.file hc hid
  cases hdoc : s.docs (req.target, req.parameter) with
  | none =>
    rw [hdoc] at hfile
    have hread : w.readFields false (e.live req.target req.parameter) = .error .notExist := by
      simp [readFields, readValue, hfile]
    exact .refused h (n := 0) (by simp [Store.read, hid, hdoc]; rfl)
      (by simp [read, hadm, hread]; rfl) rfl
  | some entry =>
    rw [hdoc] at hfile
    obtain ⟨hwell, -⟩ := h.stored _ _ hdoc
    have hread : w.readFields false (e.live req.target req.parameter) = .ok entry.content :=
      readFields_eq_ok.mpr ⟨rfl, hfile⟩
    have hcurrent : needsMigration e.cfg req.target entry.content = false := hwell.current
    have hrun : (read e req).run (exec host .none) w =
        (readDocument e req entry.content).run (exec host .none) w := by
      simp [read, hadm, hread, migrateOnAccess, hcurrent]
    obtain ⟨hanswer, hkept⟩ := @run_readDocument ν host e req w hcmd horderly _ hfile
    rw [hrun]
    refine ⟨?_, ?_⟩
    · rw [hanswer]
      simp [Store.read, hid, hdoc]
      rfl
    · have hspec : (Store.read e s req).2 = s := by simp [Store.read, hid, hdoc]
      rw [hspec]
      exact h.keep (issued_le_run _ _) hkept

def serve (e : Engine) (host : Host ν) (w : World ν) (req : Request) :
    (Observation × (Key → Option File)) × World ν :=
  let ran := (execute e req).run (exec host .none) w
  ((ran.1.observe, ran.2.documents e), ran.2)

def StoreAnswers (e : Engine) (s : Store) (req : Request)
    (o : Observation × (Key → Option File)) (s' : Store) : Prop :=
  ∃ version, version ∉ s.used ∧ Store.execute e version s req = (o.1, s') ∧ o.2 = s'.documents

theorem serve_simulated (he : SoleOwner e) (hids : FreshIds host) (h : Sim e host w s)
    (horderly : Orderly e w req) :
    ∃ s', StoreAnswers e s req (serve e host w req).1 s' ∧ Sim e host (serve e host w req).2 s' := by
  have hanswers : ∀ version, version ∉ s.used →
      Matched e host (Store.execute e version s req) ((execute e req).run (exec host .none) w) →
      ∃ s', StoreAnswers e s req (serve e host w req).1 s' ∧
        Sim e host (serve e host w req).2 s' := by
    intro version hfresh hmatched
    refine ⟨_, ⟨version, hfresh, Prod.ext hmatched.answer rfl, ?_⟩, hmatched.sim⟩
    exact hmatched.sim.live
  cases hcmd : req.command with
  | create =>
    apply hanswers (req.createVersion host w) (h.fresh hids (Nat.le_add_right _ _))
    simpa only [Store.execute, execute, hcmd] using create_matched he h
  | read =>
    apply hanswers (host.ids w.issued) (h.fresh hids (Nat.le_refl _))
    simpa only [Store.execute, execute, hcmd] using read_matched he h hcmd horderly
  | patch =>
    apply hanswers (host.ids w.issued) (h.fresh hids (Nat.le_refl _))
    simpa only [Store.execute, execute, hcmd] using patch_matched he hids h
  | delete =>
    apply hanswers (host.ids w.issued) (h.fresh hids (Nat.le_refl _))
    simpa only [Store.execute, execute, hcmd] using
      delete_matched he hids h (horderly.configured (.inr hcmd))

/-- In every run whose requests are orderly the server answers like the versioned store. -/
theorem versioned_store_refinement (he : SoleOwner e) (hids : FreshIds host) (h : Sim e host w s)
    (reqs : List Request) (horderly : Guarded (serve e host) (Orderly e) w reqs) :
    ∃ s', Accepts (StoreAnswers e) s reqs (answers (serve e host) w reqs).1 s' ∧
      Sim e host (answers (serve e host) w reqs).2 s' := by
  have hstep : ∀ (w : World ν) (s : Store) (req : Request), Sim e host w s → Orderly e w req →
      ∃ s', StoreAnswers e s req (serve e host w req).1 s' ∧
        Sim e host (serve e host w req).2 s' := by
    intro w s req hsim hreq
    exact serve_simulated he hids hsim hreq
  exact accepts_of_simulation hstep reqs h horderly
end
namespace Sample
theorem host_fresh : FreshIds host where
  injective := host_injective
  nonempty := host_ids_ne

theorem server_soleOwner : SoleOwner server where
  owns s := by
    have ha : server.cfg.assignmentForSlot s = ⟨"alpha", ["alpha", "beta"], []⟩ :=
      config_assignment s
    rw [ha]
    decide
  current state h := by cases h
  targets := server_plainTargets

theorem emptyWorld_sim : Sim server host emptyWorld .empty where
  live := by
    funext k
    unfold documents
    split <;> rfl
  stored k entry h := by cases h
  drawn v h := by cases h

def aliasRequest : Request := { readRequest with target := "./Movies" }
end Sample
open Sample
theorem versioned_store_refinement_sample : ∃ s', Accepts (StoreAnswers server) .empty
      [createRequest, patchRequest "v1", readRequest, deleteRequest "v2"]
      (answers (serve server host) emptyWorld [createRequest, patchRequest "v1", readRequest,
          deleteRequest "v2"]).1 s' := by
  have horderly : ∀ w : World Unit, ∀ req ∈ [createRequest, patchRequest "v1",
      readRequest, deleteRequest "v2"], Orderly server w req := by
    intro w req hreq
    simp only [List.mem_cons, List.not_mem_nil, or_false] at hreq
    rcases hreq with rfl | rfl | rfl | rfl
    all_goals
      constructor
      · intro _
        decide
      · intro _ hwant
        cases hwant
  obtain ⟨s', haccepts, -⟩ := versioned_store_refinement server_soleOwner host_fresh emptyWorld_sim
    [createRequest, patchRequest "v1", readRequest, deleteRequest "v2"]
    ⟨horderly _ _ (by simp), horderly _ _ (by simp), horderly _ _ (by simp),
      horderly _ _ (by simp), trivial⟩
  exact ⟨s', haccepts⟩

theorem Store.create_docs_other {e : Engine} {version : String} {s : Store} {req : Request}
    {k : Key} (hk : k ≠ (req.target, req.parameter)) :
    (Store.create e version s req).2.docs k = s.docs k := by
  unfold Store.create
  split
  · rfl
  · split
    · rfl
    · rw [VersionedStore.docs_install, if_neg hk]

theorem Store.read_missing {e : Engine} {s : Store} {req : Request}
    (h : s.docs (req.target, req.parameter) = none) : (Store.read e s req).1.ok = false := by
  unfold Store.read
  split
  · rfl
  · rw [h]
    rfl

/-- After a create in `Movies` a read of `./Movies` finds the document. -/
theorem versioned_store_refinement_fails : ¬ ∃ s', Accepts (StoreAnswers server) .empty
      [createRequest, aliasRequest]
      (answers (serve server host) emptyWorld [createRequest, aliasRequest]).1 s' := by
  rintro ⟨s', haccepts⟩
  cases haccepts with
  | cons hcreate htail =>
    cases htail with
    | cons hread _ =>
      obtain ⟨version, -, hcreated, -⟩ := hcreate
      obtain ⟨version', -, hfound, -⟩ := hread
      have hother := @Store.create_docs_other server version .empty
        createRequest ("./Movies", "alien") (by decide)
      have hnone : (Store.execute server version .empty createRequest).2.docs
          ("./Movies", "alien") = none := hother
      rw [hcreated] at hnone
      have hok := congrArg (fun out => out.1.ok) hfound
      have hmissing := @Store.read_missing server _ aliasRequest hnone
      have hfails : (Store.execute server version' _ aliasRequest).1.ok = false :=
        hmissing
      have hserved : (serve server host (serve server host
          emptyWorld createRequest).2 aliasRequest).1.1.ok = true := by
        decide +kernel
      cases hfails.symm.trans (hok.trans hserved)
end Datorium
