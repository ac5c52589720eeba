
import Datorium.Engine.Commands
/-!
# How the commands end

A write is ready when all its checks pass and none of the calls before its first write fails.
-/
namespace Datorium
open Framework Program World
variable {ν : Type} {host : Host ν} {faults : Faults} {e : Engine} {req : Request} {w : World ν}
def World.tick (w : World ν) (n : Nat) : World ν := { w with issued := w.issued + n }

@[simp] theorem World.tick_files (w : World ν) (n : Nat) : (w.tick n).files = w.files := rfl

@[simp] theorem World.tick_issued (w : World ν) (n : Nat) : (w.tick n).issued = w.issued + n := rfl

@[simp] theorem World.tick_zero (w : World ν) : w.tick 0 = w := rfl

@[simp] theorem World.tick_tick (w : World ν) (n m : Nat) : (w.tick n).tick m = w.tick (n + m) := by
  simp [tick, Nat.add_assoc]

def World.Drawn (w t : World ν) : Prop := ∃ n, t = w.tick n

@[simp] theorem World.drawn_refl (w : World ν) : w.Drawn w := ⟨0, rfl⟩

@[simp] theorem World.drawn_tick (w : World ν) (n : Nat) : w.Drawn (w.tick n) := ⟨n, rfl⟩

theorem World.Drawn.files {t : World ν} (h : w.Drawn t) : t.files = w.files := by
  obtain ⟨n, rfl⟩ := h
  rfl

def Idle {α : Type} (host : Host ν) (faults : Faults) (good : α → Prop) (p : Prog α)
    (w : World ν) : Prop :=
  p.Ensures (exec host faults) (fun _ t => w.Drawn t) (fun a t => good a ∧ w.Drawn t) w

theorem Idle.run {α : Type} {good : α → Prop} {p : Prog α} (h : Idle host faults good p w) :
    ∃ a n, p.run (exec host faults) w = (a, w.tick n) ∧ good a := by
  obtain ⟨hgood, n, hn⟩ := h.2
  exact ⟨_, n, Prod.ext rfl hn, hgood⟩

def Request.operationIdDraws (req : Request) : Nat := if req.operationId = "" then 1 else 0

def Request.operationIdIn (req : Request) (host : Host ν) (w : World ν) : String :=
  if req.operationId = "" then host.ids w.issued else req.operationId

@[simp] theorem run_newId_ok {site : Site} (h : faults site = false) :
    (newId site).run (exec host faults) w = (.ok (host.ids w.issued), w.tick 1) := by
  simp [h, tick]

theorem run_newId_none (site : Site) :
    (newId site).run (exec host .none) w = (.ok (host.ids w.issued), w.tick 1) := run_newId_ok rfl

theorem run_operationIdOr_ok (h : req.operationId = "" → faults .operationId = false) :
    (operationIdOr req).run (exec host faults) w =
      (.ok (req.operationIdIn host w), w.tick req.operationIdDraws) := by
  by_cases hop : req.operationId = ""
  · simp [operationIdOr, hop, Request.operationIdIn, Request.operationIdDraws, run_newId_ok (h hop)]
  · simp [operationIdOr, hop, Request.operationIdIn, Request.operationIdDraws]

theorem run_operationIdOr_error (h : ¬ (req.operationId = "" → faults .operationId = false)) :
    (operationIdOr req).run (exec host faults) w = (.error .io, w) := by
  obtain ⟨hop, hf⟩ : req.operationId = "" ∧ faults .operationId = true := by simpa using h
  simp [operationIdOr, hop, hf]

@[simp] theorem ensures_operationIdOr {crash : Op → World ν → Prop}
    {post : Except FsError String → World ν → Prop} :
    (operationIdOr req).Ensures (exec host faults) crash post w ↔
      (req.operationId = "" → crash ⟨.operationId, .newId⟩ w) ∧
        post ((operationIdOr req).run (exec host faults) w).1
          ((operationIdOr req).run (exec host faults) w).2 := by
  by_cases hop : req.operationId = "" <;> simp [operationIdOr, hop]

@[simp] theorem run_locked {α : Type} (body : Prog α) :
    (locked body).run (exec host faults) w = body.run (exec host faults) w := by
  simp [locked]

@[simp] theorem ensures_locked {α : Type} {crash : Op → World ν → Prop}
    {post : α → World ν → Prop} (body : Prog α) :
    (locked body).Ensures (exec host faults) crash post w ↔
      crash ⟨.lock, .lock⟩ w ∧ body.Ensures (exec host faults) crash
        (fun r t => crash ⟨.unlock, .unlock⟩ t ∧ post r t) w := by
  simp [locked]

def Result.undelivered (res : Result) : Result :=
  { res with note := none, distributionComplete := none }

theorem run_deliverOnce (item : WorkItem) (result : Result) :
    ((deliverOnce e item result).run (exec host faults) w).1.undelivered = result.undelivered := by
  simp only [deliverOnce, bind_eq, run_bind, pure_eq, run_done]
  rfl

theorem run_deliverOnce_ok (item : WorkItem) (result : Result) :
    ((deliverOnce e item result).run (exec host faults) w).1.ok = result.ok := by
  have h := congrArg Result.ok (@run_deliverOnce ν host faults e w item result)
  exact h

structure CreateReady (e : Engine) (host : Host ν) (faults : Faults) (req : Request) (w : World ν)
    (schemaRaw doc : Json) : Prop where
  admitted : createAdmission e req = .ok schemaRaw
  operationId : req.operationId = "" → faults .operationId = false
  content : createContent e req schemaRaw = .ok ()
  version : faults .version = false
  encoded : canonicalCreateDocument e.ojson schemaRaw req (e.cfg.currentSchemaMarker req.target)
    (host.ids (w.issued + req.operationIdDraws)) = .ok doc

def Request.createVersion (req : Request) (host : Host ν) (w : World ν) : String :=
  host.ids (w.issued + req.operationIdDraws)

theorem run_create_ready {schemaRaw doc : Json} (h : CreateReady e host faults req w schemaRaw doc) :
    (create e req).run (exec host faults) w =
      match (createLocal e req doc).run (exec host faults) (w.tick (req.operationIdDraws + 1)) with
      | (.error err, w') => (req.fail err, w')
      | (.ok (), w') =>
        (deliverOnce e (createItem req (req.operationIdIn host w) (req.createVersion host w) doc)
          (createResponse req (e.cfg.currentSchemaMarker req.target) (req.operationIdIn host w)
            (req.createVersion host w))).run (exec host faults) w' := by
  simp only [create, h.admitted, bind_eq, run_bind,
    run_operationIdOr_ok h.operationId, h.content, run_newId_ok h.version, tick_issued,
    h.encoded, tick_tick, run_locked]
  rcases (createLocal e req doc).run (exec host faults) _ with ⟨r, w'⟩
  cases r <;> rfl

theorem idle_create (h : ∀ schemaRaw doc, ¬ CreateReady e host faults req w schemaRaw doc) :
    Idle host faults (fun res => res.ok = false) (create e req) w := by
  cases hadm : createAdmission e req with
  | error res => simpa [Idle, create, hadm] using createAdmission_error hadm
  | ok schemaRaw =>
    by_cases hop : req.operationId = "" → faults .operationId = false
    swap
    · simp [Idle, create, hadm, run_operationIdOr_error hop]
    have hrun : (operationIdOr req).run (exec host faults) w = _ := run_operationIdOr_ok hop
    cases hcon : createContent e req schemaRaw with
    | error err => simp [Idle, create, hadm, hrun, hcon]
    | ok u =>
      cases hver : faults .version with
      | true => simp [Idle, create, hadm, hrun, hcon, hver]
      | false =>
        cases hdoc : canonicalCreateDocument e.ojson schemaRaw req
            (e.cfg.currentSchemaMarker req.target)
            (host.ids (w.issued + req.operationIdDraws)) with
        | error err => simp [Idle, create, hadm, hrun, hcon, run_newId_ok hver, hdoc]
        | ok doc => exact absurd ⟨hadm, hop, hcon, hver, hdoc⟩ (h schemaRaw doc)

/-- A patch whose checks pass: it replaces `old` by `new` and sends `ops` to the members. -/
structure PatchReady (e : Engine) (host : Host ν) (faults : Faults) (req : Request) (w : World ν)
    (schemaRaw old new : Json) (ops : List JsonFields) : Prop where
  admitted : patchAdmission e req = .ok schemaRaw
  read : faults .readLive = false
  stored : w.files (e.live req.target req.parameter) = some (.json old)
  guard : patchGuard e req old = .ok ()
  version : faults .version = false
  operationId : req.operationId = "" → faults .operationId = false
  encoded : ∃ patch patched stamped, patchResult e req schemaRaw old = .ok (patch, patched) ∧
    patchStamped e req patch patched (host.ids w.issued) = .ok (stamped, ops) ∧
    canonicalize e.ojson schemaRaw stamped = .ok new

def Request.patchOperationId (req : Request) (host : Host ν) (w : World ν) : String :=
  req.operationIdIn host (w.tick 1)

theorem run_patch_ready {schemaRaw old new : Json} {ops : List JsonFields}
    (h : PatchReady e host faults req w schemaRaw old new ops) :
    (patch e req).run (exec host faults) w =
      match (replaceDocument id e req.target req.parameter new).run (exec host faults)
          (w.tick (1 + req.operationIdDraws)) with
      | (.error err, w') => (req.fail err.toApiError, w')
      | (.ok (), w') =>
        (deliverOnce e (patchItem req (req.patchOperationId host w) (host.ids w.issued) ops new)
          (patchResponse req (e.cfg.currentSchemaMarker req.target)
            (req.patchOperationId host w) (host.ids w.issued))).run (exec host faults) w' := by
  obtain ⟨patchOps, patched, stamped, hres, hstamp, henc⟩ := h.encoded
  have hread : w.readValue false (e.live req.target req.parameter) = .ok old :=
    readValue_eq_ok.mpr ⟨rfl, h.stored⟩
  simp only [patch, h.admitted, bind_eq, run_bind, run_locked, patchLocal,
    run_readDocumentValue, h.read, hread, patchStored, h.guard, hres, run_newId_ok h.version,
    hstamp, run_operationIdOr_ok h.operationId, patchCommit, henc, tick_tick]
  rcases (replaceDocument id e req.target req.parameter new).run (exec host faults) _ with ⟨r, w'⟩
  cases r <;> rfl

theorem patchStored_cases (schemaRaw doc : Json) :
    Idle host faults (fun r => ∃ err, r = .error err) (patchStored e req schemaRaw doc) w ∨
    patchGuard e req doc = .ok () ∧ faults .version = false ∧
      (req.operationId = "" → faults .operationId = false) ∧
      ∃ patch patched stamped ops new, patchResult e req schemaRaw doc = .ok (patch, patched) ∧
        patchStamped e req patch patched (host.ids w.issued) = .ok (stamped, ops) ∧
        canonicalize e.ojson schemaRaw stamped = .ok new := by
  unfold patchStored
  split
  · exact .inl (by simp [Idle])
  · rename_i hguard
    split
    · exact .inl (by simp [Idle])
    · rename_i patchOps patched hres
      cases hver : faults .version with
      | true => exact .inl (by simp [Idle, hver])
      | false =>
        cases hstamp : patchStamped e req patchOps patched (host.ids w.issued) with
        | error err => exact .inl (by simp [Idle, run_newId_ok hver, hstamp])
        | ok out =>
          by_cases hop : req.operationId = "" → faults .operationId = false
          swap
          · exact .inl (by
              simp [Idle, run_newId_ok hver, hstamp, run_operationIdOr_error hop])
          cases henc : canonicalize e.ojson schemaRaw out.1 with
          | error err =>
            exact .inl (by
              simp [Idle, run_newId_ok hver, hstamp, run_operationIdOr_ok hop, patchCommit, henc])
          | ok new => exact .inr ⟨hguard, rfl, hop, _, _, _, _, _, hres, hstamp, henc⟩

theorem idle_patch
    (h : ∀ schemaRaw old new ops, ¬ PatchReady e host faults req w schemaRaw old new ops) :
    Idle host faults (fun res => res.ok = false) (patch e req) w := by
  cases hadm : patchAdmission e req with
  | error res => simpa [Idle, patch, hadm] using patchAdmission_error hadm
  | ok schemaRaw =>
    cases hread : w.readValue (faults .readLive) (e.live req.target req.parameter) with
    | error err => simp [Idle, patch, hadm, patchLocal, hread]
    | ok old =>
      obtain ⟨hrf, hstored⟩ := readValue_eq_ok.mp hread
      rcases @patchStored_cases ν host faults e req w schemaRaw old with
        hidle | ⟨hguard, hver, hop, po, pd, st, ops, new, henc⟩
      · simp only [Idle, patch, hadm, patchLocal, bind_eq, ensures_bind,
          ensures_locked, ensures_readDocumentValue, hread, drawn_refl, true_and]
        refine hidle.mono (fun _ _ hc => hc) ?_
        rintro r t ⟨⟨err, rfl⟩, ht⟩
        simp [ht]
      · exact absurd ⟨hadm, hrf, hstored, hguard, hver, hop, po, pd, st, henc⟩
          (h schemaRaw old new ops)

structure DeleteReady (e : Engine) (faults : Faults) (req : Request) (w : World ν)
    (old : JsonFields) : Prop where
  admitted : deleteAdmission e req = .ok ()
  read : faults .readLive = false
  stored : w.files (e.live req.target req.parameter) = some (.json (.obj old))
  guard : deleteGuard req old = .ok ()
  operationId : req.operationId = "" → faults .operationId = false

theorem run_delete_ready {old : JsonFields} (h : DeleteReady e faults req w old) :
    (delete e req).run (exec host faults) w =
      match (deleteCommit e req (req.operationIdIn host w)).run (exec host faults)
          (w.tick req.operationIdDraws) with
      | (.error err, w') => (req.fail err, w')
      | (.ok committed, w') =>
        (deliverOnce e committed.1 committed.2).run (exec host faults) w' := by
  have hread : w.readFields false (e.live req.target req.parameter) = .ok old :=
    readFields_eq_ok.mpr ⟨rfl, h.stored⟩
  simp only [delete, h.admitted, bind_eq, run_bind, run_locked, deleteLocal,
    run_readDocumentJSON, h.read, hread, h.guard, run_operationIdOr_ok h.operationId]
  rcases (deleteCommit e req (req.operationIdIn host w)).run (exec host faults) _ with ⟨r, w'⟩
  cases r <;> rfl

theorem idle_delete (h : ∀ old, ¬ DeleteReady e faults req w old) :
    Idle host faults (fun res => res.ok = false) (delete e req) w := by
  cases hadm : deleteAdmission e req with
  | error res => simpa [Idle, delete, hadm] using deleteAdmission_error hadm
  | ok u =>
    cases hread : w.readFields (faults .readLive) (e.live req.target req.parameter) with
    | error err => simp [Idle, delete, hadm, deleteLocal, hread]
    | ok old =>
      obtain ⟨hrf, hstored⟩ := readFields_eq_ok.mp hread
      cases hguard : deleteGuard req old with
      | error err => simp [Idle, delete, hadm, deleteLocal, hread, hguard]
      | ok u =>
        by_cases hop : req.operationId = "" → faults .operationId = false
        · exact absurd ⟨hadm, hrf, hstored, hguard, hop⟩ (h old)
        · simp [Idle, delete, hadm, deleteLocal, hread, hguard, run_operationIdOr_error hop]

section
variable {doc : Json}
def CreateRefused (e : Engine) (faults : Faults) (req : Request) (w : World ν) : Prop :=
  faults .statLive = false ∧ w.files (e.live req.target req.parameter) ≠ none

def CreateBlocked (faults : Faults) : Prop :=
  faults .ensureDir = true ∨ ∃ step, faults (.write step) = true

def CreateUnfinished (faults : Faults) (doc : Json) : Prop :=
  Unverifiable faults id doc ∨ QueueFails faults id

theorem run_createLocal_refused (h : CreateRefused e faults req w) :
    (createLocal e req doc).run (exec host faults) w = (.error documentExists, w) := by
  obtain ⟨file, hfile⟩ := Option.ne_none_iff_exists'.mp h.2
  simp [createLocal, h.1, hfile]

theorem run_createLocal_proceeds (h : ¬ CreateRefused e faults req w) :
    (createLocal e req doc).run (exec host faults) w =
      (createWrite e req doc).run (exec host faults) w := by
  cases hs : faults .statLive with
  | true => simp [createLocal, hs]
  | false =>
    have hnone : w.files (e.live req.target req.parameter) = none := by
      simpa [CreateRefused, hs] using h
    simp [createLocal, hs, hnone]

theorem run_createLocal_blocked (host : Host ν) (doc : Json)
    (h : ¬ CreateRefused e faults req w) (hb : CreateBlocked faults) :
    ∃ err, (createLocal e req doc).run (exec host faults) w = (.error err, w) := by
  rw [run_createLocal_proceeds h]
  cases hd : faults .ensureDir with
  | true => exact ⟨filesystemError .io, by simp [createWrite, ensureCollectionDir, hd]⟩
  | false =>
    have hw := hb.resolve_left (by simp [hd])
    obtain ⟨err, herr⟩ : ∃ err, (writeDocumentJSONVerified id (e.live req.target req.parameter)
        doc).run (exec host faults) w = (.error err, w) :=
      run_writeDocumentJSONVerified_error hw _ _
    exact ⟨filesystemError err, by simp [createWrite, ensureCollectionDir, hd, herr]⟩

theorem run_createLocal_unfinished (host : Host ν) (h : ¬ CreateRefused e faults req w)
    (hb : ¬ CreateBlocked faults) (hu : CreateUnfinished faults doc) :
    ∃ err, (createLocal e req doc).run (exec host faults) w =
      (.error err, w.put (e.live req.target req.parameter) (some (.json doc))) := by
  rw [run_createLocal_proceeds h]
  simp only [CreateBlocked, not_or, not_exists, Bool.not_eq_true] at hb
  by_cases hv : Unverifiable faults id doc
  · obtain ⟨err, herr⟩ : ∃ err, (writeDocumentJSONVerified id (e.live req.target req.parameter)
        doc).run (exec host faults) w = (.error err, _) :=
      run_writeDocumentJSONVerified_unverified hb.2 hv _
    exact ⟨filesystemError err, by simp [createWrite, ensureCollectionDir, hb.1, herr]⟩
  · have hq := hu.resolve_left hv
    obtain ⟨err, herr⟩ : ∃ err, (enqueueChange id e.dataDir req.target req.parameter .create).run
        (exec host faults) (w.put (e.live req.target req.parameter) (some (.json doc))) =
          (.error err, _) := run_enqueueChange_error hq
    exact ⟨queueWriteFailed err, by
      simp [createWrite, ensureCollectionDir, hb.1, run_writeDocumentJSONVerified_ok hb.2 hv, herr]⟩

theorem run_createLocal_ok (h : ¬ CreateRefused e faults req w) (hb : ¬ CreateBlocked faults)
    (hu : ¬ CreateUnfinished faults doc) :
    (createLocal e req doc).run (exec host faults) w =
      (.ok (), (w.put (e.live req.target req.parameter) (some (.json doc))).put
        (queuePath e.dataDir .create req.target req.parameter) (some .marker)) := by
  rw [run_createLocal_proceeds h]
  simp only [CreateBlocked, not_or, not_exists, Bool.not_eq_true] at hb
  simp only [CreateUnfinished, not_or] at hu
  simp [createWrite, ensureCollectionDir, hb.1, run_writeDocumentJSONVerified_ok hb.2 hu.1,
    run_enqueueChange_ok hu.2]
end
section
variable {place : Site → Site} {coll docId : String} {doc : Json}
def World.preserved (e : Engine) (collection id : String) (w : World ν) : World ν :=
  if w.files (e.previous collection id) = none then
    w.move (e.live collection id) (e.previous collection id)
  else w

theorem World.preserved_tick_files (w : World ν) (n : Nat) (coll id : String) :
    ((w.tick n).preserved e coll id).files = (w.preserved e coll id).files := by
  unfold preserved
  by_cases hp : w.files (e.previous coll id) = none
  · rw [if_pos (show (w.tick n).files (e.previous coll id) = none from hp), if_pos hp]
    rfl
  · rw [if_neg (show ¬ (w.tick n).files (e.previous coll id) = none from hp), if_neg hp]
    rfl

def PreserveBlocked (e : Engine) (place : Site → Site) (faults : Faults) (collection id : String)
    (w : World ν) : Prop :=
  faults (place .preserveStatPrevious) = true ∨ w.files (e.previous collection id) = none ∧
      (faults (place .preserveStatLive) = true ∨ faults (place .preserveRename) = true ∨
        w.files (e.live collection id) = none)

theorem run_preserve_ok (h : ¬ PreserveBlocked e place faults coll docId w) :
    (preservePreviousIfAbsent place e.dataDir coll docId).run (exec host faults) w =
      (.ok (), w.preserved e coll docId) := by
  simp only [PreserveBlocked, not_or, not_and, Bool.not_eq_true] at h
  by_cases hp : w.files (e.previous coll docId) = none
  · obtain ⟨hl, hr, hlive⟩ := h.2 hp
    rw [preserved, if_pos hp]
    exact run_preservePreviousIfAbsent_moved ⟨h.1, hl, hr⟩ hp hlive
  · rw [preserved, if_neg hp]
    exact run_preservePreviousIfAbsent_kept h.1 hp

theorem run_replaceDocument_blocked (host : Host ν) (doc : Json)
    (h : PreserveBlocked e place faults coll docId w) :
    ∃ err, (replaceDocument place e coll docId doc).run (exec host faults) w = (.error err, w) := by
  obtain ⟨err, herr⟩ : ∃ err, (preservePreviousIfAbsent place e.dataDir coll docId).run
      (exec host faults) w = (.error err, w) := run_preservePreviousIfAbsent_error h
  exact ⟨.document err, by simp [replaceDocument, herr]⟩

theorem run_replaceDocument_unwritten (host : Host ν) (doc : Json)
    (h : ¬ PreserveBlocked e place faults coll docId w)
    (hw : ∃ step, faults (place (.write step)) = true) :
    ∃ err, (replaceDocument place e coll docId doc).run (exec host faults) w =
      (.error err, w.preserved e coll docId) := by
  obtain ⟨err, herr⟩ : ∃ err, (writeDocumentJSONVerified place (e.live coll docId) doc).run
      (exec host faults) (w.preserved e coll docId) = (.error err, _) :=
    run_writeDocumentJSONVerified_error hw _ _
  exact ⟨.document err, by simp [replaceDocument, run_preserve_ok h, herr]⟩

theorem run_replaceDocument_unfinished (host : Host ν) (h : ¬ PreserveBlocked e place faults coll docId w)
    (hw : ¬ ∃ step, faults (place (.write step)) = true)
    (hu : Unverifiable faults place doc ∨ QueueFails faults place) :
    ∃ err, (replaceDocument place e coll docId doc).run (exec host faults) w =
      (.error err, (w.preserved e coll docId).put (e.live coll docId) (some (.json doc))) := by
  simp only [not_exists, Bool.not_eq_true] at hw
  by_cases hv : Unverifiable faults place doc
  · obtain ⟨err, herr⟩ : ∃ err, (writeDocumentJSONVerified place (e.live coll docId) doc).run
        (exec host faults) (w.preserved e coll docId) = (.error err, _) :=
      run_writeDocumentJSONVerified_unverified hw hv _
    exact ⟨.document err, by simp [replaceDocument, run_preserve_ok h, herr]⟩
  · obtain ⟨err, herr⟩ : ∃ err, (enqueueChange place e.dataDir coll docId .patch).run
        (exec host faults) ((w.preserved e coll docId).put (e.live coll docId)
          (some (.json doc))) = (.error err, _) := run_enqueueChange_error (hu.resolve_left hv)
    exact ⟨.queueEntry err, by
      simp [replaceDocument, run_preserve_ok h, run_writeDocumentJSONVerified_ok hw hv, herr]⟩

theorem run_replaceDocument_ok (h : ¬ PreserveBlocked e place faults coll docId w)
    (hw : ¬ ∃ step, faults (place (.write step)) = true)
    (hu : ¬ (Unverifiable faults place doc ∨ QueueFails faults place)) :
    (replaceDocument place e coll docId doc).run (exec host faults) w =
      (.ok (), ((w.preserved e coll docId).put (e.live coll docId)
        (some (.json doc))).put (queuePath e.dataDir .patch coll docId) (some .marker)) := by
  simp only [not_exists, Bool.not_eq_true] at hw
  simp only [not_or] at hu
  simp [replaceDocument, run_preserve_ok h, run_writeDocumentJSONVerified_ok hw hu.1,
    run_enqueueChange_ok hu.2]

theorem PatchReady.replaced {schemaRaw old new : Json} {ops : List JsonFields}
    (h : PatchReady e host .none req w schemaRaw old new ops) :
    (replaceDocument id e req.target req.parameter new).run (exec host .none)
        (w.tick (1 + req.operationIdDraws)) =
      (.ok (), (((w.tick (1 + req.operationIdDraws)).preserved e req.target req.parameter).put
        (e.live req.target req.parameter) (some (.json new))).put
          (queuePath e.dataDir .patch req.target req.parameter) (some .marker)) := by
  have hblocked : ¬ PreserveBlocked e id .none req.target req.parameter
      (w.tick (1 + req.operationIdDraws)) := by
    simp [PreserveBlocked, h.stored]
  exact run_replaceDocument_ok hblocked (by simp)
    (by simp [not_unverifiable_none, not_queueFails_none])
end
section
variable {operationId : String}
def DeleteUnfinished (faults : Faults) : Prop :=
  faults .cascadeManifest = true ∨ faults .cascadeLFS = true ∨ faults .cascadeFileOps = true ∨
    QueueFails faults id

def World.deleted (e : Engine) (faults : Faults) (req : Request) (w : World ν) : World ν :=
  (((w.vacate (e.live req.target req.parameter) (e.previous req.target req.parameter)
    (faults .softDeleteStat)).put (filesManifestPath e.dataDir req.target req.parameter) none).prune
      (lfsDir e.dataDir req.target req.parameter)).prune
        (fileOpsDir e.dataDir req.target req.parameter)

@[simp] theorem World.deleted_issued (w : World ν) :
    (w.deleted e faults req).issued = w.issued := by
  simp only [deleted, prune_issued, put_issued, vacate]
  split <;> rfl

theorem run_deleteCommit_blocked (host : Host ν) (operationId : String)
    (h : faults .softDeleteMove = true ∨ w.files (e.live req.target req.parameter) = none) :
    ∃ err, (deleteCommit e req operationId).run (exec host faults) w = (.error err, w) := by
  obtain ⟨err, herr⟩ : ∃ err, (softDeleteDocument e.dataDir req.target req.parameter).run
      (exec host faults) w = (.error err, w) := run_softDeleteDocument_error h
  exact ⟨filesystemError err, by simp [deleteCommit, herr]⟩

theorem vacate_live {live prev : Path} (hne : live ≠ prev) (fails : Bool) :
    (w.vacate live prev fails).files live = none := by
  unfold vacate
  split
  · exact put_files_same _ _ _
  · exact move_files_source _ hne

theorem vacate_files {live prev path : Path} (hl : path ≠ live) (hp : path ≠ prev) (fails : Bool) :
    (w.vacate live prev fails).files path = w.files path := by
  unfold vacate
  split
  · exact put_files_other w hl none
  · exact move_files_other w hl hp

theorem deleted_files {path : Path} (hm : path ≠ filesManifestPath e.dataDir req.target req.parameter)
    (hl : ¬ lfsDir e.dataDir req.target req.parameter <+: path)
    (ho : ¬ fileOpsDir e.dataDir req.target req.parameter <+: path) :
    (w.deleted e faults req).files path = (w.vacate (e.live req.target req.parameter)
      (e.previous req.target req.parameter) (faults .softDeleteStat)).files path := by
  rw [deleted, prune_files, if_neg ho, prune_files, if_neg hl, put_files_other _ hm]

theorem deleted_own_live (hid : DocumentId req.parameter) :
    (w.deleted e faults req).files (e.live req.target req.parameter) = none :=
  (deleted_files (documentPath_ne_filesManifestPath hid) (not_lfsDir_prefix_documentPath hid)
    (not_fileOpsDir_prefix_documentPath hid)).trans
      (vacate_live (documentPath_ne_previousDocumentPath hid) _)

theorem run_deleteCommit_unfinished (host : Host ν) (operationId : String) {file : File} (hid : DocumentId req.parameter)
    (hm : faults .softDeleteMove = false)
    (hlive : w.files (e.live req.target req.parameter) = some file) (hu : DeleteUnfinished faults) :
    ∃ err w', (deleteCommit e req operationId).run (exec host faults) w = (.error err, w') ∧
      w'.files (e.live req.target req.parameter) = none := by
  have hkeep : Keeps (e.live req.target req.parameter)
      (cascadeDeleteDocumentFiles e.dataDir req.target req.parameter) :=
    only_cascadeDeleteDocumentFiles (documentPath_ne_filesManifestPath hid).symm
      (not_lfsDir_prefix_documentPath hid) (not_fileOpsDir_prefix_documentPath hid)
  have hne : e.live req.target req.parameter ≠ e.previous req.target req.parameter :=
    documentPath_ne_previousDocumentPath hid
  have hsoft : (softDeleteDocument e.dataDir req.target req.parameter).run (exec host faults) w =
      (cascadeDeleteDocumentFiles e.dataDir req.target req.parameter).run (exec host faults)
        (w.vacate (e.live req.target req.parameter) (e.previous req.target req.parameter)
          (faults .softDeleteStat)) := run_softDeleteDocument hm hlive
  rcases hc : (cascadeDeleteDocumentFiles e.dataDir req.target req.parameter).run
      (exec host faults) (w.vacate (e.live req.target req.parameter)
        (e.previous req.target req.parameter) (faults .softDeleteStat)) with ⟨r, w'⟩
  have hgone : w'.files (e.live req.target req.parameter) = none := by
    have hrun := congrArg (fun s => s.2.files (e.live req.target req.parameter)) hc
    exact hrun.symm.trans (hkeep.run.trans (vacate_live hne _))
  rw [hc] at hsoft
  cases r with
  | error err => exact ⟨filesystemError err, w', by simp [deleteCommit, hsoft], hgone⟩
  | ok u =>
    have hq : QueueFails faults id := by
      by_contra hq
      obtain ⟨err, herr⟩ : ∃ err, ((cascadeDeleteDocumentFiles e.dataDir req.target
          req.parameter).run (exec host faults) (w.vacate (e.live req.target req.parameter)
            (e.previous req.target req.parameter) (faults .softDeleteStat))).1 = .error err :=
        run_cascadeDeleteDocumentFiles_error (by simpa [DeleteUnfinished, hq] using hu)
      rw [hc] at herr
      cases herr
    obtain ⟨err, herr⟩ : ∃ err, (enqueueChange id e.dataDir req.target req.parameter
        .delete).run (exec host faults) w' = (.error err, w') := run_enqueueChange_error hq
    exact ⟨queueWriteFailed err, w', by simp [deleteCommit, hsoft, herr], hgone⟩

theorem run_deleteCommit_ok {file : File} (hm : faults .softDeleteMove = false)
    (hlive : w.files (e.live req.target req.parameter) = some file)
    (hu : ¬ DeleteUnfinished faults) :
    (deleteCommit e req operationId).run (exec host faults) w =
      (.ok (deleteItem req operationId, deleteResponse req operationId),
        (w.deleted e faults req).put (queuePath e.dataDir .delete req.target req.parameter)
          (some .marker)) := by
  simp only [DeleteUnfinished, not_or, Bool.not_eq_true] at hu
  have hsoft : (softDeleteDocument e.dataDir req.target req.parameter).run (exec host faults) w =
      (.ok (), w.deleted e faults req) :=
    (run_softDeleteDocument hm hlive).trans
      (run_cascadeDeleteDocumentFiles_ok ⟨hu.1, hu.2.1, hu.2.2.1⟩)
  simp [deleteCommit, hsoft, run_enqueueChange_ok hu.2.2.2]
end
end Datorium
