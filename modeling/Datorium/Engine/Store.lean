
import Datorium.Engine.StoredDocument
import Datorium.Framework.Simulation
import Datorium.Framework.VersionedStore
/-!
# The versioned store behind the commands

A create inserts where there is nothing, a patch and a delete act on the version they name, and every
installed version is new.
-/
namespace Datorium
open Framework
abbrev Key := String × String

abbrev Store := VersionedStore Key String JsonFields

structure Observation where
  ok : Bool
  codes : List ErrorCode
  version : Option String
  versions : Option (String × String)
  sot : Option JsonFields
  extraFields : Option JsonFields

namespace Observation
def failed (code : ErrorCode) : Observation := ⟨false, [code], none, none, none, none⟩

def created (version : String) : Observation := ⟨true, [], some version, none, none, none⟩

def patched (before after : String) : Observation :=
  ⟨true, [], none, some (before, after), none, none⟩

def deleted (version : String) : Observation := ⟨true, [], some version, none, none, none⟩

def found (sot : JsonFields) (extraFields : Option JsonFields) : Observation :=
  ⟨true, [], none, none, some sot, extraFields⟩
end Observation

def Result.observe (res : Result) : Observation :=
  ⟨res.ok, res.errors.map ApiError.code, res.version, res.versions, res.sot, res.extraFields⟩

def AcceptedId (id : String) : Prop := validDocumentID id = true ∧ safeID id = true

instance (id : String) : Decidable (AcceptedId id) := inferInstanceAs (Decidable (_ ∧ _))

def encodedFields : Except String Json → Except ErrorCode JsonFields
  | .ok (.obj fields) => .ok fields
  | _ => .error .documentEncodeFailed

def createdDocument (e : Engine) (req : Request) (version : String) : Except ErrorCode JsonFields :=
  match Fields.get? req.target e.cfg.schemas with
  | none => .error .collectionNotFound
  | some schemaRaw =>
    if req.parameter = "" ∨ req.parameter = "null" then .error .documentIdRequired
    else if ¬ AcceptedId req.parameter then .error .invalidDocumentId
    else match createContent e req schemaRaw with
      | .error err => .error err.code
      | .ok () => encodedFields (canonicalCreateDocument e.ojson schemaRaw req
          (e.cfg.currentSchemaMarker req.target) version)

def patchedDocument (e : Engine) (req : Request) (schemaRaw : Json) (doc : JsonFields)
    (version : String) : Except ErrorCode JsonFields :=
  if Json.asString (Fields.get? "$" req.detail) ≠ e.cfg.currentSchemaMarker req.target then
    .error .schemaMismatch
  else match patchResult e req schemaRaw (.obj doc) with
    | .error err => .error err.code
    | .ok (ops, patched) =>
      match patchStamped e req ops patched version with
      | .error err => .error err.code
      | .ok (stamped, _) => encodedFields (canonicalize e.ojson schemaRaw stamped)

namespace Store
def create (e : Engine) (version : String) (s : Store) (req : Request) : Observation × Store :=
  match createdDocument e req version with
  | .error code => (.failed code, s)
  | .ok doc =>
    match s.docs (req.target, req.parameter) with
    | some _ => (.failed .documentExists, s)
    | none => (.created version, s.install (req.target, req.parameter) version doc)

def patch (e : Engine) (version : String) (s : Store) (req : Request) : Observation × Store :=
  if ¬ AcceptedId req.parameter then (.failed .invalidDocumentId, s)
  else match Fields.get? req.target e.cfg.schemas with
    | none => (.failed .collectionNotFound, s)
    | some schemaRaw =>
      match s.docs (req.target, req.parameter) with
      | none => (.failed .documentNotFound, s)
      | some entry =>
        if req.expectedVersion ≠ entry.version then (.failed .versionMismatch, s)
        else match patchedDocument e req schemaRaw entry.content version with
          | .error code => (.failed code, s)
          | .ok doc =>
            (.patched entry.version version, s.install (req.target, req.parameter) version doc)

def delete (s : Store) (req : Request) : Observation × Store :=
  if ¬ AcceptedId req.parameter then (.failed .invalidDocumentId, s)
  else match s.docs (req.target, req.parameter) with
    | none => (.failed .documentNotFound, s)
    | some entry =>
      if req.expectedVersion ≠ entry.version then (.failed .versionMismatch, s)
      else (.deleted entry.version, s.remove (req.target, req.parameter))

def read (e : Engine) (s : Store) (req : Request) : Observation × Store :=
  if ¬ AcceptedId req.parameter then (.failed .invalidDocumentId, s)
  else match s.docs (req.target, req.parameter) with
    | none => (.failed .documentNotFound, s)
    | some entry =>
      let split := splitSOTAndExtra entry.content (Fields.get? req.target e.cfg.schemas)
      let wantExtra := Json.asBool (Fields.get? "extraFields" req.detail)
      (.found split.1 (if wantExtra then some split.2 else none), s)

def execute (e : Engine) (version : String) (s : Store) (req : Request) : Observation × Store :=
  match req.command with
  | .create => create e version s req
  | .read => read e s req
  | .patch => patch e version s req
  | .delete => delete s req
end Store

def World.documents {ν : Type} (e : Engine) (w : World ν) (k : Key) : Option File :=
  if e.cfg.Configured k.1 ∧ AcceptedId k.2 then w.files (e.live k.1 k.2) else none

def Store.documents (s : Store) (k : Key) : Option File :=
  (s.docs k).map fun entry => .json (.obj entry.content)

structure FreshIds {ν : Type} (host : Host ν) : Prop where
  injective : Function.Injective host.ids
  nonempty : ∀ n, host.ids n ≠ ""

/-- A server that is source of truth and read member of every slot. -/
structure SoleOwner (e : Engine) : Prop where
  owns : e.OwnsEverySlot
  current : ∀ state, e.readState = some state → state.pendingDocs = []
  targets : e.PlainTargets

/-- Stamped with its version and id, and not behind the schema of its collection. -/
structure WellStored (e : Engine) (k : Key) (entry : Entry String JsonFields) : Prop where
  configured : e.cfg.Configured k.1
  accepted : AcceptedId k.2
  version : Fields.get? "#" entry.content = some (.str entry.version)
  bang : Fields.get? "!" entry.content = some (.str k.2)
  current : needsMigration e.cfg k.1 entry.content = false

/-- The live documents are those of the abstract store, and every version it has used has been
drawn. -/
structure Sim {ν : Type} (e : Engine) (host : Host ν) (w : World ν) (s : Store) : Prop where
  live : w.documents e = s.documents
  stored : ∀ k entry, s.docs k = some entry → WellStored e k entry ∧ entry.version ∈ s.used
  drawn : ∀ v ∈ s.used, ∃ n < w.issued, host.ids n = v

section
variable {ν : Type} {host : Host ν} {e : Engine} {req : Request} {w w' : World ν} {s : Store}
theorem AcceptedId.documentId {id : String} (h : AcceptedId id) : DocumentId id := .of_valid h.1

theorem Engine.live_injective {c c' id id' : String} (hc : e.cfg.Configured c)
    (hc' : e.cfg.Configured c') (hid : DocumentId id) (hid' : DocumentId id')
    (h : e.live c id = e.live c' id') : c = c' ∧ id = id' := by
  rw [e.live_eq hc hid, e.live_eq hc' hid'] at h
  have hlast : [c, id ++ ".json"] = [c', id' ++ ".json"] := List.append_cancel_left h
  simpa using hlast

theorem Sim.file (h : Sim e host w s) {c id : String} (hc : e.cfg.Configured c)
    (hid : AcceptedId id) :
    w.files (e.live c id) = (s.docs (c, id)).map fun entry => .json (.obj entry.content) := by
  have hk := congrFun h.live (c, id)
  rwa [World.documents, if_pos ⟨hc, hid⟩] at hk

theorem Sim.fresh (h : Sim e host w s) (hids : FreshIds host) {n : Nat} (hn : w.issued ≤ n) :
    host.ids n ∉ s.used := by
  intro hused
  obtain ⟨m, hm, heq⟩ := h.drawn _ hused
  have hmn := hids.injective heq
  omega

theorem Sim.version_ne_empty (h : Sim e host w s) (hids : FreshIds host) {k : Key}
    {entry : Entry String JsonFields} (hentry : s.docs k = some entry) : entry.version ≠ "" := by
  obtain ⟨n, -, hn⟩ := h.drawn _ (h.stored k entry hentry).2
  rw [← hn]
  exact hids.nonempty n

theorem Sim.keep (h : Sim e host w s) (hissued : w.issued ≤ w'.issued)
    (hfiles : ∀ p, e.LivePath p → w'.files p = w.files p) : Sim e host w' s where
  live := by
    rw [← h.live]
    funext k
    unfold World.documents
    by_cases hk : e.cfg.Configured k.1 ∧ AcceptedId k.2
    · rw [if_pos hk, if_pos hk]
      exact hfiles _ ⟨_, _, hk.1, hk.2.documentId, rfl⟩
    · rw [if_neg hk, if_neg hk]
  stored := h.stored
  drawn v hv := by
    obtain ⟨n, hn, heq⟩ := h.drawn v hv
    exact ⟨n, by omega, heq⟩

theorem Sim.drawn_world (h : Sim e host w s) (hw : w.Drawn w') : Sim e host w' s := by
  obtain ⟨n, rfl⟩ := hw
  exact h.keep (Nat.le_add_right _ _) fun _ _ => rfl

theorem World.documents_change {k : Key} {file : Option File} (hc : e.cfg.Configured k.1)
    (hid : AcceptedId k.2) (hlive : w'.files (e.live k.1 k.2) = file)
    (hother : ∀ p, e.LivePath p → p ≠ e.live k.1 k.2 → w'.files p = w.files p) :
    w'.documents e = fun j => if j = k then file else w.documents e j := by
  funext j
  by_cases hj : j = k
  · rw [if_pos hj, hj, World.documents, if_pos ⟨hc, hid⟩, hlive]
  · rw [if_neg hj]
    unfold World.documents
    by_cases hk : e.cfg.Configured j.1 ∧ AcceptedId j.2
    · rw [if_pos hk, if_pos hk]
      refine hother _ ⟨_, _, hk.1, hk.2.documentId, rfl⟩ fun heq => hj ?_
      obtain ⟨h₁, h₂⟩ := e.live_injective hk.1 hc hk.2.documentId hid.documentId heq
      exact Prod.ext h₁ h₂
    · rw [if_neg hk, if_neg hk]

theorem Sim.install (h : Sim e host w s) {k : Key} {n : Nat} {doc : JsonFields}
    (hissued : w.issued ≤ w'.issued) (hn : n < w'.issued)
    (hdoc : WellStored e k ⟨host.ids n, doc⟩)
    (hlive : w'.files (e.live k.1 k.2) = some (.json (.obj doc)))
    (hother : ∀ p, e.LivePath p → p ≠ e.live k.1 k.2 → w'.files p = w.files p) :
    Sim e host w' (s.install k (host.ids n) doc) where
  live := by
    rw [World.documents_change hdoc.configured hdoc.accepted hlive hother, h.live]
    funext j
    by_cases hj : j = k <;> simp [Store.documents, VersionedStore.docs_install, hj]
  stored j entry hentry := by
    rw [VersionedStore.docs_install] at hentry
    rw [VersionedStore.mem_used_install]
    by_cases hj : j = k
    · rw [if_pos hj] at hentry
      cases hentry
      exact ⟨hj ▸ hdoc, .inl rfl⟩
    · rw [if_neg hj] at hentry
      obtain ⟨hwell, hused⟩ := h.stored j entry hentry
      exact ⟨hwell, .inr hused⟩
  drawn v hv := by
    rcases (VersionedStore.mem_used_install s k (host.ids n) v doc).mp hv with rfl | hv
    · exact ⟨n, hn, rfl⟩
    · obtain ⟨m, hm, heq⟩ := h.drawn v hv
      exact ⟨m, by omega, heq⟩

theorem Sim.remove (h : Sim e host w s) {k : Key} (hissued : w.issued ≤ w'.issued)
    (hc : e.cfg.Configured k.1) (hid : AcceptedId k.2) (hlive : w'.files (e.live k.1 k.2) = none)
    (hother : ∀ p, e.LivePath p → p ≠ e.live k.1 k.2 → w'.files p = w.files p) :
    Sim e host w' (s.remove k) where
  live := by
    rw [World.documents_change hc hid hlive hother, h.live]
    funext j
    by_cases hj : j = k <;> simp [Store.documents, VersionedStore.docs_remove, hj]
  stored j entry hentry := by
    rw [VersionedStore.docs_remove] at hentry
    by_cases hj : j = k
    · rw [if_pos hj] at hentry
      cases hentry
    · rw [if_neg hj] at hentry
      exact h.stored j entry hentry
  drawn v hv := by
    obtain ⟨m, hm, heq⟩ := h.drawn v hv
    exact ⟨m, by omega, heq⟩
end
end Datorium
