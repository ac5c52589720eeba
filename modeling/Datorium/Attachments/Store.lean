
import Datorium.Attachments.Commands
import Datorium.Attachments.Commit
import Datorium.Engine.Refinement
namespace Datorium
open Framework Function
structure Attachment where
  version : String
  contentType : String
  operationId : String
  bytes : List UInt8

def Attachment.entry (lib : FileLib) (name : String) (a : Attachment) : FileEntry :=
  { name, contentType := a.contentType, byteSize := a.bytes.length, sha256 := lib.sha256 a.bytes,
    version := a.version, operationId := a.operationId }

abbrev Attachments := String → Option Attachment

structure AttachmentStore where
  store : Store
  files : Key → Attachments
  used : Set String

def FileTarget.key (target : FileTarget) : Key := (target.collection, target.id)

inductive StoreCommand where
  | document (req : Request)
  | put (u : Upload)
  | delete (target : FileTarget) (ifMatch operationId : String)
  | list (collection id : String)
  | read (target : FileTarget)

inductive StoreAnswer where
  | document (o : Observation)
  | file (res : FileResult)
  | download (d : Download)

namespace AttachmentStore
def empty : AttachmentStore := ⟨.empty, fun _ _ => none, ∅⟩

def setFiles (s : AttachmentStore) (k : Key) (held : Attachments) : AttachmentStore :=
  { s with files := update s.files k held }

def document (e : Engine) (version : String) (s : AttachmentStore) (req : Request) :
    Observation × AttachmentStore :=
  let out := Store.execute e version s.store req
  let next := { s with store := out.2 }
  (out.1, if req.command = .delete ∧ out.1.ok then
      next.setFiles (req.target, req.parameter) fun _ => none
    else next)

def admits (u : Upload) : Option Attachment → Except ApiError Unit
  | none => if u.ifMatch = "" then .ok () else .error fileNotFound
  | some a =>
    if u.ifMatch = "" then .error (fileExists a.version)
    else if u.ifMatch ≠ a.version then .error (fileVersionMismatch u.ifMatch a.version)
    else .ok ()

def uploaded (u : Upload) (operationId version : String) : Attachment :=
  { version, contentType := u.storedType, operationId, bytes := u.body.data }

def put (lib : FileLib) (operationId version : String) (s : AttachmentStore) (u : Upload) :
    FileResult × AttachmentStore :=
  if ¬ AcceptedId u.target.id then (u.target.fail .fileCreate invalidDocumentId, s)
  else if safeFileName u.target.filename = false then
    (u.target.fail .fileCreate invalidFileName, s)
  else match s.store.docs u.target.key with
    | none => (u.target.fail u.command parentNotFound, s)
    | some _ =>
      match admits u (s.files u.target.key u.target.filename) with
      | .error err => (u.target.fail u.command err, s)
      | .ok () =>
        let a := uploaded u operationId version
        (fileResponse u.target u.command (a.entry lib u.target.filename),
          { s.setFiles u.target.key
              (update (s.files u.target.key) u.target.filename (some a)) with
            used := insert version s.used })

def delete (lib : FileLib) (operationId : String) (s : AttachmentStore) (target : FileTarget)
    (ifMatch : String) : FileResult × AttachmentStore :=
  if ¬ AcceptedId target.id then (target.fail .fileDelete invalidDocumentId, s)
  else if safeFileName target.filename = false then (target.fail .fileDelete invalidFileName, s)
  else match s.store.docs target.key with
    | none => (target.fail .fileDelete parentNotFound, s)
    | some _ =>
      match s.files target.key target.filename with
      | none => (target.fail .fileDelete fileNotFound, s)
      | some a =>
        if ifMatch ≠ a.version then
          (target.fail .fileDelete (fileVersionMismatch ifMatch a.version), s)
        else
          (fileResponse target .fileDelete ({ a with operationId }.entry lib target.filename),
            s.setFiles target.key (update (s.files target.key) target.filename none))

structure Lists (lib : FileLib) (held : Attachments) (rows : List FileEntry) : Prop where
  ascending : Keyed.Ascending FileEntry.name rows
  rows : ∀ name, Keyed.lookup FileEntry.name name rows = (held name).map (Attachment.entry lib name)

def Listed (lib : FileLib) (s : AttachmentStore) (collection id : String) (res : FileResult) :
    Prop :=
  if ¬ AcceptedId id then res = failList collection id invalidDocumentId
  else match s.store.docs (collection, id) with
    | none => res = failList collection id parentNotFound
    | some _ => ∃ rows, Lists lib (s.files (collection, id)) rows ∧
        res = { ok := true, command := .fileList, collection, id := some id, files := some rows }

def read (lib : FileLib) (s : AttachmentStore) (target : FileTarget) : StoreAnswer :=
  if ¬ AcceptedId target.id then .file (target.fail .fileRead invalidDocumentId)
  else if safeFileName target.filename = false then
    .file (target.fail .fileRead invalidFileName)
  else match s.store.docs target.key with
    | none => .file (target.fail .fileRead parentNotFound)
    | some _ =>
      match s.files target.key target.filename with
      | none => .file (target.fail .fileRead fileNotFound)
      | some a => .download
          { contentType := a.contentType, contentLength := a.bytes.length,
            sha256 := lib.sha256 a.bytes, version := a.version, operationId := a.operationId,
            body := a.bytes }

/-- An operation id that may be used where `given` was sent. -/
def OperationIdFor (given operationId : String) : Prop := given ≠ "" → operationId = given

def Answers (lib : FileLib) (e : Engine) (s : AttachmentStore) :
    StoreCommand → StoreAnswer → AttachmentStore → Prop
  | .document req, answer, s' => ∃ version, version ∉ s.store.used ∧
      answer = .document (document e version s req).1 ∧ s' = (document e version s req).2
  | .put u, answer, s' => ∃ operationId version, OperationIdFor u.operationId operationId ∧
      version ∉ s.used ∧ answer = .file (put lib operationId version s u).1 ∧
      s' = (put lib operationId version s u).2
  | .delete target ifMatch given, answer, s' => ∃ operationId, OperationIdFor given operationId ∧
      answer = .file (delete lib operationId s target ifMatch).1 ∧
      s' = (delete lib operationId s target ifMatch).2
  | .list collection id, answer, s' =>
    (∃ res, Listed lib s collection id res ∧ answer = .file res) ∧ s' = s
  | .read target, answer, s' => answer = read lib s target ∧ s' = s
end AttachmentStore

def Engine.AttachmentPath (e : Engine) (k : Key) (p : Path) : Prop :=
  p = filesManifestPath e.dataDir k.1 k.2 ∨ lfsDir e.dataDir k.1 k.2 <+: p

structure Engine.ValidKey (e : Engine) (k : Key) : Prop where
  configured : e.cfg.Configured k.1
  accepted : AcceptedId k.2

namespace Engine
variable {e : Engine} {k k' : Key} {p : Path}
theorem ValidKey.plain (hk : e.ValidKey k) : PlainName k.1 := e.cfg.plainNames _ hk.configured

theorem ValidKey.attachmentPath (hk : e.ValidKey k) (hp : e.AttachmentPath k p) :
    p = e.dataDir ++ [k.1, k.2 ++ "__files.jsonl"] ∨
      ∃ rest, p = e.dataDir ++ (k.1 :: "lfs" :: k.2 :: rest) := by
  rcases hp with rfl | ⟨rest, rfl⟩
  · exact .inl (filesManifestPath_eq hk.plain hk.accepted.documentId)
  · refine .inr ⟨rest, ?_⟩
    rw [lfsDir_eq hk.plain hk.accepted.documentId, List.append_assoc]
    rfl

theorem ValidKey.live_not_attachment (hk : e.ValidKey k) (hp : e.AttachmentPath k p)
    (hlive : e.LivePath p) : False := by
  rcases hp with rfl | hp
  · exact e.manifest_not_live hk.configured hk.accepted.documentId hlive rfl
  · exact (e.attachments_not_live hk.configured hk.accepted.documentId hlive).1 hp

theorem ValidKey.attachment_inj (hk : e.ValidKey k) (hk' : e.ValidKey k')
    (hp : e.AttachmentPath k p) (hp' : e.AttachmentPath k' p) : k = k' := by
  rcases hk.attachmentPath hp with rfl | ⟨rest, rfl⟩ <;>
    rcases hk'.attachmentPath hp' with heq | ⟨rest', heq⟩ <;>
      simp only [List.append_cancel_left_eq, List.cons.injEq, and_true] at heq
  · obtain ⟨h₁, h₂⟩ := heq
    exact Prod.ext h₁ (by simpa using h₂)
  · exact absurd heq.2.2 (by simp)
  · exact absurd heq.2.2 (by simp)
  · exact Prod.ext heq.1 heq.2.2.1

theorem ValidKey.dotted_not_attachment (hk : e.ValidKey k) {coll dir : String}
    {rest : Path} (hdir : dir.toList.head? = some '.') (hrest : rest ≠ []) :
    ¬ e.AttachmentPath k (e.dataDir ++ (coll :: dir :: rest)) := by
  intro hp
  rcases hk.attachmentPath hp with heq | ⟨r, heq⟩ <;>
    simp only [List.append_cancel_left_eq, List.cons.injEq] at heq
  · exact hrest heq.2.2
  · rw [heq.2.1] at hdir
    exact absurd hdir (by decide)
end Engine

def Attachments.blob (held : Attachments) : Path → Option File
  | [name] => (held name).map fun a => .bytes a.bytes
  | _ => none

structure Attached {ν : Type} (lib : FileLib) (e : Engine) (w : World ν) (k : Key)
    (held : Attachments) (rows : List FileEntry) : Prop where
  manifest : w.files (filesManifestPath e.dataDir k.1 k.2) = manifestFile rows
  fits : ∀ row ∈ rows, lib.Fits row
  lists : AttachmentStore.Lists lib held rows
  blobs : ∀ rest, w.files (lfsDir e.dataDir k.1 k.2 ++ rest) = held.blob rest

/-- The manifest of a document has exactly one entry for each blob that is stored for it, with the
size and the digest of the blob. -/
def ManifestMatches {ν : Type} (lib : FileLib) (e : Engine) (w : World ν) (k : Key) : Prop :=
  ∃ rows, w.manifest lib false (filesManifestPath e.dataDir k.1 k.2) = .ok rows ∧
    Keyed.Distinct FileEntry.name rows ∧
    (∀ row ∈ rows, ∃ data, w.files (lfsDir e.dataDir k.1 k.2 ++ [row.name]) = some (.bytes data) ∧
      row.byteSize = data.length ∧ row.sha256 = lib.sha256 data) ∧
    ∀ p, lfsDir e.dataDir k.1 k.2 <+: p → w.files p ≠ none →
      ∃ row ∈ rows, p = lfsDir e.dataDir k.1 k.2 ++ [row.name]

structure AttachmentSim {ν : Type} (lib : FileLib) (e : Engine) (host : Host ν) (w : World ν)
    (s : AttachmentStore) : Prop where
  documents : Sim e host w s.store
  attached : ∀ k, e.ValidKey k → ∃ rows, Attached lib e w k (s.files k) rows
  parents : ∀ k name a, s.files k name = some a → s.store.docs k ≠ none
  versions : ∀ k name a, s.files k name = some a → a.version ∈ s.used
  drawn : ∀ v ∈ s.used, ∃ n < w.issued, host.ids n = v

section
variable {ν : Type} {lib : FileLib} {e : Engine} {w w' : World ν} {k : Key} {held : Attachments}
  {rows : List FileEntry} {name : String}
theorem AttachmentStore.Lists.mem (h : AttachmentStore.Lists lib held rows) {row : FileEntry}
    (hrow : row ∈ rows) : ∃ a, held row.name = some a ∧ row = a.entry lib row.name := by
  have hfound : Keyed.lookup FileEntry.name row.name rows = some row :=
    (Keyed.lookup_eq_some _ h.ascending.distinct).mpr ⟨hrow, rfl⟩
  rw [h.rows] at hfound
  obtain ⟨a, ha, heq⟩ := Option.map_eq_some_iff.mp hfound
  exact ⟨a, ha, heq.symm⟩

theorem Attached.read (h : Attached lib e w k held rows) :
    w.manifest lib false (filesManifestPath e.dataDir k.1 k.2) = .ok rows :=
  World.manifest_of_file h.manifest h.fits

theorem Attached.matches (h : Attached lib e w k held rows) : ManifestMatches lib e w k := by
  refine ⟨rows, h.read, h.lists.ascending.distinct, ?_, ?_⟩
  · intro row hrow
    obtain ⟨a, ha, heq⟩ := h.lists.mem hrow
    refine ⟨a.bytes, ?_, ?_, ?_⟩
    · rw [h.blobs]
      simp [Attachments.blob, ha]
    · rw [heq]
      rfl
    · rw [heq]
      rfl
  · rintro p ⟨rest, rfl⟩ hp
    rw [h.blobs] at hp
    unfold Attachments.blob at hp
    split at hp
    · rename_i name
      cases hheld : held name with
      | none =>
        rw [hheld] at hp
        exact absurd rfl hp
      | some a =>
        have hfound : Keyed.lookup FileEntry.name name rows = some (a.entry lib name) := by
          rw [h.lists.rows, hheld]
          rfl
        exact ⟨_, Keyed.lookup_mem _ hfound, rfl⟩
    · exact absurd rfl hp

theorem Attached.congr (h : Attached lib e w k held rows)
    (hfiles : ∀ p, e.AttachmentPath k p → w'.files p = w.files p) :
    Attached lib e w' k held rows where
  manifest := (hfiles _ (.inl rfl)).trans h.manifest
  fits := h.fits
  lists := h.lists
  blobs rest := (hfiles _ (.inr ⟨rest, rfl⟩)).trans (h.blobs rest)

theorem Attached.swept (hmanifest : w.files (filesManifestPath e.dataDir k.1 k.2) = none)
    (hblobs : ∀ p, lfsDir e.dataDir k.1 k.2 <+: p → w.files p = none) :
    Attached lib e w k (fun _ => none) [] where
  manifest := hmanifest
  fits := by simp
  lists := ⟨.nil, fun name => rfl⟩
  blobs rest := by
    rw [hblobs _ ⟨rest, rfl⟩]
    unfold Attachments.blob
    split <;> rfl

theorem Attachments.blob_update (held : Attachments) (name : String) (a : Option Attachment)
    (rest : Path) : Attachments.blob (update held name a) rest =
      if rest = [name] then a.map fun a => .bytes a.bytes else held.blob rest := by
  unfold Attachments.blob
  split
  · rename_i other
    by_cases hname : other = name
    · simp [hname]
    · simp [hname]
  · rename_i hrest
    rw [if_neg]
    rintro rfl
    exact hrest name rfl

theorem Attached.change (h : Attached lib e w k held rows) {a : Option Attachment}
    {rows' : List FileEntry} (hdistinct : Keyed.Distinct FileEntry.name rows')
    (hfits : ∀ row ∈ rows', lib.Fits row)
    (hrows : ∀ other, Keyed.lookup FileEntry.name other rows' =
      if other = name then a.map (Attachment.entry lib name)
      else Keyed.lookup FileEntry.name other rows)
    (hmanifest : w'.files (filesManifestPath e.dataDir k.1 k.2) =
      manifestFile (Keyed.sort FileEntry.name rows'))
    (hblob : w'.files (lfsDir e.dataDir k.1 k.2 ++ [name]) = a.map fun a => .bytes a.bytes)
    (hother : ∀ rest, rest ≠ [name] → w'.files (lfsDir e.dataDir k.1 k.2 ++ rest) =
      w.files (lfsDir e.dataDir k.1 k.2 ++ rest)) :
    Attached lib e w' k (update held name a) (Keyed.sort FileEntry.name rows') where
  manifest := hmanifest
  fits row hrow := hfits row ((Keyed.sort_perm _ _).mem_iff.mp hrow)
  lists := by
    refine ⟨hdistinct.ascending, fun other => ?_⟩
    rw [Keyed.lookup_sort _ hdistinct, hrows]
    by_cases hname : other = name
    · rw [if_pos hname, hname, update_self]
    · rw [if_neg hname, update_of_ne hname, h.lists.rows]
  blobs rest := by
    rw [Attachments.blob_update]
    by_cases hrest : rest = [name]
    · rw [if_pos hrest, hrest, hblob]
    · rw [if_neg hrest, hother rest hrest, h.blobs]

theorem Attached.put (h : Attached lib e w k held rows) {a : Attachment}
    (hfits : lib.Fits (a.entry lib name))
    (hmanifest : w'.files (filesManifestPath e.dataDir k.1 k.2) = manifestFile
      (Keyed.sort FileEntry.name (Keyed.upsert FileEntry.name (a.entry lib name) rows)))
    (hblob : w'.files (lfsDir e.dataDir k.1 k.2 ++ [name]) = some (.bytes a.bytes))
    (hother : ∀ rest, rest ≠ [name] → w'.files (lfsDir e.dataDir k.1 k.2 ++ rest) =
      w.files (lfsDir e.dataDir k.1 k.2 ++ rest)) :
    Attached lib e w' k (update held name (some a))
      (Keyed.sort FileEntry.name (Keyed.upsert FileEntry.name (a.entry lib name) rows)) := by
  refine h.change (h.lists.ascending.distinct.upsert _ _) ?_ ?_ hmanifest hblob hother
  · intro row hrow
    rcases Keyed.mem_upsert _ hrow with rfl | hrow
    · exact hfits
    · exact h.fits row hrow
  · intro other
    exact Keyed.lookup_upsert FileEntry.name other (a.entry lib name) rows

theorem Attached.drop (h : Attached lib e w k held rows)
    (hmanifest : w'.files (filesManifestPath e.dataDir k.1 k.2) = manifestFile
      (Keyed.sort FileEntry.name (Keyed.erase FileEntry.name name rows)))
    (hblob : w'.files (lfsDir e.dataDir k.1 k.2 ++ [name]) = none)
    (hother : ∀ rest, rest ≠ [name] → w'.files (lfsDir e.dataDir k.1 k.2 ++ rest) =
      w.files (lfsDir e.dataDir k.1 k.2 ++ rest)) :
    Attached lib e w' k (update held name none)
      (Keyed.sort FileEntry.name (Keyed.erase FileEntry.name name rows)) := by
  refine h.change (h.lists.ascending.distinct.erase _ _) ?_ ?_ hmanifest hblob hother
  · intro row hrow
    exact h.fits row (List.mem_of_mem_filter hrow)
  · intro other
    exact Keyed.lookup_erase FileEntry.name name other rows
end
end Datorium
