
import Datorium.Engine.StoredDocument
namespace Datorium
open Framework Sample
section
variable {ν : Type} {host : Host ν} {faults : Faults} {e : Engine} {req : Request} {w : World ν}
/-- The document, its previous version, its queue entries and its attachments are as they were. -/
structure DocumentUnchanged (e : Engine) (req : Request) (w w' : World ν) : Prop where
  live : w'.files (e.live req.target req.parameter) = w.files (e.live req.target req.parameter)
  previous : w'.files (e.previous req.target req.parameter) =
    w.files (e.previous req.target req.parameter)
  queue : ∀ change, w'.files (queuePath e.dataDir change req.target req.parameter) =
    w.files (queuePath e.dataDir change req.target req.parameter)
  taken : ∀ change, w'.files (takenQueuePath e.dataDir change req.target req.parameter) =
    w.files (takenQueuePath e.dataDir change req.target req.parameter)
  manifest : w'.files (filesManifestPath e.dataDir req.target req.parameter) =
    w.files (filesManifestPath e.dataDir req.target req.parameter)
  attachments : ∀ p, lfsDir e.dataDir req.target req.parameter <+: p ∨
    fileOpsDir e.dataDir req.target req.parameter <+: p → w'.files p = w.files p

theorem DocumentUnchanged.of_files {w' : World ν} (h : w'.files = w.files) :
    DocumentUnchanged e req w w' := by
  constructor <;> intros <;> rw [h]

def CreateTorn (e : Engine) (host : Host ν) (faults : Faults) (req : Request) (w : World ν) :
    Prop :=
  ∃ schemaRaw doc, CreateReady e host faults req w schemaRaw doc ∧
    ¬ CreateRefused e faults req w ∧ ¬ CreateBlocked faults ∧ CreateUnfinished faults doc

def PatchTorn (e : Engine) (host : Host ν) (faults : Faults) (req : Request) (w : World ν) :
    Prop :=
  ∃ schemaRaw old new ops, PatchReady e host faults req w schemaRaw old new ops ∧
    ¬ PreserveBlocked e id faults req.target req.parameter w ∧
    ((∃ step, faults (.write step) = true) ∧ w.files (e.previous req.target req.parameter) = none ∨
      (¬ ∃ step, faults (.write step) = true) ∧ (Unverifiable faults id new ∨ QueueFails faults id))

def DeleteTorn (e : Engine) (faults : Faults) (req : Request) (w : World ν) : Prop :=
  ∃ old, DeleteReady e faults req w old ∧ faults .softDeleteMove = false ∧ DeleteUnfinished faults

def Torn (e : Engine) (host : Host ν) (faults : Faults) (req : Request) (w : World ν) : Prop :=
  match req.command with
  | .create => CreateTorn e host faults req w
  | .patch => PatchTorn e host faults req w
  | .delete => DeleteTorn e faults req w
  | .read => False

def FreshFor (e : Engine) (host : Host ν) (req : Request) (w : World ν) : Prop :=
  ∀ n, w.issued ≤ n → ∀ doc, w.files (e.live req.target req.parameter) = some (.json doc) →
    doc.get? "#" ≠ some (.str (host.ids n))

theorem FreshFor.changed (h : FreshFor e host req w) {doc : Json} {n : Nat} (hn : w.issued ≤ n)
    (hdoc : doc.get? "#" = some (.str (host.ids n))) :
    some (File.json doc) ≠ w.files (e.live req.target req.parameter) :=
  fun heq => h n hn doc heq.symm hdoc

theorem CreateReady.unique {schemaRaw schemaRaw' doc doc' : Json}
    (h : CreateReady e host faults req w schemaRaw doc)
    (h' : CreateReady e host faults req w schemaRaw' doc') : doc = doc' := by
  have hs : schemaRaw = schemaRaw' := Except.ok.inj (h.admitted.symm.trans h'.admitted)
  subst hs
  exact Except.ok.inj (h.encoded.symm.trans h'.encoded)

theorem PatchReady.unique {schemaRaw schemaRaw' old old' new new' : Json}
    {ops ops' : List JsonFields} (h : PatchReady e host faults req w schemaRaw old new ops)
    (h' : PatchReady e host faults req w schemaRaw' old' new' ops') : new = new' := by
  have hs : schemaRaw = schemaRaw' := Except.ok.inj (h.admitted.symm.trans h'.admitted)
  have ho : old = old' := by
    have := h.stored.symm.trans h'.stored
    simpa using this
  subst hs ho
  obtain ⟨_, _, _, hr, hst, henc⟩ := h.encoded
  obtain ⟨_, _, _, hr', hst', henc'⟩ := h'.encoded
  cases hr.symm.trans hr'
  cases hst.symm.trans hst'
  exact Except.ok.inj (henc.symm.trans henc')

theorem create_atomic_iff (hfresh : FreshFor e host req w) :
    (((create e req).run (exec host faults) w).1.ok = false →
      DocumentUnchanged e req w ((create e req).run (exec host faults) w).2) ↔
      ¬ CreateTorn e host faults req w := by
  by_cases hready : ∃ schemaRaw doc, CreateReady e host faults req w schemaRaw doc
  swap
  · obtain ⟨res, n, hrun, -⟩ :=
      (idle_create fun s d h => hready ⟨s, d, h⟩).run
    rw [hrun]
    exact iff_of_true (fun _ => .of_files rfl) fun ⟨s, d, h, _⟩ => hready ⟨s, d, h⟩
  obtain ⟨schemaRaw, doc, h⟩ := hready
  rw [run_create_ready h]
  by_cases hr : CreateRefused e faults req w
  · rw [run_createLocal_refused (w := w.tick (req.operationIdDraws + 1)) hr]
    exact iff_of_true (fun _ => .of_files rfl) fun ⟨_, _, _, hn, _⟩ => hn hr
  by_cases hb : CreateBlocked faults
  · obtain ⟨err, herr⟩ := run_createLocal_blocked host doc
      (w := w.tick (req.operationIdDraws + 1)) hr hb
    rw [herr]
    exact iff_of_true (fun _ => .of_files rfl) fun ⟨_, _, _, _, hn, _⟩ => hn hb
  by_cases hu : CreateUnfinished faults doc
  · obtain ⟨err, herr⟩ := run_createLocal_unfinished host
      (w := w.tick (req.operationIdDraws + 1)) hr hb hu
    rw [herr]
    refine iff_of_false (fun hall => ?_) fun hn => hn ⟨schemaRaw, doc, h, hr, hb, hu⟩
    have hlive := (hall rfl).live
    rw [World.put_files_same] at hlive
    exact hfresh.changed (Nat.le_add_right _ _) h.stamped.2.2.1 hlive
  · rw [run_createLocal_ok (w := w.tick (req.operationIdDraws + 1)) hr hb hu]
    refine iff_of_true (fun hfail => ?_) fun ⟨_, _, h', _, _, hu'⟩ => hu (h.unique h' ▸ hu')
    rw [run_deliverOnce_ok] at hfail
    cases hfail

theorem preserved_live (hid : DocumentId req.parameter)
    (hp : w.files (e.previous req.target req.parameter) = none) :
    (w.preserved e req.target req.parameter).files (e.live req.target req.parameter) = none := by
  rw [World.preserved, if_pos hp]
  exact World.move_files_source w (documentPath_ne_previousDocumentPath hid)

theorem preserved_files_of_previous (hp : w.files (e.previous req.target req.parameter) ≠ none) :
    (w.preserved e req.target req.parameter).files = w.files := by
  rw [World.preserved, if_neg hp]

theorem patch_atomic_iff (hfresh : FreshFor e host req w) :
    (((patch e req).run (exec host faults) w).1.ok = false →
      DocumentUnchanged e req w ((patch e req).run (exec host faults) w).2) ↔
      ¬ PatchTorn e host faults req w := by
  by_cases hready : ∃ schemaRaw old new ops, PatchReady e host faults req w schemaRaw old new ops
  swap
  · obtain ⟨res, n, hrun, -⟩ :=
      (idle_patch fun s o d p h => hready ⟨s, o, d, p, h⟩).run
    rw [hrun]
    exact iff_of_true (fun _ => .of_files rfl) fun ⟨s, o, d, p, h, _⟩ => hready ⟨s, o, d, p, h⟩
  obtain ⟨schemaRaw, old, new, ops, h⟩ := hready
  obtain ⟨-, hid⟩ := patchAdmission_ok h.admitted
  rw [run_patch_ready h]
  by_cases hb : PreserveBlocked e id faults req.target req.parameter w
  · obtain ⟨err, herr⟩ := run_replaceDocument_blocked host new
      (w := w.tick (1 + req.operationIdDraws)) hb
    rw [herr]
    exact iff_of_true (fun _ => .of_files rfl) fun ⟨_, _, _, _, _, hn, _⟩ => hn hb
  by_cases hw : ∃ step, faults (.write step) = true
  · obtain ⟨err, herr⟩ := run_replaceDocument_unwritten host new
      (w := w.tick (1 + req.operationIdDraws)) hb hw
    rw [herr]
    -- without a previous version the live document has just been renamed away
    by_cases hp : w.files (e.previous req.target req.parameter) = none
    · refine iff_of_false (fun hall => ?_) fun hn =>
        hn ⟨schemaRaw, old, new, ops, h, hb, .inl ⟨hw, hp⟩⟩
      have hgone := preserved_live (w := w.tick (1 + req.operationIdDraws)) hid hp
      have hlive := hgone.symm.trans (hall rfl).live
      rw [h.stored] at hlive
      cases hlive
    · have hkept := preserved_files_of_previous (w := w.tick (1 + req.operationIdDraws)) hp
      refine iff_of_true (fun _ => .of_files hkept) fun ⟨_, _, _, _, _, _, hn⟩ => ?_
      rcases hn with hn | hn
      · exact hp hn.2
      · exact hn.1 hw
  by_cases hu : Unverifiable faults id new ∨ QueueFails faults id
  · obtain ⟨err, herr⟩ := run_replaceDocument_unfinished host
      (w := w.tick (1 + req.operationIdDraws)) hb hw hu
    rw [herr]
    refine iff_of_false (fun hall => ?_) fun hn =>
      hn ⟨schemaRaw, old, new, ops, h, hb, .inr ⟨hw, hu⟩⟩
    have hlive := (hall rfl).live
    rw [World.put_files_same] at hlive
    exact hfresh.changed (Nat.le_refl _) h.stamped.2.2.1 hlive
  · rw [run_replaceDocument_ok (w := w.tick (1 + req.operationIdDraws)) hb hw hu]
    refine iff_of_true (fun hfail => ?_) fun ⟨_, _, _, _, h', _, hu'⟩ => ?_
    · rw [run_deliverOnce_ok] at hfail
      cases hfail
    · rw [← h.unique h'] at hu'
      rcases hu' with hu' | hu'
      · exact hw hu'.1
      · exact hu hu'.2

theorem delete_atomic_iff : (((delete e req).run (exec host faults) w).1.ok = false →
      DocumentUnchanged e req w ((delete e req).run (exec host faults) w).2) ↔
      ¬ DeleteTorn e faults req w := by
  by_cases hready : ∃ old, DeleteReady e faults req w old
  swap
  · have hidle : Idle host faults _ (delete e req) w := idle_delete fun o h => hready ⟨o, h⟩
    obtain ⟨res, n, hrun, -⟩ := hidle.run
    rw [hrun]
    exact iff_of_true (fun _ => .of_files rfl) fun ⟨o, h, _⟩ => hready ⟨o, h⟩
  obtain ⟨old, h⟩ := hready
  have hid := deleteAdmission_ok h.admitted
  have hstored : (w.tick req.operationIdDraws).files (e.live req.target req.parameter) =
      some (.json (.obj old)) := h.stored
  rw [run_delete_ready h]
  cases hm : faults .softDeleteMove with
  | true =>
    obtain ⟨err, herr⟩ := run_deleteCommit_blocked host (req.operationIdIn host w)
      (w := w.tick req.operationIdDraws) (e := e) (Or.inl hm)
    rw [herr]
    refine iff_of_true (fun _ => .of_files rfl) fun ⟨_, _, hn, _⟩ => ?_
    rw [hm] at hn
    cases hn
  | false =>
    by_cases hu : DeleteUnfinished faults
    · obtain ⟨err, w', herr, hgone⟩ := run_deleteCommit_unfinished host
        (req.operationIdIn host w) hid hm hstored hu
      rw [herr]
      refine iff_of_false (fun hall => ?_) fun hn => hn ⟨old, h, hm, hu⟩
      have hlive := (hall rfl).live
      rw [hgone, h.stored] at hlive
      cases hlive
    · rw [run_deleteCommit_ok hm hstored hu]
      refine iff_of_true (fun hfail => ?_) fun ⟨_, _, _, hu'⟩ => hu hu'
      rw [run_deliverOnce_ok] at hfail
      cases hfail

/-- A write that answers `ok: false` has left its document alone exactly when no call failed after
the first change of the live document. -/
theorem error_atomicity_iff (hcmd : req.command ≠ .read) (hfresh : FreshFor e host req w) :
    (((execute e req).run (exec host faults) w).1.ok = false →
      DocumentUnchanged e req w ((execute e req).run (exec host faults) w).2) ↔
      ¬ Torn e host faults req w := by
  cases hc : req.command with
  | create => simpa only [execute, Torn, hc] using create_atomic_iff hfresh
  | read => exact absurd hc hcmd
  | patch => simpa only [execute, Torn, hc] using patch_atomic_iff hfresh
  | delete => simpa only [execute, Torn, hc] using delete_atomic_iff
end

theorem error_atomicity_of_failed_sync : DocumentUnchanged server createRequest emptyWorld
      ((execute server createRequest).run
        (exec host (fun site => site = .write .sync)) emptyWorld).2 :=
  (error_atomicity_iff (by decide) (by rintro n - doc ⟨⟩)).mpr
    (fun ⟨_, _, _, _, hb, _⟩ => hb (.inr ⟨.sync, by decide⟩)) (by decide +kernel)

/-- The first patch of a document cannot sync its temporary file, and the document is gone. -/
theorem error_atomicity_fails : ((execute server (patchRequest "v1")).run
        (exec host (fun site => site = .write .sync))
        (after createRequest emptyWorld)).1.ok = false ∧
      ¬ DocumentUnchanged server (patchRequest "v1") (after createRequest emptyWorld)
        ((execute server (patchRequest "v1")).run (exec host (fun site => site = .write .sync))
          (after createRequest emptyWorld)).2 := by
  refine ⟨by decide +kernel, fun h => ?_⟩
  have hlive := congrArg Option.isSome h.live
  revert hlive
  decide +kernel
end Datorium
