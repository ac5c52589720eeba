
import Datorium.Engine.Crashes
import Datorium.Engine.StoredDocument
namespace Datorium
open Framework Sample Program World
inductive Replacement where
  | patch (req : Request)
  | migration (collection id : String) (plain : PlainName collection) (safe : DocumentId id)

namespace Replacement
def collection : Replacement → String
  | patch req => req.target
  | migration collection _ _ _ => collection

def id : Replacement → String
  | patch req => req.parameter
  | migration _ id _ _ => id

def prog (e : Engine) : Replacement → Prog Unit
  | patch req => do
      let _ ← Datorium.patch e req
  | migration collection id _ _ => do
      let _ ← applyToStoredDocument e collection id

/-- The operation gets to its write sequence and installs `new`. -/
def Installs {ν : Type} (e : Engine) (host : Host ν) (w : World ν) (new : Json) : Replacement → Prop
  | patch req => ∃ schemaRaw old ops, PatchReady e host .none req w schemaRaw old new ops
  | migration collection id _ _ => ∃ old, MigrationReady e host collection id w old new

def Commits {ν : Type} (e : Engine) (host : Host ν) (w : World ν) (r : Replacement) : Prop :=
  ∃ new, r.Installs e host w new
end Replacement

def Holds {ν : Type} (w : World ν) (path : Path) : Prop :=
  ∃ fields, w.files path = some (.json (.obj fields))

/-- The answer is not `documentNotFound`. -/
def Result.Found (res : Result) : Prop := ∀ err ∈ res.errors, err.code ≠ .documentNotFound

/-- At every step the live path holds what it holds before or what it holds after, and a read that
looks at it there finds a document that exists before and after. -/
structure Untorn {ν : Type} (e : Engine) (host : Host ν) (r : Replacement) (w : World ν) : Prop where
  whole : ∀ t ∈ (r.prog e).visited (exec host .none) w,
    t.files (e.live r.collection r.id) = w.files (e.live r.collection r.id) ∨
    t.files (e.live r.collection r.id) =
      ((r.prog e).run (exec host .none) w).2.files (e.live r.collection r.id)
  found : ∀ req : Request, req.target = r.collection → req.parameter = r.id →
    Holds w (e.live r.collection r.id) →
    Holds ((r.prog e).run (exec host .none) w).2 (e.live r.collection r.id) →
    ∀ t ∈ (r.prog e).visited (exec host .none) w,
      ((read e req).answered (exec host .none) t).Ends Result.Found

section
variable {ν : Type} {host : Host ν} {e : Engine} {req : Request} {w : World ν}
theorem answered_readDocumentJSON {α : Type} (site : Site) (path : Path)
    (f : Except FsError JsonFields → Prog α) :
    ((readDocumentJSON site path).bind f).answered (exec host .none) w =
      f (w.readFields false path) := by
  change Program.bind (Program.bind (Program.bind (.done (exec host .none
    ⟨site, .readFile path⟩ w).1) _) _) f = _
  cases hp : w.files path with
  | none =>
    simp only [readFields, readValue, exec, Call.apply, hp]
    rfl
  | some file =>
    simp only [readFields, readValue, exec, Call.apply, hp]
    cases file with
    | bytes data => rfl
    | json doc => cases doc <;> rfl

variable {res : Result} {r : Replacement} {new : Json}
theorem checkRouting_found (h : checkRouting e req = some res) : res.Found := by
  unfold checkRouting at h
  split at h
  · cases h
  · dsimp only at h
    split at h <;> split at h <;> cases h <;> simp [Result.Found, wrongMachineResult, Request.fail]

theorem checkStaleness_found (h : checkStaleness e req = some res) : res.Found := by
  unfold checkStaleness at h
  split at h
  · cases h
  · dsimp only at h
    split at h
    · cases h
      simp [Result.Found, Request.fail]
    · split at h <;> cases h
      simp [Result.Found, Request.fail]

theorem readAdmission_found (h : readAdmission e req = .error res) : res.Found := by
  unfold readAdmission at h
  split at h
  · cases h
    simp [Result.Found, Request.fail, invalidDocumentId]
  · split at h
    · rename_i wrong hrouting
      cases h
      exact checkRouting_found hrouting
    · split at h
      · rename_i wrong hstale
        cases h
        exact checkStaleness_found hstale
      · cases h

theorem read_found (h : Holds w (e.live req.target req.parameter)) :
    ((read e req).answered (exec host .none) w).Ends Result.Found := by
  obtain ⟨fields, hfile⟩ := h
  have hread : w.readFields false (e.live req.target req.parameter) = .ok fields :=
    readFields_eq_ok.mpr ⟨rfl, hfile⟩
  cases hadm : readAdmission e req with
  | error res => simpa [read, hadm, answered] using readAdmission_found hadm
  | ok u =>
    simp only [read, hadm, bind_eq, answered_readDocumentJSON, hread]
    refine .bind (ends_of_forall (fun _ => trivial) _) fun r _ => ?_
    cases r with
    | error err => simp [Result.Found, Request.fail]
    | ok current =>
      have hok : ∀ summaries, (readResponse e req current summaries).Found := by
        simp [Result.Found, readResponse]
      simp only [readDocument]
      split
      · exact .bind (ends_of_forall (fun _ => trivial) _) fun _ _ => hok _
      · exact hok _

theorem Untorn.of_whole (h : ∀ t ∈ (r.prog e).visited (exec host .none) w,
      t.files (e.live r.collection r.id) = w.files (e.live r.collection r.id) ∨
      t.files (e.live r.collection r.id) =
        ((r.prog e).run (exec host .none) w).2.files (e.live r.collection r.id)) :
    Untorn e host r w where
  whole := h
  found req htarget hparam hbefore hafter t ht := by
    refine read_found ?_
    rw [htarget, hparam]
    rcases h t ht with hlive | hlive
    · obtain ⟨fields, hfields⟩ := hbefore
      exact ⟨fields, hlive.trans hfields⟩
    · obtain ⟨fields, hfields⟩ := hafter
      exact ⟨fields, hlive.trans hfields⟩

theorem Replacement.ensures_prog {crash : Op → World ν → Prop} {Q : World ν → Prop} :
    (r.prog e).Ensures (exec host .none) crash (fun _ t => Q t) w ↔ match r with
      | .patch req => (Datorium.patch e req).Ensures (exec host .none) crash (fun _ t => Q t) w
      | .migration c i _ _ => (applyToStoredDocument e c i).Ensures (exec host .none) crash
          (fun _ t => Q t) w := by
  cases r <;> simp [Replacement.prog]

theorem Replacement.idle (h : ¬ r.Commits e host w) :
    (r.prog e).Ensures (exec host .none) (fun _ t => w.Drawn t) (fun _ t => w.Drawn t) w := by
  rw [Replacement.ensures_prog]
  cases r with
  | patch req =>
    exact (idle_patch fun s o n p hr => h ⟨n, s, o, p, hr⟩).mono (fun _ _ hc => hc)
      fun _ _ hp => hp.2
  | migration c i hc hi =>
    exact (idle_applyToStoredDocument fun o n hr => h ⟨n, o, hr⟩).mono (fun _ _ hc => hc)
      fun _ _ hp => hp.2

theorem Replacement.queuePath_ne_live (h : r.Installs e host w new) :
    e.live r.collection r.id ≠ queuePath e.dataDir .patch r.collection r.id := by
  have hplain : PlainName r.collection ∧ DocumentId r.id := by
    cases r with
    | patch req =>
      obtain ⟨s, o, p, hr⟩ := h
      obtain ⟨hraw, hid⟩ := patchAdmission_ok hr.admitted
      exact ⟨e.cfg.plainNames _ (configured_of_schema hraw), hid⟩
    | migration c i hc hi => exact ⟨hc, hi⟩
  rw [queuePath_eq hplain.1 hplain.2, Engine.live, documentPath_eq hplain.1 hplain.2]
  simp

theorem Replacement.ensures_live (crash : Stage → Option File → Prop) (he : e.PlainTargets)
    (h : r.Installs e host w new)
    (hdeciding : crash .deciding (w.files (e.live r.collection r.id)))
    (hwriting : crash .writing ((w.preserved e r.collection r.id).files (e.live r.collection r.id)))
    (hrest : ∀ stage, crash stage (some (.json new))) :
    (r.prog e).Ensures (exec host .none)
      (atStage fun stage t => crash stage (t.files (e.live r.collection r.id)))
      (fun _ t => t.files (e.live r.collection r.id) = some (.json new)) w := by
  have hqueue := Replacement.queuePath_ne_live h
  have hend : ∀ w' : World ν, ((w'.put (e.live r.collection r.id) (some (.json new))).put
      (queuePath e.dataDir .patch r.collection r.id) (some .marker)).files
        (e.live r.collection r.id) = some (.json new) := by
    intro w'
    rw [put_files_other _ hqueue, put_files_same]
  have hput : ∀ (w' : World ν) stage, crash stage ((w'.put (e.live r.collection r.id)
      (some (.json new))).files (e.live r.collection r.id)) := by
    intro w' stage
    rw [put_files_same]
    exact hrest stage
  have hshown : ∀ (t : World ν) stage, t.files (e.live r.collection r.id) = some (.json new) →
      crash stage (t.files (e.live r.collection r.id)) := by
    intro t stage ht
    rw [ht]
    exact hrest stage
  have hidle : ∀ t, w.Drawn t → crash .deciding (t.files (e.live r.collection r.id)) := by
    intro t ht
    rwa [ht.files]
  rw [Replacement.ensures_prog]
  cases r with
  | patch req =>
    obtain ⟨schemaRaw, old, ops, hready⟩ := h
    obtain ⟨hraw, hid⟩ := patchAdmission_ok hready.admitted
    have hc := configured_of_schema hraw
    refine ensures_patch_ready hready rfl hidle (by rw [preserved_tick_files]; exact hwriting)
      (hput _ _) ?_
    rintro w' rfl
    refine ⟨hshown _ _ (hend _), ?_⟩
    have hkeep : Keeps (e.live req.target req.parameter) (deliverOnce e
        (patchItem req (req.patchOperationId host w) (host.ids w.issued) ops new)
        (patchResponse req (e.cfg.currentSchemaMarker req.target)
          (req.patchOperationId host w) (host.ids w.issued))) :=
      keeps_deliverOnce_live he hc hid ⟨_, _, hc, hid, rfl⟩ _
    exact hkeep.ensures.mono (fun op t ht => hshown t _ (ht.trans (hend _)))
      fun _ t ht => ht.trans (hend _)
  | migration coll id hc hid =>
    obtain ⟨old, hready⟩ := h
    exact ensures_applyToStoredDocument hready rfl hidle (by rw [preserved_tick_files]; exact hwriting)
      (hput _ _) (hend _)

theorem Replacement.untorn_of_previous (he : e.PlainTargets) (h : r.Commits e host w)
    (hp : w.files (e.previous r.collection r.id) ≠ none) : Untorn e host r w := by
  obtain ⟨new, hnew⟩ := h
  have hlive := Replacement.ensures_live (fun _ file =>
      file = w.files (e.live r.collection r.id) ∨ file = some (.json new)) he hnew (.inl rfl)
    (.inl (by rw [preserved, if_neg hp])) fun _ => .inr rfl
  refine .of_whole fun t ht => ?_
  rw [hlive.2]
  exact hlive.visited (fun _ _ h => h) (fun _ _ h => .inr h) ht

theorem mem_stops_replaceDocument {place : Site → Site} {coll id : String} {doc : Json}
    (hlive : w.files (e.live coll id) ≠ none) :
    ∃ op, (op, w.preserved e coll id) ∈
      (replaceDocument place e coll id doc).stops (exec host .none) w := by
  have hok : ¬ PreserveBlocked e place .none coll id w := by simp [PreserveBlocked, hlive]
  refine ⟨⟨place (.write .mkdir), .prepare .mkdir (e.live coll id)⟩, ?_⟩
  have hrun : (preservePreviousIfAbsent place e.dataDir coll id).run (exec host .none) w = _ :=
    run_preserve_ok hok
  simp only [replaceDocument, bind_eq, stops_bind, hrun,
    writeDocumentJSONVerified, writeFileAtomic, prepareSteps, prepareFile]
  refine List.mem_append_right _ (List.mem_append_left _ (List.mem_append_left _
    (List.mem_append_left _ (List.mem_append_left _ ?_))))
  exact List.mem_cons_self

theorem preserved_visited (h : r.Commits e host w) : ∃ t ∈ (r.prog e).visited (exec host .none) w,
      t.files = (w.preserved e r.collection r.id).files := by
  obtain ⟨new, hnew⟩ := h
  cases r with
  | patch req =>
    obtain ⟨schemaRaw, old, ops, hready⟩ := hnew
    obtain ⟨op, hop⟩ := @mem_stops_replaceDocument ν host e (w.tick (1 + req.operationIdDraws))
      id req.target req.parameter new (by simp [hready.stored])
    refine ⟨_, (mem_visited_iff _ _ _).mpr (.inl ⟨op, ?_⟩),
      preserved_tick_files w (1 + req.operationIdDraws) _ _⟩
    simp only [Replacement.prog, bind_eq, stops_bind]
    exact List.mem_append_left _ (mem_stops_patch hready hop)
  | migration coll docId hc hid =>
    obtain ⟨old, hready⟩ := hnew
    obtain ⟨op, hop⟩ := @mem_stops_replaceDocument ν host e (w.tick 1) .migration coll
      docId new (by simp [hready.stored])
    refine ⟨_, (mem_visited_iff _ _ _).mpr (.inl ⟨op, ?_⟩), preserved_tick_files w 1 _ _⟩
    simp only [Replacement.prog, bind_eq, stops_bind]
    exact List.mem_append_left _ (mem_stops_applyToStoredDocument hready hop)

theorem Replacement.Installs.stored (h : r.Installs e host w new) :
    DocumentId r.id ∧ w.files (e.live r.collection r.id) ≠ none := by
  cases r with
  | patch req =>
    obtain ⟨schemaRaw, old, ops, hready⟩ := h
    exact ⟨(patchAdmission_ok hready.admitted).2, fun hnone => by
      cases hready.stored.symm.trans hnone⟩
  | migration coll id hc hid =>
    obtain ⟨old, hready⟩ := h
    exact ⟨hid, fun hnone => by cases hready.stored.symm.trans hnone⟩

/-- The live path holds the old or the new document throughout exactly when the operation does
not get to its write sequence or finds a previous version already kept. -/
theorem replacement_untorn_iff (he : e.PlainTargets) (r : Replacement) :
    Untorn e host r w ↔ ¬ (r.Commits e host w ∧ w.files (e.previous r.collection r.id) = none) := by
  constructor
  · rintro huntorn ⟨hcommits, hp⟩
    obtain ⟨t, ht, hfiles⟩ := preserved_visited hcommits
    obtain ⟨new, hnew⟩ := hcommits
    obtain ⟨hid, hstored⟩ := hnew.stored
    have hgone : t.files (e.live r.collection r.id) = none := by
      rw [hfiles, preserved, if_pos hp]
      exact move_files_source w (documentPath_ne_previousDocumentPath hid)
    have hfinal : ((r.prog e).run (exec host .none) w).2.files (e.live r.collection r.id) =
        some (.json new) :=
      (Replacement.ensures_live (fun _ _ => True) he hnew trivial trivial fun _ => trivial).2
    rcases huntorn.whole t ht with hlive | hlive
    · exact hstored (hlive.symm.trans hgone)
    · cases hgone.symm.trans (hlive.trans hfinal)
  · intro hnot
    by_cases hcommits : r.Commits e host w
    · exact Replacement.untorn_of_previous he hcommits fun hp => hnot ⟨hcommits, hp⟩
    · refine .of_whole fun t ht => .inl ?_
      have hdrawn : w.Drawn t :=
        (Replacement.idle hcommits).visited (fun _ _ h => h) (fun _ _ h => h) ht
      rw [hdrawn.files]
end

theorem replacement_untorn_second_patch : Untorn server host (.patch (patchRequest "v2"))
      (after (patchRequest "v1") (after createRequest emptyWorld)) :=
  (replacement_untorn_iff server_plainTargets _).mpr fun h => by
    have hkept := congrArg Option.isSome h.2
    revert hkept
    decide +kernel

/-- During the first patch of a document a read answers `documentNotFound`. -/
theorem replacement_torn_first_patch : ¬ Untorn server host (.patch (patchRequest "v1"))
        (after createRequest emptyWorld) ∧
      ∃ t ∈ (Replacement.prog server (.patch (patchRequest "v1"))).visited
          (exec host .none) (after createRequest emptyWorld),
        ((read server readRequest).run (exec host .none) t).1.errors.map
          ApiError.code = [.documentNotFound] := by
  refine ⟨fun h => ?_, ?_⟩
  · have hempty : ((Replacement.prog server (.patch (patchRequest "v1"))).visited
        (exec host .none) (after createRequest emptyWorld)).any
          (fun t => (t.files (server.live "Movies" "alien")).isNone) = true := by
      decide +kernel
    obtain ⟨t, ht, hnone⟩ := List.any_eq_true.mp hempty
    have hgone := Option.isNone_iff_eq_none.mp hnone
    rcases h.whole t ht with hsame | hsame
    all_goals
      have hsome := congrArg Option.isSome (hgone.symm.trans hsame)
      revert hsome
      decide +kernel
  · have hread : ((Replacement.prog server (.patch (patchRequest "v1"))).visited
        (exec host .none) (after createRequest emptyWorld)).any
          (fun t => ((read server readRequest).run (exec host .none)
            t).1.errors.map ApiError.code = [.documentNotFound]) = true := by
      decide +kernel
    obtain ⟨t, ht, hcode⟩ := List.any_eq_true.mp hread
    exact ⟨t, ht, of_decide_eq_true hcode⟩
end Datorium
