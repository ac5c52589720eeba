
import Mathlib.Logic.Relation
import Datorium.Caches.Net
namespace Datorium
open Framework Program World
section
variable {ν : Type} {host : Host ν} {faults : Faults} {e : Engine} {coll docId : String}
  {w : World ν}
def Replaces (live previous : Path) (new : Json) (op : Op) : Prop :=
  op.call.Avoids live ∨ op.call = .rename live previous ∨ op.call = .install live (.json new)

theorem permits_replaces (live previous : Path) (new : Json) (place : Site → Site) (stage : Stage) :
    Permits (Replaces live previous new) place stage :=
  fun site call hsite hcall => .inl (permits_avoids live place stage site call hsite hcall)

theorem Replaces.exec {live previous : Path} {new : Json} {op : Op} (hne : live ≠ previous)
    (h : Replaces live previous new op) :
    (exec host faults op w).2.files live = w.files live ∨
      (exec host faults op w).2.files live = none ∨
      (exec host faults op w).2.files live = some (.json new) := by
  obtain ⟨site, call⟩ := op
  rcases h with h | h | h
  · exact .inl (h.exec w)
  · dsimp only at h
    subst h
    unfold Datorium.exec
    split
    · exact .inl rfl
    · cases hfile : w.files live with
      | none => exact .inl (by simp [Call.apply, hfile])
      | some file => exact .inr (.inl (by simp [Call.apply, hfile, move_files_source w hne]))
  · dsimp only at h
    subst h
    unfold Datorium.exec
    split
    · exact .inl rfl
    · exact .inr (.inr (by simp [Call.apply]))

theorem Replaces.run {α : Type} {p : Prog α} {live previous : Path} {new : Json}
    (hne : live ≠ previous) (hp : p.Only (Replaces live previous new)) :
    (p.run (Datorium.exec host faults) w).2.files live = w.files live ∨
      (p.run (Datorium.exec host faults) w).2.files live = none ∨
      (p.run (Datorium.exec host faults) w).2.files live = some (.json new) := by
  have hstep : ∀ op (t : World ν), Replaces live previous new op →
      t.files live = w.files live ∨ t.files live = none ∨ t.files live = some (.json new) →
      (Datorium.exec host faults op t).2.files live = w.files live ∨
        (Datorium.exec host faults op t).2.files live = none ∨
        (Datorium.exec host faults op t).2.files live = some (.json new) := by
    intro op t hop ht
    rcases hop.exec hne with hsame | hdone
    · rwa [hsame]
    · exact .inr hdone
  exact hp.run hstep (.inl rfl)

theorem only_replaceDocument {place : Site → Site} {new : Json} {P : Op → Prop}
    (hP : ∀ stage, Permits P place stage)
    (hrename : P ⟨place .preserveRename, .rename (e.live coll docId) (e.previous coll docId)⟩)
    (hinstall : P ⟨place (.write .rename), .install (e.live coll docId) (.json new)⟩)
    (hqueue : P ⟨place (.queue .rename),
      .install (queuePath e.dataDir .patch coll docId) .marker⟩) :
    (replaceDocument place e coll docId new).Only P := by
  have hpreserve := only_preservePreviousIfAbsent (hP _ .preserveStatPrevious _ rfl trivial)
    (hP _ .preserveStatLive _ rfl trivial) hrename
  have hwrite := only_writeDocumentJSONVerified (fun step => hP _ (.write step) _ rfl trivial)
    hinstall fun attempt => hP _ (.verify attempt) _ rfl trivial
  exact only_replaceDocument_of_parts hpreserve hwrite
    (only_enqueueChange (hP _ .queueDir _ rfl trivial)
      (fun step => hP _ (.queue step) _ rfl trivial) hqueue)

theorem queuePath_ne_documentPath {dataDir : Path} {coll' docId' : String}
    (hc : PlainName coll) (hid : DocumentId docId) (hc' : PlainName coll')
    (hid' : DocumentId docId') (change : Command) :
    queuePath dataDir change coll' docId' ≠ documentPath dataDir coll docId := by
  rw [queuePath_eq hc' hid', documentPath_eq hc hid]
  intro heq
  simpa using congrArg List.length heq

theorem replaceDocument_live (hc : PlainName coll) (hid : DocumentId docId) (new : Json)
    (place : Site → Site) :
    ((replaceDocument place e coll docId new).run (exec host faults) w).2.files
        (e.live coll docId) = w.files (e.live coll docId) ∨
      ((replaceDocument place e coll docId new).run (exec host faults) w).2.files
        (e.live coll docId) = none ∨
      ((replaceDocument place e coll docId new).run (exec host faults) w).2.files
        (e.live coll docId) = some (.json new) := by
  have honly : (replaceDocument place e coll docId new).Only
      (Replaces (e.live coll docId) (e.previous coll docId) new) :=
    only_replaceDocument (permits_replaces _ _ _ place) (.inr (.inl rfl)) (.inr (.inr rfl))
      (.inl (queuePath_ne_documentPath hc hid hc hid .patch))
  exact Replaces.run (documentPath_ne_previousDocumentPath hid) honly

/-- The live document is what it was, or it was behind its schema and is now gone or has a version
this server has drawn. -/
def Migrated (e : Engine) (host : Host ν) (collection docId : String) (w w' : World ν) : Prop :=
  w'.files (e.live collection docId) = w.files (e.live collection docId) ∨
    (∃ doc, w.files (e.live collection docId) = some (.json (.obj doc)) ∧
      needsMigration e.cfg collection doc = true) ∧
    (w'.files (e.live collection docId) = none ∨
      ∃ n new, w'.files (e.live collection docId) = some (.json new) ∧
        documentVersion new = host.ids n)

theorem applyToStoredDocument_own (hc : PlainName coll) (hid : DocumentId docId) :
    Migrated e host coll docId w
      ((applyToStoredDocument e coll docId).run (exec host faults) w).2 := by
  rw [applyToStoredDocument, bind_eq, run_bind, run_readDocumentJSON]
  cases hread : w.readFields (faults (.migration .readLive)) (e.live coll docId) with
  | error err => exact .inl rfl
  | ok doc =>
    obtain ⟨-, hstored⟩ := readFields_eq_ok.mp hread
    dsimp only
    split
    · exact .inl rfl
    rename_i hneeds
    split
    · exact .inl rfl
    rename_i migrated hmigrated
    rw [bind_eq, run_bind, run_newId]
    by_cases hfault : faults (.migration .version) = true
    · rw [if_pos hfault]
      exact .inl rfl
    rw [if_neg hfault]
    dsimp only
    split
    · exact .inl rfl
    rename_i new hnew
    have hstale : ∃ doc, w.files (e.live coll docId) = some (.json (.obj doc)) ∧
        needsMigration e.cfg coll doc = true := ⟨doc, hstored, by simpa using hneeds⟩
    have hmoved := @replaceDocument_live ν host faults e coll docId
      { w with issued := w.issued + 1 } hc hid new .migration
    rw [bind_eq, run_bind]
    generalize (replaceDocument .migration e coll docId new).run (exec host faults)
      { w with issued := w.issued + 1 } = done at hmoved ⊢
    obtain ⟨r, t⟩ := done
    have hmigrated : Migrated e host coll docId w t := by
      rcases hmoved with hsame | hgone | hinstalled
      · exact .inl hsame
      · exact .inr ⟨hstale, .inl hgone⟩
      · exact .inr ⟨hstale, .inr ⟨w.issued, new, hinstalled, migratedDocument_version hnew⟩⟩
    cases r <;> exact hmigrated

theorem keeps_applyToStoredDocument {coll' docId' : String} (hc : PlainName coll)
    (hid : DocumentId docId) (hc' : PlainName coll') (hid' : DocumentId docId')
    (hne : e.live coll' docId' ≠ e.live coll docId) :
    Keeps (e.live coll docId) (applyToStoredDocument e coll' docId') := by
  have hprevious : e.previous coll' docId' ≠ e.live coll docId := by
    rw [Engine.previous, Engine.live, previousDocumentPath_eq hc' hid', documentPath_eq hc hid]
    intro heq
    have hname : "." ++ docId' ++ ".json" = docId ++ ".json" := by
      simpa using congrArg List.getLast? heq
    exact live_name_ne_previous_name hid docId' hname.symm
  refine .bindOk (only_readDocumentJSON trivial) (fun _ => trivial) fun doc => ?_
  dsimp only
  split
  · trivial
  split
  · trivial
  refine .bindOk (only_perform trivial) (fun _ => trivial) fun version => ?_
  dsimp only
  split
  · trivial
  refine .bind (only_replaceDocument (permits_avoids _ _) ⟨hne, hprevious⟩ hne
    (queuePath_ne_documentPath hc hid hc' hid' .patch)) fun r => ?_
  cases r <;> trivial

def StubsOnly (w w' : World ν) : Prop :=
  ∀ path, w'.files path = w.files path ∨
    w.files path = none ∧ ∃ doc, w'.files path = some (.json (.obj doc)) ∧ docVersion doc = none

theorem StubsOnly.refl : StubsOnly w w := fun _ => .inl rfl

theorem StubsOnly.trans {w' w'' : World ν} (h : StubsOnly w w') (h' : StubsOnly w' w'') :
    StubsOnly w w'' := by
  intro path
  rcases h path with hsame | ⟨hnone, doc, hdoc, hversion⟩
  · rcases h' path with hsame' | ⟨hnone', hstub⟩
    · exact .inl (hsame'.trans hsame)
    · exact .inr ⟨hsame ▸ hnone', hstub⟩
  · rcases h' path with hsame' | ⟨hnone', -⟩
    · exact .inr ⟨hnone, doc, hsame'.trans hdoc, hversion⟩
    · rw [hdoc] at hnone'
      cases hnone'

theorem absent_of_readFields {fails : Bool} {path : Path} {err : FsError}
    (h : w.readFields fails path = .error err) (hnone : err.isNotExist = true) :
    w.files path = none := by
  cases fails with
  | true =>
    cases h
    cases hnone
  | false =>
    cases hfile : w.files path with
    | none => rfl
    | some file =>
      exfalso
      rcases file with doc | data
      · cases hmap : doc.toMap? <;> simp only [readFields, readValue, hfile, hmap,
          Bool.false_eq_true, if_false, Except.error.injEq, reduceCtorEq] at h
        subst h
        cases hnone
      · simp only [readFields, readValue, hfile, Bool.false_eq_true, if_false,
          Except.error.injEq] at h
        subst h
        cases hnone

theorem run_loadCacheFile (dataDir : Path) (target targetID : String) :
    (loadCacheFile dataDir target targetID).run (exec host faults) w =
      (w.readOptional (faults .cacheLoad) (cachePath dataDir target targetID), w) := by
  cases hread : w.readFields (faults .cacheLoad) (cachePath dataDir target targetID) <;>
    simp [loadCacheFile, readOptional, hread]

theorem absent_of_readOptional {fails : Bool} {path : Path}
    (h : w.readOptional fails path = .ok none) : w.files path = none := by
  unfold readOptional at h
  split at h
  · rename_i err hread
    split at h
    · exact absent_of_readFields hread (by assumption)
    · cases h
  · cases h

theorem stubsOnly_ensureStub (dataDir : Path) (target targetID : String) :
    StubsOnly w ((ensureStub dataDir target targetID).run (exec host faults) w).2 := by
  cases hload : w.readOptional (faults .cacheLoad) (cachePath dataDir target targetID) with
  | error err =>
    rw [ensureStub, bind_eq, run_bind, run_loadCacheFile, hload]
    exact .refl
  | ok found =>
    cases found with
    | some existing =>
      rw [ensureStub, bind_eq, run_bind, run_loadCacheFile, hload]
      exact .refl
    | none =>
      have habsent := absent_of_readOptional hload
      intro path
      by_cases hpath : cachePath dataDir target targetID = path
      · have hne : path ≠ path ++ [""] := fun heq => by simpa using congrArg List.length heq
        have hstub := only_ensureStub ((permits_replaces path (path ++ [""])
          (encodeMap [("!", .str targetID), ("#", .null)]) id .delivering).summarizes
          (.inr (.inr (by rw [hpath]))))
        rw [hpath] at habsent
        rcases @Replaces.run ν host faults w _ _ path _ _ hne hstub with hsame | hnone | hwritten
        · exact .inl hsame
        · exact .inl (hnone.trans habsent.symm)
        · rw [encodeMap_eq] at hwritten
          refine .inr ⟨habsent, _, hwritten, ?_⟩
          rw [docVersion, asString_storedFields]
          rfl
      · exact .inl (Keeps.run (only_ensureStub
          ((permits_avoids path id .delivering).summarizes hpath)))

theorem stubsOnly_collectSummaries (dataDir : Path) (refs : List RefField) (out : JsonFields) :
    StubsOnly w ((collectSummaries dataDir refs out).run (exec host faults) w).2 := by
  induction refs generalizing w out with
  | nil => exact .refl
  | cons ref refs ih =>
    rw [collectSummaries, bind_eq, run_bind, run_loadCacheFile]
    rcases w.readOptional (faults .cacheLoad)
      (cachePath dataDir ref.targetCollection ref.targetID) with err | (_ | cached)
    · exact ih out
    · have hstub := @stubsOnly_ensureStub ν host faults w dataDir ref.targetCollection ref.targetID
      dsimp only
      rw [bind_eq, run_bind]
      generalize (ensureStub dataDir ref.targetCollection ref.targetID).run (exec host faults) w =
        done at hstub ⊢
      obtain ⟨r, t⟩ := done
      cases r with
      | error err => exact hstub.trans (ih out)
      | ok stub => exact hstub.trans (ih _)
    · exact ih _

theorem stubsOnly_readDocument (req : Request) (doc : JsonFields) :
    StubsOnly w ((readDocument e req doc).run (exec host faults) w).2 := by
  unfold readDocument
  split
  · rw [bind_eq, run_bind]
    unfold buildCacheSummaries
    split
    · exact .refl
    · split
      · exact .refl
      · exact stubsOnly_collectSummaries _ _ _
  · exact .refl
end
section
variable {ν : Type} {host : Host ν} {faults : Faults} {e : Engine} {coll docId : String}
  {original : JsonFields} {w w' : World ν}
/-- The copy is the original; or the original was behind its schema, and a copy with a marker has a
version this server has drawn. -/
def Tracks (e : Engine) (host : Host ν) (collection docId : String) (original : JsonFields)
    (w : World ν) : Prop :=
  w.files (e.live collection docId) = some (.json (.obj original)) ∨
    needsMigration e.cfg collection original = true ∧
      ∀ doc v, w.files (e.live collection docId) = some (.json (.obj doc)) →
        docVersion doc = some v → ∃ n, documentVersion (.obj doc) = host.ids n

theorem Tracks.same (h : Tracks e host coll docId original w)
    (hsame : w'.files (e.live coll docId) = w.files (e.live coll docId)) :
    Tracks e host coll docId original w' := by
  rwa [Tracks, hsame]

theorem Tracks.migrated (h : Tracks e host coll docId original w)
    (hmigrated : Migrated e host coll docId w w') :
    Tracks e host coll docId original w' := by
  rcases hmigrated with hsame | ⟨⟨old, hold, hneeds⟩, hnew⟩
  · exact h.same hsame
  have hbehind : needsMigration e.cfg coll original = true := by
    rcases h with horiginal | ⟨hbehind, -⟩
    · rw [horiginal] at hold
      cases hold
      exact hneeds
    · exact hbehind
  refine .inr ⟨hbehind, fun doc v hdoc _ => ?_⟩
  rcases hnew with hgone | ⟨n, new, hinstalled, hversion⟩
  · rw [hgone] at hdoc
    cases hdoc
  · rw [hinstalled] at hdoc
    cases hdoc
    exact ⟨n, hversion⟩

theorem Tracks.stubs (h : Tracks e host coll docId original w) (hstubs : StubsOnly w w') :
    Tracks e host coll docId original w' := by
  rcases hstubs (e.live coll docId) with hsame | ⟨hnone, stub, hstub, hversion⟩
  · exact h.same hsame
  · rcases h with horiginal | ⟨hbehind, -⟩
    · rw [horiginal] at hnone
      cases hnone
    · refine .inr ⟨hbehind, fun doc v hdoc hv => ?_⟩
      rw [hstub] at hdoc
      cases hdoc
      rw [hversion] at hv
      cases hv

theorem Tracks.applyToStoredDocument {coll' docId' : String} (hc : PlainName coll)
    (hid : DocumentId docId) (hc' : PlainName coll') (hid' : DocumentId docId')
    (h : Tracks e host coll docId original w) :
    Tracks e host coll docId original
      ((Datorium.applyToStoredDocument e coll' docId').run (exec host faults) w).2 := by
  by_cases hlive : e.live coll' docId' = e.live coll docId
  · have hsame : coll' = coll ∧ docId' = docId := by
      rw [Engine.live, Engine.live, documentPath_eq hc' hid', documentPath_eq hc hid] at hlive
      simpa using hlive
    obtain ⟨rfl, rfl⟩ := hsame
    exact h.migrated (applyToStoredDocument_own hc hid)
  · exact h.same (keeps_applyToStoredDocument hc hid hc' hid' hlive).run

theorem readAdmission_documentId {req : Request} (h : readAdmission e req = .ok ()) :
    DocumentId req.parameter := by
  unfold readAdmission at h
  split at h
  · cases h
  · rename_i hid
    exact .of_valid (not_not.mp hid).1

theorem Tracks.read {req : Request} (hc : PlainName coll) (hid : DocumentId docId)
    (htarget : PlainName req.target) (h : Tracks e host coll docId original w) :
    Tracks e host coll docId original ((Datorium.read e req).run (exec host faults) w).2 := by
  unfold Datorium.read
  split
  · exact h
  rename_i hadmission
  have hparameter : DocumentId req.parameter := readAdmission_documentId hadmission
  rw [bind_eq, run_bind, run_readDocumentJSON]
  cases w.readFields (faults .readLive) (e.live req.target req.parameter) with
  | error err => exact h
  | ok doc =>
    dsimp only
    rw [bind_eq, run_bind]
    have hmigrate : Tracks e host coll docId original
        ((migrateOnAccess e req.target req.parameter doc).run (exec host faults) w).2 := by
      unfold migrateOnAccess
      split
      · exact h
      rw [bind_eq, run_bind]
      have happlied : Tracks e host coll docId original
          ((Datorium.applyToStoredDocument e req.target req.parameter).run (exec host faults) w).2 :=
        h.applyToStoredDocument hc hid htarget hparameter
      generalize (Datorium.applyToStoredDocument e req.target req.parameter).run
        (exec host faults) w = done at happlied ⊢
      obtain ⟨r, t⟩ := done
      cases r with
      | error err => exact happlied
      | ok changed =>
        dsimp only
        rw [run_readDocumentJSON]
        exact happlied
    generalize (migrateOnAccess e req.target req.parameter doc).run (exec host faults) w = done
      at hmigrate ⊢
    obtain ⟨r, t⟩ := done
    cases r with
    | error err => exact hmigrate
    | ok current => exact hmigrate.stubs (stubsOnly_readDocument req current)

def PlainListing (collections : List (String × Except FsError (List String))) : Prop :=
  ∀ coll names, (coll, .ok names) ∈ collections → PlainName coll ∧ ∀ name ∈ names, DocumentId name

theorem run_staleDocumentIDs (names : List String) :
    ((staleDocumentIDs e coll names).run (exec host faults) w).2 = w ∧
      ∀ name ∈ ((staleDocumentIDs e coll names).run (exec host faults) w).1, name ∈ names := by
  induction names with
  | nil => exact ⟨rfl, fun _ h => h⟩
  | cons name names ih =>
    rw [staleDocumentIDs, bind_eq, run_bind, run_readDocumentJSON]
    cases w.readFields (faults .scan) (e.live coll name) with
    | error err => exact ⟨ih.1, fun other h => List.mem_cons_of_mem _ (ih.2 other h)⟩
    | ok doc =>
      dsimp only
      rw [bind_eq, run_bind]
      refine ⟨ih.1, fun other h => ?_⟩
      simp only [pure_eq, run_done] at h
      split at h
      · rcases List.mem_cons.mp h with rfl | hrest
        · exact List.mem_cons_self
        · exact List.mem_cons_of_mem _ (ih.2 other hrest)
      · exact List.mem_cons_of_mem _ (ih.2 other h)

theorem Tracks.migrateFirst {held : String → Bool} {coll' : String} {ids : List String}
    (hc : PlainName coll) (hid : DocumentId docId) (hc' : PlainName coll')
    (hids : ∀ other ∈ ids, DocumentId other) (h : Tracks e host coll docId original w) :
    Tracks e host coll docId original
      ((Datorium.migrateFirst e held coll' ids).run (exec host faults) w).2 := by
  induction ids generalizing w with
  | nil => exact h
  | cons other ids ih =>
    have hrest : ∀ other ∈ ids, DocumentId other := fun o ho => hids o (List.mem_cons_of_mem _ ho)
    unfold Datorium.migrateFirst
    split
    · exact ih hrest h
    rw [bind_eq, run_bind]
    have happlied : Tracks e host coll docId original
        ((Datorium.applyToStoredDocument e coll' other).run (exec host faults) w).2 :=
      h.applyToStoredDocument hc hid hc' (hids other List.mem_cons_self)
    generalize (Datorium.applyToStoredDocument e coll' other).run (exec host faults) w =
      done at happlied ⊢
    obtain ⟨r, t⟩ := done
    rcases r with err | (_ | _)
    · exact happlied
    · exact ih hrest happlied
    · exact happlied

theorem Tracks.runCollections {held : String → Bool}
    {collections : List (String × Except FsError (List String))} (hc : PlainName coll)
    (hid : DocumentId docId) (hplain : PlainListing collections)
    (h : Tracks e host coll docId original w) :
    Tracks e host coll docId original
      ((Datorium.runCollections e held collections).run (exec host faults) w).2 := by
  induction collections generalizing w with
  | nil => exact h
  | cons entry collections ih =>
    have hrest : PlainListing collections := fun c names hmem =>
      hplain c names (List.mem_cons_of_mem _ hmem)
    obtain ⟨coll', listed⟩ := entry
    cases listed with
    | error err => exact ih hrest h
    | ok names =>
      obtain ⟨hc', hnames⟩ := hplain coll' names List.mem_cons_self
      unfold Datorium.runCollections
      split
      · exact ih hrest h
      obtain ⟨hsame, hsub⟩ := @run_staleDocumentIDs ν host faults e coll' w names
      rw [bind_eq, run_bind, hsame, bind_eq, run_bind]
      have hfirst : Tracks e host coll docId original ((Datorium.migrateFirst e held
          coll' ((staleDocumentIDs e coll' names).run (exec host faults) w).1).run
            (exec host faults) w).2 :=
        h.migrateFirst hc hid hc' fun other ho => hnames other (hsub other ho)
      generalize (Datorium.migrateFirst e held coll' _).run (exec host faults) w = done at hfirst ⊢
      obtain ⟨r, t⟩ := done
      cases r with
      | some r => exact hfirst
      | none => exact ih hrest hfirst
end

/-- What a server does when it is read from and when its upgrade agent runs; any of its calls may
fail. -/
inductive MigrationStep {ν : Type} (e : Engine) (host : Host ν) : World ν → World ν → Prop
  | read (req : Request) (faults : Faults) (w : World ν) (hc : e.cfg.Configured req.target) :
      MigrationStep e host w ((Datorium.read e req).run (exec host faults) w).2
  | agent (held : String → Bool)
      (listing : Except FsError (List (String × Except FsError (List String)))) (faults : Faults)
      (w : World ν) (hplain : ∀ collections, listing = .ok collections → PlainListing collections) :
      MigrationStep e host w ((runOnce e held listing).run (exec host faults) w).2

inductive PairStep {ν μ : Type} (sot member : Engine) (sotHost : Host ν) (memberHost : Host μ) :
    World ν × World μ → World ν × World μ → Prop
  | sot {w w' : World ν} (u : World μ) (h : MigrationStep sot sotHost w w') :
      PairStep sot member sotHost memberHost (w, u) (w', u)
  | member {u u' : World μ} (w : World ν) (h : MigrationStep member memberHost u u') :
      PairStep sot member sotHost memberHost (w, u) (w, u')

structure UpToDate {ν : Type} (e : Engine) (collection docId : String) (w : World ν)
    (doc : JsonFields) : Prop where
  live : w.files (e.live collection docId) = some (.json (.obj doc))
  marked : docVersion doc ≠ none
  current : needsMigration e.cfg collection doc = false

section
variable {ν μ : Type} {sot member e : Engine} {sotHost host : Host ν} {memberHost : Host μ}
  {coll docId : String} {original doc : JsonFields} {w w' : World ν}
theorem Tracks.step (hc : PlainName coll) (hid : DocumentId docId)
    (hstep : MigrationStep e host w w') (h : Tracks e host coll docId original w) :
    Tracks e host coll docId original w' := by
  cases hstep with
  | read req faults _ htarget => exact h.read hc hid (e.cfg.plainNames _ htarget)
  | agent held listing faults _ hplain =>
    cases listing with
    | error err => exact h
    | ok collections => exact h.runCollections hc hid (hplain collections rfl)

theorem Tracks.reach {s t : World ν × World μ} (hc : PlainName coll) (hid : DocumentId docId)
    (hrun : Relation.ReflTransGen (PairStep sot member sotHost memberHost) s t)
    (hsot : Tracks sot sotHost coll docId original s.1)
    (hmember : Tracks member memberHost coll docId original s.2) :
    Tracks sot sotHost coll docId original t.1 ∧
      Tracks member memberHost coll docId original t.2 := by
  induction hrun with
  | refl => exact ⟨hsot, hmember⟩
  | tail _ hstep ih =>
    cases hstep with
    | sot u h => exact ⟨ih.1.step hc hid h, ih.2⟩
    | member w h => exact ⟨ih.1, ih.2.step hc hid h⟩

theorem Tracks.upToDate (h : Tracks e host coll docId original w)
    (hdoc : UpToDate e coll docId w doc) :
    needsMigration e.cfg coll original = false ∧ doc = original ∨
      needsMigration e.cfg coll original = true ∧ ∃ n, documentVersion (.obj doc) = host.ids n := by
  obtain ⟨v, hv⟩ := Option.ne_none_iff_exists'.mp hdoc.marked
  rcases h with horiginal | ⟨hbehind, hown⟩
  · have hsame := hdoc.live.symm.trans horiginal
    cases hsame
    exact .inl ⟨hdoc.current, rfl⟩
  · exact .inr ⟨hbehind, hown doc v hdoc.live hv⟩

/-- Once no migration is due the two copies are equal, and have equal versions, exactly when none was
due at the start. -/
theorem copies_in_step {memberDoc : JsonFields} {s t : World ν × World μ}
    (hc : sot.cfg.Configured coll) (hid : DocumentId docId)
    (hversion : sot.cfg.schemaVersion coll = member.cfg.schemaVersion coll)
    (hids : ∀ n m, sotHost.ids n ≠ memberHost.ids m)
    (hsot : s.1.files (sot.live coll docId) = some (.json (.obj original)))
    (hmember : s.2.files (member.live coll docId) = some (.json (.obj original)))
    (hrun : Relation.ReflTransGen (PairStep sot member sotHost memberHost) s t)
    (hdoc : UpToDate sot coll docId t.1 doc)
    (hmemberDoc : UpToDate member coll docId t.2 memberDoc) :
    (doc = memberDoc ↔ needsMigration sot.cfg coll original = false) ∧
      (documentVersion (.obj doc) = documentVersion (.obj memberDoc) ↔
        needsMigration sot.cfg coll original = false) := by
  have hplain := sot.cfg.plainNames _ hc
  have hneeds : needsMigration member.cfg coll original =
      needsMigration sot.cfg coll original := by rw [needsMigration, needsMigration, hversion]
  obtain ⟨htracks, htracks'⟩ := Tracks.reach hplain hid hrun (.inl hsot) (.inl hmember)
  rcases htracks.upToDate hdoc with ⟨hcurrent, rfl⟩ | ⟨hbehind, n, hn⟩
  · rcases htracks'.upToDate hmemberDoc with ⟨-, rfl⟩ | ⟨hbehind, -⟩
    · exact ⟨iff_of_true rfl hcurrent, iff_of_true rfl hcurrent⟩
    · rw [hneeds, hcurrent] at hbehind
      cases hbehind
  · rcases htracks'.upToDate hmemberDoc with ⟨hcurrent, -⟩ | ⟨-, m, hm⟩
    · rw [hneeds, hbehind] at hcurrent
      cases hcurrent
    · have hdiffer : documentVersion (.obj doc) ≠ documentVersion (.obj memberDoc) := by
        rw [hn, hm]
        exact hids n m
      have hbehind' : needsMigration sot.cfg coll original ≠ false := by simp [hbehind]
      exact ⟨iff_of_false (fun h => hdiffer (by rw [h])) hbehind', iff_of_false hdiffer hbehind'⟩
end
namespace Sample
def upgradedConfig : Config :=
  { config with
      schemaVersions := [("Movies", 2)]
      schemaUpdateHistory := [("Movies", [(2, upgrade "1" [addYear])])] }

def upgradedSource : Engine := { server with cfg := upgradedConfig }

def upgradedMember : Engine := { upgradedSource with serverName := "beta", replicates := false }

def betaHost : Host Unit := { host with ids := fun n => "b" ++ toString n }

theorem hosts_apart (n m : Nat) : host.ids n ≠ betaHost.ids m := by
  intro h
  have hhead := congrArg (fun id : String => id.toList.head?) h
  simp [host, betaHost] at hhead

def movieAt (marker : String) : JsonFields :=
  [("!", .str "alien"), ("#", .str "v"), ("$", .str marker), ("title", .str "Alien")]

def replicated (marker : String) : World Unit :=
  emptyWorld.put (upgradedSource.live "Movies" "alien") (some (.json (.obj (movieAt marker))))

def readAt (e : Engine) (host : Host Unit) (w : World Unit) : World Unit :=
  ((read e readRequest).run (exec host .none) w).2

theorem readAt_step (e : Engine) (hc : e.cfg = upgradedConfig) (host : Host Unit) (w : World Unit) :
    MigrationStep e host w (readAt e host w) :=
  .read readRequest .none w (by rw [hc]; decide)

def liveCopy (e : Engine) (w : World Unit) : Option JsonFields :=
  match w.files (e.live "Movies" "alien") with
  | some (.json (.obj fields)) => some fields
  | _ => none

def settledAt (e : Engine) (w : World Unit) : Bool :=
  (liveCopy e w).any fun doc => docVersion doc ≠ none && !needsMigration e.cfg "Movies" doc

theorem upToDate_of_settledAt {e : Engine} {w : World Unit} (h : settledAt e w = true) :
    ∃ doc, liveCopy e w = some doc ∧ UpToDate e "Movies" "alien" w doc := by
  unfold settledAt at h
  cases hdoc : liveCopy e w with
  | none =>
    rw [hdoc] at h
    cases h
  | some doc =>
    rw [hdoc] at h
    simp only [Option.any_some, Bool.and_eq_true, decide_eq_true_eq, Bool.not_eq_true'] at h
    refine ⟨doc, rfl, ?_, h.1, h.2⟩
    unfold liveCopy at hdoc
    split at hdoc
    · rename_i fields hfile
      cases hdoc
      exact hfile
    · cases hdoc

theorem bothRead (marker : String) :
    Relation.ReflTransGen (PairStep upgradedSource upgradedMember host betaHost)
      (replicated marker, replicated marker)
      (readAt upgradedSource host (replicated marker),
        readAt upgradedMember betaHost (replicated marker)) :=
  .tail (.single (.sot _ (readAt_step _ rfl _ _))) (.member _ (readAt_step _ rfl _ _))

def deleteWithMemberVersion : Result :=
  let version := ((liveCopy upgradedMember (readAt upgradedMember betaHost
    (replicated "Movies:1"))).map fun doc => documentVersion (.obj doc)).getD ""
  ((execute upgradedSource (deleteRequest version)).run (exec host .none)
    (readAt upgradedSource host (replicated "Movies:1"))).1
end Sample
open Sample
theorem copies_in_step_current : ∃ doc memberDoc,
      UpToDate upgradedSource "Movies" "alien"
        (readAt upgradedSource host (replicated "Movies:2")) doc ∧
      UpToDate upgradedMember "Movies" "alien"
        (readAt upgradedMember betaHost (replicated "Movies:2")) memberDoc ∧ doc = memberDoc := by
  obtain ⟨doc, -, hdoc⟩ := @upToDate_of_settledAt upgradedSource
    (readAt upgradedSource host (replicated "Movies:2"))
    (by decide +kernel)
  obtain ⟨memberDoc, -, hmemberDoc⟩ := @upToDate_of_settledAt upgradedMember
    (readAt upgradedMember betaHost (replicated "Movies:2"))
    (by decide +kernel)
  have hc : upgradedSource.cfg.Configured "Movies" := by decide
  have hid : DocumentId "alien" := alien_id
  have hcurrent : needsMigration upgradedSource.cfg "Movies" (movieAt "Movies:2") =
      false := by decide +kernel
  have hversion : upgradedSource.cfg.schemaVersion "Movies" =
      upgradedMember.cfg.schemaVersion "Movies" := rfl
  refine ⟨doc, memberDoc, hdoc, hmemberDoc, ?_⟩
  exact (copies_in_step hc hid hversion hosts_apart (put_files_same _ _ _)
    (put_files_same _ _ _) (bothRead "Movies:2") hdoc hmemberDoc).1.mpr hcurrent

/-- Each server migrates the movie when it is read, under a version of its own, and the source of
truth refuses the version of the member. -/
theorem copies_drift_apart : ∃ doc memberDoc,
      Relation.ReflTransGen (PairStep upgradedSource upgradedMember host
          betaHost) (replicated "Movies:1", replicated "Movies:1")
        (readAt upgradedSource host (replicated "Movies:1"),
          readAt upgradedMember betaHost (replicated "Movies:1")) ∧
      UpToDate upgradedSource "Movies" "alien"
        (readAt upgradedSource host (replicated "Movies:1")) doc ∧
      UpToDate upgradedMember "Movies" "alien"
        (readAt upgradedMember betaHost (replicated "Movies:1")) memberDoc ∧
      documentVersion (.obj doc) ≠ documentVersion (.obj memberDoc) ∧
      deleteWithMemberVersion.ok = false := by
  obtain ⟨doc, hcopy, hdoc⟩ := @upToDate_of_settledAt upgradedSource
    (readAt upgradedSource host (replicated "Movies:1"))
    (by decide +kernel)
  obtain ⟨memberDoc, hmemberCopy, hmemberDoc⟩ := @upToDate_of_settledAt upgradedMember
    (readAt upgradedMember betaHost (replicated "Movies:1"))
    (by decide +kernel)
  have hversions : (liveCopy upgradedSource
        (readAt upgradedSource host (replicated "Movies:1"))).map
          (fun doc => documentVersion (.obj doc)) ≠
      (liveCopy upgradedMember (readAt upgradedMember betaHost (replicated "Movies:1"))).map
          fun doc => documentVersion (.obj doc) := by decide +kernel
  rw [hcopy, hmemberCopy] at hversions
  exact ⟨doc, memberDoc, bothRead "Movies:1", hdoc, hmemberDoc,
    fun h => hversions (congrArg some h), by decide +kernel⟩
end Datorium
