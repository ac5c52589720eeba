
import Datorium.Engine.Protocol
/-! # The writers follow the protocol -/
namespace Datorium
open Framework
section
variable {e : Engine} {req : Request} {u : View}
/-- A request that is over holds nothing, and a successful patch has replaced the version it reports
with the version it reports. -/
def Settled (u : View) (res : Result) : Prop :=
  u.holding = .nothing ∧ ∀ before after, res.ok = true → res.versions = some (before, after) →
    u.wrote = some (some before, some after)

variable {res : Result}
theorem settled_fail (hu : u.holding = .nothing) (hres : res.ok = false) : Settled u res := by
  refine ⟨hu, fun before after hok => ?_⟩
  rw [hres] at hok
  cases hok

theorem settled_unversioned (hu : u.holding = .nothing) (hres : res.versions = none) :
    Settled u res := by
  refine ⟨hu, fun before after _ hv => ?_⟩
  rw [hres] at hv
  cases hv

variable {coll docId : String} {live : Path} {α : Type}
variable {site : Site} {doc : Json}
theorem runs_newId (hsite : site.looks = false)
    (hu : u.holding = .migration → site.inMigration = true) :
    Runs e coll live (fun u' r => ∃ v, r = .ok v ∧ u' = { u with fresh := some v })
      (newId site) u := by
  refine .perform hu fun r => ?_
  cases r with
  | error err => exact .inl (faulty_newId _ err)
  | ok v => exact .inr ⟨_, .draw hsite v, v, rfl, rfl⟩

theorem runs_operationIdOr (hu : u.holding ≠ .migration) :
    Runs e coll live (fun u' _ => u' = u) (operationIdOr req) u := by
  apply Runs.quiet
  unfold operationIdOr
  split
  · exact only_perform (quietIn_of_passive trivial rfl hu)
  · trivial

theorem runs_locked {Q : View → α → Prop} {body : Prog α} (hu : u.holding = .nothing)
    (h : Runs e coll live (fun u' a => u'.holding = .mutex ∧ u'.moved = false ∧
      Q { u' with holding := .nothing, base := none } a) body
        { u with holding := .mutex, base := none }) :
    Runs e coll live Q (locked body) u := by
  have hlock : Runs e coll live (fun u' _ => u' = { u with holding := .mutex, base := none })
      lock u :=
    .perform (fun hm => by rw [hu] at hm; cases hm) fun r => .inr ⟨_, .lock, rfl⟩
  refine .bind hlock fun _ u' hu' => ?_
  subst hu'
  refine .bind h fun a u' hbody => ?_
  obtain ⟨hmutex, hmoved, hQ⟩ := hbody
  have hunlock : Runs e coll live
      (fun u'' _ => u'' = { u' with holding := .nothing, base := none }) unlock u' :=
    .perform (fun hm => by rw [hmutex] at hm; cases hm) fun r => .inr ⟨_, .unlock hmutex hmoved, rfl⟩
  refine .bind hunlock fun _ u'' hu'' => ?_
  subst hu''
  exact .pure hQ

theorem runs_deliverOnce {item : WorkItem} (hu : u.holding ≠ .migration)
    (hc : e.cfg.Configured item.collection) (hid : DocumentId item.id) (hlive : e.LivePath live) :
    Runs e coll live (fun u' r => u' = u ∧ r.ok = res.ok ∧ r.versions = res.versions)
      (deliverOnce e item res) u := by
  have hP : Permits (QuietIn live u) id .delivering := permits_quietIn hu (by decide)
  have hquiet : ∀ site call, Aside live ⟨site, call⟩ → site.looks = false →
      QuietIn live u ⟨site, call⟩ := fun _ _ haside hsite => ⟨haside, hsite, fun hm => absurd hm hu⟩
  have hreplicas : (deliverReplicas e item).Only (QuietIn live u) :=
    only_deliverReplicas hP.observes fun _ t _ =>
      only_writePendingWrite hP (hquiet _ _ ⟨.inr rfl, by simp, by simp⟩ rfl)
  have hprocess : Processes (QuietIn live u) e item.command item.collection item.id := by
    have havoids : Processes (fun op => op.call.Avoids live) e item.command item.collection
        item.id := processes_avoids_live hc hid hlive
    exact ⟨hP.observes, fun _ _ => hquiet _ _ ⟨.inl trivial, by simp, by simp⟩ rfl,
      fun _ _ => hquiet _ _ ⟨.inl trivial, by simp, by simp⟩ rfl,
      hquiet _ _ ⟨.inl havoids.claim, by simp, by simp⟩ rfl,
      hquiet _ _ ⟨.inl havoids.dropPrevious, by simp, by simp⟩ rfl,
      hquiet _ _ ⟨.inl havoids.dropTaken, by simp, by simp⟩ rfl⟩
  have hderived : (deliverDerived e item).Only (QuietIn live u) := by
    unfold deliverDerived
    split
    · exact only_processNow hprocess
    · trivial
  refine .bind (.quiet hreplicas) fun note u' hu' => ?_
  subst hu'
  refine .bind (.quiet hderived) fun derived u' hu' => ?_
  subst hu'
  exact .pure ⟨rfl, rfl, rfl⟩

theorem runs_createLocal (hc : e.cfg.Configured req.target) (hid : DocumentId req.parameter)
    (hu : u.holding = .mutex) (hm : u.moved = false) (hw : u.wrote = none)
    (hf : u.fresh = some (documentVersion doc)) :
    Runs e req.target (e.live req.target req.parameter)
      (fun u' _ => u'.holding = .mutex ∧ u'.moved = false) (createLocal e req doc) u := by
  have hallowed : ∀ site : Site, u.holding = .migration → site.inMigration = true := by
    intro site hmig
    rw [hu] at hmig
    cases hmig
  have hstat : Runs e req.target (e.live req.target req.parameter)
      (fun u' r => (u' = { u with base := none } ∧ r = .ok ()) ∨
        u' = { u with base := some none } ∧ r ≠ .ok ())
      (stat .statLive (e.live req.target req.parameter)) u := by
    refine .perform (hallowed _) fun r => ?_
    cases r with
    | ok a =>
      have haside : Aside (e.live req.target req.parameter)
          ⟨.statLive, .stat (e.live req.target req.parameter)⟩ := Call.Passive.aside trivial
      exact .inr ⟨_, .glance haside, .inl ⟨rfl, rfl⟩⟩
    | error err => exact .inr ⟨_, .absent hu hm err, .inr ⟨rfl, by simp⟩⟩
  refine .bind hstat fun r u' hr => ?_
  cases r with
  | ok a =>
    obtain ⟨rfl, -⟩ := hr.resolve_right fun h => h.2 rfl
    exact .pure ⟨hu, hm⟩
  | error err =>
    obtain ⟨rfl, -⟩ := hr.resolve_left fun h => by cases h.2
    have hsit : Situated id { u with base := some none } := .inl ⟨rfl, hu⟩
    have hdir : (ensureCollectionDir e.dataDir req.target).Only
        (QuietIn (e.live req.target req.parameter) { u with base := some none }) :=
      only_perform ⟨Call.Passive.aside trivial, rfl, hallowed _⟩
    refine .bind (.quiet hdir) fun r u' hu' => ?_
    subst hu'
    cases r with
    | error err => exact .pure ⟨hu, hm⟩
    | ok a =>
      refine .bind (runs_writeDocumentJSONVerified hsit hw rfl hf) fun r u' hu' => ?_
      subst hu'
      cases r with
      | error err => exact .pure ⟨hu, rfl⟩
      | ok a =>
        have hq := e.queuePath_not_live hc hid ⟨_, _, hc, hid, rfl⟩ .create
        refine .bind (runs_enqueueChange (hsit.written _ _) hq) fun r u' hu' => ?_
        subst hu'
        cases r <;> exact .pure ⟨hu, rfl⟩

theorem runs_create (hu : u.holding = .nothing) (hm : u.moved = false) (hw : u.wrote = none) :
    Runs e req.target (e.live req.target req.parameter) Settled (create e req) u := by
  have hnomig : u.holding ≠ .migration := by simp [hu]
  unfold create
  split
  · rename_i res hadm
    exact .pure (settled_fail hu (createAdmission_error hadm))
  · rename_i schemaRaw hadm
    obtain ⟨hraw, hid⟩ := createAdmission_ok hadm
    have hc := configured_of_schema hraw
    refine .bind (runs_operationIdOr hnomig) fun r u' hu' => ?_
    subst hu'
    cases r with
    | error err => exact .pure (settled_fail hu rfl)
    | ok operationId =>
      dsimp only
      split
      · exact .pure (settled_fail hu rfl)
      · refine .bind (runs_newId rfl fun h => absurd h hnomig) fun r u' hr => ?_
        obtain ⟨version, rfl, rfl⟩ := hr
        dsimp only
        split
        · exact .pure (settled_fail hu rfl)
        · rename_i doc henc
          obtain ⟨-, -, hversion, -⟩ := canonicalCreateDocument_ok henc
          have hlocal : Runs e req.target (e.live req.target req.parameter)
              (fun u' (_ : Except ApiError Unit) => u'.holding = .nothing)
              (locked (createLocal e req doc)) { u' with fresh := some version } := by
            have hfresh : some version = some (documentVersion doc) := by
              rw [documentVersion_of_get hversion]
            have hbody := runs_createLocal
              (u := { u' with holding := .mutex, base := none, fresh := some version })
              hc hid rfl hm hw hfresh
            exact runs_locked hu (hbody.mono fun _ _ h => ⟨h.1, h.2, rfl⟩)
          refine .bind hlocal fun r u'' hu'' => ?_
          cases r with
          | error err => exact .pure (settled_fail hu'' rfl)
          | ok a =>
            refine (runs_deliverOnce (by simp [hu'']) hc hid ⟨_, _, hc, hid, rfl⟩).mono
              fun _ r h => ?_
            obtain ⟨rfl, -, hv⟩ := h
            exact settled_unversioned hu'' hv

theorem runs_readLive (hu : u.holding = .mutex) (hm : u.moved = false) : Runs e coll live
      (fun u' r => u'.holding = .mutex ∧ u'.moved = false ∧ u'.wrote = u.wrote ∧
        ∀ doc, r = .ok doc → u'.base = some (some (documentVersion doc)))
      (readDocumentValue .readLive live) u := by
  have hread : Runs e coll live
      (fun u' r => u'.holding = .mutex ∧ u'.moved = false ∧ u'.wrote = u.wrote ∧
        ∀ file, r = .ok file → u'.base = some (some file.version))
      (readFile .readLive live) u := by
    refine .perform (fun hmig => by rw [hu] at hmig; cases hmig) fun r => ?_
    cases r with
    | ok file =>
      refine .inr ⟨_, .found hu hm file, hu, hm, rfl, fun file' hfile => ?_⟩
      cases hfile
      rfl
    | error err =>
      have haside : Aside live ⟨.readLive, .readFile live⟩ := Call.Passive.aside trivial
      exact .inr ⟨_, .glance haside, hu, hm, rfl, fun file' hfile => by cases hfile⟩
  refine .bind hread fun r u' hr => ?_
  obtain ⟨hu', hm', hw', hbase⟩ := hr
  rcases r with err | (doc | data)
  · exact .pure ⟨hu', hm', hw', fun doc hdoc => by cases hdoc⟩
  · refine .pure ⟨hu', hm', hw', fun doc' hdoc => ?_⟩
    cases hdoc
    exact hbase _ rfl
  · exact .pure ⟨hu', hm', hw', fun doc hdoc => by cases hdoc⟩

theorem patchGuard_version (h : patchGuard e req doc = .ok ()) :
    documentVersion doc = req.expectedVersion := by
  simp only [patchGuard] at h
  split at h
  · cases h
  · rename_i hversion
    obtain ⟨hne, heq⟩ := not_or.mp hversion
    have hactual : req.expectedVersion = Json.asString (doc.get? "#") := not_not.mp heq
    rw [documentVersion, Json.text_of_asString (hactual ▸ hne), hactual]

structure Committed (req : Request) (u : View) (r : Except ApiError (WorkItem × Result)) : Prop where
  holding : u.holding = .mutex
  moved : u.moved = false
  item : ∀ out, r = .ok out → out.1.collection = req.target ∧ out.1.id = req.parameter
  versions : ∀ out before after, r = .ok out → out.2.versions = some (before, after) →
    u.wrote = some (some before, some after)

theorem committed_fail (hu : u.holding = .mutex) (hm : u.moved = false) (err : ApiError) :
    Committed req u (.error err) :=
  ⟨hu, hm, fun _ h => (by cases h), fun _ _ _ h => by cases h⟩

theorem runs_patchStored (hc : e.cfg.Configured req.target) (hid : DocumentId req.parameter)
    {schemaRaw : Json} (hu : u.holding = .mutex) (hm : u.moved = false) (hw : u.wrote = none)
    (hb : u.base = some (some (documentVersion doc))) :
    Runs e req.target (e.live req.target req.parameter) (Committed req)
      (patchStored e req schemaRaw doc) u := by
  unfold patchStored
  split
  · exact .pure (committed_fail hu hm _)
  rename_i hguard
  rw [patchGuard_version hguard] at hb
  split
  · exact .pure (committed_fail hu hm _)
  refine .bind (runs_newId rfl fun hmig => by rw [hu] at hmig; cases hmig) fun r u₁ hr => ?_
  obtain ⟨after, rfl, rfl⟩ := hr
  have hfail : ∀ err, Committed req { u with fresh := some after } (.error err) :=
    committed_fail hu hm
  dsimp only
  split
  · exact .pure (hfail _)
  rename_i stamped ops hstamp
  refine .bind (runs_operationIdOr (by simp [hu])) fun r u₂ hu₂ => ?_
  subst hu₂
  cases r with
  | error err => exact .pure (hfail _)
  | ok operationId =>
    dsimp only [patchCommit]
    split
    · exact .pure (hfail _)
    · rename_i new henc
      obtain ⟨-, -, hversion, -⟩ := patchStamped_canonical hstamp henc
      have hafter : documentVersion new = after := documentVersion_of_get hversion
      have hsit : Situated id { u with fresh := some after } := .inl ⟨rfl, hu⟩
      have hq := e.queuePath_not_live hc hid ⟨_, _, hc, hid, rfl⟩ .patch
      refine .bind (runs_replaceDocument hsit hq hw hb (by rw [hafter])) fun r u₃ hr => ?_
      rcases hr with rfl | ⟨rfl, hne⟩
      · cases r with
        | error err => exact .pure ⟨hu, rfl, fun _ h => (by cases h), fun _ _ _ h => by cases h⟩
        | ok a =>
          refine .pure ⟨hu, rfl, fun out hout => ?_, fun out before after' hout hv => ?_⟩
          · cases hout
            exact ⟨rfl, rfl⟩
          · cases hout
            cases hv
            rw [View.written, hafter]
      · cases r with
        | error err => exact .pure (hfail _)
        | ok a => exact absurd rfl hne

theorem runs_patchLocal (hc : e.cfg.Configured req.target) (hid : DocumentId req.parameter)
    {schemaRaw : Json} (hu : u.holding = .mutex) (hm : u.moved = false) (hw : u.wrote = none) :
    Runs e req.target (e.live req.target req.parameter) (Committed req)
      (patchLocal e req schemaRaw) u := by
  refine .bind (runs_readLive hu hm) fun r u' hr => ?_
  obtain ⟨hu', hm', hw', hbase⟩ := hr
  cases r with
  | error err => exact .pure (committed_fail hu' hm' _)
  | ok doc => exact runs_patchStored hc hid hu' hm' (hw'.trans hw) (hbase doc rfl)

theorem runs_moveAway {prev : Path} {base : Option String} (hu : u.holding = .mutex)
    (hm : u.moved = false) (hw : u.wrote = none) (hb : u.base = some base) (hprev : prev ≠ live) :
    Runs e coll live (fun u' _ => u'.holding = .mutex ∧ u'.moved = false)
      (moveAway live prev) u := by
  have hsit : Situated id u := .inl ⟨rfl, hu⟩
  have hstat : (stat .softDeleteStat prev).Only (QuietIn live u) :=
    only_perform ⟨Call.Passive.aside trivial, rfl, hsit.allowed rfl⟩
  refine .bind (.quiet hstat) fun r u' hu' => ?_
  subst hu'
  cases r with
  | ok a =>
    refine .perform (hsit.allowed rfl) fun r => ?_
    cases r with
    | ok a => exact .inr ⟨_, .remove hsit.holding hw hb, hu, rfl⟩
    | error err => exact .inr ⟨_, .unremoved, hu, hm⟩
  | error err =>
    refine .perform (hsit.allowed rfl) fun r => ?_
    cases r with
    | ok a => exact .inr ⟨_, .moveAway hsit.holding hw hb hprev, hu, rfl⟩
    | error err => exact .inr ⟨_, .unkept rfl, hu, hm⟩

theorem runs_deleteCommit (hc : e.cfg.Configured req.target) (hid : DocumentId req.parameter)
    {base : Option String} (hu : u.holding = .mutex) (hm : u.moved = false) (hw : u.wrote = none)
    (hb : u.base = some base) (operationId : String) :
    Runs e req.target (e.live req.target req.parameter) (Committed req)
      (deleteCommit e req operationId) u := by
  have hlive : e.LivePath (e.live req.target req.parameter) := ⟨_, _, hc, hid, rfl⟩
  have hmanifest := e.manifest_not_live hc hid hlive
  have hattachments := e.attachments_not_live hc hid hlive
  have hsoft : Runs e req.target (e.live req.target req.parameter)
      (fun u' _ => u'.holding = .mutex ∧ u'.moved = false)
      (softDeleteDocument e.dataDir req.target req.parameter) u := by
    refine .bind (runs_moveAway hu hm hw hb (e.previous_not_live hc hid hlive)) fun r u' hr => ?_
    cases r with
    | error err => exact .pure hr
    | ok a =>
      have hquiet : ∀ site call, Aside (e.live req.target req.parameter) ⟨site, call⟩ →
          site.looks = false → QuietIn (e.live req.target req.parameter) u' ⟨site, call⟩ :=
        fun _ _ haside hsite => ⟨haside, hsite, fun hmig => by rw [hr.1] at hmig; cases hmig⟩
      have hcascade := only_cascadeDeleteDocumentFiles
        (hquiet _ _ ⟨.inl hmanifest, by simp, by simp⟩ rfl)
        (hquiet _ _ ⟨.inl hattachments.1, by simp, by simp⟩ rfl)
        (hquiet _ _ ⟨.inl hattachments.2, by simp, by simp⟩ rfl)
      exact (Runs.quiet hcascade).mono fun _ _ heq => heq ▸ hr
  refine .bind hsoft fun r u' hr => ?_
  cases r with
  | error err => exact .pure (committed_fail hr.1 hr.2 _)
  | ok a =>
    have hsit : Situated id u' := .inl ⟨rfl, hr.1⟩
    refine .bind (runs_enqueueChange hsit (e.queuePath_not_live hc hid hlive .delete))
      fun r u'' hu'' => ?_
    subst hu''
    cases r with
    | error err => exact .pure (committed_fail hr.1 hr.2 _)
    | ok a =>
      refine .pure ⟨hr.1, hr.2, fun out hout => ?_, fun out before after hout hv => ?_⟩
      · cases hout
        exact ⟨rfl, rfl⟩
      · cases hout
        cases hv

theorem runs_deleteLocal (hc : e.cfg.Configured req.target) (hid : DocumentId req.parameter)
    (hu : u.holding = .mutex) (hm : u.moved = false) (hw : u.wrote = none) :
    Runs e req.target (e.live req.target req.parameter) (Committed req) (deleteLocal e req) u := by
  have hread : Runs e req.target (e.live req.target req.parameter)
      (fun u' r => u'.holding = .mutex ∧ u'.moved = false ∧ u'.wrote = none ∧
        ∀ doc, r = .ok doc → ∃ base, u'.base = some base)
      (readDocumentJSON .readLive (e.live req.target req.parameter)) u := by
    refine .bind (runs_readLive hu hm) fun r u' hr => ?_
    obtain ⟨hu', hm', hw', hbase⟩ := hr
    cases r with
    | error err => exact .pure ⟨hu', hm', hw'.trans hw, fun _ h => by cases h⟩
    | ok doc =>
      dsimp only
      split
      · exact .pure ⟨hu', hm', hw'.trans hw, fun _ h => by cases h⟩
      · exact .pure ⟨hu', hm', hw'.trans hw, fun _ _ => ⟨_, hbase doc rfl⟩⟩
  refine .bind hread fun r u' hr => ?_
  obtain ⟨hu', hm', hw', hbase⟩ := hr
  cases r with
  | error err => exact .pure (committed_fail hu' hm' _)
  | ok doc =>
    obtain ⟨base, hb⟩ := hbase doc rfl
    dsimp only
    split
    · exact .pure (committed_fail hu' hm' _)
    · refine .bind (runs_operationIdOr (by simp [hu'])) fun r u'' hu'' => ?_
      subst hu''
      cases r with
      | error err => exact .pure (committed_fail hu' hm' _)
      | ok operationId => exact runs_deleteCommit hc hid hu' hm' hw' hb operationId

theorem runs_commit (hc : e.cfg.Configured req.target) (hid : DocumentId req.parameter)
    {body : Prog (Except ApiError (WorkItem × Result))} {f : Except ApiError (WorkItem × Result) →
      Prog Result} (hfail : ∀ err, f (.error err) = .done (req.fail err))
    (hok : ∀ out, f (.ok out) = deliverOnce e out.1 out.2) (hu : u.holding = .nothing)
    (hbody : Runs e req.target (e.live req.target req.parameter) (Committed req) body
      { u with holding := .mutex, base := none }) :
    Runs e req.target (e.live req.target req.parameter) Settled
      (Program.bind (locked body) f) u := by
  have hlocked : Runs e req.target (e.live req.target req.parameter)
      (fun u' r => Committed req { u' with holding := .mutex } r ∧ u'.holding = .nothing)
      (locked body) u :=
    runs_locked hu (hbody.mono fun u' r h =>
      ⟨h.holding, h.moved, ⟨rfl, h.moved, h.item, h.versions⟩, rfl⟩)
  refine .bind hlocked fun r u' hr => ?_
  obtain ⟨hcommitted, hu'⟩ := hr
  cases r with
  | error err =>
    rw [hfail]
    exact .pure (settled_fail hu' rfl)
  | ok out =>
    obtain ⟨hcol, hdoc⟩ := hcommitted.item out rfl
    rw [hok]
    refine (runs_deliverOnce (by simp [hu']) (hcol ▸ hc) (hdoc ▸ hid)
      ⟨_, _, hc, hid, rfl⟩).mono fun u'' r h => ?_
    obtain ⟨rfl, -, hv⟩ := h
    exact ⟨hu', fun before after _ hver =>
      hcommitted.versions out before after rfl (hv ▸ hver)⟩

theorem runs_patch (hu : u.holding = .nothing) (hm : u.moved = false) (hw : u.wrote = none) :
    Runs e req.target (e.live req.target req.parameter) Settled (patch e req) u := by
  unfold patch
  split
  · rename_i res hadm
    exact .pure (settled_fail hu (patchAdmission_error hadm))
  · rename_i schemaRaw hadm
    obtain ⟨hraw, hid⟩ := patchAdmission_ok hadm
    have hc := configured_of_schema hraw
    exact runs_commit hc hid (fun _ => rfl) (fun _ => rfl) hu (runs_patchLocal hc hid rfl hm hw)

theorem runs_delete (hc : e.cfg.Configured req.target) (hu : u.holding = .nothing)
    (hm : u.moved = false) (hw : u.wrote = none) :
    Runs e req.target (e.live req.target req.parameter) Settled (delete e req) u := by
  unfold delete
  split
  · rename_i res hadm
    exact .pure (settled_fail hu (deleteAdmission_error hadm))
  · rename_i hadm
    have hid := deleteAdmission_ok hadm
    exact runs_commit hc hid (fun _ => rfl) (fun _ => rfl) hu (runs_deleteLocal hc hid rfl hm hw)

theorem runs_readDocumentJSON {path : Path} {Q : View → Except FsError JsonFields → Prop}
    (hallowed : u.holding = .migration → site.inMigration = true)
    (h : ∀ r : Except FsError File, ∃ u',
      Move e coll live (some u) ⟨site, .readFile path⟩ r (some u') ∧
        (∀ fields, r = .ok (.json (.obj fields)) → Q u' (.ok fields)) ∧
        ((∀ fields, r ≠ .ok (.json (.obj fields))) → ∀ err, Q u' (.error err))) :
    Runs e coll live Q (readDocumentJSON site path) u := by
  refine Runs.call hallowed fun r => ?_
  obtain ⟨u', hmove, hfound, hnot⟩ := h r
  refine .inr ⟨u', hmove, ?_⟩
  rcases r with err | (doc | data)
  · exact .pure (hnot (by simp) _)
  · cases doc with
    | obj fields => exact .pure (hfound fields rfl)
    | _ => exact .pure (hnot (by simp) _)
  · exact .pure (hnot (by simp) _)

theorem runs_glance {path : Path} (hu : u.holding ≠ .migration) :
    Runs e coll live (fun u' _ => u' = { u with base := none }) (readDocumentJSON site path)
      u := by
  have haside : Aside live ⟨site, .readFile path⟩ := Call.Passive.aside trivial
  exact runs_readDocumentJSON (fun hmig => absurd hmig hu)
    fun r => ⟨_, .glance haside, fun _ _ => rfl, fun _ _ => rfl⟩

theorem runs_readStale (hu : u.holding = .nothing) : Runs e coll live
      (fun u' r => (∃ doc, r = .ok doc ∧ u' = u.migrating (documentVersion (.obj doc))) ∨
        u' = { u with base := none } ∧ ∀ doc, r = .ok doc → needsMigration e.cfg coll doc = false)
      (readDocumentJSON (.migration .readLive) live) u := by
  refine runs_readDocumentJSON (fun hmig => by rw [hu] at hmig; cases hmig) fun r => ?_
  by_cases hstale : ∃ doc, r = .ok (.json (.obj doc)) ∧ needsMigration e.cfg coll doc = true
  · obtain ⟨doc, rfl, hneeds⟩ := hstale
    refine ⟨_, .migrate hu hneeds, fun fields hfields => ?_, fun hnot => absurd rfl (hnot doc)⟩
    cases hfields
    exact .inl ⟨_, rfl, rfl⟩
  · have haside : Aside live ⟨.migration .readLive, .readFile live⟩ := Call.Passive.aside trivial
    refine ⟨_, .glance haside, fun fields hfields => .inr ⟨rfl, fun doc hdoc => ?_⟩,
      fun _ err => .inr ⟨rfl, fun _ h => by cases h⟩⟩
    cases hdoc
    cases hneeds : needsMigration e.cfg coll fields with
    | false => rfl
    | true => exact absurd ⟨fields, hfields, hneeds⟩ hstale

theorem runs_applyToStoredDocument (hc : e.cfg.Configured coll) (hid : DocumentId docId)
    (hu : u.holding = .nothing) (hm : u.moved = false) (hw : u.wrote = none) :
    Runs e coll (e.live coll docId) (fun u' _ => u'.holding = .nothing)
      (applyToStoredDocument e coll docId) u := by
  have hbody : Runs e coll (e.live coll docId)
      (fun u' _ => u'.moved = false ∧ u'.release.holding = .nothing)
      (applyToStoredDocument e coll docId) u := by
    refine .bind (runs_readStale hu) fun r u' hr => ?_
    rcases hr with ⟨doc, rfl, rfl⟩ | ⟨rfl, hcurrent⟩
    · dsimp only
      split
      · exact .pure ⟨hm, rfl⟩
      split
      · exact .pure ⟨hm, rfl⟩
      refine .bind (runs_newId rfl fun _ => rfl) fun r u₁ hr => ?_
      obtain ⟨version, rfl, rfl⟩ := hr
      dsimp only
      split
      · exact .pure ⟨hm, rfl⟩
      rename_i new hnew
      have hsit : Situated .migration
          { u.migrating (documentVersion (.obj doc)) with fresh := some version } := .inr ⟨rfl, rfl⟩
      have hq := e.queuePath_not_live hc hid ⟨_, _, hc, hid, rfl⟩ .patch
      have hversion : documentVersion new = version := migratedDocument_version hnew
      refine .bind (runs_replaceDocument hsit hq hw rfl (by rw [hversion])) fun r u₂ hr => ?_
      have hu₂ : u₂.moved = false ∧ u₂.release.holding = .nothing := by
        rcases hr with rfl | ⟨rfl, -⟩
        · exact ⟨rfl, rfl⟩
        · exact ⟨hm, rfl⟩
      cases r <;> exact .pure hu₂
    · have hrelease : ({ u with base := none } : View).release.holding = .nothing := by
        simp [View.release, hu]
      cases r with
      | error err => exact .pure ⟨hm, hrelease⟩
      | ok doc =>
        dsimp only
        rw [if_pos (hcurrent doc rfl)]
        exact .pure ⟨hm, hrelease⟩
  refine hbody.released (fun a h => ?_) fun _ _ h => h
  cases h

theorem runs_migrateOnAccess (hc : e.cfg.Configured coll) (hid : DocumentId docId)
    (hu : u.holding = .nothing) (hm : u.moved = false) (hw : u.wrote = none) (doc : JsonFields) :
    Runs e coll (e.live coll docId) (fun u' _ => u'.holding = .nothing)
      (migrateOnAccess e coll docId doc) u := by
  unfold migrateOnAccess
  split
  · exact .pure hu
  · refine .bind (runs_applyToStoredDocument hc hid hu hm hw) fun r u' hu' => ?_
    cases r with
    | error err => exact .pure hu'
    | ok a => exact (runs_glance (by simp [hu'])).mono fun _ _ h => h ▸ hu'

theorem runs_readDocument (hu : u.holding = .nothing) (doc : JsonFields) :
    Runs e coll live Settled (readDocument e req doc) u := by
  unfold readDocument
  split
  · have hP : Permits (QuietIn live u) id .delivering := permits_quietIn (by simp [hu]) (by decide)
    have hstub : ∀ ref data, QuietIn live u
        ⟨.cacheStub .rename, .install (cachePath e.dataDir (RefField.targetCollection ref)
          (RefField.targetID ref)) data⟩ := fun ref data =>
      ⟨⟨.inr rfl, by simp, by simp⟩, rfl, fun hmig => by rw [hu] at hmig; cases hmig⟩
    have hsummaries : (buildCacheSummaries e.ojson e.dataDir doc
        (Fields.get? req.target e.cfg.schemas)).Only (QuietIn live u) := by
      unfold buildCacheSummaries
      split
      · trivial
      · split
        · trivial
        · exact only_collectSummaries (fun ref _ => hP.summarizes (hstub ref _)) _
    refine .bind (.quiet hsummaries) fun summaries u' hu' => ?_
    subst hu'
    exact .pure (settled_unversioned hu rfl)
  · exact .pure (settled_unversioned hu rfl)

theorem runs_read (hc : e.cfg.Configured req.target) (hid : DocumentId req.parameter)
    (hu : u.holding = .nothing) (hm : u.moved = false) (hw : u.wrote = none) :
    Runs e req.target (e.live req.target req.parameter) Settled (read e req) u := by
  unfold read
  split
  · rename_i res hadm
    exact .pure (settled_fail hu (readAdmission_error hadm))
  · refine .bind (runs_glance (by simp [hu])) fun r u' hu' => ?_
    subst hu'
    cases r with
    | error err => exact .pure (settled_fail hu rfl)
    | ok doc =>
      have hmigrate := runs_migrateOnAccess (u := { u with base := none }) hc hid hu hm hw doc
      refine .bind hmigrate fun r u' hu' => ?_
      cases r with
      | error err => exact .pure (settled_fail hu' rfl)
      | ok current => exact runs_readDocument hu' current
end

inductive Job where
  | request (command : Command) (detail : JsonFields) (utf8 : Bool)
  | migration

def Job.prog (e : Engine) (collection docId : String) : Job → Prog (Option Result)
  | .request command detail utf8 => do
      let res ← execute e ⟨command, collection, docId, detail, utf8⟩
      pure (some res)
  | .migration => do
      let _ ← applyToStoredDocument e collection docId
      pure none

def Finished (u : View) : Option Result → Prop
  | some res => Settled u res
  | none => u.holding = .nothing

theorem runs_job {e : Engine} {coll docId : String} (hc : e.cfg.Configured coll)
    (hid : DocumentId docId) (job : Job) :
    Runs e coll (e.live coll docId) Finished (job.prog e coll docId) .start := by
  cases job with
  | request command detail utf8 =>
    have hexecute : Runs e coll (e.live coll docId) Settled
        (execute e ⟨command, coll, docId, detail, utf8⟩) .start := by
      cases command with
      | create => exact @runs_create e ⟨.create, coll, docId, detail, utf8⟩ _ rfl rfl rfl
      | read => exact @runs_read e ⟨.read, coll, docId, detail, utf8⟩ _ hc hid rfl rfl rfl
      | patch => exact @runs_patch e ⟨.patch, coll, docId, detail, utf8⟩ _ rfl rfl rfl
      | delete =>
        exact @runs_delete e ⟨.delete, coll, docId, detail, utf8⟩ _ hc rfl rfl rfl
    exact .bind hexecute fun res u hu => .pure hu
  | migration =>
    exact .bind (runs_applyToStoredDocument hc hid rfl rfl rfl) fun _ u hu => .pure hu
end Datorium
