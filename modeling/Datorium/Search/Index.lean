
import Datorium.Search.Agent
namespace Datorium
open Framework World
section
variable {fl : Floats}
def Searches.places (searches : Searches fl) (e : Engine) (collection : String) (file : File) :
    Set Bucket :=
  {b | e.HoldsBucket b.segments ∧ Belongs (searches.of collection) file.fields? b}

def World.tracked {ν : Type} (e : Engine) (collection docId : String) (w : World ν) :
    Tracked File Bucket where
  live := w.files (e.live collection docId)
  base := w.files (e.previous collection docId)
  queued := ∃ change, w.Queued e collection docId change
  places := {b | e.HoldsBucket b.segments ∧ docId ∈ w.bucketIds e collection b}

variable {ν : Type} {e : Engine} {searches : Searches fl} {coll docId : String}
  {w t : World ν}
theorem mem_derived_places {file : Option File} {b : Bucket} :
    b ∈ Tracked.derived (searches.places e coll) file ↔
      e.HoldsBucket b.segments ∧ InVersion searches coll file b := by
  constructor
  · rintro ⟨f, hf, hholds, hb⟩
    exact ⟨hholds, f, hf, hb⟩
  · rintro ⟨hholds, f, hf, hb⟩
    exact ⟨f, hf, hholds, hb⟩

theorem tracked_congr (hfiles : ∀ path, e.Traced coll docId path → t.files path = w.files path)
    (hids : ∀ b, docId ∈ t.bucketIds e coll b ↔ docId ∈ w.bucketIds e coll b) :
    t.tracked e coll docId = w.tracked e coll docId := by
  have hqueued : ∀ change, t.Queued e coll docId change ↔ w.Queued e coll docId change := by
    intro change
    rw [Queued, Queued, hfiles _ (.watched (.queue change)), hfiles _ (.watched (.taken change))]
  simp only [tracked, hfiles _ (.watched .live), hfiles _ .previous, hqueued, hids]

theorem SearchDone.distributed (h : SearchDone searches e coll docId w t)
    (hlive : t.files (e.live coll docId) = w.files (e.live coll docId))
    (hprevious : t.files (e.previous coll docId) = none) :
    Tracked.Distributed (searches.places e coll) (w.tracked e coll docId)
      (t.tracked e coll docId) where
  live := hlive
  base := hprevious
  places := by
    ext b
    have hderived := @mem_derived_places fl e searches coll
    simp only [tracked, Set.mem_ofPred_eq, Set.mem_union, Set.mem_sdiff, hderived]
    constructor
    · rintro ⟨hholds, hb⟩
      rcases (h.places b hholds).mp hb with hnew | ⟨hold, hnot⟩
      · exact .inl ⟨hholds, hnew⟩
      · exact .inr ⟨⟨hholds, hold⟩, fun hin => hnot hin.2⟩
    · rintro (⟨hholds, hnew⟩ | ⟨⟨hholds, hold⟩, hnot⟩)
      · exact ⟨hholds, (h.places b hholds).mpr (.inl hnew)⟩
      · exact ⟨hholds, (h.places b hholds).mpr (.inr ⟨hold, fun hin => hnot ⟨hholds, hin⟩⟩)⟩

theorem Ran.begun {res : Except FsError Bool} (h : Ran searches e coll docId w res t)
    (hprevious : t.files (e.previous coll docId) = w.files (e.previous coll docId)) :
    Tracked.Begun (searches.places e coll) (w.tracked e coll docId) (t.tracked e coll docId) where
  live := h.live
  base := hprevious
  gained := by
    rintro b ⟨hholds, hb⟩
    by_cases hw : docId ∈ w.bucketIds e coll b
    · exact .inl ⟨hholds, hw⟩
    · exact .inr (mem_derived_places.mpr ⟨hholds, h.edited.gained b hw hb⟩)

theorem Ran.recoverable {res : Except FsError Bool} (h : Ran searches e coll docId w res t)
    (hw : (w.tracked e coll docId).Recoverable (searches.places e coll))
    (hqueued : ∀ err, res = .error err → ∃ change, t.Queued e coll docId change) :
    (t.tracked e coll docId).Recoverable (searches.places e coll) := by
  rcases h.ended with ⟨hgone, hdone⟩ | ⟨hkept, err, herr⟩
  · exact ((hdone.distributed h.live hgone).coherent hw).recoverable
  · exact (h.begun hkept).recoverable hw (hqueued err herr)

theorem Ran.coherent {complete : Bool} (h : Ran searches e coll docId w (.ok complete) t)
    (hw : (w.tracked e coll docId).Recoverable (searches.places e coll)) :
    (t.tracked e coll docId).Coherent (searches.places e coll) := by
  rcases h.ended with ⟨hgone, hdone⟩ | ⟨-, err, herr⟩
  · exact (hdone.distributed h.live hgone).coherent hw
  · cases herr
end
section
variable {ν : Type} {host : Host ν} {e : Engine} {req : Request} {w w' : World ν}
  {item : WorkItem} {res : Result}
variable {coll docId : String}
theorem commit_tracked (hc : e.cfg.Configured req.target)
    (h : (commit e req).run (exec host .none) w = (.ok (item, res), w')) :
    w'.tracked e req.target req.parameter =
      (w.tracked e req.target req.parameter).commit (item.payload.map File.json) := by
  have hitem := commit_item h
  obtain ⟨hprevious, hqueue⟩ := commit_preserves hc h
  have hbuckets : ∀ b : Bucket, w'.files (b.path e req.target) = w.files (b.path e req.target) :=
    fun b => commit_frame (Bucket.apart hc hc hitem.valid) h
  have hqueued : (∃ change, w'.Queued e req.target req.parameter change) ↔ True :=
    iff_true_intro ⟨_, .inl hqueue⟩
  simp only [tracked, Tracked.commit, hitem.live, hprevious, hqueued, bucketIds, hbuckets]

theorem commit_tracked_other (hc : e.cfg.Configured req.target)
    (hc' : e.cfg.Configured coll) (hid' : DocumentId docId)
    (h : (commit e req).run (exec host .none) w = (.ok (item, res), w'))
    (hne : (coll, docId) ≠ (req.target, req.parameter)) :
    w'.tracked e coll docId = w.tracked e coll docId := by
  have hid := (commit_item h).valid
  refine tracked_congr (fun path hpath => commit_frame (hpath.apart hc hid hc' hid' hne) h)
    fun b => ?_
  rw [bucketIds, bucketIds, commit_frame (Bucket.apart hc' hc hid) h]
end

structure SearchNode (fl : Floats) (ν : Type) where
  e : Engine
  host : Host ν
  searches : Searches fl
  remote : Option (RemoteApplier fl)

structure IndexDesk (ν : Type) where
  world : World ν
  unfinished : String → String → Prop

def marked (unfinished : String → String → Prop) (collection docId : String) (failed : Prop) :
    String → String → Prop :=
  fun c id => if c = collection ∧ id = docId then failed else unfinished c id

namespace SearchNode
variable {fl : Floats} {ν : Type} (x : SearchNode fl ν)
def agentRun (order : MapOrder) (change : Command) (collection docId : String)
    (state : EntryState) : Prog (Except FsError Bool) :=
  runEntryResultWith (distributeSearch x.searches x.e x.remote order) x.e change collection docId
    state

/-- A create, patch or delete, or a run on an entry in which any call may fail. `may` restricts the
commands, `ends` the way runs end. -/
inductive Step (may : IndexDesk ν → Request → Prop) (ends : Except FsError Bool → Prop) :
    IndexDesk ν → IndexDesk ν → Prop where
  | command (s : IndexDesk ν) (req : Request) (writes : req.command ≠ .read)
      (configured : x.e.cfg.Configured req.target) (permitted : may s req) :
      Step may ends s { s with world := ((commit x.e req).run (exec x.host .none) s.world).2 }
  | agent (s : IndexDesk ν) (order : MapOrder) (faults : Faults) (change : Command)
      (collection docId : String) (state : EntryState)
      (configured : x.e.cfg.Configured collection) (valid : DocumentId docId)
      (present : s.world.Present x.e collection docId change state)
      (res : Except FsError Bool) (t : World ν)
      (run : (x.agentRun order change collection docId state).run (exec x.host faults) s.world =
        (res, t)) (ended : ends res) :
      Step may ends s ⟨t, marked s.unfinished collection docId (∃ err, res = .error err)⟩

structure Empty (collection : String) (w : World ν) : Prop where
  live : ∀ docId, DocumentId docId → w.files (x.e.live collection docId) = none
  previous : ∀ docId, DocumentId docId → w.files (x.e.previous collection docId) = none
  buckets : ∀ b : Bucket, w.files (b.path x.e collection) = none

def begin (w : World ν) : IndexDesk ν := ⟨w, fun _ _ => False⟩

structure Kept (collection : String) (s : IndexDesk ν) : Prop where
  distinct : ∀ b, (s.world.bucketIds x.e collection b).Nodup
  named : ∀ docId, ¬ DocumentId docId → ∀ b, docId ∉ s.world.bucketIds x.e collection b
  coherent : ∀ docId, DocumentId docId → ¬ s.unfinished collection docId →
    (s.world.tracked x.e collection docId).Coherent (x.searches.places x.e collection)
  recoverable : ∀ docId, DocumentId docId →
    (s.world.tracked x.e collection docId).Recoverable (x.searches.places x.e collection)

variable {x} {coll : String} {s t : IndexDesk ν} {w : World ν}
theorem kept_begin (h : x.Empty coll w) : x.Kept coll (begin w) := by
  have hids : ∀ b, w.bucketIds x.e coll b = [] := by
    intro b
    rw [bucketIds, h.buckets b]
    rfl
  have hcoherent : ∀ docId, DocumentId docId →
      (w.tracked x.e coll docId).Coherent (x.searches.places x.e coll) := by
    intro docId hid
    refine Tracked.coherent_empty (h.live docId hid) (h.previous docId hid) ?_
    ext b
    simp [tracked, hids b]
  refine ⟨fun b => ?_, fun docId _ b => ?_, fun docId hid _ => hcoherent docId hid,
    fun docId hid => (hcoherent docId hid).recoverable⟩
  · rw [begin, hids b]
    exact List.nodup_nil
  · rw [begin, hids b]
    exact List.not_mem_nil

theorem Kept.command (hs : x.Kept coll s) (hc : x.e.cfg.Configured coll) {req : Request}
    (hwrite : req.command ≠ .read) (hct : x.e.cfg.Configured req.target)
    (hfinished : ¬ s.unfinished req.target req.parameter) :
    x.Kept coll { s with world := ((commit x.e req).run (exec x.host .none) s.world).2 } := by
  rcases hrun : (commit x.e req).run (exec x.host .none) s.world with ⟨r, w'⟩
  cases r with
  | error res =>
    have hfiles := commit_refused hwrite hrun
    have hids : ∀ b, w'.bucketIds x.e coll b = s.world.bucketIds x.e coll b := by
      intro b
      rw [bucketIds, bucketIds, hfiles]
    have htracked : ∀ docId, w'.tracked x.e coll docId = s.world.tracked x.e coll docId :=
      fun docId => tracked_congr (fun path _ => by rw [hfiles]) fun b => by rw [hids b]
    refine ⟨fun b => ?_, fun docId hid b => ?_, fun docId hid hf => ?_, fun docId hid => ?_⟩
    · rw [hids b]
      exact hs.distinct b
    · rw [hids b]
      exact hs.named docId hid b
    · rw [htracked docId]
      exact hs.coherent docId hid hf
    · rw [htracked docId]
      exact hs.recoverable docId hid
  | ok committed =>
    obtain ⟨item, res⟩ := committed
    have hvalid := (commit_item hrun).valid
    have hids : ∀ b, w'.bucketIds x.e coll b = s.world.bucketIds x.e coll b := by
      intro b
      rw [bucketIds, bucketIds, commit_frame (Bucket.apart hc hct hvalid) hrun]
    -- the document of the command is finished, so its preserved version stands for its buckets
    have hdocs : ∀ docId, DocumentId docId →
        w'.tracked x.e coll docId = s.world.tracked x.e coll docId ∨
          (w'.tracked x.e coll docId).Coherent (x.searches.places x.e coll) := by
      intro docId hid
      by_cases hne : (coll, docId) = (req.target, req.parameter)
      · cases hne
        refine .inr ?_
        rw [commit_tracked hct hrun]
        exact (hs.coherent _ hid hfinished).commit _
      · exact .inl (commit_tracked_other hct hc hid hrun hne)
    refine ⟨fun b => ?_, fun docId hid b => ?_, fun docId hid hf => ?_, fun docId hid => ?_⟩
    · rw [hids b]
      exact hs.distinct b
    · rw [hids b]
      exact hs.named docId hid b
    · rcases hdocs docId hid with hsame | hcoherent
      · rw [hsame]
        exact hs.coherent docId hid hf
      · exact hcoherent
    · rcases hdocs docId hid with hsame | hcoherent
      · rw [hsame]
        exact hs.recoverable docId hid
      · exact hcoherent.recoverable

section
variable {order : MapOrder} {faults : Faults} {change : Command} {coll' docId docId' : String}
  {state : EntryState} {res : Except FsError Bool} {w' : World ν}
theorem run_bucket_other (hfl : fl.Printed) (hc : x.e.cfg.Configured coll)
    (hc' : x.e.cfg.Configured coll') (hid' : DocumentId docId')
    (hrun : (x.agentRun order change coll' docId' state).run (exec x.host faults) w =
      (res, w')) (hne : coll ≠ coll') (b : Bucket) :
    w'.files (b.path x.e coll) = w.files (b.path x.e coll) := by
  have htaken : b.path x.e coll ≠ takenQueuePath x.e.dataDir change coll' docId' := by
    intro heq
    have hwatched : x.e.Watched coll' docId'
      (takenQueuePath x.e.dataDir change coll' docId') := .taken change
    exact Engine.Traced.not_bucket hc hc' hid' (.watched hwatched) ⟨b, heq.symm⟩
  have hkeeps : Keeps (b.path x.e coll) (x.agentRun order change coll' docId' state) :=
    keeps_runEntryResultWith hfl order change state (Bucket.apart hc hc' hid') htaken
      (not_bucketPath_of_ne hc' hc hne)
  have hfiles : ((x.agentRun order change coll' docId' state).run (exec x.host faults)
    w).2.files (b.path x.e coll) = w.files (b.path x.e coll) := hkeeps.run
  rwa [hrun] at hfiles

theorem run_traced_other (hfl : fl.Printed) (hc : x.e.cfg.Configured coll)
    (hid : DocumentId docId) (hc' : x.e.cfg.Configured coll') (hid' : DocumentId docId')
    (hrun : (x.agentRun order change coll' docId' state).run (exec x.host faults) w =
      (res, w')) (hne : (coll, docId) ≠ (coll', docId')) {path : Path}
    (hpath : x.e.Traced coll docId path) : w'.files path = w.files path := by
  have htaken : path ≠ takenQueuePath x.e.dataDir change coll' docId' := by
    cases hpath with
    | watched hpath => exact (hpath.ne_taken hc' hid' hc hid hne change).symm
    | previous =>
      have hwatched : x.e.Watched coll' docId'
        (takenQueuePath x.e.dataDir change coll' docId') := .taken change
      exact hwatched.ne_previous hc hid hc' hid'
  have hkeeps : Keeps path (x.agentRun order change coll' docId' state) :=
    keeps_runEntryResultWith hfl order change state (hpath.apart hc' hid' hc hid hne) htaken
      (hpath.not_bucket hc' hc hid)
  have hfiles : ((x.agentRun order change coll' docId' state).run (exec x.host faults)
    w).2.files path = w.files path := hkeeps.run
  rwa [hrun] at hfiles

theorem Kept.agent_elsewhere (hs : x.Kept coll s) (hfl : fl.Printed)
    (hc : x.e.cfg.Configured coll) (hc' : x.e.cfg.Configured coll')
    (hid' : DocumentId docId') (hne : coll ≠ coll')
    (hrun : (x.agentRun order change coll' docId' state).run (exec x.host faults) s.world =
      (res, w')) :
    x.Kept coll ⟨w', marked s.unfinished coll' docId' (∃ err, res = .error err)⟩ := by
  have hids : ∀ b, w'.bucketIds x.e coll b = s.world.bucketIds x.e coll b := by
    intro b
    rw [bucketIds, bucketIds, run_bucket_other hfl hc hc' hid' hrun hne b]
  have htracked : ∀ docId, DocumentId docId →
      w'.tracked x.e coll docId = s.world.tracked x.e coll docId := by
    intro docId hid
    refine tracked_congr (fun path hpath =>
      run_traced_other hfl hc hid hc' hid' hrun (fun heq => hne (Prod.mk.inj heq).1) hpath)
      fun b => ?_
    rw [hids b]
  have hmarked : ∀ docId, marked s.unfinished coll' docId' (∃ err, res = .error err) coll
      docId = s.unfinished coll docId := fun docId => if_neg fun h => hne h.1
  refine ⟨fun b => ?_, fun docId hid b => ?_, fun docId hid hf => ?_, fun docId hid => ?_⟩
  · rw [hids b]
    exact hs.distinct b
  · rw [hids b]
    exact hs.named docId hid b
  · have hf' : ¬ s.unfinished coll docId := by
      rw [← hmarked docId]
      exact hf
    rw [htracked docId hid]
    exact hs.coherent docId hid hf'
  · rw [htracked docId hid]
    exact hs.recoverable docId hid

theorem Kept.agent (hs : x.Kept coll s) (hfl : fl.Printed) (hc : x.e.cfg.Configured coll)
    (hid' : DocumentId docId') (hpresent : s.world.Present x.e coll docId' change state)
    (hrun : (x.agentRun order change coll docId' state).run (exec x.host faults) s.world =
      (res, w')) :
    x.Kept coll ⟨w', marked s.unfinished coll docId' (∃ err, res = .error err)⟩ := by
  obtain ⟨hran, hqueued⟩ := ran_runEntryResultWith hc hid' hfl order change hpresent hs.distinct hrun
  have hother : ∀ docId, DocumentId docId → docId ≠ docId' →
      w'.tracked x.e coll docId = s.world.tracked x.e coll docId := by
    intro docId hid hne
    exact tracked_congr (fun path hpath =>
      run_traced_other hfl hc hid hc hid' hrun (fun heq => hne (Prod.mk.inj heq).2) hpath)
      fun b => hran.edited.others b docId hne
  refine ⟨hran.edited.distinct hs.distinct, fun docId hid b => ?_, fun docId hid hf => ?_,
    fun docId hid => ?_⟩
  · rw [hran.edited.others b docId fun heq => hid (heq ▸ hid')]
    exact hs.named docId hid b
  · by_cases heq : docId = docId'
    · subst heq
      have hok : ¬ ∃ err, res = .error err := by
        simpa [marked] using hf
      cases res with
      | error err => exact absurd ⟨err, rfl⟩ hok
      | ok complete => exact hran.coherent (hs.recoverable docId hid)
    · have hf' : ¬ s.unfinished coll docId := by
        simpa [marked, heq] using hf
      rw [hother docId hid heq]
      exact hs.coherent docId hid hf'
  · by_cases heq : docId = docId'
    · subst heq
      exact hran.recoverable (hs.recoverable docId hid) fun err herr => ⟨change, hqueued err herr⟩
    · rw [hother docId hid heq]
      exact hs.recoverable docId hid
end

def Careful (s : IndexDesk ν) (req : Request) : Prop := ¬ s.unfinished req.target req.parameter

theorem Kept.step {ends : Except FsError Bool → Prop} (hs : x.Kept coll s) (hfl : fl.Printed)
    (hc : x.e.cfg.Configured coll) (hstep : x.Step Careful ends s t) :
    x.Kept coll t := by
  cases hstep with
  | command req writes configured permitted => exact hs.command hc writes configured permitted
  | agent order faults change coll' docId state configured valid present res w' run ended =>
    by_cases hne : coll = coll'
    · subst hne
      exact hs.agent hfl hc valid present run
    · exact hs.agent_elsewhere hfl hc configured valid hne run

theorem Kept.reach {ends : Except FsError Bool → Prop} (hs : x.Kept coll s) (hfl : fl.Printed)
    (hc : x.e.cfg.Configured coll)
    (hreach : Relation.ReflTransGen (x.Step Careful ends) s t) : x.Kept coll t := by
  induction hreach with
  | refl => exact hs
  | tail _ hstep ih => exact ih.step hfl hc hstep

def Yields (collection docId : String) (w : World ν) (b : Bucket) : Prop :=
  ∃ doc d results, w.files (x.e.live collection docId) = some (File.ofFields doc) ∧
    (b.name, d) ∈ x.searches.of collection ∧ evaluateDocument fl d (some doc) = .ok results ∧
      b.segments ∈ results.map EvalResult.segments

variable {docId : String} {b : Bucket} {e : Engine}
theorem inVersion_iff_yields :
    InVersion x.searches coll (w.files (x.e.live coll docId)) b ↔ x.Yields coll docId w b := by
  constructor
  · rintro ⟨f, hf, d, hd, hsegs⟩
    cases hfields : f.fields? with
    | none =>
      rw [hfields] at hsegs
      cases hsegs
    | some doc =>
      rw [hfields] at hsegs
      obtain ⟨results, hresults, hmem⟩ := exists_of_mem_bucketsOf hsegs
      exact ⟨doc, d, results, by rw [hf, File.eq_ofFields hfields], hd, hresults, hmem⟩
  · rintro ⟨doc, d, results, hlive, hd, hresults, hmem⟩
    refine ⟨_, hlive, d, hd, ?_⟩
    rw [File.fields?_ofFields, bucketsOf_eq hresults]
    exact hmem

theorem Kept.mem_iff (hs : x.Kept coll s) (hid : DocumentId docId)
    (hqueue : ∀ change, ¬ s.world.Queued x.e coll docId change)
    (hholds : x.e.HoldsBucket b.segments) :
    docId ∈ s.world.bucketIds x.e coll b ↔ x.Yields coll docId s.world b := by
  have hsettled := (hs.recoverable docId hid).settled fun ⟨change, h⟩ => hqueue change h
  have hmem := Set.ext_iff.mp hsettled b
  rw [mem_derived_places] at hmem
  rw [← inVersion_iff_yields]
  exact ⟨fun h => (hmem.mp ⟨hholds, h⟩).2, fun h => (hmem.mpr ⟨hholds, h⟩).2⟩

/-- Where no command comes between a run that stopped and the next one that ends well, a document
without queue entries is in a bucket exactly when its live version is evaluated to it. -/
theorem index_exact_after_failures (hfl : fl.Printed) (hc : x.e.cfg.Configured coll)
    (hempty : x.Empty coll w)
    (hreach : Relation.ReflTransGen (x.Step Careful fun _ => True) (begin w) s) {docId : String}
    (hid : DocumentId docId) (hqueue : ∀ change, ¬ s.world.Queued x.e coll docId change)
    {b : Bucket} (hholds : x.e.HoldsBucket b.segments) :
    docId ∈ s.world.bucketIds x.e coll b ↔ x.Yields coll docId s.world b :=
  ((kept_begin hempty).reach hfl hc hreach).mem_iff hid hqueue hholds

structure Settled (collection : String) (s : IndexDesk ν) : Prop extends Kept x collection s where
  finished : ∀ c docId, ¬ s.unfinished c docId
  loadable : ∀ b : Bucket, (loadFile fl (s.world.files (b.path x.e collection))).isSome = true
  evaluated : ∀ docId, DocumentId docId → (∀ change, ¬ s.world.Queued x.e collection docId change) →
      ∀ f, s.world.files (x.e.live collection docId) = some f →
        ∃ doc, f = File.ofFields doc ∧ Evaluates (x.searches.of collection) (some doc)

theorem settled_begin (h : x.Empty coll w) : x.Settled coll (begin w) where
  toKept := kept_begin h
  finished _ _ := id
  loadable b := by
    rw [begin, h.buckets b]
    rfl
  evaluated docId hid _ f hf := by
    rw [begin, h.live docId hid] at hf
    cases hf

theorem Settled.evaluated_same (hs : x.Settled coll s) (hid : DocumentId docId)
    (hfiles : ∀ path, x.e.Traced coll docId path → w.files path = s.world.files path)
    (hqueue : ∀ change, ¬ w.Queued x.e coll docId change) :
    ∀ f, w.files (x.e.live coll docId) = some f →
      ∃ doc, f = File.ofFields doc ∧ Evaluates (x.searches.of coll) (some doc) := by
  intro f hf
  rw [hfiles _ (.watched .live)] at hf
  refine hs.evaluated docId hid (fun change hqueued => hqueue change ?_) f hf
  rwa [Queued, hfiles _ (.watched (.queue change)), hfiles _ (.watched (.taken change))]

theorem Settled.command (hs : x.Settled coll s) (hc : x.e.cfg.Configured coll)
    {req : Request} (hwrite : req.command ≠ .read) (hct : x.e.cfg.Configured req.target) :
    x.Settled coll { s with world := ((commit x.e req).run (exec x.host .none) s.world).2 } := by
  have hkept := hs.toKept.command hc hwrite hct (hs.finished _ _)
  rcases hrun : (commit x.e req).run (exec x.host .none) s.world with ⟨r, w'⟩
  rw [hrun] at hkept
  cases r with
  | error res =>
    have hfiles := commit_refused hwrite hrun
    refine ⟨hkept, hs.finished, fun b => ?_, fun docId hid hqueue =>
      hs.evaluated_same hid (fun path _ => by rw [hfiles]) hqueue⟩
    rw [hfiles]
    exact hs.loadable b
  | ok committed =>
    obtain ⟨item, res⟩ := committed
    have hvalid := (commit_item hrun).valid
    refine ⟨hkept, hs.finished, fun b => ?_, fun docId hid hqueue => ?_⟩
    · rw [commit_frame (Bucket.apart hc hct hvalid) hrun]
      exact hs.loadable b
    · by_cases hne : (coll, docId) = (req.target, req.parameter)
      · cases hne
        exact absurd (.inl (commit_preserves hct hrun).2) (hqueue req.command)
      · exact hs.evaluated_same hid
          (fun path hpath => commit_frame (hpath.apart hct hvalid hc hid hne) hrun) hqueue

section
variable {order : MapOrder} {faults : Faults} {change : Command} {coll' docId docId' : String}
  {state : EntryState} {res : Except FsError Bool} {w' : World ν}
theorem marked_ok (hs : ∀ c docId, ¬ s.unfinished c docId) (complete : Bool) (c docId : String) :
    ¬ marked s.unfinished coll' docId'
      (∃ err, (.ok complete : Except FsError Bool) = .error err) c docId := by
  unfold marked
  split
  · rintro ⟨err, herr⟩
    cases herr
  · exact hs c docId

theorem Settled.agent (hs : x.Settled coll s) (hfl : fl.Printed)
    (hc : x.e.cfg.Configured coll) (hc' : x.e.cfg.Configured coll')
    (hid' : DocumentId docId') (hpresent : s.world.Present x.e coll' docId' change state)
    {complete : Bool}
    (hrun : (x.agentRun order change coll' docId' state).run (exec x.host faults) s.world =
      (.ok complete, w')) :
    x.Settled coll ⟨w', marked s.unfinished coll' docId'
      (∃ err, (.ok complete : Except FsError Bool) = .error err)⟩ := by
  by_cases hne : coll = coll'
  · subst hne
    obtain ⟨hran, -⟩ := ran_runEntryResultWith hc hid' hfl order change hpresent hs.distinct hrun
    have hdone : SearchDone x.searches x.e coll docId' s.world w' := by
      rcases hran.ended with ⟨-, hdone⟩ | ⟨-, err, herr⟩
      · exact hdone
      · cases herr
    refine ⟨hs.toKept.agent hfl hc hid' hpresent hrun, marked_ok hs.finished complete,
      fun b => hdone.loadable b (hs.loadable b), fun docId hid hqueue => ?_⟩
    by_cases heq : docId = docId'
    · subst heq
      intro f hf
      exact hdone.evaluated f (hran.live ▸ hf)
    · exact hs.evaluated_same hid (fun path hpath =>
        run_traced_other hfl hc hid hc hid' hrun (fun h => heq (Prod.mk.inj h).2) hpath) hqueue
  · refine ⟨hs.toKept.agent_elsewhere hfl hc hc' hid' hne hrun, marked_ok hs.finished complete,
      fun b => ?_, fun docId hid hqueue => hs.evaluated_same hid (fun path hpath =>
        run_traced_other hfl hc hid hc' hid' hrun (fun h => hne (Prod.mk.inj h).1) hpath) hqueue⟩
    rw [run_bucket_other hfl hc hc' hid' hrun hne b]
    exact hs.loadable b
end

def EndsWell (res : Except FsError Bool) : Prop := ∃ complete, res = .ok complete

theorem Settled.reach (hs : x.Settled coll s) (hfl : fl.Printed) (hc : x.e.cfg.Configured coll)
    (hreach : Relation.ReflTransGen (x.Step (fun _ _ => True) EndsWell) s t) :
    x.Settled coll t := by
  induction hreach with
  | refl => exact hs
  | tail _ hstep ih =>
    cases hstep with
    | command req writes configured permitted => exact ih.command hc writes configured
    | agent order faults change coll' docId state configured valid present res w' run ended =>
      obtain ⟨complete, rfl⟩ := ended
      exact ih.agent hfl hc configured valid present run

theorem holdsBucket_of_every (h : e.HoldsEveryRole) (segments : List String) :
    e.HoldsBucket segments := by
  have hsource := h.source (rawSlot (shardInput segments))
  have hassigned := h.assigned (rawSlot (shardInput segments))
  have howner : e.cfg.sotForSlot (rawSlot (shardInput segments)) = e.serverName := by
    simp only [Config.sotForSlot, hassigned, if_true, hsource]
  rw [Engine.HoldsBucket, if_pos hassigned, howner, searchShardTargets, List.mem_eraseDups,
    List.mem_filter]
  exact ⟨by simp, by simpa using h.named⟩

theorem servesSearch_of_every (h : e.HoldsEveryRole) (slot : UInt8) : servesSearch e slot = true := by
  simp [servesSearch, Config.assignmentForSlot_eq, h.source slot]

theorem search_matched {host : Host ν} {searches : Searches fl} {searchName : String}
    {detail : JsonFields} {d : Definition fl.F} (hrole : e.HoldsEveryRole)
    (hname : b.name = searchName) (hd : Fields.get? searchName (searches.of coll) = some d)
    (hpath : resolveQueryPath fl d detail = .ok b.segments)
    (hload : (loadFile fl (w.files (b.path e coll))).isSome = true) :
    ((search searches e coll searchName detail).run (exec host .none) w).1 =
      .matched (w.bucketIds e coll b) := by
  obtain ⟨defs, hdefs, hget⟩ : ∃ defs, Fields.get? coll searches.definitions = some defs ∧
      Fields.get? searchName defs = some d := by
    unfold Searches.of at hd
    cases hdefs : Fields.get? coll searches.definitions with
    | none => simp [hdefs] at hd
    | some defs => exact ⟨defs, rfl, by simpa [hdefs] using hd⟩
  have hserves := servesSearch_of_every hrole (rawSlot (shardInput b.segments))
  obtain ⟨⟨rf, existed⟩, hrf⟩ := Option.isSome_iff_exists.mp hload
  have hids : w.bucketIds e coll b = rf.items.map BucketItem.id := fileIds_eq hrf
  have hloaded : loadedResult fl (b.path e coll)
      (exec host .none ⟨.readLive, .readFile (b.path e coll)⟩ w).1 = .ok (rf, existed) := by
    have hcases := @loadedResult_eq fl ν host .readLive (b.path e coll) w
    rcases hcases with ⟨a, ha, hok⟩ | ⟨hnone, -⟩
    · rw [hrf] at ha
      cases ha
      exact hok
    · rw [hrf] at hnone
      cases hnone
  subst hname
  simp only [search, hdefs, hget, hpath, hserves, Bool.not_true, Bool.false_eq_true, if_false]
  have hread : ((loadResultFile fl .readLive (b.path e coll)).run (exec host .none) w).1 =
      .ok (rf, existed) := hloaded
  rw [hids, ← Bucket.path, Program.bind_eq, Program.run_bind, hread]
  rfl

/-- Whenever nothing of the collection is queued, a search answers exactly the documents that
satisfy every clause, each once. -/
theorem search_exact (hfl : fl.Printed) (hrole : x.e.HoldsEveryRole)
    (hc : x.e.cfg.Configured coll) (hempty : x.Empty coll w)
    (hreach : Relation.ReflTransGen (x.Step (fun _ _ => True) EndsWell) (begin w) s)
    (hqueue : ∀ docId, DocumentId docId → ∀ change, ¬ s.world.Queued x.e coll docId change)
    {searchName : String} {d : Definition fl.F}
    (hd : Fields.get? searchName (x.searches.of coll) = some d)
    (hranges : ∀ docId doc, DocumentId docId →
      s.world.files (x.e.live coll docId) = some (File.ofFields doc) →
        ∀ c ∈ d.clauses, c.Ranges doc)
    {vars : JsonFields} (hvars : ∀ name v, lookupVar vars name = some v → v.Plain)
    {segments : List String} (hpath : resolveQueryPath fl d vars = .ok segments) :
    ∃ ids, ((search x.searches x.e coll searchName vars).run (exec x.host .none) s.world).1 =
        .matched ids ∧ ids.Nodup ∧
      ∀ docId, docId ∈ ids ↔ DocumentId docId ∧ ∃ doc,
        s.world.files (x.e.live coll docId) = some (File.ofFields doc) ∧
          ∀ c ∈ d.clauses, c.Satisfied vars doc := by
  have hsettled := (settled_begin hempty).reach hfl hc hreach
  have hmem : (searchName, d) ∈ x.searches.of coll := Fields.mem_of_get? hd
  let b : Bucket := ⟨searchName, segments, x.searches.plainNames coll _ hmem,
    plain_resolveQueryPath hfl hpath⟩
  refine ⟨s.world.bucketIds x.e coll b, search_matched hrole rfl hd hpath
    (hsettled.loadable b), hsettled.distinct b, fun docId => ?_⟩
  by_cases hid : DocumentId docId
  · rw [hsettled.toKept.mem_iff hid (hqueue docId hid) (holdsBucket_of_every hrole b.segments)]
    refine ⟨?_, ?_⟩
    · rintro ⟨doc, d', results, hlive, hd', hresults, hsegs⟩
      have hsame := List.inj_on_of_nodup_map (x.searches.distinct coll) hmem hd' rfl
      cases hsame
      exact ⟨hid, doc, hlive,
        (resolved_mem_iff (hranges docId doc hid hlive) hvars hresults hpath).mp hsegs⟩
    · rintro ⟨-, doc, hlive, hsat⟩
      obtain ⟨doc', hdoc', hevaluates⟩ := hsettled.evaluated docId hid (hqueue docId hid) _ hlive
      obtain ⟨results, hresults⟩ := hevaluates _ hmem
      cases hdoc'
      exact ⟨doc, d, results, hlive, hmem, hresults,
        (resolved_mem_iff (hranges docId doc hid hlive) hvars hresults hpath).mpr hsat⟩
  · exact ⟨fun h => absurd h (hsettled.named docId hid b), fun h => absurd h.1 hid⟩
end SearchNode
namespace Sample
theorem floats_printed : floats.Printed where
  toDecimal := floats_decimal
  noSlash := by
    have hall : ∀ f : Fin 3, '/' ∉ (numberText f).toList := by decide
    exact hall

def soleServer : Engine :=
  { server with cfg := { config with shardMap := [("00-FF", ⟨"alpha", ["alpha"], []⟩)] } }

theorem soleServer_roles : soleServer.HoldsEveryRole := by
  have hassigned : ∀ slot, soleServer.cfg.slotAssignment slot = (⟨"alpha", ["alpha"], []⟩, true) := by
    intro slot
    have hrange : parseRange "00-FF" = some (0, 255) := by decide +kernel
    have hcontains : rangeContains (0, 255) slot.toNat = true := by
      simpa [rangeContains] using Nat.le_of_lt_succ slot.toNat_lt
    simp [Config.slotAssignment, soleServer, covers, hrange, hcontains]
  refine ⟨by decide, fun slot => ?_, fun slot => ?_⟩
  · rw [hassigned]
  · rw [hassigned]
    rfl

def byTitleClauses : List (Clause floats.F) :=
  [{ field := "/title", op := .opEquals, value := .str "$title" }]

def movieSearches : Searches floats where
  definitions := [("Movies", [
    ("byTitle", ⟨byTitleClauses, []⟩),
    ("titled", ⟨[{ field := "/title", op := .opExists, value := .str "$titled" }], []⟩)])]
  distinct coll := by
    by_cases hc : "Movies" = coll
    · subst hc
      decide
    · simp [Fields.get?_cons, hc]
  plainNames coll := by
    by_cases hc : "Movies" = coll
    · subst hc
      simp only [Fields.get?_cons, if_true, Option.getD_some, List.mem_cons, List.not_mem_nil, or_false]
      rintro entry (rfl | rfl)
      · decide
      · decide
    · simp [Fields.get?_cons, hc]

def movieNode : SearchNode floats Unit := ⟨soleServer, host, movieSearches, none⟩

def sourceOrder : MapOrder := ⟨id, fun _ => .refl _⟩

def titleBucket (title : String) (h : PlainName (encodeStringValue title)) : Bucket :=
  ⟨"byTitle", [encodeStringValue title], by decide, by simpa using h⟩

def retitle (title : String) (w : World Unit) : Request :=
  ⟨.patch, "Movies", "alien",
    [("#", ((w.files (soleServer.live "Movies" "alien")).bind File.fields?).bind
        (Fields.get? "#") |>.getD .null), ("$", .str "Movies:1"),
      ("RFC6902", .arr [.obj [("op", .str "replace"), ("path", .str ""),
        ("value", .obj [("title", .str title), ("#", .num "7")])]])], true⟩

def commanded (req : Request) (s : IndexDesk Unit) : IndexDesk Unit :=
  { s with world := ((commit soleServer req).run (exec host .none) s.world).2 }

def entryPath (change : Command) : EntryState → Path
  | .queue => queuePath ["data"] change "Movies" "alien"
  | .taken => takenQueuePath ["data"] change "Movies" "alien"

def distributed (faults : Faults) (change : Command) (state : EntryState) (s : IndexDesk Unit) :
    IndexDesk Unit :=
  let out := (movieNode.agentRun sourceOrder change "Movies" "alien" state).run (exec host faults)
    s.world
  ⟨out.2, marked s.unfinished "Movies" "alien" (∃ err, out.1 = .error err)⟩

def titledFails : Faults := fun site =>
  decide (site = .bucket (searchResultPath ["data"] "Movies" "titled" ["true"]) 0 .load)

theorem soleServer_configured : soleServer.cfg.Configured "Movies" := by decide

theorem emptyWorld_empty : movieNode.Empty "Movies" emptyWorld :=
  ⟨fun _ _ => rfl, fun _ _ => rfl, fun _ => rfl⟩

section
variable {may : IndexDesk Unit → Request → Prop} {ends : Except FsError Bool → Prop}
theorem commanded_step {req : Request} {s : IndexDesk Unit} (hwrite : req.command ≠ .read)
    (htarget : req.target = "Movies") (hmay : may s req) :
    movieNode.Step may ends s (commanded req s) :=
  .command s req hwrite (htarget ▸ soleServer_configured) hmay

theorem distributed_step {faults : Faults} {change : Command} {state : EntryState}
    {s : IndexDesk Unit}
    (hpresent : (s.world.files (entryPath change state)).isSome = true)
    (hends : ends ((movieNode.agentRun sourceOrder change "Movies" "alien" state).run
      (exec host faults) s.world).1) :
    movieNode.Step may ends s (distributed faults change state s) := by
  refine .agent s sourceOrder faults change "Movies" "alien" state soleServer_configured
    Sample.alien_id ?_ _ _ rfl hends
  cases state with
  | queue => exact Option.isSome_iff_ne_none.mp hpresent
  | taken => exact Option.isSome_iff_ne_none.mp hpresent
end

theorem not_queued_of {w : World Unit}
    (h : ([Command.create, .read, .patch, .delete].all fun change =>
      (w.files (queuePath ["data"] change "Movies" "alien")).isNone &&
        (w.files (takenQueuePath ["data"] change "Movies" "alien")).isNone) = true)
    (change : Command) : ¬ w.Queued soleServer "Movies" "alien" change := by
  simp only [Bool.and_eq_true, List.all_eq_true, Option.isNone_iff_eq_none] at h
  have hfiles := h change (by cases change <;> simp)
  rintro (hq | hq)
  · exact hq hfiles.1
  · exact hq hfiles.2

def createdMovie : IndexDesk Unit := commanded createRequest (SearchNode.begin emptyWorld)

def retriedMovie : IndexDesk Unit :=
  distributed .none .create .taken (distributed titledFails .create .queue createdMovie)

def overtakenMovie : IndexDesk Unit :=
  let retitled (title : String) (s : IndexDesk Unit) := commanded (retitle title s.world) s
  distributed .none .patch .queue (distributed .none .patch .taken (retitled "Alien3"
    (distributed titledFails .patch .queue (retitled "Aliens"
      (distributed .none .create .queue createdMovie)))))

def indexedMovie : IndexDesk Unit := distributed .none .create .queue createdMovie

theorem reach_indexedMovie : Relation.ReflTransGen
    (movieNode.Step (fun _ _ => True) SearchNode.EndsWell) (SearchNode.begin emptyWorld)
    indexedMovie := by
  have hends : ((movieNode.agentRun sourceOrder .create "Movies" "alien" .queue).run
      (exec host .none) createdMovie.world).1.toBool = true := by decide +kernel
  refine .tail (.single (commanded_step (by decide) rfl trivial))
    (distributed_step (by decide +kernel) ?_)
  change SearchNode.EndsWell ((movieNode.agentRun sourceOrder .create "Movies" "alien" .queue).run
    (exec host .none) createdMovie.world).1
  revert hends
  generalize ((movieNode.agentRun sourceOrder .create "Movies" "alien" .queue).run
    (exec host .none) createdMovie.world).1 = res
  intro hends
  cases res with
  | error err => cases hends
  | ok complete => exact ⟨complete, rfl⟩

theorem indexedMovie_queue (docId : String) (hid : DocumentId docId) (change : Command) :
    ¬ indexedMovie.world.Queued soleServer "Movies" docId change := by
  have halien : DocumentId "alien" := Sample.alien_id
  by_cases heq : docId = "alien"
  · subst heq
    exact not_queued_of (by decide +kernel) change
  · have hne : ("Movies", docId) ≠ ("Movies", "alien") := fun h => heq (Prod.mk.inj h).2
    have hfiles : ∀ path, soleServer.Traced "Movies" docId path →
        indexedMovie.world.files path = none := by
      intro path hpath
      have hrun := @SearchNode.run_traced_other floats Unit movieNode "Movies" createdMovie.world
        sourceOrder .none .create "Movies" docId "alien" .queue _ _ floats_printed
        soleServer_configured hid soleServer_configured halien rfl hne path hpath
      have hcreated : createdMovie.world.files path = none := by
        rcases hcommit : (commit soleServer createRequest).run (exec host .none) emptyWorld with
          ⟨r, w'⟩
        have hworld : createdMovie.world = w' := congrArg Prod.snd hcommit
        rw [hworld]
        cases r with
        | error res => rw [commit_refused (by decide) hcommit, emptyWorld]
        | ok committed => exact commit_frame (hpath.apart soleServer_configured halien
            soleServer_configured hid hne) hcommit
      exact hrun.trans hcreated
    rintro (hq | hq)
    · exact hq (hfiles _ (.watched (.queue change)))
    · exact hq (hfiles _ (.watched (.taken change)))
end Sample
open Sample
theorem index_exact_after_failures_retry : movieNode.Yields "Movies" "alien" retriedMovie.world
      (titleBucket "Alien" (by decide)) := by
  have hreach : Relation.ReflTransGen (movieNode.Step SearchNode.Careful fun _ => True)
      (SearchNode.begin emptyWorld) retriedMovie :=
    .tail (.tail (.single (commanded_step (by decide) rfl id))
      (distributed_step (by decide +kernel) trivial))
      (distributed_step (by decide +kernel) trivial)
  have hlisted : "alien" ∈ retriedMovie.world.bucketIds soleServer "Movies"
      (titleBucket "Alien" (by decide)) := by decide +kernel
  exact (SearchNode.index_exact_after_failures floats_printed soleServer_configured
    emptyWorld_empty hreach alien_id
    (not_queued_of (by decide +kernel))
    (SearchNode.holdsBucket_of_every soleServer_roles _)).mp hlisted

theorem index_not_exact_after_failures :
    Relation.ReflTransGen (movieNode.Step (fun _ _ => True) fun _ => True)
        (SearchNode.begin emptyWorld) overtakenMovie ∧
      (∀ change, ¬ overtakenMovie.world.Queued soleServer "Movies" "alien" change) ∧
      "alien" ∈ overtakenMovie.world.bucketIds soleServer "Movies"
        (titleBucket "Aliens" (by decide)) ∧
      ¬ movieNode.Yields "Movies" "alien" overtakenMovie.world
        (titleBucket "Aliens" (by decide)) := by
  refine ⟨?_, not_queued_of (by decide +kernel), by decide +kernel, fun hyields => ?_⟩
  · exact .tail (.tail (.tail (.tail (.tail (.tail
      (.single (commanded_step (by decide) rfl trivial))
      (distributed_step (by decide +kernel) trivial))
      (commanded_step (by decide) rfl trivial))
      (distributed_step (by decide +kernel) trivial))
      (commanded_step (by decide) rfl trivial))
      (distributed_step (by decide +kernel) trivial))
      (distributed_step (by decide +kernel) trivial)
  · obtain ⟨doc, d, results, hlive, hd, hresults, hsegs⟩ := hyields
    have hnone : ((overtakenMovie.world.files (soleServer.live "Movies" "alien")).all
        fun f => (movieSearches.of "Movies").all fun entry =>
          !(bucketsOf entry.2 f.fields?).contains [encodeStringValue "Aliens"]) = true := by
      decide +kernel
    have hfiles : overtakenMovie.world.files (soleServer.live "Movies" "alien") =
      some (File.ofFields doc) := hlive
    rw [hfiles, Option.all_some, List.all_eq_true] at hnone
    have hnot := hnone _ hd
    rw [File.fields?_ofFields, bucketsOf_eq hresults] at hnot
    simp only [Bool.not_eq_true', List.contains_eq_mem, decide_eq_false_iff_not] at hnot
    exact hnot hsegs

theorem search_exact_created : ∃ ids, ((search movieSearches soleServer "Movies" "byTitle"
        [("title", .str "Alien")]).run (exec host .none) indexedMovie.world).1 = .matched ids ∧
      ids.Nodup ∧ ∀ docId, docId ∈ ids ↔ DocumentId docId ∧ ∃ doc,
        indexedMovie.world.files (soleServer.live "Movies" docId) = some (File.ofFields doc) ∧
          ∀ c ∈ byTitleClauses, c.Satisfied [("title", .str "Alien")] doc := by
  have hd : Fields.get? "byTitle" (movieNode.searches.of "Movies") =
      some ⟨byTitleClauses, []⟩ := rfl
  have hvars : ∀ name v, lookupVar [("title", .str "Alien")] name = some v → v.Plain := by
    intro name v hv
    have hmem := Fields.mem_of_get? hv
    rw [List.mem_singleton] at hmem
    rw [(Prod.mk.inj hmem).2]
    trivial
  have hranges : ∀ c ∈ byTitleClauses, ∀ doc, c.Ranges doc := by
    intro c hc doc
    rw [byTitleClauses, List.mem_singleton] at hc
    subst hc
    exact ⟨fun hop => (by cases hop), fun hop => (by cases hop)⟩
  have hpath : resolveQueryPath floats ⟨byTitleClauses, []⟩
      [("title", .str "Alien")] = .ok [encodeStringValue "Alien"] := by rfl
  exact SearchNode.search_exact floats_printed soleServer_roles
    soleServer_configured emptyWorld_empty reach_indexedMovie
    indexedMovie_queue hd (fun _ doc _ _ c hc => hranges c hc doc) hvars hpath
end Datorium
