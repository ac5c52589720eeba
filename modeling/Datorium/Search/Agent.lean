
import Datorium.Framework.NetDifference
import Datorium.Search.Maintain
namespace Datorium
open Framework Program World
section
variable {fl : Floats} {e : Engine} {remote : Option (RemoteApplier fl)} {coll id : String}
def OnBuckets (e : Engine) (collection : String) (op : Op) : Prop :=
  ∀ path, ¬ BucketPath e collection path → op.call.Avoids path

theorem only_loadResultFile {P : Op → Prop} {site : Site} {path : Path}
    (h : P ⟨site, .readFile path⟩) : (loadResultFile fl site path).Only P :=
  ⟨h, fun _ => trivial⟩

theorem only_mutationAttempts {path : Path} {r : BucketRun fl} (attempts : List Nat)
    (last : Option FsError) :
    (mutationAttempts fl path r.mutate attempts last).Only
      fun op => ∀ p, p ≠ path → op.call.Avoids p := by
  induction attempts generalizing last with
  | nil => trivial
  | cons attempt attempts ih =>
    refine .bindOk (only_loadResultFile fun _ _ => trivial) (fun _ => trivial) fun loaded => ?_
    obtain ⟨rf, existed⟩ := loaded
    dsimp only
    cases hmutate : r.mutate (rf.named fl) existed with
    | mk changed rf' =>
      cases changed with
      | false => trivial
      | true =>
        refine .bindOk (only_perform fun _ _ => trivial) (fun _ => trivial) fun version => ?_
        refine .bind (.bind (only_prepareFile_avoids.mono fun _ hop p hp => hop p hp)
          fun prepared => ?_) fun written => ?_
        · cases prepared with
          | error err => trivial
          | ok u =>
            refine .bind (only_perform fun p hp => hp.symm) fun installed => ?_
            cases installed <;> trivial
        · cases written with
          | error err => trivial
          | ok u =>
            refine .bind (only_loadResultFile fun _ _ => trivial) fun checked => ?_
            cases checked with
            | error err => exact ih _
            | ok checked =>
              obtain ⟨check, existed'⟩ := checked
              dsimp only
              split
              · trivial
              · exact ih _

theorem onBuckets_of_remote {p : Prog (Except FsError Unit)}
    (h : p.Only fun op => ∀ path, True → op.call.Avoids path) : p.Only (OnBuckets e coll) :=
  h.mono fun _ hop path _ => hop path trivial

theorem only_routedRun (b : Bucket) (r : BucketRun fl) :
    (routedRun e remote coll b.name b.segments r).Only (OnBuckets e coll) := by
  have hlocal : (applyRun (searchResultPath e.dataDir coll b.name b.segments) r).Only
      (OnBuckets e coll) := by
    refine .bind ((only_mutationAttempts _ none).mono fun op hop path hpath =>
      hop path fun heq => hpath ⟨b, heq⟩) fun res => ?_
    cases res <;> trivial
  have hothers : ∀ targets, (deliverRemote remote coll b.name b.segments r targets).Only
      (OnBuckets e coll) :=
    fun targets => onBuckets_of_remote (only_deliverRemote remote _ _ _ _ _)
  unfold routedRun deliverMutation
  dsimp only
  split
  · split
    · exact hlocal
    · cases remote with
      | none => trivial
      | some remote => exact (remote.leavesFiles _ _ _ _ _).mono fun _ hop path _ => hop path
  · split
    · refine .bindOk hlocal (fun _ => trivial) fun u => ?_
      exact hothers _
    · exact hothers _

theorem only_eachBucket {what name : String} (hname : PlainName name)
    {run : EvalResult fl → BucketRun fl} {results : List (EvalResult fl)}
    (hplain : ∀ r ∈ results, ∀ seg ∈ r.segments, PlainName seg) :
    (eachBucket what (fun r => routedRun e remote coll name r.segments (run r)) results).Only
      (OnBuckets e coll) := by
  induction results with
  | nil => trivial
  | cons r results ih =>
    refine .bindOk (only_routedRun ⟨name, r.segments, hname, hplain r List.mem_cons_self⟩ (run r))
      (fun _ => trivial) fun u => ?_
    exact ih fun r' hr' => hplain r' (List.mem_cons_of_mem _ hr')

variable {prevDoc currentDoc : Option JsonFields}
theorem only_distributeDefinition (hfl : fl.Printed) (order : MapOrder) {name : String}
    (hname : PlainName name) (d : Definition fl.F) :
    (distributeDefinition e remote order coll id prevDoc currentDoc name d).Only
      (OnBuckets e coll) := by
  unfold distributeDefinition
  cases hold : evaluateDocument fl d prevDoc with
  | error message => trivial
  | ok olds =>
    cases hnew : evaluateDocument fl d currentDoc with
    | error message => trivial
    | ok news =>
      refine .bind (only_eachBucket hname fun r hr => ?_) fun res => ?_
      · exact plain_bucketsOf hfl
          ((mem_outdated_index hold hnew order hfl).mp (List.mem_map_of_mem hr)).1
      · cases res with
        | error err => trivial
        | ok u =>
          cases currentDoc with
          | none => trivial
          | some doc =>
            refine only_eachBucket hname fun r hr => ?_
            exact plain_bucketsOf hfl
              ((mem_arranged_index hnew order hfl).mp (List.mem_map_of_mem hr))

theorem only_distributeDefinitions (hfl : fl.Printed) (order : MapOrder)
    {defs : List (String × Definition fl.F)} (hnames : ∀ entry ∈ defs, PlainName entry.1) :
    (distributeDefinitions e remote order coll id prevDoc currentDoc defs).Only
      (OnBuckets e coll) := by
  induction defs with
  | nil => trivial
  | cons entry defs ih =>
    obtain ⟨name, d⟩ := entry
    refine .bindOk (only_distributeDefinition hfl order (hnames _ List.mem_cons_self) d)
      (fun _ => trivial) fun u => ?_
    exact ih fun entry hentry => hnames entry (List.mem_cons_of_mem _ hentry)

theorem only_distributeSearch (searches : Searches fl) (hfl : fl.Printed) (order : MapOrder) :
    (distributeSearch searches e remote order coll id prevDoc currentDoc).Only (OnBuckets e coll) :=
  only_distributeDefinitions hfl order fun entry hentry =>
    searches.plainNames coll entry ((order.perm _).mem_iff.mp hentry)
end
section
variable {e : Engine} {coll coll' docId docId' : String} {path : Path}
inductive Engine.Traced (e : Engine) (collection docId : String) : Path → Prop where
  | watched {path : Path} (h : e.Watched collection docId path) : Traced e collection docId path
  | previous : Traced e collection docId (e.previous collection docId)

variable (hc : e.cfg.Configured coll) (hid : DocumentId docId)
  (hc' : e.cfg.Configured coll') (hid' : DocumentId docId')
include hc hid hc' hid'

theorem Engine.previous_inj (h : e.previous coll docId = e.previous coll' docId') :
    coll = coll' ∧ docId = docId' := by
  rw [e.previous_eq hc hid, e.previous_eq hc' hid'] at h
  simpa using h

theorem Engine.previous_apart (hne : (coll', docId') ≠ (coll, docId)) :
    Apart e coll docId (e.previous coll' docId') := by
  have hplain := e.cfg.plainNames _ hc
  refine ⟨?_, ?_, ?_, ?_, ?_, fun change => ?_⟩
  · exact e.previous_not_live hc' hid' ⟨_, _, hc, hid, rfl⟩
  · intro heq
    obtain ⟨rfl, rfl⟩ := e.previous_inj hc' hid' hc hid heq
    exact hne rfl
  · rw [e.previous_eq hc' hid', filesManifestPath_eq hplain hid]
    intro heq
    simp only [List.append_cancel_left_eq, List.cons.injEq, and_true] at heq
    exact live_name_ne_manifest_name ("." ++ docId') docId heq.2
  · rw [e.previous_eq hc' hid', lfsDir_eq hplain hid]
    simp
  · rw [e.previous_eq hc' hid', fileOpsDir_eq hplain hid]
    simp
  · rw [e.previous_eq hc' hid', queuePath_eq hplain hid]
    simp

theorem Engine.Traced.apart (h : e.Traced coll' docId' path)
    (hne : (coll', docId') ≠ (coll, docId)) : Apart e coll docId path := by
  cases h with
  | watched h => exact h.apart hc hid hc' hid' hne
  | previous => exact e.previous_apart hc hid hc' hid' hne

omit hid in
theorem Engine.Traced.not_bucket (h : e.Traced coll' docId' path) : ¬ BucketPath e coll path := by
  rintro ⟨b, hb⟩
  have hplain := e.cfg.plainNames _ hc'
  rw [Bucket.path_eq hc] at hb
  cases h with
  | previous =>
    rw [e.previous_eq hc' hid'] at hb
    simp at hb
  | watched h =>
    cases h with
    | live =>
      rw [e.live_eq hc' hid'] at hb
      simp at hb
    | queue change =>
      rw [queuePath_eq hplain hid'] at hb
      simp at hb
    | taken change =>
      rw [takenQueuePath_eq hplain hid'] at hb
      simp at hb

omit hid hid' in
theorem not_bucketPath_of_ne (hne : coll' ≠ coll) {b : Bucket} :
    ¬ BucketPath e coll (b.path e coll') := by
  rintro ⟨b', hb'⟩
  exact hne (Bucket.path_inj hc' hc hb').1
end

def File.fields? : File → Option JsonFields
  | .json (.obj fields) => some fields
  | _ => none

@[simp] theorem File.fields?_ofFields (fields : JsonFields) :
    (File.ofFields fields).fields? = some fields := rfl

theorem File.eq_ofFields {f : File} {fields : JsonFields} (h : f.fields? = some fields) :
    f = File.ofFields fields := by
  cases f with
  | bytes data => cases h
  | json v =>
    cases v with
    | obj fields' =>
      cases h
      rfl
    | _ => cases h

section
variable {fl : Floats}
def InVersion (searches : Searches fl) (collection : String) (file : Option File) (b : Bucket) :
    Prop :=
  ∃ f, file = some f ∧ Belongs (searches.of collection) f.fields? b

variable {b : Bucket}
theorem not_belongs_none {defs : List (String × Definition fl.F)} : ¬ Belongs defs none b := by
  rintro ⟨d, -, hsegs⟩
  cases hsegs

theorem inVersion_map {searches : Searches fl} {coll : String} {doc : Option JsonFields} :
    InVersion searches coll (doc.map File.ofFields) b ↔ Belongs (searches.of coll) doc b := by
  cases doc with
  | none => exact iff_of_false (by rintro ⟨f, hf, -⟩; cases hf) not_belongs_none
  | some fields => simp [InVersion]

theorem outdated_iff {searches : Searches fl} {coll : String}
    {prevDoc currentDoc : Option JsonFields} :
    Outdated (searches.of coll) prevDoc currentDoc b ↔
      Belongs (searches.of coll) prevDoc b ∧ ¬ Belongs (searches.of coll) currentDoc b := by
  constructor
  · rintro ⟨d, hd, hprev, hcurrent⟩
    refine ⟨⟨d, hd, hprev⟩, ?_⟩
    rintro ⟨d', hd', hcurrent'⟩
    have heq := List.inj_on_of_nodup_map (searches.distinct coll) hd hd' rfl
    cases heq
    exact hcurrent hcurrent'
  · rintro ⟨⟨d, hd, hprev⟩, hcurrent⟩
    exact ⟨d, hd, hprev, fun h => hcurrent ⟨d, hd, h⟩⟩

structure SearchDone {ν : Type} (searches : Searches fl) (e : Engine) (collection docId : String)
    (s t : World ν) : Prop where
  places : ∀ b : Bucket, e.HoldsBucket b.segments → (docId ∈ t.bucketIds e collection b ↔
      InVersion searches collection (s.files (e.live collection docId)) b ∨
        docId ∈ s.bucketIds e collection b ∧
          ¬ InVersion searches collection (s.files (e.previous collection docId)) b)
  evaluated : ∀ f, s.files (e.live collection docId) = some f →
    ∃ doc, f = File.ofFields doc ∧ Evaluates (searches.of collection) (some doc)
  loadable : StaysLoadable fl e collection s t

structure Processed {ν : Type} (searches : Searches fl) (e : Engine) (collection docId : String)
    (s : World ν) (res : Except FsError Bool) (t : World ν) : Prop where
  live : t.files (e.live collection docId) = s.files (e.live collection docId)
  previous : t.files (e.previous collection docId) = s.files (e.previous collection docId)
  edited : Edited e collection docId (fun _ => True)
    (InVersion searches collection (s.files (e.live collection docId))) s t
  finished : ∀ complete, res = .ok complete → SearchDone searches e collection docId s t

def Engine.Processing (e : Engine) (collection docId : String) (path : Path) : Prop :=
  path = e.live collection docId ∨ path = e.previous collection docId ∨ BucketPath e collection path

section
variable {ν : Type} {host : Host ν} {faults : Faults} {may : Op → World ν → Prop}
  {rely : World ν → World ν → Prop} {e : Engine} {remote : Option (RemoteApplier fl)}
  {searches : Searches fl} {coll docId : String} {w s t : World ν}
theorem Processed.same {res : Except FsError Bool} (h : Processed searches e coll docId w res s)
    (hst : ∀ p, e.Processing coll docId p → t.files p = s.files p) :
    Processed searches e coll docId w res t := by
  have hbuckets : ∀ p, BucketPath e coll p → t.files p = s.files p :=
    fun p hp => hst p (.inr (.inr hp))
  refine ⟨(hst _ (.inl rfl)).trans h.live, (hst _ (.inr (.inl rfl))).trans h.previous,
    h.edited.same hbuckets, fun complete hok => ?_⟩
  have hdone := h.finished complete hok
  refine ⟨fun b hb => ?_, hdone.evaluated, hdone.loadable.same hbuckets⟩
  rw [bucketIds_same hbuckets]
  exact hdone.places b hb

theorem Processed.stopped
    (hst : ∀ p, e.Processing coll docId p → t.files p = s.files p) (err : FsError) :
    Processed searches e coll docId s (.error err) t :=
  have hrefl : Processed searches e coll docId s (.error err) s :=
    ⟨rfl, rfl, .refl s, fun _ hok => (by cases hok)⟩
  hrefl.same hst

theorem once_readOptionalDoc (site : Site) (path : Path) : Once (readOptionalDoc site path) := by
  refine ⟨⟨site, .readFile path⟩, _, rfl, fun answer => ?_⟩
  cases answer with
  | error err => exact ⟨_, rfl⟩
  | ok file =>
    cases file with
    | bytes data => exact ⟨_, rfl⟩
    | json v => cases v <;> exact ⟨_, rfl⟩

theorem among_readOptionalDoc {keep : Path → Prop} (hleaves : Leaves keep rely) {path : Path}
    (hpath : keep path) (hw : ∀ p, keep p → s.files p = w.files p) (site : Site) :
    Among (exec host faults) may rely (fun _ _ => True)
      (fun res t => (∀ p, keep p → t.files p = w.files p) ∧
        ∀ doc, res = .ok doc → w.files path = doc.map File.ofFields)
      (readOptionalDoc site path) s := by
  refine .once (once_readOptionalDoc site path) (fun _ _ => trivial) fun t u ht hu => ?_
  rw [run_readOptionalDoc] at hu ⊢
  have hsame : ∀ p, keep p → t.files p = w.files p :=
    fun p hp => (hleaves _ _ ht p hp).trans (hw p hp)
  refine ⟨fun p hp => (hleaves _ _ hu p hp).trans (hsame p hp), fun doc hdoc => ?_⟩
  rw [← hsame path hpath]
  exact files_of_readOptional hdoc

theorem only_distributeCache_avoids (keep : Path → Prop) (change : Command)
    (current prev : Option JsonFields) :
    (distributeCache e coll docId change current prev).Only
      fun op => ∀ p, keep p → op.call.Avoids p := by
  unfold distributeCache
  split
  · trivial
  · refine .bindOk (only_perform fun _ _ => trivial) (fun _ => trivial) fun operationId => ?_
    dsimp only
    split
    · trivial
    · exact only_perform fun _ _ => trivial

theorem spread_processed {current prev : Option JsonFields} {res : Except FsError Unit} {u : World ν}
    (hsame : ∀ p, BucketPath e coll p → t.files p = s.files p)
    (hcurrent : s.files (e.live coll docId) = current.map File.ofFields)
    (hprevious : s.files (e.previous coll docId) = prev.map File.ofFields)
    (h : Spread fl e coll docId (searches.of coll) prev current t res u)
    (hlive : u.files (e.live coll docId) = s.files (e.live coll docId))
    (hprev : u.files (e.previous coll docId) = s.files (e.previous coll docId))
    (complete : Bool) :
    Processed searches e coll docId s (res.map fun _ => complete) u := by
  have hids : ∀ b, t.bucketIds e coll b = s.bucketIds e coll b := bucketIds_same hsame
  have hedited : Edited e coll docId (fun _ => True)
      (InVersion searches coll (s.files (e.live coll docId))) s u := by
    refine ⟨fun b x hx => ?_, fun _ _ _ => trivial, fun b hs hu => ?_, fun hs => ?_⟩
    · rw [← hids b]
      exact h.edited.others b x hx
    · rw [← hids b] at hs
      rw [hcurrent, inVersion_map]
      exact h.edited.gained b hs hu
    · exact h.edited.distinct fun b => by rw [hids b]; exact hs b
  refine ⟨hlive, hprev, hedited, fun complete' hok => ?_⟩
  cases res with
  | error err => cases hok
  | ok v =>
    refine ⟨fun b hb => ?_, fun f hf => ?_, fun b hb => ?_⟩
    · rw [h.mem_iff hb, hids b, outdated_iff, hcurrent, hprevious, inVersion_map, inVersion_map]
      tauto
    · rw [hcurrent] at hf
      cases current with
      | none => cases hf
      | some doc =>
        cases hf
        exact ⟨doc, rfl, (h.evaluated rfl).2⟩
    · rw [← hsame _ ⟨b, rfl⟩] at hb
      exact h.loadable rfl b hb

theorem among_processWith (hc : e.cfg.Configured coll) (hrefl : ∀ s, rely s s)
    (hleaves : Leaves (e.Processing coll docId) rely) (hfl : fl.Printed) (order : MapOrder)
    (change : Command) (hid : DocumentId docId)
    (hdistinct : ∀ b, (s.bucketIds e coll b).Nodup) :
    Among (exec host faults) may rely (fun _ _ => True)
      (fun res t => Processed searches e coll docId s res t)
      (processWith (distributeSearch searches e remote order) e change coll docId) s := by
  have hbuckets : Leaves (BucketPath e coll) rely :=
    fun s t hst p hp => hleaves s t hst p (.inr (.inr hp))
  have hstop : ∀ {t u : World ν}, (∀ p, e.Processing coll docId p → t.files p = s.files p) →
      rely t u → ∀ err : FsError, Processed searches e coll docId s (.error err) u :=
    fun ht hu err => .stopped (fun p hp => (hleaves _ _ hu p hp).trans (ht p hp)) err
  refine .bind hrefl (among_readOptionalDoc hleaves (.inl rfl) (fun _ _ => rfl) _)
    fun res t ht => ?_
  obtain ⟨ht, hcurrent⟩ := ht
  cases res with
  | error err => exact fun u hu => hstop ht hu _
  | ok current =>
    refine .bind hrefl (among_readOptionalDoc hleaves (.inr (.inl rfl)) ht _) fun res t ht => ?_
    obtain ⟨ht, hprevious⟩ := ht
    cases res with
    | error err => exact fun u hu => hstop ht hu _
    | ok prev =>
      have hcache : Among (exec host faults) may rely (fun _ _ => True)
          (fun _ t => ∀ p, e.Processing coll docId p → t.files p = s.files p)
          (distributeCache e coll docId change current prev) t :=
        among_unchanged hleaves (fun _ _ h hst p hp => (hst p hp).trans (h p hp))
          (only_distributeCache_avoids _ _ _ _) ht
      refine .bind hrefl hcache fun res t ht => ?_
      cases res with
      | error err => exact fun u hu => hstop ht hu _
      | ok complete =>
        have hdocs : ∀ path, path = e.live coll docId ∨ path = e.previous coll docId →
            ¬ BucketPath e coll path := by
          rintro path (rfl | rfl)
          · exact Engine.Traced.not_bucket hc hc hid (.watched .live)
          · exact Engine.Traced.not_bucket hc hc hid .previous
        have hquiet : Among (exec host faults) may rely (fun _ _ => True)
            (fun _ u => ∀ path, path = e.live coll docId ∨
              path = e.previous coll docId → u.files path = s.files path)
            (distributeSearch searches e remote order coll docId prev current) t :=
          among_unchanged (fun s t hst path hpath => hleaves s t hst path (hpath.imp_right .inl))
            (fun _ _ h hst path hpath => (hst path hpath).trans (h path hpath))
            ((only_distributeSearch searches hfl order).mono fun _ hop path hpath =>
              hop path (hdocs path hpath))
            fun path hpath => ht path (hpath.imp_right .inl)
        have hsame : ∀ p, BucketPath e coll p → t.files p = s.files p :=
          fun p hp => ht p (.inr (.inr hp))
        have hspread : Among (exec host faults) may rely (fun _ _ => True)
            (fun res u => Spread fl e coll docId (searches.of coll) prev current t res u)
            (distributeSearch searches e remote order coll docId prev current) t :=
          among_distributeSearch searches hc hrefl hbuckets hfl order
            fun b => by rw [bucketIds_same hsame]; exact hdistinct b
        refine .bind hrefl (hspread.and hquiet) fun res u hu => ?_
        obtain ⟨hu, hfiles⟩ := hu
        have hdone := spread_processed hsame (hcurrent _ rfl) (hprevious _ rfl) hu
          (hfiles _ (.inl rfl)) (hfiles _ (.inr rfl)) complete
        cases res with
        | error err =>
          have hstopped : Processed searches e coll docId s
              (.error (.other ("search distribution: " ++ err.message))) u :=
            ⟨hdone.live, hdone.previous, hdone.edited, fun _ hok => (by cases hok)⟩
          exact fun v hv => hstopped.same (hleaves _ _ hv)
        | ok v => exact fun v hv => hdone.same (hleaves _ _ hv)
end

structure Ran {ν : Type} (searches : Searches fl) (e : Engine) (collection docId : String)
    (w : World ν) (res : Except FsError Bool) (t : World ν) : Prop where
  live : t.files (e.live collection docId) = w.files (e.live collection docId)
  edited : Edited e collection docId (fun _ => True)
    (InVersion searches collection (w.files (e.live collection docId))) w t
  ended : (t.files (e.previous collection docId) = none ∧
      SearchDone searches e collection docId w t) ∨
    t.files (e.previous collection docId) = w.files (e.previous collection docId) ∧
      ∃ err, res = .error err

section
variable {ν : Type} {host : Host ν} {faults : Faults} {e : Engine}
  {remote : Option (RemoteApplier fl)} {searches : Searches fl} {coll docId : String}
  {w t : World ν}
variable (hc : e.cfg.Configured coll) (hid : DocumentId docId)
include hc hid

variable {res : Except FsError Bool}
theorem ran_runClaimedWith (hfl : fl.Printed) (order : MapOrder) (change : Command)
    (hdistinct : ∀ b, (w.bucketIds e coll b).Nodup) {v : World ν}
    (h : (runClaimedWith (distributeSearch searches e remote order) e change coll docId).run
      (exec host faults) w = (res, v)) : Ran searches e coll docId w res v := by
  have hleaves : Leaves (e.Processing coll docId) (Eq : World ν → World ν → Prop) :=
    fun s t hst p _ => by rw [hst]
  have hamong : Among (exec host faults) (fun _ _ => True) Eq (fun _ _ => True)
      (fun res t => Processed searches e coll docId w res t)
      (processWith (distributeSearch searches e remote order) e change coll docId) w :=
    among_processWith hc (fun _ => rfl) hleaves hfl order change hid hdistinct
  have hprocessed := hamong.run (fun _ => rfl) (fun _ _ => trivial)
  rcases hrun : (processWith (distributeSearch searches e remote order) e change coll
    docId).run (exec host faults) w with ⟨processed, t⟩
  rw [hrun] at hprocessed
  simp only [runClaimedWith, bind_eq, run_bind, hrun] at h
  cases processed with
  | error err =>
    cases h
    exact ⟨hprocessed.live, hprocessed.edited, .inr ⟨hprocessed.previous, _, rfl⟩⟩
  | ok complete =>
    simp only [run_bind] at h
    have hfinished := hprocessed.finished complete rfl
    rcases @run_removeIfPresent ν host faults t .dropPrevious (e.previous coll docId) with
      hprev | hprev
    · rw [hprev] at h
      cases h
      exact ⟨hprocessed.live, hprocessed.edited, .inr ⟨hprocessed.previous, _, rfl⟩⟩
    · rw [hprev] at h
      -- from here on only the previous version and the claim are dropped
      have hkeep : ∀ path, path ≠ e.previous coll docId →
          path ≠ takenQueuePath e.dataDir change coll docId → ∀ u : World ν,
          (u = t.put (e.previous coll docId) none ∨ u = (t.put (e.previous coll docId)
            none).put (takenQueuePath e.dataDir change coll docId) none) →
          u.files path = t.files path := by
        rintro path hp ht u (rfl | rfl)
        · exact put_files_other _ hp _
        · rw [put_files_other _ ht, put_files_other _ hp]
      have hlive := e.previous_not_live hc hid ⟨_, _, hc, hid, rfl⟩
      have htaken := e.takenQueuePath_not_live hc hid ⟨_, _, hc, hid, rfl⟩ change
      have hgone : ∀ u : World ν, (u = t.put (e.previous coll docId) none ∨
          u = (t.put (e.previous coll docId) none).put
            (takenQueuePath e.dataDir change coll docId) none) → ∀ res : Except FsError Bool,
          Ran searches e coll docId w res u := by
        intro u hu res
        have hbuckets : ∀ p, BucketPath e coll p → u.files p = t.files p := by
          intro p hp
          refine hkeep p ?_ ?_ u hu
          · rintro rfl
            exact Engine.Traced.not_bucket hc hc hid .previous hp
          · rintro rfl
            exact Engine.Traced.not_bucket hc hc hid (.watched (.taken change)) hp
        refine ⟨(hkeep _ hlive.symm htaken.symm u hu).trans hprocessed.live,
          hprocessed.edited.same hbuckets, .inl ⟨?_, fun b hb => ?_, hfinished.evaluated,
            hfinished.loadable.same hbuckets⟩⟩
        · rcases hu with rfl | rfl
          · exact put_files_same _ _ _
          · by_cases heq : e.previous coll docId = takenQueuePath e.dataDir change coll docId
            · rw [heq]
              exact put_files_same _ _ _
            · rw [put_files_other _ heq]
              exact put_files_same _ _ _
        · rw [bucketIds_same hbuckets]
          exact hfinished.places b hb
      rcases @run_removeIfPresent ν host faults (t.put (e.previous coll docId) none)
        .dropTaken (takenQueuePath e.dataDir change coll docId) with hdrop | hdrop
      · simp only [run_bind, hdrop] at h
        cases h
        exact hgone _ (.inl rfl) _
      · simp only [run_bind, hdrop] at h
        cases h
        exact hgone _ (.inr rfl) _

omit hc hid in
theorem only_processWith_onBuckets (hfl : fl.Printed) (order : MapOrder) (change : Command) :
    (processWith (distributeSearch searches e remote order) e change coll docId).Only
      (OnBuckets e coll) := by
  refine .bindOk (only_readOptionalDoc fun _ _ => trivial) (fun _ => trivial) fun current => ?_
  refine .bindOk (only_readOptionalDoc fun _ _ => trivial) (fun _ => trivial) fun prev => ?_
  refine .bindOk (only_distributeCache_avoids _ _ _ _) (fun _ => trivial) fun complete => ?_
  refine .bind (only_distributeSearch searches hfl order) fun r => ?_
  cases r <;> trivial

theorem taken_of_error (hfl : fl.Printed) (order : MapOrder) (change : Command) {err : FsError}
    (h : (runClaimedWith (distributeSearch searches e remote order) e change coll docId).run
      (exec host faults) w = (.error err, t)) :
    t.files (takenQueuePath e.dataDir change coll docId) =
      w.files (takenQueuePath e.dataDir change coll docId) := by
  have hbucket : ¬ BucketPath e coll (takenQueuePath e.dataDir change coll docId) :=
    Engine.Traced.not_bucket hc hc hid (.watched (.taken change))
  have hquiet : ((processWith (distributeSearch searches e remote order) e change coll
      docId).run (exec host faults) w).2.files (takenQueuePath e.dataDir change coll docId) =
      w.files (takenQueuePath e.dataDir change coll docId) := by
    have hkeeps : Keeps (takenQueuePath e.dataDir change coll docId)
        (processWith (distributeSearch searches e remote order) e change coll docId) :=
      (only_processWith_onBuckets hfl order change).mono fun _ hop => hop _ hbucket
    exact hkeeps.run
  rcases hrun : (processWith (distributeSearch searches e remote order) e change coll
    docId).run (exec host faults) w with ⟨res, u⟩
  rw [hrun] at hquiet
  simp only [runClaimedWith, bind_eq, run_bind, hrun] at h
  cases res with
  | error err' =>
    cases h
    exact hquiet
  | ok complete =>
    simp only [run_bind] at h
    rcases @run_removeIfPresent ν host faults u .dropPrevious (e.previous coll docId) with
      hprev | hprev
    · rw [hprev] at h
      cases h
      exact hquiet
    · rw [hprev] at h
      have hne : takenQueuePath e.dataDir change coll docId ≠ e.previous coll docId := by
        have hwatched : e.Watched coll docId
          (takenQueuePath e.dataDir change coll docId) := .taken change
        exact (hwatched.ne_previous hc hid hc hid).symm
      rcases @run_removeIfPresent ν host faults (u.put (e.previous coll docId) none)
        .dropTaken (takenQueuePath e.dataDir change coll docId) with hdrop | hdrop
      · simp only [run_bind, hdrop] at h
        cases h
        exact (put_files_other _ hne _).trans hquiet
      · simp only [run_bind, hdrop] at h
        cases h

theorem claimed_files (change : Command) {path : Path} (hpath : e.Processing coll docId path) :
    (w.claimed e coll docId change).files path = w.files path := by
  have hqueue : e.Watched coll docId (queuePath e.dataDir change coll docId) :=
    .queue change
  have htaken : e.Watched coll docId (takenQueuePath e.dataDir change coll docId) :=
    .taken change
  refine move_files_other w ?_ ?_
  · rcases hpath with rfl | rfl | hbucket
    · exact (e.queuePath_not_live hc hid ⟨_, _, hc, hid, rfl⟩ change).symm
    · exact hqueue.ne_previous hc hid hc hid
    · rintro rfl
      exact Engine.Traced.not_bucket hc hc hid (.watched hqueue) hbucket
  · rcases hpath with rfl | rfl | hbucket
    · exact (e.takenQueuePath_not_live hc hid ⟨_, _, hc, hid, rfl⟩ change).symm
    · exact htaken.ne_previous hc hid hc hid
    · rintro rfl
      exact Engine.Traced.not_bucket hc hc hid (.watched htaken) hbucket

omit hc hid in
theorem Ran.before {w' : World ν} (h : Ran searches e coll docId w res t)
    (hsame : ∀ p, e.Processing coll docId p → w'.files p = w.files p) :
    Ran searches e coll docId w' res t := by
  have hbuckets : ∀ p, BucketPath e coll p → w'.files p = w.files p :=
    fun p hp => hsame p (.inr (.inr hp))
  have hlive := hsame _ (.inl rfl)
  have hprevious := hsame _ (.inr (.inl rfl))
  refine ⟨h.live.trans hlive.symm, ?_, ?_⟩
  · rw [hlive]
    exact h.edited.before hbuckets
  · rw [hprevious]
    refine h.ended.imp_left fun ⟨hgone, hdone⟩ => ⟨hgone, fun b hb => ?_, ?_, fun b hb => ?_⟩
    · rw [hlive, hprevious, bucketIds_same hbuckets]
      exact hdone.places b hb
    · rw [hlive]
      exact hdone.evaluated
    · rw [hbuckets _ ⟨b, rfl⟩] at hb
      exact hdone.loadable b hb

theorem ran_runEntryResultWith (hfl : fl.Printed) (order : MapOrder) (change : Command)
    {state : EntryState} (hpresent : w.Present e coll docId change state)
    (hdistinct : ∀ b, (w.bucketIds e coll b).Nodup)
    (h : (runEntryResultWith (distributeSearch searches e remote order) e change coll docId
      state).run (exec host faults) w = (res, t)) :
    Ran searches e coll docId w res t ∧ ∀ err, res = .error err → t.Queued e coll docId change := by
  -- after the claim the entry is there under its second name
  have hclaimed : ∀ {v : World ν}, v.files (takenQueuePath e.dataDir change coll docId) ≠ none →
      (∀ b, (v.bucketIds e coll b).Nodup) →
      (runClaimedWith (distributeSearch searches e remote order) e change coll docId).run
        (exec host faults) v = (res, t) →
      Ran searches e coll docId v res t ∧
        ∀ err, res = .error err → t.Queued e coll docId change := by
    intro v hv hnodup hrun
    refine ⟨ran_runClaimedWith hc hid hfl order change hnodup hrun, ?_⟩
    rintro err rfl
    refine .inr ?_
    rw [taken_of_error hc hid hfl order change hrun]
    exact hv
  cases state with
  | taken => exact hclaimed hpresent hdistinct h
  | queue =>
    simp only [runEntryResultWith, bind_eq, run_bind, run_rename] at h
    obtain ⟨file, hfile⟩ := Option.ne_none_iff_exists'.mp hpresent
    cases hf : faults .claim with
    | true =>
      simp only [hf, FsError.isNotExist] at h
      cases h
      exact ⟨⟨rfl, .refl _, .inr ⟨rfl, _, rfl⟩⟩, fun _ _ => .inl hpresent⟩
    | false =>
      simp only [hf, hfile] at h
      have htaken : (w.claimed e coll docId change).files
          (takenQueuePath e.dataDir change coll docId) ≠ none := by
        rw [claimed, move, put_files_same, hfile]
        exact Option.some_ne_none _
      have hnodup : ∀ b, ((w.claimed e coll docId change).bucketIds e coll b).Nodup := by
        intro b
        rw [bucketIds_same fun p hp => claimed_files hc hid change (.inr (.inr hp))]
        exact hdistinct b
      obtain ⟨hran, hqueued⟩ := hclaimed htaken hnodup h
      exact ⟨hran.before fun p hp => (claimed_files hc hid change hp).symm, hqueued⟩

omit hc hid in
theorem keeps_runEntryResultWith (hfl : fl.Printed) (order : MapOrder) (change : Command)
    (state : EntryState) {path : Path} (hpath : Apart e coll docId path)
    (htaken : path ≠ takenQueuePath e.dataDir change coll docId)
    (hbucket : ¬ BucketPath e coll path) :
    Keeps path (runEntryResultWith (distributeSearch searches e remote order) e change coll
      docId state) := by
  have hprocesses : Processes (fun op => op.call.Avoids path) e change coll docId := {
    passive := (permits_avoids _ id .delivering).observes
    fanOut := fun _ _ => trivial
    index := fun _ _ => trivial
    claim := ⟨(hpath.queue change).symm, htaken.symm⟩
    dropPrevious := hpath.previous.symm
    dropTaken := htaken.symm }
  exact only_runEntryResultWith hprocesses (fun _ _ =>
    (only_distributeSearch searches hfl order).mono fun _ hop => hop path hbucket) state
end
end
end Datorium
