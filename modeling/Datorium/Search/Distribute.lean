
import Datorium.Engine.Commits
import Datorium.Engine.ShardMap
import Datorium.Search.Evaluate
import Datorium.Search.Store
namespace Datorium
open Framework List
def shardInput (segments : List String) : String := "/".intercalate segments

def rawSlot (input : String) : UInt8 :=
  (checksumIEEE input.toUTF8.data.toList &&& 0xFF).toUInt8

def Config.sotForSlot (cfg : Config) (slot : UInt8) : String :=
  let (assignment, ok) := cfg.slotAssignment slot
  if ok then assignment.shardSOTMember else ""

def searchShardTargets (owner : String) (assignment : ShardAssignment) : List String :=
  ((owner :: assignment.shardReadMember ++ assignment.proxyReadMember).filter (· ≠ "")).eraseDups

structure RemoteApplier (fl : Floats) where
  send : (target collection searchName : String) → List String → BucketRun fl →
    Prog (Except FsError Unit)
  leavesFiles : ∀ target collection searchName segments run,
    (send target collection searchName segments run).Only fun op => ∀ path, op.call.Avoids path

section
variable {fl : Floats}
def BucketRun.opText : BucketRun fl → String
  | .remove _ => "remove"
  | _ => "upsert"

/-- The pushes of `deliver` to the other targets; the first error is the one returned. -/
def pushMutation (remote : RemoteApplier fl) (collection searchName : String)
    (segments : List String) (run : BucketRun fl) :
    List String → Option FsError → Prog (Except FsError Unit)
  | [], none => pure (.ok ())
  | [], some err => pure (.error err)
  | target :: targets, firstErr => do
      match ← remote.send target collection searchName segments run with
      | .ok () => pushMutation remote collection searchName segments run targets firstErr
      | .error err =>
        pushMutation remote collection searchName segments run targets
          (firstErr.or (some (.other ("replicate search " ++ run.opText ++ " to \"" ++ target ++
            "\": " ++ err.message))))

def deliveryNotConfigured (slot : UInt8) (collection searchName text target : String) :
    Except FsError Unit :=
  .error (.other ("search shard " ++ String.ofList (hexByte slot) ++ " for " ++ collection ++ "." ++
    searchName ++ text ++ "\"" ++ target ++
    "\"; cross-server search delivery is not configured on this agent"))

/-- The part of `deliver` for the targets that are other servers. -/
def deliverRemote (remote : Option (RemoteApplier fl)) (collection searchName : String)
    (segments : List String) (run : BucketRun fl) : List String → Prog (Except FsError Unit)
  | [] => pure (.ok ())
  | target :: targets =>
    match remote with
    | none =>
      pure (deliveryNotConfigured (rawSlot (shardInput segments)) collection searchName
        " requires remote delivery to " target)
    | some remote =>
      pushMutation remote collection searchName segments run (target :: targets) none

def deliverMutation (e : Engine) (remote : Option (RemoteApplier fl))
    (collection searchName : String) (segments : List String) (run : BucketRun fl)
    (localApply : Prog (Except FsError Unit)) : Prog (Except FsError Unit) :=
  let slot := rawSlot (shardInput segments)
  let owner := e.cfg.sotForSlot slot
  let (assignment, ok) := e.cfg.slotAssignment slot
  if !ok then
    if owner = "" ∨ owner = e.serverName then localApply
    else
      match remote with
      | none =>
        pure (deliveryNotConfigured slot collection searchName " is owned by remote server " owner)
      | some remote => remote.send owner collection searchName segments run
  else
    let targets := searchShardTargets owner assignment
    let others := deliverRemote remote collection searchName segments run
      (targets.filter (· ≠ e.serverName))
    if e.serverName ∈ targets then do
      match ← localApply with
      | .error err => pure (.error err)
      | .ok () => others
    else others

def Engine.HoldsBucket (e : Engine) (segments : List String) : Prop :=
  if (e.cfg.slotAssignment (rawSlot (shardInput segments))).2 then
    e.serverName ∈ searchShardTargets (e.cfg.sotForSlot (rawSlot (shardInput segments)))
      (e.cfg.slotAssignment (rawSlot (shardInput segments))).1
  else
    e.cfg.sotForSlot (rawSlot (shardInput segments)) = "" ∨
      e.cfg.sotForSlot (rawSlot (shardInput segments)) = e.serverName

structure Engine.HoldsEveryRole (e : Engine) : Prop where
  named : e.serverName ≠ ""
  assigned : ∀ slot, (e.cfg.slotAssignment slot).2 = true
  source : ∀ slot, (e.cfg.slotAssignment slot).1.shardSOTMember = e.serverName
end

structure MapOrder where
  arrange : {α : Type} → List α → List α
  perm : ∀ {α : Type} (entries : List α), (arrange entries).Perm entries

section
variable (fl : Floats)
structure Searches where
  definitions : Fields String (Fields String (Definition fl.F))
  distinct : ∀ coll, (((Fields.get? coll definitions).getD []).map Prod.fst).Nodup
  plainNames : ∀ coll, ∀ entry ∈ (Fields.get? coll definitions).getD [], PlainName entry.1

/-- The body of the loop of `bucketIndex`. -/
def indexBucket (out : Fields String (EvalResult fl)) (b : EvalResult fl) :
    Fields String (EvalResult fl) :=
  if b.isMatch then Fields.set (shardInput b.segments) b out else out

def bucketIndex (buckets : List (EvalResult fl)) : Fields String (EvalResult fl) :=
  buckets.foldl (indexBucket fl) []

variable {fl}
/-- `ApplyMutation` as the appliers call it. -/
def applyRun (path : Path) (run : BucketRun fl) : Prog (Except FsError Unit) := do
  match ← applyMutation fl path run.mutate with
  | .error err => pure (.error err)
  | .ok _ => pure (.ok ())

def routedRun (e : Engine) (remote : Option (RemoteApplier fl)) (collection searchName : String)
    (segments : List String) (run : BucketRun fl) : Prog (Except FsError Unit) :=
  deliverMutation e remote collection searchName segments run
    (applyRun (searchResultPath e.dataDir collection searchName segments) run)

def eachBucket (what : String) (act : EvalResult fl → Prog (Except FsError Unit)) :
    List (EvalResult fl) → Prog (Except FsError Unit)
  | [] => pure (.ok ())
  | b :: bs => do
      match ← act b with
      | .error err => pure (.error (.other (what ++ err.message)))
      | .ok () => eachBucket what act bs

/-- The body of the definition loop of `distributeSearch`. -/
def distributeDefinition (e : Engine) (remote : Option (RemoteApplier fl)) (order : MapOrder)
    (collection id : String) (prevDoc currentDoc : Option JsonFields) (name : String)
    (d : Definition fl.F) : Prog (Except FsError Unit) :=
  match evaluateDocument fl d prevDoc with
  | .error message =>
    pure (.error (.other ("evaluate previous document against " ++ name ++ ": " ++ message)))
  | .ok oldBuckets =>
    match evaluateDocument fl d currentDoc with
    | .error message =>
      pure (.error (.other ("evaluate current document against " ++ name ++ ": " ++ message)))
    | .ok newBuckets => do
        let oldByKey := bucketIndex fl oldBuckets
        let newByKey := bucketIndex fl newBuckets
        let gone := (order.arrange oldByKey).filter fun entry =>
          (Fields.get? entry.1 newByKey).isNone
        match ← eachBucket ("remove from old " ++ name ++ " bucket: ")
            (fun b => routedRun e remote collection name b.segments (.remove id))
            (gone.map Prod.snd) with
        | .error err => pure (.error err)
        | .ok () =>
          match currentDoc with
          | none => pure (.ok ())
          | some doc =>
            eachBucket ("upsert into " ++ name ++ " bucket: ")
              (fun b => routedRun e remote collection name b.segments
                (.localUpsert ⟨collection, name, b.key, d.sort⟩ id
                  (computeSortValues fl d.sort doc)))
              ((order.arrange newByKey).map Prod.snd)

/-- The definition loop of `distributeSearch`. -/
def distributeDefinitions (e : Engine) (remote : Option (RemoteApplier fl)) (order : MapOrder)
    (collection id : String) (prevDoc currentDoc : Option JsonFields) :
    List (String × Definition fl.F) → Prog (Except FsError Unit)
  | [] => pure (.ok ())
  | (name, d) :: defs => do
      match ← distributeDefinition e remote order collection id prevDoc currentDoc name d with
      | .error err => pure (.error err)
      | .ok () => distributeDefinitions e remote order collection id prevDoc currentDoc defs

def distributeSearch (searches : Searches fl) (e : Engine) (remote : Option (RemoteApplier fl))
    (order : MapOrder) : Distribution :=
  fun coll id prevDoc currentDoc =>
    distributeDefinitions e remote order coll id prevDoc currentDoc
      (order.arrange ((Fields.get? coll searches.definitions).getD []))

inductive SearchAnswer where
  | fail (code message : String)
  | wrongMachine
  | matched (ids : List String)
  deriving DecidableEq, Repr

def servesSearch (e : Engine) (slot : UInt8) : Bool :=
  let assignment := e.cfg.assignmentForSlot slot
  e.serverName == "" || assignment.shardSOTMember == e.serverName ||
    assignment.shardReadMember.contains e.serverName ||
      assignment.proxyReadMember.contains e.serverName

def search (searches : Searches fl) (e : Engine) (collection searchName : String)
    (detail : JsonFields) : Prog SearchAnswer :=
  match Fields.get? collection searches.definitions with
  | none => pure (.fail "collectionNotFound" "collection does not exist")
  | some defs =>
    match Fields.get? searchName defs with
    | none => pure (.fail "searchNotFound" "search definition does not exist")
    | some d =>
      match resolveQueryPath fl d detail with
      | .error message => pure (.fail "invalidRequest" message)
      | .ok segments => do
          if !servesSearch e (rawSlot (shardInput segments)) then pure .wrongMachine
          else
            match ← loadResultFile fl .readLive
                (searchResultPath e.dataDir collection searchName segments) with
            | .error err => pure (.fail "filesystemError" err.message)
            | .ok (rf, _) => pure (.matched (rf.items.map BucketItem.id))
end

theorem foldl_join_plain (base : Path) {names : List String} (h : ∀ name ∈ names, PlainName name) :
    names.foldl Path.join base = base ++ names := by
  induction names generalizing base with
  | nil => simp
  | cons name names ih =>
    rw [foldl_cons, Path.join_plain (h name mem_cons_self),
      ih _ fun other hother => h other (mem_cons_of_mem _ hother), append_assoc]
    rfl

theorem searchResultPath_eq {dataDir : Path} {coll searchName : String}
    {segments : List String} (hc : PlainName coll) (hn : PlainName searchName)
    (hs : ∀ seg ∈ segments, PlainName seg) :
    searchResultPath dataDir coll searchName segments =
      dataDir ++ coll :: ".search" :: searchName :: (segments ++ ["matches.json"]) := by
  have hplain : ∀ name ∈ [searchName] ++ segments ++ ["matches.json"], PlainName name := by
    intro name hname
    simp only [mem_append, mem_singleton] at hname
    rcases hname with (rfl | hname) | rfl
    · exact hn
    · exact hs name hname
    · decide
  rw [searchResultPath, foldl_join_plain _ hplain, searchDir,
    Path.join_plain (by decide : PlainName ".search"), collectionDir_eq hc]
  simp

structure Bucket where
  name : String
  segments : List String
  plainName : PlainName name
  plainSegments : ∀ seg ∈ segments, PlainName seg

theorem Bucket.ext {b b' : Bucket} (hname : b.name = b'.name) (hsegs : b.segments = b'.segments) :
    b = b' := by
  cases b
  cases b'
  cases hname
  cases hsegs
  rfl

def Bucket.path (b : Bucket) (e : Engine) (collection : String) : Path :=
  searchResultPath e.dataDir collection b.name b.segments

section
variable {e : Engine} {coll coll' : String} {b b' : Bucket}
theorem Bucket.path_eq (hc : e.cfg.Configured coll) :
    b.path e coll = e.dataDir ++ coll :: ".search" :: b.name :: (b.segments ++ ["matches.json"]) :=
  searchResultPath_eq (e.cfg.plainNames _ hc) b.plainName b.plainSegments

theorem Bucket.path_inj (hc : e.cfg.Configured coll) (hc' : e.cfg.Configured coll')
    (h : b.path e coll = b'.path e coll') : coll = coll' ∧ b = b' := by
  rw [Bucket.path_eq hc, Bucket.path_eq hc'] at h
  have htail := append_cancel_left h
  simp only [cons.injEq, true_and] at htail
  obtain ⟨hcollection, hname, hsegs⟩ := htail
  exact ⟨hcollection, Bucket.ext hname (append_cancel_right hsegs)⟩

theorem Bucket.apart (hc : e.cfg.Configured coll) (hc' : e.cfg.Configured coll')
    {docId : String} (hid : DocumentId docId) : Apart e coll' docId (b.path e coll) := by
  have hplain' := e.cfg.plainNames _ hc'
  rw [Bucket.path_eq hc]
  refine ⟨?_, ?_, ?_, ?_, ?_, fun change => ?_⟩
  · rw [e.live_eq hc' hid]
    simp
  · rw [e.previous_eq hc' hid]
    simp
  · rw [filesManifestPath_eq hplain' hid]
    simp
  · rw [lfsDir_eq hplain' hid]
    intro hpre
    simp at hpre
  · rw [fileOpsDir_eq hplain' hid]
    intro hpre
    simp at hpre
  · rw [queuePath_eq hplain' hid]
    simp
end

theorem shardInput_inj {segs segs' : List String} (h : ∀ seg ∈ segs, PlainName seg)
    (h' : ∀ seg ∈ segs', PlainName seg) (heq : shardInput segs = shardInput segs') :
    segs = segs' := by
  have hchars := congrArg String.toList heq
  simp only [shardInput, String.toList_intercalate] at hchars
  have hslash : ∀ {l : List String}, (∀ seg ∈ l, PlainName seg) →
      ∀ cs ∈ l.map String.toList, '/' ∉ cs := by
    intro l hl cs hcs
    obtain ⟨seg, hseg, rfl⟩ := mem_map.mp hcs
    exact (hl seg hseg).noSlash
  have hempty : ∀ {l : List String}, (∀ seg ∈ l, PlainName seg) →
      ['/'].intercalate (l.map String.toList) = [] → l = [] := by
    intro l hl hnil
    cases l with
    | nil => rfl
    | cons seg l =>
      have hne := (hl seg mem_cons_self).nonempty
      cases l <;> simp [intercalate] at hnil
      exact absurd hnil hne
  by_cases hnil : segs = []
  · subst hnil
    exact (hempty h' hchars.symm).symm
  · have hnil' : segs' ≠ [] := by
      rintro rfl
      exact hnil (hempty h hchars)
    have hsplit := congrArg (splitOn '/') hchars
    change splitOn '/' (['/'].intercalate _) = splitOn '/' (['/'].intercalate _) at hsplit
    rw [splitOn_intercalate '/' (hslash h) (by simpa using hnil),
      splitOn_intercalate '/' (hslash h') (by simpa using hnil')] at hsplit
    exact map_injective_iff.mpr (fun _ _ => String.toList_injective) hsplit

section
variable {fl : Floats}
variable {k : String} {r : EvalResult fl} {results : List (EvalResult fl)}
  {acc : Fields String (EvalResult fl)} {d : Definition fl.F} {doc : Option JsonFields}
  {segs : List String}
theorem mem_set {fs : Fields String (EvalResult fl)} {entry : String × EvalResult fl}
    (h : entry ∈ Fields.set k r fs) : entry = (k, r) ∨ entry ∈ fs := by
  induction fs with
  | nil => exact .inl (mem_singleton.mp h)
  | cons f fs ih =>
    rw [Fields.set] at h
    split at h
    · rcases mem_cons.mp h with rfl | h
      · exact .inl rfl
      · exact .inr (mem_cons_of_mem _ h)
    · rcases mem_cons.mp h with rfl | h
      · exact .inr mem_cons_self
      · exact (ih h).imp id (mem_cons_of_mem _)

theorem mem_foldl_indexBucket {rs : List (EvalResult fl)}
    (hacc : ∀ entry ∈ acc, entry.2 ∈ results ∧ entry.1 = shardInput entry.2.segments)
    (hrs : ∀ r ∈ rs, r ∈ results) :
    ∀ entry ∈ rs.foldl (indexBucket fl) acc,
      entry.2 ∈ results ∧ entry.1 = shardInput entry.2.segments := by
  induction rs generalizing acc with
  | nil => exact hacc
  | cons r rs ih =>
    refine ih (fun entry hentry => ?_) fun r' hr' => hrs r' (mem_cons_of_mem _ hr')
    unfold indexBucket at hentry
    split at hentry
    · rcases mem_set hentry with rfl | hentry
      · exact ⟨hrs r mem_cons_self, rfl⟩
      · exact hacc entry hentry
    · exact hacc entry hentry

theorem mem_bucketIndex {entry : String × EvalResult fl} (h : entry ∈ bucketIndex fl results) :
    entry.2 ∈ results ∧ entry.1 = shardInput entry.2.segments :=
  mem_foldl_indexBucket (fun _ hmem => absurd hmem not_mem_nil) (fun _ hr => hr) entry h

theorem isSome_get?_indexBucket (h : (Fields.get? k acc).isSome = true) (r : EvalResult fl) :
    (Fields.get? k (indexBucket fl acc r)).isSome = true := by
  unfold indexBucket
  split
  · by_cases hkey : shardInput r.segments = k
    · simp [hkey]
    · rwa [Fields.get?_set_other hkey]
  · exact h

theorem isSome_get?_foldl_indexBucket (h : (Fields.get? k acc).isSome = true)
    (rs : List (EvalResult fl)) : (Fields.get? k (rs.foldl (indexBucket fl) acc)).isSome = true := by
  induction rs generalizing acc with
  | nil => exact h
  | cons r rs ih => exact ih (isSome_get?_indexBucket h r)

theorem bucketIndex_complete (hr : r ∈ results) (hmatch : r.isMatch = true) :
    (Fields.get? (shardInput r.segments) (bucketIndex fl results)).isSome = true := by
  obtain ⟨before, after, rfl⟩ := append_of_mem hr
  rw [bucketIndex, foldl_append, foldl_cons]
  refine isSome_get?_foldl_indexBucket ?_ after
  rw [indexBucket, if_pos hmatch]
  simp

def bucketsOf (d : Definition fl.F) (doc : Option JsonFields) : List (List String) :=
  match evaluateDocument fl d doc with
  | .error _ => []
  | .ok results => results.map EvalResult.segments

theorem bucketsOf_eq (h : evaluateDocument fl d doc = .ok results) :
    bucketsOf d doc = results.map EvalResult.segments := by
  rw [bucketsOf, h]

theorem exists_of_mem_bucketsOf (h : segs ∈ bucketsOf d doc) :
    ∃ results, evaluateDocument fl d doc = .ok results ∧ segs ∈ results.map EvalResult.segments := by
  unfold bucketsOf at h
  split at h
  · cases h
  · rename_i results hresults
    exact ⟨results, hresults, h⟩

@[simp] theorem bucketsOf_none (d : Definition fl.F) : bucketsOf d none = [] := rfl

theorem isMatch_of_mem_expandBuckets {outs : List (ClauseOutcome fl.F)}
    {cur : List (List String × List (Any fl.F))} (h : r ∈ expandBuckets outs cur) :
    r.isMatch = true := by
  induction outs generalizing cur with
  | nil =>
    obtain ⟨pair, -, rfl⟩ := mem_map.mp h
    rfl
  | cons out outs ih =>
    rw [expandBuckets] at h
    split at h
    · exact ih h
    · split at h
      · cases h
      · exact ih h

structure Floats.Printed (fl : Floats) : Prop extends fl.Decimal where
  noSlash : ∀ f, '/' ∉ (fl.format f).toList

theorem PlainName.of_head {s : String} {c : Char} {cs : List Char} (h : s.toList = c :: cs)
    (hdot : c ≠ '.') (hslash : '/' ∉ s.toList) : PlainName s where
  noSlash := hslash
  nonempty := by
    rintro rfl
    cases h
  notDot := by
    rintro rfl
    exact hdot (cons.inj h).1.symm
  notDotDot := by
    rintro rfl
    exact hdot (cons.inj h).1.symm

theorem hexUpper_plain {n : Nat} (hn : n < 16) : hexUpper n ≠ '.' ∧ hexUpper n ≠ '/' := by
  revert n
  decide

theorem plain_encodeStringValue (s : String) : PlainName (encodeStringValue s) := by
  by_cases hs : s = ""
  · subst hs
    decide
  · have hchars := toList_encodeStringValue hs
    have hbytes : s.toUTF8.data.toList ≠ [] := by
      intro hnil
      apply hs
      apply String.toByteArray_inj.mp
      exact ByteArray.ext (Array.toList_inj.mp hnil)
    have hslash : '/' ∉ (encodeStringValue s).toList := by
      rw [hchars]
      intro hmem
      obtain ⟨byte, -, hbyte⟩ := mem_flatMap.mp hmem
      have hlt := byte.toNat_lt
      simp only [hexByte, mem_cons, not_mem_nil, or_false] at hbyte
      rcases hbyte with hbyte | hbyte
      · exact (hexUpper_plain (by omega)).2 hbyte.symm
      · exact (hexUpper_plain (by omega)).2 hbyte.symm
    cases hlist : s.toUTF8.data.toList with
    | nil => exact absurd hlist hbytes
    | cons byte bytes =>
      rw [hlist, flatMap_cons, hexByte, cons_append] at hchars
      have hlt := byte.toNat_lt
      exact .of_head hchars (hexUpper_plain (by omega)).1 hslash

theorem plain_encodeTruth (b : Bool) : PlainName (encodeTruth b) := by
  cases b <;> decide

theorem Segment.plain (hfl : fl.Printed) {v : Any fl.F} {seg : String} (h : Segment fl v seg) :
    PlainName seg := by
  cases h with
  | null => decide
  | bool b => exact plain_encodeTruth b
  | str s => exact plain_encodeStringValue s
  | float f =>
    obtain ⟨c, cs, hchars, hc⟩ := hfl.leading f
    refine .of_head hchars ?_ (hfl.noSlash f)
    rintro rfl
    rcases hc with hc | hc
    · exact absurd hc (by decide)
    · exact absurd hc (by decide)

theorem plain_of_picks {outs : List (ClauseOutcome fl.F)} (h : Picks outs segs)
    (hplain : ∀ out ∈ outs, ∀ o ∈ out.options, PlainName o.seg) : ∀ seg ∈ segs, PlainName seg := by
  induction h with
  | nil => exact fun seg hseg => absurd hseg not_mem_nil
  | skip _ _ ih => exact ih fun out hout => hplain out (mem_cons_of_mem _ hout)
  | pick _ ho _ ih =>
    intro seg hseg
    rcases mem_cons.mp hseg with rfl | hseg
    · exact hplain _ mem_cons_self _ ho
    · exact ih (fun out hout => hplain out (mem_cons_of_mem _ hout)) seg hseg

theorem plain_bucketsOf (hfl : fl.Printed) (h : segs ∈ bucketsOf d doc) :
    ∀ seg ∈ segs, PlainName seg := by
  cases doc with
  | none => cases h
  | some doc =>
    cases houts : evaluateClauses fl doc 0 d.clauses with
    | error message => simp [bucketsOf, evaluateDocument, houts] at h
    | ok outs =>
      cases outs with
      | none => simp [bucketsOf, evaluateDocument, houts] at h
      | some outs =>
        simp only [bucketsOf, evaluateDocument, houts] at h
        obtain ⟨before, hbefore, rest, hpicks, rfl⟩ := mem_expandBuckets.mp h
        rw [mem_singleton.mp hbefore, nil_append]
        exact plain_of_picks hpicks fun out hout o ho =>
          (segment_evaluateClauses houts out hout o ho).plain hfl

theorem plain_resolveClauses (hfl : fl.Printed) {vars : JsonFields} :
    ∀ {cs : List (Clause fl.F)} {i : Nat} {segs : List String},
      resolveClauses fl vars i cs = .ok segs → ∀ s ∈ segs, PlainName s
  | [], i, segs, h => by
      cases h
      intro s hs
      cases hs
  | c :: cs, i, segs, h => by
      unfold resolveClauses at h
      cases hseg : resolveClauseQuery fl c vars with
      | error message => simp [hseg] at h
      | ok seg =>
        cases hrest : resolveClauses fl vars (i + 1) cs with
        | error message => simp [hseg, hrest, Except.map] at h
        | ok rest =>
          simp only [hseg, hrest, Except.map, Except.ok.injEq] at h
          subst h
          intro s hs
          rcases mem_append.mp hs with hs | hs
          · rw [Option.mem_toList] at hs
            obtain ⟨v, hv⟩ := segment_resolveClauseQuery (hs ▸ hseg)
            exact hv.plain hfl
          · exact plain_resolveClauses hfl hrest s hs

theorem plain_resolveQueryPath (hfl : fl.Printed) {vars : JsonFields}
    (h : resolveQueryPath fl d vars = .ok segs) : ∀ s ∈ segs, PlainName s :=
  plain_resolveClauses hfl h
end
end Datorium
