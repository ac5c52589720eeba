
import Datorium.Framework.Until
import Datorium.Replication.CatchUp
namespace Datorium
open Framework Program List
def docKey (collection id : String) : String := collection ++ "/" ++ id

namespace ReadMemberState
def recordCheckinSuccess (state : ReadMemberState) (sotServer : String) : ReadMemberState :=
  { state with
      failedCheckins := Fields.remove sotServer state.failedCheckins
      staleSOT := state.staleSOT.filter fun sot => sot ≠ sotServer }

def recordCheckinFailure (state : ReadMemberState) (sotServer : String) : ReadMemberState :=
  let count := (Fields.get? sotServer state.failedCheckins).getD 0 + 1
  let threshold := if state.staleThreshold ≤ 0 then 3 else state.staleThreshold
  { state with
      failedCheckins := Fields.set sotServer count state.failedCheckins
      staleSOT := if threshold ≤ count then sotServer :: state.staleSOT else state.staleSOT }

def markPending (state : ReadMemberState) (collection id : String) : ReadMemberState :=
  { state with pendingDocs := docKey collection id :: state.pendingDocs }

def clearPending (state : ReadMemberState) (collection id : String) : ReadMemberState :=
  { state with pendingDocs := state.pendingDocs.filter fun key => key ≠ docKey collection id }
end ReadMemberState

inductive CheckInOp where
  | list
  | fetch (itemID : String)
  | complete (itemID : String)
  | recordFailure (sotServer : String)
  | recordSuccess (sotServer : String)
  | markPending (collection id : String)
  | clearPending (collection id : String)
  | disk (itemID : String) (op : Op)

def CheckInOp.Answer : CheckInOp → Type
  | list => Except FsError (List String)
  | fetch _ => Except FsError WorkItem
  | complete _ => Except FsError Unit
  | recordFailure _ => Unit
  | recordSuccess _ => Unit
  | markPending _ _ => Unit
  | clearPending _ _ => Unit
  | disk _ op => op.Answer

abbrev CheckInProg := Program CheckInOp CheckInOp.Answer

def CheckInOp.ask (op : CheckInOp) : CheckInProg op.Answer := .call op .done

def onDisk {α : Type} (itemID : String) : Prog α → CheckInProg α
  | .done a => .done a
  | .call op next => .call (.disk itemID op) fun r => onDisk itemID (next r)

/-- The part of `applyOne` between the mark and the deferred clear. -/
def applyFetched (m : Engine) (itemID : String) (item : WorkItem) :
    CheckInProg (Except FsError Unit) := do
  match ← onDisk itemID (applyItem m.dataDir m.ojson item) with
  | .error err => pure (.error err)
  | .ok false => pure (.error (.other ("replication: work item " ++ itemID ++ " did not apply")))
  | .ok true => CheckInOp.ask (.complete itemID)

/-- The part of `applyOne` after the fetch. -/
def applyMarked (m : Engine) (itemID : String) (item : WorkItem) :
    CheckInProg (Except FsError Unit) := do
  let () ← CheckInOp.ask (.markPending item.collection item.id)
  let r ← applyFetched m itemID item
  let () ← CheckInOp.ask (.clearPending item.collection item.id)
  pure r

def CatchUpAgent.applyOne (m : Engine) (itemID : String) : CheckInProg (Except FsError Unit) := do
  match ← CheckInOp.ask (.fetch itemID) with
  | .error err => pure (.error err)
  | .ok item => applyMarked m itemID item

/-- The loop of `CheckIn`; the first error is kept. -/
def applyListed (m : Engine) : List String → Except FsError Unit → CheckInProg (Except FsError Unit)
  | [], first => pure first
  | itemID :: ids, first => do
      let r ← CatchUpAgent.applyOne m itemID
      applyListed m ids (first.bind fun _ => r)

/-- The part of `CheckIn` after the list is received. -/
def checkInListed (m : Engine) (sotServer : String) (ids : List String) :
    CheckInProg (Except FsError Unit) := do
  let () ← CheckInOp.ask (.recordSuccess sotServer)
  applyListed m ids (.ok ())

def CatchUpAgent.checkIn (quote : String → String) (m : Engine) (sotServer : String) :
    CheckInProg (Except FsError Unit) :=
  if (Fields.get? sotServer m.cfg.baseURLs).getD "" = "" then
    pure (.error (.other ("replication: no known baseURL for SOT server " ++ quote sotServer)))
  else do
    match ← CheckInOp.ask .list with
    | .error err => do
        let () ← CheckInOp.ask (.recordFailure sotServer)
        pure (.error err)
    | .ok ids => checkInListed m sotServer ids

structure MemberState (ν : Type) where
  world : World ν
  marks : Option ReadMemberState

/-- The source of truth and the failures of one check-in. -/
structure SourceAnswers where
  listed : Except FsError (List String)
  item : String → WorkItem
  fetchError : String → Option FsError
  completed : String → Except FsError Unit
  faults : String → Faults

def SourceAnswers.fetched (a : SourceAnswers) (itemID : String) : Except FsError WorkItem :=
  match a.fetchError itemID with
  | some err => .error err
  | none => .ok (a.item itemID)

def MemberState.remark {ν : Type} (s : MemberState ν) (f : ReadMemberState → ReadMemberState) :
    MemberState ν := { s with marks := s.marks.map f }

def SourceAnswers.handle {ν : Type} (a : SourceAnswers) (host : Host ν) :
    Handler CheckInOp CheckInOp.Answer (MemberState ν)
  | .list, s => (a.listed, s)
  | .fetch itemID, s => (a.fetched itemID, s)
  | .complete itemID, s => (a.completed itemID, s)
  | .recordFailure sot, s => ((), s.remark fun state => state.recordCheckinFailure sot)
  | .recordSuccess sot, s => ((), s.remark fun state => state.recordCheckinSuccess sot)
  | .markPending coll id, s => ((), s.remark fun state => state.markPending coll id)
  | .clearPending coll id, s => ((), s.remark fun state => state.clearPending coll id)
  | .disk itemID op, s =>
    ((exec host (a.faults itemID) op s.world).1,
      { s with world := (exec host (a.faults itemID) op s.world).2 })

section
variable {ν : Type} {host : Host ν} {a : SourceAnswers} {s : MemberState ν}
theorem stops_onDisk {α : Type} (itemID : String) (p : Prog α) :
    ((onDisk itemID p).stops (a.handle host) s).map Prod.snd =
      (p.stops (exec host (a.faults itemID)) s.world).map fun stop => { s with world := stop.2 } := by
  induction p generalizing s with
  | done r => rfl
  | call op next ih => exact congrArg (cons s) (ih _)

theorem run_onDisk {α : Type} (itemID : String) (p : Prog α) :
    (onDisk itemID p).run (a.handle host) s = ((p.run (exec host (a.faults itemID)) s.world).1,
        { s with world := (p.run (exec host (a.faults itemID)) s.world).2 }) := by
  induction p generalizing s with
  | done r => rfl
  | call op next ih => exact ih _
end

def docPaths (dataDir : Path) (collection id : String) : List Path :=
  [documentPath dataDir collection id, previousDocumentPath dataDir collection id,
    filesManifestPath dataDir collection id]

def Call.OnDocument (dataDir : Path) (collection id : String) : Call → Prop
  | .stat p | .readFile p | .remove p | .install p _ => p ∈ docPaths dataDir collection id
  | .rename source target =>
    source ∈ docPaths dataDir collection id ∧ target ∈ docPaths dataDir collection id
  | .removeAll p => p = lfsDir dataDir collection id ∨ p = fileOpsDir dataDir collection id
  | .mkdirAll _ | .prepare _ _ => True
  | _ => False

section
variable {dataDir : Path} {coll docId : String}
theorem live_mem_docPaths :
    documentPath dataDir coll docId ∈ docPaths dataDir coll docId := by simp [docPaths]

theorem previous_mem_docPaths :
    previousDocumentPath dataDir coll docId ∈ docPaths dataDir coll docId := by
  simp [docPaths]

theorem manifest_mem_docPaths :
    filesManifestPath dataDir coll docId ∈ docPaths dataDir coll docId := by
  simp [docPaths]

theorem only_applyWritten (doc : Json) : (applyWritten (documentPath dataDir coll docId) doc).Only
      fun op => op.call.OnDocument dataDir coll docId := by
  refine .bind (only_writeDocumentJSONVerified (fun _ => trivial) live_mem_docPaths
    fun _ => live_mem_docPaths) fun r => ?_
  cases r <;> trivial

theorem only_cascade : (cascadeDeleteDocumentFiles dataDir coll docId).Only
      fun op => op.call.OnDocument dataDir coll docId :=
  only_cascadeDeleteDocumentFiles manifest_mem_docPaths (.inl rfl) (.inr rfl)

theorem only_softDelete : (softDeleteDocument dataDir coll docId).Only
      fun op => op.call.OnDocument dataDir coll docId := by
  refine .bind (.bind (only_perform previous_mem_docPaths) fun r => ?_) fun r => ?_
  · cases r with
    | ok u => exact only_perform live_mem_docPaths
    | error err => exact only_perform ⟨live_mem_docPaths, previous_mem_docPaths⟩
  · cases r with
    | error err => trivial
    | ok u => exact only_cascade

theorem only_applyItem (o : Ojson) (item : WorkItem) : (applyItem dataDir o item).Only
      fun op => op.call.OnDocument dataDir item.collection item.id := by
  unfold applyItem
  cases item.command with
  | create =>
    refine .bind (only_readDocumentJSON live_mem_docPaths) fun r => ?_
    cases r with
    | ok existing =>
      dsimp only
      split <;> trivial
    | error err =>
      dsimp only
      split
      · trivial
      · refine .bindOk (only_perform trivial) (fun _ => trivial) fun u => ?_
        exact only_applyWritten _
  | patch =>
    refine .bindOk (only_readDocumentValue live_mem_docPaths) (fun _ => trivial) fun doc => ?_
    dsimp only
    split
    · trivial
    · refine .bindOk (only_preservePreviousIfAbsent previous_mem_docPaths live_mem_docPaths
        ⟨live_mem_docPaths, previous_mem_docPaths⟩) (fun _ => trivial) fun u => ?_
      dsimp only [applyPatched]
      split
      · exact only_applyWritten _
      · split
        · trivial
        · exact only_applyWritten _
  | delete =>
    refine .bind (only_readDocumentJSON live_mem_docPaths) fun r => ?_
    cases r with
    | error err => exact .bind only_cascade fun _ => trivial
    | ok existing =>
      refine .bind only_softDelete fun r => ?_
      cases r <;> trivial
  | read => trivial

def SameDocument {ν : Type} (dataDir : Path) (collection docId : String) (w w' : World ν) : Prop :=
  ∀ p ∈ docPaths dataDir collection docId, w.files p = w'.files p

theorem exec_agree {ν : Type} {host : Host ν} {faults : Faults} {op : Op}
    (hop : op.call.OnDocument dataDir coll docId) {w w' : World ν}
    (h : SameDocument dataDir coll docId w w') :
    (exec host faults op w).1 = (exec host faults op w').1 ∧
      SameDocument dataDir coll docId (exec host faults op w).2 (exec host faults op w').2 := by
  obtain ⟨site, call⟩ := op
  unfold exec
  cases faults site with
  | true => exact ⟨rfl, h⟩
  | false =>
    cases call with
    | stat path =>
      have hpath := h path hop
      cases hfile : w'.files path <;> simp only [Call.apply, hpath, hfile] <;> exact ⟨rfl, h⟩
    | readFile path =>
      have hpath := h path hop
      cases hfile : w'.files path <;> simp only [Call.apply, hpath, hfile] <;> exact ⟨rfl, h⟩
    | rename source target =>
      have hsource := h source hop.1
      cases hfile : w'.files source with
      | none =>
        simp only [Call.apply, hsource, hfile]
        exact ⟨rfl, h⟩
      | some file =>
        simp only [Call.apply, hsource, hfile]
        refine ⟨rfl, fun p hp => ?_⟩
        simp [World.move, World.put_files, hsource, h p hp]
    | remove path =>
      have hpath := h path hop
      cases hfile : w'.files path with
      | none =>
        simp only [Call.apply, hpath, hfile]
        exact ⟨rfl, h⟩
      | some file =>
        simp only [Call.apply, hpath, hfile]
        refine ⟨rfl, fun p hp => ?_⟩
        simp [World.put_files, h p hp]
    | removeAll path =>
      refine ⟨rfl, fun p hp => ?_⟩
      simp [Call.apply, World.prune_files, h p hp]
    | install path file =>
      refine ⟨rfl, fun p hp => ?_⟩
      simp [Call.apply, World.put_files, h p hp]
    | mkdirAll path => exact ⟨rfl, h⟩
    | prepare step path => exact ⟨rfl, h⟩
    | _ => exact absurd hop id

theorem docPaths_apart {coll' docId' : String} (hc : PlainName coll)
    (hid : DocumentId docId) (hc' : PlainName coll') (hid' : DocumentId docId')
    (hne : docId ≠ docId') {p : Path} (hp : p ∈ docPaths dataDir coll docId)
    (hp' : p ∈ docPaths dataDir coll' docId') : False := by
  simp only [docPaths, documentPath_eq hc hid, previousDocumentPath_eq hc hid,
    filesManifestPath_eq hc hid, documentPath_eq hc' hid', previousDocumentPath_eq hc' hid',
    filesManifestPath_eq hc' hid', mem_cons, not_mem_nil, or_false] at hp hp'
  have hlast : ∀ {c c' n n' : String}, dataDir ++ [c, n] = dataDir ++ [c', n'] → n = n' := by
    intro c c' n n' heq
    simpa using congrArg (fun q => q.getLast?) heq
  rcases hp with rfl | rfl | rfl <;> rcases hp' with heq | heq | heq <;> have hname := hlast heq
  · exact hne (by simpa using hname)
  · exact live_name_ne_previous_name hid docId' hname
  · exact live_name_ne_manifest_name docId docId' hname
  · exact live_name_ne_previous_name hid' docId hname.symm
  · exact hne (by simpa using hname)
  · exact live_name_ne_manifest_name _ _ hname
  · exact live_name_ne_manifest_name docId' docId hname.symm
  · exact live_name_ne_manifest_name _ _ hname.symm
  · exact hne (by simpa using hname)

theorem avoids_of_onDocument {coll' docId' : String} (hc : PlainName coll)
    (hid : DocumentId docId) (hc' : PlainName coll') (hid' : DocumentId docId')
    (hne : docId ≠ docId') {p : Path} (hp : p ∈ docPaths dataDir coll docId) {call : Call}
    (hcall : call.OnDocument dataDir coll' docId') : call.Avoids p := by
  have hapart : ∀ q ∈ docPaths dataDir coll' docId', q ≠ p := by
    rintro q hq rfl
    exact docPaths_apart hc hid hc' hid' hne hp hq
  cases call with
  | rename source target => exact ⟨hapart _ hcall.1, hapart _ hcall.2⟩
  | remove path => exact hapart _ hcall
  | install path file => exact hapart _ hcall
  | removeAll path =>
    have hlength : p.length = dataDir.length + 2 := by
      simp only [docPaths, documentPath_eq hc hid, previousDocumentPath_eq hc hid,
        filesManifestPath_eq hc hid, mem_cons, not_mem_nil, or_false] at hp
      rcases hp with rfl | rfl | rfl <;> simp
    rcases hcall with rfl | rfl
    · intro hinside
      have hle := hinside.length_le
      rw [lfsDir_eq hc' hid', hlength] at hle
      simp at hle
    · intro hinside
      have hle := hinside.length_le
      rw [fileOpsDir_eq hc' hid', hlength] at hle
      simp at hle
  | _ => trivial
end
section
variable {ν : Type}
def MemberState.Pending (s : MemberState ν) (collection docId : String) : Prop :=
  ∃ state, s.marks = some state ∧ docKey collection docId ∈ state.pendingDocs

def MemberState.staleSOT (s : MemberState ν) : List String :=
  (s.marks.map ReadMemberState.staleSOT).getD []

def Engine.sotOf (m : Engine) (docId : String) : String :=
  (m.cfg.assignmentForSlot (slot docId)).shardSOTMember

/-- The member refuses what it has from the source of truth of the document. -/
def Engine.StaleSlot (m : Engine) (s : MemberState ν) (docId : String) : Prop :=
  m.sotOf docId ≠ "" ∧ m.sotOf docId ≠ m.serverName ∧ m.sotOf docId ∈ s.staleSOT

def Engine.RefusesReads (m : Engine) (collection docId : String) (s : MemberState ν) : Prop :=
  ∀ req : Request, req.target = collection → req.parameter = docId →
    checkStaleness { m with readState := s.marks } req ≠ none

def Engine.Shows (m : Engine) (item : WorkItem) (w : World ν) : Prop :=
  if item.command = .delete then w.files (m.live item.collection item.id) = none
  else ∃ fields, w.files (m.live item.collection item.id) = some (.json (.obj fields)) ∧
    Json.asString (Fields.get? "#" fields) = item.afterVersion

theorem Engine.shows_iff {m : Engine} {item : WorkItem} {w : World ν} (h : item.command ≠ .delete) :
    m.Shows item w ↔ ∃ fields,
      w.files (m.live item.collection item.id) = some (.json (.obj fields)) ∧
        Json.asString (Fields.get? "#" fields) = item.afterVersion := by
  rw [Engine.Shows, if_neg h]

def Engine.RefusedUntilShown (m : Engine) (item : WorkItem) (states : List (MemberState ν)) : Prop :=
  Until (m.RefusesReads item.collection item.id) (fun t => m.Shows item t.world) states

theorem Engine.refusesReads_iff {m : Engine} {coll docId : String} {s : MemberState ν} :
    m.RefusesReads coll docId s ↔ m.StaleSlot s docId ∨ s.Pending coll docId := by
  have hcheck : ∀ req : Request, req.target = coll → req.parameter = docId →
      (checkStaleness { m with readState := s.marks } req ≠ none ↔
        m.StaleSlot s docId ∨ s.Pending coll docId) := by
    rintro req rfl rfl
    cases hmarks : s.marks with
    | none => simp [checkStaleness, Engine.StaleSlot, MemberState.staleSOT, MemberState.Pending, hmarks]
    | some state =>
      simp only [checkStaleness, Engine.StaleSlot, MemberState.staleSOT, MemberState.Pending,
        hmarks, Engine.sotOf, docKey]
      split
      · simp_all
      · split <;> simp_all
  refine ⟨fun h => ?_, fun h req htarget hparameter => (hcheck req htarget hparameter).mpr h⟩
  exact (hcheck ⟨.read, coll, docId, [], true⟩ rfl rfl).mp (h _ rfl rfl)
end

/-- An id names the document of its write, which is a document of a collection. -/
structure SourceAnswers.Names (a : SourceAnswers) (m : Engine) (itemID : String) : Prop where
  named : workItemID m.serverName (a.item itemID).id = itemID
  document : DocumentId (a.item itemID).id
  collection : PlainName (a.item itemID).collection

theorem docKey_inj {coll coll' docId docId' : String} (hc : PlainName coll)
    (hid : DocumentId docId) (h : docKey coll docId = docKey coll' docId') :
    docId = docId' := by
  have hchars : coll.toList ++ '/' :: docId.toList =
      coll'.toList ++ '/' :: docId'.toList := by simpa [docKey] using congrArg String.toList h
  exact String.toList_inj.mp ((append_cons_inj_of_notMem hc.noSlash hid.noSlash).mp hchars).2.2

structure Untouched {ν : Type} (m : Engine) (item : WorkItem) (s t : MemberState ν) : Prop where
  flag : t.Pending item.collection item.id ↔ s.Pending item.collection item.id
  stale : t.staleSOT = s.staleSOT
  files : SameDocument m.dataDir item.collection item.id t.world s.world

section
variable {ν : Type} {host : Host ν} {a : SourceAnswers} {m : Engine} {item : WorkItem}
  {s t u : MemberState ν}
theorem Untouched.refl : Untouched m item s s := ⟨Iff.rfl, rfl, fun _ _ => rfl⟩

theorem Untouched.trans (h : Untouched m item s t) (h' : Untouched m item t u) :
    Untouched m item s u :=
  ⟨h'.flag.trans h.flag, h'.stale.trans h.stale, fun p hp => (h'.files p hp).trans (h.files p hp)⟩

theorem Untouched.shows (h : Untouched m item s t) : m.Shows item t.world ↔ m.Shows item s.world := by
  rw [Engine.Shows, Engine.Shows, Engine.live, h.files _ live_mem_docPaths]

/-- The marks of a call of `applyMarked` on another document. -/
def CheckInOp.Apart (m : Engine) (item : WorkItem) : CheckInOp → Prop
  | .list | .fetch _ | .complete _ => True
  | .recordFailure _ | .recordSuccess _ => False
  | .markPending coll docId | .clearPending coll docId =>
    docKey coll docId ≠ docKey item.collection item.id
  | .disk _ op => ∀ p ∈ docPaths m.dataDir item.collection item.id, op.call.Avoids p

theorem Untouched.step {op : CheckInOp} (hop : op.Apart m item) (h : Untouched m item s t) :
    Untouched m item s (a.handle host op t).2 := by
  refine h.trans ?_
  cases op with
  | list => exact .refl
  | fetch itemID => exact .refl
  | complete itemID => exact .refl
  | recordFailure sot => exact hop.elim
  | recordSuccess sot => exact hop.elim
  | markPending coll docId =>
    have hkey : docKey item.collection item.id ≠ docKey coll docId := Ne.symm hop
    refine ⟨?_, ?_, fun _ _ => rfl⟩
    · simp [SourceAnswers.handle, MemberState.remark, MemberState.Pending,
        ReadMemberState.markPending, hkey]
    · cases hmarks : t.marks <;>
        simp [SourceAnswers.handle, MemberState.remark, MemberState.staleSOT, hmarks,
          ReadMemberState.markPending]
  | clearPending coll docId =>
    have hkey : docKey item.collection item.id ≠ docKey coll docId := Ne.symm hop
    refine ⟨?_, ?_, fun _ _ => rfl⟩
    · simp [SourceAnswers.handle, MemberState.remark, MemberState.Pending,
        ReadMemberState.clearPending, hkey]
    · cases hmarks : t.marks <;>
        simp [SourceAnswers.handle, MemberState.remark, MemberState.staleSOT, hmarks,
          ReadMemberState.clearPending]
  | disk itemID op => exact ⟨Iff.rfl, rfl, fun p hp => (hop p hp).exec t.world⟩

theorem only_onDisk {α : Type} {P : CheckInOp → Prop} {itemID : String} {p : Prog α}
    (h : p.Only fun op => P (.disk itemID op)) : (onDisk itemID p).Only P := by
  induction p with
  | done r => trivial
  | call op next ih => exact ⟨h.1, fun r => ih r (h.2 r)⟩

theorem only_applyMarked {P : CheckInOp → Prop} {itemID : String}
    (hmark : P (.markPending item.collection item.id))
    (hclear : P (.clearPending item.collection item.id)) (hcomplete : P (.complete itemID))
    (hdisk : ∀ op, op.call.OnDocument m.dataDir item.collection item.id → P (.disk itemID op)) :
    (applyMarked m itemID item).Only P := by
  have hfetched : (applyFetched m itemID item).Only P := by
    refine .bind (only_onDisk ((only_applyItem m.ojson item).mono hdisk)) fun r => ?_
    rcases r with err | (_ | _)
    · trivial
    · trivial
    · exact ⟨hcomplete, fun _ => trivial⟩
  refine .bind ⟨hmark, fun _ => trivial⟩ fun _ => ?_
  refine .bind hfetched fun _ => ?_
  exact .bind ⟨hclear, fun _ => trivial⟩ fun _ => trivial

theorem applyOne_other {itemID : String} (hitem : PlainName item.collection ∧ DocumentId item.id)
    (hnames : a.Names m itemID) (hne : item.id ≠ (a.item itemID).id) :
    ∀ t ∈ (CatchUpAgent.applyOne m itemID).visited (a.handle host) s, Untouched m item s t := by
  have hkey : docKey (a.item itemID).collection (a.item itemID).id ≠
      docKey item.collection item.id := fun h =>
    hne (docKey_inj hnames.collection hnames.document h).symm
  have honly : (applyMarked m itemID (a.item itemID)).Only (CheckInOp.Apart m item) :=
    only_applyMarked hkey hkey trivial fun op hop p hp =>
      avoids_of_onDocument hitem.1 hitem.2 hnames.collection hnames.document hne hp hop
  intro t ht
  cases hfetch : a.fetchError itemID with
  | some err =>
    have hvisited : (CatchUpAgent.applyOne m itemID).visited (a.handle host) s = [s, s] := by
      simp [CatchUpAgent.applyOne, CheckInOp.ask, SourceAnswers.handle, SourceAnswers.fetched, hfetch]
    rw [hvisited] at ht
    simp only [mem_cons, not_mem_nil, or_false, or_self] at ht
    exact ht ▸ .refl
  | none =>
    have hvisited : (CatchUpAgent.applyOne m itemID).visited (a.handle host) s =
        s :: (applyMarked m itemID (a.item itemID)).visited (a.handle host) s := by
      simp [CatchUpAgent.applyOne, CheckInOp.ask, SourceAnswers.handle, SourceAnswers.fetched, hfetch]
    rw [hvisited, mem_cons] at ht
    rcases ht with rfl | ht
    · exact .refl
    · exact honly.visited (fun op _ hop h => h.step hop) .refl ht

theorem applyFetched_states (itemID : String) :
    ((applyFetched m itemID item).run (a.handle host) s).2 =
        ⟨((applyItem m.dataDir m.ojson item).run (exec host (a.faults itemID)) s.world).2, s.marks⟩ ∧
      (∀ t ∈ ((applyFetched m itemID item).stops (a.handle host) s).map Prod.snd,
        t.marks = s.marks ∧ t.world ∈
          (applyItem m.dataDir m.ojson item).visited (exec host (a.faults itemID)) s.world) ∧
      ∀ w ∈ ((applyItem m.dataDir m.ojson item).stops (exec host (a.faults itemID)) s.world).map
          Prod.snd, (⟨w, s.marks⟩ : MemberState ν) ∈
        ((applyFetched m itemID item).stops (a.handle host) s).map Prod.snd := by
  rw [applyFetched, bind_eq, run_bind, stops_bind, run_onDisk,
    map_append, stops_onDisk, visited_eq_stops]
  refine ⟨?_, fun t ht => ?_, fun w hw => ?_⟩
  · rcases ((applyItem m.dataDir m.ojson item).run (exec host (a.faults itemID)) s.world).1 with
      err | (_ | _) <;> rfl
  · rw [mem_append] at ht
    rcases ht with ht | ht
    · obtain ⟨stop, hstop, rfl⟩ := mem_map.mp ht
      exact ⟨rfl, mem_append_left _ (mem_map_of_mem hstop)⟩
    · revert ht
      rcases ((applyItem m.dataDir m.ojson item).run (exec host (a.faults itemID)) s.world).1 with
        err | (_ | _)
      · exact fun ht => by cases ht
      · exact fun ht => by cases ht
      · intro ht
        obtain rfl : t = _ := mem_singleton.mp ht
        exact ⟨rfl, mem_append_right _ (mem_singleton_self _)⟩
  · obtain ⟨stop, hstop, rfl⟩ := mem_map.mp hw
    exact mem_append_left _ (mem_map_of_mem hstop)

theorem applyOne_own {itemID : String} (hfetch : a.fetchError itemID = none)
    (hpending : s.Pending (a.item itemID).collection (a.item itemID).id) :
    (∀ t ∈ ((CatchUpAgent.applyOne m itemID).stops (a.handle host) s).map Prod.snd,
        t.Pending (a.item itemID).collection (a.item itemID).id) ∧
      ¬ ((CatchUpAgent.applyOne m itemID).run (a.handle host) s).2.Pending (a.item itemID).collection
        (a.item itemID).id ∧
      ((CatchUpAgent.applyOne m itemID).run (a.handle host) s).2.staleSOT = s.staleSOT ∧
      ((∃ t ∈ ((CatchUpAgent.applyOne m itemID).stops (a.handle host) s).map Prod.snd,
          m.Shows (a.item itemID) t.world) ∨
        m.Shows (a.item itemID) ((CatchUpAgent.applyOne m itemID).run (a.handle host) s).2.world ↔
        ∃ w ∈ (applyItem m.dataDir m.ojson (a.item itemID)).visited
          (exec host (a.faults itemID)) s.world, m.Shows (a.item itemID) w) := by
  let item := a.item itemID
  let marked := s.remark fun state => state.markPending item.collection item.id
  obtain ⟨hfinal, hstates, hstops⟩ := @applyFetched_states ν host a m item marked itemID
  have hstopsOne : ((CatchUpAgent.applyOne m itemID).stops (a.handle host) s).map Prod.snd =
      s :: s :: (((applyFetched m itemID item).stops (a.handle host) marked).map Prod.snd ++
        [((applyFetched m itemID item).run (a.handle host) marked).2]) := by
    simp [CatchUpAgent.applyOne, applyMarked, CheckInOp.ask, SourceAnswers.handle, SourceAnswers.fetched, hfetch,
      marked, item]
  have hrunOne : ((CatchUpAgent.applyOne m itemID).run (a.handle host) s).2 =
      ((applyFetched m itemID item).run (a.handle host) marked).2.remark
        fun state => state.clearPending item.collection item.id := by
    simp [CatchUpAgent.applyOne, applyMarked, CheckInOp.ask, SourceAnswers.handle, SourceAnswers.fetched, hfetch,
      marked, item]
  have hmarked : ∀ t : MemberState ν, t.marks = marked.marks →
      t.Pending item.collection item.id := by
    obtain ⟨state, hstate, -⟩ := hpending
    intro t ht
    exact ⟨state.markPending item.collection item.id, by rw [ht]; simp [marked, MemberState.remark,
      hstate], mem_cons_self⟩
  rw [hstopsOne, hrunOne, hfinal]
  refine ⟨?_, ?_, ?_, ?_⟩
  · intro t ht
    simp only [mem_cons, mem_append, not_mem_nil, or_false] at ht
    rcases ht with rfl | rfl | ht | rfl
    · exact hpending
    · exact hpending
    · exact hmarked t (hstates t ht).1
    · exact hmarked _ rfl
  · rintro ⟨state, hstate, hkey⟩
    obtain ⟨before, -, rfl⟩ := Option.map_eq_some_iff.mp hstate
    simp [ReadMemberState.clearPending, item] at hkey
  · cases hmarks : s.marks <;>
      simp [MemberState.remark, MemberState.staleSOT, marked, hmarks, ReadMemberState.markPending,
        ReadMemberState.clearPending]
  · constructor
    · rintro (⟨t, ht, hshows⟩ | hshows)
      · simp only [mem_cons, mem_append, not_mem_nil, or_false] at ht
        rcases ht with rfl | rfl | ht | rfl
        · exact ⟨_, self_mem_visited _ _, hshows⟩
        · exact ⟨_, self_mem_visited _ _, hshows⟩
        · exact ⟨t.world, (hstates t ht).2, hshows⟩
        · exact ⟨_, final_mem_visited _ _ _, hshows⟩
      · exact ⟨_, final_mem_visited _ _ _, hshows⟩
    · rintro ⟨w, hw, hshows⟩
      rw [visited_eq_stops] at hw
      rcases mem_append.mp hw with hw | hw
      · exact .inl ⟨_, mem_cons_of_mem _ (mem_cons_of_mem _
          (mem_append_left _ (hstops w hw))), hshows⟩
      · obtain rfl := mem_singleton.mp hw
        exact .inr hshows

def SourceAnswers.Applies (a : SourceAnswers) (host : Host ν) (m : Engine) (itemID : String)
    (w : World ν) : Prop :=
  ∃ t ∈ (applyItem m.dataDir m.ojson (a.item itemID)).visited (exec host (a.faults itemID)) w,
    m.Shows (a.item itemID) t

theorem Untouched.applies {itemID : String} (h : Untouched m (a.item itemID) s t) :
    a.Applies host m itemID t.world ↔ a.Applies host m itemID s.world := by
  have hshift : ∀ {w w' : World ν},
      SameDocument m.dataDir (a.item itemID).collection (a.item itemID).id w w' →
        a.Applies host m itemID w → a.Applies host m itemID w' := by
    rintro w w' hagree ⟨u, hu, hshows⟩
    obtain ⟨v, hv, huv⟩ := related_of_only (R := SameDocument m.dataDir _ _)
      (only_applyItem m.ojson (a.item itemID)) (fun _ _ _ hop hxy => exec_agree hop hxy) hagree u hu
    refine ⟨v, hv, ?_⟩
    rw [Engine.Shows, Engine.live] at hshows ⊢
    rwa [← huv _ live_mem_docPaths]
  exact ⟨hshift h.files, hshift fun p hp => (h.files p hp).symm⟩

theorem applyListed_refused {itemID : String} {ids : List String} (hnames : a.Names m itemID)
    (hids : ∀ other ∈ ids, a.Names m other) (first : Except FsError Unit)
    (hpending : s.Pending (a.item itemID).collection (a.item itemID).id)
    (hstale : ¬ m.StaleSlot s (a.item itemID).id) (hshown : ¬ m.Shows (a.item itemID) s.world) :
    m.RefusedUntilShown (a.item itemID) ((applyListed m ids first).visited (a.handle host) s) ↔
      (itemID ∈ ids → a.fetchError itemID = none → a.Applies host m itemID s.world) := by
  have hrefused : ∀ t : MemberState ν, t.Pending (a.item itemID).collection (a.item itemID).id →
      m.RefusesReads (a.item itemID).collection (a.item itemID).id t :=
    fun t ht => Engine.refusesReads_iff.mpr (.inr ht)
  induction ids generalizing s first with
  | nil => exact ⟨fun _ h => (by cases h), fun _ => .inr ⟨hrefused s hpending, trivial⟩⟩
  | cons other ids ih =>
    have hrest : ∀ other ∈ ids, a.Names m other := fun other h => hids other (mem_cons_of_mem _ h)
    rw [applyListed, bind_eq, visited_bind, Engine.RefusedUntilShown, until_append]
    by_cases hother : other = itemID
    · subst hother
      cases hfetch : a.fetchError other with
      | none =>
        obtain ⟨hall, hcleared, hkept, happlies⟩ := @applyOne_own ν host a m s other hfetch hpending
        have hnot : ¬ m.RefusesReads (a.item other).collection (a.item other).id
            ((CatchUpAgent.applyOne m other).run (a.handle host) s).2 := by
          rw [Engine.refusesReads_iff, Engine.StaleSlot, hkept]
          exact fun h => h.elim hstale hcleared
        -- After the last call the document is not refused, so the goal has to be reached by then.
        obtain ⟨states, hstates⟩ := @visited_eq_cons (MemberState ν) _ _ _ (a.handle host)
          (applyListed m ids (first.bind fun _ => ((CatchUpAgent.applyOne m other).run (a.handle host) s).1))
          ((CatchUpAgent.applyOne m other).run (a.handle host) s).2
        rw [hstates]
        refine ⟨fun h _ _ => happlies.mp (h.2.imp_right fun hu => hu.head.resolve_right hnot),
          fun h => ⟨until_of_forall fun t ht => hrefused t (hall t ht), ?_⟩⟩
        exact (happlies.mpr (h mem_cons_self rfl)).imp_right Or.inl
      | some err =>
        have hstops : ((CatchUpAgent.applyOne m other).stops (a.handle host) s).map Prod.snd = [s] := by
          simp [CatchUpAgent.applyOne, CheckInOp.ask, SourceAnswers.handle, SourceAnswers.fetched, hfetch]
        have hrun : ((CatchUpAgent.applyOne m other).run (a.handle host) s).2 = s := by
          simp [CatchUpAgent.applyOne, CheckInOp.ask, SourceAnswers.handle, SourceAnswers.fetched, hfetch]
        have hloop := ih hrest (first.bind fun _ => ((CatchUpAgent.applyOne m other).run (a.handle host) s).1)
          hpending hstale hshown
        rw [hstops, hrun]
        refine ⟨fun _ _ h => (by cases h), fun _ => ⟨.inr ⟨hrefused s hpending, trivial⟩, .inr ?_⟩⟩
        exact hloop.mpr fun _ h => by rw [hfetch] at h; cases h
    · have hne : (a.item itemID).id ≠ (a.item other).id := by
        intro heq
        rw [← hnames.named, heq, (hids other mem_cons_self).named] at hother
        exact hother rfl
      have huntouched : ∀ t ∈ (CatchUpAgent.applyOne m other).visited (a.handle host) s,
          Untouched m (a.item itemID) s t :=
        applyOne_other ⟨hnames.collection, hnames.document⟩ (hids other mem_cons_self) hne
      have hfinal := huntouched _ (final_mem_visited _ _ _)
      have hstops : ∀ t ∈ ((CatchUpAgent.applyOne m other).stops (a.handle host) s).map Prod.snd,
          Untouched m (a.item itemID) s t := by
        intro t ht
        refine huntouched t ?_
        rw [visited_eq_stops]
        exact mem_append_left _ ht
      have hloop := @ih _ hrest (first.bind fun _ => ((CatchUpAgent.applyOne m other).run (a.handle host) s).1)
        (hfinal.flag.mpr hpending) (by rwa [Engine.StaleSlot, hfinal.stale])
        (mt hfinal.shows.mp hshown)
      have hmem : itemID ∈ other :: ids ↔ itemID ∈ ids := by simp [Ne.symm hother]
      rw [hmem, ← hfinal.applies]
      refine Iff.trans ?_ hloop
      refine ⟨fun h => h.2.resolve_left fun ⟨t, ht, hshows⟩ => hshown ((hstops t ht).shows.mp hshows),
        fun h => ⟨until_of_forall fun t ht => hrefused t ((hstops t ht).flag.mpr hpending), .inr h⟩⟩

def CheckInOp.KeepsStale : CheckInOp → Prop
  | .recordFailure _ | .recordSuccess _ => False
  | _ => True

theorem CheckInOp.KeepsStale.handle {op : CheckInOp} (hop : op.KeepsStale) :
    (a.handle host op s).2.staleSOT = s.staleSOT := by
  cases op with
  | recordFailure sot => exact hop.elim
  | recordSuccess sot => exact hop.elim
  | markPending coll docId =>
    cases hmarks : s.marks <;>
      simp [SourceAnswers.handle, MemberState.remark, MemberState.staleSOT, hmarks,
        ReadMemberState.markPending]
  | clearPending coll docId =>
    cases hmarks : s.marks <;>
      simp [SourceAnswers.handle, MemberState.remark, MemberState.staleSOT, hmarks,
        ReadMemberState.clearPending]
  | _ => rfl

theorem only_applyListed (ids : List String) (first : Except FsError Unit) :
    (applyListed m ids first).Only CheckInOp.KeepsStale := by
  induction ids generalizing first with
  | nil => trivial
  | cons itemID ids ih =>
    refine .bind (.bind ⟨trivial, fun _ => trivial⟩ fun r => ?_) fun r => ih _
    cases r with
    | error err => trivial
    | ok item => exact only_applyMarked trivial trivial trivial fun _ _ => trivial

theorem applyListed_staleSOT (ids : List String) (first : Except FsError Unit) {t : MemberState ν}
    (ht : t ∈ (applyListed m ids first).visited (a.handle host) s) : t.staleSOT = s.staleSOT := by
  have hkept : ∀ op (u : MemberState ν), op.KeepsStale → u.staleSOT = s.staleSOT →
      (a.handle host op u).2.staleSOT = s.staleSOT := fun _ _ hop h => hop.handle.trans h
  exact (only_applyListed ids first).visited hkept rfl ht

theorem visited_checkIn {quote : String → String} {sotServer : String} {ids : List String}
    (hbase : (Fields.get? sotServer m.cfg.baseURLs).getD "" ≠ "") (hlisted : a.listed = .ok ids) :
    (CatchUpAgent.checkIn quote m sotServer).visited (a.handle host) s =
      s :: (checkInListed m sotServer ids).visited (a.handle host) s := by
  simp [CatchUpAgent.checkIn, hbase, CheckInOp.ask, SourceAnswers.handle, hlisted]

/-- Every document the list names is refused until its write is there exactly when of each: the
write is there already; or the member refuses all documents of the slot's source of truth, which is
not the listing one; or it was marked before, and its fetch fails or its application brings the
write. -/
theorem known_stale_refused {quote : String → String} {sotServer : String} {ids : List String}
    (hbase : (Fields.get? sotServer m.cfg.baseURLs).getD "" ≠ "") (hlisted : a.listed = .ok ids)
    (hids : ∀ itemID ∈ ids, a.Names m itemID) :
    (∀ itemID ∈ ids, m.RefusedUntilShown (a.item itemID)
        ((CatchUpAgent.checkIn quote m sotServer).visited (a.handle host) s).tail) ↔
      ∀ itemID ∈ ids, m.Shows (a.item itemID) s.world ∨
        (m.StaleSlot s (a.item itemID).id ∧ m.sotOf (a.item itemID).id ≠ sotServer) ∨
        (s.Pending (a.item itemID).collection (a.item itemID).id ∧
          (a.fetchError itemID = none → a.Applies host m itemID s.world)) := by
  rw [visited_checkIn hbase hlisted, tail_cons]
  refine forall₂_congr fun itemID hitem => ?_
  have hnames := hids itemID hitem
  let after := s.remark fun state => state.recordCheckinSuccess sotServer
  have hvisited : (checkInListed m sotServer ids).visited (a.handle host) s =
      s :: (applyListed m ids (.ok ())).visited (a.handle host) after := rfl
  have hafter : m.StaleSlot after (a.item itemID).id ↔
      m.StaleSlot s (a.item itemID).id ∧ m.sotOf (a.item itemID).id ≠ sotServer := by
    have hleft : after.staleSOT = s.staleSOT.filter fun sot => sot ≠ sotServer := by
      cases hmarks : s.marks <;>
        simp [after, MemberState.remark, MemberState.staleSOT, hmarks,
          ReadMemberState.recordCheckinSuccess]
    simp only [Engine.StaleSlot, hleft, mem_filter, decide_eq_true_eq, and_assoc]
  have hpending : after.Pending (a.item itemID).collection (a.item itemID).id ↔
      s.Pending (a.item itemID).collection (a.item itemID).id := by
    simp [after, MemberState.remark, MemberState.Pending, ReadMemberState.recordCheckinSuccess]
  by_cases hshown : m.Shows (a.item itemID) s.world
  · exact ⟨fun _ => .inl hshown, fun _ => .inl hshown⟩
  by_cases hstale : m.StaleSlot after (a.item itemID).id
  · refine ⟨fun _ => .inr (.inl (hafter.mp hstale)), fun _ => until_of_forall fun t ht => ?_⟩
    rw [hvisited, mem_cons] at ht
    rw [Engine.refusesReads_iff]
    rcases ht with rfl | ht
    · exact .inl (hafter.mp hstale).1
    · rw [Engine.StaleSlot, applyListed_staleSOT ids _ ht]
      exact .inl hstale
  -- Neither the write nor a mark of its source of truth is there: only the mark of the document counts.
  have hnot : ¬ (m.StaleSlot s (a.item itemID).id ∧ m.sotOf (a.item itemID).id ≠ sotServer) :=
    mt hafter.mpr hstale
  rw [or_iff_right hshown, or_iff_right hnot, Engine.RefusedUntilShown, hvisited]
  by_cases hmarked : s.Pending (a.item itemID).collection (a.item itemID).id
  · have hloop := @applyListed_refused ν host a m after itemID ids hnames hids (.ok ())
      (hpending.mpr hmarked) hstale hshown
    refine ⟨fun h => ⟨hmarked, ?_⟩, fun h => .inr ⟨Engine.refusesReads_iff.mpr (.inr hmarked), ?_⟩⟩
    · exact hloop.mp (h.resolve_left hshown).2 hitem
    · exact hloop.mpr fun _ => h.2
  · refine ⟨fun h => absurd (h.resolve_left hshown).2 ?_, fun h => absurd h.1 hmarked⟩
    have hopen : ¬ m.RefusesReads (a.item itemID).collection (a.item itemID).id after := by
      rw [Engine.refusesReads_iff]
      exact fun h => h.elim hstale (mt hpending.mp hmarked)
    obtain ⟨states, hstates⟩ := @visited_eq_cons (MemberState ν) _ _ _ (a.handle host)
      (applyListed m ids (.ok ())) after
    rw [hstates]
    exact fun h => h.head.elim hshown hopen
end
namespace Sample
def betaReader : Engine :=
  { member with cfg := { config with baseURLs := [("alpha", "http://alpha")] } }

def missedPatch : WorkItem :=
  ⟨"Movies", "alien", "v1", "v2", "op", .patch, [],
    some (.obj [("!", .str "alien"), ("#", .str "v2"), ("title", .str "Aliens")])⟩

def listsPatch : SourceAnswers where
  listed := .ok ["beta-alien"]
  item _ := missedPatch
  fetchError _ := none
  completed _ := .ok ()
  faults _ := .none

theorem listsPatch_names : ∀ itemID ∈ ["beta-alien"], listsPatch.Names betaReader itemID := by
  intro itemID hitem
  rw [mem_singleton.mp hitem]
  exact ⟨by decide +kernel, Sample.alien_id, by decide⟩

def marking (docs : List String) : ReadMemberState := { staleSOT := [], pendingDocs := docs }

def outdated : JsonFields :=
  [("!", .str "alien"), ("#", .str "v1"), ("$", .str "Movies:1"), ("title", .str "Alien")]

def behind (docs : List String) : MemberState Unit where
  world := emptyWorld.put (betaReader.live "Movies" "alien") (some (.json (.obj outdated)))
  marks := some (marking docs)

def readBehind (docs : List String) : Result :=
  ((read { betaReader with readState := some (marking docs) } readRequest).run (exec host .none)
    (behind docs).world).1

theorem patch_applies (docs : List String) :
    listsPatch.Applies host betaReader "beta-alien" (behind docs).world := by
  have hid : DocumentId missedPatch.id := Sample.alien_id
  have hcarries : missedPatch.Carries := ⟨by simp [missedPatch], by decide⟩
  obtain ⟨-, hlive⟩ := run_applyItem_live ⟨rfl, rfl⟩ hid hcarries betaReader host (behind docs).world
  have hbehind : (behind docs).world.files (betaReader.live missedPatch.collection missedPatch.id) =
      some (.json (.obj outdated)) := World.put_files_same _ _ _
  rw [hbehind] at hlive
  exact ⟨_, final_mem_visited _ _ _,
    (Engine.shows_iff (show missedPatch.command ≠ .delete by decide)).mpr ⟨_, hlive, rfl⟩⟩
end Sample
open Sample
theorem known_stale_refused_marked : betaReader.RefusedUntilShown missedPatch
      ((CatchUpAgent.checkIn id betaReader "alpha").visited (listsPatch.handle host)
        (behind ["Movies/alien"])).tail := by
  have hmarked : docKey missedPatch.collection missedPatch.id ∈
      (marking ["Movies/alien"]).pendingDocs := by decide +kernel
  refine (known_stale_refused (by decide +kernel) rfl listsPatch_names).mpr
    (fun itemID hitem => .inr (.inr ⟨⟨_, rfl, hmarked⟩, fun _ => ?_⟩)) "beta-alien"
    mem_cons_self
  exact patch_applies _

/-- A listed movie that nothing has marked is read in its old version. -/
theorem known_stale_served : (∀ itemID ∈ ["beta-alien"], listsPatch.Names betaReader itemID) ∧
      listsPatch.listed = .ok ["beta-alien"] ∧
      ¬ betaReader.RefusedUntilShown missedPatch
        ((CatchUpAgent.checkIn id betaReader "alpha").visited (listsPatch.handle host)
          (behind [])).tail ∧
      (readBehind []).ok = true ∧
      ((readBehind []).sot.bind (Fields.get? "#")).map Json.sprint = some "v1" := by
  refine ⟨listsPatch_names, rfl, fun h => ?_, by decide +kernel, by decide +kernel⟩
  rw [visited_checkIn (by decide +kernel) rfl, tail_cons] at h
  obtain ⟨states, hstates⟩ := @visited_eq_cons (MemberState Unit) _ _ _
    (listsPatch.handle host) (checkInListed betaReader "alpha" ["beta-alien"])
    (behind [])
  rw [Engine.RefusedUntilShown, hstates] at h
  rcases h.head with hshows | hrefuses
  · obtain ⟨fields, hfile, hversion⟩ :=
      (Engine.shows_iff (show missedPatch.command ≠ .delete by decide)).mp hshows
    have hbehind := hfile.symm.trans (World.put_files_same _ _ _)
    cases hbehind
    exact absurd hversion (by decide)
  · rcases Engine.refusesReads_iff.mp hrefuses with ⟨-, -, hstale⟩ | ⟨state, hstate, hkey⟩
    · cases hstale
    · cases hstate
      cases hkey
end Datorium
