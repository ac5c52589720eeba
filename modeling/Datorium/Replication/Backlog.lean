
import Datorium.Replication.Apply
/-!
# The backlog of a member

A member that does not acknowledge a write gets its work item in its slot for the document, one slot
for all writes of the document.
-/
namespace Datorium
open Framework Program List
/-- `deliverReplicas` with the members that acknowledged. -/
def replicasAcked (e : Engine) (item : WorkItem) : Prog (List String × Option Note) :=
  if e.replicates then do
    let outcome ← replicateDocumentWrite e item (e.targets item.id)
    pure (outcome.acknowledged, if outcome.complete then none else some (buildNote outcome))
  else pure ([], none)

/-- `deliverOnce` with the members that acknowledged. -/
def deliverAcked (e : Engine) (item : WorkItem) (result : Result) :
    Prog (List String × Result) := do
  let replicas ← replicasAcked e item
  let derivedComplete ← deliverDerived e item
  pure (replicas.1, { result with
    note := replicas.2, distributionComplete := some (replicas.2.isNone && derivedComplete) })

def served (e : Engine) (req : Request) : Prog (Option (WorkItem × List String) × Result) := do
  match ← commit e req with
  | .error res => pure (none, res)
  | .ok committed => do
      let delivered ← deliverAcked e committed.1 committed.2
      pure (some (committed.1, delivered.1), delivered.2)

theorem deliverAcked_result (e : Engine) (item : WorkItem) (result : Result) :
    (deliverAcked e item result).bind (fun r => .done r.2) = deliverOnce e item result := by
  simp only [deliverAcked, deliverOnce, replicasAcked, deliverReplicas, bind_eq,
    pure_eq, bind_assoc]
  cases e.replicates with
  | true =>
    simp only [if_true, bind_assoc]
    rfl
  | false => rfl

section
variable {ν : Type} {host : Host ν} {e : Engine} {w w' : World ν} {item : WorkItem}
  {coll docId target : String}
theorem Engine.slot_eq (hc : e.cfg.Configured coll) (hid : DocumentId docId)
    (ht : '/' ∉ target.toList) : pendingWritePath e.dataDir coll target docId =
      e.dataDir ++ [coll, ".pendingWrites", target ++ "." ++ docId ++ ".json"] :=
  pendingWritePath_eq (e.cfg.plainNames coll hc) hid ht

theorem Engine.slot_ne (hc : e.cfg.Configured coll) (hid : DocumentId docId)
    (ht : '/' ∉ target.toList) {other : String} (ho : '/' ∉ other.toList) (hne : target ≠ other) :
    pendingWritePath e.dataDir coll target docId ≠ pendingWritePath e.dataDir coll other docId := by
  rw [e.slot_eq hc hid ht, e.slot_eq hc hid ho]
  intro heq
  simp only [append_cancel_left_eq, cons.injEq, and_true, true_and] at heq
  have hlist := congrArg String.toList heq
  simp only [String.toList_append, append_assoc, append_cancel_right_eq] at hlist
  exact hne (String.toList_inj.mp hlist)

theorem Engine.slot_apart (hc : e.cfg.Configured coll) (hid : DocumentId docId)
    (ht : '/' ∉ target.toList) :
    Apart e coll docId (pendingWritePath e.dataDir coll target docId) := by
  have hplain := e.cfg.plainNames coll hc
  rw [e.slot_eq hc hid ht]
  constructor
  · rw [e.live_eq hc hid]
    simp
  · rw [e.previous_eq hc hid]
    simp
  · rw [filesManifestPath_eq hplain hid]
    simp
  · rw [lfsDir_eq hplain hid]
    simp
  · rw [fileOpsDir_eq hplain hid]
    simp
  · intro change
    rw [queuePath_eq hplain hid]
    simp

theorem processes_avoids_slot {change : Command} (hc : e.cfg.Configured coll)
    (hid : DocumentId docId) (ht : '/' ∉ target.toList) :
    Processes (fun op => op.call.Avoids (pendingWritePath e.dataDir coll target docId)) e
      change coll docId := by
  have hplain := e.cfg.plainNames coll hc
  have happart := e.slot_apart hc hid ht
  have htaken : takenQueuePath e.dataDir change coll docId ≠
      pendingWritePath e.dataDir coll target docId := by
    rw [e.slot_eq hc hid ht, takenQueuePath_eq hplain hid]
    simp
  exact {
    passive := (permits_avoids _ id .delivering).observes
    fanOut := fun _ _ => trivial
    index := fun _ _ => trivial
    claim := ⟨(happart.queue change).symm, htaken⟩
    dropPrevious := happart.previous.symm
    dropTaken := htaken }

theorem run_pushOne_files (t : String) :
    ((pushOne e.cfg t item).run (exec host .none) w).2.files = w.files := by
  unfold pushOne
  split
  · rfl
  · split <;> rfl

theorem run_pushAll_slot (hc : e.cfg.Configured item.collection) (hid : DocumentId item.id)
    (ht : '/' ∉ target.toList) {targets : List String} (hplain : ∀ t ∈ targets, '/' ∉ t.toList)
    (hnodup : targets.Nodup) (w : World ν) :
    (∀ t ∈ ((pushAll e item targets).run (exec host .none) w).1.1, t ∈ targets) ∧
    ((pushAll e item targets).run (exec host .none) w).2.files
        (pendingWritePath e.dataDir item.collection target item.id) =
      if target ∈ targets ∧ target ∉ ((pushAll e item targets).run (exec host .none) w).1.1
      then some (.json item.toJson)
      else w.files (pendingWritePath e.dataDir item.collection target item.id) := by
  induction targets generalizing w with
  | nil => simp [pushAll]
  | cons t targets ih =>
    obtain ⟨hfirst, hrest⟩ := nodup_cons.mp hnodup
    have ih := ih (fun u hu => hplain u (mem_cons_of_mem _ hu)) hrest
    simp only [pushAll, bind_eq, run_bind]
    rcases hpush : (pushOne e.cfg t item).run (exec host .none) w with ⟨acked, w₁⟩
    have hfiles : w₁.files = w.files := by
      have h := @run_pushOne_files ν host e w item t
      rwa [hpush] at h
    cases acked with
    | true =>
      obtain ⟨hsub, hslot⟩ := ih w₁
      simp only [if_true, run_bind, pure_eq, run_done]
      refine ⟨fun u hu => ?_, ?_⟩
      · rcases mem_cons.mp hu with rfl | hu
        · exact mem_cons_self
        · exact mem_cons_of_mem _ (hsub u hu)
      · rw [hslot, hfiles]
        by_cases htt : target = t
        · subst htt
          simp [hfirst]
        · simp [htt]
    | false =>
      have hwrite : (writePendingWrite e.dataDir item.collection t item).run
          (exec host .none) w₁ = (.ok (), w₁.put
            (pendingWritePath e.dataDir item.collection t item.id) (some (.json item.toJson))) :=
        run_writeFileAtomic_ok (fun _ => rfl) _ _
      obtain ⟨hsub, hslot⟩ := ih (w₁.put
        (pendingWritePath e.dataDir item.collection t item.id) (some (.json item.toJson)))
      simp only [Bool.false_eq_true, if_false, run_bind, hwrite, pure_eq, run_done]
      refine ⟨fun u hu => mem_cons_of_mem _ (hsub u hu), ?_⟩
      rw [hslot]
      by_cases htt : target = t
      · subst htt
        have hnot : target ∉ ((pushAll e item targets).run (exec host .none) (w₁.put
            (pendingWritePath e.dataDir item.collection target item.id)
              (some (.json item.toJson)))).1.1 := fun hmem => hfirst (hsub _ hmem)
        simp [hfirst, hnot]
      · rw [World.put_files_other _ (e.slot_ne hc hid ht (hplain t mem_cons_self) htt), hfiles]
        simp [htt]

def Engine.Sends (e : Engine) (target docId : String) : Prop :=
  e.replicates = true ∧ target ∈ e.targets docId

instance (e : Engine) (target docId : String) : Decidable (e.Sends target docId) :=
  inferInstanceAs (Decidable (_ ∧ _))

theorem Engine.targets_nodup (e : Engine) (docId : String) : (e.targets docId).Nodup :=
  targetsForAssignment_nodup _ _

theorem run_replicasAcked_slot (hc : e.cfg.Configured item.collection) (hid : DocumentId item.id)
    (he : e.PlainTargets) (ht : '/' ∉ target.toList) (w : World ν) :
    (target ∈ ((replicasAcked e item).run (exec host .none) w).1.1 → e.Sends target item.id) ∧
    ((replicasAcked e item).run (exec host .none) w).2.files
        (pendingWritePath e.dataDir item.collection target item.id) =
      if e.Sends target item.id ∧ target ∉ ((replicasAcked e item).run (exec host .none) w).1.1
      then some (.json item.toJson)
      else w.files (pendingWritePath e.dataDir item.collection target item.id) := by
  cases hrep : e.replicates with
  | false => simp [replicasAcked, Engine.Sends, hrep]
  | true =>
    obtain ⟨hsub, hslot⟩ := @run_pushAll_slot ν host e item target hc hid ht
      (e.targets item.id) (he item.id) (e.targets_nodup item.id) w
    simp only [replicasAcked, hrep, if_true, replicateDocumentWrite, bind_eq,
      pure_eq, run_bind, run_done, Engine.Sends, true_and]
    exact ⟨hsub target, hslot⟩

theorem run_deliverAcked (hc : e.cfg.Configured item.collection) (hid : DocumentId item.id)
    (he : e.PlainTargets) (ht : '/' ∉ target.toList) (result : Result) (w : World ν) :
    (target ∈ ((deliverAcked e item result).run (exec host .none) w).1.1 → e.Sends target item.id) ∧
    ((deliverAcked e item result).run (exec host .none) w).2.files
        (pendingWritePath e.dataDir item.collection target item.id) =
      (if e.Sends target item.id ∧
          target ∉ ((deliverAcked e item result).run (exec host .none) w).1.1
      then some (.json item.toJson)
      else w.files (pendingWritePath e.dataDir item.collection target item.id)) ∧
    ((deliverAcked e item result).run (exec host .none) w).2.files
      (e.live item.collection item.id) = w.files (e.live item.collection item.id) := by
  obtain ⟨hsent, hslot⟩ := @run_replicasAcked_slot ν host e item target hc hid he ht w
  have hlive : ((deliverAcked e item result).run (exec host .none) w).2.files
      (e.live item.collection item.id) = w.files (e.live item.collection item.id) := by
    have hkeep : ((deliverOnce e item result).run (exec host .none) w).2.files
        (e.live item.collection item.id) = w.files (e.live item.collection item.id) :=
      (keeps_deliverOnce_live he hc hid ⟨_, _, hc, hid, rfl⟩ result).run
    rw [← deliverAcked_result, run_bind] at hkeep
    exact hkeep
  have hderived : Keeps (pendingWritePath e.dataDir item.collection target item.id)
      (deliverDerived e item) := by
    unfold deliverDerived
    split
    · exact only_processNow (processes_avoids_slot hc hid ht)
    · trivial
  refine ⟨?_, ?_, hlive⟩
  · simpa [deliverAcked] using hsent
  · simp only [deliverAcked, bind_eq, run_bind, pure_eq, run_done]
    rw [hderived.run]
    exact hslot
end

structure Backlog (ν : Type) where
  world : World ν
  history : List (WorkItem × Bool)

def acknowledgedBy (target : String) : Option (WorkItem × List String) → List (WorkItem × Bool)
  | none => []
  | some (item, acked) => [(item, decide (target ∈ acked))]

def Backlog.serve {ν : Type} (e : Engine) (host : Host ν) (target : String) (s : Backlog ν)
    (req : Request) : Backlog ν where
  world := ((served e req).run (exec host .none) s.world).2
  history := s.history ++
    acknowledgedBy target ((served e req).run (exec host .none) s.world).1.1

structure Request.Writes (req : Request) (collection docId : String) : Prop where
  target : req.target = collection
  parameter : req.parameter = docId
  command : req.command ≠ .read

structure Served {ν : Type} (e : Engine) (host : Host ν) (target collection docId : String)
    (s s' : Backlog ν) (item : WorkItem) (acked : Bool) : Prop where
  history : s'.history = s.history ++ [(item, acked)]
  about : item.collection = collection ∧ item.id = docId
  valid : DocumentId docId
  carries : item.Carries
  live : s'.world.files (e.live collection docId) = item.payload.map File.json
  version : ∀ doc, item.payload = some doc → doc.get? "#" = some (.str item.afterVersion)
  drawn : item.command ≠ .delete →
    ∃ n, s.world.issued ≤ n ∧ n < s'.world.issued ∧ item.afterVersion = host.ids n
  sent : acked = true → e.Sends target docId
  slot : s'.world.files (pendingWritePath e.dataDir collection target docId) =
    if e.Sends target docId ∧ acked = false then some (.json item.toJson)
    else s.world.files (pendingWritePath e.dataDir collection target docId)

section
variable {ν : Type} {host : Host ν} {e : Engine} {coll docId target : String}
  {s : Backlog ν} {req : Request}
theorem serve_cases (hc : e.cfg.Configured coll) (he : e.PlainTargets)
    (ht : '/' ∉ target.toList) (hreq : req.Writes coll docId) (s : Backlog ν) :
    ((s.serve e host target req).history = s.history ∧
      (s.serve e host target req).world.files = s.world.files) ∨
    ∃ item acked, Served e host target coll docId s (s.serve e host target req) item acked := by
  obtain ⟨rfl, rfl, hcmd⟩ := hreq
  rcases hcommit : (commit e req).run (exec host .none) s.world with ⟨res | ⟨item, res⟩, w₁⟩
  · left
    simp only [Backlog.serve, served, bind_eq, run_bind, hcommit, pure_eq,
      run_done, acknowledgedBy, append_nil, true_and]
    exact commit_refused hcmd hcommit
  · right
    have hitem := commit_item hcommit
    have hc' : e.cfg.Configured item.collection := hitem.collection ▸ hc
    have hid : DocumentId item.id := hitem.id ▸ hitem.valid
    obtain ⟨hsent, hslot, hlive⟩ := @run_deliverAcked ν host e item target hc' hid he ht res w₁
    have hissued := @issued_le_run ν _ host .none (deliverAcked e item res) w₁
    have hframe := commit_frame (e.slot_apart hc hitem.valid ht) hcommit
    rw [hitem.id] at hsent
    rw [hitem.collection, hitem.id] at hslot hlive
    refine ⟨item, decide (target ∈ ((deliverAcked e item res).run (exec host .none) w₁).1.1), ?_⟩
    constructor
    · simp [Backlog.serve, served, hcommit, acknowledgedBy]
    · exact ⟨hitem.collection, hitem.id⟩
    · exact hitem.valid
    · exact ⟨by rw [hitem.command]; exact hitem.gone, by rw [hitem.command]; exact hitem.written⟩
    · simp only [Backlog.serve, served, bind_eq, run_bind, hcommit, pure_eq, run_done]
      rw [hlive]
      exact hitem.live
    · exact hitem.version
    · intro hne
      obtain ⟨n, hle, hlt, hn⟩ := hitem.drawn (by rwa [← hitem.command])
      refine ⟨n, hle, Nat.lt_of_lt_of_le hlt ?_, hn⟩
      simpa [Backlog.serve, served, hcommit] using hissued
    · intro hacked
      exact hsent (of_decide_eq_true hacked)
    · simp only [Backlog.serve, served, bind_eq, run_bind, hcommit,
        pure_eq, run_done, decide_eq_false_iff_not]
      rw [hslot, hframe]
end

structure LastCommitted {ν : Type} (e : Engine) (collection docId : String) (s : Backlog ν)
    (item : WorkItem) (acked : Bool) : Prop where
  history : ∃ before, s.history = before ++ [(item, acked)]
  about : item.collection = collection ∧ item.id = docId
  valid : DocumentId docId
  carries : item.Carries
  live : s.world.files (e.live collection docId) = item.payload.map File.json

def Backlog.NoneSuperseded {ν : Type} (e : Engine) (target collection docId : String)
    (s : Backlog ν) : Prop :=
  ∀ file, s.world.files (pendingWritePath e.dataDir collection target docId) = some file →
    ∃ before item acked after, s.history = before ++ (item, acked) :: after ∧
      file = .json item.toJson ∧ ∀ later ∈ after, later.2 = false

def Backlog.DrainsForward {ν : Type} (e : Engine) (target collection docId : String)
    (s : Backlog ν) : Prop :=
  ∀ item : WorkItem, s.world.files (pendingWritePath e.dataDir collection target docId) =
      some (.json item.toJson) →
    ∀ (μ : Type) (m : Engine) (host : Host μ) (w : World μ),
      ((applyItem m.dataDir m.ojson item).run (exec host .none) w).2.files
          (m.live collection docId) = w.files (m.live collection docId) ∨
        ((applyItem m.dataDir m.ojson item).run (exec host .none) w).2.files
          (m.live collection docId) = s.world.files (e.live collection docId)

def CarefulStep {ν : Type} (e : Engine) (host : Host ν) (target collection docId : String)
    (s s' : Backlog ν) : Prop :=
  ∃ req : Request, req.Writes collection docId ∧ s' = s.serve e host target req ∧
    ((∃ item, s'.history = s.history ++ [(item, true)]) →
      s.world.files (pendingWritePath e.dataDir collection target docId) = none)

theorem WorkItem.toJson_injective : Function.Injective WorkItem.toJson := by
  intro a b h
  have hdecoded := congrArg WorkItem.ofJson h
  rw [WorkItem.ofJson_toJson, WorkItem.ofJson_toJson] at hdecoded
  exact Option.some.inj hdecoded

section
variable {ν : Type} {host : Host ν} {e : Engine} {coll docId target : String}
  {s s' : Backlog ν} {item : WorkItem} {acked : Bool}
theorem Served.last (h : Served e host target coll docId s s' item acked) :
    LastCommitted e coll docId s' item acked :=
  ⟨⟨s.history, h.history⟩, h.about, h.valid, h.carries, h.live⟩

theorem LastCommitted.refused (h : LastCommitted e coll docId s item acked)
    (hhistory : s'.history = s.history) (hfiles : s'.world.files = s.world.files) :
    LastCommitted e coll docId s' item acked :=
  ⟨hhistory ▸ h.history, h.about, h.valid, h.carries, hfiles ▸ h.live⟩

theorem LastCommitted.drain (h : LastCommitted e coll docId s item acked) {μ : Type}
    (m : Engine) (host : Host μ) (w : World μ) :
    ((applyItem m.dataDir m.ojson item).run (exec host .none) w).2.files
        (m.live coll docId) = w.files (m.live coll docId) ∨
      ((applyItem m.dataDir m.ojson item).run (exec host .none) w).2.files
        (m.live coll docId) = s.world.files (e.live coll docId) := by
  rw [(run_applyItem_live h.about h.valid h.carries m host w).2, h.live]
  exact item.effect_cases h.carries _

def Backlog.HoldsLast (e : Engine) (target collection docId : String) (s : Backlog ν) : Prop :=
  ∀ file, s.world.files (pendingWritePath e.dataDir collection target docId) = some file →
    e.Sends target docId ∧ ∃ item, file = .json item.toJson ∧
      LastCommitted e collection docId s item false

theorem CarefulStep.holdsLast (hc : e.cfg.Configured coll) (he : e.PlainTargets)
    (ht : '/' ∉ target.toList) (hstep : CarefulStep e host target coll docId s s')
    (hs : s.HoldsLast e target coll docId) : s'.HoldsLast e target coll docId := by
  obtain ⟨req, hreq, rfl, hcareful⟩ := hstep
  intro file hfile
  rcases serve_cases hc he ht hreq s with ⟨hhistory, hfiles⟩ | ⟨item, acked, hserved⟩
  · rw [hfiles] at hfile
    obtain ⟨hsends, item, hitem, hlast⟩ := hs file hfile
    exact ⟨hsends, item, hitem, hlast.refused hhistory hfiles⟩
  · cases acked with
    | true =>
      -- The slot was empty before, and an acknowledged write leaves it so.
      rw [hserved.slot, if_neg (by simp), hcareful ⟨item, hserved.history⟩] at hfile
      cases hfile
    | false =>
      by_cases hsends : e.Sends target docId
      · rw [hserved.slot, if_pos ⟨hsends, rfl⟩] at hfile
        cases hfile
        exact ⟨hsends, item, rfl, hserved.last⟩
      · rw [hserved.slot, if_neg (fun h => hsends h.1)] at hfile
        exact absurd (hs file hfile).1 hsends

/-- In every run in which the member acknowledges a write only while its slot is empty, no item in
the slot is superseded and draining never moves a member back. -/
theorem no_superseded_pending (hc : e.cfg.Configured coll) (he : e.PlainTargets)
    (ht : '/' ∉ target.toList) {start : Backlog ν}
    (hempty : start.world.files (pendingWritePath e.dataDir coll target docId) = none)
    (hrun : Relation.ReflTransGen (CarefulStep e host target coll docId) start s) :
    s.NoneSuperseded e target coll docId ∧ s.DrainsForward e target coll docId := by
  have hlast : s.HoldsLast e target coll docId := by
    induction hrun with
    | refl =>
      intro file hfile
      rw [hempty] at hfile
      cases hfile
    | tail _ hstep ih => exact hstep.holdsLast hc he ht ih
  constructor
  · intro file hfile
    obtain ⟨-, item, hitem, hcommitted⟩ := hlast file hfile
    obtain ⟨before, hbefore⟩ := hcommitted.history
    exact ⟨before, item, false, [], hbefore, hitem, by simp⟩
  · intro item hfile μ m host w
    obtain ⟨-, item', hitem, hcommitted⟩ := hlast _ hfile
    obtain rfl : item = item' := WorkItem.toJson_injective (File.json.inj hitem)
    exact hcommitted.drain m host w

theorem Backlog.NoneSuperseded.last (h : s.NoneSuperseded e target coll docId) {file : File}
    (hfile : s.world.files (pendingWritePath e.dataDir coll target docId) = some file)
    {before : List (WorkItem × Bool)} (hlast : s.history = before ++ [(item, true)]) :
    file = .json item.toJson := by
  obtain ⟨before', item', acked, after, hsplit, hitem, hafter⟩ := h file hfile
  rcases eq_nil_or_concat after with rfl | ⟨after', entry, rfl⟩
  · rw [hlast] at hsplit
    have hentry := (append_inj_right' hsplit rfl)
    simp only [cons.injEq, Prod.mk.injEq, and_true] at hentry
    rw [hitem, hentry.1]
  · rw [hlast, concat_eq_append, ← cons_append, ← append_assoc] at hsplit
    have hentry := (append_inj_right' hsplit rfl)
    simp only [cons.injEq, and_true] at hentry
    have hfalse := hafter entry (by simp)
    rw [← hentry] at hfalse
    cases hfalse
end

def pendingItem : Option File → Option WorkItem
  | some (.json v) => WorkItem.ofJson v
  | _ => none

theorem pendingItem_toJson (item : WorkItem) :
    pendingItem (some (.json item.toJson)) = some item := item.ofJson_toJson

namespace Sample
def pairedHost : Host (List Bool × World Unit) where
  ids := host.ids
  push _ item st :=
    match st.1 with
    | true :: pattern =>
      let r := (handleApplyDocumentWrite member machine "beta" item).run (exec host .none) st.2
      (r.1.acknowledges, pattern, r.2)
    | _ :: pattern => (false, pattern, st.2)
    | [] => (false, [], st.2)
  fanOut _ _ st := (.ok true, st)
  index _ _ _ _ st := (.ok (), st)

def paired (pattern : List Bool) : Backlog (List Bool × World Unit) :=
  ⟨⟨fun _ => none, 0, pattern, emptyWorld⟩, []⟩

def servedAll (pattern : List Bool) (reqs : List Request) : Backlog (List Bool × World Unit) :=
  reqs.foldl (fun s req => s.serve server pairedHost "beta" req) (paired pattern)

def betaSlot : Path := pendingWritePath server.dataDir "Movies" "beta" "alien"

def versionOf : Option File → Option String
  | some (.json doc) => some (documentVersion doc)
  | _ => none

def drainedVersion (item : WorkItem) (w : World Unit) : Option String :=
  versionOf ((delivered .none item w).files (member.live "Movies" "alien"))
end Sample
open Sample
theorem no_superseded_create :
    (servedAll [false] [createRequest]).NoneSuperseded server "beta" "Movies" "alien" ∧
      (servedAll [false] [createRequest]).DrainsForward server "beta" "Movies" "alien" :=
  have hempty : (paired [false]).world.files betaSlot = none := rfl
  no_superseded_pending (by decide) server_plainTargets (by decide) hempty
    (.single ⟨createRequest, ⟨rfl, rfl, by decide⟩, rfl, fun _ => rfl⟩)

/-- A patch that did not get through stays in the slot when the next one is acknowledged; draining
it takes the member back. -/
theorem superseded_pending : ¬ (servedAll [true, false, true] [createRequest, patchRequest "v1",
        patchRequest "v2"]).NoneSuperseded server "beta" "Movies" "alien" ∧
      ∃ item, pendingItem ((servedAll [true, false, true] [createRequest,
          patchRequest "v1", patchRequest "v2"]).world.files betaSlot) = some item ∧
        versionOf ((servedAll [true, false, true] [createRequest,
          patchRequest "v1", patchRequest "v2"]).world.outside.2.files
            (member.live "Movies" "alien")) = some "v4" ∧
        drainedVersion item (servedAll [true, false, true] [createRequest,
          patchRequest "v1", patchRequest "v2"]).world.outside.2 = some "v2" := by
  generalize hs : servedAll [true, false, true] [createRequest,
    patchRequest "v1", patchRequest "v2"] = s
  have hhistory : (s.history.getLast?.map fun entry => (entry.1.afterVersion, entry.2)) =
      some ("v4", true) := by
    rw [← hs]
    decide +kernel
  have hpending : ((pendingItem (s.world.files betaSlot)).any fun item =>
      item.afterVersion = "v2" ∧ drainedVersion item s.world.outside.2 = some "v2") =
        true := by
    rw [← hs]
    decide +kernel
  have hmember : versionOf (s.world.outside.2.files
      (member.live "Movies" "alien")) = some "v4" := by
    rw [← hs]
    decide +kernel
  obtain ⟨item, hitem, hfacts⟩ := (Option.any_eq_true _ _).mp hpending
  obtain ⟨hafter, hdrained⟩ := of_decide_eq_true hfacts
  refine ⟨fun h => ?_, item, hitem, hmember, hdrained⟩
  obtain ⟨⟨last, acked⟩, hlast, hentry⟩ := Option.map_eq_some_iff.mp hhistory
  obtain ⟨before, hbefore⟩ := getLast?_eq_some_iff.mp hlast
  obtain ⟨hversion, rfl⟩ := Prod.mk.inj hentry
  cases hfile : s.world.files betaSlot with
  | none =>
    rw [hfile] at hitem
    cases hitem
  | some file =>
    rw [hfile, h.last hfile hbefore, pendingItem_toJson] at hitem
    cases hitem
    rw [hversion] at hafter
    exact absurd hafter (by decide)

def Coalesces (last : Command) (held : Option File) : Prop :=
  match last with
  | .create => ∀ fields, held ≠ some (.json (.obj fields))
  | .patch => ∃ doc, held = some (.json doc)
  | .delete => held = none ∨ ∃ fields, held = some (.json (.obj fields))
  | .read => False

def FailedStep {ν : Type} (e : Engine) (host : Host ν) (target collection docId : String)
    (s s' : Backlog ν) : Prop :=
  ∃ req : Request, req.Writes collection docId ∧ s' = s.serve e host target req ∧
    ¬ ∃ item, s'.history = s.history ++ [(item, true)]

theorem effect_coalesces {item : WorkItem} (hc : item.Carries) {held : Option File}
    (hdrawn : item.command ≠ .delete → item.afterVersion ≠ "")
    (hfresh : ∀ doc, held = some (.json doc) → item.command ≠ .delete →
      documentVersion doc ≠ item.afterVersion) :
    ((item.effect held).1 = true ∧ (item.effect held).2 = item.payload.map .json) ↔
      Coalesces item.command held := by
  cases hcmd : item.command with
  | create =>
    by_cases hheld : ∃ fields, held = some (.json (.obj fields))
    · obtain ⟨fields, rfl⟩ := hheld
      have hne : Json.asString (Fields.get? "#" fields) ≠ item.afterVersion := by
        intro hversion
        have hnonempty : Json.asString (Fields.get? "#" fields) ≠ "" := by
          rw [hversion]
          exact hdrawn (by rw [hcmd]; decide)
        exact hfresh _ rfl (by rw [hcmd]; decide) ((Json.text_of_asString hnonempty).trans hversion)
      simp [WorkItem.effect, hcmd, hne, Coalesces]
    · have hother : ∀ fields, held ≠ some (.json (.obj fields)) := by simpa using hheld
      rw [effect_create_other hcmd hother]
      simpa [Coalesces] using hother
  | patch =>
    by_cases hheld : ∃ doc, held = some (.json doc)
    · obtain ⟨doc, rfl⟩ := hheld
      have hne := hfresh doc rfl (by rw [hcmd]; decide)
      simp [WorkItem.effect, hcmd, hne, Coalesces]
    · have heffect : item.effect held = (false, held) := by
        unfold WorkItem.effect
        rw [hcmd]
        split <;> simp_all
      simpa [heffect, Coalesces] using hheld
  | delete =>
    rw [hc.gone.mpr hcmd]
    by_cases hheld : ∃ fields, held = some (.json (.obj fields))
    · obtain ⟨fields, rfl⟩ := hheld
      simp [WorkItem.effect, hcmd, Coalesces]
    · have hother : ∀ fields, held ≠ some (.json (.obj fields)) := by simpa using hheld
      rw [effect_delete_other hcmd hother]
      simp [Coalesces, hother]
  | read => exact absurd hcmd hc.written

section
variable {ν μ : Type} {host : Host ν} {e : Engine} {coll docId target : String}
  {s s' start : Backlog ν}
/-- The slot holds the last item, whose version was drawn during the run. -/
structure Undelivered (e : Engine) (host : Host ν) (target collection docId : String)
    (start s : Backlog ν) : Prop where
  issued : start.world.issued ≤ s.world.issued
  slot : s.history ≠ [] → ∃ item, LastCommitted e collection docId s item false ∧
    s.world.files (pendingWritePath e.dataDir collection target docId) = some (.json item.toJson) ∧
    (item.command ≠ .delete → ∃ n, start.world.issued ≤ n ∧ item.afterVersion = host.ids n)

theorem Undelivered.step (hc : e.cfg.Configured coll) (he : e.PlainTargets)
    (ht : '/' ∉ target.toList) (hsends : e.Sends target docId)
    (hstep : FailedStep e host target coll docId s s')
    (hs : Undelivered e host target coll docId start s) :
    Undelivered e host target coll docId start s' := by
  obtain ⟨req, hreq, rfl, hfailed⟩ := hstep
  have hissued : s.world.issued ≤ (s.serve e host target req).world.issued := issued_le_run _ _
  refine ⟨Nat.le_trans hs.issued hissued, fun hne => ?_⟩
  rcases serve_cases hc he ht hreq s with ⟨hhistory, hfiles⟩ | ⟨item, acked, hserved⟩
  · rw [hhistory] at hne
    obtain ⟨item, hlast, hslot, hdrawn⟩ := hs.slot hne
    exact ⟨item, hlast.refused hhistory hfiles, by rw [hfiles]; exact hslot, hdrawn⟩
  · cases acked with
    | true => exact absurd ⟨item, hserved.history⟩ hfailed
    | false =>
      refine ⟨item, hserved.last, ?_, fun hdelete => ?_⟩
      · rw [hserved.slot, if_pos ⟨hsends, rfl⟩]
      · obtain ⟨n, hle, -, hn⟩ := hserved.drawn hdelete
        exact ⟨n, Nat.le_trans hs.issued hle, hn⟩

/-- The one item left in the slot stands for all writes exactly when the member holds what the last
command needs to find. -/
theorem coalesced_item_iff (hc : e.cfg.Configured coll) (he : e.PlainTargets)
    (ht : '/' ∉ target.toList) (hsends : e.Sends target docId) (hids : ∀ n, host.ids n ≠ "")
    (hstart : start.history = [])
    (hfresh : ∀ doc, start.world.files (e.live coll docId) = some (.json doc) →
      ∀ n, start.world.issued ≤ n → documentVersion doc ≠ host.ids n)
    (hrun : Relation.ReflTransGen (FailedStep e host target coll docId) start s)
    (hcommitted : s.history ≠ []) (m : Engine) (memberHost : Host μ) (w : World μ)
    (hheld : w.files (m.live coll docId) = start.world.files (e.live coll docId)) :
    ∃ item, s.world.files (pendingWritePath e.dataDir coll target docId) =
        some (.json item.toJson) ∧
      (((applyItem m.dataDir m.ojson item).run (exec memberHost .none) w).1 = .ok true ∧
        ((applyItem m.dataDir m.ojson item).run (exec memberHost .none) w).2.files
          (m.live coll docId) = s.world.files (e.live coll docId) ↔
        Coalesces item.command (start.world.files (e.live coll docId))) := by
  have hundelivered : Undelivered e host target coll docId start s := by
    clear hcommitted
    induction hrun with
    | refl => exact ⟨Nat.le_refl _, fun h => absurd hstart h⟩
    | tail _ hstep ih => exact ih.step hc he ht hsends hstep
  obtain ⟨item, hlast, hslot, hdrawn⟩ := hundelivered.slot hcommitted
  refine ⟨item, hslot, ?_⟩
  obtain ⟨hanswer, hfile⟩ := run_applyItem_live hlast.about hlast.valid hlast.carries m memberHost w
  rw [hanswer, hfile, hlast.live, hheld]
  apply effect_coalesces hlast.carries
  · intro hdelete
    obtain ⟨n, -, hn⟩ := hdrawn hdelete
    rw [hn]
    exact hids n
  · intro doc hdoc hdelete
    obtain ⟨n, hle, hn⟩ := hdrawn hdelete
    rw [hn]
    exact hfresh doc hdoc n hle
end
namespace Sample
theorem server_sends : server.Sends "beta" "alien" :=
  ⟨rfl, by rw [server_targets]; exact mem_singleton.mpr rfl⟩

def refusedBy (item : WorkItem) (w : World Unit) : Bool :=
  match ((applyItem member.dataDir member.ojson item).run (exec host .none) w).1 with
  | .ok _ => false
  | .error _ => true
end Sample

theorem coalesced_create : ∃ item, (servedAll [false] [createRequest]).world.files betaSlot =
        some (.json item.toJson) ∧
      ((applyItem member.dataDir member.ojson item).run (exec host .none) emptyWorld).1 = .ok true ∧
      ((applyItem member.dataDir member.ojson item).run (exec host .none)
        emptyWorld).2.files (member.live "Movies" "alien") =
          (servedAll [false] [createRequest]).world.files (server.live "Movies" "alien") := by
  have hacks : (servedAll [false] [createRequest]).history.map Prod.snd = [false] := by
    decide +kernel
  have hcommand : (pendingItem ((servedAll [false] [createRequest]).world.files
      betaSlot)).map WorkItem.command = some .create := by
    decide +kernel
  have hstep : FailedStep server pairedHost "beta" "Movies" "alien"
      (paired [false]) (servedAll [false] [createRequest]) := by
    refine ⟨createRequest, ⟨rfl, rfl, by decide⟩, rfl, ?_⟩
    rintro ⟨item, hitem⟩
    rw [hitem] at hacks
    simp [paired] at hacks
  have hids : ∀ n, pairedHost.ids n ≠ "" := host_ids_ne
  have hstart : (paired [false]).world.files (server.live "Movies" "alien") = none :=
    rfl
  have hcommitted : (servedAll [false] [createRequest]).history ≠ [] := by
    intro hnil
    rw [hnil] at hacks
    cases hacks
  obtain ⟨item, hslot, hiff⟩ := coalesced_item_iff (by decide) server_plainTargets
    (by decide) server_sends hids rfl (fun _ h => by rw [hstart] at h; cases h)
    (.single hstep) hcommitted member host emptyWorld rfl
  refine ⟨item, hslot, hiff.mpr ?_⟩
  have hpending : pendingItem ((servedAll [false] [createRequest]).world.files
      betaSlot) = some item := by
    rw [betaSlot, hslot, pendingItem_toJson]
  rw [hpending] at hcommand
  rw [Option.some.inj hcommand]
  intro fields hfields
  cases hfields

/-- A patch is refused by a member that never got the create, and a create by a member that still
holds the deleted document. -/
theorem coalesced_item_fails : ((servedAll [false, false] [createRequest, patchRequest
          "v1"]).history.map Prod.snd = [false, false] ∧
      ∃ item, pendingItem ((servedAll [false, false] [createRequest,
          patchRequest "v1"]).world.files betaSlot) = some item ∧
        refusedBy item emptyWorld = true) ∧
      versionOf ((servedAll [true] [createRequest]).world.files
          (server.live "Movies" "alien")) = some "v1" ∧
      versionOf ((servedAll [true] [createRequest]).world.outside.2.files
          (member.live "Movies" "alien")) = some "v1" ∧
      (servedAll [true, false, false] [createRequest, deleteRequest "v1",
          createRequest]).history.map Prod.snd = [true, false, false] ∧
      ∃ item, pendingItem ((servedAll [true, false, false] [createRequest,
          deleteRequest "v1", createRequest]).world.files betaSlot) = some item ∧
        refusedBy item (servedAll [true] [createRequest]).world.outside.2 =
          true := by
  refine ⟨⟨by decide +kernel, ?_⟩, by decide +kernel, by decide +kernel, by decide +kernel, ?_⟩
  · exact (Option.any_eq_true _ _).mp (by decide +kernel)
  · exact (Option.any_eq_true _ _).mp (by decide +kernel)
end Datorium
