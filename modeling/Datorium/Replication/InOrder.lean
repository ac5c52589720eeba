import Datorium.Replication.Reorder
/-!
# Deliveries in order

Items that come in the order of the commits, each any number of times in a row, leave a member with
the document of the source of truth.
-/
namespace Datorium
open Framework Program List
/-- One call of the apply endpoint and whether the source of truth counts it as acknowledged. -/
def Engine.receive {μ : Type} (m : Engine) (claims : Claims) (targetServer : String) (host : Host μ)
    (w : World μ) (item : WorkItem) : Bool × World μ :=
  let ran := (handleApplyDocumentWrite m claims targetServer item).run (exec host .none) w
  (ran.1.acknowledges, ran.2)

/-- The document of the item carries the version the item names. -/
def WorkItem.Stamped (item : WorkItem) : Prop :=
  ∀ doc, item.payload = some doc → doc.get? "#" = some (.str item.afterVersion)

/-- `last` is the item that came last, `rest` are those still to come. -/
structure Inbox (μ : Type) where
  world : World μ
  last : Option WorkItem
  rest : List WorkItem

inductive InOrderStep {μ : Type} (receive : World μ → WorkItem → Bool × World μ) :
    Inbox μ → Inbox μ → Prop
  | next {w last item rest} :
      InOrderStep receive ⟨w, last, item :: rest⟩ ⟨(receive w item).2, some item, rest⟩
  | again {w item rest} :
      InOrderStep receive ⟨w, some item, rest⟩ ⟨(receive w item).2, some item, rest⟩

/-- Every item finds what its command needs, and the last one leaves `final`. -/
def Chained (final : Option File) : Option File → List WorkItem → Prop
  | held, [] => held = final
  | held, item :: rest =>
    Coalesces item.command held ∧ Chained final (item.payload.map .json) rest

theorem Chained.concat {held mid : Option File} {items : List WorkItem} {item : WorkItem}
    (h : Chained mid held items) (hitem : Coalesces item.command mid) :
    Chained (item.payload.map .json) held (items ++ [item]) := by
  induction items generalizing held with
  | nil =>
    cases h
    exact ⟨hitem, rfl⟩
  | cons first rest ih => exact ⟨h.1, ih h.2⟩

section
variable {ν : Type} {host : Host ν} {e : Engine} {w w' : World ν} {req : Request} {item : WorkItem}
  {res : Result} {coll docId target : String} {s s' : Backlog ν}
theorem commit_coalesces (h : (commit e req).run (exec host .none) w = (.ok (item, res), w')) :
    Coalesces item.command (w.files (e.live req.target req.parameter)) := by
  rw [(commit_item h).command]
  unfold commit at h
  cases hcmd : req.command with
  | create =>
    rw [hcmd] at h
    obtain ⟨schemaRaw, doc, -, -, hlocal⟩ := createCommitted_ok h
    intro fields hheld
    have hrefused : CreateRefused e .none req (w.tick (req.operationIdDraws + 1)) := by
      refine ⟨rfl, ?_⟩
      change w.files _ ≠ none
      simp [hheld]
    rw [run_createLocal_refused hrefused] at hlocal
    cases hlocal
  | read => simp [hcmd] at h
  | patch =>
    simp only [hcmd, patchCommitted] at h
    cases hadm : patchAdmission e req with
    | error res => simp [hadm] at h
    | ok schemaRaw =>
      rw [hadm] at h
      obtain ⟨old, new, ops, hready, -, -⟩ := patchLocal_ok hadm (lockedCommit_ok h)
      exact ⟨old, hready.stored⟩
  | delete =>
    simp only [hcmd, deleteCommitted] at h
    cases hadm : deleteAdmission e req with
    | error res => simp [hadm] at h
    | ok u =>
      rw [hadm] at h
      have hlocal := lockedCommit_ok h
      simp only [deleteLocal, bind_eq, run_bind, run_readDocumentJSON] at hlocal
      cases hread : w.readFields false (e.live req.target req.parameter) with
      | error err => simp [hread] at hlocal
      | ok old => exact .inr ⟨old, (readFields_eq_ok.mp hread).2⟩

theorem CommandStep.chained (hc : e.cfg.Configured coll) (he : e.PlainTargets)
    (ht : '/' ∉ target.toList) {held : Option File}
    (hstep : CommandStep e host target coll docId s s')
    (h : Chained (s.world.files (e.live coll docId)) held (s.history.map Prod.fst)) :
    Chained (s'.world.files (e.live coll docId)) held (s'.history.map Prod.fst) := by
  obtain ⟨req, hreq, rfl⟩ := hstep
  rcases serve_cases hc he ht hreq s with ⟨hhistory, hfiles⟩ | ⟨item, acked, hserved⟩
  · rwa [hhistory, hfiles]
  · have hfound : Coalesces item.command (s.world.files (e.live coll docId)) := by
      obtain ⟨rfl, rfl, -⟩ := hreq
      have hhistory := hserved.history
      rcases hcommit : (commit e req).run (exec host .none) s.world with ⟨_ | ⟨first, res⟩, t⟩
      · simp [Backlog.serve, served, hcommit, acknowledgedBy] at hhistory
      · simp [Backlog.serve, served, hcommit, acknowledgedBy] at hhistory
        exact hhistory.1 ▸ commit_coalesces hcommit
    rw [hserved.history, hserved.live, map_append]
    exact h.concat hfound
end
section
variable {μ : Type} {m : Engine} {claims : Claims} {targetServer : String} {host : Host μ}
  {w : World μ} {coll docId : String} {item : WorkItem} {items : List WorkItem}
  {held final : Option File} {box box' : Inbox μ}
theorem Engine.receive_live (hin : m.LetsIn claims targetServer)
    (habout : item.collection = coll ∧ item.id = docId) (hid : DocumentId docId)
    (hcarries : item.Carries) (host : Host μ) (w : World μ) :
    (m.receive claims targetServer host w item).1 = (item.effect (w.files (m.live coll docId))).1 ∧
      (m.receive claims targetServer host w item).2.files (m.live coll docId) =
        (item.effect (w.files (m.live coll docId))).2 := by
  obtain ⟨hanswer, hlive⟩ := run_applyItem_live habout hid hcarries m host w
  rw [Engine.receive, run_handleApply_in hin]
  exact ⟨Bool.eq_iff_iff.mpr (applyAnswer_acknowledges.trans hanswer), hlive⟩

theorem Timeline.tail (h : Timeline coll docId held (item :: items)) :
    Timeline coll docId (item.payload.map .json) items := by
  have hdistinct := pairwise_cons.mp h.distinct
  have hrest := fun other => @mem_cons_of_mem _ item other items
  refine ⟨fun other hother => h.valid other (hrest other hother),
    fun other hother => h.about other (hrest other hother),
    fun other hother => h.carries other (hrest other hother),
    fun other hother => h.version other (hrest other hother), hdistinct.2, ?_⟩
  intro other hother hne doc hdoc
  obtain ⟨doc', hpayload, heq⟩ := Option.map_eq_some_iff.mp hdoc
  cases heq
  rw [documentVersion, h.version item mem_cons_self doc hpayload, Json.text_str]
  refine hdistinct.1 other hother (fun hdelete => ?_) hne
  rw [(h.carries item mem_cons_self).gone.mpr hdelete] at hpayload
  cases hpayload

theorem Timeline.effect (h : Timeline coll docId held (item :: items))
    (hfound : Coalesces item.command held) :
    item.effect held = (true, item.payload.map .json) := by
  cases hcmd : item.command with
  | create =>
    rw [hcmd] at hfound
    exact effect_create_other hcmd hfound
  | patch =>
    rw [hcmd] at hfound
    obtain ⟨doc, rfl⟩ := hfound
    have hne := h.fresh item mem_cons_self (by rw [hcmd]; decide) doc rfl
    simp [WorkItem.effect, hcmd, hne]
  | delete =>
    rw [hcmd] at hfound
    rw [(h.carries item mem_cons_self).gone.mpr hcmd]
    rcases hfound with rfl | ⟨fields, rfl⟩ <;> simp [WorkItem.effect, hcmd]
  | read => exact absurd hcmd (h.carries item mem_cons_self).written

theorem WorkItem.effect_payload (hcarries : item.Carries) (hstamped : item.Stamped) :
    item.effect (item.payload.map .json) = (true, item.payload.map .json) := by
  cases hpayload : item.payload with
  | none => simp [WorkItem.effect, hcarries.gone.mp hpayload]
  | some doc =>
    have hversion := hstamped doc hpayload
    cases doc with
    | obj fields =>
      have hversion' : Fields.get? "#" fields = some (.str item.afterVersion) := hversion
      cases hcmd : item.command with
      | create => simp [WorkItem.effect, hcmd, hversion']
      | patch => simp [WorkItem.effect, hcmd, documentVersion, hversion]
      | delete => simp [hcarries.gone.mpr hcmd] at hpayload
      | read => exact absurd hcmd hcarries.written
    | _ => cases hversion

structure Inbox.InStep (m : Engine) (collection docId : String) (final : Option File)
    (box : Inbox μ) : Prop where
  timeline : Timeline collection docId (box.world.files (m.live collection docId)) box.rest
  chained : Chained final (box.world.files (m.live collection docId)) box.rest
  last : ∀ item ∈ box.last, box.world.files (m.live collection docId) = item.payload.map .json ∧
    ∃ held items, Timeline collection docId held (item :: items)

/-- What comes next in order is acknowledged and leaves its own document. -/
theorem Inbox.InStep.receive (h : box.InStep m coll docId final)
    (hin : m.LetsIn claims targetServer) (host : Host μ)
    (hitem : item ∈ box.last ∨ item ∈ box.rest.head?) :
    (m.receive claims targetServer host box.world item).1 = true ∧
      (m.receive claims targetServer host box.world item).2.files (m.live coll docId) =
        item.payload.map .json := by
  obtain ⟨world, last, rest⟩ := box
  rcases hitem with hlast | hnext
  · obtain ⟨hheld, held, items, h⟩ := h.last item hlast
    obtain ⟨hanswer, hlive⟩ := Engine.receive_live hin (h.about item mem_cons_self)
      (h.valid item mem_cons_self) (h.carries item mem_cons_self) host world
    have hagain := item.effect_payload (h.carries item mem_cons_self) (h.version item mem_cons_self)
    rw [hheld, hagain] at hanswer hlive
    exact ⟨hanswer, hlive⟩
  · cases rest with
    | nil => cases hnext
    | cons first rest =>
      cases hnext
      obtain ⟨h, hchained, -⟩ := h
      obtain ⟨hanswer, hlive⟩ := Engine.receive_live hin (h.about item mem_cons_self)
        (h.valid item mem_cons_self) (h.carries item mem_cons_self) host world
      rw [h.effect hchained.1] at hanswer hlive
      exact ⟨hanswer, hlive⟩

theorem InOrderStep.inStep (hin : m.LetsIn claims targetServer)
    (hstep : InOrderStep (m.receive claims targetServer host) box box')
    (h : box.InStep m coll docId final) : box'.InStep m coll docId final := by
  cases hstep with
  | @next w last item rest =>
    have hlive := (h.receive hin host (.inr rfl)).2
    refine ⟨hlive.symm ▸ h.timeline.tail, hlive.symm ▸ h.chained.2, ?_⟩
    rintro _ ⟨⟩
    exact ⟨hlive, _, _, h.timeline⟩
  | @again w item rest =>
    have hlive := (h.receive hin host (.inl rfl)).2.trans (h.last item rfl).1.symm
    constructor <;> simp only [hlive]
    · exact h.timeline
    · exact h.chained
    · exact h.last
end

/-- Deliveries in order are all acknowledged, and the last leaves the member in step. -/
theorem in_order_replica_converges {ν μ : Type} {sourceHost : Host ν} {e m : Engine}
    {host : Host μ} {coll docId target targetServer : String} {s start : Backlog ν} {w : World μ}
    {claims : Claims} {box : Inbox μ} (hc : e.cfg.Configured coll) (he : e.PlainTargets)
    (ht : '/' ∉ target.toList) (hinj : Function.Injective sourceHost.ids)
    (hstart : start.history = [])
    (hfresh : ∀ doc, start.world.files (e.live coll docId) = some (.json doc) →
      ∀ n, start.world.issued ≤ n → documentVersion doc ≠ sourceHost.ids n)
    (hrun : Relation.ReflTransGen (CommandStep e sourceHost target coll docId) start s)
    (hheld : w.files (m.live coll docId) = start.world.files (e.live coll docId))
    (hin : m.LetsIn claims targetServer)
    (hdelivered : Relation.ReflTransGen (InOrderStep (m.receive claims targetServer host))
      ⟨w, none, s.history.map Prod.fst⟩ box) :
    (∀ item, item ∈ box.last ∨ item ∈ box.rest.head? →
        (m.receive claims targetServer host box.world item).1 = true) ∧
      (box.rest = [] →
        box.world.files (m.live coll docId) = s.world.files (e.live coll docId)) := by
  have hchained : Chained (s.world.files (e.live coll docId))
      (start.world.files (e.live coll docId)) (s.history.map Prod.fst) := by
    clear hdelivered
    induction hrun with
    | refl =>
      rw [hstart]
      rfl
    | tail _ hstep ih => exact hstep.chained hc he ht ih
  have hbox : box.InStep m coll docId (s.world.files (e.live coll docId)) := by
    induction hdelivered with
    | refl =>
      refine ⟨?_, ?_, by simp⟩
      · rw [hheld]
        exact timeline_of_run hc he ht hinj hfresh hstart hrun
      · rwa [hheld]
    | tail _ hstep ih => exact hstep.inStep hin ih
  refine ⟨fun item hitem => (hbox.receive hin host hitem).1, fun hrest => ?_⟩
  have hfinal := hbox.chained
  rw [hrest] at hfinal
  exact hfinal

open Sample
theorem in_order_create_twice : ∃ item w, Sample.itemsOf [createRequest] = [item] ∧
    Relation.ReflTransGen (InOrderStep (member.receive machine "beta" host))
      ⟨emptyWorld, none, Sample.itemsOf [createRequest]⟩ ⟨w, some item, []⟩ ∧
    w.files (member.live "Movies" "alien") =
      (servedAll [] [createRequest]).world.files (server.live "Movies" "alien") := by
  have hlength : (Sample.itemsOf [createRequest]).length = 1 := by decide +kernel
  obtain ⟨item, hitem⟩ := length_eq_one_iff.mp hlength
  have hdelivered := (Relation.ReflTransGen.single
    (@InOrderStep.next _ (member.receive machine "beta" host) emptyWorld none item [])).tail .again
  rw [← hitem] at hdelivered
  have hstep : CommandStep server pairedHost "beta" "Movies" "alien" (paired [])
    (servedAll [] [createRequest]) := ⟨createRequest, ⟨rfl, rfl, by decide⟩, rfl⟩
  have hinj : Function.Injective pairedHost.ids := host_injective
  have hstart : (paired []).world.files (server.live "Movies" "alien") = none := rfl
  have hheld : emptyWorld.files (member.live "Movies" "alien") = none := rfl
  have hin : member.LetsIn machine "beta" := ⟨by decide, rfl, rfl⟩
  refine ⟨item, _, hitem, hdelivered, (in_order_replica_converges (by decide) server_plainTargets
    (by decide) hinj rfl (fun doc hdoc => ?_) (.single hstep) (hheld.trans hstart.symm) hin
    hdelivered).2 rfl⟩
  cases hstart.symm.trans hdoc

end Datorium
