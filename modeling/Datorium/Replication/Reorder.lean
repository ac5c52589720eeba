
import Datorium.Replication.Backlog
/-! # Deliveries out of order -/
namespace Datorium
open Framework List
/-- Every version is carried by one item, and none is the version the member held before. -/
structure Timeline (collection docId : String) (held : Option File) (items : List WorkItem) :
    Prop where
  valid : ∀ item ∈ items, DocumentId docId
  about : ∀ item ∈ items, item.collection = collection ∧ item.id = docId
  carries : ∀ item ∈ items, item.Carries
  version : ∀ item ∈ items, ∀ doc, item.payload = some doc →
    doc.get? "#" = some (.str item.afterVersion)
  distinct : items.Pairwise fun a b =>
    a.command ≠ .delete → b.command ≠ .delete → a.afterVersion ≠ b.afterVersion
  fresh : ∀ item ∈ items, item.command ≠ .delete → ∀ doc, held = some (.json doc) →
    documentVersion doc ≠ item.afterVersion

def CommandStep {ν : Type} (e : Engine) (host : Host ν) (target collection docId : String)
    (s s' : Backlog ν) : Prop :=
  ∃ req : Request, req.Writes collection docId ∧ s' = s.serve e host target req

section
variable {ν : Type} {host : Host ν} {e : Engine} {coll docId target : String}
  {s s' start : Backlog ν}
structure Recorded (host : Host ν) (collection docId : String) (held : Option File)
    (start s : Backlog ν) : Prop where
  timeline : Timeline collection docId held (s.history.map Prod.fst)
  issued : start.world.issued ≤ s.world.issued
  drawn : ∀ entry ∈ s.history, entry.1.command ≠ .delete →
    ∃ n, n < s.world.issued ∧ entry.1.afterVersion = host.ids n

variable {held : Option File}
theorem Timeline.concat {items : List WorkItem} {item : WorkItem} {acked : Bool}
    (h : Timeline coll docId held items)
    (hserved : Served e host target coll docId s s' item acked)
    (hnew : item.command ≠ .delete → ∀ old ∈ items, old.command ≠ .delete →
      old.afterVersion ≠ item.afterVersion)
    (hfresh : item.command ≠ .delete → ∀ doc, held = some (.json doc) →
      documentVersion doc ≠ item.afterVersion) : Timeline coll docId held (items ++ [item]) := by
  constructor
  · intro other hother
    exact hserved.valid
  · intro other hother
    rcases mem_append.mp hother with hold | hold
    · exact h.about other hold
    · rw [mem_singleton.mp hold]
      exact hserved.about
  · intro other hother
    rcases mem_append.mp hother with hold | hold
    · exact h.carries other hold
    · rw [mem_singleton.mp hold]
      exact hserved.carries
  · intro other hother
    rcases mem_append.mp hother with hold | hold
    · exact h.version other hold
    · rw [mem_singleton.mp hold]
      exact hserved.version
  · rw [pairwise_append]
    refine ⟨h.distinct, pairwise_singleton _ _, fun old hold other hother hne hne' => ?_⟩
    rw [mem_singleton.mp hother] at hne' ⊢
    exact hnew hne' old hold hne
  · intro other hother
    rcases mem_append.mp hother with hold | hold
    · exact h.fresh other hold
    · rw [mem_singleton.mp hold]
      exact hfresh

theorem CommandStep.recorded (hc : e.cfg.Configured coll) (he : e.PlainTargets)
    (ht : '/' ∉ target.toList) (hinj : Function.Injective host.ids)
    (hfresh : ∀ doc, held = some (.json doc) → ∀ n, start.world.issued ≤ n →
      documentVersion doc ≠ host.ids n) (hstep : CommandStep e host target coll docId s s')
    (hs : Recorded host coll docId held start s) : Recorded host coll docId held start s' := by
  obtain ⟨req, hreq, rfl⟩ := hstep
  have hissued : s.world.issued ≤ (s.serve e host target req).world.issued := issued_le_run _ _
  have hdrawn : ∀ entry ∈ s.history, entry.1.command ≠ .delete →
      ∃ n, n < (s.serve e host target req).world.issued ∧ entry.1.afterVersion = host.ids n := by
    intro entry hentry hne
    obtain ⟨n, hlt, hn⟩ := hs.drawn entry hentry hne
    exact ⟨n, Nat.lt_of_lt_of_le hlt hissued, hn⟩
  rcases serve_cases hc he ht hreq s with ⟨hhistory, -⟩ | ⟨item, acked, hserved⟩
  · exact ⟨hhistory ▸ hs.timeline, Nat.le_trans hs.issued hissued, hhistory ▸ hdrawn⟩
  · refine ⟨?_, Nat.le_trans hs.issued hissued, ?_⟩
    · rw [hserved.history, map_append]
      refine hs.timeline.concat hserved (fun hne old hold hne' => ?_) fun hne doc hdoc => ?_
      · -- The new version is drawn after all those of the items before it.
        obtain ⟨entry, hentry, rfl⟩ := mem_map.mp hold
        obtain ⟨n, hlt, hn⟩ := hs.drawn entry hentry hne'
        obtain ⟨n', hle, -, hn'⟩ := hserved.drawn hne
        rw [hn, hn']
        intro heq
        have := hinj heq
        omega
      · obtain ⟨n, hle, -, hn⟩ := hserved.drawn hne
        rw [hn]
        exact hfresh doc hdoc n (Nat.le_trans hs.issued hle)
    · rw [hserved.history]
      intro entry hentry hne
      rcases mem_append.mp hentry with hold | hold
      · exact hdrawn entry hold hne
      · rw [mem_singleton.mp hold] at hne ⊢
        obtain ⟨n, -, hlt, hn⟩ := hserved.drawn hne
        exact ⟨n, hlt, hn⟩

theorem timeline_of_run (hc : e.cfg.Configured coll) (he : e.PlainTargets)
    (ht : '/' ∉ target.toList) (hinj : Function.Injective host.ids)
    (hfresh : ∀ doc, held = some (.json doc) → ∀ n, start.world.issued ≤ n →
      documentVersion doc ≠ host.ids n) (hstart : start.history = [])
    (hrun : Relation.ReflTransGen (CommandStep e host target coll docId) start s) :
    Timeline coll docId held (s.history.map Prod.fst) := by
  have hrecorded : Recorded host coll docId held start s := by
    induction hrun with
    | refl =>
      refine ⟨?_, Nat.le_refl _, by simp [hstart]⟩
      rw [hstart]
      constructor <;> simp
    | tail _ hstep ih => exact hstep.recorded hc he ht hinj hfresh ih
  exact hrecorded.timeline
end

structure Replica (μ : Type) where
  world : World μ
  seen : List Nat

def Replica.deliver {μ : Type} (m : Engine) (host : Host μ) (r : Replica μ) (i : Nat)
    (item : WorkItem) : Replica μ where
  world := ((applyItem m.dataDir m.ojson item).run (exec host .none) r.world).2
  seen := i :: r.seen

def HoldsVersion (items : List WorkItem) (live : Option File) (i : Nat) : Prop :=
  ∃ item doc, items[i]? = some item ∧ item.payload = some doc ∧ live = some (.json doc)

section
variable {μ : Type} {m : Engine} {host : Host μ} {coll docId : String} {held : Option File}
  {items : List WorkItem} {r r' start : Replica μ}
variable {i : Nat} {item : WorkItem}
theorem Timeline.not_delete (h : Timeline coll docId held items) (hitem : items[i]? = some item)
    {doc : Json} (hdoc : item.payload = some doc) : item.command ≠ .delete := by
  intro hdelete
  rw [(h.carries item (mem_of_getElem? hitem)).gone.mpr hdelete] at hdoc
  cases hdoc

theorem Timeline.position_unique (h : Timeline coll docId held items) {live : Option File}
    {j : Nat} (hi : HoldsVersion items live i) (hj : HoldsVersion items live j) : i = j := by
  obtain ⟨a, doc, ha, hdoc, rfl⟩ := hi
  obtain ⟨b, doc', hb, hdoc', heq⟩ := hj
  obtain rfl : doc = doc' := File.json.inj (Option.some.inj heq)
  have hversion : a.afterVersion = b.afterVersion := by
    have hva := h.version a (mem_of_getElem? ha) doc hdoc
    have hvb := h.version b (mem_of_getElem? hb) doc hdoc'
    rw [hva] at hvb
    exact Json.str.inj (Option.some.inj hvb)
  have hne := h.not_delete ha hdoc
  have hne' := h.not_delete hb hdoc'
  obtain ⟨hi, hai⟩ := List.getElem?_eq_some_iff.mp ha
  obtain ⟨hj, hbj⟩ := List.getElem?_eq_some_iff.mp hb
  rcases Nat.lt_trichotomy i j with hlt | heq | hlt
  · have hdistinct := pairwise_iff_getElem.mp h.distinct i j hi hj hlt
    rw [hai, hbj] at hdistinct
    exact absurd hversion (hdistinct hne hne')
  · exact heq
  · have hdistinct := pairwise_iff_getElem.mp h.distinct j i hj hi hlt
    rw [hai, hbj] at hdistinct
    exact absurd hversion.symm (hdistinct hne' hne)

def Replica.Held (m : Engine) (collection docId : String) (held : Option File)
    (items : List WorkItem) (r : Replica μ) : Prop :=
  r.world.files (m.live collection docId) = held ∨ r.world.files (m.live collection docId) = none ∨
    ∃ j ∈ r.seen, HoldsVersion items (r.world.files (m.live collection docId)) j

theorem Replica.Held.seen (h : Timeline coll docId held items)
    (hr : r.Held m coll docId held items) {j : Nat}
    (hj : HoldsVersion items (r.world.files (m.live coll docId)) j) : j ∈ r.seen := by
  rcases hr with hstart | hnone | ⟨k, hk, hheld⟩
  · obtain ⟨item, doc, hitem, hdoc, hlive⟩ := hj
    have hversion := h.version item (mem_of_getElem? hitem) doc hdoc
    refine absurd ?_ (h.fresh item (mem_of_getElem? hitem) (h.not_delete hitem hdoc) doc
      (hstart.symm.trans hlive))
    rw [documentVersion, hversion, Json.text_str]
  · obtain ⟨item, doc, -, -, hlive⟩ := hj
    rw [hnone] at hlive
    cases hlive
  · rw [h.position_unique hj hheld]
    exact hk

theorem HoldsVersion.obj (h : Timeline coll docId held items) {live : Option File} {j : Nat}
    (hj : HoldsVersion items live j) : ∃ fields, live = some (.json (.obj fields)) := by
  obtain ⟨item, doc, hitem, hdoc, rfl⟩ := hj
  have hversion := h.version item (mem_of_getElem? hitem) doc hdoc
  cases doc with
  | obj fields => exact ⟨fields, rfl⟩
  | _ => cases hversion

end
section
variable {ν μ : Type} {sourceHost : Host ν} {e m : Engine} {host : Host μ}
  {coll docId target : String} {s start : Backlog ν} {w : World μ} {r r' : Replica μ}
end
namespace Sample
def itemsOf (reqs : List Request) : List WorkItem := (servedAll [] reqs).history.map Prod.fst

end Sample
open Sample
end Datorium
