
import Datorium.Agents.Change
/-! # What is left to distribute -/
namespace Datorium
open Framework World
def File.ofFields (fields : JsonFields) : File := .json (.obj fields)

theorem readOptional_ok {ν : Type} {w : World ν} {path : Path} {doc : Option JsonFields}
    (h : w.readOptional false path = .ok doc) : w.files path = doc.map File.ofFields := by
  unfold readOptional at h
  cases hr : w.readFields false path with
  | ok fields =>
    rw [hr] at h
    cases h
    exact (readFields_eq_ok.mp hr).2
  | error err =>
    simp only [hr] at h
    cases hp : w.files path with
    | none =>
      have herr : err = .notExist := by
        simpa [readFields, readValue, hp] using hr.symm
      subst herr
      cases h
      rfl
    | some file =>
      -- A file that holds no document object is an error of another kind.
      have herr : err.isNotExist = false := by
        cases file with
        | bytes data =>
          simp only [readFields, readValue, hp] at hr
          cases hr
          rfl
        | json value =>
          cases value with
          | obj fields => simp [readFields, readValue, hp, Json.toMap?] at hr
          | _ =>
            simp only [readFields, readValue, hp, Json.toMap?] at hr
            cases hr
            rfl
      simp [herr] at h

theorem files_of_readOptional {ν : Type} {w : World ν} {fails : Bool} {path : Path}
    {doc : Option JsonFields} (h : w.readOptional fails path = .ok doc) :
    w.files path = doc.map File.ofFields := by
  cases fails with
  | false => exact readOptional_ok h
  | true => simp [readOptional, readFields, readValue, FsError.isNotExist] at h

/-- The differences of one document are covered by its queue entries. -/
structure Covered (fans : Prop) (queued : Command → Prop) (live : Option File)
    (search cache : Option JsonFields) : Prop where
  searched : live ≠ search.map File.ofFields → ∃ change, queued change
  cached : fans → live ≠ none → live ≠ cache.map File.ofFields → queued .create ∨ queued .patch
  gone : fans → live = none → cache ≠ none → queued .delete

namespace Covered
variable {fans : Prop} {queued queued' : Command → Prop} {live : Option File}
  {search cache : Option JsonFields}
theorem mono (h : Covered fans queued live search cache)
    (hq : ∀ change, queued change → queued' change) : Covered fans queued' live search cache where
  searched hne := by
    obtain ⟨change, hchange⟩ := h.searched hne
    exact ⟨change, hq change hchange⟩
  cached hfans hlive hne := (h.cached hfans hlive hne).imp (hq _) (hq _)
  gone hfans hlive hne := hq _ (h.gone hfans hlive hne)

theorem written {change : Command} (hchange : change = .create ∨ change = .patch)
    (hq : queued change) (hlive : live ≠ none) : Covered fans queued live search cache where
  searched _ := ⟨change, hq⟩
  cached _ _ _ := by
    rcases hchange with rfl | rfl
    · exact .inl hq
    · exact .inr hq
  gone _ hnone := absurd hnone hlive

theorem removed (hq : queued .delete) : Covered fans queued none search cache where
  searched _ := ⟨.delete, hq⟩
  cached _ hlive := absurd rfl hlive
  gone _ _ _ := hq

theorem indexed (h : Covered fans queued live search cache) {current : Option JsonFields}
    (hlive : live = current.map File.ofFields) : Covered fans queued live current cache where
  searched hne := absurd hlive hne
  cached := h.cached
  gone := h.gone

theorem fanned (h : Covered fans queued live search cache) {fields : JsonFields}
    (hlive : live = some (.ofFields fields)) :
    Covered fans queued live search (some fields) where
  searched := h.searched
  cached _ _ hne := absurd hlive hne
  gone _ hnone := by
    rw [hlive] at hnone
    cases hnone

theorem retracted (h : Covered fans queued live search cache)
    (hlive : live = none ∨ queued .create ∨ queued .patch) :
    Covered fans queued live search none where
  searched := h.searched
  cached _ hne _ := hlive.resolve_left hne
  gone _ _ hne := absurd rfl hne

theorem dropped (h : Covered fans queued live search cache) {change : Command}
    (hsearch : live = search.map File.ofFields)
    (hcache : fans → change ≠ .delete → live ≠ none → live = cache.map File.ofFields)
    (hgone : fans → change = .delete → cache = none)
    (hq : ∀ other, other ≠ change → queued other → queued' other) :
    Covered fans queued' live search cache where
  searched hne := absurd hsearch hne
  cached hfans hlive hne := by
    by_cases hdelete : change = .delete
    · subst hdelete
      exact (h.cached hfans hlive hne).imp (hq _ (by decide)) (hq _ (by decide))
    · exact absurd (hcache hfans hdelete hlive) hne
  gone hfans hlive hne := by
    refine hq _ (fun hdelete => ?_) (h.gone hfans hlive hne)
    exact hne (hgone hfans hdelete.symm)
end Covered

structure Derived where
  search : String → String → Option JsonFields
  cache : String → String → Option JsonFields

namespace Derived
def empty : Derived := ⟨fun _ _ => none, fun _ _ => none⟩

def indexed (d : Derived) (collection id : String) (current : Option JsonFields) : Derived :=
  { d with search := fun c i => if c = collection ∧ i = id then current else d.search c i }

def itemContent (item : CacheItem) : Option JsonFields :=
  match item.command with
  | .delete => none
  | _ => some item.payload

def fanned (d : Derived) (item : CacheItem) : Derived :=
  { d with cache := fun c i =>
      if c = item.sourceCollection ∧ i = item.sourceDocumentID then itemContent item
      else d.cache c i }
end Derived

theorem cacheItem_some {coll id operationId : String} {change : Command}
    {current prev : Option JsonFields} {item : CacheItem}
    (h : cacheItem coll id change operationId current prev = some item) :
    item.sourceCollection = coll ∧ item.sourceDocumentID = id ∧
      (change = .delete ∧ Derived.itemContent item = none ∨
        change ≠ .delete ∧ ∃ fields, current = some fields ∧
          Derived.itemContent item = some fields) := by
  cases change with
  | delete =>
    cases h
    exact ⟨rfl, rfl, .inl ⟨rfl, rfl⟩⟩
  | _ =>
    cases current with
    | none => cases h
    | some fields =>
      cases h
      exact ⟨rfl, rfl, .inr ⟨by decide, fields, rfl, rfl⟩⟩

theorem cacheItem_none {coll id operationId : String} {change : Command}
    {current prev : Option JsonFields}
    (h : cacheItem coll id change operationId current prev = none) :
    change ≠ .delete ∧ current = none := by
  cases change with
  | delete => cases h
  | _ =>
    cases current with
    | none => exact ⟨by decide, rfl⟩
    | some fields => cases h

def Host.recording {ν : Type} (host : Host ν) : Host (Derived × ν) where
  ids := host.ids
  push target item s :=
    let (answer, outside) := host.push target item s.2
    (answer, s.1, outside)
  fanOut targets item s :=
    match host.fanOut targets item s.2 with
    | (.ok complete, outside) => (.ok complete, s.1.fanned item, outside)
    | (.error err, outside) => (.error err, s.1, outside)
  index collection id previous current s :=
    match host.index collection id previous current s.2 with
    | (.ok (), outside) => (.ok (), s.1.indexed collection id current, outside)
    | (.error err, outside) => (.error err, s.1, outside)
end Datorium
