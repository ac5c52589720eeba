import Datorium.SchemaPatch.Documents
/-! # What an update list leaves alone -/
namespace Datorium
open Framework List
def Diverge (p q : List String) : Prop := ¬ p <+: q ∧ ¬ q <+: p

theorem Diverge.cons {k : String} {p q : List String} (h : Diverge (k :: p) (k :: q)) : Diverge p q :=
  ⟨fun hp => h.1 ((prefix_cons_inj k).mpr hp), fun hq => h.2 ((prefix_cons_inj k).mpr hq)⟩

namespace Any
variable {F : Type} {q : List String}
theorem walk_fieldsOf (v : Option (Any F)) (h : q ≠ []) :
    (Any.obj (fieldsOf v)).walk q = v.bind fun v => v.walk q := by
  cases q with
  | nil => exact absurd rfl h
  | cons k q =>
    cases v with
    | none => rfl
    | some v => cases v <;> rfl

theorem walk_cons (doc : Fields String (Any F)) (k : String) (q : List String) :
    (Any.obj doc).walk (k :: q) = (Fields.get? k doc).bind fun v => v.walk q := by
  rw [walk]
  cases Fields.get? k doc <;> rfl

theorem walk_setAt {segs : List String} (value : Any F) (doc : Fields String (Any F))
    (h : Diverge segs q) : (Any.obj (setAt segs value doc)).walk q = (Any.obj doc).walk q := by
  induction segs generalizing doc q with
  | nil => exact absurd nil_prefix h.1
  | cons seg segs ih =>
    obtain _ | ⟨k, q⟩ := q
    · exact absurd nil_prefix h.2
    rw [walk_cons, walk_cons]
    by_cases hk : seg = k
    · subst hk
      cases segs with
      | nil => exact absurd ⟨q, rfl⟩ h.1
      | cons next segs =>
        have hq : q ≠ [] := by
          rintro rfl
          exact h.2 ⟨next :: segs, rfl⟩
        rw [setAt_cons, Fields.get?_set_same, Option.bind_some, ih _ h.cons, walk_fieldsOf _ hq]
    · cases segs with
      | nil => rw [setAt, Fields.get?_set_other hk]
      | cons next segs => rw [setAt_cons, Fields.get?_set_other hk]

theorem walk_removeAt {segs : List String} (doc : Fields String (Any F)) (h : Diverge segs q) :
    (Any.obj (removeAt segs doc)).walk q = (Any.obj doc).walk q := by
  induction segs generalizing doc q with
  | nil => exact absurd nil_prefix h.1
  | cons seg segs ih =>
    obtain _ | ⟨k, q⟩ := q
    · exact absurd nil_prefix h.2
    cases segs with
    | nil =>
      have hk : seg ≠ k := by
        rintro rfl
        exact h.1 ⟨q, rfl⟩
      rw [removeAt, walk_cons, walk_cons, Fields.get?_remove_other hk]
    | cons next segs =>
      rw [removeAt_cons]
      split
      · rename_i fields hfields
        rw [walk_cons, walk_cons]
        by_cases hk : seg = k
        · subst hk
          rw [Fields.get?_set_same, hfields, Option.bind_some, Option.bind_some, ih _ h.cons]
        · rw [Fields.get?_set_other hk]
      · rfl
end Any

variable {fl : Floats} {op : UpdateOp fl.F} {q : List String}
structure UpdateOp.Spares {F : Type} (op : UpdateOp F) (q : List String) : Prop where
  path : Diverge (splitPath op.path) q
  source : op.kind = some .move ∨ op.kind = some .copy → Diverge (splitPath op.source) q

theorem applyDocAdd_doc (doc : Fields String (Any fl.F)) (op : UpdateOp fl.F) :
    (applyDocAdd fl doc op).doc = doc ∨ (applyDocAdd fl doc op).doc = docPointerRemove doc op.path := by
  unfold applyDocAdd
  dsimp only
  split
  · split
    · exact .inl rfl
    · exact .inr rfl
  · split
    · exact .inr rfl
    · exact .inl rfl

theorem walk_docChange {doc : Fields String (Any fl.F)} {change : DocChange fl.F}
    (h : docChange fl doc op = .ok change) (hop : op.Spares q) :
    (Any.obj change.doc).walk q = (Any.obj doc).walk q := by
  unfold docChange at h
  split at h
  · cases h
    rcases applyDocAdd_doc doc op with hdoc | hdoc <;> rw [hdoc]
    exact Any.walk_removeAt doc hop.path
  · cases h
    rcases applyDocAdd_doc doc op with hdoc | hdoc <;> rw [hdoc]
    exact Any.walk_removeAt doc hop.path
  · cases h
    exact Any.walk_removeAt doc hop.path
  · cases h
    rfl
  · split at h <;> cases h
    rfl
  · rename_i hmove
    cases h
    unfold applyDocMove
    split
    · rfl
    · exact Any.walk_removeAt doc (hop.source (.inl hmove))
  · cases h
    rfl
  · cases h
    unfold applyDocConvert
    split <;> rfl
  · cases h

theorem walk_applyDocOps {doc doc' : Fields String (Any fl.F)} {ops : List (UpdateOp fl.F)} {i : Nat}
    (h : applyDocOps fl i ops doc = .ok doc') (hops : ∀ op ∈ ops, op.Spares q) :
    (Any.obj doc').walk q = (Any.obj doc).walk q := by
  induction ops generalizing i doc with
  | nil =>
    cases h
    rfl
  | cons op ops ih =>
    obtain ⟨hop, hrest⟩ := forall_mem_cons.mp hops
    rw [applyDocOps] at h
    cases hone : docChange fl doc op with
    | error err => simp [applyDocOp, hone, Except.map] at h
    | ok change =>
      simp only [applyDocOp, hone, Except.map] at h
      rw [ih h hrest, DocChange.result, ← walk_docChange hone hop]
      split
      · rfl
      · exact Any.walk_setAt _ _ hop.path

theorem diverge_of_validatePathTarget {path k : String} (h : validatePathTarget path = none)
    (hk : k ∈ metaFieldOrder) : Diverge (splitPath path) [k] := by
  unfold validatePathTarget at h
  split at h
  · cases h
  · split at h
    · cases h
    · rename_i hroot
      have hseg : k ∉ splitPath path := by
        intro hmem
        have hnone := findSome?_eq_none_iff.mp h k hmem
        simp [segmentError, hk] at hnone
      refine ⟨fun hpath => ?_, fun hpath => hseg (hpath.subset mem_cons_self)⟩
      obtain ⟨seg, hmem⟩ := exists_mem_of_ne_nil _ hroot
      exact hseg (mem_singleton.mp (hpath.subset hmem) ▸ hmem)

theorem UpdateOp.valid_of_errors {i : Nat} (h : op.errors i = []) :
    validatePathTarget op.path = none ∧
      (op.kind = some .move ∨ op.kind = some .copy → validatePathTarget op.source = none) ∧
      (op.kind = some .add ∨ op.kind = some .importField → op.schema ≠ none) := by
  simp only [UpdateOp.errors] at h
  split at h
  · cases h
  · simp only [append_eq_nil_iff] at h
    obtain ⟨⟨hsource, hpath⟩, hschema⟩ := h
    refine ⟨?_, fun hkind => ?_, fun hkind hnone => ?_⟩
    · unfold UpdateOp.pathErrors at hpath
      split at hpath
      · cases hpath
      · simpa using hpath
    · rw [UpdateOp.sourceErrors, if_pos hkind] at hsource
      split at hsource
      · cases hsource
      · simpa using hsource
    · rw [UpdateOp.schemaErrors, if_pos ⟨by tauto, hnone⟩] at hschema
      cases hschema

theorem UpdateOp.errors_of_validate {spec : UpdateSpec fl.F} {version : Int}
    (h : spec.validate version = []) {op : UpdateOp fl.F} (hop : op ∈ spec.updates) :
    ∃ i, op.errors i = [] := by
  simp only [UpdateSpec.validate, append_eq_nil_iff, flatMap_eq_nil_iff] at h
  obtain ⟨i, hi⟩ := getElem?_of_mem hop
  exact ⟨i, h.2 (op, i) (mk_mem_zipIdx_iff_getElem?.mpr hi)⟩

theorem spares_of_validate {spec : UpdateSpec fl.F} {version : Int} {k : String}
    (h : spec.validate version = []) (hk : k ∈ metaFieldOrder) :
    ∀ op ∈ spec.updates, op.Spares [k] := by
  intro op hop
  obtain ⟨i, hi⟩ := UpdateOp.errors_of_validate h hop
  obtain ⟨hpath, hsource, -⟩ := UpdateOp.valid_of_errors hi
  exact ⟨diverge_of_validatePathTarget hpath hk,
    fun hkind => diverge_of_validatePathTarget (hsource hkind) hk⟩

/-- A successful migration leaves every field that no update names, goes through or leads to; so it
leaves the database-owned ones. -/
theorem migration_frame {spec : UpdateSpec fl.F} {version : Int} (hvalid : spec.validate version = [])
    {doc doc' : Fields String (Any fl.F)} (h : applyToDocument fl doc spec = .ok doc') :
    (∀ q, (∀ op ∈ spec.updates, op.Spares q) → (Any.obj doc').walk q = (Any.obj doc).walk q) ∧
      ∀ k ∈ metaFieldOrder, Fields.get? k doc' = Fields.get? k doc := by
  refine ⟨fun q hq => walk_applyDocOps h hq, fun k hk => ?_⟩
  have hsame := walk_applyDocOps h (spares_of_validate hvalid hk)
  have hnil : ∀ v : Any fl.F, v.walk [] = some v := fun v => by cases v <;> rfl
  simpa [Any.walk_cons, hnil] using hsame

namespace Sample
def addRating : UpdateSpec floats.F :=
  ⟨1, none, "01ARZ3NDEKTSV4RRFFQ69G5FAV",
    [⟨"add", "/rating/count", "", some [("kind", .str "number")], some (.str "none"), .null⟩]⟩
end Sample

theorem migration_frame_rating : ∃ doc,
    applyToDocument Sample.floats [("#", .str "v1"), ("rating", .null)] Sample.addRating = .ok doc ∧
      Fields.get? "#" doc = some (.str "v1") := by
  have hvalid : Sample.addRating.validate 1 = [] := by decide +kernel
  exact ⟨_, rfl, (migration_frame hvalid rfl).2 "#" (by decide)⟩
end Datorium
