
import Mathlib.Data.List.Nodup
import Datorium.Search.Bucket
/-! # The order of a bucket -/
namespace Datorium
open Framework List
section
variable (fl : Floats)
def naturalCompare : Any fl.F → Any fl.F → Int
  | .str a, .str b => compareStrings a b
  | .bool a, .bool b => compareBools a b
  | .number a, .number b =>
    match fl.parse a, fl.parse b with
    | some x, some y => if fl.lt x y then -1 else if fl.lt y x then 1 else 0
    | _, _ => 0
  | _, _ => 0

def compareValues (dir : SortDir) (a b : SortValue fl.F) : Int :=
  if a.rank ≠ b.rank then a.rank - b.rank
  else
    match a, b with
    | .known v, .known w => if dir = .desc then -naturalCompare fl v w else naturalCompare fl v w
    | _, _ => 0

def compareKeys (dirs : List SortDir) (a b : List (SortValue fl.F)) : Int :=
  compareBy (compareValues fl) dirs a b

def Mutation.valuesFor (sort : List SortSpec) (id : String) :
    Mutation → Option (List (SortValue fl.F))
  | .upsert i doc => if i = id then some (computeSortValues fl sort doc) else none
  | .remove _ => none

def lastValues (sort : List SortSpec) (ms : List Mutation) (id : String) : List (SortValue fl.F) :=
  (ms.reverse.findSome? (Mutation.valuesFor fl sort id)).getD []

def InOrder (sort : List SortSpec) (ms : List Mutation) (rf : ResultFile fl) : Prop :=
  (rf.items.map BucketItem.id).Pairwise fun i j =>
    ¬ compareKeys fl (sort.map SortSpec.dir) (lastValues fl sort ms j) (lastValues fl sort ms i) < 0
end
section
variable {fl : Floats}
def Saved (file : Option Json) (items : List (BucketItem fl)) : Prop :=
  ∃ rf existed, loadBucket fl file = some (rf, existed) ∧ rf.Stable ∧ rf.items = items ∧
    (existed = false → items = [])

theorem saved_none : Saved none ([] : List (BucketItem fl)) :=
  ⟨{}, false, rfl, ⟨by simp, by simp⟩, rfl, fun _ => rfl⟩

theorem Saved.apply {file : Option Json} {items items' : List (BucketItem fl)} (version : String)
    {mutate : ResultFile fl → Bool → Bool × ResultFile fl} (h : Saved file items)
    (hm : ∀ rf existed, rf.Stable → rf.items = items → (existed = false → items = []) →
      (mutate rf existed).2.Stable ∧ (mutate rf existed).2.items = items' ∧
        ((mutate rf existed).1 = false → items' = items)) :
    ∃ file', applyAlone fl version mutate file = some file' ∧ Saved file' items' := by
  obtain ⟨rf, existed, hload, hstable, hitems, hexisted⟩ := h
  have hnamed : (rf.named fl).Stable ∧ (rf.named fl).items = items := by
    unfold ResultFile.named
    split
    · exact ⟨⟨hstable.key, hstable.items⟩, hitems⟩
    · exact ⟨hstable, hitems⟩
  obtain ⟨hstable', hitems', hunchanged⟩ := hm (rf.named fl) existed hnamed.1 hnamed.2 hexisted
  cases hresult : mutate (rf.named fl) existed with
  | mk changed rf' =>
    rw [hresult] at hstable' hitems' hunchanged
    cases changed with
    | false =>
      refine ⟨file, by simp only [applyAlone, hload, hresult], ?_⟩
      rw [hunchanged rfl]
      exact ⟨rf, existed, hload, hstable, hitems, hexisted⟩
    | true =>
      refine ⟨some (ResultFile.toJson fl { rf' with version }),
        by simp only [applyAlone, hload, hresult], ?_⟩
      have hversion : ({ rf' with version } : ResultFile fl).Stable :=
        ⟨hstable'.key, hstable'.items⟩
      exact ⟨_, true, hversion.load, hversion, hitems', by simp⟩

section
variable {file : Option Json} {items : List (BucketItem fl)} {ctx : BucketContext fl} {id : String}
  {vals : List (SortValue fl.F)}
theorem stable_upsertItems {rf : ResultFile fl} (h : rf.Stable) (hvals : ∀ v ∈ vals, v.toAny.Stable fl)
    (sort : List SortSpec) : ∀ it ∈ (upsertItems rf.items sort id vals).2, ∀ v ∈ it.sort, v.Stable fl := by
  intro it hit v hv
  rcases mem_upsertItems hit with hit | rfl
  · exact h.items it hit v hv
  · obtain ⟨w, hw, rfl⟩ := mem_map.mp hv
    exact hvals w hw

theorem Saved.localUpsert (h : Saved file items) (version : String)
    (hkey : ∀ v ∈ ctx.key, v.Stable fl) (hvals : ∀ v ∈ vals, v.toAny.Stable fl) :
    ∃ file', applyAlone fl version (localUpsert ctx id vals) file = some file' ∧
      Saved file' (upsertItems items ctx.sort id vals).2 := by
  refine h.apply version fun rf existed hstable hitems _ => ?_
  rw [Datorium.localUpsert, ResultFile.upsert_eq]
  refine ⟨⟨?_, stable_upsertItems hstable hvals _⟩, by rw [hitems], ?_⟩
  · intro v hv
    simp only at hv
    split at hv
    · exact hkey v hv
    · exact hstable.key v hv
  · intro hunchanged
    rw [← hitems]
    exact upsertItems_unchanged hunchanged

theorem Saved.remoteUpsert (h : Saved file items) (version : String)
    (hvals : ∀ v ∈ vals, v.toAny.Stable fl) :
    ∃ file', applyAlone fl version (remoteUpsert ctx id vals) file = some file' ∧
      Saved file' (upsertItems items ctx.sort id vals).2 := by
  refine h.apply version fun rf existed hstable hitems _ => ?_
  rw [Datorium.remoteUpsert, ResultFile.upsert_eq]
  refine ⟨⟨hstable.key, stable_upsertItems hstable hvals _⟩, by rw [hitems], ?_⟩
  intro hunchanged
  rw [← hitems]
  exact upsertItems_unchanged hunchanged

theorem Saved.removeFrom (h : Saved file items) (version : String) (id : String) :
    ∃ file', applyAlone fl version (removeFrom id) file = some file' ∧
      Saved file' (items.eraseP fun it => it.id == id) := by
  refine h.apply version fun rf existed hstable hitems hexisted => ?_
  cases existed with
  | false =>
    rw [hexisted rfl] at hitems ⊢
    exact ⟨hstable, hitems, fun _ => rfl⟩
  | true =>
    rw [Datorium.removeFrom, if_pos rfl, ResultFile.remove_eq]
    refine ⟨⟨hstable.key, fun it hit => hstable.items it (mem_of_mem_eraseP hit)⟩,
      by rw [hitems], fun hnone => ?_⟩
    rw [hitems, Option.isSome_eq_false_iff, Option.isNone_iff_eq_none] at hnone
    exact eraseP_of_forall_not fun it hit => by
      simpa using find?_eq_none.mp hnone it hit
end

inductive KeyKind where
  | string
  | boolean
  deriving DecidableEq, Repr

inductive Gap where
  | null
  | missing
  deriving DecidableEq, Repr

structure KeyShape where
  kind : KeyKind
  gap : Gap

def KeyShape.Fits {F : Type} (shape : KeyShape) : SortValue F → Prop
  | .known (.str _) => shape.kind = .string
  | .known (.bool _) => shape.kind = .boolean
  | .known _ => False
  | .null => shape.gap = .null
  | .missing => shape.gap = .missing

def Conforms {F : Type} (shapes : List KeyShape) (vals : List (SortValue F)) : Prop :=
  Forall₂ KeyShape.Fits shapes vals

def GapsLast (shapes : List KeyShape) : Prop := ∀ shape ∈ shapes.dropLast, shape.gap = .null

def SortValue.Plain {F : Type} : SortValue F → Prop
  | .known (.str _) => True
  | .known (.bool _) => True
  | .known _ => False
  | .null => True
  | .missing => True

theorem SortValue.Plain.stable {v : SortValue fl.F} (h : v.Plain) : v.toAny.Stable fl := by
  cases v with
  | missing => exact Any.stable_null
  | null => exact Any.stable_null
  | known w =>
    cases w with
    | str s => exact Any.stable_str s
    | bool b => exact Any.stable_bool b
    | _ => exact h.elim

theorem KeyShape.Fits.plain {shape : KeyShape} {v : SortValue fl.F} (h : shape.Fits v) :
    v.Plain := by
  cases v with
  | known w =>
    cases w with
    | str s => trivial
    | bool b => trivial
    | _ => exact h.elim
  | _ => trivial

variable {shapes : List KeyShape}
theorem Conforms.plain {vals : List (SortValue fl.F)} (h : Conforms shapes vals) :
    ∀ v ∈ vals, v.Plain := by
  induction h with
  | nil => simp
  | cons hfits _ ih =>
    intro v hv
    rcases mem_cons.mp hv with rfl | hv
    · exact hfits.plain
    · exact ih v hv

theorem orders_compareStrings : Orders compareStrings fun _ => True where
  swap a b _ _ := by
    unfold compareStrings
    by_cases hab : a < b
    · have hba : ¬ b < a := fun h => String.lt_irrefl _ (String.lt_trans hab h)
      have hne : b ≠ a := by
        rintro rfl
        exact String.lt_irrefl _ hab
      simp [hab, hba, hne]
    · by_cases hba : b < a
      · have hne : a ≠ b := by
          rintro rfl
          exact String.lt_irrefl _ hba
        simp [hab, hba, hne]
      · have heq : a = b := String.le_antisymm (String.not_lt.mp hba) (String.not_lt.mp hab)
        simp [heq]
  trans a b c _ _ _ := by
    have hle : ∀ x y : String, compareStrings x y ≤ 0 ↔ x ≤ y := by
      intro x y
      unfold compareStrings
      by_cases hxy : x < y
      · have hle : x ≤ y := String.not_lt.mp fun h => String.lt_irrefl _ (String.lt_trans hxy h)
        simp [hxy, hle]
      · by_cases heq : x = y
        · simp [heq]
        · have hnot : ¬ x ≤ y := fun h => heq (String.le_antisymm h (String.not_lt.mp hxy))
          simp [hxy, heq, hnot]
    rw [hle, hle, hle]
    exact String.le_trans

theorem orders_compareBools : Orders compareBools fun _ => True where
  swap := by decide
  trans := by decide

theorem Framework.Orders.directed {α : Type} {cmp : α → α → Int} {S : α → Prop} (h : Orders cmp S)
    (dir : SortDir) : Orders (fun a b => if dir = .desc then -cmp a b else cmp a b) S := by
  cases dir with
  | asc => exact h
  | desc => exact h.neg

theorem orders_compareValues (shape : KeyShape) (dir : SortDir) :
    Orders (compareValues fl dir) shape.Fits := by
  refine @Orders.ranked _ _ _ SortValue.rank fun r => ?_
  by_cases hr : r = 0
  · cases hkind : shape.kind with
    | string =>
      refine (orders_compareStrings.directed dir).image (f := fun s => .known (.str s)) ?_
        fun x y => rfl
      rintro a ⟨hfits, hrank⟩
      cases a with
      | known v =>
        cases v with
        | str s => exact ⟨s, rfl⟩
        | bool b => exact absurd (hkind.symm.trans hfits) (by decide)
        | _ => exact hfits.elim
      | null => exact absurd (hrank.trans hr) (by simp [SortValue.rank])
      | missing => exact absurd (hrank.trans hr) (by simp [SortValue.rank])
    | boolean =>
      refine (orders_compareBools.directed dir).image (f := fun b => .known (.bool b)) ?_
        fun x y => rfl
      rintro a ⟨hfits, hrank⟩
      cases a with
      | known v =>
        cases v with
        | bool b => exact ⟨b, rfl⟩
        | str s => exact absurd (hkind.symm.trans hfits) (by decide)
        | _ => exact hfits.elim
      | null => exact absurd (hrank.trans hr) (by simp [SortValue.rank])
      | missing => exact absurd (hrank.trans hr) (by simp [SortValue.rank])
  · -- nulls are all alike, and so are missing values
    have htrivial : Orders (fun _ _ : SortValue fl.F => (0 : Int)) fun a =>
        shape.Fits a ∧ a.rank = r := ⟨by simp, by simp⟩
    refine htrivial.congr fun a b ha hb => ?_
    cases a with
    | known v => exact absurd ha.2.symm hr
    | null => rfl
    | missing => rfl

theorem orders_compareKeys {dirs : List SortDir} (hdirs : dirs.length = shapes.length) :
    Orders (compareKeys fl dirs) (Conforms shapes) := by
  have hshapes : (shapes.zip dirs).map Prod.fst = shapes := map_fst_zip (by omega)
  have hdirs : (shapes.zip dirs).map Prod.snd = dirs := map_snd_zip (by omega)
  have hkeys : ∀ i ∈ shapes.zip dirs, Orders (compareValues fl i.2) (KeyShape.Fits i.1) :=
    fun i _ => orders_compareValues i.1 i.2
  have horder := Orders.compareBy hkeys
  have hconforms : Conforms (F := fl.F) shapes =
      fun vals => Forall₂ (fun i => KeyShape.Fits i.1) (shapes.zip dirs) vals := by
    funext vals
    conv_lhs => rw [Conforms, ← hshapes]
    exact propext forall₂_map_left_iff
  rw [hconforms]
  refine horder.congr fun a b _ _ => ?_
  rw [compareKeys]
  conv_lhs => rw [← hdirs]
  exact compareBy_map Prod.snd (compareValues fl) (shapes.zip dirs) a b

theorem compareOne_sign {shape : KeyShape} {a b : SortValue fl.F} (ha : shape.Fits a)
    (hb : shape.Fits b) (dir : SortDir) :
    ((compareOne fl a b.toAny dir < 0 ↔ compareValues fl dir a b < 0) ∧
        (compareOne fl a b.toAny dir = 0 ↔ compareValues fl dir a b = 0)) ∨
      (a = .missing ∧ b = .missing) := by
  have hsame : compareOne fl a b.toAny dir = compareValues fl dir a b →
      (compareOne fl a b.toAny dir < 0 ↔ compareValues fl dir a b < 0) ∧
        (compareOne fl a b.toAny dir = 0 ↔ compareValues fl dir a b = 0) := by
    intro h
    rw [h]
    exact ⟨Iff.rfl, Iff.rfl⟩
  cases a with
  | known v =>
    left
    cases b with
    | known w =>
      apply hsame
      cases v <;> cases w <;>
        first
          | exact ha.elim
          | exact hb.elim
          | exact absurd (ha.symm.trans hb) (by decide)
          | rfl
    | null => exact hsame rfl
    | missing =>
      have hcode : compareOne fl (.known v) (SortValue.missing : SortValue fl.F).toAny dir = -1 := rfl
      have hspec : compareValues fl dir (.known v) .missing = -2 := rfl
      rw [hcode, hspec]
      decide
  | null =>
    left
    apply hsame
    cases b with
    | known w => cases w <;> first | exact hb.elim | rfl
    | null => rfl
    | missing => exact absurd (ha.symm.trans hb) (by decide)
  | missing =>
    cases b with
    | known w =>
      left
      apply hsame
      cases w <;> first | exact hb.elim | rfl
    | null => exact absurd (ha.symm.trans hb) (by decide)
    | missing => exact .inr ⟨rfl, rfl⟩

theorem compareStoredSort_lt_iff (hgaps : GapsLast shapes) {as bs : List (SortValue fl.F)}
    (has : Conforms shapes as) (hbs : Conforms shapes bs) {dirs : List SortDir}
    (hdirs : dirs.length = shapes.length) :
    compareStoredSort fl as (sortValuesToJSON bs) dirs < 0 ↔ compareKeys fl dirs as bs < 0 := by
  induction has generalizing bs dirs with
  | nil =>
    cases hbs
    cases dirs <;> simp [compareStoredSort, sortValuesToJSON, compareKeys, compareBy]
  | @cons shape a shapes as ha has ih =>
    obtain ⟨b, bs', hb, hbs', rfl⟩ := forall₂_cons_left_iff.mp hbs
    obtain ⟨dir, dirs', rfl⟩ : ∃ dir dirs', dirs = dir :: dirs' := by
      cases dirs with
      | nil => simp at hdirs
      | cons dir dirs' => exact ⟨dir, dirs', rfl⟩
    have hgaps' : GapsLast shapes := by
      intro s hs
      refine hgaps s ?_
      cases shapes with
      | nil => simp at hs
      | cons s' shapes => exact mem_cons_of_mem _ hs
    have hdirs' : dirs'.length = shapes.length := by simpa using hdirs
    have ih := ih hgaps' hbs' hdirs'
    have hkeys : compareKeys fl (dir :: dirs') (a :: as) (b :: bs') =
        if compareValues fl dir a b ≠ 0 then compareValues fl dir a b
        else compareKeys fl dirs' as bs' := rfl
    have hstored : compareStoredSort fl (a :: as) (sortValuesToJSON (b :: bs')) (dir :: dirs') =
        if compareOne fl a b.toAny dir ≠ 0 then compareOne fl a b.toAny dir
        else compareStoredSort fl as (sortValuesToJSON bs') dirs' := rfl
    rw [hkeys, hstored]
    rcases compareOne_sign ha hb dir with ⟨hlt, hzero⟩ | ⟨rfl, rfl⟩
    · by_cases h : compareValues fl dir a b = 0
      · rw [if_neg (not_not.mpr h), if_neg (not_not.mpr (hzero.mpr h))]
        exact ih
      · rw [if_pos h, if_pos fun h' => h (hzero.mp h')]
        exact hlt
    · -- a missing value is in the last key, so nothing is left to compare
      have hlast : shapes = [] := by
        cases shapes with
        | nil => rfl
        | cons s shapes => exact absurd ((hgaps shape (by simp)).symm.trans ha) (by decide)
      subst hlast
      cases has
      cases hbs'
      have hone : compareOne fl (.missing : SortValue fl.F) SortValue.missing.toAny dir = 1 := rfl
      have hnone : compareValues fl dir (.missing : SortValue fl.F) .missing = 0 := rfl
      rw [hone, hnone]
      cases dirs' <;> simp [compareKeys, compareBy]

abbrev Entry (fl : Floats) := String × List (SortValue fl.F)

def Entry.item (en : Entry fl) : BucketItem fl := ⟨sortValuesToJSON en.2, en.1⟩

theorem deepEqualList_iff {as bs : List (SortValue fl.F)} (has : Conforms shapes as)
    (hbs : Conforms shapes bs) :
    deepEqualList fl (sortValuesToJSON as) (sortValuesToJSON bs) = true ↔ as = bs := by
  induction has generalizing bs with
  | nil =>
    cases hbs
    simp [sortValuesToJSON, deepEqualList]
  | @cons shape a shapes as ha has ih =>
    obtain ⟨b, bs', hb, hbs', rfl⟩ := forall₂_cons_left_iff.mp hbs
    have hhead : deepEqual fl a.toAny b.toAny = true ↔ a = b := by
      cases a with
      | known v =>
        cases b with
        | known w =>
          cases v <;> cases w <;>
            first
              | exact ha.elim
              | exact hb.elim
              | simp [SortValue.toAny, deepEqual]
        | null => cases v <;> first | exact ha.elim | simp [SortValue.toAny, deepEqual]
        | missing => cases v <;> first | exact ha.elim | simp [SortValue.toAny, deepEqual]
      | null =>
        cases b with
        | known w => cases w <;> first | exact hb.elim | simp [SortValue.toAny, deepEqual]
        | null => simp [SortValue.toAny, deepEqual]
        | missing => exact absurd (ha.symm.trans hb) (by decide)
      | missing =>
        cases b with
        | known w => cases w <;> first | exact hb.elim | simp [SortValue.toAny, deepEqual]
        | null => exact absurd (ha.symm.trans hb) (by decide)
        | missing => simp [SortValue.toAny, deepEqual]
    have ih := ih hbs'
    simp only [sortValuesToJSON, map_cons, deepEqualList, Bool.and_eq_true, cons.injEq] at ih ⊢
    rw [hhead, ih]

structure Ordered (shapes : List KeyShape) (sort : List SortSpec) (entries : List (Entry fl)) :
    Prop where
  conforms : ∀ en ∈ entries, Conforms shapes en.2
  nodup : (entries.map Prod.fst).Nodup
  sorted : entries.Pairwise fun a b => ¬ compareKeys fl (sort.map SortSpec.dir) b.2 a.2 < 0

theorem Ordered.insert {sort : List SortSpec} {entries : List (Entry fl)}
    (h : Ordered shapes sort entries) (hgaps : GapsLast shapes)
    (hlen : sort.length = shapes.length) {id : String} {vals : List (SortValue fl.F)}
    (hvals : Conforms shapes vals) (hnew : id ∉ entries.map Prod.fst) :
    ∃ entries', Ordered shapes sort entries' ∧ entries'.Perm ((id, vals) :: entries) ∧
      entries'.map Entry.item = insertBefore
        (fun it => compareStoredSort fl vals it.sort (sort.map SortSpec.dir) < 0)
        ⟨sortValuesToJSON vals, id⟩ (entries.map Entry.item) := by
  have hdirs : (sort.map SortSpec.dir).length = shapes.length := by simpa using hlen
  have horder : Orders (compareKeys fl (sort.map SortSpec.dir)) (Conforms shapes) :=
    orders_compareKeys hdirs
  have hperm := insertBefore_perm (fun en : Entry fl =>
      decide (compareStoredSort fl vals en.item.sort (sort.map SortSpec.dir) < 0)) (id, vals) entries
  refine ⟨insertBefore (fun en => decide
      (compareStoredSort fl vals en.item.sort (sort.map SortSpec.dir) < 0)) (id, vals) entries,
    ⟨?_, ?_, ?_⟩, hperm, ?_⟩
  · intro en hen
    rcases mem_cons.mp (hperm.mem_iff.mp hen) with rfl | hen
    · exact hvals
    · exact h.conforms en hen
  · refine (hperm.map Prod.fst).nodup_iff.mpr ?_
    exact nodup_cons.mpr ⟨hnew, h.nodup⟩
  · refine pairwise_insertBefore ?_ ?_ ?_ h.sorted
    · intro en hen
      rw [horder.self_eq (h.conforms en hen)]
      decide
    · intro en hen
      rw [decide_eq_true_iff]
      exact compareStoredSort_lt_iff hgaps hvals (h.conforms en hen) hdirs
    · intro y hy z hz hzx hxy
      exact horder.lt_of_lt_of_le (h.conforms z hz) hvals (h.conforms y hy) hzx (Int.le_of_lt hxy)
  · exact map_insertBefore Entry.item
      (fun it => decide (compareStoredSort fl vals it.sort (sort.map SortSpec.dir) < 0)) (id, vals) entries

theorem Ordered.erase {sort : List SortSpec} {entries : List (Entry fl)}
    (h : Ordered shapes sort entries) (id : String) :
    Ordered shapes sort (entries.eraseP fun en => en.1 == id) ∧
      ∀ en ∈ entries.eraseP (fun en => en.1 == id), en ∈ entries ∧ en.1 ≠ id := by
  have hids : (entries.eraseP fun en => en.1 == id).map Prod.fst = (entries.map Prod.fst).erase id := by
    rw [erase_eq_eraseP', eraseP_map]
    rfl
  have hsub : (entries.eraseP fun en => en.1 == id).Sublist entries := eraseP_sublist
  refine ⟨⟨fun en hen => h.conforms en (hsub.subset hen), ?_, h.sorted.sublist hsub⟩, ?_⟩
  · rw [hids]
    exact h.nodup.erase id
  · intro en hen
    refine ⟨hsub.subset hen, fun heq => ?_⟩
    have hmem := mem_map_of_mem (f := Prod.fst) hen
    rw [hids, heq] at hmem
    exact h.nodup.not_mem_erase hmem

theorem Ordered.upsert {shapes : List KeyShape} {sort : List SortSpec} {entries : List (Entry fl)}
    (h : Ordered shapes sort entries) (hgaps : GapsLast shapes) (hlen : sort.length = shapes.length)
    {id : String} {vals : List (SortValue fl.F)} (hvals : Conforms shapes vals) :
    ∃ entries', Ordered shapes sort entries' ∧
      (∀ en ∈ entries', en = (id, vals) ∨ (en ∈ entries ∧ en.1 ≠ id)) ∧
      (upsertItems (entries.map Entry.item) sort id vals).2 = entries'.map Entry.item := by
  have hfind : (entries.map Entry.item).find? (fun it => it.id == id) =
      (entries.find? fun en => en.1 == id).map Entry.item := by
    rw [find?_map]
    rfl
  have herase : (entries.map Entry.item).eraseP (fun it => it.id == id) =
      (entries.eraseP fun en => en.1 == id).map Entry.item := by
    rw [eraseP_map]
    rfl
  unfold upsertItems
  rw [hfind, herase]
  cases hen : entries.find? fun en => en.1 == id with
  | none =>
    have hnew : id ∉ entries.map Prod.fst := by
      intro hmem
      obtain ⟨en, hen', rfl⟩ := mem_map.mp hmem
      simpa using find?_eq_none.mp hen en hen'
    obtain ⟨entries', hordered, hperm, hitems⟩ := h.insert hgaps hlen hvals hnew
    refine ⟨entries', hordered, fun en hen' => ?_, hitems.symm⟩
    rcases mem_cons.mp (hperm.mem_iff.mp hen') with rfl | hmem
    · exact .inl rfl
    · exact .inr ⟨hmem, fun heq => hnew (heq ▸ mem_map_of_mem hmem)⟩
  | some found =>
    have hfound : found ∈ entries := mem_of_find?_eq_some hen
    have hid : found.1 = id := by simpa using find?_some hen
    simp only [Option.map_some]
    split
    · -- the values are those the id already has
      rename_i hsame
      have hvals' : found.2 = vals := (deepEqualList_iff (h.conforms found hfound) hvals).mp hsame
      refine ⟨entries, h, fun en hen' => ?_, rfl⟩
      by_cases heq : en.1 = id
      · have hsame : en = found :=
          inj_on_of_nodup_map h.nodup hen' hfound (heq.trans hid.symm)
        exact .inl (by rw [hsame, ← hid, ← hvals'])
      · exact .inr ⟨hen', heq⟩
    · obtain ⟨herased, hmem⟩ := h.erase id
      have hnew : id ∉ (entries.eraseP fun en => en.1 == id).map Prod.fst := by
        intro hid
        obtain ⟨en, hen', rfl⟩ := mem_map.mp hid
        exact (hmem en hen').2 rfl
      obtain ⟨entries', hordered, hperm, hitems⟩ := herased.insert hgaps hlen hvals hnew
      refine ⟨entries', hordered, fun en hen' => ?_, hitems.symm⟩
      rcases mem_cons.mp (hperm.mem_iff.mp hen') with rfl | hen'
      · exact .inl rfl
      · exact .inr (hmem en hen')

theorem runMutations_invariant {apply : String → Option Json → Mutation → Option (Option Json)}
    {I : List Mutation → Option Json → Prop} {P : Mutation → Prop}
    (hstep : ∀ done file m version, I done file → P m →
      ∃ file', apply version file m = some file' ∧ I (done ++ [m]) file')
    (ms : List Mutation) (hms : ∀ m ∈ ms, P m) (versions : Nat → String) {done : List Mutation}
    {file : Option Json} (h : I done file) :
    ∃ file', runMutations apply versions ms file = some file' ∧ I (done ++ ms) file' := by
  induction ms generalizing done file versions with
  | nil => exact ⟨file, rfl, by simpa using h⟩
  | cons m ms ih =>
    obtain ⟨file₁, hfile₁, h₁⟩ := hstep done file m (versions 0) h (hms m mem_cons_self)
    obtain ⟨file', hrun, h'⟩ := ih (fun m' hm' => hms m' (mem_cons_of_mem _ hm'))
      (fun n => versions (n + 1)) h₁
    refine ⟨file', ?_, by simpa using h'⟩
    simp only [runMutations, hfile₁, hrun]

theorem lastValues_append (sort : List SortSpec) (done : List Mutation) (m : Mutation)
    (id : String) : lastValues fl sort (done ++ [m]) id =
      (m.valuesFor fl sort id).getD (lastValues fl sort done id) := by
  unfold lastValues
  rw [reverse_append]
  cases h : m.valuesFor fl sort id <;> simp [h]

def Mutation.Conforms (fl : Floats) (shapes : List KeyShape) (sort : List SortSpec) :
    Mutation → Prop
  | .upsert _ doc => Datorium.Conforms shapes (computeSortValues fl sort doc)
  | .remove _ => True

def OrderedFile (fl : Floats) (shapes : List KeyShape) (sort : List SortSpec)
    (done : List Mutation) (file : Option Json) : Prop :=
  ∃ entries : List (Entry fl), Saved file (entries.map Entry.item) ∧ Ordered shapes sort entries ∧
    ∀ en ∈ entries, lastValues fl sort done en.1 = en.2

theorem OrderedFile.step {shapes : List KeyShape} {ctx : BucketContext fl}
    (hgaps : GapsLast shapes) (hlen : ctx.sort.length = shapes.length)
    (hkey : ∀ v ∈ ctx.key, v.Stable fl) {done : List Mutation} {file : Option Json} {m : Mutation}
    (version : String) (h : OrderedFile fl shapes ctx.sort done file)
    (hm : m.Conforms fl shapes ctx.sort) :
    ∃ file', applyLocally ctx version file m = some file' ∧
      OrderedFile fl shapes ctx.sort (done ++ [m]) file' := by
  obtain ⟨entries, hsaved, hordered, hlast⟩ := h
  cases m with
  | upsert id doc =>
    obtain ⟨file', hfile', hsaved'⟩ := @Saved.localUpsert _ _ _ ctx id _ hsaved version hkey
      fun v hv => (hm.plain v hv).stable
    obtain ⟨entries', hordered', hmem, hitems⟩ :=
      @Ordered.upsert _ _ _ _ hordered hgaps hlen id _ hm
    refine ⟨file', hfile', entries', hitems ▸ hsaved', hordered', fun en hen => ?_⟩
    rw [lastValues_append, Mutation.valuesFor]
    rcases hmem en hen with rfl | ⟨hen, hne⟩
    · simp
    · rw [if_neg (Ne.symm hne)]
      exact hlast en hen
  | remove id =>
    obtain ⟨file', hfile', hsaved'⟩ := hsaved.removeFrom version id
    obtain ⟨hordered', hmem⟩ := hordered.erase id
    refine ⟨file', hfile', _, ?_, hordered', fun en hen => ?_⟩
    · rw [eraseP_map] at hsaved'
      exact hsaved'
    · rw [lastValues_append]
      exact hlast en (hmem en hen).1

/-- With sort values that fit their keys, every sequence of upserts and removals leaves the bucket
in the declared order. -/
theorem bucket_in_declared_order {shapes : List KeyShape} {ctx : BucketContext fl}
    (hgaps : GapsLast shapes) (hlen : ctx.sort.length = shapes.length)
    (hkey : ∀ v ∈ ctx.key, v.Stable fl) (versions : Nat → String) (ms : List Mutation)
    (hms : ∀ m ∈ ms, m.Conforms fl shapes ctx.sort) :
    ∃ file rf existed, runMutations (applyLocally ctx) versions ms none = some file ∧
      loadBucket fl file = some (rf, existed) ∧ InOrder fl ctx.sort ms rf := by
  have hstart : OrderedFile fl shapes ctx.sort [] none :=
    ⟨[], saved_none, ⟨by simp, by simp, by simp⟩, by simp⟩
  obtain ⟨file, hrun, entries, hsaved, hordered, hlast⟩ := runMutations_invariant
    (fun _ _ _ version h hm => h.step hgaps hlen hkey version hm) ms hms versions hstart
  obtain ⟨rf, existed, hload, -, hitems, -⟩ := hsaved
  refine ⟨file, rf, existed, hrun, hload, ?_⟩
  have hids : rf.items.map BucketItem.id = entries.map Prod.fst := by
    rw [hitems, map_map]
    rfl
  rw [InOrder, hids, pairwise_map]
  refine hordered.sorted.imp_of_mem fun {a b} ha hb hab => ?_
  rw [nil_append] at hlast
  rw [hlast a ha, hlast b hb]
  exact hab
end
namespace Sample
def filmBucket (sort : SortSpec) : BucketContext floats := ⟨"films", "byKey", [.bool true], [sort]⟩

def byTitle : SortSpec := ⟨"/title", .desc⟩
def byLength : SortSpec := ⟨"/length", .asc⟩

def titled : List Mutation :=
  [.upsert "f1" [("title", .str "Alien")], .upsert "f2" [], .upsert "f3" [("title", .str "Brazil")],
    .upsert "f2" [("title", .str "Cube")], .remove "f1"]

def measured : List Mutation :=
  [.upsert "f1" [("length", .num "31")], .upsert "f2" [("length", .num "0")]]

def unmeasured : List Mutation := [.upsert "f1" [], .upsert "f2" [("length", .null)]]

def bucketIds (apply : String → Option Json → Mutation → Option (Option Json))
    (ms : List Mutation) : Option (List String) := do
  let file ← runMutations apply (fun _ => "v") ms none
  let (rf, _) ← loadBucket floats file
  return rf.items.map BucketItem.id

def titleShape : KeyShape := ⟨.string, .missing⟩

theorem titled_conforms : ∀ m ∈ titled, m.Conforms floats [titleShape] [byTitle] := by
  intro m hm
  simp only [titled, mem_cons, not_mem_nil, or_false] at hm
  rcases hm with rfl | rfl | rfl | rfl | rfl
  · exact .cons (by rfl) .nil
  · exact .cons (by rfl) .nil
  · exact .cons (by rfl) .nil
  · exact .cons (by rfl) .nil
  · trivial

theorem films_by_title : ∃ file rf existed,
    runMutations (applyLocally (filmBucket byTitle)) (fun _ => "v") titled none = some file ∧
      loadBucket floats file = some (rf, existed) ∧ InOrder floats [byTitle] titled rf :=
  bucket_in_declared_order (fun _ h => by cases h) rfl
    (fun v hv => by cases mem_singleton.mp hv; trivial) (fun _ => "v") titled titled_conforms

theorem films_out_of_order :
    (bucketIds (applyLocally (filmBucket byLength)) measured = some ["f1", "f2"] ∧
      compareKeys floats [.asc] (lastValues floats [byLength] measured "f2")
        (lastValues floats [byLength] measured "f1") < 0) ∧
    (bucketIds (applyLocally (filmBucket byLength)) unmeasured = some ["f1", "f2"] ∧
      compareKeys floats [.asc] (lastValues floats [byLength] unmeasured "f2")
        (lastValues floats [byLength] unmeasured "f1") < 0) := by
  decide +kernel
end Sample
end Datorium
