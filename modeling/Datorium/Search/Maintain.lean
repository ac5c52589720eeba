
import Datorium.Search.Distribute
namespace Datorium
open Framework Program World List
def fileIds : Option File → List String
  | some (.json v) => listedIds v
  | _ => []

def World.bucketIds {ν : Type} (e : Engine) (collection : String) (w : World ν) (b : Bucket) :
    List String := fileIds (w.files (b.path e collection))

section
variable {fl : Floats}
theorem fileIds_eq {file : Option File} {rf : ResultFile fl} {existed : Bool}
    (h : loadFile fl file = some (rf, existed)) : fileIds file = rf.items.map BucketItem.id := by
  cases file with
  | none =>
    cases h
    rfl
  | some f =>
    cases f with
    | bytes data => cases h
    | json v =>
      cases hv : ResultFile.ofJson fl v with
      | none => simp [loadFile, hv] at h
      | some rf' =>
        simp only [loadFile, hv, Option.map_some, Option.some.injEq, Prod.mk.injEq] at h
        rw [← h.1]
        exact listedIds_eq hv

def BucketRun.adds : BucketRun fl → Bool
  | .remove _ => false
  | _ => true

structure BucketRun.Applied (r : BucketRun fl) (before after : List String) : Prop where
  distinct : after.Nodup
  others : ∀ id, id ≠ r.id → (id ∈ after ↔ id ∈ before)
  own : r.id ∈ after ↔ r.adds = true

namespace BucketRun
variable {r : BucketRun fl} {before after : List String}
theorem Applied.trans {last : List String} (h : r.Applied before after)
    (h' : r.Applied after last) : r.Applied before last where
  distinct := h'.distinct
  others id hid := (h'.others id hid).trans (h.others id hid)
  own := h'.own

theorem own_of_reflected {rf : ResultFile fl} (h : r.Reflected rf) :
    r.id ∈ rf.items.map BucketItem.id ↔ r.adds = true := by
  cases r with
  | localUpsert ctx id sortVals =>
    obtain ⟨it, hit, hid, -⟩ := h
    exact iff_of_true (mem_map.mpr ⟨it, hit, hid⟩) rfl
  | remoteUpsert ctx id sortVals =>
    obtain ⟨it, hit, hid, -⟩ := h
    exact iff_of_true (mem_map.mpr ⟨it, hit, hid⟩) rfl
  | remove id => exact iff_of_false h Bool.false_ne_true

variable {file : Option File} {rf rf' : ResultFile fl} {existed : Bool}
theorem applied_of_unchanged (hload : loadFile fl file = some (rf, existed))
    (hdistinct : (fileIds file).Nodup) (h : (r.mutate (rf.named fl) existed).1 = false) :
    r.Applied (fileIds file) (fileIds file) where
  distinct := hdistinct
  others _ _ := Iff.rfl
  own := by
    have hreflected : r.Reflected (rf.named fl) := by
      refine reflected_of_unchanged ?_ h
      rintro rfl
      rw [named_items, loadFile_none_existed fl hload]
    rw [fileIds_eq hload, ← named_items rf]
    exact own_of_reflected hreflected

theorem applied_of_changed (hload : loadFile fl file = some (rf, existed))
    (hdistinct : (fileIds file).Nodup) (h : r.mutate (rf.named fl) existed = (true, rf'))
    (version : String) :
    r.Applied (fileIds file)
      (fileIds (some (.json (({ rf' with version } : ResultFile fl).toJson fl)))) := by
  have hchanged : (r.mutate (rf.named fl) existed).1 = true := by rw [h]
  have hids : ((rf.named fl).items.map BucketItem.id).Nodup := by
    rw [named_items, ← fileIds_eq hload]
    exact hdistinct
  have hafter : fileIds (some (.json (({ rf' with version } : ResultFile fl).toJson fl))) =
      (r.mutate (rf.named fl) existed).2.items.map BucketItem.id := by
    rw [h]
    exact listedIds_toJson _
  rw [hafter, fileIds_eq hload]
  refine ⟨distinct_mutate hids hchanged, fun id hid => ?_,
    own_of_reflected (reflected_of_changed hids hchanged)⟩
  rw [← named_items rf, mem_map, mem_map]
  constructor
  · rintro ⟨it, hit, rfl⟩
    exact ⟨it, (mem_mutate hchanged hid).mp hit, rfl⟩
  · rintro ⟨it, hit, rfl⟩
    exact ⟨it, (mem_mutate hchanged hid).mpr hit, rfl⟩
end BucketRun

def Leaves {ν : Type} (keep : Path → Prop) (rely : World ν → World ν → Prop) : Prop :=
  ∀ s t, rely s t → ∀ p, keep p → t.files p = s.files p

/-- Of the kept files only one may have changed, and its ids are those from before or those after
the mutation. -/
structure Mutating {ν : Type} (keep : Path → Prop) (path : Path) (r : BucketRun fl)
    (w t : World ν) : Prop where
  others : ∀ p, keep p → p ≠ path → t.files p = w.files p
  ids : fileIds (t.files path) = fileIds (w.files path) ∨
    r.Applied (fileIds (w.files path)) (fileIds (t.files path))

structure Attempted {ν α : Type} (keep : Path → Prop) (path : Path) (r : BucketRun fl)
    (w : World ν) (res : Except FsError α) (t : World ν) : Prop
    extends Mutating keep path r w t where
  applied : ∀ a, res = .ok a → r.Applied (fileIds (w.files path)) (fileIds (t.files path))
  loads : ∀ a, res = .ok a → (loadFile fl (t.files path)).isSome = true

section
variable {ν : Type} {host : Host ν} {faults : Faults} {may : Op → World ν → Prop}
  {rely : World ν → World ν → Prop} {keep : Path → Prop} {path : Path} {r : BucketRun fl}
  {w s t : World ν}
theorem Mutating.refl (w : World ν) : Mutating keep path r w w :=
  ⟨fun _ _ _ => rfl, .inl rfl⟩

theorem Mutating.same (h : Mutating keep path r w s)
    (hst : ∀ p, keep p → t.files p = s.files p) (hpath : keep path) :
    Mutating keep path r w t := by
  refine ⟨fun p hp hne => (hst p hp).trans (h.others p hp hne), ?_⟩
  rw [hst path hpath]
  exact h.ids

theorem Mutating.distinct (h : Mutating keep path r w t)
    (hdistinct : (fileIds (w.files path)).Nodup) : (fileIds (t.files path)).Nodup := by
  rcases h.ids with hsame | happlied
  · rw [hsame]
    exact hdistinct
  · exact happlied.distinct

variable {α : Type}
theorem Attempted.same {res : Except FsError α} (h : Attempted keep path r w res s)
    (hst : ∀ p, keep p → t.files p = s.files p) (hpath : keep path) :
    Attempted keep path r w res t := by
  refine ⟨h.toMutating.same hst hpath, ?_, ?_⟩
  · rw [hst path hpath]
    exact h.applied
  · rw [hst path hpath]
    exact h.loads

theorem Mutating.error (h : Mutating keep path r w t) (err : FsError) :
    Attempted keep path r w (.error err : Except FsError α) t :=
  ⟨h, fun _ ha => (by cases ha), fun _ ha => (by cases ha)⟩

theorem Mutating.applied (h : Mutating keep path r w t) {ids : List String}
    (happlied : r.Applied (fileIds (t.files path)) ids) : r.Applied (fileIds (w.files path)) ids := by
  rcases h.ids with hsame | hbefore
  · rwa [hsame] at happlied
  · exact hbefore.trans happlied

theorem loadedResult_ok {site : Site} {a : ResultFile fl × Bool}
    (h : loadedResult fl path (exec host faults ⟨site, .readFile path⟩ t).1 = .ok a) :
    loadFile fl (t.files path) = some a := by
  cases hf : faults site with
  | true => simp [exec, hf, Call.failed, loadedResult, FsError.isNotExist] at h
  | false =>
    have hnone : (exec host faults ⟨site, .readFile path⟩ t).1 =
        (exec host .none ⟨site, .readFile path⟩ t).1 := by simp [exec, hf]
    rw [hnone] at h
    rcases @loadedResult_eq fl ν host site path t with ⟨a', hload, hr⟩ | ⟨-, err, hr⟩
    · rw [hr] at h
      cases h
      exact hload
    · rw [hr] at h
      cases h

theorem among_unchanged {A : World ν → Prop} {p : Prog α} (hleaves : Leaves keep rely)
    (hA : ∀ s t, A s → (∀ p, keep p → t.files p = s.files p) → A t)
    (honly : p.Only fun op => ∀ p, keep p → op.call.Avoids p) (hs : A s) :
    Among (exec host faults) may rely (fun _ _ => True) (fun _ t => A t) p s :=
  .only honly hs (fun s t hs hst => hA s t hs (hleaves s t hst)) fun _ t hop ht _ =>
    ⟨trivial, hA t _ ht fun p hp => (hop p hp).exec t⟩

theorem among_loadResultFile {A : World ν → Prop} (hleaves : Leaves keep rely) (hpath : keep path)
    (hA : ∀ s t, A s → (∀ p, keep p → t.files p = s.files p) → A t) (hs : A s) (site : Site) :
    Among (exec host faults) may rely (fun _ _ => True)
      (fun res t => A t ∧ ∀ a, res = .ok a → loadFile fl (t.files path) = some a)
      (loadResultFile fl site path) s := by
  intro t hst _
  refine ⟨trivial, fun u htu => ?_⟩
  have havoids : ∀ p, (exec host faults ⟨site, .readFile path⟩ t).2.files p = t.files p := by
    intro p
    have hread : (Call.readFile path).Avoids p := trivial
    exact Call.Avoids.exec hread t
  have hsame : ∀ p, keep p → u.files p = t.files p :=
    fun p hp => (hleaves _ u htu p hp).trans (havoids p)
  refine ⟨hA t u (hA s t hs (hleaves s t hst)) hsame, fun a ha => ?_⟩
  rw [hsame path hpath]
  exact loadedResult_ok ha

structure Held (keep : Path → Prop) (path : Path) (r : BucketRun fl) (w : World ν)
    (rf : ResultFile fl) (existed : Bool) (t : World ν) : Prop extends Mutating keep path r w t where
  load : loadFile fl (t.files path) = some (rf, existed)

theorem Held.same {rf : ResultFile fl} {existed : Bool} (h : Held keep path r w rf existed s)
    (hst : ∀ p, keep p → t.files p = s.files p) (hpath : keep path) :
    Held keep path r w rf existed t := by
  refine ⟨h.toMutating.same hst hpath, ?_⟩
  rw [hst path hpath]
  exact h.load

structure Rewritten {α : Type} (keep : Path → Prop) (path : Path) (r : BucketRun fl) (w : World ν)
    (res : Except FsError α) (t : World ν) : Prop extends Mutating keep path r w t where
  applied : ∀ a, res = .ok a → r.Applied (fileIds (w.files path)) (fileIds (t.files path))

theorem Rewritten.same {res : Except FsError α} (h : Rewritten keep path r w res s)
    (hst : ∀ p, keep p → t.files p = s.files p) (hpath : keep path) :
    Rewritten keep path r w res t := by
  refine ⟨h.toMutating.same hst hpath, ?_⟩
  rw [hst path hpath]
  exact h.applied

theorem only_prepareFile_avoids {site : WriteStep → Site} {steps : List WriteStep} :
    (prepareFile site path steps).Only fun op => ∀ p, keep p → op.call.Avoids p := by
  induction steps with
  | nil => trivial
  | cons step steps ih =>
    refine ⟨fun p _ => trivial, fun res => ?_⟩
    cases res with
    | error err => trivial
    | ok u => exact ih

theorem among_writeResultFile (hrefl : ∀ s, rely s s) (hleaves : Leaves keep rely)
    (hpath : keep path) (hdistinct : (fileIds (w.files path)).Nodup) {rf rf' : ResultFile fl}
    {existed : Bool} (hs : Held keep path r w rf existed s)
    (hmutate : r.mutate (rf.named fl) existed = (true, rf')) (site : WriteStep → Site)
    (version : String) :
    Among (exec host faults) may rely (fun _ _ => True) (fun res t => Rewritten keep path r w res t)
      (writeResultFile fl site path { rf' with version }) s := by
  refine .bind hrefl (among_unchanged hleaves (fun s t h hst => h.same hst hpath)
    only_prepareFile_avoids hs) fun res t ht => ?_
  cases res with
  | error err =>
    exact fun u hu => ⟨(ht.same (hleaves _ _ hu) hpath).toMutating, fun _ ha => (by cases ha)⟩
  | ok u =>
    intro t' ht' _
    have hheld := ht.same (hleaves _ _ ht') hpath
    refine ⟨trivial, ?_⟩
    cases hf : faults (site .rename) with
    | true =>
      have hfail : exec host faults ⟨site .rename, .install path
          (.json (({ rf' with version } : ResultFile fl).toJson fl))⟩ t' = (.error .io, t') := by
        simp [exec, hf, Call.failed]
      rw [hfail]
      exact fun v hv =>
        ⟨(hheld.same (hleaves _ _ hv) hpath).toMutating, fun _ ha => (by cases ha)⟩
    | false =>
      have hok : exec host faults ⟨site .rename, .install path
          (.json (({ rf' with version } : ResultFile fl).toJson fl))⟩ t' =
          (.ok (), t'.put path
            (some (.json (({ rf' with version } : ResultFile fl).toJson fl)))) := by
        simp [exec, hf, Call.apply]
      rw [hok]
      intro v hv
      have happlied : r.Applied (fileIds (w.files path)) (fileIds (some (.json
          (({ rf' with version } : ResultFile fl).toJson fl)))) :=
        hheld.toMutating.applied (BucketRun.applied_of_changed hheld.load
          (hheld.toMutating.distinct hdistinct) hmutate version)
      have hstored : Rewritten keep path r w (.ok () : Except FsError Unit) (t'.put path
          (some (.json (({ rf' with version } : ResultFile fl).toJson fl)))) := by
        refine ⟨⟨fun p hp hne => ?_, .inr ?_⟩, fun _ _ => ?_⟩
        · rw [put_files_other _ hne]
          exact hheld.others p hp hne
        · rwa [put_files_same]
        · rwa [put_files_same]
      exact hstored.same (hleaves _ _ hv) hpath

theorem among_mutationAttempts (hrefl : ∀ s, rely s s) (hleaves : Leaves keep rely)
    (hpath : keep path) (hdistinct : (fileIds (w.files path)).Nodup) (attempts : List Nat)
    (last : Option FsError) (hs : Mutating keep path r w s) :
    Among (exec host faults) may rely (fun _ _ => True) (fun res t => Attempted keep path r w res t)
      (mutationAttempts fl path r.mutate attempts last) s := by
  induction attempts generalizing s last with
  | nil => exact fun t ht => (hs.same (hleaves _ _ ht) hpath).error _
  | cons attempt attempts ih =>
    rw [mutationAttempts]
    refine .bind hrefl (among_loadResultFile hleaves hpath (fun _ _ h hst => h.same hst hpath)
      hs _) fun res t ht => ?_
    obtain ⟨ht, hload⟩ := ht
    cases res with
    | error err => exact fun u hu => (ht.same (hleaves _ _ hu) hpath).error err
    | ok loaded =>
      obtain ⟨rf, existed⟩ := loaded
      have hheld : Held keep path r w rf existed t := ⟨ht, hload _ rfl⟩
      rcases hmutate : r.mutate (rf.named fl) existed with ⟨changed, rf'⟩
      simp only [hmutate]
      cases changed with
      | false =>
        have hunchanged : (r.mutate (rf.named fl) existed).1 = false := by rw [hmutate]
        have happlied := ht.applied (BucketRun.applied_of_unchanged (hload _ rfl)
          (ht.distinct hdistinct) hunchanged)
        have hdone : Attempted keep path r w (.ok (false, rf'.version) :
            Except FsError (Bool × String)) t :=
          ⟨ht, fun _ _ => happlied, fun _ _ => by rw [hload _ rfl]; rfl⟩
        exact fun u hu => hdone.same (hleaves _ _ hu) hpath
      | true =>
        refine .bind hrefl (among_unchanged hleaves (fun _ _ h hst => h.same hst hpath)
          ⟨fun _ _ => trivial, fun _ => trivial⟩ hheld) fun res t ht => ?_
        cases res with
        | error err => exact fun u hu => (ht.same (hleaves _ _ hu) hpath).toMutating.error err
        | ok version =>
          refine .bind hrefl (among_writeResultFile hrefl hleaves hpath hdistinct ht hmutate _
            version) fun res t ht => ?_
          cases res with
          | error err =>
            exact fun u hu => (ht.same (hleaves _ _ hu) hpath).toMutating.error err
          | ok u =>
            refine .bind hrefl (among_loadResultFile hleaves hpath
              (fun _ _ h hst => h.same hst hpath) ht _) fun res t ht => ?_
            obtain ⟨ht, hload⟩ := ht
            cases res with
            | error err => exact ih _ ht.toMutating
            | ok checked =>
              obtain ⟨check, existed'⟩ := checked
              dsimp only
              split
              · have hdone : Attempted keep path r w (.ok (true, version) :
                    Except FsError (Bool × String)) t :=
                  ⟨ht.toMutating, fun _ _ => ht.applied _ rfl, fun _ _ => by rw [hload _ rfl]; rfl⟩
                exact fun u hu => hdone.same (hleaves _ _ hu) hpath
              · exact ih _ ht.toMutating

theorem among_applyRun (hrefl : ∀ s, rely s s) (hleaves : Leaves keep rely) (hpath : keep path)
    (hdistinct : (fileIds (s.files path)).Nodup) :
    Among (exec host faults) may rely (fun _ _ => True)
      (fun res t => Attempted keep path r s res t) (applyRun path r) s := by
  refine .bind hrefl (among_mutationAttempts hrefl hleaves hpath hdistinct _ none (.refl s))
    fun res t ht => ?_
  cases res with
  | error err => exact fun u hu => (ht.same (hleaves _ _ hu) hpath).toMutating.error err
  | ok a =>
    have hdone : Attempted keep path r s (.ok () : Except FsError Unit) t :=
      ⟨ht.toMutating, fun _ _ => ht.applied a rfl, fun _ _ => ht.loads a rfl⟩
    exact fun u hu => hdone.same (hleaves _ _ hu) hpath
end

theorem only_pushMutation {keep : Path → Prop} (remote : RemoteApplier fl)
    (coll searchName : String) (segments : List String) (r : BucketRun fl)
    (targets : List String) (firstErr : Option FsError) :
    (pushMutation remote coll searchName segments r targets firstErr).Only
      fun op => ∀ p, keep p → op.call.Avoids p := by
  induction targets generalizing firstErr with
  | nil => cases firstErr <;> trivial
  | cons target targets ih =>
    refine .bind ((remote.leavesFiles _ _ _ _ _).mono fun op hop p _ => hop p) fun res => ?_
    cases res <;> exact ih _

theorem only_deliverRemote {keep : Path → Prop} (remote : Option (RemoteApplier fl))
    (coll searchName : String) (segments : List String) (r : BucketRun fl)
    (targets : List String) :
    (deliverRemote remote coll searchName segments r targets).Only
      fun op => ∀ p, keep p → op.call.Avoids p := by
  cases targets with
  | nil => trivial
  | cons target targets =>
    cases remote with
    | none => trivial
    | some remote => exact only_pushMutation remote _ _ _ _ _ _

def BucketPath (e : Engine) (collection : String) (path : Path) : Prop :=
  ∃ b : Bucket, path = b.path e collection

structure Routed {ν : Type} (e : Engine) (collection : String) (b : Bucket) (r : BucketRun fl)
    (w : World ν) (res : Except FsError Unit) (t : World ν) : Prop
    extends Mutating (BucketPath e collection) (b.path e collection) r w t where
  applied : res = .ok () → e.HoldsBucket b.segments →
    r.Applied (w.bucketIds e collection b) (t.bucketIds e collection b)
  loads : res = .ok () → (loadFile fl (w.files (b.path e collection))).isSome = true →
    (loadFile fl (t.files (b.path e collection))).isSome = true

section
variable {ν : Type} {host : Host ν} {faults : Faults} {may : Op → World ν → Prop}
  {rely : World ν → World ν → Prop} {e : Engine} {remote : Option (RemoteApplier fl)}
  {coll : String} {b : Bucket} {r : BucketRun fl} {w s t : World ν}
theorem Routed.same {res : Except FsError Unit} (h : Routed e coll b r w res s)
    (hst : ∀ p, BucketPath e coll p → t.files p = s.files p) :
    Routed e coll b r w res t := by
  have hpath := hst (b.path e coll) ⟨b, rfl⟩
  refine ⟨h.toMutating.same hst ⟨b, rfl⟩, fun hok hholds => ?_, ?_⟩
  · rw [bucketIds, bucketIds, hpath]
    exact h.applied hok hholds
  · rw [hpath]
    exact h.loads

theorem Routed.unheld (w : World ν) (hnot : ¬ e.HoldsBucket b.segments)
    (res : Except FsError Unit) : Routed e coll b r w res w :=
  ⟨.refl w, fun _ hholds => absurd hholds hnot, fun _ h => h⟩

theorem Routed.of_mutated {res : Except FsError Unit}
    (h : Attempted (BucketPath e coll) (b.path e coll) r w res t) :
    Routed e coll b r w res t :=
  ⟨h.toMutating, fun hok _ => h.applied _ hok, fun hok _ => h.loads _ hok⟩

theorem among_routed_quiet {p : Prog (Except FsError Unit)}
    (hleaves : Leaves (BucketPath e coll) rely)
    (honly : p.Only fun op => ∀ path, BucketPath e coll path → op.call.Avoids path)
    (hs : ∀ res, Routed e coll b r w res s) :
    Among (exec host faults) may rely (fun _ _ => True)
      (fun res t => Routed e coll b r w res t) p s := by
  have hp : Among (exec host faults) may rely (fun _ _ => True)
      (fun _ t => ∀ res, Routed e coll b r w res t) p s :=
    among_unchanged hleaves (fun _ _ h hst res => (h res).same hst) honly hs
  exact hp.mono fun res _ h => h res

theorem among_routedRun (hrefl : ∀ s, rely s s) (hleaves : Leaves (BucketPath e coll) rely)
    (hdistinct : (s.bucketIds e coll b).Nodup) :
    Among (exec host faults) may rely (fun _ _ => True)
      (fun res t => Routed e coll b r s res t) (routedRun e remote coll b.name b.segments r) s := by
  have hlocal : Among (exec host faults) may rely (fun _ _ => True)
      (fun res t => Attempted (BucketPath e coll) (b.path e coll) r s res t)
      (applyRun (searchResultPath e.dataDir coll b.name b.segments) r) s :=
    among_applyRun hrefl hleaves ⟨b, rfl⟩ hdistinct
  have hquiet : ∀ targets, ¬ e.HoldsBucket b.segments →
      Among (exec host faults) may rely (fun _ _ => True) (fun res t => Routed e coll b r s res t)
        (deliverRemote remote coll b.name b.segments r targets) s :=
    fun targets hnot => among_routed_quiet hleaves (only_deliverRemote _ _ _ _ _ _)
      (Routed.unheld s hnot)
  unfold routedRun deliverMutation
  dsimp only
  cases hok : (e.cfg.slotAssignment (rawSlot (shardInput b.segments))).2 with
  | false =>
    rw [Bool.not_false, if_pos rfl]
    split
    · exact hlocal.mono fun _ _ h => .of_mutated h
    · rename_i howner
      have hnot : ¬ e.HoldsBucket b.segments := by
        rw [Engine.HoldsBucket, hok]
        exact howner
      cases hremote : remote with
      | none => exact fun t ht => (Routed.unheld s hnot _).same (hleaves _ _ ht)
      | some remote =>
        exact among_routed_quiet hleaves
          ((remote.leavesFiles _ _ _ _ _).mono fun _ hop p _ => hop p) (Routed.unheld s hnot)
  | true =>
    rw [Bool.not_true, if_neg Bool.false_ne_true]
    split
    · refine .bind hrefl hlocal fun res t ht => ?_
      cases res with
      | error err => exact fun u hu => (Routed.of_mutated ht).same (hleaves _ _ hu)
      | ok u =>
        have hdone : ∀ res, Routed e coll b r s res t := fun res =>
          ⟨ht.toMutating, fun _ _ => ht.applied u rfl, fun _ _ => ht.loads u rfl⟩
        exact among_routed_quiet hleaves (only_deliverRemote _ _ _ _ _ _) hdone
    · rename_i hself
      refine hquiet _ ?_
      rw [Engine.HoldsBucket, hok, if_pos rfl]
      exact hself
end

/-- The id of one document was taken out of buckets in `removed` and put into buckets in `added`. -/
structure Edited {ν : Type} (e : Engine) (collection id : String) (removed added : Bucket → Prop)
    (w t : World ν) : Prop where
  others : ∀ b x, x ≠ id → (x ∈ t.bucketIds e collection b ↔ x ∈ w.bucketIds e collection b)
  lost : ∀ b, id ∈ w.bucketIds e collection b → id ∉ t.bucketIds e collection b → removed b
  gained : ∀ b, id ∉ w.bucketIds e collection b → id ∈ t.bucketIds e collection b → added b
  distinct : (∀ b, (w.bucketIds e collection b).Nodup) → ∀ b, (t.bucketIds e collection b).Nodup

def StaysLoadable {ν : Type} (fl : Floats) (e : Engine) (collection : String) (w t : World ν) : Prop :=
  ∀ b : Bucket, (loadFile fl (w.files (b.path e collection))).isSome = true →
    (loadFile fl (t.files (b.path e collection))).isSome = true

section
variable {ν : Type} {e : Engine} {coll id : String} {removed added : Bucket → Prop}
  {w s t : World ν}
theorem Edited.refl (w : World ν) : Edited e coll id removed added w w :=
  ⟨fun _ _ _ => Iff.rfl, fun _ h hn => absurd h hn, fun _ hn h => absurd h hn, fun h => h⟩

theorem Edited.trans (h : Edited e coll id removed added w s)
    (h' : Edited e coll id removed added s t) :
    Edited e coll id removed added w t where
  others b x hx := (h'.others b x hx).trans (h.others b x hx)
  lost b hw ht := by
    by_cases hs : id ∈ s.bucketIds e coll b
    · exact h'.lost b hs ht
    · exact h.lost b hw hs
  gained b hw ht := by
    by_cases hs : id ∈ s.bucketIds e coll b
    · exact h.gained b hw hs
    · exact h'.gained b hs ht
  distinct hw := h'.distinct (h.distinct hw)

theorem Edited.mono {removed' added' : Bucket → Prop} (h : Edited e coll id removed added w t)
    (hr : ∀ b, removed b → removed' b) (ha : ∀ b, added b → added' b) :
    Edited e coll id removed' added' w t :=
  ⟨h.others, fun b hw ht => hr b (h.lost b hw ht), fun b hw ht => ha b (h.gained b hw ht),
    h.distinct⟩

theorem bucketIds_same (h : ∀ p, BucketPath e coll p → t.files p = s.files p) (b : Bucket) :
    t.bucketIds e coll b = s.bucketIds e coll b := by
  rw [bucketIds, bucketIds, h _ ⟨b, rfl⟩]

theorem Edited.same (h : Edited e coll id removed added w s)
    (hst : ∀ p, BucketPath e coll p → t.files p = s.files p) :
    Edited e coll id removed added w t := by
  refine ⟨fun b x hx => ?_, fun b hw ht => ?_, fun b hw ht => ?_, fun hw b => ?_⟩
  · rw [bucketIds_same hst]
    exact h.others b x hx
  · rw [bucketIds_same hst] at ht
    exact h.lost b hw ht
  · rw [bucketIds_same hst] at ht
    exact h.gained b hw ht
  · rw [bucketIds_same hst]
    exact h.distinct hw b

theorem Edited.before {w' : World ν} (h : Edited e coll id removed added w t)
    (hsame : ∀ p, BucketPath e coll p → w'.files p = w.files p) :
    Edited e coll id removed added w' t := by
  refine ⟨fun b x hx => ?_, fun b hw ht => ?_, fun b hw ht => ?_, fun hw b => ?_⟩
  · rw [bucketIds_same hsame]
    exact h.others b x hx
  · rw [bucketIds_same hsame] at hw
    exact h.lost b hw ht
  · rw [bucketIds_same hsame] at hw
    exact h.gained b hw ht
  · refine h.distinct (fun b' => ?_) b
    rw [← bucketIds_same hsame]
    exact hw b'

theorem StaysLoadable.same (h : StaysLoadable fl e coll w s)
    (hst : ∀ p, BucketPath e coll p → t.files p = s.files p) :
    StaysLoadable fl e coll w t := by
  intro b hb
  rw [hst _ ⟨b, rfl⟩]
  exact h b hb

variable {b : Bucket} {r : BucketRun fl} {res : Except FsError Unit}
theorem Routed.elsewhere (hc : e.cfg.Configured coll) (h : Routed e coll b r w res t)
    {b' : Bucket} (hne : b' ≠ b) :
    t.files (b'.path e coll) = w.files (b'.path e coll) :=
  h.others _ ⟨b', rfl⟩ fun heq => hne (Bucket.path_inj hc hc heq).2

theorem Routed.edited (hc : e.cfg.Configured coll) (h : Routed e coll b r w res t)
    (hid : r.id = id) : Edited e coll id (fun b' => b' = b ∧ r.adds = false)
      (fun b' => b' = b ∧ r.adds = true) w t := by
  subst hid
  have helsewhere : ∀ b', b' ≠ b → t.bucketIds e coll b' = w.bucketIds e coll b' := by
    intro b' hne
    rw [bucketIds, bucketIds, h.elsewhere hc hne]
  refine ⟨fun b' x hx => ?_, fun b' hw ht => ?_, fun b' hw ht => ?_, fun hw b' => ?_⟩
  · by_cases hb : b' = b
    · subst hb
      rcases h.ids with hsame | happlied
      · rw [bucketIds, hsame]
        rfl
      · exact happlied.others x hx
    · rw [helsewhere b' hb]
  · by_cases hb : b' = b
    · subst hb
      refine ⟨rfl, ?_⟩
      rcases h.ids with hsame | happlied
      · rw [bucketIds, hsame] at ht
        exact absurd hw ht
      · exact Bool.eq_false_iff.mpr fun hadds => ht (happlied.own.mpr hadds)
    · rw [helsewhere b' hb] at ht
      exact absurd hw ht
  · by_cases hb : b' = b
    · subst hb
      refine ⟨rfl, ?_⟩
      rcases h.ids with hsame | happlied
      · rw [bucketIds, hsame] at ht
        exact absurd ht hw
      · exact happlied.own.mp ht
    · rw [helsewhere b' hb] at ht
      exact absurd ht hw
  · by_cases hb : b' = b
    · subst hb
      exact h.toMutating.distinct (hw b')
    · rw [helsewhere b' hb]
      exact hw b'

theorem Routed.staysLoadable (hc : e.cfg.Configured coll)
    (h : Routed e coll b r w (.ok ()) t) : StaysLoadable fl e coll w t := by
  intro b' hb'
  by_cases hb : b' = b
  · subst hb
    exact h.loads rfl hb'
  · rw [h.elsewhere hc hb]
    exact hb'
end

/-- Wherever a revision stops it has done no more than it was to do, and where it ends well all of
it. -/
structure Revised {ν : Type} (fl : Floats) (e : Engine) (collection id : String)
    (removed added : Bucket → Prop) (w : World ν) (res : Except FsError Unit) (t : World ν) :
    Prop where
  edited : Edited e collection id removed added w t
  gone : res = .ok () → ∀ b, removed b → e.HoldsBucket b.segments → id ∉ t.bucketIds e collection b
  there : res = .ok () → ∀ b, added b → e.HoldsBucket b.segments → id ∈ t.bucketIds e collection b
  loadable : res = .ok () → StaysLoadable fl e collection w t

section
variable {ν : Type} {e : Engine} {coll id : String}
  {removed added removed' added' : Bucket → Prop} {w s t : World ν} {res : Except FsError Unit}
theorem Revised.same (h : Revised fl e coll id removed added w res s)
    (hst : ∀ p, BucketPath e coll p → t.files p = s.files p) :
    Revised fl e coll id removed added w res t := by
  refine ⟨h.edited.same hst, fun hok b hb hholds => ?_, fun hok b hb hholds => ?_,
    fun hok => (h.loadable hok).same hst⟩
  · rw [bucketIds_same hst]
    exact h.gone hok b hb hholds
  · rw [bucketIds_same hst]
    exact h.there hok b hb hholds

theorem Revised.nothing (hr : ∀ b, ¬ removed b) (ha : ∀ b, ¬ added b) (w : World ν) :
    Revised fl e coll id removed added w (.ok ()) w :=
  ⟨.refl w, fun _ b hb => absurd hb (hr b), fun _ b hb => absurd hb (ha b), fun _ _ h => h⟩

theorem Revised.congr (h : Revised fl e coll id removed added w res t)
    (hr : ∀ b, removed' b ↔ removed b) (ha : ∀ b, added' b ↔ added b) :
    Revised fl e coll id removed' added' w res t :=
  ⟨h.edited.mono (fun b => (hr b).mpr) fun b => (ha b).mpr,
    fun hok b hb => h.gone hok b ((hr b).mp hb), fun hok b hb => h.there hok b ((ha b).mp hb),
    h.loadable⟩

theorem Edited.stop (h : Edited e coll id removed added w t)
    (hr : ∀ b, removed b → removed' b) (ha : ∀ b, added b → added' b) (err : FsError) :
    Revised fl e coll id removed' added' w (.error err) t :=
  ⟨h.mono hr ha, fun hok => (by cases hok), fun hok => (by cases hok), fun hok => (by cases hok)⟩

theorem Revised.andThen (h : Revised fl e coll id removed added w (.ok ()) s)
    (h' : Revised fl e coll id removed' added' s res t)
    (hr : ∀ b, removed b → ¬ added' b) (ha : ∀ b, added b → ¬ removed' b) :
    Revised fl e coll id (fun b => removed b ∨ removed' b) (fun b => added b ∨ added' b)
      w res t where
  edited := (h.edited.mono (fun _ => .inl) fun _ => .inl).trans
    (h'.edited.mono (fun _ => .inr) fun _ => .inr)
  gone hok b hb hholds := by
    rcases hb with hb | hb
    · exact fun ht => hr b hb (h'.edited.gained b (h.gone rfl b hb hholds) ht)
    · exact h'.gone hok b hb hholds
  there hok b hb hholds := by
    rcases hb with hb | hb
    · by_contra ht
      exact ha b hb (h'.edited.lost b (h.there rfl b hb hholds) ht)
    · exact h'.there hok b hb hholds
  loadable hok b hb := h'.loadable hok b (h.loadable rfl b hb)

theorem Routed.revised {b : Bucket} {r : BucketRun fl} (hc : e.cfg.Configured coll)
    (h : Routed e coll b r w res t) (hid : r.id = id) :
    Revised fl e coll id (fun b' => b' = b ∧ r.adds = false)
      (fun b' => b' = b ∧ r.adds = true) w res t := by
  refine ⟨h.edited hc hid, ?_, ?_, ?_⟩
  · rintro hok b' ⟨rfl, hadds⟩ hholds hmem
    rw [← hid] at hmem
    rw [(h.applied hok hholds).own.mp hmem] at hadds
    cases hadds
  · rintro hok b' ⟨rfl, hadds⟩ hholds
    rw [← hid]
    exact (h.applied hok hholds).own.mpr hadds
  · rintro rfl
    exact h.staysLoadable hc
end
section
variable {ν : Type} {host : Host ν} {faults : Faults} {may : Op → World ν → Prop}
  {rely : World ν → World ν → Prop} {e : Engine} {remote : Option (RemoteApplier fl)}
  {coll id : String} {w s t : World ν}
variable {results : List (EvalResult fl)} {d : Definition fl.F} {doc : Option JsonFields}
theorem among_eachBucket (hc : e.cfg.Configured coll) (hrefl : ∀ s, rely s s)
    (hleaves : Leaves (BucketPath e coll) rely) {what name : String} (hname : PlainName name)
    {run : EvalResult fl → BucketRun fl} {adds : Bool} (hid : ∀ r, (run r).id = id)
    (hadds : ∀ r, (run r).adds = adds) (hplain : ∀ r ∈ results, ∀ seg ∈ r.segments, PlainName seg)
    (hdistinct : ∀ b, (s.bucketIds e coll b).Nodup) :
    Among (exec host faults) may rely (fun _ _ => True) (fun res t => Revised fl e coll id
        (fun b => adds = false ∧ b.name = name ∧ b.segments ∈ results.map EvalResult.segments)
        (fun b => adds = true ∧ b.name = name ∧ b.segments ∈ results.map EvalResult.segments)
        s res t)
      (eachBucket what (fun r => routedRun e remote coll name r.segments (run r)) results) s := by
  induction results generalizing s with
  | nil =>
    exact fun t ht => (Revised.nothing (fun b hb => by simp at hb) (fun b hb => by simp at hb)
      s).same (hleaves _ _ ht)
  | cons r results ih =>
    rw [eachBucket]
    let b : Bucket := ⟨name, r.segments, hname, hplain r mem_cons_self⟩
    have hb : ∀ b' : Bucket, b' = b ↔ b'.name = name ∧ b'.segments = r.segments :=
      fun b' => ⟨fun h => h ▸ ⟨rfl, rfl⟩, fun h => Bucket.ext h.1 h.2⟩
    have hone : Among (exec host faults) may rely (fun _ _ => True)
        (fun res t => Routed e coll b (run r) s res t)
        (routedRun e remote coll name r.segments (run r)) s :=
      among_routedRun hrefl hleaves (hdistinct b)
    refine .bind hrefl hone fun res t ht => ?_
    have hrevised := ht.revised hc (hid r)
    rw [hadds r] at hrevised
    cases res with
    | error err =>
      refine fun u hu => (hrevised.edited.stop ?_ ?_ _).same (hleaves _ _ hu)
      · rintro b' ⟨hb', hadds'⟩
        obtain ⟨hn, hsegs⟩ := (hb b').mp hb'
        exact ⟨hadds', hn, by simp [hsegs]⟩
      · rintro b' ⟨hb', hadds'⟩
        obtain ⟨hn, hsegs⟩ := (hb b').mp hb'
        exact ⟨hadds', hn, by simp [hsegs]⟩
    | ok u =>
      refine (ih (fun r' hr' => hplain r' (mem_cons_of_mem _ hr'))
        (hrevised.edited.distinct hdistinct)).mono fun res t' ht' => ?_
      refine (hrevised.andThen ht' ?_ ?_).congr (fun b' => ?_) fun b' => ?_
      · rintro b' ⟨-, hfalse⟩ ⟨htrue, -⟩
        rw [hfalse] at htrue
        cases htrue
      · rintro b' ⟨-, htrue⟩ ⟨hfalse, -⟩
        rw [hfalse] at htrue
        cases htrue
      · rw [hb b', map_cons, mem_cons]
        tauto
      · rw [hb b', map_cons, mem_cons]
        tauto

def Outdated (defs : List (String × Definition fl.F)) (prevDoc currentDoc : Option JsonFields)
    (b : Bucket) : Prop :=
  ∃ d, (b.name, d) ∈ defs ∧ b.segments ∈ bucketsOf d prevDoc ∧ b.segments ∉ bucketsOf d currentDoc

def Belongs (defs : List (String × Definition fl.F)) (doc : Option JsonFields) (b : Bucket) : Prop :=
  ∃ d, (b.name, d) ∈ defs ∧ b.segments ∈ bucketsOf d doc

def Evaluates (defs : List (String × Definition fl.F)) (doc : Option JsonFields) : Prop :=
  ∀ entry ∈ defs, ∃ results, evaluateDocument fl entry.2 doc = .ok results

theorem isMatch_of_evaluateDocument (h : evaluateDocument fl d doc = .ok results)
    {r : EvalResult fl} (hr : r ∈ results) : r.isMatch = true := by
  unfold evaluateDocument at h
  split at h
  · cases h
    cases hr
  · split at h
    · cases h
    · cases h
      cases hr
    · cases h
      exact isMatch_of_mem_expandBuckets hr

theorem isSome_get?_bucketIndex (h : evaluateDocument fl d doc = .ok results) (hfl : fl.Printed)
    {segs : List String} (hplain : ∀ seg ∈ segs, PlainName seg) :
    (Fields.get? (shardInput segs) (bucketIndex fl results)).isSome = true ↔
      segs ∈ bucketsOf d doc := by
  rw [bucketsOf_eq h, mem_map]
  constructor
  · intro hsome
    obtain ⟨r, hr⟩ := Option.isSome_iff_exists.mp hsome
    obtain ⟨hmem, hkey⟩ := mem_bucketIndex (Fields.mem_of_get? hr)
    have hrplain : ∀ seg ∈ r.segments, PlainName seg :=
      plain_bucketsOf hfl (bucketsOf_eq h ▸ mem_map_of_mem hmem)
    exact ⟨r, hmem, (shardInput_inj hplain hrplain hkey).symm⟩
  · rintro ⟨r, hr, rfl⟩
    exact bucketIndex_complete hr (isMatch_of_evaluateDocument h hr)

theorem exists_mem_bucketIndex (h : evaluateDocument fl d doc = .ok results) (hfl : fl.Printed)
    {segs : List String} :
    (∃ entry ∈ bucketIndex fl results, entry.2.segments = segs) ↔ segs ∈ bucketsOf d doc := by
  constructor
  · rintro ⟨entry, hentry, rfl⟩
    rw [bucketsOf_eq h]
    exact mem_map_of_mem (mem_bucketIndex hentry).1
  · intro hsegs
    have hplain := plain_bucketsOf hfl hsegs
    obtain ⟨r, hr⟩ := Option.isSome_iff_exists.mp ((isSome_get?_bucketIndex h hfl hplain).mpr hsegs)
    have hentry := Fields.mem_of_get? hr
    obtain ⟨hmem, hkey⟩ := mem_bucketIndex hentry
    have hrplain : ∀ seg ∈ r.segments, PlainName seg :=
      plain_bucketsOf hfl (bucketsOf_eq h ▸ mem_map_of_mem hmem)
    exact ⟨_, hentry, (shardInput_inj hplain hrplain hkey).symm⟩

section
variable {d : Definition fl.F} {prevDoc currentDoc : Option JsonFields}
  {olds news : List (EvalResult fl)} (hold : evaluateDocument fl d prevDoc = .ok olds)
  (hnew : evaluateDocument fl d currentDoc = .ok news) (order : MapOrder) (hfl : fl.Printed)
include hnew hfl

theorem mem_arranged_index {segs : List String} :
    segs ∈ ((order.arrange (bucketIndex fl news)).map Prod.snd).map EvalResult.segments ↔
      segs ∈ bucketsOf d currentDoc := by
  rw [← exists_mem_bucketIndex hnew hfl]
  simp only [mem_map, exists_exists_and_eq_and, (order.perm _).mem_iff]

include hold

theorem mem_outdated_index {segs : List String} :
    segs ∈ (((order.arrange (bucketIndex fl olds)).filter fun entry =>
        (Fields.get? entry.1 (bucketIndex fl news)).isNone).map Prod.snd).map EvalResult.segments ↔
      segs ∈ bucketsOf d prevDoc ∧ segs ∉ bucketsOf d currentDoc := by
  have hkept : ∀ entry ∈ bucketIndex fl olds,
      ((Fields.get? entry.1 (bucketIndex fl news)).isNone = true ↔
        entry.2.segments ∉ bucketsOf d currentDoc) := by
    intro entry hentry
    obtain ⟨hmem, hkey⟩ := mem_bucketIndex hentry
    have hplain : ∀ seg ∈ entry.2.segments, PlainName seg :=
      plain_bucketsOf hfl (bucketsOf_eq hold ▸ mem_map_of_mem hmem)
    rw [hkey, ← isSome_get?_bucketIndex hnew hfl hplain]
    simp
  rw [← exists_mem_bucketIndex hold hfl]
  simp only [mem_map, mem_filter, exists_exists_and_eq_and, (order.perm _).mem_iff]
  constructor
  · rintro ⟨entry, ⟨hentry, hnone⟩, rfl⟩
    exact ⟨⟨entry, hentry, rfl⟩, (hkept entry hentry).mp hnone⟩
  · rintro ⟨⟨entry, hentry, rfl⟩, hnot⟩
    exact ⟨entry, ⟨hentry, (hkept entry hentry).mpr hnot⟩, rfl⟩
end

structure Spread (fl : Floats) (e : Engine) (collection id : String)
    (defs : List (String × Definition fl.F)) (prevDoc currentDoc : Option JsonFields) (w : World ν)
    (res : Except FsError Unit) (t : World ν) : Prop
    extends Revised fl e collection id (Outdated defs prevDoc currentDoc) (Belongs defs currentDoc)
      w res t where
  evaluated : res = .ok () → Evaluates defs prevDoc ∧ Evaluates defs currentDoc

variable {prevDoc currentDoc : Option JsonFields}
variable {defs : List (String × Definition fl.F)}
theorem Spread.same {res : Except FsError Unit}
    (h : Spread fl e coll id defs prevDoc currentDoc w res s)
    (hst : ∀ p, BucketPath e coll p → t.files p = s.files p) :
    Spread fl e coll id defs prevDoc currentDoc w res t :=
  ⟨h.toRevised.same hst, h.evaluated⟩

theorem Spread.of_error {err : FsError}
    (h : Revised fl e coll id (Outdated defs prevDoc currentDoc) (Belongs defs currentDoc) w
      (.error err) t) : Spread fl e coll id defs prevDoc currentDoc w (.error err) t :=
  ⟨h, fun hok => (by cases hok)⟩

theorem among_distributeDefinition (hc : e.cfg.Configured coll) (hrefl : ∀ s, rely s s)
    (hleaves : Leaves (BucketPath e coll) rely) (hfl : fl.Printed) (order : MapOrder)
    {name : String} (hname : PlainName name) (d : Definition fl.F)
    (hdistinct : ∀ b, (s.bucketIds e coll b).Nodup) :
    Among (exec host faults) may rely (fun _ _ => True)
      (fun res t => Spread fl e coll id [(name, d)] prevDoc currentDoc s res t)
      (distributeDefinition e remote order coll id prevDoc currentDoc name d) s := by
  have houtdated : ∀ b, Outdated [(name, d)] prevDoc currentDoc b ↔
      b.name = name ∧ b.segments ∈ bucketsOf d prevDoc ∧ b.segments ∉ bucketsOf d currentDoc := by
    intro b
    simp [Outdated]
  have hbelongs : ∀ b, Belongs [(name, d)] currentDoc b ↔
      b.name = name ∧ b.segments ∈ bucketsOf d currentDoc := by
    intro b
    simp [Belongs]
  have huntouched : Edited e coll id (fun _ => False) (fun _ => False) s s := .refl s
  have hstop : ∀ (err : FsError) (t : World ν), rely s t →
      Spread fl e coll id [(name, d)] prevDoc currentDoc s (.error err) t :=
    fun err t ht => (Spread.of_error (huntouched.stop (fun _ hf => hf.elim) (fun _ hf => hf.elim)
      err)).same (hleaves _ _ ht)
  unfold distributeDefinition
  cases hold : evaluateDocument fl d prevDoc with
  | error message => exact hstop _
  | ok olds =>
    cases hnew : evaluateDocument fl d currentDoc with
    | error message => exact hstop _
    | ok news =>
      have hevaluated : Evaluates [(name, d)] prevDoc ∧ Evaluates [(name, d)] currentDoc := by
        simp [Evaluates, hold, hnew]
      dsimp only
      -- first the buckets the document leaves
      have hremove : Among (exec host faults) may rely (fun _ _ => True)
          (fun res t => Revised fl e coll id (Outdated [(name, d)] prevDoc currentDoc)
            (fun _ => False) s res t)
          (eachBucket ("remove from old " ++ name ++ " bucket: ")
            (fun b => routedRun e remote coll name b.segments (.remove id))
            (((order.arrange (bucketIndex fl olds)).filter fun entry =>
              (Fields.get? entry.1 (bucketIndex fl news)).isNone).map Prod.snd)) s := by
        refine (among_eachBucket hc hrefl hleaves hname (fun _ => rfl) (fun _ => rfl)
          (fun r hr => ?_) hdistinct).mono fun res t ht => ht.congr (fun b => ?_) fun b => ?_
        · have hsegs := (mem_outdated_index hold hnew order hfl).mp (mem_map_of_mem hr)
          exact plain_bucketsOf hfl hsegs.1
        · rw [houtdated, mem_outdated_index hold hnew order hfl]
          exact ⟨fun h => ⟨rfl, h⟩, fun h => h.2⟩
        · exact ⟨fun h => h.elim, fun h => absurd h.1 Bool.false_ne_true⟩
      refine .bind hrefl hremove fun res t ht => ?_
      cases res with
      | error err =>
        exact fun u hu => (Spread.of_error (ht.edited.stop (fun _ h => h)
          (fun _ hf => hf.elim) err)).same (hleaves _ _ hu)
      | ok u =>
        cases currentDoc with
        | none =>
          have hnone : Revised fl e coll id (Outdated [(name, d)] prevDoc none)
              (Belongs [(name, d)] none) s (.ok ()) t :=
            ht.congr (fun _ => Iff.rfl) fun b => by simp [hbelongs b]
          exact fun v hv => (Spread.mk hnone fun _ => hevaluated).same (hleaves _ _ hv)
        | some doc =>
          -- then those it belongs to
          let run : EvalResult fl → BucketRun fl := fun b =>
            .localUpsert ⟨coll, name, b.key, d.sort⟩ id (computeSortValues fl d.sort doc)
          have hid : ∀ b, (run b).id = id := fun _ => rfl
          have hadds : ∀ b, (run b).adds = true := fun _ => rfl
          refine (among_eachBucket hc hrefl hleaves hname hid hadds (fun r hr => ?_)
            (ht.edited.distinct hdistinct)).mono fun res v hv => ?_
          · have hsegs := (mem_arranged_index hnew order hfl).mp (mem_map_of_mem hr)
            exact plain_bucketsOf hfl hsegs
          · refine ⟨(ht.andThen hv ?_ ?_).congr (fun b => ?_) fun b => ?_, fun _ => hevaluated⟩
            · rintro b hb ⟨-, -, hsegs⟩
              exact ((houtdated b).mp hb).2.2 ((mem_arranged_index hnew order hfl).mp hsegs)
            · exact fun _ hf => hf.elim
            · exact ⟨.inl, fun h => h.resolve_right fun h => Bool.false_ne_true h.1.symm⟩
            · rw [hbelongs, mem_arranged_index hnew order hfl]
              exact ⟨fun h => .inr ⟨rfl, h⟩, fun h => (h.resolve_left not_false).2⟩

theorem among_distributeDefinitions (hc : e.cfg.Configured coll) (hrefl : ∀ s, rely s s)
    (hleaves : Leaves (BucketPath e coll) rely) (hfl : fl.Printed) (order : MapOrder)
    (hnames : ∀ entry ∈ defs, PlainName entry.1) (hnodup : (defs.map Prod.fst).Nodup)
    (hdistinct : ∀ b, (s.bucketIds e coll b).Nodup) :
    Among (exec host faults) may rely (fun _ _ => True)
      (fun res t => Spread fl e coll id defs prevDoc currentDoc s res t)
      (distributeDefinitions e remote order coll id prevDoc currentDoc defs) s := by
  induction defs generalizing s with
  | nil =>
    have hnothing : Revised fl e coll id (Outdated ([] : List (String × Definition fl.F))
        prevDoc currentDoc) (Belongs ([] : List (String × Definition fl.F)) currentDoc)
        s (.ok ()) s :=
      .nothing (fun b => by simp [Outdated]) (fun b => by simp [Belongs]) s
    exact fun t ht => (Spread.mk hnothing fun _ => by simp [Evaluates]).same (hleaves _ _ ht)
  | cons entry defs ih =>
    obtain ⟨name, d⟩ := entry
    rw [map_cons, nodup_cons] at hnodup
    have houtdated : ∀ b, Outdated ((name, d) :: defs) prevDoc currentDoc b ↔
        Outdated [(name, d)] prevDoc currentDoc b ∨ Outdated defs prevDoc currentDoc b := by
      intro b
      simp only [Outdated, mem_cons, not_mem_nil, or_false]
      rw [← exists_or]
      refine exists_congr fun d' => ?_
      tauto
    have hbelongs : ∀ b, Belongs ((name, d) :: defs) currentDoc b ↔
        Belongs [(name, d)] currentDoc b ∨ Belongs defs currentDoc b := by
      intro b
      simp only [Belongs, mem_cons, not_mem_nil, or_false]
      rw [← exists_or]
      refine exists_congr fun d' => ?_
      tauto
    -- the definitions have different names, so no bucket belongs to two of them
    have hapart : ∀ (b : Bucket) d', (b.name, d') ∈ [(name, d)] → ∀ d'', (b.name, d'') ∉ defs := by
      intro b d' hd' d'' hd''
      rw [mem_singleton, Prod.mk.injEq] at hd'
      have hname : b.name ∈ defs.map Prod.fst := mem_map.mpr ⟨_, hd'', rfl⟩
      rw [hd'.1] at hname
      exact hnodup.1 hname
    refine .bind hrefl (among_distributeDefinition hc hrefl hleaves hfl order
      (hnames _ mem_cons_self) d hdistinct) fun res t ht => ?_
    cases res with
    | error err =>
      exact fun u hu => (Spread.of_error (ht.edited.stop (fun b hb => (houtdated b).mpr (.inl hb))
        (fun b hb => (hbelongs b).mpr (.inl hb)) err)).same (hleaves _ _ hu)
    | ok u =>
      refine (ih (fun entry hentry => hnames entry (mem_cons_of_mem _ hentry)) hnodup.2
        (ht.edited.distinct hdistinct)).mono fun res t' ht' => ?_
      refine ⟨(ht.toRevised.andThen ht'.toRevised ?_ ?_).congr houtdated hbelongs, fun hok => ?_⟩
      · rintro b ⟨d', hd', -⟩ ⟨d'', hd'', -⟩
        exact hapart b d' hd' d'' hd''
      · rintro b ⟨d', hd', -⟩ ⟨d'', hd'', -⟩
        exact hapart b d' hd' d'' hd''
      · obtain ⟨hprev, hcurrent⟩ := ht.evaluated rfl
        obtain ⟨hprev', hcurrent'⟩ := ht'.evaluated hok
        exact ⟨forall_mem_cons.mpr ⟨hprev _ mem_cons_self, hprev'⟩,
          forall_mem_cons.mpr ⟨hcurrent _ mem_cons_self, hcurrent'⟩⟩

def Searches.of (searches : Searches fl) (collection : String) : List (String × Definition fl.F) :=
  (Fields.get? collection searches.definitions).getD []

theorem among_distributeSearch (searches : Searches fl) (hc : e.cfg.Configured coll)
    (hrefl : ∀ s, rely s s) (hleaves : Leaves (BucketPath e coll) rely) (hfl : fl.Printed)
    (order : MapOrder) (hdistinct : ∀ b, (s.bucketIds e coll b).Nodup) :
    Among (exec host faults) may rely (fun _ _ => True)
      (fun res t => Spread fl e coll id (searches.of coll) prevDoc currentDoc s res t)
      (distributeSearch searches e remote order coll id prevDoc currentDoc) s := by
  have hperm := order.perm (searches.of coll)
  refine (among_distributeDefinitions hc hrefl hleaves hfl order
    (fun entry hentry => searches.plainNames _ entry (hperm.mem_iff.mp hentry))
    ((hperm.map Prod.fst).nodup_iff.mpr (searches.distinct coll)) hdistinct).mono fun res t ht => ?_
  have hmem : ∀ entry, entry ∈ order.arrange (searches.of coll) ↔
      entry ∈ searches.of coll := fun _ => hperm.mem_iff
  refine ⟨ht.toRevised.congr (fun b => ?_) fun b => ?_, fun hok => ?_⟩
  · exact exists_congr fun d => and_congr_left fun _ => (hmem _).symm
  · exact exists_congr fun d => and_congr_left fun _ => (hmem _).symm
  · obtain ⟨hprev, hcurrent⟩ := ht.evaluated hok
    exact ⟨fun entry hentry => hprev entry ((hmem entry).mpr hentry),
      fun entry hentry => hcurrent entry ((hmem entry).mpr hentry)⟩

theorem Spread.mem_iff (h : Spread fl e coll id defs prevDoc currentDoc w (.ok ()) t) {b : Bucket}
    (hholds : e.HoldsBucket b.segments) :
    id ∈ t.bucketIds e coll b ↔ Belongs defs currentDoc b ∨
      id ∈ w.bucketIds e coll b ∧ ¬ Outdated defs prevDoc currentDoc b := by
  constructor
  · intro ht
    by_cases hb : Belongs defs currentDoc b
    · exact .inl hb
    · refine .inr ⟨?_, fun hout => h.gone rfl b hout hholds ht⟩
      by_contra hw
      exact hb (h.edited.gained b hw ht)
  · rintro (hb | ⟨hw, hout⟩)
    · exact h.there rfl b hb hholds
    · by_contra ht
      exact hout (h.edited.lost b hw ht)
end
end
end Datorium
