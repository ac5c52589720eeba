
import Datorium.Search.Order
import Datorium.Search.Store
/-! # Concurrent updates of a bucket -/
namespace Datorium
open Framework Program
structure BucketRuns (fl : Floats) (P ν : Type) where
  host : Host ν
  path : Path
  runs : P → BucketRun fl
  world : World ν

/-- Which runs are between a load after which they will write and the verification, and the order in
which runs took effect. -/
structure BucketDesk (P ν : Type) where
  world : World ν
  amid : P → Bool
  log : List P

namespace BucketRuns
variable {fl : Floats} {P ν : Type} (x : BucketRuns fl P ν)
def file (s : BucketDesk P ν) : Option File := s.world.files x.path

def changes (p : P) (file : Option File) : Option Bool :=
  (loadFile fl file).map fun (rf, existed) => ((x.runs p).mutate (rf.named fl) existed).1

def step [DecidableEq P] (p : P) : Handler Op Op.Answer (BucketDesk P ν) := fun op s =>
  let out := exec x.host .none op s.world
  (out.1, match op.site with
    | .bucket _ _ .load =>
      match x.changes p (x.file s) with
      | none => { s with world := out.2 }
      | some true => { s with world := out.2, amid := Function.update s.amid p true }
      | some false => { s with world := out.2, log := s.log ++ [p] }
    | .bucket _ _ (.write .rename) => { s with world := out.2, log := s.log ++ [p] }
    | .bucket _ _ .verify => { s with world := out.2, amid := Function.update s.amid p false }
    | _ => { s with world := out.2 })

def start : Pool P Op Op.Answer (BucketDesk P ν) (Except FsError (Bool × String)) :=
  ⟨fun p => applyMutation fl x.path (x.runs p).mutate, ⟨x.world, fun _ => false, []⟩⟩

/-- A run writes only while no other run is between its load and its verification, and only a file
that can be loaded. -/
def Orderly (p : P) (op : Op) (s : BucketDesk P ν) : Prop :=
  ∀ v, op.call = .install x.path (.json v) →
    (∀ q, q ≠ p → s.amid q = false) ∧ (ResultFile.ofJson fl v).isSome = true

def After (log : List P) (p q : P) : Prop :=
  ∃ before after, log = before ++ after ∧ p ∉ after ∧ q ∈ after

/-- The mutation of `p` is in the file, or a later run on the same id took effect. -/
def Stands (p : P) (s : BucketDesk P ν) : Prop :=
  (∃ rf existed, loadFile fl (x.file s) = some (rf, existed) ∧ (x.runs p).Reflected rf) ∨
    ∃ q, (x.runs q).id = (x.runs p).id ∧ After s.log p q

def Distinct (s : BucketDesk P ν) : Prop :=
  ∀ rf existed, loadFile fl (x.file s) = some (rf, existed) → (rf.items.map BucketItem.id).Nodup

structure Others (p : P) (s t : BucketDesk P ν) : Prop where
  amid : t.amid p = s.amid p
  file : s.amid p = true → x.file t = x.file s
  own : p ∈ t.log ↔ p ∈ s.log
  stands : x.Distinct s → p ∈ s.log → x.Stands p s → x.Stands p t
  distinct : x.Distinct s → x.Distinct t

theorem Others.refl (p : P) (s : BucketDesk P ν) : x.Others p s s :=
  ⟨rfl, fun _ => rfl, Iff.rfl, fun _ _ h => h, fun h => h⟩

theorem Others.trans {p : P} {a b c : BucketDesk P ν} (h : x.Others p a b) (h' : x.Others p b c) :
    x.Others p a c where
  amid := h'.amid.trans h.amid
  file ha := (h'.file (h.amid.trans ha)).trans (h.file ha)
  own := h'.own.trans h.own
  stands hd ha hs := h'.stands (h.distinct hd) (h.own.mpr ha) (h.stands hd ha hs)
  distinct ha := h'.distinct (h.distinct ha)

/-- The file `v` is what run `p` makes of the file it finds. -/
def Replaces (p : P) (s : BucketDesk P ν) (v : Json) : Prop :=
  ∃ rf existed rf' version, loadFile fl (x.file s) = some (rf, existed) ∧
    (x.runs p).mutate (rf.named fl) existed = (true, rf') ∧
      v = ({ rf' with version } : ResultFile fl).toJson fl

def Proper (p : P) (op : Op) (s : BucketDesk P ν) : Prop :=
  (op.call.Avoids x.path ∧ ∀ path attempt, op.site ≠ .bucket path attempt (.write .rename)) ∨
    ∃ attempt v, op = ⟨.bucket x.path attempt (.write .rename), .install x.path (.json v)⟩ ∧
      x.Replaces p s v

theorem After.append {log : List P} {p q : P} (h : After log p q) {r : P} (hr : r ≠ p) :
    After (log ++ [r]) p q := by
  obtain ⟨before, after, rfl, hp, hq⟩ := h
  refine ⟨before, after ++ [r], by simp, ?_, by simp [hq]⟩
  simp [hp, Ne.symm hr]

theorem After.last {log : List P} {p q : P} (h : q ≠ p) : After (log ++ [q]) p q :=
  ⟨log, [q], rfl, by simp [Ne.symm h], by simp⟩

section
variable {x} {p q : P} {s t : BucketDesk P ν}
theorem Stands.same_file (hs : x.Stands q s) (hfile : x.file t = x.file s) (hne : p ≠ q)
    (hlog : t.log = s.log ∨ t.log = s.log ++ [p]) : x.Stands q t := by
  rcases hs with ⟨rf, existed, hload, hr⟩ | ⟨r, hid, hafter⟩
  · exact .inl ⟨rf, existed, by rwa [hfile], hr⟩
  · refine .inr ⟨r, hid, ?_⟩
    rcases hlog with hlog | hlog
    · rwa [hlog]
    · rw [hlog]
      exact hafter.append hne

theorem Distinct.same_file (hs : x.Distinct s) (hfile : x.file t = x.file s) : x.Distinct t := by
  intro rf existed hload
  rw [hfile] at hload
  exact hs rf existed hload

theorem Replaces.loaded {v : Json} (h : x.Replaces p s v)
    (hload : (ResultFile.ofJson fl v).isSome = true) (hdistinct : x.Distinct s) :
    ∃ rf, loadFile fl (some (.json v)) = some (rf, true) ∧ (rf.items.map BucketItem.id).Nodup ∧
      (x.runs p).Reflected rf ∧ ∀ rf₀ existed, loadFile fl (x.file s) = some (rf₀, existed) →
          ∀ r : BucketRun fl, r.id ≠ (x.runs p).id → r.Reflected rf₀ → r.Reflected rf := by
  obtain ⟨rf₀, existed, rf', version, hfile, hmutate, rfl⟩ := h
  obtain ⟨rf, hrf⟩ := Option.isSome_iff_exists.mp hload
  have hchanged : ((x.runs p).mutate (rf₀.named fl) existed).1 = true := by rw [hmutate]
  have hids : ((rf₀.named fl).items.map BucketItem.id).Nodup := by
    rw [named_items]
    exact hdistinct _ _ hfile
  have hversion : ∀ r : BucketRun fl, r.Reflected ((x.runs p).mutate (rf₀.named fl) existed).2 →
      r.Reflected rf := by
    intro r hr
    rw [hmutate] at hr
    have hr' : r.Reflected { rf' with version } := BucketRun.Reflected.of_items rfl hr
    exact hr'.loaded hrf
  refine ⟨rf, by simp [loadFile, hrf], ?_, hversion _ (BucketRun.reflected_of_changed hids hchanged),
    ?_⟩
  · rw [← listedIds_eq hrf, listedIds_toJson]
    have hnodup := BucketRun.distinct_mutate hids hchanged
    rwa [hmutate] at hnodup
  · intro rf₁ existed₁ hfile₁ r hne hr
    rw [hfile] at hfile₁
    cases hfile₁
    exact hversion r ((BucketRun.Reflected.of_items (named_items rf₀) hr).frame hne hchanged)

structure Loaded (p : P) (rf : ResultFile fl) (existed : Bool) (s : BucketDesk P ν) : Prop where
  amid : s.amid p = true
  fresh : p ∉ s.log
  distinct : x.Distinct s
  file : loadFile fl (x.file s) = some (rf, existed)

structure Written (p : P) (version : String) (s : BucketDesk P ν) : Prop where
  amid : s.amid p = true
  logged : p ∈ s.log
  distinct : x.Distinct s
  stands : x.Stands p s
  file : ∃ rf, loadFile fl (x.file s) = some (rf, true) ∧ rf.version = version

def Ended (p : P) (s : BucketDesk P ν) : Except FsError (Bool × String) → Prop
  | .ok _ => x.Distinct s ∧ p ∈ s.log ∧ x.Stands p s
  | .error _ => p ∉ s.log

theorem Loaded.others {rf : ResultFile fl} {existed : Bool} (h : x.Loaded p rf existed s)
    (ho : x.Others p s t) : x.Loaded p rf existed t :=
  ⟨ho.amid.trans h.amid, fun hp => h.fresh (ho.own.mp hp), ho.distinct h.distinct,
    by rw [ho.file h.amid]; exact h.file⟩

theorem Written.others {version : String} (h : x.Written p version s) (ho : x.Others p s t) :
    x.Written p version t :=
  ⟨ho.amid.trans h.amid, ho.own.mpr h.logged, ho.distinct h.distinct,
    ho.stands h.distinct h.logged h.stands, by rw [ho.file h.amid]; exact h.file⟩

theorem Ended.others {r : Except FsError (Bool × String)} (h : x.Ended p s r)
    (ho : x.Others p s t) : x.Ended p t r := by
  cases r with
  | ok a =>
    obtain ⟨hdistinct, hlogged, hstands⟩ := h
    exact ⟨ho.distinct hdistinct, ho.own.mpr hlogged, ho.stands hdistinct hlogged hstands⟩
  | error err => exact fun hp => h (ho.own.mp hp)

def Quiet (path : Path) (op : Op) : Prop :=
  (∃ attempt, op = ⟨.bucket path attempt .version, .newId⟩) ∨ ∃ attempt step, step ≠ .rename ∧
      op = ⟨.bucket path attempt (.write step), .prepare step path⟩

theorem Quiet.proper {op : Op} (h : Quiet x.path op) : x.Proper p op s := by
  rcases h with ⟨attempt, rfl⟩ | ⟨attempt, wstep, hstep, rfl⟩
  · exact .inl ⟨trivial, by simp⟩
  · exact .inl ⟨trivial, by simp [hstep]⟩
end
section
variable {x} [DecidableEq P] {p q : P} {s t : BucketDesk P ν} {op : Op}
theorem step_fst : (x.step p op s).1 = (exec x.host .none op s.world).1 := rfl

theorem step_world : (x.step p op s).2.world = (exec x.host .none op s.world).2 := by
  unfold step
  dsimp only
  split
  · split <;> rfl
  all_goals rfl

theorem file_step (h : op.call.Avoids x.path) : x.file (x.step p op s).2 = x.file s := by
  rw [file, step_world]
  exact h.exec s.world

theorem step_amid_other (hq : q ≠ p) : (x.step p op s).2.amid q = s.amid q := by
  unfold step
  dsimp only
  split
  · split
    · rfl
    · exact Function.update_of_ne hq _ _
    · rfl
  · rfl
  · exact Function.update_of_ne hq _ _
  · rfl

theorem step_log : (x.step p op s).2.log = s.log ∨ (x.step p op s).2.log = s.log ++ [p] := by
  unfold step
  dsimp only
  split
  · split
    · exact .inl rfl
    · exact .inl rfl
    · exact .inr rfl
  · exact .inr rfl
  · exact .inl rfl
  · exact .inl rfl

theorem mem_log_step (hne : q ≠ p) : q ∈ (x.step p op s).2.log ↔ q ∈ s.log := by
  rcases @step_log fl P ν x _ p s op with hlog | hlog <;> simp [hlog, hne]

theorem file_install {attempt : Nat} {v : Json} :
    x.file (x.step p ⟨.bucket x.path attempt (.write .rename), .install x.path (.json v)⟩ s).2 =
      some (.json v) := by
  rw [file, step_world]
  exact World.put_files_same _ _ _

theorem Proper.others (h : x.Proper p op s) (horderly : x.Orderly p op s) (hne : q ≠ p) :
    x.Others q s (x.step p op s).2 := by
  rcases h with ⟨havoids, -⟩ | ⟨attempt, v, rfl, hreplaces⟩
  · have hfile : x.file (x.step p op s).2 = x.file s := file_step havoids
    exact ⟨step_amid_other hne, fun _ => hfile, mem_log_step hne,
      fun _ _ hs => hs.same_file hfile (Ne.symm hne) step_log, fun hs => hs.same_file hfile⟩
  · obtain ⟨halone, hload⟩ := horderly v rfl
    refine ⟨step_amid_other hne, fun hamid => ?_, mem_log_step hne, fun hd _ hs => ?_, fun hs => ?_⟩
    · rw [halone q hne] at hamid
      cases hamid
    · -- a run on the same id is later, any other leaves the items alone
      obtain ⟨rf, hrf, -, -, hframe⟩ := hreplaces.loaded hload hd
      rcases hs with ⟨rf₀, existed, hfile, hr⟩ | ⟨r, hid, hafter⟩
      · by_cases hid : (x.runs q).id = (x.runs p).id
        · exact .inr ⟨p, hid.symm, After.last (Ne.symm hne)⟩
        · exact .inl ⟨rf, true, by rw [file_install, hrf], hframe rf₀ existed hfile _ hid hr⟩
      · exact .inr ⟨r, hid, hafter.append (Ne.symm hne)⟩
    · obtain ⟨rf, hrf, hnodup, -⟩ := hreplaces.loaded hload hs
      intro rf' existed hrf'
      rw [file_install, hrf] at hrf'
      cases hrf'
      exact hnodup

def AfterLoad (p : P) (s : BucketDesk P ν) : Except FsError (ResultFile fl × Bool) → Prop
  | .error _ => p ∉ s.log
  | .ok (rf, existed) =>
    match ((x.runs p).mutate (rf.named fl) existed).1 with
    | true => x.Loaded p rf existed s
    | false => x.Distinct s ∧ p ∈ s.log ∧ x.Stands p s

theorem step_load {attempt : Nat} :
    (x.step p ⟨.bucket x.path attempt .load, .readFile x.path⟩ s).2 =
      match x.changes p (x.file s) with
      | none => s
      | some true => { s with amid := Function.update s.amid p true }
      | some false => { s with log := s.log ++ [p] } := by
  have hworld : (exec x.host .none ⟨.bucket x.path attempt .load, .readFile x.path⟩ s.world).2 =
      s.world := by
    cases hfile : s.world.files x.path <;> simp [exec, Call.apply, hfile]
  simp only [step, hworld]

theorem among_load (hfresh : p ∉ s.log) (hdistinct : x.Distinct s) (attempt : Nat) :
    Among (x.step p) (x.Orderly p) (x.Others p) (x.Proper p) (fun r s => x.AfterLoad p s r)
      (loadResultFile fl (.bucket x.path attempt .load) x.path) s := by
  have hcall : loadResultFile fl (.bucket x.path attempt .load) x.path = .call
      ⟨.bucket x.path attempt .load, .readFile x.path⟩ fun r => .done (loadedResult fl x.path r) := rfl
  rw [hcall]
  intro t ht _
  refine ⟨.inl ⟨trivial, by simp⟩, fun u hu => ?_⟩
  have hfresh' : p ∉ t.log := fun hp => hfresh (ht.own.mp hp)
  have hdistinct' := ht.distinct hdistinct
  rw [step_load] at hu
  rw [step_fst]
  rcases @loadedResult_eq fl ν x.host (.bucket x.path attempt .load) x.path t.world with
    ⟨⟨rf, existed⟩, hload, hr⟩ | ⟨hload, err, hr⟩
  · have hchanges : x.changes p (x.file t) = some ((x.runs p).mutate (rf.named fl) existed).1 := by
      simp [changes, file, hload]
    rw [hchanges] at hu
    rw [hr]
    simp only [AfterLoad]
    cases hchanged : ((x.runs p).mutate (rf.named fl) existed).1 with
    | true =>
      rw [hchanged] at hu
      have hloaded : x.Loaded p rf existed { t with amid := Function.update t.amid p true } :=
        ⟨Function.update_self _ _ _, hfresh', hdistinct', hload⟩
      exact hloaded.others hu
    | false =>
      rw [hchanged] at hu
      have hreflected : (x.runs p).Reflected rf := by
        refine BucketRun.Reflected.of_items (named_items rf).symm
          (BucketRun.reflected_of_unchanged ?_ hchanged)
        rintro rfl
        rw [named_items, loadFile_none_existed fl hload]
      have hended : x.Ended p { t with log := t.log ++ [p] } (.ok (false, "")) :=
        ⟨hdistinct', by simp, .inl ⟨rf, existed, hload, hreflected⟩⟩
      exact hended.others hu
  · have hchanges : x.changes p (x.file t) = none := by simp [changes, file, hload]
    rw [hchanges] at hu
    rw [hr]
    exact fun hp => hfresh' (hu.own.mp hp)

variable {rf : ResultFile fl} {existed : Bool}
theorem Loaded.quiet (h : x.Loaded p rf existed s) (hop : Quiet x.path op) :
    x.Loaded p rf existed (x.step p op s).2 := by
  rcases hop with ⟨attempt, rfl⟩ | ⟨attempt, wstep, hstep, rfl⟩
  · exact ⟨h.amid, h.fresh, h.distinct, h.file⟩
  · cases wstep with
    | rename => exact absurd rfl hstep
    | _ => exact ⟨h.amid, h.fresh, h.distinct, h.file⟩

theorem among_newId (h : x.Loaded p rf existed s) (attempt : Nat) :
    Among (x.step p) (x.Orderly p) (x.Others p) (x.Proper p)
      (fun _ => x.Loaded p rf existed) (newId (.bucket x.path attempt .version)) s :=
  have hquiet : Quiet x.path ⟨.bucket x.path attempt .version, .newId⟩ := .inl ⟨attempt, rfl⟩
  Among.call h (fun _ _ hs => hs.others) (fun _ ht _ => ⟨hquiet.proper, ht.quiet hquiet⟩)
    fun _ _ _ hs => hs.others

theorem only_prepareFile {path : Path} {attempt : Nat} {steps : List WriteStep}
    (hsteps : .rename ∉ steps) :
    (prepareFile (fun step => .bucket path attempt (.write step)) path steps).Only (Quiet path) := by
  induction steps with
  | nil => trivial
  | cons step steps ih =>
    rw [List.mem_cons, not_or] at hsteps
    refine ⟨.inr ⟨attempt, step, Ne.symm hsteps.1, rfl⟩, fun r => ?_⟩
    cases r with
    | error err => trivial
    | ok u => exact ih hsteps.2

def AfterWrite (p : P) (version : String) (s : BucketDesk P ν) : Except FsError Unit → Prop
  | .error _ => p ∉ s.log
  | .ok () => x.Written p version s

theorem among_write {rf' : ResultFile fl} {version : String} (h : x.Loaded p rf existed s)
    (hmutate : (x.runs p).mutate (rf.named fl) existed = (true, rf')) (attempt : Nat) :
    Among (x.step p) (x.Orderly p) (x.Others p) (x.Proper p) (fun r s => x.AfterWrite p version s r)
      (writeResultFile fl (fun step => .bucket x.path attempt (.write step)) x.path
        { rf' with version }) s := by
  have hprepare := @Among.only Op Op.Answer (BucketDesk P ν) _ (x.step p) (x.Others p)
    (x.Proper p) (x.Orderly p) (x.Loaded p rf existed) s (Quiet x.path)
    (prepareFile (fun step => .bucket x.path attempt (.write step)) x.path prepareSteps)
    (only_prepareFile (by decide)) h (fun _ _ hs => hs.others)
    fun op t hop ht _ => ⟨hop.proper, ht.quiet hop⟩
  refine .bind (Others.refl x p) hprepare fun r t ht => ?_
  cases r with
  | error err => exact fun u hu hp => ht.fresh (hu.own.mp hp)
  | ok u =>
    intro t' ht' horderly
    have hloaded := ht.others ht'
    have hreplaces : x.Replaces p t' (({ rf' with version } : ResultFile fl).toJson fl) :=
      ⟨rf, existed, rf', version, hloaded.file, hmutate, rfl⟩
    refine ⟨.inr ⟨attempt, _, rfl, hreplaces⟩, fun v hv => ?_⟩
    obtain ⟨-, hload⟩ := horderly _ rfl
    obtain ⟨rf'', hrf'', hnodup, hreflected, -⟩ := hreplaces.loaded hload hloaded.distinct
    have hfile := @file_install fl P ν x _ p t' attempt
      (({ rf' with version } : ResultFile fl).toJson fl)
    have hwritten : x.Written p version (x.step p ⟨.bucket x.path attempt (.write .rename),
        .install x.path (.json (({ rf' with version } : ResultFile fl).toJson fl))⟩ t').2 := by
      refine ⟨hloaded.amid, by simp [step], fun rf₁ existed₁ hrf₁ => ?_,
        .inl ⟨rf'', true, by rw [hfile, hrf''], hreflected⟩, rf'', by rw [hfile, hrf''], ?_⟩
      · rw [hfile, hrf''] at hrf₁
        cases hrf₁
        exact hnodup
      · obtain ⟨rf₂, hrf₂⟩ := Option.isSome_iff_exists.mp hload
        rw [loadFile, hrf₂] at hrf''
        cases hrf''
        exact (ofJson_toJson hrf₂).1
    exact hwritten.others hv

theorem among_verify {version : String} (h : x.Written p version s) (attempt : Nat) :
    Among (x.step p) (x.Orderly p) (x.Others p) (x.Proper p)
      (fun r s => x.Ended p s (.ok (true, version)) ∧
        ∃ rf existed, r = .ok (rf, existed) ∧ rf.version = version)
      (loadResultFile fl (.bucket x.path attempt .verify) x.path) s := by
  have hcall : loadResultFile fl (.bucket x.path attempt .verify) x.path = .call
      ⟨.bucket x.path attempt .verify, .readFile x.path⟩ fun r => .done (loadedResult fl x.path r) :=
    rfl
  rw [hcall]
  intro t ht _
  have hwritten := h.others ht
  obtain ⟨rf, hload, hversion⟩ := hwritten.file
  refine ⟨.inl ⟨trivial, by simp⟩, fun u hu => ⟨?_, ?_⟩⟩
  · have hfile : x.file (x.step p ⟨.bucket x.path attempt .verify, .readFile x.path⟩ t).2 =
        x.file t := file_step trivial
    have hended : x.Ended p (x.step p ⟨.bucket x.path attempt .verify, .readFile x.path⟩ t).2
        (.ok (true, version)) :=
      ⟨hwritten.distinct.same_file hfile, hwritten.logged, ?_⟩
    · exact hended.others hu
    · rcases hwritten.stands with ⟨rf, existed, hload, hr⟩ | hlater
      · exact .inl ⟨rf, existed, by rwa [hfile], hr⟩
      · exact .inr hlater
  · rw [step_fst]
    rcases @loadedResult_eq fl ν x.host (.bucket x.path attempt .verify) x.path t.world with
      ⟨⟨rf', existed⟩, hload', hr⟩ | ⟨hload', -⟩
    · refine ⟨rf', existed, hr, ?_⟩
      rw [file, hload'] at hload
      cases hload
      exact hversion
    · rw [file, hload'] at hload
      cases hload

theorem among_applyMutation (hfresh : p ∉ s.log) (hdistinct : x.Distinct s) :
    Among (x.step p) (x.Orderly p) (x.Others p) (x.Proper p) (fun r s => x.Ended p s r)
      (applyMutation fl x.path (x.runs p).mutate) s := by
  have hrange : List.range maxAttempts = 0 :: List.range' 1 9 := by decide
  rw [applyMutation, hrange, mutationAttempts]
  refine .bind (Others.refl x p) (among_load hfresh hdistinct 0) fun r t hr => ?_
  cases r with
  | error err => exact fun u hu hp => hr (hu.own.mp hp)
  | ok loaded =>
    obtain ⟨rf, existed⟩ := loaded
    rcases hmutate : (x.runs p).mutate (rf.named fl) existed with ⟨changed, rf'⟩
    simp only [AfterLoad, hmutate] at hr ⊢
    cases changed with
    | false =>
      have hended : x.Ended p t (.ok (false, rf'.version)) := hr
      exact fun u hu => hended.others hu
    | true =>
      refine .bind (Others.refl x p) (among_newId hr 0) fun r t ht => ?_
      cases r with
      | error err => exact fun u hu hp => ht.fresh (hu.own.mp hp)
      | ok version =>
        refine .bind (Others.refl x p) (among_write ht hmutate 0) fun r t ht => ?_
        cases r with
        | error err => exact fun u hu hp => ht (hu.own.mp hp)
        | ok u =>
          refine .bind (Others.refl x p) (among_verify ht 0) fun r t ht => ?_
          obtain ⟨hended, rf'', existed', rfl, hversion⟩ := ht
          simp only [hversion, if_true]
          exact fun u hu => hended.others hu

/-- Where every run writes only while no other run is between its load and its verification, and
only files that can be loaded, the mutation of every successful run is in the file at the end,
unless a later one on the same id took effect. -/
theorem bucket_updates_kept (hdistinct : x.Distinct (start x).shared)
    {pool : Pool P Op Op.Answer (BucketDesk P ν) (Except FsError (Bool × String))}
    (hreach : Pool.Reach x.step (fun _ _ => True) (fun pool p op => x.Orderly p op pool.shared)
      (start x) pool)
    (hdone : ∀ p, ∃ r, pool.procs p = .done r) {p : P} {a : Bool × String}
    (hp : pool.procs p = .done (.ok a)) :
    (∃ rf existed, loadFile fl (x.file pool.shared) = some (rf, existed) ∧
        (x.runs p).Reflected rf) ∨
      ∃ q b, pool.procs q = .done (.ok b) ∧ (x.runs q).id = (x.runs p).id ∧
        After pool.shared.log p q := by
  have hall : ∀ q, Among (x.step q) (x.Orderly q) (x.Others q) (x.Proper q)
      (fun r s => x.Ended q s r) (pool.procs q) pool.shared :=
    reach_among (fun _ _ _ _ h h' => h.trans x h') (Others.refl x)
      (fun _ _ _ _ hguard => hguard) (fun _ _ _ _ hne horderly h => h.others horderly hne) hreach
      fun q => among_applyMutation (List.not_mem_nil) hdistinct
  have hended : ∀ q r, pool.procs q = .done r → x.Ended q pool.shared r := by
    intro q r hq
    have hq' := hall q
    rw [hq] at hq'
    exact hq' _ (Others.refl x q _)
  obtain ⟨-, -, hstands⟩ := hended p _ hp
  rcases hstands with hreflected | ⟨q, hid, hafter⟩
  · exact .inl hreflected
  · obtain ⟨r, hq⟩ := hdone q
    have hr := hended q r hq
    cases r with
    | ok b => exact .inr ⟨q, b, hq, hid, hafter⟩
    | error err =>
      obtain ⟨before, after, hlog, -, hmem⟩ := hafter
      refine absurd ?_ hr
      rw [hlog]
      exact List.mem_append_right _ hmem
end
end BucketRuns
namespace Sample
def filmRuns : BucketRuns floats Bool Unit where
  host := ⟨fun n => "v" ++ toString n, fun _ _ s => (false, s), fun _ _ s => (.ok true, s),
    fun _ _ _ _ s => (.ok (), s), fun _ _ _ s => (false, s)⟩
  path := searchResultPath ["db"] "films" "byTitle" ["true"]
  runs := fun p => .localUpsert (filmBucket byTitle) (if p then "f2" else "f1")
    [.known (.str (if p then "Brazil" else "Alien"))]
  world := ⟨fun _ => none, 0, ()⟩

theorem filmRuns_distinct : filmRuns.Distinct (BucketRuns.start filmRuns).shared := by
  intro rf existed h
  cases h
  exact List.nodup_nil

abbrev FilmPool := Pool Bool Op Op.Answer (BucketDesk Bool Unit) (Except FsError (Bool × String))

def orderly (p : Bool) (op : Op) (s : BucketDesk Bool Unit) : Bool :=
  match op.call with
  | .install _ (.json v) => !s.amid (!p) && (ResultFile.ofJson floats v).isSome
  | _ => true

variable {p : Bool} {pool : FilmPool}
theorem orderly_spec {op : Op} {s : BucketDesk Bool Unit} (h : orderly p op s = true) :
    filmRuns.Orderly p op s := by
  intro v hv
  rw [orderly, hv, Bool.and_eq_true] at h
  refine ⟨fun q hq => ?_, h.2⟩
  have hother : ∀ p q : Bool, q ≠ p → q = !p := by decide
  rw [hother p q hq]
  simpa using h.1

theorem reach_alone_orderly (h : ((pool.procs p).stops (filmRuns.step p) pool.shared).all
      (fun stop => orderly p stop.1 stop.2) = true) :
    Pool.Reach filmRuns.step (fun _ _ => True)
      (fun pool p op => filmRuns.Orderly p op pool.shared) pool (pool.alone filmRuns.step p) :=
  Pool.reach_alone fun op _ t hstop => ⟨trivial, orderly_spec (List.all_eq_true.mp h (op, t) hstop)⟩

def sequentialRuns : FilmPool :=
  ((BucketRuns.start filmRuns).alone filmRuns.step false).alone filmRuns.step true

theorem reach_sequentialRuns : Pool.Reach filmRuns.step (fun _ _ => True)
    (fun pool p op => filmRuns.Orderly p op pool.shared) (BucketRuns.start filmRuns)
    sequentialRuns :=
  (reach_alone_orderly (by decide +kernel)).trans (reach_alone_orderly (by decide +kernel))

def overlappingRuns : FilmPool :=
  ((((BucketRuns.start filmRuns).turn filmRuns.step false).turn filmRuns.step true).alone
    filmRuns.step false).alone filmRuns.step true

theorem reach_overlappingRuns : Pool.Reach filmRuns.step (fun _ _ => True) (fun _ _ _ => True)
    (BucketRuns.start filmRuns) overlappingRuns :=
  (((Pool.reach_turn fun _ _ _ => ⟨trivial, trivial⟩).trans
    (Pool.reach_turn fun _ _ _ => ⟨trivial, trivial⟩)).trans
      (Pool.reach_alone fun _ _ _ _ => ⟨trivial, trivial⟩)).trans
        (Pool.reach_alone fun _ _ _ _ => ⟨trivial, trivial⟩)

def resultOf (pool : FilmPool) (p : Bool) : Option (Except FsError (Bool × String)) :=
  match pool.procs p with
  | .done r => some r
  | .call _ _ => none

theorem procs_of_resultOf {r : Except FsError (Bool × String)} (h : resultOf pool p = some r) :
    pool.procs p = .done r := by
  unfold resultOf at h
  split at h
  · rename_i hdone
    cases h
    exact hdone
  · cases h

def succeeded (pool : FilmPool) (p : Bool) : Option (Bool × String) :=
  (resultOf pool p).bind Except.toOption

theorem procs_of_succeeded {a : Bool × String} (h : succeeded pool p = some a) :
    pool.procs p = .done (.ok a) := by
  unfold succeeded at h
  cases hr : resultOf pool p with
  | none => simp [hr] at h
  | some r =>
    cases r with
    | error err => simp [hr, Except.toOption] at h
    | ok b =>
      simp only [hr, Option.bind_some, Except.toOption, Option.some.injEq] at h
      subst h
      exact procs_of_resultOf hr

def bucketIdsIn (s : BucketDesk Bool Unit) : Option (List String) :=
  (loadFile floats (filmRuns.file s)).map fun (rf, _) => rf.items.map BucketItem.id

theorem film_updates_kept :
    (∃ rf existed, loadFile floats (filmRuns.file sequentialRuns.shared) = some (rf, existed) ∧
        (filmRuns.runs false).Reflected rf) ∨
      ∃ q b, sequentialRuns.procs q = .done (.ok b) ∧
        (filmRuns.runs q).id = (filmRuns.runs false).id ∧
        BucketRuns.After sequentialRuns.shared.log false q := by
  have hfalse : succeeded sequentialRuns false = some (true, "v0") := by decide +kernel
  have htrue : succeeded sequentialRuns true = some (true, "v1") := by decide +kernel
  refine BucketRuns.bucket_updates_kept filmRuns_distinct reach_sequentialRuns (fun p => ?_)
    (procs_of_succeeded hfalse)
  cases p with
  | false => exact ⟨_, procs_of_succeeded hfalse⟩
  | true => exact ⟨_, procs_of_succeeded htrue⟩

theorem film_update_lost :
    Pool.Reach filmRuns.step (fun _ _ => True) (fun _ _ _ => True) (BucketRuns.start filmRuns)
        overlappingRuns ∧
      overlappingRuns.procs false = .done (.ok (true, "v0")) ∧
      overlappingRuns.procs true = .done (.ok (true, "v1")) ∧
      bucketIdsIn overlappingRuns.shared = some ["f2"] ∧
      (filmRuns.runs true).id ≠ (filmRuns.runs false).id :=
  ⟨reach_overlappingRuns, procs_of_succeeded (by decide +kernel),
    procs_of_succeeded (by decide +kernel), by decide +kernel, by decide +kernel⟩
end Sample
end Datorium
