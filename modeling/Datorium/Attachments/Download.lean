
import Datorium.Attachments.Refinement
import Datorium.Engine.Ledger
import Datorium.Framework.Rely
namespace Datorium
open Framework Function
/-! ## Jobs -/

inductive FileJob where
  | read
  | put (u : Upload)
  | delete (ifMatch operationId : String)

def FileJob.reads : FileJob → Bool
  | .read => true
  | _ => false

def readAnswer : Except FileResult Download → StoreAnswer
  | .error res => .file res
  | .ok d => .download d

def FileJob.prog (lib : FileLib) (e : Engine) (target : FileTarget) : FileJob → Prog StoreAnswer
  | .read => do
      let r ← readFileCommand lib e target
      pure (readAnswer r)
  | .put u => do
      let res ← putFile lib e { u with target }
      pure (.file res)
  | .delete ifMatch operationId => do
      let res ← deleteFile lib e target ifMatch operationId
      pure (.file res)

structure FileJobs (P ν : Type) where
  lib : FileLib
  e : Engine
  host : Host ν
  target : FileTarget
  jobs : P → FileJob
  world : World ν

/-- The world, who holds the mutex, what uploads have drawn and reads have taken, and whether a blob
is in place and not listed. -/
structure Desk (P ν : Type) where
  world : World ν
  holder : Option P
  drawn : P → Option String
  taken : P → Option FileEntry
  moved : Bool

namespace FileJobs
variable {P ν : Type} (x : FileJobs P ν)
def manifest : Path := filesManifestPath x.e.dataDir x.target.collection x.target.id

def blob : Path := binaryPath x.e.dataDir x.target.collection x.target.id x.target.filename

def stage (u : Upload) : Path := stagePath x.e.dataDir x.target.collection x.target.id u.stage

def listed (w : World ν) : Option FileEntry :=
  match w.manifest x.lib false x.manifest with
  | .ok rows => lookupFileEntry rows x.target.filename
  | .error _ => none

def takenAfter (p : P) (w : World ν) (before : Option FileEntry) : Call → Option FileEntry
  | .readFile path =>
    if (x.jobs p).reads then
      if path = x.manifest then x.listed w else if path = x.blob then none else before
    else before
  | _ => before

def movedAfter (w : World ν) (before : Bool) : Call → Bool
  | .rename source target => if target = x.blob ∧ (w.files source).isSome then true else before
  | .install path _ => if path = x.manifest then false else before
  | _ => before

def step [DecidableEq P] (p : P) : Handler Op Op.Answer (Desk P ν) := fun op s =>
  let out := exec x.host .none op s.world
  (out.1,
    { world := out.2
      holder := op.call.holder p s.holder
      drawn := if op.site = .version then
          update s.drawn p (some (x.host.ids s.world.issued))
        else s.drawn
      taken := update s.taken p (x.takenAfter p s.world (s.taken p) op.call)
      moved := x.movedAfter s.world s.moved op.call })

def start : Pool P Op Op.Answer (Desk P ν) StoreAnswer :=
  ⟨fun p => (x.jobs p).prog x.lib x.e x.target,
    ⟨x.world, none, fun _ => none, fun _ => none, false⟩⟩

def Free (op : Op) (s : Desk P ν) : Prop := op.call = .lock → s.holder = none

/-- An upload puts its blob in place only while no read holds an entry, and a read takes an entry
only while no blob is in place and not listed. -/
structure Timely (p : P) (op : Op) (s : Desk P ν) : Prop where
  blob : ∀ source, op.call = .rename source x.blob → ∀ q, s.taken q = none
  entry : (x.jobs p).reads = true → op.call = .readFile x.manifest → s.moved = false

/-- The bytes of a version: those stored under it at the start, or those of the upload that has
drawn it. -/
def Genuine (s : Desk P ν) (version : String) (data : List UInt8) : Prop :=
  (∃ entry, x.listed x.world = some entry ∧ entry.version = version ∧
      x.world.files x.blob = some (.bytes data)) ∨
    ∃ p u, x.jobs p = .put u ∧ u.body.data = data ∧ s.drawn p = some version

structure Faithful (s : Desk P ν) (d : Download) : Prop where
  size : d.contentLength = d.body.length
  digest : d.sha256 = x.lib.sha256 d.body
  version : x.Genuine s d.version d.body

structure Describes (s : Desk P ν) (entry : FileEntry) (data : List UInt8) : Prop where
  size : entry.byteSize = data.length
  digest : entry.sha256 = x.lib.sha256 data
  version : x.Genuine s entry.version data

def Backed (s : Desk P ν) (entry : FileEntry) : Prop :=
  s.world.files x.blob = none ∨
    ∃ data, s.world.files x.blob = some (.bytes data) ∧ x.Describes s entry data

structure Sound (s : Desk P ν) : Prop where
  distinct : ∀ rows, s.world.manifest x.lib false x.manifest = .ok rows →
    Keyed.Distinct FileEntry.name rows
  backed : s.moved = false → ∀ entry, x.listed s.world = some entry → x.Backed s entry

structure Tidy : Prop where
  id : AcceptedId x.target.id
  name : safeFileName x.target.filename = true
  targets : x.e.PlainTargets
  ids : SafeIds x.host
  uploads : ∀ p u, x.jobs p = .put u → SafeName u.operationId
  deletes : ∀ p ifMatch operationId, x.jobs p = .delete ifMatch operationId → SafeName operationId
  stages : ∀ p q u u', x.jobs p = .put u → x.jobs q = .put u' → u.stage.text = u'.stage.text → p = q

/-! ## What a process can rely on -/

structure Others (q : P) (s t : Desk P ν) : Prop where
  holder : t.holder = some q ↔ s.holder = some q
  held : s.holder = some q → t.world.files x.manifest = s.world.files x.manifest ∧
    t.world.files x.blob = s.world.files x.blob
  staged : ∀ u, x.jobs q = .put u → t.world.files (x.stage u) = s.world.files (x.stage u)
  drawn : ∀ p v, s.drawn p = some v → t.drawn p = some v
  own : t.drawn q = s.drawn q ∧ t.taken q = s.taken q
  blob : s.taken q ≠ none → t.world.files x.blob = s.world.files x.blob ∨
    t.world.files x.blob = none
  sound : x.Sound s → x.Sound t

theorem Others.refl (q : P) (s : Desk P ν) : x.Others q s s :=
  ⟨Iff.rfl, fun _ => ⟨rfl, rfl⟩, fun _ _ => rfl, fun _ _ h => h, ⟨rfl, rfl⟩, fun _ => .inl rfl,
    fun h => h⟩

theorem Others.trans {q : P} {a b c : Desk P ν} (h : x.Others q a b) (h' : x.Others q b c) :
    x.Others q a c where
  holder := h'.holder.trans h.holder
  held ha := by
    obtain ⟨hm, hb⟩ := h.held ha
    obtain ⟨hm', hb'⟩ := h'.held (h.holder.mpr ha)
    exact ⟨hm'.trans hm, hb'.trans hb⟩
  staged u hu := (h'.staged u hu).trans (h.staged u hu)
  drawn p v hv := h'.drawn p v (h.drawn p v hv)
  own := ⟨h'.own.1.trans h.own.1, h'.own.2.trans h.own.2⟩
  blob ha := by
    have hb : b.taken q ≠ none := by rwa [h.own.2]
    rcases h'.blob hb with heq | hnone
    · rcases h.blob ha with heq' | hnone'
      · exact .inl (heq.trans heq')
      · exact .inr (heq.trans hnone')
    · exact .inr hnone
  sound ha := h'.sound (h.sound ha)

theorem Genuine.mono {s t : Desk P ν} (h : ∀ p v, s.drawn p = some v → t.drawn p = some v)
    {version : String} {data : List UInt8} (hs : x.Genuine s version data) :
    x.Genuine t version data := by
  rcases hs with hs | ⟨p, u, hp, hdata, hv⟩
  · exact .inl hs
  · exact .inr ⟨p, u, hp, hdata, h p _ hv⟩

theorem Describes.mono {s t : Desk P ν} (h : ∀ p v, s.drawn p = some v → t.drawn p = some v)
    {entry : FileEntry} {data : List UInt8} (hs : x.Describes s entry data) :
    x.Describes t entry data := ⟨hs.size, hs.digest, hs.version.mono x h⟩

/-! ## Calls that touch nothing of the attachment -/

structure Quiet (op : Op) : Prop where
  manifest : op.call.Avoids x.manifest
  blob : op.call.Avoids x.blob
  stage : ∀ u, op.call.Avoids (x.stage u)
  lock : op.call ≠ .lock
  unlock : op.call ≠ .unlock
  version : op.site ≠ .version

structure Same (s t : Desk P ν) : Prop where
  manifest : t.world.files x.manifest = s.world.files x.manifest
  blob : t.world.files x.blob = s.world.files x.blob
  stage : ∀ u, t.world.files (x.stage u) = s.world.files (x.stage u)
  holder : t.holder = s.holder
  drawn : t.drawn = s.drawn
  taken : t.taken = s.taken
  moved : t.moved = s.moved

section
variable {x} {s t : Desk P ν} {p q : P} {op : Op}
theorem manifest_congr (h : t.world.files x.manifest = s.world.files x.manifest) :
    t.world.manifest x.lib false x.manifest = s.world.manifest x.lib false x.manifest := by
  simp only [World.manifest, h]

theorem listed_congr (h : t.world.files x.manifest = s.world.files x.manifest) :
    x.listed t.world = x.listed s.world := by
  simp only [listed, manifest_congr h]

theorem Sound.congr (hs : x.Sound s) (hm : t.world.files x.manifest = s.world.files x.manifest)
    (hb : s.moved = false → x.listed s.world ≠ none →
      t.world.files x.blob = s.world.files x.blob ∨ t.world.files x.blob = none)
    (hdrawn : ∀ p v, s.drawn p = some v → t.drawn p = some v)
    (hmoved : t.moved = false → s.moved = false) : x.Sound t where
  distinct rows hrows := hs.distinct rows (by rwa [← manifest_congr hm])
  backed hmv entry hentry := by
    rw [listed_congr hm] at hentry
    rcases hb (hmoved hmv) (by rw [hentry]; simp) with heq | hnone
    · rcases hs.backed (hmoved hmv) entry hentry with hnone | ⟨data, hdata, hdesc⟩
      · exact .inl (heq.trans hnone)
      · exact .inr ⟨data, heq.trans hdata, hdesc.mono x hdrawn⟩
    · exact .inl hnone

theorem Same.others (h : x.Same s t) (q : P) : x.Others q s t where
  holder := by rw [h.holder]
  held _ := ⟨h.manifest, h.blob⟩
  staged u _ := h.stage u
  drawn p v hv := by rwa [h.drawn]
  own := ⟨by rw [h.drawn], by rw [h.taken]⟩
  blob _ := .inl h.blob
  sound hs := hs.congr h.manifest (fun _ _ => .inl h.blob) (fun p v hv => by rwa [h.drawn])
    fun hm => by rwa [h.moved] at hm

variable [DecidableEq P]
theorem step_taken_other (hq : q ≠ p) : (x.step p op s).2.taken q = s.taken q :=
  update_of_ne hq _ _

theorem step_taken_writer (hp : (x.jobs p).reads = false) : (x.step p op s).2.taken = s.taken := by
  have hsame : x.takenAfter p s.world (s.taken p) op.call = s.taken p := by
    unfold takenAfter
    split
    · simp [hp]
    · rfl
  simp only [step, hsame, update_eq_self]

theorem step_drawn (h : op.site ≠ .version) : (x.step p op s).2.drawn = s.drawn := by
  simp [step, h]

theorem step_holder (hl : op.call ≠ .lock) (hu : op.call ≠ .unlock) :
    (x.step p op s).2.holder = s.holder := by
  obtain ⟨site, call⟩ := op
  cases call with
  | lock => exact absurd rfl hl
  | unlock => exact absurd rfl hu
  | _ => rfl

theorem step_files {path : Path} (h : op.call.Avoids path) :
    (x.step p op s).2.world.files path = s.world.files path := h.exec s.world

theorem step_moved (hm : op.call.Avoids x.manifest) (hb : op.call.Avoids x.blob) :
    (x.step p op s).2.moved = s.moved := by
  obtain ⟨site, call⟩ := op
  cases call with
  | rename source target =>
    have htarget : target ≠ x.blob := hb.2
    simp [step, movedAfter, htarget]
  | install path file =>
    have hpath : path ≠ x.manifest := hm
    simp [step, movedAfter, hpath]
  | _ => rfl

theorem Quiet.same (h : x.Quiet op) (hp : (x.jobs p).reads = false) : x.Same s (x.step p op s).2 :=
  ⟨step_files h.manifest, step_files h.blob, fun u => step_files (h.stage u),
    step_holder h.lock h.unlock, step_drawn h.version, step_taken_writer hp,
    step_moved h.manifest h.blob⟩
end

/-! ## What a writer knows -/

/-- What a writer knows, of the manifest and the blob only while it holds the mutex. -/
structure Grip where
  staged : Option (List UInt8)
  drawn : Option String
  held : Option (Option File × Option File)

structure Knows (p : P) (g : Grip) (s : Desk P ν) : Prop where
  holder : s.holder = some p ↔ g.held ≠ none
  held : ∀ m b, g.held = some (m, b) → s.world.files x.manifest = m ∧ s.world.files x.blob = b
  staged : ∀ u data, x.jobs p = .put u → g.staged = some data →
    s.world.files (x.stage u) = some (.bytes data)
  drawn : s.drawn p = g.drawn
  sound : x.Sound s

section
variable {x} {s t : Desk P ν} {p q : P} {op : Op} {g : Grip}
theorem Knows.stable (h : x.Knows p g s) (hst : x.Others p s t) : x.Knows p g t where
  holder := hst.holder.trans h.holder
  held m b hg := by
    have hold : s.holder = some p := h.holder.mpr (by rw [hg]; simp)
    obtain ⟨hm, hb⟩ := h.held m b hg
    obtain ⟨hm', hb'⟩ := hst.held hold
    exact ⟨hm'.trans hm, hb'.trans hb⟩
  staged u data hu hg := (hst.staged u hu).trans (h.staged u data hu hg)
  drawn := hst.own.1.trans h.drawn
  sound := hst.sound h.sound

theorem Knows.same (h : x.Knows p g s) (hst : x.Same s t) : x.Knows p g t :=
  h.stable (hst.others p)

variable [DecidableEq P]
def May (x : FileJobs P ν) (p : P) (op : Op) (s : Desk P ν) : Prop := Free op s ∧ x.Timely p op s

def Considerate (x : FileJobs P ν) (p : P) (op : Op) (s : Desk P ν) : Prop :=
  ∀ q, q ≠ p → x.Others q s (x.step p op s).2

abbrev Does {α : Type} (x : FileJobs P ν) (p : P) (post : α → Desk P ν → Prop) (prog : Prog α)
    (s : Desk P ν) : Prop :=
  prog.Among (x.step p) (x.May p) (x.Others p) (x.Considerate p) post s

theorem does_bind {α β : Type} {mid : α → Desk P ν → Prop} {post : β → Desk P ν → Prop}
    {prog : Prog α} {f : α → Prog β} (h : x.Does p mid prog s)
    (hf : ∀ a t, mid a t → x.Does p post (f a) t) : x.Does p post (prog.bind f) s :=
  Program.Among.bind (Others.refl x p) h hf

theorem does_quiet {α : Type} {prog : Prog α} (hp : (x.jobs p).reads = false)
    (hprog : prog.Only x.Quiet) (h : x.Knows p g s) :
    x.Does p (fun _ t => x.Knows p g t) prog s := by
  refine Program.Among.only hprog h (fun s t hs hst => hs.stable hst) fun op t hop ht _ => ?_
  have hsame : x.Same t (x.step p op t).2 := hop.same hp
  exact ⟨fun q _ => hsame.others q, ht.same hsame⟩

theorem does_perform {site : Site} {call : Call} {post : call.Answer → Desk P ν → Prop}
    (h : x.Knows p g s)
    (hcall : ∀ t, x.Knows p g t → x.May p ⟨site, call⟩ t → x.Considerate p ⟨site, call⟩ t ∧
        post (x.step p ⟨site, call⟩ t).1 (x.step p ⟨site, call⟩ t).2)
    (hpost : ∀ r s t, post r s → x.Others p s t → post r t) :
    x.Does p post (perform site call) s :=
  Program.Among.call h (fun _ _ hs hst => hs.stable hst) hcall hpost

theorem considerate_of_holder (hp : (x.jobs p).reads = false) (hold : s.holder = some p)
    (hl : op.call ≠ .lock) (hu : op.call ≠ .unlock) (hv : op.site ≠ .version)
    (hstage : ∀ q u, q ≠ p → x.jobs q = .put u → op.call.Avoids (x.stage u))
    (hblob : ∀ q, s.taken q ≠ none → (x.step p op s).2.world.files x.blob = s.world.files x.blob ∨
        (x.step p op s).2.world.files x.blob = none)
    (hsound : x.Sound s → x.Sound (x.step p op s).2) : x.Considerate p op s := by
  intro q hq
  have hholder : (x.step p op s).2.holder = s.holder := step_holder hl hu
  have hother : s.holder ≠ some q := by
    rw [hold]
    exact fun heq => hq (Option.some.inj heq).symm
  refine ⟨by rw [hholder], fun hheld => absurd hheld hother,
    fun u hu' => step_files (hstage q u hq hu'), ?_, ⟨?_, ?_⟩, hblob q, hsound⟩
  · intro p' v hv'
    rwa [step_drawn hv]
  · rw [step_drawn hv]
  · rw [step_taken_writer hp]

theorem does_lock (hp : (x.jobs p).reads = false) (h : x.Knows p g s) :
    x.Does p (fun _ t => ∃ m b, x.Knows p { g with held := some (m, b) } t) lock s := by
  refine does_perform h (fun t ht hmay => ?_) fun r s t hs hst => ?_
  · have hfree : t.holder = none := hmay.1 rfl
    have hmoved : (x.step p ⟨.lock, .lock⟩ t).2.moved = t.moved := step_moved trivial trivial
    have htaken : (x.step p ⟨.lock, .lock⟩ t).2.taken = t.taken := step_taken_writer hp
    have hsound : x.Sound (x.step p ⟨.lock, .lock⟩ t).2 :=
      ht.sound.congr rfl (fun _ _ => .inl rfl) (fun _ _ hv => hv) fun hm => by rwa [hmoved] at hm
    refine ⟨fun q hq => ?_, t.world.files x.manifest, t.world.files x.blob, ?_, ?_, ht.staged,
      ht.drawn, hsound⟩
    · refine ⟨?_, fun hheld => ?_, fun _ _ => rfl, fun _ _ hv => hv, ⟨rfl, by rw [htaken]⟩,
        fun _ => .inl rfl, fun _ => hsound⟩
      · rw [hfree]
        refine ⟨fun heq => absurd (Option.some.inj heq).symm hq, fun heq => by cases heq⟩
      · rw [hfree] at hheld
        cases hheld
    · exact ⟨fun _ => by simp, fun _ => rfl⟩
    · intro m b heq
      cases heq
      exact ⟨rfl, rfl⟩
  · obtain ⟨m, b, hs⟩ := hs
    exact ⟨m, b, hs.stable hst⟩

theorem does_unlock (hp : (x.jobs p).reads = false) (h : x.Knows p g s) (hg : g.held ≠ none) :
    x.Does p (fun _ t => x.Knows p { g with held := none } t) unlock s := by
  refine does_perform h (fun t ht _ => ?_) fun _ s t hs hst => hs.stable hst
  have hold : t.holder = some p := ht.holder.mpr hg
  have hmoved : (x.step p ⟨.unlock, .unlock⟩ t).2.moved = t.moved := step_moved trivial trivial
  have htaken : (x.step p ⟨.unlock, .unlock⟩ t).2.taken = t.taken := step_taken_writer hp
  have hsound : x.Sound (x.step p ⟨.unlock, .unlock⟩ t).2 :=
    ht.sound.congr rfl (fun _ _ => .inl rfl) (fun _ _ hv => hv) fun hm => by rwa [hmoved] at hm
  refine ⟨fun q hq => ?_, ?_, fun m b heq => ?_, ht.staged, ht.drawn, hsound⟩
  · have hother : t.holder ≠ some q := by
      rw [hold]
      exact fun heq => hq (Option.some.inj heq).symm
    refine ⟨⟨fun heq => ?_, fun heq => absurd heq hother⟩, fun heq => absurd heq hother,
      fun _ _ => rfl, fun _ _ hv => hv, ⟨rfl, by rw [htaken]⟩, fun _ => .inl rfl, fun _ => hsound⟩
    cases heq
  · exact ⟨fun heq => (by cases heq), fun heq => absurd rfl heq⟩
  · cases heq

theorem does_version (hp : (x.jobs p).reads = false) (h : x.Knows p g s) (hg : g.drawn = none) :
    x.Does p (fun r t => ∃ v, r = .ok v ∧ x.Knows p { g with drawn := some v } t)
      (newId .version) s := by
  refine does_perform h (fun t ht _ => ?_) fun r s t hs hst => ?_
  · have hdrawn : ∀ p' v, t.drawn p' = some v →
        (x.step p ⟨.version, .newId⟩ t).2.drawn p' = some v := by
      intro p' v hv
      have hne : p' ≠ p := by
        rintro rfl
        rw [ht.drawn, hg] at hv
        cases hv
      change update t.drawn p _ p' = some v
      rwa [update_of_ne hne]
    have hmoved : (x.step p ⟨.version, .newId⟩ t).2.moved = t.moved := step_moved trivial trivial
    have htaken : (x.step p ⟨.version, .newId⟩ t).2.taken = t.taken := step_taken_writer hp
    have hsound : x.Sound (x.step p ⟨.version, .newId⟩ t).2 :=
      ht.sound.congr rfl (fun _ _ => .inl rfl) hdrawn fun hm => by rwa [hmoved] at hm
    refine ⟨fun q hq => ?_, x.host.ids t.world.issued, rfl, ht.holder, ht.held, ht.staged, ?_,
      hsound⟩
    · exact ⟨Iff.rfl, fun _ => ⟨rfl, rfl⟩, fun _ _ => rfl, hdrawn,
        ⟨update_of_ne hq _ _, by rw [htaken]⟩, fun _ => .inl rfl, fun _ => hsound⟩
    · exact update_self _ _ _
  · obtain ⟨v, hr, hs⟩ := hs
    exact ⟨v, hr, hs.stable hst⟩
end

/-! ## The files of the attachment -/

section
variable {x}
theorem Tidy.blob_manifest (hx : x.Tidy) : x.blob ≠ x.manifest := by
  have hnames : CommitNames x.target.id x.target.filename "" :=
    ⟨hx.id.documentId, .of_safeFileName hx.name, by decide⟩
  exact (hnames.paths _ _).blob_manifest

theorem Tidy.stage_blob (hx : x.Tidy) (u : Upload) : x.stage u ≠ x.blob := by
  have hnames : CommitNames x.target.id x.target.filename "" :=
    ⟨hx.id.documentId, .of_safeFileName hx.name, by decide⟩
  exact (hnames.paths _ _).stage_blob u.stage

theorem Tidy.stage_manifest (hx : x.Tidy) (u : Upload) : x.stage u ≠ x.manifest := by
  have hnames : CommitNames x.target.id x.target.filename "" :=
    ⟨hx.id.documentId, .of_safeFileName hx.name, by decide⟩
  exact (hnames.paths _ _).stage_manifest u.stage

theorem Tidy.stage_ne (hx : x.Tidy) {p q : P} {u u' : Upload} (hq : q ≠ p)
    (hu : x.jobs p = .put u) (hu' : x.jobs q = .put u') : x.stage u ≠ x.stage u' := by
  intro heq
  unfold stage at heq
  rw [stagePath_eq_join hx.id.documentId, stagePath_eq_join hx.id.documentId] at heq
  exact hq (hx.stages p q u u' hu hu' (by simpa using heq)).symm
end
section
variable {x} {s t : Desk P ν} {p q : P} {op : Op} {g : Grip} [DecidableEq P]
variable {u : Upload} {site : Site} {m b : Option File} {rows : List FileEntry}
theorem Knows.restage (hx : x.Tidy) (hu : x.jobs p = .put u) (h : x.Knows p g s) (op : Op)
    {staged : Option (List UInt8)} (hm : op.call.Avoids x.manifest) (hb : op.call.Avoids x.blob)
    (hother : ∀ path, path ≠ x.stage u → op.call.Avoids path) (hl : op.call ≠ .lock)
    (hul : op.call ≠ .unlock) (hv : op.site ≠ .version)
    (hstaged : ∀ data, staged = some data →
      (x.step p op s).2.world.files (x.stage u) = some (.bytes data)) :
    x.Considerate p op s ∧ x.Knows p { g with staged } (x.step p op s).2 := by
  have hp : (x.jobs p).reads = false := by rw [hu]; rfl
  have hmanifest : (x.step p op s).2.world.files x.manifest = s.world.files x.manifest :=
    step_files hm
  have hblob : (x.step p op s).2.world.files x.blob = s.world.files x.blob := step_files hb
  have hmoved : (x.step p op s).2.moved = s.moved := step_moved hm hb
  have htaken : (x.step p op s).2.taken = s.taken := step_taken_writer hp
  have hdrawn : (x.step p op s).2.drawn = s.drawn := step_drawn hv
  have hholder : (x.step p op s).2.holder = s.holder := step_holder hl hul
  have hsound : x.Sound (x.step p op s).2 :=
    h.sound.congr hmanifest (fun _ _ => .inl hblob) (fun p v hv => by rwa [hdrawn])
      fun hmv => by rwa [hmoved] at hmv
  refine ⟨fun q hq => ?_, ?_, fun m b hg => ?_, fun u' data hu' hg => ?_, ?_, hsound⟩
  · refine ⟨by rw [hholder], fun _ => ⟨hmanifest, hblob⟩, fun u' hu' => ?_,
      fun p v hv => by rwa [hdrawn], ⟨by rw [hdrawn], by rw [htaken]⟩, fun _ => .inl hblob,
      fun _ => hsound⟩
    exact step_files (hother _ (hx.stage_ne hq hu hu').symm)
  · rw [hholder]
    exact h.holder
  · obtain ⟨hm', hb'⟩ := h.held m b hg
    exact ⟨hmanifest.trans hm', hblob.trans hb'⟩
  · cases hu.symm.trans hu'
    exact hstaged data hg
  · rw [hdrawn]
    exact h.drawn

theorem does_stage (hx : x.Tidy) (hu : x.jobs p = .put u) (h : x.Knows p g s)
    (hsite : site ≠ .version) (data : List UInt8) :
    x.Does p (fun r t => r = .ok () ∧ x.Knows p { g with staged := some data } t)
      (install site (x.stage u) (.bytes data)) s := by
  refine does_perform h (fun t ht _ => ?_) fun r s t hs hst => ⟨hs.1, hs.2.stable hst⟩
  have hfile : ∀ data', some data = some data' →
      (x.step p ⟨site, .install (x.stage u) (.bytes data)⟩ t).2.world.files (x.stage u) =
        some (.bytes data') := by
    intro data' hdata
    cases hdata
    exact World.put_files_same _ _ _
  obtain ⟨hothers, hknows⟩ := ht.restage hx hu
    ⟨site, .install (x.stage u) (.bytes data)⟩ (hx.stage_manifest u) (hx.stage_blob u)
    (fun path hpath => hpath.symm) (by simp) (by simp) hsite hfile
  exact ⟨hothers, rfl, hknows⟩

theorem does_discard (hx : x.Tidy) (hu : x.jobs p = .put u) (h : x.Knows p g s)
    (hsite : site ≠ .version) :
    x.Does p (fun _ t => x.Knows p { g with staged := none } t) (remove site (x.stage u)) s := by
  refine does_perform h (fun t ht _ => ?_) fun r s t hs hst => hs.stable hst
  have hfile : ∀ data, none = some data →
      (x.step p ⟨site, .remove (x.stage u)⟩ t).2.world.files (x.stage u) = some (.bytes data) := by
    intro data hdata
    cases hdata
  exact ht.restage hx hu ⟨site, .remove (x.stage u)⟩ (hx.stage_manifest u) (hx.stage_blob u)
    (fun path hpath => hpath.symm) (by simp) (by simp) hsite hfile

theorem Knows.rewrite (hp : (x.jobs p).reads = false) (h : x.Knows p g s) (hg : g.held ≠ none)
    (op : Op) (hl : op.call ≠ .lock) (hul : op.call ≠ .unlock) (hv : op.site ≠ .version)
    (hstage : ∀ q u, q ≠ p → x.jobs q = .put u → op.call.Avoids (x.stage u))
    {staged : Option (List UInt8)}
    (hstaged : ∀ u data, x.jobs p = .put u → staged = some data →
      (x.step p op s).2.world.files (x.stage u) = some (.bytes data))
    (hm : (x.step p op s).2.world.files x.manifest = m)
    (hb : (x.step p op s).2.world.files x.blob = b)
    (hblob : ∀ q, s.taken q ≠ none → (x.step p op s).2.world.files x.blob = s.world.files x.blob ∨
        (x.step p op s).2.world.files x.blob = none) (hsound : x.Sound (x.step p op s).2) :
    x.Considerate p op s ∧ x.Knows p ⟨staged, g.drawn, some (m, b)⟩ (x.step p op s).2 := by
  have hold : s.holder = some p := h.holder.mpr hg
  have hholder : (x.step p op s).2.holder = s.holder := step_holder hl hul
  refine ⟨considerate_of_holder hp hold hl hul hv hstage hblob fun _ => hsound, ?_, ?_, hstaged,
    ?_, hsound⟩
  · rw [hholder, hold]
    simp
  · intro m' b' heq
    cases heq
    exact ⟨hm, hb⟩
  · rw [step_drawn hv]
    exact h.drawn

theorem does_move (hx : x.Tidy) (hu : x.jobs p = .put u) (h : x.Knows p g s)
    (hg : g.held = some (m, b)) {data : List UInt8} (hstaged : g.staged = some data) :
    x.Does p (fun r t => r = .ok () ∧ x.Knows p ⟨none, g.drawn, some (m, some (.bytes data))⟩ t)
      (rename (.file .blobRename) (x.stage u) x.blob) s := by
  have hp : (x.jobs p).reads = false := by rw [hu]; rfl
  refine does_perform h (fun t ht hmay => ?_) fun r s t hs hst => ⟨hs.1, hs.2.stable hst⟩
  have hfile := ht.staged u data hu hstaged
  have hran : exec x.host .none ⟨.file .blobRename, .rename (x.stage u) x.blob⟩ t.world =
      (Except.ok (), t.world.move (x.stage u) x.blob) := by
    simp only [exec, Faults.none_apply, Call.apply, hfile]
    rfl
  have hworld : (x.step p ⟨.file .blobRename, .rename (x.stage u) x.blob⟩ t).2.world =
      t.world.move (x.stage u) x.blob := congrArg Prod.snd hran
  have hm : (x.step p ⟨.file .blobRename, .rename (x.stage u) x.blob⟩ t).2.world.files
      x.manifest = m := by
    rw [hworld, World.move_files_other _ (hx.stage_manifest u).symm hx.blob_manifest.symm]
    exact (ht.held m b hg).1
  have hb : (x.step p ⟨.file .blobRename, .rename (x.stage u) x.blob⟩ t).2.world.files x.blob =
      some (.bytes data) := by
    rw [hworld, World.move_files_target, hfile]
  have hmoved : (x.step p ⟨.file .blobRename, .rename (x.stage u) x.blob⟩ t).2.moved = true := by
    simp [step, movedAfter, hfile]
  have hfree : ∀ q, t.taken q = none := hmay.2.blob _ rfl
  have hsound : x.Sound (x.step p ⟨.file .blobRename, .rename (x.stage u) x.blob⟩ t).2 := by
    refine ⟨fun rows hrows => ht.sound.distinct rows ?_, fun hunmoved => ?_⟩
    · rwa [← manifest_congr (hm.trans (ht.held m b hg).1.symm)]
    · rw [hmoved] at hunmoved
      cases hunmoved
  have hnone : ∀ u' data', x.jobs p = .put u' → none = some data' →
      (x.step p ⟨.file .blobRename, .rename (x.stage u) x.blob⟩ t).2.world.files (x.stage u') =
        some (.bytes data') := by
    intro u' data' _ hdata
    cases hdata
  have hstage : ∀ q u', q ≠ p → x.jobs q = .put u' →
      Call.Avoids (x.stage u') (.rename (x.stage u) x.blob) :=
    fun q u' hq hu' => ⟨hx.stage_ne hq hu hu', (hx.stage_blob u').symm⟩
  obtain ⟨hothers, hknows⟩ := ht.rewrite hp (by rw [hg]; simp)
    ⟨.file .blobRename, .rename (x.stage u) x.blob⟩ (by simp) (by simp) (by simp) hstage hnone hm hb
    (fun q hq => absurd (hfree q) hq) hsound
  exact ⟨hothers, congrArg Prod.fst hran, hknows⟩

theorem does_removeBlob (hx : x.Tidy) (hp : (x.jobs p).reads = false) (h : x.Knows p g s)
    (hg : g.held = some (m, b)) :
    x.Does p (fun r t => r = .ok () ∧ x.Knows p ⟨none, g.drawn, some (m, none)⟩ t)
      (removeIfPresent (.file .blobRemove) x.blob) s := by
  have hremove : x.Does p (fun r t => (r = .ok () ∨ r = .error .notExist) ∧
      x.Knows p ⟨none, g.drawn, some (m, none)⟩ t) (remove (.file .blobRemove) x.blob) s := by
    refine does_perform h (fun t ht _ => ?_) fun r s t hs hst => ⟨hs.1, hs.2.stable hst⟩
    have hm : (x.step p ⟨.file .blobRemove, .remove x.blob⟩ t).2.world.files x.manifest =
        t.world.files x.manifest := step_files hx.blob_manifest
    have hb : (x.step p ⟨.file .blobRemove, .remove x.blob⟩ t).2.world.files x.blob = none := by
      cases hfile : t.world.files x.blob <;> simp [step, exec, Call.apply, hfile]
    have hsound : x.Sound (x.step p ⟨.file .blobRemove, .remove x.blob⟩ t).2 :=
      ht.sound.congr hm (fun _ _ => .inr hb) (fun _ _ hv => hv) fun hmv => hmv
    have hnone : ∀ u' data', x.jobs p = .put u' → none = some data' →
        (x.step p ⟨.file .blobRemove, .remove x.blob⟩ t).2.world.files (x.stage u') =
          some (.bytes data') := by
      intro u' data' _ hdata
      cases hdata
    obtain ⟨hothers, hknows⟩ := ht.rewrite hp (by rw [hg]; simp)
      ⟨.file .blobRemove, .remove x.blob⟩ (by simp) (by simp) (by simp)
      (fun q u _ _ => (hx.stage_blob u).symm) hnone (hm.trans (ht.held m b hg).1) hb
      (fun _ _ => .inr hb) hsound
    refine ⟨hothers, ?_, hknows⟩
    cases hfile : t.world.files x.blob <;> simp [step, exec, Call.apply, hfile]
  refine does_bind hremove fun r t ht => ?_
  obtain ⟨hr, hknows⟩ := ht
  rcases hr with rfl | rfl
  · exact fun u hu => ⟨rfl, hknows.stable hu⟩
  · exact fun u hu => ⟨rfl, hknows.stable hu⟩

def rowsOf (x : FileJobs P ν) : Option File → Except FsError (List FileEntry)
  | none => .ok []
  | some file => decodeManifestFile x.lib file

omit [DecidableEq P] in
theorem manifest_eq_rowsOf (s : Desk P ν) :
    s.world.manifest x.lib false x.manifest = x.rowsOf (s.world.files x.manifest) := by
  cases hfile : s.world.files x.manifest <;> simp [World.manifest, rowsOf, hfile]

theorem does_readManifest (hp : (x.jobs p).reads = false) (h : x.Knows p g s)
    (hg : g.held = some (m, b)) (hsite : site ≠ .version) :
    x.Does p (fun r t => r = x.rowsOf m ∧ x.Knows p g t)
      (readFilesManifest x.lib site x.e.dataDir x.target.collection x.target.id) s := by
  have hread : x.Does p (fun r t => (m = none ∧ r = .error .notExist ∨
      ∃ file, m = some file ∧ r = .ok file) ∧ x.Knows p g t) (readFile site x.manifest) s := by
    refine does_perform h (fun t ht _ => ?_) fun r s t hs hst => ⟨hs.1, hs.2.stable hst⟩
    have hquiet : x.Quiet ⟨site, .readFile x.manifest⟩ :=
      ⟨trivial, trivial, fun _ => trivial, by simp, by simp, hsite⟩
    have hsame : x.Same t (x.step p ⟨site, .readFile x.manifest⟩ t).2 := hquiet.same hp
    refine ⟨fun q _ => hsame.others q, ?_, ht.same hsame⟩
    have hfile := (ht.held m b hg).1
    cases m with
    | none => exact .inl ⟨rfl, by simp [step, exec, Call.apply, hfile]⟩
    | some file => exact .inr ⟨file, rfl, by simp [step, exec, Call.apply, hfile]⟩
  refine does_bind hread fun r t ht => ?_
  obtain ⟨⟨rfl, rfl⟩ | ⟨file, rfl, rfl⟩, hknows⟩ := ht
  · exact fun u hu => ⟨rfl, hknows.stable hu⟩
  · exact fun u hu => ⟨rfl, hknows.stable hu⟩

omit [DecidableEq P] in
theorem sound_of_rows
    (hrows : ∀ found, x.rowsOf (s.world.files x.manifest) = .ok found → found = rows)
    (hdistinct : Keyed.Distinct FileEntry.name rows)
    (hbacked : ∀ entry, lookupFileEntry rows x.target.filename = some entry → x.Backed s entry) :
    x.Sound s where
  distinct found hfound := by
    rw [manifest_eq_rowsOf] at hfound
    rw [hrows found hfound]
    exact hdistinct
  backed _ entry hentry := by
    unfold listed at hentry
    rw [manifest_eq_rowsOf] at hentry
    cases hfound : x.rowsOf (s.world.files x.manifest) with
    | error err => simp [hfound] at hentry
    | ok found =>
      rw [hfound, hrows found hfound] at hentry
      exact hbacked entry hentry

omit [DecidableEq P] in
theorem Knows.forget (h : x.Knows p g s) : x.Knows p { g with staged := none } s :=
  ⟨h.holder, h.held, fun _ _ _ hnone => (by cases hnone), h.drawn, h.sound⟩

theorem Knows.relist (hx : x.Tidy) (hp : (x.jobs p).reads = false) (h : x.Knows p g s)
    (hg : g.held = some (m, b)) (hdistinct : Keyed.Distinct FileEntry.name rows)
    (hbacked : ∀ entry, lookupFileEntry rows x.target.filename = some entry → x.Backed s entry)
    (op : Op) (hl : op.call ≠ .lock) (hul : op.call ≠ .unlock) (hv : op.site ≠ .version)
    (hother : ∀ path, path ≠ x.manifest → op.call.Avoids path)
    (hrows : ∀ found, x.rowsOf ((x.step p op s).2.world.files x.manifest) = .ok found →
      found = Keyed.sort FileEntry.name rows) :
    x.Considerate p op s ∧ ∃ m', x.Knows p ⟨none, g.drawn, some (m', b)⟩ (x.step p op s).2 := by
  have hb : (x.step p op s).2.world.files x.blob = s.world.files x.blob :=
    step_files (hother _ hx.blob_manifest)
  have hsound : x.Sound (x.step p op s).2 := by
    refine sound_of_rows hrows hdistinct.sort fun entry hentry => ?_
    rw [lookupFileEntry, Keyed.lookup_sort _ hdistinct] at hentry
    rcases hbacked entry hentry with hgone | ⟨data, hdata, hdesc⟩
    · exact .inl (hb.trans hgone)
    · exact .inr ⟨data, hb.trans hdata, hdesc.mono x fun p v hv' => by rwa [step_drawn hv]⟩
  have hnone : ∀ u data, x.jobs p = .put u → none = some data →
      (x.step p op s).2.world.files (x.stage u) = some (.bytes data) := by
    intro u data _ hdata
    cases hdata
  obtain ⟨hothers, hknows⟩ := h.rewrite hp (by rw [hg]; simp) op hl hul hv
    (fun q u _ _ => hother _ (hx.stage_manifest u)) hnone rfl (hb.trans (h.held m b hg).2)
    (fun _ _ => .inl hb) hsound
  exact ⟨hothers, _, hknows⟩

theorem does_writeManifest (hx : x.Tidy) (hp : (x.jobs p).reads = false) (h : x.Knows p g s)
    (hg : g.held = some (m, b)) (hdistinct : Keyed.Distinct FileEntry.name rows)
    (hbacked : ∀ t entry, x.Knows p g t → lookupFileEntry rows x.target.filename = some entry →
      x.Backed t entry) :
    x.Does p (fun _ t => ∃ m', x.Knows p ⟨none, g.drawn, some (m', b)⟩ t)
      (writeFilesManifest .file x.e.dataDir x.target.collection x.target.id rows) s := by
  have hstable : ∀ s t, (∃ m', x.Knows p ⟨none, g.drawn, some (m', b)⟩ s) → x.Others p s t →
      ∃ m', x.Knows p ⟨none, g.drawn, some (m', b)⟩ t := by
    rintro s t ⟨m', hs⟩ hst
    exact ⟨m', hs.stable hst⟩
  unfold writeFilesManifest
  dsimp only
  split
  · rename_i hnil
    have hremove : x.Does p (fun _ t => ∃ m', x.Knows p ⟨none, g.drawn, some (m', b)⟩ t)
        (remove (.file .manifestRemove) x.manifest) s := by
      refine does_perform h (fun t ht _ => ?_) fun _ => hstable
      refine ht.relist hx hp hg hdistinct (fun entry => hbacked t entry ht)
        ⟨.file .manifestRemove, .remove x.manifest⟩ (by simp) (by simp) (by simp)
        (fun path hpath => hpath.symm) fun found hfound => ?_
      have hm : (x.step p ⟨.file .manifestRemove, .remove x.manifest⟩ t).2.world.files
          x.manifest = none := by
        cases hfile : t.world.files x.manifest <;> simp [step, exec, Call.apply, hfile]
      rw [hm] at hfound
      cases hfound
      exact hnil.symm
    refine does_bind hremove fun r t ht => ?_
    cases r <;> exact fun u hu => hstable t u ht hu
  · have hprepare : x.Does p (fun _ t => x.Knows p g t) (prepareFile
        (fun step => .file (.manifestWrite step)) x.manifest prepareSteps) s := by
      refine does_quiet hp (only_prepareFile (fun step => ?_) _) h
      exact ⟨trivial, trivial, fun _ => trivial, by simp, by simp, by simp⟩
    refine does_bind hprepare fun r t ht => ?_
    cases r with
    | error err =>
      have hkept : x.Knows p ⟨none, g.drawn, some (m, b)⟩ t := hg ▸ ht.forget
      exact fun u hu => hstable t u ⟨m, hkept⟩ hu
    | ok u =>
      have hinstall : x.Does p (fun _ t => ∃ m', x.Knows p ⟨none, g.drawn, some (m', b)⟩ t)
          (install (.file (.manifestWrite .rename)) x.manifest
            (.json (.arr ((Keyed.sort FileEntry.name rows).map FileEntry.toJson)))) t := by
        refine does_perform ht (fun t ht _ => ?_) fun _ => hstable
        refine ht.relist hx hp hg hdistinct (fun entry => hbacked t entry ht)
          ⟨.file (.manifestWrite .rename), .install x.manifest
            (.json (.arr ((Keyed.sort FileEntry.name rows).map FileEntry.toJson)))⟩
          (by simp) (by simp) (by simp) (fun path hpath => hpath.symm) fun found hfound => ?_
        have hm : (x.step p ⟨.file (.manifestWrite .rename), .install x.manifest
            (.json (.arr ((Keyed.sort FileEntry.name rows).map FileEntry.toJson)))⟩ t).2.world.files
            x.manifest = some (.json (.arr
              ((Keyed.sort FileEntry.name rows).map FileEntry.toJson))) :=
          World.put_files_same _ _ _
        rw [hm] at hfound
        exact decodeManifest_eq_ok hfound
      refine does_bind hinstall fun r t ht => ?_
      cases r <;> exact fun u hu => hstable t u ht hu
end

/-! ## Quiet programs -/

section
variable {x}
theorem quiet_passive {site : Site} {call : Call} (hsite : site ≠ .version) (h : call.Passive) :
    x.Quiet ⟨site, call⟩ := by
  refine ⟨?_, ?_, fun u => ?_, ?_, ?_, hsite⟩ <;> cases call <;> first | trivial | simp

structure Elsewhere (x : FileJobs P ν) (path : Path) : Prop where
  manifest : path ≠ x.manifest
  blob : path ≠ x.blob
  stage : ∀ u, path ≠ x.stage u

theorem Elsewhere.install {path : Path} (h : x.Elsewhere path) {site : Site}
    (hsite : site ≠ .version) (file : File) : x.Quiet ⟨site, .install path file⟩ :=
  ⟨h.manifest, h.blob, h.stage, by simp, by simp, hsite⟩

theorem Elsewhere.remove {path : Path} (h : x.Elsewhere path) {site : Site}
    (hsite : site ≠ .version) : x.Quiet ⟨site, .remove path⟩ :=
  ⟨h.manifest, h.blob, h.stage, by simp, by simp, hsite⟩

theorem Tidy.journal (hx : x.Tidy) {operationId : String} (hop : SafeName operationId) :
    x.Elsewhere (fileOpJournalPath x.e.dataDir x.target.collection x.target.id operationId) := by
  have hnames : CommitNames x.target.id x.target.filename operationId :=
    ⟨hx.id.documentId, .of_safeFileName hx.name, hop⟩
  have hpaths := hnames.paths x.e.dataDir x.target.collection
  exact ⟨hpaths.journal_manifest, hpaths.journal_blob, fun u => hpaths.journal_stage u.stage⟩

theorem Tidy.pending (hx : x.Tidy) {server : String} (hs : '/' ∉ server.toList) :
    x.Elsewhere (pendingFileWritePath x.e.dataDir x.target.collection server x.target.id
      x.target.filename) := by
  have hplain : PlainName x.target.filename := .of_safeFileName hx.name
  have heq : pendingFileWritePath x.e.dataDir x.target.collection server x.target.id
      x.target.filename = _ := pendingFileWritePath_eq_join hx.id.documentId hs hplain.noSlash
  refine ⟨?_, ?_, fun u => ?_⟩
  · rw [heq, manifest, filesManifestPath_eq_join hx.id.documentId]
    simp
  · rw [heq, blob, binaryPath_eq_join hx.id.documentId hplain]
    simp
  · rw [heq, stage, stagePath_eq_join hx.id.documentId]
    simp

theorem quiet_writeFileOpJournal (hx : x.Tidy) {j : FileOpJournal} (hop : SafeName j.operationId) :
    (writeFileOpJournal x.e.dataDir x.target.collection x.target.id j).Only x.Quiet := by
  refine .bindOk (only_perform (quiet_passive (by simp) trivial)) (fun _ => trivial) fun u => ?_
  exact only_writeFileAtomic (fun _ => quiet_passive (by simp) trivial)
    ((hx.journal hop).install (by simp) _)

theorem quiet_clearFileOpJournal (hx : x.Tidy) {operationId : String} (hop : SafeName operationId) :
    (clearFileOpJournal .file x.e.dataDir x.target.collection x.target.id operationId).Only
      x.Quiet := by
  refine .bind (only_perform ((hx.journal hop).remove (by simp))) fun r => ?_
  cases r <;> trivial

theorem quiet_deliverFileOnce (hx : x.Tidy) (command : FileCommand) (entry : FileEntry)
    (result : FileResult) :
    (deliverFileOnce x.e (fileItem x.target command entry) result).Only x.Quiet := by
  refine only_deliverFileOnce (fun place call hcall _ => quiet_passive (by simp) hcall)
    (fun _ t ht => ?_) result
  have hpending := hx.pending (hx.targets _ t ht)
  exact ⟨only_writePendingFileWrite (quiet_passive (by simp) trivial)
    (fun _ => quiet_passive (by simp) trivial) (hpending.install (by simp) _),
    hpending.remove (by simp)⟩
end

/-! ## Uploads -/

section
variable {x} {s t : Desk P ν} {p : P} {g : Grip} [DecidableEq P]
variable {α : Type} {u : Upload} {version : String} {m : Option File} {entry : FileEntry}
  {b : Option File} {site : Site} {call : Call}
theorem does_done {post : α → Desk P ν → Prop} {a : α} (hpost : ∀ t, x.Others p s t → post a t) :
    x.Does p post (.done a : Prog α) s := hpost

theorem does_quiet_then {β : Type} {prog : Prog α} {f : α → Prog β} {post : β → Desk P ν → Prop}
    (hp : (x.jobs p).reads = false) (hprog : prog.Only x.Quiet) (h : x.Knows p g s)
    (hf : ∀ a t, x.Knows p g t → x.Does p post (f a) t) : x.Does p post (prog.bind f) s :=
  does_bind (does_quiet hp hprog h) hf

theorem does_fileOperationId (hx : x.Tidy) (hp : (x.jobs p).reads = false) (h : x.Knows p g s)
    {given : String} (hgiven : SafeName given) :
    x.Does p (fun r t => (∀ operationId, r = .ok operationId → SafeName operationId) ∧
      x.Knows p g t) (fileOperationId given) s := by
  unfold fileOperationId
  split
  · refine does_perform h (fun t ht _ => ?_) fun r s t hs hst => ⟨hs.1, hs.2.stable hst⟩
    have hquiet : x.Quiet ⟨.operationId, .newId⟩ := quiet_passive (by simp) trivial
    have hsame : x.Same t (x.step p ⟨.operationId, .newId⟩ t).2 := hquiet.same hp
    refine ⟨fun q _ => hsame.others q, ?_, ht.same hsame⟩
    intro operationId hr
    cases hr
    exact hx.ids _
  · refine fun t ht => ⟨?_, h.stable ht⟩
    intro operationId hr
    cases hr
    exact hgiven

def stagedBy (x : FileJobs P ν) (u : Upload) : StagedBinary :=
  ⟨x.stage u, u.body.data.length, x.lib.sha256 u.body.data⟩

theorem does_stageWriteBinary (hx : x.Tidy) (hu : x.jobs p = .put u)
    (h : x.Knows p ⟨none, none, none⟩ s) (maxBytes : Int) :
    x.Does p (fun r t => ∀ staged, r = .ok staged →
        staged = x.stagedBy u ∧ x.Knows p ⟨some u.body.data, none, none⟩ t)
      (stageWriteBinary x.lib x.e.dataDir x.target.collection x.target.id x.target.filename u.stage
        u.body maxBytes) s := by
  have hp : (x.jobs p).reads = false := by rw [hu]; rfl
  have herror : ∀ (err : FsError) (t : Desk P ν), x.Does p (fun r t => ∀ staged, r = .ok staged →
      staged = x.stagedBy u ∧ x.Knows p ⟨some u.body.data, none, none⟩ t)
      (.done (.error err) : Prog (Except FsError StagedBinary)) t := by
    intro err t t' _ staged hr
    cases hr
  unfold stageWriteBinary
  dsimp only
  rw [if_neg (by simp [hx.name])]
  refine does_quiet_then hp (only_perform (quiet_passive (by simp) trivial)) h fun r t ht => ?_
  cases r with
  | error err => exact herror err t
  | ok _ =>
    refine does_bind (does_stage hx hu ht (by simp) []) fun r t ht => ?_
    obtain ⟨rfl, ht⟩ := ht
    -- the copy ends with the whole body staged, or with an error
    have hfill : ∀ max : Int, x.Does p (fun r t => ∃ data,
        x.Knows p ⟨some data, none, none⟩ t ∧ (r = .ok () → data = u.body.data))
        (fillStage (x.stage u) u.body max) t := by
      intro max
      refine does_bind (does_stage hx hu ht (by simp) _) fun r t ht => ?_
      obtain ⟨rfl, ht⟩ := ht
      dsimp only
      split
      · refine does_done fun t' ht' => ⟨_, ht.stable ht', fun hr => ?_⟩
        cases hr
      · rename_i hfits
        have hshort : (u.body.data.length : Int) ≤ max := by
          simp only [Body.exceeds, decide_eq_true_eq, not_or, not_lt] at hfits
          exact hfits.1
        have htake : u.body.data.take max.toNat = u.body.data :=
          List.take_of_length_le (by omega)
        rw [htake] at ht
        have hprepare : (prepareFile (fun step => .file (.stage step)) (x.stage u)
            [.sync, .close, .chmod]).Only x.Quiet :=
          only_prepareFile (fun _ => quiet_passive (by simp) trivial) _
        exact (does_quiet hp hprepare ht).mono fun r t ht => ⟨_, ht, fun _ => rfl⟩
    refine does_bind (hfill _) fun r t ht => ?_
    obtain ⟨data, ht, hdata⟩ := ht
    cases r with
    | error err =>
      exact does_bind (does_discard hx hu ht (by simp)) fun _ t _ => herror err t
    | ok _ =>
      refine does_done fun t' ht' staged hr => ?_
      cases hr
      obtain rfl := hdata rfl
      exact ⟨rfl, ht.stable ht'⟩

omit [DecidableEq P] in
theorem describes_entry (hu : x.jobs p = .put u) (hdrawn : t.drawn p = some version)
    (operationId : String) (v : Upload) :
    x.Describes t (v.entry (x.stagedBy u) operationId version) u.body.data :=
  ⟨rfl, rfl, .inr ⟨p, u, hu, rfl, hdrawn⟩⟩

theorem does_finishUpload (hx : x.Tidy) (hu : x.jobs p = .put u)
    (h : x.Knows p ⟨none, some version, some (m, some (.bytes u.body.data))⟩ s)
    (hname : entry.name = x.target.filename)
    (hdescribes : ∀ t : Desk P ν, t.drawn p = some version → x.Describes t entry u.body.data)
    {j : FileOpJournal} (hop : SafeName entry.operationId)
    (hj : j.operationId = entry.operationId) :
    x.Does p (fun _ t => ∃ g, g.held ≠ none ∧ x.Knows p g t)
      (finishUpload x.lib x.e.dataDir x.target.collection x.target.id entry j) s := by
  have hp : (x.jobs p).reads = false := by rw [hu]; rfl
  have hend : ∀ (r : Except FsError Unit) (g : Grip) (t : Desk P ν), g.held ≠ none → x.Knows p g t →
      x.Does p (fun _ t => ∃ g, g.held ≠ none ∧ x.Knows p g t) (.done r : Prog _) t :=
    fun r g t hg ht t' ht' => ⟨g, hg, ht.stable ht'⟩
  have hsafe : ∀ phase stagedPath, SafeName { j with phase, stagedPath }.operationId := by
    intro phase stagedPath
    change SafeName j.operationId
    rwa [hj]
  refine does_quiet_then hp (quiet_writeFileOpJournal hx (hsafe _ _)) h fun r t ht => ?_
  cases r with
  | error err => exact hend _ _ t (by simp) ht
  | ok _ =>
    have hupsert : x.Does p (fun _ t => ∃ g, g.held ≠ none ∧ x.Knows p g t)
        (upsertManifestEntry x.lib .file x.e.dataDir x.target.collection x.target.id entry) t := by
      refine does_bind (does_readManifest hp ht rfl (by simp)) fun r t ht => ?_
      obtain ⟨rfl, ht⟩ := ht
      cases hrows : x.rowsOf m with
      | error err => exact hend _ _ t (by simp) ht
      | ok rows =>
        have hdistinct : Keyed.Distinct FileEntry.name rows := by
          refine ht.sound.distinct rows ?_
          rw [manifest_eq_rowsOf, (ht.held _ _ rfl).1, hrows]
        refine (does_writeManifest hx hp ht rfl (hdistinct.upsert _ entry) ?_).mono fun r t ht => ?_
        · intro t entry' ht hentry
          rw [lookupFileEntry, Keyed.lookup_upsert, if_pos hname.symm] at hentry
          cases hentry
          exact .inr ⟨_, (ht.held _ _ rfl).2, hdescribes t ht.drawn⟩
        · obtain ⟨m', ht⟩ := ht
          exact ⟨_, by simp, ht⟩
    refine does_bind hupsert fun r t ht => ?_
    obtain ⟨g, hg, ht⟩ := ht
    cases r with
    | error err => exact hend _ _ t hg ht
    | ok _ =>
      refine does_quiet_then hp (quiet_writeFileOpJournal hx (hsafe _ _)) ht fun r t ht => ?_
      exact (does_quiet hp (quiet_clearFileOpJournal hx hop) ht).mono fun _ t ht => ⟨g, hg, ht⟩

theorem does_kept {a : α} (h : x.Knows p g s) (hg : g.held ≠ none) :
    x.Does p (fun _ t => ∃ g, g.held ≠ none ∧ x.Knows p g t) (pure a) s :=
  fun _ ht => ⟨g, hg, h.stable ht⟩

theorem does_commitStagedBinary (hx : x.Tidy) (hu : x.jobs p = .put u)
    (h : x.Knows p ⟨some u.body.data, some version, some (m, b)⟩ s)
    (hname : entry.name = x.target.filename)
    (hdescribes : ∀ t : Desk P ν, t.drawn p = some version → x.Describes t entry u.body.data)
    (hop : SafeName entry.operationId) :
    x.Does p (fun _ t => ∃ g, g.held ≠ none ∧ x.Knows p g t)
      (commitStagedBinary x.lib x.e.dataDir x.target.collection x.target.id entry
        (x.stagedBy u)) s := by
  have hp : (x.jobs p).reads = false := by rw [hu]; rfl
  have hcommand : x.Does p (fun _ t => x.Knows p ⟨some u.body.data, some version, some (m, b)⟩ t)
      (journalCommand x.lib x.e.dataDir x.target.collection x.target.id entry.name) s := by
    refine does_bind (does_readManifest hp h rfl (by simp)) fun r t ht => ?_
    cases r <;> exact fun t' ht' => ht.2.stable ht'
  refine does_bind hcommand fun command t ht => ?_
  refine does_quiet_then hp (quiet_writeFileOpJournal hx hop) ht fun r t ht => ?_
  cases r with
  | error err => exact does_kept ht (by simp)
  | ok _ =>
    refine does_quiet_then hp (only_perform (quiet_passive (by simp) trivial)) ht fun r t ht => ?_
    cases r with
    | error err => exact does_kept ht (by simp)
    | ok _ =>
      dsimp only
      rw [hname]
      refine does_bind (does_move hx hu ht rfl rfl) fun r t ht => ?_
      obtain ⟨rfl, ht⟩ := ht
      exact does_finishUpload hx hu ht hname hdescribes hop rfl

theorem does_putLocal (hx : x.Tidy) (hu : x.jobs p = .put u)
    (h : x.Knows p ⟨some u.body.data, none, some (m, b)⟩ s) :
    x.Does p (fun _ t => ∃ g, g.held ≠ none ∧ x.Knows p g t)
      (putLocal x.lib x.e { u with target := x.target } (x.stagedBy u)) s := by
  have hp : (x.jobs p).reads = false := by rw [hu]; rfl
  refine does_quiet_then hp (only_perform (quiet_passive (by simp) trivial)) h fun r t ht => ?_
  cases r with
  | error err => exact does_kept ht (by simp)
  | ok _ =>
    refine does_bind (does_readManifest hp ht rfl (by simp)) fun r t ht => ?_
    obtain ⟨-, ht⟩ := ht
    cases r with
    | error err => exact does_kept ht (by simp)
    | ok rows =>
      dsimp only
      split
      · exact does_kept ht (by simp)
      · refine does_bind (does_fileOperationId hx hp ht (hx.uploads p u hu)) fun r t ht => ?_
        obtain ⟨hsafe, ht⟩ := ht
        cases r with
        | error err => exact does_kept ht (by simp)
        | ok operationId =>
          refine does_bind (does_version hp ht rfl) fun r t ht => ?_
          obtain ⟨version, rfl, ht⟩ := ht
          refine does_bind (does_commitStagedBinary hx hu ht rfl
            (fun t hdrawn => describes_entry hu hdrawn _ _) (hsafe _ rfl)) fun r t ht => ?_
          obtain ⟨g, hg, ht⟩ := ht
          cases r <;> exact fun t' ht' => ⟨g, hg, ht.stable ht'⟩

theorem does_locked {body : Prog α} (hp : (x.jobs p).reads = false) (h : x.Knows p g s)
    (hbody : ∀ m b t, x.Knows p { g with held := some (m, b) } t →
      x.Does p (fun _ t => ∃ g, g.held ≠ none ∧ x.Knows p g t) body t) :
    x.Does p (fun _ t => ∃ g, x.Knows p g t) (locked body) s := by
  refine does_bind (does_lock hp h) fun _ t ht => ?_
  obtain ⟨m, b, ht⟩ := ht
  refine does_bind (hbody m b t ht) fun a t ht => ?_
  obtain ⟨g, hg, ht⟩ := ht
  exact does_bind (does_unlock hp ht hg) fun _ t ht => fun t' ht' => ⟨_, ht.stable ht'⟩

theorem does_putFile (hx : x.Tidy) (hu : x.jobs p = .put u) (h : x.Knows p ⟨none, none, none⟩ s) :
    x.Does p (fun _ _ => True) (putFile x.lib x.e { u with target := x.target }) s := by
  have hp : (x.jobs p).reads = false := by rw [hu]; rfl
  unfold putFile
  split
  · exact fun _ _ => trivial
  · refine does_bind (does_stageWriteBinary hx hu h x.e.maxFileBytes) fun r t ht => ?_
    cases r with
    | error err => exact fun _ _ => trivial
    | ok staged =>
      obtain ⟨rfl, hknows⟩ := ht staged rfl
      refine does_bind (does_locked hp hknows fun m b t ht => does_putLocal hx hu ht)
        fun r t ht => ?_
      obtain ⟨g, ht⟩ := ht
      cases r with
      | error err =>
        exact does_bind (does_discard hx hu ht (by simp)) fun _ _ _ => fun _ _ => trivial
      | ok entry =>
        exact (does_quiet hp (quiet_deliverFileOnce hx _ entry _) ht).mono fun _ _ _ => trivial

/-! ## Deletes -/

omit [DecidableEq P] in
theorem deleteFileGuard_ok {ifMatch : String} {found : Option FileEntry}
    (h : deleteFileGuard ifMatch found = .ok entry) : found = some entry := by
  unfold deleteFileGuard at h
  split at h
  · cases h
  · split at h
    · cases h
    · cases h
      rfl

theorem does_commitFileDelete (hx : x.Tidy) (hp : (x.jobs p).reads = false)
    {drawn : Option String} (h : x.Knows p ⟨none, drawn, some (m, b)⟩ s)
    (hname : entry.name = x.target.filename) (hop : SafeName entry.operationId) :
    x.Does p (fun _ t => ∃ g, g.held ≠ none ∧ x.Knows p g t)
      (commitFileDelete x.lib x.e.dataDir x.target.collection x.target.id entry) s := by
  have hend : ∀ (r : Except FsError Unit) (g : Grip) (t : Desk P ν), g.held ≠ none → x.Knows p g t →
      x.Does p (fun _ t => ∃ g, g.held ≠ none ∧ x.Knows p g t) (.done r : Prog _) t :=
    fun r g t hg ht t' ht' => ⟨g, hg, ht.stable ht'⟩
  refine does_quiet_then hp (quiet_writeFileOpJournal hx hop) h fun r t ht => ?_
  cases r with
  | error err => exact hend _ _ t (by simp) ht
  | ok _ =>
    unfold removeBinary
    rw [hname]
    refine does_bind (does_removeBlob hx hp ht rfl) fun r t ht => ?_
    obtain ⟨rfl, ht⟩ := ht
    refine does_quiet_then hp (quiet_writeFileOpJournal hx hop) ht fun r t ht => ?_
    cases r with
    | error err => exact hend _ _ t (by simp) ht
    | ok _ =>
      have herase : x.Does p (fun _ t => ∃ g, g.held ≠ none ∧ x.Knows p g t)
          (removeManifestEntry x.lib .file x.e.dataDir x.target.collection x.target.id
            entry.name) t := by
        refine does_bind (does_readManifest hp ht rfl (by simp)) fun r t ht => ?_
        obtain ⟨rfl, ht⟩ := ht
        cases hrows : x.rowsOf m with
        | error err => exact hend _ _ t (by simp) ht
        | ok rows =>
          have hdistinct : Keyed.Distinct FileEntry.name rows := by
            refine ht.sound.distinct rows ?_
            rw [manifest_eq_rowsOf, (ht.held _ _ rfl).1, hrows]
          refine (does_writeManifest hx hp ht rfl (hdistinct.erase _ entry.name) ?_).mono
            fun r t ht => ?_
          · intro t entry' ht hentry
            rw [lookupFileEntry, Keyed.lookup_erase, if_pos hname.symm] at hentry
            cases hentry
          · obtain ⟨m', ht⟩ := ht
            exact ⟨_, by simp, ht⟩
      refine does_bind herase fun r t ht => ?_
      obtain ⟨g, hg, ht⟩ := ht
      cases r with
      | error err => exact hend _ _ t hg ht
      | ok _ =>
        exact (does_quiet hp (quiet_clearFileOpJournal hx hop) ht).mono fun _ t ht => ⟨g, hg, ht⟩

theorem does_deleteFile (hx : x.Tidy) {ifMatch operationId : String}
    (hjob : x.jobs p = .delete ifMatch operationId) (h : x.Knows p ⟨none, none, none⟩ s) :
    x.Does p (fun _ _ => True) (deleteFile x.lib x.e x.target ifMatch operationId) s := by
  have hp : (x.jobs p).reads = false := by rw [hjob]; rfl
  have hlocal : ∀ m b t, x.Knows p ⟨none, none, some (m, b)⟩ t →
      x.Does p (fun _ t => ∃ g, g.held ≠ none ∧ x.Knows p g t)
        (deleteFileLocal x.lib x.e x.target ifMatch operationId) t := by
    intro m b t ht
    refine does_quiet_then hp (only_perform (quiet_passive (by simp) trivial)) ht fun r t ht => ?_
    cases r with
    | error err => exact does_kept ht (by simp)
    | ok _ =>
      refine does_bind (does_readManifest hp ht rfl (by simp)) fun r t ht => ?_
      obtain ⟨-, ht⟩ := ht
      cases r with
      | error err => exact does_kept ht (by simp)
      | ok rows =>
        dsimp only
        cases hguard : deleteFileGuard ifMatch (lookupFileEntry rows x.target.filename) with
        | error err => exact does_kept ht (by simp)
        | ok existing =>
          have hname : existing.name = x.target.filename :=
            Keyed.lookup_key _ (deleteFileGuard_ok hguard)
          refine does_bind (does_fileOperationId hx hp ht (hx.deletes p _ _ hjob)) fun r t ht => ?_
          obtain ⟨hsafe, ht⟩ := ht
          cases r with
          | error err => exact does_kept ht (by simp)
          | ok operation =>
            refine does_bind (does_commitFileDelete hx hp ht hname (hsafe _ rfl)) fun r t ht => ?_
            obtain ⟨g, hg, ht⟩ := ht
            cases r <;> exact fun t' ht' => ⟨g, hg, ht.stable ht'⟩
  unfold deleteFile
  split
  · exact fun _ _ => trivial
  · refine does_bind (does_locked hp h hlocal) fun r t ht => ?_
    obtain ⟨g, ht⟩ := ht
    cases r with
    | error err => exact fun _ _ => trivial
    | ok entry =>
      exact (does_quiet hp (quiet_deliverFileOnce hx _ entry _) ht).mono fun _ _ _ => trivial

/-! ## Reads -/

structure Holds (x : FileJobs P ν) (p : P) (entry : Option FileEntry) (s : Desk P ν) : Prop where
  taken : s.taken p = entry
  backed : ∀ found, entry = some found → x.Backed s found
  sound : x.Sound s

omit [DecidableEq P] in
theorem Holds.stable {entry : Option FileEntry} (h : x.Holds p entry s) (hst : x.Others p s t) :
    x.Holds p entry t where
  taken := hst.own.2.trans h.taken
  backed found hfound := by
    have htaken : s.taken p ≠ none := by
      rw [h.taken, hfound]
      simp
    rcases hst.blob htaken with heq | hgone
    · rcases h.backed found hfound with hgone | ⟨data, hdata, hdesc⟩
      · exact .inl (heq.trans hgone)
      · exact .inr ⟨data, heq.trans hdata, hdesc.mono x hst.drawn⟩
    · exact .inl hgone
  sound := hst.sound h.sound

def Looks : Call → Prop
  | .stat _ | .readFile _ => True
  | _ => False

theorem step_world_looks (h : Looks call) : (x.step p ⟨site, call⟩ s).2.world = s.world := by
  cases call with
  | stat path => cases hfile : s.world.files path <;> simp [step, exec, Call.apply, hfile]
  | readFile path => cases hfile : s.world.files path <;> simp [step, exec, Call.apply, hfile]
  | _ => cases h

theorem look_step (hsite : site ≠ .version) (h : Looks call) (hs : x.Sound s) :
    x.Considerate p ⟨site, call⟩ s ∧ x.Sound (x.step p ⟨site, call⟩ s).2 := by
  have hworld : (x.step p ⟨site, call⟩ s).2.world = s.world := step_world_looks h
  have hdrawn : (x.step p ⟨site, call⟩ s).2.drawn = s.drawn := step_drawn hsite
  have hholder : (x.step p ⟨site, call⟩ s).2.holder = s.holder := by
    refine step_holder ?_ ?_ <;> rintro rfl <;> cases h
  have hmoved : (x.step p ⟨site, call⟩ s).2.moved = s.moved := by
    refine step_moved ?_ ?_ <;> cases call <;> trivial
  have hsound : x.Sound (x.step p ⟨site, call⟩ s).2 :=
    hs.congr (by rw [hworld]) (fun _ _ => .inl (by rw [hworld])) (fun p v hv => by rwa [hdrawn])
      fun hm => by rwa [hmoved] at hm
  refine ⟨fun q hq => ?_, hsound⟩
  refine ⟨by rw [hholder], fun _ => ?_, fun _ _ => by rw [hworld], fun p v hv => by rwa [hdrawn],
    ⟨by rw [hdrawn], step_taken_other hq⟩, fun _ => .inl (by rw [hworld]), fun _ => hsound⟩
  rw [hworld]
  exact ⟨rfl, rfl⟩

theorem does_look {entry : Option FileEntry} {post : call.Answer → Desk P ν → Prop}
    (hsite : site ≠ .version) (hlook : Looks call) (h : x.Holds p entry s)
    (hcall : ∀ t, x.Holds p entry t → x.May p ⟨site, call⟩ t →
      post (x.step p ⟨site, call⟩ t).1 (x.step p ⟨site, call⟩ t).2)
    (hpost : ∀ r s t, post r s → x.Others p s t → post r t) : x.Does p post (perform site call) s :=
  Program.Among.call h (fun _ _ hs hst => hs.stable hst)
    (fun t ht hmay => ⟨(look_step hsite hlook ht.sound).1, hcall t ht hmay⟩) hpost

theorem does_takeEntry (hp : (x.jobs p).reads = true) (h : x.Holds p none s) :
    x.Does p (fun r t => ∀ rows, r = .ok rows →
        x.Holds p (lookupFileEntry rows x.target.filename) t)
      (readFilesManifest x.lib (.file .manifest) x.e.dataDir x.target.collection x.target.id) s := by
  have hread : x.Does p (fun r t => ∃ m entry, x.Holds p entry t ∧
      (∀ rows, x.rowsOf m = .ok rows → lookupFileEntry rows x.target.filename = entry) ∧
        (m = none ∧ r = .error .notExist ∨ ∃ file, m = some file ∧ r = .ok file))
      (readFile (.file .manifest) x.manifest) s := by
    refine does_look (by simp) trivial h (fun t ht hmay => ?_) fun r s t hs hst => ?_
    · have hworld : (x.step p ⟨.file .manifest, .readFile x.manifest⟩ t).2.world = t.world :=
        step_world_looks trivial
      have hdrawn : (x.step p ⟨.file .manifest, .readFile x.manifest⟩ t).2.drawn = t.drawn :=
        step_drawn (by simp)
      have hlook : Looks (.readFile x.manifest) := trivial
      have hunmoved : t.moved = false := hmay.2.entry hp rfl
      refine ⟨t.world.files x.manifest, x.listed t.world, ⟨?_, ?_, ?_⟩, ?_, ?_⟩
      · simp [step, takenAfter, hp]
      · intro found hfound
        rcases ht.sound.backed hunmoved found hfound with hgone | ⟨data, hdata, hdesc⟩
        · exact .inl (by rw [hworld, hgone])
        · exact .inr ⟨data, by rw [hworld, hdata], hdesc.mono x fun _ _ hv => by rwa [hdrawn]⟩
      · exact (look_step (by simp) hlook ht.sound).2
      · intro rows hrows
        rw [← manifest_eq_rowsOf] at hrows
        simp only [listed, hrows]
      · cases hfile : t.world.files x.manifest with
        | none => exact .inl ⟨rfl, by simp [step, exec, Call.apply, hfile]⟩
        | some file => exact .inr ⟨file, rfl, by simp [step, exec, Call.apply, hfile]⟩
    · obtain ⟨m, entry, hholds, hrest⟩ := hs
      exact ⟨m, entry, hholds.stable hst, hrest⟩
  refine does_bind hread fun r t ht => ?_
  obtain ⟨m, entry, hholds, hentry, ⟨rfl, rfl⟩ | ⟨file, rfl, rfl⟩⟩ := ht
  · intro t' ht' rows hrows
    rw [hentry rows hrows]
    exact hholds.stable ht'
  · intro t' ht' rows hrows
    rw [hentry rows hrows]
    exact hholds.stable ht'

theorem does_openBinary (hx : x.Tidy) (h : x.Holds p (some entry) s) :
    x.Does p (fun r t => ∀ data, r = .ok data → x.Describes t entry data)
      (openBinary (.file .openBlob) x.e.dataDir x.target.collection x.target.id
        x.target.filename) s := by
  unfold openBinary
  rw [if_neg (by simp [hx.name])]
  have hread : x.Does p (fun r t => ∀ file, r = .ok file → x.Describes t entry file.data)
      (readFile (.file .openBlob) x.blob) s := by
    refine does_look (by simp) trivial h (fun t ht _ => ?_) fun r s t hs hst file hfile => ?_
    · intro file hfile
      have hstored : t.world.files x.blob = some file := exec_readFile_ok hfile
      rcases ht.backed entry rfl with hgone | ⟨data, hdata, hdesc⟩
      · rw [hgone] at hstored
        cases hstored
      · rw [hdata] at hstored
        cases hstored
        have hdrawn : (x.step p ⟨.file .openBlob, .readFile x.blob⟩ t).2.drawn = t.drawn :=
          step_drawn (by simp)
        exact hdesc.mono x fun _ _ hv => by rwa [hdrawn]
    · exact (hs file hfile).mono x hst.drawn
  refine does_bind hread fun r t ht => ?_
  cases r with
  | error err =>
    intro t' _ data hr
    cases hr
  | ok file =>
    intro t' ht' data hr
    cases hr
    exact (ht file rfl).mono x ht'.drawn

omit [DecidableEq P] in
theorem faithful_download {data : List UInt8} (h : x.Describes s entry data) :
    x.Faithful s (download entry data) := by
  have hbody : (download entry data).body = data := by
    simp [download, h.size]
  refine ⟨?_, ?_, ?_⟩
  · rw [hbody]
    exact h.size
  · rw [hbody]
    exact h.digest
  · rw [hbody]
    exact h.version

theorem does_readFileCommand (hx : x.Tidy) (hp : (x.jobs p).reads = true) (h : x.Holds p none s) :
    x.Does p (fun r t => ∀ d, r = .ok d → x.Faithful t d)
      (readFileCommand x.lib x.e x.target) s := by
  have hopen : x.Does p (fun r t => ∀ opened, r = .ok opened →
      x.Describes t opened.1 opened.2) (openFileForDownload x.lib x.e x.target) s := by
    have herror : ∀ (res : FileResult) (t : Desk P ν), x.Does p (fun r t => ∀ opened,
        r = .ok opened → x.Describes t opened.1 opened.2)
        (.done (.error res) : Prog (Except FileResult (FileEntry × List UInt8))) t := by
      intro res t t' _ opened hr
      cases hr
    unfold openFileForDownload
    split
    · exact herror _ s
    split
    · exact herror _ s
    have hstat : x.Does p (fun _ t => x.Holds p none t)
        (stat (.file .parent) (x.e.live x.target.collection x.target.id)) s := by
      refine does_look (by simp) trivial h (fun t ht _ => ⟨?_, ?_, ?_⟩)
        fun _ s t hs hst => hs.stable hst
      · simpa [step, takenAfter] using ht.taken
      · intro found hfound
        cases hfound
      · have hlook : Looks (.stat (x.e.live x.target.collection x.target.id)) := trivial
        exact (look_step (by simp) hlook ht.sound).2
    refine does_bind hstat fun r t ht => ?_
    cases r with
    | error err => exact herror _ t
    | ok _ =>
      refine does_bind (does_takeEntry hp ht) fun r t ht => ?_
      cases r with
      | error err => exact herror _ t
      | ok rows =>
        have hholds := ht rows rfl
        dsimp only
        cases hentry : lookupFileEntry rows x.target.filename with
        | none => exact herror _ t
        | some entry =>
          rw [hentry] at hholds
          refine does_bind (does_openBinary hx hholds) fun r t ht => ?_
          cases r with
          | error err => exact herror _ t
          | ok data =>
            intro t' ht' opened hr
            cases hr
            exact (ht data rfl).mono x ht'.drawn
  refine does_bind hopen fun r t ht => ?_
  cases r with
  | error res =>
    intro t' _ d hr
    cases hr
  | ok opened =>
    intro t' ht' d hr
    cases hr
    exact faithful_download ((ht opened rfl).mono x ht'.drawn)

/-! ## Runs -/

omit [DecidableEq P] in
theorem sound_start (hw : ManifestMatches x.lib x.e x.world (x.target.collection, x.target.id))
    (hname : PlainName x.target.filename) : x.Sound (x.start).shared := by
  obtain ⟨rows, hrows, hdistinct, hblobs, -⟩ := hw
  refine ⟨fun found hfound => ?_, fun _ entry hentry => ?_⟩
  · cases hrows.symm.trans hfound
    exact hdistinct
  · have hlisted : x.listed x.world = some entry := hentry
    have hlookup : lookupFileEntry rows x.target.filename = some entry := by
      have hrows' : x.world.manifest x.lib false x.manifest = .ok rows := hrows
      rw [listed, hrows'] at hlisted
      exact hlisted
    obtain ⟨data, hdata, hsize, hdigest⟩ := hblobs entry (Keyed.lookup_mem _ hlookup)
    have hblob : x.world.files x.blob = some (.bytes data) := by
      rw [Keyed.lookup_key _ hlookup] at hdata
      rwa [blob, binaryPath_eq_append _ _ _ hname]
    exact .inr ⟨data, hblob, hsize, hdigest, .inl ⟨entry, hlisted, rfl, hblob⟩⟩

/-- In every interleaving that keeps the two steps of a read and the two steps of an upload apart,
the body of every download has the size, the digest and the version that its headers announce. -/
theorem download_faithful (hx : x.Tidy)
    (hw : ManifestMatches x.lib x.e x.world (x.target.collection, x.target.id))
    {pool : Pool P Op Op.Answer (Desk P ν) StoreAnswer}
    (hreach : Pool.Reach x.step Free (fun pool p op => x.Timely p op pool.shared) x.start pool)
    {d : Download} (hd : pool.procs p = .done (.download d)) : x.Faithful pool.shared d := by
  have hsound := sound_start hw (.of_safeFileName hx.name)
  have hstart : ∀ q, x.Does q (fun a t => ∀ d, a = .download d → x.Faithful t d)
      (x.start.procs q) x.start.shared := by
    intro q
    have hwriter : x.Knows q ⟨none, none, none⟩ x.start.shared := by
      refine ⟨⟨fun heq => ?_, fun hne => absurd rfl hne⟩, fun _ _ heq => ?_, fun _ _ _ heq => ?_,
        rfl, hsound⟩ <;> cases heq
    change x.Does q _ ((x.jobs q).prog x.lib x.e x.target) _
    cases hjob : x.jobs q with
    | read =>
      have hp : (x.jobs q).reads = true := by rw [hjob]; rfl
      have hreader : x.Holds q none x.start.shared := by
        refine ⟨rfl, fun _ heq => ?_, hsound⟩
        cases heq
      refine does_bind (does_readFileCommand hx hp hreader) fun r t ht => ?_
      cases r with
      | error res =>
        intro t' _ d hr
        cases hr
      | ok d =>
        intro t' ht' d hr
        cases hr
        have hfaithful := ht d rfl
        exact ⟨hfaithful.size, hfaithful.digest, hfaithful.version.mono x ht'.drawn⟩
    | put u =>
      refine does_bind (does_putFile hx hjob hwriter) fun r t _ => ?_
      intro t' _ d hr
      cases hr
    | delete ifMatch operationId =>
      refine does_bind (does_deleteFile hx hjob hwriter) fun r t _ => ?_
      intro t' _ d hr
      cases hr
  have hmay : ∀ (pool : Pool P Op Op.Answer (Desk P ν) StoreAnswer) p op, Free op pool.shared →
      x.Timely p op pool.shared → x.May p op pool.shared := fun _ _ _ hfree htimely =>
    ⟨hfree, htimely⟩
  have hfinal := Program.reach_among (fun p _ _ _ h h' => h.trans x h') (Others.refl x) hmay
    (fun p q op s hq _ hcheck => hcheck q hq) hreach hstart p
  rw [hd] at hfinal
  exact hfinal pool.shared (Others.refl x p _) d rfl
end
end FileJobs

/-! ## A read and an update -/

namespace Sample
def posterEntry : FileEntry :=
  { name := "poster.png", contentType := "image/png", byteSize := 1, sha256 := "A",
    version := "v3", operationId := "v2" }

def posterWorld : World Unit :=
  ((({ emptyWorld with issued := 4 }.put (server.live "Movies" "alien")
    (some (.json (.obj [("!", .str "alien")])))).put
      (filesManifestPath server.dataDir "Movies" "alien") (manifestFile [posterEntry])).put
        (binaryPath server.dataDir "Movies" "alien" "poster.png") (some (.bytes [65])))

def posterJobs : FileJobs Bool Unit where
  lib := fileLib
  e := server
  host := host
  target := posterTarget
  jobs
    | true => .put (posterUpload "v3" [66])
    | false => .read
  world := posterWorld

theorem posterJobs_tidy : posterJobs.Tidy where
  id := by decide +kernel
  name := by decide +kernel
  targets := server_plainTargets
  ids := host_safe
  uploads p u h := by
    cases p with
    | true =>
      cases h
      decide
    | false => cases h
  deletes p ifMatch operationId h := by
    cases p <;> cases h
  stages p q u u' h h' _ := by
    cases p with
    | true =>
      cases q with
      | true => rfl
      | false => cases h'
    | false => cases h

theorem posterWorld_matches :
    ManifestMatches fileLib server posterWorld (posterTarget.collection, posterTarget.id) := by
  have hblobpath : binaryPath server.dataDir "Movies" "alien" "poster.png" =
      lfsDir server.dataDir "Movies" "alien" ++ ["poster.png"] := by decide +kernel
  have hblob : posterWorld.files (lfsDir server.dataDir "Movies" "alien" ++ ["poster.png"]) =
      some (.bytes [65]) := by
    rw [← hblobpath]
    exact World.put_files_same _ _ _
  have hmanifest : posterWorld.files (filesManifestPath server.dataDir "Movies" "alien") =
      manifestFile [posterEntry] := by
    rw [posterWorld, World.put_files_other _ (by decide +kernel)]
    exact World.put_files_same _ _ _
  refine ⟨[posterEntry], World.manifest_of_file hmanifest ?_, List.nodup_singleton _, ?_, ?_⟩
  · intro entry hentry
    rw [List.mem_singleton.mp hentry]
    decide
  · intro row hrow
    rw [List.mem_singleton.mp hrow]
    exact ⟨[65], hblob, by decide, by decide +kernel⟩
  · intro p hp hne
    refine ⟨posterEntry, List.mem_singleton_self _, ?_⟩
    have hother : p ≠ filesManifestPath server.dataDir "Movies" "alien" ∧
        p ≠ server.live "Movies" "alien" := by
      constructor <;>
      · rintro rfl
        revert hp
        decide +kernel
    by_contra hblobless
    refine hne ?_
    rw [posterWorld, World.put_files_other _ (by rwa [hblobpath]), World.put_files_other _ hother.1,
      World.put_files_other _ hother.2]
    rfl

def readTaking : Pool Bool Op Op.Answer (Desk Bool Unit) StoreAnswer :=
  (posterJobs.start.turn posterJobs.step false).turn posterJobs.step false

def overtakenRead : Pool Bool Op Op.Answer (Desk Bool Unit) StoreAnswer :=
  (readTaking.alone posterJobs.step true).alone posterJobs.step false

def laterRead : Pool Bool Op Op.Answer (Desk Bool Unit) StoreAnswer :=
  (posterJobs.start.alone posterJobs.step true).alone posterJobs.step false

def posterDownload (version sha256 : String) (body : List UInt8) : Download :=
  { contentType := "image/png", contentLength := 1, sha256, version,
    operationId := if version = "v3" then "v2" else "v4", body }

def timely (p : Bool) (op : Op) (s : Desk Bool Unit) : Bool :=
  match op.call with
  | .lock => s.holder.isNone
  | .rename _ _ => (s.taken true).isNone && (s.taken false).isNone
  | .readFile _ => p || !s.moved
  | _ => true

variable {p : Bool} {pool : Pool Bool Op Op.Answer (Desk Bool Unit) StoreAnswer}
theorem timely_spec {op : Op} {s : Desk Bool Unit} (h : timely p op s = true) :
    FileJobs.Free op s ∧ posterJobs.Timely p op s := by
  obtain ⟨site, call⟩ := op
  refine ⟨?_, ?_, ?_⟩
  · rintro rfl
    exact Option.isNone_iff_eq_none.mp h
  · rintro source rfl q
    obtain ⟨htrue, hfalse⟩ := (Bool.and_eq_true _ _).mp h
    cases q with
    | true => exact Option.isNone_iff_eq_none.mp htrue
    | false => exact Option.isNone_iff_eq_none.mp hfalse
  · rintro hp rfl
    cases p with
    | true => cases hp
    | false => simpa [timely] using h

theorem reach_alone_timely (h : ((pool.procs p).stops (posterJobs.step p) pool.shared).all
      (fun stop => timely p stop.1 stop.2) = true) :
    Pool.Reach posterJobs.step FileJobs.Free
      (fun pool p op => posterJobs.Timely p op pool.shared) pool
      (pool.alone posterJobs.step p) := by
  refine Pool.reach_alone fun op next t hstop => ?_
  exact timely_spec (List.all_eq_true.mp h (op, t) hstop)

theorem reach_alone_free (h : ((pool.procs p).stops (posterJobs.step p) pool.shared).all
      (fun stop => !stop.1.call.isLock || stop.2.holder.isNone) = true) :
    Pool.Reach posterJobs.step FileJobs.Free (fun _ _ _ => True) pool
      (pool.alone posterJobs.step p) := by
  refine Pool.reach_alone fun op next t hstop => ⟨fun hlock => ?_, trivial⟩
  have hop := List.all_eq_true.mp h (op, t) hstop
  rw [(Call.isLock_iff _).mpr hlock] at hop
  exact Option.isNone_iff_eq_none.mp hop

def unblocked (pool : Pool Bool Op Op.Answer (Desk Bool Unit) StoreAnswer) (p : Bool) : Bool :=
  match pool.procs p with
  | .done _ => true
  | .call op _ => !op.call.isLock

theorem reach_turn_free (h : unblocked pool p = true) :
    Pool.Reach posterJobs.step FileJobs.Free (fun _ _ _ => True) pool
      (pool.turn posterJobs.step p) := by
  refine Pool.reach_turn fun op next hcall => ⟨fun hlock => ?_, trivial⟩
  simp [unblocked, hcall, (Call.isLock_iff _).mpr hlock] at h

theorem reach_overtakenRead : Pool.Reach posterJobs.step FileJobs.Free (fun _ _ _ => True)
    posterJobs.start overtakenRead :=
  (((reach_turn_free (by decide +kernel)).trans (reach_turn_free (by decide +kernel))).trans
    (reach_alone_free (by decide +kernel))).trans (reach_alone_free (by decide +kernel))

def downloadIn : StoreAnswer → Option Download
  | .download d => some d
  | _ => none

theorem eq_download {a : StoreAnswer} {d : Download} (h : downloadIn a = some d) :
    a = .download d := by
  cases a with
  | download d' =>
    cases h
    rfl
  | document o => cases h
  | file res => cases h

theorem alone_download {d : Download}
    (h : downloadIn ((pool.procs p).run (posterJobs.step p) pool.shared).1 = some d) :
    (pool.alone posterJobs.step p).procs p = .done (.download d) := by
  rw [Pool.alone_procs_self, eq_download h]
end Sample
open Sample
theorem download_faithful_sample :
    posterJobs.Faithful laterRead.shared (posterDownload "v5" "B" [66]) := by
  have hfirst : Pool.Reach posterJobs.step FileJobs.Free
      (fun pool p op => posterJobs.Timely p op pool.shared) posterJobs.start
      (posterJobs.start.alone posterJobs.step true) :=
    reach_alone_timely (by decide +kernel)
  exact FileJobs.download_faithful posterJobs_tidy posterWorld_matches
    (hfirst.trans (reach_alone_timely (by decide +kernel)))
    (alone_download (by decide +kernel))

/-- The read has taken the entry of the first version when the upload of the second one runs to its
end: it announces the first version with its digest and sends the bytes of the second. -/
theorem download_faithful_fails : posterJobs.Tidy ∧
      ManifestMatches posterJobs.lib posterJobs.e posterJobs.world
        (posterJobs.target.collection, posterJobs.target.id) ∧
      ∃ pool, Pool.Reach posterJobs.step FileJobs.Free (fun _ _ _ => True) posterJobs.start pool ∧
        ∃ p d, pool.procs p = .done (.download d) ∧ ¬ posterJobs.Faithful pool.shared d := by
  refine ⟨posterJobs_tidy, posterWorld_matches, overtakenRead,
    reach_overtakenRead, false, posterDownload "v3" "A" [66],
    alone_download (by decide +kernel), fun h => ?_⟩
  have hdigest : (posterDownload "v3" "A" [66]).sha256 =
      fileLib.sha256 (posterDownload "v3" "A" [66]).body := h.digest
  exact absurd hdigest (by decide +kernel)
end Datorium
