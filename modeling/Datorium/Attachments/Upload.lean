
import Datorium.Attachments.Blobs
namespace Datorium
/-- What the calls of a reader return if the buffer is large enough, and whether the end is reported
by the last of them or by one more. -/
structure Reader where
  chunks : List (List UInt8)
  endsWithLast : Bool

namespace Reader
def read (size : Nat) (r : Reader) : List UInt8 × Bool × Reader :=
  match r.chunks with
  | [] => ([], true, r)
  | chunk :: rest =>
    if chunk.length ≤ size then (chunk, rest.isEmpty && r.endsWithLast, { r with chunks := rest })
    else (chunk.take size, false, { r with chunks := chunk.drop size :: rest })

def left (r : Reader) : Nat := r.chunks.length + r.chunks.flatten.length

theorem left_read {r : Reader} {size : Nat} (hsize : 0 < size) (h : (r.read size).2.1 = false) :
    (r.read size).2.2.left < r.left := by
  obtain ⟨chunks, endsWithLast⟩ := r
  cases chunks with
  | nil => simp [read] at h
  | cons chunk rest =>
    by_cases hfits : chunk.length ≤ size
    · simp [read, hfits, left]
      omega
    · simp [read, hfits, left]
      omega

def copyBuffer : Nat := 32 * 1024

def copy (max : Nat) (written : List UInt8) (r : Reader) : List UInt8 × Option FsError :=
  if _hfull : max ≤ written.length then (written, some fileTooLarge)
  else
    let size := min copyBuffer (max - written.length)
    if _hend : (r.read size).2.1 = true then (written ++ (r.read size).1, none)
    else copy max (written ++ (r.read size).1) (r.read size).2.2
termination_by r.left
decreasing_by
  refine left_read ?_ (Bool.eq_false_iff.mpr _hend)
  simp only [copyBuffer]
  omega

def body (r : Reader) : Body :=
  ⟨r.chunks.flatten, r.endsWithLast && r.chunks.getLast?.any fun chunk => !chunk.isEmpty⟩

theorem endsWithLast_of_empty {r : Reader} (h : r.body.data = []) :
    r.body.endsWithLast = false := by
  have hlast : r.chunks.getLast?.any (fun chunk => !chunk.isEmpty) = false := by
    cases hc : r.chunks.getLast? with
    | none => rfl
    | some chunk =>
      have hempty : chunk = [] := List.flatten_eq_nil_iff.mp h chunk (List.mem_of_getLast? hc)
      simp [hempty]
  simp [body, hlast]

theorem body_read (r : Reader) (size : Nat) :
    (r.read size).1 ++ (r.read size).2.2.body.data = r.body.data ∧
      (r.read size).1.length ≤ size ∧
      ((r.read size).2.1 = true → (r.read size).2.2.body.data = [] ∧
        ((r.read size).1 ≠ [] → r.body.endsWithLast = true)) ∧
      ((r.read size).2.1 = false → (r.read size).2.2.body.endsWithLast = r.body.endsWithLast) := by
  obtain ⟨chunks, endsWithLast⟩ := r
  cases chunks with
  | nil => simp [read, body]
  | cons chunk rest =>
    by_cases hfits : chunk.length ≤ size
    · cases rest with
      | nil => cases endsWithLast <;> simp [read, body, hfits]
      | cons next rest => simp [read, body, hfits]
    · have hrest : chunk.take size ++ (chunk.drop size ++ rest.flatten) = chunk ++ rest.flatten := by
        rw [← List.append_assoc, List.take_append_drop]
      have hchunk : chunk.isEmpty = false := by
        cases chunk with
        | nil => simp at hfits
        | cons b bs => rfl
      have hdrop : (chunk.drop size).isEmpty = false := by simpa using hfits
      cases rest with
      | nil => simp [read, body, hfits, hchunk, hdrop]
      | cons next rest => simpa [read, body, hfits] using hrest

theorem copy_eq (max : Nat) (written : List UInt8) (r : Reader) (hmax : written.length ≤ max) :
    r.copy max written = ((written ++ r.body.data).take max,
      if Body.exceeds ⟨written ++ r.body.data, r.body.endsWithLast⟩ max then some fileTooLarge
      else none) := by
  fun_induction copy max written r with
  | case1 written r hfull =>
    have hlength : written.length = max := le_antisymm hmax hfull
    have hexceeds : Body.exceeds ⟨written ++ r.body.data, r.body.endsWithLast⟩ max = true := by
      by_cases hdata : r.body.data = []
      · simp [Body.exceeds, hdata, endsWithLast_of_empty hdata, hlength]
      · have hpos := List.length_pos_iff.mpr hdata
        simp [Body.exceeds]
        omega
    rw [if_pos hexceeds, List.take_left' hlength]
  | case2 written r hroom size hend =>
    obtain ⟨hdata, hread, hlast, -⟩ := r.body_read size
    obtain ⟨hnil, htogether⟩ := hlast hend
    rw [hnil, List.append_nil] at hdata
    have hfits : (written ++ r.body.data).length ≤ max := by
      rw [List.length_append, ← hdata]
      omega
    have hexceeds : Body.exceeds ⟨written ++ r.body.data, r.body.endsWithLast⟩ max = false := by
      simp only [Body.exceeds, decide_eq_false_iff_not, not_or, not_and, Bool.not_eq_false]
      refine ⟨by omega, fun heq => htogether fun hempty => hroom ?_⟩
      rw [← hdata, hempty, List.append_nil] at heq
      omega
    rw [if_neg (by simp [hexceeds]), List.take_of_length_le hfits, hdata]
  | case3 written r hroom size hend ih =>
    obtain ⟨hdata, hread, -, hkept⟩ := r.body_read size
    have hnext : (written ++ (r.read size).1).length ≤ max := by
      rw [List.length_append]
      omega
    rw [ih hnext, hkept (Bool.eq_false_iff.mpr hend), List.append_assoc, hdata]
end Reader

def fillStageStream (path : Path) (copied : List UInt8 × Option FsError) :
    Prog (Except FsError Unit) := do
  match ← install (.file (.stage .write)) path (.bytes copied.1) with
  | .error err => pure (.error err)
  | .ok () =>
    match copied.2 with
    | some err => pure (.error err)
    | none => prepareFile (fun step => .file (.stage step)) path [.sync, .close, .chmod]

def stageStream (lib : FileLib) (dataDir : Path) (collection id filename : String)
    (name : StageName) (r : Reader) (maxBytes : Int) : Prog (Except FsError StagedBinary) :=
  let max := if maxBytes ≤ 0 then defaultMaxFileBytes else maxBytes
  let path := stagePath dataDir collection id name
  let copied := r.copy max.toNat []
  if safeFileName filename = false then pure (.error (.other "invalid file name"))
  else do
    match ← mkdirAll (.file (.stage .mkdir)) (fileOpsDir dataDir collection id) with
    | .error err => pure (.error err)
    | .ok () =>
      match ← install (.file (.stage .createTemp)) path (.bytes []) with
      | .error err => pure (.error err)
      | .ok () =>
        match ← fillStageStream path copied with
        | .error err => do
            let _ ← remove (.file .unstage) path
            pure (.error err)
        | .ok () => pure (.ok ⟨path, copied.1.length, lib.sha256 copied.1⟩)

theorem run_stageStream {ν : Type} (lib : FileLib) (host : Host ν) (w : World ν) (dataDir : Path)
    (coll id : String) {filename : String} (name : StageName) (r : Reader) {max : Nat}
    (hname : safeFileName filename = true) (hmax : 0 < max) :
    (stageStream lib dataDir coll id filename name r max).run (exec host .none) w =
      (stageWriteBinary lib dataDir coll id filename name r.body max).run (exec host .none) w := by
  have hcopy := r.copy_eq max [] (Nat.zero_le max)
  rw [List.nil_append] at hcopy
  cases hexceeds : r.body.exceeds max with
  | true =>
    simp [stageStream, stageWriteBinary, fillStageStream, fillStage, hname, hmax.ne', hcopy,
      hexceeds]
  | false =>
    have htake : r.body.data.take max = r.body.data := by
      simp only [Body.exceeds, decide_eq_false_iff_not, not_or] at hexceeds
      exact List.take_of_length_le (by omega)
    simp [stageStream, stageWriteBinary, fillStageStream, fillStage, hname, hmax.ne', hcopy,
      hexceeds, htake, run_prepareFile]

theorem run_stageStream_tooLarge {ν : Type} (lib : FileLib) (host : Host ν) (w : World ν)
    (dataDir : Path) (coll id : String) {filename : String} (name : StageName) (r : Reader)
    {max : Nat} (hname : safeFileName filename = true) (hmax : 0 < max)
    (hexceeds : r.body.exceeds max = true) :
    ((stageStream lib dataDir coll id filename name r max).run (exec host .none) w).1 =
        .error fileTooLarge ∧
      ((stageStream lib dataDir coll id filename name r max).run (exec host .none) w).2.files
        (stagePath dataDir coll id name) = none := by
  rw [run_stageStream lib host w dataDir coll id name r hname hmax]
  simp [stageWriteBinary, hname, hmax.ne', fillStage, hexceeds]

structure LimitExact {ν : Type} (lib : FileLib) (path : Path) (r : Reader) (max : Nat)
    (ran : Except FsError StagedBinary × World ν) : Prop where
  accepted : (∃ staged, ran.1 = .ok staged) ↔ r.chunks.flatten.length ≤ max
  staged : ∀ staged, ran.1 = .ok staged →
    ran.2.files staged.stagedPath = some (.bytes r.chunks.flatten) ∧
      staged.byteSize = r.chunks.flatten.length ∧ staged.sha256 = lib.sha256 r.chunks.flatten
  discarded : ∀ err, ran.1 = .error err → ran.2.files path = none

theorem upload_limit_exact_iff {ν : Type} (lib : FileLib) (host : Host ν) (w : World ν)
    (dataDir : Path) (coll id : String) {filename : String} (name : StageName) (r : Reader)
    {max : Nat} (hname : safeFileName filename = true) (hmax : 0 < max) :
    LimitExact lib (stagePath dataDir coll id name) r max
        ((stageStream lib dataDir coll id filename name r max).run (exec host .none) w) ↔
      ¬ (r.chunks.flatten.length = max ∧ r.body.endsWithLast = false) := by
  cases hexceeds : r.body.exceeds max with
  | false =>
    rw [run_stageStream lib host w dataDir coll id name r hname hmax,
      run_stageWriteBinary_ok hname (by omega) hexceeds]
    simp only [Body.exceeds, decide_eq_false_iff_not, not_or, not_and, Bool.not_eq_false] at hexceeds
    have hshort : r.chunks.flatten.length ≤ max := by
      have hdata : r.body.data.length = r.chunks.flatten.length := rfl
      omega
    refine iff_of_true ⟨iff_of_true ⟨_, rfl⟩ hshort, fun staged hstaged => ?_, fun err herr => ?_⟩
      fun hboth => ?_
    · obtain rfl := Except.ok.inj hstaged
      exact ⟨World.put_files_same _ _ _, rfl, rfl⟩
    · cases herr
    · obtain ⟨heq, hlast⟩ := hboth
      rw [hexceeds.2 (by simp [Reader.body, heq])] at hlast
      cases hlast
  | true =>
    obtain ⟨herror, hgone⟩ :=
      run_stageStream_tooLarge lib host w dataDir coll id name r hname hmax hexceeds
    have hnone : ¬ ∃ staged, ((stageStream lib dataDir coll id filename name r max).run
        (exec host .none) w).1 = .ok staged := by simp [herror]
    simp only [Body.exceeds, decide_eq_true_eq] at hexceeds
    constructor
    · rintro h ⟨heq, -⟩
      exact hnone (h.accepted.mpr heq.le)
    · intro h
      refine ⟨iff_of_false hnone fun hshort => ?_, fun staged hstaged => (hnone ⟨staged, hstaged⟩).elim,
        fun _ _ => hgone⟩
      rcases hexceeds with hlong | ⟨heq, hlast⟩
      · have hdata : r.body.data.length = r.chunks.flatten.length := rfl
        omega
      · exact h ⟨Int.ofNat.inj heq.symm, hlast⟩

namespace Sample
def chunkReader (together : Bool) : Reader := ⟨[[1, 2], [3]], together⟩

theorem stage_noSlash : '/' ∉ "1".toList := by decide

def uploadStage : StageName := ⟨"1", stage_noSlash⟩

theorem still_safe : safeFileName "still.jpg" = true := by decide +kernel

def uploadLib : FileLib := ⟨fun _ => "", fun _ => 0⟩

def stagedChunks (together : Bool) : Except FsError StagedBinary × World Unit :=
  (stageStream uploadLib [] "Movies" "alien" "still.jpg" uploadStage (chunkReader together)
    (3 : Nat)).run (exec ⟨fun _ => "", fun _ _ s => (true, s), fun _ _ s => (.ok true, s),
      fun _ _ _ _ s => (.ok (), s), fun _ _ _ s => (true, s)⟩ .none) ⟨fun _ => none, 0, ()⟩
end Sample
open Sample
theorem upload_at_limit : safeFileName "still.jpg" = true ∧
    LimitExact uploadLib (stagePath [] "Movies" "alien" uploadStage)
      (chunkReader true) 3 (stagedChunks true) := by
  exact ⟨still_safe, (upload_limit_exact_iff uploadLib _ _ [] "Movies" "alien" uploadStage
    (chunkReader true) still_safe (by decide)).mpr (by decide)⟩

/-- A stream of the limit whose end is reported by a call of its own. -/
theorem upload_at_limit_refused :
    ¬ LimitExact uploadLib (stagePath [] "Movies" "alien" uploadStage)
      (chunkReader false) 3 (stagedChunks false) := by
  intro h
  have hlength : (chunkReader false).chunks.flatten.length ≤ 3 := by decide
  obtain ⟨staged, hstaged⟩ := h.accepted.mpr hlength
  have herror : (stagedChunks false).1 = .error fileTooLarge :=
    (run_stageStream_tooLarge _ _ _ _ _ _ _ _ still_safe (by decide) (by decide)).1
  rw [herror] at hstaged
  cases hstaged
end Datorium
