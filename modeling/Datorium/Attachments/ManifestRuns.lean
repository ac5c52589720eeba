
import Datorium.Attachments.Commit
import Datorium.Engine.StoredDocument
namespace Datorium
open Framework List
inductive ManifestOp where
  | put (entry : FileEntry)
  | drop (filename : String)

namespace ManifestOp
def prog (lib : FileLib) (dataDir : Path) (collection id : String) :
    ManifestOp → Prog (Except FsError Unit)
  | put entry => upsertManifestEntry lib .file dataDir collection id entry
  | drop filename => removeManifestEntry lib .file dataDir collection id filename

def change : ManifestOp → List FileEntry → List FileEntry
  | put entry => Keyed.upsert FileEntry.name entry
  | drop filename => Keyed.erase FileEntry.name filename

def write (name : String) (before : Option FileEntry) : ManifestOp → Option FileEntry
  | put entry => if entry.name = name then some entry else before
  | drop filename => if filename = name then none else before

theorem lookup_change (op : ManifestOp) (name : String) (rows : List FileEntry) :
    Keyed.lookup FileEntry.name name (op.change rows) =
      op.write name (Keyed.lookup FileEntry.name name rows) := by
  cases op with
  | put entry =>
    rw [change, Keyed.lookup_upsert, write]
    grind
  | drop filename =>
    rw [change, Keyed.lookup_erase, write]
    grind

theorem distinct_change (op : ManifestOp) {rows : List FileEntry}
    (h : Keyed.Distinct FileEntry.name rows) : Keyed.Distinct FileEntry.name (op.change rows) := by
  cases op with
  | put entry => exact h.upsert _ entry
  | drop filename => exact h.erase _ filename
end ManifestOp

def lastWritten (ops : List ManifestOp) (name : String) : Option FileEntry :=
  ops.foldl (ManifestOp.write name) none

section
variable {ν : Type} (lib : FileLib) (dataDir : Path) (coll id : String) (host : Host ν)
inductive ManifestRun (w : World ν) : List ManifestOp → World ν → Prop
  | start : ManifestRun w [] w
  | step {ops : List ManifestOp} {t u : World ν} {op : ManifestOp} {faults : Faults}
      (h : ManifestRun w ops t)
      (accepted : (op.prog lib dataDir coll id).run (exec host faults) t = (.ok (), u)) :
      ManifestRun w (ops ++ [op]) u

/-- Reading the manifest gives one entry per present file, sorted by name, as it was last written. -/
def ReadsBack (ops : List ManifestOp) (t : World ν) : Prop :=
  ∃ rows, t.manifest lib false (filesManifestPath dataDir coll id) = .ok rows ∧
    Keyed.Ascending FileEntry.name rows ∧
    ∀ name, Keyed.lookup FileEntry.name name rows = lastWritten ops name

variable {lib dataDir coll id host} {w t u : World ν} {ops : List ManifestOp}
theorem run_manifestOp (host : Host ν) (faults : Faults) (op : ManifestOp) {rows : List FileEntry}
    (hrows : t.manifest lib false (filesManifestPath dataDir coll id) = .ok rows) :
    (op.prog lib dataDir coll id).run (exec host faults) t = (.ok (),
        t.put (filesManifestPath dataDir coll id)
          (manifestFile (Keyed.sort FileEntry.name (op.change rows)))) ∨
      (∃ site, faults site = true) ∧
        ∃ err, ((op.prog lib dataDir coll id).run (exec host faults) t).1 = .error err := by
  have hprog : op.prog lib dataDir coll id =
      rewriteManifest lib .file dataDir coll id op.change := by cases op <;> rfl
  rw [hprog]
  have hruns : (rewriteManifest lib .file dataDir coll id op.change).Ensures
      (exec host faults) (fun _ _ => True) (fun r u => (r, u) = (.ok (),
        t.put (filesManifestPath dataDir coll id)
          (manifestFile (Keyed.sort FileEntry.name (op.change rows)))) ∨
        (∃ site, faults site = true) ∧ ∃ err, r = .error err) t :=
    ensures_rewriteManifest hrows (fun _ _ _ => trivial) (.inl rfl)
      fun err _ _ hf => .inr ⟨⟨_, hf⟩, err, rfl⟩
  exact hruns.2

theorem ManifestRun.step_file {op : ManifestOp} {faults : Faults} {rows : List FileEntry}
    (hrows : t.manifest lib false (filesManifestPath dataDir coll id) = .ok rows)
    (accepted : (op.prog lib dataDir coll id).run (exec host faults) t = (.ok (), u)) :
    u.files (filesManifestPath dataDir coll id) =
      manifestFile (Keyed.sort FileEntry.name (op.change rows)) := by
  rcases run_manifestOp host faults op hrows with hrun | ⟨-, err, herr⟩
  · rw [accepted] at hrun
    cases hrun
    exact World.put_files_same _ _ _
  · rw [accepted] at herr
    cases herr

theorem ManifestRun.rows (h : ManifestRun lib dataDir coll id host w ops t)
    (hw : w.files (filesManifestPath dataDir coll id) = none)
    (hfits : ∀ entry, .put entry ∈ ops → lib.Fits entry) :
    ∃ rows, t.files (filesManifestPath dataDir coll id) = manifestFile rows ∧
      (∀ row ∈ rows, lib.Fits row) ∧ Keyed.Ascending FileEntry.name rows ∧
      ∀ name, Keyed.lookup FileEntry.name name rows = lastWritten ops name := by
  induction h with
  | start => exact ⟨[], hw, by simp, .nil, fun _ => rfl⟩
  | @step ops t u op faults _ accepted ih =>
    obtain ⟨rows, hfile, hrows, hsorted, hlast⟩ :=
      ih fun entry hentry => hfits entry (mem_append_left _ hentry)
    have hdistinct := op.distinct_change hsorted.distinct
    refine ⟨_, ManifestRun.step_file (World.manifest_of_file hfile hrows) accepted,
      fun row hrow => ?_, hdistinct.ascending, fun name => ?_⟩
    · have hmem := (Keyed.sort_perm _ _).mem_iff.mp hrow
      cases op with
      | put entry =>
        rcases Keyed.mem_upsert _ hmem with rfl | hmem
        · exact hfits row (by simp)
        · exact hrows row hmem
      | drop filename => exact hrows row (mem_filter.mp hmem).1
    · rw [Keyed.lookup_sort _ hdistinct, op.lookup_change, hlast, lastWritten, lastWritten,
        foldl_append]
      rfl

theorem decodeManifest_fits {entries rows : List FileEntry} {lineNo : Nat}
    (h : decodeManifest lib lineNo (entries.map FileEntry.toJson) = .ok rows) :
    ∀ entry ∈ entries, lib.Fits entry := by
  induction entries generalizing lineNo rows with
  | nil => simp
  | cons entry entries ih =>
    simp only [map_cons, decodeManifest, FileEntry.ofJson_toJson] at h
    split at h
    · cases h
    · rename_i hfits
      split at h
      · cases h
      · rename_i hrest
        exact forall_mem_cons.mpr ⟨Nat.not_le.mp hfits, ih hrest⟩

theorem ManifestRun.put_fits {entry : FileEntry} {faults : Faults} {rows found : List FileEntry}
    (hrows : t.manifest lib false (filesManifestPath dataDir coll id) = .ok rows)
    (accepted : (ManifestOp.prog lib dataDir coll id (.put entry)).run (exec host faults) t =
      (.ok (), u))
    (hfound : u.manifest lib false (filesManifestPath dataDir coll id) = .ok found) :
    lib.Fits entry := by
  have hfile := ManifestRun.step_file hrows accepted
  have hlookup : Keyed.lookup FileEntry.name entry.name (ManifestOp.change (.put entry) rows) =
      some entry := by
    rw [ManifestOp.lookup_change, ManifestOp.write, if_pos rfl]
  have hmem := (Keyed.sort_perm FileEntry.name _).mem_iff.mpr (Keyed.lookup_mem _ hlookup)
  rw [manifestFile, if_neg (ne_nil_of_mem hmem)] at hfile
  rw [World.manifest, if_neg Bool.false_ne_true, hfile] at hfound
  exact decodeManifest_fits hfound entry hmem

/-- Every manifest of an accepted run reads back as it was last written exactly if every entry that
was written fits a line. -/
theorem manifest_round_trip_iff (h : ManifestRun lib dataDir coll id host w ops t)
    (hw : w.files (filesManifestPath dataDir coll id) = none) :
    (∀ ops' t', ops' <+: ops → ManifestRun lib dataDir coll id host w ops' t' →
        ReadsBack lib dataDir coll id ops' t') ↔ ∀ entry, .put entry ∈ ops → lib.Fits entry := by
  constructor
  · intro hall
    induction h with
    | start => simp
    | @step ops t u op faults hrun accepted ih =>
      have hbefore := ih fun ops' t' hops => hall ops' t' (hops.trans (prefix_append _ _))
      obtain ⟨rows, hrows, -⟩ := hall ops t (prefix_append _ _) hrun
      obtain ⟨found, hfound, -⟩ := hall _ u prefix_rfl (hrun.step accepted)
      intro entry hentry
      rcases mem_append.mp hentry with hentry | hentry
      · exact hbefore entry hentry
      · obtain rfl := mem_singleton.mp hentry
        exact ManifestRun.put_fits hrows accepted hfound
  · intro hfits ops' t' hops hrun
    obtain ⟨rows, hfile, hrows, hsorted, hlast⟩ :=
      hrun.rows hw fun entry hentry => hfits entry (hops.subset hentry)
    exact ⟨rows, World.manifest_of_file hfile hrows, hsorted, hlast⟩
end

def lineField (key value : String) : String := quoteText key ++ ":" ++ value

def marshalFileEntryLine (entry : FileEntry) : String :=
  "\x7b" ++ lineField "name" (quoteText entry.name) ++ "," ++
    lineField "contentType" (quoteText entry.contentType) ++ "," ++
    lineField "byteSize" entry.byteSize.repr ++ "," ++
    lineField "sha256" (quoteText entry.sha256) ++ "," ++
    lineField "version" (quoteText entry.version) ++ "," ++
    lineField "operationId" (quoteText entry.operationId) ++ "\x7d"

theorem utf8ByteSize_contentType_le (entry : FileEntry) :
    (quoteText entry.contentType).utf8ByteSize ≤ (marshalFileEntryLine entry).utf8ByteSize := by
  have hleft : ∀ s t : String, s.utf8ByteSize ≤ (s ++ t).utf8ByteSize := fun s t => by
    rw [String.utf8ByteSize_append]
    exact Nat.le_add_right _ _
  have hright : ∀ s t : String, t.utf8ByteSize ≤ (s ++ t).utf8ByteSize := fun s t => by
    rw [String.utf8ByteSize_append]
    exact Nat.le_add_left _ _
  unfold marshalFileEntryLine
  -- everything that stands behind the content type
  iterate 9 refine Nat.le_trans ?_ (hleft _ _)
  exact (hright _ _).trans (hright _ (lineField "contentType" _))

namespace Sample
def lineLib : FileLib where
  sha256 _ := ""
  lineLength line := ((FileEntry.ofJson line).elim "" marshalFileEntryLine).utf8ByteSize

def typedEntry (contentType : String) : FileEntry := ⟨"poster", contentType, 0, "", "v1", "op1"⟩

def markupType (n : Nat) : String := String.ofList (replicate n '<')

theorem emptyWorld_manifest :
    emptyWorld.manifest lineLib false (filesManifestPath ["data"] "Movies" "alien") = .ok [] := rfl

theorem commit_typed (contentType : String) : ∃ t,
    (ManifestOp.prog lineLib ["data"] "Movies" "alien" (.put (typedEntry contentType))).run
      (exec host .none) emptyWorld = (.ok (), t) := by
  rcases run_manifestOp host .none (.put (typedEntry contentType)) emptyWorld_manifest with
    hrun | ⟨⟨_, hfault⟩, -⟩
  · exact ⟨_, hrun⟩
  · cases hfault

theorem utf8ByteSize_markupType (n : Nat) : (markupType n).utf8ByteSize = n := by
  rw [markupType, String.utf8ByteSize_ofList]
  induction n with
  | zero => rfl
  | succ n ih => simp [replicate_succ, ih, Char.utf8Size]

theorem utf8ByteSize_quoteText_markupType (n : Nat) :
    (quoteText (markupType n)).utf8ByteSize = 2 + n * 6 := by
  have hescaped : String.utf8Len ((replicate n '<').flatMap escapeChar) = n * 6 := by
    induction n with
    | zero => rfl
    | succ n ih =>
      have hchar : String.utf8Len (escapeChar '<') = 6 := by decide
      rw [replicate_succ, flatMap_cons, String.utf8Len_append, ih, hchar, Nat.succ_mul,
        Nat.add_comm]
  have hquote : ("\"" : String).utf8ByteSize = 1 := rfl
  rw [quoteText, String.utf8ByteSize_append, String.utf8ByteSize_append, hquote, markupType,
    String.toList_ofList, String.utf8ByteSize_ofList, hescaped]
  omega

theorem markupType_unfit {n : Nat} (h : maxManifestLine ≤ n * 6) :
    ¬ lineLib.Fits (typedEntry (markupType n)) := by
  have hline := utf8ByteSize_contentType_le (typedEntry (markupType n))
  rw [typedEntry, utf8ByteSize_quoteText_markupType, ← typedEntry] at hline
  simp only [FileLib.Fits, lineLib, FileEntry.ofJson_toJson, Option.elim_some]
  omega
end Sample
open Sample
theorem plain_type_read_back : ∃ t, ManifestRun lineLib ["data"] "Movies" "alien" host emptyWorld
      [.put (typedEntry "image/png")] t ∧ ∀ ops' t', ops' <+: [.put (typedEntry "image/png")] →
        ManifestRun lineLib ["data"] "Movies" "alien" host emptyWorld ops' t' →
          ReadsBack lineLib ["data"] "Movies" "alien" ops' t' := by
  obtain ⟨t, hrun⟩ := commit_typed "image/png"
  have hops := ManifestRun.start.step hrun
  refine ⟨t, hops, (manifest_round_trip_iff hops rfl).mpr fun entry hentry => ?_⟩
  obtain ⟨⟩ := mem_singleton.mp hentry
  decide +kernel

theorem markup_type_unreadable : (markupType 175000).utf8ByteSize = 175000 ∧ ∃ t,
      ManifestRun lineLib ["data"] "Movies" "alien" host emptyWorld
        [.put (typedEntry (markupType 175000))] t ∧
      ¬ ReadsBack lineLib ["data"] "Movies" "alien" [.put (typedEntry (markupType 175000))] t := by
  obtain ⟨t, hrun⟩ := commit_typed (markupType 175000)
  refine ⟨utf8ByteSize_markupType 175000, t, ManifestRun.start.step hrun, ?_⟩
  rintro ⟨rows, hrows, -⟩
  exact markupType_unfit (by decide) (ManifestRun.put_fits emptyWorld_manifest hrun hrows)
end Datorium
