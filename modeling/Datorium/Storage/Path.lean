
import Mathlib.Data.List.Basic
/-!
# Data-directory paths

`filepath.Join` cleans what it joins, so a joined string stays below its base only when it is one
plain component.
-/
namespace Datorium
abbrev Path := List String

def components (s : String) : List String := (s.toList.splitOn '/').map String.ofList

def Path.enter (base : Path) (c : String) : Path :=
  if c = "" ∨ c = "." then base else if c = ".." then base.dropLast else base ++ [c]

/-- `filepath.Join(base, s)` for a cleaned absolute base. -/
def Path.join (base : Path) (s : String) : Path := (components s).foldl Path.enter base

structure PlainName (s : String) : Prop where
  noSlash : '/' ∉ s.toList
  nonempty : s ≠ ""
  notDot : s ≠ "."
  notDotDot : s ≠ ".."

instance (s : String) : Decidable (PlainName s) :=
  decidable_of_iff ('/' ∉ s.toList ∧ s ≠ "" ∧ s ≠ "." ∧ s ≠ "..")
    ⟨fun ⟨a, b, c, d⟩ => ⟨a, b, c, d⟩, fun ⟨a, b, c, d⟩ => ⟨a, b, c, d⟩⟩

variable {s t : String}
theorem PlainName.of_length (h : '/' ∉ s.toList) (hlen : 2 < s.length) : PlainName s where
  noSlash := h
  nonempty := by rintro rfl; exact absurd hlen (by decide)
  notDot := by rintro rfl; exact absurd hlen (by decide)
  notDotDot := by rintro rfl; exact absurd hlen (by decide)

theorem PlainName.append (hs : '/' ∉ s.toList) (ht : '/' ∉ t.toList) (hlen : 2 < t.length) :
    PlainName (s ++ t) :=
  .of_length (by simp [hs, ht]) (by rw [String.length_append]; omega)

theorem components_of_noSlash (h : '/' ∉ s.toList) : components s = [s] := by
  have hs : s.toList.splitOn '/' = [s.toList] := by
    apply List.splitOnP_eq_singleton
    intro c hc
    rw [beq_eq_false_iff_ne]
    rintro rfl
    exact h hc
  simp [components, hs]

theorem Path.join_plain (h : PlainName s) (base : Path) : base.join s = base ++ [s] := by
  simp [Path.join, components_of_noSlash h.noSlash, Path.enter, h.nonempty, h.notDot, h.notDotDot]

def Path.climb (base : Path) (s : String) : Path := (components s).dropLast.foldl Path.enter base

def lastComponent (s : String) : String := (components s).getLast?.getD ""

theorem splitOn_append_noSlash {m : List Char} (hm : '/' ∉ m) (l : List Char) :
    ∃ init pre, l.splitOn '/' = init ++ [pre] ∧ (l ++ m).splitOn '/' = init ++ [pre ++ m] ∧
      '/' ∉ pre := by
  induction l with
  | nil => exact ⟨[], [], by simp, List.splitOn_eq_singleton hm, by simp⟩
  | cons c l ih =>
    obtain ⟨init, pre, hl, h, hpre⟩ := ih
    have hcons : ∀ l : List Char, (c :: l).splitOn '/' =
        if (c == '/') = true then [] :: l.splitOn '/'
        else (l.splitOn '/').modifyHead (List.cons c) :=
      fun l => List.splitOnP_cons_eq_if_modifyHead c l
    rw [List.cons_append, hcons, hcons, hl, h]
    split
    · exact ⟨[] :: init, pre, rfl, rfl, hpre⟩
    · rename_i hc
      cases init with
      | nil =>
        refine ⟨[], c :: pre, rfl, rfl, ?_⟩
        rw [List.mem_cons, not_or]
        exact ⟨fun heq => hc (by simp [← heq]), hpre⟩
      | cons d init => exact ⟨(c :: d) :: init, pre, rfl, rfl, hpre⟩

theorem lastComponent_noSlash (s : String) : '/' ∉ (lastComponent s).toList := by
  obtain ⟨init, pre, hl, -, hpre⟩ := splitOn_append_noSlash (m := []) (by simp) s.toList
  simpa [lastComponent, components, hl] using hpre

theorem lastComponent_eq_self_iff : lastComponent s = s ↔ '/' ∉ s.toList := by
  constructor
  · intro h
    rw [← h]
    exact lastComponent_noSlash s
  · intro h
    simp [lastComponent, components_of_noSlash h]

theorem Path.climb_of_noSlash (base : Path) (h : '/' ∉ s.toList) : base.climb s = base := by
  simp [Path.climb, components_of_noSlash h]

theorem Path.join_append (base : Path) (s : String) (ht : '/' ∉ t.toList) (hlen : 2 < t.length) :
    base.join (s ++ t) = base.climb s ++ [lastComponent s ++ t] := by
  obtain ⟨init, pre, hl, h, -⟩ := splitOn_append_noSlash ht s.toList
  have hlast : String.ofList (pre ++ t.toList) = String.ofList pre ++ t := by simp
  have hlong : 2 < (String.ofList pre ++ t).length := by
    rw [String.length_append]
    omega
  have hne : String.ofList pre ++ t ≠ "" ∧ String.ofList pre ++ t ≠ "." ∧
      String.ofList pre ++ t ≠ ".." := by
    refine ⟨?_, ?_, ?_⟩ <;> intro heq <;> rw [heq] at hlong <;> exact absurd hlong (by decide)
  rw [Path.join, Path.climb, lastComponent, components, components, String.toList_append, h, hl,
    List.map_append, List.foldl_append]
  simp [hlast, Path.enter, hne]

theorem Path.join_append_last (base : Path) (s : String) (ht : '/' ∉ t.toList)
    (hlen : 2 < t.length) : ∃ dir pre, base.join (s ++ t) = dir ++ [pre ++ t] :=
  ⟨_, _, base.join_append s ht hlen⟩

def idChar (c : Char) : Bool :=
  ('A' ≤ c && c ≤ 'Z') || ('a' ≤ c && c ≤ 'z') || ('0' ≤ c && c ≤ '9') ||
    c == '_' || c == '-' || c == '.'

def maxDocumentIDRunes : Nat := 255

def maxDocumentIDBytes : Nat := 249

@[irreducible] def validDocumentID (id : String) : Bool :=
  !(id == "" || id == "." || id == ".." || id == "null") && id.toList.head? != some '.' &&
    decide (id.length ≤ maxDocumentIDRunes) && decide (id.utf8ByteSize ≤ maxDocumentIDBytes) &&
    id.toList.all idChar

@[irreducible] def safeID (id : String) : Bool :=
  !(id == "" || id == "." || id == ".." || id == "null") && id.toList.head? != some '.' &&
    decide (id.length ≤ maxDocumentIDRunes) && decide (id.utf8ByteSize ≤ maxDocumentIDBytes) &&
    !id.toList.contains '/' && !id.toList.contains '\\' &&
    Path.join [] id == [id] && !("..".toList.isPrefixOf id.toList) && id.toList.all idChar

structure DocumentId (id : String) : Prop where
  noSlash : '/' ∉ id.toList
  visible : id.toList.head? ≠ some '.'
  nonempty : id ≠ ""

theorem DocumentId.of_valid {id : String} (h : validDocumentID id = true) : DocumentId id := by
  simp only [validDocumentID, Bool.and_eq_true, List.all_eq_true, bne_iff_ne] at h
  obtain ⟨⟨⟨⟨hname, hdot⟩, _⟩, _⟩, hchars⟩ := h
  refine ⟨fun hmem => ?_, hdot, ?_⟩
  · exact absurd (hchars _ hmem) (by decide)
  · rintro rfl
    exact absurd hname (by decide)

theorem DocumentId.plain {id : String} (h : DocumentId id) : PlainName id where
  noSlash := h.noSlash
  nonempty := h.nonempty
  notDot := by rintro rfl; exact h.visible rfl
  notDotDot := by rintro rfl; exact h.visible rfl

theorem valid_of_safeID {id : String} (h : safeID id = true) : validDocumentID id = true := by
  unfold safeID at h
  unfold validDocumentID
  simp only [Bool.and_eq_true] at h ⊢
  obtain ⟨⟨⟨⟨⟨hstart, -⟩, -⟩, -⟩, -⟩, hchars⟩ := h
  exact ⟨hstart, hchars⟩

theorem safeID_of_valid {id : String} (h : validDocumentID id = true) : safeID id = true := by
  have hid := DocumentId.of_valid h
  have hjoin : Path.join [] id = [id] := Path.join_plain hid.plain []
  have hslash : '\\' ∉ id.toList := by
    intro hmem
    simp only [validDocumentID, Bool.and_eq_true, List.all_eq_true] at h
    exact absurd (h.2 _ hmem) (by decide)
  have hdots : ['.', '.'].isPrefixOf id.toList = false := by
    have hvisible := hid.visible
    cases hchars : id.toList with
    | nil => rfl
    | cons c cs =>
      rw [hchars] at hvisible
      have hc : ('.' == c) = false := beq_eq_false_iff_ne.mpr fun heq => hvisible (by rw [← heq]; rfl)
      simp [List.isPrefixOf, hc]
  unfold validDocumentID at h
  unfold safeID
  simp only [Bool.and_eq_true] at h ⊢
  simp [h, hjoin, hdots, hid.noSlash, hslash]

def collectionDir (dataDir : Path) (collection : String) : Path := dataDir.join collection

def documentPath (dataDir : Path) (collection id : String) : Path :=
  (collectionDir dataDir collection).join (id ++ ".json")

def previousDocumentPath (dataDir : Path) (collection id : String) : Path :=
  (collectionDir dataDir collection).join ("." ++ id ++ ".json")

def filesManifestPath (dataDir : Path) (collection id : String) : Path :=
  (collectionDir dataDir collection).join (id ++ "__files.jsonl")

def lfsDir (dataDir : Path) (collection id : String) : Path :=
  ((collectionDir dataDir collection).join "lfs").join id

def fileOpsDir (dataDir : Path) (collection id : String) : Path :=
  ((collectionDir dataDir collection).join ".fileOps").join id

def changeQueueDir (dataDir : Path) (collection : String) : Path :=
  (collectionDir dataDir collection).join ".changeQueue"

def pendingWritesDir (dataDir : Path) (collection : String) : Path :=
  (collectionDir dataDir collection).join ".pendingWrites"

def pendingWritePath (dataDir : Path) (collection targetServer id : String) : Path :=
  (pendingWritesDir dataDir collection).join (targetServer ++ "." ++ id ++ ".json")

def binaryPath (dataDir : Path) (collection id filename : String) : Path :=
  (lfsDir dataDir collection id).join filename

def pendingFileWritesDir (dataDir : Path) (collection : String) : Path :=
  (collectionDir dataDir collection).join ".pendingFileWrites"

def pendingFileWritePath (dataDir : Path) (collection targetServer id filename : String) : Path :=
  (pendingFileWritesDir dataDir collection).join
    (targetServer ++ "." ++ id ++ "." ++ filename ++ ".json")

def cacheDir (dataDir : Path) (sourceCollection : String) : Path :=
  (dataDir.join ".cache").join sourceCollection

def cachePath (dataDir : Path) (sourceCollection sourceDocID : String) : Path :=
  (cacheDir dataDir sourceCollection).join (sourceDocID ++ ".json")

theorem plainName_json (h : '/' ∉ s.toList) : PlainName (s ++ ".json") :=
  .append h (by decide) (by decide)

section
variable {dataDir : Path} {coll id : String}
theorem documentPath_eq_join (h : DocumentId id) :
    documentPath dataDir coll id = collectionDir dataDir coll ++ [id ++ ".json"] :=
  Path.join_plain (plainName_json h.noSlash) _

theorem previousDocumentPath_eq_join (h : DocumentId id) :
    previousDocumentPath dataDir coll id = collectionDir dataDir coll ++ ["." ++ id ++ ".json"] :=
  Path.join_plain (plainName_json (by simp [h.noSlash])) _

theorem filesManifestPath_eq_join (h : DocumentId id) :
    filesManifestPath dataDir coll id = collectionDir dataDir coll ++ [id ++ "__files.jsonl"] :=
  Path.join_plain (.append h.noSlash (by decide) (by decide)) _

theorem lfsDir_eq_join (h : DocumentId id) :
    lfsDir dataDir coll id = collectionDir dataDir coll ++ ["lfs", id] := by
  rw [lfsDir, Path.join_plain (s := "lfs") (by decide), Path.join_plain h.plain, List.append_assoc]
  rfl

theorem fileOpsDir_eq_join (h : DocumentId id) :
    fileOpsDir dataDir coll id = collectionDir dataDir coll ++ [".fileOps", id] := by
  rw [fileOpsDir, Path.join_plain (s := ".fileOps") (by decide), Path.join_plain h.plain,
    List.append_assoc]
  rfl

theorem live_name_ne_previous_name (h : DocumentId id) (id' : String) :
    id ++ ".json" ≠ "." ++ id' ++ ".json" := by
  intro heq
  have hid : id = "." ++ id' := by simpa using heq
  exact h.visible (by simp [hid])

theorem live_name_ne_manifest_name (id id' : String) : id ++ ".json" ≠ id' ++ "__files.jsonl" := by
  intro heq
  have hlast := congrArg (fun s : String => s.toList.getLast?) heq
  simp at hlast

theorem documentPath_ne_previousDocumentPath (h : DocumentId id) :
    documentPath dataDir coll id ≠ previousDocumentPath dataDir coll id := by
  rw [documentPath_eq_join h, previousDocumentPath_eq_join h]
  intro heq
  exact live_name_ne_previous_name h id (by simpa using heq)

theorem documentPath_ne_filesManifestPath (h : DocumentId id) :
    documentPath dataDir coll id ≠ filesManifestPath dataDir coll id := by
  rw [documentPath_eq_join h, filesManifestPath_eq_join h]
  intro heq
  simp at heq

theorem not_lfsDir_prefix_documentPath (h : DocumentId id) :
    ¬ lfsDir dataDir coll id <+: documentPath dataDir coll id := by
  rw [documentPath_eq_join h, lfsDir_eq_join h]
  intro hpre
  simpa using hpre.length_le

theorem not_fileOpsDir_prefix_documentPath (h : DocumentId id) :
    ¬ fileOpsDir dataDir coll id <+: documentPath dataDir coll id := by
  rw [documentPath_eq_join h, fileOpsDir_eq_join h]
  intro hpre
  simpa using hpre.length_le
end
section
variable {dataDir : Path} {coll id : String}
theorem collectionDir_eq (h : PlainName coll) :
    collectionDir dataDir coll = dataDir ++ [coll] := Path.join_plain h _

theorem documentPath_eq (hc : PlainName coll) (h : DocumentId id) :
    documentPath dataDir coll id = dataDir ++ [coll, id ++ ".json"] := by
  rw [documentPath_eq_join h, collectionDir_eq hc, List.append_assoc]
  rfl

theorem previousDocumentPath_eq (hc : PlainName coll) (h : DocumentId id) :
    previousDocumentPath dataDir coll id = dataDir ++ [coll, "." ++ id ++ ".json"] := by
  rw [previousDocumentPath_eq_join h, collectionDir_eq hc, List.append_assoc]
  rfl

theorem filesManifestPath_eq (hc : PlainName coll) (h : DocumentId id) :
    filesManifestPath dataDir coll id = dataDir ++ [coll, id ++ "__files.jsonl"] := by
  rw [filesManifestPath_eq_join h, collectionDir_eq hc, List.append_assoc]
  rfl

theorem lfsDir_eq (hc : PlainName coll) (h : DocumentId id) :
    lfsDir dataDir coll id = dataDir ++ [coll, "lfs", id] := by
  rw [lfsDir_eq_join h, collectionDir_eq hc, List.append_assoc]
  rfl

theorem fileOpsDir_eq (hc : PlainName coll) (h : DocumentId id) :
    fileOpsDir dataDir coll id = dataDir ++ [coll, ".fileOps", id] := by
  rw [fileOpsDir_eq_join h, collectionDir_eq hc, List.append_assoc]
  rfl

theorem changeQueueDir_eq (hc : PlainName coll) :
    changeQueueDir dataDir coll = dataDir ++ [coll, ".changeQueue"] := by
  rw [changeQueueDir, Path.join_plain (s := ".changeQueue") (by decide), collectionDir_eq hc,
    List.append_assoc]
  rfl

variable {server : String}
theorem pendingWritePath_eq (hc : PlainName coll) (h : DocumentId id) (hs : '/' ∉ server.toList) :
    pendingWritePath dataDir coll server id =
      dataDir ++ [coll, ".pendingWrites", server ++ "." ++ id ++ ".json"] := by
  rw [pendingWritePath, pendingWritesDir, Path.join_plain (s := ".pendingWrites") (by decide),
    Path.join_plain (plainName_json (by simp [hs, h.noSlash])), collectionDir_eq hc,
    List.append_assoc, List.append_assoc]
  rfl

theorem pendingFileWritePath_eq_join {filename : String} (h : DocumentId id)
    (hs : '/' ∉ server.toList) (hf : '/' ∉ filename.toList) :
    pendingFileWritePath dataDir coll server id filename =
      collectionDir dataDir coll ++ [".pendingFileWrites",
        server ++ "." ++ id ++ "." ++ filename ++ ".json"] := by
  rw [pendingFileWritePath, pendingFileWritesDir,
    Path.join_plain (s := ".pendingFileWrites") (by decide),
    Path.join_plain (plainName_json (by simp [hs, h.noSlash, hf])), List.append_assoc]
  rfl

theorem pendingFileWritePath_eq {filename : String} (hc : PlainName coll) (h : DocumentId id)
    (hs : '/' ∉ server.toList) (hf : '/' ∉ filename.toList) :
    pendingFileWritePath dataDir coll server id filename = dataDir ++ [coll, ".pendingFileWrites",
        server ++ "." ++ id ++ "." ++ filename ++ ".json"] := by
  rw [pendingFileWritePath_eq_join h hs hf, collectionDir_eq hc, List.append_assoc]
  rfl

theorem cachePath_eq (hc : PlainName coll) (hid : '/' ∉ id.toList) :
    cachePath dataDir coll id = dataDir ++ [".cache", coll, id ++ ".json"] := by
  rw [cachePath, cacheDir, Path.join_plain (s := ".cache") (by decide), Path.join_plain hc,
    Path.join_plain (plainName_json hid), List.append_assoc, List.append_assoc]
  rfl
end
end Datorium
