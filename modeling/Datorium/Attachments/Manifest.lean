
import Datorium.Agents.Change
import Datorium.Framework.Keyed
import Datorium.Replication.Pending
import Mathlib.Data.String.Basic
/-! # The files manifest -/
namespace Datorium
open Framework
def maxFileNameBytes : Nat := 255

def controlChar (c : Char) : Bool := c.toNat < 0x20 || c.toNat == 0x7f

/-- `SafeFileName`. Lean strings are valid UTF-8. -/
@[irreducible] def safeFileName (name : String) : Bool :=
  !(name == "" || name == "." || name == "..") && name.toList.head? != some '.' &&
    decide (name.utf8ByteSize ≤ maxFileNameBytes) &&
    !name.toList.contains '/' && !name.toList.contains '\\' &&
    Path.join [] name == [name] && !name.toList.any controlChar &&
    !("..".toList.isPrefixOf name.toList)

theorem PlainName.of_safeFileName {name : String} (h : safeFileName name = true) :
    PlainName name := by
  simp only [safeFileName, Bool.and_eq_true, Bool.not_eq_true', Bool.or_eq_false_iff,
    beq_eq_false_iff_ne, List.contains_eq_mem, decide_eq_false_iff_not] at h
  obtain ⟨⟨⟨⟨⟨⟨⟨⟨⟨hempty, hdot⟩, hdotdot⟩, -⟩, -⟩, hslash⟩, -⟩, -⟩, -⟩, -⟩ := h
  exact ⟨hslash, hempty, hdot, hdotdot⟩

theorem binaryPath_eq_append (dataDir : Path) (coll id : String) {filename : String}
    (hf : PlainName filename) :
    binaryPath dataDir coll id filename = lfsDir dataDir coll id ++ [filename] :=
  Path.join_plain hf _

def naturalOf (digits : List Char) : Option Nat :=
  if digits ≠ [] ∧ digits.all Char.isDigit then some (Nat.ofDigitChars 10 digits 0) else none

def integerOf (text : String) : Option Int :=
  match text.toList with
  | '-' :: digits => (naturalOf digits).map fun n => -(n : Int)
  | digits => (naturalOf digits).map fun n => (n : Int)

theorem naturalOf_toDigits (n : Nat) : naturalOf (Nat.toDigits 10 n) = some n := by
  have hdigits : (Nat.toDigits 10 n).all Char.isDigit = true :=
    List.all_eq_true.mpr fun c hc => Nat.isDigit_of_mem_toDigits (by decide) (by decide) hc
  rw [naturalOf, if_pos ⟨Nat.toDigits_ne_nil, hdigits⟩,
    Nat.ofDigitChars_toDigits (by decide) (by decide)]

theorem integerOf_repr (n : Int) : integerOf n.repr = some n := by
  cases n with
  | ofNat m =>
    have htext : (Int.ofNat m).repr.toList = Nat.toDigits 10 m := String.toList_ofList
    unfold integerOf
    rw [htext]
    split
    · rename_i digits heq
      have hminus : ('-' : Char) ∈ Nat.toDigits 10 m := heq ▸ List.mem_cons_self
      exact absurd (Nat.isDigit_of_mem_toDigits (by decide) (by decide) hminus) (by decide)
    · rw [naturalOf_toDigits]
      rfl
  | negSucc m =>
    have htext : (Int.negSucc m).repr.toList = '-' :: Nat.toDigits 10 (m + 1) := by
      change ("-" ++ String.ofList (Nat.toDigits 10 (m + 1))).toList = _
      simp
    simp only [integerOf, htext, naturalOf_toDigits]
    rfl

def intOf : Option Json → Option Int
  | none => some 0
  | some .null => some 0
  | some (.num text) => integerOf text
  | some _ => none

structure FileEntry where
  name : String
  contentType : String
  byteSize : Int
  sha256 : String
  version : String
  operationId : String
  deriving DecidableEq

namespace FileEntry
def toJson (entry : FileEntry) : Json :=
  .obj [("name", .str entry.name), ("contentType", .str entry.contentType),
    ("byteSize", .num entry.byteSize.repr), ("sha256", .str entry.sha256),
    ("version", .str entry.version), ("operationId", .str entry.operationId)]

def ofJson (v : Json) : Option FileEntry := do
  let fields ← v.toMap?
  let name ← WorkItem.stringOf (Fields.get? "name" fields)
  let contentType ← WorkItem.stringOf (Fields.get? "contentType" fields)
  let byteSize ← intOf (Fields.get? "byteSize" fields)
  let sha256 ← WorkItem.stringOf (Fields.get? "sha256" fields)
  let version ← WorkItem.stringOf (Fields.get? "version" fields)
  let operationId ← WorkItem.stringOf (Fields.get? "operationId" fields)
  return { name, contentType, byteSize, sha256, version, operationId }

@[simp] theorem ofJson_toJson (entry : FileEntry) : ofJson entry.toJson = some entry := by
  simp [ofJson, toJson, Fields.get?_cons, WorkItem.stringOf, intOf, integerOf_repr]
end FileEntry

/-- The SHA-256 of a byte string and the length of a line of JSON. -/
structure FileLib where
  sha256 : List UInt8 → String
  lineLength : Json → Nat

def maxManifestLine : Nat := 1024 * 1024

def decodeManifest (lib : FileLib) : Nat → List Json → Except FsError (List FileEntry)
  | _, [] => .ok []
  | lineNo, line :: lines =>
    if maxManifestLine ≤ lib.lineLength line then
      .error (.other "bufio.Scanner: token too long")
    else match FileEntry.ofJson line with
      | none => .error (.other ("invalid files manifest line " ++ toString lineNo))
      | some entry =>
        match decodeManifest lib (lineNo + 1) lines with
        | .error err => .error err
        | .ok entries => .ok (entry :: entries)

def FileLib.Fits (lib : FileLib) (entry : FileEntry) : Prop :=
  lib.lineLength entry.toJson < maxManifestLine

instance (lib : FileLib) (entry : FileEntry) : Decidable (lib.Fits entry) :=
  inferInstanceAs (Decidable (_ < _))

theorem decodeManifest_toJson {lib : FileLib} {entries : List FileEntry}
    (h : ∀ entry ∈ entries, lib.Fits entry) (lineNo : Nat) :
    decodeManifest lib lineNo (entries.map FileEntry.toJson) = .ok entries := by
  induction entries generalizing lineNo with
  | nil => rfl
  | cons entry entries ih =>
    have hfits : ¬ maxManifestLine ≤ lib.lineLength entry.toJson :=
      Nat.not_le.mpr (h entry List.mem_cons_self)
    have hrest := ih (fun e he => h e (List.mem_cons_of_mem _ he)) (lineNo + 1)
    simp [decodeManifest, hfits, hrest]

theorem decodeManifest_eq_ok {lib : FileLib} {entries rows : List FileEntry} {lineNo : Nat}
    (h : decodeManifest lib lineNo (entries.map FileEntry.toJson) = .ok rows) : rows = entries := by
  induction entries generalizing lineNo rows with
  | nil =>
    cases h
    rfl
  | cons entry entries ih =>
    simp only [List.map_cons, decodeManifest, FileEntry.ofJson_toJson] at h
    split at h
    · cases h
    · cases hrest : decodeManifest lib (lineNo + 1) (entries.map FileEntry.toJson) with
      | error err => simp [hrest] at h
      | ok rest =>
        simp only [hrest] at h
        cases h
        rw [ih hrest]

def decodeManifestFile (lib : FileLib) : File → Except FsError (List FileEntry)
  | .json (.arr lines) => decodeManifest lib 1 lines
  | _ => .error (.other "invalid files manifest line 1")

def readFilesManifest (lib : FileLib) (site : Site) (dataDir : Path) (collection id : String) :
    Prog (Except FsError (List FileEntry)) := do
  match ← readFile site (filesManifestPath dataDir collection id) with
  | .error err => if err.isNotExist then pure (.ok []) else pure (.error err)
  | .ok file => pure (decodeManifestFile lib file)

def lookupFileEntry (entries : List FileEntry) (filename : String) : Option FileEntry :=
  Keyed.lookup FileEntry.name filename entries

def manifestFile (entries : List FileEntry) : Option File :=
  if entries = [] then none else some (.json (.arr (entries.map FileEntry.toJson)))

def writeFilesManifest (place : FilePlace → Site) (dataDir : Path) (collection id : String)
    (entries : List FileEntry) : Prog (Except FsError Unit) :=
  let sorted := Keyed.sort FileEntry.name entries
  if sorted = [] then
    removeIfPresent (place .manifestRemove) (filesManifestPath dataDir collection id)
  else
    writeFileAtomic (fun step => place (.manifestWrite step))
      (filesManifestPath dataDir collection id) (.json (.arr (sorted.map FileEntry.toJson)))

def rewriteManifest (lib : FileLib) (place : FilePlace → Site) (dataDir : Path)
    (collection id : String) (change : List FileEntry → List FileEntry) :
    Prog (Except FsError Unit) := do
  match ← readFilesManifest lib (place .manifestRead) dataDir collection id with
  | .error err => pure (.error err)
  | .ok entries => writeFilesManifest place dataDir collection id (change entries)

def upsertManifestEntry (lib : FileLib) (place : FilePlace → Site) (dataDir : Path)
    (collection id : String) (entry : FileEntry) : Prog (Except FsError Unit) :=
  rewriteManifest lib place dataDir collection id (Keyed.upsert FileEntry.name entry)

def removeManifestEntry (lib : FileLib) (place : FilePlace → Site) (dataDir : Path)
    (collection id filename : String) : Prog (Except FsError Unit) :=
  rewriteManifest lib place dataDir collection id (Keyed.erase FileEntry.name filename)

def World.manifest {ν : Type} (w : World ν) (lib : FileLib) (fails : Bool) (path : Path) :
    Except FsError (List FileEntry) :=
  if fails then .error .io
  else match w.files path with
    | none => .ok []
    | some file => decodeManifestFile lib file

section
variable {ν : Type} {host : Host ν} {faults : Faults} {w : World ν} {lib : FileLib}
  {dataDir : Path} {coll id : String} {entries : List FileEntry}
@[simp] theorem run_readFilesManifest (site : Site) :
    (readFilesManifest lib site dataDir coll id).run (exec host faults) w =
      (w.manifest lib (faults site) (filesManifestPath dataDir coll id), w) := by
  cases hf : faults site <;> cases hp : w.files (filesManifestPath dataDir coll id) <;>
    simp [readFilesManifest, World.manifest, hf, hp, FsError.isNotExist]

@[simp] theorem ensures_readFilesManifest {crash : Op → World ν → Prop}
    {post : Except FsError (List FileEntry) → World ν → Prop} (site : Site) :
    (readFilesManifest lib site dataDir coll id).Ensures (exec host faults) crash post w ↔
      crash ⟨site, .readFile (filesManifestPath dataDir coll id)⟩ w ∧
        post (w.manifest lib (faults site) (filesManifestPath dataDir coll id)) w := by
  cases hf : faults site <;> cases hp : w.files (filesManifestPath dataDir coll id) <;>
    simp [readFilesManifest, World.manifest, hf, hp, FsError.isNotExist]

theorem World.manifest_of_file {path : Path} (h : w.files path = manifestFile entries)
    (hfits : ∀ entry ∈ entries, lib.Fits entry) : w.manifest lib false path = .ok entries := by
  unfold manifestFile at h
  split at h
  · rename_i hnil
    simp [World.manifest, h, hnil]
  · simp [World.manifest, h, decodeManifestFile, decodeManifest_toJson hfits]
end
end Datorium
