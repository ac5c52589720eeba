
import Datorium.Replication.Slots
import Datorium.Search.Value
namespace Datorium
open Framework List
def Path.Fits (p : Path) : Prop := ∀ c ∈ p, c.utf8ByteSize ≤ maxFileNameBytes

theorem Path.fits_append {p q : Path} : Path.Fits (p ++ q) ↔ p.Fits ∧ Path.Fits q :=
  forall_mem_append

theorem Path.fits_singleton {c : String} : Path.Fits [c] ↔ c.utf8ByteSize ≤ maxFileNameBytes :=
  forall_mem_singleton

theorem utf8ByteSize_cons (c : Char) (cs : List Char) :
    (String.ofList (c :: cs)).utf8ByteSize = c.utf8Size + (String.ofList cs).utf8ByteSize := by
  have happend : String.ofList (c :: cs) = String.singleton c ++ String.ofList cs := by
    apply String.toList_inj.mp
    simp
  rw [happend, String.utf8ByteSize_append, String.utf8ByteSize_singleton]

theorem utf8ByteSize_component {s c : String} (h : c ∈ components s) :
    c.utf8ByteSize ≤ s.utf8ByteSize := by
  have hparts : ∀ (l part : List Char), part ∈ l.splitOn '/' →
      (String.ofList part).utf8ByteSize ≤ (String.ofList l).utf8ByteSize := by
    intro l
    induction l with
    | nil =>
      intro part hpart
      rw [splitOn_nil, mem_singleton] at hpart
      rw [hpart]
    | cons x l ih =>
      intro part hpart
      have hcons : (x :: l).splitOn '/' = if (x == '/') = true then [] :: l.splitOn '/'
          else (l.splitOn '/').modifyHead (cons x) :=
        splitOnP_cons_eq_if_modifyHead x l
      rw [hcons] at hpart
      rw [utf8ByteSize_cons x l]
      split at hpart
      · rcases mem_cons.mp hpart with rfl | hpart
        · simp
        · exact (ih part hpart).trans (Nat.le_add_left _ _)
      · cases hsplit : l.splitOn '/' with
        | nil => simp [hsplit] at hpart
        | cons head rest =>
          rw [hsplit, modifyHead_cons] at hpart
          rcases mem_cons.mp hpart with rfl | hpart
          · have hhead := ih head (by simp [hsplit])
            rw [utf8ByteSize_cons]
            omega
          · exact (ih part (by simp [hsplit, hpart])).trans (Nat.le_add_left _ _)
  obtain ⟨part, hpart, rfl⟩ := mem_map.mp h
  simpa using hparts s.toList part hpart

theorem Path.Fits.enter {base : Path} (h : base.Fits) {c : String}
    (hc : c.utf8ByteSize ≤ maxFileNameBytes) : (base.enter c).Fits := by
  unfold Path.enter
  split
  · exact h
  · split
    · exact fun c' hc' => h c' (mem_of_mem_dropLast hc')
    · exact Path.fits_append.mpr ⟨h, Path.fits_singleton.mpr hc⟩

theorem Path.Fits.climb {base : Path} (h : base.Fits) {s : String}
    (hs : s.utf8ByteSize ≤ maxFileNameBytes) : (base.climb s).Fits := by
  have hfold : ∀ cs : List String, (∀ c ∈ cs, c.utf8ByteSize ≤ maxFileNameBytes) → ∀ p : Path,
      p.Fits → (cs.foldl Path.enter p).Fits := by
    intro cs
    induction cs with
    | nil => exact fun _ p hp => hp
    | cons c cs ih =>
      intro hcs p hp
      exact ih (fun c' hc' => hcs c' (mem_cons_of_mem _ hc')) _ (hp.enter (hcs c mem_cons_self))
  exact hfold _ (fun c hc => (utf8ByteSize_component (mem_of_mem_dropLast hc)).trans hs) base h

theorem utf8Size_hexUpper {n : Nat} (hn : n < 16) : (hexUpper n).utf8Size = 1 := by
  revert n
  decide

theorem utf8ByteSize_encodeStringValue {s : String} (h : s ≠ "") :
    (encodeStringValue s).utf8ByteSize = 2 * s.utf8ByteSize := by
  have hdigits : ∀ bytes : List UInt8,
      (String.ofList (bytes.flatMap hexByte)).utf8ByteSize = 2 * bytes.length := by
    intro bytes
    induction bytes with
    | nil => rfl
    | cons b bytes ih =>
      have hb := b.toNat_lt
      rw [flatMap_cons, hexByte, cons_append, cons_append, nil_append,
        utf8ByteSize_cons, utf8ByteSize_cons, utf8Size_hexUpper (by omega),
        utf8Size_hexUpper (by omega), ih, length_cons]
      omega
  rw [encodeStringValue, if_neg h, hdigits]
  rfl

structure NameParts where
  collection : String
  server : String
  id : String
  filename : String
  value : String

/-- Names the server accepts, and a string that is short enough to be indexed. -/
structure NameParts.Accepted (cfg : Config) (x : NameParts) : Prop where
  collection : cfg.Configured x.collection
  collectionSize : x.collection.utf8ByteSize ≤ 64
  server : validServerName x.server = true
  serverSize : x.server.utf8ByteSize ≤ 64
  id : validDocumentID x.id = true
  filename : safeFileName x.filename = true
  value : x.value.length ≤ maxSegmentRunes

inductive DerivedName where
  | document
  | previous
  | manifest
  | queue (change : Command)
  | claim (change : Command)
  | pendingWrite
  | pendingFileWrite
  | pendingCacheUpdate
  | attachment
  | cached
  | segment
  deriving DecidableEq, Repr

def NameParts.path (dataDir : Path) (x : NameParts) : DerivedName → Path
  | .document => documentPath dataDir x.collection x.id
  | .previous => previousDocumentPath dataDir x.collection x.id
  | .manifest => filesManifestPath dataDir x.collection x.id
  | .queue change => queuePath dataDir change x.collection x.id
  | .claim change => takenQueuePath dataDir change x.collection x.id
  | .pendingWrite => pendingWritePath dataDir x.collection x.server x.id
  | .pendingFileWrite => pendingFileWritePath dataDir x.collection x.server x.id x.filename
  | .pendingCacheUpdate => pendingCacheUpdatePath dataDir x.collection x.server x.id
  | .attachment => binaryPath dataDir x.collection x.id x.filename
  | .cached => cachePath dataDir x.collection x.id
  | .segment => [encodeStringValue x.value]

/-- The bytes of the parts that go into a name are few enough. -/
def NameParts.Short (x : NameParts) : DerivedName → Prop
  | .manifest => x.id.utf8ByteSize ≤ 242
  | .queue change | .claim change =>
    change.text.utf8ByteSize + x.collection.utf8ByteSize + x.id.utf8ByteSize ≤ 245
  | .pendingWrite | .pendingCacheUpdate =>
    (lastComponent x.server).utf8ByteSize + x.id.utf8ByteSize ≤ 249
  | .pendingFileWrite =>
    (lastComponent x.server).utf8ByteSize + x.id.utf8ByteSize + x.filename.utf8ByteSize ≤ 248
  | .segment => x.value.utf8ByteSize ≤ 127
  | .document | .previous | .attachment | .cached => True

theorem size_of_validDocumentID {id : String} (h : validDocumentID id = true) :
    id.utf8ByteSize ≤ 249 := by
  simp only [validDocumentID, Bool.and_eq_true, decide_eq_true_eq] at h
  exact h.1.2

theorem size_of_safeFileName {name : String} (h : safeFileName name = true) :
    name.utf8ByteSize ≤ maxFileNameBytes := by
  simp only [safeFileName, Bool.and_eq_true, decide_eq_true_eq] at h
  exact h.1.1.1.1.1.2

section
variable {dataDir dir : Path} {coll server rest : String}
theorem fits_snoc (hdir : dir.Fits) {name : String} :
    Path.Fits (dir ++ [name]) ↔ name.utf8ByteSize ≤ maxFileNameBytes := by
  rw [Path.fits_append, Path.fits_singleton]
  exact and_iff_right hdir

theorem fits_collectionDir (hdata : dataDir.Fits) (hc : PlainName coll)
    (hsize : coll.utf8ByteSize ≤ 64) : (collectionDir dataDir coll).Fits := by
  rw [collectionDir_eq hc, fits_snoc hdata]
  exact hsize.trans (by decide)

theorem fits_subdirectory (hdir : dir.Fits) {name : String} (hname : PlainName name)
    (hsize : name.utf8ByteSize ≤ maxFileNameBytes) : (dir.join name).Fits := by
  rw [Path.join_plain hname, fits_snoc hdir]
  exact hsize

theorem fits_dotted (hdir : dir.Fits) (hserver : server.utf8ByteSize ≤ 64)
    (hrest : '/' ∉ rest.toList) :
    (dir.join (server ++ "." ++ rest ++ ".json")).Fits ↔
      (lastComponent server).utf8ByteSize + rest.utf8ByteSize + 6 ≤ maxFileNameBytes := by
  have hdot : ".".utf8ByteSize = 1 := rfl
  have hjson : ".json".utf8ByteSize = 5 := rfl
  rw [join_dotted dir server hrest, fits_snoc (hdir.climb (hserver.trans (by decide)))]
  simp only [String.utf8ByteSize_append, hdot, hjson]
  omega
end

def NameParts.size (x : NameParts) : DerivedName → Nat
  | .document | .cached => x.id.utf8ByteSize + 5
  | .previous => x.id.utf8ByteSize + 6
  | .manifest => x.id.utf8ByteSize + 13
  | .queue change | .claim change =>
    change.text.utf8ByteSize + x.collection.utf8ByteSize + x.id.utf8ByteSize + 10
  | .pendingWrite | .pendingCacheUpdate =>
    (lastComponent x.server).utf8ByteSize + x.id.utf8ByteSize + 6
  | .pendingFileWrite =>
    (lastComponent x.server).utf8ByteSize + x.id.utf8ByteSize + x.filename.utf8ByteSize + 7
  | .attachment => x.filename.utf8ByteSize
  | .segment => if x.value = "" then 5 else 2 * x.value.utf8ByteSize

theorem NameParts.Accepted.fits_iff {cfg : Config} {dataDir : Path} (hdata : dataDir.Fits)
    {x : NameParts} (h : x.Accepted cfg) (name : DerivedName) :
    (x.path dataDir name).Fits ↔ x.size name ≤ maxFileNameBytes := by
  have hc := cfg.plainNames _ h.collection
  have hid := DocumentId.of_valid h.id
  have hdir := fits_collectionDir hdata hc h.collectionSize
  have hqueue : (changeQueueDir dataDir x.collection).Fits :=
    fits_subdirectory hdir (by decide) (by decide)
  have hnames : ".".utf8ByteSize = 1 ∧ ".json".utf8ByteSize = 5 ∧ "__".utf8ByteSize = 2 ∧
      ".queue".utf8ByteSize = 6 ∧ ".taken".utf8ByteSize = 6 ∧
      "__files.jsonl".utf8ByteSize = 13 := ⟨rfl, rfl, rfl, rfl, rfl, rfl⟩
  obtain ⟨hdot, hjson, hbars, hqueued, htaken, hmanifest⟩ := hnames
  cases name with
  | document =>
    rw [NameParts.path, documentPath_eq_join hid, fits_snoc hdir, String.utf8ByteSize_append, hjson,
      NameParts.size]
  | previous =>
    rw [NameParts.path, previousDocumentPath_eq_join hid, fits_snoc hdir, NameParts.size]
    simp only [String.utf8ByteSize_append, hdot, hjson]
    omega
  | manifest =>
    rw [NameParts.path, filesManifestPath_eq_join hid, fits_snoc hdir, String.utf8ByteSize_append,
      hmanifest, NameParts.size]
  | queue change =>
    have hplain : PlainName (queueBaseName change x.collection x.id ++ ".queue") :=
      .append (queueBaseName_noSlash hc hid change) (by decide) (by decide)
    rw [NameParts.path, queuePath, Path.join_plain hplain, fits_snoc hqueue, NameParts.size]
    simp only [queueBaseName, String.utf8ByteSize_append, hbars, hqueued]
    omega
  | claim change =>
    have hplain : PlainName (queueBaseName change x.collection x.id ++ ".taken") :=
      .append (queueBaseName_noSlash hc hid change) (by decide) (by decide)
    rw [NameParts.path, takenQueuePath, Path.join_plain hplain, fits_snoc hqueue, NameParts.size]
    simp only [queueBaseName, String.utf8ByteSize_append, hbars, htaken]
    omega
  | pendingWrite =>
    exact fits_dotted (fits_subdirectory hdir (by decide) (by decide)) h.serverSize hid.noSlash
  | pendingCacheUpdate =>
    exact fits_dotted (fits_subdirectory hdir (by decide) (by decide)) h.serverSize hid.noSlash
  | pendingFileWrite =>
    have hf := PlainName.of_safeFileName h.filename
    have hrest : '/' ∉ (x.id ++ "." ++ x.filename).toList := by simp [hid.noSlash, hf.noSlash]
    have hname : x.server ++ "." ++ x.id ++ "." ++ x.filename ++ ".json" =
        x.server ++ "." ++ (x.id ++ "." ++ x.filename) ++ ".json" := by
      simp only [String.append_assoc]
    have hpending : (pendingFileWritesDir dataDir x.collection).Fits :=
      fits_subdirectory hdir (by decide) (by decide)
    rw [NameParts.path, pendingFileWritePath, hname, fits_dotted hpending h.serverSize hrest,
      NameParts.size]
    simp only [String.utf8ByteSize_append, hdot]
    omega
  | attachment =>
    have hlfs : (lfsDir dataDir x.collection x.id).Fits :=
      fits_subdirectory (fits_subdirectory hdir (by decide) (by decide)) hid.plain
        ((size_of_validDocumentID h.id).trans (by decide))
    rw [NameParts.path, binaryPath_eq_append _ _ _ (PlainName.of_safeFileName h.filename),
      fits_snoc hlfs, NameParts.size]
  | cached =>
    have hcache : (cacheDir dataDir x.collection).Fits :=
      fits_subdirectory (fits_subdirectory hdata (by decide) (by decide)) hc
        (h.collectionSize.trans (by decide))
    rw [NameParts.path, cachePath, Path.join_plain (plainName_json hid.noSlash), fits_snoc hcache,
      String.utf8ByteSize_append, hjson, NameParts.size]
  | segment =>
    rw [NameParts.path, Path.fits_singleton, NameParts.size]
    split
    · rename_i hempty
      rw [hempty]
      decide
    · rename_i hvalue
      rw [utf8ByteSize_encodeStringValue hvalue]

/-- A derived name fits exactly when its parts are short enough. -/
theorem derived_name_fits_iff (cfg : Config) {dataDir : Path} (hdata : dataDir.Fits)
    {x : NameParts} (h : x.Accepted cfg) (name : DerivedName) :
    (x.path dataDir name).Fits ↔ x.Short name := by
  have hid := size_of_validDocumentID h.id
  have hfilename := size_of_safeFileName h.filename
  rw [h.fits_iff hdata name]
  cases name with
  | segment =>
    simp only [NameParts.size, NameParts.Short, maxFileNameBytes]
    split
    · rename_i hempty
      rw [hempty]
      decide
    · omega
  | _ =>
    simp only [NameParts.size, NameParts.Short, maxFileNameBytes, iff_true] at hfilename ⊢
    omega

namespace Sample
def shortParts : NameParts := ⟨"Movies", "alpha", "alien", "poster.png", "Alien"⟩

def longParts : NameParts :=
  ⟨"Movies", "alpha", String.ofList (replicate 249 'a'), "poster.png",
    String.ofList (replicate 63 '😀')⟩

theorem utf8ByteSize_replicate (n : Nat) (c : Char) :
    (String.ofList (replicate n c)).utf8ByteSize = n * c.utf8Size := by
  induction n with
  | zero => simp
  | succ n ih =>
    rw [replicate_succ, utf8ByteSize_cons, ih, Nat.succ_mul, Nat.add_comm]

theorem valid_replicate {n : Nat} (hn : 4 < n) (hmax : n ≤ 249) :
    validDocumentID (String.ofList (replicate n 'a')) = true := by
  have hlength : (String.ofList (replicate n 'a')).length = n := by
    rw [String.length_ofList, length_replicate]
  have hne : ∀ s : String, s.length ≤ 4 → (String.ofList (replicate n 'a') == s) = false := by
    intro s hs
    rw [beq_eq_false_iff_ne]
    rintro rfl
    omega
  have hsize : (String.ofList (replicate n 'a')).utf8ByteSize = n := by
    rw [utf8ByteSize_replicate]
    exact Nat.mul_one n
  obtain ⟨m, rfl⟩ : ∃ m, n = m + 1 := ⟨n - 1, by omega⟩
  rw [validDocumentID, hne "" (by decide), hne "." (by decide), hne ".." (by decide),
    hne "null" (by decide), hlength, hsize, String.toList_ofList, all_replicate,
    replicate_succ, head?_cons, decide_eq_true (by unfold maxDocumentIDRunes; omega),
    decide_eq_true (by unfold maxDocumentIDBytes; omega)]
  have hchar : idChar 'a' = true := by decide
  simp [hchar]

theorem size_longParts : longParts.id.utf8ByteSize = 249 ∧ longParts.value.utf8ByteSize = 252 :=
  ⟨utf8ByteSize_replicate 249 'a', utf8ByteSize_replicate 63 '😀'⟩

theorem shortParts_accepted : shortParts.Accepted config := by
  obtain ⟨hid, hfilename⟩ : validDocumentID shortParts.id = true ∧
      safeFileName shortParts.filename = true := by decide +kernel
  exact ⟨by decide, by decide, by decide, by decide, hid, hfilename, by decide⟩

theorem longParts_accepted : longParts.Accepted config where
  collection := by decide
  collectionSize := by decide
  server := by decide
  serverSize := by decide
  id := valid_replicate (by decide) (by decide)
  filename := shortParts_accepted.filename
  value := by
    rw [longParts, String.length_ofList, length_replicate]
    decide

theorem film_queue_fits :
    (shortParts.path ["db"] (.queue .create)).Fits ↔ shortParts.Short (.queue .create) :=
  derived_name_fits_iff config (by intro c hc; rw [mem_singleton.mp hc]; decide)
    shortParts_accepted (.queue .create)

theorem film_names_too_long : longParts.Accepted config ∧
    ∀ name ∈ [DerivedName.manifest, .queue .create, .queue .patch, .queue .delete, .claim .create,
      .claim .patch, .claim .delete, .pendingWrite, .pendingFileWrite, .pendingCacheUpdate, .segment],
      ¬ (longParts.path ["db"] name).Fits := by
  refine ⟨longParts_accepted, fun name hname => ?_⟩
  have hdata : Path.Fits ["db"] := by
    intro c hc
    rw [mem_singleton.mp hc]
    decide
  have hcollection : longParts.collection.utf8ByteSize = 6 := rfl
  have hserver : (lastComponent longParts.server).utf8ByteSize = 5 := by
    rw [lastComponent_eq_self_iff.mpr (by decide)]
    rfl
  have hfilename : longParts.filename.utf8ByteSize = 10 := rfl
  obtain ⟨hid, hvalue⟩ := size_longParts
  have hnonempty : longParts.value ≠ "" := by
    intro hempty
    rw [hempty] at hvalue
    cases hvalue
  rw [longParts_accepted.fits_iff hdata, Nat.not_le]
  simp only [mem_cons, not_mem_nil, or_false] at hname
  rcases hname with rfl | rfl | rfl | rfl | rfl | rfl | rfl | rfl | rfl | rfl | rfl <;>
    simp only [NameParts.size, hcollection, hserver, hfilename, hid, hvalue, if_neg hnonempty] <;>
    decide
end Sample
end Datorium
