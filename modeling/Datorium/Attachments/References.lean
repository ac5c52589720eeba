
import Datorium.Replication.References
import Datorium.Attachments.Commands
namespace Datorium
open Framework
def safeParts (s : List Char × List Char) : Bool :=
  safeID (String.ofList s.1) && safeFileName (String.ofList s.2)

def dotParts (s : List Char × List Char) : Bool := !s.1.isEmpty && safeParts s

def partsText (s : List Char × List Char) : String × String :=
  (String.ofList s.1, String.ofList s.2)

/-- `parsePendingFileWriteName`: cut at the last dot that leaves an id and a file name. -/
def parsePendingFileWriteName (name targetServer : String) : Option (String × String) :=
  (entryDocID targetServer name).bind fun rest =>
    -- `dot <= 0`: there is no dot, or the first one leads
    if '.' ∉ rest.toList ∨ rest.toList.head? = some '.' then none
    else (lastSplit dotParts '.' rest.toList).map partsText

def fileWorkItemID (serverName docID filename : String) : String :=
  serverName ++ "-" ++ docID ++ "-" ++ filename

def keepLongest (best : Option (List Char × List Char)) (s : List Char × List Char) :
    Option (List Char × List Char) :=
  if safeParts s && best.all fun b =>
      decide ((String.ofList b.1).utf8ByteSize < (String.ofList s.1).utf8ByteSize)
  then some s else best

def parseFileWorkItemID (itemID serverName : String) : Option (String × String) :=
  (docIDFromWorkItemID itemID serverName).bind fun rest =>
    ((splits '-' rest.toList).foldl keepLongest none).map partsText

def entryFileRef (targetServer name : String) : Option String :=
  (parsePendingFileWriteName name targetServer).map fun p => fileWorkItemID targetServer p.1 p.2

def listPendingFileWorkItemIDs (dirs : Except FsError (List String))
    (names : String → Except FsError (List String)) (targetServer : String) (limit : Int) :
    Except FsError (List String × Nat) :=
  listRefs (entryFileRef targetServer) dirs names limit

def fileLane (filename : String) : Lane where
  Item := FileWorkItem
  slot := fun dataDir collection server docID =>
    pendingFileWritePath dataDir collection server docID filename
  decode := FileWorkItem.ofJson

def findPendingFileWrite (dataDir : Path) (dirs : Except FsError (List String))
    (targetServer docID filename : String) : Prog (Except FsError (String × FileWorkItem)) :=
  findSlot (fileLane filename) dataDir dirs targetServer docID

def pendingFileWriteMissing : SysError :=
  { code := .workItemNotFound, message := "pending file write not found" }

def resolveFileWorkItem (claims : Claims) (itemID : String) : Except SysError (String × String) :=
  match requireMachine claims "" with
  | some err => .error err
  | none =>
    match parseFileWorkItemID itemID claims.serverName with
    | none => .error workItemForeign
    | some parts => .ok parts

def handleFetchPendingFileWrite (e : Engine) (dirs : Except FsError (List String))
    (claims : Claims) (itemID : String) : Prog (FetchAnswer FileWorkItem) :=
  match resolveFileWorkItem claims itemID with
  | .error err => pure (.fail itemID err)
  | .ok parts => do
      match ← findPendingFileWrite e.dataDir dirs claims.serverName parts.1 parts.2 with
      | .error _ => pure (.fail itemID pendingFileWriteMissing)
      | .ok found => pure { ok := true, item := some found.2 }

/-- The file name has no place where the id could end as well. -/
structure Unambiguous (id filename : String) : Prop where
  dots : ∀ a b, filename = a ++ "." ++ b →
    ¬ (safeID (id ++ "." ++ a) = true ∧ safeFileName b = true)
  hyphens : ∀ a b, filename = a ++ "-" ++ b →
    ¬ (safeID (id ++ "-" ++ a) = true ∧ safeFileName b = true)

theorem lastSplit_own_iff {sep : Char} {p : List Char × List Char → Bool} {id filename : String}
    (hp : p (id.toList, filename.toList) = true) :
    lastSplit p sep (id.toList ++ sep :: filename.toList) = some (id.toList, filename.toList) ↔
      ∀ a b : String, filename = a ++ String.singleton sep ++ b →
        p ((id ++ String.singleton sep ++ a).toList, b.toList) = false := by
  rw [lastSplit_eq_some_iff]
  constructor
  · rintro ⟨-, -, hlast⟩ a b rfl
    have h := hlast a.toList b.toList (by simp)
    simpa using h
  · intro hlast
    refine ⟨rfl, hp, fun c d hcd => ?_⟩
    have h := hlast (String.ofList c) (String.ofList d) (String.toList_inj.mp (by simpa using hcd))
    simpa using h

section
variable {server id filename : String}
theorem safeParts_own (hid : validDocumentID id = true) (hf : safeFileName filename = true) :
    safeParts (id.toList, filename.toList) = true := by
  simp [safeParts, safeID_of_valid hid, hf]

theorem parsePendingFileWriteName_own (hid : DocumentId id) :
    parsePendingFileWriteName (server ++ "." ++ id ++ "." ++ filename ++ ".json") server =
      (lastSplit dotParts '.' (id.toList ++ '.' :: filename.toList)).map partsText := by
  have hname : server ++ "." ++ id ++ "." ++ filename ++ ".json" =
      server ++ "." ++ (id ++ "." ++ filename) ++ ".json" := by
    simp only [String.append_assoc]
  have hrest : (id ++ "." ++ filename).toList = id.toList ++ '.' :: filename.toList := by simp
  have hvisible : (id.toList ++ '.' :: filename.toList).head? ≠ some '.' := by
    cases hchars : id.toList with
    | nil => exact absurd (String.toList_inj.mp (by simpa using hchars)) hid.nonempty
    | cons c cs =>
      have h := hid.visible
      rw [hchars] at h
      simpa using h
  rw [parsePendingFileWriteName, hname, entryDocID_own, Option.bind_some, hrest, if_neg]
  rw [not_or]
  exact ⟨fun h => h (by simp), hvisible⟩

theorem parsePendingFileWriteName_eq_some {name : String} {p : String × String}
    (h : parsePendingFileWriteName name server = some p) :
    entryDocID server name = some (p.1 ++ "." ++ p.2) ∧ safeID p.1 = true ∧
      safeFileName p.2 = true := by
  obtain ⟨rest, hrest, h⟩ := Option.bind_eq_some_iff.mp h
  split at h
  · cases h
  · obtain ⟨s, hs, rfl⟩ := Option.map_eq_some_iff.mp h
    obtain ⟨hcut, hsafe, -⟩ := lastSplit_eq_some_iff.mp hs
    simp only [dotParts, safeParts, Bool.and_eq_true] at hsafe
    refine ⟨?_, hsafe.2⟩
    rw [hrest, Option.some.injEq, ← String.toList_inj, ← hcut]
    simp [partsText]

theorem parseFileWorkItemID_eq (itemID server : String) :
    parseFileWorkItemID itemID server = (docIDFromWorkItemID itemID server).bind fun rest =>
      (lastSplit safeParts '-' rest.toList).map partsText := by
  have hsize : ∀ a c : List Char,
      (String.ofList a).utf8ByteSize < (String.ofList (a ++ '-' :: c)).utf8ByteSize := by
    intro a c
    have hne : (String.ofList ('-' :: c)).utf8ByteSize ≠ 0 := by
      rw [Ne, String.utf8ByteSize_eq_zero_iff, ← String.toList_inj]
      simp
    rw [String.ofList_append, String.utf8ByteSize_append]
    omega
  have hlongest : ∀ rest : String, (splits '-' rest.toList).foldl keepLongest none =
      lastSplit safeParts '-' rest.toList := fun rest => foldl_keep_longest hsize _
  simp only [parseFileWorkItemID, hlongest]

theorem parseFileWorkItemID_safe {itemID : String} {p : String × String}
    (h : parseFileWorkItemID itemID server = some p) :
    safeID p.1 = true ∧ safeFileName p.2 = true := by
  rw [parseFileWorkItemID_eq] at h
  obtain ⟨rest, -, h⟩ := Option.bind_eq_some_iff.mp h
  obtain ⟨s, hs, rfl⟩ := Option.map_eq_some_iff.mp h
  have hsafe := (lastSplit_eq_some_iff.mp hs).2.1
  simpa only [safeParts, partsText, Bool.and_eq_true] using hsafe

theorem parseFileWorkItemID_own (server id filename : String) :
    parseFileWorkItemID (fileWorkItemID server id filename) server =
      (lastSplit safeParts '-' (id.toList ++ '-' :: filename.toList)).map partsText := by
  have href : fileWorkItemID server id filename = workItemID server (id ++ "-" ++ filename) := by
    simp only [fileWorkItemID, workItemID, String.append_assoc]
  have hrest : (id ++ "-" ++ filename).toList = id.toList ++ '-' :: filename.toList := by simp
  rw [parseFileWorkItemID_eq, href, docIDFromWorkItemID_workItemID, Option.bind_some, hrest]

theorem partsText_eq_iff {s : List Char × List Char} {id filename : String} :
    partsText s = (id, filename) ↔ s = (id.toList, filename.toList) := by
  obtain ⟨a, b⟩ := s
  simp [partsText, ← String.toList_inj]

theorem dotParts_eq (hid : id ≠ "") (b : List Char) :
    dotParts (id.toList, b) = safeParts (id.toList, b) := by
  have hne : id.toList ≠ [] := fun h => hid (String.toList_inj.mp (by simpa using h))
  simp [dotParts, hne]

theorem safeParts_eq_false_iff {id filename : String} :
    safeParts (id.toList, filename.toList) = false ↔
      ¬ (safeID id = true ∧ safeFileName filename = true) := by
  rw [safeParts, String.ofList_toList, String.ofList_toList, ← Bool.and_eq_true, Bool.not_eq_true]

theorem entryFileRef_parsed_back_iff (hid : validDocumentID id = true)
    (hf : safeFileName filename = true) :
    (∃ ref, entryFileRef server (server ++ "." ++ id ++ "." ++ filename ++ ".json") = some ref ∧
        parseFileWorkItemID ref server = some (id, filename)) ↔ Unambiguous id filename := by
  have hown := safeParts_own hid hf
  have hdid := DocumentId.of_valid hid
  have hdotted : dotParts (id.toList, filename.toList) = true := by
    rw [dotParts_eq hdid.nonempty, hown]
  have hlonger : ∀ a b : String, dotParts ((id ++ "." ++ a).toList, b.toList) = false ↔
      ¬ (safeID (id ++ "." ++ a) = true ∧ safeFileName b = true) := by
    intro a b
    rw [dotParts_eq, safeParts_eq_false_iff]
    exact fun h => by simpa using congrArg String.length h
  -- the last dot and the last hyphen are those after the id
  have hdot := @lastSplit_own_iff '.' _ _ _ hdotted
  have hhyphen := @lastSplit_own_iff '-' _ _ _ hown
  obtain ⟨s, hs⟩ : ∃ s, lastSplit dotParts '.' (id.toList ++ '.' :: filename.toList) = some s :=
    lastSplit_isSome hdotted
  have href : entryFileRef server (server ++ "." ++ id ++ "." ++ filename ++ ".json") =
      some (fileWorkItemID server (String.ofList s.1) (String.ofList s.2)) := by
    rw [entryFileRef, parsePendingFileWriteName_own hdid, hs]
    rfl
  have hparse : parseFileWorkItemID
      (fileWorkItemID server (String.ofList s.1) (String.ofList s.2)) server = some (id, filename) ↔
      lastSplit safeParts '-' (s.1 ++ '-' :: s.2) = some (id.toList, filename.toList) := by
    rw [parseFileWorkItemID_own, String.toList_ofList, String.toList_ofList, Option.map_eq_some_iff]
    simp [partsText_eq_iff]
  have hsame : lastSplit safeParts '-' (s.1 ++ '-' :: s.2) = some (id.toList, filename.toList) →
      s = (id.toList, filename.toList) := by
    intro h
    obtain ⟨ha, hb⟩ := eq_of_two_separators (by decide) (lastSplit_eq_some_iff.mp hs).1
      (lastSplit_eq_some_iff.mp h).1.symm
    exact Prod.ext ha hb
  constructor
  · rintro ⟨ref, hlisted, hback⟩
    rw [href] at hlisted
    obtain rfl := Option.some.inj hlisted
    have hlast := hparse.mp hback
    obtain rfl := hsame hlast
    exact ⟨fun a b hab => (hlonger a b).mp (hdot.mp hs a b hab),
      fun a b hab => safeParts_eq_false_iff.mp (hhyphen.mp hlast a b hab)⟩
  · intro h
    have hs' := hdot.mpr fun a b hab => (hlonger a b).mpr (h.dots a b hab)
    rw [hs] at hs'
    obtain rfl := Option.some.inj hs'
    exact ⟨_, href, hparse.mpr (hhyphen.mpr fun a b hab =>
      safeParts_eq_false_iff.mpr (h.hyphens a b hab))⟩
end

theorem pendingFileWritePath_eq_climb (dataDir : Path) (c : String) {server id filename : String}
    (hid : DocumentId id) (hf : '/' ∉ filename.toList) :
    pendingFileWritePath dataDir c server id filename =
      (pendingFileWritesDir dataDir c).climb server ++
        [lastComponent server ++ ("." ++ id ++ "." ++ filename ++ ".json")] := by
  have hname : server ++ "." ++ id ++ "." ++ filename ++ ".json" =
      server ++ ("." ++ id ++ "." ++ filename ++ ".json") := by
    simp only [String.append_assoc]
  rw [pendingFileWritePath, hname, Path.join_append]
  · simp [hid.noSlash, hf]
  · simp only [String.length_append]
    have hjson : ".json".length = 5 := rfl
    omega

theorem noSlash_of_entryFileRef {server name ref : String} (hname : '/' ∉ name.toList)
    (h : entryFileRef server name = some ref) : '/' ∉ server.toList := by
  obtain ⟨p, hp, -⟩ := Option.map_eq_some_iff.mp h
  obtain ⟨rest, hrest, -⟩ := Option.bind_eq_some_iff.mp hp
  unfold entryDocID at hrest
  split at hrest
  · rename_i hcond
    obtain ⟨tail, htail⟩ := List.isPrefixOf_iff_prefix.mp (Bool.and_eq_true _ _ ▸ hcond).2
    intro hslash
    apply hname
    rw [← htail]
    simp [hslash]
  · cases hrest

/-- The reference listed for a stored pending file write leads back to it exactly if the name of the
server is one path component, the file name has no other place where the id could end, and no
collection with a smaller name has a pending write for the same server, document and file. -/
theorem pending_file_reference_round_trip {ν : Type} {host : Host ν} {w : World ν} {dataDir : Path}
    {dirs : List String} {server id filename c : String} {item : FileWorkItem}
    (hid : validDocumentID id = true) (hf : safeFileName filename = true) (hc : CollectionName c)
    (hlists : Lists ((fileLane filename).slots dataDir server id w) dirs)
    (hstored : w.files (pendingFileWritePath dataDir c server id filename) =
      some (.json item.toJson)) :
    (∃ name ref,
        pendingFileWritePath dataDir c server id filename = pendingFileWritesDir dataDir c ++ [name] ∧
        entryFileRef server name = some ref ∧
        parseFileWorkItemID ref server = some (id, filename) ∧
        ((findPendingFileWrite dataDir (.ok dirs) server id filename).run (exec host .none) w).1 =
          .ok (c, item)) ↔
      '/' ∉ server.toList ∧ Unambiguous id filename ∧ ∀ c', CollectionName c' → c' < c →
          w.files (pendingFileWritePath dataDir c' server id filename) = none := by
  have hdid := DocumentId.of_valid hid
  have hplain := PlainName.of_safeFileName hf
  have hfind : ((findPendingFileWrite dataDir (.ok dirs) server id filename).run (exec host .none)
      w).1 = .ok (c, item) ↔ ∀ c', CollectionName c' → c' < c →
        w.files (pendingFileWritePath dataDir c' server id filename) = none :=
    (run_scanSlots_eq_ok dirs).trans (hlists.first_iff hc hstored (FileWorkItem.ofJson_toJson item))
  have hpath : pendingFileWritePath dataDir c server id filename = _ :=
    pendingFileWritePath_eq_climb dataDir c hdid hplain.noSlash
  constructor
  · rintro ⟨name, ref, hname, hlisted, hback, hfound⟩
    rw [hpath] at hname
    obtain ⟨-, hlast⟩ := List.append_inj' hname rfl
    obtain rfl := (List.cons.inj hlast).1
    have hslash : '/' ∉ server.toList := by
      refine noSlash_of_entryFileRef ?_ hlisted
      simp [lastComponent_noSlash, hdid.noSlash, hplain.noSlash]
    rw [lastComponent_eq_self_iff.mpr hslash] at hlisted
    refine ⟨hslash, ?_, hfind.mp hfound⟩
    exact (entryFileRef_parsed_back_iff hid hf).mp
      ⟨ref, by simpa only [String.append_assoc] using hlisted, hback⟩
  · rintro ⟨hslash, hclear, hfirst⟩
    obtain ⟨ref, hlisted, hback⟩ := (entryFileRef_parsed_back_iff hid hf).mpr hclear
    refine ⟨_, ref, ?_, hlisted, hback, hfind.mpr hfirst⟩
    rw [hpath, Path.climb_of_noSlash _ hslash, lastComponent_eq_self_iff.mpr hslash]
    simp only [String.append_assoc]

namespace Sample
def filePending (filename : String) : FileWorkItem :=
  { collection := "Movies", id := "alien", filename, contentType := "image/png", byteSize := 1,
    sha256 := "A", version := "v1", operationId := "op", command := .fileCreate }

def fileSlot (filename : String) : World Unit :=
  emptyWorld.put (pendingFileWritePath server.dataDir "Movies" "beta" "alien" filename)
    (some (.json (filePending filename).toJson))

theorem fileSlot_lists {filename : String} (hf : safeFileName filename = true) :
    Lists ((fileLane filename).slots server.dataDir "beta" "alien" (fileSlot filename))
      ["Movies"] where
  sorted := List.pairwise_singleton _ _
  named c hc := by
    rw [List.mem_singleton.mp hc]
    exact ⟨by decide, by decide⟩
  complete c hc hslot := by
    by_contra hne
    apply hslot
    have hid : DocumentId "alien" := Sample.alien_id
    have hfile := (PlainName.of_safeFileName hf).noSlash
    refine World.put_files_other _ ?_ _
    change pendingFileWritePath server.dataDir c "beta" "alien" filename ≠ _
    rw [pendingFileWritePath_eq hc.plain hid (by decide) hfile,
      pendingFileWritePath_eq (by decide) hid (by decide) hfile]
    simpa using hne

theorem poster_unambiguous : Unambiguous "alien" "poster" := by
  have hnone : ∀ sep ∈ ['.', '-'], sep ∉ "poster".toList := by simp
  have hchars : ∀ sep ∈ ['.', '-'], ∀ a b : String, "poster" ≠ a ++ String.singleton sep ++ b := by
    intro sep hsep a b h
    apply hnone sep hsep
    rw [h]
    simp
  exact ⟨fun a b h => absurd h (hchars '.' (by decide) a b),
    fun a b h => absurd h (hchars '-' (by decide) a b)⟩

theorem pending_poster_round_trip : ∃ name ref,
      pendingFileWritePath server.dataDir "Movies" "beta" "alien" "poster" =
        pendingFileWritesDir server.dataDir "Movies" ++ [name] ∧
      entryFileRef "beta" name = some ref ∧
      parseFileWorkItemID ref "beta" = some ("alien", "poster") ∧
      ((findPendingFileWrite server.dataDir (.ok ["Movies"]) "beta" "alien" "poster").run
        (exec host .none) (fileSlot "poster")).1 = .ok ("Movies", filePending "poster") := by
  refine (pending_file_reference_round_trip (by decide +kernel) (by decide +kernel)
    ⟨by decide, by decide⟩ (fileSlot_lists (by decide +kernel)) (World.put_files_same ..)).mpr
    ⟨by decide, poster_unambiguous, fun c' hc' hlt => ?_⟩
  have hid : DocumentId "alien" := Sample.alien_id
  refine World.put_files_other _ ?_ _
  rw [pendingFileWritePath_eq hc'.plain hid (by decide) (by decide),
    pendingFileWritePath_eq (by decide) hid (by decide) (by decide)]
  simpa using fun h => absurd (h ▸ hlt) (String.lt_irrefl _)

/-- A file name with a dot and a hyphen: both parsers cut it at the wrong place. -/
theorem pending_clip_reference_lost :
    '.' ∉ "beta".toList ∧ validDocumentID "alien" = true ∧ safeFileName "clip.final-cut" = true ∧
      (fileSlot "clip.final-cut").files
          (pendingFileWritesDir server.dataDir "Movies" ++ ["beta.alien.clip.final-cut.json"]) =
        some (.json (filePending "clip.final-cut").toJson) ∧
      entryFileRef "beta" "beta.alien.clip.final-cut.json" = some "beta-alien.clip-final-cut" ∧
      parseFileWorkItemID "beta-alien.clip-final-cut" "beta" = some ("alien.clip-final", "cut") ∧
      ((findPendingFileWrite server.dataDir (.ok ["Movies"]) "beta" "alien.clip-final" "cut").run
        (exec host .none) (fileSlot "clip.final-cut")).1 = .error .notExist := by
  refine ⟨by decide, by decide +kernel, by decide +kernel, ?_, by decide +kernel, by decide +kernel,
    ?_⟩
  · rfl
  · rfl
end Sample
end Datorium
