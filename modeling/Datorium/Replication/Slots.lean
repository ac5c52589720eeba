
import Datorium.Attachments.References
namespace Datorium
open Framework
def validServerName (name : String) : Bool := name != "" && !name.toList.any isSpace

structure SlotKey where
  server : String
  id : String
  filename : String
  deriving DecidableEq

structure SlotKey.Valid (k : SlotKey) : Prop where
  server : validServerName k.server = true
  id : validDocumentID k.id = true
  filename : safeFileName k.filename = true

/-- The end `c` of the second left part is the start of the first right part. -/
def DotShift (a b a' b' : String) : Prop := ∃ c, a' = a ++ "." ++ c ∧ b = c ++ "." ++ b'

theorem shifted_toList_iff {a b a' b' : String} :
    Shifted '.' a.toList b.toList a'.toList b'.toList ↔ DotShift a b a' b' := by
  constructor
  · rintro ⟨c, ha, hb⟩
    exact ⟨String.ofList c, String.toList_inj.mp (by simpa using ha),
      String.toList_inj.mp (by simpa using hb)⟩
  · rintro ⟨c, rfl, rfl⟩
    exact ⟨c.toList, by simp, by simp⟩

theorem dotted_eq_iff {a b a' b' : String} : a ++ "." ++ b = a' ++ "." ++ b' ↔
      (a = a' ∧ b = b') ∨ DotShift a b a' b' ∨ DotShift a' b' a b := by
  have hlist : a ++ "." ++ b = a' ++ "." ++ b' ↔
      a.toList ++ '.' :: b.toList = a'.toList ++ '.' :: b'.toList := by
    rw [← String.toList_inj]
    simp
  rw [hlist, append_sep_eq_iff, shifted_toList_iff, shifted_toList_iff, String.toList_inj,
    String.toList_inj]

theorem not_dotShift_of_dotless {a b a' b' : String} (h : '.' ∉ a'.toList) :
    ¬ DotShift a b a' b' := by
  rw [← shifted_toList_iff]
  exact not_shifted_of_not_mem h

section
variable {dir : Path} {s s' d d' : String}
theorem join_dotted (dir : Path) (s : String) {d : String} (hd : '/' ∉ d.toList) :
    dir.join (s ++ "." ++ d ++ ".json") =
      dir.climb s ++ [lastComponent s ++ "." ++ d ++ ".json"] := by
  have hname : ∀ t : String, t ++ "." ++ d ++ ".json" = t ++ ("." ++ d ++ ".json") := by
    simp only [String.append_assoc, implies_true]
  rw [hname, hname, Path.join_append]
  · simp [hd]
  · simp only [String.length_append]
    have hjson : ".json".length = 5 := rfl
    omega

theorem join_dotted_eq_iff (hd : '/' ∉ d.toList) (hd' : '/' ∉ d'.toList) :
    dir.join (s ++ "." ++ d ++ ".json") = dir.join (s' ++ "." ++ d' ++ ".json") ↔
      dir.climb s = dir.climb s' ∧ ((lastComponent s = lastComponent s' ∧ d = d') ∨
          DotShift (lastComponent s) d (lastComponent s') d' ∨
          DotShift (lastComponent s') d' (lastComponent s) d) := by
  rw [join_dotted dir s hd, join_dotted dir s' hd', List.append_singleton_inj, ← dotted_eq_iff,
    String.append_left_inj]

/-- What a listing for `s` sees of an entry: the part after the server name, or `json` if the server
name is all there is. -/
theorem entryDocID_json_eq_some_iff {x rest : String} :
    entryDocID s (x ++ ".json") = some rest ↔ x = s ++ "." ++ rest ∨ (x = s ∧ rest = "json") := by
  -- an entry that is the server name and `.json`
  have hbare : entryDocID s (s ++ ".json") = some "json" := by
    have hname : (s ++ ".json").toList = (s ++ ".").toList ++ "json".toList := by simp
    have hsuffix : ".json".toList.isSuffixOf (s ++ ".json").toList = true := by
      rw [List.isSuffixOf_iff_suffix, String.toList_append]
      exact List.suffix_append _ _
    have hlead : (s ++ ".").toList.isPrefixOf (s ++ ".json").toList = true := by
      rw [List.isPrefixOf_iff_prefix, hname]
      exact List.prefix_append _ _
    rw [entryDocID, hsuffix, hlead, Bool.and_self, if_pos rfl, hname, List.drop_left]
    rfl
  constructor
  · intro h
    have hcond := h
    unfold entryDocID at hcond
    split at hcond
    · rename_i hlead
      obtain ⟨tail, htail⟩ := List.isPrefixOf_iff_prefix.mp (Bool.and_eq_true _ _ ▸ hlead).2
      have hword : s ++ "." ++ String.ofList tail = x ++ "." ++ "json" := by
        apply String.toList_inj.mp
        simpa using htail
      rcases dotted_eq_iff.mp hword with ⟨rfl, -⟩ | ⟨c, rfl, -⟩ | ⟨c, -, hc⟩
      · rw [hbare] at h
        exact .inr ⟨rfl, (Option.some.inj h).symm⟩
      · rw [entryDocID_own] at h
        rw [Option.some.inj h]
        exact .inl rfl
      · have hdot : '.' ∈ "json".toList := by
          rw [hc]
          simp
        exact absurd hdot (by decide)
    · cases hcond
  · rintro (rfl | ⟨rfl, rfl⟩)
    · exact entryDocID_own s rest
    · exact hbare

theorem entryDocID_json_eq_none_iff {x : String} :
    entryDocID s (x ++ ".json") = none ↔ (∀ a, s ++ "." ++ a ≠ x) ∧ s ≠ x := by
  rw [Option.eq_none_iff_forall_ne_some]
  constructor
  · intro h
    exact ⟨fun a ha => h a (entryDocID_json_eq_some_iff.mpr (.inl ha.symm)),
      fun hx => h "json" (entryDocID_json_eq_some_iff.mpr (.inr ⟨hx.symm, rfl⟩))⟩
  · rintro ⟨hlonger, hbare⟩ rest h
    rcases entryDocID_json_eq_some_iff.mp h with hx | ⟨hx, -⟩
    · exact hlonger rest hx.symm
    · exact hbare hx.symm

theorem entryFileRef_json_eq_none_iff {x : String} :
    entryFileRef s (x ++ ".json") = none ↔ ∀ a b, s ++ "." ++ a ++ "." ++ b = x →
      ¬ (safeID a = true ∧ safeFileName b = true) := by
  rw [entryFileRef, Option.map_eq_none_iff]
  constructor
  · rintro h a b rfl ⟨ha, hb⟩
    have hid := DocumentId.of_valid (valid_of_safeID ha)
    have hparts : dotParts (a.toList, b.toList) = true := by
      rw [dotParts_eq hid.nonempty, safeParts_own (valid_of_safeID ha) hb]
    obtain ⟨p, hp⟩ : ∃ p, lastSplit dotParts '.' (a.toList ++ '.' :: b.toList) = some p :=
      lastSplit_isSome hparts
    rw [parsePendingFileWriteName_own hid, hp] at h
    cases h
  · intro h
    rw [Option.eq_none_iff_forall_ne_some]
    intro p hp
    obtain ⟨hrest, hsafe⟩ := parsePendingFileWriteName_eq_some hp
    rcases entryDocID_json_eq_some_iff.mp hrest with hx | ⟨-, hjson⟩
    · refine h p.1 p.2 ?_ hsafe
      rw [hx]
      simp only [String.append_assoc]
    · have hdot : '.' ∈ "json".toList := by
        rw [← hjson]
        simp
      exact absurd hdot (by decide)
end

/-- Two server names with a rest each have different files unless they are the same. -/
structure NamesApart (dir : Path) (s d s' d' : String) : Prop where
  spelling : dir.climb s = dir.climb s' → lastComponent s = lastComponent s' → d = d' → s = s'
  longer : dir.climb s = dir.climb s' → ¬ DotShift (lastComponent s) d (lastComponent s') d'
  shorter : dir.climb s = dir.climb s' → ¬ DotShift (lastComponent s') d' (lastComponent s) d

/-- The server name `s` does not begin the file of another server's work. -/
def Unlisted (dir : Path) (s s' d' : String) : Prop :=
  s ≠ s' → dir.climb s' = dir →
    (∀ a, s ++ "." ++ a ≠ lastComponent s' ++ "." ++ d') ∧ s ≠ lastComponent s' ++ "." ++ d'

structure KeysApart (dataDir : Path) (c : String) (k k' : SlotKey) : Prop where
  document : NamesApart (pendingWritesDir dataDir c) k.server k.id k'.server k'.id
  cache : NamesApart (pendingCacheUpdatesDir dataDir c) k.server k.id k'.server k'.id
  file : NamesApart (pendingFileWritesDir dataDir c) k.server (k.id ++ "." ++ k.filename)
    k'.server (k'.id ++ "." ++ k'.filename)
  longerId : (pendingFileWritesDir dataDir c).climb k.server =
      (pendingFileWritesDir dataDir c).climb k'.server →
    lastComponent k.server = lastComponent k'.server → ¬ DotShift k.id k.filename k'.id k'.filename
  shorterId : (pendingFileWritesDir dataDir c).climb k.server =
      (pendingFileWritesDir dataDir c).climb k'.server →
    lastComponent k.server = lastComponent k'.server → ¬ DotShift k'.id k'.filename k.id k.filename
  documentUnlisted : Unlisted (pendingWritesDir dataDir c) k.server k'.server k'.id
  cacheUnlisted : Unlisted (pendingCacheUpdatesDir dataDir c) k.server k'.server k'.id
  fileUnlisted : k.server ≠ k'.server →
    (pendingFileWritesDir dataDir c).climb k'.server = pendingFileWritesDir dataDir c →
    ∀ a b, k.server ++ "." ++ a ++ "." ++ b =
      lastComponent k'.server ++ "." ++ (k'.id ++ "." ++ k'.filename) →
      ¬ (safeID a = true ∧ safeFileName b = true)

/-- Two keys have different files, and the work of the second is not listed for the server of the
first if it is another one. -/
structure Separate (dataDir : Path) (c : String) (k k' : SlotKey) : Prop where
  document : pendingWritePath dataDir c k.server k.id = pendingWritePath dataDir c k'.server k'.id →
    k.server = k'.server ∧ k.id = k'.id
  cache : pendingCacheUpdatePath dataDir c k.server k.id =
      pendingCacheUpdatePath dataDir c k'.server k'.id →
    k.server = k'.server ∧ k.id = k'.id
  file : pendingFileWritePath dataDir c k.server k.id k.filename =
      pendingFileWritePath dataDir c k'.server k'.id k'.filename → k = k'
  documentListing : k.server ≠ k'.server → ∀ name,
    pendingWritePath dataDir c k'.server k'.id = pendingWritesDir dataDir c ++ [name] →
      listPendingWorkItemIDs (.ok [c]) (fun _ => .ok [name]) k.server 0 = .ok ([], 0)
  cacheListing : k.server ≠ k'.server → ∀ name,
    pendingCacheUpdatePath dataDir c k'.server k'.id = pendingCacheUpdatesDir dataDir c ++ [name] →
      listWorkItemIDs (.ok [c]) (fun _ => .ok [name]) k.server 0 = .ok ([], 0)
  fileListing : k.server ≠ k'.server → ∀ name,
    pendingFileWritePath dataDir c k'.server k'.id k'.filename =
        pendingFileWritesDir dataDir c ++ [name] →
      listPendingFileWorkItemIDs (.ok [c]) (fun _ => .ok [name]) k.server 0 = .ok ([], 0)

section
variable {dir : Path} {s s' d d' : String}
theorem not_dotShift_self (a b : String) : ¬ DotShift a b a b := by
  rintro ⟨c, ha, -⟩
  have hlen := congrArg String.length ha
  have hdot : ".".length = 1 := rfl
  simp only [String.length_append] at hlen
  omega

theorem join_injective_iff (hd : '/' ∉ d.toList) (hd' : '/' ∉ d'.toList) :
    (dir.join (s ++ "." ++ d ++ ".json") = dir.join (s' ++ "." ++ d' ++ ".json") →
        s = s' ∧ d = d') ↔ NamesApart dir s d s' d' := by
  rw [join_dotted_eq_iff hd hd']
  constructor
  · intro h
    refine ⟨fun hdir hlast hrest => (h ⟨hdir, .inl ⟨hlast, hrest⟩⟩).1, fun hdir hshift => ?_,
      fun hdir hshift => ?_⟩
    · obtain ⟨rfl, rfl⟩ := h ⟨hdir, .inr (.inl hshift)⟩
      exact not_dotShift_self _ _ hshift
    · obtain ⟨rfl, rfl⟩ := h ⟨hdir, .inr (.inr hshift)⟩
      exact not_dotShift_self _ _ hshift
  · rintro h ⟨hdir, ⟨hlast, hrest⟩ | hshift | hshift⟩
    · exact ⟨h.spelling hdir hlast hrest, hrest⟩
    · exact absurd hshift (h.longer hdir)
    · exact absurd hshift (h.shorter hdir)

theorem listRefs_single_eq_nil_iff {ref : String → Option String} {c name : String} :
    listRefs ref (.ok [c]) (fun _ => .ok [name]) 0 = .ok ([], 0) ↔ ref name = none := by
  cases h : ref name <;> simp [listRefs, collectRefsBy, truncate, h]

theorem listing_iff {ref : String → Option String} (c : String) (hd' : '/' ∉ d'.toList) :
    (∀ name, dir.join (s' ++ "." ++ d' ++ ".json") = dir ++ [name] →
        listRefs ref (.ok [c]) (fun _ => .ok [name]) 0 = .ok ([], 0)) ↔
      (dir.climb s' = dir → ref (lastComponent s' ++ "." ++ d' ++ ".json") = none) := by
  rw [join_dotted dir s' hd']
  constructor
  · intro h hdir
    exact listRefs_single_eq_nil_iff.mp (h _ (by rw [hdir]))
  · intro h name hname
    obtain ⟨hdir, hlast⟩ := List.append_inj' hname rfl
    rw [← (List.cons.inj hlast).1]
    exact listRefs_single_eq_nil_iff.mpr (h hdir)

theorem unlisted_iff (c : String) (hd' : '/' ∉ d'.toList) :
    (s ≠ s' → ∀ name, dir.join (s' ++ "." ++ d' ++ ".json") = dir ++ [name] →
        listRefs (fun name => (entryDocID s name).map (workItemID s)) (.ok [c])
          (fun _ => .ok [name]) 0 = .ok ([], 0)) ↔ Unlisted dir s s' d' := by
  refine imp_congr_right fun _ => (listing_iff c hd').trans (imp_congr_right fun _ => ?_)
  rw [Option.map_eq_none_iff, entryDocID_json_eq_none_iff]
end

theorem pendingFileWritePath_eq_dotted (dataDir : Path) (c : String) (k : SlotKey) :
    pendingFileWritePath dataDir c k.server k.id k.filename = (pendingFileWritesDir dataDir c).join
        (k.server ++ "." ++ (k.id ++ "." ++ k.filename) ++ ".json") := by
  simp only [pendingFileWritePath, String.append_assoc]

theorem rest_noSlash {id filename : String} (hid : validDocumentID id = true)
    (hf : safeFileName filename = true) : '/' ∉ (id ++ "." ++ filename).toList := by
  simp [(DocumentId.of_valid hid).noSlash, (PlainName.of_safeFileName hf).noSlash]

theorem SlotKey.Valid.rest_noSlash {k : SlotKey} (hk : k.Valid) :
    '/' ∉ (k.id ++ "." ++ k.filename).toList :=
  Datorium.rest_noSlash hk.id hk.filename

theorem file_slots_iff {dataDir : Path} {c : String} {k k' : SlotKey} (hk : k.Valid)
    (hk' : k'.Valid) :
    (pendingFileWritePath dataDir c k.server k.id k.filename =
        pendingFileWritePath dataDir c k'.server k'.id k'.filename → k = k') ↔
      NamesApart (pendingFileWritesDir dataDir c) k.server (k.id ++ "." ++ k.filename) k'.server
          (k'.id ++ "." ++ k'.filename) ∧
        ((pendingFileWritesDir dataDir c).climb k.server =
            (pendingFileWritesDir dataDir c).climb k'.server →
          lastComponent k.server = lastComponent k'.server →
          ¬ DotShift k.id k.filename k'.id k'.filename ∧
            ¬ DotShift k'.id k'.filename k.id k.filename) := by
  rw [pendingFileWritePath_eq_dotted, pendingFileWritePath_eq_dotted,
    ← join_injective_iff hk.rest_noSlash hk'.rest_noSlash]
  constructor
  · intro h
    refine ⟨fun hjoin => ?_, fun hdir hlast => ?_⟩
    · obtain rfl := h hjoin
      exact ⟨rfl, rfl⟩
    · have hsame : k.id ++ "." ++ k.filename = k'.id ++ "." ++ k'.filename → k = k' := fun hrest =>
        h ((join_dotted_eq_iff hk.rest_noSlash hk'.rest_noSlash).mpr ⟨hdir, .inl ⟨hlast, hrest⟩⟩)
      constructor
      · intro hshift
        obtain rfl := hsame (dotted_eq_iff.mpr (.inr (.inl hshift)))
        exact not_dotShift_self _ _ hshift
      · intro hshift
        obtain rfl := hsame (dotted_eq_iff.mpr (.inr (.inr hshift)))
        exact not_dotShift_self _ _ hshift
  · rintro ⟨hnames, hids⟩ hjoin
    obtain ⟨hserver, hrest⟩ := hnames hjoin
    have hapart := hids (by rw [hserver]) (by rw [hserver])
    rcases dotted_eq_iff.mp hrest with ⟨hid, hfile⟩ | hshift | hshift
    · cases k
      cases k'
      simp only at hserver hid hfile
      rw [hserver, hid, hfile]
    · exact absurd hshift hapart.1
    · exact absurd hshift hapart.2

/-- The pending slots of two keys are separate exactly if the keys are kept apart. -/
theorem pending_slots_separate_iff {dataDir : Path} {c : String} {k k' : SlotKey} (hk : k.Valid)
    (hk' : k'.Valid) : Separate dataDir c k k' ↔ KeysApart dataDir c k k' := by
  have hid := (DocumentId.of_valid hk.id).noSlash
  have hid' := (DocumentId.of_valid hk'.id).noSlash
  have hfiles := @file_slots_iff dataDir c _ _ hk hk'
  have hfileListing := @listing_iff (pendingFileWritesDir dataDir c) k'.server _
    (entryFileRef k.server) c hk'.rest_noSlash
  rw [← pendingFileWritePath_eq_dotted, entryFileRef_json_eq_none_iff] at hfileListing
  constructor
  · intro h
    exact
      { document := (join_injective_iff hid hid').mp h.document
        cache := (join_injective_iff hid hid').mp h.cache
        file := (hfiles.mp h.file).1
        longerId := fun hdir hlast => ((hfiles.mp h.file).2 hdir hlast).1
        shorterId := fun hdir hlast => ((hfiles.mp h.file).2 hdir hlast).2
        documentUnlisted := (unlisted_iff c hid').mp h.documentListing
        cacheUnlisted := (unlisted_iff c hid').mp h.cacheListing
        fileUnlisted := fun hne => hfileListing.mp (h.fileListing hne) }
  · intro h
    exact
      { document := (join_injective_iff hid hid').mpr h.document
        cache := (join_injective_iff hid hid').mpr h.cache
        file := hfiles.mpr
          ⟨h.file, fun hdir hlast => ⟨h.longerId hdir hlast, h.shorterId hdir hlast⟩⟩
        documentListing := (unlisted_iff c hid').mpr h.documentUnlisted
        cacheListing := (unlisted_iff c hid').mpr h.cacheUnlisted
        fileListing := fun hne => hfileListing.mpr (h.fileUnlisted hne) }

structure SlotKey.Dotless (k : SlotKey) : Prop where
  serverSlash : '/' ∉ k.server.toList
  serverDot : '.' ∉ k.server.toList
  idDot : '.' ∉ k.id.toList

section
variable {dir : Path} {s s' : String}
theorem namesApart_of_dotless (hs : '/' ∉ s.toList) (hs' : '/' ∉ s'.toList) (hdot : '.' ∉ s.toList)
    (hdot' : '.' ∉ s'.toList) (d d' : String) : NamesApart dir s d s' d' where
  spelling := by
    rw [lastComponent_eq_self_iff.mpr hs, lastComponent_eq_self_iff.mpr hs']
    exact fun _ h _ => h
  longer := by
    rw [lastComponent_eq_self_iff.mpr hs, lastComponent_eq_self_iff.mpr hs']
    exact fun _ => not_dotShift_of_dotless hdot'
  shorter := by
    rw [lastComponent_eq_self_iff.mpr hs, lastComponent_eq_self_iff.mpr hs']
    exact fun _ => not_dotShift_of_dotless hdot

theorem dotless_ne (hne : s ≠ s') (hdot : '.' ∉ s.toList) (hdot' : '.' ∉ s'.toList)
    (a d' : String) : s ++ "." ++ a ≠ s' ++ "." ++ d' := by
  intro h
  rcases dotted_eq_iff.mp h with ⟨heq, -⟩ | hshift | hshift
  · exact hne heq
  · exact not_dotShift_of_dotless hdot' hshift
  · exact not_dotShift_of_dotless hdot hshift

theorem unlisted_of_dotless (hs' : '/' ∉ s'.toList) (hdot : '.' ∉ s.toList)
    (hdot' : '.' ∉ s'.toList) (d' : String) : Unlisted dir s s' d' := by
  intro hne _
  rw [lastComponent_eq_self_iff.mpr hs']
  refine ⟨fun a => dotless_ne hne hdot hdot' a d', fun h => hdot ?_⟩
  rw [h]
  simp
end

theorem KeysApart.of_dotless (dataDir : Path) (c : String) {k k' : SlotKey} (hk : k.Dotless)
    (hk' : k'.Dotless) : KeysApart dataDir c k k' where
  document := namesApart_of_dotless hk.1 hk'.1 hk.2 hk'.2 _ _
  cache := namesApart_of_dotless hk.1 hk'.1 hk.2 hk'.2 _ _
  file := namesApart_of_dotless hk.1 hk'.1 hk.2 hk'.2 _ _
  longerId _ _ := not_dotShift_of_dotless hk'.3
  shorterId _ _ := not_dotShift_of_dotless hk.3
  documentUnlisted := unlisted_of_dotless hk'.1 hk.2 hk'.2 _
  cacheUnlisted := unlisted_of_dotless hk'.1 hk.2 hk'.2 _
  fileUnlisted hne _ a b h := by
    rw [lastComponent_eq_self_iff.mpr hk'.1] at h
    refine absurd ?_ (dotless_ne hne hk.2 hk'.2 (a ++ "." ++ b) (k'.id ++ "." ++ k'.filename))
    rw [← h]
    simp only [String.append_assoc]

namespace Sample
theorem pending_slots_separate_members :
    Separate server.dataDir "Movies" ⟨"beta", "alien", "poster.png"⟩
      ⟨"gamma", "alien", "poster.png"⟩ :=
  (pending_slots_separate_iff ⟨by decide +kernel, by decide +kernel, by decide +kernel⟩
    ⟨by decide +kernel, by decide +kernel, by decide +kernel⟩).mpr
    (.of_dotless _ _ ⟨by decide, by decide, by decide⟩ ⟨by decide, by decide, by decide⟩)

/-- Servers `eu` and `eu.west` share slots, one server has one slot for two files, and `eu` is shown
the work of `eu.west`. -/
theorem pending_slots_shared :
    (SlotKey.Valid ⟨"eu.west", "alien", "poster"⟩ ∧ SlotKey.Valid ⟨"eu", "west.alien", "poster"⟩ ∧
      pendingWritePath server.dataDir "Movies" "eu.west" "alien" =
        pendingWritePath server.dataDir "Movies" "eu" "west.alien" ∧
      pendingCacheUpdatePath server.dataDir "Movies" "eu.west" "alien" =
        pendingCacheUpdatePath server.dataDir "Movies" "eu" "west.alien") ∧
    (SlotKey.Valid ⟨"beta", "alien", "cut.mp4"⟩ ∧ SlotKey.Valid ⟨"beta", "alien.cut", "mp4"⟩ ∧
      pendingFileWritePath server.dataDir "Movies" "beta" "alien" "cut.mp4" =
        pendingFileWritePath server.dataDir "Movies" "beta" "alien.cut" "mp4") ∧
    (pendingWritePath server.dataDir "Movies" "eu.west" "alien" =
        pendingWritesDir server.dataDir "Movies" ++ ["eu.west.alien.json"] ∧
      listPendingWorkItemIDs (.ok ["Movies"]) (fun _ => .ok ["eu.west.alien.json"]) "eu" 0 =
        .ok (["eu-west.alien"], 1)) := by
  refine ⟨⟨⟨?_, ?_, ?_⟩, ⟨?_, ?_, ?_⟩, ?_, ?_⟩, ⟨⟨?_, ?_, ?_⟩, ⟨?_, ?_, ?_⟩, ?_⟩, ?_, ?_⟩ <;>
    first
      | rfl
      | decide +kernel
end Sample
end Datorium
