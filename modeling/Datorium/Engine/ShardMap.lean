
import Datorium.Engine.StoredDocument
import Datorium.Framework.Marking
namespace Datorium
open Framework List
/-- The texts of `parseSlot`; `quote` is the verb `%q`. -/
def slotError (quote : String → String) (raw : List Char) : String :=
  let slot := quote (String.ofList (trimSpace raw))
  if (trimSpace raw).length = 0 ∨ 2 < (String.ofList (trimSpace raw)).utf8ByteSize then
    "invalid shard slot " ++ slot
  else "invalid shard slot " ++ slot ++ ": strconv.ParseUint: parsing " ++ slot ++
    ": invalid syntax"

def parseSlotE (quote : String → String) (raw : List Char) : Except String Nat :=
  match parseSlot raw with
  | some slot => .ok slot
  | none => .error (slotError quote raw)

def parseRangeE (quote : String → String) (raw : String) : Except String (Nat × Nat) :=
  let trimmed := trimSpace raw.toList
  if trimmed = [] then .error "empty shard range"
  else
    match trimmed.splitOn '-' with
    | [single] => (parseSlotE quote single).map fun s => (s, s)
    | [first, last] => do
        let start ← parseSlotE quote first
        let stop ← parseSlotE quote last
        if stop < start then
          .error ("shard range start after end: " ++ quote (String.ofList trimmed))
        else return (start, stop)
    | _ => .error ("invalid shard range " ++ quote (String.ofList trimmed))

def rangeContains (r : Nat × Nat) (slot : Nat) : Bool := r.1 ≤ slot && slot ≤ r.2

def rangeSlots (r : Nat × Nat) : List Nat := range' r.1 (r.2 + 1 - r.1)

def hexDigitChar (n : Nat) : Char :=
  if n < 10 then Char.ofNat ('0'.toNat + n) else Char.ofNat ('A'.toNat + (n - 10))

def hexSlot (slot : Nat) : String := String.ofList [hexDigitChar (slot / 16), hexDigitChar (slot % 16)]

def validateFullCoverage (ranges : List (Nat × Nat)) : Except String Unit :=
  match ranges.foldlM (fun covered r => (rangeSlots r).foldlM mark covered) fun _ => false with
  | .error slot => .error ("overlapping shard slot " ++ hexSlot slot)
  | .ok covered =>
    match (range 256).find? fun slot => !covered slot with
    | some slot => .error ("incomplete shard map: missing slot " ++ hexSlot slot)
    | none => .ok ()

inductive ConfigErrorCode where
  | incompleteShardMap
  | overlappingShardRanges
  | invalidShardRange
  | unknownServerReference
  deriving DecidableEq, Repr

structure ConfigError where
  code : ConfigErrorCode
  path : String
  message : String
  actual : String := ""
  deriving DecidableEq

def containsText (text part : String) : Bool :=
  text.toList.tails.any fun tail => part.toList.isPrefixOf tail

def unknownServer (raw role name : String) : ConfigError :=
  { code := .unknownServerReference, path := "/shardMap/default/" ++ raw ++ "/" ++ role,
    message := "unknown server", actual := name }

def sotErrors (servers : List String) (raw name : String) : List ConfigError :=
  if name = "" then
    [{ code := .unknownServerReference,
       path := "/shardMap/default/" ++ raw ++ "/SHARD_SOT_MEMBER",
       message := "SHARD_SOT_MEMBER is required" }]
  else if name ∈ servers then []
  else [unknownServer raw "SHARD_SOT_MEMBER" name]

def memberErrors (servers : List String) (raw role : String) (names : List String) :
    List ConfigError :=
  (names.filter fun name => name ∉ servers).map (unknownServer raw role)

def validateEntry (quote : String → String) (servers : List String)
    (acc : List ConfigError × List (Nat × Nat)) (entry : String × ShardAssignment) :
    List ConfigError × List (Nat × Nat) :=
  match parseRangeE quote entry.1 with
  | .error message =>
    (acc.1 ++ [{ code := .invalidShardRange, path := "/shardMap/default/" ++ entry.1, message }],
      acc.2)
  | .ok r =>
    (acc.1 ++ sotErrors servers entry.1 entry.2.shardSOTMember ++
      memberErrors servers entry.1 "SHARD_READ_MEMBER" entry.2.shardReadMember ++
      memberErrors servers entry.1 "PROXY_READ_MEMBER" entry.2.proxyReadMember, acc.2 ++ [r])

def coverageErrors (ranges : List (Nat × Nat)) : List ConfigError :=
  match validateFullCoverage ranges with
  | .ok () => []
  | .error message =>
    [{ code := if containsText message "overlap" then .overlappingShardRanges
        else .incompleteShardMap,
       path := "/shardMap/default", message }]

/-- `ValidateShardMapBody`: the map in the order in which it is traversed, and the names of the
known servers. -/
def validateShardMapBody (quote : String → String)
    (body : Option (List (String × ShardAssignment))) (servers : List String) :
    List ConfigError :=
  match body with
  | none =>
    [{ code := .incompleteShardMap, path := "/shardMap/default",
       message := "shardMap.default is required" }]
  | some entries =>
    let acc := entries.foldl (validateEntry quote servers) ([], [])
    acc.1 ++ coverageErrors acc.2

def covers (slot : UInt8) (entry : String × ShardAssignment) : Bool :=
  match parseRange entry.1 with
  | none => false
  | some r => rangeContains r slot.toNat

namespace Config
def slotAssignment (cfg : Config) (slot : UInt8) : ShardAssignment × Bool :=
  match cfg.shardMap.find? (covers slot) with
  | none => (⟨"", [], []⟩, false)
  | some entry => (entry.2, true)

def relevantSOTServers (cfg : Config) (serverName : String) : List String :=
  ((cfg.shardMap.filter fun entry =>
      entry.2.shardSOTMember ≠ "" ∧ entry.2.shardSOTMember ≠ serverName ∧
        (serverName ∈ entry.2.shardReadMember ∨ serverName ∈ entry.2.proxyReadMember)).map
    fun entry => entry.2.shardSOTMember).eraseDups
end Config

theorem hexDigit_lt {c : Char} {n : Nat} (h : hexDigit c = some n) : n < 16 := by
  unfold hexDigit at h
  split at h
  · rename_i hc
    have h9 : c.toNat ≤ '9'.toNat := hc.2
    cases h
    have h0 : '0'.toNat = 48 := rfl
    have h9' : '9'.toNat = 57 := rfl
    omega
  · split at h
    · rename_i hc
      have hf : c.toNat ≤ 'f'.toNat := hc.2
      cases h
      have ha : 'a'.toNat = 97 := rfl
      have hf' : 'f'.toNat = 102 := rfl
      omega
    · split at h
      · rename_i hc
        have hf : c.toNat ≤ 'F'.toNat := hc.2
        cases h
        have ha : 'A'.toNat = 65 := rfl
        have hf' : 'F'.toNat = 70 := rfl
        omega
      · cases h

theorem parseSlot_lt {raw : List Char} {slot : Nat} (h : parseSlot raw = some slot) :
    slot < 256 := by
  unfold parseSlot at h
  split at h
  · exact Nat.lt_of_lt_of_le (hexDigit_lt h) (by decide)
  · simp only [Option.bind_eq_bind, Option.bind_eq_some_iff] at h
    obtain ⟨high, hhigh, low, hlow, heq⟩ := h
    obtain rfl := Option.some.inj heq
    have := hexDigit_lt hhigh
    have := hexDigit_lt hlow
    omega
  · cases h

theorem parseRange_bounds {raw : String} {r : Nat × Nat} (h : parseRange raw = some r) :
    r.1 ≤ r.2 ∧ r.2 < 256 := by
  unfold parseRange at h
  split at h
  · obtain ⟨slot, hslot, rfl⟩ := Option.map_eq_some_iff.mp h
    exact ⟨Nat.le_refl _, parseSlot_lt hslot⟩
  · simp only [Option.bind_eq_bind, Option.bind_eq_some_iff] at h
    obtain ⟨start, hstart, stop, hstop, heq⟩ := h
    split at heq
    · cases heq
    · obtain rfl := Option.some.inj heq
      exact ⟨by simpa using ‹¬ stop < start›, parseSlot_lt hstop⟩
  · cases h

theorem parseSlotE_toOption (quote : String → String) (raw : List Char) :
    (parseSlotE quote raw).toOption = parseSlot raw := by
  unfold parseSlotE
  cases parseSlot raw <;> rfl

theorem parseRangeE_toOption (quote : String → String) (raw : String) :
    (parseRangeE quote raw).toOption = parseRange raw := by
  unfold parseRangeE parseRange
  by_cases hempty : trimSpace raw.toList = []
  · simp only [hempty, if_true]
    rfl
  · simp only [hempty, if_false]
    generalize (trimSpace raw.toList).splitOn '-' = parts
    rcases parts with _ | ⟨first, _ | ⟨last, _ | ⟨_, _⟩⟩⟩
    · rfl
    · dsimp only
      rw [← parseSlotE_toOption quote first]
      cases parseSlotE quote first <;> rfl
    · dsimp only
      rw [← parseSlotE_toOption quote first, ← parseSlotE_toOption quote last]
      cases parseSlotE quote first with
      | error _ => rfl
      | ok start =>
        cases parseSlotE quote last with
        | error _ => rfl
        | ok stop =>
          by_cases horder : stop < start
          · simp [horder, Except.toOption, bind, Except.bind]
          · simp [horder, Except.toOption, bind, Except.bind, pure, Except.pure]
    · rfl

theorem mem_rangeSlots {r : Nat × Nat} {slot : Nat} :
    slot ∈ rangeSlots r ↔ rangeContains r slot = true := by
  simp only [rangeSlots, mem_range'_1, rangeContains, Bool.and_eq_true, decide_eq_true_eq]
  omega

theorem count_rangeSlots (r : Nat × Nat) (slot : Nat) :
    (rangeSlots r).count slot = if rangeContains r slot then 1 else 0 := by
  have hnodup : (rangeSlots r).Nodup := nodup_range'
  split
  · rename_i h
    exact count_eq_one_of_mem hnodup (mem_rangeSlots.mpr h)
  · rename_i h
    exact count_eq_zero_of_not_mem fun hmem => h (mem_rangeSlots.mp hmem)

theorem count_slots (ranges : List (Nat × Nat)) (slot : Nat) :
    (ranges.flatMap rangeSlots).count slot = ranges.countP fun r => rangeContains r slot := by
  induction ranges with
  | nil => rfl
  | cons r ranges ih =>
    rw [flatMap_cons, count_append, count_rangeSlots, ih, countP_cons]
    omega

theorem validateFullCoverage_eq_ok {ranges : List (Nat × Nat)} (hbound : ∀ r ∈ ranges, r.2 < 256) :
    validateFullCoverage ranges = .ok () ↔
      ∀ slot < 256, (ranges.countP fun r => rangeContains r slot) = 1 := by
  have hrange : ∀ slot ∈ ranges.flatMap rangeSlots, slot < 256 := by
    intro slot hslot
    obtain ⟨r, hr, hmem⟩ := mem_flatMap.mp hslot
    have hcontains := mem_rangeSlots.mp hmem
    simp only [rangeContains, Bool.and_eq_true, decide_eq_true_eq] at hcontains
    exact Nat.lt_of_le_of_lt hcontains.2 (hbound r hr)
  have hloop : ranges.foldlM (fun covered r => (rangeSlots r).foldlM mark covered)
      (fun _ => false) = (ranges.flatMap rangeSlots).foldlM mark fun _ => false :=
    foldlM_mark_flatMap ranges rangeSlots _
  unfold validateFullCoverage
  rw [hloop]
  constructor
  · intro h slot hslot
    cases hmark : (ranges.flatMap rangeSlots).foldlM mark fun _ => false with
    | error s =>
      rw [hmark] at h
      cases h
    | ok covered =>
      rw [hmark] at h
      obtain ⟨hnodup, -, rfl⟩ := (foldlM_mark_eq_ok _ _ _).mp hmark
      rw [← count_slots]
      refine count_eq_one_of_mem hnodup ?_
      dsimp only at h
      split at h
      · cases h
      · rename_i hnone
        have hfound := find?_eq_none.mp hnone slot (mem_range.mpr hslot)
        simpa using hfound
  · intro hone
    have hnodup : (ranges.flatMap rangeSlots).Nodup := by
      refine nodup_iff_count_le_one.mpr fun slot => ?_
      by_cases hslot : slot ∈ ranges.flatMap rangeSlots
      · exact Nat.le_of_eq ((count_slots ranges slot).trans (hone slot (hrange slot hslot)))
      · rw [count_eq_zero_of_not_mem hslot]
        exact Nat.zero_le _
    rw [(foldlM_mark_eq_ok _ _ _).mpr ⟨hnodup, fun _ _ => rfl, rfl⟩]
    dsimp only
    have hnone : ((range 256).find? fun slot =>
        !(false || decide (slot ∈ ranges.flatMap rangeSlots))) = none := by
      refine find?_eq_none.mpr fun slot hslot => ?_
      have hmem : slot ∈ ranges.flatMap rangeSlots := by
        apply count_pos_iff.mp
        rw [count_slots, hone slot (mem_range.mp hslot)]
        exact Nat.one_pos
      simp [hmem]
    rw [hnone]

structure EntryAccepted (servers : List String) (entry : String × ShardAssignment) : Prop where
  range : (parseRange entry.1).isSome = true
  named : entry.2.shardSOTMember ≠ ""
  sot : entry.2.shardSOTMember ∈ servers
  read : ∀ name ∈ entry.2.shardReadMember, name ∈ servers
  proxy : ∀ name ∈ entry.2.proxyReadMember, name ∈ servers

section
variable {quote : String → String} {servers : List String}
  {entries : List (String × ShardAssignment)}
theorem sotErrors_eq_nil {raw name : String} :
    sotErrors servers raw name = [] ↔ name ≠ "" ∧ name ∈ servers := by
  unfold sotErrors
  split
  · simp_all
  · split <;> simp_all

theorem memberErrors_eq_nil {raw role : String} {names : List String} :
    memberErrors servers raw role names = [] ↔ ∀ name ∈ names, name ∈ servers := by
  simp [memberErrors]

theorem validateEntry_fst (acc : List ConfigError × List (Nat × Nat))
    (entry : String × ShardAssignment) :
    (validateEntry quote servers acc entry).1 = [] ↔ acc.1 = [] ∧ EntryAccepted servers entry := by
  have hparse := parseRangeE_toOption quote entry.1
  unfold validateEntry
  cases hrange : parseRangeE quote entry.1 with
  | error message =>
    rw [hrange] at hparse
    simp only [append_eq_nil_iff, cons_ne_nil, and_false, false_iff, not_and]
    intro _ haccepted
    have := haccepted.range
    rw [← hparse] at this
    cases this
  | ok r =>
    rw [hrange] at hparse
    simp only [append_eq_nil_iff, sotErrors_eq_nil, memberErrors_eq_nil]
    constructor
    · rintro ⟨⟨⟨hacc, hnamed, hsot⟩, hread⟩, hproxy⟩
      exact ⟨hacc, by rw [← hparse]; rfl, hnamed, hsot, hread, hproxy⟩
    · rintro ⟨hacc, -, hnamed, hsot, hread, hproxy⟩
      exact ⟨⟨⟨hacc, hnamed, hsot⟩, hread⟩, hproxy⟩

theorem validateEntry_snd (acc : List ConfigError × List (Nat × Nat))
    (entry : String × ShardAssignment) :
    (validateEntry quote servers acc entry).2 = acc.2 ++ (parseRange entry.1).toList := by
  have hparse := parseRangeE_toOption quote entry.1
  unfold validateEntry
  cases hrange : parseRangeE quote entry.1 with
  | error message =>
    rw [hrange] at hparse
    rw [← hparse]
    simp [Except.toOption]
  | ok r =>
    rw [hrange] at hparse
    rw [← hparse]
    simp [Except.toOption]

theorem foldl_validateEntry (acc : List ConfigError × List (Nat × Nat)) :
    ((entries.foldl (validateEntry quote servers) acc).1 = [] ↔
      acc.1 = [] ∧ ∀ entry ∈ entries, EntryAccepted servers entry) ∧
    (entries.foldl (validateEntry quote servers) acc).2 =
      acc.2 ++ entries.filterMap fun entry => parseRange entry.1 := by
  induction entries generalizing acc with
  | nil => simp
  | cons entry entries ih =>
    obtain ⟨hfst, hsnd⟩ := ih (validateEntry quote servers acc entry)
    rw [foldl_cons, hfst, hsnd, validateEntry_fst, validateEntry_snd]
    refine ⟨by simp [and_assoc], ?_⟩
    rw [append_assoc, filterMap_cons]
    cases parseRange entry.1 <;> rfl

theorem countP_covers (slot : UInt8) : entries.countP (covers slot) =
      (entries.filterMap fun entry => parseRange entry.1).countP
        fun r => rangeContains r slot.toNat := by
  induction entries with
  | nil => rfl
  | cons entry entries ih =>
    rw [countP_cons, ih, filterMap_cons]
    cases hr : parseRange entry.1 with
    | none => simp [covers, hr]
    | some r => simp [covers, hr, countP_cons]

theorem validateShardMapBody_eq_nil : validateShardMapBody quote (some entries) servers = [] ↔
      (∀ entry ∈ entries, EntryAccepted servers entry) ∧
        ∀ slot : UInt8, entries.countP (covers slot) = 1 := by
  obtain ⟨hfst, hsnd⟩ := @foldl_validateEntry quote servers entries ([], [])
  have hbound : ∀ r ∈ entries.filterMap (fun entry => parseRange entry.1), r.2 < 256 := by
    intro r hr
    obtain ⟨entry, -, hentry⟩ := mem_filterMap.mp hr
    exact (parseRange_bounds hentry).2
  have hslots : (∀ slot < 256, ((entries.filterMap fun entry => parseRange entry.1).countP
      fun r => rangeContains r slot) = 1) ↔ ∀ slot : UInt8, entries.countP (covers slot) = 1 := by
    constructor
    · intro h slot
      rw [countP_covers]
      exact h slot.toNat slot.toNat_lt
    · intro h slot hslot
      have hone := h (UInt8.ofNat slot)
      rw [countP_covers] at hone
      have hnat : (UInt8.ofNat slot).toNat = slot := by simpa using Nat.mod_eq_of_lt hslot
      rwa [hnat] at hone
  have hcoverage : coverageErrors (entries.filterMap fun entry => parseRange entry.1) = [] ↔
      validateFullCoverage (entries.filterMap fun entry => parseRange entry.1) = .ok () := by
    unfold coverageErrors
    split
    · simp_all
    · simp_all
  unfold validateShardMapBody
  dsimp only
  rw [append_eq_nil_iff, hfst, hsnd, nil_append, hcoverage,
    validateFullCoverage_eq_ok hbound, hslots]
  simp
end
section
variable {quote : String → String} {servers : List String} {cfg : Config}
theorem Config.assignmentForSlot_eq (cfg : Config) (slot : UInt8) :
    cfg.assignmentForSlot slot = (cfg.slotAssignment slot).1 := by
  obtain ⟨version, baseURLs, shardMap, schemas, versions, history, plain⟩ := cfg
  induction shardMap with
  | nil => rfl
  | cons entry entries ih =>
    simp only [Config.assignmentForSlot, Config.slotAssignment, find?_cons, covers] at ih ⊢
    cases hr : parseRange entry.1 with
    | none => exact ih
    | some r =>
      cases hc : rangeContains r slot.toNat with
      | true =>
        have hin : (decide (r.1 ≤ slot.toNat) && decide (slot.toNat ≤ r.2)) = true := hc
        simp only [hin, hc]
      | false =>
        have hout : (decide (r.1 ≤ slot.toNat) && decide (slot.toNat ≤ r.2)) = false := hc
        simp only [hout, hc]
        exact ih

theorem find?_covers {entries : List (String × ShardAssignment)} {slot : UInt8}
    (h : entries.countP (covers slot) = 1) :
    ∃ entry ∈ entries, covers slot entry = true ∧
      (∀ other ∈ entries, covers slot other = true → other = entry) ∧
      ∀ order : List (String × ShardAssignment), order.Perm entries →
        order.find? (covers slot) = some entry := by
  rw [countP_eq_length_filter] at h
  obtain ⟨entry, hentry⟩ := length_eq_one_iff.mp h
  have hmem : entry ∈ entries.filter (covers slot) := by
    rw [hentry]
    exact mem_singleton_self _
  obtain ⟨hin, hcovers⟩ := mem_filter.mp hmem
  refine ⟨entry, hin, hcovers, fun other hother hc => ?_, fun order hperm => ?_⟩
  · have hfilter := mem_filter.mpr ⟨hother, hc⟩
    rw [hentry] at hfilter
    exact mem_singleton.mp hfilter
  · have hsame := hperm.filter (covers slot)
    rw [hentry] at hsame
    rw [← head?_filter, perm_singleton.mp hsame]
    rfl

def Config.traversed (cfg : Config) (order : List (String × ShardAssignment)) : Config :=
  { cfg with shardMap := order }

theorem lookup_of_accepted {slot : UInt8} (h : cfg.shardMap.countP (covers slot) = 1) :
    ∃ entry ∈ cfg.shardMap, covers slot entry = true ∧
      (∀ other ∈ cfg.shardMap, covers slot other = true → other = entry) ∧
      ∀ order : List (String × ShardAssignment), order.Perm cfg.shardMap →
        (cfg.traversed order).slotAssignment slot = (entry.2, true) ∧
        (cfg.traversed order).assignmentForSlot slot = entry.2 := by
  obtain ⟨entry, hmem, hcovers, hunique, hfind⟩ := find?_covers h
  refine ⟨entry, hmem, hcovers, hunique, fun order hperm => ?_⟩
  have hslot : (cfg.traversed order).slotAssignment slot = (entry.2, true) := by
    simp [Config.slotAssignment, Config.traversed, hfind order hperm]
  exact ⟨hslot, by rw [Config.assignmentForSlot_eq, hslot]⟩

def Request.IsWrite (req : Request) : Prop := req.command ≠ .read

theorem checkRouting_write {e : Engine} {req : Request} (hwrite : req.IsWrite)
    (hnamed : e.serverName ≠ "") :
    checkRouting e req = none ↔
      (e.cfg.assignmentForSlot (slot req.parameter)).shardSOTMember = e.serverName := by
  unfold checkRouting
  rw [if_neg hnamed]
  obtain ⟨command, target, parameter, detail, utf8⟩ := req
  cases command with
  | read => exact absurd rfl hwrite
  | _ =>
    dsimp only
    split <;> simp_all

def Engine.named (e : Engine) (name : String) (order : List (String × ShardAssignment)) : Engine :=
  { e with serverName := name, cfg := e.cfg.traversed order }

/-- The server with this name takes the request and no other named server does, in any order of
traversal. -/
structure SoleWriter (e : Engine) (servers : List String) (req : Request) (name : String) :
    Prop where
  known : name ∈ servers
  named : name ≠ ""
  passes : ∀ order : List (String × ShardAssignment), order.Perm e.cfg.shardMap →
    checkRouting (e.named name order) req = none
  sole : ∀ other ∈ servers, other ≠ "" →
    ∀ order : List (String × ShardAssignment), order.Perm e.cfg.shardMap →
    checkRouting (e.named other order) req = none → other = name

theorem soleWriter_of_accepted {e : Engine} {req : Request} (hwrite : req.IsWrite)
    (hentries : ∀ entry ∈ e.cfg.shardMap, EntryAccepted servers entry)
    (hone : ∀ slot : UInt8, e.cfg.shardMap.countP (covers slot) = 1) :
    ∃ name, SoleWriter e servers req name := by
  obtain ⟨entry, hmem, -, -, hlookup⟩ := lookup_of_accepted (hone (slot req.parameter))
  have haccepted := hentries entry hmem
  have hroute : ∀ name, name ≠ "" → ∀ order : List (String × ShardAssignment),
      order.Perm e.cfg.shardMap →
      (checkRouting (e.named name order) req = none ↔ entry.2.shardSOTMember = name) := by
    intro name hname order hperm
    rw [checkRouting_write hwrite hname]
    simp only [Engine.named, (hlookup order hperm).2]
  exact ⟨entry.2.shardSOTMember, haccepted.sot, haccepted.named,
    fun order hperm => (hroute _ haccepted.named order hperm).mpr rfl,
    fun other _ hother order hperm hpass => ((hroute other hother order hperm).mp hpass).symm⟩

/-- In an accepted map every slot is in exactly one range, every traversal finds its assignment, and
exactly one named server takes the writes of a document; other maps are rejected. -/
theorem one_writer_per_document (quote : String → String) (servers : List String) (e : Engine) :
    (validateShardMapBody quote (some e.cfg.shardMap) servers = [] →
      (∀ slot : UInt8, e.cfg.shardMap.countP (covers slot) = 1) ∧
      (∀ order : List (String × ShardAssignment), order.Perm e.cfg.shardMap → ∀ slot : UInt8,
        (e.cfg.traversed order).assignmentForSlot slot = e.cfg.assignmentForSlot slot ∧
        (e.cfg.traversed order).slotAssignment slot = (e.cfg.assignmentForSlot slot, true)) ∧
      ∀ req : Request, req.IsWrite → ∃ name, SoleWriter e servers req name) ∧
    ((∃ slot : UInt8, e.cfg.shardMap.countP (covers slot) ≠ 1) →
      validateShardMapBody quote (some e.cfg.shardMap) servers ≠ []) := by
  constructor
  · intro h
    obtain ⟨hentries, hone⟩ := validateShardMapBody_eq_nil.mp h
    refine ⟨hone, fun order hperm slot => ?_,
      fun req hwrite => soleWriter_of_accepted hwrite hentries hone⟩
    obtain ⟨entry, -, -, -, hlookup⟩ := lookup_of_accepted (hone slot)
    have hself : e.cfg.assignmentForSlot slot = entry.2 := (hlookup _ (Perm.refl _)).2
    obtain ⟨hslot, hassignment⟩ := hlookup order hperm
    exact ⟨hassignment.trans hself.symm, by rw [hslot, hself]⟩
  · rintro ⟨slot, hslot⟩ h
    exact hslot ((validateShardMapBody_eq_nil.mp h).2 slot)
end
namespace Sample
def wholeMap (assignment : ShardAssignment) : List (String × ShardAssignment) :=
  [("00-FF", assignment)]

theorem parseRange_whole : parseRange "00-FF" = some (0, 255) := by decide +kernel

theorem wholeMap_covers (assignment : ShardAssignment) (slot : UInt8) :
    (wholeMap assignment).countP (covers slot) = 1 := by
  have hslot : slot.toNat ≤ 255 := Nat.le_of_lt_succ slot.toNat_lt
  simp [wholeMap, covers, parseRange_whole, rangeContains, hslot]

theorem wholeMap_accepted {assignment : ShardAssignment} {servers : List String}
    (hnamed : assignment.shardSOTMember ≠ "") (hsot : assignment.shardSOTMember ∈ servers)
    (hread : ∀ name ∈ assignment.shardReadMember, name ∈ servers)
    (hproxy : ∀ name ∈ assignment.proxyReadMember, name ∈ servers) :
    validateShardMapBody id (some (wholeMap assignment)) servers = [] := by
  refine validateShardMapBody_eq_nil.mpr ⟨fun entry hentry => ?_, wholeMap_covers assignment⟩
  obtain rfl := mem_singleton.mp hentry
  exact ⟨by rw [parseRange_whole]; rfl, hnamed, hsot, hread, hproxy⟩

theorem createRequest_isWrite : createRequest.IsWrite := by
  intro h
  cases h
end Sample
open Sample
theorem one_writer_alpha : ∃ name, SoleWriter server ["alpha", "beta"] createRequest name :=
  ((one_writer_per_document id ["alpha", "beta"] server).1
    (wholeMap_accepted (by decide) (by decide) (by decide) (by decide))).2.2
      createRequest createRequest_isWrite

theorem unnamed_writer :
    validateShardMapBody id (some server.cfg.shardMap) ["alpha", "beta", ""] = [] ∧
      ∀ name ∈ ["alpha", ""], checkRouting (server.named name server.cfg.shardMap)
          createRequest = none := by
  refine ⟨wholeMap_accepted (by decide) (by decide) (by decide) (by decide), ?_⟩
  intro name hname
  rcases mem_cons.mp hname with rfl | hname
  · rw [checkRouting_write createRequest_isWrite (by decide)]
    exact congrArg ShardAssignment.shardSOTMember (config_assignment _)
  · obtain rfl := mem_singleton.mp hname
    rfl

section
variable {quote : String → String} {cfg : Config}
theorem mem_targetsForAssignment {serverName t : String} {assignment : ShardAssignment} :
    t ∈ targetsForAssignment serverName assignment ↔
      (t ∈ assignment.shardReadMember ∨ t ∈ assignment.proxyReadMember) ∧ t ≠ "" ∧
        t ≠ serverName := by
  simp only [targetsForAssignment, mem_eraseDups, mem_filter, mem_append, decide_eq_true_eq]

theorem mem_relevantSOTServers {serverName sot : String} : sot ∈ cfg.relevantSOTServers serverName ↔
      ∃ entry ∈ cfg.shardMap, entry.2.shardSOTMember = sot ∧ sot ≠ "" ∧ sot ≠ serverName ∧
        (serverName ∈ entry.2.shardReadMember ∨ serverName ∈ entry.2.proxyReadMember) := by
  simp only [Config.relevantSOTServers, mem_eraseDups, mem_map, mem_filter, decide_eq_true_eq]
  constructor
  · rintro ⟨entry, ⟨hmem, hnamed, hother, hrole⟩, rfl⟩
    exact ⟨entry, hmem, rfl, hnamed, hother, hrole⟩
  · rintro ⟨entry, hmem, rfl, hnamed, hother, hrole⟩
    exact ⟨entry, ⟨hmem, hnamed, hother, hrole⟩, rfl⟩

theorem relevantSOTServers_traversed {order : List (String × ShardAssignment)}
    (hperm : order.Perm cfg.shardMap) (serverName sot : String) :
    sot ∈ (cfg.traversed order).relevantSOTServers serverName ↔
      sot ∈ cfg.relevantSOTServers serverName := by
  simp only [mem_relevantSOTServers, Config.traversed, hperm.mem_iff]

def Config.validateShardMap (quote : String → String) (cfg : Config) : List ConfigError :=
  validateShardMapBody quote (some cfg.shardMap) (cfg.baseURLs.map Prod.fst)

theorem pull_of_push (h : cfg.validateShardMap quote = [])
    {order : List (String × ShardAssignment)} (hperm : order.Perm cfg.shardMap) {slot : UInt8}
    {sot t : String} (hsot : ((cfg.traversed order).assignmentForSlot slot).shardSOTMember = sot)
    (ht : t ∈ targetsForAssignment sot ((cfg.traversed order).assignmentForSlot slot)) :
    sot ∈ cfg.relevantSOTServers t := by
  obtain ⟨hentries, hone⟩ := validateShardMapBody_eq_nil.mp h
  obtain ⟨entry, hmem, -, -, hlookup⟩ := lookup_of_accepted (hone slot)
  rw [(hlookup order hperm).2] at hsot ht
  subst hsot
  obtain ⟨hrole, -, hother⟩ := mem_targetsForAssignment.mp ht
  exact mem_relevantSOTServers.mpr
    ⟨entry, hmem, rfl, (hentries entry hmem).named, hother.symm, hrole⟩

theorem push_of_pull (h : cfg.validateShardMap quote = []) {sot t : String} (hnamed : t ≠ "")
    (hsot : sot ∈ cfg.relevantSOTServers t) :
    ∃ slot : UInt8, ∀ order : List (String × ShardAssignment), order.Perm cfg.shardMap →
      ((cfg.traversed order).assignmentForSlot slot).shardSOTMember = sot ∧
        t ∈ targetsForAssignment sot ((cfg.traversed order).assignmentForSlot slot) := by
  obtain ⟨hentries, hone⟩ := validateShardMapBody_eq_nil.mp h
  obtain ⟨entry, hmem, rfl, -, hother, hrole⟩ := mem_relevantSOTServers.mp hsot
  obtain ⟨r, hr⟩ := Option.isSome_iff_exists.mp (hentries entry hmem).range
  obtain ⟨hle, hlt⟩ := parseRange_bounds hr
  -- The first slot of the range of the entry.
  have hcovers : covers (UInt8.ofNat r.1) entry = true := by
    have hnat : (UInt8.ofNat r.1).toNat = r.1 := by
      simpa using Nat.mod_eq_of_lt (Nat.lt_of_le_of_lt hle hlt)
    simp [covers, hr, rangeContains, hnat, hle]
  obtain ⟨found, -, -, hunique, hlookup⟩ := lookup_of_accepted (hone (UInt8.ofNat r.1))
  obtain rfl := hunique entry hmem hcovers
  refine ⟨UInt8.ofNat r.1, fun order hperm => ?_⟩
  rw [(hlookup order hperm).2]
  exact ⟨rfl, mem_targetsForAssignment.mpr ⟨hrole, hnamed, hother.symm⟩⟩

/-- With an accepted map, a server that pushes a slot to a member is one the member checks in with,
and a server that a named member checks in with pushes some slot to it. -/
theorem push_pull_agree (quote : String → String) (cfg : Config)
    (h : cfg.validateShardMap quote = []) :
    (∀ order order' : List (String × ShardAssignment), order.Perm cfg.shardMap →
      order'.Perm cfg.shardMap → ∀ (slot : UInt8) (sot t : String),
      ((cfg.traversed order).assignmentForSlot slot).shardSOTMember = sot →
      t ∈ targetsForAssignment sot ((cfg.traversed order).assignmentForSlot slot) →
      sot ∈ (cfg.traversed order').relevantSOTServers t) ∧
    (∀ order' : List (String × ShardAssignment), order'.Perm cfg.shardMap → ∀ sot t : String,
      t ≠ "" → sot ∈ (cfg.traversed order').relevantSOTServers t →
      ∃ slot : UInt8, ∀ order : List (String × ShardAssignment), order.Perm cfg.shardMap →
        ((cfg.traversed order).assignmentForSlot slot).shardSOTMember = sot ∧
          t ∈ targetsForAssignment sot ((cfg.traversed order).assignmentForSlot slot)) ∧
    ∀ (e : Engine) (req : Request), e.cfg = cfg → e.serverName ≠ "" → req.IsWrite →
      checkRouting e req = none → ∀ t ∈ e.targets req.parameter,
        ∀ order' : List (String × ShardAssignment), order'.Perm cfg.shardMap →
          e.serverName ∈ (cfg.traversed order').relevantSOTServers t := by
  refine ⟨?_, ?_, ?_⟩
  · intro order order' hperm hperm' slot sot t hsot ht
    exact (relevantSOTServers_traversed hperm' t sot).mpr (pull_of_push h hperm hsot ht)
  · intro order' hperm' sot t hnamed hsot
    exact push_of_pull h hnamed ((relevantSOTServers_traversed hperm' t sot).mp hsot)
  · intro e req hcfg hnamed hwrite hroute t ht order' hperm'
    subst hcfg
    rw [checkRouting_write hwrite hnamed] at hroute
    exact (relevantSOTServers_traversed hperm' t e.serverName).mpr
      (pull_of_push h (Perm.refl _) hroute ht)
end
namespace Sample
def withMembers (names : List String) : Config :=
  { config with
    baseURLs := (("alpha" :: names).map fun name => (name, "http://" ++ name))
    shardMap := wholeMap ⟨"alpha", names, []⟩ }

theorem withMembers_accepted (names : List String) :
    (withMembers names).validateShardMap id = [] := by
  have hknown : (withMembers names).baseURLs.map Prod.fst = "alpha" :: names := by
    simp [withMembers, Function.comp_def]
  rw [Config.validateShardMap, hknown]
  have hnamed : "alpha" ≠ "" := by decide
  exact wholeMap_accepted hnamed mem_cons_self (fun name hname => mem_cons_of_mem _ hname) (by simp)
end Sample

theorem push_pull_beta : ∃ slot : UInt8, ∀ order : List (String × ShardAssignment),
      order.Perm (withMembers ["beta"]).shardMap →
      (((withMembers ["beta"]).traversed order).assignmentForSlot slot).shardSOTMember = "alpha" ∧
        "beta" ∈ targetsForAssignment "alpha"
          (((withMembers ["beta"]).traversed order).assignmentForSlot slot) :=
  (push_pull_agree id (withMembers ["beta"]) (withMembers_accepted ["beta"])).2.1
    (withMembers ["beta"]).shardMap (Perm.refl _) "alpha" "beta" (by decide)
    (by decide +kernel)

theorem unnamed_member : (withMembers ["beta", ""]).validateShardMap id = [] ∧
      "alpha" ∈ (withMembers ["beta", ""]).relevantSOTServers "" ∧
      ∀ slot : UInt8, "" ∉ targetsForAssignment "alpha"
        ((withMembers ["beta", ""]).assignmentForSlot slot) :=
  ⟨withMembers_accepted ["beta", ""], by decide +kernel,
    fun _ hmem => (mem_targetsForAssignment.mp hmem).2.1 rfl⟩
end Datorium
