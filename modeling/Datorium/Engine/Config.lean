
import Datorium.Document.Any
import Datorium.Storage.Documents
namespace Datorium
open Framework
/-- One bit of the reflected CRC-32 with polynomial `0xEDB88320`. -/
def crc32Bit (c : UInt32) : UInt32 :=
  if c &&& 1 = 1 then (c >>> 1) ^^^ 0xEDB88320 else c >>> 1

def checksumIEEE (data : List UInt8) : UInt32 :=
  let step (c : UInt32) (b : UInt8) : UInt32 := Nat.repeat crc32Bit 8 (c ^^^ b.toUInt32)
  data.foldl step 0xFFFFFFFF ^^^ 0xFFFFFFFF

def prefixBeforePeriod : Nat → List Char → List Char
  | _, [] => []
  | i, c :: cs => if c = '.' ∧ 6 ≤ i then [] else c :: prefixBeforePeriod (i + 1) cs

def shardingPrefix (documentID : String) : String :=
  String.ofList (prefixBeforePeriod 0 documentID.toList)

def slot (documentID : String) : UInt8 :=
  (checksumIEEE (shardingPrefix documentID).toUTF8.data.toList &&& 0xFF).toUInt8

def isSpace (c : Char) : Bool :=
  c.toNat ∈ [0x09, 0x0A, 0x0B, 0x0C, 0x0D, 0x20, 0x85, 0xA0, 0x1680, 0x2028, 0x2029, 0x202F,
    0x205F, 0x3000] || (0x2000 ≤ c.toNat && c.toNat ≤ 0x200A)

def trimSpace (cs : List Char) : List Char :=
  ((cs.dropWhile isSpace).reverse.dropWhile isSpace).reverse

def hexDigit (c : Char) : Option Nat :=
  if '0' ≤ c ∧ c ≤ '9' then some (c.toNat - '0'.toNat)
  else if 'a' ≤ c ∧ c ≤ 'f' then some (c.toNat - 'a'.toNat + 10)
  else if 'A' ≤ c ∧ c ≤ 'F' then some (c.toNat - 'A'.toNat + 10)
  else none

def parseSlot (raw : List Char) : Option Nat :=
  match trimSpace raw with
  | [c] => hexDigit c
  | [c, d] => do return (← hexDigit c) * 16 + (← hexDigit d)
  | _ => none

def parseRange (raw : String) : Option (Nat × Nat) :=
  match (trimSpace raw.toList).splitOn '-' with
  | [single] => (parseSlot single).map fun s => (s, s)
  | [first, last] => do
      let start ← parseSlot first
      let stop ← parseSlot last
      if stop < start then none else return (start, stop)
  | _ => none

structure ShardAssignment where
  shardSOTMember : String
  shardReadMember : List String
  proxyReadMember : List String

/-- The establishment config; collections have names of one path component. -/
structure Config where
  version : Int
  baseURLs : Fields String String
  shardMap : List (String × ShardAssignment)
  schemas : Fields String Json
  schemaVersions : Fields String Nat
  schemaUpdateHistory : Fields String (Fields Int Json)
  plainNames : ∀ collection, (Fields.get? collection schemas).isSome → PlainName collection
  /-- `general.maxFileBytes`; zero and less stand for the default. -/
  maxFileBytes : Int := 0

namespace Config
def schemaVersion (cfg : Config) (collection : String) : Nat :=
  (Fields.get? collection cfg.schemaVersions).getD 0

def currentSchemaMarker (cfg : Config) (collection : String) : String :=
  collection ++ ":" ++ toString (cfg.schemaVersion collection)

def assignmentForSlot (cfg : Config) (slot : UInt8) : ShardAssignment :=
  let covers (entry : String × ShardAssignment) : Bool :=
    match parseRange entry.1 with
    | none => false
    | some (start, stop) => start ≤ slot.toNat && slot.toNat ≤ stop
  match cfg.shardMap.find? covers with
  | none => ⟨"", [], []⟩
  | some entry => entry.2

def allReadMembers (cfg : Config) : List String :=
  ((cfg.shardMap.flatMap fun entry =>
    entry.2.shardReadMember ++ entry.2.proxyReadMember).eraseDups).mergeSort
      fun a b => decide (a ≤ b)

def Configured (cfg : Config) (collection : String) : Prop :=
  (Fields.get? collection cfg.schemas).isSome = true

instance (cfg : Config) (collection : String) : Decidable (cfg.Configured collection) :=
  inferInstanceAs (Decidable (_ = true))
end Config

structure ReadMemberState where
  staleSOT : List String
  pendingDocs : List String
  pendingFiles : List String := []
  failedCheckins : Fields String Nat := []
  staleThreshold : Int := 0

/-- A server: its config, the libraries it calls, and whether it replicates and distributes at once.
-/
structure Engine where
  dataDir : Path
  serverName : String
  cfg : Config
  ojson : Ojson
  floats : Floats
  replicates : Bool
  distributes : Bool
  readState : Option ReadMemberState

namespace Engine
def live (e : Engine) (collection id : String) : Path := documentPath e.dataDir collection id

def previous (e : Engine) (collection id : String) : Path :=
  previousDocumentPath e.dataDir collection id

def OwnsEverySlot (e : Engine) : Prop :=
  ∀ s, (e.cfg.assignmentForSlot s).shardSOTMember = e.serverName ∧
    e.serverName ∈ (e.cfg.assignmentForSlot s).shardReadMember
end Engine
end Datorium
