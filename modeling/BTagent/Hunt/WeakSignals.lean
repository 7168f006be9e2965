import BTagent.Data.Timestamp
import BTagent.Hunt.Corpus
import BTagent.Lib.OrderedDict
import Mathlib.Data.Finset.Sort
import Mathlib.Data.Prod.Lex
import Mathlib.Data.String.Basic

namespace BTagent

inductive WeakSignalKind where
  | ioc
  | tld
  | cmdlineFragment
  | asset
  | asn
  | technique
  deriving DecidableEq

def WeakSignalKind.value : WeakSignalKind → String
  | ioc => "ioc"
  | tld => "tld"
  | cmdlineFragment => "cmdline_fragment"
  | asset => "asset"
  | asn => "asn"
  | technique => "technique"

structure ObservedIOC where
  type : String
  value : String
  firstSeen : Option Moment
  lastSeen : Option Moment
  deriving DecidableEq

structure ClosedInvestigationRecord where
  investigationId : String
  closedAt : Moment
  iocs : List ObservedIOC
  techniques : List String
  cmdlineFragments : List String
  assets : List String
  asns : List String
  deriving DecidableEq

structure WeakSignal where
  id : String
  kind : WeakSignalKind
  value : String
  iocType : Option String
  firstSeen : Moment
  lastSeen : Moment
  investigationRefs : List String
  distinctInvestigationCount : ℕ
  deriving DecidableEq

namespace WeakSignalExtractor
open HuntCorpus

variable (T : CharTable)

abbrev Key := WeakSignalKind × String

def DOMAINISH_IOC_TYPES : List String := ["domain", "url", "email"]

def KNOWN_IOC_TYPES : List String :=
  ["ip", "domain", "url", "hash_md5", "hash_sha1", "hash_sha256", "email", "file_path",
    "registry_key", "cve", "user_agent", "mutex", "process_name", "other"]

def normalizeIocType (raw : String) : Option String :=
  let candidate := T.lower (T.strip raw)
  if candidate ∈ KNOWN_IOC_TYPES then some candidate else none

def MIN_CMDLINE_FRAGMENT_LEN : ℤ := 4

def MAX_VALUE_LEN : ℕ := 2048

def removePrefix (lead s : List Char) : List Char :=
  if lead.isPrefixOf s then s.drop lead.length else s

def normalizeValue (kind : WeakSignalKind) (value : String) : String :=
  let v := T.lower (T.strip value)
  let v := if kind = .asn then T.strip (String.ofList (removePrefix "as".toList v.toList)) else v
  cut MAX_VALUE_LEN v

-- `[a-z][a-z0-9+.-]*://` at the start
def dropScheme (s : List Char) : List Char :=
  let isSchemeChar := fun c => isSlugChar c || c ∈ ['+', '.', '-']
  let tail := (s.drop 1).dropWhile isSchemeChar
  if s.head?.any (fun c => 'a' ≤ c && c ≤ 'z') && "://".toList.isPrefixOf tail then tail.drop 3 else s

-- `[a-z0-9.-]` in either case
def isLabelChar (c : Char) : Bool :=
  "abcdefghijklmnopqrstuvwxyz".toList.any (fun d => T.sameLetter c d) || c.isDigit || c ∈ ['.', '-']

def extractTld (domainish : String) : String :=
  let s := (T.lower (T.strip domainish)).toList
  let s := (s.reverse.takeWhile (· ≠ '@')).reverse
  let s := (((dropScheme s).takeWhile (· ≠ '/')).takeWhile (· ≠ '?')).takeWhile (· ≠ ':')
  let host := Quoted.stripBy (· == '.') ((removePrefix "www.".toList s).takeWhile (isLabelChar T))
  let labels := (host.splitOn '.').filter (· ≠ [])
  if labels.length < 2 then ""
  else String.ofList (List.intercalate ['.'] (labels.drop (labels.length - 2)))

structure Accum where
  firstSeen : Moment
  lastSeen : Moment
  investigationRefs : Finset String
  iocType : Option String
  deriving DecidableEq

-- What one bump of a signal brings.
structure Sighting where
  investigationId : String
  firstSeen : Moment
  lastSeen : Moment
  iocType : Option String
  deriving DecidableEq

def Accum.start (v : Sighting) : Accum := ⟨v.firstSeen, v.lastSeen, {v.investigationId}, v.iocType⟩

def bump (acc : OrderedDict Key Accum) (kv : Key × Sighting) : Option (OrderedDict Key Accum) :=
  match acc.get? kv.1 with
  | none => some (acc.set kv.1 (.start kv.2))
  | some a => do
      let earlier ← kv.2.firstSeen.lt? a.firstSeen
      let later ← a.lastSeen.lt? kv.2.lastSeen
      some (acc.set kv.1
        { firstSeen := if earlier then kv.2.firstSeen else a.firstSeen
          lastSeen := if later then kv.2.lastSeen else a.lastSeen
          investigationRefs := insert kv.2.investigationId a.investigationRefs
          iocType := a.iocType.or kv.2.iocType })

-- An observable that normalises to nothing is dropped.
def sighting (kind : WeakSignalKind) (value : String) (v : Sighting) : List (Key × Sighting) :=
  let norm := normalizeValue T kind value
  if norm = "" then [] else [((kind, norm), v)]

variable (minLen : ℤ) (r : ClosedInvestigationRecord)

def ingestIoc (ioc : ObservedIOC) : List (Key × Sighting) :=
  let fs := ioc.firstSeen.getD r.closedAt
  let ls := ioc.lastSeen.getD r.closedAt
  sighting T .ioc ioc.value ⟨r.investigationId, fs, ls, normalizeIocType T ioc.type⟩ ++
    if T.lower (T.strip ioc.type) ∈ DOMAINISH_IOC_TYPES then
      let tld := extractTld T ioc.value
      if tld = "" then [] else sighting T .tld tld ⟨r.investigationId, fs, ls, none⟩
    else []

def ingestSimple (kind : WeakSignalKind) (values : List String) : List (Key × Sighting) :=
  values.flatMap fun v => sighting T kind v ⟨r.investigationId, r.closedAt, r.closedAt, none⟩

def ingestCmdline : List (Key × Sighting) :=
  ingestSimple T r .cmdlineFragment
    (r.cmdlineFragments.filter fun frag => minLen ≤ (T.lower (T.strip frag)).toList.length)

-- The bumps of one record, in their order.
def sightings : List (Key × Sighting) :=
  r.iocs.flatMap (ingestIoc T r) ++ (ingestSimple T r .technique r.techniques ++
    (ingestSimple T r .asset r.assets ++ (ingestSimple T r .asn r.asns ++ ingestCmdline T minLen r)))

-- `[^a-z0-9]+` becomes a dash.
def slug (value : String) : String :=
  let dashed := Quoted.stripBy (· == '-')
    (Regex.sub T.isWord slugBreak (fun _ => ['-']) (T.lower value).toList)
  if dashed = [] then "x" else cut 48 (String.ofList dashed)

def signalId (key : Key) : String :=
  "ws_" ++ key.1.value ++ "_" ++ slug T key.2 ++ "_" ++
    cut 12 (sha256 (key.1.value ++ "\x00" ++ key.2).toByteArray)

section Sorting

local instance stringTrans : IsTrans String (· ≤ ·) := inferInstance

local instance stringAntisymm : Std.Antisymm (α := String) (· ≤ ·) := inferInstance

local instance stringTotal : Std.Total (α := String) (· ≤ ·) := inferInstance

def signal (entry : Key × Accum) : WeakSignal where
  id := signalId T entry.1
  kind := entry.1.1
  value := entry.1.2
  iocType := entry.2.iocType
  firstSeen := entry.2.firstSeen
  lastSeen := entry.2.lastSeen
  investigationRefs := entry.2.investigationRefs.sort
  distinctInvestigationCount := entry.2.investigationRefs.card

end Sorting

def sortKey (s : WeakSignal) : String ×ₗ String := toLex (s.kind.value, s.value)

-- `none` stands for the `TypeError` of a comparison.
def extract (records : List ClosedInvestigationRecord) : Option (List WeakSignal) := do
  let acc ← records.foldlM (fun acc r => (sightings T minLen r).foldlM bump acc) .empty
  some ((acc.entries.map (signal T)).mergeSort fun s t => sortKey s ≤ sortKey t)

end WeakSignalExtractor

end BTagent
