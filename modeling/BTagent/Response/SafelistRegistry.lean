import BTagent.Lib.Machine
import BTagent.Response.BulkMitigation
import BTagent.Response.ExecuteAudited
import BTagent.Response.SafelistUrl

namespace BTagent

-- What the case of a text that is lowered already, or the blanks around it, do not change.
structure CharTable.LowersOnce (T : CharTable) : Prop where
  lower_lower : ∀ s, T.lower (T.lower s) = T.lower s
  strip_lower : ∀ s, T.strip (T.lower s) = T.lower (T.strip s)
  lower_ne : ∀ s, T.lower s = "" → s = ""

namespace CharTable

theorem toLower_ascii (c : Char) : c.toLower.toLower = c.toLower ∧
    ascii.isSpace c.toLower = ascii.isSpace c := by
  by_cases hc : c.toNat < 128
  · have hall : ∀ n < 128, (Char.ofNat n).toLower.toLower = (Char.ofNat n).toLower ∧
        ascii.isSpace (Char.ofNat n).toLower = ascii.isSpace (Char.ofNat n) := by
      decide +kernel
    have h := hall _ hc
    rwa [Char.ofNat_toNat] at h
  · have hlower : c.toLower = c := by
      unfold Char.toLower
      rw [dif_neg]
      rintro ⟨-, h⟩
      exact hc (lt_of_le_of_lt (UInt32.le_iff_toNat_le.mp h) (by decide))
    rw [hlower]
    exact ⟨hlower, rfl⟩

theorem ascii_lower (s : String) : ascii.lower s = s.map Char.toLower := rfl

theorem ascii_lowersOnce : ascii.LowersOnce where
  lower_lower s := by
    apply String.toList_injective
    simp [ascii_lower, (toLower_ascii _).1]
  strip_lower s := by
    have hspace : ascii.isSpace ∘ Char.toLower = ascii.isSpace :=
      funext fun c => (toLower_ascii c).2
    apply String.toList_injective
    simp only [strip, ascii_lower, String.toList_ofList, String.toList_map, List.dropWhile_map,
      hspace, List.rdropWhile, ← List.map_reverse]
  lower_ne s h := by
    simpa [ascii_lower] using h

end CharTable

namespace Ipv4

theorem decimal_append (cs : List Char) (c : Char) :
    decimal (cs ++ [c]) = decimal cs * 10 + (c.toNat - 48) := by
  simp [decimal]

theorem digitChar_toNat {c : Char} (h : c.isDigit = true) :
    c.toNat - 48 < 10 ∧ Nat.digitChar (c.toNat - 48) = c := by
  have hrange : 48 ≤ c.toNat ∧ c.toNat ≤ 57 := Char.isDigit_iff_toNat.mp h
  have hall : ∀ k < 10, Nat.digitChar k = Char.ofNat (48 + k) := by decide
  refine ⟨by omega, ?_⟩
  rw [hall _ (by omega), Nat.add_sub_cancel' hrange.1, Char.ofNat_toNat]

-- The digits of a number with no zero in front are those of `str`.
theorem digits_decimal {cs : List Char} (hne : cs ≠ []) (hcs : ∀ c ∈ cs, c.isDigit = true)
    (hzero : cs.head? ≠ some '0') : 0 < decimal cs ∧ digits (decimal cs) = cs := by
  induction cs using List.reverseRecOn with
  | nil => exact absurd rfl hne
  | append_singleton cs c ih =>
      obtain ⟨hlt, hchar⟩ := digitChar_toNat (hcs c (by simp))
      rw [decimal_append]
      rcases eq_or_ne cs [] with rfl | hcons
      · have hdecimal : decimal [] * 10 + (c.toNat - 48) = c.toNat - 48 := Nat.zero_add _
        rw [hdecimal, digits, Nat.toDigits_of_lt_base hlt, hchar]
        refine ⟨Nat.pos_of_ne_zero fun hnil => hzero ?_, rfl⟩
        rw [← hchar, hnil]
        rfl
      · obtain ⟨hpos, hdigits⟩ := ih hcons (fun d hd => hcs d (by simp [hd]))
          (by rwa [List.head?_append_of_ne_nil _ hcons] at hzero)
        refine ⟨by omega, ?_⟩
        rw [digits, Nat.mul_comm, ← Nat.toDigits_append_toDigits (by decide) hpos hlt,
          Nat.toDigits_of_lt_base hlt, hchar]
        exact congrArg (· ++ [c]) hdigits

theorem digits_parseOctet {cs : List Char} {n : Fin 256} (h : parseOctet cs = some n) :
    cs = digits n := by
  rw [parseOctet] at h
  split at h
  · cases h
  · next hform =>
      simp only [not_or, not_and_or, not_not, List.all_eq_true] at hform
      obtain ⟨hne, hdigits, -, hzero⟩ := hform
      split at h
      · cases h
        rcases hzero with rfl | hzero
        · exact (by decide : ['0'] = digits (decimal ['0']))
        · exact (digits_decimal hne hdigits hzero).2.symm
      · cases h

-- An address is written one way only.
theorem chars_of_parse {cs : List Char} {ip : Ipv4} (h : parse cs = some ip) : cs = ip.chars := by
  rw [parse] at h
  split at h
  · next a b c d hsplit =>
      simp only [Option.bind_eq_bind, Option.bind_eq_some_iff, Option.some.injEq] at h
      obtain ⟨p, hp, q, hq, r, hr, s, hs, rfl⟩ := h
      have hjoin : ['.'].intercalate (cs.splitOn '.') = cs := List.intercalate_splitOn '.'
      rw [← hjoin, hsplit, digits_parseOctet hp, digits_parseOctet hq, digits_parseOctet hr,
        digits_parseOctet hs]
      simp [chars, List.intercalate]
  · cases h

end Ipv4

namespace Ipv6

-- `'%x'` of each hextet
def hextetTexts (ip : BitVec 128) : List (List Char) :=
  (List.range 8).map fun i => Nat.toDigits 16 ((ip.toNat / 65536 ^ (7 - i)) % 65536)

structure ZeroRun where
  start : ℕ
  len : ℕ

-- The longest run of zeros so far and the one that is open, as `_compress_hextets` counts them.
def noteHextet (best current : ZeroRun) (index : ℕ) (hextet : List Char) : ZeroRun × ZeroRun :=
  if hextet = ['0'] then
    let current : ZeroRun :=
      ⟨if current.len = 0 then index else current.start, current.len + 1⟩
    (if best.len < current.len then current else best, current)
  else (best, ⟨0, 0⟩)

def longestRun (best current : ZeroRun) (index : ℕ) : List (List Char) → ZeroRun
  | [] => best
  | hextet :: hextets =>
      let runs := noteHextet best current index hextet
      longestRun runs.1 runs.2 (index + 1) hextets

def compressHextets (hextets : List (List Char)) : List (List Char) :=
  let best := longestRun ⟨0, 0⟩ ⟨0, 0⟩ 0 hextets
  if 1 < best.len then
    (if best.start = 0 then [[]] else []) ++ hextets.take best.start ++ [[]] ++
      hextets.drop (best.start + best.len) ++
        (if best.start + best.len = hextets.length then [[]] else [])
  else hextets

def stringFromIpInt (ip : BitVec 128) : List Char :=
  [':'].intercalate (compressHextets (hextetTexts ip))

-- `str`, as of Python 3.14: an IPv4-mapped address ends as the IPv4 address does.
def chars (ip : BitVec 128) : List Char :=
  match ipv4Mapped ip with
  | none => stringFromIpInt ip
  | some mapped => stringFromIpInt (ip >>> 32) ++ ':' :: mapped.chars

example : String.ofList (chars 1) = "::1" ∧
    String.ofList (chars (hextets 0x2001_0DB8_0000_0000 ||| 0x1_0000_0000_0001)) =
      "2001:db8::1:0:0:1" ∧
    String.ofList (chars 0xFFFF_0808_0808) = "::ffff:8.8.8.8" := by
  decide +kernel

end Ipv6

namespace IpAddress

-- `str(ip_address(text))`; the scope of an IPv6 address is kept.
def canonicalText (cs : List Char) : Option String :=
  match Ipv4.parse cs with
  | some ip => some ip.text
  | none => (Ipv6.parse cs).map fun ip =>
      String.ofList (Ipv6.chars ip ++ cs.dropWhile (· != '%'))

end IpAddress

inductive SafelistEntryType where
  | IP
  | DOMAIN
  | PRINCIPAL
  deriving DecidableEq

def SafelistEntryType.value : SafelistEntryType → String
  | IP => "ip"
  | DOMAIN => "domain"
  | PRINCIPAL => "principal"

structure SafelistEntryRow where
  id : String
  orgId : String
  entryType : SafelistEntryType
  value : String
  reason : String
  createdBy : Option String

inductive SafelistValidationError where
  | entryType (got : String)
  | blankValue
  | tooLong
  | invalidIp (raw : String)
  | invalidDomain (raw : String)

structure SafelistRegistry where
  rows : List SafelistEntryRow
  trail : List AuditEntry

inductive RegistryEvent where
  | addEntry (id orgId entryType value reason : String) (createdBy : Option String)
  | removeEntry (orgId actorId entryId : String)
  | execute (S : ContainmentExecute.Services) (req : ContainmentExecute.Request)

namespace ResponseSafelist
open ContainmentExecute SafelistPolicy

def MAX_VALUE_LEN : ℕ := 255

def entryTypeOf : String → Option SafelistEntryType
  | "ip" => some .IP
  | "domain" => some .DOMAIN
  | "principal" => some .PRINCIPAL
  | _ => none

variable (T : CharTable)

def normalizeEntry (entryType value : String) :
    Except SafelistValidationError (SafelistEntryType × String) :=
  let raw := T.strip value
  match entryTypeOf (T.lower (T.strip entryType)) with
  | none => .error (.entryType entryType)
  | some etype =>
      if raw = "" then .error .blankValue
      else if MAX_VALUE_LEN < raw.length then .error .tooLong
      else
        match etype with
        | .IP =>
            match IpAddress.canonicalText raw.toList with
            | none => .error (.invalidIp raw)
            | some canonical => .ok (.IP, canonical)
        | .PRINCIPAL => .ok (.PRINCIPAL, T.lower raw)
        | .DOMAIN =>
            let host := Safelist.rstrip '.' (T.lower raw)
            if BulkMitigation.matchesDomain host then .ok (.DOMAIN, host)
            else .error (.invalidDomain raw)

-- What is stored for a value, by the type it is entered under.
def Canonical (value : String) : SafelistEntryType → String → Prop
  | .IP, val => IpAddress.canonicalText (T.strip value).toList = some val
  | .DOMAIN, val => val = normalizeSuffix T value ∧ BulkMitigation.matchesDomain val = true
  | .PRINCIPAL, val => val = T.lower (T.strip value)

def SameKey (row : SafelistEntryRow) (orgId : String) (etype : SafelistEntryType)
    (value : String) : Prop :=
  row.orgId = orgId ∧ row.entryType = etype ∧ row.value = value

instance (row : SafelistEntryRow) (orgId : String) (etype : SafelistEntryType) (value : String) :
    Decidable (SameKey row orgId etype value) :=
  inferInstanceAs (Decidable (_ ∧ _))

-- The rows that the policy of an organisation is built from.
def stored (row : SafelistEntryRow) : ResponseSafelistRow where
  orgId := row.orgId
  entryType := row.entryType.value
  value := row.value

-- The id is fresh, or the insert is refused.
def addEntry (rows : List SafelistEntryRow) (id orgId entryType value reason : String)
    (createdBy : Option String) : Option (List SafelistEntryRow) :=
  match normalizeEntry T entryType value with
  | .error _ => some rows
  | .ok (etype, val) =>
      if ∃ row ∈ rows, SameKey row orgId etype val then some rows
      else if ∃ row ∈ rows, row.id = id then none
      else some (rows ++ [⟨id, orgId, etype, val, T.strip reason, createdBy⟩])

def removeEntry (rows : List SafelistEntryRow) (orgId entryId : String) :
    Option (SafelistEntryRow × List SafelistEntryRow) :=
  match rows.find? fun row => row.id = entryId with
  | none => none
  | some row =>
      if row.orgId ≠ orgId then none
      else some (row, rows.filter fun row => row.id ≠ entryId)

def removalRow (orgId actorId entryId : String) (row : SafelistEntryRow) : AuditEntry :=
  auditRow actorId orgId "safelist_entry_removed" s!"safelist:{row.entryType.value}:{row.value}"
    .SUCCESS (((((Response.empty.setText "org_id" orgId).setText "entry_id" entryId).setText
      "entry_type" row.entryType.value).setText "value" row.value).setText "reason" row.reason)

end ResponseSafelist

namespace SafelistRegistry
open ContainmentExecute ResponseSafelist SafelistPolicy

variable (T : CharTable)

def empty : SafelistRegistry := ⟨[], []⟩

def step (s : SafelistRegistry) : RegistryEvent → Option SafelistRegistry
  | .addEntry id orgId entryType value reason createdBy =>
      (ResponseSafelist.addEntry T s.rows id orgId entryType value reason createdBy).map
        fun rows => { s with rows := rows }
  | .removeEntry orgId actorId entryId =>
      match ResponseSafelist.removeEntry s.rows orgId entryId with
      | none => some s
      | some (row, rows) =>
          some { s with
            rows := rows
            trail := s.trail ++ [removalRow orgId actorId entryId row] }
  | .execute S req =>
      some { s with trail := s.trail ++ (req.execute T S (s.rows.map stored)).rows }

def machine : Machine SafelistRegistry RegistryEvent := ⟨step T⟩

-- An entry of this type and value stands.
def InForce (s : SafelistRegistry) (orgId : String) (etype : SafelistEntryType)
    (value : String) : Prop :=
  ∃ row ∈ s.rows, SameKey row orgId etype value

def IsRemoval (orgId : String) (etype : SafelistEntryType) (value : String)
    (entry : AuditEntry) : Prop :=
  entry.orgId = orgId ∧ entry.action = "safelist_entry_removed" ∧ entry.outcome = .SUCCESS ∧
    entry.resource = s!"safelist:{etype.value}:{value}"

-- Two spellings of one address; an IPv6 address is screened in the spelling of `str` only.
def SameIp (value target : String) : Prop :=
  ∃ text, IpAddress.canonicalText (T.strip value).toList = some text ∧
    IpAddress.canonicalText (T.strip target).toList = some text ∧
      ((Ipv4.parse (T.strip target).toList).isSome ∨ T.strip target = text)

-- The domain that was entered, or one below it.
def UnderDomain (value target : String) : Prop :=
  let entry := T.strip (normalizeSuffix T value)
  normalizeSuffix T target = entry ∨ Safelist.EndsWith (normalizeSuffix T target) ("." ++ entry)

def SamePrincipal (value target : String) : Prop :=
  T.lower (T.strip value) = T.lower (T.strip target)

-- The request would act on what the entry was made for.
def Denotes (etype : SafelistEntryType) (value : String) : Request → Prop
  | .responseAction req =>
      match etype with
      | .IP => req.actionType = "block_ip" ∧ SameIp T value req.target
      | .DOMAIN => req.actionType = "block_domain" ∧ UnderDomain T value req.target
      | .PRINCIPAL => req.actionType ∈ PRINCIPAL_SCREENED_ACTION_TYPES ∧
          SamePrincipal T value req.target
  | .bulkBlock req =>
      match etype with
      | .IP => T.lower (T.strip req.iocType) = "ip" ∧ SameIp T value req.iocValue
      | .DOMAIN =>
          (T.lower (T.strip req.iocType) = "domain" ∧ UnderDomain T value req.iocValue) ∨
          (T.lower (T.strip req.iocType) = "url" ∧ ∃ u : Safelist.HttpUrl,
            req.iocValue = u.text ∧ u.userinfo = none ∧ u.port = none ∧
              UnderDomain T value (String.ofList u.host))
      | .PRINCIPAL => False

end SafelistRegistry

namespace ResponseSafelist
open ContainmentExecute SafelistPolicy

variable {T : CharTable}

theorem normalizeEntry_ok {entryType value val : String} {kind : SafelistEntryType}
    (h : normalizeEntry T entryType value = .ok (kind, val)) :
    T.strip value ≠ "" ∧ Canonical T value kind val := by
  simp only [normalizeEntry] at h
  split at h
  · cases h
  · next etype _ =>
      split at h
      · cases h
      · next hblank =>
          split at h
          · cases h
          · cases etype with
            | IP =>
                simp only at h
                split at h
                · cases h
                · next hcanonical =>
                    cases h
                    exact ⟨hblank, hcanonical⟩
            | PRINCIPAL =>
                cases h
                exact ⟨hblank, rfl⟩
            | DOMAIN =>
                simp only at h
                split at h
                · next hmatch =>
                    cases h
                    exact ⟨hblank, rfl, hmatch⟩
                · cases h

-- The policy holds each entry as it reads once it is normalized twice.
theorem mem_merged {base extra : List String} {v : String} {f : String → String} (h : v ∈ extra)
    (hv : T.strip v ≠ "") (hf : T.strip (f v) ≠ "") :
    f (f v) ∈ (present T (base ++ (present T extra).map f)).map f := by
  have hmem : v ∈ present T extra := List.mem_filter.mpr ⟨h, by simpa using hv⟩
  apply List.mem_map_of_mem
  exact List.mem_filter.mpr ⟨List.mem_append_right _ (List.mem_map_of_mem hmem), by simpa using hf⟩

variable {rows : List ResponseSafelistRow} {orgId v : String}

theorem ip_listed (h : v ∈ entriesOf rows orgId "ip") (hv : T.strip v ≠ "") :
    T.strip v ∈ (loadPolicy T rows orgId).ips := by
  have hmem : T.strip (T.strip v) ∈ (loadPolicy T rows orgId).ips :=
    mem_merged h hv (by rwa [T.strip_strip])
  rwa [T.strip_strip] at hmem

theorem domain_listed (h : v ∈ entriesOf rows orgId "domain") (hv : T.strip v ≠ "")
    (hf : T.strip (normalizeSuffix T v) ≠ "") :
    normalizeSuffix T (normalizeSuffix T v) ∈ (loadPolicy T rows orgId).domainSuffixes :=
  mem_merged h hv hf

theorem principal_listed (h : v ∈ entriesOf rows orgId "principal") (hv : T.strip v ≠ "")
    (hf : T.strip (T.lower (T.strip v)) ≠ "") :
    T.lower (T.strip (T.lower (T.strip v))) ∈ (loadPolicy T rows orgId).principals :=
  mem_merged (f := fun p => T.lower (T.strip p)) h hv hf

section Domain
open Safelist BulkMitigation

variable {cs : List Char} {c : Char} {s value val : String}

theorem label_graphic (h : isLabelChar c = true) : Graphic c := by
  unfold isLabelChar Char.isAlphanum Char.isAlpha Char.isUpper Char.isLower Char.isDigit at h
  simp only [Bool.or_eq_true, Bool.and_eq_true, decide_eq_true_eq, beq_iff_eq,
    UInt32.le_iff_toNat_le] at h
  rcases h with ((h | h) | h) | rfl
  · exact ⟨le_trans (by decide) h.1, lt_of_le_of_lt h.2 (by decide)⟩
  · exact ⟨le_trans (by decide) h.1, lt_of_le_of_lt h.2 (by decide)⟩
  · exact ⟨le_trans (by decide) h.1, lt_of_le_of_lt h.2 (by decide)⟩
  · decide

theorem label_chars (h : isLabel cs = true) : cs ≠ [] ∧ ∀ c ∈ cs, Graphic c := by
  simp only [isLabel, Bool.and_eq_true, decide_eq_true_eq, List.all_eq_true] at h
  exact ⟨h.1.1.1.1, fun c hc => label_graphic (h.1.1.2 c hc)⟩

-- A domain is of graphic characters and does not end in a dot.
theorem matchesDomain_chars (h : matchesDomain s = true) :
    dropFinalNewline s.toList ≠ [] ∧ (∀ c ∈ dropFinalNewline s.toList, Graphic c) ∧
      (dropFinalNewline s.toList).getLast? ≠ some '.' := by
  simp only [matchesDomain, Bool.and_eq_true, decide_eq_true_eq, List.all_eq_true] at h
  obtain ⟨⟨-, htwo⟩, hlabels⟩ := h
  refine ⟨?_, ?_, ?_⟩
  · intro hnil
    simp [hnil] at htwo
  · intro c hc
    rcases eq_or_ne c '.' with rfl | hdot
    · decide
    · obtain ⟨l, hl, hcl⟩ := Lines.exists_mem_splitOn hc hdot
      exact (label_chars (hlabels l hl)).2 c hcl
  · intro hlast
    obtain ⟨ds, hds⟩ := List.getLast?_eq_some_iff.mp hlast
    have hempty : [] ∈ (dropFinalNewline s.toList).splitOn '.' := by
      rw [hds, List.splitOn_append_cons_self]
      simp
    exact (label_chars (hlabels [] hempty)).1 rfl

theorem dropFinalNewline_or (cs : List Char) :
    cs = dropFinalNewline cs ∨ cs = dropFinalNewline cs ++ ['\n'] := by
  rw [dropFinalNewline]
  split
  · next hlast =>
      obtain ⟨ds, rfl⟩ := List.getLast?_eq_some_iff.mp hlast
      simp
  · exact Or.inl rfl

theorem strip_concat (h : T.isSpace c = true) :
    T.strip (String.ofList (cs ++ [c])) = T.strip (String.ofList cs) := by
  simp only [CharTable.strip, String.toList_ofList, List.dropWhile_append]
  split
  · next hnil =>
      rw [List.isEmpty_iff.mp hnil]
      simp [h]
  · rw [List.rdropWhile_concat_pos _ _ _ h]

theorem strip_domain (h : matchesDomain s = true) :
    T.strip s = String.ofList (dropFinalNewline s.toList) := by
  obtain ⟨-, hgraphic, -⟩ := matchesDomain_chars h
  have hstrip := strip_graphic (T := T) hgraphic
  rcases dropFinalNewline_or s.toList with hs | hs
  · rw [← hs, String.ofList_toList] at hstrip ⊢
    exact hstrip
  · have hnewline : T.isSpace '\n' = true := by
      rw [T.space_ascii _ (by decide)]
      decide
    rw [← String.ofList_toList (s := s), hs, strip_concat hnewline, ← hs, String.ofList_toList,
      hstrip]

theorem normalizeSuffix_strip (s : String) :
    normalizeSuffix T (T.strip s) = normalizeSuffix T s := by
  simp only [normalizeSuffix, T.strip_strip]

theorem lower_fixed (hT : T.LowersOnce) (hascii : ∀ c ∈ (T.lower s).toList, c.toNat < 128) :
    ∀ c ∈ (T.lower s).toList, c.toLower = c := by
  have h := congrArg String.toList (T.lower_ascii _ hascii)
  rw [hT.lower_lower, String.toList_map] at h
  have hid : (T.lower s).toList.map id = (T.lower s).toList.map Char.toLower := by
    rwa [List.map_id]
  exact fun c hc => (List.map_inj_left.mp hid c hc).symm

theorem lower_domain (hT : T.LowersOnce) (h : matchesDomain (normalizeSuffix T value) = true) :
    ∀ c ∈ (normalizeSuffix T value).toList, c.toLower = c := by
  obtain ⟨-, hgraphic, -⟩ := matchesDomain_chars h
  have hval : (normalizeSuffix T value).toList =
      (T.lower (T.strip value)).toList.rdropWhile (· == '.') := String.toList_ofList
  have hascii : ∀ c ∈ (T.lower (T.strip value)).toList, c.toNat < 128 := by
    intro c hc
    rw [← List.rdropWhile_append_rtakeWhile (p := (· == '.')) (l := (T.lower _).toList), ← hval,
      List.mem_append] at hc
    rcases hc with hc | hc
    · rcases dropFinalNewline_or (normalizeSuffix T value).toList with hs | hs
      · exact (hgraphic c (hs ▸ hc)).2.trans (by decide)
      · rw [hs, List.mem_append, List.mem_singleton] at hc
        rcases hc with hc | rfl
        · exact (hgraphic c hc).2.trans (by decide)
        · decide
    · have hdot : c = '.' := by simpa using List.mem_rtakeWhile_imp hc
      rw [hdot]
      decide
  intro c hc
  exact lower_fixed hT hascii c ((List.rdropWhile_prefix _ _).mem (hval ▸ hc))

-- The blanks that a stored domain may end in go when the policy is built, and nothing else does.
theorem domain_stored (hT : T.LowersOnce) (h : Canonical T value .DOMAIN val) :
    T.strip val ≠ "" ∧ normalizeSuffix T val = T.strip val ∧
      normalizeSuffix T (T.strip val) = T.strip val := by
  obtain ⟨rfl, hmatch⟩ := h
  obtain ⟨hne, hgraphic, hlast⟩ := matchesDomain_chars hmatch
  have hstrip := strip_domain (T := T) hmatch
  have hlow : (dropFinalNewline (normalizeSuffix T value).toList).map Char.toLower =
      dropFinalNewline (normalizeSuffix T value).toList := by
    refine (List.map_congr_left fun c hc => ?_).trans (List.map_id _)
    apply lower_domain hT hmatch
    rcases dropFinalNewline_or (normalizeSuffix T value).toList with hs | hs
    · exact hs ▸ hc
    · exact hs ▸ List.mem_append_left _ hc
  have hself : normalizeSuffix T (T.strip (normalizeSuffix T value)) =
      T.strip (normalizeSuffix T value) := by
    rw [normalizeSuffix, T.strip_strip, hstrip, lower_graphic hgraphic, hlow, rstrip,
      String.toList_ofList, List.rdropWhile_eq_self_iff.mpr]
    intro hne hdot
    rw [beq_iff_eq] at hdot
    exact hlast (hdot ▸ List.getLast?_eq_some_getLast hne)
  refine ⟨?_, ?_, hself⟩
  · rw [hstrip, ← String.toList_inj.ne, String.toList_ofList]
    exact hne
  · exact (normalizeSuffix_strip _).symm.trans hself

end Domain

section Screened

variable {value val target : String}

theorem target_of_sameIp (h : SafelistRegistry.SameIp T value target)
    (hval : Canonical T value .IP val) : T.strip target = val := by
  obtain ⟨text, hv, ht, hform⟩ := h
  obtain rfl : text = val := Option.some.inj (hv.symm.trans hval)
  rcases hform with hform | hform
  · obtain ⟨ip, hip⟩ := Option.isSome_iff_exists.mp hform
    rw [IpAddress.canonicalText, hip] at ht
    rw [← Option.some.inj ht, Ipv4.text, ← Ipv4.chars_of_parse hip, String.ofList_toList]
  · exact hform

theorem canonicalText_empty : IpAddress.canonicalText "".toList = none := by
  decide

theorem screened_ip (hval : Canonical T value .IP val) (hin : val ∈ entriesOf rows orgId "ip")
    (hsame : SafelistRegistry.SameIp T value target) :
    (loadPolicy T rows orgId).ipSafelisted T target = true := by
  obtain rfl := target_of_sameIp hsame hval
  have hne : T.strip (T.strip target) ≠ "" := by
    obtain ⟨text, -, ht, -⟩ := hsame
    rw [T.strip_strip]
    intro hnil
    rw [hnil, canonicalText_empty] at ht
    cases ht
  have hlisted := ip_listed hin hne
  rw [T.strip_strip] at hlisted
  simp [ipSafelisted, hlisted]

theorem screened_domain (hT : T.LowersOnce) (hval : Canonical T value .DOMAIN val)
    (hin : val ∈ entriesOf rows orgId "domain")
    (hunder : SafelistRegistry.UnderDomain T value target) :
    (loadPolicy T rows orgId).domainSafelisted T target = true := by
  obtain ⟨hne, hstored, hself⟩ := domain_stored hT hval
  obtain ⟨rfl, -⟩ := hval
  have hlisted := domain_listed hin hne (by rwa [hstored, T.strip_strip])
  rw [hstored, hself] at hlisted
  have hhost : normalizeSuffix T target ≠ "" := by
    intro hnil
    rcases hunder with h | h
    · exact hne (h.symm.trans hnil)
    · simp [hnil, Safelist.EndsWith] at h
  simp only [domainSafelisted, Bool.and_eq_true, List.any_eq_true, decide_eq_true_eq,
    Bool.or_eq_true]
  exact ⟨hhost, _, hlisted, hunder⟩

theorem screened_principal (hT : T.LowersOnce) (hval : Canonical T value .PRINCIPAL val)
    (hne : T.strip value ≠ "") (hin : val ∈ entriesOf rows orgId "principal")
    (hsame : SafelistRegistry.SamePrincipal T value target) :
    (loadPolicy T rows orgId).principalSafelisted T target = true := by
  have hval : val = T.lower (T.strip value) := hval
  have hstrip : T.strip val = val := by rw [hval, hT.strip_lower, T.strip_strip]
  have hlower : T.lower val = val := by rw [hval, hT.lower_lower]
  have hval_ne : val ≠ "" := fun hnil => hne (hT.lower_ne _ (hval.symm.trans hnil))
  have hlisted := principal_listed hin (by rwa [hstrip]) (by rwa [hstrip, hlower, hstrip])
  rw [hstrip, hlower, hstrip, hlower] at hlisted
  have htarget : T.lower (T.strip target) = val := hsame.symm.trans hval.symm
  simp [principalSafelisted, htarget, hval_ne, hlisted]

end Screened

end ResponseSafelist

namespace SafelistRegistry
open ContainmentExecute ResponseSafelist SafelistPolicy

variable {T : CharTable} {s t : SafelistRegistry} {orgId value val : String}
  {kind : SafelistEntryType}

theorem listed_of_inForce (h : InForce s orgId kind val) :
    val ∈ entriesOf (s.rows.map stored) orgId kind.value := by
  obtain ⟨row, hrow, horg, htype, hval⟩ := h
  refine List.mem_map.mpr ⟨stored row, List.mem_filter.mpr ⟨List.mem_map_of_mem hrow, ?_⟩, hval⟩
  simp [stored, horg, htype]

theorem safelisted_of_inForce (hT : T.LowersOnce) (h : InForce s orgId kind val)
    (hne : T.strip value ≠ "") (hval : Canonical T value kind val) {req : Request}
    (horg : req.orgId = orgId) (hden : Denotes T kind value req) :
    req.safelisted T (s.rows.map stored) = true := by
  have hin := listed_of_inForce h
  rw [← horg] at hin
  cases req with
  | responseAction req =>
      cases kind with
      | IP =>
          obtain ⟨htype, hsame⟩ := hden
          simp only [Request.safelisted, targetSafelisted, htype, if_true]
          exact screened_ip hval hin hsame
      | DOMAIN =>
          obtain ⟨htype, hunder⟩ := hden
          simp only [Request.safelisted, targetSafelisted, htype]
          exact screened_domain hT hval hin hunder
      | PRINCIPAL =>
          obtain ⟨htype, hsame⟩ := hden
          have hip : req.actionType ≠ "block_ip" := by
            intro heq
            rw [heq] at htype
            revert htype
            decide
          have hdomain : req.actionType ≠ "block_domain" := by
            intro heq
            rw [heq] at htype
            revert htype
            decide
          simp only [Request.safelisted, targetSafelisted, if_neg hip, if_neg hdomain,
            if_pos htype]
          exact screened_principal hT hval hne hin hsame
  | bulkBlock req =>
      cases kind with
      | IP =>
          obtain ⟨htype, hsame⟩ := hden
          simp only [Request.safelisted, iocSafelisted, htype, if_true]
          exact screened_ip hval hin hsame
      | DOMAIN =>
          rcases hden with ⟨htype, hunder⟩ | ⟨htype, u, hu, huser, hport, hunder⟩
          · simp only [Request.safelisted, iocSafelisted, htype]
            exact screened_domain hT hval hin hunder
          · simp only [Request.safelisted, iocSafelisted, htype, hu, urlSafelisted,
              u.domainFromUrl_text, authority_no_port hport huser]
            exact screened_domain hT hval hin hunder
      | PRINCIPAL => exact hden.elim

-- What one event leaves of the rows and of the ledger.
theorem step_inForce (hids : (s.rows.map (·.id)).Nodup) {e : RegistryEvent}
    (h : step T s e = some t) :
    (t.rows.map (·.id)).Nodup ∧ ∃ added, t.trail = s.trail ++ added ∧
      ∀ orgId kind val, InForce s orgId kind val → InForce t orgId kind val ∨
        ∃ entry ∈ added, IsRemoval orgId kind val entry := by
  cases e with
  | addEntry id org entryType entered reason createdBy =>
      simp only [step, Option.map_eq_some_iff] at h
      obtain ⟨rows, hrows, rfl⟩ := h
      have hkeep : (rows.map (·.id)).Nodup ∧ s.rows <+: rows := by
        simp only [ResponseSafelist.addEntry] at hrows
        split at hrows
        · cases hrows
          exact ⟨hids, List.prefix_rfl⟩
        · split at hrows
          · cases hrows
            exact ⟨hids, List.prefix_rfl⟩
          · split at hrows
            · cases hrows
            · next hfresh =>
                cases hrows
                refine ⟨?_, List.prefix_append _ _⟩
                rw [List.map_append, List.map_singleton, List.nodup_append]
                refine ⟨hids, List.nodup_singleton _, ?_⟩
                rintro _ hmem _ hnew rfl
                obtain ⟨row, hrow, rfl⟩ := List.mem_map.mp hmem
                exact hfresh ⟨row, hrow, List.mem_singleton.mp hnew⟩
      refine ⟨hkeep.1, [], (List.append_nil _).symm, ?_⟩
      rintro orgId kind val ⟨row, hrow, hkey⟩
      exact Or.inl ⟨row, hkeep.2.mem hrow, hkey⟩
  | removeEntry org actorId entryId =>
      simp only [step] at h
      split at h
      · cases h
        exact ⟨hids, [], (List.append_nil _).symm, fun _ _ _ => Or.inl⟩
      · next row rows hremoved =>
          cases h
          simp only [ResponseSafelist.removeEntry] at hremoved
          split at hremoved
          · cases hremoved
          · next found hfound =>
              split at hremoved
              · cases hremoved
              · next horg =>
                  cases hremoved
                  have hmem := List.mem_of_find?_eq_some hfound
                  have hid : row.id = entryId := by simpa using List.find?_some hfound
                  refine ⟨(List.filter_sublist.map _).nodup hids, _, rfl, ?_⟩
                  rintro orgId kind val ⟨kept, hkept, hkey⟩
                  by_cases hsame : kept.id = entryId
                  · obtain rfl : kept = row :=
                      List.inj_on_of_nodup_map hids hkept hmem (hsame.trans hid.symm)
                    obtain ⟨rfl, rfl, rfl⟩ := hkey
                    refine Or.inr ⟨_, List.mem_singleton_self _, ?_, rfl, rfl, rfl⟩
                    exact (not_not.mp horg).symm
                  · exact Or.inl ⟨kept, List.mem_filter.mpr ⟨hkept, by simpa using hsame⟩, hkey⟩
  | execute S req =>
      cases h
      exact ⟨hids, _, rfl, fun _ _ _ => Or.inl⟩

theorem addEntry_inForce {id entryType entered reason : String} {createdBy : Option String}
    (hnorm : normalizeEntry T entryType entered = .ok (kind, val))
    (h : step T s (.addEntry id orgId entryType entered reason createdBy) = some t) :
    InForce t orgId kind val := by
  simp only [step, Option.map_eq_some_iff, ResponseSafelist.addEntry, hnorm] at h
  obtain ⟨rows, hrows, rfl⟩ := h
  split at hrows
  · next hlisted =>
      cases hrows
      exact hlisted
  · split at hrows
    · cases hrows
    · cases hrows
      exact ⟨_, List.mem_append_right _ (List.mem_singleton_self _), rfl, rfl, rfl⟩

-- Since a moment of the run: the entry stands, or the ledger says that it was removed.
def Accounted (since : SafelistRegistry) (orgId : String) (kind : SafelistEntryType) (val : String)
    (s : SafelistRegistry) : Prop :=
  (s.rows.map (·.id)).Nodup ∧ ∃ added, s.trail = since.trail ++ added ∧
    (InForce s orgId kind val ∨ ∃ entry ∈ added, IsRemoval orgId kind val entry)

theorem accounted_step {since : SafelistRegistry} {e : RegistryEvent}
    (hs : Accounted since orgId kind val s) (h : step T s e = some t) :
    Accounted since orgId kind val t := by
  obtain ⟨hids, added, htrail, hcase⟩ := hs
  obtain ⟨hids', more, hmore, hkept⟩ := step_inForce hids h
  refine ⟨hids', added ++ more, by rw [hmore, htrail, List.append_assoc], ?_⟩
  rcases hcase with hforce | ⟨entry, hentry, hremoval⟩
  · rcases hkept orgId kind val hforce with hforce | ⟨entry, hentry, hremoval⟩
    · exact Or.inl hforce
    · exact Or.inr ⟨entry, List.mem_append_right _ hentry, hremoval⟩
  · exact Or.inr ⟨entry, List.mem_append_left _ hentry, hremoval⟩

theorem ids_nodup {es : List RegistryEvent} (h : (machine T).run empty es = some s) :
    (s.rows.map (·.id)).Nodup := by
  refine (machine T).invariant_of_step (I := fun s => (s.rows.map fun row => row.id).Nodup) ?_
    (s := empty) List.nodup_nil h
  intro s e s' hids hstep
  exact (step_inForce (T := T) hids hstep).1

theorem listed_never_dispatched {T : CharTable} (hT : T.LowersOnce) {s₁ s₂ s₃ : SafelistRegistry}
    {es₁ es₂ : List RegistryEvent} {id orgId entryType value reason val : String}
    {createdBy : Option String} {kind : SafelistEntryType}
    (hreach : (machine T).run empty es₁ = some s₁)
    (hnorm : normalizeEntry T entryType value = .ok (kind, val))
    (hadd : (machine T).step s₁ (.addEntry id orgId entryType value reason createdBy) = some s₂)
    (hrun : (machine T).run s₂ es₂ = some s₃) {S : Services} {req : Request}
    (horg : req.orgId = orgId) (hden : Denotes T kind value req)
    (hdispatched : (req.execute T S (s₃.rows.map stored)).dispatched ≠ []) :
    ∃ added, s₃.trail = s₂.trail ++ added ∧ ∃ entry ∈ added, IsRemoval orgId kind val entry := by
  have hreached : (machine T).run empty
      (es₁ ++ [.addEntry id orgId entryType value reason createdBy]) = some s₂ :=
    (machine T).run_append.mpr ⟨s₁, hreach, (machine T).run_cons.mpr ⟨s₂, hadd, rfl⟩⟩
  have hstart : Accounted s₂ orgId kind val s₂ :=
    ⟨ids_nodup hreached, [], (List.append_nil _).symm, Or.inl (addEntry_inForce hnorm hadd)⟩
  obtain ⟨-, added, htrail, hforce | hremoval⟩ :=
    (machine T).invariant_of_step (I := Accounted s₂ orgId kind val) accounted_step hstart hrun
  · obtain ⟨hne, hval⟩ := normalizeEntry_ok hnorm
    have hsafe := safelisted_of_inForce hT hforce hne hval horg hden
    refine absurd ((leaves_execute req).refused (reply_none ?_)) hdispatched
    exact fun hgate => hgate.2 hsafe
  · exact ⟨added, htrail, hremoval⟩

def ownDomain : SafelistEntryRow :=
  ⟨"safe_1", "org_1", .DOMAIN, "example.com", "ours", some "usr_1"⟩

def blockDomain : Request := .responseAction {
  actorId := "usr_2"
  orgId := "org_1"
  actionId := "act_1"
  actionType := "block_domain"
  connector := "umbrella"
  target := "WWW.Example.com"
  description := ""
  approved := true }

theorem normalizeEntry_own :
    normalizeEntry .ascii "domain" "Example.com." = .ok (.DOMAIN, "example.com") := by
  have htype : CharTable.ascii.lower (CharTable.ascii.strip "domain") = "domain" := by
    decide +kernel
  have hstrip : CharTable.ascii.strip "Example.com." = "Example.com." := by decide +kernel
  have hhost : Safelist.rstrip '.' (CharTable.ascii.lower "Example.com.") = "example.com" := by
    decide +kernel
  have hmatch : BulkMitigation.matchesDomain "example.com" = true := by decide +kernel
  simp only [normalizeEntry, htype, entryTypeOf, hstrip, hhost, hmatch, if_true]
  rw [if_neg (by decide), if_neg (by decide)]

theorem listed_never_dispatched_removed :
    ∃ added, [removalRow "org_1" "usr_1" "safe_1" ownDomain] = [] ++ added ∧
      ∃ entry ∈ added, IsRemoval "org_1" .DOMAIN "example.com" entry := by
  have hadd : (machine .ascii).step empty
      (.addEntry "safe_1" "org_1" "domain" "Example.com." "ours" (some "usr_1")) =
        some ⟨[ownDomain], []⟩ := by
    have hstrip : CharTable.ascii.strip "ours" = "ours" := by decide +kernel
    simp [machine, step, empty, ResponseSafelist.addEntry, normalizeEntry_own, hstrip, ownDomain]
  have hrun : (machine .ascii).run ⟨[ownDomain], []⟩ [.removeEntry "org_1" "usr_1" "safe_1"] =
      some ⟨[], [removalRow "org_1" "usr_1" "safe_1" ownDomain]⟩ := rfl
  have hden : Denotes .ascii .DOMAIN "Example.com." blockDomain :=
    ⟨rfl, Or.inr (by decide +kernel)⟩
  have hdispatched : (blockDomain.execute .ascii lostConnection []).dispatched ≠ [] := by
    decide +kernel
  exact listed_never_dispatched CharTable.ascii_lowersOnce (Machine.run_nil _ _)
    normalizeEntry_own hadd hrun rfl hden hdispatched

end SafelistRegistry

end BTagent
