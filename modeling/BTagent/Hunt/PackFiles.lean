import BTagent.Data.CharTable
import BTagent.Data.Sha256
import BTagent.Hunt.Triage
import BTagent.Lib.Monads
import BTagent.Lib.OrderedDict
import Mathlib.Data.List.Sort

namespace BTagent

structure HuntPackRule where
  id : String
  title : String
  file : Option String
  sigmaYaml : String
  logsource : List (String × String)
  mitreTechniques : List String
  severity : Severity
  enabled : Bool
  notes : String
  pivotQuestions : List String
  deriving DecidableEq

structure HuntPack where
  id : String
  name : String
  version : String
  description : String
  rules : List HuntPackRule
  deriving DecidableEq

-- What the loader reads of the YAML of a rule; the id and the title are stripped texts of it.
structure SigmaSource where
  title : String
  explicitId : String
  logsource : List (String × String)
  techniques : List String
  severity : Severity

structure ManifestEntry where
  file : String
  enabled : Bool
  mitreTechniques : List String
  notes : String
  pivotQuestions : List String
  deriving DecidableEq

structure PackManifest where
  id : String
  name : String
  version : String
  description : String
  rules : List ManifestEntry

-- PyYAML, with `M` the texts of manifests: a text that is no YAML mapping of the expected kind is
-- refused, and what `safe_dump` writes `safe_load` reads.
structure PackYaml (M : Type) where
  readRule : String → Option SigmaSource
  readManifest : M → Option PackManifest
  writeManifest : PackManifest → M
  read_write : ∀ m, readManifest (writeManifest m) = some m

inductive PackLoadError where
  | noManifest
  | badManifest
  | noRuleFiles
  | missingFiles (files : List String)
  | badRule (file : String)
  | invalidRule (file : String)
  | duplicateIds (ids : List String)
  | invalidPack
  deriving DecidableEq

-- A pack directory: `pack.yaml` and the files of `rules/`.
structure PackDir (M : Type) where
  manifest : Option M
  rules : OrderedDict String String

namespace HuntPackFiles

variable {M : Type} (T : CharTable) (Y : PackYaml M)

def pathSuffix (name : String) : String :=
  let tail := name.toList.rtakeWhile (· ≠ '.')
  let head := name.toList.rdropWhile (· ≠ '.')
  if head.length ≤ 1 ∨ tail = [] then "" else String.ofList ('.' :: tail)

def pathStem (name : String) : String :=
  if pathSuffix name = "" then name
  else String.ofList (name.toList.rdropWhile (· ≠ '.')).dropLast

def ruleSuffixes : List String := [".yml", ".yaml"]

def deterministicId (kind : String) (parts : List String) : String :=
  kind ++ "_" ++ String.ofList ((sha256 ("\x1f".intercalate parts).toByteArray).toList.take 24)

-- `id`, where the rule states one, else an id derived from the file name and the text.
def ruleId (packId filename raw : String) (parsed : SigmaSource) : String :=
  if parsed.explicitId = "" then deterministicId "hrule" [packId, filename, raw] else parsed.explicitId

def blankEntry (filename : String) : ManifestEntry := ⟨filename, true, [], "", []⟩

def ruleFromSource (packId : String) (entry : ManifestEntry) (filename raw : String) :
    Except PackLoadError HuntPackRule :=
  match Y.readRule raw with
  | none => .error (.badRule filename)
  | some parsed =>
      if parsed.title.length ≤ 300 then
        .ok {
          id := ruleId packId filename raw parsed
          title := parsed.title
          file := some filename
          sigmaYaml := raw
          logsource := parsed.logsource
          mitreTechniques := if entry.mitreTechniques = [] then parsed.techniques
            else entry.mitreTechniques
          severity := parsed.severity
          enabled := entry.enabled
          notes := entry.notes
          pivotQuestions := entry.pivotQuestions }
      else .error (.invalidRule filename)

-- Of several entries for a file the last one counts.
def entryFor (manifest : PackManifest) (filename : String) : ManifestEntry :=
  (manifest.rules.reverse.find? (·.file = filename)).getD (blankEntry filename)

def loadedId (manifest : PackManifest) (packName : String) : String :=
  let stated := T.strip manifest.id
  if stated = "" then deterministicId "hpack" [packName,
    if manifest.version = "" then "0.0.0" else manifest.version] else stated

def sortedSources (sources : List (String × String)) : List (String × String) :=
  sources.insertionSort fun a b => a.1 ≤ b.1

def validPack (pack : HuntPack) : Bool :=
  (0 < pack.id.length ∧ pack.id.length ≤ 200) ∧ (0 < pack.name.length ∧ pack.name.length ≤ 200) ∧
    0 < pack.version.length ∧ pack.version.length ≤ 64

def displayName (manifest : PackManifest) (fallbackName : String) : String :=
  if manifest.name = "" then fallbackName else manifest.name

def missingFiles (manifest : PackManifest) (sources : List (String × String)) : List String :=
  (((manifest.rules.map (·.file)).filter (· ∉ sources.map Prod.fst)).dedup).insertionSort (· ≤ ·)

def rulesOf (manifest : PackManifest) (fallbackName : String) (sources : List (String × String)) :
    Except PackLoadError (List HuntPackRule) :=
  (sortedSources sources).mapM fun s =>
    ruleFromSource Y (loadedId T manifest (displayName manifest fallbackName)) (entryFor manifest s.1)
      s.1 s.2

def packOf (manifest : PackManifest) (fallbackName : String) (rules : List HuntPackRule) : HuntPack where
  id := loadedId T manifest (displayName manifest fallbackName)
  name := displayName manifest fallbackName
  version := if manifest.version = "" then "0.0.0" else manifest.version
  description := manifest.description
  rules := rules

def checkedPack (pack : HuntPack) : Except PackLoadError HuntPack :=
  let ids := pack.rules.map HuntPackRule.id
  if ids.Nodup then
    if validPack pack then .ok pack else .error .invalidPack
  else .error (.duplicateIds (((ids.filter (1 < ids.count ·)).dedup).insertionSort (· ≤ ·)))

def packFromSources (manifest : PackManifest) (sources : List (String × String))
    (fallbackName : String) : Except PackLoadError HuntPack :=
  if sources = [] then .error .noRuleFiles
  else if missingFiles manifest sources ≠ [] then .error (.missingFiles (missingFiles manifest sources))
  else
    match rulesOf T Y manifest fallbackName sources with
    | .error e => .error e
    | .ok rules => checkedPack (packOf T manifest fallbackName rules)

def ruleSources (rules : OrderedDict String String) : List (String × String) :=
  rules.entries.filter fun file => pathSuffix file.1 ∈ ruleSuffixes

def loadPack (dirName : String) (dir : PackDir M) : Except PackLoadError HuntPack :=
  match dir.manifest with
  | none => .error .noManifest
  | some text =>
      match Y.readManifest text with
      | none => .error .badManifest
      | some manifest => packFromSources T Y manifest (ruleSources dir.rules) dirName

end HuntPackFiles

namespace HuntPackFiles

variable {M : Type} {T : CharTable} {Y : PackYaml M} {manifest : PackManifest}
  {sources sources' : List (String × String)} {fallbackName packId filename raw : String}
  {entry : ManifestEntry} {rule : HuntPackRule} {rules : List HuntPackRule} {pack : HuntPack}

theorem missingFiles_eq_nil : missingFiles manifest sources = [] ↔
    ∀ e ∈ manifest.rules, e.file ∈ sources.map Prod.fst := by
  rw [missingFiles, ← List.length_eq_zero_iff, List.length_insertionSort, List.length_eq_zero_iff,
    List.dedup_eq_nil, List.filter_eq_nil_iff]
  simp only [List.forall_mem_map, decide_not, Bool.not_eq_true', decide_eq_false_iff_not, not_not]

theorem checkedPack_ok_iff {pack' : HuntPack} : checkedPack pack' = .ok pack ↔
    pack = pack' ∧ (pack'.rules.map HuntPackRule.id).Nodup ∧ validPack pack' = true := by
  simp only [checkedPack]
  by_cases hids : (pack'.rules.map HuntPackRule.id).Nodup
  · cases hvalid : validPack pack' <;> simp [hids, eq_comm]
  · simp [hids]

theorem packFromSources_ok_iff : packFromSources T Y manifest sources fallbackName = .ok pack ↔
    sources ≠ [] ∧ (∀ e ∈ manifest.rules, e.file ∈ sources.map Prod.fst) ∧
      ∃ rules, rulesOf T Y manifest fallbackName sources = .ok rules ∧
        pack = packOf T manifest fallbackName rules ∧ (rules.map HuntPackRule.id).Nodup ∧
        validPack (packOf T manifest fallbackName rules) = true := by
  rw [← missingFiles_eq_nil]
  unfold packFromSources
  split_ifs with hsources hmissing
  · simp [hsources]
  · simp [hmissing]
  · rw [ne_eq, not_not] at hmissing
    cases rulesOf T Y manifest fallbackName sources with
    | error e => simp
    | ok rules =>
        simp only [checkedPack_ok_iff, ne_eq, hsources, not_false_eq_true, hmissing, true_and,
          Except.ok.injEq, exists_eq_left']
        rfl

theorem ruleFromSource_ok (h : ruleFromSource Y packId entry filename raw = .ok rule) :
    rule.file = some filename ∧ rule.sigmaYaml = raw := by
  unfold ruleFromSource at h
  split at h
  · cases h
  · split at h
    · cases h
      exact ⟨rfl, rfl⟩
    · cases h

theorem rulesOf_files (h : rulesOf T Y manifest fallbackName sources = .ok rules) :
    rules.map (fun r => (r.file, r.sigmaYaml)) =
      (sortedSources sources).map fun s => (some s.1, s.2) := by
  have hall := Except.mapM_ok_iff.mp h
  generalize sortedSources sources = sorted at hall ⊢
  clear h
  induction hall with
  | nil => rfl
  | cons hrule _ ih =>
      obtain ⟨hfile, hyaml⟩ := ruleFromSource_ok hrule
      rw [List.map_cons, List.map_cons, ih, hfile, hyaml]

theorem sortedSources_perm : (sortedSources sources).Perm sources := List.perm_insertionSort _ _

theorem sortedSources_pairwise : (sortedSources sources).Pairwise fun a b => a.1 ≤ b.1 := by
  have : Std.Total fun a b : String × String => a.1 ≤ b.1 := ⟨fun a b => le_total a.1 b.1⟩
  have : IsTrans (String × String) fun a b => a.1 ≤ b.1 := ⟨fun _ _ _ => le_trans⟩
  exact List.pairwise_insertionSort _ _

theorem sortedSources_congr (hkeys : (sources.map Prod.fst).Nodup) (h : sources.Perm sources') :
    sortedSources sources = sortedSources sources' := by
  have hperm : (sortedSources sources).Perm (sortedSources sources') :=
    sortedSources_perm.trans (h.trans sortedSources_perm.symm)
  refine hperm.eq_of_pairwise ?_ sortedSources_pairwise sortedSources_pairwise
  intro a b ha hb hab hba
  have ha' := sortedSources_perm.mem_iff.mp ha
  have hb' := h.mem_iff.mpr (sortedSources_perm.mem_iff.mp hb)
  exact List.inj_on_of_nodup_map hkeys ha' hb' (le_antisymm hab hba)

theorem perm_of_same_pack (h : packFromSources T Y manifest sources fallbackName = .ok pack)
    (h' : packFromSources T Y manifest sources' fallbackName = .ok pack) : sources.Perm sources' := by
  obtain ⟨-, -, rules, hrules, rfl, -⟩ := packFromSources_ok_iff.mp h
  obtain ⟨-, -, rules', hrules', heq, -⟩ := packFromSources_ok_iff.mp h'
  obtain rfl : rules = rules' := congrArg HuntPack.rules heq
  have hsame := (rulesOf_files hrules).symm.trans (rulesOf_files hrules')
  have hinj : Function.Injective fun s : String × String => (some s.1, s.2) := by
    rintro ⟨a, b⟩ ⟨c, d⟩ heq
    simpa using heq
  have hsorted := List.map_injective_iff.mpr hinj hsame
  exact sortedSources_perm.symm.trans (hsorted ▸ sortedSources_perm)

theorem packFromSources_congr (hkeys : (sources.map Prod.fst).Nodup) (h : sources.Perm sources') :
    packFromSources T Y manifest sources fallbackName =
      packFromSources T Y manifest sources' fallbackName := by
  have hmem : ∀ f : String, f ∈ sources.map Prod.fst ↔ f ∈ sources'.map Prod.fst :=
    fun f => (h.map Prod.fst).mem_iff
  have hnil : sources = [] ↔ sources' = [] := by
    rw [← List.length_eq_zero_iff, h.length_eq, List.length_eq_zero_iff]
  have hmissing : missingFiles manifest sources = missingFiles manifest sources' := by
    simp only [missingFiles, hmem]
  have hrules : rulesOf T Y manifest fallbackName sources =
      rulesOf T Y manifest fallbackName sources' := by
    rw [rulesOf, rulesOf, sortedSources_congr hkeys h]
  simp only [packFromSources, hmissing, hrules, hnil]

end HuntPackFiles

end BTagent
