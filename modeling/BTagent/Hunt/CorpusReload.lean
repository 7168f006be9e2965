import BTagent.Hunt.CorpusPartition
import Mathlib.Data.List.Perm.Basic

namespace BTagent

namespace HuntCorpus

open HuntPackFiles

variable {M : Type} {T : CharTable} {Y : PackYaml M} {req : ImportRequest} {f : CorpusFile}
  {files : List CorpusFile} {rule : HuntPackRule} {packId dirName : String} {n : ℕ}
  {source : CorpusFile × HuntPackRule} {loaded : HuntPack}

theorem cut_ne_empty {s : String} (hn : 0 < n) (hs : s ≠ "") : cut n s ≠ "" := by
  intro h
  have hlist := congrArg String.toList h
  rw [cut, String.toList_ofList] at hlist
  rcases List.take_eq_nil_iff.mp hlist with h | h
  · omega
  · exact hs (String.toList_eq_nil_iff.mp h)

theorem length_cut_le {s : String} : (cut n s).length ≤ n := by
  rw [cut, String.length_ofList, List.length_take]
  exact Nat.min_le_left _ _

theorem length_deterministicId (kind : String) (parts : List String) :
    kind.length < (deterministicId kind parts).length ∧
      (deterministicId kind parts).length ≤ kind.length + 25 := by
  have hunderscore : "_".length = 1 := rfl
  have hdigest := List.length_take_le 24 (sha256 ("\x1f".intercalate parts).toByteArray).toList
  rw [← String.length_ofList] at hdigest
  rw [deterministicId, String.length_append, String.length_append, hunderscore]
  omega

theorem slugify_ne_empty {value fallback : String} (hn : 0 < n) (hfallback : fallback ≠ "") :
    slugify T value fallback n ≠ "" := by
  refine cut_ne_empty hn ?_
  split_ifs with hslug
  · exact hfallback
  · exact fun h => hslug (String.ofList_eq_empty_iff.mp h)

theorem ruleSlug_yml (T : CharTable) (f : CorpusFile) : ∃ name, name ≠ "" ∧ ruleSlug T f = name ++ ".yml" := by
  unfold ruleSlug
  dsimp only
  split_ifs with hslug
  · exact ⟨_, slugify_ne_empty (by decide) (by decide), rfl⟩
  · refine ⟨_, fun h => ?_, rfl⟩
    have hlist := congrArg String.length h
    rw [String.length_append, String.length_append] at hlist
    have hunderscore : "_".length = 1 := rfl
    have hempty : "".length = 0 := rfl
    omega

theorem pathSuffix_yml {name : String} (h : name ≠ "") : pathSuffix (name ++ ".yml") = ".yml" := by
  have hlist : (name ++ ".yml").toList = name.toList ++ ['.', 'y', 'm', 'l'] := by
    rw [String.toList_append]
    rfl
  have htail : (name.toList ++ ['.', 'y', 'm', 'l']).rtakeWhile (· ≠ '.') = ['y', 'm', 'l'] := by
    simp [List.rtakeWhile]
  have hhead : (name.toList ++ ['.', 'y', 'm', 'l']).rdropWhile (· ≠ '.') = name.toList ++ ['.'] := by
    simp [List.rdropWhile]
  have hlength : 0 < name.toList.length :=
    List.length_pos_iff.mpr fun hnil => h (String.toList_eq_nil_iff.mp hnil)
  have hfront : ¬ ((name.toList ++ ['.']).length ≤ 1 ∨ (['y', 'm', 'l'] : List Char) = []) := by
    rw [List.length_append, List.length_singleton]
    rintro (hshort | hnil)
    · omega
    · cases hnil
  rw [pathSuffix, hlist, htail, hhead, if_neg hfront]

variable (T) in
-- The id under which the loader reads the manifest.
def reloadedPackId (req : ImportRequest) : String :=
  if T.strip (resolvedPackId req) = "" then deterministicId "hpack" [packName req, req.version]
  else T.strip (resolvedPackId req)

variable (T Y req) in
def reloaded (rule : HuntPackRule) : HuntPackRule :=
  match Y.readRule rule.sigmaYaml with
  | none => rule
  | some parsed =>
      { rule with id := ruleId (reloadedPackId T req) (fileName rule) rule.sigmaYaml parsed }

theorem ruleFromSource_parsed {entry : ManifestEntry} {name raw : String}
    (h : ruleFromSource Y packId entry name raw = .ok rule) :
    ∃ parsed ∈ Y.readRule raw, parsed.title.length ≤ 300 ∧ rule =
      { id := ruleId packId name raw parsed
        title := parsed.title
        file := some name
        sigmaYaml := raw
        logsource := parsed.logsource
        mitreTechniques := if entry.mitreTechniques = [] then parsed.techniques
          else entry.mitreTechniques
        severity := parsed.severity
        enabled := entry.enabled
        notes := entry.notes
        pivotQuestions := entry.pivotQuestions } := by
  unfold ruleFromSource at h
  split at h
  · cases h
  · next parsed hparsed =>
      by_cases htitle : parsed.title.length ≤ 300
      · rw [if_pos htitle] at h
        exact ⟨parsed, hparsed, htitle, (Except.ok.inj h).symm⟩
      · rw [if_neg htitle] at h
        cases h

theorem fileRule_iff {parsed : HuntPackRule} : parsed ∈ fileRule Y packId f ↔
    ∃ raw ∈ f.text, ruleFromSource Y packId (blankEntry f.name) f.name raw = .ok parsed := by
  have htoOption : ∀ outcome : Except PackLoadError HuntPackRule,
      outcome.toOption = some parsed ↔ outcome = .ok parsed := by
    intro outcome
    cases outcome <;> simp [Except.toOption]
  rw [fileRule, Option.mem_def, Option.bind_eq_some_iff]
  exact exists_congr fun raw => and_congr_right fun _ => htoOption _

theorem ruleOf_fileName (h : RuleOf T Y packId f rule) : fileName rule = ruleSlug T f := by
  obtain ⟨parsed, -, rfl⟩ := h
  exact Option.getD_some

-- A rule is read from its file as it was imported, but for the id.
theorem reload_rule {entry : ManifestEntry} (h : RuleOf T Y packId f rule)
    (hentry : entry = ⟨fileName rule, rule.enabled, rule.mitreTechniques, rule.notes, []⟩) :
    ruleFromSource Y (reloadedPackId T req) entry (fileName rule) rule.sigmaYaml =
      .ok (reloaded T Y req rule) := by
  obtain ⟨imported, himported, rfl⟩ := h
  obtain ⟨raw, -, hraw⟩ := fileRule_iff.mp himported
  obtain ⟨parsed, hparsed, htitle, rfl⟩ := ruleFromSource_parsed hraw
  have hread : Y.readRule raw = some parsed := hparsed
  subst hentry
  simp only [ruleFromSource, reloaded, hread, if_pos htitle, blankEntry, fileName, Option.getD_some,
    if_true, Except.ok.injEq, HuntPackRule.mk.injEq, true_and, and_true]
  split_ifs <;> rfl

theorem packName_ne_empty : packName req ≠ "" := by
  refine cut_ne_empty (by decide) ?_
  cases hname : req.name.filter (· ≠ "") with
  | none =>
      rw [Option.getD_none]
      split_ifs with hroot
      · decide
      · exact hroot
  | some name =>
      have h := (Option.mem_filter_iff.mp hname).2
      rw [decide_eq_true_eq] at h
      exact h

theorem version_ne_empty : req.version ≠ "" := by
  intro h
  have hpos := req.version_valid.1
  rw [h] at hpos
  exact absurd hpos (by decide)

theorem displayName_import : displayName (manifestOf (importSigmaCorpus T Y req files)) dirName =
    packName req :=
  if_neg packName_ne_empty

theorem loadedId_import : loadedId T (manifestOf (importSigmaCorpus T Y req files)) (packName req) =
    reloadedPackId T req := by
  have hversion : (if req.version = "" then "0.0.0" else req.version) = req.version :=
    if_neg version_ne_empty
  unfold loadedId reloadedPackId
  change (if T.strip (resolvedPackId req) = "" then deterministicId "hpack" [packName req,
    if req.version = "" then "0.0.0" else req.version] else T.strip (resolvedPackId req)) = _
  rw [hversion]

theorem entryFor_import (hnames : ((importSigmaCorpus T Y req files).pack.rules.map fileName).Nodup)
    (h : rule ∈ (importSigmaCorpus T Y req files).pack.rules) :
    entryFor (manifestOf (importSigmaCorpus T Y req files)) (fileName rule) =
      ⟨fileName rule, rule.enabled, rule.mitreTechniques, rule.notes, []⟩ := by
  let entry := fun r : HuntPackRule =>
    (⟨fileName r, r.enabled, r.mitreTechniques, r.notes, []⟩ : ManifestEntry)
  have hkeys : (((importSigmaCorpus T Y req files).pack.rules.map entry).map (·.file)).Nodup := by
    rw [List.map_map]
    exact hnames
  have hfound := find?_reverse hkeys (List.mem_map_of_mem h : entry rule ∈ _)
  exact congrArg (Option.getD · _) hfound

theorem exists_source (h : rule ∈ (importSigmaCorpus T Y req files).pack.rules) :
    ∃ f, Installs T Y req files f rule := by
  rw [importSigmaCorpus_rules] at h
  obtain ⟨source, hsource, rfl⟩ := List.mem_map.mp h
  exact ⟨source.1, mem_installedSources.mp hsource⟩

theorem ruleSources_written (hnames : ((importSigmaCorpus T Y req files).pack.rules.map fileName).Nodup) :
    ruleSources (writeRules OrderedDict.empty (importSigmaCorpus T Y req files).pack.rules).2 =
      (importSigmaCorpus T Y req files).pack.rules.map fileEntry := by
  rcases writeRules_cases OrderedDict.empty (importSigmaCorpus T Y req files).pack.rules with
    ⟨-, -, hentries⟩ | ⟨hbad, -⟩
  · rw [ruleSources, hentries]
    refine List.filter_eq_self.mpr fun entry hentry => ?_
    obtain ⟨rule, hrule, rfl⟩ := List.mem_map.mp hentry
    obtain ⟨f, ⟨hruleOf, -⟩, -⟩ := exists_source hrule
    obtain ⟨name, hname, hslug⟩ := ruleSlug_yml T f
    have hsuffix : pathSuffix (fileName rule) = ".yml" := by
      rw [ruleOf_fileName hruleOf, hslug, pathSuffix_yml hname]
    rw [fileEntry, hsuffix]
    decide
  · exact absurd ⟨hnames, fun _ _ hkey => by cases hkey⟩ hbad

theorem rulesOf_written (dirName : String)
    (hnames : ((importSigmaCorpus T Y req files).pack.rules.map fileName).Nodup) :
    ∃ rules, rulesOf T Y (manifestOf (importSigmaCorpus T Y req files)) dirName
        ((importSigmaCorpus T Y req files).pack.rules.map fileEntry) = .ok rules ∧
      rules.Perm ((importSigmaCorpus T Y req files).pack.rules.map (reloaded T Y req)) := by
  let manifest := manifestOf (importSigmaCorpus T Y req files)
  let Reads := fun (entry : String × String) (rule : HuntPackRule) =>
    ruleFromSource Y (reloadedPackId T req) (entryFor manifest entry.1) entry.1 entry.2 = .ok rule
  have hreads : List.Forall₂ Reads ((importSigmaCorpus T Y req files).pack.rules.map fileEntry)
      ((importSigmaCorpus T Y req files).pack.rules.map (reloaded T Y req)) := by
    rw [List.forall₂_map_left_iff, List.forall₂_map_right_iff, List.forall₂_same]
    intro rule hrule
    obtain ⟨f, ⟨hruleOf, -⟩, -⟩ := exists_source hrule
    exact reload_rule hruleOf (entryFor_import hnames hrule)
  have hsorted := List.perm_comp_forall₂ sortedSources_perm hreads
  obtain ⟨rules, hrules, hperm⟩ := hsorted
  refine ⟨rules, ?_, hperm⟩
  rw [rulesOf, displayName_import, loadedId_import]
  exact Except.mapM_ok_iff.mpr hrules

theorem reloadedPackId_valid (T : CharTable) (req : ImportRequest) :
    0 < (reloadedPackId T req).length ∧ (reloadedPackId T req).length ≤ 200 := by
  unfold reloadedPackId
  split_ifs with hstrip
  · have h := length_deterministicId "hpack" [packName req, req.version]
    have hkind : "hpack".length = 5 := rfl
    omega
  · constructor
    · exact Nat.pos_of_ne_zero fun h => hstrip (String.length_eq_zero_iff.mp h)
    · have hstripped : (T.strip (resolvedPackId req)).length ≤ (resolvedPackId req).length := by
        rw [CharTable.strip, String.length_ofList, ← String.length_toList]
        exact (List.rdropWhile_prefix _ _).length_le.trans (List.dropWhile_suffix _).length_le
      exact hstripped.trans length_cut_le

theorem validPack_import {rules : List HuntPackRule} :
    validPack (packOf T (manifestOf (importSigmaCorpus T Y req files)) dirName rules) = true := by
  have hid := reloadedPackId_valid T req
  have hname : 0 < (packName req).length :=
    Nat.pos_of_ne_zero fun h => packName_ne_empty (String.length_eq_zero_iff.mp h)
  have hversion : (packOf T (manifestOf (importSigmaCorpus T Y req files)) dirName rules).version =
      req.version := if_neg version_ne_empty
  simp only [validPack, hversion, decide_eq_true_eq]
  simp only [packOf, displayName_import, loadedId_import]
  exact ⟨hid, ⟨hname, length_cut_le⟩, req.version_valid⟩

-- The pack that was written loads unless two of its rules get one id.
theorem loadPack_written (dirName : String) (hne : (importSigmaCorpus T Y req files).pack.rules ≠ [])
    (hnames : ((importSigmaCorpus T Y req files).pack.rules.map fileName).Nodup) :
    ∃ rules, rules.Perm ((importSigmaCorpus T Y req files).pack.rules.map (reloaded T Y req)) ∧
      ∀ loaded, loadPack T Y dirName (writtenDir Y (importSigmaCorpus T Y req files)) = .ok loaded ↔
        loaded = packOf T (manifestOf (importSigmaCorpus T Y req files)) dirName rules ∧
          (rules.map HuntPackRule.id).Nodup := by
  obtain ⟨rules, hrules, hperm⟩ := rulesOf_written dirName hnames
  refine ⟨rules, hperm, fun loaded => ?_⟩
  rw [writtenDir, loadPack_manifest (Y.read_write _), ruleSources_written hnames, packFromSources_ok_iff,
    hrules]
  constructor
  · rintro ⟨-, -, rules', hsame, rfl, hnodup, -⟩
    obtain rfl := Except.ok.inj hsame
    exact ⟨rfl, hnodup⟩
  · rintro ⟨rfl, hnodup⟩
    refine ⟨fun h => hne (List.map_eq_nil_iff.mp h), ?_, rules, rfl, rfl, hnodup, validPack_import⟩
    intro entry hentry
    obtain ⟨rule, hrule, rfl⟩ := List.mem_map.mp hentry
    exact List.mem_map.mpr ⟨fileEntry rule, List.mem_map_of_mem hrule, rfl⟩

variable (T Y) in
-- Wherever the pack may be written, it is, and the same rules are loaded from there.
def GivesBack (dirName : String) (result : CorpusImport) : Prop :=
  ∀ (dest : Option (PackDir M)) (overwrite : Bool), ¬ (dest.isSome ∧ overwrite = false) →
    ∃ dir loaded, writePackDir T Y dirName result dest overwrite = (.ok (), some dir) ∧
      loadPack T Y dirName dir = .ok loaded ∧ loaded.rules.Perm result.pack.rules

structure Imports (T : CharTable) (Y : PackYaml M) (req : ImportRequest) (dirName : String)
    (files : List CorpusFile) : Prop where
  partition : Partition T Y (resolvedPackId req) (scannedFiles T req files)
    (importSigmaCorpus T Y req files).pack.rules (importSigmaCorpus T Y req files).skipped
  counted : (importSigmaCorpus T Y req files).pack.rules.length +
    (importSigmaCorpus T Y req files).skipped.length = (importSigmaCorpus T Y req files).scanned
  ids : ((importSigmaCorpus T Y req files).pack.rules.map HuntPackRule.id).Nodup
  fileNames : ((importSigmaCorpus T Y req files).pack.rules.map fileName).Nodup
  givesBack : GivesBack T Y dirName (importSigmaCorpus T Y req files)

-- The rule states its id, or the derived id is the same under the slug as under the file name.
def KeepsId (T : CharTable) (Y : PackYaml M) (req : ImportRequest) (f : CorpusFile) : Prop :=
  ∀ raw ∈ f.text, ∀ parsed ∈ Y.readRule raw, parsed.explicitId = "" →
    deterministicId "hrule" [reloadedPackId T req, ruleSlug T f, raw] =
      deterministicId "hrule" [resolvedPackId req, f.name, raw]

structure Distinguished (T : CharTable) (Y : PackYaml M) (req : ImportRequest)
    (files : List CorpusFile) : Prop where
  installs : ∃ f rule, Installs T Y req files f rule
  slugs : ∀ f rule g rule', Installs T Y req files f rule → Installs T Y req files g rule' →
    ruleSlug T f = ruleSlug T g → f = g
  ids : ∀ f rule, Installs T Y req files f rule → KeepsId T Y req f

theorem partition_count {scanned : List CorpusFile} {rules : List HuntPackRule} {skips : List RuleSkip}
    (h : Partition T Y packId scanned rules skips) : rules.length + skips.length = scanned.length := by
  obtain ⟨installed, skipped, hperm, rfl, rfl, -⟩ := h
  simpa only [List.length_append, List.length_map] using hperm.length_eq

theorem import_ids : ((importSigmaCorpus T Y req files).pack.rules.map HuntPackRule.id).Nodup := by
  rw [importSigmaCorpus_rules, List.map_map]
  exact installedSources_ids

theorem ruleOf_unique {rule' : HuntPackRule} (h : RuleOf T Y packId f rule)
    (h' : RuleOf T Y packId f rule') : rule = rule' := by
  obtain ⟨parsed, hparsed, rfl⟩ := h
  obtain ⟨parsed', hparsed', rfl⟩ := h'
  obtain rfl : parsed = parsed' := Option.some.inj (hparsed.symm.trans hparsed')
  rfl

theorem fileNames_iff : ((importSigmaCorpus T Y req files).pack.rules.map fileName).Nodup ↔
    ∀ f rule g rule', Installs T Y req files f rule → Installs T Y req files g rule' →
      ruleSlug T f = ruleSlug T g → f = g := by
  rw [importSigmaCorpus_rules, List.map_map]
  constructor
  · intro hnodup f rule g rule' hf hg hslug
    have hname : fileName rule = fileName rule' := by
      rw [ruleOf_fileName hf.1.1, ruleOf_fileName hg.1.1, hslug]
    have hf' : (f, rule) ∈ installedSources T Y req files := mem_installedSources.mpr hf
    have hg' : (g, rule') ∈ installedSources T Y req files := mem_installedSources.mpr hg
    exact congrArg Prod.fst (List.inj_on_of_nodup_map hnodup hf' hg' hname)
  · intro hslugs
    refine List.Nodup.map_on ?_ (List.Nodup.of_map _ installedSources_ids)
    rintro ⟨f, rule⟩ hf ⟨g, rule'⟩ hg hname
    have hf' := mem_installedSources.mp hf
    have hg' := mem_installedSources.mp hg
    have hslug : ruleSlug T f = ruleSlug T g := by
      rw [← ruleOf_fileName hf'.1.1, ← ruleOf_fileName hg'.1.1]
      exact hname
    obtain rfl := hslugs f rule g rule' hf' hg' hslug
    exact congrArg (Prod.mk f) (ruleOf_unique hf'.1.1 hg'.1.1)

theorem reloaded_fileName : fileName (reloaded T Y req rule) = fileName rule := by
  unfold reloaded
  split <;> rfl

theorem ruleOf_source (h : RuleOf T Y packId f rule) : rule.sigmaYaml ∈ f.text ∧
    ∃ parsed ∈ Y.readRule rule.sigmaYaml, rule.id = ruleId packId f.name rule.sigmaYaml parsed := by
  obtain ⟨imported, himported, rfl⟩ := h
  obtain ⟨raw, htext, hraw⟩ := fileRule_iff.mp himported
  obtain ⟨parsed, hparsed, -, rfl⟩ := ruleFromSource_parsed hraw
  exact ⟨htext, parsed, hparsed, rfl⟩

theorem withId_eq_iff {i : String} : { rule with id := i } = rule ↔ i = rule.id := by
  cases rule
  simp only [HuntPackRule.mk.injEq, and_true]

theorem reloaded_eq_iff (h : RuleOf T Y (resolvedPackId req) f rule) :
    reloaded T Y req rule = rule ↔ KeepsId T Y req f := by
  obtain ⟨htext, parsed, hparsed, hid⟩ := ruleOf_source h
  have hslug := ruleOf_fileName h
  have hread : Y.readRule rule.sigmaYaml = some parsed := hparsed
  have hreloaded : reloaded T Y req rule =
      { rule with id := ruleId (reloadedPackId T req) (ruleSlug T f) rule.sigmaYaml parsed } := by
    simp only [reloaded, hread, hslug]
  have hkeeps : KeepsId T Y req f ↔ (parsed.explicitId = "" →
      deterministicId "hrule" [reloadedPackId T req, ruleSlug T f, rule.sigmaYaml] =
        deterministicId "hrule" [resolvedPackId req, f.name, rule.sigmaYaml]) := by
    constructor
    · exact fun h => h _ htext parsed hparsed
    · intro h raw htext' parsed' hparsed'
      obtain rfl : rule.sigmaYaml = raw := Option.some.inj (htext.symm.trans htext')
      obtain rfl := Option.some.inj (hparsed.symm.trans hparsed')
      exact h
  rw [hreloaded, withId_eq_iff, hid, hkeeps, ruleId, ruleId]
  by_cases hexplicit : parsed.explicitId = ""
  · rw [if_pos hexplicit, if_pos hexplicit]
    exact ⟨fun h _ => h, fun h => h hexplicit⟩
  · rw [if_neg hexplicit, if_neg hexplicit]
    exact iff_of_true rfl fun h => absurd h hexplicit

theorem mem_rules (h : Installs T Y req files f rule) :
    rule ∈ (importSigmaCorpus T Y req files).pack.rules := by
  rw [importSigmaCorpus_rules]
  exact List.mem_map.mpr ⟨(f, rule), mem_installedSources.mpr h, rfl⟩

theorem writes_of_names (hnames : ((importSigmaCorpus T Y req files).pack.rules.map fileName).Nodup) :
    (writeRules OrderedDict.empty (importSigmaCorpus T Y req files).pack.rules).1 = .ok () := by
  rcases writeRules_cases OrderedDict.empty (importSigmaCorpus T Y req files).pack.rules with
    ⟨-, hok, -⟩ | ⟨-, hname⟩
  · exact hok
  · exact absurd hnames (collides_iff.mp hname)

theorem givesBack_of_kept (dirName : String)
    (hne : (importSigmaCorpus T Y req files).pack.rules ≠ [])
    (hnames : ((importSigmaCorpus T Y req files).pack.rules.map fileName).Nodup)
    (hkept : ∀ f rule, Installs T Y req files f rule → KeepsId T Y req f) :
    GivesBack T Y dirName (importSigmaCorpus T Y req files) := by
  have hsame : (importSigmaCorpus T Y req files).pack.rules.map (reloaded T Y req) =
      (importSigmaCorpus T Y req files).pack.rules := by
    refine (List.map_congr_left fun rule hrule => ?_).trans (List.map_id _)
    obtain ⟨f, hf⟩ := exists_source hrule
    exact (reloaded_eq_iff hf.1.1).mpr (hkept f rule hf)
  obtain ⟨rules, hperm, hload⟩ := loadPack_written dirName hne hnames
  rw [hsame] at hperm
  have hids : (rules.map HuntPackRule.id).Nodup := (hperm.map _).nodup_iff.mpr import_ids
  have hloaded := (hload _).mpr ⟨rfl, hids⟩
  have hreads : ReadsBack T Y dirName (importSigmaCorpus T Y req files) :=
    ⟨_, hloaded, fun i => (hperm.map HuntPackRule.id).mem_iff⟩
  intro dest overwrite hover
  rcases write_verified T Y dirName hne (writes_of_names hnames) dest hover with
    ⟨-, hwrite⟩ | ⟨hbad, -⟩
  · exact ⟨_, _, hwrite, hloaded, hperm⟩
  · exact absurd hreads hbad

theorem givesBack_none (h : GivesBack T Y dirName (importSigmaCorpus T Y req files))
    (hnames : ((importSigmaCorpus T Y req files).pack.rules.map fileName).Nodup) :
    (importSigmaCorpus T Y req files).pack.rules ≠ [] ∧
      ((importSigmaCorpus T Y req files).pack.rules.map (reloaded T Y req)).Perm
        (importSigmaCorpus T Y req files).pack.rules := by
  have hover : ¬ ((none : Option (PackDir M)).isSome ∧ false = false) := by simp
  obtain ⟨dir, loaded, hwrite, hload, hperm⟩ := h none false hover
  have hne : (importSigmaCorpus T Y req files).pack.rules ≠ [] := by
    intro hnil
    have hrefused : writePackDir T Y dirName (importSigmaCorpus T Y req files) none false =
        (.error .emptyPack, none) := by
      rw [writePackDir, if_neg hover, if_pos hnil]
      rfl
    rw [hrefused] at hwrite
    cases hwrite
  refine ⟨hne, ?_⟩
  rcases write_verified T Y dirName hne (writes_of_names hnames) none hover with
    ⟨-, hwritten⟩ | ⟨-, e, hfailed⟩
  · rw [hwritten] at hwrite
    obtain rfl := Option.some.inj (Prod.mk.inj hwrite).2
    obtain ⟨rules, hrules, hload'⟩ := loadPack_written dirName hne hnames
    obtain ⟨rfl, -⟩ := (hload' loaded).mp hload
    exact hrules.symm.trans hperm
  · rw [hfailed] at hwrite
    cases hwrite

section Example

def psexecText : String := "title: PsExec service\nid: r2\n"

theorem some_kept (manifest : PackManifest) : some (id manifest) = some manifest := rfl

def twoRuleYaml : PackYaml PackManifest where
  readRule := fun raw =>
    if raw = lsassText then some ⟨"LSASS memory read", "r1", [], [], .HIGH⟩
    else if raw = psexecText then some ⟨"PsExec service", "r2", [], [], .HIGH⟩
    else none
  readManifest := some
  writeManifest := id
  read_write := some_kept

def underscoredFiles : List CorpusFile :=
  [⟨["win"], "proc_access.yml", some lsassText⟩, ⟨["win_proc"], "access.yml", some psexecText⟩]

-- `win/proc_access.yml` and `win_proc/access.yml` have one slug.
theorem slugs_collide : ¬ Imports CharTable.ascii twoRuleYaml corpusRequest "baseline" underscoredFiles := by
  intro h
  exact absurd h.fileNames (by decide +kernel)

end Example

theorem imports_iff (T : CharTable) (Y : PackYaml M) (req : ImportRequest) (dirName : String)
    (files : List CorpusFile) : Imports T Y req dirName files ↔ Distinguished T Y req files := by
  constructor
  · intro h
    obtain ⟨hne, hperm⟩ := givesBack_none h.givesBack h.fileNames
    refine ⟨?_, fileNames_iff.mp h.fileNames, fun f rule hf => ?_⟩
    · obtain ⟨rule, hrule⟩ := List.exists_mem_of_ne_nil _ hne
      obtain ⟨f, hf⟩ := exists_source hrule
      exact ⟨f, rule, hf⟩
    · rw [← reloaded_eq_iff hf.1.1]
      have hrule := mem_rules hf
      have hreloaded := hperm.mem_iff.mp (List.mem_map_of_mem hrule)
      exact List.inj_on_of_nodup_map h.fileNames hreloaded hrule reloaded_fileName
  · intro h
    obtain ⟨f, rule, hf⟩ := h.installs
    have hnames := fileNames_iff.mpr h.slugs
    have hpartition := import_partition T Y req files
    refine ⟨hpartition, partition_count hpartition, import_ids, hnames, ?_⟩
    exact givesBack_of_kept dirName (List.ne_nil_of_mem (mem_rules hf)) hnames h.ids

end HuntCorpus

end BTagent
