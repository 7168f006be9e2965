import BTagent.Hunt.InstallAtomic
import BTagent.Lib.Firsts

namespace BTagent

namespace HuntCorpus

open HuntPackFiles

variable {M : Type} {T : CharTable} {Y : PackYaml M} {req : ImportRequest} {s : Parsing}
  {f : CorpusFile} {scanned files : List CorpusFile} {rule : HuntPackRule} {packId : String}
  {sources : List (CorpusFile × HuntPackRule)}

variable (Y) in
-- The rule of a file, where it has one.
def fileRule (packId : String) (f : CorpusFile) : Option HuntPackRule :=
  f.text.bind fun raw => (ruleFromSource Y packId (blankEntry f.name) f.name raw).toOption

-- The rule of a file as it is installed, under the file name of its slug.
def RuleOf (T : CharTable) (Y : PackYaml M) (packId : String) (f : CorpusFile)
    (rule : HuntPackRule) : Prop :=
  ∃ parsed ∈ fileRule Y packId f, rule = { parsed with file := some (ruleSlug T f) }

-- No earlier file has a rule of this id.
def FirstOfId (T : CharTable) (Y : PackYaml M) (packId : String) (scanned : List CorpusFile)
    (f : CorpusFile) (rule : HuntPackRule) : Prop :=
  RuleOf T Y packId f rule ∧ ∃ pre post, scanned = pre ++ f :: post ∧
    ∀ g ∈ pre, ∀ r ∈ fileRule Y packId g, r.id ≠ rule.id

-- Each scanned file has its rule among `rules` or its record among `skips`, and only one of them.
def Partition (T : CharTable) (Y : PackYaml M) (packId : String) (scanned : List CorpusFile)
    (rules : List HuntPackRule) (skips : List RuleSkip) : Prop :=
  ∃ (installed : List (CorpusFile × HuntPackRule)) (skipped : List (CorpusFile × RuleSkip)),
    (installed.map Prod.fst ++ skipped.map Prod.fst).Perm scanned ∧
      installed.map Prod.snd = rules ∧ skipped.map Prod.snd = skips ∧
      (∀ x ∈ installed, RuleOf T Y packId x.1 x.2) ∧ ∀ x ∈ skipped, x.2.file = CorpusFile.rel x.1

variable (T) in
def scannedFiles (req : ImportRequest) (files : List CorpusFile) : List CorpusFile :=
  match req.maxRules with
  | none => files.filter (isSigmaFile T)
  | some cap => (files.filter (isSigmaFile T)).take cap

-- What the import holds after the files `done`.
structure Parsed (T : CharTable) (Y : PackYaml M) (packId : String) (done : List CorpusFile)
    (s : Parsing) : Prop where
  split : ∃ skipped : List (CorpusFile × RuleSkip),
    (s.parsed.map Prod.fst ++ skipped.map Prod.fst).Perm done ∧ skipped.map Prod.snd = s.skipped ∧
      ∀ x ∈ skipped, x.2.file = CorpusFile.rel x.1
  ids : (s.parsed.map fun x => x.2.id).Nodup
  seen : ∀ i, i ∈ s.parsed.map (fun x => x.2.id) ↔ ∃ g ∈ done, ∃ r ∈ fileRule Y packId g, r.id = i
  first : ∀ x, x ∈ s.parsed ↔ FirstOfId T Y packId done x.1 x.2

theorem importedFrom_eq_none {i : String} :
    importedFrom s i = none ↔ i ∉ s.parsed.map fun x => x.2.id := by
  simp only [importedFrom, Option.map_eq_none_iff, List.find?_eq_none, decide_eq_true_eq, List.mem_map,
    not_exists, not_and]

theorem importFile_cases (T : CharTable) (Y : PackYaml M) (packId : String) (s : Parsing)
    (f : CorpusFile) :
    (∃ skip : RuleSkip, skip.file = CorpusFile.rel f ∧
      importFile T Y packId s f = { s with skipped := s.skipped ++ [skip] } ∧
        ∀ rule ∈ fileRule Y packId f, rule.id ∈ s.parsed.map fun x => x.2.id) ∨
    ∃ rule ∈ fileRule Y packId f, rule.id ∉ s.parsed.map (fun x => x.2.id) ∧
      importFile T Y packId s f =
        { s with parsed := s.parsed ++ [(f, { rule with file := some (ruleSlug T f) })] } := by
  unfold importFile fileRule
  cases f.text with
  | none => exact Or.inl ⟨_, rfl, rfl, fun rule hrule => by cases hrule⟩
  | some raw =>
      dsimp only [Option.bind_some]
      cases ruleFromSource Y packId (blankEntry f.name) f.name raw with
      | error e => exact Or.inl ⟨_, rfl, rfl, fun rule hrule => by cases hrule⟩
      | ok rule =>
          dsimp only
          cases hfrom : importedFrom s rule.id with
          | none => exact Or.inr ⟨rule, rfl, importedFrom_eq_none.mp hfrom, rfl⟩
          | some rel =>
              refine Or.inl ⟨_, rfl, rfl, ?_⟩
              intro rule' hrule
              obtain rfl : rule = rule' := Option.some.inj hrule
              by_contra hnew
              rw [importedFrom_eq_none.mpr hnew] at hfrom
              cases hfrom

theorem firstOfId_append {g : CorpusFile} : FirstOfId T Y packId (scanned ++ [g]) f rule ↔
    FirstOfId T Y packId scanned f rule ∨ (f = g ∧ RuleOf T Y packId f rule ∧
      ∀ g ∈ scanned, ∀ r ∈ fileRule Y packId g, r.id ≠ rule.id) := by
  rw [FirstOfId, exists_split_concat, and_or_left, FirstOfId, and_left_comm]

theorem parsed_skip {done : List CorpusFile} {skip : RuleSkip} (h : Parsed T Y packId done s)
    (hfile : skip.file = CorpusFile.rel f)
    (hseen : ∀ rule ∈ fileRule Y packId f, rule.id ∈ s.parsed.map fun x => x.2.id) :
    Parsed T Y packId (done ++ [f]) { s with skipped := s.skipped ++ [skip] } := by
  refine ⟨?_, h.ids, fun i => ?_, fun x => ?_⟩
  · obtain ⟨skipped, hperm, hskips, hfiles⟩ := h.split
    refine ⟨skipped ++ [(f, skip)], ?_, by rw [List.map_append, hskips]; rfl, ?_⟩
    · rw [List.map_append, ← List.append_assoc]
      exact hperm.append_right [f]
    · intro x hx
      rcases List.mem_append.mp hx with hx | hx
      · exact hfiles x hx
      · obtain rfl := List.mem_singleton.mp hx
        exact hfile
  · rw [h.seen]
    constructor
    · exact fun ⟨g, hg, hrule⟩ => ⟨g, List.mem_append_left _ hg, hrule⟩
    · rintro ⟨g, hg, rule, hrule, rfl⟩
      rcases List.mem_append.mp hg with hg | hg
      · exact ⟨g, hg, rule, hrule, rfl⟩
      · obtain rfl := List.mem_singleton.mp hg
        exact (h.seen _).mp (hseen rule hrule)
  · rw [firstOfId_append, h.first]
    refine (or_iff_left ?_).symm
    rintro ⟨rfl, ⟨parsed, hparsed, hrule⟩, hnew⟩
    have hid : x.2.id = parsed.id := by rw [hrule]
    obtain ⟨g, hg, r, hr, hsame⟩ := (h.seen _).mp (hseen parsed hparsed)
    exact hnew g hg r hr (hsame.trans hid.symm)

theorem parsed_rule {done : List CorpusFile} (h : Parsed T Y packId done s)
    (hrule : rule ∈ fileRule Y packId f) (hnew : rule.id ∉ s.parsed.map fun x => x.2.id) :
    Parsed T Y packId (done ++ [f])
      { s with parsed := s.parsed ++ [(f, { rule with file := some (ruleSlug T f) })] } := by
  refine ⟨?_, ?_, fun i => ?_, fun x => ?_⟩
  · obtain ⟨skipped, hperm, hskips, hfiles⟩ := h.split
    refine ⟨skipped, ?_, hskips, hfiles⟩
    rw [List.map_append, List.append_assoc]
    exact (List.perm_append_comm.append_left _).trans
      (List.append_assoc _ _ [f] ▸ hperm.append_right [f])
  · rw [List.map_append, List.map_singleton, List.nodup_append]
    refine ⟨h.ids, List.nodup_singleton _, ?_⟩
    rintro i hi _ hj rfl
    obtain rfl := List.mem_singleton.mp hj
    exact hnew hi
  · rw [List.map_append, List.mem_append, h.seen, List.map_singleton, List.mem_singleton]
    constructor
    · rintro (⟨g, hg, hr⟩ | rfl)
      · exact ⟨g, List.mem_append_left _ hg, hr⟩
      · exact ⟨f, List.mem_append_right _ (List.mem_singleton_self f), rule, hrule, rfl⟩
    · rintro ⟨g, hg, r, hr, rfl⟩
      rcases List.mem_append.mp hg with hg | hg
      · exact Or.inl ⟨g, hg, r, hr, rfl⟩
      · obtain rfl := List.mem_singleton.mp hg
        obtain rfl : r = rule := Option.some.inj (hr.symm.trans hrule)
        exact Or.inr rfl
  · rw [firstOfId_append, List.mem_append, h.first, List.mem_singleton]
    refine or_congr_right ⟨?_, ?_⟩
    · rintro rfl
      refine ⟨rfl, ⟨rule, hrule, rfl⟩, fun g hg r hr hid => ?_⟩
      exact hnew ((h.seen _).mpr ⟨g, hg, r, hr, hid⟩)
    · obtain ⟨g, r⟩ := x
      rintro ⟨rfl, ⟨parsed, hparsed, hr⟩, -⟩
      obtain rfl := Option.some.inj (hparsed.symm.trans hrule)
      exact congrArg (Prod.mk g) hr

theorem parsed_step {done : List CorpusFile} (h : Parsed T Y packId done s) :
    Parsed T Y packId (done ++ [f]) (importFile T Y packId s f) := by
  rcases importFile_cases T Y packId s f with ⟨skip, hfile, hs, hseen⟩ | ⟨rule, hrule, hnew, hs⟩
  · exact hs ▸ parsed_skip h hfile hseen
  · exact hs ▸ parsed_rule h hrule hnew

theorem parsed_run (T : CharTable) (Y : PackYaml M) (packId : String) (scanned : List CorpusFile) :
    Parsed T Y packId scanned (scanned.foldl (importFile T Y packId) ⟨[], []⟩) := by
  induction scanned using List.reverseRecOn with
  | nil =>
      refine ⟨⟨[], List.Perm.nil, rfl, fun x hx => by cases hx⟩, List.nodup_nil, fun i => ?_, fun x => ?_⟩
      · refine iff_of_false (fun hi => by cases hi) ?_
        rintro ⟨g, hg, -⟩
        cases hg
      · refine iff_of_false (fun hx => by cases hx) ?_
        rintro ⟨-, pre, post, hsplit, -⟩
        exact List.append_ne_nil_of_right_ne_nil pre (List.cons_ne_nil _ post) hsplit.symm
  | append_singleton scanned f ih =>
      rw [List.foldl_append]
      exact parsed_step ih

theorem find?_reverse {α β : Type*} [DecidableEq β] {key : α → β} {xs : List α} {a : α}
    (h : (xs.map key).Nodup) (ha : a ∈ xs) : xs.reverse.find? (fun x => key x = key a) = some a := by
  cases hfind : xs.reverse.find? (fun x => key x = key a) with
  | none =>
      have hne := List.find?_eq_none.mp hfind a (List.mem_reverse.mpr ha)
      exact absurd (decide_eq_true rfl) hne
  | some b =>
      have hb := List.mem_reverse.mp (List.mem_of_find?_eq_some hfind)
      have hkey := List.find?_some hfind
      rw [decide_eq_true_eq] at hkey
      rw [List.inj_on_of_nodup_map h hb ha hkey]

def Transpiles (T : CharTable) (req : ImportRequest) (rule : HuntPackRule) : Prop :=
  req.checkTranspile = true → (transpileRule T req rule).ok ≠ []

variable (T) in
-- The reports of the import over the parsed rules.
def reportsOf (req : ImportRequest) (parsed : List (CorpusFile × HuntPackRule)) : List RuleTranspile :=
  if req.checkTranspile then parsed.map fun source => transpileRule T req source.2 else []

theorem usable_iff {parsed : List (CorpusFile × HuntPackRule)} {source : CorpusFile × HuntPackRule}
    (hids : (parsed.map fun x => x.2.id).Nodup) (h : source ∈ parsed) :
    usable (reportsOf T req parsed) source.2 = true ↔ Transpiles T req source.2 := by
  unfold reportsOf Transpiles
  split_ifs with hcheck
  · have hreports : ((parsed.map fun x => transpileRule T req x.2).map (·.ruleId)).Nodup := by
      rw [List.map_map]
      exact hids
    have hfound : reportFor (parsed.map fun x => transpileRule T req x.2) source.2 =
        some (transpileRule T req source.2) :=
      find?_reverse hreports (List.mem_map_of_mem h)
    rw [usable, hfound, Option.all_some, decide_eq_true_eq]
    exact ⟨fun h _ => h, fun h => h hcheck⟩
  · exact iff_of_true rfl fun h => absurd h hcheck

-- The scanned file gives an installed rule.
def Installs (T : CharTable) (Y : PackYaml M) (req : ImportRequest) (files : List CorpusFile)
    (f : CorpusFile) (rule : HuntPackRule) : Prop :=
  FirstOfId T Y (resolvedPackId req) (scannedFiles T req files) f rule ∧ Transpiles T req rule

def parsedSources (T : CharTable) (Y : PackYaml M) (req : ImportRequest) (files : List CorpusFile) :
    Parsing :=
  (scannedFiles T req files).foldl (importFile T Y (resolvedPackId req)) ⟨[], []⟩

def installedSources (T : CharTable) (Y : PackYaml M) (req : ImportRequest) (files : List CorpusFile) :
    List (CorpusFile × HuntPackRule) :=
  let s := parsedSources T Y req files
  s.parsed.filter fun source => usable (reportsOf T req s.parsed) source.2

theorem importSigmaCorpus_rules : (importSigmaCorpus T Y req files).pack.rules =
    (installedSources T Y req files).map Prod.snd :=
  List.filter_map

theorem mem_installedSources {source : CorpusFile × HuntPackRule} :
    source ∈ installedSources T Y req files ↔ Installs T Y req files source.1 source.2 := by
  have hparsed := parsed_run T Y (resolvedPackId req) (scannedFiles T req files)
  rw [installedSources, List.mem_filter, Installs, ← hparsed.first]
  exact and_congr_right fun h => usable_iff hparsed.ids h

theorem installedSources_ids : ((installedSources T Y req files).map fun x => x.2.id).Nodup := by
  have hparsed := parsed_run T Y (resolvedPackId req) (scannedFiles T req files)
  exact hparsed.ids.sublist (List.filter_sublist.map _)

-- Every directory of files is partitioned.
theorem import_partition (T : CharTable) (Y : PackYaml M) (req : ImportRequest)
    (files : List CorpusFile) :
    Partition T Y (resolvedPackId req) (scannedFiles T req files)
      (importSigmaCorpus T Y req files).pack.rules (importSigmaCorpus T Y req files).skipped := by
  have hparsed := parsed_run T Y (resolvedPackId req) (scannedFiles T req files)
  obtain ⟨skipped, hperm, hskips, hfiles⟩ := hparsed.split
  let s := parsedSources T Y req files
  let reports := reportsOf T req s.parsed
  let unusable := s.parsed.filter fun source => !usable reports source.2
  refine ⟨installedSources T Y req files,
    skipped ++ unusable.map fun source => (source.1, transpileSkip reports source), ?_,
    importSigmaCorpus_rules.symm, ?_, ?_, ?_⟩
  · have hsplit : (installedSources T Y req files ++ unusable).Perm s.parsed := List.filter_append_perm _ _
    have hsplit' := (hsplit.map Prod.fst).append_right (skipped.map Prod.fst)
    refine List.Perm.trans ?_ (hsplit'.trans hperm)
    rw [List.map_append, List.map_append, List.append_assoc, List.map_map]
    exact (List.perm_append_comm).append_left _
  · rw [List.map_append, hskips, List.map_map]
    rfl
  · intro x hx
    exact (mem_installedSources.mp hx).1.1
  · intro x hx
    rcases List.mem_append.mp hx with hx | hx
    · exact hfiles x hx
    · obtain ⟨source, -, rfl⟩ := List.mem_map.mp hx
      rfl

end HuntCorpus

end BTagent
