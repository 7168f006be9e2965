import BTagent.Cti.Proposals
import Mathlib.Data.List.Nodup

namespace BTagent

structure KillChainPhase where
  killChainName : String
  phaseName : String

namespace CtiDetection

-- `_technique_ids_from_kill_chain`
def techniqueIdsFromKillChain (T : CharTable) (upper : String → String)
    (phases : List KillChainPhase) : List String :=
  (phases.filter fun phase => phase.killChainName = "mitre-attack" ∧
    phase.phaseName.toList.head?.any (fun c => c = 't' ∨ c = 'T') ∧
      phase.phaseName.toList.any T.isDigit).map fun phase => upper phase.phaseName

variable (T : CharTable)

def segment (row : DetectionProposalRow) : String :=
  T.lower (row.techniqueIds.headD "uncategorized")

def suffix (row : DetectionProposalRow) : String := T.lower (lastSix row.id)

def rulePath (segment name : String) : String := s!"rules/{segment}/{name}.yml"

def plainPath (row : DetectionProposalRow) : String :=
  rulePath (segment T row) (ruleSlug T row.title)

def suffixedPath (row : DetectionProposalRow) : String :=
  rulePath (segment T row) s!"{ruleSlug T row.title}_{suffix T row}"

def paths (rows : List DetectionProposalRow) : List String :=
  (buildPrFiles T rows).map RuleFile.path

-- A row whose plain path an earlier row has, plainly or by its suffix.
inductive Suffixed (rows : List DetectionProposalRow) : ℕ → Prop
  | plain {i j a b} : rows[i]? = some a → rows[j]? = some b → j < i →
      plainPath T b = plainPath T a → Suffixed rows i
  | taken {i j a b} : rows[i]? = some a → rows[j]? = some b → j < i → Suffixed rows j →
      suffixedPath T b = plainPath T a → Suffixed rows i

-- No row that takes its suffix meets an earlier path.
def Apart (rows : List DetectionProposalRow) : Prop :=
  ∀ i j a b, rows[i]? = some a → rows[j]? = some b → j < i → Suffixed T rows i →
    suffixedPath T a ≠ plainPath T b ∧
      (Suffixed T rows j → suffixedPath T a ≠ suffixedPath T b)

def Unseparated (s : String) : Prop := '/' ∉ s.toList ∧ '\\' ∉ s.toList

def Confined (path : String) : Prop :=
  ∃ segment name, path = rulePath segment name ∧ Unseparated segment ∧
    segment ∉ ["", ".", ".."] ∧ Unseparated name ∧ name ≠ ""

section Paths

variable {T} {rows : List DetectionProposalRow} {s seen : List String} {i j : ℕ}
  {a b row : DetectionProposalRow}

def taken (T : CharTable) (seen : List String) (row : DetectionProposalRow) : String :=
  if plainPath T row ∈ seen then suffixedPath T row else plainPath T row

theorem buildPrFilesFrom_cons : (buildPrFilesFrom T seen (row :: rows)).map RuleFile.path =
    taken T seen row ::
      (buildPrFilesFrom T (taken T seen row :: seen) rows).map RuleFile.path := by
  have htext : ∀ s : String, toString s = s := fun _ => rfl
  have hpath : taken T seen row =
      if plainPath T row ∈ seen then
        "rules/" ++ segment T row ++ "/" ++ ruleSlug T row.title ++ "_" ++ suffix T row ++ ".yml"
      else plainPath T row := by
    simp only [taken, suffixedPath, rulePath, htext, String.append_assoc]
  rw [hpath]
  rfl

theorem path_from (h : rows[i]? = some row) :
    ((buildPrFilesFrom T s rows).map RuleFile.path)[i]? =
      some (taken T (((buildPrFilesFrom T s rows).map RuleFile.path).take i ++ s) row) := by
  induction rows generalizing s i with
  | nil => cases h
  | cons r rows ih =>
      rw [buildPrFilesFrom_cons]
      cases i with
      | zero =>
          cases h
          rfl
      | succ i =>
          have hsame : ∀ {xs ys : List String}, (∀ x, x ∈ xs ↔ x ∈ ys) →
              taken T xs row = taken T ys row := by
            intro xs ys hxy
            simp only [taken, hxy]
          rw [List.getElem?_cons_succ, ih h, List.take_succ_cons]
          congr 1
          apply hsame
          intro x
          simp only [List.mem_append, List.mem_cons]
          tauto

theorem path_at (h : rows[i]? = some row) :
    (paths T rows)[i]? = some (taken T ((paths T rows).take i) row) := by
  have hpath := path_from (T := T) (s := []) h
  rwa [List.append_nil] at hpath

theorem length_paths : (paths T rows).length = rows.length := by
  have hfrom : ∀ seen, (buildPrFilesFrom T seen rows).length = rows.length := by
    induction rows with
    | nil => simp [buildPrFilesFrom]
    | cons r rows ih => simp [buildPrFilesFrom, ih]
  rw [paths, List.length_map]
  exact hfrom []

theorem mem_take_paths {p : String} (hi : i ≤ rows.length) : p ∈ (paths T rows).take i ↔
    ∃ j b, j < i ∧ rows[j]? = some b ∧ p = taken T ((paths T rows).take j) b := by
  rw [List.mem_take_iff_getElem]
  constructor
  · rintro ⟨j, hj, rfl⟩
    have hlt : j < rows.length := by
      rw [length_paths] at hj
      omega
    refine ⟨j, rows[j], by omega, List.getElem?_eq_getElem hlt, ?_⟩
    have hpath := path_at (T := T) (List.getElem?_eq_getElem hlt)
    exact (List.getElem?_eq_some_iff.mp hpath).2
  · rintro ⟨j, b, hj, hb, rfl⟩
    obtain ⟨hlt, hget⟩ := List.getElem?_eq_some_iff.mp (path_at (T := T) hb)
    exact ⟨j, by omega, hget⟩

-- The rows that take their suffix, told from the rows alone.
theorem seen_iff_suffixed (h : rows[i]? = some row) :
    plainPath T row ∈ (paths T rows).take i ↔ Suffixed T rows i := by
  induction i using Nat.strong_induction_on generalizing row with
  | _ i ih =>
      have hi : i ≤ rows.length := (List.getElem?_eq_some_iff.mp h).1.le
      rw [mem_take_paths hi]
      constructor
      · rintro ⟨j, b, hj, hb, hpath⟩
        unfold taken at hpath
        split at hpath
        · rename_i hseen
          exact .taken h hb hj ((ih j hj hb).mp hseen) hpath.symm
        · exact .plain h hb hj hpath.symm
      · intro hsuffixed
        cases hsuffixed with
        | @plain _ j a b ha hb hj hpath =>
            obtain rfl : row = a := Option.some.inj (h.symm.trans ha)
            by_cases hseen : plainPath T b ∈ (paths T rows).take j
            · obtain ⟨k, c, hk, hc, heq⟩ := (mem_take_paths (hj.le.trans hi)).mp hseen
              exact ⟨k, c, hk.trans hj, hc, hpath ▸ heq⟩
            · exact ⟨j, b, hj, hb, by rw [taken, if_neg hseen, hpath]⟩
        | @taken _ j a b ha hb hj hsuffixed hpath =>
            obtain rfl : row = a := Option.some.inj (h.symm.trans ha)
            have hseen := (ih j hj hb).mpr hsuffixed
            exact ⟨j, b, hj, hb, by rw [taken, if_pos hseen, hpath]⟩

theorem path_eq (h : rows[i]? = some row) :
    (Suffixed T rows i ∧ (paths T rows)[i]? = some (suffixedPath T row)) ∨
      (¬Suffixed T rows i ∧ (paths T rows)[i]? = some (plainPath T row)) := by
  rw [path_at h, ← seen_iff_suffixed h, taken]
  split
  · exact Or.inl ⟨by assumption, rfl⟩
  · exact Or.inr ⟨by assumption, rfl⟩

theorem nodup_paths_iff : (paths T rows).Nodup ↔ Apart T rows := by
  rw [List.nodup_iff_getElem?_ne_getElem?]
  constructor
  · intro hne i j a b ha hb hj hsuffixed
    have hi : i < (paths T rows).length := by
      rw [length_paths]
      exact (List.getElem?_eq_some_iff.mp ha).1
    have hpath : (paths T rows)[i]? = some (suffixedPath T a) := by
      rcases path_eq (T := T) ha with h | h
      · exact h.2
      · exact absurd hsuffixed h.1
    refine ⟨?_, ?_⟩
    · intro heq
      by_cases hb' : Suffixed T rows j
      · -- the plain path of a suffixed row is an earlier path
        obtain ⟨k, c, hk, hc, htaken⟩ := (mem_take_paths
          (List.getElem?_eq_some_iff.mp hb).1.le).mp ((seen_iff_suffixed hb).mpr hb')
        apply hne k i (hk.trans hj) hi
        rw [hpath, path_at hc, heq, htaken]
      · rcases path_eq (T := T) hb with h | h
        · exact absurd h.1 hb'
        · exact hne j i hj hi (by rw [hpath, h.2, heq])
    · intro hb' heq
      rcases path_eq (T := T) hb with h | h
      · exact hne j i hj hi (by rw [hpath, h.2, heq])
      · exact absurd hb' h.1
  · intro hapart j i hj hi heq
    rw [length_paths] at hi
    have ha := List.getElem?_eq_getElem hi
    have hb := List.getElem?_eq_getElem (hj.trans hi)
    by_cases hsuffixed : Suffixed T rows i
    · obtain ⟨hplain, htaken⟩ := hapart i j _ _ ha hb hj hsuffixed
      rcases path_eq (T := T) ha with h | h
      · rcases path_eq (T := T) hb with h' | h'
        · rw [h.2, h'.2] at heq
          exact htaken h'.1 (Option.some.inj heq).symm
        · rw [h.2, h'.2] at heq
          exact hplain (Option.some.inj heq).symm
      · exact h.1 hsuffixed
    · rcases path_eq (T := T) ha with h | h
      · exact hsuffixed h.1
      · refine hsuffixed ((seen_iff_suffixed ha).mp ?_)
        rw [h.2] at heq
        rw [List.mem_take_iff_getElem]
        obtain ⟨hlt, hget⟩ := List.getElem?_eq_some_iff.mp heq
        exact ⟨j, by omega, hget⟩

end Paths

section Confinement

variable {T} {row : DetectionProposalRow} {seg name seg' name' : String} {c : Char}

theorem slugChars_mem {inRun : Bool} {cs : List Char} (h : c ∈ slugChars inRun cs) :
    isSlugChar c = true ∨ c = '_' := by
  induction cs generalizing inRun with
  | nil => cases h
  | cons d cs ih =>
      rw [slugChars] at h
      split_ifs at h with hslug hrun
      · rcases List.mem_cons.mp h with rfl | h
        · exact Or.inl hslug
        · exact ih h
      · exact ih h
      · rcases List.mem_cons.mp h with rfl | h
        · exact Or.inr rfl
        · exact ih h

theorem ruleSlug_mem {title : String} (h : c ∈ (ruleSlug T title).toList) :
    isSlugChar c = true ∨ c = '_' := by
  unfold ruleSlug at h
  simp only at h
  split_ifs at h
  · have hall : ∀ c ∈ "rule".toList, isSlugChar c = true := by decide
    exact Or.inl (hall c h)
  · rw [String.toList_ofList] at h
    exact slugChars_mem ((List.dropWhile_suffix _).subset ((List.rdropWhile_prefix _ _).subset h))

theorem ruleSlug_ne {title : String} : ruleSlug T title ≠ "" := by
  unfold ruleSlug
  simp only
  split_ifs with hnil
  · decide
  · intro h
    exact hnil (by simpa using congrArg String.toList h)

theorem ruleSlug_unseparated {title : String} : Unseparated (ruleSlug T title) := by
  constructor
  · intro h
    rcases ruleSlug_mem h with h | h
    · exact absurd h (by decide)
    · exact absurd h (by decide)
  · intro h
    rcases ruleSlug_mem h with h | h
    · exact absurd h (by decide)
    · exact absurd h (by decide)

theorem rulePath_toList : (rulePath seg name).toList =
    "rules/".toList ++ (seg.toList ++ '/' :: (name.toList ++ ".yml".toList)) := by
  have htext : ∀ s : String, toString s = s := fun _ => rfl
  have hslash : "/".toList = ['/'] := by decide
  simp only [rulePath, htext, String.toList_append, hslash, List.append_assoc, List.cons_append,
    List.nil_append]

theorem append_slash_inj {y z y' z' : List Char} (hy' : c ∉ y') (hz' : c ∉ z')
    (h : y ++ c :: z = y' ++ c :: z') : y = y' ∧ z = z' := by
  have hcount := congrArg (List.count c) h
  simp only [List.count_append, List.count_cons_self, List.count_eq_zero_of_not_mem hy',
    List.count_eq_zero_of_not_mem hz'] at hcount
  have hy : c ∉ y := List.count_eq_zero.mp (by omega)
  have htake : ∀ {xs ws : List Char}, c ∉ xs → (xs ++ c :: ws).takeWhile (· ≠ c) = xs := by
    intro xs ws hxs
    rw [List.takeWhile_append_of_pos]
    · simp
    · intro d hd
      have hne : d ≠ c := fun heq => hxs (heq ▸ hd)
      simpa using hne
  have hsame : y = y' := by
    have hleft : (y ++ c :: z).takeWhile (· ≠ c) = y := htake hy
    rw [← hleft, h, htake hy']
  subst hsame
  exact ⟨rfl, (List.cons.inj (List.append_cancel_left h)).2⟩

theorem confined_iff : Confined (rulePath seg name) ↔
    (Unseparated seg ∧ seg ∉ ["", ".", ".."]) ∧ Unseparated name ∧ name ≠ "" := by
  constructor
  · rintro ⟨seg', name', heq, hseg, hdots, hname, hne⟩
    have hlists := congrArg String.toList heq
    rw [rulePath_toList, rulePath_toList] at hlists
    have hrest := List.append_cancel_left hlists
    have hyml : ∀ {w v : List Char}, w ++ '/' :: (v ++ ".yml".toList) =
        (w ++ '/' :: v) ++ ".yml".toList := by simp
    rw [hyml, hyml] at hrest
    obtain ⟨hs, hn⟩ := append_slash_inj hseg.1 hname.1 (List.append_cancel_right hrest)
    obtain rfl := String.ext hs
    obtain rfl := String.ext hn
    exact ⟨⟨hseg, hdots⟩, hname, hne⟩
  · rintro ⟨⟨hseg, hdots⟩, hname, hne⟩
    exact ⟨seg, name, rfl, hseg, hdots, hname, hne⟩

theorem suffixed_name : Unseparated s!"{ruleSlug T row.title}_{suffix T row}" ↔
    Unseparated (suffix T row) := by
  have htext : ∀ s : String, toString s = s := fun _ => rfl
  have hline : "_".toList = ['_'] := by decide
  have hslug : Unseparated (ruleSlug T row.title) := ruleSlug_unseparated
  obtain ⟨hslash, hback⟩ := hslug
  simp only [Unseparated, htext, String.toList_append, hline, List.mem_append, List.mem_singleton]
  simp [hslash, hback]

end Confinement

-- The paths of a PR's files are distinct and confined exactly where every row's own technique is a
-- plain segment and no suffixed path meets an earlier one.
theorem pr_paths_iff (rows : List DetectionProposalRow) :
    ((paths T rows).Nodup ∧ ∀ p ∈ paths T rows, Confined p) ↔
      Apart T rows ∧ ∀ i row, rows[i]? = some row →
        (Unseparated (segment T row) ∧ segment T row ∉ ["", ".", ".."]) ∧
          (Suffixed T rows i → Unseparated (suffix T row)) := by
  rw [nodup_paths_iff]
  refine and_congr_right fun _ => ?_
  have hplain : ∀ row, Confined (plainPath T row) ↔
      Unseparated (segment T row) ∧ segment T row ∉ ["", ".", ".."] := by
    intro row
    rw [plainPath, confined_iff]
    exact and_iff_left ⟨ruleSlug_unseparated, ruleSlug_ne⟩
  have hsuffixed : ∀ row, Confined (suffixedPath T row) ↔
      (Unseparated (segment T row) ∧ segment T row ∉ ["", ".", ".."]) ∧
        Unseparated (suffix T row) := by
    intro row
    rw [suffixedPath, confined_iff, suffixed_name]
    refine and_congr_right fun _ => and_iff_left ?_
    intro hnil
    simp only [String.append_eq_empty_iff] at hnil
    exact ruleSlug_ne hnil.1.1
  constructor
  · intro hall i row hrow
    rcases path_eq (T := T) hrow with ⟨hs, hpath⟩ | ⟨hs, hpath⟩
    · have hconfined := (hsuffixed row).mp (hall _ (List.mem_of_getElem? hpath))
      exact ⟨hconfined.1, fun _ => hconfined.2⟩
    · have hconfined := (hplain row).mp (hall _ (List.mem_of_getElem? hpath))
      exact ⟨hconfined, fun h => absurd h hs⟩
  · intro hall p hp
    obtain ⟨i, hi⟩ := List.mem_iff_getElem?.mp hp
    have hlt : i < rows.length := by
      rw [← length_paths (T := T)]
      exact (List.getElem?_eq_some_iff.mp hi).1
    have hrow := List.getElem?_eq_getElem hlt
    obtain ⟨hsafe, hsuffix⟩ := hall i _ hrow
    rcases path_eq (T := T) hrow with ⟨hs, hpath⟩ | ⟨hs, hpath⟩
    · obtain rfl := Option.some.inj (hi.symm.trans hpath)
      exact (hsuffixed _).mpr ⟨hsafe, hsuffix hs⟩
    · obtain rfl := Option.some.inj (hi.symm.trans hpath)
      exact (hplain _).mpr hsafe

-- A technique with separators from a kill chain.
def climbingRow : DetectionProposalRow where
  id := "dprop_01J0000000000000000000000A"
  orgId := "org_1"
  title := "CTI-Derived Detection: Domain Name IOC — c2.example"
  sigmaYaml := "title: draft"
  finalSigmaYaml := none
  techniqueIds := techniqueIdsFromKillChain .ascii (String.map Char.toUpper)
    [⟨"mitre-attack", "t1/../../.github/workflows"⟩]
  state := .ACCEPTED
  validation := none
  prUrl := none
  prOutcome := .PROPOSED

theorem kill_chain_climbs : paths .ascii [climbingRow] =
      ["rules/t1/../../.github/workflows/cti_derived_detection_domain_name_ioc_c2_example.yml"] ∧
    ¬∀ p ∈ paths .ascii [climbingRow], Confined p := by
  have hpaths : paths .ascii [climbingRow] =
      ["rules/t1/../../.github/workflows/cti_derived_detection_domain_name_ioc_c2_example.yml"] := by
    decide +kernel
  refine ⟨hpaths, ?_⟩
  intro hall
  have hpath : plainPath .ascii climbingRow ∈ paths .ascii [climbingRow] := by decide +kernel
  have hconfined := confined_iff.mp (hall _ hpath)
  have hslash : '/' ∈ (segment .ascii climbingRow).toList := by decide +kernel
  exact hconfined.1.1.1 hslash

end CtiDetection

end BTagent
