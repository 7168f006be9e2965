import BTagent.Hunt.Corpus
import BTagent.Hunt.PackFiles

namespace BTagent

namespace HuntCorpus

open HuntPackFiles

variable {M : Type} {T : CharTable} {Y : PackYaml M} {dirName : String} {result : CorpusImport}
  {dir : PackDir M} {previous : HuntPack} {files : OrderedDict String String}
  {rules : List HuntPackRule} {manifest : PackManifest} {text : M}

def fileEntry (rule : HuntPackRule) : String × String := (fileName rule, rule.sigmaYaml)

-- The rules are written up to the first one whose name was written before.
theorem writeRules_cases (files : OrderedDict String String) (rules : List HuntPackRule) :
    (((rules.map fileName).Nodup ∧ ∀ rule ∈ rules, fileName rule ∉ files.keys) ∧
      (writeRules files rules).1 = .ok () ∧
        (writeRules files rules).2.entries = files.entries ++ rules.map fileEntry) ∨
    (¬ ((rules.map fileName).Nodup ∧ ∀ rule ∈ rules, fileName rule ∉ files.keys) ∧
      ∃ name, (writeRules files rules).1 = .error (.collision name)) := by
  induction rules generalizing files with
  | nil => exact Or.inl ⟨by simp, rfl, (List.append_nil _).symm⟩
  | cons rule rules ih =>
      rw [writeRules]
      by_cases hname : fileName rule ∈ files.keys
      · rw [if_pos hname]
        exact Or.inr ⟨fun h => h.2 rule List.mem_cons_self hname, _, rfl⟩
      · rw [if_neg hname]
        have hfresh : ((rules.map fileName).Nodup ∧
            ∀ r ∈ rules, fileName r ∉ (files.set (fileName rule) rule.sigmaYaml).keys) ↔
            (((rule :: rules).map fileName).Nodup ∧ ∀ r ∈ rule :: rules, fileName r ∉ files.keys) := by
          simp only [OrderedDict.mem_keys_set, List.map_cons, List.nodup_cons, List.mem_map,
            List.forall_mem_cons, hname, not_or, not_exists, not_and, not_false_eq_true, true_and]
          constructor
          · exact fun ⟨hnodup, hall⟩ => ⟨⟨fun r hr => (hall r hr).1, hnodup⟩, fun r hr => (hall r hr).2⟩
          · exact fun ⟨⟨hne, hnodup⟩, hall⟩ => ⟨hnodup, fun r hr => ⟨hne r hr, hall r hr⟩⟩
        rcases ih (files.set (fileName rule) rule.sigmaYaml) with ⟨hok, hrun, hentries⟩ | ⟨hbad, h⟩
        · refine Or.inl ⟨hfresh.mp hok, hrun, ?_⟩
          rw [hentries, OrderedDict.entries_set_new hname, List.append_assoc]
          rfl
        · exact Or.inr ⟨fun h' => hbad (hfresh.mpr h'), h⟩

variable (Y) in
def writtenDir (result : CorpusImport) : PackDir M :=
  ⟨some (Y.writeManifest (manifestOf result)), (writeRules OrderedDict.empty result.pack.rules).2⟩

theorem loadPack_manifest (hmanifest : Y.readManifest text = some manifest) :
    loadPack T Y dirName ⟨some text, files⟩ =
      packFromSources T Y manifest (ruleSources files) dirName := by
  simp only [loadPack, hmanifest]

theorem collides_iff : (∃ name, (writeRules OrderedDict.empty rules).1 = .error (.collision name)) ↔
    ¬ (rules.map fileName).Nodup := by
  have hkeys : ∀ rule ∈ rules, fileName rule ∉ (OrderedDict.empty : OrderedDict String String).keys :=
    fun _ _ h => by cases h
  rcases writeRules_cases OrderedDict.empty rules with ⟨⟨hnodup, -⟩, hok, -⟩ | ⟨hbad, h⟩
  · refine iff_of_false ?_ (not_not_intro hnodup)
    rintro ⟨name, h⟩
    rw [hok] at h
    cases h
  · exact iff_of_true h fun hnodup => hbad ⟨hnodup, hkeys⟩

theorem ruleSources_keys : ((ruleSources files).map Prod.fst).Nodup :=
  files.nodup.sublist (List.Sublist.map _ List.filter_sublist)

-- With the previous manifest, other rule files make another pack.
theorem loadPack_same (h : loadPack T Y dirName dir = .ok previous) :
    loadPack T Y dirName ⟨dir.manifest, files⟩ = .ok previous ↔
      (ruleSources files).Perm (ruleSources dir.rules) := by
  unfold loadPack at h ⊢
  cases hmanifest : dir.manifest with
  | none =>
      rw [hmanifest] at h
      cases h
  | some text =>
      simp only [hmanifest] at h ⊢
      cases hread : Y.readManifest text with
      | none =>
          rw [hread] at h
          cases h
      | some manifest =>
          simp only [hread] at h ⊢
          constructor
          · exact fun h' => perm_of_same_pack h' h
          · intro hperm
            rw [packFromSources_congr ruleSources_keys hperm, h]

variable (T Y) in
-- The pack that was written loads with the ids it was written with.
def ReadsBack (dirName : String) (result : CorpusImport) : Prop :=
  ∃ loaded, loadPack T Y dirName (writtenDir Y result) = .ok loaded ∧
    ∀ i, i ∈ loaded.rules.map HuntPackRule.id ↔ i ∈ result.pack.rules.map HuntPackRule.id

variable (T Y) in
def Atomic (dirName : String) (dir : PackDir M) (previous : HuntPack) (result : CorpusImport)
    (overwrite : Bool) : Prop :=
  ∀ e dest, writePackDir T Y dirName result (some dir) overwrite = (.error e, dest) →
    ∃ dir', dest = some dir' ∧ loadPack T Y dirName dir' = .ok previous

variable (T Y) in
structure KeepsPrevious (dirName : String) (dir : PackDir M) (previous : HuntPack)
    (result : CorpusImport) : Prop where
  usable : result.pack.rules ≠ []
  collision : ¬ (result.pack.rules.map fileName).Nodup →
    (ruleSources (writeRules OrderedDict.empty result.pack.rules).2).Perm (ruleSources dir.rules)
  verified : (result.pack.rules.map fileName).Nodup → ReadsBack T Y dirName result ∨
    loadPack T Y dirName (writtenDir Y result) = .ok previous

theorem not_loaded_empty : loadPack T Y dirName ⟨dir.manifest, OrderedDict.empty⟩ ≠ .ok previous := by
  intro h
  unfold loadPack at h
  split at h
  · cases h
  · split at h
    · cases h
    · cases h

theorem write_collision (T : CharTable) (Y : PackYaml M) (dirName : String) (dir : PackDir M)
    (hne : result.pack.rules ≠ []) {e : InstallError}
    (h : (writeRules OrderedDict.empty result.pack.rules).1 = .error e) :
    writePackDir T Y dirName result (some dir) true =
      (.error e, some ⟨dir.manifest, (writeRules OrderedDict.empty result.pack.rules).2⟩) := by
  unfold writePackDir
  simp only [Option.isSome_some, Bool.true_eq_false, and_false, if_false, hne, Option.map_some,
    Option.bind_some]
  generalize writeRules OrderedDict.empty result.pack.rules = w at h ⊢
  obtain ⟨outcome, files⟩ := w
  subst h
  rfl

theorem write_verified (T : CharTable) (Y : PackYaml M) (dirName : String) (hne : result.pack.rules ≠ [])
    (h : (writeRules OrderedDict.empty result.pack.rules).1 = .ok ()) (dest : Option (PackDir M))
    {overwrite : Bool} (hover : ¬ (dest.isSome ∧ overwrite = false)) :
    (ReadsBack T Y dirName result ∧
      writePackDir T Y dirName result dest overwrite = (.ok (), some (writtenDir Y result))) ∨
    (¬ ReadsBack T Y dirName result ∧
      ∃ e, writePackDir T Y dirName result dest overwrite = (.error e, some (writtenDir Y result))) := by
  unfold writePackDir ReadsBack writtenDir
  simp only [hover, if_false, hne]
  generalize writeRules OrderedDict.empty result.pack.rules = w at h ⊢
  obtain ⟨outcome, files⟩ := w
  subst h
  dsimp only
  cases loadPack T Y dirName ⟨some (Y.writeManifest (manifestOf result)), files⟩ with
  | error e =>
      refine Or.inr ⟨?_, _, rfl⟩
      rintro ⟨loaded, hloaded, -⟩
      cases hloaded
  | ok loaded =>
      simp only [Except.ok.injEq, exists_eq_left']
      split_ifs with hids
      · exact Or.inl ⟨fun i => ⟨fun hi => hids.1 hi, fun hi => hids.2 hi⟩, rfl⟩
      · refine Or.inr ⟨fun hsame => hids ⟨fun i hi => (hsame i).mp hi, fun i hi => (hsame i).mpr hi⟩, ?_⟩
        exact ⟨_, rfl⟩

section Example

def lsassText : String := "title: LSASS memory read\nid: r1\n"

-- The YAML of the examples: one rule text, and manifests as they are.
def exampleYaml : PackYaml PackManifest where
  readRule := fun raw => if raw = lsassText then some ⟨"LSASS memory read", "r1", [], [], .HIGH⟩ else none
  readManifest := some
  writeManifest := id
  read_write := fun _ => rfl

def lsassRule : HuntPackRule :=
  ⟨"r1", "LSASS memory read", some "lsass.yml", lsassText, [], [], .HIGH, true, "", []⟩

def lsassPack : HuntPack := ⟨"baseline", "Baseline", "1.0.0", "", [lsassRule]⟩

def lsassDir : PackDir PackManifest where
  manifest := some ⟨"baseline", "Baseline", "1.0.0", "", []⟩
  rules := ⟨[("lsass.yml", lsassText)], by decide⟩

def corpusRequest : ImportRequest where
  name := some "Baseline"
  rootName := "sigma"
  rootRepr := "'sigma'"
  version := "2.0.0"
  description := ""
  packId := some "baseline"
  backends := ["splunk"]
  checkTranspile := false
  maxRules := some 2000
  transpile := fun _ _ => .ok "index=edr"
  version_valid := by decide

-- The corpus has no rule file.
theorem empty_corpus_clears_pack :
    loadPack CharTable.ascii exampleYaml "baseline" lsassDir = .ok lsassPack ∧
      ¬ Atomic CharTable.ascii exampleYaml "baseline" lsassDir lsassPack
        (importSigmaCorpus CharTable.ascii exampleYaml corpusRequest []) true := by
  refine ⟨by decide, fun hatomic => ?_⟩
  have hwrite : writePackDir CharTable.ascii exampleYaml "baseline"
      (importSigmaCorpus CharTable.ascii exampleYaml corpusRequest []) (some lsassDir) true =
        (.error .emptyPack, some ⟨lsassDir.manifest, OrderedDict.empty⟩) := rfl
  obtain ⟨dir', hdir', hload⟩ := hatomic _ _ hwrite
  obtain rfl := Option.some.inj hdir'
  exact not_loaded_empty hload

end Example

theorem install_atomic_iff (overwrite : Bool) (h : loadPack T Y dirName dir = .ok previous) :
    Atomic T Y dirName dir previous result overwrite ↔
      (overwrite = true → KeepsPrevious T Y dirName dir previous result) := by
  cases overwrite with
  | false =>
      refine iff_of_true ?_ (fun hfalse => absurd hfalse Bool.false_ne_true)
      intro e dest hwrite
      simp only [writePackDir, Option.isSome_some, and_self, if_true, Prod.mk.injEq] at hwrite
      exact ⟨dir, hwrite.2.symm, h⟩
  | true =>
      simp only [true_implies]
      by_cases hne : result.pack.rules = []
      · refine iff_of_false (fun hatomic => ?_) fun hkeeps => hkeeps.usable hne
        have hwrite : writePackDir T Y dirName result (some dir) true =
            (.error .emptyPack, some ⟨dir.manifest, OrderedDict.empty⟩) := by
          rw [writePackDir, if_neg (by simp), if_pos hne]
          rfl
        obtain ⟨dir', hdir', hload⟩ := hatomic _ _ hwrite
        obtain rfl := Option.some.inj hdir'
        exact not_loaded_empty hload
      · by_cases hnames : (result.pack.rules.map fileName).Nodup
        · have hok : (writeRules OrderedDict.empty result.pack.rules).1 = .ok () := by
            rcases writeRules_cases OrderedDict.empty result.pack.rules with ⟨-, hok, -⟩ | ⟨-, hname⟩
            · exact hok
            · exact absurd hnames (collides_iff.mp hname)
          have hover : ¬ ((some dir).isSome ∧ true = false) := by simp
          rcases write_verified T Y dirName hne hok (some dir) hover with
            ⟨hreads, hwrite⟩ | ⟨hreads, e, hwrite⟩
          · refine iff_of_true ?_ ⟨hne, fun hbad => absurd hnames hbad, fun _ => Or.inl hreads⟩
            intro e dest herror
            rw [hwrite] at herror
            cases herror
          · constructor
            · intro hatomic
              obtain ⟨dir', hdir', hload⟩ := hatomic _ _ hwrite
              obtain rfl := Option.some.inj hdir'
              exact ⟨hne, fun hbad => absurd hnames hbad, fun _ => Or.inr hload⟩
            · intro hkeeps e' dest herror
              rw [hwrite] at herror
              cases herror
              exact ⟨_, rfl, (hkeeps.verified hnames).resolve_left hreads⟩
        · obtain ⟨name, hcollides⟩ := collides_iff.mpr hnames
          have hwrite := write_collision T Y dirName dir hne hcollides
          constructor
          · intro hatomic
            obtain ⟨dir', hdir', hload⟩ := hatomic _ _ hwrite
            obtain rfl := Option.some.inj hdir'
            exact ⟨hne, fun _ => (loadPack_same h).mp hload, fun hgood => absurd hgood hnames⟩
          · intro hkeeps e' dest herror
            rw [hwrite] at herror
            cases herror
            exact ⟨_, rfl, (loadPack_same h).mpr (hkeeps.collision hnames)⟩

-- Without `overwrite` nothing is touched.
theorem refused_install_keeps : Atomic CharTable.ascii exampleYaml "baseline" lsassDir lsassPack
    (importSigmaCorpus CharTable.ascii exampleYaml corpusRequest []) false :=
  (install_atomic_iff false (by decide)).mpr fun h => absurd h Bool.false_ne_true

end HuntCorpus

end BTagent
