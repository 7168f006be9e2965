import BTagent.Hunt.PackFiles
import BTagent.Lib.Quoted
import BTagent.Lib.Regex

namespace BTagent

-- A file under the corpus root; `text` is missing where it cannot be read as UTF-8.
structure CorpusFile where
  dirs : List String
  name : String
  text : Option String
  deriving DecidableEq

structure RuleTranspile where
  ruleId : String
  file : String
  title : String
  ok : List String
  errors : List (String × String)
  deriving DecidableEq

inductive SkipReason where
  | parse (e : PackLoadError)
  | unreadable
  | duplicate (ruleId importedFrom : String)
  | transpile (errors : List (String × String))
  deriving DecidableEq

structure RuleSkip where
  file : String
  reason : SkipReason
  ruleId : Option String
  title : Option String
  deriving DecidableEq

structure CorpusImport where
  pack : HuntPack
  scanned : ℕ
  found : ℕ
  truncated : Bool
  skipped : List RuleSkip
  transpiled : List RuleTranspile

-- The arguments of an import, with the name of its root and the `repr` of it; `transpile` is pySigma
-- with the backends of the repository.
structure ImportRequest where
  name : Option String
  rootName : String
  rootRepr : String
  version : String
  description : String
  packId : Option String
  backends : List String
  checkTranspile : Bool
  maxRules : Option ℕ
  transpile : String → String → Except String String
  version_valid : 0 < version.length ∧ version.length ≤ 64

inductive InstallError where
  | exists_
  | emptyPack
  | collision (name : String)
  | unloadable (e : PackLoadError)
  | verification
  deriving DecidableEq

namespace HuntCorpus

open HuntPackFiles

variable {M : Type} (T : CharTable) (Y : PackYaml M)

def skipDirs : List String :=
  [".git", ".github", "__pycache__", "deprecated", "node_modules", "tests", "unsupported"]

def CorpusFile.rel (f : CorpusFile) : String := "/".intercalate (f.dirs ++ [f.name])

def isSigmaFile (f : CorpusFile) : Bool :=
  T.lower (pathSuffix f.name) ∈ ruleSuffixes ∧
    (∀ d ∈ f.dirs, T.lower d ∉ skipDirs ∧ d.toList.head? ≠ some '.') ∧ f.name.toList.head? ≠ some '.'

def cut (n : ℕ) (s : String) : String := String.ofList (s.toList.take n)

def isSlugChar (c : Char) : Bool := ('a' ≤ c && c ≤ 'z') || ('0' ≤ c && c ≤ '9')

-- `[^a-z0-9]+`
def slugBreak : Regex := .plus (.set fun c => !isSlugChar c)

def slugify (value fallback : String) (maxLength : ℕ) : String :=
  let slug := Quoted.stripBy (· == '_')
    (Regex.sub T.isWord slugBreak (fun _ => ['_']) (T.lower (T.strip value)).toList)
  cut maxLength (if slug = [] then fallback else String.ofList slug)

def ruleSlugMax : ℕ := 120

def ruleSlug (f : CorpusFile) : String :=
  let stem := "_".intercalate (f.dirs ++ [pathStem f.name])
  let slug := slugify T stem "rule" ruleSlugMax
  let full := slugify T stem "rule" (stem.length + 1)
  if slug = full then slug ++ ".yml"
  else
    let digest := cut 12 (sha256 (CorpusFile.rel f).toByteArray)
    cut (ruleSlugMax - digest.length - 1) slug ++ "_" ++ digest ++ ".yml"

-- The rules that were parsed, each with the file it came from, and the skipped files.
structure Parsing where
  parsed : List (CorpusFile × HuntPackRule)
  skipped : List RuleSkip

def importedFrom (s : Parsing) (ruleId : String) : Option String :=
  (s.parsed.find? (·.2.id = ruleId)).map fun source => CorpusFile.rel source.1

def importFile (packId : String) (s : Parsing) (f : CorpusFile) : Parsing :=
  let skip := fun (reason : SkipReason) (ruleId title : Option String) =>
    { s with skipped := s.skipped ++ [⟨CorpusFile.rel f, reason, ruleId, title⟩] }
  match f.text with
  | none => skip .unreadable none none
  | some raw =>
      match ruleFromSource Y packId (blankEntry f.name) f.name raw with
      | .error e => skip (.parse e) none none
      | .ok rule =>
          match importedFrom s rule.id with
          | some rel => skip (.duplicate rule.id rel) (some rule.id) (some rule.title)
          | none => { s with parsed := s.parsed ++ [(f, { rule with file := some (ruleSlug T f) })] }

variable (req : ImportRequest)

def transpileRule (rule : HuntPackRule) : RuleTranspile :=
  let outcome := fun backend : String =>
    match req.transpile rule.sigmaYaml backend with
    | .ok query => if T.strip query = "" then some "backend produced no query" else none
    | .error reason => some reason
  { ruleId := rule.id
    file := rule.file.getD ""
    title := rule.title
    ok := req.backends.filter fun b => (outcome b).isNone
    errors := req.backends.filterMap fun b => (outcome b).map (b, ·) }

def reportFor (reports : List RuleTranspile) (rule : HuntPackRule) : Option RuleTranspile :=
  reports.reverse.find? (·.ruleId = rule.id)

-- No report means that transpilation was not checked.
def usable (reports : List RuleTranspile) (rule : HuntPackRule) : Bool :=
  (reportFor reports rule).all fun report => report.ok ≠ []

def transpileSkip (reports : List RuleTranspile) (source : CorpusFile × HuntPackRule) : RuleSkip where
  file := CorpusFile.rel source.1
  reason := .transpile (((reportFor reports source.2).map (·.errors)).getD [])
  ruleId := some source.2.id
  title := some source.2.title

def packName : String :=
  cut 200 ((req.name.filter (· ≠ "")).getD
    (if req.rootName = "" then "sigma-corpus" else req.rootName))

def resolvedPackId : String :=
  cut 200 ((req.packId.filter (· ≠ "")).getD (deterministicId "hpack" [packName req, req.version]))

-- `files` are all files under the root, in the order of their paths.
def importSigmaCorpus (files : List CorpusFile) : CorpusImport :=
  let allPaths := files.filter (isSigmaFile T)
  let paths := match req.maxRules with
    | none => allPaths
    | some cap => allPaths.take cap
  let s := paths.foldl (importFile T Y (resolvedPackId req)) ⟨[], []⟩
  let reports := if req.checkTranspile then s.parsed.map fun source => transpileRule T req source.2
    else []
  { pack :=
      { id := resolvedPackId req
        name := packName req
        version := req.version
        description := if req.description = "" then
            s!"Imported from external Sigma corpus {req.rootRepr}." else req.description
        rules := (s.parsed.map Prod.snd).filter (usable reports) }
    scanned := paths.length
    found := allPaths.length
    truncated := req.maxRules.any (· < allPaths.length)
    skipped := s.skipped ++
      (s.parsed.filter fun source => !usable reports source.2).map (transpileSkip reports)
    transpiled := reports }

def fileName (rule : HuntPackRule) : String := rule.file.getD "None"

def manifestOf (result : CorpusImport) : PackManifest where
  id := result.pack.id
  name := result.pack.name
  version := result.pack.version
  description := result.pack.description
  rules := result.pack.rules.map fun rule =>
    ⟨fileName rule, rule.enabled, rule.mitreTechniques, rule.notes, []⟩

def writeRules : OrderedDict String String → List HuntPackRule →
    Except InstallError Unit × OrderedDict String String
  | files, [] => (.ok (), files)
  | files, rule :: rules =>
      if fileName rule ∈ files.keys then (.error (.collision (fileName rule)), files)
      else writeRules (files.set (fileName rule) rule.sigmaYaml) rules

-- The outcome with what the destination is after it.
def writePackDir (dirName : String) (result : CorpusImport) (dest : Option (PackDir M))
    (overwrite : Bool) : Except InstallError Unit × Option (PackDir M) :=
  if dest.isSome ∧ overwrite = false then (.error .exists_, dest)
  else
    let cleared := dest.map fun dir => { dir with rules := OrderedDict.empty }
    if result.pack.rules = [] then (.error .emptyPack, cleared)
    else
      match writeRules OrderedDict.empty result.pack.rules with
      | (.error e, files) => (.error e, some ⟨cleared.bind (·.manifest), files⟩)
      | (.ok _, files) =>
          let dir : PackDir M := ⟨some (Y.writeManifest (manifestOf result)), files⟩
          match loadPack T Y dirName dir with
          | .error e => (.error (.unloadable e), some dir)
          | .ok loaded =>
              let loadedIds := loaded.rules.map HuntPackRule.id
              let expectedIds := result.pack.rules.map HuntPackRule.id
              if loadedIds ⊆ expectedIds ∧ expectedIds ⊆ loadedIds then (.ok (), some dir)
              else (.error .verification, some dir)

end HuntCorpus

end BTagent
