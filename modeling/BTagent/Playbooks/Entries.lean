import BTagent.Playbooks.Links

namespace BTagent

namespace Playbook

open Compiler

-- How branches are written down.
def branchesYaml (branches : List (List StepId)) : Yaml :=
  .seq (branches.map fun refs => .seq (refs.map .str))

def StrictBranches (y : Yaml) : Prop :=
  ∃ branches, y = branchesYaml branches ∧ branches.length ≤ maxParallelBranches ∧
    ∀ refs ∈ branches, refs.length ≤ maxBranchDepth ∧ "" ∉ refs

-- A step with an id, a known type and the keys of that type.
structure StrictFields (raw : List (Yaml × Yaml)) (id : StepId) (type : StepType) : Prop where
  hasId : Yaml.lookup "id" raw = some (.str id)
  nonempty : id ≠ ""
  hasType : ∃ s, (Yaml.lookup "type" raw).getD (.str "action") = .str s ∧
    StepType.ofString? s = some type
  keys : Yaml.unknownKeys (allowedStepKeys type) raw = []
  branches : type = .parallelFork →
    StrictBranches ((Yaml.lookup "branches" raw).getD (.seq []))

def StrictEntry : Yaml → Prop
  | .map raw => ∃ id type, StrictFields raw id type
  | _ => False

structure TypedFields (P : Deps) (raw : List (Yaml × Yaml)) : Prop where
  config : (laxDict ((Yaml.lookup "config" raw).getD (.map []))).isSome
  arguments : (laxDict ((Yaml.lookup "arguments" raw).getD (.map []))).isSome
  timeout : ∀ y, Yaml.lookup "timeout_seconds" raw = some y → (P.laxInt y).isSome

def TypedEntry (P : Deps) : Yaml → Prop
  | .map raw => TypedFields P raw
  | _ => False

-- The same step, as the two compilers of the agents and of the engine hold it.
structure SameStep (step : PlaybookStep) (compiled : CompiledStep) : Prop where
  links : compiled.links = step.links
  name : compiled.name = step.name
  toolName : compiled.toolName = step.toolName

section Keys
variable {raw : List (Yaml × Yaml)} {allowed : List String} {key : String}

theorem lookup_none (h : Yaml.unknownKeys allowed raw = []) (hkey : key ∉ allowed) :
    Yaml.lookup key raw = none := by
  induction raw with
  | nil => rfl
  | cons kv raw ih =>
      obtain ⟨k, v⟩ := kv
      have hrest : Yaml.unknownKeys allowed raw = [] := by
        simp only [Yaml.unknownKeys, List.filterMap_eq_nil_iff] at h ⊢
        exact fun kv hkv => h kv (List.mem_cons_of_mem _ hkv)
      cases k with
      | str s =>
          have hs : s ∈ allowed := by
            by_contra hs
            simp [Yaml.unknownKeys, hs] at h
          have hne : s ≠ key := by
            rintro rfl
            exact hkey hs
          rw [Yaml.lookup, if_neg hne]
          exact ih hrest
      | _ =>
          rw [Yaml.lookup]
          · exact ih hrest
          · exact nofun

end Keys

section Branches
variable {stepId : StepId} {i : ℕ}

theorem branchRefs_ok {j : ℕ} {ys : List Yaml} {refs : List StepId} :
    branchRefs stepId i j ys = .ok refs ↔ ys = refs.map .str ∧ "" ∉ refs := by
  induction ys generalizing j refs with
  | nil =>
      rw [branchRefs]
      constructor
      · intro h
        cases h
        simp
      · rintro ⟨hnil, -⟩
        rw [List.map_eq_nil_iff.mp hnil.symm]
  | cons y ys ih =>
      cases y with
      | str s =>
          simp only [branchRefs, Except.bind_ok_iff, require_ok, decide_eq_true_iff, ih]
          constructor
          · rintro ⟨-, hs, rest, ⟨rfl, hrest⟩, heq⟩
            cases heq
            exact ⟨rfl, by simp [hrest, Ne.symm hs]⟩
          · rintro ⟨hmap, hnot⟩
            cases refs with
            | nil => cases hmap
            | cons ref refs =>
                cases hmap
                rw [List.mem_cons, not_or] at hnot
                exact ⟨(), Ne.symm hnot.1, refs, ⟨rfl, hnot.2⟩, rfl⟩
      | _ =>
          simp only [branchRefs, reduceCtorEq, false_iff]
          rintro ⟨hmap, -⟩
          cases refs <;> cases hmap

theorem validateBranch_ok {y : Yaml} {refs : List StepId} :
    validateBranch stepId i y = .ok refs ↔
      y = .seq (refs.map .str) ∧ refs.length ≤ maxBranchDepth ∧ "" ∉ refs := by
  cases y with
  | seq ys =>
      simp only [validateBranch, Except.bind_ok_iff, require_ok, decide_eq_true_iff,
        branchRefs_ok, Yaml.seq.injEq]
      constructor
      · rintro ⟨-, hlength, rfl, hrefs⟩
        rw [List.length_map] at hlength
        exact ⟨rfl, hlength, hrefs⟩
      · rintro ⟨rfl, hlength, hrefs⟩
        exact ⟨(), by rwa [List.length_map], rfl, hrefs⟩
  | _ => simp [validateBranch]

theorem validateBranchList_ok {ys : List Yaml} {branches : List (List StepId)} :
    validateBranchList stepId i ys = .ok branches ↔
      ys = branches.map (fun refs => .seq (refs.map .str)) ∧
        ∀ refs ∈ branches, refs.length ≤ maxBranchDepth ∧ "" ∉ refs := by
  induction ys generalizing i branches with
  | nil =>
      rw [validateBranchList]
      constructor
      · intro h
        cases h
        simp
      · rintro ⟨hnil, -⟩
        rw [List.map_eq_nil_iff.mp hnil.symm]
  | cons y ys ih =>
      simp only [validateBranchList, Except.bind_ok_iff, validateBranch_ok, ih]
      constructor
      · rintro ⟨refs, ⟨rfl, hrefs⟩, rest, ⟨rfl, hrest⟩, heq⟩
        cases heq
        exact ⟨rfl, List.forall_mem_cons.mpr ⟨hrefs, hrest⟩⟩
      · rintro ⟨hmap, hall⟩
        cases branches with
        | nil => cases hmap
        | cons refs rest =>
            cases hmap
            obtain ⟨hrefs, hrest⟩ := List.forall_mem_cons.mp hall
            exact ⟨refs, ⟨rfl, hrefs⟩, rest, ⟨rfl, hrest⟩, rfl⟩

theorem validateBranches_ok {y : Yaml} {branches : List (List StepId)} :
    validateBranches stepId y = .ok branches ↔
      y = branchesYaml branches ∧ branches.length ≤ maxParallelBranches ∧
        ∀ refs ∈ branches, refs.length ≤ maxBranchDepth ∧ "" ∉ refs := by
  cases y with
  | seq ys =>
      simp only [validateBranches, Except.bind_ok_iff, require_ok, decide_eq_true_iff,
        validateBranchList_ok, branchesYaml, Yaml.seq.injEq]
      constructor
      · rintro ⟨-, hlength, rfl, hall⟩
        rw [List.length_map] at hlength
        exact ⟨rfl, hlength, hall⟩
      · rintro ⟨rfl, hlength, hall⟩
        exact ⟨(), by rwa [List.length_map], rfl, hall⟩
  | _ => simp [validateBranches, branchesYaml]

variable (P : Deps)

theorem mapM_laxStr (refs : List StepId) : (refs.map Yaml.str).mapM P.laxStr = some refs := by
  induction refs with
  | nil => rfl
  | cons ref refs ih => simp [P.laxStr_str, ih]

theorem laxBranches_yaml (branches : List (List StepId)) :
    laxBranches P (branchesYaml branches) = some branches := by
  rw [laxBranches, branchesYaml, laxList, Option.bind_some]
  induction branches with
  | nil => rfl
  | cons refs branches ih =>
      rw [List.map_cons, List.mapM_cons, ih, laxList, Option.bind_some, mapM_laxStr]
      rfl

end Branches

section Typed
variable {P : Deps} {raw : List (Yaml × Yaml)} {id : StepId} {type : StepType}
  {failure : OnFailure} {branches : Except CompileError (List (List StepId))}
  {step : PlaybookStep}

theorem orRaise_ok {α : Type} {e : CompileError} {o : Option α} {a : α} :
    orRaise e o = .ok a ↔ o = some a := by
  cases o <;> simp [orRaise]

theorem strField_absent {key default : String} (h : Yaml.lookup key raw = none) :
    strField P raw key default = .ok default := by
  rw [strField, h, Option.getD_none, P.laxStr_str]
  rfl

theorem mappingField_absent {key : String} (h : Yaml.lookup key raw = none) :
    mappingField raw key = .ok .empty := by
  rw [mappingField, h]
  rfl

-- What the step of any class has in its fields; only the default of a timeout depends on it.
structure FieldsRead (P : Deps) (raw : List (Yaml × Yaml)) (step : PlaybookStep) : Prop where
  name : strField P raw "name" "" = .ok step.name
  description : strField P raw "description" "" = .ok step.description
  config : mappingField raw "config" = .ok step.config
  nextStep : optStrField P raw "next_step" = .ok step.nextStep
  toolName : strField P raw "tool_name" "" = .ok step.toolName
  arguments : mappingField raw "arguments" = .ok step.arguments
  timeout : ∀ y, Yaml.lookup "timeout_seconds" raw = some y → (P.laxInt y).isSome
  condition : strField P raw "condition" "" = .ok step.condition
  trueBranch : strField P raw "true_branch" "" = .ok step.trueBranch
  falseBranch : strField P raw "false_branch" "" = .ok step.falseBranch
  prompt : strField P raw "prompt" "" = .ok step.prompt
  requiredRole : strField P raw "required_role" "senior_analyst" = .ok step.requiredRole

theorem typedStep_links (h : typedStep P raw id type failure branches = .ok step) :
    step.id = id ∧ step.type = type ∧
      if type = .parallelFork then branches = .ok step.branches else step.branches = [] := by
  simp only [typedStep, baseStep, Except.bind_ok_iff] at h
  obtain ⟨base, ⟨name, -, description, -, config, -, nextStep, -, heq⟩, htyped⟩ := h
  cases heq
  cases type with
  | action =>
      simp only [actionStep, Except.bind_ok_iff] at htyped
      obtain ⟨toolName, -, arguments, -, timeout, -, heq⟩ := htyped
      cases heq
      exact ⟨rfl, rfl, rfl⟩
  | decision =>
      simp only [decisionStep, Except.bind_ok_iff] at htyped
      obtain ⟨condition, -, trueBranch, -, falseBranch, -, heq⟩ := htyped
      cases heq
      exact ⟨rfl, rfl, rfl⟩
  | hitlGate =>
      simp only [hitlGateStep, Except.bind_ok_iff] at htyped
      obtain ⟨prompt, -, timeout, -, requiredRole, -, heq⟩ := htyped
      cases heq
      exact ⟨rfl, rfl, rfl⟩
  | parallelFork =>
      simp only [Except.bind_ok_iff] at htyped
      obtain ⟨bs, hbs, heq⟩ := htyped
      cases heq
      exact ⟨rfl, rfl, hbs⟩
  | join =>
      cases htyped
      exact ⟨rfl, rfl, rfl⟩
  | «end» =>
      cases htyped
      exact ⟨rfl, rfl, rfl⟩

theorem intField_laxInt {key : String} {default n : Int} (h : intField P raw key default = .ok n) :
    ∀ y, Yaml.lookup key raw = some y → (P.laxInt y).isSome := by
  intro y hy
  rw [intField, hy] at h
  have hsome : P.laxInt y = some n := orRaise_ok.mp h
  rw [hsome]
  rfl

theorem typedStep_fields (habsent : ∀ key ∉ allowedStepKeys type, Yaml.lookup key raw = none)
    (h : typedStep P raw id type failure branches = .ok step) : FieldsRead P raw step := by
  have hstr : ∀ {key default : String}, key ∉ allowedStepKeys type →
      strField P raw key default = .ok default := fun hkey => strField_absent (habsent _ hkey)
  have htimeout : "timeout_seconds" ∉ allowedStepKeys type →
      ∀ y, Yaml.lookup "timeout_seconds" raw = some y → (P.laxInt y).isSome := by
    intro hkey y hy
    rw [habsent _ hkey] at hy
    cases hy
  simp only [typedStep, baseStep, Except.bind_ok_iff] at h
  obtain ⟨base, ⟨name, hname, description, hdescription, config, hconfig, nextStep, hnext, heq⟩,
    htyped⟩ := h
  cases heq
  cases type with
  | action =>
      simp only [actionStep, Except.bind_ok_iff] at htyped
      obtain ⟨toolName, htool, arguments, harguments, timeout, hint, heq⟩ := htyped
      cases heq
      exact ⟨hname, hdescription, hconfig, hnext, htool, harguments, intField_laxInt hint,
        hstr (by decide), hstr (by decide), hstr (by decide), hstr (by decide), hstr (by decide)⟩
  | decision =>
      simp only [decisionStep, Except.bind_ok_iff] at htyped
      obtain ⟨condition, hcondition, trueBranch, htrue, falseBranch, hfalse, heq⟩ := htyped
      cases heq
      exact ⟨hname, hdescription, hconfig, hnext, hstr (by decide),
        mappingField_absent (habsent _ (by decide)), htimeout (by decide), hcondition, htrue,
        hfalse, hstr (by decide), hstr (by decide)⟩
  | hitlGate =>
      simp only [hitlGateStep, Except.bind_ok_iff] at htyped
      obtain ⟨prompt, hprompt, timeout, hint, requiredRole, hrole, heq⟩ := htyped
      cases heq
      exact ⟨hname, hdescription, hconfig, hnext, hstr (by decide),
        mappingField_absent (habsent _ (by decide)), intField_laxInt hint, hstr (by decide),
        hstr (by decide), hstr (by decide), hprompt, hrole⟩
  | parallelFork =>
      simp only [Except.bind_ok_iff] at htyped
      obtain ⟨bs, hbs, heq⟩ := htyped
      cases heq
      exact ⟨hname, hdescription, hconfig, hnext, hstr (by decide),
        mappingField_absent (habsent _ (by decide)), htimeout (by decide), hstr (by decide),
        hstr (by decide), hstr (by decide), hstr (by decide), hstr (by decide)⟩
  | join =>
      cases htyped
      exact ⟨hname, hdescription, hconfig, hnext, hstr (by decide),
        mappingField_absent (habsent _ (by decide)), htimeout (by decide), hstr (by decide),
        hstr (by decide), hstr (by decide), hstr (by decide), hstr (by decide)⟩
  | «end» =>
      cases htyped
      exact ⟨hname, hdescription, hconfig, hnext, hstr (by decide),
        mappingField_absent (habsent _ (by decide)), htimeout (by decide), hstr (by decide),
        hstr (by decide), hstr (by decide), hstr (by decide), hstr (by decide)⟩

theorem intField_ok {key : String} (default : Int)
    (h : ∀ y, Yaml.lookup key raw = some y → (P.laxInt y).isSome) :
    ∃ n, intField P raw key default = .ok n := by
  rw [intField]
  cases hlookup : Yaml.lookup key raw with
  | none => exact ⟨default, rfl⟩
  | some y =>
      obtain ⟨n, hn⟩ := Option.isSome_iff_exists.mp (h y hlookup)
      exact ⟨n, orRaise_ok.mpr hn⟩

theorem typedStep_ok {fields : PlaybookStep} (hfields : FieldsRead P raw fields)
    (hbranches : type = .parallelFork → ∃ bs, branches = .ok bs) :
    ∃ step, typedStep P raw id type failure branches = .ok step := by
  obtain ⟨base, hbase⟩ : ∃ base, baseStep P raw id type failure = .ok base := by
    simp only [baseStep, Except.bind_ok_iff]
    exact ⟨_, _, hfields.name, _, hfields.description, _, hfields.config, _, hfields.nextStep, rfl⟩
  simp only [typedStep, Except.bind_ok_iff]
  cases type with
  | action =>
      obtain ⟨timeout, htimeout⟩ := intField_ok 300 hfields.timeout
      simp only [actionStep, Except.bind_ok_iff]
      exact ⟨_, base, hbase, _, hfields.toolName, _, hfields.arguments, timeout, htimeout, rfl⟩
  | decision =>
      simp only [decisionStep, Except.bind_ok_iff]
      exact ⟨_, base, hbase, _, hfields.condition, _, hfields.trueBranch, _, hfields.falseBranch, rfl⟩
  | hitlGate =>
      obtain ⟨timeout, htimeout⟩ := intField_ok 3600 hfields.timeout
      simp only [hitlGateStep, Except.bind_ok_iff]
      exact ⟨_, base, hbase, _, hfields.prompt, timeout, htimeout, _, hfields.requiredRole, rfl⟩
  | parallelFork =>
      obtain ⟨bs, hbs⟩ := hbranches rfl
      simp only [Except.bind_ok_iff]
      exact ⟨_, base, hbase, bs, hbs, rfl⟩
  | join => exact ⟨base, base, hbase, rfl⟩
  | «end» => exact ⟨base, base, hbase, rfl⟩

end Typed

section Steps
variable {P : Deps} {raw : List (Yaml × Yaml)} {id : StepId} {type : StepType}
  {step : PlaybookStep}

theorem stepId_ok {o : Option Yaml} : stepId o = .ok id ↔ o = some (.str id) ∧ id ≠ "" := by
  cases o with
  | none => simp [stepId]
  | some y =>
      cases y with
      | str s =>
          simp only [stepId, Option.some.injEq, Yaml.str.injEq]
          split
          · next h =>
              simp only [reduceCtorEq, false_iff]
              rintro ⟨rfl, hne⟩
              exact hne h
          · next h =>
              simp only [Except.ok.injEq]
              constructor
              · rintro rfl
                exact ⟨rfl, h⟩
              · exact fun hs => hs.1
      | _ => simp [stepId]

theorem stepType_ok {y : Yaml} :
    stepType id y = .ok type ↔ ∃ s, y = .str s ∧ StepType.ofString? s = some type := by
  cases y with
  | str s => simp [stepType, orRaise_ok]
  | _ => simp [stepType]

theorem onFailure_iff {y : Yaml} :
    (∃ failure, failureOf id y = .ok failure) ↔ ∃ s, onFailure id y = .ok s := by
  cases y with
  | str s =>
      simp only [failureOf, onFailure, orRaise_ok]
      split
      · next h =>
          simp only [List.mem_cons, List.not_mem_nil, or_false] at h
          rcases h with rfl | rfl | rfl <;> simp [OnFailure.ofString?]
      · next h =>
          simp only [reduceCtorEq, exists_false, iff_false, not_exists]
          intro failure hfailure
          apply h
          unfold OnFailure.ofString? at hfailure
          split at hfailure
          · simp
          · simp
          · simp
          · cases hfailure
  | _ => simp [failureOf, onFailure]

theorem StrictFields.absent (h : StrictFields raw id type) :
    ∀ key ∉ allowedStepKeys type, Yaml.lookup key raw = none :=
  fun _ hkey => lookup_none h.keys hkey

theorem StrictFields.branches_ok (h : StrictFields raw id type) (hfork : type = .parallelFork) :
    ∃ bs, validateBranches id ((Yaml.lookup "branches" raw).getD (.seq [])) = .ok bs ∧
      laxBranches P ((Yaml.lookup "branches" raw).getD (.seq [])) = some bs := by
  obtain ⟨bs, hyaml, hcaps⟩ := h.branches hfork
  refine ⟨bs, validateBranches_ok.mpr ⟨hyaml, hcaps⟩, ?_⟩
  rw [hyaml]
  exact laxBranches_yaml P bs

theorem agents_parseStep_ok : AgentsCompiler.parseStep P (.map raw) = .ok step ↔
    ∃ id type, StrictFields raw id type ∧ ∃ failure, onFailureField id raw = .ok failure ∧
      typedStep P raw id type failure
        (validateBranches id ((Yaml.lookup "branches" raw).getD (.seq []))) = .ok step := by
  simp only [AgentsCompiler.parseStep, Except.bind_ok_iff, require_ok, stepId_ok, stepType_ok,
    List.isEmpty_iff]
  constructor
  · rintro ⟨id, ⟨hid, hne⟩, type, htype, -, hkeys, failure, hfailure, htyped⟩
    refine ⟨id, type, ⟨hid, hne, htype, hkeys, ?_⟩, failure, hfailure, htyped⟩
    rintro rfl
    have hbranches := (typedStep_links htyped).2.2
    rw [if_pos rfl] at hbranches
    obtain ⟨hyaml, hcaps⟩ := validateBranches_ok.mp hbranches
    exact ⟨step.branches, hyaml, hcaps⟩
  · rintro ⟨id, type, hstrict, failure, hfailure, htyped⟩
    exact ⟨id, ⟨hstrict.hasId, hstrict.nonempty⟩, type, hstrict.hasType, (), hstrict.keys,
      failure, hfailure, htyped⟩

theorem StrictFields.unique (h : StrictFields raw id type) {id' : StepId} {type' : StepType}
    (h' : StrictFields raw id' type') : id' = id ∧ type' = type := by
  have hid := h.hasId
  rw [h'.hasId] at hid
  cases hid
  obtain ⟨s, hs, htype⟩ := h.hasType
  obtain ⟨s', hs', htype'⟩ := h'.hasType
  rw [hs] at hs'
  cases hs'
  rw [htype] at htype'
  cases htype'
  exact ⟨rfl, rfl⟩

theorem StrictFields.stepTypeOf_eq (h : StrictFields raw id type) :
    PlaybookService.stepTypeOf (Yaml.lookup "type" raw) = type := by
  obtain ⟨s, hs, htype⟩ := h.hasType
  cases hlookup : Yaml.lookup "type" raw with
  | none =>
      rw [hlookup, Option.getD_none] at hs
      cases hs
      cases htype
      rfl
  | some y =>
      rw [hlookup, Option.getD_some] at hs
      cases hs
      rw [PlaybookService.stepTypeOf, htype]
      rfl

theorem typedStep_congr {failure : OnFailure}
    {branches branches' : Except CompileError (List (List StepId))}
    (h : type = .parallelFork → branches = branches') :
    typedStep P raw id type failure branches = typedStep P raw id type failure branches' := by
  cases type with
  | parallelFork => rw [h rfl]
  | _ => rfl

theorem StrictFields.parse_iff (h : StrictFields raw id type) :
    PlaybookService.parseStep P raw (.str id) = .ok step ↔
      AgentsCompiler.parseStep P (.map raw) = .ok step := by
  have hbranches : type = .parallelFork →
      validateBranches id ((Yaml.lookup "branches" raw).getD (.seq [])) =
        orRaise (.python "branches")
          (laxBranches P ((Yaml.lookup "branches" raw).getD (.seq []))) := by
    intro hfork
    obtain ⟨bs, hvalidate, hlax⟩ := h.branches_ok (P := P) hfork
    rw [hvalidate, hlax]
    rfl
  simp only [PlaybookService.parseStep, Except.bind_ok_iff, orRaise_ok, P.laxStr_str,
    h.stepTypeOf_eq, ← typedStep_congr hbranches, agents_parseStep_ok]
  constructor
  · rintro ⟨id', hid, failure, hfailure, htyped⟩
    cases hid
    exact ⟨id, type, h, failure, hfailure, htyped⟩
  · rintro ⟨id', type', h', failure, hfailure, htyped⟩
    obtain ⟨rfl, rfl⟩ := h.unique h'
    exact ⟨id', rfl, failure, hfailure, htyped⟩

theorem agents_parseStep_strict {y : Yaml} (h : AgentsCompiler.parseStep P y = .ok step) :
    ∃ raw, y = .map raw ∧ StrictFields raw step.id step.type ∧
      "" ∉ step.branches.flatten := by
  cases y with
  | map raw =>
      obtain ⟨id, type, hstrict, failure, -, htyped⟩ := agents_parseStep_ok.mp h
      obtain ⟨rfl, rfl, hbranches⟩ := typedStep_links htyped
      refine ⟨raw, rfl, hstrict, ?_⟩
      split at hbranches
      · obtain ⟨-, -, hcaps⟩ := validateBranches_ok.mp hbranches
        intro hmem
        obtain ⟨refs, hrefs, hempty⟩ := List.mem_flatten.mp hmem
        exact (hcaps refs hrefs).2 hempty
      · rw [hbranches]
        simp
  | _ => cases h

end Steps

section Engine
variable {P : Deps} {raw : List (Yaml × Yaml)} {id : StepId} {type : StepType}
  {step : PlaybookStep} {compiled : CompiledStep}

theorem strDict_of_laxDict {y : Yaml} {d : OrderedDict String Yaml} (h : laxDict y = some d) :
    Yaml.strDict y = some d := by
  cases y with
  | map kvs => exact h
  | _ => cases h

theorem mappingField_some {key : String} {d : OrderedDict String Yaml}
    (h : mappingField raw key = .ok d) :
    laxDict ((Yaml.lookup key raw).getD (.map [])) = some d :=
  orRaise_ok.mp h

theorem optIntField_ok (h : ∀ y, Yaml.lookup "timeout_seconds" raw = some y → (P.laxInt y).isSome) :
    ∃ n, optIntField P raw "timeout_seconds" = .ok n := by
  rw [optIntField]
  cases hlookup : Yaml.lookup "timeout_seconds" raw with
  | none => exact ⟨none, rfl⟩
  | some y =>
      obtain ⟨n, hn⟩ := Option.isSome_iff_exists.mp (h y hlookup)
      rw [Option.getD_some]
      split
      · exact ⟨none, rfl⟩
      · rw [hn]
        exact ⟨some n, rfl⟩

theorem FieldsRead.typed (h : FieldsRead P raw step) : TypedFields P raw where
  config := by
    rw [mappingField_some h.config]
    rfl
  arguments := by
    rw [mappingField_some h.arguments]
    rfl
  timeout := h.timeout

theorem agents_parseStep_typed (h : AgentsCompiler.parseStep P (.map raw) = .ok step) :
    TypedFields P raw := by
  obtain ⟨id, type, hstrict, failure, -, htyped⟩ := agents_parseStep_ok.mp h
  exact (typedStep_fields hstrict.absent htyped).typed

theorem engine_of_agents (h : AgentsCompiler.parseStep P (.map raw) = .ok step) :
    ∃ compiled, Compiler.parseStep P (.map raw) = .ok compiled ∧ SameStep step compiled := by
  obtain ⟨id, type, hstrict, failure, hfailure, htyped⟩ := agents_parseStep_ok.mp h
  have hfields := typedStep_fields hstrict.absent htyped
  obtain ⟨rfl, rfl, hbranches⟩ := typedStep_links htyped
  obtain ⟨name, hname⟩ := onFailure_iff.mp ⟨failure, hfailure⟩
  obtain ⟨timeout, htimeout⟩ := optIntField_ok hfields.timeout
  have hcompiled : (if step.type = .parallelFork then
      validateBranches step.id ((Yaml.lookup "branches" raw).getD (.seq [])) else .ok []) =
        .ok step.branches := by
    split at hbranches
    · next hfork => rw [if_pos hfork, hbranches]
    · next hfork => rw [if_neg hfork, hbranches]
  have hconfig : dictField raw "config" = .ok step.config :=
    orRaise_ok.mpr (strDict_of_laxDict (mappingField_some hfields.config))
  have harguments : dictField raw "arguments" = .ok step.arguments :=
    orRaise_ok.mpr (strDict_of_laxDict (mappingField_some hfields.arguments))
  refine ⟨⟨step.id, step.type, step.name, step.config, step.nextStep, name, step.toolName,
    step.arguments, timeout, step.condition, step.trueBranch, step.falseBranch, step.prompt,
    step.requiredRole, step.branches⟩, ?_, rfl, rfl, rfl⟩
  simp only [Compiler.parseStep, Except.ite_bind, Except.bind_ok_iff, require_ok, stepId_ok,
    stepType_ok, List.isEmpty_iff]
  exact ⟨step.id, ⟨hstrict.hasId, hstrict.nonempty⟩, step.type, hstrict.hasType, (), hstrict.keys,
    name, hname, step.branches, hcompiled, _, hconfig, _, harguments, _, hfields.name, _,
    hfields.description, _, hfields.nextStep, _, hfields.toolName, timeout, htimeout, _,
    hfields.condition, _, hfields.trueBranch, _, hfields.falseBranch, _, hfields.prompt, _,
    hfields.requiredRole, rfl⟩

theorem engine_parseStep_strict {y : Yaml} (h : Compiler.parseStep P y = .ok compiled) :
    ∃ raw, y = .map raw ∧ StrictFields raw compiled.id compiled.type ∧
      "" ∉ compiled.branches.flatten := by
  cases y with
  | map raw =>
      simp only [Compiler.parseStep, Except.ite_bind, Except.bind_ok_iff, require_ok, stepId_ok,
        stepType_ok, List.isEmpty_iff] at h
      obtain ⟨id, ⟨hid, hne⟩, type, htype, -, hkeys, failure, -, branches, hbranches, config, -,
        arguments, -, name, -, description, -, nextStep, -, toolName, -, timeout, -, condition, -,
        trueBranch, -, falseBranch, -, prompt, -, requiredRole, -, heq⟩ := h
      cases heq
      refine ⟨raw, rfl, ⟨hid, hne, htype, hkeys, ?_⟩, ?_⟩
      · intro hfork
        rw [if_pos hfork] at hbranches
        obtain ⟨hyaml, hcaps⟩ := validateBranches_ok.mp hbranches
        exact ⟨branches, hyaml, hcaps⟩
      · split at hbranches
        · obtain ⟨-, -, hcaps⟩ := validateBranches_ok.mp hbranches
          intro hmem
          obtain ⟨refs, hrefs, hempty⟩ := List.mem_flatten.mp hmem
          exact (hcaps refs hrefs).2 hempty
        · cases hbranches
          simp
  | _ => cases h

theorem agents_of_engine (h : Compiler.parseStep P (.map raw) = .ok compiled)
    (htyped : TypedFields P raw) : ∃ step, AgentsCompiler.parseStep P (.map raw) = .ok step := by
  obtain ⟨_, heq, hstrict, -⟩ := engine_parseStep_strict h
  cases heq
  simp only [Compiler.parseStep, Except.ite_bind, Except.bind_ok_iff, require_ok, stepId_ok,
    stepType_ok, List.isEmpty_iff] at h
  obtain ⟨id, -, type, -, -, -, failureName, hfailureName, branches, -, config, -, arguments, -,
    name, hname, description, hdescription, nextStep, hnext, toolName, htool, timeout, -,
    condition, hcondition, trueBranch, htrue, falseBranch, hfalse, prompt, hprompt, requiredRole,
    hrole, heq⟩ := h
  cases heq
  obtain ⟨failure, hfailure⟩ := onFailure_iff.mpr ⟨failureName, hfailureName⟩
  obtain ⟨configDict, hconfig⟩ := Option.isSome_iff_exists.mp htyped.config
  obtain ⟨argumentsDict, harguments⟩ := Option.isSome_iff_exists.mp htyped.arguments
  have hfields : FieldsRead P raw ⟨id, type, name, description, configDict, nextStep, failure,
      toolName, argumentsDict, 0, condition, trueBranch, falseBranch, prompt, requiredRole, []⟩ :=
    ⟨hname, hdescription, orRaise_ok.mpr hconfig, hnext, htool, orRaise_ok.mpr harguments,
      htyped.timeout, hcondition, htrue, hfalse, hprompt, hrole⟩
  have hbranches : type = .parallelFork → ∃ bs,
      validateBranches id ((Yaml.lookup "branches" raw).getD (.seq [])) = .ok bs := by
    intro hfork
    obtain ⟨bs, hbs, -⟩ := hstrict.branches_ok (P := P) hfork
    exact ⟨bs, hbs⟩
  obtain ⟨step, hstep⟩ : ∃ step, typedStep P raw id type failure
      (validateBranches id ((Yaml.lookup "branches" raw).getD (.seq []))) = .ok step :=
    typedStep_ok hfields hbranches
  exact ⟨step, agents_parseStep_ok.mpr ⟨id, type, hstrict, failure, hfailure, hstep⟩⟩

end Engine

section Lists
variable {P : Deps} {raws : List Yaml} {seen : List StepId} {steps : List PlaybookStep}
  {compiled : List CompiledStep}

theorem agents_parseSteps_strict (h : AgentsCompiler.parseSteps P seen raws = .ok steps) :
    (∀ y ∈ raws, StrictEntry y ∧ TypedEntry P y) ∧ (steps.map (·.id)).Nodup ∧
      (∀ id ∈ steps.map (·.id), id ∉ seen ∧ id ≠ "") ∧
        ∀ step ∈ steps, "" ∉ step.branches.flatten := by
  induction raws generalizing seen steps with
  | nil =>
      cases h
      simp
  | cons y raws ih =>
      simp only [AgentsCompiler.parseSteps, Except.bind_ok_iff, require_ok,
        decide_eq_true_iff] at h
      obtain ⟨step, hstep, -, hnew, rest, hrest, heq⟩ := h
      cases heq
      obtain ⟨hraws, hnodup, hids, hbranches⟩ := ih hrest
      obtain ⟨raw, rfl, hstrict, hflat⟩ := agents_parseStep_strict hstep
      refine ⟨?_, ?_, ?_, List.forall_mem_cons.mpr ⟨hflat, hbranches⟩⟩
      · exact List.forall_mem_cons.mpr
          ⟨⟨⟨_, _, hstrict⟩, agents_parseStep_typed hstep⟩, hraws⟩
      · refine List.nodup_cons.mpr ⟨?_, hnodup⟩
        intro hmem
        exact (hids _ hmem).1 List.mem_cons_self
      · refine List.forall_mem_cons.mpr ⟨⟨hnew, hstrict.nonempty⟩, ?_⟩
        intro id hid
        exact ⟨fun hseen => (hids id hid).1 (List.mem_cons_of_mem _ hseen), (hids id hid).2⟩

theorem engine_parseSteps_strict (h : Compiler.parseSteps P seen raws = .ok compiled) :
    (∀ y ∈ raws, StrictEntry y) ∧ (∀ id ∈ compiled.map (·.id), id ≠ "") ∧
      ∀ step ∈ compiled, "" ∉ step.branches.flatten := by
  induction raws generalizing seen compiled with
  | nil =>
      cases h
      simp
  | cons y raws ih =>
      simp only [Compiler.parseSteps, Except.bind_ok_iff, require_ok] at h
      obtain ⟨step, hstep, -, -, rest, hrest, heq⟩ := h
      cases heq
      obtain ⟨hraws, hids, hbranches⟩ := ih hrest
      obtain ⟨raw, rfl, hstrict, hflat⟩ := engine_parseStep_strict hstep
      exact ⟨List.forall_mem_cons.mpr ⟨⟨_, _, hstrict⟩, hraws⟩,
        List.forall_mem_cons.mpr ⟨hstrict.nonempty, hids⟩,
        List.forall_mem_cons.mpr ⟨hflat, hbranches⟩⟩

theorem SameStep.id {step : PlaybookStep} {c : CompiledStep} (h : SameStep step c) :
    c.id = step.id :=
  congrArg StepLinks.id h.links

theorem engine_of_agents_steps (h : AgentsCompiler.parseSteps P seen raws = .ok steps) :
    ∃ compiled, Compiler.parseSteps P seen raws = .ok compiled ∧
      List.Forall₂ SameStep steps compiled := by
  induction raws generalizing seen steps with
  | nil =>
      cases h
      exact ⟨[], rfl, .nil⟩
  | cons y raws ih =>
      simp only [AgentsCompiler.parseSteps, Except.bind_ok_iff, require_ok] at h
      obtain ⟨step, hstep, -, hnew, rest, hrest, heq⟩ := h
      cases heq
      obtain ⟨raw, rfl, -, -⟩ := agents_parseStep_strict hstep
      obtain ⟨c, hc, hsame⟩ := engine_of_agents hstep
      obtain ⟨cs, hcs, hall⟩ := ih hrest
      refine ⟨c :: cs, ?_, .cons hsame hall⟩
      simp only [Compiler.parseSteps, Except.bind_ok_iff, require_ok]
      exact ⟨c, hc, (), by rwa [hsame.id], cs, by rwa [hsame.id], rfl⟩

theorem agents_of_engine_steps (h : Compiler.parseSteps P seen raws = .ok compiled)
    (htyped : ∀ y ∈ raws, TypedEntry P y) :
    ∃ steps, AgentsCompiler.parseSteps P seen raws = .ok steps := by
  induction raws generalizing seen compiled with
  | nil => exact ⟨[], rfl⟩
  | cons y raws ih =>
      simp only [Compiler.parseSteps, Except.bind_ok_iff, require_ok] at h
      obtain ⟨c, hc, -, hnew, cs, hcs, -⟩ := h
      obtain ⟨hy, hraws⟩ := List.forall_mem_cons.mp htyped
      obtain ⟨raw, rfl, -, -⟩ := engine_parseStep_strict hc
      obtain ⟨step, hstep⟩ := agents_of_engine hc hy
      obtain ⟨c', hc', hsame⟩ := engine_of_agents hstep
      rw [hc] at hc'
      cases hc'
      rw [hsame.id] at hnew hcs
      obtain ⟨steps, hsteps⟩ := ih hcs hraws
      refine ⟨step :: steps, ?_⟩
      simp only [AgentsCompiler.parseSteps, Except.bind_ok_iff, require_ok]
      exact ⟨step, hstep, (), hnew, steps, hsteps, rfl⟩

end Lists

section Backend
open PlaybookService

variable {P : Deps} {raws : List Yaml} {steps acc : List PlaybookStep} {ids seen : List StepId}
  {i : ℕ}

theorem parseEntry_map {raw : List (Yaml × Yaml)} {id : StepId} {type : StepType}
    (h : StrictFields raw id type) : parseEntry P (.map raw) = parseStep P raw (.str id) := by
  rw [parseEntry, h.hasId]
  rfl

theorem addStep_strict {raw : List (Yaml × Yaml)} {id : StepId} {type : StepType}
    (h : StrictFields raw id type) {parsed : ParsedSteps} :
    addStep P parsed i (.map raw) =
      if hasKey parsed.ids (.str id) then .ok (reject parsed (.duplicateStepId (.str id)))
      else
        let parsed := { parsed with ids := parsed.ids ++ [.str id] }
        match parseStep P raw (.str id) with
        | .ok step => .ok { parsed with steps := parsed.steps ++ [step] }
        | .error why => .ok (reject parsed (.stepInvalid (.str id) why)) := by
  simp only [addStep, h.hasId, Yaml.hashable]
  rfl

theorem backend_of_agents_steps (h : AgentsCompiler.parseSteps P seen raws = .ok steps)
    (hseen : ∀ id, id ∈ ids → id ∈ seen) :
    raws.mapM (parseEntry P) = .ok steps ∧
      addSteps P ⟨ids.map .str, acc, []⟩ i raws =
        .ok ⟨(ids ++ steps.map (·.id)).map .str, acc ++ steps, []⟩ := by
  induction raws generalizing seen steps ids acc i with
  | nil =>
      cases h
      simp [addSteps]
      rfl
  | cons y raws ih =>
      simp only [AgentsCompiler.parseSteps, Except.bind_ok_iff, require_ok,
        decide_eq_true_iff] at h
      obtain ⟨step, hstep, -, hnew, rest, hrest, heq⟩ := h
      cases heq
      obtain ⟨raw, rfl, hstrict, -⟩ := agents_parseStep_strict hstep
      have hparse := hstrict.parse_iff.mpr hstep
      have hfresh : hasKey (ids.map .str) (.str step.id) ≠ true := by
        rw [ne_eq, StepLinks.hasKey_str]
        exact fun hmem => hnew (hseen _ hmem)
      have hnext : ∀ id, id ∈ ids ++ [step.id] → id ∈ step.id :: seen := by
        intro id hid
        rcases List.mem_append.mp hid with hid | hid
        · exact List.mem_cons_of_mem _ (hseen id hid)
        · exact List.mem_cons.mpr (Or.inl (List.mem_singleton.mp hid))
      obtain ⟨hmap, hadd⟩ : raws.mapM (parseEntry P) = .ok rest ∧
          addSteps P ⟨(ids ++ [step.id]).map .str, acc ++ [step], []⟩ (i + 1) raws =
            .ok ⟨(ids ++ [step.id] ++ rest.map (·.id)).map .str, acc ++ [step] ++ rest, []⟩ :=
        ih hrest hnext
      constructor
      · rw [List.mapM_cons, parseEntry_map hstrict, hparse, hmap]
        rfl
      · simp only [addSteps, Except.bind_ok_iff]
        refine ⟨⟨(ids ++ [step.id]).map .str, acc ++ [step], []⟩, ?_, ?_⟩
        · rw [addStep_strict hstrict, if_neg hfresh, hparse]
          simp
        · rw [hadd]
          simp

theorem addStep_errors {parsed parsed' : ParsedSteps} {y : Yaml}
    (h : addStep P parsed i y = .ok parsed') (hnone : parsed'.errors = []) :
    parsed.errors = [] := by
  have hreject : ∀ {p : ParsedSteps} {error : PlaybookError},
      Except.ok (reject p error) = (.ok parsed' : Except CompileError ParsedSteps) → False := by
    intro p error heq
    cases heq
    simp [reject] at hnone
  cases y with
  | map raw =>
      simp only [addStep] at h
      split at h
      · exact (hreject h).elim
      · split at h
        · cases h
        · split at h
          · exact (hreject h).elim
          · split at h
            · cases h
              exact hnone
            · exact (hreject h).elim
  | _ => exact (hreject h).elim

theorem addSteps_errors {parsed parsed' : ParsedSteps} (h : addSteps P parsed i raws = .ok parsed')
    (hnone : parsed'.errors = []) : parsed.errors = [] := by
  induction raws generalizing parsed i with
  | nil =>
      cases h
      exact hnone
  | cons y raws ih =>
      simp only [addSteps, Except.bind_ok_iff] at h
      obtain ⟨middle, hfirst, hrest⟩ := h
      exact addStep_errors hfirst (ih hrest)

theorem agents_of_backend_steps {parsed : ParsedSteps} (hstrict : ∀ y ∈ raws, StrictEntry y)
    (h : addSteps P ⟨ids.map .str, acc, []⟩ i raws = .ok parsed) (hnone : parsed.errors = [])
    (hseen : ∀ id, id ∈ seen → id ∈ ids) :
    ∃ steps, AgentsCompiler.parseSteps P seen raws = .ok steps := by
  induction raws generalizing seen ids acc i with
  | nil => exact ⟨[], rfl⟩
  | cons y raws ih =>
      obtain ⟨hy, hraws⟩ := List.forall_mem_cons.mp hstrict
      simp only [addSteps, Except.bind_ok_iff] at h
      obtain ⟨middle, hfirst, hrest⟩ := h
      have hclean := addSteps_errors hrest hnone
      cases y with
      | map raw =>
          obtain ⟨id, type, hfields⟩ := hy
          rw [addStep_strict hfields] at hfirst
          split at hfirst
          · cases hfirst
            simp [reject] at hclean
          · next hfresh =>
              cases hparse : parseStep P raw (.str id) with
              | error why =>
                  rw [hparse] at hfirst
                  cases hfirst
                  simp [reject] at hclean
              | ok step =>
                  rw [hparse] at hfirst
                  cases hfirst
                  have hstep := hfields.parse_iff.mp hparse
                  obtain ⟨_, heq, hstepFields, -⟩ := agents_parseStep_strict hstep
                  cases heq
                  obtain ⟨hid, -⟩ := hfields.unique hstepFields
                  rw [StepLinks.hasKey_str] at hfresh
                  have hrest : addSteps P ⟨(ids ++ [id]).map .str, acc ++ [step], []⟩ (i + 1) raws =
                      .ok parsed := by
                    simpa using hrest
                  have hnext : ∀ j, j ∈ step.id :: seen → j ∈ ids ++ [id] := by
                    intro j hj
                    rcases List.mem_cons.mp hj with rfl | hj
                    · exact List.mem_append_right _ (List.mem_singleton.mpr hid)
                    · exact List.mem_append_left _ (hseen j hj)
                  obtain ⟨rest, hparsed⟩ := ih hraws hrest hnext
                  refine ⟨step :: rest, ?_⟩
                  simp only [AgentsCompiler.parseSteps, Except.bind_ok_iff, require_ok,
                    decide_eq_true_iff]
                  refine ⟨step, hstep, (), ?_, rest, hparsed, rfl⟩
                  rw [hid]
                  exact fun hmem => hfresh (hseen _ hmem)
      | _ => exact hy.elim

end Backend

end Playbook

end BTagent
