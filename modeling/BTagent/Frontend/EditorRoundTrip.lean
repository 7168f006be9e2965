import Mathlib.Data.List.Perm.Basic
import BTagent.Frontend.ReadSteps
import BTagent.Lib.Monads

namespace BTagent

namespace PlaybookGraph

def stepIds (g : PlaybookGraph) : List String := g.stepNodes.map PlaybookNode.id

def ends (e : PlaybookEdge) : String × String × Option String :=
  (e.source, e.target, e.sourceHandle)

-- The edges between steps, each with its ends and the handle it leaves by.
def edgesBetween (g : PlaybookGraph) : List (String × String × Option String) :=
  (g.edges.filter fun e => e.source ∈ g.stepIds ∧ e.target ∈ g.stepIds).map ends

structure SameSteps (g other : PlaybookGraph) : Prop where
  nodes : other.stepNodes.Perm g.stepNodes
  edges : other.edgesBetween.Perm g.edgesBetween

-- The edges that leave a step of each kind, and the data the editor keeps for it.
def WellFormed (g : PlaybookGraph) (n : PlaybookNode) : Prop :=
  let out := g.outEdges n.id
  match n.data with
  | .action _ _ arguments _ onFailure =>
      (out.length ≤ 1 ∧ ∀ e ∈ out, e.sourceHandle = none) ∧
        (∃ entries, arguments = .object entries) ∧ onFailure ∈ ["skip", "abort", "retry"]
  | .decision .. =>
      (out.map PlaybookEdge.sourceHandle).Nodup ∧
        ∀ e ∈ out, e.sourceHandle = some "yes" ∨ e.sourceHandle = some "no"
  | .hitlGate .. => out.length ≤ 1 ∧ ∀ e ∈ out, e.sourceHandle = none
  | .endNode _ => out = []
  | .parallelFork .. | .trigger .. => True

structure IsPlaybook (g : PlaybookGraph) : Prop where
  ids : g.stepIds.Nodup
  targets : ∀ e ∈ g.edges, e.target ∈ g.stepIds
  steps : ∀ n ∈ g.stepNodes, WellFormed g n

-- The text of the trigger alone reads as no step.
def QuietTrigger (g : PlaybookGraph) : Prop :=
  ∃ header, headerLines g.triggerNode = some header ∧
    (yamlToNodes (joinLines header)).stepNodes = []

def Held (g : PlaybookGraph) (n : PlaybookNode) : Prop :=
  (Verbatim n.id ∧ n.id ≠ "") ∧ (Verbatim n.data.label ∧ n.data.label ≠ "") ∧
    match n.data with
    | .action _ toolName arguments timeoutSeconds _ =>
        Verbatim toolName ∧ arguments = .object [] ∧ timeoutSeconds ≠ 0
    | .decision _ condition => Verbatim condition
    | .hitlGate _ prompt timeoutSeconds requiredRole =>
        Verbatim prompt ∧ timeoutSeconds ≠ 0 ∧ Verbatim requiredRole ∧ requiredRole ≠ ""
    | .parallelFork _ branchCount branchLabels =>
        branchCount = (if g.outEdges n.id = [] then 2 else 0) ∧ branchLabels = []
    | .endNode _ => True
    | .trigger .. => False

def isFork : NodeData → Bool
  | .parallelFork .. => true
  | _ => false

def branchEdges (g : PlaybookGraph) : List (String × String × Option String) :=
  g.stepNodes.flatMap fun n => if isFork n.data then (g.outEdges n.id).map ends else []

-- The edge of the new trigger, where a step has the name of that trigger.
def clashEdges (g : PlaybookGraph) : List (String × String × Option String) :=
  if "trigger-1" ∈ g.stepIds then g.stepIds.head?.toList.map fun id => ("trigger-1", id, none)
  else []

structure Survives (g : PlaybookGraph) : Prop where
  steps : ∀ n ∈ g.stepNodes, Held g n
  branches : g.branchEdges = g.clashEdges

def readNode (step : ParsedStep) : PlaybookNode :=
  { id := step.id.getD "", data := buildNodeData step }

def parsedSteps (text : Line) : List ParsedStep := flushed (parseLines (text.splitOn '\n'))

theorem buildNodeData_step (step : ParsedStep) : (buildNodeData step).isTrigger = false := by
  unfold buildNodeData
  dsimp only
  split_ifs <;> rfl

theorem stepNodes_yamlToNodes (text : Line) :
    (yamlToNodes text).stepNodes = (parsedSteps text).map readNode := by
  have hsteps : ∀ n ∈ (parsedSteps text).map readNode, (¬ n.data.isTrigger = true) := by
    intro n hn
    obtain ⟨step, -, rfl⟩ := List.mem_map.mp hn
    simp [readNode, buildNodeData_step]
  have htrigger (label kind : String) : (NodeData.trigger label kind []).isTrigger = true := rfl
  rw [stepNodes, yamlToNodes]
  dsimp only
  rw [List.filter_cons_of_neg (by simp [htrigger])]
  exact List.filter_eq_self.mpr fun n hn => by simpa using hsteps n hn

section Fold
variable {g : PlaybookGraph} {s : ParseState}

def named (step : ParsedStep) : Bool := step.id.getD "" ≠ ""

theorem flushed_onStep (s : ParseState) (step : ParsedStep) :
    flushed (onStep s step) = s.steps ++ [step].filter named := by
  simp only [flushed, onStep]
  split
  · rename_i h
    rw [List.filter_cons_of_pos (by simpa [named] using h), List.filter_nil]
  · rename_i h
    rw [List.filter_cons_of_neg (by simpa [named] using h), List.filter_nil, List.append_nil]

theorem fold_nodes {nodes : List PlaybookNode} (hphase : s.phase = .steps)
    (hwritable : ∀ n ∈ nodes, Writable n.data) :
    ∃ lines, nodes.mapM g.nodeLines = some lines ∧
      flushed (lines.flatten.foldl parseLine s) =
        flushed s ++ (nodes.map (readStep g)).filter named := by
  induction nodes generalizing s with
  | nil => exact ⟨[], rfl, by simp⟩
  | cons n nodes ih =>
      obtain ⟨first, hfirst, hfold⟩ := fold_nodeLines g hphase (hwritable n List.mem_cons_self)
      have hnext : (onStep { s with steps := flushed s } (readStep g n)).phase = .steps := hphase
      obtain ⟨rest, hrest, hflushed⟩ := ih hnext fun m hm => hwritable m (List.mem_cons_of_mem _ hm)
      refine ⟨first :: rest, ?_, ?_⟩
      · rw [List.mapM_cons, hfirst, hrest]
        rfl
      · rw [List.flatten_cons, List.foldl_append, hfold, hflushed, flushed_onStep,
          List.append_assoc, ← List.filter_append, List.map_cons, List.singleton_append]

end Fold

section Header
variable {g : PlaybookGraph}

theorem parseLine_steps (s : ParseState) :
    parseLine s "steps:".toList = { s with phase := .steps } := by
  have htrim : trim "steps:".toList = "steps:".toList := by decide
  rw [parseLine, htrim]
  rw [if_neg (by decide), if_neg (by decide), if_pos rfl]

theorem headerLines_last {trigger : Option NodeData} {header : List Line}
    (h : headerLines trigger = some header) : ∃ front, header = front ++ ["steps:".toList] := by
  have hfront (lines : List Line) : lines ++ [[], "steps:".toList] = lines ++ [[]] ++
      ["steps:".toList] := by
    rw [List.append_assoc]
    rfl
  unfold headerLines at h
  dsimp only at h
  split at h
  · cases h
    exact ⟨_, hfront _⟩
  · simp only [Option.bind_eq_bind, Option.bind_eq_some_iff] at h
    obtain ⟨text, -, block, hblock, hsome⟩ := h
    cases hsome
    exact ⟨_, hfront _⟩

theorem header_phase {header : List Line} (h : headerLines g.triggerNode = some header) :
    (parseLines (header.flatMap fun l => l.splitOn '\n')).phase = .steps := by
  obtain ⟨front, rfl⟩ := headerLines_last h
  have hlast : "steps:".toList.splitOn '\n' = ["steps:".toList] := by decide
  rw [List.flatMap_append, List.flatMap_singleton, hlast, parseLines, List.foldl_append,
    List.foldl_cons, List.foldl_nil, parseLine_steps]

theorem headerLines_ne_nil {trigger : Option NodeData} {header : List Line}
    (h : headerLines trigger = some header) : header ≠ [] := by
  obtain ⟨front, rfl⟩ := headerLines_last h
  simp

theorem parsedSteps_written (hquiet : QuietTrigger g)
    (hwritable : ∀ n ∈ g.stepNodes, Writable n.data)
    (hids : ∀ n ∈ g.stepNodes, '\n' ∉ n.id.toList)
    (htexts : ∀ n ∈ g.stepNodes, ∀ t ∈ texts n.data, '\n' ∉ t.toList)
    (htargets : ∀ e ∈ g.edges, '\n' ∉ e.target.toList) :
    ∃ text, nodesToYAML g = some text ∧
      parsedSteps text = (g.stepNodes.map (readStep g)).filter named := by
  obtain ⟨header, hheader, hnone⟩ := hquiet
  let s := parseLines (header.flatMap fun l => l.splitOn '\n')
  have hphase : s.phase = .steps := header_phase hheader
  obtain ⟨lines, hlines, hflushed⟩ := fold_nodes (g := g) hphase hwritable
  have hone : ∀ l ∈ lines.flatten, '\n' ∉ l := by
    intro l hl
    obtain ⟨block, hblock, hmem⟩ := List.mem_flatten.mp hl
    obtain ⟨n, hn, hlinesOf⟩ := Option.exists_of_mem_mapM hlines hblock
    exact line_nodeLines g (hwritable n hn) (hids n hn) (htexts n hn) htargets hlinesOf l hmem
  have hsplit : (joinLines (header ++ lines.flatten)).splitOn '\n' = (header.flatMap fun l => l.splitOn '\n') ++ lines.flatten := by
    rw [joinLines, Lines.splitOn_intercalate (by simp [headerLines_ne_nil hheader]),
      List.flatMap_append, Lines.flatMap_splitOn hone]
  have hempty : flushed s = [] := by
    rw [stepNodes_yamlToNodes, List.map_eq_nil_iff, parsedSteps, joinLines,
      Lines.splitOn_intercalate (headerLines_ne_nil hheader)] at hnone
    exact hnone
  refine ⟨joinLines (header ++ lines.flatten), ?_, ?_⟩
  · rw [nodesToYAML, hheader, hlines]
    rfl
  · rw [parsedSteps, hsplit, parseLines, List.foldl_append]
    exact hflushed.trans (by rw [hempty, List.nil_append])

end Header

def readLabel (n : PlaybookNode) : String :=
  if readText n.data.label ≠ "" then readText n.data.label else readText n.id

def readData (g : PlaybookGraph) (n : PlaybookNode) : NodeData :=
  match n.data with
  | .action _ toolName _ timeoutSeconds onFailure =>
      .action (readLabel n) (readText toolName) (.object [])
        (if timeoutSeconds = 0 then 300 else timeoutSeconds) onFailure
  | .decision _ condition => .decision (readLabel n) (readText condition)
  | .hitlGate _ prompt timeoutSeconds requiredRole =>
      .hitlGate (readLabel n) (readText prompt)
        (if timeoutSeconds = 0 then 3600 else timeoutSeconds)
        (if requiredRole = "" then "senior_analyst" else readText requiredRole)
  | .parallelFork .. =>
      .parallelFork (readLabel n) (if g.outEdges n.id = [] then 2 else 0) []
  | .endNode _ | .trigger .. => .endNode (readLabel n)

section Data
variable {g : PlaybookGraph} {n : PlaybookNode}

theorem readStep_id : (readStep g n).id = some (readText n.id) := by
  unfold readStep
  cases n.data <;> rfl

theorem optionalText_getD (v : String) : (optionalText v).getD "" = readText v := by
  unfold optionalText
  split
  · rename_i h
    rw [h]
    rfl
  · rfl

theorem readStep_type : (readStep g n).type = some n.data.stepType := by
  unfold readStep
  cases n.data <;> rfl

theorem stepLabel_readStep : stepLabel (readStep g n) = readLabel n := by
  have hname : (readStep g n).name = some (readText n.data.label) := by
    unfold readStep
    cases n.data <;> rfl
  rw [stepLabel, hname, readStep_id]
  rfl

theorem buildNodeData_readStep (hwritable : Writable n.data) :
    buildNodeData (readStep g n) = readData g n := by
  have htype : nodeType (readStep g n) = mapStepTypeToNodeType n.data.stepType := by
    rw [nodeType, readStep_type]
    rfl
  simp only [buildNodeData, stepLabel_readStep, htype]
  cases hdata : n.data with
  | trigger label type parameters => simp [hdata, Writable] at hwritable
  | action label toolName arguments timeoutSeconds onFailure =>
      rw [hdata] at hwritable
      have htime : (if timeoutSeconds ≠ 0 ∧ timeoutSeconds ≠ 300 then some timeoutSeconds
          else none).getD 300 = if timeoutSeconds = 0 then 300 else timeoutSeconds := by
        split_ifs <;> simp_all
      have hfailure : (if onFailure ≠ "" ∧ onFailure ≠ "abort" then some onFailure
          else none).getD "abort" = onFailure := by
        have hmem := hwritable.2
        simp only [List.mem_cons, List.not_mem_nil, or_false] at hmem
        rcases hmem with rfl | rfl | rfl <;> decide
      simp [NodeData.stepType, mapStepTypeToNodeType, readStep, readData, hdata,
        optionalText_getD, htime, hfailure]
  | decision label condition =>
      simp [NodeData.stepType, mapStepTypeToNodeType, readStep, readData, hdata,
        optionalText_getD]
  | hitlGate label prompt timeoutSeconds requiredRole =>
      have htime : (if timeoutSeconds = 0 then none else some timeoutSeconds).getD 3600 =
          if timeoutSeconds = 0 then 3600 else timeoutSeconds := by
        split_ifs <;> rfl
      have hrole : (optionalText requiredRole).getD "senior_analyst" =
          if requiredRole = "" then "senior_analyst" else readText requiredRole := by
        unfold optionalText
        split_ifs <;> rfl
      simp [NodeData.stepType, mapStepTypeToNodeType, readStep, readData, hdata,
        optionalText_getD, htime, hrole]
  | parallelFork label branchCount branchLabels =>
      simp only [NodeData.stepType, mapStepTypeToNodeType, readStep, readData, hdata]
      split_ifs <;> simp_all
  | endNode label =>
      simp [NodeData.stepType, mapStepTypeToNodeType, readData, hdata]

theorem readNode_readStep (hwritable : Writable n.data) :
    readNode (readStep g n) = { id := readText n.id, data := readData g n } := by
  rw [readNode, readStep_id, buildNodeData_readStep hwritable]
  rfl

theorem readLabel_of_verbatim (h : Verbatim n.data.label) (hne : n.data.label ≠ "") :
    readLabel n = n.data.label := by
  rw [readLabel, readText_verbatim h, if_pos hne]

theorem readNode_of_held (h : Held g n) (hwritable : Writable n.data) :
    readNode (readStep g n) = n := by
  obtain ⟨⟨hid, -⟩, ⟨hlabel, hlabelNe⟩, hdataHeld⟩ := h
  have hread := readLabel_of_verbatim hlabel hlabelNe
  have hdata : readData g n = n.data := by
    unfold readData
    rw [hread]
    cases hkind : n.data with
    | trigger label type parameters => simp [hkind, Writable] at hwritable
    | action label toolName arguments timeoutSeconds onFailure =>
        rw [hkind] at hdataHeld
        obtain ⟨htool, harguments, htime⟩ := hdataHeld
        simp only [NodeData.label, readText_verbatim htool, harguments, if_neg htime]
    | decision label condition =>
        rw [hkind] at hdataHeld
        simp only [NodeData.label, readText_verbatim hdataHeld]
    | hitlGate label prompt timeoutSeconds requiredRole =>
        rw [hkind] at hdataHeld
        obtain ⟨hprompt, htime, hrole, hroleNe⟩ := hdataHeld
        simp only [NodeData.label, readText_verbatim hprompt, if_neg htime, if_neg hroleNe,
          readText_verbatim hrole]
    | parallelFork label branchCount branchLabels =>
        rw [hkind] at hdataHeld
        simp only [NodeData.label, ← hdataHeld.1, hdataHeld.2]
    | endNode label => rfl
  rw [readNode_readStep hwritable, readText_verbatim hid, hdata]

theorem readData_label : (readData g n).label = readLabel n := by
  unfold readData
  split <;> simp only [NodeData.label]

theorem held_of_readNode (hwritable : Writable n.data) (hid : '\n' ∉ n.id.toList)
    (htexts : ∀ t ∈ texts n.data, '\n' ∉ t.toList) (hne : n.id ≠ "")
    (h : readNode (readStep g n) = n) : Held g n := by
  rw [readNode_readStep hwritable] at h
  have hreadId : readText n.id = n.id := congrArg PlaybookNode.id h
  have hdata : readData g n = n.data := congrArg PlaybookNode.data h
  have hlabel : readLabel n = n.data.label := by
    rw [← readData_label (g := g), hdata]
  have hreadLabel : readText n.data.label = n.data.label ∧ n.data.label ≠ "" := by
    unfold readLabel at hlabel
    split at hlabel
    · rename_i hnonempty
      refine ⟨hlabel, ?_⟩
      rwa [hlabel] at hnonempty
    · rename_i hempty
      rw [not_not, ← hlabel, hreadId, hreadId] at hempty
      exact absurd hempty hne
  refine ⟨⟨verbatim_of_readText hid hreadId, hne⟩,
    ⟨verbatim_of_readText (htexts n.data.label List.mem_cons_self) hreadLabel.1, hreadLabel.2⟩, ?_⟩
  cases hkind : n.data with
  | trigger label type parameters => simp [hkind, Writable] at hwritable
  | action label toolName arguments timeoutSeconds onFailure =>
      rw [hkind] at htexts
      simp only [readData, hkind, NodeData.action.injEq] at hdata
      obtain ⟨-, htool, harguments, htime, -⟩ := hdata
      refine ⟨verbatim_of_readText (htexts toolName (by simp [texts])) htool, harguments.symm, ?_⟩
      split at htime <;> omega
  | decision label condition =>
      rw [hkind] at htexts
      simp only [readData, hkind, NodeData.decision.injEq] at hdata
      exact verbatim_of_readText (htexts condition (by simp [texts])) hdata.2
  | hitlGate label prompt timeoutSeconds requiredRole =>
      rw [hkind] at htexts
      simp only [readData, hkind, NodeData.hitlGate.injEq] at hdata
      obtain ⟨-, hprompt, htime, hrole⟩ := hdata
      have hroleNe : requiredRole ≠ "" := by
        rintro rfl
        simp at hrole
      rw [if_neg hroleNe] at hrole
      refine ⟨verbatim_of_readText (htexts prompt (by simp [texts])) hprompt, ?_,
        verbatim_of_readText (htexts requiredRole (by simp [texts])) hrole, hroleNe⟩
      split at htime <;> omega
  | parallelFork label branchCount branchLabels =>
      simp only [readData, hkind, NodeData.parallelFork.injEq] at hdata
      exact ⟨hdata.2.1.symm, hdata.2.2.symm⟩
  | endNode label => trivial

end Data

theorem filter_mem_perm {α β : Type*} [DecidableEq β] (key : α → β) {keys : List β}
    (h : keys.Nodup) (l : List α) :
    (l.filter fun x => key x ∈ keys).Perm
      (keys.flatMap fun k => l.filter fun x => key x = k) := by
  induction keys with
  | nil => simp
  | cons k keys ih =>
      obtain ⟨hk, hkeys⟩ := List.nodup_cons.mp h
      have hpart := (List.filter_append_perm (fun x => key x = k)
        (l.filter fun x => key x ∈ k :: keys)).symm
      have hfirst : (l.filter fun x => key x ∈ k :: keys).filter (fun x => key x = k) =
          l.filter fun x => key x = k := by
        rw [List.filter_filter]
        apply List.filter_congr
        intro x _
        by_cases hx : key x = k <;> simp [hx]
      have hothers : (l.filter fun x => key x ∈ k :: keys).filter (fun x => ! decide (key x = k)) =
          l.filter fun x => key x ∈ keys := by
        rw [List.filter_filter]
        apply List.filter_congr
        intro x _
        by_cases hx : key x = k
        · simp [hx, hk]
        · simp [hx]
      rw [hfirst, hothers] at hpart
      rw [List.flatMap_cons]
      exact hpart.trans ((ih hkeys).append_left _)

section Edges
variable {g : PlaybookGraph} {n : PlaybookNode}

def keptEdges (g : PlaybookGraph) (n : PlaybookNode) : List (String × String × Option String) :=
  if isFork n.data then [] else (g.outEdges n.id).map ends

def TargetsHeld (g : PlaybookGraph) : Prop :=
  ∀ e ∈ g.edges, Verbatim e.target ∧ e.target ≠ ""

theorem edgeTo_readTarget (htargets : TargetsHeld g) {edge : Option PlaybookEdge}
    (hedge : ∀ e ∈ edge, e ∈ g.outEdges n.id) (source suffix : String)
    (handle label : Option String) :
    (edgeTo source (readTarget edge) suffix handle label).map ends =
      edge.toList.map fun e => (source, e.target, handle) := by
  cases edge with
  | none => rfl
  | some e =>
      obtain ⟨hverbatim, hne⟩ := htargets e (List.mem_of_mem_filter (hedge e rfl))
      simp [edgeTo, readTarget, readText_verbatim hverbatim, hne, ends]

theorem source_outEdges {e : PlaybookEdge} (h : e ∈ g.outEdges n.id) : e.source = n.id := by
  simpa using (List.mem_filter.mp h).2

theorem single_outEdges (hlength : (g.outEdges n.id).length ≤ 1)
    (hhandle : ∀ e ∈ g.outEdges n.id, e.sourceHandle = none) :
    ((g.outEdges n.id).head?.toList.map fun e => (n.id, e.target, none)) =
      (g.outEdges n.id).map ends := by
  have hsource : ∀ e ∈ g.outEdges n.id, e.source = n.id := fun e he => source_outEdges he
  cases hout : g.outEdges n.id with
  | nil => rfl
  | cons e rest =>
      rw [hout] at hlength hhandle hsource
      have hrest : rest = [] := List.length_eq_zero_iff.mp (by simpa using hlength)
      subst hrest
      simp [ends, hhandle e, hsource e]

theorem decision_outEdges (hnodup : ((g.outEdges n.id).map PlaybookEdge.sourceHandle).Nodup)
    (hhandle : ∀ e ∈ g.outEdges n.id, e.sourceHandle = some "yes" ∨ e.sourceHandle = some "no") :
    (((handleEdge (g.outEdges n.id) "yes").toList.map fun e => (n.id, e.target, some "yes")) ++
      (handleEdge (g.outEdges n.id) "no").toList.map fun e => (n.id, e.target, some "no")).Perm
      ((g.outEdges n.id).map ends) := by
  have hsource : ∀ e ∈ g.outEdges n.id, e.source = n.id := fun e he => source_outEdges he
  revert hnodup hhandle hsource
  match g.outEdges n.id with
  | [] => intros; exact List.Perm.refl _
  | [a] =>
      intro hnodup hhandle hsource
      rcases hhandle a (by simp) with ha | ha <;>
        simp [handleEdge, ha, ends, hsource a]
  | [a, b] =>
      intro hnodup hhandle hsource
      rcases hhandle a (by simp) with ha | ha <;> rcases hhandle b (by simp) with hb | hb
      · simp [ha, hb] at hnodup
      · simp [handleEdge, ha, hb, ends, hsource a, hsource b]
      · simp [handleEdge, ha, hb, ends, hsource a, hsource b]
        exact List.Perm.swap _ _ _
      · simp [ha, hb] at hnodup
  | a :: b :: c :: rest =>
      intro hnodup hhandle hsource
      rcases hhandle a (by simp) with ha | ha <;> rcases hhandle b (by simp) with hb | hb <;>
        rcases hhandle c (by simp) with hc | hc <;> simp [ha, hb, hc] at hnodup

theorem stepEdges_readStep (hwell : WellFormed g n) (hwritable : Writable n.data)
    (hid : Verbatim n.id) (htargets : TargetsHeld g) :
    ((stepEdges (readStep g n)).map ends).Perm (keptEdges g n) := by
  have htype : nodeType (readStep g n) = mapStepTypeToNodeType n.data.stepType := by
    rw [nodeType, readStep_type]
    rfl
  have hreadId : (readStep g n).id.getD "" = n.id := by
    rw [readStep_id, readText_verbatim hid]
    rfl
  have hhead : ∀ e ∈ (g.outEdges n.id).head?, e ∈ g.outEdges n.id := fun e he =>
    List.mem_of_head? he
  have hhandle (handle : String) :
      ∀ e ∈ handleEdge (g.outEdges n.id) handle, e ∈ g.outEdges n.id := fun e he =>
    List.mem_of_find?_eq_some he
  unfold WellFormed at hwell
  simp only [stepEdges, htype, hreadId]
  cases hdata : n.data with
  | trigger label type parameters => simp [hdata, Writable] at hwritable
  | action label toolName arguments timeoutSeconds onFailure =>
      simp only [hdata] at hwell
      have hnext : (readStep g n).nextStep = readTarget (g.outEdges n.id).head? := by
        simp only [readStep, hdata]
      rw [if_neg (by simp [NodeData.stepType, mapStepTypeToNodeType]), if_neg (by simp [NodeData.stepType, mapStepTypeToNodeType]), hnext,
        edgeTo_readTarget htargets hhead, single_outEdges hwell.1.1 hwell.1.2, keptEdges, hdata]
      exact List.Perm.refl _
  | decision label condition =>
      simp only [hdata] at hwell
      have hyes : (readStep g n).trueBranch = readTarget (handleEdge (g.outEdges n.id) "yes") := by
        simp only [readStep, hdata]
      have hno : (readStep g n).falseBranch = readTarget (handleEdge (g.outEdges n.id) "no") := by
        simp only [readStep, hdata]
      rw [if_pos (by simp [NodeData.stepType, mapStepTypeToNodeType]), hyes, hno, List.map_append,
        edgeTo_readTarget htargets (hhandle "yes"), edgeTo_readTarget htargets (hhandle "no"),
        keptEdges, hdata]
      exact decision_outEdges hwell.1 hwell.2
  | hitlGate label prompt timeoutSeconds requiredRole =>
      simp only [hdata] at hwell
      have hnext : (readStep g n).nextStep = readTarget (g.outEdges n.id).head? := by
        simp only [readStep, hdata]
      rw [if_neg (by simp [NodeData.stepType, mapStepTypeToNodeType]), if_neg (by simp [NodeData.stepType, mapStepTypeToNodeType]), hnext,
        edgeTo_readTarget htargets hhead, single_outEdges hwell.1 hwell.2, keptEdges, hdata]
      exact List.Perm.refl _
  | parallelFork label branchCount branchLabels =>
      have hnext : (readStep g n).nextStep = none := by
        simp only [readStep, hdata]
      have hbranches : (readStep g n).branches.getD "" = "" := by
        simp only [readStep, hdata]
        split <;> rfl
      rw [if_neg (by simp [NodeData.stepType, mapStepTypeToNodeType]), if_neg (by simp [hbranches]), hnext, keptEdges, hdata]
      exact List.Perm.refl _
  | endNode label =>
      simp only [hdata] at hwell
      have hnext : (readStep g n).nextStep = none := by
        simp only [readStep, hdata]
      rw [if_neg (by simp [NodeData.stepType, mapStepTypeToNodeType]), if_neg (by simp [NodeData.stepType, mapStepTypeToNodeType]), hnext,
        keptEdges, hwell]
      simp [edgeTo]

theorem edgesBetween_perm (hplaybook : IsPlaybook g) :
    g.edgesBetween.Perm
      (g.stepNodes.flatMap (keptEdges g) ++ g.branchEdges) := by
  have hfilter : (g.edges.filter fun e => e.source ∈ g.stepIds ∧ e.target ∈ g.stepIds) =
      g.edges.filter fun e => e.source ∈ g.stepIds := by
    apply List.filter_congr
    intro e he
    simp [hplaybook.targets e he]
  have hgroups := filter_mem_perm PlaybookEdge.source hplaybook.ids g.edges
  have hsplit := (List.flatMap_append_perm g.stepNodes (keptEdges g) fun n =>
    if isFork n.data then (g.outEdges n.id).map ends else []).symm
  have hall : (g.stepNodes.flatMap fun n => keptEdges g n ++
      if isFork n.data then (g.outEdges n.id).map ends else []) =
      (g.stepIds.flatMap fun id => g.edges.filter fun e => e.source = id).map ends := by
    rw [stepIds, List.flatMap_map, List.map_flatMap]
    congr 1
    funext n
    unfold keptEdges
    split
    · rfl
    · rw [List.append_nil]
      rfl
  rw [hall] at hsplit
  rw [edgesBetween, hfilter]
  exact (hgroups.map ends).trans hsplit

end Edges

section RoundTrip
variable {g : PlaybookGraph}

theorem edges_yamlToNodes (text : Line) :
    (yamlToNodes text).edges =
      ((parsedSteps text).head?.toList.flatMap fun step =>
        edgeTo "trigger-1" step.id "" none none) ++ (parsedSteps text).flatMap stepEdges := by
  rw [yamlToNodes]
  dsimp only
  rw [← parsedSteps]
  congr 1
  cases parsedSteps text with
  | nil => rfl
  | cons step steps => simp

theorem line_getD {field : Option String} (h : ∀ t ∈ field, '\n' ∉ t.toList) {default : String}
    (hdefault : '\n' ∉ default.toList) : '\n' ∉ (field.getD default).toList := by
  cases field with
  | none => exact hdefault
  | some t => exact h t rfl

theorem line_readNode {step : ParsedStep} (h : OneLine step) :
    '\n' ∉ (readNode step).id.toList ∧ ∀ t ∈ texts (readNode step).data, '\n' ∉ t.toList := by
  have hid := line_getD h.id (by decide : '\n' ∉ "".toList)
  have hname := line_getD h.name (by decide : '\n' ∉ "".toList)
  have hlabel : '\n' ∉ (stepLabel step).toList := by
    unfold stepLabel
    split
    · exact hname
    · exact hid
  refine ⟨hid, ?_⟩
  simp only [readNode, buildNodeData]
  split_ifs <;> simp only [texts, NodeData.label, List.forall_mem_cons, List.not_mem_nil,
    IsEmpty.forall_iff, implies_true, and_true]
  · exact ⟨hlabel, line_getD h.condition (by decide)⟩
  · exact ⟨hlabel, line_getD h.prompt (by decide), line_getD h.requiredRole (by decide)⟩
  · exact hlabel
  · exact hlabel
  · exact ⟨hlabel, line_getD h.toolName (by decide)⟩

theorem writable_of_read {n : PlaybookNode} (hstep : n ∈ g.stepNodes) (hwell : WellFormed g n)
    {step : ParsedStep} (hread : readNode step = n) : Writable n.data := by
  have hdata : buildNodeData step = n.data := congrArg PlaybookNode.data hread
  unfold WellFormed at hwell
  cases hkind : n.data with
  | trigger label type parameters => simp [stepNodes, hkind, NodeData.isTrigger] at hstep
  | action label toolName arguments timeoutSeconds onFailure =>
      simp only [hkind] at hwell
      obtain ⟨-, ⟨entries, rfl⟩, hfailure⟩ := hwell
      rw [hkind] at hdata
      refine ⟨?_, hfailure⟩
      unfold buildNodeData at hdata
      dsimp only at hdata
      split_ifs at hdata
      simp only [NodeData.action.injEq] at hdata
      cases harguments : step.arguments with
      | none => simpa [harguments] using hdata.2.2.1.symm
      | some value => simp [harguments] at hdata
  | parallelFork label branchCount branchLabels =>
      rw [hkind] at hdata
      unfold buildNodeData at hdata
      dsimp only at hdata
      split_ifs at hdata
      simp only [NodeData.parallelFork.injEq] at hdata
      exact hdata.2.2.symm
  | decision label condition => trivial
  | hitlGate label prompt timeoutSeconds requiredRole => trivial
  | endNode label => trivial

theorem writable_of_held {n : PlaybookNode} (hwell : WellFormed g n) (h : Held g n) :
    Writable n.data := by
  obtain ⟨-, -, hdata⟩ := h
  unfold WellFormed at hwell
  cases hkind : n.data with
  | trigger label type parameters => simp [hkind] at hdata
  | action label toolName arguments timeoutSeconds onFailure =>
      simp only [hkind] at hwell hdata
      exact ⟨hdata.2.1, hwell.2.2⟩
  | parallelFork label branchCount branchLabels =>
      simp only [hkind] at hdata
      exact hdata.2
  | decision label condition => trivial
  | hitlGate label prompt timeoutSeconds requiredRole => trivial
  | endNode label => trivial

theorem line_of_held {n : PlaybookNode} (h : Held g n) : ∀ t ∈ texts n.data, '\n' ∉ t.toList := by
  obtain ⟨-, ⟨hlabel, -⟩, hdata⟩ := h
  unfold texts
  cases hkind : n.data <;> simp only [hkind] at hdata hlabel <;>
    simp only [List.forall_mem_cons, List.not_mem_nil, IsEmpty.forall_iff, implies_true, and_true]
  case action => exact ⟨hlabel.line, hdata.1.line⟩
  case decision => exact ⟨hlabel.line, hdata.line⟩
  case hitlGate => exact ⟨hlabel.line, hdata.1.line, hdata.2.2.1.line⟩
  case parallelFork => exact hlabel.line
  case endNode => exact hlabel.line

theorem targetsHeld (hplaybook : IsPlaybook g) (hheld : ∀ n ∈ g.stepNodes, Held g n) :
    TargetsHeld g := by
  intro e he
  obtain ⟨n, hn, hid⟩ := List.mem_map.mp (hplaybook.targets e he)
  rw [← hid]
  exact (hheld n hn).1

theorem keptEdges_between (hplaybook : IsPlaybook g) {n : PlaybookNode} (hn : n ∈ g.stepNodes)
    {e : PlaybookEdge} (he : ends e ∈ keptEdges g n) :
    e.source ∈ g.stepIds ∧ e.target ∈ g.stepIds := by
  unfold keptEdges at he
  split at he
  · simp at he
  · obtain ⟨e', he', hends⟩ := List.mem_map.mp he
    simp only [ends, Prod.mk.injEq] at hends
    rw [← hends.1, ← hends.2.1, source_outEdges he']
    exact ⟨List.mem_map_of_mem hn, hplaybook.targets e' (List.mem_of_mem_filter he')⟩

theorem edgesBetween_yamlToNodes (hplaybook : IsPlaybook g) (hheld : ∀ n ∈ g.stepNodes, Held g n)
    {text : Line} (hsteps : parsedSteps text = g.stepNodes.map (readStep g))
    (hnodes : (yamlToNodes text).stepNodes = g.stepNodes) :
    (yamlToNodes text).edgesBetween.Perm
      (g.clashEdges ++ g.stepNodes.flatMap (keptEdges g)) := by
  have hids : (yamlToNodes text).stepIds = g.stepIds := by rw [stepIds, hnodes, stepIds]
  have hperm : ∀ n ∈ g.stepNodes, ((stepEdges (readStep g n)).map ends).Perm (keptEdges g n) :=
    fun n hn => stepEdges_readStep (hplaybook.steps n hn)
      (writable_of_held (hplaybook.steps n hn) (hheld n hn)) (hheld n hn).1.1
      (targetsHeld hplaybook hheld)
  have hwithin : ((g.stepNodes.map (readStep g)).flatMap stepEdges).filter
      (fun e => e.source ∈ g.stepIds ∧ e.target ∈ g.stepIds) =
      (g.stepNodes.map (readStep g)).flatMap stepEdges := by
    apply List.filter_eq_self.mpr
    intro e he
    obtain ⟨step, hstep, hmem⟩ := List.mem_flatMap.mp he
    obtain ⟨n, hn, rfl⟩ := List.mem_map.mp hstep
    have hkept := (hperm n hn).subset (List.mem_map_of_mem hmem)
    exact decide_eq_true (keptEdges_between hplaybook hn hkept)
  have htrigger : (((g.stepNodes.map (readStep g)).head?.toList.flatMap fun step =>
      edgeTo "trigger-1" step.id "" none none).filter
      fun e => e.source ∈ g.stepIds ∧ e.target ∈ g.stepIds).map ends = g.clashEdges := by
    cases hcases : g.stepNodes with
    | nil => simp [clashEdges, stepIds, hcases]
    | cons n rest =>
        have hn := hheld n (hcases ▸ List.mem_cons_self)
        have hid : n.id ∈ g.stepIds := List.mem_map_of_mem (hcases ▸ List.mem_cons_self)
        have hhead : g.stepIds.head? = some n.id := by simp [stepIds, hcases]
        by_cases hclash : "trigger-1" ∈ g.stepIds <;>
          simp [edgeTo, readStep_id, readText_verbatim hn.1.1, hn.1.2, hid, hclash, clashEdges,
            hhead, ends]
  rw [edgesBetween, hids, edges_yamlToNodes, hsteps, List.filter_append, hwithin, List.map_append,
    htrigger, List.flatMap_map, List.map_flatMap]
  exact (List.Perm.flatMap_left _ hperm).append_left _

theorem stepNodes_of_steps {text : Line} (hsteps : parsedSteps text = g.stepNodes.map (readStep g))
    (hread : ∀ n ∈ g.stepNodes, readNode (readStep g n) = n) :
    (yamlToNodes text).stepNodes = g.stepNodes := by
  rw [stepNodes_yamlToNodes, hsteps, List.map_map]
  exact (List.map_congr_left hread).trans (List.map_id _)

theorem branchEdges_iff (hplaybook : IsPlaybook g) (hheld : ∀ n ∈ g.stepNodes, Held g n)
    {text : Line} (hsteps : parsedSteps text = g.stepNodes.map (readStep g))
    (hnodes : (yamlToNodes text).stepNodes = g.stepNodes) :
    (yamlToNodes text).edgesBetween.Perm g.edgesBetween ↔ g.branchEdges = g.clashEdges := by
  have hparsed := edgesBetween_yamlToNodes hplaybook hheld hsteps hnodes
  have hown := (edgesBetween_perm hplaybook).trans List.perm_append_comm
  have hclash : g.clashEdges.Perm g.branchEdges → g.branchEdges = g.clashEdges := by
    unfold clashEdges
    split
    · cases g.stepIds.head? with
      | none => exact fun h => List.nil_perm.mp h
      | some id => exact fun h => (List.singleton_perm.mp h).symm
    · exact fun h => List.nil_perm.mp h
  constructor
  · intro hedges
    exact hclash ((List.perm_append_right_iff _).mp (hparsed.symm.trans (hedges.trans hown)))
  · intro heq
    rw [heq] at hown
    exact hparsed.trans hown.symm

theorem round_trip_iff (hplaybook : IsPlaybook g) (hquiet : QuietTrigger g) :
    (∃ text, nodesToYAML g = some text ∧ SameSteps g (yamlToNodes text)) ↔ Survives g := by
  have hwritten (hwritable : ∀ n ∈ g.stepNodes, Writable n.data)
      (hlines : ∀ n ∈ g.stepNodes, '\n' ∉ n.id.toList ∧ ∀ t ∈ texts n.data, '\n' ∉ t.toList) :=
    parsedSteps_written hquiet hwritable (fun n hn => (hlines n hn).1)
      (fun n hn => (hlines n hn).2) fun e he => by
        obtain ⟨n, hn, hid⟩ := List.mem_map.mp (hplaybook.targets e he)
        exact hid ▸ (hlines n hn).1
  constructor
  · rintro ⟨text, htext, hnodes, hedges⟩
    rw [stepNodes_yamlToNodes] at hnodes
    have hread : ∀ n ∈ g.stepNodes, ∃ step ∈ parsedSteps text, readNode step = n := fun n hn =>
      List.mem_map.mp (hnodes.symm.subset hn)
    have hone : ∀ step ∈ parsedSteps text, OneLine step :=
      oneLine_parseLines fun line hline => Lines.not_mem_of_mem_splitOn hline
    have hwritable : ∀ n ∈ g.stepNodes, Writable n.data := fun n hn => by
      obtain ⟨step, -, hstep⟩ := hread n hn
      exact writable_of_read hn (hplaybook.steps n hn) hstep
    have hlines : ∀ n ∈ g.stepNodes, '\n' ∉ n.id.toList ∧ ∀ t ∈ texts n.data, '\n' ∉ t.toList :=
      fun n hn => by
        obtain ⟨step, hmem, rfl⟩ := hread n hn
        exact line_readNode (hone step hmem)
    obtain ⟨written, hwrite, hsteps⟩ := hwritten hwritable hlines
    obtain rfl : text = written := Option.some_inj.mp (htext.symm.trans hwrite)
    have hlength : ((g.stepNodes.map (readStep g)).filter named).length =
        (g.stepNodes.map (readStep g)).length := by
      rw [← hsteps, ← List.length_map (f := readNode), hnodes.length_eq, List.length_map]
    have hnamed : ∀ step ∈ g.stepNodes.map (readStep g), named step = true :=
      List.length_filter_eq_length_iff.mp hlength
    rw [List.filter_eq_self.mpr hnamed] at hsteps
    have hids : (g.stepIds.map readText).Perm g.stepIds := by
      have hmap := hnodes.map PlaybookNode.id
      rw [hsteps, List.map_map, List.map_map] at hmap
      rw [stepIds, List.map_map]
      refine (List.Perm.of_eq (List.map_congr_left fun n _ => ?_)).trans hmap
      simp [readNode, readStep_id]
    have hsame : ∀ n ∈ g.stepNodes, readNode (readStep g n) = n := by
      intro n hn
      have hmem : readNode (readStep g n) ∈ g.stepNodes := by
        apply hnodes.subset
        rw [hsteps]
        exact List.mem_map_of_mem (List.mem_map_of_mem hn)
      apply List.inj_on_of_nodup_map hplaybook.ids hmem hn
      rw [readNode_readStep (hwritable n hn)]
      exact readText_of_perm hids n.id (List.mem_map_of_mem hn)
    have hheld : ∀ n ∈ g.stepNodes, Held g n := by
      intro n hn
      have hne : n.id ≠ "" := by
        intro hempty
        have hname := hnamed (readStep g n) (List.mem_map_of_mem hn)
        rw [named, readStep_id, hempty] at hname
        exact absurd hname (by decide)
      exact held_of_readNode (hwritable n hn) (hlines n hn).1 (hlines n hn).2 hne (hsame n hn)
    have hequal := stepNodes_of_steps hsteps hsame
    exact ⟨hheld, (branchEdges_iff hplaybook hheld hsteps hequal).mp hedges⟩
  · rintro ⟨hheld, hbranches⟩
    have hwritable : ∀ n ∈ g.stepNodes, Writable n.data := fun n hn =>
      writable_of_held (hplaybook.steps n hn) (hheld n hn)
    obtain ⟨text, htext, hsteps⟩ := hwritten hwritable fun n hn =>
      ⟨(hheld n hn).1.1.line, line_of_held (hheld n hn)⟩
    have hnamed : ∀ step ∈ g.stepNodes.map (readStep g), named step = true := by
      intro step hstep
      obtain ⟨n, hn, rfl⟩ := List.mem_map.mp hstep
      have hid := (hheld n hn).1
      rw [named, readStep_id, readText_verbatim hid.1]
      exact decide_eq_true hid.2
    rw [List.filter_eq_self.mpr hnamed] at hsteps
    have hequal := stepNodes_of_steps hsteps fun n hn =>
      readNode_of_held (hheld n hn) (hwritable n hn)
    refine ⟨text, htext, hequal ▸ List.Perm.refl _, ?_⟩
    exact (branchEdges_iff hplaybook hheld hsteps hequal).mpr hbranches

def triageGraph : PlaybookGraph where
  nodes :=
    [{ id := "isolate:host", data := .action "it's hot" "edr_isolate" (.object []) 60 "retry" },
      { id := "check", data := .decision "Check" "severity > 3 # urgent" },
      { id := "approve", data := .hitlGate "Approve" "Proceed?" 900 "admin" },
      { id := "done", data := .endNode "Done" }]
  edges :=
    [{ id := "e1", source := "isolate:host", target := "check" },
      { id := "e2", source := "check", target := "done", sourceHandle := some "no" },
      { id := "e3", source := "check", target := "approve", sourceHandle := some "yes" },
      { id := "e4", source := "approve", target := "done" }]

theorem forall_triage {P : PlaybookNode → Prop} (h : List.Forall P triageGraph.nodes) :
    ∀ n ∈ triageGraph.stepNodes, P n :=
  List.forall_iff_forall_mem.mp h

theorem round_trip_triage :
    ∃ text, nodesToYAML triageGraph = some text ∧ SameSteps triageGraph (yamlToNodes text) := by
  have hplaybook : IsPlaybook triageGraph := by
    constructor
    · decide
    · decide
    · exact forall_triage ⟨⟨by decide, ⟨[], rfl⟩, by decide⟩, ⟨by decide, by decide⟩,
        ⟨by decide, by decide⟩, (by decide : triageGraph.outEdges "done" = [])⟩
  have hquiet : QuietTrigger triageGraph :=
    ⟨_, rfl, List.eq_nil_of_length_eq_zero (by decide)⟩
  have hheld : Survives triageGraph := by
    constructor
    · exact forall_triage ⟨⟨by decide, by decide, by decide, rfl, by decide⟩,
        ⟨by decide, by decide, (by decide : Verbatim "severity > 3 # urgent")⟩,
        ⟨by decide, by decide, by decide, by decide, by decide⟩,
        ⟨by decide, by decide, trivial⟩⟩
    · decide
  exact (round_trip_iff hplaybook hquiet).mpr hheld

def forkGraph : PlaybookGraph where
  nodes :=
    [{ id := "fork", data := .parallelFork "Fork" 2 [] },
      { id := "left", data := .endNode "Left" }, { id := "right", data := .endNode "Right" }]
  edges :=
    [{ id := "e1", source := "fork", target := "left" },
      { id := "e2", source := "fork", target := "right" }]

theorem fork_branches_lost :
    ¬ ∀ g, IsPlaybook g → QuietTrigger g →
      ∃ text, nodesToYAML g = some text ∧ SameSteps g (yamlToNodes text) := by
  have hplaybook : IsPlaybook forkGraph := by
    have hsteps : ∀ n ∈ forkGraph.nodes, WellFormed forkGraph n :=
      List.forall_iff_forall_mem.mp ⟨trivial, (by decide : forkGraph.outEdges "left" = []),
        (by decide : forkGraph.outEdges "right" = [])⟩
    exact ⟨by decide, by decide, hsteps⟩
  have hquiet : QuietTrigger forkGraph :=
    ⟨_, rfl, List.eq_nil_of_length_eq_zero (by decide)⟩
  have hrun : ((nodesToYAML forkGraph).all fun text =>
      decide ((yamlToNodes text).edgesBetween = [] ∧ forkGraph.edgesBetween.length = 2)) := by
    decide
  intro h
  obtain ⟨text, htext, -, hedges⟩ := h forkGraph hplaybook hquiet
  rw [htext, Option.all_some] at hrun
  obtain ⟨hnone, hlength⟩ := of_decide_eq_true hrun
  have hsame := hedges.length_eq
  rw [hnone, hlength] at hsame
  cases hsame

end RoundTrip

end PlaybookGraph

end BTagent
