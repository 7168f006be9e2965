import BTagent.Data.Json
import BTagent.Lib.Lines

namespace BTagent

inductive ArgumentsValue where
  | object (entries : List (String × Json))
  | text (value : String)

inductive NodeData where
  | trigger (label triggerType : String) (parameters : List (String × Json))
  | action (label toolName : String) (arguments : ArgumentsValue) (timeoutSeconds : ℤ)
      (onFailure : String)
  | decision (label condition : String)
  | hitlGate (label prompt : String) (timeoutSeconds : ℤ) (requiredRole : String)
  | parallelFork (label : String) (branchCount : ℤ) (branchLabels : List String)
  | endNode (label : String)

structure PlaybookNode where
  id : String
  data : NodeData

structure PlaybookEdge where
  id : String
  source : String
  target : String
  sourceHandle : Option String := none
  label : Option String := none

structure PlaybookGraph where
  nodes : List PlaybookNode
  edges : List PlaybookEdge

namespace NodeData

def isTrigger : NodeData → Bool
  | trigger .. => true
  | _ => false

def label : NodeData → String
  | trigger label .. | action label .. | decision label _ | hitlGate label .. |
    parallelFork label .. | endNode label => label

def stepType : NodeData → String
  | trigger .. => "trigger"
  | action .. => "action"
  | decision .. => "decision"
  | hitlGate .. => "hitl_gate"
  | parallelFork .. => "parallel_fork"
  | endNode .. => "end"

end NodeData

namespace PlaybookGraph

abbrev Line := List Char

def special (v : Line) : Bool :=
  ':' ∈ v ∨ '#' ∈ v ∨ '\x27' ∈ v ∨ '\x22' ∈ v ∨ '\n' ∈ v ∨ v.head? = some ' ' ∨
    v.getLast? = some ' '

def escapeChar (c : Char) : Line :=
  if c = '\\' then ['\\', '\\'] else if c = '\x22' then ['\\', '\x22'] else [c]

def yamlEscape (value : String) : Line :=
  let v := value.toList
  if special v then '\x22' :: (v.flatMap escapeChar ++ ['\x22']) else v

def indent (level : ℕ) : Line := List.replicate (2 * level) ' '

def keyLine (level : ℕ) (key : String) (value : Line) : Line :=
  indent level ++ key.toList ++ ':' :: ' ' :: value

def headLine (level : ℕ) (key : String) : Line := indent level ++ key.toList ++ [':']

def joinLines (lines : List Line) : Line := ['\n'].intercalate lines

-- `String(x)`; the text of a float is the one that the browser prints.
def scalarText : Json → Line
  | .null => "null".toList
  | .bool b => (if b then "true" else "false").toList
  | .int n => (toString n).toList
  | .float r => r.toList
  | .str s => s.toList
  | .arr _ | .obj _ => []

mutual

-- `Object.entries` of null raises, for a null in an array.
def objectLines (level : ℕ) : List (String × Json) → Option (List Line)
  | [] => some []
  | (key, value) :: rest => do
      let lines ← valueLines level key value
      let others ← objectLines level rest
      some (lines ++ others)

def valueLines (level : ℕ) (key : String) : Json → Option (List Line)
  | .null => some []
  | .obj entries => do
      let lines ← objectLines (level + 1) entries
      some [headLine level key, joinLines lines]
  | .arr items => do
      let lines ← itemLines (level + 1) items
      some (headLine level key :: lines)
  | .str s => some [keyLine level key (yamlEscape s)]
  | value => some [keyLine level key (scalarText value)]

def itemLines (level : ℕ) : List Json → Option (List Line)
  | [] => some []
  | item :: rest => do
      let lines ← itemText level item
      let others ← itemLines level rest
      some (lines ++ others)

def itemText (level : ℕ) : Json → Option (List Line)
  | .null => none
  | .obj entries => do
      let lines ← objectLines (level + 1) entries
      some [indent level ++ ['-'], joinLines lines]
  | .arr items => do
      let lines ← indexedLines (level + 1) 0 items
      some [indent level ++ ['-'], joinLines lines]
  | item => some [indent level ++ '-' :: ' ' :: scalarText item]

def indexedLines (level index : ℕ) : List Json → Option (List Line)
  | [] => some []
  | item :: rest => do
      let lines ← valueLines level (toString index) item
      let others ← indexedLines level (index + 1) rest
      some (lines ++ others)

end

def objectToYaml (level : ℕ) (entries : List (String × Json)) : Option Line :=
  (objectLines level entries).map joinLines

def outEdges (g : PlaybookGraph) (id : String) : List PlaybookEdge :=
  g.edges.filter fun e => e.source = id

def handleEdge (edges : List PlaybookEdge) (handle : String) : Option PlaybookEdge :=
  edges.find? fun e => e.sourceHandle = some handle

def optionalLine (key value : String) : List Line :=
  if value = "" then [] else [keyLine 2 key (yamlEscape value)]

def edgeLine (key : String) (edge : Option PlaybookEdge) : List Line :=
  edge.toList.map fun e => keyLine 2 key (yamlEscape e.target)

def numberLine (key : String) (n : ℤ) : Line := keyLine 2 key (toString n).toList

def argumentsLines : ArgumentsValue → Option (List Line)
  | .object [] => some []
  | .object entries => do
      let text ← objectToYaml 3 entries
      some [headLine 2 "arguments", text]
  -- the entries of a text are its characters
  | .text value =>
      if value = "" then some []
      else do
        let text ← objectToYaml 3
          (value.toList.mapIdx fun i c => (toString i, .str (String.ofList [c])))
        some [headLine 2 "arguments", text]

def dataLines (g : PlaybookGraph) (n : PlaybookNode) : Option (List Line) :=
  let out := g.outEdges n.id
  match n.data with
  | .action _ toolName arguments timeoutSeconds onFailure => do
      let argumentsText ← argumentsLines arguments
      some (optionalLine "tool_name" toolName ++ argumentsText ++
        (if timeoutSeconds ≠ 0 ∧ timeoutSeconds ≠ 300
          then [numberLine "timeout_seconds" timeoutSeconds] else []) ++
        (if onFailure ≠ "" ∧ onFailure ≠ "abort"
          then [keyLine 2 "on_failure" onFailure.toList] else []) ++
        edgeLine "next_step" out.head?)
  | .decision _ condition =>
      some (optionalLine "condition" condition ++
        edgeLine "true_branch" (handleEdge out "yes") ++
        edgeLine "false_branch" (handleEdge out "no"))
  | .hitlGate _ prompt timeoutSeconds requiredRole =>
      some (optionalLine "prompt" prompt ++
        (if timeoutSeconds ≠ 0 then [numberLine "timeout_seconds" timeoutSeconds] else []) ++
        optionalLine "required_role" requiredRole ++ edgeLine "next_step" out.head?)
  | .parallelFork _ _ branchLabels =>
      some ((if out = [] then []
          else headLine 2 "branches" ::
            out.map fun e => indent 3 ++ "- [".toList ++ yamlEscape e.target ++ [']']) ++
        (if branchLabels = [] then []
          else [indent 2 ++ "# branch_labels: ".toList ++
            (", ".intercalate branchLabels).toList]))
  | .endNode _ | .trigger .. => some []

def nodeLines (g : PlaybookGraph) (n : PlaybookNode) : Option (List Line) := do
  let lines ← g.dataLines n
  some ([indent 1 ++ "- id: ".toList ++ yamlEscape n.id,
      keyLine 2 "type" n.data.stepType.toList,
      keyLine 2 "name" (yamlEscape n.data.label)] ++ lines ++ [[]])

def triggerNode (g : PlaybookGraph) : Option NodeData :=
  (g.nodes.find? fun n => n.data.isTrigger).map PlaybookNode.data

def stepNodes (g : PlaybookGraph) : List PlaybookNode :=
  g.nodes.filter fun n => ¬ n.data.isTrigger

def headerLines (trigger : Option NodeData) : Option (List Line) := do
  let (label, type, parameters) := match trigger with
    | some (.trigger label type parameters) => (label, type, parameters)
    | _ => ("Untitled Playbook", "manual", [])
  let parametersText ← match parameters with
    | [] => some ["  parameters: \x7b\x7d".toList]
    | entries => do
        let text ← objectToYaml 2 entries
        some ["  parameters:".toList, text]
  some (["name: ".toList ++ yamlEscape label, "version: \x221.0\x22".toList,
      "description: ".toList ++ yamlEscape "Playbook created with visual builder", [],
      "trigger:".toList, "  type: ".toList ++ type.toList] ++ parametersText ++
    [[], "steps:".toList])

def nodesToYAML (g : PlaybookGraph) : Option Line := do
  let header ← headerLines g.triggerNode
  let steps ← g.stepNodes.mapM g.nodeLines
  some (joinLines (header ++ steps.flatten))

-- The white space and line ends that `trim` takes away.
def isSpace (c : Char) : Bool :=
  c.toNat ∈ [9, 10, 11, 12, 13, 32, 160, 5760, 8232, 8233, 8239, 8287, 12288, 65279] ∨
    (8192 ≤ c.toNat ∧ c.toNat ≤ 8202)

def trim (line : Line) : Line := Lines.trim isSpace line

def isQuote (c : Char) : Bool := c = '\x22' ∨ c = '\x27'

-- A quote at the start and one at the end are taken away.
def unquote (value : Line) : Line :=
  let value := match value with
    | c :: cs => if isQuote c then cs else c :: cs
    | [] => []
  match value.getLast? with
  | some c => if isQuote c then value.dropLast else value
  | none => value

def removeFirst (pattern : Line) : Line → Line
  | [] => []
  | c :: cs =>
      if pattern.isPrefixOf (c :: cs) then (c :: cs).drop pattern.length
      else c :: removeFirst pattern cs

def digitsValue (digits : Line) : ℕ := digits.foldl (fun n c => n * 10 + (c.toNat - 48)) 0

def parseInt (value : Line) : Option ℤ :=
  let value := value.dropWhile isSpace
  let (negative, value) := match value with
    | '-' :: cs => (true, cs)
    | '+' :: cs => (false, cs)
    | cs => (false, cs)
  let digits := value.takeWhile Char.isDigit
  if digits.isEmpty then none
  else some (if negative then -digitsValue digits else digitsValue digits)

-- The keys of a parsed step that are read.
structure ParsedStep where
  id : Option String := none
  type : Option String := none
  name : Option String := none
  toolName : Option String := none
  condition : Option String := none
  trueBranch : Option String := none
  falseBranch : Option String := none
  nextStep : Option String := none
  prompt : Option String := none
  timeoutSeconds : Option ℤ := none
  requiredRole : Option String := none
  onFailure : Option String := none
  arguments : Option String := none
  branches : Option String := none

def assign (step : ParsedStep) (key value : Line) : ParsedStep :=
  let text := some (String.ofList value)
  if key = "timeout_seconds".toList then
    -- `parseInt(value, 10) || 300`
    { step with timeoutSeconds := some (((parseInt value).filter (· ≠ 0)).getD 300) }
  else if key = "id".toList then { step with id := text }
  else if key = "type".toList then { step with type := text }
  else if key = "name".toList then { step with name := text }
  else if key = "tool_name".toList then { step with toolName := text }
  else if key = "condition".toList then { step with condition := text }
  else if key = "true_branch".toList then { step with trueBranch := text }
  else if key = "false_branch".toList then { step with falseBranch := text }
  else if key = "next_step".toList then { step with nextStep := text }
  else if key = "prompt".toList then { step with prompt := text }
  else if key = "required_role".toList then { step with requiredRole := text }
  else if key = "on_failure".toList then { step with onFailure := text }
  else if key = "arguments".toList then { step with arguments := text }
  else if key = "branches".toList then { step with branches := text }
  else step

inductive Section where
  | header
  | trigger
  | steps
  deriving DecidableEq

structure ParseState where
  phase : Section := .header
  header : String → Option String := fun _ => none
  trigger : String → Option String := fun _ => none
  steps : List ParsedStep := []
  currentStep : Option ParsedStep := none

-- `if (currentStep?.id) steps.push(currentStep)`
def flushed (s : ParseState) : List ParsedStep :=
  match s.currentStep with
  | some step => if step.id.getD "" ≠ "" then s.steps ++ [step] else s.steps
  | none => s.steps

-- What stands before and after the first colon, where one stands behind some text.
def splitColon (trimmed : Line) : Option (Line × Line) :=
  let key := trimmed.takeWhile (· ≠ ':')
  match trimmed.dropWhile (· ≠ ':') with
  | _ :: value => if key.isEmpty then none else some (trim key, unquote (trim value))
  | [] => none

def setText (fields : String → Option String) (kv : Line × Line) : String → Option String :=
  Function.update fields (String.ofList kv.1) (some (String.ofList kv.2))

def parseLine (s : ParseState) (line : Line) : ParseState :=
  let trimmed := trim line
  if trimmed = [] ∨ trimmed.head? = some '#' then s
  else if trimmed = "trigger:".toList then { s with phase := .trigger }
  else if trimmed = "steps:".toList then { s with phase := .steps }
  else
    match s.phase with
    | .header =>
        match splitColon trimmed with
        | some kv => { s with header := setText s.header kv }
        | none => s
    | .trigger =>
        match splitColon trimmed with
        | some kv => { s with trigger := setText s.trigger kv }
        | none => s
    | .steps =>
        if "- id:".toList.isPrefixOf trimmed then
          let id := unquote (trim (trimmed.drop 5))
          { s with steps := flushed s, currentStep := some { id := some (String.ofList id) } }
        else
          match s.currentStep with
          | some step =>
              match splitColon trimmed with
              | some kv =>
                  { s with currentStep := some (assign step (removeFirst ['-', ' '] kv.1) kv.2) }
              | none => s
          | none => s

def parseLines (lines : List Line) : ParseState := lines.foldl parseLine {}

def mapStepTypeToNodeType (stepType : String) : String :=
  if stepType = "hitl_gate" then "hitlGate"
  else if stepType = "parallel_fork" then "parallelFork"
  else if stepType = "action" ∨ stepType = "decision" ∨ stepType = "end" then stepType
  else "action"

def nodeType (step : ParsedStep) : String := mapStepTypeToNodeType (step.type.getD "action")

-- `step.name || step.id`
def stepLabel (step : ParsedStep) : String :=
  if step.name.getD "" ≠ "" then step.name.getD "" else step.id.getD ""

def buildNodeData (step : ParsedStep) : NodeData :=
  let label := stepLabel step
  if nodeType step = "decision" then .decision label (step.condition.getD "")
  else if nodeType step = "hitlGate" then
    .hitlGate label (step.prompt.getD "") (step.timeoutSeconds.getD 3600)
      (step.requiredRole.getD "senior_analyst")
  else if nodeType step = "parallelFork" then
    .parallelFork label ((step.branches.map fun branches => (branches.length : ℤ)).getD 2) []
  else if nodeType step = "end" then .endNode label
  else
    .action label (step.toolName.getD "")
      (match step.arguments with
        | some value => .text value
        | none => .object [])
      (step.timeoutSeconds.getD 300) (step.onFailure.getD "abort")

def edgeTo (source : String) (target : Option String) (suffix : String)
    (handle label : Option String) : List PlaybookEdge :=
  match target with
  | some target =>
      if target = "" then []
      else
        [{ id := s!"e-{source}-{target}{suffix}", source := source, target := target,
           sourceHandle := handle, label := label }]
  | none => []

def stepEdges (step : ParsedStep) : List PlaybookEdge :=
  let id := step.id.getD ""
  if nodeType step = "decision" then
    edgeTo id step.trueBranch "-yes" (some "yes") (some "Yes") ++
      edgeTo id step.falseBranch "-no" (some "no") (some "No")
  else if nodeType step = "parallelFork" ∧ step.branches.getD "" ≠ "" then
    -- the branches of a text are its characters
    (step.branches.getD "").toList.flatMap fun c =>
      edgeTo id (some (String.ofList [c])) "" none none
  else edgeTo id step.nextStep "" none none

def yamlToNodes (yaml : Line) : PlaybookGraph :=
  let s := parseLines (yaml.splitOn '
')
  let steps := flushed s
  { nodes :=
      { id := "trigger-1"
        data := .trigger ((s.header "name").getD "Untitled Playbook")
          ((s.trigger "type").getD "manual") [] } ::
      steps.map fun step => { id := step.id.getD "", data := buildNodeData step }
    edges :=
      (match steps with
        | first :: _ => edgeTo "trigger-1" first.id "" none none
        | [] => []) ++
      steps.flatMap stepEdges }

end PlaybookGraph

end BTagent
