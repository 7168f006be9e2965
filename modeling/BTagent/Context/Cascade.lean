import BTagent.Data.PyJson
import BTagent.Data.Sha256
import Mathlib.Algebra.Group.Int.Defs
import Mathlib.Algebra.GroupWithZero.Nat
import Mathlib.Data.List.Infix

namespace BTagent

-- A message is a dict; `origin` is the place of the input message that it is a copy of.
structure Message where
  origin : Option ℕ
  fields : Dict

def Json.isText (text : String) : Json → Bool
  | .str s => s = text
  | _ => false

namespace Message

def content (m : Message) : Json := (m.fields.get? "content").getD (.str "")

def role (m : Message) : Json := (m.fields.get? "role").getD (.str "")

def name (m : Message) : Json := (m.fields.get? "name").getD (.str "unknown")

def isSystem (m : Message) : Bool := (m.fields.get? "role").any (Json.isText "system")

def isTool (m : Message) : Bool := m.role.isText "tool" || m.role.isText "function"

def withContent (m : Message) (text : String) : Message :=
  { m with fields := m.fields.set "content" (.str text) }

def system (text : String) : Message where
  origin := none
  fields := (OrderedDict.empty.set "role" (.str "system")).set "content" (.str text)

end Message

structure ArtifactRef where
  ref : String
  sha256 : String
  content : String
  byteSize : ℕ
  toolName : String

inductive ContextLayer where
  | EXTERNALIZE
  | COMPRESS
  | PRUNE
  | SUMMARIZE
  deriving DecidableEq

structure CascadeResult where
  messages : List Message
  artifacts : List ArtifactRef
  layersApplied : List ContextLayer
  finalTokenEstimate : ℕ
  fitsBudget : Bool

namespace Cascade

-- Characters per token, in tenths.
def MODEL_FAMILY_RATIOS : List (String × ℕ) :=
  [("claude", 37), ("anthropic", 37), ("gpt", 40), ("openai", 40), ("o3", 40), ("gemini", 42),
    ("vertex_ai", 42), ("azure", 40), ("ollama", 40), ("llama", 40), ("bedrock", 37)]

def DEFAULT_RATIO : ℕ := 40

def PER_MESSAGE_OVERHEAD : ℕ := 4

def EXTERNALIZE_THRESHOLD : ℕ := 10240

def COMPRESS_THRESHOLD : ℕ := 3072

def PRUNE_KEEP_FIRST : ℕ := 2

def PRUNE_KEEP_LAST : ℕ := 3

def JSON_SAMPLE_ITEMS : ℕ := 5

def TEXT_TRUNCATE_SUFFIX : String := "\n\n[... truncated -- full output in artifact store ...]"

variable (P : Python)

def resolveRatio (modelFamily : String) : ℕ :=
  let familyLower := (P.chars.lower modelFamily).toList
  match MODEL_FAMILY_RATIOS.find? fun kv => decide (kv.1.toList <:+: familyLower) with
  | some kv => kv.2
  | none => DEFAULT_RATIO

-- `max(1, int(len(text) / ratio))`, where the text is not empty
def tokensOf (ratio length : ℕ) : ℕ := if length = 0 then 0 else max 1 (length * 10 / ratio)

-- A value that is falsy costs nothing, and one without a length raises.
def estimateTokens (ratio : ℕ) (text : Json) : Option ℕ :=
  if Python.truth text then (Python.len text).map (tokensOf ratio) else some 0

def blockTokens (ratio : ℕ) : Json → Option ℕ
  | .obj kvs => do
      let text := (OrderedDict.find "text" kvs).getD (.str "")
      let tokens ← estimateTokens ratio text
      some (tokens + if (OrderedDict.find "type" kvs).any (Json.isText "image") then 1000 else 0)
  | .str s => some (tokensOf ratio s.length)
  | _ => some 0

def contentTokens (ratio : ℕ) : Json → Option ℕ
  | .str s => some (tokensOf ratio s.length)
  | .arr blocks => (blocks.mapM (blockTokens ratio)).map List.sum
  | _ => some 0

def toolCallTokens (ratio : ℕ) : Json → Option ℕ
  | .obj kvs =>
      match (OrderedDict.find "function" kvs).getD (.obj []) with
      | .obj fn => do
          let name ← estimateTokens ratio ((OrderedDict.find "name" fn).getD (.str ""))
          let arguments := P.str ((OrderedDict.find "arguments" fn).getD (.str ""))
          some (name + tokensOf ratio arguments.length)
      | _ => none
  | _ => some 0

-- `for tc in msg.get("tool_calls", []) or []`; the characters of a text and the keys of a dict
-- are no dicts.
def toolCallsTokens (ratio : ℕ) (calls : Json) : Option ℕ :=
  if Python.truth calls then
    match calls with
    | .arr xs => (xs.mapM (toolCallTokens P ratio)).map List.sum
    | .str _ | .obj _ => some 0
    | _ => none
  else some 0

def messageTokens (ratio : ℕ) (m : Message) : Option ℕ := do
  let content ← contentTokens ratio m.content
  let calls ← toolCallsTokens P ratio ((m.fields.get? "tool_calls").getD (.arr []))
  some (PER_MESSAGE_OVERHEAD + content + calls)

def estimateMessageTokens (modelFamily : String) (messages : List Message) : Option ℕ :=
  (messages.mapM (messageTokens P (resolveRatio P modelFamily))).map List.sum

def contentByteLength : Json → ℕ
  | .str s => s.utf8ByteSize
  | .arr blocks =>
      (blocks.map fun block =>
        match block with
        | .obj kvs => (JsonText.dumps JsonText.pythonStyle (.obj kvs)).utf8ByteSize
        | .str s => s.utf8ByteSize
        | _ => 0).sum
  | _ => 0

def stringify : Json → String
  | .str s => s
  | x => JsonText.dumps JsonText.pythonStyle x

def makeArtifactRef (content : Json) (toolName : Json) : Option ArtifactRef :=
  let payload := stringify content
  let fullHash := sha256 payload.toByteArray
  match toolName with
  | .str toolName => some
      { ref := "artifact:" ++ (fullHash.take 16).toString
        sha256 := fullHash
        content := payload
        byteSize := payload.utf8ByteSize
        toolName := toolName }
  | _ => none

-- `f"{n:,}"`
def withCommas (n : ℕ) : String :=
  let rec groups : ℕ → List Char → List Char
    | 0, cs => cs
    | fuel + 1, a :: b :: c :: d :: cs => a :: b :: c :: ',' :: groups fuel (d :: cs)
    | _ + 1, cs => cs
  let digits := Nat.toDigits 10 n
  String.ofList (groups digits.length digits.reverse).reverse

def referenceText (byteSize : ℕ) (ref hash : String) : String :=
  s!"[Large output externalised -- {withCommas byteSize} bytes]\n" ++
    s!"Artifact reference: {ref}\n" ++ s!"SHA-256: {hash}"

def large (threshold : ℕ) (m : Message) : Bool :=
  m.isTool && threshold ≤ contentByteLength m.content

def layer0Externalize : List Message → Option (List Message × List ArtifactRef)
  | [] => some ([], [])
  | m :: messages =>
      if large EXTERNALIZE_THRESHOLD m then do
        let artifact ← makeArtifactRef m.content m.name
        let text := referenceText artifact.byteSize artifact.ref artifact.sha256
        let (out, artifacts) ← layer0Externalize messages
        some (m.withContent text :: out, artifact :: artifacts)
      else do
        let (out, artifacts) ← layer0Externalize messages
        some (m :: out, artifacts)

def compressField (compressed : Dict) (kv : String × Json) : Dict :=
  match kv.2 with
  | .str val =>
      if 500 < val.length then compressed.set kv.1 (.str ((val.take 500).toString ++ "..."))
      else compressed.set kv.1 (.str val)
  | .arr val =>
      if JSON_SAMPLE_ITEMS < val.length then
        (compressed.set kv.1 (.arr (val.take JSON_SAMPLE_ITEMS))).set s!"_{kv.1}_note"
          (.str s!"sampled {JSON_SAMPLE_ITEMS} of {val.length}")
      else compressed.set kv.1 (.arr val)
  | val => compressed.set kv.1 val

def compressJson (text : String) : String :=
  match JsonText.loads P text with
  | some (.arr data) =>
      if JSON_SAMPLE_ITEMS < data.length then
        JsonText.dumpsIndented 0 (.arr (data.take JSON_SAMPLE_ITEMS)) ++
          s!"\n\n[... sampled {JSON_SAMPLE_ITEMS} of {data.length} items ...]"
      else text
  | some (.obj data) =>
      JsonText.dumpsIndented 0 (.obj (data.foldl compressField OrderedDict.empty).entries)
  | _ => text

-- The characters that are whole within the first bytes.
def takeBytes : ℕ → List Char → List Char
  | _, [] => []
  | room, c :: cs => if c.utf8Size ≤ room then c :: takeBytes (room - c.utf8Size) cs else []

def truncateText (text : String) (maxBytes : ℕ) : String :=
  if text.utf8ByteSize ≤ maxBytes then text
  else String.ofList ((takeBytes maxBytes text.toList).rdropWhile P.chars.isSpace) ++
    TEXT_TRUNCATE_SUFFIX

def compressedText (content : Json) : String :=
  let compressed := compressJson P (stringify content)
  if COMPRESS_THRESHOLD < compressed.utf8ByteSize then truncateText P compressed COMPRESS_THRESHOLD
  else compressed

def compressMessage (m : Message) : Message :=
  if large COMPRESS_THRESHOLD m then m.withContent (compressedText P m.content) else m

def layer1Compress (messages : List Message) : List Message := messages.map (compressMessage P)

def markerText (pruned : ℕ) : String :=
  s!"[Context window pruned: {pruned} message(s) removed to stay within " ++
    s!"token budget. Kept first {PRUNE_KEEP_FIRST} + last {PRUNE_KEEP_LAST}.]"

def lastMessages (messages : List Message) : List Message :=
  messages.drop (messages.length - PRUNE_KEEP_LAST)

def layer2Prune (messages : List Message) : List Message :=
  if messages.length ≤ PRUNE_KEEP_FIRST + PRUNE_KEEP_LAST then messages
  else
    let pruned := messages.length - PRUNE_KEEP_FIRST - PRUNE_KEEP_LAST
    messages.take PRUNE_KEEP_FIRST ++ [Message.system (markerText pruned)] ++
      lastMessages messages

def summaryMessage (summary : String) : Message :=
  Message.system ("[Conversation summary -- earlier messages have been condensed]\n\n" ++ summary)

def leadingSystem : List Message → List Message
  | m :: _ => if m.isSystem then [m] else []
  | [] => []

def layer3Inject (messages : List Message) (summary : String) : List Message :=
  leadingSystem messages ++ [summaryMessage summary] ++ lastMessages messages

def summaryPrefix (messages : List Message) : List Message :=
  if PRUNE_KEEP_LAST < messages.length then messages.take (messages.length - PRUNE_KEEP_LAST)
  else messages

-- A summariser gives the text of its answer, or raises.
abbrev Summarizer := List Message → Option String

def layer3Summarize (summarizer : Summarizer) (messages : List Message) : Option (List Message) :=
  (summarizer (summaryPrefix messages)).map (layer3Inject messages)

def applyCascade (maxTokens : ℤ) (modelFamily : String) (summarizer : Option Summarizer)
    (messages : List Message) : Option CascadeResult := do
  let est ← estimateMessageTokens P modelFamily messages
  if (est : ℤ) ≤ maxTokens then some ⟨messages, [], [], est, true⟩
  else
    let (current, artifacts) ← layer0Externalize messages
    let applied := if artifacts.isEmpty then [] else [ContextLayer.EXTERNALIZE]
    let est ← estimateMessageTokens P modelFamily current
    if (est : ℤ) ≤ maxTokens then some ⟨current, artifacts, applied, est, true⟩
    else
      let current := layer1Compress P current
      let applied := applied ++ [.COMPRESS]
      let est ← estimateMessageTokens P modelFamily current
      if (est : ℤ) ≤ maxTokens then some ⟨current, artifacts, applied, est, true⟩
      else
        let current := layer2Prune current
        let applied := applied ++ [.PRUNE]
        let est ← estimateMessageTokens P modelFamily current
        if (est : ℤ) ≤ maxTokens then some ⟨current, artifacts, applied, est, true⟩
        else
          match summarizer with
          | none => some ⟨current, artifacts, applied, est, false⟩
          | some summarizer => do
              let current ← layer3Summarize summarizer current
              let est ← estimateMessageTokens P modelFamily current
              some ⟨current, artifacts, applied ++ [.SUMMARIZE], est, decide ((est : ℤ) ≤ maxTokens)⟩

end Cascade

end BTagent
