import BTagent.Data.CharTable
import BTagent.Lib.Lines
import BTagent.Lib.Regex

namespace BTagent

structure ChunkMetadata where
  chunkIndex : ℕ
  sectionHeader : Option (List Char)
  deriving DecidableEq

structure Chunk where
  content : List Char
  index : ℕ
  tokenCount : ℕ
  metadata : ChunkMetadata
  deriving DecidableEq

-- The variables of the loop of `chunk_text`.
structure ChunkingState where
  chunks : List Chunk
  currentParts : List (List Char)
  currentTokens : ℕ
  currentHeader : Option (List Char)
  chunkIndex : ℕ

namespace ChunkingService
open Regex

def estimateTokens (text : List Char) : ℕ := max 1 (text.length / 4)

def joinParts (parts : List (List Char)) : List Char := ['\n', '\n'].intercalate parts

-- `#{1,6}\s+(.+)`: a dot stops only at the end of a line, where `$` matches.
def HEADER_RE (T : CharTable) : Regex :=
  seq (seq (char '#') (upTo 5 (char '#'))) (seq (plus (set T.isSpace)) (plus (set (· != '\n'))))

-- What is matched, and the second group of it, stripped.
def headerMatch (T : CharTable) (text : List Char) : Option (List Char × List Char) :=
  (splits T.isWord (HEADER_RE T) none text).head?.map fun m =>
    (m.1, Lines.trim T.isSpace (m.1.dropWhile (· == '#')))

-- `finditer`, where `^` matches at the start of each line.
def headersFrom (T : CharTable) : ℕ → Bool → List Char → List (List Char)
  | _, _, [] => []
  | skip + 1, _, c :: rest => headersFrom T skip (c == '\n') rest
  | 0, false, c :: rest => headersFrom T 0 (c == '\n') rest
  | 0, true, c :: rest =>
      match headerMatch T (c :: rest) with
      | some m => m.2 :: headersFrom T (m.1.length - 1) (c == '\n') rest
      | none => headersFrom T 0 (c == '\n') rest

def extractSectionHeader (T : CharTable) (text : List Char) : Option (List Char) :=
  (headersFrom T 0 true text).getLast?

def chunkMetadata (header : Option (List Char)) (chunkIndex : ℕ) : ChunkMetadata :=
  { chunkIndex := chunkIndex, sectionHeader := header.filter (· ≠ []) }

def mkChunk (content : List Char) (header : Option (List Char)) (index : ℕ) : Chunk where
  content := content
  index := index
  tokenCount := estimateTokens content
  metadata := chunkMetadata header index

-- `re.split(r"\n{2,}", ..)`
def splitBlankLines (T : CharTable) (text : List Char) : List (List Char) :=
  (scan T.isWord (seq (char '\n') (plus (char '\n'))) text).foldr (fun piece parts =>
    match piece with
    | .between c => parts.modifyHead (c :: ·)
    | .found _ => [] :: parts) [[]]

def splitParagraphs (T : CharTable) (text : List Char) : List (List Char) :=
  ((splitBlankLines T (Lines.trim T.isSpace text)).map (Lines.trim T.isSpace)).filter (· ≠ [])

def getOverlapText (parts : List (List Char)) (overlapTokens : ℕ) : List Char :=
  if parts = [] ∨ overlapTokens = 0 then []
  else
    let full := joinParts parts
    full.drop (full.length - overlapTokens * 4)

-- The loop of `_split_large_text` from `pos` on.
def splitLargeFrom (T : CharTable) (text : List Char) (chunkSize overlap : ℕ)
    (header : Option (List Char)) : ℕ → ℕ → ℕ → Option (List Chunk)
  | 0, _, _ => none
  | fuel + 1, pos, idx =>
      if pos < text.length then
        let stop := min (pos + chunkSize * 4) text.length
        let content := Lines.trim T.isSpace ((text.take stop).drop pos)
        let next := if stop < text.length then stop - overlap * 4 else stop
        if content ≠ [] then
          (splitLargeFrom T text chunkSize overlap header fuel next (idx + 1)).map
            (mkChunk content header idx :: ·)
        else splitLargeFrom T text chunkSize overlap header fuel next idx
      else some []

def splitLargeText (T : CharTable) (fuel : ℕ) (text : List Char) (chunkSize overlap startIndex : ℕ)
    (header : Option (List Char)) : Option (List Chunk) :=
  splitLargeFrom T text chunkSize overlap header fuel 0 startIndex

def flush (s : ChunkingState) : ChunkingState :=
  if s.currentParts = [] then s
  else { s with
    chunks := s.chunks ++ [mkChunk (joinParts s.currentParts) s.currentHeader s.chunkIndex]
    currentParts := []
    currentTokens := 0
    chunkIndex := s.chunkIndex + 1 }

def trackHeader (T : CharTable) (para : List Char) (s : ChunkingState) : ChunkingState :=
  match headerMatch T (Lines.trim T.isSpace para) with
  | some m => { s with currentHeader := some m.2 }
  | none => s

def addParagraph (T : CharTable) (fuel chunkSize overlap : ℕ) (before : ChunkingState)
    (para : List Char) : Option ChunkingState :=
  let paraTokens := estimateTokens para
  let s := trackHeader T para before
  if chunkSize < paraTokens then
    let flushed := flush s
    (splitLargeText T fuel para chunkSize overlap flushed.chunkIndex flushed.currentHeader).map
      fun sub => { flushed with
        chunks := flushed.chunks ++ sub
        chunkIndex := flushed.chunkIndex + sub.length }
  else if chunkSize < s.currentTokens + paraTokens ∧ s.currentParts ≠ [] then
    let overlapText := getOverlapText s.currentParts overlap
    if overlapText ≠ [] then
      some { flush s with
        currentParts := [overlapText, para]
        currentTokens := estimateTokens overlapText + paraTokens }
    else some { flush s with currentParts := [para], currentTokens := paraTokens }
  else
    some { s with
      currentParts := s.currentParts ++ [para]
      currentTokens := s.currentTokens + paraTokens }

def chunkText (T : CharTable) (fuel : ℕ) (text : List Char) (chunkSize overlap : ℕ) :
    Option (List Chunk) :=
  if Lines.trim T.isSpace text = [] then some []
  else
    ((splitParagraphs T text).foldlM (addParagraph T fuel chunkSize overlap)
      ⟨[], [], 0, none, 0⟩).map fun s => (flush s).chunks

end ChunkingService

end BTagent
