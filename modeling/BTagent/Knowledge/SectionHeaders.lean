import BTagent.Knowledge.ChunkingService
import Mathlib.Data.List.Basic

namespace BTagent

namespace ChunkingService

def startHeader (T : CharTable) (para : List Char) : Option (List Char) :=
  (headerMatch T (Lines.trim T.isSpace para)).map (·.2)

-- The header that starts one of the paragraphs, the last such.
def lastStart (T : CharTable) (ps : List (List Char)) : Option (List Char) :=
  ps.foldl (fun h p => (startHeader T p).or h) none

-- The header that starts the paragraph, or else the last header line of the paragraphs before it.
def sectionOf (T : CharTable) (ps : List (List Char)) (i : ℕ) : Option (List Char) :=
  (ps[i]?.bind (startHeader T)).or
    ((ps.take i).foldl (fun h p => (extractSectionHeader T p).or h) none)

def tokensOf (length : ℕ) : ℕ := max 1 (length / 4)

def windows (chunkSize overlap length : ℕ) : ℕ → ℕ → List (ℕ × ℕ)
  | 0, _ => []
  | fuel + 1, pos =>
      if pos < length then
        let stop := min (pos + chunkSize * 4) length
        (pos, stop) :: windows chunkSize overlap length fuel
          (if stop < length then stop - overlap * 4 else stop)
      else []

-- Each window begins inside what those before it cover and ends beyond it.
inductive Covers (length : ℕ) : ℕ → List (ℕ × ℕ) → Prop
  | done : Covers length length []
  | next {covered start stop ws} : start ≤ covered → covered < stop → stop ≤ length →
      Covers length stop ws → Covers length covered ((start, stop) :: ws)

-- The paragraphs of one chunk, or a paragraph that is cut into windows.
inductive Group where
  | run (first count : ℕ)
  | large (para : ℕ) (windows : List (ℕ × ℕ))
  deriving DecidableEq

namespace Group

def first : Group → ℕ
  | run first _ => first
  | large para _ => para

-- How many paragraphs have been read when the chunks of the group are made, at most.
def seen : Group → ℕ
  | run first count => first + count + 1
  | large para _ => para + 1

end Group

structure OpenRun where
  first : ℕ
  count : ℕ
  chars : ℕ
  tokens : ℕ

def OpenRun.start (i carry length : ℕ) : OpenRun :=
  if carry = 0 then ⟨i, 1, length, tokensOf length⟩
  else ⟨i, 1, carry + 2 + length, tokensOf carry + tokensOf length⟩

def OpenRun.close (r : OpenRun) : Group := .run r.first r.count

-- The groups that the lengths of the paragraphs give, from paragraph `i` on.
def packFrom (chunkSize overlap : ℕ) : ℕ → Option OpenRun → List ℕ → List Group
  | _, current, [] => current.toList.map OpenRun.close
  | i, current, n :: ns =>
      if chunkSize < tokensOf n then
        current.toList.map OpenRun.close ++
          .large i (windows chunkSize overlap n n 0) :: packFrom chunkSize overlap (i + 1) none ns
      else
        match current with
        | none => packFrom chunkSize overlap (i + 1) (some (.start i 0 n)) ns
        | some r =>
            if chunkSize < r.tokens + tokensOf n then
              r.close :: packFrom chunkSize overlap (i + 1)
                (some (.start i (min r.chars (overlap * 4)) n)) ns
            else
              packFrom chunkSize overlap (i + 1)
                (some ⟨r.first, r.count + 1, r.chars + 2 + n, r.tokens + tokensOf n⟩) ns

def pack (chunkSize overlap : ℕ) (lengths : List ℕ) : List Group :=
  packFrom chunkSize overlap 0 none lengths

def carried (overlap : ℕ) (previous : List Char) : List (List Char) :=
  let tail := previous.drop (previous.length - overlap * 4)
  if tail = [] then [] else [tail]

def pieces (T : CharTable) (para : List Char) (ws : List (ℕ × ℕ)) : List (List Char) :=
  (ws.map fun w => Lines.trim T.isSpace ((para.take w.2).drop w.1)).filter (· ≠ [])

-- The chunks hold the paragraphs from `i` on, group after group, each with the header of its group.
inductive Chunked (T : CharTable) (ps : List (List Char)) (overlap : ℕ)
    (header : Group → Option (List Char)) : ℕ → List Char → List Group → List Chunk → Prop
  | done {previous} : Chunked T ps overlap header ps.length previous [] []
  | run {i count index previous gs chunks content} : 0 < count → i + count ≤ ps.length →
      content = joinParts (carried overlap previous ++ (ps.drop i).take count) →
      Chunked T ps overlap header (i + count) content gs chunks →
      Chunked T ps overlap header i previous (.run i count :: gs)
        (mkChunk content (header (.run i count)) index :: chunks)
  | large {i previous para ws block gs chunks} : ps[i]? = some para → Covers para.length 0 ws →
      block.map Chunk.content = pieces T para ws →
      (∀ c ∈ block, c = mkChunk c.content (header (.large i ws)) c.index) →
      Chunked T ps overlap header (i + 1) [] gs chunks →
      Chunked T ps overlap header i previous (.large i ws :: gs) (block ++ chunks)

def HeadersRight (T : CharTable) (text : List Char) (chunkSize overlap : ℕ) : Prop :=
  ∃ chunks, (∃ bound, ∀ fuel, bound ≤ fuel → chunkText T fuel text chunkSize overlap = some chunks) ∧
    chunks.map Chunk.index = List.range chunks.length ∧
    Chunked T (splitParagraphs T text) overlap
      (fun g => sectionOf T (splitParagraphs T text) g.first) 0 []
      (pack chunkSize overlap ((splitParagraphs T text).map List.length)) chunks

def shown (header : Option (List Char)) : Option (List Char) := header.filter (· ≠ [])

-- No paragraph read until a group is closed changes the header that its first paragraph has.
def HeadersSettled (T : CharTable) (ps : List (List Char)) (chunkSize overlap : ℕ) : Prop :=
  ∀ g ∈ pack chunkSize overlap (ps.map List.length),
    shown (sectionOf T ps g.first) = shown (lastStart T (ps.take g.seen))

variable {T : CharTable} {ps : List (List Char)} {text para : List Char} {header : Option (List Char)}
  {chunkSize overlap length fuel pos covered : ℕ}

section Windows

theorem windows_cover (hlt : overlap < chunkSize) (hfuel : length - pos ≤ fuel)
    (hpos : pos = length ∧ covered = length ∨
      pos ≤ covered ∧ covered < length ∧ covered < pos + chunkSize * 4) :
    Covers length covered (windows chunkSize overlap length fuel pos) := by
  induction fuel generalizing pos covered with
  | zero =>
      obtain ⟨rfl, rfl⟩ : pos = length ∧ covered = length := by omega
      exact .done
  | succ fuel ih =>
      rw [windows]
      rcases hpos with ⟨rfl, rfl⟩ | ⟨hle, hcovered, hwindow⟩
      · rw [if_neg (Nat.lt_irrefl _)]
        exact .done
      · rw [if_pos (by omega)]
        apply Covers.next hle (by omega) (by omega)
        apply ih
        · split <;> omega
        · split
          · right
            omega
          · left
            omega

def numbered (header : Option (List Char)) : ℕ → List (List Char) → List Chunk
  | _, [] => []
  | i, content :: rest => mkChunk content header i :: numbered header (i + 1) rest

theorem numbered_spec (header : Option (List Char)) (i : ℕ) (contents : List (List Char)) :
    (numbered header i contents).map Chunk.content = contents ∧
      (numbered header i contents).map Chunk.index =
        List.range' i (numbered header i contents).length ∧
      ∀ c ∈ numbered header i contents, c = mkChunk c.content header c.index := by
  induction contents generalizing i with
  | nil => simp [numbered]
  | cons content rest ih =>
      obtain ⟨hcontent, hindex, hall⟩ := ih (i + 1)
      refine ⟨?_, ?_, ?_⟩
      · rw [numbered, List.map_cons, hcontent]
        rfl
      · rw [numbered, List.map_cons, hindex]
        rfl
      · rw [numbered, List.forall_mem_cons]
        exact ⟨rfl, hall⟩

theorem splitLargeFrom_eq {wfuel index : ℕ} (hlt : overlap < chunkSize)
    (hfuel : text.length - pos < fuel) (hwfuel : text.length - pos ≤ wfuel) :
    splitLargeFrom T text chunkSize overlap header fuel pos index =
      some (numbered header index
        (pieces T text (windows chunkSize overlap text.length wfuel pos))) := by
  induction wfuel generalizing fuel pos index with
  | zero =>
      obtain ⟨fuel, rfl⟩ := Nat.exists_eq_succ_of_ne_zero (Nat.ne_zero_of_lt hfuel)
      rw [splitLargeFrom, if_neg (by omega)]
      rfl
  | succ wfuel ih =>
      obtain ⟨fuel, rfl⟩ := Nat.exists_eq_succ_of_ne_zero (Nat.ne_zero_of_lt hfuel)
      rw [splitLargeFrom, windows]
      by_cases hpos : pos < text.length
      · simp only [if_pos hpos, pieces, List.map_cons, List.filter_cons, decide_eq_true_eq]
        split
        · rw [ih (by split <;> omega) (by split <;> omega)]
          rfl
        · exact ih (by split <;> omega) (by split <;> omega)
      · rw [if_neg hpos, if_neg hpos]
        rfl

end Windows

section Joins
variable {parts : List (List Char)} {previous : List Char}

theorem joinParts_concat (h : parts ≠ []) :
    joinParts (parts ++ [para]) = joinParts parts ++ '\n' :: '\n' :: para := by
  induction parts with
  | nil => exact absurd rfl h
  | cons part parts ih =>
      cases parts with
      | nil => simp [joinParts]
      | cons part' parts =>
          have hrest := ih (List.cons_ne_nil part' parts)
          simp only [joinParts, List.cons_append, List.intercalate_cons_cons] at hrest ⊢
          simp only [hrest, List.append_assoc]

theorem length_joinParts_concat (h : parts ≠ []) :
    (joinParts (parts ++ [para])).length = (joinParts parts).length + 2 + para.length := by
  rw [joinParts_concat h]
  simp only [List.length_append, List.length_cons]
  omega

theorem joinParts_single : joinParts [para] = para := by simp [joinParts]

theorem getOverlapText_eq (h : parts ≠ []) : getOverlapText parts overlap =
    (joinParts parts).drop ((joinParts parts).length - overlap * 4) := by
  unfold getOverlapText
  split
  · next hzero =>
      obtain rfl := hzero.resolve_left h
      simp
  · rfl

theorem carried_parts (h : parts ≠ []) : carried overlap (joinParts parts) =
    if getOverlapText parts overlap = [] then [] else [getOverlapText parts overlap] := by
  rw [carried, getOverlapText_eq h]

theorem length_overlapText (h : parts ≠ []) : (getOverlapText parts overlap).length =
    min (joinParts parts).length (overlap * 4) := by
  rw [getOverlapText_eq h, List.length_drop]
  omega

end Joins

section Headers

theorem lastStart_concat :
    lastStart T (ps ++ [para]) = (startHeader T para).or (lastStart T ps) := by
  simp [lastStart]

theorem trackHeader_eq {s : ChunkingState} : trackHeader T para s =
    { s with currentHeader := (startHeader T para).or s.currentHeader } := by
  unfold trackHeader startHeader
  cases headerMatch T (Lines.trim T.isSpace para) <;> rfl

end Headers

section Flushing
variable {s : ChunkingState}

theorem flush_nil (h : s.currentParts = []) : flush s = s := if_pos h

theorem flush_header : (flush s).currentHeader = s.currentHeader := by
  unfold flush
  split <;> rfl

theorem flush_cons (h : s.currentParts ≠ []) : flush s = { s with
    chunks := s.chunks ++ [mkChunk (joinParts s.currentParts) s.currentHeader s.chunkIndex]
    currentParts := []
    currentTokens := 0
    chunkIndex := s.chunkIndex + 1 } := if_neg h

end Flushing

section Step
variable {s : ChunkingState} {sub : List Chunk} {i : ℕ} {current : Option OpenRun} {r : OpenRun}
  {ns : List ℕ}

theorem addParagraph_large (hlarge : chunkSize < tokensOf para.length)
    (hsub : splitLargeText T fuel para chunkSize overlap (flush (trackHeader T para s)).chunkIndex
      (flush (trackHeader T para s)).currentHeader = some sub) :
    addParagraph T fuel chunkSize overlap s para = some { flush (trackHeader T para s) with
      chunks := (flush (trackHeader T para s)).chunks ++ sub
      chunkIndex := (flush (trackHeader T para s)).chunkIndex + sub.length } := by
  have hif : chunkSize < estimateTokens para := hlarge
  rw [addParagraph, if_pos hif]
  exact congrArg (Option.map _) hsub

theorem addParagraph_over (i : ℕ) (hlarge : ¬chunkSize < tokensOf para.length)
    (hover : chunkSize < s.currentTokens + tokensOf para.length) (hne : s.currentParts ≠ []) :
    addParagraph T fuel chunkSize overlap s para = some { flush (trackHeader T para s) with
      currentParts := carried overlap (joinParts s.currentParts) ++ [para]
      currentTokens := (OpenRun.start i (min (joinParts s.currentParts).length (overlap * 4))
        para.length).tokens } := by
  have hif : ¬chunkSize < estimateTokens para := hlarge
  have hif' : chunkSize < s.currentTokens + estimateTokens para ∧ s.currentParts ≠ [] := ⟨hover, hne⟩
  rw [addParagraph, trackHeader_eq, if_neg hif, if_pos hif', carried_parts hne, OpenRun.start,
    ← length_overlapText hne]
  by_cases htail : getOverlapText s.currentParts overlap = []
  · simp [htail, tokensOf, estimateTokens]
  · simp [htail, tokensOf, estimateTokens]

theorem addParagraph_fits (hlarge : ¬chunkSize < tokensOf para.length)
    (hfits : ¬(chunkSize < s.currentTokens + tokensOf para.length ∧ s.currentParts ≠ [])) :
    addParagraph T fuel chunkSize overlap s para = some { trackHeader T para s with
      currentParts := s.currentParts ++ [para]
      currentTokens := s.currentTokens + tokensOf para.length } := by
  have hif : ¬chunkSize < estimateTokens para := hlarge
  have hif' : ¬(chunkSize < s.currentTokens + estimateTokens para ∧ s.currentParts ≠ []) := hfits
  rw [addParagraph, trackHeader_eq, if_neg hif, if_neg hif']
  rfl

theorem OpenRun.start_first {carry n : ℕ} : (OpenRun.start i carry n).first = i := by
  unfold OpenRun.start
  split <;> rfl

theorem packFrom_large {n : ℕ} (hlarge : chunkSize < tokensOf n) :
    packFrom chunkSize overlap i current (n :: ns) = current.toList.map OpenRun.close ++
      .large i (windows chunkSize overlap n n 0) :: packFrom chunkSize overlap (i + 1) none ns := by
  cases current <;> rw [packFrom, if_pos hlarge]

end Step

section Loop
variable {s s' : ChunkingState} {i : ℕ} {current : Option OpenRun} {r : OpenRun}
  {previous : List Char} {rest : List (List Char)} {gs : List Group}

-- Paragraphs `first` up to `i` are waiting, after the tail of the previous chunk.
structure Waiting (ps : List (List Char)) (overlap i : ℕ) (previous : List Char)
    (parts : List (List Char)) (tokens : ℕ) (r : OpenRun) : Prop where
  upto : r.first + r.count = i
  some_para : 0 < r.count
  parts_eq : parts = carried overlap previous ++ (ps.drop r.first).take r.count
  tokens_eq : tokens = r.tokens
  chars_eq : (joinParts parts).length = r.chars

def Holds (ps : List (List Char)) (overlap i : ℕ) (previous : List Char) (s : ChunkingState) :
    Option OpenRun → Prop
  | none => s.currentParts = [] ∧ s.currentTokens = 0 ∧ previous = []
  | some r => Waiting ps overlap i previous s.currentParts s.currentTokens r

def position (i : ℕ) : Option OpenRun → ℕ
  | none => i
  | some r => r.first

-- The header that the loop gives to the chunks of a group.
def headerAt (T : CharTable) (ps : List (List Char)) (g : Group) : Option (List Char) :=
  lastStart T (ps.take g.seen)

def Emits (T : CharTable) (ps : List (List Char)) (overlap first : ℕ) (previous : List Char)
    (s s' : ChunkingState) (gs : List Group) : Prop :=
  ∃ new, (flush s').chunks = s.chunks ++ new ∧
    new.map Chunk.index = List.range' s.chunkIndex new.length ∧
    Chunked T ps overlap (headerAt T ps) first previous gs new

theorem Waiting.parts_ne {parts : List (List Char)} {tokens : ℕ}
    (h : Waiting ps overlap i previous parts tokens r) (hi : i ≤ ps.length) : parts ≠ [] := by
  have hcount : ((ps.drop r.first).take r.count).length = r.count := by
    rw [List.length_take, List.length_drop]
    have hupto := h.upto
    omega
  intro hnil
  rw [h.parts_eq, List.append_eq_nil_iff] at hnil
  rw [hnil.2] at hcount
  have hpos := h.some_para
  rw [← hcount] at hpos
  exact absurd hpos (Nat.lt_irrefl 0)

theorem waiting_start (overlap : ℕ) (previous : List Char) (hpara : ps[i]? = some para) :
    Waiting ps overlap (i + 1) previous (carried overlap previous ++ [para])
      (OpenRun.start i (min previous.length (overlap * 4)) para.length).tokens
      (.start i (min previous.length (overlap * 4)) para.length) := by
  have hlength : (previous.drop (previous.length - overlap * 4)).length =
      min previous.length (overlap * 4) := by
    rw [List.length_drop]
    omega
  have htake : (ps.drop i).take 1 = [para] := by
    rw [List.take_one, List.head?_drop, hpara]
    rfl
  unfold OpenRun.start
  split
  · next hzero =>
      rw [hzero] at hlength
      refine ⟨rfl, Nat.one_pos, by rw [htake], rfl, ?_⟩
      rw [carried, List.eq_nil_of_length_eq_zero hlength]
      simp [joinParts]
  · next hpos =>
      have hne : previous.drop (previous.length - overlap * 4) ≠ [] := by
        intro hnil
        rw [hnil] at hlength
        exact hpos hlength.symm
      refine ⟨rfl, Nat.one_pos, by rw [htake], rfl, ?_⟩
      simp only [carried, if_neg hne]
      rw [length_joinParts_concat (List.cons_ne_nil _ _), joinParts_single, hlength]

theorem Waiting.extend {parts : List (List Char)} {tokens : ℕ}
    (h : Waiting ps overlap i previous parts tokens r) (hpara : ps[i]? = some para) :
    Waiting ps overlap (i + 1) previous (parts ++ [para]) (tokens + tokensOf para.length)
      ⟨r.first, r.count + 1, r.chars + 2 + para.length, r.tokens + tokensOf para.length⟩ := by
  have hi : i ≤ ps.length := Nat.le_of_lt (List.getElem?_eq_some_iff.mp hpara).1
  refine ⟨?_, Nat.succ_pos _, ?_, ?_, ?_⟩
  · rw [← h.upto]
    rfl
  · have hlast : (ps.drop r.first)[r.count]? = some para := by
      rw [List.getElem?_drop, h.upto, hpara]
    rw [List.take_add_one, hlast, h.parts_eq, List.append_assoc]
    rfl
  · rw [h.tokens_eq]
  · rw [length_joinParts_concat (h.parts_ne hi), h.chars_eq]

theorem Holds.flushed (h : Holds ps overlap i previous s current) (hi : i ≤ ps.length) :
    (flush s).currentParts = [] ∧ (flush s).currentTokens = 0 := by
  cases current with
  | none =>
      obtain ⟨hparts, htokens, -⟩ := h
      rw [flush_nil hparts]
      exact ⟨hparts, htokens⟩
  | some r =>
      have hwaiting : Waiting ps overlap i previous s.currentParts s.currentTokens r := h
      rw [flush_cons (hwaiting.parts_ne hi)]
      exact ⟨rfl, rfl⟩

theorem emits_close {t : ChunkingState} (h : Holds ps overlap i previous s current)
    (hi : i ≤ ps.length) (hheader : s.currentHeader = lastStart T (ps.take (i + 1)))
    (hchunks : t.chunks = (flush s).chunks) (hindex : t.chunkIndex = (flush s).chunkIndex)
    (hrest : Emits T ps overlap i (joinParts s.currentParts) t s' gs) :
    Emits T ps overlap (position i current) previous s s'
      (current.toList.map OpenRun.close ++ gs) := by
  obtain ⟨new, hnew, hindices, hchunked⟩ := hrest
  cases current with
  | none =>
      obtain ⟨hparts, -, rfl⟩ := h
      rw [flush_nil hparts] at hchunks hindex
      rw [hparts] at hchunked
      exact ⟨new, hchunks ▸ hnew, hindex ▸ hindices, hchunked⟩
  | some r =>
      have hwaiting : Waiting ps overlap i previous s.currentParts s.currentTokens r := h
      have hupto := hwaiting.upto
      rw [flush_cons (hwaiting.parts_ne hi)] at hchunks hindex
      refine ⟨mkChunk (joinParts s.currentParts) s.currentHeader s.chunkIndex :: new, ?_, ?_, ?_⟩
      · rw [hnew, hchunks, List.append_assoc, List.singleton_append]
      · rw [List.map_cons, hindices, hindex]
        rfl
      · have hgroup : s.currentHeader = headerAt T ps r.close := by
          rw [headerAt, OpenRun.close, Group.seen, hupto, hheader]
        rw [hgroup]
        rw [← hupto] at hchunked hi
        have hrun : Chunked T ps overlap (headerAt T ps) r.first previous (r.close :: gs)
            (mkChunk (joinParts s.currentParts) (headerAt T ps r.close) s.chunkIndex :: new) :=
          .run hwaiting.some_para hi (congrArg joinParts hwaiting.parts_eq) hchunked
        exact hrun

theorem emits_large (hlt : overlap < chunkSize) (hpara : ps[i]? = some para) (hheader : s.currentHeader = lastStart T (ps.take (i + 1))) :
    ∃ sub, (∀ fuel, para.length < fuel →
        splitLargeText T fuel para chunkSize overlap s.chunkIndex s.currentHeader = some sub) ∧
      ∀ {s' gs}, Emits T ps overlap (i + 1) []
          { s with chunks := s.chunks ++ sub, chunkIndex := s.chunkIndex + sub.length } s' gs →
        Emits T ps overlap i previous s s'
          (.large i (windows chunkSize overlap para.length para.length 0) :: gs) := by
  have hsub : ∀ fuel, para.length < fuel →
      splitLargeText T fuel para chunkSize overlap s.chunkIndex s.currentHeader =
        some (numbered s.currentHeader s.chunkIndex
          (pieces T para (windows chunkSize overlap para.length para.length 0))) :=
    fun fuel hfuel => splitLargeFrom_eq hlt (by omega) (by omega)
  obtain ⟨hcontent, hindex, hall⟩ := numbered_spec s.currentHeader s.chunkIndex
    (pieces T para (windows chunkSize overlap para.length para.length 0))
  generalize numbered s.currentHeader s.chunkIndex _ = sub at hsub hcontent hindex hall
  have hcovers : Covers para.length 0 (windows chunkSize overlap para.length para.length 0) := by
    apply windows_cover hlt (by omega)
    omega
  have hgroup : headerAt T ps (.large i (windows chunkSize overlap para.length para.length 0)) =
      s.currentHeader := hheader.symm
  refine ⟨sub, hsub, ?_⟩
  rintro s' gs ⟨new, hnew, hindices, hchunked⟩
  refine ⟨sub ++ new, by rw [hnew, List.append_assoc], ?_,
    .large hpara hcovers hcontent (by rwa [hgroup]) hchunked⟩
  rw [List.map_append, hindices, hindex, List.length_append, List.range'_append_1]

theorem emits_append {ns : List ℕ} (hlt : overlap < chunkSize) (hpara : ps[i]? = some para)
    (hheader : s.currentHeader = lastStart T (ps.take i))
    (h : Holds ps overlap i previous s current) :
    ∃ u current' previous', (∀ fuel, para.length < fuel →
        addParagraph T fuel chunkSize overlap s para = some u) ∧
      u.currentHeader = lastStart T (ps.take (i + 1)) ∧ Holds ps overlap (i + 1) previous' u current' ∧
      ∀ s', Emits T ps overlap (position (i + 1) current') previous' u s'
          (packFrom chunkSize overlap (i + 1) current' ns) →
        Emits T ps overlap (position i current) previous s s'
          (packFrom chunkSize overlap i current (para.length :: ns)) := by
  have hi : i ≤ ps.length := Nat.le_of_lt (List.getElem?_eq_some_iff.mp hpara).1
  have htake : ps.take (i + 1) = ps.take i ++ [para] := by
    rw [List.take_add_one, hpara]
    rfl
  have htrack : trackHeader T para s = { s with currentHeader := lastStart T (ps.take (i + 1)) } := by
    rw [trackHeader_eq, htake, lastStart_concat, hheader]
  have ht : Holds ps overlap i previous (trackHeader T para s) current := by
    rw [htrack]
    exact h
  have htheader : (trackHeader T para s).currentHeader = lastStart T (ps.take (i + 1)) := by
    rw [htrack]
  have hflush : (flush (trackHeader T para s)).currentHeader = lastStart T (ps.take (i + 1)) := by
    rw [flush_header, htheader]
  by_cases hlarge : chunkSize < tokensOf para.length
  · obtain ⟨hparts, htokens⟩ := ht.flushed hi
    obtain ⟨sub, hsub, hlift⟩ := emits_large hlt hpara hflush
    refine ⟨_, none, [], fun fuel hfuel => addParagraph_large hlarge (hsub fuel hfuel), hflush, ⟨hparts, htokens, rfl⟩, ?_⟩
    intro s' hemits
    rw [packFrom_large hlarge]
    have hclosed := emits_close ht hi htheader rfl rfl (hlift hemits)
    rwa [htrack] at hclosed
  · cases current with
    | none =>
        obtain ⟨hparts, htokens, rfl⟩ := h
        have hfits : ¬(chunkSize < s.currentTokens + tokensOf para.length ∧ s.currentParts ≠ []) :=
          fun hover => hover.2 hparts
        have hwaiting : Waiting ps overlap (i + 1) [] (s.currentParts ++ [para])
            (s.currentTokens + tokensOf para.length) (.start i 0 para.length) := by
          have hstart := waiting_start overlap [] hpara
          have htokens' : tokensOf para.length = (OpenRun.start i 0 para.length).tokens := rfl
          rw [hparts, htokens, Nat.zero_add, htokens']
          simpa [carried] using hstart
        refine ⟨_, some (.start i 0 para.length), [], fun fuel _ => addParagraph_fits hlarge hfits, htheader,
          hwaiting, ?_⟩
        intro s' hemits
        rw [packFrom, if_neg hlarge]
        rw [htrack] at hemits
        exact hemits
    | some r =>
        have hwaiting : Waiting ps overlap i previous s.currentParts s.currentTokens r := h
        have hne := hwaiting.parts_ne hi
        by_cases hover : chunkSize < r.tokens + tokensOf para.length
        · have hover' : chunkSize < s.currentTokens + tokensOf para.length := by
            rwa [hwaiting.tokens_eq]
          refine ⟨_, some (.start i (min r.chars (overlap * 4)) para.length), joinParts s.currentParts,
            fun fuel _ => addParagraph_over i hlarge hover' hne, hflush, ?_, ?_⟩
          · rw [← hwaiting.chars_eq]
            exact waiting_start _ _ hpara
          · intro s' hemits
            rw [packFrom, if_neg hlarge]
            simp only [if_pos hover]
            rw [position, OpenRun.start_first] at hemits
            have hparts : (trackHeader T para s).currentParts = s.currentParts := by rw [htrack]
            have hclosed := emits_close ht hi htheader rfl rfl (by rwa [hparts])
            rwa [htrack] at hclosed
        · have hfits : ¬(chunkSize < s.currentTokens + tokensOf para.length ∧ s.currentParts ≠ []) := by
            rw [hwaiting.tokens_eq]
            exact fun h => hover h.1
          refine ⟨_, some ⟨r.first, r.count + 1, r.chars + 2 + para.length,
              r.tokens + tokensOf para.length⟩, previous, fun fuel _ => addParagraph_fits hlarge hfits, htheader,
            hwaiting.extend hpara, ?_⟩
          intro s' hemits
          rw [packFrom, if_neg hlarge]
          simp only [if_neg hover]
          rw [htrack] at hemits
          exact hemits

theorem loop_emits (hlt : overlap < chunkSize) (hi : i ≤ ps.length) (hrest : ps.drop i = rest)
    (hheader : s.currentHeader = lastStart T (ps.take i))
    (h : Holds ps overlap i previous s current) :
    ∃ s', (∀ fuel, (∀ p ∈ rest, p.length < fuel) →
        rest.foldlM (addParagraph T fuel chunkSize overlap) s = some s') ∧
      Emits T ps overlap (position i current) previous s s'
        (packFrom chunkSize overlap i current (rest.map List.length)) := by
  induction rest generalizing i s current previous with
  | nil =>
      have hend : i = ps.length := Nat.le_antisymm hi (List.drop_eq_nil_iff.mp hrest)
      have hdone : Emits T ps overlap i (joinParts s.currentParts) (flush s) s [] := by
        refine ⟨[], by simp, rfl, ?_⟩
        rw [hend]
        exact .done
      refine ⟨s, fun fuel _ => rfl, ?_⟩
      have hclosed := emits_close h hi (by
        rw [hheader, List.take_of_length_le hend.ge, List.take_of_length_le (by omega)]) rfl rfl hdone
      rwa [List.append_nil] at hclosed
  | cons para rest ih =>
      have hpara : ps[i]? = some para := by
        rw [← List.head?_drop, hrest]
        rfl
      have hdrop : ps.drop (i + 1) = rest := by
        rw [← List.tail_drop, hrest]
        rfl
      obtain ⟨u, current', previous', hstep, huheader, hu, hlift⟩ :=
        emits_append hlt hpara hheader h
      obtain ⟨s', hrun, hemits⟩ := ih (List.getElem?_eq_some_iff.mp hpara).1 hdrop huheader hu
      refine ⟨s', ?_, hlift s' hemits⟩
      intro fuel hfuel
      obtain ⟨hpara, hrest⟩ := List.forall_mem_cons.mp hfuel
      rw [List.foldlM_cons, hstep fuel hpara]
      exact hrun fuel hrest

end Loop

section Groups
variable {g : Group} {gs : List Group} {chunks : List Chunk} {i : ℕ} {previous : List Char}
  {headerOf headerOf' : Group → Option (List Char)} {ws : List (ℕ × ℕ)}

def Trimmed (T : CharTable) (para : List Char) : Prop :=
  ∃ c rest, para = c :: rest ∧ T.isSpace c = false

theorem trimmed_paragraph (h : para ∈ splitParagraphs T text) : Trimmed T para := by
  obtain ⟨hmem, hne⟩ := List.mem_filter.mp h
  obtain ⟨raw, -, rfl⟩ := List.mem_map.mp hmem
  obtain ⟨c, rest, hcons⟩ := List.exists_cons_of_ne_nil (of_decide_eq_true hne)
  refine ⟨c, rest, hcons, ?_⟩
  have hhead : (Lines.trim T.isSpace raw).head? = some c := by
    rw [hcons]
    rfl
  exact Lines.head_trim hhead

theorem pieces_ne_nil (hpara : Trimmed T para) (hcovers : Covers para.length 0 ws) :
    pieces T para ws ≠ [] := by
  obtain ⟨c, rest, rfl, hc⟩ := hpara
  cases hcovers with
  | next hstart hstop _ _ =>
      obtain rfl := Nat.le_zero.mp hstart
      obtain ⟨n, hn⟩ := Nat.exists_eq_succ_of_ne_zero (Nat.ne_zero_of_lt hstop)
      have hsolid : Lines.trim T.isSpace (c :: rest.take n) ≠ [] := by
        rw [← List.nil_append (c :: rest.take n), Lines.trim_append_cons (by simp) hc]
        exact List.cons_ne_nil _ _
      rw [hn]
      simp [pieces, hsolid]

theorem shown_of_mkChunk {content content' : List Char} {header' : Option (List Char)}
    {index index' : ℕ} (h : mkChunk content header index = mkChunk content' header' index') :
    shown header = shown header' := congrArg (fun c => c.metadata.sectionHeader) h

theorem mkChunk_congr {content : List Char} {header' : Option (List Char)} {index : ℕ}
    (h : shown header = shown header') :
    mkChunk content header index = mkChunk content header' index := by
  have hmeta : chunkMetadata header index = chunkMetadata header' index :=
    congrArg (ChunkMetadata.mk index) h
  rw [mkChunk, mkChunk, hmeta]

theorem Chunked.agree {chunks' : List Chunk} (hps : ∀ p ∈ ps, Trimmed T p)
    (h : Chunked T ps overlap headerOf i previous gs chunks)
    (h' : Chunked T ps overlap headerOf' i previous gs chunks') (heq : chunks = chunks') :
    ∀ g ∈ gs, shown (headerOf g) = shown (headerOf' g) := by
  induction h generalizing chunks' with
  | done => simp
  | run hcount hle hcontent _ ih =>
      cases h' with
      | run _ _ hcontent' hrest' =>
          obtain ⟨hhead, htail⟩ := List.cons.inj heq
          rw [← hcontent] at hcontent'
          subst hcontent'
          exact List.forall_mem_cons.mpr ⟨shown_of_mkChunk hhead, ih hrest' htail⟩
  | @large i _ para ws block gs chunks hpara hcovers hcontent hall _ ih =>
      cases h' with
      | @large _ _ para' _ block' _ chunks' hpara' _ hcontent' hall' hrest' =>
          obtain rfl : para = para' := Option.some.inj (hpara.symm.trans hpara')
          have hlength : block.length = block'.length := by
            rw [← List.length_map Chunk.content, hcontent, ← hcontent', List.length_map]
          obtain ⟨rfl, htail⟩ := List.append_inj heq hlength
          refine List.forall_mem_cons.mpr ⟨?_, ih hrest' htail⟩
          have hblock : block ≠ [] := by
            rintro rfl
            have htrimmed := hps para (List.mem_of_getElem? hpara)
            exact pieces_ne_nil htrimmed hcovers hcontent.symm
          obtain ⟨c, rest, rfl⟩ := List.exists_cons_of_ne_nil hblock
          apply shown_of_mkChunk
          exact (hall c List.mem_cons_self).symm.trans (hall' c List.mem_cons_self)

theorem Chunked.congr (h : Chunked T ps overlap headerOf i previous gs chunks)
    (hagree : ∀ g ∈ gs, shown (headerOf g) = shown (headerOf' g)) :
    Chunked T ps overlap headerOf' i previous gs chunks := by
  induction h with
  | done => exact .done
  | run hcount hle hcontent _ ih =>
      obtain ⟨hg, hrest⟩ := List.forall_mem_cons.mp hagree
      rw [mkChunk_congr hg]
      exact .run hcount hle hcontent (ih hrest)
  | large hpara hcovers hcontent hall _ ih =>
      obtain ⟨hg, hrest⟩ := List.forall_mem_cons.mp hagree
      refine .large hpara hcovers hcontent ?_ (ih hrest)
      intro c hc
      rw [← mkChunk_congr hg]
      exact hall c hc

end Groups

theorem chunkText_chunked (T : CharTable) (text : List Char) (hlt : overlap < chunkSize) :
    ∃ chunks, (∃ bound, ∀ fuel, bound ≤ fuel →
        chunkText T fuel text chunkSize overlap = some chunks) ∧
      chunks.map Chunk.index = List.range chunks.length ∧
      Chunked T (splitParagraphs T text) overlap (headerAt T (splitParagraphs T text)) 0 []
        (pack chunkSize overlap ((splitParagraphs T text).map List.length)) chunks := by
  by_cases hblank : Lines.trim T.isSpace text = []
  · have hnone : splitParagraphs T text = [] := by
      rw [splitParagraphs, hblank]
      rfl
    refine ⟨[], ⟨0, fun fuel _ => if_pos hblank⟩, rfl, ?_⟩
    rw [hnone]
    exact .done
  · have hstart : Holds (splitParagraphs T text) overlap 0 [] ⟨[], [], 0, none, 0⟩ none :=
      ⟨rfl, rfl, rfl⟩
    obtain ⟨s, hrun, new, hnew, hindices, hchunked⟩ := loop_emits hlt (Nat.zero_le _)
      List.drop_zero rfl hstart
    refine ⟨new, ⟨(splitParagraphs T text).flatten.length + 1, ?_⟩, ?_, hchunked⟩
    · intro fuel hfuel
      have hlong : ∀ p ∈ splitParagraphs T text, p.length < fuel := by
        intro p hp
        have hle := (List.sublist_flatten_of_mem hp).length_le
        omega
      rw [chunkText, if_neg hblank, hrun fuel hlong, Option.map_some, hnew, List.nil_append]
    · rw [hindices, List.range_eq_range']

theorem settled_of_right (hlt : overlap < chunkSize) (h : HeadersRight T text chunkSize overlap) :
    HeadersSettled T (splitParagraphs T text) chunkSize overlap := by
  obtain ⟨chunks, ⟨bound, hrun⟩, -, hchunked⟩ := h
  obtain ⟨chunks', ⟨bound', hrun'⟩, -, hchunked'⟩ := chunkText_chunked T text hlt
  have hsame := (hrun (max bound bound') (le_max_left _ _)).symm.trans
    (hrun' (max bound bound') (le_max_right _ _))
  exact hchunked.agree (fun p hp => trimmed_paragraph hp) hchunked' (Option.some.inj hsame)

-- The headers are right exactly where no chunk is closed after a further header was read.
theorem headers_right_iff_settled (T : CharTable) (text : List Char) (chunkSize overlap : ℕ)
    (hlt : overlap < chunkSize) : HeadersRight T text chunkSize overlap ↔
      HeadersSettled T (splitParagraphs T text) chunkSize overlap := by
  constructor
  · exact settled_of_right hlt
  · intro hsettled
    obtain ⟨chunks, hrun, hindices, hchunked⟩ := chunkText_chunked T text hlt
    exact ⟨chunks, hrun, hindices, hchunked.congr fun g hg => (hsettled g hg).symm⟩

theorem headers_right_intro : HeadersRight .ascii "# A\n\nb\n\nc\n\nd".toList 2 1 ↔
    HeadersSettled .ascii (splitParagraphs .ascii "# A\n\nb\n\nc\n\nd".toList) 2 1 :=
  headers_right_iff_settled .ascii _ 2 1 (by decide)

-- The paragraph `# B` does not fit: the chunk of `# A` is closed after it was read.
theorem next_header_on_chunk :
    ¬HeadersRight .ascii "# A\n\nb\n\n# B\n\nc".toList 2 0 := by
  intro hright
  have hsettled := settled_of_right (by decide) hright
  have hparas : splitParagraphs .ascii "# A\n\nb\n\n# B\n\nc".toList =
      ["# A".toList, "b".toList, "# B".toList, "c".toList] := by decide +kernel
  rw [hparas] at hsettled
  have hfirst := hsettled (.run 0 2) (by decide +kernel)
  exact absurd hfirst (by decide +kernel)

end ChunkingService

end BTagent
