import BTagent.Lib.Machine
import BTagent.Memory.RecallSurvives

namespace BTagent

namespace MemoryService

variable {F : Type}

def MEMORY_KINDS : List String := ["entity_note", "decision", "learning", "observation"]

-- The arguments of `record_memory`.
structure MemoryRecord (F : Type) where
  orgId : String
  kind : String
  subject : String
  content : String
  source : String
  confidence : Option F
  tlpLevel : String

namespace MemoryRecord

def level (r : MemoryRecord F) : TLP := coerceTlp (some r.tlpLevel) .green .red

def isKey (r : MemoryRecord F) (row : AgentMemoryRow F) : Bool :=
  row.orgId = r.orgId ∧ row.kind = r.kind ∧ row.subject = r.subject

def overwrite (r : MemoryRecord F) (now : ℤ) (row : AgentMemoryRow F) : AgentMemoryRow F :=
  { row with
    content := r.content
    source := r.source
    confidence := r.confidence
    tlpLevel := r.level.value
    updatedAt := now
    supersededAt := none }

def insert (r : MemoryRecord F) (id : String) (now : ℤ) : AgentMemoryRow F where
  id := id
  orgId := r.orgId
  kind := r.kind
  subject := r.subject
  content := r.content
  source := r.source
  confidence := r.confidence
  tlpLevel := r.level.value
  updatedAt := now
  supersededAt := none

end MemoryRecord

-- A write of the one row that has the id.
def updateRow (id : String) (f : AgentMemoryRow F → AgentMemoryRow F)
    (rows : List (AgentMemoryRow F)) : List (AgentMemoryRow F) :=
  rows.map fun row => if row.id = id then f row else row

-- The rows after the upsert, and the id of the row it gives back; a call that raises is `none`.
def recordMemory (r : MemoryRecord F) (id : String) (now : ℤ) (rows : List (AgentMemoryRow F)) :
    Option (List (AgentMemoryRow F) × String) :=
  if r.kind ∉ MEMORY_KINDS ∨ r.subject = "" then none
  else
    match rows.find? r.isKey with
    | some old => some (updateRow old.id (r.overwrite now) rows, old.id)
    | none =>
        if id ∈ rows.map (·.id) then none else some (rows ++ [r.insert id now], id)

structure ForgetCall where
  orgId : String
  memoryId : String
  callerTlp : Option String
  stamp : ℤ
  flushedAt : ℤ

def forgetMemory (f : ForgetCall) (rows : List (AgentMemoryRow F)) :
    List (AgentMemoryRow F) × Option String :=
  let clearance := coerceTlp f.callerTlp .green .white
  match rows.find? fun row =>
      inScope f.orgId clearance none none true row && row.id = f.memoryId with
  | none => (rows, none)
  | some old =>
      (updateRow old.id (fun row =>
        { row with supersededAt := some f.stamp, updatedAt := f.flushedAt }) rows, some old.id)

-- What orders the rows that have an embedding by their distance from the query's.
structure VectorSearch (F : Type) where
  embedded : AgentMemoryRow F → Bool
  nearer : AgentMemoryRow F → AgentMemoryRow F → Bool

-- Without a search there is no PostgreSQL, no embedding of the query, or the search failed.
def recallSemantic (rows : List (AgentMemoryRow F)) (search : Option (VectorSearch F))
    (orgId : String) (subject kind : Option String) (limit : ℤ) (callerTlp : Option String) :
    List (AgentMemoryRow F) :=
  let clearance := coerceTlp callerTlp .green .white
  let fallback := recallMemories rows orgId subject kind (max 1 limit) (some clearance.value) false
  match search with
  | none => fallback
  | some search =>
      let found := (((rows.filter fun row =>
        inScope orgId clearance subject kind true row && search.embedded row).mergeSort
          search.nearer).take (max 1 limit).toNat)
      if found = [] then fallback else found

inductive MemoryCall (F : Type) where
  | record (r : MemoryRecord F) (id : String) (now : ℤ)
  | forget (f : ForgetCall)
  | consolidate (run : Consolidation F)

def MemoryCall.orgId : MemoryCall F → String
  | .record r _ _ => r.orgId
  | .forget f => f.orgId
  | .consolidate run => run.orgId

-- What a call gave back.
inductive MemoryAnswer (F : Type) where
  | recorded (r : MemoryRecord F) (id : String)
  | forgotten (id : Option String)
  | consolidated (supersededIds : List String)

def perform (T : CharTable) (S : ScoreOps F) (rows : List (AgentMemoryRow F)) :
    MemoryCall F → Option (List (AgentMemoryRow F) × MemoryAnswer F)
  | .record r id now => (recordMemory r id now rows).map fun p => (p.1, .recorded r p.2)
  | .forget f => some ((forgetMemory f rows).1, .forgotten (forgetMemory f rows).2)
  | .consolidate run =>
      some ((consolidateMemories T S run rows).1,
        .consolidated (consolidateMemories T S run rows).2.supersededIds)

-- The table, and what was answered to which organisation.
structure MemoryStore (F : Type) where
  rows : List (AgentMemoryRow F)
  log : List (String × MemoryAnswer F)

namespace MemoryStore

def empty : MemoryStore F := ⟨[], []⟩

def machine (T : CharTable) (S : ScoreOps F) : Machine (MemoryStore F) (MemoryCall F) where
  step s c := (perform T S s.rows c).map fun p => ⟨p.1, s.log ++ [(c.orgId, p.2)]⟩

-- What one organisation can see of the store.
def own (orgId : String) (s : MemoryStore F) : MemoryStore F :=
  ⟨s.rows.filter (·.orgId = orgId), s.log.filter (·.1 = orgId)⟩

variable {T : CharTable} {S : ScoreOps F} {s s' t : MemoryStore F} {c : MemoryCall F}
  {calls : List (MemoryCall F)} {rows rows' : List (AgentMemoryRow F)} {row old : AgentMemoryRow F}
  {a : MemoryAnswer F} {id id' orgId : String} {f : AgentMemoryRow F → AgentMemoryRow F}
  {r : MemoryRecord F} {now : ℤ}

theorem machine_step : (machine T S).step s c = some s' ↔
    ∃ rows a, perform T S s.rows c = some (rows, a) ∧ s' = ⟨rows, s.log ++ [(c.orgId, a)]⟩ := by
  simp only [machine, Option.map_eq_some_iff, Prod.exists]
  constructor <;> rintro ⟨rows, a, h, rfl⟩ <;> exact ⟨rows, a, h, rfl⟩

section Rows

def key (row : AgentMemoryRow F) : String × String × String := (row.orgId, row.kind, row.subject)

-- How a call moves the rows: it rewrites some, each to one of the same id and key, or adds one.
inductive Moves (rows : List (AgentMemoryRow F)) : List (AgentMemoryRow F) → Prop where
  | rewrite (f : AgentMemoryRow F → AgentMemoryRow F)
      (h : ∀ row, (f row).id = row.id ∧ key (f row) = key row) : Moves rows (rows.map f)
  | add (row : AgentMemoryRow F) (hid : row.id ∉ rows.map (·.id)) (hkey : key row ∉ rows.map key)
      (hkind : row.kind ∈ MEMORY_KINDS) : Moves rows (rows ++ [row])

theorem moves_updateRow (hf : ∀ row, (f row).id = row.id ∧ key (f row) = key row) :
    Moves rows (updateRow id f rows) := by
  refine .rewrite _ fun row => ?_
  split
  · exact hf row
  · exact ⟨rfl, rfl⟩

theorem consolidate_eq (run : Consolidation F) :
    (consolidateMemories T S run rows).1 = rows.map fun row =>
      (mergedClusters T S run rows).foldl (rewrite T S run.stamp run.flushedAt) row := by
  rw [consolidateMemories, foldl_map_rewrite]

theorem foldl_key {clusters : List (Cluster F)} {stamp flushedAt : ℤ} :
    key (clusters.foldl (rewrite T S stamp flushedAt) row) = key row := by
  have hsame : SameFact row (clusters.foldl (rewrite T S stamp flushedAt) row) := foldl_same
  rw [key, key, hsame.orgId, hsame.kind, hsame.subject]

theorem isKey_iff : r.isKey row = true ↔ key row = (r.orgId, r.kind, r.subject) := by
  simp [MemoryRecord.isKey, key]

theorem record_cases (h : recordMemory r id now rows = some (rows', id')) :
    r.kind ∈ MEMORY_KINDS ∧
      ((∃ old, rows.find? r.isKey = some old ∧ id' = old.id ∧
          rows' = updateRow old.id (r.overwrite now) rows) ∨
        (rows.find? r.isKey = none ∧ id' = id ∧ id ∉ rows.map (·.id) ∧
          rows' = rows ++ [r.insert id now])) := by
  unfold recordMemory at h
  split at h
  · cases h
  · next hbad =>
      refine ⟨not_not.mp (not_or.mp hbad).1, ?_⟩
      split at h
      · next old hfind =>
          cases h
          exact Or.inl ⟨old, hfind, rfl, rfl⟩
      · next hfind =>
          split at h
          · cases h
          · next hfresh =>
              cases h
              exact Or.inr ⟨hfind, rfl, hfresh, rfl⟩

theorem forget_cases (f : ForgetCall) (rows : List (AgentMemoryRow F)) :
    (forgetMemory f rows = (rows, none)) ∨
      ∃ old ∈ rows, old.orgId = f.orgId ∧ forgetMemory f rows =
        (updateRow old.id (fun row =>
          { row with supersededAt := some f.stamp, updatedAt := f.flushedAt }) rows,
          some old.id) := by
  unfold forgetMemory
  dsimp only
  split
  · exact Or.inl rfl
  · next old hfind =>
      have hscope := List.find?_some hfind
      rw [Bool.and_eq_true, inScope, decide_eq_true_eq] at hscope
      exact Or.inr ⟨old, List.mem_of_find?_eq_some hfind, hscope.1.1, rfl⟩

theorem moves_perform (h : perform T S rows c = some (rows', a)) : Moves rows rows' := by
  cases c with
  | record r id now =>
      obtain ⟨⟨rows₁, id₁⟩, hrecord, heq⟩ := Option.map_eq_some_iff.mp h
      cases heq
      obtain ⟨hkind, ⟨old, -, -, rfl⟩ | ⟨hnone, -, hfresh, rfl⟩⟩ := record_cases hrecord
      · exact moves_updateRow fun row => ⟨rfl, rfl⟩
      · refine .add _ hfresh ?_ hkind
        intro hkey
        obtain ⟨row, hrow, hsame⟩ := List.mem_map.mp hkey
        exact List.find?_eq_none.mp hnone row hrow (isKey_iff.mpr hsame)
  | forget f =>
      cases h
      rcases forget_cases f rows with hnone | ⟨old, -, -, hsome⟩
      · rw [hnone]
        have hmoves : Moves rows (rows.map id) := .rewrite id fun row => ⟨rfl, rfl⟩
        rwa [List.map_id] at hmoves
      · rw [hsome]
        exact moves_updateRow fun row => ⟨rfl, rfl⟩
  | consolidate run =>
      cases h
      rw [consolidate_eq]
      exact .rewrite _ fun row => ⟨foldl_same.id, foldl_key⟩

theorem Moves.nodup {κ : Type} {g : AgentMemoryRow F → κ} (h : Moves rows rows')
    (hg : ∀ row row' : AgentMemoryRow F, row'.id = row.id → key row' = key row → g row' = g row)
    (hadd : ∀ row : AgentMemoryRow F, row.id ∉ rows.map (·.id) → key row ∉ rows.map key →
      g row ∉ rows.map g) (hnodup : (rows.map g).Nodup) : (rows'.map g).Nodup := by
  cases h with
  | rewrite f hf =>
      have hsame : (rows.map f).map g = rows.map g := by
        rw [List.map_map]
        exact List.map_congr_left fun row _ => hg row (f row) (hf row).1 (hf row).2
      rwa [hsame]
  | add row hid hkey _ =>
      rw [List.map_append, List.map_singleton, ← List.concat_eq_append]
      exact hnodup.concat (hadd row hid hkey)

theorem Moves.ids_nodup (h : Moves rows rows') (hids : (rows.map (·.id)).Nodup) :
    (rows'.map (·.id)).Nodup :=
  h.nodup (fun _ _ hid _ => hid) (fun _ hid _ => hid) hids

theorem Moves.keys_nodup (h : Moves rows rows') (hkeys : (rows.map key).Nodup) :
    (rows'.map key).Nodup :=
  h.nodup (fun _ _ _ hkey => hkey) (fun _ _ hkey => hkey) hkeys

theorem Moves.kinds (h : Moves rows rows') (hkinds : ∀ row ∈ rows, row.kind ∈ MEMORY_KINDS) :
    ∀ row ∈ rows', row.kind ∈ MEMORY_KINDS := by
  cases h with
  | rewrite f hf =>
      intro row hrow
      obtain ⟨old, hold, rfl⟩ := List.mem_map.mp hrow
      have hkind : (f old).kind = old.kind := (Prod.ext_iff.mp (Prod.ext_iff.mp (hf old).2).2).1
      rw [hkind]
      exact hkinds old hold
  | add row _ _ hkind =>
      intro row' hrow
      rcases List.mem_append.mp hrow with hrow | hrow
      · exact hkinds row' hrow
      · rw [List.mem_singleton.mp hrow]
        exact hkind

end Rows

section Isolation

theorem own_find {p : AgentMemoryRow F → Bool} (h : ∀ row, p row = true → row.orgId = orgId) :
    (rows.filter (·.orgId = orgId)).find? p = rows.find? p := by
  rw [List.find?_filter]
  congr 1
  funext row
  cases hp : p row with
  | false => simp
  | true => simp [h row hp]

theorem own_map (hf : ∀ row, (f row).orgId = row.orgId) :
    (rows.map f).filter (·.orgId = orgId) = (rows.filter (·.orgId = orgId)).map f := by
  rw [List.filter_map]
  congr 1
  exact List.filter_congr fun row _ => by rw [Function.comp_apply, hf]

theorem own_updateRow (hf : ∀ row, (f row).orgId = row.orgId) :
    (updateRow id f rows).filter (·.orgId = orgId) =
      updateRow id f (rows.filter (·.orgId = orgId)) := by
  apply own_map
  intro row
  split
  · exact hf row
  · rfl

-- A write to a row of one organisation leaves the rows of the others.
theorem own_updateRow_other (hids : (rows.map (·.id)).Nodup) (hold : old ∈ rows)
    (hother : old.orgId ≠ orgId) (hf : ∀ row, (f row).orgId = row.orgId) :
    (updateRow old.id f rows).filter (·.orgId = orgId) = rows.filter (·.orgId = orgId) := by
  rw [own_updateRow hf, updateRow]
  refine (List.map_congr_left fun row hrow => if_neg ?_).trans (List.map_id _)
  rintro hid
  obtain ⟨hmem, horg⟩ := List.mem_filter.mp hrow
  obtain rfl := List.inj_on_of_nodup_map hids hmem hold hid
  exact hother (of_decide_eq_true horg)

theorem own_scanned (run : Consolidation F) :
    scannedRows run (rows.filter (·.orgId = run.orgId)) = scannedRows run rows := by
  rw [scannedRows, scannedRows, List.filter_filter]
  refine List.filter_congr fun row _ => ?_
  by_cases horg : row.orgId = run.orgId <;> simp [horg]

theorem own_merged (run : Consolidation F) :
    mergedClusters T S run (rows.filter (·.orgId = run.orgId)) = mergedClusters T S run rows := by
  rw [mergedClusters, mergedClusters, own_scanned]

theorem foldl_untouched {clusters : List (Cluster F)} {stamp flushedAt : ℤ}
    (h : ∀ c ∈ clusters, row.id ∉ c.members.map (·.id)) :
    clusters.foldl (rewrite T S stamp flushedAt) row = row := by
  induction clusters with
  | nil => rfl
  | cons c clusters ih =>
      obtain ⟨hc, hrest⟩ := List.forall_mem_cons.mp h
      rw [Cluster.members, List.map_cons, List.mem_cons, not_or] at hc
      have hsame : rewrite T S stamp flushedAt row c = row := by
        rw [rewrite, if_neg hc.1, if_neg hc.2]
      rw [List.foldl_cons, hsame]
      exact ih hrest

theorem consolidate_other {run : Consolidation F} (hids : (rows.map (·.id)).Nodup)
    (hother : run.orgId ≠ orgId) :
    (consolidateMemories T S run rows).1.filter (·.orgId = orgId) =
      rows.filter (·.orgId = orgId) := by
  rw [consolidate_eq, own_map fun row => foldl_same.orgId]
  refine (List.map_congr_left fun row hrow => foldl_untouched ?_).trans (List.map_id _)
  intro c hc hid
  obtain ⟨m, hm, hid⟩ := List.mem_map.mp hid
  obtain ⟨_, _, -, -, hrows⟩ := mem_merged hc
  obtain ⟨hstored, horg, -⟩ := mem_scanned (hrows m hm).1
  obtain ⟨hmem, hrow⟩ := List.mem_filter.mp hrow
  obtain rfl := List.inj_on_of_nodup_map hids hstored hmem hid
  exact hother (horg.symm.trans (of_decide_eq_true hrow))

theorem perform_own (h : perform T S rows c = some (rows', a)) :
    perform T S (rows.filter (·.orgId = c.orgId)) c =
      some (rows'.filter (·.orgId = c.orgId), a) := by
  cases c with
  | record r id now =>
      obtain ⟨⟨rows₁, id₁⟩, hrecord, heq⟩ := Option.map_eq_some_iff.mp h
      cases heq
      have hfind : (rows.filter (·.orgId = r.orgId)).find? r.isKey = rows.find? r.isKey :=
        own_find fun row hkey => (of_decide_eq_true hkey).1
      rw [perform, MemoryCall.orgId, Option.map_eq_some_iff]
      refine ⟨(rows₁.filter (·.orgId = r.orgId), id₁), ?_, rfl⟩
      have hbad : ¬(r.kind ∉ MEMORY_KINDS ∨ r.subject = "") := by
        intro hbad
        rw [recordMemory, if_pos hbad] at hrecord
        cases hrecord
      obtain ⟨-, ⟨old, hold, rfl, rfl⟩ | ⟨hnone, rfl, hfresh, rfl⟩⟩ := record_cases hrecord
      · have hmove : (updateRow old.id (r.overwrite now) rows).filter (·.orgId = r.orgId) =
            updateRow old.id (r.overwrite now) (rows.filter (·.orgId = r.orgId)) :=
          own_updateRow fun row => rfl
        rw [recordMemory, if_neg hbad, hfind, hold, hmove]
      · have hfresh' : id₁ ∉ (rows.filter (·.orgId = r.orgId)).map (·.id) := by
          intro hmem
          obtain ⟨row, hrow, hid⟩ := List.mem_map.mp hmem
          exact hfresh (List.mem_map.mpr ⟨row, List.mem_of_mem_filter hrow, hid⟩)
        rw [recordMemory, if_neg hbad, hfind, hnone, if_neg hfresh', List.filter_append]
        simp [MemoryRecord.insert]
  | forget f =>
      cases h
      have hfind : (rows.filter (·.orgId = f.orgId)).find? (fun row =>
          inScope f.orgId (coerceTlp f.callerTlp .green .white) none none true row &&
            row.id = f.memoryId) = rows.find? fun row =>
          inScope f.orgId (coerceTlp f.callerTlp .green .white) none none true row &&
            row.id = f.memoryId := by
        refine own_find fun row hscope => ?_
        rw [Bool.and_eq_true, inScope, decide_eq_true_eq] at hscope
        exact hscope.1.1
      rw [perform, MemoryCall.orgId, forgetMemory, hfind, forgetMemory]
      cases rows.find? _ with
      | none => rfl
      | some old =>
          have hmove : (updateRow old.id (fun row =>
              { row with supersededAt := some f.stamp, updatedAt := f.flushedAt }) rows).filter
                (·.orgId = f.orgId) = updateRow old.id (fun row =>
              { row with supersededAt := some f.stamp, updatedAt := f.flushedAt })
                (rows.filter (·.orgId = f.orgId)) :=
            own_updateRow fun row => rfl
          simp only [hmove]
  | consolidate run =>
      cases h
      have hids :
          (consolidateMemories T S run (rows.filter (·.orgId = run.orgId))).2.supersededIds =
            (consolidateMemories T S run rows).2.supersededIds := by
        rw [consolidateMemories, consolidateMemories, own_merged]
      rw [perform, MemoryCall.orgId, hids, consolidate_eq, consolidate_eq, own_merged,
        own_map fun row => foldl_same.orgId]

theorem perform_other (hids : (rows.map (·.id)).Nodup) (hother : c.orgId ≠ orgId)
    (h : perform T S rows c = some (rows', a)) :
    rows'.filter (·.orgId = orgId) = rows.filter (·.orgId = orgId) := by
  cases c with
  | record r id now =>
      obtain ⟨⟨rows₁, id₁⟩, hrecord, heq⟩ := Option.map_eq_some_iff.mp h
      cases heq
      obtain ⟨-, ⟨old, hold, rfl, rfl⟩ | ⟨hnone, rfl, hfresh, rfl⟩⟩ := record_cases hrecord
      · have hkey : r.isKey old = true := List.find?_some hold
        have horg : old.orgId = r.orgId := (of_decide_eq_true hkey).1
        exact own_updateRow_other hids (List.mem_of_find?_eq_some hold)
          (fun h => hother (horg.symm.trans h)) fun row => rfl
      · have hnew : (r.insert id₁ now).orgId ≠ orgId := hother
        simp [hnew]
  | forget f =>
      cases h
      rcases forget_cases f rows with hnone | ⟨old, hold, horg, hsome⟩
      · rw [hnone]
      · rw [hsome]
        exact own_updateRow_other hids hold (fun h => hother (horg.symm.trans h)) fun row => rfl
  | consolidate run =>
      cases h
      exact consolidate_other hids hother

theorem run_own (hids : (s.rows.map (·.id)).Nodup) (h : (machine T S).run s calls = some t) :
    (machine T S).run (s.own orgId) (calls.filter (·.orgId = orgId)) = some (t.own orgId) := by
  induction calls generalizing s with
  | nil =>
      cases h
      rfl
  | cons c calls ih =>
      obtain ⟨s', hstep, hrun⟩ := (machine T S).run_cons.mp h
      obtain ⟨rows, a, hperform, rfl⟩ := machine_step.mp hstep
      have hrest := ih ((moves_perform hperform).ids_nodup hids) hrun
      by_cases horg : c.orgId = orgId
      · subst horg
        rw [List.filter_cons_of_pos (by simp)]
        have hfirst := perform_own hperform
        refine (machine T S).run_cons.mpr ⟨_, machine_step.mpr ⟨_, _, hfirst, rfl⟩, ?_⟩
        simpa [own] using hrest
      · rw [List.filter_cons_of_neg (by simpa using horg)]
        simpa [own, perform_other hids horg hperform, horg] using hrest

theorem inScope_own {clearance : TLP} {subject kind : Option String} {live : Bool} :
    (rows.filter (·.orgId = orgId)).filter (inScope orgId clearance subject kind live) =
      rows.filter (inScope orgId clearance subject kind live) := by
  rw [List.filter_filter]
  refine List.filter_congr fun row _ => ?_
  by_cases horg : row.orgId = orgId <;> simp [inScope, horg]

theorem recall_own {subject kind callerTlp : Option String} {limit : ℤ} {superseded : Bool} :
    recallMemories (s.own orgId).rows orgId subject kind limit callerTlp superseded =
      recallMemories s.rows orgId subject kind limit callerTlp superseded := by
  rw [recallMemories, recallMemories, own, inScope_own]

theorem semantic_own {search : Option (VectorSearch F)} {subject kind callerTlp : Option String}
    {limit : ℤ} :
    recallSemantic (s.own orgId).rows search orgId subject kind limit callerTlp =
      recallSemantic s.rows search orgId subject kind limit callerTlp := by
  cases search with
  | none => exact recall_own
  | some search =>
      have hfound : ((s.own orgId).rows.filter fun row =>
          inScope orgId (coerceTlp callerTlp .green .white) subject kind true row &&
            search.embedded row) = s.rows.filter fun row =>
          inScope orgId (coerceTlp callerTlp .green .white) subject kind true row &&
            search.embedded row := by
        rw [own, List.filter_filter]
        refine List.filter_congr fun row _ => ?_
        by_cases horg : row.orgId = orgId <;> simp [inScope, horg]
      rw [recallSemantic, recallSemantic, hfound, recall_own]

-- An organisation is answered, and recalls, as if no other used the store.
theorem tenants_independent (h : (machine T S).run empty calls = some t) (orgId : String) :
    ∃ own, (machine T S).run empty (calls.filter (·.orgId = orgId)) = some own ∧
      own.log = t.log.filter (·.1 = orgId) ∧
      (∀ subject kind limit callerTlp superseded,
        recallMemories t.rows orgId subject kind limit callerTlp superseded =
          recallMemories own.rows orgId subject kind limit callerTlp superseded) ∧
      ∀ search subject kind limit callerTlp,
        recallSemantic t.rows search orgId subject kind limit callerTlp =
          recallSemantic own.rows search orgId subject kind limit callerTlp := by
  refine ⟨t.own orgId, run_own (s := empty) List.nodup_nil h, rfl, ?_, ?_⟩
  · intro subject kind limit callerTlp superseded
    exact recall_own.symm
  · intro search subject kind limit callerTlp
    exact semantic_own.symm

end Isolation

section Standing

-- What an answer tells of a memory: how it was last recorded, and whether it still stands.
def tell (id : String) (known : Option (MemoryRecord F × Bool)) :
    MemoryAnswer F → Option (MemoryRecord F × Bool)
  | .recorded r id' => if id' = id then some (r, true) else known
  | .forgotten gone => if gone = some id then known.map fun k => (k.1, false) else known
  | .consolidated gone => if id ∈ gone then known.map fun k => (k.1, false) else known

def told (s : MemoryStore F) (id : String) : Option (MemoryRecord F × Bool) :=
  s.log.foldl (fun known a => tell id known a.2) none

structure Describes (r : MemoryRecord F) (row : AgentMemoryRow F) : Prop where
  orgId : row.orgId = r.orgId
  kind : row.kind = r.kind
  subject : row.subject = r.subject
  content : row.content = r.content
  tlpLevel : row.tlpLevel = r.level.value

-- The table is what the answers tell.
structure Faithful (s : MemoryStore F) : Prop where
  ids : (s.rows.map (·.id)).Nodup
  keys : (s.rows.map key).Nodup
  kinds : ∀ row ∈ s.rows, row.kind ∈ MEMORY_KINDS
  rows : ∀ row ∈ s.rows, ∃ r, s.told row.id = some (r, row.supersededAt.isNone) ∧ Describes r row
  known : ∀ id p, s.told id = some p → id ∈ s.rows.map (·.id)

theorem faithful_empty : Faithful (empty : MemoryStore F) :=
  ⟨List.nodup_nil, List.nodup_nil, by nofun, by nofun, by nofun⟩

theorem told_answer (rows : List (AgentMemoryRow F)) :
    told ⟨rows, s.log ++ [(orgId, a)]⟩ id = tell id (s.told id) a := by
  rw [told, List.foldl_append]
  rfl

theorem Describes.same {row' : AgentMemoryRow F} (h : Describes r row) (hsame : SameFact row row') :
    Describes r row' :=
  ⟨hsame.orgId.trans h.orgId, hsame.kind.trans h.kind, hsame.subject.trans h.subject,
    hsame.content.trans h.content, hsame.tlpLevel.trans h.tlpLevel⟩

theorem tell_known {known : Option (MemoryRecord F × Bool)} {p : MemoryRecord F × Bool}
    (h : tell id known a = some p) (hnew : ∀ r, a ≠ .recorded r id) : known.isSome := by
  cases a with
  | recorded r id' =>
      rw [tell] at h
      split at h
      · next heq => exact absurd (by rw [heq]) (hnew r)
      · rw [h]; rfl
  | forgotten gone =>
      rw [tell] at h
      split at h
      · rw [← Option.isSome_map, h]; rfl
      · rw [h]; rfl
  | consolidated gone =>
      rw [tell] at h
      split at h
      · rw [← Option.isSome_map, h]; rfl
      · rw [h]; rfl

-- A row that is rewritten still says what was told of it.
def Tracked (s : MemoryStore F) (a : MemoryAnswer F) (row' : AgentMemoryRow F) : Prop :=
  ∃ r, tell row'.id (s.told row'.id) a = some (r, row'.supersededAt.isNone) ∧ Describes r row'

theorem tracked_record (hs : Faithful s) (h : recordMemory r id now s.rows = some (rows', id')) :
    ∀ row ∈ rows', Tracked s (.recorded r id') row := by
  obtain ⟨-, ⟨old, hold, rfl, rfl⟩ | ⟨-, rfl, hfresh, rfl⟩⟩ := record_cases h
  · have hkey : key old = (r.orgId, r.kind, r.subject) := isKey_iff.mp (List.find?_some hold)
    have hmem := List.mem_of_find?_eq_some hold
    intro row' hrow'
    obtain ⟨row, hrow, rfl⟩ := List.mem_map.mp hrow'
    split
    · next hid =>
        obtain rfl := List.inj_on_of_nodup_map hs.ids hrow hmem hid
        simp only [key, Prod.mk.injEq] at hkey
        exact ⟨r, if_pos rfl, hkey.1, hkey.2.1, hkey.2.2, rfl, rfl⟩
    · next hid =>
        obtain ⟨r', htold, hdescribes⟩ := hs.rows row hrow
        exact ⟨r', (if_neg (Ne.symm hid)).trans htold, hdescribes⟩
  · intro row hrow
    rcases List.mem_append.mp hrow with hrow | hrow
    · obtain ⟨r', htold, hdescribes⟩ := hs.rows row hrow
      have hid : id' ≠ row.id := fun hid => hfresh (hid ▸ List.mem_map_of_mem hrow)
      exact ⟨r', (if_neg hid).trans htold, hdescribes⟩
    · rw [List.mem_singleton.mp hrow]
      exact ⟨r, if_pos rfl, rfl, rfl, rfl, rfl, rfl⟩

theorem tracked_forget (hs : Faithful s) (f : ForgetCall) :
    ∀ row ∈ (forgetMemory f s.rows).1, Tracked s (.forgotten (forgetMemory f s.rows).2) row := by
  rcases forget_cases f s.rows with hnone | ⟨old, -, -, hsome⟩
  · rw [hnone]
    intro row hrow
    obtain ⟨r, htold, hdescribes⟩ := hs.rows row hrow
    have hkept : tell row.id (s.told row.id) (.forgotten none) = s.told row.id := by simp [tell]
    exact ⟨r, hkept.trans htold, hdescribes⟩
  · rw [hsome]
    intro row' hrow'
    obtain ⟨row, hrow, rfl⟩ := List.mem_map.mp hrow'
    obtain ⟨r, htold, hdescribes⟩ := hs.rows row hrow
    split
    · next hid =>
        refine ⟨r, ?_, hdescribes.orgId, hdescribes.kind, hdescribes.subject, hdescribes.content,
          hdescribes.tlpLevel⟩
        rw [tell, if_pos (by rw [hid]), htold]
        rfl
    · next hid =>
        refine ⟨r, (if_neg fun heq => hid ?_).trans htold, hdescribes⟩
        exact (Option.some.inj heq).symm

-- Consolidation supersedes the rows whose ids it gives back, and no others.
theorem consolidated_isNone {run : Consolidation F} (hids : (rows.map (·.id)).Nodup)
    (hrow : row ∈ rows) :
    ((mergedClusters T S run rows).foldl (rewrite T S run.stamp run.flushedAt) row
      ).supersededAt.isNone =
        if row.id ∈ (consolidateMemories T S run rows).2.supersededIds then false
        else row.supersededAt.isNone := by
  split
  · next hmem =>
      obtain ⟨c, hc, hloser⟩ := mem_superseded hids hrow hmem
      have hid : row.id ∈ c.losers.map (·.id) := List.mem_map_of_mem hloser
      have hgone : ((mergedClusters T S run rows).foldl (rewrite T S run.stamp run.flushedAt) row
          ).supersededAt ≠ none :=
        foldl_loser (fun c' hc' heq => survivor_not_loser hids hc' hc (heq ▸ hid)) hc hid
      rwa [Option.isNone_eq_false_iff, Option.isSome_iff_ne_none]
  · next hmem =>
      have hlosers : ∀ c ∈ mergedClusters T S run rows, row.id ∉ c.losers.map (·.id) := by
        intro c hc hid
        obtain ⟨loser, hloser, heq⟩ := List.mem_map.mp hid
        refine hmem (List.mem_map.mpr ⟨loser, List.mem_flatMap.mpr ⟨c, hc, hloser⟩, heq⟩)
      rw [(foldl_survivor hlosers).1]

theorem tracked_consolidate (hs : Faithful s) (run : Consolidation F) :
    ∀ row ∈ (consolidateMemories T S run s.rows).1,
      Tracked s (.consolidated (consolidateMemories T S run s.rows).2.supersededIds) row := by
  rw [consolidate_eq]
  intro row' hrow'
  obtain ⟨row, hrow, rfl⟩ := List.mem_map.mp hrow'
  obtain ⟨r, htold, hdescribes⟩ := hs.rows row hrow
  have hsame : SameFact row ((mergedClusters T S run s.rows).foldl
      (rewrite T S run.stamp run.flushedAt) row) := foldl_same
  refine ⟨r, ?_, hdescribes.same hsame⟩
  rw [hsame.id, tell, htold, consolidated_isNone hs.ids hrow]
  split <;> rfl

theorem tracked_perform (hs : Faithful s) (h : perform T S s.rows c = some (rows', a)) :
    ∀ row ∈ rows', Tracked s a row := by
  cases c with
  | record r id now =>
      obtain ⟨⟨rows₁, id₁⟩, hrecord, heq⟩ := Option.map_eq_some_iff.mp h
      cases heq
      exact tracked_record hs hrecord
  | forget f =>
      cases h
      exact tracked_forget hs f
  | consolidate run =>
      cases h
      exact tracked_consolidate hs run

theorem Moves.keeps_ids (h : Moves rows rows') (hid : id ∈ rows.map (·.id)) :
    id ∈ rows'.map (·.id) := by
  cases h with
  | rewrite f hf =>
      obtain ⟨row, hrow, rfl⟩ := List.mem_map.mp hid
      exact List.mem_map.mpr ⟨f row, List.mem_map_of_mem hrow, (hf row).1⟩
  | add row _ _ _ =>
      rw [List.map_append]
      exact List.mem_append_left _ hid

theorem recorded_mem (h : perform T S rows c = some (rows', .recorded r id)) :
    id ∈ rows'.map (·.id) := by
  cases c with
  | record r₁ id₁ now =>
      obtain ⟨⟨rows₁, id₂⟩, hrecord, heq⟩ := Option.map_eq_some_iff.mp h
      cases heq
      have hmoves := moves_perform h
      obtain ⟨-, ⟨old, hold, rfl, rfl⟩ | ⟨-, rfl, -, rfl⟩⟩ := record_cases hrecord
      · exact hmoves.keeps_ids (List.mem_map_of_mem (List.mem_of_find?_eq_some hold))
      · simp [MemoryRecord.insert]
  | forget f => cases h
  | consolidate run => cases h

theorem faithful_step (hs : Faithful s) (h : (machine T S).step s c = some s') : Faithful s' := by
  obtain ⟨rows', a, hperform, rfl⟩ := machine_step.mp h
  have hmoves := moves_perform hperform
  refine ⟨hmoves.ids_nodup hs.ids, hmoves.keys_nodup hs.keys, hmoves.kinds hs.kinds, ?_, ?_⟩
  · intro row hrow
    obtain ⟨r, htold, hdescribes⟩ := tracked_perform hs hperform row hrow
    exact ⟨r, (told_answer rows').trans htold, hdescribes⟩
  · intro id p hp
    rw [told_answer] at hp
    by_cases hnew : ∃ r, a = .recorded r id
    · obtain ⟨r, rfl⟩ := hnew
      exact recorded_mem hperform
    · obtain ⟨q, hq⟩ := Option.isSome_iff_exists.mp (tell_known hp (not_exists.mp hnew))
      exact hmoves.keeps_ids (hs.known id q hq)

theorem faithful_run (h : (machine T S).run empty calls = some t) : Faithful t :=
  (machine T S).invariant_of_step faithful_step faithful_empty h

end Standing

section Recall
variable {subject kind callerTlp : Option String} {limit : ℤ}

-- A memory that stands may be seen by a caller who asks for it and is cleared for it.
structure Sees (orgId : String) (subject kind : Option String) (clearance : TLP)
    (r : MemoryRecord F) : Prop where
  orgId : r.orgId = orgId
  level : r.level.order ≤ clearance.order
  subject : ∀ s ∈ subject, r.subject = s
  kind : ∀ k ∈ kind, r.kind = k

theorem mem_allowed {level clearance : TLP} :
    level.value ∈ allowedTlpValues clearance ↔ level.order ≤ clearance.order := by
  cases level <;> cases clearance <;> decide

theorem inScope_iff {clearance : TLP} (h : Describes r row) :
    inScope orgId clearance subject kind true row = true ↔
      Sees orgId subject kind clearance r ∧ row.supersededAt = none := by
  rw [inScope, decide_eq_true_eq, h.orgId, h.tlpLevel, mem_allowed, h.subject, h.kind]
  constructor
  · rintro ⟨horg, hlevel, hlive, hsubject, hkind⟩
    exact ⟨⟨horg, hlevel, hsubject, hkind⟩, hlive rfl⟩
  · rintro ⟨⟨horg, hlevel, hsubject, hkind⟩, hlive⟩
    exact ⟨horg, hlevel, fun _ => hlive, hsubject, hkind⟩

theorem coerceTlp_value {level default failClosed : TLP} :
    coerceTlp (some level.value) default failClosed = level := by
  cases level <;> rfl

-- A recall finds only what its scope holds, whichever way it ranks.
theorem inScope_of_recalled {search : Option (VectorSearch F)}
    (h : row ∈ recallMemories rows orgId subject kind limit callerTlp false ∨
      row ∈ recallSemantic rows search orgId subject kind limit callerTlp) :
    row ∈ rows ∧
      inScope orgId (coerceTlp callerTlp .green .white) subject kind true row = true := by
  have hrecency : ∀ {limit callerTlp}, row ∈ recallMemories rows orgId subject kind limit callerTlp
      false → row ∈ rows ∧
        inScope orgId (coerceTlp callerTlp .green .white) subject kind true row = true :=
    fun h => List.mem_filter.mp (mem_of_mem_takeNewest h)
  rcases h with h | h
  · exact hrecency h
  · unfold recallSemantic at h
    dsimp only at h
    have hfallback : row ∈ recallMemories rows orgId subject kind (max 1 limit)
        (some (coerceTlp callerTlp .green .white).value) false → row ∈ rows ∧
          inScope orgId (coerceTlp callerTlp .green .white) subject kind true row = true := by
      intro h
      have hfound := hrecency h
      rwa [coerceTlp_value] at hfound
    split at h
    · exact hfallback h
    · split at h
      · exact hfallback h
      · obtain ⟨hrow, hscope⟩ :=
          List.mem_filter.mp ((List.mergeSort_perm _ _).mem_iff.mp (List.mem_of_mem_take h))
        exact ⟨hrow, (Bool.and_eq_true _ _ ▸ hscope).1⟩

-- Every memory that is recalled stands as it was last recorded, and is the caller's to see.
theorem recall_sound (search : Option (VectorSearch F))
    (h : (machine T S).run empty calls = some t)
    (hrow : row ∈ recallMemories t.rows orgId subject kind limit callerTlp false ∨
      row ∈ recallSemantic t.rows search orgId subject kind limit callerTlp) :
    ∃ r, t.told row.id = some (r, true) ∧ Describes r row ∧
      Sees orgId subject kind (coerceTlp callerTlp .green .white) r := by
  obtain ⟨hstored, hscope⟩ := inScope_of_recalled hrow
  obtain ⟨r, htold, hdescribes⟩ := (faithful_run h).rows row hstored
  obtain ⟨hsees, hlive⟩ := (inScope_iff hdescribes).mp hscope
  rw [hlive] at htold
  exact ⟨r, htold, hdescribes, hsees⟩

-- A subject has at most one memory of each kind.
theorem length_subject {s : String} {clearance : TLP} {live : Bool} (ht : Faithful t) :
    (t.rows.filter (inScope orgId clearance (some s) kind live)).length ≤ 4 := by
  have hkeys : ((t.rows.filter (inScope orgId clearance (some s) kind live)).map key).Nodup :=
    ht.keys.sublist (List.filter_sublist.map key)
  have hkey : (t.rows.filter (inScope orgId clearance (some s) kind live)).map key =
      ((t.rows.filter (inScope orgId clearance (some s) kind live)).map (·.kind)).map
        fun kind => (orgId, kind, s) := by
    rw [List.map_map]
    refine List.map_congr_left fun row hrow => ?_
    have hscope := (List.mem_filter.mp hrow).2
    rw [inScope, decide_eq_true_eq] at hscope
    rw [key, hscope.1, hscope.2.2.2.1 s rfl, Function.comp_apply]
  rw [hkey] at hkeys
  have hsub : (t.rows.filter (inScope orgId clearance (some s) kind live)).map (·.kind) ⊆
      MEMORY_KINDS := by
    intro k hk
    obtain ⟨row, hrow, rfl⟩ := List.mem_map.mp hk
    exact ht.kinds row (List.mem_of_mem_filter hrow)
  have hlength := ((hkeys.of_map _).subperm hsub).length_le
  rwa [List.length_map] at hlength

-- A recall by subject finds every memory that stands and that its caller may see.
theorem recalled_iff (h : (machine T S).run empty calls = some t) (hlimit : 4 ≤ limit)
    {s content : String} :
    (∃ row ∈ recallMemories t.rows orgId (some s) kind limit callerTlp false,
      row.id = id ∧ row.content = content) ↔
    ∃ r, t.told id = some (r, true) ∧ r.content = content ∧
      Sees orgId (some s) kind (coerceTlp callerTlp .green .white) r := by
  constructor
  · rintro ⟨row, hrow, rfl, rfl⟩
    obtain ⟨r, htold, hdescribes, hsees⟩ := recall_sound none h (Or.inl hrow)
    exact ⟨r, htold, hdescribes.content.symm, hsees⟩
  · rintro ⟨r, htold, rfl, hsees⟩
    have ht := faithful_run h
    obtain ⟨row, hrow, rfl⟩ := List.mem_map.mp (ht.known id _ htold)
    obtain ⟨r', htold', hdescribes⟩ := ht.rows row hrow
    rw [htold', Option.some.injEq, Prod.mk.injEq, Option.isNone_iff_eq_none] at htold
    obtain ⟨rfl, hlive⟩ := htold
    refine ⟨row, ?_, rfl, hdescribes.content⟩
    apply mem_takeNewest
    · exact List.mem_filter.mpr ⟨hrow, (inScope_iff hdescribes).mpr ⟨hsees, hlive⟩⟩
    · refine List.countP_le_length.trans ((length_subject ht).trans ?_)
      omega

end Recall

section Shared

def dnsServer (orgId : String) : MemoryRecord ℚ where
  orgId := orgId
  kind := "entity_note"
  subject := "10.0.0.5"
  content := "dns server"
  source := "inv_1"
  confidence := some (1 / 2)
  tlpLevel := "amber"

def everyRow (orgId : String) : Consolidation ℚ where
  orgId := orgId
  subject := none
  kind := none
  threshold := 1
  stamp := 40
  flushedAt := 40

-- Two organisations note one host; one of them tries to forget the other's note.
def sharedHost : List (MemoryCall ℚ) :=
  [.record (dnsServer "acme") "mem_1" 10, .record (dnsServer "globex") "mem_2" 20,
    .forget ⟨"globex", "mem_1", some "red", 30, 30⟩, .consolidate (everyRow "acme")]

def sharedStore : MemoryStore ℚ := ((machine .ascii words).run empty sharedHost).getD empty

theorem sharedHost_run : (machine .ascii words).run empty sharedHost = some sharedStore := rfl

theorem sharedHost_independent :
    ∃ own, (machine .ascii words).run empty (sharedHost.filter (·.orgId = "acme")) = some own ∧
      recallMemories sharedStore.rows "acme" (some "10.0.0.5") none 20 (some "amber") false =
        recallMemories own.rows "acme" (some "10.0.0.5") none 20 (some "amber") false := by
  obtain ⟨own, hown, -, hrecall, -⟩ := tenants_independent sharedHost_run "acme"
  exact ⟨own, hown, hrecall _ _ _ _ _⟩

theorem sharedHost_recalled :
    ∃ row ∈ recallMemories sharedStore.rows "acme" (some "10.0.0.5") none 20 (some "amber") false,
      row.id = "mem_1" ∧ row.content = "dns server" := by
  refine (recalled_iff sharedHost_run (by decide)).mpr ⟨dnsServer "acme", rfl, rfl, ?_⟩
  exact ⟨rfl, by decide, by decide, by simp⟩

theorem sharedHost_sound :
    ∃ r, sharedStore.told "mem_2" = some (r, true) ∧ r.content = "dns server" := by
  have hrows : sharedStore.rows =
      [(dnsServer "acme").insert "mem_1" 10, (dnsServer "globex").insert "mem_2" 20] := rfl
  have hrow : (dnsServer "globex").insert "mem_2" 20 ∈
      recallMemories sharedStore.rows "globex" none none 20 (some "amber") false := by
    apply mem_takeNewest
    · exact List.mem_filter.mpr ⟨by simp [hrows], by decide⟩
    · decide
  obtain ⟨r, htold, hdescribes, -⟩ := recall_sound none sharedHost_run (Or.inl hrow)
  exact ⟨r, htold, hdescribes.content.symm⟩

end Shared

end MemoryStore

end MemoryService

end BTagent
