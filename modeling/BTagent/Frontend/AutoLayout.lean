import BTagent.Lib.LongestPaths

namespace BTagent

structure Position where
  x : ℤ
  y : ℤ
  deriving DecidableEq

structure FlowNode (α : Type) where
  id : String
  position : Position
  data : α

structure FlowEdge where
  source : String
  target : String
  deriving DecidableEq

namespace AutoLayout
open OrderedDict

variable {α : Type}

abbrev Adjacency := OrderedDict String (List String)

def NODE_WIDTH : ℤ := 260

def NODE_HEIGHT : ℤ := 80

def HORIZONTAL_SPACING : ℤ := 80

def VERTICAL_SPACING : ℤ := 100

def buildAdjacency (nodes : List (FlowNode α)) (edges : List FlowEdge) : Adjacency :=
  edges.foldl (fun adj e => adj.set e.source ((adj.get? e.source).getD [] ++ [e.target]))
    (nodes.foldl (fun adj n => adj.set n.id []) .empty)

def children (adj : Adjacency) (id : String) : List String := (adj.get? id).getD []

def maxDepth (adj : Adjacency) : ℕ := max 1 adj.keys.length

-- The vertices that an edge leads to.
def targets (adj : Adjacency) : List String := adj.entries.flatMap Prod.snd

-- The loop of `computeDepths` with a number of rounds.
def relaxRounds (adj : Adjacency) (roots : List String) (rounds : ℕ) :
    Option (OrderedDict String ℕ) :=
  LongestPaths.run (maxDepth adj) (children adj) rounds (LongestPaths.start roots)

def computeDepths (adj : Adjacency) (roots : List String) : Option (OrderedDict String ℕ) :=
  relaxRounds adj roots
    (LongestPaths.budget (maxDepth adj) (targets adj) (LongestPaths.start roots))

def rootsOf (nodes : List (FlowNode α)) (edges : List FlowEdge) : List String :=
  let hasIncoming := edges.map (·.target)
  let roots := (nodes.filter fun n => n.id ∉ hasIncoming).map (·.id)
  if roots = [] then (nodes.head?.map (·.id)).toList else roots

def addToLevel (levels : OrderedDict ℕ (List String)) (depth : ℕ) (id : String) :
    OrderedDict ℕ (List String) :=
  levels.set depth ((levels.get? depth).getD [] ++ [id])

def levelsOf (nodes : List (FlowNode α)) (depths : OrderedDict String ℕ) :
    OrderedDict ℕ (List String) :=
  let levels := depths.entries.foldl (fun levels entry => addToLevel levels entry.2 entry.1) .empty
  let deepest := (depths.entries.map Prod.snd).foldl max 0
  nodes.foldl (fun levels n =>
    if (depths.get? n.id).isSome then levels else addToLevel levels (deepest + 1) n.id) levels

-- The width is an even number.
def place (count depth index : ℕ) : Position :=
  let totalWidth := count * NODE_WIDTH + (count - 1) * HORIZONTAL_SPACING
  { x := -(totalWidth / 2) + index * (NODE_WIDTH + HORIZONTAL_SPACING)
    y := depth * (NODE_HEIGHT + VERTICAL_SPACING) }

def placesOf (levels : OrderedDict ℕ (List String)) : List (String × Position) :=
  (levels.keys.mergeSort (· ≤ ·)).flatMap fun depth =>
    let ids := (levels.get? depth).getD []
    ids.zipIdx.map fun idx => (idx.1, place ids.length depth idx.2)

def positioned (positions : OrderedDict String Position) (n : FlowNode α) : FlowNode α :=
  { n with position := (positions.get? n.id).getD n.position }

def autoLayout (nodes : List (FlowNode α)) (edges : List FlowEdge) : Option (List (FlowNode α)) := do
  if nodes = [] then return nodes
  let depths ← computeDepths (buildAdjacency nodes edges) (rootsOf nodes edges)
  let positions := (OrderedDict.empty).update (placesOf (levelsOf nodes depths))
  return nodes.map (positioned positions)

section Depths
variable {adj : Adjacency} {roots : List String} {depths : OrderedDict String ℕ} {u v : String}

theorem get?_of_child (h : v ∈ children adj u) : ∃ vs, adj.get? u = some vs ∧ v ∈ vs := by
  rw [children] at h
  cases hget : adj.get? u with
  | none =>
      rw [hget] at h
      cases h
  | some vs =>
      rw [hget] at h
      exact ⟨vs, rfl, h⟩

theorem mem_targets (h : v ∈ children adj u) : v ∈ targets adj := by
  obtain ⟨vs, hget, hv⟩ := get?_of_child h
  exact List.mem_flatMap.mpr ⟨(u, vs), mem_entries_iff.mpr hget, hv⟩

theorem computeDepths_terminates : ∃ rounds depths, computeDepths adj roots = some depths ∧
    ∀ more, rounds ≤ more → relaxRounds adj roots more = some depths := by
  have hclosed : ∀ u, ∀ v ∈ children adj u, v ∈ targets adj := fun u v => mem_targets
  obtain ⟨depths, hdepths⟩ := LongestPaths.run_terminates hclosed
    (le_refl (LongestPaths.budget (maxDepth adj) (targets adj) (LongestPaths.start roots)))
  exact ⟨_, depths, hdepths, fun more => LongestPaths.run_more hdepths⟩

theorem computeDepths_longest (hacyclic : LongestPaths.Acyclic (children adj))
    (h : computeDepths adj roots = some depths) :
    LongestPaths.Longest (children adj) roots depths := by
  refine LongestPaths.run_longest ?_ h
  intro k v hwalk
  have hkeys : ∀ u v, v ∈ children adj u → u ∈ adj.keys := by
    intro u v hv
    obtain ⟨vs, hget, -⟩ := get?_of_child hv
    exact (get?_isSome adj u).mp (Option.isSome_of_mem hget)
  exact (hwalk.bounded hacyclic hkeys).trans (le_max_right _ _)

end Depths

section Levels
variable {levels : OrderedDict ℕ (List String)} {nodes : List (FlowNode α)}
  {depths : OrderedDict String ℕ} {depth : ℕ} {id : String}

def InLevel (levels : OrderedDict ℕ (List String)) (id : String) : Prop :=
  ∃ depth ids, levels.get? depth = some ids ∧ id ∈ ids

theorem inLevel_add : InLevel (addToLevel levels depth id) id :=
  ⟨depth, _, get?_set_self _ _ _, by simp⟩

theorem InLevel.add {other : String} (h : InLevel levels id) :
    InLevel (addToLevel levels depth other) id := by
  obtain ⟨d, ids, hget, hmem⟩ := h
  by_cases hd : d = depth
  · subst hd
    refine ⟨d, _, get?_set_self _ _ _, ?_⟩
    rw [hget]
    exact List.mem_append_left _ hmem
  · exact ⟨d, ids, by rw [addToLevel, get?_set_ne _ _ hd, hget], hmem⟩

theorem inLevel_entries {entries : List (String × ℕ)}
    (h : InLevel levels id ∨ id ∈ entries.map Prod.fst) :
    InLevel (entries.foldl (fun levels entry => addToLevel levels entry.2 entry.1) levels) id := by
  induction entries generalizing levels with
  | nil => exact h.resolve_right List.not_mem_nil
  | cons entry entries ih =>
      apply ih
      rcases h with h | h
      · exact Or.inl h.add
      · rcases List.mem_cons.mp h with rfl | h
        · exact Or.inl inLevel_add
        · exact Or.inr h

theorem inLevel_unvisited
    (h : InLevel levels id ∨ id ∈ nodes.map (·.id) ∧ (depths.get? id).isSome = false) :
    InLevel (nodes.foldl (fun levels n =>
      if (depths.get? n.id).isSome then levels else addToLevel levels depth n.id) levels) id := by
  induction nodes generalizing levels with
  | nil => exact h.resolve_right fun hnil => List.not_mem_nil hnil.1
  | cons n nodes ih =>
      apply ih
      rcases h with h | ⟨hmem, hnew⟩
      · left
        dsimp only
        split
        · exact h
        · exact h.add
      · rw [List.map_cons, List.mem_cons] at hmem
        rcases hmem with rfl | hmem
        · left
          dsimp only
          rw [hnew]
          exact inLevel_add
        · exact Or.inr ⟨hmem, hnew⟩

theorem inLevel_nodes (h : id ∈ nodes.map (·.id)) : InLevel (levelsOf nodes depths) id := by
  apply inLevel_unvisited
  cases hvisited : (depths.get? id).isSome with
  | true => exact Or.inl (inLevel_entries (Or.inr ((get?_isSome depths id).mp hvisited)))
  | false => exact Or.inr ⟨h, rfl⟩

end Levels

section Places
variable {levels : OrderedDict ℕ (List String)} {id id' : String} {p : Position}

theorem mem_places : (id, p) ∈ placesOf levels ↔ ∃ depth ids, levels.get? depth = some ids ∧
    ∃ index, ids[index]? = some id ∧ place ids.length depth index = p := by
  rw [placesOf, List.mem_flatMap]
  simp only [(List.mergeSort_perm _ _).mem_iff, List.mem_map, Prod.exists, Prod.mk.injEq]
  constructor
  · rintro ⟨depth, hdepth, _, index, hidx, rfl, rfl⟩
    obtain ⟨ids, hget⟩ := Option.isSome_iff_exists.mp ((get?_isSome levels depth).mpr hdepth)
    rw [hget] at hidx ⊢
    exact ⟨depth, ids, hget, index, List.mk_mem_zipIdx_iff_getElem?.mp hidx, rfl⟩
  · rintro ⟨depth, ids, hget, index, hidx, rfl⟩
    refine ⟨depth, (get?_isSome levels depth).mp (Option.isSome_of_mem hget), id, index, ?_, rfl, ?_⟩
    · rw [hget]
      exact List.mk_mem_zipIdx_iff_getElem?.mpr hidx
    · rw [hget]
      rfl

-- One place holds one id.
theorem place_injective (h : (id, p) ∈ placesOf levels) (h' : (id', p) ∈ placesOf levels) :
    id = id' := by
  obtain ⟨depth, ids, hget, index, hidx, rfl⟩ := mem_places.mp h
  obtain ⟨depth', ids', hget', index', hidx', hplace⟩ := mem_places.mp h'
  obtain ⟨hx, hy⟩ := Position.mk.inj hplace
  simp only [NODE_HEIGHT, VERTICAL_SPACING] at hy
  obtain rfl : depth' = depth := by omega
  obtain rfl := Option.some.inj (hget.symm.trans hget')
  simp only [NODE_WIDTH, HORIZONTAL_SPACING] at hx
  obtain rfl : index' = index := by omega
  exact Option.some.inj (hidx.symm.trans hidx')

end Places

section Layout
variable {nodes : List (FlowNode α)} {depths : OrderedDict String ℕ} {n : FlowNode α}

theorem positioned_place (hn : n ∈ nodes) :
    (n.id, (positioned (OrderedDict.empty.update (placesOf (levelsOf nodes depths))) n).position) ∈
      placesOf (levelsOf nodes depths) := by
  obtain ⟨depth, ids, hget, hmem⟩ : InLevel (levelsOf nodes depths) n.id :=
    inLevel_nodes (List.mem_map.mpr ⟨n, hn, rfl⟩)
  obtain ⟨index, hidx⟩ := List.mem_iff_getElem?.mp hmem
  have hplaced := mem_places.mpr ⟨depth, ids, hget, index, hidx, rfl⟩
  obtain ⟨p, hp⟩ := Option.isSome_iff_exists.mp ((get?_isSome _ n.id).mpr
    (mem_keys_update.mpr (Or.inr (List.mem_map_of_mem hplaced)) :
      n.id ∈ (OrderedDict.empty.update (placesOf (levelsOf nodes depths))).keys))
  obtain ⟨pre, post, hsplit, -⟩ := mem_update_empty.mp (mem_entries_iff.mpr hp)
  rw [positioned, hp, hsplit]
  exact List.mem_append_right _ List.mem_cons_self

end Layout

theorem autoLayout_positions (nodes : List (FlowNode α)) (edges : List FlowEdge) :
    ∃ laid, autoLayout nodes edges = some laid ∧ laid.map (·.id) = nodes.map (·.id) ∧
      ∀ a ∈ laid, ∀ b ∈ laid, a.position = b.position → a.id = b.id := by
  by_cases hnil : nodes = []
  · subst hnil
    exact ⟨[], rfl, rfl, by simp⟩
  · obtain ⟨-, depths, hdepths, -⟩ := @computeDepths_terminates (buildAdjacency nodes edges)
      (rootsOf nodes edges)
    refine ⟨nodes.map (positioned (OrderedDict.empty.update (placesOf (levelsOf nodes depths)))),
      ?_, ?_, ?_⟩
    · simp only [autoLayout, if_neg hnil, hdepths, Option.bind_eq_bind, Option.bind_some,
        Option.pure_def]
    · rw [List.map_map]
      rfl
    · intro a ha b hb hposition
      obtain ⟨m, hm, rfl⟩ := List.mem_map.mp ha
      obtain ⟨n, hn, rfl⟩ := List.mem_map.mp hb
      have hplace : (m.id, _) ∈ placesOf (levelsOf nodes depths) := positioned_place hm
      rw [hposition] at hplace
      exact place_injective hplace (positioned_place hn)

theorem layout_longest_paths :
    (∀ adj roots, ∃ rounds depths, computeDepths adj roots = some depths ∧
      ∀ more, rounds ≤ more → relaxRounds adj roots more = some depths) ∧
    (∀ adj roots depths, LongestPaths.Acyclic (children adj) →
      computeDepths adj roots = some depths → LongestPaths.Longest (children adj) roots depths ∧
        ∀ u v d e, depths.get? u = some d → depths.get? v = some e → v ∈ children adj u → d < e) ∧
    ∀ (nodes : List (FlowNode α)) (edges : List FlowEdge), ∃ laid, autoLayout nodes edges = some laid ∧
      laid.map (·.id) = nodes.map (·.id) ∧
        ∀ a ∈ laid, ∀ b ∈ laid, a.position = b.position → a.id = b.id := by
  refine ⟨fun adj roots => computeDepths_terminates, ?_, autoLayout_positions⟩
  intro adj roots depths hacyclic hdepths
  have hlongest := computeDepths_longest hacyclic hdepths
  exact ⟨hlongest, fun u v d e hu hv => hlongest.edge_lt hu hv⟩

end AutoLayout

end BTagent
