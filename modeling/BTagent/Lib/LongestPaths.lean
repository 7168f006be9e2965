import BTagent.Lib.OrderedDict
import Mathlib.Algebra.GroupWithZero.Nat
import Mathlib.Algebra.Order.BigOperators.Group.List
import Mathlib.Algebra.Order.Group.Nat
import Mathlib.Data.List.Perm.Subperm
import Mathlib.Logic.Relation
import Mathlib.Order.Bounds.Basic

-- Depths of the vertices of a graph, raised along its edges until no edge raises one. A cap on the
-- depths ends the rounds of a cycle.
namespace LongestPaths
open OrderedDict

variable {V : Type*} [DecidableEq V]

structure State (V : Type*) where
  depths : OrderedDict V ℕ
  queue : List V

section Algorithm
variable (cap : ℕ)

def relax (depth : ℕ) (s : State V) (child : V) : State V :=
  let raised : State V := ⟨s.depths.set child (depth + 1), s.queue ++ [child]⟩
  if cap < depth + 1 then { s with depths := s.depths.setDefault child cap }
  else
    match s.depths.get? child with
    | none => raised
    | some existing => if existing < depth + 1 then raised else s

def visit (succ : V → List V) (depths : OrderedDict V ℕ) (current : V) (queue : List V) : State V :=
  (succ current).foldl (relax cap ((depths.get? current).getD 0)) ⟨depths, queue⟩

def run (succ : V → List V) : ℕ → State V → Option (OrderedDict V ℕ)
  | _, ⟨depths, []⟩ => some depths
  | 0, _ => none
  | fuel + 1, ⟨depths, current :: queue⟩ => run succ fuel (visit cap succ depths current queue)

def start (roots : List V) : State V := ⟨roots.foldl (fun d r => d.set r 0) .empty, roots⟩

end Algorithm

-- The rounds that are left: a vertex that is pushed has a greater depth than before.
def slack (cap : ℕ) (depths : OrderedDict V ℕ) (v : V) : ℕ :=
  match depths.get? v with
  | none => cap + 1
  | some d => cap - d

def budget (cap : ℕ) (vertices : List V) (s : State V) : ℕ :=
  (vertices.map (slack cap s.depths)).sum + s.queue.length

section Termination
variable {cap depth fuel : ℕ} {succ : V → List V} {vertices children queue : List V} {s : State V}
  {child current : V} {depths : OrderedDict V ℕ}

theorem slack_set_le {d : ℕ} (h : ∀ e, depths.get? child = some e → e ≤ d) (v : V) :
    slack cap (depths.set child d) v ≤ slack cap depths v := by
  rw [slack, slack, get?_set]
  by_cases hv : v = child
  · subst hv
    rw [if_pos rfl]
    cases hget : depths.get? v with
    | none => simp only; omega
    | some e =>
        have hle := h e hget
        simp only
        omega
  · rw [if_neg hv]

theorem slack_set_lt {d : ℕ} (hcap : d ≤ cap) (h : ∀ e, depths.get? child = some e → e < d) :
    slack cap (depths.set child d) child < slack cap depths child := by
  rw [slack, slack, get?_set_self]
  cases hget : depths.get? child with
  | none => simp only; omega
  | some e =>
      have hlt := h e hget
      simp only
      omega

theorem budget_raise {d : ℕ} (hchild : child ∈ vertices) (hcap : d ≤ cap)
    (h : ∀ e, s.depths.get? child = some e → e < d) :
    budget cap vertices ⟨s.depths.set child d, s.queue ++ [child]⟩ ≤ budget cap vertices s := by
  have hsum : (vertices.map (slack cap (s.depths.set child d))).sum <
      (vertices.map (slack cap s.depths)).sum :=
    List.sum_lt_sum _ _ (fun v _ => slack_set_le (fun e he => (h e he).le) v)
      ⟨child, hchild, slack_set_lt hcap h⟩
  simp only [budget, List.length_append, List.length_singleton]
  omega

theorem budget_relax (hchild : child ∈ vertices) :
    budget cap vertices (relax cap depth s child) ≤ budget cap vertices s := by
  rw [relax]
  split
  · have hsum : (vertices.map (slack cap (s.depths.setDefault child cap))).sum ≤
        (vertices.map (slack cap s.depths)).sum := by
      apply List.sum_le_sum
      intro v _
      rw [setDefault]
      split
      · exact le_rfl
      · next hnone =>
          apply slack_set_le
          intro e he
          rw [he] at hnone
          exact absurd rfl hnone
    exact Nat.add_le_add_right hsum _
  · next hcap =>
      split
      · next hnone =>
          apply budget_raise hchild (by omega)
          intro e he
          rw [hnone] at he
          cases he
      · next existing hsome =>
          split
          · next hlt =>
              apply budget_raise hchild (by omega)
              intro e he
              rw [hsome] at he
              cases he
              exact hlt
          · exact le_rfl

theorem budget_relaxAll (h : ∀ child ∈ children, child ∈ vertices) :
    budget cap vertices (children.foldl (relax cap depth) s) ≤ budget cap vertices s := by
  induction children generalizing s with
  | nil => exact le_rfl
  | cons child children ih =>
      have hrest := @ih (relax cap depth s child) fun c hc => h c (List.mem_cons_of_mem child hc)
      exact hrest.trans (budget_relax (h child List.mem_cons_self))

theorem run_terminates (h : ∀ u, ∀ v ∈ succ u, v ∈ vertices) (hfuel : budget cap vertices s ≤ fuel) :
    ∃ depths, run cap succ fuel s = some depths := by
  induction fuel generalizing s with
  | zero =>
      obtain ⟨depths, queue⟩ := s
      cases queue with
      | nil => exact ⟨depths, rfl⟩
      | cons current queue =>
          rw [budget, List.length_cons] at hfuel
          omega
  | succ fuel ih =>
      obtain ⟨depths, queue⟩ := s
      cases queue with
      | nil => exact ⟨depths, rfl⟩
      | cons current queue =>
          refine ih ?_
          have hle : budget cap vertices (visit cap succ depths current queue) ≤
              budget cap vertices ⟨depths, queue⟩ := budget_relaxAll (h current)
          simp only [budget, List.length_cons] at hfuel hle
          rw [budget]
          omega

-- More rounds than are needed change nothing.
theorem run_more {more : ℕ} (h : run cap succ fuel s = some depths) (hle : fuel ≤ more) :
    run cap succ more s = some depths := by
  induction fuel generalizing s more with
  | zero =>
      obtain ⟨d, queue⟩ := s
      cases queue with
      | nil => cases more <;> exact h
      | cons current queue => cases h
  | succ fuel ih =>
      obtain ⟨d, queue⟩ := s
      cases queue with
      | nil => cases more <;> exact h
      | cons current queue =>
          cases more with
          | zero => omega
          | succ more =>
              rw [run] at h ⊢
              exact ih h (by omega)

end Termination

inductive Walk (succ : V → List V) (roots : List V) : ℕ → V → Prop
  | root {r} : r ∈ roots → Walk succ roots 0 r
  | step {k u v} : Walk succ roots k u → v ∈ succ u → Walk succ roots (k + 1) v

def Edge (succ : V → List V) (u v : V) : Prop := v ∈ succ u

def Acyclic (succ : V → List V) : Prop := ∀ v, ¬Relation.TransGen (Edge succ) v v

section Walks
variable {succ : V → List V} {roots keys : List V} {k : ℕ} {u v : V}

-- The vertices that a walk leaves are different ones.
omit [DecidableEq V] in
theorem Walk.sources (hacyclic : Acyclic succ) (hkeys : ∀ u v, v ∈ succ u → u ∈ keys)
    (h : Walk succ roots k v) :
    ∃ us : List V, us.length = k ∧ us.Nodup ∧ ∀ u ∈ us, u ∈ keys ∧ Relation.TransGen (Edge succ) u v := by
  induction h with
  | root _ => exact ⟨[], rfl, List.nodup_nil, by simp⟩
  | @step k u v _ hv ih =>
      obtain ⟨us, hlen, hnodup, hus⟩ := ih
      refine ⟨u :: us, by rw [List.length_cons, hlen], ?_, ?_⟩
      · refine List.nodup_cons.mpr ⟨?_, hnodup⟩
        exact fun hmem => hacyclic u (hus u hmem).2
      · intro w hw
        rcases List.mem_cons.mp hw with rfl | hw
        · exact ⟨hkeys w v hv, .single hv⟩
        · exact ⟨(hus w hw).1, (hus w hw).2.tail hv⟩

omit [DecidableEq V] in
theorem Walk.bounded (hacyclic : Acyclic succ) (hkeys : ∀ u v, v ∈ succ u → u ∈ keys)
    (h : Walk succ roots k v) : k ≤ keys.length := by
  obtain ⟨us, rfl, hnodup, hus⟩ := h.sources hacyclic hkeys
  exact (hnodup.subperm fun u hu => (hus u hu).1).length_le

end Walks

section Rounds
variable {cap depth fuel : ℕ} {succ : V → List V} {roots children queue : List V} {s s' : State V}
  {child current u v : V} {depths depths' : OrderedDict V ℕ}

-- What raising the depths of some children does.
structure Raised (depth : ℕ) (children : List V) (s s' : State V) : Prop where
  grows : ∀ v d, s.depths.get? v = some d → ∃ e, s'.depths.get? v = some e ∧ d ≤ e
  reached : ∀ c ∈ children, ∃ e, s'.depths.get? c = some e ∧ depth + 1 ≤ e
  changed : ∀ v, s'.depths.get? v = s.depths.get? v ∨
    v ∈ children ∧ s'.depths.get? v = some (depth + 1) ∧ v ∈ s'.queue
  queued : ∀ v ∈ s.queue, v ∈ s'.queue
  pushed : ∀ v ∈ s'.queue, v ∈ s.queue ∨ v ∈ children

theorem Raised.refl : Raised depth [] s s where
  grows _ d h := ⟨d, h, le_rfl⟩
  reached _ hc := (List.not_mem_nil hc).elim
  changed _ := Or.inl rfl
  queued _ hv := hv
  pushed _ hv := Or.inl hv

theorem raised_set (h : ∀ e, s.depths.get? child = some e → e ≤ depth + 1) :
    Raised depth [child] s ⟨s.depths.set child (depth + 1), s.queue ++ [child]⟩ where
  grows v d hd := by
    simp only [get?_set]
    by_cases hv : v = child
    · subst hv
      exact ⟨depth + 1, if_pos rfl, h d hd⟩
    · exact ⟨d, by rw [if_neg hv, hd], le_rfl⟩
  reached c hc := by
    rw [List.mem_singleton.mp hc]
    exact ⟨depth + 1, get?_set_self _ _ _, le_rfl⟩
  changed v := by
    simp only [get?_set]
    by_cases hv : v = child
    · exact Or.inr ⟨by simp [hv], if_pos hv, by simp [hv]⟩
    · exact Or.inl (if_neg hv)
  queued v hv := List.mem_append_left _ hv
  pushed v hv := List.mem_append.mp hv

theorem relax_raised (hcap : depth + 1 ≤ cap) : Raised depth [child] s (relax cap depth s child) := by
  rw [relax, if_neg (by omega)]
  split
  · next hnone =>
      apply raised_set
      intro e he
      rw [hnone] at he
      cases he
  · next existing hsome =>
      split
      · next hlt =>
          apply raised_set
          intro e he
          rw [hsome] at he
          cases he
          exact hlt.le
      · next hge =>
          refine ⟨fun v d h => ⟨d, h, le_rfl⟩, ?_, fun v => Or.inl rfl, fun v hv => hv,
            fun v hv => Or.inl hv⟩
          intro c hc
          rw [List.mem_singleton.mp hc]
          exact ⟨existing, hsome, by omega⟩

theorem Raised.cons {s₁ s₂ : State V} (h : Raised depth [child] s s₁)
    (hrest : Raised depth children s₁ s₂) : Raised depth (child :: children) s s₂ where
  grows v d hd := by
    obtain ⟨e, he, hle⟩ := h.grows v d hd
    obtain ⟨f, hf, hle'⟩ := hrest.grows v e he
    exact ⟨f, hf, hle.trans hle'⟩
  reached c hc := by
    rcases List.mem_cons.mp hc with rfl | hc
    · obtain ⟨e, he, hle⟩ := h.reached c List.mem_cons_self
      obtain ⟨f, hf, hle'⟩ := hrest.grows c e he
      exact ⟨f, hf, hle.trans hle'⟩
    · exact hrest.reached c hc
  changed v := by
    rcases hrest.changed v with hsame | ⟨hv, hset, hqueue⟩
    · rcases h.changed v with hsame' | ⟨hv, hset, hqueue⟩
      · exact Or.inl (hsame.trans hsame')
      · rw [List.mem_singleton.mp hv] at hset hqueue hsame ⊢
        exact Or.inr ⟨List.mem_cons_self, hsame.trans hset, hrest.queued _ hqueue⟩
    · exact Or.inr ⟨List.mem_cons_of_mem _ hv, hset, hqueue⟩
  queued v hv := hrest.queued v (h.queued v hv)
  pushed v hv := by
    rcases hrest.pushed v hv with hv | hv
    · rcases h.pushed v hv with hv | hv
      · exact Or.inl hv
      · exact Or.inr (List.mem_cons.mpr (Or.inl (List.mem_singleton.mp hv)))
    · exact Or.inr (List.mem_cons_of_mem _ hv)

theorem relaxAll_raised (hcap : children ≠ [] → depth + 1 ≤ cap) :
    Raised depth children s (children.foldl (relax cap depth) s) := by
  induction children generalizing s with
  | nil => exact .refl
  | cons child children ih =>
      have hle := hcap (List.cons_ne_nil _ _)
      exact (relax_raised hle).cons (ih fun _ => hle)

-- Every depth is the length of a walk, and what is not queued has raised its successors.
structure Inv (succ : V → List V) (roots : List V) (s : State V) : Prop where
  walk : ∀ v d, s.depths.get? v = some d → Walk succ roots d v
  root : ∀ r ∈ roots, (s.depths.get? r).isSome
  queued : ∀ v ∈ s.queue, (s.depths.get? v).isSome
  raised : ∀ v d, s.depths.get? v = some d →
    v ∈ s.queue ∨ ∀ c ∈ succ v, ∃ e, s.depths.get? c = some e ∧ d + 1 ≤ e

theorem get?_start_depths {r : V} {d : OrderedDict V ℕ} : (roots.foldl (fun d r => d.set r 0) d).get? r =
    if r ∈ roots then some 0 else d.get? r := by
  induction roots generalizing d with
  | nil => simp
  | cons root roots ih =>
      rw [List.foldl_cons, ih, get?_set]
      by_cases hr : r ∈ roots
      · simp [hr]
      · by_cases heq : r = root <;> simp [hr, heq]

theorem inv_start : Inv succ roots (start roots) where
  walk v d h := by
    simp only [start, get?_start_depths, get?_empty] at h
    split at h
    · next hv =>
        cases h
        exact .root hv
    · cases h
  root r hr := by
    simp only [start, get?_start_depths, if_pos hr]
    rfl
  queued v hv := by
    have hmem : v ∈ roots := hv
    simp only [start, get?_start_depths, if_pos hmem]
    rfl
  raised v d h := by
    simp only [start, get?_start_depths, get?_empty] at h
    split at h
    · next hv => exact Or.inl hv
    · cases h

theorem Raised.isSome (h : Raised depth children s s') (hv : (s.depths.get? v).isSome) :
    (s'.depths.get? v).isSome := by
  obtain ⟨d, hd⟩ := Option.isSome_iff_exists.mp hv
  obtain ⟨e, he, -⟩ := h.grows v d hd
  rw [he]
  rfl

theorem Inv.visit (hbound : ∀ k v, Walk succ roots k v → k ≤ cap)
    (h : Inv succ roots ⟨depths, current :: queue⟩) :
    Inv succ roots (visit cap succ depths current queue) := by
  obtain ⟨depth, hdepth⟩ := Option.isSome_iff_exists.mp (h.queued current List.mem_cons_self)
  have hwalk : Walk succ roots depth current := h.walk current depth hdepth
  have hraised : Raised depth (succ current) ⟨depths, queue⟩
      (LongestPaths.visit cap succ depths current queue) := by
    have hget : depths.get? current = some depth := hdepth
    rw [LongestPaths.visit, hget]
    apply relaxAll_raised
    intro hne
    obtain ⟨c, hc⟩ := List.exists_mem_of_ne_nil _ hne
    exact hbound _ c (hwalk.step hc)
  refine ⟨?_, fun r hr => hraised.isSome (h.root r hr), ?_, ?_⟩
  · intro v d hd
    rcases hraised.changed v with hsame | ⟨hv, hset, -⟩
    · exact h.walk v d (hsame.symm.trans hd)
    · obtain rfl := Option.some.inj (hset.symm.trans hd)
      exact hwalk.step hv
  · intro v hv
    rcases hraised.pushed v hv with hv | hv
    · exact hraised.isSome (h.queued v (List.mem_cons_of_mem _ hv))
    · obtain ⟨e, he, -⟩ := hraised.reached v hv
      rw [he]
      rfl
  · intro v d hd
    rcases hraised.changed v with hsame | ⟨-, -, hqueue⟩
    · have hold : depths.get? v = some d := hsame.symm.trans hd
      rcases h.raised v d hold with hv | hchildren
      · rcases List.mem_cons.mp hv with rfl | hv
        · obtain rfl := Option.some.inj (hdepth.symm.trans hold)
          exact Or.inr hraised.reached
        · exact Or.inl (hraised.queued v hv)
      · refine Or.inr fun c hc => ?_
        obtain ⟨e, he, hle⟩ := hchildren c hc
        obtain ⟨f, hf, hle'⟩ := hraised.grows c e he
        exact ⟨f, hf, hle.trans hle'⟩
    · exact Or.inl hqueue

theorem Inv.run (hbound : ∀ k v, Walk succ roots k v → k ≤ cap) (h : Inv succ roots s)
    (hrun : run cap succ fuel s = some depths) : Inv succ roots ⟨depths, []⟩ := by
  induction fuel generalizing s with
  | zero =>
      obtain ⟨d, queue⟩ := s
      cases queue with
      | nil =>
          cases hrun
          exact h
      | cons current queue => cases hrun
  | succ fuel ih =>
      obtain ⟨d, queue⟩ := s
      cases queue with
      | nil =>
          cases hrun
          exact h
      | cons current queue => exact ih (h.visit hbound) hrun

-- The depths are the lengths of the longest walks from a root.
structure Longest (succ : V → List V) (roots : List V) (depths : OrderedDict V ℕ) : Prop where
  greatest : ∀ v d, depths.get? v = some d → IsGreatest {k | Walk succ roots k v} d
  reached : ∀ k v, Walk succ roots k v → ∃ d, depths.get? v = some d

theorem run_longest (hbound : ∀ k v, Walk succ roots k v → k ≤ cap)
    (hrun : run cap succ fuel (start roots) = some depths) : Longest succ roots depths := by
  have hinv : Inv succ roots ⟨depths, []⟩ := inv_start.run hbound hrun
  have hreach : ∀ k v, Walk succ roots k v → ∃ d, depths.get? v = some d ∧ k ≤ d := by
    intro k v hwalk
    induction hwalk with
    | @root r hr =>
        obtain ⟨d, hd⟩ := Option.isSome_iff_exists.mp (hinv.root r hr)
        exact ⟨d, hd, Nat.zero_le d⟩
    | @step k u v _ hv ih =>
        obtain ⟨d, hd, hle⟩ := ih
        rcases hinv.raised u d hd with hqueue | hchildren
        · cases hqueue
        · obtain ⟨e, he, hlt⟩ := hchildren v hv
          exact ⟨e, he, by omega⟩
  constructor
  · intro v d hd
    refine ⟨hinv.walk v d hd, ?_⟩
    intro k hk
    obtain ⟨e, he, hle⟩ := hreach k v hk
    obtain rfl := Option.some.inj (he.symm.trans hd)
    exact hle
  · intro k v hwalk
    obtain ⟨d, hd, -⟩ := hreach k v hwalk
    exact ⟨d, hd⟩

theorem Longest.edge_lt (h : Longest succ roots depths) {d e : ℕ} (hu : depths.get? u = some d)
    (hv : depths.get? v = some e) (hedge : v ∈ succ u) : d < e := by
  have hwalk : Walk succ roots d u := (h.greatest u d hu).1
  exact (h.greatest v e hv).2 (hwalk.step hedge)

end Rounds

end LongestPaths
