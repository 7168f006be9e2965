import Mathlib.Algebra.Order.Group.Nat
import Mathlib.Data.Int.Cast.Basic
import Mathlib.Data.List.Nodup
import Mathlib.Data.List.Perm.Subperm
import Mathlib.Data.List.Sort
import Mathlib.Logic.Function.Basic
import Mathlib.Logic.Relation

namespace Kahn

variable {V : Type*} [DecidableEq V]

structure State (V : Type*) where
  deg : V → Int
  queue : List V
  done : List V

def relax : List V → (V → Int) × List V → (V → Int) × List V
  | [], s => s
  | t :: ts, (deg, queue) =>
      let deg' := Function.update deg t (deg t - 1)
      relax ts (deg', if deg' t = 0 then queue ++ [t] else queue)

def adj (edges : List (V × V)) (u : V) : List V :=
  (edges.filter fun e => e.1 = u).map Prod.snd

def inDegree (edges : List (V × V)) (v : V) : Int :=
  (edges.filter fun e => e.2 = v).length

def loop (edges : List (V × V)) : ℕ → State V → State V
  | 0, s => s
  | fuel + 1, s =>
      match s.queue with
      | [] => s
      | cur :: rest =>
          let (deg, queue) := relax (adj edges cur) (s.deg, rest)
          loop edges fuel ⟨deg, queue, cur :: s.done⟩

def start (vertices : List V) (edges : List (V × V)) : State V :=
  ⟨inDegree edges, vertices.filter fun v => inDegree edges v = 0, []⟩

-- A vertex leaves the queue at most once, so as many rounds as vertices are enough.
def pass (vertices : List V) (edges : List (V × V)) : State V :=
  loop edges vertices.length (start vertices edges)

def Edge (edges : List (V × V)) (u v : V) : Prop := (u, v) ∈ edges

-- Edges into `v` whose source has not left the queue yet.
def waiting (edges : List (V × V)) (done : List V) (v : V) : ℕ :=
  (edges.filter fun e => e.2 = v ∧ e.1 ∉ done).length

structure Inv (vertices : List V) (edges : List (V × V)) (ts : List V) (deg : V → Int)
    (queue done : List V) : Prop where
  nodup : (done ++ queue).Nodup
  degree : ∀ v, deg v = waiting edges done v + ts.count v
  zero : ∀ v ∈ done ++ queue, deg v = 0
  ready : ∀ v ∈ vertices, deg v = 0 → v ∈ done ++ queue

theorem inv_relax {vertices : List V} {edges : List (V × V)} {done : List V} {ts : List V}
    {deg : V → Int} {queue : List V} (h : Inv vertices edges ts deg queue done) :
    Inv vertices edges [] (relax ts (deg, queue)).1 (relax ts (deg, queue)).2 done := by
  induction ts generalizing deg queue with
  | nil => exact h
  | cons t ts ih =>
      have hdeg : deg t = waiting edges done t + (ts.count t + 1 : ℕ) := by
        simpa using h.degree t
      have hfresh : t ∉ done ++ queue := fun hm => by
        have := h.zero t hm
        omega
      have hother : ∀ v, v ≠ t → Function.update deg t (deg t - 1) v = deg v :=
        fun v hv => Function.update_of_ne hv _ _
      have hcount : ∀ v, Function.update deg t (deg t - 1) v =
          waiting edges done v + ts.count v := by
        intro v
        by_cases hv : v = t
        · subst hv
          simp only [Function.update_self]
          push_cast at hdeg
          omega
        · rw [hother v hv, h.degree v, List.count_cons_of_ne (Ne.symm hv)]
      simp only [relax]
      split
      · next hz =>
          refine ih ⟨?_, hcount, ?_, ?_⟩
          · rw [← List.append_assoc]
            refine List.nodup_append.mpr ⟨h.nodup, List.nodup_singleton t, ?_⟩
            rintro a ha b hb rfl
            exact hfresh (List.mem_singleton.mp hb ▸ ha)
          · intro v hv
            rw [← List.append_assoc, List.mem_append, List.mem_singleton] at hv
            rcases hv with hv | rfl
            · rw [hother v fun e => hfresh (e ▸ hv)]
              exact h.zero v hv
            · exact hz
          · intro v hv hv0
            rw [← List.append_assoc, List.mem_append, List.mem_singleton]
            by_cases hvt : v = t
            · exact Or.inr hvt
            · exact Or.inl (h.ready v hv (hother v hvt ▸ hv0))
      · next hz =>
          refine ih ⟨h.nodup, hcount, fun v hv => ?_, fun v hv hv0 => ?_⟩
          · rw [hother v fun e => hfresh (e ▸ hv)]
            exact h.zero v hv
          · have hvt : v ≠ t := fun e => hz (e ▸ hv0)
            exact h.ready v hv (hother v hvt ▸ hv0)

theorem count_adj (edges : List (V × V)) (u v : V) :
    (adj edges u).count v = (edges.filter fun e => e.1 = u ∧ e.2 = v).length := by
  induction edges with
  | nil => rfl
  | cons e edges ih =>
      simp only [adj] at ih ⊢
      by_cases hu : e.1 = u <;> by_cases hv : e.2 = v <;> simp [List.filter, hu, hv, ih]

theorem waiting_pop {edges : List (V × V)} {done : List V} {u : V} (h : u ∉ done) (v : V) :
    waiting edges done v = waiting edges (u :: done) v + (adj edges u).count v := by
  rw [count_adj]
  induction edges with
  | nil => rfl
  | cons e edges ih =>
      simp only [waiting] at ih ⊢
      by_cases hv : e.2 = v <;> by_cases hu : e.1 = u <;> by_cases hd : e.1 ∈ done <;>
        simp_all [List.filter]
      all_goals omega

-- Every source of an edge into a listed vertex is listed after it, hence was popped before.
def Topo (edges : List (V × V)) : List V → Prop
  | [] => True
  | v :: rest => (∀ u, Edge edges u v → u ∈ rest) ∧ Topo edges rest

theorem waiting_eq_zero {edges : List (V × V)} {done : List V} {u v : V}
    (h : waiting edges done v = 0) (he : Edge edges u v) : u ∈ done := by
  by_contra hu
  have hmem : (u, v) ∈ edges.filter fun e => e.2 = v ∧ e.1 ∉ done :=
    List.mem_filter.mpr ⟨he, by simpa using hu⟩
  rw [List.length_eq_zero_iff.mp h] at hmem
  simp at hmem

theorem inv_pop {vertices : List V} {edges : List (V × V)} {deg : V → Int} {cur : V}
    {rest done : List V} (h : Inv vertices edges [] deg (cur :: rest) done) :
    Inv vertices edges (adj edges cur) deg rest (cur :: done) := by
  have hcur : cur ∉ done := fun hm =>
    (List.nodup_append.mp h.nodup).2.2 cur hm cur (by simp) rfl
  have hperm : (done ++ cur :: rest).Perm ((cur :: done) ++ rest) := by simp
  refine ⟨hperm.nodup_iff.mp h.nodup, fun v => ?_, fun v hv => ?_, fun v hv hv0 => ?_⟩
  · have hdeg := h.degree v
    have hpop : waiting edges done v = waiting edges (cur :: done) v + (adj edges cur).count v :=
      waiting_pop hcur v
    simp only [List.count_nil] at hdeg
    omega
  · exact h.zero v (hperm.mem_iff.mpr hv)
  · exact hperm.mem_iff.mp (h.ready v hv hv0)

theorem topo_pop {vertices : List V} {edges : List (V × V)} {deg : V → Int} {cur : V}
    {rest done : List V} (h : Inv vertices edges [] deg (cur :: rest) done)
    (ht : Topo edges done) : Topo edges (cur :: done) := by
  have hdeg : deg cur = 0 := h.zero cur (by simp)
  have hwait : waiting edges done cur = 0 := by
    have := h.degree cur
    simp only [List.count_nil] at this
    omega
  exact ⟨fun u he => waiting_eq_zero hwait he, ht⟩

theorem loop_spec {vertices : List V} {edges : List (V × V)} {fuel : ℕ} {s : State V}
    (h : Inv vertices edges [] s.deg s.queue s.done) (ht : Topo edges s.done) :
    Inv vertices edges [] (loop edges fuel s).deg (loop edges fuel s).queue
      (loop edges fuel s).done ∧ Topo edges (loop edges fuel s).done := by
  induction fuel generalizing s with
  | zero => exact ⟨h, ht⟩
  | succ fuel ih =>
      rw [loop]
      cases hq : s.queue with
      | nil => exact ⟨h, ht⟩
      | cons cur rest =>
          rw [hq] at h
          exact ih (inv_relax (inv_pop h)) (topo_pop h ht)

theorem loop_exhausts {edges : List (V × V)} {fuel : ℕ} {s : State V} :
    (loop edges fuel s).queue = [] ∨ (loop edges fuel s).done.length = s.done.length + fuel := by
  induction fuel generalizing s with
  | zero => exact Or.inr rfl
  | succ fuel ih =>
      rw [loop]
      cases hq : s.queue with
      | nil => exact Or.inl hq
      | cons cur rest =>
          refine ih.imp id fun h => ?_
          simp only [h, List.length_cons]
          omega

omit [DecidableEq V] in
theorem topo_closed {edges : List (V × V)} {l : List V} (h : Topo edges l) {u v : V}
    (hv : v ∈ l) (hr : Relation.TransGen (Edge edges) u v) : u ∈ l := by
  have hone : ∀ {l : List V}, Topo edges l → ∀ {a b : V}, b ∈ l → Edge edges a b → a ∈ l := by
    intro l
    induction l with
    | nil => intro _ _ _ hb; simp at hb
    | cons w l ih =>
        intro h a b hb he
        rcases List.mem_cons.mp hb with rfl | hb
        · exact List.mem_cons_of_mem _ (h.1 a he)
        · exact List.mem_cons_of_mem _ (ih h.2 hb he)
  induction hr using Relation.TransGen.head_induction_on with
  | single he => exact hone h hv he
  | head he _ ih => exact hone h ih he

omit [DecidableEq V] in
theorem topo_acyclic {edges : List (V × V)} {l : List V} (h : Topo edges l) (hn : l.Nodup)
    {v : V} (hv : v ∈ l) : ¬ Relation.TransGen (Edge edges) v v := by
  induction l with
  | nil => simp at hv
  | cons w l ih =>
      obtain ⟨hw, hn⟩ := List.nodup_cons.mp hn
      rcases List.mem_cons.mp hv with rfl | hv
      · intro hr
        obtain ⟨u, hvu, huv⟩ := Relation.TransGen.tail'_iff.mp hr
        have hu : u ∈ l := h.1 u huv
        rcases Relation.reflTransGen_iff_eq_or_transGen.mp hvu with rfl | hvu
        · exact hw hu
        · exact hw (topo_closed h.2 hu hvu)
      · exact ih h.2 hn hv

theorem loop_done_subset {edges : List (V × V)} {P : V → Prop} (he : ∀ e ∈ edges, P e.2)
    {fuel : ℕ} {s : State V} (hq : ∀ v ∈ s.queue, P v) (hd : ∀ v ∈ s.done, P v) :
    ∀ v ∈ (loop edges fuel s).done, P v := by
  have hrelax : ∀ (ts : List V) (deg : V → Int) (queue : List V), (∀ t ∈ ts, P t) →
      (∀ v ∈ queue, P v) → ∀ v ∈ (relax ts (deg, queue)).2, P v := by
    intro ts
    induction ts with
    | nil => intro _ queue _ h; exact h
    | cons t ts ih =>
        intro deg queue hts h
        simp only [relax]
        refine ih _ _ (fun x hx => hts x (List.mem_cons_of_mem _ hx)) ?_
        split
        · intro v hv
          rcases List.mem_append.mp hv with hv | hv
          · exact h v hv
          · exact List.mem_singleton.mp hv ▸ hts t (by simp)
        · exact h
  induction fuel generalizing s with
  | zero => exact hd
  | succ fuel ih =>
      rw [loop]
      cases hq' : s.queue with
      | nil => exact hd
      | cons cur rest =>
          rw [hq'] at hq
          refine ih (hrelax _ _ _ ?_ fun v hv => hq v (List.mem_cons_of_mem _ hv)) ?_
          · intro t ht
            obtain ⟨e, hm, rfl⟩ := List.mem_map.mp ht
            exact he e (List.mem_filter.mp hm).1
          · intro v hv
            rcases List.mem_cons.mp hv with rfl | hv
            · exact hq v (by simp)
            · exact hd v hv

theorem inv_start {vertices : List V} {edges : List (V × V)} (hn : vertices.Nodup) :
    Inv vertices edges [] (start vertices edges).deg (start vertices edges).queue
      (start vertices edges).done := by
  refine ⟨by simpa [start] using hn.filter _, fun v => ?_, fun v hv => ?_, fun v hv hv0 => ?_⟩
  · simp [start, inDegree, waiting]
  · have hm : v ∈ vertices.filter fun v => inDegree edges v = 0 := by simpa [start] using hv
    exact of_decide_eq_true (List.mem_filter.mp hm).2
  · simp only [start, List.nil_append]
    exact List.mem_filter.mpr ⟨hv, decide_eq_true hv0⟩

theorem pass_spec {vertices : List V} (edges : List (V × V)) (hn : vertices.Nodup) :
    Inv vertices edges [] (pass vertices edges).deg (pass vertices edges).queue
      (pass vertices edges).done ∧ Topo edges (pass vertices edges).done :=
  loop_spec (inv_start hn) trivial

theorem pass_exhausts (vertices : List V) (edges : List (V × V)) :
    (pass vertices edges).queue = [] ∨
      (pass vertices edges).done.length = vertices.length := by
  simpa [pass, start] using @loop_exhausts V _ edges vertices.length (start vertices edges)

theorem acyclic_of_pass {vertices : List V} {edges : List (V × V)} (hn : vertices.Nodup)
    (he : ∀ e ∈ edges, e.2 ∈ vertices)
    (hall : vertices.length ≤ (pass vertices edges).done.length) (v : V) :
    ¬ Relation.TransGen (Edge edges) v v := by
  obtain ⟨hinv, htopo⟩ := pass_spec edges hn
  have hnd := hinv.nodup.of_append_left
  have hsub : ∀ v ∈ (pass vertices edges).done, v ∈ vertices := by
    refine loop_done_subset he (fun v hv => ?_) (by simp [start])
    exact (List.mem_filter.mp hv).1
  have hperm : (pass vertices edges).done.Perm vertices :=
    (List.subperm_of_subset hnd hsub).perm_of_length_le hall
  intro hr
  have hv : v ∈ vertices := by
    obtain ⟨u, -, huv⟩ := Relation.TransGen.tail'_iff.mp hr
    exact he (u, v) huv
  exact topo_acyclic htopo hnd (hperm.mem_iff.mpr hv) hr

theorem exists_deg_pos {vertices : List V} {edges : List (V × V)} (hn : vertices.Nodup)
    (hshort : (pass vertices edges).done.length < vertices.length) :
    ∃ v ∈ vertices, 0 < (pass vertices edges).deg v := by
  obtain ⟨hinv, -⟩ := pass_spec edges hn
  have hq : (pass vertices edges).queue = [] := by
    rcases pass_exhausts vertices edges with h | h
    · exact h
    · omega
  have hmissing : ∃ v ∈ vertices, v ∉ (pass vertices edges).done := by
    by_contra hall
    push Not at hall
    exact absurd (List.subperm_of_subset hn hall).length_le (by omega)
  obtain ⟨v, hv, hnot⟩ := hmissing
  refine ⟨v, hv, ?_⟩
  have hne : (pass vertices edges).deg v ≠ 0 := by
    intro h0
    have hm := hinv.ready v hv h0
    rw [hq, List.append_nil] at hm
    exact hnot hm
  have hdeg := hinv.degree v
  simp only [List.count_nil] at hdeg
  omega

omit [DecidableEq V] in
theorem countP_lt {l : List V} {p q : V → Bool} {a : V} (ha : a ∈ l) (hp : p a = false)
    (hq : q a = true) (h : ∀ x ∈ l, p x = true → q x = true) : l.countP p < l.countP q := by
  obtain ⟨xs, ys, rfl⟩ := List.append_of_mem ha
  have hxs : xs.countP p ≤ xs.countP q := List.countP_mono_left fun x hx => h x (by simp [hx])
  have hys : ys.countP p ≤ ys.countP q := List.countP_mono_left fun x hx => h x (by simp [hx])
  simp only [List.countP_append, List.countP_cons, hp, hq, if_true]
  simp
  omega

omit [DecidableEq V] in
theorem wellFounded_of_acyclic {edges : List (V × V)}
    (h : ∀ v, ¬ Relation.TransGen (Edge edges) v v) : WellFounded fun t s => Edge edges s t := by
  classical
  let rank : V → ℕ := fun s =>
    (edges.map Prod.snd).countP fun t => decide (Relation.TransGen (Edge edges) s t)
  refine Subrelation.wf ?_ (InvImage.wf rank Nat.lt_wfRel.wf)
  intro t s hedge
  refine countP_lt (List.mem_map.mpr ⟨(s, t), hedge, rfl⟩) ?_ ?_ ?_
  · exact decide_eq_false (h t)
  · exact decide_eq_true (.single hedge)
  · exact fun u _ hu => decide_eq_true (.head hedge (of_decide_eq_true hu))

def Acyclic (edges : List (V × V)) : Prop := ∀ v, ¬ Relation.TransGen (Edge edges) v v

omit [DecidableEq V] in
theorem acyclic_swap {edges : List (V × V)} (h : Acyclic edges) :
    Acyclic (edges.map Prod.swap) := by
  intro v hv
  have hedge : ∀ s t, Edge (edges.map Prod.swap) s t → Edge edges t s := by
    intro s t hst
    obtain ⟨e, he, heq⟩ := List.mem_map.mp hst
    cases heq
    exact he
  exact h v (Relation.transGen_swap.mp (Relation.TransGen.mono hedge v v hv))

theorem exists_pred_left {vertices : List V} {edges : List (V × V)} (hn : vertices.Nodup)
    (he : ∀ e ∈ edges, e.1 ∈ vertices)
    (hshort : (pass vertices edges).done.length < vertices.length) {v : V} (hv : v ∈ vertices)
    (hleft : v ∉ (pass vertices edges).done) :
    ∃ u ∈ vertices, u ∉ (pass vertices edges).done ∧ Edge edges u v := by
  obtain ⟨hinv, -⟩ := pass_spec edges hn
  have hq : (pass vertices edges).queue = [] := by
    rcases pass_exhausts vertices edges with h | h
    · exact h
    · omega
  have hwait : waiting edges (pass vertices edges).done v ≠ 0 := by
    intro hzero
    have hdeg := hinv.degree v
    rw [hzero, List.count_nil] at hdeg
    have hready := hinv.ready v hv (by simpa using hdeg)
    rw [hq, List.append_nil] at hready
    exact hleft hready
  obtain ⟨e, hmem⟩ := List.exists_mem_of_length_pos (Nat.pos_of_ne_zero hwait)
  obtain ⟨hedge, hkept⟩ := List.mem_filter.mp hmem
  obtain ⟨hv', hu⟩ := of_decide_eq_true hkept
  refine ⟨e.1, he e hedge, hu, ?_⟩
  rw [← hv']
  exact hedge

theorem acyclic_iff_pass {vertices : List V} {edges : List (V × V)} (hn : vertices.Nodup)
    (he : ∀ e ∈ edges, e.1 ∈ vertices ∧ e.2 ∈ vertices) :
    Acyclic edges ↔ vertices.length ≤ (pass vertices edges).done.length := by
  constructor
  · intro hacyclic
    by_contra hshort
    have hshort := Nat.lt_of_not_le hshort
    have hwf := wellFounded_of_acyclic (acyclic_swap hacyclic)
    have hall : ∀ v, v ∈ vertices → v ∈ (pass vertices edges).done := by
      intro v
      induction v using hwf.induction with
      | h v ih =>
          intro hv
          by_contra hleft
          obtain ⟨u, hu, huleft, hedge⟩ :=
            exists_pred_left hn (fun e hmem => (he e hmem).1) hshort hv hleft
          exact huleft (ih u (List.mem_map.mpr ⟨(u, v), hedge, rfl⟩) hu)
    have hle := (List.subperm_of_subset hn hall).length_le
    omega
  · exact fun hall => acyclic_of_pass hn (fun e hmem => (he e hmem).2) hall

-- What is still waited for, sorted, is empty exactly when there is no cycle.
theorem left_nil_iff (r : V → V → Prop) [DecidableRel r] {vertices : List V} {edges : List (V × V)}
    (hn : vertices.Nodup) (he : ∀ e ∈ edges, e.1 ∈ vertices ∧ e.2 ∈ vertices) :
    (if (pass vertices edges).done.length < vertices.length then
      (vertices.filter fun v => 0 < (pass vertices edges).deg v).insertionSort r else []) = [] ↔
        Acyclic edges := by
  rw [acyclic_iff_pass hn he]
  constructor
  · intro hnil
    by_contra hshort
    have hshort := Nat.lt_of_not_le hshort
    rw [if_pos hshort] at hnil
    obtain ⟨v, hv, hdeg⟩ := exists_deg_pos hn hshort
    have hmem : v ∈ (vertices.filter fun v => 0 < (pass vertices edges).deg v).insertionSort r :=
      (List.perm_insertionSort _ _).mem_iff.mpr (List.mem_filter.mpr ⟨hv, decide_eq_true hdeg⟩)
    rw [hnil] at hmem
    cases hmem
  · intro hall
    rw [if_neg (Nat.not_lt.mpr hall)]

end Kahn
