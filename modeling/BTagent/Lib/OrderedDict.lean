import Mathlib.Data.List.Induction
import Mathlib.Data.List.Nodup
import Mathlib.Data.List.Perm.Basic
import Mathlib.Data.List.Sort

-- A dictionary that keeps its keys in the order of their first insertion.
structure OrderedDict (κ ν : Type*) where
  entries : List (κ × ν)
  nodup : (entries.map Prod.fst).Nodup

namespace OrderedDict

variable {κ ν μ : Type*}

@[ext] theorem ext_entries {d e : OrderedDict κ ν} (h : d.entries = e.entries) : d = e := by
  cases d; cases e; cases h; rfl

def empty : OrderedDict κ ν := ⟨[], List.nodup_nil⟩

def keys (d : OrderedDict κ ν) : List κ := d.entries.map Prod.fst

def mapVal (f : ν → μ) (d : OrderedDict κ ν) : OrderedDict κ μ :=
  ⟨d.entries.map fun kv => (kv.1, f kv.2), by simpa [Function.comp_def] using d.nodup⟩

def filterKeys (p : κ → Bool) (d : OrderedDict κ ν) : OrderedDict κ ν :=
  ⟨d.entries.filter fun kv => p kv.1, d.nodup.sublist (List.Sublist.map _ List.filter_sublist)⟩

section Lookup
variable [DecidableEq κ]

def find (k : κ) : List (κ × ν) → Option ν
  | [] => none
  | kv :: kvs => if kv.1 = k then some kv.2 else find k kvs

def put (k : κ) (v : ν) : List (κ × ν) → List (κ × ν)
  | [] => [(k, v)]
  | kv :: kvs => if kv.1 = k then (k, v) :: kvs else kv :: put k v kvs

theorem find_eq_none {k : κ} {kvs : List (κ × ν)} :
    find k kvs = none ↔ k ∉ kvs.map Prod.fst := by
  induction kvs with
  | nil => simp [find]
  | cons kv kvs ih =>
      by_cases h : kv.1 = k
      · simp [find, h]
      · have hk : k ≠ kv.1 := fun e => h e.symm
        simp [find, h, hk, ih]

theorem find_isSome {k : κ} {kvs : List (κ × ν)} :
    (find k kvs).isSome ↔ k ∈ kvs.map Prod.fst := by
  have h : find k kvs = none ↔ k ∉ kvs.map Prod.fst := find_eq_none
  cases hf : find k kvs <;> simp_all

theorem mem_of_find {k : κ} {v : ν} {kvs : List (κ × ν)} (h : find k kvs = some v) :
    (k, v) ∈ kvs := by
  induction kvs with
  | nil => simp [find] at h
  | cons kv kvs ih =>
      by_cases hk : kv.1 = k
      · have hv : kv.2 = v := by simpa [find, hk] using h
        simp [← hk, ← hv]
      · have ht : find k kvs = some v := by simpa [find, hk] using h
        exact List.mem_cons_of_mem _ (ih ht)

theorem find_of_mem {k : κ} {v : ν} {kvs : List (κ × ν)} (hn : (kvs.map Prod.fst).Nodup)
    (h : (k, v) ∈ kvs) : find k kvs = some v := by
  induction kvs with
  | nil => simp at h
  | cons kv kvs ih =>
      simp only [List.map_cons, List.nodup_cons] at hn
      rcases List.mem_cons.mp h with rfl | ht
      · simp [find]
      · have hk : kv.1 ≠ k := by
          rintro rfl
          exact hn.1 (List.mem_map.mpr ⟨_, ht, rfl⟩)
        simpa [find, hk] using ih hn.2 ht

theorem find_perm {k : κ} {kvs kvs' : List (κ × ν)} (hn : (kvs.map Prod.fst).Nodup)
    (h : kvs.Perm kvs') : find k kvs = find k kvs' := by
  have hn' : (kvs'.map Prod.fst).Nodup := (h.map Prod.fst).nodup_iff.mp hn
  cases hf : find k kvs with
  | none =>
      rw [find_eq_none] at hf
      exact (find_eq_none.mpr fun hk => hf ((h.map Prod.fst).mem_iff.mpr hk)).symm
  | some v => exact (find_of_mem hn' (h.mem_iff.mp (mem_of_find hf))).symm

theorem find_put_self {k : κ} {v : ν} {kvs : List (κ × ν)} : find k (put k v kvs) = some v := by
  induction kvs with
  | nil => simp [put, find]
  | cons kv kvs ih =>
      by_cases h : kv.1 = k <;> simp [put, find, h, ih]

theorem find_put_ne {k j : κ} {v : ν} {kvs : List (κ × ν)} (h : j ≠ k) :
    find j (put k v kvs) = find j kvs := by
  induction kvs with
  | nil => simp [put, find, h.symm]
  | cons kv kvs ih =>
      by_cases hk : kv.1 = k
      · have hj : kv.1 ≠ j := fun e => h (e ▸ hk)
        simp [put, find, hk, h.symm]
      · by_cases hj : kv.1 = j
        · have hjk : j ≠ k := h
          simp [put, find, hj, hjk]
        · simp [put, find, hk, hj, ih]

theorem keys_put {k : κ} {v : ν} {kvs : List (κ × ν)} :
    (put k v kvs).map Prod.fst =
      if k ∈ kvs.map Prod.fst then kvs.map Prod.fst else kvs.map Prod.fst ++ [k] := by
  induction kvs with
  | nil => simp [put]
  | cons kv kvs ih =>
      by_cases h : kv.1 = k
      · simp [put, h]
      · have hk : k ≠ kv.1 := fun e => h e.symm
        simp only [put, h, if_false, List.map_cons, ih, List.mem_cons, hk, false_or]
        split <;> simp

theorem find_map_val (f : ν → μ) {k : κ} {kvs : List (κ × ν)} :
    find k (kvs.map fun kv => (kv.1, f kv.2)) = (find k kvs).map f := by
  induction kvs with
  | nil => rfl
  | cons kv kvs ih => by_cases h : kv.1 = k <;> simp [find, h, ih]

theorem find_filter_keys (p : κ → Bool) {k : κ} {kvs : List (κ × ν)} :
    find k (kvs.filter fun kv => p kv.1) = if p k then find k kvs else none := by
  induction kvs with
  | nil => simp [find]
  | cons kv kvs ih =>
      by_cases hp : p kv.1 <;> by_cases h : kv.1 = k
      · have hpk : p k := h ▸ hp
        simp [find, h, hpk]
      · simp [List.filter, hp, find, h, ih]
      · have hpk : ¬ p k := h ▸ hp
        simp [List.filter, hp, hpk, ih]
      · simp [List.filter, hp, find, h, ih]

theorem nodup_put {k : κ} {v : ν} {kvs : List (κ × ν)} (hn : (kvs.map Prod.fst).Nodup) :
    ((put k v kvs).map Prod.fst).Nodup := by
  rw [keys_put]
  split
  · exact hn
  · next h =>
      refine List.nodup_append.mpr ⟨hn, List.nodup_singleton k, fun a ha b hb hab => h ?_⟩
      rwa [← List.mem_singleton.mp hb, ← hab]

def get? (d : OrderedDict κ ν) (k : κ) : Option ν := find k d.entries

def set (d : OrderedDict κ ν) (k : κ) (v : ν) : OrderedDict κ ν :=
  ⟨put k v d.entries, nodup_put d.nodup⟩

def update (d : OrderedDict κ ν) (kvs : List (κ × ν)) : OrderedDict κ ν :=
  kvs.foldl (fun acc kv => acc.set kv.1 kv.2) d

def setDefault (d : OrderedDict κ ν) (k : κ) (v : ν) : OrderedDict κ ν :=
  if (d.get? k).isSome then d else d.set k v

@[simp] theorem get?_empty (k : κ) : (empty : OrderedDict κ ν).get? k = none := rfl

@[simp] theorem keys_empty : (empty : OrderedDict κ ν).keys = [] := rfl

@[simp] theorem get?_set_self (d : OrderedDict κ ν) (k : κ) (v : ν) :
    (d.set k v).get? k = some v := find_put_self

theorem get?_set_ne (d : OrderedDict κ ν) {k j : κ} (v : ν) (h : j ≠ k) :
    (d.set k v).get? j = d.get? j := find_put_ne h

theorem get?_set (d : OrderedDict κ ν) (k j : κ) (v : ν) :
    (d.set k v).get? j = if j = k then some v else d.get? j := by
  by_cases h : j = k
  · simp [h]
  · simp [h, get?_set_ne]

@[simp] theorem get?_mapVal (f : ν → μ) (d : OrderedDict κ ν) (k : κ) :
    (d.mapVal f).get? k = (d.get? k).map f := find_map_val f

@[simp] theorem get?_filterKeys (p : κ → Bool) (d : OrderedDict κ ν) (k : κ) :
    (d.filterKeys p).get? k = if p k then d.get? k else none := find_filter_keys p

theorem put_put {k : κ} {v w : ν} {kvs : List (κ × ν)} : put k w (put k v kvs) = put k w kvs := by
  induction kvs with
  | nil => simp [put]
  | cons kv kvs ih => by_cases h : kv.1 = k <;> simp [put, h, ih]

@[simp] theorem set_set (d : OrderedDict κ ν) (k : κ) (v w : ν) :
    (d.set k v).set k w = d.set k w := ext_entries put_put

theorem get?_isSome (d : OrderedDict κ ν) (k : κ) : (d.get? k).isSome ↔ k ∈ d.keys := find_isSome

theorem keys_set (d : OrderedDict κ ν) (k : κ) (v : ν) :
    (d.set k v).keys = if k ∈ d.keys then d.keys else d.keys ++ [k] := keys_put

theorem mem_keys_set (d : OrderedDict κ ν) (k j : κ) (v : ν) :
    j ∈ (d.set k v).keys ↔ j = k ∨ j ∈ d.keys := by
  rw [keys_set]
  split
  · next h => constructor
              · exact Or.inr
              · rintro (rfl | h') <;> assumption
  · simp [or_comm]

theorem mem_keys_setDefault (d : OrderedDict κ ν) (k j : κ) (v : ν) :
    j ∈ (d.setDefault k v).keys ↔ j = k ∨ j ∈ d.keys := by
  unfold setDefault
  split
  · next h =>
      have hk : k ∈ d.keys := (get?_isSome d k).mp h
      constructor
      · exact Or.inr
      · rintro (rfl | h') <;> assumption
  · exact mem_keys_set d k j v

theorem perm_of_get? {d e : OrderedDict κ ν} (h : ∀ k, d.get? k = e.get? k) :
    d.entries.Perm e.entries := by
  have hd : d.entries.Nodup := List.Nodup.of_map _ d.nodup
  have he : e.entries.Nodup := List.Nodup.of_map _ e.nodup
  refine (List.perm_ext_iff_of_nodup hd he).mpr fun kv => ⟨fun hm => ?_, fun hm => ?_⟩
  · exact mem_of_find ((h kv.1).symm.trans (find_of_mem d.nodup hm))
  · exact mem_of_find ((h kv.1).trans (find_of_mem e.nodup hm))

theorem find_foldl_set (d : OrderedDict κ ν) {kvs : List (κ × ν)}
    (hn : (kvs.map Prod.fst).Nodup) (k : κ) :
    (d.update kvs).get? k = (find k kvs).or (d.get? k) := by
  induction kvs generalizing d with
  | nil => rfl
  | cons kv kvs ih =>
      simp only [List.map_cons, List.nodup_cons] at hn
      have hstep := ih (d.set kv.1 kv.2) hn.2
      rw [show d.update (kv :: kvs) = (d.set kv.1 kv.2).update kvs from rfl, hstep, get?_set]
      by_cases hk : kv.1 = k
      · subst hk
        have hnone : find kv.1 kvs = none := find_eq_none.mpr hn.1
        simp [find, hnone]
      · have hne : k ≠ kv.1 := fun e => hk e.symm
        simp [find, hk, hne]

theorem get?_update (d e : OrderedDict κ ν) (k : κ) :
    (d.update e.entries).get? k = (e.get? k).or (d.get? k) := find_foldl_set d e.nodup k

theorem mem_entries_iff {d : OrderedDict κ ν} {k : κ} {v : ν} :
    (k, v) ∈ d.entries ↔ d.get? k = some v :=
  ⟨find_of_mem d.nodup, mem_of_find⟩

theorem entries_set_new {d : OrderedDict κ ν} {k : κ} {v : ν} (h : k ∉ d.keys) :
    (d.set k v).entries = d.entries ++ [(k, v)] := by
  have hput : ∀ kvs : List (κ × ν), k ∉ kvs.map Prod.fst → put k v kvs = kvs ++ [(k, v)] := by
    intro kvs hk
    induction kvs with
    | nil => rfl
    | cons kv kvs ih =>
        have hne : kv.1 ≠ k := fun heq => hk (by simp [heq])
        have hrest : k ∉ kvs.map Prod.fst := fun hmem => hk (by simp [hmem])
        simp only [put, if_neg hne, ih hrest, List.cons_append]
  exact hput d.entries h

theorem entries_set_old {d : OrderedDict κ ν} {k : κ} {v old : ν} (h : d.get? k = some old) :
    ∃ pre post, d.entries = pre ++ (k, old) :: post ∧ (d.set k v).entries = pre ++ (k, v) :: post := by
  have hput : ∀ kvs : List (κ × ν), find k kvs = some old →
      ∃ pre post, kvs = pre ++ (k, old) :: post ∧ put k v kvs = pre ++ (k, v) :: post := by
    intro kvs hk
    induction kvs with
    | nil => cases hk
    | cons kv kvs ih =>
        by_cases hkv : kv.1 = k
        · have hold : kv.2 = old := by simpa [find, hkv] using hk
          refine ⟨[], kvs, ?_, by simp [put, hkv]⟩
          rw [← hkv, ← hold]
          rfl
        · obtain ⟨pre, post, hkvs, hset⟩ := ih (by simpa [find, hkv] using hk)
          refine ⟨kv :: pre, post, ?_, ?_⟩
          · rw [hkvs, List.cons_append]
          · rw [put, if_neg hkv, hset, List.cons_append]
  exact hput d.entries h

theorem set_of_get? {d : OrderedDict κ ν} {k : κ} {v : ν} (h : d.get? k = some v) :
    d.set k v = d := by
  obtain ⟨pre, post, hold, hset⟩ := entries_set_old (v := v) h
  exact ext_entries (hset.trans hold.symm)

theorem entries_set_map {d : OrderedDict κ ν} {k : κ} {v old : ν} (h : d.get? k = some old) :
    (d.set k v).entries = d.entries.map fun kv => if kv.1 = k then (k, v) else kv := by
  have hput : ∀ kvs : List (κ × ν), (kvs.map Prod.fst).Nodup → k ∈ kvs.map Prod.fst →
      put k v kvs = kvs.map fun kv => if kv.1 = k then (k, v) else kv := by
    intro kvs hn hk
    induction kvs with
    | nil => cases hk
    | cons kv kvs ih =>
        rw [List.map_cons, List.nodup_cons] at hn
        rw [List.map_cons] at hk ⊢
        by_cases hkv : kv.1 = k
        · have hrest : kvs.map (fun kv => if kv.1 = k then (k, v) else kv) = kvs := by
            refine (List.map_congr_left fun e he => if_neg ?_).trans (List.map_id kvs)
            rintro heq
            exact hn.1 (hkv ▸ heq ▸ List.mem_map_of_mem he)
          rw [put, if_pos hkv, if_pos hkv, hrest]
        · have hmem : k ∈ kvs.map Prod.fst := (List.mem_cons.mp hk).resolve_left (Ne.symm hkv)
          rw [put, if_neg hkv, if_neg hkv, ih hn.2 hmem]
  refine hput d.entries d.nodup ?_
  rw [← find_isSome]
  exact Option.isSome_of_mem h

theorem countP_set (d : OrderedDict κ ν) (k : κ) (v : ν) (p : κ × ν → Bool) :
    (d.set k v).entries.countP p =
      d.entries.countP (fun kv => kv.1 ≠ k && p kv) + if p (k, v) then 1 else 0 := by
  have hput : ∀ kvs : List (κ × ν), (kvs.map Prod.fst).Nodup → (put k v kvs).countP p =
      kvs.countP (fun kv => kv.1 ≠ k && p kv) + if p (k, v) then 1 else 0 := by
    intro kvs hn
    induction kvs with
    | nil => simp [put, List.countP_cons]
    | cons kv kvs ih =>
        rw [List.map_cons, List.nodup_cons] at hn
        by_cases hkv : kv.1 = k
        · have hrest : kvs.countP (fun kv => kv.1 ≠ k && p kv) = kvs.countP p := by
            refine List.countP_congr fun e he => ?_
            have hne : e.1 ≠ k := fun heq => hn.1 (hkv ▸ heq ▸ List.mem_map_of_mem he)
            simp [hne]
          rw [put, if_pos hkv, List.countP_cons, List.countP_cons, hrest]
          simp [hkv]
        · rw [put, if_neg hkv, List.countP_cons, List.countP_cons, ih hn.2]
          simp only [ne_eq, hkv, not_false_eq_true, decide_true, Bool.true_and]
          omega
  exact hput d.entries d.nodup

theorem update_append (d : OrderedDict κ ν) (kvs : List (κ × ν)) (kv : κ × ν) :
    d.update (kvs ++ [kv]) = (d.update kvs).set kv.1 kv.2 := by
  rw [update, List.foldl_append]
  rfl

theorem entries_update_nodup {kvs : List (κ × ν)} (hn : (kvs.map Prod.fst).Nodup) :
    ((empty : OrderedDict κ ν).update kvs).entries = kvs := by
  induction kvs using List.reverseRecOn with
  | nil => rfl
  | append_singleton kvs kv ih =>
      rw [List.map_append, List.nodup_append] at hn
      obtain ⟨hkvs, -, hnew⟩ := hn
      have hfresh : kv.1 ∉ ((empty : OrderedDict κ ν).update kvs).keys := by
        rw [keys, ih hkvs]
        exact fun hmem => hnew _ hmem _ (by simp) rfl
      rw [update_append, entries_set_new hfresh, ih hkvs]

theorem mem_keys_update {d : OrderedDict κ ν} {kvs : List (κ × ν)} {k : κ} :
    k ∈ (d.update kvs).keys ↔ k ∈ d.keys ∨ k ∈ kvs.map Prod.fst := by
  induction kvs using List.reverseRecOn with
  | nil => simp [update]
  | append_singleton kvs kv ih =>
      rw [update_append, mem_keys_set, ih, List.map_append, List.mem_append]
      simp only [List.map_cons, List.map_nil, List.mem_singleton]
      tauto

theorem mem_update_nodup {kvs : List (κ × ν)} (hn : (kvs.map Prod.fst).Nodup) {k : κ} {v : ν} :
    (k, v) ∈ ((empty : OrderedDict κ ν).update kvs).entries ↔ (k, v) ∈ kvs := by
  rw [mem_entries_iff, find_foldl_set empty hn, get?_empty, Option.or_none]
  exact ⟨mem_of_find, find_of_mem hn⟩

theorem mem_update_empty {kvs : List (κ × ν)} {k : κ} {v : ν} :
    (k, v) ∈ ((empty : OrderedDict κ ν).update kvs).entries ↔
      ∃ pre post, kvs = pre ++ (k, v) :: post ∧ ∀ kv ∈ post, kv.1 ≠ k := by
  rw [mem_entries_iff]
  induction kvs using List.reverseRecOn with
  | nil =>
      constructor
      · intro h
        cases h
      · rintro ⟨pre, post, h, _⟩
        simp at h
  | append_singleton kvs kv ih =>
      obtain ⟨j, w⟩ := kv
      rw [update_append, get?_set]
      constructor
      · intro h
        split at h
        · next heq =>
            obtain rfl := Option.some.inj h
            exact ⟨kvs, [], by rw [heq], by simp⟩
        · next hne =>
            obtain ⟨pre, post, rfl, hpost⟩ := ih.mp h
            refine ⟨pre, post ++ [(j, w)], by simp, fun kv hkv => ?_⟩
            rcases List.mem_append.mp hkv with hkv | hkv
            · exact hpost kv hkv
            · rw [List.mem_singleton.mp hkv]
              exact fun e => hne e.symm
      · rintro ⟨pre, post, heq, hpost⟩
        rcases List.eq_nil_or_concat post with rfl | ⟨post, last, rfl⟩
        · have hlast := List.append_inj' heq rfl
          obtain ⟨rfl, rfl⟩ := Prod.mk.inj (List.cons.inj hlast.2).1
          rw [if_pos rfl]
        · rw [List.concat_eq_append, ← List.cons_append, ← List.append_assoc] at heq
          have hlast := List.append_inj' heq rfl
          obtain rfl := (List.cons.inj hlast.2).1
          have hne : k ≠ j := fun e => hpost (j, w) (by simp) e.symm
          rw [if_neg hne]
          exact ih.mpr ⟨pre, post, hlast.1, fun kv hkv => hpost kv (by simp [hkv])⟩

end Lookup

end OrderedDict

-- A loop that keeps one accumulator a key: `setdefault`, and then an update of what is there.

namespace OrderedDict

variable {κ ν β : Type*} [DecidableEq κ] {start : κ → ν → β} {step : β → ν → β}
  {d : OrderedDict κ β} {k : κ} {kvs : List (κ × ν)} {a : β}

def tally (start : κ → ν → β) (step : β → ν → β) (d : OrderedDict κ β) (kv : κ × ν) :
    OrderedDict κ β :=
  d.set kv.1 (step ((d.get? kv.1).getD (start kv.1 kv.2)) kv.2)

def valuesFor (k : κ) (kvs : List (κ × ν)) : List ν := (kvs.filter (·.1 = k)).map (·.2)

def accumulate (start : κ → ν → β) (step : β → ν → β) (k : κ) (o : Option β) (v : ν) : Option β :=
  some (step (o.getD (start k v)) v)

theorem mem_valuesFor {v : ν} : v ∈ valuesFor k kvs ↔ (k, v) ∈ kvs := by
  simp [valuesFor]

theorem valuesFor_eq_nil : valuesFor k kvs = [] ↔ k ∉ kvs.map Prod.fst := by
  rw [valuesFor, List.map_eq_nil_iff, List.filter_eq_nil_iff, List.mem_map, not_exists]
  simp only [decide_eq_true_eq, not_and]

theorem valuesFor_entries (d : OrderedDict κ ν) (k : κ) :
    valuesFor k d.entries = (d.get? k).toList := by
  have hfind : ∀ kvs : List (κ × ν), (kvs.map Prod.fst).Nodup →
      valuesFor k kvs = (find k kvs).toList := by
    intro kvs hn
    induction kvs with
    | nil => rfl
    | cons kv kvs ih =>
        rw [List.map_cons, List.nodup_cons] at hn
        by_cases hk : kv.1 = k
        · have hnone : valuesFor k kvs = [] := valuesFor_eq_nil.mpr (hk ▸ hn.1)
          rw [valuesFor] at hnone
          simp [valuesFor, find, hk, hnone]
        · have hrest := ih hn.2
          rw [valuesFor] at hrest
          simp [valuesFor, find, hk, hrest]
  exact hfind d.entries d.nodup

theorem get?_foldl_tally :
    (kvs.foldl (tally start step) d).get? k =
      (valuesFor k kvs).foldl (accumulate start step k) (d.get? k) := by
  induction kvs generalizing d with
  | nil => rfl
  | cons kv kvs ih =>
      rw [List.foldl_cons, ih, tally, get?_set]
      by_cases hk : kv.1 = k
      · subst hk
        simp [valuesFor, accumulate]
      · simp [valuesFor, hk, Ne.symm hk]

omit [DecidableEq κ] in
theorem foldl_accumulate_some {vs : List ν} :
    vs.foldl (accumulate start step k) (some a) = some (vs.foldl step a) := by
  induction vs generalizing a with
  | nil => rfl
  | cons v vs ih => exact ih

theorem get?_tallied_eq_none :
    (kvs.foldl (tally start step) empty).get? k = none ↔ valuesFor k kvs = [] := by
  rw [get?_foldl_tally, get?_empty]
  cases valuesFor k kvs with
  | nil => simp
  | cons v vs => simp [accumulate, foldl_accumulate_some]

theorem foldl_invariant {P : List ν → β → Prop} {seen vs : List ν} (h : P seen a)
    (hstep : ∀ seen a v, P seen a → P (seen ++ [v]) (step a v)) :
    P (seen ++ vs) (vs.foldl step a) := by
  induction vs generalizing seen a with
  | nil => rwa [List.append_nil]
  | cons v vs ih =>
      have hnext := ih (hstep seen a v h)
      rwa [List.append_assoc, List.singleton_append] at hnext

-- What holds after the first value of a key, and is kept by each further one, holds of what the
-- loop leaves there.
theorem tallied_invariant {P : List ν → β → Prop}
    (hfirst : ∀ v, P [v] (step (start k v) v))
    (hstep : ∀ seen a v, P seen a → P (seen ++ [v]) (step a v))
    (h : (kvs.foldl (tally start step) empty).get? k = some a) : P (valuesFor k kvs) a := by
  rw [get?_foldl_tally, get?_empty] at h
  cases hvs : valuesFor k kvs with
  | nil =>
      rw [hvs] at h
      cases h
  | cons v vs =>
      rw [hvs, List.foldl_cons] at h
      have hfold : vs.foldl (accumulate start step k) (some (step (start k v) v)) =
          some (vs.foldl step (step (start k v) v)) := foldl_accumulate_some
      cases hfold.symm.trans h
      exact foldl_invariant (hfirst v) hstep

-- The keys of what is kept of the accumulators, where each result names the key it comes from.
theorem mem_verdicts {γ : Type*} {verdict : κ → β → Option γ} {keyOf : γ → κ} {Q : Prop}
    (hkey : ∀ k a g, verdict k a = some g → keyOf g = k)
    (hsome : ∀ a, (kvs.foldl (tally start step) empty).get? k = some a →
      ((verdict k a).isSome ↔ Q))
    (hnone : valuesFor k kvs = [] → ¬ Q) :
    k ∈ ((kvs.foldl (tally start step) empty).entries.filterMap fun kv =>
      verdict kv.1 kv.2).map keyOf ↔ Q := by
  simp only [List.mem_map, List.mem_filterMap]
  constructor
  · rintro ⟨g, ⟨⟨k', a⟩, hentry, hg⟩, rfl⟩
    obtain rfl := hkey k' a g hg
    exact (hsome a (mem_entries_iff.mp hentry)).mp (Option.isSome_of_mem hg)
  · intro hq
    cases ha : (kvs.foldl (tally start step) empty).get? k with
    | none => exact absurd hq (hnone (get?_tallied_eq_none.mp ha))
    | some a =>
        obtain ⟨g, hg⟩ := Option.isSome_iff_exists.mp ((hsome a ha).mpr hq)
        exact ⟨g, ⟨(k, a), mem_entries_iff.mpr ha, hg⟩, hkey k a g hg⟩

-- A loop that skips some of its items, and visits what each of the others holds.
omit [DecidableEq κ] in
theorem foldl_skipping {α σ ε : Type*} {skip : α → Bool} {visits : α → List ε} {f : σ → ε → σ}
    {s : σ} {xs : List α} :
    xs.foldl (fun s x => if skip x then s else (visits x).foldl f s) s =
      ((xs.filter fun x => !skip x).flatMap visits).foldl f s := by
  induction xs generalizing s with
  | nil => rfl
  | cons x xs ih =>
      rw [List.foldl_cons, ih]
      cases hskip : skip x <;> simp [hskip]

end OrderedDict
