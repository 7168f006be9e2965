import BTagent.Data.Json
import Mathlib.Data.String.Basic

namespace BTagent

structure JsonbNumeric where
  read : String → Json
  stable : ∀ r, (∃ n, read r = .int n) ∨ ∃ r', read r = .float r' ∧ read r' = .float r'

-- A reading that keeps every number as the text it was written with.
def JsonbNumeric.verbatim : JsonbNumeric where
  read := .float
  stable r := Or.inr ⟨r, rfl, rfl⟩

namespace Jsonb

-- PostgreSQL keeps the keys of an object by length, then by bytes.
def KeyLe (a b : String) : Prop :=
  a.utf8ByteSize < b.utf8ByteSize ∨ (a.utf8ByteSize = b.utf8ByteSize ∧ a ≤ b)

instance (a b : String) : Decidable (KeyLe a b) := inferInstanceAs (Decidable (_ ∨ _))

def FieldLe {α : Type*} (a b : String × α) : Prop := KeyLe a.1 b.1

instance {α : Type*} (a b : String × α) : Decidable (FieldLe a b) :=
  inferInstanceAs (Decidable (KeyLe a.1 b.1))

def sortKeys {α : Type*} (kvs : List (String × α)) : List (String × α) :=
  kvs.insertionSort FieldLe

theorem keyLe_total (a b : String) : KeyLe a b ∨ KeyLe b a := by
  rcases Nat.lt_trichotomy a.utf8ByteSize b.utf8ByteSize with h | h | h
  · exact Or.inl (Or.inl h)
  · rcases le_total a b with hab | hba
    · exact Or.inl (Or.inr ⟨h, hab⟩)
    · exact Or.inr (Or.inr ⟨h.symm, hba⟩)
  · exact Or.inr (Or.inl h)

theorem keyLe_trans {a b c : String} (hab : KeyLe a b) (hbc : KeyLe b c) : KeyLe a c := by
  rcases hab with hab | ⟨hab, hab'⟩
  · rcases hbc with hbc | ⟨hbc, -⟩
    · exact Or.inl (hab.trans hbc)
    · exact Or.inl (hbc ▸ hab)
  · rcases hbc with hbc | ⟨hbc, hbc'⟩
    · exact Or.inl (hab ▸ hbc)
    · exact Or.inr ⟨hab.trans hbc, hab'.trans hbc'⟩

theorem keyLe_antisymm {a b : String} (hab : KeyLe a b) (hba : KeyLe b a) : a = b := by
  rcases hab with hab | ⟨heq, hab⟩
  · rcases hba with hba | ⟨hba, -⟩ <;> omega
  · rcases hba with hba | ⟨-, hba⟩
    · omega
    · exact le_antisymm hab hba

instance {α : Type*} : Std.Total (FieldLe (α := α)) := ⟨fun a b => keyLe_total a.1 b.1⟩

instance {α : Type*} : IsTrans (String × α) FieldLe := ⟨fun _ _ _ => keyLe_trans⟩

section SortKeys
variable {α : Type*} {kvs : List (String × α)}

theorem sortKeys_perm : (sortKeys kvs).Perm kvs := List.perm_insertionSort _ _

theorem sortKeys_sorted : (sortKeys kvs).Pairwise FieldLe := List.pairwise_insertionSort _ _

@[simp] theorem sortKeys_sortKeys : sortKeys (sortKeys kvs) = sortKeys kvs :=
  sortKeys_sorted.insertionSort_eq

theorem sortKeys_map {β : Type*} (f : α → β) :
    (sortKeys kvs).map (fun kv => (kv.1, f kv.2)) =
      sortKeys (kvs.map fun kv => (kv.1, f kv.2)) :=
  List.map_insertionSort _ _ _ _ fun _ _ _ _ => Iff.rfl

theorem sortKeys_congr {kvs' : List (String × α)} (hn : (kvs.map Prod.fst).Nodup)
    (h : kvs.Perm kvs') : sortKeys kvs = sortKeys kvs' := by
  refine List.Perm.eq_of_pairwise ?_ sortKeys_sorted sortKeys_sorted
    (sortKeys_perm.trans (h.trans sortKeys_perm.symm))
  intro a b ha _ hab hba
  have hmem : b ∈ kvs := by
    rename_i hb
    exact h.mem_iff.mpr (sortKeys_perm.mem_iff.mp hb)
  exact List.inj_on_of_nodup_map hn (sortKeys_perm.mem_iff.mp ha) hmem (keyLe_antisymm hab hba)

end SortKeys

variable (N : JsonbNumeric)

mutual

def store : Json → Json
  | .float r => N.read r
  | .arr xs => .arr (storeList xs)
  | .obj kvs => .obj (sortKeys (storeFields kvs))
  | x => x

def storeList : List Json → List Json
  | [] => []
  | x :: xs => store x :: storeList xs

def storeFields : List (String × Json) → List (String × Json)
  | [] => []
  | (k, v) :: kvs => (k, store v) :: storeFields kvs

end

theorem storeList_eq_map (xs : List Json) : storeList N xs = xs.map (store N) := by
  induction xs with
  | nil => rfl
  | cons x xs ih => simp [storeList, ih]

theorem storeFields_eq_map (kvs : List (String × Json)) :
    storeFields N kvs = kvs.map fun kv => (kv.1, store N kv.2) := by
  induction kvs with
  | nil => rfl
  | cons kv kvs ih => simp [storeFields, ih]

theorem storeFields_sortKeys (kvs : List (String × Json)) :
    storeFields N (sortKeys kvs) = sortKeys (storeFields N kvs) := by
  simp only [storeFields_eq_map, sortKeys_map]

mutual

theorem store_store : ∀ x, store N (store N x) = store N x
  | .null => rfl
  | .bool _ => rfl
  | .int _ => rfl
  | .str _ => rfl
  | .float r => by
      rcases N.stable r with ⟨n, h⟩ | ⟨r', h, h'⟩
      · simp [store, h]
      · simp [store, h, h']
  | .arr xs => by simp only [store, storeList_storeList xs]
  | .obj kvs => by
      simp only [store, storeFields_sortKeys, sortKeys_sortKeys, storeFields_storeFields kvs]

theorem storeList_storeList : ∀ xs, storeList N (storeList N xs) = storeList N xs
  | [] => rfl
  | x :: xs => by simp only [storeList, store_store x, storeList_storeList xs]

theorem storeFields_storeFields : ∀ kvs, storeFields N (storeFields N kvs) = storeFields N kvs
  | [] => rfl
  | (k, v) :: kvs => by simp only [storeFields, store_store v, storeFields_storeFields kvs]

end

theorem keys_storeFields (kvs : List (String × Json)) :
    (storeFields N kvs).map Prod.fst = kvs.map Prod.fst := by
  simp [storeFields_eq_map, Function.comp_def]

def obj (d : Dict) : Dict where
  entries := sortKeys (storeFields N d.entries)
  nodup := (sortKeys_perm.map Prod.fst).nodup_iff.mpr ((keys_storeFields N d.entries).symm ▸ d.nodup)

theorem get?_obj (d : Dict) (k : String) : (obj N d).get? k = (d.get? k).map (store N) := by
  have hperm : (obj N d).entries.Perm (d.mapVal (store N)).entries := by
    simp only [obj, storeFields_eq_map, OrderedDict.mapVal]
    exact sortKeys_perm
  rw [← OrderedDict.get?_mapVal]
  exact OrderedDict.find_perm (obj N d).nodup hperm

def Same (d e : Dict) : Prop := ∀ k, (d.get? k).map (store N) = (e.get? k).map (store N)

theorem obj_ext {d e : Dict} (h : Same N d e) : obj N d = obj N e := by
  have hperm : (d.mapVal (store N)).entries.Perm (e.mapVal (store N)).entries :=
    OrderedDict.perm_of_get? fun k => by simpa using h k
  refine OrderedDict.ext_entries ?_
  simp only [obj, storeFields_eq_map]
  exact sortKeys_congr (d.mapVal (store N)).nodup hperm

theorem same_obj (d : Dict) : Same N (obj N d) d := by
  intro k
  rw [get?_obj]
  cases d.get? k with
  | none => rfl
  | some v => simp [store_store]

variable {N}

theorem Same.refl (d : Dict) : Same N d d := fun _ => rfl

theorem Same.symm {d e : Dict} (h : Same N d e) : Same N e d := fun k => (h k).symm

theorem Same.trans {c d e : Dict} (h : Same N c d) (h' : Same N d e) : Same N c e :=
  fun k => (h k).trans (h' k)

theorem store_obj_eq_iff {d e : Dict} :
    store N (.obj d.entries) = store N (.obj e.entries) ↔ Same N d e := by
  constructor
  · intro h k
    have hobj : obj N d = obj N e := OrderedDict.ext_entries (by simpa [store, obj] using h)
    rw [← get?_obj, hobj, get?_obj]
  · intro h
    have hobj := congrArg OrderedDict.entries (obj_ext N h)
    simpa [store, obj] using hobj

theorem store_eq_str {x : Json} {text : String} : store N x = .str text ↔ x = .str text := by
  cases x with
  | float r => rcases N.stable r with ⟨n, h⟩ | ⟨r', h, -⟩ <;> simp [store, h]
  | _ => simp [store]

theorem store_eq_null {x : Json} : store N x = .null ↔ x = .null := by
  cases x with
  | float r => rcases N.stable r with ⟨n, h⟩ | ⟨r', h, -⟩ <;> simp [store, h]
  | _ => simp [store]

theorem Same.get?_str {d e : Dict} (h : Same N d e) {k text : String}
    (hd : d.get? k = some (.str text)) : e.get? k = some (.str text) := by
  obtain ⟨x, hx, hs⟩ := Option.map_eq_some_iff.mp (hd ▸ h k).symm
  rw [hx, store_eq_str.mp hs]

theorem Same.get?_null {d e : Dict} (h : Same N d e) {k : String}
    (hd : d.get? k = some .null) : e.get? k = some .null := by
  obtain ⟨x, hx, hs⟩ := Option.map_eq_some_iff.mp (hd ▸ h k).symm
  rw [hx, store_eq_null.mp hs]

theorem Same.get?_none {d e : Dict} (h : Same N d e) {k : String} (hd : d.get? k = none) :
    e.get? k = none := by
  have hk := (h k).symm
  rw [hd] at hk
  simpa using hk

theorem Same.set {d e : Dict} (h : Same N d e) (k : String) {v w : Json}
    (hv : store N v = store N w) : Same N (d.set k v) (e.set k w) := by
  intro j
  rw [OrderedDict.get?_set, OrderedDict.get?_set]
  split
  · simp [hv]
  · exact h j

theorem Same.filterKeys {d e : Dict} (h : Same N d e) (p : String → Bool) :
    Same N (d.filterKeys p) (e.filterKeys p) := by
  intro j
  rw [OrderedDict.get?_filterKeys, OrderedDict.get?_filterKeys]
  split
  · exact h j
  · rfl

theorem Same.update {d e d' e' : Dict} (h : Same N d e) (h' : Same N d' e') :
    Same N (d.update d'.entries) (e.update e'.entries) := by
  intro j
  rw [OrderedDict.get?_update, OrderedDict.get?_update, Option.map_or, Option.map_or, h' j, h j]

theorem Same.update_list {d e : Dict} (h : Same N d e) (kvs : List (String × Json)) :
    Same N (d.update kvs) (e.update kvs) := by
  induction kvs generalizing d e with
  | nil => exact h
  | cons kv kvs ih => exact ih (h.set kv.1 rfl)

section Find
variable {α : Type*} {k : String}

theorem find_orderedInsert {kv : String × α} {kvs : List (String × α)} :
    OrderedDict.find k (kvs.orderedInsert FieldLe kv) =
      if kv.1 = k then some kv.2 else OrderedDict.find k kvs := by
  induction kvs with
  | nil => rfl
  | cons b bs ih =>
      simp only [List.orderedInsert]
      split
      · rfl
      · next hle =>
          have hne : kv.1 = k → b.1 ≠ k := by
            rintro rfl hb
            exact hle (Or.inr ⟨by rw [hb], le_of_eq hb.symm⟩)
          simp only [OrderedDict.find, ih]
          split
          · next hb =>
              rw [if_neg fun hk => hne hk hb]
          · rfl

theorem find_sortKeys {kvs : List (String × α)} :
    OrderedDict.find k (sortKeys kvs) = OrderedDict.find k kvs := by
  induction kvs with
  | nil => rfl
  | cons kv kvs ih =>
      have hcons : sortKeys (kv :: kvs) = (sortKeys kvs).orderedInsert FieldLe kv := rfl
      rw [hcons, find_orderedInsert, ih]
      rfl

end Find

theorem find_store {kvs : List (String × Json)} {k : String} :
    OrderedDict.find k (sortKeys (storeFields N kvs)) = (OrderedDict.find k kvs).map (store N) := by
  rw [find_sortKeys, storeFields_eq_map, OrderedDict.find_map_val]

end Jsonb

end BTagent
