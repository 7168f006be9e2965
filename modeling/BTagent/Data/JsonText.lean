import BTagent.Data.Jsonb

namespace BTagent

structure JsonStyle where
  itemSeparator : String
  keySeparator : String
  ensureAscii : Bool
  sortKeys : Bool

namespace Json

mutual

-- `P` holds of a value and of all values inside it.
def Throughout (P : Json → Prop) : Json → Prop
  | .arr xs => P (.arr xs) ∧ ThroughoutList P xs
  | .obj kvs => P (.obj kvs) ∧ ThroughoutFields P kvs
  | x => P x

def ThroughoutList (P : Json → Prop) : List Json → Prop
  | [] => True
  | x :: xs => Throughout P x ∧ ThroughoutList P xs

def ThroughoutFields (P : Json → Prop) : List (String × Json) → Prop
  | [] => True
  | (_, v) :: kvs => Throughout P v ∧ ThroughoutFields P kvs

end

def DistinctKeys : Json → Prop
  | .obj kvs => (kvs.map Prod.fst).Nodup
  | _ => True

-- A JSONB column gives a float back as it was.
def FloatKept (N : JsonbNumeric) : Json → Prop
  | .float r => N.read r = .float r
  | _ => True

end Json

namespace JsonText

def unicodeEscape (n : ℕ) : List Char :=
  ['\\', 'u', (n / 4096 % 16).digitChar, (n / 256 % 16).digitChar, (n / 16 % 16).digitChar,
    (n % 16).digitChar]

def escapeChar (style : JsonStyle) (c : Char) : List Char :=
  if c = '\x22' then ['\\', '\x22']
  else if c = '\\' then ['\\', '\\']
  else if c = '\n' then ['\\', 'n']
  else if c = '\r' then ['\\', 'r']
  else if c = '\t' then ['\\', 't']
  else if c = '\x0c' then ['\\', 'f']
  else if c = '\x08' then ['\\', 'b']
  else if c.toNat < 32 then unicodeEscape c.toNat
  else if style.ensureAscii ∧ 126 < c.toNat then
    if c.toNat < 65536 then unicodeEscape c.toNat
    else
      unicodeEscape (55296 + (c.toNat - 65536) / 1024) ++
        unicodeEscape (56320 + (c.toNat - 65536) % 1024)
  else [c]

def quote (style : JsonStyle) (s : String) : String :=
  String.ofList ('\x22' :: (s.toList.flatMap (escapeChar style) ++ ['\x22']))

def floatText (repr : String) : String :=
  if repr = "nan" then "NaN"
  else if repr = "inf" then "Infinity"
  else if repr = "-inf" then "-Infinity"
  else repr

def CodePointLe {α : Type*} (a b : String × α) : Prop := a.1 ≤ b.1

instance {α : Type*} (a b : String × α) : Decidable (CodePointLe a b) :=
  inferInstanceAs (Decidable (a.1 ≤ b.1))

def orderFields {α : Type*} (style : JsonStyle) (kvs : List (String × α)) : List (String × α) :=
  if style.sortKeys then kvs.insertionSort CodePointLe else kvs

def objectText (style : JsonStyle) (fields : List (String × String)) : String :=
  "\x7b" ++ style.itemSeparator.intercalate ((orderFields style fields).map fun kv =>
    quote style kv.1 ++ style.keySeparator ++ kv.2) ++ "\x7d"

mutual

-- `json.dumps`
def dumps (style : JsonStyle) : Json → String
  | .null => "null"
  | .bool b => if b then "true" else "false"
  | .int n => toString n
  | .float r => floatText r
  | .str s => quote style s
  | .arr xs => "[" ++ style.itemSeparator.intercalate (dumpsList style xs) ++ "]"
  | .obj kvs => objectText style (dumpsFields style kvs)

def dumpsList (style : JsonStyle) : List Json → List String
  | [] => []
  | x :: xs => dumps style x :: dumpsList style xs

def dumpsFields (style : JsonStyle) : List (String × Json) → List (String × String)
  | [] => []
  | (k, v) :: kvs => (k, dumps style v) :: dumpsFields style kvs

end

instance {α : Type*} : Std.Total (CodePointLe (α := α)) := ⟨fun a b => le_total a.1 b.1⟩

instance {α : Type*} : IsTrans (String × α) CodePointLe :=
  ⟨fun _ _ _ hab hbc => le_trans (α := String) hab hbc⟩

section Order
variable {α : Type*} {style : JsonStyle} {kvs kvs' : List (String × α)}

theorem orderFields_congr (hsort : style.sortKeys = true) (hn : (kvs.map Prod.fst).Nodup)
    (h : kvs.Perm kvs') : orderFields style kvs = orderFields style kvs' := by
  simp only [orderFields, hsort, if_true]
  have hperm : (kvs.insertionSort CodePointLe).Perm kvs := List.perm_insertionSort _ _
  have hperm' : (kvs'.insertionSort CodePointLe).Perm kvs' := List.perm_insertionSort _ _
  refine List.Perm.eq_of_pairwise ?_ (List.pairwise_insertionSort CodePointLe kvs)
    (List.pairwise_insertionSort CodePointLe kvs') (hperm.trans (h.trans hperm'.symm))
  intro a b ha hb hab hba
  have hmem : b ∈ kvs := h.mem_iff.mpr (hperm'.mem_iff.mp hb)
  exact List.inj_on_of_nodup_map hn (hperm.mem_iff.mp ha) hmem (le_antisymm hab hba)

end Order

section Store
variable {style : JsonStyle} {N : JsonbNumeric}

theorem dumpsFields_eq_map (kvs : List (String × Json)) :
    dumpsFields style kvs = kvs.map fun kv => (kv.1, dumps style kv.2) := by
  induction kvs with
  | nil => rfl
  | cons kv kvs ih => simp [dumpsFields, ih]

theorem dumpsFields_sortKeys (kvs : List (String × Json)) :
    (dumpsFields style (Jsonb.sortKeys kvs)).Perm (dumpsFields style kvs) := by
  rw [dumpsFields_eq_map, dumpsFields_eq_map]
  exact Jsonb.sortKeys_perm.map _

theorem keys_dumpsFields (kvs : List (String × Json)) :
    (dumpsFields style kvs).map Prod.fst = kvs.map Prod.fst := by
  simp [dumpsFields_eq_map, Function.comp_def]

mutual

theorem dumps_store (hsort : style.sortKeys = true) : ∀ x, x.Throughout Json.DistinctKeys →
    x.Throughout (Json.FloatKept N) → dumps style (Jsonb.store N x) = dumps style x
  | .null, _, _ => rfl
  | .bool _, _, _ => rfl
  | .int _, _, _ => rfl
  | .str _, _, _ => rfl
  | .float r, _, hf => by
      have hread : N.read r = .float r := hf
      simp only [Jsonb.store, hread]
  | .arr xs, hk, hf => by
      simp only [Jsonb.store, dumps, dumpsList_store hsort xs hk.2 hf.2]
  | .obj kvs, hk, hf => by
      have hnodup : (kvs.map Prod.fst).Nodup := hk.1
      have hperm : (dumpsFields style (Jsonb.sortKeys (Jsonb.storeFields N kvs))).Perm
          (dumpsFields style (Jsonb.storeFields N kvs)) := dumpsFields_sortKeys _
      rw [dumpsFields_store hsort kvs hk.2 hf.2] at hperm
      have horder := orderFields_congr hsort
        ((keys_dumpsFields kvs).symm ▸ hnodup) hperm.symm
      simp only [Jsonb.store, dumps, objectText, horder]

theorem dumpsList_store (hsort : style.sortKeys = true) : ∀ xs,
    Json.ThroughoutList Json.DistinctKeys xs → Json.ThroughoutList (Json.FloatKept N) xs →
    dumpsList style (Jsonb.storeList N xs) = dumpsList style xs
  | [], _, _ => rfl
  | x :: xs, hk, hf => by
      simp only [Jsonb.storeList, dumpsList, dumps_store hsort x hk.1 hf.1,
        dumpsList_store hsort xs hk.2 hf.2]

theorem dumpsFields_store (hsort : style.sortKeys = true) : ∀ kvs,
    Json.ThroughoutFields Json.DistinctKeys kvs → Json.ThroughoutFields (Json.FloatKept N) kvs →
    dumpsFields style (Jsonb.storeFields N kvs) = dumpsFields style kvs
  | [], _, _ => rfl
  | (k, v) :: kvs, hk, hf => by
      simp only [Jsonb.storeFields, dumpsFields, dumps_store hsort v hk.1 hf.1,
        dumpsFields_store hsort kvs hk.2 hf.2]

end

end Store

end JsonText

end BTagent
