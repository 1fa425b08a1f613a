import Mathlib.Data.List.Nodup
import Mathlib.Data.Set.List

/-!
# Key-value stores

A store maps keys, which are texts, to values, and lists its entries in the order of the keys. The
entries of several families share one store: each family has its own keys, and an iteration over the
keys that begin with a text is to see one family.
-/

namespace LkChain.Foundation.KeyValue

/-- A store with its keys in order. -/
abbrev Store (Value : Type) := Std.ExtTreeMap (List Char) Value

variable {Value : Type}

/-- The entries whose keys begin with a text, in the order of the keys. -/
def iterate (db : Store Value) (start : List Char) : List (List Char × Value) :=
  db.toList.filter fun entry ↦ start.isPrefixOf entry.1

theorem mem_iterate {db : Store Value} {start : List Char} {entry : List Char × Value} :
    entry ∈ iterate db start ↔ db[entry.1]? = some entry.2 ∧ start <+: entry.1 := by
  unfold iterate
  rw [List.mem_filter, ← Std.ExtTreeMap.mem_toList_iff_getElem?_eq_some, List.isPrefixOf_iff_prefix]

theorem iterate_sorted (db : Store Value) (start : List Char) :
    (iterate db start).Pairwise fun entry later ↦ compare entry.1 later.1 = .lt :=
  Std.ExtTreeMap.ordered_keys_toList.filter _

theorem iterate_nodup (db : Store Value) (start : List Char) :
    ((iterate db start).map Prod.fst).Nodup := by
  rw [List.Nodup, List.pairwise_map]
  apply (iterate_sorted db start).imp
  intro entry later hlt heq
  rw [heq, Std.compare_self] at hlt
  cases hlt

/-! ## Families of keys

The keys of all families together are a type of their own, each with its text. -/

section Keys

variable {Key : Type} {text : Key → List Char} {db : Store Value} {contents : Key → Option Value}

/-- The store holds what is filed under the keys, and nothing else. -/
structure Represents (text : Key → List Char) (db : Store Value) (contents : Key → Option Value) :
    Prop where
  read : ∀ key, db[text key]? = contents key
  only : ∀ entry value, db[entry]? = some value → ∃ key, text key = entry

theorem represents_empty (text : Key → List Char) :
    Represents text (∅ : Store Value) fun _ ↦ none where
  read _ := Std.ExtTreeMap.getElem?_empty
  only entry value hentry := by
    rw [Std.ExtTreeMap.getElem?_empty] at hentry
    cases hentry

variable [DecidableEq Key]

theorem Represents.insert (hrepresents : Represents text db contents)
    (htext : Function.Injective text) (key : Key) (value : Value) :
    Represents text (db.insert (text key) value) (Function.update contents key (some value)) where
  read other := by
    rw [Std.ExtTreeMap.getElem?_insert, Function.update_apply, hrepresents.read]
    apply if_congr _ rfl rfl
    rw [Std.compare_eq_iff_eq, htext.eq_iff, eq_comm]
  only entry found hfound := by
    rw [Std.ExtTreeMap.getElem?_insert] at hfound
    split_ifs at hfound with hkey
    · exact ⟨key, Std.compare_eq_iff_eq.mp hkey⟩
    · exact hrepresents.only entry found hfound

omit [DecidableEq Key] in
/-- What is written from one store into another hides what was there. -/
theorem Represents.union (hrepresents : Represents text db contents) {items : Store Value}
    {written : Key → Option Value} (hitems : Represents text items written) :
    Represents text (db ∪ items) fun key ↦ (written key).or (contents key) where
  read key := by rw [Std.ExtTreeMap.getElem?_union, hitems.read, hrepresents.read]
  only entry value hfound := by
    rw [Std.ExtTreeMap.getElem?_union, Option.or_eq_some_iff] at hfound
    rcases hfound with hwritten | ⟨-, hold⟩
    · exact hitems.only entry value hwritten
    · exact hrepresents.only entry value hold

theorem Represents.erase (hrepresents : Represents text db contents)
    (htext : Function.Injective text) (key : Key) :
    Represents text (db.erase (text key)) (Function.update contents key none) where
  read other := by
    rw [Std.ExtTreeMap.getElem?_erase, Function.update_apply, hrepresents.read]
    apply if_congr _ rfl rfl
    rw [Std.compare_eq_iff_eq, htext.eq_iff, eq_comm]
  only entry found hfound := by
    rw [Std.ExtTreeMap.getElem?_erase] at hfound
    split_ifs at hfound with hkey
    exact hrepresents.only entry found hfound

omit [DecidableEq Key] in
theorem Represents.mem_iterate (hrepresents : Represents text db contents) {start : List Char}
    {entry : List Char × Value} :
    entry ∈ iterate db start ↔
      ∃ key, text key = entry.1 ∧ start <+: text key ∧ contents key = some entry.2 := by
  rw [KeyValue.mem_iterate]
  constructor
  · rintro ⟨hfound, hstart⟩
    obtain ⟨key, hkey⟩ := hrepresents.only _ _ hfound
    refine ⟨key, hkey, hkey ▸ hstart, ?_⟩
    rw [← hrepresents.read, hkey]
    exact hfound
  · rintro ⟨key, hkey, hstart, hfound⟩
    rw [← hrepresents.read, hkey] at hfound
    exact ⟨hfound, hkey ▸ hstart⟩

omit [DecidableEq Key] in
/-- An iteration over a family of keys lists the items that are filed in it, each once. -/
theorem Represents.exists_items (hrepresents : Represents text db contents)
    (htext : Function.Injective text) (start : List Char) {Item : Type} (wanted : Item → Prop)
    (entry : Item → Key × Value)
    (hentry : ∀ item, wanted item → start <+: text (entry item).1 ∧
      contents (entry item).1 = some (entry item).2)
    (hitem : ∀ key value, start <+: text key → contents key = some value →
      ∃ item, wanted item ∧ entry item = (key, value))
    (hinj : ∀ item item', wanted item → wanted item' → (entry item).1 = (entry item').1 →
      item = item') :
    ∃ items : List Item, (∀ item, item ∈ items ↔ wanted item) ∧ items.Nodup ∧
      iterate db start = items.map fun item ↦ (text (entry item).1, (entry item).2) := by
  let line : {item // wanted item} → List Char × Value :=
    fun item ↦ (text (entry item).1, (entry item).2)
  have hlines : iterate db start ∈ Set.range (List.map line) := by
    rw [Set.range_list_map]
    intro found hfound
    obtain ⟨key, hkey, hstart, hcontents⟩ := hrepresents.mem_iterate.mp hfound
    obtain ⟨item, hwanted, heq⟩ := hitem key found.2 hstart hcontents
    refine ⟨⟨item, hwanted⟩, ?_⟩
    simp only [line, heq, hkey]
  obtain ⟨items, hitems⟩ := hlines
  have hmem : ∀ item, item ∈ items.map Subtype.val ↔ wanted item := by
    intro item
    rw [List.mem_map]
    constructor
    · rintro ⟨listed, -, rfl⟩
      exact listed.2
    · intro hwanted
      obtain ⟨hstart, hcontents⟩ := hentry item hwanted
      have hfound : (text (entry item).1, (entry item).2) ∈ iterate db start :=
        hrepresents.mem_iterate.mpr ⟨(entry item).1, rfl, hstart, hcontents⟩
      rw [← hitems, List.mem_map] at hfound
      obtain ⟨listed, hlisted, hline⟩ := hfound
      have hkey := htext (congrArg Prod.fst hline)
      exact ⟨listed, hlisted, hinj _ _ listed.2 hwanted hkey⟩
  have hnodup : items.Nodup := by
    have hkeys := iterate_nodup db start
    rw [← hitems, List.map_map] at hkeys
    exact hkeys.of_map _
  refine ⟨items.map Subtype.val, hmem, hnodup.map Subtype.val_injective, ?_⟩
  rw [← hitems, List.map_map]
  rfl

end Keys

end LkChain.Foundation.KeyValue
