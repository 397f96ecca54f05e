import Elbus.Wire
import Mathlib.Data.List.Nodup

/-!
# Lists with distinct keys

The broker keeps its three indexes in Rust collections whose elements are told apart by a
client name: `HashMap<String, BrokerClient>`, and the `HashSet`s of the `submap` crate over
`Arc<ElbusClient>`, whose `PartialEq` and `Hash` read the name only. `KeyedList` is that
shape: a list whose elements have distinct keys, the distinctness carried as a field, so no
index of the model can hold two entries for one name.

Every operation is stated once here, with its membership lemma; the indexes of
`Elbus.Index` are instances.
-/

namespace Elbus

/-- A list whose elements have pairwise distinct keys. -/
structure KeyedList (α : Type) (key : α → Bytes) where
  items : List α
  nodup : (items.map key).Nodup

namespace KeyedList

variable {α : Type} {key : α → Bytes}

instance : EmptyCollection (KeyedList α key) := ⟨⟨[], List.nodup_nil⟩⟩

/-- The keys present. -/
def keys (m : KeyedList α key) : List Bytes := m.items.map key

/-- The element with key `k` (`HashMap::get`). -/
def lookup (m : KeyedList α key) (k : Bytes) : Option α := m.items.find? (fun a => key a = k)

/-- Add `a` unless its key is present: `HashSet::insert`, which keeps the element it already
has, and insertion into a vacant `HashMap` entry. -/
def insert (m : KeyedList α key) (a : α) : KeyedList α key :=
  if h : key a ∈ m.keys then m else ⟨a :: m.items, List.nodup_cons.2 ⟨h, m.nodup⟩⟩

/-- Drop the element with key `k` (`HashMap::remove`, `HashSet::remove`). -/
def erase (m : KeyedList α key) (k : Bytes) : KeyedList α key :=
  ⟨m.items.filter (fun a => key a ≠ k), m.nodup.sublist ((List.filter_sublist _).map key)⟩

/-- Change the element with key `k` by a map that keeps keys. -/
def modify (m : KeyedList α key) (k : Bytes) (f : α → α) (hf : ∀ a, key (f a) = key a) :
    KeyedList α key :=
  ⟨m.items.map (fun a => if key a = k then f a else a), by
    rw [List.map_map]
    convert m.nodup using 2
    funext a
    by_cases h : key a = k <;> simp [h, hf]⟩

@[simp] theorem items_empty : (∅ : KeyedList α key).items = [] := rfl

theorem mem_keys {m : KeyedList α key} {k : Bytes} : k ∈ m.keys ↔ ∃ a ∈ m.items, key a = k := by
  simp [keys]

/-- Two elements with one key are one element. -/
theorem eq_of_key_eq (m : KeyedList α key) {a b : α} (ha : a ∈ m.items) (hb : b ∈ m.items)
    (h : key a = key b) : a = b :=
  List.inj_on_of_nodup_map m.nodup ha hb h

theorem lookup_eq_some {m : KeyedList α key} {k : Bytes} {a : α} :
    m.lookup k = some a ↔ a ∈ m.items ∧ key a = k := by
  constructor
  · intro h
    exact ⟨List.mem_of_find?_eq_some h, by simpa using List.find?_some h⟩
  · rintro ⟨ha, rfl⟩
    obtain ⟨b, hb⟩ := Option.isSome_iff_exists.1
      (List.find?_isSome.2 ⟨a, ha, by simp⟩ : (m.lookup (key a)).isSome)
    have hb' := List.mem_of_find?_eq_some hb
    have hk : key b = key a := by simpa using List.find?_some hb
    rw [lookup, hb, m.eq_of_key_eq hb' ha hk]

theorem mem_insert {m : KeyedList α key} {a b : α} :
    b ∈ (m.insert a).items ↔ b ∈ m.items ∨ (b = a ∧ key a ∉ m.keys) := by
  unfold insert
  split <;> simp_all [or_comm]

theorem mem_erase {m : KeyedList α key} {k : Bytes} {a : α} :
    a ∈ (m.erase k).items ↔ a ∈ m.items ∧ key a ≠ k := by
  simp [erase]

theorem mem_modify {m : KeyedList α key} {k : Bytes} {f : α → α} {hf : ∀ a, key (f a) = key a}
    {b : α} : b ∈ (m.modify k f hf).items ↔ ∃ a ∈ m.items, b = if key a = k then f a else a := by
  simp [modify, eq_comm]

@[simp] theorem keys_insert (m : KeyedList α key) (a : α) :
    (m.insert a).keys = if key a ∈ m.keys then m.keys else key a :: m.keys := by
  unfold insert
  split <;> simp_all [keys]

@[simp] theorem keys_modify (m : KeyedList α key) (k : Bytes) (f : α → α)
    (hf : ∀ a, key (f a) = key a) : (m.modify k f hf).keys = m.keys := by
  simp only [keys, modify, List.map_map]
  congr 1
  funext a
  by_cases h : key a = k <;> simp [h, hf]

end KeyedList

end Elbus
