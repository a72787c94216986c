import Mathlib.Data.Finmap

/-!
# Lib.Assoc

Finite maps with the operations of `std::unordered_map`, whose iteration order is not fixed:
`m.lookup a` finds, `m.insert a b` sets and `m.erase a` removes an entry, and `values m` is the
multiset of the values.
-/

namespace TinyKv
namespace Lib

abbrev Assoc (α β : Type) := Finmap fun _ : α => β

variable {α β : Type}

def values (m : Assoc α β) : Multiset β := m.entries.map Sigma.snd

@[simp] theorem values_empty : values (∅ : Assoc α β) = 0 := rfl

variable [DecidableEq α] {m : Assoc α β} {a : α} {b x : β}

theorem mem_values : x ∈ values m ↔ ∃ a, m.lookup a = some x := by
  rw [values, Multiset.mem_map]
  constructor
  · rintro ⟨⟨a, y⟩, hmem, rfl⟩
    exact ⟨a, Finmap.mem_lookup_iff.mpr hmem⟩
  · rintro ⟨a, hl⟩
    exact ⟨⟨a, x⟩, Finmap.mem_lookup_iff.mp hl, rfl⟩

theorem lookup_insert_if (a' : α) :
    (m.insert a b).lookup a' = if a' = a then some b else m.lookup a' := by
  by_cases h : a' = a
  · rw [h, Finmap.lookup_insert, if_pos rfl]
  · rw [Finmap.lookup_insert_of_ne m h, if_neg h]

theorem lookup_erase_if (a' : α) :
    (m.erase a).lookup a' = if a' = a then none else m.lookup a' := by
  by_cases h : a' = a
  · rw [h, Finmap.lookup_erase, if_pos rfl]
  · rw [Finmap.lookup_erase_ne h, if_neg h]

theorem values_insert (h : a ∉ m) : values (m.insert a b) = b ::ₘ values m := by
  rw [values, Finmap.entries_insert_of_notMem h, Multiset.map_cons, values]

theorem mem_values_insert (h : a ∉ m) : x ∈ values (m.insert a b) ↔ x = b ∨ x ∈ values m := by
  rw [values_insert h, Multiset.mem_cons]

theorem insert_erase (h : m.lookup a = some b) : (m.erase a).insert a b = m := by
  apply Finmap.ext_lookup
  intro a'
  rw [lookup_insert_if, lookup_erase_if]
  by_cases ha : a' = a
  · rw [if_pos ha, ha, h]
  · rw [if_neg ha, if_neg ha]

theorem values_erase (h : m.lookup a = some b) : values m = b ::ₘ values (m.erase a) := by
  have hne : a ∉ m.erase a := Finmap.notMem_erase_self
  rw [← values_insert hne, insert_erase h]

/-- Where the key of a value can be read off it, the values are distinct. -/
theorem nodup_map_values {f : β → α} (h : ∀ a b, m.lookup a = some b → f b = a) :
    ((values m).map f).Nodup := by
  have hkeys : (values m).map f = m.entries.keys := by
    rw [values, Multiset.map_map]
    refine Multiset.map_congr rfl ?_
    rintro ⟨a, b⟩ hmem
    exact h a b (Finmap.mem_lookup_iff.mpr hmem)
  rw [hkeys]
  exact m.entries.nodup_keys.mpr m.nodupKeys

end Lib
end TinyKv
