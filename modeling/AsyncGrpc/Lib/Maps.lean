import Mathlib.Data.List.Nodup
import Mathlib.Order.Lattice

/-! # Maps in the order of their keys

An `OrderedMap` is the list of its entries, which stand in the order of their keys; no key stands twice.
`alter` changes the value of one key, in one pass over the entries, and `emplace` adds a key that is not
there.

* `get_alter`, `get_emplace`: what a key has afterwards.
* `exists_position`, `get_of_position`: a key has a value exactly if an entry says so, and
  `position_unique`: it is the only entry with the key. -/

namespace AsyncGrpc.Lib.Maps

/-! ### Entries -/

section Entries
variable {κ β : Type} [LinearOrder κ] {k k' : κ} {f : Option β → β} {l : List (κ × β)}

/-- The entries after the value of `k` was changed by `f`, which is given the old value if there is one. -/
def alterEntries (k : κ) (f : Option β → β) : List (κ × β) → List (κ × β)
  | [] => [(k, f none)]
  | (k', b) :: l =>
    if k < k' then (k, f none) :: (k', b) :: l
    else if k = k' then (k', f (some b)) :: l
    else (k', b) :: alterEntries k f l

/-- The keys stand in strict order. -/
def Sorted (l : List (κ × β)) : Prop := (l.map Prod.fst).Pairwise (· < ·)

instance instDecidableSorted (l : List (κ × β)) : Decidable (Sorted l) :=
  inferInstanceAs (Decidable ((l.map Prod.fst).Pairwise (· < ·)))

theorem mem_keys_alterEntries :
    k' ∈ (alterEntries k f l).map Prod.fst ↔ k' = k ∨ k' ∈ l.map Prod.fst := by
  induction l with
  | nil => simp [alterEntries]
  | cons p l ih =>
    unfold alterEntries
    split_ifs with h1 h2
    · simp
    · simp [h2]
    · rw [List.map_cons, List.mem_cons, ih, List.map_cons, List.mem_cons, or_left_comm]

theorem Sorted.alterEntries (h : Sorted l) : Sorted (alterEntries k f l) := by
  induction l with
  | nil => exact List.pairwise_singleton _ _
  | cons p l ih =>
    obtain ⟨hp, hl⟩ := List.pairwise_cons.mp h
    unfold Maps.alterEntries
    split_ifs with h1 h2
    · refine List.pairwise_cons.mpr ⟨fun k' hk' => ?_, h⟩
      rcases List.mem_cons.mp hk' with rfl | hk'
      · exact h1
      · exact h1.trans (hp k' hk')
    · exact List.pairwise_cons.mpr ⟨hp, hl⟩
    · refine List.pairwise_cons.mpr ⟨fun k' hk' => ?_, ih hl⟩
      rcases mem_keys_alterEntries.mp hk' with rfl | hk'
      · exact lt_of_le_of_ne (not_lt.mp h1) (Ne.symm h2)
      · exact hp k' hk'

theorem lookup_eq_none (h : ∀ k' ∈ l.map Prod.fst, k < k') : l.lookup k = none := by
  refine List.lookup_eq_none_iff.mpr fun p hp => ?_
  have hlt := h p.1 (List.mem_map_of_mem hp)
  simpa using hlt.ne

theorem lookup_cons_if (k0 : κ) (b : β) (l : List (κ × β)) (k : κ) :
    ((k0, b) :: l).lookup k = if k = k0 then some b else l.lookup k := by
  by_cases hk : k = k0
  · simp [hk]
  · have hbeq : (k == k0) = false := by simpa using hk
    simp [List.lookup_cons, hk, hbeq]

theorem lookup_alterEntries (h : Sorted l) :
    (alterEntries k f l).lookup k' = if k' = k then some (f (l.lookup k)) else l.lookup k' := by
  induction l with
  | nil => exact lookup_cons_if _ _ _ _
  | cons p l ih =>
    obtain ⟨k0, b⟩ := p
    obtain ⟨hp, hl⟩ := List.pairwise_cons.mp h
    unfold alterEntries
    by_cases h1 : k < k0
    · have hnone : ((k0, b) :: l).lookup k = none := lookup_eq_none fun k' hk' => by
        rcases List.mem_cons.mp hk' with rfl | hk'
        · exact h1
        · exact h1.trans (hp k' hk')
      rw [if_pos h1, lookup_cons_if, hnone]
    · rw [if_neg h1]
      by_cases h2 : k = k0
      · subst h2
        simp only [if_true, lookup_cons_if]
        split_ifs <;> rfl
      · rw [if_neg h2, lookup_cons_if, ih hl, lookup_cons_if k0 b l k, if_neg h2, lookup_cons_if]
        by_cases hk : k' = k
        · rw [if_pos hk, if_pos hk, if_neg (hk ▸ h2)]
        · rw [if_neg hk, if_neg hk]

end Entries

/-! ### Maps -/

/-- A map from keys to values, with its entries in the order of the keys. -/
structure OrderedMap (κ β : Type) [LinearOrder κ] where
  entries : List (κ × β)
  sorted : Sorted entries

section Maps
variable {κ β : Type} [LinearOrder κ] {m : OrderedMap κ β} {k k' : κ} {b b' : β} {i j : ℕ}

/-- No entries. -/
def empty : OrderedMap κ β := ⟨[], List.Pairwise.nil⟩

/-- The value of a key. -/
def get (m : OrderedMap κ β) (k : κ) : Option β := m.entries.lookup k

/-- The value of one key is changed. -/
def alter (k : κ) (f : Option β → β) (m : OrderedMap κ β) : OrderedMap κ β :=
  ⟨alterEntries k f m.entries, m.sorted.alterEntries⟩

/-- A value for a key that has none. -/
def emplace (k : κ) (b : β) (m : OrderedMap κ β) : OrderedMap κ β := alter k (·.getD b) m

@[simp] theorem get_empty : get (empty : OrderedMap κ β) k = none := rfl

theorem get_alter {f : Option β → β} :
    get (alter k f m) k' = if k' = k then some (f (get m k)) else get m k' :=
  lookup_alterEntries m.sorted

theorem get_emplace : get (emplace k b m) k' = if k' = k then some ((get m k).getD b) else get m k' :=
  get_alter

/-- A key stands at one position only. -/
theorem position_unique (hi : m.entries[i]? = some (k, b)) (hj : m.entries[j]? = some (k, b')) :
    i = j := by
  have hnodup : (m.entries.map Prod.fst).Nodup := m.sorted.imp ne_of_lt
  have hlt : i < (m.entries.map Prod.fst).length := by
    rw [List.length_map]
    exact (List.getElem?_eq_some_iff.mp hi).1
  refine (List.getElem?_inj hlt hnodup).mp ?_
  rw [List.getElem?_map, List.getElem?_map, hi, hj]
  rfl

theorem exists_position (h : get m k = some b) : ∃ i : ℕ, m.entries[i]? = some (k, b) := by
  obtain ⟨l1, l2, heq, -⟩ := List.lookup_eq_some_iff.mp h
  rw [heq]
  exact List.getElem?_of_mem (by simp)

theorem get_of_position (hi : m.entries[i]? = some (k, b)) : get m k = some b := by
  cases h : get m k with
  | none =>
    have hne := List.lookup_eq_none_iff.mp h _ (List.mem_of_getElem? hi)
    simp at hne
  | some b' =>
    obtain ⟨j, hj⟩ := exists_position h
    cases position_unique hi hj
    cases hi.symm.trans hj
    rfl

end Maps

end AsyncGrpc.Lib.Maps
