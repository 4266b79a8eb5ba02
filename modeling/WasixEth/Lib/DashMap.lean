import Mathlib.Algebra.Ring.Nat
import Mathlib.Data.List.AList

/-! # Hash maps that are iterated over

A hash map is an association list without repeated keys. Its order is the order
of iteration, which nothing is known about: `Rehashed` relates maps that differ in
it only.
-/

namespace WasixEth

abbrev DashMap (K V : Type) := AList fun _ : K => V

namespace DashMap

variable {K V : Type}

theorem keys_map_snd (f : V → V) (entries : List (Sigma fun _ : K => V)) :
    (entries.map fun entry => (⟨entry.1, f entry.2⟩ : Sigma fun _ : K => V)).keys =
      entries.keys := by
  simp [List.keys]

/-- `iter_mut` with a change to every value. -/
def mapValues (f : V → V) (map : DashMap K V) : DashMap K V :=
  ⟨map.entries.map fun entry => ⟨entry.1, f entry.2⟩, by
    unfold List.NodupKeys
    rw [keys_map_snd]
    exact map.nodupKeys⟩

/-- `retain` on values. -/
def retain (p : V → Bool) (map : DashMap K V) : DashMap K V :=
  ⟨map.entries.filter fun entry => p entry.2, map.nodupKeys.sublist List.filter_sublist⟩

def values (map : DashMap K V) : List V := map.entries.map Sigma.snd

/-- The same entries, in any order. -/
def Rehashed (map map' : DashMap K V) : Prop := map.entries.Perm map'.entries

variable [DecidableEq K]

theorem mem_entries {map : DashMap K V} {k : K} {v : V} :
    (⟨k, v⟩ : Sigma fun _ : K => V) ∈ map.entries ↔ map.lookup k = some v :=
  (AList.mem_lookup_iff (β := fun _ : K => V)).symm

theorem lookup_mapValues (f : V → V) (map : DashMap K V) (k : K) :
    (map.mapValues f).lookup k = (map.lookup k).map f := by
  ext v
  rw [← mem_entries, Option.map_eq_some_iff]
  unfold mapValues
  simp only [List.mem_map, Sigma.mk.injEq, heq_eq_eq]
  constructor
  · rintro ⟨⟨k', v'⟩, hmem, rfl, rfl⟩
    exact ⟨v', mem_entries.mp hmem, rfl⟩
  · rintro ⟨v', hlookup, rfl⟩
    exact ⟨⟨k, v'⟩, mem_entries.mpr hlookup, rfl, rfl⟩

theorem lookup_retain (p : V → Bool) (map : DashMap K V) (k : K) :
    (map.retain p).lookup k = (map.lookup k).filter p := by
  ext v
  rw [← mem_entries, Option.filter_eq_some_iff]
  unfold retain
  simp only [List.mem_filter, mem_entries]

theorem mem_values {map : DashMap K V} {v : V} : v ∈ map.values ↔ ∃ k, map.lookup k = some v := by
  unfold values
  simp only [List.mem_map]
  constructor
  · rintro ⟨⟨k, v'⟩, hmem, rfl⟩
    exact ⟨k, mem_entries.mp hmem⟩
  · rintro ⟨k, hlookup⟩
    exact ⟨⟨k, v⟩, mem_entries.mpr hlookup, rfl⟩

/-- A sum over the values is one key's part and that of the others. -/
theorem sum_values (measure : V → Nat) (map : DashMap K V) (k : K) :
    (map.values.map measure).sum =
      (map.lookup k).elim 0 measure + ((DashMap.values (map.erase k)).map measure).sum := by
  unfold values
  rw [show (map.erase k).entries = List.kerase k map.entries from rfl]
  cases hlookup : map.lookup k with
  | none =>
      have hmem : k ∉ map.entries.keys := AList.lookup_eq_none.mp hlookup
      rw [List.kerase_of_notMem_keys hmem, Option.elim_none, Nat.zero_add]
  | some v =>
      have hmem : k ∈ map.entries.keys :=
        List.mem_keys_of_mem (mem_entries.mpr hlookup)
      obtain ⟨v', before, after, -, hentries, herase⟩ := List.exists_of_kerase hmem
      have hlookup' : map.lookup k = some v' :=
        mem_entries.mp (hentries ▸ List.mem_append_right _ List.mem_cons_self)
      obtain rfl : v = v' := Option.some.inj (hlookup.symm.trans hlookup')
      rw [herase, hentries]
      simp only [List.map_append, List.map_cons, List.sum_append, List.sum_cons,
        Option.elim_some]
      omega

/-- The lists of a map are one key's list and those of the others. -/
theorem perm_flatten_values {A : Type} (map : DashMap K (List A)) (k : K) :
    map.values.flatten.Perm
      ((map.lookup k).getD [] ++ (DashMap.values (map.erase k)).flatten) := by
  unfold values
  rw [show (map.erase k).entries = List.kerase k map.entries from rfl]
  cases hlookup : map.lookup k with
  | none =>
      have hmem : k ∉ map.entries.keys := AList.lookup_eq_none.mp hlookup
      rw [List.kerase_of_notMem_keys hmem]
      exact List.Perm.refl _
  | some v =>
      have hmem : k ∈ map.entries.keys := List.mem_keys_of_mem (mem_entries.mpr hlookup)
      obtain ⟨v', before, after, -, hentries, herase⟩ := List.exists_of_kerase hmem
      have hlookup' : map.lookup k = some v' :=
        mem_entries.mp (hentries ▸ List.mem_append_right _ List.mem_cons_self)
      obtain rfl : v = v' := Option.some.inj (hlookup.symm.trans hlookup')
      rw [herase, hentries]
      simp only [List.map_append, List.map_cons, List.flatten_append, List.flatten_cons,
        Option.getD_some]
      rw [← List.append_assoc, ← List.append_assoc]
      exact List.perm_append_comm.append_right _

theorem Rehashed.lookup_eq {map map' : DashMap K V} (h : Rehashed map map') (k : K) :
    map'.lookup k = map.lookup k :=
  (AList.perm_lookup (β := fun _ : K => V) h).symm

end DashMap

end WasixEth
