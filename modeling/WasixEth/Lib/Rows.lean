import Mathlib.Data.List.Nodup
import WasixEth.Lib.Table

/-! # Rows written one after another

Writing a list of entries to a table. The last entry for a key counts, and
where the keys differ every entry can be read back.
-/

namespace WasixEth.Table

variable {K V : Type*} [DecidableEq K]

def insertAll (t : Table K V) (entries : List (K × V)) : Table K V :=
  entries.foldl (fun t entry => t.insert entry.1 entry.2) t

theorem get_insertAll_of_notMem {t : Table K V} {entries : List (K × V)} {k : K}
    (h : k ∉ entries.map Prod.fst) : (t.insertAll entries).get k = t.get k := by
  induction entries generalizing t with
  | nil => rfl
  | cons entry rest ih =>
      rw [List.map_cons, List.mem_cons, not_or] at h
      calc ((t.insert entry.1 entry.2).insertAll rest).get k
          = (t.insert entry.1 entry.2).get k := ih h.2
        _ = t.get k := get_insert_of_ne _ h.1

/-- What a key holds afterwards was written by one of the entries. -/
theorem exists_mem_of_get_insertAll {t : Table K V} {entries : List (K × V)} {k : K}
    (h : k ∈ entries.map Prod.fst) :
    ∃ v, (k, v) ∈ entries ∧ (t.insertAll entries).get k = some v := by
  induction entries generalizing t with
  | nil => cases h
  | cons entry rest ih =>
      by_cases hrest : k ∈ rest.map Prod.fst
      · obtain ⟨v, hmem, hget⟩ := ih (t := t.insert entry.1 entry.2) hrest
        exact ⟨v, List.mem_cons_of_mem _ hmem, hget⟩
      · have hkey : k = entry.1 := by
          rw [List.map_cons, List.mem_cons] at h
          exact h.resolve_right hrest
        refine ⟨entry.2, hkey ▸ List.mem_cons_self, ?_⟩
        calc ((t.insert entry.1 entry.2).insertAll rest).get k
            = (t.insert entry.1 entry.2).get k := get_insertAll_of_notMem hrest
          _ = some entry.2 := by rw [hkey, get_insert_self]

theorem get_insertAll_of_mem {t : Table K V} {entries : List (K × V)} {k : K} {v : V}
    (hnodup : (entries.map Prod.fst).Nodup) (h : (k, v) ∈ entries) :
    (t.insertAll entries).get k = some v := by
  obtain ⟨v', hmem, hget⟩ := exists_mem_of_get_insertAll (t := t) (List.mem_map_of_mem h)
  rw [hget]
  have hentry := List.inj_on_of_nodup_map hnodup hmem h rfl
  rw [(Prod.mk.inj hentry).2]

/-- The rows of one owner, numbered from zero. -/
def numbered {A : Type*} (owner : A) (rows : List V) : List ((A × Nat) × V) :=
  rows.zipIdx.map fun entry => ((owner, entry.2), entry.1)

theorem mem_numbered {A : Type*} {owner : A} {rows : List V} {key : A × Nat} {v : V} :
    (key, v) ∈ numbered owner rows ↔ key.1 = owner ∧ rows[key.2]? = some v := by
  obtain ⟨a, i⟩ := key
  simp only [numbered, List.mem_map, Prod.mk.injEq, Prod.exists, List.mem_zipIdx_iff_getElem?]
  constructor
  · rintro ⟨value, index, hget, ⟨rfl, rfl⟩, rfl⟩
    exact ⟨rfl, hget⟩
  · rintro ⟨rfl, hget⟩
    exact ⟨v, i, hget, ⟨rfl, rfl⟩, rfl⟩

theorem mem_keys_numbered {A : Type*} {owner : A} {rows : List V} {key : A × Nat} :
    key ∈ (numbered owner rows).map Prod.fst ↔ key.1 = owner ∧ key.2 < rows.length := by
  rw [List.mem_map]
  constructor
  · rintro ⟨⟨key', v⟩, hmem, rfl⟩
    obtain ⟨howner, hget⟩ := mem_numbered.mp hmem
    exact ⟨howner, (List.getElem?_eq_some_iff.mp hget).1⟩
  · rintro ⟨howner, hlt⟩
    exact ⟨(key, rows[key.2]), mem_numbered.mpr ⟨howner, List.getElem?_eq_getElem hlt⟩, rfl⟩

/-- The rows of the owner are the ones written, as far as they go. -/
theorem get_insertAll_numbered {A : Type*} [DecidableEq A] (t : Table (A × Nat) V) (owner : A)
    (rows : List V) (key : A × Nat) :
    (t.insertAll (numbered owner rows)).get key =
      if key.1 = owner then (rows[key.2]?).or (t.get key) else t.get key := by
  by_cases hmem : key ∈ (numbered owner rows).map Prod.fst
  · obtain ⟨v, hentry, hget⟩ := exists_mem_of_get_insertAll (t := t) hmem
    obtain ⟨howner, hrow⟩ := mem_numbered.mp hentry
    rw [hget, if_pos howner, hrow]
    rfl
  · rw [get_insertAll_of_notMem hmem]
    rw [mem_keys_numbered, not_and_or, Nat.not_lt] at hmem
    split
    next howner =>
      rw [List.getElem?_eq_none (hmem.resolve_left (not_not.mpr howner))]
      rfl
    next => rfl

end WasixEth.Table
