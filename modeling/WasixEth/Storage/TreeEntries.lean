import WasixEth.Storage.FreshTrie

/-! # The entries of a tree

A tree lists its entries from left to right. Where all paths are as long as a key, the paths
pack into the keys, and the canonical tree of a list of entries lists just these.
-/

namespace WasixEth.Storage

open YellowPaper

/-! ## Packed paths -/

/-- `B256::from_slice(&nibbles.pack())`, for paths that are as long as a key. -/
def pack (nibbles : Nibbles) : Option B256 :=
  if h : nibbles.length = 64 then
    some ⟨packPairs nibbles, by rw [length_packPairs, h]⟩
  else none

theorem packPairs_unpackBytes (bytes : Bytes) : packPairs (unpackBytes bytes) = bytes := by
  induction bytes with
  | nil => rfl
  | cons b rest ih => rw [unpackBytes, packPairs, packNibbles_nibbles, ih]

@[simp] theorem pack_unpack (key : B256) : pack (unpack key) = some key := by
  unfold pack
  rw [dif_pos (length_unpack key)]
  exact congrArg some (B256.ext (packPairs_unpackBytes key.bytes))

/-- The entry under a path, if the path is as long as a key. -/
def entryAt (path : Nibbles) (value : Bytes) : List (B256 × Bytes) :=
  match pack path with
  | some key => [(key, value)]
  | none => []

@[simp] theorem entryAt_unpack (key : B256) (value : Bytes) :
    entryAt (unpack key) value = [(key, value)] := by
  unfold entryAt
  rw [pack_unpack]

/-- The entries of a list of paths below a prefix. -/
def packAll (path : Nibbles) (entries : Entries) : List (B256 × Bytes) :=
  entries.flatMap fun entry => entryAt (path ++ entry.1) entry.2

theorem packAll_entriesOf (leaves : List (B256 × Bytes)) :
    packAll [] (entriesOf leaves) = leaves := by
  unfold packAll entriesOf
  rw [List.flatMap_map]
  simp only [List.nil_append, entryAt_unpack]
  exact List.flatMap_singleton' leaves

theorem packAll_map (path key : Nibbles) (entries : Entries) :
    packAll path (entries.map fun entry => (key ++ entry.1, entry.2)) =
      packAll (path ++ key) entries := by
  unfold packAll
  rw [List.flatMap_map]
  simp only [List.append_assoc]

theorem packAll_flatMap {α : Type} (path : Nibbles) (l : List α) (f : α → Entries) :
    packAll path (l.flatMap f) = l.flatMap fun a => packAll path (f a) :=
  List.flatMap_assoc

namespace Tree

/-! ## Entries -/

def entries : Tree → Entries
  | empty => []
  | leaf key value => [(key, value)]
  | extension key _ child => child.entries.map fun entry => (key ++ entry.1, entry.2)
  | branch _ child =>
      (List.finRange 16).flatMap fun i =>
        (child i).entries.map fun entry => (i :: entry.1, entry.2)

theorem mem_entries {tree : Tree} {nibbles : Nibbles} {value : Bytes} :
    (nibbles, value) ∈ tree.entries ↔ tree.lookup nibbles = some value := by
  induction tree generalizing nibbles with
  | empty => simp [entries, lookup]
  | leaf key value' =>
      unfold entries lookup
      rw [List.mem_singleton, Prod.mk.injEq]
      split
      next heq => rw [Option.some.injEq, heq, eq_comm (a := value), and_iff_right rfl]
      next hne => exact iff_of_false (fun h => hne h.1.symm) (by simp)
  | extension key hashed child ih =>
      unfold entries lookup
      rw [List.mem_map]
      constructor
      · rintro ⟨⟨rest, value'⟩, hmem, heq⟩
        cases heq
        rw [if_pos (List.prefix_append key rest), List.drop_left]
        exact ih.mp hmem
      · intro h
        split at h
        next hpre =>
          obtain ⟨rest, rfl⟩ := hpre
          rw [List.drop_left] at h
          exact ⟨(rest, value), ih.mpr h, rfl⟩
        next => cases h
  | branch hashed child ih =>
      unfold entries
      rw [List.mem_flatMap]
      constructor
      · rintro ⟨i, -, hmem⟩
        obtain ⟨⟨rest, value'⟩, hentry, heq⟩ := List.mem_map.mp hmem
        cases heq
        exact (ih i).mp hentry
      · intro h
        cases nibbles with
        | nil => cases h
        | cons i rest =>
            exact ⟨i, List.mem_finRange i, List.mem_map.mpr ⟨(rest, value), (ih i).mpr h, rfl⟩⟩

theorem nodup_entries (tree : Tree) : (tree.entries.map Prod.fst).Nodup := by
  induction tree with
  | empty => exact List.nodup_nil
  | leaf key value => exact List.nodup_singleton key
  | extension key hashed child ih =>
      have hkeys : (extension key hashed child).entries.map Prod.fst =
          (child.entries.map Prod.fst).map (key ++ ·) := by
        rw [entries, List.map_map, List.map_map]
        rfl
      rw [hkeys]
      exact ih.map (List.append_right_injective key)
  | branch hashed child ih =>
      have hkeys : (branch hashed child).entries.map Prod.fst =
          (List.finRange 16).flatMap fun i => ((child i).entries.map Prod.fst).map (i :: ·) := by
        rw [entries, List.map_flatMap]
        simp only [List.map_map]
        rfl
      rw [hkeys, List.nodup_flatMap]
      refine ⟨fun i _ => (ih i).map (List.cons_injective), ?_⟩
      -- the keys below two slots differ in their first nibble
      refine (List.nodup_finRange 16).imp fun hne => ?_
      intro key hkey hother
      obtain ⟨_, -, rfl⟩ := List.mem_map.mp hkey
      obtain ⟨_, -, heq⟩ := List.mem_map.mp hother
      exact hne (List.cons.inj heq).1.symm

theorem length_of_lookup {depth : Nat} {tree : Tree} (h : tree.Regular depth) {nibbles : Nibbles}
    {value : Bytes} (hvalue : tree.lookup nibbles = some value) : nibbles.length = depth := by
  induction h generalizing nibbles with
  | empty => cases hvalue
  | leaf hkey =>
      unfold lookup at hvalue
      split at hvalue
      next heq => rw [← heq, hkey]
      next => cases hvalue
  | @extension depth key hashed child _ _ _ ih =>
      unfold lookup at hvalue
      split at hvalue
      next hpre =>
        obtain ⟨rest, rfl⟩ := hpre
        rw [List.drop_left] at hvalue
        rw [List.length_append, ih hvalue]
      next => cases hvalue
  | @branch depth hashed child _ _ ih =>
      cases nibbles with
      | nil => cases hvalue
      | cons i rest => rw [List.length_cons, ih i hvalue]

theorem lists_entries (tree : Tree) : Lists tree.entries tree.lookup :=
  ⟨tree.nodup_entries, fun _ _ => mem_entries⟩

end Tree

/-- Two lists of the entries of one map are the same up to their order. -/
theorem Lists.perm_of_lists {entries entries' : Entries} {f : Nibbles → Option Bytes}
    (h : Lists entries f) (h' : Lists entries' f) : entries.Perm entries' := by
  apply (List.perm_ext_iff_of_nodup h.nodup.of_map h'.nodup.of_map).mpr
  rintro ⟨nibbles, value⟩
  rw [h.mem_iff, h'.mem_iff]

theorem lookup_canon_contentsOf {leaves : List (B256 × Bytes)} (hfit : ValuesFit leaves) :
    (Tree.canon 64 (contentsOf leaves)).lookup = contentsOf leaves := by
  have hsupported := supported_contentsOf hfit
  funext nibbles
  by_cases hlength : nibbles.length = 64
  · exact Tree.lookup_canon hlength
  · have hnone : ∀ {f : Nibbles → Option Bytes},
        (∀ value, f nibbles = some value → nibbles.length = 64) → f nibbles = none := by
      intro f hf
      exact Option.eq_none_iff_forall_ne_some.mpr fun value hvalue => hlength (hf value hvalue)
    rw [hnone fun value => Tree.length_of_lookup (Tree.regular_canon hsupported),
      hnone fun value => hsupported.length_eq nibbles value]

theorem packAll_canon {leaves : List (B256 × Bytes)} (hnodup : (leaves.map Prod.fst).Nodup)
    (hfit : ValuesFit leaves) :
    (packAll [] (Tree.canon 64 (contentsOf leaves)).entries).Perm leaves := by
  have hlists := Tree.lists_entries (Tree.canon 64 (contentsOf leaves))
  rw [lookup_canon_contentsOf hfit] at hlists
  have hperm := hlists.perm_of_lists (lists_contentsOf hnodup)
  have hpacked := hperm.flatMap_right fun entry => entryAt ([] ++ entry.1) entry.2
  exact hpacked.trans (.of_eq (packAll_entriesOf leaves))

end WasixEth.Storage
