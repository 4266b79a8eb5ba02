import WasixEth.Primitives

/-! # The Merkle-Patricia root of the Yellow Paper

`trie` is the function TRIE of the Yellow Paper: hex-prefix paths, children
inlined exactly when they are shorter than a hash, the root always hashed. It
is a recursion over the entries and knows of no insertion order.
-/

namespace WasixEth.YellowPaper

open Rlp

/-- Entries below a node, with the nibbles that lead to it left out. -/
abbrev Entries := List (Nibbles × Bytes)

/-! ## Paths -/

def pairs : Nibbles → Bytes
  | high :: low :: rest => UInt8.ofNat (16 * high.val + low.val) :: pairs rest
  | _ => []

/-- HP: the flag nibble tells leaves from extensions and odd paths from even
ones. -/
def hexPrefix (path : Nibbles) (isLeaf : Bool) : Bytes :=
  let flag := if isLeaf then 2 else 0
  match path with
  | first :: rest =>
      if path.length % 2 = 0 then UInt8.ofNat (16 * flag) :: pairs path
      else UInt8.ofNat (16 * (flag + 1) + first.val) :: pairs rest
  | [] => [UInt8.ofNat (16 * flag)]

def commonPath : Nibbles → Nibbles → Nibbles
  | a :: as, b :: bs => if a = b then a :: commonPath as bs else []
  | _, _ => []

/-- The longest path that all entries start with. -/
def sharedPath : Entries → Nibbles
  | [] => []
  | [(key, _)] => key
  | (key, _) :: rest => commonPath key (sharedPath rest)

/-- What remains of a key behind a path. -/
def dropPath (path : Nibbles) (entry : Nibbles × Bytes) : Option (Nibbles × Bytes) :=
  if path <+: entry.1 then some (entry.1.drop path.length, entry.2) else none

/-- The entries below a path. -/
def below (path : Nibbles) (entries : Entries) : Entries := entries.filterMap (dropPath path)

/-! ## Nodes -/

section

variable [Keccak256]

/-- How a node is referenced in its parent. -/
def reference (rlp : Bytes) : Bytes :=
  if rlp.length < 32 then rlp else encodeBytes (keccak256 rlp).bytes

/-- The value of an entry that ends at the node itself. -/
def valueHere (entries : Entries) : Bytes := (entries.lookup []).getD []

/-- The RLP of the node over a set of entries. Each level consumes a nibble of
every key. -/
def node : Nat → Entries → Bytes
  | 0, _ => []
  | _ + 1, [] => encodeBytes []
  | _ + 1, [(key, value)] => encodeList (encodeBytes (hexPrefix key true) ++ encodeBytes value)
  | depth + 1, entries =>
      let path := sharedPath entries
      if path = [] then
        encodeList ((List.finRange 16).flatMap
          (fun i => reference (node depth (below [i] entries))) ++
            encodeBytes (valueHere entries))
      else
        encodeList (encodeBytes (hexPrefix path false) ++
          reference (node depth (below path entries)))

def entriesOf (contents : List (B256 × Bytes)) : Entries :=
  contents.map fun entry => (unpack entry.1, entry.2)

/-- TRIE. -/
def trie (contents : List (B256 × Bytes)) : B256 := keccak256 (node 65 (entriesOf contents))

/-- The node at `path` is at least as long as a hash. -/
def LongAt (entries : Entries) (path : Nibbles) : Prop :=
  32 ≤ (node 65 (below path entries)).length

instance (entries : Entries) (path : Nibbles) : Decidable (LongAt entries path) :=
  inferInstanceAs (Decidable (32 ≤ (node 65 (below path entries)).length))

end

/-- The node at `path` is a branch. -/
def BranchAt (entries : Entries) (path : Nibbles) : Prop :=
  2 ≤ (below path entries).length ∧ sharedPath (below path entries) = []

instance (entries : Entries) (path : Nibbles) : Decidable (BranchAt entries path) :=
  inferInstanceAs (Decidable (2 ≤ (below path entries).length ∧
    sharedPath (below path entries) = []))

/-- A node below the root starts at `path`: the child of a branch, or the
branch behind an extension. -/
def ChildAt (entries : Entries) (path : Nibbles) : Prop :=
  BranchAt entries path.dropLast ∨ BranchAt entries path

instance (entries : Entries) (path : Nibbles) : Decidable (ChildAt entries path) :=
  inferInstanceAs (Decidable (_ ∨ _))

theorem node_of_two [Keccak256] (depth : Nat) {entries : Entries} (h : 2 ≤ entries.length) :
    node (depth + 1) entries =
      if sharedPath entries = [] then
        encodeList ((List.finRange 16).flatMap
          (fun i => reference (node depth (below [i] entries))) ++
            encodeBytes (valueHere entries))
      else
        encodeList (encodeBytes (hexPrefix (sharedPath entries) false) ++
          reference (node depth (below (sharedPath entries) entries))) := by
  match entries with
  | [] => simp at h
  | [_] => simp at h
  | first :: second :: rest =>
      rw [node]
      · simp
      · simp

/-! ## Shared paths -/

theorem isPrefix_commonPath {path a b : Nibbles} :
    path <+: commonPath a b ↔ path <+: a ∧ path <+: b := by
  induction path generalizing a b with
  | nil => simp
  | cons i path ih =>
      cases a with
      | nil => simp [commonPath]
      | cons x a =>
          cases b with
          | nil => simp [commonPath]
          | cons y b =>
              by_cases hxy : x = y
              · subst hxy
                simp only [commonPath, if_pos, List.cons_prefix_cons, ih]
                tauto
              · simp only [commonPath, if_neg hxy, List.cons_prefix_cons, List.prefix_nil]
                constructor
                · intro h
                  cases h
                · rintro ⟨⟨rfl, -⟩, rfl, -⟩
                  exact absurd rfl hxy

/-- The shared path is the longest one all entries start with. -/
theorem isPrefix_sharedPath {path : Nibbles} {entries : Entries} (hne : entries ≠ []) :
    path <+: sharedPath entries ↔ ∀ entry ∈ entries, path <+: entry.1 := by
  induction entries with
  | nil => exact absurd rfl hne
  | cons entry rest ih =>
      cases rest with
      | nil => simp [sharedPath]
      | cons other rest =>
          rw [sharedPath, isPrefix_commonPath, ih (by simp)]
          · simp
          · simp

theorem mem_below {path key : Nibbles} {value : Bytes} {entries : Entries} :
    (key, value) ∈ below path entries ↔ (path ++ key, value) ∈ entries := by
  unfold below dropPath
  rw [List.mem_filterMap]
  constructor
  · rintro ⟨entry, hmem, hentry⟩
    split at hentry
    next hpre =>
      obtain ⟨rest, hrest⟩ := hpre
      simp only [Option.some.injEq, Prod.mk.injEq] at hentry
      obtain ⟨hkey, hvalue⟩ := hentry
      rw [← hrest, List.drop_left] at hkey
      rw [← hkey, hrest, ← hvalue]
      exact hmem
    next => cases hentry
  · intro hmem
    exact ⟨_, hmem, by simp⟩

theorem nodup_below {path : Nibbles} {entries : Entries}
    (h : (entries.map Prod.fst).Nodup) : ((below path entries).map Prod.fst).Nodup := by
  induction entries with
  | nil => simp [below]
  | cons entry rest ih =>
      rw [List.map_cons, List.nodup_cons] at h
      have hrest := ih h.2
      unfold below at hrest ⊢
      by_cases hpre : path <+: entry.1
      · obtain ⟨key, hkey⟩ := hpre
        have hdrop : dropPath path entry = some (key, entry.2) := by
          simp [dropPath, ← hkey]
        rw [List.filterMap_cons_some hdrop, List.map_cons, List.nodup_cons]
        refine ⟨?_, hrest⟩
        intro hmem
        obtain ⟨⟨key', value⟩, hentry, rfl⟩ := List.mem_map.mp hmem
        refine h.1 (List.mem_map.mpr ⟨_, mem_below.mp hentry, ?_⟩)
        exact hkey
      · have hdrop : dropPath path entry = none := by simp [dropPath, hpre]
        rw [List.filterMap_cons_none hdrop]
        exact hrest

end WasixEth.YellowPaper
