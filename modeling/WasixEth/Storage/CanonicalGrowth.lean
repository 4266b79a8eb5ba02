import WasixEth.Storage.CanonicalInsert
import WasixEth.Storage.TrieCodec
import Mathlib.Algebra.BigOperators.Fin
import Mathlib.Algebra.Order.BigOperators.Group.Finset

/-! # Adding a key keeps long nodes long

A new key may split a leaf or an extension, which moves a part of its path
into an extension above and shortens what stays below. The pieces together
are never shorter than the node they came from, up to the length of a hash.
-/

namespace WasixEth.Storage

open Rlp

namespace Tree

/-! ## Sizes of the parts -/

/-- The size of an encoded path of `n` nibbles. -/
def pathSize (n : Nat) : Nat := if n ≤ 1 then 1 else n / 2 + 2

theorem bytesLength_encodePath (key : Nibbles) (isLeaf : Bool) (hlength : key.length ≤ 64) :
    bytesLength (encodePath key isLeaf) = pathSize key.length := by
  have hsize := length_encodePath key isLeaf
  unfold pathSize
  split
  next hshort =>
    match key with
    | [] => cases isLeaf <;> decide
    | [a] => cases isLeaf <;> revert a <;> decide
    | a :: b :: rest => simp at hshort
  next hlong =>
    have hheader : lengthOfLength (encodePath key isLeaf).length = 1 := by
      rw [lengthOfLength, if_pos (by omega)]
    match hpath : encodePath key isLeaf with
    | [] => simp [hpath] at hsize
    | [b] =>
        rw [hpath] at hsize
        simp only [List.length_singleton] at hsize
        omega
    | a :: b :: rest =>
        rw [hpath] at hsize hheader
        rw [bytesLength, hheader]
        · omega
        · simp

theorem lt_listSize (n : Nat) : n < listSize n := by
  have := lengthOfLength_pos n
  unfold listSize
  omega

theorem listSize_of_lt {n : Nat} (h : n < 56) : listSize n = n + 1 := by
  simp [listSize, lengthOfLength, h, Nat.add_comm]

theorem min_listSize_le {n m : Nat} (h : n ≤ m) : min 32 (listSize n) ≤ listSize m := by
  have hm := lt_listSize m
  by_cases hn : n < 56
  · rw [listSize_of_lt hn]
    omega
  · omega

theorem size_pos (tree : Tree) : 0 < tree.size := by
  cases tree with
  | empty => exact Nat.one_pos
  | leaf key value => exact (Nat.zero_le _).trans_lt (lt_listSize _)
  | extension key hashed child => exact (Nat.zero_le _).trans_lt (lt_listSize _)
  | branch hashed child => exact (Nat.zero_le _).trans_lt (lt_listSize _)

/-- What a child takes in its parent. -/
def slotSize (tree : Tree) : Nat := refSize tree.link tree.size

theorem slotSize_eq (tree : Tree) : slotSize tree = if 32 ≤ tree.size then 33 else tree.size := by
  simp [slotSize, refSize, link]

theorem slotSize_mono {tree tree' : Tree} (h : min 32 tree.size ≤ tree'.size) :
    slotSize tree ≤ slotSize tree' := by
  rw [slotSize_eq, slotSize_eq]
  split <;> split <;> omega

theorem slotSize_pos (tree : Tree) : 0 < slotSize tree := by
  have := size_pos tree
  rw [slotSize_eq]
  split <;> omega

theorem link_mono {tree tree' : Tree} (h : min 32 tree.size ≤ tree'.size)
    (hlink : tree.link = true) : tree'.link = true := by
  simp only [link, decide_eq_true_eq] at hlink ⊢
  omega

/-- The size of a branch over a family of children. -/
theorem size_branch (child : Nibble → Tree) :
    (branch (fun i => (child i).link) child).size =
      listSize ((∑ i, slotSize (child i)) + 1) := by
  rw [size, Fin.sum_univ_def]
  rfl

theorem sum_slotSize_ge (child : Nibble → Tree) (i : Nibble) :
    slotSize (child i) + 15 ≤ ∑ a, slotSize (child a) := by
  rw [← Finset.add_sum_erase Finset.univ _ (Finset.mem_univ i)]
  have hcard : (Finset.univ.erase i).card = 15 := by simp
  have hrest : (Finset.univ.erase i).card • 1 ≤
      ∑ a ∈ Finset.univ.erase i, slotSize (child a) :=
    Finset.card_nsmul_le_sum _ _ _ fun a _ => slotSize_pos (child a)
  rw [hcard] at hrest
  simp only [smul_eq_mul] at hrest
  omega

/-! ## Paths in front of a tree -/

/-- A tree below a path. -/
def prependAll (path : Nibbles) (tree : Tree) : Tree :=
  path.foldr (fun i below => joinBranch i below.link below) tree

theorem prependAll_append (path rest : Nibbles) (tree : Tree) :
    prependAll (path ++ rest) tree = prependAll path (prependAll rest tree) := by
  simp [prependAll]

theorem prependAll_leaf (path key : Nibbles) (value : Bytes) :
    prependAll path (leaf key value) = leaf (path ++ key) value := by
  induction path with
  | nil => rfl
  | cons i path ih =>
      change joinBranch i _ (prependAll path (leaf key value)) = _
      rw [ih]
      rfl

theorem prependAll_extension (path key : Nibbles) (hashed : Bool) (child : Tree) :
    prependAll path (extension key hashed child) = extension (path ++ key) hashed child := by
  induction path with
  | nil => rfl
  | cons i path ih =>
      change joinBranch i _ (prependAll path (extension key hashed child)) = _
      rw [ih]
      rfl

theorem prependAll_branch (path : Nibbles) {tree : Tree} (h : tree.isBranch = true) :
    prependAll path tree = wrap path tree := by
  induction path with
  | nil => simp [prependAll, wrap]
  | cons i path ih =>
      change joinBranch i (prependAll path tree).link (prependAll path tree) = _
      rw [ih, joinBranch_wrap i path h]

theorem size_wrap {path : Nibbles} (hpath : path ≠ []) (hlength : path.length ≤ 64) (tree : Tree) :
    (wrap path tree).size = listSize (pathSize path.length + slotSize tree) := by
  rw [wrap, if_neg hpath, size, bytesLength_encodePath path false hlength]
  rfl

/-- `tree'` is never shorter than `tree` under any path, up to a hash. -/
def Grows (depth : Nat) (tree tree' : Tree) : Prop :=
  ∀ path : Nibbles, path.length + depth ≤ 64 →
    min 32 (prependAll path tree).size ≤ (prependAll path tree').size

theorem Grows.size_le {depth : Nat} {tree tree' : Tree} (h : Grows depth tree tree')
    (hdepth : depth ≤ 64) : min 32 tree.size ≤ tree'.size :=
  h [] (by simpa using hdepth)

theorem grows_branch {depth : Nat} {child child' : Nibble → Tree}
    (h : ∀ a, slotSize (child a) ≤ slotSize (child' a)) :
    Grows depth (branch (fun a => (child a).link) child)
      (branch (fun a => (child' a).link) child') := by
  intro path hpath
  have hsum : ∑ a, slotSize (child a) ≤ ∑ a, slotSize (child' a) :=
    Finset.sum_le_sum fun a _ => h a
  have hsize : min 32 (branch (fun a => (child a).link) child).size ≤
      (branch (fun a => (child' a).link) child').size := by
    rw [size_branch, size_branch]
    exact min_listSize_le (by omega)
  rw [prependAll_branch path rfl, prependAll_branch path rfl]
  by_cases hnil : path = []
  · simpa [wrap, hnil] using hsize
  · rw [size_wrap hnil (by omega), size_wrap hnil (by omega)]
    exact min_listSize_le (Nat.add_le_add_left (slotSize_mono hsize) _)

theorem pathSize_split (a b : Nat) : pathSize (a + 1 + b) ≤ pathSize a + pathSize b + 2 := by
  unfold pathSize
  split <;> split <;> split <;> omega

theorem pathSize_succ_le (n : Nat) : pathSize (n + 1) ≤ pathSize n + 2 := by
  unfold pathSize
  split <;> split <;> omega

/-- The size of a nonempty tree below a path: its own path joins the path in
front, and its tail keeps its size. -/
theorem size_prependAll_le {depth : Nat} {path : Nibbles} {tree : Tree} (k : Nibble)
    (h : Regular depth tree) (hne : tree ≠ empty) (hpath : path.length + 1 + depth ≤ 64) :
    min 32 (prependAll (path ++ [k]) tree).size ≤
      listSize ((if path = [] then 0 else pathSize path.length) + slotSize tree + 2) := by
  have hpos : 0 < pathSize path.length := by
    unfold pathSize
    split <;> omega
  -- a path of its own and a tail: both are part of the tree's slot
  have hown : ∀ own tail : Nat, tree.size = listSize (pathSize own + tail) →
      min 32 (listSize (pathSize (path.length + 1 + own) + tail)) ≤
        listSize ((if path = [] then 0 else pathSize path.length) + slotSize tree + 2) := by
    intro own tail hsize
    have htail := lt_listSize (pathSize own + tail)
    by_cases hlong : 32 ≤ tree.size
    · have := lt_listSize ((if path = [] then 0 else pathSize path.length) + slotSize tree + 2)
      rw [slotSize_eq, if_pos hlong] at this ⊢
      omega
    · refine min_listSize_le ?_
      rw [slotSize_eq, if_neg hlong, hsize]
      have hsplit := pathSize_split path.length own
      split
      next hnil =>
        have hsucc := pathSize_succ_le own
        simp only [hnil, List.length_nil, Nat.zero_add] at hsplit ⊢
        rw [Nat.add_comm 1 own]
        omega
      next => omega
  have hjoined : ∀ key : Nibbles, (path ++ [k] ++ key).length = path.length + 1 + key.length :=
    fun key => by simp only [List.length_append, List.length_singleton]
  cases h with
  | empty => exact absurd rfl hne
  | @leaf _ key value hkey hvalue =>
      rw [prependAll_leaf, size, bytesLength_encodePath _ true (by rw [hjoined]; omega), hjoined]
      have hsize : (leaf key value).size = listSize (pathSize key.length + bytesLength value) := by
        rw [size, bytesLength_encodePath key true (by omega)]
      exact hown key.length (bytesLength value) hsize
  | @extension depth key hashed child hkey hflag hchild =>
      rw [prependAll_extension, size, bytesLength_encodePath _ false (by rw [hjoined]; omega),
        hjoined]
      have hsize : (extension key hashed child).size =
          listSize (pathSize key.length + refSize hashed child.size) := by
        rw [size, bytesLength_encodePath key false (by omega)]
      exact hown key.length (refSize hashed child.size) hsize
  | @branch depth hashed child hflag hchild =>
      rw [prependAll_branch _ rfl, size_wrap (by simp) (by simp; omega), List.length_append,
        List.length_singleton]
      refine min_listSize_le ?_
      have hsucc := pathSize_succ_le path.length
      split
      next hnil => simp [hnil, pathSize]; omega
      next => omega

/-- A tree that has to share its first nibble with a new leaf. -/
theorem grows_beside {depth : Nat} (child : Nibble → Tree) {k : Nibble}
    (h : Regular depth (child k)) (hne : child k ≠ empty) :
    Grows (depth + 1) (joinBranch k (child k).link (child k))
      (branch (fun a => (child a).link) child) := by
  intro path hpath
  have hsum := sum_slotSize_ge child k
  have hsize := lt_listSize ((∑ a, slotSize (child a)) + 1)
  have hle := size_prependAll_le k h hne (by omega : path.length + 1 + depth ≤ 64)
  have hjoin : prependAll path (joinBranch k (child k).link (child k)) =
      prependAll (path ++ [k]) (child k) := (prependAll_append path [k] (child k)).symm
  rw [hjoin, prependAll_branch path rfl]
  by_cases hnil : path = []
  · subst hnil
    rw [if_pos rfl] at hle
    have hbranch := min_listSize_le
      (show 0 + slotSize (child k) + 2 ≤ (∑ a, slotSize (child a)) + 1 by omega)
    rw [wrap, if_pos rfl, size_branch]
    omega
  · rw [if_neg hnil] at hle
    rw [size_wrap hnil (by omega)]
    have hslot : slotSize (child k) + 2 ≤ slotSize (branch (fun a => (child a).link) child) ∨
        33 ≤ slotSize (branch (fun a => (child a).link) child) := by
      rw [slotSize_eq (branch _ child), size_branch]
      split <;> omega
    obtain hslot | hslot := hslot
    · have hbranch := min_listSize_le (show pathSize path.length + slotSize (child k) + 2 ≤
        pathSize path.length + slotSize (branch (fun a => (child a).link) child) by omega)
      omega
    · have hwrap := lt_listSize
        (pathSize path.length + slotSize (branch (fun a => (child a).link) child))
      omega

theorem grows_joinBranch {depth : Nat} {i : Nibble} {tree tree' : Tree}
    (h : Grows depth tree tree') :
    Grows (depth + 1) (joinBranch i tree.link tree) (joinBranch i tree'.link tree') := by
  intro path hpath
  have hjoin : ∀ below : Tree, prependAll path (joinBranch i below.link below) =
      prependAll (path ++ [i]) below := fun below => (prependAll_append path [i] below).symm
  rw [hjoin, hjoin]
  exact h (path ++ [i]) (by simp; omega)

/-- The canonical tree of a map only grows when a key is added. -/
theorem grows_canon {depth : Nat} {f : Nibbles → Option Bytes} (h : Supported depth f)
    (hdepth : depth ≤ 64) {nibbles : Nibbles} {value : Bytes} (hlength : nibbles.length = depth)
    (hvalue : value.length < 2 ^ 63) (hnew : f nibbles = none) (hne : canon depth f ≠ empty) :
    Grows depth (canon depth f) (canon depth (Function.update f nibbles (some value))) := by
  induction depth generalizing f nibbles with
  | zero =>
      obtain rfl := List.length_eq_zero_iff.mp hlength
      exact absurd (by simp [canon, hnew]) hne
  | succ depth ih =>
      cases nibbles with
      | nil => simp at hlength
      | cons i nibbles =>
          have hlength' : nibbles.length = depth := by simpa using hlength
          have hne' := canon_update_ne_empty (h.slot i) hlength' hvalue
          have hgrows := fun hchild => ih (h.slot i) (by omega) hlength' hnew hchild
          rw [canon_update]
          rw [canon_succ] at hne ⊢
          set child : Nibble → Tree := fun a => canon depth (restrict [a] f) with hchildEq
          set child' := canon depth (Function.update (restrict [i] f) nibbles (some value))
          have hslot : ∀ a, slotSize (child a) ≤ slotSize (Function.update child i child' a) := by
            intro a
            by_cases ha : a = i
            · subst ha
              rw [Function.update_self]
              by_cases hempty : child a = empty
              · rw [hempty]
                exact slotSize_pos child'
              · exact slotSize_mono ((hgrows hempty).size_le (by omega))
            · simp [ha]
          by_cases hsibling : HasSibling child i
          · rw [gather_update_of_sibling hne' hsibling]
            obtain hnone | ⟨k, hk, hother⟩ | ⟨k, l, hkl, hk, hl⟩ := children_cases child
            · exact absurd (gather_eq_empty.mpr hnone) hne
            · -- the only child so far is not the one the new key goes to
              have hki : k ≠ i := by
                rintro rfl
                obtain ⟨j, hj, hj'⟩ := hsibling
                exact hj' (hother j hj)
              have hbeside := grows_beside (k := k) (Function.update child i child')
                (by simpa [hki] using regular_canon (h.slot k)) (by simpa [hki] using hk)
              rw [Function.update_of_ne hki] at hbeside
              rw [gather, collapse_of_one hk hother]
              exact hbeside
            · rw [gather, collapse_of_two hkl hk hl]
              exact grows_branch hslot
          · have hchild : child i ≠ empty := by
              intro hempty
              refine hne (gather_eq_empty.mpr fun a => ?_)
              by_cases ha : a = i
              · rw [ha, hempty]
              · by_contra hne''
                exact hsibling ⟨a, ha, hne''⟩
            rw [gather_update_of_alone hne' hsibling, gather_of_alone hchild hsibling]
            exact grows_joinBranch (hgrows hchild)

/-- Inserting a new key into a canonical tree is canonical. -/
theorem insert_canon_new {depth : Nat} {f : Nibbles → Option Bytes} (h : Supported depth f)
    (hdepth : depth ≤ 64) {nibbles : Nibbles} {value : Bytes} (hlength : nibbles.length = depth)
    (hvalue : value.length < 2 ^ 63) (hnew : f nibbles = none) :
    (canon depth f).insert nibbles value =
      canon depth (Function.update f nibbles (some value)) := by
  induction depth generalizing f nibbles with
  | zero =>
      obtain rfl := List.length_eq_zero_iff.mp hlength
      simp [canon, hnew, insert]
  | succ depth ih =>
      cases nibbles with
      | nil => simp at hlength
      | cons i nibbles =>
          have hlength' : nibbles.length = depth := by simpa using hlength
          have hbelow := ih (h.slot i) (by omega) hlength' hnew
          rw [canon_update, canon_succ, ← hbelow]
          by_cases hempty : canon depth (restrict [i] f) = empty
          · rw [insert_gather_new (fun a => regular_canon (h.slot a)) hempty, hempty]
            rfl
          · refine (insert_gather_iff (fun a => regular_canon (h.slot a)) ?_ hempty ?_ hlength'
              hvalue).mpr ⟨rfl, fun _ hlink => ?_⟩
            · exact (regular_insert (regular_canon (h.slot i)) hlength' hvalue).1
            · exact (regular_insert (regular_canon (h.slot i)) hlength' hvalue).2
            · rw [hbelow]
              exact link_mono ((grows_canon (h.slot i) (by omega) hlength' hvalue hnew
                hempty).size_le (by omega)) hlink

end Tree

end WasixEth.Storage
