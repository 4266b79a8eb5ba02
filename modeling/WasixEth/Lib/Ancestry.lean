import Mathlib.Tactic.Linarith

/-! # Ancestors in a growing block store

A block store maps a key to the key of its parent and to a height. It is
rooted when every key but one has its parent in the store, one height below.
The ancestor at a height is then unique, and it does not change when the store
grows.
-/

namespace WasixEth

/-- What a block says about its place: its parent and its height. -/
structure Link (K : Type*) where
  parent : K
  height : Nat

variable {K : Type*}

/-- `Ancestor links k n a`: from `k`, the block reached at height `n` along
the parents is `a`. -/
inductive Ancestor (links : K → Option (Link K)) : K → Nat → K → Prop where
  | self {k : K} {link : Link K} (hlink : links k = some link) : Ancestor links k link.height k
  | parent {k a : K} {link : Link K} {n : Nat} (hlink : links k = some link)
      (hlt : n < link.height) (hparent : Ancestor links link.parent n a) : Ancestor links k n a

/-- Every block but the root has its parent in the store, one height below. -/
structure Rooted (links : K → Option (Link K)) (root : K) : Prop where
  root_mem : ∃ link, links root = some link
  parent_mem : ∀ {k link}, links k = some link → k ≠ root →
    ∃ parent, links link.parent = some parent ∧ link.height = parent.height + 1

namespace Ancestor

variable {links links' : K → Option (Link K)} {root k a b c : K} {m n : Nat}

theorem height_eq (h : Ancestor links k n a) : ∃ link, links a = some link ∧ link.height = n := by
  induction h with
  | self hlink => exact ⟨_, hlink, rfl⟩
  | parent _ _ _ ih => exact ih

theorem exists_link (h : Ancestor links k n a) : ∃ link, links k = some link ∧ n ≤ link.height := by
  cases h with
  | self hlink => exact ⟨_, hlink, le_rfl⟩
  | parent hlink hlt _ => exact ⟨_, hlink, hlt.le⟩

theorem le_height {link : Link K} (h : Ancestor links k n a) (hlink : links k = some link) :
    n ≤ link.height := by
  obtain ⟨link', hlink', hle⟩ := h.exists_link
  rw [hlink] at hlink'
  cases hlink'
  exact hle

/-- At its own height a block has only itself as an ancestor. -/
theorem eq_of_height {link : Link K} (h : Ancestor links k n a) (hlink : links k = some link)
    (hn : n = link.height) : a = k := by
  cases h with
  | self _ => rfl
  | parent hlink' hlt _ =>
      rw [hlink] at hlink'
      cases hlink'
      omega

/-- Below the height of a block its ancestors are those of its parent. -/
theorem of_parent {link : Link K} (h : Ancestor links k n a) (hlink : links k = some link)
    (hn : n < link.height) : Ancestor links link.parent n a := by
  cases h with
  | self hlink' =>
      rw [hlink] at hlink'
      cases hlink'
      omega
  | parent hlink' _ hparent =>
      rw [hlink] at hlink'
      cases hlink'
      exact hparent

theorem unique (h : Ancestor links k n a) (h' : Ancestor links k n b) : a = b := by
  induction h with
  | self hlink => exact (h'.eq_of_height hlink rfl).symm
  | parent hlink hlt _ ih => exact ih (h'.of_parent hlink hlt)

/-- The ancestors of an ancestor are the ancestors at and below its height. -/
theorem iff_of_ancestor (h : Ancestor links k n a) :
    Ancestor links a m c ↔ m ≤ n ∧ Ancestor links k m c := by
  obtain ⟨link, hlink, hheight⟩ := h.height_eq
  constructor
  · intro hac
    have hle : m ≤ n := by
      rw [← hheight]
      exact hac.le_height hlink
    refine ⟨hle, ?_⟩
    induction h with
    | self _ => exact hac
    | parent hlink' hlt _ ih => exact .parent hlink' (by omega) (ih hlink hheight hac hle)
  · rintro ⟨hle, hkc⟩
    induction h with
    | self _ => exact hkc
    | parent hlink' hlt _ ih =>
        exact ih hlink hheight hle (hkc.of_parent hlink' (by omega))

/-- The ancestors of a child are the child and the ancestors of its parent. -/
theorem iff_child {link parent : Link K} (hlink : links k = some link)
    (hparent : links link.parent = some parent) (hheight : link.height = parent.height + 1) :
    Ancestor links k n a ↔ (n = link.height ∧ a = k) ∨ Ancestor links link.parent n a := by
  constructor
  · intro h
    rcases (h.le_height hlink).eq_or_lt with hn | hn
    · exact .inl ⟨hn, h.eq_of_height hlink hn⟩
    · exact .inr (h.of_parent hlink hn)
  · rintro (⟨rfl, rfl⟩ | h)
    · exact .self hlink
    · have hle := h.le_height hparent
      exact .parent hlink (by omega) h

theorem mono (hsub : ∀ k link, links k = some link → links' k = some link)
    (h : Ancestor links k n a) : Ancestor links' k n a := by
  induction h with
  | self hlink => exact .self (hsub _ _ hlink)
  | parent hlink hlt _ ih => exact .parent (hsub _ _ hlink) hlt ih

end Ancestor

namespace Rooted

variable {links links' : K → Option (Link K)} {root k a : K} {n : Nat}

theorem root_height_le (h : Rooted links root) {rootLink link : Link K}
    (hroot : links root = some rootLink) (hlink : links k = some link) :
    rootLink.height ≤ link.height := by
  induction hn : link.height using Nat.strong_induction_on generalizing k link with
  | _ height ih =>
      by_cases hk : k = root
      · rw [hk, hroot] at hlink
        cases hlink
        exact hn.le
      · obtain ⟨parent, hparent, hheight⟩ := h.parent_mem hlink hk
        have := ih parent.height (by omega) hparent rfl
        omega

theorem ancestor_root (h : Rooted links root) {rootLink link : Link K}
    (hroot : links root = some rootLink) (hlink : links k = some link) :
    Ancestor links k rootLink.height root := by
  induction hn : link.height using Nat.strong_induction_on generalizing k link with
  | _ height ih =>
      by_cases hk : k = root
      · rw [hk]
        exact .self hroot
      · obtain ⟨parent, hparent, hheight⟩ := h.parent_mem hlink hk
        have hle := h.root_height_le hroot hparent
        exact .parent hlink (by omega) (ih parent.height (by omega) hparent rfl)

/-- There is an ancestor at every height from that of the root up. -/
theorem exists_ancestor (h : Rooted links root) {rootLink link : Link K}
    (hroot : links root = some rootLink) (hlink : links k = some link)
    (hroot_le : rootLink.height ≤ n) (hle : n ≤ link.height) : ∃ a, Ancestor links k n a := by
  induction hheight : link.height using Nat.strong_induction_on generalizing k link with
  | _ height ih =>
      rcases hle.eq_or_lt with rfl | hlt
      · exact ⟨k, .self hlink⟩
      · have hk : k ≠ root := by
          rintro rfl
          rw [hroot] at hlink
          cases hlink
          omega
        obtain ⟨parent, hparent, hparentHeight⟩ := h.parent_mem hlink hk
        obtain ⟨a, ha⟩ := ih parent.height (by omega) hparent (by omega) rfl
        exact ⟨a, .parent hlink hlt ha⟩

/-- In a store that has grown, the ancestors of an old block are the old ones. -/
theorem ancestor_iff (h : Rooted links root) (h' : Rooted links' root)
    (hsub : ∀ k link, links k = some link → links' k = some link) {link : Link K}
    (hlink : links k = some link) : Ancestor links' k n a ↔ Ancestor links k n a := by
  constructor
  · intro hka
    induction hka generalizing link with
    | self hlink' =>
        rw [hsub _ _ hlink] at hlink'
        cases hlink'
        exact .self hlink
    | @parent k a link' n hlink' hlt hparent ih =>
        have heq := hlink'
        rw [hsub _ _ hlink] at heq
        cases heq
        by_cases hk : k = root
        · -- Below the root there is nothing.
          subst hk
          obtain ⟨found, hfound, hheight⟩ := hparent.height_eq
          have := h'.root_height_le hlink' hfound
          omega
        · obtain ⟨parent, hmem, _⟩ := h.parent_mem hlink hk
          exact .parent hlink hlt (ih hmem)
  · exact Ancestor.mono hsub

end Rooted

end WasixEth
