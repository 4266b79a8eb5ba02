import WasixEth.Storage.CanonicalGrowth

/-! # Deletion from canonical trees

Deletion meets the canonical tree of the remaining map unless one of three
things happens on the path: a child held by hash becomes too short for it, the
last leaf beside a single other child was inlined, or an extension is left in
front of a leaf.
-/

namespace WasixEth.Storage

namespace Tree

/-- Deletion from a trie without emptied slots. -/
def remove (tree : Tree) (nibbles : Nibbles) : Tree := tree.delete (fun _ => false) nibbles

def isLeaf : Tree → Bool
  | leaf _ _ => true
  | _ => false

/-! ## Below one nibble -/

theorem remove_leaf (key nibbles : Nibbles) (value : Bytes) :
    (leaf key value).remove nibbles = if key = nibbles then empty else leaf key value := rfl

theorem remove_extension (key : Nibbles) (hashed : Bool) (child : Tree) (nibbles : Nibbles) :
    (extension key hashed child).remove nibbles =
      if key <+: nibbles then
        if (child.remove (nibbles.drop key.length)).isEmpty && hashed then empty
        else joinExtension key (relink hashed (child.remove (nibbles.drop key.length)))
          (child.remove (nibbles.drop key.length))
      else extension key hashed child := rfl

theorem joinBranch_joinExtension (i : Nibble) (hashed : Bool) (key : Nibbles) (hashed' : Bool)
    (child : Tree) :
    joinBranch i hashed (joinExtension key hashed' child) =
      joinExtension (i :: key) hashed' child := by
  cases child <;> rfl

theorem isBranch_joinExtension (key : Nibbles) (hashed : Bool) (child : Tree) :
    (joinExtension key hashed child).isBranch = false := by
  cases child <;> rfl

/-- Removing below the first nibble of a tree that carries the nibble in its
own path. -/
theorem remove_joinBranch_path {tree : Tree} (i : Nibble) (hashed hashed' : Bool)
    {nibbles : Nibbles} (hne : tree ≠ empty) (hpath : tree.isBranch = false)
    (hne' : tree.remove nibbles ≠ empty) :
    (joinBranch i hashed tree).remove (i :: nibbles) =
        joinBranch i hashed' (tree.remove nibbles) ∧
      (tree.remove nibbles).isBranch = false := by
  cases tree with
  | empty => exact absurd rfl hne
  | branch hashed child => cases hpath
  | leaf key value =>
      simp only [joinBranch, remove_leaf, List.cons.injEq, true_and] at hne' ⊢
      split
      next heq => simp [heq] at hne'
      next => exact ⟨rfl, rfl⟩
  | extension key hashed child =>
      simp only [joinBranch, remove_extension, List.cons_prefix_cons, true_and, List.length_cons,
        List.drop_succ_cons] at hne' ⊢
      by_cases hpre : key <+: nibbles
      · simp only [if_pos hpre] at hne' ⊢
        split
        next hvanish => simp [hvanish] at hne'
        next =>
          exact ⟨(joinBranch_joinExtension i _ key _ _).symm, isBranch_joinExtension _ _ _⟩
      · simp only [if_neg hpre]
        exact ⟨trivial, rfl⟩

/-- A branch at the end of an extension is held as the extension held it. -/
theorem remove_joinBranch_branch {tree : Tree} (i : Nibble) (hashed : Bool) {nibbles : Nibbles}
    (hbranch : tree.isBranch = true) (hne' : tree.remove nibbles ≠ empty) :
    (joinBranch i hashed tree).remove (i :: nibbles) =
      joinExtension [i] (relink hashed (tree.remove nibbles)) (tree.remove nibbles) := by
  have hnot : (tree.remove nibbles).isEmpty = false := by simpa using hne'
  cases tree with
  | branch hashed child => simp [joinBranch, remove_extension, hnot]
  | empty => cases hbranch
  | leaf key value => cases hbranch
  | extension key hashed child => cases hbranch

/-- What becomes of an extension over a branch is canonical when the branch
does not turn into a leaf. -/
theorem joinExtension_eq_joinBranch {depth : Nat} {i : Nibble} {hashed : Bool} {tree tree' : Tree}
    (htree : Regular depth tree) (htree' : Regular depth tree') (hne : tree ≠ empty)
    (hne' : tree' ≠ empty) :
    joinExtension [i] hashed tree = joinBranch i tree'.link tree' ↔
      tree = tree' ∧ tree'.isLeaf = false ∧ (tree'.isBranch = true → hashed = tree'.link) := by
  have hkey : ∀ {key hashed child}, tree = extension key hashed child → key ≠ [] := by
    rintro key hashed child rfl
    cases htree
    assumption
  have hkey' : ∀ {key hashed child}, tree' = extension key hashed child → key ≠ [] := by
    rintro key hashed child rfl
    cases htree'
    assumption
  cases tree with
  | empty => exact absurd rfl hne
  | leaf key value =>
      cases tree' with
      | empty => exact absurd rfl hne'
      | leaf key' value' => simp [joinExtension, joinBranch, isLeaf]
      | extension key' hashed' child' =>
          simp [joinExtension, joinBranch, Ne.symm (hkey' rfl)]
      | branch hashed' child' => simp [joinExtension, joinBranch]
  | extension key hashed child =>
      cases tree' with
      | empty => exact absurd rfl hne'
      | leaf key' value' => simp [joinExtension, joinBranch]
      | extension key' hashed' child' => simp [joinExtension, joinBranch, isLeaf, isBranch]
      | branch hashed' child' => simp [joinExtension, joinBranch, hkey rfl]
  | branch hashed child =>
      cases tree' with
      | empty => exact absurd rfl hne'
      | leaf key' value' => simp [joinExtension, joinBranch]
      | extension key' hashed' child' =>
          simp [joinExtension, joinBranch, Ne.symm (hkey' rfl)]
      | branch hashed' child' =>
          simp only [joinExtension, joinBranch, extension.injEq, true_and, isLeaf, isBranch,
            forall_const]
          exact and_comm

/-! ## One level of a canonical tree -/

/-- At one level of the path the deletion leaves the canonical shape: `child`
are the children before, and `tree` is to replace the one at `i`. -/
structure CleanLevel (child : Nibble → Tree) (i : Nibble) (tree : Tree) : Prop where
  stays : HasSibling child i → tree ≠ empty → (child i).link = true → tree.link = true
  emptied : HasSibling child i → tree = empty →
    (∃ j k, j ≠ k ∧ j ≠ i ∧ k ≠ i ∧ child j ≠ empty ∧ child k ≠ empty) ∨ (child i).link = true
  joined : ¬ HasSibling child i → (child i).isBranch = true → tree.isLeaf = false
  behind : ¬ HasSibling child i → (child i).isBranch = true → tree.isBranch = true →
    (child i).link = true → tree.link = true

theorem remove_branch (hashed : Nibble → Bool) (child : Nibble → Tree) (i : Nibble)
    (nibbles : Nibbles) :
    (branch hashed child).remove (i :: nibbles) =
      if ((child i).remove nibbles).isEmpty && !hashed i && !(child i).isEmpty then
        branch (Function.update hashed i (relink (hashed i) ((child i).remove nibbles)))
          (Function.update child i ((child i).remove nibbles))
      else collapse (Function.update hashed i (relink (hashed i) ((child i).remove nibbles)))
        (Function.update child i ((child i).remove nibbles)) := by
  simp only [remove, delete, Bool.false_or]
  rfl

theorem update_link (child : Nibble → Tree) (i : Nibble) (tree : Tree) :
    Function.update (fun a => (child a).link) i tree.link =
      fun a => (Function.update child i tree a).link := by
  funext a
  by_cases ha : a = i
  · subst ha
    simp
  · simp [ha]

theorem relink_of_ne_empty {hashed : Bool} {tree : Tree} (h : tree ≠ empty) :
    relink hashed tree = (hashed || tree.link) := by
  have hnot : tree.isEmpty = false := by simpa using h
  simp [relink, hnot]

/-- Beside other children, when something stays below the nibble. -/
theorem remove_gather_sibling {child : Nibble → Tree} {i : Nibble} {nibbles : Nibbles}
    {tree : Tree} (hne : child i ≠ empty) (hsibling : HasSibling child i) (hne' : tree ≠ empty)
    (hrest : (child i).remove nibbles ≠ empty) :
    (gather child).remove (i :: nibbles) = gather (Function.update child i tree) ↔
      (child i).remove nibbles = tree ∧ ((child i).link = true → tree.link = true) := by
  have hnot : ((child i).remove nibbles).isEmpty = false := by simpa using hrest
  obtain ⟨j, hji, hj⟩ := id hsibling
  have hcollapse : ∀ hashed, collapse hashed (Function.update child i ((child i).remove nibbles)) =
      branch hashed (Function.update child i ((child i).remove nibbles)) := fun hashed =>
    collapse_of_two hji (by simpa [hji] using hj) (by simpa using hrest)
  rw [gather_of_sibling hne hsibling, gather_update_of_sibling hne' hsibling, remove_branch, hnot]
  simp only [Bool.false_and, Bool.false_eq_true, if_false, hcollapse, relink_of_ne_empty hrest,
    branch.injEq]
  constructor
  · rintro ⟨hflags, hchildren⟩
    have hsame := congrFun hchildren i
    have hflag := congrFun hflags i
    simp only [Function.update_self] at hsame hflag
    refine ⟨hsame, fun hlink => ?_⟩
    rw [← hflag, hlink, Bool.true_or]
  · rintro ⟨rfl, hlink⟩
    refine ⟨?_, rfl⟩
    rw [← update_link]
    congr 1
    cases hbefore : (child i).link with
    | false => rfl
    | true => simp [hlink hbefore]

/-- Beside other children, when the nibble's last leaf goes. -/
theorem remove_gather_emptied {child : Nibble → Tree} {i : Nibble} {nibbles : Nibbles}
    (hne : child i ≠ empty) (hsibling : HasSibling child i)
    (hrest : (child i).remove nibbles = empty) :
    (gather child).remove (i :: nibbles) = gather (Function.update child i empty) ↔
      (∃ j k, j ≠ k ∧ j ≠ i ∧ k ≠ i ∧ child j ≠ empty ∧ child k ≠ empty) ∨
        (child i).link = true := by
  have hfilled : (child i).isEmpty = false := by simpa using hne
  have hflags : Function.update (fun a => (child a).link) i (relink (child i).link empty) =
      fun a => (Function.update child i empty a).link := update_link child i empty
  rw [gather_of_sibling hne hsibling, remove_branch, hrest, hflags, hfilled]
  cases hlink : (child i).link with
  | true => simp [gather, isEmpty]
  | false =>
      simp only [isEmpty, Bool.not_false, Bool.and_self, if_true, Bool.false_eq_true, or_false]
      constructor
      · intro heq
        obtain hnone | ⟨j, hj, hother⟩ | ⟨j, k, hjk, hj, hk⟩ :=
          children_cases (Function.update child i empty)
        · rw [gather, collapse_of_none hnone] at heq
          cases heq
        · have hbranch := congrArg isBranch heq
          rw [gather, collapse_of_one hj hother, isBranch_joinBranch] at hbranch
          cases hbranch
        · have hji : j ≠ i := by
            rintro rfl
            simp at hj
          have hki : k ≠ i := by
            rintro rfl
            simp at hk
          refine ⟨j, k, hjk, hji, hki, ?_, ?_⟩
          · simpa [hji] using hj
          · simpa [hki] using hk
      · rintro ⟨j, k, hjk, hji, hki, hj, hk⟩
        refine (collapse_of_two hjk ?_ ?_).symm
        · simpa [hji] using hj
        · simpa [hki] using hk

/-- The nibble carries everything, and something stays below it. -/
theorem remove_gather_alone {depth : Nat} {child : Nibble → Tree} {i : Nibble} {nibbles : Nibbles}
    {tree : Tree} (hchild : Regular depth (child i)) (htree : Regular depth tree)
    (hlength : nibbles.length = depth) (hne : child i ≠ empty) (halone : ¬ HasSibling child i)
    (hne' : tree ≠ empty) (hrest : (child i).remove nibbles ≠ empty) :
    (gather child).remove (i :: nibbles) = gather (Function.update child i tree) ↔
      (child i).remove nibbles = tree ∧
        ((child i).isBranch = true → tree.isLeaf = false ∧
          (tree.isBranch = true → (child i).link = true → tree.link = true)) := by
  have hregular : Regular depth ((child i).remove nibbles) := regular_delete hchild _ hlength
  rw [gather_of_alone hne halone, gather_update_of_alone hne' halone]
  cases hbranch : (child i).isBranch with
  | false =>
      obtain ⟨hremove, hnot⟩ := remove_joinBranch_path i (child i).link tree.link hne hbranch hrest
      rw [hremove, joinBranch_inj hregular htree hrest hne']
      simp [hnot]
  | true =>
      rw [remove_joinBranch_branch i _ hbranch hrest,
        joinExtension_eq_joinBranch hregular htree hrest hne', relink_of_ne_empty hrest]
      simp only [forall_const]
      constructor
      · rintro ⟨rfl, hleaf, hflag⟩
        refine ⟨rfl, hleaf, fun hbranch' hlink => ?_⟩
        rw [← hflag hbranch', hlink, Bool.true_or]
      · rintro ⟨rfl, hleaf, hflag⟩
        refine ⟨rfl, hleaf, fun hbranch' => ?_⟩
        cases hbefore : (child i).link with
        | false => rfl
        | true => simp [hflag hbranch' hbefore]

/-- Removing an entry below a canonical level gives the canonical level with
one child replaced, exactly when the child's own removal gives the replacement
and the level stays clean. -/
theorem remove_gather_iff {depth : Nat} {child : Nibble → Tree} {i : Nibble} {nibbles : Nibbles}
    {tree : Tree} (hchild : Regular depth (child i)) (htree : Regular depth tree)
    (hlength : nibbles.length = depth) (hne : child i ≠ empty)
    (hrest : (child i).remove nibbles = empty ↔ tree = empty)
    (hleaf : tree = empty → (child i).isLeaf = true) :
    (gather child).remove (i :: nibbles) = gather (Function.update child i tree) ↔
      (child i).remove nibbles = tree ∧ CleanLevel child i tree := by
  by_cases hsibling : HasSibling child i
  · by_cases hempty : tree = empty
    · rw [hempty, remove_gather_emptied hne hsibling (hrest.mpr hempty)]
      refine ⟨fun h => ⟨hrest.mpr hempty, ?_⟩, fun h => h.2.emptied hsibling rfl⟩
      exact ⟨fun _ h' => absurd rfl h', fun _ _ => h, fun h' => absurd hsibling h',
        fun h' => absurd hsibling h'⟩
    · rw [remove_gather_sibling hne hsibling hempty fun h => hempty (hrest.mp h)]
      refine and_congr_right fun _ => ⟨fun h => ?_, fun h => h.stays hsibling hempty⟩
      exact ⟨fun _ _ => h, fun _ h' => absurd h' hempty, fun h' => absurd hsibling h',
        fun h' => absurd hsibling h'⟩
  · by_cases hempty : tree = empty
    · have hnot : (child i).isBranch = false := by
        have hisLeaf := hleaf hempty
        cases hshape : child i with
        | leaf key value => rfl
        | empty => rfl
        | extension key hashed child => rfl
        | branch hashed child =>
            rw [hshape] at hisLeaf
            cases hisLeaf
      refine iff_of_true ?_ ⟨(hrest.mpr hempty).trans hempty.symm, ?_⟩
      · have hothers : ∀ a, Function.update child i tree a = empty := by
          intro a
          by_cases ha : a = i
          · rw [ha, Function.update_self, hempty]
          · rw [Function.update_of_ne ha]
            by_contra hne'
            exact hsibling ⟨a, ha, hne'⟩
        rw [gather_eq_empty.mpr hothers, gather_of_alone hne hsibling]
        have hremoved := hrest.mpr hempty
        cases hshape : child i with
        | leaf key value =>
            rw [hshape, remove_leaf] at hremoved
            split at hremoved
            next heq => simp [joinBranch, remove_leaf, heq]
            next => cases hremoved
        | empty => exact absurd hshape hne
        | extension key hashed child =>
            rw [hshape] at hleaf
            cases hleaf hempty
        | branch hashed child =>
            rw [hshape] at hnot
            cases hnot
      · exact ⟨fun h => absurd h hsibling, fun h => absurd h hsibling,
          fun _ h => by simp [hnot] at h, fun _ h => by simp [hnot] at h⟩
    · rw [remove_gather_alone hchild htree hlength hne hsibling hempty
        fun h => hempty (hrest.mp h)]
      refine and_congr_right fun _ => ⟨fun h => ?_, fun h hbranch => ?_⟩
      · exact ⟨fun h' => absurd h' hsibling, fun h' => absurd h' hsibling,
          fun _ hbranch => (h hbranch).1, fun _ hbranch => (h hbranch).2⟩
      · exact ⟨h.joined hsibling hbranch, h.behind hsibling hbranch⟩

/-! ## Whole paths -/

/-- The children of the canonical level at `path`. -/
def levelAt (depth : Nat) (f : Nibbles → Option Bytes) (path : Nibbles) (a : Nibble) : Tree :=
  canon (depth - path.length - 1) (restrict (path ++ [a]) f)

/-- The deletion leaves the canonical shape at every level of the path. -/
def RemovesCleanly (depth : Nat) (f : Nibbles → Option Bytes) (nibbles : Nibbles) : Prop :=
  ∀ path i rest, nibbles = path ++ i :: rest →
    CleanLevel (levelAt depth f path) i
      (levelAt depth (Function.update f nibbles none) path i)

theorem levelAt_cons (depth : Nat) (f : Nibbles → Option Bytes) (i : Nibble) (path : Nibbles) :
    levelAt (depth + 1) f (i :: path) = levelAt depth (restrict [i] f) path := by
  funext a
  unfold levelAt
  rw [List.length_cons, Nat.add_sub_add_right, ← restrict_append]
  rfl

theorem removesCleanly_cons {depth : Nat} {f : Nibbles → Option Bytes} {i : Nibble}
    {nibbles : Nibbles} :
    RemovesCleanly (depth + 1) f (i :: nibbles) ↔
      CleanLevel (fun a => canon depth (restrict [a] f)) i
          (canon depth (Function.update (restrict [i] f) nibbles none)) ∧
        RemovesCleanly depth (restrict [i] f) nibbles := by
  constructor
  · intro h
    constructor
    · rw [← restrict_update_same]
      exact h [] i nibbles rfl
    · intro path j rest heq
      have htail := h (i :: path) j rest (by rw [heq]; rfl)
      rw [levelAt_cons, levelAt_cons, restrict_update_same] at htail
      exact htail
  · rintro ⟨hhead, htail⟩ path j rest heq
    cases path with
    | nil =>
        obtain ⟨rfl, rfl⟩ := List.cons.inj heq
        rw [← restrict_update_same] at hhead
        exact hhead
    | cons k path =>
        obtain ⟨rfl, heq'⟩ := List.cons.inj heq
        rw [levelAt_cons, levelAt_cons, restrict_update_same]
        exact htail path j rest heq'

/-- A map left empty by a removal had one entry only. -/
theorem canon_eq_leaf_of_erase {depth : Nat} {f : Nibbles → Option Bytes} (h : Supported depth f)
    (hdepth : depth ≤ 64) {nibbles : Nibbles} {value : Bytes} (hvalue : f nibbles = some value)
    (hempty : canon depth (Function.update f nibbles none) = empty) :
    canon depth f = leaf nibbles value := by
  have hnone := (canon_eq_empty (h.erase nibbles)).mp hempty
  have hf : f = Function.update (fun _ => none) nibbles (some value) := by
    funext other
    by_cases heq : other = nibbles
    · rw [heq, Function.update_self, hvalue]
    · have hother := hnone other
      rw [Function.update_of_ne heq] at hother ⊢
      exact hother
  have hinsert := insert_canon_new (supported_none depth) hdepth (h.length_eq _ _ hvalue)
    (h.fits _ _ hvalue) rfl
  rw [canon_none] at hinsert
  rw [hf]
  exact hinsert.symm

theorem remove_canon_eq_empty {depth : Nat} {f : Nibbles → Option Bytes} (h : Supported depth f)
    (hdepth : depth ≤ 64) {nibbles : Nibbles} {value : Bytes} (hvalue : f nibbles = some value) :
    (canon depth f).remove nibbles = empty ↔
      canon depth (Function.update f nibbles none) = empty := by
  have hlength := h.length_eq _ _ hvalue
  constructor
  · intro hempty
    rw [canon_eq_empty (h.erase nibbles)]
    intro other
    by_cases hother : other.length = depth
    · have hlookup := lookup_delete (regular_canon h) (fun _ => false) hlength hother
      change ((canon depth f).remove nibbles).lookup other = _ at hlookup
      rw [hempty, lookup_canon hother] at hlookup
      by_cases heq : other = nibbles
      · simp [heq]
      · rw [Function.update_of_ne heq]
        simpa [lookup, Ne.symm heq] using hlookup.symm
    · cases hvalue' : Function.update f nibbles none other with
      | none => rfl
      | some value' => exact absurd ((h.erase nibbles).length_eq _ _ hvalue') hother
  · intro hempty
    rw [canon_eq_leaf_of_erase h hdepth hvalue hempty]
    simp [remove_leaf]

/-- Deleting an entry of a canonical tree is canonical exactly when every level
of its path stays clean. -/
theorem remove_canon_iff {depth : Nat} {f : Nibbles → Option Bytes} (h : Supported depth f)
    (hdepth : depth ≤ 64) {nibbles : Nibbles} (hpresent : f nibbles ≠ none) :
    (canon depth f).remove nibbles = canon depth (Function.update f nibbles none) ↔
      RemovesCleanly depth f nibbles := by
  obtain ⟨value, hvalue⟩ := Option.ne_none_iff_exists'.mp hpresent
  have hlength := h.length_eq _ _ hvalue
  induction depth generalizing f nibbles with
  | zero =>
      obtain rfl := List.length_eq_zero_iff.mp hlength
      refine iff_of_true ?_ fun path i rest heq => by simp at heq
      simp [canon, hvalue, remove_leaf]
  | succ depth ih =>
      cases nibbles with
      | nil => simp at hlength
      | cons i nibbles =>
          have hvalue' : restrict [i] f nibbles = some value := hvalue
          have hne : canon depth (restrict [i] f) ≠ empty :=
            (canon_ne_empty (h.slot i)).mpr ⟨nibbles, hpresent⟩
          have hbelow : RemovesCleanly depth (restrict [i] f) nibbles ↔ _ :=
            (ih (h.slot i) (by omega) hpresent hvalue' (by simpa using hlength)).symm
          rw [removesCleanly_cons, hbelow, canon_succ, canon_update,
            remove_gather_iff (regular_canon (h.slot i))
            (regular_canon ((h.slot i).erase nibbles)) (by simpa using hlength) hne
            (remove_canon_eq_empty (h.slot i) (by omega) hvalue') fun hempty => by
              rw [canon_eq_leaf_of_erase (h.slot i) (by omega) hvalue' hempty]
              rfl]
          exact and_comm

end Tree

end WasixEth.Storage
