import WasixEth.Storage.TrieChanges

/-! # Deleting a key

Deletion misses the canonical shape in three ways. A child held by hash is not
inlined when it becomes short. An inlined leaf that vanishes leaves the empty
string in its slot, which still counts as a child, so the branch is not joined
to its last remaining child. And an extension is joined to a child that has
become an extension, but not to one that has become a leaf.
-/

namespace WasixEth.Storage

open Routine YellowPaper

section

variable [Keccak256]

/-! ## Conditions on the entries -/

/-- What the entries must meet where the key continues with `i` behind `path`. -/
structure CleanAt (before after : Entries) (path : Nibbles) (i : Nibble) : Prop where
  stays : BranchAt before path → below (path ++ [i]) after ≠ [] → LongAt before (path ++ [i]) →
    LongAt after (path ++ [i])
  emptied : BranchAt before path → below (path ++ [i]) after = [] →
    BranchAt after path ∨ LongAt before (path ++ [i])
  joined : ¬ BranchAt before path → BranchAt before (path ++ [i]) →
    (below (path ++ [i]) after).length ≠ 1
  behind : ¬ BranchAt before path → BranchAt before (path ++ [i]) →
    BranchAt after (path ++ [i]) → LongAt before (path ++ [i]) → LongAt after (path ++ [i])

instance (before after : Entries) (path : Nibbles) (i : Nibble) :
    Decidable (CleanAt before after path i) :=
  decidable_of_iff
    ((BranchAt before path → below (path ++ [i]) after ≠ [] → LongAt before (path ++ [i]) →
        LongAt after (path ++ [i])) ∧
      (BranchAt before path → below (path ++ [i]) after = [] →
        BranchAt after path ∨ LongAt before (path ++ [i])) ∧
      (¬ BranchAt before path → BranchAt before (path ++ [i]) →
        (below (path ++ [i]) after).length ≠ 1) ∧
      (¬ BranchAt before path → BranchAt before (path ++ [i]) →
        BranchAt after (path ++ [i]) → LongAt before (path ++ [i]) →
          LongAt after (path ++ [i])))
    ⟨fun h => ⟨h.1, h.2.1, h.2.2.1, h.2.2.2⟩, fun h => ⟨h.stays, h.emptied, h.joined, h.behind⟩⟩

/-- Every level of the key's path stays clean. -/
def CleanPath (before after : Entries) (nibbles : Nibbles) : Prop :=
  ∀ path i, path ++ [i] <+: nibbles → CleanAt before after path i

instance (before after : Entries) (nibbles : Nibbles) :
    Decidable (CleanPath before after nibbles) :=
  decidable_of_iff (∀ path ∈ nibbles.inits, ∀ i, path ++ [i] <+: nibbles →
      CleanAt before after path i)
    ⟨fun h path i hpre => h path ((List.mem_inits _ _).mpr
      ((List.prefix_append path [i]).trans hpre)) i hpre, fun h path _ i => h path i⟩

section

variable {entries before after : Entries} {f : Nibbles → Option Bytes} {path rest : Nibbles}
  {i : Nibble}

omit [Keccak256] in
theorem canon_eq_empty_iff_nil {depth : Nat} (h : Lists entries f) (hf : Tree.Supported depth f) :
    Tree.canon depth f = .empty ↔ entries = [] := by
  rw [Tree.canon_eq_empty hf]
  constructor
  · intro hnone
    rw [List.eq_nil_iff_forall_not_mem]
    rintro ⟨nibbles, value⟩ hmem
    rw [h.mem_iff, hnone] at hmem
    cases hmem
  · rintro rfl
    exact h.eq_none

omit [Keccak256] in
theorem isLeaf_canon {depth : Nat} (h : Lists entries f) (hf : Tree.Supported depth f)
    (hdepth : depth ≤ 64) : (Tree.canon depth f).isLeaf = true ↔ entries.length = 1 := by
  match hentries : entries with
  | [] =>
      rw [(canon_eq_empty_iff_nil h hf).mpr rfl]
      simp [Tree.isLeaf]
  | [(key, value)] =>
      have hvalue := (h.mem_iff key value).mp (by simp)
      rw [h.eq_update, Tree.canon_single (hf.length_eq _ _ hvalue) hdepth (hf.fits _ _ hvalue)]
      simp [Tree.isLeaf]
  | first :: second :: others =>
      rw [← hentries] at h ⊢
      have hbranching := branching_sharedPath h hf (by simp [hentries])
      obtain ⟨depth', rfl⟩ := Tree.depth_of_branching hf hbranching
      have hisBranch := (Tree.isBranch_canon hf.restrict).mpr hbranching
      have hnot : (Tree.canon ((sharedPath entries).length + (depth' + 1)) f).isLeaf = false := by
        rw [Tree.canon_of_shared hf hbranching fun _ => h.isPrefix_sharedPath, Tree.wrap]
        split
        · cases hshape : Tree.canon (depth' + 1) (Tree.restrict (sharedPath entries) f) with
          | branch hashed child => rfl
          | empty => rfl
          | extension key hashed child => rfl
          | leaf key value =>
              rw [hshape] at hisBranch
              cases hisBranch
        · rfl
      rw [hnot]
      simp [hentries]

omit [Keccak256] in
theorem levelAt_update_of_ne {a : Nibble} (ha : a ≠ i) (value : Option Bytes) :
    Tree.levelAt 64 (Function.update f (path ++ i :: rest) value) path a =
      Tree.levelAt 64 f path a := by
  unfold Tree.levelAt
  congr 1
  funext nibbles
  have hne : path ++ [a] ++ nibbles ≠ path ++ i :: rest := by
    rw [List.append_assoc, Ne, List.append_cancel_left_eq]
    simp [ha]
  rw [Tree.restrict, Function.update_of_ne hne]
  rfl

/-! ### A level in terms of the entries -/

omit [Keccak256] in
theorem supported_level (hf : Tree.Supported 64 f) (path : Nibbles) (a : Nibble) :
    Tree.Supported (64 - path.length - 1) (Tree.restrict (path ++ [a]) f) := by
  have hbelow := supported_restrict hf (path ++ [a])
  rwa [List.length_append, List.length_singleton, Nat.sub_add_eq] at hbelow

omit [Keccak256] in
theorem supported_above (hf : Tree.Supported 64 f) (hlength : path.length < 64) :
    Tree.Supported (64 - path.length - 1 + 1) (Tree.restrict path f) := by
  have hbelow := supported_restrict hf path
  rwa [show 64 - path.length = 64 - path.length - 1 + 1 by omega] at hbelow

omit [Keccak256] in
theorem levelAt_eq_empty_iff (h : Lists entries f) (hf : Tree.Supported 64 f) (path : Nibbles)
    (a : Nibble) :
    Tree.levelAt 64 f path a = .empty ↔ below (path ++ [a]) entries = [] :=
  canon_eq_empty_iff_nil (h.below _) (supported_level hf path a)

omit [Keccak256] in
theorem isLeaf_levelAt_iff (h : Lists entries f) (hf : Tree.Supported 64 f) (path : Nibbles)
    (a : Nibble) :
    (Tree.levelAt 64 f path a).isLeaf = true ↔ (below (path ++ [a]) entries).length = 1 :=
  isLeaf_canon (h.below _) (supported_level hf path a) (by omega)

omit [Keccak256] in
theorem isBranch_levelAt_iff (h : Lists entries f) (hf : Tree.Supported 64 f) (path : Nibbles)
    (a : Nibble) :
    (Tree.levelAt 64 f path a).isBranch = true ↔ BranchAt entries (path ++ [a]) := by
  rw [← branching_iff_branchAt h hf, Tree.levelAt, Tree.isBranch_canon (supported_level hf path a)]
  rfl

theorem link_levelAt_iff (h : Lists entries f) (hf : Tree.Supported 64 f) (path : Nibbles)
    (a : Nibble) :
    (Tree.levelAt 64 f path a).link = true ↔ LongAt entries (path ++ [a]) := by
  rw [← long_iff_longAt h hf, Tree.Long, Tree.link, decide_eq_true_eq, List.length_append,
    List.length_singleton, Nat.sub_add_eq]
  rfl

omit [Keccak256] in
theorem hasSibling_levelAt_iff (h : Lists entries f) (hf : Tree.Supported 64 f)
    (hlength : path.length < 64) (hne : Tree.levelAt 64 f path i ≠ .empty) :
    Tree.HasSibling (Tree.levelAt 64 f path) i ↔ BranchAt entries path := by
  have hlevel : Tree.levelAt 64 f path = fun a =>
      Tree.canon (64 - path.length - 1) (Tree.restrict [a] (Tree.restrict path f)) := by
    funext a
    rw [Tree.levelAt, Tree.restrict_append]
  rw [hlevel] at hne ⊢
  rw [Tree.hasSibling_iff (supported_above hf hlength) hne, ← branching_iff_branchAt h hf]
  rfl

omit [Keccak256] in
/-- Once the slot at `i` is empty, a branch remains exactly when two other
slots are filled. -/
theorem two_others_iff (hf : Tree.Supported 64 f)
    (hafter : Lists after (Function.update f (path ++ i :: rest) none))
    (hlength : path.length < 64) (hnil : below (path ++ [i]) after = []) :
    (∃ j k, j ≠ k ∧ j ≠ i ∧ k ≠ i ∧ Tree.levelAt 64 f path j ≠ .empty ∧
      Tree.levelAt 64 f path k ≠ .empty) ↔ BranchAt after path := by
  have hf' := hf.erase (path ++ i :: rest)
  have hempty := (levelAt_eq_empty_iff hafter hf' path i).mpr hnil
  have hbranching : BranchAt after path ↔ Tree.Branching
      (Tree.restrict path (Function.update f (path ++ i :: rest) none)) [] := by
    rw [← branching_iff_branchAt hafter hf']
    rfl
  rw [hbranching, Tree.branching_iff (supported_above hf' hlength)]
  simp only [← Tree.restrict_append]
  constructor
  · rintro ⟨j, k, hjk, hji, hki, hj, hk⟩
    rw [← levelAt_update_of_ne hji none] at hj
    rw [← levelAt_update_of_ne hki none] at hk
    exact ⟨j, k, hjk, hj, hk⟩
  · rintro ⟨j, k, hjk, hj, hk⟩
    have hother : ∀ {a}, Tree.canon (64 - path.length - 1) (Tree.restrict (path ++ [a])
        (Function.update f (path ++ i :: rest) none)) ≠ .empty →
        a ≠ i ∧ Tree.levelAt 64 f path a ≠ .empty := by
      intro a ha
      have hai : a ≠ i := by
        rintro rfl
        exact ha hempty
      rw [← levelAt_update_of_ne hai none]
      exact ⟨hai, ha⟩
    exact ⟨j, k, hjk, (hother hj).1, (hother hk).1, (hother hj).2, (hother hk).2⟩

/-- A level of the canonical tree stays clean when the entries do. -/
theorem cleanLevel_iff (hf : Tree.Supported 64 f) (hbefore : Lists before f)
    (hafter : Lists after (Function.update f (path ++ i :: rest) none))
    (hpresent : f (path ++ i :: rest) ≠ none) :
    Tree.CleanLevel (Tree.levelAt 64 f path) i
        (Tree.levelAt 64 (Function.update f (path ++ i :: rest) none) path i) ↔
      CleanAt before after path i := by
  obtain ⟨value, hvalue⟩ := Option.ne_none_iff_exists'.mp hpresent
  have hlength : path.length < 64 := by
    have htotal := hf.length_eq _ _ hvalue
    simp only [List.length_append, List.length_cons] at htotal
    omega
  have hne : Tree.levelAt 64 f path i ≠ .empty :=
    (Tree.canon_ne_empty (supported_level hf path i)).mpr
      ⟨rest, by simpa [Tree.restrict] using hpresent⟩
  have hf' := hf.erase (path ++ i :: rest)
  have hsibling := hasSibling_levelAt_iff hbefore hf hlength hne
  have hempty := levelAt_eq_empty_iff hafter hf' path i
  have hleaf := isLeaf_levelAt_iff hafter hf' path i
  have hbranch := isBranch_levelAt_iff hbefore hf path i
  have hbranch' := isBranch_levelAt_iff hafter hf' path i
  have hlong := link_levelAt_iff hbefore hf path i
  have hlong' := link_levelAt_iff hafter hf' path i
  have hothers := two_others_iff hf hafter hlength
  constructor
  · intro h
    refine ⟨fun hs hkeep => ?_, fun hs hnil => ?_, fun hs hb hone => ?_, fun hs hb hb' => ?_⟩
    · rw [← hlong, ← hlong']
      exact h.stays (hsibling.mpr hs) (mt hempty.mp hkeep)
    · rw [← hothers hnil, ← hlong]
      exact h.emptied (hsibling.mpr hs) (hempty.mpr hnil)
    · have hnot := h.joined (mt hsibling.mp hs) (hbranch.mpr hb)
      rw [hleaf.mpr hone] at hnot
      cases hnot
    · rw [← hlong, ← hlong']
      exact h.behind (mt hsibling.mp hs) (hbranch.mpr hb) (hbranch'.mpr hb')
  · intro h
    refine ⟨fun hs hkeep => ?_, fun hs hnil => ?_, fun hs hb => ?_, fun hs hb hb' => ?_⟩
    · rw [hlong, hlong']
      exact h.stays (hsibling.mp hs) (mt hempty.mpr hkeep)
    · rw [hothers (hempty.mp hnil), hlong]
      exact h.emptied (hsibling.mp hs) (hempty.mp hnil)
    · rw [← Bool.not_eq_true, hleaf]
      exact h.joined (mt hsibling.mpr hs) (hbranch.mp hb)
    · rw [hlong, hlong']
      exact h.behind (mt hsibling.mpr hs) (hbranch.mp hb) (hbranch'.mp hb')

theorem removesCleanly_iff {nibbles : Nibbles} (hf : Tree.Supported 64 f)
    (hbefore : Lists before f) (hafter : Lists after (Function.update f nibbles none))
    (hpresent : f nibbles ≠ none) :
    Tree.RemovesCleanly 64 f nibbles ↔ CleanPath before after nibbles := by
  constructor
  · rintro h path i ⟨rest, hrest⟩
    have hsplit : path ++ i :: rest = nibbles := by
      rw [← hrest]
      simp
    subst hsplit
    exact (cleanLevel_iff hf hbefore hafter hpresent).mp (h path i rest rfl)
  · rintro h path i rest rfl
    exact (cleanLevel_iff hf hbefore hafter hpresent).mpr (h path i ⟨rest, by simp⟩)

end

/-! ## Deletion from a fresh trie -/

/-- Build a trie, then delete one key. -/
def deleteAfter (leaves : List (B256 × Bytes)) (key : B256) : TrieM Unit := do
  insertAll leaves
  EthTrie.delete key

theorem deleteAfter_spec {strings : Set Bytes} (hstrings : CollisionFree strings)
    {leaves : List (B256 × Bytes)} (hnodup : (leaves.map Prod.fst).Nodup)
    (hfit : ValuesFit leaves) (key : B256) :
    Triple (· ∈ strings) (· = emptyTrie) (deleteAfter leaves key) fun _ t =>
      ∃ clean known, Holds ∅ strings clean known
        ((Tree.canon 64 (contentsOf leaves)).remove (unpack key)) t := by
  refine triple_bind (insertAll_emptyTrie hstrings hnodup hfit) fun _ => ?_
  refine (delete_spec hstrings key).weaken ?_
  rintro _ t ⟨counted, hcounted, ht⟩
  rw [hcounted trivial] at ht
  exact ⟨_, _, ht⟩

/-- Deleting a key of a fresh trie gives the root of the remaining map exactly
when every level of the key's path stays clean. -/
theorem deleteAfter_root_iff (leaves : List (B256 × Bytes)) (hnodup : (leaves.map Prod.fst).Nodup)
    (hfit : ValuesFit leaves) (key : B256) (hkey : key ∈ leaves.map Prod.fst)
    (leaves' : List (B256 × Bytes)) (hperm : leaves'.Perm (without leaves key))
    (hfree : Set.InjOn keccak256 (runStrings ∅ ((deleteAfter leaves key emptyTrie).log ++
      (insertAll leaves' emptyTrie).log))) :
    (deleteAfter leaves key emptyTrie).result = .ok () ∧
      (insertAll leaves' emptyTrie).result = .ok () ∧
      ((deleteAfter leaves key emptyTrie).state.rootHash =
          (insertAll leaves' emptyTrie).state.rootHash ↔
        CleanPath (entriesOf leaves) (entriesOf leaves') (unpack key)) := by
  have hstrings := collisionFree_runStrings hfree
  have hlists := lists_contentsOf hnodup
  have hwithout := (lists_without hnodup key).perm (hperm.map _).symm
  have hnodup' : (leaves'.map Prod.fst).Nodup := by
    rw [(hperm.map Prod.fst).nodup_iff]
    exact nodup_without hnodup key
  have hfit' : ValuesFit leaves' := fun leaf hleaf =>
    hfit leaf (List.mem_filter.mp (hperm.mem_iff.mp hleaf)).1
  have hpresent := contentsOf_ne_none hnodup hkey
  obtain ⟨_, hresult, clean, known, hholds⟩ := deleteAfter_spec hstrings hnodup hfit key emptyTrie
    rfl fun data hdata => .inr (.inl (List.mem_append_left _ hdata))
  obtain ⟨_, hresult', hholds'⟩ := insertAll_emptyTrie hstrings hnodup' hfit' emptyTrie rfl
    fun data hdata => .inr (.inl (List.mem_append_right _ hdata))
  refine ⟨hresult, hresult', ?_⟩
  rw [hholds.root_eq_iff hstrings hholds', contentsOf_eq hnodup' hwithout,
    Tree.remove_canon_iff (supported_contentsOf hfit) le_rfl hpresent]
  exact removesCleanly_iff (supported_contentsOf hfit) hlists hwithout hpresent

end

section Keccak

attribute [local instance] keccak

/-- Three leaves below one branch, the shortest of which is still longer than
a hash. -/
def branchLeaves : List (B256 × Bytes) :=
  [(B256.leading 0x10, [1]), (B256.leading 0x20, [2]), (B256.leading 0x30, [3])]

theorem deleteAfter_branchLeaves :
    (deleteAfter branchLeaves (B256.leading 0x20) emptyTrie).state.rootHash =
      (insertAll [(B256.leading 0x30, [3]), (B256.leading 0x10, [1])]
        emptyTrie).state.rootHash := by
  refine (deleteAfter_root_iff branchLeaves (by decide) (by simp [ValuesFit, branchLeaves])
    (B256.leading 0x20) (by decide) [(B256.leading 0x30, [3]), (B256.leading 0x10, [1])]
    (by decide) (injOn_runStrings_empty (by decide +kernel))).2.2.mpr ?_
  decide +kernel

/-- Below the extension of the shared nibble the surviving leaf is not joined
to it. -/
theorem deleteAfter_root_ne :
    (deleteAfter sharedNibbleLeaves (B256.leading 0x12) emptyTrie).result = .ok () ∧
      (deleteAfter sharedNibbleLeaves (B256.leading 0x12) emptyTrie).state.rootHash ≠
        (insertAll [(B256.leading 0x11, [1])] emptyTrie).state.rootHash := by
  decide +kernel

end Keccak

end WasixEth.Storage
