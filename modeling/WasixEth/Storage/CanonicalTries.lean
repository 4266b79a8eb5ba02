import WasixEth.Storage.FreshTrie
import WasixEth.Storage.StoredTrie

/-! # Writing towards a map

A trie that is written to with the entries of one map, in any order and any
number of times, is canonical at every moment: what it does not have yet is
new, what it has is written as it is, and what the map lacks was never there.
-/

namespace WasixEth.Storage

open Routine BatchWriter

namespace Tree

/-! ## Deleting what is not there -/

/-- Extensions end in branches, branches have two children, and every child is
held as its size asks for. -/
def Normal : Tree → Prop
  | empty => True
  | leaf _ _ => True
  | extension _ hashed child => (child.isBranch = true ∧ hashed = child.link) ∧ child.Normal
  | branch hashed child =>
      (∃ i j, i ≠ j ∧ child i ≠ empty ∧ child j ≠ empty) ∧
        ∀ i, hashed i = (child i).link ∧ (child i).Normal

theorem normal_joinBranch (i : Nibble) {tree : Tree} (h : tree.Normal) (hne : tree ≠ empty) :
    (joinBranch i tree.link tree).Normal := by
  cases tree with
  | empty => exact absurd rfl hne
  | leaf key value => exact trivial
  | extension key hashed child => exact h
  | branch hashed child => exact ⟨⟨rfl, rfl⟩, h⟩

theorem normal_gather {child : Nibble → Tree} (h : ∀ i, (child i).Normal) :
    (gather child).Normal := by
  obtain hnone | ⟨i, hi, hother⟩ | ⟨i, j, hij, hi, hj⟩ := children_cases child
  · rw [gather, collapse_of_none hnone]
    exact trivial
  · rw [gather, collapse_of_one hi hother]
    exact normal_joinBranch i (h i) hi
  · rw [gather, collapse_of_two hij hi hj]
    exact ⟨⟨i, j, hij, hi, hj⟩, fun k => ⟨rfl, h k⟩⟩

theorem normal_canon (depth : Nat) (f : Nibbles → Option Bytes) : (canon depth f).Normal := by
  induction depth generalizing f with
  | zero => cases hf : f [] <;> simp [canon, hf, Normal]
  | succ depth ih =>
      rw [canon_succ]
      exact normal_gather fun i => ih _

@[simp] theorem relink_link (tree : Tree) : relink tree.link tree = tree.link := by
  cases tree <;> simp [relink, isEmpty, link, size]

/-- Whatever the counts are, a path without an entry is deleted in vain. -/
theorem delete_eq_self {tree : Tree} (h : tree.Normal) (counted : Nat → Bool) {nibbles : Nibbles}
    (habsent : tree.lookup nibbles = none) : tree.delete counted nibbles = tree := by
  induction tree generalizing counted nibbles with
  | empty => rfl
  | leaf key value =>
      have hkey : key ≠ nibbles := by
        intro heq
        simp [lookup, heq] at habsent
      simp [delete, hkey]
  | extension key hashed child ih =>
      obtain ⟨⟨hbranch, rfl⟩, hchild⟩ := h
      rw [delete]
      split
      next hpath =>
        rw [lookup, if_pos hpath] at habsent
        rw [ih hchild _ habsent]
        cases child <;> simp [isBranch] at hbranch
        simp [isEmpty, joinExtension]
      next => rfl
  | branch hashed child ih =>
      obtain ⟨⟨i, j, hij, hi, hj⟩, hchildren⟩ := h
      have hhashed : hashed = fun k => (child k).link := by
        funext k
        exact (hchildren k).1
      cases nibbles with
      | nil => exact collapse_of_two hij hi hj
      | cons index remaining =>
          have hsame := ih index (hchildren index).2 (fun d => counted (d + 1)) habsent
          -- both ways out put the same child back into its slot
          simp [delete, hsame, hhashed, collapse_of_two hij hi hj]

theorem delete_canon_absent {depth : Nat} {f : Nibbles → Option Bytes} (counted : Nat → Bool)
    {nibbles : Nibbles} (hlength : nibbles.length = depth) (habsent : f nibbles = none) :
    (canon depth f).delete counted nibbles = canon depth f := by
  apply delete_eq_self (normal_canon depth f)
  rw [lookup_canon hlength, habsent]

/-! ## Writing an entry of the map -/

theorem insert_canon_entry {depth : Nat} {f : Nibbles → Option Bytes} (h : Supported depth f)
    (hdepth : depth ≤ 64) {nibbles : Nibbles} {value : Bytes} (hlength : nibbles.length = depth)
    (hvalue : value.length < 2 ^ 63) (hentry : f nibbles = none ∨ f nibbles = some value) :
    (canon depth f).insert nibbles value =
      canon depth (Function.update f nibbles (some value)) := by
  rcases hentry with hnew | hsame
  · exact insert_canon_new h hdepth hlength hvalue hnew
  · apply (insert_canon_iff h hlength hvalue (by simp [hsame])).mpr
    -- the map stays what it is, so no node on the path gets shorter
    intro path _ _ _ hlong
    rwa [← hsame, Function.update_eq_self]

end Tree

section

variable [Keccak256] {strings : Set Bytes} {nodes nodes' : Table B256 Bytes} {root : B256}
  {f target : Nibbles → Option Bytes} {trie : EthTrie} {batch : BatchWriter}

/-- Every entry is one of the target's. -/
def Within (f target : Nibbles → Option Bytes) : Prop :=
  ∀ nibbles, f nibbles = none ∨ f nibbles = target nibbles

/-- The entry of one key is brought to what the target has there. -/
def settle (f target : Nibbles → Option Bytes) (key : B256) : Nibbles → Option Bytes :=
  Function.update f (unpack key) (target (unpack key))

omit [Keccak256] in
theorem Within.none (target : Nibbles → Option Bytes) : Within (fun _ => none) target :=
  fun _ => .inl rfl

omit [Keccak256] in
theorem Within.refl (target : Nibbles → Option Bytes) : Within target target := fun _ => .inr rfl

omit [Keccak256] in
theorem Within.settle (h : Within f target) (key : B256) :
    Within (settle f target key) target := by
  intro nibbles
  by_cases heq : nibbles = unpack key
  · subst heq
    exact .inr (Function.update_self ..)
  · simpa [Storage.settle, heq] using h nibbles

omit [Keccak256] in
theorem Within.supported (h : Within f target) (htarget : Tree.Supported 64 target) :
    Tree.Supported 64 f := by
  have hentry : ∀ nibbles value, f nibbles = some value → target nibbles = some value := by
    intro nibbles value hvalue
    rcases h nibbles with hnone | hsame
    · rw [hnone] at hvalue
      cases hvalue
    · rwa [← hsame]
  constructor
  · intro nibbles value hvalue
    exact htarget.length_eq _ _ (hentry _ _ hvalue)
  · intro nibbles value hvalue
    exact htarget.fits _ _ (hentry _ _ hvalue)

/-! ## Canonical tries in the table -/

/-- The canonical trie of a map is in the table below this root. -/
def CanonAt (nodes : Table B256 Bytes) (root : B256) (f : Nibbles → Option Bytes) : Prop :=
  root = (Tree.canon 64 f).hash ∧ ∀ data ∈ Tree.heldBy true (Tree.canon 64 f),
    data = [emptyStringCode] ∨ nodes.get (keccak256 data) = some data

/-- The canonical trie of a map is open over a table. -/
def CanonOpened (strings : Set Bytes) (nodes : Table B256 Bytes) (f : Nibbles → Option Bytes)
    (trie : EthTrie) : Prop :=
  Holds nodes strings False (Tree.heldBy true (Tree.canon 64 f)) (Tree.canon 64 f)
    { trie with state := nodes }

theorem CanonAt.mono (h : CanonAt nodes root f) (hgrows : Grows nodes nodes') :
    CanonAt nodes' root f :=
  ⟨h.1, fun data hdata => (h.2 data hdata).imp_right (hgrows _ _)⟩

theorem CanonAt.empty (nodes : Table B256 Bytes) : CanonAt nodes emptyRootHash fun _ => none := by
  unfold CanonAt
  rw [Tree.canon_none]
  refine ⟨rfl, fun data hdata => ?_⟩
  rcases hdata with hdata | ⟨-, rfl⟩
  · simp [Tree.held] at hdata
  · exact .inl rfl

theorem CanonAt.trieAt (h : CanonAt nodes root f) (hf : Tree.Supported 64 f) :
    TrieAt nodes root fun key => f (unpack key) :=
  ⟨Tree.canon 64 f, h.1, Tree.regular_canon hf, h.2,
    fun key => Tree.lookup_canon (length_unpack key)⟩

theorem CanonAt.opened (hstrings : CollisionFree strings) (hkeyed : Keyed strings nodes)
    (h : CanonAt nodes root f) (hf : Tree.Supported 64 f) :
    CanonOpened strings nodes f (EthTrie.new ∅ root) := by
  obtain ⟨rfl, hheld⟩ := h
  refine ⟨Tree.regular_canon hf, subset_rfl, ?_⟩
  refine ⟨by simp [EthTrie.new], by simp [EthTrie.new], rfl, rfl, hkeyed, fun data hdata => ?_⟩
  rcases hheld data hdata with rfl | hget
  · exact ⟨hstrings.empty_mem, .inl rfl⟩
  · exact ⟨(hkeyed _ _ hget).1, .inr (.inr (by simp [hget]))⟩

/-- An open trie does not mind what else is added to the table. -/
theorem CanonOpened.mono (h : CanonOpened strings nodes f trie) (hgrows : Grows nodes nodes')
    (hkeyed : Keyed strings nodes') : CanonOpened strings nodes' f trie := by
  obtain ⟨hregular, hheld, hcoherent⟩ := h
  refine ⟨hregular, hheld, hcoherent.cache, hcoherent.dirty, rfl, hcoherent.root_eq, hkeyed, ?_⟩
  intro data hdata
  obtain ⟨hmem, hfound⟩ := hcoherent.found data hdata
  refine ⟨hmem, hfound.imp_right fun hfound => hfound.imp_right fun hstate => ?_⟩
  obtain ⟨data', hget⟩ := Option.isSome_iff_exists.mp hstate
  have hget' : nodes'.get (keccak256 data) = some data' := hgrows _ _ hget
  simp [hget']

theorem CanonOpened.root_eq (h : CanonOpened strings nodes f trie) :
    trie.rootHash = (Tree.canon 64 f).hash := by
  unfold CanonOpened at h
  exact h.root

theorem CanonOpened.commit (hstrings : CollisionFree strings)
    (h : CanonOpened strings nodes f trie) :
    Keyed strings (committedNodes trie nodes) ∧ Grows nodes (committedNodes trie nodes) ∧
      CanonAt (committedNodes trie nodes) trie.rootHash f := by
  have hopened : Opened strings nodes (fun key => (Tree.canon 64 f).lookup (unpack key)) trie :=
    ⟨Tree.canon 64 f, h, fun _ => rfl⟩
  obtain ⟨hkeyed, hgrows, -⟩ := hopened.commit hstrings
  exact ⟨hkeyed, hgrows, h.root_eq, fun data hdata => h.coherent.get_commit hstrings hdata⟩

/-! ## Operations towards a map -/

theorem insert_canonOpened (hstrings : CollisionFree strings) (hwithin : Within f target)
    (htarget : Tree.Supported 64 target)
    (hopened : CanonOpened strings batch.tables.trieNodes f trie) (key : B256) {value : Bytes}
    (hvalue : target (unpack key) = some value) :
    Triple (· ∈ strings) (· = batch) (withTrie trie (EthTrie.insert key value))
      fun found batch' => CanonOpened strings batch.tables.trieNodes (settle f target key) found.2 ∧
        batch' = batch := by
  have hfits := htarget.fits _ _ hvalue
  have hentry : f (unpack key) = none ∨ f (unpack key) = some value :=
    hvalue ▸ hwithin (unpack key)
  apply (withTrie_spec hopened (insert_spec hstrings key hfits False.elim)).weaken
  rintro found batch' ⟨hholds, hbatch⟩
  refine ⟨?_, hbatch⟩
  rw [Tree.insert_canon_entry (hwithin.supported htarget) le_rfl (length_unpack key) hfits hentry,
    ← hvalue] at hholds
  unfold CanonOpened settle
  rw [state_eq_of_holds hholds]
  exact hholds.mono subset_rfl Set.subset_union_left id

theorem delete_canonOpened (hstrings : CollisionFree strings) (hwithin : Within f target)
    (hopened : CanonOpened strings batch.tables.trieNodes f trie) (key : B256)
    (habsent : target (unpack key) = none) :
    Triple (· ∈ strings) (· = batch) (withTrie trie (EthTrie.delete key))
      fun found batch' => CanonOpened strings batch.tables.trieNodes (settle f target key) found.2 ∧
        batch' = batch := by
  have hnone : f (unpack key) = none := by simpa [habsent] using hwithin (unpack key)
  have hsettle : settle f target key = f := by
    rw [settle, habsent, ← hnone, Function.update_eq_self]
  apply (withTrie_spec hopened (delete_spec hstrings key)).weaken
  rintro found batch' ⟨⟨counted, -, hholds⟩, hbatch⟩
  refine ⟨?_, hbatch⟩
  rw [Tree.delete_canon_absent counted (length_unpack key) hnone] at hholds
  rw [hsettle]
  unfold CanonOpened
  rw [state_eq_of_holds hholds]
  exact hholds.mono subset_rfl Set.subset_union_left False.elim

/-! ## Writing many entries -/

/-- The entries of these keys are brought to what the target has there. -/
def settleAll (f target : Nibbles → Option Bytes) (keys : List B256) : Nibbles → Option Bytes :=
  keys.foldl (fun f key => settle f target key) f

omit [Keccak256] in
theorem Within.settleAll (h : Within f target) (keys : List B256) :
    Within (settleAll f target keys) target := by
  induction keys generalizing f with
  | nil => exact h
  | cons key keys ih => exact ih (h.settle key)

omit [Keccak256] in
/-- Once all keys of the target are written, the target is reached. -/
theorem settleAll_eq (hwithin : Within f target) {keys : List B256}
    (hkeys : ∀ nibbles, target nibbles ≠ none → ∃ key ∈ keys, nibbles = unpack key) :
    settleAll f target keys = target := by
  have hwritten : ∀ nibbles, (∃ key ∈ keys, nibbles = unpack key) ∨ f nibbles = target nibbles →
      settleAll f target keys nibbles = target nibbles := by
    clear hkeys hwithin
    intro nibbles hcovered
    induction keys generalizing f with
    | nil => simpa [settleAll] using hcovered
    | cons key keys ih =>
        apply ih (f := settle f target key)
        by_cases heq : nibbles = unpack key
        · right
          rw [heq, settle, Function.update_self]
        · simpa [settle, heq] using hcovered
  funext nibbles
  apply hwritten
  cases htarget : target nibbles with
  | none => exact .inr (by simpa [htarget] using hwithin nibbles)
  | some value => exact .inl (hkeys nibbles (by simp [htarget]))

end

end WasixEth.Storage
