import WasixEth.Storage.StoredTrie
import WasixEth.Storage.TreeEntries

/-! # Iterating over a stored trie

The read provider goes through a stored trie with a stack of references and collects the
entries of the leaves. What cannot be read is skipped. Below a root that was committed nothing
has to be skipped, and a trie that is built again from the entries has the same root.
-/

namespace WasixEth.Storage

open Routine YellowPaper

/-! ## The loop -/

inductive NodeSource where
  | hash (hash : B256)
  | raw (raw : Bytes)

/-- A node on the stack, and the path that leads to it. -/
abbrev Pending := NodeSource × Nibbles

def NodeSource.data (nodes : Table B256 Bytes) : NodeSource → Option Bytes
  | .hash word => nodes.get word
  | .raw bytes => some bytes

/-- A child goes on the stack unless its reference is empty. -/
def pushChild (child : RlpNode) (path : Nibbles) (stack : List Pending) : List Pending :=
  match child.asHash with
  | some hash => (.hash hash, path) :: stack
  | none => if child.isEmpty then stack else (.raw child.bytes, path) :: stack

/-- The last slot goes on the stack first. -/
def pushSlots (branch : MyBranchNode) (path : Nibbles) (stack : List Pending) : List Pending :=
  (List.finRange 16).reverse.foldl
    (fun stack i => pushChild (branch.stack i) (path ++ [i]) stack) stack

def visitNode (node : MyTrieNode) (path : Nibbles) (stack : List Pending)
    (leaves : List (B256 × Bytes)) : Except TrieError (List Pending × List (B256 × Bytes)) :=
  match node with
  | .branch branch =>
      let stack := pushSlots branch path stack
      match branch.value with
      | some value => return (stack, leaves ++ entryAt path value)
      | none => return (stack, leaves)
  | .leaf leaf => do
      let fullKey ← extend path leaf.key
      return (stack, leaves ++ entryAt fullKey leaf.value)
  | .extension ext => do
      let nextPath ← extend path ext.key
      return (pushChild ext.child nextPath stack, leaves)
  | .emptyRoot => return (stack, leaves)

/-- The loop, for so many rounds. -/
def drainStack (nodes : Table B256 Bytes) :
    Nat → List Pending → List (B256 × Bytes) → Except TrieError (List (B256 × Bytes))
  | _, [], leaves => .ok leaves
  | 0, _ :: _, _ => .error .outOfFuel
  | fuel + 1, (source, path) :: stack, leaves =>
      match source.data nodes with
      | none => drainStack nodes fuel stack leaves
      | some data =>
          match MyTrieNode.decode data with
          | .error _ => drainStack nodes fuel stack leaves
          | .ok node => do
              let (stack, leaves) ← visitNode node path stack leaves
              drainStack nodes fuel stack leaves

/-- The hash map the accounts are collected in: a later entry replaces an earlier one. -/
def collectAccounts (leaves : List (B256 × Bytes)) : List (B256 × Bytes) :=
  leaves.foldl (fun accounts leaf => leaf :: accounts.filter (·.1 ≠ leaf.1)) []

def sortByKey (accounts : List (B256 × Bytes)) : List (B256 × Bytes) :=
  accounts.insertionSort fun a b => a.1.bytes ≤ b.1.bytes

section

variable [Keccak256]

def iterateTrie (nodes : Table B256 Bytes) (fuel : Nat) (root : B256) :
    Except TrieError (List (B256 × Bytes)) :=
  if root = emptyRootHash then .ok [] else drainStack nodes fuel [(.hash root, [])] []

/-- `calculate_state_root` from a historical root. -/
def calculateStateRoot (nodes : Table B256 Bytes) (fuel : Nat) (root : B256) :
    Except TrieError B256 := do
  let leaves ← iterateTrie nodes fuel root
  calculateTrieRoot (sortByKey (collectAccounts leaves))

/-! ## What is on the stack -/

/-- A pending node together with the tree that it stands for. -/
structure Placed (nodes : Table B256 Bytes) where
  source : NodeSource
  path : Nibbles
  tree : Tree
  depth : Nat
  reads : ∃ data, source.data nodes = some data ∧ MyTrieNode.decode data = .ok tree.node
  regular : tree.Regular depth
  length_le : path.length + depth ≤ 64
  stored : tree.StoredIn nodes

namespace Placed

variable {nodes : Table B256 Bytes}

def pending (placed : Placed nodes) : Pending := (placed.source, placed.path)

def entries (placed : Placed nodes) : List (B256 × Bytes) :=
  packAll placed.path placed.tree.entries

end Placed

/-- How many rounds the loop takes for a tree. -/
def Tree.rounds : Tree → Nat
  | .empty => 1
  | .leaf _ _ => 1
  | .extension _ _ child => child.rounds + 1
  | .branch _ child => ((List.finRange 16).map fun i => (child i).rounds).sum + 1

/-- The nodes on the stack, their entries and the rounds they take. -/
structure Stacked (nodes : Table B256 Bytes) (stack : List Pending)
    (entries : List (B256 × Bytes)) (rounds : Nat) : Prop where
  exists_placed : ∃ placed : List (Placed nodes), stack = placed.map Placed.pending ∧
    entries = placed.flatMap Placed.entries ∧
    (placed.map fun placed => placed.tree.rounds).sum ≤ rounds

theorem Stacked.nil (nodes : Table B256 Bytes) (rounds : Nat) : Stacked nodes [] [] rounds :=
  ⟨[], rfl, rfl, Nat.zero_le _⟩

theorem Stacked.append {nodes : Table B256 Bytes} {stack stack' : List Pending}
    {entries entries' : List (B256 × Bytes)} {rounds rounds' : Nat}
    (h : Stacked nodes stack entries rounds) (h' : Stacked nodes stack' entries' rounds') :
    Stacked nodes (stack ++ stack') (entries ++ entries') (rounds + rounds') := by
  obtain ⟨placed, rfl, rfl, hrounds⟩ := h
  obtain ⟨placed', rfl, rfl, hrounds'⟩ := h'
  refine ⟨placed ++ placed', by simp, by simp, ?_⟩
  rw [List.map_append, List.sum_append]
  exact Nat.add_le_add hrounds hrounds'

omit [Keccak256] in
theorem pushChild_eq (child : RlpNode) (path : Nibbles) (stack : List Pending) :
    pushChild child path stack = pushChild child path [] ++ stack := by
  unfold pushChild
  split
  · rfl
  · split <;> rfl

omit [Keccak256] in
theorem pushSlots_eq (branch : MyBranchNode) (path : Nibbles) (stack : List Pending) :
    pushSlots branch path stack =
      ((List.finRange 16).flatMap fun i => pushChild (branch.stack i) (path ++ [i]) []) ++
        stack := by
  unfold pushSlots
  rw [List.foldl_reverse]
  induction List.finRange 16 with
  | nil => rfl
  | cons i rest ih => rw [List.foldr_cons, ih, pushChild_eq, List.flatMap_cons, List.append_assoc]

variable {nodes : Table B256 Bytes}

theorem stacked_one (placed : Placed nodes) :
    Stacked nodes [placed.pending] placed.entries placed.tree.rounds :=
  ⟨[placed], rfl, (List.flatMap_singleton _ _).symm, by simp⟩

/-- A reference to a child goes on the stack as the child itself. -/
theorem stacked_pushChild {rlp : RlpNode} {hashed : Bool} {child : Tree} {depth : Nat}
    {path : Nibbles} (hdenotes : Tree.Denotes rlp hashed child) (hflag : Tree.FlagOk hashed child)
    (hregular : child.Regular depth) (hlength : path.length + depth ≤ 64)
    (hstored : ∀ data ∈ Tree.heldBy hashed child,
      data = [emptyStringCode] ∨ nodes.get (keccak256 data) = some data) :
    Stacked nodes (pushChild rlp path []) (packAll path child.entries) child.rounds := by
  have hbelow : child.StoredIn nodes := fun data hdata =>
    hstored data (Tree.held_subset_heldBy hashed child hdata)
  unfold pushChild
  rcases reference_cases hdenotes hflag hregular (by omega) hstored with
    ⟨hhash, hdata⟩ | ⟨hhash, hempty, hdecode⟩
  · rw [hhash]
    exact stacked_one ⟨.hash child.hash, path, child, depth,
      ⟨_, hdata, Tree.decode_tree_encode hregular (by omega)⟩, hregular, hlength, hbelow⟩
  · rw [hhash]
    dsimp only
    split
    next hnil =>
      rw [hempty hnil]
      exact Stacked.nil nodes _
    next hne =>
      exact stacked_one ⟨.raw rlp.bytes, path, child, depth,
        ⟨_, rfl, hdecode (by simpa using hne)⟩, hregular, hlength, hbelow⟩

/-- The slots of a branch go on the stack in their order. -/
theorem stacked_pushSlots {branch : MyBranchNode} {hashed : Nibble → Bool} {child : Nibble → Tree}
    {depth : Nat} {path : Nibbles}
    (hdenotes : ∀ i, Tree.Denotes (branch.stack i) (hashed i) (child i))
    (hflag : ∀ i, Tree.FlagOk (hashed i) (child i)) (hregular : ∀ i, (child i).Regular depth)
    (hlength : path.length + (depth + 1) ≤ 64)
    (hstored : (Tree.branch hashed child).StoredIn nodes) :
    Stacked nodes (pushSlots branch path []) (packAll path (Tree.branch hashed child).entries)
      ((List.finRange 16).map fun i => (child i).rounds).sum := by
  have hslot : ∀ i, Stacked nodes (pushChild (branch.stack i) (path ++ [i]) [])
      (packAll (path ++ [i]) (child i).entries) (child i).rounds := by
    intro i
    refine stacked_pushChild (hdenotes i) (hflag i) (hregular i) ?_ fun data hdata =>
      hstored data (Tree.heldBy_subset_branch hashed child i hdata)
    rw [List.length_append, List.length_singleton]
    omega
  have hentries : packAll path (Tree.branch hashed child).entries =
      (List.finRange 16).flatMap fun i => packAll (path ++ [i]) (child i).entries := by
    rw [Tree.entries, packAll_flatMap]
    exact congrArg (List.flatMap · _) (funext fun i => packAll_map path [i] _)
  rw [pushSlots_eq, List.append_nil, hentries]
  induction List.finRange 16 with
  | nil => exact Stacked.nil nodes _
  | cons i rest ih =>
      rw [List.flatMap_cons, List.flatMap_cons, List.map_cons, List.sum_cons]
      exact (hslot i).append ih

/-! ## The loop drains the stack -/

/-- A visit takes the entry of a node, or replaces the node by its children. -/
theorem visitNode_spec (placed : Placed nodes) (stack : List Pending)
    (leaves : List (B256 × Bytes)) : ∃ below found entries rounds,
      visitNode placed.tree.node placed.path stack leaves = .ok (below ++ stack, leaves ++ found) ∧
      Stacked nodes below entries rounds ∧ placed.entries = found ++ entries ∧
      placed.tree.rounds = rounds + 1 := by
  obtain ⟨source, path, tree, depth, -, hregular, hlength, hstored⟩ := placed
  unfold Placed.entries
  dsimp only
  cases hregular with
  | empty =>
      refine ⟨[], [], [], 0, ?_, Stacked.nil nodes 0, rfl, rfl⟩
      rw [List.append_nil]
      rfl
  | @leaf _ key value hkey =>
      refine ⟨[], entryAt (path ++ key) value, [], 0, ?_, Stacked.nil nodes 0, ?_, rfl⟩
      · unfold Tree.node visitNode
        dsimp only
        rw [extend_of_le (by omega)]
        rfl
      · rw [List.append_nil]
        exact List.flatMap_singleton _ _
  | @extension depth key hashed child hkey hflag hchild =>
      refine ⟨pushChild (refOf hashed child.node) (path ++ key) [], [],
        packAll (path ++ key) child.entries, child.rounds, ?_, ?_, ?_, rfl⟩
      · change (extend path key >>= fun nextPath =>
          pure (pushChild (refOf hashed child.node) nextPath stack, leaves)) = _
        rw [extend_of_le (by omega), List.append_nil, ← pushChild_eq]
        rfl
      · exact stacked_pushChild (Tree.denotes_refOf hashed child) hflag hchild
          (by rw [List.length_append]; omega) hstored
      · exact packAll_map path key child.entries
  | @branch depth hashed child hflag hchild =>
      refine ⟨pushSlots ⟨fun i => (refOf (hashed i) (child i).node).reread, none⟩ path [], [],
        packAll path (Tree.branch hashed child).entries, _, ?_, ?_, rfl, rfl⟩
      · rw [List.append_nil, pushSlots_eq _ _ [], List.append_nil, ← pushSlots_eq]
        rfl
      · refine stacked_pushSlots (fun i => ?_) hflag hchild (by omega) hstored
        unfold Tree.Denotes
        exact reread_reread _

omit [Keccak256] in
theorem drainStack_visit {source : NodeSource} {path : Nibbles} {stack stack' : List Pending}
    {leaves leaves' : List (B256 × Bytes)} {data : Bytes} {node : MyTrieNode} (fuel : Nat)
    (hdata : source.data nodes = some data) (hdecode : MyTrieNode.decode data = .ok node)
    (hvisit : visitNode node path stack leaves = .ok (stack', leaves')) :
    drainStack nodes (fuel + 1) ((source, path) :: stack) leaves =
      drainStack nodes fuel stack' leaves' := by
  conv_lhs => unfold drainStack
  rw [hdata]
  dsimp only
  rw [hdecode]
  dsimp only
  rw [hvisit]
  rfl

/-- The loop collects what is on the stack, in as many rounds as that takes. -/
theorem drainStack_eq {stack : List Pending} {entries : List (B256 × Bytes)} {rounds fuel : Nat}
    (hstacked : Stacked nodes stack entries rounds) (hfuel : rounds ≤ fuel)
    (leaves : List (B256 × Bytes)) :
    drainStack nodes fuel stack leaves = .ok (leaves ++ entries) := by
  induction fuel generalizing stack entries rounds leaves with
  | zero =>
      obtain ⟨placed, rfl, rfl, hrounds⟩ := hstacked
      cases placed with
      | nil => simp [drainStack]
      | cons placed rest =>
          obtain ⟨-, -, -, rounds', -, -, -, hvisit⟩ := visitNode_spec placed [] []
          rw [List.map_cons, List.sum_cons] at hrounds
          omega
  | succ fuel ih =>
      obtain ⟨placed, rfl, rfl, hrounds⟩ := hstacked
      cases placed with
      | nil => simp [drainStack]
      | cons placed rest =>
          obtain ⟨data, hdata, hdecode⟩ := placed.reads
          obtain ⟨below, found, entries, rounds', hvisit, hbelow, hentries, hplaced⟩ :=
            visitNode_spec placed (rest.map Placed.pending) leaves
          rw [List.map_cons, List.sum_cons] at hrounds
          have hrest : Stacked nodes (rest.map Placed.pending) (rest.flatMap Placed.entries) _ :=
            ⟨rest, rfl, rfl, le_rfl⟩
          rw [List.map_cons, List.flatMap_cons, hentries, List.append_assoc,
            ← List.append_assoc leaves, ← ih (hbelow.append hrest) (by omega)]
          exact drainStack_visit fuel hdata hdecode hvisit

/-! ## Committed tries -/

/-- The trie below a root is iterated over in its order, however many rounds are left. -/
theorem iterateTrie_eq {tree : Tree} (htree : tree.Regular 64)
    (hstored : ∀ data ∈ Tree.heldBy true tree,
      data = [emptyStringCode] ∨ nodes.get (keccak256 data) = some data)
    (hempty : tree.hash = emptyRootHash → tree = .empty) {fuel : Nat} (hfuel : tree.rounds ≤ fuel) :
    iterateTrie nodes fuel tree.hash = .ok (packAll [] tree.entries) := by
  unfold iterateTrie
  split
  next hroot =>
    rw [hempty hroot]
    rfl
  next hroot =>
    have hne : tree ≠ .empty := fun h => hroot (congrArg Tree.hash h)
    have hdata : nodes.get tree.hash = some tree.encode :=
      (hstored _ (Tree.encode_mem_heldBy tree)).resolve_left fun hcode =>
        hne (Tree.eq_empty_of_encode htree le_rfl hcode)
    have hbelow : tree.StoredIn nodes := fun data hdata =>
      hstored data (Tree.held_subset_heldBy true tree hdata)
    have hstacked := stacked_one ⟨.hash tree.hash, [], tree, 64,
      ⟨_, hdata, Tree.decode_tree_encode htree le_rfl⟩, htree, by simp, hbelow⟩
    exact drainStack_eq hstacked hfuel []

/-- The store once the trie that is built from these leaves is committed. -/
def committedStore (store : Table B256 Bytes) (leaves : List (B256 × Bytes)) : Table B256 Bytes :=
  (insertAll leaves (EthTrie.new store emptyRootHash)).state.commit.state

def committedRoot (store : Table B256 Bytes) (leaves : List (B256 × Bytes)) : B256 :=
  (insertAll leaves (EthTrie.new store emptyRootHash)).state.commit.rootHash

variable {store : Table B256 Bytes}

theorem committed_spec (hstore : HashKeyed store) {leaves : List (B256 × Bytes)}
    (hnodup : (leaves.map Prod.fst).Nodup) (hfit : ValuesFit leaves)
    (hfree : Set.InjOn keccak256 (runStrings store
      (insertAll leaves (EthTrie.new store emptyRootHash)).log)) :
    committedRoot store leaves = (Tree.canon 64 (contentsOf leaves)).hash ∧
      (∀ data ∈ Tree.heldBy true (Tree.canon 64 (contentsOf leaves)), data = [emptyStringCode] ∨
        (committedStore store leaves).get (keccak256 data) = some data) ∧
      ((Tree.canon 64 (contentsOf leaves)).hash = emptyRootHash →
        Tree.canon 64 (contentsOf leaves) = .empty) := by
  have hstrings := collisionFree_runStrings hfree
  obtain ⟨_, -, hholds⟩ := insertAll_new hstrings
    (fun hash data hget => ⟨.inr (.inr ⟨hash, hget⟩), hstore hash data hget⟩) hnodup hfit
    (EthTrie.new store emptyRootHash) rfl fun data hdata => .inr (.inl hdata)
  refine ⟨hholds.root, fun data hdata => hholds.coherent.get_commit hstrings hdata, ?_⟩
  have hmem := (hholds.coherent.found _ (Tree.encode_mem_heldBy _)).1
  exact (hash_eq_emptyRootHash hstrings hholds.regular le_rfl hmem).mp

/-! ## Building the trie again -/

omit [Keccak256] in
theorem collectAccounts_perm {leaves : List (B256 × Bytes)}
    (hnodup : (leaves.map Prod.fst).Nodup) : (collectAccounts leaves).Perm leaves := by
  unfold collectAccounts
  have hfold : ∀ (rest accounts : List (B256 × Bytes)),
      ((accounts ++ rest).map Prod.fst).Nodup →
      (rest.foldl (fun accounts leaf => leaf :: accounts.filter (·.1 ≠ leaf.1)) accounts).Perm
        (accounts ++ rest) := by
    intro rest
    induction rest with
    | nil => simp
    | cons leaf rest ih =>
        intro accounts hnodup
        have hfilter : accounts.filter (·.1 ≠ leaf.1) = accounts := by
          apply List.filter_eq_self.mpr
          intro other hother
          rw [List.map_append, List.nodup_append] at hnodup
          exact decide_eq_true (hnodup.2.2 _ (List.mem_map_of_mem hother) _ (by simp))
        have hmoved : (accounts ++ leaf :: rest).Perm (leaf :: accounts ++ rest) :=
          List.perm_middle
        rw [List.foldl_cons, hfilter]
        exact (ih _ ((hmoved.map Prod.fst).nodup_iff.mp hnodup)).trans hmoved.symm
  exact hfold leaves [] hnodup

omit [Keccak256] in
/-- Sorting by keys that occur once undoes every rearrangement. -/
theorem sortByKey_perm {leaves leaves' : List (B256 × Bytes)}
    (hnodup : (leaves.map Prod.fst).Nodup) (hperm : leaves'.Perm leaves) :
    sortByKey leaves' = sortByKey leaves := by
  have hsorted : ∀ l : List (B256 × Bytes),
      (sortByKey l).Pairwise fun a b => a.1.bytes ≤ b.1.bytes := fun l =>
    List.pairwise_insertionSort (fun a b : B256 × Bytes => a.1.bytes ≤ b.1.bytes) l
  have hsame : (sortByKey leaves').Perm (sortByKey leaves) :=
    ((List.perm_insertionSort _ _).trans hperm).trans (List.perm_insertionSort _ _).symm
  refine hsame.eq_of_pairwise ?_ (hsorted leaves') (hsorted leaves)
  intro a b ha hb hab hba
  have hmem : ∀ c ∈ sortByKey leaves, c ∈ leaves := fun c hc =>
    (List.perm_insertionSort _ _).mem_iff.mp hc
  have hkey : a.1 = b.1 := B256.ext (List.le_antisymm hab hba)
  exact List.inj_on_of_nodup_map hnodup (hmem a (hsame.mem_iff.mp ha)) (hmem b hb) hkey

/-- A committed trie is read back as it was written, in so many rounds that the loop ends, and
the trie that is built from what was read has the same root. -/
theorem iterateTrie_committed (hstore : HashKeyed store) (leaves : List (B256 × Bytes))
    (hnodup : (leaves.map Prod.fst).Nodup) (hfit : ValuesFit leaves)
    (hfree : Set.InjOn keccak256 (runStrings store
      (insertAll leaves (EthTrie.new store emptyRootHash)).log))
    (hrebuild : Set.InjOn keccak256
      (runStrings ∅ (insertAll (sortByKey leaves) emptyTrie).log)) :
    ∃ rounds, ∀ fuel, rounds ≤ fuel →
      (∃ found, iterateTrie (committedStore store leaves) fuel (committedRoot store leaves) =
        .ok found ∧ found.Perm leaves) ∧
      calculateStateRoot (committedStore store leaves) fuel (committedRoot store leaves) =
        .ok (committedRoot store leaves) := by
  obtain ⟨hroot, hstored, hempty⟩ := committed_spec hstore hnodup hfit hfree
  refine ⟨(Tree.canon 64 (contentsOf leaves)).rounds, fun fuel hfuel => ?_⟩
  have hregular := Tree.regular_canon (supported_contentsOf hfit)
  have hfound := iterateTrie_eq hregular hstored hempty hfuel
  have hperm := packAll_canon hnodup hfit
  rw [← hroot] at hfound
  refine ⟨⟨_, hfound, hperm⟩, ?_⟩
  have hcollected := (collectAccounts_perm ((hperm.map Prod.fst).nodup_iff.mpr hnodup)).trans hperm
  have hsorted : (sortByKey leaves).Perm leaves := List.perm_insertionSort _ _
  have hnodup' := (hsorted.map Prod.fst).nodup_iff.mpr hnodup
  have hfit' : ValuesFit (sortByKey leaves) := fun leaf hleaf =>
    hfit leaf (hsorted.mem_iff.mp hleaf)
  calc calculateStateRoot (committedStore store leaves) fuel (committedRoot store leaves)
      = calculateTrieRoot (sortByKey leaves) := by
        rw [calculateStateRoot, hfound]
        exact congrArg calculateTrieRoot (sortByKey_perm hnodup hcollected)
    _ = .ok (trie (sortByKey leaves)) := calculateTrieRoot_eq hnodup' hfit' hrebuild
    _ = .ok (committedRoot store leaves) := by
        rw [trie_eq hnodup' hfit', contentsOf_perm hnodup hsorted.symm, hroot]

end

section Keccak

attribute [local instance] keccak

theorem iterateTrie_committed_sharedNibbleLeaves : ∃ rounds, ∀ fuel, rounds ≤ fuel →
    (∃ found, iterateTrie (committedStore ∅ sharedNibbleLeaves) fuel
      (committedRoot ∅ sharedNibbleLeaves) = .ok found ∧ found.Perm sharedNibbleLeaves) ∧
    calculateStateRoot (committedStore ∅ sharedNibbleLeaves) fuel
      (committedRoot ∅ sharedNibbleLeaves) = .ok (committedRoot ∅ sharedNibbleLeaves) :=
  iterateTrie_committed (by simp [HashKeyed]) sharedNibbleLeaves (by decide)
    (by simp [ValuesFit, sharedNibbleLeaves]) (injOn_runStrings_empty (by decide +kernel))
    (injOn_runStrings_empty (by decide +kernel))

end Keccak

end WasixEth.Storage
