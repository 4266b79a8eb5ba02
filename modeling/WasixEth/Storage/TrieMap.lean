import WasixEth.Storage.TrieOperations

/-! # The trie as a finite map

A session is a trie over a store, used through its public operations. It may
be committed and re-opened from the store, which falls back to the root of the
last commit. Whatever shapes earlier deletions left behind, the trie answers
like the map written by the operations.
-/

namespace WasixEth.Storage

open Routine

/-- One use of a trie. -/
inductive TrieOp where
  | get (key : B256)
  | insert (key : B256) (value : Bytes)
  | delete (key : B256)
  | commit
  | reopen

/-- An open trie and the root it was last committed at. -/
structure TrieSession where
  trie : EthTrie
  committedRoot : B256

/-- The contents a session shows, and those it would show when re-opened. -/
structure MapSession where
  current : B256 → Option Bytes
  committed : B256 → Option Bytes

def MapSession.empty : MapSession := ⟨fun _ => none, fun _ => none⟩

def MapSession.step (m : MapSession) : TrieOp → MapSession
  | .get _ => m
  | .insert key value => { m with current := Function.update m.current key (some value) }
  | .delete key => { m with current := Function.update m.current key none }
  | .commit => { m with committed := m.current }
  | .reopen => { m with current := m.committed }

def MapSession.run (m : MapSession) (ops : List TrieOp) : MapSession :=
  ops.foldl MapSession.step m

section

variable [Keccak256]

namespace TrieSession

/-- Open a store at the empty root. -/
def start (store : Table B256 Bytes) : TrieSession :=
  ⟨EthTrie.new store emptyRootHash, emptyRootHash⟩

abbrev SessionM := Routine TrieSession Bytes TrieError

def onTrie {α : Type} (m : TrieM α) : SessionM α := fun s =>
  let outcome := m s.trie
  ⟨outcome.result, { s with trie := outcome.state }, outcome.log⟩

def perform : TrieOp → SessionM Unit
  | .get key => onTrie (do let _ ← EthTrie.get key; return ())
  | .insert key value => onTrie (EthTrie.insert key value)
  | .delete key => onTrie (EthTrie.delete key)
  | .commit => modify fun s => ⟨s.trie.commit, s.trie.rootHash⟩
  | .reopen => modify fun s => ⟨EthTrie.new s.trie.state s.committedRoot, s.committedRoot⟩

def performAll : List TrieOp → SessionM Unit
  | [] => return ()
  | op :: ops => do
      perform op
      performAll ops

/-- Perform operations, then read one key. -/
def readAfter (ops : List TrieOp) (key : B256) : SessionM (Option Bytes) := do
  performAll ops
  onTrie (EthTrie.get key)

end TrieSession

open TrieSession

variable {strings : Set Bytes}

/-- The session stands for the two maps: each has a tree, and everything below
the committed one is in the store. -/
def Represents (strings : Set Bytes) (m : MapSession) (s : TrieSession) : Prop :=
  ∃ tree committed : Tree,
    Holds s.trie.state strings False (Tree.heldBy true tree) tree s.trie ∧
    (∀ key, tree.lookup (unpack key) = m.current key) ∧
    s.committedRoot = committed.hash ∧ committed.Regular 64 ∧
    (∀ data ∈ Tree.heldBy true committed, data ∈ strings ∧
      (data = [emptyStringCode] ∨ (s.trie.state.get (keccak256 data)).isSome)) ∧
    ∀ key, committed.lookup (unpack key) = m.committed key

omit [Keccak256] in
theorem lookup_insert_unpack {tree : Tree} (h : tree.Regular 64) (key : B256) (value : Bytes)
    (m : B256 → Option Bytes) (hm : ∀ key, tree.lookup (unpack key) = m key) (key' : B256) :
    (tree.insert (unpack key) value).lookup (unpack key') =
      Function.update m key (some value) key' := by
  rw [Tree.lookup_insert h value (length_unpack key) (length_unpack key'), hm]
  by_cases hkey : key' = key
  · subst hkey
    simp
  · have hne : unpack key ≠ unpack key' := fun h => hkey (unpack_injective h).symm
    simp [hkey, hne]

omit [Keccak256] in
theorem lookup_delete_unpack {tree : Tree} (h : tree.Regular 64) (counted : Nat → Bool)
    (key : B256) (m : B256 → Option Bytes) (hm : ∀ key, tree.lookup (unpack key) = m key)
    (key' : B256) :
    (tree.delete counted (unpack key)).lookup (unpack key') =
      Function.update m key none key' := by
  rw [Tree.lookup_delete h counted (length_unpack key) (length_unpack key'), hm]
  by_cases hkey : key' = key
  · subst hkey
    simp
  · have hne : unpack key ≠ unpack key' := fun h => hkey (unpack_injective h).symm
    simp [hkey, hne]

/-- A trie operation that keeps the store keeps what was committed. -/
theorem onTrie_represents {α : Type} {m : TrieM α} {contents : MapSession}
    (contents' : MapSession) (Q : α → Prop) (hcommitted : contents'.committed = contents.committed)
    (h : ∀ {store tree}, (∀ key, tree.lookup (unpack key) = contents.current key) →
      Triple (· ∈ strings) (Holds store strings False (Tree.heldBy true tree) tree) m
        fun a t => Q a ∧ ∃ tree', Holds store strings False (Tree.heldBy true tree') tree' t ∧
          ∀ key, tree'.lookup (unpack key) = contents'.current key) :
    Triple (· ∈ strings) (Represents strings contents) (onTrie m)
      fun a s => Q a ∧ Represents strings contents' s := by
  rintro s ⟨tree, committed, hholds, hcurrent, hroot, hregular, hstored, hcontents⟩ hlog
  obtain ⟨a, hresult, hQ, tree', hholds', hcurrent'⟩ := h hcurrent s.trie hholds hlog
  have hstore : (m s.trie).state.state = s.trie.state := hholds'.coherent.state_eq
  refine ⟨a, hresult, hQ, tree', committed, ?_, hcurrent', hroot, hregular, ?_, ?_⟩
  · rw [← hstore] at hholds'
    exact hholds'
  · rw [← hstore] at hstored
    exact hstored
  · rw [hcommitted]
    exact hcontents

theorem get_represents (hstrings : CollisionFree strings) (contents : MapSession) (key : B256) :
    Triple (· ∈ strings) (Represents strings contents) (onTrie (EthTrie.get key))
      fun value s => value = contents.current key ∧ Represents strings contents s := by
  refine onTrie_represents contents (· = contents.current key) rfl fun {store tree} hcurrent => ?_
  refine (get_spec hstrings key).weaken ?_
  rintro value t ⟨rfl, ht⟩
  exact ⟨hcurrent key, tree, ht, hcurrent⟩

/-- Values are `Vec<u8>`, whose length is bounded by the largest `isize`. -/
def TrieOp.Fits : TrieOp → Prop
  | .insert _ value => value.length < 2 ^ 63
  | _ => True

/-- Every operation carries the represented contents one step on. -/
theorem perform_represents (hstrings : CollisionFree strings) (contents : MapSession)
    {op : TrieOp} (hfits : op.Fits) :
    Triple (· ∈ strings) (Represents strings contents) (perform op)
      fun _ s => Represents strings (contents.step op) s := by
  have hlift : ∀ {m : TrieM Unit}, (contents.step op).committed = contents.committed →
      (∀ {store tree}, (∀ key, tree.lookup (unpack key) = contents.current key) →
        Triple (· ∈ strings) (Holds store strings False (Tree.heldBy true tree) tree) m
          fun _ t => ∃ tree', Holds store strings False (Tree.heldBy true tree') tree' t ∧
            ∀ key, tree'.lookup (unpack key) = (contents.step op).current key) →
      Triple (· ∈ strings) (Represents strings contents) (onTrie m)
        fun _ s => Represents strings (contents.step op) s := by
    intro m hcommitted h
    refine (onTrie_represents (contents.step op) (fun _ => True) hcommitted ?_).weaken
      fun _ s hs => hs.2
    exact fun hcurrent => (h hcurrent).weaken fun _ t ht => ⟨trivial, ht⟩
  cases op with
  | get key =>
      refine hlift rfl fun {store tree} hcurrent => ?_
      refine triple_bind (get_spec hstrings key) fun value => triple_of_pure_pre fun _ => ?_
      exact triple_pure fun t ht => ⟨tree, ht, hcurrent⟩
  | insert key value =>
      refine hlift rfl fun {store tree} hcurrent t ht hlog => ?_
      obtain ⟨a, hresult, ht'⟩ := insert_spec hstrings key hfits False.elim t ht hlog
      refine ⟨a, hresult, _, ht'.mono subset_rfl Set.subset_union_left id, ?_⟩
      exact lookup_insert_unpack ht.regular key value contents.current hcurrent
  | delete key =>
      refine hlift rfl fun {store tree} hcurrent t ht hlog => ?_
      obtain ⟨a, hresult, counted, -, ht'⟩ := delete_spec hstrings key t ht hlog
      refine ⟨a, hresult, _, ht'.mono subset_rfl Set.subset_union_left False.elim, ?_⟩
      exact lookup_delete_unpack ht.regular counted key contents.current hcurrent
  | commit =>
      refine triple_modify ?_
      rintro s ⟨tree, committed, hholds, hcurrent, -⟩
      have hcommit := hholds.coherent.commit
      refine ⟨tree, tree, ⟨hholds.regular, hholds.held, ?_⟩, hcurrent, hholds.root,
        hholds.regular, ?_, hcurrent⟩
      · exact ⟨hcommit.cache, hcommit.dirty, rfl, hholds.root, hcommit.state, hcommit.found⟩
      · intro data hdata
        refine (hcommit.found data hdata).imp_right fun hfound => hfound.imp_right ?_
        rintro (hdirty | hstate)
        · simp [EthTrie.commit] at hdirty
        · exact hstate
  | reopen =>
      refine triple_modify ?_
      rintro s ⟨tree, committed, hholds, -, hroot, hregular, hstored, hcommitted⟩
      refine ⟨committed, committed, ⟨hregular, subset_rfl, ?_⟩, hcommitted, hroot, hregular,
        hstored, hcommitted⟩
      rw [hroot]
      exact hholds.coherent.reopen hstored

theorem performAll_represents (hstrings : CollisionFree strings) (ops : List TrieOp)
    (hfits : ∀ op ∈ ops, op.Fits) (contents : MapSession) :
    Triple (· ∈ strings) (Represents strings contents) (performAll ops)
      fun _ s => Represents strings (contents.run ops) s := by
  induction ops generalizing contents with
  | nil => exact triple_pure fun s hs => hs
  | cons op ops ih =>
      refine triple_bind (perform_represents hstrings contents (hfits op (by simp))) fun _ => ?_
      exact ih (fun op' hop' => hfits op' (by simp [hop'])) (contents.step op)

theorem start_represents (hstrings : CollisionFree strings) {store : Table B256 Bytes}
    (hstore : ∀ hash data, store.get hash = some data → data ∈ strings ∧ keccak256 data = hash) :
    Represents strings MapSession.empty (start store) := by
  have hholds : Holds _ _ False _ _ _ := holds_new hstrings hstore
  have hempty : ∀ data ∈ Tree.heldBy true Tree.empty, data = [emptyStringCode] := by
    rintro data (hdata | ⟨-, rfl⟩)
    · simp [Tree.held] at hdata
    · rfl
  refine ⟨.empty, .empty, ?_, fun _ => rfl, rfl, .empty 64, ?_, fun _ => rfl⟩
  · exact hholds.mono subset_rfl hempty id
  · intro data hdata
    rw [hempty data hdata]
    exact ⟨hstrings.empty_mem, .inl rfl⟩

/-- Reading after any run of operations succeeds and returns what the map of
the run holds, provided no two strings of the run collide. -/
theorem readAfter_eq_map (store : Table B256 Bytes) (hstore : HashKeyed store)
    (ops : List TrieOp) (hfits : ∀ op ∈ ops, op.Fits) (key : B256)
    (hfree : Set.InjOn keccak256
      (runStrings store (readAfter ops key (start store)).log)) :
    (readAfter ops key (start store)).result = .ok ((MapSession.empty.run ops).current key) := by
  have hstrings := collisionFree_runStrings hfree
  have hrun : Triple (· ∈ runStrings store (readAfter ops key (start store)).log)
      (Represents _ MapSession.empty) (readAfter ops key)
      fun value s => value = (MapSession.empty.run ops).current key ∧ _ :=
    triple_bind (performAll_represents hstrings ops hfits MapSession.empty) fun _ =>
      get_represents hstrings _ key
  obtain ⟨value, hresult, rfl, -⟩ := hrun (start store)
    (start_represents hstrings fun hash data hget =>
      ⟨.inr (.inr ⟨hash, hget⟩), hstore hash data hget⟩)
    fun data hdata => .inr (.inl hdata)
  exact hresult

end

section Keccak

attribute [local instance] keccak

open TrieSession

/-- A run with a deletion that is lost when the store is re-opened. -/
def reopenedRun : List TrieOp :=
  [.insert (B256.leading 0x11) [1], .insert (B256.leading 0x12) [2], .commit,
    .delete (B256.leading 0x11), .reopen, .delete (B256.leading 0x12)]

theorem reopenedRun_reads :
    (readAfter reopenedRun (B256.leading 0x11) (start ∅)).result = .ok (some [1]) := by
  refine readAfter_eq_map ∅ (by simp [HashKeyed]) reopenedRun ?_ (B256.leading 0x11) ?_
  · simp [reopenedRun, TrieOp.Fits]
  · exact injOn_runStrings_empty (by decide +kernel)

end Keccak

end WasixEth.Storage
