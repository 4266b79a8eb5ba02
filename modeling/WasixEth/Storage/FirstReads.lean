import WasixEth.Storage.GenesisState

/-! # Reading the state of the first block

The first batch over a genesis reads accounts and slots through the tries, not
the tables. What it reads is the allocation.
-/

namespace WasixEth.Storage

open Routine BatchWriter

section

variable [Keccak256] {strings : Set Bytes} {eip161 : Bool}
  {alloc : BTreeMap Address GenesisAccount} {tables : StateTables} {order : Enumeration}

/-- A batch over what a genesis has left, with its root for a base. -/
def batchOn (order : Enumeration) (root : B256) (tables : StateTables) : BatchWriter :=
  { beginBatch order { emptyDatabase with state := tables } with baseStateRoot := some root }

theorem account_batchOn (hstrings : CollisionFree strings) (halloc : AllocIn strings alloc)
    (hcomplete : Complete strings eip161 alloc tables.trieNodes) {address : Address}
    (haddress : address.bytes ∈ strings) {stateRoot : Option B256}
    (hroot : stateRoot.or (some (YellowPaper.trie (stateLeaves eip161 alloc))) =
      some (YellowPaper.trie (stateLeaves eip161 alloc))) :
    Triple (· ∈ strings)
      (· = batchOn order (YellowPaper.trie (stateLeaves eip161 alloc)) tables)
      (account address stateRoot)
      fun found batch' => found = (alloc.entries.lookup address).bind (·.settled eip161) ∧
        batch' = batchOn order (YellowPaper.trie (stateLeaves eip161 alloc)) tables := by
  have htrie := hcomplete.state.trieAt supported_stateMap
  have hleaf : stateMap eip161 alloc (unpack (keccak256 address.bytes)) = _ :=
    stateMap_key hstrings halloc haddress
  unfold account
  apply triple_read_bind
  intro batch hbatch
  have htouched : address ∉ batch.touchedAccounts := by simp [hbatch, batchOn, beginBatch]
  have hbase : stateRoot.or batch.baseStateRoot =
      some (YellowPaper.trie (stateLeaves eip161 alloc)) := by rwa [hbatch]
  rw [if_neg htouched, hbase]
  subst hbatch
  dsimp only
  split
  next hempty =>
    rw [hempty] at htrie
    have hnone := htrie.eq_none hstrings hcomplete.keyed (keccak256 address.bytes)
    rw [hleaf, Option.map_eq_none_iff] at hnone
    exact triple_pure fun _ hbatch => ⟨hnone.symm, hbatch⟩
  next =>
    apply triple_bind (hashed_spec address.bytes)
    intro key
    apply triple_of_pure_pre
    rintro ⟨rfl, -⟩
    apply triple_bind (get_withTrie hstrings (htrie.opened hstrings hcomplete.keyed) _)
    rintro ⟨found, trie⟩
    apply triple_of_pure_pre
    intro hfound
    dsimp only at hfound ⊢
    rw [hfound, hleaf]
    cases (alloc.entries.lookup address).bind (·.settled eip161) with
    | none => exact triple_pure fun _ hbatch => ⟨rfl, hbatch⟩
    | some account =>
        dsimp only [Option.map]
        rw [account.decode_encode]
        exact triple_pure fun _ hbatch => ⟨rfl, hbatch⟩

/-- A slot of an account without a storage trie was given nothing. -/
theorem given_of_emptyRootHash (hstrings : CollisionFree strings)
    (hcomplete : Complete strings eip161 alloc tables.trieNodes)
    (halloc : AllocIn strings alloc) {address : Address} {account : GenesisAccount}
    (hentry : (address, account) ∈ alloc.entries) {slot : B256}
    (hslot : slot.bytes ∈ strings) (hempty : account.storageRoot = emptyRootHash) :
    (account.given slot).getD 0 = 0 := by
  have htrie := (hcomplete.storages _ hentry).trieAt GenesisAccount.supported_slotMap
  dsimp only at htrie
  rw [hempty] at htrie
  have hnone := htrie.eq_none hstrings hcomplete.keyed (keccak256 slot.bytes)
  rw [GenesisAccount.slotMap_key hstrings (halloc.slots _ hentry) hslot] at hnone
  cases hgiven : account.given slot with
  | none => rfl
  | some value =>
      rw [hgiven, Option.bind_some] at hnone
      exact slotValue_eq_none hnone

/-- An account that is not in the state has nothing in its slots. -/
theorem given_of_vanished (hstrings : CollisionFree strings)
    (hcomplete : Complete strings eip161 alloc tables.trieNodes) (halloc : AllocIn strings alloc)
    {address : Address} {slot : B256} (hslot : slot.bytes ∈ strings)
    (hvanished : (alloc.entries.lookup address).bind (·.settled eip161) = none) :
    ((alloc.entries.lookup address).bind (·.given slot)).getD 0 = 0 := by
  cases hlookup : alloc.entries.lookup address with
  | none => rfl
  | some account =>
      rw [hlookup, Option.bind_some, GenesisAccount.settled] at hvanished
      split at hvanished
      next hempty =>
        apply given_of_emptyRootHash hstrings hcomplete halloc (mem_of_lookup hlookup) hslot
        simpa using (Bool.and_eq_true_iff.mp hempty).2
      next => cases hvanished

theorem storageRoot_settled {account : GenesisAccount} {found : TrieAccount}
    (h : account.settled eip161 = some found) : found.storageRoot = account.storageRoot := by
  unfold GenesisAccount.settled at h
  split at h
  next => cases h
  next =>
    obtain rfl := Option.some.inj h
    rfl

theorem storage_batchOn (hstrings : CollisionFree strings) (halloc : AllocIn strings alloc)
    (hcomplete : Complete strings eip161 alloc tables.trieNodes) {address : Address}
    (haddress : address.bytes ∈ strings) {slot : B256} (hslot : slot.bytes ∈ strings) :
    Triple (· ∈ strings)
      (· = batchOn order (YellowPaper.trie (stateLeaves eip161 alloc)) tables)
      (storage address slot none)
      fun value _ => value = ((alloc.entries.lookup address).bind (·.given slot)).getD 0 := by
  have hnothing : (alloc.entries.lookup address).bind (·.settled eip161) = none → _ :=
    given_of_vanished hstrings hcomplete halloc hslot
  unfold storage
  apply triple_read_bind
  intro batch hbatch
  have hlookup : batch.touchedStorages.lookup (address, slot) = none := by
    simp [hbatch, batchOn, beginBatch]
  have hreset : address ∉ batch.resettedStorages := by simp [hbatch, batchOn, beginBatch]
  have hbase : Option.or none batch.baseStateRoot =
      some (YellowPaper.trie (stateLeaves eip161 alloc)) := by rw [hbatch]; rfl
  rw [hlookup]
  dsimp only
  rw [if_neg hreset, hbase]
  subst hbatch
  dsimp only
  split
  next hempty =>
    have htrie := hcomplete.state.trieAt supported_stateMap
    rw [hempty] at htrie
    have hnone := htrie.eq_none hstrings hcomplete.keyed (keccak256 address.bytes)
    rw [stateMap_key hstrings halloc haddress, Option.map_eq_none_iff] at hnone
    exact triple_pure fun _ _ => (hnothing hnone).symm
  next =>
    apply triple_bind (account_batchOn hstrings halloc hcomplete haddress (Option.some_or ..))
    intro found
    apply triple_of_pure_pre
    rintro rfl
    cases hlookup : alloc.entries.lookup address with
    | none => exact triple_pure fun _ _ => rfl
    | some account =>
        rw [hlookup] at hnothing
        simp only [Option.bind_some] at hnothing ⊢
        cases hsettled : account.settled eip161 with
        | none => exact triple_pure fun _ _ => (hnothing hsettled).symm
        | some found =>
            have hentry := mem_of_lookup hlookup
            have htrie := (hcomplete.storages _ hentry).trieAt GenesisAccount.supported_slotMap
            dsimp only at htrie ⊢
            rw [← storageRoot_settled hsettled] at htrie
            refine (storageAt_spec hstrings hcomplete.keyed htrie ?_).weaken fun _ _ h => h.1
            rw [GenesisAccount.slotMap_key hstrings (halloc.slots _ hentry) hslot]
            cases account.given slot <;> rfl

/-- The first batch over the database that another batch leaves, with the root
that it returned for a base. -/
def batchAfter (order : Enumeration) (written : Outcome BatchWriter Bytes String B256) :
    BatchWriter :=
  { beginBatch order { emptyDatabase with state := written.state.tables } with
    baseStateRoot := written.result.toOption }

/-- What the first batch reads below the root of the genesis block is the
allocation, whatever else it is asked for. -/
theorem reads_genesisBatch (order order' : Enumeration) (eip161 : Bool)
    (alloc : BTreeMap Address GenesisAccount) (address : Address) (slot : B256)
    (hfree : Set.InjOn keccak256 (runStrings ∅
      (alloc.inputs ++ [address.bytes, slot.bytes] ++ (genesisBatch order eip161 alloc).log ++
        (account address none (batchAfter order' (genesisBatch order eip161 alloc))).log ++
        (storage address slot none (batchAfter order' (genesisBatch order eip161 alloc))).log))) :
    (account address none (batchAfter order' (genesisBatch order eip161 alloc))).result =
        .ok ((alloc.entries.lookup address).bind (·.settled eip161)) ∧
      (storage address slot none (batchAfter order' (genesisBatch order eip161 alloc))).result =
        .ok (((alloc.entries.lookup address).bind (·.given slot)).getD 0) := by
  have hstrings := collisionFree_runStrings hfree
  generalize hall : runStrings ∅ _ = strings at hfree hstrings
  have hmem : ∀ data, data ∈ alloc.inputs ++ [address.bytes, slot.bytes] ++
      (genesisBatch order eip161 alloc).log ++
      (account address none (batchAfter order' (genesisBatch order eip161 alloc))).log ++
      (storage address slot none (batchAfter order' (genesisBatch order eip161 alloc))).log →
      data ∈ strings := fun data hdata => hall ▸ .inr (.inl hdata)
  simp only [List.mem_append, List.mem_cons, List.not_mem_nil, or_false] at hmem
  have halloc : AllocIn strings alloc :=
    allocIn_of_inputs fun data hdata => hmem data (by simp [hdata])
  obtain ⟨root, hresult, rfl, hfounds⟩ := writeGenesis_spec hstrings halloc
    (receptive_empty _) (beginBatch order emptyDatabase) rfl
      fun data hdata => hmem data (.inl (.inl (.inr hdata)))
  have hbatch : batchAfter order' (genesisBatch order eip161 alloc) =
      batchOn order' (YellowPaper.trie (stateLeaves eip161 alloc))
        (genesisBatch order eip161 alloc).state.tables := by
    simp only [batchAfter, batchOn, genesisBatch, hresult]
    rfl
  have haddress : address.bytes ∈ strings := hmem _ (by simp)
  constructor
  · obtain ⟨found, hfound, rfl, -⟩ := account_batchOn hstrings halloc hfounds.complete haddress
      (Option.none_or ..) _ hbatch fun data hdata => hmem data (.inl (.inr hdata))
    exact hfound
  · obtain ⟨value, hvalue, rfl⟩ := storage_batchOn hstrings halloc hfounds.complete haddress
      (hmem slot.bytes (by simp)) _ hbatch fun data hdata => hmem data (.inr hdata)
    exact hvalue

end

section Keccak

attribute [local instance] keccak

/-- The filled slot of the contract. -/
theorem reads_genesisBatch_sampleAlloc :
    (account (Address.trailing 1) none
        (batchAfter .inOrder (genesisBatch .inOrder true sampleAlloc))).result =
      .ok ((sampleAlloc.entries.lookup (Address.trailing 1)).bind (·.settled true)) ∧
    (storage (Address.trailing 1) (B256.leading 1) none
        (batchAfter .inOrder (genesisBatch .inOrder true sampleAlloc))).result =
      .ok (((sampleAlloc.entries.lookup (Address.trailing 1)).bind
        (·.given (B256.leading 1))).getD 0) :=
  reads_genesisBatch .inOrder .inOrder true sampleAlloc (Address.trailing 1) (B256.leading 1)
    (injOn_runStrings_empty (by decide +kernel))

end Keccak

end WasixEth.Storage
