import WasixEth.Storage.BatchView

/-! # The storage root of an account

`calculate_storage_root` writes the slots in the overlay to the storage trie of
the account. The trie below the root that it returns holds exactly what the
slots of the account read as.
-/

namespace WasixEth.Storage

open Routine BatchWriter

section

variable [Keccak256] {strings : Set Bytes} {root : B256} {accounts : Address → Option TrieAccount}
  {storages : Address → B256 → U256} {batch : BatchWriter}

omit [Keccak256] in
theorem length_encodeU256_lt (value : U256) : (encodeU256 value).length < 2 ^ 63 := by
  have hlength := Rlp.length_uintBytes_le 32 value.toNat
  rw [encodeU256, Rlp.encodeUint, Rlp.length_encodeBytes]
  have hheader := Rlp.lengthOfLength_le (Rlp.uintBytes 32 value.toNat).length
  have hone := Rlp.lengthOfLength_le 1
  unfold Rlp.bytesLength
  split
  · split <;> omega
  · omega

/-- The contents of a storage trie once the value of a slot is written. -/
theorem writeSlot_spec (hstrings : CollisionFree strings) {trie : EthTrie}
    {contents : B256 → Option Bytes}
    (hopened : Opened strings batch.tables.trieNodes contents trie) (key : B256) (value : U256) :
    Triple (· ∈ strings) (· = batch)
      (withTrie trie (if value = 0 then EthTrie.delete key
        else EthTrie.insert key (encodeU256 value)))
      fun found batch' => Opened strings batch.tables.trieNodes
        (Function.update contents key (slotValue value)) found.2 ∧ batch' = batch := by
  unfold slotValue
  split
  next => exact delete_withTrie hstrings hopened key
  next => exact insert_withTrie hstrings hopened key (length_encodeU256_lt value)

theorem writeSlots_spec (hstrings : CollisionFree strings)
    (hview : View strings root accounts storages batch) (address : Address)
    {stateRoot : Option B256} (hroot : stateRoot.or batch.baseStateRoot = some root)
    (slots : List B256) {trie : EthTrie} {contents : B256 → Option Bytes}
    (hopened : Opened strings batch.tables.trieNodes contents trie) :
    Triple (· ∈ strings) (· = batch) (writeSlots address stateRoot trie slots)
      fun trie' batch' => (∃ contents', Opened strings batch.tables.trieNodes contents' trie' ∧
        ∀ slot : B256, slot.bytes ∈ strings → contents' (keccak256 slot.bytes) =
          if slot ∈ slots then slotValue (storages address slot)
          else contents (keccak256 slot.bytes)) ∧ batch' = batch := by
  induction slots generalizing trie contents with
  | nil =>
      refine triple_pure fun _ hbatch => ⟨⟨contents, hopened, fun slot _ => ?_⟩, hbatch⟩
      rw [if_neg List.not_mem_nil]
  | cons slot slots ih =>
      unfold writeSlots
      refine triple_bind (hashed_spec slot.bytes) fun key => triple_of_pure_pre fun hkey => ?_
      obtain ⟨rfl, hslot⟩ := hkey
      refine triple_bind (storage_spec hstrings hview address hslot hroot) fun value => ?_
      refine triple_of_pure_pre fun hvalue => ?_
      subst hvalue
      refine triple_bind (writeSlot_spec hstrings hopened _ _) ?_
      rintro ⟨_, trie'⟩
      refine triple_of_pure_pre fun hopened' => ?_
      refine (ih hopened').weaken ?_
      rintro last batch' ⟨⟨contents', hlast, hcontents⟩, hbatch⟩
      refine ⟨⟨contents', hlast, fun other hother => ?_⟩, hbatch⟩
      rw [hcontents other hother]
      -- the last write to a slot counts, and all of them write what it reads as
      by_cases heq : other = slot
      · subst heq
        rw [Function.update_self, if_pos List.mem_cons_self, ite_self]
      · have hkeys : keccak256 other.bytes ≠ keccak256 slot.bytes := fun hhash =>
          heq (B256.ext (hstrings.injOn hother hslot hhash))
        rw [Function.update_of_ne hkeys]
        simp only [List.mem_cons, heq, false_or]

omit [Keccak256] in
/-- The slots of an account in the overlay, in the order of a writer. -/
theorem mem_slots (batch : BatchWriter) (address : Address) (slot : B256) :
    slot ∈ ((batch.order.slots (batch.touchedStorages.map Prod.fst)).filter fun entry =>
      entry.1 = address).map Prod.snd ↔ batch.written address slot ≠ none := by
  have hmem : (address, slot) ∈ batch.order.slots (batch.touchedStorages.map Prod.fst) ↔
      batch.written address slot ≠ none := by
    rw [(batch.order.slots_perm _).mem_iff, BatchWriter.written, ne_eq, List.lookup_eq_none_iff]
    simp
  rw [← hmem]
  simp

theorem View.withNodes (hview : View strings root accounts storages batch)
    {nodes : Table B256 Bytes} (hkeyed : Keyed strings nodes)
    (hgrows : Grows batch.tables.trieNodes nodes) :
    View strings root accounts storages
      { batch with tables := { batch.tables with trieNodes := nodes } } where
  keyed := hkeyed
  base := hview.base
  touched := hview.touched
  untouched := by
    obtain ⟨contents, htrie, hcontents⟩ := hview.untouched
    exact ⟨contents, htrie.mono hgrows, hcontents⟩
  slots address := (hview.slots address).mono hgrows

/-- The storage trie is written from a root that has the slots not in the
overlay. -/
theorem writeStorage_spec (hstrings : CollisionFree strings)
    (hview : View strings root accounts storages batch) (address : Address)
    {stateRoot : Option B256} (hroot : stateRoot.or batch.baseStateRoot = some root)
    {initial : B256} {stored : B256 → U256}
    (hslots : SlotsAt strings batch.tables.trieNodes initial stored)
    (hstored : ∀ slot, batch.written address slot = none →
      stored slot = storages address slot) :
    Triple (· ∈ strings) (· = batch)
      (do
        let trie ← writeSlots address stateRoot (EthTrie.new ∅ initial)
          (((batch.order.slots (batch.touchedStorages.map Prod.fst)).filter fun entry =>
            entry.1 = address).map Prod.snd)
        commitTrie trie
        return trie.rootHash)
      fun storageRoot batch' => ∃ nodes,
        batch' = { batch with tables := { batch.tables with trieNodes := nodes } } ∧
        Keyed strings nodes ∧ Grows batch.tables.trieNodes nodes ∧
        SlotsAt strings nodes storageRoot (storages address) := by
  obtain ⟨contents, htrie, hcontents⟩ := hslots
  refine triple_bind (writeSlots_spec hstrings hview address hroot _
    (htrie.opened hstrings hview.keyed)) fun trie => ?_
  refine triple_of_pure_pre fun hwritten => ?_
  obtain ⟨contents', hopened, hcontents'⟩ := hwritten
  obtain ⟨hkeyed, hgrows, htrie'⟩ := hopened.commit hstrings
  unfold commitTrie
  refine triple_bind (Q := fun _ last => last = { batch with tables := { batch.tables with
    trieNodes := committedNodes trie batch.tables.trieNodes } })
      (triple_modify fun _ hbatch => by rw [hbatch]; rfl) fun _ => ?_
  refine triple_pure fun _ hbatch => ⟨_, hbatch, hkeyed, hgrows, contents', htrie', ?_⟩
  intro slot hslot
  rw [hcontents' slot hslot]
  split
  next => rfl
  next hmem =>
      rw [mem_slots, not_not] at hmem
      rw [hcontents slot hslot, hstored slot hmem]

theorem calculateStorageRoot_spec (hstrings : CollisionFree strings)
    (hview : View strings root accounts storages batch) (address : Address)
    {stateRoot : Option B256} (hroot : stateRoot.or batch.baseStateRoot = some root) :
    Triple (· ∈ strings) (· = batch) (calculateStorageRoot address stateRoot)
      fun storageRoot batch' => ∃ nodes,
        batch' = { batch with tables := { batch.tables with trieNodes := nodes } } ∧
        Keyed strings nodes ∧ Grows batch.tables.trieNodes nodes ∧
        SlotsAt strings nodes storageRoot (storages address) := by
  unfold calculateStorageRoot
  refine triple_read_bind fun batch' hbatch => ?_
  subst hbatch
  have hslots := hview.slots address
  have horRoot : (stateRoot.or batch'.baseStateRoot).or batch'.baseStateRoot = some root := by
    rw [hroot]
    rfl
  dsimp only
  split
  next hreset =>
      refine triple_bind (Q := fun initial last => initial = emptyRootHash ∧ last = batch')
        (triple_pure fun _ hbatch => ⟨rfl, hbatch⟩) fun initial => ?_
      refine triple_of_pure_pre fun hinitial => ?_
      subst hinitial
      refine writeStorage_spec hstrings hview address horRoot (.empty strings _)
        fun slot hslot => ?_
      exact (hslots.zero slot hslot (.inl hreset)).symm
  next hreset =>
      refine triple_bind (account_spec hstrings hview address horRoot) fun found => ?_
      refine triple_of_pure_pre fun hfound => ?_
      refine triple_bind (Q := fun initial last =>
          initial = ((accounts address).getD .blank).storageRoot ∧ last = batch')
        (triple_pure fun _ hbatch => ⟨?_, hbatch⟩) fun initial => ?_
      · rw [hfound]
        cases accounts address <;> rfl
      · refine triple_of_pure_pre fun hinitial => ?_
        obtain ⟨stored, hstoredAt, hstored⟩ := hslots.exists_slotsAt hreset
        subst hinitial
        exact writeStorage_spec hstrings hview address horRoot hstoredAt hstored

end

end WasixEth.Storage
