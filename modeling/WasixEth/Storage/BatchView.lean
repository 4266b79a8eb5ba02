import WasixEth.Storage.StoredTrie

/-! # What a batch shows

`View accounts storages` says of a batch that its reads at the base root return
these accounts and slot values. Reading returns them, and each write carries
one view to another.
-/

namespace WasixEth.Storage

open Routine BatchWriter

section

variable [Keccak256]

/-- How a slot is kept in a storage trie. -/
def slotValue (value : U256) : Option Bytes := if value = 0 then none else some (encodeU256 value)

/-- The storage trie below a root is in the table and holds these values in the
slots in play. -/
def SlotsAt (strings : Set Bytes) (nodes : Table B256 Bytes) (root : B256)
    (values : B256 → U256) : Prop :=
  ∃ contents, TrieAt nodes root contents ∧
    ∀ slot : B256, slot.bytes ∈ strings → contents (keccak256 slot.bytes) = slotValue (values slot)

/-- What the slots of an account read as: those in the overlay as they were
written, the others as the storage trie of the account has them. -/
structure SlotView (strings : Set Bytes) (root : B256) (nodes : Table B256 Bytes)
    (written : B256 → Option U256) (reset : Prop) (account : Option TrieAccount)
    (values : B256 → U256) : Prop where
  overlay : ∀ slot value, written slot = some value → values slot = value
  zero : ∀ slot, written slot = none → reset ∨ root = emptyRootHash ∨ account = none →
    values slot = 0
  stored : ∀ found, account = some found → ¬ reset →
    ∃ stored, SlotsAt strings nodes found.storageRoot stored ∧
      ∀ slot, written slot = none → stored slot = values slot

/-- The slots of an account that a batch has written. -/
def BatchWriter.written (batch : BatchWriter) (address : Address) (slot : B256) : Option U256 :=
  batch.touchedStorages.lookup (address, slot)

structure View (strings : Set Bytes) (root : B256) (accounts : Address → Option TrieAccount)
    (storages : Address → B256 → U256) (batch : BatchWriter) : Prop where
  keyed : Keyed strings batch.tables.trieNodes
  base : batch.baseStateRoot = some root
  touched : ∀ address ∈ batch.touchedAccounts,
    batch.tables.accounts.get address = accounts address
  untouched : ∃ contents, TrieAt batch.tables.trieNodes root contents ∧
    ∀ address, address ∉ batch.touchedAccounts →
      contents (keccak256 address.bytes) = (accounts address).map TrieAccount.encode
  slots : ∀ address, SlotView strings root batch.tables.trieNodes (batch.written address)
    (address ∈ batch.resettedStorages) (accounts address) (storages address)

variable {strings : Set Bytes} {root : B256} {accounts : Address → Option TrieAccount}
  {storages : Address → B256 → U256} {batch : BatchWriter}

theorem SlotsAt.mono {nodes nodes' : Table B256 Bytes} {values : B256 → U256}
    (hslots : SlotsAt strings nodes root values) (hgrows : Grows nodes nodes') :
    SlotsAt strings nodes' root values := by
  obtain ⟨contents, htrie, hvalues⟩ := hslots
  exact ⟨contents, htrie.mono hgrows, hvalues⟩

theorem SlotsAt.empty (strings : Set Bytes) (nodes : Table B256 Bytes) :
    SlotsAt strings nodes emptyRootHash fun _ => 0 :=
  ⟨fun _ => none, .empty nodes, fun _ _ => rfl⟩

omit [Keccak256] in
theorem slotValue_eq_none {value : U256} (h : slotValue value = none) : value = 0 := by
  unfold slotValue at h
  split at h
  next hzero => exact hzero
  next => cases h

omit [Keccak256] in
theorem slotValue_eq_some {value : U256} {bytes : Bytes} (h : slotValue value = some bytes) :
    decodeU256 bytes = .ok value := by
  unfold slotValue at h
  split at h
  next => cases h
  next =>
      obtain rfl := Option.some.inj h
      exact decodeU256_encodeU256 value

/-! ## Reading -/

theorem hashed_spec (data : Bytes) :
    Triple (· ∈ strings) (· = batch) (hashed data)
      fun hash batch' => (hash = keccak256 data ∧ data ∈ strings) ∧ batch' = batch := by
  rintro batch rfl hlog
  exact ⟨keccak256 data, rfl, ⟨rfl, hlog data (by simp [hashed, bind, Routine.bind, emit])⟩, rfl⟩

theorem account_spec (hstrings : CollisionFree strings)
    (hview : View strings root accounts storages batch) (address : Address)
    {stateRoot : Option B256} (hroot : stateRoot.or batch.baseStateRoot = some root) :
    Triple (· ∈ strings) (· = batch) (account address stateRoot)
      fun found batch' => found = accounts address ∧ batch' = batch := by
  unfold account
  refine triple_read_bind fun batch' hbatch => ?_
  subst hbatch
  split
  next htouched =>
      refine triple_pure fun _ hbatch => ⟨hview.touched address htouched, hbatch⟩
  next huntouched =>
      obtain ⟨contents, htrie, hcontents⟩ := hview.untouched
      have haccount := hcontents address huntouched
      rw [hroot]
      dsimp only
      split
      next hempty =>
          rw [hempty] at htrie
          rw [htrie.eq_none hstrings hview.keyed] at haccount
          refine triple_pure fun _ hbatch => ⟨?_, hbatch⟩
          exact (Option.map_eq_none_iff.mp haccount.symm).symm
      next =>
          refine triple_bind (hashed_spec address.bytes) fun key => ?_
          refine triple_of_pure_pre fun hkey => ?_
          rw [hkey.1]
          refine triple_bind (get_withTrie hstrings (htrie.opened hstrings hview.keyed) _) ?_
          rintro ⟨found, trie⟩
          refine triple_of_pure_pre fun hfound => ?_
          dsimp only at hfound ⊢
          rw [hfound, haccount]
          cases haccounts : accounts address with
          | none => exact triple_pure fun _ hbatch => ⟨rfl, hbatch⟩
          | some account =>
              dsimp only [Option.map]
              rw [account.decode_encode]
              exact triple_pure fun _ hbatch => ⟨rfl, hbatch⟩

/-- A slot read from the storage trie of an account. -/
theorem storageAt_spec (hstrings : CollisionFree strings) {storageRoot slot : B256}
    {contents : B256 → Option Bytes} {value : U256}
    (hkeyed : Keyed strings batch.tables.trieNodes)
    (htrie : TrieAt batch.tables.trieNodes storageRoot contents)
    (hvalue : contents (keccak256 slot.bytes) = slotValue value) :
    Triple (· ∈ strings) (· = batch)
      (if storageRoot = emptyRootHash then return 0
        else do
          let key ← hashed slot.bytes
          let (value, _) ← withTrie (EthTrie.new ∅ storageRoot) (EthTrie.get key)
          match value with
          | none => return 0
          | some bytes => liftRlp (decodeU256 bytes))
      fun found batch' => found = value ∧ batch' = batch := by
  split
  next hempty =>
      rw [hempty] at htrie
      rw [htrie.eq_none hstrings hkeyed] at hvalue
      exact triple_pure fun _ hbatch => ⟨(slotValue_eq_none hvalue.symm).symm, hbatch⟩
  next =>
      refine triple_bind (hashed_spec slot.bytes) fun key => ?_
      refine triple_of_pure_pre fun hkey => ?_
      rw [hkey.1]
      refine triple_bind (get_withTrie hstrings (htrie.opened hstrings hkeyed) _) ?_
      rintro ⟨found, trie⟩
      refine triple_of_pure_pre fun hfound => ?_
      dsimp only at hfound ⊢
      rw [hvalue] at hfound
      cases found with
      | none => exact triple_pure fun _ hbatch => ⟨(slotValue_eq_none hfound.symm).symm, hbatch⟩
      | some bytes =>
          dsimp only
          rw [slotValue_eq_some hfound.symm]
          exact triple_pure fun _ hbatch => ⟨rfl, hbatch⟩

theorem storage_spec (hstrings : CollisionFree strings)
    (hview : View strings root accounts storages batch) (address : Address) {slot : B256}
    (hslot : slot.bytes ∈ strings) {stateRoot : Option B256}
    (hroot : stateRoot.or batch.baseStateRoot = some root) :
    Triple (· ∈ strings) (· = batch) (storage address slot stateRoot)
      fun value batch' => value = storages address slot ∧ batch' = batch := by
  unfold storage
  refine triple_read_bind fun batch' hbatch => ?_
  subst hbatch
  have hslots := hview.slots address
  cases hlookup : batch'.touchedStorages.lookup (address, slot) with
  | some value =>
      refine triple_pure fun _ hbatch => ⟨?_, hbatch⟩
      exact (hslots.overlay slot value hlookup).symm
  | none =>
      dsimp only
      split
      next hreset =>
          refine triple_pure fun _ hbatch => ⟨?_, hbatch⟩
          exact (hslots.zero slot hlookup (.inl hreset)).symm
      next hreset =>
          rw [hroot]
          dsimp only
          split
          next hempty =>
              refine triple_pure fun _ hbatch => ⟨?_, hbatch⟩
              exact (hslots.zero slot hlookup (.inr (.inl hempty))).symm
          next =>
              refine triple_bind (account_spec hstrings hview address rfl) fun found => ?_
              refine triple_of_pure_pre fun hfound => ?_
              subst hfound
              cases haccount : accounts address with
              | none =>
                  refine triple_pure fun _ hbatch => ⟨?_, hbatch⟩
                  exact (hslots.zero slot hlookup (.inr (.inr haccount))).symm
              | some account =>
                  obtain ⟨stored, ⟨contents, htrie, hcontents⟩, hstored⟩ :=
                    hslots.stored account haccount hreset
                  have hvalue := hcontents slot hslot
                  rw [hstored slot hlookup] at hvalue
                  exact storageAt_spec hstrings hview.keyed htrie hvalue

/-! ## The overlay -/

omit [Keccak256] in
theorem lookup_insertEntry {α β : Type} [DecidableEq α] [BEq α] [LawfulBEq α] (key key' : α)
    (value : β) (entries : List (α × β)) :
    (insertEntry key value entries).lookup key' =
      if key' = key then some value else entries.lookup key' := by
  induction entries with
  | nil =>
      by_cases hkey : key' = key
      · simp [insertEntry, hkey]
      · simp [insertEntry, List.lookup_cons, hkey, beq_false_of_ne hkey]
  | cons entry entries ih =>
      obtain ⟨entryKey, entryValue⟩ := entry
      rw [insertEntry]
      split
      next heq =>
          dsimp only at heq
          subst heq
          by_cases hkey : key' = entryKey
          · simp [hkey]
          · simp [List.lookup_cons, hkey, beq_false_of_ne hkey]
      next hne =>
          dsimp only at hne
          by_cases hentry : key' = entryKey
          · have hkey : key' ≠ key := fun h => hne (hentry.symm.trans h)
            simp [hentry, hne]
          · simp [List.lookup_cons, beq_false_of_ne hentry, ih]

omit [Keccak256] in
theorem mem_insertElement {α : Type} [DecidableEq α] {elements : List α} {element other : α} :
    other ∈ insertElement elements element ↔ other = element ∨ other ∈ elements := by
  unfold insertElement
  split
  next hmem =>
      constructor
      · exact .inr
      · rintro (rfl | hother)
        · exact hmem
        · exact hother
  next => simp [or_comm]

/-! ## Writes to one account -/

namespace SlotView

variable {nodes nodes' : Table B256 Bytes} {written : B256 → Option U256} {reset : Prop}
  {account : Option TrieAccount} {values : B256 → U256}

theorem mono (h : SlotView strings root nodes written reset account values)
    (hgrows : Grows nodes nodes') :
    SlotView strings root nodes' written reset account values := by
  refine ⟨h.overlay, h.zero, fun found hfound hreset => ?_⟩
  obtain ⟨stored, hslots, hstored⟩ := h.stored found hfound hreset
  exact ⟨stored, hslots.mono hgrows, hstored⟩

/-- The storage root of what is read holds the slots that are not in the overlay. -/
theorem exists_slotsAt (h : SlotView strings root nodes written reset account values)
    (hreset : ¬ reset) :
    ∃ stored, SlotsAt strings nodes (account.getD .blank).storageRoot stored ∧
      ∀ slot, written slot = none → stored slot = values slot := by
  cases haccount : account with
  | some found => exact h.stored found haccount hreset
  | none =>
      refine ⟨fun _ => 0, .empty strings nodes, fun slot hslot => ?_⟩
      exact (h.zero slot hslot (.inr (.inr haccount))).symm

/-- Another account with a root that has the same slots. -/
theorem setAccount (h : SlotView strings root nodes written reset account values)
    {found : TrieAccount} (hroot : ¬ reset → ∃ stored,
      SlotsAt strings nodes found.storageRoot stored ∧
        ∀ slot, written slot = none → stored slot = values slot) :
    SlotView strings root nodes written reset (some found) values := by
  refine ⟨h.overlay, fun slot hslot hzero => ?_, fun other hother hreset => ?_⟩
  · rcases hzero with hreset | hempty | hnone
    · exact h.zero slot hslot (.inl hreset)
    · exact h.zero slot hslot (.inr (.inl hempty))
    · cases hnone
  · obtain rfl := Option.some.inj hother
    exact hroot hreset

/-- Only the overlay is left of an account that is removed or reset. -/
theorem clear {reset' : Prop} {account' : Option TrieAccount} (hclear : reset' ∨ account' = none) :
    SlotView strings root nodes written reset' account' fun slot => (written slot).getD 0 := by
  refine ⟨fun slot value hslot => ?_, fun slot hslot _ => ?_, fun found hfound hreset => ?_⟩
  · rw [hslot, Option.getD_some]
  · rw [hslot, Option.getD_none]
  · rcases hclear with hclear | hclear
    · exact absurd hclear hreset
    · rw [hclear] at hfound
      cases hfound

theorem setSlot (h : SlotView strings root nodes written reset account values) (slot : B256)
    (value : U256) :
    SlotView strings root nodes (Function.update written slot (some value)) reset account
      (Function.update values slot value) := by
  have hother {slot' : B256} (hslot : Function.update written slot (some value) slot' = none) :
      slot' ≠ slot ∧ written slot' = none := by
    have hne : slot' ≠ slot := by
      rintro rfl
      rw [Function.update_self] at hslot
      cases hslot
    rw [Function.update_of_ne hne] at hslot
    exact ⟨hne, hslot⟩
  refine ⟨fun slot' value' hslot => ?_, fun slot' hslot hzero => ?_, fun found hfound hreset => ?_⟩
  · by_cases hne : slot' = slot
    · subst hne
      rw [Function.update_self] at hslot ⊢
      exact Option.some.inj hslot
    · rw [Function.update_of_ne hne] at hslot ⊢
      exact h.overlay slot' value' hslot
  · rw [Function.update_of_ne (hother hslot).1]
    exact h.zero slot' (hother hslot).2 hzero
  · obtain ⟨stored, hslots, hstored⟩ := h.stored found hfound hreset
    refine ⟨stored, hslots, fun slot' hslot => ?_⟩
    rw [Function.update_of_ne (hother hslot).1]
    exact hstored slot' (hother hslot).2

end SlotView

/-! ## Writes to a batch -/

/-- Nothing but what concerns one address has changed. -/
structure OnlyAt (address : Address) (batch batch' : BatchWriter) : Prop where
  nodes : batch'.tables.trieNodes = batch.tables.trieNodes
  base : batch'.baseStateRoot = batch.baseStateRoot
  accounts : ∀ other, other ≠ address →
    batch'.tables.accounts.get other = batch.tables.accounts.get other
  touched : ∀ other, other ≠ address →
    (other ∈ batch'.touchedAccounts ↔ other ∈ batch.touchedAccounts)
  written : ∀ other, other ≠ address → batch'.written other = batch.written other
  resetted : ∀ other, other ≠ address →
    (other ∈ batch'.resettedStorages ↔ other ∈ batch.resettedStorages)

theorem View.change (hview : View strings root accounts storages batch) {address : Address}
    {batch' : BatchWriter} (honly : OnlyAt address batch batch') {account : Option TrieAccount}
    {values : B256 → U256}
    (htouched : address ∈ batch'.touchedAccounts →
      batch'.tables.accounts.get address = account)
    (huntouched : address ∉ batch'.touchedAccounts →
      address ∉ batch.touchedAccounts ∧ account = accounts address)
    (hslots : SlotView strings root batch.tables.trieNodes (batch'.written address)
      (address ∈ batch'.resettedStorages) account values) :
    View strings root (Function.update accounts address account)
      (Function.update storages address values) batch' where
  keyed := honly.nodes ▸ hview.keyed
  base := honly.base.trans hview.base
  touched other hother := by
    by_cases heq : other = address
    · subst heq
      rw [Function.update_self]
      exact htouched hother
    · rw [Function.update_of_ne heq, honly.accounts other heq]
      exact hview.touched other ((honly.touched other heq).mp hother)
  untouched := by
    obtain ⟨contents, htrie, hcontents⟩ := hview.untouched
    refine ⟨contents, honly.nodes ▸ htrie, fun other hother => ?_⟩
    by_cases heq : other = address
    · subst heq
      obtain ⟨hbefore, haccount⟩ := huntouched hother
      rw [Function.update_self, haccount]
      exact hcontents other hbefore
    · rw [Function.update_of_ne heq]
      exact hcontents other fun hmem => hother ((honly.touched other heq).mpr hmem)
  slots other := by
    rw [honly.nodes]
    by_cases heq : other = address
    · subst heq
      rw [Function.update_self, Function.update_self]
      exact hslots
    · rw [Function.update_of_ne heq, Function.update_of_ne heq, honly.written other heq,
        honly.resetted other heq]
      exact hview.slots other

namespace OnlyAt

omit [Keccak256] in
theorem refl (address : Address) (batch : BatchWriter) : OnlyAt address batch batch :=
  ⟨rfl, rfl, fun _ _ => rfl, fun _ _ => .rfl, fun _ _ => rfl, fun _ _ => .rfl⟩

omit [Keccak256] in
theorem trans {address : Address} {batch batch' batch'' : BatchWriter}
    (h : OnlyAt address batch batch') (h' : OnlyAt address batch' batch'') :
    OnlyAt address batch batch'' where
  nodes := h'.nodes.trans h.nodes
  base := h'.base.trans h.base
  accounts other hother := (h'.accounts other hother).trans (h.accounts other hother)
  touched other hother := (h'.touched other hother).trans (h.touched other hother)
  written other hother := (h'.written other hother).trans (h.written other hother)
  resetted other hother := (h'.resetted other hother).trans (h.resetted other hother)

end OnlyAt

/-- What stood before is recorded and nothing else happens. -/
theorem recordAccount_spec (hstrings : CollisionFree strings)
    (hview : View strings root accounts storages batch) (address : Address) :
    Triple (· ∈ strings) (· = batch) (recordAccount address)
      fun _ batch' => ∃ originals, batch' = { batch with originalAccounts := originals } := by
  unfold recordAccount
  refine triple_read_bind fun batch' hbatch => ?_
  subst hbatch
  split
  next => exact triple_pure fun _ hbatch => ⟨batch'.originalAccounts, hbatch⟩
  next =>
      refine triple_bind (account_spec hstrings hview address hview.base) fun old => ?_
      refine triple_of_pure_pre fun _ => triple_modify fun _ hbatch => ?_
      subst hbatch
      exact ⟨_, rfl⟩

theorem recordStorage_spec (hstrings : CollisionFree strings)
    (hview : View strings root accounts storages batch) (address : Address) {slot : B256}
    (hslot : slot.bytes ∈ strings) :
    Triple (· ∈ strings) (· = batch) (recordStorage address slot)
      fun _ batch' => ∃ originals, batch' = { batch with originalStorages := originals } := by
  unfold recordStorage
  refine triple_read_bind fun batch' hbatch => ?_
  subst hbatch
  split
  next => exact triple_pure fun _ hbatch => ⟨batch'.originalStorages, hbatch⟩
  next =>
      refine triple_bind (storage_spec hstrings hview address hslot hview.base) fun old => ?_
      refine triple_of_pure_pre fun _ => triple_modify fun _ hbatch => ?_
      subst hbatch
      exact ⟨_, rfl⟩

/-- A batch after a write to an account or its slots. -/
structure Writes (address : Address) (account : Option TrieAccount) (slots : B256 → Option U256)
    (batch batch' : BatchWriter) : Prop extends OnlyAt address batch batch' where
  self_touched : address ∈ batch'.touchedAccounts
  self_account : batch'.tables.accounts.get address = account
  self_written : batch'.written address = slots
  self_resetted : address ∈ batch'.resettedStorages ↔ address ∈ batch.resettedStorages

theorem View.writes (hview : View strings root accounts storages batch) {address : Address}
    {account : Option TrieAccount} {written : B256 → Option U256} {batch' : BatchWriter}
    (hwrites : Writes address account written batch batch') {values : B256 → U256}
    (hslots : SlotView strings root batch.tables.trieNodes written
      (address ∈ batch.resettedStorages) account values) :
    View strings root (Function.update accounts address account)
      (Function.update storages address values) batch' := by
  refine hview.change hwrites.toOnlyAt (fun _ => hwrites.self_account)
    (fun huntouched => absurd hwrites.self_touched huntouched) ?_
  rw [hwrites.self_written, hwrites.self_resetted]
  exact hslots

omit [Keccak256] in
theorem writes_update (batch : BatchWriter) (address : Address) (account : TrieAccount)
    (originals : List (Address × Option TrieAccount)) :
    Writes address (some account) (batch.written address) batch { batch with
      originalAccounts := originals
      tables := batch.tables.updateAccount address account
      touchedAccounts := insertElement batch.touchedAccounts address } := by
  refine ⟨⟨rfl, rfl, fun other hother => ?_, fun other hother => ?_, fun _ _ => rfl,
    fun _ _ => .rfl⟩, mem_insertElement.mpr (.inl rfl), ?_, rfl, .rfl⟩
  · exact Table.get_insert_of_ne _ hother
  · rw [mem_insertElement, or_iff_right hother]
  · exact Table.get_insert_self _ _ _

omit [Keccak256] in
theorem writes_remove (batch : BatchWriter) (address : Address)
    (originals : List (Address × Option TrieAccount)) :
    Writes address none (batch.written address) batch { batch with
      originalAccounts := originals
      tables := batch.tables.removeAccount address
      touchedAccounts := insertElement batch.touchedAccounts address } := by
  refine ⟨⟨rfl, rfl, fun other hother => ?_, fun other hother => ?_, fun _ _ => rfl,
    fun _ _ => .rfl⟩, mem_insertElement.mpr (.inl rfl), ?_, rfl, .rfl⟩
  · dsimp only [StateTables.removeAccount]
    rw [Table.get_erase, if_neg hother]
  · rw [mem_insertElement, or_iff_right hother]
  · dsimp only [StateTables.removeAccount]
    rw [Table.get_erase, if_pos rfl]

theorem updateAccount_spec (hstrings : CollisionFree strings)
    (hview : View strings root accounts storages batch) (address : Address)
    (account : TrieAccount) :
    Triple (· ∈ strings) (· = batch) (updateAccount address account)
      fun _ batch' => Writes address (some account) (batch.written address) batch batch' := by
  unfold updateAccount
  refine triple_bind (recordAccount_spec hstrings hview address) fun _ => ?_
  refine triple_of_exists_pre fun originals => triple_modify fun _ hbatch => ?_
  subst hbatch
  exact writes_update batch address account originals

theorem removeAccount_spec (hstrings : CollisionFree strings)
    (hview : View strings root accounts storages batch) (address : Address) :
    Triple (· ∈ strings) (· = batch) (removeAccount address)
      fun _ batch' => Writes address none (batch.written address) batch batch' := by
  unfold removeAccount
  refine triple_bind (recordAccount_spec hstrings hview address) fun _ => ?_
  refine triple_of_exists_pre fun originals => triple_modify fun _ hbatch => ?_
  subst hbatch
  exact writes_remove batch address originals

omit [Keccak256] in
/-- A slot in the overlay. -/
theorem onlyAt_setSlot (batch : BatchWriter) (address : Address) (slot : B256) (value : U256)
    (originals : List ((Address × B256) × U256)) :
    OnlyAt address batch { batch with
      originalStorages := originals
      tables := batch.tables.updateStorage address slot value
      touchedStorages := insertEntry (address, slot) value batch.touchedStorages } := by
  refine ⟨rfl, rfl, fun _ _ => rfl, fun _ _ => .rfl, fun other hother => ?_, fun _ _ => .rfl⟩
  funext slot'
  unfold BatchWriter.written
  dsimp only
  rw [lookup_insertEntry, if_neg fun heq => hother (Prod.mk.inj heq).1]

omit [Keccak256] in
theorem written_setSlot (batch : BatchWriter) (address : Address) (slot : B256) (value : U256) :
    (fun slot' => (insertEntry (address, slot) value batch.touchedStorages).lookup
      (address, slot')) = Function.update (batch.written address) slot (some value) := by
  funext slot'
  rw [lookup_insertEntry, Function.update_apply]
  simp [BatchWriter.written]

/-- The account that a write to a slot leaves behind. -/
def BatchWriter.materialized (batch : BatchWriter) (accounts : Address → Option TrieAccount)
    (address : Address) : Option TrieAccount :=
  if address ∈ batch.touchedAccounts then accounts address
  else some ((accounts address).getD .blank)

theorem updateStorage_spec (hstrings : CollisionFree strings)
    (hview : View strings root accounts storages batch) (address : Address) {slot : B256}
    (hslot : slot.bytes ∈ strings) (value : U256) :
    Triple (· ∈ strings) (· = batch) (updateStorage address slot value)
      fun _ batch' => Writes address (batch.materialized accounts address)
          (Function.update (batch.written address) slot (some value)) batch batch' := by
  unfold updateStorage
  refine triple_bind (recordStorage_spec hstrings hview address hslot) fun _ => ?_
  refine triple_of_exists_pre fun originals => ?_
  generalize hnext : ({ batch with
    originalStorages := originals
    tables := batch.tables.updateStorage address slot value
    touchedStorages := insertEntry (address, slot) value batch.touchedStorages } :
      BatchWriter) = next
  have honly : OnlyAt address batch next :=
    hnext ▸ onlyAt_setSlot batch address slot value originals
  have hwritten : next.written address =
      Function.update (batch.written address) slot (some value) := by
    rw [← hnext]
    exact written_setSlot batch address slot value
  have htouched : next.touchedAccounts = batch.touchedAccounts := by rw [← hnext]
  have htable : next.tables.accounts = batch.tables.accounts := by
    rw [← hnext]
    rfl
  have hresetted : next.resettedStorages = batch.resettedStorages := by rw [← hnext]
  refine triple_bind (Q := fun _ batch' => batch' = next)
    (triple_modify fun _ hbatch => by rw [hbatch, ← hnext]) fun _ => ?_
  refine triple_read_bind fun batch' hbatch => ?_
  subst hbatch
  split
  next hmem =>
      -- a touched account is left as it is
      refine triple_pure fun _ hbatch => ?_
      subst hbatch
      rw [htouched] at hmem
      refine ⟨honly, htouched ▸ hmem, ?_, hwritten, by rw [hresetted]⟩
      rw [htable, hview.touched address hmem, BatchWriter.materialized, if_pos hmem]
  next hmem =>
      have hslots := (hview.slots address).setSlot slot value
      have hnextView := hview.change honly (fun h => absurd h hmem)
        (fun h => ⟨htouched ▸ h, rfl⟩) (by rw [hwritten, hresetted]; exact hslots)
      rw [Function.update_eq_self] at hnextView
      refine triple_bind (account_spec hstrings hnextView address hnextView.base) fun found => ?_
      refine triple_of_pure_pre fun hfound => ?_
      subst hfound
      refine (updateAccount_spec hstrings hnextView address _).weaken fun _ last hlast => ?_
      refine ⟨honly.trans hlast.toOnlyAt, hlast.self_touched, ?_,
        hlast.self_written.trans hwritten, by rw [hlast.self_resetted, hresetted]⟩
      rw [hlast.self_account, BatchWriter.materialized, if_neg (htouched ▸ hmem)]

/-! ## Views after a write -/

variable {address : Address} {batch' : BatchWriter}

/-- An account is written with a root that has the slots not in the overlay. -/
theorem View.update (hview : View strings root accounts storages batch) {account : TrieAccount}
    (hwrites : Writes address (some account) (batch.written address) batch batch')
    (hroot : address ∉ batch.resettedStorages → ∃ stored,
      SlotsAt strings batch.tables.trieNodes account.storageRoot stored ∧
        ∀ slot, batch.written address slot = none → stored slot = storages address slot) :
    View strings root (Function.update accounts address (some account)) storages batch' := by
  have hview' := hview.writes hwrites ((hview.slots address).setAccount hroot)
  rwa [Function.update_eq_self] at hview'

theorem View.remove (hview : View strings root accounts storages batch)
    (hwrites : Writes address none (batch.written address) batch batch') :
    View strings root (Function.update accounts address none)
      (Function.update storages address fun slot => (batch.written address slot).getD 0) batch' :=
  hview.writes hwrites (.clear (.inr rfl))

theorem View.setSlot (hview : View strings root accounts storages batch) {slot : B256}
    {value : U256} (hwrites : Writes address (batch.materialized accounts address)
      (Function.update (batch.written address) slot (some value)) batch batch') :
    View strings root (Function.update accounts address (batch.materialized accounts address))
      (Function.update storages address (Function.update (storages address) slot value))
      batch' := by
  refine hview.writes hwrites ?_
  have hslots := hview.slots address
  unfold BatchWriter.materialized
  split
  next => exact hslots.setSlot slot value
  next => exact (hslots.setAccount fun hreset => hslots.exists_slotsAt hreset).setSlot slot value

omit [Keccak256] in
theorem onlyAt_reset (batch : BatchWriter) (address : Address) :
    OnlyAt address batch
      { batch with resettedStorages := insertElement batch.resettedStorages address } := by
  refine ⟨rfl, rfl, fun _ _ => rfl, fun _ _ => .rfl, fun _ _ => rfl, fun other hother => ?_⟩
  rw [mem_insertElement, or_iff_right hother]

theorem View.reset (hview : View strings root accounts storages batch) (address : Address) :
    View strings root accounts
      (Function.update storages address fun slot => (batch.written address slot).getD 0)
      { batch with resettedStorages := insertElement batch.resettedStorages address } := by
  have hview' := hview.change (onlyAt_reset batch address) (hview.touched address)
    (fun huntouched => ⟨huntouched, rfl⟩) (.clear (.inl (mem_insertElement.mpr (.inl rfl))))
  rwa [Function.update_eq_self] at hview'

omit [Keccak256] in
theorem onlyAt_mark (batch : BatchWriter) (address : Address) :
    OnlyAt address batch
      { batch with touchedAccounts := insertElement batch.touchedAccounts address } := by
  refine ⟨rfl, rfl, fun _ _ => rfl, fun other hother => ?_, fun _ _ => rfl, fun _ _ => .rfl⟩
  rw [mem_insertElement, or_iff_right hother]

/-- A mark changes nothing if the table has what the trie has. -/
theorem View.mark (hview : View strings root accounts storages batch)
    (htable : address ∉ batch.touchedAccounts →
      batch.tables.accounts.get address = accounts address) :
    View strings root accounts storages
      { batch with touchedAccounts := insertElement batch.touchedAccounts address } := by
  have hself : batch.tables.accounts.get address = accounts address := by
    by_cases hmem : address ∈ batch.touchedAccounts
    · exact hview.touched address hmem
    · exact htable hmem
  have hview' := hview.change (onlyAt_mark batch address) (fun _ => hself)
    (fun huntouched => absurd (mem_insertElement.mpr (.inl rfl)) huntouched) (hview.slots address)
  rwa [Function.update_eq_self, Function.update_eq_self] at hview'

/-! ## Fewer strings in play -/

theorem SlotsAt.restrict {nodes : Table B256 Bytes} {values : B256 → U256}
    (hslots : SlotsAt Set.univ nodes root values) : SlotsAt strings nodes root values := by
  obtain ⟨contents, htrie, hvalues⟩ := hslots
  exact ⟨contents, htrie, fun slot _ => hvalues slot trivial⟩

end

end WasixEth.Storage
