import WasixEth.Storage.GenesisLeaves

/-! # The state of the first block

The batch of a genesis reads no base state: what it reads is what its tables
have. Each account of the allocation is written once, its storage trie growing
towards the slots it was given, and then the state trie towards the accounts.
Nothing is lost if some of this was in the tables before.
-/

namespace WasixEth.Storage

open Routine BatchWriter

section

variable [Keccak256] {strings : Set Bytes} {batch batch' batch'' : BatchWriter}

/-! ## Batches that read their tables -/

/-- What the table of slots has for a slot that was written. -/
def storedSlot (value : U256) : Option U256 := if value = 0 then none else some value

omit [Keccak256] in
@[simp] theorem getD_storedSlot (value : U256) : (storedSlot value).getD 0 = value := by
  unfold storedSlot
  split
  next hzero => exact hzero.symm
  next => rfl

/-- A batch without a base, in which no storage is reset. -/
structure Live (strings : Set Bytes) (batch : BatchWriter) : Prop where
  base : batch.baseStateRoot = none
  reset : batch.resettedStorages = []
  keyed : Keyed strings batch.tables.trieNodes
  nodup : batch.touchedAccounts.Nodup
  accounts : ∀ address, address ∉ batch.touchedAccounts →
    batch.tables.accounts.get address = batch.database.state.accounts.get address
  storages : ∀ address slot, batch.tables.storages.get (address, slot) =
    ((batch.written address slot).map storedSlot).getD
      (batch.database.state.storages.get (address, slot))

/-- The account that a write to a slot would leave in the table. -/
def BatchWriter.rowAt (batch : BatchWriter) (address : Address) : TrieAccount :=
  (batch.tables.accounts.get address).getD .blank

theorem account_live (hlive : Live strings batch) (address : Address) :
    Triple (· ∈ strings) (· = batch) (account address none)
      fun found batch' => found = batch.tables.accounts.get address ∧ batch' = batch := by
  unfold account
  apply triple_read_bind
  rintro batch' rfl
  split
  next => exact triple_pure fun _ hbatch => ⟨rfl, hbatch⟩
  next huntouched =>
    rw [hlive.base, hlive.accounts address huntouched]
    exact triple_pure fun _ hbatch => ⟨rfl, hbatch⟩

theorem storage_live (hlive : Live strings batch) (address : Address) (slot : B256) :
    Triple (· ∈ strings) (· = batch) (storage address slot none)
      fun value batch' => value = (batch.tables.storages.get (address, slot)).getD 0 ∧
        batch' = batch := by
  unfold storage
  apply triple_read_bind
  rintro batch' rfl
  have hstored := hlive.storages address slot
  unfold BatchWriter.written at hstored
  cases hwritten : batch'.touchedStorages.lookup (address, slot) with
  | some value =>
      rw [hwritten] at hstored
      apply triple_pure
      intro _ hbatch
      rw [hstored]
      exact ⟨(getD_storedSlot value).symm, hbatch⟩
  | none =>
      rw [hwritten] at hstored
      simp only [hlive.reset, hlive.base, List.not_mem_nil, if_false, Option.or_none]
      apply triple_pure
      intro _ hbatch
      simp [hstored, hbatch]

namespace Live

theorem withOriginals (h : Live strings batch)
    (accounts : List (Address × Option TrieAccount)) (storages : List ((Address × B256) × U256)) :
    Live strings { batch with originalAccounts := accounts, originalStorages := storages } :=
  ⟨h.base, h.reset, h.keyed, h.nodup, h.accounts, h.storages⟩

theorem withNodes (h : Live strings batch) {nodes : Table B256 Bytes}
    (hkeyed : Keyed strings nodes) :
    Live strings { batch with tables := { batch.tables with trieNodes := nodes } } :=
  ⟨h.base, h.reset, hkeyed, h.nodup, h.accounts, h.storages⟩

theorem withCodes (h : Live strings batch) (codes : Table B256 Bytes) :
    Live strings { batch with tables := { batch.tables with bytecodes := codes } } :=
  ⟨h.base, h.reset, h.keyed, h.nodup, h.accounts, h.storages⟩

/-- The row of a touched account may be anything. -/
theorem withRows (h : Live strings batch) {address : Address}
    (htouched : address ∈ batch.touchedAccounts) {accounts : Table Address TrieAccount}
    (hother : ∀ other, other ≠ address →
      accounts.get other = batch.tables.accounts.get other) :
    Live strings { batch with tables := { batch.tables with accounts := accounts } } := by
  refine ⟨h.base, h.reset, h.keyed, h.nodup, fun other huntouched => ?_, h.storages⟩
  rw [hother other fun heq => huntouched (heq ▸ htouched)]
  exact h.accounts other huntouched

theorem touch (h : Live strings batch) (address : Address) :
    Live strings { batch with
      touchedAccounts := insertElement batch.touchedAccounts address } := by
  refine ⟨h.base, h.reset, h.keyed, ?_, fun other huntouched => ?_, h.storages⟩
  · unfold insertElement
    split
    · exact h.nodup
    next hnew =>
      refine List.nodup_append.mpr ⟨h.nodup, by simp, fun other hother last hlast => ?_⟩
      rw [List.mem_singleton.mp hlast]
      exact fun heq => hnew (heq ▸ hother)
  · apply h.accounts other
    intro hmem
    exact huntouched (mem_insertElement.mpr (.inr hmem))

theorem setAccount (h : Live strings batch) (address : Address) (account : TrieAccount) :
    Live strings { batch with
      tables := batch.tables.updateAccount address account
      touchedAccounts := insertElement batch.touchedAccounts address } := by
  apply (h.touch address).withRows (mem_insertElement.mpr (.inl rfl))
  intro other hne
  exact Table.get_insert_of_ne account hne

omit [Keccak256] in
theorem written_setSlot (batch : BatchWriter) (address : Address) (slot : B256) (value : U256)
    (other : Address) :
    BatchWriter.written { batch with
        touchedStorages := insertEntry (address, slot) value batch.touchedStorages } other =
      if other = address then Function.update (batch.written address) slot (some value)
      else batch.written other := by
  funext slot'
  unfold BatchWriter.written
  rw [lookup_insertEntry]
  by_cases haddress : other = address
  · subst haddress
    by_cases hslot : slot' = slot <;> simp [hslot]
  · simp [haddress]

theorem setSlot (h : Live strings batch) (address : Address) (slot : B256) (value : U256) :
    Live strings { batch with
      tables := batch.tables.updateStorage address slot value
      touchedStorages := insertEntry (address, slot) value batch.touchedStorages } := by
  refine ⟨h.base, h.reset, h.keyed, h.nodup, h.accounts, fun other slot' => ?_⟩
  have hwritten := congrFun (written_setSlot batch address slot value other) slot'
  unfold BatchWriter.written at hwritten ⊢
  dsimp only at hwritten ⊢
  rw [hwritten]
  have hstored := h.storages other slot'
  unfold BatchWriter.written at hstored
  have htable : (batch.tables.updateStorage address slot value).storages.get (other, slot') =
      if (other, slot') = (address, slot) then storedSlot value
      else batch.tables.storages.get (other, slot') := by
    simp only [StateTables.updateStorage, storedSlot]
    split <;> simp only [Table.get_erase, Table.get_insert]
  rw [htable]
  by_cases haddress : other = address
  · subst haddress
    by_cases hslot : slot' = slot
    · simp [hslot]
    · simp [hslot, hstored]
  · simp [haddress, hstored]

end Live

/-! ## What is left alone -/

/-- Nothing but what belongs to these addresses is different, and no node is
lost. -/
structure OnlyIn (addresses : List Address) (batch batch' : BatchWriter) : Prop where
  order : batch'.order = batch.order
  database : batch'.database = batch.database
  accounts : ∀ other, other ∉ addresses →
    batch'.tables.accounts.get other = batch.tables.accounts.get other
  written : ∀ other, other ∉ addresses → batch'.written other = batch.written other
  touched : ∀ other, other ∉ addresses →
    (other ∈ batch'.touchedAccounts ↔ other ∈ batch.touchedAccounts)
  grows : Grows batch.tables.trieNodes batch'.tables.trieNodes
  accountChangeSets : batch'.tables.accountChangeSets = batch.tables.accountChangeSets
  storageChangeSets : batch'.tables.storageChangeSets = batch.tables.storageChangeSets
  receiptsMeta : batch'.tables.receiptsMeta = batch.tables.receiptsMeta

namespace OnlyIn

variable {addresses addresses' : List Address}

omit [Keccak256] in
theorem refl (addresses : List Address) (batch : BatchWriter) : OnlyIn addresses batch batch :=
  ⟨rfl, rfl, fun _ _ => rfl, fun _ _ => rfl, fun _ _ => .rfl, fun _ _ h => h, rfl, rfl, rfl⟩

omit [Keccak256] in
theorem trans (h : OnlyIn addresses batch batch') (h' : OnlyIn addresses batch' batch'') :
    OnlyIn addresses batch batch'' where
  order := h'.order.trans h.order
  database := h'.database.trans h.database
  accounts other hother := (h'.accounts other hother).trans (h.accounts other hother)
  written other hother := (h'.written other hother).trans (h.written other hother)
  touched other hother := (h'.touched other hother).trans (h.touched other hother)
  grows := h.grows.trans h'.grows
  accountChangeSets := h'.accountChangeSets.trans h.accountChangeSets
  storageChangeSets := h'.storageChangeSets.trans h.storageChangeSets
  receiptsMeta := h'.receiptsMeta.trans h.receiptsMeta

omit [Keccak256] in
theorem mono (h : OnlyIn addresses batch batch') (hsubset : addresses ⊆ addresses') :
    OnlyIn addresses' batch batch' where
  order := h.order
  database := h.database
  accounts other hother := h.accounts other fun hmem => hother (hsubset hmem)
  written other hother := h.written other fun hmem => hother (hsubset hmem)
  touched other hother := h.touched other fun hmem => hother (hsubset hmem)
  grows := h.grows
  accountChangeSets := h.accountChangeSets
  storageChangeSets := h.storageChangeSets
  receiptsMeta := h.receiptsMeta

end OnlyIn

/-! ## Writes -/

theorem recordAccount_live (hlive : Live strings batch) (address : Address) :
    Triple (· ∈ strings) (· = batch) (recordAccount address)
      fun _ batch' => ∃ originals, batch' = { batch with originalAccounts := originals } := by
  unfold recordAccount
  apply triple_read_bind
  rintro batch' rfl
  split
  next => exact triple_pure fun _ hbatch => ⟨_, hbatch⟩
  next =>
    apply triple_bind (account_live hlive address)
    intro old
    apply triple_modify
    rintro _ ⟨-, rfl⟩
    exact ⟨_, rfl⟩

theorem recordStorage_live (hlive : Live strings batch) (address : Address) (slot : B256) :
    Triple (· ∈ strings) (· = batch) (recordStorage address slot)
      fun _ batch' => ∃ originals, batch' = { batch with originalStorages := originals } := by
  unfold recordStorage
  apply triple_read_bind
  rintro batch' rfl
  split
  next => exact triple_pure fun _ hbatch => ⟨_, hbatch⟩
  next =>
    apply triple_bind (storage_live hlive address slot)
    intro old
    apply triple_modify
    rintro _ ⟨-, rfl⟩
    exact ⟨_, rfl⟩

theorem updateAccount_live (hlive : Live strings batch) (address : Address)
    (account : TrieAccount) :
    Triple (· ∈ strings) (· = batch) (updateAccount address account)
      fun _ batch' => (Live strings batch' ∧ OnlyIn [address] batch batch') ∧
        (batch'.written = batch.written ∧ batch'.tables.trieNodes = batch.tables.trieNodes ∧
          batch'.tables.bytecodes = batch.tables.bytecodes) ∧
        batch'.tables.accounts.get address = some account ∧ address ∈ batch'.touchedAccounts := by
  unfold updateAccount
  apply triple_bind (recordAccount_live hlive address)
  intro _
  apply triple_modify
  rintro _ ⟨originals, rfl⟩
  have hlive' := (hlive.withOriginals originals batch.originalStorages).setAccount address account
  refine ⟨⟨hlive', ?_⟩, ⟨rfl, rfl, rfl⟩, Table.get_insert_self _ _ _,
    mem_insertElement.mpr (.inl rfl)⟩
  refine ⟨rfl, rfl, fun other hother => ?_, fun _ _ => rfl, fun other hother => ?_,
    fun _ _ h => h, rfl, rfl, rfl⟩
  · exact Table.get_insert_of_ne account (by simpa using hother)
  · have hne : other ≠ address := by simpa using hother
    simp [mem_insertElement, hne]

/-- What a write to a slot does, the account that it may bring along included. -/
theorem updateStorage_live (hlive : Live strings batch) (address : Address) (slot : B256)
    (value : U256) :
    Triple (· ∈ strings) (· = batch) (updateStorage address slot value)
      fun _ batch' => (Live strings batch' ∧ OnlyIn [address] batch batch') ∧
        batch'.written address = Function.update (batch.written address) slot (some value) ∧
        (batch'.rowAt address = batch.rowAt address ∧
          batch'.tables.trieNodes = batch.tables.trieNodes ∧
          batch'.tables.bytecodes = batch.tables.bytecodes) := by
  unfold updateStorage
  apply triple_bind (recordStorage_live hlive address slot)
  intro _
  apply triple_of_exists_pre
  intro originals
  have hlive' := (hlive.withOriginals batch.originalAccounts originals).setSlot address slot value
  have hwritten := Live.written_setSlot batch address slot value
  have honly : OnlyIn [address] batch { batch with
      originalStorages := originals
      tables := batch.tables.updateStorage address slot value
      touchedStorages := insertEntry (address, slot) value batch.touchedStorages } := by
    refine ⟨rfl, rfl, fun _ _ => rfl, fun other hother => ?_, fun _ _ => .rfl, fun _ _ h => h,
      rfl, rfl, rfl⟩
    exact (hwritten other).trans (if_neg (by simpa using hother))
  apply triple_of_start
  rintro _ rfl
  apply triple_bind (triple_modify_eq _ _)
  intro _
  apply triple_read_bind
  rintro last rfl
  have hself := (hwritten address).trans (if_pos rfl)
  split
  next =>
    apply triple_pure
    rintro _ rfl
    exact ⟨⟨hlive', honly⟩, hself, rfl, rfl, rfl⟩
  next =>
    apply triple_bind (account_live hlive' address)
    intro found
    apply triple_of_pure_pre
    rintro rfl
    apply (updateAccount_live hlive' address _).weaken
    rintro _ last ⟨⟨hlast, honly'⟩, ⟨hsame, hnodes, hcodes⟩, hrow, -⟩
    refine ⟨⟨hlast, honly.trans honly'⟩, (congrFun hsame address).trans hself, ?_, hnodes, hcodes⟩
    simp only [BatchWriter.rowAt, hrow]
    rfl

/-! ## The slots of an account -/

/-- What is written once these slots are. -/
def writtenBy (written : B256 → Option U256) : List (B256 × B256) → B256 → Option U256
  | [] => written
  | (slot, value) :: rest =>
      writtenBy (Function.update written slot (some (wordToU256 value))) rest

omit [Keccak256] in
theorem writtenBy_eq (written : B256 → Option U256) {entries : List (B256 × B256)}
    (hnodup : (entries.map Prod.fst).Nodup) (slot : B256) :
    writtenBy written entries slot = ((entries.lookup slot).map wordToU256).or (written slot) := by
  induction entries generalizing written with
  | nil => rfl
  | cons entry rest ih =>
      obtain ⟨slot', value⟩ := entry
      rw [List.map_cons, List.nodup_cons] at hnodup
      rw [writtenBy, ih _ hnodup.2]
      by_cases hslot : slot = slot'
      · have habsent : rest.lookup slot = none := by
          rw [List.lookup_eq_none_iff]
          intro other hother
          have hne : slot ≠ other.1 := by
            intro heq
            exact hnodup.1 (List.mem_map.mpr ⟨other, hother, heq.symm.trans hslot⟩)
          simpa using hne
        rw [habsent, hslot]
        simp
      · simp [List.lookup_cons, beq_false_of_ne hslot, Function.update_of_ne hslot]

theorem writeGenesisSlots_live (hlive : Live strings batch) (address : Address)
    (entries : List (B256 × B256)) :
    Triple (· ∈ strings) (· = batch) (writeGenesisSlots address entries)
      fun _ batch' => (Live strings batch' ∧ OnlyIn [address] batch batch') ∧
        batch'.written address = writtenBy (batch.written address) entries ∧
        (batch'.rowAt address = batch.rowAt address ∧
          batch'.tables.trieNodes = batch.tables.trieNodes ∧
          batch'.tables.bytecodes = batch.tables.bytecodes) := by
  induction entries generalizing batch with
  | nil =>
      apply triple_pure
      rintro _ rfl
      exact ⟨⟨hlive, .refl _ _⟩, rfl, rfl, rfl, rfl⟩
  | cons entry rest ih =>
      unfold writeGenesisSlots
      apply triple_bind (updateStorage_live hlive address entry.1 _)
      intro _
      apply triple_of_start
      rintro batch' ⟨⟨hlive', honly⟩, hwritten, hrow, hnodes, hcodes⟩
      apply (ih hlive').weaken
      rintro _ last ⟨⟨hlast, honly'⟩, hwritten', hrow', hnodes', hcodes'⟩
      refine ⟨⟨hlast, honly.trans honly'⟩, ?_, hrow'.trans hrow, hnodes'.trans hnodes,
        hcodes'.trans hcodes⟩
      rw [hwritten', hwritten]
      rfl

variable {account : GenesisAccount} {address : Address} {f : Nibbles → Option Bytes}

/-- Each slot is brought to what the account was given there. -/
theorem writeSlots_live (hstrings : CollisionFree strings) (hlive : Live strings batch)
    (hslots : account.SlotsIn strings) (hwritten : batch.written address = account.given)
    {slots : List B256} (hgiven : ∀ slot ∈ slots, account.given slot ≠ none) {trie : EthTrie}
    (hwithin : Within f account.slotMap)
    (hopened : CanonOpened strings batch.tables.trieNodes f trie) :
    Triple (· ∈ strings) (· = batch) (writeSlots address none trie slots)
      fun trie' batch' => CanonOpened strings batch.tables.trieNodes
        (settleAll f account.slotMap (slots.map fun slot => keccak256 slot.bytes)) trie' ∧
        batch' = batch := by
  induction slots generalizing f trie with
  | nil => exact triple_pure fun _ hbatch => ⟨hopened, hbatch⟩
  | cons slot rest ih =>
      unfold writeSlots
      apply triple_bind (hashed_spec slot.bytes)
      intro key
      apply triple_of_pure_pre
      rintro ⟨rfl, hslot⟩
      apply triple_bind (storage_live hlive address slot)
      intro value
      apply triple_of_pure_pre
      intro hvalue
      obtain ⟨given, hsome⟩ := Option.ne_none_iff_exists'.mp (hgiven slot (by simp))
      have hentry := GenesisAccount.slotMap_key hstrings hslots hslot
      obtain rfl : value = given := by
        rw [hvalue, hlive.storages, hwritten, hsome]
        exact getD_storedSlot given
      rw [hsome, Option.bind_some] at hentry
      have hwrite : Triple (· ∈ strings) (· = batch)
          (withTrie trie (if value = 0 then EthTrie.delete (keccak256 slot.bytes)
            else EthTrie.insert (keccak256 slot.bytes) (encodeU256 value)))
          fun found batch' => CanonOpened strings batch.tables.trieNodes
            (settle f account.slotMap (keccak256 slot.bytes)) found.2 ∧ batch' = batch := by
        unfold slotValue at hentry
        split at hentry
        next hzero =>
          rw [if_pos hzero]
          exact delete_canonOpened hstrings hwithin hopened _ hentry
        next hzero =>
          rw [if_neg hzero]
          exact insert_canonOpened hstrings hwithin GenesisAccount.supported_slotMap hopened _
            hentry
      apply triple_bind hwrite
      intro found
      apply triple_of_pure_pre
      intro hopened'
      exact ih (fun other hother => hgiven other (by simp [hother])) (hwithin.settle _) hopened'

/-- The storage trie comes out complete from any beginning of it. -/
theorem calculateStorageRoot_live (hstrings : CollisionFree strings) (hlive : Live strings batch)
    (hslots : account.SlotsIn strings) (hwritten : batch.written address = account.given)
    (hwithin : Within f account.slotMap)
    (hroot : CanonAt batch.tables.trieNodes (batch.rowAt address).storageRoot f) :
    Triple (· ∈ strings) (· = batch) (calculateStorageRoot address none)
      fun root batch' => root = account.storageRoot ∧ ∃ nodes,
        batch' = { batch with tables := { batch.tables with trieNodes := nodes } } ∧
        Keyed strings nodes ∧ Grows batch.tables.trieNodes nodes ∧
        CanonAt nodes account.storageRoot account.slotMap := by
  unfold calculateStorageRoot
  apply triple_read_bind
  rintro batch' rfl
  have hbase : Option.or none batch'.baseStateRoot = none := hlive.base
  have hreset : address ∉ batch'.resettedStorages := by simp [hlive.reset]
  dsimp only
  rw [if_neg hreset, hbase]
  apply triple_bind (account_live hlive address)
  intro found
  apply triple_of_pure_pre
  rintro rfl
  apply triple_bind (Q := fun initial last =>
    initial = (batch'.rowAt address).storageRoot ∧ last = batch')
  · apply triple_pure
    intro _ hbatch
    refine ⟨?_, hbatch⟩
    unfold BatchWriter.rowAt
    cases batch'.tables.accounts.get address <;> rfl
  intro initial
  apply triple_of_pure_pre
  rintro rfl
  have hmem : ∀ slot, slot ∈ ((batch'.order.slots (batch'.touchedStorages.map Prod.fst)).filter
      fun entry => entry.1 = address).map Prod.snd ↔ account.given slot ≠ none := by
    intro slot
    rw [mem_slots, hwritten]
  apply triple_bind (writeSlots_live hstrings hlive hslots hwritten
    (fun slot hslot => (hmem slot).mp hslot) hwithin
    (hroot.opened hstrings hlive.keyed (hwithin.supported GenesisAccount.supported_slotMap)))
  intro trie
  apply triple_of_pure_pre
  intro hopened
  rw [settleAll_eq hwithin] at hopened
  · obtain ⟨hkeyed, hgrows, hcanon⟩ := hopened.commit hstrings
    have heq : trie.rootHash = account.storageRoot :=
      hopened.root_eq.trans (GenesisAccount.storageRoot_eq hstrings hslots).symm
    unfold commitTrie
    apply triple_bind (triple_modify_eq _ _)
    intro _
    apply triple_pure
    intro _ hbatch
    exact ⟨heq, _, hbatch, hkeyed, hgrows, heq ▸ hcanon⟩
  · intro nibbles hnibbles
    obtain ⟨slot, hslot, rfl⟩ := GenesisAccount.exists_of_slotMap hstrings hslots hnibbles
    exact ⟨_, List.mem_map_of_mem ((hmem slot).mpr hslot), rfl⟩

/-! ## The accounts of the allocation -/

/-- An account that is still to be written: some of its slots may be in its
trie. -/
structure Unwritten (account : GenesisAccount) (address : Address) (batch : BatchWriter) : Prop where
  written : batch.written address = fun _ => none
  root : ∃ f, Within f account.slotMap ∧
    CanonAt batch.tables.trieNodes (batch.rowAt address).storageRoot f

/-- An account with its row and its trie. -/
structure Written (account : GenesisAccount) (address : Address) (batch : BatchWriter) : Prop where
  written : batch.written address = account.given
  row : batch.tables.accounts.get address = some account.trieAccount
  root : CanonAt batch.tables.trieNodes account.storageRoot account.slotMap
  touched : address ∈ batch.touchedAccounts

theorem Unwritten.frame {addresses : List Address} (h : Unwritten account address batch)
    (honly : OnlyIn addresses batch batch') (hother : address ∉ addresses) :
    Unwritten account address batch' := by
  obtain ⟨f, hwithin, hroot⟩ := h.root
  refine ⟨(honly.written _ hother).trans h.written, f, hwithin, ?_⟩
  unfold BatchWriter.rowAt at hroot ⊢
  rw [honly.accounts _ hother]
  exact hroot.mono honly.grows

theorem Written.frame {addresses : List Address} (h : Written account address batch)
    (honly : OnlyIn addresses batch batch') (hother : address ∉ addresses) :
    Written account address batch' where
  written := (honly.written _ hother).trans h.written
  row := (honly.accounts _ hother).trans h.row
  root := h.root.mono honly.grows
  touched := (honly.touched _ hother).mpr h.touched

/-- The codes once the one of an account is in the table. -/
def insertCode (code : Option Bytes) (codes : Table B256 Bytes) : Table B256 Bytes :=
  match code with
  | none => codes
  | some code => codes.insert (keccak256 code) code

theorem writeGenesisCode_live (account : GenesisAccount) :
    Triple (· ∈ strings) (· = batch) (writeGenesisCode account.code)
      fun hash batch' => hash = account.codeHash ∧ batch' = { batch with tables :=
        { batch.tables with bytecodes := insertCode account.code batch.tables.bytecodes } } := by
  unfold GenesisAccount.codeHash
  cases account.code with
  | none => exact triple_pure fun _ hbatch => ⟨rfl, hbatch⟩
  | some code =>
      apply triple_bind (hashed_spec code)
      intro hash
      apply triple_of_pure_pre
      rintro ⟨rfl, -⟩
      unfold insertBytecode
      apply triple_bind (triple_modify_eq _ _)
      intro _
      exact triple_pure fun _ hbatch => ⟨rfl, hbatch⟩

theorem writeGenesisAccount_live (hstrings : CollisionFree strings) (hlive : Live strings batch)
    (hslots : account.SlotsIn strings) (hunwritten : Unwritten account address batch) :
    Triple (· ∈ strings) (· = batch) (writeGenesisAccount address account)
      fun _ batch' => (Live strings batch' ∧ OnlyIn [address] batch batch') ∧
        Written account address batch' ∧
        batch'.tables.bytecodes = insertCode account.code batch.tables.bytecodes := by
  obtain ⟨f, hwithin, hroot⟩ := hunwritten.root
  unfold writeGenesisAccount
  apply triple_bind (writeGenesisSlots_live hlive address account.slots.entries)
  intro _
  apply triple_of_start
  rintro batch₁ ⟨⟨hlive₁, honly₁⟩, hwritten₁, hrow₁, hnodes₁, hcodes₁⟩
  have hgiven : batch₁.written address = account.given := by
    rw [hwritten₁, hunwritten.written]
    funext slot
    rw [writtenBy_eq _ account.slots.nodup, Option.or_none]
    rfl
  rw [← hnodes₁, ← hrow₁] at hroot
  apply triple_bind (calculateStorageRoot_live hstrings hlive₁ hslots hgiven hwithin hroot)
  intro root
  apply triple_of_start
  rintro _ ⟨rfl, nodes, rfl, hkeyed, hgrows, hcanon⟩
  apply triple_bind (writeGenesisCode_live account)
  intro codeHash
  apply triple_of_start
  rintro _ ⟨rfl, rfl⟩
  have hlive₃ := (hlive₁.withNodes hkeyed).withCodes
    (insertCode account.code batch₁.tables.bytecodes)
  apply (updateAccount_live hlive₃ address account.trieAccount).weaken
  rintro _ last ⟨⟨hlast, honly⟩, ⟨hwritten, hnodes, hcodes⟩, hrow, htouched⟩
  refine ⟨⟨hlast, OnlyIn.trans ?_ honly⟩, ⟨?_, hrow, ?_, htouched⟩, ?_⟩
  · exact honly₁.trans
      ⟨rfl, rfl, fun _ _ => rfl, fun _ _ => rfl, fun _ _ => .rfl, hgrows, rfl, rfl, rfl⟩
  · rw [hwritten]
    exact hgiven
  · rw [hnodes]
    exact hcanon
  · rw [hcodes, ← hcodes₁]

/-- The codes once those of all accounts are in the table. -/
def insertCodes (entries : List (Address × GenesisAccount)) (codes : Table B256 Bytes) :
    Table B256 Bytes :=
  entries.foldl (fun codes entry => insertCode entry.2.code codes) codes

theorem writeAlloc_live (hstrings : CollisionFree strings) (hlive : Live strings batch)
    {entries : List (Address × GenesisAccount)} (hnodup : (entries.map Prod.fst).Nodup)
    (hslots : ∀ entry ∈ entries, entry.2.SlotsIn strings)
    (hunwritten : ∀ entry ∈ entries, Unwritten entry.2 entry.1 batch) :
    Triple (· ∈ strings) (· = batch) (writeAlloc entries)
      fun _ batch' => (Live strings batch' ∧ OnlyIn (entries.map Prod.fst) batch batch') ∧
        (∀ entry ∈ entries, Written entry.2 entry.1 batch') ∧
        batch'.tables.bytecodes = insertCodes entries batch.tables.bytecodes := by
  induction entries generalizing batch with
  | nil =>
      apply triple_pure
      rintro _ rfl
      exact ⟨⟨hlive, .refl _ _⟩, by simp, rfl⟩
  | cons entry rest ih =>
      rw [List.map_cons, List.nodup_cons] at hnodup
      have hother : ∀ other ∈ rest, other.1 ∉ [entry.1] := by
        intro other hother hmem
        rw [List.mem_singleton] at hmem
        exact hnodup.1 (List.mem_map.mpr ⟨other, hother, hmem⟩)
      apply triple_bind (writeGenesisAccount_live hstrings hlive (hslots entry (by simp))
        (hunwritten entry (by simp)))
      intro _
      apply triple_of_start
      rintro batch' ⟨⟨hlive', honly⟩, hwritten, hcodes⟩
      apply (ih hlive' hnodup.2 (fun other hmem => hslots other (by simp [hmem]))
        fun other hmem => (hunwritten other (by simp [hmem])).frame honly (hother other hmem)).weaken
      rintro _ last ⟨⟨hlast, honly'⟩, hrest, hcodes'⟩
      refine ⟨⟨hlast, (honly.mono (by simp)).trans (honly'.mono (by simp))⟩, ?_, ?_⟩
      · intro other hmem
        rcases List.mem_cons.mp hmem with rfl | hmem
        · exact hwritten.frame honly' hnodup.1
        · exact hrest other hmem
      · rw [hcodes', hcodes]
        rfl

/-! ## The state trie -/

variable {eip161 : Bool} {alloc : BTreeMap Address GenesisAccount}

/-- An account as the state trie has it. -/
structure Settled (eip161 : Bool) (account : GenesisAccount) (address : Address)
    (batch : BatchWriter) : Prop where
  written : batch.written address = account.given
  row : batch.tables.accounts.get address = account.settled eip161
  root : CanonAt batch.tables.trieNodes account.storageRoot account.slotMap

theorem Settled.frame {addresses : List Address} (h : Settled eip161 account address batch)
    (honly : OnlyIn addresses batch batch') (hother : address ∉ addresses) :
    Settled eip161 account address batch' where
  written := (honly.written _ hother).trans h.written
  row := (honly.accounts _ hother).trans h.row
  root := h.root.mono honly.grows

omit [Keccak256] in
/-- A written row and what else follows leave everything but the row alone. -/
theorem onlyIn_rows {accounts : Table Address TrieAccount}
    (hother : ∀ other, other ≠ address →
      accounts.get other = batch.tables.accounts.get other) :
    OnlyIn [address] batch
      { batch with tables := { batch.tables with accounts := accounts } } := by
  refine ⟨rfl, rfl, fun other hmem => ?_, fun _ _ => rfl, fun _ _ => .rfl, fun _ _ h => h, rfl,
    rfl, rfl⟩
  exact hother other (by simpa using hmem)

/-- The step of the state trie for one account: its storage trie is gone
through once more, and its row and its leaf are brought to what they are to be. -/
theorem writeAccounts_cons_live (hstrings : CollisionFree strings) (halloc : AllocIn strings alloc)
    (hlive : Live strings batch) (hentry : (address, account) ∈ alloc.entries)
    (hwritten : Written account address batch) {trie : EthTrie}
    (hwithin : Within f (stateMap eip161 alloc))
    (hopened : CanonOpened strings batch.tables.trieNodes f trie) {rest : List Address}
    {Q : EthTrie → BatchWriter → Prop}
    (hrest : ∀ trie' batch', Live strings batch' → OnlyIn [address] batch batch' →
      Settled eip161 account address batch' →
      batch'.tables.bytecodes = batch.tables.bytecodes →
      CanonOpened strings batch'.tables.trieNodes
        (settle f (stateMap eip161 alloc) (keccak256 address.bytes)) trie' →
      Triple (· ∈ strings) (· = batch') (writeAccounts eip161 none trie' rest) Q) :
    Triple (· ∈ strings) (· = batch) (writeAccounts eip161 none trie (address :: rest)) Q := by
  have hslots := halloc.slots _ hentry
  have hleaf : stateMap eip161 alloc (unpack (keccak256 address.bytes)) = _ :=
    stateMap_key hstrings halloc (halloc.addresses _ hentry)
  rw [lookup_of_mem alloc.nodup hentry, Option.bind_some] at hleaf
  have hrow : (batch.rowAt address).storageRoot = account.storageRoot := by
    unfold BatchWriter.rowAt
    rw [hwritten.row]
    rfl
  unfold writeAccounts
  apply triple_bind (hashed_spec address.bytes)
  intro key
  apply triple_of_pure_pre
  rintro ⟨rfl, -⟩
  apply triple_bind (account_live hlive address)
  intro found
  apply triple_of_pure_pre
  rintro rfl
  rw [hwritten.row]
  apply triple_bind (calculateStorageRoot_live hstrings hlive hslots hwritten.written
    (.refl _) (hrow ▸ hwritten.root))
  intro storageRoot
  apply triple_of_start
  rintro _ ⟨rfl, nodes, rfl, hkeyed, hgrows, hcanon⟩
  have hopened' := hopened.mono hgrows hkeyed
  have hlive' := hlive.withNodes hkeyed
  have honly : OnlyIn [address] batch
      { batch with tables := { batch.tables with trieNodes := nodes } } :=
    ⟨rfl, rfl, fun _ _ => rfl, fun _ _ => rfl, fun _ _ => .rfl, hgrows, rfl, rfl, rfl⟩
  split
  next hvanishes =>
    have hsettled : account.settled eip161 = none := if_pos hvanishes
    rw [hsettled, Option.map_none] at hleaf
    apply triple_bind (delete_canonOpened hstrings hwithin hopened' _ hleaf)
    intro found
    apply triple_of_pure_pre
    intro hdeleted
    apply triple_bind (triple_modify_eq _ _)
    intro _
    have herase : ∀ other, other ≠ address → (batch.tables.accounts.erase address).get other =
        batch.tables.accounts.get other := by
      intro other hne
      rw [Table.get_erase, if_neg hne]
    refine hrest _ _ (hlive'.withRows hwritten.touched herase)
      (honly.trans (onlyIn_rows herase)) ⟨hwritten.written, ?_, hcanon⟩ rfl hdeleted
    rw [hsettled]
    exact (Table.get_erase ..).trans (if_pos rfl)
  next hstays =>
    have hsettled : account.settled eip161 = some account.leaf := if_neg hstays
    rw [hsettled, Option.map_some] at hleaf
    apply triple_bind (triple_modify_eq _ _)
    intro _
    refine triple_bind (insert_canonOpened hstrings hwithin supported_stateMap ?_ _ hleaf) ?_
    · exact hopened'
    intro found
    apply triple_of_pure_pre
    intro hinserted
    have hinsert : ∀ other, other ≠ address →
        (batch.tables.accounts.insert address account.leaf).get other =
          batch.tables.accounts.get other := by
      intro other hne
      exact Table.get_insert_of_ne _ hne
    refine hrest _ _ (hlive'.withRows hwritten.touched hinsert)
      (honly.trans (onlyIn_rows hinsert)) ⟨hwritten.written, ?_, hcanon⟩ rfl hinserted
    rw [hsettled]
    exact Table.get_insert_self _ _ _

/-- The accounts in the order of the writer, each of them once. -/
theorem writeAccounts_live (hstrings : CollisionFree strings) (halloc : AllocIn strings alloc)
    (hlive : Live strings batch) {addresses : List Address} (hnodup : addresses.Nodup)
    (hwritten : ∀ address ∈ addresses, ∃ account, (address, account) ∈ alloc.entries ∧
      Written account address batch) {trie : EthTrie}
    (hwithin : Within f (stateMap eip161 alloc))
    (hopened : CanonOpened strings batch.tables.trieNodes f trie) :
    Triple (· ∈ strings) (· = batch) (writeAccounts eip161 none trie addresses)
      fun trie' batch' => (Live strings batch' ∧ OnlyIn addresses batch batch') ∧
        (∀ address ∈ addresses, ∃ account, (address, account) ∈ alloc.entries ∧
          Settled eip161 account address batch') ∧
        batch'.tables.bytecodes = batch.tables.bytecodes ∧
        CanonOpened strings batch'.tables.trieNodes (settleAll f (stateMap eip161 alloc)
          (addresses.map fun address => keccak256 address.bytes)) trie' := by
  induction addresses generalizing batch f trie with
  | nil =>
      apply triple_pure
      rintro _ rfl
      exact ⟨⟨hlive, .refl _ _⟩, by simp, rfl, hopened⟩
  | cons address rest ih =>
      rw [List.nodup_cons] at hnodup
      obtain ⟨account, hentry, hself⟩ := hwritten address (by simp)
      apply writeAccounts_cons_live hstrings halloc hlive hentry hself hwithin hopened
      intro trie' batch' hlive' honly hsettled hcodes hopened'
      have hrest : ∀ other ∈ rest, ∃ account, (other, account) ∈ alloc.entries ∧
          Written account other batch' := by
        intro other hmem
        obtain ⟨account, hentry, hother⟩ := hwritten other (by simp [hmem])
        refine ⟨account, hentry, hother.frame honly fun heq => ?_⟩
        exact hnodup.1 (List.mem_singleton.mp heq ▸ hmem)
      apply (ih hlive' hnodup.2 hrest (hwithin.settle _) hopened').weaken
      rintro last batch'' ⟨⟨hlast, honly'⟩, hrest', hcodes', hopened''⟩
      refine ⟨⟨hlast, (honly.mono (by simp)).trans (honly'.mono (by simp))⟩, ?_,
        hcodes'.trans hcodes, hopened''⟩
      intro other hmem
      rcases List.mem_cons.mp hmem with rfl | hmem
      · exact ⟨account, hentry, hsettled.frame honly' hnodup.1⟩
      · exact hrest' other hmem

/-! ## The whole batch -/

/-- The state that an allocation leaves, over what was there before. -/
def genesisTables (eip161 : Bool) (alloc : BTreeMap Address GenesisAccount) (base : StateTables)
    (nodes : Table B256 Bytes) : StateTables :=
  { base with
    accounts := fun address =>
      match alloc.entries.lookup address with
      | some account => account.settled eip161
      | none => base.accounts.get address
    storages := fun entry =>
      match (alloc.entries.lookup entry.1).bind (·.given entry.2) with
      | some value => storedSlot value
      | none => base.storages.get entry
    bytecodes := insertCodes alloc.entries base.bytecodes
    trieNodes := nodes }

/-- The tries that an allocation leaves. -/
structure Complete (strings : Set Bytes) (eip161 : Bool) (alloc : BTreeMap Address GenesisAccount)
    (nodes : Table B256 Bytes) : Prop where
  keyed : Keyed strings nodes
  state : CanonAt nodes (YellowPaper.trie (stateLeaves eip161 alloc)) (stateMap eip161 alloc)
  storages : ∀ entry ∈ alloc.entries, CanonAt nodes entry.2.storageRoot entry.2.slotMap

/-- A database in which an allocation may be written: whatever of its tries is
there already is a beginning of what they are to become. -/
structure Receptive (strings : Set Bytes) (eip161 : Bool)
    (alloc : BTreeMap Address GenesisAccount) (latest : Option B256) (database : Database) :
    Prop where
  keyed : Keyed strings database.state.trieNodes
  state : ∃ f, Within f (stateMap eip161 alloc) ∧
    CanonAt database.state.trieNodes (latest.getD emptyRootHash) f
  storages : ∀ entry ∈ alloc.entries, ∃ f, Within f entry.2.slotMap ∧
    CanonAt database.state.trieNodes
      ((database.state.accounts.get entry.1).getD .blank).storageRoot f

variable {latest : Option B256} {database : Database} {order : Enumeration}

theorem receptive_empty (chain : ChainTables) :
    Receptive strings eip161 alloc none ⟨chain, emptyDatabase.state⟩ where
  keyed := by simp [Keyed, emptyDatabase]
  state := ⟨_, .none _, .empty _⟩
  storages _ _ := ⟨_, .none _, .empty _⟩

theorem live_beginBatch (hkeyed : Keyed strings database.state.trieNodes) :
    Live strings (beginBatch order database) :=
  ⟨rfl, rfl, hkeyed, List.nodup_nil, fun _ _ => rfl, fun _ _ => rfl⟩

/-- All rows of the last batch are what the allocation says. -/
theorem tables_eq {first last : BatchWriter}
    (honly : OnlyIn (alloc.entries.map Prod.fst) first last) (hlive : Live strings last)
    (hfirst : first.database.state = first.tables) (hnone : first.written = fun _ _ => none)
    (hsettled : ∀ entry ∈ alloc.entries, Settled eip161 entry.2 entry.1 last)
    (hcodes : last.tables.bytecodes = insertCodes alloc.entries first.tables.bytecodes) :
    last.tables = genesisTables eip161 alloc first.tables last.tables.trieNodes := by
  have habsent : ∀ address, alloc.entries.lookup address = none →
      address ∉ alloc.entries.map Prod.fst := by
    intro address hlookup hmem
    obtain ⟨entry, hentry, rfl⟩ := List.mem_map.mp hmem
    rw [lookup_of_mem alloc.nodup hentry] at hlookup
    cases hlookup
  have haccounts : last.tables.accounts = (genesisTables eip161 alloc first.tables
      last.tables.trieNodes).accounts := by
    ext1 address
    simp only [genesisTables]
    cases hlookup : alloc.entries.lookup address with
    | none =>
        rw [honly.accounts address (habsent address hlookup)]
        simp [Table.get, hlookup]
    | some account =>
        rw [(hsettled _ (mem_of_lookup hlookup)).row]
        simp [Table.get, hlookup]
  have hstorages : last.tables.storages = (genesisTables eip161 alloc first.tables
      last.tables.trieNodes).storages := by
    ext1 ⟨address, slot⟩
    rw [hlive.storages, honly.database, hfirst]
    simp only [genesisTables]
    cases hlookup : alloc.entries.lookup address with
    | none =>
        rw [honly.written address (habsent address hlookup), hnone]
        simp [Table.get, hlookup]
    | some account =>
        rw [(hsettled _ (mem_of_lookup hlookup)).written]
        cases hgiven : account.given slot <;> simp [Table.get, hlookup, hgiven]
  have hchanges := honly.accountChangeSets
  have hchanges' := honly.storageChangeSets
  have hmetas := honly.receiptsMeta
  cases htables : last.tables
  simp only [htables] at haccounts hstorages hcodes hchanges hchanges' hmetas ⊢
  simp only [genesisTables] at haccounts hstorages ⊢
  rw [haccounts, hstorages, hcodes, hchanges, hchanges', hmetas]

/-- All addresses of the allocation are touched, and no others. -/
theorem mem_touched {written : BatchWriter}
    (honly : OnlyIn (alloc.entries.map Prod.fst) (beginBatch order database) written)
    (hwritten : ∀ entry ∈ alloc.entries, Written entry.2 entry.1 written) (address : Address) :
    address ∈ written.order.accounts written.touchedAccounts ↔
      address ∈ alloc.entries.map Prod.fst := by
  rw [(written.order.accounts_perm _).mem_iff]
  constructor
  · intro htouched
    by_contra hother
    simpa [beginBatch] using (honly.touched address hother).mp htouched
  · intro haddress
    obtain ⟨entry, hentry, rfl⟩ := List.mem_map.mp haddress
    exact (hwritten entry hentry).touched

/-- What one batch makes of a database. -/
structure Founds (strings : Set Bytes) (eip161 : Bool) (alloc : BTreeMap Address GenesisAccount)
    (before after : StateTables) : Prop where
  tables : after = genesisTables eip161 alloc before after.trieNodes
  complete : Complete strings eip161 alloc after.trieNodes
  grows : Grows before.trieNodes after.trieNodes

/-- Once all accounts are written, the state trie comes out complete as well. -/
theorem calculateStateRootFrom_live (hstrings : CollisionFree strings)
    (halloc : AllocIn strings alloc) (hready : Receptive strings eip161 alloc latest database)
    {written : BatchWriter} (hlive : Live strings written)
    (honly : OnlyIn (alloc.entries.map Prod.fst) (beginBatch order database) written)
    (hwritten : ∀ entry ∈ alloc.entries, Written entry.2 entry.1 written)
    (hcodes : written.tables.bytecodes = insertCodes alloc.entries database.state.bytecodes) :
    Triple (· ∈ strings) (· = written) (calculateStateRootFrom latest eip161 none)
      fun root batch' => root = YellowPaper.trie (stateLeaves eip161 alloc) ∧
        Founds strings eip161 alloc database.state batch'.tables := by
  have hmem := mem_touched honly hwritten
  have hkeys : ∀ address ∈ written.order.accounts written.touchedAccounts, ∃ account,
      (address, account) ∈ alloc.entries ∧ Written account address written := by
    intro address haddress
    obtain ⟨entry, hentry, rfl⟩ := List.mem_map.mp ((hmem address).mp haddress)
    exact ⟨entry.2, hentry, hwritten entry hentry⟩
  obtain ⟨f, hwithin, hstate⟩ := hready.state
  have hopened := (hstate.mono honly.grows).opened hstrings hlive.keyed
    (hwithin.supported supported_stateMap)
  have hbase : Option.or none written.baseStateRoot = none := hlive.base
  unfold calculateStateRootFrom
  apply triple_read_bind
  rintro batch rfl
  dsimp only
  rw [hbase, Option.getD_none]
  apply triple_bind (writeAccounts_live hstrings halloc hlive
    ((batch.order.accounts_perm _).nodup_iff.mpr hlive.nodup) hkeys hwithin hopened)
  intro trie
  apply triple_of_start
  rintro last ⟨⟨hlast, honly'⟩, hsettled, hcodes', hopened'⟩
  rw [settleAll_eq hwithin] at hopened'
  · have hall : ∀ entry ∈ alloc.entries, Settled eip161 entry.2 entry.1 last := by
      intro entry hentry
      obtain ⟨account, haccount, hself⟩ :=
        hsettled entry.1 ((hmem _).mpr (List.mem_map_of_mem hentry))
      have hsame := lookup_of_mem alloc.nodup haccount
      rw [lookup_of_mem alloc.nodup hentry] at hsame
      rwa [Option.some.inj hsame]
    have hsince : OnlyIn (alloc.entries.map Prod.fst) (beginBatch order database) last :=
      honly.trans (honly'.mono fun address haddress => (hmem address).mp haddress)
    have htables := tables_eq hsince hlast rfl rfl hall (hcodes'.trans hcodes)
    have hroot : YellowPaper.trie (stateLeaves eip161 alloc) = _ :=
      trie_stateLeaves hstrings halloc
    obtain ⟨hkeyed, hgrows, hcanon⟩ := hopened'.commit hstrings
    rw [hopened'.root_eq, ← hroot] at hcanon
    unfold commitTrie
    apply triple_bind (triple_modify_eq _ _)
    intro _
    apply triple_pure
    rintro _ rfl
    refine ⟨hopened'.root_eq.trans hroot.symm, ?_, ⟨hkeyed, hcanon, ?_⟩,
      hsince.grows.trans hgrows⟩
    · dsimp only
      rw [htables]
      rfl
    · intro entry hentry
      exact (hall entry hentry).root.mono hgrows
  · intro nibbles hnibbles
    obtain ⟨entry, hentry, rfl⟩ := exists_of_stateMap hstrings halloc hnibbles
    exact ⟨_, List.mem_map_of_mem ((hmem _).mpr (List.mem_map_of_mem hentry)), rfl⟩

/-- The root of the state trie and all tables, from a database that has nothing
or has some of it already. -/
theorem writeGenesis_spec (hstrings : CollisionFree strings) (halloc : AllocIn strings alloc)
    (hready : Receptive strings eip161 alloc latest database) :
    Triple (· ∈ strings) (· = beginBatch order database)
      (writeGenesis latest eip161 alloc.entries)
      fun root batch' => root = YellowPaper.trie (stateLeaves eip161 alloc) ∧
        Founds strings eip161 alloc database.state batch'.tables := by
  unfold writeGenesis
  apply triple_bind (writeAlloc_live hstrings (live_beginBatch hready.keyed) alloc.nodup
    halloc.slots fun entry hentry => ⟨rfl, hready.storages entry hentry⟩)
  intro _
  apply triple_of_start
  rintro written ⟨⟨hlive, honly⟩, hwritten, hcodes⟩
  exact calculateStateRootFrom_live hstrings halloc hready hlive honly hwritten hcodes

/-! ## The first batch -/

/-- What the addresses and slots of an allocation are hashed from. -/
def BTreeMap.inputs (alloc : BTreeMap Address GenesisAccount) : List Bytes :=
  alloc.entries.flatMap fun entry =>
    entry.1.bytes :: entry.2.slots.entries.map fun slot => slot.1.bytes

omit [Keccak256] in
theorem allocIn_of_inputs (h : ∀ data ∈ alloc.inputs, data ∈ strings) : AllocIn strings alloc := by
  constructor
  · intro entry hentry
    apply h
    simp only [BTreeMap.inputs, List.mem_flatMap]
    exact ⟨entry, hentry, List.mem_cons_self⟩
  · intro entry hentry slot hslot
    apply h
    simp only [BTreeMap.inputs, List.mem_flatMap]
    exact ⟨entry, hentry, List.mem_cons_of_mem _ (List.mem_map.mpr ⟨slot, hslot, rfl⟩)⟩

/-- The batch of a genesis in an empty database. -/
def genesisBatch (order : Enumeration) (eip161 : Bool) (alloc : BTreeMap Address GenesisAccount) :
    Outcome BatchWriter Bytes String B256 :=
  writeGenesis none eip161 alloc.entries (beginBatch order emptyDatabase)

/-- The state root of a genesis block is the Yellow Paper's over the accounts
of the allocation, each with the Yellow Paper's root over its slots, and the
tables have these accounts and slots and no others. -/
theorem genesisBatch_root (order : Enumeration) (eip161 : Bool)
    (alloc : BTreeMap Address GenesisAccount)
    (hfree : Set.InjOn keccak256
      (runStrings ∅ (alloc.inputs ++ (genesisBatch order eip161 alloc).log))) :
    (genesisBatch order eip161 alloc).result = .ok (YellowPaper.trie (stateLeaves eip161 alloc)) ∧
      ∃ nodes, (genesisBatch order eip161 alloc).state.tables =
        genesisTables eip161 alloc emptyDatabase.state nodes := by
  have hstrings := collisionFree_runStrings hfree
  have halloc : AllocIn (runStrings ∅ (alloc.inputs ++ (genesisBatch order eip161 alloc).log))
      alloc := allocIn_of_inputs fun data hdata => .inr (.inl (List.mem_append_left _ hdata))
  obtain ⟨root, hresult, rfl, hfounds⟩ := writeGenesis_spec hstrings halloc
    (receptive_empty _) (beginBatch order emptyDatabase) rfl fun data hdata =>
      .inr (.inl (List.mem_append_right _ hdata))
  exact ⟨hresult, _, hfounds.tables⟩

end

section Keccak

attribute [local instance] keccak

/-- A contract with one of its two slots filled, and an account with nothing. -/
def sampleAlloc : BTreeMap Address GenesisAccount where
  entries :=
    [(Address.trailing 1, ⟨none, 5, some [0x60], some
        ⟨[(B256.leading 1, B256.trailing 7), (B256.leading 2, B256.zero)], by decide⟩⟩),
      (Address.trailing 2, ⟨none, 0, none, none⟩)]
  nodup := by decide

theorem genesisBatch_root_sampleAlloc :
    (genesisBatch .inOrder true sampleAlloc).result =
        .ok (YellowPaper.trie (stateLeaves true sampleAlloc)) ∧
      ∃ nodes, (genesisBatch .inOrder true sampleAlloc).state.tables =
        genesisTables true sampleAlloc emptyDatabase.state nodes :=
  genesisBatch_root .inOrder true sampleAlloc (injOn_runStrings_empty (by decide +kernel))

end Keccak

end WasixEth.Storage
