import WasixEth.Execution.Applying

/-! # The plain meaning of a changeset

A changeset says what the state is to be after it: what it deletes is gone,
what it lists is as it lists it, what it resets is zero and everything else is
as before. This is what an account and its slots read as afterwards, unless a
deletion or a reset meets a slot that is still in the overlay, an emptied
account has slots that were not reset, or an account has the zero code hash.
-/

namespace WasixEth

open Storage Routine BatchWriter

/-- The maps of a changeset have each key once. -/
structure OverlayedChangeSet.Maps (changes : OverlayedChangeSet) : Prop where
  balances : (changes.balances.map Prod.fst).Nodup
  nonces : (changes.nonces.map Prod.fst).Nodup
  codes : (changes.codes.map Prod.fst).Nodup
  storages : (changes.storages.map Prod.fst).Nodup

namespace StateApplier

/-! ## What a changeset says -/

/-- The changeset has a balance, a nonce or a code for the account. -/
def Lists (changes : OverlayedChangeSet) (address : Address) : Prop :=
  address ∈ changes.balances.map Prod.fst ∨ address ∈ changes.nonces.map Prod.fst ∨
    address ∈ changes.codes.map Prod.fst

def Mentions (changes : OverlayedChangeSet) (address : Address) : Prop :=
  Lists changes address ∨ address ∈ changes.storageResets ∨
    address ∈ changes.storages.map (fun entry => entry.1.1) ∨ address ∈ changes.touched ∨
    address ∈ changes.deletes

/-- The value of a slot: as listed, else zero if the account is reset, else as
before. -/
def plainSlot (changes : OverlayedChangeSet) (storages : Address → B256 → U256) (address : Address)
    (slot : B256) : U256 :=
  (changes.storages.lookup (address, slot)).getD
    (if address ∈ changes.storageResets then 0 else storages address slot)

section

variable [Keccak256]

/-- The fields of an account: as listed, else as before. -/
def plainAccount (changes : OverlayedChangeSet) (accounts : Address → Option TrieAccount)
    (address : Address) : TrieAccount :=
  let before := (accounts address).getD .blank
  { before with
    balance := (changes.balances.lookup address).getD before.balance
    nonce := (changes.nonces.lookup address).getD before.nonce
    codeHash := ((changes.codes.lookup address).map keccak256).getD before.codeHash }

def SameFields (account account' : TrieAccount) : Prop :=
  account.nonce = account'.nonce ∧ account.balance = account'.balance ∧
    account.codeHash = account'.codeHash

/-- Nothing is left of an account by the rules of EIP-161. -/
def Emptied (eip161 : Bool) (account : TrieAccount) : Prop :=
  eip161 = true ∧ isEmpty account = true

/-- What an account and one of its slots are to read as. -/
def PlainMeaning (changes : OverlayedChangeSet) (eip161 : Bool)
    (accounts : Address → Option TrieAccount) (storages : Address → B256 → U256)
    (address : Address) (slot : B256) (found : Option TrieAccount) (value : U256) : Prop :=
  (address ∈ changes.deletes → found = none ∧ value = 0) ∧
  (address ∉ changes.deletes → Mentions changes address →
    value = plainSlot changes storages address slot ∧
    (Emptied eip161 (plainAccount changes accounts address) → found = none) ∧
    (¬ Emptied eip161 (plainAccount changes accounts address) →
      SameFields (found.getD .blank) (plainAccount changes accounts address) ∧
      (Lists changes address ∨ accounts address ≠ none → found ≠ none))) ∧
  (¬ Mentions changes address → found = accounts address ∧ value = storages address slot)

/-- A deletion or a reset finds no value of the slot in the overlay, an account
that is emptied has no value in the slot below it, and the code hash of an
account that is written is not zero. -/
def Applicable (changes : OverlayedChangeSet) (eip161 : Bool)
    (accounts : Address → Option TrieAccount) (storages : Address → B256 → U256)
    (written : Address → B256 → Option U256) (address : Address) (slot : B256) : Prop :=
  (address ∈ changes.deletes → (overlaySlots changes.storages written address slot).getD 0 = 0) ∧
  (address ∉ changes.deletes → Mentions changes address →
    (changes.storages.lookup (address, slot) = none →
      (address ∈ changes.storageResets → (written address slot).getD 0 = 0) ∧
      (address ∉ changes.storageResets →
        Emptied eip161 (plainAccount changes accounts address) →
        written address slot = none → storages address slot = 0)) ∧
    (¬ Emptied eip161 (plainAccount changes accounts address) →
      (BlockProcessor.withCode (plainAccount changes accounts address)).codeHash =
        (plainAccount changes accounts address).codeHash))

/-! ## The accounts that are settled -/

omit [Keccak256] in
theorem mem_insertAddress {address other : Address} {addresses : List Address} :
    other ∈ insertAddress address addresses ↔ other = address ∨ other ∈ addresses := by
  induction addresses with
  | nil => simp [insertAddress]
  | cons first rest ih =>
      unfold insertAddress
      split
      next heq => simp [heq]
      next =>
          split
          next => simp
          next => simp [ih, or_left_comm]

omit [Keccak256] in
theorem mem_affectedAccounts (changes : OverlayedChangeSet) (address : Address) :
    address ∈ affectedAccounts changes ↔ Mentions changes address := by
  have hfold (named addresses : List Address) :
      address ∈ named.foldl (fun addresses address => insertAddress address addresses) addresses ↔
        address ∈ named ∨ address ∈ addresses := by
    induction named generalizing addresses with
    | nil => simp
    | cons first named ih =>
        rw [List.foldl_cons, ih, mem_insertAddress, List.mem_cons]
        tauto
  unfold affectedAccounts Mentions Lists
  rw [hfold]
  simp only [List.mem_append, List.not_mem_nil, or_false]
  tauto

/-! ## The account before it is settled -/

variable {changes : OverlayedChangeSet} {eip161 : Bool} {strings : Set Bytes} {root : B256}
  {accounts : Address → Option TrieAccount} {storages : Address → B256 → U256}

/-- What the first three passes leave. -/
def withFields (changes : OverlayedChangeSet) (accounts : Address → Option TrieAccount) :
    Address → Option TrieAccount :=
  setFields (fun code account => { account with codeHash := keccak256 code }) changes.codes
    (setFields (fun nonce account => { account with nonce }) changes.nonces
      (setFields (fun balance account => { account with balance }) changes.balances accounts))

omit [Keccak256] in
theorem lookup_eq_none_iff_notMem {β : Type} {address : Address} {entries : List (Address × β)} :
    entries.lookup address = none ↔ address ∉ entries.map Prod.fst := by
  refine ⟨fun hnone hmem => ?_, lookup_eq_none_of_notMem⟩
  obtain ⟨entry, hentry, rfl⟩ := List.mem_map.mp hmem
  rw [List.lookup_eq_none_iff] at hnone
  simpa using hnone entry hentry

theorem withFields_of_not_lists (accounts : Address → Option TrieAccount) {address : Address}
    (h : ¬ Lists changes address) :
    withFields changes accounts address = accounts address ∧
      plainAccount changes accounts address = (accounts address).getD .blank := by
  simp only [Lists, not_or, ← lookup_eq_none_iff_notMem] at h
  obtain ⟨hbalance, hnonce, hcode⟩ := h
  simp [withFields, setFields, plainAccount, hbalance, hnonce, hcode]

theorem withFields_of_lists (accounts : Address → Option TrieAccount) {address : Address}
    (h : Lists changes address) :
    withFields changes accounts address = some (plainAccount changes accounts address) := by
  cases hbalance : changes.balances.lookup address <;>
    cases hnonce : changes.nonces.lookup address <;>
    cases hcode : changes.codes.lookup address
  case none.none.none =>
    refine absurd h ?_
    simp only [Lists, not_or, ← lookup_eq_none_iff_notMem]
    exact ⟨hbalance, hnonce, hcode⟩
  all_goals simp [withFields, setFields, plainAccount, hbalance, hnonce, hcode]

/-- An account that is settled is the one that the changeset says, or is not
there and was not there before. -/
theorem before_settling {accounts' : Address → Option TrieAccount}
    (h : Materializes (changes.storages.map fun entry => entry.1.1) (withFields changes accounts)
      accounts') (address : Address) :
    accounts' address = some (plainAccount changes accounts address) ∨
      accounts' address = none ∧ accounts address = none ∧ ¬ Lists changes address ∧
        plainAccount changes accounts address = .blank := by
  by_cases hlists : Lists changes address
  · have hfields := withFields_of_lists accounts hlists
    rcases h address with hsame | ⟨-, hnone, -⟩
    · exact .inl (hsame.trans hfields)
    · rw [hfields] at hnone
      cases hnone
  · obtain ⟨hfields, hplain⟩ := withFields_of_not_lists accounts hlists
    rcases h address with hsame | ⟨-, hnone, hblank⟩
    · rw [hsame, hfields, hplain]
      cases accounts address with
      | none => exact .inr ⟨rfl, rfl, hlists, rfl⟩
      | some found => exact .inl rfl
    · rw [hfields] at hnone
      rw [hblank, hplain, hnone]
      exact .inl rfl

theorem isEmpty_eq (account : TrieAccount) :
    isEmpty account = isAccountEmpty (BlockProcessor.withCode account) := by
  unfold isEmpty isAccountEmpty BlockProcessor.withCode
  by_cases hcode : account.codeHash = B256.zero
  · simp [hcode]
  · simp [hcode]

theorem emptied_iff (account : TrieAccount) :
    Emptied eip161 account ↔
      (eip161 && isAccountEmpty (BlockProcessor.withCode account)) = true := by
  rw [Emptied, isEmpty_eq, Bool.and_eq_true]

/-! ## One account and one slot -/

variable {batch : BatchWriter} {address : Address} {slot : B256}

omit [Keccak256] in
/-- A slot of an account that stays is right unless a reset left it behind. -/
theorem setSlots_eq_plainSlot_iff (written : Address → B256 → Option U256) :
    setSlots changes.storages (resetSlots changes.storageResets written storages) address slot =
        plainSlot changes storages address slot ↔
      (changes.storages.lookup (address, slot) = none → address ∈ changes.storageResets →
        (written address slot).getD 0 = 0) := by
  unfold setSlots resetSlots plainSlot
  cases changes.storages.lookup (address, slot) with
  | some value => simp
  | none =>
      by_cases hreset : address ∈ changes.storageResets
      · simp [hreset]
      · simp [hreset]

/-- Only the overlay is left of the slots of an account that is emptied. -/
theorem overlaySlots_eq_plainSlot_iff (hview : View strings root accounts storages batch) :
    (overlaySlots changes.storages batch.written address slot).getD 0 =
        plainSlot changes storages address slot ↔
      (changes.storages.lookup (address, slot) = none →
        (address ∈ changes.storageResets → (batch.written address slot).getD 0 = 0) ∧
        (address ∉ changes.storageResets → batch.written address slot = none →
          storages address slot = 0)) := by
  unfold overlaySlots plainSlot
  cases changes.storages.lookup (address, slot) with
  | some value => simp
  | none =>
      by_cases hreset : address ∈ changes.storageResets
      · simp [hreset]
      · cases hwritten : batch.written address slot with
        | none =>
            rw [Option.or_none, Option.getD_none, Option.getD_none, if_neg hreset]
            constructor
            · exact fun hzero _ => ⟨fun hmem => absurd hmem hreset, fun _ _ => hzero.symm⟩
            · exact fun hzero => ((hzero rfl).2 hreset rfl).symm
        | some value => simp [hreset, (hview.slots address).overlay slot value hwritten]

theorem plainMeaning_of_kept {found : Option TrieAccount} {value : U256}
    (hkept : address ∉ changes.deletes) (hmentions : Mentions changes address) :
    PlainMeaning changes eip161 accounts storages address slot found value ↔
      value = plainSlot changes storages address slot ∧
      (Emptied eip161 (plainAccount changes accounts address) → found = none) ∧
      (¬ Emptied eip161 (plainAccount changes accounts address) →
        SameFields (found.getD .blank) (plainAccount changes accounts address) ∧
        (Lists changes address ∨ accounts address ≠ none → found ≠ none)) := by
  simp only [PlainMeaning, hkept, hmentions, false_imp_iff, true_and, not_false_eq_true,
    true_imp_iff, not_true_eq_false, and_true]

theorem applicable_of_kept (hkept : address ∉ changes.deletes)
    (hmentions : Mentions changes address) (written : Address → B256 → Option U256) :
    Applicable changes eip161 accounts storages written address slot ↔
      (changes.storages.lookup (address, slot) = none →
        (address ∈ changes.storageResets → (written address slot).getD 0 = 0) ∧
        (address ∉ changes.storageResets →
          Emptied eip161 (plainAccount changes accounts address) →
          written address slot = none → storages address slot = 0)) ∧
      (¬ Emptied eip161 (plainAccount changes accounts address) →
        (BlockProcessor.withCode (plainAccount changes accounts address)).codeHash =
          (plainAccount changes accounts address).codeHash) := by
  simp only [Applicable, hkept, hmentions, false_imp_iff, true_and, not_false_eq_true,
    true_imp_iff]

/-- What is settled reads as the changeset says exactly if it is applicable. -/
theorem plainMeaning_iff_of_settles (hview : View strings root accounts storages batch)
    {accounts' : Address → Option TrieAccount} {found : Option TrieAccount} {values : B256 → U256}
    (hmaterializes : Materializes (changes.storages.map fun entry => entry.1.1)
      (withFields changes accounts) accounts')
    (hsettles : Settles changes eip161 address (accounts' address)
      (setSlots changes.storages (resetSlots changes.storageResets batch.written storages) address)
      (overlaySlots changes.storages batch.written address) found values)
    (hmentions : Mentions changes address) :
    PlainMeaning changes eip161 accounts storages address slot found (values slot) ↔
      Applicable changes eip161 accounts storages batch.written address slot := by
  cases hsettles with
  | deleted hdeleted => simp [PlainMeaning, Applicable, hdeleted, hmentions]
  | absent hkept hnone =>
      rcases before_settling hmaterializes address with hsome | ⟨-, haccount, hlists, hplain⟩
      · rw [hnone] at hsome
        cases hsome
      rw [plainMeaning_of_kept hkept hmentions, applicable_of_kept hkept hmentions,
        setSlots_eq_plainSlot_iff, hplain]
      constructor
      · rintro ⟨hslot, -⟩
        refine ⟨fun hlookup => ⟨hslot hlookup, fun _ _ hwritten => ?_⟩, fun _ => ?_⟩
        · exact (hview.slots address).zero slot hwritten (.inr (.inr haccount))
        · exact ite_self _
      · rintro ⟨hslot, -⟩
        refine ⟨fun hlookup => (hslot hlookup).1, fun _ => rfl, fun _ => ⟨⟨rfl, rfl, rfl⟩, ?_⟩⟩
        exact fun hthere => absurd hthere (not_or.mpr ⟨hlists, not_not.mpr haccount⟩)
  | emptied hkept hsome hempty =>
      rcases before_settling hmaterializes address with hplain | ⟨hnone, -⟩
      · rw [hplain] at hsome
        obtain rfl := Option.some.inj hsome
        have hemptied := (emptied_iff _).mpr hempty
        rw [plainMeaning_of_kept hkept hmentions, applicable_of_kept hkept hmentions,
          overlaySlots_eq_plainSlot_iff hview]
        simp [hemptied]
      · rw [hnone] at hsome
        cases hsome
  | kept hkept hsome hempty storageRoot =>
      rcases before_settling hmaterializes address with hplain | ⟨hnone, -⟩
      · rw [hplain] at hsome
        obtain rfl := Option.some.inj hsome
        have hemptied : ¬ Emptied eip161 (plainAccount changes accounts address) := by
          rw [emptied_iff, hempty]
          exact Bool.false_ne_true
        rw [plainMeaning_of_kept hkept hmentions, applicable_of_kept hkept hmentions,
          setSlots_eq_plainSlot_iff]
        simp [hemptied, SameFields, BlockProcessor.withCode]
      · rw [hnone] at hsome
        cases hsome

/-- An account that is not mentioned is left alone. -/
theorem plainMeaning_of_not_mentions {accounts' : Address → Option TrieAccount}
    (hmaterializes : Materializes (changes.storages.map fun entry => entry.1.1)
      (withFields changes accounts) accounts')
    (hmentions : ¬ Mentions changes address) (written : Address → B256 → Option U256) :
    PlainMeaning changes eip161 accounts storages address slot (accounts' address)
        (setSlots changes.storages (resetSlots changes.storageResets written storages)
          address slot) ∧
      Applicable changes eip161 accounts storages written address slot := by
  have hparts := hmentions
  simp only [Mentions, not_or] at hparts
  obtain ⟨hlists, hresets, hstorages, -, hdeletes⟩ := hparts
  have haccount : accounts' address = accounts address := by
    rcases hmaterializes address with hsame | ⟨hmem, -⟩
    · exact hsame.trans (withFields_of_not_lists accounts hlists).1
    · exact absurd hmem hstorages
  have hlookup : changes.storages.lookup (address, slot) = none := by
    refine lookup_eq_none_of_notMem fun hmem => hstorages ?_
    obtain ⟨entry, hentry, heq⟩ := List.mem_map.mp hmem
    exact List.mem_map.mpr ⟨entry, hentry, by rw [heq]⟩
  refine ⟨⟨fun hmem => absurd hmem hdeletes, fun _ hmem => absurd hmem hmentions, fun _ => ?_⟩,
    fun hmem => absurd hmem hdeletes, fun _ hmem => absurd hmem hmentions⟩
  refine ⟨haccount, ?_⟩
  rw [setSlots, hlookup, Option.getD_none, resetSlots, if_neg hresets]

/-! ## The whole changeset -/

variable {stateRoot : Option B256}

/-- What the batch shows once the accounts are settled. -/
theorem applyChangeset_spec (hstrings : CollisionFree strings)
    (hview : View strings root accounts storages batch) (hmaps : changes.Maps)
    (hroot : stateRoot = none ∨ stateRoot = some root)
    (hslots : ∀ entry ∈ changes.storages, entry.1.2.bytes ∈ strings) :
    Triple (· ∈ strings) (· = batch) (applyChangeset changes eip161 stateRoot)
      fun _ last => ∃ accounts' storages', View strings root accounts' storages' last ∧
        ∀ address slot,
          (PlainMeaning changes eip161 accounts storages address slot (accounts' address)
            (storages' address slot) ↔
          Applicable changes eip161 accounts storages batch.written address slot) := by
  have hshows : Shows strings root batch.written accounts storages batch := ⟨hview, rfl⟩
  unfold applyChangeset
  refine triple_bind ((applyBalances_spec hstrings hroot _ hmaps.balances).consequence
    (fun last hlast => by rw [hlast]; exact hshows) fun _ _ h => h) fun _ => ?_
  refine triple_bind (applyNonces_spec hstrings hroot _ hmaps.nonces) fun _ => ?_
  refine triple_bind (applyCodes_spec hstrings hroot _ hmaps.codes) fun _ => ?_
  refine triple_bind (applyResets_spec _) fun _ => ?_
  refine triple_bind (applyStorages_spec hstrings _ hmaps.storages hslots) fun _ => ?_
  refine triple_of_exists_pre fun accounts₅ => triple_of_pure_pre fun hmaterializes => ?_
  refine (settleAccounts_spec hstrings hroot _).weaken fun _ last hlast => ?_
  obtain ⟨accounts', storages', hsettled, hothers, hlast⟩ := hlast
  refine ⟨accounts', storages', hlast.view, fun address slot => ?_⟩
  by_cases hmentions : Mentions changes address
  · have hmem := (mem_affectedAccounts changes address).mpr hmentions
    exact plainMeaning_iff_of_settles hview hmaterializes (hsettled address hmem) hmentions
  · obtain ⟨haccount, hvalues⟩ := hothers address
      fun hmem => hmentions ((mem_affectedAccounts changes address).mp hmem)
    obtain ⟨hmeaning, happlicable⟩ :=
      plainMeaning_of_not_mentions hmaterializes hmentions batch.written
    rw [haccount, hvalues]
    exact ⟨fun _ => happlicable, fun _ => hmeaning⟩

/-- Apply a changeset, then read an account. -/
def accountAfter (changes : OverlayedChangeSet) (eip161 : Bool) (stateRoot : Option B256)
    (address : Address) : BatchM (Option TrieAccount) := do
  applyChangeset changes eip161 stateRoot
  account address stateRoot

/-- Apply a changeset, then read a slot. -/
def storageAfter (changes : OverlayedChangeSet) (eip161 : Bool) (stateRoot : Option B256)
    (address : Address) (slot : B256) : BatchM U256 := do
  applyChangeset changes eip161 stateRoot
  storage address slot stateRoot

/-- The strings that applying a changeset and the two reads must keep apart. -/
def changesetStrings (changes : OverlayedChangeSet) (eip161 : Bool) (stateRoot : Option B256)
    (batch : BatchWriter) (address : Address) (slot : B256) : Set Bytes :=
  runStrings batch.tables.trieNodes
    ((accountAfter changes eip161 stateRoot address batch).log ++
      (storageAfter changes eip161 stateRoot address slot batch).log ++
      (slot :: changes.storages.map fun entry => entry.1.2).map fun slot => slot.bytes)

/-- A changeset can be applied, and then an account and a slot read as it says
exactly if it is applicable there. -/
theorem applyChangeset_plain_iff (hmaps : changes.Maps)
    (hroot : stateRoot = none ∨ stateRoot = some root) (address : Address) (slot : B256)
    (hfree : Set.InjOn keccak256
      (changesetStrings changes eip161 stateRoot batch address slot))
    (hview : View (changesetStrings changes eip161 stateRoot batch address slot) root accounts
      storages batch) :
    ∃ found value, (accountAfter changes eip161 stateRoot address batch).result = .ok found ∧
      (storageAfter changes eip161 stateRoot address slot batch).result = .ok value ∧
      (PlainMeaning changes eip161 accounts storages address slot found value ↔
        Applicable changes eip161 accounts storages batch.written address slot) := by
  have hstrings : CollisionFree (changesetStrings changes eip161 stateRoot batch address slot) :=
    collisionFree_runStrings hfree
  have hnamed : ∀ slot' ∈ slot :: changes.storages.map fun entry => entry.1.2,
      slot'.bytes ∈ changesetStrings changes eip161 stateRoot batch address slot :=
    fun slot' hslot' => .inr (.inl (List.mem_append_right _ (List.mem_map_of_mem hslot')))
  have hslot := hnamed slot List.mem_cons_self
  have hpasses : Triple _ (· = batch) (applyChangeset changes eip161 stateRoot) _ :=
    applyChangeset_spec hstrings hview hmaps hroot fun entry hentry =>
      hnamed _ (List.mem_cons_of_mem _ (List.mem_map_of_mem hentry))
  have haccountLog : ∀ data ∈ (accountAfter changes eip161 stateRoot address batch).log,
      data ∈ changesetStrings changes eip161 stateRoot batch address slot := fun data hdata =>
    .inr (.inl (List.mem_append_left _ (List.mem_append_left _ hdata)))
  have hstorageLog : ∀ data ∈ (storageAfter changes eip161 stateRoot address slot batch).log,
      data ∈ changesetStrings changes eip161 stateRoot batch address slot := fun data hdata =>
    .inr (.inl (List.mem_append_left _ (List.mem_append_right _ hdata)))
  -- the changeset is applied by either run, and leaves both in the same state
  obtain ⟨accounts', storages', hview', hmeaning⟩ := hpasses.of_bind haccountLog
  have hstate := hpasses.reached.weaken fun _ _ hlast => hlast.2
  have hbase := or_base hroot hview'.base
  obtain ⟨found, hfound, rfl, -⟩ := triple_bind hstate
    (fun _ => account_spec hstrings hview' address hbase) batch rfl haccountLog
  obtain ⟨value, hvalue, rfl, -⟩ := triple_bind hstate
    (fun _ => storage_spec hstrings hview' address hslot hbase) batch rfl hstorageLog
  exact ⟨_, _, hfound, hvalue, hmeaning address slot⟩

end

/-! ## Two changesets -/

section Sample

variable [Keccak256]

/-- A changeset that pays an account that was not there. -/
def payment : OverlayedChangeSet := ⟨[], [(.trailing 1, 7)], [], [], [], [], [], []⟩

def deletion : OverlayedChangeSet := ⟨[], [], [], [], [], [], [], [.trailing 1]⟩

/-- A slot of the account has been written before the deletion. -/
def writtenBatch : BatchWriter :=
  (updateStorage (.trailing 1) (B256.ofNat 1) 5 emptyBatch).state

/-- Neither the payment nor the reads after it hash anything. -/
theorem changesetStrings_payment :
    changesetStrings payment true none emptyBatch (.trailing 1) (B256.ofNat 1) =
      runStrings ∅ [(B256.ofNat 1).bytes] := by
  simp [changesetStrings, accountAfter, storageAfter, applyChangeset, applyBalances, applyNonces,
    applyCodes, applyResets, applyStorages, payment, setField, getOrMaterializeAccount,
    affectedAccounts, insertAddress, settleAccounts, settleAccount, calculateStorageRoot,
    writeSlots, commitTrie, emptyBatch, beginBatch, emptyDatabase, Enumeration.inOrder, account,
    storage, updateAccount, recordAccount, insertEntry, insertElement,
    StateTables.updateAccount, isAccountEmpty, bind, Routine.bind, Routine.read, Routine.modify,
    pure, Routine.pure]

end Sample

section Keccak

attribute [local instance] keccak

theorem payment_plain :
    ∃ found value, (accountAfter payment true none (.trailing 1) emptyBatch).result = .ok found ∧
      (storageAfter payment true none (.trailing 1) (B256.ofNat 1) emptyBatch).result =
        .ok value ∧
      PlainMeaning payment true World.empty.accounts World.empty.storages (.trailing 1)
        (B256.ofNat 1) found value := by
  have hfree : Set.InjOn keccak256
      (changesetStrings payment true none emptyBatch (.trailing 1) (B256.ofNat 1)) := by
    rw [changesetStrings_payment]
    exact injOn_runStrings_empty (by decide +kernel)
  have hview := World.empty_at.view (collisionFree_runStrings hfree) fresh_emptyBatch
    fun hash data hget => by simp [emptyBatch, beginBatch, emptyDatabase] at hget
  obtain ⟨found, value, hfound, hvalue, hmeaning⟩ := applyChangeset_plain_iff
    (by constructor <;> simp [payment]) (.inl rfl) (.trailing 1) (B256.ofNat 1) hfree hview
  refine ⟨found, value, hfound, hvalue, hmeaning.mpr ?_⟩
  simp [Applicable, payment, plainAccount, World.empty, BatchWriter.written, emptyBatch,
    beginBatch, BlockProcessor.withCode, TrieAccount.blank]

/-- A slot that was written is still there after the deletion. -/
theorem deletion_read :
    (storageAfter deletion true none (.trailing 1) (B256.ofNat 1) writtenBatch).result = .ok 5 ∧
      ∀ accounts storages found, ¬ PlainMeaning deletion true accounts storages (.trailing 1)
        (B256.ofNat 1) found 5 := by
  refine ⟨?_, fun accounts storages found hmeaning => ?_⟩
  · simp [storageAfter, applyChangeset, applyBalances, applyNonces, applyCodes, applyResets,
      applyStorages, deletion, affectedAccounts, insertAddress, settleAccounts, settleAccount,
      writtenBatch, emptyBatch, beginBatch, emptyDatabase, account, storage, updateStorage,
      recordStorage, updateAccount, recordAccount, insertEntry, insertElement, removeAccount, bind,
      Routine.bind, Routine.read, Routine.modify, pure, Routine.pure]
  · have hzero := (hmeaning.1 List.mem_cons_self).2
    exact absurd hzero (by decide)

end Keccak

end StateApplier

end WasixEth
