import WasixEth.Execution.StateApplier
import WasixEth.Storage.OwnWrites

/-! # What the passes of a changeset do

Applying a changeset goes over balances, nonces, codes, resets and slots, and
then settles every account that was named. Each pass carries what the batch
shows to what it shows after it.
-/

namespace WasixEth

open Storage Routine BatchWriter

namespace StateApplier

section

variable [Keccak256]

/-- The batch shows these accounts and slots, with these slots in the overlay. -/
structure Shows (strings : Set Bytes) (root : B256) (written : Address → B256 → Option U256)
    (accounts : Address → Option TrieAccount) (storages : Address → B256 → U256)
    (batch : BatchWriter) : Prop where
  view : View strings root accounts storages batch
  written_eq : batch.written = written

variable {strings : Set Bytes} {root : B256} {written : Address → B256 → Option U256}
  {accounts : Address → Option TrieAccount} {storages : Address → B256 → U256}
  {batch batch' : BatchWriter} {stateRoot : Option B256} {address : Address}

omit [Keccak256] in
/-- A write that leaves the slots of its account alone leaves all slots alone. -/
theorem written_of_writes {account : Option TrieAccount} {slots : B256 → Option U256}
    (hwrites : Writes address account slots batch batch') :
    batch'.written = Function.update batch.written address slots := by
  funext other
  by_cases hother : other = address
  · rw [hother, hwrites.self_written, Function.update_self]
  · rw [hwrites.written other hother, Function.update_of_ne hother]

theorem triple_of_shows {α : Type} {m : BatchM α} {Q : α → BatchWriter → Prop}
    (h : ∀ batch, Shows strings root written accounts storages batch →
      Triple (· ∈ strings) (· = batch) m Q) :
    Triple (· ∈ strings) (Shows strings root written accounts storages) m Q :=
  fun batch hshows hlog => h batch hshows batch rfl hlog

omit [Keccak256] in
theorem or_base (hroot : stateRoot = none ∨ stateRoot = some root)
    (hbase : batch.baseStateRoot = some root) : stateRoot.or batch.baseStateRoot = some root := by
  rcases hroot with rfl | rfl
  · exact hbase
  · rfl

/-! ## Fields of accounts -/

/-- What a pass over one field makes of the accounts. -/
def setFields {β : Type} (change : β → TrieAccount → TrieAccount) (entries : List (Address × β))
    (accounts : Address → Option TrieAccount) (address : Address) : Option TrieAccount :=
  match entries.lookup address with
  | none => accounts address
  | some value => some (change value ((accounts address).getD .blank))

omit [Keccak256] in
theorem lookup_eq_none_of_notMem {α β : Type} [BEq α] [LawfulBEq α] {key : α}
    {entries : List (α × β)}
    (h : key ∉ entries.map Prod.fst) : entries.lookup key = none := by
  rw [List.lookup_eq_none_iff]
  rintro ⟨other, value⟩ hentry
  simp only [bne_iff_ne]
  rintro rfl
  exact h (List.mem_map_of_mem hentry)

theorem setFields_cons {β : Type} (change : β → TrieAccount → TrieAccount) (address : Address)
    (value : β) {entries : List (Address × β)} (hnew : address ∉ entries.map Prod.fst) :
    setFields change entries
        (Function.update accounts address (some (change value ((accounts address).getD .blank)))) =
      setFields change ((address, value) :: entries) accounts := by
  funext other
  unfold setFields
  by_cases hother : other = address
  · subst hother
    have hnone := lookup_eq_none_of_notMem hnew
    simp [hnone]
  · simp [List.lookup_cons, hother, beq_false_of_ne hother]

/-- An account is written with the storage root that it was read with. -/
theorem shows_updateAccount (hstrings : CollisionFree strings)
    (hshows : Shows strings root written accounts storages batch) (address : Address)
    {account : TrieAccount}
    (hkeeps : account.storageRoot = ((accounts address).getD .blank).storageRoot) :
    Triple (· ∈ strings) (· = batch) (updateAccount address account)
      fun _ => Shows strings root written (Function.update accounts address (some account))
        storages := by
  refine (updateAccount_spec hstrings hshows.view address account).weaken fun _ last hwrites => ?_
  refine ⟨hshows.view.update hwrites fun hreset => ?_, ?_⟩
  · rw [hkeeps]
    exact (hshows.view.slots address).exists_slotsAt hreset
  · rw [written_of_writes hwrites, Function.update_eq_self]
    exact hshows.written_eq

theorem getOrMaterializeAccount_spec (hstrings : CollisionFree strings)
    (hshows : Shows strings root written accounts storages batch)
    (hroot : stateRoot = none ∨ stateRoot = some root) (address : Address) :
    Triple (· ∈ strings) (· = batch) (getOrMaterializeAccount address stateRoot)
      fun found last => found = (accounts address).getD .blank ∧ last = batch := by
  unfold getOrMaterializeAccount
  refine triple_bind (account_spec hstrings hshows.view address
    (or_base hroot hshows.view.base)) fun found => triple_of_pure_pre fun hfound => ?_
  exact triple_pure fun _ hlast => ⟨hfound ▸ rfl, hlast⟩

theorem setField_spec (hstrings : CollisionFree strings)
    (hroot : stateRoot = none ∨ stateRoot = some root) (address : Address)
    {change : TrieAccount → TrieAccount}
    (hkeeps : ∀ account, (change account).storageRoot = account.storageRoot) :
    Triple (· ∈ strings) (Shows strings root written accounts storages)
      (setField stateRoot address change)
      fun _ => Shows strings root written
        (Function.update accounts address (some (change ((accounts address).getD .blank))))
        storages := by
  refine triple_of_shows fun batch hshows => ?_
  unfold setField
  refine triple_bind (getOrMaterializeAccount_spec hstrings hshows hroot address) fun found => ?_
  refine triple_of_pure_pre fun hfound => ?_
  subst hfound
  exact shows_updateAccount hstrings hshows address (hkeeps _)

theorem applyBalances_spec (hstrings : CollisionFree strings)
    (hroot : stateRoot = none ∨ stateRoot = some root) (entries : List (Address × U256))
    (hnodup : (entries.map Prod.fst).Nodup) :
    Triple (· ∈ strings) (Shows strings root written accounts storages)
      (applyBalances stateRoot entries)
      fun _ => Shows strings root written
        (setFields (fun balance account => { account with balance }) entries accounts)
        storages := by
  induction entries generalizing accounts with
  | nil => exact triple_pure fun _ hshows => hshows
  | cons entry entries ih =>
      obtain ⟨address, balance⟩ := entry
      obtain ⟨hnew, hrest⟩ := List.nodup_cons.mp hnodup
      unfold applyBalances
      refine triple_bind (setField_spec hstrings hroot address fun _ => rfl) fun _ => ?_
      rw [← setFields_cons _ address balance hnew]
      exact ih hrest

theorem applyNonces_spec (hstrings : CollisionFree strings)
    (hroot : stateRoot = none ∨ stateRoot = some root) (entries : List (Address × UInt64))
    (hnodup : (entries.map Prod.fst).Nodup) :
    Triple (· ∈ strings) (Shows strings root written accounts storages)
      (applyNonces stateRoot entries)
      fun _ => Shows strings root written
        (setFields (fun nonce account => { account with nonce }) entries accounts) storages := by
  induction entries generalizing accounts with
  | nil => exact triple_pure fun _ hshows => hshows
  | cons entry entries ih =>
      obtain ⟨address, nonce⟩ := entry
      obtain ⟨hnew, hrest⟩ := List.nodup_cons.mp hnodup
      unfold applyNonces
      refine triple_bind (setField_spec hstrings hroot address fun _ => rfl) fun _ => ?_
      rw [← setFields_cons _ address nonce hnew]
      exact ih hrest

theorem shows_insertBytecode
    (hshows : Shows strings root written accounts storages batch) (codeHash : B256)
    (code : Bytes) :
    Shows strings root written accounts storages { batch with tables := { batch.tables with
      bytecodes := batch.tables.bytecodes.insert codeHash code } } := by
  obtain ⟨⟨hkeyed, hbase, htouched, huntouched, hslots⟩, hwritten⟩ := hshows
  exact ⟨⟨hkeyed, hbase, htouched, huntouched, hslots⟩, hwritten⟩

theorem applyCodes_spec (hstrings : CollisionFree strings)
    (hroot : stateRoot = none ∨ stateRoot = some root) (entries : List (Address × Bytes))
    (hnodup : (entries.map Prod.fst).Nodup) :
    Triple (· ∈ strings) (Shows strings root written accounts storages)
      (applyCodes stateRoot entries)
      fun _ => Shows strings root written
        (setFields (fun code account => { account with codeHash := keccak256 code }) entries
          accounts) storages := by
  induction entries generalizing accounts with
  | nil => exact triple_pure fun _ hshows => hshows
  | cons entry entries ih =>
      obtain ⟨address, code⟩ := entry
      obtain ⟨hnew, hrest⟩ := List.nodup_cons.mp hnodup
      unfold applyCodes
      refine triple_of_shows fun batch hshows => ?_
      refine triple_bind (getOrMaterializeAccount_spec hstrings hshows hroot address)
        fun found => ?_
      refine triple_of_pure_pre fun hfound => ?_
      subst hfound
      refine triple_bind (hashed_spec code) fun codeHash => triple_of_pure_pre fun hcode => ?_
      obtain ⟨rfl, -⟩ := hcode
      refine triple_bind (Q := fun _ => Shows strings root written accounts storages)
        (triple_modify fun _ hlast => ?_) fun _ => ?_
      · subst hlast
        exact shows_insertBytecode hshows _ code
      · refine triple_bind (triple_of_shows fun last hlast =>
          shows_updateAccount hstrings hlast address rfl) fun _ => ?_
        rw [← setFields_cons _ address code hnew]
        exact ih hrest

/-! ## Slots -/

/-- What resets make of the slots: only the overlay is left. -/
def resetSlots (resets : List Address) (written : Address → B256 → Option U256)
    (storages : Address → B256 → U256) (address : Address) (slot : B256) : U256 :=
  if address ∈ resets then (written address slot).getD 0 else storages address slot

def setSlots (entries : List ((Address × B256) × U256)) (storages : Address → B256 → U256)
    (address : Address) (slot : B256) : U256 :=
  (entries.lookup (address, slot)).getD (storages address slot)

/-- The overlay once these slots are in it. -/
def overlaySlots (entries : List ((Address × B256) × U256))
    (written : Address → B256 → Option U256) (address : Address) (slot : B256) : Option U256 :=
  (entries.lookup (address, slot)).or (written address slot)

/-- Some of these accounts that were not there are blank now. -/
def Materializes (addresses : List Address) (accounts accounts' : Address → Option TrieAccount) :
    Prop :=
  ∀ address, accounts' address = accounts address ∨
    address ∈ addresses ∧ accounts address = none ∧ accounts' address = some .blank

theorem applyResets_spec (resets : List Address) :
    Triple (· ∈ strings) (Shows strings root written accounts storages) (applyResets resets)
      fun _ => Shows strings root written accounts (resetSlots resets written storages) := by
  induction resets generalizing storages with
  | nil => exact triple_pure fun _ hshows => hshows
  | cons address resets ih =>
      unfold applyResets
      refine triple_bind (Q := fun _ => Shows strings root written accounts
        (Function.update storages address fun slot => (written address slot).getD 0))
        (triple_modify fun batch hshows => ?_) fun _ => ?_
      · have hview := hshows.view.reset address
        rw [hshows.written_eq] at hview
        exact ⟨hview, hshows.written_eq⟩
      · have hnext : resetSlots resets written
            (Function.update storages address fun slot => (written address slot).getD 0) =
              resetSlots (address :: resets) written storages := by
          funext other slot
          unfold resetSlots
          by_cases hother : other = address
          · simp [hother]
          · simp [hother]
        rw [← hnext]
        exact ih

theorem Materializes.trans {addresses addresses' : List Address}
    {accounts' accounts'' : Address → Option TrieAccount}
    (h : Materializes addresses accounts accounts')
    (h' : Materializes addresses' accounts' accounts'') :
    Materializes (addresses ++ addresses') accounts accounts'' := by
  intro address
  rcases h' address with hsame' | ⟨hmem', hnone', hblank'⟩
  · rw [hsame']
    refine (h address).imp_right fun hnew => ?_
    exact ⟨List.mem_append_left _ hnew.1, hnew.2⟩
  · rcases h address with hsame | ⟨-, -, hblank⟩
    · exact .inr ⟨List.mem_append_right _ hmem', hsame ▸ hnone', hblank'⟩
    · rw [hblank] at hnone'
      cases hnone'

theorem materializes_updateStorage (batch : BatchWriter) (address : Address) :
    Materializes [address] accounts
      (Function.update accounts address (batch.materialized accounts address)) := by
  intro other
  by_cases hother : other = address
  · subst hother
    rw [Function.update_self]
    unfold BatchWriter.materialized
    split
    next => exact .inl rfl
    next =>
        cases haccount : accounts other with
        | none => exact .inr ⟨List.mem_cons_self, rfl, rfl⟩
        | some found => exact .inl rfl
  · exact .inl (Function.update_of_ne hother _ _)

omit [Keccak256] in
theorem update_slot {β : Type} (values : Address → B256 → β) (address other : Address)
    (slot slot' : B256) (value : β) :
    Function.update values address (Function.update (values address) slot value) other slot' =
      if (other, slot') = (address, slot) then value else values other slot' := by
  by_cases hother : other = address
  · subst hother
    by_cases hslot : slot' = slot
    · simp [hslot]
    · simp [hslot]
  · simp [hother]

theorem applyStorages_spec (hstrings : CollisionFree strings)
    (entries : List ((Address × B256) × U256)) (hnodup : (entries.map Prod.fst).Nodup)
    (hslots : ∀ entry ∈ entries, entry.1.2.bytes ∈ strings) :
    Triple (· ∈ strings) (Shows strings root written accounts storages) (applyStorages entries)
      fun _ last => ∃ accounts',
        Materializes (entries.map fun entry => entry.1.1) accounts accounts' ∧
        Shows strings root (overlaySlots entries written) accounts' (setSlots entries storages)
          last := by
  induction entries generalizing written accounts storages with
  | nil => exact triple_pure fun _ hshows => ⟨accounts, fun _ => .inl rfl, hshows⟩
  | cons entry entries ih =>
      obtain ⟨⟨address, slot⟩, value⟩ := entry
      obtain ⟨hnew, hrest⟩ := List.nodup_cons.mp hnodup
      have hnone : entries.lookup (address, slot) = none := lookup_eq_none_of_notMem hnew
      have hwritten : overlaySlots entries (Function.update written address
          (Function.update (written address) slot (some value))) =
            overlaySlots (((address, slot), value) :: entries) written := by
        funext other slot'
        unfold overlaySlots
        rw [update_slot, List.lookup_cons]
        split
        next hkey => simp [hkey, hnone]
        next hkey => rw [beq_false_of_ne hkey]
      have hstorages : setSlots entries (Function.update storages address
          (Function.update (storages address) slot value)) =
            setSlots (((address, slot), value) :: entries) storages := by
        funext other slot'
        unfold setSlots
        rw [update_slot, List.lookup_cons]
        split
        next hkey => simp [hkey, hnone]
        next hkey => rw [beq_false_of_ne hkey]
      unfold applyStorages
      refine triple_of_shows fun batch hshows => ?_
      refine triple_bind (updateStorage_spec hstrings hshows.view address
        (hslots _ List.mem_cons_self) value) fun _ last hwrites => ?_
      have hlast : Shows strings root
          (Function.update written address (Function.update (written address) slot (some value)))
          (Function.update accounts address (batch.materialized accounts address))
          (Function.update storages address (Function.update (storages address) slot value))
          last := by
        refine ⟨hshows.view.setSlot hwrites, ?_⟩
        rw [written_of_writes hwrites, hshows.written_eq]
      have hrun := ih hrest (fun entry hentry => hslots entry (List.mem_cons_of_mem _ hentry))
        last hlast
      rw [hwritten, hstorages] at hrun
      refine fun hlog => (hrun hlog).imp fun _ hdone => ⟨hdone.1, ?_⟩
      obtain ⟨-, accounts', hmaterializes, hdone⟩ := hdone
      exact ⟨accounts', (materializes_updateStorage batch address).trans hmaterializes, hdone⟩

/-! ## Settling -/

/-- What becomes of an account and its slots when it is settled. -/
inductive Settles (changes : OverlayedChangeSet) (eip161 : Bool) (address : Address)
    (before : Option TrieAccount) (values : B256 → U256) (slots : B256 → Option U256) :
    Option TrieAccount → (B256 → U256) → Prop
  | deleted (hdeleted : address ∈ changes.deletes) :
      Settles changes eip161 address before values slots none fun slot => (slots slot).getD 0
  | absent (hkept : address ∉ changes.deletes) (hbefore : before = none) :
      Settles changes eip161 address before values slots none values
  | emptied (hkept : address ∉ changes.deletes) {found : TrieAccount}
      (hbefore : before = some found)
      (hempty : (eip161 && isAccountEmpty (BlockProcessor.withCode found)) = true) :
      Settles changes eip161 address before values slots none fun slot => (slots slot).getD 0
  | kept (hkept : address ∉ changes.deletes) {found : TrieAccount}
      (hbefore : before = some found)
      (hempty : (eip161 && isAccountEmpty (BlockProcessor.withCode found)) = false)
      (storageRoot : B256) :
      Settles changes eip161 address before values slots
        (some { BlockProcessor.withCode found with storageRoot }) values

variable {changes : OverlayedChangeSet} {eip161 : Bool}

theorem isAccountEmpty_blank : isAccountEmpty TrieAccount.blank = true := by
  simp [isAccountEmpty, TrieAccount.blank]

theorem withCode_withCode (account : TrieAccount) (storageRoot : B256) :
    BlockProcessor.withCode { BlockProcessor.withCode account with storageRoot } =
      { BlockProcessor.withCode account with storageRoot } := by
  unfold BlockProcessor.withCode
  dsimp only
  split <;> simp_all

/-- An account that is settled twice is settled. -/
theorem Settles.trans {before middle after : Option TrieAccount}
    {values values' values'' : B256 → U256}
    {slots : B256 → Option U256}
    (h : Settles changes eip161 address before values slots middle values')
    (h' : Settles changes eip161 address middle values' slots after values'') :
    Settles changes eip161 address before values slots after values'' := by
  cases h with
  | deleted hdeleted =>
      cases h' with
      | deleted => exact .deleted hdeleted
      | absent hkept => exact absurd hdeleted hkept
      | emptied hkept => exact absurd hdeleted hkept
      | kept hkept => exact absurd hdeleted hkept
  | absent hkept hbefore =>
      cases h' with
      | deleted hdeleted => exact absurd hdeleted hkept
      | absent => exact .absent hkept hbefore
      | emptied _ hmiddle => cases hmiddle
      | kept _ hmiddle => cases hmiddle
  | emptied hkept hbefore hempty =>
      cases h' with
      | deleted hdeleted => exact absurd hdeleted hkept
      | absent => exact .emptied hkept hbefore hempty
      | emptied _ hmiddle => cases hmiddle
      | kept _ hmiddle => cases hmiddle
  | kept hkept hbefore hempty storageRoot =>
      cases h' with
      | deleted hdeleted => exact absurd hdeleted hkept
      | absent _ hmiddle => cases hmiddle
      | emptied _ hmiddle hempty' =>
          obtain rfl := Option.some.inj hmiddle
          rw [withCode_withCode] at hempty'
          exact absurd (hempty.symm.trans hempty') Bool.false_ne_true
      | kept _ hmiddle _ storageRoot' =>
          obtain rfl := Option.some.inj hmiddle
          rw [withCode_withCode]
          exact .kept hkept hbefore hempty storageRoot'

theorem shows_removeAccount (hstrings : CollisionFree strings)
    (hshows : Shows strings root written accounts storages batch) (address : Address) :
    Triple (· ∈ strings) (· = batch) (removeAccount address)
      fun _ => Shows strings root written (Function.update accounts address none)
        (Function.update storages address fun slot => (written address slot).getD 0) := by
  refine (removeAccount_spec hstrings hshows.view address).weaken fun _ last hwrites => ?_
  have hview := hshows.view.remove hwrites
  rw [hshows.written_eq] at hview
  refine ⟨hview, ?_⟩
  rw [written_of_writes hwrites, Function.update_eq_self]
  exact hshows.written_eq

/-- An account is written with the root of exactly its slots. -/
theorem shows_settled (hstrings : CollisionFree strings)
    (hshows : Shows strings root written accounts storages batch) (address : Address)
    {account : TrieAccount}
    (hslots : SlotsAt strings batch.tables.trieNodes account.storageRoot (storages address)) :
    Triple (· ∈ strings) (· = batch) (updateAccount address account)
      fun _ => Shows strings root written (Function.update accounts address (some account))
        storages := by
  refine (updateAccount_spec hstrings hshows.view address account).weaken fun _ last hwrites => ?_
  refine ⟨hshows.view.update hwrites fun _ => ⟨_, hslots, fun _ _ => rfl⟩, ?_⟩
  rw [written_of_writes hwrites, Function.update_eq_self]
  exact hshows.written_eq

/-- An account whose storage root has been calculated is removed or written. -/
theorem writeSettled_spec (hstrings : CollisionFree strings)
    (hshows : Shows strings root written accounts storages batch)
    (hkept : address ∉ changes.deletes) {found : TrieAccount} {storageRoot : B256}
    (hfound : accounts address = some found)
    (hslots : SlotsAt strings batch.tables.trieNodes storageRoot (storages address)) :
    Triple (· ∈ strings) (· = batch)
      (if eip161 && isAccountEmpty { BlockProcessor.withCode found with storageRoot } then
        removeAccount address
      else updateAccount address { BlockProcessor.withCode found with storageRoot })
      fun _ last => ∃ account values,
        Settles changes eip161 address (accounts address) (storages address) (written address)
          account values ∧
        Shows strings root written (Function.update accounts address account)
          (Function.update storages address values) last := by
  split
  next hempty =>
      refine (shows_removeAccount hstrings hshows address).weaken fun _ last hlast => ?_
      exact ⟨none, _, .emptied hkept hfound hempty, hlast⟩
  next hempty =>
      refine (shows_settled hstrings hshows address hslots).weaken fun _ last hlast => ?_
      refine ⟨_, storages address, .kept hkept hfound (Bool.eq_false_of_not_eq_true hempty)
        storageRoot, ?_⟩
      rw [Function.update_eq_self]
      exact hlast

theorem settleAccount_spec (hstrings : CollisionFree strings)
    (hroot : stateRoot = none ∨ stateRoot = some root) (address : Address) :
    Triple (· ∈ strings) (Shows strings root written accounts storages)
      (settleAccount changes eip161 stateRoot address)
      fun _ last => ∃ account values,
        Settles changes eip161 address (accounts address) (storages address) (written address)
          account values ∧
        Shows strings root written (Function.update accounts address account)
          (Function.update storages address values) last := by
  refine triple_of_shows fun batch hshows => ?_
  have hread := account_spec hstrings hshows.view address (or_base hroot hshows.view.base)
  unfold settleAccount
  split
  next hdeleted =>
      refine triple_bind hread fun _ => triple_of_pure_pre fun _ => ?_
      refine (shows_removeAccount hstrings hshows address).weaken fun _ last hlast => ?_
      exact ⟨none, _, .deleted hdeleted, hlast⟩
  next hkept =>
      refine triple_bind hread fun found => triple_of_pure_pre fun hfound => ?_
      cases found with
      | none =>
          dsimp only
          rw [if_pos isAccountEmpty_blank]
          refine triple_pure fun last hlast => ⟨none, _, .absent hkept hfound.symm, ?_⟩
          subst hlast
          rwa [hfound, Function.update_eq_self, Function.update_eq_self]
      | some found =>
          dsimp only
          refine triple_bind (calculateStorageRoot_spec hstrings hshows.view address
            (or_base hroot hshows.view.base)) fun storageRoot => ?_
          refine triple_of_exists_pre fun nodes last hlast => ?_
          obtain ⟨rfl, hkeyed, hgrows, hslots⟩ := hlast
          have hshows' : Shows strings root written accounts storages
              { batch with tables := { batch.tables with trieNodes := nodes } } :=
            ⟨hshows.view.withNodes hkeyed hgrows, hshows.written_eq⟩
          exact writeSettled_spec hstrings hshows' hkept hfound.symm hslots _ rfl

theorem settleAccounts_spec (hstrings : CollisionFree strings)
    (hroot : stateRoot = none ∨ stateRoot = some root) (addresses : List Address) :
    Triple (· ∈ strings) (Shows strings root written accounts storages)
      (settleAccounts changes eip161 stateRoot addresses)
      fun _ last => ∃ accounts' storages',
        (∀ address ∈ addresses, Settles changes eip161 address (accounts address)
          (storages address) (written address) (accounts' address) (storages' address)) ∧
        (∀ address, address ∉ addresses →
          accounts' address = accounts address ∧ storages' address = storages address) ∧
        Shows strings root written accounts' storages' last := by
  induction addresses generalizing accounts storages with
  | nil =>
      refine triple_pure fun _ hshows => ⟨accounts, storages, ?_, fun _ _ => ⟨rfl, rfl⟩, hshows⟩
      exact fun _ hmem => absurd hmem List.not_mem_nil
  | cons first addresses ih =>
      unfold settleAccounts
      refine triple_bind (settleAccount_spec hstrings hroot first) fun _ => ?_
      refine triple_of_exists_pre fun account => triple_of_exists_pre fun values => ?_
      refine triple_of_pure_pre fun hfirst => ih.weaken fun _ last hlast => ?_
      obtain ⟨accounts', storages', hsettled, hothers, hshows⟩ := hlast
      refine ⟨accounts', storages', fun address hmem => ?_, fun address hmem => ?_, hshows⟩
      · by_cases haddress : address = first
        · subst haddress
          by_cases hlater : address ∈ addresses
          · have hagain := hsettled address hlater
            rw [Function.update_self, Function.update_self] at hagain
            exact hfirst.trans hagain
          · obtain ⟨haccount, hvalues⟩ := hothers address hlater
            rw [haccount, hvalues, Function.update_self, Function.update_self]
            exact hfirst
        · have hlater := hsettled address ((List.mem_cons.mp hmem).resolve_left haddress)
          rwa [Function.update_of_ne haddress, Function.update_of_ne haddress] at hlater
      · obtain ⟨hne, hlater⟩ := not_or.mp (List.mem_cons.not.mp hmem)
        obtain ⟨haccount, hvalues⟩ := hothers address hlater
        rw [haccount, hvalues, Function.update_of_ne hne, Function.update_of_ne hne]
        exact ⟨rfl, rfl⟩

end

end StateApplier

end WasixEth
