import WasixEth.BlockCodec
import WasixEth.PassedChecks
import WasixEth.Execution.StateApplier
import WasixEth.Storage.OwnWrites

/-! # Block rewards

Before the merge a block rewards its beneficiary and the beneficiaries of its ommers. How much
an ommer is worth depends on how far it lies behind the block. Nothing that is checked of a block
bounds that distance, and a word of 64 bits has no negative distance.
-/

namespace WasixEth.BlockProcessor

open Storage Routine BatchWriter

/-! ## What the Yellow Paper mints -/

def ommerShare (fork : Hardfork) (blockNumber : Nat) (ommer : Header) : Nat :=
  (8 + ommer.number - blockNumber) * blockReward fork / 8

/-- What ommers are worth to an address. -/
def ommersWorth (fork : Hardfork) (blockNumber : Nat) (ommers : List Header)
    (address : Address) : Nat :=
  ((ommers.filter (·.beneficiary = address)).map (ommerShare fork blockNumber)).sum

/-- What a block mints for an address. -/
def minted (fork : Hardfork) (block : Block) (address : Address) : Nat :=
  (if block.header.beneficiary = address then
    blockReward fork + block.body.ommers.length * (blockReward fork / 32) else 0) +
  ommersWorth fork block.header.number block.body.ommers address

/-- The distance that the Yellow Paper allows between a block and an ommer of it. -/
def Near (blockNumber : Nat) (ommer : Header) : Prop :=
  ommer.number < blockNumber ∧ blockNumber < ommer.number + 8

theorem blockReward_cases {fork : Hardfork} (hfork : fork < .paris) :
    ∃ unit, blockReward fork = 32 * unit ∧ 0 < unit ∧ blockReward fork ≤ 5 * 10 ^ 18 := by
  have hnot : ¬ Hardfork.paris ≤ fork := Hardfork.not_le.mpr hfork
  unfold blockReward
  rw [if_neg hnot]
  split
  · exact ⟨10 ^ 18 / 16, by norm_num, by norm_num, by omega⟩
  · split
    · exact ⟨3 * 10 ^ 18 / 32, by norm_num, by norm_num, by omega⟩
    · exact ⟨5 * 10 ^ 18 / 32, by norm_num, by norm_num, by omega⟩

/-- With what the block itself gets for it, a near ommer is worth less than a block. -/
theorem ommerShare_lt {fork : Hardfork} (hfork : fork < .paris) {blockNumber : Nat}
    {ommer : Header} (hnear : Near blockNumber ommer) :
    ommerShare fork blockNumber ommer + blockReward fork / 32 < blockReward fork := by
  obtain ⟨unit, hunit, hpos, -⟩ := blockReward_cases hfork
  obtain ⟨hlt, hclose⟩ := hnear
  have hshare : ommerShare fork blockNumber ommer ≤ 28 * unit := by
    unfold ommerShare
    rw [hunit]
    have hfactor : 8 + ommer.number - blockNumber ≤ 7 := by omega
    calc (8 + ommer.number - blockNumber) * (32 * unit) / 8
        ≤ 7 * (32 * unit) / 8 := Nat.div_le_div_right (Nat.mul_le_mul_right _ hfactor)
      _ = 28 * unit := by omega
  omega

/-- In words, the share of a near ommer is what it is in integers. -/
theorem ommerReward_eq {mode : Machine.Mode} {fork : Hardfork} (hfork : fork < .paris)
    {blockNumber : Nat} {ommer : Header} (hnear : Near blockNumber ommer)
    (hfits : 8 + ommer.number < 2 ^ 64) :
    ommerReward mode (blockReward fork) blockNumber ommer.number =
      .ok (ommerShare fork blockNumber ommer) := by
  obtain ⟨unit, -, -, hreward⟩ := blockReward_cases hfork
  obtain ⟨hlt, hclose⟩ := hnear
  have hproduct : blockReward fork * (8 + ommer.number - blockNumber) ≤ 5 * 10 ^ 18 * 7 :=
    Nat.mul_le_mul hreward (by omega)
  unfold ommerReward saturatingMul
  rw [Machine.add_of_lt hfits]
  change (Machine.sub mode 64 (8 + ommer.number) blockNumber >>= _) = _
  rw [Machine.sub_of_le (by omega)]
  change Except.ok (min _ (2 ^ 256 - 1) / 8) = _
  rw [min_eq_left (by omega), Nat.mul_comm]
  rfl

theorem ommerReward_checked {reward blockNumber ommerNumber amount : Nat}
    (h : ommerReward .checked reward blockNumber ommerNumber = .ok amount) :
    8 + ommerNumber < 2 ^ 64 := by
  by_contra hle
  unfold ommerReward at h
  rw [Machine.add_of_le (by decide) (by omega)] at h
  cases h

section

variable [Keccak256]

/-! ## What is hashed -/

variable {allowed : Bytes → Prop}

theorem logsOnly_account {address : Address} (haddress : allowed address.bytes)
    (stateRoot : Option B256) : LogsOnly allowed (account address stateRoot) := by
  have hrlp : ∀ {α : Type} (r : Except Rlp.Error α), LogsOnly allowed (liftRlp r) := by
    intro α r
    cases r with
    | ok a => exact logsOnly_pure a
    | error e => exact logsOnly_fail _
  refine logsOnly_bind logsOnly_read fun batch => ?_
  split
  · exact logsOnly_pure _
  · split
    · exact logsOnly_pure _
    · split
      · exact logsOnly_pure _
      · refine logsOnly_bind (logsOnly_bind (logsOnly_emit haddress) fun _ => logsOnly_pure _) ?_
        intro key
        refine logsOnly_bind (fun s w hw => EthTrie.logsOnly_get key _ w hw) ?_
        rintro ⟨found, trie⟩
        cases found with
        | none => exact logsOnly_pure _
        | some bytes => exact logsOnly_bind (hrlp _) fun _ => logsOnly_pure _

theorem logsOnly_updateAccount {address : Address} (haddress : allowed address.bytes)
    (account : TrieAccount) : LogsOnly allowed (updateAccount address account) := by
  refine logsOnly_bind (logsOnly_bind logsOnly_read fun batch => ?_) fun _ => logsOnly_modify _
  split
  · exact logsOnly_pure _
  · exact logsOnly_bind (logsOnly_account haddress none) fun _ => logsOnly_modify _

theorem logsOnly_reward {address : Address} (haddress : allowed address.bytes)
    (stateRoot : Option B256) (amount : Nat) :
    LogsOnly allowed (reward stateRoot address amount) :=
  logsOnly_bind (logsOnly_account haddress stateRoot) fun _ =>
    logsOnly_updateAccount haddress _

theorem logsOnly_rewardOmmers {mode : Machine.Mode} {ommers : List Header}
    (hommers : ∀ ommer ∈ ommers, allowed ommer.beneficiary.bytes) (stateRoot : Option B256)
    (blockNumber reward : Nat) :
    LogsOnly allowed (rewardOmmers mode stateRoot blockNumber reward ommers) := by
  induction ommers with
  | nil => exact logsOnly_pure _
  | cons ommer rest ih =>
      refine logsOnly_bind ?_ fun amount => ?_
      · cases ommerReward mode reward blockNumber ommer.number with
        | ok amount => exact logsOnly_pure _
        | error fault => exact logsOnly_fail _
      · refine logsOnly_bind (logsOnly_reward (hommers ommer List.mem_cons_self) _ _) fun _ => ?_
        exact ih fun other hother => hommers other (List.mem_cons_of_mem _ hother)

/-- Only addresses that are rewarded are hashed. -/
theorem logsOnly_applyBlockRewardsIn {mode : Machine.Mode} {fork : Hardfork} {block : Block}
    (hbeneficiary : allowed block.header.beneficiary.bytes)
    (hommers : ∀ ommer ∈ block.body.ommers, allowed ommer.beneficiary.bytes)
    (stateRoot : Option B256) :
    LogsOnly allowed (applyBlockRewardsIn mode fork block.header.beneficiary block.body.ommers
      stateRoot block.header.number) := by
  unfold applyBlockRewardsIn
  split
  · exact logsOnly_pure _
  · exact logsOnly_bind (logsOnly_reward hbeneficiary _ _) fun _ =>
      logsOnly_rewardOmmers hommers _ _ _

/-! ## Credits -/

variable {strings : Set Bytes} {root : B256} {accounts : Address → Option TrieAccount}
  {storages : Address → B256 → U256} {batch : BatchWriter} {stateRoot : Option B256}

/-- The balance of an address, of which there may be no account. -/
def balanceIn (accounts : Address → Option TrieAccount) (address : Address) : Nat :=
  ((accounts address).getD .blank).balance.toNat

/-- Every balance the batch shows has grown by what the address is credited. -/
def Credited (strings : Set Bytes) (root : B256) (accounts : Address → Option TrieAccount)
    (storages : Address → B256 → U256) (amounts : Address → Nat) (batch : BatchWriter) : Prop :=
  ∃ accounts', View strings root accounts' storages batch ∧
    ∀ address, balanceIn accounts' address = balanceIn accounts address + amounts address

theorem reward_spec (hstrings : CollisionFree strings)
    (hview : View strings root accounts storages batch)
    (hroot : stateRoot.or (some root) = some root) (address : Address) (amount : Nat)
    (hfits : balanceIn accounts address + amount < 2 ^ 256) :
    Triple (· ∈ strings) (· = batch) (reward stateRoot address amount)
      fun _ => Credited strings root accounts storages
        fun other => if address = other then amount else 0 := by
  refine triple_bind (account_spec hstrings hview address (hview.base ▸ hroot)) fun found => ?_
  refine triple_of_pure_pre fun hfound => ?_
  subst hfound
  refine (updateAccount_spec hstrings hview address _).weaken fun _ batch' hwrites => ?_
  refine ⟨_, hview.update hwrites (hview.slots address).exists_slotsAt, fun other => ?_⟩
  dsimp only
  by_cases heq : address = other
  · subst heq
    rw [if_pos rfl]
    unfold balanceIn at hfits ⊢
    rw [Function.update_self]
    change (saturatingAdd ((accounts address).getD .blank).balance amount).toNat = _
    rw [saturatingAdd, min_eq_left (by omega), BitVec.toNat_ofNat, Nat.mod_eq_of_lt hfits]
  · rw [if_neg heq, Nat.add_zero]
    unfold balanceIn
    rw [Function.update_of_ne fun h => heq h.symm]

theorem Credited.add {amounts amounts' total : Address → Nat}
    {accounts' : Address → Option TrieAccount} {batch' : BatchWriter}
    (h : ∀ address, balanceIn accounts' address = balanceIn accounts address + amounts address)
    (h' : Credited strings root accounts' storages amounts' batch')
    (htotal : ∀ address, total address = amounts address + amounts' address) :
    Credited strings root accounts storages total batch' := by
  obtain ⟨accounts'', hview, hbalances⟩ := h'
  refine ⟨accounts'', hview, fun address => ?_⟩
  rw [hbalances, h, htotal, Nat.add_assoc]

omit [Keccak256] in
theorem ommersWorth_cons (fork : Hardfork) (blockNumber : Nat) (ommer : Header)
    (rest : List Header) (address : Address) :
    ommersWorth fork blockNumber (ommer :: rest) address =
      (if ommer.beneficiary = address then ommerShare fork blockNumber ommer else 0) +
        ommersWorth fork blockNumber rest address := by
  unfold ommersWorth
  rw [List.filter_cons]
  by_cases heq : ommer.beneficiary = address
  · simp [heq]
  · simp [heq]

/-- Near ommers are credited one after the other. -/
theorem rewardOmmers_spec (hstrings : CollisionFree strings) {mode : Machine.Mode}
    {fork : Hardfork} (hfork : fork < .paris) (hroot : stateRoot.or (some root) = some root)
    {blockNumber : Nat} {ommers : List Header}
    (hnear : ∀ ommer ∈ ommers, Near blockNumber ommer ∧ 8 + ommer.number < 2 ^ 64)
    (hview : View strings root accounts storages batch)
    (hfits : ∀ address,
      balanceIn accounts address + ommersWorth fork blockNumber ommers address < 2 ^ 256) :
    Triple (· ∈ strings) (· = batch)
      (rewardOmmers mode stateRoot blockNumber (blockReward fork) ommers)
      fun _ => Credited strings root accounts storages
        (ommersWorth fork blockNumber ommers) := by
  induction ommers generalizing accounts batch with
  | nil => exact triple_pure fun s hs => ⟨accounts, hs ▸ hview, fun _ => rfl⟩
  | cons ommer rest ih =>
      obtain ⟨hommer, hword⟩ := hnear ommer List.mem_cons_self
      have hamount : ommerReward mode _ _ _ = _ := ommerReward_eq hfork hommer hword
      unfold rewardOmmers
      rw [hamount]
      simp only [ommersWorth_cons] at hfits
      have hself := hfits ommer.beneficiary
      rw [if_pos rfl] at hself
      have hreward := reward_spec hstrings hview hroot ommer.beneficiary
        (ommerShare fork blockNumber ommer) (by omega)
      refine triple_bind (Q := fun amount batch' =>
        amount = ommerShare fork blockNumber ommer ∧ batch' = batch)
        (triple_pure fun s hs => ⟨rfl, hs⟩) fun amount => triple_of_pure_pre fun hshare => ?_
      subst hshare
      refine triple_bind hreward.reached fun _ => triple_of_pure_pre ?_
      rintro ⟨accounts', hview', hbalances⟩
      refine (ih (fun other hother => hnear other (List.mem_cons_of_mem _ hother)) hview' ?_).weaken
        fun _ _ hrest => .add hbalances hrest (ommersWorth_cons fork blockNumber ommer rest)
      intro address
      rw [hbalances, Nat.add_assoc]
      exact hfits address

/-! ## The rewards of a block -/

/-- The rewards of a block, in a build of either kind. -/
def blockRewards (mode : Machine.Mode) (fork : Hardfork) (block : Block)
    (stateRoot : Option B256) : BatchM Unit :=
  applyBlockRewardsIn mode fork block.header.beneficiary block.body.ommers stateRoot
    block.header.number

/-- The strings that the rewards of a block must keep apart. -/
def rewardStrings (batch : BatchWriter) (block : Block) : Set Bytes :=
  runStrings batch.tables.trieNodes
    ((block.header.beneficiary :: block.body.ommers.map (·.beneficiary)).map (·.bytes))

/-- The rewards of a block are those of the Yellow Paper. No build stops at one or comes to
another sum, and an ommer costs less than a block. -/
structure RewardsInRange (fork : Hardfork) (block : Block) (stateRoot : Option B256) (root : B256)
    (accounts : Address → Option TrieAccount) (storages : Address → B256 → U256)
    (batch : BatchWriter) : Prop where
  near : ∀ ommer ∈ block.body.ommers, Near block.header.number ommer
  bounded : ∀ ommer ∈ block.body.ommers,
    ommerShare fork block.header.number ommer + blockReward fork / 32 < blockReward fork
  returns : ∀ mode, (blockRewards mode fork block stateRoot batch).result = .ok ()
  credited : ∀ mode, Credited (rewardStrings batch block) root accounts storages
    (minted fork block) (blockRewards mode fork block stateRoot batch).state

/-- The ommers of a block lie close behind it, their numbers leave room for eight more, and no
balance reaches the largest word. -/
structure OmmersInRange (fork : Hardfork) (block : Block)
    (accounts : Address → Option TrieAccount) : Prop where
  near : ∀ ommer ∈ block.body.ommers,
    ommer.number < block.header.number ∧ block.header.number < ommer.number + 8
  room : ∀ ommer ∈ block.body.ommers, 8 + ommer.number < 2 ^ 64
  balances : ∀ address, balanceIn accounts address + minted fork block address < 2 ^ 256

theorem blockRewards_spec {mode : Machine.Mode} {fork : Hardfork} (hfork : fork < .paris)
    {block : Block} (hstrings : CollisionFree strings)
    (hview : View strings root accounts storages batch)
    (hroot : stateRoot.or (some root) = some root) (h : OmmersInRange fork block accounts) :
    Triple (· ∈ strings) (· = batch) (blockRewards mode fork block stateRoot)
      fun _ => Credited strings root accounts storages (minted fork block) := by
  have hbalances : ∀ address, balanceIn accounts address +
      ((if block.header.beneficiary = address then
        blockReward fork + block.body.ommers.length * (blockReward fork / 32) else 0) +
      ommersWorth fork block.header.number block.body.ommers address) < 2 ^ 256 := h.balances
  have hself := hbalances block.header.beneficiary
  rw [if_pos rfl] at hself
  unfold blockRewards applyBlockRewardsIn
  rw [if_neg (Hardfork.not_le.mpr hfork)]
  refine triple_bind (reward_spec hstrings hview hroot block.header.beneficiary _
    (by omega)).reached fun _ => triple_of_pure_pre ?_
  rintro ⟨accounts', hview', hcredited⟩
  have hnear : ∀ ommer ∈ block.body.ommers,
      Near block.header.number ommer ∧ 8 + ommer.number < 2 ^ 64 := fun ommer hommer =>
    ⟨h.near ommer hommer, h.room ommer hommer⟩
  refine (rewardOmmers_spec hstrings hfork hroot hnear hview' fun address => ?_).weaken
    fun _ _ hrest => .add hcredited hrest fun _ => rfl
  rw [hcredited, Nat.add_assoc]
  exact hbalances address

/-- A build that checks its arithmetic gets through with numbers that leave room only. -/
theorem room_of_rewardOmmers {blockNumber reward : Nat} {ommers : List Header}
    (h : (rewardOmmers .checked stateRoot blockNumber reward ommers batch).result = .ok ()) :
    ∀ ommer ∈ ommers, 8 + ommer.number < 2 ^ 64 := by
  induction ommers generalizing batch with
  | nil => simp
  | cons ommer rest ih =>
      obtain ⟨amount, hamount, hrest, -⟩ := exists_of_bind_ok h
      obtain ⟨_, -, hlater, -⟩ := exists_of_bind_ok hrest
      refine List.forall_mem_cons.mpr ⟨?_, ih hlater⟩
      cases hreward : ommerReward .checked reward blockNumber ommer.number with
      | ok amount => exact ommerReward_checked hreward
      | error fault =>
          rw [hreward] at hamount
          cases hamount

/-- A block mints what it should if and only if its ommers are in range, which nobody checks. -/
theorem rewardsInRange_iff {fork : Hardfork} (hfork : fork < .paris) (block : Block)
    (hview : View (rewardStrings batch block) root accounts storages batch)
    (hfree : Set.InjOn keccak256 (rewardStrings batch block))
    (hroot : stateRoot.or (some root) = some root) :
    RewardsInRange fork block stateRoot root accounts storages batch ↔
      OmmersInRange fork block accounts := by
  constructor
  · intro h
    refine ⟨h.near, ?_, fun address => ?_⟩
    · have hchecked := h.returns .checked
      unfold blockRewards applyBlockRewardsIn at hchecked
      rw [if_neg (Hardfork.not_le.mpr hfork)] at hchecked
      obtain ⟨_, -, hommers, -⟩ := exists_of_bind_ok hchecked
      exact room_of_rewardOmmers hommers
    · obtain ⟨accounts', -, hbalances⟩ := h.credited .wrapping
      rw [← hbalances address]
      exact BitVec.isLt _
  · intro h
    have hrun : ∀ mode, (blockRewards mode fork block stateRoot batch).result = .ok () ∧
        Credited (rewardStrings batch block) root accounts storages (minted fork block)
          (blockRewards mode fork block stateRoot batch).state := by
      intro mode
      have hlogs : LogsOnly (· ∈ rewardStrings batch block)
          (blockRewards mode fork block stateRoot) := by
        refine logsOnly_applyBlockRewardsIn ?_ (fun ommer hommer => ?_) stateRoot
        · exact .inr (.inl (List.mem_map_of_mem List.mem_cons_self))
        · exact .inr (.inl (List.mem_map_of_mem
            (List.mem_cons_of_mem _ (List.mem_map_of_mem hommer))))
      obtain ⟨_, hresult, hcredited⟩ := blockRewards_spec hfork (collisionFree_runStrings hfree)
        hview hroot h batch rfl (hlogs batch)
      exact ⟨hresult, hcredited⟩
    exact ⟨h.near, fun ommer hommer => ommerShare_lt hfork (h.near ommer hommer),
      fun mode => (hrun mode).1, fun mode => (hrun mode).2⟩

end

/-! ## An ommer far behind its block -/

section Keccak

attribute [local instance] keccak keccakHashing keccakProofs

open EthConsensus

def ommerOf (number : Nat) : Header :=
  { (default : Header) with beneficiary := .trailing 2, number }

/-- The ninth block after the first, with an ommer of this number. -/
def blockWithOmmer (number : Nat) : Block :=
  { header := { (default : Header) with
      beneficiary := .trailing 1
      ommersHash := ommersHash [ommerOf number]
      transactionsRoot := calculateTransactionRoot []
      number := 9
      gasLimit := 30000000
      timestamp := 12 }
    body := ⟨[], [ommerOf number], none⟩ }

def parentOfOmmer : Header := { (default : Header) with number := 8, gasLimit := 30000000 }

/-- The rewards of a block with an ommer that has just been missed. -/
theorem rewardsInRange_blockWithOmmer :
    RewardsInRange .frontier (blockWithOmmer 8) none emptyRootHash World.empty.accounts
        World.empty.storages emptyBatch ↔
      OmmersInRange .frontier (blockWithOmmer 8) World.empty.accounts := by
  have hfree : Set.InjOn keccak256 (rewardStrings emptyBatch (blockWithOmmer 8)) :=
    injOn_runStrings_empty (by decide +kernel)
  refine rewardsInRange_iff (by decide) (blockWithOmmer 8) ?_ hfree rfl
  exact World.empty_at.view (collisionFree_runStrings hfree) fresh_emptyBatch
    fun hash data hget => by simp [emptyBatch, beginBatch, emptyDatabase] at hget

/-- A block with an older ommer is accepted. One build stops at its reward, and the other mints
more than `10 ^ 18` ether. -/
theorem blockWithOmmer_mints :
    validateHeader default ∅ 12 (blockWithOmmer 0).header parentOfOmmer = .ok () ∧
      validateBody default ∅ (blockWithOmmer 0) = .ok () ∧
      (blockRewards .checked .frontier (blockWithOmmer 0) none emptyBatch).result =
        .error "arithmetic operation overflowed" ∧
      ((blockRewards .wrapping .frontier (blockWithOmmer 0) none
        emptyBatch).state.tables.accounts.get (.trailing 2)).map (fun account =>
          account.balance.toNat) =
        some (5 * 10 ^ 18 * (2 ^ 64 - 1) / 8) ∧
      ¬ RewardsInRange .frontier (blockWithOmmer 0) none emptyRootHash World.empty.accounts
        World.empty.storages emptyBatch := by
  refine ⟨by decide +kernel, by decide +kernel, by decide +kernel, by decide +kernel, fun h => ?_⟩
  have hnear := (h.near _ (List.mem_singleton_self _)).2
  revert hnear
  decide

end Keccak

end WasixEth.BlockProcessor
