import WasixEth.Engine.Importing

/-! # Reverting and marking without faults

When every access succeeds, reverting erases the canonical heights above the
common ancestor, and marking a branch makes the canonical chain that of its
last block.
-/

namespace WasixEth.Engine

open Storage

@[simp] theorem write_none (engine next : Engine) :
    engine.write Faults.none next = (.ok (), next) := rfl

@[simp] theorem andThen_ok (engine : Engine) (next : Engine → Except String Unit × Engine) :
    andThen (.ok (), engine) next = next engine := rfl

@[simp] theorem reading_none {α : Type} (engine : Engine) (value : α)
    (next : α → Except String Unit × Engine) : reading Faults.none engine value next = next value :=
  rfl

/-! ## Reverting -/

theorem restoreAccounts_none (engine : Engine) (changes : List (Address × Option TrieAccount)) :
    ∃ state, restoreAccounts Faults.none engine changes = (.ok (), { engine with state }) := by
  induction changes generalizing engine with
  | nil => exact ⟨engine.state, rfl⟩
  | cons change rest ih =>
      simp only [restoreAccounts, Faults.part_none, write_none, andThen_ok]
      obtain ⟨state, h⟩ := ih _
      exact ⟨state, h⟩

theorem restoreStorages_none (engine : Engine) (changes : List (Address × B256 × U256)) :
    ∃ state, restoreStorages Faults.none engine changes = (.ok (), { engine with state }) := by
  induction changes generalizing engine with
  | nil => exact ⟨engine.state, rfl⟩
  | cons change rest ih =>
      simp only [restoreStorages, Faults.part_none, write_none, andThen_ok]
      obtain ⟨state, h⟩ := ih _
      exact ⟨state, h⟩

theorem removeReceiptMetas_none (engine : Engine) (blockHash : B256) (count : Nat) :
    ∃ state, removeReceiptMetas Faults.none engine blockHash count = { engine with state } := by
  unfold removeReceiptMetas
  induction List.range count generalizing engine with
  | nil => exact ⟨engine.state, rfl⟩
  | cons index rest ih =>
      simp only [List.foldl_cons, Faults.part_none, Faults.now_none, Bool.false_eq_true, if_false]
      obtain ⟨state, h⟩ := ih _
      exact ⟨state, h⟩

/-- Undoing a height drops it from the canonical chain; what it does to the
state does not matter here. -/
theorem revertHeight_none (engine : Engine) (height : Nat) :
    ∃ state, engine.revertHeight Faults.none height =
      (.ok (), { engine with chain := engine.chain.removeCanonical height, state }) := by
  simp only [revertHeight, Faults.part_none, reading_none, write_none]
  obtain ⟨state₁, h₁⟩ := restoreAccounts_none engine
    ((engine.state.accountChangeSets.get height).getD [])
  rw [h₁, andThen_ok]
  obtain ⟨state₂, h₂⟩ := restoreStorages_none { engine with state := state₁ }
    ((state₁.storageChangeSets.get height).getD [])
  rw [h₂, andThen_ok, andThen_ok]
  cases engine.chain.canonicalHeads.get height with
  | none => exact ⟨_, rfl⟩
  | some hash =>
      dsimp only
      cases engine.chain.blockBodies.get hash with
      | none => exact ⟨_, rfl⟩
      | some body =>
          obtain ⟨state₃, h₃⟩ := removeReceiptMetas_none
            { engine with state := state₂.removeChangeSet height } hash body.transactions.length
          dsimp only
          rw [h₃]
          exact ⟨state₃, rfl⟩

/-- The canonical chain without the heights above `height` and up to
`current`. -/
def eraseBetween (heads : Table Nat B256) (height current : Nat) : Table Nat B256 :=
  heads.eraseWhere fun n => height < n && n ≤ current

theorem eraseBetween_succ (heads : Table Nat B256) {height current : Nat}
    (h : height < current + 1) :
    eraseBetween (heads.erase (current + 1)) height current =
      eraseBetween heads height (current + 1) := by
  apply Table.ext
  intro n
  simp only [eraseBetween, Table.get_eraseWhere, Table.get_erase, Bool.and_eq_true,
    decide_eq_true_eq]
  split_ifs <;> first | rfl | omega

theorem eraseBetween_of_le (heads : Table Nat B256) {height current : Nat} (h : current ≤ height) :
    eraseBetween heads height current = heads := by
  apply Table.ext
  intro n
  simp only [eraseBetween, Table.get_eraseWhere, Bool.and_eq_true, decide_eq_true_eq]
  rw [if_neg (by omega)]

/-- The same chain with other canonical heads. -/
def withHeads (tables : ChainTables) (heads : Table Nat B256) : ChainTables :=
  { tables with canonicalHeads := heads }

/-- By induction on the height the loop has come down to. -/
theorem revertDown_none (height : Nat) (engine : Engine) (current : Nat) :
    ∃ state, revertDown height Faults.none engine current =
      (.ok (), { engine with
        chain := withHeads engine.chain (eraseBetween engine.chain.canonicalHeads height current)
        state }) := by
  induction current generalizing engine with
  | zero =>
      refine ⟨engine.state, ?_⟩
      rw [eraseBetween_of_le _ (Nat.zero_le height)]
      rfl
  | succ current ih =>
      rw [revertDown]
      split
      next hle =>
        refine ⟨engine.state, ?_⟩
        rw [eraseBetween_of_le _ hle]
        rfl
      next hlt =>
        obtain ⟨state, hrevert⟩ := revertHeight_none engine (current + 1)
        rw [Faults.part_none, hrevert, andThen_ok]
        obtain ⟨state', hrest⟩ := ih { engine with
          chain := engine.chain.removeCanonical (current + 1), state }
        refine ⟨state', ?_⟩
        rw [Faults.part_none, hrest, ← eraseBetween_succ _ (by omega)]
        rfl

/-! ## Marking -/

variable [BlockHashing]

theorem correctTd_none (engine : Engine) (block : Block) :
    ∃ headerTd, engine.correctTd Faults.none block =
      (.ok (), { engine with chain := { engine.chain with headerTd } }) := by
  unfold correctTd
  split
  · exact ⟨engine.chain.headerTd, rfl⟩
  · dsimp only
    split
    · exact ⟨engine.chain.headerTd, rfl⟩
    · exact ⟨_, rfl⟩

theorem updateLookups_none (engine : Engine) (blockHash : B256)
    (transactions : List (Transaction × Nat)) :
    ∃ transactionLookup, updateLookups blockHash Faults.none engine transactions =
      (.ok (), { engine with chain := { engine.chain with transactionLookup } }) := by
  induction transactions generalizing engine with
  | nil => exact ⟨engine.chain.transactionLookup, rfl⟩
  | cons entry rest ih =>
      obtain ⟨tx, index⟩ := entry
      simp only [updateLookups, Faults.part_none, write_none, andThen_ok]
      obtain ⟨lookup, h⟩ := ih _
      exact ⟨lookup, h⟩

/-- What marking writes once the block is in the main tables. -/
structure Marked (block : Block) (before after : Engine) : Prop where
  canonical : after.canonical = before.canonical
  headers : after.chain.headers = before.chain.headers
  headerLog : after.chain.headerLog = before.chain.headerLog
  blockBodies : after.chain.blockBodies = before.chain.blockBodies
  payloads : after.chain.payloads = before.chain.payloads
  headerNumbers : ∀ hash, after.chain.headerNumbers.get hash =
    if hash = block.hash then some block.header.number else before.chain.headerNumbers.get hash
  canonicalHeads : after.chain.canonicalHeads =
    before.chain.canonicalHeads.insert block.header.number block.hash

theorem markCanonical_none {engine promoted : Engine} {block : Block}
    (h : engine.promotePayload Faults.none block.hash = (.ok (), promoted)) :
    ∃ after, engine.markCanonical Faults.none block = (.ok (), after) ∧
      Marked block promoted after := by
  simp only [markCanonical, Faults.part_none, h, andThen_ok, write_none]
  obtain ⟨td, htd⟩ := correctTd_none { promoted with
    chain := (((promoted.chain.setCanonical block.header.number block.hash).insertHeaderNumber
      block.hash block.header.number).insertHeaderNumber block.hash block.header.number) } block
  rw [htd, andThen_ok]
  obtain ⟨lookup, hlookup⟩ := updateLookups_none _ block.hash block.body.transactions.zipIdx
  refine ⟨_, hlookup, rfl, rfl, rfl, rfl, rfl, ?_, rfl⟩
  intro hash
  simp only [ChainTables.insertHeaderNumber, ChainTables.setCanonical, Table.get_insert]
  split <;> rfl

namespace Marked

variable {genesis : B256} {block : Block} {before after : Engine}

theorem invariant (hm : Marked block before after) (h : ChainInvariant genesis before.chain)
    (hblock : before.chain.headers.get block.hash = some block.header) :
    ChainInvariant genesis after.chain where
  hash_eq := by rw [hm.headers]; exact h.hash_eq
  logged := by rw [hm.headers, hm.headerLog]; exact h.logged
  apart := by rw [hm.headerLog]; exact h.apart
  number_eq := by
    intro hash header hheader
    rw [hm.headers] at hheader
    rw [hm.headerNumbers]
    split
    next heq =>
      rw [heq, hblock] at hheader
      cases hheader
      rfl
    next => exact h.number_eq hheader
  body_iff := by rw [hm.headers, hm.blockBodies]; exact h.body_iff
  genesis_mem := by rw [hm.headers]; exact h.genesis_mem
  parent_mem := by
    unfold BuiltOnStored
    rw [hm.headers]
    exact h.parent_mem
  payload_mem := by
    unfold BuiltOnStored
    rw [hm.headers, hm.payloads]
    exact h.payload_mem

/-- On the chain of the parent the marked block becomes the last. -/
theorem canonicalChain (hm : Marked block before after)
    (hblock : before.chain.headers.get block.hash = some block.header)
    (hbuilt : BuiltOnStored before.chain block.header)
    (hchain : CanonicalChain before.chain block.header.parentHash) :
    CanonicalChain after.chain block.hash := by
  obtain ⟨parent, hparent, hnumber⟩ := hbuilt
  have hlinks : after.chain.links = before.chain.links := by
    funext hash
    rw [ChainTables.links, ChainTables.links, hm.headers]
  refine ⟨by rw [hm.headers, hblock]; rfl, ?_⟩
  intro n hash
  rw [hm.canonicalHeads, Table.get_insert, ChainTables.AncestorAt, hlinks,
    Ancestor.iff_child (ChainTables.links_eq_some hblock) (ChainTables.links_eq_some hparent)
      hnumber]
  have hold := hchain.heads_iff n hash
  split
  next heq =>
    constructor
    · intro h
      exact .inl ⟨heq, (Option.some.inj h).symm⟩
    · rintro (⟨_, rfl⟩ | hancestor)
      · rfl
      · -- The ancestors of the parent are all lower.
        have hle := hancestor.le_height (ChainTables.links_eq_some hparent)
        simp only [Header.link] at hle
        omega
  next hne =>
    rw [hold]
    constructor
    · exact .inr
    · rintro (⟨heq, _⟩ | hancestor)
      · exact absurd heq hne
      · exact hancestor

end Marked

/-- A block whose body is stored is not promoted. -/
theorem promotePayload_stored {engine : Engine} {hash : B256}
    (h : (engine.chain.blockBodies.get hash).isSome) :
    engine.promotePayload Faults.none hash = (.ok (), engine) := by
  simp [promotePayload, ChainTables.blockBodyByHash, h]

/-- A block that is only among the payloads is stored. -/
theorem promotePayload_payload {engine : Engine} {hash : B256} {payload : Payload}
    (hbody : engine.chain.blockBodies.get hash = none)
    (hpayload : engine.chain.getPayloadByBlockHash Faults.none hash = some payload)
    (hhash : payload.block.hash = hash) :
    ∃ promoted, engine.promotePayload Faults.none hash = (.ok (), promoted) ∧
      promoted.canonical = engine.canonical ∧
      Stores engine.chain promoted.chain payload.block.header payload.block.body := by
  refine ⟨(engine.insertBlock payload).removePayload hash, ?_, rfl, ?_⟩
  · simp [promotePayload, ChainTables.blockBodyByHash, hbody, hpayload, removePayload]
  · subst hhash
    dsimp only [removePayload, insertBlock, ChainTables.insertBlock, ChainTables.insertBlockBody]
    obtain ⟨stored, lookup, htransactions⟩ := ChainTables.exists_insertTransactions _ _ _
    rw [htransactions]
    obtain ⟨receipts, hreceipts⟩ := ChainTables.exists_insertReceipts _ _ _
    rw [hreceipts]
    exact ⟨rfl, rfl, fun hash => rfl, rfl, rfl, fun _ hmem => List.mem_of_mem_filter hmem⟩

end WasixEth.Engine
