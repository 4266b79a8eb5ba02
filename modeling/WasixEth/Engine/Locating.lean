import WasixEth.Engine.Books

/-! # Finding canonical transactions

Every call of a steady run keeps the books and leaves the canonical blocks where
the lookup says they are. A fork choice undoes what is above the common
ancestor, executes what is only among the payloads, and marks the new branch
from its lower end up.
-/

namespace WasixEth.Engine

open Storage

variable [BlockHashing]

section Steps

variable {ran : ExecutedBlock → Prop} {undone : B256 → Prop} {engine before after : Engine}

/-! ## Undoing -/

section Undo

omit [BlockHashing] in
theorem receiptsMeta_restoreAccounts (engine : Engine)
    (changes : List (Address × Option TrieAccount)) :
    (restoreAccounts Faults.none engine changes).2.state.receiptsMeta =
      engine.state.receiptsMeta := by
  induction changes generalizing engine with
  | nil => rfl
  | cons change rest ih =>
      simp only [restoreAccounts, Faults.part_none, write_none, andThen_ok]
      rw [ih]
      split <;> rfl

omit [BlockHashing] in
theorem receiptsMeta_restoreStorages (engine : Engine)
    (changes : List (Address × B256 × U256)) :
    (restoreStorages Faults.none engine changes).2.state.receiptsMeta =
      engine.state.receiptsMeta := by
  induction changes generalizing engine with
  | nil => rfl
  | cons change rest ih =>
      simp only [restoreStorages, Faults.part_none, write_none, andThen_ok]
      exact ih _

omit [BlockHashing] in
/-- Only rows of the block itself are removed, and only as many as it has
transactions. -/
theorem receiptsMeta_removeReceiptMetas (engine : Engine) (blockHash : B256) (count : Nat)
    (key : B256 × Nat) :
    (removeReceiptMetas Faults.none engine blockHash count).state.receiptsMeta.get key =
      if key.1 = blockHash ∧ key.2 < count then none else engine.state.receiptsMeta.get key := by
  unfold removeReceiptMetas
  induction count with
  | zero => simp
  | succ count ih =>
      rw [List.range_succ, List.foldl_append, List.foldl_cons, List.foldl_nil]
      simp only [Faults.part_none, Faults.now_none, Bool.false_eq_true, if_false,
        StateTables.removeReceiptMeta, Table.get_erase] at ih ⊢
      obtain ⟨hash, index⟩ := key
      simp only [ih, Prod.mk.injEq]
      by_cases hhash : hash = blockHash
      · simp only [hhash, true_and]
        split_ifs <;> first | rfl | omega
      · simp only [hhash, false_and, if_false]

/-- The rows that undoing a height takes away. -/
def Loses (engine : Engine) (height : Nat) (key : B256 × Nat) : Prop :=
  ∃ body, engine.chain.canonicalHeads.get height = some key.1 ∧
    engine.chain.blockBodies.get key.1 = some body ∧ key.2 < body.transactions.length

omit [BlockHashing] in
theorem revertHeight_rows (engine : Engine) (height : Nat) :
    ∃ state, engine.revertHeight Faults.none height =
      (.ok (), { engine with chain := engine.chain.removeCanonical height, state }) ∧
      ∀ key, ¬ Loses engine height key →
        state.receiptsMeta.get key = engine.state.receiptsMeta.get key := by
  simp only [revertHeight, Faults.part_none, reading_none, write_none]
  have haccounts := receiptsMeta_restoreAccounts engine
    ((engine.state.accountChangeSets.get height).getD [])
  obtain ⟨state₁, h₁⟩ := restoreAccounts_none engine
    ((engine.state.accountChangeSets.get height).getD [])
  rw [h₁] at haccounts ⊢
  rw [andThen_ok]
  have hstorages := receiptsMeta_restoreStorages { engine with state := state₁ }
    ((state₁.storageChangeSets.get height).getD [])
  obtain ⟨state₂, h₂⟩ := restoreStorages_none { engine with state := state₁ }
    ((state₁.storageChangeSets.get height).getD [])
  rw [h₂] at hstorages ⊢
  rw [andThen_ok, andThen_ok]
  have hkept : (state₂.removeChangeSet height).receiptsMeta = engine.state.receiptsMeta :=
    hstorages.trans haccounts
  cases hhead : engine.chain.canonicalHeads.get height with
  | none => exact ⟨_, rfl, fun key _ => by rw [hkept]⟩
  | some hash =>
      dsimp only
      cases hbody : engine.chain.blockBodies.get hash with
      | none => exact ⟨_, rfl, fun key _ => by rw [hkept]⟩
      | some body =>
          have hremoved := receiptsMeta_removeReceiptMetas
            { engine with state := state₂.removeChangeSet height } hash body.transactions.length
          obtain ⟨state₃, h₃⟩ := removeReceiptMetas_none
            { engine with state := state₂.removeChangeSet height } hash body.transactions.length
          rw [h₃] at hremoved
          dsimp only
          rw [h₃]
          refine ⟨state₃, rfl, fun key hkey => ?_⟩
          rw [hremoved key, if_neg, hkept]
          rintro ⟨howner, hindex⟩
          exact hkey ⟨body, howner ▸ hhead, howner ▸ hbody, hindex⟩

omit [BlockHashing] in
/-- By induction on the height the loop has come down to. -/
theorem revertDown_rows (height : Nat) (engine : Engine) (current : Nat) :
    ∃ state, revertDown height Faults.none engine current =
      (.ok (), { engine with
        chain := withHeads engine.chain (eraseBetween engine.chain.canonicalHeads height current)
        state }) ∧
      ∀ key, (∀ number, height < number → number ≤ current → ¬ Loses engine number key) →
        state.receiptsMeta.get key = engine.state.receiptsMeta.get key := by
  induction current generalizing engine with
  | zero =>
      refine ⟨engine.state, ?_, fun _ _ => rfl⟩
      rw [eraseBetween_of_le _ (Nat.zero_le height)]
      rfl
  | succ current ih =>
      rw [revertDown]
      split
      next hle =>
        refine ⟨engine.state, ?_, fun _ _ => rfl⟩
        rw [eraseBetween_of_le _ hle]
        rfl
      next hlt =>
        obtain ⟨state, hrevert, hrows⟩ := revertHeight_rows engine (current + 1)
        rw [Faults.part_none, hrevert, andThen_ok]
        obtain ⟨state', hrest, hrows'⟩ := ih { engine with
          chain := engine.chain.removeCanonical (current + 1), state }
        refine ⟨state', ?_, fun key hkey => ?_⟩
        · rw [Faults.part_none, hrest, ← eraseBetween_succ _ (by omega)]
          rfl
        · rw [hrows' key, hrows key (hkey (current + 1) (by omega) le_rfl)]
          rintro number hlower hupper ⟨body, hhead, hbody, hindex⟩
          refine hkey number hlower (by omega) ⟨body, ?_, hbody, hindex⟩
          dsimp only [ChainTables.removeCanonical] at hhead
          rwa [Table.get_erase, if_neg (by omega)] at hhead

/-- What undoing leaves: the heights it undoes are gone, and so are the rows of
the blocks there. -/
structure Reverts (context : ReorgContext) (before after : Engine) : Prop
    extends SameRows before after where
  transactionLookup : after.chain.transactionLookup = before.chain.transactionLookup
  canonicalHeads : ∀ number hash, after.chain.canonicalHeads.get number = some hash ↔
    before.chain.canonicalHeads.get number = some hash ∧ ¬ before.UndoesHeight context number
  payloads : after.chain.payloads = before.chain.payloads
  metas : ∀ hash body i, before.chain.blockBodies.get hash = some body →
    ¬ before.UndoesBlock context hash → i < body.transactions.length →
    after.state.receiptsMeta.get (hash, i) = before.state.receiptsMeta.get (hash, i)

omit [BlockHashing] in
theorem leaves_updateState (engine : Engine) (state : ForkchoiceState) (number : Nat) :
    Leaves engine (engine.updateState Faults.none state number) := by
  have hstate : (engine.updateState Faults.none state number).state = engine.state := by
    unfold updateState writeForkchoice
    split <;> rfl
  refine ⟨⟨⟨?_, ?_, ?_, ?_, ?_⟩, ?_, ?_⟩, hstate, ?_⟩
  all_goals rw [updateState_chain]
  · exact fun _ _ hhead => hhead
  · exact List.Subset.refl _

omit [BlockHashing] in
theorem Reverts.leaves {last : Engine} {context : ReorgContext} (h : Reverts context before after)
    (hchain : last.chain = { after.chain with forkchoice := last.chain.forkchoice })
    (hstate : last.state = after.state) : Reverts context before last := by
  refine ⟨⟨?_, ?_, ?_, ?_, ?_⟩, ?_, ?_, ?_, ?_⟩
  all_goals first | rw [hchain] | rw [hstate]
  · exact h.headers
  · exact h.headerLog
  · exact h.headerNumbers
  · exact h.blockBodies
  · exact h.receipts
  · exact h.transactionLookup
  · exact h.canonicalHeads
  · exact h.payloads
  · exact h.metas

omit [BlockHashing] in
/-- Whether the common ancestor is found or not, the heights are undone. -/
theorem reverts_revertFor (engine : Engine) (old : CanonicalState) (context : ReorgContext) :
    Reverts context engine (engine.revertFor Faults.none old context).2 := by
  unfold revertFor
  cases hcase : context.isReorg with
  | false =>
      refine ⟨⟨rfl, rfl, rfl, rfl, rfl⟩, rfl, fun number hash => ?_, rfl, fun _ _ _ _ _ _ => rfl⟩
      have hnot : ¬ engine.UndoesHeight context number := by
        intro h
        rw [UndoesHeight, hcase] at h
        exact absurd h.1 Bool.false_ne_true
      exact (and_iff_left hnot).symm
  | true =>
      obtain ⟨state, hdown, hrows⟩ := revertDown_rows (engine.revertHeightOf context) engine
        engine.canonical.headNumber
      have hreverts : Reverts context engine { engine with
          chain := withHeads engine.chain (eraseBetween engine.chain.canonicalHeads
            (engine.revertHeightOf context) engine.canonical.headNumber)
          state } := by
        refine ⟨⟨rfl, rfl, rfl, rfl, rfl⟩, rfl, fun number hash => ?_, rfl, ?_⟩
        · dsimp only [withHeads]
          rw [eraseBetween, Table.get_eraseWhere]
          unfold UndoesHeight
          simp only [hcase, true_and, Bool.and_eq_true, decide_eq_true_eq]
          split_ifs with h
          · simp [h]
          · simp [h]
        · intro hash body i hbody hstays hi
          refine hrows (hash, i) ?_
          rintro number hlower hupper ⟨body', hhead, hbody', hindex⟩
          refine hstays ⟨number, ⟨hcase, hlower, hupper⟩, hhead, body', hbody', ?_⟩
          rintro hnone
          rw [hnone] at hindex
          exact absurd hindex (Nat.not_lt_zero _)
      simp only [if_true, revertToCommon, Faults.part_none, revertToHeight]
      rw [← revertHeightOf, hdown, andThen_ok, reading_none]
      cases hcommon : (withHeads engine.chain (eraseBetween engine.chain.canonicalHeads
          (engine.revertHeightOf context) engine.canonical.headNumber)).canonicalHeads.get
            (engine.revertHeightOf context) with
      | none => exact hreverts.leaves (updateState_chain _ _ _ _) (leaves_updateState _ _ _).state
      | some hash =>
          obtain ⟨forkchoice, canonical, hhead⟩ := updateHead_none { engine with
            chain := withHeads engine.chain (eraseBetween engine.chain.canonicalHeads
              (engine.revertHeightOf context) engine.canonical.headNumber)
            state } hash (engine.revertHeightOf context)
          dsimp only
          rw [hhead]
          exact hreverts.leaves rfl rfl

/-- The blocks that have been undone after a switch. -/
def undoneBy (undone : B256 → Prop) (engine : Engine) (context : ReorgContext) (hash : B256) :
    Prop :=
  undone hash ∨ engine.UndoesBlock context hash

variable {context : ReorgContext}

theorem Books.reverts (h : Books ran undone before) (hreverts : Reverts context before after) :
    Books ran (undoneBy undone before context) after := by
  have hundone : Books ran (undoneBy undone before context) before := h.undo fun _ => .inl
  refine hundone.same hreverts.toSameRows ?_ fun entry hentry => .inl (hreverts.payloads ▸ hentry)
  intro hash body i row hbody hstays hi hget hrow
  refine ⟨row, ?_, hrow⟩
  rw [hreverts.metas hash body i hbody (fun hundoes => hstays (.inr hundoes)) hi]
  exact hget

/-- A block stands at one height only, so what stays canonical was not undone. -/
theorem PlacedAt.reverts (h : PlacedAt undone (fun _ => True) before)
    (hreverts : Reverts context before after) :
    PlacedAt (undoneBy undone before context) (fun _ => True) after := by
  intro number hash _ hhead
  obtain ⟨hbefore, hheight⟩ := (hreverts.canonicalHeads number hash).mp hhead
  obtain ⟨hstays, ⟨header, hheader, hnumber⟩, hbody⟩ := h number hash trivial hbefore
  refine ⟨?_, ⟨header, ?_, hnumber⟩, ?_⟩
  · rintro (hundone | ⟨number', hheight', hhead', -⟩)
    · exact hstays hundone
    · obtain ⟨-, ⟨header', hheader', hnumber'⟩, -⟩ := h number' hash trivial hhead'
      obtain rfl : header = header' := Option.some.inj (hheader.symm.trans hheader')
      rw [← hnumber', hnumber] at hheight'
      exact hheight hheight'
  · rw [hreverts.headers]
    exact hheader
  · rw [hreverts.blockBodies, hreverts.transactionLookup]
    exact hbody

end Undo

/-! ## Marking -/

section Marks

/-- A block of a branch is stored, or waits among the payloads. -/
inductive Available (engine : Engine) (block : Block) : Prop
  | stored (hheader : engine.chain.headers.get block.hash = some block.header)
      (hbody : engine.chain.blockBodies.get block.hash = some block.body)
  | waiting {payload : Payload} (hbody : engine.chain.blockBodies.get block.hash = none)
      (hpayload : engine.chain.getPayloadByBlockHash Faults.none block.hash = some payload)
      (heq : payload.block = block)

theorem Available.same {block : Block} (h : Available before block)
    (hheaders : after.chain.headers = before.chain.headers)
    (hbodies : after.chain.blockBodies = before.chain.blockBodies)
    (hpayloads : after.chain.payloads = before.chain.payloads) : Available after block := by
  cases h with
  | stored hheader hbody =>
      exact .stored (by rw [hheaders]; exact hheader) (by rw [hbodies]; exact hbody)
  | waiting hbody hpayload heq =>
      refine .waiting (by rw [hbodies]; exact hbody) ?_ heq
      unfold ChainTables.getPayloadByBlockHash at hpayload ⊢
      rw [hpayloads]
      exact hpayload

omit [BlockHashing] in
theorem header_get_of_header {tables : ChainTables} {hash : B256} {header : Header}
    (h : tables.header Faults.none hash = some header) : tables.headers.get hash = some header := by
  unfold ChainTables.header at h
  split at h
  · cases h
  · exact h

theorem available_of_header (h : Books ran undone engine) {current : B256} {header : Header}
    {block : Block} (hheader : engine.chain.header Faults.none current = some header)
    (hblock : engine.chain.blockOrPayload Faults.none current = some block) :
    Available engine block := by
  have hget := header_get_of_header hheader
  obtain ⟨body, hbody⟩ : ∃ body, engine.chain.blockBodies.get current = some body := by
    rw [← Option.isSome_iff_exists, h.body_iff, hget]
    rfl
  have hhash := h.hash_eq hget
  simp only [ChainTables.blockOrPayload, ChainTables.blockByHash, Faults.part_none, hheader,
    ChainTables.blockBodyByHash, Faults.read_none, hhash, hbody, Option.some_or,
    Option.some.injEq] at hblock
  subst hblock
  have hself : Block.hash ⟨header, body⟩ = current := hhash
  exact .stored (hself ▸ hget) (hself ▸ hbody)

/-- A block is put in front of those that the rest of the walk passes. -/
theorem available_push {block : Block} {rest : Except String WalkBack} {walk : WalkBack}
    (hwalk : (match rest with
      | .error message => .error message
      | .ok walk => .ok { walk with newCanonicalBlocks := block :: walk.newCanonicalBlocks } :
        Except String WalkBack) = .ok walk)
    (hblock : Available engine block)
    (hrest : ∀ walk, rest = .ok walk → ∀ block ∈ walk.newCanonicalBlocks, Available engine block) :
    ∀ block ∈ walk.newCanonicalBlocks, Available engine block := by
  cases rest with
  | error message => cases hwalk
  | ok below =>
      cases hwalk
      exact List.forall_mem_cons.mpr ⟨hblock, hrest below rfl⟩

/-- The blocks that the walk passes, by induction on its fuel. -/
theorem available_walkBack (h : Books ran undone engine) {oldHead : B256} (fuel : Nat)
    {current : B256} {walk : WalkBack}
    (hwalk : engine.chain.walkBack oldHead fuel Faults.none current = .ok walk) :
    ∀ block ∈ walk.newCanonicalBlocks, Available engine block := by
  induction fuel generalizing current walk with
  | zero => cases hwalk
  | succ fuel ih =>
      rw [ChainTables.walkBack] at hwalk
      dsimp only at hwalk
      rw [Faults.part_none, Faults.part_none, Faults.part_none, Faults.part_none,
        Faults.part_none] at hwalk
      split at hwalk
      · cases hwalk
        exact List.forall_mem_nil _
      next hzero =>
        split at hwalk
        · cases hwalk
          exact List.forall_mem_nil _
        · split at hwalk
          · cases hwalk
            exact List.forall_mem_nil _
          · split at hwalk
            next header hheader =>
              split at hwalk
              next block hblock =>
                exact available_push hwalk (available_of_header h hheader hblock) fun _ => ih
              next => cases hwalk
            next hheader =>
              split at hwalk
              next payload hpayload =>
                have hhash := hash_of_getPayload hpayload
                refine available_push hwalk (.waiting ?_ (hhash ▸ hpayload) rfl) fun _ => ih
                rw [hhash, ← Option.not_isSome_iff_eq_none, h.body_iff]
                unfold ChainTables.header at hheader
                rw [if_neg hzero, Faults.read_none] at hheader
                simp [hheader]
              next =>
                cases hwalk
                exact List.forall_mem_nil _

theorem available_resolveReorg (h : Books ran undone engine) {oldHead newHead : B256}
    {context : ReorgContext}
    (hcontext : engine.chain.resolveReorg Faults.none oldHead newHead = .ok context) :
    ∀ block ∈ context.newCanonicalBlocks, Available engine block := by
  unfold ChainTables.resolveReorg at hcontext
  split at hcontext
  · cases hcontext
  next walk hwalk =>
    have havailable := available_walkBack h _ hwalk
    split at hcontext
    · cases hcontext
      exact List.forall_mem_nil _
    · split at hcontext
      · cases hcontext
        exact havailable
      · cases hcontext
        exact havailable

theorem updateLookups_eq (engine : Engine) (blockHash : B256)
    (entries : List (Transaction × Nat)) :
    updateLookups blockHash Faults.none engine entries = (.ok (), { engine with
      chain := { engine.chain with
        transactionLookup := engine.chain.transactionLookup.insertAll
          (entries.map fun entry => (txHash entry.1, blockHash, entry.2)) } }) := by
  induction entries generalizing engine with
  | nil => rfl
  | cons entry rest ih =>
      simp only [updateLookups, Faults.part_none, write_none, andThen_ok]
      exact ih _

/-- Marking writes the places of the block once more. -/
structure Relocates (block : Block) (before after : Engine) : Prop
    extends Marked block before after where
  transactionLookup : after.chain.transactionLookup = before.chain.transactionLookup.insertAll
    (placesOf block.hash block.body.transactions)
  receipts : after.chain.receipts = before.chain.receipts
  state : after.state = before.state

theorem relocates_markCanonical {promoted : Engine} {block : Block}
    (h : engine.promotePayload Faults.none block.hash = (.ok (), promoted)) :
    ∃ after, engine.markCanonical Faults.none block = (.ok (), after) ∧
      Relocates block promoted after := by
  obtain ⟨after, hafter, hmarked⟩ := markCanonical_none h
  have hwritten := hafter
  simp only [markCanonical, Faults.part_none, h, andThen_ok, write_none] at hwritten
  obtain ⟨td, htd⟩ := correctTd_none { promoted with
    chain := (((promoted.chain.setCanonical block.header.number block.hash).insertHeaderNumber
      block.hash block.header.number).insertHeaderNumber block.hash block.header.number) } block
  rw [htd, andThen_ok, updateLookups_eq] at hwritten
  have heq := (Prod.mk.inj hwritten).2
  refine ⟨after, hafter, hmarked, ?_, ?_, ?_⟩
  · rw [← heq]
    rfl
  · rw [← heq]
    rfl
  · rw [← heq]

/-- What holds while a branch is marked: the heights that are still to be marked
may have anything, and the others are in place. -/
structure Marking (ran : ExecutedBlock → Prop) (undone : B256 → Prop) (engine : Engine)
    (todo : List Block) : Prop where
  books : Books ran undone engine
  placed : PlacedAt undone (· ∉ todo.map (·.header.number)) engine
  available : ∀ block ∈ todo, Available engine block
  fresh : ∀ block ∈ todo, ¬ undone block.hash
  once : (transactionsOf todo).Nodup
  apart : ∀ number hash body, number ∉ todo.map (·.header.number) →
    engine.chain.canonicalHeads.get number = some hash →
    engine.chain.blockBodies.get hash = some body →
    List.Disjoint (transactionsOf todo) (body.transactions.map txHash)

variable {block : Block} {rest : List Block}

theorem transactionsOf_cons (block : Block) (rest : List Block) :
    transactionsOf (block :: rest) =
      block.body.transactions.map txHash ++ transactionsOf rest := by
  rw [transactionsOf, List.flatMap_cons, List.map_append]
  rfl

theorem transactionsOf_reverse (blocks : List Block) :
    (transactionsOf blocks.reverse).Perm (transactionsOf blocks) :=
  ((List.reverse_perm blocks).flatMap_right _).map txHash

/-- A block that waits is not canonical at a height that is in place. -/
theorem Marking.ne_of_waiting {todo : List Block} (h : Marking ran undone engine todo)
    {number : Nat} {hash waiting : B256} (hnumber : number ∉ todo.map (·.header.number))
    (hhead : engine.chain.canonicalHeads.get number = some hash)
    (hwaiting : engine.chain.blockBodies.get waiting = none) : hash ≠ waiting := by
  rintro rfl
  obtain ⟨-, -, body, hbody, -⟩ := h.placed number hash hnumber hhead
  rw [hwaiting] at hbody
  cases hbody

/-- The first block is stored, if it is not yet. -/
theorem Marking.promote (h : Marking ran undone engine (block :: rest)) :
    ∃ promoted, engine.promotePayload Faults.none block.hash = (.ok (), promoted) ∧
      Marking ran undone promoted (block :: rest) ∧
      promoted.chain.headers.get block.hash = some block.header ∧
      promoted.chain.blockBodies.get block.hash = some block.body := by
  cases h.available block List.mem_cons_self with
  | stored hheader hbody =>
      exact ⟨engine, promotePayload_stored (by rw [hbody]; rfl), h, hheader, hbody⟩
  | @waiting payload hbody hpayload heq =>
      subst heq
      obtain ⟨entry, hentry, rfl⟩ : ∃ entry ∈ engine.chain.payloads, entry.2 = payload := by
        simp only [ChainTables.getPayloadByBlockHash, Faults.read_none,
          Option.map_eq_some_iff] at hpayload
        obtain ⟨entry, hfind, heq⟩ := hpayload
        exact ⟨entry, List.mem_of_find?_eq_some hfind, heq⟩
      obtain ⟨executed, hran, haccounted, heq⟩ | hstored := h.books.payloads entry hentry
      · rw [heq] at h hbody hpayload ⊢
        dsimp only at h hbody hpayload ⊢
        obtain ⟨promoted, hpromoted, henters, hothers⟩ := enters_promotePayload hbody hpayload
        have hheader : engine.chain.headers.get executed.block.hash = none := by
          rw [← Option.not_isSome_iff_eq_none, ← h.books.body_iff, hbody]
          simp
        have hheader' : promoted.chain.headers.get executed.block.hash =
            some executed.block.header := by
          rw [henters.headers]
          exact Table.get_insert_self _ _ _
        have hbody' : promoted.chain.blockBodies.get executed.block.hash =
            some executed.block.body := by
          rw [henters.blockBodies]
          exact Table.get_insert_self _ _ _
        refine ⟨promoted, hpromoted, ⟨h.books.enters henters hran haccounted, ?_, ?_, h.fresh,
          h.once, ?_⟩, hheader', hbody'⟩
        · refine h.placed.enters henters ?_ ?_ ?_
          · intro header hget
            rw [hheader] at hget
            cases hget
          · intro number hnumber hhead
            exact absurd rfl (h.ne_of_waiting hnumber hhead hbody)
          · intro number hash body hnumber hhead _ hget
            have hdisjoint := h.apart number hash body hnumber hhead hget
            rw [transactionsOf_cons] at hdisjoint
            exact (List.disjoint_append_left.mp hdisjoint).1
        · intro other hother
          by_cases hhash : other.hash = executed.block.hash
          · -- The same hash has the same payload.
            cases h.available other hother with
            | stored _ hstored =>
                rw [hhash, hbody] at hstored
                cases hstored
            | waiting _ hwaiting heq =>
                rw [hhash, hpayload] at hwaiting
                obtain rfl := Option.some.inj hwaiting
                rw [← heq]
                exact .stored hheader' hbody'
          · cases h.available other hother with
            | stored hget hget' =>
                refine .stored ?_ ?_
                · rw [henters.headers]
                  exact (Table.get_insert_of_ne _ hhash).trans hget
                · rw [henters.blockBodies]
                  exact (Table.get_insert_of_ne _ hhash).trans hget'
            | waiting hget hwaiting heq =>
                refine .waiting ?_ ((hothers _ hhash).trans hwaiting) heq
                rw [henters.blockBodies]
                exact (Table.get_insert_of_ne _ hhash).trans hget
        · intro number hash body hnumber hhead hget
          rw [henters.canonicalHeads] at hhead
          rw [henters.blockBodies] at hget
          have hne := h.ne_of_waiting hnumber hhead hbody
          exact h.apart number hash body hnumber hhead
            ((Table.get_insert_of_ne _ hne).symm.trans hget)
      · rw [hbody] at hstored
        cases hstored

theorem Books.relocates (h : Books ran undone before) (hrelocates : Relocates block before after)
    (hheader : before.chain.headers.get block.hash = some block.header) :
    Books ran undone after where
  hash_eq := by rw [hrelocates.headers]; exact h.hash_eq
  logged := by rw [hrelocates.headers, hrelocates.headerLog]; exact h.logged
  number_eq := by
    intro hash header hget
    rw [hrelocates.headers] at hget
    rw [hrelocates.headerNumbers]
    split
    next heq =>
      rw [heq, hheader] at hget
      rw [Option.some.inj hget]
    next => exact h.number_eq hget
  body_iff := by rw [hrelocates.headers, hrelocates.blockBodies]; exact h.body_iff
  receipts := by rw [hrelocates.blockBodies, hrelocates.receipts]; exact h.receipts
  metas := by rw [hrelocates.blockBodies, hrelocates.state]; exact h.metas
  payloads := by
    intro entry hentry
    rw [hrelocates.payloads] at hentry
    unfold PayloadOf
    rw [hrelocates.blockBodies]
    exact h.payloads entry hentry

/-- The first block is marked: it is in place from then on, and what was in
place stays there. -/
theorem Marking.mark (h : Marking ran undone before (block :: rest))
    (hheader : before.chain.headers.get block.hash = some block.header)
    (hbody : before.chain.blockBodies.get block.hash = some block.body)
    (hrelocates : Relocates block before after) : Marking ran undone after rest := by
  have honce := h.once
  rw [transactionsOf_cons, List.nodup_append'] at honce
  obtain ⟨hself, hrest, hdisjoint⟩ := honce
  have hcons : ∀ {number : Nat}, number ≠ block.header.number →
      number ∉ rest.map (·.header.number) →
      number ∉ (block :: rest).map (·.header.number) := by
    intro number hne hnot
    rw [List.map_cons, List.mem_cons, not_or]
    exact ⟨hne, hnot⟩
  refine ⟨h.books.relocates hrelocates hheader, ?_, ?_, ?_, hrest, ?_⟩
  · intro number hash hnumber hhead
    rw [hrelocates.canonicalHeads, Table.get_insert] at hhead
    split at hhead
    next heq =>
      obtain rfl := Option.some.inj hhead
      refine ⟨h.fresh block List.mem_cons_self, ⟨block.header, ?_, heq.symm⟩, block.body, ?_, ?_⟩
      · rw [hrelocates.headers]
        exact hheader
      · rw [hrelocates.blockBodies]
        exact hbody
      · intro i tx htx
        rw [hrelocates.transactionLookup]
        exact get_placesOf hself htx
    next hne =>
      obtain ⟨hstays, ⟨header, hget, hnumbered⟩, body, hget', hlookup⟩ :=
        h.placed number hash (hcons hne hnumber) hhead
      refine ⟨hstays, ⟨header, ?_, hnumbered⟩, body, ?_, ?_⟩
      · rw [hrelocates.headers]
        exact hget
      · rw [hrelocates.blockBodies]
        exact hget'
      · intro i tx htx
        have happart := h.apart number hash body (hcons hne hnumber) hhead hget'
        rw [transactionsOf_cons, List.disjoint_append_left] at happart
        rw [hrelocates.transactionLookup,
          get_placesOf_of_disjoint happart.1 (List.mem_of_getElem? htx)]
        exact hlookup i tx htx
  · exact fun other hother => (h.available other (List.mem_cons_of_mem _ hother)).same
      hrelocates.headers hrelocates.blockBodies hrelocates.payloads
  · exact fun other hother => h.fresh other (List.mem_cons_of_mem _ hother)
  · intro number hash body hnumber hhead hget
    rw [hrelocates.canonicalHeads, Table.get_insert] at hhead
    rw [hrelocates.blockBodies] at hget
    split at hhead
    next heq =>
      obtain rfl := Option.some.inj hhead
      obtain rfl := Option.some.inj (hbody.symm.trans hget)
      exact hdisjoint.symm
    next hne =>
      have happart := h.apart number hash body (hcons hne hnumber) hhead hget
      rw [transactionsOf_cons, List.disjoint_append_left] at happart
      exact happart.2

/-- A whole branch, by induction on the blocks that are left. -/
theorem Marking.markAll {todo : List Block} (h : Marking ran undone engine todo) :
    ∃ after, Engine.markAll Faults.none engine todo = (.ok (), after) ∧
      Marking ran undone after [] := by
  induction todo generalizing engine with
  | nil => exact ⟨engine, rfl, h⟩
  | cons block rest ih =>
      obtain ⟨promoted, hpromoted, hmarking, hheader, hbody⟩ := h.promote
      obtain ⟨marked, hmarked, hrelocates⟩ := relocates_markCanonical hpromoted
      obtain ⟨after, hafter, hdone⟩ := ih (hmarking.mark hheader hbody hrelocates)
      refine ⟨after, ?_, hdone⟩
      rw [Engine.markAll, Faults.part_none, hmarked, andThen_ok, Faults.part_none, hafter]

end Marks

end Steps

/-! ## Fork choices -/

section Choices

variable [Keccak256] [Proofs] [Evm] {provider : EthExecutionProvider}
  {generate : B256 → PayloadAttributes → PayloadId} {ran : ExecutedBlock → Prop}
  {undone : B256 → Prop} {engine before after : Engine}

/-- Executing the blocks that are missing adds metadata only. -/
theorem Books.executeMissing (h : Books ran undone engine) (blocks : List Block)
    (hran : ∀ entry ∈ promotions (ethNode provider generate) engine blocks, ∀ executed state,
      provider.executeBlockWithStateRoot Faults.none entry.1.database entry.2 none =
        (.ok executed, state) → ran executed) :
    Books ran undone
      (Engine.executeMissing (ethNode provider generate) Faults.none engine blocks).2 := by
  induction blocks generalizing engine with
  | nil => exact h
  | cons block rest ih =>
      rw [promotions] at hran
      rw [Engine.executeMissing, Faults.part_none, Faults.part_none]
      by_cases hstored : (engine.chain.blockBodyByHash Faults.none block.hash).isSome
      · rw [if_pos hstored] at hran ⊢
        exact ih h hran
      · rw [if_neg hstored] at hran ⊢
        rw [Faults.part_none]
        cases hexecuted : provider.executeBlockWithStateRoot Faults.none engine.database block
            none with
        | mk result state =>
            have hresult : (ethNode provider generate).execution.executeBlockWithStateRoot
                Faults.none engine.database block none = (result, state) := hexecuted
            rw [ExecutionProvider.executeBlockWithCommit, hresult] at hran ⊢
            cases result with
            | error message =>
                have hstate : state = engine.state :=
                  (ethNode provider generate).execution.state_of_error hresult
                rw [hstate]
                exact h
            | ok executed =>
                obtain ⟨-, -, hrows⟩ := EthExecutionProvider.committed_of_execute hexecuted
                refine ih (h.commit (hran _ List.mem_cons_self executed state hexecuted) hrows) ?_
                exact fun entry hentry => hran entry (List.mem_cons_of_mem _ hentry)

/-- A switch to another branch whose blocks rejoin in order. -/
theorem books_switch {context : ReorgContext} (h : Books ran undone engine)
    (hplaced : PlacedAt undone (fun _ => True) engine)
    (havailable : ∀ block ∈ context.newCanonicalBlocks, Available engine block)
    (hrejoins : engine.Rejoins undone context) (old : CanonicalState)
    (hran : ∀ entry ∈ promotions (ethNode provider generate)
        (engine.revertFor Faults.none old context).2 context.newCanonicalBlocks,
      ∀ executed state, provider.executeBlockWithStateRoot Faults.none entry.1.database entry.2
        none = (.ok executed, state) → ran executed) :
    Books ran (undoneBy undone engine context)
        (andThen (engine.revertFor Faults.none old context) fun engine =>
          engine.adoptBranch (ethNode provider generate) Faults.none
            context.newCanonicalBlocks).2 ∧
      PlacedAt (undoneBy undone engine context) (fun _ => True)
        (andThen (engine.revertFor Faults.none old context) fun engine =>
          engine.adoptBranch (ethNode provider generate) Faults.none
            context.newCanonicalBlocks).2 := by
  have hreverts := reverts_revertFor engine old context
  cases hrevert : engine.revertFor Faults.none old context with
  | mk result reverted =>
      rw [hrevert] at hreverts hran
      have hbooks := h.reverts hreverts
      have hstays := hplaced.reverts hreverts
      cases result with
      | error message => exact ⟨hbooks, hstays⟩
      | ok done =>
          cases done
          simp only [andThen_ok, adoptBranch, Faults.part_none]
          have hexecuted := hbooks.executeMissing context.newCanonicalBlocks hran
          have hchain : (Engine.executeMissing (ethNode provider generate) Faults.none reverted
              context.newCanonicalBlocks).2.chain = reverted.chain := chain_executeMissing _ _
          cases hmissing : Engine.executeMissing (ethNode provider generate) Faults.none reverted
              context.newCanonicalBlocks with
          | mk result executed =>
              rw [hmissing] at hexecuted hchain
              dsimp only at hexecuted hchain
              have hstays' : PlacedAt (undoneBy undone engine context) (fun _ => True)
                  executed := by
                refine hstays.same ?_
                refine ⟨⟨?_, ?_, ?_, ?_, ?_⟩, ?_, ?_⟩
                all_goals rw [hchain]
                exact fun _ _ hhead => hhead
              cases result with
              | error message => exact ⟨hexecuted, hstays'⟩
              | ok done =>
                  cases done
                  have hmarking : Marking ran (undoneBy undone engine context) executed
                      context.newCanonicalBlocks.reverse := by
                    refine ⟨hexecuted, fun number hash _ => hstays' number hash trivial, ?_, ?_,
                      ?_, ?_⟩
                    · intro block hblock
                      refine (havailable block (List.mem_reverse.mp hblock)).same ?_ ?_ ?_
                      all_goals rw [hchain]
                      · exact hreverts.headers
                      · exact hreverts.blockBodies
                      · exact hreverts.payloads
                    · intro block hblock
                      have hfresh := hrejoins.fresh block (List.mem_reverse.mp hblock)
                      exact fun hundone => hundone.elim hfresh.1 hfresh.2
                    · exact (transactionsOf_reverse _).nodup_iff.mpr hrejoins.once
                    · intro number hash body hnumber hhead hbody
                      rw [hchain] at hhead hbody
                      obtain ⟨hbefore, hheight⟩ := (hreverts.canonicalHeads number hash).mp hhead
                      have happart := hrejoins.apart number hash body hbefore
                        (hreverts.blockBodies ▸ hbody) hheight (by simpa using hnumber)
                      exact fun _ hmem => happart ((transactionsOf_reverse _).mem_iff.mp hmem)
                  obtain ⟨after, hafter, hdone⟩ := hmarking.markAll
                  rw [andThen_ok, markBranchCanonical, hafter]
                  refine ⟨hdone.books, ?_⟩
                  exact fun number hash _ => hdone.placed number hash List.not_mem_nil

/-! ### The end of the call -/

section Adds

variable (node : Node) (outside : Outside)

/-- The execution provider built the payload on this state. -/
def BuiltOn (state : StateTables) (payload : Payload) : Prop :=
  ∃ (database : Database) (transactions : List Transaction) (parent : Header)
    (attributes : PayloadAttributes) (baseFee : Option Nat) (executed : ExecutedBlock),
    database.state = state ∧
    node.execution.executeBlockForPayload database transactions parent attributes baseFee =
      .ok executed ∧
    payload = ⟨executed.block, executed.receipts, executed.metas⟩

/-- Payloads may have been built, and nothing else is different. -/
structure Adds (before after : Engine) : Prop extends SameBooks before after where
  state : after.state = before.state
  payloads : ∀ entry ∈ after.chain.payloads,
    entry ∈ before.chain.payloads ∨ BuiltOn node before.state entry.2

variable {node}

omit [Keccak256] [Proofs] [Evm] in
theorem Adds.refl (engine : Engine) : Adds node engine engine :=
  ⟨.refl engine, rfl, fun _ hentry => .inl hentry⟩

omit [Keccak256] [Proofs] [Evm] in
theorem Adds.trans {last : Engine} (h : Adds node before after) (h' : Adds node after last) :
    Adds node before last where
  headers := h'.headers.trans h.headers
  headerLog := h'.headerLog.trans h.headerLog
  headerNumbers := h'.headerNumbers.trans h.headerNumbers
  blockBodies := h'.blockBodies.trans h.blockBodies
  receipts := h'.receipts.trans h.receipts
  transactionLookup := h'.transactionLookup.trans h.transactionLookup
  canonicalHeads := fun number hash hhead =>
    h.canonicalHeads number hash (h'.canonicalHeads number hash hhead)
  state := h'.state.trans h.state
  payloads := by
    intro entry hentry
    obtain hmiddle | hbuilt := h'.payloads entry hentry
    · exact h.payloads entry hmiddle
    · exact .inr (h.state ▸ hbuilt)

omit [Keccak256] [Proofs] [Evm] in
theorem adds_addPayload (id : PayloadId) {executed : ExecutedBlock}
    (h : BuiltOn node engine.state ⟨executed.block, executed.receipts, executed.metas⟩) :
    Adds node engine (engine.addPayload Faults.none id executed).2 := by
  refine ⟨⟨⟨rfl, rfl, rfl, rfl, rfl⟩, rfl, fun _ _ hhead => hhead⟩, rfl, fun entry hentry => ?_⟩
  obtain rfl | hold := mem_insertPayload hentry
  · exact .inr h
  · exact .inl hold

omit [Keccak256] [Proofs] [Evm] in
theorem adds_maybeRebuildPayload (id : PayloadId) :
    Adds node engine (engine.maybeRebuildPayload node outside Faults.none id) := by
  unfold maybeRebuildPayload
  split
  · exact .refl engine
  · split
    · exact .refl engine
    · dsimp only
      split
      · exact .refl engine
      · split
        · exact .refl engine
        · split
          · exact .refl engine
          next built hbuilt =>
            split
            · exact adds_addPayload id ⟨_, _, _, _, _, built, rfl, hbuilt, rfl⟩
            · exact .refl engine

omit [Keccak256] [Proofs] [Evm] in
theorem adds_buildEmptyPayload (head : B256) (attributes : PayloadAttributes) (id : PayloadId) :
    Adds node engine (engine.buildEmptyPayload node Faults.none head attributes id).2 := by
  unfold buildEmptyPayload
  split
  · exact .refl engine
  · split
    · exact .refl engine
    next built hbuilt => exact adds_addPayload id ⟨_, _, _, _, _, built, rfl, hbuilt, rfl⟩

omit [Keccak256] [Proofs] [Evm] in
theorem adds_buildNewPayload (head : B256) (attributes : PayloadAttributes) :
    Adds node engine (engine.buildNewPayload node outside Faults.none head attributes).2 := by
  have hempty : Adds node engine (engine.buildEmptyPayload node Faults.none head attributes
      (node.generatePayloadId head attributes)).2 := adds_buildEmptyPayload head attributes _
  unfold buildNewPayload
  dsimp only
  split
  · exact .refl engine
  · split
    · exact .refl engine
    · split
      · exact .refl engine
      · split
        next h =>
          rw [Faults.part_none] at h
          rwa [h] at hempty
        next h =>
          rw [Faults.part_none] at h
          rw [h] at hempty
          exact hempty.trans (adds_maybeRebuildPayload outside _)

omit [Keccak256] [Proofs] [Evm] in
theorem adds_finishForkchoice (head : B256) (status : PayloadStatus)
    (attributes : Option PayloadAttributes) (version : Nat) :
    Adds node engine
      (engine.finishForkchoice node outside Faults.none head status attributes version).2 := by
  unfold finishForkchoice
  split
  · exact .refl engine
  · split
    · exact .refl engine
    · exact adds_buildNewPayload outside head _

omit [Keccak256] [Proofs] [Evm] in
theorem Books.adds (h : Books ran undone before) (hadds : Adds node before after)
    (hbuilt : ∀ entry ∈ after.chain.payloads, BuiltOn node before.state entry.2 →
      PayloadOf ran before entry.2) : Books ran undone after := by
  refine h.same hadds.toSameRows ?_ ?_
  · rw [hadds.state]
    exact fun _ _ _ row _ _ _ hget hrow => ⟨row, hget, hrow⟩
  · exact fun entry hentry => (hadds.payloads entry hentry).imp_right (hbuilt entry hentry)

end Adds

omit [Keccak256] [Proofs] [Evm] in
theorem leaves_of_switching {choice : ForkchoiceState} {updated : Engine} {context : ReorgContext}
    (h : engine.switching choice = some (updated, context)) : Leaves engine updated := by
  unfold switching at h
  split at h
  · split at h
    · cases h
    · dsimp only at h
      split at h
      · cases h
      · split at h
        · cases h
        · obtain ⟨rfl, -⟩ := Prod.mk.inj (Option.some.inj h)
          exact leaves_updateState _ _ _
  · cases h

omit [Keccak256] [Evm] in
/-- A fork choice that does not switch changes nothing but the fork choice and
the payloads; one that does goes through undoing, executing and marking. -/
theorem step_forkchoice (node : Node) (engine : Engine) (outside : Outside)
    (choice : ForkchoiceState) (attributes : Option PayloadAttributes) (version : Nat) :
    (engine.switching choice = none ∧ ∃ settled, Leaves engine settled ∧
      Adds node settled (step node engine (.forkchoiceUpdated outside choice attributes version))) ∨
    ∃ updated context, engine.switching choice = some (updated, context) ∧
      Leaves engine updated ∧
      (∃ oldHead newHead, updated.chain.resolveReorg Faults.none oldHead newHead = .ok context) ∧
      ∃ settled, Leaves (andThen (updated.revertFor Faults.none engine.canonical context)
          fun engine => engine.adoptBranch node Faults.none context.newCanonicalBlocks).2 settled ∧
        Adds node settled
          (step node engine (.forkchoiceUpdated outside choice attributes version)) := by
  have hself : ∀ engine : Engine, Leaves engine engine :=
    fun engine => ⟨.refl engine, rfl, List.Subset.refl _⟩
  by_cases hstatus : (engine.headStatus Faults.none choice.headBlockHash).status = .valid
  · simp only [step, forkchoiceUpdated, Faults.part_none, switching, hstatus, ne_eq, not_true,
      if_false, if_true]
    cases engine.checkForkchoice Faults.none choice with
    | error error => exact .inl ⟨rfl, engine, hself engine, .refl engine⟩
    | ok number =>
        simp only [applyForkchoice, Faults.part_none]
        have hupdated := leaves_updateState engine choice
          (engine.headNumberOf Faults.none choice.headBlockHash number)
        generalize engine.updateState Faults.none choice
          (engine.headNumberOf Faults.none choice.headBlockHash number) = updated at hupdated ⊢
        cases updated.chain.headerOrPayload Faults.none choice.headBlockHash with
        | none => exact .inl ⟨rfl, updated, hupdated, adds_finishForkchoice outside _ _ _ _⟩
        | some header =>
            cases hcontext : updated.chain.resolveReorg Faults.none
                engine.canonical.state.headBlockHash choice.headBlockHash with
            | error message =>
                simp only [switchBranch, Faults.part_none, hcontext]
                exact .inl ⟨trivial, updated, hupdated, .refl updated⟩
            | ok context =>
                simp only [switchBranch, Faults.part_none, hcontext]
                refine .inr ⟨updated, context, rfl, hupdated, ⟨_, _, hcontext⟩, ?_⟩
                generalize andThen (updated.revertFor Faults.none engine.canonical context)
                  (fun engine => engine.adoptBranch node Faults.none context.newCanonicalBlocks) =
                    switched
                obtain ⟨result, switched⟩ := switched
                cases result with
                | error message => exact ⟨switched, hself switched, .refl switched⟩
                | ok done =>
                    exact ⟨_, leaves_updateState switched choice header.number,
                      adds_finishForkchoice outside _ _ _ _⟩
  · simp only [step, forkchoiceUpdated, Faults.part_none, switching, ne_eq, hstatus,
      not_false_eq_true, if_true, if_false]
    exact .inl ⟨trivial, engine, hself engine, .refl engine⟩

omit [Keccak256] [Proofs] [Evm] in
theorem undoneAfter_of_none {outside : Outside} {choice : ForkchoiceState}
    {attributes : Option PayloadAttributes} {version : Nat}
    (h : engine.switching choice = none) :
    undoneAfter undone engine (.forkchoiceUpdated outside choice attributes version) = undone := by
  funext hash
  simp [undoneAfter, h]

omit [Keccak256] [Proofs] [Evm] in
theorem undoneAfter_of_switching {outside : Outside} {choice : ForkchoiceState}
    {attributes : Option PayloadAttributes} {version : Nat} {updated : Engine}
    {context : ReorgContext} (h : engine.switching choice = some (updated, context)) :
    undoneAfter undone engine (.forkchoiceUpdated outside choice attributes version) =
      undoneBy undone updated context := by
  funext hash
  simp [undoneAfter, undoneBy, h]

theorem executeBlockForPayload_ethNode :
    (ethNode provider generate).execution.executeBlockForPayload =
      provider.executeBlockForPayload := by
  unfold ethNode EthExecutionProvider.executionProvider
  dsimp only

/-- A steady fork choice keeps the books. -/
theorem books_forkchoice (h : Books ran undone engine)
    (hplaced : PlacedAt undone (fun _ => True) engine) (outside : Outside)
    (choice : ForkchoiceState) (attributes : Option PayloadAttributes) (version : Nat)
    (hsteady : SteadyCall (ethNode provider generate) undone engine
      (.forkchoiceUpdated outside choice attributes version))
    (hran : ∀ executed, Ran (ethNode provider generate) engine
      (.forkchoiceUpdated outside choice attributes version) executed → ran executed) :
    Books ran (undoneAfter undone engine
        (.forkchoiceUpdated outside choice attributes version))
        (step (ethNode provider generate) engine
          (.forkchoiceUpdated outside choice attributes version)) ∧
      PlacedAt (undoneAfter undone engine
        (.forkchoiceUpdated outside choice attributes version)) (fun _ => True)
        (step (ethNode provider generate) engine
          (.forkchoiceUpdated outside choice attributes version)) := by
  -- What is built on the new head comes from the provider.
  have hfinish : ∀ {undone' : B256 → Prop} {settled : Engine}, Books ran undone' settled →
      PlacedAt undone' (fun _ => True) settled →
      Adds (ethNode provider generate) settled (step (ethNode provider generate) engine
        (.forkchoiceUpdated outside choice attributes version)) →
      Books ran undone' (step (ethNode provider generate) engine
          (.forkchoiceUpdated outside choice attributes version)) ∧
        PlacedAt undone' (fun _ => True) (step (ethNode provider generate) engine
          (.forkchoiceUpdated outside choice attributes version)) := by
    intro undone' settled hbooks hstays hadds
    refine ⟨hbooks.adds hadds ?_, hstays.same hadds.toSameBooks⟩
    rintro ⟨id, payload⟩ hentry ⟨database, transactions, parent, built, baseFee, executed, hstate,
      hresult, heq⟩
    dsimp only at heq
    subst heq
    have haccounted := hresult
    rw [executeBlockForPayload_ethNode] at haccounted
    refine .inl ⟨executed, ?_, EthExecutionProvider.accounted_of_payload haccounted, rfl⟩
    exact hran executed (.built (hstate.trans hadds.state.symm) hentry hresult)
  rcases step_forkchoice (ethNode provider generate) engine outside choice attributes version with
    ⟨hnone, settled, hleaves, hadds⟩ |
      ⟨updated, context, hswitching, hleaves, ⟨oldHead, newHead, hcontext⟩, settled, hleaves',
        hadds⟩
  · rw [undoneAfter_of_none hnone]
    exact hfinish (h.leaves hleaves) (hplaced.same hleaves.toSameBooks) hadds
  · rw [undoneAfter_of_switching hswitching]
    have hupdated := h.leaves hleaves
    have hpromoted : ∀ entry ∈ promotions (ethNode provider generate)
        (updated.revertFor Faults.none engine.canonical context).2 context.newCanonicalBlocks,
        ∀ executed state, provider.executeBlockWithStateRoot Faults.none entry.1.database entry.2
          none = (.ok executed, state) → ran executed :=
      fun entry hentry executed state hexecuted =>
        hran executed (.promoted hswitching hentry hexecuted)
    obtain ⟨hbooks, hstays⟩ := books_switch hupdated (hplaced.same hleaves.toSameBooks)
      (available_resolveReorg hupdated hcontext) (hsteady updated context hswitching)
      engine.canonical hpromoted
    exact hfinish (hbooks.leaves hleaves') (hstays.same hleaves'.toSameBooks) hadds

end Choices

end WasixEth.Engine
