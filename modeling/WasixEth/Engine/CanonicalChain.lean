import WasixEth.Engine.FailedForkchoice
import WasixEth.Engine.Marking

/-! # The canonical chain follows the head

From a state in which the canonical chain is that of the current head, a fork
choice that is accepted, does not name a lower head and does not fail to
execute a payload it promotes leaves the canonical chain of the new head.
-/

namespace WasixEth

open Storage ChainTables

variable [BlockHashing]

/-- The stored blocks from a head down to, but not including, an ancestor. -/
inductive Branch (tables : ChainTables) : B256 → List Block → B256 → Prop where
  | nil (common : B256) : Branch tables common [] common
  | cons {block : Block} {rest : List Block} {common : B256}
      (hblock : tables.headers.get block.hash = some block.header)
      (hbuilt : BuiltOnStored tables block.header)
      (hrest : Branch tables block.header.parentHash rest common) :
      Branch tables block.hash (block :: rest) common

section Walk

variable {genesis oldHead : B256} {tables : ChainTables}

/-- The genesis block is an ancestor of every stored one. -/
theorem CanonicalChain.isCanonical_genesis (hchain : CanonicalChain tables oldHead)
    (hinv : ChainInvariant genesis tables) : tables.isCanonical Faults.none genesis = true := by
  obtain ⟨root, hroot⟩ := Option.isSome_iff_exists.mp hinv.genesis_mem
  obtain ⟨head, hhead⟩ := Option.isSome_iff_exists.mp hchain.head_mem
  rw [hchain.isCanonical_iff hinv hroot]
  exact hinv.rooted.ancestor_root (links_eq_some hroot) (links_eq_some hhead)

/-- The chain of a block stays its chain when headers are added. -/
theorem CanonicalChain.mono {tables' : ChainTables} {head : B256}
    (hchain : CanonicalChain tables head) (hinv : ChainInvariant genesis tables)
    (hinv' : ChainInvariant genesis tables')
    (hsub : ∀ hash header, tables.headers.get hash = some header →
      tables'.headers.get hash = some header)
    (hheads : tables'.canonicalHeads = tables.canonicalHeads) : CanonicalChain tables' head := by
  obtain ⟨header, hheader⟩ := Option.isSome_iff_exists.mp hchain.head_mem
  refine ⟨by rw [hsub _ _ hheader]; rfl, ?_⟩
  intro n hash
  rw [hheads, hinv.ancestorAt_iff hinv' hsub hheader]
  exact hchain.heads_iff n hash

/-- What the walk finds: the first block that is canonical, and the branch
that leads to it. -/
structure WalkFinds (tables : ChainTables) (oldHead current : B256) (common : B256)
    (blocks : List Block) : Prop where
  branch : Branch tables current blocks common
  canonical : ∃ header, tables.headers.get common = some header ∧
    tables.AncestorAt oldHead header.number common

/-- From a stored block the walk ends at a canonical one. By induction on the
fuel, which the number of the block bounds from below. -/
theorem walkBack_stored (hchain : CanonicalChain tables oldHead)
    (hinv : ChainInvariant genesis tables) (fuel : Nat) {current : B256} {header : Header}
    (hcurrent : tables.headers.get current = some header) (hfuel : header.number < fuel) :
    ∃ common blocks, tables.walkBack oldHead fuel Faults.none current =
      .ok ⟨common, true, blocks⟩ ∧ WalkFinds tables oldHead current common blocks := by
  induction fuel generalizing current header with
  | zero => omega
  | succ fuel ih =>
      rw [walkBack]
      dsimp only
      rw [if_neg (hinv.hash_ne_zero hcurrent)]
      split
      next heq =>
        subst heq
        exact ⟨current, [], rfl, .nil _, header, hcurrent, .self (links_eq_some hcurrent)⟩
      next =>
        rw [Faults.part_none]
        split
        next hcanonical =>
          exact ⟨current, [], rfl, .nil _, header, hcurrent,
            (hchain.isCanonical_iff hinv hcurrent).mp hcanonical⟩
        next hcanonical =>
          have hne : current ≠ genesis := by
            intro heq
            rw [heq] at hcanonical
            exact hcanonical (hchain.isCanonical_genesis hinv)
          obtain ⟨body, hbody⟩ := hinv.exists_blockByHash hcurrent
          have hbuilt := hinv.parent_mem hcurrent hne
          obtain ⟨parent, hparent, hnumber⟩ := hbuilt
          obtain ⟨common, blocks, hwalk, hfinds⟩ := ih hparent (by omega)
          have hdata : tables.blockOrPayload Faults.none current = some ⟨header, body⟩ := by
            rw [blockOrPayload, Faults.part_none, hbody]
            rfl
          simp only [Faults.part_none, hinv.header_eq hcurrent, hdata, hwalk]
          have hhash : Block.hash ⟨header, body⟩ = current := hinv.hash_eq hcurrent
          refine ⟨common, ⟨header, body⟩ :: blocks, rfl, ?_, hfinds.canonical⟩
          rw [← hhash]
          exact .cons (by rw [hhash]; exact hcurrent) ⟨parent, hparent, hnumber⟩ hfinds.branch

/-- A payload that is not stored yet. -/
structure PayloadOnly (tables : ChainTables) (hash : B256) (payload : Payload) : Prop where
  header_eq : tables.headers.get hash = none
  payload_eq : tables.getPayloadByBlockHash Faults.none hash = some payload

theorem PayloadOnly.hash_eq {hash : B256} {payload : Payload}
    (h : PayloadOnly tables hash payload) : payload.block.hash = hash :=
  hash_of_getPayload h.payload_eq

theorem PayloadOnly.built {hash : B256} {payload : Payload} (h : PayloadOnly tables hash payload)
    (hinv : ChainInvariant genesis tables) : BuiltOnStored tables payload.block.header := by
  have hfind := h.payload_eq
  simp only [getPayloadByBlockHash, Faults.read_none, Option.map_eq_some_iff] at hfind
  obtain ⟨entry, hentry, rfl⟩ := hfind
  rcases hinv.payload_mem entry (List.mem_of_find?_eq_some hentry) with hgenesis | hbuilt
  · -- The genesis block is stored.
    have hsome := hinv.genesis_mem
    rw [← hgenesis, h.hash_eq, h.header_eq] at hsome
    cases hsome
  · exact hbuilt

/-- From a payload the walk takes one step and goes on from its parent. -/
theorem walkBack_payload (hchain : CanonicalChain tables oldHead)
    (hinv : ChainInvariant genesis tables) {newHead : B256} {payload : Payload}
    (hpayload : PayloadOnly tables newHead payload) (hzero : newHead ≠ B256.zero) {fuel : Nat}
    (hfuel : payload.block.header.number < fuel) :
    ∃ common blocks, tables.walkBack oldHead (fuel + 1) Faults.none newHead =
      .ok ⟨common, true, payload.block :: blocks⟩ ∧
      WalkFinds tables oldHead payload.block.header.parentHash common blocks := by
  have hold : newHead ≠ oldHead := by
    intro heq
    have hsome := hchain.head_mem
    rw [← heq, hpayload.header_eq] at hsome
    cases hsome
  have hcanonical : tables.isCanonical Faults.none newHead = false := by
    by_contra h
    rw [Bool.not_eq_false] at h
    obtain ⟨header, hheader⟩ := hchain.exists_header_of_isCanonical h
    rw [hpayload.header_eq] at hheader
    cases hheader
  obtain ⟨parent, hparent, hnumber⟩ := hpayload.built hinv
  obtain ⟨common, blocks, hwalk, hfinds⟩ := walkBack_stored hchain hinv fuel hparent (by omega)
  refine ⟨common, blocks, ?_, hfinds⟩
  rw [walkBack]
  simp [hzero, hold, hcanonical, Engine.header_eq_none _ hpayload.header_eq, hpayload.payload_eq,
    hwalk]

end Walk

/-! ## Adopting a branch -/

namespace Engine

variable {genesis : B256}

theorem markAll_append (engine : Engine) (first second : List Block) :
    markAll Faults.none engine (first ++ second) =
      andThen (markAll Faults.none engine first) fun engine =>
        markAll Faults.none engine second := by
  induction first generalizing engine with
  | nil => rfl
  | cons block rest ih =>
      rw [List.cons_append, markAll, markAll, Faults.part_none]
      cases engine.markCanonical Faults.none block with
      | mk result marked =>
          cases result with
          | error message => rfl
          | ok _ =>
              simp only [andThen, Faults.part_none]
              exact ih marked

/-- Marking a stored branch, by induction from its lower end. -/
theorem markBranchCanonical_branch {engine : Engine} {head common : B256} {blocks : List Block}
    (hbranch : Branch engine.chain head blocks common) (hinv : ChainInvariant genesis engine.chain)
    (hchain : CanonicalChain engine.chain common) :
    ∃ after, engine.markBranchCanonical Faults.none blocks = (.ok (), after) ∧
      ChainInvariant genesis after.chain ∧ CanonicalChain after.chain head ∧
      after.chain.headers = engine.chain.headers ∧
      after.chain.payloads = engine.chain.payloads := by
  induction hbranch with
  | nil common => exact ⟨engine, rfl, hinv, hchain, rfl, rfl⟩
  | @cons block rest common hblock hbuilt _ ih =>
      obtain ⟨below, hbelow, hinv', hchain', hheaders, hpayloads⟩ := ih hchain
      have hstored : below.chain.headers.get block.hash = some block.header := by
        rw [hheaders, hblock]
      have hbody : (below.chain.blockBodies.get block.hash).isSome := by
        rw [hinv'.body_iff, hstored]
        rfl
      obtain ⟨after, hafter, hmarked⟩ := markCanonical_none (promotePayload_stored hbody)
      refine ⟨after, ?_, hmarked.invariant hinv' hstored, hmarked.canonicalChain hstored ?_ hchain',
        hmarked.headers.trans hheaders, hmarked.payloads.trans hpayloads⟩
      · unfold markBranchCanonical at hbelow ⊢
        rw [List.reverse_cons, markAll_append, hbelow, andThen_ok, markAll, Faults.part_none,
          hafter]
        rfl
      · unfold BuiltOnStored
        rw [hheaders]
        exact hbuilt

/-- What adopting a branch leaves: the canonical chain of its head, as long as
hashes do not collide. -/
def Adopts (genesis head : B256) (header : Header) (after : Engine) : Prop :=
  HashesApart after.chain.headerLog → ChainInvariant genesis after.chain ∧
    CanonicalChain after.chain head ∧ after.chain.headers.get head = some header

/-- The last block of the branch is only among the payloads. -/
theorem markBranchCanonical_payload {engine : Engine} {head common : B256} {payload : Payload}
    {rest : List Block} (hpayload : PayloadOnly engine.chain head payload)
    (hbranch : Branch engine.chain payload.block.header.parentHash rest common)
    (hinv : ChainInvariant genesis engine.chain) (hchain : CanonicalChain engine.chain common) :
    ∃ after, engine.markBranchCanonical Faults.none (payload.block :: rest) = (.ok (), after) ∧
      Adopts genesis head payload.block.header after := by
  obtain ⟨below, hbelow, hinv', hchain', hheaders, hpayloads⟩ :=
    markBranchCanonical_branch hbranch hinv hchain
  have hbuilt : BuiltOnStored below.chain payload.block.header := by
    unfold BuiltOnStored
    rw [hheaders]
    exact hpayload.built hinv
  have hbody : below.chain.blockBodies.get payload.block.hash = none := by
    rw [← Option.not_isSome_iff_eq_none, hinv'.body_iff, hheaders, hpayload.hash_eq,
      hpayload.header_eq]
    simp
  have hfound : below.chain.getPayloadByBlockHash Faults.none payload.block.hash =
      some payload := by
    rw [getPayloadByBlockHash, hpayloads, hpayload.hash_eq]
    exact hpayload.payload_eq
  obtain ⟨promoted, hpromoted, _, hstores⟩ := promotePayload_payload hbody hfound rfl
  obtain ⟨after, hafter, hmarked⟩ := markCanonical_none hpromoted
  refine ⟨after, ?_, ?_⟩
  · unfold markBranchCanonical at hbelow ⊢
    rw [List.reverse_cons, markAll_append, hbelow, andThen_ok, markAll, Faults.part_none, hafter]
    rfl
  · intro hapart
    rw [hmarked.headerLog] at hapart
    have hsub := hstores.headers_sub hinv' hapart
    have hpromotedInv := hstores.invariant hinv' hapart hbuilt
    have hstored : promoted.chain.headers.get payload.block.hash = some payload.block.header := by
      rw [hstores.headers]
      exact Table.get_insert_self _ _ _
    rw [← hpayload.hash_eq, hmarked.headers]
    exact ⟨hmarked.invariant hpromotedInv hstored, hmarked.canonicalChain hstored
      (hbuilt.mono hsub) (hchain'.mono hinv' hpromotedInv hsub hstores.canonicalHeads), hstored⟩

section Adopt

variable (node : Node)

/-- Stored blocks need not be executed again. -/
theorem executeMissing_branch {engine : Engine} {head common : B256} {blocks : List Block}
    (hbranch : Branch engine.chain head blocks common)
    (hinv : ChainInvariant genesis engine.chain) :
    executeMissing node Faults.none engine blocks = (.ok (), engine) := by
  induction hbranch with
  | nil common => rfl
  | @cons block rest common hblock _ _ ih =>
      have hbody : (engine.chain.blockBodies.get block.hash).isSome := by
        rw [hinv.body_iff, hblock]
        rfl
      simp only [executeMissing, Faults.part_none, blockBodyByHash, Faults.read_none, hbody,
        if_true]
      exact ih

theorem adoptBranch_branch {engine : Engine} {head common : B256} {blocks : List Block}
    {header : Header} (hbranch : Branch engine.chain head blocks common)
    (hinv : ChainInvariant genesis engine.chain) (hchain : CanonicalChain engine.chain common)
    (hstored : engine.chain.headers.get head = some header) :
    ∃ after, engine.adoptBranch node Faults.none blocks = (.ok (), after) ∧
      Adopts genesis head header after := by
  obtain ⟨after, hafter, hinv', hchain', hheaders, _⟩ :=
    markBranchCanonical_branch hbranch hinv hchain
  refine ⟨after, ?_, fun _ => ⟨hinv', hchain', hheaders ▸ hstored⟩⟩
  simp only [adoptBranch, Faults.part_none, executeMissing_branch node hbranch hinv, andThen_ok,
    hafter]

theorem adoptBranch_payload {engine : Engine} {head common : B256} {payload : Payload}
    {rest : List Block} (hpayload : PayloadOnly engine.chain head payload)
    (hbranch : Branch engine.chain payload.block.header.parentHash rest common)
    (hinv : ChainInvariant genesis engine.chain) (hchain : CanonicalChain engine.chain common)
    {executed : ExecutedBlock} {state : StateTables}
    (hexecuted : node.execution.executeBlockWithCommit Faults.none engine.database payload.block =
      (.ok executed, state)) :
    ∃ after, engine.adoptBranch node Faults.none (payload.block :: rest) = (.ok (), after) ∧
      Adopts genesis head payload.block.header after := by
  have hbody : engine.chain.blockBodies.get payload.block.hash = none := by
    rw [← Option.not_isSome_iff_eq_none, hinv.body_iff, hpayload.hash_eq, hpayload.header_eq]
    simp
  obtain ⟨after, hafter, hadopts⟩ :
      ∃ after, markBranchCanonical Faults.none { engine with state } (payload.block :: rest) =
        (.ok (), after) ∧ Adopts genesis head payload.block.header after :=
    markBranchCanonical_payload hpayload hbranch hinv hchain
  have hrest : executeMissing node Faults.none { engine with state } rest =
      (.ok (), { engine with state }) :=
    executeMissing_branch node hbranch hinv
  refine ⟨after, ?_, hadopts⟩
  simp only [adoptBranch, executeMissing, Faults.part_none, blockBodyByHash, Faults.read_none,
    hbody, Option.isSome_none, Bool.false_eq_true, if_false, hexecuted, hrest, andThen_ok, hafter]

/-! ## Moving the chain -/

/-- The parts of the chain tables that blocks are found by. -/
structure SameBlocks (before after : Engine) : Prop where
  headers : after.chain.headers = before.chain.headers
  payloads : after.chain.payloads = before.chain.payloads

theorem SameBlocks.branch {before after : Engine} (h : SameBlocks before after)
    {head common : B256} {blocks : List Block} (hbranch : Branch before.chain head blocks common) :
    Branch after.chain head blocks common := by
  induction hbranch with
  | nil common => exact .nil common
  | cons hblock hbuilt _ ih =>
      refine .cons (by rw [h.headers]; exact hblock) ?_ ih
      unfold BuiltOnStored
      rw [h.headers]
      exact hbuilt

theorem SameBlocks.payloadOnly {before after : Engine} (h : SameBlocks before after)
    {hash : B256} {payload : Payload} (hpayload : PayloadOnly before.chain hash payload) :
    PayloadOnly after.chain hash payload where
  header_eq := by rw [h.headers]; exact hpayload.header_eq
  payload_eq := by
    rw [getPayloadByBlockHash, h.payloads]
    exact hpayload.payload_eq

/-- The same chain with another fork choice. -/
def withForkchoice (tables : ChainTables) (forkchoice : ForkchoiceTable) : ChainTables :=
  { tables with forkchoice }

omit [BlockHashing] in
theorem updateHead_none (engine : Engine) (hash : B256) (number : Nat) :
    ∃ forkchoice canonical, engine.updateHead Faults.none hash number =
      (.ok (), { engine with chain := withForkchoice engine.chain forkchoice, canonical }) := by
  unfold updateHead
  split
  · exact ⟨engine.chain.forkchoice, engine.canonical, rfl⟩
  · exact ⟨_, _, rfl⟩

omit [BlockHashing] in
/-- Erasing the heights above an ancestor leaves its chain. -/
theorem canonicalChain_eraseBetween {tables tables' : ChainTables} {oldHead common : B256}
    {oldHeader header : Header} {number : Nat} (hchain : CanonicalChain tables oldHead)
    (hold : tables.headers.get oldHead = some oldHeader) (hle : oldHeader.number ≤ number)
    (hheader : tables.headers.get common = some header)
    (hancestor : tables.AncestorAt oldHead header.number common)
    (hheaders : tables'.headers = tables.headers)
    (hheads : tables'.canonicalHeads =
      eraseBetween tables.canonicalHeads header.number number) :
    CanonicalChain tables' common := by
  have hlinks : tables'.links = tables.links := by
    funext hash
    rw [links, links, hheaders]
  refine ⟨by rw [hheaders, hheader]; rfl, ?_⟩
  intro n hash
  have hiff : tables.AncestorAt common n hash ↔
      n ≤ header.number ∧ tables.AncestorAt oldHead n hash := hancestor.iff_of_ancestor
  rw [AncestorAt, hlinks]
  change _ ↔ tables.AncestorAt common n hash
  rw [hiff, ← hchain.heads_iff, hheads, eraseBetween, Table.get_eraseWhere]
  split
  next h =>
    simp only [Bool.and_eq_true, decide_eq_true_eq] at h
    simp only [reduceCtorEq, false_iff, not_and]
    omega
  next h =>
    simp only [Bool.and_eq_true, decide_eq_true_eq, not_and, not_le] at h
    constructor
    · intro hget
      refine ⟨?_, hget⟩
      by_contra hlt
      have hlow := ((hchain.heads_iff n hash).mp hget).le_height (links_eq_some hold)
      have := h (by omega)
      simp only [Header.link] at hlow
      omega
    · exact And.right

/-- What has to be undone for the new branch. -/
theorem revertFor_none {updated : Engine} {old : CanonicalState} {context : ReorgContext}
    {oldHeader header : Header} (hinv : ChainInvariant genesis updated.chain)
    (hchain : CanonicalChain updated.chain old.state.headBlockHash)
    (hold : updated.chain.headers.get old.state.headBlockHash = some oldHeader)
    (hle : oldHeader.number ≤ updated.canonical.headNumber)
    (hheader : updated.chain.headers.get context.commonAncestorHash = some header)
    (hancestor : updated.chain.AncestorAt old.state.headBlockHash header.number
      context.commonAncestorHash)
    (hreorg : context.isReorg = false → context.commonAncestorHash = old.state.headBlockHash) :
    ∃ reverted, updated.revertFor Faults.none old context = (.ok (), reverted) ∧
      ChainInvariant genesis reverted.chain ∧
      CanonicalChain reverted.chain context.commonAncestorHash ∧ SameBlocks updated reverted := by
  unfold revertFor
  cases hcase : context.isReorg with
  | false =>
      refine ⟨updated, rfl, hinv, ?_, rfl, rfl⟩
      rw [hreorg hcase]
      exact hchain
  | true =>
      obtain ⟨state, hdown⟩ := revertDown_none header.number updated updated.canonical.headNumber
      have hhash : (eraseBetween updated.chain.canonicalHeads header.number
          updated.canonical.headNumber).get header.number = some context.commonAncestorHash := by
        rw [eraseBetween, Table.get_eraseWhere, if_neg (by simp)]
        exact (hchain.heads_iff _ _).mpr hancestor
      obtain ⟨forkchoice, canonical, hhead⟩ := updateHead_none { updated with
        chain := withHeads updated.chain (eraseBetween updated.chain.canonicalHeads header.number
          updated.canonical.headNumber)
        state } context.commonAncestorHash header.number
      refine ⟨{ updated with
        chain := withForkchoice (withHeads updated.chain (eraseBetween
          updated.chain.canonicalHeads header.number updated.canonical.headNumber)) forkchoice
        state
        canonical }, ?_, ?_, ?_, rfl, rfl⟩
      · simp only [if_true, revertToCommon, Faults.part_none, hinv.header_eq hheader,
          Option.map_some, Option.getD_some, revertToHeight, hdown, andThen_ok, reading_none]
        have hread : (withHeads updated.chain (eraseBetween updated.chain.canonicalHeads
            header.number updated.canonical.headNumber)).canonicalHeads.get header.number =
              some context.commonAncestorHash := hhash
        simp only [hread, hhead]
      · exact ⟨hinv.hash_eq, hinv.logged, hinv.apart, hinv.number_eq, hinv.body_iff,
          hinv.genesis_mem, hinv.parent_mem, hinv.payload_mem⟩
      · exact canonicalChain_eraseBetween hchain hold hle hheader hancestor rfl rfl

/-- The context of a walk that found a canonical block other than the new
head. -/
theorem resolveReorg_of_walk {tables : ChainTables} {oldHead newHead common : B256}
    {blocks : List Block}
    (hwalk : tables.walkBack oldHead (tables.walkBound newHead) Faults.none newHead =
      .ok ⟨common, true, blocks⟩) (hne : common ≠ newHead) :
    tables.resolveReorg Faults.none oldHead newHead =
      .ok ⟨common, blocks, decide (common ≠ oldHead)⟩ := by
  rw [resolveReorg, hwalk]
  by_cases hold : common = oldHead
  · subst hold
    simp [hne]
  · simp [hne, hold, Ne.symm hold]

/-- What a fork choice for `newHead` finds when it is applied. -/
structure Applies (genesis : B256) (updated : Engine) (old : CanonicalState) (newHead : B256)
    (header : Header) : Prop where
  invariant : ChainInvariant genesis updated.chain
  chain : CanonicalChain updated.chain old.state.headBlockHash
  ne_zero : newHead ≠ B256.zero
  header_eq : updated.chain.headerOrPayload Faults.none newHead = some header
  number_eq : updated.canonical.headNumber = header.number
  not_lower : ∀ oldHeader, updated.chain.headers.get old.state.headBlockHash = some oldHeader →
    oldHeader.number ≤ header.number

/-- The payload of the head, if it is not stored yet, can be executed on what
is left after reverting. -/
def PromotionRuns (updated : Engine) (old : CanonicalState) (newHead : B256) : Prop :=
  ∀ context payload,
    updated.chain.resolveReorg Faults.none old.state.headBlockHash newHead = .ok context →
    PayloadOnly updated.chain newHead payload →
    ∃ executed state, node.execution.executeBlockWithCommit Faults.none
      (updated.revertFor Faults.none old context).2.database payload.block = (.ok executed, state)

section Switch

variable {node} {updated : Engine} {old : CanonicalState} {newHead : B256} {header : Header}

/-- Once the chain is reverted, the branch that the walk found is adopted. -/
theorem revertFor_of_finds (h : Applies genesis updated old newHead header)
    {current common : B256} {blocks : List Block} (all : List Block)
    (hfinds : WalkFinds updated.chain old.state.headBlockHash current common blocks) :
    ∃ reverted, updated.revertFor Faults.none old
        ⟨common, all, decide (common ≠ old.state.headBlockHash)⟩ = (.ok (), reverted) ∧
      ChainInvariant genesis reverted.chain ∧ CanonicalChain reverted.chain common ∧
      SameBlocks updated reverted := by
  obtain ⟨commonHeader, hcommon, hancestor⟩ := hfinds.canonical
  obtain ⟨oldHeader, hold⟩ := Option.isSome_iff_exists.mp h.chain.head_mem
  refine revertFor_none h.invariant h.chain hold ?_ hcommon hancestor ?_
  · rw [h.number_eq]
    exact h.not_lower oldHeader hold
  · simp

theorem switchBranch_stored (h : Applies genesis updated old newHead header)
    (hstored : updated.chain.headers.get newHead = some header) :
    ∃ after, updated.switchBranch node Faults.none old newHead = (.ok (), after) ∧
      Adopts genesis newHead header after := by
  have hbound : header.number < updated.chain.walkBound newHead := by
    rw [walkBound, h.header_eq]
    simp
  obtain ⟨common, blocks, hwalk, hfinds⟩ :=
    walkBack_stored h.chain h.invariant _ hstored hbound
  by_cases hcommon : common = newHead
  · -- The new head is canonical and not below the old one, so it is the old one.
    subst hcommon
    obtain ⟨commonHeader, hget, hancestor⟩ := hfinds.canonical
    rw [hstored] at hget
    cases hget
    obtain ⟨oldHeader, hold⟩ := Option.isSome_iff_exists.mp h.chain.head_mem
    have hle := h.not_lower oldHeader hold
    have hge := hancestor.le_height (links_eq_some hold)
    simp only [Header.link] at hge
    have heq : common = old.state.headBlockHash :=
      hancestor.eq_of_height (links_eq_some hold) (by simp only [Header.link]; omega)
    refine ⟨updated, switchBranch_trivial node _ _ (.inr heq), fun _ => ?_⟩
    rw [heq] at hstored ⊢
    exact ⟨h.invariant, h.chain, hstored⟩
  · obtain ⟨reverted, hrevert, hinv, hchain, hsame⟩ := revertFor_of_finds h blocks hfinds
    obtain ⟨after, hafter, hadopts⟩ :=
      adoptBranch_branch node (hsame.branch hfinds.branch) hinv hchain
        (hsame.headers ▸ hstored)
    refine ⟨after, ?_, hadopts⟩
    simp only [switchBranch, Faults.part_none, resolveReorg_of_walk hwalk hcommon, hrevert,
      andThen_ok, hafter]

theorem switchBranch_payload (h : Applies genesis updated old newHead header)
    (hpromotes : PromotionRuns node updated old newHead) {payload : Payload}
    (hpayload : PayloadOnly updated.chain newHead payload) :
    ∃ after, updated.switchBranch node Faults.none old newHead = (.ok (), after) ∧
      Adopts genesis newHead header after := by
  have hheader : payload.block.header = header := by
    have hread := h.header_eq
    rw [headerOrPayload, header_eq_none _ hpayload.header_eq, Faults.part_none,
      hpayload.payload_eq] at hread
    simpa using hread
  obtain ⟨common, blocks, hwalk, hfinds⟩ := walkBack_payload h.chain h.invariant hpayload h.ne_zero
    (Nat.lt_succ_self payload.block.header.number)
  have hbound : updated.chain.walkBound newHead = payload.block.header.number + 1 + 1 := by
    rw [walkBound, h.header_eq, hheader]
    rfl
  rw [Nat.succ_eq_add_one, ← hbound] at hwalk
  have hcommon : common ≠ newHead := by
    rintro rfl
    obtain ⟨commonHeader, hget, _⟩ := hfinds.canonical
    rw [hpayload.header_eq] at hget
    cases hget
  have hresolve := resolveReorg_of_walk hwalk hcommon
  obtain ⟨reverted, hrevert, hinv, hchain, hsame⟩ :=
    revertFor_of_finds h (payload.block :: blocks) hfinds
  obtain ⟨executed, state, hexecuted⟩ := hpromotes _ payload hresolve hpayload
  rw [hrevert] at hexecuted
  obtain ⟨after, hafter, hadopts⟩ := adoptBranch_payload node (hsame.payloadOnly hpayload)
    (hsame.branch hfinds.branch) hinv hchain hexecuted
  rw [hheader] at hadopts
  refine ⟨after, ?_, hadopts⟩
  simp only [switchBranch, Faults.part_none, hresolve, hrevert, andThen_ok, hafter]

theorem switchBranch_none (h : Applies genesis updated old newHead header)
    (hpromotes : PromotionRuns node updated old newHead) :
    ∃ after, updated.switchBranch node Faults.none old newHead = (.ok (), after) ∧
      Adopts genesis newHead header after := by
  have hread := h.header_eq
  rw [headerOrPayload, Faults.part_none] at hread
  cases hstored : updated.chain.headers.get newHead with
  | some stored =>
      rw [h.invariant.header_eq hstored] at hread
      simp only [Option.some_or, Option.some.injEq] at hread
      exact switchBranch_stored h (hstored.trans (congrArg some hread))
  | none =>
      rw [header_eq_none _ hstored] at hread
      simp only [Option.none_or, Option.map_eq_some_iff] at hread
      obtain ⟨payload, hpayload, _⟩ := hread
      exact switchBranch_payload h hpromotes ⟨hstored, hpayload⟩

end Switch

end Adopt

end Engine

end WasixEth
