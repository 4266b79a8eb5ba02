import WasixEth.Engine.PayloadProcessor
import WasixEth.Lib.Coroutine

/-! # Imports that run at the same time

The calls of the payload processor as tasks. Every access to what they share
is a step of its own: a lock that is taken and given back, a read of the
database, a batch that is committed. Between two steps other tasks may run. An
execution is one step, which reads the state and commits its own batch, and so
is the search for the latest valid ancestor, which reads only and whose answer
goes into the reply. Where a loop of the source has no bound, a call is given
the number of rounds it takes, and halts if it needs more.
-/

namespace WasixEth.Concurrent

open Storage

/-! ## What the tasks share -/

/-- `spawned` has the blocks for whose descendants a task was spawned that has
not started yet. Whether an access to the database fails is up to `faults`
at that moment. -/
structure Shared where
  engine : Engine
  processing : List B256
  spawned : List B256
  outside : Outside
  faults : Faults

/-- The steps that the rest of the development names: the check whether
someone else processes a child, and the second write of `add_orphan`. -/
inductive Point where
  | access
  | claiming (child : B256)
  | linking (parentHash : B256)

/-- Where a step stands, and in `new_payload_internal_inner` for which block. -/
structure Place where
  inner : Option B256
  point : Point

abbrev Async := Coroutine Place Shared

abbrev Answer := Except RpcError PayloadStatus

section Accesses

variable {α : Type}

def look (answer : Shared → α) : Async α := Coroutine.access ⟨none, .access⟩ answer id

def change (answer : Shared → α) (act : Shared → Shared) : Async α :=
  Coroutine.access ⟨none, .access⟩ answer act

def yieldNow : Async Unit := look fun _ => ()

def Shared.onTree (act : BlockTree → BlockTree) (shared : Shared) : Shared :=
  { shared with engine := { shared.engine with blockTree := act shared.engine.blockTree } }

def Shared.onProcessing (act : List B256 → List B256) (shared : Shared) : Shared :=
  { shared with processing := act shared.processing }

/-- A write of the database, whose error is ignored. -/
def Shared.onDatabase (act : Engine → Engine) (shared : Shared) : Shared :=
  if shared.faults.now then shared else { shared with engine := act shared.engine }

/-- Start a task that invalidates the descendants of the block. -/
def spawn (hash : B256) : Async Unit :=
  change (fun _ => ()) fun shared => { shared with spawned := hash :: shared.spawned }

/-- Mark every step as one of `new_payload_internal_inner` for this block. -/
def within (hash : B256) (task : Async α) : Async α :=
  task.relabel fun place => { place with inner := some hash }

end Accesses

/-! ## The block tree -/

def addOrphan [BlockHashing] (parentHash : B256) (block : Block) : Async Unit := do
  change (fun _ => ()) (Shared.onTree fun tree =>
    { tree with blocks := tree.blocks.insert block.hash block })
  Coroutine.access ⟨none, .linking parentHash⟩ (fun _ => ()) (Shared.onTree fun tree =>
    { tree with children := tree.children ++ [(parentHash, block.hash)] })

def markInvalid (hash parentHash : B256) (reason : InvalidationReason) : Async Unit := do
  change (fun _ => ()) (Shared.onTree fun tree =>
    { tree with
      invalidBlocks := tree.invalidBlocks.insert hash
        (if hash = parentHash then B256.zero else parentHash, reason) })
  change (fun _ => ()) (Shared.onTree (·.removeBlock hash))

def getInvalidationReason (hash : B256) : Async (Option InvalidationReason) :=
  look (·.engine.blockTree.getInvalidationReason hash)

def removeChildren (parentHash : B256) : Async (List B256) :=
  change (·.engine.blockTree.getChildren parentHash) (Shared.onTree (·.removeChildren parentHash))

def removeBlock (hash : B256) : Async (Option Block) :=
  change (·.engine.blockTree.getBlock hash) (Shared.onTree (·.removeBlock hash))

section Import

variable [BlockHashing]

/-! ## The chain manager -/

def hasBlock (hash : B256) : Async Bool := do
  match ← look (fun shared => shared.engine.chain.header shared.faults hash) with
  | some _ => pure true
  | none =>
      match ← look (·.engine.blockTree.getBlock hash) with
      | some _ => pure true
      | none => look fun shared =>
          (shared.engine.chain.getPayloadByBlockHash shared.faults hash).isSome

def getHeaderFromAnywhere (hash : B256) : Async (Option Header) := do
  match ← look (fun shared => shared.engine.chain.header shared.faults hash) with
  | some header => pure (some header)
  | none =>
      match ← look fun shared => shared.engine.chain.getPayloadByBlockHash shared.faults hash with
      | some payload => pure (some payload.block.header)
      | none => look fun shared => (shared.engine.blockTree.getBlock hash).map (·.header)

def getLatestValidAncestor (hash : B256) : Async (Option B256) :=
  look fun shared => shared.engine.getLatestValidAncestor shared.faults hash

/-! ## Answers -/

def invalidStatus (parentHash : B256) (message : String) : Async Answer := do
  let latest ← getLatestValidAncestor parentHash
  pure (.ok ⟨.invalid message, latest⟩)

def rejectHard (hash parentHash : B256) (message : String) : Async Answer := do
  markInvalid hash parentHash .hard
  change (fun _ => ()) (Shared.onDatabase (·.removePayload hash))
  invalidStatus parentHash message

def rejectSoft (hash parentHash : B256) (message : String) : Async Answer := do
  match ← look (fun shared => shared.engine.chain.blockBodyByHash shared.faults hash) with
  | none => do
      markInvalid hash parentHash .soft
      invalidStatus parentHash message
  | some _ => invalidStatus parentHash message

/-! ## `invalidate_descendants` -/

def markChildren (parentHash : B256) : List B256 → Async Unit
  | [] => pure ()
  | child :: rest => do
      markInvalid child parentHash .hard
      markChildren parentHash rest

def removeBlocks : List B256 → Async Unit
  | [] => pure ()
  | hash :: rest => do
      let _ ← removeBlock hash
      removeBlocks rest

def invalidateLoop : Nat → List B256 → List B256 → Async Unit
  | 0, _, _ => .halted
  | _ + 1, [], removed => removeBlocks removed
  | rounds + 1, parentHash :: stack, removed => do
      let children ← removeChildren parentHash
      markChildren parentHash children
      invalidateLoop rounds (children.reverse ++ stack) (removed ++ children)

def invalidateDescendants (rounds : Nat) (hash : B256) : Async Unit :=
  invalidateLoop rounds [hash] []

variable [Proofs] (node : Node)

/-! ## `validate_parent_block` -/

def validateHeader (header parent : Header) : Async (Except String Unit) :=
  look fun shared => shared.engine.validateHeader node shared.outside header parent

def invalidAncestor : Nat → B256 → Async (Option B256)
  | 0, _ => pure none
  | steps + 1, current => do
      match ← getInvalidationReason current with
      | some _ => pure (some current)
      | none =>
          match ← getHeaderFromAnywhere current with
          | some header =>
              if header.parentHash = B256.zero then pure none
              else invalidAncestor steps header.parentHash
          | none =>
              match ← look (·.engine.blockTree.getInvalidParent current) with
              | some parent => invalidAncestor steps parent
              | none => pure none

/-- A header that does not follow its parent is held against the block only
if both blocks are known. -/
def rejectAncestor (current parentHash : B256) (message : String) :
    Async (Option PayloadStatus) := do
  let currentExists ← hasBlock current
  let parentExists ← hasBlock parentHash
  if currentExists && parentExists then do
    markInvalid current parentHash .hard
    let latest ← getLatestValidAncestor parentHash
    pure (some ⟨.invalid s!"Ancestor header validation failed: {message}", latest⟩)
  else pure (some ⟨.accepted, none⟩)

def validateAncestors : Nat → B256 → Async (Option PayloadStatus)
  | 0, _ => pure none
  | steps + 1, current => do
      match ← getHeaderFromAnywhere current with
      | none => pure none
      | some header =>
          let parentHash := header.parentHash
          let continued : Async (Option PayloadStatus) :=
            if parentHash = B256.zero then pure none else validateAncestors steps parentHash
          match ← getInvalidationReason parentHash with
          | some _ => do
              let latest ← getLatestValidAncestor parentHash
              markInvalid current parentHash .hard
              spawn current
              pure (some ⟨.invalid "Ancestor block is known to be invalid", latest⟩)
          | none =>
              match ← getHeaderFromAnywhere parentHash with
              | none => continued
              | some parent =>
                  match ← validateHeader node header parent with
                  | .ok () => continued
                  | .error message => rejectAncestor current parentHash message

def validateParentBlock (parentHash : B256) : Async (Option PayloadStatus) := do
  match ← invalidAncestor 64 parentHash with
  | some hash => do
      let latest ← getLatestValidAncestor hash
      pure (some ⟨.invalid s!"Ancestor block {hash} is known to be invalid", latest⟩)
  | none => do
      let isGenesis ← look fun shared =>
        shared.engine.chain.isCanonical shared.faults parentHash &&
          shared.engine.chain.blockNumber shared.faults parentHash = some 0
      let known ← (if isGenesis then pure true else hasBlock parentHash : Async Bool)
      -- The loop over 32 ancestors is left after the sixteenth.
      if known then validateAncestors node 16 parentHash else pure (some ⟨.accepted, none⟩)

/-! ## `new_payload_internal_inner` -/

/-- The total difficulty of the parent, read before the block is stored. -/
def Shared.parentTd (shared : Shared) (header : Header) : Except RpcError U256 :=
  if header.number = 0 then .ok 0
  else if shared.faults.now then
    .error (.internal s!"Failed to retrieve parent TD for block {header.number}")
  else match shared.engine.chain.headerTd.get header.parentHash with
    | some td => .ok td
    | none => .error (.internal (s!"Parent TD not found for block {header.number} " ++
        s!"(parent: {header.parentHash})"))

def storeExecuted (actualHash parentHash : B256) (executed : ExecutedBlock) : Async Answer :=
  match Engine.validateExecuted executed with
  | .error message => rejectHard actualHash parentHash message
  | .ok () => do
      match ← look (·.parentTd executed.block.header) with
      | .error error => pure (.error error)
      | .ok td => do
          let failed ← change (·.faults.now) (Shared.onDatabase
            (·.persistBlock executed (td + executed.block.header.difficulty)))
          if failed then pure (.error (.internal "Storage write failed")) else do
            change (fun _ => ()) (Shared.onTree (·.removeInvalid actualHash))
            pure (.ok ⟨.valid, some actualHash⟩)

def execute (block : Block) (stateRoot : B256) : Async (Except String ExecutedBlock) :=
  let executed (shared : Shared) := node.execution.executeBlockWithStateRoot shared.faults
    shared.engine.database block (some stateRoot)
  change (fun shared => (executed shared).1) fun shared =>
    { shared with engine := { shared.engine with state := (executed shared).2 } }

def executePayload (block : Block) (parent : Header) : Async Answer := do
  match ← validateHeader node block.header parent with
  | .error message => rejectHard block.hash block.header.parentHash message
  | .ok () =>
      match ← execute node block parent.stateRoot with
      | .error message => rejectHard block.hash block.header.parentHash message
      | .ok executed => storeExecuted block.hash block.header.parentHash executed

def withoutParent (block : Block) : Async Answer := do
  let parentHash := block.header.parentHash
  let busy ← look fun shared => decide (parentHash ∈ shared.processing)
  if busy then pure (.ok ⟨.syncing, none⟩) else
    match ← getHeaderFromAnywhere parentHash with
    | none => pure (.ok ⟨.syncing, none⟩)
    | some parent =>
        match ← validateHeader node block.header parent with
        | .error message => do
            markInvalid block.hash parentHash .hard
            invalidStatus parentHash message
        | .ok () => do
            addOrphan parentHash block
            pure (.ok ⟨.accepted, none⟩)

/-- Step 5 and what follows it. -/
def importBelow (block : Block) : Async Answer := do
  match ← look fun shared =>
      shared.engine.chain.header shared.faults block.header.parentHash with
  | some parent => executePayload node block parent
  | none => withoutParent node block

/-- Step 4 and what follows it. -/
def importChild (block : Block) : Async Answer := do
  let parentHash := block.header.parentHash
  match ← validateParentBlock node parentHash with
  | none => importBelow node block
  | some status =>
      match status.status with
      | .syncing | .accepted => do
          addOrphan parentHash block
          pure (.ok status)
      | .valid => importBelow node block
      | .invalid message => do
          markInvalid block.hash parentHash .hard
          spawn block.hash
          invalidStatus parentHash message

def rejectBody (block : Block) (message : String) : Async Answer := do
  match ← look fun shared => shared.engine.chain.header shared.faults block.hash with
  | some existing =>
      if hashSlow existing = block.hash then invalidStatus block.header.parentHash message
      else rejectHard block.hash block.header.parentHash message
  | none => rejectHard block.hash block.header.parentHash message

def isCancunActive (block : Block) : Bool :=
  (Hardfork.getActiveFork node.config block.header.number block.header.timestamp).isCancunActive

def checkCancun (block : Block) (expectedBlobVersionedHashes : Option (List B256)) :
    Except String Unit :=
  if isCancunActive node block then
    EthConsensus.validateCancun block expectedBlobVersionedHashes
  else .ok ()

def checkBeaconRoot (block : Block) (parentBeaconBlockRoot : Option B256) : Except String Unit :=
  if isCancunActive node block then
    EthConsensus.validateParentBeaconBlockRoot block.header parentBeaconBlockRoot
  else .ok ()

def newPayloadInternalInner (block : Block) (expectedBlobVersionedHashes : Option (List B256))
    (parentBeaconBlockRoot : Option B256) : Async Answer :=
  within block.hash do
    yieldNow
    match checkCancun node block expectedBlobVersionedHashes with
    | .error message => rejectSoft block.hash block.header.parentHash message
    | .ok () =>
        match ← look fun shared =>
            EthConsensus.validateBody node.config shared.engine.chain.headerTd block with
        | .error message => rejectBody block message
        | .ok () =>
            match checkBeaconRoot node block parentBeaconBlockRoot with
            | .error message => rejectSoft block.hash block.header.parentHash message
            | .ok () => importChild node block

/-! ## The processing set -/

/-- Another block of this height is being processed. -/
def Shared.heightProcessing (shared : Shared) (block : Block) : Bool :=
  shared.processing.any fun hash =>
    match shared.engine.chain.header shared.faults hash with
    | some header => header.number = block.header.number && hash ≠ block.hash
    | none => false

/-- Enter the block into the processing set, unless it or another block of its
height is there. -/
def startProcessing (block : Block) : Async Bool :=
  let free (shared : Shared) : Bool :=
    !(block.hash ∈ shared.processing || shared.heightProcessing block)
  change free fun shared =>
    if free shared then shared.onProcessing (block.hash :: ·) else shared

/-- Enter a child that waited into the processing set, unless it is there. -/
def claimChild (child : B256) : Async Bool :=
  let free (shared : Shared) : Bool := child ∉ shared.processing
  Coroutine.access ⟨none, .claiming child⟩ free fun shared =>
    if free shared then shared.onProcessing (child :: ·) else shared

def stopProcessing (hash : B256) : Async Unit :=
  change (fun _ => ()) (Shared.onProcessing (·.erase hash))

/-! ## `revalidate_dependent_payloads` -/

def isValid : Answer → Bool
  | .ok status => status.status = .valid
  | .error _ => false

def revalidateChildren : List B256 → List B256 → Async (List B256)
  | [], stack => pure stack
  | child :: rest, stack => do
      match ← removeBlock child with
      | none => revalidateChildren rest stack
      | some block =>
          if ← claimChild child then do
            let answer ← newPayloadInternalInner node block none none
            stopProcessing child
            revalidateChildren rest (if isValid answer then child :: stack else stack)
          else revalidateChildren rest stack

def revalidateLoop : Nat → List B256 → Async Unit
  | 0, _ => .halted
  | _ + 1, [] => pure ()
  | rounds + 1, parentHash :: stack => do
      let children ← removeChildren parentHash
      let stack ← revalidateChildren node children stack
      revalidateLoop rounds stack

def revalidateDependentPayloads (rounds : Nat) (hash : B256) : Async Unit :=
  revalidateLoop node rounds [hash]

/-! ## `new_payload_internal` -/

/-- Leave the processing set and answer. -/
def leave (hash : B256) (answer : Answer) : Async Answer := do
  stopProcessing hash
  pure answer

def importNew (rounds : Nat) (block : Block) (expectedBlobVersionedHashes : Option (List B256))
    (parentBeaconBlockRoot : Option B256) : Async Answer := do
  let hash := block.hash
  let parentHash := block.header.parentHash
  match ← getInvalidationReason hash with
  | some .hard => do
      let answer ← invalidStatus parentHash "Block is known to be invalid"
      leave hash answer
  | _ =>
      match ← getInvalidationReason parentHash with
      | some .hard => do
          let answer ← invalidStatus parentHash "Parent block is known to be invalid"
          markInvalid hash parentHash .hard
          leave hash answer
      | some .soft => do
          let answer ← invalidStatus parentHash "Parent block is known to be invalid (Soft)"
          markInvalid hash parentHash .soft
          leave hash answer
      | none => do
          let answer ← newPayloadInternalInner node block expectedBlobVersionedHashes
            parentBeaconBlockRoot
          stopProcessing hash
          if isValid answer then do
            revalidateDependentPayloads node rounds hash
            pure answer
          else pure answer

/-- What `new_payload_internal` does once the block is in the processing set. -/
def importProcessing (rounds : Nat) (block : Block)
    (expectedBlobVersionedHashes : Option (List B256)) (parentBeaconBlockRoot : Option B256) :
    Async Answer :=
  let hash := block.hash
  let parentHash := block.header.parentHash
  match checkCancun node block expectedBlobVersionedHashes,
      checkBeaconRoot node block parentBeaconBlockRoot with
  | .error message, _ => do
      let answer ← rejectSoft hash parentHash message
      leave hash answer
  | .ok (), .error message => do
      let answer ← rejectSoft hash parentHash message
      leave hash answer
  | .ok (), .ok () => do
      match ← look fun shared => shared.engine.chain.blockBodyByHash shared.faults hash with
      | some _ => leave hash (.ok ⟨.valid, some hash⟩)
      | none => importNew node rounds block expectedBlobVersionedHashes parentBeaconBlockRoot

def newPayloadInternal (rounds : Nat) (block : Block) (expectedBlockHash : B256)
    (expectedBlobVersionedHashes : Option (List B256)) (parentBeaconBlockRoot : Option B256) :
    Async Answer := do
  let hash := block.hash
  yieldNow
  if hash ≠ expectedBlockHash then
    match ← look fun shared => shared.engine.chain.blockBodyByHash shared.faults hash with
    | some _ => pure (.ok ⟨.invalid "INVALID_BLOCK_HASH", some hash⟩)
    | none => do
        markInvalid hash block.header.parentHash .soft
        pure (.ok ⟨.invalid "INVALID_BLOCK_HASH", none⟩)
  else if ← startProcessing block then
    importProcessing node rounds block expectedBlobVersionedHashes parentBeaconBlockRoot
  else pure (.ok ⟨.syncing, none⟩)

/-! ## Calls -/

inductive Call where
  | newPayloadInternal (rounds : Nat) (block : Block) (expectedBlockHash : B256)
      (expectedBlobVersionedHashes : Option (List B256)) (parentBeaconBlockRoot : Option B256)
  | revalidateDependentPayloads (rounds : Nat) (hash : B256)
  | invalidateDescendants (rounds : Nat) (hash : B256)

/-- Only `new_payload_internal` returns anything. -/
abbrev Reply := Option Answer

def program : Call → Async Reply
  | .newPayloadInternal rounds block expectedBlockHash expected beaconRoot => do
      let answer ← newPayloadInternal node rounds block expectedBlockHash expected beaconRoot
      pure (some answer)
  | .revalidateDependentPayloads rounds hash => do
      revalidateDependentPayloads node rounds hash
      pure none
  | .invalidateDescendants rounds hash => do
      invalidateDescendants rounds hash
      pure none

/-- The first two calls may come at any time, the third only for a task that
was spawned. -/
inductive Starts : Call → Shared → Shared → Prop where
  | newPayloadInternal (rounds : Nat) (block : Block) (expectedBlockHash : B256)
      (expected : Option (List B256)) (beaconRoot : Option B256) (shared : Shared) :
      Starts (.newPayloadInternal rounds block expectedBlockHash expected beaconRoot) shared shared
  | revalidateDependentPayloads (rounds : Nat) (hash : B256) (shared : Shared) :
      Starts (.revalidateDependentPayloads rounds hash) shared shared
  | invalidateDescendants (rounds : Nat) {hash : B256} {shared : Shared}
      (h : hash ∈ shared.spawned) :
      Starts (.invalidateDescendants rounds hash) shared
        { shared with spawned := shared.spawned.erase hash }

end Import

/-! ## What holds of every part of a task

A property of tasks that holds of the single accesses and of sequences holds
of the parts of an import that only search and mark. -/

/-- A property of tasks that sequences keep. -/
structure Composes (P : ∀ {α : Type}, Async α → Prop) : Prop where
  pure : ∀ {α : Type} (value : α), P (pure value : Async α)
  bind : ∀ {α β : Type} {task : Async α} {rest : α → Async β}, P task →
    (∀ value, P (rest value)) → P (task >>= rest)
  look : ∀ {α : Type} (answer : Shared → α), P (look answer)
  spawn : ∀ hash, P (spawn hash)
  markInvalid : ∀ hash parentHash reason, P (markInvalid hash parentHash reason)

namespace Composes

variable [BlockHashing] {P : ∀ {α : Type}, Async α → Prop} (h : Composes P)

include h

theorem hasBlock (hash : B256) : P (hasBlock hash) := by
  refine h.bind (h.look _) fun header => ?_
  split
  · exact h.pure _
  · refine h.bind (h.look _) fun block => ?_
    split
    · exact h.pure _
    · exact h.look _

theorem getHeaderFromAnywhere (hash : B256) : P (getHeaderFromAnywhere hash) := by
  refine h.bind (h.look _) fun header => ?_
  split
  · exact h.pure _
  · refine h.bind (h.look _) fun payload => ?_
    split
    · exact h.pure _
    · exact h.look _

theorem invalidStatus (parentHash : B256) (message : String) :
    P (invalidStatus parentHash message) :=
  h.bind (h.look _) fun _ => h.pure _

theorem invalidAncestor (steps : Nat) (current : B256) : P (invalidAncestor steps current) := by
  induction steps generalizing current with
  | zero => exact h.pure _
  | succ steps ih =>
      refine h.bind (h.look _) fun reason => ?_
      split
      · exact h.pure _
      · refine h.bind (h.getHeaderFromAnywhere _) fun header => ?_
        split
        · split
          · exact h.pure _
          · exact ih _
        · refine h.bind (h.look _) fun parent => ?_
          split
          · exact ih _
          · exact h.pure _

theorem rejectAncestor (current parentHash : B256) (message : String) :
    P (rejectAncestor current parentHash message) := by
  refine h.bind (h.hasBlock _) fun currentExists => ?_
  refine h.bind (h.hasBlock _) fun parentExists => ?_
  split
  · exact h.bind (h.markInvalid _ _ _) fun _ => h.bind (h.look _) fun _ => h.pure _
  · exact h.pure _

variable [Proofs] {node : Node}

theorem validateAncestors (steps : Nat) (current : B256) :
    P (validateAncestors node steps current) := by
  induction steps generalizing current with
  | zero => exact h.pure _
  | succ steps ih =>
      refine h.bind (h.getHeaderFromAnywhere _) fun found => ?_
      split
      · exact h.pure _
      next header =>
        have hcontinued : P (if header.parentHash = B256.zero then Pure.pure none
            else Concurrent.validateAncestors node steps header.parentHash) := by
          split
          · exact h.pure _
          · exact ih _
        refine h.bind (h.look _) fun reason => ?_
        split
        · exact h.bind (h.look _) fun _ => h.bind (h.markInvalid _ _ _) fun _ =>
            h.bind (h.spawn _) fun _ => h.pure _
        · refine h.bind (h.getHeaderFromAnywhere _) fun parent => ?_
          split
          · exact hcontinued
          · refine h.bind (h.look _) fun valid => ?_
            split
            · exact hcontinued
            · exact h.rejectAncestor _ _ _

theorem validateParentBlock (parentHash : B256) : P (validateParentBlock node parentHash) := by
  refine h.bind (h.invalidAncestor _ _) fun marked => ?_
  split
  · exact h.bind (h.look _) fun _ => h.pure _
  · refine h.bind (h.look _) fun isGenesis => ?_
    refine h.bind ?_ fun known => ?_
    · split
      · exact h.pure _
      · exact h.hasBlock _
    · split
      · exact h.validateAncestors _ _
      · exact h.pure _

end Composes

end WasixEth.Concurrent
