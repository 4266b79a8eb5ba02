import Mathlib.Logic.Relation
import WasixEth.Engine.Calls

/-! # Fetching ancestors

The sync controller asks peers for a block and for the blocks before it, and imports
what it was given, the oldest first. What a peer returns for a hash is never compared
with the hash, and a block that fails is held against the block the sync was asked for.
-/

namespace WasixEth

open Storage Relation

/-! ## The downloader -/

/-- What a session answers for a hash; a request that fails has no answer. -/
structure PeerSession where
  getBlockHeaders : B256 → Option (List Header)
  getBlockBodies : B256 → Option (List BlockBody)

/-- The peers at one moment. -/
structure PeerProvider where
  activePeers : Option (List Nat)
  session : Nat → Option PeerSession

namespace Downloader

def downloadBlockByHash (peers : PeerProvider) (peer : Nat) (hash : B256) : Option Block := do
  let session ← peers.session peer
  let headers ← session.getBlockHeaders hash
  let header ← headers.head?
  let bodies ← session.getBlockBodies hash
  let body ← bodies.head?
  return ⟨header, body⟩

/-- The block from this peer, and otherwise from the first active one that has it. -/
def downloadFromAny (peers : PeerProvider) (peer : Nat) (hash : B256) : Option Block :=
  (downloadBlockByHash peers peer hash).or do
    let active ← peers.activePeers
    (active.filter (· ≠ peer)).findSome? fun other => downloadBlockByHash peers other hash

end Downloader

/-! ## The block processor -/

namespace BlockProcessor

inductive ImportError
  | internal (error : RpcError)
  | invalid (message : String)
  deriving DecidableEq

variable [BlockHashing] [Proofs] (node : Node)

/-- `import_block`: a block that is buffered is no failure. -/
def processBlock (outside : Outside) (engine : Engine) (block : Block) :
    Except ImportError Unit × Engine :=
  match engine.newPayloadInternal node outside block block.hash none none with
  | (.error error, engine) => (.error (.internal error), engine)
  | (.ok status, engine) =>
      match status.status with
      | .invalid message => (.error (.invalid message), engine)
      | _ => (.ok (), engine)

end BlockProcessor

/-! ## `fetch_ancestors` -/

namespace SyncController

open BlockProcessor

inductive FetchError
  | notFetched (hash : B256)
  | knownInvalid (hash : B256)
  | processingFailed (hash : B256) (error : ImportError)
  deriving DecidableEq

/-- Where a call has come to. The blocks that were handed to the processor are kept with
the engines they were handed to it in. -/
structure Fetch where
  engine : Engine
  result : Except FetchError Unit
  processed : List (Engine × Block)

section Fetching

variable [BlockHashing] [Proofs] (node : Node)

/-- The parent of the requested head, as far as the head is among the blocks. -/
def headParent (blocks : List Block) (requestedHead other : B256) : B256 :=
  ((blocks.find? fun block => block.hash = requestedHead).map (·.header.parentHash)).getD other

/-- Blame the requested head for another block. -/
def blame (engine : Engine) (blocks : List Block) (requestedHead hash parent : B256) : Engine :=
  if requestedHead ≠ hash then
    engine.markInvalid requestedHead (headParent blocks requestedHead parent) .hard
  else engine

/-- A mark that is not `Hard` is taken back. -/
def retry (engine : Engine) (hash : B256) : Engine :=
  if (engine.blockTree.getInvalidationReason hash).isSome then
    { engine with blockTree := engine.blockTree.removeInvalid hash }
  else engine

/-- The first loop, over at most `steps` blocks: collect what is asked for back to a block
that is stored. -/
def collect (peers : Nat → PeerProvider) (peer : Nat) (requestedHead : B256) :
    Nat → Engine → List Block → B256 → Engine × Except FetchError (List Block)
  | 0, engine, blocks, _ => (engine, .ok blocks)
  | steps + 1, engine, blocks, current =>
      if current = B256.zero then (engine, .ok blocks)
      else if (engine.chain.blockByHash Faults.none current).isSome then (engine, .ok blocks)
      else if engine.blockTree.getInvalidationReason current = some .hard then
        (blame engine blocks requestedHead current B256.zero, .error (.knownInvalid current))
      else
        let engine := retry engine current
        match Downloader.downloadFromAny (peers blocks.length) peer current with
        | none => (engine, .error (.notFetched current))
        | some block => collect peers peer requestedHead steps engine (blocks ++ [block])
            block.header.parentHash

/-- The second loop: import the blocks that are not known. -/
def processBlocks (outside : Nat → Outside) (requestedHead : B256) (all : List Block) :
    List Block → Engine → List (Engine × Block) → Option Block →
      Engine × List (Engine × Block) × Except FetchError (Option Block)
  | [], engine, processed, last => (engine, processed, .ok last)
  | block :: rest, engine, processed, _ =>
      if engine.hasBlock Faults.none block.hash then
        processBlocks outside requestedHead all rest engine processed (some block)
      else
        let processed' := processed ++ [(engine, block)]
        match processBlock node (outside processed.length) engine block with
        | (.error error, engine) =>
            (blame engine all requestedHead block.hash block.header.parentHash, processed',
              .error (.processingFailed block.hash error))
        | (.ok (), engine) =>
            processBlocks outside requestedHead all rest engine processed' (some block)

/-- Before the merge the newest block becomes the head. -/
def updateForkchoice (outside : Outside) (engine : Engine) (block : Block) : Engine :=
  let fork := Hardfork.getActiveFork node.config block.header.number block.header.timestamp
  if .paris ≤ fork then engine
  else
    let version := if .cancun ≤ fork then 3 else 2
    (engine.forkchoiceUpdated node outside Faults.none ⟨block.hash, block.hash, B256.zero⟩ none
      version).2

def fetchAncestors (outside : Nat → Outside) (peers : Nat → PeerProvider) (peer : Nat)
    (engine : Engine) (hash requestedHead : B256) : Fetch :=
  match collect peers peer requestedHead 101 engine [] hash with
  | (engine, .error error) => ⟨engine, .error error, []⟩
  | (engine, .ok blocks) =>
      match processBlocks node outside requestedHead blocks blocks.reverse engine [] none with
      | (engine, processed, .error error) => ⟨engine, .error error, processed⟩
      | (engine, processed, .ok none) => ⟨engine, .ok (), processed⟩
      | (engine, processed, .ok (some block)) =>
          ⟨updateForkchoice node (outside processed.length) engine block, .ok (), processed⟩

/-! ## Who is to blame -/

/-- What a peer returns for a hash is the block with the hash. -/
def Honest (blockOf : B256 → Option Block) (peers : Nat → PeerProvider) : Prop :=
  ∀ moment peer session hash header headers body bodies,
    (peers moment).session peer = some session →
    session.getBlockHeaders hash = some (header :: headers) →
    session.getBlockBodies hash = some (body :: bodies) → blockOf hash = some ⟨header, body⟩

section Lemmas

variable {node} {blockOf : B256 → Option Block} {peers : Nat → PeerProvider} {peer : Nat}
  {requestedHead : B256} {outside : Nat → Outside}

omit [BlockHashing] [Proofs] in
theorem Honest.download (h : Honest blockOf peers) {moment other : Nat} {hash : B256}
    {block : Block}
    (hblock : Downloader.downloadBlockByHash (peers moment) other hash = some block) :
    blockOf hash = some block := by
  simp only [Downloader.downloadBlockByHash, Option.bind_eq_bind, Option.bind_eq_some_iff]
    at hblock
  obtain ⟨session, hsession, headers, hheaders, header, hheader, bodies, hbodies, body, hbody,
    hsome⟩ := hblock
  cases headers with
  | nil => cases hheader
  | cons first headers =>
      cases bodies with
      | nil => cases hbody
      | cons second bodies =>
          cases hheader
          cases hbody
          cases hsome
          exact h moment other session hash _ _ _ _ hsession hheaders hbodies

omit [BlockHashing] [Proofs] in
theorem Honest.downloadFromAny (h : Honest blockOf peers) {moment : Nat} {hash : B256}
    {block : Block}
    (hblock : Downloader.downloadFromAny (peers moment) peer hash = some block) :
    blockOf hash = some block := by
  unfold Downloader.downloadFromAny at hblock
  rcases Option.or_eq_some_iff.mp hblock with hfirst | ⟨-, hother⟩
  · exact h.download hfirst
  · obtain ⟨active, -, hfound⟩ := Option.bind_eq_some_iff.mp hother
    obtain ⟨_, _, hdownload⟩ := List.exists_of_findSome?_eq_some hfound
    exact h.download hdownload

omit [Proofs] in
theorem hard_of_blame {engine : Engine} {blocks : List Block} {hash parent : B256}
    (h : requestedHead ≠ hash) :
    (blame engine blocks requestedHead hash parent).blockTree.getInvalidationReason
      requestedHead = some .hard := by
  unfold blame
  rw [if_pos h]
  unfold BlockTree.getInvalidationReason Engine.markInvalid BlockTree.markInvalid
  rw [Table.get_insert_self]
  rfl

omit [Proofs] in
theorem hard_of_collect {steps : Nat} {engine engine' : Engine} {blocks : List Block}
    {current : B256} {error : FetchError}
    (h : collect peers peer requestedHead steps engine blocks current = (engine', .error error)) :
    (∃ hash, error = .notFetched hash) ∨ ∃ hash, error = .knownInvalid hash ∧
      (requestedHead ≠ hash →
        engine'.blockTree.getInvalidationReason requestedHead = some .hard) := by
  induction steps generalizing engine blocks current with
  | zero => cases h
  | succ steps ih =>
      unfold collect at h
      split at h
      next => cases h
      split at h
      next => cases h
      split at h
      next =>
        cases h
        exact .inr ⟨current, rfl, hard_of_blame⟩
      dsimp only at h
      split at h
      next =>
        cases h
        exact .inl ⟨current, rfl⟩
      next => exact ih h

theorem hard_of_processBlocks {all rest : List Block} {engine engine' : Engine}
    {processed processed' : List (Engine × Block)} {last : Option Block} {error : FetchError}
    (h : processBlocks node outside requestedHead all rest engine processed last =
      (engine', processed', .error error)) :
    ∃ hash error', error = .processingFailed hash error' ∧ (requestedHead ≠ hash →
      engine'.blockTree.getInvalidationReason requestedHead = some .hard) := by
  induction rest generalizing engine processed last with
  | nil => cases h
  | cons block rest ih =>
      unfold processBlocks at h
      split at h
      next => exact ih h
      next =>
        dsimp only at h
        split at h
        next error' _ _ =>
          cases h
          exact ⟨block.hash, error', rfl, hard_of_blame⟩
        next => exact ih h

/-- The call fails in one of its loops. -/
theorem fetchAncestors_error {engine : Engine} {hash : B256} {error : FetchError}
    (h : (fetchAncestors node outside peers peer engine hash requestedHead).result =
      .error error) :
    (∃ engine', collect peers peer requestedHead 101 engine [] hash = (engine', .error error) ∧
      fetchAncestors node outside peers peer engine hash requestedHead =
        ⟨engine', .error error, []⟩) ∨
    ∃ collected blocks engine' processed,
      collect peers peer requestedHead 101 engine [] hash = (collected, .ok blocks) ∧
      processBlocks node outside requestedHead blocks blocks.reverse collected [] none =
        (engine', processed, .error error) ∧
      fetchAncestors node outside peers peer engine hash requestedHead =
        ⟨engine', .error error, processed⟩ := by
  unfold fetchAncestors at h ⊢
  split at h
  next engine' error' hcollect =>
    cases h
    exact .inl ⟨engine', hcollect, rfl⟩
  next collected blocks hcollect =>
    split at h
    next engine' processed error' hprocess =>
      cases h
      exact .inr ⟨collected, blocks, engine', processed, hcollect, hprocess, rfl⟩
    next => cases h
    next => cases h

/-- Blame for another block marks the requested head. -/
theorem hard_of_blamed {engine : Engine} {hash other : B256} {error : FetchError}
    (h : (fetchAncestors node outside peers peer engine hash requestedHead).result =
      .error error)
    (hblame : error = .knownInvalid other ∨ ∃ error', error = .processingFailed other error')
    (hother : requestedHead ≠ other) :
    (fetchAncestors node outside peers peer engine hash
      requestedHead).engine.blockTree.getInvalidationReason requestedHead = some .hard := by
  rcases fetchAncestors_error h with ⟨engine', hcollect, hfetch⟩ |
    ⟨collected, blocks, engine', processed, -, hprocess, hfetch⟩
  · rw [hfetch]
    rcases hard_of_collect hcollect with ⟨_, rfl⟩ | ⟨_, rfl, hhard⟩
    · rcases hblame with heq | ⟨_, heq⟩ <;> cases heq
    · rcases hblame with heq | ⟨_, heq⟩ <;> cases heq
      exact hhard hother
  · rw [hfetch]
    obtain ⟨_, _, rfl, hhard⟩ := hard_of_processBlocks hprocess
    rcases hblame with heq | ⟨_, heq⟩ <;> cases heq
    exact hhard hother

end Lemmas

end Fetching

section Sample

attribute [local instance] keccak keccakHashing keccakProofs idleEvm

end Sample

end SyncController

end WasixEth
