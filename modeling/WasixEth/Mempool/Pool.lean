import WasixEth.Execution.Evm
import WasixEth.Lib.DashMap
import WasixEth.Lib.Search

/-! # The mempool

Transactions wait in two queues per sender: one for those that are next in line,
one for those behind a gap. Beside the queues stand the envelopes and bytes that
transactions arrived in, and the blobs. A conversion of a number that does not fit
panics; what the operation had done by then stays.
-/

namespace WasixEth

open Search

/-- A blob with its commitment and proof. -/
structure BlobEntry where
  blob : Bytes
  commitment : Bytes
  proof : Bytes
  deriving DecidableEq

structure BlobTransactionSidecar where
  blobs : List Bytes
  commitments : List Bytes
  proofs : List Bytes
  deriving DecidableEq

/-- A transaction as it is passed between peers. The sidecar is that of a blob
transaction, if it is of the first kind. -/
structure TxPooledEnvelope where
  tx : Transaction
  sidecar : Option BlobTransactionSidecar
  deriving DecidableEq

abbrev Queues := DashMap Address (List Transaction)

structure Mempool where
  pendingTransactions : Queues
  queuedTransactions : Queues
  pooledEnvelopes : Table B256 TxPooledEnvelope
  pooledBytes : Table B256 Bytes
  blobs : Table B256 BlobEntry
  baseFee : Nat

def maxMempoolSize : Nat := 50000

/-- `U256::to::<u128>`, which panics on a number that is too large. -/
def toU128 (n : Nat) : Option Nat := if n < 2 ^ 128 then some n else none

/-- The nonce after a nonce; release builds wrap. -/
def nextNonce (nonce : Nat) : Nat := (nonce + 1) % 2 ^ 64

namespace Transaction

def isEip4844 (tx : Transaction) : Bool :=
  match tx.kind with
  | .eip4844 _ _ _ _ => true
  | _ => false

end Transaction

/-- What a transaction pays above the base fee. -/
def calculateEffectiveTip (tx : Transaction) (baseFee : Nat) : Option Nat := do
  let baseFee ← toU128 baseFee
  let maxFee := tx.maxFeePerGas
  if maxFee < baseFee then return 0
  else
    let maxTip := maxFee - baseFee
    match tx.kind with
    | .legacy _ => return maxTip
    | .eip2930 _ => return maxTip
    | _ => return min maxTip (tx.maxPriorityFeePerGas.getD 0)

namespace Mempool

def new (baseFee : Nat) : Mempool := ⟨∅, ∅, ∅, ∅, ∅, baseFee⟩

def queues (pool : Mempool) : Bool → Queues
  | true => pool.pendingTransactions
  | false => pool.queuedTransactions

def withQueues (pool : Mempool) (isPending : Bool) (queues : Queues) : Mempool :=
  match isPending with
  | true => { pool with pendingTransactions := queues }
  | false => { pool with queuedTransactions := queues }

/-- A sender's queue, empty if there is none. -/
def queue (pool : Mempool) (isPending : Bool) (address : Address) : List Transaction :=
  ((pool.queues isPending).lookup address).getD []

def setQueue (pool : Mempool) (isPending : Bool) (address : Address) (txs : List Transaction) :
    Mempool :=
  pool.withQueues isPending ((pool.queues isPending).insert address txs)

def dropQueue (pool : Mempool) (isPending : Bool) (address : Address) : Mempool :=
  pool.withQueues isPending ((pool.queues isPending).erase address)

/-- A queue that has lost a transaction stays only if it has more. -/
def shrinkQueue (pool : Mempool) (isPending : Bool) (address : Address) (txs : List Transaction) :
    Mempool :=
  if txs.isEmpty then pool.dropQueue isPending address
  else pool.setQueue isPending address txs

def len (pool : Mempool) : Nat :=
  (pool.pendingTransactions.values.map List.length).sum +
    (pool.queuedTransactions.values.map List.length).sum

variable [BlockHashing]

/-- What is stored for a transaction beside the queues goes. -/
def cleanUp (pool : Mempool) (tx : Transaction) : Mempool :=
  { pool with
    blobs :=
      if tx.isEip4844 then pool.blobs.eraseWhere (fun hash => hash ∈ tx.blobVersionedHashes)
      else pool.blobs
    pooledEnvelopes := pool.pooledEnvelopes.erase (txHash tx)
    pooledBytes := pool.pooledBytes.erase (txHash tx) }

/-! ## Eviction -/

/-- The lowest tip at the back of a queue so far, and whose it is. -/
def scanWorst (baseFee : Nat) (isPending : Bool) :
    List (Sigma fun _ : Address => List Transaction) → Nat × Option (Address × Bool) →
      Option (Nat × Option (Address × Bool))
  | [], worst => some worst
  | ⟨address, txs⟩ :: rest, worst =>
      match txs.getLast? with
      | none => scanWorst baseFee isPending rest worst
      | some tx => do
          let tip ← calculateEffectiveTip tx baseFee
          if tip < worst.1 then scanWorst baseFee isPending rest (tip, some (address, isPending))
          else scanWorst baseFee isPending rest worst

/-- Queued transactions are looked at first. -/
def worstSender (pool : Mempool) : Option (Nat × Option (Address × Bool)) := do
  let worst ← scanWorst pool.baseFee false pool.queuedTransactions.entries (2 ^ 128 - 1, none)
  if worst.2.isNone || pool.queuedTransactions.entries.isEmpty then
    scanWorst pool.baseFee true pool.pendingTransactions.entries worst
  else return worst

/-- Drop the last transaction of a queue. -/
def evictBack (pool : Mempool) (isPending : Bool) (address : Address) : Mempool :=
  pool.shrinkQueue isPending address (pool.queue isPending address).dropLast

/-- The loop of the eviction. Every round drops one transaction. -/
def evictLoop (maxSize : Nat) : Nat → Mempool → Mempool × Option Unit
  | 0, pool => (pool, some ())
  | fuel + 1, pool =>
      if pool.len ≤ maxSize then (pool, some ())
      else
        match pool.worstSender with
        | none => (pool, none)
        | some (_, none) => (pool, some ())
        | some (_, some (address, isPending)) =>
            evictLoop maxSize fuel (pool.evictBack isPending address)

def enforceCapacity (pool : Mempool) (maxSize : Nat) : Mempool × Option Unit :=
  evictLoop maxSize pool.len pool

/-! ## Admission -/

/-- One queued transaction becomes pending, unless its nonce already is. -/
def promoteLoop (address : Address) : Nat → Mempool → Nat → Mempool
  | 0, pool, _ => pool
  | fuel + 1, pool, nonce =>
      match binarySearchByKey Transaction.nonce (pool.queue false address) nonce with
      | .error _ => pool
      | .ok pos =>
          match (pool.queue false address)[pos]? with
          | none => pool
          | some tx =>
              let pool := pool.setQueue false address ((pool.queue false address).eraseIdx pos)
              let pending := pool.queue true address
              let pool :=
                match binarySearchByKey Transaction.nonce pending tx.nonce with
                | .ok _ => pool
                | .error place => pool.setQueue true address (pending.insertIdx place tx)
              promoteLoop address fuel pool (nextNonce nonce)

/-- Move transactions from queued to pending while the nonce is there. -/
def promoteQueued (pool : Mempool) (address : Address) (nextExpectedNonce : Nat) : Mempool :=
  let pool := promoteLoop address (pool.queue false address).length pool nextExpectedNonce
  if (pool.queue false address).isEmpty then pool.dropQueue false address else pool

/-- `roll` is the random byte that decides whether the capacity is enforced. -/
def evictSometimes (pool : Mempool) (roll : UInt8) : Mempool × Option Unit :=
  if roll % 16 = 0 then pool.enforceCapacity maxMempoolSize else (pool, some ())

/-- The price a replacement has to pay: ten percent more. -/
def minReplacementPrice (old : Transaction) : Nat :=
  let price := old.gasPrice.getD 0
  (price + price / 10) % 2 ^ 128

/-- Insert a transaction, or replace the one with its nonce. -/
def place (pool : Mempool) (address : Address) (tx : Transaction) (isPending : Bool) :
    Mempool × Bool :=
  let txs := pool.queue isPending address
  let pos :=
    match binarySearchByKey Transaction.nonce txs tx.nonce with
    | .ok pos => pos
    | .error pos => pos
  match txs[pos]? with
  | some old =>
      if old.nonce = tx.nonce then
        if minReplacementPrice old ≤ tx.gasPrice.getD 0 then
          ((pool.cleanUp old).setQueue isPending address (txs.set pos tx), true)
        else (pool, false)
      else insertAt pos
  | none => insertAt pos
where
  /-- A new pending transaction may close a gap. -/
  insertAt (pos : Nat) : Mempool × Bool :=
    let pool := pool.setQueue isPending address ((pool.queue isPending address).insertIdx pos tx)
    if isPending then (pool.promoteQueued address (nextNonce tx.nonce), true) else (pool, true)

def insertIntoQueue (pool : Mempool) (address : Address) (tx : Transaction) (isPending : Bool)
    (roll : UInt8) : Mempool × Option Bool :=
  match pool.evictSometimes roll with
  | (pool, none) => (pool, none)
  | (pool, some ()) =>
      let (pool, added) := pool.place address tx isPending
      (pool, some added)

end Mempool

/-- The sender, or the zero address for a signature that nobody made. -/
def senderOf [Evm] (tx : Transaction) : Address :=
  match Evm.recoverSigner tx with
  | .ok sender => sender
  | .error _ => default

namespace Mempool

/-- The nonce behind the last pending transaction. -/
def nextPendingNonce (pool : Mempool) (address : Address) (currentNonce : Nat) : Nat :=
  match (pool.queue true address).getLast? with
  | some last => nextNonce last.nonce
  | none => currentNonce

variable [BlockHashing]

def addTransaction [Evm] (pool : Mempool) (tx : Transaction) (currentNonce : Nat) (roll : UInt8) :
    Mempool × Option Bool :=
  if tx.nonce < currentNonce then (pool, some false)
  else
    let next := max (pool.nextPendingNonce (senderOf tx) currentNonce) currentNonce
    pool.insertIntoQueue (senderOf tx) tx (tx.nonce ≤ next) roll

/-! ## Removal -/

def clear (pool : Mempool) : Mempool :=
  { pool with pendingTransactions := ∅, queuedTransactions := ∅ }

/-- The transactions of the queues that are named. -/
def named (queues : Queues) (hashes : List B256) : List Transaction :=
  queues.values.flatMap fun txs => txs.filter fun tx => txHash tx ∈ hashes

def withoutNamed (queues : Queues) (hashes : List B256) : Queues :=
  (queues.mapValues fun txs => txs.filter fun tx => txHash tx ∉ hashes).retain
    fun txs => !txs.isEmpty

def removeTransactions (pool : Mempool) (hashes : List B256) : Mempool :=
  let removed := named pool.pendingTransactions hashes ++ named pool.queuedTransactions hashes
  let cleaned := removed.foldl cleanUp pool
  { cleaned with
    pendingTransactions := withoutNamed pool.pendingTransactions hashes
    queuedTransactions := withoutNamed pool.queuedTransactions hashes }

/-- The best tip at the front of a queue so far, and whose it is. -/
def scanBest (baseFee : Nat) :
    List (Sigma fun _ : Address => List Transaction) → Nat → Option Address →
      Option (Option Address)
  | [], _, best => some best
  | ⟨address, txs⟩ :: rest, bestTip, best =>
      match txs.head? with
      | none => scanBest baseFee rest bestTip best
      | some tx => do
          let tip ← calculateEffectiveTip tx baseFee
          if bestTip < tip ∨ (tip = bestTip ∧ best.isNone) then
            scanBest baseFee rest tip (some address)
          else scanBest baseFee rest bestTip best

def bestSender (pool : Mempool) : Option (Option Address) :=
  scanBest pool.baseFee pool.pendingTransactions.entries 0 none

/-- The loop of `popTransactions`. A best sender has a transaction. -/
def popLoop : Nat → Mempool → List Transaction → Mempool × Option (List Transaction)
  | 0, pool, result => (pool, some result)
  | n + 1, pool, result =>
      match pool.bestSender with
      | none => (pool, none)
      | some none => (pool, some result)
      | some (some sender) =>
          match pool.queue true sender with
          | [] => (pool.dropQueue true sender, some result)
          | tx :: rest =>
              popLoop n ((pool.cleanUp tx).shrinkQueue true sender rest) (result ++ [tx])

def popTransactions (pool : Mempool) (n : Nat) : Mempool × Option (List Transaction) :=
  popLoop n pool []

/-! ## Revalidation -/

/-- Whether a transaction has to go, given its sender's nonce and balance. -/
def isInvalid (pool : Mempool) (currentNonce currentBalance : Nat) (tx : Transaction) :
    Option Bool := do
  let baseFee ← toU128 pool.baseFee
  if tx.maxFeePerGas < baseFee then return true
  else
    let value ← toU128 tx.value.toNat
    let requiredBalance := (tx.gasLimit * tx.maxFeePerGas + value) % 2 ^ 128
    if tx.nonce < currentNonce ∨ currentBalance < requiredBalance then return true
    else return tx.isEip4844 && tx.blobVersionedHashes.any fun hash => (pool.blobs.get hash).isNone

/-- The hashes of the transactions in a queue that have to go. -/
def invalidHashes (pool : Mempool) (currentNonce currentBalance : Nat) :
    List Transaction → Option (List B256)
  | [] => some []
  | tx :: rest => do
      let invalid ← pool.isInvalid currentNonce currentBalance tx
      let hashes ← pool.invalidHashes currentNonce currentBalance rest
      return if invalid then txHash tx :: hashes else hashes

/-- Accounts as the state has them: nonce and balance. -/
abbrev Accounts := Address → Option (Nat × Nat)

def processAddress (pool : Mempool) (accounts : Accounts) (address : Address) :
    Option (List B256) := do
  let (currentNonce, currentBalance) := (accounts address).getD (0, 0)
  let pending ← pool.invalidHashes currentNonce currentBalance (pool.queue true address)
  let queued ← pool.invalidHashes currentNonce currentBalance (pool.queue false address)
  return pending ++ queued

def processAddresses (pool : Mempool) (accounts : Accounts) : List Address → Option (List B256)
  | [] => some []
  | address :: rest => do
      let hashes ← pool.processAddress accounts address
      let others ← pool.processAddresses accounts rest
      return hashes ++ others

/-- Everyone with a queue, if nobody is named. -/
def addressesToCheck (pool : Mempool) : Option (List Address) → List Address
  | some addresses => addresses
  | none => pool.pendingTransactions.keys ++
      pool.queuedTransactions.keys.filter fun address => address ∉ pool.pendingTransactions

def promoteAddress (accounts : Accounts) (pool : Mempool) (address : Address) : Mempool :=
  pool.promoteQueued address
    (pool.nextPendingNonce address ((accounts address).getD (0, 0)).1)

def revalidate (pool : Mempool) (accounts : Accounts) (addresses : Option (List Address)) :
    Mempool × Option Unit :=
  let toCheck := pool.addressesToCheck addresses
  match pool.processAddresses accounts toCheck with
  | none => (pool, none)
  | some toRemove =>
      let toPromote := toCheck.filter fun address => address ∈ pool.queuedTransactions
      let pool := if toRemove.isEmpty then pool else pool.removeTransactions toRemove
      (toPromote.foldl (promoteAddress accounts) pool, some ())

def updateBaseFee (pool : Mempool) (newBaseFee : Nat) (accounts : Accounts) :
    Mempool × Option Unit :=
  let increased := pool.baseFee < newBaseFee
  let pool := { pool with baseFee := newBaseFee }
  if increased then pool.revalidate accounts none else (pool, some ())

end Mempool

end WasixEth
