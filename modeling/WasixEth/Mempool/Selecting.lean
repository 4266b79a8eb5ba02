import WasixEth.Lib.MaxHeap
import WasixEth.Mempool.Pool
import Mathlib.Logic.Relation

/-! # Selecting transactions for a block

The selection takes the head with the best tip again and again, until the gas is
used up or no sender is left. A sender whose head does not fit is given up. The
sums are taken in 64 bits for the gas and in 32 bits for the blobs.
-/

namespace WasixEth

/-- What a transaction pays above a base fee, if it pays the base fee. -/
class TipPerGas where
  effectiveTipPerGas : Transaction → UInt64 → Option Nat

structure MempoolSnapshot where
  pending : DashMap Address (List Transaction)
  blobs : Table B256 BlobEntry

/-- What the selection has come to. The entries of the heap are tips and senders. -/
structure Selection where
  result : List Transaction
  currentGas : Nat
  currentBlobs : Nat
  senderCursors : Table Address Nat
  pq : List (Nat × Address)

/-- `U256::to::<u64>`, which panics on a number that is too large. -/
def toU64 (n : U256) : Option UInt64 :=
  if n.toNat < 2 ^ 64 then some (UInt64.ofNat n.toNat) else none

/-- Sums as release builds have them. -/
def addU64 (a b : Nat) : Nat := (a + b) % 2 ^ 64

def addU32 (a b : Nat) : Nat := (a + b) % 2 ^ 32

/-- The order of the heap: by tip, then by address. -/
def entryLe (a b : Nat × Address) : Bool :=
  a.1 < b.1 || a.1 == b.1 && decide (a.2.bytes ≤ b.2.bytes)

namespace MempoolSnapshot

variable [TipPerGas]

/-- The heads of the queues that pay the base fee, in whatever order the map
gives them. -/
def start (baseFee : UInt64) : List (Sigma fun _ : Address => List Transaction) → Selection
  | [] => ⟨[], 0, 0, ∅, []⟩
  | ⟨address, queue⟩ :: rest =>
      let selection := start baseFee rest
      match queue[0]? with
      | none => selection
      | some tx =>
          match TipPerGas.effectiveTipPerGas tx baseFee with
          | none => selection
          | some tip =>
              { selection with
                pq := (tip, address) :: selection.pq
                senderCursors := selection.senderCursors.insert address 0 }

/-- The number of blobs as a `u32`. -/
def blobsCount (tx : Transaction) : Nat := tx.blobVersionedHashes.length % 2 ^ 32

/-- The checks against the limits of the block. -/
def passes (snapshot : MempoolSnapshot) (targetGasLimit : UInt64) (maxBlobs : UInt32)
    (selection : Selection) (tx : Transaction) : Bool :=
  if targetGasLimit.toNat < addU64 selection.currentGas tx.gasLimit then false
  else if tx.isEip4844 then
    if maxBlobs.toNat < addU32 selection.currentBlobs (blobsCount tx) then false
    else tx.blobVersionedHashes.all fun hash => (snapshot.blobs.get hash).isSome
  else true

/-- A transaction is taken and the cursor of its sender moves on. -/
def take (baseFee : UInt64) (address : Address) (queue : List Transaction) (cursor : Nat)
    (selection : Selection) (tx : Transaction) : Selection :=
  let selection :=
    { selection with
      result := selection.result ++ [tx]
      currentGas := addU64 selection.currentGas tx.gasLimit
      currentBlobs :=
        if tx.isEip4844 then addU32 selection.currentBlobs (blobsCount tx)
        else selection.currentBlobs
      senderCursors := selection.senderCursors.insert address (cursor + 1) }
  match queue[cursor + 1]? with
  | none => selection
  | some nextTx =>
      match TipPerGas.effectiveTipPerGas nextTx baseFee with
      | none => selection
      | some nextTip => { selection with pq := (nextTip, address) :: selection.pq }

/-- The transaction at the cursor of a sender, with the queue and the cursor. -/
def look (snapshot : MempoolSnapshot) (selection : Selection) (address : Address) :
    Option (List Transaction × Nat × Transaction) := do
  let queue ← snapshot.pending.lookup address
  let cursor ← selection.senderCursors.get address
  let tx ← queue[cursor]?
  return (queue, cursor, tx)

/-- One round. It panics where a sender in the heap has nothing at the cursor. -/
def round (snapshot : MempoolSnapshot) (targetGasLimit baseFee : UInt64) (maxBlobs : UInt32)
    (selection : Selection) (address : Address) (others : List (Nat × Address)) :
    Option Selection := do
  let (queue, cursor, tx) ← snapshot.look selection address
  let selection := { selection with pq := others }
  if snapshot.passes targetGasLimit maxBlobs selection tx then
    return take baseFee address queue cursor selection tx
  else return selection

/-- The loop of the selection, which has no result when it runs out of fuel. -/
def selectLoop (snapshot : MempoolSnapshot) (targetGasLimit baseFee : UInt64) (maxBlobs : UInt32) :
    Nat → Selection → Option (List Transaction)
  | 0, _ => none
  | fuel + 1, selection =>
      if selection.currentGas < targetGasLimit.toNat then
        match MaxHeap.pop entryLe selection.pq with
        | none => some selection.result
        | some ((_, address), others) => do
            let selection ←
              snapshot.round targetGasLimit baseFee maxBlobs selection address others
            selectLoop snapshot targetGasLimit baseFee maxBlobs fuel selection
      else some selection.result

/-- Every round takes a transaction off a queue or gives a queue up. -/
def peekBestTransactions (snapshot : MempoolSnapshot) (targetGasLimit : UInt64) (baseFee : U256)
    (_blobBaseFee : Option U256) (maxBlobsPerBlock : Option UInt32) :
    Option (List Transaction) := do
  let maxBlobs := maxBlobsPerBlock.getD 6
  let baseFee ← toU64 baseFee
  let fuel := (snapshot.pending.values.map List.length).sum + 1
  snapshot.selectLoop targetGasLimit baseFee maxBlobs fuel
    (start baseFee snapshot.pending.entries)

/-! ## Greedy selections -/

end MempoolSnapshot

/-- What a greedy selection has come to: the transactions with their senders, and
the senders that are given up. -/
structure Course where
  picks : List (Address × Transaction)
  passed : List Address

namespace Course

def nothing : Course := ⟨[], []⟩

/-- The transactions taken from a sender. -/
def picksOf (progress : Course) (address : Address) : List Transaction :=
  (progress.picks.filter fun pick => pick.1 = address).map Prod.snd

def gas (progress : Course) : Nat := (progress.picks.map fun pick => pick.2.gasLimit).sum

def blobs (progress : Course) : Nat :=
  (progress.picks.map fun pick => pick.2.blobVersionedHashes.length).sum

def pick (progress : Course) (address : Address) (tx : Transaction) : Course :=
  { progress with picks := progress.picks ++ [(address, tx)] }

def pass (progress : Course) (address : Address) : Course :=
  { progress with passed := address :: progress.passed }

variable (progress : Course) (address at' : Address) (tx : Transaction)

@[simp] theorem gas_pick : (progress.pick address tx).gas = progress.gas + tx.gasLimit := by
  unfold gas pick
  rw [List.map_append, List.sum_append]
  rfl

@[simp] theorem blobs_pick :
    (progress.pick address tx).blobs = progress.blobs + tx.blobVersionedHashes.length := by
  unfold blobs pick
  rw [List.map_append, List.sum_append]
  rfl

@[simp] theorem picksOf_pick_self :
    (progress.pick address tx).picksOf address = progress.picksOf address ++ [tx] := by
  simp [picksOf, pick]

theorem picksOf_pick_of_ne (h : at' ≠ address) :
    (progress.pick address tx).picksOf at' = progress.picksOf at' := by
  simp [picksOf, pick, Ne.symm h]

@[simp] theorem picksOf_pass : (progress.pass address).picksOf at' = progress.picksOf at' := rfl

end Course

namespace MempoolSnapshot

def queue (snapshot : MempoolSnapshot) (address : Address) : List Transaction :=
  (snapshot.pending.lookup address).getD []

section

variable [TipPerGas] (snapshot : MempoolSnapshot) (targetGasLimit baseFee : UInt64)
  (maxBlobs : UInt32)

/-- The next transaction of a sender that is not given up, with its tip. -/
def Head (progress : Course) (address : Address) (tip : Nat) (tx : Transaction) : Prop :=
  address ∉ progress.passed ∧
    (snapshot.queue address)[(progress.picksOf address).length]? = some tx ∧
    TipPerGas.effectiveTipPerGas tx baseFee = some tip

/-- No other head has a higher tip. -/
def Best (progress : Course) (address : Address) (tx : Transaction) : Prop :=
  ∃ tip, snapshot.Head baseFee progress address tip tx ∧
    ∀ address' tip' tx', snapshot.Head baseFee progress address' tip' tx' → tip' ≤ tip

omit [TipPerGas] in
/-- With the transaction, the limits are kept and the blobs are there. -/
def Fits (progress : Course) (tx : Transaction) : Prop :=
  progress.gas + tx.gasLimit ≤ targetGasLimit.toNat ∧
    progress.blobs + tx.blobVersionedHashes.length ≤ maxBlobs.toNat ∧
    ∀ hash ∈ tx.blobVersionedHashes, (snapshot.blobs.get hash).isSome

/-- The best head is taken if it fits; if not, its sender is given up. -/
inductive Greedy (progress : Course) : Course → Prop
  | take {address : Address} {tx : Transaction}
      (hbest : snapshot.Best baseFee progress address tx)
      (hfits : snapshot.Fits targetGasLimit maxBlobs progress tx) :
      Greedy progress (progress.pick address tx)
  | giveUp {address : Address} {tx : Transaction}
      (hbest : snapshot.Best baseFee progress address tx)
      (hfits : ¬ snapshot.Fits targetGasLimit maxBlobs progress tx) :
      Greedy progress (progress.pass address)

/-- The gas is used up, or nobody is left. -/
def Finished (progress : Course) : Prop :=
  targetGasLimit.toNat ≤ progress.gas ∨
    ∀ address tip tx, ¬ snapshot.Head baseFee progress address tip tx

/-- A selection within the limits, of transactions that stand first in their queues,
each of which was the best head there was. -/
structure SelectsWell (result : List Transaction) : Prop where
  gas : (result.map Transaction.gasLimit).sum ≤ targetGasLimit.toNat
  blobs : (result.map fun tx => tx.blobVersionedHashes.length).sum ≤ maxBlobs.toNat
  present : ∀ tx ∈ result, ∀ hash ∈ tx.blobVersionedHashes, (snapshot.blobs.get hash).isSome
  greedy : ∃ progress,
    Relation.ReflTransGen (snapshot.Greedy targetGasLimit baseFee maxBlobs) .nothing progress ∧
      snapshot.Finished targetGasLimit baseFee progress ∧
      progress.picks.map Prod.snd = result ∧
      ∀ address, progress.picksOf address <+: snapshot.queue address

/-- One round of the loop follows on another. -/
def Rounds (selection selection' : Selection) : Prop :=
  selection.currentGas < targetGasLimit.toNat ∧
    ∃ tip address others,
      MaxHeap.pop entryLe selection.pq = some ((tip, address), others) ∧
      snapshot.round targetGasLimit baseFee maxBlobs selection address others = some selection'

/-- The loop is about to look at a transaction that passes the checks while the gas
does not fit in 64 bits, or the number of blobs in 32. -/
def Overflows (selection : Selection) : Prop :=
  selection.currentGas < targetGasLimit.toNat ∧
    ∃ tip address others queue cursor tx,
      MaxHeap.pop entryLe selection.pq = some ((tip, address), others) ∧
      snapshot.look selection address = some (queue, cursor, tx) ∧
      snapshot.passes targetGasLimit maxBlobs selection tx = true ∧
      (2 ^ 64 ≤ selection.currentGas + tx.gasLimit ∨
        2 ^ 32 ≤ selection.currentBlobs + tx.blobVersionedHashes.length)

end

/-! ## What greedy selections keep -/

section

variable [TipPerGas] {snapshot : MempoolSnapshot} {targetGasLimit baseFee : UInt64}
  {maxBlobs : UInt32}

/-- What has been taken is within the limits and stands first in the queues. -/
structure Within (snapshot : MempoolSnapshot) (targetGasLimit : UInt64) (maxBlobs : UInt32)
    (progress : Course) : Prop where
  gas : progress.gas ≤ targetGasLimit.toNat
  blobs : progress.blobs ≤ maxBlobs.toNat
  present : ∀ pick ∈ progress.picks, ∀ hash ∈ pick.2.blobVersionedHashes,
    (snapshot.blobs.get hash).isSome
  prefixes : ∀ address, progress.picksOf address <+: snapshot.queue address

omit [TipPerGas] in
theorem within_nothing : Within snapshot targetGasLimit maxBlobs .nothing where
  gas := Nat.zero_le _
  blobs := Nat.zero_le _
  present _ hmem := absurd hmem List.not_mem_nil
  prefixes _ := List.nil_prefix

theorem Within.step {progress progress' : Course}
    (h : Within snapshot targetGasLimit maxBlobs progress)
    (hstep : snapshot.Greedy targetGasLimit baseFee maxBlobs progress progress') :
    Within snapshot targetGasLimit maxBlobs progress' := by
  cases hstep with
  | @take address tx hbest hfits =>
      obtain ⟨tip, ⟨-, hhead, -⟩, -⟩ := hbest
      obtain ⟨hgas, hblobs, hpresent⟩ := hfits
      refine ⟨?_, ?_, ?_, ?_⟩
      · rw [Course.gas_pick]
        exact hgas
      · rw [Course.blobs_pick]
        exact hblobs
      · intro pick hmem
        rcases List.mem_append.mp hmem with hmem | hmem
        · exact h.present pick hmem
        · rw [List.mem_singleton.mp hmem]
          exact hpresent
      · intro at'
        by_cases hat : at' = address
        · subst hat
          rw [Course.picksOf_pick_self]
          obtain ⟨rest, hqueue⟩ := h.prefixes at'
          rw [← hqueue, List.getElem?_append_right (Nat.le_refl _), Nat.sub_self] at hhead
          obtain ⟨rest', rfl⟩ := List.head?_eq_some_iff.mp (List.head?_eq_getElem? ▸ hhead)
          exact ⟨rest', by rw [← hqueue, List.append_assoc, List.singleton_append]⟩
        · rw [Course.picksOf_pick_of_ne _ _ _ _ hat]
          exact h.prefixes at'
  | giveUp => exact ⟨h.gas, h.blobs, h.present, h.prefixes⟩

theorem Within.run {progress progress' : Course}
    (h : Within snapshot targetGasLimit maxBlobs progress)
    (hrun : Relation.ReflTransGen (snapshot.Greedy targetGasLimit baseFee maxBlobs)
      progress progress') : Within snapshot targetGasLimit maxBlobs progress' := by
  induction hrun with
  | refl => exact h
  | tail _ hstep ih => exact ih.step hstep

/-- A greedy selection that is finished has selected well. -/
theorem selectsWell_of_greedy {progress : Course}
    (hrun : Relation.ReflTransGen (snapshot.Greedy targetGasLimit baseFee maxBlobs)
      .nothing progress) (hfinished : snapshot.Finished targetGasLimit baseFee progress) :
    snapshot.SelectsWell targetGasLimit baseFee maxBlobs (progress.picks.map Prod.snd) := by
  have hwithin := within_nothing.run hrun
  refine ⟨?_, ?_, ?_, progress, hrun, hfinished, rfl, hwithin.prefixes⟩
  · rw [List.map_map]
    exact hwithin.gas
  · rw [List.map_map]
    exact hwithin.blobs
  · intro tx hmem
    obtain ⟨pick, hpick, rfl⟩ := List.mem_map.mp hmem
    exact hwithin.present pick hpick

/-! ## The heap holds the heads -/

/-- The loop stands where a greedy selection does. -/
structure Tracks (snapshot : MempoolSnapshot) (baseFee : UInt64) (selection : Selection)
    (progress : Course) : Prop where
  result : progress.picks.map Prod.snd = selection.result
  gas : progress.gas = selection.currentGas
  blobs : progress.blobs = selection.currentBlobs
  cursors : ∀ tip address, (tip, address) ∈ selection.pq →
    selection.senderCursors.get address = some (progress.picksOf address).length
  heads : ∀ tip address, (tip, address) ∈ selection.pq ↔
    ∃ tx, snapshot.Head baseFee progress address tip tx
  nodup : (selection.pq.map Prod.snd).Nodup

omit [TipPerGas] in
theorem entryLe_key (a b : Nat × Address) (h : entryLe a b = true) : a.1 ≤ b.1 := by
  unfold entryLe at h
  rw [Bool.or_eq_true, Bool.and_eq_true, decide_eq_true_iff, beq_iff_eq] at h
  omega

omit [TipPerGas] in
theorem key_of_not_entryLe (a b : Nat × Address) (h : entryLe a b = false) : b.1 ≤ a.1 := by
  unfold entryLe at h
  rw [Bool.or_eq_false_iff, decide_eq_false_iff_not] at h
  omega

/-- What is popped is the best head, at its cursor. -/
theorem Tracks.pop {selection : Selection} {progress : Course}
    (h : Tracks snapshot baseFee selection progress) {tip : Nat} {address : Address}
    {others : List (Nat × Address)}
    (hpop : MaxHeap.pop entryLe selection.pq = some ((tip, address), others)) :
    ∃ tx, snapshot.Head baseFee progress address tip tx ∧
      snapshot.Best baseFee progress address tx ∧
      snapshot.look selection address =
        some (snapshot.queue address, (progress.picksOf address).length, tx) := by
  have hperm := MaxHeap.pop_perm hpop
  have hmem : (tip, address) ∈ selection.pq := hperm.mem_iff.mpr List.mem_cons_self
  obtain ⟨tx, hhead⟩ := (h.heads tip address).mp hmem
  refine ⟨tx, hhead, ⟨tip, hhead, ?_⟩, ?_⟩
  · intro address' tip' tx' hhead'
    have hmem' := hperm.mem_iff.mp ((h.heads tip' address').mpr ⟨tx', hhead'⟩)
    rcases List.mem_cons.mp hmem' with heq | hmem'
    · exact (Prod.ext_iff.mp heq).1.le
    · exact MaxHeap.key_le_of_pop Prod.fst entryLe_key key_of_not_entryLe hpop _ hmem'
  · have hat := hhead.2.1
    unfold look
    rw [h.cursors tip address hmem]
    unfold queue at hat ⊢
    cases hlookup : snapshot.pending.lookup address with
    | none =>
        rw [hlookup] at hat
        cases hat
    | some txs =>
        rw [hlookup] at hat
        dsimp only [Option.bind_eq_bind, Option.bind_some, Option.getD_some] at hat ⊢
        rw [hat]
        rfl

omit [TipPerGas] in
/-- What stays in the heap are the entries of the other senders. -/
theorem mem_others {pq others : List (Nat × Address)} {tip : Nat} {address : Address}
    (hnodup : (pq.map Prod.snd).Nodup) (hperm : pq.Perm ((tip, address) :: others))
    (tip' : Nat) (at' : Address) :
    (tip', at') ∈ others ↔ at' ≠ address ∧ (tip', at') ∈ pq := by
  have hcons : ((address :: others.map Prod.snd)).Nodup := (hperm.map Prod.snd).nodup_iff.mp hnodup
  rw [hperm.mem_iff, List.mem_cons, Prod.mk.injEq]
  constructor
  · intro hmem
    refine ⟨?_, .inr hmem⟩
    rintro rfl
    exact (List.nodup_cons.mp hcons).1 (List.mem_map.mpr ⟨_, hmem, rfl⟩)
  · rintro ⟨hne, ⟨-, heq⟩ | hmem⟩
    · exact absurd heq hne
    · exact hmem

/-- The others keep their heads when a sender is given up. -/
theorem Tracks.giveUp {selection : Selection} {progress : Course}
    (h : Tracks snapshot baseFee selection progress) {tip : Nat} {address : Address}
    {others : List (Nat × Address)} (hperm : selection.pq.Perm ((tip, address) :: others)) :
    Tracks snapshot baseFee { selection with pq := others } (progress.pass address) := by
  have hothers := mem_others h.nodup hperm
  refine ⟨h.result, h.gas, h.blobs, ?_, ?_, ?_⟩
  · intro tip' at' hmem
    exact h.cursors tip' at' ((hothers tip' at').mp hmem).2
  · intro tip' at'
    dsimp only
    rw [hothers, h.heads]
    unfold Head
    rw [Course.picksOf_pass]
    constructor
    · rintro ⟨hne, tx, hpassed, hrest⟩
      refine ⟨tx, fun hmem => ?_, hrest⟩
      rcases List.mem_cons.mp hmem with heq | hmem
      · exact hne heq
      · exact hpassed hmem
    · rintro ⟨tx, hpassed, hrest⟩
      refine ⟨?_, tx, fun hmem => hpassed (List.mem_cons_of_mem _ hmem), hrest⟩
      rintro rfl
      exact hpassed List.mem_cons_self
  · exact (List.nodup_cons.mp ((hperm.map Prod.snd).nodup_iff.mp h.nodup)).2

/-- The heap after a transaction is taken: the others, and the sender if it has a
next head. -/
theorem mem_take {selection : Selection} {address : Address} {queue : List Transaction}
    {cursor : Nat} {tx : Transaction} (tip' : Nat) (at' : Address) :
    (tip', at') ∈ (take baseFee address queue cursor selection tx).pq ↔
      (at' = address ∧ ∃ next, queue[cursor + 1]? = some next ∧
        TipPerGas.effectiveTipPerGas next baseFee = some tip') ∨
      (tip', at') ∈ selection.pq := by
  unfold take
  cases hnext : queue[cursor + 1]? with
  | none => simp
  | some next =>
      cases htip : TipPerGas.effectiveTipPerGas next baseFee with
      | none => simp [htip]
      | some nextTip =>
          simp only [List.mem_cons, Prod.mk.injEq, Option.some.injEq, exists_eq_left', htip]
          rw [and_comm, eq_comm (a := nextTip)]

omit [TipPerGas] in
theorem blobVersionedHashes_eq_nil {tx : Transaction} (h : ¬ tx.isEip4844) :
    tx.blobVersionedHashes = [] := by
  unfold Transaction.isEip4844 at h
  unfold Transaction.blobVersionedHashes
  cases hkind : tx.kind with
  | eip4844 =>
      rw [hkind] at h
      exact absurd rfl h
  | _ => rfl

theorem take_fields (baseFee : UInt64) (queue : List Transaction) (cursor : Nat) (address : Address)
    (tx : Transaction) (selection : Selection) :
    (take baseFee address queue cursor selection tx).result = selection.result ++ [tx] ∧
      (take baseFee address queue cursor selection tx).currentGas =
        addU64 selection.currentGas tx.gasLimit ∧
      (take baseFee address queue cursor selection tx).currentBlobs =
        (if tx.isEip4844 then addU32 selection.currentBlobs (blobsCount tx)
        else selection.currentBlobs) ∧
      (take baseFee address queue cursor selection tx).senderCursors =
        selection.senderCursors.insert address (cursor + 1) := by
  unfold take
  cases queue[cursor + 1]? with
  | none => exact ⟨rfl, rfl, rfl, rfl⟩
  | some next =>
      cases htip : TipPerGas.effectiveTipPerGas next baseFee with
      | none => simp [htip]
      | some nextTip => simp [htip]

/-- Where the sums do not overflow, taking a transaction counts what it has. -/
theorem Tracks.take {selection : Selection} {progress : Course}
    (h : Tracks snapshot baseFee selection progress) {tip : Nat} {address : Address}
    {others : List (Nat × Address)} (hperm : selection.pq.Perm ((tip, address) :: others))
    {tx : Transaction} (hpassed : address ∉ progress.passed)
    (hgas : selection.currentGas + tx.gasLimit < 2 ^ 64)
    (hblobs : selection.currentBlobs + tx.blobVersionedHashes.length < 2 ^ 32) :
    Tracks snapshot baseFee
      (MempoolSnapshot.take baseFee address (snapshot.queue address)
        (progress.picksOf address).length { selection with pq := others } tx)
      (progress.pick address tx) := by
  have hothers := mem_others h.nodup hperm
  have hcons := (hperm.map Prod.snd).nodup_iff.mp h.nodup
  obtain ⟨hresult, hgas', hblobs', hcursors⟩ := take_fields baseFee
    (snapshot.queue address) (progress.picksOf address).length address tx
    { selection with pq := others }
  refine ⟨?_, ?_, ?_, ?_, ?_, ?_⟩
  · rw [hresult, ← h.result]
    exact List.map_append
  · rw [hgas', Course.gas_pick, h.gas]
    exact (Nat.mod_eq_of_lt hgas).symm
  · rw [hblobs', Course.blobs_pick, h.blobs]
    split
    next h4844 =>
      unfold addU32 blobsCount
      dsimp only
      omega
    next h4844 => rw [blobVersionedHashes_eq_nil h4844, List.length_nil, Nat.add_zero]
  · intro tip' at' hmem
    rw [hcursors, Table.get_insert]
    rcases (mem_take tip' at').mp hmem with ⟨rfl, -⟩ | hmem
    · rw [if_pos rfl, Course.picksOf_pick_self, List.length_append, List.length_singleton]
    · obtain ⟨hne, hmem⟩ := (hothers tip' at').mp hmem
      rw [if_neg hne, Course.picksOf_pick_of_ne _ _ _ _ hne]
      exact h.cursors tip' at' hmem
  · intro tip' at'
    rw [mem_take, hothers, h.heads]
    by_cases hat : at' = address
    · subst hat
      unfold Head
      rw [Course.picksOf_pick_self, List.length_append, List.length_singleton]
      constructor
      · rintro (⟨-, next, hnext⟩ | ⟨hne, -⟩)
        · exact ⟨next, hpassed, hnext⟩
        · exact absurd rfl hne
      · rintro ⟨next, -, hnext⟩
        exact .inl ⟨rfl, next, hnext⟩
    · unfold Head
      rw [Course.picksOf_pick_of_ne _ _ _ _ hat]
      constructor
      · rintro (⟨heq, -⟩ | ⟨-, hhead⟩)
        · exact absurd heq hat
        · exact hhead
      · exact fun hhead => .inr ⟨hat, hhead⟩
  · unfold MempoolSnapshot.take
    cases (snapshot.queue address)[(progress.picksOf address).length + 1]? with
    | none => exact (List.nodup_cons.mp hcons).2
    | some next =>
        dsimp only
        cases TipPerGas.effectiveTipPerGas next baseFee with
        | none => exact (List.nodup_cons.mp hcons).2
        | some nextTip => exact hcons

/-! ## Checks and sums -/

/-- Where the checks pass, either nothing overflows and the transaction fits, or one
of the limits is exceeded. -/
theorem Tracks.fits_or {selection : Selection} {progress : Course}
    (h : Tracks snapshot baseFee selection progress)
    (hwithin : progress.blobs ≤ maxBlobs.toNat) {tx : Transaction}
    (hpasses : snapshot.passes targetGasLimit maxBlobs selection tx = true) :
    (selection.currentGas + tx.gasLimit < 2 ^ 64 ∧
      selection.currentBlobs + tx.blobVersionedHashes.length < 2 ^ 32 ∧
      snapshot.Fits targetGasLimit maxBlobs progress tx) ∨
    ((2 ^ 64 ≤ selection.currentGas + tx.gasLimit ∨
        2 ^ 32 ≤ selection.currentBlobs + tx.blobVersionedHashes.length) ∧
      (targetGasLimit.toNat < progress.gas + tx.gasLimit ∨
        maxBlobs.toNat < progress.blobs + tx.blobVersionedHashes.length)) := by
  have htarget := targetGasLimit.toNat_lt
  have hmax := maxBlobs.toNat_lt
  rw [← h.gas, ← h.blobs]
  unfold passes at hpasses
  rw [← h.gas, ← h.blobs] at hpasses
  unfold Fits
  split at hpasses
  · cases hpasses
  next hgas =>
    unfold addU64 at hgas
    split at hpasses
    next h4844 =>
      split at hpasses
      · cases hpasses
      next hblobs =>
        unfold addU32 blobsCount at hblobs
        have hpresent := List.all_eq_true.mp hpasses
        by_cases hover : 2 ^ 64 ≤ progress.gas + tx.gasLimit ∨
            2 ^ 32 ≤ progress.blobs + tx.blobVersionedHashes.length
        · exact .inr ⟨hover, by omega⟩
        · exact .inl ⟨by omega, by omega, by omega, by omega, hpresent⟩
    next h4844 =>
      rw [blobVersionedHashes_eq_nil h4844, List.length_nil]
      by_cases hover : 2 ^ 64 ≤ progress.gas + tx.gasLimit
      · exact .inr ⟨.inl hover, .inl (by omega)⟩
      · exact .inl ⟨by omega, by omega, by omega, hwithin, fun _ hmem => nomatch hmem⟩

theorem Tracks.not_fits {selection : Selection} {progress : Course}
    (h : Tracks snapshot baseFee selection progress) {tx : Transaction}
    (hpasses : snapshot.passes targetGasLimit maxBlobs selection tx = false) :
    ¬ snapshot.Fits targetGasLimit maxBlobs progress tx := by
  rintro ⟨hgas, hblobs, hpresent⟩
  unfold passes at hpasses
  rw [← h.gas, ← h.blobs] at hpasses
  split at hpasses
  next hlt =>
    unfold addU64 at hlt
    have hmod := Nat.mod_le (progress.gas + tx.gasLimit) (2 ^ 64)
    omega
  next =>
    split at hpasses
    · split at hpasses
      next hlt =>
        unfold addU32 blobsCount at hlt
        have hmod := Nat.mod_le (progress.blobs + tx.blobVersionedHashes.length) (2 ^ 32)
        omega
      next =>
        rw [List.all_eq_true.mpr hpresent] at hpasses
        cases hpasses
    · cases hpasses

/-! ## The loop -/

omit [TipPerGas] in
theorem sums_le_of_prefix {taken result : List Transaction} (h : taken <+: result) :
    (taken.map Transaction.gasLimit).sum ≤ (result.map Transaction.gasLimit).sum ∧
      (taken.map fun tx => tx.blobVersionedHashes.length).sum ≤
        (result.map fun tx => tx.blobVersionedHashes.length).sum := by
  obtain ⟨rest, rfl⟩ := h
  rw [List.map_append, List.map_append, List.sum_append, List.sum_append]
  exact ⟨Nat.le_add_right _ _, Nat.le_add_right _ _⟩

theorem round_result {selection selection' : Selection} {address : Address}
    {others : List (Nat × Address)}
    (h : snapshot.round targetGasLimit baseFee maxBlobs selection address others =
      some selection') : selection.result <+: selection'.result := by
  unfold round at h
  cases hlook : snapshot.look selection address with
  | none =>
      rw [hlook] at h
      cases h
  | some found =>
      rw [hlook] at h
      dsimp only [Option.bind_eq_bind, Option.bind_some] at h
      split at h
      · cases h
        rw [(take_fields _ _ _ _ _ _).1]
        exact List.prefix_append _ _
      · cases h
        exact List.prefix_rfl

/-- What was selected stays selected. -/
theorem prefix_of_selectLoop {fuel : Nat} {selection : Selection} {result : List Transaction}
    (h : snapshot.selectLoop targetGasLimit baseFee maxBlobs fuel selection = some result) :
    selection.result <+: result := by
  induction fuel generalizing selection with
  | zero => cases h
  | succ fuel ih =>
      unfold selectLoop at h
      split at h
      · split at h
        · cases h
          exact List.prefix_rfl
        next address others _ =>
            obtain ⟨selection', hround, hrest⟩ := Option.bind_eq_some_iff.mp h
            exact (round_result hround).trans (ih hrest)
      · cases h
        exact List.prefix_rfl

/-- How many transactions the senders in the heap still have. -/
def rank (snapshot : MempoolSnapshot) (progress : Course) (pq : List (Nat × Address)) : Nat :=
  (pq.map fun entry =>
    (snapshot.queue entry.2).length - (progress.picksOf entry.2).length).sum

omit [TipPerGas] in
theorem rank_perm {progress : Course} {pq others : List (Nat × Address)} {tip : Nat}
    {address : Address} (hperm : pq.Perm ((tip, address) :: others)) :
    snapshot.rank progress pq =
      (snapshot.queue address).length - (progress.picksOf address).length +
        snapshot.rank progress others := by
  unfold rank
  rw [(hperm.map _).sum_eq]
  rfl

omit [TipPerGas] in
/-- Taking from a sender leaves the others what they have. -/
theorem rank_pick {progress : Course} {address : Address} {tx : Transaction}
    {others : List (Nat × Address)} (h : address ∉ others.map Prod.snd) :
    snapshot.rank (progress.pick address tx) others = snapshot.rank progress others := by
  unfold rank
  congr 1
  refine List.map_congr_left fun entry hmem => ?_
  have hne : entry.2 ≠ address := fun heq => h (heq ▸ List.mem_map_of_mem hmem)
  rw [Course.picksOf_pick_of_ne _ _ _ _ hne]

theorem rank_take {progress : Course} {selection : Selection} {address : Address}
    {tx : Transaction} (h : address ∉ selection.pq.map Prod.snd)
    (htaken : (progress.picksOf address).length < (snapshot.queue address).length) :
    snapshot.rank (progress.pick address tx)
        (take baseFee address (snapshot.queue address) (progress.picksOf address).length
          selection tx).pq <
      (snapshot.queue address).length - (progress.picksOf address).length +
        snapshot.rank progress selection.pq := by
  have hothers : snapshot.rank (progress.pick address tx) selection.pq =
      snapshot.rank progress selection.pq := rank_pick h
  unfold take
  cases (snapshot.queue address)[(progress.picksOf address).length + 1]? with
  | none =>
      dsimp only
      omega
  | some next =>
      dsimp only
      cases TipPerGas.effectiveTipPerGas next baseFee with
      | none =>
          dsimp only
          omega
      | some nextTip =>
          dsimp only
          rw [rank_perm (List.Perm.refl _), hothers, Course.picksOf_pick_self,
            List.length_append, List.length_singleton]
          omega

/-- The loop from here is a greedy selection that nothing disturbs, or it comes
through an overflow and exceeds a limit. -/
inductive Outcome (snapshot : MempoolSnapshot) (targetGasLimit baseFee : UInt64)
    (maxBlobs : UInt32) (fuel : Nat) (selection : Selection) (progress : Course) : Prop
  | greedy {progress' : Course}
      (hrun : Relation.ReflTransGen (snapshot.Greedy targetGasLimit baseFee maxBlobs)
        progress progress')
      (hfinished : snapshot.Finished targetGasLimit baseFee progress')
      (hresult : snapshot.selectLoop targetGasLimit baseFee maxBlobs fuel selection =
        some (progress'.picks.map Prod.snd))
      (hnever : ∀ selection', Relation.ReflTransGen
        (snapshot.Rounds targetGasLimit baseFee maxBlobs) selection selection' →
          ¬ snapshot.Overflows targetGasLimit maxBlobs selection')
  | beyond {selection' : Selection}
      (hrounds : Relation.ReflTransGen
        (snapshot.Rounds targetGasLimit baseFee maxBlobs) selection selection')
      (hover : snapshot.Overflows targetGasLimit maxBlobs selection')
      (hlimits : ∀ result,
        snapshot.selectLoop targetGasLimit baseFee maxBlobs fuel selection = some result →
        targetGasLimit.toNat < (result.map Transaction.gasLimit).sum ∨
          maxBlobs.toNat < (result.map fun tx => tx.blobVersionedHashes.length).sum)

/-- A round that follows a greedy step hands its outcome on. -/
theorem Outcome.head {fuel : Nat} {selection selection' : Selection}
    {progress progress' : Course} {tip : Nat} {address : Address}
    {others : List (Nat × Address)}
    (h : Outcome snapshot targetGasLimit baseFee maxBlobs fuel selection' progress')
    (hroom : selection.currentGas < targetGasLimit.toNat)
    (hpop : MaxHeap.pop entryLe selection.pq = some ((tip, address), others))
    (hround : snapshot.round targetGasLimit baseFee maxBlobs selection address others =
      some selection')
    (hstep : snapshot.Greedy targetGasLimit baseFee maxBlobs progress progress')
    (hnot : ¬ snapshot.Overflows targetGasLimit maxBlobs selection) :
    Outcome snapshot targetGasLimit baseFee maxBlobs (fuel + 1) selection progress := by
  have hloop : snapshot.selectLoop targetGasLimit baseFee maxBlobs (fuel + 1) selection =
      snapshot.selectLoop targetGasLimit baseFee maxBlobs fuel selection' := by
    rw [selectLoop, if_pos hroom, hpop]
    dsimp only
    rw [hround]
    rfl
  have hfirst : snapshot.Rounds targetGasLimit baseFee maxBlobs selection selection' :=
    ⟨hroom, tip, address, others, hpop, hround⟩
  cases h with
  | greedy hrun hfinished hresult hnever =>
      refine .greedy (.head hstep hrun) hfinished (hloop.trans hresult) fun reached hrounds => ?_
      rcases hrounds.cases_head with
        rfl | ⟨second, ⟨-, tip', address', others', hpop', hround'⟩, hrest⟩
      · exact hnot
      · rw [hpop] at hpop'
        cases hpop'
        rw [hround] at hround'
        cases hround'
        exact hnever reached hrest
  | beyond hrounds hover hlimits =>
      exact .beyond (.head hfirst hrounds) hover fun result h => hlimits result (hloop ▸ h)

/-- The loop ends where nothing is left to look at. -/
theorem Outcome.last {fuel : Nat} {selection : Selection} {progress : Course}
    (h : Tracks snapshot baseFee selection progress)
    (hend : ¬ selection.currentGas < targetGasLimit.toNat ∨ selection.pq = []) :
    Outcome snapshot targetGasLimit baseFee maxBlobs (fuel + 1) selection progress := by
  have hpop : selection.currentGas < targetGasLimit.toNat →
      MaxHeap.pop entryLe selection.pq = none := by
    intro hroom
    rcases hend with hfull | hempty
    · exact absurd hroom hfull
    · exact MaxHeap.pop_eq_none_iff.mpr hempty
  refine .greedy .refl ?_ ?_ ?_
  · rcases hend with hfull | hempty
    · left
      rw [h.gas]
      exact Nat.le_of_not_lt hfull
    · right
      intro address tip tx hhead
      have hmem := (h.heads tip address).mpr ⟨tx, hhead⟩
      rw [hempty] at hmem
      exact absurd hmem List.not_mem_nil
  · rw [selectLoop, h.result]
    split
    next hroom => rw [hpop hroom]
    next => rfl
  · intro selection' hrounds hover
    rcases hrounds.cases_head with rfl | ⟨second, ⟨hroom, tip, address, others, hsome, -⟩, -⟩
    · obtain ⟨hroom, tip, address, others, queue, cursor, tx, hsome, -⟩ := hover
      rw [hpop hroom] at hsome
      cases hsome
    · rw [hpop hroom] at hsome
      cases hsome

theorem round_of_look {selection : Selection} {address : Address} {others : List (Nat × Address)}
    {queue : List Transaction} {cursor : Nat} {tx : Transaction}
    (hlook : snapshot.look selection address = some (queue, cursor, tx)) :
    snapshot.round targetGasLimit baseFee maxBlobs selection address others =
      some (if snapshot.passes targetGasLimit maxBlobs selection tx then
        take baseFee address queue cursor { selection with pq := others } tx
      else { selection with pq := others }) := by
  unfold round
  rw [hlook]
  exact (apply_ite some _ _ _).symm

omit [TipPerGas] in
theorem not_overflows {selection : Selection} {tip : Nat} {address : Address}
    {others : List (Nat × Address)} {queue : List Transaction} {cursor : Nat} {tx : Transaction}
    (hpop : MaxHeap.pop entryLe selection.pq = some ((tip, address), others))
    (hlook : snapshot.look selection address = some (queue, cursor, tx))
    (h : snapshot.passes targetGasLimit maxBlobs selection tx = true →
      selection.currentGas + tx.gasLimit < 2 ^ 64 ∧
        selection.currentBlobs + tx.blobVersionedHashes.length < 2 ^ 32) :
    ¬ snapshot.Overflows targetGasLimit maxBlobs selection := by
  rintro ⟨-, tip', address', others', queue', cursor', tx', hpop', hlook', hpasses, hover⟩
  rw [hpop] at hpop'
  cases hpop'
  rw [hlook] at hlook'
  cases hlook'
  have hsums := h hpasses
  omega

/-- Once a limit is exceeded, it stays exceeded. -/
theorem exceeds_of_selectLoop {selection selection' : Selection} {progress : Course}
    {tip : Nat} {address : Address} {others : List (Nat × Address)} {tx : Transaction} {fuel : Nat}
    {result : List Transaction} (h : Tracks snapshot baseFee selection progress)
    (hroom : selection.currentGas < targetGasLimit.toNat)
    (hpop : MaxHeap.pop entryLe selection.pq = some ((tip, address), others))
    (hround : snapshot.round targetGasLimit baseFee maxBlobs selection address others =
      some selection') (htaken : selection'.result = selection.result ++ [tx])
    (hlimits : targetGasLimit.toNat < progress.gas + tx.gasLimit ∨
      maxBlobs.toNat < progress.blobs + tx.blobVersionedHashes.length)
    (hloop : snapshot.selectLoop targetGasLimit baseFee maxBlobs (fuel + 1) selection =
      some result) :
    targetGasLimit.toNat < (result.map Transaction.gasLimit).sum ∨
      maxBlobs.toNat < (result.map fun tx => tx.blobVersionedHashes.length).sum := by
  rw [selectLoop, if_pos hroom, hpop] at hloop
  dsimp only at hloop
  rw [hround, Option.bind_eq_bind, Option.bind_some] at hloop
  have hpicked : (progress.pick address tx).picks.map Prod.snd = selection'.result := by
    rw [htaken, ← h.result]
    exact List.map_append
  obtain ⟨hgas, hblobs⟩ := sums_le_of_prefix (prefix_of_selectLoop hloop)
  rw [← hpicked, List.map_map] at hgas hblobs
  have hgas' : (progress.pick address tx).gas ≤ (result.map Transaction.gasLimit).sum := hgas
  have hblobs' : (progress.pick address tx).blobs ≤
      (result.map fun tx => tx.blobVersionedHashes.length).sum := hblobs
  rw [Course.gas_pick] at hgas'
  rw [Course.blobs_pick] at hblobs'
  omega

/-- With fuel for every transaction that is left. -/
theorem outcome_selectLoop {fuel : Nat} {selection : Selection} {progress : Course}
    (h : Tracks snapshot baseFee selection progress)
    (hwithin : Within snapshot targetGasLimit maxBlobs progress)
    (hfuel : snapshot.rank progress selection.pq < fuel) :
    Outcome snapshot targetGasLimit baseFee maxBlobs fuel selection progress := by
  induction fuel generalizing selection progress with
  | zero => exact absurd hfuel (Nat.not_lt_zero _)
  | succ fuel ih =>
      by_cases hroom : selection.currentGas < targetGasLimit.toNat
      swap
      · exact .last h (.inl hroom)
      cases hpop : MaxHeap.pop entryLe selection.pq with
      | none => exact .last h (.inr (MaxHeap.pop_eq_none_iff.mp hpop))
      | some popped =>
          obtain ⟨⟨tip, address⟩, others⟩ := popped
          obtain ⟨tx, hhead, hbest, hlook⟩ := h.pop hpop
          have hperm := MaxHeap.pop_perm hpop
          have hnodup := (hperm.map Prod.snd).nodup_iff.mp h.nodup
          have hnotMem := (List.nodup_cons.mp hnodup).1
          have htaken := (List.getElem?_eq_some_iff.mp hhead.2.1).1
          rw [rank_perm hperm] at hfuel
          have hround : snapshot.round targetGasLimit baseFee maxBlobs selection address others =
              _ := round_of_look hlook
          cases hpasses : snapshot.passes targetGasLimit maxBlobs selection tx with
          | true =>
              rw [if_pos hpasses] at hround
              rcases h.fits_or hwithin.blobs hpasses with ⟨hgas, hblobs, hfits⟩ | ⟨hover, hlimits⟩
              · have hstep := Greedy.take hbest hfits
                refine (ih (h.take hperm hhead.1 hgas hblobs) (hwithin.step hstep) ?_).head
                  hroom hpop hround hstep (not_overflows hpop hlook fun _ => ⟨hgas, hblobs⟩)
                exact (rank_take hnotMem htaken).trans_le (Nat.le_of_lt_succ hfuel)
              · refine .beyond .refl ⟨hroom, tip, address, others, _, _, tx, hpop, hlook, hpasses,
                  hover⟩ fun result => ?_
                exact exceeds_of_selectLoop h hroom hpop hround (take_fields _ _ _ _ _ _).1 hlimits
          | false =>
              rw [if_neg (Bool.eq_false_iff.mp hpasses)] at hround
              have hstep := Greedy.giveUp hbest (h.not_fits hpasses)
              have hrank : snapshot.rank (progress.pass address) others =
                  snapshot.rank progress others := rfl
              refine (ih (h.giveUp hperm) (hwithin.step hstep) ?_).head hroom hpop hround hstep
                (not_overflows hpop hlook fun htrue => ?_)
              · dsimp only
                omega
              · rw [hpasses] at htrue
                cases htrue

/-! ## The whole selection -/

/-- The heap starts with the first transactions of the queues. -/
structure Starts (snapshot : MempoolSnapshot) (baseFee : UInt64)
    (entries : List (Sigma fun _ : Address => List Transaction)) (selection : Selection) :
    Prop where
  empty : selection.result = [] ∧ selection.currentGas = 0 ∧ selection.currentBlobs = 0
  cursors : ∀ tip address, (tip, address) ∈ selection.pq →
    selection.senderCursors.get address = some 0
  heads : ∀ tip address, (tip, address) ∈ selection.pq ↔
    address ∈ entries.keys ∧ ∃ tx, (snapshot.queue address)[0]? = some tx ∧
      TipPerGas.effectiveTipPerGas tx baseFee = some tip
  senders : (selection.pq.map Prod.snd).Sublist entries.keys
  rank : snapshot.rank .nothing selection.pq ≤ (entries.map fun entry => entry.2.length).sum

theorem starts_start {entries : List (Sigma fun _ : Address => List Transaction)}
    (hqueues : ∀ entry ∈ entries, snapshot.queue entry.1 = entry.2) :
    Starts snapshot baseFee entries (start baseFee entries) := by
  induction entries with
  | nil => exact ⟨⟨rfl, rfl, rfl⟩, nofun, by simp [start], List.Sublist.refl _, Nat.le_refl _⟩
  | cons entry rest ih =>
      obtain ⟨address, queue⟩ := entry
      have hqueue : snapshot.queue address = queue := hqueues _ List.mem_cons_self
      have hrest := ih fun entry hmem => hqueues entry (List.mem_cons_of_mem _ hmem)
      have hsum : ((⟨address, queue⟩ :: rest).map
          fun entry : Sigma fun _ : Address => List Transaction => entry.2.length).sum =
          queue.length + (rest.map fun entry => entry.2.length).sum := rfl
      have hnobody : (∀ tip, ¬ ∃ tx, (snapshot.queue address)[0]? = some tx ∧
          TipPerGas.effectiveTipPerGas tx baseFee = some tip) →
          Starts snapshot baseFee (⟨address, queue⟩ :: rest) (start baseFee rest) := by
        intro hno
        refine ⟨hrest.empty, hrest.cursors, ?_, hrest.senders.cons address,
          hrest.rank.trans (hsum ▸ Nat.le_add_left _ _)⟩
        intro tip at'
        rw [hrest.heads, List.keys_cons, List.mem_cons]
        constructor
        · rintro ⟨hmem, hhead⟩
          exact ⟨.inr hmem, hhead⟩
        · rintro ⟨rfl | hmem, hhead⟩
          · exact absurd hhead (hno tip)
          · exact ⟨hmem, hhead⟩
      rw [start]
      cases hfirst : queue[0]? with
      | none =>
          refine hnobody fun tip => ?_
          rintro ⟨tx, htx, -⟩
          rw [hqueue, hfirst] at htx
          cases htx
      | some tx =>
          dsimp only
          cases htip : TipPerGas.effectiveTipPerGas tx baseFee with
          | none =>
              refine hnobody fun tip => ?_
              rintro ⟨tx', htx, htip'⟩
              rw [hqueue, hfirst] at htx
              cases htx
              rw [htip] at htip'
              cases htip'
          | some tip =>
              refine ⟨hrest.empty, ?_, ?_, hrest.senders.cons_cons address, ?_⟩
              · intro tip' at' hmem
                dsimp only
                rw [Table.get_insert]
                split
                · rfl
                next hne =>
                  rcases List.mem_cons.mp hmem with heq | hmem
                  · exact absurd (Prod.ext_iff.mp heq).2 hne
                  · exact hrest.cursors tip' at' hmem
              · intro tip' at'
                dsimp only
                rw [List.mem_cons, hrest.heads, List.keys_cons, List.mem_cons]
                constructor
                · rintro (heq | ⟨hmem, hhead⟩)
                  · cases heq
                    exact ⟨.inl rfl, tx, hqueue ▸ hfirst, htip⟩
                  · exact ⟨.inr hmem, hhead⟩
                · rintro ⟨rfl | hmem, tx', htx, htip'⟩
                  · rw [hqueue, hfirst] at htx
                    cases htx
                    rw [htip] at htip'
                    cases htip'
                    exact .inl rfl
                  · exact .inr ⟨hmem, tx', htx, htip'⟩
              · rw [rank_perm (List.Perm.refl _), hsum, hqueue]
                exact Nat.add_le_add (Nat.sub_le _ _) hrest.rank

theorem Starts.tracks {entries : List (Sigma fun _ : Address => List Transaction)}
    {selection : Selection} (h : Starts snapshot baseFee entries selection)
    (hnodup : entries.NodupKeys)
    (hkeys : ∀ address, address ∉ entries.keys → snapshot.queue address = []) :
    Tracks snapshot baseFee selection .nothing := by
  obtain ⟨hresult, hgas, hblobs⟩ := h.empty
  refine ⟨hresult.symm, hgas.symm, hblobs.symm, h.cursors, ?_, List.Nodup.sublist h.senders hnodup⟩
  intro tip address
  rw [h.heads]
  constructor
  · rintro ⟨-, tx, hhead⟩
    exact ⟨tx, List.not_mem_nil, hhead⟩
  · rintro ⟨tx, -, hfirst, htip⟩
    refine ⟨?_, tx, hfirst, htip⟩
    by_contra hnot
    rw [hkeys address hnot] at hfirst
    cases hfirst

/-- The selection is greedy and within the limits as long as nothing overflows. -/
theorem peekBestTransactions_iff (snapshot : MempoolSnapshot) (targetGasLimit : UInt64)
    (baseFee : U256) (blobBaseFee : Option U256) (maxBlobsPerBlock : Option UInt32)
    (hfee : baseFee.toNat < 2 ^ 64) :
    (∃ result,
      snapshot.peekBestTransactions targetGasLimit baseFee blobBaseFee maxBlobsPerBlock =
        some result ∧
      snapshot.SelectsWell targetGasLimit (UInt64.ofNat baseFee.toNat)
        (maxBlobsPerBlock.getD 6) result) ↔
    ∀ selection, Relation.ReflTransGen
      (snapshot.Rounds targetGasLimit (UInt64.ofNat baseFee.toNat) (maxBlobsPerBlock.getD 6))
      (start (UInt64.ofNat baseFee.toNat) snapshot.pending.entries) selection →
        ¬ snapshot.Overflows targetGasLimit (maxBlobsPerBlock.getD 6) selection := by
  unfold peekBestTransactions
  rw [show toU64 baseFee = some (UInt64.ofNat baseFee.toNat) from if_pos hfee,
    Option.bind_eq_bind, Option.bind_some]
  generalize UInt64.ofNat baseFee.toNat = fee
  generalize maxBlobsPerBlock.getD 6 = maxBlobs
  have hqueues : ∀ entry ∈ snapshot.pending.entries, snapshot.queue entry.1 = entry.2 := by
    rintro ⟨address, txs⟩ hmem
    unfold queue
    rw [DashMap.mem_entries.mp hmem]
    rfl
  have hkeys : ∀ address, address ∉ snapshot.pending.entries.keys →
      snapshot.queue address = [] := by
    intro address hnot
    unfold queue
    rw [AList.lookup_eq_none.mpr hnot]
    rfl
  have hstarts : Starts snapshot fee snapshot.pending.entries
      (start fee snapshot.pending.entries) := starts_start hqueues
  have hrank : snapshot.rank .nothing (start fee snapshot.pending.entries).pq <
      (snapshot.pending.values.map List.length).sum + 1 := by
    unfold DashMap.values
    rw [List.map_map]
    exact Nat.lt_succ_of_le hstarts.rank
  have houtcome : Outcome snapshot targetGasLimit fee maxBlobs _ _ _ :=
    outcome_selectLoop (hstarts.tracks snapshot.pending.nodupKeys hkeys) within_nothing hrank
  cases houtcome with
  | greedy hrun hfinished hresult hnever =>
      exact ⟨fun _ => hnever, fun _ => ⟨_, hresult, selectsWell_of_greedy hrun hfinished⟩⟩
  | beyond hrounds hover hlimits =>
      refine iff_of_false ?_ fun hnever => hnever _ hrounds hover
      rintro ⟨result, hresult, hwell⟩
      rcases hlimits result hresult with hgas | hblobs
      · exact absurd hwell.gas (Nat.not_le_of_lt hgas)
      · exact absurd hwell.blobs (Nat.not_le_of_lt hblobs)

end

section

/-- The tip as transactions have it. -/
@[reducible] def paidTips : TipPerGas where
  effectiveTipPerGas tx baseFee :=
    if tx.maxFeePerGas < baseFee.toNat then none
    else
      match tx.maxPriorityFeePerGas with
      | some priority => some (min (tx.maxFeePerGas - baseFee.toNat) priority)
      | none => some (tx.maxFeePerGas - baseFee.toNat)

attribute [local instance] paidTips

def gasTx (nonce gasLimit : Nat) : Transaction :=
  { (default : Transaction) with kind := .legacy 7, nonce, gasLimit }

def gasSnapshot (gasLimits : List Nat) : MempoolSnapshot where
  pending := AList.singleton default
    (gasLimits.zipIdx.map fun gasLimit => gasTx gasLimit.2 gasLimit.1)
  blobs := ∅

theorem selectsWell_gasSnapshot : ∃ result,
    (gasSnapshot [21000]).peekBestTransactions 30000 5 none none = some result ∧
      (gasSnapshot [21000]).SelectsWell 30000 5 6 result := by
  refine (peekBestTransactions_iff (gasSnapshot [21000]) 30000 5 none none (by decide)).mpr ?_
  intro selection hrounds hover
  rcases hrounds.cases_head with rfl | ⟨second, ⟨-, tip, address, others, hpop, hround⟩, hrest⟩
  · obtain ⟨-, tip, address, others, queue, cursor, tx, hpop, hlook, -, hover⟩ := hover
    cases hpop
    cases hlook
    revert hover
    decide
  · cases hpop
    cases hround
    rcases hrest.cases_head with rfl | ⟨third, ⟨-, tip, address, others, hpop, -⟩, -⟩
    · obtain ⟨-, tip, address, others, queue, cursor, tx, hpop, -⟩ := hover
      cases hpop
    · cases hpop

/-- A gas limit that wraps the sum round is taken. -/
theorem not_selectsWell_gasSnapshot : ¬ ∃ result,
    (gasSnapshot [20000000, 2 ^ 64 - 10000000]).peekBestTransactions 30000000 5 none none =
      some result ∧
      (gasSnapshot [20000000, 2 ^ 64 - 10000000]).SelectsWell 30000000 5 6 result := by
  rintro ⟨result, hresult, hwell⟩
  have htaken : (gasSnapshot [20000000, 2 ^ 64 - 10000000]).peekBestTransactions 30000000 5
      none none = some [gasTx 0 20000000, gasTx 1 (2 ^ 64 - 10000000)] := by
    decide +kernel
  rw [htaken] at hresult
  cases hresult
  exact absurd hwell.gas (by decide)

end

end MempoolSnapshot

end WasixEth
