import WasixEth.BlockCodec
import WasixEth.Storage.Database

/-! # Queries for logs

A query goes through the canonical blocks of a range and the receipts of their
transactions. A log is reported with its position in its receipt, which is its
position in the block only where no earlier transaction has logs.
-/

namespace WasixEth.Storage

inductive BlockNumberOrTag where
  | latest
  | finalized
  | safe
  | earliest
  | pending
  | number (number : Nat)
  deriving DecidableEq

inductive FilterBlockOption where
  | range (fromBlock toBlock : Option BlockNumberOrTag)
  | atBlockHash (blockHash : B256)
  deriving DecidableEq

namespace FilterBlockOption

def getFromBlock : FilterBlockOption → Option BlockNumberOrTag
  | range fromBlock _ => fromBlock
  | atBlockHash _ => none

def getToBlock : FilterBlockOption → Option BlockNumberOrTag
  | range _ toBlock => toBlock
  | atBlockHash _ => none

end FilterBlockOption

/-- An empty set of addresses or topics lets everything pass. -/
structure Filter where
  blockOption : FilterBlockOption
  address : List Address
  topics : List (List B256)
  deriving DecidableEq

/-- A log as it is reported, without its timestamp, which never is. -/
structure RpcLog where
  inner : Log
  blockHash : B256
  blockNumber : Nat
  transactionHash : B256
  transactionIndex : Nat
  logIndex : Nat
  removed : Bool
  deriving DecidableEq

namespace Filter

variable (filter : Filter)

/-- `latest` is the last canonical height. -/
def fromBlock (latest : Nat) : Nat :=
  match filter.blockOption.getFromBlock with
  | some (.number n) => n
  | some .latest => latest
  | some .earliest => 0
  | _ => 0

def toBlock (latest : Nat) : Nat :=
  match filter.blockOption.getToBlock with
  | some (.number n) => n
  | some .latest => latest
  | _ => max latest (filter.fromBlock latest)

/-- The loop over the positions of the filter, from position `i` on. -/
def topicsMatch (topics : List B256) : Nat → List (List B256) → Bool
  | _, [] => true
  | i, filterTopic :: rest =>
      if filterTopic.isEmpty then topicsMatch topics (i + 1) rest
      else
        match topics[i]? with
        | none => false
        | some topic => topic ∈ filterTopic && topicsMatch topics (i + 1) rest

def accepts (log : Log) : Bool :=
  (filter.address.isEmpty || log.address ∈ filter.address) &&
    topicsMatch log.topics 0 filter.topics

variable [BlockHashing]

def logsOfReceipt (blockHash : B256) (number : Nat) (tx : Transaction) (txIndex : Nat)
    (receipt : Receipt) : List RpcLog :=
  receipt.logs.zipIdx.filterMap fun entry =>
    if filter.accepts entry.1 then
      some ⟨entry.1, blockHash, number, txHash tx, txIndex, entry.2, false⟩
    else none

end Filter

namespace ChainTables

variable (tables : ChainTables)

def receipt (blockHash : B256) (index : Nat) : Option Receipt :=
  tables.receipts.get (blockHash, index)

def blockBody (number : Nat) : Option BlockBody :=
  match tables.blockHash Faults.none number with
  | none => none
  | some hash => tables.blockBodyByHash Faults.none hash

section

variable [BlockHashing] (filter : Filter)

def logsOfTransaction (blockHash : B256) (number : Nat) (entry : Transaction × Nat) :
    List RpcLog :=
  match tables.receipt blockHash entry.2 with
  | none => []
  | some receipt => filter.logsOfReceipt blockHash number entry.1 entry.2 receipt

def logsOfBlock (number : Nat) : List RpcLog :=
  match tables.blockHash Faults.none number with
  | none => []
  | some blockHash =>
      match tables.blockBody number with
      | none => []
      | some body =>
          body.transactions.zipIdx.flatMap (tables.logsOfTransaction filter blockHash number)

/-- `logs`. Without a canonical block the last height counts as zero. -/
def logs (latestBlockNumber : Option Nat) : List RpcLog :=
  let latest := latestBlockNumber.getD 0
  let fromBlock := filter.fromBlock latest
  let toBlock := filter.toBlock latest
  (List.range' fromBlock (toBlock + 1 - fromBlock)).flatMap (tables.logsOfBlock filter)

end

/-! ## What is to be reported -/

/-- The logs of a transaction, if its receipt is stored. -/
def logsAt (blockHash : B256) (index : Nat) : List Log :=
  (tables.receipt blockHash index).elim [] Receipt.logs

/-- How many logs the transactions before this one have. -/
def logsBefore (blockHash : B256) (index : Nat) : Nat :=
  ((List.range index).map fun i => (tables.logsAt blockHash i).length).sum

end ChainTables

/-- The address is in the set and so are the topics, position by position. -/
structure Filter.Matches (filter : Filter) (log : Log) : Prop where
  address : filter.address = [] ∨ log.address ∈ filter.address
  topics : ∀ (i : Nat) (topics : List B256), filter.topics[i]? = some topics → topics ≠ [] →
    ∃ topic, log.topics[i]? = some topic ∧ topic ∈ topics

/-- A log of a canonical block and where it stands: the block, the transaction and
the position in its receipt. -/
structure LogAt (tables : ChainTables) (number : Nat) (blockHash : B256) (tx : Transaction)
    (index position : Nat) (log : Log) : Prop where
  canonical : tables.canonicalHeads.get number = some blockHash
  transaction : ∃ body, tables.blockBodies.get blockHash = some body ∧
    body.transactions[index]? = some tx
  log : (tables.logsAt blockHash index)[position]? = some log

/-- Every log of the range that the filter matches is reported once, in order, and
under its position among the logs of its block. -/
structure ReportsExactly [BlockHashing] (tables : ChainTables) (filter : Filter)
    (fromBlock toBlock : Nat) (result : List RpcLog) : Prop where
  mem_iff : ∀ entry, entry ∈ result ↔ ∃ number blockHash tx index position log,
    fromBlock ≤ number ∧ number ≤ toBlock ∧
    LogAt tables number blockHash tx index position log ∧ filter.Matches log ∧
    entry = ⟨log, blockHash, number, txHash tx, index,
      tables.logsBefore blockHash index + position, false⟩
  ordered : result.Pairwise fun a b =>
    a.blockNumber < b.blockNumber ∨ a.blockNumber = b.blockNumber ∧ a.logIndex < b.logIndex

/-- No log that the filter matches stands behind those of another transaction. -/
def MatchesFirstOnly (tables : ChainTables) (filter : Filter) (fromBlock toBlock : Nat) : Prop :=
  ∀ number blockHash tx index position log, fromBlock ≤ number → number ≤ toBlock →
    LogAt tables number blockHash tx index position log → filter.Matches log →
    ∀ earlier < index, tables.logsAt blockHash earlier = []

/-! ## The filter -/

namespace Filter

theorem topicsMatch_iff {topics : List B256} {i : Nat} {filterTopics : List (List B256)} :
    topicsMatch topics i filterTopics = true ↔
      ∀ (j : Nat) (set : List B256), filterTopics[j]? = some set → set ≠ [] →
        ∃ topic, topics[i + j]? = some topic ∧ topic ∈ set := by
  induction filterTopics generalizing i with
  | nil => simp [topicsMatch]
  | cons first rest ih =>
      have hcons : (∀ (j : Nat) (set : List B256), (first :: rest)[j]? = some set → set ≠ [] →
          ∃ topic, topics[i + j]? = some topic ∧ topic ∈ set) ↔
          (first ≠ [] → ∃ topic, topics[i]? = some topic ∧ topic ∈ first) ∧
            topicsMatch topics (i + 1) rest = true := by
        rw [ih]
        constructor
        · intro h
          refine ⟨h 0 first rfl, fun j set hset hne => ?_⟩
          obtain ⟨topic, htopic, hmem⟩ := h (j + 1) set hset hne
          exact ⟨topic, by rwa [Nat.add_assoc, Nat.add_comm 1 j], hmem⟩
        · rintro ⟨hfirst, hrest⟩ j set hset hne
          cases j with
          | zero =>
              cases hset
              exact hfirst hne
          | succ j =>
              obtain ⟨topic, htopic, hmem⟩ := hrest j set hset hne
              exact ⟨topic, by rwa [Nat.add_assoc, Nat.add_comm 1 j] at htopic, hmem⟩
      rw [hcons, topicsMatch]
      cases first with
      | nil => simp
      | cons topic others =>
          rw [if_neg (by simp)]
          cases topics[i]? with
          | none => simp
          | some found => simp

theorem accepts_iff {filter : Filter} {log : Log} :
    filter.accepts log = true ↔ filter.Matches log := by
  unfold accepts
  rw [Bool.and_eq_true, Bool.or_eq_true, List.isEmpty_iff, decide_eq_true_eq, topicsMatch_iff]
  constructor
  · rintro ⟨haddress, htopics⟩
    refine ⟨haddress, fun i topics hset hne => ?_⟩
    simpa using htopics i topics hset hne
  · rintro ⟨haddress, htopics⟩
    refine ⟨haddress, fun i topics hset hne => ?_⟩
    simpa using htopics i topics hset hne

end Filter

/-! ## What is reported -/

section

variable [BlockHashing] {tables : ChainTables} {filter : Filter}

theorem mem_logsOfTransaction {blockHash : B256} {number : Nat} {entry : Transaction × Nat}
    {report : RpcLog} :
    report ∈ tables.logsOfTransaction filter blockHash number entry ↔
      ∃ position log, (tables.logsAt blockHash entry.2)[position]? = some log ∧
        filter.Matches log ∧
        report = ⟨log, blockHash, number, txHash entry.1, entry.2, position, false⟩ := by
  unfold ChainTables.logsOfTransaction ChainTables.logsAt
  cases tables.receipt blockHash entry.2 with
  | none => simp
  | some receipt =>
      dsimp only [Option.elim_some]
      unfold Filter.logsOfReceipt
      rw [List.mem_filterMap]
      constructor
      · rintro ⟨⟨log, position⟩, hmem, hreport⟩
        rw [List.mem_zipIdx_iff_getElem?] at hmem
        rw [Option.ite_none_right_eq_some] at hreport
        exact ⟨position, log, hmem, Filter.accepts_iff.mp hreport.1,
          (Option.some.inj hreport.2).symm⟩
      · rintro ⟨position, log, hget, hmatches, rfl⟩
        refine ⟨(log, position), List.mem_zipIdx_iff_getElem?.mpr hget, ?_⟩
        rw [if_pos (Filter.accepts_iff.mpr hmatches)]

theorem mem_logsOfBlock {number : Nat} {report : RpcLog} :
    report ∈ tables.logsOfBlock filter number ↔ ∃ blockHash tx index position log,
      LogAt tables number blockHash tx index position log ∧ filter.Matches log ∧
      report = ⟨log, blockHash, number, txHash tx, index, position, false⟩ := by
  have hhash : tables.blockHash Faults.none number = tables.canonicalHeads.get number := rfl
  unfold ChainTables.logsOfBlock ChainTables.blockBody
  rw [hhash]
  constructor
  · intro hmem
    cases hcanonical : tables.canonicalHeads.get number with
    | none =>
        rw [hcanonical] at hmem
        cases hmem
    | some blockHash =>
        rw [hcanonical] at hmem
        dsimp only at hmem
        cases hbody : tables.blockBodyByHash Faults.none blockHash with
        | none =>
            rw [hbody] at hmem
            cases hmem
        | some body =>
            rw [hbody] at hmem
            obtain ⟨⟨tx, index⟩, hentry, hreport⟩ := List.mem_flatMap.mp hmem
            obtain ⟨position, log, hlog, hmatches, rfl⟩ := mem_logsOfTransaction.mp hreport
            exact ⟨blockHash, tx, index, position, log, ⟨hcanonical, ⟨body, hbody,
              List.mem_zipIdx_iff_getElem?.mp hentry⟩, hlog⟩, hmatches, rfl⟩
  · rintro ⟨blockHash, tx, index, position, log, ⟨hcanonical, ⟨body, hbody, htx⟩, hlog⟩,
      hmatches, rfl⟩
    have hread : tables.blockBodyByHash Faults.none blockHash = some body := hbody
    rw [hcanonical]
    dsimp only
    rw [hread]
    exact List.mem_flatMap.mpr ⟨(tx, index), List.mem_zipIdx_iff_getElem?.mpr htx,
      mem_logsOfTransaction.mpr ⟨position, log, hlog, hmatches, rfl⟩⟩

theorem mem_logs {fromBlock toBlock : Nat} {latest : Option Nat}
    (hrange : filter.blockOption = .range (some (.number fromBlock)) (some (.number toBlock)))
    {report : RpcLog} :
    report ∈ tables.logs filter latest ↔ ∃ number blockHash tx index position log,
      fromBlock ≤ number ∧ number ≤ toBlock ∧
      LogAt tables number blockHash tx index position log ∧ filter.Matches log ∧
      report = ⟨log, blockHash, number, txHash tx, index, position, false⟩ := by
  unfold ChainTables.logs Filter.fromBlock Filter.toBlock
  rw [hrange]
  dsimp only [FilterBlockOption.getFromBlock, FilterBlockOption.getToBlock]
  rw [List.mem_flatMap]
  constructor
  · rintro ⟨number, hnumber, hreport⟩
    rw [List.mem_range'_1] at hnumber
    obtain ⟨blockHash, tx, index, position, log, hat, hmatches, rfl⟩ := mem_logsOfBlock.mp hreport
    exact ⟨number, blockHash, tx, index, position, log, hnumber.1, by omega, hat, hmatches, rfl⟩
  · rintro ⟨number, blockHash, tx, index, position, log, hfrom, hto, hat, hmatches, rfl⟩
    exact ⟨number, List.mem_range'_1.mpr ⟨hfrom, by omega⟩,
      mem_logsOfBlock.mpr ⟨blockHash, tx, index, position, log, hat, hmatches, rfl⟩⟩

/-! ## Positions -/

omit [BlockHashing] in
theorem logsBefore_eq_zero {blockHash : B256} {index : Nat} :
    tables.logsBefore blockHash index = 0 ↔
      ∀ earlier < index, tables.logsAt blockHash earlier = [] := by
  unfold ChainTables.logsBefore
  rw [List.sum_eq_zero_iff_forall_eq_nat]
  simp

omit [BlockHashing] in
theorem pairwise_zipIdx {A : Type} (items : List A) :
    items.zipIdx.Pairwise fun a b => a.2 < b.2 := by
  rw [← List.pairwise_map, List.zipIdx_map_snd]
  exact List.pairwise_lt_range'

theorem pairwise_logsOfTransaction (blockHash : B256) (number : Nat) (entry : Transaction × Nat) :
    (tables.logsOfTransaction filter blockHash number entry).Pairwise fun a b =>
      a.blockNumber < b.blockNumber ∨ a.blockNumber = b.blockNumber ∧ a.logIndex < b.logIndex := by
  unfold ChainTables.logsOfTransaction
  cases tables.receipt blockHash entry.2 with
  | none => exact List.Pairwise.nil
  | some receipt =>
      refine List.pairwise_filterMap.mpr ((pairwise_zipIdx receipt.logs).imp ?_)
      intro a b hlt first hfirst second hsecond
      rw [Option.ite_none_right_eq_some] at hfirst hsecond
      obtain rfl := Option.some.inj hfirst.2
      obtain rfl := Option.some.inj hsecond.2
      exact .inr ⟨rfl, hlt⟩

/-- Where only first transactions match, each block reports the logs of one
transaction. -/
theorem pairwise_logsOfBlock {fromBlock toBlock number : Nat}
    (hfirst : MatchesFirstOnly tables filter fromBlock toBlock) (hfrom : fromBlock ≤ number)
    (hto : number ≤ toBlock) :
    (tables.logsOfBlock filter number).Pairwise fun a b =>
      a.blockNumber < b.blockNumber ∨ a.blockNumber = b.blockNumber ∧ a.logIndex < b.logIndex := by
  unfold ChainTables.logsOfBlock ChainTables.blockBody
  cases hcanonical : tables.blockHash Faults.none number with
  | none => exact List.Pairwise.nil
  | some blockHash =>
      dsimp only
      cases hbody : tables.blockBodyByHash Faults.none blockHash with
      | none => exact List.Pairwise.nil
      | some body =>
          refine List.pairwise_flatMap.mpr ⟨fun entry _ => pairwise_logsOfTransaction _ _ _, ?_⟩
          refine (pairwise_zipIdx body.transactions).imp_of_mem ?_
          intro a b ha hb hlt first hmem second hmem'
          obtain ⟨position, log, hlog, -⟩ := mem_logsOfTransaction.mp hmem
          obtain ⟨position', log', hlog', hmatches', -⟩ := mem_logsOfTransaction.mp hmem'
          have hat : LogAt tables number blockHash b.1 b.2 position' log' :=
            ⟨hcanonical, ⟨body, hbody, List.mem_zipIdx_iff_getElem?.mp hb⟩, hlog'⟩
          have hempty := hfirst _ _ _ _ _ _ hfrom hto hat hmatches' a.2 hlt
          rw [hempty] at hlog
          cases hlog

/-- Behind the logs of another transaction a report would have to stand for a log
further to the front, and that one for the next. By induction on the position. -/
theorem not_matches_of_mem {fromBlock toBlock : Nat} {latest : Option Nat}
    (hrange : filter.blockOption = .range (some (.number fromBlock)) (some (.number toBlock)))
    (hexact : ReportsExactly tables filter fromBlock toBlock (tables.logs filter latest))
    {number : Nat} {blockHash : B256} {index : Nat} (hfrom : fromBlock ≤ number)
    (hto : number ≤ toBlock) (hbefore : tables.logsBefore blockHash index ≠ 0) (position : Nat) :
    ∀ tx log, LogAt tables number blockHash tx index position log → ¬ filter.Matches log := by
  induction position using Nat.strong_induction_on with
  | _ position ih =>
      intro tx log hat hmatches
      have hreported : _ ∈ tables.logs filter latest := (mem_logs hrange).mpr
        ⟨number, blockHash, tx, index, position, log, hfrom, hto, hat, hmatches, rfl⟩
      obtain ⟨number', blockHash', tx', index', position', log', -, -, hat', hmatches', heq⟩ :=
        (hexact.mem_iff _).mp hreported
      simp only [RpcLog.mk.injEq] at heq
      obtain ⟨rfl, rfl, rfl, -, rfl, hposition, -⟩ := heq
      exact ih position' (by omega) tx' log hat' hmatches'

end

/-- The answer is exact where no log that matches stands behind those of another
transaction of its block. -/
theorem logs_reportsExactly_iff [BlockHashing] (tables : ChainTables) (filter : Filter)
    (fromBlock toBlock : Nat) (latest : Option Nat)
    (hrange : filter.blockOption = .range (some (.number fromBlock)) (some (.number toBlock))) :
    ReportsExactly tables filter fromBlock toBlock (tables.logs filter latest) ↔
      MatchesFirstOnly tables filter fromBlock toBlock := by
  constructor
  · intro hexact number blockHash tx index position log hfrom hto hat hmatches
    rw [← logsBefore_eq_zero]
    by_contra hbefore
    exact not_matches_of_mem hrange hexact hfrom hto hbefore position tx log hat hmatches
  · intro hfirst
    constructor
    · intro report
      rw [mem_logs hrange]
      constructor
      · rintro ⟨number, blockHash, tx, index, position, log, hfrom, hto, hat, hmatches, rfl⟩
        have hzero := logsBefore_eq_zero.mpr (hfirst _ _ _ _ _ _ hfrom hto hat hmatches)
        refine ⟨number, blockHash, tx, index, position, log, hfrom, hto, hat, hmatches, ?_⟩
        rw [hzero, Nat.zero_add]
      · rintro ⟨number, blockHash, tx, index, position, log, hfrom, hto, hat, hmatches, rfl⟩
        have hzero := logsBefore_eq_zero.mpr (hfirst _ _ _ _ _ _ hfrom hto hat hmatches)
        refine ⟨number, blockHash, tx, index, position, log, hfrom, hto, hat, hmatches, ?_⟩
        rw [hzero, Nat.zero_add]
    · unfold ChainTables.logs Filter.fromBlock Filter.toBlock
      rw [hrange]
      dsimp only [FilterBlockOption.getFromBlock, FilterBlockOption.getToBlock]
      refine List.pairwise_flatMap.mpr ⟨fun number hnumber => ?_, ?_⟩
      · rw [List.mem_range'_1] at hnumber
        exact pairwise_logsOfBlock hfirst hnumber.1 (by omega)
      · have hrising : (List.range' fromBlock (toBlock + 1 - fromBlock)).Pairwise (· < ·) :=
          List.pairwise_lt_range'
        refine hrising.imp ?_
        intro a b hlt first hmem second hmem'
        obtain ⟨_, _, _, _, _, -, -, rfl⟩ := mem_logsOfBlock.mp hmem
        obtain ⟨_, _, _, _, _, -, -, rfl⟩ := mem_logsOfBlock.mp hmem'
        exact .inl hlt

section Sample

attribute [local instance] keccak keccakHashing

def sampleLog (topic : Nat) : Log := ⟨default, [.ofNat topic], []⟩

/-- A canonical block with two transactions that have these numbers of logs. -/
def loggingTables (first second : Nat) : ChainTables :=
  let receiptWith (count : Nat) : Receipt :=
    { (default : Receipt) with logs := (List.range count).map sampleLog }
  { emptyDatabase.chain with
    canonicalHeads := (∅ : Table Nat B256).insert 1 (.ofNat 16)
    blockBodies := (∅ : Table B256 BlockBody).insert (.ofNat 16) ⟨[default, default], [], none⟩
    receipts := ((∅ : Table (B256 × Nat) Receipt).insert (.ofNat 16, 0)
      (receiptWith first)).insert (.ofNat 16, 1) (receiptWith second) }

def everyLog : Filter := ⟨.range (some (.number 0)) (some (.number 2)), [], [[], [], [], []]⟩

theorem reportsExactly_loggingTables : ReportsExactly (loggingTables 2 0) everyLog 0 2
    ((loggingTables 2 0).logs everyLog none) := by
  refine (logs_reportsExactly_iff (loggingTables 2 0) everyLog 0 2 none rfl).mpr ?_
  intro number blockHash tx index position log _ _ hat _ earlier hlt
  obtain ⟨hcanonical, ⟨body, hbody, htx⟩, hlog⟩ := hat
  obtain rfl : B256.ofNat 16 = blockHash := by
    unfold loggingTables at hcanonical
    rw [Table.get_insert] at hcanonical
    split at hcanonical
    · exact Option.some.inj hcanonical
    · cases hcanonical
  obtain rfl : ⟨[default, default], [], none⟩ = body := Option.some.inj hbody
  match index with
  | 0 => exact absurd hlt (Nat.not_lt_zero _)
  | 1 =>
      have hempty : (loggingTables 2 0).logsAt (.ofNat 16) 1 = [] := by decide +kernel
      rw [hempty] at hlog
      cases hlog
  | _ + 2 => cases htx

/-- Both logs of the block are reported under index zero. -/
theorem not_reportsExactly_loggingTables : ¬ ReportsExactly (loggingTables 1 1) everyLog 0 2
    ((loggingTables 1 1).logs everyLog none) := by
  intro hexact
  have hordered := hexact.ordered
  have hlogs : ((loggingTables 1 1).logs everyLog none).map (fun report =>
      (report.blockNumber, report.logIndex)) = [(1, 0), (1, 0)] := by
    decide +kernel
  have hpairs : (((loggingTables 1 1).logs everyLog none).map fun report =>
      (report.blockNumber, report.logIndex)).Pairwise fun a b =>
        a.1 < b.1 ∨ a.1 = b.1 ∧ a.2 < b.2 :=
    List.pairwise_map.mpr hordered
  rw [hlogs] at hpairs
  exact absurd hpairs (by decide)

end Sample

end WasixEth.Storage
