import Mathlib.Data.Set.Function
import WasixEth.Lib.BigEndian
import WasixEth.P2p.DiscoveryService

/-! # The table of nodes

Nodes are kept in buckets by their distance from the local node, the exclusive or of the
hashes of two ids. A bucket has its nodes in the order in which they were last seen. No node
is ever pushed out of a full bucket: the caller is told which one was not seen for the
longest time.
-/

namespace WasixEth.Discovery.RoutingTable

open Rlp

/-! ## Calls -/

inductive Call where
  | addNode (now : Nat) (id : NodeId) (endpoint : NodeEndpoint)
  | removeNode (id : NodeId)

/-- The record is as the last call that added its node has made it, which is the one at this
position. -/
def LastAdd (calls : List Call) (position : Nat) (record : NodeRecord) : Prop :=
  calls[position]? = some (.addNode record.lastSeen record.id record.endpoint) ∧
    ∀ later now endpoint, position < later →
      calls[later]? ≠ some (.addNode now record.id endpoint)

section Positions

variable {calls : List Call} {position : Nat} {record : NodeRecord} {now : Nat} {id : NodeId}
  {endpoint : NodeEndpoint}

theorem LastAdd.lt (h : LastAdd calls position record) : position < calls.length :=
  (List.getElem?_eq_some_iff.mp h.1).1

theorem getElem?_snoc_eq_some {α : Type} {calls : List α} {call other : α} :
    (calls ++ [call])[position]? = some other ↔
      calls[position]? = some other ∨ position = calls.length ∧ call = other := by
  rw [List.getElem?_append]
  split
  next hlt =>
    refine ⟨.inl, fun h => h.elim id fun heq => ?_⟩
    omega
  next hle =>
    have hnone : calls[position]? = none := List.getElem?_eq_none (Nat.not_lt.mp hle)
    rw [hnone, List.getElem?_singleton]
    split
    next hzero =>
      have heq : position = calls.length := by omega
      simp [heq]
    next hne =>
      have hne : position ≠ calls.length := by omega
      simp [hne]

/-- A call that does not add the node leaves its last call. -/
theorem lastAdd_snoc {call : Call} (h : ∀ now endpoint, call ≠ .addNode now record.id endpoint) :
    LastAdd (calls ++ [call]) position record ↔ LastAdd calls position record := by
  unfold LastAdd
  simp only [ne_eq, getElem?_snoc_eq_some, h, and_false, or_false]

theorem addNode_ne (h : record.id ≠ id) (now' : Nat) (endpoint' : NodeEndpoint) :
    Call.addNode now id endpoint ≠ .addNode now' record.id endpoint' := by
  intro hcall
  injection hcall with _ hid _
  exact h hid.symm

theorem lastAdd_snoc_self :
    LastAdd (calls ++ [.addNode now id endpoint]) calls.length ⟨id, endpoint, now⟩ := by
  refine ⟨getElem?_snoc_eq_some.mpr (.inr ⟨rfl, rfl⟩), fun later _ _ hlt hlater => ?_⟩
  have hbound := (List.getElem?_eq_some_iff.mp hlater).1
  rw [List.length_append, List.length_singleton] at hbound
  omega

theorem LastAdd.unique {other : NodeRecord} {position' : Nat} (h : LastAdd calls position record)
    (hother : LastAdd calls position' other) (hid : record.id = other.id) :
    position = position' := by
  rcases Nat.lt_trichotomy position position' with hlt | heq | hgt
  · exact absurd hother.1 (hid ▸ h.2 position' _ _ hlt)
  · exact heq
  · exact absurd h.1 (hid ▸ hother.2 position _ _ hgt)

end Positions

section Hashing

variable [Keccak256]

/-! ## Distances -/

/-- The hash of an id as a number. -/
def hashNumber (id : NodeId) : Nat := fromBytes (keccak256 id.bytes).bytes

def xorDistance (id id' : NodeId) : Nat := hashNumber id ^^^ hashNumber id'

theorem fromBytes_distance (id id' : NodeId) :
    fromBytes (distance id id') = xorDistance id id' := by
  rw [distance, fromBytes_xor (by rw [B256.length_eq, B256.length_eq]), xorDistance, hashNumber,
    hashNumber]

theorem length_distance (id id' : NodeId) : (distance id id').length = 32 := by
  rw [distance, List.length_zipWith, B256.length_eq, B256.length_eq, Nat.min_self]

theorem distance_le_iff (target id id' : NodeId) :
    distance target id ≤ distance target id' ↔ xorDistance target id ≤ xorDistance target id' := by
  rw [← fromBytes_distance, ← fromBytes_distance,
    fromBytes_le_iff (by rw [length_distance, length_distance])]

theorem keccak256_of_xorDistance {target id id' : NodeId}
    (h : xorDistance target id = xorDistance target id') :
    keccak256 id.bytes = keccak256 id'.bytes := by
  have hnumber : hashNumber id = hashNumber id' := Nat.xor_right_inj.mp h
  exact B256.ext ((fromBytes_inj (by rw [B256.length_eq, B256.length_eq])).mp hnumber)

theorem xorDistance_lt (id id' : NodeId) : xorDistance id id' < 2 ^ 256 := by
  have hlt := fromBytes_lt (distance id id')
  rw [length_distance] at hlt
  rwa [fromBytes_distance] at hlt

/-- The index of the bucket for an id is the place of the highest bit of its distance. -/
theorem distanceLog2_eq (table : RoutingTable) (id : NodeId) :
    table.distanceLog2 id =
      if xorDistance table.localId id = 0 then none
      else some (xorDistance table.localId id).log2 := by
  unfold distanceLog2
  rw [← fromBytes_distance]
  cases hfind : (distance table.localId id).zipIdx.find? (·.1 ≠ 0) with
  | none =>
      rw [fromBytes_eq_zero hfind]
      rfl
  | some found =>
      obtain ⟨byte, i⟩ := found
      obtain ⟨hne, hlog⟩ := log2_fromBytes hfind
      rw [length_distance] at hlog
      rw [if_neg hne, Option.map_some]
      congr 1
      dsimp only
      omega

theorem distanceLog2_eq_some {table : RoutingTable} {id : NodeId} {index : Nat} :
    table.distanceLog2 id = some index ↔
      xorDistance table.localId id ≠ 0 ∧ (xorDistance table.localId id).log2 = index := by
  rw [distanceLog2_eq]
  split
  next hzero => simp [hzero]
  next hne => simp [hne]

theorem index_lt {table : RoutingTable} {id : NodeId} {index : Nat}
    (h : table.distanceLog2 id = some index) : index < 256 := by
  obtain ⟨hne, rfl⟩ := distanceLog2_eq_some.mp h
  exact (Nat.log2_lt hne).mpr (xorDistance_lt _ _)

/-! ## One bucket -/

def step (table : RoutingTable) : Call → RoutingTable
  | .addNode now id endpoint => (table.addNode now id endpoint).1
  | .removeNode id => table.removeNode id

def run (localId : NodeId) (calls : List Call) : RoutingTable := calls.foldl step (new localId)

/-- A bucket as it is after these calls. -/
structure Bucket (calls : List Call) (localId : NodeId) (index : Nat)
    (bucket : List NodeRecord) : Prop where
  capacity : bucket.length ≤ maxBucketSize
  notLocal : ∀ record ∈ bucket, record.id ≠ localId
  placed : ∀ record ∈ bucket, xorDistance localId record.id ≠ 0 ∧
    (xorDistance localId record.id).log2 = index
  added : ∀ record ∈ bucket, ∃ position, LastAdd calls position record
  ordered : bucket.Pairwise fun a b => ∀ p q, LastAdd calls p a → LastAdd calls q b → p < q

section Buckets

variable {calls : List Call} {localId : NodeId} {index : Nat} {bucket kept : List NodeRecord}
  {now : Nat} {id : NodeId} {endpoint : NodeEndpoint}

theorem Bucket.sublist (h : Bucket calls localId index bucket) (hkept : kept.Sublist bucket) :
    Bucket calls localId index kept where
  capacity := hkept.length_le.trans h.capacity
  notLocal record hmem := h.notLocal record (hkept.subset hmem)
  placed record hmem := h.placed record (hkept.subset hmem)
  added record hmem := h.added record (hkept.subset hmem)
  ordered := h.ordered.sublist hkept

/-- A call that adds none of its nodes leaves a bucket as it is. -/
theorem Bucket.snoc {call : Call} (h : Bucket calls localId index bucket)
    (hcall : ∀ record ∈ bucket, ∀ now endpoint, call ≠ .addNode now record.id endpoint) :
    Bucket (calls ++ [call]) localId index bucket where
  capacity := h.capacity
  notLocal := h.notLocal
  placed := h.placed
  added record hmem := by
    obtain ⟨position, hadd⟩ := h.added record hmem
    exact ⟨position, (lastAdd_snoc (hcall record hmem)).mpr hadd⟩
  ordered := by
    refine h.ordered.imp_of_mem fun {a b} ha hb hab p q hp hq => ?_
    exact hab p q ((lastAdd_snoc (hcall a ha)).mp hp) ((lastAdd_snoc (hcall b hb)).mp hq)

/-- The node of the last call comes at the end. -/
theorem Bucket.push (h : Bucket calls localId index bucket)
    (hlength : bucket.length < maxBucketSize) (hid : ∀ record ∈ bucket, record.id ≠ id) (hlocal : id ≠ localId)
    (hplaced : xorDistance localId id ≠ 0 ∧ (xorDistance localId id).log2 = index) :
    Bucket (calls ++ [.addNode now id endpoint]) localId index
      (bucket ++ [⟨id, endpoint, now⟩]) := by
  have hsnoc : Bucket (calls ++ [.addNode now id endpoint]) localId index bucket :=
    h.snoc fun record hmem => addNode_ne (hid record hmem)
  refine ⟨?_, ?_, ?_, ?_, ?_⟩
  · rw [List.length_append, List.length_singleton]
    exact hlength
  · exact List.forall_mem_append.mpr ⟨hsnoc.notLocal, List.forall_mem_singleton.mpr hlocal⟩
  · exact List.forall_mem_append.mpr ⟨hsnoc.placed, List.forall_mem_singleton.mpr hplaced⟩
  · exact List.forall_mem_append.mpr
      ⟨hsnoc.added, List.forall_mem_singleton.mpr ⟨_, lastAdd_snoc_self⟩⟩
  · refine List.pairwise_append.mpr ⟨hsnoc.ordered, List.pairwise_singleton _ _, ?_⟩
    intro a ha b hb p q hp hq
    rw [List.mem_singleton.mp hb] at hq
    rw [hq.unique lastAdd_snoc_self rfl]
    exact ((lastAdd_snoc (addNode_ne (hid a ha))).mp hp).lt

/-- A node that is seen again moves to the end. -/
def seen (bucket : List NodeRecord) (now : Nat) (id : NodeId) (endpoint : NodeEndpoint) :
    List NodeRecord :=
  bucket.filter (·.id ≠ id) ++ [⟨id, endpoint, now⟩]

theorem Bucket.seen (h : Bucket calls localId index bucket)
    (hroom : (∃ record ∈ bucket, record.id = id) ∨ bucket.length < maxBucketSize)
    (hlocal : id ≠ localId)
    (hplaced : xorDistance localId id ≠ 0 ∧ (xorDistance localId id).log2 = index) :
    Bucket (calls ++ [.addNode now id endpoint]) localId index (seen bucket now id endpoint) := by
  refine (h.sublist List.filter_sublist).push ?_ ?_ hlocal hplaced
  · obtain ⟨record, hmem, hid⟩ | hshort := hroom
    · refine Nat.lt_of_lt_of_le ?_ h.capacity
      exact List.length_filter_lt_length_iff_exists.mpr ⟨record, hmem, by simp [hid]⟩
    · exact Nat.lt_of_le_of_lt (List.length_filter_le _ _) hshort
  · intro record hmem
    exact of_decide_eq_true (List.mem_filter.mp hmem).2

end Buckets

/-! ## The whole table -/

/-- The table is as these calls leave it. -/
structure Reached (localId : NodeId) (calls : List Call) (table : RoutingTable) : Prop where
  localId_eq : table.localId = localId
  size : table.buckets.length = 256
  bucket : ∀ index bucket, table.buckets[index]? = some bucket →
    Bucket calls localId index bucket

section Tables

variable {localId : NodeId} {calls : List Call} {table table' : RoutingTable} {now : Nat}
  {id : NodeId} {endpoint : NodeEndpoint} {evicted : Option NodeRecord}

/-- What a call of `add_node` can do: the node is ignored, stored, or turned away. -/
theorem addNode_cases (hsize : table.buckets.length = 256)
    (h : table.addNode now id endpoint = (table', evicted)) :
    ((id = table.localId ∨ xorDistance table.localId id = 0) ∧ table' = table ∧ evicted = none) ∨
    ∃ index bucket, table.buckets[index]? = some bucket ∧ id ≠ table.localId ∧
      (xorDistance table.localId id ≠ 0 ∧ (xorDistance table.localId id).log2 = index) ∧
      ((((∃ record ∈ bucket, record.id = id) ∨ bucket.length < maxBucketSize) ∧ evicted = none ∧
          table' =
            { table with buckets := table.buckets.set index (seen bucket now id endpoint) }) ∨
        (∀ record ∈ bucket, record.id ≠ id) ∧ maxBucketSize ≤ bucket.length ∧
          table' = table ∧ evicted = bucket.head?) := by
  unfold addNode at h
  split at h
  next hlocal =>
    cases h
    exact .inl ⟨.inl hlocal, rfl, rfl⟩
  next hlocal =>
    split at h
    next hnone =>
      cases h
      refine .inl ⟨.inr ?_, rfl, rfl⟩
      rw [distanceLog2_eq] at hnone
      by_contra hne
      rw [if_neg hne] at hnone
      cases hnone
    next index hindex =>
      have hlt := index_lt hindex
      rw [← hsize] at hlt
      have hbucket := List.getElem?_eq_getElem hlt
      have hgetD : table.buckets.getD index [] = table.buckets[index] := by
        rw [List.getD_eq_getElem?_getD, hbucket, Option.getD_some]
      rw [hgetD] at h
      refine .inr ⟨index, _, hbucket, hlocal, distanceLog2_eq_some.mp hindex, ?_⟩
      dsimp only at h
      split at h
      next hroom =>
        cases h
        refine .inl ⟨?_, rfl, rfl⟩
        exact hroom.imp_left fun hany => by simpa using hany
      next hfull =>
        cases h
        obtain ⟨hnone, hlong⟩ := not_or.mp hfull
        refine .inr ⟨fun record hmem hid => hnone ?_, Nat.not_lt.mp hlong, rfl, rfl⟩
        exact List.any_eq_true.mpr ⟨record, hmem, decide_eq_true hid⟩

theorem reached_new (localId : NodeId) : Reached localId [] (new localId) where
  localId_eq := rfl
  size := List.length_replicate
  bucket index bucket hbucket := by
    have hmem := List.mem_of_getElem? hbucket
    obtain rfl := List.eq_of_mem_replicate hmem
    exact ⟨Nat.zero_le _, List.forall_mem_nil _, List.forall_mem_nil _, List.forall_mem_nil _,
      List.Pairwise.nil⟩

/-- A call that leaves the table adds none of its nodes. -/
theorem Reached.snoc {call : Call} (h : Reached localId calls table)
    (hcall : ∀ (index : Nat) (bucket : List NodeRecord), table.buckets[index]? = some bucket →
      ∀ record ∈ bucket, ∀ now endpoint, call ≠ .addNode now record.id endpoint) :
    Reached localId (calls ++ [call]) table where
  localId_eq := h.localId_eq
  size := h.size
  bucket index bucket hbucket := (h.bucket index bucket hbucket).snoc (hcall index bucket hbucket)

theorem Reached.addNode (h : Reached localId calls table) (now : Nat) (id : NodeId)
    (endpoint : NodeEndpoint) :
    Reached localId (calls ++ [.addNode now id endpoint]) (table.addNode now id endpoint).1 := by
  rcases hadd : table.addNode now id endpoint with ⟨table', evicted⟩
  change Reached localId _ table'
  obtain ⟨hignored, rfl, -⟩ | ⟨index, bucket, hbucket, hlocal, hplaced, hstored | hfull⟩ :=
    addNode_cases h.size hadd
  · refine h.snoc fun index bucket hbucket record hmem => addNode_ne ?_
    rintro rfl
    have hsound := h.bucket index bucket hbucket
    rw [h.localId_eq] at hignored
    exact hignored.elim (hsound.notLocal record hmem) (hsound.placed record hmem).1
  · -- The bucket of the node has it at the end, and the others have other nodes.
    obtain ⟨hroom, -, rfl⟩ := hstored
    rw [h.localId_eq] at hlocal hplaced
    refine ⟨h.localId_eq, by rw [List.length_set, h.size], fun other kept hkept => ?_⟩
    rw [List.getElem?_set] at hkept
    split at hkept
    next heq =>
      subst heq
      split at hkept
      · cases hkept
        exact (h.bucket index bucket hbucket).seen hroom hlocal hplaced
      · cases hkept
    next hne =>
      have hsound := h.bucket other kept hkept
      refine hsound.snoc fun record hmem => addNode_ne ?_
      rintro rfl
      exact hne (hplaced.2.symm.trans (hsound.placed record hmem).2)
  · -- A node that is turned away is in no bucket: in its own none has its id.
    obtain ⟨hother, -, rfl, -⟩ := hfull
    refine h.snoc fun other kept hkept record hmem => addNode_ne ?_
    rintro rfl
    rw [h.localId_eq] at hplaced
    obtain rfl := hplaced.2.symm.trans ((h.bucket other kept hkept).placed record hmem).2
    rw [hbucket] at hkept
    cases hkept
    exact hother record hmem rfl

theorem Reached.removeNode (h : Reached localId calls table) (id : NodeId) :
    Reached localId (calls ++ [.removeNode id]) (table.removeNode id) := by
  unfold RoutingTable.removeNode
  split
  · exact h.snoc fun _ _ _ _ _ _ _ => nofun
  next index =>
    refine ⟨h.localId_eq, by rw [List.length_modify, h.size], fun other kept hkept => ?_⟩
    rw [List.getElem?_modify] at hkept
    obtain ⟨bucket, hbucket, rfl⟩ := Option.map_eq_some_iff.mp hkept
    have hsound : Bucket (calls ++ [.removeNode id]) localId other bucket :=
      (h.bucket other bucket hbucket).snoc fun _ _ _ _ => nofun
    split
    · exact hsound.sublist List.filter_sublist
    · exact hsound

theorem reached_run (localId : NodeId) (calls : List Call) :
    Reached localId calls (run localId calls) := by
  induction calls using List.reverseRecOn with
  | nil => exact reached_new localId
  | append_singleton calls call ih =>
      rw [run, List.foldl_append]
      cases call with
      | addNode now id endpoint => exact ih.addNode now id endpoint
      | removeNode id => exact ih.removeNode id

/-! ## What a table is for -/

/-- Nodes in buckets by their distance from a local node, the last seen at the end. -/
structure Kademlia (localId : NodeId) (calls : List Call) (table : RoutingTable) : Prop where
  capacity : ∀ bucket ∈ table.buckets, bucket.length ≤ 16
  placed : ∀ (index : Nat) (bucket : List NodeRecord), table.buckets[index]? = some bucket →
    ∀ record ∈ bucket, xorDistance localId record.id ≠ 0 ∧
      (xorDistance localId record.id).log2 = index
  nodup : (table.buckets.flatten.map NodeRecord.id).Nodup
  notLocal : ∀ record ∈ table.buckets.flatten, record.id ≠ localId
  added : ∀ record ∈ table.buckets.flatten, ∃ position, LastAdd calls position record
  ordered : ∀ bucket ∈ table.buckets, bucket.Pairwise fun a b =>
    ∀ p q, LastAdd calls p a → LastAdd calls q b → p < q

/-- The bucket for an id is full of other nodes, and this is the one of them that was not seen
for the longest time. -/
def TurnedAway (localId : NodeId) (calls : List Call) (table : RoutingTable) (id : NodeId)
    (record : NodeRecord) : Prop :=
  ∃ (index : Nat) (bucket : List NodeRecord), table.buckets[index]? = some bucket ∧
    (xorDistance localId id).log2 = index ∧ bucket.length = 16 ∧
    (∀ other ∈ bucket, other.id ≠ id) ∧ record ∈ bucket ∧
    ∀ other ∈ bucket, ∀ p q, LastAdd calls p record → LastAdd calls q other → p ≤ q

/-- The nodes of the table that are nearest to a target, from the nearest on. -/
structure Nearest (table : RoutingTable) (target : NodeId) (count : Nat)
    (nodes : List NodeRecord) : Prop where
  length : nodes.length = min count table.buckets.flatten.length
  increasing : nodes.Pairwise fun a b => xorDistance target a.id < xorDistance target b.id
  nearest : ∃ others, (nodes ++ others).Perm table.buckets.flatten ∧
    ∀ near ∈ nodes, ∀ far ∈ others, xorDistance target near.id < xorDistance target far.id

theorem Bucket.nodup {index : Nat} {bucket : List NodeRecord}
    (h : Bucket calls localId index bucket) : (bucket.map NodeRecord.id).Nodup := by
  refine List.pairwise_map.mpr (h.ordered.imp_of_mem fun {a b} ha hb hab heq => ?_)
  obtain ⟨p, hp⟩ := h.added a ha
  obtain ⟨q, hq⟩ := h.added b hb
  have hlt := hab p q hp hq
  rw [hp.unique hq heq] at hlt
  exact Nat.lt_irrefl _ hlt

theorem Reached.bucket_of_mem (h : Reached localId calls table) {record : NodeRecord}
    (hmem : record ∈ table.buckets.flatten) :
    ∃ index bucket, Bucket calls localId index bucket ∧ record ∈ bucket := by
  obtain ⟨bucket, hbucket, hrecord⟩ := List.mem_flatten.mp hmem
  obtain ⟨index, hindex⟩ := List.mem_iff_getElem?.mp hbucket
  exact ⟨index, bucket, h.bucket index bucket hindex, hrecord⟩

theorem Reached.nodup (h : Reached localId calls table) :
    (table.buckets.flatten.map NodeRecord.id).Nodup := by
  rw [List.map_flatten, List.nodup_flatten]
  constructor
  · intro ids hids
    obtain ⟨bucket, hbucket, rfl⟩ := List.mem_map.mp hids
    obtain ⟨index, hindex⟩ := List.mem_iff_getElem?.mp hbucket
    exact (h.bucket index bucket hindex).nodup
  · refine List.pairwise_map.mpr (List.pairwise_iff_getElem.mpr fun i j hi hj hlt => ?_)
    have hfirst := h.bucket i _ (List.getElem?_eq_getElem hi)
    have hsecond := h.bucket j _ (List.getElem?_eq_getElem hj)
    intro id hid hid'
    obtain ⟨record, hmem, rfl⟩ := List.mem_map.mp hid
    obtain ⟨record', hmem', heq⟩ := List.mem_map.mp hid'
    have hsame : j = i := by
      rw [← (hsecond.placed record' hmem').2, heq, (hfirst.placed record hmem).2]
    omega

theorem Reached.kademlia (h : Reached localId calls table) : Kademlia localId calls table where
  capacity bucket hbucket := by
    obtain ⟨index, hindex⟩ := List.mem_iff_getElem?.mp hbucket
    exact (h.bucket index bucket hindex).capacity
  placed index bucket hbucket := (h.bucket index bucket hbucket).placed
  nodup := h.nodup
  notLocal record hmem := by
    obtain ⟨_, _, hbucket, hrecord⟩ := h.bucket_of_mem hmem
    exact hbucket.notLocal record hrecord
  added record hmem := by
    obtain ⟨_, _, hbucket, hrecord⟩ := h.bucket_of_mem hmem
    exact hbucket.added record hrecord
  ordered bucket hbucket := by
    obtain ⟨index, hindex⟩ := List.mem_iff_getElem?.mp hbucket
    exact (h.bucket index bucket hindex).ordered

theorem Reached.turnedAway (h : Reached localId calls table) {record : NodeRecord}
    (hadd : table.addNode now id endpoint = (table', some record)) :
    table' = table ∧ TurnedAway localId calls table id record := by
  obtain ⟨-, -, hnone⟩ | ⟨index, bucket, hbucket, -, hplaced, hstored | hfull⟩ :=
    addNode_cases h.size hadd
  · cases hnone
  · cases hstored.2.1
  · obtain ⟨hother, hlong, rfl, hhead⟩ := hfull
    have hsound := h.bucket index bucket hbucket
    obtain ⟨rest, rfl⟩ := List.head?_eq_some_iff.mp hhead.symm
    rw [h.localId_eq] at hplaced
    refine ⟨rfl, index, _, hbucket, hplaced.2, Nat.le_antisymm hsound.capacity hlong, hother,
      List.mem_cons_self, fun other hmem p q hp hq => ?_⟩
    rcases List.mem_cons.mp hmem with rfl | hrest
    · exact (hp.unique hq rfl).le
    · exact ((List.pairwise_cons.mp hsound.ordered).1 other hrest p q hp hq).le

/-- The ids that were ever added. -/
def addedIds (calls : List Call) : Set NodeId :=
  {id | ∃ now endpoint, Call.addNode now id endpoint ∈ calls}

/-- Different nodes are at different distances from everywhere. -/
theorem Reached.distances (h : Reached localId calls table)
    (hcollision : Set.InjOn (fun id : NodeId => keccak256 id.bytes) (addedIds calls))
    (target : NodeId) :
    (table.buckets.flatten.map fun record => xorDistance target record.id).Nodup := by
  have hadded : ∀ record ∈ table.buckets.flatten, record.id ∈ addedIds calls := by
    intro record hmem
    obtain ⟨position, hposition⟩ := h.kademlia.added record hmem
    exact ⟨_, _, List.mem_of_getElem? hposition.1⟩
  have hids := List.pairwise_map.mp h.nodup
  refine List.pairwise_map.mpr (hids.imp_of_mem fun {a b} ha hb hne heq => ?_)
  exact hne (hcollision (hadded a ha) (hadded b hb) (keccak256_of_xorDistance heq))

theorem Reached.nearest (h : Reached localId calls table)
    (hcollision : Set.InjOn (fun id : NodeId => keccak256 id.bytes) (addedIds calls))
    (target : NodeId) (count : Nat) :
    Nearest table target count (table.closestNodes target count) := by
  unfold closestNodes
  generalize hsorted : table.buckets.flatten.mergeSort
    (fun a b => distance target a.id ≤ distance target b.id) = sorted
  have hperm : sorted.Perm table.buckets.flatten := by
    rw [← hsorted]
    exact List.mergeSort_perm _ _
  have hle : sorted.Pairwise fun a b => xorDistance target a.id ≤ xorDistance target b.id := by
    rw [← hsorted]
    simp only [distance_le_iff]
    refine (List.pairwise_mergeSort ?_ ?_ _).imp fun hab => of_decide_eq_true hab
    · intro a b c hab hbc
      exact decide_eq_true ((of_decide_eq_true hab).trans (of_decide_eq_true hbc))
    · intro a b
      rw [Bool.or_eq_true, decide_eq_true_iff, decide_eq_true_iff]
      exact Nat.le_total _ _
  -- Sorting puts no two nodes at one distance, so the order is strict.
  have hne := List.pairwise_map.mp
    ((hperm.map fun record => xorDistance target record.id).nodup_iff.mpr
      (h.distances hcollision target))
  have hlt : sorted.Pairwise fun a b => xorDistance target a.id < xorDistance target b.id :=
    hle.imp₂ (fun _ _ => Nat.lt_of_le_of_ne) hne
  refine ⟨?_, hlt.sublist (List.take_sublist _ _), sorted.drop count, ?_, ?_⟩
  · rw [List.length_take, hperm.length_eq]
  · rw [List.take_append_drop]
    exact hperm
  · rw [← List.take_append_drop count sorted] at hlt
    exact (List.pairwise_append.mp hlt).2.2

end Tables

/-- Whatever is added and removed, a table stays what it is for. -/
theorem kademlia_run (localId : NodeId) (calls : List Call)
    (hcollision : Set.InjOn (fun id : NodeId => keccak256 id.bytes) (addedIds calls)) :
    Kademlia localId calls (run localId calls) ∧
      (∀ now id endpoint table' record,
        (run localId calls).addNode now id endpoint = (table', some record) →
          table' = run localId calls ∧
            TurnedAway localId calls (run localId calls) id record) ∧
      ∀ target count,
        Nearest (run localId calls) target count
          ((run localId calls).closestNodes target count) := by
  have hreached := reached_run localId calls
  exact ⟨hreached.kademlia, fun _ _ _ _ _ hadd => hreached.turnedAway hadd,
    hreached.nearest hcollision⟩

end Hashing

/-- A node that is seen, removed and seen again. -/
def reappearing : List Call :=
  let id : NodeId := ⟨List.replicate 64 1, List.length_replicate⟩
  let endpoint : NodeEndpoint := ⟨.v4 ⟨[127, 0, 0, 1], rfl⟩, 30303, 30303⟩
  [.addNode 1 id endpoint, .removeNode id, .addNode 2 id endpoint]

theorem kademlia_run_reappearing :
    @Kademlia keccak ⟨List.replicate 64 0, List.length_replicate⟩ reappearing
      (@run keccak ⟨List.replicate 64 0, List.length_replicate⟩ reappearing) := by
  refine (@kademlia_run keccak _ reappearing ?_).1
  rintro id ⟨now, endpoint, hmem⟩ id' ⟨now', endpoint', hmem'⟩ -
  simp only [reappearing, List.mem_cons, Call.addNode.injEq, reduceCtorEq, List.not_mem_nil,
    or_false, false_or] at hmem hmem'
  rcases hmem with ⟨-, rfl, -⟩ | ⟨-, rfl, -⟩ <;> rcases hmem' with ⟨-, rfl, -⟩ | ⟨-, rfl, -⟩ <;> rfl

end WasixEth.Discovery.RoutingTable
