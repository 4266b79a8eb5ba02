import Mathlib.Data.List.TakeWhile
import WasixEth.P2p.ForkId

/-! # Fork states and the rules of EIP-2124

The fork points of a chain are the forks that change the checksum. A fork state
is a prefix of them. `ForkId::new` announces the state of a head; what
`ForkId::validate` answers is compared with the rules, which look at the fork
states of the local chain and at the number of points that the head has passed.
-/

namespace WasixEth

namespace ForkId

/-! ## Fork points -/

/-- The forks after genesis, equal neighbours once. -/
def pointsAfter (genesisTime lastAdded : Nat) : List Point → List Point
  | [] => []
  | point :: rest =>
      if !isGenesis genesisTime point && point.value != lastAdded then
        point :: pointsAfter genesisTime point.value rest
      else pointsAfter genesisTime lastAdded rest

def forkPoints (config : ChainConfig) (genesisTime : Nat) : List Point :=
  pointsAfter genesisTime 0 (forks config)

def pointBytes (points : List Point) : Bytes := points.flatMap fun point => toBeBytes point.value

def stateHash (genesisHash : B256) (points : List Point) : UInt32 :=
  Crc32.checksum (genesisHash.bytes ++ pointBytes points)

/-- The value of the point at an index, zero if there is none. -/
def nextFork (points : List Point) (index : Nat) : Nat := (points[index]?.map Point.value).getD 0

/-- Different fork states have different checksums. -/
def Distinct (genesisHash : B256) (points : List Point) : Prop :=
  ∀ i ≤ points.length, ∀ j ≤ points.length,
    stateHash genesisHash (points.take i) = stateHash genesisHash (points.take j) → i = j

instance (genesisHash : B256) (points : List Point) : Decidable (Distinct genesisHash points) :=
  inferInstanceAs (Decidable (∀ i ≤ points.length, ∀ j ≤ points.length, _ → _))

section Points

variable {genesisTime lastAdded : Nat} {forks : List Point} {point : Point}

theorem mem_pointsAfter (h : point ∈ pointsAfter genesisTime lastAdded forks) :
    point ∈ forks ∧ isGenesis genesisTime point = false := by
  induction forks generalizing lastAdded with
  | nil => exact absurd h List.not_mem_nil
  | cons first rest ih =>
      unfold pointsAfter at h
      split at h
      next hadded =>
        rcases List.mem_cons.mp h with rfl | hrest
        · refine ⟨List.mem_cons_self, ?_⟩
          simpa using (Bool.and_eq_true_iff.mp hadded).1
        · exact ⟨List.mem_cons_of_mem _ (ih hrest).1, (ih hrest).2⟩
      next => exact ⟨List.mem_cons_of_mem _ (ih h).1, (ih h).2⟩

theorem value_ne_zero (h : isGenesis genesisTime point = false) : point.value ≠ 0 := by
  intro hzero
  unfold isGenesis at h
  rw [hzero] at h
  split at h
  · exact absurd (Nat.zero_le genesisTime) (of_decide_eq_false h)
  · cases h

/-- The last value that counts after some forks. -/
def lastValue (genesisTime lastAdded : Nat) (forks : List Point) : Nat :=
  ((pointsAfter genesisTime lastAdded forks).getLast?.map Point.value).getD lastAdded

theorem lastValue_cons_added
    (h : (!isGenesis genesisTime point && point.value != lastAdded) = true) :
    lastValue genesisTime lastAdded (point :: forks) =
      lastValue genesisTime point.value forks := by
  unfold lastValue
  rw [pointsAfter, if_pos h]
  cases hrest : pointsAfter genesisTime point.value forks with
  | nil => rfl
  | cons next rest => rw [List.getLast?_cons_cons]; rfl

theorem pointsAfter_append (first second : List Point) :
    pointsAfter genesisTime lastAdded (first ++ second) =
      pointsAfter genesisTime lastAdded first ++
        pointsAfter genesisTime (lastValue genesisTime lastAdded first) second := by
  induction first generalizing lastAdded with
  | nil => rfl
  | cons point rest ih =>
      rw [List.cons_append, pointsAfter]
      split
      next hadded =>
        rw [ih, lastValue_cons_added hadded, pointsAfter, if_pos hadded, List.cons_append]
      next hskipped =>
        have hlast : lastValue genesisTime lastAdded (point :: rest) =
            lastValue genesisTime lastAdded rest := by
          unfold lastValue
          rw [pointsAfter, if_neg hskipped]
        rw [ih, hlast, pointsAfter, if_neg hskipped]

end Points

/-! ## What the loops compute -/

section Loops

variable {head : Head} {genesisTime lastAdded : Nat} {digest : Crc32.Digest} {forks : List Point}

theorem newLoop_eq :
    newLoop head genesisTime digest lastAdded forks =
      (Crc32.update digest
        (pointBytes (pointsAfter genesisTime lastAdded (forks.takeWhile head.active))),
        nextFork (forks.dropWhile head.active) 0) := by
  induction forks generalizing digest lastAdded with
  | nil => rfl
  | cons point rest ih =>
      unfold newLoop
      split
      next hactive =>
        rw [List.takeWhile_cons_of_pos hactive, List.dropWhile_cons_of_pos hactive, pointsAfter]
        split
        next =>
          rw [ih, ← Crc32.update_append]
          rfl
        next => exact ih
      next hinactive =>
        rw [List.takeWhile_cons_of_neg hinactive, List.dropWhile_cons_of_neg hinactive]
        rfl

theorem getElem?_localHashesLoop (index : Nat) :
    (localHashesLoop genesisTime digest lastAdded forks)[index]? =
      (pointsAfter genesisTime lastAdded forks)[index]?.map fun point =>
        (Crc32.finalize (Crc32.update digest
          (pointBytes ((pointsAfter genesisTime lastAdded forks).take (index + 1)))),
          point.value) := by
  induction forks generalizing digest lastAdded index with
  | nil => rfl
  | cons point rest ih =>
      unfold localHashesLoop pointsAfter
      split
      next =>
        cases index with
        | zero => simp [pointBytes]
        | succ index =>
            rw [List.getElem?_cons_succ, List.getElem?_cons_succ, ih, List.take_succ_cons]
            unfold pointBytes
            rw [List.flatMap_cons, Crc32.update_append]
      next => exact ih index

variable (genesisHash : B256) (config : ChainConfig) (genesisTime)

theorem new_eq :
    new genesisHash config head genesisTime =
      ⟨stateHash genesisHash
        (pointsAfter genesisTime 0 ((ForkId.forks config).takeWhile head.active)),
        nextFork ((ForkId.forks config).dropWhile head.active) 0⟩ := by
  unfold new
  rw [newLoop_eq]
  unfold stateHash Crc32.checksum
  rw [Crc32.update_append]

theorem getElem?_localHashes (index : Nat) :
    (localHashes genesisHash config genesisTime)[index]? =
      if index ≤ (forkPoints config genesisTime).length then
        some (stateHash genesisHash ((forkPoints config genesisTime).take index),
          nextFork (⟨0, false⟩ :: forkPoints config genesisTime) index)
      else none := by
  unfold localHashes
  cases index with
  | zero =>
      rw [if_pos (Nat.zero_le _), List.take_zero]
      unfold stateHash pointBytes
      rw [List.flatMap_nil, List.append_nil]
      rfl
  | succ index =>
      rw [List.getElem?_cons_succ, getElem?_localHashesLoop]
      unfold nextFork
      rw [List.getElem?_cons_succ]
      unfold stateHash Crc32.checksum
      rw [Crc32.update_append]
      change (forkPoints config genesisTime)[index]?.map _ = _
      by_cases hindex : index + 1 ≤ (forkPoints config genesisTime).length
      · rw [if_pos hindex, List.getElem?_eq_getElem hindex]
        rfl
      · rw [if_neg hindex, List.getElem?_eq_none (Nat.le_of_not_lt hindex)]
        rfl

end Loops

/-! ## When a peer is accepted -/

section Validate

variable {genesisHash : B256} {config : ChainConfig} {genesisTime : Nat}

theorem findIdx?_localHashes
    (hdistinct : Distinct genesisHash (forkPoints config genesisTime)) {hash : UInt32}
    {index : Nat} (hindex : index ≤ (forkPoints config genesisTime).length)
    (hhash : stateHash genesisHash ((forkPoints config genesisTime).take index) = hash) :
    (localHashes genesisHash config genesisTime).findIdx? (fun entry => entry.1 == hash) =
      some index := by
  have hentry : ∀ i, (hi : i < (localHashes genesisHash config genesisTime).length) →
      i ≤ (forkPoints config genesisTime).length ∧
      (localHashes genesisHash config genesisTime)[i].1 =
        stateHash genesisHash ((forkPoints config genesisTime).take i) := by
    intro i hi
    have hget := getElem?_localHashes genesisTime genesisHash config i
    rw [List.getElem?_eq_getElem hi] at hget
    split at hget
    next hle => exact ⟨hle, by rw [Option.some.inj hget]⟩
    next => cases hget
  have hlength : index < (localHashes genesisHash config genesisTime).length := by
    have hget := getElem?_localHashes genesisTime genesisHash config index
    rw [if_pos hindex] at hget
    exact (List.getElem?_eq_some_iff.mp hget).1
  rw [List.findIdx?_eq_some_iff_getElem]
  refine ⟨hlength, ?_, ?_⟩
  · rw [(hentry index hlength).2, hhash, beq_self_eq_true]
  · intro earlier hearlier hsame
    obtain ⟨hle, hget⟩ := hentry earlier (hearlier.trans hlength)
    rw [hget, beq_iff_eq, ← hhash] at hsame
    exact absurd (hdistinct earlier hle index hindex hsame) (Nat.ne_of_lt hearlier)

theorem findIdx?_localHashes_eq_none {hash : UInt32}
    (hnone : ∀ index ≤ (forkPoints config genesisTime).length,
      stateHash genesisHash ((forkPoints config genesisTime).take index) ≠ hash) :
    (localHashes genesisHash config genesisTime).findIdx? (fun entry => entry.1 == hash) =
      none := by
  rw [List.findIdx?_eq_none_iff]
  intro entry hmem
  obtain ⟨index, hget⟩ := List.mem_iff_getElem?.mp hmem
  rw [getElem?_localHashes] at hget
  split at hget
  next hle =>
    rw [← Option.some.inj hget]
    exact beq_eq_false_iff_ne.mpr (hnone index hle)
  next => cases hget

theorem following_localHashes (index : Nat) :
    ((localHashes genesisHash config genesisTime)[index + 1]?.map Prod.snd).getD 0 =
      nextFork (forkPoints config genesisTime) index := by
  rw [getElem?_localHashes]
  unfold nextFork
  rw [List.getElem?_cons_succ]
  split
  next => rw [Option.map_some, Option.getD_some]
  next hlength => rw [List.getElem?_eq_none (Nat.le_of_not_lt hlength), Option.map_none]; rfl

/-- Where the local node sees itself among the fork states: the last one whose
value is not above that of the last active fork. -/
def toldPosition (head : Head) (forks points : List Point) : Nat :=
  match (forks.filter head.active).getLast? with
  | some point =>
      (rposition (fun value => value ≤ point.value) (0 :: points.map Point.value)).getD 0
  | none => 0

theorem map_snd_localHashes :
    (localHashes genesisHash config genesisTime).map Prod.snd =
      0 :: (forkPoints config genesisTime).map Point.value := by
  apply List.ext_getElem?
  intro index
  cases index with
  | zero =>
      rw [List.getElem?_map, getElem?_localHashes, if_pos (Nat.zero_le _), Option.map_some,
        List.getElem?_cons_zero]
      unfold nextFork
      rw [List.getElem?_cons_zero, Option.map_some, Option.getD_some]
  | succ index =>
      rw [List.getElem?_map, getElem?_localHashes, List.getElem?_cons_succ, List.getElem?_map]
      unfold nextFork
      rw [List.getElem?_cons_succ]
      split
      next hlength =>
        rw [List.getElem?_eq_getElem hlength, Option.map_some, Option.map_some, Option.getD_some]
      next hlength =>
        rw [List.getElem?_eq_none (Nat.le_of_not_lt hlength), Option.map_none, Option.map_none]

theorem rposition_map {α β : Type} (p : β → Bool) (f : α → β) (entries : List α) :
    rposition p (entries.map f) = rposition (fun entry => p (f entry)) entries := by
  unfold rposition
  rw [← List.map_reverse, List.findIdx?_map, List.length_map]
  rfl

/-- The last entry that is chosen decides. -/
theorem foldl_last {α β : Type} (p : α → Bool) (f : α → β) (entries : List α) (init : β) :
    entries.foldl (fun acc entry => if p entry then f entry else acc) init =
      ((entries.filter p).getLast?.map f).getD init := by
  induction entries generalizing init with
  | nil => rfl
  | cons entry rest ih =>
      rw [List.foldl_cons, ih, List.filter_cons]
      split
      next =>
        rw [List.getLast?_cons]
        cases (rest.filter p).getLast? <;> rfl
      next => rfl

theorem currentLocalIdx_eq (head : Head) :
    currentLocalIdx (localHashes genesisHash config genesisTime) head (forks config) =
      toldPosition head (forks config) (forkPoints config genesisTime) := by
  have hvalues : (localHashes genesisHash config genesisTime).map Prod.snd = _ :=
    map_snd_localHashes
  unfold currentLocalIdx toldPosition
  rw [foldl_last, ← hvalues]
  simp only [rposition_map]
  cases ((forks config).filter head.active).getLast? with
  | none => rw [Option.map_none, Option.getD_none]
  | some point => rw [Option.map_some, Option.getD_some]

theorem validate_of_known (hdistinct : Distinct genesisHash (forkPoints config genesisTime))
    {remote : ForkId} {index : Nat} (hindex : index ≤ (forkPoints config genesisTime).length)
    (hhash : stateHash genesisHash ((forkPoints config genesisTime).take index) = remote.hash)
    (head : Head) :
    validate remote genesisHash config head genesisTime = .ok () ↔
      if index ≤ toldPosition head (forks config) (forkPoints config genesisTime) then
        remote.next = nextFork (forkPoints config genesisTime) index
      else
        ¬ (nextFork (forkPoints config genesisTime)
            (toldPosition head (forks config) (forkPoints config genesisTime)) ≠ 0 ∧
          remote.next = nextFork (forkPoints config genesisTime)
            (toldPosition head (forks config) (forkPoints config genesisTime))) := by
  unfold validate
  dsimp only
  rw [findIdx?_localHashes hdistinct hindex hhash]
  simp only [following_localHashes, currentLocalIdx_eq]
  generalize toldPosition head (forks config) (forkPoints config genesisTime) = told
  rcases Nat.lt_trichotomy index told with hlt | rfl | hgt
  · rw [if_neg (Nat.ne_of_lt hlt), if_pos hlt, if_pos (Nat.le_of_lt hlt)]
    split
    next hnext => simp [hnext]
    next hnext => simp [not_not.mp hnext]
  · rw [if_pos rfl, if_pos (Nat.le_refl _)]
    split
    next hnext => simp [hnext]
    next hnext => simp [not_not.mp hnext]
  · rw [if_neg (Nat.ne_of_gt hgt), if_neg (Nat.lt_asymm hgt), if_neg (Nat.not_le_of_lt hgt)]
    split
    next hbypassed => exact ⟨nofun, fun h => absurd hbypassed h⟩
    next hfuture => exact ⟨fun _ => hfuture, fun _ => rfl⟩

theorem validate_of_unknown {remote : ForkId}
    (hnone : ∀ index ≤ (forkPoints config genesisTime).length,
      stateHash genesisHash ((forkPoints config genesisTime).take index) ≠ remote.hash)
    (head : Head) : validate remote genesisHash config head genesisTime ≠ .ok () := by
  unfold validate
  dsimp only
  rw [findIdx?_localHashes_eq_none hnone]
  exact nofun

end Validate

/-! ## Nodes of one network -/

/-- The heads of a chain: timestamps rise with every block. -/
inductive ChainHead (genesisTime : Nat) : Head → Prop
  | genesis : ChainHead genesisTime ⟨0, genesisTime⟩
  | child {head : Head} {time : Nat} (parent : ChainHead genesisTime head)
      (later : head.time < time) : ChainHead genesisTime ⟨head.number + 1, time⟩

theorem ChainHead.le_time {genesisTime : Nat} {head : Head} (h : ChainHead genesisTime head) :
    genesisTime + head.number ≤ head.time := by
  induction h with
  | genesis => exact Nat.le_refl _
  | child _ hlater ih => exact Nat.le_trans (Nat.succ_le_succ ih) hlater

instance : Std.Total Point.le where
  total a b := by
    unfold Point.le
    cases a.isTimestamp <;> cases b.isTimestamp <;> simp <;> omega

instance : IsTrans Point Point.le where
  trans a b c := by
    unfold Point.le
    cases a.isTimestamp <;> cases b.isTimestamp <;> cases c.isTimestamp <;> simp
    all_goals omega

theorem pairwise_forks (config : ChainConfig) : (forks config).Pairwise Point.le := by
  unfold forks
  exact List.pairwise_insertionSort _ _

section Network

variable {head : Head} {genesisTime : Nat} {forks : List Point} {point next : Point}

/-- What is active and comes before a fork that is not lies below it. -/
theorem value_lt_value (hhead : head.number ≤ head.time) (hle : point.le next)
    (hactive : head.active point = true) (hinactive : head.active next = false) :
    point.value < next.value := by
  unfold Head.active at hactive hinactive
  unfold Point.le at hle
  cases hpoint : point.isTimestamp <;> cases hnext : next.isTimestamp <;>
    simp [hpoint, hnext] at hactive hinactive hle <;> omega

theorem added_of_inactive (hhead : ChainHead genesisTime head)
    (hinactive : head.active next = false) {lastAdded : Nat} (hlast : lastAdded < next.value) :
    (!isGenesis genesisTime next && next.value != lastAdded) = true := by
  have htime := hhead.le_time
  rw [Bool.and_eq_true_iff]
  refine ⟨?_, bne_iff_ne.mpr (Nat.ne_of_gt hlast)⟩
  unfold Head.active at hinactive
  unfold isGenesis
  cases hnext : next.isTimestamp <;> simp [hnext] at hinactive ⊢ <;> omega

theorem lastValue_lt (hpositive : 0 < next.value)
    (hbelow : ∀ point ∈ forks, point.value < next.value) :
    lastValue genesisTime 0 forks < next.value := by
  unfold lastValue
  cases hlast : (pointsAfter genesisTime 0 forks).getLast? with
  | none => exact hpositive
  | some point =>
      exact hbelow point (mem_pointsAfter (List.mem_of_getLast? hlast)).1

theorem nextFork_append_right (first second : List Point) :
    nextFork (first ++ second) first.length = nextFork second 0 := by
  unfold nextFork
  rw [List.getElem?_append_right (Nat.le_refl _), Nat.sub_self]

/-- Forks that are passed and the forks to come: the first one to come is the
point after those that are passed, and its value is new. -/
theorem nextFork_pointsAfter {passed coming : List Point} (hhead : ChainHead genesisTime head)
    (hsorted : (passed ++ coming).Pairwise Point.le)
    (hactive : ∀ point ∈ passed, head.active point = true)
    (hinactive : ∀ point, coming.head? = some point → head.active point = false) :
    nextFork coming 0 = nextFork
        (pointsAfter genesisTime (lastValue genesisTime 0 passed) coming) 0 ∧
      ∀ point ∈ pointsAfter genesisTime 0 passed, nextFork coming 0 ≠ point.value := by
  have htime : head.number ≤ head.time := by
    have := hhead.le_time
    omega
  cases coming with
  | nil =>
      refine ⟨rfl, ?_⟩
      intro point hmem hzero
      exact value_ne_zero (mem_pointsAfter hmem).2 hzero.symm
  | cons next rest =>
      have hnext := hinactive next rfl
      have hbelow : ∀ point ∈ passed, point.value < next.value := by
        intro point hmem
        have hle := (List.pairwise_append.mp hsorted).2.2 point hmem next List.mem_cons_self
        exact value_lt_value htime hle (hactive point hmem) hnext
      have hpositive : 0 < next.value := by
        unfold Head.active at hnext
        split at hnext
        · exact Nat.lt_of_le_of_lt (Nat.zero_le _) (Nat.lt_of_not_le (of_decide_eq_false hnext))
        · exact Nat.lt_of_le_of_lt (Nat.zero_le _) (Nat.lt_of_not_le (of_decide_eq_false hnext))
      constructor
      · rw [pointsAfter, if_pos (added_of_inactive hhead hnext (lastValue_lt hpositive hbelow))]
        rfl
      · intro point hmem hsame
        exact Nat.ne_of_gt (hbelow point (mem_pointsAfter hmem).1) hsame

/-- The state of a head is a fork state, followed by the fork that is announced,
and no earlier fork has the value of that one. -/
theorem new_eq_state (genesisHash : B256) (config : ChainConfig)
    (hhead : ChainHead genesisTime head) :
    ∃ index ≤ (forkPoints config genesisTime).length,
      stateHash genesisHash ((forkPoints config genesisTime).take index) =
        (new genesisHash config head genesisTime).hash ∧
      (new genesisHash config head genesisTime).next =
        nextFork (forkPoints config genesisTime) index ∧
      ∀ earlier < index, (new genesisHash config head genesisTime).next ≠
        nextFork (forkPoints config genesisTime) earlier := by
  rw [new_eq]
  have hsorted := pairwise_forks config
  rw [← List.takeWhile_append_dropWhile (p := head.active) (l := ForkId.forks config)] at hsorted
  obtain ⟨hnext, hnew⟩ := nextFork_pointsAfter hhead hsorted (fun _ => List.mem_takeWhile_imp)
    (fun point hpoint => by
      have hnot := List.head?_dropWhile_not head.active (ForkId.forks config)
      rw [hpoint] at hnot
      simpa using hnot)
  have hpoints : forkPoints config genesisTime = _ ++ _ :=
    (congrArg _ (List.takeWhile_append_dropWhile (p := head.active)).symm).trans
      (pointsAfter_append _ _)
  rw [hpoints]
  refine ⟨_, List.length_append ▸ Nat.le_add_right _ _, ?_, ?_, ?_⟩
  · rw [List.take_left]
  · rw [nextFork_append_right, hnext]
  · intro earlier hearlier
    refine fun hsame => hnew _ (List.getElem_mem hearlier) (hsame.trans ?_)
    unfold nextFork
    rw [List.getElem?_append_left hearlier, List.getElem?_eq_getElem hearlier]
    rfl

theorem validate_new {other : Head} (genesisHash : B256) (config : ChainConfig)
    (hhead : ChainHead genesisTime head)
    (hdistinct : Distinct genesisHash (forkPoints config genesisTime)) :
    validate (new genesisHash config head genesisTime) genesisHash config other genesisTime =
      .ok () := by
  obtain ⟨index, hindex, hhash, hnext, hnew⟩ := new_eq_state genesisHash config hhead
  rw [validate_of_known hdistinct hindex hhash]
  split
  next => exact hnext
  next hfuture => exact fun hbypassed => hnew _ (Nat.lt_of_not_le hfuture) hbypassed.2

/-- Two nodes of one chain accept each other, whatever blocks they are at. -/
theorem accepts_each_other (genesisHash : B256) (config : ChainConfig) (genesisTime : Nat)
    (head other : Head) (hhead : ChainHead genesisTime head) (hother : ChainHead genesisTime other)
    (hdistinct : Distinct genesisHash (forkPoints config genesisTime)) :
    validate (new genesisHash config head genesisTime) genesisHash config other genesisTime =
        .ok () ∧
      validate (new genesisHash config other genesisTime) genesisHash config head genesisTime =
        .ok () :=
  ⟨validate_new genesisHash config hhead hdistinct,
    validate_new genesisHash config hother hdistinct⟩

/-- A genesis block and a chain on which London comes with some block. -/
def londonGenesis : B256 :=
  B256.ofNat 0x34cb47b1a70a73ad1e455e97f33827d94284f5e7b819f4132e466cf3cd0a0d56

def londonAt (number : Nat) : ChainConfig :=
  { (default : ChainConfig) with homesteadBlock := some 0, londonBlock := some number }

example : new londonGenesis (londonAt 100) ⟨0, 0⟩ 0 = ⟨0x9ef6777b, 100⟩ := by decide +kernel

theorem accepts_before_london :
    validate (new londonGenesis (londonAt 1) ⟨1, 12⟩ 0) londonGenesis (londonAt 1) ⟨0, 0⟩ 0 =
        .ok () ∧
      validate (new londonGenesis (londonAt 1) ⟨0, 0⟩ 0) londonGenesis (londonAt 1) ⟨1, 12⟩ 0 =
        .ok () :=
  accepts_each_other londonGenesis (londonAt 1) 0 ⟨1, 12⟩ ⟨0, 0⟩ (.child .genesis (by decide))
    .genesis (by decide +kernel)

end Network

/-! ## The rules -/

section Rules

variable (genesisHash : B256) (points : List Point) (head : Head)

/-- How many points the head has passed. -/
def position : Nat := (points.takeWhile head.active).length

/-- The head has passed the fork that is announced. A number does not say what
it counts: it is read as the local next fork is, and as a timestamp where there
is none. -/
def Passed (next : Nat) : Prop :=
  next ≠ 0 ∧ next ≤ match points[position points head]? with
    | some ⟨_, false⟩ => head.number
    | _ => head.time

/-- What the rules say about a peer in the fork state at an index: a past state
is followed by the fork that followed it here, the local one by none or one not
passed yet, and after a future one anything goes. -/
def RulesHold (next index : Nat) : Prop :=
  if index < position points head then next = nextFork points index
  else if index = position points head then ¬ Passed points head next
  else True

/-- EIP-2124: connect to a peer whose checksum is a local fork state and that
keeps the rules there, and to no other. -/
def Connects (remote : ForkId) : Prop :=
  ∃ index ≤ points.length,
    stateHash genesisHash (points.take index) = remote.hash ∧
      RulesHold points head remote.next index

instance (next : Nat) : Decidable (Passed points head next) :=
  inferInstanceAs (Decidable (_ ∧ _))

instance (next index : Nat) : Decidable (RulesHold points head next index) :=
  inferInstanceAs (Decidable (ite _ _ _))

instance (remote : ForkId) : Decidable (Connects genesisHash points head remote) :=
  decidable_of_iff (∃ index : Fin (points.length + 1),
    stateHash genesisHash (points.take index) = remote.hash ∧
      RulesHold points head remote.next index)
    ⟨fun ⟨index, h⟩ => ⟨index, Nat.le_of_lt_succ index.isLt, h⟩,
      fun ⟨index, hindex, h⟩ => ⟨⟨index, Nat.lt_succ_of_le hindex⟩, h⟩⟩

/-- Where the answer to a peer in the fork state at an index agrees with the
rules, `told` being where the local node sees itself. -/
def Agrees (told next index : Nat) : Prop :=
  if index ≤ told then
    index < position points head ∨ next = nextFork points index ∨
      (index = position points head ∧ Passed points head next)
  else if index < position points head then
    ¬ (next = nextFork points index ↔ next = nextFork points told)
  else if index = position points head then
    (next = nextFork points told ↔ Passed points head next)
  else next ≠ nextFork points told

instance (told next index : Nat) : Decidable (Agrees points head told next index) :=
  inferInstanceAs (Decidable (ite _ _ _))

variable {points head}

theorem getElem?_position :
    points[position points head]? = (points.dropWhile head.active).head? := by
  have happend := List.takeWhile_append_dropWhile (p := head.active) (l := points)
  calc points[position points head]?
      = (points.takeWhile head.active ++ points.dropWhile head.active)[
          (points.takeWhile head.active).length]? := by rw [happend]; rfl
    _ = (points.dropWhile head.active)[0]? := by
          rw [List.getElem?_append_right (Nat.le_refl _), Nat.sub_self]
    _ = (points.dropWhile head.active).head? := List.head?_eq_getElem?.symm

theorem not_passed_nextFork : ¬ Passed points head (nextFork points (position points head)) := by
  have hinactive := List.head?_dropWhile_not head.active points
  unfold Passed nextFork
  rw [← getElem?_position] at hinactive
  cases hpoint : points[position points head]? with
  | none => exact fun hpassed => hpassed.1 rfl
  | some point =>
      rw [hpoint] at hinactive
      rintro ⟨-, hle⟩
      obtain ⟨value, isTimestamp⟩ := point
      cases isTimestamp <;> simp_all [Head.active] <;> omega

/-- The two answers agree where `Agrees` says so. -/
theorem agrees_iff {told next index : Nat} (htold : index ≤ told ∨ nextFork points told ≠ 0) :
    ((if index ≤ told then next = nextFork points index
        else ¬ (nextFork points told ≠ 0 ∧ next = nextFork points told)) ↔
      RulesHold points head next index) ↔ Agrees points head told next index := by
  have hown : next = nextFork points (position points head) → ¬ Passed points head next := by
    rintro rfl
    exact not_passed_nextFork
  unfold RulesHold Agrees
  by_cases hpast : index ≤ told
  · rw [if_pos hpast, if_pos hpast]
    rcases Nat.lt_trichotomy index (position points head) with hlt | rfl | hgt
    · simp [hlt]
    · simp only [Nat.lt_irrefl, if_false, if_true, false_or, true_and]
      tauto
    · simp [Nat.lt_asymm hgt, Nat.ne_of_gt hgt]
  · have hnonzero := htold.resolve_left hpast
    rw [if_neg hpast, if_neg hpast]
    rcases Nat.lt_trichotomy index (position points head) with hlt | rfl | hgt
    · simp only [hlt, if_true]
      tauto
    · simp only [Nat.lt_irrefl, if_false, if_true]
      tauto
    · simp [Nat.lt_asymm hgt, Nat.ne_of_gt hgt, hnonzero]

/-- For every peer the answer is that of the rules exactly if `Agrees` holds at
the fork state of the peer. -/
theorem validate_iff_connects_iff (genesisHash : B256) (config : ChainConfig) (genesisTime : Nat)
    (head : Head) (remote : ForkId)
    (hdistinct : Distinct genesisHash (forkPoints config genesisTime)) :
    (validate remote genesisHash config head genesisTime = .ok () ↔
        Connects genesisHash (forkPoints config genesisTime) head remote) ↔
      ∀ index ≤ (forkPoints config genesisTime).length,
        stateHash genesisHash ((forkPoints config genesisTime).take index) = remote.hash →
        Agrees (forkPoints config genesisTime) head
          (toldPosition head (forks config) (forkPoints config genesisTime)) remote.next
          index := by
  by_cases hknown : ∃ index ≤ (forkPoints config genesisTime).length,
      stateHash genesisHash ((forkPoints config genesisTime).take index) = remote.hash
  · obtain ⟨index, hindex, hhash⟩ := hknown
    have honly : ∀ other ≤ (forkPoints config genesisTime).length,
        stateHash genesisHash ((forkPoints config genesisTime).take other) = remote.hash →
          other = index := fun other hother hsame =>
      hdistinct other hother index hindex (hsame.trans hhash.symm)
    have hconnects : Connects genesisHash (forkPoints config genesisTime) head remote ↔
        RulesHold (forkPoints config genesisTime) head remote.next index := by
      constructor
      · rintro ⟨other, hother, hsame, hrules⟩
        rwa [honly other hother hsame] at hrules
      · exact fun hrules => ⟨index, hindex, hhash, hrules⟩
    rw [validate_of_known hdistinct hindex hhash, hconnects, agrees_iff]
    · constructor
      · intro hagrees other hother hsame
        rwa [honly other hother hsame]
      · exact fun hagrees => hagrees index hindex hhash
    · by_cases hpast : index ≤ toldPosition head (forks config) (forkPoints config genesisTime)
      · exact .inl hpast
      · have htold := Nat.lt_of_lt_of_le (Nat.lt_of_not_le hpast) hindex
        right
        unfold nextFork
        rw [List.getElem?_eq_getElem htold]
        exact value_ne_zero (mem_pointsAfter (List.getElem_mem htold)).2
  · have hnone : ∀ index ≤ (forkPoints config genesisTime).length,
        stateHash genesisHash ((forkPoints config genesisTime).take index) ≠ remote.hash :=
      fun index hindex hhash => hknown ⟨index, hindex, hhash⟩
    refine iff_of_true (iff_of_false (validate_of_unknown hnone head) ?_) ?_
    · rintro ⟨index, hindex, hhash, -⟩
      exact hnone index hindex hhash
    · exact fun index hindex hhash => absurd hhash (hnone index hindex)

/-- A peer that announces London too is answered by the rules. -/
theorem answers_informed_peer :
    validate ⟨0x9ef6777b, 100⟩ londonGenesis (londonAt 100) ⟨0, 0⟩ 0 = .ok () ↔
      Connects londonGenesis (forkPoints (londonAt 100) 0) ⟨0, 0⟩ ⟨0x9ef6777b, 100⟩ :=
  (validate_iff_connects_iff londonGenesis (londonAt 100) 0 ⟨0, 0⟩ ⟨0x9ef6777b, 100⟩
    (by decide +kernel)).mpr (by decide +kernel)

/-- A peer in the same state that knows of no fork to come is turned away. -/
theorem rejects_uninformed_peer :
    validate ⟨0x9ef6777b, 0⟩ londonGenesis (londonAt 100) ⟨0, 0⟩ 0 =
        .error "Remote announced next fork 0, but local expects 100" ∧
      Connects londonGenesis (forkPoints (londonAt 100) 0) ⟨0, 0⟩ ⟨0x9ef6777b, 0⟩ := by
  decide +kernel

end Rules

end ForkId

end WasixEth
