import WasixEth.Engine.Building
import WasixEth.Engine.Forkchoice
import Mathlib.Data.List.TakeWhile

/-! # Judging payload attributes

The attributes of a payload are judged by the fork of block zero at their
timestamp, and the payload is built under the fork of the block after the head. The
schedule puts block numbers before timestamps and ends at the first point that is
not reached, so the two forks differ as soon as a block number lies between.
-/

namespace WasixEth

open Storage

/-! ## The schedule -/

namespace Hardfork

/-- The point is reached at a block. -/
def reachedAt (number timestamp : Nat) (point : ForkPoint) : Bool :=
  decide (point.value ≤ if point.isTimestamp then timestamp else number)

/-- The points of the schedule before the first one that is not reached. -/
def reached (config : ChainConfig) (number timestamp : Nat) : List ForkPoint :=
  (config.forks.insertionSort ForkPoint.le).takeWhile (reachedAt number timestamp)

/-- No fork is scheduled for a block after the first one and up to this one. -/
def NoneBetween (config : ChainConfig) (number : Nat) : Prop :=
  ∀ point ∈ config.forks, point.isTimestamp = false → 0 < point.value → number < point.value

/-- The one fork that can be scheduled twice is the last point that block zero
reaches, and the last one that this block reaches. -/
def SpuriousTwice (config : ChainConfig) (number timestamp : Nat) : Prop :=
  ∃ first last, (reached config 0 timestamp).getLast? = some first ∧
    (reached config number timestamp).getLast? = some last ∧
    first.fork = .spuriousDragon ∧ last.fork = .spuriousDragon

theorem lastActive_eq (number timestamp : Nat) (active : Hardfork) (points : List ForkPoint) :
    lastActive number timestamp active points =
      (((points.takeWhile (reachedAt number timestamp)).getLast?).map ForkPoint.fork).getD
        active := by
  induction points generalizing active with
  | nil => rfl
  | cons point rest ih =>
      rw [lastActive]
      by_cases hreached : point.value ≤ if point.isTimestamp then timestamp else number
      · have hpoint : reachedAt number timestamp point = true := decide_eq_true hreached
        rw [if_pos hreached, List.takeWhile_cons_of_pos hpoint, ih, List.getLast?_cons]
        cases (rest.takeWhile (reachedAt number timestamp)).getLast? <;> rfl
      · have hpoint : ¬ reachedAt number timestamp point = true :=
          fun htrue => hreached (of_decide_eq_true htrue)
        rw [if_neg hreached, List.takeWhile_cons_of_neg hpoint]
        rfl

theorem getActiveFork_eq (config : ChainConfig) (number timestamp : Nat) :
    getActiveFork config number timestamp =
      (((reached config number timestamp).getLast?).map ForkPoint.fork).getD .frontier := by
  unfold getActiveFork getActiveForkWithTotalDifficulty reached
  rw [lastActive_eq]
  dsimp only
  split
  · cases config.terminalTotalDifficulty <;> rfl
  · rfl

/-- More is reached at a later block. -/
theorem reached_prefix (config : ChainConfig) (number timestamp : Nat) :
    reached config 0 timestamp <+: reached config number timestamp := by
  have himp : ∀ point, reachedAt 0 timestamp point = true →
      reachedAt number timestamp point = true := by
    intro point hpoint
    unfold reachedAt at hpoint ⊢
    rw [decide_eq_true_iff] at hpoint ⊢
    split
    next htime => rwa [if_pos htime] at hpoint
    next hblock =>
      rw [if_neg hblock] at hpoint
      exact hpoint.trans (Nat.zero_le _)
  unfold reached
  induction config.forks.insertionSort ForkPoint.le with
  | nil => exact List.nil_prefix
  | cons point rest ih =>
      by_cases hpoint : reachedAt 0 timestamp point = true
      · rw [List.takeWhile_cons_of_pos hpoint, List.takeWhile_cons_of_pos (himp point hpoint)]
        exact List.cons_prefix_cons.mpr ⟨rfl, ih⟩
      · rw [List.takeWhile_cons_of_neg hpoint]
        exact List.nil_prefix

theorem reached_eq_of_noneBetween {config : ChainConfig} {number : Nat}
    (h : NoneBetween config number) (timestamp : Nat) :
    reached config 0 timestamp = reached config number timestamp := by
  have hsame : ∀ point ∈ config.forks.insertionSort ForkPoint.le,
      reachedAt 0 timestamp point = reachedAt number timestamp point := by
    intro point hmem
    unfold reachedAt
    rw [decide_eq_decide]
    split
    next => rfl
    next hblock =>
      have hnone := h point ((List.mem_insertionSort _).mp hmem) (Bool.eq_false_iff.mpr hblock)
      omega
  unfold reached
  generalize config.forks.insertionSort ForkPoint.le = points at hsame ⊢
  induction points with
  | nil => rfl
  | cons point rest ih =>
      obtain ⟨hpoint, hrest⟩ := List.forall_mem_cons.mp hsame
      rw [List.takeWhile_cons, List.takeWhile_cons, hpoint, ih hrest]

instance : Std.Total ForkPoint.le where
  total := by
    rintro ⟨value, isTimestamp, fork⟩ ⟨value', isTimestamp', fork'⟩
    unfold ForkPoint.le
    cases isTimestamp <;> cases isTimestamp' <;> simp
    all_goals omega

instance : IsTrans ForkPoint ForkPoint.le where
  trans := by
    rintro ⟨a, isTimestamp, _⟩ ⟨b, isTimestamp', _⟩ ⟨c, isTimestamp'', _⟩
    unfold ForkPoint.le
    cases isTimestamp <;> cases isTimestamp' <;> cases isTimestamp'' <;> simp
    all_goals omega

/-- A block number in between is reached at the later block only. -/
theorem reached_ne_of_between {config : ChainConfig} {number : Nat} {point : ForkPoint}
    (hmem : point ∈ config.forks) (hblock : point.isTimestamp = false) (hpos : 0 < point.value)
    (hle : point.value ≤ number) (timestamp : Nat) :
    reached config 0 timestamp ≠ reached config number timestamp := by
  obtain ⟨before, after, hsplit⟩ :=
    List.append_of_mem ((List.mem_insertionSort ForkPoint.le).mpr hmem)
  have hsorted := List.pairwise_insertionSort ForkPoint.le config.forks
  rw [hsplit] at hsorted
  have hbefore : ∀ other ∈ before ++ [point], reachedAt number timestamp other = true := by
    intro other hother
    have hother' : ForkPoint.le other point ∨ other = point := by
      rcases List.mem_append.mp hother with hother | hother
      · exact .inl ((List.pairwise_append.mp hsorted).2.2 other hother point List.mem_cons_self)
      · exact .inr (List.mem_singleton.mp hother)
    unfold reachedAt
    rw [decide_eq_true_iff]
    rcases hother' with hle' | rfl
    · rcases hle' with htype | ⟨htype, hvalue⟩
      · rw [hblock, Bool.and_false] at htype
        cases htype
      · rw [htype, hblock, if_neg Bool.false_ne_true]
        exact hvalue.trans hle
    · rw [hblock, if_neg Bool.false_ne_true]
      exact hle
  intro heq
  have hreached : point ∈ reached config number timestamp := by
    unfold reached
    rw [hsplit, ← List.singleton_append, ← List.append_assoc,
      List.takeWhile_append_of_pos hbefore]
    exact List.mem_append_left _ (List.mem_append_right _ List.mem_cons_self)
  rw [← heq] at hreached
  have hzero := List.mem_takeWhile_imp hreached
  unfold reachedAt at hzero
  rw [decide_eq_true_iff, hblock, if_neg Bool.false_ne_true] at hzero
  omega

/-! ## Forks that are scheduled twice -/

/-- The forks that a config can schedule, in order. -/
theorem forks_sublist (config : ChainConfig) :
    (config.forks.map ForkPoint.fork).Sublist
      [homestead, tangerineWhistle, spuriousDragon, spuriousDragon, byzantium, constantinople,
        petersburg, istanbul, muirGlacier, berlin, london, arrowGlacier, grayGlacier, paris,
        shanghai, cancun, prague] := by
  have hblock : ∀ fork value, ((ForkPoint.block fork value).map ForkPoint.fork).Sublist [fork] := by
    intro fork value
    cases value with
    | none => exact List.nil_sublist _
    | some number => exact List.Sublist.refl _
  have htime : ∀ fork value, ((ForkPoint.time fork value).map ForkPoint.fork).Sublist [fork] := by
    intro fork value
    cases value with
    | none => exact List.nil_sublist _
    | some number => exact List.Sublist.refl _
  unfold ChainConfig.forks
  simp only [List.map_append]
  have hblocks : List.Sublist _ ([homestead] ++ [tangerineWhistle] ++ [spuriousDragon] ++
      [spuriousDragon] ++ [byzantium] ++ [constantinople] ++ [petersburg] ++ [istanbul]) :=
    (((((((hblock homestead config.homesteadBlock).append
      (hblock _ config.eip150Block)).append (hblock _ config.eip155Block)).append
      (hblock _ config.eip158Block)).append (hblock _ config.byzantiumBlock)).append
      (hblock _ config.constantinopleBlock)).append (hblock _ config.petersburgBlock)).append
      (hblock _ config.istanbulBlock)
  have hlater := ((((((((hblocks.append (hblock muirGlacier config.muirGlacierBlock)).append
    (hblock berlin config.berlinBlock)).append (hblock london config.londonBlock)).append
    (hblock arrowGlacier config.arrowGlacierBlock)).append
    (hblock grayGlacier config.grayGlacierBlock)).append
    (hblock paris config.mergeNetsplitBlock)).append (htime shanghai config.shanghaiTime)).append
    (htime cancun config.cancunTime)).append (htime prague config.pragueTime)
  exact hlater

/-- A fork with two places in the schedule is Spurious Dragon, and none is the first
fork of all. -/
theorem forks_twice (config : ChainConfig) {before after : List ForkPoint} {a b : ForkPoint}
    (hsplit : before ++ after <+: config.forks.insertionSort ForkPoint.le) (ha : a ∈ before)
    (hb : b ∈ after) (heq : a.fork = b.fork) : a.fork = .spuriousDragon := by
  have hall : (config.forks.map ForkPoint.fork).Pairwise
      fun fork fork' => fork = fork' → fork = .spuriousDragon :=
    List.Pairwise.sublist (forks_sublist config) (by decide)
  have hpoints : config.forks.Pairwise
      fun point point' => point.fork = point'.fork → point.fork = .spuriousDragon :=
    List.pairwise_map.mp hall
  have hsymm : ∀ {point point' : ForkPoint},
      (point.fork = point'.fork → point.fork = .spuriousDragon) →
        point'.fork = point.fork → point'.fork = .spuriousDragon :=
    fun h hsame => hsame.trans (h hsame.symm)
  have hsorted := ((List.perm_insertionSort ForkPoint.le config.forks).symm.pairwise_iff
    hsymm).mp hpoints
  exact (List.pairwise_append.mp (hsorted.sublist hsplit.sublist)).2.2 a ha b hb heq

theorem fork_ne_frontier {config : ChainConfig} {point : ForkPoint} (h : point ∈ config.forks) :
    point.fork ≠ .frontier := by
  intro heq
  have hmem := (forks_sublist config).subset (List.mem_map_of_mem h)
  rw [heq] at hmem
  exact absurd hmem (by decide)

/-- The fork of block zero is that of a later block as long as no block number lies
between, and otherwise only if both are Spurious Dragon. -/
theorem getActiveFork_zero_iff (config : ChainConfig) (number timestamp : Nat) :
    getActiveFork config 0 timestamp = getActiveFork config number timestamp ↔
      NoneBetween config number ∨ SpuriousTwice config number timestamp := by
  rw [getActiveFork_eq, getActiveFork_eq]
  constructor
  · intro heq
    by_cases hnone : NoneBetween config number
    · exact .inl hnone
    · right
      unfold NoneBetween at hnone
      push Not at hnone
      obtain ⟨point, hpoint, hblock, hpos, hle⟩ := hnone
      have hne := reached_ne_of_between hpoint hblock hpos hle timestamp
      obtain ⟨more, hmore⟩ := reached_prefix config number timestamp
      have hsplit : reached config 0 timestamp ++ more <+:
          config.forks.insertionSort ForkPoint.le := by
        rw [hmore]
        exact List.takeWhile_prefix _
      have hmoreNe : more ≠ [] := by
        rintro rfl
        exact hne (by rw [← hmore, List.append_nil])
      obtain ⟨last, hlast⟩ : ∃ last, more.getLast? = some last :=
        ⟨_, List.getLast?_eq_some_getLast hmoreNe⟩
      have hlastAll : (reached config number timestamp).getLast? = some last := by
        rw [← hmore, List.getLast?_append, hlast]
        rfl
      have hlastMem := List.mem_of_getLast? hlast
      rw [hlastAll] at heq
      cases hfirst : (reached config 0 timestamp).getLast? with
      | none =>
          rw [hfirst] at heq
          have hlastFork : last ∈ config.forks := (List.mem_insertionSort ForkPoint.le).mp
            (hsplit.subset (List.mem_append_right _ hlastMem))
          exact absurd heq.symm (fork_ne_frontier hlastFork)
      | some first =>
          rw [hfirst] at heq
          have hsame : first.fork = last.fork := heq
          have hspurious := forks_twice config hsplit (List.mem_of_getLast? hfirst) hlastMem hsame
          exact ⟨first, last, hfirst, hlastAll, hspurious, hsame ▸ hspurious⟩
  · rintro (hnone | ⟨first, last, hfirst, hlast, hspurious, hspurious'⟩)
    · rw [reached_eq_of_noneBetween hnone]
    · rw [hfirst, hlast, Option.map_some, Option.map_some, hspurious, hspurious']

end Hardfork

/-! ## The attributes -/

namespace Engine

section Judging

variable [Keccak256] [BlockHashing] [Proofs] [Evm]

/-- The attributes are those of the block that is built from them. -/
structure Matches (provider : EthExecutionProvider) (parent : Header)
    (attributes : PayloadAttributes) (block : Block) : Prop where
  withdrawals : attributes.withdrawals = block.body.withdrawals
  root : attributes.parentBeaconBlockRoot = block.header.parentBeaconBlockRoot
  rooted : .cancun ≤ EthExecutionProvider.builderFork provider parent attributes →
    attributes.parentBeaconBlockRoot.isSome

/-- The attributes are judged by the fork of the block that is built, and accepted
exactly if the version of the call fits that fork and they are those of the block. -/
structure JudgesRightly (provider : EthExecutionProvider)
    (generate : B256 → PayloadAttributes → PayloadId) (parent : Header)
    (attributes : PayloadAttributes) : Prop where
  fork : Hardfork.getActiveFork provider.config 0 attributes.timestamp =
    EthExecutionProvider.builderFork provider parent attributes
  accepted : ∀ version transactions baseFee,
    forkValidation (ethNode provider generate) version attributes = .ok () ↔
      (3 ≤ version ↔ .cancun ≤ EthExecutionProvider.builderFork provider parent attributes) ∧
        Matches provider parent attributes
          (provider.payloadBlock transactions parent attributes baseFee)

omit [Keccak256] [Proofs] [Evm] in
/-- The checks are those of the fork that judges. -/
theorem forkValidation_iff (node : Node) (version : Nat) (attributes : PayloadAttributes) :
    forkValidation node version attributes = .ok () ↔
      (3 ≤ version ↔ .cancun ≤ Hardfork.getActiveFork node.config 0 attributes.timestamp) ∧
        (attributes.withdrawals.isSome ↔
          .shanghai ≤ Hardfork.getActiveFork node.config 0 attributes.timestamp) ∧
        (attributes.parentBeaconBlockRoot.isSome ↔
          .cancun ≤ Hardfork.getActiveFork node.config 0 attributes.timestamp) := by
  unfold forkValidation
  generalize Hardfork.getActiveFork node.config 0 attributes.timestamp = fork
  have hcancun : fork.isCancunActive = decide (.cancun ≤ fork) := rfl
  dsimp only
  rw [hcancun]
  -- Each check refuses where one of the three conditions fails in one direction.
  by_cases hactive : Hardfork.cancun ≤ fork <;> by_cases hshanghai : Hardfork.shanghai ≤ fork <;>
    by_cases hversion : 3 ≤ version <;> cases attributes.withdrawals <;>
    cases attributes.parentBeaconBlockRoot <;>
    simp [hactive, hshanghai, hversion, Nat.not_lt.mpr, Nat.lt_of_not_le]

omit [Keccak256] [Evm] in
theorem matches_iff (provider : EthExecutionProvider) (parent : Header)
    (attributes : PayloadAttributes) (transactions : List Transaction) (baseFee : Option Nat) :
    Matches provider parent attributes
        (provider.payloadBlock transactions parent attributes baseFee) ↔
      (attributes.withdrawals.isSome ↔
          .shanghai ≤ EthExecutionProvider.builderFork provider parent attributes) ∧
        (attributes.parentBeaconBlockRoot.isSome ↔
          .cancun ≤ EthExecutionProvider.builderFork provider parent attributes) := by
  have hwithdrawals : (provider.payloadBlock transactions parent attributes
      baseFee).body.withdrawals =
        if .shanghai ≤ EthExecutionProvider.builderFork provider parent attributes then
          some (attributes.withdrawals.getD []) else none := by
    unfold EthExecutionProvider.payloadBlock EthExecutionProvider.builderFork
    dsimp only
  have hroot : (provider.payloadBlock transactions parent attributes
      baseFee).header.parentBeaconBlockRoot =
        if .cancun ≤ EthExecutionProvider.builderFork provider parent attributes then
          attributes.parentBeaconBlockRoot else none := by
    unfold EthExecutionProvider.payloadBlock EthExecutionProvider.payloadHeader
      EthExecutionProvider.builderFork
    dsimp only
  constructor
  · rintro ⟨hwithdrawals', hroot', hrooted⟩
    rw [hwithdrawals] at hwithdrawals'
    rw [hroot] at hroot'
    constructor
    · rw [hwithdrawals']
      split
      next hshanghai => exact iff_of_true rfl hshanghai
      next hshanghai => exact iff_of_false Bool.false_ne_true hshanghai
    · refine ⟨fun hsome => ?_, hrooted⟩
      by_contra hcancun
      rw [if_neg hcancun] at hroot'
      rw [hroot'] at hsome
      cases hsome
  · rintro ⟨hshanghai, hcancun⟩
    refine ⟨?_, ?_, hcancun.mpr⟩
    · rw [hwithdrawals]
      cases hgiven : attributes.withdrawals with
      | none =>
          rw [hgiven] at hshanghai
          rw [if_neg fun hactive => by cases hshanghai.mpr hactive]
      | some withdrawals =>
          rw [hgiven] at hshanghai
          rw [if_pos (hshanghai.mp rfl)]
          rfl
    · rw [hroot]
      cases hgiven : attributes.parentBeaconBlockRoot with
      | none => exact (ite_self none).symm
      | some root =>
          rw [hgiven] at hcancun
          rw [if_pos (hcancun.mp rfl)]

theorem judgesRightly_iff (provider : EthExecutionProvider)
    (generate : B256 → PayloadAttributes → PayloadId) (parent : Header)
    (attributes : PayloadAttributes) :
    JudgesRightly provider generate parent attributes ↔
      Hardfork.NoneBetween provider.config (parent.number + 1) ∨
        Hardfork.SpuriousTwice provider.config (parent.number + 1) attributes.timestamp := by
  rw [← Hardfork.getActiveFork_zero_iff]
  refine ⟨fun h => h.fork, fun hfork => ⟨hfork, fun version transactions baseFee => ?_⟩⟩
  rw [forkValidation_iff, matches_iff]
  unfold EthExecutionProvider.builderFork
  rw [← hfork]
  exact Iff.rfl

end Judging

section Sample

attribute [local instance] keccak keccakHashing keccakProofs idleEvm

/-- London comes at block five, and Cancun at the first second. -/
def lateLondonConfig : ChainConfig :=
  { sampleConfig with londonBlock := some 5, shanghaiTime := some 0, cancunTime := some 0 }

/-- Past London the attributes are still judged by the rules before Shanghai. -/
theorem not_judgesRightly_lateLondon :
    ¬ JudgesRightly ⟨lateLondonConfig, .inOrder⟩ (fun _ _ => 1)
        { genesisHeader with number := 7 } EthExecutionProvider.pragueAttributes := by
  intro hjudges
  have hfork : Hardfork.getActiveFork lateLondonConfig 0 12 =
      Hardfork.getActiveFork lateLondonConfig 8 12 := hjudges.fork
  exact absurd hfork (by decide +kernel)

end Sample

end Engine

end WasixEth
