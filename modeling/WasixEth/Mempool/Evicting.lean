import WasixEth.Mempool.NonceGaps

/-! # Evicting the worst transactions

Every round of the eviction drops the tail with the lowest tip, of the queued
transactions first. The scan starts from the largest number there is, so a tail
with that tip is never found: a pool with nothing else stays over capacity, and
pending transactions go while such queued ones remain.
-/

namespace WasixEth

open Search

namespace Mempool

/-! ## Tips and tails -/

/-- The tip of a transaction where the base fee fits in 128 bits. -/
def effectiveTip (tx : Transaction) (baseFee : Nat) : Nat :=
  if tx.maxFeePerGas < baseFee then 0
  else
    match tx.kind with
    | .legacy _ => tx.maxFeePerGas - baseFee
    | .eip2930 _ => tx.maxFeePerGas - baseFee
    | _ => min (tx.maxFeePerGas - baseFee) (tx.maxPriorityFeePerGas.getD 0)

theorem calculateEffectiveTip_of_lt {tx : Transaction} {baseFee : Nat} (h : baseFee < 2 ^ 128) :
    calculateEffectiveTip tx baseFee = some (effectiveTip tx baseFee) := by
  unfold calculateEffectiveTip effectiveTip toU128
  rw [if_pos h]
  dsimp only [Option.bind_eq_bind, Option.bind_some]
  split
  · rfl
  · cases tx.kind <;> rfl

theorem calculateEffectiveTip_of_not_lt {tx : Transaction} {baseFee : Nat}
    (h : ¬ baseFee < 2 ^ 128) : calculateEffectiveTip tx baseFee = none := by
  unfold calculateEffectiveTip toU128
  rw [if_neg h]
  rfl

/-- The last transaction of a sender's queue. -/
def Tail (pool : Mempool) (isPending : Bool) (address : Address) (tx : Transaction) : Prop :=
  (pool.queue isPending address).getLast? = some tx

/-- Some transaction is waiting in one of these queues. -/
def Waiting (pool : Mempool) (isPending : Bool) : Prop :=
  ∃ address, pool.queue isPending address ≠ []

/-- The queues whose tails may go: those of queued transactions while there
are any. -/
def Candidate (pool : Mempool) (isPending : Bool) : Prop :=
  isPending = true → ¬ pool.Waiting false

/-- From one pool to the next a tail has gone, the right one. -/
def EvictsRightly (pool pool' : Mempool) : Prop :=
  ∃ isPending address tx, pool.Tail isPending address tx ∧
    (∀ other ∈ pool.queue isPending address, other.nonce ≤ tx.nonce) ∧
    pool.Candidate isPending ∧
    (∀ address' tx', pool.Tail isPending address' tx' →
      effectiveTip tx pool.baseFee ≤ effectiveTip tx' pool.baseFee) ∧
    pool' = pool.evictBack isPending address

/-- The pools that the loop of the eviction comes through. -/
def visited (maxSize : Nat) : Nat → Mempool → List Mempool
  | 0, pool => [pool]
  | fuel + 1, pool =>
      if pool.len ≤ maxSize then [pool]
      else
        match pool.worstSender with
        | some (_, some (address, isPending)) =>
            pool :: visited maxSize fuel (pool.evictBack isPending address)
        | _ => [pool]

/-- The eviction comes to an end within capacity, and every round took the right
tail. -/
structure EvictedWell (pool : Mempool) (maxSize : Nat) : Prop where
  ends : ∀ fuel, pool.len ≤ fuel → evictLoop maxSize fuel pool = pool.enforceCapacity maxSize
  returns : (pool.enforceCapacity maxSize).2 = some ()
  within : (pool.enforceCapacity maxSize).1.len ≤ maxSize
  rightly : (visited maxSize pool.len pool).IsChain EvictsRightly

/-- How many transactions can go from the back of a queue before one with the
largest tip there is stands there. -/
def loose (baseFee : Nat) (txs : List Transaction) : Nat :=
  (txs.reverse.takeWhile fun tx => effectiveTip tx baseFee < 2 ^ 128 - 1).length

/-- A number for each queue, summed up. -/
def total (pool : Mempool) (isPending : Bool) (measure : List Transaction → Nat) : Nat :=
  ((pool.queues isPending).values.map measure).sum

/-- There is nothing to do, or the base fee fits in 128 bits and enough queued
transactions are loose, or they all are and enough pending ones with them. -/
def Evictable (pool : Mempool) (maxSize : Nat) : Prop :=
  pool.len ≤ maxSize ∨ pool.baseFee < 2 ^ 128 ∧
    (pool.len ≤ maxSize + pool.total false (loose pool.baseFee) ∨
      pool.total false (loose pool.baseFee) = pool.total false List.length ∧
        pool.len ≤ maxSize + pool.total false List.length +
          pool.total true (loose pool.baseFee))

/-! ## One scan -/

/-- What a scan of tails has found, on top of what it started from. -/
inductive Scans (pool : Mempool) (isPending : Bool) (start : Nat × Option (Address × Bool)) :
    Nat × Option (Address × Bool) → Prop
  | nothing (hall : ∀ address tx, pool.Tail isPending address tx →
      start.1 ≤ effectiveTip tx pool.baseFee) : Scans pool isPending start start
  | found {address : Address} {tx : Transaction} (htail : pool.Tail isPending address tx)
      (hlt : effectiveTip tx pool.baseFee < start.1)
      (hall : ∀ address' tx', pool.Tail isPending address' tx' →
        effectiveTip tx pool.baseFee ≤ effectiveTip tx' pool.baseFee) :
      Scans pool isPending start (effectiveTip tx pool.baseFee, some (address, isPending))

/-- The lowest tip among entries, from a start. -/
theorem scanWorst_cases {baseFee : Nat} (hfee : baseFee < 2 ^ 128) (isPending : Bool)
    (entries : List (Sigma fun _ : Address => List Transaction))
    (start : Nat × Option (Address × Bool)) :
    ∃ worst, scanWorst baseFee isPending entries start = some worst ∧
      worst.1 ≤ start.1 ∧
      (∀ entry ∈ entries, ∀ tx, entry.2.getLast? = some tx →
        worst.1 ≤ effectiveTip tx baseFee) ∧
      (worst = start ∨ ∃ entry ∈ entries, ∃ tx, entry.2.getLast? = some tx ∧
        worst = (effectiveTip tx baseFee, some (entry.1, isPending)) ∧
        effectiveTip tx baseFee < start.1) := by
  induction entries generalizing start with
  | nil =>
      refine ⟨start, rfl, Nat.le_refl _, ?_, .inl rfl⟩
      exact fun entry hmem => absurd hmem List.not_mem_nil
  | cons entry rest ih =>
      obtain ⟨address, txs⟩ := entry
      rw [scanWorst]
      cases hlast : txs.getLast? with
      | none =>
          obtain ⟨worst, hscan, hle, hall, hfound⟩ := ih start
          refine ⟨worst, hscan, hle, ?_, ?_⟩
          · refine List.forall_mem_cons.mpr ⟨?_, hall⟩
            intro tx htx
            rw [hlast] at htx
            cases htx
          · refine hfound.imp_right ?_
            rintro ⟨entry, hmem, htail⟩
            exact ⟨entry, List.mem_cons_of_mem _ hmem, htail⟩
      | some tx =>
          -- The entry has one last transaction, so a bound on its tip is a bound for the entry.
          have hbound : ∀ {low : Nat}, low ≤ effectiveTip tx baseFee → ∀ tx',
              txs.getLast? = some tx' → low ≤ effectiveTip tx' baseFee := by
            intro low hlow tx' htx
            rw [hlast] at htx
            obtain rfl := Option.some.inj htx
            exact hlow
          dsimp only
          rw [calculateEffectiveTip_of_lt hfee, Option.bind_eq_bind, Option.bind_some]
          split
          next hlt =>
              obtain ⟨worst, hscan, hle, hall, hfound⟩ :=
                ih (effectiveTip tx baseFee, some (address, isPending))
              refine ⟨worst, hscan, hle.trans hlt.le, ?_, .inr ?_⟩
              · exact List.forall_mem_cons.mpr ⟨hbound hle, hall⟩
              · rcases hfound with rfl | ⟨entry, hmem, tx', htail, hworst, hlt'⟩
                · exact ⟨_, List.mem_cons_self, tx, hlast, rfl, hlt⟩
                · exact ⟨entry, List.mem_cons_of_mem _ hmem, tx', htail, hworst, hlt'.trans hlt⟩
          next hge =>
              obtain ⟨worst, hscan, hle, hall, hfound⟩ := ih start
              refine ⟨worst, hscan, hle, ?_, ?_⟩
              · exact List.forall_mem_cons.mpr ⟨hbound (hle.trans (Nat.le_of_not_lt hge)), hall⟩
              · refine hfound.imp_right ?_
                rintro ⟨entry, hmem, htail⟩
                exact ⟨entry, List.mem_cons_of_mem _ hmem, htail⟩

theorem scanWorst_none {baseFee : Nat} (hfee : ¬ baseFee < 2 ^ 128) (isPending : Bool)
    (entries : List (Sigma fun _ : Address => List Transaction))
    (start : Nat × Option (Address × Bool)) :
    scanWorst baseFee isPending entries start = some start ∨
      scanWorst baseFee isPending entries start = none := by
  induction entries with
  | nil => exact .inl rfl
  | cons entry rest ih =>
      rw [scanWorst]
      split
      · exact ih
      · rw [calculateEffectiveTip_of_not_lt hfee]
        exact .inr rfl

/-- A tail stands in an entry. -/
theorem tail_iff {pool : Mempool} {isPending : Bool} {address : Address} {tx : Transaction} :
    pool.Tail isPending address tx ↔
      ∃ entry ∈ (pool.queues isPending).entries, entry.1 = address ∧
        entry.2.getLast? = some tx := by
  unfold Tail queue
  constructor
  · intro hlast
    cases hlookup : (pool.queues isPending).lookup address with
    | none =>
        rw [hlookup] at hlast
        cases hlast
    | some txs =>
        rw [hlookup] at hlast
        exact ⟨⟨address, txs⟩, DashMap.mem_entries.mpr hlookup, rfl, hlast⟩
  · rintro ⟨⟨address, txs⟩, hmem, rfl, hlast⟩
    rw [DashMap.mem_entries.mp hmem]
    exact hlast

theorem scans_of_scanWorst {pool : Mempool} (hfee : pool.baseFee < 2 ^ 128) (isPending : Bool)
    (start : Nat × Option (Address × Bool)) :
    ∃ worst, scanWorst pool.baseFee isPending (pool.queues isPending).entries start =
      some worst ∧ Scans pool isPending start worst := by
  obtain ⟨worst, hscan, hle, hall, hfound⟩ :=
    scanWorst_cases hfee isPending (pool.queues isPending).entries start
  refine ⟨worst, hscan, ?_⟩
  have htails : ∀ address tx, pool.Tail isPending address tx →
      worst.1 ≤ effectiveTip tx pool.baseFee := by
    intro address tx htail
    obtain ⟨entry, hmem, -, hlast⟩ := tail_iff.mp htail
    exact hall entry hmem tx hlast
  rcases hfound with rfl | ⟨entry, hmem, tx, hlast, rfl, hlt⟩
  · exact .nothing htails
  · exact .found (tail_iff.mpr ⟨entry, hmem, rfl, hlast⟩) hlt htails

/-! ## What a round changes -/

theorem loose_concat_of_lt {baseFee : Nat} {txs : List Transaction} {tx : Transaction}
    (h : effectiveTip tx baseFee < 2 ^ 128 - 1) :
    loose baseFee (txs ++ [tx]) = loose baseFee txs + 1 := by
  unfold loose
  rw [List.reverse_append, List.reverse_singleton, List.singleton_append,
    List.takeWhile_cons_of_pos (by simpa using h), List.length_cons]

theorem loose_concat_of_not_lt {baseFee : Nat} {txs : List Transaction} {tx : Transaction}
    (h : ¬ effectiveTip tx baseFee < 2 ^ 128 - 1) : loose baseFee (txs ++ [tx]) = 0 := by
  unfold loose
  rw [List.reverse_append, List.reverse_singleton, List.singleton_append,
    List.takeWhile_cons_of_neg (by simpa using h), List.length_nil]

theorem total_length (pool : Mempool) :
    pool.len = pool.total true List.length + pool.total false List.length := rfl

/-- A sum over the queues is one queue's part and the rest. -/
theorem exists_total_shrinkQueue (pool : Mempool) (isPending : Bool) (address : Address)
    (measure : List Transaction → Nat) (hnil : measure [] = 0) :
    ∃ rest, pool.total isPending measure = measure (pool.queue isPending address) + rest ∧
      ∀ txs, (pool.shrinkQueue isPending address txs).total isPending measure =
        measure txs + rest := by
  refine ⟨((DashMap.values ((pool.queues isPending).erase address)).map measure).sum, ?_, ?_⟩
  · unfold total queue
    rw [DashMap.sum_values measure _ address]
    cases (pool.queues isPending).lookup address with
    | none => rw [Option.elim_none, Option.getD_none, hnil]
    | some txs => rfl
  · intro txs
    unfold total shrinkQueue
    split
    next hempty =>
        unfold dropQueue
        rw [queues_withQueues, if_pos rfl, List.isEmpty_iff.mp hempty, hnil, Nat.zero_add]
    next =>
        unfold setQueue
        rw [queues_withQueues, if_pos rfl]
        rfl

theorem total_shrinkQueue_ne (pool : Mempool) {isPending other : Bool} (h : other ≠ isPending)
    (address : Address) (txs : List Transaction) (measure : List Transaction → Nat) :
    (pool.shrinkQueue isPending address txs).total other measure =
      pool.total other measure := by
  unfold total shrinkQueue
  split
  · unfold dropQueue
    rw [queues_withQueues, if_neg h]
  · unfold setQueue
    rw [queues_withQueues, if_neg h]

theorem baseFee_evictBack (pool : Mempool) (isPending : Bool) (address : Address) :
    (pool.evictBack isPending address).baseFee = pool.baseFee := by
  unfold evictBack shrinkQueue
  split <;> cases isPending <;> rfl

/-- Where the tail is loose, a round takes one from the sums of its kind. -/
theorem total_evictBack {pool : Mempool} {isPending : Bool} {address : Address}
    {tx : Transaction} (htail : pool.Tail isPending address tx)
    (hloose : effectiveTip tx pool.baseFee < 2 ^ 128 - 1) :
    (pool.evictBack isPending address).total isPending List.length + 1 =
        pool.total isPending List.length ∧
      (pool.evictBack isPending address).total isPending (loose pool.baseFee) + 1 =
        pool.total isPending (loose pool.baseFee) := by
  obtain ⟨before, hqueue⟩ := List.getLast?_eq_some_iff.mp htail
  unfold evictBack
  constructor
  · obtain ⟨rest, htotal, hshrink⟩ :=
      exists_total_shrinkQueue pool isPending address List.length rfl
    rw [htotal, hshrink, hqueue, List.dropLast_concat, List.length_append, List.length_singleton]
    omega
  · obtain ⟨rest, htotal, hshrink⟩ :=
      exists_total_shrinkQueue pool isPending address (loose pool.baseFee) rfl
    rw [htotal, hshrink, hqueue, List.dropLast_concat, loose_concat_of_lt hloose]
    omega

theorem len_evictBack {pool : Mempool} {isPending : Bool} {address : Address} {tx : Transaction}
    (htail : pool.Tail isPending address tx)
    (hloose : effectiveTip tx pool.baseFee < 2 ^ 128 - 1) :
    (pool.evictBack isPending address).len + 1 = pool.len := by
  have hlength := (total_evictBack htail hloose).1
  have hothers := total_shrinkQueue_ne pool (Bool.not_ne_self isPending) address
    (pool.queue isPending address).dropLast List.length
  rw [total_length, total_length]
  unfold evictBack at hlength ⊢
  cases isPending with
  | true =>
      rw [Bool.not_true] at hothers
      omega
  | false =>
      rw [Bool.not_false] at hothers
      omega

/-- Where no tail is loose, none of its kind is. -/
theorem total_loose_eq_zero {pool : Mempool} {isPending : Bool}
    (h : ∀ address tx, pool.Tail isPending address tx →
      2 ^ 128 - 1 ≤ effectiveTip tx pool.baseFee) :
    pool.total isPending (loose pool.baseFee) = 0 := by
  unfold total
  refine List.sum_eq_zero fun n hmem => ?_
  obtain ⟨txs, hvalue, rfl⟩ := List.mem_map.mp hmem
  obtain ⟨entry, hentry, rfl⟩ := List.mem_map.mp hvalue
  rcases List.eq_nil_or_concat entry.2 with hnil | ⟨before, tx, hconcat⟩
  · rw [hnil]
    rfl
  · have hlast : entry.2.getLast? = some tx := by
      rw [hconcat, List.concat_eq_append]
      exact List.getLast?_concat
    rw [hconcat, List.concat_eq_append]
    exact loose_concat_of_not_lt (Nat.not_lt.mpr
      (h entry.1 tx (tail_iff.mpr ⟨entry, hentry, rfl, hlast⟩)))

/-- A kind that counts nothing has nothing waiting. -/
theorem waiting_iff {pool : Mempool} {isPending : Bool} :
    pool.Waiting isPending ↔ pool.total isPending List.length ≠ 0 := by
  unfold Waiting
  constructor
  · rintro ⟨address, hne⟩
    obtain ⟨rest, htotal, -⟩ :=
      exists_total_shrinkQueue pool isPending address List.length rfl
    have hpos := List.length_pos_of_ne_nil hne
    omega
  · intro hne
    by_contra hnone
    push Not at hnone
    refine hne (List.sum_eq_zero fun n hmem => ?_)
    obtain ⟨txs, hvalue, rfl⟩ := List.mem_map.mp hmem
    obtain ⟨address, hlookup⟩ := DashMap.mem_values.mp hvalue
    have hqueue := hnone address
    unfold queue at hqueue
    rw [hlookup] at hqueue
    rw [show txs = [] from hqueue]
    rfl

/-! ## One round -/

/-- What the search for a victim comes to. -/
inductive Chooses (pool : Mempool) : Option (Nat × Option (Address × Bool)) → Prop
  | victim {isPending : Bool} {address : Address} {tx : Transaction} {tip : Nat}
      (hfee : pool.baseFee < 2 ^ 128) (htail : pool.Tail isPending address tx)
      (hloose : effectiveTip tx pool.baseFee < 2 ^ 128 - 1)
      (hlowest : ∀ address' tx', pool.Tail isPending address' tx' →
        effectiveTip tx pool.baseFee ≤ effectiveTip tx' pool.baseFee)
      (hqueued : isPending = true → pool.total false (loose pool.baseFee) = 0) :
      Chooses pool (some (tip, some (address, isPending)))
  | stuck {tip : Nat} (hqueued : pool.total false (loose pool.baseFee) = 0)
      (hpending : pool.total true (loose pool.baseFee) = 0) : Chooses pool (some (tip, none))
  | large {outcome : Option (Nat × Option (Address × Bool))} (hfee : ¬ pool.baseFee < 2 ^ 128)
      (hnobody : ∀ tip victim, outcome ≠ some (tip, some victim)) : Chooses pool outcome

theorem chooses_worstSender (pool : Mempool) : Chooses pool pool.worstSender := by
  unfold worstSender
  by_cases hfee : pool.baseFee < 2 ^ 128
  · obtain ⟨worst, hscan, hqueued⟩ := scans_of_scanWorst hfee false (2 ^ 128 - 1, none)
    rw [show pool.queuedTransactions = pool.queues false from rfl, hscan]
    cases hqueued with
    | nothing hall =>
        have hnone := total_loose_eq_zero hall
        obtain ⟨worst, hscan', hpending⟩ := scans_of_scanWorst hfee true (2 ^ 128 - 1, none)
        dsimp only [Option.bind_eq_bind, Option.bind_some, Option.isNone_none, Bool.true_or,
          if_true]
        rw [show pool.pendingTransactions = pool.queues true from rfl, hscan']
        cases hpending with
        | nothing hall' => exact .stuck hnone (total_loose_eq_zero hall')
        | found htail hlt hall' => exact .victim hfee htail hlt hall' fun _ => hnone
    | found htail hlt hall =>
        obtain ⟨entry, hmem, -, -⟩ := tail_iff.mp htail
        have hempty : (pool.queues false).entries.isEmpty = false :=
          List.isEmpty_eq_false_iff.mpr (List.ne_nil_of_mem hmem)
        dsimp only [Option.bind_eq_bind, Option.bind_some, Option.isNone_some, Bool.false_or]
        rw [hempty]
        exact .victim hfee htail hlt hall nofun
  · refine .large hfee ?_
    intro tip victim h
    rcases scanWorst_none hfee false pool.queuedTransactions.entries (2 ^ 128 - 1, none) with
      hscan | hscan
    · rw [hscan] at h
      simp only [Option.bind_eq_bind, Option.bind_some, Option.isNone_none, Bool.true_or,
        if_true] at h
      rcases scanWorst_none hfee true pool.pendingTransactions.entries (2 ^ 128 - 1, none) with
        hscan' | hscan'
      · rw [hscan'] at h
        cases h
      · rw [hscan'] at h
        cases h
    · rw [hscan] at h
      cases h

/-- A pending victim is the wrong one while queued transactions wait. -/
theorem not_evictsRightly {pool : Mempool} (h : pool.Waiting false) (address : Address) :
    ¬ EvictsRightly pool (pool.evictBack true address) := by
  rintro ⟨isPending, address', tx, htail, -, hcandidate, -, heq⟩
  cases isPending with
  | true => exact hcandidate rfl h
  | false =>
      obtain ⟨before, hqueue⟩ := List.getLast?_eq_some_iff.mp htail
      have hsame : (pool.evictBack true address).queue false address' =
          (pool.evictBack false address').queue false address' := by
        rw [heq]
      rw [queue_evictBack, queue_evictBack, if_neg (by simp), if_pos ⟨rfl, rfl⟩, hqueue,
        List.dropLast_concat] at hsame
      have hlength := congrArg List.length hsame
      rw [List.length_append, List.length_singleton] at hlength
      omega

/-- The victim of a round is the right one if it is queued or nobody is. -/
theorem evictsRightly_of_victim {pool : Mempool} {isPending : Bool} {address : Address}
    {tx : Transaction} (hincreasing : ∀ isPending address,
      Increasing Transaction.nonce (pool.queue isPending address))
    (htail : pool.Tail isPending address tx)
    (hlowest : ∀ address' tx', pool.Tail isPending address' tx' →
      effectiveTip tx pool.baseFee ≤ effectiveTip tx' pool.baseFee)
    (hcandidate : pool.Candidate isPending) :
    EvictsRightly pool (pool.evictBack isPending address) :=
  ⟨isPending, address, tx, htail, SenderQueues.le_getLast (hincreasing isPending address) htail,
    hcandidate, hlowest, rfl⟩

/-! ## The whole eviction -/

theorem visited_cons (maxSize fuel : Nat) (pool : Mempool) :
    ∃ rest, visited maxSize fuel pool = pool :: rest := by
  cases fuel with
  | zero => exact ⟨[], rfl⟩
  | succ fuel =>
      unfold visited
      split
      · exact ⟨[], rfl⟩
      · split
        · exact ⟨_, rfl⟩
        · exact ⟨[], rfl⟩

theorem isChain_visited {maxSize fuel : Nat} {pool pool' : Mempool} :
    (pool :: visited maxSize fuel pool').IsChain EvictsRightly ↔
      EvictsRightly pool pool' ∧ (visited maxSize fuel pool').IsChain EvictsRightly := by
  obtain ⟨rest, hvisited⟩ := visited_cons maxSize fuel pool'
  rw [hvisited]
  exact List.isChain_cons_cons

/-- Where no victim is chosen there is no outcome, or one that names nobody. -/
theorem names_nobody {outcome : Option (Nat × Option (Address × Bool))}
    (hnobody : ∀ tip victim, outcome ≠ some (tip, some victim)) :
    outcome = none ∨ ∃ tip, outcome = some (tip, none) := by
  rcases outcome with _ | ⟨tip, _ | victim⟩
  · exact .inl rfl
  · exact .inr ⟨tip, rfl⟩
  · exact absurd rfl (hnobody tip victim)

/-- Fuel beyond the number of transactions makes no difference. -/
theorem evictLoop_of_le {maxSize fuel fuel' : Nat} {pool : Mempool} (hfuel : pool.len ≤ fuel)
    (hle : fuel ≤ fuel') : evictLoop maxSize fuel' pool = evictLoop maxSize fuel pool := by
  induction fuel generalizing pool fuel' with
  | zero =>
      cases fuel' with
      | zero => rfl
      | succ fuel' =>
          unfold evictLoop
          rw [if_pos (hfuel.trans (Nat.zero_le _))]
  | succ fuel ih =>
      obtain ⟨fuel', rfl⟩ : ∃ n, fuel' = n + 1 := Nat.exists_eq_add_one.mpr (by omega)
      rw [evictLoop, evictLoop]
      split
      · rfl
      · have hchoice := chooses_worstSender pool
        generalize pool.worstSender = outcome at hchoice
        cases hchoice with
        | large hfee hnobody =>
            obtain rfl | ⟨tip, rfl⟩ := names_nobody hnobody
            · rfl
            · rfl
        | stuck => rfl
        | victim hfee htail hloose =>
            have hlen := len_evictBack htail hloose
            exact ih (by omega) (by omega)

/-- With as much fuel as there are transactions. -/
theorem evictLoop_iff {maxSize fuel : Nat} {pool : Mempool} (hfuel : pool.len ≤ fuel)
    (hincreasing : ∀ isPending address,
      Increasing Transaction.nonce (pool.queue isPending address)) :
    ((evictLoop maxSize fuel pool).2 = some () ∧ (evictLoop maxSize fuel pool).1.len ≤ maxSize ∧
      (visited maxSize fuel pool).IsChain EvictsRightly) ↔ pool.Evictable maxSize := by
  induction fuel generalizing pool with
  | zero =>
      have hlen : pool.len ≤ maxSize := hfuel.trans (Nat.zero_le _)
      exact ⟨fun _ => .inl hlen, fun _ => ⟨rfl, hlen, List.isChain_singleton _⟩⟩
  | succ fuel ih =>
      rw [evictLoop, visited]
      split
      next hlen => exact ⟨fun _ => .inl hlen, fun _ => ⟨rfl, hlen, List.isChain_singleton _⟩⟩
      next hlen =>
      have htotal := total_length pool
      have hchoice := chooses_worstSender pool
      unfold Evictable
      generalize pool.worstSender = outcome at hchoice
      cases hchoice with
      | large hfee hnobody =>
          have hnot : ¬ pool.Evictable maxSize := by
            rintro (h | ⟨h, -⟩)
            · exact hlen h
            · exact hfee h
          refine iff_of_false ?_ hnot
          obtain rfl | ⟨tip, rfl⟩ := names_nobody hnobody
          · simp
          · exact fun h => hlen h.2.1
      | stuck hqueued hpending =>
          refine iff_of_false (fun h => hlen h.2.1) ?_
          rintro (h | ⟨-, h | ⟨heq, h⟩⟩)
          · exact hlen h
          · omega
          · omega
      | @victim isPending address tx tip hfee htail hloose hlowest hqueued =>
          dsimp only
          rw [isChain_visited]
          obtain ⟨hlength, hloosened⟩ := total_evictBack htail hloose
          have hbase := baseFee_evictBack pool isPending address
          have hone := len_evictBack htail hloose
          have hothers : ∀ measure, (pool.evictBack isPending address).total (!isPending) measure =
              pool.total (!isPending) measure :=
            total_shrinkQueue_ne pool (Bool.not_ne_self isPending) address _
          have hincreasing' : ∀ other at',
              Increasing Transaction.nonce ((pool.evictBack isPending address).queue other at') :=
            fun other at' => (hincreasing other at').sublist
              (Evicts.shrinks ⟨isPending, address, rfl⟩ other at')
          cases isPending with
          | false =>
              have hpending : ∀ measure, (pool.evictBack false address).total true measure =
                  pool.total true measure := hothers
              have hpendingLength := hpending List.length
              have hrightly := evictsRightly_of_victim hincreasing htail hlowest (by simp [Candidate])
              rw [and_iff_right hrightly, ih (by omega) hincreasing']
              unfold Evictable
              rw [hbase, hpending]
              omega
          | true =>
              have hqueued' : ∀ measure, (pool.evictBack true address).total false measure =
                  pool.total false measure := hothers
              have hqueuedLength := hqueued' List.length
              by_cases hwaiting : pool.Waiting false
              · have hcount := waiting_iff.mp hwaiting
                refine iff_of_false (fun h => not_evictsRightly hwaiting address h.2.2.1) ?_
                have hnone := hqueued rfl
                omega
              · have hcount : pool.total false List.length = 0 := by
                  by_contra hne
                  exact hwaiting (waiting_iff.mpr hne)
                have hrightly := evictsRightly_of_victim hincreasing htail hlowest
                  fun _ => hwaiting
                rw [and_iff_right hrightly, ih (by omega) hincreasing']
                have hnone := hqueued rfl
                unfold Evictable
                rw [hbase, hqueued', hqueued']
                omega

/-- The eviction brings the pool within capacity through the right victims where
enough transactions are loose at the backs of the queues. -/
theorem evictedWell_iff (pool : Mempool) (maxSize : Nat) (hincreasing : ∀ isPending address,
    Increasing Transaction.nonce (pool.queue isPending address)) :
    pool.EvictedWell maxSize ↔ pool.Evictable maxSize := by
  rw [← evictLoop_iff (Nat.le_refl _) hincreasing]
  have hends : ∀ fuel, pool.len ≤ fuel →
      evictLoop maxSize fuel pool = pool.enforceCapacity maxSize :=
    fun fuel hfuel => evictLoop_of_le (Nat.le_refl _) hfuel
  exact ⟨fun h => ⟨h.returns, h.within, h.rightly⟩, fun h => ⟨hends, h.1, h.2.1, h.2.2⟩⟩

/-- A queued transaction and a pending one of another sender. -/
def twoSenders (queuedPrice : Nat) : Mempool :=
  ((Mempool.new 0).setQueue false (.trailing 1) [sampleTx 3 queuedPrice]).setQueue true
    (.trailing 2) [sampleTx 0 5]

theorem increasing_twoSenders (queuedPrice : Nat) (isPending : Bool) (address : Address) :
    Increasing Transaction.nonce ((twoSenders queuedPrice).queue isPending address) := by
  unfold twoSenders
  rw [queue_setQueue]
  split
  · exact List.pairwise_singleton _ _
  · rw [queue_setQueue]
    split
    · exact List.pairwise_singleton _ _
    · cases isPending <;> exact List.Pairwise.nil

theorem evictedWell_twoSenders : (twoSenders 7).EvictedWell 0 :=
  (evictedWell_iff (twoSenders 7) 0 (increasing_twoSenders 7)).mpr
    (.inr ⟨by decide, .inr ⟨by decide, by decide⟩⟩)

/-- With the largest price there is, the queued transaction outlives the pending one
and never goes. -/
theorem not_evictedWell_twoSenders : (∀ isPending address, Increasing Transaction.nonce
    ((twoSenders (2 ^ 128 - 1)).queue isPending address)) ∧
    ¬ (twoSenders (2 ^ 128 - 1)).EvictedWell 0 :=
  ⟨increasing_twoSenders _, fun h => absurd h.within (by decide)⟩

end Mempool

end WasixEth
