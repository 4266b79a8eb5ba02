import WasixEth.Mempool.Admission
import Mathlib.Data.List.Chain

/-! # Gaps between pending nonces

Pending transactions of a sender are meant to follow on from each other. They do
along every run whose operations keep to what the queues are prepared for: a
transaction that joins the pending ones does so at an end, and those that are
removed leave no hole.
-/

namespace WasixEth

open Search Mempool

/-- Each nonce is the one before plus one. -/
def Consecutive (txs : List Transaction) : Prop :=
  (txs.map Transaction.nonce).IsChain fun a b => b = a + 1

namespace Consecutive

theorem part {txs txs' : List Transaction} (h : Consecutive txs) (hpart : txs' <:+: txs) :
    Consecutive txs' := by
  obtain ⟨before, after, rfl⟩ := hpart
  unfold Consecutive at h
  rw [List.map_append, List.map_append] at h
  exact h.left_of_append.right_of_append

theorem append_iff {low high : List Transaction} : Consecutive (low ++ high) ↔
    Consecutive low ∧ Consecutive high ∧
      ∀ a ∈ low.getLast?, ∀ b ∈ high.head?, b.nonce = a.nonce + 1 := by
  unfold Consecutive
  rw [List.map_append, List.isChain_append, List.getLast?_map, List.head?_map]
  simp only [Option.mem_def, Option.map_eq_some_iff, forall_exists_index, and_imp,
    forall_apply_eq_imp_iff₂]

theorem nil : Consecutive [] := List.isChain_nil

theorem singleton (tx : Transaction) : Consecutive [tx] := List.isChain_singleton _

theorem congr {txs txs' : List Transaction} (h : Consecutive txs)
    (hnonces : txs'.map Transaction.nonce = txs.map Transaction.nonce) : Consecutive txs' := by
  unfold Consecutive
  rw [hnonces]
  exact h

end Consecutive

namespace SenderQueues

def IsPending (queues : SenderQueues) (nonce : Nat) : Prop :=
  ∃ tx ∈ queues.pending, tx.nonce = nonce

def IsQueued (queues : SenderQueues) (nonce : Nat) : Prop :=
  ∃ tx ∈ queues.queued, tx.nonce = nonce

/-- What is to hold of the queues of a sender: no gap, and no nonce twice. -/
structure Gapless (queues : SenderQueues) : Prop where
  consecutive : Consecutive queues.pending
  disjoint : ∀ nonce, queues.IsPending nonce → ¬ queues.IsQueued nonce

/-- A nonce from which on the pending transactions can grow: behind the last of
them, or before the first if everything in between is queued. -/
def Joins (queues : SenderQueues) (nonce : Nat) : Prop :=
  queues.pending = [] ∨ (∃ last ∈ queues.pending.getLast?, nonce = last.nonce + 1) ∨
    ∃ first ∈ queues.pending.head?, nonce < first.nonce ∧
      ∀ between, nonce < between → between < first.nonce → queues.IsQueued between

/-- A transaction that can be put in a queue without a gap or a second nonce. -/
def Admits (queues : SenderQueues) (tx : Transaction) (isPending : Bool) : Prop :=
  if isPending then
    queues.IsPending tx.nonce ∨ ¬ queues.IsQueued tx.nonce ∧ queues.Joins tx.nonce
  else ¬ queues.IsPending tx.nonce

/-- Without gaps, and with nonces that are numbers of 64 bits. -/
structure Tidy (queues : SenderQueues) : Prop extends Gapless queues where
  bounded : ∀ tx, tx ∈ queues.pending ∨ tx ∈ queues.queued → tx.nonce < 2 ^ 64
  positive : ¬ queues.IsQueued 0

theorem Tidy.shrink {queues queues' : SenderQueues} (h : queues.Tidy)
    (hpending : queues'.pending <:+: queues.pending)
    (hqueued : queues'.queued.Sublist queues.queued) : queues'.Tidy where
  consecutive := h.consecutive.part hpending
  disjoint := by
    rintro nonce ⟨tx, hmem, rfl⟩ ⟨other, hother, hnonce⟩
    exact h.disjoint tx.nonce ⟨tx, hpending.subset hmem, rfl⟩
      ⟨other, hqueued.subset hother, hnonce⟩
  bounded := by
    rintro tx (hmem | hmem)
    · exact h.bounded tx (Or.inl (hpending.subset hmem))
    · exact h.bounded tx (Or.inr (hqueued.subset hmem))
  positive := by
    rintro ⟨tx, hmem, hnonce⟩
    exact h.positive ⟨tx, hqueued.subset hmem, hnonce⟩

/-- Only the nonces matter. -/
theorem Tidy.congr {queues queues' : SenderQueues} (h : queues.Tidy)
    (hpending : queues'.pending.map Transaction.nonce = queues.pending.map Transaction.nonce)
    (hqueued : queues'.queued.map Transaction.nonce = queues.queued.map Transaction.nonce) :
    queues'.Tidy := by
  have hmem : ∀ {txs txs' : List Transaction}, txs'.map Transaction.nonce =
      txs.map Transaction.nonce → ∀ tx ∈ txs', ∃ tx' ∈ txs, tx'.nonce = tx.nonce := by
    intro txs txs' heq tx hmem
    exact List.mem_map.mp (heq ▸ List.mem_map_of_mem hmem)
  constructor
  · constructor
    · exact h.consecutive.congr hpending
    · rintro nonce ⟨tx, htx, rfl⟩ ⟨other, hother, hnonce⟩
      obtain ⟨tx', htx', heq⟩ := hmem hpending tx htx
      obtain ⟨other', hother', heq'⟩ := hmem hqueued other hother
      exact h.disjoint _ ⟨tx', htx', heq⟩ ⟨other', hother', heq'.trans hnonce⟩
  · rintro tx (htx | htx)
    · obtain ⟨tx', htx', heq⟩ := hmem hpending tx htx
      exact heq ▸ h.bounded tx' (Or.inl htx')
    · obtain ⟨tx', htx', heq⟩ := hmem hqueued tx htx
      exact heq ▸ h.bounded tx' (Or.inr htx')
  · rintro ⟨tx, htx, hzero⟩
    obtain ⟨tx', htx', heq⟩ := hmem hqueued tx htx
    exact h.positive ⟨tx', htx', heq.trans hzero⟩

/-- A queued transaction whose nonce is not pending. -/
theorem Tidy.queue {queues : SenderQueues} {before after : List Transaction} {tx : Transaction}
    (h : queues.Tidy) (hsplit : queues.queued = before ++ after) (hnonce : tx.nonce < 2 ^ 64)
    (hpos : 0 < tx.nonce) (hpending : ¬ queues.IsPending tx.nonce) :
    Tidy ⟨queues.pending, before ++ tx :: after⟩ := by
  have hmembers : ∀ other, other ∈ before ++ tx :: after → other = tx ∨ other ∈ queues.queued := by
    intro other hmem
    rw [hsplit]
    exact List.mem_cons.mp (List.perm_middle.mem_iff.mp hmem)
  constructor
  · constructor
    · exact h.consecutive
    · rintro nonce hnonce ⟨other, hmem, rfl⟩
      rcases hmembers other hmem with rfl | hmem
      · exact hpending hnonce
      · exact h.disjoint _ hnonce ⟨other, hmem, rfl⟩
  · rintro other (hmem | hmem)
    · exact h.bounded other (Or.inl hmem)
    · rcases hmembers other hmem with rfl | hmem
      · exact hnonce
      · exact h.bounded other (Or.inr hmem)
  · rintro ⟨other, hmem, hzero⟩
    rcases hmembers other hmem with rfl | hmem
    · omega
    · exact h.positive ⟨other, hmem, hzero⟩

/-! ## Promotion closes gaps -/

/-- The state of the promotion when it looks for `nonce`: the pending transactions
below end right before it, and everything up to those above is queued. -/
structure Filling (queues : SenderQueues) (nonce : Nat) (low high : List Transaction) :
    Prop where
  split : queues.pending = low ++ high
  lowConsecutive : Consecutive low
  lowLast : ∀ last ∈ low.getLast?, nonce = last.nonce + 1
  highConsecutive : Consecutive high
  highFirst : ∀ first ∈ high.head?, nonce ≤ first.nonce
  filled : ∀ first ∈ high.head?, ∀ between, nonce ≤ between → between < first.nonce →
    queues.IsQueued between
  disjoint : ∀ nonce, queues.IsPending nonce → ¬ queues.IsQueued nonce
  bounded : ∀ tx, tx ∈ queues.pending ∨ tx ∈ queues.queued → tx.nonce < 2 ^ 64
  positive : ¬ queues.IsQueued 0

/-- Nothing to promote: the parts have met. -/
theorem Filling.finish {queues : SenderQueues} {nonce : Nat} {low high : List Transaction}
    (h : queues.Filling nonce low high) (hnonce : ¬ queues.IsQueued nonce) : queues.Tidy where
  consecutive := by
    rw [h.split, Consecutive.append_iff]
    refine ⟨h.lowConsecutive, h.highConsecutive, ?_⟩
    intro last hlast first hfirst
    rw [← h.lowLast last hlast]
    refine Nat.le_antisymm ?_ (h.highFirst first hfirst)
    exact Nat.le_of_not_lt fun hlt => hnonce (h.filled first hfirst nonce (Nat.le_refl _) hlt)
  disjoint := h.disjoint
  bounded := h.bounded
  positive := h.positive

theorem eq_of_append_eq {low high low' high' : List Transaction} {tx : Transaction}
    (h : low ++ high = low' ++ high') (hfits : Fits low tx high) (hfits' : Fits low' tx high') :
    low = low' ∧ high = high' := by
  induction low generalizing low' with
  | nil =>
      cases low' with
      | nil => exact ⟨rfl, h⟩
      | cons first low' =>
          have hlt := hfits'.low first List.mem_cons_self
          have hhigh : high = first :: low' ++ high' := h
          have hgt := hfits.high first (hhigh ▸ List.mem_cons_self)
          omega
  | cons first low ih =>
      cases low' with
      | nil =>
          have hlt := hfits.low first List.mem_cons_self
          have hhigh : high' = first :: low ++ high := h.symm
          have hgt := hfits'.high first (hhigh ▸ List.mem_cons_self)
          omega
      | cons first' low' =>
          obtain ⟨rfl, hrest⟩ := List.cons_eq_cons.mp h
          obtain ⟨rfl, rfl⟩ := ih hrest
            ⟨fun other hmem => hfits.low other (.tail _ hmem), hfits.high⟩
            ⟨fun other hmem => hfits'.low other (.tail _ hmem), hfits'.high⟩
          exact ⟨rfl, rfl⟩

/-- The last of consecutive nonces is the highest, the first the lowest. -/
theorem le_getLast {txs : List Transaction} (h : Increasing Transaction.nonce txs)
    {last : Transaction} (hlast : last ∈ txs.getLast?) : ∀ tx ∈ txs, tx.nonce ≤ last.nonce := by
  obtain ⟨before, rfl⟩ := List.getLast?_eq_some_iff.mp hlast
  intro tx hmem
  rcases List.mem_append.mp hmem with hmem | hmem
  · exact ((increasing_append_iff.mp h).2.2 tx hmem last (List.mem_singleton.mpr rfl)).le
  · rw [List.mem_singleton.mp hmem]

theorem head_le {txs : List Transaction} (h : Increasing Transaction.nonce txs)
    {first : Transaction} (hfirst : first ∈ txs.head?) : ∀ tx ∈ txs, first.nonce ≤ tx.nonce := by
  obtain ⟨rest, rfl⟩ := List.head?_eq_some_iff.mp hfirst
  intro tx hmem
  rcases List.mem_cons.mp hmem with rfl | hmem
  · exact Nat.le_refl _
  · exact ((List.pairwise_cons.mp h).1 tx hmem).le

/-- The parts stand on the two sides of a nonce that is queued. -/
theorem Filling.fits {queues : SenderQueues} {nonce : Nat} {low high : List Transaction}
    (h : queues.Filling nonce low high) (hincreasing : Increasing Transaction.nonce queues.pending)
    {tx : Transaction} (htx : tx ∈ queues.queued) (hnonce : tx.nonce = nonce) :
    Fits low tx high := by
  rw [h.split] at hincreasing
  obtain ⟨hlow, hhigh, -⟩ := increasing_append_iff.mp hincreasing
  constructor
  · intro other hmem
    cases hlast : low.getLast? with
    | none =>
        rw [List.getLast?_eq_none_iff.mp hlast] at hmem
        cases hmem
    | some last =>
        have hle := le_getLast hlow hlast other hmem
        have hend := h.lowLast last hlast
        omega
  · intro other hmem
    have hpending : other ∈ queues.pending := h.split ▸ List.mem_append_right _ hmem
    have hne : other.nonce ≠ tx.nonce := fun heq =>
      h.disjoint _ ⟨other, hpending, heq⟩ ⟨tx, htx, rfl⟩
    cases hfirst : high.head? with
    | none =>
        rw [List.head?_eq_none_iff.mp hfirst] at hmem
        cases hmem
    | some first =>
        have hle := head_le hhigh hfirst other hmem
        have hstart := h.highFirst first hfirst
        omega

/-- One promotion moves the lower part up by one. -/
theorem Filling.move {queues : SenderQueues} {nonce : Nat}
    {low high before after : List Transaction}
    {tx : Transaction} (h : queues.Filling nonce low high)
    (hincreasing : Increasing Transaction.nonce queues.pending)
    (hqueued : queues.queued = before ++ tx :: after)
    (hincreasing' : Increasing Transaction.nonce queues.queued) (hnonce : tx.nonce = nonce) :
    Filling ⟨low ++ tx :: high, before ++ after⟩ (nonce + 1) (low ++ [tx]) high := by
  have htx : tx ∈ queues.queued := hqueued ▸ List.mem_append_right _ List.mem_cons_self
  have hfits := h.fits hincreasing htx hnonce
  rw [hqueued] at hincreasing'
  have hfits' := fits_of_increasing hincreasing'
  have hstays : ∀ other, other ∈ before ++ after ↔ other ∈ queues.queued ∧ other.nonce ≠ nonce := by
    intro other
    rw [hqueued, List.mem_append, List.mem_append, List.mem_cons]
    constructor
    · rintro (hmem | hmem)
      · exact ⟨Or.inl hmem, hnonce ▸ (hfits'.low other hmem).ne⟩
      · exact ⟨Or.inr (Or.inr hmem), hnonce ▸ (hfits'.high other hmem).ne'⟩
    · rintro ⟨hmem | rfl | hmem, hne⟩
      · exact Or.inl hmem
      · exact absurd hnonce hne
      · exact Or.inr hmem
  have hmembers : ∀ other, other ∈ low ++ tx :: high → other = tx ∨ other ∈ queues.pending := by
    intro other hmem
    rw [h.split]
    exact List.mem_cons.mp (List.perm_middle.mem_iff.mp hmem)
  constructor
  · simp
  · refine Consecutive.append_iff.mpr ⟨h.lowConsecutive, .singleton tx, ?_⟩
    intro last hlast first hfirst
    cases hfirst
    rw [hnonce, h.lowLast last hlast]
  · intro last hlast
    rw [List.getLast?_concat] at hlast
    cases hlast
    rw [hnonce]
  · exact h.highConsecutive
  · intro first hfirst
    have hlt := hfits.high first (List.mem_of_mem_head? hfirst)
    omega
  · intro first hfirst between hle hlt
    obtain ⟨other, hmem, hother⟩ := h.filled first hfirst between (by omega) hlt
    exact ⟨other, (hstays other).mpr ⟨hmem, by omega⟩, hother⟩
  · rintro k ⟨other, hmem, rfl⟩ ⟨twin, htwin, hsame⟩
    obtain ⟨htwin, hne⟩ := (hstays twin).mp htwin
    rcases hmembers other hmem with rfl | hmem
    · exact hne (hsame.trans hnonce)
    · exact h.disjoint _ ⟨other, hmem, rfl⟩ ⟨twin, htwin, hsame⟩
  · rintro other (hmem | hmem)
    · rcases hmembers other hmem with rfl | hmem
      · exact h.bounded other (Or.inr htx)
      · exact h.bounded other (Or.inl hmem)
    · exact h.bounded other (Or.inr ((hstays other).mp hmem).1)
  · rintro ⟨other, hmem, hzero⟩
    exact h.positive ⟨other, ((hstays other).mp hmem).1, hzero⟩

theorem Tidy.filling {queues : SenderQueues} (h : queues.Tidy) {nonce : Nat}
    (hqueued : queues.IsQueued nonce) (hjoins : queues.Joins nonce) :
    ∃ low high, queues.Filling nonce low high := by
  rcases hjoins with hempty | ⟨last, hlast, hnonce⟩ | ⟨first, hfirst, hlt, hfilled⟩
  · exact ⟨[], [], hempty, .nil, nofun, .nil, nofun, nofun, h.disjoint, h.bounded, h.positive⟩
  · refine ⟨queues.pending, [], (List.append_nil _).symm, h.consecutive, ?_, .nil, nofun, nofun,
      h.disjoint, h.bounded, h.positive⟩
    intro other hother
    cases hlast.symm.trans hother
    exact hnonce
  · refine ⟨[], queues.pending, rfl, .nil, nofun, h.consecutive, ?_, ?_, h.disjoint, h.bounded,
      h.positive⟩
    · intro other hother
      cases hfirst.symm.trans hother
      exact hlt.le
    · intro other hother between hle hbetween
      cases hfirst.symm.trans hother
      rcases Nat.eq_or_lt_of_le hle with rfl | hlt
      · exact hqueued
      · exact hfilled between hlt hbetween

/-- A transaction that joins the pending ones at an end. -/
theorem Tidy.inserted {queues : SenderQueues} {before after : List Transaction} {tx : Transaction}
    (h : queues.Tidy) (hincreasing : Increasing Transaction.nonce queues.pending)
    (hsplit : queues.pending = before ++ after) (hfits : Fits before tx after)
    (hnonce : tx.nonce < 2 ^ 64) (hqueued : ¬ queues.IsQueued tx.nonce)
    (hjoins : queues.Joins tx.nonce) :
    ∃ low high, Filling ⟨before ++ tx :: after, queues.queued⟩ (tx.nonce + 1) low high := by
  have hmembers : ∀ other, other ∈ before ++ tx :: after → other = tx ∨ other ∈ queues.pending := by
    intro other hmem
    rw [hsplit]
    exact List.mem_cons.mp (List.perm_middle.mem_iff.mp hmem)
  have hdisjoint : ∀ nonce, IsPending ⟨before ++ tx :: after, queues.queued⟩ nonce →
      ¬ IsQueued ⟨before ++ tx :: after, queues.queued⟩ nonce := by
    rintro nonce ⟨other, hmem, rfl⟩ hother
    rcases hmembers other hmem with rfl | hmem
    · exact hqueued hother
    · exact h.disjoint _ ⟨other, hmem, rfl⟩ hother
  have hbounded : ∀ other, other ∈ before ++ tx :: after ∨ other ∈ queues.queued →
      other.nonce < 2 ^ 64 := by
    rintro other (hmem | hmem)
    · rcases hmembers other hmem with rfl | hmem
      · exact hnonce
      · exact h.bounded other (Or.inl hmem)
    · exact h.bounded other (Or.inr hmem)
  rcases hjoins with hempty | ⟨last, hlast, hend⟩ | ⟨first, hfirst, hlt, hfilled⟩
  · obtain ⟨rfl, rfl⟩ := List.append_eq_nil_iff.mp (hsplit.symm.trans hempty)
    refine ⟨[tx], [], rfl, .singleton tx, ?_, .nil, nofun, nofun, hdisjoint, hbounded, h.positive⟩
    rintro other ⟨⟩
    rfl
  · -- Everything pending is below the new transaction.
    obtain rfl : after = [] := by
      refine List.eq_nil_iff_forall_not_mem.mpr fun other hmem => ?_
      have hle := le_getLast hincreasing hlast other (hsplit ▸ List.mem_append_right _ hmem)
      have hgt := hfits.high other hmem
      omega
    rw [List.append_nil] at hsplit
    subst hsplit
    refine ⟨queues.pending ++ [tx], [], (List.append_nil _).symm, ?_, ?_, .nil, nofun, nofun,
      hdisjoint, hbounded, h.positive⟩
    · refine Consecutive.append_iff.mpr ⟨h.consecutive, .singleton tx, ?_⟩
      rintro other hother _ ⟨⟩
      cases hlast.symm.trans hother
      exact hend
    · intro other hother
      rw [List.getLast?_concat] at hother
      cases hother
      rfl
  · -- Everything pending is above the new transaction.
    obtain rfl : before = [] := by
      refine List.eq_nil_iff_forall_not_mem.mpr fun other hmem => ?_
      have hle := head_le hincreasing hfirst other (hsplit ▸ List.mem_append_left _ hmem)
      have hgt := hfits.low other hmem
      omega
    obtain rfl : queues.pending = after := hsplit
    refine ⟨[tx], queues.pending, rfl, .singleton tx, ?_, h.consecutive, ?_, ?_, hdisjoint,
      hbounded, h.positive⟩
    · rintro other ⟨⟩
      rfl
    · intro other hother
      cases hfirst.symm.trans hother
      exact hlt
    · intro other hother between hle hbetween
      cases hfirst.symm.trans hother
      exact hfilled between hle hbetween

end SenderQueues

namespace Mempool

open SenderQueues

theorem isQueued_of_eq {pool : Mempool} {address : Address} {before after : List Transaction}
    {tx : Transaction} (h : pool.queue false address = before ++ tx :: after) :
    (pool.senderQueues address).IsQueued tx.nonce := by
  refine ⟨tx, ?_, rfl⟩
  unfold senderQueues
  rw [h]
  exact List.mem_append_right _ List.mem_cons_self

theorem promoteLoop_of_not_queued {pool : Mempool} {address : Address} {fuel nonce : Nat}
    (hqueued : Increasing Transaction.nonce (pool.queue false address))
    (hpending : Increasing Transaction.nonce (pool.queue true address))
    (h : ¬ (pool.senderQueues address).IsQueued nonce) :
    promoteLoop address fuel pool nonce = pool := by
  cases fuel with
  | zero => rfl
  | succ fuel =>
      rcases promoteLoop_cases hqueued hpending with ⟨heq, -⟩ | ⟨pool', hpromotes, -⟩
      · exact heq
      · cases hpromotes with
        | move hqueue hnonce => exact absurd (hnonce ▸ isQueued_of_eq hqueue) h
        | drop hqueue hnonce => exact absurd (hnonce ▸ isQueued_of_eq hqueue) h

section

variable [Evm]

/-- After the largest nonce the search starts at zero, which is never queued. -/
theorem promoteLoop_wrapped_tidy {pool : Mempool} {address : Address} {fuel nonce : Nat}
    {low high : List Transaction} (hordered : pool.Ordered) (hnonce : nonce + 1 = 2 ^ 64)
    (h : (pool.senderQueues address).Filling (nonce + 1) low high) :
    ((promoteLoop address fuel pool (nextNonce nonce)).senderQueues address).Tidy := by
  have hzero : nextNonce nonce = 0 := by
    unfold nextNonce
    omega
  rw [hzero, promoteLoop_of_not_queued (hordered.increasing false address)
    (hordered.increasing true address) h.positive]
  refine h.finish ?_
  rintro ⟨other, hmem, hother⟩
  have := h.bounded other (Or.inr hmem)
  omega

/-- Promotion from where the lower part ends leaves no gap. -/
theorem promoteLoop_tidy {pool : Mempool} {address : Address} {fuel nonce : Nat}
    {low high : List Transaction} (hordered : pool.Ordered)
    (h : (pool.senderQueues address).Filling nonce low high)
    (hfuel : (pool.queue false address).length ≤ fuel) :
    ((promoteLoop address fuel pool nonce).senderQueues address).Tidy := by
  induction fuel generalizing pool nonce low high with
  | zero =>
      refine h.finish ?_
      rintro ⟨tx, hmem, -⟩
      have hempty : pool.queue false address = [] := List.length_eq_zero_iff.mp (by omega)
      have hmem' : tx ∈ pool.queue false address := hmem
      rw [hempty] at hmem'
      cases hmem'
  | succ fuel ih =>
      rcases promoteLoop_cases (hordered.increasing false address)
          (hordered.increasing true address) with ⟨heq, hnot⟩ | ⟨pool', hpromotes, heq⟩
      · rw [heq]
        exact h.finish fun ⟨tx, hmem, hnonce⟩ => hnot tx hmem hnonce
      · have hordered' := hordered.promote hpromotes
        rw [heq]
        cases hpromotes with
        | drop hqueue hnonce htwin hsame =>
            exact absurd (hnonce ▸ isQueued_of_eq hqueue) (h.disjoint nonce ⟨_, htwin, hsame⟩)
        | @move before after low' high' tx hqueue hnonce hpending hfits' =>
            have htx : tx ∈ pool.queue false address :=
              hqueue ▸ List.mem_append_right _ List.mem_cons_self
            have hfits := h.fits (hordered.increasing true address) htx hnonce
            obtain ⟨rfl, rfl⟩ := eq_of_append_eq (h.split.symm.trans hpending) hfits hfits'
            have hmoved := h.move (hordered.increasing true address) hqueue
              (hordered.increasing false address) hnonce
            have hqueues : ((pool.setQueue false address (before ++ after)).setQueue true address
                (low ++ tx :: high)).senderQueues address =
                  ⟨low ++ tx :: high, before ++ after⟩ := by
              rw [senderQueues_setQueue_true, queue_setQueue, if_pos ⟨rfl, rfl⟩]
            rw [← hqueues] at hmoved
            have hbound := h.bounded tx (Or.inr htx)
            by_cases hlast : nonce + 1 < 2 ^ 64
            · rw [nextNonce, Nat.mod_eq_of_lt hlast]
              refine ih hordered' hmoved ?_
              rw [hqueue, List.length_append, List.length_cons] at hfuel
              rw [queue_setQueue, if_neg fun h => Bool.noConfusion h.1, queue_setQueue,
                if_pos ⟨rfl, rfl⟩, List.length_append]
              omega
            · exact promoteLoop_wrapped_tidy hordered' (by omega) hmoved

/-- Ordered, and tidy for every sender. -/
structure Tidy (pool : Mempool) : Prop where
  ordered : pool.Ordered
  senders : ∀ address, (pool.senderQueues address).Tidy

theorem Tidy.shrink {pool pool' : Mempool} (h : pool.Tidy)
    (hpending : ∀ address, pool'.queue true address <:+: pool.queue true address)
    (hqueued : ∀ address, (pool'.queue false address).Sublist (pool.queue false address)) :
    pool'.Tidy := by
  refine ⟨h.ordered.shrink ?_, fun address => (h.senders address).shrink (hpending address)
    (hqueued address)⟩
  intro isPending address
  cases isPending with
  | true => exact (hpending address).sublist
  | false => exact hqueued address

theorem Tidy.congr {pool pool' : Mempool} (h : pool.Tidy) (hsame : pool.SameQueues pool') :
    pool'.Tidy :=
  h.shrink (fun address => by rw [hsame true address]) fun address => by rw [hsame false address]

/-- Only the queues of one sender have to be looked at. -/
theorem Tidy.of_sameElsewhere {pool pool' : Mempool} {address : Address} (h : pool.Tidy)
    (hordered : pool'.Ordered) (hsame : pool.SameElsewhere pool' address)
    (haddress : (pool'.senderQueues address).Tidy) : pool'.Tidy := by
  refine ⟨hordered, fun other => ?_⟩
  by_cases heq : other = address
  · rw [heq]
    exact haddress
  · have hqueues : pool'.senderQueues other = pool.senderQueues other := by
      unfold senderQueues
      rw [hsame true other heq, hsame false other heq]
    rw [hqueues]
    exact h.senders other

omit [Evm] in
theorem senderQueues_promoteQueued (pool : Mempool) (address : Address) (nonce : Nat) :
    (pool.promoteQueued address nonce).senderQueues address =
      (promoteLoop address (pool.queue false address).length pool nonce).senderQueues address := by
  have hsame := promoteQueued_sameQueues pool address nonce
  unfold senderQueues
  rw [hsame true address, hsame false address]

theorem promoteQueued_tidy {pool : Mempool} {address : Address} {nonce : Nat}
    {low high : List Transaction} (hordered : pool.Ordered)
    (h : (pool.senderQueues address).Filling nonce low high) :
    ((pool.promoteQueued address nonce).senderQueues address).Tidy := by
  rw [senderQueues_promoteQueued]
  exact promoteLoop_tidy hordered h (Nat.le_refl _)

/-- The nonce after a nonce may be none. -/
theorem promoteQueued_nextNonce_tidy {pool : Mempool} {address : Address} {nonce : Nat}
    {low high : List Transaction} (hordered : pool.Ordered) (hnonce : nonce < 2 ^ 64)
    (h : (pool.senderQueues address).Filling (nonce + 1) low high) :
    ((pool.promoteQueued address (nextNonce nonce)).senderQueues address).Tidy := by
  by_cases hlast : nonce + 1 < 2 ^ 64
  · rw [nextNonce, Nat.mod_eq_of_lt hlast]
    exact promoteQueued_tidy hordered h
  · rw [senderQueues_promoteQueued]
    exact promoteLoop_wrapped_tidy hordered (by omega) h

theorem Tidy.promoteQueued {pool : Mempool} (h : pool.Tidy) {address : Address} {nonce : Nat}
    (hjoins : (pool.senderQueues address).IsQueued nonce →
      (pool.senderQueues address).Joins nonce) : (pool.promoteQueued address nonce).Tidy := by
  have hsame := (promoteQueued_promotions h.ordered address nonce).2
  refine h.of_sameElsewhere (h.ordered.promoteQueued address nonce) hsame ?_
  by_cases hqueued : (pool.senderQueues address).IsQueued nonce
  · obtain ⟨low, high, hfilling⟩ := (h.senders address).filling hqueued (hjoins hqueued)
    exact promoteQueued_tidy h.ordered hfilling
  · rw [senderQueues_promoteQueued, promoteLoop_of_not_queued (h.ordered.increasing false address)
      (h.ordered.increasing true address) hqueued]
    exact h.senders address

variable [BlockHashing]

theorem Tidy.places {pool : Mempool} {tx : Transaction} {isPending : Bool}
    {placed : Mempool × Bool} (h : pool.Tidy) (hnonce : tx.nonce < 2 ^ 64)
    (hpos : isPending = false → 0 < tx.nonce)
    (hadmits : (pool.senderQueues (senderOf tx)).Admits tx isPending)
    (hplaces : Places pool (senderOf tx) tx isPending placed) : placed.1.Tidy := by
  have hordered := h.ordered.places hplaces
  have htidy := h.senders (senderOf tx)
  cases hplaces with
  | refused => exact h
  | @replaced before after old hqueue hold =>
      have hsame := SameElsewhere.trans (SameQueues.sameElsewhere (queue_cleanUp pool · · old) _)
        (sameElsewhere_setQueue _ isPending (senderOf tx) (before ++ tx :: after))
      have hnonces : (before ++ tx :: after).map Transaction.nonce =
          (pool.queue isPending (senderOf tx)).map Transaction.nonce := by
        rw [hqueue, List.map_append, List.map_append, List.map_cons, List.map_cons, hold]
      refine h.of_sameElsewhere hordered hsame ?_
      cases isPending with
      | true =>
          rw [senderQueues_setQueue_true, queue_cleanUp]
          exact htidy.congr hnonces rfl
      | false =>
          rw [senderQueues_setQueue_false, queue_cleanUp]
          exact htidy.congr rfl hnonces
  | @inserted before after hqueue hfits =>
      have hset := sameElsewhere_setQueue pool isPending (senderOf tx) (before ++ tx :: after)
      have hinserted := h.ordered.insert hqueue hfits
      cases isPending with
      | true =>
          rcases hadmits with ⟨other, hmem, hsame⟩ | ⟨hqueued, hjoins⟩
          · have hmem' : other ∈ before ++ after := hqueue ▸ hmem
            rcases List.mem_append.mp hmem' with hmem | hmem
            · exact absurd hsame (hfits.low other hmem).ne
            · exact absurd hsame (hfits.high other hmem).ne'
          · obtain ⟨low, high, hfilling⟩ :=
              htidy.inserted (h.ordered.increasing true _) hqueue hfits hnonce hqueued hjoins
            refine h.of_sameElsewhere hordered (hset.trans (promoteQueued_promotions hinserted
              (senderOf tx) (nextNonce tx.nonce)).2) ?_
            have hfilling' : ((pool.setQueue true (senderOf tx)
                (before ++ tx :: after)).senderQueues (senderOf tx)).Filling (tx.nonce + 1) low high := by
              rw [senderQueues_setQueue_true]
              exact hfilling
            exact promoteQueued_nextNonce_tidy hinserted hnonce hfilling'
      | false =>
          refine h.of_sameElsewhere hordered hset ?_
          dsimp only
          rw [if_neg Bool.false_ne_true, senderQueues_setQueue_false]
          exact htidy.queue hqueue hnonce (hpos rfl) hadmits

omit [BlockHashing] in
theorem Tidy.evicted {pool pool' : Mempool} (h : pool.Tidy)
    (hevicts : Relation.ReflTransGen Evicts pool pool') : pool'.Tidy := by
  induction hevicts with
  | refl => exact h
  | tail _ hevicts ih =>
      have hshrinks := hevicts.shrinks
      obtain ⟨isPending, address, rfl⟩ := hevicts
      refine ih.shrink ?_ (hshrinks false)
      intro other
      rw [queue_evictBack]
      split
      next hat =>
        rw [← hat.1, hat.2]
        exact (List.dropLast_prefix _).isInfix
      next => exact List.infix_refl _

theorem Tidy.popped {pool pool' : Mempool} (h : pool.Tidy)
    (hpops : Relation.ReflTransGen Pops pool pool') : pool'.Tidy := by
  induction hpops with
  | refl => exact h
  | tail _ hpops ih =>
      have hshrinks := hpops.shrinks
      obtain ⟨sender, tx, rest, hqueue, rfl⟩ := hpops
      refine ih.shrink ?_ (hshrinks false)
      intro other
      rw [queue_shrinkQueue, queue_cleanUp]
      split
      next hat =>
        rw [hat.2, hqueue]
        exact (List.suffix_cons tx rest).isInfix
      next => exact List.infix_refl _

/-! ## Operations -/

/-- A transaction that can be added, at the place that is decided before an eviction
and taken after it. -/
def AddCloses (pool : Mempool) (tx : Transaction) (currentNonce : Nat) (roll : UInt8) : Prop :=
  tx.nonce < 2 ^ 64 ∧ (currentNonce ≤ tx.nonce →
    ((pool.evictSometimes roll).1.senderQueues (senderOf tx)).Admits tx
      (tx.nonce ≤ max (pool.nextPendingNonce (senderOf tx) currentNonce) currentNonce))

/-- The pending transactions that stay are next to each other. -/
def LeavesNoHole (pool : Mempool) (hashes : List B256) : Prop :=
  ∀ address, (pool.queue true address).filter (fun tx => txHash tx ∉ hashes) <:+:
    pool.queue true address

/-- The same for the transactions that are found invalid. -/
def RevalidateCloses (pool : Mempool) (accounts : Accounts) (addresses : Option (List Address)) :
    Prop :=
  ∀ toRemove, pool.processAddresses accounts (pool.addressesToCheck addresses) = some toRemove →
    pool.LeavesNoHole toRemove

def SubmitCloses (pool : Mempool) (storage : ReadStorage) (tx : Transaction) (roll : UInt8) :
    Prop :=
  checkSubmission storage tx = .ok () →
    pool.AddCloses tx ((storage.transactionCount (senderOf tx)).getD 0) roll

/-- The operations that no gap comes from. -/
def Closes (pool : Mempool) : MempoolOp → Prop
  | .addTransaction tx currentNonce roll => pool.AddCloses tx currentNonce roll
  | .promoteQueued address nonce => (pool.senderQueues address).IsQueued nonce →
      (pool.senderQueues address).Joins nonce
  | .removeTransactions hashes => pool.LeavesNoHole hashes
  | .popTransactions _ => True
  | .enforceCapacity _ => True
  | .updateBaseFee newBaseFee accounts => pool.baseFee < newBaseFee →
      ({ pool with baseFee := newBaseFee } : Mempool).RevalidateCloses accounts none
  | .revalidate accounts addresses => pool.RevalidateCloses accounts addresses
  | .clear => True
  | .importPooled storage pooled data _ roll =>
      (pool.store pooled data).SubmitCloses storage pooled.tx roll
  | .submit storage tx _ roll => pool.SubmitCloses storage tx roll

/-- The pools that such operations lead to. -/
inductive ClosedRun : Mempool → Prop
  | new (baseFee : Nat) : ClosedRun (new baseFee)
  | apply {pool : Mempool} {op : MempoolOp} : pool.Closes op → ClosedRun pool →
      ClosedRun (pool.apply op)
  | rehash {pool pool' : Mempool} : pool.Rehashed pool' → ClosedRun pool → ClosedRun pool'

theorem Tidy.addTransaction {pool : Mempool} (h : pool.Tidy) {tx : Transaction}
    {currentNonce : Nat} {roll : UInt8} (hcloses : pool.AddCloses tx currentNonce roll) :
    (pool.addTransaction tx currentNonce roll).1.Tidy := by
  obtain ⟨hnonce, hadmits⟩ := hcloses
  have hevicted := h.evicted (evictSometimes_evicts pool roll)
  unfold Mempool.addTransaction insertIntoQueue
  split
  next => exact h
  next hcurrent =>
    specialize hadmits (Nat.le_of_not_lt hcurrent)
    dsimp only
    split
    next heq => rwa [heq] at hevicted
    next heq =>
      rw [heq] at hevicted hadmits
      refine hevicted.places hnonce ?_ hadmits
        (place_places tx (hevicted.ordered.increasing _ _))
      intro hqueued
      have hlt := of_decide_eq_false hqueued
      omega

theorem Tidy.removeTransactions {pool : Mempool} (h : pool.Tidy) {hashes : List B256}
    (hcloses : pool.LeavesNoHole hashes) : (pool.removeTransactions hashes).Tidy := by
  refine h.shrink ?_ ?_
  · intro address
    rw [queue_removeTransactions]
    exact hcloses address
  · intro address
    rw [queue_removeTransactions]
    exact List.filter_sublist

omit [BlockHashing] in
/-- Promotion from behind the last pending transaction, or from the state's nonce
if there is none. -/
theorem Tidy.promoteAddress {pool : Mempool} (h : pool.Tidy) (accounts : Accounts)
    (address : Address) : (promoteAddress accounts pool address).Tidy := by
  refine h.promoteQueued ?_
  intro hqueued
  unfold nextPendingNonce at hqueued ⊢
  split at hqueued
  next last hlast =>
    have hbound := (h.senders address).bounded last (Or.inl (List.mem_of_getLast? hlast))
    by_cases hwrap : last.nonce + 1 < 2 ^ 64
    · refine Or.inr (Or.inl ⟨last, hlast, ?_⟩)
      exact Nat.mod_eq_of_lt hwrap
    · have hzero : nextNonce last.nonce = 0 := by
        unfold nextNonce
        omega
      rw [hzero] at hqueued
      exact absurd hqueued (h.senders address).positive
  next hnone => exact Or.inl (List.getLast?_eq_none_iff.mp hnone)

omit [BlockHashing] in
theorem Tidy.promoteAddresses {pool : Mempool} (h : pool.Tidy) (accounts : Accounts)
    (addresses : List Address) :
    (addresses.foldl (Mempool.promoteAddress accounts) pool).Tidy := by
  induction addresses generalizing pool with
  | nil => exact h
  | cons address addresses ih => exact ih (h.promoteAddress accounts address)

theorem Tidy.revalidate {pool : Mempool} (h : pool.Tidy) {accounts : Accounts}
    {addresses : Option (List Address)} (hcloses : pool.RevalidateCloses accounts addresses) :
    (pool.revalidate accounts addresses).1.Tidy := by
  unfold Mempool.revalidate
  dsimp only
  split
  next => exact h
  next toRemove hremove =>
    refine Tidy.promoteAddresses ?_ accounts _
    split
    · exact h
    · exact h.removeTransactions (hcloses toRemove hremove)

theorem Tidy.submit {pool : Mempool} (h : pool.Tidy) {storage : ReadStorage} {tx : Transaction}
    {roll : UInt8} (hcloses : pool.SubmitCloses storage tx roll) (isLocal : Bool) :
    (submitTransactionWithSource storage pool tx isLocal roll).1.Tidy := by
  rw [submit_fst]
  split
  next => exact h
  next hcheck => exact h.addTransaction (hcloses hcheck)

theorem Tidy.apply {pool : Mempool} (h : pool.Tidy) {op : MempoolOp} (hcloses : pool.Closes op) :
    (pool.apply op).Tidy := by
  cases op with
  | addTransaction tx currentNonce roll => exact h.addTransaction hcloses
  | promoteQueued address nonce => exact h.promoteQueued hcloses
  | removeTransactions hashes => exact h.removeTransactions hcloses
  | popTransactions n => exact h.popped (popLoop_pops n pool [])
  | enforceCapacity maxSize => exact h.evicted (evictLoop_evicts maxSize pool.len pool)
  | updateBaseFee newBaseFee accounts =>
      have hfee : ({ pool with baseFee := newBaseFee } : Mempool).Tidy :=
        ⟨⟨h.ordered.increasing, h.ordered.filed⟩, h.senders⟩
      unfold Mempool.apply updateBaseFee
      dsimp only
      split
      next hincreased => exact hfee.revalidate (hcloses hincreased)
      next => exact hfee
  | revalidate accounts addresses => exact h.revalidate hcloses
  | clear =>
      refine h.shrink ?_ ?_
      · intro address
        rw [Mempool.apply, queue_clear]
        exact List.nil_infix
      · intro address
        rw [Mempool.apply, queue_clear]
        exact List.nil_sublist _
  | importPooled storage pooled data isLocal roll =>
      have hstore : (pool.store pooled data).Tidy :=
        ⟨⟨h.ordered.increasing, h.ordered.filed⟩, h.senders⟩
      exact hstore.submit hcloses isLocal
  | submit storage tx isLocal roll => exact h.submit hcloses isLocal

theorem ClosedRun.tidy {pool : Mempool} (h : pool.ClosedRun) : pool.Tidy := by
  induction h with
  | new baseFee =>
      refine ⟨(Reachable.new baseFee).ordered, fun address => ?_⟩
      have hempty : (Mempool.new baseFee).senderQueues address = ⟨[], []⟩ := rfl
      rw [hempty]
      refine ⟨⟨.nil, ?_⟩, ?_, ?_⟩
      · rintro nonce ⟨tx, hmem, -⟩
        cases hmem
      · rintro tx (hmem | hmem) <;> cases hmem
      · rintro ⟨tx, hmem, -⟩
        cases hmem
  | apply hcloses _ ih => exact ih.apply hcloses
  | rehash hrehashed _ ih => exact ih.congr hrehashed.sameQueues

/-- Along a run of such operations the pending nonces of every sender follow on
from each other, and none of them is queued as well. -/
theorem ClosedRun.gapless {pool : Mempool} (h : pool.ClosedRun) (address : Address) :
    (pool.senderQueues address).Gapless :=
  (h.tidy.senders address).toGapless

end

section

attribute [local instance] keccak keccakHashing idleEvm

theorem gapless_first : (((Mempool.new 0).apply
    (.addTransaction (sampleTx 0 100) 0 1)).senderQueues default).Gapless := by
  have hcloses : (Mempool.new 0).Closes (.addTransaction (sampleTx 0 100) 0 1) := by
    refine ⟨by decide, fun _ => Or.inr ⟨?_, Or.inl rfl⟩⟩
    rintro ⟨tx, hmem, -⟩
    cases hmem
  exact ClosedRun.gapless (.apply hcloses (.new 0)) default

/-- Three transactions in a row, of which the second is removed. -/
def holedPool : Mempool :=
  ((((Mempool.new 0).apply (.addTransaction (sampleTx 0 100) 0 1)).apply
    (.addTransaction (sampleTx 1 100) 0 1)).apply (.addTransaction (sampleTx 2 100) 0 1)).apply
      (.removeTransactions [txHash (sampleTx 1 100)])

theorem not_gapless_holedPool :
    ¬ ∀ pool : Mempool, pool.Reachable → ∀ address, (pool.senderQueues address).Gapless := by
  intro h
  have hreachable : holedPool.Reachable := .apply _ (.apply _ (.apply _ (.apply _ (.new 0))))
  have hnonces : (holedPool.senderQueues default).pending.map Transaction.nonce = [0, 2] := by
    decide +kernel
  have hconsecutive := (h holedPool hreachable default).consecutive
  unfold Consecutive at hconsecutive
  rw [hnonces] at hconsecutive
  exact absurd hconsecutive (by decide)

end

end Mempool

end WasixEth
