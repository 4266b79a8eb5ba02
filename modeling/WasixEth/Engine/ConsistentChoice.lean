import WasixEth.Engine.Attempts
import WasixEth.Engine.FollowingHead

/-! # Accepted fork choices are consistent

The test for an ancestor takes a shortcut through the canonical chain. Where
that is the chain of the head, the shortcut is right, and a fork choice that
is accepted names a safe block before its head and a finalized block before
the safe one.
-/

namespace WasixEth.Engine

open Storage ChainTables Relation

/-! ## A fork choice leaves the block tree alone -/

section BlockTree

variable {faults : Faults} {engine : Engine}

theorem blockTree_andThen {first : Except String Unit × Engine}
    {next : Engine → Except String Unit × Engine} (hfirst : first.2.blockTree = engine.blockTree)
    (hnext : ∀ engine, (next engine).2.blockTree = engine.blockTree) :
    (andThen first next).2.blockTree = engine.blockTree := by
  unfold andThen
  split
  · exact hfirst
  · exact (hnext _).trans hfirst

theorem blockTree_write {next : Engine} (hnext : next.blockTree = engine.blockTree) :
    (engine.write faults next).2.blockTree = engine.blockTree := by
  unfold write
  split
  · rfl
  · exact hnext

theorem blockTree_reading {α : Type} {value : α} {next : α → Except String Unit × Engine}
    (hnext : (next value).2.blockTree = engine.blockTree) :
    (reading faults engine value next).2.blockTree = engine.blockTree := by
  unfold reading
  split
  · rfl
  · exact hnext

theorem blockTree_updateState (state : ForkchoiceState) (number : Nat) :
    (engine.updateState faults state number).blockTree = engine.blockTree := by
  unfold updateState
  split
  · rfl
  · rfl

theorem blockTree_restoreAccounts (changes : List (Address × Option TrieAccount)) :
    (restoreAccounts faults engine changes).2.blockTree = engine.blockTree := by
  induction changes generalizing faults engine with
  | nil => rfl
  | cons change rest ih =>
      unfold restoreAccounts
      refine blockTree_andThen (blockTree_write rfl) fun engine => ?_
      exact blockTree_andThen (blockTree_write rfl) fun engine => ih

theorem blockTree_restoreStorages (changes : List (Address × B256 × U256)) :
    (restoreStorages faults engine changes).2.blockTree = engine.blockTree := by
  induction changes generalizing faults engine with
  | nil => rfl
  | cons change rest ih =>
      rw [restoreStorages]
      exact blockTree_andThen (blockTree_write rfl) fun engine => ih

theorem blockTree_removeReceiptMetas (blockHash : B256) (count : Nat) :
    (engine.removeReceiptMetas faults blockHash count).blockTree = engine.blockTree := by
  unfold removeReceiptMetas
  induction List.range count generalizing engine with
  | nil => rfl
  | cons index rest ih =>
      rw [List.foldl_cons, ih]
      split
      · rfl
      · rfl

theorem blockTree_revertHeight (height : Nat) :
    (engine.revertHeight faults height).2.blockTree = engine.blockTree := by
  unfold revertHeight
  refine blockTree_andThen (blockTree_reading (blockTree_restoreAccounts _)) fun engine => ?_
  refine blockTree_andThen (blockTree_reading (blockTree_restoreStorages _)) fun engine => ?_
  refine blockTree_andThen (blockTree_write rfl) fun engine => ?_
  refine blockTree_andThen (blockTree_reading ?_) fun engine => blockTree_write rfl
  split
  · rfl
  · apply blockTree_reading
    split
    · rfl
    · exact blockTree_removeReceiptMetas _ _

theorem blockTree_revertDown (height current : Nat) :
    (revertDown height faults engine current).2.blockTree = engine.blockTree := by
  induction current generalizing faults engine with
  | zero => rfl
  | succ current ih =>
      rw [revertDown]
      split
      · rfl
      · exact blockTree_andThen (blockTree_revertHeight _) fun engine => ih

theorem blockTree_revertToHeight (height : Nat) :
    (engine.revertToHeight faults height).2.blockTree = engine.blockTree := by
  unfold revertToHeight
  refine blockTree_andThen (blockTree_revertDown _ _) fun engine => ?_
  apply blockTree_reading
  split
  · rfl
  · unfold updateHead
    split
    · rfl
    · rfl

variable [BlockHashing]

theorem blockTree_promotePayload (hash : B256) :
    (engine.promotePayload faults hash).2.blockTree = engine.blockTree := by
  unfold promotePayload
  split
  · rfl
  · split
    · rfl
    · exact blockTree_andThen (blockTree_write rfl) fun engine => blockTree_write rfl

theorem blockTree_correctTd (block : Block) :
    (engine.correctTd faults block).2.blockTree = engine.blockTree := by
  unfold correctTd
  split
  · rfl
  · dsimp only
    split
    · rfl
    · exact blockTree_write rfl

theorem blockTree_updateLookups (blockHash : B256) (entries : List (Transaction × Nat)) :
    (updateLookups blockHash faults engine entries).2.blockTree = engine.blockTree := by
  induction entries generalizing faults engine with
  | nil => rfl
  | cons entry rest ih =>
      rw [updateLookups]
      exact blockTree_andThen (blockTree_write rfl) fun engine => ih

theorem blockTree_markCanonical (block : Block) :
    (engine.markCanonical faults block).2.blockTree = engine.blockTree := by
  unfold markCanonical
  refine blockTree_andThen (blockTree_promotePayload _) fun engine => ?_
  refine blockTree_andThen (blockTree_write rfl) fun engine => ?_
  refine blockTree_andThen (blockTree_write rfl) fun engine => ?_
  refine blockTree_andThen (blockTree_write rfl) fun engine => ?_
  exact blockTree_andThen (blockTree_correctTd _) fun engine => blockTree_updateLookups _ _

theorem blockTree_markAll (blocks : List Block) :
    (markAll faults engine blocks).2.blockTree = engine.blockTree := by
  induction blocks generalizing faults engine with
  | nil => rfl
  | cons block rest ih =>
      rw [markAll]
      exact blockTree_andThen (blockTree_markCanonical _) fun engine => ih

variable {node : Node} {outside : Outside}

theorem blockTree_executeMissing (blocks : List Block) :
    (executeMissing node faults engine blocks).2.blockTree = engine.blockTree := by
  induction blocks generalizing faults engine with
  | nil => rfl
  | cons block rest ih =>
      rw [executeMissing]
      split
      · exact ih
      · split
        · rfl
        · exact ih

theorem blockTree_adoptBranch (blocks : List Block) :
    (engine.adoptBranch node faults blocks).2.blockTree = engine.blockTree := by
  unfold adoptBranch
  refine blockTree_andThen (blockTree_executeMissing _) fun engine => ?_
  have hmark : (engine.markBranchCanonical (faults.part 1) blocks).2.blockTree =
    engine.blockTree := blockTree_markAll _
  split
  next h => rwa [h] at hmark
  next h => rwa [h] at hmark

omit [BlockHashing] in
theorem blockTree_revertFor (old : CanonicalState) (context : ReorgContext) :
    (engine.revertFor faults old context).2.blockTree = engine.blockTree := by
  unfold revertFor
  split
  · unfold revertToCommon
    have hrevert : ∀ height, (engine.revertToHeight (faults.part 1) height).2.blockTree =
        engine.blockTree := fun height => blockTree_revertToHeight height
    dsimp only
    split
    next h => rw [← hrevert, h]
    next h => rw [blockTree_updateState, ← hrevert, h]
  · rfl

theorem blockTree_switchBranch (old : CanonicalState) (newHead : B256) :
    (engine.switchBranch node faults old newHead).2.blockTree = engine.blockTree := by
  unfold switchBranch
  split
  · rfl
  · exact blockTree_andThen (blockTree_revertFor _ _) fun engine => blockTree_adoptBranch _

theorem blockTree_maybeRebuildPayload (id : PayloadId) :
    (engine.maybeRebuildPayload node outside faults id).blockTree = engine.blockTree := by
  unfold maybeRebuildPayload
  dsimp only
  repeat' split
  all_goals first | rfl | exact blockTree_write rfl

theorem blockTree_buildNewPayload (head : B256) (attributes : PayloadAttributes) :
    (engine.buildNewPayload node outside faults head attributes).2.blockTree =
      engine.blockTree := by
  have hempty : ∀ faults id, (engine.buildEmptyPayload node faults head attributes id).2.blockTree =
      engine.blockTree := by
    intro faults id
    unfold buildEmptyPayload
    split
    · rfl
    · split
      · rfl
      · exact blockTree_write rfl
  unfold buildNewPayload
  dsimp only
  split
  · rfl
  · split
    · rfl
    · split
      · rfl
      · split
        next h => rw [← hempty, h]
        next h => rw [blockTree_maybeRebuildPayload, ← hempty, h]

theorem blockTree_finishForkchoice (head : B256) (status : PayloadStatus)
    (attributes : Option PayloadAttributes) (version : Nat) :
    (engine.finishForkchoice node outside faults head status attributes version).2.blockTree =
      engine.blockTree := by
  unfold finishForkchoice
  split
  · rfl
  · split
    · rfl
    · exact blockTree_buildNewPayload _ _

theorem blockTree_forkchoiceUpdated (state : ForkchoiceState)
    (attributes : Option PayloadAttributes) (version : Nat) :
    (engine.forkchoiceUpdated node outside faults state attributes version).2.blockTree =
      engine.blockTree := by
  unfold forkchoiceUpdated
  dsimp only
  split
  · rfl
  · split
    · rfl
    · unfold applyForkchoice
      dsimp only
      split
      · rw [blockTree_finishForkchoice, blockTree_updateState]
      · split
        next h =>
          have hkept := congrArg (fun result => result.2.blockTree) h
          rw [blockTree_switchBranch, blockTree_updateState] at hkept
          exact hkept.symm
        next h =>
          have hkept := congrArg (fun result => result.2.blockTree) h
          rw [blockTree_switchBranch, blockTree_updateState] at hkept
          rw [blockTree_finishForkchoice, blockTree_updateState]
          exact hkept.symm

end BlockTree

/-! ## Ancestors -/

section Choice

variable [BlockHashing]

/-- The header that is known for a block names its parent. -/
def ParentOf (engine : Engine) (hash parent : B256) : Prop :=
  ∃ header, engine.getHeaderFromAnywhere Faults.none hash = some header ∧
    hashSlow header = hash ∧ header.parentHash = parent

/-- Following the parents leads from the first block to the second. -/
def HasAncestor (engine : Engine) : B256 → B256 → Prop := ReflTransGen (ParentOf engine)

/-- The fork choice names known blocks, each before the next. -/
structure Consistent (engine : Engine) (choice : ForkchoiceState) : Prop where
  head : engine.hasBlock Faults.none choice.headBlockHash = true
  safe : choice.safeBlockHash ≠ B256.zero →
    engine.hasBlock Faults.none choice.safeBlockHash = true ∧
      HasAncestor engine choice.headBlockHash choice.safeBlockHash
  finalized : choice.finalizedBlockHash ≠ B256.zero →
    engine.hasBlock Faults.none choice.finalizedBlockHash = true ∧
      HasAncestor engine
        (if choice.safeBlockHash = B256.zero then choice.headBlockHash else choice.safeBlockHash)
        choice.finalizedBlockHash

/-- Every block that is known is known under its own hash. -/
structure Known (genesis : B256) (engine : Engine) : Prop where
  invariant : Invariant genesis engine
  tree : engine.blockTree.Keyed fun _ => True

namespace Known

variable {genesis : B256} {engine : Engine}

theorem chain (h : Known genesis engine) : engine.chain.Keyed fun _ => True :=
  ⟨fun hget => ⟨trivial, h.invariant.chain.hash_eq hget⟩, fun _ _ => trivial⟩

theorem parentOf (h : Known genesis engine) {hash : B256} {header : Header}
    (hheader : engine.getHeaderFromAnywhere Faults.none hash = some header) :
    ParentOf engine hash header.parentHash :=
  ⟨header, hheader, (hash_of_getHeader h.chain h.tree hheader).2, rfl⟩

theorem headerOrPayload_of_stored (h : Known genesis engine) {hash : B256} {header : Header}
    (hheader : engine.chain.headers.get hash = some header) :
    engine.chain.headerOrPayload Faults.none hash = some header := by
  rw [headerOrPayload, Faults.part_none, h.invariant.chain.header_eq hheader]
  rfl

/-- What the canonical chain says about ancestors holds. -/
theorem hasAncestor_of_ancestorAt (h : Known genesis engine) {hash ancestor : B256} {n : Nat}
    (hancestor : engine.chain.AncestorAt hash n ancestor) : HasAncestor engine hash ancestor := by
  unfold ChainTables.AncestorAt at hancestor
  induction hancestor with
  | self _ => exact .refl
  | @parent current _ _ _ hlink _ _ ih =>
      obtain ⟨header, hheader, rfl⟩ := exists_header hlink
      have hknown : engine.getHeaderFromAnywhere Faults.none current = some header := by
        rw [getHeaderFromAnywhere, h.headerOrPayload_of_stored hheader]
        rfl
      exact .head (h.parentOf hknown) ih

/-- A canonical block is an ancestor of a canonical block that is not lower. -/
theorem hasAncestor_of_canonical (h : Known genesis engine) {hash target : B256} {header : Header}
    {goal : Nat} (hheader : engine.chain.headers.get hash = some header)
    (hcanonical : engine.chain.isCanonical Faults.none hash = true)
    (htarget : engine.chain.canonicalHeads.get goal = some target) (hle : goal ≤ header.number) :
    HasAncestor engine hash target := by
  have hchain := h.invariant.canonical
  have hhash := (hchain.isCanonical_iff h.invariant.chain hheader).mp hcanonical
  have htargetAt := (hchain.heads_iff goal target).mp htarget
  exact h.hasAncestor_of_ancestorAt (hhash.iff_of_ancestor.mpr ⟨hle, htargetAt⟩)

/-! ## The search for an ancestor -/

/-- A block that is stored or among the payloads, with a number that is not
above its own. -/
structure OnChain (engine : Engine) (hash : B256) (number : Nat) : Prop where
  known : ∃ header, engine.chain.headerOrPayload Faults.none hash = some header
  le : ∀ header, engine.chain.headers.get hash = some header → number ≤ header.number

theorem onChain_parent (h : Known genesis engine) {hash : B256} {header : Header}
    (hheader : engine.chain.headerOrPayload Faults.none hash = some header)
    (hne : hash ≠ genesis) : OnChain engine header.parentHash (header.number - 1) := by
  have hbuilt : BuiltOnStored engine.chain header := by
    cases hstored : engine.chain.headers.get hash with
    | some stored =>
        rw [h.headerOrPayload_of_stored hstored] at hheader
        cases hheader
        exact h.invariant.chain.parent_mem hstored hne
    | none =>
        rw [headerOrPayload, header_eq_none _ hstored] at hheader
        simp only [Option.none_or, Option.map_eq_some_iff] at hheader
        obtain ⟨payload, hpayload, rfl⟩ := hheader
        have honly : PayloadOnly engine.chain hash payload := ⟨hstored, hpayload⟩
        exact honly.built h.invariant.chain
  obtain ⟨parent, hparent, hnumber⟩ := hbuilt
  refine ⟨⟨parent, h.headerOrPayload_of_stored hparent⟩, ?_⟩
  intro found hfound
  rw [hparent] at hfound
  cases hfound
  omega

theorem parentInfo_eq_some {hash parent : B256} {number : Nat}
    (hinfo : engine.parentInfo Faults.none hash = some (parent, number)) :
    parent = B256.zero ∨ ∃ header,
      engine.getHeaderFromAnywhere Faults.none hash = some header ∧
        header.parentHash = parent ∧ number = header.number - 1 := by
  unfold parentInfo getHeaderFromAnywhere at *
  cases hchain : engine.chain.headerOrPayload Faults.none hash with
  | some header =>
      simp only [hchain, Option.map_some, Option.some_or, Option.some.injEq,
        Prod.mk.injEq] at hinfo ⊢
      exact .inr ⟨header, rfl, hinfo.1, hinfo.2.symm⟩
  | none =>
      cases htree : engine.blockTree.getBlock hash with
      | some block =>
          simp only [hchain, htree, Option.map_none, Option.map_some, Option.none_or,
            Option.some_or, Option.some.injEq, Prod.mk.injEq] at hinfo ⊢
          exact .inr ⟨block.header, rfl, hinfo.1, hinfo.2.symm⟩
      | none =>
          simp only [hchain, htree, Option.map_none, Option.none_or] at hinfo
          split at hinfo
          · simp only [Option.some.injEq, Prod.mk.injEq] at hinfo
            exact .inl hinfo.1.symm
          · cases hinfo

theorem searchAncestor_zero {target : B256} (hzero : target ≠ B256.zero) (goal : Option Nat)
    (steps : Nat) (number : Option Nat) :
    engine.searchAncestor target goal steps Faults.none B256.zero number = false := by
  cases steps with
  | zero => rfl
  | succ steps => simp [searchAncestor, hzero.symm]

/-- Canonical blocks are not below the genesis block. -/
theorem lowest_le (h : Known genesis engine) {lowest : Header}
    (hlowest : engine.chain.headers.get genesis = some lowest) {goal : Nat} {hash : B256}
    (hgoal : engine.chain.canonicalHeads.get goal = some hash) : lowest.number ≤ goal := by
  obtain ⟨link, hlink, hheight⟩ :=
    ((h.invariant.canonical.heads_iff goal hash).mp hgoal).height_eq
  rw [← hheight]
  exact h.invariant.chain.rooted.root_height_le (links_eq_some hlowest) hlink

/-- The shortcut from a canonical block. -/
theorem hasAncestor_of_shortcut (h : Known genesis engine) {lowest : Header}
    (hlowest : engine.chain.headers.get genesis = some lowest) {current target : B256}
    {goal number : Nat} (hcurrent : goal < lowest.number ∨ OnChain engine current number)
    (hle : goal ≤ number) (hcanonical : engine.chain.isCanonical Faults.none current = true)
    (hgoal : engine.chain.canonicalHeads.get goal = some target) :
    HasAncestor engine current target := by
  rcases hcurrent with hlow | hchain
  · have := h.lowest_le hlowest hgoal
    omega
  · obtain ⟨header, hheader⟩ := h.invariant.canonical.exists_header_of_isCanonical hcanonical
    have := hchain.le header hheader
    exact h.hasAncestor_of_canonical hheader hcanonical hgoal (by omega)

/-- The search goes on from the genesis block only for a number below it. -/
theorem onChain_next (h : Known genesis engine) {lowest : Header}
    (hlowest : engine.chain.headers.get genesis = some lowest) {current : B256} {header : Header}
    {goal number : Nat} (hcurrent : goal < lowest.number ∨ OnChain engine current number)
    (hle : goal ≤ number)
    (hnot : ¬ engine.chain.isCanonical Faults.none current = true ∨
      engine.chain.canonicalHeads.get goal = none)
    (hheader : engine.getHeaderFromAnywhere Faults.none current = some header) :
    goal < lowest.number ∨ OnChain engine header.parentHash (header.number - 1) := by
  rcases hcurrent with hlow | hchain
  · exact .inl hlow
  · by_cases hgenesis : current = genesis
    · have hcanonical := h.invariant.canonical.isCanonical_genesis h.invariant.chain
      rw [← hgenesis] at hcanonical hlowest
      have hself := (h.invariant.canonical.isCanonical_iff h.invariant.chain hlowest).mp hcanonical
      have hnone := hnot.resolve_left (not_not.mpr hcanonical)
      have hnumber := hchain.le lowest hlowest
      refine .inl (lt_of_le_of_ne (by omega) ?_)
      intro heq
      rw [heq, (h.invariant.canonical.heads_iff _ _).mpr hself] at hnone
      cases hnone
    · obtain ⟨found, hfound⟩ := hchain.known
      rw [getHeaderFromAnywhere, hfound] at hheader
      cases hheader
      exact .inr (h.onChain_parent hfound hgenesis)

/-- A search that goes on from a block goes on from its parent. -/
theorem exists_parent_of_search {target : B256} {goal : Option Nat} {steps : Nat} {current : B256}
    (hfound : (match engine.parentInfo Faults.none current with
      | none => false
      | some (parent, number) =>
          engine.searchAncestor target goal steps Faults.none parent (some number)) = true) :
    ∃ parent number, engine.parentInfo Faults.none current = some (parent, number) ∧
      engine.searchAncestor target goal steps Faults.none parent (some number) = true := by
  split at hfound
  · cases hfound
  next parent number hinfo => exact ⟨parent, number, hinfo, hfound⟩

/-- The search is right. By induction on its steps: as long as the number at
hand is not above that of a stored block, the shortcut leads to an ancestor.
Only behind the genesis block may it be, and there are no canonical blocks. -/
theorem hasAncestor_of_search (h : Known genesis engine) {lowest : Header}
    (hlowest : engine.chain.headers.get genesis = some lowest) {target : B256}
    (hzero : target ≠ B256.zero) (goal : Option Nat) (steps : Nat) {current : B256} {number : Nat}
    (hcurrent : ∀ n, goal = some n → n < lowest.number ∨ OnChain engine current number)
    (hsearch : engine.searchAncestor target goal steps Faults.none current (some number) = true) :
    HasAncestor engine current target := by
  induction steps generalizing current number with
  | zero => cases hsearch
  | succ steps ih =>
      -- Going on to the parent.
      have hcontinued : (∀ n header, goal = some n →
          engine.getHeaderFromAnywhere Faults.none current = some header →
          n < lowest.number ∨ OnChain engine header.parentHash (header.number - 1)) →
          (∃ parent number, engine.parentInfo Faults.none current = some (parent, number) ∧
            engine.searchAncestor target goal steps Faults.none parent (some number) = true) →
          HasAncestor engine current target := by
        intro hparent hexists
        obtain ⟨parent, next, hinfo, hfound⟩ := hexists
        rcases parentInfo_eq_some hinfo with rfl | ⟨header, hheader, rfl, rfl⟩
        · rw [searchAncestor_zero hzero] at hfound
          cases hfound
        · exact .head (h.parentOf hheader)
            (ih (fun n hgoal => hparent n header hgoal hheader) hfound)
      unfold searchAncestor at hsearch
      simp only [Faults.part_none] at hsearch
      split at hsearch
      next heq =>
        rw [heq]
        exact .refl
      next =>
        split at hsearch
        · cases hsearch
        next =>
          cases goal with
          | none =>
              refine hcontinued (fun n header hn hheader => ?_) (exists_parent_of_search hsearch)
              cases hn
          | some goal =>
              change (if number < goal then _ else _) = true at hsearch
              split at hsearch
              · cases hsearch
              next hle =>
                rw [not_lt] at hle
                cases hcanonical : engine.chain.isCanonical Faults.none current with
                | true =>
                    simp only [hcanonical, if_true] at hsearch
                    cases hgoal : engine.chain.canonicalHeads.get goal with
                    | some hash =>
                        simp only [blockHash, Faults.read_none, hgoal] at hsearch
                        rw [of_decide_eq_true hsearch] at hgoal
                        exact h.hasAncestor_of_shortcut hlowest (hcurrent goal rfl) hle hcanonical
                          hgoal
                    | none =>
                        simp only [blockHash, Faults.read_none, hgoal] at hsearch
                        refine hcontinued (fun n header hn hheader => ?_)
                          (exists_parent_of_search hsearch)
                        cases hn
                        exact h.onChain_next hlowest (hcurrent goal rfl) hle (.inr hgoal) hheader
                | false =>
                    simp only [hcanonical, Bool.false_eq_true, if_false] at hsearch
                    refine hcontinued (fun n header hn hheader => ?_)
                      (exists_parent_of_search hsearch)
                    cases hn
                    exact h.onChain_next hlowest (hcurrent goal rfl) hle
                      (.inl (by simp [hcanonical])) hheader

/-- The number that is looked up for a stored block is its own. -/
theorem numberOf_stored (h : Known genesis engine) {hash : B256} {header : Header}
    (hheader : engine.chain.headers.get hash = some header) :
    engine.numberOf Faults.none hash = some header.number := by
  rw [numberOf, Faults.part_none, blockNumber, Faults.read_none,
    h.invariant.chain.number_eq hheader]
  rfl

theorem exists_numberOf (h : Known genesis engine) {hash : B256} {header : Header}
    (hheader : engine.chain.headerOrPayload Faults.none hash = some header) :
    ∃ number, engine.numberOf Faults.none hash = some number ∧ OnChain engine hash number := by
  cases hstored : engine.chain.headers.get hash with
  | some stored =>
      refine ⟨_, h.numberOf_stored hstored, ⟨header, hheader⟩, ?_⟩
      intro found hfound
      rw [hstored] at hfound
      cases hfound
      exact le_rfl
  | none =>
      have hnumber : (engine.numberOf Faults.none hash).isSome := by
        rw [headerOrPayload, header_eq_none _ hstored] at hheader
        simp only [Option.none_or, Option.map_eq_some_iff, Faults.part_none] at hheader
        obtain ⟨payload, hpayload, _⟩ := hheader
        rw [numberOf]
        simp [hpayload]
      obtain ⟨number, hsome⟩ := Option.isSome_iff_exists.mp hnumber
      refine ⟨number, hsome, ⟨header, hheader⟩, ?_⟩
      intro found hfound
      rw [hstored] at hfound
      cases hfound

/-- The test for an ancestor is right. -/
theorem hasAncestor_of_isAncestor (h : Known genesis engine) {head target : B256} {header : Header}
    (hheader : engine.chain.headerOrPayload Faults.none head = some header)
    (hzero : target ≠ B256.zero)
    (htest : engine.isAncestor Faults.none head target = true) :
    HasAncestor engine head target := by
  obtain ⟨lowest, hlowest⟩ := Option.isSome_iff_exists.mp h.invariant.chain.genesis_mem
  obtain ⟨number, hnumber, hchain⟩ := h.exists_numberOf hheader
  by_cases heq : head = target
  · rw [heq]
    exact .refl
  · rw [isAncestor, if_neg heq, if_neg hzero] at htest
    simp only [Faults.part_none, hnumber] at htest
    cases hgoal : engine.numberOf Faults.none target with
    | none =>
        rw [hgoal] at htest
        exact h.hasAncestor_of_search hlowest hzero none 2048 (fun _ hn => nomatch hn) htest
    | some goal =>
        rw [hgoal] at htest
        dsimp only at htest
        split at htest
        · cases htest
        next hle =>
          rw [not_lt] at hle
          split at htest
          next hboth =>
            rw [Bool.and_eq_true] at hboth
            obtain ⟨htarget, hhead⟩ := hboth
            obtain ⟨stored, hstored⟩ :=
              h.invariant.canonical.exists_header_of_isCanonical htarget
            rw [h.numberOf_stored hstored] at hgoal
            cases hgoal
            have hat := (h.invariant.canonical.isCanonical_iff h.invariant.chain hstored).mp htarget
            exact h.hasAncestor_of_shortcut hlowest (.inr hchain) hle hhead
              ((h.invariant.canonical.heads_iff _ _).mpr hat)
          next =>
            exact h.hasAncestor_of_search hlowest hzero (some goal) 2048 (fun _ _ => .inr hchain)
              htest

/-! ## The checks of a fork choice -/

/-- A block that the checks find is stored or among the payloads. -/
theorem exists_headerOrPayload (h : Known genesis engine) {hash : B256} {header : Header}
    (hknown : engine.chain.knownHeader Faults.none hash = some header) :
    ∃ found, engine.chain.headerOrPayload Faults.none hash = some found := by
  unfold knownHeader at hknown
  rcases Option.or_eq_some_iff.mp hknown with hfound | ⟨_, hgenesis⟩
  · exact ⟨header, hfound⟩
  · split at hgenesis
    next hzero =>
      rw [Faults.part_none, blockHash, Faults.read_none] at hzero
      obtain ⟨link, hlink, _⟩ := ((h.invariant.canonical.heads_iff 0 hash).mp hzero).height_eq
      obtain ⟨stored, hstored, _⟩ := exists_header hlink
      exact ⟨stored, h.headerOrPayload_of_stored hstored⟩
    next => cases hgenesis

theorem hasBlock_of_headerOrPayload {hash : B256} {header : Header}
    (hheader : engine.chain.headerOrPayload Faults.none hash = some header) :
    engine.hasBlock Faults.none hash = true := by
  unfold headerOrPayload at hheader
  unfold hasBlock
  rcases Option.or_eq_some_iff.mp hheader with hfound | ⟨_, hpayload⟩
  · rw [hfound]
    rfl
  · obtain ⟨payload, hpayload, _⟩ := Option.map_eq_some_iff.mp hpayload
    rw [hpayload]
    simp

/-- What the two checks make sure of. -/
theorem consistent_of_check (h : Known genesis engine) {choice : ForkchoiceState} {number : Nat}
    (hzero : choice.headBlockHash ≠ B256.zero) {header : Header}
    (hheader : engine.chain.headerOrPayload Faults.none choice.headBlockHash = some header)
    (hcheck : engine.checkForkchoice Faults.none choice = .ok number) :
    Consistent engine choice := by
  have hknown : engine.chain.knownHeader Faults.none choice.headBlockHash = some header := by
    rw [knownHeader, hheader]
    rfl
  simp only [checkForkchoice, hzero, if_false, Faults.part_none, hknown] at hcheck
  split at hcheck
  · cases hcheck
  next hsafe =>
    split at hcheck
    · cases hcheck
    next hfinalized =>
      have hsafeKnown : choice.safeBlockHash ≠ B256.zero → ∃ found,
          engine.chain.headerOrPayload Faults.none choice.safeBlockHash = some found ∧
            HasAncestor engine choice.headBlockHash choice.safeBlockHash := by
        intro hne
        simp only [checkSafeBlock, hne, if_false, Faults.part_none] at hsafe
        split at hsafe
        · cases hsafe
        next safe hfound =>
          obtain ⟨found, hfound⟩ := h.exists_headerOrPayload hfound
          have hnot : ¬ (header.number < safe.number ∨ engine.isAncestor Faults.none
              choice.headBlockHash choice.safeBlockHash = false) := by
            intro hbad
            have herror := (if_pos hbad).symm.trans hsafe
            cases herror
          rw [not_or, Bool.not_eq_false] at hnot
          exact ⟨found, hfound, h.hasAncestor_of_isAncestor hheader hne hnot.2⟩
      refine ⟨hasBlock_of_headerOrPayload hheader, ?_, ?_⟩
      · intro hne
        obtain ⟨found, hfound, hancestor⟩ := hsafeKnown hne
        exact ⟨hasBlock_of_headerOrPayload hfound, hancestor⟩
      · intro hne
        have htarget : ∃ found, engine.chain.headerOrPayload Faults.none
            (if choice.safeBlockHash = B256.zero then choice.headBlockHash
              else choice.safeBlockHash) = some found := by
          split
          · exact ⟨header, hheader⟩
          next hsafeNe =>
            obtain ⟨found, hfound, _⟩ := hsafeKnown hsafeNe
            exact ⟨found, hfound⟩
        obtain ⟨target, htarget⟩ := htarget
        simp only [checkFinalizedBlock, hne, if_false, Faults.part_none] at hfinalized
        split at hfinalized
        · cases hfinalized
        next hfound =>
          obtain ⟨found, hfound⟩ := h.exists_headerOrPayload hfound
          have htest : engine.isAncestor Faults.none (if choice.safeBlockHash = B256.zero then
              choice.headBlockHash else choice.safeBlockHash) choice.finalizedBlockHash ≠ false := by
            intro hbad
            have herror := (if_pos (.inr hbad)).symm.trans hfinalized
            cases herror
          exact ⟨hasBlock_of_headerOrPayload hfound,
            h.hasAncestor_of_isAncestor htarget hne (Bool.not_eq_false _ ▸ htest)⟩

end Known

/-! ## Runs -/

section Runs

variable [Proofs] {node : Node} {genesis : B256}

/-- Imports keep blocks under their own hash. -/
theorem kept_keyed : Kept node (fun _ => True) (fun _ => True) (fun _ _ => True)
    (fun _ engine => engine.chain.Keyed (fun _ => True) ∧
      engine.blockTree.Keyed fun _ => True) where
  inner := by
    intro pending outside engine block h _ hblock expected beaconRoot hlog
    have himports : Imports node (fun _ => True) ⟨outside, engine, block⟩
        (newPayloadInternalInner node outside engine block expected beaconRoot).2 :=
      imports_newPayloadInternalInner hblock h.1 h.2 expected beaconRoot
    exact ⟨himports.keyed hlog h.1, (himports.acts.moves h.2).keyed h.2⟩
  skip := fun h _ => h
  take := fun h _ _ => ⟨trivial, h.1, h.2.removeBlock _⟩
  detach := fun parent h => ⟨h.1, h.2.removeChildren parent⟩
  soft := fun hash parent h => ⟨h.1, h.2.markInvalid _ _ _⟩
  inherit := fun h _ _ _ _ => ⟨h.1, h.2.markInvalid _ _ _⟩

theorem known_step {engine : Engine} (h : Known genesis engine) {call : Call}
    (hsafe : SafeCall node engine call)
    (hapart : HashesApart (step node engine call).chain.headerLog) :
    Known genesis (step node engine call) := by
  refine ⟨invariant_step h.invariant hsafe hapart, ?_⟩
  cases call with
  | newPayload outside block expectedBlockHash expected beaconRoot =>
      exact (kept_keyed.step ⟨outside, block, expectedBlockHash, expected, beaconRoot⟩
        ⟨h.chain, h.tree⟩ trivial trivial (fun _ _ => trivial) (fun _ _ => trivial)).2
  | forkchoiceUpdated outside state attributes version =>
      rw [step, blockTree_forkchoiceUpdated]
      exact h.tree

theorem known_run {engine : Engine} (calls : List Call) (h : Known genesis engine)
    (hsafe : SafeRun node engine calls)
    (hapart : HashesApart (run node engine calls).chain.headerLog) :
    Known genesis (run node engine calls) := by
  induction calls generalizing engine with
  | nil => exact h
  | cons call rest ih =>
      have hstep : HashesApart (step node engine call).chain.headerLog :=
        hapart.mono (log_run _ rest)
      exact ih (known_step h hsafe.1 hstep) hsafe.2 hapart

/-- In a run from genesis in which every accepted fork choice moves forward,
one that is answered with `VALID` is consistent. -/
theorem consistent_of_valid (genesis : Block) (state : StateTables) (calls : List Call)
    (outside : Outside) (choice : ForkchoiceState) (attributes : Option PayloadAttributes)
    (version : Nat) (updated : ForkchoiceUpdated)
    (hsafe : SafeRun node (initGenesis genesis state)
      (calls ++ [.forkchoiceUpdated outside choice attributes version]))
    (hapart : HashesApart (run node (initGenesis genesis state) calls).chain.headerLog)
    (hupdated : ((run node (initGenesis genesis state) calls).forkchoiceUpdated node outside
      Faults.none choice attributes version).1 = .ok updated)
    (hvalid : updated.payloadStatus.status = .valid) :
    Consistent (run node (initGenesis genesis state) calls) choice := by
  rw [safeRun_append] at hsafe
  obtain ⟨hcalls, hlast, _⟩ := hsafe
  have hlog : _ ⊆ (run node (initGenesis genesis state) calls).chain.headerLog := log_run _ calls
  have hgenesis : Known genesis.hash (initGenesis genesis state) :=
    ⟨invariant_initGenesis genesis state (hapart.mono hlog),
      (keyed_initGenesis genesis state trivial).2⟩
  have hknown := known_run calls hgenesis hcalls hapart
  by_cases hstatus : ((run node (initGenesis genesis state) calls).headStatus Faults.none
      choice.headBlockHash).status = .valid
  · cases hcheck : (run node (initGenesis genesis state) calls).checkForkchoice Faults.none
      choice with
    | error error =>
        simp only [forkchoiceUpdated, Faults.part_none, hstatus, ne_eq, not_true, if_false,
          hcheck] at hupdated
        cases hupdated
    | ok number =>
        have haccepts : (run node (initGenesis genesis state) calls).Accepts choice :=
          ⟨hstatus, number, hcheck⟩
        have hzero := (hlast haccepts).ne_zero
        obtain ⟨header, hheader⟩ := exists_header_of_accepts hknown.invariant.chain haccepts hzero
        exact hknown.consistent_of_check hzero hheader hcheck
  · simp only [forkchoiceUpdated, Faults.part_none, ne_eq, hstatus, not_false_eq_true,
      if_true] at hupdated
    cases hupdated
    exact absurd hvalid hstatus

end Runs

end Choice

section Sample

attribute [local instance] keccak keccakHashing keccakProofs

/-- The second block is made the head with the first as the safe block. -/
theorem consistent_second :
    Consistent (run sampleNode sampleEngine [importBlock firstHeader, importBlock secondHeader])
      ⟨secondHash, firstHash, genesisHash⟩ := by
  have hbefore : (run sampleNode sampleEngine
      [importBlock firstHeader, importBlock secondHeader]).chain.headers.get secondHash =
        some secondHeader ∧
      (run sampleNode sampleEngine
        [importBlock firstHeader, importBlock secondHeader]).canonical.headNumber = 0 ∧
      (run sampleNode sampleEngine [importBlock firstHeader,
        importBlock secondHeader]).chain.headerLog =
        [secondHeader, firstHeader, genesisHeader] := by
    rw [← sampleHashing_eq]
    decide +kernel
  have hforward : (run sampleNode sampleEngine
      [importBlock firstHeader, importBlock secondHeader]).Forward sampleNode
        ⟨secondHash, firstHash, genesisHash⟩ := by
    apply Forward.of_stored
    · decide +kernel
    · exact hbefore.1
    · rw [hbefore.2.1]
      exact Nat.zero_le _
  have hsafe : SafeRun sampleNode sampleEngine
      ([importBlock firstHeader, importBlock secondHeader] ++
        [.forkchoiceUpdated sampleOutside ⟨secondHash, firstHash, genesisHash⟩ none 1]) := by
    rw [safeRun_append]
    refine ⟨?_, ?_⟩
    · simp [SafeRun, SafeCall, importBlock]
    · simp only [SafeRun, and_true]
      exact fun _ => hforward
  have hapart : HashesApart (run sampleNode sampleEngine
      [importBlock firstHeader, importBlock secondHeader]).chain.headerLog := by
    rw [hbefore.2.2]
    constructor
    · rw [← sampleHashing_eq]
      decide +kernel
    · rw [← sampleHashing_eq]
      decide +kernel
  have hvalid : ((run sampleNode sampleEngine
      [importBlock firstHeader, importBlock secondHeader]).forkchoiceUpdated sampleNode
        sampleOutside Faults.none ⟨secondHash, firstHash, genesisHash⟩ none 1).1 =
          .ok ⟨⟨.valid, some secondHash⟩, none⟩ := by
    rw [← sampleHashing_eq]
    decide +kernel
  exact consistent_of_valid (emptyBlock genesisHeader) ⟨∅, ∅, ∅, ∅, ∅, ∅, ∅⟩ _ sampleOutside _ none
    1 _ hsafe hapart hvalid rfl

/-- The head goes from the second block to the side block. -/
def sidewaysRun : List Call :=
  [importBlock firstHeader, importBlock secondHeader, importBlock sideHeader,
    chooseHead secondHash, chooseHead sideHash]

/-- The second block is then accepted with the side block as its safe block,
which is not before it. -/
theorem sideways_accepts_side :
    ((run sampleNode sampleEngine sidewaysRun).forkchoiceUpdated sampleNode sampleOutside
        Faults.none ⟨secondHash, sideHash, B256.zero⟩ none 1).1 =
        .ok ⟨⟨.valid, some secondHash⟩, none⟩ ∧
      ¬ Consistent (run sampleNode sampleEngine sidewaysRun)
        ⟨secondHash, sideHash, B256.zero⟩ := by
  have hknown : (run sampleNode sampleEngine sidewaysRun).getHeaderFromAnywhere Faults.none
        secondHash = some secondHeader ∧
      (run sampleNode sampleEngine sidewaysRun).getHeaderFromAnywhere Faults.none firstHash =
        some firstHeader ∧
      (run sampleNode sampleEngine sidewaysRun).getHeaderFromAnywhere Faults.none genesisHash =
        some genesisHeader ∧
      (run sampleNode sampleEngine sidewaysRun).getHeaderFromAnywhere Faults.none B256.zero =
        none := by
    rw [← sampleHashing_eq]
    decide +kernel
  obtain ⟨hsecond, hfirst, hgenesis, hzero⟩ := hknown
  have hbefore : ∀ hash, HasAncestor (run sampleNode sampleEngine sidewaysRun) secondHash hash →
      hash ∈ [secondHash, firstHash, genesisHash, B256.zero] := by
    intro hash h
    induction h with
    | refl => exact List.mem_cons_self
    | tail _ hparent ih =>
        obtain ⟨header, hheader, _, rfl⟩ := hparent
        simp only [List.mem_cons, List.not_mem_nil, or_false] at ih
        rcases ih with rfl | rfl | rfl | rfl
        · rw [hsecond] at hheader
          cases hheader
          simp [secondHeader, sampleHeader]
        · rw [hfirst] at hheader
          cases hheader
          simp [firstHeader, sampleHeader]
        · rw [hgenesis] at hheader
          cases hheader
          simp [genesisHeader, sampleHeader]
        · rw [hzero] at hheader
          cases hheader
  refine ⟨?_, ?_⟩
  · rw [← sampleHashing_eq]
    decide +kernel
  · intro h
    have hside := hbefore sideHash (h.safe (by decide +kernel)).2
    exact absurd hside (by decide +kernel)

end Sample

end WasixEth.Engine
