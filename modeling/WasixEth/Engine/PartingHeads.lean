import WasixEth.BlockCodec
import WasixEth.Engine.ReorgHandler

/-! # Where two heads part

The walk back from a new head ends at the first block that is the old head or
canonical, and passes exactly the blocks above it, be they stored or only among
the payloads.
-/

namespace WasixEth

open Storage ChainTables

section

variable [BlockHashing]

/-- Blocks are stored under their hashes, with header and body or as payloads, and
go back to the genesis block, which is canonical. -/
structure BlockStore (genesis : B256) (tables : ChainTables) : Prop where
  keyed : ∀ hash block, tables.blockOrPayload Faults.none hash = some block →
    block.hash = hash ∧ hash ≠ B256.zero
  agree : ∀ hash block header, tables.blockOrPayload Faults.none hash = some block →
    tables.header Faults.none hash = some header → block.header = header
  built : ∀ hash block, tables.blockOrPayload Faults.none hash = some block → hash ≠ genesis →
    ∃ parent, tables.blockOrPayload Faults.none block.header.parentHash = some parent ∧
      block.header.number = parent.header.number + 1
  canonical : tables.isCanonical Faults.none genesis = true

/-- The blocks from a head down to, but not including, an ancestor. -/
inductive PathTo (tables : ChainTables) (ancestor : B256) : B256 → List Block → Prop
  | here : PathTo tables ancestor ancestor []
  | above {hash : B256} {block : Block} {blocks : List Block}
      (hblock : tables.blockOrPayload Faults.none hash = some block)
      (hrest : PathTo tables ancestor block.header.parentHash blocks) :
      PathTo tables ancestor hash (block :: blocks)

/-- The walk from a new head has to stop at the old head, and at a block that the
canonical chain has at the height recorded for it. -/
def Meets (tables : ChainTables) (oldHead hash : B256) : Prop :=
  hash = oldHead ∨ tables.isCanonical Faults.none hash = true

/-- The first block below the new head that is the old head or canonical, with the
blocks above it. -/
structure PartsAt (tables : ChainTables) (oldHead newHead : B256) (context : ReorgContext) :
    Prop where
  path : PathTo tables context.commonAncestorHash newHead context.newCanonicalBlocks
  meets : Meets tables oldHead context.commonAncestorHash
  first : ∀ block ∈ context.newCanonicalBlocks, ¬ Meets tables oldHead block.hash
  isReorg : context.isReorg = true ↔
    context.commonAncestorHash ≠ oldHead ∧ context.commonAncestorHash ≠ newHead

variable {genesis oldHead : B256} {tables : ChainTables}

/-- Without a header the block of a hash is that of a payload. -/
theorem exists_payload_of_blockOrPayload {hash : B256} {block : Block}
    (hblock : tables.blockOrPayload Faults.none hash = some block)
    (hheader : tables.header Faults.none hash = none) :
    ∃ payload, tables.getPayloadByBlockHash Faults.none hash = some payload ∧
      payload.block = block := by
  have hnone : tables.blockByHash Faults.none hash = none := by
    unfold blockByHash
    rw [Faults.part_none, hheader]
  unfold blockOrPayload at hblock
  rw [Faults.part_none, Faults.part_none, hnone, Option.none_or] at hblock
  exact Option.map_eq_some_iff.mp hblock

theorem BlockStore.headerOrPayload_eq (hstore : BlockStore genesis tables) {hash : B256}
    {block : Block} (hblock : tables.blockOrPayload Faults.none hash = some block) :
    tables.headerOrPayload Faults.none hash = some block.header := by
  unfold headerOrPayload
  rw [Faults.part_none, Faults.part_none]
  cases hheader : tables.header Faults.none hash with
  | some header => rw [hstore.agree hash block header hblock hheader, Option.some_or]
  | none =>
      obtain ⟨payload, hpayload, rfl⟩ := exists_payload_of_blockOrPayload hblock hheader
      rw [hpayload]
      rfl

/-- From a stored block the walk comes to an end. By induction on the fuel, which the
number of the block bounds from below. -/
theorem walkBack_ends (hstore : BlockStore genesis tables) {fuel : Nat} {current : B256}
    {block : Block} (hblock : tables.blockOrPayload Faults.none current = some block)
    (hfuel : block.header.number < fuel) :
    ∃ common blocks, tables.walkBack oldHead fuel Faults.none current =
        .ok ⟨common, true, blocks⟩ ∧
      PathTo tables common current blocks ∧ Meets tables oldHead common ∧
      ∀ block ∈ blocks, ¬ Meets tables oldHead block.hash := by
  induction fuel generalizing current block with
  | zero => exact absurd hfuel (Nat.not_lt_zero _)
  | succ fuel ih =>
      obtain ⟨hhash, hzero⟩ := hstore.keyed current block hblock
      rw [walkBack]
      dsimp only
      rw [if_neg hzero]
      split
      next hold =>
        subst hold
        exact ⟨current, [], rfl, .here, .inl rfl, fun _ hmem => absurd hmem List.not_mem_nil⟩
      next hold =>
        rw [Faults.part_none]
        split
        next hcanonical =>
          exact ⟨current, [], rfl, .here, .inr hcanonical,
            fun _ hmem => absurd hmem List.not_mem_nil⟩
        next hcanonical =>
          have hgenesis : current ≠ genesis := by
            rintro rfl
            exact hcanonical hstore.canonical
          obtain ⟨parent, hparent, hnumber⟩ := hstore.built current block hblock hgenesis
          obtain ⟨common, blocks, hwalk, hpath, hmeets, hfirst⟩ := ih hparent (by omega)
          refine ⟨common, block :: blocks, ?_, .above hblock hpath, hmeets, ?_⟩
          · rw [Faults.part_none, Faults.part_none, Faults.part_none, Faults.part_none]
            cases hheader : tables.header Faults.none current with
            | some header =>
                dsimp only
                rw [hblock, ← hstore.agree current block header hblock hheader, hwalk]
            | none =>
                dsimp only
                obtain ⟨payload, hfound, rfl⟩ := exists_payload_of_blockOrPayload hblock hheader
                rw [hfound]
                dsimp only
                rw [hwalk]
          · refine List.forall_mem_cons.mpr ⟨?_, hfirst⟩
            rw [hhash]
            rintro (heq | htrue)
            · exact hold heq
            · exact hcanonical htrue

/-- The reorganisation ends at the fork point. -/
theorem resolveReorg_partsAt (hstore : BlockStore genesis tables) (oldHead newHead : B256)
    (hnew : (tables.blockOrPayload Faults.none newHead).isSome) :
    ∃ context, tables.resolveReorg Faults.none oldHead newHead = .ok context ∧
      PartsAt tables oldHead newHead context := by
  obtain ⟨block, hblock⟩ := Option.isSome_iff_exists.mp hnew
  have hbound : block.header.number < tables.walkBound newHead := by
    unfold walkBound
    rw [hstore.headerOrPayload_eq hblock]
    exact Nat.lt_add_of_pos_right Nat.zero_lt_two
  obtain ⟨common, blocks, hwalk, hpath, hmeets, hfirst⟩ := walkBack_ends hstore hblock hbound
  unfold resolveReorg
  rw [hwalk]
  dsimp only
  split
  next hsame =>
    -- The new head is where the walk stops, so nothing lies above.
    have hempty : blocks = [] := by
      cases hpath with
      | here => rfl
      | above hfound =>
          refine absurd ?_ (hfirst _ List.mem_cons_self)
          rw [(hstore.keyed newHead _ hfound).1, ← hsame.2]
          exact hmeets
    subst hempty
    refine ⟨_, rfl, hpath, hmeets, hfirst, iff_of_false Bool.false_ne_true ?_⟩
    exact fun h => h.2 hsame.2
  next hsame =>
    have hnew : common ≠ newHead := fun heq => hsame ⟨rfl, heq⟩
    split
    next hold =>
      refine ⟨_, rfl, hpath, hmeets, hfirst, iff_of_false Bool.false_ne_true ?_⟩
      exact fun h => h.1 hold.2
    next hold =>
      have hne : common ≠ oldHead := fun heq => hold ⟨rfl, heq⟩
      refine ⟨_, rfl, hpath, hmeets, hfirst, iff_of_true ?_ ⟨hne, hnew⟩⟩
      exact decide_eq_true (Ne.symm hne)

end

/-! ## Two children of the genesis block -/

section

/-- A header with its hash: the genesis block and its two children. -/
def forkHeaders : List (B256 × Header) :=
  [(.leading 1, default),
    (.leading 2, { (default : Header) with number := 1, parentHash := .leading 1 }),
    (.leading 3,
      { (default : Header) with number := 1, parentHash := .leading 1, gasUsed := 1 })]

attribute [local instance] keccak

@[reducible] def forkHashing : BlockHashing := lookupHashing (forkHeaders.map Prod.swap)

attribute [local instance] forkHashing

def emptyBody : BlockBody := ⟨[], [], none⟩

/-- The first child is canonical. -/
def forkTables : ChainTables :=
  { emptyDatabase.chain with
    headers := fun hash => forkHeaders.lookup hash
    blockBodies := fun hash => (forkHeaders.lookup hash).map fun _ => emptyBody
    headerNumbers := fun hash => (forkHeaders.lookup hash).map Header.number
    canonicalHeads := fun number =>
      if number = 0 then some (.leading 1) else if number = 1 then some (.leading 2) else none }

theorem mem_forkHeaders {hash : B256} {header : Header}
    (h : forkTables.headers.get hash = some header) : (hash, header) ∈ forkHeaders := by
  have hlookup : forkHeaders.lookup hash = some header := h
  obtain ⟨before, after, hsplit, -⟩ := List.lookup_eq_some_iff.mp hlookup
  rw [hsplit]
  exact List.mem_append_right _ List.mem_cons_self

theorem header_forkTables {hash : B256} {header : Header}
    (h : forkTables.header Faults.none hash = some header) : (hash, header) ∈ forkHeaders := by
  unfold ChainTables.header at h
  split at h
  · cases h
  · exact mem_forkHeaders h

/-- A block of the tables has the header that stands under its hash. -/
theorem header_of_forkTables {hash : B256} {block : Block}
    (h : forkTables.blockOrPayload Faults.none hash = some block) :
    forkTables.header Faults.none hash = some block.header := by
  have hpayload : forkTables.getPayloadByBlockHash Faults.none hash = none := rfl
  unfold blockOrPayload at h
  rw [Faults.part_none, Faults.part_none, hpayload, Option.map_none, Option.or_none] at h
  unfold blockByHash at h
  rw [Faults.part_none, Faults.part_none] at h
  split at h
  · cases h
  next header hheader =>
    rw [hheader]
    split at h
    · cases h
    · cases h
      rfl

theorem blockStore_fork : BlockStore (.leading 1) forkTables := by
  have hentries : ∀ entry ∈ forkHeaders, hashSlow entry.2 = entry.1 ∧ entry.1 ≠ B256.zero ∧
      (entry.1 ≠ .leading 1 → entry.2.parentHash = .leading 1 ∧ entry.2.number = 1) := by
    decide
  have hgenesis : forkTables.blockOrPayload Faults.none (.leading 1) =
      some ⟨default, emptyBody⟩ := by rfl
  refine ⟨?_, ?_, ?_, by decide⟩
  · intro hash block hblock
    have hentry := hentries _ (header_forkTables (header_of_forkTables hblock))
    exact ⟨hentry.1, hentry.2.1⟩
  · intro hash block header hblock hheader
    exact Option.some.inj ((header_of_forkTables hblock).symm.trans hheader)
  · intro hash block hblock hne
    have hentry := hentries _ (header_forkTables (header_of_forkTables hblock))
    obtain ⟨hparent, hnumber⟩ := hentry.2.2 hne
    refine ⟨⟨default, emptyBody⟩, ?_, hnumber⟩
    rw [hparent]
    exact hgenesis

theorem resolveReorg_fork : ∃ context,
    forkTables.resolveReorg Faults.none (.leading 2) (.leading 3) = .ok context ∧
      PartsAt forkTables (.leading 2) (.leading 3) context :=
  resolveReorg_partsAt blockStore_fork _ _ (by decide)

end

end WasixEth
