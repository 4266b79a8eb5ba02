import WasixEth.Engine.ChainManager
import WasixEth.Engine.PartingHeads

/-! # Deciding ancestry

The search for an ancestor follows parents over the database, the payloads and the
orphan pool, and takes a short cut where it meets the canonical chain. What it
finds is an ancestor, and it finds those that are near enough.
-/

namespace WasixEth.Engine

open Storage ChainTables

section

variable [BlockHashing]

/-- A header that stands for a hash in one of the three places. -/
inductive Knows (engine : Engine) (hash : B256) : Header → Prop
  | stored {header : Header} (h : engine.chain.headers.get hash = some header) :
      Knows engine hash header
  | payload {payload : Payload}
      (h : engine.chain.getPayloadByBlockHash Faults.none hash = some payload) :
      Knows engine hash payload.block.header
  | orphan {block : Block} (h : engine.blockTree.getBlock hash = some block) :
      Knows engine hash block.header

/-- The three places agree on a hash and are linked by parents, and the canonical
heads are a linked chain of stored headers without gaps. -/
structure LinkedStore (engine : Engine) : Prop where
  agree : ∀ hash header header', Knows engine hash header → Knows engine hash header' →
    header = header'
  linked : ∀ hash header parent, Knows engine hash header →
    Knows engine header.parentHash parent → header.number = parent.number + 1
  nonzero : ∀ header, ¬ Knows engine B256.zero header
  numbers : ∀ hash, engine.chain.headerNumbers.get hash =
    (engine.chain.headers.get hash).map Header.number
  canonical : ∀ number hash, engine.chain.canonicalHeads.get number = some hash →
    ∃ header, engine.chain.headers.get hash = some header ∧ header.number = number ∧
      ∀ below, number = below + 1 →
        engine.chain.canonicalHeads.get below = some header.parentHash

/-- So many steps along parents lead from one hash to the other. -/
def Above (engine : Engine) : Nat → B256 → B256 → Prop
  | 0, hash, target => hash = target
  | steps + 1, hash, target =>
      ∃ header, Knows engine hash header ∧ Above engine steps header.parentHash target

variable {engine : Engine}

/-! ## The three places -/

theorem LinkedStore.header_eq (h : LinkedStore engine) (hash : B256) :
    engine.chain.header Faults.none hash = engine.chain.headers.get hash := by
  unfold ChainTables.header
  split
  next hzero =>
    subst hzero
    cases hstored : engine.chain.headers.get B256.zero with
    | none => rfl
    | some header => exact absurd (.stored hstored) (h.nonzero header)
  next => rfl

theorem LinkedStore.numberOf_eq (h : LinkedStore engine) {hash : B256} {header : Header}
    (hknows : Knows engine hash header) :
    engine.numberOf Faults.none hash = some header.number := by
  have hnumber : ∀ other, Knows engine hash other → some other.number = some header.number :=
    fun other hother => by rw [h.agree hash other header hother hknows]
  unfold numberOf blockNumber
  rw [Faults.part_none, Faults.part_none, Faults.read_none, h.numbers]
  cases hstored : engine.chain.headers.get hash with
  | some stored => exact hnumber stored (.stored hstored)
  | none =>
      rw [Option.map_none, Option.none_or]
      cases horphan : engine.blockTree.getBlock hash with
      | some block => exact hnumber block.header (.orphan horphan)
      | none =>
          rw [Option.map_none, Option.none_or]
          cases hpayload : engine.chain.getPayloadByBlockHash Faults.none hash with
          | some payload => exact hnumber payload.block.header (.payload hpayload)
          | none =>
              cases hknows with
              | stored h => rw [hstored] at h; cases h
              | payload h => rw [hpayload] at h; cases h
              | orphan h => rw [horphan] at h; cases h

theorem LinkedStore.parentInfo_eq (h : LinkedStore engine) {hash : B256} {header : Header}
    (hknows : Knows engine hash header) :
    engine.parentInfo Faults.none hash = some (header.parentHash, header.number - 1) := by
  have hinfo : ∀ other, Knows engine hash other →
      some (other.parentHash, other.number - 1) = some (header.parentHash, header.number - 1) :=
    fun other hother => by rw [h.agree hash other header hother hknows]
  unfold parentInfo headerOrPayload
  rw [Faults.part_none, Faults.part_none, h.header_eq]
  cases hstored : engine.chain.headers.get hash with
  | some stored => exact hinfo stored (.stored hstored)
  | none =>
      cases hpayload : engine.chain.getPayloadByBlockHash Faults.none hash with
      | some payload => exact hinfo payload.block.header (.payload hpayload)
      | none =>
          cases horphan : engine.blockTree.getBlock hash with
          | some block => exact hinfo block.header (.orphan horphan)
          | none =>
              cases hknows with
              | stored h => rw [hstored] at h; cases h
              | payload h => rw [hpayload] at h; cases h
              | orphan h => rw [horphan] at h; cases h

/-- A hash that is known nowhere has no parent but the zero hash. -/
theorem knows_of_parentInfo {hash parent : B256} {number : Nat}
    (h : LinkedStore engine) (hinfo : engine.parentInfo Faults.none hash = some (parent, number)) :
    (∃ header, Knows engine hash header ∧ parent = header.parentHash ∧
      number = header.number - 1) ∨ parent = B256.zero := by
  by_cases hknown : ∃ header, Knows engine hash header
  · obtain ⟨header, hknows⟩ := hknown
    rw [h.parentInfo_eq hknows] at hinfo
    cases hinfo
    exact .inl ⟨header, hknows, rfl, rfl⟩
  · push Not at hknown
    right
    unfold parentInfo headerOrPayload at hinfo
    rw [Faults.part_none, Faults.part_none, h.header_eq] at hinfo
    cases hstored : engine.chain.headers.get hash with
    | some stored => exact absurd (.stored hstored) (hknown stored)
    | none =>
        cases hpayload : engine.chain.getPayloadByBlockHash Faults.none hash with
        | some payload => exact absurd (.payload hpayload) (hknown payload.block.header)
        | none =>
            cases horphan : engine.blockTree.getBlock hash with
            | some block => exact absurd (.orphan horphan) (hknown block.header)
            | none =>
                rw [hstored, hpayload, horphan] at hinfo
                simp only [Option.map_none, Option.none_or] at hinfo
                split at hinfo
                · cases hinfo
                  rfl
                · cases hinfo

/-! ## The canonical chain -/

theorem LinkedStore.isCanonical_iff (h : LinkedStore engine) (hash : B256) :
    engine.chain.isCanonical Faults.none hash = true ↔
      ∃ header, engine.chain.headers.get hash = some header ∧
        engine.chain.canonicalHeads.get header.number = some hash := by
  unfold isCanonical blockNumber blockHash
  rw [Faults.part_none, Faults.read_none, h.numbers]
  cases hstored : engine.chain.headers.get hash with
  | none => simp
  | some header =>
      simp only [Option.map_some, Option.some.injEq, exists_eq_left']
      exact decide_eq_true_iff

/-- Along the canonical chain, lower heads are above one another. -/
theorem LinkedStore.above_of_canonical (h : LinkedStore engine) {number steps : Nat}
    {hash target : B256} (hhash : engine.chain.canonicalHeads.get (number + steps) = some hash)
    (htarget : engine.chain.canonicalHeads.get number = some target) :
    Above engine steps hash target := by
  induction steps generalizing hash with
  | zero => exact Option.some.inj (hhash.symm.trans htarget)
  | succ steps ih =>
      obtain ⟨header, hstored, -, hbelow⟩ := h.canonical _ hash hhash
      exact ⟨header, .stored hstored, ih (hbelow (number + steps) rfl)⟩

/-- Numbers fall by one along parents, down to a known block. -/
theorem LinkedStore.number_of_above (h : LinkedStore engine) {steps : Nat} {hash target : B256}
    {header last : Header} (habove : Above engine steps hash target)
    (hheader : Knows engine hash header) (hlast : Knows engine target last) :
    header.number = last.number + steps := by
  induction steps generalizing hash header with
  | zero =>
      obtain rfl : hash = target := habove
      rw [h.agree hash header last hheader hlast, Nat.add_zero]
  | succ steps ih =>
      obtain ⟨found, hfound, hrest⟩ := habove
      rw [h.agree hash header found hheader hfound]
      cases steps with
      | zero =>
          obtain rfl : found.parentHash = target := hrest
          exact h.linked hash found last hfound hlast
      | succ steps =>
          obtain ⟨parent, hparent, habove⟩ := hrest
          have hnumber := ih ⟨parent, hparent, habove⟩ hparent
          have hlink := h.linked hash found parent hfound hparent
          omega

/-- What is above a canonical block is canonical. -/
theorem LinkedStore.canonical_of_above (h : LinkedStore engine) {steps number : Nat}
    {hash target : B256} {last : Header} (habove : Above engine steps hash target)
    (hhash : engine.chain.canonicalHeads.get number = some hash)
    (hlast : Knows engine target last) :
    engine.chain.canonicalHeads.get last.number = some target := by
  induction steps generalizing hash number with
  | zero =>
      obtain rfl : hash = target := habove
      obtain ⟨header, hstored, rfl, -⟩ := h.canonical number hash hhash
      rw [h.agree hash last header hlast (.stored hstored)]
      exact hhash
  | succ steps ih =>
      have hall := habove
      obtain ⟨found, hfound, hrest⟩ := habove
      obtain ⟨header, hstored, hnumber, hbelow⟩ := h.canonical number hash hhash
      have hsame := h.agree hash found header hfound (.stored hstored)
      have hsum := h.number_of_above hall hfound hlast
      rw [hsame] at hsum hrest
      exact ih hrest (hbelow (last.number + steps) (by omega))

/-! ## The search -/

/-- The number that the search carries is that of the block, if it is known. -/
def Carries (engine : Engine) (current : B256) (currentNumber : Option Nat) : Prop :=
  ∀ number header, currentNumber = some number → Knows engine current header →
    header.number = number

/-- The search goes on with the parent. -/
def searchOn (engine : Engine) (target : B256) (targetNumber : Option Nat) (steps : Nat)
    (current : B256) : Bool :=
  match engine.parentInfo Faults.none current with
  | none => false
  | some (parent, number) =>
      engine.searchAncestor target targetNumber steps Faults.none parent (some number)

/-- One step of the search, away from the target and the zero hash: it goes on, has
come below the target, or answers from the canonical chain. -/
inductive SearchStep (engine : Engine) (target : B256) (targetNumber : Option Nat) (steps : Nat)
    (current : B256) (currentNumber : Option Nat) (answer : Bool) : Prop
  | on (h : answer = engine.searchOn target targetNumber steps current)
  | below {number goal : Nat} (hnumber : currentNumber = some number)
      (hgoal : targetNumber = some goal) (hlt : number < goal) (h : answer = false)
  | canonical {number goal : Nat} {hash : B256} (hnumber : currentNumber = some number)
      (hgoal : targetNumber = some goal) (hle : goal ≤ number)
      (hcanonical : engine.chain.isCanonical Faults.none current = true)
      (hhash : engine.chain.canonicalHeads.get goal = some hash)
      (h : answer = decide (hash = target))

theorem searchStep {target current : B256} (targetNumber : Option Nat) (steps : Nat)
    (currentNumber : Option Nat) (hne : current ≠ target) (hzero : current ≠ B256.zero) :
    SearchStep engine target targetNumber steps current currentNumber
      (engine.searchAncestor target targetNumber (steps + 1) Faults.none current
        currentNumber) := by
  unfold searchAncestor
  dsimp only
  rw [if_neg hne, if_neg hzero]
  cases currentNumber with
  | none => exact .on rfl
  | some number =>
      cases targetNumber with
      | none => exact .on rfl
      | some goal =>
          dsimp only
          by_cases hlt : number < goal
          · rw [if_pos hlt]
            exact .below rfl rfl hlt rfl
          · rw [if_neg hlt]
            by_cases hcanonical : engine.chain.isCanonical (Faults.none.part 2) current = true
            · rw [if_pos hcanonical]
              unfold blockHash
              rw [Faults.part_none, Faults.read_none]
              cases hhash : engine.chain.canonicalHeads.get goal with
              | none => exact .on rfl
              | some hash =>
                  exact .canonical rfl rfl (Nat.le_of_not_lt hlt) hcanonical hhash rfl
            · rw [if_neg hcanonical]
              exact .on rfl

/-- What the search finds is above. -/
theorem LinkedStore.above_of_search (h : LinkedStore engine) {target : B256}
    (htarget : target ≠ B256.zero) (targetNumber : Option Nat) {steps : Nat} {current : B256}
    {currentNumber : Option Nat} (hcarries : Carries engine current currentNumber)
    (hsearch : engine.searchAncestor target targetNumber steps Faults.none current currentNumber =
      true) : ∃ distance, Above engine distance current target := by
  induction steps generalizing current currentNumber with
  | zero => cases hsearch
  | succ steps ih =>
      by_cases heq : current = target
      · exact ⟨0, heq⟩
      by_cases hzero : current = B256.zero
      · subst hzero
        unfold searchAncestor at hsearch
        rw [if_neg heq, if_pos rfl] at hsearch
        cases hsearch
      have hstep : SearchStep engine _ _ _ _ _ _ :=
        searchStep targetNumber steps currentNumber heq hzero
      rw [hsearch] at hstep
      cases hstep with
      | on hon =>
          unfold searchOn at hon
          cases hinfo : engine.parentInfo Faults.none current with
          | none =>
              rw [hinfo] at hon
              cases hon
          | some info =>
              obtain ⟨parent, number⟩ := info
              rw [hinfo] at hon
              rcases knows_of_parentInfo h hinfo with ⟨header, hknows, rfl, rfl⟩ | rfl
              · have hcarries' : Carries engine header.parentHash (some (header.number - 1)) := by
                  intro number parent hnumber hparent
                  cases hnumber
                  have hlink := h.linked current header parent hknows hparent
                  omega
                obtain ⟨distance, habove⟩ := ih hcarries' hon.symm
                exact ⟨distance + 1, header, hknows, habove⟩
              · have hcarries' : Carries engine B256.zero (some number) :=
                  fun _ header _ hknows => absurd hknows (h.nonzero header)
                obtain ⟨distance, habove⟩ := ih hcarries' hon.symm
                cases distance with
                | zero => exact absurd habove.symm htarget
                | succ distance =>
                    obtain ⟨header, hknows, -⟩ := habove
                    exact absurd hknows (h.nonzero header)
      | below _ _ _ hfalse => cases hfalse
      | @canonical number goal hash hnumber _ hle hcanonical hhash htrue =>
          obtain ⟨header, hstored, hhead⟩ := (h.isCanonical_iff current).mp hcanonical
          rw [hcarries number header hnumber (.stored hstored)] at hhead
          obtain ⟨distance, rfl⟩ := Nat.exists_eq_add_of_le hle
          have hsame : hash = target := of_decide_eq_true htrue.symm
          exact ⟨distance, h.above_of_canonical hhead (hsame ▸ hhash)⟩

/-- What is above and near enough is found. -/
theorem LinkedStore.search_of_above (h : LinkedStore engine) {target : B256} {last : Header}
    (hlast : Knows engine target last) {steps distance : Nat} {current : B256}
    {currentNumber : Option Nat} (habove : Above engine distance current target)
    (hcarries : currentNumber = some (last.number + distance)) (hsteps : distance < steps) :
    engine.searchAncestor target (some last.number) steps Faults.none current currentNumber =
      true := by
  induction steps generalizing current currentNumber distance with
  | zero => exact absurd hsteps (Nat.not_lt_zero _)
  | succ steps ih =>
      by_cases heq : current = target
      · unfold searchAncestor
        rw [if_pos heq]
      cases distance with
      | zero => exact absurd habove heq
      | succ distance =>
          have hall := habove
          obtain ⟨header, hknows, hrest⟩ := habove
          have hzero : current ≠ B256.zero := by
            rintro rfl
            exact h.nonzero header hknows
          have hstep : SearchStep engine _ _ _ _ _ _ :=
            searchStep (some last.number) steps currentNumber heq hzero
          cases hstep with
          | on hon =>
              rw [hon]
              unfold searchOn
              rw [h.parentInfo_eq hknows]
              refine ih hrest ?_ (Nat.lt_of_succ_lt_succ hsteps)
              have hnumber := h.number_of_above hall hknows hlast
              rw [hnumber]
              rfl
          | below hnumber hgoal hlt _ =>
              rw [hcarries] at hnumber
              cases hnumber
              cases hgoal
              omega
          | canonical hnumber hgoal _ hcanonical hhash htrue =>
              cases hgoal
              obtain ⟨stored, hstored, hhead⟩ := (h.isCanonical_iff current).mp hcanonical
              rw [h.canonical_of_above hall hhead hlast] at hhash
              cases hhash
              rw [htrue]
              exact decide_eq_true rfl

/-! ## The test -/

/-- The test holds of ancestors only, and of every known one that is near enough. -/
theorem isAncestor_decides (h : LinkedStore engine) (head target : B256)
    (htarget : target ≠ B256.zero) :
    (engine.isAncestor Faults.none head target = true →
        ∃ distance, Above engine distance head target) ∧
      ∀ distance last, distance ≤ 2047 → Knows engine target last →
        Above engine distance head target →
          engine.isAncestor Faults.none head target = true := by
  by_cases heq : head = target
  · have htrue : engine.isAncestor Faults.none head target = true := by
      unfold isAncestor
      rw [if_pos heq]
    exact ⟨fun _ => ⟨0, heq⟩, fun _ _ _ _ _ => htrue⟩
  unfold isAncestor
  rw [if_neg heq, if_neg htarget]
  dsimp only
  rw [Faults.part_none, Faults.part_none, Faults.part_none, Faults.part_none, Faults.part_none]
  constructor
  · intro htest
    have hcarries : Carries engine head (engine.numberOf Faults.none head) := by
      intro number header hnumber hknows
      rw [h.numberOf_eq hknows] at hnumber
      exact Option.some.inj hnumber
    have hsearched : engine.searchAncestor target (engine.numberOf Faults.none target) 2048
        Faults.none head (engine.numberOf Faults.none head) = true →
          ∃ distance, Above engine distance head target :=
      h.above_of_search htarget _ hcarries
    cases hhead : engine.numberOf Faults.none head with
    | none =>
        rw [hhead] at htest hsearched
        exact hsearched htest
    | some number =>
        cases hgoal : engine.numberOf Faults.none target with
        | none =>
            rw [hhead, hgoal] at htest hsearched
            exact hsearched htest
        | some goal =>
            rw [hhead, hgoal] at htest hsearched
            dsimp only at htest
            split at htest
            · cases htest
            next hle =>
              split at htest
              next hboth =>
                rw [Bool.and_eq_true] at hboth
                obtain ⟨stored, hstored, hat⟩ := (h.isCanonical_iff target).mp hboth.1
                obtain ⟨header, hheader, hhash⟩ := (h.isCanonical_iff head).mp hboth.2
                rw [h.numberOf_eq (.stored hstored)] at hgoal
                rw [h.numberOf_eq (.stored hheader)] at hhead
                cases hgoal
                cases hhead
                obtain ⟨distance, hsum⟩ := Nat.exists_eq_add_of_le (Nat.le_of_not_lt hle)
                rw [hsum] at hhash
                exact ⟨distance, h.above_of_canonical hhash hat⟩
              next => exact hsearched htest
  · intro distance last hdistance hlast habove
    have hhead : engine.numberOf Faults.none head = some (last.number + distance) := by
      cases distance with
      | zero => exact absurd habove heq
      | succ distance =>
          have hall := habove
          obtain ⟨header, hknows, -⟩ := habove
          rw [h.numberOf_eq hknows, h.number_of_above hall hknows hlast]
    have hsearched := h.search_of_above hlast habove rfl (Nat.lt_succ_of_le hdistance)
    rw [hhead, h.numberOf_eq hlast]
    dsimp only
    rw [if_neg (by omega)]
    split
    · rfl
    · exact hsearched

end

section

attribute [local instance] keccak forkHashing

def forkEngine : Engine := ⟨forkTables, emptyDatabase.state, CanonicalState.new forkTables, .empty⟩

theorem linkedStore_fork : LinkedStore forkEngine := by
  have hentries : ∀ entry ∈ forkHeaders, entry.1 ≠ B256.zero ∧
      ∀ parent ∈ forkHeaders, entry.2.parentHash = parent.1 →
        entry.2.number = parent.2.number + 1 := by
    decide
  have hstored : ∀ hash header, Knows forkEngine hash header →
      forkTables.headers.get hash = some header := by
    intro hash header hknows
    cases hknows with
    | stored h => exact h
    | payload h => cases h
    | orphan h => cases h
  refine ⟨?_, ?_, ?_, fun _ => rfl, ?_⟩
  · intro hash header header' hheader hheader'
    exact Option.some.inj ((hstored _ _ hheader).symm.trans (hstored _ _ hheader'))
  · intro hash header parent hheader hparent
    exact (hentries _ (mem_forkHeaders (hstored _ _ hheader))).2 _
      (mem_forkHeaders (hstored _ _ hparent)) rfl
  · intro header hheader
    exact (hentries _ (mem_forkHeaders (hstored _ _ hheader))).1 rfl
  · intro number hash hhash
    have hheads : (if number = 0 then some (B256.leading 1)
        else if number = 1 then some (.leading 2) else none) = some hash := hhash
    split at hheads
    next hzero =>
      cases hheads
      subst hzero
      exact ⟨default, rfl, rfl, fun below hbelow => nomatch hbelow⟩
    next =>
      split at hheads
      next hone =>
        cases hheads
        subst hone
        refine ⟨_, rfl, rfl, fun below hbelow => ?_⟩
        obtain rfl : below = 0 := (Nat.succ.inj hbelow).symm
        rfl
      next => cases hheads

/-- The child beside the canonical one has the genesis block as an ancestor. -/
theorem isAncestor_fork :
    forkEngine.isAncestor Faults.none (.leading 3) (.leading 1) = true :=
  (isAncestor_decides linkedStore_fork (.leading 3) (.leading 1) (by decide)).2 1 default
    (by decide) (.stored rfl) ⟨_, .stored rfl, rfl⟩

end

end WasixEth.Engine
