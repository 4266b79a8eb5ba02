import WasixEth.Storage.BatchCalls

/-! # Reading back what a batch wrote

A batch shows the base state under what its calls have written, as long as no
reset or removal meets a slot of the overlay that is not zero, no mark meets a
row of another branch, and no storage root from before a removal is written
again.
-/

namespace WasixEth.Storage

open Routine BatchWriter BatchSession

section

variable [Keccak256]

/-- The state below a root is in the table. -/
structure World.At (world : World) (nodes : Table B256 Bytes) (root : B256) : Prop where
  accounts : ∃ contents, TrieAt nodes root contents ∧
    ∀ address : Address, contents (keccak256 address.bytes) =
      (world.accounts address).map TrieAccount.encode
  present : ∀ address found, world.accounts address = some found →
    SlotsAt Set.univ nodes found.storageRoot (world.storages address)
  absent : ∀ address, world.accounts address = none → ∀ slot, world.storages address slot = 0

/-- A batch over a base state that has not been written to. Its other tables
may hold anything. -/
structure Fresh (root : B256) (batch : BatchWriter) : Prop where
  base : batch.baseStateRoot = some root
  touchedAccounts : batch.touchedAccounts = []
  touchedStorages : batch.touchedStorages = []
  resettedStorages : batch.resettedStorages = []

/-- Every call finds what `P` asks for, with what has been written before it. -/
def Along (root : B256) (world : World) (P : Overlay → BatchSession → BatchCall → Prop) :
    List BatchCall → Overlay → BatchSession → Prop
  | [], _, _ => True
  | call :: calls, overlay, s =>
      P overlay s call ∧
        Along root world P calls (overlay.step world call) (perform root call s).state

/-- An account is written with the storage root last read or last calculated
for it. -/
def Supplied (s : BatchSession) : BatchCall → Prop
  | .updateAccount address account =>
      ∃ sighting, s.Saw address sighting ∧ sighting.root = account.storageRoot
  | _ => True

/-- The slots of the overlay that a reset or a removal would leave behind are
zero, an account that is marked stands in the table as it stands in the trie,
and a slot is written for an account that has been marked only if it exists. A
storage root from before the removal of an account has none of the slots that
are not in the overlay. -/
def Careful (world : World) (overlay : Overlay) (s : BatchSession) : BatchCall → Prop
  | .updateAccount address account =>
      address ∉ s.batch.resettedStorages →
      (∀ sighting, s.Saw address sighting → sighting.root = account.storageRoot →
        sighting.stale = true) →
      ∃ values, SlotsAt Set.univ s.batch.tables.trieNodes account.storageRoot values ∧
        ∀ slot, s.batch.written address slot = none → values slot = 0
  | .removeAccount address => ∀ slot value, s.batch.written address slot = some value → value = 0
  | .resetStorage address => ∀ slot value, s.batch.written address slot = some value → value = 0
  | .updateStorage address _ _ =>
      address ∈ s.batch.touchedAccounts → overlay.accounts address = none →
        world.accounts address ≠ none
  | .markAccountTouched address =>
      address ∉ s.batch.touchedAccounts →
        s.batch.tables.accounts.get address = world.accounts address
  | _ => True

/-- A storage root that may be written for an account: its trie has the slots
that are not in the overlay. -/
def Suits (strings : Set Bytes) (batch : BatchWriter) (address : Address) (values : B256 → U256)
    (storageRoot : B256) : Prop :=
  address ∉ batch.resettedStorages →
    ∃ stored, SlotsAt strings batch.tables.trieNodes storageRoot stored ∧
      ∀ slot, batch.written address slot = none → stored slot = values slot

variable {strings : Set Bytes} {root : B256} {world : World} {overlay : Overlay}
  {s : BatchSession}

theorem Suits.mono {batch batch' : BatchWriter} {address : Address} {values values' : B256 → U256}
    {storageRoot : B256} (h : Suits strings batch address values storageRoot)
    (hgrows : Grows batch.tables.trieNodes batch'.tables.trieNodes)
    (hreset : address ∈ batch.resettedStorages → address ∈ batch'.resettedStorages)
    (hslots : ∀ slot, batch'.written address slot = none →
      batch.written address slot = none ∧ values' slot = values slot) :
    Suits strings batch' address values' storageRoot := by
  intro hnot
  obtain ⟨stored, hstoredAt, hstored⟩ := h fun hmem => hnot (hreset hmem)
  refine ⟨stored, hstoredAt.mono hgrows, fun slot hslot => ?_⟩
  obtain ⟨hwritten, hvalue⟩ := hslots slot hslot
  rw [hstored slot hwritten, hvalue]

/-- The batch shows the overlay, and the roots that were seen since the last
removal may be written. -/
structure Tracked (strings : Set Bytes) (root : B256) (world : World) (overlay : Overlay)
    (s : BatchSession) : Prop where
  view : View strings root (overlay.accountAt world) (overlay.storageAt world) s.batch
  touched : ∀ address, overlay.accounts address ≠ none → address ∈ s.batch.touchedAccounts
  slots : ∀ address slot, s.batch.written address slot = none → overlay.slots address slot = none
  stale : ∀ address sighting, s.Saw address sighting → sighting.stale = true →
    overlay.cleared address = true
  current : ∀ address sighting, s.Saw address sighting → sighting.stale = false →
    Suits strings s.batch address (overlay.storageAt world address) sighting.root

/-! ## The overlay of one call -/

namespace Overlay

omit [Keccak256]

theorem accountAt_setAccount (overlay : Overlay) (world : World) (address : Address)
    (account : Option TrieAccount) :
    (overlay.setAccount address account).accountAt world =
      Function.update (overlay.accountAt world) address account := by
  funext other
  unfold accountAt setAccount
  by_cases hother : other = address
  · subst hother
    simp
  · simp [hother]

theorem storageAt_clear (overlay : Overlay) (world : World) (address : Address) :
    (overlay.clear address).storageAt world =
      Function.update (overlay.storageAt world) address fun _ => 0 := by
  funext other
  unfold storageAt clear
  by_cases hother : other = address
  · subst hother
    simp
  · simp [hother]

theorem storageAt_setSlot (overlay : Overlay) (world : World) (address : Address) (slot : B256)
    (value : U256) :
    (overlay.setSlot address slot value).storageAt world =
      Function.update (overlay.storageAt world) address
        (Function.update (overlay.storageAt world address) slot value) := by
  funext other slot'
  unfold storageAt setSlot
  by_cases hother : other = address
  · subst hother
    by_cases hslot : slot' = slot
    · subst hslot
      simp
    · simp [hslot]
  · simp [hother]

/-- A slot that is not written since an account was cleared is zero. -/
theorem storageAt_of_cleared {overlay : Overlay} {world : World} {address : Address} {slot : B256}
    (hcleared : overlay.cleared address = true) (hslot : overlay.slots address slot = none) :
    overlay.storageAt world address slot = 0 := by
  unfold storageAt
  rw [hslot, if_pos hcleared, Option.getD_none]

end Overlay

/-! ## Calls -/

omit [Keccak256] in
theorem onBatch_spec {α : Type} {m : BatchM α} {Q : α → BatchWriter → Prop}
    (h : Triple (· ∈ strings) (· = s.batch) m Q) :
    Triple (· ∈ strings) (· = s) (BatchSession.onBatch m)
      fun a s' => ∃ batch, Q a batch ∧ s' = { s with batch } := by
  rintro s rfl hlog
  obtain ⟨a, hresult, hQ⟩ := h s.batch rfl hlog
  exact ⟨a, hresult, _, hQ, rfl⟩

/-- Nothing but what was written for one address has changed. -/
structure Overlay.OnlyAt (address : Address) (overlay overlay' : Overlay) : Prop where
  accounts : ∀ other, other ≠ address → overlay'.accounts other = overlay.accounts other
  slots : ∀ other, other ≠ address → overlay'.slots other = overlay.slots other
  cleared : ∀ other, other ≠ address → overlay'.cleared other = overlay.cleared other

theorem Overlay.onlyAt_step (world : World) (overlay : Overlay) (call : BatchCall) :
    Overlay.OnlyAt call.address overlay (overlay.step world call) := by
  constructor
  all_goals
    intro other hother
    cases call with
    | updateStorage address slot value =>
        simp only [BatchCall.address] at hother
        unfold Overlay.step
        dsimp only
        split <;> simp [Overlay.setSlot, Overlay.setAccount, hother]
    | _ =>
        simp only [BatchCall.address] at hother
        simp [Overlay.step, Overlay.setAccount, Overlay.clear, hother]

theorem Suits.onlyAt {batch batch' : BatchWriter} {address other : Address} {values : B256 → U256}
    {storageRoot : B256} (h : Suits strings batch other values storageRoot)
    (honly : OnlyAt address batch batch') (hother : other ≠ address) :
    Suits strings batch' other values storageRoot := by
  refine h.mono ?_ (honly.resetted other hother).mpr fun slot hslot => ?_
  · rw [honly.nodes]
    exact fun _ _ hget => hget
  · rw [honly.written other hother] at hslot
    exact ⟨hslot, rfl⟩

/-- A call is about one address, and only what it leaves behind there is to be
shown. -/
theorem Tracked.change (h : Tracked strings root world overlay s) (call : BatchCall)
    {s' : BatchSession} (honly : OnlyAt call.address s.batch s'.batch)
    (hsaw : ∀ other sighting, other ≠ call.address → s'.Saw other sighting → s.Saw other sighting)
    (hview : View strings root ((overlay.step world call).accountAt world)
      ((overlay.step world call).storageAt world) s'.batch)
    (htouched : (overlay.step world call).accounts call.address ≠ none →
      call.address ∈ s'.batch.touchedAccounts)
    (hslots : ∀ slot, s'.batch.written call.address slot = none →
      (overlay.step world call).slots call.address slot = none)
    (hstale : ∀ sighting, s'.Saw call.address sighting → sighting.stale = true →
      (overlay.step world call).cleared call.address = true)
    (hcurrent : ∀ sighting, s'.Saw call.address sighting → sighting.stale = false →
      Suits strings s'.batch call.address
        ((overlay.step world call).storageAt world call.address) sighting.root) :
    Tracked strings root world (overlay.step world call) s' := by
  have hoverlay := overlay.onlyAt_step world call
  refine ⟨hview, fun other => ?_, fun other => ?_, fun other => ?_, fun other => ?_⟩
  all_goals
    by_cases hother : other = call.address
    · subst hother
      assumption
  · rw [hoverlay.accounts other hother, honly.touched other hother]
    exact h.touched other
  · rw [hoverlay.slots other hother, honly.written other hother]
    exact h.slots other
  · intro sighting hsighting
    rw [hoverlay.cleared other hother]
    exact h.stale other sighting (hsaw other sighting hother hsighting)
  · intro sighting hsighting hfresh
    have hvalues :
        (overlay.step world call).storageAt world other = overlay.storageAt world other := by
      funext slot
      unfold Overlay.storageAt
      rw [hoverlay.slots other hother, hoverlay.cleared other hother]
    rw [hvalues]
    exact (h.current other sighting (hsaw other sighting hother hsighting) hfresh).onlyAt honly
      hother

/-! ## Each call -/

omit [Keccak256] in
/-- A reset or a removal that finds only zeros in the overlay leaves zeros. -/
theorem written_getD_eq_zero {address : Address} {batch : BatchWriter}
    (h : ∀ slot value, batch.written address slot = some value → value = 0) :
    (fun slot => (batch.written address slot).getD 0) = fun _ => 0 := by
  funext slot
  cases hslot : batch.written address slot with
  | none => rfl
  | some value => exact h slot value hslot

section

variable (h : Tracked strings root world overlay s) (address : Address)

include h

/-- A storage root that was seen may be written. -/
theorem Tracked.suits {account : TrieAccount}
    (hsupplied : Supplied s (.updateAccount address account))
    (hcareful : Careful world overlay s (.updateAccount address account)) :
    Suits strings s.batch address (overlay.storageAt world address) account.storageRoot := by
  obtain ⟨sighting, hsaw, hroot⟩ := hsupplied
  by_cases hstale : ∀ sighting, s.Saw address sighting → sighting.root = account.storageRoot →
      sighting.stale = true
  · intro hreset
    have hcleared := h.stale address sighting hsaw (hstale sighting hsaw hroot)
    obtain ⟨values, hvalues, hzero⟩ := hcareful hreset hstale
    refine ⟨values, hvalues.restrict, fun slot hslot => ?_⟩
    rw [hzero slot hslot,
      Overlay.storageAt_of_cleared hcleared (h.slots address slot hslot)]
  · push Not at hstale
    obtain ⟨current, hsaw', hroot', hcurrent⟩ := hstale
    rw [← hroot']
    exact h.current address current hsaw' (Bool.eq_false_of_not_eq_true hcurrent)

theorem Tracked.updateAccount (hstrings : CollisionFree strings) {account : TrieAccount}
    (hsupplied : Supplied s (.updateAccount address account))
    (hcareful : Careful world overlay s (.updateAccount address account)) :
    Triple (· ∈ strings) (· = s) (perform root (.updateAccount address account))
      fun _ s' => Tracked strings root world
        (overlay.step world (.updateAccount address account)) s' := by
  refine (onBatch_spec (updateAccount_spec hstrings h.view address account)).weaken ?_
  rintro _ _ ⟨batch, hwrites, rfl⟩
  refine h.change (.updateAccount address account) hwrites.toOnlyAt (fun _ _ _ hsaw => hsaw) ?_
    (fun _ => hwrites.self_touched) (fun slot hslot => ?_) (h.stale address) ?_
  · dsimp only [Overlay.step]
    rw [Overlay.accountAt_setAccount]
    exact h.view.update hwrites (h.suits address hsupplied hcareful)
  · exact h.slots address slot (hwrites.self_written ▸ hslot)
  · intro sighting hsaw hcurrent
    refine (h.current address sighting hsaw hcurrent).mono ?_ hwrites.self_resetted.mpr ?_
    · rw [hwrites.nodes]
      exact fun _ _ hget => hget
    · exact fun slot hslot => ⟨hwrites.self_written ▸ hslot, rfl⟩

theorem Tracked.removeAccount (hstrings : CollisionFree strings)
    (hcareful : Careful world overlay s (.removeAccount address)) :
    Triple (· ∈ strings) (· = s) (perform root (.removeAccount address))
      fun _ s' => Tracked strings root world (overlay.step world (.removeAccount address)) s' := by
  refine triple_bind (onBatch_spec (removeAccount_spec hstrings h.view address)) fun _ => ?_
  refine triple_of_exists_pre fun batch => triple_of_pure_pre fun hwrites => ?_
  refine triple_modify fun s' hs' => ?_
  subst hs'
  -- no sighting of the account is current any more
  have hexpired (sightings : Address → Option Sighting) (sighting : Sighting)
      (hsighting : expire address sightings address = some sighting) : sighting.stale = true := by
    simp only [expire, Function.update_self, Option.map_eq_some_iff] at hsighting
    obtain ⟨old, -, rfl⟩ := hsighting
    rfl
  refine h.change (.removeAccount address) hwrites.toOnlyAt ?_ ?_
    (fun _ => hwrites.self_touched) (fun _ _ => ?_) (fun _ _ _ => ?_) ?_
  · intro other sighting hother hsaw
    have hne : other ≠ address := hother
    simpa [Saw, expire, hne] using hsaw
  · have hview := h.view.remove hwrites
    rw [written_getD_eq_zero hcareful, ← Overlay.accountAt_setAccount] at hview
    dsimp only [Overlay.step]
    rw [Overlay.storageAt_clear]
    exact hview
  · simp [Overlay.step, Overlay.clear, BatchCall.address]
  · simp [Overlay.step, Overlay.clear, BatchCall.address]
  · rintro sighting (hsighting | hsighting) hcurrent
    all_goals
      rw [hexpired _ sighting hsighting] at hcurrent
      cases hcurrent

theorem Tracked.resetStorage (hcareful : Careful world overlay s (.resetStorage address)) :
    Triple (· ∈ strings) (· = s) (perform root (.resetStorage address))
      fun _ s' => Tracked strings root world (overlay.step world (.resetStorage address)) s' := by
  refine (onBatch_spec (Q := fun _ batch => batch = { s.batch with
    resettedStorages := insertElement s.batch.resettedStorages address })
      (triple_modify fun _ hbatch => by rw [hbatch])).weaken ?_
  rintro _ _ ⟨batch, rfl, rfl⟩
  refine h.change (.resetStorage address) (onlyAt_reset s.batch address) (fun _ _ _ hsaw => hsaw)
    ?_ (h.touched address) (fun _ _ => ?_) (fun _ _ _ => ?_) ?_
  · have hview := h.view.reset address
    rw [written_getD_eq_zero hcareful, ← Overlay.storageAt_clear] at hview
    exact hview
  · simp [Overlay.step, Overlay.clear, BatchCall.address]
  · simp [Overlay.step, Overlay.clear, BatchCall.address]
  · exact fun _ _ _ hnot => absurd (mem_insertElement.mpr (.inl rfl)) hnot

theorem Tracked.markAccountTouched
    (hcareful : Careful world overlay s (.markAccountTouched address)) :
    Triple (· ∈ strings) (· = s) (perform root (.markAccountTouched address))
      fun _ s' => Tracked strings root world
        (overlay.step world (.markAccountTouched address)) s' := by
  refine (onBatch_spec (Q := fun _ batch => batch = { s.batch with
    touchedAccounts := insertElement s.batch.touchedAccounts address })
      (triple_modify fun _ hbatch => by rw [hbatch])).weaken ?_
  rintro _ _ ⟨batch, rfl, rfl⟩
  refine h.change (.markAccountTouched address) (onlyAt_mark s.batch address)
    (fun _ _ _ hsaw => hsaw) (h.view.mark fun huntouched => ?_)
    (fun _ => mem_insertElement.mpr (.inl rfl)) (h.slots address) (h.stale address)
    (h.current address)
  -- nothing was written for an account that is not touched
  have hnone : overlay.accounts address = none := by
    by_contra hsome
    exact huntouched (h.touched address hsome)
  rw [hcareful huntouched]
  unfold Overlay.accountAt
  rw [hnone, Option.getD_none]

/-- The account that comes with a slot is the one that the overlay says. -/
theorem Tracked.materialized (slot : B256) (value : U256)
    (hcareful : Careful world overlay s (.updateStorage address slot value)) :
    (overlay.step world (.updateStorage address slot value)).accountAt world =
      Function.update (overlay.accountAt world) address
        (s.batch.materialized (overlay.accountAt world) address) := by
  have hbase (hnone : overlay.accounts address = none) :
      overlay.accountAt world address = world.accounts address := by
    unfold Overlay.accountAt
    rw [hnone, Option.getD_none]
  unfold Overlay.step BatchWriter.materialized
  dsimp only
  split
  next hnone =>
      rw [Overlay.accountAt_setAccount]
      change Function.update (overlay.accountAt world) address _ = _
      congr 1
      rw [hbase hnone]
      split
      next htouched =>
          obtain ⟨found, hfound⟩ := Option.ne_none_iff_exists'.mp (hcareful htouched hnone)
          rw [hfound, Option.getD_some]
      next => rfl
  next hsome =>
      rw [if_pos (h.touched address hsome), Function.update_eq_self]
      rfl

theorem Tracked.updateStorage (hstrings : CollisionFree strings) {slot : B256} {value : U256}
    (hslot : slot.bytes ∈ strings)
    (hcareful : Careful world overlay s (.updateStorage address slot value)) :
    Triple (· ∈ strings) (· = s) (perform root (.updateStorage address slot value))
      fun _ s' => Tracked strings root world
        (overlay.step world (.updateStorage address slot value)) s' := by
  refine (onBatch_spec (updateStorage_spec hstrings h.view address hslot value)).weaken ?_
  rintro _ _ ⟨batch, hwrites, rfl⟩
  have hstorages : (overlay.step world (.updateStorage address slot value)).storageAt world =
      Function.update (overlay.storageAt world) address
        (Function.update (overlay.storageAt world address) slot value) := by
    rw [← Overlay.storageAt_setSlot]
    unfold Overlay.step
    dsimp only
    split <;> rfl
  have hslots : (overlay.step world (.updateStorage address slot value)).slots address =
      Function.update (overlay.slots address) slot (some value) := by
    unfold Overlay.step
    dsimp only
    split <;> exact Function.update_self _ _ _
  have hcleared : (overlay.step world (.updateStorage address slot value)).cleared =
      overlay.cleared := by
    unfold Overlay.step
    dsimp only
    split <;> rfl
  have hother (slot' : B256) (hnone : batch.written address slot' = none) :
      slot' ≠ slot ∧ s.batch.written address slot' = none := by
    rw [hwrites.self_written] at hnone
    by_cases heq : slot' = slot
    · rw [heq, Function.update_self] at hnone
      cases hnone
    · exact ⟨heq, by rwa [Function.update_of_ne heq] at hnone⟩
  refine h.change (.updateStorage address slot value) hwrites.toOnlyAt
    (fun _ _ _ hsaw => hsaw) ?_ (fun _ => hwrites.self_touched) (fun slot' hnone => ?_) ?_ ?_
  · rw [h.materialized address slot value hcareful, hstorages]
    exact h.view.setSlot hwrites
  · obtain ⟨hne, hwritten⟩ := hother slot' hnone
    dsimp only [BatchCall.address]
    rw [hslots, Function.update_of_ne hne]
    exact h.slots address slot' hwritten
  · rw [hcleared]
    exact h.stale address
  · intro sighting hsaw hcurrent
    refine (h.current address sighting hsaw hcurrent).mono ?_ hwrites.self_resetted.mpr ?_
    · rw [hwrites.nodes]
      exact fun _ _ hget => hget
    · intro slot' hnone
      obtain ⟨hne, hwritten⟩ := hother slot' hnone
      dsimp only [BatchCall.address]
      rw [hstorages, Function.update_self, Function.update_of_ne hne]
      exact ⟨hwritten, rfl⟩

/-- One more root is seen that may be written. -/
theorem Tracked.see {storageRoot : B256} {s' : BatchSession} (hbatch : s'.batch = s.batch)
    (hsaw : ∀ other sighting, s'.Saw other sighting →
      s.Saw other sighting ∨ other = address ∧ sighting = ⟨storageRoot, false⟩)
    (hsuits : Suits strings s.batch address (overlay.storageAt world address) storageRoot) :
    Tracked strings root world overlay s' := by
  refine ⟨hbatch ▸ h.view, hbatch ▸ h.touched, hbatch ▸ h.slots, ?_, ?_⟩
  · intro other sighting hsighting hstale
    rcases hsaw other sighting hsighting with hold | ⟨rfl, rfl⟩
    · exact h.stale other sighting hold hstale
    · cases hstale
  · intro other sighting hsighting hcurrent
    rw [hbatch]
    rcases hsaw other sighting hsighting with hold | ⟨rfl, rfl⟩
    · exact h.current other sighting hold hcurrent
    · exact hsuits

theorem Tracked.account (hstrings : CollisionFree strings) :
    Triple (· ∈ strings) (· = s) (perform root (.account address))
      fun _ s' => Tracked strings root world overlay s' := by
  refine triple_bind (onBatch_spec (account_spec hstrings h.view address rfl)) fun found => ?_
  refine triple_of_exists_pre fun batch => triple_of_pure_pre fun hfound => ?_
  obtain ⟨rfl, rfl⟩ := hfound
  refine triple_modify fun s' hs' => ?_
  subst hs'
  refine h.see address rfl ?_ fun hreset => (h.view.slots address).exists_slotsAt hreset
  rintro other sighting (hread | hroot)
  · by_cases hother : other = address
    · subst hother
      dsimp only at hread
      rw [Function.update_self] at hread
      exact .inr ⟨rfl, (Option.some.inj hread).symm⟩
    · dsimp only at hread
      rw [Function.update_of_ne hother] at hread
      exact .inl (.inl hread)
  · exact .inl (.inr hroot)

theorem Tracked.calculateStorageRoot (hstrings : CollisionFree strings) :
    Triple (· ∈ strings) (· = s) (perform root (.calculateStorageRoot address))
      fun _ s' => Tracked strings root world overlay s' := by
  refine triple_bind (onBatch_spec (calculateStorageRoot_spec hstrings h.view address rfl))
    fun storageRoot => ?_
  refine triple_of_exists_pre fun batch => triple_of_pure_pre fun hnodes => ?_
  obtain ⟨nodes, rfl, hkeyed, hgrows, hslots⟩ := hnodes
  refine triple_modify fun s' hs' => ?_
  subst hs'
  -- more nodes change nothing
  have hgrown : Tracked strings root world overlay
      { s with batch := { s.batch with tables := { s.batch.tables with trieNodes := nodes } } } := by
    refine ⟨h.view.withNodes hkeyed hgrows, h.touched, h.slots, h.stale, ?_⟩
    intro other sighting hsaw hcurrent
    exact (h.current other sighting hsaw hcurrent).mono hgrows id fun _ hslot => ⟨hslot, rfl⟩
  refine hgrown.see address rfl ?_ fun _ => ⟨_, hslots, fun _ _ => rfl⟩
  rintro other sighting (hread | hroot)
  · exact .inl (.inl hread)
  · by_cases hother : other = address
    · subst hother
      dsimp only at hroot
      rw [Function.update_self] at hroot
      exact .inr ⟨rfl, (Option.some.inj hroot).symm⟩
    · dsimp only at hroot
      rw [Function.update_of_ne hother] at hroot
      exact .inl (.inr hroot)

end

/-! ## Runs of calls -/

theorem perform_tracked (hstrings : CollisionFree strings)
    (h : Tracked strings root world overlay s) (call : BatchCall)
    (hsupplied : Supplied s call) (hcareful : Careful world overlay s call)
    (hslots : ∀ slot ∈ call.slots, slot.bytes ∈ strings) :
    Triple (· ∈ strings) (· = s) (perform root call)
      fun _ s' => Tracked strings root world (overlay.step world call) s' := by
  cases call with
  | updateAccount address account => exact h.updateAccount address hstrings hsupplied hcareful
  | removeAccount address => exact h.removeAccount address hstrings hcareful
  | updateStorage address slot value =>
      exact h.updateStorage address hstrings (hslots slot List.mem_cons_self) hcareful
  | resetStorage address => exact h.resetStorage address hcareful
  | markAccountTouched address => exact h.markAccountTouched address hcareful
  | account address => exact h.account address hstrings
  | calculateStorageRoot address => exact h.calculateStorageRoot address hstrings

theorem performAll_tracked (hstrings : CollisionFree strings) (calls : List BatchCall)
    (h : Tracked strings root world overlay s)
    (hsupplied : Along root world (fun _ => Supplied) calls overlay s)
    (hcareful : Along root world (Careful world) calls overlay s)
    (hslots : ∀ slot ∈ calls.flatMap BatchCall.slots, slot.bytes ∈ strings) :
    Triple (· ∈ strings) (· = s) (performAll root calls)
      fun _ s' => Tracked strings root world (overlay.run world calls) s' := by
  induction calls generalizing overlay s with
  | nil =>
      refine triple_pure fun s' hs' => ?_
      subst hs'
      exact h
  | cons call calls ih =>
      obtain ⟨hsuppliedHere, hsuppliedLater⟩ := hsupplied
      obtain ⟨hcarefulHere, hcarefulLater⟩ := hcareful
      have hslotsHere : ∀ slot ∈ call.slots, slot.bytes ∈ strings := fun slot hslot =>
        hslots slot (List.mem_flatMap.mpr ⟨call, List.mem_cons_self, hslot⟩)
      have hslotsLater : ∀ slot ∈ calls.flatMap BatchCall.slots, slot.bytes ∈ strings :=
        fun slot hslot => hslots slot (List.mem_append_right _ hslot)
      have hstep := perform_tracked hstrings h call hsuppliedHere hcarefulHere hslotsHere
      refine triple_bind hstep.reached fun _ => triple_of_pure_pre fun htracked => ?_
      exact ih htracked hsuppliedLater hcarefulLater hslotsLater

/-- A fresh batch shows the base state. -/
theorem World.At.view (hstrings : CollisionFree strings) {batch : BatchWriter}
    (hworld : world.At batch.tables.trieNodes root) (hfresh : Fresh root batch)
    (hkeyed : Keyed strings batch.tables.trieNodes) :
    View strings root world.accounts world.storages batch := by
  obtain ⟨contents, htrie, hcontents⟩ := hworld.accounts
  have hwritten (address : Address) (slot : B256) : batch.written address slot = none := by
    rw [BatchWriter.written, hfresh.touchedStorages, List.lookup_nil]
  refine ⟨hkeyed, hfresh.base, fun address hmem => ?_, ⟨contents, htrie, fun address _ =>
    hcontents address⟩, fun address => ⟨fun slot value hslot => ?_, fun slot _ hzero => ?_, ?_⟩⟩
  · rw [hfresh.touchedAccounts] at hmem
    cases hmem
  · rw [hwritten] at hslot
    cases hslot
  · rw [hfresh.resettedStorages] at hzero
    refine hworld.absent address ?_ slot
    rcases hzero with hreset | hempty | hnone
    · cases hreset
    · -- nobody is below the root of the empty trie
      subst hempty
      have hfound := hcontents address
      rw [htrie.eq_none hstrings hkeyed] at hfound
      exact Option.map_eq_none_iff.mp hfound.symm
    · exact hnone
  · exact fun found hfound _ => ⟨_, (hworld.present address found hfound).restrict, fun _ _ => rfl⟩

theorem World.At.tracked (hstrings : CollisionFree strings) {batch : BatchWriter}
    (hworld : world.At batch.tables.trieNodes root) (hfresh : Fresh root batch)
    (hkeyed : Keyed strings batch.tables.trieNodes) :
    Tracked strings root world .empty (start batch) where
  view := hworld.view hstrings hfresh hkeyed
  touched _ hsome := absurd rfl hsome
  slots _ _ _ := rfl
  stale _ _ hsaw := by rcases hsaw with hsaw | hsaw <;> cases hsaw
  current _ _ hsaw := by rcases hsaw with hsaw | hsaw <;> cases hsaw

/-- The strings that the calls and the two reads after them must keep apart. -/
def callStrings (root : B256) (batch : BatchWriter) (calls : List BatchCall) (address : Address)
    (slot : B256) : Set Bytes :=
  runStrings batch.tables.trieNodes
    ((accountAfter root calls address (start batch)).log ++
      (storageAfter root calls address slot (start batch)).log ++
      (slot :: calls.flatMap BatchCall.slots).map fun slot => slot.bytes)

/-- After calls that supply the roots they have seen and that are careful, an
account and a slot read as the last write left them, and as the base state has
them if there was none. -/
theorem reads_own_writes (batch : BatchWriter) (hfresh : Fresh root batch)
    (hkeyed : HashKeyed batch.tables.trieNodes) (hworld : world.At batch.tables.trieNodes root)
    (calls : List BatchCall)
    (hsupplied : Along root world (fun _ => Supplied) calls .empty (start batch))
    (hcareful : Along root world (Careful world) calls .empty (start batch))
    (address : Address) (slot : B256)
    (hfree : Set.InjOn keccak256 (callStrings root batch calls address slot)) :
    (accountAfter root calls address (start batch)).result =
        .ok ((Overlay.empty.run world calls).accountAt world address) ∧
      (storageAfter root calls address slot (start batch)).result =
        .ok ((Overlay.empty.run world calls).storageAt world address slot) := by
  have hstrings : CollisionFree (callStrings root batch calls address slot) :=
    collisionFree_runStrings hfree
  have hslots : ∀ slot' ∈ slot :: calls.flatMap BatchCall.slots,
      slot'.bytes ∈ callStrings root batch calls address slot := fun slot' hslot' =>
    .inr (.inl (List.mem_append_right _ (List.mem_map_of_mem hslot')))
  have hnodes : Keyed (callStrings root batch calls address slot) batch.tables.trieNodes :=
    fun hash data hget => ⟨.inr (.inr ⟨hash, hget⟩), hkeyed hash data hget⟩
  have hrun := performAll_tracked hstrings calls (hworld.tracked hstrings hfresh hnodes) hsupplied
    hcareful fun slot' hslot' => hslots slot' (List.mem_cons_of_mem _ hslot')
  have haccount : Triple (· ∈ callStrings root batch calls address slot) (· = start batch)
      (accountAfter root calls address)
      fun found _ => found = (Overlay.empty.run world calls).accountAt world address := by
    refine triple_bind hrun.reached fun _ => triple_of_pure_pre fun htracked => ?_
    refine (onBatch_spec (account_spec hstrings htracked.view address rfl)).weaken ?_
    rintro found _ ⟨_, ⟨hfound, -⟩, -⟩
    exact hfound
  have hstorage : Triple (· ∈ callStrings root batch calls address slot) (· = start batch)
      (storageAfter root calls address slot)
      fun value _ => value = (Overlay.empty.run world calls).storageAt world address slot := by
    have hslot := hslots slot List.mem_cons_self
    refine triple_bind hrun.reached fun _ => triple_of_pure_pre fun htracked => ?_
    refine (onBatch_spec (storage_spec hstrings htracked.view address hslot rfl)).weaken ?_
    rintro value _ ⟨_, ⟨hvalue, -⟩, -⟩
    exact hvalue
  obtain ⟨found, hfound, rfl⟩ := haccount (start batch) rfl fun data hdata =>
    .inr (.inl (List.mem_append_left _ (List.mem_append_left _ hdata)))
  obtain ⟨value, hvalue, rfl⟩ := hstorage (start batch) rfl fun data hdata =>
    .inr (.inl (List.mem_append_left _ (List.mem_append_right _ hdata)))
  exact ⟨hfound, hvalue⟩

end

/-! ## Two runs -/

section Sample

variable [Keccak256]

/-- Nobody has an account. -/
def World.empty : World := ⟨fun _ => none, fun _ _ => 0⟩

def emptyBatch : BatchWriter :=
  { beginBatch .inOrder emptyDatabase with baseStateRoot := some emptyRootHash }

theorem World.empty_at : World.empty.At emptyBatch.tables.trieNodes emptyRootHash := by
  refine ⟨⟨fun _ => none, .empty _, fun _ => rfl⟩, fun _ _ hfound => ?_, fun _ _ _ => rfl⟩
  cases hfound

theorem fresh_emptyBatch : Fresh emptyRootHash emptyBatch := ⟨rfl, rfl, rfl, rfl⟩

/-- An account is removed, read and brought back with the root that was read. -/
def sampleCalls : List BatchCall :=
  [.removeAccount (.trailing 1), .account (.trailing 1),
    .updateAccount (.trailing 1) { TrieAccount.blank with nonce := 1 },
    .updateStorage (.trailing 1) (B256.ofNat 1) 5, .markAccountTouched (.trailing 1)]

/-- A slot is written before its account is reset. -/
def resetCalls : List BatchCall :=
  [.updateStorage (.trailing 1) (B256.ofNat 1) 5, .resetStorage (.trailing 1)]

theorem supplied_sampleCalls :
    Along emptyRootHash .empty (fun _ => Supplied) sampleCalls .empty (start emptyBatch) := by
  simp [Along, Supplied, sampleCalls, perform, BatchSession.onBatch, removeAccount, bind,
    Routine.bind, Routine.read, Routine.modify, emptyBatch, beginBatch, pure, Routine.pure, start,
    account, recordAccount, insertEntry, insertElement, emptyDatabase, StateTables.removeAccount,
    TrieAccount.blank, Saw, expire, Table.get_erase]

theorem careful_sampleCalls :
    Along emptyRootHash .empty (Careful .empty) sampleCalls .empty (start emptyBatch) := by
  simp [Along, Careful, sampleCalls, perform, BatchSession.onBatch, updateStorage, recordStorage,
    storage, bind, Routine.bind, Routine.read, Routine.modify, emptyBatch, beginBatch, pure,
    Routine.pure, start, account, updateAccount, removeAccount, recordAccount, insertEntry,
    insertElement, emptyDatabase, StateTables.updateAccount, StateTables.updateStorage,
    StateTables.removeAccount, TrieAccount.blank, Saw, expire, BatchWriter.written, Overlay.step,
    Overlay.clear, Overlay.setAccount, Overlay.empty, Table.get_erase]

/-- Neither the calls nor the reads after them hash anything. -/
theorem callStrings_sampleCalls :
    callStrings emptyRootHash emptyBatch sampleCalls (.trailing 1) (B256.ofNat 1) =
      runStrings ∅ [(B256.ofNat 1).bytes, (B256.ofNat 1).bytes] := by
  simp [callStrings, accountAfter, storageAfter, performAll, sampleCalls, perform,
    BatchSession.onBatch, updateStorage, recordStorage, storage, bind, Routine.bind, Routine.read,
    Routine.modify, emptyBatch, beginBatch, pure, Routine.pure, start, account, updateAccount,
    removeAccount, recordAccount, markAccountTouched, insertEntry, insertElement, emptyDatabase,
    BatchCall.slots, StateTables.updateAccount, StateTables.updateStorage,
    StateTables.removeAccount]

end Sample

section Keccak

attribute [local instance] keccak

theorem sampleCalls_read :
    (accountAfter emptyRootHash sampleCalls (.trailing 1) (start emptyBatch)).result =
        .ok (some { TrieAccount.blank with nonce := 1 }) ∧
      (storageAfter emptyRootHash sampleCalls (.trailing 1) (B256.ofNat 1)
        (start emptyBatch)).result = .ok 5 := by
  refine reads_own_writes emptyBatch fresh_emptyBatch ?_ World.empty_at sampleCalls
    supplied_sampleCalls careful_sampleCalls (.trailing 1) (B256.ofNat 1) ?_
  · exact fun hash data hget => by simp [emptyBatch, beginBatch, emptyDatabase] at hget
  · rw [callStrings_sampleCalls]
    exact injOn_runStrings_empty (by decide +kernel)

/-- A slot that was written is still there after the reset. -/
theorem resetCalls_read :
    Fresh emptyRootHash emptyBatch ∧ World.empty.At emptyBatch.tables.trieNodes emptyRootHash ∧
      Along emptyRootHash .empty (fun _ => Supplied) resetCalls .empty (start emptyBatch) ∧
      (storageAfter emptyRootHash resetCalls (.trailing 1) (B256.ofNat 1)
        (start emptyBatch)).result = .ok 5 ∧
      (Overlay.empty.run .empty resetCalls).storageAt .empty (.trailing 1) (B256.ofNat 1) = 0 := by
  refine ⟨fresh_emptyBatch, World.empty_at, by simp [Along, Supplied, resetCalls], ?_, ?_⟩
  · simp [storageAfter, resetCalls, performAll, perform, BatchSession.onBatch, updateStorage,
      recordStorage, storage, bind, Routine.bind, Routine.read, Routine.modify, emptyBatch,
      beginBatch, pure, Routine.pure, start, account, updateAccount, recordAccount, resetStorage,
      insertEntry, insertElement]
  · apply Overlay.storageAt_of_cleared
    · simp [Overlay.run, resetCalls, Overlay.step, Overlay.clear]
    · simp [Overlay.run, resetCalls, Overlay.step, Overlay.clear]

end Keccak

end WasixEth.Storage
