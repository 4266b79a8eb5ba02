import Mathlib.Algebra.BigOperators.Group.Finset.Basic
import Mathlib.Data.List.Sort
import Mathlib.Data.String.Basic
import Mathlib.Order.Bounds.Basic
import WasixEth.Lib.Machine
import WasixEth.P2p.SessionTask

/-! # Negotiating capabilities

Each peer compares its own capabilities with those in the other's hello. A name for which
both list a version is shared, at the lower of their highest versions, whether or not that
version is listed by both.
-/

namespace WasixEth.P2p

open Machine

structure Capability where
  name : String
  version : UInt64
  deriving DecidableEq

namespace EthVersion

def isEth72 (version : EthVersion) : Bool := eth72.toU8 ≤ version.toU8

def isEth71 (version : EthVersion) : Bool := eth71.toU8 ≤ version.toU8

def isEth69OrNewer (version : EthVersion) : Bool := eth69.toU8 ≤ version.toU8

end EthVersion

namespace EthMessageId

def max (version : EthVersion) : UInt8 :=
  if version.isEth72 then cells.toU8
  else if version.isEth71 then blockAccessLists.toU8
  else if version.isEth69OrNewer then blockRangeUpdate.toU8
  else receipts.toU8

def messageCount (version : EthVersion) : UInt8 := max version + 1

end EthMessageId

/-! ## The negotiation -/

/-- The shared capabilities found so far. The names are those of a set, in their order. -/
structure SharedCapabilities where
  versions : Table String UInt64
  names : List String

namespace SharedCapabilities

def empty : SharedCapabilities := ⟨∅, []⟩

def entry (shared : SharedCapabilities) (name : String) : UInt64 :=
  (shared.versions.get name).getD 0

/-- The entry is overwritten, and its name enters the set. -/
def share (shared : SharedCapabilities) (name : String) (version : UInt64) :
    SharedCapabilities where
  versions := shared.versions.insert name version
  names := if name ∈ shared.names then shared.names else shared.names.orderedInsert (· ≤ ·) name

/-- One iteration of the inner loop. -/
def compare (localCap : Capability) (shared : SharedCapabilities) (remoteCap : Capability) :
    SharedCapabilities :=
  if localCap.name = remoteCap.name then
    let entry := shared.entry localCap.name
    let shared := { shared with versions := shared.versions.insert localCap.name entry }
    if remoteCap.version ≤ localCap.version ∧ entry < remoteCap.version then
      shared.share localCap.name remoteCap.version
    else if localCap.version < remoteCap.version then
      if entry < localCap.version then shared.share localCap.name localCap.version else shared
    else shared
  else shared

def compareAll (localCaps remoteCaps : List Capability) : SharedCapabilities :=
  localCaps.foldl (fun shared localCap => remoteCaps.foldl (compare localCap) shared) empty

end SharedCapabilities

/-- How many messages a capability has. -/
def messages (name : String) (version : Nat) : Option Nat :=
  if name = "eth" then
    (EthVersion.tryFrom version).map fun version => (EthMessageId.messageCount version).toNat
  else if name = "snap" then some 8
  else some 16

/-- The loop over the shared names. Every one of them has an entry. -/
def assignOffsets (mode : Mode) (shared : SharedCapabilities) :
    List String → Nat → Run String (List NegotiatedCapability)
  | [], _ => pure []
  | name :: names, offset => do
      let version := (shared.entry name).toNat % 2 ^ 8
      let capability : NegotiatedCapability := ⟨⟨name, version⟩, UInt8.ofNat offset⟩
      match messages name version with
      | none => throw "Invalid eth version"
      | some count => do
          let offset ← add mode 8 offset count
          let rest ← assignOffsets mode shared names offset
          return capability :: rest

/-- `do_p2p_handshake`, from both hellos on. -/
def negotiate (mode : Mode) (localCaps remoteCaps : List Capability) :
    Run String (List NegotiatedCapability) :=
  let shared := SharedCapabilities.compareAll localCaps remoteCaps
  if shared.names = [] then throw "No common capabilities found with peer"
  else assignOffsets mode shared shared.names 0x10

/-- `create_local_hello`. -/
def localCapabilities : List Capability :=
  [⟨"eth", 64⟩, ⟨"eth", 65⟩, ⟨"eth", 66⟩, ⟨"eth", 67⟩, ⟨"eth", 68⟩, ⟨"eth", 69⟩, ⟨"eth", 70⟩,
    ⟨"eth", 71⟩, ⟨"eth", 72⟩, ⟨"snap", 1⟩]

/-! ## What is shared -/

/-- The highest version under a name, or zero. -/
def highest (name : String) : List Capability → Nat
  | [] => 0
  | cap :: caps => max (if cap.name = name then cap.version.toNat else 0) (highest name caps)

/-- The lower of the highest versions of both sides. -/
def lowerHighest (localCaps remoteCaps : List Capability) (name : String) : Nat :=
  min (highest name localCaps) (highest name remoteCaps)

theorem highest_eq_zero {name : String} {caps : List Capability}
    (h : name ∉ caps.map Capability.name) : highest name caps = 0 := by
  induction caps with
  | nil => rfl
  | cons cap caps ih =>
      rw [List.map_cons, List.mem_cons, not_or] at h
      unfold highest
      rw [if_neg (Ne.symm h.1), ih h.2, Nat.max_self]

theorem le_highest {cap : Capability} {caps : List Capability} (h : cap ∈ caps) :
    cap.version.toNat ≤ highest cap.name caps := by
  induction caps with
  | nil => cases h
  | cons head caps ih =>
      unfold highest
      rcases List.mem_cons.mp h with rfl | htail
      · rw [if_pos rfl]
        exact Nat.le_max_left _ _
      · exact (ih htail).trans (Nat.le_max_right _ _)

theorem lowerHighest_comm (localCaps remoteCaps : List Capability) :
    lowerHighest localCaps remoteCaps = lowerHighest remoteCaps localCaps := by
  funext name
  exact Nat.min_comm _ _

namespace SharedCapabilities

variable {shared : SharedCapabilities} {localCap remoteCap : Capability}

theorem entry_share (shared : SharedCapabilities) (name other : String) (version : UInt64) :
    (shared.share name version).entry other =
      if other = name then version else shared.entry other := by
  unfold entry share
  dsimp only
  rw [Table.get_insert]
  split <;> rfl

/-- Writing an entry back changes none. -/
theorem entry_insert_self (shared : SharedCapabilities) (name other : String) :
    entry { shared with versions := shared.versions.insert name (shared.entry name) } other =
      shared.entry other := by
  unfold entry
  dsimp only
  rw [Table.get_insert]
  split
  next heq => rw [heq, Option.getD_some]
  next => rfl

/-- An iteration that finds two capabilities of one name raises the entry to the lower of
their versions, or only writes it back. -/
theorem compare_cases (shared : SharedCapabilities) (hnames : localCap.name = remoteCap.name) :
    (∃ version, version.toNat = min localCap.version.toNat remoteCap.version.toNat ∧
      (shared.entry localCap.name).toNat < version.toNat ∧
      compare localCap shared remoteCap =
        share { shared with
          versions := shared.versions.insert localCap.name (shared.entry localCap.name) }
          localCap.name version) ∨
    (min localCap.version.toNat remoteCap.version.toNat ≤ (shared.entry localCap.name).toNat ∧
      compare localCap shared remoteCap = { shared with
        versions := shared.versions.insert localCap.name (shared.entry localCap.name) }) := by
  unfold compare
  rw [if_pos hnames]
  dsimp only
  simp only [UInt64.le_iff_toNat_le, UInt64.lt_iff_toNat_lt]
  split
  next h => exact .inl ⟨remoteCap.version, by omega, h.2, rfl⟩
  next h =>
    split
    next hlt =>
      split
      next hraise => exact .inl ⟨localCap.version, by omega, hraise, rfl⟩
      next hkeep => exact .inr ⟨by omega, rfl⟩
    next hge => exact .inr ⟨by omega, rfl⟩

theorem compare_of_ne (hnames : localCap.name ≠ remoteCap.name) :
    compare localCap shared remoteCap = shared :=
  if_neg hnames

theorem entry_compare (name : String) :
    ((compare localCap shared remoteCap).entry name).toNat =
      max (shared.entry name).toNat
        (if localCap.name = name ∧ remoteCap.name = name then
          min localCap.version.toNat remoteCap.version.toNat else 0) := by
  by_cases hnames : localCap.name = remoteCap.name
  · by_cases hname : localCap.name = name
    · rw [if_pos ⟨hname, hnames.symm.trans hname⟩]
      obtain ⟨version, hversion, hraise, hcompare⟩ | ⟨hle, hcompare⟩ :=
        compare_cases shared hnames
      · rw [hcompare, entry_share, if_pos hname.symm, ← hname]
        omega
      · rw [hcompare, entry_insert_self, ← hname]
        omega
    · rw [if_neg fun h => hname h.1, Nat.max_zero]
      obtain ⟨version, -, -, hcompare⟩ | ⟨-, hcompare⟩ :=
        compare_cases shared hnames
      · rw [hcompare, entry_share, if_neg (Ne.symm hname), entry_insert_self]
      · rw [hcompare, entry_insert_self]
  · rw [compare_of_ne hnames, if_neg fun h => hnames (h.1.trans h.2.symm), Nat.max_zero]

theorem entry_foldl_compare (remoteCaps : List Capability) (shared : SharedCapabilities)
    (name : String) :
    ((remoteCaps.foldl (compare localCap) shared).entry name).toNat =
      max (shared.entry name).toNat
        (if localCap.name = name then min localCap.version.toNat (highest name remoteCaps)
          else 0) := by
  induction remoteCaps generalizing shared with
  | nil =>
      rw [List.foldl_nil, highest, Nat.min_zero, ite_self, Nat.max_zero]
  | cons remoteCap remoteCaps ih =>
      rw [List.foldl_cons, ih, entry_compare, highest]
      by_cases hlocal : localCap.name = name
      · rw [if_pos hlocal, if_pos hlocal]
        by_cases hremote : remoteCap.name = name
        · rw [if_pos ⟨hlocal, hremote⟩, if_pos hremote]
          omega
        · rw [if_neg fun h => hremote h.2, if_neg hremote]
          omega
      · rw [if_neg hlocal, if_neg hlocal, if_neg fun h => hlocal h.1]
        omega

theorem entry_foldl_foldl_compare (localCaps remoteCaps : List Capability)
    (shared : SharedCapabilities) (name : String) :
    ((localCaps.foldl (fun shared localCap => remoteCaps.foldl (compare localCap) shared)
      shared).entry name).toNat =
        max (shared.entry name).toNat (lowerHighest localCaps remoteCaps name) := by
  unfold lowerHighest
  induction localCaps generalizing shared with
  | nil => rw [List.foldl_nil, highest, Nat.zero_min, Nat.max_zero]
  | cons localCap localCaps ih =>
      rw [List.foldl_cons, ih, entry_foldl_compare, highest]
      split <;> omega

theorem entry_compareAll (localCaps remoteCaps : List Capability) (name : String) :
    ((compareAll localCaps remoteCaps).entry name).toNat =
      lowerHighest localCaps remoteCaps name := by
  unfold compareAll
  rw [entry_foldl_foldl_compare]
  exact Nat.zero_max _

/-- The names are those whose entries are not zero, each of them once and in their order. -/
structure Consistent (shared : SharedCapabilities) : Prop where
  ordered : shared.names.Pairwise (· < ·)
  mem_iff : ∀ name, name ∈ shared.names ↔ 0 < (shared.entry name).toNat

namespace Consistent

theorem share (h : Consistent shared) (name : String) {version : UInt64}
    (hversion : 0 < version.toNat) : Consistent (shared.share name version) where
  ordered := by
    unfold SharedCapabilities.share
    dsimp only
    split
    next => exact h.ordered
    next hnew =>
      have hnodup : (shared.names.orderedInsert (· ≤ ·) name).Nodup :=
        (List.perm_orderedInsert _ _ _).nodup_iff.mpr
          (List.nodup_cons.mpr ⟨hnew, h.ordered.nodup⟩)
      have hsorted : (shared.names.orderedInsert (· ≤ ·) name).Pairwise (· ≤ ·) :=
        (h.ordered.imp le_of_lt).orderedInsert name _
      exact (hsorted.and hnodup).imp fun hlt => lt_of_le_of_ne hlt.1 hlt.2
  mem_iff := by
    intro other
    have hmem : other ∈ (shared.share name version).names ↔
        other = name ∨ other ∈ shared.names := by
      unfold SharedCapabilities.share
      dsimp only
      split
      next hold => exact ⟨.inr, fun hor => hor.elim (fun heq => heq ▸ hold) id⟩
      next => exact List.mem_orderedInsert _
    rw [hmem, entry_share, h.mem_iff]
    split
    next heq => exact iff_of_true (.inl heq) hversion
    next hne => exact ⟨fun hor => hor.resolve_left hne, .inr⟩

theorem insert_self (h : Consistent shared) (name : String) :
    Consistent { shared with
      versions := shared.versions.insert name (shared.entry name) } where
  ordered := h.ordered
  mem_iff := by
    intro other
    rw [entry_insert_self]
    exact h.mem_iff other

theorem compare (h : Consistent shared) (localCap remoteCap : Capability) :
    Consistent (compare localCap shared remoteCap) := by
  by_cases hnames : localCap.name = remoteCap.name
  · obtain ⟨version, -, hraise, hcompare⟩ | ⟨-, hcompare⟩ := compare_cases shared hnames
    · rw [hcompare]
      exact (h.insert_self localCap.name).share localCap.name (Nat.zero_lt_of_lt hraise)
    · rw [hcompare]
      exact h.insert_self localCap.name
  · rw [compare_of_ne hnames]
    exact h

theorem compareAll (localCaps remoteCaps : List Capability) :
    Consistent (compareAll localCaps remoteCaps) := by
  unfold SharedCapabilities.compareAll
  refine List.foldlRecOn localCaps _ ⟨List.Pairwise.nil, fun name => ?_⟩
    fun shared h localCap _ => ?_
  · exact iff_of_false List.not_mem_nil (Nat.lt_irrefl 0)
  · exact List.foldlRecOn remoteCaps _ h fun shared h remoteCap _ =>
      h.compare localCap remoteCap

end Consistent

theorem mem_names_compareAll {localCaps remoteCaps : List Capability} {name : String} :
    name ∈ (compareAll localCaps remoteCaps).names ↔
      0 < lowerHighest localCaps remoteCaps name := by
  rw [(Consistent.compareAll localCaps remoteCaps).mem_iff, entry_compareAll]

/-- Either side comes to the same names, and to the same versions under them. -/
theorem names_compareAll_comm (localCaps remoteCaps : List Capability) :
    (compareAll localCaps remoteCaps).names = (compareAll remoteCaps localCaps).names := by
  apply List.Pairwise.eq_of_mem_iff (Consistent.compareAll localCaps remoteCaps).ordered
    (Consistent.compareAll remoteCaps localCaps).ordered
  intro name
  rw [mem_names_compareAll, mem_names_compareAll, lowerHighest_comm]

theorem entry_compareAll_comm (localCaps remoteCaps : List Capability) :
    (compareAll localCaps remoteCaps).entry = (compareAll remoteCaps localCaps).entry := by
  funext name
  apply UInt64.toNat_inj.mp
  rw [entry_compareAll, entry_compareAll, lowerHighest_comm]

end SharedCapabilities

/-! ## The offsets -/

section Offsets

variable {mode : Mode} {shared : SharedCapabilities} {name : String} {names : List String}
  {start offset : Nat} {result : List NegotiatedCapability}

namespace SharedCapabilities

def version (shared : SharedCapabilities) (name : String) : Nat :=
  (shared.entry name).toNat % 2 ^ 8

def count (shared : SharedCapabilities) (name : String) : Nat :=
  (messages name (shared.version name)).getD 0

/-- The capabilities with the ranges that begin at `start`. -/
def layout (shared : SharedCapabilities) : Nat → List String → List NegotiatedCapability
  | _, [] => []
  | start, name :: names =>
      ⟨⟨name, shared.version name⟩, UInt8.ofNat start⟩ ::
        shared.layout (start + shared.count name) names

theorem map_name_layout (start : Nat) (names : List String) :
    (shared.layout start names).map (fun capability => capability.name) = names := by
  induction names generalizing start with
  | nil => rfl
  | cons name names ih => exact congrArg (name :: ·) (ih _)

theorem exists_mem_layout_iff {version : Nat} :
    (∃ capability ∈ shared.layout start names,
      capability.name = name ∧ capability.version = version) ↔
      name ∈ names ∧ shared.version name = version := by
  induction names generalizing start with
  | nil => exact iff_of_false (fun ⟨_, h, _⟩ => List.not_mem_nil h) fun h => List.not_mem_nil h.1
  | cons head names ih =>
      unfold layout
      simp only [List.mem_cons, exists_eq_or_imp, ih]
      constructor
      · rintro (⟨rfl, hversion⟩ | ⟨hname, hversion⟩)
        · exact ⟨.inl rfl, hversion⟩
        · exact ⟨.inr hname, hversion⟩
      · rintro ⟨rfl | hname, hversion⟩
        · exact .inl ⟨rfl, hversion⟩
        · exact .inr ⟨hname, hversion⟩

end SharedCapabilities

theorem assignOffsets_congr {other : SharedCapabilities} (h : shared.entry = other.entry) :
    assignOffsets mode shared names offset = assignOffsets mode other names offset := by
  induction names generalizing offset with
  | nil => rfl
  | cons name names ih =>
      unfold assignOffsets
      rw [h]
      simp only [ih]

/-- The sum wraps around, or stops the program where it is no byte. -/
theorem add_offset (hoffset : offset = start % 2 ^ 8) (hstart : mode = .wrapping ∨ start < 2 ^ 8)
    {count : Nat} (hfits : mode = .wrapping ∨ start + count < 2 ^ 8) :
    add mode 8 offset count = .ok ((start + count) % 2 ^ 8) := by
  by_cases hmode : mode = .wrapping
  · rw [hmode, add_wrapping, hoffset, Nat.mod_add_mod]
  · have hlt := hstart.resolve_left hmode
    have hsum := hfits.resolve_left hmode
    rw [hoffset, Nat.mod_eq_of_lt hlt, Nat.mod_eq_of_lt hsum, add_of_lt hsum]

theorem passes_assignOffsets_iff (hoffset : offset = start % 2 ^ 8)
    (hstart : mode = .wrapping ∨ start < 2 ^ 8) :
    Passes (assignOffsets mode shared names offset) result ↔
      (∀ name ∈ names, messages name (shared.version name) ≠ none) ∧
      (mode = .wrapping ∨ start + (names.map shared.count).sum < 2 ^ 8) ∧
      result = shared.layout start names := by
  induction names generalizing offset start result with
  | nil =>
      unfold assignOffsets
      rw [passes_pure]
      constructor
      · rintro rfl
        exact ⟨fun _ hmem => absurd hmem List.not_mem_nil, hstart, rfl⟩
      · rintro ⟨-, -, rfl⟩
        rfl
  | cons name names ih =>
      have hsum : start + ((name :: names).map shared.count).sum =
          start + shared.count name + (names.map shared.count).sum := by
        rw [List.map_cons, List.sum_cons, Nat.add_assoc]
      rw [List.forall_mem_cons, hsum]
      unfold assignOffsets
      dsimp only
      cases hcount : messages name ((shared.entry name).toNat % 2 ^ 8) with
      | none => exact iff_of_false passes_throw.mp fun h => h.1.1 hcount
      | some count =>
          have hcounts : shared.count name = count := by
            unfold SharedCapabilities.count SharedCapabilities.version
            rw [hcount, Option.getD_some]
          have hknown : messages name (shared.version name) ≠ none := by
            rw [SharedCapabilities.version, hcount]
            exact Option.some_ne_none count
          rw [SharedCapabilities.layout, hcounts, passes_bind]
          simp only [passes_monadLift, passes_bind, passes_pure]
          by_cases hfits : mode = .wrapping ∨ start + count < 2 ^ 8
          · rw [add_offset hoffset hstart hfits]
            constructor
            · rintro ⟨_, hadd, rest, hrest, rfl⟩
              cases hadd
              obtain ⟨hall, hend, rfl⟩ := (ih rfl hfits).mp hrest
              refine ⟨⟨hknown, hall⟩, hend, ?_⟩
              rw [hoffset, UInt8.ofNat_mod_size]
              rfl
            · rintro ⟨⟨-, hall⟩, hend, rfl⟩
              refine ⟨_, rfl, _, (ih rfl hfits).mpr ⟨hall, hend, rfl⟩, ?_⟩
              rw [hoffset, UInt8.ofNat_mod_size]
              rfl
          · rw [not_or] at hfits
            have hlt := hstart.resolve_left hfits.1
            have hadd : add mode 8 offset count = .error .overflow := by
              rw [hoffset, Nat.mod_eq_of_lt hlt]
              exact add_of_le hfits.1 (Nat.not_lt.mp hfits.2)
            rw [hadd]
            refine iff_of_false (fun ⟨_, hok, _⟩ => by cases hok) ?_
            rintro ⟨-, hend | hend, -⟩
            · exact hfits.1 hend
            · omega

end Offsets

/-! ## What the peers should agree on -/

/-- The versions that both list under a name. -/
def commonVersions (localCaps remoteCaps : List Capability) (name : String) : Set Nat :=
  {version | (∃ cap ∈ localCaps, cap.name = name ∧ cap.version.toNat = version) ∧
    ∃ cap ∈ remoteCaps, cap.name = name ∧ cap.version.toNat = version}

/-- The ranges of message ids follow one another. -/
def Consecutive : Nat → List NegotiatedCapability → Prop
  | _, [] => True
  | start, capability :: rest => capability.offset.toNat = start ∧
      ∃ count, messages capability.name capability.version = some count ∧
        Consecutive (start + count) rest

structure Agreed (localCaps remoteCaps : List Capability) (result : List NegotiatedCapability) :
    Prop where
  alphabetical : (result.map fun capability => capability.name).Pairwise (· < ·)
  highest : ∀ name version,
    (∃ capability ∈ result, capability.name = name ∧ capability.version = version) ↔
      IsGreatest (commonVersions localCaps remoteCaps name) version
  consecutive : Consecutive 0x10 result

/-- Both sides fail, or both come to what they should agree on. -/
def NegotiatesAlike (mode : Mode) (localCaps remoteCaps : List Capability) : Prop :=
  ((∀ result, ¬ Passes (negotiate mode localCaps remoteCaps) result) ∧
    ∀ result, ¬ Passes (negotiate mode remoteCaps localCaps) result) ∨
  ∃ result, Passes (negotiate mode localCaps remoteCaps) result ∧
    Passes (negotiate mode remoteCaps localCaps) result ∧ Agreed localCaps remoteCaps result

/-! ## When they do -/

section Conditions

variable (mode : Mode) (localCaps remoteCaps : List Capability)

/-- The names under which both list a version above zero. -/
def sharedNames : Finset String :=
  (localCaps.map Capability.name).toFinset.filter (0 < lowerHighest localCaps remoteCaps ·)

def sharedMessages (name : String) : Option Nat :=
  messages name (lowerHighest localCaps remoteCaps name % 2 ^ 8)

/-- Where the range of a name begins: after those of the names before it. -/
def rangeStart (name : String) : Nat :=
  0x10 + ∑ other ∈ (sharedNames localCaps remoteCaps).filter (· < name),
    (sharedMessages localCaps remoteCaps other).getD 0

def rangesEnd : Nat :=
  0x10 + ∑ other ∈ sharedNames localCaps remoteCaps,
    (sharedMessages localCaps remoteCaps other).getD 0

/-- Nothing is shared, or the version of eth is not known, or the message ids run out in a
build that stops there. -/
def Refused : Prop :=
  sharedNames localCaps remoteCaps = ∅ ∨
  (∃ name ∈ sharedNames localCaps remoteCaps, sharedMessages localCaps remoteCaps name = none) ∨
  mode ≠ .wrapping ∧ 2 ^ 8 ≤ rangesEnd localCaps remoteCaps

/-- The lower of the highest versions is the highest one that both list, once it is cut down
to a byte, and every range begins below 256. -/
structure Orderly : Prop where
  versions : ∀ name,
    if 0 < lowerHighest localCaps remoteCaps name then
      IsGreatest (commonVersions localCaps remoteCaps name)
        (lowerHighest localCaps remoteCaps name % 2 ^ 8)
    else commonVersions localCaps remoteCaps name = ∅
  ranges : ∀ name ∈ sharedNames localCaps remoteCaps, rangeStart localCaps remoteCaps name < 2 ^ 8

end Conditions

section Results

open SharedCapabilities

variable {mode : Mode} {localCaps remoteCaps : List Capability} {shared : SharedCapabilities}
  {names : List String} {start : Nat} {result : List NegotiatedCapability}

theorem negotiate_comm : negotiate mode localCaps remoteCaps =
    negotiate mode remoteCaps localCaps := by
  unfold negotiate
  dsimp only
  rw [names_compareAll_comm localCaps remoteCaps,
    assignOffsets_congr (entry_compareAll_comm localCaps remoteCaps)]

theorem toFinset_names : (compareAll localCaps remoteCaps).names.toFinset =
    sharedNames localCaps remoteCaps := by
  ext name
  unfold sharedNames
  rw [List.mem_toFinset, mem_names_compareAll, Finset.mem_filter, List.mem_toFinset]
  constructor
  · intro hpos
    refine ⟨?_, hpos⟩
    by_contra hmem
    rw [lowerHighest, highest_eq_zero hmem, Nat.zero_min] at hpos
    exact Nat.lt_irrefl 0 hpos
  · exact And.right

theorem version_compareAll (name : String) : (compareAll localCaps remoteCaps).version name =
    lowerHighest localCaps remoteCaps name % 2 ^ 8 := by
  unfold SharedCapabilities.version
  rw [entry_compareAll]

theorem count_compareAll (name : String) : (compareAll localCaps remoteCaps).count name =
    (sharedMessages localCaps remoteCaps name).getD 0 := by
  unfold SharedCapabilities.count sharedMessages
  rw [version_compareAll]

/-- A byte is the number it stands for where that number is below 256. -/
theorem consecutive_layout_iff (hordered : names.Pairwise (· < ·))
    (hknown : ∀ name ∈ names, messages name (shared.version name) ≠ none) :
    Consecutive start (shared.layout start names) ↔
      ∀ name ∈ names, start + ((names.filter (· < name)).map shared.count).sum < 2 ^ 8 := by
  induction names generalizing start with
  | nil => exact iff_of_true trivial fun _ hmem => absurd hmem List.not_mem_nil
  | cons head names ih =>
      obtain ⟨hhead, htail⟩ := List.pairwise_cons.mp hordered
      obtain ⟨hcount, hrest⟩ := List.forall_mem_cons.mp hknown
      obtain ⟨count, hcount⟩ := Option.ne_none_iff_exists'.mp hcount
      have hcounts : shared.count head = count := by
        unfold SharedCapabilities.count
        rw [hcount, Option.getD_some]
      have hoffset : (UInt8.ofNat start).toNat = start ↔ start < 2 ^ 8 := by
        rw [UInt8.toNat_ofNat']
        exact ⟨fun h => h ▸ Nat.mod_lt _ (by decide), Nat.mod_eq_of_lt⟩
      have hnone : (head :: names).filter (· < head) = [] := by
        rw [List.filter_eq_nil_iff]
        intro name hname hlt
        rcases List.mem_cons.mp hname with rfl | htail
        · exact lt_irrefl _ (of_decide_eq_true hlt)
        · exact lt_asymm (of_decide_eq_true hlt) (hhead name htail)
      have hbefore : ∀ name ∈ names, start + (((head :: names).filter (· < name)).map
          shared.count).sum = start + count + ((names.filter (· < name)).map shared.count).sum := by
        intro name hname
        have hfilter : (head :: names).filter (· < name) = head :: names.filter (· < name) :=
          List.filter_cons_of_pos (decide_eq_true (hhead name hname))
        rw [hfilter, List.map_cons, List.sum_cons, hcounts, Nat.add_assoc]
      unfold layout Consecutive
      dsimp only
      rw [hoffset, List.forall_mem_cons, hnone, List.map_nil, List.sum_nil, Nat.add_zero]
      refine and_congr_right fun _ => ?_
      simp only [hcount, Option.some.injEq, exists_eq_left', hcounts]
      rw [ih htail hrest]
      exact forall₂_congr fun name hname => by rw [hbefore name hname]

theorem sum_map_count (hnodup : names.Nodup) :
    (names.map (compareAll localCaps remoteCaps).count).sum =
      ∑ other ∈ names.toFinset, (sharedMessages localCaps remoteCaps other).getD 0 := by
  rw [List.sum_toFinset _ hnodup]
  exact congrArg List.sum (List.map_congr_left fun name _ => count_compareAll name)

/-- A negotiation that is not refused lays the shared names out. -/
theorem passes_negotiate_iff : Passes (negotiate mode localCaps remoteCaps) result ↔
    ¬ Refused mode localCaps remoteCaps ∧
      result = (compareAll localCaps remoteCaps).layout 0x10
        (compareAll localCaps remoteCaps).names := by
  have hordered := (Consistent.compareAll localCaps remoteCaps).ordered
  have hempty : (compareAll localCaps remoteCaps).names = [] ↔
      sharedNames localCaps remoteCaps = ∅ := by
    rw [← toFinset_names, List.toFinset_eq_empty_iff]
  have hknown : (∀ name ∈ (compareAll localCaps remoteCaps).names,
      messages name ((compareAll localCaps remoteCaps).version name) ≠ none) ↔
      ¬ ∃ name ∈ sharedNames localCaps remoteCaps,
        sharedMessages localCaps remoteCaps name = none := by
    simp only [version_compareAll, ← toFinset_names, List.mem_toFinset, not_exists, not_and]
    rfl
  have hend : 0x10 + ((compareAll localCaps remoteCaps).names.map
      (compareAll localCaps remoteCaps).count).sum = rangesEnd localCaps remoteCaps := by
    rw [sum_map_count hordered.nodup, toFinset_names]
    rfl
  have hoffset : 0x10 = 0x10 % 2 ^ 8 := rfl
  unfold negotiate Refused
  dsimp only
  rw [passes_guard, hempty, passes_assignOffsets_iff hoffset (.inr (by decide)), hknown, hend]
  simp only [not_or, not_and, Nat.not_le, ← or_iff_not_imp_left, and_assoc]

theorem le_lowerHighest {name : String} {version : Nat}
    (h : version ∈ commonVersions localCaps remoteCaps name) :
    version ≤ lowerHighest localCaps remoteCaps name := by
  obtain ⟨⟨localCap, hlocal, rfl, rfl⟩, remoteCap, hremote, hname, hversion⟩ := h
  refine Nat.le_min.mpr ⟨le_highest hlocal, ?_⟩
  rw [← hname, ← hversion]
  exact le_highest hremote

/-- What is said of every version comes down to the one that is shared. -/
theorem highest_layout_iff (name : String) :
    (∀ version, (∃ capability ∈ (compareAll localCaps remoteCaps).layout start
        (compareAll localCaps remoteCaps).names,
          capability.name = name ∧ capability.version = version) ↔
        IsGreatest (commonVersions localCaps remoteCaps name) version) ↔
      if 0 < lowerHighest localCaps remoteCaps name then
        IsGreatest (commonVersions localCaps remoteCaps name)
          (lowerHighest localCaps remoteCaps name % 2 ^ 8)
      else commonVersions localCaps remoteCaps name = ∅ := by
  simp only [exists_mem_layout_iff, mem_names_compareAll, version_compareAll]
  split
  next hpos =>
    constructor
    · intro h
      exact (h _).mp ⟨hpos, rfl⟩
    · intro hgreatest version
      constructor
      · rintro ⟨-, rfl⟩
        exact hgreatest
      · intro hother
        exact ⟨hpos, IsGreatest.unique hgreatest hother⟩
  next hzero =>
    constructor
    · intro h
      apply Set.eq_empty_of_forall_notMem
      intro version hversion
      have hgreatest : IsGreatest (commonVersions localCaps remoteCaps name) version :=
        ⟨hversion, fun other hother => by
          have hle := le_lowerHighest hother
          omega⟩
      exact hzero ((h version).mpr hgreatest).1
    · intro hempty version
      rw [hempty]
      exact iff_of_false (fun h => hzero h.1) fun h => h.1

theorem agreed_layout_iff (h : ∀ name ∈ sharedNames localCaps remoteCaps,
    sharedMessages localCaps remoteCaps name ≠ none) :
    Agreed localCaps remoteCaps ((compareAll localCaps remoteCaps).layout 0x10
        (compareAll localCaps remoteCaps).names) ↔
      Orderly localCaps remoteCaps := by
  have hordered := (Consistent.compareAll localCaps remoteCaps).ordered
  have hknown : ∀ name ∈ (compareAll localCaps remoteCaps).names,
      messages name ((compareAll localCaps remoteCaps).version name) ≠ none := by
    intro name hname
    rw [version_compareAll]
    exact h name (toFinset_names ▸ List.mem_toFinset.mpr hname)
  have hranges : Consecutive 0x10 ((compareAll localCaps remoteCaps).layout 0x10
        (compareAll localCaps remoteCaps).names) ↔
      ∀ name ∈ sharedNames localCaps remoteCaps,
        rangeStart localCaps remoteCaps name < 2 ^ 8 := by
    rw [consecutive_layout_iff hordered hknown, ← toFinset_names]
    simp only [List.mem_toFinset]
    refine forall₂_congr fun name hname => ?_
    unfold rangeStart
    rw [sum_map_count (hordered.nodup.filter _), List.toFinset_filter, toFinset_names]
    simp only [decide_eq_true_eq]
  constructor
  · intro hagreed
    exact ⟨fun name => (highest_layout_iff name).mp (hagreed.highest name),
      hranges.mp hagreed.consecutive⟩
  · intro horderly
    refine ⟨?_, fun name => (highest_layout_iff name).mpr (horderly.versions name),
      hranges.mpr horderly.ranges⟩
    rw [map_name_layout]
    exact hordered

/-- Both sides always come to the same; whether it is what they should agree on depends on
the versions and on how many messages they stand for. -/
theorem negotiatesAlike_iff : NegotiatesAlike mode localCaps remoteCaps ↔
    Refused mode localCaps remoteCaps ∨ Orderly localCaps remoteCaps := by
  have hcomm : negotiate mode remoteCaps localCaps = negotiate mode localCaps remoteCaps :=
    negotiate_comm
  unfold NegotiatesAlike
  rw [hcomm, and_self]
  simp only [passes_negotiate_iff]
  by_cases hrefused : Refused mode localCaps remoteCaps
  · exact iff_of_true (.inl fun _ h => h.1 hrefused) (.inl hrefused)
  · have hknown : ∀ name ∈ sharedNames localCaps remoteCaps,
        sharedMessages localCaps remoteCaps name ≠ none :=
      fun name hname hnone => hrefused (.inr (.inl ⟨name, hname, hnone⟩))
    rw [← agreed_layout_iff hknown, or_iff_right hrefused]
    constructor
    · rintro (hfails | ⟨_, ⟨-, rfl⟩, -, hagreed⟩)
      · exact absurd ⟨hrefused, rfl⟩ (hfails _)
      · exact hagreed
    · intro hagreed
      exact .inr ⟨_, ⟨hrefused, rfl⟩, ⟨hrefused, rfl⟩, hagreed⟩

end Results

/-- A peer that speaks only a later version of eth: it is taken to share the last one this
node has. -/
theorem not_negotiatesAlike_eth73 :
    ¬ NegotiatesAlike .wrapping localCapabilities [⟨"eth", 73⟩] := by
  have hlocal : Passes (negotiate .wrapping localCapabilities [⟨"eth", 73⟩])
      [⟨⟨"eth", 72⟩, 0x10⟩] := by
    unfold Passes
    rfl
  rintro (⟨hfails, -⟩ | ⟨result, hresult, -, hagreed⟩)
  · exact hfails _ hlocal
  · have heq : result = [⟨⟨"eth", 72⟩, 0x10⟩] := by
      unfold Passes at hresult hlocal
      rw [hlocal] at hresult
      exact (Except.ok.inj (Except.ok.inj hresult)).symm
    have hgreatest := (hagreed.highest "eth" 72).mp
      ⟨_, heq ▸ List.mem_singleton_self _, rfl, rfl⟩
    obtain ⟨-, remoteCap, hremote, -, hversion⟩ := hgreatest.1
    obtain rfl := List.mem_singleton.mp hremote
    exact absurd hversion (by decide)

end WasixEth.P2p
