import WasixEth.Storage.CanonicalTries
import WasixEth.Storage.Genesis
import WasixEth.Storage.StorageRoot

/-! # The tries of an allocation

What the state trie of the first block and the storage tries below it are
meant to hold, read off the allocation alone: every slot with a value, and
every account but those that EIP-161 does not let exist.
-/

namespace WasixEth.Storage

open Routine BatchWriter YellowPaper

/-! ## Maps given by lists -/

section

variable {K V W : Type} [DecidableEq K]

/-- Some of the entries of a map with distinct keys, their values changed. -/
theorem lookup_filterMap {entries : List (K × V)} (hnodup : (entries.map Prod.fst).Nodup)
    (g : V → Option W) (key : K) :
    (entries.filterMap fun entry => (g entry.2).map (entry.1, ·)).lookup key =
      (entries.lookup key).bind g := by
  induction entries with
  | nil => rfl
  | cons entry rest ih =>
      obtain ⟨key', value⟩ := entry
      rw [List.map_cons, List.nodup_cons] at hnodup
      have hrest := ih hnodup.2
      by_cases heq : key = key'
      · subst heq
        cases hvalue : g value with
        | some value' => simp [hvalue]
        | none =>
            have habsent : rest.lookup key = none := by
              rw [List.lookup_eq_none_iff]
              intro other hother
              have hne : key ≠ other.1 := by
                rintro rfl
                exact hnodup.1 (List.mem_map.mpr ⟨other, hother, rfl⟩)
              simpa using hne
            simp [hvalue, hrest, habsent]
      · cases hvalue : g value <;> simp [hvalue, hrest, List.lookup_cons, beq_false_of_ne heq]

omit [DecidableEq K] in
theorem nodup_filterMap {entries : List (K × V)} (hnodup : (entries.map Prod.fst).Nodup)
    (g : V → Option W) :
    ((entries.filterMap fun entry => (g entry.2).map (entry.1, ·)).map Prod.fst).Nodup := by
  apply List.Nodup.sublist _ hnodup
  clear hnodup
  induction entries with
  | nil => simp
  | cons entry rest ih =>
      cases hvalue : g entry.2 with
      | none => simpa [hvalue] using ih.trans (List.sublist_cons_self _ _)
      | some value => simpa [hvalue] using ih

theorem mem_of_lookup {entries : List (K × V)} {key : K} {value : V}
    (h : entries.lookup key = some value) : (key, value) ∈ entries := by
  obtain ⟨before, after, rfl, -⟩ := List.lookup_eq_some_iff.mp h
  simp

theorem lookup_of_mem {entries : List (K × V)} (hnodup : (entries.map Prod.fst).Nodup) {key : K}
    {value : V} (h : (key, value) ∈ entries) : entries.lookup key = some value := by
  obtain ⟨before, after, rfl⟩ := List.append_of_mem h
  apply List.lookup_eq_some_iff.mpr ⟨before, after, rfl, ?_⟩
  intro entry hentry
  rw [List.map_append, List.nodup_append] at hnodup
  simpa using (hnodup.2.2 _ (List.mem_map_of_mem hentry) key (by simp)).symm

end

section

variable [Keccak256] {strings : Set Bytes}

/-! ## Leaves under hashed keys -/

section

variable {K : Type} [DecidableEq K] {bytes : K → Bytes}

def hashedLeaves (bytes : K → Bytes) (entries : List (K × Bytes)) : List (B256 × Bytes) :=
  entries.map fun entry => (keccak256 (bytes entry.1), entry.2)

omit [DecidableEq K] in
/-- Keys in play are told apart by their hashes. -/
theorem CollisionFree.key_eq (hstrings : CollisionFree strings)
    (hbytes : Function.Injective bytes) {key key' : K} (hkey : bytes key ∈ strings)
    (hkey' : bytes key' ∈ strings)
    (h : keccak256 (bytes key) = keccak256 (bytes key')) : key = key' :=
  hbytes (hstrings.injOn hkey hkey' h)

omit [DecidableEq K] in
theorem nodup_hashedLeaves (hstrings : CollisionFree strings) (hbytes : Function.Injective bytes)
    {entries : List (K × Bytes)} (hnodup : (entries.map Prod.fst).Nodup)
    (hkeys : ∀ entry ∈ entries, bytes entry.1 ∈ strings) :
    ((hashedLeaves bytes entries).map Prod.fst).Nodup := by
  have hmap : (hashedLeaves bytes entries).map Prod.fst =
      (entries.map Prod.fst).map fun key => keccak256 (bytes key) := by
    simp [hashedLeaves]
  rw [hmap]
  apply List.Nodup.map_on _ hnodup
  intro key hkey key' hkey' hhash
  obtain ⟨entry, hentry, rfl⟩ := List.mem_map.mp hkey
  obtain ⟨entry', hentry', rfl⟩ := List.mem_map.mp hkey'
  exact hstrings.key_eq hbytes (hkeys _ hentry) (hkeys _ hentry') hhash

theorem contentsOf_hashedLeaves (hstrings : CollisionFree strings)
    (hbytes : Function.Injective bytes) {entries : List (K × Bytes)}
    (hnodup : (entries.map Prod.fst).Nodup) (hkeys : ∀ entry ∈ entries, bytes entry.1 ∈ strings)
    {key : K} (hkey : bytes key ∈ strings) :
    contentsOf (hashedLeaves bytes entries) (unpack (keccak256 (bytes key))) =
      entries.lookup key := by
  have hlists := lists_contentsOf (nodup_hashedLeaves hstrings hbytes hnodup hkeys)
  have hmem : ∀ value, contentsOf (hashedLeaves bytes entries)
      (unpack (keccak256 (bytes key))) = some value ↔ (key, value) ∈ entries := by
    intro value
    rw [← hlists.mem_iff]
    simp only [entriesOf, hashedLeaves, List.map_map, List.mem_map, Function.comp_apply,
      Prod.mk.injEq]
    constructor
    · rintro ⟨entry, hentry, hhash, rfl⟩
      have hsame := hstrings.key_eq hbytes (hkeys _ hentry) hkey (unpack_injective hhash)
      exact hsame ▸ hentry
    · intro hentry
      exact ⟨(key, value), hentry, rfl, rfl⟩
  ext value
  rw [hmem]
  exact ⟨lookup_of_mem hnodup, mem_of_lookup⟩

omit [DecidableEq K] in
theorem exists_of_contentsOf_hashedLeaves {entries : List (K × Bytes)}
    (hnodup : ((hashedLeaves bytes entries).map Prod.fst).Nodup) {nibbles : Nibbles}
    (h : contentsOf (hashedLeaves bytes entries) nibbles ≠ none) :
    ∃ entry ∈ entries, nibbles = unpack (keccak256 (bytes entry.1)) := by
  obtain ⟨value, hvalue⟩ := Option.ne_none_iff_exists'.mp h
  rw [← (lists_contentsOf hnodup).mem_iff] at hvalue
  simp only [entriesOf, hashedLeaves, List.map_map, List.mem_map, Function.comp_apply,
    Prod.mk.injEq] at hvalue
  obtain ⟨entry, hentry, rfl, -⟩ := hvalue
  exact ⟨entry, hentry, rfl⟩

end

omit [Keccak256] in
theorem bytes_injective : Function.Injective B256.bytes := fun _ _ h => B256.ext h

omit [Keccak256] in
theorem address_bytes_injective : Function.Injective Address.bytes := fun _ _ h => Address.ext h

/-! ## The storage of an account -/

namespace GenesisAccount

variable (account : GenesisAccount)

/-- The slots with a value, as the storage trie keeps them. -/
def slotEntries : List (B256 × Bytes) :=
  account.slots.entries.filterMap fun entry =>
    (slotValue (wordToU256 entry.2)).map (entry.1, ·)

def slotLeaves : List (B256 × Bytes) := hashedLeaves B256.bytes account.slotEntries

/-- What a slot was given, if anything. -/
def given (slot : B256) : Option U256 := (account.slots.entries.lookup slot).map wordToU256

def storageRoot : B256 := trie account.slotLeaves

/-- The storage trie as a map. -/
def slotMap : Nibbles → Option Bytes := contentsOf account.slotLeaves

def codeHash : B256 :=
  match account.code with
  | none => keccak256Empty
  | some code => keccak256 code

def trieAccount : TrieAccount :=
  ⟨account.nonce.getD 0, account.balance, account.storageRoot, account.codeHash⟩

/-- The account as it is written to the state trie. -/
def leaf : TrieAccount :=
  { account.trieAccount with
    codeHash := if account.codeHash = B256.zero then keccak256Empty else account.codeHash }

/-- The account as it stands in the state, unless EIP-161 does not let it exist. -/
def settled (eip161 : Bool) : Option TrieAccount :=
  if eip161 && isEmpty account.trieAccount && account.storageRoot = emptyRootHash then none
  else some account.leaf

/-- The slots of an account are among the strings. -/
def SlotsIn (strings : Set Bytes) : Prop := ∀ entry ∈ account.slots.entries, entry.1.bytes ∈ strings

variable {account}

omit [Keccak256] in
theorem mem_slotEntries {entry : B256 × Bytes} (h : entry ∈ account.slotEntries) :
    ∃ value, (entry.1, value) ∈ account.slots.entries := by
  unfold slotEntries at h
  simp only [List.mem_filterMap, Option.map_eq_some_iff] at h
  obtain ⟨given, hgiven, bytes, -, rfl⟩ := h
  exact ⟨given.2, hgiven⟩

omit [Keccak256] in
theorem slotEntries_in (hslots : account.SlotsIn strings) :
    ∀ entry ∈ account.slotEntries, entry.1.bytes ∈ strings := by
  intro entry hentry
  obtain ⟨value, hvalue⟩ := mem_slotEntries hentry
  exact hslots _ hvalue

omit [Keccak256] in
theorem nodup_slotEntries : (account.slotEntries.map Prod.fst).Nodup :=
  nodup_filterMap account.slots.nodup fun value => slotValue (wordToU256 value)

theorem nodup_slotLeaves (hstrings : CollisionFree strings) (hslots : account.SlotsIn strings) :
    (account.slotLeaves.map Prod.fst).Nodup :=
  nodup_hashedLeaves hstrings bytes_injective nodup_slotEntries
    (slotEntries_in hslots)

theorem valuesFit_slotLeaves : ValuesFit account.slotLeaves := by
  intro leaf hleaf
  simp only [slotLeaves, hashedLeaves, slotEntries, List.mem_map, List.mem_filterMap,
    Option.map_eq_some_iff] at hleaf
  obtain ⟨entry, ⟨given, -, bytes, hbytes, rfl⟩, rfl⟩ := hleaf
  unfold slotValue at hbytes
  split at hbytes
  · cases hbytes
  · obtain rfl := Option.some.inj hbytes
    exact length_encodeU256_lt _

theorem supported_slotMap : Tree.Supported 64 account.slotMap :=
  supported_contentsOf valuesFit_slotLeaves

theorem storageRoot_eq (hstrings : CollisionFree strings) (hslots : account.SlotsIn strings) :
    account.storageRoot = (Tree.canon 64 account.slotMap).hash :=
  trie_eq (nodup_slotLeaves hstrings hslots) valuesFit_slotLeaves

theorem slotMap_key (hstrings : CollisionFree strings) (hslots : account.SlotsIn strings)
    {slot : B256} (hslot : slot.bytes ∈ strings) :
    account.slotMap (unpack (keccak256 slot.bytes)) = (account.given slot).bind slotValue := by
  unfold slotMap slotLeaves
  rw [contentsOf_hashedLeaves hstrings bytes_injective nodup_slotEntries
    (slotEntries_in hslots) hslot]
  unfold slotEntries given
  rw [lookup_filterMap account.slots.nodup (fun value => slotValue (wordToU256 value))]
  cases account.slots.entries.lookup slot <;> rfl

theorem exists_of_slotMap (hstrings : CollisionFree strings) (hslots : account.SlotsIn strings)
    {nibbles : Nibbles} (h : account.slotMap nibbles ≠ none) :
    ∃ slot, account.given slot ≠ none ∧ nibbles = unpack (keccak256 slot.bytes) := by
  obtain ⟨entry, hentry, rfl⟩ :=
    exists_of_contentsOf_hashedLeaves (nodup_slotLeaves hstrings hslots) h
  obtain ⟨value, hvalue⟩ := mem_slotEntries hentry
  refine ⟨entry.1, ?_, rfl⟩
  simp [given, lookup_of_mem account.slots.nodup hvalue]

end GenesisAccount

/-! ## The accounts -/

/-- The accounts of the state, as its trie keeps them. -/
def stateEntries (eip161 : Bool) (alloc : BTreeMap Address GenesisAccount) :
    List (Address × Bytes) :=
  alloc.entries.filterMap fun entry =>
    ((entry.2.settled eip161).map TrieAccount.encode).map (entry.1, ·)

def stateLeaves (eip161 : Bool) (alloc : BTreeMap Address GenesisAccount) : List (B256 × Bytes) :=
  hashedLeaves Address.bytes (stateEntries eip161 alloc)

/-- The state trie as a map. -/
def stateMap (eip161 : Bool) (alloc : BTreeMap Address GenesisAccount) :
    Nibbles → Option Bytes :=
  contentsOf (stateLeaves eip161 alloc)

/-- The addresses and slots of an allocation are among the strings. -/
structure AllocIn (strings : Set Bytes) (alloc : BTreeMap Address GenesisAccount) : Prop where
  addresses : ∀ entry ∈ alloc.entries, entry.1.bytes ∈ strings
  slots : ∀ entry ∈ alloc.entries, entry.2.SlotsIn strings

variable {eip161 : Bool} {alloc : BTreeMap Address GenesisAccount}

theorem mem_stateEntries {entry : Address × Bytes} (h : entry ∈ stateEntries eip161 alloc) :
    ∃ account, (entry.1, account) ∈ alloc.entries := by
  unfold stateEntries at h
  simp only [List.mem_filterMap, Option.map_eq_some_iff] at h
  obtain ⟨given, hgiven, bytes, -, rfl⟩ := h
  exact ⟨given.2, hgiven⟩

theorem stateEntries_in (halloc : AllocIn strings alloc) :
    ∀ entry ∈ stateEntries eip161 alloc, entry.1.bytes ∈ strings := by
  intro entry hentry
  obtain ⟨account, haccount⟩ := mem_stateEntries hentry
  exact halloc.addresses _ haccount

theorem nodup_stateEntries : ((stateEntries eip161 alloc).map Prod.fst).Nodup :=
  nodup_filterMap alloc.nodup fun account => (account.settled eip161).map TrieAccount.encode

theorem nodup_stateLeaves (hstrings : CollisionFree strings) (halloc : AllocIn strings alloc) :
    ((stateLeaves eip161 alloc).map Prod.fst).Nodup :=
  nodup_hashedLeaves hstrings address_bytes_injective nodup_stateEntries
    (stateEntries_in halloc)

theorem valuesFit_stateLeaves : ValuesFit (stateLeaves eip161 alloc) := by
  intro leaf hleaf
  simp only [stateLeaves, hashedLeaves, stateEntries, List.mem_map, List.mem_filterMap,
    Option.map_eq_some_iff] at hleaf
  obtain ⟨entry, ⟨given, -, bytes, ⟨account, -, rfl⟩, rfl⟩, rfl⟩ := hleaf
  exact account.length_encode_lt

theorem supported_stateMap : Tree.Supported 64 (stateMap eip161 alloc) :=
  supported_contentsOf valuesFit_stateLeaves

theorem trie_stateLeaves (hstrings : CollisionFree strings) (halloc : AllocIn strings alloc) :
    trie (stateLeaves eip161 alloc) = (Tree.canon 64 (stateMap eip161 alloc)).hash :=
  trie_eq (nodup_stateLeaves hstrings halloc) valuesFit_stateLeaves

theorem stateMap_key (hstrings : CollisionFree strings) (halloc : AllocIn strings alloc)
    {address : Address} (haddress : address.bytes ∈ strings) :
    stateMap eip161 alloc (unpack (keccak256 address.bytes)) =
      ((alloc.entries.lookup address).bind (·.settled eip161)).map TrieAccount.encode := by
  unfold stateMap stateLeaves
  rw [contentsOf_hashedLeaves hstrings address_bytes_injective nodup_stateEntries
    (stateEntries_in halloc) haddress]
  unfold stateEntries
  rw [lookup_filterMap alloc.nodup fun account => (account.settled eip161).map TrieAccount.encode]
  cases alloc.entries.lookup address <;> rfl

theorem exists_of_stateMap (hstrings : CollisionFree strings) (halloc : AllocIn strings alloc)
    {nibbles : Nibbles} (h : stateMap eip161 alloc nibbles ≠ none) :
    ∃ entry ∈ alloc.entries, nibbles = unpack (keccak256 entry.1.bytes) := by
  obtain ⟨entry, hentry, rfl⟩ :=
    exists_of_contentsOf_hashedLeaves (nodup_stateLeaves hstrings halloc) h
  obtain ⟨account, haccount⟩ := mem_stateEntries hentry
  exact ⟨_, haccount, rfl⟩

end

end WasixEth.Storage
