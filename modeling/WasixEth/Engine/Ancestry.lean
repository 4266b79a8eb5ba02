import WasixEth.Engine.ReorgHandler
import WasixEth.Lib.Ancestry

/-! # The invariant of the chain tables

Stored headers form a rooted block store, each under its own hash with its
body and its number, and a payload is built on a stored block. Hashes are
taken not to collide on the headers that were stored.
-/

namespace WasixEth

open Storage

/-- No two of the headers have the same hash, and none has the zero hash. -/
structure HashesApart [BlockHashing] (headers : List Header) : Prop where
  injective : ∀ a ∈ headers, ∀ b ∈ headers, hashSlow a = hashSlow b → a = b
  ne_zero : ∀ a ∈ headers, hashSlow a ≠ B256.zero

theorem HashesApart.mono [BlockHashing] {headers headers' : List Header}
    (h : HashesApart headers') (hsub : headers ⊆ headers') : HashesApart headers where
  injective a ha b hb := h.injective a (hsub ha) b (hsub hb)
  ne_zero a ha := h.ne_zero a (hsub ha)

def Header.link (header : Header) : Link B256 := ⟨header.parentHash, header.number⟩

namespace Storage.ChainTables

variable (tables : ChainTables)

/-- The block store of the headers. -/
def links (hash : B256) : Option (Link B256) := (tables.headers.get hash).map Header.link

/-- `AncestorAt head n hash`: following the parents from `head`, the block
with number `n` is `hash`. -/
def AncestorAt (head : B256) (n : Nat) (hash : B256) : Prop :=
  Ancestor tables.links head n hash

variable {tables}

theorem links_eq_some {hash : B256} {header : Header} (h : tables.headers.get hash = some header) :
    tables.links hash = some header.link := by
  rw [links, h]
  rfl

theorem exists_header {hash : B256} {link : Link B256} (h : tables.links hash = some link) :
    ∃ header, tables.headers.get hash = some header ∧ link = header.link := by
  rw [links, Option.map_eq_some_iff] at h
  obtain ⟨header, hheader, rfl⟩ := h
  exact ⟨header, hheader, rfl⟩

end Storage.ChainTables

open ChainTables

variable [BlockHashing]

theorem hash_of_getPayload {tables : ChainTables} {hash : B256} {payload : Payload}
    (h : tables.getPayloadByBlockHash Faults.none hash = some payload) :
    payload.block.hash = hash := by
  simp only [getPayloadByBlockHash, Faults.read_none, Option.map_eq_some_iff] at h
  obtain ⟨entry, hentry, rfl⟩ := h
  simpa using List.find?_some hentry

/-- The block is built on a stored one. -/
def BuiltOnStored (tables : ChainTables) (header : Header) : Prop :=
  ∃ parent, tables.headers.get header.parentHash = some parent ∧
    header.number = parent.number + 1

structure ChainInvariant (genesis : B256) (tables : ChainTables) : Prop where
  hash_eq : ∀ {hash header}, tables.headers.get hash = some header → hashSlow header = hash
  logged : ∀ {hash header}, tables.headers.get hash = some header → header ∈ tables.headerLog
  apart : HashesApart tables.headerLog
  number_eq : ∀ {hash header}, tables.headers.get hash = some header →
    tables.headerNumbers.get hash = some header.number
  body_iff : ∀ hash, (tables.blockBodies.get hash).isSome ↔ (tables.headers.get hash).isSome
  genesis_mem : (tables.headers.get genesis).isSome
  parent_mem : ∀ {hash header}, tables.headers.get hash = some header → hash ≠ genesis →
    BuiltOnStored tables header
  payload_mem : ∀ entry ∈ tables.payloads, entry.2.block.hash = genesis ∨
    BuiltOnStored tables entry.2.block.header

namespace ChainInvariant

variable {genesis : B256} {tables : ChainTables}

theorem rooted (h : ChainInvariant genesis tables) : Rooted tables.links genesis where
  root_mem := by
    obtain ⟨header, hheader⟩ := Option.isSome_iff_exists.mp h.genesis_mem
    exact ⟨header.link, links_eq_some hheader⟩
  parent_mem := by
    intro hash link hlink hne
    obtain ⟨header, hheader, rfl⟩ := exists_header hlink
    obtain ⟨parent, hparent, hnumber⟩ := h.parent_mem hheader hne
    exact ⟨parent.link, links_eq_some hparent, hnumber⟩

theorem hash_ne_zero (h : ChainInvariant genesis tables) {hash : B256} {header : Header}
    (hheader : tables.headers.get hash = some header) : hash ≠ B256.zero := by
  rw [← h.hash_eq hheader]
  exact h.apart.ne_zero header (h.logged hheader)

theorem header_eq (h : ChainInvariant genesis tables) {hash : B256} {header : Header}
    (hheader : tables.headers.get hash = some header) :
    tables.header Faults.none hash = some header := by
  rw [ChainTables.header, if_neg (h.hash_ne_zero hheader), hheader]
  rfl

theorem exists_body (h : ChainInvariant genesis tables) {hash : B256} {header : Header}
    (hheader : tables.headers.get hash = some header) :
    ∃ body, tables.blockBodies.get hash = some body := by
  rw [← Option.isSome_iff_exists, h.body_iff, hheader]
  rfl

/-- A stored block is read back with the header it was stored with. -/
theorem exists_blockByHash (h : ChainInvariant genesis tables) {hash : B256} {header : Header}
    (hheader : tables.headers.get hash = some header) :
    ∃ body, tables.blockByHash Faults.none hash = some ⟨header, body⟩ := by
  obtain ⟨body, hbody⟩ := h.exists_body hheader
  refine ⟨body, ?_⟩
  simp only [ChainTables.blockByHash, Faults.part_none, h.header_eq hheader, h.hash_eq hheader,
    ChainTables.blockBodyByHash, Faults.read_none, hbody]

/-- Header tables that have only gained headers keep the ancestors. -/
theorem ancestorAt_iff {tables' : ChainTables} (h : ChainInvariant genesis tables)
    (h' : ChainInvariant genesis tables')
    (hsub : ∀ hash header, tables.headers.get hash = some header →
      tables'.headers.get hash = some header)
    {head : B256} {header : Header} (hhead : tables.headers.get head = some header) (n : Nat)
    (hash : B256) : tables'.AncestorAt head n hash ↔ tables.AncestorAt head n hash := by
  apply Rooted.ancestor_iff h.rooted h'.rooted ?_ (links_eq_some hhead)
  intro k link hlink
  obtain ⟨header, hheader, rfl⟩ := exists_header hlink
  exact links_eq_some (hsub _ _ hheader)

end ChainInvariant

/-- The canonical chain is that of `head` and ends with it. -/
structure CanonicalChain (tables : ChainTables) (head : B256) : Prop where
  head_mem : (tables.headers.get head).isSome
  heads_iff : ∀ n hash, tables.canonicalHeads.get n = some hash ↔ tables.AncestorAt head n hash

namespace CanonicalChain

variable {genesis head : B256} {tables : ChainTables}

/-- A stored block is canonical exactly when it is an ancestor of the head. -/
theorem isCanonical_iff (hchain : CanonicalChain tables head) (h : ChainInvariant genesis tables)
    {hash : B256} {header : Header} (hheader : tables.headers.get hash = some header) :
    tables.isCanonical Faults.none hash = true ↔ tables.AncestorAt head header.number hash := by
  rw [← hchain.heads_iff]
  simp only [ChainTables.isCanonical, ChainTables.blockNumber, ChainTables.blockHash,
    Faults.part_none, Faults.read_none, h.number_eq hheader]
  exact decide_eq_true_iff

omit [BlockHashing] in
/-- What is canonical is stored. -/
theorem exists_header_of_isCanonical (hchain : CanonicalChain tables head) {hash : B256}
    (h : tables.isCanonical Faults.none hash = true) :
    ∃ header, tables.headers.get hash = some header := by
  unfold ChainTables.isCanonical at h
  split at h
  · cases h
  next number _ =>
    obtain ⟨link, hlink, _⟩ :=
      ((hchain.heads_iff number hash).mp (of_decide_eq_true h)).height_eq
    obtain ⟨header, hheader, _⟩ := exists_header hlink
    exact ⟨header, hheader⟩

end CanonicalChain

end WasixEth
