import WasixEth.Storage.StoredTrie

/-! # Accounts below a historical root

To read an account as of an earlier block the read provider does not open a trie. It has a
descent of its own, with a cursor into the hashed address: one loop fetches nodes by their
hashes, and loops inside of it follow nodes that are inlined. On every trie that was committed
it finds what the trie finds.
-/

namespace WasixEth.Storage

open Routine

/-! ## The descent -/

inductive ReadError where
  | node (e : TrieError)
  | account (e : Rlp.Error)
  | panic
  | outOfFuel

/-- What follows on the look at a node. -/
inductive Visit where
  | answer (account : Option TrieAccount)
  | fetch (hash : B256) (cursor : Nat)
  | inlined (node : MyTrieNode) (cursor : Nat)

/-- `nibbles.slice(cursor..)`. -/
def sliceFrom (nibbles : Nibbles) (cursor : Nat) : Except ReadError Nibbles :=
  if cursor ≤ nibbles.length then .ok (nibbles.drop cursor) else .error .panic

def decodeInlined (child : RlpNode) : Except ReadError MyTrieNode :=
  (MyTrieNode.decode child.bytes).mapError .node

/-- The loop over fetched nodes and the two loops over inlined nodes treat a node alike. -/
def visitAccountNode (nibbles : Nibbles) (node : MyTrieNode) (cursor : Nat) :
    Except ReadError Visit :=
  match node with
  | .branch branch =>
      if cursor = nibbles.length then
        .ok (.answer (branch.value.bind fun value => (TrieAccount.decode value).toOption))
      else
        match nibbles[cursor]? with
        | none => .error .panic
        | some nibble =>
            let child := branch.stack nibble
            match child.asHash with
            | some hash => .ok (.fetch hash (cursor + 1))
            | none =>
                if child.isEmpty then .ok (.answer none)
                else do
                  let node ← decodeInlined child
                  return .inlined node (cursor + 1)
  | .leaf leaf => do
      let rest ← sliceFrom nibbles cursor
      if rest = leaf.key then do
        let account ← (TrieAccount.decode leaf.value).mapError .account
        return .answer (some account)
      else return .answer none
  | .extension ext => do
      let rest ← sliceFrom nibbles cursor
      if ext.key <+: rest then
        match ext.child.asHash with
        | some hash => return .fetch hash (cursor + ext.key.length)
        | none => do
            let node ← decodeInlined ext.child
            return .inlined node (cursor + ext.key.length)
      else return .answer none
  | .emptyRoot => .ok (.answer none)

/-- The loop over inlined nodes: it returns, or goes back to a node that is to be fetched. -/
def followInlined (nibbles : Nibbles) :
    Nat → MyTrieNode → Nat → Except ReadError (Option TrieAccount ⊕ B256 × Nat)
  | 0, _, _ => .error .outOfFuel
  | fuel + 1, node, cursor => do
      match ← visitAccountNode nibbles node cursor with
      | .answer account => return .inl account
      | .fetch hash cursor => return .inr (hash, cursor)
      | .inlined node cursor => followInlined nibbles fuel node cursor

/-- The loop over fetched nodes. What does not decode as a node may be an account. -/
def fetchNodes (nodes : Table B256 Bytes) (nibbles : Nibbles) :
    Nat → B256 → Nat → Except ReadError (Option TrieAccount)
  | 0, _, _ => .error .outOfFuel
  | fuel + 1, hash, cursor =>
      match nodes.get hash with
      | none => .ok none
      | some data =>
          match MyTrieNode.decode data with
          | .error _ => .ok (TrieAccount.decode data).toOption
          | .ok node => do
              match ← visitAccountNode nibbles node cursor with
              | .answer account => return account
              | .fetch hash cursor => fetchNodes nodes nibbles fuel hash cursor
              | .inlined node cursor =>
                  match ← followInlined nibbles fuel node cursor with
                  | .inl account => return account
                  | .inr (hash, cursor) => fetchNodes nodes nibbles fuel hash cursor

section

variable [Keccak256]

def getAccountFromTrie (nodes : Table B256 Bytes) (fuel : Nat) (root hashedAddress : B256) :
    Except ReadError (Option TrieAccount) :=
  fetchNodes nodes (unpack hashedAddress) fuel root 0

/-- `account` as of a historical root. -/
def accountAtRoot (nodes : Table B256 Bytes) (fuel : Nat) (address : Address) (root : B256) :
    Except ReadError (Option TrieAccount) :=
  if root = emptyRootHash then .ok none
  else getAccountFromTrie nodes fuel root (keccak256 address.bytes)

/-! ## The descent finds what is in the tree -/

/-- The descent has reached a tree in which the rest of the path leads to the answer. -/
structure DescentAt (nodes : Table B256 Bytes) (nibbles : Nibbles) (answer : Option TrieAccount)
    (cursor : Nat) (tree : Tree) : Prop where
  cursor_le : cursor ≤ nibbles.length
  regular : tree.Regular (nibbles.length - cursor)
  stored : tree.StoredIn nodes
  lookup : tree.lookup (nibbles.drop cursor) = answer.map TrieAccount.encode

/-- The node of a tree can be fetched. -/
def Fetchable (nodes : Table B256 Bytes) (tree : Tree) : Prop :=
  nodes.get tree.hash = some tree.encode

variable {nodes : Table B256 Bytes} {nibbles : Nibbles} {answer : Option TrieAccount}
  {cursor : Nat} {tree : Tree}

/-- A look at a node that answers, or goes on below it with more of the path read. -/
def Advances (nodes : Table B256 Bytes) (nibbles : Nibbles) (answer : Option TrieAccount)
    (cursor : Nat) (visit : Except ReadError Visit) : Prop :=
  visit = .ok (.answer answer) ∨
    ∃ child cursor', cursor < cursor' ∧ DescentAt nodes nibbles answer cursor' child ∧
      (visit = .ok (.fetch child.hash cursor') ∧ Fetchable nodes child ∨
        visit = .ok (.inlined child.node cursor'))

theorem DescentAt.slice (h : DescentAt nodes nibbles answer cursor tree) :
    sliceFrom nibbles cursor = .ok (nibbles.drop cursor) := if_pos h.cursor_le

/-- The path ends in a leaf, with the account or without it. -/
theorem DescentAt.visit_leaf {key : Nibbles} {value : Bytes}
    (h : DescentAt nodes nibbles answer cursor (.leaf key value)) :
    visitAccountNode nibbles (Tree.leaf key value).node cursor = .ok (.answer answer) := by
  have hlookup := h.lookup
  simp only [Tree.node, visitAccountNode, h.slice, Except.bind, bind]
  rw [Tree.lookup] at hlookup
  split at hlookup
  next heq =>
    obtain ⟨account, rfl, rfl⟩ := Option.map_eq_some_iff.mp hlookup.symm
    rw [if_pos heq.symm, TrieAccount.decode_encode]
    rfl
  next hne =>
    obtain rfl : answer = none := by simpa using hlookup.symm
    rw [if_neg fun heq => hne heq.symm]
    rfl

theorem DescentAt.visit_extension {key : Nibbles} {hashed : Bool} {child : Tree}
    (h : DescentAt nodes nibbles answer cursor (.extension key hashed child))
    (hlength : nibbles.length ≤ 64) :
    Advances nodes nibbles answer cursor
      (visitAccountNode nibbles (Tree.extension key hashed child).node cursor) := by
  have hslice := h.slice
  obtain ⟨-, hregular, hstored, hlookup⟩ := h
  generalize hdepth : nibbles.length - cursor = depth at hregular
  cases hregular with
  | @extension depth _ _ _ hkey hflag hchild =>
      have hpos : 0 < key.length := List.length_pos_iff.mpr hkey
      simp only [Tree.node, visitAccountNode, hslice, Except.bind, bind]
      rw [Tree.lookup] at hlookup
      split at hlookup
      next hpre =>
        rw [if_pos hpre]
        rw [List.drop_drop] at hlookup
        have hbelow : DescentAt nodes nibbles answer (cursor + key.length) child := by
          refine ⟨by omega, ?_, fun data hdata => hstored data ?_, hlookup⟩
          · rwa [show nibbles.length - (cursor + key.length) = depth by omega]
          · exact Tree.held_subset_heldBy hashed child hdata
        refine .inr ⟨child, _, by omega, hbelow, ?_⟩
        have hdenotes := Tree.denotes_refOf hashed child
        rcases reference_cases hdenotes hflag hchild (by omega) hstored with
          ⟨hhash, hdata⟩ | ⟨hhash, -, hdecode⟩
        · refine .inl ⟨?_, hdata⟩
          rw [hhash]
          rfl
        · have hnode := hdecode (Tree.refOf_ne_nil hashed (Tree.valid_node hchild (by omega)))
          refine .inr ?_
          rw [hhash]
          simp only [decodeInlined, hnode, Except.mapError, pure, Except.pure]
      next hpre =>
        obtain rfl : answer = none := by simpa using hlookup.symm
        rw [if_neg hpre]
        exact .inl rfl

theorem DescentAt.visit_branch {hashed : Nibble → Bool} {child : Nibble → Tree}
    (h : DescentAt nodes nibbles answer cursor (.branch hashed child))
    (hlength : nibbles.length ≤ 64) :
    Advances nodes nibbles answer cursor
      (visitAccountNode nibbles (Tree.branch hashed child).node cursor) := by
  obtain ⟨-, hregular, hstored, hlookup⟩ := h
  generalize hdepth : nibbles.length - cursor = depth at hregular
  cases hregular with
  | @branch depth _ _ hflag hchild =>
      have hlt : cursor < nibbles.length := by omega
      rw [List.drop_eq_getElem_cons hlt, Tree.lookup] at hlookup
      simp only [Tree.node, visitAccountNode]
      rw [if_neg hlt.ne, List.getElem?_eq_getElem hlt]
      dsimp only
      have hbelow : DescentAt nodes nibbles answer (cursor + 1) (child nibbles[cursor]) := by
        refine ⟨hlt, ?_, fun data hdata => hstored data ?_, hlookup⟩
        · rw [show nibbles.length - (cursor + 1) = depth by omega]
          exact hchild _
        · exact Tree.heldBy_subset_branch hashed child _ (Tree.held_subset_heldBy _ _ hdata)
      have hdenotes : Tree.Denotes
          (refOf (hashed nibbles[cursor]) (child nibbles[cursor]).node).reread
          (hashed nibbles[cursor]) (child nibbles[cursor]) := reread_reread _
      rcases reference_cases hdenotes (hflag _) (hchild _) (by omega) fun data hdata =>
          hstored data (Tree.heldBy_subset_branch hashed child _ hdata) with
        ⟨hhash, hdata⟩ | ⟨hhash, hempty, hdecode⟩
      · rw [hhash]
        exact .inr ⟨_, _, Nat.lt_succ_self cursor, hbelow, .inl ⟨rfl, hdata⟩⟩
      · rw [hhash]
        dsimp only
        split
        next hnil =>
          rw [hempty hnil] at hlookup
          obtain rfl : answer = none := by simpa [Tree.lookup] using hlookup.symm
          exact .inl rfl
        next hne =>
          refine .inr ⟨_, _, Nat.lt_succ_self cursor, hbelow, .inr ?_⟩
          simp only [decodeInlined, hdecode (by simpa using hne), Except.mapError, Except.bind,
            bind, pure, Except.pure]

/-- One look at a node. -/
theorem visitAccountNode_spec (hlength : nibbles.length ≤ 64)
    (h : DescentAt nodes nibbles answer cursor tree) :
    Advances nodes nibbles answer cursor (visitAccountNode nibbles tree.node cursor) := by
  cases tree with
  | empty =>
      obtain rfl : answer = none := by simpa [Tree.lookup] using h.lookup.symm
      exact .inl rfl
  | leaf => exact .inl h.visit_leaf
  | extension => exact h.visit_extension hlength
  | branch => exact h.visit_branch hlength

/-- The loop over inlined nodes answers, or comes to a node below that can be fetched. -/
theorem followInlined_spec (hlength : nibbles.length ≤ 64) {fuel : Nat}
    (h : DescentAt nodes nibbles answer cursor tree) (hfuel : nibbles.length - cursor < fuel) :
    followInlined nibbles fuel tree.node cursor = .ok (.inl answer) ∨
      ∃ child cursor', cursor < cursor' ∧ DescentAt nodes nibbles answer cursor' child ∧
        Fetchable nodes child ∧
        followInlined nibbles fuel tree.node cursor = .ok (.inr (child.hash, cursor')) := by
  induction fuel generalizing cursor tree with
  | zero => omega
  | succ fuel ih =>
      unfold followInlined
      rcases visitAccountNode_spec hlength h with hvisit | ⟨child, cursor', hlt, hbelow, hvisit⟩
      · rw [hvisit]
        exact .inl rfl
      · rcases hvisit with ⟨hvisit, hfetch⟩ | hvisit
        · rw [hvisit]
          exact .inr ⟨child, cursor', hlt, hbelow, hfetch, rfl⟩
        · rw [hvisit]
          have hle := hbelow.cursor_le
          rcases ih hbelow (by omega) with hanswer | ⟨child', cursor'', hlt', hrest⟩
          · exact .inl hanswer
          · exact .inr ⟨child', cursor'', hlt.trans hlt', hrest⟩

/-- The loop over fetched nodes answers, with the path as the bound of its rounds. -/
theorem fetchNodes_spec (hlength : nibbles.length ≤ 64) {fuel : Nat}
    (h : DescentAt nodes nibbles answer cursor tree) (hfetch : Fetchable nodes tree)
    (hfuel : nibbles.length - cursor < fuel) :
    fetchNodes nodes nibbles fuel tree.hash cursor = .ok answer := by
  induction fuel generalizing cursor tree with
  | zero => omega
  | succ fuel ih =>
      have hdecode := Tree.decode_tree_encode h.regular (by omega)
      unfold fetchNodes
      rw [show nodes.get tree.hash = _ from hfetch]
      dsimp only
      rw [hdecode]
      dsimp only
      rcases visitAccountNode_spec hlength h with hvisit | ⟨child, cursor', hlt, hbelow, hvisit⟩
      · rw [hvisit]
        rfl
      · have hle := hbelow.cursor_le
        rcases hvisit with ⟨hvisit, hfetch'⟩ | hvisit
        · rw [hvisit]
          exact ih hbelow hfetch' (by omega)
        · rw [hvisit]
          dsimp only [bind, Except.bind]
          have hrounds : nibbles.length - cursor' < fuel := by omega
          rcases followInlined_spec hlength hbelow hrounds with
            hanswer | ⟨child', cursor'', hlt', hbelow', hfetch', hnext⟩
          · rw [hanswer]
            rfl
          · have hle' := hbelow'.cursor_le
            rw [hnext]
            exact ih hbelow' hfetch' (by omega)

/-! ## Tries of accounts -/

/-- One use of an account trie. A trie can be opened at any root that was committed. -/
inductive AccountOp where
  | insert (hashedAddress : B256) (account : TrieAccount)
  | delete (hashedAddress : B256)
  | commit
  | checkout (index : Nat)

/-- An open account trie and the roots committed so far. -/
structure AccountSession where
  trie : EthTrie
  roots : List B256

namespace AccountSession

def start (store : Table B256 Bytes) : AccountSession := ⟨EthTrie.new store emptyRootHash, []⟩

def store (s : AccountSession) : Table B256 Bytes := s.trie.state

abbrev SessionM := Routine AccountSession Bytes TrieError

def onTrie {α : Type} (m : TrieM α) : SessionM α := fun s =>
  let outcome := m s.trie
  ⟨outcome.result, { s with trie := outcome.state }, outcome.log⟩

def perform : AccountOp → SessionM Unit
  | .insert hashedAddress account => onTrie (EthTrie.insert hashedAddress account.encode)
  | .delete hashedAddress => onTrie (EthTrie.delete hashedAddress)
  | .commit => modify fun s => ⟨s.trie.commit, s.trie.rootHash :: s.roots⟩
  | .checkout index => modify fun s =>
      ⟨EthTrie.new s.trie.state ((s.roots[index]?).getD emptyRootHash), s.roots⟩

def performAll : List AccountOp → SessionM Unit
  | [] => return ()
  | op :: ops => do
      perform op
      performAll ops

end AccountSession

/-- The contents of a trie of accounts. -/
def encoded (accounts : B256 → Option TrieAccount) (key : B256) : Option Bytes :=
  (accounts key).map TrieAccount.encode

/-- The open trie and every committed one are tries of accounts. -/
structure AccountSession.Recorded (strings : Set Bytes) (s : AccountSession) : Prop where
  keyed : Keyed strings s.store
  current : ∃ accounts, Opened strings s.store (encoded accounts) s.trie
  committed : ∀ root ∈ s.roots, ∃ accounts, TrieAt s.store root (encoded accounts)

omit [Keccak256] in
theorem encoded_insert (accounts : B256 → Option TrieAccount) (key : B256)
    (account : TrieAccount) :
    Function.update (encoded accounts) key (some account.encode) =
      encoded (Function.update accounts key (some account)) := by
  funext other
  by_cases heq : other = key
  · subst heq
    simp [encoded]
  · simp [encoded, heq]

omit [Keccak256] in
theorem encoded_delete (accounts : B256 → Option TrieAccount) (key : B256) :
    Function.update (encoded accounts) key none = encoded (Function.update accounts key none) := by
  funext other
  by_cases heq : other = key
  · subst heq
    simp [encoded]
  · simp [encoded, heq]

namespace AccountSession

variable {strings : Set Bytes}

theorem onTrie_recorded {m : TrieM Unit}
    (h : ∀ nodes accounts, Triple (· ∈ strings)
      (fun t => t.state = nodes ∧ Opened strings nodes (encoded accounts) t) m
      fun _ t => t.state = nodes ∧ ∃ accounts', Opened strings nodes (encoded accounts') t) :
    Triple (· ∈ strings) (Recorded strings) (onTrie m) fun _ => Recorded strings := by
  rintro s ⟨hkeyed, ⟨accounts, hopened⟩, hcommitted⟩ hlog
  obtain ⟨a, hresult, hstate, accounts', hopened'⟩ :=
    h s.store accounts s.trie ⟨rfl, hopened⟩ hlog
  refine ⟨a, hresult, ?_⟩
  have hstore : (onTrie m s).state.store = s.store := hstate
  refine ⟨hstore.symm ▸ hkeyed, ⟨accounts', hstore.symm ▸ hopened'⟩, ?_⟩
  exact fun root hroot => hstore.symm ▸ hcommitted root hroot

theorem perform_recorded (hstrings : CollisionFree strings) (op : AccountOp) :
    Triple (· ∈ strings) (Recorded strings) (perform op) fun _ => Recorded strings := by
  cases op with
  | insert key account =>
      refine onTrie_recorded fun nodes accounts => ?_
      refine (insert_opened hstrings key account.length_encode_lt).weaken ?_
      rintro _ t ⟨hstate, hopened⟩
      rw [encoded_insert] at hopened
      exact ⟨hstate, _, hopened⟩
  | delete key =>
      refine onTrie_recorded fun nodes accounts => ?_
      refine (delete_opened hstrings key).weaken ?_
      rintro _ t ⟨hstate, hopened⟩
      rw [encoded_delete] at hopened
      exact ⟨hstate, _, hopened⟩
  | commit =>
      refine triple_modify fun s hs => ?_
      obtain ⟨hkeyed, ⟨accounts, hopened⟩, hcommitted⟩ := hs
      obtain ⟨hkeyed', hgrows, htrie⟩ := hopened.commit hstrings
      refine ⟨hkeyed', ⟨accounts, hopened.committed⟩, ?_⟩
      intro root hroot
      rcases List.mem_cons.mp hroot with rfl | hroot
      · exact ⟨accounts, htrie⟩
      · obtain ⟨accounts', htrie'⟩ := hcommitted root hroot
        exact ⟨accounts', htrie'.mono hgrows⟩
  | checkout index =>
      refine triple_modify fun s hs => ?_
      obtain ⟨hkeyed, -, hcommitted⟩ := hs
      refine ⟨hkeyed, ?_, hcommitted⟩
      cases hindex : s.roots[index]? with
      | some root =>
          obtain ⟨accounts, htrie⟩ := hcommitted root (List.mem_of_getElem? hindex)
          exact ⟨accounts, htrie.opened hstrings hkeyed⟩
      | none => exact ⟨fun _ => none, (TrieAt.empty s.store).opened hstrings hkeyed⟩

theorem performAll_recorded (hstrings : CollisionFree strings) (ops : List AccountOp) :
    Triple (· ∈ strings) (Recorded strings) (performAll ops) fun _ => Recorded strings := by
  induction ops with
  | nil => exact triple_pure fun s hs => hs
  | cons op ops ih => exact triple_bind (perform_recorded hstrings op) fun _ => ih

theorem start_recorded (hstrings : CollisionFree strings) {store : Table B256 Bytes}
    (hkeyed : Keyed strings store) : Recorded strings (start store) :=
  ⟨hkeyed, ⟨fun _ => none, (TrieAt.empty store).opened hstrings hkeyed⟩, by simp [start]⟩

end AccountSession

open AccountSession

/-! ## Both descents agree -/

variable {strings : Set Bytes} {root : B256} {accounts : B256 → Option TrieAccount}

theorem get_stored (hstrings : CollisionFree strings) (hkeyed : Keyed strings nodes)
    (htrie : TrieAt nodes root (encoded accounts)) (key : B256) :
    (EthTrie.get key (EthTrie.new nodes root)).result = .ok (encoded accounts key) := by
  obtain ⟨tree, hholds, hlookup⟩ := htrie.opened hstrings hkeyed
  obtain ⟨value, hresult, hvalue, -⟩ :=
    get_spec hstrings key _ hholds (EthTrie.logsOnly_get key _)
  rw [← hlookup key, ← hvalue]
  exact hresult

theorem accountAtRoot_stored (hstrings : CollisionFree strings) (hkeyed : Keyed strings nodes)
    (htrie : TrieAt nodes root (encoded accounts)) (address : Address) {fuel : Nat}
    (hfuel : 65 ≤ fuel) :
    accountAtRoot nodes fuel address root = .ok (accounts (keccak256 address.bytes)) := by
  unfold accountAtRoot
  split
  next hempty =>
    subst hempty
    have hnone := htrie.eq_none hstrings hkeyed (keccak256 address.bytes)
    rw [Option.map_eq_none_iff.mp hnone]
  next hne =>
    obtain ⟨tree, rfl, hregular, hheld, hlookup⟩ := htrie
    have hlength := length_unpack (keccak256 address.bytes)
    have hfetch : Fetchable nodes tree :=
      (hheld _ (Tree.encode_mem_heldBy tree)).resolve_left fun hcode =>
        hne (congrArg Tree.hash (Tree.eq_empty_of_encode hregular le_rfl hcode))
    have hdescent : DescentAt nodes (unpack (keccak256 address.bytes))
        (accounts (keccak256 address.bytes)) 0 tree := by
      refine ⟨Nat.zero_le _, ?_, fun data hdata => hheld data ?_, hlookup _⟩
      · rwa [hlength]
      · exact Tree.held_subset_heldBy true tree hdata
    exact fetchNodes_spec hlength.le hdescent hfetch (by omega)

/-- Below every root that was committed, the read provider's descent returns and finds the
account that the trie finds. -/
theorem accountAtRoot_eq_get (store : Table B256 Bytes) (hstore : HashKeyed store)
    (ops : List AccountOp)
    (hfree : Set.InjOn keccak256 (runStrings store (performAll ops (start store)).log))
    (hroot : root ∈ (performAll ops (start store)).state.roots) (address : Address) {fuel : Nat}
    (hfuel : 65 ≤ fuel) :
    ∃ found answer,
      (EthTrie.get (keccak256 address.bytes)
        (EthTrie.new (performAll ops (start store)).state.store root)).result = .ok found ∧
      accountAtRoot (performAll ops (start store)).state.store fuel address root = .ok answer ∧
      found.map TrieAccount.decode = answer.map .ok := by
  have hstrings := collisionFree_runStrings hfree
  have hstart := start_recorded hstrings fun hash data hget =>
    ⟨.inr (.inr ⟨hash, hget⟩), hstore hash data hget⟩
  obtain ⟨_, -, hkeyed, -, hcommitted⟩ := performAll_recorded hstrings ops _ hstart
    fun data hdata => .inr (.inl hdata)
  obtain ⟨accounts, htrie⟩ := hcommitted root hroot
  refine ⟨_, _, get_stored hstrings hkeyed htrie _,
    accountAtRoot_stored hstrings hkeyed htrie address hfuel, ?_⟩
  unfold encoded
  cases accounts (keccak256 address.bytes) with
  | none => rfl
  | some account => exact congrArg some account.decode_encode

end

section Keccak

attribute [local instance] keccak

open AccountSession

def firstAddress : Address := default

/-- Two accounts of which one is deleted again, with a root committed before and after. -/
def twoRootsRun : List AccountOp :=
  [.insert (keccak256 firstAddress.bytes) default, .insert (B256.leading 0x11) default, .commit,
    .delete (B256.leading 0x11), .commit]

theorem accountAtRoot_eq_get_twoRootsRun : ∃ found answer,
    (EthTrie.get (keccak256 firstAddress.bytes) (EthTrie.new
      (performAll twoRootsRun (start ∅)).state.store
      ((performAll twoRootsRun (start ∅)).state.roots.headD emptyRootHash))).result = .ok found ∧
    accountAtRoot (performAll twoRootsRun (start ∅)).state.store 65 firstAddress
      ((performAll twoRootsRun (start ∅)).state.roots.headD emptyRootHash) = .ok answer ∧
    found.map TrieAccount.decode = answer.map .ok :=
  accountAtRoot_eq_get ∅ (by simp [HashKeyed]) twoRootsRun
    (injOn_runStrings_empty (by decide +kernel)) (by decide +kernel) firstAddress le_rfl

end Keccak

end WasixEth.Storage
