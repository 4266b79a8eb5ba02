import WasixEth.Storage.EthTrie

/-! # Resolved tries

A `Tree` is a trie with all its references followed. Each reference keeps the
one choice its parent made about it: whether the child is held by hash or
inlined. Insertion and deletion on trees are what the operations on stored
nodes do once the store is out of the way.

A slot emptied in place and a slot never used have the same encoding but count
differently when a branch is examined for collapse, and the cache remembers
the difference. `delete` therefore takes the counts from outside.
-/

namespace WasixEth.Storage

open Rlp

inductive Tree where
  | empty
  | leaf (key : Nibbles) (value : Bytes)
  | extension (key : Nibbles) (hashed : Bool) (child : Tree)
  | branch (hashed : Nibble → Bool) (child : Nibble → Tree)

namespace Tree

instance : Inhabited Tree := ⟨empty⟩

def isEmpty : Tree → Bool
  | empty => true
  | _ => false

@[simp] theorem isEmpty_iff {tree : Tree} : tree.isEmpty = true ↔ tree = empty := by
  cases tree <;> simp [isEmpty]

@[simp] theorem isEmpty_eq_false_iff {tree : Tree} : tree.isEmpty = false ↔ tree ≠ empty := by
  cases tree <;> simp [isEmpty]

theorem leaf_ne_empty (key : Nibbles) (value : Bytes) : leaf key value ≠ empty := by simp

/-! ## Sizes -/

/-- A list header and its payload. -/
def listSize (payload : Nat) : Nat := lengthOfLength payload + payload

/-- A reference: 33 bytes for a hash, or the child itself. -/
def refSize (hashed : Bool) (size : Nat) : Nat := if hashed then 33 else size

/-- The length of a tree's encoding. -/
def size : Tree → Nat
  | empty => 1
  | leaf key value => listSize (bytesLength (encodePath key true) + bytesLength value)
  | extension key hashed child =>
      listSize (bytesLength (encodePath key false) + refSize hashed child.size)
  | branch hashed child =>
      listSize (((List.finRange 16).map fun i => refSize (hashed i) (child i).size).sum + 1)

/-- How a freshly stored child is referenced. -/
def link (tree : Tree) : Bool := decide (32 ≤ tree.size)

/-! ## Contents -/

def lookup : Tree → Nibbles → Option Bytes
  | empty, _ => none
  | leaf key value, nibbles => if key = nibbles then some value else none
  | extension key _ child, nibbles =>
      if key <+: nibbles then child.lookup (nibbles.drop key.length) else none
  | branch _ _, [] => none
  | branch _ child, index :: remaining => (child index).lookup remaining

/-! ## Insertion -/

/-- A tree behind an extension, unless the path is empty. -/
def wrap (key : Nibbles) (tree : Tree) : Tree :=
  if key = [] then tree else extension key tree.link tree

/-- A branch with two children. -/
def fork (i : Nibble) (first : Bool × Tree) (j : Nibble) (second : Bool × Tree) : Tree :=
  branch (Function.update (Function.update (fun _ => false) i first.1) j second.1)
    (Function.update (Function.update (fun _ => empty) i first.2) j second.2)

def linked (tree : Tree) : Bool × Tree := (tree.link, tree)

/-- The child of an extension behind what is left of its key. -/
def hang (key : Nibbles) (hashed : Bool) (child : Tree) : Bool × Tree :=
  if key = [] then (hashed, child) else linked (extension key hashed child)

/-- Two paths that part after a common beginning, the second one leading to a
new leaf. -/
def splitAt (key nibbles : Nibbles) (rest : Nibbles → Bool × Tree) (value : Bytes) : Tree :=
  let common := EthTrie.commonPrefixLength nibbles key
  match key.drop common, nibbles.drop common with
  | i :: key', j :: nibbles' =>
      wrap (nibbles.take common) (fork i (rest key') j (linked (leaf nibbles' value)))
  | _, _ => (rest key).2

def insert : Tree → Nibbles → Bytes → Tree
  | empty, nibbles, value => leaf nibbles value
  | leaf key old, nibbles, value =>
      if key = nibbles then leaf key value
      else splitAt key nibbles (fun key' => linked (leaf key' old)) value
  | extension key hashed child, nibbles, value =>
      if key <+: nibbles then
        let child' := child.insert (nibbles.drop key.length) value
        extension key (hashed || child'.link) child'
      else splitAt key nibbles (fun key' => hang key' hashed child) value
  | branch hashed child, [], _ => branch hashed child
  | branch hashed child, index :: remaining, value =>
      let child' := (child index).insert remaining value
      branch (Function.update hashed index (hashed index || child'.link))
        (Function.update child index child')

/-! ## Deletion -/

/-- An extension joined to a child that is an extension. -/
def joinExtension (key : Nibbles) (hashed : Bool) : Tree → Tree
  | extension key' hashed' child => extension (key ++ key') hashed' child
  | child => extension key hashed child

/-- A branch joined to its only child. -/
def joinBranch (index : Nibble) (hashed : Bool) : Tree → Tree
  | leaf key value => leaf (index :: key) value
  | extension key hashed' child => extension (index :: key) hashed' child
  | child => extension [index] hashed child

/-- The slots of a branch with a child. -/
def children (child : Nibble → Tree) : List Nibble :=
  (List.finRange 16).filter fun i => !(child i).isEmpty

def collapse (hashed : Nibble → Bool) (child : Nibble → Tree) : Tree :=
  match children child with
  | [] => empty
  | [index] => joinBranch index (hashed index) (child index)
  | _ => branch hashed child

/-- How a child left after a deletion is referenced. -/
def relink (hashed : Bool) (tree : Tree) : Bool := !tree.isEmpty && (hashed || tree.link)

/-- Deletion of a path. `counted d` tells whether the branch met after `d`
steps has an empty slot that counts as a child; an inlined child that vanishes
always leaves such a slot. -/
def delete : (Nat → Bool) → Tree → Nibbles → Tree
  | _, empty, _ => empty
  | _, leaf key value, nibbles => if key = nibbles then empty else leaf key value
  | counted, extension key hashed child, nibbles =>
      if key <+: nibbles then
        let child' := child.delete (fun d => counted (d + 1)) (nibbles.drop key.length)
        if child'.isEmpty && hashed then empty
        else joinExtension key (relink hashed child') child'
      else extension key hashed child
  | _, branch hashed child, [] => collapse hashed child
  | counted, branch hashed child, index :: remaining =>
      let child' := (child index).delete (fun d => counted (d + 1)) remaining
      let hashed' := Function.update hashed index (relink (hashed index) child')
      let children' := Function.update child index child'
      if counted 0 || (child'.isEmpty && !hashed index && !(child index).isEmpty) then
        branch hashed' children'
      else collapse hashed' children'

/-- Whether deleting a path leaves an emptied slot behind in a branch. -/
def leavesSlot : Tree → Nibbles → Bool
  | empty, _ => false
  | leaf _ _, _ => false
  | extension key _ child, nibbles =>
      if key <+: nibbles then child.leavesSlot (nibbles.drop key.length) else false
  | branch _ _, [] => false
  | branch hashed child, index :: remaining =>
      (child index).leavesSlot remaining ||
        (((child index).delete (fun _ => false) remaining).isEmpty && !hashed index &&
          !(child index).isEmpty)

end Tree

end WasixEth.Storage
