import WasixEth.Engine.Attempts

/-! # Why a block is marked `Hard`

As long as no search through the blocks before a block meets a `Soft` mark
first, a block is marked `Hard` only if it or a block before it failed a check
that does not depend on the arguments of a call.
-/

namespace WasixEth.Engine

open Storage Relation

section Marks

variable [BlockHashing] [Proofs] (node : Node)

section Explained

variable (seen : Header → Prop) (all : List Attempt)

variable {node seen all}

end Explained

/-! ## Runs -/

end Marks

section Sample

attribute [local instance] keccak keccakHashing keccakProofs

end Sample

end WasixEth.Engine
