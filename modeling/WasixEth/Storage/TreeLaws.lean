import WasixEth.Storage.Tree

/-! # Trees as maps

Trees over paths of one length: every leaf ends at that length, extension
keys are nonempty, and only children shorter than a hash are inlined.
Insertion and deletion keep this shape and act on lookups as they do on a
finite map, whatever the shape of the tree.
-/

namespace WasixEth.Storage

open EthTrie (commonPrefixLength)

/-! ## Paths that part -/

theorem exists_parting {key nibbles : Nibbles} (hkey : ¬ key <+: nibbles)
    (hnibbles : ¬ nibbles <+: key) :
    ∃ path i key' j nibbles',
      key = path ++ i :: key' ∧ nibbles = path ++ j :: nibbles' ∧ i ≠ j := by
  induction key generalizing nibbles with
  | nil => exact absurd (List.nil_prefix) hkey
  | cons i key ih =>
      cases nibbles with
      | nil => exact absurd (List.nil_prefix) hnibbles
      | cons j nibbles =>
          by_cases hij : i = j
          · subst hij
            rw [List.prefix_cons_inj] at hkey hnibbles
            obtain ⟨path, i', key', j', nibbles', rfl, rfl, hne⟩ := ih hkey hnibbles
            exact ⟨i :: path, i', key', j', nibbles', rfl, rfl, hne⟩
          · exact ⟨[], i, key, j, nibbles, rfl, rfl, hij⟩

theorem commonPrefixLength_parting (path : Nibbles) {i j : Nibble} (key nibbles : Nibbles)
    (hne : i ≠ j) :
    commonPrefixLength (path ++ j :: nibbles) (path ++ i :: key) = path.length := by
  induction path with
  | nil => simp [commonPrefixLength, Ne.symm hne]
  | cons a path ih => simp [commonPrefixLength, ih]

theorem commonPrefixLength_of_isPrefix {key nibbles : Nibbles} (h : key <+: nibbles) :
    commonPrefixLength nibbles key = key.length := by
  induction key generalizing nibbles with
  | nil => cases nibbles <;> rfl
  | cons i key ih =>
      obtain ⟨rest, rfl⟩ := h
      simp [commonPrefixLength, ih (List.prefix_append key rest)]

theorem commonPrefixLength_eq_length {key nibbles : Nibbles}
    (h : commonPrefixLength nibbles key = key.length) : key <+: nibbles := by
  induction key generalizing nibbles with
  | nil => exact List.nil_prefix
  | cons i key ih =>
      cases nibbles with
      | nil => simp [commonPrefixLength] at h
      | cons j nibbles =>
          simp only [commonPrefixLength, List.length_cons] at h
          split at h
          next heq =>
            subst heq
            rw [List.prefix_cons_inj]
            exact ih (by omega)
          next => omega

theorem not_prefix_of_length_le {key nibbles : Nibbles} (hle : key.length ≤ nibbles.length)
    (h : ¬ key <+: nibbles) : ¬ nibbles <+: key := by
  intro hpre
  exact h (hpre.eq_of_length (le_antisymm hpre.length_le hle) ▸ List.prefix_rfl)

namespace Tree

theorem splitAt_parting (path : Nibbles) {i j : Nibble} (key nibbles : Nibbles)
    (rest : Nibbles → Bool × Tree) (value : Bytes) (hne : i ≠ j) :
    splitAt (path ++ i :: key) (path ++ j :: nibbles) rest value =
      wrap path (fork i (rest key) j (linked (leaf nibbles value))) := by
  simp [splitAt, commonPrefixLength_parting path key nibbles hne]

/-! ## Shape -/

/-- A reference that its child allows: nothing is held by hash in place of an
absent child, and only a short child is inlined. -/
def FlagOk (hashed : Bool) (child : Tree) : Prop :=
  (hashed = false → child.size < 32) ∧ (child = empty → hashed = false)

/-- A tree whose paths all have length `depth`. -/
inductive Regular : Nat → Tree → Prop
  | empty (depth : Nat) : Regular depth empty
  | leaf {depth : Nat} {key : Nibbles} {value : Bytes} (hkey : key.length = depth)
      (hvalue : value.length < 2 ^ 63) : Regular depth (leaf key value)
  | extension {depth : Nat} {key : Nibbles} {hashed : Bool} {child : Tree} (hkey : key ≠ [])
      (hflag : FlagOk hashed child) (hchild : Regular depth child) :
      Regular (key.length + depth) (extension key hashed child)
  | branch {depth : Nat} {hashed : Nibble → Bool} {child : Nibble → Tree}
      (hflag : ∀ i, FlagOk (hashed i) (child i)) (hchild : ∀ i, Regular depth (child i)) :
      Regular (depth + 1) (branch hashed child)

theorem Regular.of_extension {depth : Nat} {key : Nibbles} {hashed : Bool} {child : Tree}
    (h : Regular (key.length + depth) (Tree.extension key hashed child)) :
    FlagOk hashed child ∧ Regular depth child := by
  generalize htotal : key.length + depth = total at h
  cases h with
  | @extension depth' _ _ _ _ hflag hchild =>
      obtain rfl : depth' = depth := by omega
      exact ⟨hflag, hchild⟩

theorem Regular.of_branch {depth : Nat} {hashed : Nibble → Bool} {child : Nibble → Tree}
    (h : Regular (depth + 1) (Tree.branch hashed child)) (i : Nibble) :
    FlagOk (hashed i) (child i) ∧ Regular depth (child i) := by
  generalize htotal : depth + 1 = total at h
  cases h with
  | @branch depth' _ _ hflag hchild =>
      obtain rfl : depth' = depth := by omega
      exact ⟨hflag i, hchild i⟩

/-- No extension ends in nothing. -/
def Solid : Tree → Prop
  | empty => True
  | leaf _ _ => True
  | extension _ _ child => child ≠ empty ∧ child.Solid
  | branch _ child => ∀ i, (child i).Solid

theorem flagOk_link (tree : Tree) : FlagOk tree.link tree := by
  refine ⟨fun h => by simpa [link] using h, ?_⟩
  rintro rfl
  simp [link, size]

theorem flagOk_empty : FlagOk false empty := ⟨fun _ => by simp [size], fun _ => rfl⟩

theorem flagOk_or_link {tree : Tree} (hashed : Bool) (hne : tree ≠ empty) :
    FlagOk (hashed || tree.link) tree := by
  refine ⟨fun h => ?_, fun h => absurd h hne⟩
  simp only [Bool.or_eq_false_iff, link, decide_eq_false_iff_not, not_le] at h
  exact h.2

theorem flagOk_relink (hashed : Bool) (tree : Tree) : FlagOk (relink hashed tree) tree := by
  by_cases hempty : tree = empty
  · subst hempty
    exact flagOk_empty
  · have hisEmpty : tree.isEmpty = false := by simpa using hempty
    simpa [relink, hisEmpty] using flagOk_or_link hashed hempty

theorem regular_wrap {depth : Nat} {tree : Tree} (key : Nibbles) (h : Regular depth tree) :
    Regular (key.length + depth) (wrap key tree) := by
  unfold wrap
  split
  next hkey =>
    subst hkey
    simpa using h
  next hkey => exact .extension hkey (flagOk_link tree) h

theorem regular_update {depth : Nat} {hashed : Nibble → Bool} {child : Nibble → Tree}
    (hflag : ∀ i, FlagOk (hashed i) (child i)) (hchild : ∀ i, Regular depth (child i))
    (index : Nibble) {hashed' : Bool} {child' : Tree} (hflag' : FlagOk hashed' child')
    (hchild' : Regular depth child') :
    (∀ i, FlagOk (Function.update hashed index hashed' i) (Function.update child index child' i)) ∧
      ∀ i, Regular depth (Function.update child index child' i) := by
  constructor
  · intro i
    by_cases hi : i = index
    · subst hi
      simpa using hflag'
    · simpa [hi] using hflag i
  · intro i
    by_cases hi : i = index
    · subst hi
      simpa using hchild'
    · simpa [hi] using hchild i

theorem regular_fork {depth : Nat} {i j : Nibble} {first second : Bool × Tree}
    (hfirst : FlagOk first.1 first.2 ∧ Regular depth first.2)
    (hsecond : FlagOk second.1 second.2 ∧ Regular depth second.2) :
    Regular (depth + 1) (fork i first j second) := by
  have hflag : ∀ a : Nibble, FlagOk ((fun _ => false) a) ((fun _ => empty) a) :=
    fun _ => flagOk_empty
  have hone := regular_update hflag (fun _ => Regular.empty depth) i hfirst.1 hfirst.2
  have hboth := regular_update hone.1 hone.2 j hsecond.1 hsecond.2
  exact .branch hboth.1 hboth.2

theorem regular_linked {depth : Nat} {tree : Tree} (h : Regular depth tree) :
    FlagOk (linked tree).1 (linked tree).2 ∧ Regular depth (linked tree).2 :=
  ⟨flagOk_link tree, h⟩

theorem regular_hang {depth : Nat} {hashed : Bool} {child : Tree} (key : Nibbles)
    (hflag : FlagOk hashed child) (hchild : Regular depth child) :
    FlagOk (hang key hashed child).1 (hang key hashed child).2 ∧
      Regular (key.length + depth) (hang key hashed child).2 := by
  unfold hang
  split
  next hkey =>
    subst hkey
    exact ⟨hflag, by simpa using hchild⟩
  next hkey => exact regular_linked (.extension hkey hflag hchild)

/-! ## Lookups of composed trees -/

theorem lookup_wrap (key : Nibbles) (tree : Tree) (nibbles : Nibbles) :
    (wrap key tree).lookup nibbles =
      if key <+: nibbles then tree.lookup (nibbles.drop key.length) else none := by
  unfold wrap
  split
  next hkey =>
    subst hkey
    simp
  next => rfl

theorem lookup_fork (i j : Nibble) (first second : Bool × Tree) (a : Nibble) (rest : Nibbles) :
    (fork i first j second).lookup (a :: rest) =
      if a = j then second.2.lookup rest else if a = i then first.2.lookup rest else none := by
  by_cases hj : a = j
  · subst hj
    simp [fork, lookup]
  · by_cases hi : a = i
    · subst hi
      simp [fork, lookup, hj]
    · simp [fork, lookup, hi, hj]

theorem lookup_hang (key : Nibbles) (hashed : Bool) (child : Tree) (nibbles : Nibbles) :
    (hang key hashed child).2.lookup nibbles =
      if key <+: nibbles then child.lookup (nibbles.drop key.length) else none := by
  unfold hang
  split
  next hkey =>
    subst hkey
    simp
  next => rfl

theorem lookup_joinExtension (key : Nibbles) (hashed : Bool) (child : Tree) (nibbles : Nibbles) :
    (joinExtension key hashed child).lookup nibbles =
      if key <+: nibbles then child.lookup (nibbles.drop key.length) else none := by
  cases child with
  | extension key' hashed' child =>
      simp only [joinExtension, lookup]
      by_cases hkey : key <+: nibbles
      · obtain ⟨rest, rfl⟩ := hkey
        simp
      · have hboth : ¬ key ++ key' <+: nibbles := fun h =>
          hkey ((List.prefix_append key key').trans h)
        simp [hkey, hboth]
  | empty => rfl
  | leaf key' value => rfl
  | branch hashed' child => rfl

theorem lookup_joinBranch {index : Nibble} {hashed : Bool} {child : Tree} (a : Nibble)
    (rest : Nibbles) :
    (joinBranch index hashed child).lookup (a :: rest) =
      if a = index then child.lookup rest else none := by
  by_cases ha : a = index
  · subst ha
    cases child <;> simp [joinBranch, lookup]
  · have ha' : ¬ index = a := fun h => ha h.symm
    cases child <;> simp [joinBranch, lookup, ha, ha']

theorem mem_children {child : Nibble → Tree}
    {i : Nibble} : i ∈ children child ↔ child i ≠ empty := by
  simp [children]

theorem lookup_collapse (hashed : Nibble → Bool) (child : Nibble → Tree) (a : Nibble)
    (rest : Nibbles) : (collapse hashed child).lookup (a :: rest) = (child a).lookup rest := by
  have habsent : a ∉ children child → (child a).lookup rest = none := by
    intro ha
    rw [mem_children, not_not] at ha
    rw [ha]
    rfl
  unfold collapse
  split
  next hnone => rw [habsent (by simp [hnone]), lookup]
  next index hone =>
    rw [lookup_joinBranch]
    split
    next ha => rw [ha]
    next ha => rw [habsent (by simp [hone, ha])]
  next => rfl

/-! ## Insertion -/

theorem regular_insert {depth : Nat} {tree : Tree} (h : Regular depth tree) {nibbles : Nibbles}
    {value : Bytes} (hlength : nibbles.length = depth) (hvalue : value.length < 2 ^ 63) :
    Regular depth (tree.insert nibbles value) ∧ tree.insert nibbles value ≠ empty := by
  induction h generalizing nibbles with
  | empty depth => exact ⟨.leaf hlength hvalue, by simp [insert]⟩
  | @leaf depth key old hkey hold =>
      simp only [insert]
      split
      next heq => exact ⟨.leaf hkey hvalue, by simp⟩
      next hne =>
        have hnot : ¬ key <+: nibbles := fun hp => hne (hp.eq_of_length (by omega))
        obtain ⟨path, i, key', j, nibbles', rfl, rfl, hij⟩ :=
          exists_parting hnot (not_prefix_of_length_le (by omega) hnot)
        rw [splitAt_parting _ _ _ _ _ hij]
        simp only [List.length_append, List.length_cons] at hkey hlength
        obtain rfl : depth = path.length + (key'.length + 1) := by omega
        refine ⟨regular_wrap path (regular_fork (regular_linked (.leaf rfl hold))
          (regular_linked (.leaf (by omega) hvalue))), ?_⟩
        unfold wrap fork
        split <;> simp
  | @extension depth key hashed child hkey hflag hchild ih =>
      simp only [insert]
      split
      next hpre =>
        obtain ⟨rest, rfl⟩ := hpre
        rw [List.drop_left]
        have hrest := @ih rest (by simpa using hlength)
        exact ⟨.extension hkey (flagOk_or_link _ hrest.2) hrest.1, by simp⟩
      next hnot =>
        obtain ⟨path, i, key', j, nibbles', rfl, rfl, hij⟩ :=
          exists_parting hnot (not_prefix_of_length_le (by omega) hnot)
        rw [splitAt_parting _ _ _ _ _ hij]
        simp only [List.length_append, List.length_cons] at hlength ⊢
        have hdepth : path.length + (key'.length + 1) + depth =
            path.length + (key'.length + depth + 1) := by omega
        rw [hdepth]
        refine ⟨regular_wrap path (regular_fork (regular_hang key' hflag hchild)
          (regular_linked (.leaf (by omega) hvalue))), ?_⟩
        unfold wrap fork
        split <;> simp
  | @branch depth hashed child hflag hchild ih =>
      cases nibbles with
      | nil => simp at hlength
      | cons index remaining =>
          have hrest := @ih index remaining (by simpa using hlength)
          obtain ⟨hflag', hchild'⟩ := regular_update hflag hchild index
            (flagOk_or_link (hashed index) hrest.2) hrest.1
          exact ⟨.branch hflag' hchild', by simp [insert]⟩

/-- Putting a new leaf beside a subtree adds one entry to what the subtree
held, provided the subtree holds nothing outside its own slot. -/
theorem lookup_parting {path nibbles other : Nibbles} {i j : Nibble} {first : Bool × Tree}
    {value : Bytes} {old : Tree} (hlong : path.length < other.length)
    (hfirst : ∀ rest, first.2.lookup rest = old.lookup (path ++ i :: rest))
    (hslot : ∀ a rest, a ≠ i → old.lookup (path ++ a :: rest) = none)
    (hpath : ¬ path <+: other → old.lookup other = none) (hij : i ≠ j) :
    (wrap path (fork i first j (linked (leaf nibbles value)))).lookup other =
      if path ++ j :: nibbles = other then some value else old.lookup other := by
  rw [lookup_wrap]
  by_cases hpre : path <+: other
  · obtain ⟨rest, rfl⟩ := hpre
    cases rest with
    | nil => simp at hlong
    | cons a rest =>
        rw [if_pos (List.prefix_append path _), List.drop_left, lookup_fork]
        by_cases haj : a = j
        · subst haj
          simp [linked, lookup, hslot a rest (Ne.symm hij)]
        · have hja : ¬ j = a := fun h => haj h.symm
          by_cases hai : a = i
          · subst hai
            simp [haj, hja, hfirst]
          · simp [haj, hja, hai, hslot a rest hai]
  · have hne : path ++ j :: nibbles ≠ other := fun h => hpre (h ▸ List.prefix_append path _)
    rw [if_neg hpre, if_neg hne, hpath hpre]

theorem lookup_insert {depth : Nat} {tree : Tree} (h : Regular depth tree) {nibbles other : Nibbles}
    (value : Bytes) (hlength : nibbles.length = depth) (hother : other.length = depth) :
    (tree.insert nibbles value).lookup other =
      if nibbles = other then some value else tree.lookup other := by
  induction h generalizing nibbles other with
  | empty depth => simp [insert, lookup]
  | @leaf depth key old hkey hold =>
      simp only [insert]
      split
      next heq =>
        subst heq
        simp only [lookup]
        split <;> rfl
      next hne =>
        have hnot : ¬ key <+: nibbles := fun hp => hne (hp.eq_of_length (by omega))
        obtain ⟨path, i, key', j, nibbles', rfl, rfl, hij⟩ :=
          exists_parting hnot (not_prefix_of_length_le (by omega) hnot)
        rw [splitAt_parting _ _ _ _ _ hij]
        simp only [List.length_append, List.length_cons] at hkey hlength
        refine lookup_parting (by omega) ?_ ?_ ?_ hij
        · intro rest
          simp [linked, lookup]
        · intro a rest ha
          simp [lookup, Ne.symm ha]
        · intro hpre
          have : path ++ i :: key' ≠ other := fun h => hpre (h ▸ List.prefix_append path _)
          simp [lookup, this]
  | @extension depth key hashed child hkey hflag hchild ih =>
      simp only [insert]
      split
      next hpre =>
        obtain ⟨rest, rfl⟩ := hpre
        simp only [lookup]
        by_cases hother' : key <+: other
        · obtain ⟨rest', rfl⟩ := hother'
          have hrest := @ih rest rest' (by simpa using hlength) (by simpa using hother)
          simpa using hrest
        · have hne : key ++ rest ≠ other := fun h => hother' (h ▸ List.prefix_append key rest)
          simp [hother', hne]
      next hnot =>
        obtain ⟨path, i, key', j, nibbles', rfl, rfl, hij⟩ :=
          exists_parting hnot (not_prefix_of_length_le (by omega) hnot)
        rw [splitAt_parting _ _ _ _ _ hij]
        simp only [List.length_append, List.length_cons] at hlength hother
        refine lookup_parting (by omega) ?_ ?_ ?_ hij
        · intro rest
          have hdrop : (path ++ i :: rest).drop (path ++ i :: key').length =
              rest.drop key'.length := by
            simp [List.drop_append]
          simp only [lookup_hang, lookup, hdrop, List.prefix_append_right_inj,
            List.prefix_cons_inj]
        · intro a rest ha
          simp [lookup, List.prefix_append_right_inj, List.cons_prefix_cons, Ne.symm ha]
        · intro hpre
          have hnot' : ¬ path ++ i :: key' <+: other := fun h =>
            hpre ((List.prefix_append path _).trans h)
          simp [lookup, hnot']
  | @branch depth hashed child hflag hchild ih =>
      cases nibbles with
      | nil => simp at hlength
      | cons index remaining =>
          cases other with
          | nil => simp at hother
          | cons a rest =>
              have hrest := @ih index remaining rest (by simpa using hlength)
                (by simpa using hother)
              by_cases ha : a = index
              · subst ha
                simpa [insert, lookup] using hrest
              · simp [insert, lookup, ha, Ne.symm ha]

/-! ## Deletion -/

theorem regular_joinExtension {depth : Nat} {key : Nibbles} {hashed : Bool} {child : Tree}
    (hkey : key ≠ []) (hflag : FlagOk hashed child) (h : Regular depth child) :
    Regular (key.length + depth) (joinExtension key hashed child) := by
  cases h with
  | @extension depth key' hashed' child hkey' hflag' hchild =>
      rw [joinExtension, ← Nat.add_assoc, ← List.length_append]
      exact .extension (by simp [hkey]) hflag' hchild
  | empty => exact .extension hkey hflag (.empty _)
  | leaf hlength hvalue => exact .extension hkey hflag (.leaf hlength hvalue)
  | branch hflag' hchild => exact .extension hkey hflag (.branch hflag' hchild)

theorem regular_joinBranch {depth : Nat} (index : Nibble) {hashed : Bool} {child : Tree}
    (hflag : FlagOk hashed child) (h : Regular depth child) :
    Regular (depth + 1) (joinBranch index hashed child) := by
  cases h with
  | @extension depth key' hashed' child hkey' hflag' hchild =>
      have hdepth : key'.length + depth + 1 = (index :: key').length + depth := by
        simp only [List.length_cons]
        omega
      rw [joinBranch, hdepth]
      exact .extension (by simp) hflag' hchild
  | empty =>
      rw [Nat.add_comm]
      exact Regular.extension (List.cons_ne_nil index []) hflag (.empty _)
  | leaf hlength hvalue => exact .leaf (by simp [hlength]) hvalue
  | @branch depth hashed' child' hflag' hchild =>
      rw [joinBranch, Nat.add_comm]
      · exact Regular.extension (List.cons_ne_nil index []) hflag (.branch hflag' hchild)
      · simp
      · simp

theorem regular_collapse {depth : Nat} {hashed : Nibble → Bool} {child : Nibble → Tree}
    (hflag : ∀ i, FlagOk (hashed i) (child i)) (hchild : ∀ i, Regular depth (child i)) :
    Regular (depth + 1) (collapse hashed child) := by
  unfold collapse
  split
  · exact .empty _
  next index _ => exact regular_joinBranch index (hflag index) (hchild index)
  · exact .branch hflag hchild

theorem regular_delete {depth : Nat} {tree : Tree} (h : Regular depth tree) (counted : Nat → Bool)
    {nibbles : Nibbles} (hlength : nibbles.length = depth) :
    Regular depth (tree.delete counted nibbles) := by
  induction h generalizing nibbles counted with
  | empty depth => exact .empty _
  | @leaf depth key old hkey hold =>
      simp only [delete]
      split
      · exact .empty _
      · exact .leaf hkey hold
  | @extension depth key hashed child hkey hflag hchild ih =>
      simp only [delete]
      split
      next hpre =>
        obtain ⟨rest, rfl⟩ := hpre
        have hrest := @ih (fun d => counted (d + 1)) rest (by simpa using hlength)
        rw [List.drop_left]
        split
        · exact .empty _
        · exact regular_joinExtension hkey (flagOk_relink _ _) hrest
      next => exact .extension hkey hflag hchild
  | @branch depth hashed child hflag hchild ih =>
      cases nibbles with
      | nil => simp at hlength
      | cons index remaining =>
          have hrest := @ih index (fun d => counted (d + 1)) remaining (by simpa using hlength)
          obtain ⟨hflag', hchild'⟩ := regular_update hflag hchild index
            (flagOk_relink (hashed index) _) hrest
          simp only [delete]
          split
          · exact .branch hflag' hchild'
          · exact regular_collapse hflag' hchild'

/-- Deletion removes one entry, whichever emptied slots are counted. -/
theorem lookup_delete {depth : Nat} {tree : Tree} (h : Regular depth tree) (counted : Nat → Bool)
    {nibbles other : Nibbles} (hlength : nibbles.length = depth) (hother : other.length = depth) :
    (tree.delete counted nibbles).lookup other =
      if nibbles = other then none else tree.lookup other := by
  induction h generalizing nibbles other counted with
  | empty depth => simp [delete, lookup]
  | @leaf depth key old hkey hold =>
      simp only [delete]
      split
      next heq =>
        subst heq
        simp [lookup]
      next hne =>
        simp only [lookup]
        by_cases heq : key = other
        · subst heq
          simp [Ne.symm hne]
        · simp [heq]
  | @extension depth key hashed child hkey hflag hchild ih =>
      simp only [delete]
      by_cases hpre : key <+: nibbles
      · obtain ⟨rest, rfl⟩ := hpre
        rw [if_pos (List.prefix_append key rest), List.drop_left]
        by_cases hother' : key <+: other
        · obtain ⟨rest', rfl⟩ := hother'
          have hrest := @ih (fun d => counted (d + 1)) rest rest' (by simpa using hlength)
            (by simpa using hother)
          split
          next hvanished =>
            simp only [Bool.and_eq_true, isEmpty_iff] at hvanished
            rw [hvanished.1] at hrest
            simpa [lookup] using hrest
          next =>
            rw [lookup_joinExtension]
            simpa [lookup] using hrest
        · have hne : key ++ rest ≠ other := fun h => hother' (h ▸ List.prefix_append key rest)
          split
          · simp [lookup, hother']
          · rw [lookup_joinExtension]
            simp [lookup, hother']
      · rw [if_neg hpre]
        by_cases heq : nibbles = other
        · subst heq
          simp [lookup, hpre]
        · simp [heq]
  | @branch depth hashed child hflag hchild ih =>
      cases nibbles with
      | nil => simp at hlength
      | cons index remaining =>
          cases other with
          | nil => simp at hother
          | cons a rest =>
              have hrest := @ih index (fun d => counted (d + 1)) remaining rest
                (by simpa using hlength) (by simpa using hother)
              have hkept : ∀ hashed', (branch hashed' (Function.update child index
                  ((child index).delete (fun d => counted (d + 1)) remaining))).lookup (a :: rest) =
                  if index :: remaining = a :: rest then none
                  else (branch hashed child).lookup (a :: rest) := by
                intro hashed'
                by_cases ha : a = index
                · subst ha
                  simpa [lookup] using hrest
                · simp [lookup, ha, Ne.symm ha]
              simp only [delete]
              split
              · exact hkept _
              · rw [lookup_collapse]
                exact hkept hashed

end Tree

end WasixEth.Storage
