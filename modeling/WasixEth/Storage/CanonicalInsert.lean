import WasixEth.Storage.Canonical

/-! # Insertion into canonical trees

Insertion meets the canonical tree of the changed map exactly when no child
on the path that was held by hash ought to be inlined afterwards: a child held
by hash is never inlined again. Adding a key never makes a child that short.
-/

namespace WasixEth.Storage

namespace Tree

def isBranch : Tree → Bool
  | branch _ _ => true
  | _ => false

theorem isBranch_insert {tree : Tree} (h : tree.isBranch = true) (nibbles : Nibbles)
    (value : Bytes) : (tree.insert nibbles value).isBranch = true := by
  cases tree with
  | branch hashed child => cases nibbles <;> rfl
  | empty => cases h
  | leaf key old => cases h
  | extension key hashed child => cases h

/-! ## One nibble in front of a tree -/

theorem link_empty : (empty : Tree).link = false := rfl

theorem joinBranch_wrap (i : Nibble) (path : Nibbles) {tree : Tree} (h : tree.isBranch = true) :
    joinBranch i (wrap path tree).link (wrap path tree) = wrap (i :: path) tree := by
  cases tree with
  | branch hashed child =>
      unfold wrap
      split
      next hpath =>
        subst hpath
        rfl
      next => rfl
  | empty => cases h
  | leaf key value => cases h
  | extension key hashed child => cases h

/-- Inserting below the first nibble of a tree. Only a branch, which needs an
extension to carry the nibble, remembers how it was held before. -/
theorem insert_joinBranch_same {depth : Nat} {tree : Tree} (i : Nibble) {nibbles : Nibbles}
    (value : Bytes) (hregular : Regular depth tree) (hne : tree ≠ empty)
    (hlength : nibbles.length = depth) :
    (joinBranch i tree.link tree).insert (i :: nibbles) value =
      joinBranch i ((tree.isBranch && tree.link) || (tree.insert nibbles value).link)
        (tree.insert nibbles value) := by
  cases hregular with
  | empty => exact absurd rfl hne
  | @leaf _ key old hkey hold =>
      simp only [joinBranch, insert, isBranch, Bool.false_and, Bool.false_or, List.cons.injEq,
        true_and]
      by_cases heq : key = nibbles
      · subst heq
        simp
      · rw [if_neg heq, if_neg heq]
        have hnot : ¬ key <+: nibbles := fun hp => heq (hp.eq_of_length (by omega))
        obtain ⟨path, a, key', b, nibbles', rfl, rfl, hab⟩ :=
          exists_parting hnot (not_prefix_of_length_le (by omega) hnot)
        rw [← List.cons_append, ← List.cons_append, splitAt_parting _ _ _ _ _ hab,
          splitAt_parting _ _ _ _ _ hab]
        exact (joinBranch_wrap i path rfl).symm
  | @extension depth key hashed child hkey hflag hchild =>
      simp only [joinBranch, insert, isBranch, Bool.false_and, Bool.false_or,
        List.cons_prefix_cons, true_and, List.length_cons, List.drop_succ_cons]
      by_cases hpre : key <+: nibbles
      · rw [if_pos hpre, if_pos hpre]
      · rw [if_neg hpre, if_neg hpre]
        obtain ⟨path, a, key', b, nibbles', rfl, rfl, hab⟩ :=
          exists_parting hpre (not_prefix_of_length_le (by omega) hpre)
        rw [← List.cons_append, ← List.cons_append, splitAt_parting _ _ _ _ _ hab,
          splitAt_parting _ _ _ _ _ hab]
        exact (joinBranch_wrap i path rfl).symm
  | @branch depth hashed child hflag hchild =>
      cases nibbles with
      | nil => simp at hlength
      | cons index remaining =>
          simp [joinBranch, insert, isBranch]

/-- Inserting beside the first nibble of a tree. -/
theorem insert_joinBranch_other {depth : Nat} {tree : Tree} {i j : Nibble} (nibbles : Nibbles)
    (value : Bytes) (hregular : Regular depth tree) (hne : tree ≠ empty) (hij : j ≠ i) :
    (joinBranch j tree.link tree).insert (i :: nibbles) value =
      fork j (linked tree) i (linked (leaf nibbles value)) := by
  have hsplit : ∀ (key : Nibbles) rest, splitAt (j :: key) (i :: nibbles) rest value =
      fork j (rest key) i (linked (leaf nibbles value)) := fun key rest => by
    simpa [wrap] using splitAt_parting [] key nibbles rest value hij
  cases hregular with
  | empty => exact absurd rfl hne
  | @leaf _ key old hkey hold =>
      simp only [joinBranch, insert, hsplit]
      rw [if_neg (by simp [hij])]
  | @extension depth key hashed child hkey hflag hchild =>
      simp only [joinBranch, insert, hsplit]
      rw [if_neg (by simp [List.cons_prefix_cons, hij]), hang, if_neg hkey]
  | @branch depth hashed child hflag hchild =>
      simp only [joinBranch, insert, hsplit]
      rw [if_neg (by simp [List.cons_prefix_cons, hij])]
      rfl

theorem joinBranch_inj {depth : Nat} {i : Nibble} {hashed hashed' : Bool} {tree tree' : Tree}
    (htree : Regular depth tree) (htree' : Regular depth tree') (hne : tree ≠ empty)
    (hne' : tree' ≠ empty) :
    joinBranch i hashed tree = joinBranch i hashed' tree' ↔
      tree = tree' ∧ (tree.isBranch = true → hashed = hashed') := by
  cases tree with
  | empty => exact absurd rfl hne
  | leaf key value =>
      cases tree' with
      | empty => exact absurd rfl hne'
      | leaf key' value' => simp [joinBranch, isBranch]
      | extension key' hashed' child' => simp [joinBranch]
      | branch hashed' child' => simp [joinBranch]
  | extension key hashed child =>
      have hkey : key ≠ [] := by
        cases htree
        assumption
      cases tree' with
      | empty => exact absurd rfl hne'
      | leaf key' value' => simp [joinBranch]
      | extension key' hashed' child' => simp [joinBranch, isBranch]
      | branch hashed' child' => simp [joinBranch, hkey]
  | branch hashed child =>
      cases tree' with
      | empty => exact absurd rfl hne'
      | leaf key' value' => simp [joinBranch]
      | extension key' hashed' child' =>
          have hkey' : key' ≠ [] := by
            cases htree'
            assumption
          simp [joinBranch, Ne.symm hkey']
      | branch hashed' child' =>
          simp only [joinBranch, extension.injEq, true_and, isBranch, forall_const]
          exact and_comm

/-! ## One level of a canonical tree -/

/-- Other children than the one at `i`. -/
def HasSibling (child : Nibble → Tree) (i : Nibble) : Prop := ∃ j, j ≠ i ∧ child j ≠ empty

/-- The child at `i` is a node of its own: it hangs below a branch, or below an
extension because it is a branch itself. -/
def IsNode (child : Nibble → Tree) (i : Nibble) : Prop :=
  HasSibling child i ∨ (child i).isBranch = true

theorem gather_update_of_sibling {child : Nibble → Tree} {i : Nibble} {tree : Tree}
    (hne : tree ≠ empty) (h : HasSibling child i) :
    gather (Function.update child i tree) =
      branch (fun a => (Function.update child i tree a).link) (Function.update child i tree) := by
  obtain ⟨j, hji, hj⟩ := h
  refine collapse_of_two hji ?_ ?_
  · simpa [hji] using hj
  · simpa using hne

theorem gather_update_of_alone {child : Nibble → Tree} {i : Nibble} {tree : Tree}
    (hne : tree ≠ empty) (h : ¬ HasSibling child i) :
    gather (Function.update child i tree) = joinBranch i tree.link tree := by
  have hother : ∀ j, j ≠ i → Function.update child i tree j = empty := by
    intro j hj
    rw [Function.update_of_ne hj]
    by_contra hne'
    exact h ⟨j, hj, hne'⟩
  have hself : Function.update child i tree i ≠ empty := by simpa using hne
  rw [gather, collapse_of_one hself hother, Function.update_self]

theorem gather_of_sibling {child : Nibble → Tree} {i : Nibble} (hne : child i ≠ empty)
    (h : HasSibling child i) : gather child = branch (fun a => (child a).link) child := by
  simpa using gather_update_of_sibling hne h

theorem gather_of_alone {child : Nibble → Tree} {i : Nibble} (hne : child i ≠ empty)
    (h : ¬ HasSibling child i) : gather child = joinBranch i (child i).link (child i) := by
  simpa using gather_update_of_alone hne h

/-- Inserting below an existing child of a canonical level gives the canonical
level with that child replaced, exactly when the child's own insertion gives
the replacement and a child held by hash remains long enough for it. -/
theorem insert_gather_iff {depth : Nat} {child : Nibble → Tree} {i : Nibble} {nibbles : Nibbles}
    {value : Bytes} {tree : Tree} (hchild : ∀ a, Regular depth (child a))
    (htree : Regular depth tree) (hne : child i ≠ empty) (hne' : tree ≠ empty)
    (hlength : nibbles.length = depth) (hvalue : value.length < 2 ^ 63) :
    (gather child).insert (i :: nibbles) value = gather (Function.update child i tree) ↔
      (child i).insert nibbles value = tree ∧
        (IsNode child i → (child i).link = true → tree.link = true) := by
  obtain ⟨hregular, hnonempty⟩ := regular_insert (hchild i) hlength hvalue
  by_cases hsibling : HasSibling child i
  · -- a branch before and after: compare the changed slot
    rw [gather_of_sibling hne hsibling, gather_update_of_sibling hne' hsibling]
    simp only [insert, branch.injEq]
    constructor
    · rintro ⟨hflags, hchildren⟩
      have hsame := congrFun hchildren i
      have hflag := congrFun hflags i
      simp only [Function.update_self] at hsame hflag
      refine ⟨hsame, fun _ hlink => ?_⟩
      rw [← hflag, hlink, Bool.true_or]
    · rintro ⟨rfl, hlink⟩
      refine ⟨?_, rfl⟩
      funext a
      by_cases ha : a = i
      · subst ha
        simp only [Function.update_self]
        cases hbefore : (child a).link with
        | false => rfl
        | true => simp [hlink (.inl hsibling) hbefore]
      · simp [ha]
  · -- the child alone carries the path: compare what its nibble is joined to
    rw [gather_of_alone hne hsibling, gather_update_of_alone hne' hsibling,
      insert_joinBranch_same i value (hchild i) hne hlength,
      joinBranch_inj hregular htree hnonempty hne']
    constructor
    · rintro ⟨rfl, hflag⟩
      refine ⟨rfl, ?_⟩
      rintro (h | hbranch) hlink
      · exact absurd h hsibling
      · rw [← hflag (isBranch_insert hbranch nibbles value), hbranch, hlink]
        rfl
    · rintro ⟨rfl, hlink⟩
      refine ⟨rfl, fun _ => ?_⟩
      cases hbranch : (child i).isBranch with
      | false => simp
      | true =>
          cases hbefore : (child i).link with
          | false => simp
          | true => simp [hlink (.inr hbranch) hbefore]

/-- Inserting beside the children of a canonical level. -/
theorem insert_gather_new {depth : Nat} {child : Nibble → Tree} {i : Nibble} {nibbles : Nibbles}
    {value : Bytes} (hchild : ∀ a, Regular depth (child a)) (hempty : child i = empty) :
    (gather child).insert (i :: nibbles) value =
      gather (Function.update child i (leaf nibbles value)) := by
  obtain hnone | ⟨j, hj, hother⟩ | ⟨j, k, hjk, hj, hk⟩ := children_cases child
  · have halone : ¬ HasSibling child i := fun ⟨a, _, ha⟩ => ha (hnone a)
    rw [gather_update_of_alone (by simp) halone, gather, collapse_of_none hnone]
    rfl
  · have hji : j ≠ i := by
      rintro rfl
      exact hj hempty
    rw [gather_update_of_sibling (by simp) ⟨j, hji, hj⟩, gather, collapse_of_one hj hother,
      insert_joinBranch_other nibbles value (hchild j) hj hji]
    unfold fork linked
    congr 1
    · funext a
      by_cases hai : a = i
      · subst hai
        simp
      · by_cases haj : a = j
        · subst haj
          simp [hai]
        · simp [hai, haj, hother a haj, link_empty]
    · congr 1
      funext a
      by_cases haj : a = j
      · subst haj
        simp
      · simp [haj, hother a haj]
  · have hsibling : HasSibling child i := by
      by_cases hji : j = i
      · exact ⟨k, fun hki => hjk (hji.trans hki.symm), hk⟩
      · exact ⟨j, hji, hj⟩
    rw [gather_update_of_sibling (by simp) hsibling, gather, collapse_of_two hjk hj hk]
    simp only [insert, hempty, branch.injEq, and_true]
    funext a
    by_cases hai : a = i
    · subst hai
      simp [link_empty]
    · simp [hai]

/-! ## Where a map branches -/

/-- Two entries part right after `path`. -/
def Branching (f : Nibbles → Option Bytes) (path : Nibbles) : Prop :=
  ∃ i nibbles j nibbles', i ≠ j ∧ f (path ++ i :: nibbles) ≠ none ∧
    f (path ++ j :: nibbles') ≠ none

/-- A node of the canonical tree starts at `path`, below the root: its parent
is a branch, or it is a branch at the end of an extension. -/
def Referenced (f : Nibbles → Option Bytes) (path : Nibbles) : Prop :=
  Branching f path.dropLast ∨ Branching f path

/-- The canonical node below `path` is long enough to be held by hash. -/
def Long (depth : Nat) (f : Nibbles → Option Bytes) (path : Nibbles) : Prop :=
  32 ≤ (canon (depth - path.length) (restrict path f)).size

theorem canon_ne_empty {depth : Nat} {f : Nibbles → Option Bytes} (h : Supported depth f) :
    canon depth f ≠ empty ↔ ∃ nibbles, f nibbles ≠ none := by
  rw [Ne, canon_eq_empty h, not_forall]

theorem branching_iff {depth : Nat} {f : Nibbles → Option Bytes} (h : Supported (depth + 1) f) :
    Branching f [] ↔ ∃ i j, i ≠ j ∧ canon depth (restrict [i] f) ≠ empty ∧
      canon depth (restrict [j] f) ≠ empty := by
  simp only [canon_ne_empty (h.slot _)]
  constructor
  · rintro ⟨i, nibbles, j, nibbles', hij, hi, hj⟩
    exact ⟨i, j, hij, ⟨nibbles, hi⟩, ⟨nibbles', hj⟩⟩
  · rintro ⟨i, j, hij, ⟨nibbles, hi⟩, ⟨nibbles', hj⟩⟩
    exact ⟨i, nibbles, j, nibbles', hij, hi, hj⟩

theorem isBranch_joinBranch (i : Nibble) (hashed : Bool) (child : Tree) :
    (joinBranch i hashed child).isBranch = false := by
  cases child <;> rfl

theorem isBranch_canon {depth : Nat} {f : Nibbles → Option Bytes} (h : Supported depth f) :
    (canon depth f).isBranch = true ↔ Branching f [] := by
  cases depth with
  | zero =>
      constructor
      · intro hbranch
        cases hf : f [] <;> simp [canon, hf, isBranch] at hbranch
      · rintro ⟨i, nibbles, -, -, -, hi, -⟩
        obtain ⟨value, hvalue⟩ := Option.ne_none_iff_exists'.mp hi
        have hlength := h.length_eq _ _ hvalue
        simp at hlength
  | succ depth =>
      rw [branching_iff h, canon_succ]
      constructor
      · intro hbranch
        obtain hnone | ⟨i, hi, hother⟩ | ⟨i, j, hij, hi, hj⟩ :=
          children_cases fun i => canon depth (restrict [i] f)
        · rw [gather, collapse_of_none hnone] at hbranch
          cases hbranch
        · rw [gather, collapse_of_one hi hother, isBranch_joinBranch] at hbranch
          cases hbranch
        · exact ⟨i, j, hij, hi, hj⟩
      · rintro ⟨i, j, hij, hi, hj⟩
        rw [gather, collapse_of_two hij hi hj]
        rfl

theorem restrict_append (path rest : Nibbles) (f : Nibbles → Option Bytes) :
    restrict (path ++ rest) f = restrict rest (restrict path f) := by
  funext nibbles
  simp [restrict]

theorem branching_cons (i : Nibble) (path : Nibbles) (f : Nibbles → Option Bytes) :
    Branching f (i :: path) ↔ Branching (restrict [i] f) path := Iff.rfl

theorem restrict_update_same (i : Nibble) (nibbles : Nibbles) (f : Nibbles → Option Bytes)
    (value : Option Bytes) :
    restrict [i] (Function.update f (i :: nibbles) value) =
      Function.update (restrict [i] f) nibbles value := by
  funext other
  by_cases hother : other = nibbles
  · subst hother
    simp [restrict]
  · simp [restrict, hother]

theorem restrict_update_other {i j : Nibble} (hij : j ≠ i) (nibbles : Nibbles)
    (f : Nibbles → Option Bytes) (value : Option Bytes) :
    restrict [j] (Function.update f (i :: nibbles) value) = restrict [j] f := by
  funext other
  simp [restrict, hij]

/-- Changing one entry changes one child of the canonical tree. -/
theorem canon_update (depth : Nat) (f : Nibbles → Option Bytes) (i : Nibble) (nibbles : Nibbles)
    (value : Option Bytes) :
    canon (depth + 1) (Function.update f (i :: nibbles) value) =
      gather (Function.update (fun a => canon depth (restrict [a] f)) i
        (canon depth (Function.update (restrict [i] f) nibbles value))) := by
  rw [canon_succ]
  congr 1
  funext a
  by_cases ha : a = i
  · subst ha
    simp [restrict_update_same]
  · simp [ha, restrict_update_other ha]

theorem hasSibling_iff {depth : Nat} {f : Nibbles → Option Bytes} (h : Supported (depth + 1) f)
    {i : Nibble} (hi : canon depth (restrict [i] f) ≠ empty) :
    HasSibling (fun a => canon depth (restrict [a] f)) i ↔ Branching f [] := by
  rw [branching_iff h]
  constructor
  · rintro ⟨j, hji, hj⟩
    exact ⟨j, i, hji, hj, hi⟩
  · rintro ⟨j, k, hjk, hj, hk⟩
    by_cases hji : j = i
    · exact ⟨k, fun hki => hjk (hji.trans hki.symm), hk⟩
    · exact ⟨j, hji, hj⟩

theorem isNode_iff {depth : Nat} {f : Nibbles → Option Bytes} (h : Supported (depth + 1) f)
    {i : Nibble} (hi : canon depth (restrict [i] f) ≠ empty) :
    IsNode (fun a => canon depth (restrict [a] f)) i ↔ Referenced f [i] := by
  unfold IsNode Referenced
  rw [hasSibling_iff h hi, isBranch_canon (h.slot i)]
  rfl

/-- No node on the path that was long enough for a hash becomes too short. -/
def StaysLong (depth : Nat) (f : Nibbles → Option Bytes) (nibbles : Nibbles)
    (value : Option Bytes) : Prop :=
  ∀ path, path ≠ [] → path <+: nibbles → Referenced f path → Long depth f path →
    Long depth (Function.update f nibbles value) path

theorem staysLong_cons {depth : Nat} {f : Nibbles → Option Bytes} {i : Nibble} {nibbles : Nibbles}
    {value : Option Bytes} :
    StaysLong (depth + 1) f (i :: nibbles) value ↔
      (Referenced f [i] → (canon depth (restrict [i] f)).link = true →
        (canon depth (Function.update (restrict [i] f) nibbles value)).link = true) ∧
      StaysLong depth (restrict [i] f) nibbles value := by
  have hlong : ∀ (g : Nibbles → Option Bytes) (path : Nibbles),
      Long (depth + 1) g (i :: path) ↔ Long depth (restrict [i] g) path := by
    intro g path
    unfold Long
    rw [List.length_cons, Nat.add_sub_add_right, ← restrict_append]
    rfl
  have hlink : ∀ g : Nibbles → Option Bytes,
      Long (depth + 1) g [i] ↔ (canon depth (restrict [i] g)).link = true := by
    intro g
    simp [Long, link]
  constructor
  · intro h
    refine ⟨fun hreferenced hbefore => ?_, fun path hpath hpre hreferenced hbefore => ?_⟩
    · have hafter := h [i] (by simp) (by simp) hreferenced ((hlink f).mpr hbefore)
      rwa [hlink, restrict_update_same] at hafter
    · have hreferenced' : Referenced f (i :: path) := by
        unfold Referenced at hreferenced ⊢
        rwa [List.dropLast_cons_of_ne_nil hpath, branching_cons, branching_cons]
      have hafter := h (i :: path) (by simp) (by simpa using hpre) hreferenced'
        ((hlong f path).mpr hbefore)
      rwa [hlong, restrict_update_same] at hafter
  · rintro ⟨hhead, htail⟩ path hpath hpre hreferenced hbefore
    cases path with
    | nil => exact absurd rfl hpath
    | cons j path =>
        obtain ⟨rfl, hpre'⟩ := List.cons_prefix_cons.mp hpre
        by_cases hnil : path = []
        · subst hnil
          rw [hlink, restrict_update_same]
          exact hhead hreferenced ((hlink f).mp hbefore)
        · rw [hlong, restrict_update_same]
          refine htail path hnil hpre' ?_ ((hlong f path).mp hbefore)
          unfold Referenced at hreferenced ⊢
          rwa [List.dropLast_cons_of_ne_nil hnil, branching_cons, branching_cons] at hreferenced

theorem canon_update_ne_empty {depth : Nat} {f : Nibbles → Option Bytes} (h : Supported depth f)
    {nibbles : Nibbles} {value : Bytes} (hlength : nibbles.length = depth)
    (hvalue : value.length < 2 ^ 63) :
    canon depth (Function.update f nibbles (some value)) ≠ empty :=
  (canon_ne_empty (h.update hlength hvalue)).mpr ⟨nibbles, by simp⟩

/-- Overwriting an entry of a canonical tree is canonical exactly when no node
on the path falls below the length of a hash. -/
theorem insert_canon_iff {depth : Nat} {f : Nibbles → Option Bytes} (h : Supported depth f)
    {nibbles : Nibbles} {value : Bytes} (hlength : nibbles.length = depth)
    (hvalue : value.length < 2 ^ 63) (hpresent : f nibbles ≠ none) :
    (canon depth f).insert nibbles value =
        canon depth (Function.update f nibbles (some value)) ↔
      StaysLong depth f nibbles (some value) := by
  induction depth generalizing f nibbles with
  | zero =>
      obtain rfl := List.length_eq_zero_iff.mp hlength
      obtain ⟨old, hold⟩ := Option.ne_none_iff_exists'.mp hpresent
      refine iff_of_true (by simp [canon, hold, insert]) fun path hpath hpre => ?_
      exact absurd (List.prefix_nil.mp hpre) hpath
  | succ depth ih =>
      cases nibbles with
      | nil => simp at hlength
      | cons i nibbles =>
          have hlength' : nibbles.length = depth := by simpa using hlength
          have hne : canon depth (restrict [i] f) ≠ empty :=
            (canon_ne_empty (h.slot i)).mpr ⟨nibbles, hpresent⟩
          rw [staysLong_cons, ← ih (h.slot i) hlength' hpresent, ← isNode_iff h hne,
            canon_succ, canon_update]
          rw [insert_gather_iff (fun a => regular_canon (h.slot a))
            (regular_canon ((h.slot i).update hlength' hvalue)) hne
            (canon_update_ne_empty (h.slot i) hlength' hvalue) hlength' hvalue]
          exact and_comm

end Tree

end WasixEth.Storage
