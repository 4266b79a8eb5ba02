import WasixEth.Storage.CanonicalGrowth
import WasixEth.Storage.TreeNode
import WasixEth.YellowPaper

/-! # Canonical trees as nodes of the Yellow Paper

The canonical tree of a map encodes to the node the Yellow Paper assigns to
the entries of the map. The two recursions differ in shape: the canonical tree
is built nibble by nibble, the node jumps over the path its entries share.
-/

namespace WasixEth.Storage

open Rlp RlpNode YellowPaper

/-! ## Paths -/

theorem pairs_eq (nibbles : Nibbles) : pairs nibbles = packPairs nibbles := by
  have hpack : ∀ high low : Nibble,
      UInt8.ofNat (16 * high.val + low.val) = packNibbles high low := by
    decide
  induction nibbles using packPairs.induct with
  | case1 high low rest ih => rw [pairs, packPairs, hpack, ih]
  | case2 nibbles h =>
      rcases nibbles with _ | ⟨high, _ | ⟨low, rest⟩⟩
      · rfl
      · rfl
      · exact absurd rfl (h high low rest)

theorem hexPrefix_eq (nibbles : Nibbles) (isLeaf : Bool) :
    hexPrefix nibbles isLeaf = encodePath nibbles isLeaf := by
  have hodd : ∀ (isLeaf : Bool) (first : Nibble),
      UInt8.ofNat (16 * ((if isLeaf then 2 else 0) + 1) + first.val) =
        pathFlag isLeaf ||| 0x10 ||| nibbleByte first := by
    decide
  have heven : ∀ isLeaf : Bool,
      UInt8.ofNat (16 * if isLeaf then 2 else 0) = pathFlag isLeaf := by
    decide
  cases nibbles with
  | nil => exact congrArg (· :: []) (heven isLeaf)
  | cons first rest =>
      unfold hexPrefix encodePath
      by_cases hlength : (first :: rest).length % 2 = 0
      · simp only [hlength, if_true, ne_eq, not_true_eq_false, if_false, heven, pairs_eq]
      · simp only [hlength, if_false, ne_eq, not_false_eq_true, if_true, hodd, pairs_eq]

/-! ## Entries of a map -/

/-- The entries list the map. -/
structure Lists (entries : Entries) (f : Nibbles → Option Bytes) : Prop where
  nodup : (entries.map Prod.fst).Nodup
  mem_iff : ∀ nibbles value, (nibbles, value) ∈ entries ↔ f nibbles = some value

namespace Lists

variable {entries : Entries} {f : Nibbles → Option Bytes}

theorem below (h : Lists entries f) (path : Nibbles) :
    Lists (YellowPaper.below path entries) (Tree.restrict path f) := by
  refine ⟨nodup_below h.nodup, fun nibbles value => ?_⟩
  rw [mem_below, h.mem_iff]
  rfl

theorem eq_none (h : Lists [] f) (nibbles : Nibbles) : f nibbles = none := by
  cases hvalue : f nibbles with
  | none => rfl
  | some value => simpa using (h.mem_iff nibbles value).mpr hvalue

theorem eq_update {key : Nibbles} {value : Bytes} (h : Lists [(key, value)] f) :
    f = Function.update (fun _ => none) key (some value) := by
  funext nibbles
  by_cases heq : nibbles = key
  · subst heq
    rw [Function.update_self]
    exact (h.mem_iff nibbles value).mp (by simp)
  · rw [Function.update_of_ne heq]
    cases hvalue : f nibbles with
    | none => rfl
    | some other =>
        have hmem := (h.mem_iff nibbles other).mpr hvalue
        simp [heq] at hmem

theorem isPrefix_sharedPath (h : Lists entries f) {nibbles : Nibbles} (hne : f nibbles ≠ none) :
    sharedPath entries <+: nibbles := by
  obtain ⟨value, hvalue⟩ := Option.ne_none_iff_exists'.mp hne
  have hmem := (h.mem_iff _ _).mpr hvalue
  exact (YellowPaper.isPrefix_sharedPath (List.ne_nil_of_mem hmem)).mp (List.prefix_refl _) _ hmem

end Lists

namespace Tree

/-! ## Canonical trees below a shared path -/

theorem canon_single {depth : Nat} {key : Nibbles} {value : Bytes} (hlength : key.length = depth)
    (hdepth : depth ≤ 64) (hvalue : value.length < 2 ^ 63) :
    canon depth (Function.update (fun _ => none) key (some value)) = leaf key value := by
  rw [← insert_canon_new (supported_none depth) hdepth hlength hvalue rfl, canon_none]
  rfl

/-- When all entries start with one path, so does the canonical tree. -/
theorem canon_prependAll {path : Nibbles} {depth : Nat} {f : Nibbles → Option Bytes}
    (h : Supported (path.length + depth) f) (hne : ∃ nibbles, f nibbles ≠ none)
    (hpath : ∀ nibbles, f nibbles ≠ none → path <+: nibbles) :
    canon (path.length + depth) f = prependAll path (canon depth (restrict path f)) := by
  induction path generalizing f with
  | nil =>
      rw [List.length_nil, Nat.zero_add]
      rfl
  | cons i path ih =>
      have hlength : (i :: path).length + depth = (path.length + depth) + 1 := by
        simp only [List.length_cons]
        omega
      rw [hlength] at h ⊢
      obtain ⟨nibbles, hnibbles⟩ := hne
      obtain ⟨rest, rfl⟩ := hpath nibbles hnibbles
      have hbelow : ∃ nibbles, restrict [i] f nibbles ≠ none := ⟨path ++ rest, hnibbles⟩
      have hi : canon (path.length + depth) (restrict [i] f) ≠ empty :=
        (canon_ne_empty (h.slot i)).mpr hbelow
      have hother : ∀ j, j ≠ i → canon (path.length + depth) (restrict [j] f) = empty := by
        intro j hj
        rw [canon_eq_empty (h.slot j)]
        intro nibbles'
        by_contra hne'
        have hpre := hpath (j :: nibbles') hne'
        exact hj (List.cons_prefix_cons.mp hpre).1.symm
      rw [canon_succ, gather, collapse_of_one hi hother,
        ih (h.slot i) hbelow fun nibbles' h' => (List.cons_prefix_cons.mp (hpath _ h')).2,
        ← restrict_append]
      rfl

theorem canon_of_branching {depth : Nat} {f : Nibbles → Option Bytes}
    (h : Supported (depth + 1) f) (hbranching : Branching f []) :
    canon (depth + 1) f = branch (fun i => (canon depth (restrict [i] f)).link)
      fun i => canon depth (restrict [i] f) := by
  obtain ⟨i, j, hij, hi, hj⟩ := (branching_iff h).mp hbranching
  rw [canon_succ]
  exact collapse_of_two hij hi hj

theorem depth_of_branching {depth : Nat} {f : Nibbles → Option Bytes} {path : Nibbles}
    (h : Supported depth f) (hbranching : Branching f path) :
    ∃ depth', depth = path.length + (depth' + 1) := by
  obtain ⟨i, tail, -, -, -, hi, -⟩ := hbranching
  obtain ⟨value, hvalue⟩ := Option.ne_none_iff_exists'.mp hi
  have hlength := h.length_eq _ _ hvalue
  simp only [List.length_append, List.length_cons] at hlength
  exact ⟨tail.length, hlength.symm⟩

theorem canon_of_shared {path : Nibbles} {depth : Nat} {f : Nibbles → Option Bytes}
    (h : Supported (path.length + depth) f) (hbranching : Branching f path)
    (hpath : ∀ nibbles, f nibbles ≠ none → path <+: nibbles) :
    canon (path.length + depth) f = wrap path (canon depth (restrict path f)) := by
  have hne : ∃ nibbles, f nibbles ≠ none := by
    obtain ⟨i, tail, -, -, -, hi, -⟩ := hbranching
    exact ⟨_, hi⟩
  rw [canon_prependAll h hne hpath, prependAll_branch]
  exact (isBranch_canon h.restrict).mpr hbranching

end Tree

/-- Entries of one length part right after their shared path. -/
theorem branching_sharedPath {depth : Nat} {entries : Entries} {f : Nibbles → Option Bytes}
    (h : Lists entries f) (hf : Tree.Supported depth f) (htwo : 2 ≤ entries.length) :
    Tree.Branching f (sharedPath entries) := by
  obtain ⟨first, second, rest, rfl⟩ : ∃ first second rest, entries = first :: second :: rest := by
    match entries with
    | [] => simp at htwo
    | [_] => simp at htwo
    | first :: second :: rest => exact ⟨first, second, rest, rfl⟩
  set entries := first :: second :: rest with hentries
  have hpath : ∀ entry ∈ entries, sharedPath entries <+: entry.1 :=
    (isPrefix_sharedPath (by simp [hentries])).mp (List.prefix_refl _)
  have hsome : ∀ entry ∈ entries, f entry.1 = some entry.2 := fun entry hentry =>
    (h.mem_iff _ _).mp hentry
  have hlength : ∀ entry ∈ entries, entry.1.length = depth := fun entry hentry =>
    hf.length_eq _ _ (hsome entry hentry)
  have hdistinct : first.1 ≠ second.1 := by
    have hnodup := h.nodup
    rw [hentries, List.map_cons, List.map_cons, List.nodup_cons] at hnodup
    intro heq
    exact hnodup.1 (by simp [heq])
  -- the first key goes on behind the shared path: else all keys would equal it
  have hgoes : ∃ i tail, first.1 = sharedPath entries ++ i :: tail := by
    obtain ⟨tail, htail⟩ := hpath first (by simp [hentries])
    cases tail with
    | nil =>
        exfalso
        rw [List.append_nil] at htail
        have hsecond := hpath second (by simp [hentries])
        rw [htail] at hsecond
        refine hdistinct (hsecond.eq_of_length ?_)
        rw [hlength first (by simp [hentries]), hlength second (by simp [hentries])]
    | cons i tail => exact ⟨i, tail, htail.symm⟩
  obtain ⟨i, tail, hfirst⟩ := hgoes
  -- some key goes on with another nibble: else the shared path were longer
  have hparts : ∃ entry ∈ entries, ¬ sharedPath entries ++ [i] <+: entry.1 := by
    by_contra hall
    push Not at hall
    have hlonger := (isPrefix_sharedPath (by simp [hentries])).mpr hall
    have hle := hlonger.length_le
    simp at hle
  obtain ⟨entry, hentry, hnot⟩ := hparts
  obtain ⟨tail', htail'⟩ := hpath entry hentry
  cases tail' with
  | nil =>
      exfalso
      have hshort := congrArg List.length htail'
      have hlong := congrArg List.length hfirst
      rw [List.append_nil] at hshort
      rw [List.length_append, List.length_cons, hlength first (by simp [hentries])] at hlong
      rw [hlength entry hentry] at hshort
      omega
  | cons j tail' =>
      refine ⟨i, tail, j, tail', ?_, ?_, ?_⟩
      · rintro rfl
        exact hnot ⟨tail', by rw [← htail']; simp⟩
      · rw [← hfirst, hsome first (by simp [hentries])]
        simp
      · rw [htail', hsome entry hentry]
        simp

section

variable [Keccak256]

/-! ## Nodes -/

omit [Keccak256] in
theorem encodeBytes_word (word : B256) : encodeBytes word.bytes = (wordRlp word).bytes := by
  rw [encodeBytes_of_length_ne_one (by rw [word.length_eq]; omega), word.length_eq]
  rfl

theorem reference_encode {depth : Nat} {tree : Tree} (h : Tree.Regular depth tree)
    (hdepth : depth ≤ 64) : reference tree.encode = (refOf tree.link tree.node).bytes := by
  rw [Tree.link_eq h hdepth]
  by_cases hlength : tree.encode.length < 32
  · have hnot : ¬ 32 ≤ tree.encode.length := by omega
    rw [reference, if_pos hlength, decide_eq_false hnot]
    rw [Tree.encode] at hlength ⊢
    simp [refOf, fromRlp, hlength]
  · have hle : 32 ≤ tree.encode.length := by omega
    rw [reference, if_neg hlength, decide_eq_true hle, encodeBytes_word]
    rfl

theorem slotBytes_refOf {depth : Nat} {tree : Tree} (h : Tree.Regular depth tree)
    (hdepth : depth ≤ 64) :
    slotBytes (refOf tree.link tree.node).reread = reference tree.encode := by
  rw [slotBytes_reread, slotBytes, Tree.refOf_ne_nil _ (Tree.valid_node h hdepth),
    reference_encode h hdepth]
  rfl

omit [Keccak256] in
theorem valueHere_eq_nil {depth : Nat} {entries : Entries} {f : Nibbles → Option Bytes}
    (h : Lists entries f) (hf : Tree.Supported (depth + 1) f) : valueHere entries = [] := by
  have hnone : entries.lookup [] = none := by
    rw [List.lookup_eq_none_iff]
    rintro ⟨key, value⟩ hmem
    have hlength := hf.length_eq _ _ ((h.mem_iff key value).mp hmem)
    cases key with
    | nil => simp at hlength
    | cons i key => rfl
  rw [valueHere, hnone]
  rfl

/-- The node of the Yellow Paper is the encoding of the canonical tree. -/
theorem node_eq_encode {fuel depth : Nat} {entries : Entries} {f : Nibbles → Option Bytes}
    (h : Lists entries f) (hf : Tree.Supported depth f) (hdepth : depth ≤ 64)
    (hfuel : depth < fuel) : YellowPaper.node fuel entries = (Tree.canon depth f).encode := by
  induction fuel generalizing depth entries f with
  | zero => omega
  | succ fuel ih =>
      match hentries : entries with
      | [] =>
          rw [(Tree.canon_eq_empty hf).mpr h.eq_none, Tree.encode_empty]
          rfl
      | [(key, value)] =>
          have hvalue := (h.mem_iff key value).mp (by simp)
          rw [h.eq_update, Tree.canon_single (hf.length_eq _ _ hvalue) hdepth (hf.fits _ _ hvalue),
            YellowPaper.node, hexPrefix_eq]
          rfl
      | first :: second :: rest =>
          rw [← hentries] at h ⊢
          have hbranching := branching_sharedPath h hf (by simp [hentries])
          obtain ⟨depth', hdepth'⟩ := Tree.depth_of_branching hf hbranching
          subst hdepth'
          rw [node_of_two fuel (by simp [hentries])]
          split
          next hnil =>
            simp only [hnil, List.length_nil, Nat.zero_add] at hf hdepth hfuel hbranching ⊢
            rw [Tree.canon_of_branching hf hbranching, valueHere_eq_nil h hf]
            have hslot : ∀ i, reference (YellowPaper.node fuel (below [i] entries)) =
                slotBytes (refOf (Tree.canon depth' (Tree.restrict [i] f)).link
                  (Tree.canon depth' (Tree.restrict [i] f)).node).reread := by
              intro i
              rw [ih (h.below [i]) (hf.slot i) (by omega) (by omega),
                slotBytes_refOf (Tree.regular_canon (hf.slot i)) (by omega)]
            simp only [hslot]
            rfl
          next hcons =>
            have hpos : 0 < (sharedPath entries).length := List.length_pos_iff.mpr hcons
            rw [ih (h.below _) hf.restrict (by omega) (by omega),
              Tree.canon_of_shared hf hbranching fun _ => h.isPrefix_sharedPath, Tree.wrap,
              if_neg hcons, reference_encode (Tree.regular_canon hf.restrict) (by omega),
              hexPrefix_eq]
            rfl

end

end WasixEth.Storage
