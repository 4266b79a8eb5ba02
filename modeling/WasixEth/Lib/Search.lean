import Mathlib.Data.List.Basic

/-! # Searching a sorted list

Binary search by a numeric key, as vectors do it: the window is halved until one
item is left. A hit is the index of an item with the key, a miss the index at
which an item with the key would have to be inserted.
-/

namespace WasixEth.Search

variable {α : Type*}

/-- The loop over the window of `size` items from `base` on. -/
def narrow (key : α → Nat) (items : List α) (k : Nat) : Nat → Nat → Nat → Nat
  | 0, base, _ => base
  | fuel + 1, base, size =>
      if size ≤ 1 then base
      else
        let half := size / 2
        let mid := base + half
        let next :=
          match items[mid]? with
          | some item => if k < key item then base else mid
          | none => base
        narrow key items k fuel next (size - half)

def binarySearchByKey (key : α → Nat) (items : List α) (k : Nat) : Except Nat Nat :=
  let base := narrow key items k items.length 0 items.length
  match items[base]? with
  | none => .error base
  | some item =>
      if key item = k then .ok base
      else if k < key item then .error base
      else .error (base + 1)

/-- Keys go up from item to item. -/
def Increasing (key : α → Nat) (items : List α) : Prop :=
  items.Pairwise fun a b => key a < key b

variable {key : α → Nat} {items : List α}

theorem Increasing.lt (h : Increasing key items) {i j : Nat} {a b : α} (hi : items[i]? = some a)
    (hj : items[j]? = some b) (hlt : i < j) : key a < key b := by
  obtain ⟨hilt, rfl⟩ := List.getElem?_eq_some_iff.mp hi
  obtain ⟨hjlt, rfl⟩ := List.getElem?_eq_some_iff.mp hj
  exact List.pairwise_iff_getElem.mp h i j hilt hjlt hlt

/-- What the loop keeps: everything behind the window is above the key, and the
window starts at or below it, or at the first item. -/
structure Window (key : α → Nat) (items : List α) (k base size : Nat) : Prop where
  pos : 0 < size
  bound : base + size ≤ items.length
  low : base = 0 ∨ ∀ item, items[base]? = some item → key item ≤ k
  high : ∀ j item, base + size ≤ j → items[j]? = some item → k < key item

theorem Window.halve (hincreasing : Increasing key items) {k base size : Nat}
    (h : Window key items k base size) (hsize : ¬ size ≤ 1) {item : α}
    (hitem : items[base + size / 2]? = some item) :
    Window key items k (if k < key item then base else base + size / 2) (size - size / 2) := by
  have hbound := h.bound
  split
  next hlt =>
    refine ⟨by omega, by omega, h.low, ?_⟩
    intro j other hj hother
    rcases Nat.eq_or_lt_of_le (show base + size / 2 ≤ j by omega) with heq | hlt'
    · rw [← heq, hitem] at hother
      cases hother
      exact hlt
    · exact Nat.lt_trans hlt (hincreasing.lt hitem hother hlt')
  next hle =>
    refine ⟨by omega, by omega, Or.inr ?_, ?_⟩
    · intro other hother
      rw [hitem] at hother
      cases hother
      exact Nat.le_of_not_lt hle
    · intro j other hj hother
      exact h.high j other (by omega) hother

theorem narrow_window (hincreasing : Increasing key items) {k : Nat} {fuel base size : Nat}
    (hfuel : size ≤ fuel + 1) (h : Window key items k base size) :
    Window key items k (narrow key items k fuel base size) 1 := by
  induction fuel generalizing base size with
  | zero =>
      have hpos := h.pos
      obtain rfl : size = 1 := by omega
      exact h
  | succ fuel ih =>
      rw [narrow]
      split
      next hsize =>
        have hpos := h.pos
        obtain rfl : size = 1 := by omega
        exact h
      next hsize =>
        have hbound := h.bound
        have hmid : base + size / 2 < items.length := by omega
        have hitem := List.getElem?_eq_getElem hmid
        dsimp only
        rw [hitem]
        exact ih (by omega) (h.halve hincreasing hsize hitem)

/-- A hit is a place where the key stands. -/
theorem exists_of_binarySearchByKey_ok {k i : Nat}
    (h : binarySearchByKey key items k = .ok i) :
    ∃ before item after, items = before ++ item :: after ∧ before.length = i ∧ key item = k := by
  unfold binarySearchByKey at h
  dsimp only at h
  generalize narrow key items k items.length 0 items.length = base at h
  split at h
  next => cases h
  next item hitem =>
    split at h
    next hkey =>
      obtain rfl : base = i := Except.ok.inj h
      obtain ⟨hlt, rfl⟩ := List.getElem?_eq_some_iff.mp hitem
      refine ⟨items.take base, _, items.drop (base + 1), ?_,
        List.length_take_of_le (Nat.le_of_lt hlt), hkey⟩
      rw [← List.drop_eq_getElem_cons hlt, List.take_append_drop]
    next => split at h <;> cases h

theorem Window.above {k base : Nat} (h : Window key items k base 1) :
    ∀ item ∈ items.drop (base + 1), k < key item := by
  intro item hmem
  obtain ⟨j, hj⟩ := List.mem_iff_getElem?.mp hmem
  rw [List.getElem?_drop] at hj
  exact h.high (base + 1 + j) item (by omega) hj

theorem Increasing.below (h : Increasing key items) {k base : Nat} {item : α}
    (hitem : items[base]? = some item) (hlt : key item < k) :
    ∀ other ∈ items.take (base + 1), key other < k := by
  intro other hmem
  obtain ⟨j, hj⟩ := List.mem_iff_getElem?.mp hmem
  rw [List.getElem?_take] at hj
  split at hj
  next hjlt =>
    rcases Nat.eq_or_lt_of_le (Nat.le_of_lt_succ hjlt) with heq | hjlt
    · rw [heq, hitem] at hj
      cases hj
      exact hlt
    · exact Nat.lt_trans (h.lt hj hitem hjlt) hlt
  next => cases hj

theorem window_init {k : Nat} (hitems : 0 < items.length) :
    Window key items k 0 items.length := by
  refine ⟨hitems, by omega, Or.inl rfl, ?_⟩
  intro j item hj hitem
  obtain ⟨hlt, -⟩ := List.getElem?_eq_some_iff.mp hitem
  omega

/-- A miss is where the key belongs. -/
theorem exists_of_binarySearchByKey_error (hincreasing : Increasing key items) {k i : Nat}
    (h : binarySearchByKey key items k = .error i) :
    ∃ before after, items = before ++ after ∧ before.length = i ∧
      (∀ item ∈ before, key item < k) ∧ ∀ item ∈ after, k < key item := by
  rcases Nat.eq_zero_or_pos items.length with hempty | hpos
  · obtain rfl := List.length_eq_zero_iff.mp hempty
    cases h
    exact ⟨[], [], rfl, rfl, nofun, nofun⟩
  have hwindow := narrow_window (k := k) hincreasing (Nat.le_succ _) (window_init hpos)
  unfold binarySearchByKey at h
  dsimp only at h
  generalize narrow key items k items.length 0 items.length = base at h hwindow
  have hbase : base < items.length := hwindow.bound
  have hitem := List.getElem?_eq_getElem hbase
  rw [hitem] at h
  dsimp only at h
  split at h
  next => cases h
  next hne =>
    split at h
    next hlt =>
      obtain rfl : base = 0 := by
        rcases hwindow.low with hzero | hle
        · exact hzero
        · have := hle _ hitem
          omega
      cases h
      refine ⟨[], items, rfl, rfl, nofun, ?_⟩
      intro item hmem
      rw [← List.drop_zero (l := items), List.drop_eq_getElem_cons hbase] at hmem
      rcases List.mem_cons.mp hmem with rfl | hmem
      · exact hlt
      · exact hwindow.above item hmem
    next hge =>
      cases h
      exact ⟨items.take (base + 1), items.drop (base + 1), (List.take_append_drop _ _).symm,
        List.length_take_of_le hbase, hincreasing.below hitem (by omega), hwindow.above⟩

end WasixEth.Search
