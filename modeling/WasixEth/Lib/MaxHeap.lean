import Mathlib.Data.List.Perm.Basic
import Mathlib.Order.Basic

/-! # A heap as a list

A priority queue gives its largest entry first. How the entries are laid out does
not show, so the queue is the list of what is in it.
-/

namespace WasixEth.MaxHeap

variable {α κ : Type}

/-- The largest entry, and the others. -/
def pop (le : α → α → Bool) : List α → Option (α × List α)
  | [] => none
  | entry :: rest =>
      match pop le rest with
      | none => some (entry, [])
      | some (best, others) =>
          if le entry best then some (best, entry :: others) else some (entry, best :: others)

variable {le : α → α → Bool} {heap others : List α} {best : α}

theorem pop_eq_none_iff : pop le heap = none ↔ heap = [] := by
  cases heap with
  | nil => exact ⟨fun _ => rfl, fun _ => rfl⟩
  | cons entry rest =>
      refine iff_of_false ?_ (List.cons_ne_nil entry rest)
      unfold pop
      split
      · exact Option.some_ne_none _
      · split
        · exact Option.some_ne_none _
        · exact Option.some_ne_none _

theorem pop_perm (h : pop le heap = some (best, others)) : heap.Perm (best :: others) := by
  induction heap generalizing best others with
  | nil => cases h
  | cons entry rest ih =>
      unfold pop at h
      split at h
      next hnone =>
          cases h
          rw [pop_eq_none_iff.mp hnone]
      next best' others' hrest =>
          have hperm := ih hrest
          split at h
          · cases h
            exact (hperm.cons entry).trans (List.Perm.swap _ _ _)
          · cases h
            exact hperm.cons _

/-- Nothing that stays has a higher key than what is taken, for a key that the order
of the heap refines. -/
theorem key_le_of_pop [Preorder κ] (key : α → κ) (hle : ∀ a b, le a b = true → key a ≤ key b)
    (hgt : ∀ a b, le a b = false → key b ≤ key a) (h : pop le heap = some (best, others)) :
    ∀ entry ∈ others, key entry ≤ key best := by
  induction heap generalizing best others with
  | nil => cases h
  | cons first rest ih =>
      unfold pop at h
      split at h
      · cases h
        exact fun entry hmem => absurd hmem List.not_mem_nil
      next best' others' hrest =>
          have hothers := ih hrest
          intro entry hmem
          split at h
          next hfirst =>
              cases h
              rcases List.mem_cons.mp hmem with rfl | hmem
              · exact hle _ _ hfirst
              · exact hothers entry hmem
          next hfirst =>
              cases h
              have hbest := hgt _ _ (Bool.eq_false_iff.mpr hfirst)
              rcases List.mem_cons.mp hmem with rfl | hmem
              · exact hbest
              · exact (hothers entry hmem).trans hbest

end WasixEth.MaxHeap
