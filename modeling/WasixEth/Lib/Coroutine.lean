import Mathlib.Data.List.Forall2
import Mathlib.Data.List.Induction
import Mathlib.Logic.Relation

/-! # Tasks that share a state

A task reads and changes a shared state one step at a time, and between two of
its steps other tasks may take theirs. A step carries the place of the program
it stands at. To reason about all interleavings, a ghost value is kept beside
every task: what the task holds and what it still owes. A task follows a
protocol if each of its steps, in any state the protocol lets it assume, is one
that the protocol allows.
-/

namespace WasixEth

open Relation

/-- A task that has returned, one that will never return, and one that stands
before a step. What comes next may depend on the state the step finds. -/
inductive Coroutine (κ σ α : Type) where
  | done (value : α)
  | halted
  | step (place : κ) (act : σ → σ) (next : σ → Coroutine κ σ α)

namespace Coroutine

variable {κ σ α β : Type}

protected def bind : Coroutine κ σ α → (α → Coroutine κ σ β) → Coroutine κ σ β
  | .done value, rest => rest value
  | .halted, _ => .halted
  | .step place act next, rest => .step place act fun state => (next state).bind rest

instance : Monad (Coroutine κ σ) where
  pure := .done
  bind := Coroutine.bind

/-- Say of every step that it stands at another place. -/
def relabel (f : κ → κ) : Coroutine κ σ α → Coroutine κ σ α
  | .done value => .done value
  | .halted => .halted
  | .step place act next => .step (f place) act fun state => (next state).relabel f

/-- A single step, at a place, that answers from the state it finds. -/
def access (place : κ) (answer : σ → α) (act : σ → σ) : Coroutine κ σ α :=
  .step place act fun state => .done (answer state)

/-- The place of the step that a task stands before. -/
def place? : Coroutine κ σ α → Option κ
  | .step place _ _ => some place
  | _ => none

/-! ## Facts about every step -/

section Always

variable {R R' : κ → σ → σ → Prop}

/-- Whatever state a step finds, it is related to the one the step leaves. -/
def Always (R : κ → σ → σ → Prop) : Coroutine κ σ α → Prop
  | .done _ => True
  | .halted => True
  | .step place act next => ∀ state, R place state (act state) ∧ (next state).Always R

theorem always_pure (value : α) : (pure value : Coroutine κ σ α).Always R := trivial

theorem always_halted : (.halted : Coroutine κ σ α).Always R := trivial

theorem always_access {place : κ} {answer : σ → α} {act : σ → σ}
    (h : ∀ state, R place state (act state)) : (access place answer act).Always R :=
  fun state => ⟨h state, trivial⟩

theorem Always.bind {task : Coroutine κ σ α} {rest : α → Coroutine κ σ β} (h : task.Always R)
    (hrest : ∀ value, (rest value).Always R) : (task >>= rest).Always R := by
  induction task with
  | done value => exact hrest value
  | halted => trivial
  | step place act next ih => exact fun state => ⟨(h state).1, ih state (h state).2⟩

theorem Always.relabel {f : κ → κ} {task : Coroutine κ σ α} (h : task.Always R)
    (himp : ∀ place state state', R place state state' → R' (f place) state state') :
    (task.relabel f).Always R' := by
  induction task with
  | done value => trivial
  | halted => trivial
  | step place act next ih =>
      exact fun state => ⟨himp _ _ _ (h state).1, ih state (h state).2⟩

end Always

end Coroutine

/-! ## Protocols -/

/-- The ghost values of the tasks under a protocol, what a task may assume
about the state and how a step may change the state and its ghost value. -/
structure Protocol (κ σ γ : Type) where
  Assumes : κ → σ → γ → Prop
  Allows : κ → σ → γ → σ → γ → Prop

namespace Protocol

variable {κ σ γ α β : Type} (protocol : Protocol κ σ γ)

/-- The task, which has this ghost value, takes only steps that are allowed,
and if it returns it does so with a value and a ghost value as stated. -/
def Follows (ends : γ → α → Prop) : γ → Coroutine κ σ α → Prop
  | ghost, .done value => ends ghost value
  | _, .halted => True
  | ghost, .step place act next => ∀ state, protocol.Assumes place state ghost →
      ∃ ghost', protocol.Allows place state ghost (act state) ghost' ∧
        Follows ends ghost' (next state)

variable {protocol} {Q Q' : γ → α → Prop} {ghost : γ}

theorem follows_pure {value : α} :
    protocol.Follows Q ghost (pure value) ↔ Q ghost value := .rfl

theorem follows_done {value : α} :
    protocol.Follows Q ghost (.done value) ↔ Q ghost value := .rfl

theorem follows_halted : protocol.Follows Q ghost .halted := trivial

theorem follows_step {place : κ} {act : σ → σ} {next : σ → Coroutine κ σ α} :
    protocol.Follows Q ghost (.step place act next) ↔
      ∀ state, protocol.Assumes place state ghost →
        ∃ ghost', protocol.Allows place state ghost (act state) ghost' ∧
          protocol.Follows Q ghost' (next state) := .rfl

theorem Follows.mono {task : Coroutine κ σ α} (h : protocol.Follows Q ghost task)
    (himp : ∀ ghost value, Q ghost value → Q' ghost value) :
    protocol.Follows Q' ghost task := by
  induction task generalizing ghost with
  | done value => exact himp _ _ h
  | halted => trivial
  | step place act next ih =>
      intro state hassumes
      obtain ⟨ghost', hallows, hnext⟩ := h state hassumes
      exact ⟨ghost', hallows, ih state hnext⟩

theorem Follows.bind {Q' : γ → β → Prop} {task : Coroutine κ σ α} {rest : α → Coroutine κ σ β}
    (h : protocol.Follows Q ghost task)
    (hrest : ∀ ghost value, Q ghost value → protocol.Follows Q' ghost (rest value)) :
    protocol.Follows Q' ghost (task >>= rest) := by
  induction task generalizing ghost with
  | done value => exact hrest _ _ h
  | halted => trivial
  | step place act next ih =>
      intro state hassumes
      obtain ⟨ghost', hallows, hnext⟩ := h state hassumes
      exact ⟨ghost', hallows, ih state hnext⟩

theorem Follows.relabel {task : Coroutine κ σ α} {f : κ → κ}
    (hassumes : ∀ place state ghost, protocol.Assumes (f place) state ghost →
      protocol.Assumes place state ghost)
    (hallows : ∀ place state ghost state' ghost', protocol.Allows place state ghost state' ghost' →
      protocol.Allows (f place) state ghost state' ghost')
    (h : protocol.Follows Q ghost task) : protocol.Follows Q ghost (task.relabel f) := by
  induction task generalizing ghost with
  | done value => exact h
  | halted => trivial
  | step place act next ih =>
      intro state hstate
      obtain ⟨ghost', hstep, hnext⟩ := h state (hassumes _ _ _ hstate)
      exact ⟨ghost', hallows _ _ _ _ _ hstep, ih state hnext⟩

/-- If every step is allowed and leaves the ghost value as it is, so does the
task. -/
theorem follows_of_always {task : Coroutine κ σ α} {R : κ → σ → σ → Prop} (h : task.Always R)
    (himp : ∀ place state state', protocol.Assumes place state ghost → R place state state' →
      protocol.Allows place state ghost state' ghost) :
    protocol.Follows (fun ghost' _ => ghost' = ghost) ghost task := by
  induction task with
  | done value => rfl
  | halted => trivial
  | step place act next ih =>
      intro state hassumes
      obtain ⟨hstep, hnext⟩ := h state
      exact ⟨ghost, himp _ _ _ hassumes hstep, ih state hnext⟩

/-- A single step. -/
theorem follows_access {place : κ} {answer : σ → α} {act : σ → σ}
    (h : ∀ state, protocol.Assumes place state ghost →
      ∃ ghost', protocol.Allows place state ghost (act state) ghost' ∧ Q ghost' (answer state)) :
    protocol.Follows Q ghost (Coroutine.access place answer act) := h

end Protocol

-- Whether a long task follows a protocol is never decided by computing it.
attribute [irreducible] Protocol.Follows Coroutine.Always

/-! ## Pools of tasks -/

/-- A shared state and the tasks that work on it, each with the call it runs
for. -/
structure Pool (κ σ ρ χ : Type) where
  state : σ
  tasks : List (χ × Coroutine κ σ ρ)

/-- What the calls do, when one may start, what may happen to the state apart
from the tasks, and which steps a run may take. -/
structure Setting (κ σ ρ χ : Type) where
  program : χ → Coroutine κ σ ρ
  Starts : χ → σ → σ → Prop
  Elsewhere : σ → σ → Prop
  Permits : κ → σ → Prop

namespace Setting

variable {κ σ ρ χ : Type} (setting : Setting κ σ ρ χ)

inductive Step : Pool κ σ ρ χ → Pool κ σ ρ χ → Prop where
  | start {call : χ} {state state' : σ} (h : setting.Starts call state state')
      (tasks : List (χ × Coroutine κ σ ρ)) :
      Step ⟨state, tasks⟩ ⟨state', tasks ++ [(call, setting.program call)]⟩
  | advance {place : κ} {state : σ} (h : setting.Permits place state) (call : χ) (act : σ → σ)
      (next : σ → Coroutine κ σ ρ) (before after : List (χ × Coroutine κ σ ρ)) :
      Step ⟨state, before ++ (call, .step place act next) :: after⟩
        ⟨act state, before ++ (call, next state) :: after⟩
  | elsewhere {state state' : σ} (h : setting.Elsewhere state state')
      (tasks : List (χ × Coroutine κ σ ρ)) : Step ⟨state, tasks⟩ ⟨state', tasks⟩

/-- Any number of steps, in any order. -/
def Reaches : Pool κ σ ρ χ → Pool κ σ ρ χ → Prop := ReflTransGen setting.Step

end Setting

/-- The task at this position takes a step, if it stands before one. -/
def Pool.advance {κ σ ρ χ : Type} (pool : Pool κ σ ρ χ) (position : Nat) : Pool κ σ ρ χ :=
  match pool.tasks[position]? with
  | some (call, .step _ act next) =>
      ⟨act pool.state, pool.tasks.set position (call, next pool.state)⟩
  | _ => pool

/-- A schedule names the task that takes each step. All of them may be taken. -/
def Pool.Admits {κ σ ρ χ : Type} (permits : κ → σ → Prop) (pool : Pool κ σ ρ χ) : List Nat → Prop
  | [] => True
  | position :: rest =>
      (match pool.tasks[position]? with
        | some (_, .step place _ _) => permits place pool.state
        | _ => True) ∧ (pool.advance position).Admits permits rest

instance Pool.decidableAdmits {κ σ ρ χ : Type} {permits : κ → σ → Prop}
    [∀ place state, Decidable (permits place state)] :
    ∀ (schedule : List Nat) (pool : Pool κ σ ρ χ), Decidable (pool.Admits permits schedule)
  | [], _ => .isTrue trivial
  | position :: rest, pool =>
      have : Decidable ((pool.advance position).Admits permits rest) := decidableAdmits rest _
      match h : pool.tasks[position]? with
      | some (_, .step place _ _) =>
          decidable_of_iff (permits place pool.state ∧ (pool.advance position).Admits permits rest)
            (by rw [Admits, h])
      | some (_, .done _) => decidable_of_iff ((pool.advance position).Admits permits rest)
          (by rw [Admits, h]; simp)
      | some (_, .halted) => decidable_of_iff ((pool.advance position).Admits permits rest)
          (by rw [Admits, h]; simp)
      | none => decidable_of_iff ((pool.advance position).Admits permits rest)
          (by rw [Admits, h]; simp)

theorem Setting.reaches_schedule {κ σ ρ χ : Type} {setting : Setting κ σ ρ χ}
    (pool : Pool κ σ ρ χ) (schedule : List Nat) (h : pool.Admits setting.Permits schedule) :
    setting.Reaches pool (schedule.foldl Pool.advance pool) := by
  induction schedule generalizing pool with
  | nil => exact .refl
  | cons position rest ih =>
      refine ReflTransGen.trans ?_ (ih (pool.advance position) h.2)
      have hpermits := h.1
      unfold Pool.advance
      split
      next call place act next hget =>
        rw [hget] at hpermits
        obtain ⟨hlt, hget⟩ := List.getElem?_eq_some_iff.mp hget
        obtain ⟨state, tasks⟩ := pool
        have hsplit := List.take_append_drop position tasks
        dsimp only at hget hlt hsplit
        rw [List.drop_eq_getElem_cons hlt, hget] at hsplit
        have hstep : setting.Step ⟨state, tasks.take position ++
            (call, .step place act next) :: tasks.drop (position + 1)⟩ _ :=
          .advance hpermits call act next _ _
        rw [hsplit] at hstep
        rw [List.set_eq_take_append_cons_drop, if_pos hlt]
        exact .single hstep
      · exact .refl

/-- Calls that start one after another and take no step. -/
theorem Setting.reaches_startAll {κ σ ρ χ : Type} {setting : Setting κ σ ρ χ} {state : σ}
    (calls : List χ) (h : ∀ call ∈ calls, setting.Starts call state state) :
    setting.Reaches ⟨state, []⟩
      ⟨state, calls.map fun call => (call, setting.program call)⟩ := by
  induction calls using List.reverseRecOn with
  | nil => exact .refl
  | append_singleton calls call ih =>
      rw [List.map_append]
      exact (ih fun call hmem => h call (by simp [hmem])).tail (.start (h call (by simp)) _)

/-- Any schedule, where every step may be taken. -/
theorem Pool.admits_of_forall {κ σ ρ χ : Type} {permits : κ → σ → Prop}
    (h : ∀ place state, permits place state) (pool : Pool κ σ ρ χ) (schedule : List Nat) :
    pool.Admits permits schedule := by
  induction schedule generalizing pool with
  | nil => trivial
  | cons position rest ih =>
      refine ⟨?_, ih _⟩
      split
      · exact h _ _
      · trivial

/-! ## The ghost value of one task among those of all -/

section Ghosts

variable {α β : Type}

theorem exists_of_forall₂_append {R : α → β → Prop} {xs xs' : List α} {zs : List β}
    (h : List.Forall₂ R (xs ++ xs') zs) :
    ∃ ys ys', List.Forall₂ R xs ys ∧ List.Forall₂ R xs' ys' ∧ zs = ys ++ ys' := by
  induction xs generalizing zs with
  | nil => exact ⟨[], zs, .nil, h, rfl⟩
  | cons x xs ih =>
      cases h with
      | cons hx hrest =>
          obtain ⟨ys, ys', hys, hys', rfl⟩ := ih hrest
          exact ⟨_ :: ys, ys', .cons hx hys, hys', rfl⟩

theorem exists_of_mem_forall₂ {R : α → β → Prop} {xs : List α} {ys : List β} {x : α}
    (h : List.Forall₂ R xs ys) (hmem : x ∈ xs) : ∃ y ∈ ys, R x y := by
  induction h with
  | nil => cases hmem
  | @cons x' y' xs ys hxy _ ih =>
      rcases List.mem_cons.mp hmem with rfl | hrest
      · exact ⟨y', List.mem_cons_self, hxy⟩
      · obtain ⟨y, hy, hR⟩ := ih hrest
        exact ⟨y, List.mem_cons_of_mem _ hy, hR⟩

theorem exists_mem_middle {P : α → Prop} {xs ys : List α} {y : α} :
    (∃ x ∈ xs ++ y :: ys, P x) ↔ P y ∨ ∃ x ∈ xs ++ ys, P x := by
  constructor
  · rintro ⟨x, hmem, hx⟩
    rcases List.mem_append.mp hmem with hfront | hrest
    · exact .inr ⟨x, List.mem_append_left _ hfront, hx⟩
    · rcases List.mem_cons.mp hrest with rfl | hback
      · exact .inl hx
      · exact .inr ⟨x, List.mem_append_right _ hback, hx⟩
  · rintro (hy | ⟨x, hmem, hx⟩)
    · exact ⟨y, by simp, hy⟩
    · refine ⟨x, ?_, hx⟩
      rcases List.mem_append.mp hmem with hfront | hback
      · exact List.mem_append_left _ hfront
      · exact List.mem_append_right _ (List.mem_cons_of_mem _ hback)

theorem forall_mem_middle {P : α → Prop} {xs ys : List α} {y : α} :
    (∀ x ∈ xs ++ y :: ys, P x) ↔ P y ∧ ∀ x ∈ xs ++ ys, P x := by
  simp only [List.forall_mem_append, List.forall_mem_cons]
  exact and_left_comm

end Ghosts

/-! ## The invariant rule -/

namespace Protocol

variable {κ σ γ ρ χ : Type}

/-- A fact about the state and the ghost values of all tasks that starting a
call, an allowed step and what happens elsewhere keep. -/
structure Keeps (protocol : Protocol κ σ γ) (setting : Setting κ σ ρ χ)
    (Ends : χ → γ → ρ → Prop) (Inv : σ → List γ → Prop) : Prop where
  assumes : ∀ {place state ghost ghosts}, Inv state ghosts → ghost ∈ ghosts →
    setting.Permits place state → protocol.Assumes place state ghost
  start : ∀ {call state state' ghosts}, setting.Starts call state state' → Inv state ghosts →
    ∃ ghost, Inv state' (ghosts ++ [ghost]) ∧
      protocol.Follows (Ends call) ghost (setting.program call)
  advance : ∀ {place state state' ghost ghost' before after},
    Inv state (before ++ ghost :: after) → setting.Permits place state →
    protocol.Allows place state ghost state' ghost' → Inv state' (before ++ ghost' :: after)
  elsewhere : ∀ {state state' ghosts}, setting.Elsewhere state state' → Inv state ghosts →
    Inv state' ghosts

variable {protocol : Protocol κ σ γ} {setting : Setting κ σ ρ χ} {Ends : χ → γ → ρ → Prop}
  {Inv : σ → List γ → Prop}

/-- There are ghost values for the tasks with which each follows the protocol
and the invariant holds. -/
def Guards (protocol : Protocol κ σ γ) (Ends : χ → γ → ρ → Prop) (Inv : σ → List γ → Prop)
    (pool : Pool κ σ ρ χ) : Prop :=
  ∃ ghosts, List.Forall₂ (fun task ghost => protocol.Follows (Ends task.1) ghost task.2)
    pool.tasks ghosts ∧ Inv pool.state ghosts

theorem Keeps.guards_step (hkeeps : protocol.Keeps setting Ends Inv) {pool pool' : Pool κ σ ρ χ}
    (hstep : setting.Step pool pool') (h : protocol.Guards Ends Inv pool) :
    protocol.Guards Ends Inv pool' := by
  obtain ⟨ghosts, hfollows, hinv⟩ := h
  cases hstep with
  | start hstarts tasks =>
      obtain ⟨ghost, hinv', hnew⟩ := hkeeps.start hstarts hinv
      exact ⟨_, List.rel_append hfollows (.cons hnew .nil), hinv'⟩
  | advance hpermits call act next before after =>
      obtain ⟨ghostsBefore, rest, hbefore, hrest, rfl⟩ := exists_of_forall₂_append hfollows
      cases hrest with
      | cons htask hafter =>
          obtain ⟨ghost', hallows, hnext⟩ :=
            follows_step.mp htask _ (hkeeps.assumes hinv (by simp) hpermits)
          exact ⟨_, List.rel_append hbefore (.cons hnext hafter),
            hkeeps.advance hinv hpermits hallows⟩
  | elsewhere helsewhere => exact ⟨ghosts, hfollows, hkeeps.elsewhere helsewhere hinv⟩

theorem Keeps.guards_reaches (hkeeps : protocol.Keeps setting Ends Inv)
    {pool pool' : Pool κ σ ρ χ} (hreaches : setting.Reaches pool pool')
    (h : protocol.Guards Ends Inv pool) : protocol.Guards Ends Inv pool' := by
  induction hreaches with
  | refl => exact h
  | tail _ hstep ih => exact hkeeps.guards_step hstep ih

end Protocol

end WasixEth
