import Mathlib.Data.Set.Basic

/-! # Failing, stateful, logged computations

A computation reads and updates a state, may stop with an error, and leaves a
log of the events it performed. Updates made before an error survive it, as
they do for a mutable object whose method returns early. The log is only
appended to, so a fact about all events of a run restricts to every prefix of
that run.
-/

namespace WasixEth

/-- What one execution leaves behind. -/
structure Outcome (σ ω ε α : Type*) where
  result : Except ε α
  state : σ
  log : List ω

/-- A computation over the state `σ` with events `ω` and errors `ε`. -/
def Routine (σ ω ε α : Type*) := σ → Outcome σ ω ε α

namespace Routine

universe u

variable {σ : Type u} {ω ε : Type*} {α β : Type u}

protected def pure (a : α) : Routine σ ω ε α :=
  fun s => ⟨.ok a, s, []⟩

protected def bind (m : Routine σ ω ε α) (f : α → Routine σ ω ε β) : Routine σ ω ε β := fun s =>
  match m s with
  | ⟨.error e, s', log⟩ => ⟨.error e, s', log⟩
  | ⟨.ok a, s', log⟩ =>
      let next := f a s'
      ⟨next.result, next.state, log ++ next.log⟩

instance : Monad (Routine σ ω ε) where
  pure := Routine.pure
  bind := Routine.bind

/-- Stop with an error, keeping the current state. -/
def fail (e : ε) : Routine σ ω ε α :=
  fun s => ⟨.error e, s, []⟩

def liftExcept (r : Except ε α) : Routine σ ω ε α :=
  fun s => ⟨r, s, []⟩

def read : Routine σ ω ε σ :=
  fun s => ⟨.ok s, s, []⟩

def modify (f : σ → σ) : Routine σ ω ε PUnit :=
  fun s => ⟨.ok ⟨⟩, f s, []⟩

/-- Record an event. -/
def emit (w : ω) : Routine σ ω ε PUnit :=
  fun s => ⟨.ok ⟨⟩, s, [w]⟩

/-! ## Runs that return -/

theorem bind_apply (m : Routine σ ω ε α) (f : α → Routine σ ω ε β) (s : σ) :
    (m >>= f) s = Routine.bind m f s := rfl

/-- What follows an operation that returned. -/
theorem bind_of_ok {m : Routine σ ω ε α} {s : σ} {a : α} (h : (m s).result = .ok a)
    (f : α → Routine σ ω ε β) :
    ((m >>= f) s).result = (f a (m s).state).result ∧
      ((m >>= f) s).state = (f a (m s).state).state := by
  rw [bind_apply, Routine.bind]
  rcases hrun : m s with ⟨result, s', log⟩
  rw [hrun] at h
  cases h
  exact ⟨rfl, rfl⟩

/-- A sequence returns if its parts do. -/
theorem exists_of_bind_ok {m : Routine σ ω ε α} {f : α → Routine σ ω ε β} {s : σ} {b : β}
    (h : ((m >>= f) s).result = .ok b) :
    ∃ a, (m s).result = .ok a ∧ (f a (m s).state).result = .ok b ∧
      ((m >>= f) s).state = (f a (m s).state).state := by
  cases hm : (m s).result with
  | error e =>
      rw [bind_apply, Routine.bind] at h
      rcases hrun : m s with ⟨result, s', log⟩
      rw [hrun] at h hm
      cases hm
      cases h
  | ok a =>
      obtain ⟨hresult, hstate⟩ := bind_of_ok hm f
      exact ⟨a, rfl, hresult ▸ h, hstate⟩

theorem mem_log_bind {m : Routine σ ω ε α} {s : σ} (f : α → Routine σ ω ε β) {w : ω}
    (h : w ∈ (m s).log) : w ∈ ((m >>= f) s).log := by
  rw [bind_apply, Routine.bind]
  rcases hrun : m s with ⟨result, s', log⟩
  rw [hrun] at h
  cases result with
  | error e => exact h
  | ok a => exact List.mem_append_left _ h

/-! ## What every run does to the state

`Moves R m` relates the states before and after `m`, whether it returns or
stops with an error. -/

section Moves

variable {R : σ → σ → Prop}

def Moves (R : σ → σ → Prop) (m : Routine σ ω ε α) : Prop := ∀ s, R s (m s).state

theorem moves_bind (htrans : ∀ s s' s'', R s s' → R s' s'' → R s s'') {m : Routine σ ω ε α}
    {f : α → Routine σ ω ε β} (hm : Moves R m) (hf : ∀ a, Moves R (f a)) :
    Moves R (m >>= f) := by
  intro s
  rw [bind_apply, Routine.bind]
  have hstate := hm s
  rcases hrun : m s with ⟨result, s', log⟩
  rw [hrun] at hstate
  cases result with
  | error e => exact hstate
  | ok a => exact htrans s s' _ hstate (hf a s')

/-- A computation that leaves the state as it was. -/
def Reads (m : Routine σ ω ε α) : Prop := Moves (fun s s' => s' = s) m

theorem reads_bind {m : Routine σ ω ε α} {f : α → Routine σ ω ε β} (hm : Reads m)
    (hf : ∀ a, Reads (f a)) : Reads (m >>= f) :=
  moves_bind (fun _ _ _ h h' => h'.trans h) hm hf

theorem Reads.moves (hrefl : ∀ s, R s s) {m : Routine σ ω ε α} (h : Reads m) : Moves R m := by
  intro s
  rw [h s]
  exact hrefl s

end Moves

/-! ## Total correctness relative to allowed events

`Triple allowed P m Q` says that `m`, started in a state satisfying `P`,
returns a value and state satisfying `Q`, as long as every event it logs is
allowed. -/

variable {allowed : ω → Prop} {P P' : σ → Prop}

def Triple (allowed : ω → Prop) (P : σ → Prop) (m : Routine σ ω ε α) (Q : α → σ → Prop) : Prop :=
  ∀ s, P s → (∀ w ∈ (m s).log, allowed w) →
    ∃ a, (m s).result = .ok a ∧ Q a (m s).state

theorem triple_pure {a : α} {Q : α → σ → Prop} (h : ∀ s, P s → Q a s) :
    Triple (ε := ε) allowed P (pure a) Q :=
  fun s hs _ => ⟨a, rfl, h s hs⟩

theorem triple_bind {m : Routine σ ω ε α} {f : α → Routine σ ω ε β}
    {Q : α → σ → Prop} {R : β → σ → Prop} (hm : Triple allowed P m Q)
    (hf : ∀ a, Triple allowed (Q a) (f a) R) : Triple allowed P (m >>= f) R := by
  intro s hs hlog
  change ∀ w ∈ (Routine.bind m f s).log, allowed w at hlog
  change ∃ b, (Routine.bind m f s).result = .ok b ∧ R b (Routine.bind m f s).state
  unfold Routine.bind at hlog ⊢
  have hfirst := hm s hs
  rcases hrun : m s with ⟨result, s', log⟩
  rw [hrun] at hlog hfirst
  cases result with
  | error e =>
      obtain ⟨a, ha, -⟩ := hfirst hlog
      cases ha
  | ok a =>
      simp only [List.mem_append] at hlog
      obtain ⟨a', ha, hQ⟩ := hfirst fun w hw => hlog w (.inl hw)
      obtain rfl : a = a' := Except.ok.inj ha
      exact hf a s' hQ fun w hw => hlog w (.inr hw)

/-- What is known of an operation, from the log of all that follows it. -/
theorem Triple.of_bind {m : Routine σ ω ε α} {f : α → Routine σ ω ε β} {Q : σ → Prop} {s : σ}
    (h : Triple allowed (· = s) m fun _ => Q) (hlog : ∀ w ∈ ((m >>= f) s).log, allowed w) :
    Q (m s).state := by
  obtain ⟨-, -, hQ⟩ := h s rfl fun w hw => hlog w (mem_log_bind f hw)
  exact hQ

theorem Triple.consequence {m : Routine σ ω ε α} {Q Q' : α → σ → Prop}
    (h : Triple allowed P m Q) (hpre : ∀ s, P' s → P s) (hpost : ∀ a s, Q a s → Q' a s) :
    Triple allowed P' m Q' := by
  intro s hs hlog
  obtain ⟨a, hresult, hQ⟩ := h s (hpre s hs) hlog
  exact ⟨a, hresult, hpost a _ hQ⟩

theorem Triple.weaken {m : Routine σ ω ε α} {Q Q' : α → σ → Prop}
    (h : Triple allowed P m Q) (hpost : ∀ a s, Q a s → Q' a s) : Triple allowed P m Q' :=
  h.consequence (fun _ hs => hs) hpost

/-- A run that starts in a known state ends in a known state. -/
theorem Triple.reached {m : Routine σ ω ε α} {Q : α → σ → Prop} {s : σ}
    (h : Triple allowed (· = s) m Q) :
    Triple allowed (· = s) m fun a s' => Q a (m s).state ∧ s' = (m s).state := by
  intro s' hs' hlog
  obtain ⟨a, hresult, hQ⟩ := h s' hs' hlog
  rw [hs'] at hresult hQ ⊢
  exact ⟨a, hresult, hQ, rfl⟩

/-- A precondition independent of the state may be assumed outright. -/
theorem triple_of_pure_pre {m : Routine σ ω ε α} {Q : α → σ → Prop} {φ : Prop}
    (h : φ → Triple allowed P m Q) : Triple allowed (fun s => φ ∧ P s) m Q :=
  fun s hs hlog => h hs.1 s hs.2 hlog

theorem triple_of_exists_pre {ι : Sort*} {R : ι → σ → Prop} {m : Routine σ ω ε α}
    {Q : α → σ → Prop} (h : ∀ i, Triple allowed (R i) m Q) :
    Triple allowed (fun s => ∃ i, R i s) m Q :=
  fun s ⟨i, hs⟩ hlog => h i s hs hlog

/-- A run may be followed from each state it can start in. -/
theorem triple_of_start {m : Routine σ ω ε α} {Q : α → σ → Prop}
    (h : ∀ s, P s → Triple allowed (· = s) m Q) : Triple allowed P m Q :=
  fun s hs => h s hs s rfl

theorem triple_read {Q : σ → σ → Prop} (h : ∀ s, P s → Q s s) :
    Triple (ε := ε) allowed P read Q :=
  fun s hs _ => ⟨s, rfl, h s hs⟩

/-- After reading the state, the rest of the computation starts in the very
state it was given. -/
theorem triple_read_bind {f : σ → Routine σ ω ε β} {Q : β → σ → Prop}
    (h : ∀ s, P s → Triple allowed (fun s' => s' = s) (f s) Q) :
    Triple allowed P (read >>= f) Q :=
  triple_bind (Q := fun a s => s = a ∧ P a) (triple_read fun _ hs => ⟨rfl, hs⟩) fun a s hs =>
    h a hs.2 s hs.1

theorem triple_modify {f : σ → σ} {Q : PUnit → σ → Prop} (h : ∀ s, P s → Q ⟨⟩ (f s)) :
    Triple (ε := ε) allowed P (modify f) Q :=
  fun s hs _ => ⟨⟨⟩, rfl, h s hs⟩

theorem triple_modify_eq (f : σ → σ) (s : σ) :
    Triple (ε := ε) allowed (· = s) (modify f) fun _ s' => s' = f s :=
  triple_modify fun _ hs => by rw [hs]

theorem triple_emit {w : ω} {Q : PUnit → σ → Prop} (h : allowed w → ∀ s, P s → Q ⟨⟩ s) :
    Triple (ε := ε) allowed P (emit w) Q :=
  fun s hs hlog => ⟨⟨⟩, rfl, h (hlog w (by simp [emit])) s hs⟩

theorem triple_liftExcept {r : Except ε α} {a : α} {Q : α → σ → Prop} (hr : r = .ok a)
    (h : ∀ s, P s → Q a s) : Triple allowed P (liftExcept r) Q :=
  fun s hs _ => ⟨a, hr, h s hs⟩

/-! ## What a run logs -/

/-- Every event is allowed, whether the computation returns or stops with an error. -/
def LogsOnly (allowed : ω → Prop) (m : Routine σ ω ε α) : Prop :=
  ∀ s, ∀ w ∈ (m s).log, allowed w

theorem logsOnly_pure (a : α) : LogsOnly allowed (pure a : Routine σ ω ε α) :=
  fun _ _ hw => absurd hw List.not_mem_nil

theorem logsOnly_fail (e : ε) : LogsOnly allowed (fail e : Routine σ ω ε α) :=
  fun _ _ hw => absurd hw List.not_mem_nil

theorem logsOnly_liftExcept (r : Except ε α) :
    LogsOnly allowed (liftExcept r : Routine σ ω ε α) :=
  fun _ _ hw => absurd hw List.not_mem_nil

theorem logsOnly_read : LogsOnly allowed (read : Routine σ ω ε σ) :=
  fun _ _ hw => absurd hw List.not_mem_nil

theorem logsOnly_modify (f : σ → σ) : LogsOnly allowed (modify f : Routine σ ω ε PUnit) :=
  fun _ _ hw => absurd hw List.not_mem_nil

theorem logsOnly_emit {w : ω} (h : allowed w) :
    LogsOnly allowed (emit w : Routine σ ω ε PUnit) := by
  intro _ w' hw
  obtain rfl := List.mem_singleton.mp hw
  exact h

theorem logsOnly_bind {m : Routine σ ω ε α} {f : α → Routine σ ω ε β}
    (hm : LogsOnly allowed m) (hf : ∀ a, LogsOnly allowed (f a)) :
    LogsOnly allowed (m >>= f) := by
  intro s w hw
  have hfirst := hm s w
  rw [bind_apply, Routine.bind] at hw
  rcases hrun : m s with ⟨result, s', log⟩
  rw [hrun] at hw hfirst
  cases result with
  | error e => exact hfirst hw
  | ok a => exact (List.mem_append.mp hw).elim hfirst (hf a s' w)

/-! ## Failure relative to allowed events -/

/-- Started in a state satisfying `P`, the computation does not return, as long as every event
it logs is allowed. -/
def Fails (allowed : ω → Prop) (P : σ → Prop) (m : Routine σ ω ε α) : Prop :=
  ∀ s, P s → (∀ w ∈ (m s).log, allowed w) → ∀ a, (m s).result ≠ .ok a

theorem log_bind_of_ok {m : Routine σ ω ε α} {s : σ} {a : α} (h : (m s).result = .ok a)
    (f : α → Routine σ ω ε β) : ((m >>= f) s).log = (m s).log ++ (f a (m s).state).log := by
  rw [bind_apply, Routine.bind]
  rcases hrun : m s with ⟨result, s', log⟩
  rw [hrun] at h
  cases h
  rfl

theorem fails_fail (e : ε) : Fails allowed P (fail e : Routine σ ω ε α) :=
  fun _ _ _ _ h => by cases h

theorem fails_bind {m : Routine σ ω ε α} {f : α → Routine σ ω ε β} {Q : α → σ → Prop}
    (hm : Triple allowed P m Q) (hf : ∀ a, Fails allowed (Q a) (f a)) :
    Fails allowed P (m >>= f) := by
  intro s hs hlog b hresult
  obtain ⟨a, ha, hb, -⟩ := exists_of_bind_ok hresult
  rw [log_bind_of_ok ha] at hlog
  obtain ⟨a', ha', hQ⟩ := hm s hs fun w hw => hlog w (List.mem_append_left _ hw)
  obtain rfl : a' = a := Except.ok.inj (ha'.symm.trans ha)
  exact hf a' _ hQ (fun w hw => hlog w (List.mem_append_right _ hw)) b hb

/-- Whatever comes before, the rest does not return. -/
theorem fails_bind_right {m : Routine σ ω ε α} {f : α → Routine σ ω ε β}
    (hf : ∀ a, Fails allowed (fun _ => True) (f a)) : Fails allowed P (m >>= f) := by
  intro s _ hlog b hresult
  obtain ⟨a, ha, hb, -⟩ := exists_of_bind_ok hresult
  rw [log_bind_of_ok ha] at hlog
  exact hf a _ trivial (fun w hw => hlog w (List.mem_append_right _ hw)) b hb

theorem fails_bind_left {m : Routine σ ω ε α} (hm : Fails allowed P m)
    (f : α → Routine σ ω ε β) : Fails allowed P (m >>= f) := by
  intro s hs hlog b hresult
  obtain ⟨a, ha, -⟩ := exists_of_bind_ok hresult
  exact hm s hs (fun w hw => hlog w (mem_log_bind f hw)) a ha

theorem Fails.consequence {m : Routine σ ω ε α} (h : Fails allowed P m)
    (hpre : ∀ s, P' s → P s) : Fails allowed P' m :=
  fun s hs hlog => h s (hpre s hs) hlog

theorem fails_of_pure_pre {m : Routine σ ω ε α} {φ : Prop} (h : φ → Fails allowed P m) :
    Fails allowed (fun s => φ ∧ P s) m :=
  fun s hs hlog => h hs.1 s hs.2 hlog

theorem fails_read_bind {f : σ → Routine σ ω ε β}
    (h : ∀ s, P s → Fails allowed (fun s' => s' = s) (f s)) : Fails allowed P (read >>= f) :=
  fails_bind (Q := fun a s => s = a ∧ P a) (triple_read fun _ hs => ⟨rfl, hs⟩) fun a s hs =>
    h a hs.2 s hs.1

end Routine

end WasixEth
