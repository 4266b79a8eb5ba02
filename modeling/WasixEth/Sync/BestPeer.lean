import Mathlib.Data.List.Perm.Basic
import Mathlib.Tactic.Common

/-! # The best peer

A sync asks the peer that reports the most. Difficulties come first and heights after them,
and a peer that reports no difficulty is compared by its height alone. What a peer is
compared with is the last one that was taken, so a peer without a difficulty may push out
the one with the highest, or be pushed out by it, whichever comes later.
-/

namespace WasixEth.Downloader

structure Status where
  totalDifficulty : Nat

structure Session where
  ethStatus : Option Status
  bestHeight : Nat

/-- The peers as they are while one of them is chosen. -/
structure Peers where
  activePeers : Except String (List String)
  getSession : String → Option Session

/-- What a peer reports, or the most that was reported so far. -/
@[ext] structure Report where
  td : Nat
  height : Nat
  deriving DecidableEq

/-- A peer without a status counts as one without a difficulty. -/
def Session.report (session : Session) : Report where
  td := ((session.ethStatus.map Status.totalDifficulty).getD 0)
  height := session.bestHeight

def isBetter (max report : Report) : Bool :=
  if max.td < report.td then true
  else if report.td = max.td ∧ 0 < report.td then max.height < report.height
  -- Heights alone are compared if the candidate has no difficulty, whether or not the other has.
  else if report.td = 0 then max.height < report.height
  else false

structure Choice where
  bestPeer : Option (String × Report)
  max : Report

def consider (getSession : String → Option Session) (choice : Choice) (peerId : String) :
    Choice :=
  match getSession peerId with
  | none => choice
  | some session =>
      if isBetter choice.max session.report then ⟨some (peerId, session.report), session.report⟩
      else choice

def getBestPeer (peers : Peers) : Option (String × Report) :=
  match peers.activePeers with
  | .error _ => none
  | .ok active => (active.foldl (consider peers.getSession) ⟨none, 0, 0⟩).bestPeer

/-! ## The order of reports -/

/-- Difficulties first, and heights where they are the same. -/
def Report.Below (report other : Report) : Prop :=
  report.td < other.td ∨ report.td = other.td ∧ report.height ≤ other.height

/-- The peer reports this much. -/
def Reports (getSession : String → Option Session) (peerId : String) (report : Report) : Prop :=
  ∃ session, getSession peerId = some session ∧ session.report = report

/-- None of the peers reports more. -/
structure Highest (getSession : String → Option Session) (active : List String)
    (best : Report) : Prop where
  reported : ∃ peerId ∈ active, Reports getSession peerId best
  below : ∀ peerId ∈ active, ∀ report, Reports getSession peerId report → report.Below best

/-- No peer without a difficulty is higher than the best of those that have one. -/
def Comparable (getSession : String → Option Session) (active : List String) : Prop :=
  ∀ best, Highest getSession active best → 0 < best.td →
    ∀ peerId ∈ active, ∀ report, Reports getSession peerId report → report.td = 0 →
      report.height ≤ best.height

section Choosing

variable {getSession : String → Option Session} {active : List String} {choice : Choice}
  {peerId : String} {report best : Report}

theorem below_or_below (report other : Report) : report.Below other ∨ other.Below report := by
  unfold Report.Below
  omega

theorem isBetter_iff {max : Report} : isBetter max report = true ↔
    max.td < report.td ∨ (report.td = max.td ∨ report.td = 0) ∧ max.height < report.height := by
  unfold isBetter
  split_ifs <;> simp <;> omega

theorem consider_of_reports (h : Reports getSession peerId report) :
    consider getSession choice peerId =
      if isBetter choice.max report then ⟨some (peerId, report), report⟩ else choice := by
  obtain ⟨session, hsession, rfl⟩ := h
  unfold consider
  rw [hsession]

theorem consider_of_none (h : getSession peerId = none) :
    consider getSession choice peerId = choice := by
  rw [consider, h]

theorem reports_or_none (getSession : String → Option Session) (peerId : String) :
    (∃ report, Reports getSession peerId report) ∨ getSession peerId = none := by
  cases hsession : getSession peerId with
  | none => exact .inr rfl
  | some session => exact .inl ⟨_, session, hsession, rfl⟩

theorem not_reports (h : getSession peerId = none) : ¬ Reports getSession peerId report := by
  rintro ⟨session, hsession, -⟩
  rw [h] at hsession
  cases hsession

/-! ## The choice and the most reported so far -/

/-- What was taken is what was reported, and it is more than nothing. -/
def Consistent (choice : Choice) : Prop :=
  choice.bestPeer.map Prod.snd = if choice.max = ⟨0, 0⟩ then none else some choice.max

theorem Consistent.consider (h : Consistent choice) (peerId : String) :
    Consistent (consider getSession choice peerId) := by
  obtain ⟨report, hreport⟩ | hnone := reports_or_none getSession peerId
  · rw [consider_of_reports hreport]
    split
    next hbetter =>
      have hpositive : report ≠ ⟨0, 0⟩ := by
        rintro rfl
        exact absurd (isBetter_iff.mp hbetter) (by simp)
      unfold Consistent
      rw [if_neg hpositive]
      rfl
    next => exact h
  · rw [consider_of_none hnone]
    exact h

theorem Consistent.foldl (h : Consistent choice) (active : List String) :
    Consistent (active.foldl (Downloader.consider getSession) choice) := by
  induction active generalizing choice with
  | nil => exact h
  | cons peerId active ih => exact ih (h.consider peerId)

/-- The most that was reported, as the loop leaves it. -/
def lastMax (getSession : String → Option Session) (active : List String) : Report :=
  (active.foldl (consider getSession) ⟨none, 0, 0⟩).max

theorem getBestPeer_report :
    (getBestPeer ⟨.ok active, getSession⟩).map Prod.snd =
      if lastMax getSession active = ⟨0, 0⟩ then none else some (lastMax getSession active) := by
  have hstart : Consistent ⟨none, 0, 0⟩ := rfl
  exact hstart.foldl active

theorem getBestPeer_report_eq_iff {other : List String} :
    (getBestPeer ⟨.ok active, getSession⟩).map Prod.snd =
        (getBestPeer ⟨.ok other, getSession⟩).map Prod.snd ↔
      lastMax getSession active = lastMax getSession other := by
  rw [getBestPeer_report, getBestPeer_report]
  split_ifs with hactive hother hother
  · simp [hactive, hother]
  · simp [hactive, Ne.symm hother]
  · simp [hactive, hother]
  · simp

/-! ## Runs of the loop -/

theorem max_consider (h : Reports getSession peerId report) :
    (consider getSession choice peerId).max =
      if isBetter choice.max report then report else choice.max := by
  rw [consider_of_reports h]
  split <;> rfl

theorem Reports.unique {other : Report} (h : Reports getSession peerId report)
    (hother : Reports getSession peerId other) : report = other := by
  obtain ⟨session, hsession, rfl⟩ := h
  obtain ⟨session', hsession', rfl⟩ := hother
  rw [hsession] at hsession'
  rw [Option.some.inj hsession']

/-- Nothing that is taken is more than what all reports are below. -/
theorem below_consider
    (hbelow : ∀ report, Reports getSession peerId report → report.Below best)
    (hmax : choice.max.Below best) : (consider getSession choice peerId).max.Below best := by
  obtain ⟨report, hreport⟩ | hnone := reports_or_none getSession peerId
  · rw [max_consider hreport]
    split
    · exact hbelow report hreport
    · exact hmax
  · rw [consider_of_none hnone]
    exact hmax

theorem below_foldl
    (hbelow : ∀ peerId ∈ active, ∀ report, Reports getSession peerId report → report.Below best)
    (hmax : choice.max.Below best) :
    (active.foldl (consider getSession) choice).max.Below best := by
  induction active generalizing choice with
  | nil => exact hmax
  | cons peerId active ih =>
      exact ih (fun other hmem => hbelow other (List.mem_cons_of_mem _ hmem))
        (below_consider (hbelow peerId List.mem_cons_self) hmax)

/-- Once the best peer was seen, it is what the next is compared with. -/
theorem max_consider_best (hreport : Reports getSession peerId best)
    (hmax : choice.max.Below best) : (consider getSession choice peerId).max = best := by
  rw [max_consider hreport]
  split
  · rfl
  next hnot =>
    have hnot := mt isBetter_iff.mpr hnot
    refine Report.ext ?_ ?_ <;> unfold Report.Below at hmax <;> omega

/-- The best peer gives way to no other, unless to one without a difficulty that is higher. -/
theorem max_consider_of_best
    (hbelow : ∀ report, Reports getSession peerId report → report.Below best)
    (hzero : ∀ report, Reports getSession peerId report → report.td = 0 →
      report.height ≤ best.height)
    (hmax : choice.max = best) : (consider getSession choice peerId).max = best := by
  obtain ⟨report, hreport⟩ | hnone := reports_or_none getSession peerId
  · rw [max_consider hreport, hmax]
    split
    next hbetter =>
      have hbetter := isBetter_iff.mp hbetter
      have hbelow := hbelow report hreport
      have hzero := hzero report hreport
      unfold Report.Below at hbelow
      omega
    next => rfl
  · rw [consider_of_none hnone]
    exact hmax

theorem max_foldl_of_best
    (hbelow : ∀ peerId ∈ active, ∀ report, Reports getSession peerId report → report.Below best)
    (hzero : ∀ peerId ∈ active, ∀ report, Reports getSession peerId report → report.td = 0 →
      report.height ≤ best.height)
    (hmax : choice.max = best) : (active.foldl (consider getSession) choice).max = best := by
  induction active generalizing choice with
  | nil => exact hmax
  | cons peerId active ih =>
      exact ih (fun other hmem => hbelow other (List.mem_cons_of_mem _ hmem))
        (fun other hmem => hzero other (List.mem_cons_of_mem _ hmem))
        (max_consider_of_best (hbelow peerId List.mem_cons_self) (hzero peerId List.mem_cons_self)
          hmax)

theorem max_foldl
    (hbest : ∃ peerId ∈ active, Reports getSession peerId best)
    (hbelow : ∀ peerId ∈ active, ∀ report, Reports getSession peerId report → report.Below best)
    (hzero : ∀ peerId ∈ active, ∀ report, Reports getSession peerId report → report.td = 0 →
      report.height ≤ best.height)
    (hmax : choice.max.Below best) : (active.foldl (consider getSession) choice).max = best := by
  obtain ⟨peerId, hmem, hreport⟩ := hbest
  obtain ⟨before, after, rfl⟩ := List.append_of_mem hmem
  have hbefore := below_foldl
    (fun other hother => hbelow other (List.mem_append_left _ hother)) hmax
  have hafter : ∀ other ∈ after, other ∈ before ++ peerId :: after := fun other hother =>
    List.mem_append_right _ (List.mem_cons_of_mem _ hother)
  rw [List.foldl_append, List.foldl_cons]
  exact max_foldl_of_best (fun other hother => hbelow other (hafter other hother))
    (fun other hother => hzero other (hafter other hother)) (max_consider_best hreport hbefore)

theorem zero_below (report : Report) : Report.Below ⟨0, 0⟩ report := by
  unfold Report.Below
  dsimp only
  omega

/-- With comparable reports, what the loop is left with is the highest of them. -/
theorem lastMax_of_comparable (hbest : Highest getSession active best)
    (hcomparable : Comparable getSession active) : lastMax getSession active = best := by
  refine max_foldl hbest.reported hbest.below ?_ (zero_below best)
  intro peerId hmem report hreport hzero
  by_cases hpositive : 0 < best.td
  · exact hcomparable best hbest hpositive peerId hmem report hreport hzero
  · have hbelow := hbest.below peerId hmem report hreport
    unfold Report.Below at hbelow
    omega

theorem Report.Below.trans {a b c : Report} (hab : a.Below b) (hbc : b.Below c) : a.Below c := by
  unfold Report.Below at *
  omega

theorem exists_highest (getSession : String → Option Session) (active : List String) :
    (∃ best, Highest getSession active best) ∨ ∀ peerId ∈ active, getSession peerId = none := by
  induction active with
  | nil => exact .inr fun _ hmem => absurd hmem List.not_mem_nil
  | cons peerId active ih =>
      obtain ⟨report, hreport⟩ | hnone := reports_or_none getSession peerId
      · have hself : report.Below report := (below_or_below report report).elim id id
        obtain ⟨best, ⟨other, hmem, hother⟩, hbelow⟩ | hrest := ih
        · obtain hle | hle := below_or_below report best
          · refine .inl ⟨best, ⟨other, List.mem_cons_of_mem _ hmem, hother⟩, ?_⟩
            refine List.forall_mem_cons.mpr ⟨fun reported hreported => ?_, hbelow⟩
            rw [hreported.unique hreport]
            exact hle
          · refine .inl ⟨report, ⟨peerId, List.mem_cons_self, hreport⟩, ?_⟩
            refine List.forall_mem_cons.mpr ⟨fun reported hreported => ?_,
              fun next hnext reported hreported => (hbelow next hnext reported hreported).trans hle⟩
            rw [hreported.unique hreport]
            exact hself
        · refine .inl ⟨report, ⟨peerId, List.mem_cons_self, hreport⟩, ?_⟩
          refine List.forall_mem_cons.mpr ⟨fun reported hreported => ?_,
            fun next hnext reported hreported => absurd hreported (not_reports (hrest next hnext))⟩
          rw [hreported.unique hreport]
          exact hself
      · obtain ⟨best, ⟨other, hmem, hother⟩, hbelow⟩ | hrest := ih
        · refine .inl ⟨best, ⟨other, List.mem_cons_of_mem _ hmem, hother⟩, ?_⟩
          exact List.forall_mem_cons.mpr
            ⟨fun reported hreported => absurd hreported (not_reports hnone), hbelow⟩
        · exact .inr (List.forall_mem_cons.mpr ⟨hnone, hrest⟩)

theorem lastMax_of_none (h : ∀ peerId ∈ active, getSession peerId = none) :
    lastMax getSession active = ⟨0, 0⟩ := by
  unfold lastMax
  induction active with
  | nil => rfl
  | cons peerId active ih =>
      rw [List.foldl_cons, consider_of_none (h peerId List.mem_cons_self)]
      exact ih fun other hmem => h other (List.mem_cons_of_mem _ hmem)

/-! ## Other orders -/

theorem Highest.perm {other : List String} (h : Highest getSession active best)
    (hperm : active.Perm other) : Highest getSession other best := by
  obtain ⟨⟨peerId, hmem, hreport⟩, hbelow⟩ := h
  exact ⟨⟨peerId, hperm.mem_iff.mp hmem, hreport⟩,
    fun next hnext => hbelow next (hperm.mem_iff.mpr hnext)⟩

theorem Comparable.perm {other : List String} (h : Comparable getSession active)
    (hperm : active.Perm other) : Comparable getSession other := by
  intro best hbest hpositive peerId hmem
  exact h best (hbest.perm hperm.symm) hpositive peerId (hperm.mem_iff.mpr hmem)

theorem lastMax_perm {other : List String} (h : Comparable getSession active)
    (hperm : active.Perm other) : lastMax getSession other = lastMax getSession active := by
  obtain ⟨best, hbest⟩ | hnone := exists_highest getSession active
  · rw [lastMax_of_comparable hbest h, lastMax_of_comparable (hbest.perm hperm) (h.perm hperm)]
  · rw [lastMax_of_none hnone,
      lastMax_of_none fun peerId hmem => hnone peerId (hperm.mem_iff.mpr hmem)]

/-- A peer without a difficulty and the best of those with one, as the last two. -/
theorem exists_order {first last : String} (hfirst : first ∈ active) (hlast : last ∈ active)
    (hne : first ≠ last) : ∃ rest, active.Perm (rest ++ [first, last]) := by
  have hmem : last ∈ active.erase first := (List.mem_erase_of_ne hne.symm).mpr hlast
  refine ⟨(active.erase first).erase last, ?_⟩
  have hperm := (List.perm_cons_erase hfirst).trans ((List.perm_cons_erase hmem).cons first)
  have hend : ([first, last] ++ (active.erase first).erase last).Perm
      ((active.erase first).erase last ++ [first, last]) := List.perm_append_comm
  exact hperm.trans hend

/-- Which of the two comes last decides. -/
theorem lastMax_ne_of_higher {zero : Report} {other : String}
    (hbest : Highest getSession active best) (hpositive : 0 < best.td)
    (hmem : peerId ∈ active) (hreport : Reports getSession peerId zero) (hzero : zero.td = 0)
    (hhigher : best.height < zero.height) (hother : other ∈ active)
    (hbestReport : Reports getSession other best) :
    ∃ left right, active.Perm left ∧ active.Perm right ∧
      lastMax getSession left ≠ lastMax getSession right := by
  have hne : peerId ≠ other := by
    intro heq
    rw [heq] at hreport
    rw [hreport.unique hbestReport] at hzero
    omega
  obtain ⟨rest, hleft⟩ := exists_order hmem hother hne
  have hswap : (rest ++ [peerId, other]).Perm (rest ++ [other, peerId]) :=
    (List.Perm.swap _ _ _).append_left rest
  refine ⟨_, _, hleft, hleft.trans hswap, ?_⟩
  have hrest : (rest.foldl (consider getSession) ⟨none, 0, 0⟩).max.Below best :=
    below_foldl (fun next hnext =>
      hbest.below next (hleft.mem_iff.mpr (List.mem_append_left _ hnext))) (zero_below best)
  -- The best peer at the end wins against whatever was taken before it.
  have hfirst : lastMax getSession (rest ++ [peerId, other]) = best := by
    rw [lastMax, List.foldl_append]
    exact max_consider_best hbestReport
      (below_consider (hbest.below peerId hmem) hrest)
  -- The higher peer at the end wins against the best one.
  have hsecond : lastMax getSession (rest ++ [other, peerId]) = zero := by
    rw [lastMax, List.foldl_append]
    change (consider getSession (consider getSession _ other) peerId).max = zero
    rw [max_consider hreport, max_consider_best hbestReport hrest,
      if_pos (isBetter_iff.mpr (.inr ⟨.inr hzero, hhigher⟩))]
  rw [hfirst, hsecond]
  rintro rfl
  omega

end Choosing

/-- The order of the peers makes no difference exactly if their reports are comparable. -/
theorem getBestPeer_perm_iff (getSession : String → Option Session) (active : List String) :
    (∀ other, active.Perm other →
        (getBestPeer ⟨.ok other, getSession⟩).map Prod.snd =
          (getBestPeer ⟨.ok active, getSession⟩).map Prod.snd) ↔
      Comparable getSession active := by
  constructor
  · intro hsame best hbest hpositive peerId hmem report hreport hzero
    by_contra hhigher
    obtain ⟨other, hother, hbestReport⟩ := hbest.reported
    obtain ⟨left, right, hleft, hright, hne⟩ := lastMax_ne_of_higher hbest hpositive hmem hreport
      hzero (Nat.not_le.mp hhigher) hother hbestReport
    exact hne (getBestPeer_report_eq_iff.mp ((hsame left hleft).trans (hsame right hright).symm))
  · intro hcomparable other hperm
    exact getBestPeer_report_eq_iff.mpr (lastMax_perm hcomparable hperm)

/-- One peer with a difficulty, and a higher one without. -/
def mixedSessions (peerId : String) : Option Session :=
  if peerId = "eth68" then some ⟨some ⟨5⟩, 10⟩
  else if peerId = "eth69" then some ⟨none, 20⟩
  else none

theorem getBestPeer_swapped :
    ¬ ∀ other, ["eth68", "eth69"].Perm other →
      (getBestPeer ⟨.ok other, mixedSessions⟩).map Prod.snd =
        (getBestPeer ⟨.ok ["eth68", "eth69"], mixedSessions⟩).map Prod.snd := by
  intro hsame
  have hswapped := hsame ["eth69", "eth68"] (List.Perm.swap _ _ _)
  revert hswapped
  decide

end WasixEth.Downloader
