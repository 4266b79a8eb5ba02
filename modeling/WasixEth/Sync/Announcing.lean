import Mathlib.Data.Finset.Insert
import Mathlib.Data.List.Induction
import WasixEth.Types

/-! # Announcements

Peers announce hashes of transactions and of blocks. The sync controller asks the peer for what
it does not have and remembers in two sets what was announced before. What becomes of a request
shows in one of the sets only.
-/

namespace WasixEth.SyncController

/-! ## The handlers -/

/-- What the controller finds around it at one moment: a session with a peer, a transaction in
the mempool or in storage, a block that is known. -/
structure Surroundings where
  session : Nat → Bool
  pooled : B256 → Bool
  stored : B256 → Bool
  hasBlock : B256 → Bool

structure SeenSets where
  blocks : Finset B256
  txs : Finset B256

/-- The loop over announced hashes: those to download, and the set of those seen. -/
def selectHashes (around : Surroundings) : List B256 → Finset B256 → List B256 × Finset B256
  | [], seen => ([], seen)
  | hash :: rest, seen =>
      if around.pooled hash then selectHashes around rest seen
      else if around.stored hash then selectHashes around rest seen
      else if hash ∈ seen then selectHashes around rest seen
      else
        let (hashes, seen) := selectHashes around rest (insert hash seen)
        (hash :: hashes, seen)

/-- What goes out to the peer. -/
def downloadPooledTransactions (around : Surroundings) (peer : Nat) (hashes : List B256) :
    List B256 :=
  if around.session peer then hashes else []

/-- `handle_announced_pooled_transactions` up to the answer. An answer, whether it is an error or
a list of transactions, is not compared with the set. -/
def handleAnnouncedPooledTransactions (around : Surroundings) (seen : SeenSets) (peer : Nat)
    (hashes : List B256) : List B256 × SeenSets :=
  if around.session peer then
    let (chosen, txs) := selectHashes around hashes seen.txs
    (downloadPooledTransactions around peer chosen, { seen with txs })
  else ([], seen)

/-- Take a block whose download has failed out of the set. -/
def forgetBlock (seen : SeenSets) (hash : B256) : SeenSets :=
  { seen with blocks := seen.blocks.erase hash }

/-- One turn of the loop of `handle_announced_block_hashes`, up to the answer, with whether the
peer was asked. A download without a session fails at once. -/
def announceBlock (around : Surroundings) (seen : SeenSets) (peer : Nat) (hash : B256) :
    Bool × SeenSets :=
  if hash ∈ seen.blocks then (false, seen)
  else
    let seen := { seen with blocks := insert hash seen.blocks }
    if around.hasBlock hash then (false, seen)
    else if around.session peer then (true, seen)
    else (false, forgetBlock seen hash)

/-- The rest of the turn. A block that was downloaded is processed, whatever comes of it. -/
def blockDownloaded (seen : SeenSets) (hash : B256) : Option Block → SeenSets
  | some _ => seen
  | none => forgetBlock seen hash

/-! ## Runs -/

/-- The controller, with the requests that have no answer yet. -/
structure SyncState where
  around : Surroundings
  seen : SeenSets
  requestedTxs : List B256
  requestedBlocks : List B256

def SyncState.initial (around : Surroundings) : SyncState := ⟨around, ⟨∅, ∅⟩, [], []⟩

/-- What happens between two points where a handler waits. Handlers run side by side, and what is
around them changes as it will. -/
inductive Event where
  | transactionsAnnounced (peer : Nat) (hashes : List B256)
  | transactionsAnswered (hashes : List B256)
  | blockAnnounced (peer : Nat) (hash : B256)
  | blockAnswered (hash : B256) (answer : Option Block)
  | elsewhere (around : Surroundings)

def SyncState.step (s : SyncState) : Event → SyncState
  | .transactionsAnnounced peer hashes =>
      let (requested, seen) := handleAnnouncedPooledTransactions s.around s.seen peer hashes
      { s with seen, requestedTxs := requested ++ s.requestedTxs }
  | .transactionsAnswered hashes =>
      { s with requestedTxs := s.requestedTxs.filter (· ∉ hashes) }
  | .blockAnnounced peer hash =>
      let (requested, seen) := announceBlock s.around s.seen peer hash
      { s with seen, requestedBlocks := if requested then hash :: s.requestedBlocks
        else s.requestedBlocks }
  | .blockAnswered hash answer =>
      if hash ∈ s.requestedBlocks then
        { s with seen := blockDownloaded s.seen hash answer
                 requestedBlocks := s.requestedBlocks.erase hash }
      else s
  | .elsewhere around => { s with around }

def SyncState.run (s : SyncState) (events : List Event) : SyncState := events.foldl SyncState.step s

/-- The events of a run, each with the state it comes in. -/
def trace (s : SyncState) : List Event → List (SyncState × Event)
  | [] => []
  | event :: rest => (s, event) :: trace (s.step event) rest

/-! ## What is missing and what is asked for -/

inductive Item where
  | transaction (hash : B256)
  | block (hash : B256)
  deriving DecidableEq

/-- A connected peer announces what is not there, and no request for it is in flight. -/
def Missing (item : Item) : SyncState × Event → Prop
  | (s, .transactionsAnnounced peer hashes) => ∃ hash ∈ hashes, item = .transaction hash ∧
      s.around.session peer ∧ ¬ s.around.pooled hash ∧ ¬ s.around.stored hash ∧
      hash ∉ s.requestedTxs
  | (s, .blockAnnounced peer hash) => item = .block hash ∧ s.around.session peer ∧
      ¬ s.around.hasBlock hash ∧ hash ∉ s.requestedBlocks
  | _ => False

/-- A download is issued. -/
def Requests (item : Item) : SyncState × Event → Prop
  | (s, .transactionsAnnounced peer hashes) =>
      ∃ hash ∈ (handleAnnouncedPooledTransactions s.around s.seen peer hashes).1,
        item = .transaction hash
  | (s, .blockAnnounced peer hash) =>
      item = .block hash ∧ (announceBlock s.around s.seen peer hash).1
  | _ => False

/-- Whatever is missing is asked for. -/
def Serves (entry : SyncState × Event) : Prop := ∀ item, Missing item entry → Requests item entry

/-- An announcement that leaves its mark: of a transaction that is not there, by a connected
peer, or of a block that is known or announced by a connected peer. -/
def Marks (item : Item) : SyncState × Event → Prop
  | (s, .transactionsAnnounced peer hashes) => ∃ hash ∈ hashes, item = .transaction hash ∧
      s.around.session peer ∧ ¬ s.around.pooled hash ∧ ¬ s.around.stored hash
  | (s, .blockAnnounced peer hash) =>
      item = .block hash ∧ (s.around.hasBlock hash ∨ s.around.session peer)
  | _ => False

/-- A download of a block has failed. -/
def Releases (item : Item) : SyncState × Event → Prop
  | (s, .blockAnswered hash answer) =>
      item = .block hash ∧ hash ∈ s.requestedBlocks ∧ answer = none
  | _ => False

/-- It was announced, and no download of it has failed since. -/
def MarkedBefore (item : Item) (entries : List (SyncState × Event)) : Prop :=
  ∃ before entry after, entries = before ++ entry :: after ∧ Marks item entry ∧
    ∀ later ∈ after, ¬ Releases item later

/-- Nothing is missing again after it was announced, unless its download has failed. -/
def NeverMissedAgain (entries : List (SyncState × Event)) : Prop :=
  ∀ before entry after item, entries = before ++ entry :: after → Missing item entry →
    ¬ MarkedBefore item before

/-! ## The sets hold what was announced -/

variable {around : Surroundings} {item : Item}

theorem mem_selectHashes {hashes : List B256} {seen : Finset B256} {hash : B256} :
    (hash ∈ (selectHashes around hashes seen).1 ↔
      hash ∉ seen ∧ hash ∈ hashes ∧ ¬ around.pooled hash ∧ ¬ around.stored hash) ∧
    (hash ∈ (selectHashes around hashes seen).2 ↔
      hash ∈ seen ∨ hash ∈ hashes ∧ ¬ around.pooled hash ∧ ¬ around.stored hash) := by
  induction hashes generalizing seen with
  | nil => simp [selectHashes]
  | cons first rest ih =>
      unfold selectHashes
      by_cases hpooled : around.pooled first = true
      · rw [if_pos hpooled, ih.1, ih.2]
        have hskip : hash = first → ¬ (¬ around.pooled hash ∧ ¬ around.stored hash) := by
          rintro rfl ⟨hnot, -⟩
          exact hnot hpooled
        rw [List.mem_cons]
        tauto
      · rw [if_neg hpooled]
        by_cases hstored : around.stored first = true
        · rw [if_pos hstored, ih.1, ih.2]
          have hskip : hash = first → ¬ (¬ around.pooled hash ∧ ¬ around.stored hash) := by
            rintro rfl ⟨-, hnot⟩
            exact hnot hstored
          rw [List.mem_cons]
          tauto
        · rw [if_neg hstored]
          by_cases hseen : first ∈ seen
          · rw [if_pos hseen, ih.1, ih.2]
            have hskip : hash = first → hash ∈ seen := fun heq => heq ▸ hseen
            rw [List.mem_cons]
            tauto
          · rw [if_neg hseen]
            dsimp only
            rw [List.mem_cons, ih.1, ih.2, Finset.mem_insert, List.mem_cons]
            have hfirst : hash = first →
                hash ∉ seen ∧ ¬ around.pooled hash ∧ ¬ around.stored hash := by
              rintro rfl
              exact ⟨hseen, hpooled, hstored⟩
            tauto

theorem mem_handleAnnouncedPooledTransactions (around : Surroundings) (seen : SeenSets)
    (peer : Nat) (hashes : List B256) (hash : B256) :
    (hash ∈ (handleAnnouncedPooledTransactions around seen peer hashes).1 ↔
      around.session peer ∧ hash ∉ seen.txs ∧ hash ∈ hashes ∧ ¬ around.pooled hash ∧
        ¬ around.stored hash) ∧
    (hash ∈ (handleAnnouncedPooledTransactions around seen peer hashes).2.txs ↔
      hash ∈ seen.txs ∨ hash ∈ hashes ∧ around.session peer ∧ ¬ around.pooled hash ∧
        ¬ around.stored hash) ∧
    (handleAnnouncedPooledTransactions around seen peer hashes).2.blocks = seen.blocks := by
  unfold handleAnnouncedPooledTransactions downloadPooledTransactions
  by_cases hsession : around.session peer = true
  · simp only [hsession, if_true, mem_selectHashes.1, mem_selectHashes.2, true_and, and_true]
  · simp [hsession]

theorem mem_announceBlock (around : Surroundings) (seen : SeenSets) (peer : Nat)
    (hash other : B256) :
    ((announceBlock around seen peer hash).1 = true ↔
      hash ∉ seen.blocks ∧ ¬ around.hasBlock hash ∧ around.session peer) ∧
    (other ∈ (announceBlock around seen peer hash).2.blocks ↔
      other ∈ seen.blocks ∨ other = hash ∧ (around.hasBlock hash ∨ around.session peer)) ∧
    (announceBlock around seen peer hash).2.txs = seen.txs := by
  unfold announceBlock
  by_cases hseen : hash ∈ seen.blocks
  · have hsame : other = hash → other ∈ seen.blocks := fun heq => heq ▸ hseen
    simp only [hseen, if_true]
    tauto
  · by_cases hknown : around.hasBlock hash = true
    · simp [hseen, hknown, or_comm]
    · by_cases hsession : around.session peer = true
      · simp [hseen, hknown, hsession, or_comm]
      · -- without a session the hash is put in and taken out again
        have herase : (insert hash seen.blocks).erase hash = seen.blocks :=
          Finset.erase_insert hseen
        simp [hseen, hknown, hsession, forgetBlock, herase]

/-- The sets hold an item. -/
def SyncState.Seen (s : SyncState) : Item → Prop
  | .transaction hash => hash ∈ s.seen.txs
  | .block hash => hash ∈ s.seen.blocks

/-- One event puts in what it marks and takes out what it releases. -/
theorem seen_step (s : SyncState) (event : Event) (item : Item) :
    (s.step event).Seen item ↔
      Marks item (s, event) ∨ s.Seen item ∧ ¬ Releases item (s, event) := by
  cases event with
  | transactionsAnnounced peer hashes =>
      cases item with
      | transaction hash =>
          obtain ⟨-, hseen, -⟩ :=
            mem_handleAnnouncedPooledTransactions s.around s.seen peer hashes hash
          have hstep : (s.step (.transactionsAnnounced peer hashes)).Seen (.transaction hash) ↔
              _ := hseen
          rw [hstep]
          simp [SyncState.Seen, Marks, Releases, or_comm]
      | block hash =>
          obtain ⟨-, -, hblocks⟩ :=
            mem_handleAnnouncedPooledTransactions s.around s.seen peer hashes hash
          have hstep : (s.step (.transactionsAnnounced peer hashes)).seen.blocks = _ := hblocks
          simp [SyncState.Seen, Marks, Releases, hstep]
  | transactionsAnswered hashes =>
      cases item <;> simp [SyncState.step, SyncState.Seen, Marks, Releases]
  | blockAnnounced peer hash =>
      cases item with
      | transaction other =>
          obtain ⟨-, -, htxs⟩ := mem_announceBlock s.around s.seen peer hash other
          have hstep : (s.step (.blockAnnounced peer hash)).seen.txs = _ := htxs
          simp [SyncState.Seen, Marks, Releases, hstep]
      | block other =>
          obtain ⟨-, hseen, -⟩ := mem_announceBlock s.around s.seen peer hash other
          have hstep : (s.step (.blockAnnounced peer hash)).Seen (.block other) ↔ _ := hseen
          rw [hstep]
          simp [SyncState.Seen, Marks, Releases, or_comm]
  | blockAnswered hash answer =>
      unfold SyncState.step
      by_cases hrequested : hash ∈ s.requestedBlocks
      · cases answer with
        | some block => cases item <;>
            simp [hrequested, blockDownloaded, SyncState.Seen, Marks, Releases]
        | none =>
            cases item with
            | transaction other =>
                simp [hrequested, blockDownloaded, forgetBlock, SyncState.Seen, Marks, Releases]
            | block other =>
                simp [hrequested, blockDownloaded, forgetBlock, SyncState.Seen, Marks, Releases,
                  and_comm]
      · cases item <;> simp [hrequested, SyncState.Seen, Marks, Releases]
  | elsewhere around => cases item <;> simp [SyncState.step, SyncState.Seen, Marks, Releases]

/-! ## Runs -/

theorem trace_append (s : SyncState) (events events' : List Event) :
    trace s (events ++ events') = trace s events ++ trace (s.run events) events' := by
  induction events generalizing s with
  | nil => rfl
  | cons event rest ih => exact congrArg _ (ih (s.step event))

theorem markedBefore_append_singleton {entries : List (SyncState × Event)}
    {entry : SyncState × Event} :
    MarkedBefore item (entries ++ [entry]) ↔
      Marks item entry ∨ MarkedBefore item entries ∧ ¬ Releases item entry := by
  constructor
  · rintro ⟨before, marked, after, hsplit, hmarks, hlater⟩
    rcases List.eq_nil_or_concat after with rfl | ⟨after, last, rfl⟩
    · obtain ⟨-, hlast⟩ := List.append_inj' hsplit rfl
      obtain rfl : entry = marked := by simpa using hlast
      exact .inl hmarks
    · rw [List.concat_eq_append, ← List.cons_append, ← List.append_assoc] at hsplit
      obtain ⟨rfl, hlast⟩ := List.append_inj' hsplit rfl
      obtain rfl : entry = last := by simpa using hlast
      refine .inr ⟨⟨before, marked, after, rfl, hmarks, fun later hmem => hlater later ?_⟩,
        hlater entry ?_⟩ <;> simp [*]
  · rintro (hmarks | ⟨⟨before, marked, after, rfl, hmarks, hlater⟩, hnot⟩)
    · exact ⟨entries, entry, [], rfl, hmarks, by simp⟩
    · refine ⟨before, marked, after ++ [entry], by simp, hmarks, fun later hmem => ?_⟩
      rcases List.mem_append.mp hmem with hmem | hmem
      · exact hlater later hmem
      · rwa [List.mem_singleton.mp hmem]

/-- After a run the sets hold what was announced and not released since. -/
theorem seen_run_iff (around : Surroundings) (events : List Event) (item : Item) :
    ((SyncState.initial around).run events).Seen item ↔
      MarkedBefore item (trace (.initial around) events) := by
  induction events using List.reverseRecOn with
  | nil =>
      have hempty : ¬ MarkedBefore item [] := by
        rintro ⟨before, entry, after, hsplit, -⟩
        simp at hsplit
      refine iff_of_false ?_ hempty
      cases item <;> exact Finset.notMem_empty _
  | append_singleton events event ih =>
      rw [trace_append]
      change _ ↔ MarkedBefore item (_ ++ [((SyncState.initial around).run events, event)])
      rw [markedBefore_append_singleton, ← ih, ← seen_step]
      unfold SyncState.run
      rw [List.foldl_append]
      rfl

/-- What is missing is asked for if it is not in the sets. -/
theorem requests_iff {s : SyncState} {event : Event} (hmissing : Missing item (s, event)) :
    Requests item (s, event) ↔ ¬ s.Seen item := by
  cases event with
  | transactionsAnnounced peer hashes =>
      obtain ⟨hash, hmem, rfl, hsession, hpooled, hstored, -⟩ := hmissing
      obtain ⟨hrequested, -⟩ :=
        mem_handleAnnouncedPooledTransactions s.around s.seen peer hashes hash
      have hiff : Requests (.transaction hash) (s, .transactionsAnnounced peer hashes) ↔
          hash ∈ (handleAnnouncedPooledTransactions s.around s.seen peer hashes).1 := by
        simp [Requests]
      rw [hiff, hrequested]
      exact ⟨fun h => h.2.1, fun h => ⟨hsession, h, hmem, hpooled, hstored⟩⟩
  | blockAnnounced peer hash =>
      obtain ⟨rfl, hsession, hknown, -⟩ := hmissing
      obtain ⟨hrequested, -⟩ := mem_announceBlock s.around s.seen peer hash hash
      have hiff : Requests (.block hash) (s, .blockAnnounced peer hash) ↔
          (announceBlock s.around s.seen peer hash).1 = true := by
        simp [Requests]
      rw [hiff, hrequested]
      exact ⟨fun h => h.1, fun h => ⟨h, hknown, hsession⟩⟩
  | transactionsAnswered hashes => cases hmissing
  | blockAnswered hash answer => cases hmissing
  | elsewhere around => cases hmissing

theorem trace_split {s : SyncState} {events : List Event}
    {before after : List (SyncState × Event)} {entry : SyncState × Event}
    (h : trace s events = before ++ entry :: after) :
    ∃ earlier, before = trace s earlier ∧ entry.1 = s.run earlier := by
  induction before generalizing s events with
  | nil =>
      cases events with
      | nil => cases h
      | cons event rest =>
          obtain ⟨rfl, -⟩ := List.cons.inj h
          exact ⟨[], rfl, rfl⟩
  | cons first before ih =>
      cases events with
      | nil => cases h
      | cons event rest =>
          obtain ⟨rfl, hrest⟩ := List.cons.inj h
          obtain ⟨earlier, rfl, hentry⟩ := ih hrest
          exact ⟨event :: earlier, rfl, hentry⟩

/-- A run serves every announcement if and only if nothing is missing again after it was
announced. -/
theorem serves_iff_neverMissedAgain (around : Surroundings) (events : List Event) :
    (∀ entry ∈ trace (.initial around) events, Serves entry) ↔
      NeverMissedAgain (trace (.initial around) events) := by
  constructor
  · intro hserves before entry after item hsplit hmissing hmarked
    have hrequests := hserves entry (by simp [hsplit]) item hmissing
    obtain ⟨earlier, rfl, hentry⟩ := trace_split hsplit
    rw [← seen_run_iff, ← hentry] at hmarked
    exact (requests_iff hmissing).mp hrequests hmarked
  · intro hnever entry hmem item hmissing
    obtain ⟨before, after, hsplit⟩ := List.append_of_mem hmem
    obtain ⟨earlier, rfl, hentry⟩ := trace_split hsplit
    refine (requests_iff hmissing).mpr fun hseen => ?_
    rw [hentry, seen_run_iff] at hseen
    exact hnever _ entry after item hsplit hmissing hseen

/-! ## Two hashes that are lost -/

/-- Peers are connected and nothing is there. -/
def bareSurroundings : Surroundings :=
  ⟨fun _ => true, fun _ => false, fun _ => false, fun _ => false⟩

/-- A request for a transaction fails, and a block is downloaded that is not imported. -/
def lostRun : List Event :=
  [.transactionsAnnounced 1 [B256.ofNat 1], .transactionsAnswered [B256.ofNat 1],
    .blockAnnounced 1 (B256.ofNat 2), .blockAnswered (B256.ofNat 2) (some default)]

/-- Neither is asked for again. -/
theorem lostRun_not_served :
    (¬ ∀ entry ∈ trace (.initial bareSurroundings)
      (lostRun ++ [.transactionsAnnounced 2 [B256.ofNat 1]]), Serves entry) ∧
    ¬ ∀ entry ∈ trace (.initial bareSurroundings)
      (lostRun ++ [.blockAnnounced 2 (B256.ofNat 2)]), Serves entry := by
  have hlast : ∀ event, (((SyncState.initial bareSurroundings).run lostRun, event) ∈
      trace (.initial bareSurroundings) (lostRun ++ [event])) := by
    intro event
    rw [trace_append]
    exact List.mem_append_right _ List.mem_cons_self
  constructor
  · intro h
    have hmissing : Missing (.transaction (B256.ofNat 1))
        ((SyncState.initial bareSurroundings).run lostRun,
          .transactionsAnnounced 2 [B256.ofNat 1]) :=
      ⟨B256.ofNat 1, List.mem_singleton_self _, rfl, by decide⟩
    obtain ⟨hash, hmem, -⟩ := h _ (hlast _) _ hmissing
    revert hmem
    have hnone : (handleAnnouncedPooledTransactions
        ((SyncState.initial bareSurroundings).run lostRun).around
        ((SyncState.initial bareSurroundings).run lostRun).seen 2 [B256.ofNat 1]).1 = [] := by
      decide
    simp [hnone]
  · intro h
    have hmissing : Missing (.block (B256.ofNat 2))
        ((SyncState.initial bareSurroundings).run lostRun, .blockAnnounced 2 (B256.ofNat 2)) :=
      ⟨rfl, by decide⟩
    obtain ⟨-, hasked⟩ := h _ (hlast _) _ hmissing
    revert hasked
    decide

end WasixEth.SyncController
