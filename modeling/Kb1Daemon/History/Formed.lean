import Kb1Daemon.History.Queue

/-! # What every run does to a history

Every step of the queue changes the history by one of its operations, or not at all
(`HistoryQueue.changes_step`); what they all keep holds in every run
(`HistoryQueue.formed_run`).
-/

namespace Kb1Daemon

open JsString

/-- An entry as recording makes it: it is dated by its window, and someone made it. -/
structure PendingHistoryEntry.Formed (entry : PendingHistoryEntry) : Prop where
  dated : entry.createdAt = entry.bucketStart
  credited : entry.contributors ≠ []

theorem addContributor_ne_nil (contributors : List VaultActor) (actor : VaultActor) :
    addContributor contributors actor ≠ [] :=
  List.ne_nil_of_mem (mem_addContributor.mpr (.inr rfl))

namespace FileHistory

/-- A history as its operations make it. -/
structure Formed (history : FileHistory) : Prop where
  keyed : history.Keyed
  numbered : history.Numbered
  distinct : (history.commits.map HistoryCommit.commitId).Nodup
  counted : ∀ commit ∈ history.commits, commit.commitId < history.commits.length
  formed : ∀ entry ∈ history.entries, entry.Formed

/-- What a step of the queue does to the history. -/
inductive Changes (history : FileHistory) : FileHistory → Prop where
  | none : history.Changes history
  | record (input : RecordFileHistoryInput) : history.Changes (history.recordFileHistory input).1
  | move (input : RecordFileHistoryInput) (id : Nat) (toPath fromPath : JsString) :
      history.Changes ((history.recordFileHistory input).1.setFromPath id toPath fromPath)
  | commit (entry : PendingHistoryEntry) (member : entry ∈ history.pending) (committedAt : Nat) :
      history.Changes (history.commitPendingEntry entry committedAt)
  | commitFolder (fromPath toPath : JsString) (actor : VaultActor) (now committedAt : Nat)
      (touched : List JsString) :
      history.Changes (history.commitFolder (history.folderEntry fromPath toPath actor now)
        committedAt touched)

theorem formed_record {history : FileHistory} (formed : history.Formed)
    (input : RecordFileHistoryInput) : (history.recordFileHistory input).1.Formed where
  keyed := keyed_record formed.keyed input
  numbered := numbered_record formed.numbered input
  distinct := by
    rw [commits_record]
    exact formed.distinct
  counted := by
    rw [commits_record]
    exact formed.counted
  formed := by
    intro entry member
    unfold entries at member
    rw [commits_record] at member
    rcases List.mem_append.mp member with pending | committed
    · unfold recordFileHistory at pending
      dsimp only at pending
      split at pending
      · obtain ⟨old, listed, rfl⟩ := List.mem_map.mp pending
        have before := formed.formed old (List.mem_append_left _ listed)
        split
        · exact ⟨before.dated, addContributor_ne_nil _ _⟩
        · exact before
      · rcases List.mem_append.mp pending with old | new
        · exact formed.formed entry (List.mem_append_left _ old)
        · rw [List.mem_singleton.mp new]
          exact ⟨rfl, List.cons_ne_nil _ _⟩
    · exact formed.formed entry (List.mem_append_right _ committed)

theorem formed_setFromPath {history : FileHistory} (formed : history.Formed) (id : Nat)
    (toPath fromPath : JsString) : (history.setFromPath id toPath fromPath).Formed where
  keyed := keyed_setFromPath _ _ _ formed.keyed
  numbered := numbered_setFromPath _ _ _ formed.numbered
  distinct := formed.distinct
  counted := formed.counted
  formed := by
    intro entry member
    rcases List.mem_append.mp member with pending | committed
    · obtain ⟨old, listed, rfl⟩ := List.mem_map.mp pending
      have before := formed.formed old (List.mem_append_left _ listed)
      split
      · exact ⟨before.dated, before.credited⟩
      · exact before
    · exact formed.formed entry (List.mem_append_right _ committed)

/-- Another commit takes the next id. -/
theorem commitIds_cons {history : FileHistory} (formed : history.Formed) {commit : HistoryCommit}
    (next : commit.commitId = history.commits.length) :
    ((commit :: history.commits).map HistoryCommit.commitId).Nodup ∧
      ∀ other ∈ commit :: history.commits,
        other.commitId < (commit :: history.commits).length := by
  constructor
  · refine List.nodup_cons.mpr ⟨?_, formed.distinct⟩
    intro again
    obtain ⟨other, member, same⟩ := List.mem_map.mp again
    have below := formed.counted other member
    omega
  · intro other member
    rw [List.length_cons]
    rcases List.mem_cons.mp member with rfl | old
    · omega
    · exact Nat.lt_succ_of_lt (formed.counted other old)

theorem formed_commit {history : FileHistory} (formed : history.Formed)
    {entry : PendingHistoryEntry} (member : entry ∈ history.pending) (committedAt : Nat) :
    (history.commitPendingEntry entry committedAt).Formed where
  keyed := keyed_commit formed.keyed entry committedAt
  numbered := numbered_commit formed.numbered formed.keyed member committedAt
  distinct := (commitIds_cons formed rfl).1
  counted := (commitIds_cons formed rfl).2
  formed := fun other listed =>
    formed.formed other ((entries_commit formed.keyed member committedAt).mem_iff.mp listed)

theorem formed_commitFolder {history : FileHistory} (formed : history.Formed)
    (fromPath toPath : JsString) (actor : VaultActor) (now committedAt : Nat)
    (touched : List JsString) :
    (history.commitFolder (history.folderEntry fromPath toPath actor now)
      committedAt touched).Formed where
  keyed := formed.keyed
  numbered := numbered_commitFolder formed.numbered rfl committedAt touched
  distinct := (commitIds_cons formed rfl).1
  counted := (commitIds_cons formed rfl).2
  formed := by
    intro entry member
    have listed := List.perm_middle.mem_iff.mp member
    rcases List.mem_cons.mp listed with rfl | old
    · exact ⟨rfl, List.cons_ne_nil _ _⟩
    · exact formed.formed entry old

theorem Changes.formed {history next : FileHistory} (changes : history.Changes next)
    (formed : history.Formed) : next.Formed := by
  cases changes with
  | none => exact formed
  | record input => exact formed_record formed input
  | move input id toPath fromPath =>
      exact formed_setFromPath (formed_record formed input) id toPath fromPath
  | commit entry member committedAt => exact formed_commit formed member committedAt
  | commitFolder fromPath toPath actor now committedAt touched =>
      exact formed_commitFolder formed fromPath toPath actor now committedAt touched

end FileHistory

namespace HistoryQueue

/-- Every step of a sound queue changes the history in one of a few ways. -/
theorem changes_step {historyCoalesceWindowMs : Nat} {queue next : HistoryQueue}
    {label : HistoryLabel} (sound : queue.Sound)
    (stepped : (historyMachine historyCoalesceWindowMs).step queue label = some next) :
    queue.history.Changes next.history := by
  cases label with
  | enqueueHistoryMutation work =>
      obtain rfl := Option.some.inj stepped
      exact .none
  | begin now =>
      simp only [historyMachine] at stepped
      split at stepped
      · rename_i work rest idle waiting
        obtain rfl := Option.some.inj stepped
        rw [(start_same historyCoalesceWindowMs { queue with queue := rest } work now).1]
        exact .none
      · cases stepped
  | read content now =>
      simp only [historyMachine] at stepped
      split at stepped
      · obtain rfl := Option.some.inj stepped
        exact .none
      · split at stepped <;> obtain rfl := Option.some.inj stepped <;> exact .none
      · cases stepped
  | hashed =>
      simp only [historyMachine] at stepped
      split at stepped
      · rename_i input fromPath running
        obtain rfl := Option.some.inj stepped
        cases fromPath with
        | none => exact .record input
        | some fromPath => exact .move input _ input.path fromPath
      · cases stepped
  | committed committedAt =>
      simp only [historyMachine] at stepped
      split at stepped
      · rename_i entry rest running
        obtain rfl := Option.some.inj stepped
        exact .commit entry ((sound.selected _ running).1 entry List.mem_cons_self) committedAt
      · cases stepped
  | committedFolder committedAt touched =>
      simp only [historyMachine] at stepped
      split at stepped
      · rename_i fromPath toPath actor running
        obtain rfl := Option.some.inj stepped
        exact .commitFolder fromPath toPath actor committedAt committedAt touched
      · cases stepped
  | failed =>
      simp only [historyMachine] at stepped
      split at stepped
      · obtain rfl := Option.some.inj stepped
        exact .none
      · obtain rfl := Option.some.inj stepped
        exact .none
      · cases stepped

theorem formed_new : new.history.Formed where
  keyed := List.nodup_nil
  numbered := ⟨List.nodup_nil, nofun⟩
  distinct := List.nodup_nil
  counted := nofun
  formed := nofun

/-- In every run the history is formed. -/
theorem formed_run {historyCoalesceWindowMs : Nat} {labels : List HistoryLabel}
    {queue : HistoryQueue}
    (run : (historyMachine historyCoalesceWindowMs).Run (fun _ _ => True) .new labels queue) :
    queue.history.Formed := by
  let Kept := fun state : HistoryQueue => state.Sound ∧ state.history.Formed
  have keep : ∀ before label after, True →
      (historyMachine historyCoalesceWindowMs).step before label = some after →
        Kept before → Kept after :=
    fun before label after _ stepped kept =>
      ⟨(sound_step kept.1 stepped).1, (changes_step kept.1 stepped).formed kept.2⟩
  exact (run.invariant keep ⟨sound_new, formed_new⟩).2

end HistoryQueue

end Kb1Daemon
