import Kb1Daemon.Foundation.IsoTime
import Kb1Daemon.Foundation.JsNumber
import Kb1Daemon.History.Listing

/-! # Pages of a file's versions

The versions of a file are sorted by their times and then by their ids, and a page shows those
behind a cursor. A page's last version is the cursor of the next page; what is behind it is what
follows it in the list (`HistoryPlatform.applyHistoryCursor_behind`), so that the pages in turn show
every version once and in the order of the list (`history_pages_exact`). They are the pages of a
file's history, where the platform follows its order (`FileHistory.listFileHistory_eq`).
-/

namespace Kb1Daemon

/-- The platform's reading of time stamps and comparison of texts. -/
structure HistoryPlatform where
  /-- `new Date(text).getTime()`, unless it is not finite. -/
  getTime : JsString → Option Int
  getTime_nil : getTime [] = none
  localeCompare : JsString → JsString → Int

/-- `normalizePageLimit`; a number that is no integer counts as none. -/
def pageLimit (value : Option JsNumber) : Nat :=
  normalizePageLimit (value.bind fun
    | .finite value => if value.den = 1 then some value.num else none
    | _ => none)

structure FileHistoryPage where
  entries : List FileHistoryEntry
  hasMore : Bool
  deriving DecidableEq

namespace HistoryPlatform

variable (platform : HistoryPlatform)

/-- The difference of the times; if it is zero or not a number, the order of the ids. -/
def compareHistoryEntriesDesc (left right : FileHistoryEntry) : Int :=
  match platform.getTime right.createdAt, platform.getTime left.createdAt with
  | some rightTime, some leftTime =>
      if rightTime - leftTime ≠ 0 then rightTime - leftTime
      else platform.localeCompare right.id left.id
  | _, _ => platform.localeCompare right.id left.id

/-- The versions behind a cursor; a cursor without a time is none. -/
def applyHistoryCursor (entries : List FileHistoryEntry) (before beforeId : Option JsString) :
    List FileHistoryEntry :=
  match before.bind platform.getTime with
  | none => entries
  | some beforeTime =>
      entries.filter fun entry =>
        let tied := beforeId.any fun beforeId => decide (entry.id < beforeId)
        match platform.getTime entry.createdAt with
        | none => tied
        | some entryTime =>
            if entryTime < beforeTime then true
            else if beforeTime < entryTime then false
            else tied

/-- The versions in memory and those in the log, newest first. -/
def newestFirst (entries : List FileHistoryEntry) : List FileHistoryEntry :=
  entries.insertionSort fun left right => platform.compareHistoryEntriesDesc left right ≤ 0

/-- The page of `listFileHistory`. -/
def listFileHistory (entries : List FileHistoryEntry) (before beforeId : Option JsString)
    (limit : Option JsNumber) : FileHistoryPage :=
  let limited := platform.applyHistoryCursor (platform.newestFirst entries) before beforeId
  let shown := limited.take (pageLimit limit)
  ⟨shown, decide (shown.length < limited.length)⟩

/-- The pages one after the other, each behind the last version of the one before. The fuel bounds
the number of requests. -/
def followPages (entries : List FileHistoryEntry) (limit : Option JsNumber) :
    (fuel : Nat) → (before beforeId : Option JsString) → Option (List FileHistoryEntry)
  | 0, _, _ => none
  | fuel + 1, before, beforeId =>
      let page := platform.listFileHistory entries before beforeId limit
      if page.hasMore then
        page.entries.getLast?.bind fun last =>
          (followPages entries limit fuel (some last.createdAt) (some last.id)).map
            (page.entries ++ ·)
      else some page.entries

/-- The comparison of two texts agrees with the order of their code units. -/
def Agrees (left right : JsString) : Prop :=
  (platform.localeCompare left right < 0 ↔ left < right) ∧
    (0 < platform.localeCompare left right ↔ right < left)

end HistoryPlatform

/-- Versions with times and different ids, on which the comparisons of texts agree. -/
structure ProperHistory (platform : HistoryPlatform) (entries : List FileHistoryEntry) : Prop where
  dated : ∀ entry ∈ entries, (platform.getTime entry.createdAt).isSome = true
  distinct : (entries.map FileHistoryEntry.id).Nodup
  agrees : ∀ left ∈ entries, ∀ right ∈ entries, platform.Agrees left.id right.id

/-- The time of a version that has one. -/
def HistoryPlatform.time (platform : HistoryPlatform) (entry : FileHistoryEntry) : Int :=
  (platform.getTime entry.createdAt).getD 0

/-- A version is newer than another one, or as new and of the greater id. -/
def HistoryPlatform.Newer (platform : HistoryPlatform) (left right : FileHistoryEntry) : Prop :=
  platform.time right < platform.time left ∨
    platform.time right = platform.time left ∧ right.id < left.id

/-- A version is newer than another one, or as new and of no smaller id. -/
def HistoryPlatform.NotOlder (platform : HistoryPlatform) (left right : FileHistoryEntry) : Prop :=
  platform.time right < platform.time left ∨
    platform.time right = platform.time left ∧ ¬ left.id < right.id

namespace HistoryPlatform

variable {platform : HistoryPlatform} {entries : List FileHistoryEntry}
  {left right third : FileHistoryEntry}

theorem getTime_eq (dated : (platform.getTime left.createdAt).isSome = true) :
    platform.getTime left.createdAt = some (platform.time left) := by
  obtain ⟨time, same⟩ := Option.isSome_iff_exists.mp dated
  rw [HistoryPlatform.time, same, Option.getD_some]

instance : DecidableRel platform.Newer := fun _ _ =>
  inferInstanceAs (Decidable (_ ∨ _))

instance : DecidableRel platform.NotOlder := fun _ _ =>
  inferInstanceAs (Decidable (_ ∨ _))

instance : Std.Total platform.NotOlder where
  total left right := by
    rcases lt_trichotomy (platform.time left) (platform.time right) with older | same | newer
    · exact .inr (.inl older)
    · by_cases smaller : left.id < right.id
      · exact .inr (.inr ⟨same, List.lt_asymm smaller⟩)
      · exact .inl (.inr ⟨same.symm, smaller⟩)
    · exact .inl (.inl newer)

instance : IsTrans FileHistoryEntry platform.NotOlder where
  trans first second third := by
    rintro (newer | ⟨same, greater⟩) (later | ⟨alike, larger⟩)
    · exact .inl (later.trans newer)
    · exact .inl (alike.trans_lt newer)
    · exact .inl (same ▸ later)
    · exact .inr ⟨alike.trans same, List.le_trans larger greater⟩

/-- The comparison of two versions decides which of them is newer. -/
theorem compare_le_iff (proper : ProperHistory platform entries) (first : left ∈ entries)
    (second : right ∈ entries) :
    platform.compareHistoryEntriesDesc left right ≤ 0 ↔ platform.NotOlder left right := by
  have agrees := (proper.agrees right second left first).2
  rw [compareHistoryEntriesDesc, getTime_eq (proper.dated left first),
    getTime_eq (proper.dated right second), NotOlder]
  dsimp only
  by_cases same : platform.time right - platform.time left = 0
  · rw [if_neg (not_not.mpr same), ← not_lt, agrees]
    constructor
    · exact fun greater => .inr ⟨by omega, greater⟩
    · rintro (newer | ⟨_, greater⟩)
      · omega
      · exact greater
  · rw [if_pos same]
    constructor
    · exact fun newer => .inl (by omega)
    · rintro (newer | ⟨alike, _⟩) <;> omega

theorem newestFirst_eq (proper : ProperHistory platform entries) :
    platform.newestFirst entries = entries.insertionSort platform.NotOlder := by
  have sorted := List.map_insertionSort
    (fun left right => platform.compareHistoryEntriesDesc left right ≤ 0) platform.NotOlder id
    entries fun left first right second => compare_le_iff proper first second
  rw [List.map_id, List.map_id] at sorted
  exact sorted

theorem perm_newestFirst (platform : HistoryPlatform) (entries : List FileHistoryEntry) :
    (platform.newestFirst entries).Perm entries :=
  List.perm_insertionSort _ _

/-- Every version of the list is newer than those behind it. -/
theorem pairwise_newestFirst (proper : ProperHistory platform entries) :
    (platform.newestFirst entries).Pairwise platform.Newer := by
  have sorted : (platform.newestFirst entries).Pairwise platform.NotOlder := by
    rw [newestFirst_eq proper]
    exact List.pairwise_insertionSort _ _
  have distinct : (platform.newestFirst entries).Pairwise fun left right => left.id ≠ right.id :=
    List.pairwise_map.mp (((perm_newestFirst platform entries).map _).nodup_iff.mpr proper.distinct)
  refine (sorted.and distinct).imp ?_
  rintro left right ⟨newer | ⟨same, greater⟩, apart⟩
  · exact .inl newer
  · exact .inr ⟨same, by_contra fun least => apart (List.le_antisymm least greater)⟩

theorem Newer.asymm (newer : platform.Newer left right) : ¬ platform.Newer right left := by
  rintro (later | ⟨same, greater⟩)
  · rcases newer with older | ⟨alike, _⟩ <;> omega
  · rcases newer with older | ⟨_, smaller⟩
    · omega
    · exact List.lt_asymm smaller greater

/-- Behind a version are those that it is newer than. -/
theorem applyHistoryCursor_eq {last : FileHistoryEntry}
    (cursor : (platform.getTime last.createdAt).isSome = true)
    (dated : ∀ entry ∈ entries, (platform.getTime entry.createdAt).isSome = true) :
    platform.applyHistoryCursor entries (some last.createdAt) (some last.id) =
      entries.filter fun entry => decide (platform.Newer last entry) := by
  rw [applyHistoryCursor, Option.bind_some, getTime_eq cursor]
  refine List.filter_congr fun entry listed => ?_
  rw [getTime_eq (dated entry listed), Option.any_some]
  dsimp only
  by_cases older : platform.time entry < platform.time last
  · rw [if_pos older, decide_eq_true (.inl older)]
  · rw [if_neg older]
    by_cases newer : platform.time last < platform.time entry
    · rw [if_pos newer, eq_comm, decide_eq_false_iff_not]
      rintro (later | ⟨same, _⟩) <;> omega
    · rw [if_neg newer]
      refine decide_eq_decide.mpr ⟨fun smaller => .inr ⟨by omega, smaller⟩, ?_⟩
      rintro (later | ⟨_, smaller⟩)
      · omega
      · exact smaller

/-- What is behind a version of the list is what follows it there. -/
theorem applyHistoryCursor_behind {front back : List FileHistoryEntry} {last : FileHistoryEntry}
    (dated : ∀ entry ∈ front ++ last :: back, (platform.getTime entry.createdAt).isSome = true)
    (sorted : (front ++ last :: back).Pairwise platform.Newer) :
    platform.applyHistoryCursor (front ++ last :: back) (some last.createdAt) (some last.id) =
      back := by
  obtain ⟨_, behind, before⟩ := List.pairwise_append.mp sorted
  rw [applyHistoryCursor_eq (dated last (List.mem_append_right _ List.mem_cons_self)) dated,
    List.filter_append, List.filter_cons]
  have none : front.filter (fun entry => decide (platform.Newer last entry)) = [] := by
    refine List.filter_eq_nil_iff.mpr fun entry listed => ?_
    rw [decide_eq_true_eq]
    exact (before entry listed last List.mem_cons_self).asymm
  have itself : ¬ decide (platform.Newer last last) = true := by
    rw [decide_eq_true_eq]
    exact fun newer => newer.asymm newer
  have all : back.filter (fun entry => decide (platform.Newer last entry)) = back := by
    refine List.filter_eq_self.mpr fun entry listed => ?_
    rw [decide_eq_true_eq]
    exact (List.pairwise_cons.mp behind).1 entry listed
  rw [none, if_neg itself, all, List.nil_append]

theorem pageLimit_pos (value : Option JsNumber) : 0 < pageLimit value := by
  unfold pageLimit normalizePageLimit
  split
  · decide
  · split
    · decide
    · omega

/-- The requests from a cursor on show what is behind it, at least one version in each. -/
theorem followPages_eq (proper : ProperHistory platform entries) (limit : Option JsNumber)
    {fuel : Nat} {before beforeId : Option JsString} {front back : List FileHistoryEntry}
    (whole : platform.newestFirst entries = front ++ back)
    (behind : platform.applyHistoryCursor (platform.newestFirst entries) before beforeId = back)
    (fueled : back.length < fuel) :
    platform.followPages entries limit fuel before beforeId = some back := by
  induction fuel generalizing before beforeId front back with
  | zero => exact absurd fueled (Nat.not_lt_zero _)
  | succ fuel ih =>
      have positive := pageLimit_pos limit
      rw [followPages, listFileHistory, behind]
      dsimp only
      by_cases more : (back.take (pageLimit limit)).length < back.length
      · rw [if_pos (decide_eq_true more)]
        have shown : back.take (pageLimit limit) ≠ [] := by
          intro none
          have length := congrArg List.length none
          rw [List.length_take, List.length_nil] at length
          omega
        rw [List.getLast?_eq_some_getLast shown, Option.bind_some]
        have page : (back.take (pageLimit limit)).dropLast ++
            [(back.take (pageLimit limit)).getLast shown] = back.take (pageLimit limit) :=
          List.dropLast_append_getLast shown
        have split : platform.newestFirst entries =
            (front ++ (back.take (pageLimit limit)).dropLast) ++
              (back.take (pageLimit limit)).getLast shown :: back.drop (pageLimit limit) := by
          rw [whole, List.append_cons, List.append_assoc front, page, List.append_assoc,
            List.take_append_drop]
        have dated : ∀ entry ∈ platform.newestFirst entries,
            (platform.getTime entry.createdAt).isSome = true := fun entry listed =>
          proper.dated entry ((perm_newestFirst platform entries).mem_iff.mp listed)
        have sorted := pairwise_newestFirst proper
        have next : platform.applyHistoryCursor (platform.newestFirst entries)
            (some ((back.take (pageLimit limit)).getLast shown).createdAt)
            (some ((back.take (pageLimit limit)).getLast shown).id) =
              back.drop (pageLimit limit) := by
          rw [split] at dated sorted ⊢
          exact applyHistoryCursor_behind dated sorted
        have onward : platform.newestFirst entries =
            (front ++ back.take (pageLimit limit)) ++ back.drop (pageLimit limit) := by
          rw [whole, List.append_assoc, List.take_append_drop]
        rw [ih onward next (by rw [List.length_drop]; omega), Option.map_some,
          List.take_append_drop]
      · rw [if_neg (by rwa [decide_eq_true_eq])]
        rw [List.length_take] at more
        rw [List.take_of_length_le (by omega)]

end HistoryPlatform

/-- The platform reads the times of the versions and compares their ids as the order does. -/
structure HistoryPlatform.Follows (platform : HistoryPlatform) (order : HistoryOrder)
    (entries : List FileHistoryEntry) : Prop where
  dated : ∀ entry ∈ entries,
    platform.getTime entry.createdAt = some (order.getTime entry.createdAt)
  compares : ∀ left ∈ entries, ∀ right ∈ entries,
    order.localeLe left.id right.id = decide (platform.localeCompare left.id right.id ≤ 0)

namespace HistoryPlatform.Follows

variable {platform : HistoryPlatform} {order : HistoryOrder} {entries : List FileHistoryEntry}

/-- The comparison of two versions puts them in the order. -/
theorem compare_le_iff (follows : platform.Follows order entries) {left right : FileHistoryEntry}
    (first : left ∈ entries) (second : right ∈ entries) :
    platform.compareHistoryEntriesDesc left right ≤ 0 ↔ order.before left right = true := by
  rw [compareHistoryEntriesDesc, follows.dated left first, follows.dated right second,
    HistoryOrder.before, follows.compares right second left first, Bool.or_eq_true,
    Bool.and_eq_true, decide_eq_true_eq, decide_eq_true_eq, decide_eq_true_eq]
  dsimp only
  by_cases same : order.getTime right.createdAt = order.getTime left.createdAt
  · rw [if_neg (not_not.mpr (Int.sub_eq_zero_of_eq same))]
    refine ⟨fun sorted => .inr ⟨same, sorted⟩, ?_⟩
    rintro (newer | ⟨_, sorted⟩)
    · omega
    · exact sorted
  · rw [if_pos (by omega)]
    constructor
    · exact fun newer => .inl (by omega)
    · rintro (newer | ⟨alike, _⟩) <;> omega

/-- Both sort the versions alike. -/
theorem newestFirst_eq (follows : platform.Follows order entries) :
    platform.newestFirst entries =
      entries.insertionSort fun left right => order.before left right = true := by
  have sorted := List.map_insertionSort
    (fun left right => platform.compareHistoryEntriesDesc left right ≤ 0)
    (fun left right => order.before left right = true) id entries
    fun left first right second => follows.compare_le_iff first second
  rw [List.map_id, List.map_id] at sorted
  exact sorted

/-- Both show the same versions behind a cursor. -/
theorem applyHistoryCursor_eq (follows : platform.Follows order entries)
    {listed : List FileHistoryEntry} (own : ∀ entry ∈ listed, entry ∈ entries)
    (before beforeId : Option JsString) :
    platform.applyHistoryCursor listed before beforeId =
      Kb1Daemon.applyHistoryCursor order listed (before.bind platform.getTime) beforeId := by
  unfold HistoryPlatform.applyHistoryCursor Kb1Daemon.applyHistoryCursor
  cases before.bind platform.getTime with
  | none => rfl
  | some beforeTime =>
      refine List.filter_congr fun entry member => ?_
      rw [follows.dated entry (own entry member)]
      cases beforeId with
      | none => rfl
      | some beforeId => rfl

end HistoryPlatform.Follows

/-- An integer limit counts as it is. -/
theorem pageLimit_intCast (limit : Option Int) :
    pageLimit (limit.map fun value => .finite value) = normalizePageLimit limit := by
  cases limit with
  | none => rfl
  | some value => rfl

/-- The versions of a file, those in memory and those in the log. -/
def FileHistory.versions (hashContent : JsString → Token) (history : FileHistory)
    (rel : JsString) : List FileHistoryEntry :=
  history.pendingEntriesForPath hashContent rel ++
    (history.readCommittedHistory hashContent rel).map CommittedHistoryRecord.entry

/-- The page of a file's history is the platform's page of the file's versions. -/
theorem FileHistory.listFileHistory_eq {hashContent : JsString → Token} {platform : HistoryPlatform}
    {order : HistoryOrder} {history : FileHistory} {rel : JsString}
    (follows : platform.Follows order (history.versions hashContent rel))
    (before beforeId : Option JsString) (limit : Option Int) :
    history.listFileHistory hashContent order rel (before.bind platform.getTime) beforeId limit =
      if validateVaultPath rel .file then
        some ((platform.listFileHistory (history.versions hashContent rel) before beforeId
            (limit.map fun value => .finite value)).entries,
          (platform.listFileHistory (history.versions hashContent rel) before beforeId
            (limit.map fun value => .finite value)).hasMore)
      else none := by
  have sorted : history.newestFirst hashContent order rel =
      platform.newestFirst (history.versions hashContent rel) := follows.newestFirst_eq.symm
  have own : ∀ entry ∈ platform.newestFirst (history.versions hashContent rel),
      entry ∈ history.versions hashContent rel := fun entry =>
    (HistoryPlatform.perm_newestFirst platform _).mem_iff.mp
  rw [FileHistory.listFileHistory, HistoryPlatform.listFileHistory, pageLimit_intCast, sorted,
    follows.applyHistoryCursor_eq own before beforeId]

/-- **Pages.** Following the pages from the first one, each behind the last version of the one
before, shows every version once and in the order of the list, within as many requests as there
are versions and one. -/
theorem history_pages_exact {platform : HistoryPlatform} {entries : List FileHistoryEntry}
    (proper : ProperHistory platform entries) (limit : Option JsNumber) {fuel : Nat}
    (fueled : entries.length < fuel) :
    platform.followPages entries limit fuel none none = some (platform.newestFirst entries) ∧
      (platform.newestFirst entries).Perm entries ∧
      (platform.newestFirst entries).Pairwise platform.Newer := by
  have perm := HistoryPlatform.perm_newestFirst platform entries
  refine ⟨?_, perm, HistoryPlatform.pairwise_newestFirst proper⟩
  exact HistoryPlatform.followPages_eq proper limit (List.nil_append _).symm rfl
    (perm.length_eq ▸ fueled)

/-- The platform, on times that are written in UTC and on texts whose units are in order. -/
def unitPlatform : HistoryPlatform where
  getTime := IsoTime.datetime
  getTime_nil := rfl
  localeCompare left right := if left < right then -1 else if right < left then 1 else 0

/-- A version that is told apart by its id and its time. -/
def plainEntry (id createdAt : String) : FileHistoryEntry where
  id := units id
  path := units "a.md"
  operation := .update
  actor := ⟨.user, none, none, none⟩
  integrationId := none
  contributors := none
  pending := false
  commitId := some (units id)
  createdAt := units createdAt
  updatedAt := units createdAt
  size := 1
  contentHash := []

/-- Three versions, of which two share a window and are cut apart by the pages. -/
def threeEntries : List FileHistoryEntry :=
  [plainEntry "a" "2026-01-01T00:00:00.000Z", plainEntry "b" "2026-01-01T00:00:00.000Z",
    plainEntry "c" "2026-01-01T01:00:00.000Z"]

theorem unitPlatform_agrees (left right : JsString) : unitPlatform.Agrees left right := by
  change ((if left < right then (-1 : Int) else if right < left then 1 else 0) < 0 ↔ _) ∧
    (0 < (if left < right then (-1 : Int) else if right < left then 1 else 0) ↔ _)
  by_cases smaller : left < right
  · rw [if_pos smaller]
    exact ⟨iff_of_true (by decide) smaller, iff_of_false (by decide) (List.lt_asymm smaller)⟩
  · rw [if_neg smaller]
    by_cases greater : right < left
    · rw [if_pos greater]
      exact ⟨iff_of_false (by decide) smaller, iff_of_true (by decide) greater⟩
    · rw [if_neg greater]
      exact ⟨iff_of_false (by decide) smaller, iff_of_false (by decide) greater⟩

/-- Two versions of one window on different pages. -/
theorem history_pages_exact_shared :
    unitPlatform.followPages threeEntries (some (.finite 1)) 4 none none =
      some (unitPlatform.newestFirst threeEntries) :=
  (history_pages_exact ⟨by decide +kernel, by decide +kernel, fun left _ right _ =>
    unitPlatform_agrees left.id right.id⟩ (some (.finite 1)) (by decide)).1

end Kb1Daemon
