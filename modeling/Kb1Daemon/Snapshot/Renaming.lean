import Kb1Daemon.Snapshot.Naming

/-! # The renaming of a tree of paths

The declared paths form a tree (`SnapshotChildren.Tree`, `declared_tree`), and a visit of a
directory with enough fuel gives every path below it the path of its names
(`SnapshotHost.visit_spec`). So `portableSnapshotPaths` succeeds on all distinct safe paths and
is a faithful renaming of them (`portable_snapshot_paths_faithful`).
-/

namespace Kb1Daemon

open JsString
open Segments (joined child Proper)

/-- The segments lead to a path or to a path above one. -/
def InSnapshotTree (paths : List JsString) (segments : List JsString) : Prop :=
  segments ≠ [] ∧ ∃ path ∈ paths, segments <+: path.splitOn slash

namespace SnapshotChildren

/-- The directories have the entries of a tree. -/
structure Tree (children : SnapshotChildren) (inTree : List JsString → Prop) : Prop where
  nodup : ∀ parent, (children.siblings parent).Nodup
  mem_iff : ∀ front : List JsString, (∀ segment ∈ front, Proper slash segment) → ∀ segment,
    segment ∈ children.siblings (joined slash front) ↔ inTree (front ++ [segment])

theorem siblings_add (children : SnapshotChildren) (parent segment key : JsString) :
    (children.add parent segment).siblings key =
      if key = parent then
        if segment ∈ children.siblings parent then children.siblings parent
        else children.siblings parent ++ [segment]
      else children.siblings key := by
  unfold add
  rw [siblings, Table.get_set]
  by_cases same : key = parent
  · rw [if_pos same, if_pos same]
    rfl
  · rw [if_neg same, if_neg same]
    rfl

theorem mem_siblings_add {children : SnapshotChildren} {parent segment key other : JsString} :
    other ∈ (children.add parent segment).siblings key ↔
      other ∈ children.siblings key ∨ key = parent ∧ other = segment := by
  rw [siblings_add]
  by_cases same : key = parent
  · subst same
    rw [if_pos rfl]
    split
    · rename_i present
      refine ⟨.inl, ?_⟩
      rintro (member | ⟨_, rfl⟩)
      · exact member
      · exact present
    · rw [List.mem_append, List.mem_singleton]
      simp
  · rw [if_neg same]
    simp [same]

/-- No entry is added twice. -/
theorem nodup_siblings_add {children : SnapshotChildren}
    (nodup : ∀ key, (children.siblings key).Nodup) (parent segment key : JsString) :
    ((children.add parent segment).siblings key).Nodup := by
  rw [siblings_add]
  split
  · split
    · exact nodup parent
    · rename_i absent
      rw [List.nodup_append]
      refine ⟨nodup parent, List.nodup_singleton _, ?_⟩
      rintro left member right added rfl
      rw [List.mem_singleton] at added
      exact absent (added ▸ member)
  · exact nodup key

/-- Adding the segments of a path adds the entries on the way. -/
theorem addSegments_spec {rest front : List JsString} {children : SnapshotChildren}
    (proper : ∀ segment ∈ front, Proper slash segment) (below : ∀ segment ∈ rest, Proper slash segment)
    (nodup : ∀ key, (children.siblings key).Nodup) :
    (∀ key, ((addSegments children (joined slash front) rest).siblings key).Nodup) ∧
      ∀ key other, other ∈ (addSegments children (joined slash front) rest).siblings key ↔
        other ∈ children.siblings key ∨
          ∃ middle, middle ++ [other] <+: rest ∧ key = joined slash (front ++ middle) := by
  induction rest generalizing front children with
  | nil =>
      refine ⟨nodup, fun key other => ?_⟩
      simp [addSegments]
  | cons segment rest ih =>
      have properConcat : ∀ other ∈ front ++ [segment], Proper slash other := by
        intro other member
        rcases List.mem_append.mp member with early | own
        · exact proper other early
        · rw [List.mem_singleton.mp own]
          exact below segment List.mem_cons_self
      have later := @ih (front ++ [segment]) (children.add (joined slash front) segment) properConcat
        (fun other member => below other (List.mem_cons_of_mem _ member))
        (nodup_siblings_add nodup _ _)
      rw [addSegments, ← Segments.joined_concat proper]
      refine ⟨later.1, fun key other => ?_⟩
      rw [later.2, mem_siblings_add]
      constructor
      · rintro ((old | ⟨rfl, rfl⟩) | ⟨middle, inside, rfl⟩)
        · exact .inl old
        · exact .inr ⟨[], by simp, by simp⟩
        · refine .inr ⟨segment :: middle, ?_, by simp⟩
          exact List.cons_prefix_cons.mpr ⟨rfl, inside⟩
      · rintro (old | ⟨middle, inside, rfl⟩)
        · exact .inl (.inl old)
        · cases middle with
          | nil =>
              rw [List.nil_append, List.cons_prefix_cons] at inside
              exact .inl (.inr ⟨by simp, inside.1⟩)
          | cons first middle =>
              rw [List.cons_append, List.cons_prefix_cons] at inside
              obtain ⟨rfl, inside⟩ := inside
              exact .inr ⟨middle, inside, by simp⟩

end SnapshotChildren

/-- The segments of a safe path. -/
theorem proper_of_safe {path : JsString} (safe : assertSafeSnapshotPath path = .ok ()) :
    ∀ segment ∈ path.splitOn slash, Proper slash segment := by
  intro segment member
  refine ⟨?_, Segments.not_mem_of_mem_splitOn path segment member⟩
  rintro rfl
  unfold assertSafeSnapshotPath at safe
  rw [if_pos] at safe
  · cases safe
  · rw [Bool.or_eq_true, Bool.or_eq_true]
    exact .inr (List.any_eq_true.mpr ⟨[], member, rfl⟩)

/-- The declared paths form a tree. -/
theorem declared_tree {paths : List JsString} (distinct : paths.Nodup)
    (safe : ∀ path ∈ paths, assertSafeSnapshotPath path = .ok ()) :
    ∃ declared, paths.foldlM SnapshotChildren.declare (Table.empty, []) = .ok declared ∧
      declared.1.Tree (InSnapshotTree paths) := by
  suffices general : ∀ (rest before : List JsString) (children : SnapshotChildren),
      (before ++ rest).Nodup → (∀ path ∈ before ++ rest, assertSafeSnapshotPath path = .ok ()) →
        children.Tree (InSnapshotTree before) →
          ∃ declared, rest.foldlM SnapshotChildren.declare (children, before.reverse) = .ok declared ∧
            declared.1.Tree (InSnapshotTree (before ++ rest)) by
    refine general paths [] Table.empty distinct safe ⟨fun _ => List.nodup_nil, ?_⟩
    intro front _ segment
    simp [SnapshotChildren.siblings, Table.get, Table.empty, InSnapshotTree]
  intro rest
  induction rest with
  | nil =>
      intro before children _ _ tree
      exact ⟨_, rfl, by rwa [List.append_nil]⟩
  | cons path rest ih =>
      intro before children distinct safe tree
      have own : assertSafeSnapshotPath path = .ok () := safe path (by simp)
      have fresh : path ∉ before.reverse := by
        rw [List.mem_reverse]
        intro member
        exact (List.nodup_append.mp distinct).2.2 path member path List.mem_cons_self rfl
      have added := @SnapshotChildren.addSegments_spec (path.splitOn slash) [] children
        (fun _ member => absurd member List.not_mem_nil) (proper_of_safe own) tree.nodup
      rw [Segments.joined_nil] at added
      have grown : (children.addSegments [] (path.splitOn slash)).Tree
          (InSnapshotTree (before ++ [path])) := by
        refine ⟨added.1, fun front proper segment => ?_⟩
        rw [added.2, tree.mem_iff front proper segment]
        unfold InSnapshotTree
        constructor
        · rintro (⟨some, other, member, inside⟩ | ⟨middle, inside, same⟩)
          · exact ⟨some, other, List.mem_append_left _ member, inside⟩
          · have middleProper : ∀ other ∈ middle, Proper slash other := fun other member =>
              proper_of_safe own other (inside.subset (List.mem_append_left _ member))
            obtain rfl := Segments.joined_injective proper middleProper same
            exact ⟨by simp, path, by simp, inside⟩
        · rintro ⟨some, other, member, inside⟩
          rcases List.mem_append.mp member with early | late
          · exact .inl ⟨some, other, early, inside⟩
          · rw [List.mem_singleton.mp late] at inside
            exact .inr ⟨front, inside, rfl⟩
      have step : SnapshotChildren.declare (children, before.reverse) path =
          .ok (children.addSegments [] (path.splitOn slash), (before ++ [path]).reverse) := by
        rw [SnapshotChildren.declare, own, List.reverse_append]
        exact if_neg fresh
      have later := ih (before ++ [path]) _ (by simpa using distinct) (by simpa using safe) grown
      rw [List.foldlM_cons, step]
      rw [List.append_assoc, List.singleton_append] at later
      exact later

theorem length_le_depth {paths : List JsString} {segments : List JsString}
    (inside : InSnapshotTree paths segments) : segments.length ≤ SnapshotHost.depth paths := by
  obtain ⟨_, path, member, within⟩ := inside
  refine Nat.le_trans within.length_le ?_
  unfold SnapshotHost.depth
  induction paths with
  | nil => cases member
  | cons first rest ih =>
      rw [List.map_cons, List.foldr_cons]
      rcases List.mem_cons.mp member with rfl | later
      · exact Nat.le_max_left _ _
      · exact Nat.le_trans (ih later) (Nat.le_max_right _ _)

theorem mem_segments_of_inTree {paths : List JsString} {segments : List JsString}
    (inside : InSnapshotTree paths segments) {segment : JsString} (member : segment ∈ segments) :
    segment ∈ paths.flatMap (List.splitOn slash) := by
  obtain ⟨_, path, listed, within⟩ := inside
  exact List.mem_flatMap.mpr ⟨path, listed, within.subset member⟩

theorem inTree_of_front {paths : List JsString} {front segments : List JsString}
    (inside : InSnapshotTree paths segments) (some : front ≠ []) (within : front <+: segments) :
    InSnapshotTree paths front := by
  obtain ⟨_, path, listed, whole⟩ := inside
  exact ⟨some, path, listed, within.trans whole⟩

theorem proper_of_inTree {paths : List JsString}
    (safe : ∀ path ∈ paths, assertSafeSnapshotPath path = .ok ()) {segments : List JsString}
    (inside : InSnapshotTree paths segments) : ∀ segment ∈ segments, Proper slash segment := by
  obtain ⟨_, path, listed, within⟩ := inside
  exact fun segment member => proper_of_safe (safe path listed) segment (within.subset member)

namespace SnapshotHost

variable (host : SnapshotHost) (children : SnapshotChildren)

/-- The entries of a directory in the order of the visit. -/
def sorted (parent : JsString) : List JsString := (children.siblings parent).insertionSort (· ≤ ·)

/-- The names of segments below a directory. -/
def renameFrom : List JsString → List JsString → List JsString
  | _, [] => []
  | front, segment :: rest =>
      host.portableName (sorted children (joined slash front)) segment ::
        renameFrom (front ++ [segment]) rest

/-- The name of a path. -/
def renamed (segments : List JsString) : List JsString := renameFrom host children [] segments

theorem renameFrom_append (front middle rest : List JsString) :
    renameFrom host children front (middle ++ rest) =
      renameFrom host children front middle ++ renameFrom host children (front ++ middle) rest := by
  induction middle generalizing front with
  | nil => simp [renameFrom]
  | cons segment middle ih => simp [renameFrom, ih]

theorem renamed_concat (front : List JsString) (segment : JsString) :
    renamed host children (front ++ [segment]) = renamed host children front ++
      [host.portableName (sorted children (joined slash front)) segment] := by
  rw [renamed, renameFrom_append, List.nil_append]
  rfl

variable {host children}

theorem proper_renameFrom {rest : List JsString} (proper : ∀ segment ∈ rest, Proper slash segment)
    (front : List JsString) :
    ∀ segment ∈ renameFrom host children front rest, Proper slash segment := by
  induction rest generalizing front with
  | nil => exact fun _ member => absurd member List.not_mem_nil
  | cons segment rest ih =>
      intro other member
      rcases List.mem_cons.mp member with rfl | later
      · exact host.proper_portableName (proper segment List.mem_cons_self)
      · exact ih (fun own listed => proper own (List.mem_cons_of_mem _ listed)) _ other later

theorem proper_renamed {segments : List JsString}
    (proper : ∀ segment ∈ segments, Proper slash segment) :
    ∀ segment ∈ renamed host children segments, Proper slash segment :=
  proper_renameFrom proper []

theorem isPortable_renameFrom (front rest : List JsString) :
    ∀ segment ∈ renameFrom host children front rest, isPortableSnapshotSegment segment = true := by
  induction rest generalizing front with
  | nil => exact fun _ member => absurd member List.not_mem_nil
  | cons segment rest ih =>
      intro other member
      rcases List.mem_cons.mp member with rfl | later
      · exact host.isPortable_portableName segment
      · exact ih _ other later

/-- From one map of names to another one, the paths of a part of the tree have got their
names and nothing else has changed. -/
structure Writes (host : SnapshotHost) (children : SnapshotChildren)
    (before after : Table JsString JsString) (written : List JsString → Prop) : Prop where
  named : ∀ segments, written segments →
    after.get (joined slash segments) = some (joined slash (renamed host children segments))
  kept : ∀ key, (∀ segments, written segments → joined slash segments ≠ key) →
    after.get key = before.get key

/-- What is written in two passes. -/
theorem Writes.trans {before middle after : Table JsString JsString}
    {first second whole : List JsString → Prop}
    (early : Writes host children before middle first)
    (late : Writes host children middle after second)
    (proper : ∀ segments, first segments ∨ second segments → ∀ segment ∈ segments,
      Proper slash segment)
    (split : ∀ segments, whole segments ↔ first segments ∨ second segments) :
    Writes host children before after whole := by
  constructor
  · intro segments written
    by_cases again : second segments
    · exact late.named segments again
    · have once : first segments := ((split segments).mp written).resolve_right again
      rw [late.kept, early.named segments once]
      intro other inside same
      have own := Segments.joined_injective (proper other (.inr inside)) (proper segments (.inl once))
        same
      exact again (own ▸ inside)
  · intro key away
    rw [late.kept key fun segments inside => away segments ((split segments).mpr (.inr inside)),
      early.kept key fun segments inside => away segments ((split segments).mpr (.inl inside))]

theorem Writes.named_iff {before after : Table JsString JsString} {written whole : List JsString → Prop}
    (writes : Writes host children before after written)
    (same : ∀ segments, whole segments ↔ written segments) :
    Writes host children before after whole :=
  ⟨fun segments inside => writes.named segments ((same segments).mp inside),
    fun key away => writes.kept key fun segments inside => away segments ((same segments).mpr inside)⟩

theorem writes_set {mapped : Table JsString JsString} (segments : List JsString) :
    Writes host children mapped
      (mapped.set (joined slash segments) (joined slash (renamed host children segments)))
      (· = segments) := by
  constructor
  · rintro _ rfl
    rw [Table.get_set, if_pos rfl]
  · intro key away
    rw [Table.get_set, if_neg fun same => away segments rfl same.symm]

variable {paths : List JsString}

/-- **A visit of a directory.** With fuel for the depth below a directory, the visit names what
is below it and nothing else. -/
theorem visit_spec (tree : children.Tree (InSnapshotTree paths))
    (safe : ∀ segments, InSnapshotTree paths segments → ∀ segment ∈ segments, Proper slash segment)
    (digests : ∀ left ∈ paths.flatMap (List.splitOn slash),
      ∀ right ∈ paths.flatMap (List.splitOn slash), host.sha256 left = host.sha256 right → left = right)
    {fuel : Nat} (fueled : 0 < fuel) {front : List JsString}
    (proper : ∀ segment ∈ front, Proper slash segment)
    (room : ∀ rest, InSnapshotTree paths (front ++ rest) → rest.length < fuel)
    (mapped : Table JsString JsString) :
    ∃ after, host.visit children fuel (joined slash front)
        (joined slash (renamed host children front)) mapped = .ok after ∧
      Writes host children mapped after fun segments =>
        InSnapshotTree paths segments ∧ ∃ segment rest, segments = front ++ segment :: rest := by
  induction fuel generalizing front mapped with
  | zero => exact absurd fueled (Nat.lt_irrefl 0)
  | succ fuel ih =>
      have listed : ∀ segment, segment ∈ sorted children (joined slash front) ↔
          InSnapshotTree paths (front ++ [segment]) := fun segment =>
        (List.mem_insertionSort _).trans (tree.mem_iff front proper segment)
      have nodup : (sorted children (joined slash front)).Nodup :=
        (List.perm_insertionSort _ _).nodup_iff.mpr (tree.nodup _)
      have apart : ∀ left ∈ sorted children (joined slash front),
          ∀ right ∈ sorted children (joined slash front),
            host.portableKey (host.portableName (sorted children (joined slash front)) left) =
              host.portableKey (host.portableName (sorted children (joined slash front)) right) →
                left = right := fun left memberLeft right memberRight same =>
        host.portableKey_apart nodup
          (fun left memberLeft right memberRight => digests
            left (mem_segments_of_inTree ((listed left).mp memberLeft) (by simp))
            right (mem_segments_of_inTree ((listed right).mp memberRight) (by simp)))
          memberLeft memberRight same
      -- Induction over the entries that are left: the used keys are those of the entries before.
      have entries : ∀ (rest : List JsString) (used : List JsString)
          (mapped : Table JsString JsString), rest.Nodup →
            (∀ segment ∈ rest, segment ∈ sorted children (joined slash front)) →
            (∀ segment ∈ rest, host.portableKey
              (host.portableName (sorted children (joined slash front)) segment) ∉ used) →
            ∃ keys after, rest.foldlM (host.nameEntry (host.visit children fuel)
                (sorted children (joined slash front)) (joined slash front)
                (joined slash (renamed host children front))) (used, mapped) = .ok (keys, after) ∧
              Writes host children mapped after fun segments => InSnapshotTree paths segments ∧
                ∃ segment ∈ rest, ∃ deeper, segments = front ++ segment :: deeper := by
        intro rest
        induction rest with
        | nil =>
            intro used mapped _ _ _
            exact ⟨used, mapped, rfl, fun segments written => by simp at written, fun _ _ => rfl⟩
        | cons segment rest inner =>
            intro used mapped distinct among fresh
            have here := among segment List.mem_cons_self
            have inTree := (listed segment).mp here
            have deeperProper := safe _ inTree
            have names := @proper_renamed host children front proper
            have own : Segments.child slash (joined slash front) segment =
                joined slash (front ++ [segment]) := (Segments.joined_concat proper segment).symm
            have ownName : Segments.child slash (joined slash (renamed host children front))
                (host.portableName (sorted children (joined slash front)) segment) =
                  joined slash (renamed host children (front ++ [segment])) := by
              rw [renamed_concat]
              exact (Segments.joined_concat names _).symm
            have positive : 0 < fuel := by
              have := room [segment] inTree
              simpa using this
            obtain ⟨middle, visited, below⟩ := ih positive deeperProper
              (fun rest deeper => by
                have := room (segment :: rest) (by simpa using deeper)
                simpa using this)
              (mapped.set (joined slash (front ++ [segment]))
                (joined slash (renamed host children (front ++ [segment]))))
            obtain ⟨keys, after, folded, later⟩ := inner
              (host.portableKey (host.portableName (sorted children (joined slash front)) segment) ::
                used) middle (List.nodup_cons.mp distinct).2
              (fun other member => among other (List.mem_cons_of_mem _ member))
              (fun other member => by
                rw [List.mem_cons, not_or]
                refine ⟨fun same => ?_, fresh other (List.mem_cons_of_mem _ member)⟩
                have alike := apart other (among other (List.mem_cons_of_mem _ member)) segment here
                  same
                exact (List.nodup_cons.mp distinct).1 (alike ▸ member))
            refine ⟨keys, after, ?_, ?_⟩
            · rw [List.foldlM_cons]
              have named : host.nameEntry (host.visit children fuel)
                  (sorted children (joined slash front)) (joined slash front)
                  (joined slash (renamed host children front)) (used, mapped) segment =
                    .ok (host.portableKey (host.portableName (sorted children (joined slash front))
                      segment) :: used, middle) := by
                rw [nameEntry, if_neg (fresh segment List.mem_cons_self), own, ownName]
                dsimp only
                rw [visited]
                rfl
              rw [named]
              exact folded
            · have first : Writes host children mapped middle fun segments =>
                  InSnapshotTree paths segments ∧ ∃ deeper, segments = front ++ segment :: deeper := by
                refine (writes_set (front ++ [segment])).trans below ?_ ?_
                · rintro segments (rfl | ⟨inside, _⟩)
                  · exact deeperProper
                  · exact safe segments inside
                · intro segments
                  constructor
                  · rintro ⟨inside, deeper, rfl⟩
                    cases deeper with
                    | nil => exact .inl rfl
                    | cons next deeper => exact .inr ⟨inside, next, deeper, by simp⟩
                  · rintro (rfl | ⟨inside, next, deeper, rfl⟩)
                    · exact ⟨inTree, [], rfl⟩
                    · exact ⟨inside, next :: deeper, by simp⟩
              refine first.trans later ?_ ?_
              · rintro segments (⟨inside, _⟩ | ⟨inside, _⟩)
                · exact safe segments inside
                · exact safe segments inside
              · intro segments
                constructor
                · rintro ⟨inside, other, member, deeper, rfl⟩
                  rcases List.mem_cons.mp member with rfl | member
                  · exact .inl ⟨inside, deeper, rfl⟩
                  · exact .inr ⟨inside, other, member, deeper, rfl⟩
                · rintro (⟨inside, deeper, rfl⟩ | ⟨inside, other, member, deeper, rfl⟩)
                  · exact ⟨inside, segment, List.mem_cons_self, deeper, rfl⟩
                  · exact ⟨inside, other, List.mem_cons_of_mem _ member, deeper, rfl⟩
      obtain ⟨keys, after, folded, writes⟩ := entries (sorted children (joined slash front)) [] mapped
        nodup (fun _ => id) (fun _ _ => List.not_mem_nil)
      refine ⟨after, ?_, writes.named_iff fun segments => ?_⟩
      · unfold visit
        exact congrArg (Except.map Prod.snd) folded
      · constructor
        · rintro ⟨inside, segment, rest, rfl⟩
          exact ⟨inside, segment, (listed segment).mpr
            (inTree_of_front inside (by simp) ⟨rest, by simp⟩), rest, rfl⟩
        · rintro ⟨inside, segment, _, rest, rfl⟩
          exact ⟨inside, segment, rest, rfl⟩

/-- Names in the same directory are told apart, so the names of whole paths are. -/
theorem renameFrom_injective
    (apart : ∀ front left right, InSnapshotTree paths (front ++ [left]) →
      InSnapshotTree paths (front ++ [right]) →
        host.portableName (sorted children (joined slash front)) left =
          host.portableName (sorted children (joined slash front)) right → left = right)
    {front left right : List JsString}
    (insideLeft : left ≠ [] → InSnapshotTree paths (front ++ left))
    (insideRight : right ≠ [] → InSnapshotTree paths (front ++ right))
    (same : renameFrom host children front left = renameFrom host children front right) :
    left = right := by
  induction left generalizing front right with
  | nil =>
      cases right with
      | nil => rfl
      | cons segment right => cases same
  | cons segment left ih =>
      cases right with
      | nil => cases same
      | cons other right =>
          obtain ⟨first, later⟩ := List.cons.inj same
          have wholeLeft := insideLeft (List.cons_ne_nil _ _)
          have wholeRight := insideRight (List.cons_ne_nil _ _)
          obtain rfl := apart front segment other
            (inTree_of_front wholeLeft (by simp) ⟨left, by simp⟩)
            (inTree_of_front wholeRight (by simp) ⟨right, by simp⟩) first
          rw [ih (fun _ => by simpa using wholeLeft) (fun _ => by simpa using wholeRight) later]

end SnapshotHost

/-- The names are a faithful renaming of the paths and of the paths above them. -/
structure FaithfulRenaming (host : SnapshotHost) (paths : List JsString)
    (mapped : Table JsString JsString) : Prop where
  defined : ∀ path ∈ paths, ∀ ancestor ∈ Segments.ancestry slash path,
    ∃ name, mapped.get ancestor = some name
  listed : ∀ path name, mapped.get path = some name → ∃ whole ∈ paths,
    path ∈ Segments.ancestry slash whole
  injective : ∀ first second name, mapped.get first = some name → mapped.get second = some name →
    first = second
  parent : ∀ path name, mapped.get path = some name →
    Segments.parent slash name = (Segments.parent slash path).bind mapped.get
  parent_defined : ∀ path name, mapped.get path = some name →
    ∀ above, Segments.parent slash path = some above → ∃ name, mapped.get above = some name
  apart : ∀ first second name other, mapped.get first = some name → mapped.get second = some other →
    Segments.parent slash first = Segments.parent slash second → first ≠ second →
      host.portableKey (Segments.lastOf slash name) ≠ host.portableKey (Segments.lastOf slash other)
  portable : ∀ path name, mapped.get path = some name →
    ∀ segment ∈ name.splitOn slash, isPortableSnapshotSegment segment = true
  kept : ∀ path name, mapped.get path = some name →
    isPortableSnapshotSegment (Segments.lastOf slash path) = true →
    host.isReserved (Segments.lastOf slash path) = false →
    (∀ other otherName, mapped.get other = some otherName →
      Segments.parent slash other = Segments.parent slash path → other ≠ path →
        host.portableKey (Segments.lastOf slash other) ≠
          host.portableKey (Segments.lastOf slash path)) →
    Segments.lastOf slash name = Segments.lastOf slash path

/-- A map with the names of the nodes of a tree of proper paths, and with no other ones. -/
structure RenamesTree (host : SnapshotHost) (children : SnapshotChildren) (paths : List JsString)
    (mapped : Table JsString JsString) : Prop where
  tree : children.Tree (InSnapshotTree paths)
  proper : ∀ segments, InSnapshotTree paths segments → ∀ segment ∈ segments, Proper slash segment
  digests : ∀ left ∈ paths.flatMap (List.splitOn slash),
    ∀ right ∈ paths.flatMap (List.splitOn slash), host.sha256 left = host.sha256 right → left = right
  named : ∀ segments, InSnapshotTree paths segments →
    mapped.get (joined slash segments) =
      some (joined slash (SnapshotHost.renamed host children segments))
  only : ∀ path name, mapped.get path = some name →
    ∃ front segment, InSnapshotTree paths (front ++ [segment]) ∧
      path = joined slash (front ++ [segment]) ∧
        name = joined slash (SnapshotHost.renamed host children (front ++ [segment]))

namespace RenamesTree

variable {host : SnapshotHost} {children : SnapshotChildren} {paths : List JsString}
  {mapped : Table JsString JsString} {front left right : List JsString}
  {segment first second : JsString}

theorem front_proper (renames : RenamesTree host children paths mapped)
    (inside : InSnapshotTree paths (front ++ [segment])) : ∀ other ∈ front, Proper slash other :=
  fun other member => renames.proper _ inside other (List.mem_append_left _ member)

theorem last_proper (renames : RenamesTree host children paths mapped)
    (inside : InSnapshotTree paths (front ++ [segment])) : Proper slash segment :=
  renames.proper _ inside _ (List.mem_append_right _ (List.mem_singleton_self _))

/-- The entries of a directory are the nodes below it. -/
theorem mem_sorted (renames : RenamesTree host children paths mapped)
    (proper : ∀ other ∈ front, Proper slash other) :
    segment ∈ SnapshotHost.sorted children (joined slash front) ↔
      InSnapshotTree paths (front ++ [segment]) :=
  (List.mem_insertionSort _).trans (renames.tree.mem_iff _ proper _)

theorem nodup_sorted (renames : RenamesTree host children paths mapped) (parent : JsString) :
    (SnapshotHost.sorted children parent).Nodup :=
  (List.perm_insertionSort _ _).nodup_iff.mpr (renames.tree.nodup parent)

theorem parent_path (renames : RenamesTree host children paths mapped)
    (inside : InSnapshotTree paths (front ++ [segment])) :
    Segments.parent slash (joined slash (front ++ [segment])) =
      if front = [] then none else some (joined slash front) :=
  Segments.parent_joined (renames.front_proper inside) _ (renames.last_proper inside)

theorem lastOf_path (renames : RenamesTree host children paths mapped)
    (inside : InSnapshotTree paths (front ++ [segment])) :
    Segments.lastOf slash (joined slash (front ++ [segment])) = segment :=
  Segments.lastOf_joined (renames.front_proper inside) _ (renames.last_proper inside)

/-- The last segment of a name is the name of the last segment. -/
theorem lastOf_name (renames : RenamesTree host children paths mapped)
    (inside : InSnapshotTree paths (front ++ [segment])) :
    Segments.lastOf slash (joined slash (SnapshotHost.renamed host children (front ++ [segment]))) =
      host.portableName (SnapshotHost.sorted children (joined slash front)) segment := by
  rw [SnapshotHost.renamed_concat]
  exact Segments.lastOf_joined (SnapshotHost.proper_renamed (renames.front_proper inside)) _
    (host.proper_portableName (renames.last_proper inside))

/-- Paths with the same parent are in the same directory. -/
theorem front_eq (renames : RenamesTree host children paths mapped)
    (insideLeft : InSnapshotTree paths (left ++ [first]))
    (insideRight : InSnapshotTree paths (right ++ [second]))
    (same : Segments.parent slash (joined slash (left ++ [first])) =
      Segments.parent slash (joined slash (right ++ [second]))) : left = right := by
  rw [renames.parent_path insideLeft, renames.parent_path insideRight] at same
  by_cases noneLeft : left = []
  · by_cases noneRight : right = []
    · rw [noneLeft, noneRight]
    · rw [if_pos noneLeft, if_neg noneRight] at same
      cases same
  · by_cases noneRight : right = []
    · rw [if_neg noneLeft, if_pos noneRight] at same
      cases same
    · rw [if_neg noneLeft, if_neg noneRight] at same
      exact Segments.joined_injective (renames.front_proper insideLeft)
        (renames.front_proper insideRight) (Option.some.inj same)

/-- The names of a directory differ, also as a file system without case tells names apart. -/
theorem key_injective (renames : RenamesTree host children paths mapped)
    (insideLeft : InSnapshotTree paths (front ++ [first]))
    (insideRight : InSnapshotTree paths (front ++ [second]))
    (same : host.portableKey
        (host.portableName (SnapshotHost.sorted children (joined slash front)) first) =
      host.portableKey
        (host.portableName (SnapshotHost.sorted children (joined slash front)) second)) :
    first = second := by
  have proper := renames.front_proper insideLeft
  refine host.portableKey_apart (renames.nodup_sorted _) ?_ ((renames.mem_sorted proper).mpr insideLeft)
    ((renames.mem_sorted proper).mpr insideRight) same
  intro one memberOne two memberTwo
  have listed : ∀ segment ∈ SnapshotHost.sorted children (joined slash front),
      segment ∈ paths.flatMap (List.splitOn slash) := fun segment member =>
    mem_segments_of_inTree ((renames.mem_sorted proper).mp member) (by simp)
  exact renames.digests one (listed one memberOne) two (listed two memberTwo)

/-- Different paths have different names. -/
theorem name_injective (renames : RenamesTree host children paths mapped) {one two name : JsString}
    (foundOne : mapped.get one = some name) (foundTwo : mapped.get two = some name) : one = two := by
  obtain ⟨left, leftSegment, insideLeft, rfl, sameLeft⟩ := renames.only one name foundOne
  obtain ⟨right, rightSegment, insideRight, rfl, sameRight⟩ := renames.only two name foundTwo
  have names := Segments.joined_injective
    (SnapshotHost.proper_renamed (renames.proper _ insideLeft))
    (SnapshotHost.proper_renamed (renames.proper _ insideRight)) (sameLeft.symm.trans sameRight)
  have same : left ++ [leftSegment] = right ++ [rightSegment] :=
    @SnapshotHost.renameFrom_injective host children paths
      (fun front left right insideLeft insideRight same =>
        renames.key_injective insideLeft insideRight (congrArg host.portableKey same))
      [] _ _ (fun _ => insideLeft) (fun _ => insideRight) names
  rw [same]

/-- The parent of a name is the name of the parent. -/
theorem parent_name (renames : RenamesTree host children paths mapped) {path name : JsString}
    (found : mapped.get path = some name) :
    Segments.parent slash name = (Segments.parent slash path).bind mapped.get := by
  obtain ⟨front, segment, inside, rfl, rfl⟩ := renames.only path name found
  rw [renames.parent_path inside, SnapshotHost.renamed_concat,
    Segments.parent_joined (SnapshotHost.proper_renamed (renames.front_proper inside)) _
      (host.proper_portableName (renames.last_proper inside))]
  by_cases top : front = []
  · subst top
    rfl
  · have above : InSnapshotTree paths front := inTree_of_front inside top ⟨_, rfl⟩
    rw [if_neg top, Option.bind_some, renames.named front above, if_neg]
    obtain ⟨first, rest, rfl⟩ := List.exists_cons_of_ne_nil top
    exact List.cons_ne_nil _ _

/-- The path above a path has a name. -/
theorem parent_named (renames : RenamesTree host children paths mapped) {path name above : JsString}
    (found : mapped.get path = some name) (isAbove : Segments.parent slash path = some above) :
    ∃ name, mapped.get above = some name := by
  obtain ⟨front, segment, inside, rfl, _⟩ := renames.only path name found
  rw [renames.parent_path inside] at isAbove
  by_cases top : front = []
  · rw [if_pos top] at isAbove
    cases isAbove
  · rw [if_neg top] at isAbove
    cases isAbove
    exact ⟨_, renames.named front (inTree_of_front inside top ⟨_, rfl⟩)⟩

/-- A portable segment that is not reserved and is like no sibling keeps its name. -/
theorem keeps_name (renames : RenamesTree host children paths mapped) {path name : JsString}
    (found : mapped.get path = some name)
    (portable : isPortableSnapshotSegment (Segments.lastOf slash path) = true)
    (unreserved : host.isReserved (Segments.lastOf slash path) = false)
    (alone : ∀ other otherName, mapped.get other = some otherName →
      Segments.parent slash other = Segments.parent slash path → other ≠ path →
        host.portableKey (Segments.lastOf slash other) ≠
          host.portableKey (Segments.lastOf slash path)) :
    Segments.lastOf slash name = Segments.lastOf slash path := by
  obtain ⟨front, segment, inside, rfl, rfl⟩ := renames.only path name found
  have proper := renames.front_proper inside
  rw [renames.lastOf_path inside] at portable unreserved alone ⊢
  rw [renames.lastOf_name inside, SnapshotHost.portableName, if_neg]
  rw [host.needsMapping_iff (renames.nodup_sorted _) ((renames.mem_sorted proper).mpr inside),
    portable, unreserved]
  rintro (bad | reserved | ⟨other, member, different, same⟩)
  · cases bad
  · cases reserved
  · have insideOther := (renames.mem_sorted proper).mp member
    refine alone _ _ (renames.named _ insideOther) ?_ ?_ ?_
    · rw [renames.parent_path insideOther, renames.parent_path inside]
    · intro alike
      have segments :=
        Segments.joined_injective (renames.proper _ insideOther) (renames.proper _ inside) alike
      exact different (List.singleton_injective (List.append_cancel_left segments))
    · rw [renames.lastOf_path insideOther]
      exact same

/-- The map is a faithful renaming. -/
theorem faithful (renames : RenamesTree host children paths mapped) :
    FaithfulRenaming host paths mapped := by
  constructor
  case defined =>
    intro path member ancestor above
    obtain ⟨front, some, within, rfl⟩ := Segments.mem_ancestry.mp above
    exact ⟨_, renames.named front ⟨some, path, member, within⟩⟩
  case listed =>
    intro path name found
    obtain ⟨front, segment, ⟨some, whole, member, within⟩, rfl, _⟩ := renames.only path name found
    exact ⟨whole, member, Segments.mem_ancestry.mpr ⟨_, some, within, rfl⟩⟩
  case injective => exact fun _ _ _ => renames.name_injective
  case parent => exact fun _ _ => renames.parent_name
  case parent_defined => exact fun _ _ found _ => renames.parent_named found
  case apart =>
    intro first second name other foundFirst foundSecond sameParent different alike
    obtain ⟨left, leftSegment, insideLeft, rfl, rfl⟩ := renames.only first name foundFirst
    obtain ⟨right, rightSegment, insideRight, rfl, rfl⟩ := renames.only second other foundSecond
    obtain rfl := renames.front_eq insideLeft insideRight sameParent
    rw [renames.lastOf_name insideLeft, renames.lastOf_name insideRight] at alike
    rw [renames.key_injective insideLeft insideRight alike] at different
    exact different rfl
  case portable =>
    intro path name found
    obtain ⟨front, segment, inside, rfl, rfl⟩ := renames.only path name found
    rw [Segments.splitOn_joined (SnapshotHost.proper_renamed (renames.proper _ inside)) (by
      rw [SnapshotHost.renamed_concat]
      simp)]
    exact SnapshotHost.isPortable_renameFrom [] _
  case kept => exact fun _ _ => renames.keeps_name

end RenamesTree

/-- **The renaming is faithful.** Distinct safe paths get their names, as long as the digest
tells their segments apart. -/
theorem portable_snapshot_paths_faithful (host : SnapshotHost) {paths : List JsString}
    (distinct : paths.Nodup) (safe : ∀ path ∈ paths, assertSafeSnapshotPath path = .ok ())
    (digests : ∀ left ∈ paths.flatMap (List.splitOn slash),
      ∀ right ∈ paths.flatMap (List.splitOn slash),
        host.sha256 left = host.sha256 right → left = right) :
    ∃ mapped, host.portableSnapshotPaths paths = .ok mapped ∧ FaithfulRenaming host paths mapped := by
  obtain ⟨⟨children, seen⟩, declared, tree⟩ := declared_tree distinct safe
  have proper : ∀ segments, InSnapshotTree paths segments → ∀ segment ∈ segments,
      Proper slash segment := fun _ inside => proper_of_inTree safe inside
  obtain ⟨mapped, visited, writes⟩ := @SnapshotHost.visit_spec host children paths tree proper digests
    (SnapshotHost.depth paths + 1) (Nat.succ_pos _) []
    (fun _ member => absurd member List.not_mem_nil)
    (fun rest inside => Nat.lt_succ_of_le (length_le_depth inside)) Table.empty
  have named : ∀ segments, InSnapshotTree paths segments →
      mapped.get (joined slash segments) =
        some (joined slash (SnapshotHost.renamed host children segments)) := by
    intro segments inside
    refine writes.named segments ⟨inside, ?_⟩
    obtain ⟨segment, rest, rfl⟩ := List.exists_cons_of_ne_nil inside.1
    exact ⟨segment, rest, rfl⟩
  have only : ∀ path name, mapped.get path = some name →
      ∃ front segment, InSnapshotTree paths (front ++ [segment]) ∧
        path = joined slash (front ++ [segment]) ∧
          name = joined slash (SnapshotHost.renamed host children (front ++ [segment])) := by
    intro path name found
    by_contra missing
    have empty := writes.kept path (by
      rintro segments ⟨inside, _⟩ rfl
      obtain ⟨front, segment, rfl⟩ := (List.eq_nil_or_concat' segments).resolve_left inside.1
      rw [named _ inside] at found
      exact missing ⟨front, segment, inside, rfl, (Option.some.inj found).symm⟩)
    rw [empty] at found
    cases found
  refine ⟨mapped, ?_, RenamesTree.faithful ⟨tree, proper, digests, named, only⟩⟩
  rw [SnapshotHost.portableSnapshotPaths, declared]
  exact visited

/-- A host whose digest has the digits of four segments. -/
def exampleSnapshotHost : SnapshotHost where
  toHostText := HostText.plain
  sha256 segment :=
    if segment = units "vaults" then
      units "c838889d8fe595408b98b9c391c1cb236e90858f3d2795028fae346cd5706c23"
    else if segment = units "A.md" then
      units "2d63174e212b2fdb12116ac35d5d0f51ea3884e312c93aba6a7d6b1e12fa5f48"
    else if segment = units "a.md" then
      units "fecccc97532467adbf93017b357c8b17e0c75527df76a143de5cfecc2613f615"
    else units "f9141e5797e23a57b2fc6ae79ffb31956ded5060edc9c69549f9eae7e7a4b118"
  length_sha256 segment := by
    split_ifs
    all_goals rfl
  sha256_hex segment := by
    split_ifs
    all_goals exact List.all_eq_true.mp (by decide)

/-- Two files whose names differ in case are renamed. -/
theorem portable_snapshot_paths_case_variants :
    ∃ mapped, exampleSnapshotHost.portableSnapshotPaths [units "vaults/A.md", units "vaults/a.md"] =
        .ok mapped ∧
      FaithfulRenaming exampleSnapshotHost [units "vaults/A.md", units "vaults/a.md"] mapped :=
  @portable_snapshot_paths_faithful exampleSnapshotHost [units "vaults/A.md", units "vaults/a.md"]
    (by decide +kernel) (by decide +kernel) (by decide +kernel)

/-- A portable name without siblings that starts with another spelling of the reserved prefix is
changed. -/
theorem portable_snapshot_paths_reserved_variant :
    isPortableSnapshotSegment (units "~KB1-x.md") = true ∧
      encodedSegmentPrefix.isPrefixOf (units "~KB1-x.md") = false ∧
      (exampleSnapshotHost.portableSnapshotPaths [units "vaults/~KB1-x.md"]).toOption.bind
          (fun mapped => mapped.get (units "vaults/~KB1-x.md")) =
        some (units "vaults/~kb1-f9141e5797e23a57b2fc6ae79ffb31956ded5060edc9c69549f9eae7e7a4b118.md") :=
  ⟨by decide +kernel, by decide +kernel, by decide +kernel⟩

end Kb1Daemon
