import Kb1Daemon.Foundation.PosixDisk
import Kb1Daemon.Foundation.Rekey

/-! # Changes to whole trees of a disk

Removing what is at or below a path, making a directory with those above it, and renaming or
copying a path with all that is below it, for an owner that no mode keeps out.
-/

universe u v

namespace Posix.Disk

variable {Name : Type u} {Content : Type v} [DecidableEq Name] (disk : Disk Name Content)

/-- The disk without what is at or below a path. -/
def without (path : List Name) : Disk Name Content where
  table := disk.table.keep fun other => !path.isPrefixOf other
  closed front name := by
    rw [Table.get_keep, Table.get_keep]
    intro present
    split_ifs at present with kept
    · have higher : (!path.isPrefixOf front) = true := by
        rw [Bool.not_eq_true', ← Bool.not_eq_true, List.isPrefixOf_iff_prefix] at kept ⊢
        exact fun inner => kept (inner.trans (List.prefix_append front [name]))
      rw [if_pos higher]
      exact disk.closed front name present
    · cases present

/-- Without a path all that is below it is gone. -/
theorem get_without (path other : List Name) :
    (disk.without path).get other = if path <+: other then none else disk.get other := by
  rw [get, without, Table.get_keep]
  by_cases inner : path <+: other
  · rw [if_pos inner, if_neg]
    rw [Bool.not_eq_true', ← Bool.not_eq_true, List.isPrefixOf_iff_prefix]
    exact fun outer => outer inner
  · rw [if_neg inner, if_pos]
    · rfl
    · rw [Bool.not_eq_true', ← Bool.not_eq_true, List.isPrefixOf_iff_prefix]
      exact inner

/-- A directory under each of the paths where there is nothing. -/
def addDirectories (table : Table (List Name) (Entry Content)) (mode : Nat) (now : Int)
    (fronts : List (List Name)) : Table (List Name) (Entry Content) :=
  fronts.foldl
    (fun next front =>
      if (next.get front).isNone then next.set front (.directory mode now) else next)
    table

omit disk in
theorem get_addDirectories (table : Table (List Name) (Entry Content)) (mode : Nat) (now : Int)
    (fronts : List (List Name)) (other : List Name) :
    (addDirectories table mode now fronts).get other =
      if other ∈ fronts ∧ table.get other = none then some (.directory mode now)
      else table.get other := by
  induction fronts generalizing table with
  | nil => simp [addDirectories]
  | cons front rest ih =>
      unfold addDirectories at ih ⊢
      rw [List.foldl_cons, ih]
      by_cases absent : (table.get front).isNone = true
      · rw [if_pos absent, Table.get_set]
        rw [Option.isNone_iff_eq_none] at absent
        by_cases own : other = front
        · subst own
          simp [absent]
        · simp [own]
      · rw [if_neg absent]
        by_cases own : other = front
        · subst own
          rw [Option.isNone_iff_eq_none] at absent
          simp [absent]
        · simp [own]

/-- `mkdir` with `recursive`: the path and those above it are directories then. -/
def makeAll (path : List Name) (mode : Nat) (now : Int) : Option (Disk Name Content) :=
  if free : ∀ front ∈ path.inits, (disk.get front).all Entry.isDirectory = true then
    some {
      table := addDirectories disk.table mode now path.inits
      closed := by
        intro front name
        rw [get_addDirectories, get_addDirectories]
        intro present
        by_cases inner : front ∈ path.inits
        · have directory := free front inner
          cases found : disk.table.get front with
          | none => simp [inner, Entry.isDirectory]
          | some entry =>
              rw [get, found] at directory
              simpa using directory
        · have outside : front ++ [name] ∉ path.inits := by
            rw [List.mem_inits] at inner ⊢
            exact fun lower => inner ((List.prefix_append front [name]).trans lower)
          rw [if_neg fun both => outside both.1] at present
          rw [if_neg fun both => inner both.1]
          exact disk.closed front name present }
  else none

variable {disk}

theorem get_makeAll {path : List Name} {mode : Nat} {now : Int} {next : Disk Name Content}
    (made : disk.makeAll path mode now = some next) (other : List Name) :
    next.get other =
      if other <+: path ∧ disk.get other = none then some (.directory mode now)
      else disk.get other := by
  unfold makeAll at made
  split_ifs at made with free
  obtain rfl := Option.some.inj made
  rw [get, get_addDirectories]
  simp only [List.mem_inits]
  rfl

/-- A directory stays, and the path and those above it are directories. -/
theorem isDirectoryAt_makeAll {path : List Name} {mode : Nat} {now : Int}
    {next : Disk Name Content} (made : disk.makeAll path mode now = some next) {other : List Name}
    (directory : disk.isDirectoryAt other = true ∨ other <+: path) :
    next.isDirectoryAt other = true := by
  have free : ∀ front ∈ path.inits, (disk.get front).all Entry.isDirectory = true := by
    unfold makeAll at made
    split_ifs at made with free
    exact free
  rw [isDirectoryAt, get_makeAll made]
  rw [isDirectoryAt] at directory
  cases found : disk.get other with
  | none =>
      rw [found] at directory
      have inner := directory.resolve_left (by simp)
      simp [inner, Entry.isDirectory]
  | some entry =>
      rw [found] at directory
      rcases directory with directory | inner
      · simpa using directory
      · have own := free other ((List.mem_inits _ _).mpr inner)
        rw [found] at own
        simpa using own

variable (disk)

/-- Where a path goes when one path is renamed to another; what was there is gone. -/
def renamed (source target other : List Name) : Option (List Name) :=
  if source <+: other then some (target ++ other.drop source.length)
  else if target <+: other then none
  else some other

omit disk in
theorem renamed_eq_below {source target : List Name} (rest other : List Name) :
    renamed source target other = some (target ++ rest) ↔ other = source ++ rest := by
  unfold renamed
  constructor
  · intro moved
    split_ifs at moved with inner away
    · obtain ⟨tail, rfl⟩ := inner
      rw [List.drop_left] at moved
      rw [List.append_cancel_left (Option.some.inj moved)]
    · exact absurd (Option.some.inj moved ▸ List.prefix_append target rest) away
  · rintro rfl
    rw [if_pos (List.prefix_append _ _), List.drop_left]

omit disk in
theorem renamed_eq_outside {source target place : List Name} (outside : ¬ target <+: place)
    (other : List Name) :
    renamed source target other = some place ↔ other = place ∧ ¬ source <+: place := by
  unfold renamed
  constructor
  · intro moved
    split_ifs at moved with inner away
    · exact absurd (Option.some.inj moved ▸ List.prefix_append target _) outside
    · obtain rfl := Option.some.inj moved
      exact ⟨rfl, inner⟩
  · rintro ⟨rfl, plain⟩
    rw [if_neg plain, if_neg outside]

theorem get_rekey_renamed (source target other : List Name) :
    (disk.table.rekey (renamed source target)).get other =
      if target <+: other then disk.get (source ++ other.drop target.length)
      else if source <+: other then none
      else disk.get other := by
  by_cases below : target <+: other
  · rw [if_pos below]
    obtain ⟨rest, rfl⟩ := below
    rw [List.drop_left]
    exact Table.get_rekey_of_only (renamed_eq_below rest)
  · rw [if_neg below]
    by_cases inner : source <+: other
    · rw [if_pos inner]
      exact Table.get_rekey_of_none fun key moved =>
        ((renamed_eq_outside below key).mp moved).2 inner
    · rw [if_neg inner]
      exact Table.get_rekey_of_only fun key =>
        (renamed_eq_outside below key).trans (and_iff_left inner)

/-- Nothing is below the path. -/
def isBareAt (path : List Name) : Bool :=
  disk.table.entries.all fun entry => path ∉ above entry.1

/-- What is at the target gives way to what is at the source. -/
def givesWay (source target : List Name) : Bool :=
  match disk.get target with
  | none => true
  | some entry =>
      if entry.isDirectory then disk.isDirectoryAt source && disk.isBareAt target
      else !disk.isDirectoryAt source

/-- `rename`, of an entry with all that is below it, to a path in a directory that is not at or
below it. -/
def rename (source target : List Name) : Option (Disk Name Content) :=
  if free : ¬ source <+: target ∧ disk.isDirectoryAt target.dropLast = true ∧
      (disk.get source).isSome = true ∧ disk.givesWay source target = true then
    some {
      table := disk.table.rekey (renamed source target)
      closed := by
        intro front name
        rw [get_rekey_renamed, get_rekey_renamed]
        intro present
        by_cases below : target <+: front
        · rw [if_pos below]
          obtain ⟨rest, rfl⟩ := below
          rw [if_pos ((List.prefix_append _ rest).trans (List.prefix_append _ _)),
            List.append_assoc, List.drop_left, ← List.append_assoc] at present
          rw [List.drop_left]
          exact disk.closed _ name present
        · rw [if_neg below]
          by_cases own : target = front ++ [name]
          · have plain : ¬ source <+: front := fun inner =>
              free.1 (own ▸ inner.trans (List.prefix_append _ _))
            rw [if_neg plain]
            have parent := free.2.1
            rw [own, List.dropLast_concat] at parent
            exact parent
          · have outside : ¬ target <+: front ++ [name] := fun inner =>
              (List.prefix_concat_iff.mp inner).elim own below
            rw [if_neg outside] at present
            split_ifs at present with inner
            · cases present
            · rw [if_neg fun higher => inner (higher.trans (List.prefix_append _ _))]
              exact disk.closed front name present }
  else none

variable {disk}

/-- What is found after a rename. -/
theorem get_rename {source target : List Name} {next : Disk Name Content}
    (done : disk.rename source target = some next) (other : List Name) :
    next.get other =
      if target <+: other then disk.get (source ++ other.drop target.length)
      else if source <+: other then none
      else disk.get other := by
  unfold rename at done
  split_ifs at done
  obtain rfl := Option.some.inj done
  exact get_rekey_renamed disk source target other

/-- What a rename needs. -/
theorem rename_isSome {source target : List Name} {next : Disk Name Content}
    (done : disk.rename source target = some next) :
    ¬ source <+: target ∧ disk.isDirectoryAt target.dropLast = true ∧
      (disk.get source).isSome = true ∧ disk.givesWay source target = true := by
  unfold rename at done
  split_ifs at done with free
  exact free

/-- Where a path goes when a tree is copied. -/
def copied (source target other : List Name) : Option (List Name) :=
  if source <+: other then some (target ++ other.drop source.length) else none

omit disk in
theorem copied_eq_below {source target : List Name} (rest other : List Name) :
    copied source target other = some (target ++ rest) ↔ other = source ++ rest := by
  unfold copied
  constructor
  · intro leads
    split_ifs at leads with inner
    obtain ⟨tail, rfl⟩ := inner
    rw [List.drop_left] at leads
    rw [List.append_cancel_left (Option.some.inj leads)]
  · rintro rfl
    rw [if_pos (List.prefix_append _ _), List.drop_left]

omit disk in
/-- Nothing is copied outside the target. -/
theorem copied_ne_outside {source target place : List Name} (outside : ¬ target <+: place)
    (other : List Name) : copied source target other ≠ some place := by
  unfold copied
  split_ifs
  · rw [ne_eq, Option.some_inj]
    rintro rfl
    exact outside (List.prefix_append _ _)
  · rintro ⟨⟩

theorem get_layered_copied (source target other : List Name) :
    (Table.layered (disk.table.rekey (copied source target)) disk.table).get other =
      if target <+: other then
        (disk.get (source ++ other.drop target.length)).or (disk.get other)
      else disk.get other := by
  rw [Table.get_layered]
  by_cases below : target <+: other
  · rw [if_pos below]
    obtain ⟨rest, rfl⟩ := below
    rw [List.drop_left, Table.get_rekey_of_only (copied_eq_below rest)]
    rfl
  · rw [if_neg below, Table.get_rekey_of_none (copied_ne_outside below)]
    rfl

variable (disk)

/-- Nothing is in the way of a tree that is copied: directories come to directories, and files to
files. -/
def agrees (source target : List Name) : Bool :=
  disk.table.entries.all fun entry =>
    match copied source target entry.1 with
    | none => true
    | some place => (disk.get place).all fun old =>
        (disk.get entry.1).all fun new => old.isDirectory == new.isDirectory

variable {disk}

theorem isDirectory_eq_of_agrees {source target : List Name}
    (agrees : disk.agrees source target = true) {rest : List Name} {new old : Entry Content}
    (found : disk.get (source ++ rest) = some new) (there : disk.get (target ++ rest) = some old) :
    old.isDirectory = new.isDirectory := by
  unfold Disk.agrees at agrees
  rw [List.all_eq_true] at agrees
  have same := agrees _ (Table.holds_of_get found)
  rw [(copied_eq_below rest (source ++ rest)).mpr rfl] at same
  dsimp only at same
  rw [there, Option.all_some, found, Option.all_some] at same
  exact beq_iff_eq.mp same

variable (disk)

/-- A copy of an entry with all that is below it, over what is at the target. -/
def copy (source target : List Name) : Option (Disk Name Content) :=
  if free : ¬ source <+: target ∧ disk.isDirectoryAt target.dropLast = true ∧
      (disk.get source).isSome = true ∧ disk.agrees source target = true then
    some {
      table := Table.layered (disk.table.rekey (copied source target)) disk.table
      closed := by
        intro front name
        rw [get_layered_copied, get_layered_copied]
        intro present
        by_cases below : target <+: front
        · obtain ⟨rest, rfl⟩ := below
          rw [if_pos ((List.prefix_append _ rest).trans (List.prefix_append _ _)),
            List.append_assoc, List.drop_left, ← List.append_assoc, Option.isSome_or,
            Bool.or_eq_true] at present
          rw [if_pos (List.prefix_append _ _), List.drop_left]
          cases found : disk.get (source ++ rest) with
          | some entry =>
              rcases present with new | old
              · have directory := disk.closed _ name new
                rwa [← get, found] at directory
              · have directory := disk.closed _ name (List.append_assoc target rest [name] ▸ old)
                cases there : disk.get (target ++ rest) with
                | none => rw [← get, there] at directory; cases directory
                | some entry' =>
                    rw [← get, there, Option.any_some] at directory
                    rw [Option.some_or, Option.any_some,
                      ← isDirectory_eq_of_agrees free.2.2.2 found there]
                    exact directory
          | none =>
              rw [Option.none_or]
              rcases present with new | old
              · have directory := disk.closed _ name new
                rw [← get, found] at directory
                cases directory
              · exact disk.closed _ name (List.append_assoc target rest [name] ▸ old)
        · rw [if_neg below]
          by_cases own : target = front ++ [name]
          · have parent := free.2.1
            rw [own, List.dropLast_concat] at parent
            exact parent
          · rw [if_neg fun inner => (List.prefix_concat_iff.mp inner).elim own below] at present
            exact disk.closed front name present }
  else none

variable {disk}

/-- What is found after a copy. -/
theorem get_copy {source target : List Name} {next : Disk Name Content}
    (done : disk.copy source target = some next) (other : List Name) :
    next.get other =
      if target <+: other then
        (disk.get (source ++ other.drop target.length)).or (disk.get other)
      else disk.get other := by
  unfold copy at done
  split_ifs at done
  obtain rfl := Option.some.inj done
  exact get_layered_copied source target other

/-- What a copy needs. -/
theorem copy_isSome {source target : List Name} {next : Disk Name Content}
    (done : disk.copy source target = some next) :
    ¬ source <+: target ∧ disk.isDirectoryAt target.dropLast = true ∧
      (disk.get source).isSome = true ∧ disk.agrees source target = true := by
  unfold copy at done
  split_ifs at done with free
  exact free

/-- A copy takes no directory away. -/
theorem isDirectoryAt_copy {source target : List Name} {next : Disk Name Content}
    (done : disk.copy source target = some next) {path : List Name}
    (directory : disk.isDirectoryAt path = true) : next.isDirectoryAt path = true := by
  rw [isDirectoryAt, get_copy done]
  split_ifs with below
  · obtain ⟨rest, rfl⟩ := below
    rw [List.drop_left]
    cases found : disk.get (source ++ rest) with
    | none => exact directory
    | some entry =>
        rw [isDirectoryAt] at directory
        cases there : disk.get (target ++ rest) with
        | none =>
            rw [there] at directory
            cases directory
        | some old =>
            rw [there, Option.any_some] at directory
            rw [Option.some_or, Option.any_some,
              ← isDirectory_eq_of_agrees (copy_isSome done).2.2.2 found there]
            exact directory
  · exact directory

variable (disk)

/-- Write a file in a directory, in place of the file that was there. -/
def write (path : List Name) (content : Content) (mode : Nat) (now : Int) :
    Option (Disk Name Content) :=
  if free : path ≠ [] ∧ disk.isDirectoryAt path.dropLast = true ∧ disk.isDirectoryAt path = false then
    some (disk.put path (.file content mode now)
      (fun front name same => by
        have parent := free.2.1
        rwa [same, List.dropLast_concat] at parent)
      (fun directory => absurd directory (by rw [free.2.2]; exact Bool.false_ne_true)))
  else none

variable {disk}

/-- What is found after a file has been written. -/
theorem get_write {path : List Name} {content : Content} {mode : Nat} {now : Int}
    {next : Disk Name Content} (done : disk.write path content mode now = some next)
    (other : List Name) :
    next.get other = if other = path then some (.file content mode now) else disk.get other := by
  unfold write at done
  split_ifs at done
  obtain rfl := Option.some.inj done
  exact get_put _ other

end Posix.Disk
