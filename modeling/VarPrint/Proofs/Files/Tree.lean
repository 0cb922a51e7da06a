/-
# Trees that hang together

In a file tree everything stands in a directory. The empty tree is like that, and every request of a
task keeps it so: a path only leads to a place in a directory, a directory is made only where there
is nothing, and a file never takes the place of a directory.
-/

import VarPrint.Files.Task
import VarPrint.Proofs.Outcome

namespace VarPrint

theorem Location.isFixed_iff {location : Location} :
    location.isFixed = true ↔ location = root ∨ ∀ part ∈ location, part = utf8 ".." := by
  simp [isFixed]

theorem Location.isFixed_dropLast {location : Location} (fixed : location.isFixed = true) :
    Location.isFixed location.dropLast = true := by
  rw [isFixed_iff] at fixed ⊢
  right
  rcases fixed with rfl | onlyAbove
  · exact fun part member => absurd member List.not_mem_nil
  · exact fun part member => onlyAbove part (List.dropLast_subset _ member)

namespace FileTree

variable {tree : FileTree} {location other next : Location} {entry : FileEntry} {part path : Bytes}

theorem get?_of_isFixed (fixed : location.isFixed = true) :
    tree.get? location = some .directory :=
  if_pos fixed

theorem isFixed_eq_false (notDirectory : tree.get? location ≠ some .directory) :
    location.isFixed = false :=
  Bool.eq_false_iff.mpr (mt get?_of_isFixed notDirectory)

theorem get?_of_isFixed_eq_false (loose : location.isFixed = false) :
    tree.get? location = tree.entries.lookup location := by
  rw [get?, loose, if_neg Bool.false_ne_true]

@[simp]
theorem limits_put (tree : FileTree) (location : Location) (entry : FileEntry) :
    (tree.put location entry).limits = tree.limits := by
  rw [put]
  split <;> rfl

theorem lookup_replace_self {entries : List (Location × FileEntry)}
    (present : (entries.any fun old => old.1 == location) = true) :
    (entries.map fun old => if old.1 = location then (location, entry) else old).lookup location =
      some entry := by
  induction entries with
  | nil => cases present
  | cons old entries ih =>
      by_cases same : old.1 = location
      · rw [List.map_cons, if_pos same, List.lookup_cons_self]
      · have skipped : (location == old.1) = false := beq_false_of_ne (Ne.symm same)
        rw [List.any_cons, beq_false_of_ne same, Bool.false_or] at present
        rw [List.map_cons, if_neg same, List.lookup_cons, skipped]
        exact ih present

theorem lookup_replace_of_ne (different : other ≠ location)
    (entries : List (Location × FileEntry)) :
    (entries.map fun old => if old.1 = location then (location, entry) else old).lookup other =
      entries.lookup other := by
  induction entries with
  | nil => rfl
  | cons old entries ih =>
      by_cases same : old.1 = location
      · have skipped : (other == old.1) = false := beq_false_of_ne (same ▸ different)
        rw [List.map_cons, if_pos same, List.lookup_cons, beq_false_of_ne different,
          List.lookup_cons, skipped]
        exact ih
      · rw [List.map_cons, if_neg same, List.lookup_cons, ih, List.lookup_cons]

theorem lookup_put (tree : FileTree) (location : Location) (entry : FileEntry)
    (other : Location) :
    (tree.put location entry).entries.lookup other =
      if other = location then some entry else tree.entries.lookup other := by
  rw [put]
  split
  next present =>
    split
    next same =>
      rw [same]
      exact lookup_replace_self present
    next different => exact lookup_replace_of_ne different tree.entries
  next absent =>
    show (tree.entries ++ [(location, entry)]).lookup other = _
    rw [List.lookup_append]
    split
    next same =>
      have missing : tree.entries.lookup location = none := by
        rw [List.lookup_eq_none_iff]
        intro old member
        rw [bne_iff_ne]
        rintro rfl
        exact absent (List.any_eq_true.mpr ⟨old, member, BEq.rfl⟩)
      rw [same, missing, Option.none_or, List.lookup_cons_self]
    next different =>
      rw [List.lookup_cons, beq_false_of_ne different]
      exact Option.or_none

/-- An entry stands where it was put, and nothing else changes. -/
theorem get?_put (loose : location.isFixed = false) (tree : FileTree) (entry : FileEntry)
    (other : Location) :
    (tree.put location entry).get? other =
      if other = location then some entry else tree.get? other := by
  split
  next same => rw [same, get?_of_isFixed_eq_false loose, lookup_put, if_pos rfl]
  next different => rw [get?, lookup_put, if_neg different, get?]

theorem mem_entries_put {old : Location × FileEntry}
    (member : old ∈ (tree.put location entry).entries) :
    old.1 = location ∨ old ∈ tree.entries := by
  rw [put] at member
  split at member
  · obtain ⟨former, isFormer, rfl⟩ := List.mem_map.mp member
    split
    · exact .inl rfl
    · exact .inr isFormer
  · rcases List.mem_append.mp member with isFormer | isNew
    · exact .inr isFormer
    · exact .inl (congrArg Prod.fst (List.mem_singleton.mp isNew))

/-- Everything stands in a directory. -/
def IsClosed (tree : FileTree) : Prop :=
  ∀ entry ∈ tree.entries, tree.get? entry.1.dropLast = some .directory

instance : DecidablePred IsClosed :=
  fun tree => inferInstanceAs (Decidable (∀ entry ∈ tree.entries, _ = _))

namespace IsClosed

theorem get?_dropLast (closed : tree.IsClosed) (present : tree.get? location = some entry) :
    tree.get? location.dropLast = some .directory := by
  by_cases fixed : location.isFixed = true
  · exact get?_of_isFixed (Location.isFixed_dropLast fixed)
  · rw [get?_of_isFixed_eq_false (Bool.eq_false_iff.mpr fixed)] at present
    obtain ⟨earlier, later, split, _⟩ := List.lookup_eq_some_iff.mp present
    apply closed (location, entry)
    rw [split]
    exact List.mem_append_right _ List.mem_cons_self

/-- Something new in a directory leaves the tree closed, unless it takes the place of a
directory. -/
theorem put (closed : tree.IsClosed) (notDirectory : tree.get? location ≠ some .directory)
    (inDirectory : tree.get? location.dropLast = some .directory) (entry : FileEntry) :
    (tree.put location entry).IsClosed := by
  intro old member
  rw [get?_put (isFixed_eq_false notDirectory)]
  rcases mem_entries_put member with isNew | isFormer
  · have different : location.dropLast ≠ location := fun same => notDirectory (same ▸ inDirectory)
    rw [isNew, if_neg different, inDirectory]
  · have above := closed old isFormer
    have different : old.1.dropLast ≠ location := fun same => notDirectory (same ▸ above)
    rw [if_neg different, above]

theorem get?_dropLast_parent (closed : tree.IsClosed)
    (present : tree.get? location = some .directory) :
    tree.get? location.parent.dropLast = some .directory := by
  rw [Location.parent]
  split
  · exact get?_of_isFixed rfl
  · split
    · rw [List.dropLast_concat]
      exact present
    · exact closed.get?_dropLast (closed.get?_dropLast present)

/-- A step leads to a place in a directory. -/
theorem get?_dropLast_of_step (closed : tree.IsClosed)
    (stepped : tree.step location part = .ok next) :
    tree.get? next.dropLast = some .directory := by
  rw [step] at stepped
  split at stepped
  · cases stepped
  · cases stepped
  next present =>
    split at stepped
    · cases stepped
      exact closed.get?_dropLast present
    · split at stepped
      · cases stepped
        exact closed.get?_dropLast_parent present
      · split at stepped
        · cases stepped
          rw [List.dropLast_concat]
          exact present
        · cases stepped

/-- A path leads to a place in a directory. -/
theorem get?_dropLast_of_resolve (closed : tree.IsClosed)
    (resolved : tree.resolve path = .ok location) :
    tree.get? location.dropLast = some .directory := by
  rw [resolve] at resolved
  split at resolved
  · cases resolved
  · split at resolved
    · cases resolved
    · split at resolved
      · have pieces := List.dropLast_concat_getLast (List.splitOn_ne_nil Byte.slash path)
        dsimp only at resolved
        rw [← pieces, List.foldlM_append, bind_eq_ok_iff] at resolved
        obtain ⟨before, _, last⟩ := resolved
        rw [List.foldlM_cons, bind_eq_ok_iff] at last
        obtain ⟨reached, stepped, ended⟩ := last
        cases ended
        exact closed.get?_dropLast_of_step stepped
      · cases resolved

theorem write (closed : tree.IsClosed) (path content : Bytes) :
    (tree.write path content).2.IsClosed := by
  rw [FileTree.write]
  split
  · exact closed
  next resolved =>
    split
    · exact closed
    next notDirectory =>
      exact closed.put notDirectory (closed.get?_dropLast_of_resolve resolved) _

theorem makeEach (closed : tree.IsClosed) (paths : List Bytes) :
    (makeEach paths tree).2.IsClosed := by
  induction paths generalizing tree with
  | nil => exact closed
  | cons path paths ih =>
      rw [FileTree.makeEach]
      split
      · exact closed
      next resolved =>
        split
        · exact ih closed
        · exact closed
        next missing =>
          have notDirectory : tree.get? _ ≠ some .directory :=
            missing ▸ (Option.some_ne_none FileEntry.directory).symm
          exact ih (closed.put notDirectory (closed.get?_dropLast_of_resolve resolved) _)

/-- Whatever a task does, the tree after it is closed again. -/
theorem run {α : Type} (closed : tree.IsClosed) (task : FileTask α) :
    (task.run tree).2.IsClosed := by
  induction task generalizing tree with
  | done value => exact closed
  | look path next ih => exact ih _ closed
  | read path next ih => exact ih _ closed
  | makeDirectories path next ih => exact ih _ (closed.makeEach _)
  | write path content next ih => exact ih _ (closed.write path content)

end IsClosed

end FileTree

end VarPrint
