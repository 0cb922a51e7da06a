/-
# Writing a file and the directories on the way

Making a directory and those on the way to it either makes all that are missing or changes nothing:
in a closed tree a file can only stand in the way where nothing was missing before it. A file that is
written behind them is the only other change.
-/

import Mathlib.Data.List.Basic
import VarPrint.Proofs.Files.Walk

namespace VarPrint.FileTree

open VarPrint.Path (IsResolved IsUsable lead locate render start)

variable {tree middle : FileTree} {location : Location} {rooted : Bool} {part name : Bytes}
  {resolved : List Bytes}

/-! ## Making directories -/

/-- The path before a slash inside a path. -/
def cutAt? (path : Bytes) (index : Nat) : Option Bytes :=
  if 0 < index ∧ path[index]? = some Byte.slash then some (path.take index) else none

theorem pathPrefixes_eq (path : Bytes) :
    pathPrefixes path = (List.range path.length).filterMap (cutAt? path) ++ [path] := rfl

theorem pathPrefixes_of_not_mem {path : Bytes} (noSlash : Byte.slash ∉ path) :
    pathPrefixes path = [path] := by
  have uncut : (List.range path.length).filterMap (cutAt? path) = [] := by
    rw [List.filterMap_eq_nil_iff]
    intro index _
    exact if_neg fun isSlash => noSlash (List.mem_of_getElem? isSlash.2)
  rw [pathPrefixes_eq, uncut, List.nil_append]

theorem cutAt?_append_of_lt {path : Bytes} {index : Nat} (inPath : index < path.length)
    (rest : Bytes) : cutAt? (path ++ rest) index = cutAt? path index := by
  rw [cutAt?, cutAt?, List.getElem?_append_left inPath,
    List.take_append_of_le_length (Nat.le_of_lt inPath)]

theorem cutAt?_append_slash (path name : Bytes) :
    cutAt? (path ++ Byte.slash :: name) path.length = if path = [] then none else some path := by
  have isSlash : (path ++ Byte.slash :: name)[path.length]? = some Byte.slash := by
    rw [List.getElem?_append_right (Nat.le_refl _), Nat.sub_self, List.getElem?_cons_zero]
  rw [cutAt?, isSlash, List.take_left]
  cases path with
  | nil => rfl
  | cons b path => exact if_pos ⟨Nat.succ_pos _, rfl⟩

theorem cutAt?_append_name (noSlash : Byte.slash ∉ name) (path : Bytes) (index : Nat) :
    cutAt? (path ++ Byte.slash :: name) (path.length + (index + 1)) = none := by
  rw [cutAt?, List.getElem?_append_right (Nat.le_add_right _ _), Nat.add_sub_cancel_left,
    List.getElem?_cons_succ]
  exact if_neg fun isSlash => noSlash (List.mem_of_getElem? isSlash.2)

/-- A name behind a slash adds one path to those on the way. -/
theorem pathPrefixes_append_slash (noSlash : Byte.slash ∉ name) (path : Bytes) :
    pathPrefixes (path ++ Byte.slash :: name) =
      (if path = [] then [] else pathPrefixes path) ++ [path ++ Byte.slash :: name] := by
  have before : ∀ index ∈ List.range path.length,
      cutAt? (path ++ Byte.slash :: name) index = cutAt? path index :=
    fun index inPath => cutAt?_append_of_lt (List.mem_range.mp inPath) _
  have uncut : (((List.range name.length).map Nat.succ).map (path.length + ·)).filterMap
      (cutAt? (path ++ Byte.slash :: name)) = [] := by
    rw [List.filterMap_eq_nil_iff]
    intro place member
    rw [List.map_map, List.mem_map] at member
    obtain ⟨index, _, rfl⟩ := member
    exact cutAt?_append_name noSlash path index
  rw [pathPrefixes_eq, List.length_append, List.range_add, List.filterMap_append,
    List.filterMap_congr before, List.length_cons, List.range_succ_eq_map, List.map_cons,
    List.filterMap_cons, Nat.add_zero, cutAt?_append_slash, uncut]
  cases path with
  | nil => rfl
  | cons b path => rfl

/-- The way to a path in shortest form goes over the way to the directory that it is in. -/
theorem pathPrefixes_render (isResolved : IsResolved rooted (part :: resolved)) :
    pathPrefixes (render rooted (part :: resolved)) =
      (if resolved = [] then [] else pathPrefixes (render rooted resolved)) ++
        [render rooted (part :: resolved)] := by
  have noSlash := (isResolved.ne_nil_and_noSlash List.mem_cons_self).2
  rw [isResolved.render_cons, lead]
  split
  · cases rooted with
    | true => exact pathPrefixes_append_slash noSlash []
    | false => exact pathPrefixes_of_not_mem noSlash
  · rw [List.append_assoc, List.singleton_append, pathPrefixes_append_slash noSlash,
      if_neg (Path.render_ne_nil _ _)]

/-- Directories are made one after the other, up to the first that fails. -/
theorem makeEach_append (paths more : List Bytes) (tree : FileTree) :
    makeEach (paths ++ more) tree =
      match makeEach paths tree with
      | (.ok (), after) => makeEach more after
      | (.error error, after) => (.error error, after) := by
  induction paths generalizing tree with
  | nil => rfl
  | cons path paths ih =>
      rw [List.cons_append, makeEach, makeEach]
      split
      · rfl
      · split
        · exact ih _
        · rfl
        · exact ih _

/-- No file stands at a location or on the way to it. -/
def IsOpen (tree : FileTree) (location : Location) : Prop :=
  ∀ above content, above <+: location → tree.get? above ≠ some (.file content)

/-- The directories on the way to a location, and there, have been made, and nothing else. -/
structure MakesDirectories (tree : FileTree) (location : Location) (after : FileTree) : Prop where
  limits : after.limits = tree.limits
  get?_eq : ∀ other,
    after.get? other = if other <+: location then some .directory else tree.get? other
  /-- Where nothing is missing, nothing is done. -/
  unchanged : tree.get? location = some .directory → after = tree

theorem IsOpen.concat (isOpen : tree.IsOpen location)
    (noFile : ∀ content, tree.get? (location ++ [part]) ≠ some (.file content)) :
    tree.IsOpen (location ++ [part]) := by
  intro above content isAbove
  rcases List.prefix_concat_iff.mp isAbove with rfl | earlier
  · exact noFile content
  · exact isOpen above content earlier

theorem concat_prefix_irrefl (location : Location) (part : Bytes) :
    ¬ location ++ [part] <+: location := by
  intro isAbove
  have le := isAbove.length_le
  rw [List.length_append, List.length_singleton] at le
  omega

/-- What stands in the last of the directories is as it was. -/
theorem MakesDirectories.get?_concat (makes : tree.MakesDirectories location middle)
    (part : Bytes) :
    middle.get? (location ++ [part]) = tree.get? (location ++ [part]) := by
  rw [makes.get?_eq, if_neg (concat_prefix_irrefl location part)]

/-- If something stands in the last of the directories, none of them had to be made. -/
theorem MakesDirectories.eq_of_present {entry : FileEntry}
    (makes : tree.MakesDirectories location middle) (closed : tree.IsClosed)
    (present : tree.get? (location ++ [part]) = some entry) : middle = tree := by
  have inDirectory := closed.get?_dropLast present
  rw [List.dropLast_concat] at inDirectory
  exact makes.unchanged inDirectory

/-- Behind the directories, one more part leads to its place. -/
theorem MakesDirectories.resolve_render
    (makes : tree.MakesDirectories (locate rooted resolved) middle)
    (usable : IsUsable tree.limits rooted (part :: resolved)) :
    middle.resolve (render rooted (part :: resolved)) =
      .ok (locate rooted resolved ++ [part]) := by
  rw [← Path.locate_cons]
  apply resolve_render_eq_ok (makes.limits ▸ usable)
  intro above isAbove
  rw [Path.dropLast_locate_cons] at isAbove
  rw [makes.get?_eq, if_pos isAbove]

/-- One directory more, at a place where there was nothing. -/
theorem MakesDirectories.put (makes : tree.MakesDirectories location middle)
    (missing : tree.get? (location ++ [part]) = none) :
    tree.MakesDirectories (location ++ [part]) (middle.put (location ++ [part]) .directory) := by
  have notDirectory : middle.get? (location ++ [part]) ≠ some .directory := by
    rw [makes.get?_concat, missing]
    exact (Option.some_ne_none FileEntry.directory).symm
  refine ⟨(limits_put _ _ _).trans makes.limits, ?_, ?_⟩
  · intro other
    rw [get?_put (isFixed_eq_false notDirectory), makes.get?_eq]
    simp only [List.prefix_concat_iff]
    split
    next isLast => rw [if_pos (.inl isLast)]
    next notLast => simp only [notLast, false_or]
  · intro present
    rw [missing] at present
    cases present

theorem MakesDirectories.keep (makes : tree.MakesDirectories location tree)
    (present : tree.get? (location ++ [part]) = some .directory) :
    tree.MakesDirectories (location ++ [part]) tree := by
  refine ⟨rfl, ?_, fun _ => rfl⟩
  intro other
  split
  next isAbove =>
    rcases List.prefix_concat_iff.mp isAbove with rfl | earlier
    · exact present
    · rw [makes.get?_eq, if_pos earlier]
  · rfl

theorem makeDirectories_start (usable : IsUsable tree.limits rooted []) :
    tree.makeDirectories (render rooted []) = (.ok (), tree) := by
  have alone : pathPrefixes (render rooted []) = [render rooted []] := by
    cases rooted <;> decide
  have there : tree.get? (start rooted) = some .directory :=
    get?_of_isFixed (Path.isFixed_start rooted)
  have reached : tree.resolve (render rooted []) = .ok (start rooted) := resolve_render usable
  rw [makeDirectories, alone, makeEach, reached]
  dsimp only
  rw [there]
  rfl

/-- The directory that a path is in is made before the last one. -/
theorem makeDirectories_render_cons (usable : IsUsable tree.limits rooted (part :: resolved)) :
    tree.makeDirectories (render rooted (part :: resolved)) =
      match tree.makeDirectories (render rooted resolved) with
      | (.ok (), after) => makeEach [render rooted (part :: resolved)] after
      | (.error error, after) => (.error error, after) := by
  rw [makeDirectories, pathPrefixes_render usable.isResolved]
  split
  next isEmpty =>
    subst isEmpty
    rw [makeDirectories_start usable.tail]
    rfl
  · exact makeEach_append _ _ tree

theorem isFixed_of_prefix_start {above : Location} (isAbove : above <+: start rooted) :
    above.isFixed = true := by
  cases rooted with
  | true =>
      have isAbove : above <+: [] ++ [utf8 "/"] := isAbove
      rcases List.prefix_concat_iff.mp isAbove with rfl | isNil
      · rfl
      · rw [List.prefix_nil.mp isNil]
        rfl
  | false =>
      rw [List.prefix_nil.mp isAbove]
      rfl

/-- The last directory after those on the way. A file can only be there if nothing on the way was
missing, so that nothing has been made yet. -/
theorem makeEach_render_cons (closed : tree.IsClosed)
    (usable : IsUsable tree.limits rooted (part :: resolved))
    (isOpen : tree.IsOpen (locate rooted resolved))
    (makes : tree.MakesDirectories (locate rooted resolved) middle) :
    (tree.IsOpen (locate rooted resolved ++ [part]) ∧
        ∃ after, makeEach [render rooted (part :: resolved)] middle = (.ok (), after) ∧
          tree.MakesDirectories (locate rooted resolved ++ [part]) after) ∨
      ¬ tree.IsOpen (locate rooted resolved ++ [part]) ∧
        ∃ error, makeEach [render rooted (part :: resolved)] middle = (.error error, tree) := by
  rw [makeEach, makes.resolve_render usable]
  dsimp only
  rw [makes.get?_concat]
  cases found : tree.get? (locate rooted resolved ++ [part]) with
  | none =>
      refine .inl ⟨isOpen.concat ?_, _, rfl, makes.put found⟩
      rw [found]
      simp
  | some entry =>
      have unchanged := makes.eq_of_present closed found
      rw [unchanged] at makes ⊢
      cases entry with
      | file content =>
          exact .inr ⟨fun isOpen => isOpen _ content (List.prefix_refl _) found, _, rfl⟩
      | directory =>
          refine .inl ⟨isOpen.concat ?_, tree, rfl, makes.keep found⟩
          rw [found]
          simp

/-- In a closed tree, either every missing directory is made or nothing happens. -/
theorem makeDirectories_render (closed : tree.IsClosed)
    (usable : IsUsable tree.limits rooted resolved) :
    (tree.IsOpen (locate rooted resolved) ∧
        ∃ after, tree.makeDirectories (render rooted resolved) = (.ok (), after) ∧
          tree.MakesDirectories (locate rooted resolved) after) ∨
      ¬ tree.IsOpen (locate rooted resolved) ∧
        ∃ error, tree.makeDirectories (render rooted resolved) = (.error error, tree) := by
  induction resolved with
  | nil =>
      have there {above : Location} (isAbove : above <+: locate rooted []) :
          tree.get? above = some .directory := by
        rw [Path.locate_nil] at isAbove
        exact get?_of_isFixed (isFixed_of_prefix_start isAbove)
      refine .inl ⟨?_, tree, makeDirectories_start usable, rfl, ?_, fun _ => rfl⟩
      · intro above content isAbove
        rw [there isAbove]
        simp
      · intro other
        split
        next isAbove => exact there isAbove
        · rfl
  | cons part resolved ih =>
      rw [makeDirectories_render_cons usable, Path.locate_cons]
      rcases ih usable.tail with ⟨isOpen, middle, made, makes⟩ | ⟨blocked, error, failed⟩
      · rw [made]
        exact makeEach_render_cons closed usable isOpen makes
      · -- a file on the way to the directory is also on the way to what would be in it
        right
        refine ⟨fun isOpen => blocked ?_, error, ?_⟩
        · intro above content isAbove
          exact isOpen above content (isAbove.trans (List.prefix_append _ _))
        · rw [failed]

/-! ## Writing a file -/

/-- A file can be written at a location: no file stands on the way, and no directory there. -/
structure IsFree (tree : FileTree) (location : Location) : Prop where
  isOpen : tree.IsOpen location.dropLast
  notDirectory : tree.get? location ≠ some .directory

/-- A file has been written at a location and the directories on the way made, and nothing else. -/
structure WritesFile (tree : FileTree) (location : Location) (content : Bytes) (after : FileTree) :
    Prop where
  limits : after.limits = tree.limits
  written : after.get? location = some (.file content)
  /-- What is on the way is a directory, and was one or was missing. -/
  directories : ∀ above, above <+: location.dropLast →
    after.get? above = some .directory ∧
      (tree.get? above = none ∨ tree.get? above = some .directory)
  others : ∀ other, ¬ other <+: location → after.get? other = tree.get? other

theorem MakesDirectories.write (makes : tree.MakesDirectories location middle)
    (isOpen : tree.IsOpen location)
    (notDirectory : tree.get? (location ++ [name]) ≠ some .directory) (content : Bytes) :
    tree.WritesFile (location ++ [name]) content
      (middle.put (location ++ [name]) (.file content)) := by
  have loose := isFixed_eq_false notDirectory
  refine ⟨(limits_put _ _ _).trans makes.limits, ?_, ?_, ?_⟩
  · rw [get?_put loose, if_pos rfl]
  · intro above isAbove
    rw [List.dropLast_concat] at isAbove
    have different : above ≠ location ++ [name] := by
      rintro rfl
      exact concat_prefix_irrefl location name isAbove
    refine ⟨?_, ?_⟩
    · rw [get?_put loose, if_neg different, makes.get?_eq, if_pos isAbove]
    · cases found : tree.get? above with
      | none => exact .inl rfl
      | some entry =>
          cases entry with
          | file content => exact absurd found (isOpen above content isAbove)
          | directory => exact .inr rfl
  · intro other notAbove
    rw [List.prefix_concat_iff, not_or] at notAbove
    rw [get?_put loose, if_neg notAbove.1, makes.get?_eq, if_neg notAbove.2]

/-- A file is written behind its directories, unless a directory has its place, and then none of
them had to be made. -/
theorem write_render_cons (closed : tree.IsClosed)
    (usable : IsUsable tree.limits rooted (name :: resolved))
    (makes : tree.MakesDirectories (locate rooted resolved) middle) (content : Bytes) :
    (tree.get? (locate rooted resolved ++ [name]) ≠ some .directory ∧
        middle.write (render rooted (name :: resolved)) content =
          (.ok (), middle.put (locate rooted resolved ++ [name]) (.file content))) ∨
      tree.get? (locate rooted resolved ++ [name]) = some .directory ∧
        ∃ error, middle.write (render rooted (name :: resolved)) content =
          (.error error, tree) := by
  rw [write, makes.resolve_render usable]
  dsimp only
  rw [makes.get?_concat]
  split
  next found =>
    rw [makes.eq_of_present closed found]
    exact .inr ⟨found, _, rfl⟩
  next notDirectory => exact .inl ⟨notDirectory, rfl⟩

/-- The path of a written file leads to it. -/
theorem WritesFile.resolve_eq {after : FileTree} {content : Bytes}
    (writes : tree.WritesFile (locate rooted resolved) content after)
    (usable : IsUsable tree.limits rooted resolved) :
    after.resolve (render rooted resolved) = .ok (locate rooted resolved) := by
  rw [← writes.limits] at usable
  exact resolve_render_eq_ok usable fun above isAbove => (writes.directories above isAbove).1

theorem WritesFile.read_eq {after : FileTree} {content : Bytes}
    (writes : tree.WritesFile (locate rooted resolved) content after)
    (usable : IsUsable tree.limits rooted resolved) :
    after.read (render rooted resolved) = .ok content := by
  rw [read, writes.resolve_eq usable]
  dsimp only
  rw [writes.written]

end VarPrint.FileTree
