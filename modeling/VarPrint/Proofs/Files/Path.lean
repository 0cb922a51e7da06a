/-
# Paths in shortest form

Cleaning a path resolves its parts. What is left are parent parts, which stand in front and only in
a path that does not begin at the root, and names behind them. A cleaned path is these parts written
out, and taking it apart gives the same parts again. So a name that is put into a directory stands
behind the parts of the directory. The parent of the result is the directory, and its last element
is the name.
-/

import VarPrint.Files.Path
import VarPrint.Proofs.Text.Split
import Mathlib.Data.List.DropRight

namespace VarPrint.Path

variable {rooted : Bool} {part name path directory : Bytes} {resolved : List Bytes}

/-- A part that leads down to something in a directory. -/
structure IsName (part : Bytes) : Prop where
  ne_nil : part ≠ []
  ne_here : part ≠ utf8 "."
  ne_above : part ≠ utf8 ".."
  noSlash : Byte.slash ∉ part

/-- Parts, in reverse, that nothing is left to resolve in: names behind parent parts, and no parent
part below the root. -/
inductive IsResolved (rooted : Bool) : List Bytes → Prop where
  | nil : IsResolved rooted []
  | above {resolved : List Bytes} (notRooted : rooted = false)
      (onlyAbove : ∀ part ∈ resolved, part = utf8 "..") (earlier : IsResolved rooted resolved) :
      IsResolved rooted (utf8 ".." :: resolved)
  | name {part : Bytes} {resolved : List Bytes} (isName : IsName part)
      (earlier : IsResolved rooted resolved) : IsResolved rooted (part :: resolved)

namespace IsResolved

theorem tail (isResolved : IsResolved rooted (part :: resolved)) : IsResolved rooted resolved := by
  cases isResolved with
  | above _ _ earlier => exact earlier
  | name _ earlier => exact earlier

theorem ne_nil_and_noSlash (isResolved : IsResolved rooted resolved) (member : part ∈ resolved) :
    part ≠ [] ∧ Byte.slash ∉ part := by
  induction isResolved with
  | nil => cases member
  | above _ _ _ ih =>
      rcases List.mem_cons.mp member with rfl | member
      · decide
      · exact ih member
  | name isName _ ih =>
      rcases List.mem_cons.mp member with rfl | member
      · exact ⟨isName.ne_nil, isName.noSlash⟩
      · exact ih member

/-- Resolving one more part keeps parts resolved. -/
theorem push (isResolved : IsResolved rooted resolved) (noSlash : Byte.slash ∉ part) :
    IsResolved rooted (resolvePart rooted resolved part) := by
  unfold resolvePart
  split
  · exact isResolved
  next notNeutral =>
    obtain ⟨notEmpty, notHere⟩ := not_or.mp notNeutral
    split
    next isAbove =>
      subst isAbove
      cases isResolved with
      | nil =>
          cases rooted with
          | true => exact nil
          | false => exact above rfl (fun _ member => absurd member List.not_mem_nil) nil
      | above notRooted onlyAbove earlier =>
          dsimp only
          rw [if_pos rfl]
          exact above notRooted (List.forall_mem_cons.mpr ⟨rfl, onlyAbove⟩)
            (above notRooted onlyAbove earlier)
      | name isName earlier =>
          dsimp only
          rw [if_neg isName.ne_above]
          exact earlier
    next notAbove => exact name ⟨notEmpty, notHere, notAbove, noSlash⟩ isResolved

/-- A part that is resolved already goes on top of those before it. -/
theorem resolvePart_eq_cons (isResolved : IsResolved rooted (part :: resolved)) :
    resolvePart rooted resolved part = part :: resolved := by
  cases isResolved with
  | above notRooted onlyAbove earlier =>
      unfold resolvePart
      rw [if_neg (by decide), if_pos rfl]
      cases resolved with
      | nil => rw [notRooted, if_neg Bool.false_ne_true]
      | cons last earlier => exact if_pos (onlyAbove last List.mem_cons_self)
  | name isName earlier =>
      unfold resolvePart
      rw [if_neg (not_or.mpr ⟨isName.ne_nil, isName.ne_here⟩), if_neg isName.ne_above]

theorem foldl_resolvePart (isResolved : IsResolved rooted resolved) :
    resolved.reverse.foldl (resolvePart rooted) [] = resolved := by
  induction resolved with
  | nil => rfl
  | cons part resolved ih =>
      rw [List.reverse_cons, List.foldl_append, ih isResolved.tail]
      exact isResolved.resolvePart_eq_cons

end IsResolved

/-- The path begins at the root. -/
def isRooted (path : Bytes) : Bool :=
  path.head? = some Byte.slash

/-- The resolved parts of a path, in reverse. -/
def resolvedParts (path : Bytes) : List Bytes :=
  (List.splitOn Byte.slash path).foldl (resolvePart (isRooted path)) []

/-- Resolved parts written out as a path. -/
def render (rooted : Bool) (resolved : List Bytes) : Bytes :=
  let joined := List.intercalate (utf8 "/") resolved.reverse
  if rooted then Byte.slash :: joined
  else if joined = [] then utf8 "." else joined

theorem clean_eq_render (path : Bytes) :
    clean path = render (isRooted path) (resolvedParts path) := by
  by_cases rooted : path.head? = some Byte.slash
  · simp [clean, render, isRooted, resolvedParts, rooted]
  · simp [clean, render, isRooted, resolvedParts, rooted]

theorem isResolved_foldl {parts : List Bytes} (isResolved : IsResolved rooted resolved)
    (noSlash : ∀ part ∈ parts, Byte.slash ∉ part) :
    IsResolved rooted (parts.foldl (resolvePart rooted) resolved) := by
  induction parts generalizing resolved with
  | nil => exact isResolved
  | cons part parts ih =>
      obtain ⟨here, later⟩ := List.forall_mem_cons.mp noSlash
      exact ih (isResolved.push here) later

theorem isResolved_resolvedParts (path : Bytes) :
    IsResolved (isRooted path) (resolvedParts path) := by
  apply isResolved_foldl .nil
  intro part isPart member
  exact (Bytes.mem_of_mem_splitOn isPart member).2 rfl

theorem mem_resolvePart {other : Bytes} (member : other ∈ resolvePart rooted resolved part) :
    other = part ∨ other ∈ resolved := by
  unfold resolvePart at member
  split at member
  · exact .inr member
  · split at member
    · cases resolved with
      | nil =>
          dsimp only at member
          split at member
          · exact .inr member
          · exact .inl (List.mem_singleton.mp member)
      | cons last earlier =>
          dsimp only at member
          split at member
          · exact List.mem_cons.mp member
          · exact .inr (List.mem_cons_of_mem _ member)
    · exact List.mem_cons.mp member

/-- Resolving makes no new parts. -/
theorem mem_splitOn_of_mem_resolvedParts (member : part ∈ resolvedParts path) :
    part ∈ List.splitOn Byte.slash path := by
  have inFold {parts resolved : List Bytes}
      (member : part ∈ parts.foldl (resolvePart (isRooted path)) resolved) :
      part ∈ parts ∨ part ∈ resolved := by
    induction parts generalizing resolved with
    | nil => exact .inr member
    | cons first parts ih =>
        rcases ih member with later | member
        · exact .inl (List.mem_cons_of_mem _ later)
        · rcases mem_resolvePart member with rfl | earlier
          · exact .inl List.mem_cons_self
          · exact .inr earlier
  rcases inFold member with isPart | isEmpty
  · exact isPart
  · cases isEmpty

/-! ## Writing resolved parts and taking them apart again -/

/-- What is written in front of one more part. -/
def lead (rooted : Bool) (resolved : List Bytes) : Bytes :=
  if resolved = [] then (if rooted then [Byte.slash] else [])
  else render rooted resolved ++ [Byte.slash]

theorem intercalate_reverse_cons_ne_nil (someByte : part ≠ []) (resolved : List Bytes) :
    List.intercalate (utf8 "/") (part :: resolved).reverse ≠ [] := by
  rw [List.reverse_cons]
  by_cases isFirst : resolved.reverse = []
  · rw [isFirst, List.nil_append, List.intercalate_singleton]
    exact someByte
  · rw [Bytes.intercalate_concat isFirst]
    exact List.append_ne_nil_of_right_ne_nil _ someByte

theorem render_cons_eq_intercalate (someByte : part ≠ []) :
    render rooted (part :: resolved) =
      (if rooted then [Byte.slash] else []) ++
        List.intercalate (utf8 "/") (part :: resolved).reverse := by
  cases rooted with
  | true => rfl
  | false => exact if_neg (intercalate_reverse_cons_ne_nil someByte resolved)

/-- One more part is written behind the parts before it. -/
theorem IsResolved.render_cons (isResolved : IsResolved rooted (part :: resolved)) :
    render rooted (part :: resolved) = lead rooted resolved ++ part := by
  have someByte := (isResolved.ne_nil_and_noSlash List.mem_cons_self).1
  rw [render_cons_eq_intercalate someByte, List.reverse_cons, lead]
  cases resolved with
  | nil => rw [if_pos rfl, List.reverse_nil, List.nil_append, List.intercalate_singleton]
  | cons last earlier =>
      have lastByte :=
        (isResolved.ne_nil_and_noSlash (List.mem_cons_of_mem _ List.mem_cons_self)).1
      have someParts : (last :: earlier).reverse ≠ [] := by simp
      rw [if_neg (List.cons_ne_nil _ _), render_cons_eq_intercalate lastByte,
        Bytes.intercalate_concat someParts]
      simp only [List.append_assoc]
      rfl

theorem isRooted_append (someByte : path ≠ []) (rest : Bytes) :
    isRooted (path ++ rest) = isRooted path := by
  cases path with
  | nil => exact absurd rfl someByte
  | cons b path => rfl

theorem render_ne_nil (rooted : Bool) (resolved : List Bytes) : render rooted resolved ≠ [] := by
  rw [render]
  split
  · exact List.cons_ne_nil _ _
  · split
    · decide
    next someByte => exact someByte

theorem IsResolved.isRooted_render (isResolved : IsResolved rooted resolved) :
    isRooted (render rooted resolved) = rooted := by
  cases rooted with
  | true => rfl
  | false =>
      induction resolved with
      | nil => decide
      | cons part resolved ih =>
          obtain ⟨someByte, noSlash⟩ := isResolved.ne_nil_and_noSlash List.mem_cons_self
          rw [isResolved.render_cons, lead]
          split
          · cases part with
            | nil => exact absurd rfl someByte
            | cons b part =>
                have other : b ≠ Byte.slash := fun same => noSlash (same ▸ List.mem_cons_self)
                simp [isRooted, other]
          · rw [List.append_assoc, isRooted_append (render_ne_nil _ _)]
            exact ih isResolved.tail

/-- The pieces of a written path are its parts, behind an empty one if it begins at the root. -/
theorem IsResolved.splitOn_render (isResolved : IsResolved rooted (part :: resolved)) :
    List.splitOn Byte.slash (render rooted (part :: resolved)) =
      (if rooted then [[]] else []) ++ (part :: resolved).reverse := by
  have someByte := (isResolved.ne_nil_and_noSlash List.mem_cons_self).1
  have noSlash : ∀ piece ∈ (part :: resolved).reverse, Byte.slash ∉ piece :=
    fun piece member => (isResolved.ne_nil_and_noSlash (List.mem_reverse.mp member)).2
  have pieces : List.splitOn Byte.slash (List.intercalate (utf8 "/") (part :: resolved).reverse) =
      (part :: resolved).reverse :=
    List.splitOn_intercalate Byte.slash noSlash (by simp)
  rw [render_cons_eq_intercalate someByte]
  cases rooted with
  | true =>
      exact (List.splitOn_append_cons_self_of_not_mem List.not_mem_nil _).trans
        (congrArg ([] :: ·) pieces)
  | false => exact pieces

theorem IsResolved.resolvedParts_render (isResolved : IsResolved rooted resolved) :
    resolvedParts (render rooted resolved) = resolved := by
  rw [resolvedParts, isResolved.isRooted_render]
  cases resolved with
  | nil => cases rooted <;> decide
  | cons part resolved =>
      have opening : (if rooted then [[]] else []).foldl (resolvePart rooted) [] = [] := by
        cases rooted <;> rfl
      rw [isResolved.splitOn_render, List.foldl_append, opening, isResolved.foldl_resolvePart]

/-- A name behind a slash is one more part to resolve. -/
theorem resolvedParts_append_slash (someByte : path ≠ []) (noSlash : Byte.slash ∉ name) :
    resolvedParts (path ++ Byte.slash :: name) =
      resolvePart (isRooted path) (resolvedParts path) name := by
  rw [resolvedParts, isRooted_append someByte, List.splitOn_append_cons_self, List.foldl_append,
    List.splitOn_eq_singleton noSlash]
  rfl

/-- A name in a directory stands behind the parts of the directory. -/
theorem join_eq_render (isName : IsName name) (directory : Bytes) :
    join directory name = render (isRooted directory) (name :: resolvedParts directory) := by
  have pushed {rooted : Bool} {resolved : List Bytes} (earlier : IsResolved rooted resolved) :=
    (IsResolved.name isName earlier).resolvePart_eq_cons
  rw [join]
  split
  next isEmpty =>
    have notRooted : isRooted name = false := by
      cases name with
      | nil => exact absurd rfl isName.ne_nil
      | cons b name =>
          have other : b ≠ Byte.slash := fun same => isName.noSlash (same ▸ List.mem_cons_self)
          simp [isRooted, other]
    have alone : resolvedParts name = [name] := by
      rw [resolvedParts, List.splitOn_eq_singleton isName.noSlash]
      exact pushed .nil
    rw [if_neg isName.ne_nil, clean_eq_render, notRooted, alone, isEmpty]
    rfl
  next someByte =>
    have rooted : isRooted (directory ++ Byte.slash :: name) = isRooted directory :=
      isRooted_append someByte _
    have parts := resolvedParts_append_slash someByte isName.noSlash
    rw [pushed (isResolved_resolvedParts directory)] at parts
    rw [List.append_assoc, clean_eq_render]
    show render (isRooted (directory ++ Byte.slash :: name))
      (resolvedParts (directory ++ Byte.slash :: name)) = _
    rw [rooted, parts]

theorem ne_slash_of_mem_reverse (noSlash : Byte.slash ∉ part) :
    ∀ b ∈ part.reverse, decide (b ≠ Byte.slash) = true := by
  intro b member
  rw [List.mem_reverse] at member
  exact decide_eq_true fun same => noSlash (same ▸ member)

/-- What is written in front of a part is nothing or ends with a slash. -/
theorem lead_eq_nil_or_concat (rooted : Bool) (resolved : List Bytes) :
    lead rooted resolved = [] ∨ ∃ front, lead rooted resolved = front ++ [Byte.slash] := by
  rw [lead]
  split
  · cases rooted with
    | true => exact .inr ⟨[], rfl⟩
    | false => exact .inl rfl
  · exact .inr ⟨_, rfl⟩

theorem throughLastSlash_lead (noSlash : Byte.slash ∉ part) (rooted : Bool)
    (resolved : List Bytes) :
    throughLastSlash (lead rooted resolved ++ part) = lead rooted resolved := by
  have stops : (lead rooted resolved).reverse.dropWhile (· ≠ Byte.slash) =
      (lead rooted resolved).reverse := by
    rcases lead_eq_nil_or_concat rooted resolved with isEmpty | ⟨front, split⟩
    · rw [isEmpty]
      rfl
    · rw [split, List.reverse_concat]
      rfl
  rw [throughLastSlash, List.reverse_append,
    List.dropWhile_append_of_pos (ne_slash_of_mem_reverse noSlash), stops, List.reverse_reverse]

theorem afterLastSlash_lead (noSlash : Byte.slash ∉ part) (rooted : Bool) (resolved : List Bytes) :
    afterLastSlash (lead rooted resolved ++ part) = part := by
  have whole : throughLastSlash (lead rooted resolved ++ part) ++
      afterLastSlash (lead rooted resolved ++ part) = lead rooted resolved ++ part :=
    List.rdropWhile_append_rtakeWhile
  rw [throughLastSlash_lead noSlash] at whole
  exact List.append_cancel_left whole

/-- There is no slash to trim behind a part. -/
theorem trim_slash_append (someByte : part ≠ []) (noSlash : Byte.slash ∉ part) (front : Bytes) :
    ((front ++ part).reverse.dropWhile (· = Byte.slash)).reverse = front ++ part := by
  apply List.rdropWhile_eq_self_iff.mpr
  intro someBytes isSlash
  rw [List.getLast_append_of_ne_nil _ someByte, decide_eq_true_eq] at isSlash
  apply noSlash
  rw [← isSlash]
  exact List.getLast_mem someByte

/-- What stands in front of a part names the directory that the part is in. -/
theorem IsResolved.clean_lead (isResolved : IsResolved rooted resolved) :
    clean (lead rooted resolved) = render rooted resolved := by
  rw [lead]
  split
  next isEmpty =>
    rw [isEmpty]
    cases rooted <;> decide
  · have someByte := render_ne_nil rooted resolved
    rw [clean_eq_render, isRooted_append someByte,
      resolvedParts_append_slash someByte List.not_mem_nil, isResolved.isRooted_render,
      isResolved.resolvedParts_render]
    rfl

theorem IsResolved.parent_render (isResolved : IsResolved rooted (part :: resolved)) :
    parent (render rooted (part :: resolved)) = render rooted resolved := by
  have noSlash := (isResolved.ne_nil_and_noSlash List.mem_cons_self).2
  rw [isResolved.render_cons, parent, throughLastSlash_lead noSlash, isResolved.tail.clean_lead]

/-- The last element of a written path is its last part. -/
theorem IsResolved.base_render (isResolved : IsResolved rooted (part :: resolved)) :
    base (render rooted (part :: resolved)) = part := by
  obtain ⟨someByte, noSlash⟩ := isResolved.ne_nil_and_noSlash List.mem_cons_self
  have someBytes := List.append_ne_nil_of_right_ne_nil (lead rooted resolved) someByte
  rw [isResolved.render_cons, base, if_neg someBytes]
  dsimp only
  rw [trim_slash_append someByte noSlash, if_neg someBytes, afterLastSlash_lead noSlash]

end VarPrint.Path
