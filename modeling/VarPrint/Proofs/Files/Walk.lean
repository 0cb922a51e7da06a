/-
# Walking along a path

A path in shortest form is walked part by part: a parent part leads from a directory above the
current one to the next, and a name leads down. If every directory on the way is there and no name
is too long, the path leads to the location of its parts.
-/

import VarPrint.Proofs.Files.Path
import VarPrint.Proofs.Files.Tree

namespace VarPrint

open VarPrint.Path (IsResolved render lead)

/-- No part of the path and not the path as a whole is too long. -/
def NameLimits.Admits (limits : NameLimits) (path : Bytes) : Prop :=
  limits.allowsPath path = true ∧
    ∀ part ∈ List.splitOn Byte.slash path, limits.allowsPart part = true

instance (limits : NameLimits) : DecidablePred limits.Admits :=
  fun _ => inferInstanceAs (Decidable (_ ∧ _))

/-- Without limits there is nothing to check. -/
theorem NameLimits.admits_unlimited (path : Bytes) : unlimited.Admits path :=
  ⟨rfl, fun _ _ => rfl⟩

theorem NameLimits.allowsPath_of_length_le {limits : NameLimits} {path longer : Bytes}
    (allowed : limits.allowsPath longer = true) (le : path.length ≤ longer.length) :
    limits.allowsPath path = true := by
  rw [allowsPath] at allowed ⊢
  cases bound : limits.path? with
  | none => rfl
  | some bound =>
      simp only [bound, Option.all_some, decide_eq_true_eq] at allowed ⊢
      exact Nat.lt_of_le_of_lt le allowed

namespace Path

variable {limits : NameLimits} {rooted : Bool} {part path : Bytes} {resolved : List Bytes}

/-- Where a path begins. -/
def start (rooted : Bool) : Location :=
  if rooted then Location.root else []

/-- The location that resolved parts lead to. -/
def locate (rooted : Bool) (resolved : List Bytes) : Location :=
  start rooted ++ resolved.reverse

/-- The location that a path leads to if every directory on the way is there. -/
def location (path : Bytes) : Location :=
  locate (isRooted path) (resolvedParts path)

theorem isFixed_start (rooted : Bool) : (start rooted).isFixed = true := by
  cases rooted <;> rfl

theorem locate_nil (rooted : Bool) : locate rooted [] = start rooted :=
  List.append_nil _

theorem locate_cons (rooted : Bool) (part : Bytes) (resolved : List Bytes) :
    locate rooted (part :: resolved) = locate rooted resolved ++ [part] := by
  rw [locate, List.reverse_cons, ← List.append_assoc, ← locate]

theorem dropLast_locate_cons (rooted : Bool) (part : Bytes) (resolved : List Bytes) :
    (locate rooted (part :: resolved)).dropLast = locate rooted resolved := by
  rw [locate_cons, List.dropLast_concat]

theorem IsResolved.location_render (isResolved : IsResolved rooted resolved) :
    location (render rooted resolved) = locate rooted resolved := by
  rw [location, isResolved.isRooted_render, isResolved.resolvedParts_render]

/-- Resolved parts that every request takes: none is too long or has a zero byte in it. -/
structure IsUsable (limits : NameLimits) (rooted : Bool) (resolved : List Bytes) : Prop where
  isResolved : IsResolved rooted resolved
  noZero : ∀ part ∈ resolved, (0 : UInt8) ∉ part
  partsAllowed : ∀ part ∈ resolved, limits.allowsPart part = true
  pathAllowed : limits.allowsPath (render rooted resolved) = true

theorem IsResolved.length_render_tail (isResolved : IsResolved rooted (part :: resolved)) :
    (render rooted resolved).length ≤ (render rooted (part :: resolved)).length := by
  have someByte := List.length_pos_iff.mpr
    (isResolved.ne_nil_and_noSlash List.mem_cons_self).1
  rw [isResolved.render_cons, lead, List.length_append]
  split
  next isEmpty =>
    rw [isEmpty]
    cases rooted with
    | true => exact Nat.le_add_right 1 part.length
    | false => exact Nat.le_trans someByte (Nat.le_add_left _ _)
  · rw [List.length_append]
    omega

theorem IsUsable.tail (usable : IsUsable limits rooted (part :: resolved)) :
    IsUsable limits rooted resolved where
  isResolved := usable.isResolved.tail
  noZero := (List.forall_mem_cons.mp usable.noZero).2
  partsAllowed := (List.forall_mem_cons.mp usable.partsAllowed).2
  pathAllowed := NameLimits.allowsPath_of_length_le usable.pathAllowed
    usable.isResolved.length_render_tail

theorem IsUsable.noZero_render (usable : IsUsable limits rooted resolved) :
    (0 : UInt8) ∉ render rooted resolved := by
  induction resolved with
  | nil => cases rooted <;> decide
  | cons part resolved ih =>
      rw [usable.isResolved.render_cons, lead, List.mem_append, not_or]
      refine ⟨?_, usable.noZero part List.mem_cons_self⟩
      split
      · cases rooted <;> decide
      · rw [List.mem_append, not_or]
        exact ⟨ih usable.tail, by decide⟩

end Path

namespace FileTree

open VarPrint.Path (IsUsable locate start)

variable {tree : FileTree} {rooted : Bool} {part name : Bytes} {resolved : List Bytes}

/-- A path in shortest form is walked along its parts. -/
theorem resolve_render (usable : IsUsable tree.limits rooted resolved) :
    tree.resolve (render rooted resolved) = resolved.reverse.foldlM tree.step (start rooted) := by
  have noZero : (render rooted resolved).contains 0 = false := by
    rw [List.contains_eq_mem, decide_eq_false usable.noZero_render]
  have begins : (if (render rooted resolved).head? = some Byte.slash then Location.root else []) =
      start rooted := by
    have same := usable.isResolved.isRooted_render
    cases rooted with
    | true => exact if_pos (of_decide_eq_true same)
    | false => exact if_neg (of_decide_eq_false same)
  have stays {part : Bytes} (isNeutral : part = [] ∨ part = utf8 ".") :
      tree.step (start rooted) part = .ok (start rooted) := by
    rw [step, get?_of_isFixed (Path.isFixed_start rooted)]
    exact if_pos isNeutral
  rw [resolve, noZero, if_neg Bool.false_ne_true, if_neg (Path.render_ne_nil _ _),
    if_pos usable.pathAllowed, begins]
  dsimp only
  cases resolved with
  | nil =>
      cases rooted with
      | true =>
          show [[], []].foldlM tree.step (start true) = _
          rw [List.foldlM_cons, stays (.inl rfl)]
          exact bind_eq_ok_iff.mpr ⟨_, stays (.inl rfl), rfl⟩
      | false => exact bind_eq_ok_iff.mpr ⟨_, stays (.inr rfl), rfl⟩
  | cons part resolved =>
      rw [usable.isResolved.splitOn_render]
      cases rooted with
      | true =>
          show ([] :: (part :: resolved).reverse).foldlM tree.step (start true) = _
          rw [List.foldlM_cons, stays (.inl rfl)]
          rfl
      | false => rfl

/-- A resolved part leads one place further from a directory. -/
theorem step_locate (isResolved : IsResolved rooted (part :: resolved))
    (allowed : tree.limits.allowsPart part = true)
    (present : tree.get? (locate rooted resolved) = some .directory) :
    tree.step (locate rooted resolved) part = .ok (locate rooted (part :: resolved)) := by
  rw [step, present, Path.locate_cons]
  dsimp only
  cases isResolved with
  | above notRooted onlyAbove earlier =>
      have isAbove : ∀ part ∈ locate rooted resolved, part = utf8 ".." := by
        intro part member
        rw [notRooted] at member
        exact onlyAbove part (List.mem_reverse.mp member)
      have notRoot : (locate rooted resolved == Location.root) = false := by
        apply beq_false_of_ne
        intro same
        rw [same] at isAbove
        exact absurd (isAbove _ List.mem_cons_self) (by decide)
      have allAbove : (locate rooted resolved).all (· == utf8 "..") = true := by
        rw [List.all_eq_true]
        exact fun part member => beq_iff_eq.mpr (isAbove part member)
      rw [if_neg (by decide), if_pos rfl, Location.parent, notRoot, if_neg Bool.false_ne_true,
        if_pos allAbove]
  | name isName earlier =>
      rw [if_neg (not_or.mpr ⟨isName.ne_nil, isName.ne_here⟩), if_neg isName.ne_above,
        if_pos allowed]

/-- A path leads to its location if every directory on the way is there. -/
theorem resolve_render_eq_ok (usable : IsUsable tree.limits rooted resolved)
    (directories : ∀ above, above <+: (locate rooted resolved).dropLast →
      tree.get? above = some .directory) :
    tree.resolve (render rooted resolved) = .ok (locate rooted resolved) := by
  rw [resolve_render usable]
  induction resolved with
  | nil =>
      rw [Path.locate_nil]
      rfl
  | cons part resolved ih =>
      rw [Path.dropLast_locate_cons] at directories
      have shorter := List.dropLast_prefix (locate rooted resolved)
      have earlier (above : Location) (isAbove : above <+: (locate rooted resolved).dropLast) :=
        directories above (isAbove.trans shorter)
      have stepped := step_locate usable.isResolved (usable.partsAllowed part List.mem_cons_self)
        (directories _ (List.prefix_refl _))
      rw [List.reverse_cons, List.foldlM_append, ih usable.tail earlier]
      show (tree.step (locate rooted resolved) part >>= pure) = _
      rw [stepped]
      rfl

end FileTree

end VarPrint
