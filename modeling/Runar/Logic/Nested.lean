/-
  Logic/Nested.lean --- arrays of arrays.

  WHAT THIS FILE IS FOR.  The places of an array of arrays, all of the same lengths, are
  paths: an index for each level.  A value with an element for each place is built from the
  innermost arrays outwards, and there is none where an element is missing.
-/
import Mathlib.Data.List.Range
import Mathlib.Data.List.Forall2
import Mathlib.Algebra.BigOperators.Group.List.Basic
import Mathlib.Tactic.Ring

set_option autoImplicit false

namespace Runar.Logic

/-- A value, or an array of them. -/
inductive Nested (α : Type) where
  | leaf (value : α)
  | node (elements : List (Nested α))
  deriving Repr

namespace Nested

variable {α : Type}

/-- The places, in row-major order. -/
def paths : List Nat → List (List Nat)
  | [] => [[]]
  | n :: dims => (List.range n).flatMap fun i => (paths dims).map (i :: ·)

/-- The number of places before one. -/
def offset : List Nat → List Nat → Nat
  | _ :: dims, i :: path => i * dims.prod + offset dims path
  | _, _ => 0

/-- The array with these elements, if it has one for each place. -/
def build : List Nat → (List Nat → Option α) → Option (Nested α)
  | [], f => (f []).map leaf
  | n :: dims, f => ((List.range n).mapM fun i => build dims fun path => f (i :: path)).map node

/-! ## Places -/

theorem paths_nil : paths [] = [[]] := rfl

theorem paths_cons (n : Nat) (dims : List Nat) :
    paths (n :: dims) = (List.range n).flatMap fun i => (paths dims).map (i :: ·) := rfl

/-- The places of one level more. -/
theorem paths_concat (dims : List Nat) (n : Nat) :
    paths (dims ++ [n]) = (paths dims).flatMap fun path => (List.range n).map (path ++ [·]) := by
  induction dims with
  | nil =>
    rw [List.nil_append, paths_cons, paths_nil, List.flatMap_singleton]
    exact List.flatMap_pure_eq_map _ _
  | cons m dims ih =>
    rw [List.cons_append, paths_cons, paths_cons, ih, List.flatMap_assoc]
    refine List.flatMap_congr fun i _ => ?_
    rw [List.map_flatMap, List.flatMap_map]
    refine List.flatMap_congr fun path _ => ?_
    rw [List.map_map]
    rfl

theorem length_of_mem_paths {dims path : List Nat} (h : path ∈ paths dims) :
    path.length = dims.length := by
  induction dims generalizing path with
  | nil =>
    rw [paths_nil, List.mem_singleton] at h
    rw [h]
  | cons n dims ih =>
    rw [paths_cons, List.mem_flatMap] at h
    obtain ⟨i, -, h⟩ := h
    obtain ⟨rest, hrest, rfl⟩ := List.mem_map.mp h
    rw [List.length_cons, List.length_cons, ih hrest]

theorem paths_ne_nil {dims : List Nat} (h : ∀ n ∈ dims, 0 < n) : paths dims ≠ [] := by
  induction dims with
  | nil => exact List.cons_ne_nil _ _
  | cons n dims ih =>
    obtain ⟨path, hpath⟩ := List.exists_mem_of_ne_nil _ (ih fun m hm => h m (.tail _ hm))
    refine List.ne_nil_of_mem (a := 0 :: path) (List.mem_flatMap.mpr ⟨0, ?_, ?_⟩)
    · exact List.mem_range.mpr (h n List.mem_cons_self)
    · exact List.mem_map_of_mem hpath

theorem length_paths (dims : List Nat) : (paths dims).length = dims.prod := by
  induction dims with
  | nil => rfl
  | cons n dims ih =>
    rw [paths_cons, List.length_flatMap, List.prod_cons]
    simp [ih]

/-- Ranges of one length, one behind the other. -/
theorem flatMap_range' (start size n : Nat) :
    ((List.range n).flatMap fun i => List.range' (start + i * size) size) =
      List.range' start (n * size) := by
  induction n with
  | zero =>
    rw [Nat.zero_mul]
    rfl
  | succ n ih =>
    rw [List.range_succ, List.flatMap_append, List.flatMap_singleton, ih, Nat.succ_mul,
      ← List.range'_append_1]

/-- The places are counted from 0 on. -/
theorem map_offset_paths (dims : List Nat) (start : Nat) :
    (paths dims).map (fun path => start + offset dims path) = List.range' start dims.prod := by
  induction dims generalizing start with
  | nil => rfl
  | cons n dims ih =>
    rw [paths_cons, List.map_flatMap, List.prod_cons, ← flatMap_range']
    refine List.flatMap_congr fun i _ => ?_
    rw [← ih, List.map_map]
    refine List.map_congr_left fun path _ => ?_
    rw [Function.comp_apply, offset, Nat.add_assoc]

theorem offset_concat_zero (dims path : List Nat) :
    offset dims (path ++ [0]) = offset dims path := by
  induction path generalizing dims with
  | nil => cases dims <;> simp [offset]
  | cons i path ih =>
    cases dims with
    | nil => rfl
    | cons n dims => rw [List.cons_append, offset, offset, ih]

/-! ## Values -/

theorem mapM_eq_none_iff {β : Type} {f : β → Option α} {xs : List β} :
    xs.mapM f = none ↔ ∃ x ∈ xs, f x = none := by
  induction xs with
  | nil => exact ⟨fun h => (nomatch h), fun ⟨_, h, _⟩ => (nomatch h)⟩
  | cons x xs ih =>
    rw [List.mapM_cons, List.exists_mem_cons_iff, ← ih]
    cases f x with
    | none => exact ⟨fun _ => .inl rfl, fun _ => rfl⟩
    | some v =>
      cases xs.mapM f with
      | none => exact ⟨fun _ => .inr rfl, fun _ => rfl⟩
      | some vs => exact ⟨fun h => (nomatch h), fun h => h.elim (nomatch ·) (nomatch ·)⟩

theorem eq_of_mapM_eq_some {β : Type} {f g : β → Option α} {xs : List β} {vs : List α}
    (hf : xs.mapM f = some vs) (hg : xs.mapM g = some vs) : ∀ x ∈ xs, ∃ v, f x = some v ∧
      g x = some v := by
  induction xs generalizing vs with
  | nil => exact fun _ h => nomatch h
  | cons x xs ih =>
    rw [List.mapM_cons] at hf hg
    obtain ⟨v, hv, hf⟩ := Option.bind_eq_some_iff.mp hf
    obtain ⟨rest, hrest, hf⟩ := Option.bind_eq_some_iff.mp hf
    obtain ⟨v', hv', hg⟩ := Option.bind_eq_some_iff.mp hg
    obtain ⟨rest', hrest', hg⟩ := Option.bind_eq_some_iff.mp hg
    cases hf
    cases hg
    intro y hy
    rcases List.mem_cons.mp hy with rfl | hy
    · exact ⟨v, hv, hv'⟩
    · exact ih hrest hrest' y hy

theorem mapM_map {β γ : Type} (f : β → Option α) (g : γ → β) (xs : List γ) :
    (xs.map g).mapM f = xs.mapM fun x => f (g x) := by
  induction xs with
  | nil => rfl
  | cons x xs ih => rw [List.map_cons, List.mapM_cons, List.mapM_cons, ih]

theorem mapM_congr {β : Type} {f g : β → Option α} {xs : List β} (h : ∀ x ∈ xs, f x = g x) :
    xs.mapM f = xs.mapM g := by
  induction xs with
  | nil => rfl
  | cons x xs ih =>
    rw [List.mapM_cons, List.mapM_cons, h x List.mem_cons_self,
      ih fun y hy => h y (.tail _ hy)]

/-- A path is an index and a path. -/
theorem forall_mem_paths_cons {n : Nat} {dims : List Nat} {P : List Nat → Prop} :
    (∀ path ∈ paths (n :: dims), P path) ↔
      ∀ i ∈ List.range n, ∀ path ∈ paths dims, P (i :: path) := by
  rw [paths_cons, List.forall_mem_flatMap]
  refine forall₂_congr fun i _ => ?_
  exact List.forall_mem_map

theorem build_congr {dims : List Nat} {f g : List Nat → Option α}
    (h : ∀ path ∈ paths dims, f path = g path) : build dims f = build dims g := by
  induction dims generalizing f g with
  | nil => rw [build, build, h [] List.mem_cons_self]
  | cons n dims ih =>
    rw [build, build, mapM_congr fun i hi => ih fun path hpath =>
      forall_mem_paths_cons.mp h i hi path hpath]

theorem build_eq_none_iff {dims : List Nat} {f : List Nat → Option α} :
    build dims f = none ↔ ∃ path ∈ paths dims, f path = none := by
  induction dims generalizing f with
  | nil =>
    rw [build, Option.map_eq_none_iff, paths_nil]
    exact ⟨fun h => ⟨[], List.mem_cons_self, h⟩, fun ⟨path, hpath, h⟩ =>
      List.mem_singleton.mp hpath ▸ h⟩
  | cons n dims ih =>
    rw [build, Option.map_eq_none_iff, mapM_eq_none_iff]
    constructor
    · rintro ⟨i, hi, h⟩
      obtain ⟨path, hpath, h⟩ := ih.mp h
      exact ⟨i :: path, List.mem_flatMap.mpr ⟨i, hi, List.mem_map_of_mem hpath⟩, h⟩
    · rintro ⟨path, hpath, h⟩
      obtain ⟨i, hi, hpath⟩ := List.mem_flatMap.mp hpath
      obtain ⟨rest, hrest, rfl⟩ := List.mem_map.mp hpath
      exact ⟨i, hi, ih.mpr ⟨rest, hrest, h⟩⟩

theorem eq_of_build_eq_some {dims : List Nat} {f g : List Nat → Option α} {v : Nested α}
    (hf : build dims f = some v) (hg : build dims g = some v) :
    ∀ path ∈ paths dims, f path = g path := by
  induction dims generalizing f g v with
  | nil =>
    obtain ⟨a, ha, rfl⟩ := Option.map_eq_some_iff.mp hf
    obtain ⟨b, hb, hab⟩ := Option.map_eq_some_iff.mp hg
    cases hab
    intro path hpath
    rw [List.mem_singleton.mp hpath, ha, hb]
  | cons n dims ih =>
    obtain ⟨vs, hvs, rfl⟩ := Option.map_eq_some_iff.mp hf
    obtain ⟨ws, hws, heq⟩ := Option.map_eq_some_iff.mp hg
    cases heq
    refine forall_mem_paths_cons.mpr fun i hi => ?_
    obtain ⟨u, hu, hu'⟩ := eq_of_mapM_eq_some hvs hws i hi
    exact ih hu hu'

/-- Two arrays are the same exactly where their elements are, or where each misses one. -/
theorem build_eq_iff {dims : List Nat} {f g : List Nat → Option α} :
    build dims f = build dims g ↔
      (∀ path ∈ paths dims, f path = g path) ∨
        ((∃ path ∈ paths dims, f path = none) ∧ ∃ path ∈ paths dims, g path = none) := by
  constructor
  · intro h
    cases hv : build dims f with
    | none => exact .inr ⟨build_eq_none_iff.mp hv, build_eq_none_iff.mp (h ▸ hv)⟩
    | some v => exact .inl (eq_of_build_eq_some hv (h ▸ hv))
  · rintro (h | ⟨hf, hg⟩)
    · exact build_congr h
    · rw [build_eq_none_iff.mpr hf, build_eq_none_iff.mpr hg]

end Nested

/-! ## Lists of results -/

section Collect

variable {ε α β : Type}

theorem forall₂_of_mapM_ok {f : α → Except ε β} {xs : List α} {ys : List β}
    (h : xs.mapM f = .ok ys) : List.Forall₂ (fun x y => f x = .ok y) xs ys := by
  induction xs generalizing ys with
  | nil =>
    cases h
    exact .nil
  | cons x xs ih =>
    rw [List.mapM_cons] at h
    cases hx : f x with
    | error e =>
      rw [hx] at h
      cases h
    | ok y =>
      cases hxs : xs.mapM f with
      | error e =>
        rw [hx, hxs] at h
        cases h
      | ok ys' =>
        rw [hx, hxs] at h
        cases h
        exact .cons hx (ih hxs)

theorem exists_of_forall₂ {R : α → β → Prop} {xs : List α} {ys : List β}
    (h : List.Forall₂ R xs ys) {x : α} (hx : x ∈ xs) : ∃ y ∈ ys, R x y := by
  induction h with
  | nil => exact nomatch hx
  | @cons x' y xs ys hxy _ ih =>
    rcases List.mem_cons.mp hx with rfl | hx
    · exact ⟨y, List.mem_cons_self, hxy⟩
    · obtain ⟨y', hmem, hR⟩ := ih hx
      exact ⟨y', .tail _ hmem, hR⟩

theorem eq_map_of_forall₂ {R : α → β → Prop} {g : α → β} {xs : List α} {ys : List β}
    (h : List.Forall₂ R xs ys) (hg : ∀ x ∈ xs, ∀ y, R x y → y = g x) : ys = xs.map g := by
  induction h with
  | nil => rfl
  | @cons x y xs ys hxy _ ih =>
    rw [List.map_cons, ← hg x List.mem_cons_self y hxy, ← ih fun x' hx' => hg x' (.tail _ hx')]

end Collect

end Runar.Logic
