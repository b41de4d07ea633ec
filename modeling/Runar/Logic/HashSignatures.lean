/-
  Logic/HashSignatures.lean --- what signatures made of hash chains and hash trees rest on.

  WHAT THIS FILE IS FOR.  A signature from chains shows, for each digit of a message, a value
  some way along a chain; whoever checks it walks the rest of the way.  A checksum over the
  digits keeps a signature from being walked forward to another message.  A tree over the ends
  of many chains has one root, which is found again from any leaf and the siblings on its
  way up.  Values, hashes and positions are arbitrary here: a hash may depend on where in the
  chain or in the tree it is made.
-/
import Mathlib.Algebra.BigOperators.Group.List.Basic
import Mathlib.Algebra.Order.BigOperators.Group.List
import Mathlib.Data.List.Forall2
import Mathlib.Data.List.Flatten
import Mathlib.Data.Nat.Bitwise

set_option autoImplicit false

namespace Runar.HashSignatures

/-! ## Rows of one width -/

section Rows

variable {α : Type} {width : Nat} {row : Nat → List α}

theorem length_rows {n : Nat} (hrow : ∀ i < n, (row i).length = width) :
    ((List.range n).flatMap row).length = n * width := by
  induction n with
  | zero => rw [Nat.zero_mul]; rfl
  | succ n ih =>
    rw [List.range_succ, List.flatMap_append, List.flatMap_singleton, List.length_append,
      ih fun i hi => hrow i (Nat.lt_succ_of_lt hi), hrow n (Nat.lt_succ_self n), Nat.succ_mul]

/-- Row `i` is where its number times the width says it is. -/
theorem slice_rows (row : Nat → List α) {n i : Nat} (hrow : ∀ i < n, (row i).length = width) (hi : i < n)
    (rest : List α) :
    (((List.range n).flatMap row ++ rest).drop (i * width)).take width = row i := by
  have hsplit : List.range n = List.range i ++ i :: List.range' (i + 1) (n - (i + 1)) := by
    have hcons : List.range' i (n - i) = i :: List.range' (i + 1) (n - (i + 1)) := by
      rw [show n - i = (n - (i + 1)) + 1 by omega, List.range'_succ]
    rw [← hcons, List.range_eq_range', List.range_eq_range']
    calc List.range' 0 n = List.range' 0 (i + (n - i)) := by rw [Nat.add_sub_cancel' (by omega)]
      _ = List.range' 0 i ++ List.range' (0 + i) (n - i) := List.range'_append_1.symm
      _ = List.range' 0 i ++ List.range' i (n - i) := by rw [Nat.zero_add]
  have hbefore : ((List.range i).flatMap row).length = i * width :=
    length_rows fun j hj => hrow j (Nat.lt_trans hj hi)
  rw [hsplit, List.flatMap_append, List.flatMap_cons, List.append_assoc, List.append_assoc,
    List.drop_left' hbefore]
  exact List.take_left' (hrow i hi)

end Rows

/-! ## Chains -/

section Chains

variable {α : Type} (f : Nat → α → α)

/-- `n` steps from position `start` on; a step may depend on its position. -/
def walk (start : Nat) : Nat → α → α
  | 0, x => x
  | n + 1, x => f (start + n) (walk start n x)

theorem walk_succ (start n : Nat) (x : α) :
    walk f start (n + 1) x = f (start + n) (walk f start n x) := rfl

/-- Two walks, the second from where the first ends, are one. -/
theorem walk_walk (start m n : Nat) (x : α) :
    walk f (start + m) n (walk f start m x) = walk f start (m + n) x := by
  induction n with
  | zero => rfl
  | succ n ih => rw [walk_succ, ih, ← Nat.add_assoc, walk_succ, Nat.add_assoc]

/-- The chain from its start to `d` and from there to the top. -/
theorem walk_to_top {d top : Nat} (hd : d ≤ top) (x : α) :
    walk f d (top - d) (walk f 0 d x) = walk f 0 top x := by
  have hwalk := walk_walk f 0 d (top - d) x
  rwa [Nat.zero_add, Nat.add_sub_cancel' hd] at hwalk

end Chains

/-! ## Checksums -/

section Checksums

/-- The steps that are left up to the top, over all digits. -/
def room (top : Nat) (digits : List Nat) : Nat := (digits.map fun d => top - d).sum

/-- The number that digits stand for, the first one counting most. -/
def value (base : Nat) (digits : List Nat) : Nat := digits.foldl (fun n d => n * base + d) 0

theorem room_le_of_forall₂ (top : Nat) {xs ys : List Nat} (h : List.Forall₂ (· ≤ ·) xs ys) :
    room top ys ≤ room top xs := by
  induction h with
  | nil => exact Nat.le_refl _
  | cons hxy _ ih =>
    simp only [room, List.map_cons, List.sum_cons] at ih ⊢
    omega

/-- Raising a digit takes room away. -/
theorem eq_of_forall₂_of_room {top : Nat} {xs ys : List Nat}
    (h : List.Forall₂ (· ≤ ·) xs ys) (htop : ∀ y ∈ ys, y ≤ top)
    (hroom : room top xs ≤ room top ys) : xs = ys := by
  induction h with
  | nil => rfl
  | @cons x y xs ys hxy hrest ih =>
    have hle := room_le_of_forall₂ top hrest
    have hy : y ≤ top := htop y List.mem_cons_self
    simp only [room, List.map_cons, List.sum_cons] at hle hroom
    have htail : room top xs ≤ room top ys := by
      simp only [room]
      omega
    have heq : x = y := by omega
    rw [heq, ih (fun z hz => htop z (List.mem_cons_of_mem y hz)) htail]

theorem value_le_of_forall₂ (base : Nat) {xs ys : List Nat} (h : List.Forall₂ (· ≤ ·) xs ys) :
    value base xs ≤ value base ys := by
  have hfold : ∀ m n : Nat, m ≤ n →
      xs.foldl (fun n d => n * base + d) m ≤ ys.foldl (fun n d => n * base + d) n := by
    induction h with
    | nil => exact fun m n hmn => hmn
    | cons hxy _ ih =>
      intro m n hmn
      exact ih _ _ (Nat.add_le_add (Nat.mul_le_mul_right base hmn) hxy)
  exact hfold 0 0 (Nat.le_refl 0)

/-- With the checksum behind them, the digits of one message are nowhere above those of
another only where the messages are the same: raised message digits have less room, and the
checksum says so by a digit that is lower. -/
theorem eq_of_forall₂_checksum {top base : Nat} {xs ys cs ds : List Nat}
    (hmsg : List.Forall₂ (· ≤ ·) xs ys) (hsum : List.Forall₂ (· ≤ ·) cs ds)
    (htop : ∀ y ∈ ys, y ≤ top) (hcs : value base cs = room top xs)
    (hds : value base ds = room top ys) : xs = ys := by
  refine eq_of_forall₂_of_room hmsg htop ?_
  calc room top xs = value base cs := hcs.symm
    _ ≤ value base ds := value_le_of_forall₂ base hsum
    _ = room top ys := hds

end Checksums

/-! ## Trees -/

section Trees

variable {α : Type} (leaf : Nat → α) (join : Nat → Nat → α → α → α)

/-- The node number `idx` at a height; a hash may depend on both. -/
def node : Nat → Nat → α
  | 0, idx => leaf idx
  | height + 1, idx =>
      join (height + 1) idx (node height (2 * idx)) (node height (2 * idx + 1))

/-- The way up from a leaf: a node with an even number is the left one of two. -/
def climb (idx : Nat) (sibling : Nat → α) (start : α) : Nat → α
  | 0 => start
  | j + 1 =>
      let current := climb idx sibling start j
      if idx >>> j % 2 = 0 then join (j + 1) (idx >>> (j + 1)) current (sibling j)
      else join (j + 1) (idx >>> (j + 1)) (sibling j) current

theorem climb_congr {idx : Nat} {sibling sibling' : Nat → α} {start : α} {n : Nat}
    (h : ∀ j < n, sibling j = sibling' j) :
    climb join idx sibling start n = climb join idx sibling' start n := by
  induction n with
  | zero => rfl
  | succ n ih =>
    have hbelow := ih fun j hj => h j (Nat.lt_succ_of_lt hj)
    simp only [climb, hbelow, h n (Nat.lt_succ_self n)]

/-- **The way up**: with the siblings of the tree one comes by the nodes of the tree. -/
theorem climb_siblings (idx n : Nat) :
    climb join idx (fun j => node leaf join j (idx >>> j ^^^ 1)) (leaf idx) n =
      node leaf join n (idx >>> n) := by
  induction n with
  | zero => rfl
  | succ n ih =>
    have hhalf : idx >>> (n + 1) = idx >>> n / 2 := by
      rw [Nat.shiftRight_succ]
    rw [climb, ih, node, hhalf]
    by_cases heven : idx >>> n % 2 = 0
    · have hleft : 2 * (idx >>> n / 2) = idx >>> n := by omega
      rw [if_pos heven, Nat.xor_one_of_even (Nat.even_iff.mpr heven), hleft]
    · have hodd : idx >>> n % 2 = 1 := by omega
      have hleft : 2 * (idx >>> n / 2) = idx >>> n - 1 := by omega
      have hright : idx >>> n - 1 + 1 = idx >>> n := by omega
      rw [if_neg heven, Nat.xor_one_of_odd (Nat.odd_iff.mpr hodd), hleft, hright]

/-- From a leaf of a tree one comes to its root. -/
theorem climb_root {idx n : Nat} (h : idx < 2 ^ n) :
    climb join idx (fun j => node leaf join j (idx >>> j ^^^ 1)) (leaf idx) n =
      node leaf join n 0 := by
  rw [climb_siblings, Nat.shiftRight_eq_div_pow, Nat.div_eq_of_lt h]

end Trees

end Runar.HashSignatures
