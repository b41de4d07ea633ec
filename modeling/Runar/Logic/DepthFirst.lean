/-
  Logic/DepthFirst.lean --- looking for a cycle, depth first.

  WHAT THIS FILE IS FOR.  A search goes along the successors of a node, remembers every
  node it has visited and the nodes on the path it is on, and reports a cycle when it
  comes back to one of the latter.  A search that reports nothing has met no cycle
  through the node it started from.  Beside it, the bound on the length of a chain in a
  relation without cycles over finitely many nodes.
-/
import Mathlib.Data.List.Chain
import Mathlib.Data.List.Perm.Subperm
import Mathlib.Logic.Relation

set_option autoImplicit false

namespace Runar.Logic

variable {α : Type}

/-! ## The search -/

/-- Visit nodes in turn; stop at a cycle. -/
def visitAll (visit : α → List α → Option (Bool × List α)) :
    List α → List α → Option (Bool × List α)
  | [], visited => some (false, visited)
  | z :: rest, visited =>
      match visit z visited with
      | none => none
      | some (true, visited) => some (true, visited)
      | some (false, visited) => visitAll visit rest visited

/-- Search from a node, with the path to it and the nodes visited so far; the number
bounds the length of the path. -/
def findsCycle [DecidableEq α] (succ : α → List α) :
    Nat → List α → α → List α → Option (Bool × List α)
  | 0, _, _, _ => none
  | n + 1, path, x, visited =>
      if x ∈ path then some (true, visited)
      else if x ∈ visited then some (false, visited)
      else visitAll (findsCycle succ n (x :: path)) (succ x) (x :: visited)

section Search

variable [DecidableEq α] {succ : α → List α}

/-! ### What a search that finds nothing leaves -/

/-- The nodes visited in between lead to visited nodes, and not back to the path. -/
def ClosedOff (succ : α → List α) (path before after : List α) : Prop :=
  before ⊆ after ∧ ∀ y ∈ after, y ∉ before → ∀ z ∈ succ y, z ∈ after ∧ z ∉ path

theorem ClosedOff.trans {path a b c : List α} (hab : ClosedOff succ path a b)
    (hbc : ClosedOff succ path b c) : ClosedOff succ path a c := by
  refine ⟨fun y hy => hbc.1 (hab.1 hy), ?_⟩
  intro y hy hya z hz
  by_cases hyb : y ∈ b
  · obtain ⟨hzb, hzp⟩ := hab.2 y hyb hya z hz
    exact ⟨hbc.1 hzb, hzp⟩
  · exact hbc.2 y hy hyb z hz

theorem visitAll_closedOff {visit : α → List α → Option (Bool × List α)} {path : List α}
    (hvisit : ∀ z before after, visit z before = some (false, after) →
      ClosedOff succ path before after ∧ z ∈ after ∧ z ∉ path) :
    ∀ (zs before after : List α), visitAll visit zs before = some (false, after) →
      ClosedOff succ path before after ∧ ∀ z ∈ zs, z ∈ after ∧ z ∉ path := by
  intro zs
  induction zs with
  | nil =>
    intro before after h
    cases h
    exact ⟨⟨List.Subset.refl _, fun y hy hny => absurd hy hny⟩, by simp⟩
  | cons z rest ih =>
    intro before after h
    rw [visitAll] at h
    split at h
    · cases h
    · cases h
    · rename_i mid hmid
      obtain ⟨hclosed, hz, hzp⟩ := hvisit z before mid hmid
      obtain ⟨hrest, hall⟩ := ih mid after h
      refine ⟨hclosed.trans hrest, ?_⟩
      intro w hw
      rcases List.mem_cons.mp hw with rfl | hw
      · exact ⟨hrest.1 hz, hzp⟩
      · exact hall w hw

theorem findsCycle_closedOff (n : Nat) : ∀ (path : List α) (x : α) (before after : List α),
    findsCycle succ n path x before = some (false, after) →
      ClosedOff succ path before after ∧ x ∈ after ∧ x ∉ path := by
  induction n with
  | zero =>
    intro path x before after h
    cases h
  | succ n ih =>
    intro path x before after h
    rw [findsCycle] at h
    split at h
    · cases h
    · rename_i hpath
      split at h
      · rename_i hseen
        cases h
        exact ⟨⟨List.Subset.refl _, fun y hy hny => absurd hy hny⟩, hseen, hpath⟩
      · obtain ⟨⟨hsub, hclosed⟩, hall⟩ := visitAll_closedOff (ih (x :: path)) _ _ _ h
        have hx : x ∈ after := hsub List.mem_cons_self
        refine ⟨⟨fun y hy => hsub (List.mem_cons_of_mem _ hy), ?_⟩, hx, hpath⟩
        intro y hy hny z hz
        by_cases hyx : y = x
        · subst hyx
          obtain ⟨hza, hzp⟩ := hall z hz
          exact ⟨hza, fun h => hzp (List.mem_cons_of_mem _ h)⟩
        · obtain ⟨hza, hzp⟩ := hclosed y hy (by simp [hyx, hny]) z hz
          exact ⟨hza, fun h => hzp (List.mem_cons_of_mem _ h)⟩

/-- A search that finds nothing from a node has met no cycle through it. -/
theorem not_transGen_of_findsCycle {n : Nat} {x : α} {after : List α}
    (h : findsCycle succ n [] x [] = some (false, after)) :
    ¬ Relation.TransGen (fun a b => b ∈ succ a) x x := by
  cases n with
  | zero => cases h
  | succ n =>
    simp only [findsCycle, List.not_mem_nil, if_false] at h
    obtain ⟨⟨hsub, hclosed⟩, hall⟩ :=
      visitAll_closedOff (findsCycle_closedOff n [x]) _ _ _ h
    have hstep : ∀ y ∈ after, ∀ z ∈ succ y, z ∈ after ∧ z ≠ x := by
      intro y hy z hz
      by_cases hyx : y = x
      · subst hyx
        simpa using hall z hz
      · simpa using hclosed y hy (by simp [hyx]) z hz
    have hreach : ∀ z, Relation.TransGen (fun a b => b ∈ succ a) x z → z ∈ after ∧ z ≠ x := by
      intro z hz
      induction hz with
      | single hz => exact hstep x (hsub List.mem_cons_self) _ hz
      | tail _ hz ih => exact hstep _ ih.1 _ hz
    intro hcycle
    exact (hreach x hcycle).2 rfl

/-! ### The bound on the path -/

/-- The nodes not yet visited. -/
def unvisited (nodes visited : List α) : Nat := (nodes.filter (· ∉ visited)).length

theorem unvisited_le_of_subset {nodes a b : List α} (h : a ⊆ b) :
    unvisited nodes b ≤ unvisited nodes a := by
  unfold unvisited
  rw [← List.countP_eq_length_filter, ← List.countP_eq_length_filter]
  apply List.countP_mono_left
  intro x _ hx
  simp only [decide_eq_true_eq] at hx ⊢
  exact fun hxa => hx (h hxa)

theorem unvisited_cons_lt {nodes visited : List α} {x : α} (hx : x ∈ nodes)
    (hnew : x ∉ visited) : unvisited nodes (x :: visited) < unvisited nodes visited := by
  unfold unvisited
  have hsplit : (nodes.filter (· ∉ x :: visited)) =
      (nodes.filter (· ∉ visited)).filter (· ≠ x) := by
    rw [List.filter_filter]
    congr 1
    funext y
    simp [List.mem_cons, not_or]
  rw [hsplit]
  apply List.length_filter_lt_length_iff_exists.mpr
  exact ⟨x, List.mem_filter.mpr ⟨hx, by simpa using hnew⟩, by simp⟩

theorem visitAll_isSome {visit : α → List α → Option (Bool × List α)} {nodes zs : List α}
    {bound : Nat} (hzs : zs ⊆ nodes)
    (hvisit : ∀ z ∈ nodes, ∀ visited, unvisited nodes visited < bound →
      ∃ r after, visit z visited = some (r, after) ∧ (r = false → visited ⊆ after)) :
    ∀ visited, unvisited nodes visited < bound →
      ∃ r after, visitAll visit zs visited = some (r, after) ∧
        (r = false → visited ⊆ after) := by
  induction zs with
  | nil =>
    intro visited _
    exact ⟨false, visited, rfl, fun _ => List.Subset.refl _⟩
  | cons z rest ih =>
    intro visited hbound
    obtain ⟨r, mid, hmid, hsub⟩ := hvisit z (hzs List.mem_cons_self) visited hbound
    rw [visitAll, hmid]
    cases r with
    | true => exact ⟨true, mid, rfl, by simp⟩
    | false =>
      have hle := @unvisited_le_of_subset _ _ nodes _ _ (hsub rfl)
      obtain ⟨r, after, hrest, hsub'⟩ :=
        ih (fun y hy => hzs (List.mem_cons_of_mem _ hy)) mid (by omega)
      exact ⟨r, after, hrest, fun hr y hy => hsub' hr (hsub rfl hy)⟩

/-- With one step for every node that is left the search ends. -/
theorem findsCycle_isSome {nodes : List α} (hsucc : ∀ y, succ y ⊆ nodes) (n : Nat) :
    ∀ (path : List α) (x : α) (visited : List α), x ∈ nodes → unvisited nodes visited < n →
      ∃ r after, findsCycle succ n path x visited = some (r, after) ∧
        (r = false → visited ⊆ after) := by
  induction n with
  | zero =>
    intro path x visited _ h
    omega
  | succ n ih =>
    intro path x visited hx hbound
    rw [findsCycle]
    split
    · exact ⟨true, visited, rfl, by simp⟩
    · split
      · exact ⟨false, visited, rfl, fun _ => List.Subset.refl _⟩
      · rename_i hnew
        have hlt := unvisited_cons_lt hx hnew
        obtain ⟨r, after, hall, hsub⟩ := visitAll_isSome (hsucc x)
          (fun z hz visited hv => ih (x :: path) z visited hz hv) (x :: visited) (by omega)
        exact ⟨r, after, hall, fun hr y hy => hsub hr (List.mem_cons_of_mem _ hy)⟩

end Search

/-! ## Relations without cycles -/

/-- No node leads back to itself. -/
def Acyclic (r : α → α → Prop) : Prop := ∀ x, ¬ Relation.TransGen r x x

/-- If a relation without cycles gets more edges, none of which leads back to where it
started, there is still no cycle. -/
theorem Acyclic.of_edges {r s : α → α → Prop} (hs : Acyclic s)
    (hback : ∀ a b, r a b → ¬ s a b → ¬ Relation.ReflTransGen r b a) : Acyclic r := by
  have hall : ∀ x y, Relation.TransGen r x y → Relation.ReflTransGen r y x →
      Relation.TransGen s x y := by
    intro x y hxy
    induction hxy with
    | @single y h =>
      intro hyx
      by_contra hns
      exact hback x y h (fun hxy => hns (.single hxy)) hyx
    | @tail b c hxb hbc ih =>
      intro hcx
      have hbx : Relation.ReflTransGen r b x := .head hbc hcx
      refine .tail (ih hbx) ?_
      by_contra hns
      exact hback b c hbc hns (hcx.trans hxb.to_reflTransGen)
  intro x hxx
  exact hs x (hall x x hxx .refl)

theorem Acyclic.not_back {r : α → α → Prop} (h : Acyclic r) {a b : α} (hab : r a b) :
    ¬ Relation.ReflTransGen r b a :=
  fun hba => h a (.head' hab hba)

/-- Without cycles, a chain through finitely many nodes visits none twice. -/
theorem Acyclic.length_le {r : α → α → Prop} (h : Acyclic r) {nodes chain : List α}
    (hchain : chain.IsChain r) (hsub : chain ⊆ nodes) : chain.length ≤ nodes.length := by
  have hpair : chain.Pairwise (Relation.TransGen r) := by
    have htrans : chain.IsChain (Relation.TransGen r) := hchain.imp fun _ _ => .single
    exact List.isChain_iff_pairwise.mp htrans
  have hnodup : chain.Nodup := by
    refine List.Pairwise.imp ?_ hpair
    rintro a b hab rfl
    exact h a hab
  exact (hnodup.subperm hsub).length_le

end Runar.Logic
