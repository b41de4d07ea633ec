/-
  Testing/BranchBlocks.lean --- walks through balanced conditionals.

  WHAT THIS FILE IS FOR.  A script with balanced conditionals is a block: opcodes, and
  conditionals with one arm or two.  The matching finds the conditionals of a block, each at its
  places, and the walk with some choices takes the arms that the choices say.
-/
import Mathlib.Data.List.Nodup
import Runar.Testing.PathAnalyzer

set_option autoImplicit false

namespace Runar.Testing

open Script Logic

/-! ## Blocks -/

/-- A script with balanced conditionals and one OP_ELSE in each at most. -/
inductive Block where
  | done
  | op (op : ParsedOpcode) (plain : isFlowControl op = false) (rest : Block)
  | oneArm (opening : ParsedOpcode) (opens : opensBranch opening = true) (arm : Block)
      (closing : ParsedOpcode) (closes : closing.opcode = 0x68) (rest : Block)
  | twoArms (opening : ParsedOpcode) (opens : opensBranch opening = true) (arm : Block)
      (middle : ParsedOpcode) (turns : middle.opcode = 0x67) (other : Block)
      (closing : ParsedOpcode) (closes : closing.opcode = 0x68) (rest : Block)

namespace Block

def opcodes : Block → List ParsedOpcode
  | done => []
  | op o _ rest => o :: rest.opcodes
  | oneArm opening _ arm closing _ rest => opening :: (arm.opcodes ++ closing :: rest.opcodes)
  | twoArms opening _ arm middle _ other closing _ rest =>
      opening :: (arm.opcodes ++ middle :: (other.opcodes ++ closing :: rest.opcodes))

/-- How many opcodes it has. -/
def size (block : Block) : Nat := block.opcodes.length

section Size

variable {o opening middle closing : ParsedOpcode} {plain : isFlowControl o = false}
  {opens : opensBranch opening = true} {turns : middle.opcode = 0x67}
  {closes : closing.opcode = 0x68} {arm other rest : Block}

theorem size_op : (op o plain rest).size = rest.size + 1 := rfl

theorem size_oneArm :
    (oneArm opening opens arm closing closes rest).size = arm.size + rest.size + 2 := by
  simp only [size, opcodes, List.length_cons, List.length_append]
  omega

theorem size_twoArms :
    (twoArms opening opens arm middle turns other closing closes rest).size =
      arm.size + other.size + rest.size + 3 := by
  simp only [size, opcodes, List.length_cons, List.length_append]
  omega

end Size

/-- The conditionals of a block that starts at a place, in the order in which they are closed. -/
def branchesAt : Block → Nat → List BranchPoint
  | done, _ => []
  | op _ _ rest, start => rest.branchesAt (start + 1)
  | oneArm opening _ arm _ _ rest, start =>
      let endifIndex := start + 1 + arm.size
      arm.branchesAt (start + 1) ++
        ⟨start, none, endifIndex, opening.opcode == 0x64⟩ :: rest.branchesAt (endifIndex + 1)
  | twoArms opening _ arm _ _ other _ _ rest, start =>
      let elseIndex := start + 1 + arm.size
      let endifIndex := elseIndex + 1 + other.size
      arm.branchesAt (start + 1) ++ (other.branchesAt (elseIndex + 1) ++
        ⟨start, some elseIndex, endifIndex, opening.opcode == 0x64⟩ ::
          rest.branchesAt (endifIndex + 1))

/-- The opcodes that are executed where the conditionals that are met are decided so. -/
inductive Takes : Block → List Bool → List ParsedOpcode → Prop
  | done : Takes done [] []
  | op {o : ParsedOpcode} {plain : isFlowControl o = false} {rest : Block} {choices : List Bool}
      {taken : List ParsedOpcode} (hrest : Takes rest choices taken) :
      Takes (op o plain rest) choices (o :: taken)
  | inside {opening closing : ParsedOpcode} {opens : opensBranch opening = true}
      {closes : closing.opcode = 0x68} {arm rest : Block} {choices choices' : List Bool}
      {taken taken' : List ParsedOpcode} (harm : Takes arm choices taken)
      (hrest : Takes rest choices' taken') :
      Takes (oneArm opening opens arm closing closes rest) (true :: (choices ++ choices'))
        (taken ++ taken')
  | past {opening closing : ParsedOpcode} {opens : opensBranch opening = true}
      {closes : closing.opcode = 0x68} {arm rest : Block} {choices : List Bool}
      {taken : List ParsedOpcode} (hrest : Takes rest choices taken) :
      Takes (oneArm opening opens arm closing closes rest) (false :: choices) taken
  | first {opening middle closing : ParsedOpcode} {opens : opensBranch opening = true}
      {turns : middle.opcode = 0x67} {closes : closing.opcode = 0x68} {arm other rest : Block}
      {choices choices' : List Bool} {taken taken' : List ParsedOpcode}
      (harm : Takes arm choices taken) (hrest : Takes rest choices' taken') :
      Takes (twoArms opening opens arm middle turns other closing closes rest)
        (true :: (choices ++ choices')) (taken ++ taken')
  | second {opening middle closing : ParsedOpcode} {opens : opensBranch opening = true}
      {turns : middle.opcode = 0x67} {closes : closing.opcode = 0x68} {arm other rest : Block}
      {choices choices' : List Bool} {taken taken' : List ParsedOpcode}
      (hother : Takes other choices taken) (hrest : Takes rest choices' taken') :
      Takes (twoArms opening opens arm middle turns other closing closes rest)
        (false :: (choices ++ choices')) (taken ++ taken')

end Block

/-! ## The matching -/

section Matching

variable {op : ParsedOpcode}

theorem structureStep_opening (h : opensBranch op = true) (i : Nat) (s : BranchStructure) :
    structureStep i op s = { s with stack := ⟨i, none, op.opcode == 0x64⟩ :: s.stack } := if_pos h

theorem not_opensBranch_else (h : op.opcode = 0x67) : opensBranch op = false := by
  rw [opensBranch, h]
  rfl

theorem not_opensBranch_endif (h : op.opcode = 0x68) : opensBranch op = false := by
  rw [opensBranch, h]
  rfl

theorem structureStep_middle (h : op.opcode = 0x67) (i : Nat) {s : BranchStructure}
    {branch : OpenBranch} {rest : List OpenBranch} (hstack : s.stack = branch :: rest) :
    structureStep i op s = { s with stack := { branch with elseIndex := some i } :: rest } := by
  rw [structureStep, not_opensBranch_else h, if_neg Bool.false_ne_true, if_pos h, hstack]

theorem structureStep_closing (h : op.opcode = 0x68) (i : Nat) {s : BranchStructure}
    {branch : OpenBranch} {rest : List OpenBranch} (hstack : s.stack = branch :: rest) :
    structureStep i op s = { s with
      stack := rest
      branches := s.branches ++ [⟨branch.ifIndex, branch.elseIndex, i, branch.isNotIf⟩] } := by
  rw [structureStep, not_opensBranch_endif h, if_neg Bool.false_ne_true,
    if_neg (by rw [h]; decide), if_pos h, hstack]

theorem structureStep_plain (h : isFlowControl op = false) (i : Nat) (s : BranchStructure) :
    structureStep i op s = s := by
  rw [isFlowControl, Bool.or_eq_false_iff, Bool.or_eq_false_iff, beq_eq_false_iff_ne,
    beq_eq_false_iff_ne] at h
  rw [structureStep, h.1.1, if_neg Bool.false_ne_true, if_neg h.1.2, if_neg h.2]

/-- Over a block the matching finds its conditionals and leaves the open ones as they are. -/
theorem structureLoop_block (block : Block) (start : Nat) (after : List ParsedOpcode)
    (s : BranchStructure) :
    structureLoop start (block.opcodes ++ after) s =
      structureLoop (start + block.size) after
        { s with branches := s.branches ++ block.branchesAt start } := by
  induction block generalizing start after s with
  | done => rw [Block.branchesAt, List.append_nil]; rfl
  | op o plain rest ih =>
    rw [Block.opcodes, List.cons_append, structureLoop, structureStep_plain plain, ih,
      Block.branchesAt, Block.size_op, Nat.add_assoc start 1, Nat.add_comm 1]
  | oneArm opening opens arm closing closes rest iharm ihrest =>
    have hsize : start + 1 + arm.size + 1 + rest.size =
        start + (Block.oneArm opening opens arm closing closes rest).size := by
      rw [Block.size_oneArm]
      omega
    rw [Block.opcodes, List.cons_append, structureLoop, structureStep_opening opens,
      List.append_assoc, iharm, List.cons_append, structureLoop,
      structureStep_closing closes _ rfl, ihrest, hsize, Block.branchesAt]
    simp only [List.append_assoc, List.singleton_append]
  | twoArms opening opens arm middle turns other closing closes rest iharm ihother ihrest =>
    have hsize : start + 1 + arm.size + 1 + other.size + 1 + rest.size =
        start + (Block.twoArms opening opens arm middle turns other closing closes rest).size := by
      rw [Block.size_twoArms]
      omega
    rw [Block.opcodes, List.cons_append, structureLoop, structureStep_opening opens,
      List.append_assoc, iharm, List.cons_append, structureLoop, structureStep_middle turns _ rfl,
      List.append_assoc, ihother, List.cons_append, structureLoop,
      structureStep_closing closes _ rfl, ihrest, hsize, Block.branchesAt]
    simp only [List.append_assoc, List.singleton_append]

theorem buildBranchStructure_block (block : Block) :
    buildBranchStructure block.opcodes = (block.branchesAt 0, []) := by
  have h := structureLoop_block block 0 [] ⟨[], [], []⟩
  rw [List.append_nil] at h
  rw [buildBranchStructure, h]
  rfl

end Matching

/-! ## The lookup -/

/-- The places that a conditional is found by. -/
def BranchPoint.places (branch : BranchPoint) : List Nat :=
  branch.ifIndex :: branch.elseIndex.toList

theorem places_branchesAt (block : Block) (start : Nat) :
    ∀ p ∈ (block.branchesAt start).flatMap BranchPoint.places,
      start ≤ p ∧ p < start + block.size := by
  induction block generalizing start with
  | done => exact fun _ h => nomatch h
  | op o plain rest ih =>
    intro p hp
    have hrest := ih (start + 1) p hp
    rw [Block.size_op]
    omega
  | oneArm opening opens arm closing closes rest iharm ihrest =>
    intro p hp
    simp only [Block.branchesAt, List.flatMap_append, List.flatMap_cons, List.mem_append,
      BranchPoint.places, Option.toList, List.mem_singleton] at hp
    rw [Block.size_oneArm]
    rcases hp with hp | hp | hp
    · have hin := iharm (start + 1) p hp
      omega
    · omega
    · have hin := ihrest _ p hp
      omega
  | twoArms opening opens arm middle turns other closing closes rest iharm ihother ihrest =>
    intro p hp
    simp only [Block.branchesAt, List.flatMap_append, List.flatMap_cons, List.mem_append,
      BranchPoint.places, Option.toList, List.mem_cons, List.not_mem_nil, or_false] at hp
    rw [Block.size_twoArms]
    rcases hp with hp | hp | (hp | hp) | hp
    · have hin := iharm (start + 1) p hp
      omega
    · have hin := ihother _ p hp
      omega
    · omega
    · omega
    · have hin := ihrest _ p hp
      omega

/-- No place belongs to two conditionals. -/
theorem nodup_places (block : Block) (start : Nat) :
    ((block.branchesAt start).flatMap BranchPoint.places).Nodup := by
  induction block generalizing start with
  | done => exact List.nodup_nil
  | op o plain rest ih => exact ih (start + 1)
  | oneArm opening opens arm closing closes rest iharm ihrest =>
    have harm := places_branchesAt arm (start + 1)
    have hrest := places_branchesAt rest (start + 1 + arm.size + 1)
    simp only [Block.branchesAt, List.flatMap_append, List.flatMap_cons, BranchPoint.places,
      Option.toList, List.cons_append, List.nil_append] at iharm ihrest harm hrest ⊢
    refine List.nodup_append.mpr ⟨iharm _, List.nodup_cons.mpr ⟨fun hin => ?_, ihrest _⟩, ?_⟩
    · have hplace := hrest _ hin
      omega
    · rintro p hp q hq rfl
      have hplace := harm p hp
      rcases List.mem_cons.mp hq with rfl | hq
      · omega
      · have hplace' := hrest p hq
        omega
  | twoArms opening opens arm middle turns other closing closes rest iharm ihother ihrest =>
    have harm := places_branchesAt arm (start + 1)
    have hother := places_branchesAt other (start + 1 + arm.size + 1)
    have hrest := places_branchesAt rest (start + 1 + arm.size + 1 + other.size + 1)
    simp only [Block.branchesAt, List.flatMap_append, List.flatMap_cons, BranchPoint.places,
      Option.toList, List.cons_append, List.nil_append]
      at iharm ihother ihrest harm hother hrest ⊢
    refine List.nodup_append.mpr ⟨iharm _, List.nodup_append.mpr ⟨ihother _, List.nodup_cons.mpr
      ⟨fun hin => ?_, List.nodup_cons.mpr ⟨fun hin => ?_, ihrest _⟩⟩, ?_⟩, ?_⟩
    · rcases List.mem_cons.mp hin with hin | hin
      · omega
      · have hplace := hrest _ hin
        omega
    · have hplace := hrest _ hin
      omega
    · rintro p hp q hq rfl
      have hplace := hother p hp
      rcases List.mem_cons.mp hq with rfl | hq
      · omega
      rcases List.mem_cons.mp hq with rfl | hq
      · omega
      · have hplace' := hrest p hq
        omega
    · rintro p hp q hq rfl
      have hplace := harm p hp
      rcases List.mem_append.mp hq with hq | hq
      · have hplace' := hother p hq
        omega
      rcases List.mem_cons.mp hq with rfl | hq
      · omega
      rcases List.mem_cons.mp hq with rfl | hq
      · omega
      · have hplace' := hrest p hq
        omega

/-- The conditionals are found by their places. -/
def Knows (lookup branches : List BranchPoint) : Prop :=
  ∀ branch ∈ branches, getBranch lookup branch.ifIndex = some branch ∧
    ∀ elseIndex, branch.elseIndex = some elseIndex →
      findBranchByElse lookup elseIndex = some branch

theorem Knows.mono {lookup branches branches' : List BranchPoint} (h : Knows lookup branches)
    (hsub : branches' ⊆ branches) : Knows lookup branches' :=
  fun branch hbranch => h branch (hsub hbranch)

/-- What only one element satisfies is found there. -/
theorem find?_of_unique {α : Type} {p : α → Bool} {l : List α} {a : α} (ha : a ∈ l)
    (hp : p a = true) (hunique : ∀ b ∈ l, p b = true → b = a) : l.find? p = some a := by
  cases h : l.find? p with
  | none => exact absurd hp (List.find?_eq_none.mp h a ha)
  | some b => rw [hunique b (List.mem_of_find?_eq_some h) (List.find?_some h)]

/-- Conditionals with a place in common are one. -/
theorem eq_of_place {branches : List BranchPoint}
    (h : (branches.flatMap BranchPoint.places).Nodup) {b b' : BranchPoint} (hb : b ∈ branches)
    (hb' : b' ∈ branches) {p : Nat} (hp : p ∈ b.places) (hp' : p ∈ b'.places) : b = b' := by
  by_contra hne
  have : Std.Symm (Function.onFun List.Disjoint BranchPoint.places) :=
    ⟨fun _ _ hdisjoint => hdisjoint.symm⟩
  exact (List.nodup_flatMap.mp h).2.forall hb hb' hne hp hp'

theorem setBranch_new {lookup : List BranchPoint} {branch : BranchPoint}
    (h : ∀ other ∈ lookup, other.ifIndex ≠ branch.ifIndex) :
    setBranch lookup branch = lookup ++ [branch] := by
  refine if_neg fun hany => ?_
  obtain ⟨other, hother, heq⟩ := List.any_eq_true.mp hany
  exact h other hother (beq_iff_eq.mp heq)

theorem foldl_setBranch {branches lookup : List BranchPoint}
    (h : ((lookup ++ branches).map (·.ifIndex)).Nodup) :
    branches.foldl setBranch lookup = lookup ++ branches := by
  induction branches generalizing lookup with
  | nil => exact (List.append_nil lookup).symm
  | cons branch branches ih =>
    have hnew : ∀ other ∈ lookup, other.ifIndex ≠ branch.ifIndex := by
      rw [List.map_append, List.nodup_append] at h
      exact fun other hother => h.2.2 _ (List.mem_map_of_mem hother) _ List.mem_cons_self
    have happend : lookup ++ branch :: branches = lookup ++ [branch] ++ branches := by
      rw [List.append_assoc]
      rfl
    rw [happend] at h ⊢
    rw [List.foldl_cons, setBranch_new hnew, ih h]

theorem knows_branchesAt (block : Block) :
    Knows (buildBranchLookup (block.branchesAt 0)) (block.branchesAt 0) := by
  have hplaces := nodup_places block 0
  have hkeys : ((block.branchesAt 0).map (·.ifIndex)).Nodup := by
    refine List.Nodup.sublist ?_ hplaces
    generalize block.branchesAt 0 = branches
    induction branches with
    | nil => exact List.Sublist.slnil
    | cons branch branches ih =>
      rw [List.map_cons, List.flatMap_cons, BranchPoint.places, List.cons_append]
      exact (ih.trans (List.sublist_append_right _ _)).cons_cons _
  have hlookup : buildBranchLookup (block.branchesAt 0) = block.branchesAt 0 :=
    foldl_setBranch hkeys
  rw [hlookup]
  intro branch hbranch
  constructor
  · refine find?_of_unique hbranch (beq_self_eq_true _) fun other hother heq => ?_
    exact eq_of_place hplaces hother hbranch List.mem_cons_self
      (beq_iff_eq.mp heq ▸ List.mem_cons_self)
  · intro elseIndex helse
    have hin {b : BranchPoint} (h : b.elseIndex = some elseIndex) : elseIndex ∈ b.places := by
      rw [BranchPoint.places, h]
      exact List.mem_cons_of_mem _ (List.mem_singleton_self _)
    refine find?_of_unique hbranch (beq_iff_eq.mpr helse) fun other hother heq => ?_
    exact eq_of_place hplaces hother hbranch (hin (beq_iff_eq.mp heq)) (hin helse)

/-! ## The walk -/

section Walk

variable {opcodes : List ParsedOpcode} {all : List Bool} {lookup : List BranchPoint}

/-- After some rounds the walk is at another place and choice, with some opcodes taken. -/
def Leads (opcodes : List ParsedOpcode) (all : List Bool) (lookup : List BranchPoint)
    (rounds i c i' c' : Nat) (taken : List ParsedOpcode) : Prop :=
  ∀ fuel, collectLoop opcodes all lookup (fuel + rounds) i c =
    (collectLoop opcodes all lookup fuel i' c').map (taken ++ ·)

theorem Leads.stay (i c : Nat) : Leads opcodes all lookup 0 i c i c [] :=
  fun _ => Option.map_id'.symm

/-- The same walk, with its end written otherwise. -/
theorem Leads.cast {m i c i₁ c₁ i₂ c₂ : Nat} {taken taken' : List ParsedOpcode}
    (h : Leads opcodes all lookup m i c i₁ c₁ taken) (hplace : i₁ = i₂) (hchoice : c₁ = c₂)
    (htaken : taken = taken') : Leads opcodes all lookup m i c i₂ c₂ taken' := by
  subst hplace hchoice htaken
  exact h

theorem Leads.trans {m n i c i₁ c₁ i₂ c₂ : Nat} {taken taken' : List ParsedOpcode}
    (h : Leads opcodes all lookup m i c i₁ c₁ taken)
    (h' : Leads opcodes all lookup n i₁ c₁ i₂ c₂ taken') :
    Leads opcodes all lookup (m + n) i c i₂ c₂ (taken ++ taken') := by
  intro fuel
  rw [show fuel + (m + n) = fuel + n + m by omega, h, h', Option.map_map]
  congr 1
  funext l
  exact (List.append_assoc _ _ _).symm

theorem getElem?_of_drop {α : Type} {l rest : List α} {i : Nat} {a : α}
    (h : l.drop i = a :: rest) : l[i]? = some a := by
  have hzero : (l.drop i)[0]? = l[i + 0]? := List.getElem?_drop
  rw [h] at hzero
  exact hzero.symm

theorem drop_append {α : Type} {l xs ys : List α} {i : Nat} (h : l.drop i = xs ++ ys) {j : Nat}
    (hj : j = i + xs.length) : l.drop j = ys := by
  rw [hj, ← List.drop_drop, h, List.drop_left]

theorem drop_succ {α : Type} {l ys : List α} {i : Nat} {x : α} (h : l.drop i = x :: ys) :
    l.drop (i + 1) = ys := drop_append (show l.drop i = [x] ++ ys from h) rfl

theorem leads_plain {o : ParsedOpcode} {rest : List ParsedOpcode} {i : Nat}
    (hplace : opcodes.drop i = o :: rest) (hplain : isFlowControl o = false) (c : Nat) :
    Leads opcodes all lookup 1 i c (i + 1) c [o] := by
  intro fuel
  rw [isFlowControl, Bool.or_eq_false_iff, Bool.or_eq_false_iff, beq_eq_false_iff_ne,
    beq_eq_false_iff_ne] at hplain
  rw [collectLoop, getElem?_of_drop hplace]
  dsimp only
  rw [hplain.1.1, if_neg Bool.false_ne_true, if_neg hplain.1.2, if_neg hplain.2]
  rfl

theorem leads_opening {o : ParsedOpcode} {rest : List ParsedOpcode} {i c : Nat} {choice : Bool}
    {more : List Bool} {branch : BranchPoint} (hplace : opcodes.drop i = o :: rest)
    (hopens : opensBranch o = true) (hbranch : getBranch lookup i = some branch)
    (hchoice : all.drop c = choice :: more) :
    Leads opcodes all lookup 1 i c (afterChoice branch i choice) (c + 1) [] := by
  intro fuel
  rw [collectLoop, getElem?_of_drop hplace]
  dsimp only
  rw [if_pos hopens, hbranch, getElem?_of_drop hchoice]
  exact Option.map_id'.symm

theorem leads_middle {o : ParsedOpcode} {rest : List ParsedOpcode} {i : Nat}
    {branch : BranchPoint} (hplace : opcodes.drop i = o :: rest) (hturns : o.opcode = 0x67)
    (hbranch : findBranchByElse lookup i = some branch) (c : Nat) :
    Leads opcodes all lookup 1 i c (branch.endifIndex + 1) c [] := by
  intro fuel
  rw [collectLoop, getElem?_of_drop hplace]
  dsimp only
  rw [not_opensBranch_else hturns, if_neg Bool.false_ne_true, if_pos hturns, hbranch]
  exact Option.map_id'.symm

theorem leads_closing {o : ParsedOpcode} {rest : List ParsedOpcode} {i : Nat}
    (hplace : opcodes.drop i = o :: rest) (hcloses : o.opcode = 0x68) (c : Nat) :
    Leads opcodes all lookup 1 i c (i + 1) c [] := by
  intro fuel
  rw [collectLoop, getElem?_of_drop hplace]
  dsimp only
  rw [not_opensBranch_endif hcloses, if_neg Bool.false_ne_true, if_neg (by rw [hcloses]; decide),
    if_pos hcloses]
  exact Option.map_id'.symm

theorem Knows.of_append_left {branches branches' : List BranchPoint}
    (h : Knows lookup (branches ++ branches')) : Knows lookup branches :=
  h.mono (List.subset_append_left _ _)

theorem Knows.of_append_right {branches branches' : List BranchPoint}
    (h : Knows lookup (branches ++ branches')) : Knows lookup branches' :=
  h.mono (List.subset_append_right _ _)

theorem Knows.of_cons {branch : BranchPoint} {branches : List BranchPoint}
    (h : Knows lookup (branch :: branches)) : Knows lookup branches :=
  h.mono (List.subset_cons_self _ _)

/-- Over a block the walk takes what the choices say, and uses them up. -/
theorem leads_block {block : Block} {choices : List Bool} {taken : List ParsedOpcode}
    (h : block.Takes choices taken) {i c : Nat} {after : List ParsedOpcode} {more : List Bool}
    (hplace : opcodes.drop i = block.opcodes ++ after) (hchoices : all.drop c = choices ++ more)
    (hknows : Knows lookup (block.branchesAt i)) :
    ∃ rounds ≤ block.size,
      Leads opcodes all lookup rounds i c (i + block.size) (c + choices.length) taken := by
  induction h generalizing i c after more with
  | done => exact ⟨0, Nat.le_refl 0, Leads.stay i c⟩
  | @op o plain rest choices taken hrest ih =>
    obtain ⟨rounds, hrounds, hleads⟩ := ih (drop_succ hplace) hchoices hknows
    have hboth := (leads_plain hplace plain c).trans hleads
    refine ⟨1 + rounds, by rw [Block.size_op]; omega, hboth.cast ?_ rfl rfl⟩
    rw [Block.size_op]
    omega
  | @inside opening closing opens closes arm rest choices choices' taken taken' harm hrest iharm
      ihrest =>
    rw [Block.opcodes, List.cons_append, List.append_assoc, List.cons_append] at hplace
    rw [List.cons_append, List.append_assoc] at hchoices
    obtain ⟨hbranch, -⟩ := (hknows.of_append_right) _ List.mem_cons_self
    have hin := drop_succ hplace
    have hend := drop_append hin rfl
    obtain ⟨rounds, hrounds, hleads⟩ := iharm hin (drop_succ hchoices) hknows.of_append_left
    obtain ⟨rounds', hrounds', hleads'⟩ := ihrest (drop_succ hend)
      (drop_append (drop_succ hchoices) rfl) hknows.of_append_right.of_cons
    have hall := (((leads_opening hplace opens hbranch hchoices).trans hleads).trans
      (leads_closing hend closes _)).trans hleads'
    refine ⟨1 + rounds + 1 + rounds', by rw [Block.size_oneArm]; omega, hall.cast ?_ ?_ ?_⟩
    · rw [Block.size_oneArm]
      unfold Block.size
      omega
    · rw [List.length_cons, List.length_append]
      omega
    · rw [List.nil_append, List.append_nil]
  | @past opening closing opens closes arm rest choices taken hrest ihrest =>
    rw [Block.opcodes, List.cons_append, List.append_assoc, List.cons_append] at hplace
    obtain ⟨hbranch, -⟩ := (hknows.of_append_right) _ List.mem_cons_self
    have hend := drop_append (drop_succ hplace) rfl
    obtain ⟨rounds, hrounds, hleads⟩ := ihrest (drop_succ hend) (drop_succ hchoices)
      hknows.of_append_right.of_cons
    have hall := (leads_opening hplace opens hbranch hchoices).trans hleads
    refine ⟨1 + rounds, by rw [Block.size_oneArm]; omega, hall.cast ?_ ?_ rfl⟩
    · rw [Block.size_oneArm]
      unfold Block.size
      omega
    · rw [List.length_cons]
      omega
  | @first opening middle closing opens turns closes arm other rest choices choices' taken taken'
      harm hrest iharm ihrest =>
    rw [Block.opcodes, List.cons_append, List.append_assoc, List.cons_append, List.append_assoc,
      List.cons_append] at hplace
    rw [List.cons_append, List.append_assoc] at hchoices
    have hknows' := hknows.of_append_right.of_append_right
    obtain ⟨hbranch, hmiddle⟩ := hknows' _ List.mem_cons_self
    have hin := drop_succ hplace
    have hturn := drop_append hin rfl
    have hend := drop_append (drop_succ hturn) rfl
    obtain ⟨rounds, hrounds, hleads⟩ := iharm hin (drop_succ hchoices) hknows.of_append_left
    obtain ⟨rounds', hrounds', hleads'⟩ := ihrest (drop_succ hend)
      (drop_append (drop_succ hchoices) rfl) hknows'.of_cons
    have hall := (((leads_opening hplace opens hbranch hchoices).trans hleads).trans
      (leads_middle hturn turns (hmiddle _ rfl) _)).trans hleads'
    refine ⟨1 + rounds + 1 + rounds', by rw [Block.size_twoArms]; omega, hall.cast ?_ ?_ ?_⟩
    · rw [Block.size_twoArms]
      unfold Block.size
      omega
    · rw [List.length_cons, List.length_append]
      omega
    · rw [List.nil_append, List.append_nil]
  | @second opening middle closing opens turns closes arm other rest choices choices' taken taken'
      hother hrest ihother ihrest =>
    rw [Block.opcodes, List.cons_append, List.append_assoc, List.cons_append, List.append_assoc,
      List.cons_append] at hplace
    rw [List.cons_append, List.append_assoc] at hchoices
    have hknows' := hknows.of_append_right.of_append_right
    obtain ⟨hbranch, -⟩ := hknows' _ List.mem_cons_self
    have hturn := drop_append (drop_succ hplace) rfl
    have hend := drop_append (drop_succ hturn) rfl
    obtain ⟨rounds, hrounds, hleads⟩ := ihother (drop_succ hturn) (drop_succ hchoices)
      hknows.of_append_right.of_append_left
    obtain ⟨rounds', hrounds', hleads'⟩ := ihrest (drop_succ hend)
      (drop_append (drop_succ hchoices) rfl) hknows'.of_cons
    have hall := (((leads_opening hplace opens hbranch hchoices).trans hleads).trans
      (leads_closing hend closes _)).trans hleads'
    refine ⟨1 + rounds + 1 + rounds', by rw [Block.size_twoArms]; omega, hall.cast ?_ ?_ ?_⟩
    · rw [Block.size_twoArms]
      unfold Block.size
      omega
    · rw [List.length_cons, List.length_append]
      omega
    · rw [List.nil_append, List.append_nil]

end Walk

/-- With choices that begin with those of a walk over the whole script, its opcodes are
collected. -/
theorem collectPathOpcodes_block {block : Block} {choices : List Bool} {taken : List ParsedOpcode}
    (h : block.Takes choices taken) (more : List Bool) :
    collectPathOpcodes block.opcodes (choices ++ more)
      (buildBranchLookup (block.branchesAt 0)) = some taken := by
  obtain ⟨rounds, hrounds, hleads⟩ := leads_block h
    (show block.opcodes.drop 0 = block.opcodes ++ [] by rw [List.drop_zero, List.append_nil])
    (show (choices ++ more).drop 0 = choices ++ more from rfl) (knows_branchesAt block)
  have hfuel : block.opcodes.length + 1 = block.size - rounds + 1 + rounds := by
    rw [Block.size] at hrounds ⊢
    omega
  have hend : block.opcodes[0 + block.size]? = none :=
    List.getElem?_eq_none (Nat.le_of_eq (Nat.zero_add _).symm)
  rw [collectPathOpcodes, hfuel, hleads, collectLoop, hend]
  exact congrArg some (List.append_nil taken)

/-! ## The combinations -/

/-- Any choices are the bits of a combination. -/
theorem exists_choicesOf {choices : List Bool} {n : Nat} (hn : n ≤ 31) (h : choices.length = n) :
    ∃ combo < 2 ^ n, choicesOf n combo = choices := by
  subst h
  refine ⟨Nat.ofBits fun i : Fin choices.length => choices[i], Nat.ofBits_lt_two_pow _, ?_⟩
  refine List.ext_getElem ?_ fun b hb hb' => ?_
  · rw [choicesOf, List.length_map, List.length_range]
  · simp only [choicesOf, List.getElem_map, List.getElem_range]
    rw [if_pos (by omega), Nat.testBit_ofBits_lt _ b hb']
    rfl

theorem countBranchPoints_append (xs : List ParsedOpcode) (o : ParsedOpcode)
    (ys : List ParsedOpcode) :
    countBranchPoints xs + countBranchPoints ys ≤ countBranchPoints (xs ++ o :: ys) := by
  rw [countBranchPoints, countBranchPoints, countBranchPoints, List.filter_append,
    List.length_append]
  have hsub := ((List.sublist_cons_self o ys).filter opensBranch).length_le
  omega

theorem countBranchPoints_cons {o : ParsedOpcode} (h : opensBranch o = true)
    (xs : List ParsedOpcode) : countBranchPoints (o :: xs) = countBranchPoints xs + 1 := by
  rw [countBranchPoints, List.filter_cons_of_pos h]
  rfl

/-- The conditionals that are met are conditionals of the script. -/
theorem Block.Takes.length_le {block : Block} {choices : List Bool} {taken : List ParsedOpcode}
    (h : block.Takes choices taken) : choices.length ≤ countBranchPoints block.opcodes := by
  induction h with
  | done => exact Nat.zero_le _
  | op hrest ih => exact Nat.le_trans ih ((List.sublist_cons_self _ _).filter _).length_le
  | @inside opening closing opens closes arm rest _ _ _ _ harm hrest iharm ihrest =>
    have hparts := countBranchPoints_append arm.opcodes closing rest.opcodes
    rw [Block.opcodes, countBranchPoints_cons opens, List.length_cons, List.length_append]
    omega
  | @past opening closing opens closes arm rest _ _ hrest ihrest =>
    have hparts := countBranchPoints_append arm.opcodes closing rest.opcodes
    rw [Block.opcodes, countBranchPoints_cons opens, List.length_cons]
    omega
  | @first opening middle closing opens turns closes arm other rest _ _ _ _ harm hrest iharm
      ihrest =>
    have hparts :=
      countBranchPoints_append arm.opcodes middle (other.opcodes ++ closing :: rest.opcodes)
    have hparts' := countBranchPoints_append other.opcodes closing rest.opcodes
    rw [Block.opcodes, countBranchPoints_cons opens, List.length_cons, List.length_append]
    omega
  | @second opening middle closing opens turns closes arm other rest _ _ _ _ hother hrest ihother
      ihrest =>
    have hparts :=
      countBranchPoints_append arm.opcodes middle (other.opcodes ++ closing :: rest.opcodes)
    have hparts' := countBranchPoints_append other.opcodes closing rest.opcodes
    rw [Block.opcodes, countBranchPoints_cons opens, List.length_cons, List.length_append]
    omega

/-- The walk over a block uses up the beginning of any choices that are enough. -/
theorem exists_takes (block : Block) {all : List Bool}
    (h : countBranchPoints block.opcodes ≤ all.length) :
    ∃ choices taken more, block.Takes choices taken ∧ all = choices ++ more := by
  induction block generalizing all with
  | done => exact ⟨[], [], all, .done, rfl⟩
  | op o plain rest ih =>
    have hopens : opensBranch o = false := by
      rw [isFlowControl, Bool.or_eq_false_iff, Bool.or_eq_false_iff] at plain
      exact plain.1.1
    rw [Block.opcodes, countBranchPoints,
      List.filter_cons_of_neg (by rw [hopens]; exact Bool.false_ne_true)] at h
    obtain ⟨choices, taken, more, htakes, rfl⟩ := ih h
    exact ⟨choices, _, more, .op htakes, rfl⟩
  | oneArm opening opens arm closing closes rest iharm ihrest =>
    have hcount := countBranchPoints_cons opens (arm.opcodes ++ closing :: rest.opcodes)
    have hparts := countBranchPoints_append arm.opcodes closing rest.opcodes
    rw [Block.opcodes, hcount] at h
    cases all with
    | nil => exact absurd h (Nat.not_succ_le_zero _)
    | cons choice all =>
      rw [List.length_cons] at h
      cases choice with
      | true =>
        obtain ⟨choices, taken, more, htakes, rfl⟩ := @iharm all (by omega)
        have hlength := htakes.length_le
        rw [List.length_append] at h
        obtain ⟨choices', taken', more', htakes', rfl⟩ := @ihrest more (by omega)
        exact ⟨_, _, more', .inside htakes htakes', by
          rw [List.cons_append, List.append_assoc]⟩
      | false =>
        obtain ⟨choices, taken, more, htakes, rfl⟩ := @ihrest all (by omega)
        exact ⟨_, _, more, .past htakes, rfl⟩
  | twoArms opening opens arm middle turns other closing closes rest iharm ihother ihrest =>
    have hcount := countBranchPoints_cons opens
      (arm.opcodes ++ middle :: (other.opcodes ++ closing :: rest.opcodes))
    have hparts := countBranchPoints_append arm.opcodes middle
      (other.opcodes ++ closing :: rest.opcodes)
    have hparts' := countBranchPoints_append other.opcodes closing rest.opcodes
    rw [Block.opcodes, hcount] at h
    cases all with
    | nil => exact absurd h (Nat.not_succ_le_zero _)
    | cons choice all =>
      rw [List.length_cons] at h
      cases choice with
      | true =>
        obtain ⟨choices, taken, more, htakes, rfl⟩ := @iharm all (by omega)
        have hlength := htakes.length_le
        rw [List.length_append] at h
        obtain ⟨choices', taken', more', htakes', rfl⟩ := @ihrest more (by omega)
        exact ⟨_, _, more', .first htakes htakes', by
          rw [List.cons_append, List.append_assoc]⟩
      | false =>
        obtain ⟨choices, taken, more, htakes, rfl⟩ := @ihother all (by omega)
        have hlength := htakes.length_le
        rw [List.length_append] at h
        obtain ⟨choices', taken', more', htakes', rfl⟩ := @ihrest more (by omega)
        exact ⟨_, _, more', .second htakes htakes', by
          rw [List.cons_append, List.append_assoc]⟩

/-- The opcodes of a path over a block are those that its choices take. -/
theorem pathOpcodes_block {block : Block} {choices : List Bool} {taken : List ParsedOpcode}
    (h : block.Takes choices taken) (more : List Bool) :
    pathOpcodes block.opcodes (choices ++ more) = some taken := by
  rw [pathOpcodes]
  split
  · next hzero =>
    have hall : taken = block.opcodes ∧ ∀ op ∈ block.opcodes, isFlowControl op = false := by
      induction h with
      | done => exact ⟨rfl, fun _ h => (nomatch h)⟩
      | @op o plain rest choices taken hrest ih =>
        have hrestZero : countBranchPoints rest.opcodes = 0 := by
          have hsub := ((List.sublist_cons_self o rest.opcodes).filter opensBranch).length_le
          rw [Block.opcodes, countBranchPoints] at hzero
          rw [countBranchPoints]
          omega
        obtain ⟨rfl, hplain⟩ := ih hrestZero
        exact ⟨rfl, List.forall_mem_cons.mpr ⟨plain, hplain⟩⟩
      | @inside _ _ opens | @past _ _ opens | @first _ _ _ opens | @second _ _ _ opens =>
        rw [Block.opcodes, countBranchPoints_cons opens] at hzero
        exact absurd hzero (Nat.succ_ne_zero _)
    rw [hall.1, List.filter_eq_self.mpr fun op hop => by rw [hall.2 op hop]; rfl]
  · rw [buildBranchStructure_block]
    exact collectPathOpcodes_block h more

end Runar.Testing
