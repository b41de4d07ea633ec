/-
  StackLower/Context.lean --- the state of stack lowering.

  WHAT THIS FILE IS FOR.  Stack lowering walks over bindings, emits stack
  operations and keeps a map of the names on the stack.  This file has that map,
  the context around it and the operation everything else is built on, bringing a
  named value to the top, and proves what the emitted operations do to a real
  stack: they move or copy the item that the map says is there.

  THE ONE IDEA.  The map and the stack are the two halves of one list of cells,
  and every step applies one list operation to both.
-/
import Runar.StackIR.RunsAs
import Runar.Anf.Syntax

set_option autoImplicit false

namespace Runar.StackLower

open Script

/-! ## The map of the stack -/

/-- Why lowering refuses a method. -/
inductive LowerError where
  | stackUnderflow
  | valueNotFound (name : String)
  | invalidDepth (depth : Nat)
  | paramNotOnStack (name : String)
  | refNotOnStack (refName bindingName : String)
  | noDeployTimeSlot (propName : String)
  | unsupportedStateType (propName : String)
  | branchLayoutMismatch
  deriving DecidableEq, Repr

/-- The names on the stack, top first; `none` is a slot without a name. -/
abbrev StackMap : Type := List (Option String)

namespace StackMap

/-- The depth of the topmost slot of a name. -/
def findDepth (slots : StackMap) (name : String) : Except LowerError Nat :=
  match slots.findIdx? (· == some name) with
  | some depth => .ok depth
  | none => .error (.valueNotFound name)

def has (slots : StackMap) (name : String) : Bool := slots.contains (some name)

def pop (slots : StackMap) : Except LowerError StackMap :=
  match slots with
  | _ :: rest => .ok rest
  | [] => .error .stackUnderflow

def swap (slots : StackMap) : Except LowerError StackMap :=
  match slots with
  | a :: b :: rest => .ok (b :: a :: rest)
  | _ => .error .stackUnderflow

def dup (slots : StackMap) : Except LowerError StackMap :=
  match slots with
  | a :: rest => .ok (a :: a :: rest)
  | [] => .error .stackUnderflow

def peekAtDepth (slots : StackMap) (depth : Nat) : Except LowerError (Option String) :=
  match slots[depth]? with
  | some name => .ok name
  | none => .error (.invalidDepth depth)

/-- Take out the slot at a depth; gives its name and what is left. -/
def removeAtDepth (slots : StackMap) (depth : Nat) : Except LowerError (Option String × StackMap) :=
  match slots[depth]? with
  | some name => .ok (name, slots.eraseIdx depth)
  | none => .error (.invalidDepth depth)

end StackMap

/-! ## The context -/

/-- The state of lowering one method.  The counters and source positions kept for
diagnostics are left out. -/
structure LoweringContext where
  stackMap : StackMap
  ops : List StackOp
  properties : List ANFProperty
  privateMethods : List ANFMethod
  localBindings : List String
  outerProtectedRefs : Option (List String)
  insideBranch : Bool
  arrayElements : List (String × List String)
  constValues : List (String × ConstValue)
  renamedParams : List (String × String)

namespace LoweringContext

def emitOp (ctx : LoweringContext) (op : StackOp) : LoweringContext :=
  { ctx with ops := ctx.ops ++ [op] }

def emitOps (ctx : LoweringContext) (ops : List StackOp) : LoweringContext :=
  { ctx with ops := ctx.ops ++ ops }

def setMap (ctx : LoweringContext) (slots : StackMap) : LoweringContext :=
  { ctx with stackMap := slots }

/-- The context after emitting `ops` and reaching the map `slots`: what every
lowering step gives, for the operations and the map it has. -/
def after (ctx : LoweringContext) (ops : List StackOp) (slots : StackMap) : LoweringContext :=
  { ctx with ops := ctx.ops ++ ops, stackMap := slots }

/-- Push a slot. -/
def pushSlot (ctx : LoweringContext) (name : Option String) : LoweringContext :=
  ctx.setMap (name :: ctx.stackMap)

/-- Pop a slot. -/
def popSlot (ctx : LoweringContext) : Except LowerError LoweringContext := do
  let slots ← ctx.stackMap.pop
  .ok (ctx.setMap slots)

/-- Exchange the two top slots. -/
def swapSlots (ctx : LoweringContext) : Except LowerError LoweringContext := do
  let slots ← ctx.stackMap.swap
  .ok (ctx.setMap slots)

/-- Bring a named value to the top: the topmost slot of that name is moved there,
or copied where the value is still needed. -/
def bringToTop (name : String) (consume : Bool) (ctx : LoweringContext) :
    Except LowerError LoweringContext := do
  let depth ← ctx.stackMap.findDepth name
  if depth = 0 then
    if consume then .ok ctx
    else
      let slots ← ctx.stackMap.dup
      .ok ((ctx.emitOp .dup).setMap slots)
  else if depth = 1 ∧ consume = true then
    let slots ← ctx.stackMap.swap
    .ok ((ctx.emitOp .swap).setMap slots)
  else if consume then
    if depth = 2 then
      let (name2, slots) ← ctx.stackMap.removeAtDepth 2
      .ok ((ctx.emitOp .rot).setMap (name2 :: slots))
    else
      -- the slot of the depth literal is pushed and popped again before the move
      let (rolled, slots) ← ctx.stackMap.removeAtDepth depth
      .ok (((ctx.emitOp (.push (.bigint depth))).emitOp (.roll depth)).setMap (rolled :: slots))
  else
    if depth = 1 then
      let name2 ← ctx.stackMap.peekAtDepth 1
      .ok ((ctx.emitOp .over).pushSlot name2)
    else
      let picked ← ctx.stackMap.peekAtDepth depth
      .ok (((ctx.emitOp (.push (.bigint depth))).emitOp (.pick depth)).pushSlot picked)

end LoweringContext

namespace LoweringContext

variable (ctx : LoweringContext)

@[simp] theorem stackMap_after (ops : List StackOp) (slots : StackMap) :
    (ctx.after ops slots).stackMap = slots := rfl

@[simp] theorem after_after (ops ops' : List StackOp) (slots slots' : StackMap) :
    (ctx.after ops slots).after ops' slots' = ctx.after (ops ++ ops') slots' := by
  simp [after]

/-- The map does not hide what was emitted. -/
theorem after_ops_inj {ctx : LoweringContext} {ops ops' : List StackOp} {slots slots' : StackMap}
    (h : ctx.after ops slots = ctx.after ops' slots') : ops = ops' :=
  List.append_cancel_left (congrArg LoweringContext.ops h)

theorem emitOp_eq_after (op : StackOp) : ctx.emitOp op = ctx.after [op] ctx.stackMap := rfl

theorem emitOps_eq_after (ops : List StackOp) : ctx.emitOps ops = ctx.after ops ctx.stackMap := rfl

theorem setMap_eq_after (slots : StackMap) : ctx.setMap slots = ctx.after [] slots := by
  simp [after, setMap]

theorem pushSlot_eq_after (name : Option String) :
    ctx.pushSlot name = ctx.after [] (name :: ctx.stackMap) :=
  setMap_eq_after ctx _

theorem popSlot_cons {name : Option String} {slots : StackMap} (h : ctx.stackMap = name :: slots) :
    ctx.popSlot = .ok (ctx.after [] slots) := by
  unfold popSlot
  rw [h, ← setMap_eq_after]
  rfl

theorem swapSlots_cons {a b : Option String} {slots : StackMap}
    (h : ctx.stackMap = a :: b :: slots) : ctx.swapSlots = .ok (ctx.after [] (b :: a :: slots)) := by
  unfold swapSlots
  rw [h, ← setMap_eq_after]
  rfl

end LoweringContext

/-! ## Bringing an item to the front -/

/-- The list with the item at a depth in front, moved there or copied. -/
def bring {α : Type} (depth : Nat) (consume : Bool) (l : List α) : List α :=
  match l[depth]? with
  | some a => a :: (if consume then l.eraseIdx depth else l)
  | none => l

/-- The operations that bring the item at a depth to the top. -/
def bringOps (depth : Nat) (consume : Bool) : List StackOp :=
  match depth, consume with
  | 0, true => []
  | 0, false => [.dup]
  | 1, true => [.swap]
  | 1, false => [.over]
  | 2, true => [.rot]
  | d, true => [.push (.bigint d), .roll d]
  | d, false => [.push (.bigint d), .pick d]

theorem map_bring {α β : Type} (f : α → β) (depth : Nat) (consume : Bool) (l : List α) :
    (bring depth consume l).map f = bring depth consume (l.map f) := by
  unfold bring
  rw [List.getElem?_map]
  cases l[depth]? with
  | none => rfl
  | some a => cases consume <;> simp [List.eraseIdx_map]

theorem findDepth_getElem {slots : StackMap} {name : String} {depth : Nat}
    (h : slots.findDepth name = .ok depth) : slots[depth]? = some (some name) := by
  unfold StackMap.findDepth at h
  split at h
  · rename_i d hfind
    cases h
    rw [List.findIdx?_eq_some_iff_getElem] at hfind
    obtain ⟨hlt, heq, _⟩ := hfind
    rw [List.getElem?_eq_getElem hlt, eq_of_beq heq]
  · cases h

/-- A named slot is brought to the top by the operations for its depth. -/
theorem bringToTop_eq {ctx : LoweringContext} {name : String} {depth : Nat} (consume : Bool)
    (h : ctx.stackMap.findDepth name = .ok depth) :
    ctx.bringToTop name consume =
      .ok (ctx.after (bringOps depth consume) (bring depth consume ctx.stackMap)) := by
  have hget := findDepth_getElem h
  unfold LoweringContext.bringToTop
  rw [h]
  obtain ⟨slots, ops, props, privs, locals, prot, inside, arrs, consts, renamed⟩ := ctx
  simp only [bind, Except.bind] at hget ⊢
  match depth, consume with
  | 0, true =>
      cases slots with
      | nil => cases hget
      | cons a rest => simp [bring, bringOps, LoweringContext.after]
  | 0, false =>
      cases slots with
      | nil => cases hget
      | cons a rest => rfl
  | 1, true =>
      match slots, hget with
      | a :: b :: rest, _ => rfl
  | 1, false =>
      match slots, hget with
      | a :: b :: rest, _ => rfl
  | 2, true =>
      match slots, hget with
      | a :: b :: c :: rest, _ => rfl
  | d + 3, true =>
      simp [bring, bringOps, LoweringContext.after, LoweringContext.setMap, hget,
        StackMap.removeAtDepth, LoweringContext.emitOp]
  | d + 2, false =>
      simp [bring, bringOps, LoweringContext.after, LoweringContext.setMap, hget,
        StackMap.peekAtDepth, LoweringContext.emitOp, LoweringContext.pushSlot]

/-- On a real stack those operations do the same to the items. -/
theorem runsAs_bringOps (cfg : Config) (slots : Slots) {depth : Nat} (consume : Bool)
    {before : List Bytes} (h : depth < before.length) :
    RunsAs cfg slots (bringOps depth consume) before (.ok (bring depth consume before)) := by
  have hget : before[depth]? = some before[depth] := List.getElem?_eq_getElem h
  match depth, consume with
  | 0, true =>
      match before, h with
      | a :: rest, _ => exact .nil (a :: rest)
  | 0, false =>
      match before, h with
      | a :: rest, _ => exact (runsAs_dup cfg slots a).frame rest
  | 1, true =>
      match before, h with
      | a :: b :: rest, _ => exact (runsAs_swap cfg slots a b).frame rest
  | 1, false =>
      match before, h with
      | a :: b :: rest, _ => exact (runsAs_over cfg slots a b).frame rest
  | 2, true =>
      match before, h with
      | a :: b :: c :: rest, _ => exact (runsAs_rot cfg slots a b c).frame rest
  | d + 3, true =>
      refine .of_plain (by simp [bringOps, emitOps_cons]; rfl) fun below alt => ?_
      have hbring : bring (d + 3) true before = before[d + 3] :: before.eraseIdx (d + 3) := by
        simp [bring, hget]
      have hroll := plainRun_roll cfg (d + 3) (before ++ below) alt
      rw [List.getElem?_append_left h, hget, List.eraseIdx_append_of_lt_length h] at hroll
      rw [hbring]
      simpa [bringOps, emitOps_cons, Except.map] using hroll
  | d + 2, false =>
      refine .of_plain (by simp [bringOps, emitOps_cons]; rfl) fun below alt => ?_
      have hbring : bring (d + 2) false before = before[d + 2] :: before := by
        simp [bring, hget]
      have hpick := plainRun_pick cfg (d + 2) (before ++ below) alt
      rw [List.getElem?_append_left h, hget] at hpick
      rw [hbring]
      simpa [bringOps, emitOps_cons, Except.map] using hpick

/-! ## Cells -/

/-- A slot of the map with the item it stands for. -/
abbrev Cell : Type := Option String × Bytes

/-- The slots of a list of cells. -/
def slotsOf (cells : List Cell) : StackMap := cells.map Prod.fst

/-- The items of a list of cells. -/
def itemsOf (cells : List Cell) : List Bytes := cells.map Prod.snd

@[simp] theorem slotsOf_cons (c : Cell) (cells : List Cell) :
    slotsOf (c :: cells) = c.1 :: slotsOf cells := rfl

@[simp] theorem itemsOf_cons (c : Cell) (cells : List Cell) :
    itemsOf (c :: cells) = c.2 :: itemsOf cells := rfl

/-- The value of a name: the item in its topmost slot. -/
def lookup (cells : List Cell) (name : String) : Option Bytes :=
  (cells.find? (·.1 == some name)).map Prod.snd

theorem lookup_cons_self (name : String) (v : Bytes) (cells : List Cell) :
    lookup ((some name, v) :: cells) name = some v := by
  simp [lookup]

theorem lookup_cons_ne {name : String} {c : Cell} (h : c.1 ≠ some name) (cells : List Cell) :
    lookup (c :: cells) name = lookup cells name := by
  simp [lookup, h]

theorem lookup_cons_none (name : String) (v : Bytes) (cells : List Cell) :
    lookup ((none, v) :: cells) name = lookup cells name :=
  lookup_cons_ne (by simp) cells

/-- The cells that stay below when a name is brought to the top. -/
def takeCell (name : String) (consume : Bool) (cells : List Cell) : List Cell :=
  if consume then cells.eraseP (·.1 == some name) else cells

@[simp] theorem takeCell_false (name : String) (cells : List Cell) :
    takeCell name false cells = cells := rfl

theorem takeCell_cons_ne {name : String} {c : Cell} (h : c.1 ≠ some name) (consume : Bool)
    (cells : List Cell) : takeCell name consume (c :: cells) = c :: takeCell name consume cells := by
  cases consume with
  | true => simp [takeCell, h]
  | false => rfl

/-- Taking out a cell of one name leaves the values of the others. -/
theorem lookup_takeCell {name other : String} (hne : other ≠ name) (consume : Bool)
    (cells : List Cell) : lookup (takeCell name consume cells) other = lookup cells other := by
  cases consume with
  | false => rfl
  | true =>
      induction cells with
      | nil => rfl
      | cons c rest ih =>
          by_cases hc : c.1 = some name
          · have hother : c.1 ≠ some other := by
              rw [hc]
              simpa using hne.symm
            rw [lookup_cons_ne hother]
            simp [takeCell, hc]
          · rw [takeCell_cons_ne hc]
            unfold lookup at ih ⊢
            by_cases ho : c.1 = some other
            · simp [ho]
            · simp only [List.find?_cons, beq_eq_false_iff_ne.mpr ho, ih]

/-- A name with a value has a slot, and its topmost slot holds that value. -/
theorem findDepth_of_lookup {cells : List Cell} {name : String} {v : Bytes}
    (h : lookup cells name = some v) :
    ∃ depth, (slotsOf cells).findDepth name = .ok depth ∧
      cells[depth]? = some (some name, v) ∧
      cells.findIdx? (·.1 == some name) = some depth := by
  induction cells with
  | nil => simp [lookup] at h
  | cons c rest ih =>
      by_cases hc : c.1 = some name
      · refine ⟨0, ?_, ?_, ?_⟩
        · simp [StackMap.findDepth, List.findIdx?_cons, hc]
        · simp only [lookup, List.find?_cons, hc, beq_self_eq_true, Option.map_some,
            Option.some.injEq] at h
          rw [List.getElem?_cons_zero, ← hc, ← h]
        · simp [List.findIdx?_cons, hc]
      · rw [lookup_cons_ne hc] at h
        obtain ⟨depth, hfind, hget, hidx⟩ := ih h
        refine ⟨depth + 1, ?_, ?_, ?_⟩
        · unfold StackMap.findDepth at hfind ⊢
          split at hfind
          · rename_i d hd
            cases hfind
            simp [List.findIdx?_cons, hc, hd]
          · cases hfind
        · rwa [List.getElem?_cons_succ]
        · simp [List.findIdx?_cons, hc, hidx]

/-- The operations that bring a name to the top. -/
def StackMap.bringOps (slots : StackMap) (name : String) (consume : Bool) : List StackOp :=
  match slots.findDepth name with
  | .ok depth => StackLower.bringOps depth consume
  | .error _ => []

/-- Bringing a name with a value to the top: the emitted operations leave its value
on top, under its name. -/
theorem bringToTop_spec (cfg : Config) (slots : Slots) {ctx : LoweringContext}
    {cells : List Cell} {name : String} {v : Bytes} (consume : Bool)
    (hmap : ctx.stackMap = slotsOf cells) (hlook : lookup cells name = some v) :
    ctx.bringToTop name consume =
      .ok (ctx.after (ctx.stackMap.bringOps name consume)
        (some name :: slotsOf (takeCell name consume cells))) ∧
    RunsAs cfg slots (ctx.stackMap.bringOps name consume) (itemsOf cells)
      (.ok (v :: itemsOf (takeCell name consume cells))) := by
  obtain ⟨depth, hfind, hget, hidx⟩ := findDepth_of_lookup hlook
  have hbring : bring depth consume cells = (some name, v) :: takeCell name consume cells := by
    unfold bring takeCell
    rw [hget, List.eraseP_eq_eraseIdx, hidx]
  have hlt : depth < cells.length := by
    by_contra hge
    rw [List.getElem?_eq_none (by omega)] at hget
    cases hget
  have hops : ctx.stackMap.bringOps name consume = bringOps depth consume := by
    rw [hmap, StackMap.bringOps, hfind]
  rw [hops]
  constructor
  · rw [← hmap] at hfind
    rw [bringToTop_eq consume hfind, hmap]
    have hslots := map_bring Prod.fst depth consume cells
    rw [hbring] at hslots
    unfold slotsOf
    rw [← hslots]
    rfl
  · have hitems := map_bring Prod.snd depth consume cells
    rw [hbring] at hitems
    have hrun : RunsAs cfg slots (bringOps depth consume) (itemsOf cells)
        (.ok (bring depth consume (itemsOf cells))) :=
      runsAs_bringOps cfg slots consume (by rwa [itemsOf, List.length_map])
    unfold itemsOf at hrun ⊢
    rw [← hitems] at hrun
    exact hrun

end Runar.StackLower
