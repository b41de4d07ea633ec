/-
  StackLower/BabyBearExt4.lean --- the quartic extension of the Baby Bear field.

  WHAT THIS FILE IS FOR.  An element of the extension is four numbers on the stack, and each
  component of a product or an inverse is a program of its own: a row of field operations on
  named numbers, after which everything but the result is dropped.  This file has the
  programs, runs them on named stacks, and proves that the components are those of the
  product, and of the inverse.
-/
import Runar.StackLower.BabyBear

set_option autoImplicit false

namespace Runar.StackLower.BabyBear

open Script Crypto Tracker NamedStack

/-! ## Rows of operations -/

/-- A call of the emitter. -/
inductive FieldOp where
  | copyToTop (name newName : String)
  | pushInt (name : String) (value : Int)
  /-- bring the second operand up and subtract without a reduction -/
  | rawSub (aName bName resultName : String)
  | fieldMod (aName resultName : String)
  | fieldAdd (aName bName resultName : String)
  | fieldSub (aName bName resultName : String)
  | fieldMul (aName bName resultName : String)
  | fieldSqr (aName resultName : String)
  | fieldMulConst (aName : String) (c : Int) (resultName : String)
  | fieldInv (aName resultName : String)

namespace FieldOp

def emit : FieldOp → Tracker Unit
  | .copyToTop name newName => Tracker.copyToTop name newName
  | .pushInt name value => Tracker.pushInt name value
  | .rawSub aName bName resultName => do
      toTop bName
      rawBlock [aName, bName] (some resultName) [.opcode .OP_SUB]
  | .fieldMod aName resultName => BabyBear.fieldMod aName resultName
  | .fieldAdd aName bName resultName => BabyBear.fieldAdd aName bName resultName
  | .fieldSub aName bName resultName => BabyBear.fieldSub aName bName resultName
  | .fieldMul aName bName resultName => BabyBear.fieldMul aName bName resultName
  | .fieldSqr aName resultName => BabyBear.fieldSqr aName resultName
  | .fieldMulConst aName c resultName => BabyBear.fieldMulConst aName c resultName
  | .fieldInv aName resultName => BabyBear.fieldInv aName resultName

/-- The operation on a named stack; the unreduced difference is one from the prime. -/
def eval : FieldOp → NamedStack → Option NamedStack
  | .copyToTop name newName, st => (numberOf name st).map fun v => (newName, v) :: st
  | .pushInt name value, st => if 0 ≤ value ∧ value ≤ BB_P then some ((name, value) :: st) else none
  | .rawSub _ bName resultName, st =>
      (numberOf bName st).bind fun y =>
        match without bName st with
        | (_, x) :: rest => if x = BB_P then some ((resultName, x - y) :: rest) else none
        | [] => none
  | .fieldMod aName resultName, st => unary (· % BB_P) aName resultName st
  | .fieldAdd aName bName resultName, st =>
      binary (fun x y => (x + y) % BB_P) aName bName resultName st
  | .fieldSub aName bName resultName, st =>
      binary (fun x y => (x - y) % BB_P) aName bName resultName st
  | .fieldMul aName bName resultName, st =>
      binary (fun x y => x * y % BB_P) aName bName resultName st
  | .fieldSqr aName resultName, st =>
      (numberOf aName st).bind fun x =>
        binary (fun x y => x * y % BB_P) aName "_bb_sqr_copy" resultName
          (("_bb_sqr_copy", x) :: st)
  | .fieldMulConst aName c resultName, st =>
      if 0 ≤ c then unary (fun x => x * c % BB_P) aName resultName st else none
  | .fieldInv aName resultName, st =>
      if aName = "_inv_r" then none else unary invPower aName resultName st

end FieldOp

/-- Operations in a row, on a named stack. -/
def evalOps : List FieldOp → NamedStack → Option NamedStack
  | [], st => some st
  | op :: ops, st => (op.eval st).bind (evalOps ops)

/-- Drop what has a name. -/
def dropName (name : String) : Tracker Unit := do
  toTop name
  drop

/-- Dropping names, on a named stack. -/
def evalDrops : List String → NamedStack → Option NamedStack
  | [], st => some st
  | name :: names, st => (numberOf name st).bind fun _ => evalDrops names (without name st)

/-! ## The programs -/

def BB_W : Int := 11

/-- One component of a product. -/
def mulComponent : Fin 4 → List FieldOp
  | 0 =>
      [.copyToTop "a0" "_a0", .copyToTop "b0" "_b0", .fieldMul "_a0" "_b0" "_t0",
        .copyToTop "a1" "_a1", .copyToTop "b3" "_b3", .fieldMul "_a1" "_b3" "_t1",
        .copyToTop "a2" "_a2", .copyToTop "b2" "_b2", .fieldMul "_a2" "_b2" "_t2",
        .fieldAdd "_t1" "_t2" "_t12",
        .copyToTop "a3" "_a3", .copyToTop "b1" "_b1", .fieldMul "_a3" "_b1" "_t3",
        .fieldAdd "_t12" "_t3" "_cross", .fieldMulConst "_cross" BB_W "_wcross",
        .fieldAdd "_t0" "_wcross" "_r"]
  | 1 =>
      [.copyToTop "a0" "_a0", .copyToTop "b1" "_b1", .fieldMul "_a0" "_b1" "_t0",
        .copyToTop "a1" "_a1", .copyToTop "b0" "_b0", .fieldMul "_a1" "_b0" "_t1",
        .fieldAdd "_t0" "_t1" "_direct",
        .copyToTop "a2" "_a2", .copyToTop "b3" "_b3", .fieldMul "_a2" "_b3" "_t2",
        .copyToTop "a3" "_a3", .copyToTop "b2" "_b2", .fieldMul "_a3" "_b2" "_t3",
        .fieldAdd "_t2" "_t3" "_cross", .fieldMulConst "_cross" BB_W "_wcross",
        .fieldAdd "_direct" "_wcross" "_r"]
  | 2 =>
      [.copyToTop "a0" "_a0", .copyToTop "b2" "_b2", .fieldMul "_a0" "_b2" "_t0",
        .copyToTop "a1" "_a1", .copyToTop "b1" "_b1", .fieldMul "_a1" "_b1" "_t1",
        .fieldAdd "_t0" "_t1" "_sum01",
        .copyToTop "a2" "_a2", .copyToTop "b0" "_b0", .fieldMul "_a2" "_b0" "_t2",
        .fieldAdd "_sum01" "_t2" "_direct",
        .copyToTop "a3" "_a3", .copyToTop "b3" "_b3", .fieldMul "_a3" "_b3" "_t3",
        .fieldMulConst "_t3" BB_W "_wcross", .fieldAdd "_direct" "_wcross" "_r"]
  | 3 =>
      [.copyToTop "a0" "_a0", .copyToTop "b3" "_b3", .fieldMul "_a0" "_b3" "_t0",
        .copyToTop "a1" "_a1", .copyToTop "b2" "_b2", .fieldMul "_a1" "_b2" "_t1",
        .fieldAdd "_t0" "_t1" "_sum01",
        .copyToTop "a2" "_a2", .copyToTop "b1" "_b1", .fieldMul "_a2" "_b1" "_t2",
        .fieldAdd "_sum01" "_t2" "_sum012",
        .copyToTop "a3" "_a3", .copyToTop "b0" "_b0", .fieldMul "_a3" "_b0" "_t3",
        .fieldAdd "_sum012" "_t3" "_r"]

def emitExt4MulComponent (component : Fin 4) : Tracker Unit := do
  (mulComponent component).forM FieldOp.emit
  ["a0", "a1", "a2", "a3", "b0", "b1", "b2", "b3"].forM dropName
  toTop "_r"
  rename "result"

/-- The norm, its two parts, and the parts of its inverse. -/
def invSteps : List FieldOp :=
  [.copyToTop "a0" "_a0c", .fieldSqr "_a0c" "_a0sq", .copyToTop "a2" "_a2c",
    .fieldSqr "_a2c" "_a2sq", .fieldMulConst "_a2sq" BB_W "_wa2sq",
    .fieldAdd "_a0sq" "_wa2sq" "_n0a", .copyToTop "a1" "_a1c", .copyToTop "a3" "_a3c",
    .fieldMul "_a1c" "_a3c" "_a1a3", .fieldMulConst "_a1a3" (BB_W * 2 % BB_P) "_2wa1a3",
    .fieldSub "_n0a" "_2wa1a3" "_norm0",
    .copyToTop "a0" "_a0d", .copyToTop "a2" "_a2d", .fieldMul "_a0d" "_a2d" "_a0a2",
    .fieldMulConst "_a0a2" 2 "_2a0a2", .copyToTop "a1" "_a1d", .fieldSqr "_a1d" "_a1sq",
    .fieldSub "_2a0a2" "_a1sq" "_n1a", .copyToTop "a3" "_a3d", .fieldSqr "_a3d" "_a3sq",
    .fieldMulConst "_a3sq" BB_W "_wa3sq", .fieldSub "_n1a" "_wa3sq" "_norm1",
    .copyToTop "_norm0" "_n0copy", .fieldSqr "_n0copy" "_n0sq", .copyToTop "_norm1" "_n1copy",
    .fieldSqr "_n1copy" "_n1sq", .fieldMulConst "_n1sq" BB_W "_wn1sq",
    .fieldSub "_n0sq" "_wn1sq" "_det", .fieldInv "_det" "_scalar",
    .copyToTop "_scalar" "_sc0", .fieldMul "_norm0" "_sc0" "_inv_n0",
    .copyToTop "_norm1" "_neg_n1_pre", .pushInt "_pval" BB_P,
    .rawSub "_pval" "_neg_n1_pre" "_neg_n1_sub", .fieldMod "_neg_n1_sub" "_neg_norm1",
    .fieldMul "_neg_norm1" "_scalar" "_inv_n1"]

/-- One component of the conjugate over the norm. -/
def invComponent : Fin 4 → List FieldOp
  | 0 =>
      [.copyToTop "a0" "_ea0", .copyToTop "_inv_n0" "_ein0", .fieldMul "_ea0" "_ein0" "_ep0",
        .copyToTop "a2" "_ea2", .copyToTop "_inv_n1" "_ein1", .fieldMul "_ea2" "_ein1" "_ep1",
        .fieldMulConst "_ep1" BB_W "_wep1", .fieldAdd "_ep0" "_wep1" "_r"]
  | 1 =>
      [.copyToTop "a1" "_oa1", .copyToTop "_inv_n0" "_oin0", .fieldMul "_oa1" "_oin0" "_op0",
        .copyToTop "a3" "_oa3", .copyToTop "_inv_n1" "_oin1", .fieldMul "_oa3" "_oin1" "_op1",
        .fieldMulConst "_op1" BB_W "_wop1", .fieldAdd "_op0" "_wop1" "_odd0",
        .pushInt "_zero1" 0, .fieldSub "_zero1" "_odd0" "_r"]
  | 2 =>
      [.copyToTop "a0" "_ea0", .copyToTop "_inv_n1" "_ein1", .fieldMul "_ea0" "_ein1" "_ep0",
        .copyToTop "a2" "_ea2", .copyToTop "_inv_n0" "_ein0", .fieldMul "_ea2" "_ein0" "_ep1",
        .fieldAdd "_ep0" "_ep1" "_r"]
  | 3 =>
      [.copyToTop "a1" "_oa1", .copyToTop "_inv_n1" "_oin1", .fieldMul "_oa1" "_oin1" "_op0",
        .copyToTop "a3" "_oa3", .copyToTop "_inv_n0" "_oin0", .fieldMul "_oa3" "_oin0" "_op1",
        .fieldAdd "_op0" "_op1" "_odd1", .pushInt "_zero3" 0,
        .fieldSub "_zero3" "_odd1" "_r"]

/-- The names that are dropped in the end. -/
def remaining (nm : List (Option String)) : List String :=
  nm.filterMap fun n => if n = some "_r" then none else n

def emitExt4InvComponent (component : Fin 4) : Tracker Unit := do
  (invSteps ++ invComponent component).forM FieldOp.emit
  let t ← get
  (remaining t.nm).forM dropName
  toTop "_r"
  rename "result"

/-- The operations of a component of a product. -/
def emitBBExt4Mul (component : Fin 4) : Except String (List StackOp) :=
  ((emitExt4MulComponent component).run
    { nm := ["a0", "a1", "a2", "a3", "b0", "b1", "b2", "b3"].map some, ops := [] }).map (·.2.ops)

/-- The operations of a component of an inverse. -/
def emitBBExt4Inv (component : Fin 4) : Except String (List StackOp) :=
  ((emitExt4InvComponent component).run
    { nm := ["a0", "a1", "a2", "a3"].map some, ops := [] }).map (·.2.ops)

/-! ## Rows of operations on named stacks -/

section Rows

variable {cfg : Config} {slots : Slots} {st st' : NamedStack}

theorem FieldOp.emits (op : FieldOp) (hst : Bounded st) (h : op.eval st = some st') :
    Emits cfg slots BB_P op.emit st st' ∧ Bounded st' := by
  cases op with
  | copyToTop name newName =>
    obtain ⟨v, hv, rfl⟩ := Option.map_eq_some_iff.mp h
    exact ⟨.copyToTop newName hv,
      List.forall_mem_cons.mpr ⟨hst (name, v) (mem_of_numberOf hv), hst⟩⟩
  | pushInt name value =>
    rw [FieldOp.eval] at h
    split at h
    · next hvalue =>
      obtain rfl := Option.some.inj h
      exact ⟨.pushInt name value st, List.forall_mem_cons.mpr ⟨hvalue, hst⟩⟩
    · exact nomatch h
  | rawSub aName bName resultName =>
    obtain ⟨y, hy, h⟩ := Option.bind_eq_some_iff.mp h
    have hbounded := hst.cons_without hy
    cases hrest : without bName st with
    | nil =>
      rw [hrest] at h
      exact nomatch h
    | cons e rest =>
      obtain ⟨n, x⟩ := e
      rw [hrest] at h hbounded
      by_cases hx : x = BB_P
      · obtain rfl : (resultName, x - y) :: rest = st' :=
          Option.some.inj ((if_pos hx).symm.trans h)
        have hy' := hbounded (bName, y) List.mem_cons_self
        have hsub : Reduces cfg slots BB_P [.opcode .OP_SUB] [encodeNum y, encodeNum x]
            [encodeNum (x - y)] :=
          reduces_numOp2 cfg slots x y rfl rfl (fun h => nomatch h)
        constructor
        · refine .bind (.toTop hy) ?_
          rw [hrest]
          exact .rawBlock [(bName, y), (n, x)] rfl hsub rest
        · refine List.forall_mem_cons.mpr ⟨?_, fun e he => hbounded e
            (List.mem_cons_of_mem _ (List.mem_cons_of_mem _ he))⟩
          exact ⟨by omega, by omega⟩
      · exact nomatch (if_neg hx).symm.trans h
  | fieldMod aName resultName =>
    obtain ⟨x, hx, rfl⟩ := unary_eq_some h
    have hbounded := List.forall_mem_cons.mp (hst.cons_without hx)
    have hrange : -BB_P ≤ x := le_trans (by decide) hbounded.1.1
    exact ⟨emits_fieldMod hx hrange, List.forall_mem_cons.mpr ⟨bounded_emod x, hbounded.2⟩⟩
  | fieldAdd aName bName resultName => exact emits_fieldAdd hst h
  | fieldSub aName bName resultName => exact emits_fieldSub hst h
  | fieldMul aName bName resultName => exact emits_fieldMul hst h
  | fieldSqr aName resultName =>
    obtain ⟨x, hx, h⟩ := Option.bind_eq_some_iff.mp h
    exact emits_fieldSqr hst hx h
  | fieldMulConst aName c resultName =>
    rw [FieldOp.eval] at h
    split at h
    · next hc => exact emits_fieldMulConst hc hst h
    · exact nomatch h
  | fieldInv aName resultName =>
    rw [FieldOp.eval] at h
    split at h
    · exact nomatch h
    · next hne =>
      obtain ⟨x, hx, rfl⟩ := unary_eq_some h
      exact emits_fieldInv hne hst hx

theorem emits_ops (ops : List FieldOp) (hst : Bounded st) (h : evalOps ops st = some st') :
    Emits cfg slots BB_P (ops.forM FieldOp.emit) st st' := by
  induction ops generalizing st with
  | nil =>
    obtain rfl := Option.some.inj h
    exact .pure
  | cons op ops ih =>
    obtain ⟨middle, hop, hops⟩ := Option.bind_eq_some_iff.mp h
    have hop' : Emits cfg slots BB_P op.emit st middle ∧ Bounded middle := op.emits hst hop
    exact .bind hop'.1 (ih hop'.2 hops)

theorem emits_drops (names : List String) (h : evalDrops names st = some st') :
    Emits cfg slots BB_P (names.forM dropName) st st' := by
  induction names generalizing st with
  | nil =>
    obtain rfl := Option.some.inj h
    exact .pure
  | cons name names ih =>
    obtain ⟨v, hv, hrest⟩ := Option.bind_eq_some_iff.mp h
    exact .bind (.bind (.toTop hv) (.drop _ _)) (ih hrest)

end Rows

/-- The operands of a product, the last component on top. -/
def mulStack (a b : Fin 4 → Int) : NamedStack :=
  [("b3", b 3), ("b2", b 2), ("b1", b 1), ("b0", b 0), ("a3", a 3), ("a2", a 2), ("a1", a 1),
    ("a0", a 0)]

/-- The operand of an inverse. -/
def invStack (a : Fin 4 → Int) : NamedStack := [("a3", a 3), ("a2", a 2), ("a1", a 1), ("a0", a 0)]

def mulValue (a b : Fin 4 → Int) : Fin 4 → Int
  | 0 => (a 0 * b 0 % BB_P + (((a 1 * b 3 % BB_P + a 2 * b 2 % BB_P) % BB_P + a 3 * b 1 % BB_P) %
      BB_P) * BB_W % BB_P) % BB_P
  | 1 => ((a 0 * b 1 % BB_P + a 1 * b 0 % BB_P) % BB_P +
      ((a 2 * b 3 % BB_P + a 3 * b 2 % BB_P) % BB_P) * BB_W % BB_P) % BB_P
  | 2 => (((a 0 * b 2 % BB_P + a 1 * b 1 % BB_P) % BB_P + a 2 * b 0 % BB_P) % BB_P +
      (a 3 * b 3 % BB_P) * BB_W % BB_P) % BB_P
  | 3 => (((a 0 * b 3 % BB_P + a 1 * b 2 % BB_P) % BB_P + a 2 * b 1 % BB_P) % BB_P +
      a 3 * b 0 % BB_P) % BB_P

theorem evalOps_mulComponent (a b : Fin 4 → Int) (i : Fin 4) :
    evalOps (mulComponent i) (mulStack a b) = some (("_r", mulValue a b i) :: mulStack a b) := by
  match i with
  | 0 => rfl
  | 1 => rfl
  | 2 => rfl
  | 3 => rfl

section Inverse

variable (a : Fin 4 → Int)

def norm0 : Int :=
  ((a 0 * a 0 % BB_P + (a 2 * a 2 % BB_P) * BB_W % BB_P) % BB_P -
    (a 1 * a 3 % BB_P) * (BB_W * 2 % BB_P) % BB_P) % BB_P

def norm1 : Int :=
  (((a 0 * a 2 % BB_P) * 2 % BB_P - a 1 * a 1 % BB_P) % BB_P -
    (a 3 * a 3 % BB_P) * BB_W % BB_P) % BB_P

def scalar : Int :=
  invPower ((norm0 a * norm0 a % BB_P - (norm1 a * norm1 a % BB_P) * BB_W % BB_P) % BB_P)

def invNorm0 : Int := norm0 a * scalar a % BB_P

def invNorm1 : Int := (BB_P - norm1 a) % BB_P * scalar a % BB_P

def invValue : Fin 4 → Int
  | 0 => (a 0 * invNorm0 a % BB_P + (a 2 * invNorm1 a % BB_P) * BB_W % BB_P) % BB_P
  | 1 => (0 - (a 1 * invNorm0 a % BB_P + (a 3 * invNorm1 a % BB_P) * BB_W % BB_P) % BB_P) % BB_P
  | 2 => (a 0 * invNorm1 a % BB_P + a 2 * invNorm0 a % BB_P) % BB_P
  | 3 => (0 - (a 1 * invNorm1 a % BB_P + a 3 * invNorm0 a % BB_P) % BB_P) % BB_P

/-- What is on the stack after the norm. -/
def normStack : NamedStack :=
  [("_inv_n1", invNorm1 a), ("_inv_n0", invNorm0 a), ("_norm1", norm1 a)] ++ invStack a

theorem evalOps_invSteps : evalOps invSteps (invStack a) = some (normStack a) := rfl

theorem evalOps_invComponent (i : Fin 4) :
    evalOps (invComponent i) (normStack a) = some (("_r", invValue a i) :: normStack a) := by
  match i with
  | 0 => rfl
  | 1 => rfl
  | 2 => rfl
  | 3 => rfl

end Inverse

/-! ## What the code leaves -/

/-- Numbers of the field. -/
def Canonical (a : Fin 4 → Int) : Prop := ∀ i, 0 ≤ a i ∧ a i < BB_P

instance (a : Fin 4 → Int) : Decidable (Canonical a) :=
  inferInstanceAs (Decidable (∀ i, 0 ≤ a i ∧ a i < BB_P))

theorem Canonical.le {a : Fin 4 → Int} (ha : Canonical a) (i : Fin 4) : 0 ≤ a i ∧ a i ≤ BB_P :=
  ⟨(ha i).1, (ha i).2.le⟩

section Code

variable (cfg : Config) (slots : Slots)

/-- What an emitter that starts from a named stack emits. -/
theorem reduces_of_emits {act : Tracker Unit} {st st' : NamedStack}
    (h : Emits cfg slots BB_P act st st') :
    ∃ ops, (act.run ⟨st.names, []⟩).map (·.2.ops) = .ok ops ∧
      Reduces cfg slots BB_P ops st.items st'.items := by
  obtain ⟨ops, hrun, hops⟩ := h ⟨st.names, []⟩ rfl
  exact ⟨ops, congrArg (·.map (·.2.ops)) hrun, hops⟩

/-- The end of every component: the result gets its name. -/
theorem emits_result (v : Int) :
    Emits cfg slots BB_P (do
      toTop "_r"
      rename "result") [("_r", v)] [("result", v)] :=
  .bind (.toTop rfl) (.rename "result" ("_r", v) [])

theorem reduces_emitBBExt4Mul {a b : Fin 4 → Int} (ha : Canonical a) (hb : Canonical b)
    (i : Fin 4) :
    ∃ ops, emitBBExt4Mul i = .ok ops ∧
      Reduces cfg slots BB_P ops (mulStack a b).items [encodeNum (mulValue a b i)] := by
  have hbounded : Bounded (mulStack a b) := by
    intro e he
    simp only [mulStack, List.mem_cons, List.not_mem_nil, or_false] at he
    rcases he with rfl | rfl | rfl | rfl | rfl | rfl | rfl | rfl
    exacts [hb.le 3, hb.le 2, hb.le 1, hb.le 0, ha.le 3, ha.le 2, ha.le 1, ha.le 0]
  have hdrops : evalDrops ["a0", "a1", "a2", "a3", "b0", "b1", "b2", "b3"]
      (("_r", mulValue a b i) :: mulStack a b) = some [("_r", mulValue a b i)] := rfl
  have hemits : Emits cfg slots BB_P (emitExt4MulComponent i) (mulStack a b)
      [("result", mulValue a b i)] := by
    refine .bind (emits_ops _ hbounded (evalOps_mulComponent a b i)) ?_
    exact .bind (emits_drops _ hdrops) (emits_result cfg slots _)
  -- stated first: against the goal it would be unified before the lists are known
  have hreduces := reduces_of_emits cfg slots hemits
  exact hreduces

theorem evalOps_append (ops ops' : List FieldOp) (st : NamedStack) :
    evalOps (ops ++ ops') st = (evalOps ops st).bind (evalOps ops') := by
  induction ops generalizing st with
  | nil => rfl
  | cons op ops ih =>
    rw [List.cons_append, evalOps, evalOps, Option.bind_assoc]
    exact congrArg _ (funext ih)

theorem reduces_emitBBExt4Inv {a : Fin 4 → Int} (ha : Canonical a) (i : Fin 4) :
    ∃ ops, emitBBExt4Inv i = .ok ops ∧
      Reduces cfg slots BB_P ops (invStack a).items [encodeNum (invValue a i)] := by
  have hbounded : Bounded (invStack a) := by
    intro e he
    simp only [invStack, List.mem_cons, List.not_mem_nil, or_false] at he
    rcases he with rfl | rfl | rfl | rfl
    exacts [ha.le 3, ha.le 2, ha.le 1, ha.le 0]
  have heval : evalOps (invSteps ++ invComponent i) (invStack a) =
      some (("_r", invValue a i) :: normStack a) := by
    rw [evalOps_append, evalOps_invSteps, Option.bind_some, evalOps_invComponent]
  have hnames : remaining (names (("_r", invValue a i) :: normStack a)) =
      ["a0", "a1", "a2", "a3", "_norm1", "_inv_n0", "_inv_n1"] := rfl
  have hdrops : evalDrops ["a0", "a1", "a2", "a3", "_norm1", "_inv_n0", "_inv_n1"]
      (("_r", invValue a i) :: normStack a) = some [("_r", invValue a i)] := rfl
  have hemits : Emits cfg slots BB_P (emitExt4InvComponent i) (invStack a)
      [("result", invValue a i)] := by
    refine .bind (emits_ops _ hbounded heval) (.get fun t ht => ?_)
    rw [ht, hnames]
    exact .bind (emits_drops _ hdrops) (emits_result cfg slots _)
  -- stated first: against the goal it would be unified before the lists are known
  have hreduces := reduces_of_emits cfg slots hemits
  exact hreduces

end Code

/-! ## The extension -/

section Extension

open Polynomial

/-- The field with a fourth root of 11. -/
noncomputable abbrev Ext4 : Type := AdjoinRoot (X ^ 4 - C 11 : (ZMod babyBear)[X])

/-- The fourth root. -/
noncomputable def root : Ext4 := AdjoinRoot.root _

/-- The element with the components. -/
noncomputable def element (a : Fin 4 → Int) : Ext4 :=
  a 0 + a 1 * root + a 2 * root ^ 2 + a 3 * root ^ 3

theorem root_pow : root ^ 4 = (11 : Ext4) := by
  have h := AdjoinRoot.eval₂_root (X ^ 4 - C 11 : (ZMod babyBear)[X])
  simp only [eval₂_sub, eval₂_pow, eval₂_X, map_ofNat, eval₂_ofNat] at h
  exact sub_eq_zero.mp h

theorem prime_cast : ((BB_P : Int) : Ext4) = 0 := by
  have h := congrArg (algebraMap (ZMod babyBear) Ext4) (ZMod.natCast_self babyBear)
  rw [map_natCast, map_zero] at h
  exact h

theorem emod_cast_ext (x : Int) : ((x % BB_P : Int) : Ext4) = x := by
  conv_rhs => rw [← Int.emod_add_mul_ediv x BB_P]
  rw [Int.cast_add, Int.cast_mul, prime_cast, zero_mul, add_zero]

/-- The code's components are those of the product. -/
theorem element_mulValue (a b : Fin 4 → Int) :
    element a * element b = element (mulValue a b) := by
  unfold element
  rw [quartic_mul root_pow]
  simp only [mulValue, BB_W, emod_cast_ext, Int.cast_add, Int.cast_mul, Int.cast_ofNat]
  ring

/-- The number that is inverted, in the prime field. -/
theorem det_ne_zero {a : Fin 4 → Int} (ha : Canonical a) (hne : ∃ i, a i ≠ 0) :
    (((norm0 a * norm0 a % BB_P - (norm1 a * norm1 a % BB_P) * BB_W % BB_P) % BB_P : Int) :
      ZMod babyBear) ≠ 0 := by
  have hzero : ∀ i, (a i : ZMod babyBear) = 0 → a i = 0 := fun i hi =>
    Int.eq_zero_of_dvd_of_nonneg_of_lt (ha i).1 (ha i).2
      ((ZMod.intCast_zmod_eq_zero_iff_dvd (a i) babyBear).mp hi)
  have hcomponents : ¬ ((a 0 : ZMod babyBear) = 0 ∧ (a 1 : ZMod babyBear) = 0 ∧
      (a 2 : ZMod babyBear) = 0 ∧ (a 3 : ZMod babyBear) = 0) := by
    rintro ⟨h₀, h₁, h₂, h₃⟩
    obtain ⟨i, hi⟩ := hne
    match i with
    | 0 => exact hi (hzero 0 h₀)
    | 1 => exact hi (hzero 1 h₁)
    | 2 => exact hi (hzero 2 h₂)
    | 3 => exact hi (hzero 3 h₃)
  have hnorm := quarticNorm_ne_zero not_isSquare_eleven not_isSquare_neg_eleven hcomponents
  intro hdet
  refine hnorm (Eq.trans ?_ hdet)
  simp only [norm0, norm1, BB_W, emod_cast, Int.cast_add, Int.cast_sub, Int.cast_mul,
    Int.cast_ofNat]
  ring

/-- The code's components are those of the inverse. -/
theorem element_invValue {a : Fin 4 → Int} (ha : Canonical a) (hne : ∃ i, a i ≠ 0) :
    element a * element (invValue a) = 1 := by
  have hscalar := congrArg (algebraMap (ZMod babyBear) Ext4) (invPower_mul (det_ne_zero ha hne))
  rw [map_mul, map_one, map_intCast, map_intCast, emod_cast_ext] at hscalar
  have hn₀ : ((norm0 a : Int) : Ext4) = (a 0 : Ext4) ^ 2 + 11 * (a 2 : Ext4) ^ 2 -
      2 * 11 * ((a 1 : Ext4) * (a 3 : Ext4)) := by
    simp only [norm0, BB_W, emod_cast_ext, Int.cast_add, Int.cast_sub, Int.cast_mul,
      Int.cast_ofNat]
    ring
  have hn₁ : ((norm1 a : Int) : Ext4) = 2 * ((a 0 : Ext4) * (a 2 : Ext4)) - (a 1 : Ext4) ^ 2 -
      11 * (a 3 : Ext4) ^ 2 := by
    simp only [norm1, BB_W, emod_cast_ext, Int.cast_sub, Int.cast_mul, Int.cast_ofNat]
    ring
  have hs : (((norm0 a : Int) : Ext4) ^ 2 - 11 * ((norm1 a : Int) : Ext4) ^ 2) *
      ((scalar a : Int) : Ext4) = 1 := by
    rw [← hscalar, scalar]
    simp only [BB_W, emod_cast_ext, Int.cast_sub, Int.cast_mul, Int.cast_ofNat]
    ring
  have hinv := quartic_mul_inv root_pow hn₀ hn₁ hs
  rw [← hinv]
  unfold element
  simp only [invValue, invNorm0, invNorm1, BB_W, emod_cast_ext, prime_cast, Int.cast_add,
    Int.cast_sub, Int.cast_mul, Int.cast_ofNat, Int.cast_zero]
  ring

theorem emod_mem (x : Int) : 0 ≤ x % BB_P ∧ x % BB_P < BB_P :=
  ⟨Int.emod_nonneg x (by decide), Int.emod_lt_of_pos x (by decide)⟩

theorem canonical_mulValue (a b : Fin 4 → Int) : Canonical (mulValue a b)
  | 0 => emod_mem _
  | 1 => emod_mem _
  | 2 => emod_mem _
  | 3 => emod_mem _

theorem canonical_invValue (a : Fin 4 → Int) : Canonical (invValue a)
  | 0 => emod_mem _
  | 1 => emod_mem _
  | 2 => emod_mem _
  | 3 => emod_mem _

/-- **Extension arithmetic**: the components that the code leaves are those of the product, and
for an operand other than zero those of its inverse.  Every reduction on the way has an operand
that is not negative, or a difference no more than the prime below zero to which the prime is
added. -/
theorem emitBBExt4_correct (cfg : Config) (slots : Slots) :
    (∀ a b : Fin 4 → Int, Canonical a → Canonical b →
      ∃ c : Fin 4 → Int, Canonical c ∧ element a * element b = element c ∧
        ∀ i, ∃ ops, emitBBExt4Mul i = .ok ops ∧
          RunsAs cfg slots ops (mulStack a b).items (.ok [encodeNum (c i)]) ∧
          ReductionsInRange cfg slots BB_P ops (mulStack a b).items) ∧
      ∀ a : Fin 4 → Int, Canonical a → (∃ i, a i ≠ 0) →
        ∃ c : Fin 4 → Int, Canonical c ∧ element a * element c = 1 ∧
          ∀ i, ∃ ops, emitBBExt4Inv i = .ok ops ∧
            RunsAs cfg slots ops (invStack a).items (.ok [encodeNum (c i)]) ∧
            ReductionsInRange cfg slots BB_P ops (invStack a).items := by
  constructor
  · intro a b ha hb
    refine ⟨mulValue a b, canonical_mulValue a b, element_mulValue a b, fun i => ?_⟩
    obtain ⟨ops, hops, hreduces⟩ := reduces_emitBBExt4Mul cfg slots ha hb i
    exact ⟨ops, hops, hreduces.runs, hreduces.inRange⟩
  · intro a ha hne
    refine ⟨invValue a, canonical_invValue a, element_invValue ha hne, fun i => ?_⟩
    obtain ⟨ops, hops, hreduces⟩ := reduces_emitBBExt4Inv cfg slots ha i
    exact ⟨ops, hops, hreduces.runs, hreduces.inRange⟩

/-- The fourth root has an inverse. -/
theorem emitBBExt4_correct_root :
    ∃ c : Fin 4 → Int, Canonical c ∧ element ![0, 1, 0, 0] * element c = 1 ∧
      ∀ i, ∃ ops, emitBBExt4Inv i = .ok ops ∧
        RunsAs (.hashing id) ⟨fun _ _ => [], []⟩ ops (invStack ![0, 1, 0, 0]).items
          (.ok [encodeNum (c i)]) ∧
        ReductionsInRange (.hashing id) ⟨fun _ _ => [], []⟩ BB_P ops
          (invStack ![0, 1, 0, 0]).items :=
  (emitBBExt4_correct (.hashing id) ⟨fun _ _ => [], []⟩).2 ![0, 1, 0, 0] (by decide)
    ⟨1, by decide⟩

end Extension

end Runar.StackLower.BabyBear
