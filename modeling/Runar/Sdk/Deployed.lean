/-
  Sdk/Deployed.lean --- the properties of a deployed contract.

  WHAT THIS FILE IS FOR.  The constructor of a contract is not compiled.  A readonly
  property is an argument spliced into the script, chosen by the position of the
  property; a mutable one starts from an argument chosen by name or by position.  Here
  the constructor is run, and what it assigns is compared with what is deployed.
-/
import Runar.Artifact.EmitCorrect
import Runar.Artifact.Expand
import Runar.Sdk.PushText
import Runar.StackLower.StateScript
import Runar.Typecheck.Run

set_option autoImplicit false

namespace Runar.Sdk

open Script Artifact StackLower Interpreter
open Ast (ContractNode Expression Statement)
open Typecheck (Language World EvalM runBody runMethod evalExpr Runtime Fault)

/-! ## Validation of constructors -/

def isSuperCall : Statement → Bool
  | .expressionStatement (.callExpr (.identifier name) _ _) => name == "super"
  | _ => false

/-- The properties a constructor assigns at its top level. -/
def assignedProps (body : List Statement) : List String :=
  body.filterMap fun
    | .assignment (.propertyAccess property) _ => some property
    | _ => none

/-- What validation says of a constructor, apart from its statements. -/
def validateConstructor (contract : ContractNode) : List String :=
  let ctor := contract.constructor
  match ctor.body with
  | [] => ["Constructor must call super() as its first statement"]
  | first :: _ =>
      (if isSuperCall first then [] else ["Constructor must call super() as its first statement"]) ++
      (contract.properties.filterMap fun prop =>
        if prop.name ∈ assignedProps ctor.body ∨ prop.initializer.isSome then none
        else some ("Property '" ++ prop.name ++ "' must be assigned in the constructor")) ++
      ctor.params.flatMap fun param =>
        match param.type with
        | .custom "unknown" =>
            ["Constructor parameter '" ++ param.name ++ "' must have a type annotation"]
        | .fixedArray _ _ =>
            ["Constructor parameter '" ++ param.name ++ "' cannot be a FixedArray. Use " ++
              "initialized properties or pass each element as a separate parameter."]
        | _ => []

/-! ## What the constructor assigns -/

section Constructor

variable (contract : ContractNode) (lang : Language) (fuel : Nat)

/-- What the constructor is run with. -/
def constructorRuntime : Runtime where
  tc := .ofContract contract
  builtin := lang.builtin
  globals := lang.globals
  rawScript := lang.rawScript
  txPreimage := lang.txPreimage
  stateScript := lang.stateScript
  callMethod := runMethod contract lang fuel fuel
  fuel := fuel

/-- Give a property its initializer, or nothing yet. -/
def initializeProp (prop : Ast.PropertyNode) : EvalM Unit := do
  let v ← match prop.initializer with
    | some init => evalExpr (constructorRuntime contract lang fuel) true .empty init
    | none => pure .void
  Logic.LogM.update (·.assignProp prop.name v)

/-- Run the initializers and the constructor. -/
def runConstructor (args : List Value) : EvalM Unit := do
  contract.properties.forM (initializeProp contract lang fuel)
  let _ ← runBody (constructorRuntime contract lang fuel) contract.constructor args

/-- The properties after the constructor, unless it stops. -/
def constructed (args : List Value) : Option (String → Option Value) :=
  match runConstructor contract lang fuel args ⟨[], []⟩ with
  | (.ok _, w, _) => some fun name => w.props.lookup name
  | (.error _, _, _) => none

end Constructor

/-- The value of a scalar: that of the property it was expanded from, at its indices. -/
def leafValue (final : String → Option Value) (prop : PropertyNode) : Option Value :=
  match prop.syntheticArrayChain with
  | [] => final prop.name
  | outer :: _ =>
      prop.syntheticArrayChain.foldl (fun v entry =>
        match v with
        | some (.array elements) => elements[entry.index]?
        | _ => none) (final outer.base)

/-- The bytes of a value on the stack. -/
def onStack : Value → Option Bytes
  | .bigint n bytes => some (stackBytes n bytes)
  | .boolean b => some (boolBytes b)
  | .bytes bs => some bs
  | .array _ | .context | .void => none

/-! ## Arguments -/

/-- An argument stands for a scalar value.  A string holds fewer digits than two for
each number below `2 ^ 32`. -/
def Represents : JsValue → Value → Prop
  | .bigint n, v | .number n, v => v = .num n ∧ (encodeNum n).length < 2 ^ 32
  | .boolean b, v => v = .boolean b
  | .string text, v => ∃ bytes, v = .bytes bytes ∧ IsHexOf text bytes ∧ bytes.length < 2 ^ 32
  | _, _ => False

/-- What a node reads where an argument was spliced in. -/
def deployedSlot (args : List JsValue) (i : Nat) : Option Bytes :=
  match readPush (encodeArg (argAt args i)) with
  | some (bytes, []) => some bytes
  | _ => none

theorem readPush_encodeArg {arg : JsValue} {v : Value} (h : Represents arg v) :
    ∃ bytes, onStack v = some bytes ∧ ∀ rest, readPush (encodeArg arg ++ rest) = some (bytes, rest) := by
  cases arg with
  | bigint n =>
      obtain ⟨rfl, hlen⟩ := h
      exact ⟨encodeNum n, rfl, readPush_encodeScriptNumber hlen⟩
  | number n =>
      obtain ⟨rfl, hlen⟩ := h
      exact ⟨encodeNum n, rfl, readPush_encodeScriptNumber hlen⟩
  | boolean b =>
      cases h
      refine ⟨boolBytes b, rfl, fun rest => ?_⟩
      cases b with
      | true => exact readPush_hexNumber (show 0x51 < 256 by decide) rest
      | false => exact readPush_hexNumber (show 0 < 256 by decide) rest
  | string text =>
      obtain ⟨bytes, rfl, hhex, hlen⟩ := h
      exact ⟨bytes, rfl, readPush_encodePushData hhex hlen⟩
  | emptySig => cases h
  | null => cases h
  | undefined => cases h
  | array elements => cases h

/-- A slot reads as the value of its argument; a slot without one cannot be read. -/
theorem deployedSlot_eq {args : List JsValue} {values : List Value}
    (h : List.Forall₂ Represents args values) (i : Nat) :
    deployedSlot args i = values[i]?.bind onStack := by
  unfold deployedSlot argAt
  by_cases hi : i < args.length
  · have hv : i < values.length := by rwa [← h.length_eq]
    obtain ⟨bytes, hstack, hread⟩ := readPush_encodeArg (h.get hi hv)
    have hself := hread []
    rw [List.append_nil] at hself
    rw [List.getElem?_eq_getElem hi, List.getElem?_eq_getElem hv, Option.getD_some]
    rw [List.get_eq_getElem] at hself hstack
    rw [hself, Option.bind_some, hstack]
  · have hv : ¬ i < values.length := by rwa [← h.length_eq]
    have hnone : readPush (encodeArg .undefined) = none := by
      have htext : jsText .undefined = ['u', 'n', 'd', 'e', 'f', 'i', 'n', 'e', 'd'] := by
        simp [jsText]
      rw [encodeArg, htext]
      · decide +kernel
      all_goals
        intros
        contradiction
    rw [List.getElem?_eq_none (by omega), List.getElem?_eq_none (by omega), Option.getD_none, hnone]
    rfl

/-! ## Loading a property -/

/-- Lower a load of a property: its value on the stack, else its initial value, else a
placeholder for a constructor argument. -/
def lowerLoadProp (bindingName propName : String) (ctx : LoweringContext) :
    Except LowerError LoweringContext :=
  if ctx.stackMap.has propName then do
    let ctx ← ctx.bringToTop propName false
    let ctx ← ctx.popSlot
    .ok (ctx.pushSlot (some bindingName))
  else
    match (ctx.properties.find? (·.name = propName)).bind (·.initialValue) with
    | some value => .ok ((ctx.pushValue value).pushSlot (some bindingName))
    | none =>
        -- initialized properties take no argument
        match (ctx.properties.filter (·.initialValue.isNone)).findIdx? (·.name = propName) with
        | some paramIndex =>
            .ok ((ctx.emitOp (.placeholder paramIndex propName)).pushSlot (some bindingName))
        | none => .error (.noDeployTimeSlot propName)

/-- A point of the compiled code where a readonly property is loaded: the map there
describes the items on the stack. -/
structure LoadSite (props : List PropertyNode) where
  ctx : LoweringContext
  cells : List Cell
  bindingName : String
  prop : PropertyNode
  mem : prop ∈ props
  readonly : prop.readonly = true
  properties : ctx.properties = lowerProperties props
  stackMap : ctx.stackMap = slotsOf cells

/-- The machine's slots hold what the arguments read as. -/
def FilledBy (args : List JsValue) (ops : List StackOp) (slots : Slots) : Prop :=
  ∀ i name, StackOp.placeholder i name ∈ ops →
    deployedSlot args i = some (slots.constructorArg i name)

/-- The deployed code of a load leaves an item on the stack. -/
def LoadLeaves (cfg : Config) (args : List JsValue) {props : List PropertyNode}
    (site : LoadSite props) (item : Bytes) : Prop :=
  ∃ ops slots,
    lowerLoadProp site.bindingName site.prop.name site.ctx =
      .ok (site.ctx.after ops (some site.bindingName :: slotsOf site.cells)) ∧
    FilledBy args ops slots ∧
    RunsAs cfg slots ops (itemsOf site.cells) (.ok (item :: itemsOf site.cells))

/-- The bytes a load finds where the stack has no item of the property's name: the
initial value, or the argument at the property's position among those without one. -/
def slotBytes (props : List PropertyNode) (values : List Value) (name : String) : Option Bytes :=
  match ((lowerProperties props).find? (·.name = name)).bind (·.initialValue) with
  | some value => some (constPush value).toBytes
  | none =>
      (((lowerProperties props).filter (·.initialValue.isNone)).findIdx? (·.name = name)).bind
        fun i => values[i]?.bind onStack

/-- What a load leaves: the item of that name on the stack, else the deployed bytes. -/
def loadedItem {props : List PropertyNode} (values : List Value) (site : LoadSite props) :
    Option Bytes :=
  (lookup site.cells site.prop.name).or (slotBytes props values site.prop.name)

/-- The placeholder of a load runs as a push of its slot. -/
theorem runsAs_placeholder (cfg : Config) (slots : Slots) (i : Nat) (name : String) :
    RunsAs cfg slots [.placeholder i name] [] (.ok [slots.constructorArg i name]) := by
  refine .of_plain (by simp [emitOps_cons, emitStackOp]) fun below alt => ?_
  simp [emitOps_cons, emitStackOp, plainRun, plainStep, bind, Except.bind, Except.map]

/-- Bringing an item to the top takes no argument. -/
theorem placeholder_not_mem_bringOps (i depth : Nat) (name : String) (consume : Bool) :
    StackOp.placeholder i name ∉ bringOps depth consume := by
  unfold bringOps
  split <;> simp

theorem placeholder_not_mem_mapBringOps (i : Nat) (name name' : String) (slots : StackMap)
    (consume : Bool) : StackOp.placeholder i name ∉ slots.bringOps name' consume := by
  unfold StackMap.bringOps
  split
  · exact placeholder_not_mem_bringOps i _ name consume
  · exact List.not_mem_nil

section Loads

variable {cfg : Config} {args : List JsValue} {props : List PropertyNode} (site : LoadSite props)

/-- A load that is lowered to some operations leaves what they leave. -/
theorem loadLeaves_iff_of_ops {ops : List StackOp} {result : Slots → Bytes}
    (hlower : lowerLoadProp site.bindingName site.prop.name site.ctx =
      .ok (site.ctx.after ops (some site.bindingName :: slotsOf site.cells)))
    (hrun : ∀ slots,
      RunsAs cfg slots ops (itemsOf site.cells) (.ok (result slots :: itemsOf site.cells)))
    (item : Bytes) :
    LoadLeaves cfg args site item ↔ ∃ slots, FilledBy args ops slots ∧ result slots = item := by
  constructor
  · rintro ⟨ops', slots, hlower', hfilled, hrun'⟩
    rw [hlower] at hlower'
    obtain rfl := LoweringContext.after_ops_inj (Except.ok.inj hlower')
    have hitems := (hrun slots).unique hrun'
    exact ⟨slots, hfilled, (List.cons.inj hitems).1⟩
  · rintro ⟨slots, hfilled, rfl⟩
    exact ⟨ops, slots, hlower, hfilled, hrun slots⟩

/-- A load of an item on the stack copies it. -/
theorem loadLeaves_onStack {found : Bytes} (hfound : lookup site.cells site.prop.name = some found)
    (item : Bytes) : LoadLeaves cfg args site item ↔ found = item := by
  have hmap := site.stackMap
  have hspec (slots : Slots) := bringToTop_spec cfg slots false hmap hfound
  have hlower : lowerLoadProp site.bindingName site.prop.name site.ctx =
      .ok (site.ctx.after (site.ctx.stackMap.bringOps site.prop.name false)
        (some site.bindingName :: slotsOf site.cells)) := by
    have hhas : site.ctx.stackMap.has site.prop.name = true := by
      rw [hmap, has_slotsOf, hfound]
      rfl
    rw [lowerLoadProp, if_pos hhas, (hspec ⟨fun _ _ => [], []⟩).1, ok_bind,
      LoweringContext.popSlot_cons _ rfl, ok_bind, LoweringContext.pushSlot_eq_after,
      LoweringContext.after_after, LoweringContext.after_after, List.append_nil, List.append_nil,
      takeCell_false]
    rfl
  have hiff := @loadLeaves_iff_of_ops cfg args _ site _ (fun _ => found) hlower
    (fun slots => (hspec slots).2) item
  rw [hiff]
  constructor
  · rintro ⟨_, _, h⟩
    exact h
  · intro h
    exact ⟨⟨fun _ _ => [], []⟩, fun i name hmem =>
      absurd hmem (placeholder_not_mem_mapBringOps i name _ _ _), h⟩

/-- Off the stack, a load is one push. -/
theorem lowerLoadProp_off {op : StackOp} (hnone : lookup site.cells site.prop.name = none)
    (hop : ((site.ctx.properties.find? (·.name = site.prop.name)).bind (·.initialValue)).elim
      (((site.ctx.properties.filter (·.initialValue.isNone)).findIdx?
        (·.name = site.prop.name)).map fun i => StackOp.placeholder i site.prop.name)
      (fun value => some (.push (constPush value))) = some op) :
    lowerLoadProp site.bindingName site.prop.name site.ctx =
      .ok (site.ctx.after [op] (some site.bindingName :: slotsOf site.cells)) := by
  have hhas : ¬ site.ctx.stackMap.has site.prop.name = true := by
    rw [site.stackMap, has_slotsOf, hnone]
    exact Bool.false_ne_true
  rw [lowerLoadProp, if_neg hhas]
  cases hinit : (site.ctx.properties.find? (·.name = site.prop.name)).bind (·.initialValue) with
  | some value =>
      rw [hinit] at hop
      cases hop
      simp [LoweringContext.pushValue, LoweringContext.emitOp_eq_after,
        LoweringContext.pushSlot_eq_after, site.stackMap]
  | none =>
      rw [hinit] at hop
      cases hidx : (site.ctx.properties.filter (·.initialValue.isNone)).findIdx?
          (·.name = site.prop.name) with
      | none =>
          rw [hidx] at hop
          cases hop
      | some i =>
          rw [hidx] at hop
          cases hop
          simp [LoweringContext.emitOp_eq_after, LoweringContext.pushSlot_eq_after, site.stackMap]

/-- A load leaves what it finds, and nothing else. -/
theorem loadLeaves_iff {values : List Value} (hargs : List.Forall₂ Represents args values)
    (item : Bytes) : LoadLeaves cfg args site item ↔ loadedItem values site = some item := by
  unfold loadedItem
  cases hlook : lookup site.cells site.prop.name with
  | some found =>
      rw [loadLeaves_onStack site hlook, Option.some_or, Option.some.injEq]
  | none =>
      rw [Option.none_or, slotBytes, ← site.properties]
      have hoff (op : StackOp) := @lowerLoadProp_off _ site op hlook
      cases hinit : (site.ctx.properties.find? (·.name = site.prop.name)).bind (·.initialValue) with
      | some value =>
          rw [hinit] at hoff
          have hiff := @loadLeaves_iff_of_ops cfg args _ site _ (fun _ => (constPush value).toBytes)
            (hoff _ rfl)
            (fun slots => (runsAs_push cfg slots (constPush value)).frame (itemsOf site.cells)) item
          rw [hiff, Option.some.injEq]
          constructor
          · rintro ⟨_, _, h⟩
            exact h
          · intro h
            refine ⟨⟨fun _ _ => [], []⟩, fun i name hmem => ?_, h⟩
            cases List.mem_singleton.mp hmem
      | none =>
          rw [hinit] at hoff
          cases hidx : (site.ctx.properties.filter (·.initialValue.isNone)).findIdx?
              (·.name = site.prop.name) with
          | none =>
              have hhas : ¬ site.ctx.stackMap.has site.prop.name = true := by
                rw [site.stackMap, has_slotsOf, hlook]
                exact Bool.false_ne_true
              have hstop : lowerLoadProp site.bindingName site.prop.name site.ctx =
                  .error (.noDeployTimeSlot site.prop.name) := by
                rw [lowerLoadProp, if_neg hhas, hinit, hidx]
              constructor
              · rintro ⟨_, _, hlower, _⟩
                rw [hstop] at hlower
                cases hlower
              · intro h
                cases h
          | some i =>
              rw [hidx] at hoff
              have hiff := @loadLeaves_iff_of_ops cfg args _ site _
                (fun slots => slots.constructorArg i site.prop.name) (hoff _ rfl)
                (fun slots =>
                  (runsAs_placeholder cfg slots i site.prop.name).frame (itemsOf site.cells)) item
              rw [hiff, Option.bind_some, ← deployedSlot_eq hargs i]
              constructor
              · rintro ⟨slots, hfilled, rfl⟩
                exact hfilled i _ (List.mem_singleton.mpr rfl)
              · intro h
                refine ⟨⟨fun _ _ => item, []⟩, fun j name hmem => ?_, rfl⟩
                cases List.mem_singleton.mp hmem
                exact h

end Loads

/-! ## The initial state -/

/-- The value a compile-time constant is written as. -/
def constJs : ConstValue → JsValue
  | .bytes bs => .string (toHex bs)
  | .bigint n => .bigint n
  | .boolean b => .boolean b

/-- How many scalars a type has. -/
def leafCount : FieldType → Nat
  | .primitive _ => 1
  | .fixedArray element length => length * leafCount element

/-- The constants of the scalars of a type, in the shape of the type. -/
def collapseConstants : FieldType → List JsValue → JsValue
  | .primitive _, leaves => leaves.headD .undefined
  | .fixedArray element length, leaves =>
      .array ((List.range length).map fun i =>
        collapseConstants element ((leaves.drop (i * leafCount element)).take (leafCount element)))

/-- The initial value of a field: the constants of its scalars, if all have one. -/
def fieldInitialValue (properties : List ANFProperty) (field : StateField) : Option JsValue :=
  ((syntheticNamesOf field.name field.shape).mapM fun name =>
    ((properties.find? (·.name = name)).bind (·.initialValue)).map constJs).map
      (collapseConstants field.shape.type)

/-- The artifact describes the contract. -/
structure Describes (artifact : RunarArtifact) (contract : ContractNode)
    (props : List PropertyNode) : Prop where
  properties : expandProperties contract.properties = .ok props
  constructorParams :
    artifact.constructorParams.map (·.name) = contract.constructor.params.map (·.name)
  stateFields : ∃ fields, extractStateFields props = .ok fields ∧
    artifact.stateFields = fields.map fun field =>
      { field with initialValue := fieldInitialValue (lowerProperties props) field }

mutual

/-- The value a state value is written as. -/
def jsOf : Value → JsValue
  | .bigint n _ => .bigint n
  | .boolean b => .boolean b
  | .bytes bs => .string (toHex bs)
  | .array elements => .array (jsOfEach elements)
  | .context | .void => .undefined

def jsOfEach : List Value → List JsValue
  | [] => []
  | v :: vs => jsOf v :: jsOfEach vs

end

/-- A state value stands for the value of a property. -/
def StandsFor (js : JsValue) (v : Value) : Prop := Represents js v ∨ js = jsOf v

/-- The state of a new object holds the property values. -/
def StateHolds (object : RunarContract) (final : String → Option Value) : Prop :=
  ∀ field ∈ object.artifact.stateFields, ∃ js v,
    object.state field.name = some js ∧ final field.name = some v ∧ StandsFor js v

/-- The argument a field starts from, or its initial value: of the fields of one name the
last. -/
def startingValue (params : List ABIParam) (fields : List InitialField) (args : List JsValue)
    (name : String) : Option JsValue :=
  (fields.reverse.filter (·.name = name)).findSome? (initialFieldValue params args)

theorem initialState_eq (params : List ABIParam) (fields : List InitialField)
    (args : List JsValue) (name : String) :
    initialState params fields args name = startingValue params fields args name := by
  have hgen (start : Record) : (fields.foldl (fun state field =>
      (initialFieldValue params args field).elim state (state.set field.name)) start) name =
        (startingValue params fields args name).or (start name) := by
    induction fields generalizing start with
    | nil => rfl
    | cons field fields ih =>
        rw [List.foldl_cons, ih]
        have hstep : startingValue params (field :: fields) args name =
            (startingValue params fields args name).or
              (if field.name = name then initialFieldValue params args field else none) := by
          unfold startingValue
          rw [List.reverse_cons, List.filter_append, List.findSome?_append]
          by_cases hname : field.name = name <;> simp [hname]
        rw [hstep]
        cases hvalue : initialFieldValue params args field with
        | none => simp
        | some value =>
            by_cases hname : field.name = name
            · simp [Record.set, hname]
            · have hne : ¬ name = field.name := fun h => hname h.symm
              simp [Record.set, hname, hne]
  have hinitial : initialState params fields args = fields.foldl (fun (state : Record) field =>
      (initialFieldValue params args field).elim state (state.set field.name))
      (fun _ => none) := by
    unfold initialState
    congr
    funext state field
    cases initialFieldValue params args field <;> rfl
  rw [hinitial]
  exact (hgen _).trans Option.or_none

/-! ## Deployments -/

/-- An accepted contract, compiled and deployed with some arguments, next to a run of its
constructor on the values they stand for. -/
structure Deployment where
  contract : ContractNode
  props : List PropertyNode
  methods : List StackMethod
  artifact : RunarArtifact
  args : List JsValue
  object : RunarContract
  lang : Language
  fuel : Nat
  values : List Value
  final : String → Option Value
  validated : validateConstructor contract = []
  accepted : Typecheck.Accepted contract
  describes : Describes artifact contract props
  carries : CarriesProgram artifact methods
  created : newRunarContract artifact args = .ok object
  represented : List.Forall₂ Represents args values
  constructs : constructed contract lang fuel values = some final

namespace Deployment

variable (d : Deployment)

/-- Every load among some leaves the bytes of what the constructor assigned, and the
initial state holds what it assigned. -/
def Faithful (cfg : Config) (Occurs : LoadSite d.props → Prop) : Prop :=
  (∀ site, Occurs site → ∃ item,
    (leafValue d.final site.prop).bind onStack = some item ∧ LoadLeaves cfg d.args site item) ∧
  StateHolds d.object d.final

/-- The constructor assigns to each readonly property what a load of it finds, and to each
mutable one what it starts from. -/
def AssignsInOrder (Occurs : LoadSite d.props → Prop) : Prop :=
  (∀ site, Occurs site → ∃ item,
    (leafValue d.final site.prop).bind onStack = some item ∧
      loadedItem d.values site = some item) ∧
  ∀ field ∈ d.artifact.stateFields, ∃ js v,
    startingValue d.artifact.constructorParams d.artifact.stateFields d.args field.name =
      some js ∧ d.final field.name = some v ∧ StandsFor js v

theorem object_eq : d.object.artifact = d.artifact ∧
    d.object.state = initialState d.artifact.constructorParams d.artifact.stateFields d.args := by
  have h := d.created
  unfold newRunarContract at h
  dsimp only at h
  split at h
  · cases h
  · rw [← Except.ok.inj h]
    exact ⟨rfl, rfl⟩

theorem stateHolds_iff : StateHolds d.object d.final ↔
    ∀ field ∈ d.artifact.stateFields, ∃ js v,
      startingValue d.artifact.constructorParams d.artifact.stateFields d.args field.name =
        some js ∧ d.final field.name = some v ∧ StandsFor js v := by
  obtain ⟨hartifact, hstate⟩ := d.object_eq
  simp only [StateHolds, hartifact, hstate, initialState_eq]

/-- The deployed script is the program with the arguments written into its slots, and it
is faithful to the constructor exactly if the constructor assigns in order. -/
theorem faithful_iff_assignsInOrder (cfg : Config) (Occurs : LoadSite d.props → Prop) :
    (∃ trailing, buildCodeScript d.artifact d.args =
      deployedText d.artifact d.args (programPieces d.methods) ++ trailing) ∧
    (d.Faithful cfg Occurs ↔ d.AssignsInOrder Occurs) := by
  refine ⟨buildCodeScript_eq d.carries d.args, ?_⟩
  unfold Faithful AssignsInOrder
  rw [stateHolds_iff]
  refine and_congr (forall_congr' fun site => ?_) Iff.rfl
  refine imp_congr_right fun _ => exists_congr fun item => and_congr_right fun _ => ?_
  exact loadLeaves_iff site d.represented item

end Deployment

/-! ### A constructor with its parameters the other way round -/

/-- Two properties, assigned from parameters of the same names in the other order. -/
def swappedContract : ContractNode where
  parentClass := .smartContract
  properties :=
    [⟨"first", .primitive .bigint, true, none, false⟩,
     ⟨"second", .primitive .bigint, true, none, false⟩]
  constructor :=
    { name := "constructor"
      params := [⟨"second", .primitive .bigint⟩, ⟨"first", .primitive .bigint⟩]
      body :=
        [.expressionStatement (.callExpr (.identifier "super")
           [.identifier "second", .identifier "first"] none),
         .assignment (.propertyAccess "second") (.identifier "second"),
         .assignment (.propertyAccess "first") (.identifier "first")]
      visibility := .isPublic
      sighashType := none }
  methods :=
    [{ name := "check"
       params := [⟨"x", .primitive .bigint⟩]
       body := [.expressionStatement (.callExpr (.identifier "assert")
         [.binaryExpr .eq (.identifier "x") (.propertyAccess "first")] none)]
       visibility := .isPublic
       sighashType := none }]

def swappedMethods : List StackMethod :=
  [⟨"check", [.placeholder 0 "first", .opcode .OP_NUMEQUAL]⟩]

def swappedArtifact : RunarArtifact where
  contractName := "Swapped"
  parentClass := some "SmartContract"
  constructorParams := [⟨"second", .primitive .bigint⟩, ⟨"first", .primitive .bigint⟩]
  methods := []
  script := (emit swappedMethods).hex
  stateFields := []
  constructorSlots := (emit swappedMethods).constructorSlots
  codeSepIndexSlots := (emit swappedMethods).codeSepIndexSlots
  codeSeparatorIndex := none
  codeSeparatorIndices := none
  anf := none

def swappedProps : List PropertyNode :=
  [⟨"first", .bigint, true, none, []⟩, ⟨"second", .bigint, true, none, []⟩]

/-- A language without builtin functions. -/
def bareLanguage : Language := ⟨fun _ _ => none, fun _ => none, fun _ => none, [], fun _ => []⟩

theorem swapped_constructed : ∃ final,
    constructed swappedContract bareLanguage 1 [.num 2, .num 1] = some final ∧
    final "first" = some (.num 1) := by
  refine ⟨_, rfl, ?_⟩
  rfl

theorem swapped_describes : Describes swappedArtifact swappedContract swappedProps where
  properties := rfl
  constructorParams := rfl
  stateFields := by
    refine ⟨[], ?_, rfl⟩
    rw [extractStateFields, regroupSyntheticRuns, regroupLoop]
    simp [flatEntries, swappedProps, regroupOnePass]

/-- The load of the first property in the compiled method. -/
def swappedSite : LoadSite swappedProps where
  ctx :=
    { stackMap := [some "x"], ops := [], properties := lowerProperties swappedProps,
      privateMethods := [], localBindings := [], outerProtectedRefs := none,
      insideBranch := false, arrayElements := [], constValues := [], renamedParams := [] }
  cells := [(some "x", [])]
  bindingName := "t0"
  prop := ⟨"first", .bigint, true, none, []⟩
  mem := List.mem_cons_self
  readonly := rfl
  properties := rfl
  stackMap := rfl

/-- The constructor gives the first property one, and the deployed script loads two. -/
theorem not_faithful : ¬ ∀ (d : Deployment) (cfg : Config) (Occurs : LoadSite d.props → Prop),
    d.Faithful cfg Occurs := by
  intro hall
  obtain ⟨final, hfinal, hfirst⟩ := swapped_constructed
  have hlen (n : Int) (h : n = 1 ∨ n = 2) : (encodeNum n).length < 2 ^ 32 := by
    rcases h with rfl | rfl <;> decide
  have hargs : List.Forall₂ Represents [.bigint 2, .bigint 1] [.num 2, .num 1] :=
    .cons ⟨rfl, hlen 2 (.inr rfl)⟩ (.cons ⟨rfl, hlen 1 (.inl rfl)⟩ .nil)
  let d : Deployment :=
    { contract := swappedContract, props := swappedProps, methods := swappedMethods
      artifact := swappedArtifact, args := [.bigint 2, .bigint 1], object := _
      lang := bareLanguage, fuel := 1, values := [.num 2, .num 1], final := final
      validated := by decide +kernel
      accepted := by decide +kernel
      describes := swapped_describes
      carries := ⟨rfl, rfl, rfl⟩
      created := rfl
      represented := hargs
      constructs := hfinal }
  let cfg : Config :=
    { requireMinimal := fun _ => true, sha1 := id, sha256 := id, ripemd160 := id
      checkSig := fun _ _ => false, checkMultiSig := fun _ _ => false, raw := fun _ => .ok }
  obtain ⟨hloads, -⟩ := hall d cfg fun site => site = swappedSite
  obtain ⟨item, hitem, hleaves⟩ := hloads swappedSite rfl
  have hloaded := (loadLeaves_iff swappedSite hargs item).mp hleaves
  have hone : item = encodeNum 1 := by
    have hvalue : (leafValue final swappedSite.prop).bind onStack = some (encodeNum 1) := by
      show (final "first").bind onStack = _
      rw [hfirst]
      rfl
    exact Option.some.inj (hitem.symm.trans hvalue)
  have htwo : item = encodeNum 2 := Option.some.inj (hloaded.symm.trans rfl)
  rw [hone] at htwo
  revert htwo
  decide

end Runar.Sdk
