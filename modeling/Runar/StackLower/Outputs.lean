/-
  StackLower/Outputs.lean --- the outputs a method commits to.

  WHAT THIS FILE IS FOR.  `add_output` and `add_raw_output` serialise an output for
  the hash of the transaction's outputs.  A byte that differs from what the node
  hashes locks the contract, so the text must be exactly an output of the
  transaction format: this file lowers the raw form, and proves both forms for every
  amount that a transaction can hold and every script with a length.

  THE LENGTH.  NUM2BIN writes a sign: every form takes one byte more than it keeps.
  The last form of the code goes beyond eight bytes before it fails; a script is
  never that long.
-/
import Runar.Script.CompactSize
import Runar.StackLower.StateAgree

set_option autoImplicit false

namespace Runar.StackLower

open Script

/-! ## Lowering -/

namespace LoweringContext

/-- The output with the script given as it is. -/
def lowerAddRawOutput (bindingName satoshis scriptBytes : String) (bindingIndex : Nat)
    (lastUses : LastUses) (ctx : LoweringContext) : Except LowerError LoweringContext := do
  let operands := [satoshis, scriptBytes]
  let ctx ← ctx.bringToTop scriptBytes
    (operandConsume scriptBytes operands bindingIndex lastUses)
  let ctx ← ctx.wrapOutput satoshis operands bindingIndex lastUses
  let ctx ← ctx.popSlot
  .ok (ctx.pushSlot (some bindingName))

end LoweringContext

/-! ## The length and the amount -/

/-- The code's varint is the CompactSize of every length there is. -/
theorem varintEncoding_eq {len : Nat} (h : len < 2 ^ 64) :
    varintEncoding len = .ok (compactSize len) := by
  unfold varintEncoding compactSize
  by_cases h₁ : len < 253
  · rw [if_pos h₁, if_pos h₁]
  · rw [if_neg h₁, if_neg h₁]
    by_cases h₂ : len < 0x10000
    · rw [if_pos h₂, if_pos (Nat.le_of_lt_succ h₂)]
    · rw [if_neg h₂, if_neg (fun hle => h₂ (Nat.lt_succ_of_le hle))]
      by_cases h₄ : len < 0x100000000
      · rw [if_pos h₄, if_pos (Nat.le_of_lt_succ h₄)]
      · rw [if_neg h₄, if_neg (fun hle => h₄ (Nat.lt_succ_of_le hle)),
          if_pos (Nat.lt_trans h (by decide))]

/-- An amount below the sign bit is written as it is. -/
theorem num2bin_amount {amount : Nat} (h : amount < 2 ^ 63) :
    num2bin amount 8 = .ok (leBytes 8 amount) := by
  have hfits : Fits 8 amount := (fits_natCast_iff 7 amount).mpr (by omega)
  unfold num2bin
  rw [if_pos ⟨by decide, hfits⟩]
  show Except.ok (leBytes 8 (signed 8 amount)) = _
  rw [signed_natCast]

/-- The serialised output is the one of the transaction. -/
theorem outputBytes_eq {item script : Bytes} {amount : Nat} (hitem : decodeNum item = amount)
    (hamount : amount < 2 ^ 63) (hscript : script.length < 2 ^ 64) :
    outputBytes item script = .ok (txOutput amount script) := by
  unfold outputBytes
  rw [varintEncoding_eq hscript, ok_bind, hitem, num2bin_amount hamount, ok_bind, txOutput,
    List.append_assoc]

/-! ## The two forms -/

section Outputs

variable (cfg : Config) (slots : Slots)

/-- The raw form leaves the serialised output on top of what it did not consume. -/
theorem lowerAddRawOutput_spec {ctx : LoweringContext} {cells : List Cell}
    (hmap : ctx.stackMap = slotsOf cells) {satoshis scriptBytes : String} {amount script : Bytes}
    (hamount : lookup cells satoshis = some amount)
    (hscript : lookup cells scriptBytes = some script) (bindingName : String)
    (bindingIndex : Nat) (lastUses : LastUses) :
    ∃ ops rest,
      ctx.lowerAddRawOutput bindingName satoshis scriptBytes bindingIndex lastUses =
        .ok (ctx.after ops (some bindingName :: slotsOf rest)) ∧
      RunsAs cfg slots ops (itemsOf cells)
        ((outputBytes amount script).map (· :: itemsOf rest)) := by
  let consume := operandConsume scriptBytes [satoshis, scriptBytes] bindingIndex lastUses
  obtain ⟨hbring, hrunBring⟩ := bringToTop_spec cfg slots consume hmap hscript
  -- the script is consumed only where the amount is another name
  have hcount : ∀ n, (scriptBytes :: [satoshis]).count n ≤ [satoshis, scriptBytes].count n :=
    fun n => ((List.Perm.swap satoshis scriptBytes []).count_eq n).le
  have hleft : lookup (takeCell scriptBytes consume cells) satoshis = some amount :=
    (lookup_after_operand hcount List.mem_cons_self).trans hamount
  obtain ⟨opsW, restW, heqW, hrunW⟩ := wrapOutput_spec cfg slots
    (LoweringContext.stackMap_after ctx (ctx.stackMap.bringOps scriptBytes consume)
      (some scriptBytes :: slotsOf (takeCell scriptBytes consume cells)))
    hleft [satoshis, scriptBytes] bindingIndex lastUses script
  refine ⟨ctx.stackMap.bringOps scriptBytes consume ++ opsW, restW, ?_,
    hrunBring.append_ok hrunW⟩
  show (ctx.bringToTop scriptBytes consume >>= fun ctx =>
    ctx.wrapOutput satoshis [satoshis, scriptBytes] bindingIndex lastUses >>= fun ctx =>
      ctx.popSlot >>= fun ctx => .ok (ctx.pushSlot (some bindingName))) = _
  rw [hbring, ok_bind, heqW, ok_bind,
    LoweringContext.popSlot_cons _ (LoweringContext.stackMap_after _ _ _), ok_bind,
    LoweringContext.pushSlot_eq_after]
  simp

/-- The lowered code leaves a text on top of what it did not consume, under the
name of the binding. -/
def Leaves (cfg : Config) (slots : Slots) (ctx : LoweringContext) (cells : List Cell)
    (bindingName : String) (lowered : Except LowerError LoweringContext) (text : Bytes) : Prop :=
  ∃ ops rest, lowered = .ok (ctx.after ops (some bindingName :: slotsOf rest)) ∧
    RunsAs cfg slots ops (itemsOf cells) (.ok (text :: itemsOf rest))

/-- The item under a name. -/
def cellItem (cells : List Cell) (name : String) : Bytes := (lookup cells name).getD []

theorem lookup_cellItem {cells : List Cell} {name : String} (h : (lookup cells name).isSome) :
    lookup cells name = some (cellItem cells name) := by
  obtain ⟨item, hitem⟩ := Option.isSome_iff_exists.mp h
  rw [cellItem, hitem, Option.getD_some]

/-- The state values are on the stack, and their fields make up a state section. -/
structure StateWritten (ctx : LoweringContext) (cells : List Cell) (stateValues : List String)
    (state : Bytes) : Prop where
  onStack : ∀ ref ∈ stateValues, (lookup cells ref).isSome
  written :
    stateSection (valueFields (cellItem cells) (stateValues.zip ctx.stateProps)) = .ok state

/-- The code writes the CompactSize of every length, and both forms of an output leave
the text of the transaction format, for every amount and every script. -/
theorem outputs_as_transaction :
    (∀ len < 2 ^ 64, RunsAs cfg slots emitVarintEncoding [encodeNum (len : Nat)]
      (.ok [compactSize len])) ∧
    ∀ (ctx : LoweringContext) (cells : List Cell), ctx.stackMap = slotsOf cells →
      ∀ (satoshis : String) (item : Bytes) (amount : Nat), lookup cells satoshis = some item →
      decodeNum item = amount → amount < 2 ^ 63 →
      ∀ (bindingName : String) (bindingIndex : Nat) (lastUses : LastUses),
      (∀ (scriptBytes : String) (script : Bytes), lookup cells scriptBytes = some script →
        script.length < 2 ^ 64 →
        Leaves cfg slots ctx cells bindingName
          (ctx.lowerAddRawOutput bindingName satoshis scriptBytes bindingIndex lastUses)
          (leBytes 8 amount ++ compactSize script.length ++ script)) ∧
      ∀ (codePart : Bytes), lookup cells "_codePart" = some codePart →
        ∀ (stateValues : List String) (state : Bytes),
        StateWritten ctx cells stateValues state →
        ∀ script, script = codePart ++ 0x6a :: state → script.length < 2 ^ 64 →
        Leaves cfg slots ctx cells bindingName
          (ctx.lowerAddOutput bindingName satoshis stateValues bindingIndex lastUses)
          (leBytes 8 amount ++ compactSize script.length ++ script) := by
  refine ⟨fun len hlen => ?_, fun ctx cells hmap satoshis item amount hlook hitem hamount
    bindingName bindingIndex lastUses => ⟨?_, ?_⟩⟩
  · have hrun := runsAs_emitVarintEncoding cfg slots len
    rwa [varintEncoding_eq hlen] at hrun
  · intro scriptBytes script hscript hlength
    obtain ⟨ops, rest, hlowered, hrun⟩ := lowerAddRawOutput_spec cfg slots hmap hlook hscript
      bindingName bindingIndex lastUses
    rw [outputBytes_eq hitem hamount hlength] at hrun
    exact ⟨ops, rest, hlowered, hrun⟩
  · intro codePart hcode stateValues state hstate script hscript hlength
    have honStack : ∀ ref ∈ satoshis :: stateValues,
        lookup cells ref = some (cellItem cells ref) := by
      intro ref href
      rcases List.mem_cons.mp href with rfl | href
      · exact lookup_cellItem (Option.isSome_of_eq_some hlook)
      · exact lookup_cellItem (hstate.onStack ref href)
    obtain ⟨ops, rest, hlowered, hrun⟩ := lowerAddOutput_spec cfg slots (cellItem cells) hmap hcode
      bindingName satoshis stateValues bindingIndex lastUses honStack
    have hitem' : decodeNum (cellItem cells satoshis) = amount := by
      rw [cellItem, hlook, Option.getD_some, hitem]
    rw [hstate.written, ok_bind, ← hscript, outputBytes_eq hitem' hamount hlength] at hrun
    exact ⟨ops, rest, hlowered, hrun⟩

/-- An amount, a script and a code part. -/
def rawCells : List Cell :=
  [(some "satoshis", [0xe8, 3]), (some "script", [0x51]), (some "_codePart", [0x51])]

/-- An amount of 1000 and a script of one opcode, and a state of no fields behind a code part
of one opcode. -/
theorem outputs_as_transaction_thousand :
    Leaves bareConfig bareSlots (contextOf noteContract rawCells) rawCells "t0"
      ((contextOf noteContract rawCells).lowerAddRawOutput "t0" "satoshis" "script" 0
        fun _ => none)
      [0xe8, 3, 0, 0, 0, 0, 0, 0, 1, 0x51] ∧
    Leaves bareConfig bareSlots (contextOf noteContract rawCells) rawCells "t0"
      ((contextOf noteContract rawCells).lowerAddOutput "t0" "satoshis" [] 0 fun _ => none)
      [0xe8, 3, 0, 0, 0, 0, 0, 0, 2, 0x51, 0x6a] := by
  obtain ⟨hraw, hadd⟩ := (outputs_as_transaction bareConfig bareSlots).2
    (contextOf noteContract rawCells) rawCells rfl "satoshis" [0xe8, 3] 1000 rfl (by decide)
    (by decide) "t0" 0 fun _ => none
  exact ⟨hraw "script" [0x51] rfl (by decide),
    hadd [0x51] rfl [] [] ⟨fun _ h => (nomatch h), rfl⟩ [0x51, 0x6a] rfl (by decide)⟩

end Outputs

end Runar.StackLower
