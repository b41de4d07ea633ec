/-
  Decompiler/Emitted.lean --- the disassembler reads what the emitter writes.

  WHAT THIS FILE IS FOR.  The compiler writes a program as the text of its script, with the
  shortest opcode for every push.  The decompiler starts from the bytes of that script.  This
  file runs what the disassembler makes of them on the script machine, and compares the run with
  that of the stack operations the compiler started from.

  A SMALL PUSH COMES BACK AS AN OPCODE.  A push of nothing, of a byte up to 16 or of minus one is
  written as the opcode of that number, so the instructions that are read are not those that were
  written.  They do the same to every machine.
-/
import Runar.Decompiler.SplitMethods

set_option autoImplicit false

namespace Runar.Decompiler

open Script Logic Testing
open Artifact (StackMethod Slots.blank instrText scriptText scriptText_cons
  opcodeByte opcodeByte_lt encodePushData encodePushValue dispatchScript wrote_emitOps)

/-! ## What an opcode runs as -/

/-- The opcodes of the machine. -/
def opcodes : List Opcode :=
  [.OP_0, .OP_1NEGATE, .OP_1, .OP_2, .OP_3, .OP_4, .OP_5, .OP_6, .OP_7, .OP_8, .OP_9, .OP_10,
   .OP_11, .OP_12, .OP_13, .OP_14, .OP_15, .OP_16, .OP_NOP, .OP_IF, .OP_NOTIF, .OP_ELSE,
   .OP_ENDIF, .OP_VERIFY, .OP_RETURN, .OP_TOALTSTACK, .OP_FROMALTSTACK, .OP_2DROP, .OP_2DUP,
   .OP_3DUP, .OP_2OVER, .OP_2ROT, .OP_2SWAP, .OP_IFDUP, .OP_DEPTH, .OP_DROP, .OP_DUP, .OP_NIP,
   .OP_OVER, .OP_PICK, .OP_ROLL, .OP_ROT, .OP_SWAP, .OP_TUCK, .OP_CAT, .OP_SPLIT, .OP_NUM2BIN,
   .OP_BIN2NUM, .OP_SIZE, .OP_INVERT, .OP_AND, .OP_OR, .OP_XOR, .OP_EQUAL, .OP_EQUALVERIFY,
   .OP_1ADD, .OP_1SUB, .OP_2MUL, .OP_2DIV, .OP_NEGATE, .OP_ABS, .OP_NOT, .OP_0NOTEQUAL, .OP_ADD,
   .OP_SUB, .OP_MUL, .OP_DIV, .OP_MOD, .OP_LSHIFT, .OP_RSHIFT, .OP_BOOLAND, .OP_BOOLOR,
   .OP_NUMEQUAL, .OP_NUMEQUALVERIFY, .OP_NUMNOTEQUAL, .OP_LESSTHAN, .OP_GREATERTHAN,
   .OP_LESSTHANOREQUAL, .OP_GREATERTHANOREQUAL, .OP_MIN, .OP_MAX, .OP_WITHIN, .OP_RIPEMD160,
   .OP_SHA1, .OP_SHA256, .OP_HASH160, .OP_HASH256, .OP_CODESEPARATOR, .OP_CHECKSIG,
   .OP_CHECKSIGVERIFY, .OP_CHECKMULTISIG, .OP_CHECKMULTISIGVERIFY, .OP_SUBSTR, .OP_LEFT,
   .OP_RIGHT, .OP_LSHIFTNUM, .OP_RSHIFTNUM]

/-- The opcode that is written as a byte. -/
def opcodeOf (b : UInt8) : Option Opcode := opcodes.find? (opcodeByte · = b.toNat)

/-- What the machine runs for an opcode of a script: a push of its data, or the opcode of its
byte. -/
def Op.instr (op : Op) : Option Instr :=
  match op.data with
  | some data => some (.push data)
  | none => (opcodeOf op.byte).map .op

/-- Two instructions do the same to every machine. -/
def SameStep (i j : Instr) : Prop := ∀ cfg m, step cfg i m = step cfg j m

/-- An instruction that the disassembler can read: its push has a length that the cursor can
add, and it is no span of raw bytes. -/
def Readable : Instr → Prop
  | .push data => data.length < 2 ^ 31
  | .op _ => True
  | .raw _ => False

instance : DecidablePred Readable
  | .push data => inferInstanceAs (Decidable (data.length < 2 ^ 31))
  | .op _ => .isTrue trivial
  | .raw _ => .isFalse id

theorem opcodeOf_opcodeByte (code : Opcode) :
    opcodeOf (opcodeByte code).toUInt8 = some code := by
  cases code <;> rfl

/-- No opcode has the byte of a push with data behind it. -/
theorem code_opcodeByte (code : Opcode) :
    (opcodeByte code).toUInt8 = 0x00 ∨ 0x4e < (opcodeByte code).toUInt8 := by
  cases code <;> decide

theorem toNat_opcodeByte (code : Opcode) : (opcodeByte code).toUInt8.toNat = opcodeByte code := by
  rw [Nat.toUInt8, UInt8.toNat_ofNat']
  exact Nat.mod_eq_of_lt (opcodeByte_lt code)

/-! ## One instruction -/

/-- An element with the text of an instruction, which runs as the instruction does. -/
def Restores (e : Element) (i : Instr) : Prop :=
  toHex e.bytes = instrText i ∧
    ∃ j, (∀ offset, (e.opAt offset).instr = some j) ∧ SameStep j i

/-- The element of an opcode. -/
def Element.ofCode (code : Opcode) : Element := .op _ (code_opcodeByte code)

theorem toHex_ofCode (code : Opcode) :
    toHex (Element.ofCode code).bytes = hexNumber (opcodeByte code) := by
  show toHex [(opcodeByte code).toUInt8] = _
  rw [toHex_cons, toHex_nil, List.append_nil, toNat_opcodeByte]

theorem instr_ofCode (code : Opcode) (offset : Int) :
    ((Element.ofCode code).opAt offset).instr = some (.op code) :=
  congrArg (Option.map Instr.op) (opcodeOf_opcodeByte code)

theorem restores_ofCode (code : Opcode) : Restores (.ofCode code) (.op code) :=
  ⟨toHex_ofCode code, _, instr_ofCode code, fun _ _ => rfl⟩

/-- An opcode that pushes a number does what a push of its bytes does. -/
theorem restores_number (code : Opcode) {data : Bytes} {n : Int}
    (htext : hexNumber (opcodeByte code) = instrText (.push data)) (hdata : encodeNum n = data)
    (hstep : ∀ cfg m, step cfg (.op code) m = if m.returned then .ok m else
      if m.running then (pushNum n m.toStacks).map m.withStacks else .ok m) :
    Restores (.ofCode code) (.push data) := by
  refine ⟨(toHex_ofCode code).trans htext, _, instr_ofCode code, fun cfg m => ?_⟩
  rw [hstep, ← hdata]
  rfl

theorem exists_restores_small {n : Nat} (hpos : 1 ≤ n) (hsmall : n ≤ 16) :
    ∃ e, Restores e (.push [n.toUInt8]) := by
  refine ⟨.ofCode ((opcodeOf (0x50 + n).toUInt8).getD .OP_0), ?_⟩
  refine restores_number _ (n := n) ?_ ?_ fun cfg m => ?_
  · interval_cases n <;> rfl
  · interval_cases n <;> rfl
  · interval_cases n <;> rfl

/-- The bytes before the data of a push. -/
def pushHead (n : Nat) : Bytes :=
  if n ≤ 75 then [n.toUInt8]
  else if n ≤ 255 then [0x4c, n.toUInt8]
  else if n ≤ 65535 then 0x4d :: leBytes 2 n
  else 0x4e :: leBytes 4 n

theorem encodePushData_eq {data : Bytes} (h : data ≠ []) :
    encodePushData data = pushHead data.length ++ data := by
  have hpos : ¬ data.length = 0 := fun hnil => h (List.length_eq_zero_iff.mp hnil)
  unfold encodePushData pushHead
  rw [if_neg hpos]
  split
  · rfl
  split
  · rfl
  split <;> rfl

theorem announces_pushHead {n : Nat} (hpos : 0 < n) (hlen : n < 2 ^ 31) :
    Announces (pushHead n) n := by
  have hbyte (h : n ≤ 255) : n.toUInt8.toNat = n := by
    rw [Nat.toUInt8, UInt8.toNat_ofNat']
    exact Nat.mod_eq_of_lt (by omega)
  unfold pushHead
  split
  · rename_i h75
    have hn := hbyte (by omega)
    have hdirect : Announces [n.toUInt8] n.toUInt8.toNat :=
      .direct (by rw [UInt8.le_iff_toNat_le, hn]; exact hpos)
        (by rw [UInt8.le_iff_toNat_le, hn]; exact h75)
    rwa [hn] at hdirect
  split
  · rename_i h255
    have hone := Announces.pushData1 n.toUInt8
    rwa [hbyte h255] at hone
  split
  · rename_i h65535
    have hn : leNat (leBytes 2 n) = n := by
      refine (leNat_leBytes 2 n).trans (Nat.mod_eq_of_lt ?_)
      omega
    have htwo : Announces (0x4d :: leBytes 2 n) (leNat (leBytes 2 n)) := .pushData2 _ _
    rwa [hn] at htwo
  · have hn : leNat (leBytes 4 n) = n := by
      refine (leNat_leBytes 4 n).trans (Nat.mod_eq_of_lt ?_)
      omega
    have hfour : leNat (leBytes 4 n) < 2 ^ 31 → Announces (0x4e :: leBytes 4 n)
        (leNat (leBytes 4 n)) := .pushData4
    rw [hn] at hfour
    exact hfour hlen

theorem exists_restores_data {data : Bytes} (hne : data ≠ []) (hlen : data.length < 2 ^ 31)
    (htext : encodePushValue (.bytes data) = toHex (encodePushData data)) :
    ∃ e, Restores e (.push data) := by
  have hhead := announces_pushHead (List.length_pos_of_ne_nil hne) hlen
  refine ⟨.push _ data hhead, ?_, _, fun _ => rfl, fun _ _ => rfl⟩
  show toHex (pushHead data.length ++ data) = encodePushValue (.bytes data)
  rw [htext, encodePushData_eq hne]

theorem exists_restores_push {data : Bytes} (hlen : data.length < 2 ^ 31) :
    ∃ e, Restores e (.push data) := by
  rcases data with _ | ⟨b, _ | ⟨c, data⟩⟩
  · exact ⟨_, restores_number .OP_0 (n := 0) rfl rfl fun _ _ => rfl⟩
  · by_cases hsmall : 1 ≤ b ∧ b ≤ 16
    · have hn := exists_restores_small (UInt8.le_iff_toNat_le.mp hsmall.1)
        (UInt8.le_iff_toNat_le.mp hsmall.2)
      rwa [show b.toNat.toUInt8 = b from UInt8.ofNat_toNat] at hn
    by_cases hminus : b = 0x81
    · subst hminus
      exact ⟨_, restores_number .OP_1NEGATE (n := -1) rfl rfl fun _ _ => rfl⟩
    · refine exists_restores_data (List.cons_ne_nil _ _) hlen ?_
      show (if 1 ≤ b ∧ b ≤ 16 then _ else if b = 0x81 then _ else _) = _
      rw [if_neg hsmall, if_neg hminus]
  · exact exists_restores_data (List.cons_ne_nil _ _) hlen rfl

theorem exists_restores {i : Instr} (h : Readable i) : ∃ e, Restores e i := by
  cases i with
  | push data => exact exists_restores_push h
  | op code => exact ⟨_, restores_ofCode code⟩
  | raw span => exact absurd h id

/-! ## A whole script -/

/-- Instructions that come back from the text of a script: its bytes are cut into an opcode for
each, and these run as the instructions do. -/
def ComesBack (text : HexText) (is : List Instr) : Prop :=
  ∃ script ops js, toHex script = text ∧ Disassemble script (.ok ops) ∧
    ops.mapM Op.instr = some js ∧ js.length = is.length ∧ ∀ cfg m, run cfg js m = run cfg is m

theorem exists_elements {is : List Instr} (h : ∀ i ∈ is, Readable i) :
    ∃ elements, List.Forall₂ Restores elements is := by
  induction is with
  | nil => exact ⟨[], .nil⟩
  | cons i is ih =>
    obtain ⟨e, he⟩ := exists_restores (h i List.mem_cons_self)
    obtain ⟨elements, hrest⟩ := ih fun j hj => h j (List.mem_cons_of_mem i hj)
    exact ⟨e :: elements, .cons he hrest⟩

theorem toHex_elements {elements : List Element} {is : List Instr}
    (h : List.Forall₂ Restores elements is) : toHex (bytesOf elements) = scriptText is := by
  induction h with
  | nil => rfl
  | cons he _ ih => rw [toHex_cons_element, scriptText_cons, he.1, ih]

/-- One instruction after another, wherever the elements stand. -/
theorem instrs_opsAt {elements : List Element} {is : List Instr}
    (h : List.Forall₂ Restores elements is) :
    ∃ js, (∀ offset, (opsAt offset elements).mapM Op.instr = some js) ∧ js.length = is.length ∧
      ∀ cfg m, run cfg js m = run cfg is m := by
  induction h with
  | nil => exact ⟨[], fun _ => rfl, rfl, fun _ _ => rfl⟩
  | cons he _ ih =>
    obtain ⟨-, j, hj, hstep⟩ := he
    obtain ⟨js, hjs, hlength, hrun⟩ := ih
    refine ⟨j :: js, fun offset => ?_, congrArg (· + 1) hlength, fun cfg m => ?_⟩
    · rw [opsAt, List.mapM_cons, hj, hjs]
      rfl
    · rw [run_cons, run_cons, hstep cfg m]
      exact congrArg (_ >>= ·) (funext (hrun cfg))

theorem comesBack_scriptText {is : List Instr} (h : ∀ i ∈ is, Readable i) :
    ComesBack (scriptText is) is := by
  obtain ⟨elements, helements⟩ := exists_elements h
  obtain ⟨js, hjs, hlength, hrun⟩ := instrs_opsAt helements
  exact ⟨_, _, js, toHex_elements helements, disassemble_elements elements, hjs 0, hlength, hrun⟩

/-! ## A program -/

/-- The instructions of a program, as the emitter writes them. -/
def programInstrs (methods : List StackMethod) : List Instr :=
  match methods.filter (·.name ≠ "constructor") with
  | [] => []
  | [method] => Runar.emitOps Slots.blank method.ops
  | methods => dispatchScript Slots.blank methods

theorem emit_hex (methods : List StackMethod) :
    (Artifact.emit methods).hex = scriptText (programInstrs methods) := by
  unfold Artifact.emit programInstrs
  dsimp only
  generalize methods.filter (·.name ≠ "constructor") = publicMethods
  rcases publicMethods with _ | ⟨method, _ | ⟨next, rest⟩⟩
  · rfl
  · exact ((wrote_emitOps method.ops).hex .new).trans (Artifact.text_emitOps method.ops)
  · exact Artifact.emitMethodDispatch_hex (method :: next :: rest)

/-- The script of a program without raw spans comes back as a script that runs as it does. -/
theorem emit_comesBack (methods : List StackMethod) (h : ∀ i ∈ programInstrs methods, Readable i) :
    ComesBack (Artifact.emit methods).hex (programInstrs methods) := by
  rw [emit_hex]
  exact comesBack_scriptText h

/-- A method that hashes an argument, and takes one of two numbers by what it finds. -/
def hashMethod : StackMethod :=
  ⟨"unlock", [.opcode .OP_SHA256, .placeholder 0 "digest", .opcode .OP_EQUAL,
    .ifOp [.push (.bigint 1000)] [.push (.bigint (-1))], .push (.bigint 16), .opcode .OP_ADD]⟩

def dropMethod : StackMethod := ⟨"cancel", [.drop, .push (.boolean true)]⟩

theorem emit_comesBack_two : ComesBack (Artifact.emit [hashMethod, dropMethod]).hex
    (programInstrs [hashMethod, dropMethod]) :=
  emit_comesBack _ (by decide +kernel)

end Runar.Decompiler
