/-
  Decompiler/SplitMethods.lean --- the splitter undoes the dispatch.

  WHAT THIS FILE IS FOR.  The emitter writes several methods as a chain of tests and bodies.
  Where every body is whole opcodes and pushes with balanced conditionals, the disassembler reads
  the chain, and the splitter returns the bodies: each is what the disassembler makes of the body
  alone, at the place where the body stands.
-/
import Runar.Artifact.Dispatch
import Runar.Decompiler.Dispatch
import Runar.Decompiler.Tokens

set_option autoImplicit false

namespace Runar.Decompiler

open Script Logic Testing
open Artifact (StackMethod opcodePiece pushPiece opsPieces casePieces template template_cons
  template_append emitMethodDispatch encodePushValue encodePushBigIntHex encodePushData
  wrote_emitOps wrote_emitCases wrote_emitEnds)

/-! ## Elements of a script -/

/-- An opcode or a push. -/
inductive Element where
  | op (b : UInt8) (code : b = 0x00 ∨ 0x4e < b)
  | push (head data : Bytes) (announces : Announces head data.length)

namespace Element

def bytes : Element → Bytes
  | op b _ => [b]
  | push head data _ => head ++ data

/-- What the disassembler reads it as at a place. -/
def opAt (offset : Int) : Element → Op
  | op b _ => { name := opcodeName b, byte := b, offset, size := 1 }
  | push head data _ =>
      { name := pushName (head.headD 0), byte := head.headD 0, data := some data, offset,
        size := head.length + data.length }

end Element

/-- The bytes of some elements. -/
def bytesOf (elements : List Element) : Bytes := elements.flatMap Element.bytes

/-- What the disassembler reads from a place on. -/
def opsAt : Int → List Element → List Op
  | _, [] => []
  | offset, e :: elements => e.opAt offset :: opsAt (offset + e.bytes.length) elements

/-- An opcode that stands further behind. -/
def Op.shift (distance : Int) (op : Op) : Op := { op with offset := op.offset + distance }

theorem bytesOf_cons (e : Element) (elements : List Element) :
    bytesOf (e :: elements) = e.bytes ++ bytesOf elements := List.flatMap_cons

theorem bytesOf_append (xs ys : List Element) : bytesOf (xs ++ ys) = bytesOf xs ++ bytesOf ys :=
  List.flatMap_append

theorem opsAt_append (offset : Int) (xs ys : List Element) :
    opsAt offset (xs ++ ys) = opsAt offset xs ++ opsAt (offset + (bytesOf xs).length) ys := by
  induction xs generalizing offset with
  | nil => exact (Int.add_zero offset).symm ▸ rfl
  | cons e xs ih =>
    have hplace : offset + e.bytes.length + (bytesOf xs).length =
        offset + (bytesOf (e :: xs)).length := by
      rw [bytesOf_cons, List.length_append]
      omega
    rw [List.cons_append, opsAt, ih, opsAt, List.cons_append, hplace]

theorem opsAt_shift (distance : Int) (elements : List Element) (offset : Int) :
    opsAt (offset + distance) elements = (opsAt offset elements).map (Op.shift distance) := by
  induction elements generalizing offset with
  | nil => rfl
  | cons e elements ih =>
    have hop : e.opAt (offset + distance) = (e.opAt offset).shift distance := by
      cases e <;> rfl
    rw [opsAt, opsAt, List.map_cons, hop, Int.add_right_comm, ih]

theorem Announces.length_pos {head : Bytes} {n : Nat} (h : Announces head n) :
    0 < head.length := by
  cases h <;> exact Nat.succ_pos _

theorem Element.length_bytes_pos (e : Element) : 0 < e.bytes.length := by
  cases e with
  | op => exact Nat.one_pos
  | push head data hhead =>
    rw [Element.bytes, List.length_append]
    exact Nat.lt_of_lt_of_le hhead.length_pos (Nat.le_add_right _ _)

/-- The disassembler reads an element where it stands. -/
theorem disasmStep_element (e : Element) (before after : Bytes) :
    disasmStep (before ++ (e.bytes ++ after)) before.length =
      .ok (e.opAt before.length, some (before.length + e.bytes.length)) := by
  cases e with
  | op b hcode =>
    show disasmStep (before ++ b :: after) _ = _
    rw [disasmStep, byteAt_head]
    dsimp only
    rcases hcode with rfl | hcode
    · rfl
    · rw [UInt8.lt_iff_toNat_lt] at hcode
      have hne {k : UInt8} (hk : k.toNat ≤ 0x4e) : b ≠ k := by
        rintro rfl
        exact absurd hcode (Nat.not_lt.mpr hk)
      have hdirect : ¬ (0x01 ≤ b ∧ b ≤ 0x4b) := fun h =>
        absurd (Nat.lt_of_lt_of_le hcode (UInt8.le_iff_toNat_le.mp h.2)) (by decide)
      rw [if_neg (hne (by decide)), if_neg hdirect, if_neg (hne (by decide)),
        if_neg (hne (by decide)), if_neg (hne (by decide))]
      rfl
  | push head data hhead =>
    obtain ⟨b, what, unit, hb, hstep⟩ := disasmStep_push before hhead (data ++ after)
    have hfits : ¬ (before.length : Int) + head.length + data.length >
        (before ++ (head ++ (data ++ after))).length := by
      simp only [List.length_append]
      omega
    have hcut := slice_append (before ++ head) data after
      (show (before.length : Int) + head.length + data.length =
        (before ++ head).length + data.length by rw [List.length_append, Nat.cast_add])
    rw [List.append_assoc, List.length_append, Nat.cast_add] at hcut
    have hfirst : head.headD 0 = b := by
      rw [List.headD_eq_head?_getD, hb]
      rfl
    show disasmStep (before ++ (head ++ data ++ after)) _ = _
    rw [List.append_assoc, hstep, takePush, if_neg hfits, hcut, Element.opAt, hfirst,
      Element.bytes, List.length_append, Nat.cast_add, Int.add_assoc]

/-- The disassembler reads elements one after another. -/
theorem scans_elements (elements : List Element) (before : Bytes) :
    Scans (disasmStep (before ++ bytesOf elements)) (before ++ bytesOf elements).length
      before.length (.ok (opsAt before.length elements)) := by
  induction elements generalizing before with
  | nil =>
    refine .finish ?_
    rw [show bytesOf [] = [] from rfl, List.append_nil]
    exact Int.lt_irrefl _
  | cons e elements ih =>
    have hpos := e.length_bytes_pos
    have hrest := ih (before ++ e.bytes)
    have hstep := disasmStep_element e before (bytesOf elements)
    have hplace : ((before ++ e.bytes).length : Int) = before.length + e.bytes.length := by
      rw [List.length_append, Nat.cast_add]
    rw [List.append_assoc, ← bytesOf_cons, hplace] at hrest
    rw [← bytesOf_cons] at hstep
    refine .round ?_ hstep hrest
    rw [bytesOf_cons, List.length_append, List.length_append]
    omega

theorem disassemble_elements (elements : List Element) :
    Disassemble (bytesOf elements) (.ok (opsAt 0 elements)) := scans_elements elements []

/-! ## Bodies -/

/-- What the emitter writes for the body of a method. -/
def bodyText (method : StackMethod) : HexText := (Artifact.emitOps method.ops .new).hex

/-- A body of whole opcodes and pushes, with balanced conditionals. -/
def WellFormedBody (method : StackMethod) : Prop :=
  ∃ elements, toHex (bytesOf elements) = bodyText method ∧ BalancedOps (opsAt 0 elements)

/-- Opcodes that the body of a method reads as on its own, at the place where it stands. -/
def IsBody (method : StackMethod) (ops : List Op) : Prop :=
  ∃ body own place, toHex body = bodyText method ∧ Disassemble body (.ok own) ∧
    ops = own.map (Op.shift place)

theorem bodyText_eq (method : StackMethod) :
    bodyText method = template (opsPieces method.ops) := (wrote_emitOps method.ops).hex .new

theorem isBody_opsAt {method : StackMethod} {elements : List Element}
    (h : toHex (bytesOf elements) = bodyText method) (place : Int) :
    IsBody method (opsAt place elements) := by
  refine ⟨_, _, place, h, disassemble_elements elements, ?_⟩
  rw [← opsAt_shift, Int.zero_add]

/-- A body is balanced wherever it stands. -/
theorem depthAfter_shift (distance : Int) (ops : List Op) (depth : Nat) :
    depthAfter depth (ops.map (Op.shift distance)) = depthAfter depth ops := by
  induction ops generalizing depth with
  | nil => rfl
  | cons op ops ih =>
    rw [List.map_cons, depthAfter, depthAfter, ih, ih, ih]
    rfl

theorem balancedOps_opsAt {elements : List Element} (h : BalancedOps (opsAt 0 elements))
    (place : Int) : BalancedOps (opsAt place elements) := by
  rw [← Int.zero_add place, opsAt_shift, BalancedOps, depthAfter_shift]
  exact h

/-! ## The numbers of the methods -/

/-- A name with more characters than another is not the other. -/
theorem name_ne_of_length {s t : String} (h : t.length < s.length) : s ≠ t := by
  rintro rfl
  exact absurd h (Nat.lt_irrefl _)

/-- An opcode pushes a number up to 16. -/
theorem exists_smallNumber {i : Nat} (h : i ≤ 16) :
    ∃ b : UInt8, (b = 0x00 ∨ 0x4e < b) ∧ toHex [b] = encodePushValue (.bigint i) ∧
      opcodeName b ≠ "OP_DUP" ∧
      ∀ offset, readSmallInt { name := opcodeName b, byte := b, offset, size := 1 } =
        some (i : Int) := by
  by_cases hzero : i = 0
  · subst hzero
    exact ⟨0x00, .inl rfl, rfl, by decide, fun _ => rfl⟩
  · have hpos : 1 ≤ i := Nat.one_le_iff_ne_zero.mpr hzero
    refine ⟨(0x50 + i).toUInt8, .inr ?_, ?_, ?_, fun offset => ?_⟩
    · interval_cases i <;> decide
    · interval_cases i <;> rfl
    · interval_cases i <;> decide
    · interval_cases i <;> rfl

/-- The push of a method's number is an element that reads as the number. -/
theorem exists_number {i : Nat} (h : i < 2 ^ 32) :
    ∃ e : Element, toHex e.bytes = encodePushValue (.bigint i) ∧
      ∀ offset, (e.opAt offset).name ≠ "OP_DUP" ∧
        readSmallInt (e.opAt offset) = some (i : Int) := by
  by_cases hsmall : i ≤ 16
  · obtain ⟨b, hcode, hhex, hname, hread⟩ := exists_smallNumber hsmall
    exact ⟨.op b hcode, hhex, fun offset => ⟨hname, hread offset⟩⟩
  · have hlength : (encodeNum i).length ≤ 75 := by
      rw [length_encodeNum_le_iff, Fits, Int.natAbs_natCast]
      exact Nat.lt_of_lt_of_le h (by decide)
    have hpos : 0 < (encodeNum i).length := by
      refine List.length_pos_of_ne_nil fun hnil => ?_
      have hdecode := decodeNum_encodeNum i
      rw [hnil, decodeNum_nil] at hdecode
      omega
    have hbyte : (encodeNum i).length.toUInt8.toNat = (encodeNum i).length := by
      rw [Nat.toUInt8, UInt8.toNat_ofNat']
      exact Nat.mod_eq_of_lt (by omega)
    have hlow : 0x01 ≤ (encodeNum i).length.toUInt8 := by
      rw [UInt8.le_iff_toNat_le, hbyte]
      exact hpos
    have hhigh : (encodeNum i).length.toUInt8 ≤ 0x4b := by
      rw [UInt8.le_iff_toNat_le, hbyte]
      exact hlength
    have hhead : Announces [(encodeNum i).length.toUInt8] (encodeNum i).length := by
      have hdirect := Announces.direct hlow hhigh
      rwa [hbyte] at hdirect
    refine ⟨.push _ _ hhead, ?_, fun offset => ?_⟩
    · show toHex ([_] ++ _) = encodePushBigIntHex i
      rw [encodePushBigIntHex, if_neg (by omega), if_neg (by omega), if_neg (by omega),
        encodeScriptNumber_eq, encodePushData]
      rw [if_neg (by omega), if_pos hlength]
      rfl
    · have hname : (Element.opAt offset (.push _ _ hhead)).name =
          "OP_PUSHBYTES_" ++ toString (encodeNum i).length.toUInt8.toNat := if_pos hhigh
      have hlong {t : String} (ht : t.length < 13) :
          (Element.opAt offset (.push _ _ hhead)).name ≠ t := by
        rw [hname]
        refine name_ne_of_length ?_
        rw [String.length_append]
        exact Nat.lt_of_lt_of_le ht (Nat.le_add_right 13 _)
      refine ⟨hlong (by decide), ?_⟩
      have hrange : ¬ (0x51 ≤ (encodeNum i).length.toUInt8 ∧
          (encodeNum i).length.toUInt8 ≤ 0x60) := by
        rw [UInt8.le_iff_toNat_le, hbyte]
        intro hboth
        exact absurd (Nat.le_trans hboth.1 hlength) (by decide)
      rw [readSmallInt, if_neg (hlong (by decide))]
      show (if 0x51 ≤ (encodeNum i).length.toUInt8 ∧ (encodeNum i).length.toUInt8 ≤ 0x60 then _
        else _) = _
      rw [if_neg hrange, if_neg (hlong (by decide))]
      exact congrArg some (decodeNum_encodeNum i)

/-! ## The chain -/

/-- An opcode other than a push. -/
def Element.code (b : UInt8) (h : 0x4e < b) : Element := .op b (.inr h)

theorem toHex_cons_element (e : Element) (elements : List Element) :
    toHex (bytesOf (e :: elements)) = toHex e.bytes ++ toHex (bytesOf elements) := by
  rw [bytesOf_cons, toHex_append]

/-- The test of a method, where an element pushes its number. -/
def testElements (number : Element) : List Element :=
  [.code 0x76 (by decide), number, .code 0x9c (by decide), .code 0x63 (by decide),
    .code 0x75 (by decide)]

theorem toHex_testElements {number : Element} {i : Nat}
    (h : toHex number.bytes = encodePushValue (.bigint i)) :
    toHex (bytesOf (testElements number)) =
      template [opcodePiece .OP_DUP, pushPiece (.bigint i), opcodePiece .OP_NUMEQUAL,
        opcodePiece .OP_IF, opcodePiece .OP_DROP] := by
  simp only [testElements, toHex_cons_element, template_cons, h]
  rfl

theorem isTest_testElements {number : Element} {i : Nat}
    (h : ∀ offset, readSmallInt (number.opAt offset) = some (i : Int)) (offset : Int) :
    IsTest i (opsAt offset (testElements number)) :=
  ⟨_, _, _, _, _, rfl, rfl, h _, rfl, rfl, rfl⟩

/-- The chain of the methods from the `i`-th on is elements, and reads as a chain of bodies. -/
theorem chain_casePieces (methods : List StackMethod) (i : Nat) (hne : methods ≠ [])
    (hwell : ∀ method ∈ methods, WellFormedBody method) (hcount : i + methods.length ≤ 2 ^ 32) :
    ∃ elements, toHex (bytesOf elements) = template (casePieces i methods) ∧
      ∀ offset, ∃ bodies, Chain i bodies (opsAt offset elements) ∧
        List.Forall₂ IsBody methods bodies := by
  induction methods generalizing i with
  | nil => exact absurd rfl hne
  | cons method rest ih =>
    rw [List.length_cons] at hcount
    obtain ⟨number, hnumber, hreads⟩ := exists_number (i := i) (by omega)
    obtain ⟨body, hbody, hbalanced⟩ := hwell method List.mem_cons_self
    cases rest with
    | nil =>
      refine ⟨number :: .code 0x9d (by decide) :: body, ?_, fun offset => ?_⟩
      · rw [toHex_cons_element, toHex_cons_element, hnumber, hbody, bodyText_eq, casePieces,
          template_cons, template_cons]
        rfl
      · have hverify : IsVerify i [number.opAt offset, (Element.code 0x9d (by decide)).opAt
            (offset + number.bytes.length)] :=
          ⟨_, _, rfl, (hreads offset).1, (hreads offset).2, rfl⟩
        exact ⟨[_], .last hverify, .cons (isBody_opsAt hbody _) .nil⟩
    | cons next rest =>
      obtain ⟨elements, hhex, hchain⟩ := ih (i + 1) (List.cons_ne_nil _ _)
        (fun m hm => hwell m (List.mem_cons_of_mem _ hm)) (by omega)
      refine ⟨testElements number ++ (body ++ .code 0x67 (by decide) :: elements), ?_,
        fun offset => ?_⟩
      · have hcases : casePieces i (method :: next :: rest) =
            [opcodePiece .OP_DUP, pushPiece (.bigint i), opcodePiece .OP_NUMEQUAL,
              opcodePiece .OP_IF, opcodePiece .OP_DROP] ++ opsPieces method.ops ++
              opcodePiece .OP_ELSE :: casePieces (i + 1) (next :: rest) := by
          rw [casePieces]
          rintro ⟨⟩
        rw [hcases, template_append, template_append, template_cons (opcodePiece .OP_ELSE), ← hhex,
          ← bodyText_eq, ← hbody, bytesOf_append, bytesOf_append, toHex_append, toHex_append,
          toHex_cons_element, toHex_testElements hnumber, List.append_assoc]
        rfl
      · rw [opsAt_append, opsAt_append, opsAt]
        obtain ⟨bodies, hbodies, hread⟩ := hchain (offset + (bytesOf (testElements number)).length +
          (bytesOf body).length + 1)
        exact ⟨_ :: bodies, .next (isTest_testElements (fun place => (hreads place).2) offset)
          (balancedOps_opsAt hbalanced _) rfl hbodies, .cons (isBody_opsAt hbody _) hread⟩

theorem isEnd_replicate (n : Nat) (offset : Int) :
    ∀ op ∈ opsAt offset (List.replicate n (.code 0x68 (by decide))), op.name = "OP_ENDIF" := by
  induction n generalizing offset with
  | zero => exact fun op hop => absurd hop List.not_mem_nil
  | succ n ih =>
    intro op hop
    rw [List.replicate_succ, opsAt] at hop
    rcases List.mem_cons.mp hop with rfl | hop
    · rfl
    · exact ih _ op hop

theorem toHex_ends (n : Nat) :
    toHex (bytesOf (List.replicate n (.code 0x68 (by decide)))) =
      template (List.replicate n (opcodePiece .OP_ENDIF)) := by
  induction n with
  | zero => rfl
  | succ n ih =>
    rw [List.replicate_succ, List.replicate_succ, toHex_cons_element, template_cons, ih]
    rfl

theorem length_opsAt (offset : Int) (elements : List Element) :
    (opsAt offset elements).length = elements.length := by
  induction elements generalizing offset with
  | nil => rfl
  | cons e elements ih => exact congrArg Nat.succ (ih _)

theorem map_index_streamsFrom (i : Nat) (bodies : List (List Op)) :
    (streamsFrom i bodies).map (·.index) = List.range' i bodies.length := by
  induction bodies generalizing i with
  | nil => rfl
  | cons body bodies ih => exact congrArg (i :: ·) (ih (i + 1))

theorem map_ops_streamsFrom (i : Nat) (bodies : List (List Op)) :
    (streamsFrom i bodies).map (·.ops) = bodies := by
  induction bodies generalizing i with
  | nil => rfl
  | cons body bodies ih => exact congrArg (body :: ·) (ih (i + 1))

/-- The splitter undoes the dispatch: the bodies come back in order, with their numbers.  An array
has fewer than `2 ^ 32` entries. -/
theorem splitMethods_dispatch (methods : List StackMethod) (hmany : 2 ≤ methods.length)
    (harray : methods.length < 2 ^ 32) (hwell : ∀ method ∈ methods, WellFormedBody method) :
    ∃ script ops result, toHex script = (emitMethodDispatch methods .new).hex ∧
      Disassemble script (.ok ops) ∧ splitMethods ops = some result ∧
      result.methodCount = methods.length ∧
      result.methods.map (·.index) = List.range methods.length ∧
      List.Forall₂ IsBody methods (result.methods.map (·.ops)) := by
  have hne : methods ≠ [] := by
    rintro rfl
    exact absurd hmany (by decide)
  obtain ⟨elements, hhex, hchain⟩ := chain_casePieces methods 0 hne hwell (by omega)
  obtain ⟨bodies, hbodies, hread⟩ := hchain 0
  have hlength := hread.length_eq
  have hwrote := ((wrote_emitCases methods 0).comp (wrote_emitEnds (methods.length - 1))).hex .new
  rw [template_append, ← hhex, ← toHex_ends, ← toHex_append, ← bytesOf_append] at hwrote
  have hsplit := splitMethods_chain hbodies (by omega) (isEnd_replicate (methods.length - 1)
    (0 + (bytesOf elements).length)) (by rw [length_opsAt, List.length_replicate, hlength])
  rw [← opsAt_append] at hsplit
  refine ⟨_, _, _, hwrote.symm, disassemble_elements _, hsplit, hlength.symm, ?_, ?_⟩
  · rw [map_index_streamsFrom, hlength, List.range_eq_range']
  · rw [map_ops_streamsFrom]
    exact hread

/-- Two methods with a conditional and a push. -/
theorem splitMethods_dispatch_two :
    ∃ script ops result, toHex script = (emitMethodDispatch
        [⟨"pick", [.ifOp [.push (.boolean true)] [.push (.boolean false)]]⟩,
          ⟨"same", [.dup, .opcode .OP_EQUAL]⟩] .new).hex ∧
      Disassemble script (.ok ops) ∧ splitMethods ops = some result ∧ result.methodCount = 2 ∧
      result.methods.map (·.index) = [0, 1] ∧
      List.Forall₂ IsBody [⟨"pick", [.ifOp [.push (.boolean true)] [.push (.boolean false)]]⟩,
          ⟨"same", [.dup, .opcode .OP_EQUAL]⟩] (result.methods.map (·.ops)) := by
  refine splitMethods_dispatch _ (Nat.le_refl 2) (by decide) fun method hmem => ?_
  rcases List.mem_cons.mp hmem with rfl | hmem
  · exact ⟨[.code 0x63 (by decide), .code 0x51 (by decide), .code 0x67 (by decide),
      .op 0x00 (.inl rfl), .code 0x68 (by decide)], rfl, by decide⟩
  · obtain rfl := List.mem_singleton.mp hmem
    exact ⟨[.code 0x76 (by decide), .code 0x87 (by decide)], rfl, by decide⟩

end Runar.Decompiler
