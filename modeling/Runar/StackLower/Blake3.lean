/-
  StackLower/Blake3.lean --- the opcodes of BLAKE3.

  WHAT THIS FILE IS FOR.  The sixteen words of the state are on top of the sixteen words of
  the block.  A quarter round rolls its four words to the top and leaves them there, so the
  generator keeps the depth of each word at compile time: `Tracks` says that these depths
  are right, and every roll, quarter round and move to the alt stack keeps it.
-/
import Runar.StackLower.Words
import Runar.StackLower.Sha256
import Runar.Crypto.Blake3

set_option autoImplicit false

namespace Runar.StackLower

open Script

namespace Blake3

open Crypto.Blake3

/-! ## The code generator -/

def BLAKE3_IV : List Nat :=
  [0x6a09e667, 0xbb67ae85, 0x3c6ef372, 0xa54ff53a,
   0x510e527f, 0x9b05688c, 0x1f83d9ab, 0x5be0cd19]

def MSG_PERMUTATION : List Nat := [2, 6, 3, 10, 7, 0, 4, 13, 1, 11, 12, 5, 9, 14, 15, 8]

def CHUNK_START : Nat := 1
def CHUNK_END : Nat := 2
def ROOT : Nat := 8

/-- The index of the word of the message that a round uses at each position. -/
def scheduleRow : Nat → List Nat
  | 0 => List.range 16
  | n + 1 => MSG_PERMUTATION.map fun i => (scheduleRow n).getD i 0

def computeMsgSchedule : List (List Nat) := (List.range 7).map scheduleRow

/-- The depths of the words of the state, and `-1` for a word that is gone. -/
structure StateTracker where
  positions : Nat → Int

namespace StateTracker

def new : StateTracker := ⟨fun i => 15 - i⟩

def depth (t : StateTracker) (wordIdx : Nat) : Nat := (t.positions wordIdx).toNat

def onRollToTop (t : StateTracker) (wordIdx : Nat) : StateTracker :=
  ⟨fun j =>
    if j = wordIdx then 0
    else if 0 ≤ t.positions j ∧ t.positions j < t.positions wordIdx then t.positions j + 1
    else t.positions j⟩

def set (t : StateTracker) (wordIdx : Nat) (position : Int) : StateTracker :=
  ⟨fun j => if j = wordIdx then position else t.positions j⟩

/-- A word leaves the stack from the top. -/
def onToAlt (t : StateTracker) (wordIdx : Nat) : StateTracker :=
  ⟨fun j =>
    if j = wordIdx then -1
    else if 0 ≤ t.positions j then t.positions j - 1
    else t.positions j⟩

end StateTracker

section Code

open Emitter

def rotateOps (rotD : Nat) : List StackOp :=
  if rotD = 16 then rotr16_LE else if rotD = 8 then rotr8_LE else rotr_LE_general rotD

def emitHalfG (rotD rotB : Nat) : List StackOp :=
  pick 3 ++ toAlt ++
    (roll 3 ++ roll 4 ++ addN 3 ++
      [.dup, .rot] ++ binOp .OP_XOR ++ rotateOps rotD ++
      [.dup] ++ roll 3 ++ add32) ++
    fromAlt ++
    ([.over] ++ binOp .OP_XOR ++ rotr_LE_general rotB ++ [.swap, .rot])

def emitG : List StackOp := toAlt ++ emitHalfG 16 12 ++ fromAlt ++ emitHalfG 8 7

/-- Roll words to the top, one after the other. -/
def rollAll (t : StateTracker) : List Nat → List StackOp × StateTracker
  | [] => ([], t)
  | idx :: rest =>
    let (ops, after) := rollAll (t.onRollToTop idx) rest
    (roll (t.depth idx) ++ ops, after)

def emitGCall (t : StateTracker) (call : Call) : List StackOp × StateTracker :=
  let (rolls, rolled) := rollAll t [call.a, call.b, call.c, call.d]
  (rolls ++ pick (16 + (15 - call.x)) ++ pick (16 + (15 - call.y) + 1) ++ emitG,
    (((rolled.set call.a 3).set call.b 2).set call.c 1).set call.d 0)

def emitGCalls (t : StateTracker) : List Call → List StackOp × StateTracker
  | [] => ([], t)
  | call :: rest =>
    let (ops, next) := emitGCall t call
    let (more, after) := emitGCalls next rest
    (ops ++ more, after)

/-- The calls of a round, the columns before the diagonals. -/
def gCalls (s : List Nat) : List Call :=
  [⟨0, 4, 8, 12, s.getD 0 0, s.getD 1 0⟩,
   ⟨1, 5, 9, 13, s.getD 2 0, s.getD 3 0⟩,
   ⟨2, 6, 10, 14, s.getD 4 0, s.getD 5 0⟩,
   ⟨3, 7, 11, 15, s.getD 6 0, s.getD 7 0⟩,
   ⟨0, 5, 10, 15, s.getD 8 0, s.getD 9 0⟩,
   ⟨1, 6, 11, 12, s.getD 10 0, s.getD 11 0⟩,
   ⟨2, 7, 8, 13, s.getD 12 0, s.getD 13 0⟩,
   ⟨3, 4, 9, 14, s.getD 14 0, s.getD 15 0⟩]

/-- The calls of all rounds. -/
def roundCalls (numRounds : Nat) : List Call :=
  (List.range numRounds).flatMap fun round => gCalls (computeMsgSchedule.getD round [])

/-- The words in their own order onto the alt stack, the last one first. -/
def reorder (t : StateTracker) : List Nat → List StackOp
  | [] => []
  | idx :: rest => roll (t.depth idx) ++ toAlt ++ reorder ((t.onRollToTop idx).onToAlt idx) rest

def loadState (blockLenFromAlt : Bool) : List StackOp :=
  (List.replicate 15 split4).flatten ++ roll 16 ++ toAlt ++ fromAlt ++
    (List.replicate 7 split4).flatten ++
    (List.range 4).flatMap (fun i => pushB (Sha256.u32ToLE (BLAKE3_IV.getD i 0))) ++
    pushB (Sha256.u32ToLE 0) ++ pushB (Sha256.u32ToLE 0) ++
    (if blockLenFromAlt then fromAlt else pushB (Sha256.u32ToLE 64)) ++
    pushB (Sha256.u32ToLE (CHUNK_START ||| CHUNK_END ||| ROOT))

def packOutput : List StackOp :=
  (List.range 8).flatMap (fun k => roll (8 - k) ++ binOp .OP_XOR ++ toAlt) ++
    (List.replicate 8 fromAlt).flatten ++ (List.replicate 7 (binOp .OP_CAT)).flatten ++
    (List.replicate 16 [.swap, .drop]).flatten

def generateCompressOps (numRounds : Nat) (blockLenFromAlt : Bool) : List StackOp :=
  let (rounds, tracker) := emitGCalls .new (roundCalls numRounds)
  loadState blockLenFromAlt ++ rounds ++ reorder tracker (List.range 16).reverse ++
    (List.replicate 16 fromAlt).flatten ++ packOutput

def emitBlake3Compress : List StackOp := generateCompressOps 7 false

def emitBlake3Hash : List StackOp :=
  [.opcode .OP_SIZE, .opcode .OP_DUP] ++ pushI 4 ++ binOp .OP_NUM2BIN ++ toAlt ++
    pushI 64 ++ [.swap] ++ binOp .OP_SUB ++ pushI 0 ++ [.swap] ++ binOp .OP_NUM2BIN ++
    binOp .OP_CAT ++ pushB (BLAKE3_IV.flatMap Sha256.u32ToLE) ++ [.swap] ++
    generateCompressOps 7 true

end Code

/-! ## The depths of the words -/

section Tracking

/-- The depths are right for the words of the state, from the top of the stack on. -/
def Tracks (t : StateTracker) (order : List Nat) : Prop :=
  order.Nodup ∧ ∀ j ∈ order, t.positions j = (order.idxOf j : Nat)

variable {t : StateTracker} {order : List Nat} {i : Nat}

theorem Tracks.depth_eq (h : Tracks t order) {front back : List Nat}
    (horder : order = front ++ i :: back) (hi : i ∉ front) : t.depth i = front.length := by
  subst horder
  rw [StateTracker.depth, h.2 i (by simp), List.idxOf_append_of_notMem hi, List.idxOf_cons_self]
  rfl

/-- A word that is rolled to the top. -/
theorem Tracks.onRollToTop (h : Tracks t order) (hi : i ∈ order) :
    Tracks (t.onRollToTop i) (i :: order.erase i) := by
  obtain ⟨front, back, hfront, rfl, herase⟩ := List.exists_erase_eq hi
  have hnodup : (i :: (front ++ back)).Nodup := by
    have hperm : (front ++ i :: back).Perm (i :: (front ++ back)) := List.perm_middle
    exact hperm.nodup_iff.mp h.1
  have hdepth : t.positions i = (front.length : Nat) := by
    rw [h.2 i hi, List.idxOf_append_of_notMem hfront, List.idxOf_cons_self, Nat.add_zero]
  rw [herase]
  refine ⟨hnodup, fun j hj => ?_⟩
  by_cases hij : j = i
  · subst hij
    simp [StateTracker.onRollToTop]
  have hmem : j ∈ front ++ back := (List.mem_cons.mp hj).resolve_left hij
  rw [List.idxOf_cons_ne _ (Ne.symm hij)]
  by_cases hjfront : j ∈ front
  · have hpos : t.positions j = (front.idxOf j : Nat) := by
      rw [h.2 j (by simp [hjfront]), List.idxOf_append_of_mem hjfront]
    have hlt : front.idxOf j < front.length := List.idxOf_lt_length_of_mem hjfront
    rw [List.idxOf_append_of_mem hjfront]
    simp only [StateTracker.onRollToTop, hij, if_false, hpos, hdepth]
    rw [if_pos (by omega)]
    omega
  · have hjback : j ∈ back := (List.mem_append.mp hmem).resolve_left hjfront
    have hpos : t.positions j = (front.length + (back.idxOf j + 1) : Nat) := by
      rw [h.2 j (by simp [hjback]), List.idxOf_append_of_notMem hjfront,
        List.idxOf_cons_ne _ (Ne.symm hij)]
    rw [List.idxOf_append_of_notMem hjfront]
    simp only [StateTracker.onRollToTop, hij, if_false, hpos, hdepth]
    rw [if_neg (by omega)]
    omega

/-- The word on top leaves. -/
theorem Tracks.onToAlt (h : Tracks t (i :: order)) : Tracks (t.onToAlt i) order := by
  obtain ⟨hi, hnodup⟩ := List.nodup_cons.mp h.1
  refine ⟨hnodup, fun j hj => ?_⟩
  have hij : j ≠ i := fun heq => hi (heq ▸ hj)
  have hpos := h.2 j (List.mem_cons_of_mem i hj)
  rw [List.idxOf_cons_ne _ (Ne.symm hij)] at hpos
  simp only [StateTracker.onToAlt, hij, if_false, hpos]
  rw [if_pos (by omega)]
  omega

/-- To set a depth to what it is changes nothing. -/
theorem StateTracker.set_eq_self {i : Nat} {position : Int} (h : t.positions i = position) :
    t.set i position = t := by
  cases t
  simp only [StateTracker.set, StateTracker.mk.injEq]
  funext j
  split
  · next hij => rw [hij, ← h]
  · rfl

theorem tracks_new : Tracks .new (List.range 16).reverse := by
  refine ⟨by decide, ?_⟩
  decide

end Tracking

/-! ## Quarter rounds -/

section Quarters

variable (cfg : Config) (slots : Slots)

theorem runsAs_xor (x y : Word) :
    RunsAs cfg slots (Emitter.binOp .OP_XOR) [le y, le x] (.ok [le (x ^^^ y)]) :=
  Sha256.runsAs_bitwise cfg slots rfl rfl (bitwise_xor x y)

theorem runsAs_rotateOps (x : Word) {rotD : Nat} (h : rotD < 32) :
    RunsAs cfg slots (rotateOps rotD) [le x] (.ok [le (x.rotateRight rotD)]) := by
  rw [rotateOps]
  split
  · next h16 => exact h16 ▸ runsAs_rotr16_LE cfg slots x
  · split
    · next h8 => exact h8 ▸ runsAs_rotr8_LE cfg slots x
    · exact runsAs_rotr_LE_general cfg slots x h

/-- The items of a quarter, its last word on top. -/
abbrev Quarter.items (q : Quarter) : List Bytes := [le q.d, le q.c, le q.b, le q.a]

theorem runsAs_emitHalfG (q : Quarter) (m : Word) (rotD rotB : Nat) (hd : rotD < 32)
    (hb : rotB < 32) :
    RunsAs cfg slots (emitHalfG rotD rotB) (le m :: Quarter.items q)
      (.ok (Quarter.items (q.half m rotD rotB))) := by
  obtain ⟨a, b, c, d⟩ := q
  let a' := a + b + m
  let d' := (d ^^^ a').rotateRight rotD
  let c' := c + d'
  let b' := (b ^^^ c').rotateRight rotB
  have hpick := RunsOn.of_runsAs (runsAs_pick cfg slots 3 [le m, le d, le c, le b, le a] rfl) []
  have hsave := runsOn_toAlt cfg slots (le b) [le m, le d, le c, le b, le a] []
  have hrollB := (runsAs_roll cfg slots [le m, le d, le c] (le b) (d := 3) rfl).frame [le a]
  have hrollA := runsAs_roll cfg slots [le b, le m, le d, le c] (le a) (d := 4) rfl
  have hadd := (runsAs_addN cfg slots a [b, m] (by simp)).frame [le d, le c]
  have hsum : a + [b, m].sum = a' := by
    simp only [a', List.sum_cons, List.sum_nil]
    ac_rfl
  rw [hsum] at hadd
  have hdup := (runsAs_dup cfg slots (le a')).frame [le d, le c]
  have hrot := (runsAs_rot cfg slots (le a') (le a') (le d)).frame [le c]
  have hxor := (runsAs_xor cfg slots a' d).frame [le a', le c]
  rw [BitVec.xor_comm] at hxor
  have hrotD := (runsAs_rotateOps cfg slots (d ^^^ a') hd).frame [le a', le c]
  have hdup' := (runsAs_dup cfg slots (le d')).frame [le a', le c]
  have hrollC := runsAs_roll cfg slots [le d', le d', le a'] (le c) (d := 3) rfl
  have hadd' := (runsAs_add32 cfg slots d' c).frame [le d', le a']
  have hfirst := RunsOn.of_runsAs (((((((((hrollB.append_ok hrollA).append_ok hadd).append_ok
    (hdup.append_ok hrot)).append_ok hxor).append_ok hrotD).append_ok hdup').append_ok
    hrollC).append_ok hadd')) [le b]
  have hback := runsOn_fromAlt cfg slots (le b) [le c', le d', le a'] []
  have hover := (runsAs_over cfg slots (le b) (le c')).frame [le d', le a']
  have hxor' := (runsAs_xor cfg slots b c').frame [le c', le d', le a']
  have hrotB := (runsAs_rotr_LE_general cfg slots (b ^^^ c') hb).frame [le c', le d', le a']
  have hswap := (runsAs_swap cfg slots (le b') (le c')).frame [le d', le a']
  have hrot' := (runsAs_rot cfg slots (le c') (le b') (le d')).frame [le a']
  have hsecond := RunsOn.of_runsAs (((hover.append_ok hxor').append_ok hrotB).append_ok
    (hswap.append_ok hrot')) []
  refine RunsOn.runsAs ?_
  exact (((hpick.append_ok hsave).append_ok hfirst).append_ok hback).append_ok hsecond

theorem runsAs_emitG (q : Quarter) (x y : Word) :
    RunsAs cfg slots emitG (le y :: le x :: Quarter.items q) (.ok (Quarter.items (q.mix x y))) := by
  have hsave := runsOn_toAlt cfg slots (le y) (le x :: Quarter.items q) []
  have hfirst := RunsOn.of_runsAs (runsAs_emitHalfG cfg slots q x 16 12 (by decide)
    (by decide)) [le y]
  have hback := runsOn_fromAlt cfg slots (le y) (Quarter.items (q.half x 16 12)) []
  have hsecond := RunsOn.of_runsAs (runsAs_emitHalfG cfg slots (q.half x 16 12) y 8 7
    (by decide) (by decide)) []
  exact RunsOn.runsAs (((hsave.append_ok hfirst).append_ok hback).append_ok hsecond)

end Quarters

/-! ## Calls -/

section Calls

variable (cfg : Config) (slots : Slots)

/-- The items of the state in the order in which they are. -/
def stateItems (v : List Word) (order : List Nat) : List Bytes :=
  order.map fun j => le (v.getD j 0)

/-- The items of the words of the block, the last one on top. -/
def messageItems (m : List Word) : List Bytes := (m.map le).reverse

def rolledOrder (order idxs : List Nat) : List Nat := idxs.foldl (fun o i => i :: o.erase i) order

theorem rolledOrder_perm {order idxs : List Nat} (h : ∀ i ∈ idxs, i ∈ order) :
    (rolledOrder order idxs).Perm order := by
  induction idxs generalizing order with
  | nil => exact .refl _
  | cons i idxs ih =>
    obtain ⟨hi, hidxs⟩ := List.forall_mem_cons.mp h
    have hperm : (i :: order.erase i).Perm order := (List.perm_cons_erase hi).symm
    exact (ih fun j hj => hperm.mem_iff.mpr (hidxs j hj)).trans hperm

theorem runsAs_rollWord {t : StateTracker} {order : List Nat} {i : Nat} (h : Tracks t order)
    (hi : i ∈ order) (v : List Word) :
    RunsAs cfg slots (Emitter.roll (t.depth i)) (stateItems v order)
      (.ok (stateItems v (i :: order.erase i))) := by
  obtain ⟨front, back, hfront, horder, herase⟩ := List.exists_erase_eq hi
  have hroll := (runsAs_roll cfg slots (stateItems v front) (le (v.getD i 0))
    (d := t.depth i) (by rw [h.depth_eq horder hfront, stateItems, List.length_map])).frame
    (stateItems v back)
  have hbefore : stateItems v order =
      stateItems v front ++ [le (v.getD i 0)] ++ stateItems v back := by
    rw [horder]
    simp [stateItems]
  have hafter : stateItems v (i :: order.erase i) =
      le (v.getD i 0) :: stateItems v front ++ stateItems v back := by
    rw [herase]
    simp [stateItems]
  rw [hbefore, hafter]
  exact hroll

theorem runsAs_rollAll {t : StateTracker} {order : List Nat} (h : Tracks t order)
    {idxs : List Nat} (hidxs : ∀ i ∈ idxs, i ∈ order) (v : List Word) :
    Tracks (rollAll t idxs).2 (rolledOrder order idxs) ∧
      RunsAs cfg slots (rollAll t idxs).1 (stateItems v order)
        (.ok (stateItems v (rolledOrder order idxs))) := by
  induction idxs generalizing t order with
  | nil => exact ⟨h, .nil _⟩
  | cons i idxs ih =>
    obtain ⟨hi, hrest⟩ := List.forall_mem_cons.mp hidxs
    have hperm : (i :: order.erase i).Perm order := (List.perm_cons_erase hi).symm
    obtain ⟨htracks, hruns⟩ := ih (h.onRollToTop hi) fun j hj => hperm.mem_iff.mpr (hrest j hj)
    exact ⟨htracks, (runsAs_rollWord cfg slots h hi v).append_ok hruns⟩

/-- A call at four words of the state and two of the block. -/
def Valid (call : Call) : Prop :=
  [call.a, call.b, call.c, call.d].Nodup ∧ (∀ i ∈ [call.a, call.b, call.c, call.d], i < 16) ∧
    call.x < 16 ∧ call.y < 16

instance (call : Call) : Decidable (Valid call) := by
  unfold Valid
  infer_instance

theorem getD_set (v : List Word) {i : Nat} (hi : i < v.length) (x : Word) (j : Nat) :
    (v.set i x).getD j 0 = if i = j then x else v.getD j 0 := by
  rw [List.getD_eq_getElem?_getD, List.getD_eq_getElem?_getD, List.getElem?_set]
  split
  · next hij =>
    subst hij
    rfl
  · rfl

theorem length_mixAt (m v : List Word) (call : Call) : (mixAt m v call).length = v.length := by
  simp [mixAt]

/-- The words that a call sees. -/
def Call.quarter (call : Call) (v : List Word) : Quarter :=
  ⟨v.getD call.a 0, v.getD call.b 0, v.getD call.c 0, v.getD call.d 0⟩

theorem stateItems_mixAt {m v : List Word} {call : Call} (hcall : Valid call)
    (hv : v.length = 16) {rest : List Nat}
    (hnodup : (call.d :: call.c :: call.b :: call.a :: rest).Nodup) :
    stateItems (mixAt m v call) (call.d :: call.c :: call.b :: call.a :: rest) =
      Quarter.items ((Call.quarter call v).mix (m.getD call.x 0) (m.getD call.y 0)) ++
        stateItems v rest := by
  obtain ⟨-, hlt, -⟩ := hcall
  have hget : ∀ j, (mixAt m v call).getD j 0 =
      if call.d = j then ((Call.quarter call v).mix (m.getD call.x 0) (m.getD call.y 0)).d
      else if call.c = j then ((Call.quarter call v).mix (m.getD call.x 0) (m.getD call.y 0)).c
      else if call.b = j then ((Call.quarter call v).mix (m.getD call.x 0) (m.getD call.y 0)).b
      else if call.a = j then ((Call.quarter call v).mix (m.getD call.x 0) (m.getD call.y 0)).a
      else v.getD j 0 := by
    intro j
    have hbound : ∀ i ∈ [call.a, call.b, call.c, call.d], i < v.length := fun i hi =>
      hv ▸ hlt i hi
    rw [mixAt, getD_set _ (by simpa using hbound call.d (by simp)),
      getD_set _ (by simpa using hbound call.c (by simp)),
      getD_set _ (by simpa using hbound call.b (by simp)),
      getD_set _ (by simpa using hbound call.a (by simp))]
    rfl
  simp only [List.nodup_cons, List.mem_cons, not_or] at hnodup
  obtain ⟨⟨hdc, hdb, hda, hd⟩, ⟨hcb, hca, hc⟩, ⟨hba, hb⟩, ha, -⟩ := hnodup
  have hrest : stateItems (mixAt m v call) rest = stateItems v rest := by
    refine List.map_congr_left fun j hj => ?_
    rw [hget, if_neg fun h : call.d = j => hd (h ▸ hj), if_neg fun h : call.c = j => hc (h ▸ hj),
      if_neg fun h : call.b = j => hb (h ▸ hj), if_neg fun h : call.a = j => ha (h ▸ hj)]
  rw [stateItems, List.map_cons, List.map_cons, List.map_cons, List.map_cons, hget, hget, hget,
    hget, if_pos rfl, if_neg hdc, if_pos rfl, if_neg hdb, if_neg hcb, if_pos rfl, if_neg hda,
    if_neg hca, if_neg hba, if_pos rfl]
  show _ :: _ :: _ :: _ :: stateItems (mixAt m v call) rest = _
  rw [hrest]
  rfl

theorem getElem?_messageItems {m : List Word} (hm : m.length = 16) {i : Nat} (hi : i < 16) :
    (messageItems m)[15 - i]? = some (le (m.getD i 0)) := by
  rw [messageItems, List.getElem?_reverse (by rw [List.length_map, hm]; omega), List.length_map, hm,
    show 16 - 1 - (15 - i) = i by omega, List.getElem?_map, List.getD_eq_getElem?_getD,
    List.getElem?_eq_getElem (by rw [hm]; exact hi)]
  rfl

/-- A call leaves its words on top, and the tracker knows. -/
theorem runsAs_emitGCall {t : StateTracker} {order : List Nat} (h : Tracks t order)
    (hperm : order.Perm (List.range 16)) {m v : List Word} (hv : v.length = 16)
    (hm : m.length = 16) {call : Call} (hcall : Valid call) :
    ∃ order', order'.Perm (List.range 16) ∧ Tracks (emitGCall t call).2 order' ∧
      RunsAs cfg slots (emitGCall t call).1 (stateItems v order ++ messageItems m)
        (.ok (stateItems (mixAt m v call) order' ++ messageItems m)) := by
  have ⟨hnodup, hlt, hx, hy⟩ := hcall
  have hmem : ∀ i ∈ [call.a, call.b, call.c, call.d], i ∈ order := fun i hi =>
    hperm.mem_iff.mpr (List.mem_range.mpr (hlt i hi))
  obtain ⟨rest, horder⟩ : ∃ rest, rolledOrder order [call.a, call.b, call.c, call.d] =
      call.d :: call.c :: call.b :: call.a :: rest := by
    simp only [List.nodup_cons, List.mem_cons, not_or] at hnodup
    obtain ⟨⟨hab, hac, had, -⟩, ⟨hbc, hbd, -⟩, ⟨hcd, -⟩, -⟩ := hnodup
    refine ⟨(((order.erase call.a).erase call.b).erase call.c).erase call.d, ?_⟩
    simp [rolledOrder, hab, hac, had, hbc, hbd, hcd]
  have hrolled := rolledOrder_perm hmem
  obtain ⟨htracks, hruns⟩ := runsAs_rollAll cfg slots h hmem v
  rw [horder] at hrolled htracks hruns
  have hlength : (stateItems v (call.d :: call.c :: call.b :: call.a :: rest)).length = 16 := by
    rw [stateItems, List.length_map, hrolled.length_eq, hperm.length_eq, List.length_range]
  have hwords : ∀ (j : Nat), (stateItems v (call.d :: call.c :: call.b :: call.a :: rest) ++
      messageItems m)[16 + j]? = (messageItems m)[j]? := by
    intro j
    rw [List.getElem?_append_right (by omega), hlength, Nat.add_sub_cancel_left]
  have hpickX := runsAs_pick cfg slots (16 + (15 - call.x))
    (stateItems v (call.d :: call.c :: call.b :: call.a :: rest) ++ messageItems m)
    ((hwords _).trans (getElem?_messageItems hm hx))
  have hpickY := runsAs_pick cfg slots (16 + (15 - call.y) + 1)
    (le (m.getD call.x 0) :: (stateItems v (call.d :: call.c :: call.b :: call.a :: rest) ++
      messageItems m)) ((hwords _).trans (getElem?_messageItems hm hy))
  have hmix := (runsAs_emitG cfg slots (Call.quarter call v) (m.getD call.x 0)
    (m.getD call.y 0)).frame (stateItems v rest ++ messageItems m)
  refine ⟨call.d :: call.c :: call.b :: call.a :: rest, hrolled.trans hperm, ?_, ?_⟩
  · have hposition := htracks.2
    simp only [List.nodup_cons, List.mem_cons, not_or] at hnodup
    obtain ⟨⟨hab, hac, had, -⟩, ⟨hbc, hbd, -⟩, ⟨hcd, -⟩, -⟩ := hnodup
    have hd : (rollAll t [call.a, call.b, call.c, call.d]).2.positions call.d = 0 := by
      rw [hposition call.d (by simp), List.idxOf_cons_self]
      rfl
    have hc : (rollAll t [call.a, call.b, call.c, call.d]).2.positions call.c = 1 := by
      rw [hposition call.c (by simp), List.idxOf_cons_ne _ (Ne.symm hcd), List.idxOf_cons_self]
      rfl
    have hb : (rollAll t [call.a, call.b, call.c, call.d]).2.positions call.b = 2 := by
      rw [hposition call.b (by simp), List.idxOf_cons_ne _ (Ne.symm hbd),
        List.idxOf_cons_ne _ (Ne.symm hbc), List.idxOf_cons_self]
      rfl
    have ha : (rollAll t [call.a, call.b, call.c, call.d]).2.positions call.a = 3 := by
      rw [hposition call.a (by simp), List.idxOf_cons_ne _ (Ne.symm had),
        List.idxOf_cons_ne _ (Ne.symm hac), List.idxOf_cons_ne _ (Ne.symm hab),
        List.idxOf_cons_self]
      rfl
    show Tracks (((((rollAll t [call.a, call.b, call.c, call.d]).2.set call.a 3).set
      call.b 2).set call.c 1).set call.d 0) _
    rw [StateTracker.set_eq_self ha, StateTracker.set_eq_self hb,
      StateTracker.set_eq_self hc, StateTracker.set_eq_self hd]
    exact htracks
  · rw [stateItems_mixAt hcall hv htracks.1, List.append_assoc]
    exact (((hruns.frame (messageItems m)).append_ok hpickX).append_ok hpickY).append_ok hmix

theorem runsAs_emitGCalls {t : StateTracker} {order : List Nat} (h : Tracks t order)
    (hperm : order.Perm (List.range 16)) {m v : List Word} (hv : v.length = 16)
    (hm : m.length = 16) {calls : List Call} (hcalls : ∀ call ∈ calls, Valid call) :
    ∃ order', order'.Perm (List.range 16) ∧ Tracks (emitGCalls t calls).2 order' ∧
      RunsAs cfg slots (emitGCalls t calls).1 (stateItems v order ++ messageItems m)
        (.ok (stateItems (calls.foldl (mixAt m) v) order' ++ messageItems m)) := by
  induction calls generalizing t order v with
  | nil => exact ⟨order, hperm, h, .nil _⟩
  | cons call calls ih =>
    obtain ⟨hcall, hrest⟩ := List.forall_mem_cons.mp hcalls
    obtain ⟨order₁, hperm₁, htracks₁, hruns₁⟩ := runsAs_emitGCall cfg slots h hperm hv hm hcall
    obtain ⟨order₂, hperm₂, htracks₂, hruns₂⟩ := ih htracks₁ hperm₁
      (v := mixAt m v call) (by rw [length_mixAt, hv]) hrest
    exact ⟨order₂, hperm₂, htracks₂, hruns₁.append_ok hruns₂⟩

end Calls

/-! ## The schedule of the message -/

section Schedule

/-- The words of the block in the order of a round. -/
def scheduled (m : List Word) (n : Nat) : List Word := (scheduleRow n).map fun i => m.getD i 0

theorem length_scheduleRow (n : Nat) : (scheduleRow n).length = 16 := by
  cases n <;> simp [scheduleRow, MSG_PERMUTATION]

theorem getD_scheduled (m : List Word) (n : Nat) {i : Nat} (hi : i < 16) :
    (scheduled m n).getD i 0 = m.getD ((scheduleRow n).getD i 0) 0 := by
  have hlt : i < (scheduleRow n).length := by rw [length_scheduleRow]; exact hi
  have hrow : (scheduleRow n).getD i 0 = (scheduleRow n)[i] := by
    rw [List.getD_eq_getElem?_getD, List.getElem?_eq_getElem hlt]
    rfl
  rw [hrow, scheduled, List.getD_eq_getElem?_getD, List.getElem?_map,
    List.getElem?_eq_getElem hlt]
  rfl

/-- The message is permuted once more. -/
theorem scheduled_succ (m : List Word) (n : Nat) :
    scheduled m (n + 1) = permute (scheduled m n) := by
  have hlt : ∀ i ∈ MSG_PERMUTATION, i < 16 := by decide
  rw [scheduled, scheduleRow, List.map_map, permute]
  show MSG_PERMUTATION.map _ = MSG_PERMUTATION.map _
  exact List.map_congr_left fun i hi => (getD_scheduled m n (hlt i hi)).symm

/-- A round on the permuted words is a round that takes the words in that order. -/
theorem round_scheduled (m v : List Word) (n : Nat) :
    Crypto.Blake3.round v (scheduled m n) = (calls (scheduleRow n)).foldl (mixAt m) v := by
  have hcalls : calls (scheduleRow n) = (calls (List.range 16)).map fun call =>
      { call with x := (scheduleRow n).getD call.x 0, y := (scheduleRow n).getD call.y 0 } := rfl
  have hlt : ∀ call ∈ calls (List.range 16), call.x < 16 ∧ call.y < 16 := by decide
  rw [hcalls, List.foldl_map, Crypto.Blake3.round]
  refine List.foldl_ext _ _ _ fun w call hcall => ?_
  obtain ⟨hx, hy⟩ := hlt call hcall
  rw [mixAt, mixAt, getD_scheduled m n hx, getD_scheduled m n hy]

theorem rounds_scheduled (m v : List Word) (first n : Nat) :
    Crypto.Blake3.rounds v (scheduled m first) n =
      ((List.range' first n).flatMap fun k => calls (scheduleRow k)).foldl (mixAt m) v := by
  induction n generalizing v first with
  | zero => rfl
  | succ n ih =>
    rw [Crypto.Blake3.rounds, round_scheduled, ← scheduled_succ, ih, List.range'_succ,
      List.flatMap_cons, List.foldl_append]

theorem scheduled_zero {m : List Word} (hm : m.length = 16) : scheduled m 0 = m := by
  refine List.ext_getElem (by rw [scheduled, List.length_map, length_scheduleRow, hm]) ?_
  intro i hi hi'
  simp [scheduled, scheduleRow, List.getD_eq_getElem?_getD, hi']

/-- The calls of the generator make the rounds of the hash. -/
theorem foldl_roundCalls {m : List Word} (hm : m.length = 16) (v : List Word) :
    (roundCalls 7).foldl (mixAt m) v = Crypto.Blake3.rounds v m 7 := by
  have h := rounds_scheduled m v 0 7
  rw [scheduled_zero hm] at h
  rw [h]
  rfl

theorem valid_of_mem_roundCalls : ∀ call ∈ roundCalls 7, Valid call := by
  decide

end Schedule

/-! ## Before and after the rounds -/

section Packing

variable (cfg : Config) (slots : Slots)

theorem words_map_le {bytes : Bytes} {n : Nat} (h : 4 * n ≤ bytes.length) :
    (words bytes n).map le = pieces bytes n := by
  rw [words, List.map_map, pieces]
  refine List.map_congr_left fun i hi => ?_
  have hlen := length_of_mem_pieces bytes n h _ (List.mem_map.mpr ⟨i, hi, rfl⟩)
  have hword := le_ofBytes (x := ((bytes.drop (4 * i)).take 4).reverse) (by simpa using hlen)
  rwa [Crypto.Sha256.ofBytes, List.reverse_reverse] at hword

theorem runsAs_pushOnto (bytes : Bytes) (items : List Bytes) :
    RunsAs cfg slots (Emitter.pushB bytes) items (.ok (bytes :: items)) :=
  (Sha256.runsAs_pushB cfg slots bytes).frame items

theorem runsAs_pushesOnto (f : Nat → Bytes) (n : Nat) (items : List Bytes) :
    RunsAs cfg slots ((List.range n).flatMap fun i => Emitter.pushB (f i)) items
      (.ok (((List.range n).map f).reverse ++ items)) := by
  induction n with
  | zero => exact .nil _
  | succ n ih =>
    have hpush := runsAs_pushOnto cfg slots (f n) (((List.range n).map f).reverse ++ items)
    rw [List.range_succ, List.flatMap_append, List.flatMap_singleton, List.map_append,
      List.reverse_append]
    exact ih.append_ok hpush

theorem length_start {cv : List Word} (h : cv.length = 8) (low high length flags : Word) :
    (start cv low high length flags).length = 16 := by
  simp [start, iv, h]

theorem initial_words : (List.range 4).map (fun i => Sha256.u32ToLE (BLAKE3_IV.getD i 0)) =
    (iv.take 4).map le := by
  have hvalues : (List.range 4).map (fun i => BLAKE3_IV.getD i 0) =
      (iv.take 4).map BitVec.toNat := by decide
  have hbytes := congrArg (List.map (leBytes 4)) hvalues
  rwa [List.map_map, List.map_map] at hbytes

theorem flags_word : Sha256.u32ToLE (CHUNK_START ||| CHUNK_END ||| ROOT) = le rootFlags :=
  congrArg (leBytes 4) (by decide : CHUNK_START ||| CHUNK_END ||| ROOT = rootFlags.toNat)

theorem zero_word : Sha256.u32ToLE 0 = le 0 :=
  congrArg (leBytes 4) (by decide : 0 = (0 : Word).toNat)

theorem length_word : Sha256.u32ToLE 64 = le 64 :=
  congrArg (leBytes 4) (by decide : 64 = (64 : Word).toNat)

/-- The state and the block, with the length of the block from the alt stack or fixed. -/
theorem runsOn_loadState {block cv : Bytes} (hblock : block.length = 64) (hcv : cv.length = 32)
    (blockLenFromAlt : Bool) (length : Word) (h : blockLenFromAlt = false → length = 64)
    (alt : List Bytes) :
    RunsOn cfg slots (loadState blockLenFromAlt)
      ⟨[block, cv], if blockLenFromAlt then le length :: alt else alt⟩
      (.ok ⟨((start (words cv 8) 0 0 length rootFlags).map le).reverse ++
        messageItems (words block 16), alt⟩) := by
  have hm : messageItems (words block 16) = (pieces block 16).reverse := by
    rw [messageItems, words_map_le (by omega)]
  have hblockWords := (runsAs_unpack cfg slots 15 hblock).frame [cv]
  rw [← hm] at hblockWords
  have hroll := runsAs_roll cfg slots (messageItems (words block 16)) cv (d := 16)
    (by simp [messageItems, words])
  have hsave := runsOn_toAlt cfg slots cv (messageItems (words block 16))
    (if blockLenFromAlt then le length :: alt else alt)
  have hback := runsOn_fromAlt cfg slots cv (messageItems (words block 16))
    (if blockLenFromAlt then le length :: alt else alt)
  have hcvWords := (runsAs_unpack cfg slots 7 hcv).frame (messageItems (words block 16))
  rw [← words_map_le (by omega)] at hcvWords
  have hiv := runsAs_pushesOnto cfg slots (fun i => Sha256.u32ToLE (BLAKE3_IV.getD i 0)) 4
    (((words cv 8).map le).reverse ++ messageItems (words block 16))
  have hzero := runsAs_pushOnto cfg slots (le 0)
    (((iv.take 4).map le).reverse ++ (((words cv 8).map le).reverse ++
      messageItems (words block 16)))
  have hzero' := runsAs_pushOnto cfg slots (le 0)
    (le 0 :: (((iv.take 4).map le).reverse ++ (((words cv 8).map le).reverse ++
      messageItems (words block 16))))
  have hlength : RunsOn cfg slots
      (if blockLenFromAlt then Emitter.fromAlt else Emitter.pushB (le 64))
      ⟨le 0 :: le 0 :: (((iv.take 4).map le).reverse ++ (((words cv 8).map le).reverse ++
        messageItems (words block 16))), if blockLenFromAlt then le length :: alt else alt⟩
      (.ok ⟨le length :: le 0 :: le 0 :: (((iv.take 4).map le).reverse ++
        (((words cv 8).map le).reverse ++ messageItems (words block 16))), alt⟩) := by
    cases blockLenFromAlt with
    | true => exact runsOn_fromAlt cfg slots _ _ _
    | false =>
      rw [h rfl]
      exact RunsOn.of_runsAs (runsAs_pushOnto cfg slots (le 64) _) alt
  have hflags := RunsOn.of_runsAs (runsAs_pushOnto cfg slots (le rootFlags)
    (le length :: le 0 :: le 0 :: (((iv.take 4).map le).reverse ++
      (((words cv 8).map le).reverse ++ messageItems (words block 16))))) alt
  have hstart : ((start (words cv 8) 0 0 length rootFlags).map le).reverse ++
      messageItems (words block 16) = le rootFlags :: le length :: le 0 :: le 0 ::
        (((iv.take 4).map le).reverse ++ (((words cv 8).map le).reverse ++
          messageItems (words block 16))) := by simp [start]
  rw [initial_words] at hiv
  have hunpack := (RunsOn.of_runsAs (hblockWords.append_ok hroll)
    (if blockLenFromAlt then le length :: alt else alt)).append_ok hsave
  have hcvWords' := RunsOn.of_runsAs hcvWords (if blockLenFromAlt then le length :: alt else alt)
  have hiv' := RunsOn.of_runsAs hiv (if blockLenFromAlt then le length :: alt else alt)
  have hzeros := RunsOn.of_runsAs (hzero.append_ok hzero')
    (if blockLenFromAlt then le length :: alt else alt)
  rw [loadState, flags_word, zero_word, length_word, hstart]
  have hbefore := ((hunpack.append_ok hback).append_ok hcvWords').append_ok hiv'
  have hall := ((hbefore.append_ok hzeros).append_ok hlength).append_ok hflags
  simp only [← List.append_assoc] at hall ⊢
  exact hall

/-- The words in their own order onto the alt stack. -/
theorem runsOn_reorder {t : StateTracker} {order idxs : List Nat} (h : Tracks t order)
    (hperm : order.Perm idxs) (v : List Word) (rest alt : List Bytes) :
    RunsOn cfg slots (reorder t idxs) ⟨stateItems v order ++ rest, alt⟩
      (.ok ⟨rest, (stateItems v idxs).reverse ++ alt⟩) := by
  induction idxs generalizing t order alt with
  | nil =>
    obtain rfl := hperm.eq_nil
    exact .nil _
  | cons i idxs ih =>
    have hi : i ∈ order := hperm.mem_iff.mpr List.mem_cons_self
    have hroll := RunsOn.of_runsAs ((runsAs_rollWord cfg slots h hi v).frame rest) alt
    have hsave := runsOn_toAlt cfg slots (le (v.getD i 0)) (stateItems v (order.erase i) ++ rest)
      alt
    have hrest := ih (h.onRollToTop hi).onToAlt
      (List.cons_perm_iff_perm_erase.mp hperm.symm).2.symm (le (v.getD i 0) :: alt)
    have hitems : (stateItems v (i :: idxs)).reverse ++ alt =
        (stateItems v idxs).reverse ++ le (v.getD i 0) :: alt := by simp [stateItems]
    rw [hitems]
    exact (hroll.append_ok hsave).append_ok hrest

theorem runsAs_cats (x : Bytes) (xs : List Bytes) :
    RunsAs cfg slots (List.replicate xs.length (Emitter.binOp .OP_CAT)).flatten (x :: xs)
      (.ok [xs.reverse.flatten ++ x]) := by
  induction xs generalizing x with
  | nil => exact .nil _
  | cons y xs ih =>
    have hcat := (runsAs_cat cfg slots x y).frame xs
    have hrest := ih (y ++ x)
    rw [List.length_cons, List.replicate_succ, List.flatten_cons, List.reverse_cons,
      List.flatten_append, List.flatten_singleton, List.append_assoc]
    exact hcat.append_ok hrest

/-- The first eight words of the output. -/
theorem output_eq_zipWith {low high : List Word} (hlow : low.length = 8) (hhigh : high.length = 8) :
    ((List.range 8).map fun i => (low ++ high).getD i 0 ^^^ (low ++ high).getD (i + 8) 0) =
      List.zipWith (· ^^^ ·) low high := by
  refine List.ext_getElem (by simp [hlow, hhigh]) fun i hi hi' => ?_
  have hlt : i < 8 := by simpa using hi
  simp only [List.getElem_map, List.getElem_range, List.getElem_zipWith,
    List.getD_eq_getElem?_getD]
  rw [List.getElem?_append_left (by omega), List.getElem?_append_right (by omega), hlow,
    Nat.add_sub_cancel, List.getElem?_eq_getElem (by omega), List.getElem?_eq_getElem (by omega)]
  rfl

/-- The output, packed, in the place of everything else. -/
theorem runsAs_packOutput {v m : List Word} (hv : v.length = 16) (hm : m.length = 16) :
    RunsAs cfg slots packOutput ((v.map le).reverse ++ messageItems m)
      (.ok [((List.range 8).map fun i => v.getD i 0 ^^^ v.getD (i + 8) 0).flatMap toBytes]) := by
  obtain ⟨low, high, rfl, hlow, hhigh⟩ : ∃ low high : List Word,
      v = low ++ high ∧ low.length = 8 ∧ high.length = 8 :=
    ⟨_, _, (List.take_append_drop 8 v).symm, by simp [hv], by simp [hv]⟩
  have hxor : ∀ x y : Word, RunsAs cfg slots (Emitter.binOp .OP_XOR) [le y, le x]
      (.ok [le (y ^^^ x)]) := fun x y => by
    rw [BitVec.xor_comm]
    exact runsAs_xor cfg slots x y
  have hjoins := runsOn_joins cfg slots hxor 8 high.reverse low.reverse (messageItems m) []
    (by simp [hhigh]) (by simp [hlow])
  have hitems : (high.reverse ++ low.reverse).map le ++ messageItems m =
      ((low ++ high).map le).reverse ++ messageItems m := by simp
  have hjoined : (List.zipWith (fun x y => y ^^^ x) high.reverse low.reverse) =
      (List.zipWith (· ^^^ ·) low high).reverse := by
    rw [← List.reverse_zipWith (by rw [hlow, hhigh]), List.zipWith_comm]
  rw [hitems, hjoined, List.map_reverse, List.reverse_reverse] at hjoins
  obtain ⟨front, last, hwords⟩ : ∃ front last,
      List.zipWith (· ^^^ ·) low high = front ++ [last] := by
    rcases List.eq_nil_or_concat (List.zipWith (· ^^^ ·) low high) with hnil | ⟨front, last, h⟩
    · have hlength := congrArg List.length hnil
      simp [hlow, hhigh] at hlength
    · exact ⟨front, last, h.trans List.concat_eq_append⟩
  have hcount : (front ++ [last]).length = 8 := by
    rw [← hwords, List.length_zipWith, hlow, hhigh]
    rfl
  have hfront : ((front.map le).reverse).length = 7 := by simpa using hcount
  have hback := runsOn_fromAlts cfg slots ((front ++ [last]).map le) (messageItems m) []
  rw [List.length_map, hcount] at hback
  rw [hwords] at hjoins
  have hcats := runsAs_cats cfg slots (le last) (front.map le).reverse
  rw [hfront, List.reverse_reverse] at hcats
  have hdrops := Sha256.runsAs_drops cfg slots ((front.map le).flatten ++ le last) (messageItems m)
  rw [messageItems, List.length_reverse, List.length_map, hm, ← messageItems] at hdrops
  have hreversed : ((front ++ [last]).map le).reverse ++ messageItems m =
      le last :: (front.map le).reverse ++ messageItems m := by simp
  rw [hreversed] at hback
  have hbytes : (List.zipWith (· ^^^ ·) low high).flatMap toBytes =
      (front.map le).flatten ++ le last := by
    rw [hwords, List.flatMap_append, List.flatMap_singleton, ← List.flatMap_def]
    rfl
  rw [output_eq_zipWith hlow hhigh, hbytes]
  refine RunsOn.runsAs ?_
  have hpacked := (hjoins.append_ok hback).append_ok
    (RunsOn.of_runsAs (hcats.frame (messageItems m)) [])
  exact hpacked.append_ok (RunsOn.of_runsAs hdrops [])

end Packing

/-! ## The compiled functions -/

section Compiled

variable (cfg : Config) (slots : Slots)

theorem stateItems_reverse {v : List Word} (hv : v.length = 16) :
    stateItems v (List.range 16).reverse = (v.map le).reverse := by
  have hrange : stateItems v (List.range 16) = v.map le := by
    refine List.ext_getElem (by simp [stateItems, hv]) fun i hi hi' => ?_
    have hlt : i < v.length := by simpa using hi'
    simp [stateItems, List.getD_eq_getElem?_getD, hlt]
  rw [← hrange, stateItems, stateItems, List.map_reverse]

theorem length_foldl_mixAt (m v : List Word) (calls : List Call) :
    (calls.foldl (mixAt m) v).length = v.length := by
  induction calls generalizing v with
  | nil => rfl
  | cons call calls ih => rw [List.foldl_cons, ih, length_mixAt]

/-- Compression, with the length of the block on the alt stack or fixed. -/
theorem runsOn_generateCompressOps {block cv : Bytes} (hblock : block.length = 64)
    (hcv : cv.length = 32) (blockLenFromAlt : Bool) (length : Nat)
    (h : blockLenFromAlt = false → length = 64) (alt : List Bytes) :
    RunsOn cfg slots (generateCompressOps 7 blockLenFromAlt)
      ⟨[block, cv], if blockLenFromAlt then le (BitVec.ofNat 32 length) :: alt else alt⟩
      (.ok ⟨[compressRoot cv block length], alt⟩) := by
  let v := start (words cv 8) 0 0 (BitVec.ofNat 32 length) rootFlags
  let m := words block 16
  have hm : m.length = 16 := by simp [m, words]
  have hv : v.length = 16 := length_start (by simp [words]) _ _ _ _
  have hload := runsOn_loadState cfg slots hblock hcv blockLenFromAlt (BitVec.ofNat 32 length)
    (fun hfalse => by rw [h hfalse]; rfl) alt
  obtain ⟨order, hperm, htracks, hcalls⟩ := runsAs_emitGCalls cfg slots tracks_new
    (List.reverse_perm (List.range 16)) hv hm valid_of_mem_roundCalls
  rw [foldl_roundCalls hm, stateItems_reverse hv] at hcalls
  have hlength : (Crypto.Blake3.rounds v m 7).length = 16 := by
    rw [← foldl_roundCalls hm, length_foldl_mixAt, hv]
  have hreorder := runsOn_reorder cfg slots htracks
    (hperm.trans (List.reverse_perm (List.range 16)).symm) (Crypto.Blake3.rounds v m 7)
    (messageItems m) alt
  rw [stateItems_reverse hlength, List.reverse_reverse] at hreorder
  have hback := runsOn_fromAlts cfg slots ((Crypto.Blake3.rounds v m 7).map le) (messageItems m) alt
  rw [List.length_map, hlength] at hback
  have hpack := RunsOn.of_runsAs (runsAs_packOutput cfg slots hlength hm) alt
  exact (((hload.append_ok (RunsOn.of_runsAs hcalls alt)).append_ok hreorder).append_ok
    hback).append_ok hpack

/-- The code compresses a whole block that is a message of its own. -/
theorem runsAs_emitBlake3Compress {block cv : Bytes} (hblock : block.length = 64)
    (hcv : cv.length = 32) :
    RunsAs cfg slots emitBlake3Compress [block, cv] (.ok [compressRoot cv block 64]) :=
  RunsOn.runsAs (runsOn_generateCompressOps cfg slots hblock hcv false 64 (fun _ => rfl) [])

theorem runsAs_num2bin_error {n w : Int} (h : ¬(0 ≤ w ∧ Fits w.toNat n)) :
    RunsAs cfg slots [.opcode .OP_NUM2BIN] [encodeNum w, encodeNum n]
      (.error .impossibleEncoding) := by
  refine runsAs_opcode cfg slots rfl fun below alt => ?_
  simp [opcodeStep, num2bin, h]

theorem runsAs_sizeDup (msg : Bytes) :
    RunsAs cfg slots ([.opcode .OP_SIZE, .opcode .OP_DUP] ++ Emitter.pushI 4) [msg]
      (.ok [encodeNum 4, encodeNum msg.length, encodeNum msg.length, msg]) := by
  refine .of_plain (by simp [Emitter.pushI, emitOps_cons]; decide) fun below alt => ?_
  simp [Emitter.pushI, emitOps_cons, plainRun, plainStep, opcodeStep, shuffle]

/-- How far the message is from a block. -/
theorem runsAs_missing (bytes : Bytes) :
    RunsAs cfg slots (Emitter.pushI 64 ++ [.swap] ++ Emitter.binOp .OP_SUB)
      [encodeNum bytes.length, bytes] (.ok [encodeNum (64 - bytes.length), bytes]) := by
  have hpush := (runsAs_pushNum cfg slots 64).frame [encodeNum bytes.length, bytes]
  have hswap := (runsAs_swap cfg slots (encodeNum 64) (encodeNum bytes.length)).frame [bytes]
  have hsub : RunsAs cfg slots [.opcode .OP_SUB] [encodeNum bytes.length, encodeNum 64]
      (.ok [encodeNum (64 - bytes.length)]) := runsAs_numOp2 cfg slots rfl rfl rfl
  exact (hpush.append_ok hswap).append_ok (hsub.frame [bytes])

theorem initial_bytes : BLAKE3_IV.flatMap Sha256.u32ToLE = iv.flatMap toBytes := by
  have hvalues : BLAKE3_IV = iv.map BitVec.toNat := by decide
  rw [hvalues, List.flatMap_map]
  rfl

theorem runsAs_emitBlake3Hash {msg : Bytes} (h : msg.length ≤ 64) :
    RunsAs cfg slots emitBlake3Hash [msg] (.ok [digest msg]) := by
  have hword : le (BitVec.ofNat 32 msg.length) = leBytes 4 msg.length := by
    rw [le, BitVec.toNat_ofNat, Nat.mod_eq_of_lt (by omega)]
  have hsize := RunsOn.of_runsAs (runsAs_sizeDup cfg slots msg) []
  have hbin := RunsOn.of_runsAs ((Sha256.runsAs_num2bin cfg slots (n := msg.length) (w := 4)
    (Nat.lt_of_le_of_lt h (by decide))).frame [encodeNum msg.length, msg]) []
  rw [← hword] at hbin
  have hsave := runsOn_toAlt cfg slots (le (BitVec.ofNat 32 msg.length))
    [encodeNum msg.length, msg] []
  have hmissing := RunsOn.of_runsAs (runsAs_missing cfg slots msg)
    [le (BitVec.ofNat 32 msg.length)]
  rw [show (64 : Int) - msg.length = (64 - msg.length : Nat) by omega] at hmissing
  have hzero := RunsOn.of_runsAs ((runsAs_pushNum cfg slots 0).frame
    [encodeNum (64 - msg.length : Nat), msg]) [le (BitVec.ofNat 32 msg.length)]
  have hswap := RunsOn.of_runsAs ((runsAs_swap cfg slots (encodeNum 0)
    (encodeNum (64 - msg.length : Nat))).frame [msg]) [le (BitVec.ofNat 32 msg.length)]
  have hzeros := RunsOn.of_runsAs ((Sha256.runsAs_num2bin cfg slots (n := 0)
    (w := 64 - msg.length) (signBit_pos _)).frame [msg]) [le (BitVec.ofNat 32 msg.length)]
  rw [Sha256.leBytes_zeros] at hzeros
  have hcat := RunsOn.of_runsAs (runsAs_cat cfg slots (List.replicate (64 - msg.length) 0) msg)
    [le (BitVec.ofNat 32 msg.length)]
  have hiv := RunsOn.of_runsAs (runsAs_pushOnto cfg slots (iv.flatMap toBytes)
    [msg ++ List.replicate (64 - msg.length) 0]) [le (BitVec.ofNat 32 msg.length)]
  have hswap' := RunsOn.of_runsAs (runsAs_swap cfg slots (iv.flatMap toBytes)
    (msg ++ List.replicate (64 - msg.length) 0)) [le (BitVec.ofNat 32 msg.length)]
  have hblock : (msg ++ List.replicate (64 - msg.length) 0).length = 64 := by
    rw [List.length_append, List.length_replicate]
    omega
  have hcv : (iv.flatMap toBytes).length = 32 := by decide
  have hcompress := runsOn_generateCompressOps cfg slots hblock hcv true msg.length
    (fun h => (by cases h)) []
  have hlength := ((hsize.append_ok hbin).append_ok hsave).append_ok hmissing
  have hpadded := (((hlength.append_ok hzero).append_ok hswap).append_ok hzeros).append_ok hcat
  have hall := ((hpadded.append_ok hiv).append_ok hswap').append_ok hcompress
  rw [← initial_bytes] at hall
  refine RunsOn.runsAs ?_
  rw [emitBlake3Hash]
  simp only [← List.append_assoc] at hall ⊢
  rw [digest, ← initial_bytes]
  exact hall

/-- A message that does not fit a block is stopped where its padding would have a negative
length, or before where its own length has no room. -/
theorem runsAs_emitBlake3Hash_long {msg : Bytes} (h : 64 < msg.length) :
    RunsAs cfg slots emitBlake3Hash [msg] (.error .impossibleEncoding) := by
  have hsize := RunsOn.of_runsAs (runsAs_sizeDup cfg slots msg) []
  refine RunsOn.runsAs ?_
  by_cases hfits : msg.length < signBit 4
  · have hbin := RunsOn.of_runsAs ((Sha256.runsAs_num2bin cfg slots (n := msg.length) (w := 4)
      hfits).frame [encodeNum msg.length, msg]) []
    have hsave := runsOn_toAlt cfg slots (leBytes 4 msg.length) [encodeNum msg.length, msg] []
    have hmissing := RunsOn.of_runsAs (runsAs_missing cfg slots msg) [leBytes 4 msg.length]
    have hzero := RunsOn.of_runsAs ((runsAs_pushNum cfg slots 0).frame
      [encodeNum (64 - msg.length), msg]) [leBytes 4 msg.length]
    have hswap := RunsOn.of_runsAs ((runsAs_swap cfg slots (encodeNum 0)
      (encodeNum (64 - msg.length))).frame [msg]) [leBytes 4 msg.length]
    have hstop := RunsOn.of_runsAs ((runsAs_num2bin_error cfg slots (n := 0)
      (w := 64 - msg.length) (by omega)).frame [msg]) [leBytes 4 msg.length]
    have hall : ∀ rest, RunsOn cfg slots (([.opcode .OP_SIZE, .opcode .OP_DUP] ++
        Emitter.pushI 4) ++ (Emitter.binOp .OP_NUM2BIN ++ (Emitter.toAlt ++ ((Emitter.pushI 64 ++
          [.swap] ++ Emitter.binOp .OP_SUB) ++ (Emitter.pushI 0 ++ ([.swap] ++
            (Emitter.binOp .OP_NUM2BIN ++ rest))))))) ⟨[msg], []⟩
        (.error .impossibleEncoding) := fun rest =>
      hsize.append_ok (hbin.append_ok (hsave.append_ok (hmissing.append_ok
        (hzero.append_ok (hswap.append_ok hstop.append_error)))))
    rw [emitBlake3Hash]
    simp only [List.append_assoc] at hall ⊢
    exact hall _
  · have hstop := RunsOn.of_runsAs ((runsAs_num2bin_error cfg slots (n := msg.length) (w := 4)
      (fun hfit => hfits hfit.2)).frame [encodeNum msg.length, msg]) []
    have hall : ∀ rest, RunsOn cfg slots (([.opcode .OP_SIZE, .opcode .OP_DUP] ++
        Emitter.pushI 4) ++ (Emitter.binOp .OP_NUM2BIN ++ rest)) ⟨[msg], []⟩
        (.error .impossibleEncoding) := fun rest => hsize.append_ok hstop.append_error
    rw [emitBlake3Hash]
    simp only [List.append_assoc] at hall ⊢
    exact hall _

end Compiled

/-- The compiled hash and the compiled compression compute BLAKE3. -/
theorem emitBlake3_correct (cfg : Config) (slots : Slots) :
    (∀ msg : Bytes,
      (msg.length ≤ 64 → RunsAs cfg slots emitBlake3Hash [msg] (.ok [digest msg])) ∧
      (64 < msg.length → RunsAs cfg slots emitBlake3Hash [msg] (.error .impossibleEncoding))) ∧
    ∀ cv block : Bytes, cv.length = 32 → block.length = 64 →
      RunsAs cfg slots emitBlake3Compress [block, cv] (.ok [compressRoot cv block 64]) :=
  ⟨fun _ => ⟨runsAs_emitBlake3Hash cfg slots, runsAs_emitBlake3Hash_long cfg slots⟩,
    fun _ _ hcv hblock => runsAs_emitBlake3Compress cfg slots hblock hcv⟩

theorem emitBlake3_correct_abc :
    RunsAs (.hashing id) ⟨fun _ _ => [], []⟩ emitBlake3Hash [[0x61, 0x62, 0x63]]
        (.ok [[0x64, 0x37, 0xb3, 0xac, 0x38, 0x46, 0x51, 0x33, 0xff, 0xb6, 0x3b, 0x75, 0x27, 0x3a,
          0x8d, 0xb5, 0x48, 0xc5, 0x58, 0x46, 0x5d, 0x79, 0xdb, 0x03, 0xfd, 0x35, 0x9c, 0x6c, 0xd5,
          0xbd, 0x9d, 0x85]]) ∧
      RunsAs (.hashing id) ⟨fun _ _ => [], []⟩ emitBlake3Hash [List.replicate 65 0]
        (.error .impossibleEncoding) ∧
      RunsAs (.hashing id) ⟨fun _ _ => [], []⟩ emitBlake3Compress
        [List.replicate 64 0, List.replicate 32 0]
        (.ok [compressRoot (List.replicate 32 0) (List.replicate 64 0) 64]) := by
  have hdigest : digest [0x61, 0x62, 0x63] =
      [0x64, 0x37, 0xb3, 0xac, 0x38, 0x46, 0x51, 0x33, 0xff, 0xb6, 0x3b, 0x75, 0x27, 0x3a,
        0x8d, 0xb5, 0x48, 0xc5, 0x58, 0x46, 0x5d, 0x79, 0xdb, 0x03, 0xfd, 0x35, 0x9c, 0x6c, 0xd5,
        0xbd, 0x9d, 0x85] := by
    decide +kernel
  rw [← hdigest]
  have h := emitBlake3_correct (.hashing id) ⟨fun _ _ => [], []⟩
  exact ⟨(h.1 [0x61, 0x62, 0x63]).1 (by decide), (h.1 (List.replicate 65 0)).2 (by decide),
    h.2 (List.replicate 32 0) (List.replicate 64 0) (by decide) (by decide)⟩

end Blake3

end Runar.StackLower
