/-
  Crypto/SlhDsaCorrect.lean --- what is signed with SLH-DSA is accepted.

  WHAT THIS FILE IS FOR.  From the bottom up: the digits a chain starts from do not change
  where it ends, so a one-time signature gives back the one-time key; the way up a tree gives
  back its root, whichever leaf was opened; the tower of trees ends at the root in the public
  key, because the tree index has no more bits than the layers below the topmost one use up.
-/
import Runar.Crypto.Sha256
import Runar.Crypto.SlhDsa

set_option autoImplicit false

namespace Runar.Crypto.SlhDsa

open Script HashSignatures

section Lengths

variable {sha256 : Bytes → Bytes} (hsha : ∀ x, (sha256 x).length = 32) (p : SLHParams)

include hsha

theorem length_T (pkSeed : Bytes) (adrs : ADRS) (msg : Bytes) :
    (T sha256 pkSeed adrs msg p.n).length = p.n := by
  rw [T, List.length_take, hsha]
  exact Nat.min_eq_left p.n_le

theorem length_PRFmsg (skPrf optRand msg : Bytes) :
    (PRFmsg sha256 skPrf optRand msg p.n).length = p.n := by
  rw [PRFmsg, List.length_take, hsha]
  exact Nat.min_eq_left p.n_le

theorem length_wotsChain (pkSeed : Bytes) {x : Bytes} (hx : x.length = p.n) (start steps : Nat)
    (adrs : ADRS) : (wotsChain sha256 pkSeed x start steps adrs p.n).length = p.n := by
  cases steps with
  | zero => exact hx
  | succ steps =>
    rw [wotsChain, walk_succ]
    exact length_T hsha p pkSeed _ _

theorem length_wotsSecret (pkSeed skSeed : Bytes) (adrs : ADRS) (i : Nat) :
    (wotsSecret sha256 p pkSeed skSeed adrs i).length = p.n := length_T hsha p pkSeed _ _

theorem length_wotsSign (pkSeed skSeed msg : Bytes) (adrs : ADRS) :
    (wotsSign sha256 p pkSeed skSeed msg adrs).length = p.len * p.n :=
  length_rows fun i _ =>
    length_wotsChain hsha p pkSeed (length_wotsSecret hsha p pkSeed skSeed adrs i) _ _ _

theorem length_xmssNode (pkSeed skSeed : Bytes) (adrs : ADRS) (height idx : Nat) :
    (xmssNode sha256 p pkSeed skSeed adrs height idx).length = p.n := by
  cases height with
  | zero => exact length_T hsha p pkSeed _ _
  | succ height => exact length_T hsha p pkSeed _ _

theorem length_xmssSign (pkSeed skSeed msg : Bytes) (idx : Nat) (adrs : ADRS) :
    (xmssSign sha256 p pkSeed skSeed msg idx adrs).length = xmssSigLen p := by
  rw [xmssSign, List.length_append, length_wotsSign hsha,
    length_rows fun j _ => length_xmssNode hsha p pkSeed skSeed adrs j _, xmssSigLen,
    Nat.add_mul]

theorem length_forsNode (pkSeed skSeed : Bytes) (adrs : ADRS) (i height idx : Nat) :
    (forsNode sha256 p pkSeed skSeed adrs i height idx).length = p.n := by
  cases height with
  | zero => exact length_T hsha p pkSeed _ _
  | succ height => exact length_T hsha p pkSeed _ _

theorem length_forsSecret (pkSeed skSeed : Bytes) (adrs : ADRS) (i idx : Nat) :
    (forsSecret sha256 p pkSeed skSeed adrs i idx).length = p.n := length_T hsha p pkSeed _ _

theorem length_forsSignTree (pkSeed skSeed md : Bytes) (adrs : ADRS) (i : Nat) :
    (forsSignTree sha256 p pkSeed skSeed md adrs i).length = (1 + p.a) * p.n := by
  rw [forsSignTree, List.length_append, length_forsSecret hsha,
    length_rows fun j _ => length_forsNode hsha p pkSeed skSeed adrs i j _, Nat.add_mul,
    Nat.one_mul]

theorem length_forsSign (pkSeed skSeed md : Bytes) (adrs : ADRS) :
    (forsSign sha256 p pkSeed skSeed md adrs).length = forsSigLen p := by
  rw [forsSign, length_rows fun i _ => length_forsSignTree hsha p pkSeed skSeed md adrs i,
    forsSigLen, Nat.mul_assoc]

theorem length_signLayers (pkSeed skSeed : Bytes) (left layer : Nat) (msg : Bytes)
    (treeIdx leafIdx : Nat) :
    (signLayers sha256 p pkSeed skSeed left layer msg treeIdx leafIdx).length =
      left * xmssSigLen p := by
  induction left generalizing layer msg treeIdx leafIdx with
  | zero =>
    rw [Nat.zero_mul]
    rfl
  | succ left ih =>
    rw [signLayers, List.length_append, length_xmssSign hsha, ih, Nat.succ_mul, Nat.add_comm]

end Lengths

/-! ## One-time keys -/

section Wots

/-- Every digit leaves the rest of a chain. -/
theorem digit_le (p : SLHParams) (msg : Bytes) (i : Nat) :
    (allDigits p msg).getD i 0 ≤ p.w - 1 := by
  have hbase : ∀ (bytes : Bytes) (outLen : Nat), ∀ d ∈ baseW bytes p.w outLen, d ≤ p.w - 1 := by
    intro bytes outLen d hd
    obtain ⟨byte, -, hbyte⟩ := List.mem_flatMap.mp (List.mem_of_mem_take hd)
    obtain ⟨r, -, rfl⟩ := List.mem_map.mp hbyte
    exact Nat.and_le_right
  by_cases hi : i < (allDigits p msg).length
  · rw [List.getD_eq_getElem _ _ hi]
    rcases List.mem_append.mp (List.getElem_mem hi) with hmsg | hsum
    · exact hbase _ _ _ hmsg
    · exact hbase _ _ _ hsum
  · rw [List.getD_eq_default _ _ (Nat.le_of_not_lt hi)]
    exact Nat.zero_le _

variable {sha256 : Bytes → Bytes} (hsha : ∀ x, (sha256 x).length = 32) (p : SLHParams)

include hsha

/-- A one-time signature of any message gives back the one-time key. -/
theorem wotsPkFromSig_wotsSign (pkSeed skSeed msg : Bytes) (adrs : ADRS) :
    wotsPkFromSig sha256 p pkSeed (wotsSign sha256 p pkSeed skSeed msg adrs) msg adrs =
      wotsPk sha256 p pkSeed skSeed adrs := by
  have hparts : ∀ i ∈ List.range p.len,
      wotsChain sha256 pkSeed
        (((wotsSign sha256 p pkSeed skSeed msg adrs).drop (i * p.n)).take p.n)
        ((allDigits p msg).getD i 0) (p.w - 1 - (allDigits p msg).getD i 0)
        (chainAdrs adrs i) p.n =
      wotsChain sha256 pkSeed (wotsSecret sha256 p pkSeed skSeed adrs i) 0 (p.w - 1)
        (chainAdrs adrs i) p.n := by
    intro i hi
    have hslice := slice_rows (fun i =>
      wotsChain sha256 pkSeed (wotsSecret sha256 p pkSeed skSeed adrs i) 0
        ((allDigits p msg).getD i 0) (chainAdrs adrs i) p.n)
      (fun j _ => length_wotsChain hsha p pkSeed
        (length_wotsSecret hsha p pkSeed skSeed adrs j) _ _ _) (List.mem_range.mp hi) []
    rw [List.append_nil] at hslice
    have hrow : ((wotsSign sha256 p pkSeed skSeed msg adrs).drop (i * p.n)).take p.n = _ := hslice
    rw [hrow]
    exact walk_to_top _ (digit_le p msg i) _
  unfold wotsPkFromSig wotsPk
  exact congrArg (T sha256 pkSeed (adrs.setType ADRS_WOTS_PK) · p.n)
    (congrArg List.flatten (List.map_congr_left hparts))

end Wots

/-! ## Trees -/

section Trees

variable {sha256 : Bytes → Bytes} (p : SLHParams)

theorem xmssNode_eq_node (pkSeed skSeed : Bytes) (adrs : ADRS) (height idx : Nat) :
    xmssNode sha256 p pkSeed skSeed adrs height idx =
      node (fun idx => wotsPk sha256 p pkSeed skSeed (leafAdrs adrs idx))
        (xmssJoin sha256 p pkSeed adrs) height idx := by
  induction height generalizing idx with
  | zero => rfl
  | succ height ih => rw [xmssNode, node, ih, ih]

theorem forsNode_eq_node (pkSeed skSeed : Bytes) (adrs : ADRS) (i height idx : Nat) :
    forsNode sha256 p pkSeed skSeed adrs i height idx =
      node (fun idx => forsLeafFrom sha256 p pkSeed adrs i idx
        (forsSecret sha256 p pkSeed skSeed adrs i idx))
        (forsJoin sha256 p pkSeed adrs i) height idx := by
  induction height generalizing idx with
  | zero => rfl
  | succ height ih => rw [forsNode, node, ih, ih]

/-- The bits that are read make a number of as many bits. -/
theorem extractLoop_lt (md : Bytes) (needed fuel i avail bitsRead value : Nat)
    (hread : bitsRead ≤ needed) (hvalue : value < 2 ^ bitsRead) :
    extractLoop md needed fuel i avail bitsRead value < 2 ^ needed := by
  have hkeep : ∀ {m n : Nat}, m < 2 ^ n → n ≤ needed → m < 2 ^ needed := fun hm hn =>
    Nat.lt_of_lt_of_le hm (Nat.pow_le_pow_right (by decide) hn)
  induction fuel generalizing i avail bitsRead value with
  | zero => exact hkeep hvalue hread
  | succ fuel ih =>
    rw [extractLoop]
    by_cases hmore : bitsRead < needed
    · rw [if_pos hmore]
      have htake : bitsRead + min avail (needed - bitsRead) ≤ needed := by omega
      refine ih _ _ _ _ htake ?_
      generalize min avail (needed - bitsRead) = t
      have hhigh : value <<< t < 2 ^ (bitsRead + t) := by
        rw [Nat.shiftLeft_eq, Nat.pow_add]
        exact Nat.mul_lt_mul_of_pos_right hvalue (Nat.two_pow_pos t)
      have hlow : (md.getD i 0).toNat >>> (avail - t) &&& (1 <<< t - 1) < 2 ^ (bitsRead + t) := by
        rw [Nat.one_shiftLeft]
        have hand : (md.getD i 0).toNat >>> (avail - t) &&& (2 ^ t - 1) ≤ 2 ^ t - 1 :=
          Nat.and_le_right
        have hpow : 2 ^ t ≤ 2 ^ (bitsRead + t) :=
          Nat.pow_le_pow_right (by decide) (Nat.le_add_left t bitsRead)
        have hpos := Nat.two_pow_pos t
        omega
      exact Nat.or_lt_two_pow hhigh hlow
    · rw [if_neg hmore]
      exact hkeep hvalue hread

theorem extractForsIdx_lt (md : Bytes) (treeIdx a : Nat) : extractForsIdx md treeIdx a < 2 ^ a :=
  extractLoop_lt md a a _ _ 0 0 (Nat.zero_le a) (Nat.two_pow_pos 0)

variable (hsha : ∀ x, (sha256 x).length = 32)

include hsha

/-- A tree's signature of any message under any of its leaves gives back the root. -/
theorem xmssPkFromSig_sign (pkSeed skSeed msg : Bytes) {idx : Nat}
    (hidx : idx < 2 ^ p.hp) (adrs : ADRS) :
    xmssPkFromSig sha256 p pkSeed idx (xmssSign sha256 p pkSeed skSeed msg idx adrs) msg adrs =
      xmssNode sha256 p pkSeed skSeed adrs p.hp 0 := by
  have hlen := length_wotsSign hsha p pkSeed skSeed msg (leafAdrs adrs idx)
  have hsig : (xmssSign sha256 p pkSeed skSeed msg idx adrs).take (p.len * p.n) =
      wotsSign sha256 p pkSeed skSeed msg (leafAdrs adrs idx) := List.take_left' hlen
  have hauth : (xmssSign sha256 p pkSeed skSeed msg idx adrs).drop (p.len * p.n) =
      (List.range p.hp).flatMap fun j =>
        xmssNode sha256 p pkSeed skSeed adrs j (idx >>> j ^^^ 1) := List.drop_left' hlen
  have hsiblings : ∀ j < p.hp,
      (((xmssSign sha256 p pkSeed skSeed msg idx adrs).drop (p.len * p.n)).drop (j * p.n)).take
        p.n = node (fun idx => wotsPk sha256 p pkSeed skSeed (leafAdrs adrs idx))
          (xmssJoin sha256 p pkSeed adrs) j (idx >>> j ^^^ 1) := by
    intro j hj
    have hslice := slice_rows (fun j =>
      xmssNode sha256 p pkSeed skSeed adrs j (idx >>> j ^^^ 1))
      (fun j _ => length_xmssNode hsha p pkSeed skSeed adrs j _) hj []
    rw [List.append_nil] at hslice
    rw [hauth, hslice, xmssNode_eq_node]
  show climb (xmssJoin sha256 p pkSeed adrs) idx _ (wotsPkFromSig sha256 p pkSeed
    ((xmssSign sha256 p pkSeed skSeed msg idx adrs).take (p.len * p.n)) msg
    (leafAdrs adrs idx)) p.hp = _
  rw [hsig, wotsPkFromSig_wotsSign hsha, climb_congr _ hsiblings, xmssNode_eq_node]
  exact climb_root _ _ hidx

theorem drop_forsSign (pkSeed skSeed md : Bytes) (adrs : ADRS) {i : Nat} (hi : i < p.k) :
    ((forsSign sha256 p pkSeed skSeed md adrs).drop (i * ((1 + p.a) * p.n))).take
      ((1 + p.a) * p.n) = forsSignTree sha256 p pkSeed skSeed md adrs i := by
  have hslice := slice_rows (forsSignTree sha256 p pkSeed skSeed md adrs)
    (fun j _ => length_forsSignTree hsha p pkSeed skSeed md adrs j) hi []
  rwa [List.append_nil] at hslice

/-- The forest's key: the hash of the roots of all trees. -/
theorem forsPkFromSig_sign (pkSeed skSeed md : Bytes) (adrs : ADRS) :
    forsPkFromSig sha256 p pkSeed (forsSign sha256 p pkSeed skSeed md adrs) md adrs =
      forsCompress sha256 p pkSeed adrs ((List.range p.k).flatMap fun i =>
        forsNode sha256 p pkSeed skSeed adrs i p.a 0) := by
  refine congrArg (forsCompress sha256 p pkSeed adrs)
    (congrArg List.flatten (List.map_congr_left fun i hi => ?_))
  have hlen := length_forsSecret hsha p pkSeed skSeed adrs i (extractForsIdx md i p.a)
  have hsecret : (forsSignTree sha256 p pkSeed skSeed md adrs i).take p.n =
      forsSecret sha256 p pkSeed skSeed adrs i (extractForsIdx md i p.a) := List.take_left' hlen
  have hauth : (forsSignTree sha256 p pkSeed skSeed md adrs i).drop p.n =
      (List.range p.a).flatMap fun j => forsNode sha256 p pkSeed skSeed adrs i j
        (extractForsIdx md i p.a >>> j ^^^ 1) := List.drop_left' hlen
  have hsiblings : ∀ j < p.a,
      (((forsSignTree sha256 p pkSeed skSeed md adrs i).drop p.n).drop (j * p.n)).take p.n =
        node (fun idx => forsLeafFrom sha256 p pkSeed adrs i idx
          (forsSecret sha256 p pkSeed skSeed adrs i idx))
          (forsJoin sha256 p pkSeed adrs i) j (extractForsIdx md i p.a >>> j ^^^ 1) := by
    intro j hj
    have hslice := slice_rows (fun j => forsNode sha256 p pkSeed skSeed adrs i j
      (extractForsIdx md i p.a >>> j ^^^ 1))
      (fun j _ => length_forsNode hsha p pkSeed skSeed adrs i j _) hj []
    rw [List.append_nil] at hslice
    rw [hauth, hslice, forsNode_eq_node]
  show climb (forsJoin sha256 p pkSeed adrs i) (extractForsIdx md i p.a) _
    (forsLeafFrom sha256 p pkSeed adrs i _ _) p.a = _
  rw [drop_forsSign p hsha pkSeed skSeed md adrs (List.mem_range.mp hi), hsecret,
    climb_congr _ hsiblings, forsNode_eq_node]
  exact climb_root _ _ (extractForsIdx_lt md i p.a)

omit hsha in
/-- Zero seeds and a digest of one byte. -/
theorem forsPkFromSig_sign_zero :
    let seed : Bytes := List.replicate 16 0
    forsPkFromSig Sha256.digest SLH_SHA2_128s seed
        (forsSign Sha256.digest SLH_SHA2_128s seed seed [7] newADRS) [7] newADRS =
      forsCompress Sha256.digest SLH_SHA2_128s seed newADRS
        ((List.range SLH_SHA2_128s.k).flatMap fun i =>
          forsNode Sha256.digest SLH_SHA2_128s seed seed newADRS i SLH_SHA2_128s.a 0) :=
  forsPkFromSig_sign SLH_SHA2_128s Sha256.length_digest _ _ [7] newADRS

end Trees

/-! ## The tower -/

section Tower

variable {sha256 : Bytes → Bytes} (hsha : ∀ x, (sha256 x).length = 32) (p : SLHParams)

theorem nextLeafIdx_lt (treeIdx : Nat) : nextLeafIdx p treeIdx < 2 ^ p.hp := by
  rw [nextLeafIdx, Nat.one_shiftLeft, Nat.and_two_pow_sub_one_eq_mod]
  exact Nat.mod_lt _ (Nat.two_pow_pos p.hp)

include hsha

/-- Signing and verifying pass from layer to layer by the same roots, and the topmost tree is
the one with number zero. -/
theorem verifyLayers_signLayers (pkSeed skSeed : Bytes) (left layer : Nat) (msg : Bytes)
    {treeIdx leafIdx : Nat} (htree : treeIdx < 2 ^ (left * p.hp)) (hleaf : leafIdx < 2 ^ p.hp) :
    verifyLayers sha256 p pkSeed (left + 1) layer
        (signLayers sha256 p pkSeed skSeed (left + 1) layer msg treeIdx leafIdx) msg treeIdx
        leafIdx =
      xmssNode sha256 p pkSeed skSeed (layerAdrs (layer + left) 0) p.hp 0 := by
  have hfront : ∀ (rest : Bytes) (layer : Nat) (msg : Bytes) (treeIdx leafIdx : Nat),
      (xmssSign sha256 p pkSeed skSeed msg leafIdx (layerAdrs layer treeIdx) ++ rest).take
          (xmssSigLen p) =
        xmssSign sha256 p pkSeed skSeed msg leafIdx (layerAdrs layer treeIdx) := fun _ _ _ _ _ =>
    List.take_left' (length_xmssSign hsha p pkSeed skSeed _ _ _)
  have hback : ∀ (rest : Bytes) (layer : Nat) (msg : Bytes) (treeIdx leafIdx : Nat),
      (xmssSign sha256 p pkSeed skSeed msg leafIdx (layerAdrs layer treeIdx) ++ rest).drop
          (xmssSigLen p) = rest := fun _ _ _ _ _ =>
    List.drop_left' (length_xmssSign hsha p pkSeed skSeed _ _ _)
  induction left generalizing layer msg treeIdx leafIdx with
  | zero =>
    have hzero : treeIdx = 0 := by
      rw [Nat.zero_mul, Nat.pow_zero] at htree
      omega
    rw [signLayers, verifyLayers, verifyLayers, hfront, hzero]
    exact xmssPkFromSig_sign p hsha pkSeed skSeed msg hleaf _
  | succ left ih =>
    have hnext : treeIdx >>> p.hp < 2 ^ (left * p.hp) := by
      rw [Nat.shiftRight_eq_div_pow]
      refine Nat.div_lt_of_lt_mul ?_
      rwa [← Nat.pow_add, Nat.add_comm, ← Nat.succ_mul]
    rw [signLayers, verifyLayers, hfront, hback, ih (layer + 1) _ hnext (nextLeafIdx_lt p treeIdx)]
    rw [show layer + 1 + left = layer + (left + 1) by omega]

/-- **Signing**: under every key that key generation makes from a seed, the verifier accepts
what the signer makes of any message. -/
theorem slhVerify_slhSign {seed : Bytes} (hseed : 3 * p.n ≤ seed.length) (msg : Bytes) :
    slhVerify sha256 p msg (slhSign sha256 p msg (slhKeygen sha256 p seed).sk)
      (slhKeygen sha256 p seed).pk = true := by
  let skSeed := seed.take p.n
  let skPrf := (seed.drop p.n).take p.n
  let pkSeed := (seed.drop (2 * p.n)).take p.n
  let root := xmssNode sha256 p pkSeed skSeed (newADRS.setLayerAddress (p.d - 1)) p.hp 0
  have hskSeed : skSeed.length = p.n := by
    rw [List.length_take]
    omega
  have hskPrf : skPrf.length = p.n := by
    rw [List.length_take, List.length_drop]
    omega
  have hpkSeed : pkSeed.length = p.n := by
    rw [List.length_take, List.length_drop]
    omega
  have hroot : root.length = p.n := length_xmssNode hsha p pkSeed skSeed _ _ _
  -- The four parts of the secret key, as the signer reads them.
  have hsk : (slhKeygen sha256 p seed).sk = skSeed ++ (skPrf ++ (pkSeed ++ root)) := by
    show skSeed ++ skPrf ++ pkSeed ++ root = _
    rw [List.append_assoc, List.append_assoc]
  have hread1 : (slhKeygen sha256 p seed).sk.take p.n = skSeed := by
    rw [hsk]
    exact List.take_left' hskSeed
  have hread2 : ((slhKeygen sha256 p seed).sk.drop p.n).take p.n = skPrf := by
    rw [hsk, List.drop_left' hskSeed]
    exact List.take_left' hskPrf
  have hread3 : ((slhKeygen sha256 p seed).sk.drop (2 * p.n)).take p.n = pkSeed := by
    rw [hsk, Nat.two_mul, ← List.drop_drop, List.drop_left' hskSeed, List.drop_left' hskPrf]
    exact List.take_left' hpkSeed
  have hread4 : ((slhKeygen sha256 p seed).sk.drop (3 * p.n)).take p.n = root := by
    rw [hsk, show 3 * p.n = p.n + (p.n + p.n) by omega, ← List.drop_drop, ← List.drop_drop,
      List.drop_left' hskSeed, List.drop_left' hskPrf, List.drop_left' hpkSeed]
    exact List.take_of_length_le (Nat.le_of_eq hroot)
  let R := PRFmsg sha256 skPrf pkSeed msg p.n
  let parts := digestParts sha256 p R pkSeed root msg
  let forsSig := forsSign sha256 p pkSeed skSeed parts.md (forestAdrs parts)
  let forsPk := forsPkFromSig sha256 p pkSeed forsSig parts.md (forestAdrs parts)
  let layers := signLayers sha256 p pkSeed skSeed p.d 0 forsPk parts.treeIdx parts.leafIdx
  have hR : R.length = p.n := length_PRFmsg hsha p _ _ _
  have hfors : forsSig.length = forsSigLen p := length_forsSign hsha p _ _ _ _
  have hlayers : layers.length = p.d * xmssSigLen p := length_signLayers hsha p _ _ _ _ _ _ _
  have hsign : slhSign sha256 p msg (slhKeygen sha256 p seed).sk = R ++ (forsSig ++ layers) := by
    unfold slhSign
    rw [hread1, hread2, hread3, hread4, List.append_assoc]
  have hpk : (slhKeygen sha256 p seed).pk = pkSeed ++ root := rfl
  have hpkLen : (pkSeed ++ root).length = 2 * p.n := by
    rw [List.length_append]
    omega
  have hsigLen : (R ++ (forsSig ++ layers)).length =
      p.n + forsSigLen p + p.d * xmssSigLen p := by
    rw [List.length_append, List.length_append, hR, hfors, hlayers, Nat.add_assoc]
  have hseedRead : (pkSeed ++ root).take p.n = pkSeed := List.take_left' hpkSeed
  have hrootRead : ((pkSeed ++ root).drop p.n).take p.n = root := by
    rw [List.drop_left' hpkSeed]
    exact List.take_of_length_le (Nat.le_of_eq hroot)
  have hRRead : (R ++ (forsSig ++ layers)).take p.n = R := List.take_left' hR
  have hforsRead : ((R ++ (forsSig ++ layers)).drop p.n).take (forsSigLen p) = forsSig := by
    rw [List.drop_left' hR]
    exact List.take_left' hfors
  have hlayersRead : (R ++ (forsSig ++ layers)).drop (p.n + forsSigLen p) = layers := by
    rw [← List.drop_drop, List.drop_left' hR]
    exact List.drop_left' hfors
  -- The tree index has the bits of the layers above the first one.
  have htree : parts.treeIdx < 2 ^ ((p.d - 1) * p.hp) := by
    have hbits : p.h - p.hp = (p.d - 1) * p.hp := by rw [p.h_eq, Nat.sub_mul, Nat.one_mul]
    show _ &&& (1 <<< (p.h - p.hp) - 1) < _
    rw [Nat.one_shiftLeft, Nat.and_two_pow_sub_one_eq_mod, hbits]
    exact Nat.mod_lt _ (Nat.two_pow_pos _)
  have hleaf : parts.leafIdx < 2 ^ p.hp := by
    show _ &&& (1 <<< p.hp - 1) < _
    rw [Nat.one_shiftLeft, Nat.and_two_pow_sub_one_eq_mod]
    exact Nat.mod_lt _ (Nat.two_pow_pos _)
  have htop : verifyLayers sha256 p pkSeed p.d 0 layers forsPk parts.treeIdx parts.leafIdx =
      root := by
    have hrun := verifyLayers_signLayers hsha p pkSeed skSeed (p.d - 1) 0 forsPk htree hleaf
    rw [Nat.sub_add_cancel p.d_pos, Nat.zero_add] at hrun
    exact hrun
  unfold slhVerify
  rw [hsign, hpk, if_neg (not_not.mpr hpkLen), if_neg (not_not.mpr hsigLen), hseedRead,
    hrootRead, hRRead, hforsRead, hlayersRead]
  exact beq_iff_eq.mpr htop

omit hsha in
/-- The empty message under a seed of zero bytes. -/
theorem slhVerify_slhSign_zero :
    let key := slhKeygen Sha256.digest SLH_SHA2_128f (List.replicate 48 0)
    slhVerify Sha256.digest SLH_SHA2_128f [] (slhSign Sha256.digest SLH_SHA2_128f [] key.sk)
      key.pk = true :=
  slhVerify_slhSign Sha256.length_digest SLH_SHA2_128f (by rw [List.length_replicate]; decide) []

end Tower

end Runar.Crypto.SlhDsa
