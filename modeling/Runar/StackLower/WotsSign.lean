/-
  StackLower/WotsSign.lean --- making WOTS+ keys and signatures.

  WHAT THIS FILE IS FOR.  A key has the ends of 67 chains; a signature has, on each chain,
  the value that the message's digit says.  What is signed is accepted by the reference and by
  the emitted code, and the checksum digits keep a signature from being walked forward to that
  of another message.
-/
import Runar.Crypto.Sha256
import Runar.Logic.HashSignatures
import Runar.StackLower.Wots

set_option autoImplicit false

namespace Runar.StackLower.Wots

open Script HashSignatures

/-! ## Keys and signatures -/

structure WOTSKeyPair where
  sk : List Bytes
  pk : Bytes

/-- The bytes of `i`, the highest first. -/
def indexBytes (i : Nat) : Bytes :=
  [(i >>> 24 &&& 0xff).toUInt8, (i >>> 16 &&& 0xff).toUInt8, (i >>> 8 &&& 0xff).toUInt8,
    (i &&& 0xff).toUInt8]

/-- A seed as `set` takes it into the buffer that the index goes behind. -/
abbrev Seed : Type := { s : Bytes // s.length ≤ N + 4 }

/-- `N` bytes: a public seed, or what `randomBytes` gives. -/
abbrev Element : Type := { x : Bytes // x.length = N }

/-- Secret key element `i`: from the seed, or drawn.  The index overwrites what of the seed
does not fit in front of it. -/
def secretElement (sha256 : Bytes → Bytes) (seed : Option Seed) (drawn : Nat → Element)
    (i : Nat) : Bytes :=
  match seed with
  | some s => sha256 ((s.val ++ List.replicate N 0).take N ++ indexBytes i)
  | none => (drawn i).val

/-- `randomBytes` is what its `k`-th call gives; a public seed that is not given is drawn before
the secret key is. -/
def wotsKeygen (sha256 : Bytes → Bytes) (randomBytes : Nat → Element) (seed : Option Seed)
    (pubSeed : Option Element) : WOTSKeyPair :=
  let ps := (pubSeed.getD (randomBytes 0)).val
  let drawn := fun i => randomBytes (if pubSeed.isSome then i else i + 1)
  let sk := (List.range LEN).map (secretElement sha256 seed drawn)
  let concat := (List.range LEN).flatMap fun i => chain sha256 (sk.getD i []) 0 (W - 1) ps i
  { sk := sk, pk := ps ++ sha256 concat }

def wotsSign (sha256 : Bytes → Bytes) (msg : Bytes) (sk : List Bytes) (pubSeed : Bytes) : Bytes :=
  let digits := allDigits (sha256 msg)
  (List.range LEN).flatMap fun i =>
    chain sha256 (sk.getD i []) 0 (digits.getD i 0) pubSeed i

/-! ## What is signed is accepted -/

section Accepted

variable {sha256 : Bytes → Bytes}

theorem chain_eq_walk (x : Bytes) (start steps : Nat) (pubSeed : Bytes) (i : Nat) :
    chain sha256 x start steps pubSeed i = walk (F sha256 pubSeed i) start steps x := by
  induction steps with
  | zero => rfl
  | succ n ih => rw [chain_succ, walk_succ, ih]

theorem length_chain (hsha : ∀ x, (sha256 x).length = N) {x : Bytes} (hx : x.length = N)
    (start steps : Nat) (pubSeed : Bytes) (i : Nat) :
    (chain sha256 x start steps pubSeed i).length = N := by
  cases steps with
  | zero => exact hx
  | succ n => rw [chain_succ, F, hsha]

theorem digit_le {hash : Bytes} (hhash : hash.length = N) (i : Nat) :
    (allDigits hash).getD i 0 ≤ W - 1 := by
  have hlength : (extractDigits hash).length = 64 := by rw [length_extractDigits, hhash]; rfl
  by_cases hmsg : i < hash.length * 2
  · rw [getD_allDigits hmsg, List.getD_eq_getElem _ _ (by rw [length_extractDigits]; exact hmsg)]
    exact le_of_mem_extractDigits (List.getElem_mem _)
  · have h64 : 64 ≤ i := by
      rw [hhash] at hmsg
      exact Nat.le_of_not_lt hmsg
    by_cases hsum : i < 67
    · have hle := checksum_le (allDigits hash) hhash rfl (i - 64) (by omega)
      rwa [show 64 + (i - 64) = i by omega] at hle
    · have htotal : (allDigits hash).length = 67 := by
        rw [allDigits, List.length_append, hlength]
        rfl
      rw [List.getD_eq_default _ _ (by omega)]
      exact Nat.zero_le _

theorem length_wotsSign (hsha : ∀ x, (sha256 x).length = N) (msg : Bytes) {sk : List Bytes}
    (hsk : ∀ i < LEN, (sk.getD i []).length = N) (pubSeed : Bytes) :
    (wotsSign sha256 msg sk pubSeed).length = LEN * N :=
  length_rows fun i hi => length_chain hsha (hsk i hi) _ _ _ _

/-- On every chain the signature and the verifier's walk make up the whole chain. -/
theorem endpoint_wotsSign (hsha : ∀ x, (sha256 x).length = N) (msg : Bytes) {sk : List Bytes}
    (hsk : ∀ i < LEN, (sk.getD i []).length = N) (pubSeed : Bytes) {i : Nat} (hi : i < LEN) :
    endpoint sha256 (wotsSign sha256 msg sk pubSeed) pubSeed (allDigits (sha256 msg)) i =
      chain sha256 (sk.getD i []) 0 (W - 1) pubSeed i := by
  have hrows : ((wotsSign sha256 msg sk pubSeed).drop (i * N)).take N =
      chain sha256 (sk.getD i []) 0 ((allDigits (sha256 msg)).getD i 0) pubSeed i := by
    have hslice := slice_rows (fun i =>
      chain sha256 (sk.getD i []) 0 ((allDigits (sha256 msg)).getD i 0) pubSeed i)
      (fun j hj => length_chain hsha (hsk j hj) 0 _ pubSeed j) hi []
    rwa [List.append_nil] at hslice
  have hdigit := digit_le (hsha msg) i
  rw [endpoint, hrows, chain_eq_walk, chain_eq_walk, chain_eq_walk]
  exact walk_to_top _ hdigit _

theorem length_secretElement (hsha : ∀ x, (sha256 x).length = N) (seed : Option Seed)
    (drawn : Nat → Element) (i : Nat) : (secretElement sha256 seed drawn i).length = N := by
  cases seed with
  | none => exact (drawn i).property
  | some s => exact hsha _

theorem length_getD_wotsKeygen (hsha : ∀ x, (sha256 x).length = N) (randomBytes : Nat → Element)
    (seed : Option Seed) (pubSeed : Option Element) {i : Nat} (hi : i < LEN) :
    ((wotsKeygen sha256 randomBytes seed pubSeed).sk.getD i []).length = N := by
  let drawn := fun i => randomBytes (if pubSeed.isSome then i else i + 1)
  have hlen : i < ((List.range LEN).map (secretElement sha256 seed drawn)).length := by
    rw [List.length_map, List.length_range]
    exact hi
  unfold wotsKeygen
  rw [List.getD_eq_getElem _ _ hlen, List.getElem_map]
  exact length_secretElement hsha seed drawn _

/-- **Signing**: under every key that key generation makes, what is signed with it is accepted
by the reference and leaves a truth value on the stack of the emitted code. -/
theorem wotsSign_accepted (cfg : Config) (slots : Slots) (hsha : ∀ x, (cfg.sha256 x).length = N)
    (randomBytes : Nat → Element) (seed : Option Seed) (pubSeed : Option Element) (msg : Bytes) :
    let key := wotsKeygen cfg.sha256 randomBytes seed pubSeed
    let sig := wotsSign cfg.sha256 msg key.sk (key.pk.take N)
    wotsVerify cfg.sha256 msg sig key.pk = true ∧
      RunsAs cfg slots emitVerifyWOTS [key.pk, sig, msg] (.ok [boolBytes true]) := by
  intro key sig
  let ps := pubSeed.getD (randomBytes 0)
  have hsk : ∀ i < LEN, (key.sk.getD i []).length = N := fun i hi =>
    length_getD_wotsKeygen hsha randomBytes seed pubSeed hi
  have htake : key.pk.take N = ps.val := List.take_left' ps.property
  have hdrop : key.pk.drop N = cfg.sha256 ((List.range LEN).flatMap fun i =>
      chain cfg.sha256 (key.sk.getD i []) 0 (W - 1) ps.val i) := List.drop_left' ps.property
  have hpk : key.pk.length = 2 * N := by
    rw [← List.take_append_drop N key.pk, List.length_append, htake, hdrop, ps.property, hsha]
    rfl
  have hsig : sig.length = LEN * N := length_wotsSign hsha msg hsk _
  have hends : (List.range LEN).flatMap (endpoint cfg.sha256 sig (key.pk.take N)
      (allDigits (cfg.sha256 msg))) = (List.range LEN).flatMap fun i =>
        chain cfg.sha256 (key.sk.getD i []) 0 (W - 1) ps.val i := by
    refine congrArg List.flatten (List.map_congr_left fun i hi => ?_)
    rw [← htake]
    exact endpoint_wotsSign hsha msg hsk _ (List.mem_range.mp hi)
  have hroot : (cfg.sha256 ((List.range LEN).flatMap (endpoint cfg.sha256 sig (key.pk.take N)
      (allDigits (cfg.sha256 msg)))) == key.pk.drop N) = true := by
    rw [hends, hdrop]
    exact beq_self_eq_true _
  constructor
  · have hkept : (key.pk.drop N).take N = key.pk.drop N :=
      List.take_of_length_le (by rw [hdrop, hsha])
    rw [wotsVerify, if_neg (not_not.mpr hsig), if_neg (not_not.mpr hpk)]
    show (cfg.sha256 _ == (key.pk.drop N).take N) = true
    rw [hkept]
    exact hroot
  · have hrun := runsAs_emitVerifyWOTS cfg slots hsha msg sig key.pk
    have hlong : 32 ≤ key.pk.length ∧ 2144 ≤ sig.length := by
      rw [hpk, hsig]
      decide
    rw [if_pos hlong] at hrun
    have hcode : (cfg.sha256 (endpoints cfg.sha256 sig (key.pk.take 32)
        (allDigits (cfg.sha256 msg)) 67) == key.pk.drop 32) = true := hroot
    rwa [hcode] at hrun

/-- 32 zero bytes. -/
def zeroElement : Element := ⟨List.replicate 32 (UInt8.ofNat 0), List.length_replicate⟩

/-- A machine with the real hash. -/
def sha256Config : Config := .hashing Crypto.Sha256.digest

/-- The empty message under a public seed of zero bytes and an empty seed. -/
theorem wotsSign_accepted_zero :
    let key := wotsKeygen sha256Config.sha256 (fun _ => zeroElement) (some ⟨[], by decide⟩)
      (some zeroElement)
    let sig := wotsSign sha256Config.sha256 [] key.sk (key.pk.take N)
    wotsVerify sha256Config.sha256 [] sig key.pk = true ∧
      RunsAs sha256Config ⟨fun _ _ => [], []⟩ emitVerifyWOTS [key.pk, sig, []]
        (.ok [boolBytes true]) :=
  wotsSign_accepted sha256Config ⟨fun _ _ => [], []⟩ Crypto.Sha256.length_digest
    (fun _ => zeroElement) (some ⟨[], by decide⟩) (some zeroElement) []

end Accepted

/-! ## No signature walks forward to another -/

section Forward

theorem extractDigits_injective {hash hash' : Bytes}
    (h : extractDigits hash = extractDigits hash') : hash = hash' := by
  induction hash generalizing hash' with
  | nil =>
    cases hash' with
    | nil => rfl
    | cons b' rest' => cases h
  | cons b rest ih =>
    cases hash' with
    | nil => cases h
    | cons b' rest' =>
      rw [extractDigits_cons, extractDigits_cons, List.cons.injEq, List.cons.injEq] at h
      obtain ⟨hhigh, hlow, hrest⟩ := h
      have hparts : ∀ x : UInt8, x.toNat >>> 4 &&& 0x0f = x.toNat / 16 ∧
          x.toNat &&& 0x0f = x.toNat % 16 := by
        intro x
        have hlt : x.toNat < 256 := x.toNat_lt
        have hmod : x.toNat >>> 4 &&& 0x0f = x.toNat >>> 4 % 16 :=
          Nat.and_two_pow_sub_one_eq_mod _ 4
        rw [hmod, Nat.shiftRight_eq_div_pow]
        exact ⟨by omega, Nat.and_two_pow_sub_one_eq_mod _ 4⟩
      rw [(hparts b).1, (hparts b').1] at hhigh
      rw [(hparts b).2, (hparts b').2] at hlow
      have hbyte : b = b' := UInt8.toNat_inj.mp (by omega)
      rw [hbyte, ih hrest]

theorem foldl_room (digits : List Nat) (sum : Nat) :
    digits.foldl (fun sum d => sum + ((W - 1) - d)) sum = sum + room (W - 1) digits := by
  induction digits generalizing sum with
  | nil => rfl
  | cons d digits ih =>
    rw [List.foldl_cons, ih, room, room, List.map_cons, List.sum_cons, Nat.add_assoc]

theorem room_le_of_length (digits : List Nat) :
    room (W - 1) digits ≤ digits.length * (W - 1) := by
  induction digits with
  | nil => exact Nat.zero_le _
  | cons d digits ih =>
    simp only [room, List.map_cons, List.sum_cons, List.length_cons, Nat.succ_mul] at ih ⊢
    omega

/-- The checksum digits stand for the room of the message digits. -/
theorem value_checksumDigits {digits : List Nat} (hlen : digits.length = LEN1) :
    value W (checksumDigits digits) = room (W - 1) digits := by
  have hroom : room (W - 1) digits ≤ 64 * 15 := by
    have hle := room_le_of_length digits
    rwa [hlen] at hle
  have hdigits : ∀ sum : Nat, value W (checksumLoop LEN2 sum []) =
      (sum / 16 / 16 % 16 * 16 + sum / 16 % 16) * 16 + sum % 16 := by
    intro sum
    show ((0 * 16 + sum / 16 / 16 % 16) * 16 + sum / 16 % 16) * 16 + sum % 16 = _
    rw [Nat.zero_mul, Nat.zero_add]
  rw [checksumDigits, hdigits, foldl_room, Nat.zero_add]
  omega

/-- **No way forward**: of two messages with different digests, each has a chain on which its
signature stands before that of the other, so that neither signature is reached from the other
by walking its chains. -/
theorem allDigits_incomparable {hash hash' : Bytes} (hhash : hash.length = N)
    (hhash' : hash'.length = N) (hne : hash ≠ hash') :
    (∃ i < LEN, (allDigits hash').getD i 0 < (allDigits hash).getD i 0) ∧
      ∃ i < LEN, (allDigits hash).getD i 0 < (allDigits hash').getD i 0 := by
  have hone : ∀ hash hash' : Bytes, hash.length = N → hash'.length = N → hash ≠ hash' →
      ∃ i < LEN, (allDigits hash').getD i 0 < (allDigits hash).getD i 0 := by
    intro hash hash' hhash hhash' hne
    by_contra hnone
    have hle : ∀ i < LEN, (allDigits hash).getD i 0 ≤ (allDigits hash').getD i 0 := fun i hi =>
      Nat.le_of_not_lt fun hlt => hnone ⟨i, hi, hlt⟩
    have hlen : (extractDigits hash).length = LEN1 := by rw [length_extractDigits, hhash]; rfl
    have hlen' : (extractDigits hash').length = LEN1 := by rw [length_extractDigits, hhash']; rfl
    have hmsg : List.Forall₂ (· ≤ ·) (extractDigits hash) (extractDigits hash') := by
      refine List.forall₂_iff_get.mpr ⟨hlen.trans hlen'.symm, fun i hi hi' => ?_⟩
      have hdigit := hle i (by rw [hlen] at hi; exact Nat.lt_of_lt_of_le hi (by decide))
      rw [allDigits, allDigits, List.getD_append _ _ _ _ hi, List.getD_append _ _ _ _ hi',
        List.getD_eq_getElem _ _ hi, List.getD_eq_getElem _ _ hi'] at hdigit
      exact hdigit
    have hsum : List.Forall₂ (· ≤ ·) (checksumDigits (extractDigits hash))
        (checksumDigits (extractDigits hash')) := by
      refine List.forall₂_iff_get.mpr ⟨rfl, fun i hi hi' => ?_⟩
      have hlt : i < LEN2 := hi
      have hdigit := hle (LEN1 + i) (Nat.add_lt_add_left hlt LEN1)
      rw [allDigits, allDigits, List.getD_append_right _ _ _ _ (by omega),
        List.getD_append_right _ _ _ _ (by omega), hlen, hlen', Nat.add_sub_cancel_left,
        List.getD_eq_getElem _ _ hi, List.getD_eq_getElem _ _ hi'] at hdigit
      exact hdigit
    exact hne (extractDigits_injective (eq_of_forall₂_checksum hmsg hsum
      (fun d hd => le_of_mem_extractDigits hd) (value_checksumDigits hlen)
      (value_checksumDigits hlen')))
  exact ⟨hone hash hash' hhash hhash' hne, hone hash' hash hhash' hhash hne.symm⟩

/-- Two digests that differ in the last byte. -/
theorem allDigits_incomparable_last :
    let hash : Bytes := List.replicate 32 0
    let hash' : Bytes := List.replicate 31 0 ++ [1]
    (∃ i < LEN, (allDigits hash').getD i 0 < (allDigits hash).getD i 0) ∧
      ∃ i < LEN, (allDigits hash).getD i 0 < (allDigits hash').getD i 0 :=
  allDigits_incomparable (by decide) (by decide) (by decide)

end Forward

end Runar.StackLower.Wots
