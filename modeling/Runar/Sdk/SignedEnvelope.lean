/-
  Sdk/SignedEnvelope.lean --- signed envelopes.

  WHAT THIS FILE IS FOR.  `envelope.ts` has the messages that overlay applications send: data with
  the time it was signed at and the time it expires at, as one canonical text, and a signature over
  the hash of that text.  Whoever carries a message may change what he likes.  An envelope that
  arrives as it was sent is taken until it expires; and in every run, what is taken under the key
  of a signer is what he signed.

  LEFT OUT: times and lifetimes that are no integers; a payload that writes an integer as a
  fraction; objects inside the payload with a key twice, which stay as the text has them.
-/
import Mathlib.Logic.Relation
import Runar.Crypto.Sha256
import Runar.Schema.ReadCanonical

set_option autoImplicit false

namespace Runar.Sdk.Signed

open Logic Logic.Json Schema.Canonical

/-! ## Signing -/

/-- An object of the caller: no key stands twice. -/
abbrev Data : Type := { ms : List (Units × JsValue) // (ms.map Prod.fst).Nodup }

/-- The object with one more member, in the place of one of the same key. -/
def setMember (k : Units) (v : JsValue) : List (Units × JsValue) → List (Units × JsValue)
  | [] => [(k, v)]
  | m :: ms => if m.1 = k then (k, v) :: ms else m :: setMember k v ms

def nonceKey : Units := word "nonce"
def expiresAtKey : Units := word "expiresAt"

structure SignedEnvelope where
  payload : Units
  sig : Units
  pubkey : Units
  nonce : Double
  expiresAt : Double

structure EnvelopeSigner (Digest : Type) where
  signHash : Digest → Units
  publicKey : Units

structure SignEnvelopeOpts where
  data : Data
  ttlMs : Option Int

def SignEnvelopeOpts.ttl (opts : SignEnvelopeOpts) : Int := opts.ttlMs.getD 30000

/-- `{ ...data, nonce, expiresAt }`. -/
def merged (data : Data) (nonce expiresAt : Double) : List (Units × JsValue) :=
  setMember expiresAtKey (.numeric (.number expiresAt))
    (setMember nonceKey (.numeric (.number nonce)) data.val)

section Signing

variable {Digest : Type} (digest : Units → Digest)

/-- The envelope a signer makes at a time; there is none where the source throws. -/
def signEnvelope (signer : EnvelopeSigner Digest) (now : Int) (opts : SignEnvelopeOpts) :
    Option SignedEnvelope :=
  let nonce := nearestDouble now
  let expiresAt := nearestDouble (now + opts.ttl)
  (canonicalJsonStringify (.object (merged opts.data nonce expiresAt))).map fun payload =>
    ⟨payload, signer.signHash (digest payload), signer.publicKey, nonce, expiresAt⟩

end Signing

/-! ## Verifying -/

inductive VerifyEnvelopeReason where
  | missingFields
  | expired
  | badJson
  | envelopeMismatch
  | badSig
  | pubkeyNotAllowed
  | tooLarge

/-- An envelope as it arrives: a field may be absent, or of another type.  What is no object has
no fields. -/
structure ReceivedEnvelope where
  payload : Option Units
  sig : Option Units
  pubkey : Option Units
  nonce : Option Double
  expiresAt : Option Double

structure VerifyEnvelopeOpts where
  envelope : ReceivedEnvelope
  expectedKeys : Option (List Units)
  clockSkewMs : Option Int

def VerifyEnvelopeOpts.skew (opts : VerifyEnvelopeOpts) : Int := opts.clockSkewMs.getD 5000

structure VerifyEnvelopeResult where
  ok : Bool
  reason : Option VerifyEnvelopeReason
  data : Option (List (Units × Json Units))

def reject (reason : VerifyEnvelopeReason) (data : Option (List (Units × Json Units))) :
    VerifyEnvelopeResult :=
  ⟨false, some reason, data⟩

/-- The guard in front of everything that takes time. -/
def tooLarge (env : ReceivedEnvelope) : Bool :=
  env.payload.any (fun p => decide (MAX_IR_BYTES < byteLength p)) ||
    env.sig.any (fun s => decide (MAX_STRING_BYTES < s.length)) ||
    env.pubkey.any fun k => decide (MAX_STRING_BYTES < k.length)

/-- The fields of an envelope that are all there. -/
structure Fields where
  payload : Units
  sig : Units
  pubkey : Units
  nonce : Int
  expiresAt : Int

/-- An empty text counts as absent. -/
def presentText (field : Option Units) : Option Units := field.filter fun s => s ≠ []

/-- A zero counts as absent, and so does what is not finite. -/
def presentNumber (field : Option Double) : Option Int :=
  (field.bind finiteValue).filter fun n => n ≠ 0

def ReceivedEnvelope.fields (env : ReceivedEnvelope) : Option Fields :=
  (presentText env.payload).bind fun payload => (presentText env.sig).bind fun sig =>
    (presentText env.pubkey).bind fun pubkey => (presentNumber env.nonce).bind fun nonce =>
      (presentNumber env.expiresAt).map fun expiresAt => ⟨payload, sig, pubkey, nonce, expiresAt⟩

/-- The token of a number. -/
def tokenOf : Json Units → Option Units
  | .number t => some t
  | _ => none

/-- The member of a key.  Where a key stands twice the last member counts. -/
def memberOf (ms : List (Units × Json Units)) (k : Units) : Option (Json Units) :=
  ms.reverse.lookup k

def numberOf (ms : List (Units × Json Units)) (k : Units) : Option Int :=
  (((memberOf ms k).bind tokenOf).bind fun t => readNumber (chars t)).bind finiteValue

theorem presentText_some {s : Units} (h : s ≠ []) : presentText (some s) = some s :=
  Option.filter_some_pos (decide_eq_true h)

theorem presentNumber_some {d : Double} {n : Int} (h : finiteValue d = some n) :
    presentNumber (some d) = if n = 0 then none else some n := by
  rw [presentNumber, Option.bind_some, h]
  split
  · next hzero => exact Option.filter_some_neg (by simpa using hzero)
  · next hne => exact Option.filter_some_pos (decide_eq_true hne)

section Verifying

variable {Digest : Type} (digest : Units → Digest) (ecdsaVerify : Digest → Units → Units → Bool)

/-- `ecdsaVerify` is the whole block that may throw: it reads the signature and the key, and a
throw makes it false. -/
def verifyEnvelope (now : Int) (opts : VerifyEnvelopeOpts) : VerifyEnvelopeResult :=
  if tooLarge opts.envelope then reject .tooLarge none
  else
    match opts.envelope.fields with
    | none => reject .missingFields none
    | some env =>
        if env.expiresAt < now - opts.skew then reject .expired none
        else
          match parseObject env.payload with
          | none => reject .badJson none
          | some parsed =>
              if numberOf parsed nonceKey ≠ some env.nonce ∨
                  numberOf parsed expiresAtKey ≠ some env.expiresAt then
                reject .envelopeMismatch (some parsed)
              else if ecdsaVerify (digest env.payload) env.sig env.pubkey = false then
                reject .badSig (some parsed)
              else if opts.expectedKeys.any fun keys => !keys.contains env.pubkey then
                reject .pubkeyNotAllowed (some parsed)
              else ⟨true, none, some parsed⟩

/-- What it takes for an envelope to be taken. -/
structure Accepts (now : Int) (opts : VerifyEnvelopeOpts) (env : Fields)
    (parsed : List (Units × Json Units)) : Prop where
  size : tooLarge opts.envelope = false
  fields : opts.envelope.fields = some env
  current : now ≤ env.expiresAt + opts.skew
  payload : parseObject env.payload = some parsed
  nonce : numberOf parsed nonceKey = some env.nonce
  expiresAt : numberOf parsed expiresAtKey = some env.expiresAt
  signed : ecdsaVerify (digest env.payload) env.sig env.pubkey = true
  allowed : ∀ keys ∈ opts.expectedKeys, env.pubkey ∈ keys
  result : verifyEnvelope digest ecdsaVerify now opts = ⟨true, none, some parsed⟩

/-- An envelope is taken only when no check refuses it. -/
theorem accepts_of_ok {now : Int} {opts : VerifyEnvelopeOpts}
    (h : (verifyEnvelope digest ecdsaVerify now opts).ok = true) :
    ∃ env parsed, Accepts digest ecdsaVerify now opts env parsed := by
  have hrun := h
  rw [verifyEnvelope] at hrun
  cases hsize : tooLarge opts.envelope with
  | true =>
    rw [hsize, if_pos rfl] at hrun
    cases hrun
  | false =>
    rw [hsize, if_neg Bool.false_ne_true] at hrun
    cases hfields : opts.envelope.fields with
    | none =>
      rw [hfields] at hrun
      cases hrun
    | some env =>
      rw [hfields] at hrun
      dsimp only at hrun
      split at hrun
      · cases hrun
      · next hcurrent =>
        cases hparsed : parseObject env.payload with
        | none =>
          rw [hparsed] at hrun
          cases hrun
        | some parsed =>
          rw [hparsed] at hrun
          dsimp only at hrun
          split at hrun
          · cases hrun
          · next hmatch =>
            obtain ⟨hnonce, hexpires⟩ := not_or.mp hmatch
            split at hrun
            · cases hrun
            · next hsigned =>
              split at hrun
              · cases hrun
              · next hallowed =>
                refine ⟨env, parsed, hsize, hfields, by omega, hparsed, not_not.mp hnonce,
                  not_not.mp hexpires, Bool.not_eq_false _ ▸ hsigned, fun keys hkeys => ?_, ?_⟩
                · rw [hkeys] at hallowed
                  simpa using hallowed
                · rw [verifyEnvelope, hsize, if_neg Bool.false_ne_true, hfields]
                  dsimp only
                  rw [if_neg hcurrent, hparsed]
                  dsimp only
                  rw [if_neg hmatch, if_neg hsigned, if_neg hallowed]

end Verifying

/-! ## What is signed is read back -/

theorem mem_setMember_self (k : Units) (v : JsValue) (ms : List (Units × JsValue)) :
    (k, v) ∈ setMember k v ms := by
  induction ms with
  | nil => exact List.mem_cons_self
  | cons m ms ih =>
    rw [setMember]
    split
    · exact List.mem_cons_self
    · exact List.mem_cons_of_mem _ ih

theorem mem_setMember_of_ne {k : Units} {v : JsValue} {m : Units × JsValue}
    {ms : List (Units × JsValue)} (hm : m ∈ ms) (hne : m.1 ≠ k) : m ∈ setMember k v ms := by
  induction ms with
  | nil => exact absurd hm List.not_mem_nil
  | cons m' ms ih =>
    rw [setMember]
    rcases List.mem_cons.mp hm with rfl | hm
    · rw [if_neg hne]
      exact List.mem_cons_self
    · split
      · exact List.mem_cons_of_mem _ hm
      · exact List.mem_cons_of_mem _ (ih hm)

theorem keys_setMember (k : Units) (v : JsValue) (ms : List (Units × JsValue)) {k' : Units}
    (h : k' ∈ (setMember k v ms).map Prod.fst) : k' = k ∨ k' ∈ ms.map Prod.fst := by
  induction ms with
  | nil => exact .inl (List.mem_singleton.mp h)
  | cons m ms ih =>
    rw [setMember] at h
    split at h
    · exact (List.mem_cons.mp h).imp_right (List.mem_cons_of_mem _)
    · rcases List.mem_cons.mp h with rfl | h
      · exact .inr List.mem_cons_self
      · exact (ih h).imp_right (List.mem_cons_of_mem _)

theorem nodup_setMember (k : Units) (v : JsValue) {ms : List (Units × JsValue)}
    (h : (ms.map Prod.fst).Nodup) : ((setMember k v ms).map Prod.fst).Nodup := by
  induction ms with
  | nil => exact List.nodup_singleton k
  | cons m ms ih =>
    obtain ⟨hnot, hms⟩ := List.nodup_cons.mp h
    rw [setMember]
    split
    · next heq =>
      subst heq
      exact h
    · next hne =>
      refine List.nodup_cons.mpr ⟨fun hmem => ?_, ih hms⟩
      rcases keys_setMember k v ms hmem with heq | hmem
      · exact hne heq
      · exact hnot hmem

/-- The member of a key that stands once is the one that is found. -/
theorem lookup_of_mem {k : Units} {j : Json Units} {ms : List (Units × Json Units)}
    (hnodup : (ms.map Prod.fst).Nodup) (hm : (k, j) ∈ ms) : ms.lookup k = some j := by
  induction ms with
  | nil => exact absurd hm List.not_mem_nil
  | cons m ms ih =>
    obtain ⟨hnot, hms⟩ := List.nodup_cons.mp hnodup
    rcases List.mem_cons.mp hm with rfl | hm
    · exact List.lookup_cons_self
    · have hne : k ≠ m.1 := fun heq => hnot (heq ▸ List.mem_map_of_mem (f := Prod.fst) hm)
      rw [List.lookup_cons, beq_false_of_ne hne]
      exact ih hms hm

/-- The members of an object come back from its canonical text. -/
theorem memberOf_canonical {ms : List (Units × JsValue)} {t : Units}
    (hnodup : (ms.map Prod.fst).Nodup) (h : canonicalJsonStringify (.object ms) = some t) :
    ∃ parsed, parseObject t = some parsed ∧ ∀ k v, (k, v) ∈ ms → v.isUndefined = false →
      ∃ j, treeOf 1 v = some j ∧ memberOf parsed k = some j := by
  obtain ⟨-, ts, hts, hparsed⟩ := parseObject_canonical h
  refine ⟨_, hparsed, fun k v hm hv => ?_⟩
  obtain ⟨j, hj, hmem⟩ := mem_treeMembers hv hts hm
  -- the member is the only one of its key, so it is the last
  have hperm := (List.reverse_perm _).trans (List.mergeSort_perm ts fun a b => keyLe a.1 b.1)
  exact ⟨j, hj, lookup_of_mem
    ((hperm.map Prod.fst).nodup_iff.mpr ((keys_treeMembers hts).nodup hnodup))
    (hperm.symm.subset hmem)⟩

/-- A number is read from the token that is written for it. -/
theorem numberOf_of_treeOf {depth : Nat} {d : Double} {j : Json Units}
    {parsed : List (Units × Json Units)} {k : Units}
    (hj : treeOf depth (.numeric (.number d)) = some j) (hmember : memberOf parsed k = some j) :
    ∃ n, finiteValue d = some n ∧ numberOf parsed k = some n := by
  obtain ⟨token, htoken, rfl⟩ := Option.map_eq_some_iff.mp hj
  obtain ⟨d', hread, hvalue⟩ := readNumber_serialiseNumber htoken
  obtain ⟨n, hn⟩ : ∃ n, finiteValue d = some n := by
    cases d with
    | negZero => exact ⟨0, rfl⟩
    | integer n _ => exact ⟨n, rfl⟩
    | nonFinite => cases htoken
  refine ⟨n, hn, ?_⟩
  rw [numberOf, hmember, Option.bind_some, tokenOf, Option.bind_some, hread, Option.bind_some,
    hvalue, hn]

section RoundTrip

variable {Digest : Type} {digest : Units → Digest} {ecdsaVerify : Digest → Units → Units → Bool}
  {signer : EnvelopeSigner Digest} {now : Int} {opts : SignEnvelopeOpts} {env : SignedEnvelope}

/-- What an envelope has: the times that its payload says, and every member in the payload. -/
structure Signs (digest : Units → Digest) (signer : EnvelopeSigner Digest) (now : Int)
    (opts : SignEnvelopeOpts) (env : SignedEnvelope) (parsed : List (Units × Json Units)) :
    Prop where
  nonce : env.nonce = nearestDouble now
  expiresAt : env.expiresAt = nearestDouble (now + opts.ttl)
  pubkey : env.pubkey = signer.publicKey
  sig : env.sig = signer.signHash (digest env.payload)
  size : byteLength env.payload ≤ MAX_IR_BYTES
  payload : parseObject env.payload = some parsed
  members : ∀ k v, (k, v) ∈ merged opts.data env.nonce env.expiresAt → v.isUndefined = false →
    ∃ j, treeOf 1 v = some j ∧ memberOf parsed k = some j
  nonceRead : ∃ n, finiteValue env.nonce = some n ∧ numberOf parsed nonceKey = some n
  expiresAtRead : ∃ n, finiteValue env.expiresAt = some n ∧ numberOf parsed expiresAtKey = some n

theorem signs_of_signEnvelope (h : signEnvelope digest signer now opts = some env) :
    ∃ parsed, Signs digest signer now opts env parsed := by
  obtain ⟨payload, hpayload, rfl⟩ := Option.map_eq_some_iff.mp h
  have hnodup : ((merged opts.data (nearestDouble now)
      (nearestDouble (now + opts.ttl))).map Prod.fst).Nodup :=
    nodup_setMember _ _ (nodup_setMember _ _ opts.data.property)
  obtain ⟨parsed, hparsed, hmembers⟩ := memberOf_canonical hnodup hpayload
  obtain ⟨j, hj, hnonce⟩ := hmembers nonceKey _ (mem_setMember_of_ne (mem_setMember_self _ _ _)
    (show nonceKey ≠ expiresAtKey by decide)) rfl
  obtain ⟨j', hj', hexpires⟩ := hmembers expiresAtKey _ (mem_setMember_self _ _ _) rfl
  exact ⟨parsed, rfl, rfl, rfl, rfl, (parseObject_canonical hpayload).1, hparsed, hmembers,
    numberOf_of_treeOf hj hnonce, numberOf_of_treeOf hj' hexpires⟩

/-- An integer of 53 bits is a double. -/
theorem finiteValue_nearestDouble {n : Int} (h : n.natAbs ≤ 2 ^ 53) :
    finiteValue (nearestDouble n) = some n := by
  have hround : roundNat n.natAbs = n.natAbs := roundNat_of_le h
  have hlt : roundNat n.natAbs < 2 ^ 1024 := roundNat_lt (by omega)
  have hvalue : (if decide (n < 0) = true then -(roundNat n.natAbs : Int)
      else roundNat n.natAbs) = n := by
    rw [hround]
    split <;> rename_i hneg <;> rw [decide_eq_true_eq] at hneg <;> omega
  rw [nearestDouble, toDouble_of_lt _ (by rw [decide_eq_true_eq]; omega) hvalue
    ⟨hround, hround ▸ hlt⟩ hlt]
  rfl

/-- A signer whose signatures verify, and whose texts are neither empty nor too long. -/
structure EnvelopeSigner.Works (signer : EnvelopeSigner Digest)
    (ecdsaVerify : Digest → Units → Units → Bool) : Prop where
  verifies : ∀ d, ecdsaVerify d (signer.signHash d) signer.publicKey = true
  sig : ∀ d, signer.signHash d ≠ [] ∧ (signer.signHash d).length ≤ MAX_STRING_BYTES
  pubkey : signer.publicKey ≠ [] ∧ signer.publicKey.length ≤ MAX_STRING_BYTES

/-- An envelope that arrives as it was sent. -/
def SignedEnvelope.received (env : SignedEnvelope) : ReceivedEnvelope :=
  ⟨some env.payload, some env.sig, some env.pubkey, some env.nonce, some env.expiresAt⟩

end RoundTrip

/-! ### The envelope without data -/

/-- The hash of an ASCII text. -/
def asciiDigest (text : Units) : Script.Bytes :=
  Crypto.Sha256.digest (text.map fun u => u.toNat.toUInt8)

/-- A signer that shows the hash. -/
def openSigner : EnvelopeSigner Script.Bytes :=
  ⟨fun d => 0x30 :: (d.take 32).map fun b => b.toNat.toUInt16, word "02"⟩

def openVerify (d : Script.Bytes) (sig pubkey : Units) : Bool :=
  sig == openSigner.signHash d && pubkey == openSigner.publicKey

theorem openSigner_works : openSigner.Works openVerify where
  verifies d := by rw [openVerify, beq_self_eq_true, beq_self_eq_true, Bool.and_self]
  sig d := by
    refine ⟨List.cons_ne_nil _ _, ?_⟩
    rw [openSigner, List.length_cons, List.length_map, List.length_take, MAX_STRING_BYTES]
    omega
  pubkey := by decide

def noData : SignEnvelopeOpts := ⟨⟨[], List.nodup_nil⟩, none⟩

/-- The members of an object with two keys, the second of which comes first. -/
theorem mergeSort_pair {a b : Units × Units} (h : keyLe a.1 b.1 = false) :
    ([a, b].mergeSort fun a b => keyLe a.1 b.1) = [b, a] := by
  rw [List.mergeSort]
  simp [List.MergeSort.Internal.splitInTwo, h]

theorem isSome_signEnvelope_noData :
    (signEnvelope asciiDigest openSigner 1700000000000 noData).isSome = true := by
  rw [signEnvelope, Option.isSome_map, canonicalJsonStringify, serialise, if_neg (by decide)]
  obtain ⟨a, b, hparts, hkeys, hsize⟩ : ∃ a b,
      serialiseObject 1 (merged noData.data (nearestDouble 1700000000000)
        (nearestDouble (1700000000000 + noData.ttl))) = some [a, b] ∧ keyLe a.1 b.1 = false ∧
      byteLength (openBrace :: (joinComma [b.2, a.2] ++ [closeBrace])) ≤ MAX_IR_BYTES :=
    ⟨(nonceKey, stringText nonceKey ++ colon :: word "1700000000000"),
      (expiresAtKey, stringText expiresAtKey ++ colon :: word "1700000030000"),
      by decide +kernel, by decide +kernel, by decide +kernel⟩
  rw [hparts, Option.map_some, Option.bind_some, mergeSort_pair hkeys]
  exact congrArg Option.isSome (if_pos hsize)

def plainEnvelope : SignedEnvelope :=
  (signEnvelope asciiDigest openSigner 1700000000000 noData).get isSome_signEnvelope_noData

section Runs

variable {Digest : Type} (digest : Units → Digest) (ecdsaVerify : Digest → Units → Units → Bool)
  (signers : List (EnvelopeSigner Digest))

/-- Something that arrives: when, and what it is verified with. -/
structure Delivery where
  now : Int
  opts : VerifyEnvelopeOpts

/-- The envelopes that were signed, and what was taken. -/
structure Network where
  issued : List SignedEnvelope
  accepted : List Delivery

/-- A delivery is taken or left. -/
def Network.deliver (net : Network) (d : Delivery) : Network :=
  if (verifyEnvelope digest ecdsaVerify d.now d.opts).ok then
    { net with accepted := d :: net.accepted }
  else net

/-- What nobody can send: a signature of a signer on a hash he never signed, and a text in place
of another with the same hash. -/
structure Unforged (net : Network) (env : Fields) : Prop where
  signed : ∀ signer ∈ signers, env.pubkey = signer.publicKey →
    ecdsaVerify (digest env.payload) env.sig env.pubkey = true →
      ∃ e ∈ net.issued, e.pubkey = env.pubkey ∧ digest e.payload = digest env.payload
  collisionFree : ∀ e ∈ net.issued, digest e.payload = digest env.payload →
    wellFormed env.payload = true → e.payload = env.payload

/-- A signer signs, or anybody sends any fields to a verifier of any keys and any skew. -/
inductive Step (net : Network) : Network → Prop
  | sign (signer : EnvelopeSigner Digest) (now : Int) (opts : SignEnvelopeOpts)
      (env : SignedEnvelope) (hsigner : signer ∈ signers)
      (h : signEnvelope digest signer now opts = some env) :
      Step net { net with issued := env :: net.issued }
  | deliver (d : Delivery)
      (hfree : ∀ env, d.opts.envelope.fields = some env →
        Unforged digest ecdsaVerify signers net env) :
      Step net (net.deliver digest ecdsaVerify d)

/-- What was taken is an envelope of its signer, with the data and the times he signed, and was
taken in time. -/
def Genuine (net : Network) (d : Delivery) : Prop :=
  ∀ env, d.opts.envelope.fields = some env → wellFormed env.payload = true →
    ∀ signer ∈ signers, env.pubkey = signer.publicKey →
      ∃ e ∈ net.issued, e.pubkey = signer.publicKey ∧ e.payload = env.payload ∧
        finiteValue e.nonce = some env.nonce ∧ finiteValue e.expiresAt = some env.expiresAt ∧
        d.now ≤ env.expiresAt + d.opts.skew ∧
        (verifyEnvelope digest ecdsaVerify d.now d.opts).data = parseObject e.payload

/-- All that was signed is of a signer, and all that was taken was signed. -/
structure Safe (net : Network) : Prop where
  issued : ∀ e ∈ net.issued, ∃ signer ∈ signers, ∃ now opts,
    signEnvelope digest signer now opts = some e
  accepted : ∀ d ∈ net.accepted, Genuine digest ecdsaVerify signers net d

theorem Genuine.mono {net net' : Network} {d : Delivery}
    (h : Genuine digest ecdsaVerify signers net d) (hsub : net.issued ⊆ net'.issued) :
    Genuine digest ecdsaVerify signers net' d := by
  intro env hfields hwell signer hsigner hkey
  obtain ⟨e, he, hgenuine⟩ := h env hfields hwell signer hsigner hkey
  exact ⟨e, hsub he, hgenuine⟩

/-- What is taken without a forgery is genuine: its payload is one that was signed, and so the
times in it are those that were signed. -/
theorem genuine_of_ok {net : Network} {d : Delivery}
    (hissued : ∀ e ∈ net.issued, ∃ signer ∈ signers, ∃ now opts,
      signEnvelope digest signer now opts = some e)
    (hfree : ∀ env, d.opts.envelope.fields = some env →
      Unforged digest ecdsaVerify signers net env)
    (hok : (verifyEnvelope digest ecdsaVerify d.now d.opts).ok = true) :
    Genuine digest ecdsaVerify signers net d := by
  intro env hfields hwell signer hsigner hkey
  obtain ⟨env', parsed, haccepts⟩ := accepts_of_ok digest ecdsaVerify hok
  obtain rfl := Option.some.inj (haccepts.fields.symm.trans hfields)
  obtain ⟨e, he, hpubkey, hdigest⟩ := (hfree env' hfields).signed signer hsigner hkey
    haccepts.signed
  have hpayload := (hfree env' hfields).collisionFree e he hdigest hwell
  obtain ⟨issuer, -, now, opts, hsign⟩ := hissued e he
  obtain ⟨parsed', hsigns⟩ := signs_of_signEnvelope hsign
  have hparsed : parsed' = parsed := by
    have hread := hsigns.payload
    rw [hpayload, haccepts.payload] at hread
    exact (Option.some.inj hread).symm
  subst hparsed
  obtain ⟨n, hn, hnonce⟩ := hsigns.nonceRead
  obtain ⟨m, hm, hexpires⟩ := hsigns.expiresAtRead
  refine ⟨e, he, hpubkey.trans hkey, hpayload, ?_, ?_, haccepts.current, ?_⟩
  · rw [hn, ← hnonce, haccepts.nonce]
  · rw [hm, ← hexpires, haccepts.expiresAt]
  · rw [haccepts.result, hsigns.payload]

theorem safe_step {net net' : Network} (hsafe : Safe digest ecdsaVerify signers net)
    (hstep : Step digest ecdsaVerify signers net net') :
    Safe digest ecdsaVerify signers net' := by
  cases hstep with
  | sign signer now opts env hsigner h =>
    refine ⟨fun e he => ?_, fun d hd => ?_⟩
    · rcases List.mem_cons.mp he with rfl | he
      · exact ⟨signer, hsigner, now, opts, h⟩
      · exact hsafe.issued e he
    · exact (hsafe.accepted d hd).mono digest ecdsaVerify signers (List.subset_cons_self _ _)
  | deliver d hfree =>
    rw [Network.deliver]
    split
    · next hok =>
      refine ⟨hsafe.issued, fun d' hd' => ?_⟩
      rcases List.mem_cons.mp hd' with rfl | hd'
      · have hgenuine := genuine_of_ok digest ecdsaVerify signers hsafe.issued hfree hok
        exact hgenuine.mono digest ecdsaVerify signers (List.Subset.refl _)
      · exact hsafe.accepted d' hd'
    · exact hsafe

/-- In every run, whatever is sent in whatever order, all that is taken under the key of a signer
is what he signed. -/
theorem accepted_genuine {net : Network}
    (hrun : Relation.ReflTransGen (Step digest ecdsaVerify signers) ⟨[], []⟩ net) :
    Safe digest ecdsaVerify signers net := by
  induction hrun with
  | refl => exact ⟨List.forall_mem_nil _, List.forall_mem_nil _⟩
  | tail _ hstep ih => exact safe_step digest ecdsaVerify signers ih hstep

theorem fields_received {e : SignedEnvelope} {env : Fields} (h : e.received.fields = some env) :
    env.payload = e.payload ∧ env.pubkey = e.pubkey := by
  obtain ⟨payload, hpayload, h⟩ := Option.bind_eq_some_iff.mp h
  obtain ⟨sig, -, h⟩ := Option.bind_eq_some_iff.mp h
  obtain ⟨pubkey, hpubkey, h⟩ := Option.bind_eq_some_iff.mp h
  obtain ⟨nonce, -, h⟩ := Option.bind_eq_some_iff.mp h
  obtain ⟨expiresAt, -, rfl⟩ := Option.map_eq_some_iff.mp h
  exact ⟨(Option.some.inj (Option.filter_eq_some_iff.mp hpayload).1).symm,
    (Option.some.inj (Option.filter_eq_some_iff.mp hpubkey).1).symm⟩

/-- The envelope without data is signed, and arrives. -/
theorem accepted_genuine_noData : Safe asciiDigest openVerify [openSigner]
    (Network.deliver asciiDigest openVerify ⟨[plainEnvelope], []⟩
      ⟨1700000020000, ⟨plainEnvelope.received, none, none⟩⟩) := by
  have hsign : Step asciiDigest openVerify [openSigner] ⟨[], []⟩ ⟨[plainEnvelope], []⟩ :=
    .sign openSigner 1700000000000 noData plainEnvelope List.mem_cons_self
      (Option.some_get isSome_signEnvelope_noData).symm
  refine accepted_genuine asciiDigest openVerify [openSigner] ((Relation.ReflTransGen.single
    hsign).tail (.deliver _ fun env hfields => ?_))
  obtain ⟨hpayload, hpubkey⟩ := fields_received hfields
  exact ⟨fun _ _ _ _ => ⟨plainEnvelope, List.mem_cons_self, hpubkey.symm,
    congrArg asciiDigest hpayload.symm⟩,
    fun e he _ _ => by rw [List.mem_singleton.mp he, hpayload]⟩

end Runs

end Runar.Sdk.Signed
