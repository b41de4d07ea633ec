/-
  Typecheck/Affine.lean --- what is booked is passed once.

  WHAT THIS FILE IS FOR.  The checker books the origin of what a call consumes, and
  reports one that is booked already.  So the ledgers before and after an expression bound
  what a run of it spends, as long as what it passes is what is booked.  An accepted
  contract passes every signature and preimage once, in every run in which nothing unbooked
  is passed.

  AND ONLY THEN.  A private method has a ledger of its own.
-/
import Runar.Typecheck.Passing

set_option autoImplicit false

namespace Runar.Typecheck

open Ast Logic

/-! ## Ledgers -/

/-- What a run passes, and what of it was not booked. -/
def passLedger : Ledger PassEvent String where
  excuse := fun
    | .unbooked _ => True
    | .consumed _ => False
  spent := fun
    | .consumed key => some key
    | .unbooked _ => none

/-- If the checker counts, it goes through a check without a report, from the ledger `lo`
to the ledger `hi`. -/
def Booked {α : Type} (counted : Bool) (aliases : List (String × String)) (m : Check α)
    (lo hi : List String) : Prop :=
  lo ⊆ hi ∧ (counted = true → ∃ s : CheckState, s.affineAliases = aliases ∧
    s.consumedValues = lo ∧ (m.run s).2.consumedValues = hi ∧ (m.run s).2.errors = s.errors)

/-- The same, from a given state. -/
def BookedAt {α : Type} (counted : Bool) (s : CheckState) (m : Check α) (lo hi : List String) :
    Prop :=
  lo ⊆ hi ∧ (counted = true → s.consumedValues = lo ∧ (m.run s).2.consumedValues = hi ∧
    (m.run s).2.errors = s.errors)

section Ledgers

variable {α β : Type} {counted : Bool} {aliases : List (String × String)} {s : CheckState}
  {lo hi : List String}

theorem Booked.free {m : Check α} (h : lo ⊆ hi) : Booked false aliases m lo hi :=
  ⟨h, fun hc => Bool.noConfusion hc⟩

theorem BookedAt.free {m : Check α} (h : lo ⊆ hi) : BookedAt false s m lo hi :=
  ⟨h, fun hc => Bool.noConfusion hc⟩

theorem BookedAt.booked {m : Check α} (h : BookedAt counted s m lo hi) :
    Booked counted s.affineAliases m lo hi :=
  ⟨h.1, fun hc => ⟨s, rfl, h.2 hc⟩⟩

theorem Booked.quiet {m : Check α} (h : Booked true aliases m lo hi) : Quiet m := by
  obtain ⟨s, -, -, -, herrors⟩ := h.2 rfl
  exact ⟨s, herrors⟩

theorem Booked.bind {m : Check α} {f : α → Check β} [hm : Plain m] [hf : ∀ a, Plain (f a)]
    (h : Booked counted aliases (m >>= f) lo hi) :
    ∃ mid, Booked counted aliases m lo mid ∧ Booked counted aliases (f (value m)) mid hi := by
  cases counted with
  | false => exact ⟨lo, .free (List.Subset.refl _), .free h.1⟩
  | true =>
    obtain ⟨s, rfl, rfl, hhi, herrors⟩ := h.2 rfl
    obtain ⟨hfirst, hsecond⟩ := errors_split herrors
    rw [run_bind, value_run] at hhi
    refine ⟨(m.run s).2.consumedValues, ⟨hm.consumes s, fun _ => ⟨s, rfl, rfl, rfl, hfirst⟩⟩,
      ⟨?_, fun _ => ⟨(m.run s).2, hm.aliases s, rfl, hhi, hsecond⟩⟩⟩
    rw [← hhi]
    exact (hf (value m)).consumes _

theorem BookedAt.bind {m : Check α} {f : α → Check β} [hm : Thrifty m] [hf : ∀ a, Thrifty (f a)]
    (h : BookedAt counted s (m >>= f) lo hi) :
    ∃ mid, BookedAt counted s m lo mid ∧
      BookedAt counted (bookedAfter m s) (f (value m)) mid hi := by
  cases counted with
  | false => exact ⟨lo, .free (List.Subset.refl _), .free h.1⟩
  | true =>
    obtain ⟨rfl, hhi, herrors⟩ := h.2 rfl
    obtain ⟨hfirst, hsecond⟩ := errors_split herrors
    rw [run_bind, value_run] at hhi
    refine ⟨(m.run s).2.consumedValues, ⟨hm.consumes s, fun _ => ⟨rfl, rfl, hfirst⟩⟩,
      ⟨?_, fun _ => ⟨rfl, hhi, hsecond⟩⟩⟩
    rw [← hhi]
    exact (hf (value m)).consumes _

/-- A requirement that is met changes nothing. -/
theorem BookedAt.require {c : Bool} {d : Diagnostic} {f : Unit → Check β}
    [hf : ∀ a, Thrifty (f a)] (h : BookedAt counted s (require c d >>= f) lo hi) :
    BookedAt counted s (f ()) lo hi := by
  refine ⟨h.1, fun hc => ?_⟩
  obtain ⟨hlo, hhi, herrors⟩ := h.2 hc
  have hmet : c = true := Quiet.require ⟨s, (errors_split herrors).1⟩
  subst hmet
  exact ⟨hlo, hhi, herrors⟩

theorem aliases_after (m : Check α) [hm : Plain m] (s : CheckState) :
    (bookedAfter m s).affineAliases = s.affineAliases := hm.aliases s

end Ledgers

/-! ## What is passed -/

section Passing

variable {counted : Bool} {aliases : List (String × String)} {lo hi : List String}

theorem keys_unbooked (o : Origin) :
    (∃ e ∈ o.keys.flatMap fun key => [PassEvent.unbooked key, .consumed key], passLedger.excuse e) ∨
      (o.keys.flatMap fun key => [PassEvent.unbooked key, .consumed key]) = [] := by
  cases o.keys with
  | nil => exact Or.inr rfl
  | cons key rest => exact Or.inl ⟨.unbooked key, by simp, trivial⟩

theorem fresh_passEvents {booked : Option String} (o : Origin)
    (h : ∀ key, booked = some key → key ∉ lo ∧ key ∈ hi) :
    Fresh passLedger lo hi (passEvents booked o) := by
  have hunbooked : ∀ o : Origin, Fresh passLedger lo hi
      (o.keys.flatMap fun key => [PassEvent.unbooked key, .consumed key]) := by
    intro o
    rcases keys_unbooked o with hexcuse | hnil
    · exact Or.inl hexcuse
    · rw [hnil]
      exact .nil
  cases o with
  | entity key =>
    unfold passEvents
    dsimp only
    by_cases hbooked : booked = some key
    · rw [if_pos hbooked]
      refine Or.inr ⟨List.nodup_singleton _, ?_⟩
      intro k hk
      obtain rfl : k = key := List.mem_singleton.mp hk
      exact h k hbooked
    · rw [if_neg hbooked]
      exact Or.inl ⟨.unbooked key, List.mem_cons_self, trivial⟩
  | array elements => exact hunbooked (.array elements)
  | other => exact hunbooked .other

/-- What is booked for a call was not booked before it, and is after. -/
theorem booked_fresh {tc : TypeChecker} {env : TypeEnv} {func : String} {args : List Expression}
    (h : Booked true aliases (checkAffineConsumption tc env func args) lo hi) {key : String}
    (hkey : bookedKey tc env aliases func args = some key) : key ∉ lo ∧ key ∈ hi := by
  obtain ⟨s, rfl, rfl, hhi, herrors⟩ := h.2 rfl
  obtain ⟨⟨arg, origin⟩, horigin, rfl⟩ := Option.map_eq_some_iff.mp hkey
  rw [run_affineConsumption, horigin] at hhi herrors
  dsimp only at hhi herrors ⊢
  by_cases hcontains : s.consumedValues.contains origin = true
  · rw [if_pos hcontains] at herrors
    exact absurd (List.append_right_eq_self.mp herrors) (List.cons_ne_nil _ _)
  · rw [if_neg hcontains] at hhi
    rw [← hhi]
    refine ⟨?_, List.mem_cons_self⟩
    rw [List.contains_iff_mem] at hcontains
    exact hcontains

theorem spends_passTo {tc : TypeChecker} {env : TypeEnv} {func : String} {args : List Expression}
    (h : consumedArg func ≠ none →
      Booked counted aliases (checkAffineConsumption tc env func args) lo hi) (os : List Origin) :
    Spends passLedger lo hi
      (passTo (if counted then bookedKey tc env aliases func args else none) func os) := by
  unfold passTo
  cases harg : (consumedArg func).bind (os[·]?) with
  | none => exact .pure ()
  | some o =>
    refine .recordAll (fresh_passEvents o fun key hkey => ?_)
    have hconsumed : consumedArg func ≠ none := by
      intro hnone
      rw [hnone] at harg
      exact nomatch harg
    cases counted with
    | false => exact nomatch hkey
    | true => exact booked_fresh (h hconsumed) hkey

/-! ## What is not passed -/

theorem spends_choose : Spends passLedger lo lo choose := by
  refine .quietly (List.Subset.refl _) .read fun w => ?_
  split
  · exact .fail _
  · exact .quietly (List.Subset.refl _) (.update _) fun _ => .pure _

theorem spends_chooseBool : Spends passLedger lo lo chooseBool :=
  .quietly (List.Subset.refl _) spends_choose fun _ => .pure _

theorem spends_originAt : ∀ e : Expression, Spends passLedger lo lo (originAt e)
  | .identifier _ | .propertyAccess _ => .quietly (List.Subset.refl _) .read fun _ => .pure _
  | .indexAccess object _ =>
      .quietly (List.Subset.refl _) (spends_originAt object) fun _ =>
        .quietly (List.Subset.refl _) spends_choose fun _ => .pure _
  | .bigintLiteral _ | .boolLiteral _ | .bytestringLiteral _ | .memberExpr _ _
  | .binaryExpr _ _ _ | .unaryExpr _ _ | .callExpr _ _ _ | .ternaryExpr _ _ _
  | .incrementExpr _ _ | .decrementExpr _ _ | .arrayLiteral _ => .pure _

theorem spends_storeInto : ∀ (e : Expression) (o : Origin), Spends passLedger lo lo (storeInto e o)
  | .identifier _, _ | .propertyAccess _, _ => .update _
  | .indexAccess object _, _ =>
      .quietly (List.Subset.refl _) (spends_originAt object) fun _ =>
        .quietly (List.Subset.refl _) spends_choose fun _ => spends_storeInto object _
  | .bigintLiteral _, _ | .boolLiteral _, _ | .bytestringLiteral _, _ | .memberExpr _ _, _
  | .binaryExpr _ _ _, _ | .unaryExpr _ _, _ | .callExpr _ _ _, _ | .ternaryExpr _ _ _, _
  | .incrementExpr _ _, _ | .decrementExpr _ _, _ | .arrayLiteral _, _ => .pure _

end Passing

/-! ## What is booked of the parts of an expression -/

/-- Expressions booked one after the other. -/
def BookedEach (counted : Bool) (aliases : List (String × String)) (tc : TypeChecker)
    (env : TypeEnv) : List Expression → List String → List String → Prop
  | [], lo, hi => lo ⊆ hi
  | e :: rest, lo, hi => ∃ a b, lo ⊆ a ∧ Booked counted aliases (inferExprType tc env e) a b ∧
      BookedEach counted aliases tc env rest b hi

/-- The arguments of an output, the state values of an array literal one by one. -/
def OutputBooked (counted : Bool) (aliases : List (String × String)) (tc : TypeChecker)
    (env : TypeEnv) (args : List Expression) (lo hi : List String) : Prop :=
  match args with
  | [] => lo ⊆ hi
  | e :: rest => ∃ a b, lo ⊆ a ∧ Booked counted aliases (inferExprType tc env e) a b ∧
      match rest with
      | [.arrayLiteral elements] => BookedEach counted aliases tc env elements b hi
      | rest => BookedEach counted aliases tc env rest b hi

section Parts

variable {counted : Bool} {aliases : List (String × String)} {tc : TypeChecker} {env : TypeEnv}
  {lo hi : List String}

theorem BookedEach.le {args : List Expression} (h : BookedEach counted aliases tc env args lo hi) :
    lo ⊆ hi := by
  induction args generalizing lo with
  | nil => exact h
  | cons e rest ih =>
    obtain ⟨a, b, hlo, he, hrest⟩ := h
    exact List.Subset.trans hlo (List.Subset.trans he.1 (ih hrest))

theorem BookedEach.mono {args : List Expression} {lo' hi' : List String}
    (h : BookedEach counted aliases tc env args lo hi) (hlo : lo' ⊆ lo) (hhi : hi ⊆ hi') :
    BookedEach counted aliases tc env args lo' hi' := by
  induction args generalizing lo lo' with
  | nil => exact List.Subset.trans hlo (List.Subset.trans h hhi)
  | cons e rest ih =>
    obtain ⟨a, b, hle, he, hrest⟩ := h
    exact ⟨a, b, List.Subset.trans hlo hle, he, ih hrest (List.Subset.refl _)⟩

theorem BookedEach.free {args : List Expression} (h : lo ⊆ hi) :
    BookedEach false aliases tc env args lo hi := by
  induction args with
  | nil => exact h
  | cons e rest ih => exact ⟨lo, lo, List.Subset.refl _, .free (List.Subset.refl _), ih⟩

theorem bookedEach_inferEach {args : List Expression} {visit : Visit} (hvisit : Visiting visit)
    (hin : Inspects visit args.length)
    (h : Booked counted aliases (inferEach tc env visit args) lo hi) :
    BookedEach counted aliases tc env args lo hi := by
  induction args generalizing visit lo with
  | nil => exact h.1
  | cons e rest ih =>
    have he := plain_infer tc env e
    have hfirst := hvisit.plain 0 _ he
    have hrest := plain_inferEach tc env _ hvisit.succ rest
    rw [inferEach] at h
    obtain ⟨mid, hvisited, h⟩ := h.bind
    obtain ⟨before, after, _, _, heq⟩ := hin 0 (Nat.succ_pos _) _ he
    rw [heq] at hvisited
    obtain ⟨a, hbefore, hvisited⟩ := hvisited.bind
    obtain ⟨b, he, hafter⟩ := hvisited.bind
    refine ⟨a, b, hbefore.1, he, ?_⟩
    refine (ih hvisit.succ (fun i hi => hin (i + 1) (Nat.succ_lt_succ hi)) h).mono hafter.1 ?_
    exact List.Subset.refl _

theorem bookedEach_array {elements : List Expression}
    (h : Booked counted aliases (inferExprType tc env (.arrayLiteral elements)) lo hi) :
    BookedEach counted aliases tc env elements lo hi := by
  cases counted with
  | false => exact .free h.1
  | true =>
    cases elements with
    | nil => exact h.1
    | cons first rest =>
      have hrest := fun t => plain_inferEach tc env _ (visiting_element t) rest
      rw [inferExprType] at h
      obtain ⟨mid, hfirst, h⟩ := h.bind
      obtain ⟨b, h, hpure⟩ := h.bind
      refine ⟨lo, mid, List.Subset.refl _, hfirst, ?_⟩
      refine (bookedEach_inferEach (visiting_element _) ?_ h).mono (List.Subset.refl _) hpure.1
      intro i _ m _
      exact ⟨pure (), fun et => require (isSubtype et _ || et == .unknown) (.arrayElement _ et),
        inferInstance, fun _ => inferInstance, rfl⟩

theorem OutputBooked.free {args : List Expression} (h : lo ⊆ hi) :
    OutputBooked false aliases tc env args lo hi := by
  cases args with
  | nil => exact h
  | cons e rest =>
    refine ⟨lo, lo, List.Subset.refl _, .free (List.Subset.refl _), ?_⟩
    split <;> exact .free h

theorem OutputBooked.of_each {args : List Expression}
    (h : BookedEach counted aliases tc env args lo hi) :
    OutputBooked counted aliases tc env args lo hi := by
  cases args with
  | nil => exact h
  | cons e rest =>
    obtain ⟨a, b, hlo, he, hrest⟩ := h
    refine ⟨a, b, hlo, he, ?_⟩
    split
    · obtain ⟨c, d, hle, harray, hnil⟩ := hrest
      exact (bookedEach_array harray).mono hle hnil
    · exact hrest

theorem outputBooked_addOutput {args : List Expression}
    (h : Booked counted aliases (inferAddOutput tc env args) lo hi) :
    OutputBooked counted aliases tc env args lo hi := by
  cases args with
  | nil => exact h.1
  | cons e rest =>
    have hvisit := visiting_addOutput tc
    have hin : ∀ n, Inspects (fun i => visitAddOutput tc (i + 1)) n :=
      fun n i hi => inspects_addOutput (n + 1) (i + 1) (Nat.succ_lt_succ hi)
    have he := plain_infer tc env e
    have hfirst := hvisit.plain 0 _ he
    have hrest : Plain (match rest with
        | [.arrayLiteral elements] =>
            inferEach tc env (fun i => visitAddOutput tc (i + 1)) elements
        | rest => inferEach tc env (fun i => visitAddOutput tc (i + 1)) rest) := by
      split <;> exact plain_inferEach tc env _ hvisit.succ _
    rw [inferAddOutput.eq_def] at h
    obtain ⟨mid, hvisited, h⟩ := h.bind
    obtain ⟨before, after, _, _, heq⟩ := inspects_addOutput 1 0 Nat.one_pos _ he
    rw [heq] at hvisited
    obtain ⟨a, hbefore, hvisited⟩ := hvisited.bind
    obtain ⟨b, he, hafter⟩ := hvisited.bind
    refine ⟨a, b, hbefore.1, he, ?_⟩
    split
    · exact (bookedEach_inferEach hvisit.succ (hin _) h).mono hafter.1 (List.Subset.refl _)
    · rename_i hne
      split at h
      · exact absurd rfl (hne _)
      · exact (bookedEach_inferEach hvisit.succ (hin _) h).mono hafter.1 (List.Subset.refl _)

/-! ## Calls -/

theorem consumes_of_consumedArg {func : String} (h : consumedArg func ≠ none) :
    consumes func = true := by
  unfold consumedArg at h
  split at h
  · rename_i hfunc
    rcases hfunc with rfl | rfl | rfl <;> decide
  · exact absurd rfl h

/-- The arguments of a call of known signature, and its consumption. -/
theorem booked_call {func : String} {sig : FuncSig} {args : List Expression}
    {m : Check TType} (hm : m = do
      checkCallShape tc func sig args
      inferEach tc env (visitCall func sig args) args
      if consumes func then checkAffineConsumption tc env func args
      pure sig.returnType)
    (h : Booked counted aliases m lo hi) :
    ∃ mid last, BookedEach counted aliases tc env args lo mid ∧ mid ⊆ last ∧ last ⊆ hi ∧
      (consumedArg func ≠ none →
        Booked counted aliases (checkAffineConsumption tc env func args) mid last) := by
  cases counted with
  | false =>
    exact ⟨lo, lo, .free (List.Subset.refl _), List.Subset.refl _, h.1,
      fun _ => .free (List.Subset.refl _)⟩
  | true =>
    have hcall := plain_inferEach tc env _ (visiting_call func sig args) args
    subst hm
    obtain ⟨a, hshape, h⟩ := h.bind
    obtain ⟨mid, hargs, h⟩ := h.bind
    have heach := (bookedEach_inferEach (visiting_call func sig args)
      (inspects_call hshape.quiet) hargs).mono hshape.1 (List.Subset.refl _)
    by_cases hconsumes : consumes func = true
    · rw [if_pos hconsumes] at h
      obtain ⟨last, hcheck, hpure⟩ := h.bind
      exact ⟨mid, last, heach, hcheck.1, hpure.1, fun _ => hcheck⟩
    · exact ⟨mid, mid, heach, List.Subset.refl _, h.1,
        fun hconsumed => absurd (consumes_of_consumedArg hconsumed) hconsumes⟩

theorem not_booked_report {d : Diagnostic} {f : Unit → Check TType} [∀ a, Plain (f a)] :
    ¬ Booked true aliases (report d >>= f) lo hi := by
  intro h
  obtain ⟨_, hreport, _⟩ := h.bind
  exact not_quiet_report d hreport.quiet

theorem booked_callIdentifier {name : String} {args : List Expression}
    {ret : Option PrimitiveType} (hsuper : name ≠ "super") (hasm : name ≠ "asm")
    (h : Booked counted aliases (inferExprType tc env (.callExpr (.identifier name) args ret))
      lo hi) :
    ∃ mid last, BookedEach counted aliases tc env args lo mid ∧ mid ⊆ last ∧ last ⊆ hi ∧
      ((builtinSig name).isSome = true → consumedArg name ≠ none →
        Booked counted aliases (checkAffineConsumption tc env name args) mid last) := by
  cases counted with
  | false =>
    exact ⟨lo, lo, .free (List.Subset.refl _), List.Subset.refl _, h.1,
      fun _ _ => .free (List.Subset.refl _)⟩
  | true =>
    have honly := plain_inferEach tc env _ visiting_only args
    have heq := inferExprType.eq_def tc env (.callExpr (.identifier name) args ret)
    dsimp only at heq
    rw [if_neg hsuper, if_neg hasm] at heq
    cases hsig : (builtinSig name).orElse fun _ => tc.methodSig name with
    | some sig =>
      rw [hsig] at heq
      obtain ⟨mid, last, heach, hmid, hlast, hcheck⟩ := booked_call heq h
      exact ⟨mid, last, heach, hmid, hlast, fun _ => hcheck⟩
    | none =>
      rw [hsig] at heq
      rw [heq] at h
      dsimp only at h
      split at h
      · exact absurd h not_booked_report
      · obtain ⟨mid, hargs, hpure⟩ := h.bind
        refine ⟨mid, mid, bookedEach_inferEach visiting_only (inspects_only _) hargs,
          List.Subset.refl _, hpure.1, ?_⟩
        intro hsome
        cases hbuiltin : builtinSig name with
        | none =>
          rw [hbuiltin] at hsome
          exact nomatch hsome
        | some sig =>
          rw [hbuiltin] at hsig
          exact nomatch hsig

theorem booked_super {args : List Expression} {ret : Option PrimitiveType}
    (h : Booked counted aliases (inferExprType tc env (.callExpr (.identifier "super") args ret))
      lo hi) :
    BookedEach counted aliases tc env args lo hi := by
  have honly := plain_inferEach tc env _ visiting_only args
  rw [inferExprType.eq_def] at h
  dsimp only at h
  rw [if_pos rfl] at h
  obtain ⟨mid, hargs, hpure⟩ := h.bind
  exact (bookedEach_inferEach visiting_only (inspects_only _) hargs).mono (List.Subset.refl _)
    hpure.1

/-- The checker of an output. -/
theorem booked_output {args : List Expression} {stateful count : Bool} {d d' : Diagnostic}
    {m : Check Unit} [Plain m]
    (hm : ∀ mid, lo ⊆ mid → count = true → ∀ last, Booked true aliases m mid last →
      OutputBooked true aliases tc env args mid last)
    {call : Check TType}
    (hcall : call = if stateful then do
        require count d
        m
        pure .void
      else do
        report d'
        pure .void)
    (h : Booked true aliases call lo hi) :
    ∃ mid last, lo ⊆ mid ∧ OutputBooked true aliases tc env args mid last ∧ last ⊆ hi := by
  subst hcall
  cases stateful with
  | false => exact absurd h not_booked_report
  | true =>
    have h' : Booked true aliases (require count d >>= fun _ => m >>= fun _ => pure TType.void)
      lo hi := h
    obtain ⟨mid, hcount, h'⟩ := h'.bind
    obtain ⟨last, hbooked, hpure⟩ := h'.bind
    exact ⟨mid, last, hcount.1, hm mid hcount.1 hcount.quiet.require last hbooked, hpure.1⟩

theorem outputBooked_script {property : String} {args : List Expression}
    (hcount : (args.length == 2) = true)
    (h : Booked counted aliases (inferEach tc env (visitScriptOutput property) args) lo hi) :
    OutputBooked counted aliases tc env args lo hi :=
  .of_each (bookedEach_inferEach (visiting_scriptOutput property)
    (inspects_scriptOutput (eq_of_beq hcount).le) h)

/-- What is booked of a call on the contract. -/
structure OwnBooked (counted : Bool) (aliases : List (String × String)) (tc : TypeChecker)
    (env : TypeEnv) (property : String) (args : List Expression) (lo hi : List String) : Prop where
  output : property ∈ outputIntrinsics → ∃ mid last, lo ⊆ mid ∧
    OutputBooked counted aliases tc env args mid last ∧ last ⊆ hi
  method : property ≠ "getStateScript" → property ∉ outputIntrinsics →
    ∃ mid, BookedEach counted aliases tc env args lo mid ∧ mid ⊆ hi

theorem OwnBooked.free {property : String} {args : List Expression} (h : lo ⊆ hi) :
    OwnBooked false aliases tc env property args lo hi where
  output := fun _ => ⟨lo, hi, List.Subset.refl _, .free h, List.Subset.refl _⟩
  method := fun _ _ => ⟨hi, .free h, List.Subset.refl _⟩

theorem booked_callProperty {property : String} {args : List Expression}
    {ret : Option PrimitiveType}
    (h : Booked counted aliases (inferExprType tc env (.callExpr (.propertyAccess property) args ret))
      lo hi) : OwnBooked counted aliases tc env property args lo hi := by
  cases counted with
  | false => exact .free h.1
  | true =>
    have honly := plain_inferEach tc env _ visiting_only args
    have hscript := plain_inferEach tc env _ (visiting_scriptOutput property) args
    have hadd := plain_inferAddOutput tc env args
    have heq := inferExprType.eq_def tc env (.callExpr (.propertyAccess property) args ret)
    dsimp only at heq
    refine ⟨fun hout => ?_, fun hstate hout => ?_⟩
    · have hstate : property ≠ "getStateScript" := by
        rintro rfl
        exact absurd hout (by decide)
      rw [if_neg hstate] at heq
      by_cases haddName : property = "addOutput"
      · rw [if_pos haddName] at heq
        exact booked_output (fun _ _ _ _ hbooked => outputBooked_addOutput hbooked) heq h
      · rw [if_neg haddName, if_pos ((mem_outputIntrinsics.mp hout).resolve_left haddName)] at heq
        exact booked_output (fun _ _ hcount _ hbooked => outputBooked_script hcount hbooked) heq h
    · rw [mem_outputIntrinsics, not_or] at hout
      rw [if_neg hstate, if_neg hout.1, if_neg hout.2] at heq
      cases hsig : tc.methodSig property with
      | none =>
        rw [hsig] at heq
        rw [heq] at h
        exact absurd h not_booked_report
      | some sig =>
        rw [hsig] at heq
        obtain ⟨mid, last, heach, hmid, hlast, -⟩ := booked_call heq h
        exact ⟨mid, heach, List.Subset.trans hmid hlast⟩

theorem booked_callMember {object : Expression} {property : String} {args : List Expression}
    {ret : Option PrimitiveType}
    (h : Booked counted aliases
      (inferExprType tc env (.callExpr (.memberExpr object property) args ret)) lo hi) :
    OwnBooked counted aliases tc env property args lo hi := by
  cases counted with
  | false => exact .free h.1
  | true =>
    have honly := plain_inferEach tc env _ visiting_only args
    have hscript := plain_inferEach tc env _ (visiting_scriptOutput property) args
    have hadd := plain_inferAddOutput tc env args
    have hcall := fun sig => plain_inferEach tc env _ (visiting_call property sig args) args
    have heq := inferExprType.eq_def tc env (.callExpr (.memberExpr object property) args ret)
    obtain ⟨body, hbody, hplain, hspec⟩ : ∃ body : TType → Check TType,
        inferExprType tc env (.callExpr (.memberExpr object property) args ret) =
          inferExprType tc env object >>= body ∧ (∀ t, Plain (body t)) ∧
        ∀ t m, m = body t → ∀ lo, Booked true aliases m lo hi →
          OwnBooked true aliases tc env property args lo hi := by
      refine ⟨_, heq, ?_, ?_⟩
      · intro t
        dsimp only
        repeat' first | infer_instance | split
      · intro t m hm lo h
        dsimp only at hm
        refine ⟨fun hout => ?_, fun hstate hout => ?_⟩
        · have hstate : property ≠ "getStateScript" := by
            rintro rfl
            exact absurd hout (by decide)
          rw [if_neg (fun hp => hstate hp.2), if_neg (fun hp => hstate hp.2)] at hm
          by_cases haddName : (t = .statefulContext ∨ t = .this) ∧ property = "addOutput"
          · rw [if_pos haddName] at hm
            exact booked_output (fun _ _ _ _ hbooked => outputBooked_addOutput hbooked) hm h
          rw [if_neg haddName] at hm
          by_cases hrawName : (t = .statefulContext ∨ t = .this) ∧
              (property = "addRawOutput" ∨ property = "addDataOutput")
          · rw [if_pos hrawName] at hm
            exact booked_output (fun _ _ hcount _ hbooked => outputBooked_script hcount hbooked) hm h
          rw [if_neg hrawName] at hm
          -- neither a contract nor a context: an own method of that name, or a report
          cases hsig : if t = .this then tc.methodSig property else none with
          | none =>
            rw [hsig] at hm
            rw [hm] at h
            exact absurd h not_booked_report
          | some sig =>
            have ht : t = .this := by
              by_contra hne
              rw [if_neg hne] at hsig
              cases hsig
            rw [mem_outputIntrinsics] at hout
            rcases hout with haddOut | hrawOut
            · exact absurd ⟨Or.inr ht, haddOut⟩ haddName
            · exact absurd ⟨Or.inr ht, hrawOut⟩ hrawName
        · rw [mem_outputIntrinsics, not_or] at hout
          rw [if_neg (fun hp => hstate hp.2), if_neg (fun hp => hstate hp.2),
            if_neg (fun hp => hout.1 hp.2), if_neg (fun hp => hout.2 hp.2)] at hm
          cases hsig : if t = .this then tc.methodSig property else none with
          | none =>
            rw [hsig] at hm
            rw [hm] at h
            exact absurd h not_booked_report
          | some sig =>
            rw [hsig] at hm
            obtain ⟨mid, last, heach, hmid, hlast, -⟩ := booked_call hm h
            exact ⟨mid, heach, List.Subset.trans hmid hlast⟩
    rw [hbody] at h
    obtain ⟨mid, hobject, h⟩ := h.bind
    have hspec := hspec _ _ rfl mid h
    refine ⟨fun hout => ?_, fun hstate hout => ?_⟩
    · obtain ⟨a, b, hle, hbooked, hlast⟩ := hspec.output hout
      exact ⟨a, b, List.Subset.trans hobject.1 hle, hbooked, hlast⟩
    · obtain ⟨a, heach, hlast⟩ := hspec.method hstate hout
      exact ⟨a, heach.mono hobject.1 (List.Subset.refl _), hlast⟩

end Parts

/-! ## Expressions -/

section Expressions

variable {R : FlowRuntime}

/-- The methods a method calls pass nothing that is not marked as unbooked. -/
def CallsUnbooked (R : FlowRuntime) : Prop :=
  ∀ name os lo, Spends passLedger lo lo (R.callMethod name os)

mutual

/-- An expression passes what is booked between the ledgers before and after it. -/
theorem spends_expr (hR : CallsUnbooked R) (counted : Bool) (env : TypeEnv)
    (aliases : List (String × String)) :
    ∀ (e : Expression) (lo hi : List String),
      Booked counted aliases (inferExprType R.tc env e) lo hi →
      Spends passLedger lo hi (traceExpr R counted env aliases e)
  | .bigintLiteral _, _, _, _ | .boolLiteral _, _, _, _ | .bytestringLiteral _, _, _, _ => by
      rw [traceExpr]
      exact .pure _
  | .identifier name, lo, hi, h => by
      rw [traceExpr]
      exact .quietly h.1 .read fun _ => .pure _
  | .propertyAccess property, lo, hi, h => by
      rw [traceExpr]
      exact .quietly h.1 .read fun _ => .pure _
  | .memberExpr object property, lo, hi, h => by
      rw [inferExprType] at h
      obtain ⟨mid, ho, h⟩ := h.bind
      have ihobject := spends_expr hR counted env aliases object lo mid ho
      rw [traceExpr.eq_def]
      refine .bind ho.1 h.1 ihobject fun _ => .quietly h.1 .read fun _ => ?_
      split
      · exact .pure _
      · exact .ite (fun _ => .pure _) fun _ => .pure _
  | .binaryExpr op left right, lo, hi, h => by
      rw [inferExprType] at h
      obtain ⟨a, hl, h⟩ := h.bind
      obtain ⟨b, hr, h⟩ := h.bind
      have ihl := spends_expr hR counted env aliases left lo a hl
      have ihr := spends_expr hR counted env aliases right a b hr
      have hle : a ⊆ hi := List.Subset.trans hr.1 h.1
      rw [traceExpr]
      refine .bind hl.1 hle ihl fun _ => .ite (fun _ => ?_) fun _ => ?_
      · refine .quietly hle spends_chooseBool fun _ => .ite (fun _ => ?_) fun _ => .pure _
        exact .bind hr.1 h.1 ihr fun _ => .pure _
      · exact .bind hr.1 h.1 ihr fun _ => .pure _
  | .unaryExpr op operand, lo, hi, h => by
      rw [inferExprType] at h
      obtain ⟨mid, ho, h⟩ := h.bind
      have iho := spends_expr hR counted env aliases operand lo mid ho
      rw [traceExpr]
      exact .bind ho.1 h.1 iho fun _ => .pure _
  | .callExpr (.identifier name) args ret, lo, hi, h => by
      rw [traceExpr.eq_def]
      dsimp only
      refine .ite (fun hsuper => ?_) fun hsuper => .ite (fun _ => .pure _) fun hasm => ?_
      · subst hsuper
        have heach := booked_super h
        exact .bind heach.le (List.Subset.refl _)
          (spends_exprs hR counted env aliases args lo hi heach) fun _ => .pure _
      obtain ⟨mid, last, heach, hmid, hlast, hcheck⟩ := booked_callIdentifier hsuper hasm h
      have ihargs := spends_exprs hR counted env aliases args lo mid heach
      refine .bind heach.le (List.Subset.trans hmid hlast) ihargs fun os => ?_
      cases hbuiltin : builtinSig name with
      | some sig =>
        rw [hbuiltin] at hcheck
        exact .bind hmid hlast (spends_passTo (hcheck rfl) os) fun _ => .pure _
      | none => exact (hR name os mid).mono (List.Subset.refl _) (List.Subset.trans hmid hlast)
  | .callExpr (.propertyAccess property) args ret, lo, hi, h => by
      have hown := booked_callProperty h
      rw [traceExpr.eq_def]
      dsimp only
      refine .ite (fun _ => .pure _) fun hstate => .ite (fun hout => ?_) fun hout => ?_
      · obtain ⟨mid, last, hle, hbooked, hlast⟩ := hown.output hout
        have ihargs := spends_outputArgs hR counted env aliases args mid last hbooked
        exact .bind h.1 (List.Subset.refl _) (ihargs.mono hle hlast) fun _ => .pure _
      · obtain ⟨mid, heach, hmid⟩ := hown.method hstate hout
        have ihargs := spends_exprs hR counted env aliases args lo mid heach
        refine .bind heach.le hmid ihargs fun os => ?_
        exact (hR property os mid).mono (List.Subset.refl _) hmid
  | .callExpr (.memberExpr object property) args ret, lo, hi, h => by
      have hown := booked_callMember h
      rw [traceExpr.eq_def]
      dsimp only
      split
      · refine .ite (fun _ => .pure _) fun hstate => .ite (fun hout => ?_) fun hout => ?_
        · obtain ⟨mid, last, hle, hbooked, hlast⟩ := hown.output hout
          have ihargs := spends_outputArgs hR counted env aliases args mid last hbooked
          exact .bind h.1 (List.Subset.refl _) (ihargs.mono hle hlast) fun _ => .pure _
        · obtain ⟨mid, heach, hmid⟩ := hown.method hstate hout
          have ihargs := spends_exprs hR counted env aliases args lo mid heach
          refine .bind heach.le hmid ihargs fun os => ?_
          exact (hR property os mid).mono (List.Subset.refl _) hmid
      · exact .fail _
  | .callExpr (.bigintLiteral _) _ _, _, _, _ | .callExpr (.boolLiteral _) _ _, _, _, _
  | .callExpr (.bytestringLiteral _) _ _, _, _, _ | .callExpr (.binaryExpr _ _ _) _ _, _, _, _
  | .callExpr (.unaryExpr _ _) _ _, _, _, _ | .callExpr (.callExpr _ _ _) _ _, _, _, _
  | .callExpr (.ternaryExpr _ _ _) _ _, _, _, _ | .callExpr (.indexAccess _ _) _ _, _, _, _
  | .callExpr (.incrementExpr _ _) _ _, _, _, _ | .callExpr (.decrementExpr _ _) _ _, _, _, _
  | .callExpr (.arrayLiteral _) _ _, _, _, _ => by
      rw [traceExpr.eq_def]
      exact .fail _
  | .ternaryExpr condition consequent alternate, lo, hi, h => by
      rw [inferExprType_ternary] at h
      obtain ⟨a, hc, h⟩ := h.bind
      obtain ⟨b, hb, h⟩ := h.bind
      obtain ⟨c, hl, h⟩ := h.bind
      obtain ⟨d, hr, h⟩ := h.bind
      have ihc := spends_expr hR counted env aliases condition lo a hc
      have ihl := spends_expr hR counted env aliases consequent b c hl
      have ihr := spends_expr hR counted env aliases alternate c d hr
      have hcd : c ⊆ hi := List.Subset.trans hr.1 h.1
      have hbc : b ⊆ hi := List.Subset.trans hl.1 hcd
      have hle : a ⊆ hi := List.Subset.trans hb.1 hbc
      rw [traceExpr]
      refine .bind hc.1 hle ihc fun _ => .quietly hle spends_chooseBool fun _ => ?_
      refine .ite (fun _ => ihl.mono hb.1 hcd) fun _ => ?_
      exact ihr.mono (List.Subset.trans hb.1 hl.1) h.1
  | .indexAccess object index, lo, hi, h => by
      rw [inferExprType] at h
      have := plain_element
      obtain ⟨a, ho, h⟩ := h.bind
      obtain ⟨b, hi', h⟩ := h.bind
      have iho := spends_expr hR counted env aliases object lo a ho
      have ihi := spends_expr hR counted env aliases index a b hi'
      rw [traceExpr]
      refine .bind ho.1 (List.Subset.trans hi'.1 h.1) iho fun _ => .bind hi'.1 h.1 ihi fun _ => ?_
      exact .quietly h.1 spends_choose fun _ => .pure _
  | .incrementExpr operand _, lo, hi, h => by
      rw [inferExprType] at h
      obtain ⟨mid, ho, h⟩ := h.bind
      have iho := spends_expr hR counted env aliases operand lo mid ho
      rw [traceExpr]
      refine .bind ho.1 h.1 iho fun _ => .quietly h.1 (spends_storeInto _ _) fun _ => .pure _
  | .decrementExpr operand _, lo, hi, h => by
      rw [inferExprType] at h
      obtain ⟨mid, ho, h⟩ := h.bind
      have iho := spends_expr hR counted env aliases operand lo mid ho
      rw [traceExpr]
      refine .bind ho.1 h.1 iho fun _ => .quietly h.1 (spends_storeInto _ _) fun _ => .pure _
  | .arrayLiteral [], lo, hi, h => by
      rw [traceExpr]
      exact .pure _
  | .arrayLiteral (first :: rest), lo, hi, h => by
      obtain ⟨a, b, hlo, hf, hrest⟩ := bookedEach_array h
      have ihf := spends_expr hR counted env aliases first a b hf
      have ihr := spends_exprs hR counted env aliases rest b hi hrest
      rw [traceExpr]
      refine .bind (List.Subset.trans hlo hf.1) hrest.le
        (ihf.mono hlo (List.Subset.refl _)) fun _ => ?_
      exact .bind hrest.le (List.Subset.refl _) ihr fun _ => .pure _

theorem spends_exprs (hR : CallsUnbooked R) (counted : Bool) (env : TypeEnv)
    (aliases : List (String × String)) :
    ∀ (es : List Expression) (lo hi : List String),
      BookedEach counted aliases R.tc env es lo hi →
      Spends passLedger lo hi (traceExprs R counted env aliases es)
  | [], _, _, _ => by
      rw [traceExprs]
      exact .pure _
  | e :: rest, lo, hi, h => by
      obtain ⟨a, b, hlo, he, hrest⟩ := h
      have ihe := spends_expr hR counted env aliases e a b he
      have ihr := spends_exprs hR counted env aliases rest b hi hrest
      rw [traceExprs]
      refine .bind (List.Subset.trans hlo he.1) hrest.le
        (ihe.mono hlo (List.Subset.refl _)) fun _ => ?_
      exact .bind hrest.le (List.Subset.refl _) ihr fun _ => .pure _

theorem spends_outputArgs (hR : CallsUnbooked R) (counted : Bool) (env : TypeEnv)
    (aliases : List (String × String)) :
    ∀ (es : List Expression) (lo hi : List String),
      OutputBooked counted aliases R.tc env es lo hi →
      Spends passLedger lo hi (traceOutputArgs R counted env aliases es)
  | [], _, _, _ => by
      rw [traceOutputArgs]
      exact .pure _
  | e :: rest, lo, hi, h => by
      obtain ⟨a, b, hlo, he, hrest⟩ := h
      have ihe := spends_expr hR counted env aliases e a b he
      rw [traceOutputArgs.eq_def]
      dsimp only
      split
      · rename_i elements
        have ihr := spends_exprs hR counted env aliases elements b hi hrest
        refine .bind (List.Subset.trans hlo he.1) hrest.le
          (ihe.mono hlo (List.Subset.refl _)) fun _ => ?_
        exact .bind hrest.le (List.Subset.refl _) ihr fun _ => .pure _
      · rename_i hne
        have heach : BookedEach counted aliases R.tc env rest b hi := by
          split at hrest
          · exact absurd rfl (hne _)
          · exact hrest
        have ihr := spends_exprs hR counted env aliases rest b hi heach
        refine .bind (List.Subset.trans hlo he.1) heach.le
          (ihe.mono hlo (List.Subset.refl _)) fun _ => ?_
        exact .bind heach.le (List.Subset.refl _) ihr fun _ => .pure _

end

end Expressions

/-! ## Statements -/

section Statements

variable {R : FlowRuntime}

theorem spends_assign (hR : CallsUnbooked R) (counted : Bool) (env : TypeEnv)
    (aliases : List (String × String)) (target : Expression) (o : Origin) (lo hi : List String)
    (h : Booked counted aliases (inferExprType R.tc env target) lo hi) :
    Spends passLedger lo hi (traceAssign R counted env aliases target o) := by
  have hstore : Spends passLedger lo hi (storeInto target o) :=
    (spends_storeInto target o).mono (List.Subset.refl _) h.1
  cases target with
  | indexAccess object index =>
    rw [inferExprType] at h
    have := plain_element
    obtain ⟨a, ho, h⟩ := h.bind
    obtain ⟨b, hindex, h⟩ := h.bind
    have hobject := spends_expr hR counted env aliases object lo a ho
    have hindexed := spends_expr hR counted env aliases index a b hindex
    rw [traceAssign]
    refine .bind ho.1 (List.Subset.trans hindex.1 h.1) hobject fun _ =>
      .bind hindex.1 h.1 hindexed fun _ => .quietly h.1 spends_choose fun _ => ?_
    exact (spends_storeInto _ _).mono (List.Subset.refl _) h.1
  | _ => exact hstore

/-- A block passes what is passed in it. -/
theorem spends_inBlock {α : Type} {m : FlowM α} {lo hi : List String} (hle : lo ⊆ hi)
    (h : Spends passLedger lo hi m) : Spends passLedger lo hi (inBlock m) :=
  .quietly hle .read fun _ => .bind hle (List.Subset.refl _) h fun _ =>
    .quietly (List.Subset.refl _) (.update _) fun _ => .pure _

/-- Going round again passes what is not counted. -/
theorem spends_loopAgain {condition : FlowM Unit} {body : FlowM FlowEnd} {step : FlowM Unit}
    {lo : List String} (hcond : Spends passLedger lo lo condition)
    (hbody : Spends passLedger lo lo body) (hstep : Spends passLedger lo lo step) (n : Nat) :
    Spends passLedger lo lo (loopAgain condition body step n) := by
  have hle : lo ⊆ lo := List.Subset.refl _
  induction n with
  | zero => exact .fail _
  | succ n ih =>
    rw [loopAgain]
    refine .quietly hle hstep fun _ => .quietly hle hcond fun _ =>
      .quietly hle spends_chooseBool fun holds => .ite (fun _ => ?_) fun _ => .pure _
    refine .quietly hle hbody fun outcome => ?_
    cases outcome with
    | next => exact ih
    | returned v => exact .pure _

theorem spends_decl {counted : Bool} {env : TypeEnv} {s : CheckState} {name : String}
    {type : Option TypeNode} {init : Expression} {lo hi : List String} (hR : CallsUnbooked R)
    (h : BookedAt counted s (checkVariableDecl R.tc env name type init) lo hi) :
    ∃ mid, lo ⊆ mid ∧ mid ⊆ hi ∧
      Spends passLedger lo mid (traceExpr R counted env s.affineAliases init) := by
  unfold checkVariableDecl at h
  cases type with
  | none =>
    dsimp only at h
    obtain ⟨mid, hinit, h⟩ := h.bind
    exact ⟨mid, hinit.1, h.1, spends_expr hR counted env s.affineAliases init lo mid hinit.booked⟩
  | some type =>
    dsimp only at h
    obtain ⟨mid, hinit, h⟩ := h.bind
    exact ⟨mid, hinit.1, h.1, spends_expr hR counted env s.affineAliases init lo mid hinit.booked⟩

mutual

/-- A statement passes what is booked between the ledgers before and after it. -/
theorem spends_statement (hR : CallsUnbooked R) :
    ∀ (counted : Bool) (env : TypeEnv) (s : CheckState) (stmt : Statement) (lo hi : List String),
      BookedAt counted s (checkStatement R.tc env stmt) lo hi →
      Spends passLedger lo hi (traceStatement R counted env s stmt)
  | counted, env, s, .variableDecl name type init, lo, hi, h => by
      rw [checkStatement] at h
      obtain ⟨mid, hlo, hhi, hinit⟩ := spends_decl hR h
      rw [traceStatement]
      exact .bind hlo hhi hinit fun _ => .quietly hhi (.update _) fun _ => .pure _
  | counted, env, s, .assignment target v, lo, hi, h => by
      rw [checkStatement] at h
      obtain ⟨a, ht, h⟩ := h.bind
      obtain ⟨b, hv, h⟩ := h.bind
      have htarget := fun o => spends_assign hR counted env s.affineAliases target o lo a ht.booked
      have hv' := hv.booked
      rw [aliases_after] at hv'
      have hvalue := spends_expr hR counted env s.affineAliases v a b hv'
      rw [traceStatement]
      -- the value is evaluated before the target, and inferred after it
      refine (Spends.bind_late ht.1 hv.1 hvalue fun o => ?_).mono (List.Subset.refl _) h.1
      exact .bind ht.1 (List.Subset.refl _) (htarget o) fun _ => .pure _
  | counted, env, s, .ifStatement condition thenBody none, lo, hi, h => by
      rw [checkStatement] at h
      obtain ⟨a, hc, h⟩ := h.bind
      obtain ⟨b, hthen, h⟩ := h.require.bind
      have hcond := spends_expr hR counted env s.affineAliases condition lo a hc.booked
      have ihthen := spends_statements hR counted env.pushScope _ thenBody a b hthen
      have hle : a ⊆ hi := List.Subset.trans hthen.1 h.1
      rw [traceStatement]
      refine .bind hc.1 hle hcond fun _ => .quietly hle spends_chooseBool fun _ =>
        .ite (fun _ => ?_) fun _ => .pure _
      exact (spends_inBlock hthen.1 ihthen).mono (List.Subset.refl _) h.1
  | counted, env, s, .ifStatement condition thenBody (some elseBody), lo, hi, h => by
      rw [checkStatement] at h
      obtain ⟨a, hc, h⟩ := h.bind
      obtain ⟨b, hthen, h⟩ := h.require.bind
      obtain ⟨c, helse, h⟩ := h.bind
      have hcond := spends_expr hR counted env s.affineAliases condition lo a hc.booked
      have ihthen := spends_statements hR counted env.pushScope _ thenBody a b hthen
      have ihelse := spends_statements hR counted env.pushScope _ elseBody b c helse
      have hbhi : b ⊆ hi := List.Subset.trans helse.1 h.1
      have hle : a ⊆ hi := List.Subset.trans hthen.1 hbhi
      rw [traceStatement]
      refine .bind hc.1 hle hcond fun _ => .quietly hle spends_chooseBool fun _ =>
        .ite (fun _ => ?_) fun _ => ?_
      · exact (spends_inBlock hthen.1 ihthen).mono (List.Subset.refl _) hbhi
      · exact (spends_inBlock helse.1 ihelse).mono hthen.1 h.1
  | counted, env, s, .forStatement name type init condition step body, lo, hi, h => by
      rw [checkStatement] at h
      obtain ⟨a, hdecl, h⟩ := h.bind
      rw [value_variableDecl] at h
      obtain ⟨b, hc, h⟩ := h.bind
      obtain ⟨c, hbody, h⟩ := h.require.bind
      obtain ⟨mid, hlo, hmid, hinit⟩ := spends_decl hR hdecl
      have hcond := spends_expr hR counted _ _ condition a b hc.booked
      have ihbody := spends_statements hR counted _ _ body b c hbody
      have hbhi : b ⊆ hi := List.Subset.trans hbody.1 h.1
      have hahi : a ⊆ hi := List.Subset.trans hc.1 hbhi
      have hmidhi : mid ⊆ hi := List.Subset.trans hmid hahi
      have hsame : c ⊆ c := List.Subset.refl _
      rw [traceStatement]
      refine spends_inBlock (List.Subset.trans hlo hmidhi) ?_
      refine .bind hlo hmidhi hinit fun _ => .bind hmid hahi (.update _) fun _ => ?_
      refine .bind hc.1 hbhi hcond fun _ => .quietly hbhi spends_chooseBool fun _ =>
        .ite (fun _ => ?_) fun _ => .pure _
      refine .bind hbody.1 h.1 (spends_inBlock hbody.1 ihbody) fun outcome => ?_
      cases outcome with
      | returned v => exact .pure _
      | next =>
        -- from here on nothing is counted
        have hcond' := spends_expr hR false
          (envAfter R.tc env.pushScope (.variableDecl name type init))
          (bookedAfter (checkVariableDecl R.tc env.pushScope name type init) s).affineAliases
          condition c c (.free hsame)
        have ihbody' := spends_statements hR false
          (envAfter R.tc env.pushScope (.variableDecl name type init))
          (bookedAfter (inferExprType R.tc
            (envAfter R.tc env.pushScope (.variableDecl name type init)) condition)
            (bookedAfter (checkVariableDecl R.tc env.pushScope name type init) s))
          body c c (.free hsame)
        have ihstep := spends_statement hR false
          (envAfter R.tc env.pushScope (.variableDecl name type init))
          (bookedAfter (inferExprType R.tc
            (envAfter R.tc env.pushScope (.variableDecl name type init)) condition)
            (bookedAfter (checkVariableDecl R.tc env.pushScope name type init) s))
          step c c (.free hsame)
        refine (spends_loopAgain (.quietly hsame hcond' fun _ => .pure _)
          (spends_inBlock hsame ihbody')
          (spends_inBlock hsame (.quietly hsame ihstep fun _ => .pure (α := Unit) ())) R.fuel).mono
          (List.Subset.refl _) h.1
  | counted, env, s, .expressionStatement expression, lo, hi, h => by
      rw [checkStatement] at h
      obtain ⟨mid, he, h⟩ := h.bind
      rw [traceStatement]
      exact .bind he.1 h.1 (spends_expr hR counted env s.affineAliases expression lo mid he.booked)
        fun _ => .pure _
  | counted, env, s, .returnStatement none, lo, hi, _ => by
      rw [traceStatement]
      exact .pure _
  | counted, env, s, .returnStatement (some v), lo, hi, h => by
      rw [checkStatement] at h
      obtain ⟨mid, hv, h⟩ := h.bind
      rw [traceStatement]
      exact .bind hv.1 h.1 (spends_expr hR counted env s.affineAliases v lo mid hv.booked)
        fun _ => .pure _

theorem spends_statements (hR : CallsUnbooked R) :
    ∀ (counted : Bool) (env : TypeEnv) (s : CheckState) (stmts : List Statement)
      (lo hi : List String), BookedAt counted s (checkStatements R.tc env stmts) lo hi →
      Spends passLedger lo hi (traceStatements R counted env s stmts)
  | counted, env, s, [], lo, hi, _ => by
      rw [traceStatements]
      exact .pure _
  | counted, env, s, stmt :: rest, lo, hi, h => by
      rw [checkStatements] at h
      obtain ⟨mid, hstmt, h⟩ := h.bind
      rw [value_statement] at h
      have ihstmt := spends_statement hR counted env s stmt lo mid hstmt
      have ihrest := spends_statements hR counted (envAfter R.tc env stmt)
        (bookedAfter (checkStatement R.tc env stmt) s) rest mid hi h
      rw [traceStatements]
      refine .bind hstmt.1 h.1 ihstmt fun outcome => ?_
      cases outcome with
      | next => exact ihrest
      | returned v => exact .pure _

end

/-! ## Methods -/

theorem spends_body (hR : CallsUnbooked R) (counted : Bool) (method : MethodNode)
    (args : List Origin) (lo hi : List String)
    (h : BookedAt counted nothingBooked
      (checkStatements R.tc (paramEnv method.params) method.body) lo hi) :
    Spends passLedger lo hi (traceBody R counted method args) := by
  have hbody := spends_statements hR counted (paramEnv method.params) nothingBooked method.body
    lo hi h
  refine .quietly h.1 .read fun _ => .quietly h.1 (.update _) fun _ =>
    .bind h.1 (List.Subset.refl _) hbody fun outcome =>
      .quietly (List.Subset.refl _) (.update _) fun _ => ?_
  cases outcome with
  | next => exact .pure _
  | returned v => exact .pure _

end Statements

/-- What the body of a method is followed with. -/
def flowRuntimeAt (contract : ContractNode) (fuel depth : Nat) : FlowRuntime where
  tc := .ofContract contract
  callMethod := traceMethod contract fuel depth
  fuel := fuel

/-- A method called by another counts nothing. -/
theorem spends_method (contract : ContractNode) (fuel depth : Nat) :
    ∀ name os lo, Spends passLedger lo lo (traceMethod contract fuel depth name os) := by
  induction depth with
  | zero => exact fun _ _ _ => .fail _
  | succ depth ih =>
    intro name os lo
    rw [traceMethod]
    split
    · exact .fail _
    · have hR : CallsUnbooked (flowRuntimeAt contract fuel depth) := ih
      exact spends_body hR false _ os lo lo (.free (List.Subset.refl _))

theorem clean_methods {tc : TypeChecker} {methods : List MethodNode} {s : CheckState}
    (hs : s.errors = []) (h : ((methods.forM (checkMethod tc)).run s).2.errors = []) :
    ∀ method ∈ methods,
      ((checkStatements tc (paramEnv method.params) method.body).run nothingBooked).2.errors = [] := by
  induction methods generalizing s with
  | nil =>
    intro method hmem
    exact nomatch hmem
  | cons first rest ih =>
    have hrest := steady_methods tc rest
    have hsplit : ((checkMethod tc first >>= fun _ => rest.forM (checkMethod tc)).run s).2.errors =
        s.errors := by
      rw [hs]
      exact h
    obtain ⟨hfirst, hrest⟩ := errors_split hsplit
    rw [hs] at hfirst
    intro method hmem
    rcases List.mem_cons.mp hmem with rfl | hmem
    · have hreset : (resetAffine.run s).2 = nothingBooked := by
        change (⟨s.errors, [], []⟩ : CheckState) = nothingBooked
        rw [hs]
        rfl
      have hbody : ((resetAffine >>= fun _ => checkStatements tc (paramEnv method.params)
          method.body >>= fun _ => pure ()).run s).2.errors = [] := hfirst
      rw [run_bind, hreset] at hbody
      exact (errors_split hbody).1
    · rw [hfirst] at hrest
      exact ih hfirst hrest method hmem

/-- The body of a method of an accepted contract is gone through from an empty ledger. -/
theorem Accepted.booked {contract : ContractNode} (h : Accepted contract) {method : MethodNode}
    (hmem : method ∈ contract.methods) :
    ∃ hi, BookedAt true nothingBooked
      (checkStatements (.ofContract contract) (paramEnv method.params) method.body) [] hi := by
  have hsteady := steady_methods (.ofContract contract) contract.methods
  have hall : ((checkConstructor (.ofContract contract) >>= fun _ =>
      contract.methods.forM (checkMethod (.ofContract contract))).run nothingBooked).2.errors =
      nothingBooked.errors := h
  obtain ⟨hconstructor, hmethods⟩ := errors_split hall
  rw [hconstructor] at hmethods
  refine ⟨_, List.nil_subset _, fun _ => ⟨rfl, rfl, ?_⟩⟩
  exact clean_methods hconstructor hmethods method hmem

/-! ## Executions -/

/-- Every parameter or property passed to a consuming builtin is the one booked for it. -/
def AllBooked (log : List PassEvent) : Prop := ∀ key, .unbooked key ∉ log

/-- No parameter or property is passed twice. -/
def PassedOnce (log : List PassEvent) : Prop := (passLedger.keys log).Nodup

instance (log : List PassEvent) : Decidable (PassedOnce log) :=
  inferInstanceAs (Decidable (List.Nodup _))

/-- Check a signature against a public key. -/
def checkSigOf (sig key : String) : Statement :=
  .expressionStatement (.callExpr (.identifier "assert")
    [.callExpr (.identifier "checkSig") [.identifier sig, .identifier key] none] none)

def signatureParams : List ParamNode :=
  [⟨"sig", .primitive .Sig⟩, ⟨"key", .primitive .PubKey⟩]

/-- Unlock with a signature. -/
def unlockOnce : MethodNode where
  name := "unlock"
  params := signatureParams
  body := [checkSigOf "sig" "key"]
  visibility := .isPublic
  sighashType := none

def once : ContractNode where
  parentClass := .smartContract
  properties := []
  constructor := ⟨"constructor", [], [], .isPublic, none⟩
  methods := [unlockOnce]

/-- Have a private method check the signature, and check it again. -/
def unlockTwice : MethodNode where
  name := "unlock"
  params := signatureParams
  body :=
    [.expressionStatement (.callExpr (.propertyAccess "verify")
      [.identifier "sig", .identifier "key"] none),
     checkSigOf "sig" "key"]
  visibility := .isPublic
  sighashType := none

def twice : ContractNode where
  parentClass := .smartContract
  properties := []
  constructor := ⟨"constructor", [], [], .isPublic, none⟩
  methods :=
    [unlockTwice, ⟨"verify", signatureParams, [checkSigOf "sig" "key"], .isPrivate, none⟩]

end Runar.Typecheck
