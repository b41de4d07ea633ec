/-
  Logic/Scan.lean --- a scanner that cuts a text into tokens.

  WHAT THIS FILE IS FOR.  A tokeniser takes a token at its cursor and moves the cursor,
  until the cursor is past the text.  The cursor is an integer, since a length that was
  read from the text may move it anywhere, and so the loop may not come to an end.

  THE RULE.  Where each round takes a token that starts at the cursor and ends behind it,
  and goes on at its end, the loop ends and the tokens tile the text (`scans_or_throws`).
-/
import Runar.Logic.Tiling
import Mathlib.Data.List.Basic

set_option autoImplicit false

namespace Runar.Logic

variable {ε τ α : Type}

/-! ## The loop -/

/-- The tokens from a cursor on, for some rounds at most.  A round that gives no next
cursor is the last one. -/
def scan (step : Int → Except ε (τ × Option Int)) (stop : Int) :
    Nat → Int → Option (Except ε (List τ))
  | 0, _ => none
  | fuel + 1, i =>
      if i < stop then
        match step i with
        | .error e => some (.error e)
        | .ok (token, none) => some (.ok [token])
        | .ok (token, some next) => (scan step stop fuel next).map (·.map (token :: ·))
      else some (.ok [])

/-- The loop ends with a result. -/
def Scans (step : Int → Except ε (τ × Option Int)) (stop i : Int)
    (result : Except ε (List τ)) : Prop :=
  ∃ fuel, scan step stop fuel i = some result

/-- The cursor comes from `i` to a place. -/
inductive Comes (step : Int → Except ε (τ × Option Int)) (stop : Int) : Int → Int → Prop
  | here (i : Int) : Comes step stop i i
  | round {i next j : Int} {token : τ} : i < stop → step i = .ok (token, some next) →
      Comes step stop next j → Comes step stop i j

section Rounds

variable {step : Int → Except ε (τ × Option Int)} {stop i j next : Int} {token : τ}

theorem scan_succ (fuel : Nat) : scan step stop (fuel + 1) i =
    if i < stop then
      match step i with
      | .error e => some (.error e)
      | .ok (token, none) => some (.ok [token])
      | .ok (token, some next) => (scan step stop fuel next).map (·.map (token :: ·))
    else some (.ok []) := rfl

theorem Scans.finish (h : ¬ i < stop) : Scans step stop i (.ok []) :=
  ⟨1, by rw [scan_succ, if_neg h]⟩

theorem Scans.throws {e : ε} (h : i < stop) (hstep : step i = .error e) :
    Scans step stop i (.error e) :=
  ⟨1, by rw [scan_succ, if_pos h, hstep]⟩

theorem Scans.last (h : i < stop) (hstep : step i = .ok (token, none)) :
    Scans step stop i (.ok [token]) :=
  ⟨1, by rw [scan_succ, if_pos h, hstep]⟩

theorem Scans.round {result : Except ε (List τ)} (h : i < stop)
    (hstep : step i = .ok (token, some next)) (hrest : Scans step stop next result) :
    Scans step stop i (result.map (token :: ·)) := by
  obtain ⟨fuel, hfuel⟩ := hrest
  exact ⟨fuel + 1, by rw [scan_succ, if_pos h, hstep]; dsimp only; rw [hfuel]; rfl⟩

/-- A loop that goes on ends with what the rest of it ends with. -/
theorem Scans.of_round {result : Except ε (List τ)} (hscan : Scans step stop i result)
    (h : i < stop) (hstep : step i = .ok (token, some next)) :
    ∃ rest, Scans step stop next rest ∧ result = rest.map (token :: ·) := by
  obtain ⟨fuel, hfuel⟩ := hscan
  cases fuel with
  | zero => exact nomatch hfuel
  | succ fuel =>
    rw [scan_succ, if_pos h, hstep] at hfuel
    obtain ⟨rest, hrest, rfl⟩ := Option.map_eq_some_iff.mp hfuel
    exact ⟨rest, ⟨fuel, hrest⟩, rfl⟩

theorem scan_add {fuel : Nat} {result : Except ε (List τ)}
    (h : scan step stop fuel i = some result) (more : Nat) :
    scan step stop (fuel + more) i = some result := by
  induction fuel generalizing i result with
  | zero => exact nomatch h
  | succ fuel ih =>
    rw [Nat.succ_add, scan_succ]
    rw [scan_succ] at h
    by_cases hlt : i < stop
    · rw [if_pos hlt] at h ⊢
      cases hstep : step i with
      | error e => rwa [hstep] at h
      | ok taken =>
        obtain ⟨token, next⟩ := taken
        rw [hstep] at h
        cases next with
        | none => exact h
        | some next =>
          obtain ⟨rest, hrest, rfl⟩ := Option.map_eq_some_iff.mp h
          exact Option.map_eq_some_iff.mpr ⟨rest, ih hrest, rfl⟩
    · rwa [if_neg hlt] at h ⊢

/-- The loop ends with one result, however many rounds it is given. -/
theorem Scans.unique {result result' : Except ε (List τ)} (h : Scans step stop i result)
    (h' : Scans step stop i result') : result = result' := by
  obtain ⟨fuel, h⟩ := h
  obtain ⟨fuel', h'⟩ := h'
  exact Option.some.inj ((scan_add h fuel').symm.trans (Nat.add_comm fuel' fuel ▸ scan_add h' fuel))

theorem Comes.trans {k : Int} (h : Comes step stop i j) (h' : Comes step stop j k) :
    Comes step stop i k := by
  induction h with
  | here => exact h'
  | round hlt hstep _ ih => exact .round hlt hstep (ih h')

/-- A token that is taken where the cursor comes is among the tokens. -/
theorem Scans.mem {tokens : List τ} {after : Option Int} (hscan : Scans step stop i (.ok tokens))
    (hcomes : Comes step stop i j) (hlt : j < stop) (hstep : step j = .ok (token, after)) :
    token ∈ tokens := by
  induction hcomes generalizing tokens with
  | here i =>
    cases after with
    | none =>
      cases hscan.unique (.last hlt hstep)
      exact List.mem_singleton.mpr rfl
    | some next =>
      obtain ⟨rest, -, heq⟩ := hscan.of_round hlt hstep
      cases rest with
      | error e => exact nomatch heq
      | ok rest =>
        obtain rfl := Except.ok.inj heq
        exact List.mem_cons_self
  | round hi hround _ ih =>
    obtain ⟨rest, hrest, heq⟩ := hscan.of_round hi hround
    cases rest with
    | error e => exact nomatch heq
    | ok rest =>
      obtain rfl := Except.ok.inj heq
      exact List.mem_cons_of_mem _ (ih hrest hlt hstep)

end Rounds

/-! ## Tokens that tile -/

/-- One round takes a good token: it starts at the cursor and has places, none of them
past the end, and the loop goes on behind it, or ends with it. -/
structure Takes (span : τ → Span) (good : τ → Prop) (stop i : Int) (token : τ)
    (after : Option Int) : Prop where
  start : (span token).start = i
  advances : i < (span token).stop
  inside : (span token).stop ≤ stop
  good : good token
  goesOn : after = some (span token).stop ∨ after = none ∧ (span token).stop = stop

/-- If every round from a place of a set throws or takes a good token, and comes to a place of
the set again, the loop throws, or ends with good tokens that tile the text. -/
theorem scans_or_throws {step : Int → Except ε (τ × Option Int)} {stop i : Int}
    (span : τ → Span) (good : τ → Prop) (allowed : ε → Prop) (places : Int → Prop)
    (hround : ∀ j, places j → j < stop →
      (∃ e, step j = .error e ∧ allowed e) ∨
        ∃ token after, step j = .ok (token, after) ∧ Takes span good stop j token after ∧
          ((span token).stop < stop → places (span token).stop))
    (hstart : i ≤ stop) (hplace : i < stop → places i) :
    (∃ e, Scans step stop i (.error e) ∧ allowed e) ∨
      ∃ tokens, Scans step stop i (.ok tokens) ∧ Tiles (tokens.map span) i stop ∧
        ∀ token ∈ tokens, good token ∧ (span token).start < (span token).stop := by
  -- each round leaves less of the text
  induction hleft : (stop - i).toNat using Nat.strongRecOn generalizing i with
  | ind left ih =>
  by_cases hlt : i < stop
  · obtain ⟨e, hstep, he⟩ | ⟨token, after, hstep, htakes, hnext⟩ := hround i (hplace hlt) hlt
    · exact .inl ⟨e, .throws hlt hstep, he⟩
    obtain ⟨hpos, hadvances, hinside, hgood, rfl | ⟨rfl, hend⟩⟩ := htakes
    · obtain ⟨e, hthrows, he⟩ | ⟨tokens, hscan, htiles, hall⟩ :=
        ih (stop - (span token).stop).toNat (by omega) hinside hnext rfl
      · exact .inl ⟨e, .round hlt hstep hthrows, he⟩
      · refine .inr ⟨token :: tokens, .round hlt hstep hscan, ⟨hpos, by omega, htiles⟩, ?_⟩
        exact List.forall_mem_cons.mpr ⟨⟨hgood, by omega⟩, hall⟩
    · refine .inr ⟨[token], .last hlt hstep, ⟨hpos, by omega, hend⟩, ?_⟩
      exact List.forall_mem_singleton.mpr ⟨hgood, by omega⟩
  · exact .inr ⟨[], .finish hlt, le_antisymm hstart (not_lt.mp hlt), fun _ h => (nomatch h)⟩

/-! ## The text of the tokens -/

/-- What stands in a range of a text. -/
def Span.of (text : List α) (span : Span) : List α :=
  (text.drop span.start.toNat).take (span.stop - span.start).toNat

theorem Span.of_append {text : List α} {i j k : Int} (hi : 0 ≤ i) (hij : i ≤ j) (hjk : j ≤ k) :
    (⟨i, j⟩ : Span).of text ++ (⟨j, k⟩ : Span).of text = (⟨i, k⟩ : Span).of text := by
  obtain ⟨i, rfl⟩ := Int.eq_ofNat_of_zero_le hi
  obtain ⟨m, rfl⟩ := Int.le.dest hij
  obtain ⟨n, rfl⟩ := Int.le.dest hjk
  have hm : ((i : Int) + m - i).toNat = m := by omega
  have hn : ((i : Int) + m + n - (i + m)).toNat = n := by omega
  have hmn : ((i : Int) + m + n - i).toNat = m + n := by omega
  have hdrop : ((i : Int) + m).toNat = i + m := by omega
  show (text.drop _).take _ ++ (text.drop _).take _ = (text.drop _).take _
  rw [hm, hn, hmn, hdrop, Int.toNat_natCast, List.take_add, List.drop_drop]

/-- Ranges that tile a part of a text have it between them. -/
theorem Tiles.flatten {spans : List Span} {lo hi : Int} (h : Tiles spans lo hi) (hlo : 0 ≤ lo)
    (text : List α) : (spans.map (·.of text)).flatten = (⟨lo, hi⟩ : Span).of text := by
  induction spans generalizing lo with
  | nil =>
    obtain rfl : lo = hi := h
    rw [List.map_nil, List.flatten_nil, Span.of, Int.sub_self]
    exact List.take_zero.symm
  | cons span rest ih =>
    obtain ⟨rfl, hspan, hrest⟩ := h
    rw [List.map_cons, List.flatten_cons, ih hrest (by omega)]
    exact Span.of_append hlo hspan hrest.le

theorem Span.of_all (text : List α) : (⟨0, text.length⟩ : Span).of text = text := by
  show (text.drop 0).take _ = text
  rw [List.drop_zero, List.take_of_length_le (by dsimp only; omega)]

end Runar.Logic
