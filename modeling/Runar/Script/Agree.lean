/-
  Script/Agree.lean --- two serializers of the same pieces.

  WHAT THIS FILE IS FOR.  One side writes a list of pieces as hexadecimal text, the
  other as bytes, and each may refuse a piece.  The sides agree when the text is
  that of the bytes or both refuse.  This file lifts agreement from the pieces to
  their concatenation, and disagreement too: by length, and by cancelling the pieces
  that agree.  It names no program.
-/
import Runar.Script.Hex
import Runar.Script.Machine

set_option autoImplicit false

namespace Runar.Script

/-! ## Concatenating fallible pieces -/

section Collect

variable {α β ε ε' : Type}

/-- The concatenation of the pieces, or the first refusal. -/
def collect (f : α → Except ε (List β)) (xs : List α) : Except ε (List β) :=
  xs.foldlM (fun acc x => do
    let piece ← f x
    .ok (acc ++ piece)) []

@[simp] theorem collect_nil (f : α → Except ε (List β)) : collect f [] = .ok [] := rfl

theorem collect_cons (f : α → Except ε (List β)) (x : α) (xs : List α) :
    collect f (x :: xs) = (do
      let piece ← f x
      let rest ← collect f xs
      .ok (piece ++ rest)) := by
  have hgen : ∀ (front acc : List β),
      xs.foldlM (fun acc x => do
        let piece ← f x
        .ok (acc ++ piece)) (front ++ acc) =
      (xs.foldlM (fun acc x => do
        let piece ← f x
        .ok (acc ++ piece)) acc >>= fun rest => (.ok (front ++ rest) : Except ε (List β))) := by
    induction xs with
    | nil =>
        intro front acc
        rfl
    | cons y ys ih =>
        intro front acc
        rw [List.foldlM_cons, List.foldlM_cons]
        cases f y with
        | error e => rfl
        | ok piece =>
            rw [ok_bind, ok_bind, ok_bind, ok_bind, List.append_assoc]
            exact ih front (acc ++ piece)
  unfold collect
  rw [List.foldlM_cons]
  cases f x with
  | error e => rfl
  | ok piece =>
      have hpiece := hgen piece []
      rw [List.append_nil] at hpiece
      exact hpiece

theorem collect_append (f : α → Except ε (List β)) (xs ys : List α) :
    collect f (xs ++ ys) = (do
      let front ← collect f xs
      let back ← collect f ys
      .ok (front ++ back)) := by
  induction xs with
  | nil =>
      rw [List.nil_append, collect_nil, ok_bind]
      cases collect f ys <;> rfl
  | cons x xs ih =>
      rw [List.cons_append, collect_cons, collect_cons, ih]
      cases f x with
      | error e => rfl
      | ok piece =>
          cases collect f xs with
          | error e => rfl
          | ok front =>
              cases collect f ys with
              | error e => rfl
              | ok back => simp only [ok_bind, List.append_assoc]

theorem collect_map {γ : Type} (f : α → Except ε (List β)) (g : γ → α) (xs : List γ) :
    collect f (xs.map g) = collect (fun x => f (g x)) xs := by
  unfold collect
  rw [List.foldlM_map]

theorem collect_congr {f g : α → Except ε (List β)} {xs : List α} (h : ∀ x ∈ xs, f x = g x) :
    collect f xs = collect g xs := by
  induction xs with
  | nil => rfl
  | cons x xs ih =>
      rw [collect_cons, collect_cons, h x List.mem_cons_self,
        ih fun y hy => h y (List.mem_cons_of_mem x hy)]

/-- One refusal refuses the whole. -/
theorem collect_error {f : α → Except ε (List β)} {xs : List α} {x : α} {e : ε} (hx : x ∈ xs)
    (h : f x = .error e) : ∃ e', collect f xs = .error e' := by
  obtain ⟨front, back, rfl⟩ := List.append_of_mem hx
  rw [collect_append, collect_cons, h]
  cases collect f front with
  | error e' => exact ⟨e', rfl⟩
  | ok piece => exact ⟨e, rfl⟩

theorem collect_ok {f : α → Except ε (List β)} {xs : List α} (h : ∀ x ∈ xs, ∃ piece, f x = .ok piece) :
    ∃ whole, collect f xs = .ok whole := by
  induction xs with
  | nil => exact ⟨[], rfl⟩
  | cons x xs ih =>
      obtain ⟨piece, hpiece⟩ := h x List.mem_cons_self
      obtain ⟨whole, hwhole⟩ := ih fun y hy => h y (List.mem_cons_of_mem x hy)
      refine ⟨piece ++ whole, ?_⟩
      rw [collect_cons, hpiece, ok_bind, hwhole, ok_bind]

theorem collect_cons_ok {f : α → Except ε (List β)} {x : α} {xs : List α} {whole : List β}
    (h : collect f (x :: xs) = .ok whole) :
    ∃ piece rest, f x = .ok piece ∧ collect f xs = .ok rest ∧ whole = piece ++ rest := by
  rw [collect_cons] at h
  cases hpiece : f x with
  | error e =>
      rw [hpiece] at h
      cases h
  | ok piece =>
      rw [hpiece, ok_bind] at h
      cases hrest : collect f xs with
      | error e =>
          rw [hrest] at h
          cases h
      | ok rest =>
          rw [hrest] at h
          cases h
          exact ⟨piece, rest, rfl, rfl, rfl⟩

end Collect

/-! ## Agreement -/

section Agree

variable {α ε ε' : Type}

/-- The text is that of the bytes, or both sides refuse. -/
def Agree (sdk : Except ε HexText) (chain : Except ε' Bytes) : Prop :=
  match sdk, chain with
  | .ok text, .ok bytes => text = toHex bytes
  | .error _, .error _ => True
  | _, _ => False

theorem Agree.append {sdk sdk' : Except ε HexText} {chain chain' : Except ε' Bytes}
    (h : Agree sdk chain) (h' : Agree sdk' chain') :
    Agree (do let a ← sdk
              let b ← sdk'
              .ok (a ++ b))
      (do let a ← chain
          let b ← chain'
          .ok (a ++ b)) := by
  cases sdk with
  | error e =>
      cases chain with
      | error e' => trivial
      | ok bytes => exact h.elim
  | ok text =>
      cases chain with
      | error e' => exact h.elim
      | ok bytes =>
          cases sdk' with
          | error e =>
              cases chain' with
              | error e' => trivial
              | ok bytes' => exact h'.elim
          | ok text' =>
              cases chain' with
              | error e' => exact h'.elim
              | ok bytes' =>
                  show text ++ text' = toHex (bytes ++ bytes')
                  have htext : text = toHex bytes := h
                  have htext' : text' = toHex bytes' := h'
                  rw [htext, htext', toHex_append]

/-- Pieces that agree have agreeing concatenations. -/
theorem agree_collect {sdk : α → Except ε HexText} {chain : α → Except ε' Bytes} {xs : List α}
    (h : ∀ x ∈ xs, Agree (sdk x) (chain x)) : Agree (collect sdk xs) (collect chain xs) := by
  induction xs with
  | nil => exact rfl
  | cons x xs ih =>
      rw [collect_cons, collect_cons]
      exact (h x List.mem_cons_self).append (ih fun y hy => h y (List.mem_cons_of_mem x hy))

/-- Where no piece of text is shorter than its bytes' and one is longer, the whole
is longer. -/
theorem length_collect_lt {sdk : α → Except ε HexText} {chain : α → Except ε' Bytes} {xs : List α}
    {text : HexText} {bytes : Bytes}
    (hle : ∀ x ∈ xs, ∀ t b, sdk x = .ok t → chain x = .ok b → 2 * b.length ≤ t.length)
    {x : α} (hx : x ∈ xs)
    (hlt : ∀ t b, sdk x = .ok t → chain x = .ok b → 2 * b.length < t.length)
    (htext : collect sdk xs = .ok text) (hbytes : collect chain xs = .ok bytes) :
    2 * bytes.length < text.length := by
  have hwhole : ∀ ys : List α, (∀ y ∈ ys, y ∈ xs) → ∀ t b, collect sdk ys = .ok t →
      collect chain ys = .ok b → 2 * b.length ≤ t.length := by
    intro ys
    induction ys with
    | nil =>
        intro _ t b ht hb
        cases ht
        cases hb
        exact Nat.le_refl 0
    | cons y ys ih =>
        intro hys t b ht hb
        obtain ⟨t₁, t₂, hy, hrest, rfl⟩ := collect_cons_ok ht
        obtain ⟨b₁, b₂, hy', hrest', rfl⟩ := collect_cons_ok hb
        have hhead := hle y (hys y List.mem_cons_self) t₁ b₁ hy hy'
        have htail := ih (fun z hz => hys z (List.mem_cons_of_mem y hz)) t₂ b₂ hrest hrest'
        rw [List.length_append, List.length_append]
        omega
  obtain ⟨front, back, rfl⟩ := List.append_of_mem hx
  rw [collect_append] at htext hbytes
  cases hfront : collect sdk front with
  | error e =>
      rw [hfront] at htext
      cases htext
  | ok t₀ =>
      cases hfront' : collect chain front with
      | error e =>
          rw [hfront'] at hbytes
          cases hbytes
      | ok b₀ =>
          rw [hfront, ok_bind] at htext
          rw [hfront', ok_bind] at hbytes
          cases hback : collect sdk (x :: back) with
          | error e =>
              rw [hback] at htext
              cases htext
          | ok t₁ =>
              cases hback' : collect chain (x :: back) with
              | error e =>
                  rw [hback'] at hbytes
                  cases hbytes
              | ok b₁ =>
                  rw [hback] at htext
                  rw [hback'] at hbytes
                  cases htext
                  cases hbytes
                  obtain ⟨t₂, t₃, ht₂, ht₃, rfl⟩ := collect_cons_ok hback
                  obtain ⟨b₂, b₃, hb₂, hb₃, rfl⟩ := collect_cons_ok hback'
                  have h₀ := hwhole front (fun y hy => List.mem_append_left _ hy) t₀ b₀ hfront hfront'
                  have h₂ := hlt t₂ b₂ ht₂ hb₂
                  have h₃ := hwhole back (fun y hy => List.mem_append_right _
                    (List.mem_cons_of_mem x hy)) t₃ b₃ ht₃ hb₃
                  simp only [List.length_append]
                  omega

/-- Where all other pieces agree, the wholes agree only if the pieces do. -/
theorem not_agree_collect {sdk : α → Except ε HexText} {chain : α → Except ε' Bytes}
    {front back : List α} {x : α} (hfront : ∀ y ∈ front, Agree (sdk y) (chain y))
    (hback : ∀ y ∈ back, Agree (sdk y) (chain y))
    (hok : ∀ y ∈ front ++ x :: back, ∃ text, sdk y = .ok text)
    (hx : ¬ Agree (sdk x) (chain x)) :
    ¬ Agree (collect sdk (front ++ x :: back)) (collect chain (front ++ x :: back)) := by
  have hfrontAgree := agree_collect hfront
  have hbackAgree := agree_collect hback
  obtain ⟨t₀, ht₀⟩ := collect_ok fun y hy => hok y (List.mem_append_left _ hy)
  obtain ⟨t₂, ht₂⟩ := collect_ok fun y hy => hok y (List.mem_append_right _
    (List.mem_cons_of_mem x hy))
  obtain ⟨t₁, ht₁⟩ := hok x (List.mem_append_right _ List.mem_cons_self)
  rw [ht₀] at hfrontAgree
  rw [ht₂] at hbackAgree
  rw [ht₁] at hx
  rw [collect_append, collect_append, collect_cons, collect_cons, ht₀, ht₁, ht₂]
  cases hb₀ : collect chain front with
  | error e =>
      rw [hb₀] at hfrontAgree
      exact hfrontAgree.elim
  | ok b₀ =>
      cases hb₂ : collect chain back with
      | error e =>
          rw [hb₂] at hbackAgree
          exact hbackAgree.elim
      | ok b₂ =>
          rw [hb₀] at hfrontAgree
          rw [hb₂] at hbackAgree
          have h₀ : t₀ = toHex b₀ := hfrontAgree
          have h₂ : t₂ = toHex b₂ := hbackAgree
          cases hb₁ : chain x with
          | error e => exact id
          | ok b₁ =>
              rw [hb₁] at hx
              intro h
              have hwhole : t₀ ++ (t₁ ++ t₂) = toHex (b₀ ++ (b₁ ++ b₂)) := h
              rw [toHex_append, toHex_append, h₀, h₂, List.append_cancel_left_eq,
                List.append_cancel_right_eq] at hwhole
              exact hx hwhole

end Agree

end Runar.Script
