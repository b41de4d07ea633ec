/-
  StackLower/Named.lean --- code that is emitted by names.

  WHAT THIS FILE IS FOR.  The code generators for fields keep the names of the stack's
  numbers beside the code and ask for a number by its name.  A named stack is those names
  with the numbers; `Emits` says that an emitter turns one into the other, in the names it
  keeps and in what its code does.  Every reduction on the way has to meet what it assumes
  of its operand, so that is part of the notion.
-/
import Runar.StackLower.PreimageBinding
import Runar.StackLower.ByteSequences

set_option autoImplicit false

namespace Runar.StackLower

open Script

namespace Tracker

def drop : Tracker Unit := do
  emit .drop
  popName

/-- The topmost entry gets another name. -/
def rename (name : String) : Tracker Unit :=
  modify fun t => { t with nm := t.nm.dropLast ++ [some name] }

end Tracker

/-- The numbers of the stack under their names, the top first. -/
abbrev NamedStack : Type := List (String × Int)

namespace NamedStack

/-- The names as the tracker keeps them. -/
def names (st : NamedStack) : List (Option String) := (st.map fun e => some e.1).reverse

def items (st : NamedStack) : List Bytes := st.map fun e => encodeNum e.2

/-- The topmost number of a name. -/
def numberOf (name : String) : NamedStack → Option Int
  | [] => none
  | (n, v) :: st => if n = name then some v else numberOf name st

/-- The stack without the topmost entry of a name. -/
def without (name : String) : NamedStack → NamedStack
  | [] => []
  | (n, v) :: st => if n = name then st else (n, v) :: without name st

/-- A name that is there splits the stack. -/
theorem exists_of_numberOf {name : String} {v : Int} {st : NamedStack}
    (h : numberOf name st = some v) :
    ∃ front back : NamedStack, st = front ++ (name, v) :: back ∧ (∀ e ∈ front, e.1 ≠ name) ∧
      without name st = front ++ back := by
  induction st with
  | nil => exact nomatch h
  | cons e st ih =>
    obtain ⟨n, w⟩ := e
    rw [numberOf] at h
    split at h
    · next hn =>
      obtain rfl := Option.some.inj h
      subst hn
      exact ⟨[], st, rfl, List.forall_mem_nil _, if_pos rfl⟩
    · next hn =>
      obtain ⟨front, back, rfl, hfront, hwithout⟩ := ih h
      refine ⟨(n, w) :: front, back, rfl, List.forall_mem_cons.mpr ⟨hn, hfront⟩, ?_⟩
      rw [without, if_neg hn, hwithout]
      rfl

end NamedStack

open NamedStack

/-- What the code's reductions assume: the operand of OP_MOD is not negative, or it is no more
than a modulus below zero and a modulus is added behind. -/
def ReductionsInRange (cfg : Config) (slots : Slots) (p : Int) (ops : List StackOp)
    (before : List Bytes) : Prop :=
  ∀ pre post, ops = pre ++ .opcode .OP_MOD :: post → ∃ (x : Int) (rest : List Bytes),
    RunsAs cfg slots pre before (.ok (encodeNum p :: encodeNum x :: rest)) ∧
      (0 ≤ x ∨ -p ≤ x ∧ [.push (.bigint p), .opcode .OP_ADD] <+: post)

/-- The code takes the items to others, and its reductions are in range. -/
structure Reduces (cfg : Config) (slots : Slots) (p : Int) (ops : List StackOp)
    (before after : List Bytes) : Prop where
  runs : RunsAs cfg slots ops before (.ok after)
  inRange : ReductionsInRange cfg slots p ops before

namespace Reduces

variable {cfg : Config} {slots : Slots} {p : Int} {ops ops' : List StackOp}
  {before middle after : List Bytes}

/-- Code without a reduction. -/
theorem of_runs (h : RunsAs cfg slots ops before (.ok after))
    (hmod : .opcode .OP_MOD ∉ ops) : Reduces cfg slots p ops before after where
  runs := h
  inRange pre _ hops := absurd (hops ▸ List.mem_append_right pre List.mem_cons_self) hmod

theorem nil : Reduces cfg slots p [] before before := of_runs (.nil before) List.not_mem_nil

theorem append (h : Reduces cfg slots p ops before middle)
    (h' : Reduces cfg slots p ops' middle after) :
    Reduces cfg slots p (ops ++ ops') before after where
  runs := h.runs.append_ok h'.runs
  inRange pre post hops := by
    rcases List.append_eq_append_iff.mp hops with ⟨rest, hpre, hrest⟩ | ⟨rest, hpre, hrest⟩
    · obtain ⟨x, items, hrun, hrange⟩ := h'.inRange rest post hrest
      exact ⟨x, items, hpre ▸ h.runs.append_ok hrun, hrange⟩
    · cases rest with
      | nil =>
        obtain ⟨x, items, hrun, hrange⟩ := h'.inRange [] post hrest.symm
        rw [List.append_nil] at hpre
        have hall := h.runs.append_ok hrun
        rw [List.append_nil, hpre] at hall
        exact ⟨x, items, hall, hrange⟩
      | cons op rest =>
        rw [List.cons_append, List.cons.injEq] at hrest
        obtain ⟨rfl, rfl⟩ := hrest
        obtain ⟨x, items, hrun, hrange⟩ := h.inRange pre rest hpre
        refine ⟨x, items, hrun, hrange.imp_right fun hneg => ⟨hneg.1, ?_⟩⟩
        exact hneg.2.trans (List.prefix_append rest ops')

theorem frame (h : Reduces cfg slots p ops before after) (rest : List Bytes) :
    Reduces cfg slots p ops (before ++ rest) (after ++ rest) where
  runs := h.runs.frame rest
  inRange pre post hops := by
    obtain ⟨x, items, hrun, hrange⟩ := h.inRange pre post hops
    exact ⟨x, items ++ rest, hrun.frame rest, hrange⟩

end Reduces

/-- The emitter turns the one named stack into the other. -/
def Emits (cfg : Config) (slots : Slots) (p : Int) (act : Tracker Unit)
    (before after : NamedStack) : Prop :=
  ∀ t : ECTracker, t.nm = before.names → ∃ ops,
    act.run t = .ok ((), ⟨after.names, t.ops ++ ops⟩) ∧
      Reduces cfg slots p ops before.items after.items

namespace Emits

variable {cfg : Config} {slots : Slots} {p : Int} {act act' : Tracker Unit}
  {before middle after : NamedStack}

theorem pure : Emits cfg slots p (pure ()) before before := by
  intro t ht
  refine ⟨[], ?_, .nil⟩
  rw [List.append_nil, ← ht]
  rfl

theorem bind {next : Unit → Tracker Unit} (h : Emits cfg slots p act before middle)
    (h' : Emits cfg slots p (next ()) middle after) :
    Emits cfg slots p (act >>= next) before after := by
  intro t ht
  obtain ⟨ops, hrun, hops⟩ := h t ht
  obtain ⟨ops', hrun', hops'⟩ := h' ⟨middle.names, t.ops ++ ops⟩ rfl
  refine ⟨ops ++ ops', ?_, hops.append hops'⟩
  rw [StateT.run_bind, hrun]
  show (next ()).run ⟨middle.names, t.ops ++ ops⟩ = _
  rw [hrun', List.append_assoc]

/-- An emitter that looks at the names. -/
theorem get {f : ECTracker → Tracker Unit}
    (h : ∀ t : ECTracker, t.nm = before.names → Emits cfg slots p (f t) before after) :
    Emits cfg slots p (MonadState.get >>= f) before after := by
  intro t ht
  obtain ⟨ops, hrun, hops⟩ := h t ht t ht
  exact ⟨ops, hrun, hops⟩

/-- Emitted code with the change of names that goes with it. -/
theorem of_reduces {ops : List StackOp}
    (hact : ∀ t : ECTracker, t.nm = before.names →
      act.run t = .ok ((), ⟨after.names, t.ops ++ ops⟩))
    (hops : Reduces cfg slots p ops before.items after.items) :
    Emits cfg slots p act before after :=
  fun t ht => ⟨ops, hact t ht, hops⟩

/-- A rule for one piece of code without a reduction. -/
theorem of_runs {ops : List StackOp}
    (hact : ∀ t : ECTracker, t.nm = before.names →
      act.run t = .ok ((), ⟨after.names, t.ops ++ ops⟩))
    (hops : RunsAs cfg slots ops before.items (.ok after.items))
    (hmod : .opcode .OP_MOD ∉ ops) : Emits cfg slots p act before after :=
  .of_reduces hact (.of_runs hops hmod)

theorem pushInt (name : String) (value : Int) (st : NamedStack) :
    Emits cfg slots p (Tracker.pushInt name value) st ((name, value) :: st) := by
  refine .of_runs (fun t ht => ?_) ((runsAs_pushNum cfg slots value).frame st.items) (by simp)
  show Except.ok ((), _) = _
  simp [ht, names]

theorem drop (e : String × Int) (st : NamedStack) :
    Emits cfg slots p Tracker.drop (e :: st) st := by
  refine .of_runs (fun t ht => ?_) ((runsAs_drop cfg slots (encodeNum e.2)).frame st.items)
    (by simp)
  show Except.ok ((), _) = _
  simp [ht, names]

theorem rename (name : String) (e : String × Int) (st : NamedStack) :
    Emits cfg slots p (Tracker.rename name) (e :: st) ((name, e.2) :: st) := by
  refine .of_runs (fun t ht => ?_) (.nil _) List.not_mem_nil
  show Except.ok ((), _) = _
  simp [ht, names]

/-- The tracked names move as the entries do. -/
theorem raise_names (front back : NamedStack) (e : String × Int) :
    (names (front ++ e :: back)).eraseIdx
          ((names (front ++ e :: back)).length - 1 - front.length) ++
        [((names (front ++ e :: back))[(names (front ++ e :: back)).length - 1 -
          front.length]?).getD none] =
      names (e :: (front ++ back)) := by
  have hnames : names (front ++ e :: back) = names back ++ some e.1 :: names front := by
    simp [names]
  have hindex : (names (front ++ e :: back)).length - 1 - front.length =
      (names back).length := by
    simp [names]
  rw [hindex, hnames, List.eraseIdx_append_of_length_le le_rfl]
  simp [names]

theorem roll (front back : NamedStack) (e : String × Int) :
    Emits cfg slots p (Tracker.roll front.length) (front ++ e :: back) (e :: (front ++ back)) := by
  have hraise := raise_names front back e
  match front with
  | [] => exact .pure
  | [x] =>
    refine .of_runs (fun t ht => ?_)
      ((runsAs_swap cfg slots (encodeNum x.2) (encodeNum e.2)).frame back.items) (by simp)
    show Except.ok ((), _) = _
    rw [← ht] at hraise
    exact congrArg (fun nm => Except.ok ((), (⟨nm, t.ops ++ [.swap]⟩ : ECTracker))) hraise
  | [x, y] =>
    refine .of_runs (fun t ht => ?_)
      ((runsAs_rot cfg slots (encodeNum x.2) (encodeNum y.2) (encodeNum e.2)).frame back.items)
      (by simp)
    show Except.ok ((), _) = _
    rw [← ht] at hraise
    exact congrArg (fun nm => Except.ok ((), (⟨nm, t.ops ++ [.rot]⟩ : ECTracker))) hraise
  | x :: y :: z :: front =>
    let depth := front.length + 3
    have hops : RunsAs cfg slots [.push (.bigint depth), .roll depth]
        (items (x :: y :: z :: front ++ e :: back))
        (.ok (items (e :: (x :: y :: z :: front ++ back)))) := by
      refine .of_plain (by simp [emitOps_cons]; decide) fun below alt => ?_
      have hroll := plainRun_roll cfg depth
        (items (x :: y :: z :: front ++ e :: back) ++ below) alt
      have hitems : items (x :: y :: z :: front ++ e :: back) ++ below =
          items (x :: y :: z :: front) ++ encodeNum e.2 :: (items back ++ below) := by
        simp [items]
      have hlength : (items (x :: y :: z :: front)).length = depth := by simp [items, depth]
      rw [hitems, ← hlength, List.getElem?_append_right le_rfl,
        List.eraseIdx_append_of_length_le le_rfl] at hroll
      rw [hitems, ← hlength]
      simpa [emitOps_cons, items] using hroll
    refine .of_runs (fun t ht => ?_) hops (by simp)
    show Except.ok ((), _) = _
    rw [← ht] at hraise
    refine (congrArg (fun nm => Except.ok ((), (⟨nm, _⟩ : ECTracker))) hraise).trans ?_
    simp [depth, add_assoc]

theorem pick (name : String) (front back : NamedStack) (e : String × Int) :
    Emits cfg slots p (Tracker.pick front.length name) (front ++ e :: back)
      ((name, e.2) :: (front ++ e :: back)) := by
  match front with
  | [] =>
    refine .of_runs (fun t ht => ?_) ((runsAs_dup cfg slots (encodeNum e.2)).frame back.items)
      (by simp)
    show Except.ok ((), _) = _
    simp [ht, names]
  | [x] =>
    refine .of_runs (fun t ht => ?_)
      ((runsAs_over cfg slots (encodeNum x.2) (encodeNum e.2)).frame back.items) (by simp)
    show Except.ok ((), _) = _
    simp [ht, names]
  | x :: y :: front =>
    let depth := front.length + 2
    have hops : RunsAs cfg slots [.push (.bigint depth), .pick depth]
        (items (x :: y :: front ++ e :: back))
        (.ok (items ((name, e.2) :: (x :: y :: front ++ e :: back)))) := by
      refine .of_plain (by simp [emitOps_cons]; decide) fun below alt => ?_
      have hpick := plainRun_pick cfg depth (items (x :: y :: front ++ e :: back) ++ below) alt
      have hitems : items (x :: y :: front ++ e :: back) ++ below =
          items (x :: y :: front) ++ encodeNum e.2 :: (items back ++ below) := by
        simp [items]
      have hlength : (items (x :: y :: front)).length = depth := by simp [items, depth]
      rw [hitems, ← hlength, List.getElem?_append_right le_rfl] at hpick
      rw [hitems, ← hlength]
      simpa [emitOps_cons, items] using hpick
    refine .of_runs (fun t ht => ?_) hops (by simp)
    show Except.ok ((), _) = _
    simp [ht, names, depth, add_assoc]

/-- The depth of a name is the number of entries above it. -/
theorem findDepth_names {name : String} {v : Int} {front back : NamedStack}
    (hfront : ∀ e ∈ front, e.1 ≠ name) (t : ECTracker)
    (ht : t.nm = names (front ++ (name, v) :: back)) :
    (Tracker.findDepth name).run t = .ok (front.length, t) := by
  have hreverse : t.nm.reverse =
      front.map (fun e => some e.1) ++ some name :: back.map fun e => some e.1 := by
    simp [ht, names]
  have hfind : t.nm.reverse.findIdx? (· = some name) = some front.length := by
    have hnone : (front.map fun e => some e.1).findIdx? (· = some name) = none := by
      rw [List.findIdx?_eq_none_iff, List.forall_mem_map]
      intro e he
      simpa using hfront e he
    rw [hreverse, List.findIdx?_append, hnone, List.findIdx?_cons, if_pos (decide_eq_true rfl)]
    simp
  unfold Tracker.findDepth
  rw [StateT.run_bind, StateT.run_get, pure_bind]
  dsimp only
  rw [hfind]
  rfl

/-- A found depth is what the emitter goes on with. -/
theorem at_depth {name : String} {v : Int} {front back : NamedStack}
    {f : Nat → Tracker Unit} (hfront : ∀ e ∈ front, e.1 ≠ name)
    (h : Emits cfg slots p (f front.length) (front ++ (name, v) :: back) after) :
    Emits cfg slots p (Tracker.findDepth name >>= f) (front ++ (name, v) :: back) after := by
  intro t ht
  obtain ⟨ops, hrun, hops⟩ := h t ht
  refine ⟨ops, ?_, hops⟩
  rw [StateT.run_bind, findDepth_names hfront t ht]
  exact hrun

theorem toTop {name : String} {v : Int} {st : NamedStack} (h : numberOf name st = some v) :
    Emits cfg slots p (Tracker.toTop name) st ((name, v) :: without name st) := by
  obtain ⟨front, back, rfl, hfront, hwithout⟩ := exists_of_numberOf h
  rw [hwithout]
  exact at_depth hfront (roll front back (name, v))

theorem copyToTop {name : String} {v : Int} {st : NamedStack} (copy : String)
    (h : numberOf name st = some v) :
    Emits cfg slots p (Tracker.copyToTop name copy) st ((copy, v) :: st) := by
  obtain ⟨front, back, rfl, hfront, -⟩ := exists_of_numberOf h
  exact at_depth hfront (pick copy front back (name, v))

/-- A raw block on the entries on top. -/
theorem rawBlock {consume : List String} {name : String} {ops : List StackOp}
    (operands : NamedStack) {v : Int} (hconsume : consume.length = operands.length)
    (hops : Reduces cfg slots p ops operands.items [encodeNum v]) (st : NamedStack) :
    Emits cfg slots p (Tracker.rawBlock consume (some name) ops) (operands ++ st)
      ((name, v) :: st) := by
  have hpop : ∀ (n : List String) (t : ECTracker),
      (n.forM fun _ => Tracker.popName).run t =
        .ok ((), { t with nm := t.nm.take (t.nm.length - n.length) }) := by
    intro n
    induction n with
    | nil =>
      intro t
      simp
      rfl
    | cons _ n ih =>
      intro t
      show ((n.forM fun _ => Tracker.popName).run { t with nm := t.nm.dropLast }) = _
      rw [ih, List.dropLast_eq_take, List.take_take, List.length_take, List.length_cons]
      congr 4
      omega
  have hitems : (operands ++ st).items = operands.items ++ st.items := List.map_append
  refine .of_reduces (fun t ht => ?_) (hitems ▸ hops.frame st.items)
  have hnames : t.nm.take (t.nm.length - consume.length) = names st := by
    have hsplit : t.nm = names st ++ names operands := by simp [ht, names]
    rw [hsplit, hconsume]
    simp [names]
  unfold Tracker.rawBlock
  rw [StateT.run_bind, hpop, hnames]
  show Except.ok ((), _) = _
  simp [names]

end Emits

end Runar.StackLower
