import Sockcan.Transition
import Mathlib.Data.List.Infix

/-! What is seen of a run, and machines whose next input comes from the channel that the
state asks for. Two runs of such a machine that get the same inputs from each channel are one
and the same run, as far as both go; a larger machine may carry out such a run among steps
that the smaller one does not see. -/
namespace Sockcan.Transition
variable {S V A X O C : Type}

/-- What is seen of the steps of a run. -/
def trace (step : S → A → Option S) (seen : S → A → Option O) : S → List A → List O
  | _, [] => []
  | s, a :: rest => match step s a with
    | none => []
    | some t => (seen s a).toList ++ trace step seen t rest

/-- The lists agree as far as both go. -/
def Agree (xs ys : List O) : Prop := xs <+: ys ∨ ys <+: xs

section Traces
variable {step : S → A → Option S} {seen : S → A → Option O}

theorem trace_cons {s t : S} {a : A} {rest : List A} (first : step s a = some t) :
    trace step seen s (a :: rest) = (seen s a).toList ++ trace step seen t rest := by
  simp only [trace, first]

theorem trace_append {s t : S} {before after : List A} (path : run step s before = some t) :
    trace step seen s (before ++ after) = trace step seen s before ++ trace step seen t after := by
  induction before generalizing s with
  | nil =>
    cases path
    rfl
  | cons a rest ih =>
    cases h : step s a with
    | none => simp [run, h] at path
    | some next =>
      rw [List.cons_append, trace_cons h, trace_cons h, ih ((run_cons h).mp path),
        List.append_assoc]

theorem trace_map {P : Type} (f : O → P) (s : S) (actions : List A) :
    trace step (fun s a => (seen s a).map f) s actions = (trace step seen s actions).map f := by
  induction actions generalizing s with
  | nil => rfl
  | cons a rest ih =>
    cases h : step s a with
    | none => simp only [trace, h, List.map_nil]
    | some t =>
      rw [trace_cons h, trace_cons h, ih, List.map_append]
      cases seen s a <;> rfl

theorem mem_trace {P : O → Prop} {I : S → Prop} {E : S → A → Prop}
    (preserved : ∀ s a t, I s → E s a → step s a = some t → I t)
    (each : ∀ s a t o, I s → E s a → step s a = some t → seen s a = some o → P o)
    {s : S} {actions : List A} (initial : I s) (along : Along step E s actions) :
    ∀ o ∈ trace step seen s actions, P o := by
  induction actions generalizing s with
  | nil => simp [trace]
  | cons a rest ih =>
    cases h : step s a with
    | none => simp [trace, h]
    | some t =>
      rw [along_cons h] at along
      rw [trace_cons h]
      intro o member
      rcases List.mem_append.mp member with here | later
      · exact each s a t o initial along.1 h (Option.mem_toList.mp here)
      · exact ih (preserved s a t initial along.1 h) along.2 o later

end Traces

section Agreement
variable {xs ys : List O}

theorem Agree.of_eq (same : xs = ys) : Agree xs ys := Or.inl (same ▸ List.prefix_rfl)

theorem Agree.map {P : Type} (agree : Agree xs ys) (f : O → P) : Agree (xs.map f) (ys.map f) :=
  agree.imp (fun short => short.map f) (fun short => short.map f)

theorem agree_cons {x y : O} : Agree (x :: xs) (y :: ys) ↔ x = y ∧ Agree xs ys := by
  simp only [Agree, List.cons_prefix_cons]
  grind

/-- Lists of one and the same item. -/
theorem agree_of_const {o : O} (first : ∀ x ∈ xs, x = o) (second : ∀ y ∈ ys, y = o) :
    Agree xs ys := by
  induction xs generalizing ys with
  | nil => exact Or.inl List.nil_prefix
  | cons x xs ih =>
    cases ys with
    | nil => exact Or.inr List.nil_prefix
    | cons y ys =>
      rw [agree_cons]
      constructor
      · exact (first x List.mem_cons_self).trans (second y List.mem_cons_self).symm
      · exact ih (fun other member => first other (List.mem_cons_of_mem _ member))
          fun other member => second other (List.mem_cons_of_mem _ member)

end Agreement

section Channels
variable [DecidableEq C] {feed : V → X → Option V} {channel : V → C} {c : C}

/-- The inputs from one channel. -/
def fromChannel (channel : V → C) (c : C) (v : V) (x : X) : Option X :=
  if channel v = c then some x else none

theorem fromChannel_here {v : V} (here : channel v = c) (x : X) :
    fromChannel channel c v x = some x := if_pos here

theorem fromChannel_elsewhere {v : V} (elsewhere : channel v ≠ c) (x : X) :
    fromChannel channel c v x = none := if_neg elsewhere

/-- Runs that get the same inputs from each channel get the same inputs. -/
theorem agree_of_channels {v v₁ v₂ : V} {xs ys : List X} (first : run feed v xs = some v₁)
    (second : run feed v ys = some v₂)
    (agree : ∀ c, Agree (trace feed (fromChannel channel c) v xs)
      (trace feed (fromChannel channel c) v ys)) : Agree xs ys := by
  induction xs generalizing v ys with
  | nil => exact Or.inl List.nil_prefix
  | cons x xs ih =>
    cases ys with
    | nil => exact Or.inr List.nil_prefix
    | cons y ys =>
      cases fed_x : feed v x with
      | none => simp [run, fed_x] at first
      | some w =>
        cases fed_y : feed v y with
        | none => simp [run, fed_y] at second
        | some u =>
          have own := agree (channel v)
          rw [trace_cons fed_x, trace_cons fed_y, fromChannel_here rfl, fromChannel_here rfl,
            Option.toList_some, Option.toList_some, List.singleton_append, List.singleton_append,
            agree_cons] at own
          obtain rfl := own.1
          cases fed_x.symm.trans fed_y
          rw [agree_cons]
          refine ⟨rfl, ih ((run_cons fed_x).mp first) ((run_cons fed_x).mp second) fun c => ?_⟩
          by_cases here : channel v = c
          · exact here ▸ own.2
          · have others := agree c
            rwa [trace_cons fed_x, trace_cons fed_x, fromChannel_elsewhere here] at others

/-- A run that waits for a channel does not go on without an input from it. -/
theorem eq_of_short {v v₁ v₂ : V} {xs ys : List X} (first : run feed v xs = some v₁)
    (second : run feed v ys = some v₂) (waits : channel v₁ = c)
    (same : trace feed (fromChannel channel c) v xs = trace feed (fromChannel channel c) v ys)
    (short : xs <+: ys) : v₁ = v₂ := by
  obtain ⟨zs, rfl⟩ := short
  rw [trace_append first] at same
  obtain ⟨middle, reached, rest⟩ := run_append.mp second
  cases first.symm.trans reached
  cases zs with
  | nil =>
    cases rest
    rfl
  | cons z zs =>
    cases fed : feed v₁ z with
    | none => simp [run, fed] at rest
    | some w =>
      rw [trace_cons fed, fromChannel_here waits] at same
      simp at same

/-- Runs that get the same inputs from each channel, and as many from the one that both
wait for in the end, end in the same state. -/
theorem eq_of_channels {v v₁ v₂ : V} {xs ys : List X} (first : run feed v xs = some v₁)
    (second : run feed v ys = some v₂)
    (agree : ∀ c, Agree (trace feed (fromChannel channel c) v xs)
      (trace feed (fromChannel channel c) v ys))
    (waits₁ : channel v₁ = c) (waits₂ : channel v₂ = c)
    (same : trace feed (fromChannel channel c) v xs = trace feed (fromChannel channel c) v ys) :
    v₁ = v₂ := by
  rcases agree_of_channels first second agree with short | short
  · exact eq_of_short first second waits₁ same short
  · exact (eq_of_short second first waits₂ same.symm short).symm

end Channels

section Projection
variable {step : S → A → Option S} {feed : V → X → Option V} {view : S → V}
  {seen : S → A → Option X} {I : S → Prop} {E : S → A → Prop}

/-- The steps that are seen are a run of the smaller machine, where the others do not change
what it sees of the state. -/
theorem run_view (preserved : ∀ s a t, I s → E s a → step s a = some t → I t)
    (silent : ∀ s a t, I s → E s a → step s a = some t → seen s a = none → view t = view s)
    (loud : ∀ s a t x, I s → E s a → step s a = some t → seen s a = some x →
      feed (view s) x = some (view t))
    {s t : S} {actions : List A} (initial : I s) (along : Along step E s actions)
    (path : run step s actions = some t) :
    run feed (view s) (trace step seen s actions) = some (view t) := by
  induction actions generalizing s with
  | nil =>
    cases path
    rfl
  | cons a rest ih =>
    cases h : step s a with
    | none => simp [run, h] at path
    | some next =>
      rw [along_cons h] at along
      have later := ih (preserved s a next initial along.1 h) along.2 ((run_cons h).mp path)
      rw [trace_cons h]
      cases looks : seen s a with
      | none =>
        rw [← silent s a next initial along.1 h looks]
        exact later
      | some x => exact (run_cons (loud s a next x initial along.1 h looks)).mpr later

/-- What is seen of the smaller run is what is seen of the larger one. -/
theorem trace_view {through : V → X → Option O} {observe : S → A → Option O}
    (preserved : ∀ s a t, I s → E s a → step s a = some t → I t)
    (silent : ∀ s a t, I s → E s a → step s a = some t → seen s a = none → view t = view s)
    (loud : ∀ s a t x, I s → E s a → step s a = some t → seen s a = some x →
      feed (view s) x = some (view t))
    (same : ∀ s a t, I s → E s a → step s a = some t →
      observe s a = (seen s a).bind (through (view s)))
    {s : S} {actions : List A} (initial : I s) (along : Along step E s actions) :
    trace step observe s actions = trace feed through (view s) (trace step seen s actions) := by
  induction actions generalizing s with
  | nil => rfl
  | cons a rest ih =>
    cases h : step s a with
    | none => simp only [trace, h]
    | some next =>
      rw [along_cons h] at along
      have later := ih (preserved s a next initial along.1 h) along.2
      rw [trace_cons h, trace_cons h, same s a next initial along.1 h, later]
      cases looks : seen s a with
      | none =>
        rw [silent s a next initial along.1 h looks]
        rfl
      | some x =>
        have fed := loud s a next x initial along.1 h looks
        rw [Option.toList_some, List.singleton_append, trace_cons fed]
        rfl

end Projection

end Sockcan.Transition
