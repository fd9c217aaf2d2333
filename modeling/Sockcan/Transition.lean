import Mathlib.Logic.Relation

/-! Finite runs of a partial, labelled step function. An action that is not
enabled ends the run; conditions on steps and on states are stated along the
whole run, so that they can be evaluated on a concrete one. -/
namespace Sockcan.Transition
variable {S T A : Type}

def run (step : S → A → Option S) : S → List A → Option S
  | s, [] => some s
  | s, a :: rest => (step s a).bind fun t => run step t rest

/-- `C` holds of every step that the run takes. -/
def Along (step : S → A → Option S) (C : S → A → Prop) : S → List A → Prop
  | _, [] => True
  | s, a :: rest => match step s a with
    | none => True
    | some t => C s a ∧ Along step C t rest

/-- `P` holds of every state that the run passes through, the first included. -/
def Throughout (step : S → A → Option S) (P : S → Prop) : S → List A → Prop
  | s, [] => P s
  | s, a :: rest => P s ∧ match step s a with
    | none => True
    | some t => Throughout step P t rest

/-- The run takes a step of which `C` holds. -/
def Sometime (step : S → A → Option S) (C : S → A → Prop) : S → List A → Prop
  | _, [] => False
  | s, a :: rest => match step s a with
    | none => False
    | some t => C s a ∨ Sometime step C t rest

variable {step : S → A → Option S} {C D : S → A → Prop} {P I : S → Prop}

instance decidableAlong [∀ s a, Decidable (C s a)] :
    ∀ s actions, Decidable (Along step C s actions)
  | _, [] => isTrue trivial
  | s, a :: rest => match h : step s a with
    | none => decidable_of_iff True (by simp only [Along, h])
    | some t => have := decidableAlong t rest
      decidable_of_iff (C s a ∧ Along step C t rest) (by simp only [Along, h])

instance decidableThroughout [DecidablePred P] :
    ∀ s actions, Decidable (Throughout step P s actions)
  | s, [] => inferInstanceAs (Decidable (P s))
  | s, a :: rest => match h : step s a with
    | none => decidable_of_iff (P s) (by simp only [Throughout, h, and_true])
    | some t => have := decidableThroughout t rest
      decidable_of_iff (P s ∧ Throughout step P t rest) (by simp only [Throughout, h])

theorem run_cons {s t u : S} {a : A} {rest : List A} (first : step s a = some t) :
    run step s (a :: rest) = some u ↔ run step t rest = some u := by
  simp only [run, first, Option.bind_some]

theorem run_append {s t : S} {before after : List A} :
    run step s (before ++ after) = some t ↔
      ∃ middle, run step s before = some middle ∧ run step middle after = some t := by
  induction before generalizing s with
  | nil => simp [run]
  | cons a rest ih =>
    cases h : step s a with
    | none => simp [run, h]
    | some next => simp only [List.cons_append, run, h, Option.bind_some, ih]

theorem along_cons {s t : S} {a : A} {rest : List A} (first : step s a = some t) :
    Along step C s (a :: rest) ↔ C s a ∧ Along step C t rest := by
  simp only [Along, first]

theorem Along.append {s t : S} {before after : List A} (path : run step s before = some t)
    (along : Along step C s (before ++ after)) : Along step C t after := by
  induction before generalizing s with
  | nil =>
    cases path
    exact along
  | cons a rest ih =>
    cases h : step s a with
    | none => simp [run, h] at path
    | some next =>
      rw [List.cons_append, along_cons h] at along
      exact ih ((run_cons h).mp path) along.2

theorem Along.before {s : S} {before after : List A}
    (along : Along step C s (before ++ after)) : Along step C s before := by
  induction before generalizing s with
  | nil => trivial
  | cons a rest ih =>
    cases h : step s a with
    | none => simp only [Along, h]
    | some next =>
      rw [List.cons_append, along_cons h] at along
      rw [along_cons h]
      exact ⟨along.1, ih along.2⟩

theorem Throughout.head {s : S} {actions : List A} (all : Throughout step P s actions) : P s := by
  cases actions with
  | nil => exact all
  | cons a rest => exact all.1

theorem Throughout.last {s t : S} {actions : List A} (all : Throughout step P s actions)
    (path : run step s actions = some t) : P t := by
  induction actions generalizing s with
  | nil =>
    cases path
    exact all
  | cons a rest ih =>
    cases h : step s a with
    | none => simp [run, h] at path
    | some next =>
      have later := all.2
      exact ih (by simpa only [h] using later) ((run_cons h).mp path)

theorem throughout_cons {s t : S} {a : A} {rest : List A} (first : step s a = some t) :
    Throughout step P s (a :: rest) ↔ P s ∧ Throughout step P t rest := by
  simp only [Throughout, first]

/-- Throughout the run means at the end of each of its prefixes. -/
theorem throughout_iff_prefixes {s : S} {actions : List A} :
    Throughout step P s actions ↔
      ∀ before after t, actions = before ++ after → run step s before = some t → P t := by
  constructor
  · intro all before after t split path
    induction before generalizing s actions with
    | nil =>
      cases path
      exact all.head
    | cons a rest ih =>
      subst split
      cases h : step s a with
      | none => simp [run, h] at path
      | some next =>
        rw [List.cons_append, throughout_cons h] at all
        exact ih all.2 rfl ((run_cons h).mp path)
  · intro each
    induction actions generalizing s with
    | nil => exact each [] [] s rfl rfl
    | cons a rest ih =>
      refine ⟨each [] (a :: rest) s rfl rfl, ?_⟩
      cases h : step s a with
      | none => trivial
      | some next =>
        apply ih
        intro before after t split path
        exact each (a :: before) after t (by rw [split, List.cons_append]) ((run_cons h).mpr path)

theorem Throughout.before {s : S} {before after : List A}
    (all : Throughout step P s (before ++ after)) : Throughout step P s before := by
  rw [throughout_iff_prefixes] at all ⊢
  intro first rest t split path
  exact all first (rest ++ after) t (by rw [split, List.append_assoc]) path

/-- An invariant under the steps that meet `C` holds at the end of every run
whose steps do. -/
theorem invariant_run (preserved : ∀ s a t, I s → C s a → step s a = some t → I t)
    {s t : S} {actions : List A} (initial : I s) (along : Along step C s actions)
    (path : run step s actions = some t) : I t := by
  induction actions generalizing s with
  | nil =>
    cases path
    exact initial
  | cons a rest ih =>
    cases h : step s a with
    | none => simp [run, h] at path
    | some next =>
      rw [along_cons h] at along
      exact ih (preserved _ _ _ initial along.1 h) along.2 ((run_cons h).mp path)

theorem Along.and {s : S} {actions : List A} (first : Along step C s actions)
    (second : Along step D s actions) : Along step (fun s a => C s a ∧ D s a) s actions := by
  induction actions generalizing s with
  | nil => trivial
  | cons a rest ih =>
    cases h : step s a with
    | none => simp only [Along, h]
    | some t =>
      rw [along_cons h] at first second ⊢
      exact ⟨⟨first.1, second.1⟩, ih first.2 second.2⟩

/-- What holds of every state holds before every step. -/
theorem Throughout.along {s : S} {actions : List A} (all : Throughout step P s actions) :
    Along step (fun s _ => P s) s actions := by
  induction actions generalizing s with
  | nil => trivial
  | cons a rest ih =>
    cases h : step s a with
    | none => simp only [Along, h]
    | some t =>
      rw [along_cons h]
      rw [throughout_cons h] at all
      exact ⟨all.1, ih all.2⟩

/-- Two conditions that agree in the states of an invariant. -/
theorem along_congr {E : S → A → Prop}
    (preserved : ∀ s a t, I s → E s a → step s a = some t → I t)
    (same : ∀ s a, I s → (C s a ↔ D s a)) {s : S} {actions : List A} (initial : I s)
    (along : Along step E s actions) : Along step C s actions ↔ Along step D s actions := by
  induction actions generalizing s with
  | nil => exact Iff.rfl
  | cons a rest ih =>
    cases h : step s a with
    | none => simp only [Along, h]
    | some t =>
      rw [along_cons h] at along ⊢
      rw [along_cons h]
      exact and_congr (same s a initial) (ih (preserved s a t initial along.1 h) along.2)

theorem along_true {s : S} {actions : List A} : Along step (fun _ _ => True) s actions := by
  induction actions generalizing s with
  | nil => trivial
  | cons a rest ih =>
    cases h : step s a with
    | none => simp only [Along, h]
    | some t =>
      rw [along_cons h]
      exact ⟨trivial, ih⟩

/-- What holds of every action of a run holds along it. -/
theorem along_of_mem {D : A → Prop} {s : S} {actions : List A} (all : ∀ a ∈ actions, D a) :
    Along step (fun _ a => D a) s actions := by
  induction actions generalizing s with
  | nil => trivial
  | cons a rest ih =>
    cases h : step s a with
    | none => simp only [Along, h]
    | some t =>
      rw [along_cons h]
      exact ⟨all a List.mem_cons_self, ih fun b member => all b (List.mem_cons_of_mem a member)⟩

/-- A property that each step keeps exactly when it meets `C` holds throughout a run
exactly when all its steps do. -/
theorem throughout_iff_along {E : S → A → Prop}
    (preserved : ∀ s a t, I s → E s a → step s a = some t → I t)
    (decides : ∀ s a t, I s → E s a → step s a = some t → P s → (P t ↔ C s a))
    {s : S} {actions : List A} (initial : I s) (holds : P s) (along : Along step E s actions) :
    Throughout step P s actions ↔ Along step C s actions := by
  induction actions generalizing s with
  | nil => exact ⟨fun _ => trivial, fun _ => holds⟩
  | cons a rest ih =>
    cases h : step s a with
    | none => simp only [Throughout, Along, h, holds, and_self]
    | some t =>
      rw [along_cons h] at along ⊢
      rw [throughout_cons h]
      have decided := decides s a t initial along.1 h holds
      have next := preserved s a t initial along.1 h
      constructor
      · intro all
        exact ⟨decided.mp all.2.head, (ih next all.2.head along.2).mp all.2⟩
      · intro each
        have kept := decided.mpr each.1
        exact ⟨holds, (ih next kept along.2).mpr each.2⟩

/-- A property that no step recovers held throughout when it holds at the end. -/
theorem throughout_of_last {E : S → A → Prop}
    (preserved : ∀ s a t, I s → E s a → step s a = some t → I t)
    (recovers : ∀ s a t, I s → E s a → step s a = some t → P t → P s)
    {s t : S} {actions : List A} (initial : I s) (along : Along step E s actions)
    (path : run step s actions = some t) (last : P t) : Throughout step P s actions := by
  induction actions generalizing s with
  | nil =>
    cases path
    exact last
  | cons a rest ih =>
    cases h : step s a with
    | none => simp [run, h] at path
    | some next =>
      rw [along_cons h] at along
      have later := ih (preserved s a next initial along.1 h) along.2 ((run_cons h).mp path)
      exact (throughout_cons h).mpr ⟨recovers s a next initial along.1 h later.head, later⟩

/-- What holds of every state holds after every step. -/
theorem Throughout.along_next {s : S} {actions : List A} (all : Throughout step P s actions) :
    Along step (fun s a => ∀ t, step s a = some t → P t) s actions := by
  induction actions generalizing s with
  | nil => trivial
  | cons a rest ih =>
    cases h : step s a with
    | none => simp only [Along, h]
    | some next =>
      rw [throughout_cons h] at all
      rw [along_cons h]
      refine ⟨fun t same => ?_, ih all.2⟩
      cases h.symm.trans same
      exact all.2.head

theorem sometime_cons {s t : S} {a : A} {rest : List A} (first : step s a = some t) :
    Sometime step C s (a :: rest) ↔ C s a ∨ Sometime step C t rest := by
  simp only [Sometime, first]

/-- What, from the states of an invariant, only a step that meets `C` brings about has been
brought about by one. -/
theorem sometime_of_origin_of_invariant (preserved : ∀ s a t, I s → step s a = some t → I t)
    (origin : ∀ s a t, I s → step s a = some t → P t → P s ∨ C s a)
    {s t : S} {actions : List A} (invariant : I s) (initial : ¬ P s)
    (path : run step s actions = some t) (last : P t) : Sometime step C s actions := by
  induction actions generalizing s with
  | nil =>
    cases path
    exact absurd last initial
  | cons a rest ih =>
    cases h : step s a with
    | none => simp [run, h] at path
    | some next =>
      rw [sometime_cons h]
      by_cases met : C s a
      · exact Or.inl met
      · have not_yet : ¬ P next :=
          fun holds => (origin s a next invariant h holds).elim initial met
        exact Or.inr (ih (preserved s a next invariant h) not_yet ((run_cons h).mp path))

/-- What a step that meets `C` brings about, and nothing undoes, is there at the end of a run
with such a step. -/
theorem last_of_sometime (reached : ∀ s a t, I s → step s a = some t → C s a → P t)
    (kept : ∀ s a t, step s a = some t → P s → P t)
    (preserved : ∀ s a t, I s → step s a = some t → I t) {s t : S} {actions : List A}
    (initial : I s) (path : run step s actions = some t)
    (sometime : Sometime step C s actions) : P t := by
  induction actions generalizing s with
  | nil => exact sometime.elim
  | cons a rest ih =>
    cases h : step s a with
    | none => simp [run, h] at path
    | some next =>
      rw [sometime_cons h] at sometime
      rw [run_cons h] at path
      rcases sometime with met | later
      · exact invariant_run (fun s a t holds _ taken => kept s a t taken holds)
          (reached s a next initial h met) along_true path
      · exact ih (preserved s a next initial h) path later

theorem sometime_of_origin (origin : ∀ s a t, step s a = some t → P t → P s ∨ C s a)
    {s t : S} {actions : List A} (initial : ¬ P s) (path : run step s actions = some t)
    (last : P t) : Sometime step C s actions :=
  sometime_of_origin_of_invariant (I := fun _ => True) (fun _ _ _ _ _ => trivial)
    (fun s a t _ => origin s a t) trivial initial path last

section History
variable {H : Type} {note : H → S → A → H}

/-- The machine with a history variable beside it, which its steps do not read. -/
def recorded (step : S → A → Option S) (note : H → S → A → H) (state : S × H) (a : A) :
    Option (S × H) :=
  (step state.1 a).map fun t => (t, note state.2 state.1 a)

theorem recorded_some {s t : S} {h : H} {a : A} (first : step s a = some t) :
    recorded step note (s, h) a = some (t, note h s a) := by
  simp only [recorded, first, Option.map_some]

/-- The history variable does not change what the machine does. -/
theorem throughout_recorded {s : S} {h : H} {actions : List A} :
    Throughout (recorded step note) (fun state => P state.1) (s, h) actions ↔
      Throughout step P s actions := by
  induction actions generalizing s h with
  | nil => exact Iff.rfl
  | cons a rest ih =>
    cases first : step s a with
    | none => simp only [Throughout, recorded, first, Option.map_none]
    | some t =>
      have recorded_first : recorded step note (s, h) a = some (t, note h s a) :=
        recorded_some first
      rw [throughout_cons first, throughout_cons recorded_first, ih]

theorem along_recorded {s : S} {h : H} {actions : List A} :
    Along (recorded step note) (fun state a => C state.1 a) (s, h) actions ↔
      Along step C s actions := by
  induction actions generalizing s h with
  | nil => exact Iff.rfl
  | cons a rest ih =>
    cases first : step s a with
    | none => simp only [Along, recorded, first, Option.map_none]
    | some t =>
      have recorded_first : recorded step note (s, h) a = some (t, note h s a) :=
        recorded_some first
      rw [along_cons first, along_cons recorded_first, ih]

theorem run_recorded {s t : S} {h k : H} {actions : List A}
    (path : run (recorded step note) (s, h) actions = some (t, k)) :
    run step s actions = some t := by
  induction actions generalizing s h with
  | nil =>
    cases path
    rfl
  | cons a rest ih =>
    cases first : step s a with
    | none => simp [run, recorded, first] at path
    | some next =>
      rw [run_cons (recorded_some first)] at path
      rw [run_cons first]
      exact ih path

end History

/-- What holds of every step from a state of an invariant holds along a run. -/
theorem along_of_invariant (preserved : ∀ s a t, I s → C s a → step s a = some t → I t)
    (enough : ∀ s a, I s → C s a → D s a) {s : S} {actions : List A} (initial : I s)
    (along : Along step C s actions) : Along step D s actions := by
  induction actions generalizing s with
  | nil => trivial
  | cons a rest ih =>
    cases h : step s a with
    | none => simp only [Along, h]
    | some t =>
      rw [along_cons h] at along ⊢
      exact ⟨enough s a initial along.1, ih (preserved s a t initial along.1 h) along.2⟩

/-- What holds of every state of an invariant holds throughout a run. -/
theorem throughout_of_invariant (preserved : ∀ s a t, I s → C s a → step s a = some t → I t)
    (enough : ∀ s, I s → P s) {s : S} {actions : List A} (initial : I s)
    (along : Along step C s actions) : Throughout step P s actions := by
  induction actions generalizing s with
  | nil => exact enough s initial
  | cons a rest ih =>
    cases h : step s a with
    | none => exact ⟨enough s initial, by simp only [h]⟩
    | some t =>
      rw [along_cons h] at along
      rw [throughout_cons h]
      exact ⟨enough s initial, ih (preserved s a t initial along.1 h) along.2⟩

section Simulation
variable {T B : Type} {high : T → B → Option T} {E : T → B → Prop} {view : S → T}

/-- Through `view`, a step of the machine is one of the machine above it, or no step. -/
def Simulates (step : S → A → Option S) (high : T → B → Option T) (C : S → A → Prop)
    (E : T → B → Prop) (view : S → T) : Prop :=
  ∀ s a t, C s a → step s a = some t →
    view t = view s ∨ ∃ b, E (view s) b ∧ high (view s) b = some (view t)

/-- The run above passes through the same states, seen through `view`. -/
theorem Simulates.run (simulates : Simulates step high C E view) {s t : S} {actions : List A}
    (along : Along step C s actions) (path : run step s actions = some t) :
    ∃ shown, Transition.run high (view s) shown = some (view t) ∧ Along high E (view s) shown ∧
      ∀ Q : T → Prop, Throughout step (fun s => Q (view s)) s actions →
        Throughout high Q (view s) shown := by
  induction actions generalizing s with
  | nil =>
    cases path
    exact ⟨[], rfl, trivial, fun _ all => all⟩
  | cons a rest ih =>
    cases h : step s a with
    | none => simp [Transition.run, h] at path
    | some next =>
      rw [along_cons h] at along
      obtain ⟨shown, shows, kept, all⟩ := ih along.2 ((run_cons h).mp path)
      rcases simulates s a next along.1 h with same | ⟨b, met, made⟩
      · rw [same] at shows kept all
        refine ⟨shown, shows, kept, fun Q throughout => ?_⟩
        exact all Q ((throughout_cons h).mp throughout).2
      · refine ⟨b :: shown, (run_cons made).mpr shows, (along_cons made).mpr ⟨met, kept⟩,
          fun Q throughout => ?_⟩
        obtain ⟨here, later⟩ := (throughout_cons h).mp throughout
        exact (throughout_cons made).mpr ⟨here, all Q later⟩

/-- From a state of `J`, the machine makes each step of the machine above it in a run that ends
in such a state. -/
def Covers (step : S → A → Option S) (high : T → B → Option T) (J : S → Prop) (view : S → T) :
    Prop :=
  ∀ s b v, J s → high (view s) b = some v →
    ∃ actions t, Transition.run step s actions = some t ∧ J t ∧ view t = v

theorem Covers.run {J : S → Prop} (covers : Covers step high J view) {s : S} {v : T}
    {shown : List B} (initial : J s) (path : Transition.run high (view s) shown = some v) :
    ∃ actions t, Transition.run step s actions = some t ∧ J t ∧ view t = v := by
  induction shown generalizing s with
  | nil =>
    cases path
    exact ⟨[], s, rfl, initial, rfl⟩
  | cons b rest ih =>
    cases h : high (view s) b with
    | none => simp [Transition.run, h] at path
    | some next =>
      obtain ⟨before, middle, first, kept, rfl⟩ := covers s b next initial h
      obtain ⟨after, t, second, last, ends⟩ := ih kept ((run_cons h).mp path)
      exact ⟨before ++ after, t, run_append.mpr ⟨middle, first, second⟩, last, ends⟩

end Simulation

section Rank
variable {rank : S → Nat} {credit : Nat} {own : A → Bool}

/-- Where each step of a thread lowers the rank, and a step of the others raises it by `credit`
at most, the thread takes no more steps than these two allow. -/
theorem countP_add_rank_le (preserved : ∀ s a t, I s → C s a → step s a = some t → I t)
    (lowers : ∀ s a t, I s → C s a → own a = true → step s a = some t → rank t < rank s)
    (raises : ∀ s a t, I s → C s a → own a = false → step s a = some t →
      rank t ≤ rank s + credit)
    {s t : S} {actions : List A} (initial : I s) (along : Along step C s actions)
    (path : run step s actions = some t) :
    actions.countP own + rank t ≤ rank s + credit * actions.countP (fun a => !own a) := by
  induction actions generalizing s with
  | nil =>
    cases path
    simp
  | cons a rest ih =>
    cases h : step s a with
    | none => simp [run, h] at path
    | some next =>
      rw [along_cons h] at along
      have later := ih (preserved s a next initial along.1 h) along.2 ((run_cons h).mp path)
      cases mine : own a with
      | true =>
        have lower := lowers s a next initial along.1 mine h
        simp only [List.countP_cons, mine, Bool.not_true, Bool.false_eq_true, if_true, if_false,
          Nat.add_zero]
        omega
      | false =>
        have higher := raises s a next initial along.1 mine h
        simp only [List.countP_cons, mine, Bool.not_false, Bool.false_eq_true, if_true, if_false]
        rw [Nat.mul_add]
        omega

end Rank

end Sockcan.Transition
