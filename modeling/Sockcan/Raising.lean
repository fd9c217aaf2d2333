import Mathlib.Logic.Basic

/-! Programs that change a state and may raise. What a program had changed when it raises
stays changed; the rules tell what holds where it returns, and where it raises. -/
namespace Sockcan.Raising
variable {ε σ α β : Type} {s : σ}

/-- `post` holds of what the program returns, and of the state that it returns in. -/
def Returns (post : α → σ → Prop) (program : EStateM ε σ α) (s : σ) : Prop :=
  ∀ a t, program s = .ok a t → post a t

/-- `post` holds of what the program raises, and of the state that it raises in. -/
def Raises (post : ε → σ → Prop) (program : EStateM ε σ α) (s : σ) : Prop :=
  ∀ e t, program s = .error e t → post e t

/-- The state that the program leaves, however it ends. -/
def final (program : EStateM ε σ α) (s : σ) : σ :=
  match program s with
  | .ok _ t | .error _ t => t

/-- Raise where the condition fails. -/
def require (condition : Prop) [Decidable condition] (error : ε) : EStateM ε σ Unit :=
  if condition then pure () else throw error

/-- What was answered from outside: a value, or an exception. -/
def answer (result : Except ε α) : EStateM ε σ α :=
  match result with
  | .ok a => pure a
  | .error error => throw error

section Rules
variable {post : α → σ → Prop} {raised : ε → σ → Prop} {program : EStateM ε σ α}

@[simp] theorem returns_pure (a : α) : Returns post (pure a : EStateM ε σ α) s ↔ post a s := by
  constructor
  · intro returns
    exact returns a s rfl
  · rintro holds _ _ ⟨⟩
    exact holds

@[simp] theorem raises_pure (a : α) : Raises raised (pure a : EStateM ε σ α) s := nofun

@[simp] theorem returns_throw (error : ε) : Returns post (throw error : EStateM ε σ α) s := nofun

@[simp] theorem raises_throw (error : ε) :
    Raises raised (throw error : EStateM ε σ α) s ↔ raised error s := by
  constructor
  · intro raises
    exact raises error s rfl
  · rintro holds _ _ ⟨⟩
    exact holds

@[simp] theorem returns_get {post : σ → σ → Prop} :
    Returns post (get : EStateM ε σ σ) s ↔ post s s := by
  constructor
  · intro returns
    exact returns s s rfl
  · rintro holds _ _ ⟨⟩
    exact holds

@[simp] theorem raises_get : Raises raised (get : EStateM ε σ σ) s := nofun

@[simp] theorem returns_modify {post : Unit → σ → Prop} (f : σ → σ) :
    Returns post (modify f : EStateM ε σ Unit) s ↔ post () (f s) := by
  constructor
  · intro returns
    exact returns () (f s) rfl
  · rintro holds _ _ ⟨⟩
    exact holds

@[simp] theorem raises_modify (f : σ → σ) : Raises raised (modify f : EStateM ε σ Unit) s := nofun

@[simp] theorem returns_true : Returns (fun _ _ => True) program s := fun _ _ _ => trivial

theorem bind_apply (program : EStateM ε σ α) (next : α → EStateM ε σ β) (s : σ) :
    (program >>= next) s = match program s with
      | .ok a t => next a t
      | .error error t => .error error t := rfl

@[simp] theorem returns_bind {post : β → σ → Prop} (next : α → EStateM ε σ β) :
    Returns post (program >>= next) s ↔ Returns (fun a t => Returns post (next a) t) program s := by
  simp only [Returns, bind_apply]
  cases program s with
  | ok a t => simp
  | error error t => simp

/-- A sequence raises in its first part or in its second. -/
@[simp] theorem raises_bind (next : α → EStateM ε σ β) :
    Raises raised (program >>= next) s ↔
      Raises raised program s ∧ Returns (fun a t => Raises raised (next a) t) program s := by
  simp only [Returns, Raises, bind_apply]
  cases program s with
  | ok a t => simp
  | error error t => simp

@[simp] theorem returns_map {post : β → σ → Prop} (f : α → β) :
    Returns post (f <$> program) s ↔ Returns (fun a t => post (f a) t) program s := by
  rw [map_eq_pure_bind, returns_bind]
  simp only [returns_pure]

@[simp] theorem raises_map (f : α → β) :
    Raises raised (f <$> program) s ↔ Raises raised program s := by
  rw [map_eq_pure_bind, raises_bind]
  simp only [raises_pure, returns_true, and_true]

@[simp] theorem returns_require {post : Unit → σ → Prop} (condition : Prop) [Decidable condition]
    (error : ε) : Returns post (require condition error) s ↔ (condition → post () s) := by
  unfold require
  split
  next holds => rw [returns_pure, forall_prop_of_true holds]
  next fails => exact iff_of_true (returns_throw error) fun holds => absurd holds fails

@[simp] theorem raises_require (condition : Prop) [Decidable condition] (error : ε) :
    Raises raised (require condition error) s ↔ (¬ condition → raised error s) := by
  unfold require
  split
  next holds => exact iff_of_true (raises_pure ()) fun fails => absurd holds fails
  next fails => rw [raises_throw, forall_prop_of_true fails]

@[simp] theorem returns_answer (result : Except ε α) :
    Returns post (answer result) s ↔ ∀ a, result = .ok a → post a s := by
  cases result with
  | ok a => simp [answer]
  | error error => simp [answer]

@[simp] theorem raises_answer (result : Except ε α) :
    Raises raised (answer result) s ↔ ∀ error, result = .error error → raised error s := by
  cases result with
  | ok a => simp [answer]
  | error error => simp [answer]

theorem returns_answer_mapError {δ : Type} (wrap : δ → ε) (result : Except δ α) :
    Returns post (answer (result.mapError wrap)) s ↔ ∀ a, result = .ok a → post a s := by
  cases result with
  | ok a =>
    change Returns post (pure a : EStateM ε σ α) s ↔ _
    simp
  | error error =>
    change Returns post (throw (wrap error) : EStateM ε σ α) s ↔ _
    simp

theorem raises_answer_mapError {δ : Type} {left : σ → Prop} (wrap : δ → ε)
    (result : Except δ α) :
    Raises (fun _ => left) (answer (result.mapError wrap)) s ↔
      ((¬ ∃ a, result = .ok a) → left s) := by
  cases result with
  | ok a =>
    change Raises (fun _ => left) (pure a : EStateM ε σ α) s ↔ _
    simp
  | error error =>
    change Raises (fun _ => left) (throw (wrap error) : EStateM ε σ α) s ↔ _
    simp

@[simp] theorem returns_ite (condition : Prop) [Decidable condition]
    (first second : EStateM ε σ α) :
    Returns post (if condition then first else second) s ↔
      (condition → Returns post first s) ∧ (¬ condition → Returns post second s) := by
  split
  next holds => simp [holds]
  next fails => simp [fails]

@[simp] theorem raises_ite (condition : Prop) [Decidable condition]
    (first second : EStateM ε σ α) :
    Raises raised (if condition then first else second) s ↔
      (condition → Raises raised first s) ∧ (¬ condition → Raises raised second s) := by
  split
  next holds => simp [holds]
  next fails => simp [fails]

/-- A program returns where it raises in no way. -/
theorem raises_false {program : EStateM ε σ Unit} :
    Raises (fun _ _ => False) program s ↔ ∃ t, program s = .ok () t := by
  unfold Raises
  cases ended : program s with
  | ok _ t => exact iff_of_true nofun ⟨t, rfl⟩
  | error error t => exact iff_of_false (fun none => none error t rfl) nofun

/-- What holds of both ends holds of the state that is left. -/
theorem final_of {left : σ → Prop} (returns : Returns (fun _ => left) program s)
    (raises : Raises (fun _ => left) program s) : left (final program s) := by
  unfold final
  cases ended : program s with
  | ok a t => exact returns a t ended
  | error error t => exact raises error t ended

end Rules

end Sockcan.Raising
