import Mathlib.Data.Finset.Card
import Mathlib.Data.List.Dedup
import Mathlib.Data.List.DropRight
import Sockcan.Transition

/-! A bounded memo of a function that may fail. It forgets what was used least recently. The
function is called outside of the memo, so that several threads may compute the same value. -/
namespace Sockcan.Lru
open Transition
variable {K V T : Type}

section Recency
variable {keys rest : List K} {key : K} {n : Nat}

theorem rtake_append_of_le (enough : n ≤ rest.length) :
    (keys ++ rest).rtake n = rest.rtake n := by
  have offset : (keys ++ rest).length - n = keys.length + (rest.length - n) := by
    rw [List.length_append]
    omega
  rw [List.rtake, offset, List.drop_length_add_append, List.rtake]

theorem rtake_of_length_le (short : keys.length ≤ n) : keys.rtake n = keys := by
  rw [List.rtake, Nat.sub_eq_zero_of_le short, List.drop_zero]

theorem length_rtake_le (keys : List K) (n : Nat) : (keys.rtake n).length ≤ n := by
  rw [List.rtake, List.length_drop]
  omega

variable [DecidableEq K]

/-- A key that is used again goes to the end. -/
theorem dedup_concat (keys : List K) (key : K) :
    (keys ++ [key]).dedup = (keys.dedup.filter fun other => decide (other ≠ key)) ++ [key] := by
  induction keys with
  | nil => simp
  | cons first rest ih =>
    rw [List.cons_append]
    by_cases same : first = key
    · subst same
      have again : first ∈ rest ++ [first] := by simp
      rw [List.dedup_cons_of_mem again, ih]
      by_cases before : first ∈ rest
      · rw [List.dedup_cons_of_mem before]
      · rw [List.dedup_cons_of_notMem before, List.filter_cons_of_neg (by simp)]
    · by_cases before : first ∈ rest
      · rw [List.dedup_cons_of_mem (List.mem_append_left _ before), ih,
          List.dedup_cons_of_mem before]
      · have fresh : first ∉ rest ++ [key] := by simp [before, same]
        rw [List.dedup_cons_of_notMem fresh, ih, List.dedup_cons_of_notMem before,
          List.filter_cons_of_pos (by simpa using same), List.cons_append]

/-- What is forgotten makes no difference to what is remembered after the next use. -/
theorem rtake_filter_concat (distinct : keys.Nodup) (key : K) (n : Nat) :
    (((keys.rtake n).filter fun other => decide (other ≠ key)) ++ [key]).rtake n =
      ((keys.filter fun other => decide (other ≠ key)) ++ [key]).rtake n := by
  by_cases short : keys.length ≤ n
  · rw [rtake_of_length_le short]
  · -- The rest of the list is full, so what is before it is not looked at.
    have split : keys.take (keys.length - n) ++ keys.rtake n = keys := List.take_append_drop _ _
    have full : (keys.rtake n).length = n := by
      rw [List.rtake, List.length_drop]
      omega
    have parts : (keys.filter fun other => decide (other ≠ key)) =
        ((keys.take (keys.length - n)).filter fun other => decide (other ≠ key)) ++
          ((keys.rtake n).filter fun other => decide (other ≠ key)) := by
      rw [← List.filter_append, split]
    have enough : n ≤ (((keys.rtake n).filter fun other => decide (other ≠ key)) ++
        [key]).length := by
      have unique : (keys.rtake n).Nodup := distinct.sublist (List.drop_sublist _ _)
      have erased : ((keys.rtake n).filter fun other => decide (other ≠ key)) =
          (keys.rtake n).erase key := by
        rw [unique.erase_eq_filter]
        exact List.filter_congr fun other _ => by by_cases same : other = key <;> simp [same]
      have length := List.le_length_erase (a := key) (l := keys.rtake n)
      rw [List.length_append, erased, List.length_singleton]
      omega
    rw [parts, List.append_assoc, rtake_append_of_le enough]

end Recency

/-- The entries of the memo, the least recently used one first. -/
structure Memo (f : K → Option V) (maxsize : Nat) where
  entries : List (K × V)
  distinct : (entries.map Prod.fst).Nodup
  bounded : entries.length ≤ maxsize
  sound : ∀ entry ∈ entries, f entry.1 = some entry.2

section Memo
variable {f : K → Option V} {maxsize : Nat}

def Memo.empty : Memo f maxsize := ⟨[], List.nodup_nil, Nat.zero_le _, by simp⟩

def Memo.keys (memo : Memo f maxsize) : List K := memo.entries.map Prod.fst

variable [DecidableEq K]

def Memo.find (memo : Memo f maxsize) (key : K) : Option V :=
  (memo.entries.find? fun entry => decide (entry.1 = key)).map Prod.snd

/-- The keys after a use: the key is the last, and only `maxsize` of them are kept. -/
def touched (maxsize : Nat) (keys : List K) (key : K) : List K :=
  ((keys.filter fun other => decide (other ≠ key)) ++ [key]).rtake maxsize

theorem map_touched (entries : List (K × V)) (key : K) (value : V) :
    (((entries.filter fun entry => decide (entry.1 ≠ key)) ++ [(key, value)]).rtake maxsize).map
      Prod.fst = touched maxsize (entries.map Prod.fst) key := by
  simp only [touched, List.rtake, List.map_drop, List.map_append, List.filter_map, List.map_cons,
    List.map_nil, List.length_append, List.length_map, List.length_singleton, Function.comp_def]

theorem nodup_touched {keys : List K} (distinct : keys.Nodup) (key : K) :
    (touched maxsize keys key).Nodup := by
  refine List.Nodup.sublist (List.drop_sublist _ _) ?_
  rw [List.nodup_append]
  refine ⟨distinct.filter _, by simp, fun other member last only => ?_⟩
  rintro rfl
  simp [List.mem_singleton.mp only] at member

/-- The value of the key is used: it is entered, or it was there. -/
def Memo.use (memo : Memo f maxsize) (key : K) (value : V) (computed : f key = some value) :
    Memo f maxsize where
  entries :=
    ((memo.entries.filter fun entry => decide (entry.1 ≠ key)) ++ [(key, value)]).rtake maxsize
  distinct := by
    rw [map_touched]
    exact nodup_touched memo.distinct key
  bounded := length_rtake_le _ _
  sound entry member := by
    rcases List.mem_append.mp (List.mem_of_mem_drop member) with before | last
    · exact memo.sound entry (List.mem_of_mem_filter before)
    · rw [List.mem_singleton.mp last]
      exact computed

theorem Memo.keys_use (memo : Memo f maxsize) {key : K} {value : V}
    (computed : f key = some value) :
    (memo.use key value computed).keys = touched maxsize memo.keys key := map_touched _ _ _

theorem Memo.sound_find {memo : Memo f maxsize} {key : K} {value : V}
    (found : memo.find key = some value) : f key = some value := by
  obtain ⟨entry, first, rfl⟩ := Option.map_eq_some_iff.mp found
  have here : entry.1 = key := by simpa using List.find?_some first
  rw [← here]
  exact memo.sound entry (List.mem_of_find?_eq_some first)

theorem Memo.find_eq_none_iff {memo : Memo f maxsize} {key : K} :
    memo.find key = none ↔ key ∉ memo.keys := by
  rw [Memo.find, Option.map_eq_none_iff, List.find?_eq_none, Memo.keys, List.mem_map]
  constructor
  · rintro absent ⟨entry, member, rfl⟩
    exact absent entry member (decide_eq_true rfl)
  · intro absent entry member
    have other : entry.1 ≠ key := fun same => absent ⟨entry, member, same⟩
    simpa using other

end Memo

/-- The memo, and the threads that call the function through it. No thread reads the rest: the
keys in the order in which their values were used, the calls of the function itself, and the
answers that were given. -/
structure Calls (f : K → Option V) (maxsize : Nat) (T : Type) where
  memo : Memo f maxsize
  /-- The key for which the thread calls the function. -/
  pending : T → Option K
  uses : List K
  computed : List (T × K)
  answers : List (K × Option V)

/-- A call begins, and ends there if it finds its value; or the function ends. -/
inductive CallAction (K T : Type) where
  | call (thread : T) (key : K)
  | finish (thread : T)
  deriving DecidableEq

namespace Calls
variable {f : K → Option V} {maxsize : Nat}

def start : Calls f maxsize T := ⟨.empty, fun _ => none, [], [], []⟩

variable [DecidableEq K] [DecidableEq T]

/-- A value that another thread has entered meanwhile is not entered again, and a call that
fails enters nothing. -/
def step (calls : Calls f maxsize T) : CallAction K T → Option (Calls f maxsize T)
  | .call thread key =>
    if (calls.pending thread).isSome then none
    else match found : calls.memo.find key with
      | some value => some { calls with
          memo := calls.memo.use key value (Memo.sound_find found)
          uses := calls.uses ++ [key]
          answers := calls.answers ++ [(key, some value)] }
      | none => some { calls with
          pending := Function.update calls.pending thread (some key)
          computed := calls.computed ++ [(thread, key)] }
  | .finish thread => match calls.pending thread with
    | none => none
    | some key =>
      let ended : Calls f maxsize T := { calls with
        pending := Function.update calls.pending thread none
        answers := calls.answers ++ [(key, f key)] }
      match computed : f key with
      | none => some ended
      | some value =>
        if (calls.memo.find key).isSome then some ended
        else some { ended with
          memo := calls.memo.use key value computed
          uses := calls.uses ++ [key] }

inductive Goes (calls : Calls f maxsize T) : CallAction K T → Calls f maxsize T → Prop where
  | hit {thread : T} {key : K} {value : V} (idle : calls.pending thread = none)
      (found : calls.memo.find key = some value) :
    Goes calls (.call thread key) { calls with
      memo := calls.memo.use key value (Memo.sound_find found)
      uses := calls.uses ++ [key]
      answers := calls.answers ++ [(key, some value)] }
  | miss {thread : T} {key : K} (idle : calls.pending thread = none)
      (absent : calls.memo.find key = none) :
    Goes calls (.call thread key) { calls with
      pending := Function.update calls.pending thread (some key)
      computed := calls.computed ++ [(thread, key)] }
  | late {thread : T} {key : K} (held : calls.pending thread = some key)
      (kept : f key = none ∨ (calls.memo.find key).isSome) :
    Goes calls (.finish thread) { calls with
      pending := Function.update calls.pending thread none
      answers := calls.answers ++ [(key, f key)] }
  | enter {thread : T} {key : K} {value : V} (held : calls.pending thread = some key)
      (computed : f key = some value) (absent : calls.memo.find key = none) :
    Goes calls (.finish thread) { calls with
      memo := calls.memo.use key value computed
      pending := Function.update calls.pending thread none
      uses := calls.uses ++ [key]
      answers := calls.answers ++ [(key, f key)] }

variable {c d : Calls f maxsize T} {action : CallAction K T}
  {actions : List (CallAction K T)}

theorem step_goes (stepped : c.step action = some d) : c.Goes action d := by
  cases action with
  | call thread key =>
    simp only [step] at stepped
    split at stepped
    · cases stepped
    · rename_i idle
      have idle : c.pending thread = none := by simpa using idle
      split at stepped
      · cases stepped
        exact .hit idle ‹_›
      · cases stepped
        exact .miss idle ‹_›
  | finish thread =>
    simp only [step] at stepped
    split at stepped
    · cases stepped
    · rename_i key held
      split at stepped
      · cases stepped
        exact .late held (Or.inl ‹_›)
      · split at stepped
        · cases stepped
          exact .late held (Or.inr ‹_›)
        · rename_i absent
          cases stepped
          exact .enter held _ (by simpa using absent)

/-- Every answer is that of the function, and the memo holds what was used last. -/
structure Recent (calls : Calls f maxsize T) : Prop where
  answered : ∀ answer ∈ calls.answers, answer.2 = f answer.1
  kept : calls.memo.keys = calls.uses.dedup.rtake maxsize

theorem touched_dedup (keys : List K) (key : K) :
    touched maxsize (keys.dedup.rtake maxsize) key = (keys ++ [key]).dedup.rtake maxsize := by
  rw [dedup_concat, touched, rtake_filter_concat (List.nodup_dedup keys)]

omit [DecidableEq K] in
theorem answered_append {answers : List (K × Option V)} {key : K} {value : Option V}
    (answered : ∀ answer ∈ answers, answer.2 = f answer.1) (own : value = f key) :
    ∀ answer ∈ answers ++ [(key, value)], answer.2 = f answer.1 := by
  intro answer member
  rcases List.mem_append.mp member with before | last
  · exact answered answer before
  · rw [List.mem_singleton.mp last]
    exact own

theorem Goes.recent (goes : c.Goes action d) (recent : c.Recent) : d.Recent := by
  obtain ⟨answered, kept⟩ := recent
  cases goes with
  | hit idle found =>
    refine ⟨answered_append answered (Memo.sound_find found).symm, ?_⟩
    rw [Memo.keys_use, kept, touched_dedup]
  | miss => exact ⟨answered, kept⟩
  | late => exact ⟨answered_append answered rfl, kept⟩
  | enter held computed absent =>
    refine ⟨answered_append answered rfl, ?_⟩
    rw [Memo.keys_use, kept, touched_dedup]

theorem recent_run (path : run step start actions = some c) : c.Recent :=
  invariant_run (fun _ _ _ recent _ stepped => (step_goes stepped).recent recent)
    ⟨by simp [start], by simp [start, Memo.empty, Memo.keys]⟩ along_true path

/-- The action calls the function for one of these keys, if for any. -/
def Within (keys : Finset K) : CallAction K T → Prop
  | .call _ key => key ∈ keys
  | .finish _ => True

instance (keys : Finset K) : DecidablePred (Within keys : CallAction K T → Prop)
  | .call _ key => inferInstanceAs (Decidable (key ∈ keys))
  | .finish _ => isTrue trivial

/-- The threads that called the function for the key, in the order of their calls. -/
def builders (calls : Calls f maxsize T) (key : K) : List T :=
  (calls.computed.filter fun call => decide (call.2 = key)).map Prod.fst

variable {keys : Finset K} {key : K}

omit [DecidableEq T] in
@[simp] theorem builders_concat (thread : T) (called : K) {e : Calls f maxsize T}
    (same : e.computed = c.computed ++ [(thread, called)]) :
    e.builders key = c.builders key ++ if called = key then [thread] else [] := by
  rw [builders, same, List.filter_append, List.map_append, ← builders]
  congr 1
  by_cases own : called = key
  · simp [own]
  · simp [own]

/-- Of a key that was not used yet, the calls are still going on, each of another thread. -/
structure Once (keys : Finset K) (key : K) (calls : Calls f maxsize T) : Prop where
  recent : calls.Recent
  uses : ∀ used ∈ calls.uses, used ∈ keys
  pending : ∀ thread, ∀ pending ∈ calls.pending thread, pending ∈ keys
  unused : key ∉ calls.uses → ∀ thread ∈ calls.builders key, calls.pending thread = some key
  distinct : (calls.builders key).Nodup

omit [DecidableEq T] in
/-- Where there is room for all keys, what was used is kept. -/
theorem Once.keys_eq (once : Once keys key c) (room : keys.card ≤ maxsize) :
    c.memo.keys = c.uses.dedup := by
  rw [once.recent.kept]
  refine rtake_of_length_le (le_trans ?_ room)
  rw [← List.card_toFinset]
  exact Finset.card_le_card fun used member => once.uses used (List.mem_toFinset.mp member)

omit [DecidableEq T] in
theorem Once.find_eq_none_iff (once : Once keys key c) (room : keys.card ≤ maxsize) {sought : K} :
    c.memo.find sought = none ↔ sought ∉ c.uses := by
  rw [Memo.find_eq_none_iff, once.keys_eq room, List.mem_dedup]

omit [DecidableEq K] in
theorem pending_within (thread : T) (value : Option K)
    (within : ∀ thread, ∀ pending ∈ c.pending thread, pending ∈ keys)
    (own : ∀ pending ∈ value, pending ∈ keys) :
    ∀ other, ∀ pending ∈ Function.update c.pending thread value other, pending ∈ keys := by
  intro other pending member
  by_cases same : other = thread
  · subst same
    rw [Function.update_self] at member
    exact own pending member
  · rw [Function.update_of_ne same] at member
    exact within other pending member

/-- A call that ends was for another key, or leaves the key used. -/
theorem Once.unused_update (once : Once keys key c) {thread : T} {value : Option K}
    (other : c.pending thread ≠ some key) (unused : key ∉ c.uses) :
    ∀ builder ∈ c.builders key, Function.update c.pending thread value builder = some key := by
  intro builder member
  have going := once.unused unused builder member
  have apart : builder ≠ thread := by
    rintro rfl
    exact other going
  rw [Function.update_of_ne apart]
  exact going

theorem Goes.once (goes : c.Goes action d) (room : keys.card ≤ maxsize)
    (computes : (f key).isSome) (within : Within keys action) (once : Once keys key c) :
    Once keys key d := by
  have recent := goes.recent once.recent
  cases goes with
  | @hit thread used value idle found =>
    refine ⟨recent, ?_, once.pending, fun unused => ?_, once.distinct⟩
    · simpa [or_imp, forall_and] using ⟨once.uses, within⟩
    · exact once.unused fun before => unused (List.mem_append_left _ before)
  | @miss thread called idle absent =>
    have pending := pending_within thread (some called) once.pending fun pending member => by
      cases member
      exact within
    let after : Calls f maxsize T := { c with
      pending := Function.update c.pending thread (some called)
      computed := c.computed ++ [(thread, called)] }
    have built : after.builders key = c.builders key ++ if called = key then [thread] else [] :=
      builders_concat thread called rfl
    have other : c.pending thread ≠ some key := by simp [idle]
    by_cases own : called = key
    · subst own
      have fresh : called ∉ c.uses := (once.find_eq_none_iff room).mp absent
      have new : thread ∉ c.builders called := fun member =>
        other (once.unused fresh thread member)
      rw [if_pos rfl] at built
      refine ⟨recent, once.uses, pending, fun _ => ?_, ?_⟩
      · rw [built]
        intro builder member
        rcases List.mem_append.mp member with before | last
        · exact once.unused_update other fresh builder before
        · rw [List.mem_singleton.mp last]
          exact Function.update_self ..
      · rw [built, ← List.concat_eq_append]
        exact once.distinct.concat new
    · rw [if_neg own, List.append_nil] at built
      refine ⟨recent, once.uses, pending, fun unused => ?_, built ▸ once.distinct⟩
      rw [built]
      exact once.unused_update other unused
  | @late thread called held known =>
    refine ⟨recent, once.uses, pending_within thread none once.pending (by simp),
      fun unused => ?_, once.distinct⟩
    refine once.unused_update (fun same => ?_) unused
    obtain rfl := Option.some.inj (held.symm.trans same)
    rcases known with fails | found
    · simp [fails] at computes
    · simp [(once.find_eq_none_iff room).mpr unused] at found
  | @enter thread called value held computed absent =>
    refine ⟨recent, ?_, pending_within thread none once.pending (by simp),
      fun unused => ?_, once.distinct⟩
    · have allowed := once.pending thread called held
      simpa [or_imp, forall_and] using ⟨once.uses, allowed⟩
    · have own : c.pending thread ≠ some key := fun same =>
        unused (by simp [Option.some.inj (held.symm.trans same)])
      exact once.unused_update own fun before => unused (List.mem_append_left _ before)

/-- Nobody calls the function for a key again once it was used, and it stays used. -/
theorem Goes.built (goes : c.Goes action d) (room : keys.card ≤ maxsize)
    (once : Once keys key c) (used : key ∈ c.uses) :
    key ∈ d.uses ∧ d.builders key = c.builders key := by
  cases goes with
  | hit | enter => exact ⟨List.mem_append_left _ used, rfl⟩
  | late => exact ⟨used, rfl⟩
  | @miss thread called idle absent =>
    have other : called ≠ key := by
      rintro rfl
      exact (once.find_eq_none_iff room).mp absent used
    refine ⟨used, ?_⟩
    rw [builders_concat (c := c) thread called rfl, if_neg other, List.append_nil]

theorem once_run (room : keys.card ≤ maxsize) (computes : (f key).isSome)
    (within : ∀ action ∈ actions, Within keys action) (path : run step start actions = some c) :
    Once keys key c :=
  invariant_run (C := fun _ action => Within keys action)
    (fun _ _ _ once within stepped => (step_goes stepped).once room computes within once)
    ⟨⟨by simp [start], by simp [start, Memo.empty, Memo.keys]⟩, by simp [start],
      by simp [start], by simp [start, builders], by simp [start, builders]⟩
    (along_of_mem within) path

/-- Where there is room for all keys, the function is called for each of them at most once by
each thread, and no more as soon as its value is kept. -/
theorem computed_once {more : List (CallAction K T)} (room : keys.card ≤ maxsize)
    (computes : (f key).isSome) (within : ∀ action ∈ actions ++ more, Within keys action)
    (path : run step start actions = some c) (onward : run step c more = some d) :
    (d.builders key).Nodup ∧ (key ∈ c.memo.keys → d.builders key = c.builders key) := by
  have whole : run step start (actions ++ more) = some d := by
    rw [run_append]
    exact ⟨c, path, onward⟩
  refine ⟨(once_run room computes within whole).distinct, fun kept => ?_⟩
  have once : Once keys key c := once_run room computes
    (fun action member => within action (List.mem_append_left _ member)) path
  have used : key ∈ c.uses := by
    rw [once.keys_eq room, List.mem_dedup] at kept
    exact kept
  have built : Once keys key d ∧ key ∈ d.uses ∧ d.builders key = c.builders key := by
    refine invariant_run (C := fun _ action => Within keys action)
      (I := fun d => Once keys key d ∧ key ∈ d.uses ∧ d.builders key = c.builders key)
      (fun _ _ _ holds within stepped => ?_) ⟨once, used, rfl⟩
      (along_of_mem fun action member => within action (List.mem_append_right _ member)) onward
    obtain ⟨once, used, same⟩ := holds
    obtain ⟨stays, built⟩ := (step_goes stepped).built room once used
    exact ⟨(step_goes stepped).once room computes within once, stays, built.trans same⟩
  exact built.2.2

end Calls

end Sockcan.Lru
