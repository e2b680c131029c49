import Mathlib.Data.List.Induction
import Mathlib.Logic.Function.Basic
import Mathlib.Tactic.Common

/-!
# Runs of event-driven machines

A machine is a function `exec : ε → σ → σ` that handles one event. Interrupt
interleavings, call histories and operation sequences are all lists of events,
so one set of rules covers them: an invariant rule, a comparison of two
conditions along a run, and a simulation rule. The counted loop of an
imperative program is at the end.
-/

namespace Mp3Kernel.Library

section Runs

variable {σ τ ε : Type}

/-- The state after handling `es` in order. -/
def run (exec : ε → σ → σ) : List ε → σ → σ
  | [], s => s
  | e :: es, s => run exec es (exec e s)

/-- Every event of the run is handled in a state that satisfies `ok` for it. -/
def Along (exec : ε → σ → σ) (ok : ε → σ → Prop) : List ε → σ → Prop
  | [], _ => True
  | e :: es, s => ok e s ∧ Along exec ok es (exec e s)

instance Along.instDecidable (exec : ε → σ → σ) (ok : ε → σ → Prop)
    [decideOk : ∀ e s, Decidable (ok e s)] : (es : List ε) → (s : σ) → Decidable (Along exec ok es s)
  | [], _ => inferInstanceAs (Decidable True)
  | e :: es, s =>
    have := Along.instDecidable exec ok es (exec e s)
    inferInstanceAs (Decidable (ok e s ∧ Along exec ok es (exec e s)))

variable {exec : ε → σ → σ} {ok : ε → σ → Prop}

@[simp] theorem run_nil (s : σ) : run exec [] s = s := rfl

@[simp] theorem run_cons (e : ε) (es : List ε) (s : σ) :
    run exec (e :: es) s = run exec es (exec e s) := rfl

@[simp] theorem along_nil (s : σ) : Along exec ok [] s := trivial

@[simp] theorem along_cons (e : ε) (es : List ε) (s : σ) :
    Along exec ok (e :: es) s ↔ ok e s ∧ Along exec ok es (exec e s) := Iff.rfl

theorem run_append (es fs : List ε) (s : σ) :
    run exec (es ++ fs) s = run exec fs (run exec es s) := by
  induction es generalizing s with
  | nil => rfl
  | cons e es ih => exact ih (exec e s)

theorem along_append (es fs : List ε) (s : σ) :
    Along exec ok (es ++ fs) s ↔ Along exec ok es s ∧ Along exec ok fs (run exec es s) := by
  induction es generalizing s with
  | nil => simp
  | cons e es ih => simp [ih, and_assoc]

/-- A condition that holds of every event in every state holds along every run. -/
theorem along_of_forall (always : ∀ e s, ok e s) (es : List ε) (s : σ) : Along exec ok es s := by
  induction es generalizing s with
  | nil => trivial
  | cons e es ih => exact ⟨always e s, ih (exec e s)⟩

/-- A condition on the events alone holds along every run of such events. -/
theorem along_of_mem {good : ε → Prop} (es : List ε) (all : ∀ e ∈ es, good e) (s : σ) :
    Along exec (fun e _ => good e) es s := by
  induction es generalizing s with
  | nil => trivial
  | cons e es ih =>
    rw [List.forall_mem_cons] at all
    exact ⟨all.1, ih all.2 (exec e s)⟩

/-- A run that is not allowed has a first step that is not. -/
theorem exists_of_not_along {es : List ε} {s : σ} (broken : ¬Along exec ok es s) :
    ∃ before e after, es = before ++ e :: after ∧ ¬ok e (run exec before s) := by
  induction es generalizing s with
  | nil => exact absurd trivial broken
  | cons e es ih =>
    -- The first event is the one, or the rest of the run is not allowed either.
    by_cases now : ok e s
    · obtain ⟨before, e', after, split, wrong⟩ := ih fun later => broken ⟨now, later⟩
      exact ⟨e :: before, e', after, by rw [split, List.cons_append], wrong⟩
    · exact ⟨[], e, es, rfl, now⟩

/-- Invariant rule: what one allowed step preserves, an allowed run preserves. -/
theorem Along.invariant (I : σ → Prop) (preserved : ∀ e s, ok e s → I s → I (exec e s))
    {es : List ε} {s : σ} (allowed : Along exec ok es s) (initial : I s) : I (run exec es s) := by
  induction es generalizing s with
  | nil => exact initial
  | cons e es ih => exact ih allowed.2 (preserved e s allowed.1 initial)

/-- Progress rule: a measure that every counted step lowers, and no step raises, is used up by
enough counted steps. -/
theorem Along.countdown (I : σ → Prop) (measure : σ → Nat) (counted : ε → Bool)
    (preserved : ∀ e s, ok e s → I s → I (exec e s))
    (falls : ∀ e s, ok e s → I s → measure (exec e s) ≤ measure s - (if counted e then 1 else 0))
    {es : List ε} {s : σ} (allowed : Along exec ok es s) (initial : I s) :
    measure (run exec es s) ≤ measure s - es.countP counted := by
  induction es generalizing s with
  | nil => exact Nat.le_refl _
  | cons e es ih =>
    have now := falls e s allowed.1 initial
    have later := ih allowed.2 (preserved e s allowed.1 initial)
    rw [List.countP_cons, run_cons]
    omega

/-- The invariant rule when every step preserves the invariant. -/
theorem run_invariant (I : σ → Prop) (preserved : ∀ e s, I s → I (exec e s))
    (es : List ε) {s : σ} (initial : I s) : I (run exec es s) := by
  have allowed : Along exec (fun _ _ => True) es s := along_of_forall (fun _ _ => trivial) es s
  exact allowed.invariant I (fun e s _ h => preserved e s h) initial

/-- The invariant rule for properties that also look back at the events so far. -/
theorem run_history (I : List ε → σ → Prop) {s : σ} (initial : I [] s)
    (preserved : ∀ es e, I es (run exec es s) → I (es ++ [e]) (exec e (run exec es s)))
    (es : List ε) : I es (run exec es s) := by
  -- From the end: the step that is added last is the one `preserved` speaks about.
  induction es using List.reverseRecOn with
  | nil => exact initial
  | append_singleton es e ih =>
    rw [run_append]
    exact preserved es e ih

/-- Two conditions that agree wherever the invariant holds agree along a run, when
one of them is enough to keep the invariant. The invariant may look ahead at the
events to come. -/
theorem along_congr_pending {ok' : ε → σ → Prop} (I : List ε → σ → Prop)
    (agree : ∀ e es s, I (e :: es) s → (ok e s ↔ ok' e s))
    (preserved : ∀ e es s, I (e :: es) s → ok' e s → I es (exec e s)) (es : List ε) {s : σ}
    (initial : I es s) : Along exec ok es s ↔ Along exec ok' es s := by
  induction es generalizing s with
  | nil => exact Iff.rfl
  | cons e es ih =>
    rw [along_cons, along_cons, agree e es s initial]
    exact and_congr_right fun h => ih (preserved e es s initial h)

theorem along_congr {ok' : ε → σ → Prop} (I : σ → Prop) (es : List ε)
    (agree : ∀ e ∈ es, ∀ s, I s → (ok e s ↔ ok' e s))
    (preserved : ∀ e ∈ es, ∀ s, I s → ok' e s → I (exec e s)) {s : σ} (initial : I s) :
    Along exec ok es s ↔ Along exec ok' es s := by
  apply along_congr_pending fun rest s => rest ⊆ es ∧ I s
  · rintro e rest s ⟨inside, h⟩
    exact agree e (inside List.mem_cons_self) s h
  · rintro e rest s ⟨inside, h⟩ ok
    have member : e ∈ es := inside List.mem_cons_self
    exact ⟨fun _ later => inside (List.mem_cons_of_mem e later), preserved e member s h ok⟩
  · exact ⟨fun _ member => member, initial⟩

/-- Simulation rule: related states stay related when both machines handle the
same events. -/
theorem Along.simulation (exec' : ε → τ → τ) (R : σ → τ → Prop)
    (preserved : ∀ e s t, ok e s → R s t → R (exec e s) (exec' e t))
    {es : List ε} {s : σ} {t : τ} (allowed : Along exec ok es s) (initial : R s t) :
    R (run exec es s) (run exec' es t) := by
  induction es generalizing s t with
  | nil => exact initial
  | cons e es ih => exact ih allowed.2 (preserved e s t allowed.1 initial)

/-- The events a machine hands down when each of its own events stands for a list of
events of a machine below it. -/
def trace {φ : Type} (exec' : φ → τ → τ) (events : φ → τ → List ε) : List φ → τ → List ε
  | [], _ => []
  | f :: fs, t => events f t ++ trace exec' events fs (exec' f t)

theorem trace_append {φ : Type} (exec' : φ → τ → τ) (events : φ → τ → List ε) (fs gs : List φ)
    (t : τ) : trace exec' events (fs ++ gs) t =
      trace exec' events fs t ++ trace exec' events gs (run exec' fs t) := by
  induction fs generalizing t with
  | nil => rfl
  | cons f fs ih => simp [trace, ih]

/-- The machine below runs along the trace. -/
theorem run_trace {φ : Type} {exec' : φ → τ → τ} {events : φ → τ → List ε} (below : τ → σ)
    (step : ∀ f t, below (exec' f t) = run exec (events f t) (below t)) (fs : List φ) (t : τ) :
    below (run exec' fs t) = run exec (trace exec' events fs t) (below t) := by
  induction fs generalizing t with
  | nil => rfl
  | cons f fs ih => rw [run_cons, ih, step, trace, run_append]

/-- The invariant rule for properties that look back at a trace of the run. -/
theorem run_trace_invariant {φ : Type} {exec' : φ → τ → τ} {events : φ → τ → List ε}
    (I : List ε → τ → Prop) {t : τ} (initial : I [] t)
    (preserved : ∀ seen f t, I seen t → I (seen ++ events f t) (exec' f t)) (fs : List φ) :
    I (trace exec' events fs t) (run exec' fs t) := by
  apply run_history fun fs' t' => I (trace exec' events fs' t) t'
  · exact initial
  · intro fs' f before
    rw [trace_append]
    simpa [trace] using preserved _ f _ before

end Runs

section Loops

variable {σ : Type}

/-- `for (i = 0; i < n; i++) body(i)` for a bound and a counter that fit the machine. -/
def forLoop (body : Nat → σ → σ) : Nat → σ → σ
  | 0, s => s
  | n + 1, s => body n (forLoop body n s)

@[simp] theorem forLoop_zero (body : Nat → σ → σ) (s : σ) : forLoop body 0 s = s := rfl

@[simp] theorem forLoop_succ (body : Nat → σ → σ) (n : Nat) (s : σ) :
    forLoop body (n + 1) s = body n (forLoop body n s) := rfl

/-- Loop rule: `P i` holds before round `i`, and `P n` when the loop ends. -/
theorem forLoop_invariant (body : Nat → σ → σ) (P : Nat → σ → Prop) (n : Nat) {s : σ}
    (initial : P 0 s) (step : ∀ i s, i < n → P i s → P (i + 1) (body i s)) :
    P n (forLoop body n s) := by
  -- `step` is known for rounds below `n` only, so the induction is on the rounds done.
  have upTo (k : Nat) (bound : k ≤ n) : P k (forLoop body k s) := by
    induction k with
    | zero => exact initial
    | succ k ih => exact step k _ bound (ih (Nat.le_of_succ_le bound))
  exact upTo n (Nat.le_refl n)

end Loops

end Mp3Kernel.Library
