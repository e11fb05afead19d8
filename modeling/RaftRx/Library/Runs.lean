import Mathlib.Logic.Relation
import Mathlib.Tactic

/-!
Runs of a deterministic labelled system under a condition on its steps.

The system is a partial step function `exec : S → A → Option S`: a label that is not enabled
gives `none`.  A condition `P : S → A → Prop` restricts the labels that may be taken in a state.

* `Run exec P s s'`: a run from `s` to `s'` all whose steps satisfy `P`;
* `Run.invariant`: what every step keeps holds along a run;
* `Run.mono`: a run under a condition is a run under a weaker one;
* `RunBy exec P s as s'`: the run by a list of labels, `Moment`: a state it passes on its way, and
  `Happened`: a step it takes;
* `Run.of_execAll`, `Run.exists_of_execAll`, `Run.exists_two_of_execAll`, `Run.exists_of_forall`: a
  list of labels executed one after the other is a run.
-/

namespace RaftRx

variable {S A : Type*}

/-- One step of the system with a label that satisfies the condition. -/
def StepOf (exec : S → A → Option S) (P : S → A → Prop) (s s' : S) : Prop :=
  ∃ a, P s a ∧ exec s a = some s'

/-- A run all whose steps satisfy the condition. -/
def Run (exec : S → A → Option S) (P : S → A → Prop) : S → S → Prop :=
  Relation.ReflTransGen (StepOf exec P)

namespace Run

variable {exec : S → A → Option S} {P Q : S → A → Prop} {s s' s'' : S}

lemma refl (s : S) : Run exec P s s := Relation.ReflTransGen.refl

lemma trans (h : Run exec P s s') (h' : Run exec P s' s'') : Run exec P s s'' :=
  Relation.ReflTransGen.trans h h'

lemma tail {a : A} (h : Run exec P s s') (hP : P s' a) (he : exec s' a = some s'') :
    Run exec P s s'' :=
  Relation.ReflTransGen.tail h ⟨a, hP, he⟩

/-- **The invariant rule**: what every admitted step keeps holds along every run. -/
theorem invariant {I : S → Prop} (hstep : ∀ s a s', I s → P s a → exec s a = some s' → I s')
    (h : Run exec P s s') (hs : I s) : I s' := by
  induction h with
  | refl => exact hs
  | tail _ hst ih =>
      obtain ⟨a, hP, he⟩ := hst
      exact hstep _ a _ ih hP he

/-- A weaker condition admits more runs. -/
lemma mono (hPQ : ∀ s a, P s a → Q s a) (h : Run exec P s s') : Run exec Q s s' :=
  Relation.ReflTransGen.mono (fun _ _ ⟨a, hP, he⟩ => ⟨a, hPQ _ a hP, he⟩) _ _ h

end Run

/-- Execute a list of labels, checking a decidable condition before each of them. -/
def execAll (exec : S → A → Option S) (P : S → A → Bool) : S → List A → Option S
  | s, [] => some s
  | s, a :: as => if P s a then (exec s a).bind fun s' => execAll exec P s' as else none

/-- A list of labels executed one after the other is a run. -/
lemma Run.of_execAll {exec : S → A → Option S} {P : S → A → Bool} :
    ∀ {as : List A} {s s' : S}, execAll exec P s as = some s' →
      Run exec (fun s a => P s a = true) s s'
  | [], s, s', h => by
      simp only [execAll, Option.some.injEq] at h
      exact h ▸ Run.refl s
  | a :: as, s, s', h => by
      rw [execAll] at h
      split at h
      · rename_i hP
        obtain ⟨u, hu, hrest⟩ := Option.bind_eq_some_iff.mp h
        exact Run.trans (Run.tail (Run.refl s) hP hu) (Run.of_execAll hrest)
      · exact absurd h (by simp)

/-- A list of labels that leads to a state with a decidable property. -/
lemma Run.exists_of_execAll {exec : S → A → Option S} {P : S → A → Bool} {as : List A} {s : S}
    {q : S → Bool} (h : (execAll exec P s as).any q = true) :
    ∃ s', Run exec (fun s a => P s a = true) s s' ∧ q s' = true := by
  rw [Option.any_eq_true] at h
  obtain ⟨s', hs', hq⟩ := h
  exact ⟨s', Run.of_execAll hs', hq⟩

/-- Two lists of labels one after the other, with a property of the state in between. -/
lemma Run.exists_two_of_execAll {exec : S → A → Option S} {P : S → A → Bool} {as bs : List A}
    {s : S} {q r : S → Bool}
    (h : (execAll exec P s as).any (fun t => q t && (execAll exec P t bs).any r) = true) :
    ∃ t s', Run exec (fun s a => P s a = true) s t ∧ q t = true ∧
      Run exec (fun s a => P s a = true) t s' ∧ r s' = true := by
  obtain ⟨t, hrun, ht⟩ := Run.exists_of_execAll h
  rw [Bool.and_eq_true] at ht
  obtain ⟨s', hrun', hs'⟩ := Run.exists_of_execAll ht.2
  exact ⟨t, s', hrun, ht.1, hrun', hs'⟩

/-- The same for a condition on labels alone, checked once for the whole list. -/
lemma Run.exists_of_forall {exec : S → A → Option S} {P : A → Prop} {as : List A} {s : S}
    {q : S → Bool} (has : ∀ a ∈ as, P a)
    (h : (execAll exec (fun _ _ => true) s as).any q = true) :
    ∃ s', Run exec (fun _ a => P a) s s' ∧ q s' = true := by
  induction as generalizing s with
  | nil =>
      simp only [execAll, Option.any_some] at h
      exact ⟨s, Run.refl s, h⟩
  | cons a as ih =>
      rw [execAll, if_pos rfl] at h
      cases hs : exec s a with
      | none =>
          rw [hs] at h
          simp at h
      | some t =>
          rw [hs, Option.bind_some] at h
          obtain ⟨s', hrun, hq⟩ := ih (fun b hb => has b (List.mem_cons_of_mem _ hb)) h
          exact ⟨s', Run.trans (Run.tail (Run.refl s) (has a List.mem_cons_self) hs) hrun, hq⟩

/-! ### Runs with their labels -/

/-- The run by a list of labels. -/
inductive RunBy (exec : S → A → Option S) (P : S → A → Prop) (s : S) : List A → S → Prop where
  | nil : RunBy exec P s [] s
  | snoc {as : List A} {s' s'' : S} {a : A} : RunBy exec P s as s' → P s' a →
      exec s' a = some s'' → RunBy exec P s (as ++ [a]) s''

/-- The run by `as` is in `t` before its last labels `bs`. -/
def Moment (exec : S → A → Option S) (P : S → A → Prop) (s : S) (as : List A) (s' t : S)
    (bs : List A) : Prop :=
  ∃ pre, as = pre ++ bs ∧ RunBy exec P s pre t ∧ RunBy exec P t bs s'

/-- Some step of the run by `as` has the property. -/
def Happened (exec : S → A → Option S) (P : S → A → Prop) (s : S) (as : List A) (s' : S)
    (E : S → A → S → Prop) : Prop :=
  ∃ t a t' bs, Moment exec P s as s' t (a :: bs) ∧ exec t a = some t' ∧ E t a t'

section RunBy

variable {exec : S → A → Option S} {P : S → A → Prop} {E : S → A → S → Prop} {s s' s'' t : S}
  {as bs : List A} {a : A}

lemma RunBy.trans (h : RunBy exec P s as s') (h' : RunBy exec P s' bs s'') :
    RunBy exec P s (as ++ bs) s'' := by
  induction h' with
  | nil => rwa [List.append_nil]
  | snoc _ hP he ih =>
      rw [← List.append_assoc]
      exact ih.snoc hP he

lemma RunBy.cons (hP : P s a) (he : exec s a = some s') (h : RunBy exec P s' as s'') :
    RunBy exec P s (a :: as) s'' :=
  RunBy.trans (RunBy.snoc RunBy.nil hP he) h

/-- A list of labels executed one after the other. -/
lemma RunBy.of_execAll {P : S → A → Bool} : ∀ {as : List A} {s s' : S},
    execAll exec P s as = some s' → RunBy exec (fun s a => P s a = true) s as s'
  | [], s, s', h => by
      simp only [execAll, Option.some.injEq] at h
      exact h ▸ RunBy.nil
  | a :: as, s, s', h => by
      rw [execAll] at h
      split at h
      · rename_i hP
        obtain ⟨u, hu, hrest⟩ := Option.bind_eq_some_iff.mp h
        exact RunBy.cons hP hu (RunBy.of_execAll hrest)
      · exact absurd h (by simp)

/-- A weaker condition admits more runs. -/
lemma RunBy.mono {Q : S → A → Prop} (hPQ : ∀ s a, P s a → Q s a) (h : RunBy exec P s as s') :
    RunBy exec Q s as s' := by
  induction h with
  | nil => exact RunBy.nil
  | snoc _ hP he ih => exact ih.snoc (hPQ _ _ hP) he

/-- The end of a run is a moment of it. -/
lemma Moment.last (h : RunBy exec P s as s') : Moment exec P s as s' s' [] :=
  ⟨as, (List.append_nil as).symm, h, RunBy.nil⟩

lemma Moment.snoc (h : Moment exec P s as s' t bs) (hP : P s' a) (he : exec s' a = some s'') :
    Moment exec P s (as ++ [a]) s'' t (bs ++ [a]) := by
  obtain ⟨pre, rfl, hpre, hbs⟩ := h
  exact ⟨pre, List.append_assoc pre bs [a], hpre, hbs.snoc hP he⟩

lemma Moment.rest (h : Moment exec P s as s' t bs) : RunBy exec P t bs s' := by
  obtain ⟨-, -, -, hbs⟩ := h
  exact hbs

/-- The last step of a run. -/
lemma Happened.last (h : RunBy exec P s as s') (hP : P s' a) (he : exec s' a = some s'')
    (hE : E s' a s'') : Happened exec P s (as ++ [a]) s'' E :=
  ⟨s', a, s'', [], (Moment.last h).snoc hP he, he, hE⟩

lemma Happened.snoc (h : Happened exec P s as s' E) (hP : P s' a) (he : exec s' a = some s'') :
    Happened exec P s (as ++ [a]) s'' E := by
  obtain ⟨t, b, t', bs, hm, hb, hE⟩ := h
  exact ⟨t, b, t', bs ++ [a], hm.snoc hP he, hb, hE⟩

/-- **The invariant rule** for runs with their labels. -/
theorem RunBy.invariant {I : List A → S → Prop} (hs : I [] s)
    (hstep : ∀ as s' a s'', RunBy exec P s as s' → I as s' → P s' a → exec s' a = some s'' →
      I (as ++ [a]) s'')
    (h : RunBy exec P s as s') : I as s' := by
  induction h with
  | nil => exact hs
  | snoc hrun hP he ih => exact hstep _ _ _ _ hrun ih hP he

end RunBy

end RaftRx
