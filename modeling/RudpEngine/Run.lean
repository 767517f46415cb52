import Mathlib.Logic.Basic

/-!
# Runs of a transition system

A system is given by its initial states and what each action makes of a state.
`Reach ok` collects the states of the runs whose every step meets `ok`; an
invariant only has to hold at the start and across such steps.
-/

namespace RudpEngine

structure System (σ α : Type) where
  init : σ → Prop
  next : σ → α → σ

namespace System

variable {σ α : Type} (S : System σ α)

inductive Reach (ok : σ → α → Prop) : σ → Prop
  | init {s : σ} : S.init s → Reach ok s
  | next {s : σ} {a : α} : Reach ok s → ok s a → Reach ok (S.next s a)

/-- The runs without a condition on their steps. -/
abbrev Reachable : σ → Prop := S.Reach fun _ _ => True

variable {S} {ok ok' : σ → α → Prop} {s : σ}

theorem Reach.invariant {I : σ → Prop} (h0 : ∀ s, S.init s → I s) (hs : ∀ s a, I s → ok s a → I (S.next s a))
    (h : S.Reach ok s) : I s := by
  induction h with
  | init h => exact h0 _ h
  | next _ hok ih => exact hs _ _ ih hok

theorem Reach.mono (himp : ∀ s a, ok s a → ok' s a) (h : S.Reach ok s) : S.Reach ok' s := by
  induction h with
  | init h => exact .init h
  | next _ hok ih => exact .next ih (himp _ _ hok)

theorem Reach.reachable (h : S.Reach ok s) : S.Reachable s := h.mono fun _ _ _ => trivial

def runFrom (S : System σ α) (s : σ) (as : List α) : σ := as.foldl S.next s

theorem reachable_runFrom (h : S.Reachable s) (as : List α) : S.Reachable (S.runFrom s as) := by
  induction as generalizing s with
  | nil => exact h
  | cons a as ih => exact ih (.next h trivial)

/-- Two systems that agree wherever an invariant of the one holds have the same runs from there, as far as the actions keep
the invariant. -/
theorem runFrom_congr {T : System σ α} {I : σ → Prop} {ok : α → Prop} (hstep : ∀ s a, I s → ok a → I (S.next s a))
    (heq : ∀ s a, I s → S.next s a = T.next s a) (h : I s) {as : List α} (hok : ∀ a ∈ as, ok a) :
    S.runFrom s as = T.runFrom s as := by
  induction as generalizing s with
  | nil => rfl
  | cons a as ih =>
    have hrest := ih (hstep s a h (hok a List.mem_cons_self)) fun b hb => hok b (List.mem_cons_of_mem _ hb)
    exact hrest.trans (congrArg (fun t => T.runFrom t as) (heq s a h))

def checked (S : System σ α) (ok : σ → α → Prop) [∀ s a, Decidable (ok s a)] (s : σ) : List α → Bool
  | [] => true
  | a :: as => decide (ok s a) && S.checked ok (S.next s a) as

theorem Reach.of_checked [∀ s a, Decidable (ok s a)] {s : σ} (h : S.Reach ok s) :
    ∀ as : List α, S.checked ok s as = true → S.Reach ok (S.runFrom s as)
  | [], _ => h
  | a :: as, hchecked => by
    obtain ⟨hok, hrest⟩ := Bool.and_eq_true_iff.mp hchecked
    exact Reach.of_checked (.next h (of_decide_eq_true hok)) as hrest

/-- The states of the runs that begin at `s` and whose every step meets `ok`. -/
def ReachFrom (S : System σ α) (ok : σ → α → Prop) (s : σ) : σ → Prop := Reach { S with init := (· = s) } ok

theorem ReachFrom.of_checked [∀ s a, Decidable (ok s a)] {s t : σ} (h : S.ReachFrom ok s t) :
    ∀ as : List α, S.checked ok t as = true → S.ReachFrom ok s (S.runFrom t as)
  | [], _ => h
  | a :: as, hchecked => by
    obtain ⟨hok, hrest⟩ := Bool.and_eq_true_iff.mp hchecked
    exact ReachFrom.of_checked (t := S.next t a) (Reach.next h (of_decide_eq_true hok)) as hrest

/-- Where a step that is not `ok` leads to a state that is not good, a run stays good exactly as long as its steps are. -/
theorem runFrom_good_iff {I good : σ → Prop} (hgood : ∀ s, I s → good s) (hstep : ∀ s a, I s → ok s a → I (S.next s a))
    (hbad : ∀ s a, I s → ¬ ok s a → ¬ good (S.next s a)) (h : I s) (as : List α) :
    (∀ n, good (S.runFrom s (as.take n))) ↔ ∀ n a, as[n]? = some a → ok (S.runFrom s (as.take n)) a := by
  induction as generalizing s with
  | nil =>
    constructor
    · intro _ n a ha
      cases ha
    · intro _ n
      rw [List.take_nil]
      exact hgood s h
  | cons a as ih =>
    constructor
    · intro hall
      have hok : ok s a := Classical.byContradiction fun hnot => hbad s a h hnot (hall 1)
      intro n a' ha'
      cases n with
      | zero =>
        cases ha'
        exact hok
      | succ n => exact (ih (hstep s a h hok)).mp (fun n => hall (n + 1)) n a' ha'
    · intro hall
      have hok : ok s a := hall 0 a rfl
      intro n
      cases n with
      | zero => exact hgood s h
      | succ n => exact (ih (hstep s a h hok)).mpr (fun n a' ha' => hall (n + 1) a' ha') n

end System

end RudpEngine
