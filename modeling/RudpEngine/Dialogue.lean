import Mathlib.Data.List.Infix
import Mathlib.Data.List.Nodup

/-!
# Dialogues that follow a script

Two parties speak in turn: one opens, and from then on each message answers the
one before. What was said is then the beginning of the script, and at most its
last message is still underway.
-/

namespace RudpEngine

variable {μ : Type}

structure FollowsScript (script said underway : List μ) : Prop where
  follows : said <+: script
  lastOnly : underway = [] ∨ ∃ m, underway = [m] ∧ said.getLast? = some m

def Answers (script : List μ) (m m' : μ) : Prop := [m, m'] <:+: script

namespace FollowsScript

variable {script said underway : List μ} {m m' : μ}

theorem start (script : List μ) : FollowsScript script [] [] := ⟨List.nil_prefix, .inl rfl⟩

theorem opening (h : script.head? = some m) : FollowsScript script [m] [m] := by
  obtain ⟨rest, rfl⟩ := List.head?_eq_some_iff.mp h
  exact ⟨⟨rest, rfl⟩, .inr ⟨m, rfl, rfl⟩⟩

theorem lost (h : FollowsScript script said underway) : FollowsScript script said [] := ⟨h.follows, .inl rfl⟩

theorem underway_eq (h : FollowsScript script said underway) (hm : m ∈ underway) : underway = [m] ∧ said.getLast? = some m := by
  rcases h.lastOnly with hnone | ⟨n, hone, hlast⟩
  · rw [hnone] at hm
    cases hm
  · rw [hone, List.mem_singleton] at hm
    subst hm
    exact ⟨hone, hlast⟩

variable (hnodup : script.Nodup)
include hnodup

/-- Where a message is said last, the rest of the script is what stands behind it. -/
theorem rest_eq (before after : List μ) (h : FollowsScript script said underway) (hlast : said.getLast? = some m)
    (hscript : script = before ++ m :: after) : said = before ++ [m] := by
  obtain ⟨rest, hrest⟩ := h.follows
  obtain ⟨front, rfl⟩ := List.getLast?_eq_some_iff.mp hlast
  have heq : front ++ m :: rest = before ++ m :: after := by
    rw [← hscript, ← hrest, List.append_assoc, List.singleton_append]
  obtain ⟨hfront, hrest'⟩ : m ∉ front ∧ m ∉ rest := by
    rw [← hrest, List.append_assoc, List.singleton_append, List.nodup_append, List.nodup_cons] at hnodup
    exact ⟨fun hin => hnodup.2.2 m hin m List.mem_cons_self rfl, hnodup.2.1.1⟩
  rw [((List.append_cons_inj_of_notMem hfront hrest').mp heq).1]

theorem answer (h : FollowsScript script said underway) (hm : m ∈ underway) (hnext : Answers script m m') :
    FollowsScript script (said ++ [m']) [m'] := by
  obtain ⟨before, after, hscript⟩ := hnext
  have hsaid := h.rest_eq hnodup before (m' :: after) (h.underway_eq hm).2 (by rw [← hscript]; simp)
  refine ⟨⟨after, ?_⟩, .inr ⟨m', rfl, List.getLast?_concat⟩⟩
  rw [hsaid, ← hscript]
  simp

end FollowsScript

end RudpEngine
