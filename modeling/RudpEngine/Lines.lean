import Mathlib.Data.List.Basic

/-!
# Lines of a stream

One value ends a line. A stream is its lines, each with its end, and a rest that
is not ended; there is one way to see it so, wherever the stream is cut.
-/

namespace RudpEngine

variable {α : Type}

structure Lines (ending : α) (stream : List α) (lines : List (List α)) (rest : List α) : Prop where
  stream_eq : stream = (lines.map (· ++ [ending])).flatten ++ rest
  not_mem_line : ∀ line ∈ lines, ending ∉ line
  not_mem_rest : ending ∉ rest

namespace Lines

variable {ending : α} {stream rest rest' piece line : List α} {lines lines' : List (List α)}

theorem of_not_mem (h : ending ∉ stream) : Lines ending stream [] stream := ⟨rfl, by simp, h⟩

theorem cons (hline : ending ∉ line) (h : Lines ending stream lines rest) :
    Lines ending (line ++ ending :: stream) (line :: lines) rest := by
  refine ⟨?_, ?_, h.not_mem_rest⟩
  · simp [h.stream_eq]
  · simpa using ⟨hline, h.not_mem_line⟩

theorem exists_lines [DecidableEq α] (ending : α) (stream : List α) : ∃ lines rest, Lines ending stream lines rest := by
  induction stream with
  | nil => exact ⟨[], [], of_not_mem List.not_mem_nil⟩
  | cons x stream ih =>
    obtain ⟨lines, rest, h⟩ := ih
    by_cases hx : ending = x
    · subst hx
      exact ⟨[] :: lines, rest, cons List.not_mem_nil h⟩
    · cases lines with
      | nil =>
        refine ⟨[], x :: rest, by rw [h.stream_eq]; rfl, by simp, ?_⟩
        simpa [hx] using h.not_mem_rest
      | cons line lines =>
        obtain ⟨hline, hlines⟩ := List.forall_mem_cons.mp h.not_mem_line
        refine ⟨(x :: line) :: lines, rest, by rw [h.stream_eq]; rfl, ?_, h.not_mem_rest⟩
        exact List.forall_mem_cons.mpr ⟨by simpa [hx] using hline, hlines⟩

theorem append (h : Lines ending stream lines rest) (h' : Lines ending (rest ++ piece) lines' rest') :
    Lines ending (stream ++ piece) (lines ++ lines') rest' := by
  refine ⟨?_, ?_, h'.not_mem_rest⟩
  · rw [h.stream_eq, List.append_assoc, h'.stream_eq]
    simp
  · intro line hline
    rcases List.mem_append.mp hline with hline | hline
    · exact h.not_mem_line line hline
    · exact h'.not_mem_line line hline

theorem eq_nil (h : Lines ending stream lines rest) (hnot : ending ∉ stream) : lines = [] := by
  cases lines with
  | nil => rfl
  | cons line lines =>
    rw [h.stream_eq] at hnot
    simp at hnot

theorem first_eq {line' stream' : List α} (hline : ending ∉ line) (hline' : ending ∉ line')
    (heq : line ++ ending :: stream = line' ++ ending :: stream') : line = line' ∧ stream = stream' := by
  induction line generalizing line' with
  | nil =>
    cases line' with
    | nil => exact ⟨rfl, (List.cons.inj heq).2⟩
    | cons x line' => exact absurd (by rw [(List.cons.inj heq).1]; exact List.mem_cons_self) hline'
  | cons x line ih =>
    cases line' with
    | nil => exact absurd (by rw [(List.cons.inj heq).1]; exact List.mem_cons_self) hline
    | cons y line' =>
      obtain ⟨hxy, heq⟩ := List.cons.inj heq
      obtain ⟨hrest, hstream⟩ := ih (fun hin => hline (List.mem_cons_of_mem _ hin))
        (fun hin => hline' (List.mem_cons_of_mem _ hin)) heq
      exact ⟨by rw [hxy, hrest], hstream⟩

theorem unique (h : Lines ending stream lines rest) (h' : Lines ending stream lines' rest') : lines = lines' ∧ rest = rest' := by
  induction lines generalizing stream lines' with
  | nil =>
    have hstream : stream = rest := h.stream_eq
    obtain rfl := h'.eq_nil (hstream ▸ h.not_mem_rest)
    exact ⟨rfl, hstream.symm.trans h'.stream_eq⟩
  | cons line lines ih =>
    cases lines' with
    | nil =>
      have hstream : stream = rest' := h'.stream_eq
      have hnone := h.eq_nil (hstream ▸ h'.not_mem_rest)
      cases hnone
    | cons line' lines' =>
      obtain ⟨hline, hlines⟩ := List.forall_mem_cons.mp h.not_mem_line
      obtain ⟨hline', hlines'⟩ := List.forall_mem_cons.mp h'.not_mem_line
      have heq := h.stream_eq.symm.trans h'.stream_eq
      simp only [List.map_cons, List.flatten_cons, List.append_assoc, List.singleton_append] at heq
      obtain ⟨rfl, hstream⟩ := first_eq hline hline' heq
      obtain ⟨rfl, hrest⟩ := ih ⟨rfl, hlines, h.not_mem_rest⟩ ⟨hstream, hlines', h'.not_mem_rest⟩
      exact ⟨rfl, hrest⟩

end Lines

end RudpEngine
