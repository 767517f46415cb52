import RudpEngine.ByteBits
import RudpEngine.Lines
import RudpEngine.TelemetrySink

/-!
# The control lines of a viewer

`ReaderLoop` gets what a viewer writes in chunks, keeps in `Buffer` what is not
ended by a newline, and gives each line to the callback, but for empty ones.
-/

namespace RudpEngine

namespace TelemetrySink

def newline : Byte := 10

/-- The inner loop: the lines that are parsed for the callback, and what stays in `Buffer`. -/
def takeLines (buffer : List Byte) : List (List Byte) × List Byte :=
  match _ : buffer.idxOf? newline with
  | none => ([], buffer)
  | some newlinePos =>
    let lineStr := buffer.take newlinePos
    let (lines, buffer) := takeLines (buffer.drop (newlinePos + 1))
    (if lineStr.isEmpty then lines else lineStr :: lines, buffer)
termination_by buffer.length
decreasing_by
  rename_i hfind
  have hlt := (List.idxOf?_eq_some_iff.mp hfind).1
  rw [List.length_drop]
  omega

/-- What each `recv` brings; the loop ends at one that brings nothing. -/
def readerLoop (buffer : List Byte) : List (List Byte) → List (List Byte) × List Byte
  | [] => ([], buffer)
  | received :: chunks =>
    if received.isEmpty then ([], buffer)
    else
      let (lines, buffer) := takeLines (buffer ++ received)
      let (more, buffer) := readerLoop buffer chunks
      (lines ++ more, buffer)

theorem takeLines_of_not_mem {buffer : List Byte} (h : newline ∉ buffer) : takeLines buffer = ([], buffer) := by
  rw [takeLines]
  split
  case h_1 => rfl
  case h_2 newlinePos hfind =>
    rw [List.idxOf?_eq_none_iff.mpr h] at hfind
    cases hfind

theorem takeLines_append {line : List Byte} (hline : newline ∉ line) (buffer : List Byte) :
    takeLines (line ++ newline :: buffer) =
      (if line.isEmpty then (takeLines buffer).1 else line :: (takeLines buffer).1, (takeLines buffer).2) := by
  have hpos : (line ++ newline :: buffer).idxOf? newline = some line.length := by
    rw [List.idxOf?_eq_some_iff]
    refine ⟨by simp, by simp, ?_⟩
    intro j hj heq
    rw [List.getElem_append_left hj] at heq
    exact hline (heq ▸ List.getElem_mem hj)
  rw [takeLines]
  split
  case h_1 hfind =>
    rw [hpos] at hfind
    cases hfind
  case h_2 newlinePos hfind =>
    obtain rfl : line.length = newlinePos := Option.some.inj (hpos.symm.trans hfind)
    simp

theorem takeLines_eq {buffer rest : List Byte} {lines : List (List Byte)} (h : Lines newline buffer lines rest) :
    takeLines buffer = (lines.filter fun line => !line.isEmpty, rest) := by
  obtain ⟨rfl, hlines, hrest⟩ := h
  induction lines with
  | nil => exact takeLines_of_not_mem hrest
  | cons line lines ih =>
    obtain ⟨hline, hlines⟩ := List.forall_mem_cons.mp hlines
    simp only [List.map_cons, List.flatten_cons, List.append_assoc, List.cons_append, List.nil_append]
    rw [takeLines_append hline, ih hlines, List.filter_cons]
    cases line <;> rfl

theorem readerLoop_eq {chunks : List (List Byte)} {buffer rest : List Byte} {lines : List (List Byte)} (hbuffer : newline ∉ buffer)
    (h : Lines newline (buffer ++ (chunks.takeWhile fun chunk => !chunk.isEmpty).flatten) lines rest) :
    readerLoop buffer chunks = (lines.filter fun line => !line.isEmpty, rest) := by
  induction chunks generalizing buffer lines with
  | nil =>
    rw [List.takeWhile_nil, List.flatten_nil, List.append_nil] at h
    obtain ⟨rfl, rfl⟩ := h.unique (.of_not_mem hbuffer)
    rfl
  | cons received chunks ih =>
    rw [readerLoop]
    split
    case isTrue hempty =>
      rw [List.takeWhile_cons_of_neg (by simpa using hempty), List.flatten_nil, List.append_nil] at h
      obtain ⟨rfl, rfl⟩ := h.unique (.of_not_mem hbuffer)
      rfl
    case isFalse hmore =>
      rw [List.takeWhile_cons_of_pos (by simpa using hmore), List.flatten_cons, ← List.append_assoc] at h
      obtain ⟨first, kept, hfirst⟩ := Lines.exists_lines newline (buffer ++ received)
      obtain ⟨others, last, hothers⟩ :=
        Lines.exists_lines newline (kept ++ (chunks.takeWhile fun chunk => !chunk.isEmpty).flatten)
      obtain ⟨rfl, rfl⟩ := h.unique (hfirst.append hothers)
      simp only [takeLines_eq hfirst, ih hfirst.not_mem_rest hothers, List.filter_append]

/-- However a viewer's stream is cut into chunks, the callback gets its lines in their order, but for the empty ones. -/
theorem control_lines_arrive {chunks lines : List (List Byte)} {rest : List Byte}
    (h : Lines newline (chunks.takeWhile fun chunk => !chunk.isEmpty).flatten lines rest) :
    readerLoop [] chunks = (lines.filter fun line => !line.isEmpty, rest) := readerLoop_eq List.not_mem_nil h

theorem control_lines_arrive_cutLine : readerLoop [] [[123, 10, 10, 91], [93, 10, 34], [], [125]] = ([[123], [91, 93]], [34]) := by
  have hlines : Lines newline (List.takeWhile (fun chunk => !chunk.isEmpty) [[123, 10, 10, 91], [93, 10, 34], [], [125]]).flatten
      [[123], [], [91, 93]] [34] := ⟨by decide, by decide, by decide⟩
  exact control_lines_arrive hlines

end TelemetrySink

end RudpEngine
