import RudpEngine.ChannelRecord
import Mathlib.Tactic.Linarith
import Mathlib.Tactic.Ring

/-!
# The groups of the channel record

The one queue of markers and entries holds a group of channels for every packet
id that is not notified yet, in the order of the ids. The id of the packet that
is being filled has a group only once its marker is pushed.
-/

namespace RudpEngine

namespace ConnectionChannelRecord

def entry (i : ℕ) : ChannelRecordEntry := ⟨i, false⟩

def entriesOf : ℤ → List (List ℕ) → List ChannelRecordEntry
  | _, [] => []
  | id, g :: gs => ⟨id, true⟩ :: (g.map entry ++ entriesOf (id + 1) gs)

theorem entriesOf_append : ∀ (gs : List (List ℕ)) (id : ℤ) (g : List ℕ),
    entriesOf id (gs ++ [g]) = entriesOf id gs ++ ⟨id + gs.length, true⟩ :: g.map entry
  | [], id, g => by simp [entriesOf]
  | g₀ :: gs, id, g => by
    have hid : id + 1 + (gs.length : ℤ) = id + ((g₀ :: gs).length : ℤ) := by rw [List.length_cons]; push_cast; ring
    rw [List.cons_append, entriesOf, entriesOf_append gs (id + 1) g, entriesOf, hid]
    simp only [List.cons_append, List.append_assoc]

/-! ## Consuming a group -/

/-- The channels the functor is called for: every run of one channel once. -/
def calls : List ℕ → Option ℤ → List ℕ
  | [], _ => []
  | i :: g, previous => if some (i : ℤ) ≠ previous then i :: calls g (some i) else calls g previous

theorem mem_of_mem_calls {i : ℕ} : ∀ {g : List ℕ} {previous : Option ℤ}, i ∈ calls g previous → i ∈ g
  | j :: g, previous, h => by
    unfold calls at h
    split_ifs at h with hj
    · cases h with
      | head => exact List.mem_cons_self ..
      | tail _ h => exact List.mem_cons_of_mem _ (mem_of_mem_calls h)
    · exact List.mem_cons_of_mem _ (mem_of_mem_calls h)

theorem mem_calls_or {i : ℕ} : ∀ {g : List ℕ} {previous : Option ℤ}, i ∈ g → i ∈ calls g previous ∨ some (i : ℤ) = previous
  | j :: g, previous, h => by
    unfold calls
    split_ifs with hj
    · cases h with
      | head => exact .inl (List.mem_cons_self ..)
      | tail _ h =>
        rcases (mem_calls_or h : i ∈ calls g (some (j : ℤ)) ∨ _) with h | h
        · exact .inl (List.mem_cons_of_mem _ h)
        · obtain rfl : i = j := by simpa using h
          exact .inl (List.mem_cons_self ..)
    · cases h with
      | head => exact .inr (not_not.mp hj)
      | tail _ h => exact mem_calls_or h

theorem mem_calls {i : ℕ} {g : List ℕ} : i ∈ calls g none ↔ i ∈ g :=
  ⟨mem_of_mem_calls, fun h => (mem_calls_or h).resolve_right (by simp)⟩

theorem consumeLoop_group {σ : Type} (func : σ → ℤ → ℕ → σ) (id : ℤ) (next : ℤ) (gs : List (List ℕ)) :
    ∀ (g : List ℕ) (previous : Option ℤ) (s : σ),
      consumeLoop func id (g.map entry ++ entriesOf next gs) previous s =
        (entriesOf next gs, (calls g previous).foldl (fun s i => func s id i) s)
  | [], _, s => by
    cases gs with
    | nil => rfl
    | cons g gs => rfl
  | i :: g, previous, s => by
    rw [List.map_cons, List.cons_append, consumeLoop, calls]
    by_cases hi : some (i : ℤ) ≠ previous
    · have hi' : some (entry i).value ≠ previous := hi
      rw [if_neg (by simp [entry]), if_pos hi', if_pos hi]
      exact consumeLoop_group func id next gs g (some i) _
    · have hi' : ¬ some (entry i).value ≠ previous := hi
      rw [if_neg (by simp [entry]), if_neg hi', if_neg hi]
      exact consumeLoop_group func id next gs g previous s

def channelsOf (r : ConnectionChannelRecord) (id : ℤ) : List ℕ :=
  (((r.entryRecord.dropWhile fun e => !(e.isSequence && e.value == id)).drop 1).takeWhile fun e => !e.isSequence).map
    fun e => e.value.toNat

theorem takeWhile_group (next : ℤ) (gs : List (List ℕ)) : ∀ g : List ℕ,
    (((g.map entry ++ entriesOf next gs).takeWhile fun e => !e.isSequence).map fun e => e.value.toNat) = g
  | [] => by
    cases gs with
    | nil => rfl
    | cons g gs => rfl
  | i :: g => by
    rw [List.map_cons, List.cons_append, List.takeWhile_cons, if_pos (by rfl), List.map_cons, takeWhile_group next gs g]
    rfl

theorem dropWhile_group (id next : ℤ) (es : List ChannelRecordEntry) : ∀ g : List ℕ,
    ((g.map entry ++ es).dropWhile fun e => !(e.isSequence && e.value == id)) =
      es.dropWhile fun e => !(e.isSequence && e.value == id)
  | [] => rfl
  | i :: g => by
    rw [List.map_cons, List.cons_append, List.dropWhile_cons, if_pos (by rfl), dropWhile_group id next es g]

theorem channelsOf_eq {r : ConnectionChannelRecord} : ∀ {gs : List (List ℕ)} {id : ℤ}, r.entryRecord = entriesOf id gs →
    ∀ {k : ℕ} {g : List ℕ}, gs[k]? = some g → r.channelsOf (id + k) = g := by
  have key : ∀ (gs : List (List ℕ)) (id : ℤ) (k : ℕ) (g : List ℕ), gs[k]? = some g →
      ((((entriesOf id gs).dropWhile fun e => !(e.isSequence && e.value == id + k)).drop 1).takeWhile
        fun e => !e.isSequence).map (fun e => e.value.toNat) = g := by
    intro gs
    induction gs with
    | nil => intro id k g h; simp at h
    | cons g₀ gs ih =>
      intro id k g h
      cases k with
      | zero =>
        obtain rfl : g₀ = g := by simpa using h
        rw [entriesOf, List.dropWhile_cons, if_neg (by simp)]
        exact takeWhile_group (id + 1) gs g₀
      | succ k =>
        have hid : id + ((k + 1 : ℕ) : ℤ) = id + 1 + (k : ℤ) := by push_cast; ring
        rw [entriesOf, List.dropWhile_cons, if_pos (by simp; omega), dropWhile_group _ (id + 1), hid]
        exact ih (id + 1) k g (by simpa using h)
  intro gs id hr k g hk
  rw [channelsOf, hr]
  exact key gs id k g hk

/-! ## The record between the ids -/

/-- The groups of the ids behind `last`: up to the one before `next`, and of `next` too where its marker is pushed. The ids
are not negative. -/
structure Groups (r : ConnectionChannelRecord) (last next : ℤ) (gs : List (List ℕ)) : Prop where
  nonneg : 0 ≤ last + 1
  entries : r.entryRecord = entriesOf (last + 1) gs
  length : last + 1 + gs.length = if r.lastPacketId = next then next + 1 else next

variable {r : ConnectionChannelRecord} {last next : ℤ} {gs : List (List ℕ)}

theorem Groups.pushPacketId (h : r.Groups last next gs) :
    (r.pushPacketId next).lastPacketId = next ∧ ∃ gs', (r.pushPacketId next).Groups last next gs' := by
  unfold ConnectionChannelRecord.pushPacketId
  by_cases hne : next = r.lastPacketId
  · rw [if_neg (not_not.mpr hne)]
    exact ⟨hne.symm, gs, h⟩
  · have hlen := h.length
    rw [if_neg (Ne.symm hne)] at hlen
    have hnext : bits31 next = next := bits31_eq_self.mpr (by have := h.nonneg; omega)
    rw [if_pos hne]
    refine ⟨rfl, gs ++ [[]], h.nonneg, ?_, ?_⟩
    · show r.entryRecord ++ [⟨bits31 next, true⟩] = _
      rw [entriesOf_append, h.entries, hlen, hnext]; rfl
    · simp only [if_true, List.length_append, List.length_singleton]
      push_cast
      omega

theorem Groups.pushChannelRecord (h : r.Groups last next gs) (hopen : r.lastPacketId = next) (hlt : last < next) (i : ℕ) :
    (r.pushChannelRecord next i).lastPacketId = next ∧
      ∃ gs₀ g, gs = gs₀ ++ [g] ∧ (r.pushChannelRecord next i).Groups last next (gs₀ ++ [g ++ [i]]) := by
  have hsame : r.pushPacketId next = r := by
    rw [ConnectionChannelRecord.pushPacketId, if_neg (not_not.mpr hopen.symm)]
  have hlen := h.length
  rw [if_pos hopen] at hlen
  have hne : gs ≠ [] := by
    rintro rfl
    simp only [List.length_nil] at hlen
    omega
  obtain ⟨gs₀, g, rfl⟩ : ∃ gs₀ g, gs = gs₀ ++ [g] := ⟨_, _, (List.dropLast_concat_getLast hne).symm⟩
  unfold ConnectionChannelRecord.pushChannelRecord
  rw [hsame]
  refine ⟨hopen, gs₀, g, rfl, h.nonneg, ?_, ?_⟩
  · show r.entryRecord ++ [entry i] = _
    rw [h.entries, entriesOf_append, entriesOf_append, List.map_append, List.append_assoc]; rfl
  · simp only [if_pos hopen, List.length_append, List.length_singleton] at hlen ⊢
    exact hlen

theorem Groups.finish (h : r.Groups last next gs) (hopen : r.lastPacketId = next) : r.Groups last (next + 1) gs := by
  have hlen := h.length
  rw [if_pos hopen] at hlen
  refine ⟨h.nonneg, h.entries, ?_⟩
  rw [if_neg (by rw [hopen]; omega), hlen]

theorem Groups.consume (h : r.Groups last next gs) (hlt : last + 1 < next) :
    ∃ g gs', gs = g :: gs' ∧ Groups ⟨entriesOf (last + 2) gs', r.lastPacketId⟩ (last + 1) next gs' ∧
      ∀ {σ : Type} (func : σ → ℤ → ℕ → σ) (s : σ), r.consumeChannelRecordsForPacket func (last + 1) s =
        (true, ⟨entriesOf (last + 2) gs', r.lastPacketId⟩, (calls g none).foldl (fun s i => func s (last + 1) i) s) := by
  have hlen := h.length
  cases gs with
  | nil =>
    simp only [List.length_nil] at hlen
    split_ifs at hlen <;> omega
  | cons g gs =>
    have hnonneg := h.nonneg
    have hcast : uint32Cast (last + 1) = last + 1 := if_neg (by omega)
    refine ⟨g, gs, rfl, ⟨by omega, ?_, ?_⟩, ?_⟩
    · simp only
      congr 1; ring
    · simp only [List.length_cons] at hlen ⊢
      push_cast at hlen
      rw [← hlen]; ring
    · intro σ func s
      have he := h.entries
      rw [entriesOf, add_assoc] at he
      rw [consumeChannelRecordsForPacket, he, hcast]
      simp only [Bool.not_true, ne_eq, not_true_eq_false, decide_false, Bool.or_self, Bool.false_eq_true, if_false]
      rw [show (1 : ℤ) + 1 = 2 from rfl, consumeLoop_group]

end ConnectionChannelRecord

end RudpEngine
