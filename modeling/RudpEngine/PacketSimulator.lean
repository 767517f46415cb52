import Mathlib.Data.List.Induction
import Mathlib.Data.List.Perm.Basic
import Mathlib.Data.Int.Order.Basic
import Mathlib.Tactic.Common

/-!
# The packet simulator

A datagram that comes in may be dropped or doubled, and waits in a window out
of which a full window releases one datagram for each call. What traffic does
not push out, the tick flushes once it has been still. The web controls set new
settings at any time.
-/

namespace RudpEngine

structure PacketSimulationSettings where
  dropPermille : ℕ := 0
  duplicatePermille : ℕ := 0
  reorderWindowSize : ℕ := 0
  reorderMaxHoldMs : ℕ := 50
deriving DecidableEq, Repr

/-- What the random engine yields in one call. -/
structure SimulatorRolls where
  drop : Fin 1000
  duplicate : Fin 1000
  /-- `IndexDist(0, max)`. -/
  index : (max : ℕ) → Fin (max + 1)

/-- A reader is a `shared_ptr`; a time is in nanoseconds. -/
structure PacketSimulator (Reader : Type) where
  settings : PacketSimulationSettings
  reorderWindow : List Reader
  lastWindowActivity : ℤ

def rollPermille (permille : ℕ) (roll : Fin 1000) : Bool := if permille = 0 then false else roll < permille

namespace SimulatorRolls

variable (rolls : SimulatorRolls) (settings : PacketSimulationSettings)

def Drops : Prop := rollPermille settings.dropPermille rolls.drop = true

def Doubles : Prop := ¬ rolls.Drops settings ∧ rollPermille settings.duplicatePermille rolls.duplicate = true

instance : Decidable (rolls.Drops settings) := inferInstanceAs (Decidable (_ = _))

instance : Decidable (rolls.Doubles settings) := inferInstanceAs (Decidable (_ ∧ _))

def zero : SimulatorRolls := ⟨0, 0, fun _ => 0⟩

end SimulatorRolls

namespace PacketSimulator

variable {Reader : Type} (s : PacketSimulator Reader)

def new (settings : PacketSimulationSettings) : PacketSimulator Reader := ⟨settings, [], 0⟩

def reconfigure (settings : PacketSimulationSettings) : PacketSimulator Reader := { s with settings := settings }

def pick (i : ℕ) : List Reader × PacketSimulator Reader :=
  (s.reorderWindow[i]?.toList, { s with reorderWindow := s.reorderWindow.eraseIdx i })

def process (received : Reader) (now : ℤ) (rolls : SimulatorRolls) : List Reader × PacketSimulator Reader :=
  if rollPermille s.settings.dropPermille rolls.drop then ([], s)
  else
    let toDispatch :=
      if rollPermille s.settings.duplicatePermille rolls.duplicate then [received, received] else [received]
    if s.settings.reorderWindowSize = 0 then (toDispatch, s)
    else
      let s := { s with lastWindowActivity := now, reorderWindow := s.reorderWindow ++ toDispatch }
      if s.reorderWindow.length < s.settings.reorderWindowSize then ([], s)
      else s.pick (rolls.index (s.reorderWindow.length - 1))

def flushStale (now : ℤ) : List Reader × PacketSimulator Reader :=
  if s.reorderWindow = [] ∨ s.settings.reorderWindowSize = 0 then ([], s)
  else
    let elapsedMs := (now - s.lastWindowActivity).tdiv 1000000
    if elapsedMs < s.settings.reorderMaxHoldMs then ([], s)
    else (s.reorderWindow, { s with reorderWindow := [] })

end PacketSimulator

inductive SimulatorTraffic (Reader : Type)
  | process (received : Reader) (now : ℤ) (rolls : SimulatorRolls)
  | flushStale (now : ℤ)

inductive SimulatorCall (Reader : Type)
  | traffic (call : SimulatorTraffic Reader)
  | reconfigure (settings : PacketSimulationSettings)

structure SimulatorRun (Reader : Type) where
  simulator : PacketSimulator Reader
  released : List Reader

namespace SimulatorRun

variable {Reader : Type}

def new (settings : PacketSimulationSettings) : SimulatorRun Reader := ⟨.new settings, []⟩

def traffic (run : SimulatorRun Reader) : SimulatorTraffic Reader → SimulatorRun Reader
  | .process received now rolls =>
    let (result, simulator) := run.simulator.process received now rolls
    ⟨simulator, run.released ++ result⟩
  | .flushStale now =>
    let (result, simulator) := run.simulator.flushStale now
    ⟨simulator, run.released ++ result⟩

def next (run : SimulatorRun Reader) : SimulatorCall Reader → SimulatorRun Reader
  | .traffic call => run.traffic call
  | .reconfigure settings => { run with simulator := run.simulator.reconfigure settings }

def behind (settings : PacketSimulationSettings) (calls : List (SimulatorTraffic Reader)) : SimulatorRun Reader :=
  calls.foldl traffic (new settings)

end SimulatorRun

namespace SimulatorTraffic

variable {Reader : Type} (settings : PacketSimulationSettings)

def received : SimulatorTraffic Reader → List Reader
  | .process received _ rolls => if rolls.Doubles settings then [received, received] else [received]
  | .flushStale _ => []

def dropped : SimulatorTraffic Reader → List Reader
  | .process received _ rolls => if rolls.Drops settings then [received] else []
  | .flushStale _ => []

/-- Behind each `Process` call the window is below its size, and nothing is lost or made up. -/
structure Bounded (calls : List (SimulatorTraffic Reader)) : Prop where
  window : ∀ before received now rolls, before ++ [.process received now rolls] <+: calls →
    (SimulatorRun.behind settings (before ++ [.process received now rolls])).simulator.reorderWindow.length <
      settings.reorderWindowSize
  conserved : (calls.flatMap (received settings)).Perm (calls.flatMap (dropped settings) ++
    (SimulatorRun.behind settings calls).released ++ (SimulatorRun.behind settings calls).simulator.reorderWindow)

def DoublesFit (calls : List (SimulatorTraffic Reader)) : Prop :=
  ∀ before received now rolls, before ++ [.process received now rolls] <+: calls → rolls.Doubles settings →
    (SimulatorRun.behind settings before).simulator.reorderWindow.length + 2 ≤ settings.reorderWindowSize

end SimulatorTraffic

/-! ## One call -/

namespace PacketSimulator

variable {Reader : Type} (s : PacketSimulator Reader) (received : Reader) (now : ℤ) (rolls : SimulatorRolls)

def entering (settings : PacketSimulationSettings) (received : Reader) (rolls : SimulatorRolls) : List Reader :=
  if rolls.Drops settings then [] else if rolls.Doubles settings then [received, received] else [received]

theorem pick_perm {i : ℕ} (h : i < s.reorderWindow.length) :
    ((s.pick i).1 ++ (s.pick i).2.reorderWindow).Perm s.reorderWindow := by
  rw [pick, List.getElem?_eq_getElem h]
  exact List.getElem_cons_eraseIdx_perm h

/-- The window takes in what enters and, once it is full, releases one. -/
theorem process_cases :
    (s.process received now rolls).2.settings = s.settings ∧
    ((s.process received now rolls).1 ++ (s.process received now rolls).2.reorderWindow).Perm
      (s.reorderWindow ++ entering s.settings received rolls) ∧
    (s.settings.reorderWindowSize ≠ 0 → ¬ rolls.Drops s.settings →
      (s.process received now rolls).2.reorderWindow.length =
        if s.reorderWindow.length + (entering s.settings received rolls).length < s.settings.reorderWindowSize then
          s.reorderWindow.length + (entering s.settings received rolls).length
        else s.reorderWindow.length + (entering s.settings received rolls).length - 1) := by
  unfold process
  by_cases hdrop : rolls.Drops s.settings
  · have hroll : rollPermille s.settings.dropPermille rolls.drop = true := hdrop
    simp [hroll, entering, hdrop]
  have hroll : ¬ rollPermille s.settings.dropPermille rolls.drop = true := hdrop
  have henter : entering s.settings received rolls =
      if rollPermille s.settings.duplicatePermille rolls.duplicate then [received, received] else [received] := by
    simp [entering, hdrop, SimulatorRolls.Doubles]
  rw [if_neg hroll, ← henter]
  by_cases hsize : s.settings.reorderWindowSize = 0
  · rw [if_pos hsize]
    exact ⟨rfl, List.perm_append_comm, fun h => absurd hsize h⟩
  rw [if_neg hsize]
  have hlength : s.reorderWindow.length + (entering s.settings received rolls).length =
      (s.reorderWindow ++ entering s.settings received rolls).length := List.length_append.symm
  have hpos : 0 < (entering s.settings received rolls).length := by
    rw [henter]
    split <;> simp
  rw [hlength]
  by_cases hlt : (s.reorderWindow ++ entering s.settings received rolls).length < s.settings.reorderWindowSize
  · rw [if_pos hlt, if_pos hlt]
    exact ⟨rfl, .refl _, fun _ _ => rfl⟩
  · rw [if_neg hlt, if_neg hlt]
    have hindex : (rolls.index ((s.reorderWindow ++ entering s.settings received rolls).length - 1) : ℕ) <
        (s.reorderWindow ++ entering s.settings received rolls).length := by
      have := (rolls.index ((s.reorderWindow ++ entering s.settings received rolls).length - 1)).isLt
      omega
    exact ⟨rfl, pick_perm _ hindex, fun _ _ => List.length_eraseIdx_of_lt hindex⟩

theorem flushStale_cases :
    s.flushStale now = ([], s) ∨ s.flushStale now = (s.reorderWindow, { s with reorderWindow := [] }) := by
  unfold flushStale
  split
  · exact .inl rfl
  · simp only
    split
    · exact .inl rfl
    · exact .inr rfl

end PacketSimulator

/-! ## The window under one setting -/

namespace SimulatorRun

variable {Reader : Type} {settings : PacketSimulationSettings} {calls : List (SimulatorTraffic Reader)}
  {call : SimulatorTraffic Reader}

theorem behind_concat : behind settings (calls ++ [call]) = (behind settings calls).traffic call := by simp [behind]

theorem behind_settings (calls : List (SimulatorTraffic Reader)) : (behind settings calls).simulator.settings = settings := by
  induction calls using List.reverseRecOn with
  | nil => rfl
  | append_singleton calls call ih =>
    rw [behind_concat]
    cases call with
    | process received now rolls => exact ((behind settings calls).simulator.process_cases received now rolls).1.trans ih
    | flushStale now =>
      simp only [traffic]
      rcases (behind settings calls).simulator.flushStale_cases now with h | h <;> rw [h] <;> exact ih

end SimulatorRun

namespace SimulatorTraffic

variable {Reader : Type} {settings : PacketSimulationSettings}

open PacketSimulator SimulatorRun

theorem received_eq (received : Reader) (now : ℤ) (rolls : SimulatorRolls) :
    (process received now rolls).received settings =
      (process received now rolls).dropped settings ++ entering settings received rolls := by
  simp only [SimulatorTraffic.received, dropped, entering]
  by_cases hdrop : rolls.Drops settings
  · have hdouble : ¬ rolls.Doubles settings := fun h => h.1 hdrop
    simp [hdrop, hdouble]
  · simp [hdrop]

theorem received_perm (calls : List (SimulatorTraffic Reader)) :
    (calls.flatMap (received settings)).Perm (calls.flatMap (dropped settings) ++ (behind settings calls).released ++
      (behind settings calls).simulator.reorderWindow) := by
  induction calls using List.reverseRecOn with
  | nil => exact .refl _
  | append_singleton calls call ih =>
    rw [behind_concat, List.flatMap_append, List.flatMap_append]
    simp only [List.flatMap_cons, List.flatMap_nil, List.append_nil]
    cases call with
    | process r now rolls =>
      obtain ⟨-, hperm, -⟩ := (behind settings calls).simulator.process_cases r now rolls
      rw [behind_settings] at hperm
      rw [received_eq]
      simp only [traffic]
      generalize (behind settings calls).simulator.process r now rolls = result at hperm ⊢
      generalize (process r now rolls).dropped settings = lost
      classical
      rw [List.perm_iff_count] at ih hperm ⊢
      intro a
      have h1 := ih a
      have h2 := hperm a
      simp only [List.count_append] at h1 h2 ⊢
      omega
    | flushStale now =>
      simp only [received, dropped, traffic, List.append_nil]
      rcases (behind settings calls).simulator.flushStale_cases now with h | h <;> rw [h]
      · simpa using ih
      · simpa using ih

theorem length_entering (received : Reader) {rolls : SimulatorRolls} (h : ¬ rolls.Drops settings) :
    (entering settings received rolls).length = if rolls.Doubles settings then 2 else 1 := by
  rw [entering, if_neg h]
  split <;> rfl

/-- A call keeps the window below its size unless it doubles a datagram there is no room for. -/
theorem process_window {s : PacketSimulator Reader} (hsize : 1 ≤ s.settings.reorderWindowSize)
    (h : s.reorderWindow.length < s.settings.reorderWindowSize) (received : Reader) (now : ℤ) (rolls : SimulatorRolls) :
    (s.process received now rolls).2.reorderWindow.length < s.settings.reorderWindowSize ↔
      (rolls.Doubles s.settings → s.reorderWindow.length + 2 ≤ s.settings.reorderWindowSize) := by
  by_cases hdrop : rolls.Drops s.settings
  · have hdouble : ¬ rolls.Doubles s.settings := fun h => h.1 hdrop
    have hroll : rollPermille s.settings.dropPermille rolls.drop = true := hdrop
    simp [PacketSimulator.process, hroll, hdouble, h]
  · rw [(s.process_cases received now rolls).2.2 (by omega) hdrop, length_entering received hdrop]
    by_cases hdouble : rolls.Doubles s.settings
    · rw [if_pos hdouble, forall_prop_of_true hdouble]
      by_cases hlt : s.reorderWindow.length + 2 < s.settings.reorderWindowSize
      · rw [if_pos hlt]
        omega
      · rw [if_neg hlt]
        omega
    · rw [if_neg hdouble, iff_true_right fun h => absurd h hdouble]
      by_cases hlt : s.reorderWindow.length + 1 < s.settings.reorderWindowSize
      · rwa [if_pos hlt]
      · rwa [if_neg hlt]

theorem flushStale_window {s : PacketSimulator Reader} (now : ℤ) :
    (s.flushStale now).2.reorderWindow.length ≤ s.reorderWindow.length := by
  rcases s.flushStale_cases now with h | h
  · exact Nat.le_of_eq (congrArg (fun result => result.2.reorderWindow.length) h)
  · rw [h]
    exact Nat.zero_le _

/-- If each `Process` call keeps the window below its size, all traffic does. -/
theorem window_lt (hsize : 1 ≤ settings.reorderWindowSize) {calls : List (SimulatorTraffic Reader)}
    (h : ∀ before received now rolls, before ++ [process received now rolls] <+: calls →
      (behind settings before).simulator.reorderWindow.length < settings.reorderWindowSize →
        (behind settings (before ++ [process received now rolls])).simulator.reorderWindow.length <
          settings.reorderWindowSize) :
    (behind settings calls).simulator.reorderWindow.length < settings.reorderWindowSize := by
  induction calls using List.reverseRecOn with
  | nil => exact hsize
  | append_singleton calls call ih =>
    have hcalls := ih fun before received now rolls hp => h before received now rolls (hp.trans (List.prefix_append _ _))
    cases call with
    | process received now rolls => exact h calls received now rolls (List.prefix_refl _) hcalls
    | flushStale now =>
      rw [behind_concat]
      exact Nat.lt_of_le_of_lt (flushStale_window now) hcalls

/-- The window stays below its size exactly if no datagram is doubled that it has no room for. -/
theorem window_bounded_iff (hsize : 1 ≤ settings.reorderWindowSize) (calls : List (SimulatorTraffic Reader)) :
    Bounded settings calls ↔ DoublesFit settings calls := by
  have hstep : ∀ before (received : Reader) now rolls,
      (behind settings before).simulator.reorderWindow.length < settings.reorderWindowSize →
      ((behind settings (before ++ [process received now rolls])).simulator.reorderWindow.length <
          settings.reorderWindowSize ↔ (rolls.Doubles settings →
            (behind settings before).simulator.reorderWindow.length + 2 ≤ settings.reorderWindowSize)) := by
    intro before received now rolls hlt
    have hsettings : (behind settings before).simulator.settings = settings := behind_settings before
    rw [behind_concat]
    have hwindow := process_window (s := (behind settings before).simulator) (by rwa [hsettings]) (by rwa [hsettings])
      received now rolls
    rwa [hsettings] at hwindow
  constructor
  · rintro ⟨hwindow, -⟩ before received now rolls hp
    have hbefore : before <+: calls := (List.prefix_append _ _).trans hp
    exact (hstep before received now rolls (window_lt hsize fun before' received' now' rolls' hp' _ =>
      hwindow before' received' now' rolls' (hp'.trans hbefore))).mp (hwindow before received now rolls hp)
  · intro hfit
    refine ⟨fun before received now rolls hp => ?_, received_perm calls⟩
    refine window_lt hsize fun before' received' now' rolls' hp' hlt => ?_
    exact (hstep before' received' now' rolls' hlt).mpr (hfit before' received' now' rolls' (hp'.trans hp))

def doubledFirst : List (SimulatorTraffic ℕ) := [process 7 0 .zero, flushStale 1]

theorem window_bounded_iff_two : Bounded ⟨0, 1, 2, 50⟩ doubledFirst ↔ DoublesFit ⟨0, 1, 2, 50⟩ doubledFirst :=
  window_bounded_iff (by decide) doubledFirst

/-- A window of one datagram is left with one. -/
theorem doubled_overfills : ¬ ∀ (settings : PacketSimulationSettings) (calls : List (SimulatorTraffic ℕ)),
    1 ≤ settings.reorderWindowSize → Bounded settings calls := by
  intro h
  have hwindow := (h ⟨0, 1, 1, 50⟩ doubledFirst (by decide)).window [] 7 0 .zero (by simp [doubledFirst])
  exact absurd hwindow (by decide)

end SimulatorTraffic

/-! ## A window whose settings change -/

namespace PacketSimulator

variable {Reader : Type} (s : PacketSimulator Reader)

/-- The window has been still for `ReorderMaxHoldMs`. -/
def Idle (now : ℤ) : Prop := s.lastWindowActivity + s.settings.reorderMaxHoldMs * 1000000 ≤ now

def Flushes (now : ℤ) : Prop := (s.flushStale now).1 = s.reorderWindow ∧ (s.flushStale now).2.reorderWindow = []

variable {s}

theorem Idle.flushes_iff {now : ℤ} (h : s.Idle now) :
    s.Flushes now ↔ (s.settings.reorderWindowSize = 0 → s.reorderWindow = []) := by
  unfold Flushes flushStale
  by_cases hsize : s.settings.reorderWindowSize = 0
  · simp only [hsize, or_true, if_true, forall_const]
    exact ⟨fun h => h.2, fun h => ⟨h.symm, h⟩⟩
  rw [iff_true_right fun h => absurd h hsize]
  by_cases hempty : s.reorderWindow = []
  · simp [hempty]
  have helapsed : ¬ (now - s.lastWindowActivity).tdiv 1000000 < s.settings.reorderMaxHoldMs := by
    unfold Idle at h
    rw [not_lt, Int.tdiv_eq_ediv_of_nonneg (by omega)]
    omega
  rw [if_neg (not_or.mpr ⟨hempty, hsize⟩)]
  simp only [if_neg helapsed, and_self]

end PacketSimulator

namespace SimulatorCall

variable {Reader : Type}

/-- The run behind any calls, the settings of the constructor first. -/
def behind (settings : PacketSimulationSettings) (calls : List (SimulatorCall Reader)) : SimulatorRun Reader :=
  calls.foldl SimulatorRun.next (.new settings)

def StrandsNothing (settings : PacketSimulationSettings) (calls : List (SimulatorCall Reader)) : Prop :=
  ∀ before now, before ++ [.traffic (.flushStale now)] <+: calls → (behind settings before).simulator.Idle now →
    (behind settings before).simulator.Flushes now

/-- No such flush finds datagrams in the window of a simulator that no longer reorders. -/
def FlushesReordering (settings : PacketSimulationSettings) (calls : List (SimulatorCall Reader)) : Prop :=
  ∀ before now, before ++ [.traffic (.flushStale now)] <+: calls → (behind settings before).simulator.Idle now →
    (behind settings before).simulator.settings.reorderWindowSize = 0 →
      (behind settings before).simulator.reorderWindow = []

theorem strands_nothing_iff (settings : PacketSimulationSettings) (calls : List (SimulatorCall Reader)) :
    StrandsNothing settings calls ↔ FlushesReordering settings calls := by
  refine forall_congr' fun before => forall_congr' fun now => imp_congr_right fun _ => ?_
  exact forall_congr' fun hidle => hidle.flushes_iff

/-- Two datagrams wait when the size is set to zero. -/
theorem reconfigured_strands : ¬ ∀ (settings : PacketSimulationSettings) (calls : List (SimulatorCall ℕ)),
    StrandsNothing settings calls := by
  intro h
  let before : List (SimulatorCall ℕ) :=
    [.traffic (.process 7 0 .zero), .traffic (.process 8 0 .zero), .reconfigure ⟨0, 0, 0, 50⟩]
  have hidle : (behind ⟨0, 0, 3, 50⟩ before).simulator.Idle (10 ^ 9) := by
    unfold PacketSimulator.Idle
    decide
  have hflush := h ⟨0, 0, 3, 50⟩ (before ++ [.traffic (.flushStale (10 ^ 9))]) before (10 ^ 9) (List.prefix_refl _) hidle
  exact absurd hflush.2 (by decide)

end SimulatorCall

end RudpEngine
