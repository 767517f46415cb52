import RudpEngine.HandshakeAgreement
import Mathlib.Data.List.Nodup
import Mathlib.Data.List.Range

/-!
# The cursor of the time wheel

Once a second the tick advances `CacheCleanupIndex` and sweeps that bucket of
the pending connections. The bucket that new ones are filed into is to advance
with it, but the atomic addition adds the next value where it should add one:
from 59 it adds zero.
-/

namespace RudpEngine

variable {Double Addr : Type}

/-- The housekeeping of a server: `swept` are the buckets swept so far, `filed` has an entry for every new pending
connection, with the number of updates before it and its bucket. -/
structure TimeWheel (Double Addr : Type) where
  processor : ServerProcessor Double Addr
  lastCacheCleanupTime : ℤ
  cacheCleanupIndex : ℕ
  swept : List ℕ
  filed : List (ℕ × ℕ)

inductive TimeWheelAction (Double Addr : Type)
  | tickHousekeeping (now : ℤ) (elapsedTimeSec : Double)
  | incomingConnectionless (now : ℕ → Double) (key : BitVec 64) (address : Addr) (data : HandshakeData Double)
  | incoming (now : Double) (key : BitVec 64) (data : HandshakeData Double)

namespace TimeWheel

section
variable [DoubleOps Double] (setting : HandshakeSetting Double Addr) (s : TimeWheel Double Addr)

/-- `TickHousekeeping`, what it does once a second; times of the clock are in nanoseconds. -/
def tickHousekeeping (now : ℤ) (elapsedTimeSec : Double) : TimeWheel Double Addr :=
  if 1000000000 ≤ now - s.lastCacheCleanupTime then
    let cacheCleanupIndex := (s.cacheCleanupIndex + 1) % 60
    { s with
      lastCacheCleanupTime := now
      cacheCleanupIndex := cacheCleanupIndex
      processor := s.processor.connectionsUpdate setting cacheCleanupIndex elapsedTimeSec
      swept := s.swept ++ [cacheCleanupIndex] }
  else s

/-- The bucket of a connection that `IncomingConnectionless` has not seen before. -/
def newBucket? (now : ℕ → Double) (key : BitVec 64) (address : Addr) (data : HandshakeData Double) : Option ℕ :=
  if data.sessionID = expectedSessionId ∧ (s.processor.remoteManager.findConnection key).isNone then
    some (s.processor.findOrAddConnection setting (now 0) key address).1.1
  else none

def next : TimeWheelAction Double Addr → TimeWheel Double Addr
  | .tickHousekeeping now elapsedTimeSec => s.tickHousekeeping setting now elapsedTimeSec
  | .incomingConnectionless now key address data =>
    { s with
      processor := (s.processor.incomingConnectionless setting now key address data).1
      filed := s.filed ++ ((s.newBucket? setting now key address data).map fun bucket => (s.swept.length, bucket)).toList }
  | .incoming now key data => { s with processor := (s.processor.incoming setting now key data).1 }

end

/-- The wheel turns: behind `n` updates new connections go into bucket `59 + n` modulo 60, those of 60 consecutive
updates into different ones, and every bucket is swept once in 60 updates. -/
structure Turns (s : TimeWheel Double Addr) : Prop where
  cursor : s.processor.clientTimeId.toNat = (59 + s.swept.length) % 60
  bucket : ∀ f ∈ s.filed, f.2 = (59 + f.1) % 60
  valid : ∀ f ∈ s.filed, f.2 < 60
  spread : ∀ f ∈ s.filed, ∀ f' ∈ s.filed, f.1 < f'.1 → f'.1 < f.1 + 60 → f.2 ≠ f'.2
  swept : ∀ i, i + 60 ≤ s.swept.length → ∀ bucket < 60, ((s.swept.drop i).take 60).count bucket = 1

end TimeWheel

def timeWheelSystem [DoubleOps Double] (setting : HandshakeSetting Double Addr) :
    System (TimeWheel Double Addr) (TimeWheelAction Double Addr) where
  init s := (∃ driver, s.processor = .new driver) ∧ s.cacheCleanupIndex = 0 ∧ s.swept = [] ∧ s.filed = []
  next := TimeWheel.next setting

/-! ## The cursor stands still -/

namespace ServerProcessor

variable [DoubleOps Double] {setting : HandshakeSetting Double Addr} (s : ServerProcessor Double Addr)

omit [DoubleOps Double] in
theorem findOrAddConnection_clientTimeId (now : Double) (key : BitVec 64) (address : Addr) :
    (s.findOrAddConnection setting now key address).2.clientTimeId = s.clientTimeId := by
  unfold findOrAddConnection
  split <;> rfl

theorem incomingConnectionless_clientTimeId (now : ℕ → Double) (key : BitVec 64) (address : Addr)
    (data : HandshakeData Double) :
    (s.incomingConnectionless setting now key address data).1.clientTimeId = s.clientTimeId := by
  rcases s.incomingConnectionless_cases setting now key address data with h | ⟨timeId, p, s', hfound, h⟩
  · rw [h]
  · have hs' : s'.clientTimeId = s.clientTimeId := by
      have : (s.findOrAddConnection setting (now 0) key address).2.clientTimeId = s.clientTimeId :=
        s.findOrAddConnection_clientTimeId (now 0) key address
      rwa [hfound] at this
    rcases h with h | h | ⟨-, h⟩ <;> rw [h] <;> exact hs'

theorem incoming_clientTimeId (now : Double) (key : BitVec 64) (data : HandshakeData Double) :
    (s.incoming setting now key data).1.clientTimeId = s.clientTimeId := by
  unfold incoming
  split
  · rfl
  · simp only
    split_ifs <;> rfl

/-- From 59 the cursor advances by zero. -/
theorem connectionsUpdate_clientTimeId {s : ServerProcessor Double Addr} (h : s.clientTimeId = 59) (timeId : ℕ)
    (now : Double) : (s.connectionsUpdate setting timeId now).clientTimeId = 59 := by
  simp [connectionsUpdate, h]

end ServerProcessor

namespace TimeWheel

variable [DoubleOps Double] {setting : HandshakeSetting Double Addr} {s : TimeWheel Double Addr}

structure Stands (s : TimeWheel Double Addr) : Prop where
  clientTimeId : s.processor.clientTimeId = 59
  cacheCleanupIndex : s.cacheCleanupIndex = s.swept.length % 60
  swept : s.swept = (List.range s.swept.length).map fun i => (i + 1) % 60
  filed : ∀ f ∈ s.filed, f.2 = 59

theorem Stands.tickHousekeeping (h : s.Stands) (now : ℤ) (elapsedTimeSec : Double) :
    (s.tickHousekeeping setting now elapsedTimeSec).Stands := by
  unfold TimeWheel.tickHousekeeping
  split
  · have hindex : (s.cacheCleanupIndex + 1) % 60 = (s.swept.length + 1) % 60 := by
      rw [h.cacheCleanupIndex, Nat.mod_add_mod]
    refine ⟨s.processor.connectionsUpdate_clientTimeId h.clientTimeId _ _, ?_, ?_, h.filed⟩
    · simp [hindex]
    · simp only [hindex, List.length_append, List.length_singleton]
      rw [List.range_succ, List.map_append, ← h.swept, List.map_singleton]
  · exact h

omit [DoubleOps Double] in
theorem newBucket?_eq {now : ℕ → Double} {key : BitVec 64} {address : Addr} {data : HandshakeData Double} {bucket : ℕ}
    (h : s.newBucket? setting now key address data = some bucket) : bucket = s.processor.clientTimeId.toNat := by
  unfold newBucket? at h
  split at h
  · rename_i hnew
    cases h
    unfold ServerProcessor.findOrAddConnection
    rw [Option.isNone_iff_eq_none.mp hnew.2]
  · cases h

theorem Stands.next (h : s.Stands) (a : TimeWheelAction Double Addr) : (s.next setting a).Stands := by
  cases a with
  | tickHousekeeping now elapsedTimeSec => exact h.tickHousekeeping now elapsedTimeSec
  | incomingConnectionless now key address data =>
    refine ⟨(s.processor.incomingConnectionless_clientTimeId now key address data).trans h.clientTimeId,
      h.cacheCleanupIndex, h.swept, fun f hf => ?_⟩
    rcases List.mem_append.mp hf with hf | hf
    · exact h.filed f hf
    · obtain ⟨bucket, hbucket, rfl⟩ := Option.map_eq_some_iff.mp (Option.mem_toList.mp hf)
      rw [newBucket?_eq hbucket, h.clientTimeId]
      rfl
  | incoming now key data =>
    exact ⟨(s.processor.incoming_clientTimeId now key data).trans h.clientTimeId, h.cacheCleanupIndex, h.swept, h.filed⟩

theorem stands_of_reachable (h : (timeWheelSystem setting).Reachable s) : s.Stands := by
  refine h.invariant ?_ fun s a hs _ => hs.next a
  rintro s ⟨⟨driver, hprocessor⟩, hindex, hswept, hfiled⟩
  exact ⟨by rw [hprocessor]; rfl, by simp [hindex, hswept], by simp [hswept], by simp [hfiled]⟩

theorem count_mod_range (i : ℕ) {bucket : ℕ} (h : bucket < 60) :
    ((List.range' i 60).map fun k => (k + 1) % 60).count bucket = 1 := by
  refine List.count_eq_one_of_mem ?_ ?_
  · refine List.Nodup.map_on (fun k hk k' hk' heq => ?_) List.nodup_range'
    simp only [List.mem_range'_1] at hk hk'
    omega
  · refine List.mem_map.mpr ⟨i + (bucket + 59 * (i + 1)) % 60, ?_, ?_⟩
    · simp only [List.mem_range'_1]
      omega
    · omega

/-- The wheel turns exactly if the updates so far, and those before each connection that was filed, are a multiple of
60. -/
theorem wheel_turns_iff (h : (timeWheelSystem setting).Reachable s) :
    s.Turns ↔ 60 ∣ s.swept.length ∧ ∀ f ∈ s.filed, 60 ∣ f.1 := by
  have hs := stands_of_reachable h
  have hcursor : s.processor.clientTimeId.toNat = 59 := by rw [hs.clientTimeId]; rfl
  constructor
  · intro hturns
    have hnow := hturns.cursor
    refine ⟨by omega, fun f hf => ?_⟩
    have hbucket := hturns.bucket f hf
    rw [hs.filed f hf] at hbucket
    omega
  · rintro ⟨hlength, hmul⟩
    refine ⟨by omega, fun f hf => ?_, fun f hf => ?_, fun f hf f' hf' hlt hnear => ?_, fun i hi bucket hbucket => ?_⟩
    · have := hmul f hf
      rw [hs.filed f hf]
      omega
    · rw [hs.filed f hf]
      decide
    · have h1 := hmul f hf
      have h2 := hmul f' hf'
      omega
    · rw [hs.swept, ← List.map_drop, ← List.map_take, List.range_eq_range', List.drop_range',
        List.take_range'_of_length_ge (by omega)]
      simpa using count_mod_range i hbucket

def started : TimeWheel ℤ (BitVec 64) := ⟨.new (.initListen 2 none), 0, 0, [], []⟩

theorem reachable_updates (actions : List (TimeWheelAction ℤ (BitVec 64))) :
    (timeWheelSystem HandshakeRun.clockSetting).Reachable
      ((timeWheelSystem HandshakeRun.clockSetting).runFrom started actions) :=
  System.reachable_runFrom
    (.init (show (timeWheelSystem HandshakeRun.clockSetting).init started from ⟨⟨_, rfl⟩, rfl, rfl, rfl⟩)) _

def updated : TimeWheel ℤ (BitVec 64) :=
  (timeWheelSystem HandshakeRun.clockSetting).runFrom started [.tickHousekeeping (10 ^ 9) 1]

theorem wheel_turns_iff_updated : updated.Turns ↔ 60 ∣ updated.swept.length ∧ ∀ f ∈ updated.filed, 60 ∣ f.1 :=
  wheel_turns_iff (reachable_updates [.tickHousekeeping (10 ^ 9) 1])

theorem wheel_stands_still : ¬ ∀ s : TimeWheel ℤ (BitVec 64),
    (timeWheelSystem HandshakeRun.clockSetting).Reachable s → s.Turns := by
  intro h
  have hreach := reachable_updates [.tickHousekeeping (10 ^ 9) 1]
  have hcursor := (h _ hreach).cursor
  have hlength : ((timeWheelSystem HandshakeRun.clockSetting).runFrom started
      [.tickHousekeeping (10 ^ 9) 1]).swept.length = 1 := rfl
  rw [hlength, (stands_of_reachable hreach).clientTimeId] at hcursor
  exact absurd hcursor (by decide)

end TimeWheel

end RudpEngine
