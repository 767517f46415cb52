import RudpEngine.AckedContent

/-!
# The handler table of the control protocol

A message of the control channel selects its handler by its id, two bytes that
the peer chose. The table has a slot less than there are ids.
-/

namespace RudpEngine

inductive EControlProtocol
  | INVALID
  | NMT_Hello
  | NMT_Challenge
  | NMT_Login
  | NMT_Welcome
  | NMT_Join
  | NMT_NetSpeed
  | NMT_Failure
  deriving DecidableEq

namespace EControlProtocol

def toId : EControlProtocol → ℕ
  | INVALID => 0
  | NMT_Hello => 1
  | NMT_Challenge => 2
  | NMT_Login => 3
  | NMT_Welcome => 4
  | NMT_Join => 5
  | NMT_NetSpeed => 6
  | NMT_Failure => 7

end EControlProtocol

inductive ControlProtocolFunc
  | Protocol_INVALID
  | Protocol_NMT_Hello
  | Protocol_NMT_Challenge
  | Protocol_NMT_Login
  | Protocol_NMT_Welcome
  | Protocol_NMT_Join
  | Protocol_NMT_NetSpeed
  | Protocol_NMT_Failure
  deriving DecidableEq

def uint16Max : ℕ := 65535

/-- `ProtocolFuncMap`; a slot that was not assigned has no function. -/
abbrev ProtocolFuncMap := List (Option ControlProtocolFunc)

namespace ProtocolFuncMap

def new : ProtocolFuncMap := List.replicate uint16Max none

/-- The loop at the head of both `Init`. -/
def fillInvalid (bound : ℕ) (map : ProtocolFuncMap) : ProtocolFuncMap :=
  (List.range bound).foldl (fun map i => map.set i (some .Protocol_INVALID)) map

def registerProtocolHandler (map : ProtocolFuncMap) (id : EControlProtocol) (func : ControlProtocolFunc) : ProtocolFuncMap :=
  map.set id.toId (some func)

end ProtocolFuncMap

open ProtocolFuncMap

def ControlProtocolServerHandler.init : ProtocolFuncMap :=
  ((((((ProtocolFuncMap.new.fillInvalid uint16Max).registerProtocolHandler .NMT_Hello
    .Protocol_NMT_Hello).registerProtocolHandler .NMT_Login .Protocol_NMT_Login).registerProtocolHandler .NMT_Join
    .Protocol_NMT_Join).registerProtocolHandler .NMT_NetSpeed .Protocol_NMT_NetSpeed).registerProtocolHandler .NMT_Failure
    .Protocol_NMT_Failure)

def ControlProtocolClientHandler.init : ProtocolFuncMap :=
  (((((ProtocolFuncMap.new.fillInvalid uint16Max).registerProtocolHandler .NMT_Challenge
    .Protocol_NMT_Challenge).registerProtocolHandler .NMT_Welcome .Protocol_NMT_Welcome).registerProtocolHandler .NMT_NetSpeed
    .Protocol_NMT_NetSpeed).registerProtocolHandler .NMT_Failure .Protocol_NMT_Failure)

/-- One call through the table; there is no function where the index is outside or its slot is empty. -/
structure ProtocolCall where
  func : Option ControlProtocolFunc
  connectionId : ℕ
  buffer : List Byte
  messageType : ℕ
  messageSize : ℕ

/-- `ControlProtocol`, the same for both handlers. -/
def controlProtocol (map : ProtocolFuncMap) (connectionId : ℕ) (buffer : List Byte) (messageType messageSize : ℕ) :
    ProtocolCall :=
  ⟨(map[messageType]?).join, connectionId, buffer, messageType, messageSize⟩

def dispatchPendingMessage (map : ProtocolFuncMap) (playerId : ℕ) (pending : List RecvMessageReader) : List ProtocolCall :=
  pending.map fun message => controlProtocol map playerId message.view message.messageId (message.view.length % 2 ^ 16)

/-! ## The slots -/

namespace ProtocolFuncMap

variable (map : ProtocolFuncMap)

theorem length_fillInvalid (bound : ℕ) : (map.fillInvalid bound).length = map.length := by
  unfold fillInvalid
  induction bound with
  | zero => rfl
  | succ n ih => rw [List.range_succ, List.foldl_append, List.foldl_cons, List.foldl_nil, List.length_set, ih]

theorem getElem?_fillInvalid (bound k : ℕ) : (map.fillInvalid bound)[k]? =
    if k < bound ∧ k < map.length then some (some .Protocol_INVALID) else map[k]? := by
  induction bound with
  | zero => rw [if_neg (by omega)]; rfl
  | succ n ih =>
    have hstep : map.fillInvalid (n + 1) = (map.fillInvalid n).set n (some .Protocol_INVALID) := by
      unfold fillInvalid
      rw [List.range_succ, List.foldl_append, List.foldl_cons, List.foldl_nil]
    rw [hstep, List.getElem?_set, length_fillInvalid, ih]
    by_cases hk : n = k
    · subst hk
      rw [if_pos rfl]
      by_cases hlt : n < map.length
      · rw [if_pos hlt, if_pos ⟨Nat.lt_succ_self n, hlt⟩]
      · rw [if_neg hlt, if_neg fun h => hlt h.2, List.getElem?_eq_none (Nat.le_of_not_lt hlt)]
    · rw [if_neg hk]
      refine if_congr ?_ rfl rfl
      omega

theorem getElem?_registered {map : ProtocolFuncMap} {expected : ℕ → ControlProtocolFunc}
    (h : ∀ k, map[k]? = if k < uint16Max then some (some (expected k)) else none) (id : EControlProtocol)
    (func : ControlProtocolFunc) (k : ℕ) : (map.registerProtocolHandler id func)[k]? =
      if k < uint16Max then some (some (if k = id.toId then func else expected k)) else none := by
  have hid : id.toId < uint16Max := by
    cases id <;> decide
  have hlen : id.toId < map.length := by
    by_contra hle
    have hnone := h id.toId
    rw [List.getElem?_eq_none (Nat.le_of_not_lt hle), if_pos hid] at hnone
    cases hnone
  rw [registerProtocolHandler, List.getElem?_set, h]
  by_cases hk : id.toId = k
  · subst hk
    rw [if_pos rfl, if_pos hlen, if_pos hid, if_pos rfl]
  · rw [if_neg hk, if_neg (Ne.symm hk)]

theorem getElem?_filled (k : ℕ) : (ProtocolFuncMap.new.fillInvalid uint16Max)[k]? =
    if k < uint16Max then some (some .Protocol_INVALID) else none := by
  rw [getElem?_fillInvalid, new, List.length_replicate]
  by_cases hk : k < uint16Max
  · rw [if_pos ⟨hk, hk⟩, if_pos hk]
  · rw [if_neg fun h => hk h.1, if_neg hk]
    exact List.getElem?_eq_none (by rw [List.length_replicate]; exact Nat.le_of_not_lt hk)

theorem length_of_slots {map : ProtocolFuncMap} {expected : ℕ → ControlProtocolFunc}
    (h : ∀ k, map[k]? = if k < uint16Max then some (some (expected k)) else none) : map.length = uint16Max := by
  have hin : ∀ k, k < map.length ↔ k < uint16Max := by
    intro k
    have hk := h k
    by_cases hlt : k < map.length
    · rw [List.getElem?_eq_getElem hlt] at hk
      by_cases hin : k < uint16Max
      · exact iff_of_true hlt hin
      · rw [if_neg hin] at hk
        cases hk
    · rw [List.getElem?_eq_none (Nat.le_of_not_lt hlt)] at hk
      by_cases hin : k < uint16Max
      · rw [if_pos hin] at hk
        cases hk
      · exact iff_of_false hlt hin
  have h1 := hin map.length
  have h2 := hin uint16Max
  omega

end ProtocolFuncMap

inductive ControlProtocolHandler
  | server
  | client

namespace ControlProtocolHandler

def init : ControlProtocolHandler → ProtocolFuncMap
  | server => ControlProtocolServerHandler.init
  | client => ControlProtocolClientHandler.init

def registered : ControlProtocolHandler → ℕ → ControlProtocolFunc
  | server, 1 => .Protocol_NMT_Hello
  | server, 3 => .Protocol_NMT_Login
  | server, 5 => .Protocol_NMT_Join
  | client, 2 => .Protocol_NMT_Challenge
  | client, 4 => .Protocol_NMT_Welcome
  | _, 6 => .Protocol_NMT_NetSpeed
  | _, 7 => .Protocol_NMT_Failure
  | _, _ => .Protocol_INVALID

theorem registered_server (k : ℕ) : registered server k =
    if k = EControlProtocol.NMT_Failure.toId then .Protocol_NMT_Failure
    else if k = EControlProtocol.NMT_NetSpeed.toId then .Protocol_NMT_NetSpeed
    else if k = EControlProtocol.NMT_Join.toId then .Protocol_NMT_Join
    else if k = EControlProtocol.NMT_Login.toId then .Protocol_NMT_Login
    else if k = EControlProtocol.NMT_Hello.toId then .Protocol_NMT_Hello
    else .Protocol_INVALID := by
  match k with
  | 0 | 1 | 2 | 3 | 4 | 5 | 6 | 7 => rfl
  | k + 8 => simp [registered, EControlProtocol.toId]

theorem registered_client (k : ℕ) : registered client k =
    if k = EControlProtocol.NMT_Failure.toId then .Protocol_NMT_Failure
    else if k = EControlProtocol.NMT_NetSpeed.toId then .Protocol_NMT_NetSpeed
    else if k = EControlProtocol.NMT_Welcome.toId then .Protocol_NMT_Welcome
    else if k = EControlProtocol.NMT_Challenge.toId then .Protocol_NMT_Challenge
    else .Protocol_INVALID := by
  match k with
  | 0 | 1 | 2 | 3 | 4 | 5 | 6 | 7 => rfl
  | k + 8 => simp [registered, EControlProtocol.toId]

/-- `Init` fills every slot of the table: 65535 of them. -/
theorem getElem?_init (handler : ControlProtocolHandler) (k : ℕ) : handler.init[k]? =
    if k < uint16Max then some (some (handler.registered k)) else none := by
  cases handler with
  | server =>
    have h := getElem?_registered (getElem?_registered (getElem?_registered (getElem?_registered (getElem?_registered
      getElem?_filled .NMT_Hello .Protocol_NMT_Hello) .NMT_Login .Protocol_NMT_Login) .NMT_Join .Protocol_NMT_Join)
      .NMT_NetSpeed .Protocol_NMT_NetSpeed) .NMT_Failure .Protocol_NMT_Failure k
    rw [init, ControlProtocolServerHandler.init, h, registered_server]
  | client =>
    have h := getElem?_registered (getElem?_registered (getElem?_registered (getElem?_registered
      getElem?_filled .NMT_Challenge .Protocol_NMT_Challenge) .NMT_Welcome .Protocol_NMT_Welcome)
      .NMT_NetSpeed .Protocol_NMT_NetSpeed) .NMT_Failure .Protocol_NMT_Failure k
    rw [init, ControlProtocolClientHandler.init, h, registered_client]

theorem length_init (handler : ControlProtocolHandler) : handler.init.length = uint16Max :=
  length_of_slots handler.getElem?_init

end ControlProtocolHandler

/-! ## The messages of a bunch -/

namespace NetChannel

def CarriesId (capacity id : ℕ) : ℕ → List Byte → Prop
  | 0, _ => False
  | n + 1, view =>
    4 ≤ view.length ∧
      (leNat (view.take 4) % capacity + capacity - 4) % capacity ≤ (view.drop 4).length ∧
      (leNat (view.take 4) / capacity = id ∨
        CarriesId capacity id n ((view.drop 4).drop ((leNat (view.take 4) % capacity + capacity - 4) % capacity)))

theorem carriesId_round (capacity id n : ℕ) (next : BufferReader → Bool × List RecvMessageReader)
    (hnext : ∀ view, (∃ m ∈ (next ⟨view, false⟩).2, m.messageId = id) ↔ CarriesId capacity id n view) (view : List Byte) :
    (∃ m ∈ (messageRound capacity next ⟨view, false⟩).2, m.messageId = id) ↔ CarriesId capacity id (n + 1) view := by
  rw [CarriesId]
  by_cases h : 4 ≤ view.length ∧ (leNat (view.take 4) % capacity + capacity - 4) % capacity ≤ (view.drop 4).length
  · rw [messageRound_whole capacity next h.1 h.2, ← hnext]
    simp only [List.exists_mem_cons_iff]
    exact ⟨fun hm => ⟨h.1, h.2, hm⟩, fun hm => hm.2.2⟩
  · rw [messageRound_cut capacity next h]
    constructor
    · rintro ⟨m, hm, -⟩
      cases hm
    · exact fun hm => absurd ⟨hm.1, hm.2.1⟩ h

theorem carriesId_iff (id : ℕ) : ∀ (n : ℕ) (view : List Byte),
    (∃ m ∈ (readMessages n ⟨view, false⟩).2, m.messageId = id) ↔ CarriesId (2 ^ 16) id n view
  | 0, _ => ⟨fun ⟨_, hm, _⟩ => absurd hm List.not_mem_nil, fun h => h.elim⟩
  | n + 1, view => by
    rw [readMessages_succ]
    exact carriesId_round (2 ^ 16) id n _ (carriesId_iff id n) view

theorem messageId_lt {id n : ℕ} {view : List Byte} (h : CarriesId (2 ^ 16) id n view) : id < 2 ^ 16 := by
  induction n generalizing view with
  | zero => exact h.elim
  | succ n ih =>
    obtain ⟨hfour, -, hid | hrest⟩ := h
    · have hlt := leNat_lt (view.take 4)
      rw [List.length_take, Nat.min_eq_left hfour] at hlt
      rw [← hid]
      exact Nat.div_lt_of_lt_mul hlt
    · exact ih hrest

/-- Every message that is handed on and forwarded selects a slot of the table that `Init` has filled: the registered
function, or `Protocol_INVALID`. -/
def EveryMessageHandled (view : List Byte) (messageCount : ℕ) : Prop :=
  ∀ (handler : ControlProtocolHandler) (playerId : ℕ),
    ∀ call ∈ dispatchPendingMessage handler.init playerId (readMessages messageCount ⟨view, false⟩).2,
      call.messageType < handler.init.length ∧ call.func = some (handler.registered call.messageType)

/-- Every message is handled exactly if none has the one id that the table has no slot for. -/
theorem everyMessageHandled_iff (view : List Byte) (messageCount : ℕ) :
    EveryMessageHandled view messageCount ↔ ¬ CarriesId (2 ^ 16) uint16Max messageCount view := by
  constructor
  · intro h hcarries
    obtain ⟨m, hm, hid⟩ := (carriesId_iff uint16Max messageCount view).mpr hcarries
    obtain ⟨hlt, -⟩ := h .server 0 _ (List.mem_map_of_mem hm)
    rw [ControlProtocolHandler.length_init] at hlt
    exact absurd hlt (not_lt.mpr (le_of_eq hid.symm))
  · intro h handler playerId call hcall
    obtain ⟨m, hm, rfl⟩ := List.mem_map.mp hcall
    have hcarries := (carriesId_iff m.messageId messageCount view).mp ⟨m, hm, rfl⟩
    have hlt := messageId_lt hcarries
    have hne : m.messageId ≠ uint16Max := fun hid => h (hid ▸ hcarries)
    have hslot : m.messageId < uint16Max := by
      unfold uint16Max at hne ⊢
      omega
    refine ⟨?_, ?_⟩
    · rw [ControlProtocolHandler.length_init]
      exact hslot
    · show (handler.init[m.messageId]?).join = _
      rw [ControlProtocolHandler.getElem?_init, if_pos hslot]
      rfl

/-- The id 65535 selects a slot behind the table. -/
theorem message_without_slot : ¬ ∀ view messageCount, EveryMessageHandled view messageCount := by
  intro h
  have hmessages : (readMessages 1 ⟨[4, 0, 255, 255], false⟩).2 = [⟨[], 65535⟩] := by decide +kernel
  obtain ⟨hlt, -⟩ := h [4, 0, 255, 255] 1 .server 0 ⟨_, 0, [], 65535, 0⟩ (by
    rw [hmessages]
    exact List.mem_singleton_self _)
  rw [ControlProtocolHandler.length_init] at hlt
  exact absurd hlt (by decide)

end NetChannel

end RudpEngine
