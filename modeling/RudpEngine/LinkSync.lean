import RudpEngine.InitSequence
import RudpEngine.Link

/-!
# The two ends in step

For each direction: the sender's channels have issued one number after the
other to the bunches they sealed, and the receiver's channels have taken the
first of these bunches.
-/

namespace RudpEngine

open ChannelBunchBuilder NetConnection NetConnection.Assembling

/-! ## Sealing -/

def Active (ms : List NetMessage) (payload : ℕ) : Prop := payload = (ms.map NetMessage.size).sum ∧ payload ≤ 1176

theorem active_nil : Active [] 0 := ⟨rfl, Nat.zero_le _⟩

theorem Active.measured {ms : List NetMessage} {payload : ℕ} (h : Active ms payload) (hlen : ms.length ≤ 255) :
    Measured ms payload :=
  ⟨h.1, h.2.trans_lt (by decide), hlen.trans_lt (by decide)⟩

/-- A message whose size does not wrap the payload of a bunch. -/
def Small (m : NetMessage) : Prop := m.size + 1176 < 2 ^ 32

namespace ChannelBunchBuilder

variable {i o₀ o : ℕ} {queue₀ : List OutReadyBunch} {b : ChannelBunchBuilder}

theorem queuedMessage_pumpMessage (b : ChannelBunchBuilder) (nowUs : ℕ) (m : NetMessage) (o : ℕ) :
    (b.pumpMessage nowUs m o).1.queuedMessage = b.queuedMessage :=
  pumpMessage_rule (P := fun b' => b'.queuedMessage = b.queuedMessage) (fun _ hb => hb) (fun _ _ hb => hb) rfl o

theorem Building.insertActive (h : Building i o₀ Active Measured queue₀ b o) {m : NetMessage}
    (hsum : (b.activePayload + m.size) % 2 ^ 32 = b.activePayload + m.size)
    (hfits : b.activePayload + m.size ≤ 1176) (nowUs : ℕ) :
    Building i o₀ Active Measured queue₀ ((b.inserted m).sealIfFull nowUs o).1 ((b.inserted m).sealIfFull nowUs o).2 := by
  have hactive : Active (b.activeMsgs ++ [m]) ((b.activePayload + m.size) % 2 ^ 32) := by
    refine ⟨?_, by rw [hsum]; exact hfits⟩
    rw [hsum, List.map_append, List.sum_append, ← h.active.1, List.map_singleton, List.sum_singleton]
  have hlen : (b.activeMsgs ++ [m]).length ≤ 255 := by
    rw [List.length_append, List.length_singleton]
    exact h.short
  exact h.insert active_nil (fun _ => hactive) (fun _ => hactive.measured hlen) nowUs

theorem Building.pumpSmall (h : Building i o₀ Active Measured queue₀ b o) (rest : List NetMessage) {m : NetMessage}
    (hm : Small m) (nowUs : ℕ) :
    Building i o₀ Active Measured queue₀ ({ b with queuedMessage := rest }.pumpMessage nowUs m o).1
      ({ b with queuedMessage := rest }.pumpMessage nowUs m o).2 := by
  have hb := h.withMessages rest
  have hle := h.active.2
  have hmod : ∀ n ≤ 1176, (n + m.size) % 2 ^ 32 = n + m.size := by
    intro n hn
    unfold Small at hm
    exact Nat.mod_eq_of_lt (by omega)
  have hmeasured : Measured b.activeMsgs b.activePayload := h.active.measured (Nat.le_of_lt h.short)
  rcases pumpMessage_cases hb.installed hb.short nowUs m o with ⟨hs, he⟩ | ⟨hs, hsize, he⟩ | ⟨hs, hsize, he⟩
  · rw [he]
    exact hb.insertActive (hmod _ hle) ((hmod _ hle).symm.trans_le hs) nowUs
  · have hnext := Building.afterSeal active_nil hb.installed hb.sealed hmeasured nowUs
    rw [he]
    refine hnext.insertActive (hmod 0 (Nat.zero_le _)) ?_ nowUs
    exact (Nat.zero_add m.size).trans_le hsize
  · rw [he]
    exact Building.afterSeal active_nil hb.installed hb.sealed hmeasured nowUs

/-- The bunches a pump seals of small messages are measured, and numbered one after the other. -/
theorem Building.pumpAllSmall (h : Building i o₀ Active Measured queue₀ b o) (hsmall : ∀ m ∈ b.queuedMessage, Small m)
    (nowUs : ℕ → ℕ) (batchLimit : ℕ) (flushTail : Bool) :
    Building i o₀ Active Measured queue₀ (b.pump nowUs batchLimit flushTail o).1 (b.pump nowUs batchLimit flushTail o).2 ∧
      ∀ m ∈ (b.pump nowUs batchLimit flushTail o).1.queuedMessage, Small m := by
  refine pump_rule (I := fun b o => Building i o₀ Active Measured queue₀ b o ∧ ∀ m ∈ b.queuedMessage, Small m) ?_ ?_ ?_
    (pumpMeets_true nowUs batchLimit flushTail b o)
  · intro b o m rest now ⟨hb, hall⟩ hq _
    rw [hq] at hall
    refine ⟨hb.pumpSmall rest (hall m (List.mem_cons_self ..)) now, ?_⟩
    rw [queuedMessage_pumpMessage]
    exact fun x hx => hall x (List.mem_cons_of_mem _ hx)
  · intro b o now ⟨hb, hall⟩ _ _
    exact ⟨.afterSeal active_nil hb.installed hb.sealed (hb.active.measured (Nat.le_of_lt hb.short)) now, hall⟩
  · refine ⟨h.begun (fun _ => active_nil) _, ?_⟩
    unfold ChannelBunchBuilder.begun
    split_ifs <;> exact hsmall

end ChannelBunchBuilder

structure Seals (i r₀ : ℕ) (l : List OutReadyBunch) (ch : NetChannel) : Prop where
  building : Building i ch.outReliable Active Measured ch.bunchBuilder.queuedOutBunch ch.bunchBuilder ch.outReliable
  small : ∀ m ∈ ch.bunchBuilder.queuedMessage, Small m
  issued : IssuedFrom i Measured r₀ l ch.outReliable

namespace Seals

variable {i r₀ : ℕ} {l : List OutReadyBunch} {ch ch' : NetChannel}

theorem of_same (h : Seals i r₀ l ch) (hb : ch'.bunchBuilder = ch.bunchBuilder) (ho : ch'.outReliable = ch.outReliable) :
    Seals i r₀ l ch' := by
  constructor
  · rw [hb, ho]; exact h.building
  · rw [hb]; exact h.small
  · rw [ho]; exact h.issued

theorem submit (h : Seals i r₀ l ch) {m : NetMessage} (hm : Small m) : Seals i r₀ l (ch.registerMessage m) := by
  refine ⟨h.building.withMessages _, ?_, h.issued⟩
  intro x hx
  rcases List.mem_append.mp hx with hx | hx
  · exact h.small x hx
  · obtain rfl := List.mem_singleton.mp hx
    exact hm

theorem pump (h : Seals i r₀ l ch) {nowUs : ℕ → ℕ} {batchLimit : ℕ} {flushTail : Bool} {new : List OutReadyBunch}
    (hq : (ch.pumpBunch nowUs batchLimit flushTail).bunchBuilder.queuedOutBunch = ch.bunchBuilder.queuedOutBunch ++ new) :
    Seals i r₀ (l ++ new) (ch.pumpBunch nowUs batchLimit flushTail) := by
  obtain ⟨hb, hsmall⟩ := h.building.pumpAllSmall h.small nowUs batchLimit flushTail
  obtain ⟨new', hq', hissued⟩ := hb.sealed
  obtain rfl : new' = new := List.append_cancel_left (hq'.symm.trans hq)
  refine ⟨⟨hb.installed, hb.short, hb.active, [], ?_, rfl⟩, hsmall, h.issued.append hissued⟩
  exact (List.append_nil _).symm

theorem ready (h : Seals i r₀ l ch) : Seals i r₀ l (ch.flushReady ch.bunchBuilder.queuedOutBunch.length) := by
  have hI := h.building.installed
  rw [SendRun.flushReady_eq _ ch rfl]
  exact ⟨⟨⟨hI.1, hI.2, hI.3, hI.4, hI.5, hI.6, hI.7⟩, h.building.short, h.building.active, [], rfl, rfl⟩, h.small, h.issued⟩

theorem outReliable (h : Seals i r₀ l ch) (hbound : r₀ + l.length < 2 ^ 32) : ch.outReliable = r₀ + l.length := by
  rw [h.issued.number (by omega)]
  exact Nat.mod_eq_of_lt hbound

theorem toIssued (h : Seals i r₀ l ch) (hi : i ≤ 1) (hbound : r₀ + l.length < 2 ^ 32) : Issued i r₀ l := by
  refine ⟨hi, hbound, ?_⟩
  intro idx b hb
  obtain ⟨ms, payload, he, hm⟩ := h.issued.getElem? hb
  have hlt := (List.getElem?_eq_some_iff.mp hb).1
  rw [Nat.mod_eq_of_lt (by omega)] at he
  exact ⟨ms, payload, he, hm⟩

end Seals

/-! ## What a step keeps of a channel -/

namespace NetChannel

def SendKept (ch ch' : NetChannel) : Prop := ch'.bunchBuilder = ch.bunchBuilder ∧ ch'.outReliable = ch.outReliable

structure ReceiveKept (ch ch' : NetChannel) : Prop where
  chIndex : ch'.chIndex = ch.chIndex
  bReliable : ch'.bReliable = ch.bReliable
  inReliable : ch'.inReliable = ch.inReliable
  receivedMessages : ch'.receivedMessages = ch.receivedMessages
  inUnreadBunchMap : ch'.inUnreadBunchMap = ch.inUnreadBunchMap

variable {ch ch' : NetChannel}

theorem ReceiveKept.refl (ch : NetChannel) : ReceiveKept ch ch := ⟨rfl, rfl, rfl, rfl, rfl⟩

theorem SendMoved.kept (h : ch.SendMoved ch') : SendKept ch ch' ∧ ReceiveKept ch ch' := by
  unfold SendMoved at h
  rw [h]
  exact ⟨⟨rfl, rfl⟩, rfl, rfl, rfl, rfl, rfl⟩

theorem ReceiveMoved.sendKept (h : ch.ReceiveMoved ch') : SendKept ch ch' := by
  unfold ReceiveMoved at h
  rw [h]
  exact ⟨rfl, rfl⟩

theorem receiveKept_flushReady (ch : NetChannel) :
    ReceiveKept ch (ch.flushReady ch.bunchBuilder.queuedOutBunch.length) := by
  rw [SendRun.flushReady_eq _ ch rfl]
  exact ⟨rfl, rfl, rfl, rfl, rfl⟩

end NetChannel

namespace NetConnection

theorem ChannelsRelated.mono {R R' : NetChannel → NetChannel → Prop} {c c' : NetConnection} (h : ChannelsRelated R c c')
    (hR : ∀ ch ch', R ch ch' → R' ch ch') : ChannelsRelated R' c c' := by
  refine ⟨h.length, h.absent, ?_⟩
  intro i ch hi
  obtain ⟨ch', hi', hr⟩ := h.channel i ch hi
  exact ⟨ch', hi', hR ch ch' hr⟩

theorem ChannelsRelated.back {R : NetChannel → NetChannel → Prop} {c c' : NetConnection} (h : ChannelsRelated R c c')
    {i : ℕ} {ch' : NetChannel} (hi : c'.channel? i = some ch') : ∃ ch, c.channel? i = some ch ∧ R ch ch' := by
  cases hch : c.channel? i with
  | none =>
    rw [h.absent i hch] at hi
    cases hi
  | some ch =>
    obtain ⟨ch₁, hi₁, hr⟩ := h.channel i ch hch
    obtain rfl := Option.some.inj (hi₁.symm.trans hi)
    exact ⟨ch, rfl, hr⟩

variable {r₀ : ℕ} {l : ℕ → List OutReadyBunch} {n : ℕ → ℕ} {c c' : NetConnection}

theorem Takes.related (h : Takes r₀ l n c) (hrel : ChannelsRelated NetChannel.ReceiveKept c c') : Takes r₀ l n c' := by
  refine ⟨h.length.trans_eq hrel.length.symm, ?_, h.issued, ?_⟩
  · intro i hi
    obtain ⟨ch, hch⟩ := h.present i hi
    obtain ⟨ch', hch', -⟩ := hrel.channel i ch hch
    exact ⟨ch', hch'⟩
  · intro i ch' hi
    obtain ⟨ch, hch, hk⟩ := hrel.back hi
    exact (h.channel i ch hch).of_same hk.chIndex hk.bReliable hk.inReliable hk.receivedMessages hk.inUnreadBunchMap

theorem Takes.append (h : Takes r₀ l n c) (i : ℕ) (new : List OutReadyBunch) (hissued : i ≤ 1 → Issued i r₀ (l i ++ new)) :
    Takes r₀ (Function.update l i (l i ++ new)) n c := by
  refine ⟨h.length, h.present, ?_, ?_⟩
  · intro j hj
    by_cases hji : j = i
    · subst hji
      rw [Function.update_self]
      exact hissued hj
    · rw [Function.update_of_ne hji]
      exact h.issued j hj
  · intro j ch hj
    have hold := h.channel j ch hj
    by_cases hji : j = i
    · subst hji
      rw [Function.update_self]
      exact hold.append new
    · rw [Function.update_of_ne hji]
      exact hold

def Still (c c' : NetConnection) : Prop :=
  ChannelsRelated (fun ch ch' => NetChannel.SendKept ch ch' ∧ NetChannel.ReceiveKept ch ch') c c'

theorem still_assemble (c : NetConnection) (keepAliveDue : Bool) : c.Still (c.assembleOutgoingPackets keepAliveDue) := by
  have h := assemble_frame c keepAliveDue
  refine ⟨h.length, h.absent, ?_⟩
  intro i ch hi
  obtain ⟨ch', hi', hm⟩ := h.channel i ch hi
  exact ⟨ch', hi', hm.kept⟩

theorem still_of_channels (h : c'.channels = c.channels) : c.Still c' :=
  ChannelsRelated.same (fun ch => ⟨⟨rfl, rfl⟩, NetChannel.ReceiveKept.refl ch⟩) h

theorem still_flushPacket (c : NetConnection) (nowUs : ℕ) : c.Still (c.flushPacket nowUs).2 := by
  apply still_of_channels
  unfold NetConnection.flushPacket NetConnection.tryDequeuePacket
  cases c.outPacketQueue <;> rfl

theorem still_receivedRawPacket (c : NetConnection) (data : List Byte) : c.Still (c.receivedRawPacket data) := by
  rcases Link.receivedRawPacket_cases c data with he | ⟨reader, -, he⟩
  · rw [he]
    exact still_of_channels rfl
  · rw [he]
    exact (c.receivedPacket_frame reader).channels.mono fun ch ch' h => h.moved.kept

end NetConnection

/-! ## One direction -/

namespace Link

def SealedIn (l : ℕ → List OutReadyBunch) (x : OutReadyBunch) : Prop :=
  x.chIndex ≤ 1 ∧ ∃ idx : ℕ, (l x.chIndex)[idx]? = some x

/-- From end `b` to the other end: what was sealed, and the first `n` of it taken. -/
structure Synced (r₀ : ℕ) (n : ℕ → ℕ) (b : Bool) (s : Link) : Prop where
  present : ∀ i ≤ 1, ∃ ch, (s.ends b).channel? i = some ch
  only : ∀ i ch, (s.ends b).channel? i = some ch → i ≤ 1
  seals : ∀ i ch, (s.ends b).channel? i = some ch → Seals i r₀ (s.sealed b i) ch
  takes : Takes r₀ (s.sealed b) n (s.ends (!b))

namespace Synced

variable {s : Link} {r₀ : ℕ} {n n' : ℕ → ℕ} {b : Bool}

theorem congr {s' : Link} (h : Synced r₀ n b s) (h1 : s'.ends = s.ends) (h2 : s'.sealed b = s.sealed b) :
    Synced r₀ n b s' := by
  constructor
  · rw [h1]; exact h.present
  · rw [h1]; exact h.only
  · rw [h1, h2]; exact h.seals
  · rw [h1, h2]; exact h.takes

theorem sends (h : Synced r₀ n b s) {c : NetConnection} (hrel : ChannelsRelated NetChannel.SendKept (s.ends b) c) :
    Synced r₀ n b (s.setEnd b c) := by
  refine ⟨?_, ?_, ?_, ?_⟩
  · rw [setEnd_same]
    exact hrel.present h.present
  · intro i ch hi
    rw [setEnd_same] at hi
    obtain ⟨ch₀, hch₀, -⟩ := hrel.back hi
    exact h.only i ch₀ hch₀
  · intro i ch hi
    rw [setEnd_same] at hi
    obtain ⟨ch₀, hch₀, hb, ho⟩ := hrel.back hi
    exact (h.seals i ch₀ hch₀).of_same hb ho
  · rw [setEnd_other]
    exact h.takes

theorem receives (h : Synced r₀ n b s) {c : NetConnection} (ht : Takes r₀ (s.sealed b) n' c) :
    Synced r₀ n' b (s.setEnd (!b) c) := by
  refine ⟨?_, ?_, ?_, ?_⟩
  · rw [setEnd_not]; exact h.present
  · rw [setEnd_not]; exact h.only
  · rw [setEnd_not]; exact h.seals
  · rw [setEnd_same]; exact ht

theorem still (h : Synced r₀ n b s) (x : Bool) {c : NetConnection} (hrel : (s.ends x).Still c) :
    Synced r₀ n b (s.setEnd x c) := by
  by_cases hx : x = b
  · subst hx
    exact h.sends (hrel.mono fun _ _ hk => hk.1)
  · obtain rfl := Bool.eq_not.mpr hx
    exact h.receives (h.takes.related (hrel.mono fun _ _ hk => hk.2))

theorem modify (h : Synced r₀ n b s) (i : ℕ) (f : NetChannel → NetChannel) (new : List OutReadyBunch)
    (hf : ∀ ch, (s.ends b).channel? i = some ch → Seals i r₀ (s.sealed b i ++ new) (f ch))
    (hissued : i ≤ 1 → Issued i r₀ (s.sealed b i ++ new)) :
    Synced r₀ n b { s.setEnd b ((s.ends b).modifyChannel i f) with
      sealed := Function.update s.sealed b (Function.update (s.sealed b) i (s.sealed b i ++ new)) } := by
  have hsealed : ∀ j, j ≠ i → Function.update (s.sealed b) i (s.sealed b i ++ new) j = s.sealed b j :=
    fun j hj => Function.update_of_ne hj ..
  refine ⟨?_, ?_, ?_, ?_⟩
  · intro j hj
    obtain ⟨ch, hch⟩ := h.present j hj
    simp only [setEnd_same, channel?_modifyChannel, hch]
    split_ifs
    · exact ⟨f ch, rfl⟩
    · exact ⟨ch, rfl⟩
  · intro j ch hj
    simp only [setEnd_same] at hj
    rcases NetConnection.of_channel?_modifyChannel hj with ⟨ch₀, -, hch₀, -⟩ | ⟨-, hj⟩
    · exact h.only j ch₀ hch₀
    · exact h.only j ch hj
  · intro j ch hj
    simp only [setEnd_same] at hj
    simp only [Function.update_self]
    rcases NetConnection.of_channel?_modifyChannel hj with ⟨ch₀, rfl, hch₀, rfl⟩ | ⟨hji, hj⟩
    · rw [Function.update_self]
      exact hf ch₀ hch₀
    · rw [hsealed j hji]
      exact h.seals j ch hj
  · simp only [Function.update_self, setEnd_other]
    exact h.takes.append i new hissued

theorem issued (h : Synced r₀ n b s) {i : ℕ} (hi : i ≤ 1) : Issued i r₀ (s.sealed b i) := h.takes.issued i hi

theorem modify_other (h : Synced r₀ n b s) (i : ℕ) {f : NetChannel → NetChannel}
    (hf : ∀ ch, NetChannel.ReceiveKept ch (f ch)) : Synced r₀ n b (s.setEnd (!b) ((s.ends (!b)).modifyChannel i f)) :=
  h.receives (h.takes.related (.modifyChannel NetChannel.ReceiveKept.refl (s.ends (!b)) i hf))

theorem modify_unsealed (h : Synced r₀ n b s) (i : ℕ) (f : NetChannel → NetChannel)
    (hf : ∀ ch, (s.ends b).channel? i = some ch → Seals i r₀ (s.sealed b i) (f ch)) :
    Synced r₀ n b (s.setEnd b ((s.ends b).modifyChannel i f)) := by
  have hnil : s.sealed b i ++ [] = s.sealed b i := List.append_nil _
  have hstep := h.modify i f [] (by rw [hnil]; exact hf) (by rw [hnil]; exact h.issued)
  refine hstep.congr rfl ?_
  simp only [Function.update_self, hnil, Function.update_eq_self]
  rfl

/-- The bunches a pump seals follow those sealed before. -/
theorem pump (h : Synced r₀ n b s) (i : ℕ) (nowUs : ℕ → ℕ) (batchLimit : ℕ) (flushTail : Bool)
    (hbound : ∀ ch, (s.ends b).channel? i = some ch →
      ch.outReliable + ((s.ends b).newBunches i nowUs batchLimit flushTail).length < 2 ^ 32) :
    Synced r₀ n b (s.next (b, .pump i nowUs batchLimit flushTail)) := by
  have hf : ∀ ch, (s.ends b).channel? i = some ch → Seals i r₀
      (s.sealed b i ++ (s.ends b).newBunches i nowUs batchLimit flushTail) (ch.pumpBunch nowUs batchLimit flushTail) :=
    fun ch hch => (h.seals i ch hch).pump (queuedOutBunch_pumpBunch hch nowUs batchLimit flushTail)
  apply h.modify i _ _ hf
  intro hi
  cases hch : (s.ends b).channel? i with
  | none =>
    have hnil : (s.ends b).newBunches i nowUs batchLimit flushTail = [] := by
      rw [newBunches, SendRun.newBunches, hch]
    rw [hnil, List.append_nil]
    exact h.issued hi
  | some ch =>
    apply (hf ch hch).toIssued hi
    have hold := (h.seals i ch hch).outReliable (h.issued hi).bound
    have hnew := hbound ch hch
    rw [List.length_append]
    omega

theorem sealed_pump (s : Link) (b : Bool) (i : ℕ) (nowUs : ℕ → ℕ) (batchLimit : ℕ) (flushTail : Bool) :
    (s.next (b, .pump i nowUs batchLimit flushTail)).sealed b i =
      s.sealed b i ++ (s.ends b).newBunches i nowUs batchLimit flushTail := by
  simp only [Link.next, Function.update_self]

theorem mem_newBunches (h : Synced r₀ n b s) {i : ℕ} {nowUs : ℕ → ℕ} {batchLimit : ℕ} {flushTail : Bool} {x : OutReadyBunch}
    (hx : x ∈ (s.ends b).newBunches i nowUs batchLimit flushTail) : x.chIndex = i ∧ i ≤ 1 ∧ ∃ idx : ℕ,
      (s.sealed b i).length ≤ idx ∧ ((s.next (b, .pump i nowUs batchLimit flushTail)).sealed b i)[idx]? = some x := by
  cases hch : (s.ends b).channel? i with
  | none =>
    rw [newBunches, SendRun.newBunches, hch] at hx
    cases hx
  | some ch =>
    have hissued := ((h.seals i ch hch).pump (queuedOutBunch_pumpBunch hch nowUs batchLimit flushTail)).issued
    obtain ⟨k, ms, payload, he, -⟩ := hissued.mem x (List.mem_append_right _ hx)
    obtain ⟨j, hj⟩ := List.getElem?_of_mem hx
    refine ⟨by rw [he, channelBunch_chIndex], h.only i ch hch, (s.sealed b i).length + j, Nat.le_add_right .., ?_⟩
    rw [sealed_pump, List.getElem?_append_right (Nat.le_add_right ..), Nat.add_sub_cancel_left, hj]

theorem newBunches_sealed (h : Synced r₀ n b s) {i : ℕ} {nowUs : ℕ → ℕ} {batchLimit : ℕ} {flushTail : Bool} {x : OutReadyBunch}
    (hx : x ∈ (s.ends b).newBunches i nowUs batchLimit flushTail) :
    SealedIn ((s.next (b, .pump i nowUs batchLimit flushTail)).sealed b) x := by
  obtain ⟨hindex, hi, idx, -, hget⟩ := h.mem_newBunches hx
  exact ⟨hindex.trans_le hi, idx, by rw [hindex]; exact hget⟩

theorem sealedIn_mono (s : Link) (b : Bool) (a : Bool × LinkAction) {x : OutReadyBunch} (hx : SealedIn (s.sealed b) x) :
    SealedIn ((s.next a).sealed b) x := by
  obtain ⟨hi, idx, hget⟩ := hx
  refine ⟨hi, idx, ?_⟩
  obtain ⟨y, a⟩ := a
  cases a with
  | pump i nowUs batchLimit flushTail =>
    by_cases hy : y = b
    · subst hy
      simp only [Link.next, Function.update_self]
      by_cases hxi : x.chIndex = i
      · rw [hxi, Function.update_self]
        rw [hxi] at hget
        exact (List.getElem?_append_left (List.getElem?_eq_some_iff.mp hget).1).trans hget
      · rw [Function.update_of_ne hxi]
        exact hget
    · simp only [Link.next, Function.update_of_ne (Ne.symm hy)]
      exact hget
  | deliver k =>
    show ((s.deliver y k).sealed b x.chIndex)[idx]? = some x
    unfold Link.deliver
    cases (s.network (!y))[k]? <;> exact hget
  | _ => exact hget

/-- One step, for what it has to meet: small messages, numbers that do not wrap, and bunches that are near at their turn. -/
theorem next (h : Synced r₀ n b s) (hcarried : Carried (SealedIn (s.sealed b)) b s) (a : Bool × LinkAction)
    (hsmall : ∀ i m, a = (b, .submit i m) → Small m)
    (hbound : ∀ i nowUs batchLimit flushTail ch, a = (b, .pump i nowUs batchLimit flushTail) →
      (s.ends b).channel? i = some ch →
        ch.outReliable + ((s.ends b).newBunches i nowUs batchLimit flushTail).length < 2 ^ 32)
    (hnear : a = (!b, .dispatch) → ∀ (k : ℕ) (r : RecvPacketReader) (n' : ℕ → ℕ),
      (s.ends (!b)).pendingDispatchPacketReaders[k]? = some r → n ≤ n' →
        Takes r₀ (s.sealed b) n' ((s.ends (!b)).atTurn k) →
          BunchesMeet BunchNear (((s.ends (!b)).atTurn k).payloadBunches r.payload) ((s.ends (!b)).atTurn k)) :
    ∃ n', n ≤ n' ∧ (a ≠ (!b, .dispatch) → n' = n) ∧ Synced r₀ n' b (s.next a) := by
  obtain ⟨x, a⟩ := a
  cases a with
  | submit i m =>
    refine ⟨n, le_refl n, fun _ => rfl, ?_⟩
    by_cases hx : x = b
    · subst hx
      exact (h.modify_unsealed i _ fun ch hch => (h.seals i ch hch).submit (hsmall i m rfl)).congr rfl rfl
    · obtain rfl := Bool.eq_not.mpr hx
      have hstep := h.modify_other (f := fun ch => ch.registerMessage m) i fun ch => ⟨rfl, rfl, rfl, rfl, rfl⟩
      exact hstep.congr rfl rfl
  | pump i nowUs batchLimit flushTail =>
    refine ⟨n, le_refl n, fun _ => rfl, ?_⟩
    by_cases hx : x = b
    · subst hx
      exact h.pump i nowUs batchLimit flushTail fun ch hch => hbound i nowUs batchLimit flushTail ch rfl hch
    · obtain rfl := Bool.eq_not.mpr hx
      have hstep := h.modify_other (f := fun ch => ch.pumpBunch nowUs batchLimit flushTail) i
        fun ch => ⟨rfl, rfl, rfl, rfl, rfl⟩
      refine hstep.congr rfl ?_
      simp only [Link.next, Function.update_of_ne (Ne.symm hx)]
      rfl
  | ready i =>
    refine ⟨n, le_refl n, fun _ => rfl, ?_⟩
    by_cases hx : x = b
    · subst hx
      exact h.modify_unsealed i _ fun ch hch => (h.seals i ch hch).ready
    · obtain rfl := Bool.eq_not.mpr hx
      exact h.modify_other i NetChannel.receiveKept_flushReady
  | assemble keepAliveDue => exact ⟨n, le_refl n, fun _ => rfl, h.still x (still_assemble _ keepAliveDue)⟩
  | flush nowUs => exact ⟨n, le_refl n, fun _ => rfl, (h.still x (still_flushPacket _ nowUs)).congr rfl rfl⟩
  | deliver k =>
    refine ⟨n, le_refl n, fun _ => rfl, ?_⟩
    show Synced r₀ n b (s.deliver x k)
    unfold Link.deliver
    cases (s.network (!x))[k]? with
    | none => exact h
    | some packet => exact (h.still x (still_receivedRawPacket _ packet.wire)).congr rfl rfl
  | duplicate k => exact ⟨n, le_refl n, fun _ => rfl, h.congr rfl rfl⟩
  | lose k => exact ⟨n, le_refl n, fun _ => rfl, h.congr rfl rfl⟩
  | dispatch =>
    by_cases hx : x = b
    · subst hx
      exact ⟨n, le_refl n, fun _ => rfl, h.sends ((dispatchPendingPacket_related h.present).mono fun _ _ hm => hm.sendKept)⟩
    · obtain rfl := Bool.eq_not.mpr hx
      have hpending : ∀ r ∈ (s.ends (!b)).pendingDispatchPacketReaders, PayloadSent (s.sealed b) r.payload := by
        intro r hr
        obtain ⟨bs, hbs, he⟩ := hcarried.pending r hr
        exact ⟨bs, fun y hy => ⟨(hbs y hy).1.1, (hbs y hy).2, (hbs y hy).1.2⟩, he⟩
      obtain ⟨n', hle, htakes⟩ := h.takes.dispatchPendingPacket hpending (hnear rfl)
      exact ⟨n', hle, fun hne => absurd rfl hne, h.receives htakes⟩

end Synced

/-! ## The start -/

theorem channel?_createInitialChannels (b : Bool) {m : ℕ} (hm : 2 ≤ m) (i : ℕ) :
    (NetConnection.new b m .open).createInitialChannels.channel? i =
      if i ≤ 1 then some (NetChannel.init i 0 0) else none := by
  have hnone : (NetConnection.new b m .open).channel? i = none := by
    rw [channel?, NetConnection.new, List.getElem?_replicate]
    split_ifs <;> rfl
  have hlen : (NetConnection.new b m .open).channels.length = m := List.length_replicate ..
  unfold NetConnection.createInitialChannels NetConnection.createChannelByName
  rw [channel?_setChannel (by rw [length_setChannel, hlen]; exact hm), channel?_setChannel (by rw [hlen]; omega), hnone]
  by_cases h1 : i = 1
  · subst h1; rfl
  · by_cases h0 : i = 0
    · subst h0; rfl
    · rw [if_neg h1, if_neg h0, if_neg (by omega)]

section
variable {s : Link} {m : ℕ} {sequence : Bool → ℤ}

theorem channel?_start (hm : 2 ≤ m) (hends : ∀ b, s.ends b =
      ((NetConnection.new b m .open).createInitialChannels.initSequence (sequence (!b)) (sequence b)).2) (b : Bool) (i : ℕ) :
    (s.ends b).channel? i = if i ≤ 1 then some (NetChannel.init i (sequence (!b) % maxChSequence).toNat
      (sequence b % maxChSequence).toNat) else none := by
  have hnew : (NetConnection.new b m .open).createInitialChannels.inPacketId = -1 := rfl
  rw [hends b, initSequence_of_new hnew, channel?_mapChannels]
  refine (congrArg (Option.map _) (channel?_createInitialChannels b hm i)).trans ?_
  split_ifs <;> rfl

theorem length_start (hends : ∀ b, s.ends b =
      ((NetConnection.new b m .open).createInitialChannels.initSequence (sequence (!b)) (sequence b)).2) (b : Bool) :
    (s.ends b).channels.length = m := by
  have hnew : (NetConnection.new b m .open).createInitialChannels.inPacketId = -1 := rfl
  rw [hends b, initSequence_of_new hnew]
  unfold NetConnection.mapChannels NetConnection.createInitialChannels NetConnection.createChannelByName
  simp only [List.length_map, length_setChannel]
  exact List.length_replicate ..

theorem Start.synced (h : s.Start) : s.Handled ∧ ∃ r₀ : Bool → ℕ, ∀ b, s.Synced (r₀ b) (fun _ => 0) b ∧
    ∀ P, Carried P b s := by
  obtain ⟨⟨m, sequence, hm, hends⟩, hnetwork, hsealed, -⟩ := h
  have hch := channel?_start hm hends
  have hnew : ∀ b, (NetConnection.new b m .open).createInitialChannels.inPacketId = -1 := fun _ => rfl
  have hinit : ∀ {b i ch}, (s.ends b).channel? i = some ch → i ≤ 1 ∧ ch = NetChannel.init i
      (sequence (!b) % maxChSequence).toNat (sequence b % maxChSequence).toNat := by
    intro b i ch hi
    rw [hch] at hi
    split_ifs at hi with hle
    exact ⟨hle, (Option.some.inj hi).symm⟩
  refine ⟨?_, fun b => (sequence b % maxChSequence).toNat, fun b => ⟨⟨?_, ?_, ?_, ?_, ?_, ?_, ?_⟩, fun P => ⟨⟨?_, ?_⟩, ?_, ?_⟩⟩⟩
  · intro b
    rw [hends b, initSequence_of_new (hnew b)]
    rfl
  · intro i hi
    rw [hch, if_pos hi]
    exact ⟨_, rfl⟩
  · exact fun i ch hi => (hinit hi).1
  · intro i ch hi
    obtain ⟨-, rfl⟩ := hinit hi
    rw [hsealed]
    exact ⟨⟨installed_forChannel i, Nat.succ_pos 254, active_nil, [], rfl, rfl⟩, fun x hx => absurd hx List.not_mem_nil, rfl⟩
  · rw [length_start hends]
    exact hm
  · intro i hi
    rw [hch, if_pos hi]
    exact ⟨_, rfl⟩
  · intro i hi
    rw [hsealed]
    refine ⟨hi, ?_, fun idx x hx => by cases hx⟩
    have hlt := Int.emod_lt_of_pos (sequence b) (b := maxChSequence) (by decide)
    have hmax : (maxChSequence : ℤ) = 1024 := rfl
    show (sequence b % maxChSequence).toNat + 0 < 2 ^ 32
    omega
  · intro i ch hi
    obtain ⟨-, rfl⟩ := hinit hi
    rw [hsealed, Bool.not_not]
    refine ⟨rfl, rfl, Nat.zero_le _, rfl, fun x hx => absurd hx List.not_mem_nil, fun _ => rfl, ?_⟩
    intro k x hx
    rw [show (NetChannel.init i (sequence b % maxChSequence).toNat (sequence (!b) % maxChSequence).toNat).inUnreadBunchMap =
      SortedMap.empty from rfl, SortedMap.find?_empty] at hx
    cases hx
  · intro i ch hi x hx
    obtain ⟨-, rfl⟩ := hinit hi
    exact absurd hx List.not_mem_nil
  · rw [hends b, initSequence_of_new (hnew b)]
    exact fun p hp => absurd hp List.not_mem_nil
  · rw [hnetwork]
    exact fun p hp => absurd hp List.not_mem_nil
  · rw [hends (!b), initSequence_of_new (hnew _)]
    exact fun r hr => absurd hr List.not_mem_nil

end

end Link

end RudpEngine
