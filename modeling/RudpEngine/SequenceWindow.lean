import RudpEngine.LinkSync

/-!
# The window of channel sequence numbers

A bunch has `MAX_CHSEQUENCE` to be read against `InReliable`, half of it to
either side. `RELIABLE_BUFFER` does not keep the sender within it: it counts
packets and not bunches, and only those that were sent and are not acknowledged.
What does is a window on the numbers themselves, held where bunches are sealed
and where they are dispatched.
-/

namespace RudpEngine

open ChannelBunchBuilder NetConnection NetConnection.Assembling

namespace Link

/-- Number `k` of channel `i` is on its way from end `b`: on a bunch of its channels, of a packet that is queued or in
flight, or of a payload that waits at the other end. -/
def Outstanding (s : Link) (b : Bool) (i k : ℕ) : Prop :=
  (∃ x : OutReadyBunch, x.chIndex = i ∧ x.chSequence = k ∧
    ((∃ j ch, (s.ends b).channel? j = some ch ∧ x ∈ ch.bunches) ∨
      ∃ p ∈ (s.ends b).outPacketQueue ++ s.network b, x ∈ p.bunchs)) ∨
  ∃ r ∈ (s.ends (!b)).pendingDispatchPacketReaders, ∃ e ∈ (s.ends (!b)).payloadBunches r.payload,
    e.1.chIndex = i ∧ e.1.chSequence = k

/-- Every number on its way is less than half of `MAX_CHSEQUENCE` from the receiver's `InReliable`, and is read as sent. -/
def WindowHolds (s : Link) (b : Bool) (i : ℕ) : Prop :=
  ∀ ch k, (s.ends (!b)).channel? i = some ch → s.Outstanding b i k →
    k < ch.inReliable + maxChSequence / 2 ∧ ch.inReliable < k + maxChSequence / 2 ∧
      makeRelative k ch.inReliable maxChSequence = k

/-- Bunches are sealed only up to half of `MAX_CHSEQUENCE` above the receiver's `InReliable`, and dispatched only while
the last number sealed is less than that above all that are on their way. -/
def Paced (s : Link) : Bool × LinkAction → Prop
  | (_, .submit _ m) => Small m
  | (b, .pump i nowUs batchLimit flushTail) => ∀ ch peer, (s.ends b).channel? i = some ch →
      (s.ends (!b)).channel? i = some peer →
        ch.outReliable + ((s.ends b).newBunches i nowUs batchLimit flushTail).length < 2 ^ 32 ∧
        ch.outReliable + ((s.ends b).newBunches i nowUs batchLimit flushTail).length <
          peer.inReliable + maxChSequence / 2
  | (b, .dispatch) => ∀ i k peer, (s.ends (!b)).channel? i = some peer → s.Outstanding (!b) i k →
      peer.outReliable < k + maxChSequence / 2
  | _ => True

/-! ## The invariant -/

structure InWindow (r₀ : ℕ) (l : ℕ → List OutReadyBunch) (n : ℕ → ℕ) (x : OutReadyBunch) : Prop where
  sealed : SealedIn l x
  above : x.chSequence < r₀ + n x.chIndex + 512
  below : r₀ + n x.chIndex < x.chSequence + 512

structure Windowed (r₀ : Bool → ℕ) (s : Link) : Prop where
  handled : s.Handled
  direction : ∀ b, ∃ n, s.Synced (r₀ b) n b ∧ Carried (InWindow (r₀ b) (s.sealed b) n) b s

section
variable {s : Link} {r₀ : ℕ} {r : Bool → ℕ} {n : ℕ → ℕ} {b : Bool} {P : OutReadyBunch → Prop}

theorem Synced.issued_of_sealed (h : s.Synced r₀ n b) {x : OutReadyBunch} (hx : SealedIn (s.sealed b) x) :
    ∃ idx : ℕ, (s.sealed b x.chIndex)[idx]? = some x ∧ Issued x.chIndex r₀ (s.sealed b x.chIndex) :=
  ⟨hx.2.choose, hx.2.choose_spec, h.issued hx.1⟩

theorem Synced.numbered (h : s.Synced r₀ n b) {x : OutReadyBunch} (hx : SealedIn (s.sealed b) x) : Numbered x := by
  obtain ⟨idx, hget, hissued⟩ := h.issued_of_sealed hx
  exact hissued.numbered hget

theorem Carried.payloadBunches (h : Carried P b s) (hsync : s.Synced r₀ n b) (hP : ∀ x, P x → SealedIn (s.sealed b) x)
    {r : RecvPacketReader} (hr : r ∈ (s.ends (!b)).pendingDispatchPacketReaders) : ∃ bs : List OutReadyBunch,
      (∀ x ∈ bs, P x ∧ kept x = true) ∧ r.payload = bs.flatMap OutReadyBunch.bytes ∧
        (s.ends (!b)).payloadBunches r.payload = bs.map OutReadyBunch.received := by
  obtain ⟨bs, hbs, he⟩ := h.pending r hr
  refine ⟨bs, hbs, he, ?_⟩
  rw [he]
  exact payloadBunches_numbered hsync.takes.length fun x hx => hsync.numbered (hP x (hbs x hx).1)

theorem Carried.outstanding (h : Carried P b s) (hsync : s.Synced r₀ n b) (hP : ∀ x, P x → SealedIn (s.sealed b) x)
    {i k : ℕ} (hk : s.Outstanding b i k) : ∃ x, P x ∧ x.chIndex = i ∧ x.chSequence = k := by
  rcases hk with ⟨x, hi, hseq, ⟨j, ch, hch, hx⟩ | ⟨p, hp, hx⟩⟩ | ⟨r, hr, e, he, hi, hseq⟩
  · exact ⟨x, h.conn.channel j ch hch x hx, hi, hseq⟩
  · rcases List.mem_append.mp hp with hp | hp
    · exact ⟨x, ((h.conn.packet p hp).bunchs x hx).1, hi, hseq⟩
    · exact ⟨x, ((h.network p hp).1.bunchs x hx).1, hi, hseq⟩
  · obtain ⟨bs, hbs, -, hread⟩ := h.payloadBunches hsync hP hr
    rw [hread] at he
    obtain ⟨x, hx, rfl⟩ := List.mem_map.mp he
    have hsealed := hP x (hbs x hx).1
    obtain ⟨idx, hget, hissued⟩ := hsync.issued_of_sealed hsealed
    rw [hissued.header_chIndex hget] at hi
    exact ⟨x, (hbs x hx).1, hi, hseq⟩

theorem Carried.and_outstanding (h : Carried P b s) (hsync : s.Synced r₀ n b) (hP : ∀ x, P x → SealedIn (s.sealed b) x)
    {R : ℕ → ℕ → Prop} (hR : ∀ i k, s.Outstanding b i k → R i k) :
    Carried (fun x => P x ∧ R x.chIndex x.chSequence) b s := by
  refine ⟨⟨?_, ?_⟩, ?_, ?_⟩
  · intro j ch hch x hx
    exact ⟨h.conn.channel j ch hch x hx, hR _ _ (.inl ⟨x, rfl, rfl, .inl ⟨j, ch, hch, hx⟩⟩)⟩
  · intro p hp
    have hlaid := h.conn.packet p hp
    refine ⟨fun x hx => ⟨⟨(hlaid.bunchs x hx).1, ?_⟩, (hlaid.bunchs x hx).2⟩, hlaid.bufferViews, hlaid.headerSize⟩
    exact hR _ _ (.inl ⟨x, rfl, rfl, .inr ⟨p, List.mem_append_left _ hp, hx⟩⟩)
  · intro p hp
    obtain ⟨hlaid, hheaded⟩ := h.network p hp
    refine ⟨⟨fun x hx => ⟨⟨(hlaid.bunchs x hx).1, ?_⟩, (hlaid.bunchs x hx).2⟩, hlaid.bufferViews, hlaid.headerSize⟩, hheaded⟩
    exact hR _ _ (.inl ⟨x, rfl, rfl, .inr ⟨p, List.mem_append_right _ hp, hx⟩⟩)
  · intro r hr
    obtain ⟨bs, hbs, he, hread⟩ := h.payloadBunches hsync hP hr
    refine ⟨bs, ?_, he⟩
    intro x hx
    obtain ⟨hpx, hkept⟩ := hbs x hx
    refine ⟨⟨hpx, hR _ _ (.inr ⟨r, hr, x.received, ?_, ?_, rfl⟩)⟩, hkept⟩
    · rw [hread]
      exact List.mem_map_of_mem hx
    · obtain ⟨idx, hget, hissued⟩ := hsync.issued_of_sealed (hP x hpx)
      exact hissued.header_chIndex hget

theorem Synced.inReliable (h : s.Synced r₀ n b) {i : ℕ} {ch : NetChannel} (hch : (s.ends (!b)).channel? i = some ch) :
    ch.inReliable = r₀ + n i ∧ n i ≤ (s.sealed b i).length :=
  ⟨(h.takes.channel i ch hch).inReliable, (h.takes.channel i ch hch).le⟩

theorem Synced.outReliable (h : s.Synced r₀ n b) {i : ℕ} {ch : NetChannel} (hch : (s.ends b).channel? i = some ch) :
    ch.outReliable = r₀ + (s.sealed b i).length :=
  (h.seals i ch hch).outReliable (h.issued (h.only i ch hch)).bound

theorem Synced.windowHolds (h : s.Synced r₀ n b) (hcarried : Carried (InWindow r₀ (s.sealed b) n) b s) (i : ℕ) :
    s.WindowHolds b i := by
  intro ch k hch hk
  obtain ⟨x, hx, rfl, rfl⟩ := hcarried.outstanding h (fun x hx => hx.sealed) hk
  have hin := (h.inReliable hch).1
  have hmax : maxChSequence / 2 = 512 := rfl
  have habove := hx.above
  have hbelow := hx.below
  rw [hin, hmax, makeRelative_eq_self_iff]
  exact ⟨habove, hbelow, by push_cast; omega⟩

/-! ## The steps -/

/-- Dispatching takes at most what was sealed, so it leaves the window no further than the last number sealed. -/
theorem Synced.dispatch_near (h : s.Synced r₀ n b) (hcarried : Carried (InWindow r₀ (s.sealed b) n) b s)
    (hp : s.Paced (!b, .dispatch)) :
    Carried (fun x => InWindow r₀ (s.sealed b) n x ∧ r₀ + (s.sealed b x.chIndex).length < x.chSequence + 512) b s := by
  refine (hcarried.and_outstanding h (fun x hx => hx.sealed)
    (R := fun i k => i ≤ 1 → r₀ + (s.sealed b i).length < k + 512) ?_).mono fun x hx => ⟨hx.1, hx.2 hx.1.sealed.1⟩
  intro i k hk hi
  obtain ⟨ch, hch⟩ := h.present i hi
  have hnum := hp i k ch (by rw [Bool.not_not]; exact hch) (by rw [Bool.not_not]; exact hk)
  rw [h.outReliable hch] at hnum
  exact hnum

theorem Synced.meets_near (h : s.Synced r₀ n b) (hcarried : Carried (InWindow r₀ (s.sealed b) n) b s)
    (hp : s.Paced (!b, .dispatch)) {k : ℕ} {reader : RecvPacketReader} {n' : ℕ → ℕ}
    (hreader : (s.ends (!b)).pendingDispatchPacketReaders[k]? = some reader) (hle : n ≤ n')
    (htakes : Takes r₀ (s.sealed b) n' ((s.ends (!b)).atTurn k)) :
    BunchesMeet BunchNear (((s.ends (!b)).atTurn k).payloadBunches reader.payload) ((s.ends (!b)).atTurn k) := by
  obtain ⟨bs, hbs, he⟩ := (h.dispatch_near hcarried hp).pending reader (List.mem_of_getElem? hreader)
  have hread : ((s.ends (!b)).atTurn k).payloadBunches reader.payload = bs.map OutReadyBunch.received := by
    rw [he]
    exact htakes.payloadBunches fun x hx => ⟨(hbs x hx).1.1.sealed.1, (hbs x hx).2, (hbs x hx).1.1.sealed.2⟩
  rw [hread]
  apply htakes.bunchesMeet_near bs n' _ hle
  intro x hx
  obtain ⟨⟨hwindow, hlast⟩, hkept⟩ := hbs x hx
  exact ⟨⟨hwindow.sealed.1, hkept, hwindow.sealed.2⟩, hwindow.above, Nat.le_of_lt hlast⟩

theorem Synced.newBunches_inWindow {i : ℕ} {nowUs : ℕ → ℕ} {batchLimit : ℕ} {flushTail : Bool} (h : s.Synced r₀ n b)
    (hnext : (s.next (b, .pump i nowUs batchLimit flushTail)).Synced r₀ n b)
    (hp : s.Paced (b, .pump i nowUs batchLimit flushTail)) {x : OutReadyBunch}
    (hx : x ∈ (s.ends b).newBunches i nowUs batchLimit flushTail) :
    InWindow r₀ ((s.next (b, .pump i nowUs batchLimit flushTail)).sealed b) n x := by
  obtain ⟨rfl, hi, idx, hge, hget⟩ := h.mem_newBunches hx
  obtain ⟨ch, hch⟩ := h.present _ hi
  obtain ⟨peer, hpeer⟩ := h.takes.present _ hi
  obtain ⟨hin, htop⟩ := h.inReliable hpeer
  have hout := h.outReliable hch
  have hnum := (hnext.issued hi).chSequence hget
  have hlt := (List.getElem?_eq_some_iff.mp hget).1
  have hroom := (hp ch peer hch hpeer).2
  have hmax : maxChSequence / 2 = 512 := rfl
  rw [sealed_pump, List.length_append] at hlt
  rw [hin, hout, hmax] at hroom
  exact ⟨⟨hi, idx, hget⟩, by omega, by omega⟩

/-- Nothing but a dispatch takes bunches, and nothing but a pump seals them. -/
theorem Synced.window_next (h : s.Synced r₀ n b) (hcarried : Carried (InWindow r₀ (s.sealed b) n) b s)
    (hhandled : s.Handled) (a : Bool × LinkAction) (hp : s.Paced a) :
    ∃ n', (s.next a).Synced r₀ n' b ∧ Carried (InWindow r₀ ((s.next a).sealed b) n') b (s.next a) := by
  have hsealed : Carried (SealedIn (s.sealed b)) b s := hcarried.mono fun x hx => hx.sealed
  have hsmall : ∀ i m, a = (b, .submit i m) → Small m := by
    rintro i m rfl
    exact hp
  have hbound : ∀ i nowUs batchLimit flushTail ch, a = (b, .pump i nowUs batchLimit flushTail) →
      (s.ends b).channel? i = some ch →
        ch.outReliable + ((s.ends b).newBunches i nowUs batchLimit flushTail).length < 2 ^ 32 := by
    rintro i nowUs batchLimit flushTail ch rfl hch
    obtain ⟨peer, hpeer⟩ := h.takes.present i (h.only i ch hch)
    exact (hp ch peer hch hpeer).1
  obtain ⟨n', hle, hsame, hnext⟩ := h.next hsealed a hsmall hbound fun hdispatch _ _ _ hreader hle htakes =>
    h.meets_near hcarried (hdispatch ▸ hp) hreader hle htakes
  refine ⟨n', hnext, ?_⟩
  have hmono : Carried (InWindow r₀ ((s.next a).sealed b) n') b s := by
    by_cases hdispatch : a = (!b, .dispatch)
    · refine (h.dispatch_near hcarried (hdispatch ▸ hp)).mono fun x hx => ?_
      obtain ⟨hx, hlast⟩ := hx
      have hgrown : n x.chIndex ≤ n' x.chIndex := hle x.chIndex
      obtain ⟨ch, hch⟩ := hnext.takes.present _ hx.sealed.1
      have htop := (hnext.inReliable hch).2
      have habove := hx.above
      have hl : (s.next a).sealed b = s.sealed b := by rw [hdispatch]; rfl
      rw [hl] at htop
      exact ⟨sealedIn_mono s b a hx.sealed, by omega, by omega⟩
    · rw [hsame hdispatch]
      exact hcarried.mono fun x hx => ⟨sealedIn_mono s b a hx.sealed, hx.above, hx.below⟩
  apply hmono.next hhandled (fun x hx => hnext.numbered hx.sealed)
  rintro i nowUs batchLimit flushTail rfl x hx
  obtain rfl := hsame (by simp)
  exact h.newBunches_inWindow hnext hp hx

theorem Windowed.next (h : s.Windowed r) (a : Bool × LinkAction) (hp : s.Paced a) : (s.next a).Windowed r := by
  refine ⟨h.handled.next a, fun b => ?_⟩
  obtain ⟨n, hsync, hcarried⟩ := h.direction b
  exact hsync.window_next hcarried h.handled a hp

theorem reach_windowed (h : linkSystem.Reach Paced s) : ∃ r, s.Windowed r := by
  refine System.Reach.invariant (I := fun s => ∃ r, s.Windowed r) ?_ ?_ h
  · intro s hstart
    obtain ⟨hhandled, r, hr⟩ := hstart.synced
    exact ⟨r, hhandled, fun b => ⟨fun _ => 0, (hr b).1, (hr b).2 _⟩⟩
  · intro s a ⟨r, hs⟩ ha
    exact ⟨r, hs.next a ha⟩

end

end Link

/-- In every state of a run that keeps the pace, the window holds on every channel in both directions. -/
theorem sequence_window {s : Link} (h : linkSystem.Reach Link.Paced s) (b : Bool) (i : ℕ) : s.WindowHolds b i := by
  obtain ⟨r, hs⟩ := Link.reach_windowed h
  obtain ⟨n, hsync, hcarried⟩ := hs.direction b
  exact hsync.windowHolds hcarried i

/-! ## Out of the window -/

namespace ChannelBunchBuilder

structure Idle (i : ℕ) (b : ChannelBunchBuilder) : Prop where
  installed : Installed i b
  activeMsgs : b.activeMsgs = []
  activePayload : b.activePayload = 0
  queuedMessage : b.queuedMessage = []

variable {i : ℕ} {b : ChannelBunchBuilder}

theorem Idle.begun_submit (h : Idle i b) (m : NetMessage) : Installed i ((b.submit m).begun 0) ∧
    ((b.submit m).begun 0).activeMsgs = [] ∧ ((b.submit m).begun 0).activePayload = 0 ∧
    ((b.submit m).begun 0).queuedMessage = [m] ∧ ((b.submit m).begun 0).queuedOutBunch = b.queuedOutBunch := by
  obtain ⟨hI, hmsgs, hpayload, hqueue⟩ := h
  have hsubmit : (b.submit m).queuedMessage = [m] := by rw [submit, hqueue]; rfl
  unfold begun
  split_ifs
  · exact ⟨hI.withMessages _, hmsgs, hpayload, hsubmit, rfl⟩
  · exact ⟨⟨hI.1, hI.2, hI.3, hI.4, hI.5, hI.6, hI.7⟩, rfl, rfl, hsubmit, rfl⟩

theorem sealTail_eq (hne : b.activeMsgs ≠ []) (o : ℕ) : sealTail (fun _ => 0) 1 true (b, o) = b.sealAndReset 0 o := by
  have hempty : b.empty = false := by
    rw [empty, List.isEmpty_eq_false_iff]
    exact hne
  have hreset : (b.sealAndReset 0 o).1.empty = true := rfl
  unfold sealTail
  cases hc : b.coalesceOver 0 with
  | true => simp only [if_true, hreset, Bool.not_true, Bool.and_false, Bool.false_eq_true, if_false]
  | false => simp only [Bool.false_eq_true, if_false, hempty, Bool.not_false, Bool.and_self, if_true]

theorem Idle.pump_one (h : Idle i b) {m : NetMessage} (hm : m.size ≤ 1000) (o : ℕ) :
    Idle i ((b.submit m).pump (fun _ => 0) 1 true o).1 ∧
      ((b.submit m).pump (fun _ => 0) 1 true o).1.queuedOutBunch =
        b.queuedOutBunch ++ [channelBunch i ((o + 1) % 2 ^ 32) [m] m.size] ∧
      ((b.submit m).pump (fun _ => 0) 1 true o).2 = (o + 1) % 2 ^ 32 := by
  obtain ⟨hI, hmsgs, hpayload, hqueue, hout⟩ := h.begun_submit m
  rw [pump_eq]
  generalize (b.submit m).begun 0 = b₁ at hI hmsgs hpayload hqueue hout
  have hI₁ : Installed i { b₁ with queuedMessage := [] } := hI.withMessages []
  have hsize : (b₁.activePayload + m.size) % 2 ^ 32 = m.size := by
    rw [hpayload, Nat.zero_add]
    exact Nat.mod_eq_of_lt m.size_lt
  -- the message goes into the open bunch, which is not full with it
  have hfull : ({ b₁ with queuedMessage := [] }.inserted m).isFull = false := by
    rw [← Bool.not_eq_true, hI₁.isFull_inserted m]
    show ¬ (255 ≤ b₁.activeMsgs.length + 1 ∨ 1176 ≤ (b₁.activePayload + m.size) % 2 ^ 32)
    rw [hsize, hmsgs, List.length_nil]
    omega
  have hloop : pumpLoop (fun _ => 0) 1 1 b₁ o = ({ b₁ with queuedMessage := [] }.inserted m, o) := by
    have hshort : ({ b₁ with queuedMessage := [] } : ChannelBunchBuilder).activeMsgs.length < 255 := by
      show b₁.activeMsgs.length < 255
      rw [hmsgs]
      decide
    rw [pumpLoop, hqueue]
    simp only [pumpLoop]
    rcases pumpMessage_cases hI₁ hshort 0 m o with ⟨-, he⟩ | ⟨hover, -⟩ | ⟨hover, -⟩
    · rw [he, sealIfFull, hfull]
      rfl
    · exact absurd (hsize ▸ hover : 1176 < m.size) (by omega)
    · exact absurd (hsize ▸ hover : 1176 < m.size) (by omega)
  have hinserted : ({ b₁ with queuedMessage := [] }.inserted m).activeMsgs = [m] := by
    show b₁.activeMsgs ++ [m] = [m]
    rw [hmsgs, List.nil_append]
  have hsealed : ({ b₁ with queuedMessage := [] }.inserted m).sealed ((o + 1) % 2 ^ 32) =
      channelBunch i ((o + 1) % 2 ^ 32) [m] m.size := by
    rw [(hI₁.inserted m).sealed, hinserted]
    exact congrArg (channelBunch i ((o + 1) % 2 ^ 32) [m]) hsize
  rw [hloop, sealTail_eq (by rw [hinserted]; simp)]
  refine ⟨⟨(hI₁.inserted m).sealAndReset 0 o, rfl, rfl, rfl⟩, ?_, rfl⟩
  rw [sealAndReset_eq, hsealed, ← hout]
  rfl

end ChannelBunchBuilder

namespace Link

/-- A message of five bytes is submitted on channel `0` of the server and pumped. -/
def round (s : Link) : Link :=
  (s.next (true, .submit 0 (messageOf 5))).next (true, .pump 0 (fun _ => 0) 1 true)

structure Unsent (o : ℕ) (s : Link) : Prop where
  reachable : linkSystem.Reachable s
  sender : ∃ ch, (s.ends true).channel? 0 = some ch ∧ Idle 0 ch.bunchBuilder ∧ ch.outReliable = o ∧
    (0 < o → channelBunch 0 o [messageOf 5] 5 ∈ ch.bunchBuilder.queuedOutBunch)
  receiver : ∃ ch, (s.ends false).channel? 0 = some ch ∧ ch.inReliable = 0

section
variable (ch : NetChannel) (m : NetMessage) (nowUs : ℕ → ℕ) (batchLimit : ℕ) (flushTail : Bool)

theorem builder_submitted : ((ch.registerMessage m).pumpBunch nowUs batchLimit flushTail).bunchBuilder =
    ((ch.bunchBuilder.submit m).pump nowUs batchLimit flushTail ch.outReliable).1 := rfl

theorem outReliable_submitted : ((ch.registerMessage m).pumpBunch nowUs batchLimit flushTail).outReliable =
    ((ch.bunchBuilder.submit m).pump nowUs batchLimit flushTail ch.outReliable).2 := rfl

end

theorem round_ends (s : Link) : s.round.ends = Function.update s.ends true (((s.ends true).modifyChannel 0 fun ch =>
    ch.registerMessage (messageOf 5)).modifyChannel 0 fun ch => ch.pumpBunch (fun _ => 0) 1 true) := by
  simp only [Link.round, Link.next, setEnd, Function.update_self, Function.update_idem]

theorem Unsent.round {o : ℕ} {s : Link} (h : Unsent o s) (ho : o + 1 < 2 ^ 32) : Unsent (o + 1) s.round := by
  obtain ⟨ch, hch, hidle, hout, -⟩ := h.sender
  have hsubmit : linkSystem.Reachable (s.next (true, .submit 0 (messageOf 5))) :=
    System.Reach.next (a := (true, LinkAction.submit 0 (messageOf 5))) h.reachable trivial
  have hpump : linkSystem.Reachable s.round :=
    System.Reach.next (a := (true, LinkAction.pump 0 (fun _ => 0) 1 true)) hsubmit trivial
  refine ⟨hpump, ?_, ?_⟩
  rotate_left
  · rw [round_ends, Function.update_of_ne (by decide)]
    exact h.receiver
  obtain ⟨hidle', hqueue, hnumber⟩ := hidle.pump_one (m := messageOf 5) (by decide) ch.outReliable
  refine ⟨(ch.registerMessage (messageOf 5)).pumpBunch (fun _ => 0) 1 true, ?_, by rw [builder_submitted]; exact hidle', ?_, ?_⟩
  · simp only [round_ends, Function.update_self, channel?_modifyChannel, if_true, hch, Option.map_some]
  · rw [outReliable_submitted, hnumber, hout]
    exact Nat.mod_eq_of_lt ho
  · intro _
    have hmem : channelBunch 0 (o + 1) [messageOf 5] 5 ∈ ch.bunchBuilder.queuedOutBunch ++
        [channelBunch 0 ((ch.outReliable + 1) % 2 ^ 32) [messageOf 5] (messageOf 5).size] := by
      rw [hout, Nat.mod_eq_of_lt ho]
      exact List.mem_append_right _ (List.mem_singleton_self _)
    rw [builder_submitted, hqueue]
    exact hmem

def start : Link where
  ends b := ((NetConnection.new b 2 .open).createInitialChannels.initSequence 0 0).2
  network := fun _ => []
  sealed := fun _ _ => []
  submitted := fun _ _ => []

theorem start_start : start.Start := ⟨⟨2, fun _ => 0, Nat.le_refl 2, fun _ => rfl⟩, rfl, rfl, rfl⟩

theorem unsent_rounds : ∀ o < 2 ^ 32, Unsent o (round^[o] start)
  | 0, _ => ⟨.init start_start, ⟨_, rfl, ⟨installed_forChannel 0, rfl, rfl, rfl⟩, rfl, fun h => absurd h (by decide)⟩,
      _, rfl, rfl⟩
  | o + 1, ho => by
    rw [Function.iterate_succ_apply']
    exact (unsent_rounds o (Nat.lt_of_succ_lt ho)).round ho

end Link

/-- The first bunch, on its way. -/
theorem sequence_window_first : Link.start.round.Outstanding true 0 1 ∧ Link.start.round.WindowHolds true 0 := by
  obtain ⟨-, ⟨ch, hch, -, -, hmem⟩, -⟩ := Link.unsent_rounds 1 (by decide)
  have hsum : Measured [messageOf 5] 5 := ⟨by decide, by decide, by decide⟩
  have hseq : (channelBunch 0 1 [messageOf 5] 5).chSequence = 1 := by
    rw [OutReadyBunch.chSequence, received_channelBunch hsum (by decide) (by decide)]
  have hsubmit : linkSystem.Reach Link.Paced (Link.start.next (true, .submit 0 (messageOf 5))) := by
    apply System.Reach.next (a := (true, LinkAction.submit 0 (messageOf 5))) (.init Link.start_start)
    show (messageOf 5).size + 1176 < 2 ^ 32
    decide
  have hpump : linkSystem.Reach Link.Paced Link.start.round := by
    apply System.Reach.next (a := (true, LinkAction.pump 0 (fun _ => 0) 1 true)) hsubmit
    intro ch peer hch hpeer
    obtain rfl := Option.some.inj hch
    obtain rfl := Option.some.inj hpeer
    exact ⟨by decide +kernel, by decide +kernel⟩
  exact ⟨.inl ⟨_, channelBunch_chIndex 0 1 _ _, hseq, .inl ⟨0, ch, hch,
    List.mem_append_left _ (List.mem_append_left _ (hmem (by decide)))⟩⟩, sequence_window hpump true 0⟩

/-- Five hundred and twelve bunches are sealed before the first one is sent: the last one is out of the window, and would
be read as another number. -/
theorem window_exceeded : ¬ ∀ s : Link, linkSystem.Reachable s → ∀ b i, s.WindowHolds b i := by
  intro h
  have hunsent := Link.unsent_rounds 512 (by decide)
  generalize Link.round^[512] Link.start = s at hunsent
  obtain ⟨hreach, ⟨ch, hch, -, -, hmem⟩, peer, hpeer, hin⟩ := hunsent
  have hsum : Measured [messageOf 5] 5 := ⟨by decide, by decide, by decide⟩
  have hseq : (channelBunch 0 512 [messageOf 5] 5).chSequence = 512 := by
    rw [OutReadyBunch.chSequence, received_channelBunch hsum (by decide) (by decide)]
  have hout : s.Outstanding true 0 512 :=
    .inl ⟨_, channelBunch_chIndex 0 512 _ _, hseq, .inl ⟨0, ch, hch,
      List.mem_append_left _ (List.mem_append_left _ (hmem (by decide)))⟩⟩
  have hbad := (h _ hreach true 0 peer 512 hpeer hout).1
  rw [hin] at hbad
  exact absurd hbad (by decide)

end RudpEngine
