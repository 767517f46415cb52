import RudpEngine.SequenceWindow

/-!
# Delivery in order

A channel seals the messages submitted on it in their order, where a bunch has
room for each of them. Its peer takes the bunches in the order of their numbers,
so that what it has handed on is always a first part of what was submitted. A
message that no bunch has room for is dropped behind those of the open bunch, and
the ones that follow it are handed on without it.
-/

namespace RudpEngine

open ChannelBunchBuilder NetConnection NetConnection.Assembling

/-- The message begins with its size, and a bunch has room for it. -/
structure Deliverable (m : NetMessage) : Prop where
  framed : m.Framed
  room : m.size ≤ 1176

theorem Deliverable.small {m : NetMessage} (h : Deliverable m) : Small m := by
  have hroom := h.room
  unfold Small
  omega

/-! ## The order of a builder -/

namespace ChannelBunchBuilder

variable {i o₀ o : ℕ} {queue₀ : List OutReadyBunch} {b : ChannelBunchBuilder}

theorem Follows.pumpMessage (hI : Installed i b) (hlen : b.activeMsgs.length < 255) {m : NetMessage} {rest : List NetMessage}
    (hq : b.queuedMessage = m :: rest) (hm : m.size ≤ 1176) (nowUs o : ℕ) :
    ∃ new, Follows b ({ b with queuedMessage := rest }.pumpMessage nowUs m o).1 new := by
  rcases pumpMessage_cases (hI.withMessages rest) hlen nowUs m o with ⟨-, he⟩ | ⟨-, -, he⟩ | ⟨-, hsize, -⟩
  · rw [he]
    obtain ⟨new, hnew⟩ := Follows.sealIfFull ({ b with queuedMessage := rest }.inserted m) nowUs o
    exact ⟨_, (Follows.inserted hq).trans hnew⟩
  · -- the open bunch is sealed before the message goes into the next one
    rw [he]
    have hseal := Follows.sealAndReset b nowUs o
    have hq' : (b.sealAndReset nowUs o).1.queuedMessage = m :: rest := hq
    obtain ⟨new, hnew⟩ := Follows.sealIfFull ({ (b.sealAndReset nowUs o).1 with queuedMessage := rest }.inserted m) nowUs
      (({ b with queuedMessage := rest } : ChannelBunchBuilder).sealAndReset nowUs o).2
    exact ⟨_, (hseal.trans (Follows.inserted hq')).trans hnew⟩
  · exact absurd hm (Nat.not_le.mpr hsize)

theorem Follows.begun (hinit : b.activeHasInit = true ∨ b.activeMsgs = []) (nowUs : ℕ) : Follows b (b.begun nowUs) [] := by
  unfold ChannelBunchBuilder.begun
  split_ifs with hi
  · exact .refl b
  · refine ⟨(List.append_nil _).symm, ?_⟩
    show b.activeMsgs ++ b.queuedMessage = [] ++ b.queuedMessage
    rw [hinit.resolve_left hi]

theorem activeHasInit_begun (b : ChannelBunchBuilder) (nowUs : ℕ) : (b.begun nowUs).activeHasInit = true := by
  unfold ChannelBunchBuilder.begun
  split_ifs with hi
  · exact hi
  · rfl

theorem Follows.pump (hb : Building i o₀ Active Measured queue₀ b o) (hinit : b.activeHasInit = true ∨ b.activeMsgs = [])
    (hroom : ∀ m ∈ b.queuedMessage, m.size ≤ 1176) (nowUs : ℕ → ℕ) (batchLimit : ℕ) (flushTail : Bool) :
    (b.pump nowUs batchLimit flushTail o).1.activeHasInit = true ∧
      ∃ new, Follows b (b.pump nowUs batchLimit flushTail o).1 new := by
  suffices h : Building i o₀ Active Measured queue₀ (b.pump nowUs batchLimit flushTail o).1
      (b.pump nowUs batchLimit flushTail o).2 ∧ (b.pump nowUs batchLimit flushTail o).1.activeHasInit = true ∧
      (∀ m ∈ (b.pump nowUs batchLimit flushTail o).1.queuedMessage, m.size ≤ 1176) ∧
      ∃ new, Follows b (b.pump nowUs batchLimit flushTail o).1 new from ⟨h.2.1, h.2.2.2⟩
  refine pump_rule (I := fun b' o' => Building i o₀ Active Measured queue₀ b' o' ∧ b'.activeHasInit = true ∧
    (∀ m ∈ b'.queuedMessage, m.size ≤ 1176) ∧ ∃ new, Follows b b' new) ?_ ?_ ?_ (pumpMeets_true nowUs batchLimit flushTail b o)
  · intro b' o' m rest now ⟨hb', hinit', hroom', new, hnew⟩ hq _
    rw [hq] at hroom'
    have hm := hroom' m (List.mem_cons_self ..)
    have hsmall : Small m := by
      unfold Small
      omega
    have hinit' : ({ b' with queuedMessage := rest } : ChannelBunchBuilder).activeHasInit = true := hinit'
    obtain ⟨new', hnew'⟩ := Follows.pumpMessage hb'.installed hb'.short hq hm now o'
    refine ⟨hb'.pumpSmall rest hsmall now, activeHasInit_pumpMessage hinit' now m o', ?_, _, hnew.trans hnew'⟩
    rw [queuedMessage_pumpMessage]
    exact fun x hx => hroom' x (List.mem_cons_of_mem _ hx)
  · intro b' o' now ⟨hb', _, hroom', new, hnew⟩ _ _
    have hseal := Follows.sealAndReset b' now o'
    exact ⟨.afterSeal active_nil hb'.installed hb'.sealed (hb'.active.measured (Nat.le_of_lt hb'.short)) now, rfl, hroom',
      _, hnew.trans hseal⟩
  · refine ⟨hb.begun (fun _ => active_nil) _, activeHasInit_begun b _, ?_, [], Follows.begun hinit _⟩
    unfold ChannelBunchBuilder.begun
    split_ifs <;> exact hroom

end ChannelBunchBuilder

/-! ## The order of a channel -/

/-- The messages submitted on the channel are those sealed, and those in its builder behind them. -/
structure InLine (l : List OutReadyBunch) (submitted : List NetMessage) (ch : NetChannel) : Prop where
  messages : submitted = l.flatMap OutReadyBunch.messages ++ ch.bunchBuilder.unsealed
  begun : ch.bunchBuilder.activeHasInit = true ∨ ch.bunchBuilder.activeMsgs = []

namespace InLine

variable {l : List OutReadyBunch} {submitted : List NetMessage} {ch ch' : NetChannel}

theorem of_same (h : InLine l submitted ch) (hb : ch'.bunchBuilder = ch.bunchBuilder) : InLine l submitted ch' := by
  constructor
  · rw [hb]; exact h.messages
  · rw [hb]; exact h.begun

theorem submit (h : InLine l submitted ch) (m : NetMessage) : InLine l (submitted ++ [m]) (ch.registerMessage m) := by
  refine ⟨?_, h.begun⟩
  show submitted ++ [m] = l.flatMap OutReadyBunch.messages ++ (ch.bunchBuilder.activeMsgs ++ (ch.bunchBuilder.queuedMessage ++ [m]))
  rw [h.messages, ChannelBunchBuilder.unsealed, List.append_assoc, List.append_assoc]

theorem ready (h : InLine l submitted ch) : InLine l submitted (ch.flushReady ch.bunchBuilder.queuedOutBunch.length) := by
  rw [SendRun.flushReady_eq _ ch rfl]
  exact ⟨h.messages, h.begun⟩

theorem pump {i r₀ : ℕ} (h : InLine l submitted ch) (hseals : Seals i r₀ l ch) (hroom : ∀ m ∈ submitted, m.size ≤ 1176)
    {nowUs : ℕ → ℕ} {batchLimit : ℕ} {flushTail : Bool} {new : List OutReadyBunch}
    (hq : (ch.pumpBunch nowUs batchLimit flushTail).bunchBuilder.queuedOutBunch = ch.bunchBuilder.queuedOutBunch ++ new) :
    InLine (l ++ new) submitted (ch.pumpBunch nowUs batchLimit flushTail) := by
  have hwaits : ∀ m ∈ ch.bunchBuilder.queuedMessage, m.size ≤ 1176 := by
    intro m hm
    apply hroom
    rw [h.messages]
    exact List.mem_append_right _ (List.mem_append_right _ hm)
  obtain ⟨hbegun, new', hnew⟩ := Follows.pump hseals.building h.begun hwaits nowUs batchLimit flushTail
  obtain rfl : new' = new := List.append_cancel_left (hnew.queue.symm.trans hq)
  refine ⟨?_, .inl hbegun⟩
  rw [h.messages, hnew.messages, List.flatMap_append, List.append_assoc]
  rfl

/-- What was sealed first was submitted first. -/
theorem sealed_prefix (h : InLine l submitted ch) (n : ℕ) : (l.take n).flatMap OutReadyBunch.messages <+: submitted := by
  rw [h.messages]
  have hsplit : l.flatMap OutReadyBunch.messages =
      (l.take n).flatMap OutReadyBunch.messages ++ (l.drop n).flatMap OutReadyBunch.messages := by
    rw [← List.flatMap_append, List.take_append_drop]
  rw [hsplit, List.append_assoc]
  exact List.prefix_append _ _

theorem mem_sealed (h : InLine l submitted ch) {bunch : OutReadyBunch} (hb : bunch ∈ l) {m : NetMessage}
    (hm : m ∈ bunch.messages) : m ∈ submitted := by
  rw [h.messages]
  exact List.mem_append_left _ (List.mem_flatMap.mpr ⟨bunch, hb, hm⟩)

end InLine

/-! ## The runs -/

namespace Link

/-- Every message submitted begins with its size and has room in a bunch, the numbers of a channel do not wrap, and every
bunch is within half of `MAX_CHSEQUENCE` of the `InReliable` that it meets at its turn. -/
def Orderly (s : Link) : Bool × LinkAction → Prop
  | (_, .submit _ m) => Deliverable m
  | (b, .pump i nowUs batchLimit flushTail) => ∀ ch, (s.ends b).channel? i = some ch →
      ch.outReliable + ((s.ends b).newBunches i nowUs batchLimit flushTail).length < 2 ^ 32
  | (b, .dispatch) => ∀ (k : ℕ) (r : RecvPacketReader), (s.ends b).pendingDispatchPacketReaders[k]? = some r →
      BunchesMeet BunchNear (((s.ends b).atTurn k).payloadBunches r.payload) ((s.ends b).atTurn k)
  | _ => True

def KeepsLine (ch ch' : NetChannel) : Prop := ∀ l submitted, InLine l submitted ch → InLine l submitted ch'

theorem keepsLine_of_sendKept (ch ch' : NetChannel) (h : NetChannel.SendKept ch ch') : KeepsLine ch ch' :=
  fun _ _ hline => hline.of_same h.1

structure Lined (b : Bool) (s : Link) : Prop where
  deliverable : ∀ i, ∀ m ∈ s.submitted b i, Deliverable m
  channel : ∀ i ch, (s.ends b).channel? i = some ch → InLine (s.sealed b i) (s.submitted b i) ch

section
variable {s s' : Link} {r₀ : ℕ} {n : ℕ → ℕ} {b : Bool}

theorem Lined.related {c : NetConnection} (h : s.Lined b) (hsealed : s'.sealed b = s.sealed b)
    (hsubmitted : s'.submitted b = s.submitted b) (hends : s'.ends b = c)
    (hrel : ChannelsRelated KeepsLine (s.ends b) c) : s'.Lined b := by
  subst hends
  constructor
  · rw [hsubmitted]
    exact h.deliverable
  · intro i ch' hi
    obtain ⟨ch, hch, hkeeps⟩ := hrel.back hi
    rw [hsealed, hsubmitted]
    exact hkeeps _ _ (h.channel i ch hch)

theorem next_other (s : Link) (b : Bool) (a : LinkAction) : (s.next (!b, a)).ends b = s.ends b ∧
    (s.next (!b, a)).sealed b = s.sealed b ∧ (s.next (!b, a)).submitted b = s.submitted b := by
  have hne : b ≠ !b := by simp
  cases a with
  | submit i m => exact ⟨setEnd_not .., rfl, Function.update_of_ne hne ..⟩
  | pump i nowUs batchLimit flushTail => exact ⟨setEnd_not .., Function.update_of_ne hne .., rfl⟩
  | deliver k =>
    show (s.deliver (!b) k).ends b = s.ends b ∧ (s.deliver (!b) k).sealed b = s.sealed b ∧
      (s.deliver (!b) k).submitted b = s.submitted b
    unfold Link.deliver
    cases (s.network (!!b))[k]? with
    | none => exact ⟨rfl, rfl, rfl⟩
    | some packet => exact ⟨setEnd_not .., rfl, rfl⟩
  | duplicate k => exact ⟨rfl, rfl, rfl⟩
  | lose k => exact ⟨rfl, rfl, rfl⟩
  | _ => exact ⟨setEnd_not .., rfl, rfl⟩

theorem Lined.submit (h : s.Lined b) (i : ℕ) {m : NetMessage} (hm : Deliverable m) : (s.next (b, .submit i m)).Lined b := by
  have hat : (s.next (b, .submit i m)).submitted b = Function.update (s.submitted b) i (s.submitted b i ++ [m]) :=
    Function.update_self ..
  constructor
  · intro j x hx
    rw [hat] at hx
    by_cases hj : j = i
    · subst hj
      rw [Function.update_self] at hx
      rcases List.mem_append.mp hx with hx | hx
      · exact h.deliverable j x hx
      · obtain rfl := List.mem_singleton.mp hx
        exact hm
    · rw [Function.update_of_ne hj] at hx
      exact h.deliverable j x hx
  · intro j ch hj
    have hends : (s.next (b, .submit i m)).ends b = (s.ends b).modifyChannel i fun ch => ch.registerMessage m :=
      setEnd_same ..
    rw [hends] at hj
    rw [hat]
    rcases NetConnection.of_channel?_modifyChannel hj with ⟨ch₀, rfl, hch₀, rfl⟩ | ⟨hji, hj⟩
    · rw [Function.update_self]
      exact (h.channel j ch₀ hch₀).submit m
    · rw [Function.update_of_ne hji]
      exact h.channel j ch hj

theorem Lined.pump (h : s.Lined b) (hsync : s.Synced r₀ n b) (i : ℕ) (nowUs : ℕ → ℕ) (batchLimit : ℕ) (flushTail : Bool) :
    (s.next (b, .pump i nowUs batchLimit flushTail)).Lined b := by
  refine ⟨h.deliverable, ?_⟩
  intro j ch hj
  have hends : (s.next (b, .pump i nowUs batchLimit flushTail)).ends b =
      (s.ends b).modifyChannel i fun ch => ch.pumpBunch nowUs batchLimit flushTail := setEnd_same ..
  have hsealed : (s.next (b, .pump i nowUs batchLimit flushTail)).sealed b =
      Function.update (s.sealed b) i (s.sealed b i ++ (s.ends b).newBunches i nowUs batchLimit flushTail) :=
    Function.update_self ..
  rw [hends] at hj
  rw [hsealed]
  rcases NetConnection.of_channel?_modifyChannel hj with ⟨ch₀, rfl, hch₀, rfl⟩ | ⟨hji, hj⟩
  · rw [Function.update_self]
    exact (h.channel j ch₀ hch₀).pump (hsync.seals j ch₀ hch₀) (fun m hm => (h.deliverable j m hm).room)
      (queuedOutBunch_pumpBunch hch₀ nowUs batchLimit flushTail)
  · rw [Function.update_of_ne hji]
    exact h.channel j ch hj

/-- One step: what is submitted joins the line, and what is sealed moves on in it. -/
theorem Lined.next (h : s.Lined b) (hsync : s.Synced r₀ n b) (a : Bool × LinkAction) (ha : s.Orderly a) :
    (s.next a).Lined b := by
  obtain ⟨x, a⟩ := a
  by_cases hx : x = b
  · subst hx
    have hstill : ∀ c : NetConnection, (s.ends x).Still c → ChannelsRelated KeepsLine (s.ends x) c :=
      fun c hrel => hrel.mono fun ch ch' hk => keepsLine_of_sendKept ch ch' hk.1
    cases a with
    | submit i m => exact h.submit i ha
    | pump i nowUs batchLimit flushTail => exact h.pump hsync i nowUs batchLimit flushTail
    | ready i =>
      refine h.related rfl rfl (setEnd_same ..) ?_
      exact .modifyChannel (fun _ _ _ hline => hline) _ i fun ch _ _ hline => hline.ready
    | assemble keepAliveDue => exact h.related rfl rfl (setEnd_same ..) (hstill _ (still_assemble _ keepAliveDue))
    | flush nowUs => exact h.related rfl rfl (setEnd_same ..) (hstill _ (still_flushPacket _ nowUs))
    | deliver k =>
      show (s.deliver x k).Lined x
      unfold Link.deliver
      cases (s.network (!x))[k]? with
      | none => exact h
      | some packet => exact h.related rfl rfl (setEnd_same ..) (hstill _ (still_receivedRawPacket _ packet.wire))
    | duplicate k => exact ⟨h.deliverable, h.channel⟩
    | lose k => exact ⟨h.deliverable, h.channel⟩
    | dispatch =>
      refine h.related rfl rfl (setEnd_same ..) ?_
      exact (dispatchPendingPacket_related hsync.present).mono fun ch ch' hm => keepsLine_of_sendKept ch ch' hm.sendKept
  · obtain rfl := Bool.eq_not.mpr hx
    obtain ⟨hends, hsealed, hsubmitted⟩ := next_other s b a
    exact h.related hsealed hsubmitted hends (.same (fun _ _ _ hline => hline) rfl)

/-- Both directions: what is on its way was sealed, and what was sealed was submitted in this order. -/
structure Ordered (r : Bool → ℕ) (s : Link) : Prop where
  handled : s.Handled
  direction : ∀ b, ∃ n, s.Synced (r b) n b ∧ Carried (SealedIn (s.sealed b)) b s ∧ s.Lined b

theorem Ordered.next {r : Bool → ℕ} (h : s.Ordered r) (a : Bool × LinkAction) (ha : s.Orderly a) : (s.next a).Ordered r := by
  refine ⟨h.handled.next a, fun b => ?_⟩
  obtain ⟨n, hsync, hcarried, hlined⟩ := h.direction b
  have hsmall : ∀ i m, a = (b, .submit i m) → Small m := by
    rintro i m rfl
    exact Deliverable.small ha
  have hbound : ∀ i nowUs batchLimit flushTail ch, a = (b, .pump i nowUs batchLimit flushTail) →
      (s.ends b).channel? i = some ch →
        ch.outReliable + ((s.ends b).newBunches i nowUs batchLimit flushTail).length < 2 ^ 32 := by
    rintro i nowUs batchLimit flushTail ch rfl hch
    exact ha ch hch
  obtain ⟨n', -, -, hnext⟩ := hsync.next hcarried a hsmall hbound fun hdispatch k reader _ hreader _ _ =>
    (hdispatch ▸ ha) k reader hreader
  refine ⟨n', hnext, ?_, hlined.next hsync a ha⟩
  apply (hcarried.mono fun x hx => Synced.sealedIn_mono s b a hx).next h.handled (fun x hx => hnext.numbered hx)
  rintro i nowUs batchLimit flushTail rfl x hx
  exact hsync.newBunches_sealed hx

theorem Start.ordered (h : s.Start) : ∃ r, s.Ordered r := by
  obtain ⟨hhandled, r, hr⟩ := h.synced
  refine ⟨r, hhandled, fun b => ⟨fun _ => 0, (hr b).1, (hr b).2 _, ?_, ?_⟩⟩
  · rw [h.submitted]
    exact fun i m hm => absurd hm List.not_mem_nil
  · intro i ch hch
    rw [h.sealed, h.submitted]
    obtain ⟨⟨m, sequence, hm, hends⟩, -⟩ := h
    rw [channel?_start hm hends] at hch
    split_ifs at hch
    obtain rfl := Option.some.inj hch
    exact ⟨rfl, .inr rfl⟩

theorem reach_ordered (h : linkSystem.Reach Orderly s) : ∃ r, s.Ordered r := by
  refine System.Reach.invariant (I := fun s => ∃ r, s.Ordered r) (fun s (hs : s.Start) => hs.ordered) ?_ h
  intro s a ⟨r, hs⟩ ha
  exact ⟨r, hs.next a ha⟩

end

end Link

/-- In every state of an orderly run, what the channel has handed on at one end is a first part of what was submitted on it
at the other end. -/
theorem delivered_in_order {s : Link} (h : linkSystem.Reach Link.Orderly s) (b : Bool) {i : ℕ} {ch : NetChannel}
    (hch : (s.ends (!b)).channel? i = some ch) : ch.receivedMessages <+: (s.submitted b i).map NetMessage.received := by
  obtain ⟨r, hordered⟩ := Link.reach_ordered h
  obtain ⟨_, hother, -⟩ := hordered.direction (!b)
  obtain ⟨n, hsync, -, hlined⟩ := hordered.direction b
  obtain ⟨sender, hsender⟩ := hsync.present i (hother.only i ch hch)
  have hline := hlined.channel i sender hsender
  have hframed : ∀ x ∈ s.sealed b i, ∀ m ∈ x.messages, m.Framed :=
    fun x hx m hm => (hlined.deliverable i m (hline.mem_sealed hx hm)).framed
  rw [(hsync.takes.channel i ch hch).received hframed]
  exact (hline.sealed_prefix (n i)).map NetMessage.received

/-! ## A datagram that comes twice, and a message without room -/

def idMessage (id : Byte) : NetMessage := ⟨[4, 0, id, 0], true, 0, of_decide_eq_true rfl⟩

def wideMessage : NetMessage :=
  ⟨[0xb0, 4, 9, 0] ++ List.replicate 1196 0, true, 0, by rw [List.length_append, List.length_replicate]; decide⟩

namespace Link

/-- The server submits `messages` on channel `0` and pumps, and its packet comes in at the other end. -/
def sendAll (messages : List NetMessage) : Link :=
  linkSystem.runFrom start (messages.map (fun m => (true, LinkAction.submit 0 m)) ++
    [(true, .pump 0 (fun _ => 0) 3 true), (true, .ready 0), (true, .assemble false), (true, .flush 0), (false, .deliver 0)])

/-- The server submits two messages and sends them, and the network delivers its datagram twice. -/
def sendTwice : Link :=
  linkSystem.runFrom start [(true, .submit 0 (idMessage 1)), (true, .submit 0 (idMessage 2)),
    (true, .pump 0 (fun _ => 0) 3 true), (true, .ready 0), (true, .assemble false), (true, .flush 0), (true, .duplicate 0),
    (false, .deliver 0), (false, .deliver 0)]

theorem reach_sendTwice : linkSystem.Reach Orderly sendTwice := by
  have hfirst : linkSystem.Reach Orderly (start.next (true, .submit 0 (idMessage 1))) :=
    System.Reach.next (a := (true, LinkAction.submit 0 (idMessage 1))) (.init start_start)
      ⟨⟨by decide, by decide, by decide⟩, by decide⟩
  have hsecond : linkSystem.Reach Orderly
      ((start.next (true, .submit 0 (idMessage 1))).next (true, .submit 0 (idMessage 2))) :=
    System.Reach.next (a := (true, LinkAction.submit 0 (idMessage 2))) hfirst ⟨⟨by decide, by decide, by decide⟩, by decide⟩
  have hpump : linkSystem.Reach Orderly (((start.next (true, .submit 0 (idMessage 1))).next
      (true, .submit 0 (idMessage 2))).next (true, .pump 0 (fun _ => 0) 3 true)) := by
    apply System.Reach.next (a := (true, LinkAction.pump 0 (fun _ => 0) 3 true)) hsecond
    intro ch hch
    obtain rfl := Option.some.inj hch
    decide +kernel
  have hflush := System.Reach.next (a := (true, LinkAction.flush 0)) (.next (a := (true, LinkAction.assemble false))
    (.next (a := (true, LinkAction.ready 0)) hpump trivial) trivial) trivial
  have hdeliver := System.Reach.next (a := (false, LinkAction.deliver 0))
    (.next (a := (true, LinkAction.duplicate 0)) hflush trivial) trivial
  exact System.Reach.next (a := (false, LinkAction.deliver 0)) hdeliver trivial

theorem orderly_dispatchTwice : sendTwice.Orderly (false, .dispatch) := by
  intro k r hr
  have htwo : (sendTwice.ends false).pendingDispatchPacketReaders.length = 2 := by decide +kernel
  have hlt := (List.getElem?_eq_some_iff.mp hr).1
  rw [htwo] at hlt
  -- the same bunch at both turns, the second time behind itself
  have hbunches : ((sendTwice.ends false).atTurn k).payloadBunches r.payload =
      [(⟨true, true, false, true, 0, 1, 2, 8⟩, [4, 0, 1, 0, 4, 0, 2, 0])] := by
    interval_cases k
    · obtain rfl := Option.some.inj hr
      decide +kernel
    · obtain rfl := Option.some.inj hr
      decide +kernel
  rw [hbunches]
  refine ⟨?_, fun _ => trivial⟩
  intro ch hch
  interval_cases k
  · obtain rfl := Option.some.inj hch
    exact ⟨by decide +kernel, by decide +kernel⟩
  · obtain rfl := Option.some.inj hch
    exact ⟨by decide +kernel, by decide +kernel⟩

end Link

/-- The two messages are handed on once, although their datagram is dispatched twice. -/
theorem delivered_in_order_twice : ∃ ch, ((Link.sendTwice.next (false, .dispatch)).ends false).channel? 0 = some ch ∧
    (Link.sendTwice.ends false).pendingDispatchPacketReaders.length = 2 ∧
    ch.receivedMessages = [(idMessage 1).received, (idMessage 2).received] ∧ ch.receivedMessages <+:
      ((Link.sendTwice.next (false, .dispatch)).submitted true 0).map NetMessage.received := by
  have hreach : linkSystem.Reach Link.Orderly (Link.sendTwice.next (false, .dispatch)) :=
    System.Reach.next (a := (false, LinkAction.dispatch)) Link.reach_sendTwice Link.orderly_dispatchTwice
  exact ⟨_, rfl, by decide +kernel, by decide +kernel, delivered_in_order hreach true rfl⟩

/-- The second of three messages is one that no bunch has room for: the other two are handed on. -/
theorem delivered_with_gap : ¬ ∀ s : Link, linkSystem.Reachable s → ∀ (b : Bool) (i : ℕ) (ch : NetChannel),
    (s.ends (!b)).channel? i = some ch → ch.receivedMessages <+: (s.submitted b i).map NetMessage.received := by
  intro h
  have hreach : linkSystem.Reachable ((Link.sendAll [idMessage 1, wideMessage, idMessage 2]).next (false, .dispatch)) :=
    System.Reach.next (a := (false, LinkAction.dispatch)) (System.reachable_runFrom (.init Link.start_start) _) trivial
  have hmessages : ((((Link.sendAll [idMessage 1, wideMessage, idMessage 2]).next (false, .dispatch)).ends false).channel?
      0).map NetChannel.receivedMessages = some [(idMessage 1).received, (idMessage 2).received] := by decide +kernel
  have hsubmitted : ((Link.sendAll [idMessage 1, wideMessage, idMessage 2]).next (false, .dispatch)).submitted true 0 =
      [idMessage 1, wideMessage, idMessage 2] := by decide +kernel
  obtain ⟨ch, hch, hreceived⟩ := Option.map_eq_some_iff.mp hmessages
  have hbad := h _ hreach true 0 ch hch
  rw [hreceived, hsubmitted] at hbad
  revert hbad
  decide +kernel

end RudpEngine
