import RudpEngine.FlushMode

/-!
# A flush that lasts a whole range

One end delivers packet 0, tells so in its own packet 0 and then waits for its
packet 1 to be acknowledged. Until then everything that comes is recorded as
lost and reported so, and the other end records the headers that tell it only
when no number of the range is left. Its next packet has the number of
`InAckSeqAck`: it is delivered, and the one word of the header that should tell
so ends right behind it.
-/

namespace RudpEngine

open NetPacketNotify NotifyEnd

namespace NotifyLink

variable {first : Bool → Seq} {s : NotifyLink} {ok : NotifyLink → Bool × NotifyLinkAction → Prop} {b c : Bool} {m n r q x : ℕ}
  {header : NotificationHeader}

/-! ## Steps that keep few packets outstanding -/

def send (s : NotifyLink) (b : Bool) : NotifyLink := s.setEnd b (s.ends b).sendHeader

theorem setEnd_setEnd (b : Bool) (e e' : NotifyEnd) : (s.setEnd b e).setEnd b e' = s.setEnd b e' := by
  unfold setEnd
  rw [Function.update_idem]

section
variable (hok : Allows ok) (h : (notifyLinkSystem first).Reach ok s) (hfew : s.Few)
include hok h hfew

theorem reach_send (b : Bool) (hroom : (s.ends b).sent.length + 1 < (s.ends b).reported.length + 2 ^ 13) :
    (notifyLinkSystem first).Reach ok (s.send b) ∧ (s.send b).Few := by
  have hmore := (s.ends b).sentMore_sendHeader
  have hwritten : (s.next (b, .writeHeader (PacketHeader.new (packetHeaderSize * 8)) false)).Few := hfew.setEnd b (hfew b)
  have hsent : (s.send b).Few := hfew.setEnd b (by rw [hmore.length, hmore.reported]; exact hroom)
  have hnext : (s.next (b, .writeHeader (PacketHeader.new (packetHeaderSize * 8)) false)).next (b, .commitAndIncrementOutSeq) =
      s.send b := by
    show (s.setEnd b _).setEnd b (((s.setEnd b _).ends b).commitAndIncrementOutSeq) = s.setEnd b _
    rw [setEnd_setEnd, setEnd_same]
    rfl
  have hfirst : (notifyLinkSystem first).Reach ok (s.next (b, .writeHeader (PacketHeader.new (packetHeaderSize * 8)) false)) :=
    .next h (hok s _ (by simp) hwritten)
  have hsecond : (notifyLinkSystem first).Reach ok
      ((s.next (b, .writeHeader (PacketHeader.new (packetHeaderSize * 8)) false)).next (b, .commitAndIncrementOutSeq)) :=
    .next (a := (b, NotifyLinkAction.commitAndIncrementOutSeq)) hfirst
      (hok _ (b, .commitAndIncrementOutSeq) (by simp) (by rw [hnext]; exact hsent))
  rw [hnext] at hsecond
  exact ⟨hsecond, hsent⟩

theorem exists_sends (hc : c = !b) : ∀ n, (s.ends b).sent.length + n < (s.ends b).reported.length + 2 ^ 13 →
    ∃ s', (notifyLinkSystem first).Reach ok s' ∧ s'.Few ∧ SentMore n (s.ends b) (s'.ends b) ∧ s'.ends c = s.ends c
  | 0, _ => ⟨s, h, hfew, sentMore_refl _, rfl⟩
  | n + 1, hroom => by
    obtain ⟨s', hreach, hfew', hmore, hother⟩ := exists_sends hc n (by omega)
    obtain ⟨hreach, hfew'⟩ := reach_send hok hreach hfew' b (by rw [hmore.length, hmore.reported]; omega)
    refine ⟨s'.send b, hreach, hfew', ?_, ?_⟩
    · unfold send
      rw [setEnd_same]
      exact hmore.trans (s'.ends b).sentMore_sendHeader
    · subst hc
      unfold send
      rw [setEnd_not, hother]

theorem exists_ackInSeq (hc : c = !b) (isAck : Bool) : ∃ s', (notifyLinkSystem first).Reach ok s' ∧ s'.Few ∧
    s'.ends b = (s.ends b).ackInSeq isAck ∧ s'.ends c = s.ends c := by
  subst hc
  have hfew' : (s.setEnd b ((s.ends b).ackInSeq isAck)).Few := hfew.setEnd b (hfew b)
  refine ⟨s.setEnd b ((s.ends b).ackInSeq isAck), ?_, hfew', setEnd_same .., setEnd_not ..⟩
  cases isAck with
  | true => exact .next (a := (b, NotifyLinkAction.ackSeq)) h (hok s (b, .ackSeq) (by simp) hfew')
  | false => exact .next (a := (b, NotifyLinkAction.nakSeq)) h (hok s (b, .nakSeq) (by simp) hfew')

end

theorem exists_update (hc : c = !b) (h : (notifyLinkSystem first).Reach ok s) (hfew : s.Few)
    (hget : (s.ends c).sent[x]? = some (header, q)) (hok : ok s (b, .update x)) : ∃ s', (notifyLinkSystem first).Reach ok s' ∧
      s'.Few ∧ s'.ends b = (s.ends b).update header ∧ s'.ends c = s.ends c := by
  subst hc
  refine ⟨s.update b x, .next (a := (b, NotifyLinkAction.update x)) h hok, hfew.update hget, ?_, ?_⟩
  · rw [update_eq hget, setEnd_same]
  · rw [update_eq hget, setEnd_not]

theorem coupled_true (h : (notifyLinkSystem first).Reach (fun s a => s.Assumed a ∧ s.InRange a) s) :
    Coupled (first true).value (first false).value (s.ends true) (s.ends false) := reach_coupled h true

theorem coupled_false (h : (notifyLinkSystem first).Reach (fun s a => s.Assumed a ∧ s.InRange a) s) :
    Coupled (first false).value (first true).value (s.ends false) (s.ends true) := reach_coupled h false

/-! ## While the flush lasts -/

/-- A run in range to a state in which end `false` waits for its packet 1 and has recorded `n` packets, all that end `true`
has sent; `r` of them are reported to that, and it has taken in all `m` headers of the other end. -/
structure Flushing (first : Bool → Seq) (n r m : ℕ) (s : NotifyLink) : Prop where
  reach : (notifyLinkSystem first).Reach (fun s a => s.Assumed a ∧ s.InRange a) s
  few : s.Few
  flushed : OneDelivered (first true).value n 1 (s.ends false)
  waiting : (s.ends false).notify.waitingForFlushSeqAck = Seq.ofInt ((first false).value + 1)
  told : (s.ends false).reported.length = 1
  answered : (s.ends false).sent.length = m
  quiet : Quiet n r 1 m (s.ends true)

theorem settled_of_oneDelivered {e : NotifyEnd} {peerFirst : ℤ} {i w : ℕ} (h : OneDelivered peerFirst i w e) (hle : w ≤ i)
    (hnear : i < w + 2 ^ 14) : e.settled = w := by
  have hrecorded := h.recorded
  rw [length_marked] at hrecorded
  exact settled_eq h.placed (received_eq h.placed (by omega) (by omega)) hle hnear

/-- End `true` sends up to packet `x`, end `false` records that as lost and tells it in a header of its own. -/
theorem Flushing.round (h : Flushing first n r m s) (hlt : n < x) (hfew : x < r + 2 ^ 13) (hnear : x < n + 2 ^ 13)
    (hfar : x < 2 ^ 14) (hm : m < 255) :
    ∃ s', Flushing first x x (m + 1) s' ∧ ∃ header, (s'.ends false).sent[m]? = some (header, x) := by
  have hle := (coupled_true h.reach).sends.le
  have hpos := h.flushed.pos
  rw [h.quiet.sent, h.quiet.reported] at hle
  -- the packets up to `x`
  obtain ⟨s₁, hreach₁, hfew₁, hmore₁, hfalse₁⟩ := exists_sends allows_inRange h.reach h.few (b := true) (c := false) rfl (x - n)
    (by rw [h.quiet.sent, h.quiet.reported]; omega)
  obtain ⟨header, hget⟩ := h.quiet.newer hmore₁ (x := x - 1) (by omega) (by omega)
  have hquiet₁ := h.quiet.sentMore hmore₁
  rw [Nat.add_sub_cancel' hlt.le] at hquiet₁
  have hsent₁ := hquiet₁.sent
  have hflushed₁ : OneDelivered (first true).value n 1 (s₁.ends false) := hfalse₁ ▸ h.flushed
  have htold₁ : (s₁.ends false).reported.length = 1 := hfalse₁ ▸ h.told
  have hanswered₁ : (s₁.ends false).sent.length = m := hfalse₁ ▸ h.answered
  obtain ⟨hflushed₂, hwaiting₂, htold₂⟩ := hflushed₁.again (coupled_false hreach₁) (hfalse₁ ▸ h.waiting) htold₁ hget
    (by omega) (by omega) (by omega) (by omega)
  rw [Nat.sub_add_cancel (by omega)] at hflushed₂
  obtain ⟨s₂, hreach₂, hfew₂, hfalse₂, htrue₂⟩ := exists_update (b := false) (c := true) rfl hreach₁ hfew₁ hget
    (inRange_update (c := true) rfl hfew₁ hget (by omega) (by omega) (by omega)
      (settled_of_oneDelivered hflushed₁ (by omega) (by omega)) (by decide))
  rw [← hfalse₂] at hflushed₂ hwaiting₂ htold₂
  have hanswered₂ : (s₂.ends false).sent.length = m := by rw [hfalse₂, sent_update, hanswered₁]
  -- the header that tells them
  obtain ⟨s₃, hreach₃, hfew₃, hmore₃, htrue₃⟩ := exists_sends allows_inRange hreach₂ hfew₂ (b := false) (c := true) rfl 1 (by omega)
  have hlen₃ := hmore₃.length
  obtain ⟨answer, hanswer⟩ := hmore₃.newer m (by omega) (by omega)
  rw [← length_marked, hflushed₂.recorded] at hanswer
  have hquiet₃ : Quiet x r 1 m (s₃.ends true) := (htrue₃.trans htrue₂) ▸ hquiet₁
  have hreported₃ := hquiet₃.reported
  have hcoupled₃ := coupled_true hreach₃
  obtain ⟨w, hw, hwm⟩ := hcoupled₃.settled_le
  rw [hquiet₃.received] at hwm
  have hquiet₄ := hquiet₃.update hcoupled₃ hanswer (Nat.le_refl m) (by omega) (by omega) (by omega)
  obtain ⟨s₄, hreach₄, hfew₄, htrue₄, hfalse₄⟩ := exists_update (b := true) (c := false) rfl hreach₃ hfew₃ hanswer
    (inRange_update (c := false) rfl hfew₃ hanswer (by omega) (by omega) (by omega) hw (by omega))
  rw [← htrue₄] at hquiet₄
  rw [← hfalse₄] at hmore₃ hanswer
  have hlen₄ := hmore₃.length
  refine ⟨s₄, ⟨hreach₄, hfew₄, hflushed₂.sentMore hmore₃, ?_, ?_, ?_, hquiet₄⟩, answer, hanswer⟩
  · rw [hmore₃.waitingForFlushSeqAck, hwaiting₂]
  · rw [hmore₃.reported, htold₂]
  · omega

/-! ## How the flush begins -/

theorem placed_fresh (first : Bool → Seq) (b : Bool) :
    Placed (first (!b)).value ((fresh first).ends b).marked 0 0 ((fresh first).ends b).notify := by
  have hzero : ((first (!b)).value : ℤ) + ((0 : ℕ) : ℤ) - 1 = (first (!b)).value - 1 := by omega
  refine ⟨?_, ?_, ?_, rfl⟩
  · rw [hzero]
    rfl
  · rw [show ((fresh first).ends b).marked.length = 0 from rfl, hzero]
    rfl
  · rw [hzero]
    rfl

theorem quiet_fresh (first : Bool → Seq) (b : Bool) : Quiet 0 0 0 0 ((fresh first).ends b) :=
  ⟨rfl, rfl, rfl, rfl, received_eq (placed_fresh first b) (Nat.le_refl 0) (show 0 < 0 + 2 ^ 14 by decide)⟩

/-- End `false` has taken in packet 0 and told so in its own packet 0, before anything else is sent. -/
structure Opened (first : Bool → Seq) (s : NotifyLink) : Prop where
  reach : (notifyLinkSystem first).Reach (fun s a => s.Assumed a ∧ s.InRange a) s
  few : s.Few
  delivered : OneDelivered (first true).value 1 0 (s.ends false)
  answer : ∃ header, (s.ends false).sent[0]? = some (header, 1)
  quietFalse : Quiet 1 0 1 1 (s.ends false)
  quiet : Quiet 1 0 0 0 (s.ends true)

theorem exists_opened (first : Bool → Seq) : ∃ s, Opened first s := by
  obtain ⟨s₁, hreach₁, hfew₁, hmore₁, hfalse₁⟩ := exists_sends allows_inRange (.init (start_fresh first)) (few_fresh first)
    (b := true) (c := false) rfl 1 (show 0 + 1 < 0 + 2 ^ 13 by decide)
  obtain ⟨header, hget⟩ := (quiet_fresh first true).newer hmore₁ (Nat.le_refl 0) Nat.one_pos
  have hquiet₁ := (quiet_fresh first true).sentMore hmore₁
  have hsent₁ := hquiet₁.sent
  -- packet 0 is accepted
  have hplaced₁ : Placed (first true).value (s₁.ends false).marked 0 0 (s₁.ends false).notify := hfalse₁ ▸ placed_fresh first false
  have hquietFalse₁ : Quiet 0 0 0 0 (s₁.ends false) := hfalse₁ ▸ quiet_fresh first false
  have hsettled₁ := settled_eq hplaced₁ hquietFalse₁.received (Nat.le_refl 0) (by decide)
  have hcoupled₁ := coupled_false hreach₁
  have hquiet₂ := hquietFalse₁.update hcoupled₁ hget (Nat.le_refl 0) (by decide) (Nat.le_refl 0) (by decide)
  obtain ⟨-, -, -, -, v, hplaced₂, hv⟩ := hcoupled₁.calm_update hquietFalse₁.calm hget hquietFalse₁.received.le (by decide)
    hquietFalse₁.reported.le (by rw [hquietFalse₁.sent]; decide)
  obtain rfl : v = 0 := by
    have := hv hquietFalse₁.reported.symm
    omega
  obtain ⟨s₂, hreach₂, hfew₂, hfalse₂, htrue₂⟩ := exists_update (b := false) (c := true) rfl hreach₁ hfew₁ hget
    (inRange_update (c := true) rfl hfew₁ hget (by omega) hquietFalse₁.reported.le (by decide) hsettled₁ (by decide))
  rw [← hfalse₂] at hquiet₂ hplaced₂
  have hmarked₂ : (s₂.ends false).marked = [] := by
    apply List.eq_nil_of_length_eq_zero
    rw [length_marked, hquiet₂.recorded]
  -- and delivered
  have hquiet₃ := hquiet₂.ackInSeq (coupled_false hreach₂) true
  obtain ⟨hplaced₃, hmarked₃⟩ := placed_ackInSeq hplaced₂ (by rw [hmarked₂]; exact Nat.zero_le 1) (by rw [hmarked₂]; decide) true
  obtain ⟨s₃, hreach₃, hfew₃, hfalse₃, htrue₃⟩ := exists_ackInSeq allows_inRange hreach₂ hfew₂ (b := false) (c := true) rfl true
  rw [hmarked₂] at hmarked₃
  rw [← hfalse₃] at hquiet₃ hplaced₃ hmarked₃
  have hdelivered₃ : OneDelivered (first true).value 1 0 (s₃.ends false) := by
    refine ⟨hplaced₃, by rw [hmarked₃]; rfl, fun k => ?_⟩
    rw [hmarked₃, getElem?_append_marks]
    simp
  -- the answer
  obtain ⟨s₄, hreach₄, hfew₄, hmore₄, htrue₄⟩ := exists_sends allows_inRange hreach₃ hfew₃ (b := false) (c := true) rfl 1
    (by rw [hquiet₃.sent, hquiet₃.reported]; decide)
  obtain ⟨own, hown⟩ := hquiet₃.newer hmore₄ (Nat.le_refl 0) Nat.one_pos
  rw [← htrue₂, ← htrue₃, ← htrue₄] at hquiet₁
  exact ⟨s₄, hreach₄, hfew₄, hdelivered₃.sentMore hmore₄, ⟨own, hown⟩, hquiet₃.sentMore hmore₄, hquiet₁⟩

/-- End `true` has sent 301 packets before it recorded the answer and one after. -/
structure Answered (first : Bool → Seq) (s : NotifyLink) : Prop where
  reach : (notifyLinkSystem first).Reach (fun s a => s.Assumed a ∧ s.InRange a) s
  few : s.Few
  delivered : OneDelivered (first true).value 1 0 (s.ends false)
  answer : ∃ header, (s.ends false).sent[0]? = some (header, 1)
  quietFalse : Quiet 1 0 1 1 (s.ends false)
  quiet : Quiet 302 1 1 1 (s.ends true)
  before : ∃ header, (s.ends true).sent[300]? = some (header, 0)
  after : ∃ header, (s.ends true).sent[301]? = some (header, 1)

theorem Opened.answered (h : Opened first s) : ∃ s', Answered first s' := by
  obtain ⟨own, hown⟩ := h.answer
  have hcoupled := coupled_true h.reach
  obtain ⟨w, hw, hle⟩ := hcoupled.settled_le
  rw [h.quiet.received] at hle
  have hquiet₁ := h.quiet.update hcoupled hown (Nat.le_refl 0) (by decide) (Nat.zero_le 1) (by decide)
  obtain ⟨s₁, hreach₁, hfew₁, htrue₁, hfalse₁⟩ := exists_update (b := true) (c := false) rfl h.reach h.few hown
    (inRange_update (c := false) rfl h.few hown (by rw [h.quietFalse.sent]; decide) (by rw [h.quiet.reported]; decide) (by decide)
      hw (by omega))
  rw [← htrue₁] at hquiet₁
  -- the answer is not recorded yet
  obtain ⟨s₂, hreach₂, hfew₂, hmore₂, hfalse₂⟩ := exists_sends allows_inRange hreach₁ hfew₁ (b := true) (c := false) rfl 300
    (by rw [hquiet₁.sent, hquiet₁.reported]; decide)
  obtain ⟨header, hget⟩ := hquiet₁.newer hmore₂ (x := 300) (by decide) (by decide)
  have hquiet₃ := (hquiet₁.sentMore hmore₂).ackInSeq (coupled_true hreach₂) true
  obtain ⟨s₃, hreach₃, hfew₃, htrue₃, hfalse₃⟩ := exists_ackInSeq allows_inRange hreach₂ hfew₂ (b := true) (c := false) rfl true
  rw [← htrue₃] at hquiet₃
  -- and now it is
  obtain ⟨s₄, hreach₄, hfew₄, hmore₄, hfalse₄⟩ := exists_sends allows_inRange hreach₃ hfew₃ (b := true) (c := false) rfl 1
    (by rw [hquiet₃.sent, hquiet₃.reported]; decide)
  have hget₄ : (s₄.ends true).sent[300]? = some (header, 0) := by
    apply getElem?_of_prefix hmore₄.keeps
    rw [htrue₃]
    exact hget
  have hfalse₄ : s₄.ends false = s.ends false := hfalse₄.trans (hfalse₃.trans (hfalse₂.trans hfalse₁))
  refine ⟨s₄, hreach₄, hfew₄, ?_, ⟨own, ?_⟩, ?_, hquiet₃.sentMore hmore₄, ⟨header, hget₄⟩, ?_⟩
  · rw [hfalse₄]
    exact h.delivered
  · rw [hfalse₄, hown]
  · rw [hfalse₄]
    exact h.quietFalse
  · exact hquiet₃.newer hmore₄ (by decide) (by decide)

/-- Packet 300 does not fit, as its sender has not been told yet that packet 0 is known to have come; packet 301 tells so. -/
theorem Answered.flushing (h : Answered first s) : ∃ s', Flushing first 302 1 1 s' := by
  obtain ⟨own, hown⟩ := h.answer
  obtain ⟨header, hget⟩ := h.before
  obtain ⟨later, hlater⟩ := h.after
  have hsent := h.quiet.sent
  have hreported := h.quietFalse.reported
  have hanswered := h.quietFalse.sent
  have hcoupled := coupled_false h.reach
  obtain ⟨i, hi, hdelivered₁, hwaiting₁, htold₁⟩ := h.delivered.enters hcoupled h.quietFalse.calm (by rw [hreported]; exact hget)
    (by decide) (by decide) (by omega)
  obtain ⟨s₁, hreach₁, hfew₁, hfalse₁, htrue₁⟩ := exists_update (b := false) (c := true) rfl h.reach h.few hget
    (inRange_update (c := true) rfl h.few hget (by omega) (by omega) (by decide)
      (settled_of_oneDelivered h.delivered (by decide) (by decide)) (by decide))
  have hwaiting₁ : (s₁.ends false).notify.waitingForFlushSeqAck = Seq.ofInt ((first false).value + 1) := by
    rw [hfalse₁, hwaiting₁, hcoupled.sends.waits.outSeq]
    congr 1
    omega
  have hanswered₁ : (s₁.ends false).sent = (s.ends false).sent := by rw [hfalse₁, sent_update]
  rw [← hfalse₁] at hdelivered₁ htold₁
  rw [← htrue₁] at hlater hsent
  rw [← hanswered₁] at hown hanswered
  -- packet 301
  have hpos := hdelivered₁.pos
  obtain ⟨hdelivered₂, hwaiting₂, htold₂⟩ := hdelivered₁.acked (coupled_false hreach₁) hwaiting₁ (by omega) hown hlater
    (by omega) (by omega) (by omega) (by omega)
  obtain ⟨s₂, hreach₂, hfew₂, hfalse₂, htrue₂⟩ := exists_update (b := false) (c := true) rfl hreach₁ hfew₁ hlater
    (inRange_update (c := true) rfl hfew₁ hlater (by omega) (by omega) (by decide)
      (settled_of_oneDelivered hdelivered₁ (by omega) (by omega)) (by decide))
  rw [← hfalse₂] at hdelivered₂ hwaiting₂ htold₂
  refine ⟨s₂, hreach₂, hfew₂, hdelivered₂, hwaiting₂, htold₂, ?_, ?_⟩
  · rw [hfalse₂, sent_update, hanswered]
  · rw [htrue₂, htrue₁]
    exact h.quiet

/-! ## How it ends -/

/-- No number of the range is left; the next packets are on their way and acknowledge packet 2. -/
structure Exhausted (first : Bool → Seq) (s : NotifyLink) : Prop where
  reach : (notifyLinkSystem first).Reach (fun s a => s.Assumed a ∧ s.InRange a) s
  few : s.Few
  flushed : OneDelivered (first true).value 16383 1 (s.ends false)
  waiting : (s.ends false).notify.waitingForFlushSeqAck = Seq.ofInt ((first false).value + 1)
  told : (s.ends false).reported.length = 1
  answered : (s.ends false).sent.length = 3
  answer : ∃ header, (s.ends false).sent[2]? = some (header, 16383)
  quiet : Quiet (2 ^ 14 + 33) 16383 3 3 (s.ends true)
  next : ∃ header, (s.ends true).sent[2 ^ 14]? = some (header, 3)
  last : ∃ header, (s.ends true).sent[2 ^ 14 + 32]? = some (header, 3)

theorem exists_exhausted (first : Bool → Seq) : ∃ s, Exhausted first s := by
  obtain ⟨s₁, h₁⟩ := exists_opened first
  obtain ⟨s₂, h₂⟩ := h₁.answered
  obtain ⟨s₃, h₃⟩ := h₂.flushing
  obtain ⟨s₄, h₄, -⟩ := h₃.round (x := 8192) (by decide) (by decide) (by decide) (by decide) (by decide)
  obtain ⟨s₅, h₅, hanswer⟩ := h₄.round (x := 16383) (by decide) (by decide) (by decide) (by decide) (by decide)
  -- end `true` records the headers of the other end and sends on
  have hquiet₆ := h₅.quiet.ackInSeq (coupled_true h₅.reach) true
  obtain ⟨s₆, hreach₆, hfew₆, htrue₆, hfalse₆⟩ := exists_ackInSeq allows_inRange h₅.reach h₅.few (b := true) (c := false) rfl true
  rw [← htrue₆] at hquiet₆
  obtain ⟨s₇, hreach₇, hfew₇, hmore₇, hfalse₇⟩ := exists_sends allows_inRange hreach₆ hfew₆ (b := true) (c := false) rfl 34
    (by rw [hquiet₆.sent, hquiet₆.reported]; decide)
  have hfalse₇ : s₇.ends false = s₅.ends false := hfalse₇.trans hfalse₆
  refine ⟨s₇, hreach₇, hfew₇, ?_, ?_, ?_, ?_, ?_, hquiet₆.sentMore hmore₇, ?_, ?_⟩
  · rw [hfalse₇]
    exact h₅.flushed
  · rw [hfalse₇, h₅.waiting]
  · rw [hfalse₇, h₅.told]
  · rw [hfalse₇, h₅.answered]
  · rw [hfalse₇]
    exact hanswer
  · exact hquiet₆.newer hmore₇ (by decide) (by decide)
  · exact hquiet₆.newer hmore₇ (by decide) (by decide)

/-- Packet `2 ^ 14` is delivered and 32 packets later reported as lost. -/
theorem Exhausted.wraps (h : Exhausted first s) : ∃ s', (notifyLinkSystem first).Reach Assumed s' ∧
    (s'.ends false).marked[2 ^ 14]? = some true ∧ ((s'.ends true).reported.map Prod.snd)[2 ^ 14]? = some false := by
  obtain ⟨own, hown⟩ := h.answer
  obtain ⟨header, hget⟩ := h.next
  obtain ⟨later, hlater⟩ := h.last
  have hsent := h.quiet.sent
  have hreported := h.quiet.reported
  have hcoupled := coupled_false h.reach
  have hwaits := hcoupled.peerSends.waits
  have hheader := hcoupled.peerSends.sent _ _ hlater
  have hacked : later.ackedSeq = Seq.ofInt ((first false).value + 2) := by
    rw [show later.ackedSeq = Seq.ofInt ((first false).value + (3 : ℕ) - 1) from hheader.ackedSeq]
    congr 1
    omega
  -- both packets are taken in and delivered
  have hwrapped₂ := h.flushed.wraps hcoupled h.waiting h.told h.answered hown hget (by decide) (by decide)
  obtain ⟨s₁, hreach₁, hfew₁, hfalse₁, htrue₁⟩ := exists_update (b := false) (c := true) rfl
    (h.reach.mono fun _ _ ha => ha.1) h.few hget (assumed_update (c := true) rfl h.few hget (by omega))
  obtain ⟨s₂, hreach₂, hfew₂, hfalse₂, htrue₂⟩ := exists_ackInSeq allows_assumed hreach₁ hfew₁ (b := false) (c := true) rfl true
  have htrue₂ : s₂.ends true = s.ends true := htrue₂.trans htrue₁
  rw [← hfalse₁, ← hfalse₂] at hwrapped₂
  have hwrapped₄ := hwrapped₂.next hheader.seq hacked (by decide) (by decide)
  rw [← htrue₂] at hlater
  obtain ⟨s₃, hreach₃, hfew₃, hfalse₃, htrue₃⟩ := exists_update (b := false) (c := true) rfl hreach₂ hfew₂ hlater
    (assumed_update (c := true) rfl hfew₂ hlater (by rw [htrue₂]; omega))
  obtain ⟨s₄, hreach₄, hfew₄, hfalse₄, htrue₄⟩ := exists_ackInSeq allows_assumed hreach₃ hfew₃ (b := false) (c := true) rfl true
  have htrue₄ : s₄.ends true = s.ends true := htrue₄.trans (htrue₃.trans htrue₂)
  rw [← hfalse₃, ← hfalse₄] at hwrapped₄
  have hanswered₄ : (s₄.ends false).sent.length = 3 := by
    rw [← h.answered, ← sent_update (s.ends false) header, ← hfalse₁, hfalse₄]
    show (s₃.ends false).sent.length = _
    rw [hfalse₃, sent_update, hfalse₂]
    rfl
  -- the header that tells so has one word
  have hrecorded₄ := hwrapped₄.recorded
  have hcount := currentHistoryWordCount_wrapped hwrapped₄.placed (by omega) (by omega)
  obtain ⟨hreach₅, hfew₅⟩ := reach_send allows_assumed hreach₄ hfew₄ false (by omega)
  have hfalse₅ : (s₄.send false).ends false = (s₄.ends false).sendHeader := setEnd_same ..
  have htrue₅ : (s₄.send false).ends true = s.ends true := (setEnd_not s₄ false _).trans htrue₄
  have hsent₅ : ((s₄.send false).ends false).sent =
      (s₄.ends false).sent ++ [((s₄.ends false).notify.header, (s₄.ends false).recorded.length)] := by
    rw [hfalse₅, sendHeader_eq]
  have hget₅ : ((s₄.send false).ends false).sent[3]? = some ((s₄.ends false).notify.header, (s₄.ends false).recorded.length) := by
    rw [hsent₅, ← hanswered₄, List.getElem?_concat_length]
  obtain ⟨s₆, hreach₆, -, htrue₆, hfalse₆⟩ := exists_update (b := true) (c := false) rfl hreach₅ hfew₅ hget₅
    (assumed_update (c := false) rfl hfew₅ hget₅ (by rw [hsent₅, List.length_append, hanswered₄, List.length_singleton]; decide))
  have hseq : (s₄.ends false).notify.header.seq = Seq.ofInt ((first false).value + 3) := hwrapped₄.outSeq
  have hackedSeq : (s₄.ends false).notify.header.ackedSeq = Seq.ofInt ((first true).value + (2 ^ 14 + 33 : ℕ) - 1) := by
    rw [← hrecorded₄]
    exact hwrapped₄.placed.inAckSeq
  have hdiff : (s₄.ends false).notify.header.ackedSeq.diff (s.ends true).notify.outAckSeq = (34 : ℕ) := by
    rw [hackedSeq, hwaits.outAckSeq, Seq.diff_of_lt (by omega) (by omega)]
    omega
  obtain ⟨i, w, hr⟩ := (coupled_true h.reach).receives
  obtain rfl : i = 3 := (hr.counts (hr.near hcoupled.sends.few)).1.symm.trans h.quiet.received
  have hd := getSequenceDelta_pos_of hseq hr.placed.inSeq (by omega) hackedSeq hwaits.outAckSeq (by omega) hwaits.outSeq (by omega)
  refine ⟨s₆, hreach₆, ?_, ?_⟩
  · rw [hfalse₆, hfalse₅, ((s₄.ends false).sentMore_sendHeader).marked]
    exact hwrapped₄.delivered
  · rw [htrue₆, htrue₅]
    refine update_tells_lost hwaits hd hdiff (by omega) ?_
    rw [show (s₄.ends false).notify.header.historyWordCount = 1 from hcount]
    omega

end NotifyLink

/-- What is reported is not always what the other end has recorded. -/
theorem flush_outlasts_range : ¬ ∀ (first : Bool → Seq) (s : NotifyLink) (b : Bool),
    (notifyLinkSystem first).Reach NotifyLink.Assumed s → s.ToldTruly first b := by
  intro htold
  obtain ⟨s, hexhausted⟩ := NotifyLink.exists_exhausted fun _ => Seq.ofInt 0
  obtain ⟨s', hreach, hdelivered, hlost⟩ := hexhausted.wraps
  have hprefix : (s'.ends true).reported.map Prod.snd <+: (s'.ends false).marked := (htold _ s' true hreach).reported.map Prod.snd
  have hsame := getElem?_of_prefix hprefix hlost
  rw [hdelivered] at hsame
  cases hsame

end RudpEngine
