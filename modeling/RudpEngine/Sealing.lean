import RudpEngine.Channel

/-!
# Sealing bunches

What `Pump` does to a channel's builder, message by message: a message goes into
the active bunch, or the active bunch is sealed first. Every bunch that is sealed
takes the next sequence number of the channel.
-/

namespace RudpEngine

namespace ChannelBunchBuilder

/-- The builder `Init` gives channel `i`. -/
def forChannel (i : ℕ) : ChannelBunchBuilder := ChannelBunchBuilder.new i true true false true NetChannel.channelPolicy

def channelBunch (i chSequence : ℕ) (messages : List NetMessage) (payload : ℕ) : OutReadyBunch :=
  { forChannel i with activeMsgs := messages, activePayload := payload }.sealed chSequence

structure Installed (i : ℕ) (b : ChannelBunchBuilder) : Prop where
  chIndex : b.chIndex = i
  bControl : b.bControl = true
  bOpen : b.bOpen = true
  bClose : b.bClose = false
  bReliable : b.bReliable = true
  policy : b.policy = NetChannel.channelPolicy
  maxBunchPayload : b.maxBunchPayload = 1176

variable {i : ℕ} {b : ChannelBunchBuilder}

theorem installed_forChannel (i : ℕ) : Installed i (forChannel i) := ⟨rfl, rfl, rfl, rfl, rfl, rfl, rfl⟩

theorem Installed.maxMsgs (h : Installed i b) : b.policy.maxMsgsPerBunch = 255 := by rw [h.policy]; rfl

theorem Installed.sealed (h : Installed i b) (chSequence : ℕ) :
    b.sealed chSequence = channelBunch i chSequence b.activeMsgs b.activePayload := by
  obtain ⟨hi, hc, ho, hx, hr, -, -⟩ := h
  subst hi
  simp only [ChannelBunchBuilder.sealed, channelBunch, headerField, forChannel, ChannelBunchBuilder.new, hc, ho, hx, hr]

@[simp] theorem channelBunch_chIndex (i k : ℕ) (ms : List NetMessage) (n : ℕ) : (channelBunch i k ms n).chIndex = i := rfl

@[simp] theorem channelBunch_messages (i k : ℕ) (ms : List NetMessage) (n : ℕ) :
    (channelBunch i k ms n).messages = ms := rfl

@[simp] theorem channelBunch_headerSize (i k : ℕ) (ms : List NetMessage) (n : ℕ) :
    (channelBunch i k ms n).headerSize = 10 := BunchHeader.encode_size _

theorem channelBunch_totalSize (i k : ℕ) (ms : List NetMessage) (n : ℕ) :
    (channelBunch i k ms n).totalSize = (n + 10) % 2 ^ 32 := by
  show (n + (BunchHeader.encode _).2) % 2 ^ 32 = _
  rw [BunchHeader.encode_size]

/-- The bunches `l` took the numbers behind `o` one after the other, up to `o'`. -/
def IssuedFrom (i : ℕ) (good : List NetMessage → ℕ → Prop) : ℕ → List OutReadyBunch → ℕ → Prop
  | o, [], o' => o' = o
  | o, bunch :: l, o' =>
    (∃ ms payload, bunch = channelBunch i ((o + 1) % 2 ^ 32) ms payload ∧ good ms payload) ∧
      IssuedFrom i good ((o + 1) % 2 ^ 32) l o'

section
variable {good : List NetMessage → ℕ → Prop}

theorem IssuedFrom.append : ∀ {l l' : List OutReadyBunch} {o o' o'' : ℕ}, IssuedFrom i good o l o' →
    IssuedFrom i good o' l' o'' → IssuedFrom i good o (l ++ l') o''
  | [], _, _, _, _, h, h' => by
    obtain rfl := h
    exact h'
  | _ :: _, _, _, _, _, h, h' => ⟨h.1, h.2.append h'⟩

theorem IssuedFrom.mem : ∀ {l : List OutReadyBunch} {o o' : ℕ}, IssuedFrom i good o l o' → ∀ bunch ∈ l,
    ∃ k ms payload, bunch = channelBunch i k ms payload ∧ good ms payload
  | bunch :: l, _, _, h, x, hx => by
    cases hx with
    | head =>
      obtain ⟨ms, payload, he, hg⟩ := h.1
      exact ⟨_, ms, payload, he, hg⟩
    | tail _ hx => exact h.2.mem x hx

theorem IssuedFrom.getElem? : ∀ {l : List OutReadyBunch} {o o' : ℕ}, IssuedFrom i good o l o' →
    ∀ {n : ℕ} {bunch : OutReadyBunch}, l[n]? = some bunch →
      ∃ ms payload, bunch = channelBunch i ((o + n + 1) % 2 ^ 32) ms payload ∧ good ms payload
  | bunch :: l, o, _, h, 0, x, hx => by
    obtain rfl : bunch = x := by simpa using hx
    exact h.1
  | bunch :: l, o, _, h, n + 1, x, hx => by
    obtain ⟨ms, payload, he, hg⟩ := h.2.getElem? (n := n) (by simpa using hx)
    refine ⟨ms, payload, ?_, hg⟩
    rw [he]
    congr 1
    omega

theorem IssuedFrom.number : ∀ {l : List OutReadyBunch} {o o' : ℕ}, o < 2 ^ 32 → IssuedFrom i good o l o' →
    o' = (o + l.length) % 2 ^ 32
  | [], o, _, hlt, h => by
    obtain rfl := h
    simp only [List.length_nil, Nat.add_zero]
    omega
  | _ :: l, o, _, _, h => by
    rw [h.2.number (Nat.mod_lt _ (by decide)), List.length_cons]
    omega

end

/-! ## One message -/

def inserted (b : ChannelBunchBuilder) (m : NetMessage) : ChannelBunchBuilder :=
  { b with activeMsgs := b.activeMsgs ++ [m], activePayload := (b.activePayload + m.size) % 2 ^ 32 }

def sealIfFull (b : ChannelBunchBuilder) (nowUs outReliable : ℕ) : ChannelBunchBuilder × ℕ :=
  if b.isFull then b.sealAndReset nowUs outReliable else (b, outReliable)

theorem sealAndReset_eq (b : ChannelBunchBuilder) (nowUs o : ℕ) : b.sealAndReset nowUs o =
    ({ b with
      queuedOutBunch := b.queuedOutBunch ++ [b.sealed ((o + 1) % 2 ^ 32)]
      activeMsgs := []
      activePayload := 0
      activeHasInit := true
      lastEmitUs := nowUs }, (o + 1) % 2 ^ 32) := rfl

theorem Installed.sealAndReset (h : Installed i b) (nowUs o : ℕ) : Installed i (b.sealAndReset nowUs o).1 :=
  ⟨h.chIndex, h.bControl, h.bOpen, h.bClose, h.bReliable, h.policy, h.maxBunchPayload⟩

theorem Installed.inserted (h : Installed i b) (m : NetMessage) : Installed i (b.inserted m) :=
  ⟨h.chIndex, h.bControl, h.bOpen, h.bClose, h.bReliable, h.policy, h.maxBunchPayload⟩

theorem Installed.isFull_inserted (h : Installed i b) (m : NetMessage) : (b.inserted m).isFull = true ↔
    255 ≤ b.activeMsgs.length + 1 ∨ 1176 ≤ (b.activePayload + m.size) % 2 ^ 32 := by
  rw [isFull, (h.inserted m).maxMsgs, (h.inserted m).maxBunchPayload, Bool.or_eq_true, decide_eq_true_eq,
    decide_eq_true_eq, ChannelBunchBuilder.inserted, List.length_append, List.length_singleton]

section
variable {m : NetMessage} (hmsg : ¬ b.policy.maxMsgsPerBunch ≤ b.activeMsgs.length)
include hmsg

theorem tryInsert_fits (hs : ¬ b.maxBunchPayload < (b.activePayload + m.size) % 2 ^ 32) :
    b.tryInsert m = (true, b.inserted m) := by
  rw [tryInsert, if_neg hmsg, if_neg hs]; rfl

theorem tryInsert_over (hs : b.maxBunchPayload < (b.activePayload + m.size) % 2 ^ 32) : b.tryInsert m = (false, b) := by
  rw [tryInsert, if_neg hmsg, if_pos hs]

end

/-- The three ways of a message: into the active bunch, into a new one behind it, or dropped. -/
theorem pumpMessage_cases (h : Installed i b) (hlen : b.activeMsgs.length < 255) (nowUs : ℕ) (m : NetMessage) (o : ℕ) :
    ((b.activePayload + m.size) % 2 ^ 32 ≤ 1176 ∧ b.pumpMessage nowUs m o = (b.inserted m).sealIfFull nowUs o) ∨
    (1176 < (b.activePayload + m.size) % 2 ^ 32 ∧ m.size ≤ 1176 ∧ b.pumpMessage nowUs m o =
      ((b.sealAndReset nowUs o).1.inserted m).sealIfFull nowUs (b.sealAndReset nowUs o).2) ∨
    (1176 < (b.activePayload + m.size) % 2 ^ 32 ∧ 1176 < m.size ∧ b.pumpMessage nowUs m o = b.sealAndReset nowUs o) := by
  have hmsg : ¬ b.policy.maxMsgsPerBunch ≤ b.activeMsgs.length := by rw [h.maxMsgs]; omega
  have hmsize : (0 + m.size) % 2 ^ 32 = m.size := by
    rw [Nat.zero_add]
    exact Nat.mod_eq_of_lt m.size_lt
  rcases Nat.lt_or_ge 1176 ((b.activePayload + m.size) % 2 ^ 32) with hs | hs
  · right
    have hno : b.tryInsert m = (false, b) := tryInsert_over hmsg (by rw [h.maxBunchPayload]; exact hs)
    have hseal := h.sealAndReset nowUs o
    have hmsg' : ¬ (b.sealAndReset nowUs o).1.policy.maxMsgsPerBunch ≤ (b.sealAndReset nowUs o).1.activeMsgs.length := by
      rw [hseal.maxMsgs]; show ¬ 255 ≤ 0; omega
    rcases Nat.lt_or_ge 1176 m.size with hm | hm
    · refine .inr ⟨hs, hm, ?_⟩
      have hno' : (b.sealAndReset nowUs o).1.tryInsert m = (false, (b.sealAndReset nowUs o).1) := by
        apply tryInsert_over hmsg'
        rw [hseal.maxBunchPayload]
        show 1176 < (0 + m.size) % 2 ^ 32
        rw [hmsize]; exact hm
      have hfull : (b.sealAndReset nowUs o).1.isFull = false := by
        rw [isFull, hseal.maxMsgs, hseal.maxBunchPayload]; rfl
      unfold pumpMessage
      rw [hno]
      simp only [Bool.false_eq_true, if_false, hno', hfull]
    · refine .inl ⟨hs, hm, ?_⟩
      have hyes : (b.sealAndReset nowUs o).1.tryInsert m = (true, (b.sealAndReset nowUs o).1.inserted m) := by
        apply tryInsert_fits hmsg'
        rw [hseal.maxBunchPayload]
        show ¬ 1176 < (0 + m.size) % 2 ^ 32
        rw [hmsize]; exact Nat.not_lt.mpr hm
      unfold pumpMessage
      rw [hno]
      simp only [Bool.false_eq_true, if_false, hyes]
      rfl
  · left
    have hyes : b.tryInsert m = (true, b.inserted m) :=
      tryInsert_fits hmsg (by rw [h.maxBunchPayload]; exact Nat.not_lt.mpr hs)
    refine ⟨hs, ?_⟩
    unfold pumpMessage
    rw [hyes]
    simp only [if_true]
    rfl

/-! ## The rule of `Pump` -/

def RoundsMeet (P : ChannelBunchBuilder → NetMessage → Prop) (nowUs : ℕ → ℕ) :
    ℕ → ℕ → ChannelBunchBuilder → ℕ → Prop
  | 0, _, _, _ => True
  | left + 1, taken, b, o =>
    match b.queuedMessage with
    | [] => True
    | m :: rest =>
      P b m ∧ RoundsMeet P nowUs left (taken + 1) ({ b with queuedMessage := rest }.pumpMessage (nowUs taken) m o).1
        ({ b with queuedMessage := rest }.pumpMessage (nowUs taken) m o).2

def begun (b : ChannelBunchBuilder) (nowUs : ℕ) : ChannelBunchBuilder := if b.activeHasInit then b else b.resetActive nowUs

def sealTail (nowUs : ℕ → ℕ) (batchLimit : ℕ) (flushTail : Bool) (s : ChannelBunchBuilder × ℕ) : ChannelBunchBuilder × ℕ :=
  let s := if s.1.coalesceOver (nowUs (batchLimit + 1)) then s.1.sealAndReset (nowUs (batchLimit + 2)) s.2 else s
  if flushTail && !s.1.empty then s.1.sealAndReset (nowUs (batchLimit + 3)) s.2 else s

theorem pump_eq (b : ChannelBunchBuilder) (nowUs : ℕ → ℕ) (batchLimit : ℕ) (flushTail : Bool) (o : ℕ) :
    b.pump nowUs batchLimit flushTail o =
      sealTail nowUs batchLimit flushTail (pumpLoop nowUs batchLimit 1 (b.begun (nowUs 0)) o) := rfl

/-- The messages meet `P`, and a bunch that is left open and then sealed meets `T`. -/
def PumpMeets (P : ChannelBunchBuilder → NetMessage → Prop) (T : ChannelBunchBuilder → Prop) (nowUs : ℕ → ℕ)
    (batchLimit : ℕ) (flushTail : Bool) (b : ChannelBunchBuilder) (o : ℕ) : Prop :=
  RoundsMeet P nowUs batchLimit 1 (b.begun (nowUs 0)) o ∧
    let b := (pumpLoop nowUs batchLimit 1 (b.begun (nowUs 0)) o).1
    (b.coalesceOver (nowUs (batchLimit + 1)) || flushTail) = true → b.activeMsgs ≠ [] → T b

section
variable {I : ChannelBunchBuilder → ℕ → Prop} {P : ChannelBunchBuilder → NetMessage → Prop} {T : ChannelBunchBuilder → Prop}
variable (hround : ∀ b o m rest nowUs, I b o → b.queuedMessage = m :: rest → P b m →
  I ({ b with queuedMessage := rest }.pumpMessage nowUs m o).1 ({ b with queuedMessage := rest }.pumpMessage nowUs m o).2)
include hround

theorem pumpLoop_rule (nowUs : ℕ → ℕ) : ∀ (left taken : ℕ) (b : ChannelBunchBuilder) (o : ℕ), I b o →
    RoundsMeet P nowUs left taken b o → I (pumpLoop nowUs left taken b o).1 (pumpLoop nowUs left taken b o).2
  | 0, _, _, _, h, _ => h
  | left + 1, taken, b, o, h, hr => by
    rw [pumpLoop]
    rw [RoundsMeet] at hr
    cases hq : b.queuedMessage with
    | nil => exact h
    | cons m rest =>
      rw [hq] at hr
      exact pumpLoop_rule nowUs left (taken + 1) _ _ (hround b o m rest _ h hq hr.1) hr.2

theorem pump_rule (hseal : ∀ b o nowUs, I b o → b.activeMsgs ≠ [] → T b →
      I (b.sealAndReset nowUs o).1 (b.sealAndReset nowUs o).2)
    {nowUs : ℕ → ℕ} {batchLimit : ℕ} {flushTail : Bool} {o : ℕ} (hb : I (b.begun (nowUs 0)) o)
    (hp : PumpMeets P T nowUs batchLimit flushTail b o) :
    I (b.pump nowUs batchLimit flushTail o).1 (b.pump nowUs batchLimit flushTail o).2 := by
  have hl := pumpLoop_rule hround nowUs batchLimit 1 _ o hb hp.1
  have ht := hp.2
  rw [pump_eq]
  generalize pumpLoop nowUs batchLimit 1 (b.begun (nowUs 0)) o = r at hl ht
  obtain ⟨b', o'⟩ := r
  simp only [sealTail] at hl ht ⊢
  cases hc : b'.coalesceOver (nowUs (batchLimit + 1)) with
  | true =>
    -- the bunch is sealed for its age, and the tail is empty
    have hne : b'.activeMsgs ≠ [] := by
      intro hnil
      simp [coalesceOver, empty, hnil] at hc
    have hempty : (b'.sealAndReset (nowUs (batchLimit + 2)) o').1.empty = true := rfl
    simp only [if_true, hempty, Bool.not_true, Bool.and_false, Bool.false_eq_true, if_false]
    exact hseal b' o' _ hl hne (ht (by rw [hc]; rfl) hne)
  | false =>
    simp only [Bool.false_eq_true, if_false]
    cases hf : flushTail && !b'.empty with
    | false => exact hl
    | true =>
      rw [Bool.and_eq_true] at hf
      have hne : b'.activeMsgs ≠ [] := by
        intro hnil
        simp [empty, hnil] at hf
      exact hseal b' o' _ hl hne (ht (by rw [hc, hf.1]; rfl) hne)

end

theorem roundsMeet_true (nowUs : ℕ → ℕ) : ∀ (left taken : ℕ) (b : ChannelBunchBuilder) (o : ℕ),
    RoundsMeet (fun _ _ => True) nowUs left taken b o
  | 0, _, _, _ => trivial
  | left + 1, taken, b, o => by
    rw [RoundsMeet]
    cases b.queuedMessage with
    | nil => trivial
    | cons m rest => exact ⟨trivial, roundsMeet_true nowUs left (taken + 1) _ _⟩

theorem pumpMeets_true (nowUs : ℕ → ℕ) (batchLimit : ℕ) (flushTail : Bool) (b : ChannelBunchBuilder) (o : ℕ) :
    PumpMeets (fun _ _ => True) (fun _ => True) nowUs batchLimit flushTail b o :=
  ⟨roundsMeet_true nowUs batchLimit 1 _ o, fun _ _ => trivial⟩

/-! ## Building bunches -/

/-- A builder whose open bunch meets `act`, behind the bunches it queued since `queue₀`, all of them
`good` and numbered from `o₀`. -/
structure Building (i o₀ : ℕ) (act good : List NetMessage → ℕ → Prop) (queue₀ : List OutReadyBunch)
    (b : ChannelBunchBuilder) (o : ℕ) : Prop where
  installed : Installed i b
  short : b.activeMsgs.length < 255
  active : act b.activeMsgs b.activePayload
  sealed : ∃ new, b.queuedOutBunch = queue₀ ++ new ∧ IssuedFrom i good o₀ new o

theorem Installed.withMessages (h : Installed i b) (l : List NetMessage) : Installed i { b with queuedMessage := l } :=
  ⟨h.chIndex, h.bControl, h.bOpen, h.bClose, h.bReliable, h.policy, h.maxBunchPayload⟩

namespace Building

variable {o₀ o : ℕ} {act good : List NetMessage → ℕ → Prop} {queue₀ : List OutReadyBunch}

theorem withMessages (h : Building i o₀ act good queue₀ b o) (l : List NetMessage) :
    Building i o₀ act good queue₀ { b with queuedMessage := l } o :=
  ⟨h.installed.withMessages l, h.short, h.active, h.sealed⟩

theorem afterSeal (h0 : act [] 0) (hI : Installed i b)
    (hs : ∃ new, b.queuedOutBunch = queue₀ ++ new ∧ IssuedFrom i good o₀ new o)
    (hg : good b.activeMsgs b.activePayload) (nowUs : ℕ) :
    Building i o₀ act good queue₀ (b.sealAndReset nowUs o).1 (b.sealAndReset nowUs o).2 := by
  obtain ⟨new, hq, hnew⟩ := hs
  refine ⟨hI.sealAndReset nowUs o, Nat.succ_pos 254, h0, new ++ [b.sealed ((o + 1) % 2 ^ 32)], ?_, ?_⟩
  · show b.queuedOutBunch ++ [b.sealed ((o + 1) % 2 ^ 32)] = _
    rw [hq, List.append_assoc]
  · exact hnew.append ⟨⟨_, _, hI.sealed _, hg⟩, rfl⟩

theorem insert (h0 : act [] 0) (h : Building i o₀ act good queue₀ b o) {m : NetMessage}
    (hact : (b.inserted m).isFull = false → act (b.activeMsgs ++ [m]) ((b.activePayload + m.size) % 2 ^ 32))
    (hgood : (b.inserted m).isFull = true → good (b.activeMsgs ++ [m]) ((b.activePayload + m.size) % 2 ^ 32))
    (nowUs : ℕ) : Building i o₀ act good queue₀ ((b.inserted m).sealIfFull nowUs o).1
      ((b.inserted m).sealIfFull nowUs o).2 := by
  have hI := h.installed.inserted m
  unfold sealIfFull
  cases hf : (b.inserted m).isFull with
  | true => exact afterSeal h0 hI h.sealed (hgood hf) nowUs
  | false =>
    refine ⟨hI, ?_, hact hf, h.sealed⟩
    by_contra hlt
    rw [(h.installed.isFull_inserted m).mpr (.inl ?_)] at hf
    · cases hf
    · simpa [ChannelBunchBuilder.inserted] using hlt

theorem begun (h : Building i o₀ act good queue₀ b o) (h0 : b.activeHasInit = false → act [] 0) (nowUs : ℕ) :
    Building i o₀ act good queue₀ (b.begun nowUs) o := by
  unfold ChannelBunchBuilder.begun
  cases hi : b.activeHasInit with
  | true => exact h
  | false => exact ⟨⟨h.installed.1, h.installed.2, h.installed.3, h.installed.4, h.installed.5, h.installed.6,
      h.installed.7⟩, Nat.succ_pos 254, h0 hi, h.sealed⟩

end Building

end ChannelBunchBuilder

end RudpEngine
