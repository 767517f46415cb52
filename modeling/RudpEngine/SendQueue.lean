import RudpEngine.SortedMap
import Mathlib.Data.List.Count
import Mathlib.Data.List.Nodup

/-!
# Queues with retransmission

Items wait in a queue, are sent under an id, and stay with their id until it is
answered: an ack removes them, a nack puts them back to the front of the queue.
`SendHistory` keeps the logs next to the queue; its items are in one place
each, and an ack only removes what was sent under its id last.
-/

namespace RudpEngine

structure SendQueue (α : Type) where
  queue : List α
  unAcked : SortedMap ℤ (List α)

namespace SendQueue

variable {α β : Type} (s : SendQueue α)

def map (f : α → β) : SendQueue β := ⟨s.queue.map f, s.unAcked.mapValues (List.map f)⟩

def under (id : ℤ) : List α := (s.unAcked.find? id).getD []

def push (items : List α) : SendQueue α := { s with queue := s.queue ++ items }

def send (id : ℤ) : SendQueue α :=
  match s.queue with
  | [] => s
  | a :: rest => ⟨rest, s.unAcked.insert id (s.under id ++ [a])⟩

def acked (id : ℤ) : SendQueue α := { s with unAcked := s.unAcked.erase id }

def nacked (id : ℤ) : SendQueue α := ⟨s.under id ++ s.queue, s.unAcked.erase id⟩

def retransmitAll : SendQueue α := ⟨s.unAcked.members ++ s.queue, .empty⟩

def nackAll : SendQueue α := (s.unAcked.entries.map Prod.fst).foldl nacked s

/-! ## Nacking all -/

theorem under_of_entries {e : ℤ × List α} {es : List (ℤ × List α)} (h : s.unAcked.entries = e :: es) : s.under e.1 = e.2 := by
  have hfind : s.unAcked.find? e.1 = some e.2 := s.unAcked.find?_eq_some.mpr (by rw [h]; exact List.mem_cons_self ..)
  rw [under, hfind]
  rfl

/-- Nacked one after the other, the items of later ids come to lie in front of those of earlier ones. -/
theorem nackAll_eq : s.nackAll = ⟨s.unAcked.entries.reverse.flatMap Prod.snd ++ s.queue, .empty⟩ := by
  have key : ∀ (es : List (ℤ × List α)) (s : SendQueue α), s.unAcked.entries = es →
      (es.map Prod.fst).foldl nacked s = ⟨es.reverse.flatMap Prod.snd ++ s.queue, .empty⟩ := by
    intro es
    induction es with
    | nil =>
      intro s hs
      obtain ⟨queue, ⟨entries, sorted⟩⟩ := s
      obtain rfl : entries = [] := hs
      rfl
    | cons e es ih =>
      intro s hs
      rw [List.map_cons, List.foldl_cons, ih _ (s.unAcked.entries_erase_head hs)]
      show SendQueue.mk (es.reverse.flatMap Prod.snd ++ (s.under e.1 ++ s.queue)) _ = _
      rw [s.under_of_entries hs, List.reverse_cons, List.flatMap_append, List.flatMap_singleton, List.append_assoc]
  exact key s.unAcked.entries s rfl

/-- Lists in reversed order make the same list if only one of them has items. -/
theorem flatMap_reverse_of_one : ∀ {es : List (ℤ × List α)}, es.Nodup →
    (∀ e ∈ es, ∀ e' ∈ es, e.2 ≠ [] → e'.2 ≠ [] → e = e') → es.reverse.flatMap Prod.snd = es.flatMap Prod.snd
  | [], _, _ => rfl
  | e :: es, hnodup, hone => by
    obtain ⟨he, hes⟩ := List.nodup_cons.mp hnodup
    have hrest := flatMap_reverse_of_one hes fun x hx y hy =>
      hone x (List.mem_cons_of_mem _ hx) y (List.mem_cons_of_mem _ hy)
    rw [List.reverse_cons, List.flatMap_append, List.flatMap_singleton, hrest, List.flatMap_cons]
    by_cases hempty : e.2 = []
    · rw [hempty, List.append_nil, List.nil_append]
    · have hnil : es.flatMap Prod.snd = [] := by
        rw [List.flatMap_eq_nil_iff]
        intro e' he'
        by_contra hne
        have heq := hone e (List.mem_cons_self ..) e' (List.mem_cons_of_mem _ he') hempty hne
        exact he (heq ▸ he')
      rw [hnil, List.nil_append, List.append_nil]

theorem one_of_flatMap_reverse : ∀ {es : List (ℤ × List α)}, (es.flatMap Prod.snd).Nodup →
    es.reverse.flatMap Prod.snd = es.flatMap Prod.snd → ∀ e ∈ es, ∀ e' ∈ es, e.2 ≠ [] → e'.2 ≠ [] → e = e'
  | [], _, _ => fun e he => absurd he List.not_mem_nil
  | e :: es, hnodup, heq => by
    rw [List.flatMap_cons] at hnodup heq
    rw [List.reverse_cons, List.flatMap_append, List.flatMap_singleton] at heq
    obtain ⟨-, hrest, hdisjoint⟩ := List.nodup_append.mp hnodup
    cases hitems : e.2 with
    | nil =>
      rw [hitems, List.append_nil, List.nil_append] at heq
      have ih := one_of_flatMap_reverse hrest heq
      intro x hx y hy hxne hyne
      rcases List.mem_cons.mp hx with rfl | hx
      · exact absurd hitems hxne
      · rcases List.mem_cons.mp hy with rfl | hy
        · exact absurd hitems hyne
        · exact ih x hx y hy hxne hyne
    | cons a items =>
      -- the first item of all is one of the first list, and the first in the reversed order would be of another
      have hnil : es.flatMap Prod.snd = [] := by
        cases hrev : es.reverse.flatMap Prod.snd with
        | nil =>
          rw [List.flatMap_eq_nil_iff] at hrev ⊢
          exact fun x hx => hrev x (List.mem_reverse.mpr hx)
        | cons b rest =>
          rw [hrev, hitems, List.cons_append, List.cons_append] at heq
          obtain ⟨rfl, -⟩ := List.cons.inj heq
          have hmem : b ∈ es.flatMap Prod.snd := by
            have hb : b ∈ es.reverse.flatMap Prod.snd := by rw [hrev]; exact List.mem_cons_self ..
            obtain ⟨x, hx, hbx⟩ := List.mem_flatMap.mp hb
            exact List.mem_flatMap.mpr ⟨x, List.mem_reverse.mp hx, hbx⟩
          exact absurd rfl (hdisjoint b (by rw [hitems]; exact List.mem_cons_self ..) b hmem)
      have hempty : ∀ x ∈ es, x.2 = [] := List.flatMap_eq_nil_iff.mp hnil
      intro x hx y hy hxne hyne
      rcases List.mem_cons.mp hx with rfl | hx
      · rcases List.mem_cons.mp hy with rfl | hy
        · rfl
        · exact absurd (hempty y hy) hyne
      · exact absurd (hempty x hx) hxne

theorem nackAll_of_ids : ∀ {ids : List ℤ} (s : SendQueue α), ids.Pairwise (· < ·) →
    (∀ e ∈ s.unAcked.entries, e.1 ∈ ids) → ids.foldl nacked s = s.nackAll
  | [], s, _, hids => by
    have hnil : s.unAcked.entries = [] := List.eq_nil_iff_forall_not_mem.mpr fun e he => List.not_mem_nil (hids e he)
    rw [nackAll, hnil]
    rfl
  | id :: ids, s, hlt, hids => by
    obtain ⟨hid, hrest⟩ := List.pairwise_cons.mp hlt
    have hsub : ∀ e ∈ (s.nacked id).unAcked.entries, e.1 ∈ ids := by
      intro e he
      obtain ⟨he, hne⟩ := List.mem_filter.mp he
      exact (List.mem_cons.mp (hids e he)).resolve_left (of_decide_eq_true hne)
    rw [List.foldl_cons, nackAll_of_ids (s.nacked id) hrest hsub]
    cases hentries : s.unAcked.entries with
    | nil =>
      have hsame : s.nacked id = s := by
        obtain ⟨queue, ⟨entries, sorted⟩⟩ := s
        obtain rfl : entries = [] := hentries
        rfl
      rw [hsame]
    | cons e es =>
      by_cases he : e.1 = id
      · have hes : (s.nacked id).unAcked.entries = es := he ▸ s.unAcked.entries_erase_head hentries
        rw [nackAll, hes, nackAll, hentries, List.map_cons, List.foldl_cons, he]
      · -- the least id with items comes later, so that there is nothing under this one
        have hmem : e.1 ∈ ids := (List.mem_cons.mp (hids e (by rw [hentries]; exact List.mem_cons_self ..))).resolve_left he
        have hnone : s.unAcked.find? id = none := by
          cases hfind : s.unAcked.find? id with
          | none => rfl
          | some l =>
            have hle := s.unAcked.begin?_le (a := e.1) (w := e.2) (by rw [SortedMap.begin?, hentries]; rfl) hfind
            exact absurd (hid e.1 hmem) (not_lt.mpr hle)
        have hsame : s.nacked id = s := by
          unfold nacked under
          rw [hnone, SortedMap.erase_of_find?_none hnone]
          rfl
        rw [hsame]

/-! ## Images -/

section
variable (f : α → β)

theorem map_under (id : ℤ) : (s.map f).under id = (s.under id).map f := by
  unfold under map
  rw [SortedMap.find?_mapValues]
  cases s.unAcked.find? id <;> rfl

theorem map_push (items : List α) : (s.push items).map f = (s.map f).push (items.map f) := by
  unfold push map
  rw [List.map_append]

theorem map_send (id : ℤ) : (s.send id).map f = (s.map f).send id := by
  unfold send
  cases hq : s.queue with
  | nil =>
    have hmap : (s.map f).queue = [] := by rw [map, hq, List.map_nil]
    rw [hmap]
  | cons a rest =>
    have hmap : (s.map f).queue = f a :: rest.map f := by rw [map, hq, List.map_cons]
    rw [hmap, map_under]
    show SendQueue.mk (rest.map f) _ = _
    rw [SortedMap.mapValues_insert, List.map_append, List.map_singleton]
    rfl

theorem map_acked (id : ℤ) : (s.acked id).map f = (s.map f).acked id := by
  unfold acked map
  rw [SortedMap.mapValues_erase]

theorem map_nacked (id : ℤ) : (s.nacked id).map f = (s.map f).nacked id := by
  unfold nacked
  rw [map_under]
  show SendQueue.mk ((s.under id ++ s.queue).map f) ((s.unAcked.erase id).mapValues (List.map f)) = _
  rw [List.map_append, SortedMap.mapValues_erase]
  rfl

theorem map_retransmitAll : s.retransmitAll.map f = (s.map f).retransmitAll := by
  have hmembers : (s.map f).unAcked.members = s.unAcked.members.map f := by
    show (s.unAcked.entries.map fun e => (e.1, e.2.map f)).flatMap Prod.snd = (s.unAcked.entries.flatMap Prod.snd).map f
    rw [List.flatMap_map, List.map_flatMap]
  unfold retransmitAll
  rw [hmembers]
  show SendQueue.mk ((s.unAcked.members ++ s.queue).map f) (SortedMap.empty.mapValues (List.map f)) = _
  rw [List.map_append]
  rfl

end

/-! ## Items in one place -/

def held : List α := s.queue ++ s.unAcked.members

variable {s}

theorem held_push (items : List α) : (s.push items).held.Perm (s.held ++ items) := by
  unfold held push
  rw [List.append_assoc, List.append_assoc]
  exact List.perm_append_comm.append_left s.queue

theorem held_send (id : ℤ) : (s.send id).held.Perm s.held := by
  unfold send held
  cases hq : s.queue with
  | nil => rw [hq]
  | cons a rest =>
    have hmem := s.unAcked.members_extend_perm id [a]
    have hcomm : (rest ++ (s.unAcked.members ++ [a])).Perm (a :: (rest ++ s.unAcked.members)) := by
      rw [← List.append_assoc]
      exact List.perm_append_singleton a _
    exact (hmem.append_left rest).trans hcomm

theorem held_acked (id : ℤ) : s.held.Perm ((s.acked id).held ++ s.under id) := by
  unfold held acked
  rw [List.append_assoc]
  exact (s.unAcked.members_erase_perm id).append_left s.queue

theorem held_nacked (id : ℤ) : (s.nacked id).held.Perm s.held := by
  have hmem := (s.unAcked.members_erase_perm id).append_left s.queue
  unfold held nacked
  refine List.Perm.trans ?_ hmem.symm
  have hcomm : (s.queue ++ ((s.unAcked.erase id).members ++ s.under id)).Perm
      (s.under id ++ (s.queue ++ (s.unAcked.erase id).members)) := by
    rw [← List.append_assoc]
    exact List.perm_append_comm
  rw [List.append_assoc]
  exact hcomm.symm

theorem held_retransmitAll : s.retransmitAll.held.Perm s.held := by
  unfold held retransmitAll
  rw [show (SortedMap.empty : SortedMap ℤ (List α)).members = [] from rfl, List.append_nil]
  exact List.perm_append_comm

theorem under_erase (id k : ℤ) (queue : List α) :
    (SendQueue.mk queue (s.unAcked.erase id)).under k = if k = id then [] else s.under k := by
  unfold under
  rw [SortedMap.find?_erase]
  split_ifs <;> rfl

theorem under_send {a : α} {rest : List α} (hq : s.queue = a :: rest) (id k : ℤ) :
    (s.send id).under k = if k = id then s.under id ++ [a] else s.under k := by
  unfold send
  rw [hq]
  unfold under
  rw [SortedMap.find?_insert]
  split_ifs <;> rfl

theorem mem_members_of_under {a : α} {id : ℤ} (h : a ∈ s.under id) : a ∈ s.unAcked.members := by
  rw [SortedMap.mem_members]
  cases hfind : s.unAcked.find? id with
  | none =>
    rw [under, hfind] at h
    cases h
  | some l =>
    rw [under, hfind] at h
    exact ⟨id, l, hfind, h⟩

end SendQueue

/-! ## Histories -/

/-- A queue with the sends, the items put back and the items removed by acks, each with its id. -/
structure SendHistory (α : Type) where
  sends : SendQueue α
  sent : List (α × ℤ)
  requeued : List (α × ℤ)
  removed : List (α × ℤ)

namespace SendHistory

variable {α : Type} (h : SendHistory α)

def push (items : List α) : SendHistory α := { h with sends := h.sends.push items }

def send (id : ℤ) : SendHistory α :=
  { h with sends := h.sends.send id, sent := h.sent ++ (h.sends.queue.head?.map fun a => (a, id)).toList }

def acked (id : ℤ) : SendHistory α :=
  { h with sends := h.sends.acked id, removed := h.removed ++ (h.sends.under id).map fun a => (a, id) }

def nacked (id : ℤ) : SendHistory α :=
  { h with sends := h.sends.nacked id, requeued := h.requeued ++ (h.sends.under id).map fun a => (a, id) }

def unanswered : List (α × ℤ) := h.sends.unAcked.entries.flatMap fun e => e.2.map fun a => (a, e.1)

def retransmitAll : SendHistory α :=
  { h with sends := h.sends.retransmitAll, requeued := h.requeued ++ h.unanswered }

variable [DecidableEq α]

local instance pairBEq : BEq (α × ℤ) := instBEqOfDecidableEq

def lastSent (a : α) : Option ℤ := ((h.sent.filter fun e => e.1 = a).getLast?).map Prod.snd

def timesSent (a : α) (id : ℤ) : ℕ := h.sent.count (a, id)

/-- Every item is in one place, each send was answered once or is still under its id, and what an id holds or has removed was
sent under it last. -/
structure Accounted (items : List α) (h : SendHistory α) : Prop where
  once : (h.sends.held ++ h.removed.map Prod.fst).Perm items
  balance : ∀ a id, h.sent.count (a, id) = h.requeued.count (a, id) + h.removed.count (a, id) + (h.sends.under id).count a
  last : ∀ a id, a ∈ h.sends.under id ∨ (a, id) ∈ h.removed → h.lastSent a = some id

variable {h} {items : List α}

theorem count_pairs (l : List α) (id : ℤ) (a : α) (k : ℤ) :
    (l.map fun a => (a, id)).count (a, k) = if k = id then l.count a else 0 := by
  induction l with
  | nil => simp
  | cons b l ih =>
    rw [List.map_cons, List.count_cons, List.count_cons, ih]
    by_cases hk : k = id
    · subst hk
      simp
    · simp [hk, Ne.symm hk]

theorem count_unanswered (a : α) (id : ℤ) : h.unanswered.count (a, id) = (h.sends.under id).count a := by
  have key : ∀ es : List (ℤ × List α), es.Pairwise (fun e e' => e.1 < e'.1) →
      (es.flatMap fun e => e.2.map fun a => (a, e.1)).count (a, id) = ((SortedMap.lookup id es).getD []).count a := by
    intro es
    induction es with
    | nil => exact fun _ => rfl
    | cons e es ih =>
      intro hs
      obtain ⟨he, hes⟩ := List.pairwise_cons.mp hs
      rw [List.flatMap_cons, List.count_append, count_pairs, ih hes, SortedMap.lookup]
      by_cases hid : id = e.1
      · have hnone : SortedMap.lookup id es = none := by
          cases hl : SortedMap.lookup id es with
          | none => rfl
          | some l =>
            have hlt := he _ ((SortedMap.lookup_eq_some hes).mp hl)
            exact absurd hid (ne_of_gt hlt)
        rw [if_pos hid, if_pos hid, hnone]
        rfl
      · rw [if_neg hid, if_neg hid, Nat.zero_add]
  exact key h.sends.unAcked.entries h.sends.unAcked.sorted

theorem Accounted.not_answered (ha : Accounted items h) (hnodup : items.Nodup) {a : α} (hq : a ∈ h.sends.queue) (id : ℤ) :
    a ∉ h.sends.under id ∧ (a, id) ∉ h.removed := by
  have hall := ha.once.nodup_iff.mpr hnodup
  rw [SendQueue.held, List.append_assoc] at hall
  obtain ⟨-, -, hdisjoint⟩ := List.nodup_append.mp hall
  refine ⟨fun hmem => ?_, fun hmem => ?_⟩
  · exact hdisjoint a hq a (List.mem_append_left _ (SendQueue.mem_members_of_under hmem)) rfl
  · exact hdisjoint a hq a (List.mem_append_right _ (List.mem_map_of_mem hmem)) rfl

theorem Accounted.push (ha : Accounted items h) (new : List α) : Accounted (items ++ new) (h.push new) := by
  refine ⟨?_, ha.balance, ha.last⟩
  have hheld := (SendQueue.held_push (s := h.sends) new).append_right (h.removed.map Prod.fst)
  refine hheld.trans (List.Perm.trans ?_ (ha.once.append_right new))
  rw [List.append_assoc, List.append_assoc]
  exact List.perm_append_comm.append_left _

theorem lastSent_send {a : α} {rest : List α} (hq : h.sends.queue = a :: rest) (id : ℤ) (b : α) :
    (h.send id).lastSent b = if b = a then some id else h.lastSent b := by
  unfold lastSent send
  simp only [hq, List.head?_cons, Option.map_some, Option.toList_some, List.filter_append, List.filter_cons, List.filter_nil]
  by_cases hb : b = a
  · subst hb
    simp
  · simp [hb, Ne.symm hb]

theorem Accounted.send (ha : Accounted items h) (hnodup : items.Nodup) (id : ℤ) : Accounted items (h.send id) := by
  cases hq : h.sends.queue with
  | nil =>
    have hsame : h.send id = h := by
      unfold SendHistory.send SendQueue.send
      rw [hq, List.head?_nil, Option.map_none, Option.toList_none, List.append_nil]
    rw [hsame]
    exact ha
  | cons a rest =>
    have hout := ha.not_answered hnodup (a := a) (by rw [hq]; exact List.mem_cons_self ..)
    refine ⟨(SendQueue.held_send id).append_right _ |>.trans ha.once, ?_, ?_⟩
    · intro b k
      have hold := ha.balance b k
      show (h.sent ++ (h.sends.queue.head?.map fun a => (a, id)).toList).count (b, k) =
        h.requeued.count (b, k) + h.removed.count (b, k) + ((h.sends.send id).under k).count b
      rw [SendQueue.under_send hq, hq, List.head?_cons, Option.map_some, Option.toList_some, List.count_append, hold]
      by_cases hk : k = id
      · subst hk
        rw [if_pos rfl, List.count_append]
        simp only [List.count_cons, List.count_nil, beq_iff_eq, Prod.mk.injEq, and_true]
        omega
      · rw [if_neg hk]
        simp [Ne.symm hk]
    · intro b k hb
      rw [lastSent_send hq]
      by_cases hba : b = a
      · subst hba
        rw [if_pos rfl]
        rcases hb with hb | hb
        · have hb : b ∈ (h.sends.send id).under k := hb
          rw [SendQueue.under_send hq] at hb
          by_cases hk : k = id
          · rw [hk]
          · rw [if_neg hk] at hb
            exact absurd hb (hout k).1
        · exact absurd hb (hout k).2
      · rw [if_neg hba]
        apply ha.last b k
        rcases hb with hb | hb
        · have hb : b ∈ (h.sends.send id).under k := hb
          rw [SendQueue.under_send hq] at hb
          by_cases hk : k = id
          · subst hk
            rw [if_pos rfl] at hb
            rcases List.mem_append.mp hb with hb | hb
            · exact .inl hb
            · exact absurd (List.mem_singleton.mp hb) hba
          · rw [if_neg hk] at hb
            exact .inl hb
        · exact .inr hb

theorem count_answered (id : ℤ) (queue : List α) (a : α) (k : ℤ) :
    ((h.sends.under id).map fun a => (a, id)).count (a, k) +
      ((SendQueue.mk queue (h.sends.unAcked.erase id)).under k).count a = (h.sends.under k).count a := by
  rw [count_pairs, SendQueue.under_erase]
  by_cases hk : k = id
  · subst hk
    rw [if_pos rfl, if_pos rfl]
    rfl
  · rw [if_neg hk, if_neg hk, Nat.zero_add]

omit [DecidableEq α] in
theorem mem_under_of_erase {id k : ℤ} {queue : List α} {a : α}
    (ha : a ∈ (SendQueue.mk queue (h.sends.unAcked.erase id)).under k) : a ∈ h.sends.under k := by
  rw [SendQueue.under_erase] at ha
  split_ifs at ha
  · cases ha
  · exact ha

theorem Accounted.acked (ha : Accounted items h) (id : ℤ) : Accounted items (h.acked id) := by
  refine ⟨?_, ?_, ?_⟩
  · have hmap : ((h.sends.under id).map fun a => (a, id)).map Prod.fst = h.sends.under id := by
      rw [List.map_map]
      exact List.map_id _
    show ((h.sends.acked id).held ++ (h.removed ++ (h.sends.under id).map fun a => (a, id)).map Prod.fst).Perm items
    rw [List.map_append, hmap]
    have hheld := (SendQueue.held_acked (s := h.sends) id).append_right (h.removed.map Prod.fst)
    refine List.Perm.trans ?_ (hheld.symm.trans ha.once)
    rw [List.append_assoc]
    exact List.perm_append_comm.append_left _
  · intro a k
    have hold := ha.balance a k
    have hmoved := count_answered (h := h) id h.sends.queue a k
    show h.sent.count (a, k) = h.requeued.count (a, k) +
      (h.removed ++ (h.sends.under id).map fun a => (a, id)).count (a, k) + ((h.sends.acked id).under k).count a
    rw [List.count_append]
    unfold SendQueue.acked
    omega
  · intro a k hk
    apply ha.last a k
    rcases hk with hk | hk
    · exact .inl (mem_under_of_erase hk)
    · rcases List.mem_append.mp hk with hk | hk
      · exact .inr hk
      · obtain ⟨b, hb, he⟩ := List.mem_map.mp hk
        obtain ⟨rfl, rfl⟩ := Prod.mk.inj he
        exact .inl hb

theorem Accounted.nacked (ha : Accounted items h) (id : ℤ) : Accounted items (h.nacked id) := by
  refine ⟨((SendQueue.held_nacked id).append_right _).trans ha.once, ?_, ?_⟩
  · intro a k
    have hold := ha.balance a k
    have hmoved := count_answered (h := h) id (h.sends.under id ++ h.sends.queue) a k
    show h.sent.count (a, k) = (h.requeued ++ (h.sends.under id).map fun a => (a, id)).count (a, k) +
      h.removed.count (a, k) + ((h.sends.nacked id).under k).count a
    rw [List.count_append]
    unfold SendQueue.nacked
    omega
  · intro a k hk
    apply ha.last a k
    exact hk.imp_left mem_under_of_erase

theorem Accounted.retransmitAll (ha : Accounted items h) : Accounted items h.retransmitAll := by
  refine ⟨(SendQueue.held_retransmitAll.append_right _).trans ha.once, ?_, ?_⟩
  · intro a k
    have hold := ha.balance a k
    show h.sent.count (a, k) = (h.requeued ++ h.unanswered).count (a, k) + h.removed.count (a, k) + 0
    rw [List.count_append, count_unanswered]
    omega
  · intro a k hk
    rcases hk with hk | hk
    · cases hk
    · exact ha.last a k (.inr hk)

/-- An item that was put back and is removed under the same id was sent under it twice. -/
theorem Accounted.two_sends (ha : Accounted items h) {a : α} {id : ℤ} (hrequeued : (a, id) ∈ h.requeued)
    (hremoved : (a, id) ∈ h.removed) : 2 ≤ h.timesSent a id := by
  have h1 := List.count_pos_iff.mpr hrequeued
  have h2 := List.count_pos_iff.mpr hremoved
  have hsent := ha.balance a id
  unfold timesSent
  omega

theorem Accounted.sent_of_requeued (ha : Accounted items h) {a : α} {id : ℤ} (hrequeued : (a, id) ∈ h.requeued) :
    (a, id) ∈ h.sent := by
  have hcount := List.count_pos_iff.mpr hrequeued
  have hsent := ha.balance a id
  exact List.count_pos_iff.mp (by omega)

theorem le_lastSent (hsorted : h.sent.Pairwise fun e e' => e.2 ≤ e'.2) {a : α} {id k : ℤ} (hsent : (a, k) ∈ h.sent)
    (hlast : h.lastSent a = some id) : k ≤ id := by
  obtain ⟨e, he, rfl⟩ := Option.map_eq_some_iff.mp hlast
  have hmem : (a, k) ∈ h.sent.filter fun e => e.1 = a := List.mem_filter.mpr ⟨hsent, decide_eq_true rfl⟩
  have hpair := hsorted.filter fun e => e.1 = a
  rw [List.getLast?_eq_some_iff] at he
  obtain ⟨l, hl⟩ := he
  rw [hl] at hmem hpair
  rcases List.mem_append.mp hmem with hmem | hmem
  · exact (List.pairwise_append.mp hpair).2.2 _ hmem e (List.mem_singleton_self e)
  · rw [List.mem_singleton] at hmem
    rw [← hmem]

end SendHistory

end RudpEngine
