import Mathlib.Order.Lattice
import Mathlib.Data.List.Basic
import Mathlib.Data.List.Perm.Basic
import Mathlib.Tactic.SplitIfs

/-!
# Ordered maps

A map as the list of its entries in ascending key order, which is what an
iteration over it sees. What a map holds is said by its lookups.
-/

namespace RudpEngine

variable {K V : Type} [LinearOrder K]

structure SortedMap (K V : Type) [LinearOrder K] where
  entries : List (K × V)
  sorted : entries.Pairwise fun a b => a.1 < b.1

namespace SortedMap

def empty : SortedMap K V := ⟨[], List.Pairwise.nil⟩

instance : Inhabited (SortedMap K V) := ⟨empty⟩

def lookup (k : K) : List (K × V) → Option V
  | [] => none
  | (a, v) :: es => if k = a then some v else lookup k es

def insertEntry (k : K) (v : V) : List (K × V) → List (K × V)
  | [] => [(k, v)]
  | (a, w) :: es =>
    if k < a then (k, v) :: (a, w) :: es
    else if k = a then (k, v) :: es
    else (a, w) :: insertEntry k v es

theorem mem_insertEntry {k : K} {v : V} {e : K × V} : ∀ {es : List (K × V)}, e ∈ insertEntry k v es →
    e = (k, v) ∨ e ∈ es
  | [], h => by simpa [insertEntry] using h
  | (a, w) :: es, h => by
    rw [insertEntry] at h
    split at h
    · simpa using h
    · split at h
      · rcases List.mem_cons.mp h with h | h
        · exact .inl h
        · exact .inr (List.mem_cons_of_mem _ h)
      · rcases List.mem_cons.mp h with h | h
        · exact .inr (by simp [h])
        · exact (mem_insertEntry h).imp_right (List.mem_cons_of_mem _)

theorem insertEntry_sorted (k : K) (v : V) : ∀ {es : List (K × V)}, es.Pairwise (fun a b => a.1 < b.1) →
    (insertEntry k v es).Pairwise fun a b => a.1 < b.1
  | [], _ => List.pairwise_singleton _ _
  | (a, w) :: es, h => by
    obtain ⟨ha, hes⟩ := List.pairwise_cons.mp h
    rw [insertEntry]
    split
    · rename_i hk
      refine List.pairwise_cons.mpr ⟨fun e he => ?_, h⟩
      rcases List.mem_cons.mp he with rfl | he
      · exact hk
      · exact hk.trans (ha e he)
    · split
      · rename_i hk
        exact List.pairwise_cons.mpr ⟨fun e he => hk ▸ ha e he, hes⟩
      · rename_i hlt hne
        refine List.pairwise_cons.mpr ⟨fun e he => ?_, insertEntry_sorted k v hes⟩
        rcases mem_insertEntry he with rfl | he
        · exact lt_of_le_of_ne (not_lt.mp hlt) (Ne.symm hne)
        · exact ha e he

variable (m : SortedMap K V)

def find? (k : K) : Option V := lookup k m.entries

def insert (k : K) (v : V) : SortedMap K V := ⟨insertEntry k v m.entries, insertEntry_sorted k v m.sorted⟩

def erase (k : K) : SortedMap K V := ⟨m.entries.filter fun e => e.1 ≠ k, m.sorted.filter _⟩

def begin? : Option (K × V) := m.entries.head?

def size : ℕ := m.entries.length

/-! ## Lookups -/

theorem lookup_insertEntry (k : K) (v : V) (j : K) : ∀ es : List (K × V),
    lookup j (insertEntry k v es) = if j = k then some v else lookup j es
  | [] => rfl
  | (a, w) :: es => by
    rw [insertEntry]
    split
    · rfl
    · split
      · rename_i hk
        subst hk
        simp only [lookup]
        split <;> rfl
      · rename_i hne
        simp only [lookup, lookup_insertEntry k v j es]
        by_cases hj : j = a
        · rw [if_pos hj, if_pos hj, if_neg (fun h => hne (h.symm.trans hj))]
        · rw [if_neg hj, if_neg hj]

theorem lookup_filter_ne (k j : K) : ∀ es : List (K × V),
    lookup j (es.filter fun e => e.1 ≠ k) = if j = k then none else lookup j es
  | [] => by simp [lookup]
  | (a, w) :: es => by
    by_cases ha : a = k
    · rw [List.filter_cons_of_neg (by simp [ha]), lookup_filter_ne k j es]
      by_cases hj : j = k
      · rw [if_pos hj, if_pos hj]
      · rw [if_neg hj, if_neg hj, lookup, if_neg (fun h => hj (h.trans ha))]
    · rw [List.filter_cons_of_pos (by simp [ha]), lookup, lookup, lookup_filter_ne k j es]
      by_cases hj : j = a
      · rw [if_pos hj, if_neg (fun h => ha (hj.symm.trans h)), if_pos hj]
      · rw [if_neg hj, if_neg hj]

@[simp] theorem find?_empty (k : K) : (empty : SortedMap K V).find? k = none := rfl

theorem find?_insert (k : K) (v : V) (j : K) : (m.insert k v).find? j = if j = k then some v else m.find? j :=
  lookup_insertEntry k v j m.entries

theorem find?_erase (k j : K) : (m.erase k).find? j = if j = k then none else m.find? j :=
  lookup_filter_ne k j m.entries

theorem lookup_eq_some {k : K} {v : V} : ∀ {es : List (K × V)}, es.Pairwise (fun a b => a.1 < b.1) →
    (lookup k es = some v ↔ (k, v) ∈ es)
  | [], _ => by simp [lookup]
  | (a, w) :: es, h => by
    obtain ⟨ha, hes⟩ := List.pairwise_cons.mp h
    rw [lookup]
    by_cases hk : k = a
    · subst hk
      rw [if_pos rfl]
      refine ⟨fun hv => by simp [Option.some.inj hv], fun hm => ?_⟩
      rcases List.mem_cons.mp hm with he | he
      · rw [(Prod.mk.inj he).2]
      · exact absurd (ha _ he) (lt_irrefl _)
    · rw [if_neg hk, lookup_eq_some hes]
      simp [hk]

theorem find?_eq_some {k : K} {v : V} : m.find? k = some v ↔ (k, v) ∈ m.entries := lookup_eq_some m.sorted

theorem begin?_le {a : K} {w : V} (h : m.begin? = some (a, w)) {k : K} {v : V} (hk : m.find? k = some v) : a ≤ k := by
  have hm := m.find?_eq_some.mp hk
  have hs := m.sorted
  obtain ⟨es, he⟩ : ∃ es, m.entries = (a, w) :: es := List.head?_eq_some_iff.mp h
  rw [he] at hm hs
  rcases List.mem_cons.mp hm with h1 | h1
  · exact le_of_eq (Prod.mk.inj h1).1.symm
  · exact le_of_lt ((List.pairwise_cons.mp hs).1 _ h1)

theorem find?_of_begin? {a : K} {w : V} (h : m.begin? = some (a, w)) : m.find? a = some w :=
  m.find?_eq_some.mpr (List.mem_of_mem_head? (by rw [begin?] at h; simp [h]))

theorem begin?_eq_none : m.begin? = none ↔ m.entries = [] := List.head?_eq_none_iff

theorem find?_of_entries_nil (h : m.entries = []) (k : K) : m.find? k = none := by rw [find?, h]; rfl

theorem find?_of_size_zero (h : m.size = 0) (k : K) : m.find? k = none :=
  m.find?_of_entries_nil (List.length_eq_zero_iff.mp h) k

theorem size_erase_lt {a : K} {w : V} (h : m.begin? = some (a, w)) : (m.erase a).size < m.size := by
  have hm := m.find?_eq_some.mp (m.find?_of_begin? h)
  exact List.length_filter_lt_length_iff_exists.mpr ⟨_, hm, by simp⟩

theorem size_insert {k : K} (v : V) (h : m.find? k = none) : (m.insert k v).size = m.size + 1 := by
  have key : ∀ es : List (K × V), lookup k es = none → (insertEntry k v es).length = es.length + 1 := by
    intro es
    induction es with
    | nil => intro _; rfl
    | cons e es ih =>
      obtain ⟨a, w⟩ := e
      intro hl
      rw [lookup] at hl
      split_ifs at hl with hk
      rw [insertEntry, if_neg hk]
      split_ifs
      · rfl
      · rw [List.length_cons, ih hl]; rfl
  exact key m.entries h

theorem size_erase {k : K} {v : V} (h : m.find? k = some v) : (m.erase k).size + 1 = m.size := by
  have key : ∀ es : List (K × V), es.Pairwise (fun a b => a.1 < b.1) → (k, v) ∈ es →
      (es.filter fun e => e.1 ≠ k).length + 1 = es.length := by
    intro es
    induction es with
    | nil => intro _ hm; cases hm
    | cons e es ih =>
      intro hs hm
      obtain ⟨he, hes⟩ := List.pairwise_cons.mp hs
      by_cases hk : e.1 = k
      · have hall : (es.filter fun e => e.1 ≠ k) = es := by
          refine List.filter_eq_self.mpr fun e' he' => ?_
          have := he e' he'
          rw [hk] at this
          simpa using (ne_of_gt this)
        rw [List.filter_cons_of_neg (by simpa using hk), hall, List.length_cons]
      · have hm' : (k, v) ∈ es := by
          rcases List.mem_cons.mp hm with he' | hm'
          · exact absurd (by rw [← he']) hk
          · exact hm'
        rw [List.filter_cons_of_pos (by simpa using hk), List.length_cons, ih hes hm', List.length_cons]
  exact key m.entries m.sorted (m.find?_eq_some.mp h)

theorem entries_nodup : m.entries.Nodup := by
  refine List.Pairwise.imp ?_ m.sorted
  intro a b hlt he
  rw [he] at hlt
  exact lt_irrefl _ hlt

theorem ext_find? {m m' : SortedMap K V} (h : ∀ k, m.find? k = m'.find? k) : m = m' := by
  have hmem : ∀ e, e ∈ m.entries ↔ e ∈ m'.entries := by
    rintro ⟨k, v⟩
    rw [← m.find?_eq_some, ← m'.find?_eq_some, h]
  have hperm := (List.perm_ext_iff_of_nodup m.entries_nodup m'.entries_nodup).mpr hmem
  have heq : m.entries = m'.entries :=
    hperm.eq_of_pairwise (fun a b _ _ hab hba => absurd (hab.trans hba) (lt_irrefl _)) m.sorted m'.sorted
  cases m; cases m'
  simp only at heq
  subst heq
  rfl

theorem erase_of_find?_none {m : SortedMap K V} {k : K} (h : m.find? k = none) : m.erase k = m := by
  apply ext_find?
  intro j
  rw [find?_erase]
  split_ifs with hj
  · rw [hj, h]
  · rfl

/-! ## Values mapped -/

section
variable {W : Type} (f : V → W)

def mapValues : SortedMap K W := ⟨m.entries.map fun e => (e.1, f e.2), List.pairwise_map.mpr m.sorted⟩

theorem find?_mapValues (k : K) : (m.mapValues f).find? k = (m.find? k).map f := by
  have key : ∀ es : List (K × V), lookup k (es.map fun e => (e.1, f e.2)) = (lookup k es).map f := by
    intro es
    induction es with
    | nil => rfl
    | cons e es ih =>
      rw [List.map_cons, lookup, lookup, ih]
      split_ifs <;> rfl
  exact key m.entries

theorem mapValues_insert (k : K) (v : V) : (m.insert k v).mapValues f = (m.mapValues f).insert k (f v) := by
  apply ext_find?
  intro j
  rw [find?_mapValues, find?_insert, find?_insert, find?_mapValues]
  split_ifs <;> rfl

theorem mapValues_erase (k : K) : (m.erase k).mapValues f = (m.mapValues f).erase k := by
  apply ext_find?
  intro j
  rw [find?_mapValues, find?_erase, find?_erase, find?_mapValues]
  split_ifs <;> rfl

end

theorem entries_erase_head {e : K × V} {es : List (K × V)} (h : m.entries = e :: es) : (m.erase e.1).entries = es := by
  have hs := m.sorted
  rw [h] at hs
  have hne : ∀ e' ∈ es, e'.1 ≠ e.1 := fun e' he' => ne_of_gt ((List.pairwise_cons.mp hs).1 e' he')
  show (m.entries.filter fun e' => e'.1 ≠ e.1) = es
  rw [h, List.filter_cons_of_neg (by simp), List.filter_eq_self]
  exact fun e' he' => decide_eq_true (hne e' he')

/-! ## Lists as values -/

def members {α : Type} (m : SortedMap K (List α)) : List α := m.entries.flatMap Prod.snd

theorem mem_members {α : Type} (m : SortedMap K (List α)) {a : α} :
    a ∈ m.members ↔ ∃ k l, m.find? k = some l ∧ a ∈ l := by
  rw [members, List.mem_flatMap]
  constructor
  · rintro ⟨⟨k, l⟩, he, ha⟩
    exact ⟨k, l, m.find?_eq_some.mpr he, ha⟩
  · rintro ⟨k, l, hl, ha⟩
    exact ⟨(k, l), m.find?_eq_some.mp hl, ha⟩

theorem members_erase_perm {α : Type} (m : SortedMap K (List α)) (k : K) :
    m.members.Perm ((m.erase k).members ++ (m.find? k).getD []) := by
  have key : ∀ es : List (K × List α), es.Pairwise (fun a b => a.1 < b.1) →
      (es.flatMap Prod.snd).Perm ((es.filter fun e => e.1 ≠ k).flatMap Prod.snd ++ (lookup k es).getD []) := by
    intro es
    induction es with
    | nil => intro _; rfl
    | cons e es ih =>
      obtain ⟨a, l⟩ := e
      intro hs
      obtain ⟨ha, hes⟩ := List.pairwise_cons.mp hs
      by_cases hk : k = a
      · subst hk
        have hall : (es.filter fun e => e.1 ≠ k) = es := by
          refine List.filter_eq_self.mpr fun e he => ?_
          simpa using ne_of_gt (ha e he)
        rw [List.filter_cons_of_neg (by simp), hall, lookup, if_pos rfl, List.flatMap_cons]
        exact List.perm_append_comm
      · rw [List.filter_cons_of_pos (by simpa using Ne.symm hk), lookup, if_neg hk, List.flatMap_cons, List.flatMap_cons,
          List.append_assoc]
        exact (ih hes).append_left l
  exact key m.entries m.sorted

theorem erase_insert (k : K) (v : V) : (m.insert k v).erase k = m.erase k := by
  apply ext_find?
  intro j
  rw [find?_erase, find?_erase, find?_insert]
  by_cases hj : j = k
  · rw [if_pos hj, if_pos hj]
  · rw [if_neg hj, if_neg hj, if_neg hj]

theorem size_insert_of_some {k : K} {w : V} (v : V) (h : m.find? k = some w) : (m.insert k v).size = m.size := by
  have hnew : (m.insert k v).find? k = some v := by rw [find?_insert, if_pos rfl]
  have hsize := (m.insert k v).size_erase hnew
  rw [erase_insert, m.size_erase h] at hsize
  exact hsize.symm

theorem members_extend_perm {α : Type} (m : SortedMap K (List α)) (k : K) (l : List α) :
    (m.insert k ((m.find? k).getD [] ++ l)).members.Perm (m.members ++ l) := by
  have hnew := (m.insert k ((m.find? k).getD [] ++ l)).members_erase_perm k
  rw [erase_insert, find?_insert, if_pos rfl, Option.getD_some, ← List.append_assoc] at hnew
  exact hnew.trans ((m.members_erase_perm k).symm.append_right l)

end SortedMap

end RudpEngine
