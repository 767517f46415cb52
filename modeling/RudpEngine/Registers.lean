import Mathlib.Data.List.Nodup

/-!
# Registers of keyed items

Items have different keys, and registers of several kinds hold the key of an
item during some stages of it. The items change one at a time. A register
stays right as long as the step of an item touches no key but its own.
-/

namespace RudpEngine

variable {κ ν ι : Type} {key : ι → κ}

/-- `holds k v`, of a register, for the items whose key is to be in it, with their values. -/
def Registers (key : ι → κ) (holds : κ → ν → Prop) (inside : ι → ν → Prop) (items : List ι) : Prop :=
  ∀ k v, holds k v ↔ ∃ a ∈ items, key a = k ∧ inside a v

namespace Registers

theorem eq_of_key {items : List ι} (hkeys : (items.map key).Nodup) {a b : ι} (ha : a ∈ items) (hb : b ∈ items)
    (h : key a = key b) : a = b := List.inj_on_of_nodup_map hkeys ha hb h

variable {holds holds' : κ → ν → Prop} {inside : ι → ν → Prop} {items : List ι} {i : ℕ} {a a' : ι}

theorem nil (h : ∀ k v, ¬ holds k v) : Registers key holds inside [] := by
  intro k v
  simp [h k v]

theorem holds_iff (h : Registers key holds inside items) (hkeys : (items.map key).Nodup) (ha : a ∈ items) (v : ν) :
    holds (key a) v ↔ inside a v := by
  rw [h]
  constructor
  · intro hex
    obtain ⟨b, hb, hkey, hin⟩ := hex
    rw [eq_of_key hkeys ha hb hkey.symm]
    exact hin
  · intro hin
    exact ⟨a, ha, rfl, hin⟩

theorem concat (h : Registers key holds inside items) (hnot : ∀ v, ¬ inside a v) :
    Registers key holds inside (items ++ [a]) := by
  intro k v
  rw [h]
  simp only [List.mem_append, List.mem_singleton, or_and_right, exists_or]
  refine (or_iff_left ?_).symm
  intro hex
  obtain ⟨b, rfl, -, hin⟩ := hex
  exact hnot v hin

theorem set (h : Registers key holds inside items) (hkeys : (items.map key).Nodup) (hi : items[i]? = some a)
    (hkey : key a' = key a) (hother : ∀ k v, k ≠ key a → (holds' k v ↔ holds k v))
    (hown : ∀ v, holds' (key a) v ↔ inside a' v) : Registers key holds' inside (items.set i a') := by
  obtain ⟨hlt, rfl⟩ := List.getElem?_eq_some_iff.mp hi
  intro k v
  by_cases hk : k = key items[i]
  · subst hk
    rw [hown]
    constructor
    · intro hin
      exact ⟨a', List.mem_set hlt a', hkey, hin⟩
    · intro hex
      obtain ⟨b, hb, hbkey, hin⟩ := hex
      obtain ⟨j, hj⟩ := List.getElem?_of_mem hb
      by_cases hji : j = i
      · subst hji
        rw [List.getElem?_set_self hlt, Option.some.injEq] at hj
        rw [hj]
        exact hin
      · rw [List.getElem?_set_ne (Ne.symm hji)] at hj
        have hjlt : j < (items.map key).length := by
          simpa using (List.getElem?_eq_some_iff.mp hj).1
        have hsame : (items.map key)[j]? = (items.map key)[i]? := by
          rw [List.getElem?_map, List.getElem?_map, hj, hi, Option.map_some, Option.map_some, hbkey]
        exact absurd ((List.getElem?_inj hjlt hkeys).mp hsame) hji
  · rw [hother k v hk, h]
    constructor
    · intro hex
      obtain ⟨b, hb, hbkey, hin⟩ := hex
      obtain ⟨j, hj⟩ := List.getElem?_of_mem hb
      have hji : i ≠ j := by
        intro hij
        subst hij
        rw [hi, Option.some.injEq] at hj
        exact hk (by rw [← hbkey, hj])
      refine ⟨b, List.mem_of_getElem? (i := j) ?_, hbkey, hin⟩
      rw [List.getElem?_set_ne hji]
      exact hj
    · intro hex
      obtain ⟨b, hb, hbkey, hin⟩ := hex
      rcases List.mem_or_eq_of_mem_set hb with hb | rfl
      · exact ⟨b, hb, hbkey, hin⟩
      · exact absurd (hbkey.symm.trans hkey) hk

theorem keep (h : Registers key holds inside items) (hkeys : (items.map key).Nodup) (hi : items[i]? = some a)
    (hkey : key a' = key a) (hsame : ∀ v, inside a' v ↔ inside a v) : Registers key holds inside (items.set i a') := by
  refine h.set hkeys hi hkey (fun _ _ _ => Iff.rfl) ?_
  intro v
  rw [hsame, h.holds_iff hkeys (List.mem_of_getElem? hi)]

end Registers

end RudpEngine
