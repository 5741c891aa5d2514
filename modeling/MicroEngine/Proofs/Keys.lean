/-!
# Lists of entries with different keys

* `find?_key_eq_some_iff`: the entry that is found for a key.
* `length_filter_key_le_one`: how many entries a key has.
* `eraseDups_concat`: keys without repetitions, by the last one.
-/

namespace MicroEngine

variable {α β : Type} [BEq β] [LawfulBEq β] {key : α → β} {k : β}

/-- The entry that is found for a key is the entry with this key. -/
theorem find?_key_eq_some_iff {a : α} : ∀ {as : List α}, (as.map key).Nodup →
    (as.find? (fun a => key a == k) = some a ↔ a ∈ as ∧ key a = k)
  | [], _ => by simp
  | b :: as, h => by
    obtain ⟨hb, has⟩ := List.nodup_cons.mp h
    rw [List.find?_cons]
    by_cases hk : key b = k
    · rw [beq_iff_eq.mpr hk]
      constructor
      · intro ha
        cases ha
        exact ⟨List.mem_cons_self, hk⟩
      · rintro ⟨ha, hak⟩
        rcases List.mem_cons.mp ha with rfl | ha
        · rfl
        · exact absurd (hk.trans hak.symm ▸ List.mem_map_of_mem ha) hb
    · rw [beq_eq_false_iff_ne.mpr hk]
      simp only [find?_key_eq_some_iff has, List.mem_cons]
      refine ⟨fun ha => ⟨.inr ha.1, ha.2⟩, ?_⟩
      rintro ⟨rfl | ha, hak⟩
      · exact absurd hak hk
      · exact ⟨ha, hak⟩

theorem length_filter_key_le_one {as : List α} (h : (as.map key).Nodup) (k : β) :
    (as.filter fun a => key a == k).length ≤ 1 := by
  have hcount := List.nodup_iff_count.mp h k
  rwa [List.count_eq_countP, List.countP_map, List.countP_eq_length_filter] at hcount

theorem eraseDups_concat (ks : List β) (k : β) :
    (ks ++ [k]).eraseDups = if k ∈ ks then ks.eraseDups else ks.eraseDups ++ [k] := by
  rw [List.eraseDups_append]
  by_cases h : k ∈ ks <;> simp [List.removeAll, List.eraseDups_cons, h]

end MicroEngine
