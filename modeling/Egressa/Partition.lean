import Egressa.Maps

/-!
# A map in parts

A family of maps holds the entries of one map in parts: every key has a home, the part it is in if it is in any.
-/

namespace Maps

variable {α β ι : Type*} [DecidableEq α]

/-- `parts` hold the entries of `whole`, each in the home of its key. -/
structure Parts (home : α → ι) (parts : ι → Map α β) (whole : Map α β) : Prop where
  lookup : ∀ a, whole.lookup a = (parts (home a)).lookup a
  homed : ∀ i a, a ∈ parts i → home a = i

namespace Parts

variable {home : α → ι} {parts parts' : ι → Map α β} {whole whole' : Map α β}

theorem empty : Parts home (fun _ => (∅ : Map α β)) ∅ where
  lookup _ := rfl
  homed _ _ h := absurd h (AList.notMem_empty _)

theorem insert [DecidableEq ι] (h : Parts home parts whole) (a : α) (b : β) :
    Parts home (Function.update parts (home a) ((parts (home a)).insert a b)) (whole.insert a b) where
  lookup a' := by
    rw [lookup_insert_eq]
    by_cases hhome : home a' = home a
    · rw [hhome, Function.update_self, lookup_insert_eq, h.lookup a', hhome]
    · have hne : a' ≠ a := fun heq => hhome (by rw [heq])
      rw [if_neg hne, Function.update_of_ne hhome, h.lookup a']
  homed i a' hmem := by
    by_cases hi : i = home a
    · subst hi
      rw [Function.update_self, AList.mem_insert] at hmem
      rcases hmem with rfl | hmem
      · rfl
      · exact h.homed _ a' hmem
    · rw [Function.update_of_ne hi] at hmem
      exact h.homed i a' hmem

theorem sweep (h : Parts home parts whole) {keep : α → β → Prop}
    (hparts : ∀ i a b, (parts' i).lookup a = some b ↔ (parts i).lookup a = some b ∧ keep a b)
    (hwhole : ∀ a b, whole'.lookup a = some b ↔ whole.lookup a = some b ∧ keep a b) :
    Parts home parts' whole' where
  lookup a := by
    ext b
    rw [hwhole, hparts, h.lookup]
  homed i a hmem := by
    obtain ⟨b, hb⟩ := lookup_of_mem hmem
    exact h.homed i a (mem_of_lookup ((hparts i a b).1 hb).1)

theorem length [Fintype ι] [DecidableEq ι] (h : Parts home parts whole) :
    ∑ i, (parts i).entries.length = whole.entries.length := by
  have card : ∀ m : Map α β, m.entries.length = m.keys.toFinset.card := fun m => by
    rw [List.toFinset_card_of_nodup m.keys_nodup, AList.keys, List.keys, List.length_map]
  rw [card, Finset.card_eq_sum_card_fiberwise (f := home) (t := Finset.univ) fun _ _ => Finset.mem_univ _]
  refine Finset.sum_congr rfl fun i _ => ?_
  rw [card]
  congr 1
  ext a
  simp only [List.mem_toFinset, Finset.mem_filter]
  rw [← AList.mem_keys, ← AList.mem_keys, ← AList.lookup_isSome, ← AList.lookup_isSome (s := whole), h.lookup]
  constructor
  · intro ha
    have hi := h.homed i a (AList.lookup_isSome.1 ha)
    exact ⟨by rwa [hi], hi⟩
  · rintro ⟨ha, rfl⟩
    exact ha

end Parts

end Maps
