import Mathlib

/-!
# Finite maps and the loops that range over them

A map that code ranges over is a list of entries with distinct keys, in whatever order the loop meets them.  The rules
`Sweeps.foldl` and `Fills.foldl` say what a whole loop does to the map, which is one component of its state, and carry
along an invariant of the rest.
-/

namespace Maps

/-- A Go map. -/
abbrev Map (α : Type*) (β : Type*) := AList fun _ : α => β

abbrev Entry (α : Type*) (β : Type*) := Sigma fun _ : α => β

section Basic

variable {α β : Type*} [DecidableEq α]

/-- Every entry of `m` is one of `want`. -/
def Sub (m want : Map α β) : Prop := ∀ a b, m.lookup a = some b → want.lookup a = some b

variable {m : Map α β}

theorem mem_of_lookup {a : α} {b : β} (h : m.lookup a = some b) : a ∈ m := AList.lookup_isSome.1 (by simp [h])

theorem lookup_of_mem {a : α} (h : a ∈ m) : ∃ b, m.lookup a = some b :=
  Option.isSome_iff_exists.1 (AList.lookup_isSome.2 h)

theorem lookup_insert_eq (m : Map α β) (a a' : α) (b : β) :
    (m.insert a b).lookup a' = if a' = a then some b else m.lookup a' := by
  by_cases h : a' = a
  · subst h
    simp
  · simp [h, AList.lookup_insert_ne h]

theorem lookup_erase_eq (m : Map α β) (a a' : α) : (m.erase a).lookup a' = if a' = a then none else m.lookup a' := by
  by_cases h : a' = a
  · subst h
    simp
  · simp [h, AList.lookup_erase_ne h]

theorem sub_erase (m : Map α β) (a : α) : Sub (m.erase a) m := by
  intro a' b h
  rw [lookup_erase_eq] at h
  split_ifs at h
  exact h

theorem lookup_of_mem_entries {e : Entry α β} (h : e ∈ m.entries) : m.lookup e.1 = some e.2 :=
  AList.mem_lookup_iff.2 h

omit [DecidableEq α] in
theorem nodup_fst_of_perm {l : List (Entry α β)} (h : l.Perm m.entries) : (l.map Sigma.fst).Nodup :=
  (h.map Sigma.fst).nodup_iff.2 m.keys_nodup

end Basic

/-! ## The values of a map -/

section Values

variable {α β : Type*} [DecidableEq α]

omit [DecidableEq α] in
def values (m : Map α β) : List β := m.entries.map Sigma.snd

omit [DecidableEq α] in
@[simp] theorem values_empty : values (∅ : Map α β) = [] := rfl

variable {m : Map α β}

theorem mem_values {b : β} : b ∈ values m ↔ ∃ a, m.lookup a = some b := by
  constructor
  · intro h
    obtain ⟨e, he, rfl⟩ := List.mem_map.1 h
    exact ⟨e.1, lookup_of_mem_entries he⟩
  · rintro ⟨a, h⟩
    exact List.mem_map.2 ⟨⟨a, b⟩, AList.mem_lookup_iff.1 h, rfl⟩

theorem values_insert {a : α} (h : a ∉ m) (b : β) : values (m.insert a b) = b :: values m := by
  rw [values, AList.entries_insert_of_notMem h]
  rfl

theorem values_perm_erase {a : α} {b : β} (h : m.lookup a = some b) : (values m).Perm (b :: values (m.erase a)) := by
  obtain ⟨b', l₁, l₂, hl₁, hm, he⟩ := List.exists_of_kerase (AList.mem_keys.1 (mem_of_lookup h))
  have hb : m.lookup a = some b' := by
    apply AList.mem_lookup_iff.2
    simp [hm]
  cases h.symm.trans hb
  have herase : (m.erase a).entries = l₁ ++ l₂ := he
  rw [values, values, herase, hm, List.map_append, List.map_append, List.map_cons]
  exact List.perm_middle

theorem eq_empty_of_notMem (h : ∀ a, a ∉ m) : m = ∅ := by
  apply AList.ext
  apply List.eq_nil_iff_forall_not_mem.2
  intro e he
  exact h e.1 (mem_of_lookup (lookup_of_mem_entries he))

end Values

/-! ## Filling a map from a list -/

section Collect

variable {α β γ : Type*} [DecidableEq α]

/-- The assignment a loop makes for `x`, if any. -/
def put (f : γ → Option (α × β)) (m : Map α β) (x : γ) : Map α β :=
  match f x with
  | some e => m.insert e.1 e.2
  | none => m

/-- The map a loop over a list fills; a later entry replaces an earlier one. -/
def collect (f : γ → Option (α × β)) (l : List γ) : Map α β := l.foldl (put f) ∅

variable {f : γ → Option (α × β)} {x : γ}

theorem lookup_put_of_some {e : α × β} (h : f x = some e) (m : Map α β) (a : α) :
    (put f m x).lookup a = if a = e.1 then some e.2 else m.lookup a := by
  simp only [put, h]
  exact lookup_insert_eq m e.1 a e.2

theorem put_of_none (h : f x = none) (m : Map α β) : put f m x = m := by
  simp only [put, h]

variable {m : Map α β} {a : α}

theorem mem_foldl_put (l : List γ) (h : a ∈ m) : a ∈ l.foldl (put f) m := by
  induction l generalizing m with
  | nil => exact h
  | cons x l ih =>
    apply ih
    cases hx : f x with
    | none => rwa [put_of_none hx]
    | some e =>
      simp only [put, hx, AList.mem_insert]
      exact Or.inr h

variable {l : List γ} {b : β}

theorem exists_of_lookup_foldl_put (h : (l.foldl (put f) m).lookup a = some b) :
    (∃ x ∈ l, f x = some (a, b)) ∨ m.lookup a = some b := by
  induction l generalizing m with
  | nil => exact Or.inr h
  | cons x l ih =>
    rcases ih h with ⟨y, hy, hf⟩ | hm
    · exact Or.inl ⟨y, List.mem_cons_of_mem _ hy, hf⟩
    cases hx : f x with
    | none => exact Or.inr (by rwa [put_of_none hx] at hm)
    | some e =>
      rw [lookup_put_of_some hx] at hm
      by_cases ha : a = e.1
      · rw [if_pos ha] at hm
        cases hm
        exact Or.inl ⟨x, List.mem_cons_self, by rw [hx, ha]⟩
      · rw [if_neg ha] at hm
        exact Or.inr hm

theorem exists_of_lookup_collect (h : (collect f l).lookup a = some b) : ∃ x ∈ l, f x = some (a, b) := by
  rcases exists_of_lookup_foldl_put h with h | h
  · exact h
  · simp at h

theorem mem_collect (hx : x ∈ l) (hf : f x = some (a, b)) : a ∈ collect f l := by
  obtain ⟨before, after, rfl⟩ := List.append_of_mem hx
  rw [collect, List.foldl_append, List.foldl_cons]
  exact mem_foldl_put after (by simp [put, hf])

/-- No two members assign to one key. -/
def DistinctKeys (f : γ → Option (α × β)) (l : List γ) : Prop :=
  l.Pairwise fun x y => ∀ a b b', f x = some (a, b) → f y ≠ some (a, b')

theorem lookup_foldl_put_of_mem (distinct : DistinctKeys f l) (hx : x ∈ l) (hf : f x = some (a, b)) :
    (l.foldl (put f) m).lookup a = some b := by
  induction l generalizing m with
  | nil => simp at hx
  | cons y l ih =>
    obtain ⟨first, rest⟩ := List.pairwise_cons.1 distinct
    rcases List.mem_cons.1 hx with rfl | hx
    · -- nothing later writes the key of the first element
      cases h : (l.foldl (put f) (put f m x)).lookup a with
      | none =>
        have mem : a ∈ l.foldl (put f) (put f m x) := mem_foldl_put l (by simp [put, hf])
        exact absurd mem (AList.lookup_eq_none.1 h)
      | some b' =>
        rcases exists_of_lookup_foldl_put h with ⟨z, hz, hfz⟩ | h'
        · exact absurd hfz (first z hz a b b' hf)
        · rw [lookup_put_of_some hf, if_pos rfl] at h'
          rw [List.foldl_cons, h, ← h']
    · exact ih rest hx

theorem lookup_collect (distinct : DistinctKeys f l) : (collect f l).lookup a = some b ↔ ∃ x ∈ l, f x = some (a, b) :=
  ⟨exists_of_lookup_collect, fun ⟨_, hx, hf⟩ => lookup_foldl_put_of_mem distinct hx hf⟩

theorem lookup_collect_eq_none (h : ∀ x ∈ l, ∀ b, f x ≠ some (a, b)) : (collect f l).lookup a = none := by
  cases hl : (collect f l).lookup a with
  | none => rfl
  | some b =>
    obtain ⟨x, hx, hf⟩ := exists_of_lookup_collect hl
    exact absurd hf (h x hx b)

theorem collect_map {g : γ → γ} (h : ∀ x ∈ l, f (g x) = f x) : collect f (l.map g) = collect f l := by
  unfold collect
  rw [List.foldl_map]
  refine List.foldl_ext _ _ _ fun m x hx => ?_
  simp only [put, h x hx]

end Collect

/-! ## Loops over a map -/

section Loops

variable {α β σ : Type*} [DecidableEq α]

/-- Ranging over its own map, a loop deletes the entries it does not keep. -/
structure Sweeps (map : σ → Map α β) (keep : Entry α β → Prop) (step : σ → Entry α β → σ) : Prop where
  kept : ∀ s e, keep e → map (step s e) = map s
  dropped : ∀ s e, ¬ keep e → map (step s e) = (map s).erase e.1

namespace Sweeps

variable {map : σ → Map α β} {keep : Entry α β → Prop} {step : σ → Entry α β → σ}

theorem lookup_step (h : Sweeps map keep step) (s : σ) (e : Entry α β) {a : α} (ha : a ≠ e.1) :
    (map (step s e)).lookup a = (map s).lookup a := by
  by_cases hk : keep e
  · rw [h.kept s e hk]
  · rw [h.dropped s e hk, AList.lookup_erase_ne ha]

theorem foldl_aux (h : Sweeps map keep step) {P : σ → Prop}
    (turn : ∀ s e, (map s).lookup e.1 = some e.2 → P s → P (step s e)) {l : List (Entry α β)}
    (nodup : (l.map Sigma.fst).Nodup) {s : σ} (here : ∀ e ∈ l, (map s).lookup e.1 = some e.2)
    (hs : P s) :
    P (l.foldl step s) ∧ ∀ a b, (map (l.foldl step s)).lookup a = some b ↔
      (map s).lookup a = some b ∧ (⟨a, b⟩ ∈ l → keep ⟨a, b⟩) := by
  induction l generalizing s with
  | nil => exact ⟨hs, by simp⟩
  | cons e l ih =>
    obtain ⟨fresh, nodup⟩ := List.nodup_cons.1 nodup
    have others : ∀ e' ∈ l, e'.1 ≠ e.1 := fun e' he' hne => fresh (hne ▸ List.mem_map_of_mem he')
    have he := here e List.mem_cons_self
    obtain ⟨hP, hmap⟩ := ih nodup (fun e' he' => by
        rw [h.lookup_step s e (others e' he')]
        exact here e' (List.mem_cons_of_mem _ he'))
      (turn s e he hs)
    refine ⟨hP, fun a b => ?_⟩
    rw [List.foldl_cons, hmap]
    by_cases ha : a = e.1
    · subst ha
      have hnot : ⟨e.1, b⟩ ∉ l := fun hmem => others _ hmem rfl
      by_cases hk : keep e
      · rw [h.kept s e hk]
        constructor
        · rintro ⟨hb, -⟩
          obtain rfl : e.2 = b := Option.some.inj (he.symm.trans hb)
          exact ⟨hb, fun _ => hk⟩
        · rintro ⟨hb, -⟩
          exact ⟨hb, fun hmem => absurd hmem hnot⟩
      · rw [h.dropped s e hk, AList.lookup_erase]
        constructor
        · rintro ⟨hb, -⟩
          cases hb
        · rintro ⟨hb, hkeep⟩
          obtain rfl : e.2 = b := Option.some.inj (he.symm.trans hb)
          exact absurd (hkeep List.mem_cons_self) hk
    · rw [h.lookup_step s e ha, List.mem_cons]
      have hne : (⟨a, b⟩ : Entry α β) ≠ e := fun heq => ha (congrArg Sigma.fst heq)
      simp only [hne, false_or]

theorem foldl (h : Sweeps map keep step) {P : σ → Prop}
    (turn : ∀ s e, (map s).lookup e.1 = some e.2 → P s → P (step s e)) {l : List (Entry α β)} {s : σ}
    (range : l.Perm (map s).entries) (hs : P s) :
    P (l.foldl step s) ∧ ∀ a b, (map (l.foldl step s)).lookup a = some b ↔
      (map s).lookup a = some b ∧ keep ⟨a, b⟩ := by
  obtain ⟨hP, hmap⟩ := h.foldl_aux turn (nodup_fst_of_perm range)
    (fun e he => lookup_of_mem_entries (range.mem_iff.1 he)) hs
  refine ⟨hP, fun a b => (hmap a b).trans (and_congr_right fun hab => ?_)⟩
  have hmem : ⟨a, b⟩ ∈ l := range.mem_iff.2 (AList.mem_lookup_iff.1 hab)
  exact ⟨fun hk => hk hmem, fun hk _ => hk⟩

end Sweeps

/-- Ranging over a wanted map, a loop adds entries its own map does not have. -/
structure Fills (map : σ → Map α β) (step : σ → Entry α β → σ) : Prop where
  present : ∀ s e, e.1 ∈ map s → map (step s e) = map s
  absent : ∀ s e, e.1 ∉ map s → map (step s e) = map s ∨ map (step s e) = (map s).insert e.1 e.2

namespace Fills

variable {map : σ → Map α β} {step : σ → Entry α β → σ}

theorem mono (h : Fills map step) (s : σ) (e : Entry α β) {a : α} {b : β}
    (ha : (map s).lookup a = some b) : (map (step s e)).lookup a = some b := by
  by_cases he : e.1 ∈ map s
  · rwa [h.present s e he]
  rcases h.absent s e he with hs | hs
  · rwa [hs]
  · have hne : a ≠ e.1 := fun heq => he (heq ▸ mem_of_lookup ha)
    rwa [hs, AList.lookup_insert_ne hne]

theorem sub_step (h : Fills map step) {want : Map α β} {s : σ} {e : Entry α β}
    (he : want.lookup e.1 = some e.2) (hs : Sub (map s) want) : Sub (map (step s e)) want := by
  intro a b hab
  by_cases hmem : e.1 ∈ map s
  · rw [h.present s e hmem] at hab
    exact hs a b hab
  rcases h.absent s e hmem with hmap | hmap
  · rw [hmap] at hab
    exact hs a b hab
  · rw [hmap, lookup_insert_eq] at hab
    by_cases ha : a = e.1
    · rw [if_pos ha] at hab
      rw [ha, he, hab]
    · rw [if_neg ha] at hab
      exact hs a b hab

theorem mono_foldl (h : Fills map step) (l : List (Entry α β)) {s : σ} {a : α} {b : β}
    (ha : (map s).lookup a = some b) : (map (l.foldl step s)).lookup a = some b := by
  induction l generalizing s with
  | nil => exact ha
  | cons e l ih => exact ih (h.mono s e ha)

/-- A loop that fills adds wanted entries only, and all of those its turns do not fail to add. -/
theorem foldl (h : Fills map step) {P : σ → Prop} {want : Map α β} {able : Entry α β → Prop}
    (turn : ∀ s e, want.lookup e.1 = some e.2 → Sub (map s) want → P s → P (step s e))
    (adds : ∀ s e, want.lookup e.1 = some e.2 → P s → able e → e.1 ∈ map (step s e))
    {l : List (Entry α β)} (range : ∀ e ∈ l, want.lookup e.1 = some e.2) {s : σ}
    (sub : Sub (map s) want) (hs : P s) :
    P (l.foldl step s) ∧ Sub (map (l.foldl step s)) want ∧
      ∀ e ∈ l, able e → (map (l.foldl step s)).lookup e.1 = some e.2 := by
  induction l generalizing s with
  | nil => exact ⟨hs, sub, by simp⟩
  | cons e l ih =>
    have he := range e List.mem_cons_self
    have sub' := h.sub_step he sub
    obtain ⟨hP, hsub, hadd⟩ := ih (fun e' he' => range e' (List.mem_cons_of_mem _ he')) sub' (turn s e he sub hs)
    refine ⟨hP, hsub, fun e' he' hable => ?_⟩
    rcases List.mem_cons.1 he' with rfl | hmem
    · obtain ⟨b, hb⟩ := lookup_of_mem (adds s e' he hs hable)
      obtain rfl : e'.2 = b := Option.some.inj (he.symm.trans (sub' _ _ hb))
      exact h.mono_foldl l hb
    · exact hadd e' hmem hable

end Fills

end Loops

end Maps
