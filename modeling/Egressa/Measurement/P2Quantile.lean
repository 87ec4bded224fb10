import Mathlib

/-!
# The streaming quantile

`p2Quantile` (`internal/measurement/p2quantile.go`) estimates a quantile with the P² algorithm, from five markers and
no memory of the samples.  Its numbers are exact here, and a division by zero gives no result.
-/

namespace Egressa.Measurement

open Function (update update_of_ne update_self)

/-- Division that fails by zero. -/
def div? (a b : ℚ) : Option ℚ := if b = 0 then none else some (a / b)

/-- `int(x)`. -/
def trunc (x : ℚ) : ℤ := if 0 ≤ x then ⌊x⌋ else ⌈x⌉

structure P2Quantile where
  p : ℚ
  /-- Marker positions. -/
  n : Fin 5 → ℚ
  /-- Desired marker positions. -/
  npos : Fin 5 → ℚ
  /-- Increment to `npos` per observation. -/
  dn : Fin 5 → ℚ
  /-- Marker values. -/
  heights : Fin 5 → ℚ
  initBuf : List ℚ
  count : ℕ

def newP2Quantile (p : ℚ) : P2Quantile where
  p := p
  n := 0
  npos := 0
  dn := ![0, p / 2, p, (1 + p) / 2, 1]
  heights := 0
  initBuf := []
  count := 0

namespace P2Quantile

local instance neZero_4 : NeZero 4 := ⟨by decide⟩

/-- `cell`: the estimator, whose outer markers may have been extended, and the interval `x` falls into. -/
def cell (q : P2Quantile) (x : ℚ) : P2Quantile × Fin 4 :=
  if x < q.heights 0 then ({ q with heights := update q.heights 0 x }, 0)
  else if q.heights 4 ≤ x then ({ q with heights := update q.heights 4 x }, 3)
  else (q, ((List.finRange 4).find? fun i => x < q.heights i.succ).getD 3)

/-- Moves a marker by the parabolic formula, else by the linear one. -/
def move (q : P2Quantile) (i : Fin 5) (d : ℤ) : Option P2Quantile := do
  let scale ← div? d (q.n (i + 1) - q.n (i - 1))
  let above ← div? ((q.n i - q.n (i - 1) + d) * (q.heights (i + 1) - q.heights i)) (q.n (i + 1) - q.n i)
  let below ← div? ((q.n (i + 1) - q.n i - d) * (q.heights i - q.heights (i - 1))) (q.n i - q.n (i - 1))
  let parabolic := q.heights i + scale * (above + below)
  let height ←
    if q.heights (i - 1) < parabolic ∧ parabolic < q.heights (i + 1) then some parabolic
    else
      let j := Fin.ofNat 5 ((i : ℤ) + d).toNat
      (div? (d * (q.heights j - q.heights i)) (q.n j - q.n i)).map (q.heights i + ·)
  some { q with heights := update q.heights i height, n := update q.n i (q.n i + d) }

/-- Moves a marker that is off its place, if there is room. -/
def maybeAdjust (q : P2Quantile) (i : Fin 5) : Option P2Quantile :=
  let diff := q.npos i - q.n i
  if 1 ≤ diff ∧ 1 < q.n (i + 1) - q.n i then q.move i 1
  else if diff ≤ -1 ∧ q.n (i - 1) - q.n i < -1 then q.move i (-1)
  else some q

def seed (q : P2Quantile) : P2Quantile :=
  let sorted := q.initBuf.insertionSort (· ≤ ·)
  { q with
    initBuf := sorted
    heights := fun i => sorted.getD i 0
    n := fun i => i + 1
    npos := ![1, 1 + 2 * q.p, 1 + 4 * q.p, 3 + 2 * q.p, 5] }

def shift (q : P2Quantile) (k : Fin 4) : P2Quantile :=
  { q with
    n := fun i => if k.castSucc < i then q.n i + 1 else q.n i
    npos := fun i => q.npos i + q.dn i }

def observe (q : P2Quantile) (x : ℚ) : Option P2Quantile :=
  let q := { q with count := q.count + 1 }
  if q.initBuf.length < 5 then
    let q := { q with initBuf := q.initBuf ++ [x] }
    if q.initBuf.length = 5 then some q.seed else some q
  else do
    let (q, k) := q.cell x
    let q ← (q.shift k).maybeAdjust 1
    let q ← q.maybeAdjust 2
    q.maybeAdjust 3

/-- `Value`; an index out of range has no value. -/
def value (q : P2Quantile) : Option ℚ :=
  if q.count = 0 then some 0
  else if q.initBuf.length < 5 then
    let sorted := q.initBuf.insertionSort (· ≤ ·)
    let idx := trunc (q.p * ((sorted.length : ℤ) - 1 : ℤ))
    if idx < 0 then none else sorted[idx.toNat]?
  else some (q.heights 2)

def observeAll (q : P2Quantile) (xs : List ℚ) : Option P2Quantile := xs.foldlM observe q

/-! ## One marker -/

/-- Positions rise, and heights do not fall. -/
structure Ordered (n heights : Fin 5 → ℚ) : Prop where
  positions : StrictMono n
  integral : ∀ i, ∃ k : ℤ, n i = k
  heights : Monotone heights

theorem pred_lt : ∀ i : Fin 5, 0 < i → i - 1 < i := by decide

theorem lt_succ : ∀ i : Fin 5, i < 4 → i < i + 1 := by decide

theorem le_pred_of_lt : ∀ i a : Fin 5, 0 < i → a < i → a ≤ i - 1 := by decide

theorem succ_le_of_lt : ∀ i b : Fin 5, i < 4 → i < b → i + 1 ≤ b := by decide

variable {q : P2Quantile} {n heights : Fin 5 → ℚ} {i : Fin 5}

theorem rel_update {R : ℚ → ℚ → Prop} {f : Fin 5 → ℚ} {v : ℚ} (h : ∀ ⦃a b⦄, a < b → R (f a) (f b))
    (below : ∀ a < i, R (f a) v) (above : ∀ b, i < b → R v (f b)) :
    ∀ ⦃a b⦄, a < b → R (update f i v a) (update f i v b) := by
  intro a b hab
  by_cases ha : a = i
  · subst ha
    rw [update_self, update_of_ne hab.ne']
    exact above b hab
  rw [update_of_ne ha]
  by_cases hb : b = i
  · subst hb
    rw [update_self]
    exact below a hab
  · rw [update_of_ne hb]
    exact h hab

theorem monotone_update {f : Fin 5 → ℚ} {v : ℚ} (h : Monotone f) (below : ∀ a < i, f a ≤ v)
    (above : ∀ b, i < b → v ≤ f b) : Monotone (update f i v) :=
  monotone_iff_forall_lt.2 (rel_update (monotone_iff_forall_lt.1 h) below above)

theorem interpolate_mem {a b m lo hi : ℚ} (ha : lo ≤ a ∧ a ≤ hi) (hb : lo ≤ b ∧ b ≤ hi) (hm : 1 < m) :
    lo ≤ a + (b - a) / m ∧ a + (b - a) / m ≤ hi := by
  have pos : 0 < m := one_pos.trans hm
  have combined : a + (b - a) / m = ((m - 1) * a + b) / m := by
    field_simp
    ring
  rw [combined, le_div_iff₀ pos, div_le_iff₀ pos]
  constructor <;> nlinarith

theorem div?_of_ne {a b : ℚ} (h : b ≠ 0) : div? a b = some (a / b) := if_neg h

def Room (n : Fin 5 → ℚ) (i : Fin 5) (d : ℤ) : Prop := d = 1 ∧ 1 < n (i + 1) - n i ∨ d = -1 ∧ n (i - 1) - n i < -1

theorem Room.position (room : Room n i d) (below : n (i - 1) < n i) (above : n i < n (i + 1)) :
    n (i - 1) < n i + d ∧ n i + d < n (i + 1) := by
  rcases room with ⟨rfl, room⟩ | ⟨rfl, room⟩ <;> push_cast <;> constructor <;> linarith

theorem towards (i : Fin 5) (hi : 0 < i) (hi' : i < 4) :
    Fin.ofNat 5 ((i : ℤ) + 1).toNat = i + 1 ∧ Fin.ofNat 5 ((i : ℤ) + -1).toNat = i - 1 := by
  revert i
  decide

theorem Room.linear {d : ℤ} (room : Room n i d) (hi : 0 < i) (hi' : i < 4) (order : Monotone heights) :
    let j := Fin.ofNat 5 ((i : ℤ) + d).toNat
    n j - n i ≠ 0 ∧ heights (i - 1) ≤ heights i + d * (heights j - heights i) / (n j - n i) ∧
      heights i + d * (heights j - heights i) / (n j - n i) ≤ heights (i + 1) := by
  have below : heights (i - 1) ≤ heights i := order (pred_lt i hi).le
  have above : heights i ≤ heights (i + 1) := order (lt_succ i hi').le
  obtain ⟨up, down⟩ := towards i hi hi'
  rcases room with ⟨rfl, room⟩ | ⟨rfl, room⟩
  · simp only [up, Int.cast_one, one_mul]
    exact ⟨by linarith, interpolate_mem ⟨below, above⟩ ⟨below.trans above, le_rfl⟩ room⟩
  · simp only [down, Int.cast_neg, Int.cast_one, neg_one_mul]
    rw [← div_neg_eq_neg_div']
    exact ⟨by linarith, interpolate_mem ⟨below, above⟩ ⟨le_rfl, below.trans above⟩ (by linarith)⟩

theorem move_spec {d : ℤ} (o : Ordered q.n q.heights) (hi : 0 < i) (hi' : i < 4) (room : Room q.n i d) :
    ∃ v h, q.move i d = some { q with heights := update q.heights i h, n := update q.n i v } ∧
      Ordered (update q.n i v) (update q.heights i h) := by
  have below : q.n (i - 1) < q.n i := o.positions (pred_lt i hi)
  have above : q.n i < q.n (i + 1) := o.positions (lt_succ i hi')
  obtain ⟨apart, linearBelow, linearAbove⟩ := room.linear hi hi' o.heights
  obtain ⟨after, before⟩ := room.position below above
  have integral : ∀ a, ∃ k : ℤ, update q.n i (q.n i + d) a = k := by
    intro a
    obtain ⟨k, hk⟩ := o.integral a
    by_cases ha : a = i
    · subst ha
      exact ⟨k + d, by rw [update_self, hk, Int.cast_add]⟩
    · exact ⟨k, by rw [update_of_ne ha, hk]⟩
  have ordered : ∀ h, q.heights (i - 1) ≤ h → h ≤ q.heights (i + 1) →
      Ordered (update q.n i (q.n i + d)) (update q.heights i h) := fun h low high =>
    ⟨rel_update o.positions (fun a ha => (o.positions.monotone (le_pred_of_lt i a hi ha)).trans_lt after)
        fun b hb => before.trans_le (o.positions.monotone (succ_le_of_lt i b hi' hb)),
      integral,
      monotone_update o.heights (fun a ha => (o.heights (le_pred_of_lt i a hi ha)).trans low)
        fun b hb => high.trans (o.heights (succ_le_of_lt i b hi' hb))⟩
  unfold move
  rw [div?_of_ne (sub_ne_zero.2 (below.trans above).ne'), div?_of_ne (sub_ne_zero.2 above.ne'),
    div?_of_ne (sub_ne_zero.2 below.ne')]
  simp only [Option.bind_eq_bind, Option.bind_some, div?_of_ne apart, Option.map_some]
  split_ifs with between
  · exact ⟨_, _, rfl, ordered _ between.1.le between.2.le⟩
  · exact ⟨_, _, rfl, ordered _ linearBelow linearAbove⟩

theorem maybeAdjust_spec (o : Ordered q.n q.heights) (hi : 0 < i) (hi' : i < 4) :
    ∃ n h, q.maybeAdjust i = some { q with heights := h, n := n } ∧ Ordered n h ∧
      (n 0 = q.n 0 ∧ n 4 = q.n 4) ∧ h 0 = q.heights 0 ∧ h 4 = q.heights 4 := by
  have ends : ∀ (f : Fin 5 → ℚ) (v : ℚ), update f i v 0 = f 0 ∧ update f i v 4 = f 4 :=
    fun f v => ⟨update_of_ne hi.ne v f, update_of_ne hi'.ne' v f⟩
  have moved : ∀ d, Room q.n i d → ∃ n h, q.move i d = some { q with heights := h, n := n } ∧ Ordered n h ∧
      (n 0 = q.n 0 ∧ n 4 = q.n 4) ∧ h 0 = q.heights 0 ∧ h 4 = q.heights 4 := by
    intro d room
    obtain ⟨v, h, eq, ordered⟩ := move_spec o hi hi' room
    exact ⟨_, _, eq, ordered, ends _ _, ends _ _⟩
  unfold maybeAdjust
  dsimp only
  split_ifs with up down
  · exact moved 1 (.inl ⟨rfl, up.2⟩)
  · exact moved (-1) (.inr ⟨rfl, down.2⟩)
  · exact ⟨q.n, q.heights, rfl, o, ⟨rfl, rfl⟩, rfl, rfl⟩

/-! ## One sample -/

/-- The markers after `xs`. -/
structure Markers (q : P2Quantile) (xs : List ℚ) : Prop extends Ordered q.n q.heights where
  full : q.initBuf.length = 5
  count : q.count = xs.length
  first : q.n 0 = 1
  last : q.n 4 = q.count
  least : xs.minimum = q.heights 0
  greatest : xs.maximum = q.heights 4

theorem cell_spec (order : Monotone q.heights) (x : ℚ) : ∃ h k, q.cell x = ({ q with heights := h }, k) ∧
    Monotone h ∧ h 0 = min (q.heights 0) x ∧ h 4 = max (q.heights 4) x := by
  have range : q.heights 0 ≤ q.heights 4 := order (by decide)
  unfold cell
  split_ifs with low high
  · exact ⟨_, _, rfl, monotone_update order (fun a ha => absurd ha (Fin.not_lt_zero a))
      fun b _ => low.le.trans (order (Fin.zero_le b)), (min_eq_right low.le).symm,
      (max_eq_left (low.le.trans range)).symm⟩
  · exact ⟨_, _, rfl, monotone_update order (fun a _ => (order (Fin.le_last a)).trans high)
      fun b hb => absurd hb (Fin.le_last b).not_gt, (min_eq_left (not_lt.1 low)).symm, (max_eq_right high).symm⟩
  · exact ⟨_, _, rfl, order, (min_eq_left (not_lt.1 low)).symm, (max_eq_left (not_le.1 high).le).symm⟩

theorem shift_ordered (o : Ordered q.n q.heights) (k : Fin 4) : Ordered (q.shift k).n (q.shift k).heights := by
  refine ⟨fun a b hab => ?_, fun i => ?_, o.heights⟩
  · have before : q.n a < q.n b := o.positions hab
    unfold shift
    dsimp only
    split_ifs with ha hb hb
    · linarith
    · exact absurd (ha.trans hab) hb
    · linarith
    · exact before
  · obtain ⟨m, hm⟩ := o.integral i
    unfold shift
    dsimp only
    split_ifs
    · exact ⟨m + 1, by rw [hm]; push_cast; rfl⟩
    · exact ⟨m, hm⟩

theorem shift_ends (q : P2Quantile) (k : Fin 4) : (q.shift k).n 0 = q.n 0 ∧ (q.shift k).n 4 = q.n 4 + 1 := by
  have last : k.castSucc < 4 := Fin.castSucc_lt_last k
  unfold shift
  dsimp only
  rw [if_neg (Fin.not_lt_zero k.castSucc), if_pos last]
  exact ⟨rfl, rfl⟩

theorem adjust_spec (o : Ordered q.n q.heights) : ∃ n h, (do
        let q ← q.maybeAdjust 1
        let q ← q.maybeAdjust 2
        q.maybeAdjust 3) = some { q with heights := h, n := n } ∧ Ordered n h ∧
      (n 0 = q.n 0 ∧ n 4 = q.n 4) ∧ h 0 = q.heights 0 ∧ h 4 = q.heights 4 := by
  obtain ⟨n₁, h₁, eq₁, o₁, ⟨first₁, last₁⟩, least₁, greatest₁⟩ := maybeAdjust_spec (i := 1) o (by decide) (by decide)
  obtain ⟨n₂, h₂, eq₂, o₂, ⟨first₂, last₂⟩, least₂, greatest₂⟩ :=
    maybeAdjust_spec (q := { q with heights := h₁, n := n₁ }) (i := 2) o₁ (by decide) (by decide)
  obtain ⟨n₃, h₃, eq₃, o₃, ⟨first₃, last₃⟩, least₃, greatest₃⟩ :=
    maybeAdjust_spec (q := { q with heights := h₂, n := n₂ }) (i := 3) o₂ (by decide) (by decide)
  refine ⟨n₃, h₃, ?_, o₃, ⟨?_, ?_⟩, ?_, ?_⟩
  · simp only [eq₁, Option.bind_eq_bind, Option.bind_some, eq₂, eq₃]
  · exact first₃.trans (first₂.trans first₁)
  · exact last₃.trans (last₂.trans last₁)
  · exact least₃.trans (least₂.trans least₁)
  · exact greatest₃.trans (greatest₂.trans greatest₁)

theorem Markers.observe {xs : List ℚ} (m : Markers q xs) (x : ℚ) :
    ∃ q', q.observe x = some q' ∧ Markers q' (xs ++ [x]) := by
  have long : ¬q.initBuf.length < 5 := by rw [m.full]; omega
  obtain ⟨h₀, k, cell, order, least, greatest⟩ := cell_spec (q := { q with count := q.count + 1 }) m.heights x
  have shifted := shift_ordered (q := { q with count := q.count + 1, heights := h₀ })
    ⟨m.positions, m.integral, order⟩ k
  obtain ⟨n, h, adjusted, o, ⟨first, last⟩, least', greatest'⟩ := adjust_spec shifted
  obtain ⟨first₀, last₀⟩ := shift_ends { q with count := q.count + 1, heights := h₀ } k
  have total : q.count + 1 = (xs ++ [x]).length := by rw [m.count, List.length_append, List.length_singleton]
  refine ⟨{ q with count := q.count + 1, npos := fun i => q.npos i + q.dn i, heights := h, n := n }, ?_, o, m.full,
    total, first.trans (first₀.trans m.first), ?_, ?_, ?_⟩
  · unfold P2Quantile.observe
    dsimp only
    rw [if_neg long, cell]
    exact adjusted
  · dsimp only
    rw [last, last₀, m.last]
    push_cast
    rfl
  · rw [List.minimum_concat, m.least, ← WithTop.coe_min]
    exact congrArg _ (least'.trans least).symm
  · rw [List.maximum_concat, m.greatest, ← WithBot.coe_max]
    exact congrArg _ (greatest'.trans greatest).symm

/-- Fewer than five samples so far. -/
structure Filling (p : ℚ) (q : P2Quantile) (xs : List ℚ) : Prop where
  quantile : q.p = p
  buffered : q.initBuf = xs
  count : q.count = xs.length
  short : xs.length < 5

theorem seed_markers {xs : List ℚ} (buffered : q.initBuf = xs) (count : q.count = xs.length) (five : xs.length = 5) :
    Markers q.seed xs := by
  have length : (xs.insertionSort (· ≤ ·)).length = 5 := by rw [List.length_insertionSort, five]
  have height : ∀ i : Fin 5, q.seed.heights i = (xs.insertionSort (· ≤ ·)).get (i.cast length.symm) := by
    intro i
    unfold seed
    dsimp only
    rw [buffered, List.getD_eq_getElem _ _ (by omega)]
    rfl
  have order : Monotone q.seed.heights := by
    intro a b hab
    rw [height, height]
    exact (List.pairwise_insertionSort (· ≤ ·) xs).rel_get_of_le hab
  have sample : ∀ x, x ∈ xs ↔ ∃ i, q.seed.heights i = x := by
    intro x
    rw [← List.mem_insertionSort (· ≤ ·), List.mem_iff_get]
    exact ⟨fun ⟨i, hi⟩ => ⟨i.cast length, (height _).trans hi⟩, fun ⟨i, hi⟩ => ⟨_, (height i).symm.trans hi⟩⟩
  refine ⟨⟨fun a b hab => ?_, fun i => ⟨i + 1, ?_⟩, order⟩, ?_, count, ?_, ?_, ?_, ?_⟩
  · exact add_lt_add_left (Nat.cast_lt.2 hab) 1
  · unfold seed
    push_cast
    rfl
  · unfold seed
    dsimp only
    rw [buffered, length]
  · unfold seed
    norm_num
  · unfold seed
    dsimp only
    rw [count, five]
    norm_num
  · rw [List.minimum_eq_coe_iff]
    exact ⟨(sample _).2 ⟨0, rfl⟩, fun x hx => by
      obtain ⟨i, rfl⟩ := (sample x).1 hx
      exact order (Fin.zero_le i)⟩
  · rw [List.maximum_eq_coe_iff]
    exact ⟨(sample _).2 ⟨4, rfl⟩, fun x hx => by
      obtain ⟨i, rfl⟩ := (sample x).1 hx
      exact order (Fin.le_last i)⟩

theorem Filling.observe {p : ℚ} {xs : List ℚ} (f : Filling p q xs) (x : ℚ) :
    ∃ q', q.observe x = some q' ∧ (Filling p q' (xs ++ [x]) ∨ Markers q' (xs ++ [x])) := by
  have short : q.initBuf.length < 5 := by rw [f.buffered]; exact f.short
  have buffered : q.initBuf ++ [x] = xs ++ [x] := by rw [f.buffered]
  have count : q.count + 1 = (xs ++ [x]).length := by rw [f.count, List.length_append, List.length_singleton]
  unfold P2Quantile.observe
  dsimp only
  rw [if_pos short]
  split_ifs with five
  · refine ⟨_, rfl, .inr (seed_markers buffered count ?_)⟩
    rw [← buffered]
    exact five
  · refine ⟨_, rfl, .inl ⟨f.quantile, buffered, count, ?_⟩⟩
    have := f.short
    rw [buffered] at five
    rw [List.length_append, List.length_singleton] at five ⊢
    omega

/-! ## Any sequence of samples -/

theorem observeAll_spec (p : ℚ) (xs : List ℚ) :
    ∃ q, (newP2Quantile p).observeAll xs = some q ∧ (Filling p q xs ∨ Markers q xs) := by
  induction xs using List.reverseRecOn with
  | nil => exact ⟨_, rfl, .inl ⟨rfl, rfl, rfl, by decide⟩⟩
  | append_singleton xs x ih =>
    obtain ⟨q, run, inv⟩ := ih
    have next : ∃ q', q.observe x = some q' ∧ (Filling p q' (xs ++ [x]) ∨ Markers q' (xs ++ [x])) := by
      rcases inv with f | m
      · exact f.observe x
      · obtain ⟨q', eq, m'⟩ := m.observe x
        exact ⟨q', eq, .inr m'⟩
    obtain ⟨q', eq, inv'⟩ := next
    refine ⟨q', ?_, inv'⟩
    unfold observeAll at run ⊢
    rw [List.foldlM_append, run]
    simpa using eq

theorem Filling.value {p : ℚ} {xs : List ℚ} (f : Filling p q xs) (hp : 0 ≤ p ∧ p ≤ 1) (nonempty : xs ≠ []) :
    ∃ v ∈ xs, q.value = some v := by
  have pos : 0 < xs.length := List.length_pos_iff.2 nonempty
  have bound : (0 : ℚ) ≤ ((xs.length : ℤ) - 1 : ℤ) := by
    exact_mod_cast (by omega : 0 ≤ (xs.length : ℤ) - 1)
  have low : 0 ≤ p * ((xs.length : ℤ) - 1 : ℤ) := mul_nonneg hp.1 bound
  have high : ⌊p * ((xs.length : ℤ) - 1 : ℤ)⌋ ≤ (xs.length : ℤ) - 1 := by
    apply Int.floor_le_iff.2
    have := mul_le_of_le_one_left bound hp.2
    linarith
  have floor : 0 ≤ ⌊p * ((xs.length : ℤ) - 1 : ℤ)⌋ := Int.floor_nonneg.2 low
  have inside : ⌊p * ((xs.length : ℤ) - 1 : ℤ)⌋.toNat < (xs.insertionSort (· ≤ ·)).length := by
    rw [List.length_insertionSort]
    omega
  refine ⟨_, (List.mem_insertionSort (· ≤ ·)).1 (List.getElem_mem inside), ?_⟩
  unfold P2Quantile.value trunc
  rw [if_neg (by rw [f.count]; omega), f.buffered, if_pos f.short, f.quantile]
  dsimp only
  rw [List.length_insertionSort, if_pos low, if_neg (not_lt.2 floor), List.getElem?_eq_getElem inside]

theorem Markers.value {xs : List ℚ} (m : Markers q xs) : ∃ v, q.value = some v ∧ xs.minimum ≤ v ∧ v ≤ xs.maximum := by
  have nonempty : q.count ≠ 0 := by
    have less : q.n 0 < q.n 4 := m.positions (by decide)
    rw [m.first, m.last] at less
    intro h
    rw [h] at less
    norm_num at less
  refine ⟨q.heights 2, ?_, ?_, ?_⟩
  · unfold P2Quantile.value
    rw [if_neg nonempty, if_neg (by rw [m.full]; decide)]
  · rw [m.least]
    exact WithTop.coe_le_coe.2 (m.heights (by decide))
  · rw [m.greatest]
    exact WithBot.coe_le_coe.2 (m.heights (by decide))

/-- For every `p` between 0 and 1 and all samples, nothing is divided by zero and no index is out of range.  From the
fifth sample on the markers are in order, the outer ones at the first and last position, with the smallest and greatest
sample; from the first on the estimate is between these. -/
theorem observeAll_wellFormed {p : ℚ} (hp : 0 ≤ p ∧ p ≤ 1) (xs : List ℚ) :
    ∃ q, (newP2Quantile p).observeAll xs = some q ∧ q.count = xs.length ∧
      (5 ≤ xs.length → StrictMono q.n ∧ (∀ i, ∃ k : ℤ, q.n i = k) ∧ q.n 0 = 1 ∧ q.n 4 = q.count ∧
        Monotone q.heights ∧ xs.minimum = q.heights 0 ∧ xs.maximum = q.heights 4) ∧
      (xs ≠ [] → ∃ v, q.value = some v ∧ xs.minimum ≤ v ∧ v ≤ xs.maximum) := by
  obtain ⟨q, run, f | m⟩ := observeAll_spec p xs
  · refine ⟨q, run, f.count, fun five => absurd f.short (not_lt.2 five), fun nonempty => ?_⟩
    obtain ⟨v, mem, eq⟩ := f.value hp nonempty
    exact ⟨v, eq, List.minimum_le_of_mem' mem, List.le_maximum_of_mem' mem⟩
  · exact ⟨q, run, m.count, fun _ => ⟨m.positions, m.integral, m.first, m.last, m.heights, m.least, m.greatest⟩,
      fun _ => m.value⟩

theorem observeAll_wellFormed_seven : ∃ q, (newP2Quantile (1 / 2)).observeAll [3, 3, 1, 2, 9, 9, 0] = some q ∧
    q.n 4 = 7 ∧ q.heights 0 = 0 ∧ q.heights 4 = 9 ∧ ∃ v, q.value = some v ∧ 0 ≤ v ∧ v ≤ 9 := by
  obtain ⟨q, run, count, markers, between⟩ := observeAll_wellFormed (p := 1 / 2) (by norm_num) [3, 3, 1, 2, 9, 9, 0]
  obtain ⟨-, -, -, last, -, least, greatest⟩ := markers (by decide)
  obtain ⟨v, eq, low, high⟩ := between (by decide)
  have minimum : ([3, 3, 1, 2, 9, 9, 0] : List ℚ).minimum = (0 : ℚ) := by decide
  have maximum : ([3, 3, 1, 2, 9, 9, 0] : List ℚ).maximum = (9 : ℚ) := by decide
  rw [minimum] at least low
  rw [maximum] at greatest high
  refine ⟨q, run, ?_, (WithTop.coe_injective least).symm, (WithBot.coe_injective greatest).symm, v, eq,
    WithTop.coe_le_coe.1 low, WithBot.coe_le_coe.1 high⟩
  rw [last, count]
  norm_num

end P2Quantile

end Egressa.Measurement
