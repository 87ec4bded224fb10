import Egressa.Conc.Machine
import Egressa.Controller.Effects

/-!
# Addresses

A gateway gets its node IP, and a session its virtual IP, from `allocate`: the lowest address of the subnet that no
stored record has.  Nothing remembers an allocation but the records themselves, which every request lists anew.  A
`Registry` is one controller over a store whose writes may fail without effect.
-/

namespace Egressa

open Conc
open Function (update update_of_ne update_self)

/-! ## Prefixes -/

def newNetwork (client node : NetPrefix) (probePort : UInt16) : Except String Network :=
  if !client.isValid || !node.isValid || probePort == 0 then
    .error "controller: Network needs a client subnet, a node subnet and a probe port"
  else if !client.is4 || !node.is4 || client.overlaps node then
    .error "controller: the client and node subnets must be disjoint IPv4 prefixes"
  else .ok ⟨client.masked, node.masked, probePort⟩

namespace Prefix

/-- The address of the subnet has no bits beyond its length. -/
structure Masked (p : Prefix) : Prop where
  bits : p.bits ≤ 32
  addr : p.addr.toNat % 2 ^ (32 - p.bits) = 0

def last (p : Prefix) : BitVec 32 := p.addr + BitVec.ofNat 32 (2 ^ (32 - p.bits) - 1)

/-- An address a host can have: one of the prefix, but not its first, second or last. -/
structure Usable (p : Prefix) (a : Addr) : Prop where
  contains : p.contains a = true
  first : a ≠ .v4 p.addr
  second : a ≠ (Addr.v4 p.addr).next
  last : a ≠ .v4 p.last

theorem contains_v4 (p : Prefix) (a : BitVec 32) :
    p.contains (.v4 a) = true ↔ a.toNat / 2 ^ (32 - p.bits) = p.addr.toNat / 2 ^ (32 - p.bits) := by
  rw [contains, beq_iff_eq, ← BitVec.toNat_inj, BitVec.toNat_ushiftRight, BitVec.toNat_ushiftRight,
    Nat.shiftRight_eq_div_pow, Nat.shiftRight_eq_div_pow]

theorem toNat_last {p : Prefix} (h : p.Masked) : p.last.toNat = p.addr.toNat + (2 ^ (32 - p.bits) - 1) := by
  have size : 2 ^ (32 - p.bits) * 2 ^ p.bits = 2 ^ 32 := by
    rw [← pow_add, Nat.sub_add_cancel h.bits]
  have pos := Nat.two_pow_pos (32 - p.bits)
  have bound := p.addr.isLt
  obtain ⟨q, hq⟩ := Nat.dvd_of_mod_eq_zero h.addr
  -- the block that starts at `addr` ends before the addresses do
  have block : 2 ^ (32 - p.bits) * q + 2 ^ (32 - p.bits) ≤ 2 ^ 32 := by
    rw [hq, ← size] at bound
    have hlt : q < 2 ^ p.bits := lt_of_mul_lt_mul_left bound (Nat.zero_le _)
    calc 2 ^ (32 - p.bits) * q + 2 ^ (32 - p.bits) = 2 ^ (32 - p.bits) * (q + 1) := by ring
      _ ≤ 2 ^ (32 - p.bits) * 2 ^ p.bits := Nat.mul_le_mul_left _ hlt
      _ = 2 ^ 32 := size
  rw [last, BitVec.toNat_add, BitVec.toNat_ofNat]
  omega

end Prefix

/-! ## Allocation -/

variable {a : Addr}

def Addr.nth (n : ℕ) : Addr := if n < 2 ^ 32 then .v4 (BitVec.ofNat 32 n) else .zero

theorem Addr.nth_toNat (x : BitVec 32) : nth x.toNat = .v4 x := by
  rw [nth, if_pos x.isLt, BitVec.ofNat_toNat, BitVec.setWidth_eq]

theorem Addr.next_nth (n : ℕ) : (nth n).next = nth (n + 1) := by
  unfold nth
  by_cases h : n < 2 ^ 32
  · have last : BitVec.ofNat 32 n = BitVec.allOnes 32 ↔ ¬ n + 1 < 2 ^ 32 := by
      rw [← BitVec.toNat_inj, BitVec.toNat_ofNat, BitVec.toNat_allOnes, Nat.mod_eq_of_lt h]
      omega
    rw [if_pos h, next]
    by_cases h' : n + 1 < 2 ^ 32
    · rw [if_pos h', if_neg fun eq => last.1 eq h', BitVec.ofNat_add]
      rfl
    · rw [if_neg h', if_pos (last.2 h')]
  · rw [if_neg h, if_neg (by omega)]
    rfl

theorem Addr.iterate_next_nth (k n : ℕ) : next^[k] (nth n) = nth (n + k) := by
  induction k with
  | zero => rfl
  | succ k ih => rw [Function.iterate_succ_apply', ih, next_nth, Nat.add_assoc]

namespace Prefix

variable {p : Prefix} {used : List Addr}

theorem contains_nth (hp : p.Masked) (k : ℕ) :
    p.contains (Addr.nth (p.addr.toNat + k)) = true ↔ k < 2 ^ (32 - p.bits) := by
  have pos := Nat.two_pow_pos (32 - p.bits)
  have end_ := toNat_last hp
  have bound := p.last.isLt
  unfold Addr.nth
  split_ifs with h
  · obtain ⟨q, hq⟩ := Nat.dvd_of_mod_eq_zero hp.addr
    rw [contains_v4, BitVec.toNat_ofNat, Nat.mod_eq_of_lt h, hq, Nat.mul_add_div pos, Nat.mul_div_cancel_left q pos,
      Nat.add_eq_left, Nat.div_eq_zero_iff]
    omega
  · refine iff_of_false (by simp [contains]) ?_
    omega

/-- An address that `allocate` may take. -/
def Free (p : Prefix) (used : List Addr) (x : BitVec 32) : Prop :=
  p.addr.toNat + 2 ≤ x.toNat ∧ x.toNat + 1 ≤ p.last.toNat ∧ .v4 x ∉ used

def Open (p : Prefix) (used : List Addr) (k : ℕ) : Prop :=
  k + 1 < 2 ^ (32 - p.bits) ∧ Addr.nth (p.addr.toNat + k) ∉ used

theorem free_iff (hp : p.Masked) (x : BitVec 32) :
    p.Free used x ↔ ∃ k, 2 ≤ k ∧ x.toNat = p.addr.toNat + k ∧ p.Open used k := by
  have pos := Nat.two_pow_pos (32 - p.bits)
  rw [Free, toNat_last hp]
  constructor
  · rintro ⟨above, below, unused⟩
    refine ⟨x.toNat - p.addr.toNat, by omega, by omega, by omega, ?_⟩
    rwa [Nat.add_sub_cancel' (by omega), Addr.nth_toNat]
  · rintro ⟨k, two, hx, inside, unused⟩
    rw [← hx, Addr.nth_toNat] at unused
    exact ⟨by omega, by omega, unused⟩

end Prefix

variable {p : Prefix} {used : List Addr}

theorem allocateFrom_cases (hp : p.Masked) (used : List Addr) {n k : ℕ} (enough : 2 ^ (32 - p.bits) ≤ n + k) :
    (∃ j, k ≤ j ∧ allocateFrom p used n (.nth (p.addr.toNat + k)) = some (.nth (p.addr.toNat + j)) ∧
      p.Open used j ∧ ∀ i, k ≤ i → p.Open used i → j ≤ i) ∨
    allocateFrom p used n (.nth (p.addr.toNat + k)) = none ∧ ∀ i, k ≤ i → ¬ p.Open used i := by
  induction n generalizing k with
  | zero => exact Or.inr ⟨rfl, fun i hi free => by have := free.1; omega⟩
  | succ n ih =>
    have next := Prefix.contains_nth hp (k + 1)
    rw [allocateFrom, Addr.next_nth, Nat.add_assoc]
    by_cases inside : k < 2 ^ (32 - p.bits)
    · rw [if_pos ((Prefix.contains_nth hp k).2 inside)]
      by_cases free : p.Open used k
      · rw [if_pos ⟨free.2, next.2 free.1⟩]
        exact Or.inl ⟨k, le_rfl, rfl, free, fun i hi _ => hi⟩
      · rw [if_neg fun h => free ⟨next.1 h.2, h.1⟩]
        have later : ∀ i, k ≤ i → p.Open used i → k + 1 ≤ i := by
          intro i hi hopen
          refine Nat.lt_of_le_of_ne hi ?_
          rintro rfl
          exact free hopen
        rcases ih (k := k + 1) (by omega) with ⟨j, hj, found, hopen, least⟩ | ⟨full, none⟩
        · exact Or.inl ⟨j, by omega, found, hopen, fun i hi h => least i (later i hi h) h⟩
        · exact Or.inr ⟨full, fun i hi h => none i (later i hi h) h⟩
    · rw [if_neg fun h => inside ((Prefix.contains_nth hp k).1 h)]
      exact Or.inr ⟨rfl, fun i hi free => by have := free.1; omega⟩

theorem allocate_cases (hp : p.Masked) (used : List Addr) :
    (∃ x, allocate p used = .ok (.v4 x) ∧ p.Free used x ∧ ∀ y, p.Free used y → x.toNat ≤ y.toNat) ∨
    (∃ e, allocate p used = .error e) ∧ ∀ x, ¬ p.Free used x := by
  have start : (Addr.v4 p.addr).next.next = .nth (p.addr.toNat + 2) := by
    rw [← Addr.nth_toNat, Addr.next_nth, Addr.next_nth]
  have size : 2 ^ (32 - p.bits) ≤ 2 ^ 32 := Nat.pow_le_pow_right (by omega) (Nat.sub_le _ _)
  have bound := p.last.isLt
  rw [Prefix.toNat_last hp] at bound
  unfold allocate
  rw [start]
  rcases allocateFrom_cases hp used (n := 2 ^ 32) (k := 2) (by omega) with
    ⟨j, two, found, hopen, least⟩ | ⟨full, none⟩
  · have hx : (BitVec.ofNat 32 (p.addr.toNat + j)).toNat = p.addr.toNat + j := by
      rw [BitVec.toNat_ofNat]
      have := hopen.1
      exact Nat.mod_eq_of_lt (by omega)
    refine Or.inl ⟨.ofNat 32 (p.addr.toNat + j), ?_, (Prefix.free_iff hp _).2 ⟨j, two, hx, hopen⟩, fun y hy => ?_⟩
    · rw [found, ← Addr.nth_toNat, hx]
    · obtain ⟨i, hi, hy, hopen'⟩ := (Prefix.free_iff hp y).1 hy
      have := least i hi hopen'
      omega
  · rw [full]
    refine Or.inr ⟨⟨_, rfl⟩, fun x hx => ?_⟩
    obtain ⟨i, hi, -, hopen⟩ := (Prefix.free_iff hp x).1 hx
    exact none i hi hopen

/-- `allocate` gives the lowest free address, from the third on and before the last, and fails only if there is none;
its loop leaves the prefix before it has come through all addresses. -/
theorem allocate_exact (hp : p.Masked) (used : List Addr) :
    (∃ k < 2 ^ 32, p.contains (Addr.next^[k] (Addr.v4 p.addr).next.next) = false) ∧
    (∀ a, allocate p used = .ok a ↔ ∃ x, a = .v4 x ∧ p.Free used x ∧ ∀ y, p.Free used y → x.toNat ≤ y.toNat) ∧
    ((∃ e, allocate p used = .error e) ↔ ∀ x, ¬ p.Free used x) := by
  refine ⟨⟨2 ^ (32 - p.bits) - 1, ?_, ?_⟩, fun a => ?_, ?_⟩
  · have : 2 ^ (32 - p.bits) ≤ 2 ^ 32 := Nat.pow_le_pow_right (by omega) (Nat.sub_le _ _)
    omega
  · rw [← Addr.nth_toNat, Addr.next_nth, Addr.next_nth, Addr.iterate_next_nth, Nat.add_assoc, Nat.add_assoc,
      ← Bool.not_eq_true, Prefix.contains_nth hp]
    omega
  · rcases allocate_cases hp used with ⟨x, hx, free, least⟩ | ⟨⟨e, he⟩, none⟩
    · rw [hx]
      constructor
      · intro h
        exact ⟨x, (Except.ok.inj h).symm, free, least⟩
      · rintro ⟨y, rfl, free', least'⟩
        rw [BitVec.eq_of_toNat_eq (le_antisymm (least y free') (least' x free))]
    · rw [he]
      exact iff_of_false (by simp) fun ⟨x, _, free, _⟩ => none x free
  · rcases allocate_cases hp used with ⟨x, hx, free, -⟩ | ⟨he, none⟩
    · rw [hx]
      exact iff_of_false (by simp) fun none => none x free
    · exact iff_of_true he none

theorem allocate_exact_full :
    let p : Prefix := ⟨0x0a000000, 30⟩
    p.Masked ∧ ∃ e, allocate p [.v4 0x0a000002, .v4 0x0a000007] = .error e := by
  have masked : (⟨0x0a000000, 30⟩ : Prefix).Masked := ⟨by decide, by decide⟩
  refine ⟨masked, (allocate_exact masked _).2.2.2 fun x free => ?_⟩
  obtain ⟨above, below, unused⟩ := free
  have hx : x = 0x0a000002 := by
    refine BitVec.eq_of_toNat_eq (le_antisymm ?_ above)
    exact Nat.le_of_succ_le_succ below
  simp [hx] at unused

theorem allocate_eq_ok (hp : p.Masked) (h : allocate p used = .ok a) : p.Usable a ∧ a ∉ used := by
  rcases allocate_cases hp used with ⟨x, hx, free, -⟩ | ⟨⟨e, he⟩, -⟩
  · cases hx.symm.trans h
    obtain ⟨above, below, unused⟩ := free
    have outside : ∀ y : BitVec 32, y.toNat < p.addr.toNat + 2 ∨ p.last.toNat ≤ y.toNat → x ≠ y := by
      rintro y hy rfl
      omega
    refine ⟨⟨?_, ?_, ?_, ?_⟩, unused⟩
    · rw [← Addr.nth_toNat, ← Nat.add_sub_cancel' (show p.addr.toNat ≤ x.toNat by omega), Prefix.contains_nth hp]
      rw [Prefix.toNat_last hp] at below
      omega
    · exact fun heq => outside p.addr (by omega) (Addr.v4.inj heq)
    · intro heq
      rw [← Addr.nth_toNat p.addr, Addr.next_nth, Addr.nth] at heq
      split_ifs at heq with h
      have := congrArg BitVec.toNat (Addr.v4.inj heq)
      rw [BitVec.toNat_ofNat, Nat.mod_eq_of_lt h] at this
      omega
    · exact fun heq => outside p.last (by omega) (Addr.v4.inj heq)
  · rw [he] at h
    cases h

/-! ## The configured network -/

theorem NetPrefix.masked_v4 (a : BitVec 32) (n : Fin 33) : (v4 a n).masked.Masked ∧
      (v4 a n).masked.addr.toNat / 2 ^ (32 - n.1) = a.toNat / 2 ^ (32 - n.1) := by
  have pos := Nat.two_pow_pos (32 - n.1)
  have addr : (v4 a n).masked.addr.toNat = a.toNat / 2 ^ (32 - n.1) * 2 ^ (32 - n.1) := by
    rw [masked, BitVec.toNat_shiftLeft, BitVec.toNat_ushiftRight, Nat.shiftRight_eq_div_pow, Nat.shiftLeft_eq]
    exact Nat.mod_eq_of_lt (lt_of_le_of_lt (Nat.div_mul_le_self _ _) a.isLt)
  refine ⟨⟨Nat.le_of_lt_succ n.2, ?_⟩, ?_⟩
  · rw [addr, masked]
    exact Nat.mul_mod_left _ _
  · rw [addr, Nat.mul_div_cancel _ pos]

theorem div_two_pow_of_le {x y i j : ℕ} (h : x / 2 ^ i = y / 2 ^ i) (hij : i ≤ j) : x / 2 ^ j = y / 2 ^ j := by
  obtain ⟨k, rfl⟩ := Nat.exists_eq_add_of_le hij
  rw [pow_add, ← Nat.div_div_eq_div_mul, ← Nat.div_div_eq_div_mul, h]

theorem newNetwork_eq_ok {client node : NetPrefix} {probePort : UInt16} {net : Network}
    (h : newNetwork client node probePort = .ok net) :
    net.clientSubnet.Masked ∧ net.nodeSubnet.Masked ∧
      ∀ a, net.clientSubnet.contains a = true → net.nodeSubnet.contains a = false := by
  unfold newNetwork at h
  split_ifs at h with hvalid hdisjoint
  cases h
  simp only [Bool.or_eq_true, not_or, Bool.not_eq_true] at hdisjoint
  obtain ⟨⟨hc, hn⟩, hover⟩ := hdisjoint
  cases client with
  | zero => cases hc
  | v6 a m => cases hc
  | v4 a m =>
    cases node with
    | zero => cases hn
    | v6 b n => cases hn
    | v4 b n =>
      obtain ⟨cmask, cquot⟩ := NetPrefix.masked_v4 a m
      obtain ⟨nmask, nquot⟩ := NetPrefix.masked_v4 b n
      refine ⟨cmask, nmask, fun x hx => ?_⟩
      cases x with
      | zero => rfl
      | v4 x =>
        rw [Bool.eq_false_iff]
        intro hx'
        rw [Prefix.contains_v4] at hx hx'
        -- on the bits of the shorter prefix the two would agree
        have ha := div_two_pow_of_le (hx.trans cquot) (show 32 - m.1 ≤ 32 - min m.1 n.1 by omega)
        have hb := div_two_pow_of_le (hx'.trans nquot) (show 32 - n.1 ≤ 32 - min m.1 n.1 by omega)
        have agree : a >>> (32 - min m.1 n.1) = b >>> (32 - min m.1 n.1) := by
          apply BitVec.eq_of_toNat_eq
          rw [BitVec.toNat_ushiftRight, BitVec.toNat_ushiftRight, Nat.shiftRight_eq_div_pow,
            Nat.shiftRight_eq_div_pow, ← ha, ← hb]
        rw [NetPrefix.overlaps, agree, beq_self_eq_true] at hover
        cases hover

/-! ## A store whose writes may fail without effect -/

section Refusing

variable {κ ι : Type}

/-- A store that makes a write, or fails and does not. -/
def refusingStore : KVStore (HandlerSig κ) where
  put key value := do
    match ← onStore .refuse with
    | some e => return some e
    | none =>
      memPut key value
      return none
  get key := do return .ok (← memGet key)
  list pfx := do return .ok (← memList pfx)
  fencer := some
    { revision := fun key => do return .ok (← memRevision key)
      compareAndSwap := fun key expected value => do
        match ← onStore .refuse with
        | some e => return (0, false, some e)
        | none =>
          let (rev, ok) ← memCAS key expected value
          return (rev, ok, none) }

/-- A write on it. -/
def writeUnless (d : Disk ι) (key : String) (value : Doc) : Option String × Disk ι :=
  match d.faults.headD none with
  | some e => (some e, { d with faults := d.faults.tail })
  | none => (none, { d with mem := d.mem.put key value, faults := d.faults.tail })

variable [DecidableEq κ] [DecidableEq ι]

theorem backed_refusing : Backed (κ := κ) refusingStore (writeUnless (ι := ι)) where
  get _ _ _ _ := rfl
  list _ _ _ _ := rfl
  put ω i s key value _ := by
    refine (alone_bind (alone_onStore (o := .refuse) rfl) _).trans ?_
    rw [writeUnless]
    cases s.1.faults.headD none <;> rfl
  fenced := by
    refine ⟨_, rfl, fun ω i s key => ⟨rfl, fun value _ => ?_⟩⟩
    have refuse := alone_bind (β := ℕ × Bool × Option String) (alone_onStore (ω := ω) (i := i) (s := s)
      (o := .refuse) rfl)
    rw [writeUnless]
    cases hd : s.1.faults.headD none <;> rw [hd] at refuse
    · let d : Disk ι := { s.1 with faults := s.1.faults.tail }
      refine ⟨d.mem.nextRev + 1, true, (refuse _).trans ?_, fun _ => rfl⟩
      have cas : (storeSystem ι Choice).exec ω i (.memCAS key ((s.1.mem.revision key).getD 0) value) d =
          some ((d.mem.nextRev + 1, true), { d with mem := d.mem.put key value }) := by
        simp only [storeSystem, MemStore.compareAndSwap, d, ne_eq, not_true_eq_false, if_false]
        rfl
      exact alone_bind (alone_onStore (s := (d, s.2)) cas) _
    · exact ⟨0, false, refuse _, fun h => by cases h⟩
  mem d key value h := by
    rw [writeUnless] at h ⊢
    split at h
    · cases h
    · rfl
  failed d key value := by
    rw [writeUnless]
    split
    · exact Or.inr rfl
    · exact Or.inl rfl
  saveMu d key value := by
    rw [writeUnless]
    split <;> rfl

end Refusing

/-! ## Assignments -/

section Assignment

variable {α β : Type} [DecidableEq α] {ok : β → Prop} {f : α → Option β} {i : α} {b : β}

/-- Each address is given to one name only. -/
structure Assignment (ok : β → Prop) (f : α → Option β) : Prop where
  injective : ∀ i j b, f i = some b → f j = some b → i = j
  allowed : ∀ i b, f i = some b → ok b

/-- Giving `b` to `i` keeps an assignment. -/
def Fits (ok : β → Prop) (f : α → Option β) (i : α) (b : β) : Prop :=
  f i = some b ∨ f i = none ∧ ok b ∧ ∀ j, f j ≠ some b

omit [DecidableEq α] in
theorem Fits.congr {g : α → Option β} (h : Fits ok f i b) (hg : g = f) : Fits ok g i b := hg ▸ h

theorem Fits.keeps (h : Fits ok f i b) {j : α} {c : β} (hj : f j = some c) : update f i (some b) j = some c := by
  by_cases hij : j = i
  · subst hij
    rcases h with same | ⟨none, -⟩
    · rw [update_self, ← hj, same]
    · rw [none] at hj
      cases hj
  · rw [update_of_ne hij, hj]

theorem Assignment.update (h : Assignment ok f) (fits : Fits ok f i b) : Assignment ok (update f i (some b)) := by
  rcases fits with same | ⟨-, hb, free⟩
  · rwa [← same, Function.update_eq_self]
  -- of two holders of one value, one would be `i` and the other an old one
  have old {j : α} {c : β} (hj : Function.update f i (some b) j = some c) (hij : j ≠ i) : f j = some c := by
    rwa [update_of_ne hij] at hj
  refine ⟨fun j k c hj hk => ?_, fun j c hj => ?_⟩
  · by_cases hji : j = i <;> by_cases hki : k = i
    · rw [hji, hki]
    · rw [hji, update_self] at hj
      rw [← Option.some.inj hj] at hk
      exact absurd (old hk hki) (free k)
    · rw [hki, update_self] at hk
      rw [← Option.some.inj hk] at hj
      exact absurd (old hj hji) (free j)
    · exact h.injective j k c (old hj hji) (old hk hki)
  · by_cases hji : j = i
    · rw [hji, update_self] at hj
      rwa [← Option.some.inj hj]
    · exact h.allowed j c (old hj hji)

end Assignment

/-! ## The addresses of a store -/

def virtualIPIn (m : MemStore) (id : String) : Option Addr :=
  match m.get (clientKey id) with
  | some (.client c) => some c.virtualIP
  | _ => none

def nodeIPIn (m : MemStore) (id : String) : Option Addr :=
  match m.get (gatewayKey id) with
  | some (.gateway g) => some g.nodeIP
  | _ => none

/-- No address is given twice, and every one is a usable address of its subnet. -/
structure Addressed (net : Network) (m : MemStore) : Prop where
  sessions : Assignment net.clientSubnet.Usable (virtualIPIn m)
  gateways : Assignment net.nodeSubnet.Usable (nodeIPIn m)
  apart : ∀ id id' a, virtualIPIn m id = some a → nodeIPIn m id' ≠ some a

/-- Nothing loses its address. -/
structure KeepsAddresses (m m' : MemStore) : Prop where
  sessions : ∀ id a, virtualIPIn m id = some a → virtualIPIn m' id = some a
  gateways : ∀ id a, nodeIPIn m id = some a → nodeIPIn m' id = some a

theorem KeepsAddresses.refl (m : MemStore) : KeepsAddresses m m := ⟨fun _ _ h => h, fun _ _ h => h⟩

theorem KeepsAddresses.trans {m m' m'' : MemStore} (h : KeepsAddresses m m') (h' : KeepsAddresses m' m'') :
    KeepsAddresses m m'' :=
  ⟨fun id a ha => h'.sessions id a (h.sessions id a ha), fun id a ha => h'.gateways id a (h.gateways id a ha)⟩

section Puts

variable (m : MemStore)

theorem virtualIPIn_put_client (c : ClientRecord) :
    virtualIPIn (m.put (clientKey c.id) (.client c)) = update (virtualIPIn m) c.id (some c.virtualIP) := by
  funext id
  by_cases hid : id = c.id
  · rw [hid, update_self, virtualIPIn, m.get_put_self]
  · rw [update_of_ne hid, virtualIPIn, m.get_put_ne _ fun h => hid (clientKey_inj.1 h)]
    rfl

theorem virtualIPIn_put_other {key : String} (value : Doc) (h : ∀ id, clientKey id ≠ key) :
    virtualIPIn (m.put key value) = virtualIPIn m := by
  funext id
  rw [virtualIPIn, m.get_put_ne _ (h id)]
  rfl

theorem nodeIPIn_put_gateway (g : Gateway) :
    nodeIPIn (m.put (gatewayKey g.id) (.gateway g)) = update (nodeIPIn m) g.id (some g.nodeIP) := by
  funext id
  by_cases hid : id = g.id
  · rw [hid, update_self, nodeIPIn, m.get_put_self]
  · rw [update_of_ne hid, nodeIPIn, m.get_put_ne _ fun h => hid (gatewayKey_inj.1 h)]
    rfl

theorem nodeIPIn_put_other {key : String} (value : Doc) (h : ∀ id, gatewayKey id ≠ key) :
    nodeIPIn (m.put key value) = nodeIPIn m := by
  funext id
  rw [nodeIPIn, m.get_put_ne _ (h id)]
  rfl

end Puts

/-! ## What a request assigns -/

theorem virtualIPIn_eq_some {m : MemStore} {id : String} :
    virtualIPIn m id = some a ↔ ∃ c, m.get (clientKey id) = some (.client c) ∧ c.virtualIP = a := by
  unfold virtualIPIn
  split <;> simp_all

theorem nodeIPIn_eq_some {m : MemStore} {id : String} :
    nodeIPIn m id = some a ↔ ∃ g, m.get (gatewayKey id) = some (.gateway g) ∧ g.nodeIP = a := by
  unfold nodeIPIn
  split <;> simp_all

/-- The addresses in a store are an assignment. -/
structure Allocated (net : Network) (ids : List String) (m : MemStore) : Prop where
  sessions : Assignment net.clientSubnet.Usable (virtualIPIn m)
  gateways : Assignment net.nodeSubnet.Usable (nodeIPIn m)
  named : ∀ id a, virtualIPIn m id = some a → id ∈ ids

/-- Writes that keep the assignment. -/
inductive Assigns (net : Network) (ids : List String) : MemStore → List (String × Doc) → Prop
  | nil {m : MemStore} : Assigns net ids m []
  | owner {m : MemStore} {sid : String} {value : Doc} {rest : List (String × Doc)}
    (h : Assigns net ids (m.put (sessionKey sid) value) rest) : Assigns net ids m ((sessionKey sid, value) :: rest)
  | client {m : MemStore} {c : ClientRecord} {rest : List (String × Doc)} (named : c.id ∈ ids)
    (fits : Fits net.clientSubnet.Usable (virtualIPIn m) c.id c.virtualIP)
    (h : Assigns net ids (m.put (clientKey c.id) (.client c)) rest) :
    Assigns net ids m ((clientKey c.id, .client c) :: rest)
  | gateway {m : MemStore} {g : Gateway} {rest : List (String × Doc)}
    (fits : Fits net.nodeSubnet.Usable (nodeIPIn m) g.id g.nodeIP)
    (h : Assigns net ids (m.put (gatewayKey g.id) (.gateway g)) rest) :
    Assigns net ids m ((gatewayKey g.id, .gateway g) :: rest)

def Choice.offers (ω : Choice) : List String :=
  match ω.number with
  | .ok n => [formatUint n.1]
  | .error _ => []

section Requests

variable {net : Network} {ids : List String} {m : MemStore}

section

variable (h : Allocated net ids m)
include h

theorem Allocated.put_owner (sid : String) (value : Doc) : Allocated net ids (m.put (sessionKey sid) value) ∧
      KeepsAddresses m (m.put (sessionKey sid) value) := by
  have vips := virtualIPIn_put_other m value fun id => (sessionKey_ne_clientKey sid id).symm
  have nodes := nodeIPIn_put_other m value fun id => (sessionKey_ne_gatewayKey sid id).symm
  refine ⟨⟨vips ▸ h.sessions, nodes ▸ h.gateways, vips ▸ h.named⟩, ?_, ?_⟩
  · rw [vips]
    exact fun _ _ ha => ha
  · rw [nodes]
    exact fun _ _ ha => ha

theorem Allocated.put_client {c : ClientRecord} (named : c.id ∈ ids)
    (fits : Fits net.clientSubnet.Usable (virtualIPIn m) c.id c.virtualIP) :
    Allocated net ids (m.put (clientKey c.id) (.client c)) ∧
      KeepsAddresses m (m.put (clientKey c.id) (.client c)) := by
  have vips := virtualIPIn_put_client m c
  have nodes := nodeIPIn_put_other m (.client c) fun id => (clientKey_ne_gatewayKey c.id id).symm
  refine ⟨⟨vips ▸ h.sessions.update fits, nodes ▸ h.gateways, fun id a ha => ?_⟩, fun _ _ ha => ?_, ?_⟩
  · by_cases hid : id = c.id
    · rwa [hid]
    · rw [vips, update_of_ne hid] at ha
      exact h.named id a ha
  · rw [vips]
    exact fits.keeps ha
  · rw [nodes]
    exact fun _ _ ha => ha

theorem Allocated.put_gateway {g : Gateway} (fits : Fits net.nodeSubnet.Usable (nodeIPIn m) g.id g.nodeIP) :
    Allocated net ids (m.put (gatewayKey g.id) (.gateway g)) ∧
      KeepsAddresses m (m.put (gatewayKey g.id) (.gateway g)) := by
  have vips := virtualIPIn_put_other m (.gateway g) fun id => clientKey_ne_gatewayKey id g.id
  have nodes := nodeIPIn_put_gateway m g
  refine ⟨⟨vips ▸ h.sessions, nodes ▸ h.gateways.update fits, vips ▸ h.named⟩, ?_, fun _ _ ha => ?_⟩
  · rw [vips]
    exact fun _ _ ha => ha
  · rw [nodes]
    exact fits.keeps ha

theorem Allocated.cons {key : String} {value : Doc} {rest done : List (String × Doc)}
    (put : Allocated net ids (m.put key value) ∧ KeepsAddresses m (m.put key value))
    (puts : ∀ done, done <+: rest → Allocated net ids ((m.put key value).puts done) ∧
      KeepsAddresses (m.put key value) ((m.put key value).puts done))
    (hd : done <+: (key, value) :: rest) :
    Allocated net ids (m.puts done) ∧ KeepsAddresses m (m.puts done) := by
  rcases List.prefix_cons_iff.1 hd with rfl | ⟨done, rfl, hd'⟩
  · exact ⟨h, .refl _⟩
  · obtain ⟨all, keeps⟩ := puts done hd'
    exact ⟨all, put.2.trans keeps⟩

theorem Allocated.puts {writes done : List (String × Doc)}
    (assigns : Assigns net ids m writes) (hd : done <+: writes) :
    Allocated net ids (m.puts done) ∧ KeepsAddresses m (m.puts done) := by
  induction assigns generalizing done with
  | nil =>
    obtain rfl := List.prefix_nil.1 hd
    exact ⟨h, .refl _⟩
  | @owner m sid value rest _ ih =>
    have put := h.put_owner sid value
    exact h.cons put (fun _ hd => ih put.1 hd) hd
  | client named fits _ ih =>
    have put := h.put_client named fits
    exact h.cons put (fun _ hd => ih put.1 hd) hd
  | gateway fits _ ih =>
    have put := h.put_gateway fits
    exact h.cons put (fun _ hd => ih put.1 hd) hd

end

variable {cfg : ServerConfig}

theorem fits_nodeIPOf (hp : cfg.network.nodeSubnet.Masked) (tidy : Tidy m) {gws : List Gateway} {id : String}
    {a : Addr} (hgws : decodeGateways (m.list gatewayKeyPrefix) = .ok gws) (h : nodeIPOf cfg gws id = .ok a) :
    Fits cfg.network.nodeSubnet.Usable (nodeIPIn m) id a := by
  have listed {j : String} {g : Gateway} (hg : m.get (gatewayKey j) = some (.gateway g)) : g ∈ gws :=
    (mem_gateways hgws g).2 ⟨j, hg⟩
  unfold nodeIPOf at h
  cases hfind : findGateway gws id with
  | some g =>
    rw [hfind] at h
    have hid : g.id = id := by simpa using List.find?_some hfind
    obtain ⟨j, hj⟩ := (mem_gateways hgws g).1 (List.mem_of_find?_eq_some hfind)
    obtain ⟨g', hg', hj'⟩ := tidy.gateways j _ hj
    rw [← Doc.gateway.inj hg', hid] at hj'
    exact Or.inl (nodeIPIn_eq_some.2 ⟨g, by rw [hj']; exact hj, Except.ok.inj h⟩)
  | none =>
    rw [hfind] at h
    obtain ⟨usable, free⟩ := allocate_eq_ok hp h
    refine Or.inr ⟨?_, usable, fun j hj => ?_⟩
    · rw [Option.eq_none_iff_forall_ne_some]
      intro b hb
      obtain ⟨g, hg, -⟩ := nodeIPIn_eq_some.1 hb
      obtain ⟨g', hg', hid⟩ := tidy.gateways id _ hg
      rw [← Doc.gateway.inj hg'] at hid
      exact absurd hid (by simpa using List.find?_eq_none.1 hfind g (listed hg))
    · obtain ⟨g, hg, rfl⟩ := nodeIPIn_eq_some.1 hj
      exact free (List.mem_map_of_mem (listed hg))

theorem fits_allocate (hp : cfg.network.clientSubnet.Masked) {cs : List ClientRecord} {id : String} {a : Addr}
    (hcs : decodeClients (m.list clientKeyPrefix) = .ok cs) (unknown : ∀ b, virtualIPIn m id ≠ some b)
    (h : allocate cfg.network.clientSubnet (cs.map ClientRecord.virtualIP) = .ok a) :
    Fits cfg.network.clientSubnet.Usable (virtualIPIn m) id a := by
  obtain ⟨usable, free⟩ := allocate_eq_ok hp h
  refine Or.inr ⟨Option.eq_none_iff_forall_ne_some.2 unknown, usable, fun j hj => ?_⟩
  obtain ⟨c, hc, rfl⟩ := virtualIPIn_eq_some.1 hj
  exact free (List.mem_map_of_mem ((mem_clients hcs c).2 ⟨j, hc⟩))

theorem assigns_openWrites {rec : OwnershipRecord} {c : ClientRecord} {writes : List (String × Doc)}
    (hw : openWrites m rec c = .ok writes) (named : c.id ∈ ids)
    (fits : Fits net.clientSubnet.Usable (virtualIPIn m) c.id c.virtualIP) : Assigns net ids m writes := by
  obtain ⟨-, ⟨-, rfl⟩ | ⟨-, rfl⟩⟩ := openWrites_cases hw
  · refine .owner (.client named (fits.congr ?_) .nil)
    exact virtualIPIn_put_other m _ fun id => (sessionKey_ne_clientKey rec.session id).symm
  · exact .client named fits .nil

theorem Planned.assigns (hc : cfg.network.clientSubnet.Masked) (hn : cfg.network.nodeSubnet.Masked)
    (tidy : Tidy m) (allocated : Allocated cfg.network ids m) {alive : AliveMap} {ω : Choice} {r : Request}
    {t : Transaction} (h : Planned cfg m alive ω r t) (fresh : ∀ id ∈ ω.offers, id ∉ ids) :
    Assigns cfg.network (ω.offers ++ ids) m t.writes := by
  have known {c : ClientRecord} (hget : m.get (clientKey c.id) = some (.client c)) :
      c.id ∈ ω.offers ++ ids ∧ Fits cfg.network.clientSubnet.Usable (virtualIPIn m) c.id c.virtualIP := by
    have hv : virtualIPIn m c.id = some c.virtualIP := virtualIPIn_eq_some.2 ⟨c, hget, rfl⟩
    exact ⟨List.mem_append_right _ (allocated.named _ _ hv), Or.inl hv⟩
  cases h with
  | quiet h =>
    rw [h]
    exact .nil
  | @registers _ id _ gws g _ h =>
    rw [h.writes, ← h.named]
    exact .gateway (fits_nodeIPOf hn tidy h.gateways (h.named ▸ h.address)) .nil
  | moves _ h =>
    rw [h.writes]
    exact .owner .nil
  | @creates _ req _ h =>
    cases h with
    | @kept c _ _ reopens _ _ _ _ _ hw =>
      obtain ⟨named, fits⟩ := known (reopens.stored tidy)
      rw [hw]
      exact .client (c := { c with backend := normBackend req.backend }) named fits .nil
    | @moved c _ _ _ _ reopens _ _ _ _ _ hw =>
      obtain ⟨named, fits⟩ := known (reopens.stored tidy)
      exact assigns_openWrites hw named fits
    | @opened cs _ _ _ vip n secret clients _ _ _ address number c hc' _ hw =>
      have hid : c.id = formatUint n.1 := by rw [hc']
      have offered : c.id ∈ ω.offers := by
        rw [Choice.offers, number, hid]
        exact List.mem_singleton_self _
      refine assigns_openWrites hw (List.mem_append_left _ offered) ?_
      rw [show c.virtualIP = vip by rw [hc']]
      exact fits_allocate hc clients (fun b hb => fresh _ offered (allocated.named _ b hb)) address

end Requests

/-! ## Runs -/

/-- A controller with the session numbers drawn so far. -/
structure Registry where
  state : ServerState Unit Unit
  drawn : List String := []

abbrev Registry.mem (x : Registry) : MemStore := x.state.1.mem

structure RegistryCall where
  choice : Choice
  request : Request

/-- A request that writes, alone. -/
def Registry.step? (cfg : ServerConfig) (x : Registry) (c : RegistryCall) : Option Registry :=
  if c.request.mutates then
    (alone c.choice () (serve cfg refusingStore () c.request) x.state).map fun p =>
      ⟨p.2, c.choice.offers ++ x.drawn⟩
  else none

/-- Session numbers are not drawn twice. -/
def Registry.NoRepeat (x : Registry) (c : RegistryCall) : Prop := ∀ id ∈ c.choice.offers, id ∉ x.drawn

instance (x : Registry) (c : RegistryCall) : Decidable (x.NoRepeat c) :=
  inferInstanceAs (Decidable (∀ id ∈ c.choice.offers, id ∉ x.drawn))

structure Registry.Good (net : Network) (x : Registry) : Prop where
  idle : Idle () x.state
  tidy : Tidy x.mem
  allocated : Allocated net x.drawn x.mem

/-- One request that writes. -/
theorem Registry.Good.step {cfg : ServerConfig} (hc : cfg.network.clientSubnet.Masked)
    (hn : cfg.network.nodeSubnet.Masked) {x x' : Registry} {c : RegistryCall} (good : x.Good cfg.network)
    (fresh : x.NoRepeat c) (h : x.step? cfg c = some x') :
    x'.Good cfg.network ∧ KeepsAddresses x.mem x'.mem := by
  rw [step?] at h
  split_ifs at h with hr
  obtain ⟨⟨a, s⟩, run, rfl⟩ := Option.map_eq_some_iff.1 h
  obtain ⟨t, done, ht, idle, hd, mem, -⟩ := backed_refusing.serve_cases hr good.idle run
  have assigns := (plan_cases ht).assigns hc hn good.tidy good.allocated fresh
  have more : Allocated cfg.network (c.choice.offers ++ x.drawn) x.mem :=
    ⟨good.allocated.sessions, good.allocated.gateways,
      fun id a ha => List.mem_append_right _ (good.allocated.named id a ha)⟩
  obtain ⟨allocated, keeps⟩ := more.puts assigns hd
  rw [← mem] at allocated keeps
  exact ⟨⟨idle, good.tidy.serve backed_refusing hr good.idle run, allocated⟩, keeps⟩

def Registry.new (faults : List (Option String)) : Registry := { state := ({ mem := .empty, faults }, fun _ => {}) }

theorem Registry.good_new (net : Network) (faults : List (Option String)) : (new faults).Good net where
  idle := ⟨rfl, rfl⟩
  tidy := tidy_empty
  allocated :=
    ⟨⟨fun _ _ _ h => (by cases h), fun _ _ h => (by cases h)⟩,
      ⟨fun _ _ _ h => (by cases h), fun _ _ h => (by cases h)⟩, fun _ _ h => (by cases h)⟩

/-- In every state of a run no address is given twice, every address is a usable one of its subnet, and
none changes from there on. -/
theorem addresses_assigned {cfg : ServerConfig} {client node : NetPrefix} {probePort : UInt16}
    (configured : newNetwork client node probePort = .ok cfg.network) {x₀ x x' : Registry}
    (good : x₀.Good cfg.network) (run : Runs (Registry.step? cfg) Registry.NoRepeat x₀ x)
    (later : Runs (Registry.step? cfg) Registry.NoRepeat x x') :
    Addressed cfg.network x.mem ∧ KeepsAddresses x.mem x'.mem := by
  obtain ⟨hc, hn, disjoint⟩ := newNetwork_eq_ok configured
  have good' := run.invariant (fun _ _ _ good fresh h => (good.step hc hn fresh h).1) good
  have sessions := good'.allocated.sessions
  have gateways := good'.allocated.gateways
  refine ⟨⟨sessions, gateways, fun id id' a ha ha' => ?_⟩, ?_⟩
  · have inside := (gateways.allowed id' a ha').contains
    rw [disjoint a (sessions.allowed id a ha).contains] at inside
    cases inside
  · have kept : x'.Good cfg.network ∧ KeepsAddresses x.mem x'.mem :=
      later.invariant (I := fun y => y.Good cfg.network ∧ KeepsAddresses x.mem y.mem)
        (fun _ _ _ ⟨good, keeps⟩ fresh h =>
          ⟨(good.step hc hn fresh h).1, keeps.trans (good.step hc hn fresh h).2⟩) ⟨good', .refl _⟩
    exact kept.2

/-! ### On the small network -/

namespace Trial

def registers : RegistryCall :=
  { choice := {}
    request := .registerGateway "" "a"
      (.ok { roles := roleAccess ||| roleEgress, endpoint := "1.2.3.4:1", publicKey }) }

def opens (n : { n : UInt64 // n ≠ 0 }) : RegistryCall :=
  { choice := { number := .ok n, secret := .ok "secret" }, request := .createSession "" (.ok { publicKey }) }

end Trial

open Trial in
/-- The gateway registers; the record of session 6 cannot be written, and session 7 gets the address that
was meant for it. -/
theorem addresses_assigned_retried :
    ∃ x, Runs (Registry.step? config) Registry.NoRepeat (Registry.new [none, none, some "full"]) x ∧
      (nodeIPIn x.mem "a", virtualIPIn x.mem "6", virtualIPIn x.mem "7") =
        (some (.v4 0x0b000002), none, some (.v4 0x0a000002)) ∧
      Addressed config.network x.mem := by
  obtain ⟨x, run, h⟩ := Runs.exists_of_checked (Registry.step? config) Registry.NoRepeat
    (Registry.new [none, none, some "full"]) [registers, opens ⟨6, by decide⟩, opens ⟨7, by decide⟩]
    (fun x => (nodeIPIn x.mem "a", virtualIPIn x.mem "6", virtualIPIn x.mem "7"))
    (b := (some (.v4 0x0b000002), none, some (.v4 0x0a000002))) (by decide)
  have configured : newNetwork (.v4 0x0a000000 8) (.v4 0x0b000000 8) 1 = .ok config.network := by decide
  exact ⟨x, run, h, (addresses_assigned configured (Registry.good_new _ _) run .refl).1⟩

end Egressa
