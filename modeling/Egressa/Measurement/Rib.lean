import Egressa.Bytes
import Egressa.IPsec.Config
import Egressa.Slices
import Egressa.Trie

/-!
# The routing information base

`RIB` (`internal/measurement/rib.go`) keeps prefixes in two binary tries, one for each family.  An IPv4-mapped address
goes to the trie of IPv4 with the four bytes of its IPv4 form.  So does an IPv4-mapped prefix, which has 96 bits more
than those bytes: `AddPrefix` then reads beyond them and panics.
-/

namespace Egressa

open Bytes Slices Tries

/-! ## Addresses -/

namespace IPsec.NetAddr

def is6 : NetAddr → Bool
  | v6 _ _ => true
  | _ => false

def is4In6 : NetAddr → Bool
  | v6 a _ => a >>> 32 == 0xffff
  | _ => false

def unmap : NetAddr → NetAddr
  | v6 a z => if (v6 a z).is4In6 then v4 (a.setWidth 32) else v6 a z
  | a => a

def as4 : NetAddr → Outcome String (List UInt8)
  | zero => .panic
  | v4 a => .ok (bigEndian 4 a.toNat)
  | v6 a z => if (v6 a z).is4In6 then .ok (bigEndian 4 a.toNat) else .panic

end IPsec.NetAddr

namespace NetPrefix

def addr : NetPrefix → IPsec.NetAddr
  | zero => .zero
  | v4 a _ => .v4 a
  | v6 a _ => .v6 a ""

def bits : NetPrefix → ℕ
  | zero => 0
  | v4 _ n => n.1
  | v6 _ n => n.1

/-- The first bits of the address are those of the prefix.  A zone is no part of them. -/
def contains : NetPrefix → IPsec.NetAddr → Bool
  | v4 a n, .v4 b => a >>> (32 - n.1) == b >>> (32 - n.1)
  | v6 a n, .v6 b _ => a >>> (128 - n.1) == b >>> (128 - n.1)
  | _, _ => false

def Mapped : NetPrefix → Prop
  | v6 a n => 96 ≤ n.1 ∧ a >>> 32 = 0xffff
  | _ => False

end NetPrefix

namespace Measurement

open IPsec (NetAddr maskPrefix)

/-! ## The code -/

def isTrueIPv6 (addr : NetAddr) : Bool := addr.is6 && !addr.is4In6

def addrBits (addr : NetAddr) : Outcome String (List UInt8) :=
  if isTrueIPv6 addr then .ok addr.as16 else addr.as4

def bitAt (b : List UInt8) (i : ℕ) : Outcome String Bool := do
  let byte ← index b (i / 8)
  return (byte >>> (7 - UInt8.ofNat (i % 8))) &&& 1 == 1

/-- The prefixes of both families. -/
structure Rib where
  v4 : Trie NetPrefix
  v6 : Trie NetPrefix

def newRib : Rib := ⟨.node none .nil .nil, .node none .nil .nil⟩

/-- The walk of `AddPrefix`. -/
def insertAt (p : NetPrefix) (bits : List UInt8) : ℕ → ℕ → Trie NetPrefix → Outcome String (Trie NetPrefix)
  | 0, _, node => .ok (node.setValue p)
  | n + 1, i, node => do
    let bit ← bitAt bits i
    let child ← insertAt p bits n (i + 1) (node.child bit)
    return node.setChild bit child

def Rib.addPrefix (r : Rib) (p : NetPrefix) : Outcome String Rib :=
  if !p.isValid then .err "measurement: invalid prefix invalid Prefix"
  else do
    let p := maskPrefix p
    let bits ← addrBits p.addr
    if isTrueIPv6 p.addr then
      let v6 ← insertAt p bits p.bits 0 r.v6
      return { r with v6 }
    else
      let v4 ← insertAt p bits p.bits 0 r.v4
      return { r with v4 }

def Rib.loadPrefixes (r : Rib) (prefixes : List NetPrefix) : Outcome String Rib := prefixes.foldlM Rib.addPrefix r

/-- The walk of `Lookup`. -/
def walk (bits : List UInt8) : ℕ → ℕ → Trie NetPrefix → Option NetPrefix → Outcome String (Option NetPrefix)
  | 0, _, node, best => .ok (node.value.or best)
  | n + 1, i, node, best => do
    let best := node.value.or best
    let bit ← bitAt bits i
    match node.child bit with
    | .nil => return best
    | child => walk bits n (i + 1) child best

def Rib.lookup (r : Rib) (addr : NetAddr) : Outcome String (Option NetPrefix) := do
  let bits ← addrBits addr
  if isTrueIPv6 addr then walk bits 128 0 r.v6 none else walk bits 32 0 r.v4 none

/-! ## Bits -/

theorem bit_ofNat (y : ℕ) {r : ℕ} (hr : r < 8) :
    ((UInt8.ofNat y >>> (7 - UInt8.ofNat r)) &&& 1 == 1) = y.testBit (7 - r) := by
  have shift : (7 - UInt8.ofNat r : UInt8).toNat = 7 - r := by
    interval_cases r <;> rfl
  have low := Nat.testBit_mod_two_pow y 8 (7 - r)
  rw [decide_eq_true (by omega : 7 - r < 8), Bool.true_and] at low
  rw [← low, Bool.eq_iff_iff, beq_iff_eq, ← UInt8.toNat_inj, UInt8.toNat_and, UInt8.toNat_shiftRight, shift,
    UInt8.toNat_ofNat', Nat.mod_eq_of_lt (by omega : 7 - r < 8), UInt8.toNat_one, Nat.and_one_is_mod,
    Nat.shiftRight_eq_div_pow, Nat.testBit_eq_decide_div_mod_eq, decide_eq_true_iff]

theorem bitAt_bigEndian {k x i : ℕ} (h : i < 8 * k) : bitAt (bigEndian k x) i = .ok (x.testBit (8 * k - 1 - i)) := by
  rw [bitAt, index_of_getElem? (getElem?_bigEndian (by omega)), Outcome.ok_bind, bit_ofNat _ (Nat.mod_lt _ (by omega)),
    show (256 : ℕ) = 2 ^ 8 from rfl, ← pow_mul, Nat.testBit_div_two_pow]
  congr 2
  omega

theorem bitAt_of_length_le {b : List UInt8} {i : ℕ} (h : 8 * b.length ≤ i) : bitAt b i = .panic := by
  have out : b[i / 8]? = none := List.getElem?_eq_none (by omega)
  rw [bitAt, index, out]
  rfl

def msb {w : ℕ} (a : BitVec w) (n : ℕ) : List Bool := (List.range n).map a.getMsbD

section

variable {w n m : ℕ} {a b : BitVec w}

@[simp] theorem length_msb (a : BitVec w) (n : ℕ) : (msb a n).length = n := by simp [msb]

theorem msb_eq_iff : msb a n = msb b n ↔ ∀ i < n, a.getMsbD i = b.getMsbD i := by
  simp [msb, List.map_inj_left]

theorem shift_eq_iff (hn : n ≤ w) : a >>> (w - n) = b >>> (w - n) ↔ msb a n = msb b n := by
  rw [msb_eq_iff]
  constructor
  · intro h i hi
    have bit := congrArg (·.getMsbD (i + (w - n))) h
    simpa [BitVec.getMsbD_ushiftRight, (by omega : i + (w - n) < w)] using bit
  · intro h
    refine BitVec.eq_of_getMsbD_eq fun i hi => ?_
    rw [BitVec.getMsbD_ushiftRight, BitVec.getMsbD_ushiftRight]
    by_cases low : i < w - n
    · simp [low]
    · rw [h _ (by omega)]

theorem msb_mask (hn : n ≤ w) : msb (a >>> (w - n) <<< (w - n)) n = msb a n := by
  rw [msb_eq_iff]
  intro i hi
  simp [BitVec.getMsbD_shiftLeft, BitVec.getMsbD_ushiftRight, (by omega : i + (w - n) < w)]

theorem msb_prefix_iff (hn : n ≤ w) : msb a n <+: msb b w ↔ a >>> (w - n) <<< (w - n) >>> (w - n) = b >>> (w - n) := by
  have first : (msb b w).take n = msb b n := by
    rw [msb, ← List.map_take, List.take_range, Nat.min_eq_left hn, msb]
  rw [shift_eq_iff hn, msb_mask hn, List.prefix_iff_eq_take, length_msb, first]

theorem mask_eq_iff (hn : n ≤ w) : a >>> (w - n) <<< (w - n) = b >>> (w - n) <<< (w - n) ↔ msb a n = msb b n := by
  constructor
  · intro h
    rw [← msb_mask hn, h, msb_mask hn]
  · intro h
    rw [(shift_eq_iff hn).2 h]

end

theorem bitAt_msb {k w : ℕ} (hw : w = 8 * k) (a : BitVec w) {i : ℕ} (hi : i < w) :
    bitAt (bigEndian k a.toNat) i = .ok (a.getMsbD i) := by
  subst hw
  rw [bitAt_bigEndian hi, BitVec.testBit_toNat, BitVec.getMsbD_eq_getLsbD, decide_eq_true hi, Bool.true_and]

theorem bitAt_mapped (a : BitVec 128) {i : ℕ} (hi : i < 32) :
    bitAt (bigEndian 4 a.toNat) i = .ok ((a.setWidth 32).getMsbD i) := by
  rw [bitAt_bigEndian hi, BitVec.testBit_toNat, BitVec.getMsbD_eq_getLsbD, BitVec.getLsbD_setWidth,
    decide_eq_true hi, decide_eq_true (by omega : 32 - 1 - i < 32), Bool.true_and, Bool.true_and]

/-! ## The tries -/

section

variable {bytes : List UInt8} {bit : ℕ → Bool}

theorem insertAt_eq (p : NetPrefix) {n i : ℕ} (h : ∀ j < i + n, bitAt bytes j = .ok (bit j)) (node : Trie NetPrefix) :
    insertAt p bytes n i node = .ok (node.insert p ((List.range' i n).map bit)) := by
  induction n generalizing i node with
  | zero => rfl
  | succ n ih =>
    rw [insertAt, h i (by omega), Outcome.ok_bind, ih fun j hj => h j (by omega)]
    rfl

theorem insertAt_panic (p : NetPrefix) {n i : ℕ} (short : 8 * bytes.length < i + n)
    (h : ∀ j < 8 * bytes.length, bitAt bytes j = .ok (bit j)) (node : Trie NetPrefix) (hi : i ≤ 8 * bytes.length) :
    insertAt p bytes n i node = .panic := by
  induction n generalizing i node with
  | zero => omega
  | succ n ih =>
    rw [insertAt]
    rcases hi.lt_or_eq with lt | eq
    · rw [h i lt, Outcome.ok_bind, ih (by omega) _ lt, Outcome.panic_bind]
    · rw [bitAt_of_length_le eq.ge, Outcome.panic_bind]

theorem walk_eq {n i : ℕ} (h : ∀ j < i + n, bitAt bytes j = .ok (bit j)) (node : Trie NetPrefix)
    (best : Option NetPrefix) : walk bytes n i node best = .ok (node.longest ((List.range' i n).map bit) best) := by
  induction n generalizing i node best with
  | zero => rfl
  | succ n ih =>
    rw [walk, h i (by omega), Outcome.ok_bind, List.range'_succ, List.map_cons, Trie.longest]
    cases hc : node.child (bit i) with
    | nil => rw [Trie.longest_nil]; rfl
    | node v zero one => exact ih (fun j hj => h j (by omega)) _ _

end

theorem msb_eq {w : ℕ} (a : BitVec w) (n : ℕ) : (List.range' 0 n).map a.getMsbD = msb a n := by
  rw [msb, List.range_eq_range']

theorem isValid_unmap (a : NetAddr) : a.unmap.isValid = a.isValid := by
  cases a with
  | zero => rfl
  | v4 a => rfl
  | v6 a z => cases h : (NetAddr.v6 a z).is4In6 <;> simp [NetAddr.unmap, h, NetAddr.isValid]

def addressBits : NetAddr → List Bool
  | .zero => []
  | .v4 a => msb a 32
  | .v6 a _ => msb a 128

variable {a : NetAddr}

theorem Rib.lookup_eq (r : Rib) (valid : a.isValid = true) :
    r.lookup a = .ok ((if a.unmap.is4 then r.v4 else r.v6).longest (addressBits a.unmap) none) := by
  cases a with
  | zero => cases valid
  | v4 a =>
    change walk (bigEndian 4 a.toNat) 32 0 r.v4 none = .ok (r.v4.longest (msb a 32) none)
    rw [← msb_eq]
    exact walk_eq (fun j hj => bitAt_msb (k := 4) rfl a (by omega)) _ _
  | v6 a z =>
    cases mapped : (NetAddr.v6 a z).is4In6 with
    | true =>
      simp only [lookup, addrBits, isTrueIPv6, mapped, NetAddr.unmap, NetAddr.is4, NetAddr.as4, addressBits, ← msb_eq,
        Bool.not_true, Bool.and_false, Bool.false_eq_true, if_false, if_true, Outcome.ok_bind]
      exact walk_eq (fun j hj => bitAt_mapped a (by omega)) _ _
    | false =>
      simp only [lookup, addrBits, isTrueIPv6, mapped, NetAddr.unmap, NetAddr.is4, NetAddr.is6, NetAddr.as16,
        addressBits, ← msb_eq, Bool.not_false, Bool.and_self, Bool.false_eq_true, if_false, if_true, Outcome.ok_bind]
      exact walk_eq (fun j hj => bitAt_msb (k := 16) rfl a (by omega)) _ _

theorem mask_mapped_iff (a : BitVec 128) (n : Fin 129) :
    (a >>> (128 - n.1) <<< (128 - n.1)) >>> 32 = 0xffff ↔ (NetPrefix.v6 a n).Mapped := by
  by_cases long : 96 ≤ n.1
  · have same : (a >>> (128 - n.1) <<< (128 - n.1)) >>> 32 = a >>> 32 :=
      (shift_eq_iff (n := 96) (by omega)).2 (msb_eq_iff.2 fun i hi =>
        msb_eq_iff.1 (msb_mask (by omega : n.1 ≤ 128)) i (by omega))
    simp [NetPrefix.Mapped, long, same]
  · refine iff_of_false (fun h => ?_) fun h => long h.1
    have bit := congrArg (·.getLsbD 0) h
    simp [(by omega : 32 < 128 - n.1)] at bit

theorem Rib.addPrefix_v4 (r : Rib) (a : BitVec 32) (n : Fin 33) :
    r.addPrefix (.v4 a n) = .ok { r with v4 := r.v4.insert (maskPrefix (.v4 a n)) (msb a n.1) } := by
  have inserted := insertAt_eq (maskPrefix (.v4 a n)) (n := n.1) (i := 0)
    (fun j hj => bitAt_msb (k := 4) rfl (a >>> (32 - n.1) <<< (32 - n.1)) (by omega)) r.v4
  rw [msb_eq, msb_mask (by omega)] at inserted
  change (insertAt _ (bigEndian 4 _) n.1 0 r.v4 >>= _) = _
  rw [inserted]
  rfl

theorem isTrueIPv6_mask (a : BitVec 128) (n : Fin 129) :
    isTrueIPv6 (maskPrefix (.v6 a n)).addr = false ↔ (NetPrefix.v6 a n).Mapped := by
  rw [← mask_mapped_iff]
  simp [isTrueIPv6, maskPrefix, NetPrefix.addr, NetAddr.is4In6, NetAddr.is6]

theorem Rib.addPrefix_v6 (r : Rib) {a : BitVec 128} {n : Fin 129} (h : ¬ (NetPrefix.v6 a n).Mapped) :
    r.addPrefix (.v6 a n) = .ok { r with v6 := r.v6.insert (maskPrefix (.v6 a n)) (msb a n.1) } := by
  have inserted := insertAt_eq (maskPrefix (.v6 a n)) (n := n.1) (i := 0)
    (fun j hj => bitAt_msb (k := 16) rfl (a >>> (128 - n.1) <<< (128 - n.1)) (by omega)) r.v6
  rw [msb_eq, msb_mask (by omega)] at inserted
  have plain : isTrueIPv6 (maskPrefix (.v6 a n)).addr = true := by
    rwa [← isTrueIPv6_mask, Bool.not_eq_false] at h
  rw [addPrefix, if_neg (by simp [NetPrefix.isValid])]
  simp only [addrBits, plain, if_true, Outcome.ok_bind]
  change (insertAt _ (bigEndian 16 _) n.1 0 r.v6 >>= _) = _
  rw [inserted]
  rfl

theorem Rib.addPrefix_mapped (r : Rib) {p : NetPrefix} (h : p.Mapped) : r.addPrefix p = .panic := by
  cases p with
  | zero => exact h.elim
  | v4 a n => exact h.elim
  | v6 a n =>
    have long : 96 ≤ n.1 := h.1
    have mapped := (isTrueIPv6_mask a n).2 h
    have four : (maskPrefix (.v6 a n)).addr.as4 = .ok (bigEndian 4 (a >>> (128 - n.1) <<< (128 - n.1)).toNat) :=
      if_pos (by simpa [NetAddr.is4In6] using (mask_mapped_iff a n).2 h)
    have panics := insertAt_panic (maskPrefix (.v6 a n)) (n := n.1) (i := 0) (by simpa using by omega)
      (fun j hj => bitAt_mapped (a >>> (128 - n.1) <<< (128 - n.1)) (by simpa using hj)) r.v4 (Nat.zero_le _)
    rw [addPrefix, if_neg (by simp [NetPrefix.isValid])]
    simp only [addrBits, mapped, four, Bool.false_eq_true, if_false, Outcome.ok_bind]
    change (insertAt _ _ n.1 0 r.v4 >>= _) = _
    rw [panics]
    rfl

/-! ## Longest matches -/

/-- The key of a prefix in the trie of a family. -/
def key (four : Bool) : NetPrefix → Option (List Bool)
  | .zero => none
  | .v4 a n => if four then some (msb a n.1) else none
  | .v6 a n => if four then none else some (msb a n.1)

section

variable {four : Bool} {p q : NetPrefix} {k : List Bool}

theorem bits_of_key (hk : key four p = some k) : (maskPrefix p).bits = k.length := by
  cases p <;> cases four <;> simp [key] at hk <;> subst hk <;> simp [maskPrefix, NetPrefix.bits]

theorem mask_eq_of_key (hp : key four p = some k) (hq : key four q = some k) : maskPrefix p = maskPrefix q := by
  have length := (bits_of_key hp).trans (bits_of_key hq).symm
  cases p <;> cases q <;> cases four <;> simp only [key, reduceCtorEq, if_true, if_false, Bool.false_eq_true,
    Option.some.injEq] at hp hq
  case v4.v4.true a n b m =>
    obtain rfl : n = m := Fin.ext length
    exact congrArg (NetPrefix.v4 · n) ((mask_eq_iff (by omega)).2 (hp.trans hq.symm))
  case v6.v6.false a n b m =>
    obtain rfl : n = m := Fin.ext length
    exact congrArg (NetPrefix.v6 · n) ((mask_eq_iff (by omega)).2 (hp.trans hq.symm))

theorem contains_iff {a : NetAddr} (valid : a.isValid = true) :
    (maskPrefix p).contains a = true ↔ ∃ k, key a.is4 p = some k ∧ k <+: addressBits a := by
  cases a with
  | zero => cases valid
  | v4 b =>
    cases p with
    | zero => simp [maskPrefix, NetPrefix.contains, key]
    | v4 a n => simp [maskPrefix, NetPrefix.contains, key, NetAddr.is4, addressBits,
        msb_prefix_iff (Nat.le_of_lt_succ n.2)]
    | v6 a n => simp [maskPrefix, NetPrefix.contains, key, NetAddr.is4]
  | v6 b z =>
    cases p with
    | zero => simp [maskPrefix, NetPrefix.contains, key]
    | v4 a n => simp [maskPrefix, NetPrefix.contains, key, NetAddr.is4]
    | v6 a n => simp [maskPrefix, NetPrefix.contains, key, NetAddr.is4, addressBits,
        msb_prefix_iff (Nat.le_of_lt_succ n.2)]

end

/-- The trie holds the prefixes of a family, masked. -/
def Keeps (t : Trie NetPrefix) (four : Bool) (ps : List NetPrefix) : Prop :=
  ∀ k q, t.get k = some q ↔ ∃ p ∈ ps, key four p = some k ∧ maskPrefix p = q

namespace Keeps

variable {t : Trie NetPrefix} {four : Bool} {ps : List NetPrefix} {p : NetPrefix}

theorem empty (four : Bool) : Keeps (.node none .nil .nil) four [] := by
  intro k q
  cases k with
  | nil => simp [Trie.get, Trie.value]
  | cons b k => cases b <;> simp [Trie.get, Trie.child]

theorem insert (h : Keeps t four ps) {k : List Bool} (hk : key four p = some k) :
    Keeps (t.insert (maskPrefix p) k) four (ps ++ [p]) := by
  intro k' q
  rw [Trie.get_insert]
  split_ifs with same
  · subst same
    constructor
    · intro hq
      exact ⟨p, by simp, hk, Option.some.inj hq⟩
    · rintro ⟨p', -, hk', rfl⟩
      rw [mask_eq_of_key hk hk']
  · rw [h k' q]
    refine exists_congr fun p' => ?_
    constructor
    · rintro ⟨hp', rest⟩
      exact ⟨by simp [hp'], rest⟩
    · rintro ⟨hp', hk', rest⟩
      rcases List.mem_append.1 hp' with hp' | hp'
      · exact ⟨hp', hk', rest⟩
      · rw [List.mem_singleton.1 hp', hk] at hk'
        exact absurd (Option.some.inj hk').symm same

theorem pass (h : Keeps t four ps) (hk : key four p = none) : Keeps t four (ps ++ [p]) := by
  intro k q
  rw [h k q]
  refine exists_congr fun p' => ?_
  simp only [List.mem_append, List.mem_singleton]
  constructor
  · rintro ⟨hp', rest⟩
    exact ⟨.inl hp', rest⟩
  · rintro ⟨hp' | rfl, hk', rest⟩
    · exact ⟨hp', hk', rest⟩
    · simp [hk] at hk'

end Keeps

/-- The longest of the masked prefixes that contain the address, if any does.  An IPv4-mapped address counts as its IPv4
form. -/
def LongestMatch (ps : List NetPrefix) (a : NetAddr) : Option NetPrefix → Prop
  | none => ∀ p ∈ ps.map maskPrefix, p.contains a.unmap = false
  | some p => p ∈ ps.map maskPrefix ∧ p.contains a.unmap = true ∧
      ∀ q ∈ ps.map maskPrefix, q.contains a.unmap = true → q.bits ≤ p.bits

theorem Keeps.longest {t : Trie NetPrefix} {ps : List NetPrefix} (valid : a.isValid = true)
    (h : Keeps t a.unmap.is4 ps) : LongestMatch ps a (t.longest (addressBits a.unmap) none) := by
  rw [← isValid_unmap] at valid
  have longest := t.isLongest_longest (addressBits a.unmap)
  have found : ∀ p ∈ ps, (maskPrefix p).contains a.unmap = true → ∃ k, k <+: addressBits a.unmap ∧
      t.get k = some (maskPrefix p) ∧ (maskPrefix p).bits = k.length := by
    intro p hp inside
    obtain ⟨k, hk, leads⟩ := (contains_iff valid).1 inside
    exact ⟨k, leads, (h k _).2 ⟨p, hp, hk, rfl⟩, bits_of_key hk⟩
  cases hres : t.longest (addressBits a.unmap) none with
  | none =>
    rw [hres] at longest
    refine List.forall_mem_map.2 fun p hp => Bool.eq_false_iff.2 fun inside => ?_
    obtain ⟨k, leads, here, -⟩ := found p hp inside
    simp [longest k leads] at here
  | some q =>
    rw [hres] at longest
    obtain ⟨k, leads, here, last⟩ := longest
    obtain ⟨p, hp, hk, rfl⟩ := (h k q).1 here
    refine ⟨List.mem_map_of_mem hp, (contains_iff valid).2 ⟨k, hk, leads⟩, List.forall_mem_map.2 fun q hq inside => ?_⟩
    obtain ⟨k', leads', here', bits⟩ := found q hq inside
    rw [bits, bits_of_key hk]
    by_contra longer
    simp [last k' leads' (not_le.1 longer)] at here'

theorem LongestMatch.unique {ps : List NetPrefix} (valid : a.isValid = true)
    {res res' : Option NetPrefix} (h : LongestMatch ps a res) (h' : LongestMatch ps a res') : res = res' := by
  rw [← isValid_unmap] at valid
  cases res with
  | none =>
    cases res' with
    | none => rfl
    | some p => exact absurd (h p h'.1) (by simp [h'.2.1])
  | some p =>
    cases res' with
    | none => exact absurd (h' p h.1) (by simp [h.2.1])
    | some q =>
      obtain ⟨hp, insideP, longestP⟩ := h
      obtain ⟨hq, insideQ, longestQ⟩ := h'
      have bits := le_antisymm (longestQ p hp insideP) (longestP q hq insideQ)
      obtain ⟨p, -, rfl⟩ := List.mem_map.1 hp
      obtain ⟨q, -, rfl⟩ := List.mem_map.1 hq
      obtain ⟨k, hk, leads⟩ := (contains_iff valid).1 insideP
      obtain ⟨k', hk', leads'⟩ := (contains_iff valid).1 insideQ
      rw [bits_of_key hk, bits_of_key hk'] at bits
      obtain rfl := (List.prefix_of_prefix_length_le leads leads' bits.le).eq_of_length bits
      rw [mask_eq_of_key hk hk']

structure Rib.Holds (r : Rib) (ps : List NetPrefix) : Prop where
  v4 : Keeps r.v4 true ps
  v6 : Keeps r.v6 false ps

namespace Rib.Holds

variable {r : Rib} {ps qs : List NetPrefix}

theorem addPrefix (h : r.Holds ps) {p : NetPrefix} (valid : p.isValid = true) (plain : ¬ p.Mapped) :
    ∃ r', r.addPrefix p = .ok r' ∧ r'.Holds (ps ++ [p]) := by
  cases p with
  | zero => cases valid
  | v4 a n => exact ⟨_, r.addPrefix_v4 a n, h.v4.insert rfl, h.v6.pass rfl⟩
  | v6 a n => exact ⟨_, r.addPrefix_v6 plain, h.v4.pass rfl, h.v6.insert rfl⟩

theorem loadPrefixes (h : r.Holds ps) (valid : ∀ p ∈ qs, p.isValid = true) (plain : ∀ p ∈ qs, ¬ p.Mapped) :
    ∃ r', r.loadPrefixes qs = .ok r' ∧ r'.Holds (ps ++ qs) := by
  induction qs generalizing r ps with
  | nil => exact ⟨r, rfl, by simpa using h⟩
  | cons p qs ih =>
    obtain ⟨validP, validQs⟩ := List.forall_mem_cons.1 valid
    obtain ⟨plainP, plainQs⟩ := List.forall_mem_cons.1 plain
    obtain ⟨r₁, added, h₁⟩ := h.addPrefix validP plainP
    obtain ⟨r', loaded, h'⟩ := ih h₁ validQs plainQs
    refine ⟨r', ?_, by simpa using h'⟩
    rw [Rib.loadPrefixes, List.foldlM_cons, added]
    exact loaded

theorem lookup (h : r.Holds ps) {a : NetAddr} (valid : a.isValid = true) :
    ∃ res, r.lookup a = .ok res ∧ LongestMatch ps a res := by
  refine ⟨_, r.lookup_eq valid, Keeps.longest valid ?_⟩
  cases a.unmap.is4
  · exact h.v6
  · exact h.v4

theorem loadPrefixes_panic (h : r.Holds ps) (valid : ∀ p ∈ qs, p.isValid = true) {p : NetPrefix} (hp : p ∈ qs)
    (mapped : p.Mapped) : r.loadPrefixes qs = .panic := by
  induction qs generalizing r ps with
  | nil => cases hp
  | cons q qs ih =>
    obtain ⟨validQ, validQs⟩ := List.forall_mem_cons.1 valid
    rw [Rib.loadPrefixes, List.foldlM_cons]
    by_cases first : q.Mapped
    · rw [r.addPrefix_mapped first]
      rfl
    · obtain ⟨r₁, added, h₁⟩ := h.addPrefix validQ first
      rw [added]
      rcases List.mem_cons.1 hp with rfl | hp
      · exact absurd mapped first
      · exact ih h₁ validQs hp

end Rib.Holds

/-- The prefixes can be added, in any order and any number of times, and an address is then answered by its longest
match. -/
def MatchesLongest (ps : List NetPrefix) : Prop :=
  ∃ r, newRib.loadPrefixes ps = .ok r ∧ ∀ a : NetAddr, a.isValid = true →
    (∃ res, r.lookup a = .ok res ∧ LongestMatch ps a res) ∧
    ∀ qs : List NetPrefix, (∀ p, p ∈ qs ↔ p ∈ ps) → ∃ r', newRib.loadPrefixes qs = .ok r' ∧ r'.lookup a = r.lookup a

theorem LongestMatch.of_mem_iff {ps qs : List NetPrefix} (same : ∀ p, p ∈ qs ↔ p ∈ ps)
    {res : Option NetPrefix} (h : LongestMatch qs a res) : LongestMatch ps a res := by
  cases res <;> simpa only [LongestMatch, List.mem_map, same] using h

theorem Rib.Holds.new : newRib.Holds [] := ⟨Keeps.empty true, Keeps.empty false⟩

/-- A list of prefixes is matched as it should be, unless one of them is IPv4-mapped: then it cannot be added. -/
theorem lookup_longest_iff {ps : List NetPrefix} (valid : ∀ p ∈ ps, p.isValid = true) :
    MatchesLongest ps ↔ ∀ p ∈ ps, ¬ p.Mapped := by
  constructor
  · rintro ⟨r, loaded, -⟩ p hp mapped
    rw [Rib.Holds.new.loadPrefixes_panic valid hp mapped] at loaded
    cases loaded
  · intro plain
    obtain ⟨r, loaded, holds⟩ := Rib.Holds.new.loadPrefixes valid plain
    refine ⟨r, loaded, fun a ha => ?_⟩
    obtain ⟨res, answer, longest⟩ := holds.lookup ha
    refine ⟨⟨res, answer, longest⟩, fun qs same => ?_⟩
    obtain ⟨r', loaded', holds'⟩ := Rib.Holds.new.loadPrefixes (fun p hp => valid p ((same p).1 hp))
      fun p hp => plain p ((same p).1 hp)
    obtain ⟨res', answer', longest'⟩ := holds'.lookup ha
    refine ⟨r', loaded', ?_⟩
    rw [answer, answer', longest.unique ha (longest'.of_mem_iff same)]

theorem lookup_longest_iff_two : MatchesLongest [.v4 0x0a000000 8, .v6 0x20010db8000000000000000000000000 32] :=
  (lookup_longest_iff (by decide)).2 (by simp [NetPrefix.Mapped])

/-- The RIB cannot take `::ffff:10.0.0.0/104`. -/
theorem mapped_prefix_panics :
    newRib.addPrefix (.v6 0xffff0a000000 104) = .panic ∧ ¬ MatchesLongest [.v6 0xffff0a000000 104] := by
  have mapped : (NetPrefix.v6 0xffff0a000000 104).Mapped := ⟨by decide, by decide⟩
  refine ⟨newRib.addPrefix_mapped mapped, fun ⟨r, loaded, _⟩ => ?_⟩
  rw [Rib.Holds.new.loadPrefixes_panic (by decide) (List.mem_singleton_self _) mapped] at loaded
  cases loaded

end Measurement

end Egressa
