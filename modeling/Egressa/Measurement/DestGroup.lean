import Egressa.Measurement.Rib

/-!
# Destination groups

`DestinationGroups.Lookup` (`internal/measurement/destgroup.go`) groups a destination by the prefix that the RIB has
for it, and by a coarse one where it has none (`PrefixBits.Mask` in `egress.go`).  `Mask` takes the width for IPv4,
but of the whole address.  The trackers of the groups are left out.
-/

namespace Egressa

open Slices

namespace IPsec.NetAddr

def toPrefix (a : NetAddr) (b : ℤ) : Option NetPrefix :=
  if b < 0 then none
  else
    match a with
    | zero => some .zero
    | v4 a => if h : b.toNat < 33 then some (maskPrefix (.v4 a ⟨b.toNat, h⟩)) else none
    | v6 a _ => if h : b.toNat < 129 then some (maskPrefix (.v6 a ⟨b.toNat, h⟩)) else none

def bitLen : NetAddr → ℤ
  | zero => 0
  | v4 _ => 32
  | v6 _ _ => 128

theorem unmap_of_not_mapped {a : NetAddr} (h : a.is4In6 = false) : a.unmap = a := by
  cases a <;> simp [unmap, h]

theorem unmap_of_mapped {a : NetAddr} (h : a.is4In6 = true) : ∃ b, a.unmap = .v4 b := by
  cases a with
  | v6 a z => exact ⟨_, if_pos h⟩
  | zero => cases h
  | v4 a => cases h

end IPsec.NetAddr

namespace Measurement

open IPsec (NetAddr maskPrefix)

/-- A Go `string`. -/
structure PortClass where
  name : String
  deriving DecidableEq, Repr

def PortClass.dns : PortClass := ⟨"dns"⟩
def PortClass.web : PortClass := ⟨"web"⟩
def PortClass.quic : PortClass := ⟨"quic"⟩
def PortClass.other : PortClass := ⟨"other"⟩

def classifyPort (port : UInt16) (udp : Bool) : PortClass :=
  if port = 53 then .dns
  else if udp ∧ port = 443 then .quic
  else if !udp ∧ (port = 80 ∨ port = 443) then .web
  else .other

structure GroupKey where
  net : NetPrefix
  portClass : PortClass
  deriving DecidableEq, Repr

inductive MatchTier where
  | none
  | rib
  | coarseFallback
  deriving DecidableEq, Repr

structure PrefixBits where
  ipv4 : ℤ
  ipv6 : ℤ

def defaultPrefixBits : PrefixBits := ⟨24, 48⟩

/-- The network of an address that no prefix matches. -/
def PrefixBits.mask (b : PrefixBits) (addr : NetAddr) : NetPrefix :=
  let bits := if addr.is6 && !addr.is4In6 then b.ipv6 else b.ipv4
  match addr.toPrefix bits with
  | some p => p
  | none => (addr.toPrefix addr.bitLen).getD .zero

structure DestinationGroups where
  rib : Rib
  classify : UInt16 → Bool → PortClass
  fallback : PrefixBits

def newDestinationGroups (rib : Rib) (classify : Option (UInt16 → Bool → PortClass)) (fallback : PrefixBits) :
    DestinationGroups where
  rib
  classify := classify.getD classifyPort
  fallback :=
    { ipv4 := if fallback.ipv4 ≤ 0 then defaultPrefixBits.ipv4 else fallback.ipv4
      ipv6 := if fallback.ipv6 ≤ 0 then defaultPrefixBits.ipv6 else fallback.ipv6 }

/-- The group of a destination. -/
def DestinationGroups.lookup (g : DestinationGroups) (addr : NetAddr) (port : UInt16) (udp : Bool) :
    Outcome String (GroupKey × MatchTier) :=
  if !addr.isValid then .ok (⟨.zero, ⟨""⟩⟩, .none)
  else do
    match ← g.rib.lookup addr with
    | some p => return (⟨p, g.classify port udp⟩, .rib)
    | none => return (⟨g.fallback.mask addr, g.classify port udp⟩, .coarseFallback)

/-- The address is not IPv4-mapped, or the RIB has a prefix for its IPv4 form. -/
def Covered (ps : List NetPrefix) (a : NetAddr) : Prop :=
  a.is4In6 = true → ∃ p ∈ ps.map maskPrefix, p.contains a.unmap = true

theorem is4_toPrefix {a : NetAddr} {bits : ℤ} {p : NetPrefix} (h : a.toPrefix bits = some p) : p.is4 = a.is4 := by
  unfold NetAddr.toPrefix at h
  cases a <;> dsimp only at h <;> split_ifs at h <;> cases h <;> rfl

theorem is4_mask (b : PrefixBits) (a : NetAddr) : (b.mask a).is4 = a.is4 := by
  unfold PrefixBits.mask
  dsimp only
  split
  next h => exact is4_toPrefix h
  next => cases a <;> rfl

theorem lookup_unmap_iff {ps : List NetPrefix} {g : DestinationGroups} (holds : g.rib.Holds ps) {a : NetAddr}
    (valid : a.isValid = true) (port : UInt16) (udp : Bool) :
    g.lookup a port udp = g.lookup a.unmap port udp ↔ Covered ps a := by
  cases mapped : a.is4In6 with
  | false => simp [NetAddr.unmap_of_not_mapped mapped, Covered, mapped]
  | true =>
    obtain ⟨b, hb⟩ := NetAddr.unmap_of_mapped mapped
    obtain ⟨res, answer, longest⟩ := holds.lookup valid
    have answer' : g.rib.lookup a.unmap = .ok res := by
      rw [← answer, g.rib.lookup_eq valid, g.rib.lookup_eq ((isValid_unmap a).trans valid), hb]
      rfl
    have valid' := (isValid_unmap a).trans valid
    unfold DestinationGroups.lookup
    rw [valid, valid', answer, answer']
    cases res with
    | some p => exact iff_of_true rfl fun _ => ⟨p, longest.1, longest.2.1⟩
    | none =>
      have uncovered : ¬ Covered ps a := fun covered => by
        obtain ⟨p, hp, inside⟩ := covered mapped
        simp [longest p hp] at inside
      refine iff_of_false (fun same => ?_) uncovered
      have net := congrArg (fun o : GroupKey × MatchTier => o.1.net.is4) (Outcome.ok.inj same)
      simp only [is4_mask, hb] at net
      cases a with
      | v6 a z => cases net
      | zero => cases mapped
      | v4 a => cases mapped

/-- Two addresses are grouped as their IPv4 forms are, and share a group if and only if these do, iff the RIB has
prefixes for them, as far as they are IPv4-mapped. -/
theorem grouped_iff {ps : List NetPrefix} (valid : ∀ p ∈ ps, p.isValid = true) (plain : ∀ p ∈ ps, ¬ p.Mapped) {r : Rib}
    (loaded : newRib.loadPrefixes ps = .ok r) (classify : Option (UInt16 → Bool → PortClass)) (fallback : PrefixBits)
    {a b : NetAddr} (ha : a.isValid = true) (hb : b.isValid = true) (port port' : UInt16) (udp udp' : Bool) :
    let g := newDestinationGroups r classify fallback
    let shares (a b : NetAddr) := ∃ key t t', g.lookup a port udp = .ok (key, t) ∧ g.lookup b port' udp' = .ok (key, t')
    (g.lookup a port udp = g.lookup a.unmap port udp ∧ g.lookup b port' udp' = g.lookup b.unmap port' udp' ∧
      (shares a b ↔ shares a.unmap b.unmap)) ↔ Covered ps a ∧ Covered ps b := by
  intro g shares
  have holds : g.rib.Holds ps := by
    obtain ⟨r', loaded', holds⟩ := Rib.Holds.new.loadPrefixes valid plain
    cases loaded.symm.trans loaded'
    exact holds
  rw [← lookup_unmap_iff holds ha port udp, ← lookup_unmap_iff holds hb port' udp', ← and_assoc]
  refine and_iff_left_of_imp fun ⟨same, same'⟩ => ?_
  simp only [shares, same, same']

theorem grouped_iff_two : ∃ r, newRib.loadPrefixes [.v4 0x0a000000 8] = .ok r ∧
    let g := newDestinationGroups r none ⟨0, 0⟩
    g.lookup (.v6 0xffff0a010203 "") 443 false = g.lookup (.v4 0x0a010203) 443 false := by
  obtain ⟨r, loaded, -⟩ := Rib.Holds.new.loadPrefixes (show ∀ p ∈ [NetPrefix.v4 0x0a000000 8], _ from by decide)
    (by simp [NetPrefix.Mapped])
  have covered : Covered [.v4 0x0a000000 8] (.v6 0xffff0a010203 "") := fun _ =>
    ⟨.v4 0x0a000000 8, by decide, by decide⟩
  exact ⟨r, loaded, ((grouped_iff (by decide) (by simp [NetPrefix.Mapped]) loaded none ⟨0, 0⟩ rfl rfl 443 443 false
    false).2 ⟨covered, covered⟩).1⟩

/-- Without prefixes for them, `::ffff:1.2.3.4` and `::ffff:9.9.9.9` are of one group, and `1.2.3.4` of another. -/
theorem mapped_addresses_lumped :
    let g := newDestinationGroups newRib none ⟨0, 0⟩
    g.lookup (.v6 0xffff01020304 "") 443 false = .ok (⟨.v6 0 24, .web⟩, .coarseFallback) ∧
    g.lookup (.v6 0xffff09090909 "") 443 false = .ok (⟨.v6 0 24, .web⟩, .coarseFallback) ∧
    g.lookup (.v4 0x01020304) 443 false = .ok (⟨.v4 0x01020300 24, .web⟩, .coarseFallback) := by
  decide

end Measurement

end Egressa
