import Egressa.IPsec.Config
import Egressa.Strconv

/-!
# Names of CHILD_SAs

The name of a CHILD_SA is made of the connection and the epoch (`internal/ipsec/config.go`), and is the only thing by
which the fence (`internal/ipsec/client.go`) knows what is of an older epoch.
-/

namespace Egressa.IPsec

/-! ## The last occurrence -/

def lastIndex (sep : List Char) : List Char → Option ℕ
  | [] => if sep = [] then some 0 else none
  | c :: s =>
    match lastIndex sep s with
    | some i => some (i + 1)
    | none => if sep <+: c :: s then some 0 else none

theorem lastIndex_append {sep s : List Char} {i : ℕ} (h : lastIndex sep s = some i) (before : List Char) :
    lastIndex sep (before ++ s) = some (before.length + i) := by
  induction before with
  | nil => rw [List.nil_append, h, List.length_nil, Nat.zero_add]
  | cons c before ih =>
    rw [List.cons_append, lastIndex, ih]
    simp only [List.length_cons]
    congr 1
    omega

theorem of_lastIndex {sep s : List Char} {i : ℕ} (h : lastIndex sep s = some i) :
    s = s.take i ++ sep ++ s.drop (i + sep.length) := by
  induction s generalizing i with
  | nil =>
    unfold lastIndex at h
    split_ifs at h with empty
    rw [empty]
    simp
  | cons c s ih =>
    unfold lastIndex at h
    cases found : lastIndex sep s with
    | some j =>
      rw [found] at h
      cases h
      have rest := ih found
      rw [List.take_succ_cons, List.cons_append, List.cons_append, Nat.add_right_comm, List.drop_succ_cons, ← rest]
    | none =>
      rw [found] at h
      simp only at h
      split_ifs at h with here
      cases h
      obtain ⟨rest, hrest⟩ := here
      rw [← hrest]
      simp

theorem lastIndex_eq_none {c : Char} {sep s : List Char} (absent : c ∉ s) : lastIndex (c :: sep) s = none := by
  induction s with
  | nil => rfl
  | cons d s ih =>
    rw [lastIndex, ih (fun h => absent (List.mem_cons_of_mem _ h))]
    refine if_neg fun here => absent ?_
    exact here.subset List.mem_cons_self

/-! ## Reading a name -/

def parseChildName (child : String) : Option (String × UInt64) :=
  match lastIndex ['-', 'e'] child.toList with
  | none => none
  | some i =>
    if i = 0 ∨ child.toList.length ≤ i + 2 then none
    else
      let digits := child.toList.drop (i + 2)
      if digits.head? = some '+' ∨ digits.head? = some '-' ∨ (1 < digits.length ∧ digits.head? = some '0') then none
      else (parseUint (String.ofList digits)).map fun epoch => (String.ofList (child.toList.take i), epoch)

theorem digits_formatUint (epoch : UInt64) : ∀ c ∈ (formatUint epoch).toList, c.isDigit := by
  intro c hc
  rw [formatUint, Nat.toList_repr] at hc
  exact Nat.isDigit_of_mem_toDigits (by omega) (by omega) hc

theorem childName_toList (conn : String) (epoch : UInt64) :
    (childName conn epoch).toList = conn.toList ++ '-' :: 'e' :: (formatUint epoch).toList := by
  simp [childName, formatUint]

theorem lastIndex_childName (conn : String) (epoch : UInt64) :
    lastIndex ['-', 'e'] (childName conn epoch).toList = some conn.toList.length := by
  have absent : ∀ c, ¬ c.isDigit → c ∉ (formatUint epoch).toList := fun c no hc => no (digits_formatUint epoch c hc)
  have here : lastIndex ['-', 'e'] ('-' :: 'e' :: (formatUint epoch).toList) = some 0 := by
    have after : lastIndex ['-', 'e'] ('e' :: (formatUint epoch).toList) = none :=
      lastIndex_eq_none (by
        rw [List.mem_cons, not_or]
        exact ⟨by decide, absent '-' (by decide)⟩)
    rw [lastIndex, after]
    exact if_pos ⟨_, rfl⟩
  rw [childName_toList]
  exact lastIndex_append here conn.toList

theorem parseChildName_childName {conn : String} (named : conn ≠ "") (epoch : UInt64) :
    parseChildName (childName conn epoch) = some (conn, epoch) := by
  have before : (childName conn epoch).toList.take conn.toList.length = conn.toList := by
    rw [childName_toList, List.take_left]
  have after : (childName conn epoch).toList.drop (conn.toList.length + 2) = (formatUint epoch).toList := by
    rw [childName_toList, ← List.drop_drop, List.drop_left]
    rfl
  have some_ : (formatUint epoch).toList ≠ [] := by
    rw [formatUint, Nat.toList_repr]
    exact Nat.toDigits_ne_nil
  have room : ¬ (conn.toList.length = 0 ∨ (childName conn epoch).toList.length ≤ conn.toList.length + 2) := by
    have := List.length_pos_iff.mpr some_
    have := List.length_pos_iff.mpr fun h => named (String.toList_eq_nil_iff.mp h)
    rw [childName_toList, List.length_append, List.length_cons, List.length_cons]
    omega
  have digit : ∀ c, (formatUint epoch).toList.head? = some c → c.isDigit := fun c hc =>
    digits_formatUint epoch c (List.mem_of_mem_head? hc)
  have plain : ¬ ((formatUint epoch).toList.head? = some '+' ∨ (formatUint epoch).toList.head? = some '-' ∨
      (1 < (formatUint epoch).toList.length ∧ (formatUint epoch).toList.head? = some '0')) := by
    rintro (h | h | ⟨long, h⟩)
    · exact absurd (digit _ h) (by decide)
    · exact absurd (digit _ h) (by decide)
    · rcases formatUint_lead epoch with short | lead
      · omega
      · exact lead h
  rw [parseChildName, lastIndex_childName]
  simp only [if_neg room, after, if_neg plain, before, String.ofList_toList, parseUint_formatUint, Option.map_some]

theorem childName_of_parseChildName {child conn : String} {epoch : UInt64}
    (h : parseChildName child = some (conn, epoch)) : conn ≠ "" ∧ childName conn epoch = child := by
  unfold parseChildName at h
  cases found : lastIndex ['-', 'e'] child.toList with
  | none =>
    rw [found] at h
    cases h
  | some i =>
    rw [found] at h
    simp only at h
    split_ifs at h with short sign
    obtain ⟨e, value, heq⟩ := Option.map_eq_some_iff.mp h
    cases heq
    rw [not_or, not_le] at short
    have lead : (String.ofList (child.toList.drop (i + 2))).toList.length ≤ 1 ∨
        (String.ofList (child.toList.drop (i + 2))).toList.head? ≠ some '0' := by
      rw [String.toList_ofList]
      by_contra no
      rw [not_or, not_le, not_not] at no
      exact sign (.inr (.inr no))
    have digits := formatUint_of_parseUint value lead
    constructor
    · intro empty
      have front : (child.toList.take i).length = "".toList.length := by rw [← empty, String.toList_ofList]
      have zero : "".toList.length = 0 := rfl
      rw [List.length_take] at front
      omega
    · apply String.toList_injective
      rw [childName_toList, digits, String.toList_ofList, String.toList_ofList]
      conv_rhs => rw [of_lastIndex found]
      simp

theorem childName_inj {conn conn' : String} {epoch epoch' : UInt64}
    (h : childName conn epoch = childName conn' epoch') : conn = conn' ∧ epoch = epoch' := by
  have lists := congrArg String.toList h
  have lengths := lastIndex_childName conn epoch
  rw [h, lastIndex_childName] at lengths
  rw [childName_toList, childName_toList] at lists
  obtain ⟨front, back⟩ := List.append_inj lists (Option.some.inj lengths).symm
  have digits : (formatUint epoch).toList = (formatUint epoch').toList := by simpa using back
  exact ⟨String.toList_injective front, formatUint_inj.mp (String.toList_injective digits)⟩

/-! ## The fence -/

structure ChildSA where
  name : String
  uniqueID : UInt64
  deriving DecidableEq, Repr

structure IKESA where
  children : List ChildSA
  deriving DecidableEq, Repr

/-- A child of the connection at an older epoch. -/
def fenced (conn : String) (epoch : UInt64) (child : ChildSA) : Bool :=
  match parseChildName child.name with
  | some (owner, e) => owner = conn && e < epoch
  | none => false

/-- A turn of the inner loop of `fenceBelow`: the children it terminates, and its errors.  A `TerminateChild` that
finds nothing is no error (`terminate` gives `none`). -/
def fenceChild (terminate : UInt64 → Option String) (conn : String) (epoch : UInt64)
    (acc : List UInt64 × List String) (child : ChildSA) : List UInt64 × List String :=
  if fenced conn epoch child then (acc.1 ++ [child.uniqueID], acc.2 ++ (terminate child.uniqueID).toList) else acc

/-- Terminates the older children of a connection. -/
def fenceBelow (terminate : UInt64 → Option String) (conn : String) (epoch : UInt64) (sas : List IKESA) :
    List UInt64 × List String :=
  sas.foldl (fun acc sa => sa.children.foldl (fenceChild terminate conn epoch) acc) ([], [])

theorem fenced_iff {conn : String} {epoch : UInt64} {child : ChildSA} :
    fenced conn epoch child = true ↔ conn ≠ "" ∧ ∃ e < epoch, child.name = childName conn e := by
  unfold fenced
  cases parsed : parseChildName child.name with
  | none =>
    refine ⟨fun h => (by cases h), ?_⟩
    rintro ⟨named, e, -, name⟩
    rw [name, parseChildName_childName named] at parsed
    cases parsed
  | some p =>
    obtain ⟨owner, e⟩ := p
    obtain ⟨named, name⟩ := childName_of_parseChildName parsed
    simp only [Bool.and_eq_true, decide_eq_true_iff]
    constructor
    · rintro ⟨rfl, below⟩
      exact ⟨named, e, below, name.symm⟩
    · rintro ⟨-, e', below, name'⟩
      obtain ⟨rfl, rfl⟩ := childName_inj (name.trans name')
      exact ⟨rfl, below⟩

section Fence

variable (terminate : UInt64 → Option String) (conn : String) (epoch : UInt64)

theorem foldl_fenceChild (children : List ChildSA) (acc : List UInt64 × List String) :
    (children.foldl (fenceChild terminate conn epoch) acc).1 =
      acc.1 ++ (children.filter (fenced conn epoch)).map ChildSA.uniqueID := by
  induction children generalizing acc with
  | nil => simp
  | cons child children ih =>
    rw [List.foldl_cons, ih, fenceChild]
    by_cases h : fenced conn epoch child = true
    · simp [h]
    · simp [h]

theorem fenceBelow_terminates (sas : List IKESA) : (fenceBelow terminate conn epoch sas).1 =
      ((sas.flatMap IKESA.children).filter (fenced conn epoch)).map ChildSA.uniqueID := by
  suffices ∀ acc : List UInt64 × List String,
      (sas.foldl (fun acc (sa : IKESA) => sa.children.foldl (fenceChild terminate conn epoch) acc) acc).1 =
      acc.1 ++ ((sas.flatMap IKESA.children).filter (fenced conn epoch)).map ChildSA.uniqueID from this ([], [])
  intro acc
  induction sas generalizing acc with
  | nil => simp
  | cons sa sas ih =>
    rw [List.foldl_cons, ih, foldl_fenceChild, List.flatMap_cons, List.filter_append, List.map_append,
      List.append_assoc]

end Fence

open Classical in
/-- Names are read back as they were made, and no others are read.  So the fence ends just the children of the
connection that are of an older epoch. -/
theorem child_names_faithful :
    (∀ conn epoch, conn ≠ "" → parseChildName (childName conn epoch) = some (conn, epoch)) ∧
    (∀ child conn epoch, parseChildName child = some (conn, epoch) → childName conn epoch = child) ∧
    (∀ conn conn' epoch epoch', childName conn epoch = childName conn' epoch' → conn = conn' ∧ epoch = epoch') ∧
    ∀ terminate conn epoch sas, (fenceBelow terminate conn epoch sas).1 =
      ((sas.flatMap IKESA.children).filter fun child =>
        conn ≠ "" ∧ ∃ e < epoch, child.name = childName conn e).map ChildSA.uniqueID := by
  refine ⟨fun conn epoch named => parseChildName_childName named epoch,
    fun child conn epoch h => (childName_of_parseChildName h).2, fun _ _ _ _ => childName_inj, ?_⟩
  intro terminate conn epoch sas
  rw [fenceBelow_terminates]
  refine congrArg (List.map ChildSA.uniqueID) (List.filter_congr fun child _ => ?_)
  rw [Bool.eq_iff_iff, fenced_iff, decide_eq_true_iff]

end Egressa.IPsec
