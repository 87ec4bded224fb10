import Egressa.Conc.Machine
import Egressa.Maps
import Egressa.Records
import Egressa.Strconv

/-!
# Rules for the egresses

An `EgressRouteTable` (`internal/tunnel/bucketroute.go`) gives each egress a mark and a routing table, and `Apply`
installs the rule that sends the one to the other, unless it finds its numbers, as texts, among the rules of the host.
-/

namespace Egressa.Tunnel

open Conc (Runs)
open Maps (Map lookup_insert_eq)

structure RouteInfo where
  /-- Nothing for the address that is not valid. -/
  gateway : Option Addr
  interface : String
  deriving DecidableEq

structure EgressEntry where
  mark : UInt32
  tableID : Int64
  route : RouteInfo
  deriving DecidableEq

structure EgressRouteTable where
  nextMark : UInt32
  nextTableID : Int64
  egresses : Map String EgressEntry

structure EgressRule where
  pref : ℕ
  mark : UInt32
  table : Int64
  deriving DecidableEq

/-- The rules and routes of a host. -/
structure IpHost where
  rules : List EgressRule
  routes : Map Int64 RouteInfo

/-- The errors of the commands of an `Apply`, where they fail. -/
structure IpErrors where
  ruleShow : Option String := none
  ruleAdd : Option String := none
  routeReplace : Option String := none

def newEgressRouteTable (baseTableID : Int64) : EgressRouteTable := ⟨1, baseTableID, ∅⟩

/-- An egress gets a mark and a table, once. -/
def EgressRouteTable.registerEgress (t : EgressRouteTable) (id : String) (route : RouteInfo) :
    UInt32 × EgressRouteTable :=
  match t.egresses.lookup id with
  | some e => (e.mark, t)
  | none => (t.nextMark,
      ⟨t.nextMark + 1, t.nextTableID + 1, t.egresses.insert id ⟨t.nextMark, t.nextTableID, route⟩⟩)

def markHex (mark : UInt32) : List Char := "0x".toList ++ Nat.toDigits 16 mark.toNat

/-- `strconv.Itoa`. -/
def itoa (n : Int64) : List Char := (if n < 0 then ['-'] else []) ++ Nat.toDigits 10 n.toInt.natAbs

def EgressRule.line (r : EgressRule) : List Char :=
  Nat.toDigits 10 r.pref ++ ": from all fwmark ".toList ++ markHex r.mark ++ " lookup ".toList ++ itoa r.table

def IpHost.ruleShow (h : IpHost) : List Char := ['\n'].intercalate (h.rules.map EgressRule.line ++ [[]])

/-- Looks for the rule in the output of `ip rule show`. -/
def hasRule (out : List Char) (mark : UInt32) (tableID : Int64) : Bool :=
  let markNeedle := "fwmark ".toList ++ markHex mark
  let tableNeedle := "lookup ".toList ++ itoa tableID
  (out.splitOn '\n').any fun line => markNeedle <:+: line && tableNeedle <:+: line

/-- `Apply`, if the host gives a new rule the place `pref`. -/
def EgressRouteTable.apply (t : EgressRouteTable) (quote : String → String) (h : IpHost) (id : String) (pref : ℕ)
    (errs : IpErrors) : Except String Unit × IpHost :=
  match t.egresses.lookup id with
  | none => (.error ("tunnel: egress " ++ quote id ++ " was never registered"), h)
  | some e =>
    match errs.ruleShow with
    | some err =>
      (.error ("tunnel: check existing ip rule for egress " ++ quote id ++ ": tunnel: ip rule show: " ++ err), h)
    | none =>
      let replace (h : IpHost) : Except String Unit × IpHost :=
        match errs.routeReplace with
        | some err => (.error ("tunnel: set route for egress " ++ quote id ++ ": " ++ err), h)
        | none => (.ok (), { h with routes := h.routes.insert e.tableID e.route })
      if hasRule h.ruleShow e.mark e.tableID then replace h
      else
        match errs.ruleAdd with
        | some err => (.error ("tunnel: add ip rule for egress " ++ quote id ++ ": " ++ err), h)
        | none => replace { h with rules := ⟨pref, e.mark, e.tableID⟩ :: h.rules }

section Lines

theorem EgressRule.line_mark (r : EgressRule) : r.line = (Nat.toDigits 10 r.pref ++ ": from all f".toList) ++ 'w' ::
    ("mark 0x".toList ++ (Nat.toDigits 16 r.mark.toNat ++ ' ' :: ("lookup ".toList ++ itoa r.table))) := by
  simp [line, markHex]

theorem EgressRule.line_table (r : EgressRule) : r.line =
    (Nat.toDigits 10 r.pref ++ ": from all fwmark ".toList ++ markHex r.mark ++ " looku".toList) ++ 'p' ::
      (' ' :: itoa r.table) := by
  simp [line, markHex]

theorem notMem_itoa {c : Char} (h : ∀ d < 10, c ≠ Nat.digitChar d) (minus : c ≠ '-') (n : Int64) : c ∉ itoa n := by
  have := notMem_toDigits (by omega) h n.toInt.natAbs
  unfold itoa
  split_ifs <;> simp [minus, this]

theorem mark_infix_line (mark : UInt32) (r : EgressRule) :
    "fwmark ".toList ++ markHex mark <:+: r.line ↔ Nat.toDigits 16 mark.toNat <+: Nat.toDigits 16 r.mark.toNat := by
  have needle : "fwmark ".toList ++ markHex mark =
      ['f'] ++ 'w' :: ("mark 0x".toList ++ Nat.toDigits 16 mark.toNat) := by simp [markHex]
  rw [needle, r.line_mark, infix_iff_of_once, List.prefix_append_right_inj, prefix_append_cons_iff, and_iff_right]
  · exact ⟨Nat.toDigits 10 r.pref ++ ": from all ".toList, by simp⟩
  · exact notMem_toDigits (by omega) (by decide) _
  · simp [notMem_toDigits (c := 'w') (b := 10) (by omega) (by decide) r.pref]
  · simp [notMem_toDigits (c := 'w') (b := 16) (by omega) (by decide) r.mark.toNat,
      notMem_itoa (c := 'w') (by decide) (by decide) r.table]

theorem table_infix_line (table : Int64) (r : EgressRule) :
    "lookup ".toList ++ itoa table <:+: r.line ↔ itoa table <+: itoa r.table := by
  have needle : "lookup ".toList ++ itoa table = "looku".toList ++ 'p' :: (' ' :: itoa table) := by simp
  rw [needle, r.line_table, infix_iff_of_once, List.prefix_cons_inj, and_iff_right]
  · exact ⟨Nat.toDigits 10 r.pref ++ ": from all fwmark ".toList ++ markHex r.mark ++ [' '], by simp⟩
  · simp [markHex, notMem_toDigits (c := 'p') (b := 10) (by omega) (by decide) r.pref,
      notMem_toDigits (c := 'p') (b := 16) (by omega) (by decide) r.mark.toNat]
  · simp [notMem_itoa (c := 'p') (by decide) (by decide) r.table]

theorem newline_notMem_line (r : EgressRule) : '\n' ∉ r.line := by
  simp [EgressRule.line, markHex, notMem_toDigits (c := '\n') (b := 10) (by omega) (by decide) r.pref,
    notMem_toDigits (c := '\n') (b := 16) (by omega) (by decide) r.mark.toNat,
    notMem_itoa (c := '\n') (by decide) (by decide) r.table]

end Lines

/-- A rule whose numbers begin with those of an egress, as they are written. -/
def EgressRule.Extends (r : EgressRule) (mark : UInt32) (tableID : Int64) : Prop :=
  Nat.toDigits 16 mark.toNat <+: Nat.toDigits 16 r.mark.toNat ∧ itoa tableID <+: itoa r.table

theorem hasRule_iff (h : IpHost) (mark : UInt32) (tableID : Int64) :
    hasRule h.ruleShow mark tableID = true ↔ ∃ r ∈ h.rules, r.Extends mark tableID := by
  have lines : h.ruleShow.splitOn '\n' = h.rules.map EgressRule.line ++ [[]] := by
    refine List.splitOn_intercalate '\n' (fun l hl => ?_) (by simp)
    rcases List.mem_append.1 hl with hl | hl
    · obtain ⟨r, -, rfl⟩ := List.mem_map.1 hl
      exact newline_notMem_line r
    · simp [List.mem_singleton.1 hl]
  rw [hasRule, lines, List.any_eq_true]
  constructor
  · rintro ⟨line, hline, found⟩
    rw [Bool.and_eq_true, decide_eq_true_iff, decide_eq_true_iff] at found
    rcases List.mem_append.1 hline with hline | hline
    · obtain ⟨r, hr, rfl⟩ := List.mem_map.1 hline
      exact ⟨r, hr, (mark_infix_line mark r).1 found.1, (table_infix_line tableID r).1 found.2⟩
    · rw [List.mem_singleton.1 hline, List.infix_nil] at found
      cases found.1
  · rintro ⟨r, hr, marked, tabled⟩
    refine ⟨r.line, List.mem_append_left _ (List.mem_map_of_mem hr), ?_⟩
    rw [Bool.and_eq_true, decide_eq_true_iff, decide_eq_true_iff]
    exact ⟨(mark_infix_line mark r).2 marked, (table_infix_line tableID r).2 tabled⟩

def IpHost.count (h : IpHost) (mark : UInt32) (tableID : Int64) : ℕ :=
  h.rules.countP fun r => r.mark = mark ∧ r.table = tableID

/-- Where the numbers of a rule begin with those of the egress, the rule of the egress is listed as well. -/
def IpHost.Clear (h : IpHost) (e : EgressEntry) : Prop :=
  ∀ r ∈ h.rules, r.Extends e.mark e.tableID → ∃ r' ∈ h.rules, r'.mark = e.mark ∧ r'.table = e.tableID

namespace IpHost

variable {h : IpHost} {e : EgressEntry}

theorem count_pos_iff {mark : UInt32} {tableID : Int64} :
    0 < h.count mark tableID ↔ ∃ r ∈ h.rules, r.mark = mark ∧ r.table = tableID := by
  simp [count, List.countP_pos_iff]

theorem hasRule_of_count_pos (listed : 0 < h.count e.mark e.tableID) :
    hasRule h.ruleShow e.mark e.tableID = true := by
  obtain ⟨r, hr, mark, table⟩ := count_pos_iff.1 listed
  exact (hasRule_iff h _ _).2 ⟨r, hr, by rw [mark], by rw [table]⟩

theorem count_eq_zero (missing : hasRule h.ruleShow e.mark e.tableID = false) : h.count e.mark e.tableID = 0 := by
  by_contra listed
  simp [hasRule_of_count_pos (Nat.pos_of_ne_zero listed)] at missing

theorem clear_iff : h.Clear e ↔ (hasRule h.ruleShow e.mark e.tableID = true → 0 < h.count e.mark e.tableID) := by
  rw [hasRule_iff, count_pos_iff]
  exact ⟨fun clear ⟨r, hr, found⟩ => clear r hr found, fun clear r hr found => clear ⟨r, hr, found⟩⟩

end IpHost

structure EgressSystem where
  table : EgressRouteTable
  host : IpHost

inductive EgressAct where
  | register (id : String) (route : RouteInfo)
  | apply (id : String) (pref : ℕ) (errs : IpErrors)

namespace EgressSystem

def step? (quote : String → String) (s : EgressSystem) : EgressAct → Option EgressSystem
  | .register id route => some { s with table := (s.table.registerEgress id route).2 }
  | .apply id pref errs => some { s with host := (s.table.apply quote s.host id pref errs).2 }

variable {quote : String → String} {s s' : EgressSystem} {id : String} {e : EgressEntry}

theorem rules_apply (quote : String → String) (t : EgressRouteTable) (h : IpHost) (id : String) (pref : ℕ)
    (errs : IpErrors) :
    (t.apply quote h id pref errs).2.rules = h.rules ∨
      ∃ e : EgressEntry, hasRule h.ruleShow e.mark e.tableID = false ∧
        (t.apply quote h id pref errs).2.rules = ⟨pref, e.mark, e.tableID⟩ :: h.rules := by
  unfold EgressRouteTable.apply
  cases t.egresses.lookup id with
  | none => exact Or.inl rfl
  | some e =>
    cases errs.ruleShow with
    | some err => exact Or.inl rfl
    | none =>
      dsimp only
      split_ifs with found
      · left
        cases errs.routeReplace <;> rfl
      · cases errs.ruleAdd with
        | some err => exact Or.inl rfl
        | none =>
          refine Or.inr ⟨e, Bool.eq_false_of_not_eq_true found, ?_⟩
          cases errs.routeReplace <;> rfl

theorem rules_apply_done (he : s.table.egresses.lookup id = some e) (pref : ℕ) :
    (s.table.apply quote s.host id pref {}).2.rules =
      if hasRule s.host.ruleShow e.mark e.tableID then s.host.rules
      else ⟨pref, e.mark, e.tableID⟩ :: s.host.rules := by
  simp only [EgressRouteTable.apply, he]
  cases hasRule s.host.ruleShow e.mark e.tableID <;> rfl

theorem count_step {act : EgressAct} (step : step? quote s act = some s') (mark : UInt32) (tableID : Int64)
    (once : s.host.count mark tableID ≤ 1) :
    s'.host.count mark tableID ≤ 1 ∧ s.host.count mark tableID ≤ s'.host.count mark tableID := by
  cases act with
  | register id route =>
    cases step
    exact ⟨once, le_rfl⟩
  | apply id pref errs =>
    cases step
    obtain same | ⟨e, missing, added⟩ := rules_apply quote s.table s.host id pref errs
    · simp only [IpHost.count, same]
      exact ⟨once, le_rfl⟩
    · simp only [IpHost.count, added, List.countP_cons]
      split_ifs with here
      · obtain ⟨rfl, rfl⟩ := of_decide_eq_true here
        exact ⟨Nat.succ_le_succ (IpHost.count_eq_zero missing).le, Nat.le_succ _⟩
      · exact ⟨once, le_rfl⟩

theorem count_runs (run : Runs (step? quote) (fun _ _ => True) s s') (mark : UInt32) (tableID : Int64)
    (once : s.host.count mark tableID ≤ 1) :
    s'.host.count mark tableID ≤ 1 ∧ s.host.count mark tableID ≤ s'.host.count mark tableID := by
  refine run.invariant (I := fun s' => s'.host.count mark tableID ≤ 1 ∧
    s.host.count mark tableID ≤ s'.host.count mark tableID) (fun s₁ act s₂ kept _ step => ?_) ⟨once, le_rfl⟩
  obtain ⟨once, grows⟩ := count_step step mark tableID kept.1
  exact ⟨once, kept.2.trans grows⟩

theorem count_apply_iff (quote : String → String) (he : s.table.egresses.lookup id = some e)
    (once : s.host.count e.mark e.tableID ≤ 1)
    (pref : ℕ) : (s.table.apply quote s.host id pref {}).2.count e.mark e.tableID = 1 ↔ s.host.Clear e := by
  rw [IpHost.count, rules_apply_done he, IpHost.clear_iff]
  cases found : hasRule s.host.ruleShow e.mark e.tableID with
  | true =>
    simp only [if_true, forall_const]
    change s.host.count _ _ = 1 ↔ _
    omega
  | false =>
    simpa [IpHost.count] using IpHost.count_eq_zero found

end EgressSystem

open EgressSystem

/-- No rule is ever listed twice, and after an `Apply` whose commands succeed that of the egress is there for good, if
and only if no other rule was taken for it. -/
theorem egress_rules_exact (quote : String → String) (baseTableID : Int64) (host : IpHost)
    (fresh : ∀ mark tableID, host.count mark tableID ≤ 1) (s : EgressSystem)
    (run : Runs (step? quote) (fun _ _ => True) ⟨newEgressRouteTable baseTableID, host⟩ s) :
    (∀ mark tableID, s.host.count mark tableID ≤ 1) ∧
    ∀ id e, s.table.egresses.lookup id = some e →
      ((hasRule s.host.ruleShow e.mark e.tableID = true ↔ s.host.count e.mark e.tableID = 1) ↔ s.host.Clear e) ∧
      ∀ pref s₁, step? quote s (.apply id pref {}) = some s₁ → (s₁.host.count e.mark e.tableID = 1 ↔ s.host.Clear e) ∧
        (s.host.Clear e → ∀ s₂, Runs (step? quote) (fun _ _ => True) s₁ s₂ → s₂.host.count e.mark e.tableID = 1) := by
  have once mark tableID := (count_runs run mark tableID (fresh mark tableID)).1
  refine ⟨once, fun id e he => ⟨?_, ?_⟩⟩
  · have := once e.mark e.tableID
    have := IpHost.hasRule_of_count_pos (h := s.host) (e := e)
    rw [IpHost.clear_iff]
    constructor
    · intro exact found
      exact (exact.1 found).symm ▸ Nat.one_pos
    · intro clear
      exact ⟨fun found => by have := clear found; omega, fun listed => this (by omega)⟩
  · rintro pref _ ⟨⟩
    have applied := count_apply_iff quote he (once e.mark e.tableID) pref
    refine ⟨applied, fun clear s₂ more => ?_⟩
    have applied := applied.2 clear
    obtain ⟨once, kept⟩ := count_runs more e.mark e.tableID applied.le
    exact le_antisymm once (applied ▸ kept)

theorem egress_rules_exact_first : ∃ s, Runs (step? id) (fun _ _ => True) ⟨newEgressRouteTable 100, ⟨[], ∅⟩⟩ s ∧
    s.table.egresses.lookup "a" = some ⟨1, 100, ⟨none, "eth0"⟩⟩ ∧
    ∀ s₁, step? id s (.apply "a" 32765 {}) = some s₁ → s₁.host.count 1 100 = 1 := by
  have run : Runs (step? id) (fun _ _ => True) ⟨newEgressRouteTable 100, ⟨[], ∅⟩⟩ _ :=
    Runs.refl.tail (e := .register "a" ⟨none, "eth0"⟩) trivial rfl
  have exact := (egress_rules_exact id 100 ⟨[], ∅⟩ (by simp [IpHost.count]) _ run).2 "a" _ rfl
  exact ⟨_, run, rfl, fun s₁ step => ((exact.2 32765 s₁ step).1).2 fun r hr => by cases hr⟩

/-- Sixteen egresses with tables from 1 on.  The last has mark 0x10 and table 16, and the first, applied after it,
finds its own numbers there. -/
theorem egress_rule_missing : ∃ s, Runs (step? id) (fun _ _ => True) ⟨newEgressRouteTable 1, ⟨[], ∅⟩⟩ s ∧
    ((s.table.egresses.lookup "0").map (fun e => (e.mark, e.tableID)), s.host.rules) =
      (some (1, 1), [⟨32765, 16, 16⟩]) := by
  refine Runs.exists_of_foldlM (step? id) _ (((List.range 16).map fun k => .register k.repr ⟨none, "eth0"⟩) ++
    [.apply "15" 32765 {}, .apply "0" 32764 {}]) _ ?_
  decide +kernel

end Egressa.Tunnel
