import Egressa.IPsec.Client

/-!
# Routes alone

`routeSet.apply` (`internal/ipsec/routes.go`), run by itself on the routing tables of a kernel.  If a replace fails it
undoes the others by what it has installed itself.
-/

namespace Egressa.IPsec

open Conc Maps
open Function (comp_def update update_of_ne)

abbrev Routes : Type := ℤ × NetPrefix → Option Route

/-- Whether an operation fails, if it makes a change, and if it undoes one. -/
structure Chance where
  fails : Option Sentinel := none
  undoFails : Option Sentinel := none

def Chance.of (c : Chance) : Bool → Option Sentinel
  | true => c.undoFails
  | false => c.fails

/-- What `apply` changes: a route table and the record of it. -/
structure RouteHost where
  routes : Routes
  installed : Map NetPrefix Route
  plan : ℕ → Chance

namespace RouteHost

/-- One write of the table, which may fail. -/
def write (s : RouteHost) (undo : Bool) (key : ℤ × NetPrefix) (r : Option Route) : Except Err Unit × RouteHost :=
  match (s.plan 0).of undo with
  | some e => (.error (.host e), { s with plan := fun n => s.plan (n + 1) })
  | none => (.ok (), { s with routes := update s.routes key r, plan := fun n => s.plan (n + 1) })

/-- As in a node, `routeDel` is `RouteDel` behind `ignoreNotExist`. -/
def exec : (o : Op) → RouteHost → Option (NodeSig.Res o × RouteHost)
  | .routeReplace undo r, s => some (s.write undo r.key (some r))
  | .routeDel undo r, s => some (s.write undo r.key none)
  | .storeRoutes m, s => some ((), { s with installed := m })
  | _, _ => none

end RouteHost

def routeHost : System Unit NodeSig RouteHost Unit where
  exec _ _ o s := s.exec o

/-! ## What a whole loop does -/

def RouteHost.after (s : RouteHost) (n : ℕ) (t : Routes) : RouteHost :=
  { s with routes := t, plan := fun m => s.plan (m + n) }

theorem RouteHost.after_after (s : RouteHost) (m n : ℕ) (t t' : Routes) :
    (s.after m t).after n t' = s.after (m + n) t' := by
  simp only [after, Nat.add_assoc, Nat.add_comm n m]

theorem RouteHost.write_of_ok (s : RouteHost) (undo : Bool) (ok : (s.plan 0).of undo = none) (key : ℤ × NetPrefix)
    (r : Option Route) : s.write undo key r = (.ok (), s.after 1 (update s.routes key r)) := by
  rw [write, ok]
  rfl

theorem RouteHost.write_of_fails (s : RouteHost) (undo : Bool) {e : Sentinel} (fails : (s.plan 0).of undo = some e)
    (key : ℤ × NetPrefix) (r : Option Route) :
    s.write undo key r = (.error (.host e), s.after 1 s.routes) := by
  rw [write, fails]
  rfl

def Change.key (c : Change) : ℤ × NetPrefix :=
  match c.prev with
  | some p => p.key
  | none => c.r.key

def changeOf (installed : Map NetPrefix Route) (r : Route) : Change := ⟨r, installed.lookup r.dst⟩

/-- The table after changes are taken back. -/
def undone (cs : List Change) (t : Routes) : Routes := cs.foldl (fun t c => update t c.key c.prev) t

/-- The table after replacements. -/
def replaced (changed : List Route) (t : Routes) : Routes := changed.foldl (fun t r => update t r.key (some r)) t

section Loops

variable {s : RouteHost}

theorem eval_routeReplace {α : Type} (undo : Bool) (r : Route) (f : Except Err Unit → Prog NodeSig α) :
    (Prog.call (S := NodeSig) (.routeReplace undo r) >>= f).eval routeHost () () 0 s =
      (f (s.write undo r.key (some r)).1).eval routeHost () () 0 (s.write undo r.key (some r)).2 := rfl

theorem eval_routeDel {α : Type} (undo : Bool) (r : Route) (f : Except Err Unit → Prog NodeSig α) :
    (Prog.call (S := NodeSig) (.routeDel undo r) >>= f).eval routeHost () () 0 s =
      (f (s.write undo r.key none).1).eval routeHost () () 0 (s.write undo r.key none).2 := rfl

theorem eval_undoChanges (cs : List Change) (ok : ∀ n, (s.plan n).undoFails = none) :
    (undoChanges cs).eval routeHost () () 0 s = some (false, s.after cs.length (undone cs s.routes)) := by
  induction cs generalizing s with
  | nil => rfl
  | cons c cs ih =>
    have rest : (undoChanges cs).eval routeHost () () 0 (s.after 1 (update s.routes c.key c.prev)) =
        some (false, s.after (c :: cs).length (undone (c :: cs) s.routes)) := by
      rw [ih fun n => ok (n + 1), RouteHost.after_after, Nat.add_comm]
      rfl
    obtain ⟨r, prev⟩ := c
    unfold undoChanges
    cases prev with
    | some p =>
      refine (eval_routeReplace _ _ _).trans ?_
      rw [s.write_of_ok true (ok 0), Prog.eval_bind]
      exact congrArg (Option.bind · _) rest
    | none =>
      refine (eval_routeDel _ _ _).trans ?_
      rw [s.write_of_ok true (ok 0), Prog.eval_bind]
      exact congrArg (Option.bind · _) rest

theorem eval_replaceAll_fails (installed : Map NetPrefix Route) (done : List Change) (changed : List Route)
    (r : Route) (rest : List Route) {e : Sentinel}
    (before : ∀ n < changed.length, (s.plan n).fails = none) (fails : (s.plan changed.length).fails = some e)
    (ok : ∀ n, (s.plan n).undoFails = none) :
    (replaceAll installed done (changed ++ r :: rest)).eval routeHost () () 0 s =
      some (.error (.host e), s.after (changed.length + 1 + (changed.length + done.length))
        (undone ((changed.map (changeOf installed)).reverse ++ done) (replaced changed s.routes))) := by
  induction changed generalizing s done with
  | nil =>
    refine (eval_routeReplace _ _ _).trans ?_
    rw [s.write_of_fails false fails]
    simp only
    rw [Prog.eval_bind, eval_undoChanges done fun n => ok (n + 1), RouteHost.after_after]
    simp only [List.length_nil, Nat.zero_add]
    rfl
  | cons c changed ih =>
    refine (eval_routeReplace _ _ _).trans ?_
    rw [s.write_of_ok false (before 0 (by simp))]
    have step := ih (s := s.after 1 (update s.routes c.key (some c))) (changeOf installed c :: done)
      (fun n hn => before (n + 1) (by simpa using hn)) fails (fun n => ok (n + 1))
    have count : 1 + (changed.length + 1 + (changed.length + (done.length + 1))) =
        changed.length + 1 + 1 + (changed.length + 1 + done.length) := by omega
    rw [RouteHost.after_after, List.length_cons, count] at step
    rw [List.length_cons, List.map_cons, List.reverse_cons, List.append_assoc, List.singleton_append]
    exact step

theorem eval_replaceAll_ok (installed : Map NetPrefix Route) (done : List Change) (want : List Route)
    (ok : ∀ n < want.length, (s.plan n).fails = none) :
    (replaceAll installed done want).eval routeHost () () 0 s =
      some (.ok (), s.after want.length (replaced want s.routes)) := by
  induction want generalizing s done with
  | nil => rfl
  | cons r want ih =>
    refine (eval_routeReplace _ _ _).trans ?_
    rw [s.write_of_ok false (ok 0 (by simp))]
    have step := ih (s := s.after 1 (update s.routes r.key (some r))) (changeOf installed r :: done)
      fun n hn => ok (n + 1) (by simpa using hn)
    rw [RouteHost.after_after, Nat.add_comm] at step
    exact step

end Loops

/-! ## Undoing -/

/-- A `routeSet`: it knows the routes by their destinations. -/
structure RouteSet where
  installed : Map NetPrefix Route
  keyed : ∀ dst r, installed.lookup dst = some r → r.dst = dst

/-- What the undo of changes leaves, `changed` being the routes that were replaced. -/
def restored (installed : Map NetPrefix Route) (changed : List Route) (t : Routes) : Routes :=
  undone (changed.map (changeOf installed)).reverse (replaced changed t)

/-- Every replaced route had in the kernel what the set has installed there; if that is in another table, nothing was
changed. -/
def Restorable (t : Routes) (set : RouteSet) (changed : List Route) : Prop :=
  ∀ r ∈ changed, match set.installed.lookup r.dst with
    | none => t r.key = none
    | some p => t p.key = some p ∧ (p.key ≠ r.key → t r.key = changed.reverse.find? fun r' => r'.key = r.key)

theorem replaced_apply (changed : List Route) (t : Routes) (key : ℤ × NetPrefix) :
    replaced changed t key = (changed.reverse.find? fun r => r.key = key).or (t key) := by
  induction changed using List.reverseRecOn with
  | nil => rfl
  | append_singleton changed r ih =>
    rw [replaced, List.foldl_append, List.foldl_cons, List.foldl_nil, List.reverse_append, List.reverse_singleton,
      List.singleton_append, List.find?_cons]
    by_cases hkey : key = r.key
    · subst hkey
      simp
    · rw [update_of_ne hkey]
      simp only [Ne.symm hkey, decide_false]
      exact ih

theorem undone_apply (cs : List Change) (t : Routes) (key : ℤ × NetPrefix) :
    undone cs.reverse t key = ((cs.find? fun c => c.key = key).map Change.prev).getD (t key) := by
  rw [undone, List.foldl_reverse]
  induction cs with
  | nil => rfl
  | cons c cs ih =>
    rw [List.foldr_cons, List.find?_cons]
    by_cases hkey : key = c.key
    · subst hkey
      simp
    · rw [update_of_ne hkey]
      simp only [Ne.symm hkey, decide_false]
      exact ih

namespace RouteSet

variable (set : RouteSet) {changed : List Route} {t : Routes} {r : Route}

theorem changeOf_dst (r : Route) : (changeOf set.installed r).key.2 = r.dst := by
  unfold changeOf Change.key
  cases h : set.installed.lookup r.dst with
  | none => rfl
  | some p => exact set.keyed r.dst p h

theorem restored_of_mem (hr : r ∈ changed) :
    restored set.installed changed t (changeOf set.installed r).key = set.installed.lookup r.dst := by
  obtain ⟨r', found⟩ : ∃ r',
      changed.find? (fun r' => (changeOf set.installed r').key = (changeOf set.installed r).key) = some r' := by
    rw [← Option.isSome_iff_exists, List.find?_isSome]
    exact ⟨r, hr, by simp⟩
  have key : (changeOf set.installed r').key = (changeOf set.installed r).key := by simpa using List.find?_some found
  have dst : r'.dst = r.dst := by rw [← set.changeOf_dst, key, set.changeOf_dst]
  rw [restored, undone_apply, List.find?_map]
  simp only [comp_def, found, Option.map_some, Option.getD_some]
  rw [changeOf, dst]

theorem restored_of_notMem {key : ℤ × NetPrefix} (h : ∀ r ∈ changed, (changeOf set.installed r).key ≠ key) :
    restored set.installed changed t key = replaced changed t key := by
  have none : changed.find? (fun r => (changeOf set.installed r).key = key) = none := by simpa using h
  rw [restored, undone_apply, List.find?_map]
  simp only [comp_def, none, Option.map_none, Option.getD_none]

theorem restored_eq_iff : restored set.installed changed t = t ↔ Restorable t set changed := by
  constructor
  · intro same r hr
    have undo := set.restored_of_mem (t := t) hr
    rw [same] at undo
    cases h : set.installed.lookup r.dst with
    | none =>
      rw [h] at undo
      simpa only [changeOf, h, Change.key] using undo
    | some p =>
      have hkey : (changeOf set.installed r).key = p.key := by simp only [changeOf, h, Change.key]
      rw [hkey, h] at undo
      refine ⟨undo, fun other => ?_⟩
      -- No undo writes where this replace did.
      have away : ∀ r' ∈ changed, (changeOf set.installed r').key ≠ r.key := by
        intro r' _ heq
        have dst : r'.dst = r.dst := by rw [← set.changeOf_dst, heq]; rfl
        rw [changeOf, dst, h] at heq
        exact other heq
      have last := set.restored_of_notMem (t := t) away
      rw [same, replaced_apply] at last
      obtain ⟨r', found⟩ : ∃ r', changed.reverse.find? (fun r' => r'.key = r.key) = some r' := by
        rw [← Option.isSome_iff_exists, List.find?_isSome]
        exact ⟨r, by simpa using hr, by simp⟩
      rw [found] at last ⊢
      exact last
  · intro cond
    funext key
    by_cases undo : ∃ r ∈ changed, (changeOf set.installed r).key = key
    · obtain ⟨r, hr, rfl⟩ := undo
      rw [set.restored_of_mem hr]
      have here := cond r hr
      cases h : set.installed.lookup r.dst with
      | none =>
        rw [h] at here
        simpa only [changeOf, h, Change.key] using here.symm
      | some p =>
        rw [h] at here
        simpa only [changeOf, h, Change.key] using here.1.symm
    · push Not at undo
      rw [set.restored_of_notMem undo, replaced_apply]
      cases found : changed.reverse.find? fun r => r.key = key with
      | none => rfl
      | some r =>
        have hr : r ∈ changed := by simpa using List.mem_of_find?_eq_some found
        have hkey : r.key = key := by simpa using List.find?_some found
        have here := cond r hr
        have away := undo r hr
        cases h : set.installed.lookup r.dst with
        | none =>
          simp only [changeOf, h, Change.key] at away
          exact absurd hkey away
        | some p =>
          rw [h] at here
          simp only [changeOf, h, Change.key] at away
          rw [← hkey, here.2 (by rw [hkey]; exact away), hkey, found]
          rfl

end RouteSet

def failsAt (k : ℕ) (e : Sentinel) : ℕ → Chance := fun n => if n = k then { fails := some e } else {}

/-- A failed `apply` leaves everything as it was if and only if the routes it has replaced were those it has
installed. -/
theorem apply_undone (set : RouteSet) (t : Routes) (changed : List Route) (r : Route) (rest : List Route)
    (e : Sentinel) :
    ∃ s, (apply set.installed (changed ++ r :: rest)).eval routeHost () () 0
        ⟨t, set.installed, failsAt changed.length e⟩ = some (.error (.host e), s) ∧
      (s.routes = t ∧ s.installed = set.installed ↔ Restorable t set changed) := by
  have before : ∀ n < changed.length, (failsAt changed.length e n).fails = none := by
    intro n hn
    rw [failsAt, if_neg (by omega)]
  have here : (failsAt changed.length e changed.length).fails = some e := by rw [failsAt, if_pos rfl]
  have undo : ∀ n, (failsAt changed.length e n).undoFails = none := by
    intro n
    unfold failsAt
    split_ifs <;> rfl
  have loop := eval_replaceAll_fails (s := ⟨t, set.installed, failsAt changed.length e⟩) set.installed [] changed
    r rest before here undo
  rw [List.append_nil] at loop
  refine ⟨_, by rw [apply, Prog.eval_bind, loop]; rfl, ?_⟩
  rw [← set.restored_eq_iff]
  exact and_iff_left rfl

namespace Sample

def halves (dev : String) : List Route := (fullTunnelPrefixes .v4).map fun dst => { dst, dev }

def foreign : Route := { dst := .v4 0 1, dev := "eth0" }

end Sample

open Sample

/-- The second replace fails, and the undo of the first deletes the route that the first has overwritten. -/
theorem foreign_route_deleted :
    let t : Routes := fun key => if key = foreign.key then some foreign else none
    ∃ s, (apply ∅ (halves "ipsec1")).eval routeHost () () 0 ⟨t, ∅, failsAt 1 .other⟩ =
        some (.error (.host .other), s) ∧
      t foreign.key = some foreign ∧ s.routes foreign.key = none :=
  ⟨_, rfl, by decide, by decide⟩

/-! ## Calls after calls -/

/-- A call of `apply`, or of `clear`, which wants no routes.  The loop over the installed routes meets them in some
order. -/
structure RouteCall where
  want : List Route
  plan : ℕ → Chance
  order : List (Entry NetPrefix Route) → List (Entry NetPrefix Route) := id
  perm : ∀ l, (order l).Perm l := by exact fun l => .refl l

namespace RouteHost

def ranged (s : RouteHost) (call : RouteCall) : Map NetPrefix Route :=
  ⟨call.order s.installed.entries, (List.perm_nodupKeys (call.perm _)).2 s.installed.nodupKeys⟩

def run (s : RouteHost) (call : RouteCall) : Option (Except Err Unit × RouteHost) :=
  (apply (s.ranged call) call.want).eval routeHost () () 0 { s with plan := call.plan }

def runs : List RouteCall → RouteHost → Option RouteHost
  | [], s => some s
  | call :: calls, s => (s.run call).bind fun p => runs calls p.2

theorem lookup_ranged (s : RouteHost) (call : RouteCall) (dst : NetPrefix) :
    (s.ranged call).lookup dst = s.installed.lookup dst :=
  AList.perm_lookup (call.perm _)

end RouteHost

section Tracks

variable {wanted : Route → Prop} {t₀ : Routes}

/-- The set knows every route in the kernel that is at a place where it puts routes, and has left the others alone. -/
structure Tracks (wanted : Route → Prop) (t₀ : Routes) (s : RouteHost) : Prop where
  keyed : ∀ dst r, s.installed.lookup dst = some r → r.dst = dst ∧ wanted r
  known : ∀ r, wanted r → ∀ p, s.routes r.key = some p → s.installed.lookup r.dst = some p
  others : ∀ key, (∀ r, wanted r → r.key ≠ key) → s.routes key = t₀ key

/-- The table while routes are withdrawn. -/
structure Withdrawing (wanted : Route → Prop) (t₀ : Routes) (keep : Map NetPrefix Route)
    (l : List (Entry NetPrefix Route)) (s : RouteHost) : Prop where
  keyed : ∀ dst r, keep.lookup dst = some r → r.dst = dst ∧ wanted r
  left : ∀ e ∈ l, e.2.dst = e.1 ∧ wanted e.2
  nodup : (l.map Sigma.fst).Nodup
  known : ∀ r, wanted r → ∀ p, s.routes r.key = some p →
    keep.lookup r.dst = some p ∨ (keep.lookup r.dst = none ∧ ⟨r.dst, p⟩ ∈ l)
  others : ∀ key, (∀ r, wanted r → r.key ≠ key) → s.routes key = t₀ key

theorem Withdrawing.loop (tables : ∀ r r', wanted r → wanted r' → r.dst = r'.dst → r.key = r'.key)
    (l : List (Entry NetPrefix Route)) {keep : Map NetPrefix Route} (bad : Bool) {s : RouteHost}
    (inv : Withdrawing wanted t₀ keep l s) :
    ∃ keep' bad' s', (withdraw keep bad l).eval routeHost () () 0 s = some ((keep', bad'), s') ∧
      Withdrawing wanted t₀ keep' [] s' ∧
      ((∀ n, (s.plan n).fails = none) → keep' = keep ∧ bad' = bad) := by
  induction l generalizing keep bad s with
  | nil => exact ⟨keep, bad, s, rfl, inv, fun _ => ⟨rfl, rfl⟩⟩
  | cons e l ih =>
    have nodup := List.nodup_cons.mp inv.nodup
    unfold withdraw
    by_cases kept : e.1 ∈ keep
    · rw [if_pos kept]
      refine ih bad ⟨inv.keyed, fun e' he' => inv.left e' (List.mem_cons_of_mem _ he'), nodup.2, ?_, inv.others⟩
      intro r hr p hp
      refine (inv.known r hr p hp).imp_right fun ⟨absent, mem⟩ => ⟨absent, (List.mem_cons.mp mem).resolve_left ?_⟩
      rintro rfl
      obtain ⟨b, hb⟩ := lookup_of_mem kept
      rw [absent] at hb
      cases hb
    · rw [if_neg kept]
      obtain ⟨dst, mine⟩ := inv.left e List.mem_cons_self
      have absent : keep.lookup e.1 = none := AList.lookup_eq_none.mpr kept
      cases chance : (s.plan 0).fails with
      | none =>
        have next : Withdrawing wanted t₀ keep l (s.after 1 (update s.routes e.2.key none)) := by
          refine ⟨inv.keyed, fun e' he' => inv.left e' (List.mem_cons_of_mem _ he'), nodup.2, ?_, ?_⟩
          · intro r hr p hp
            have hkey : r.key ≠ e.2.key := by
              intro h
              rw [h] at hp
              simp [RouteHost.after] at hp
            simp only [RouteHost.after, update_of_ne hkey] at hp
            refine (inv.known r hr p hp).imp_right fun ⟨absent, mem⟩ =>
              ⟨absent, (List.mem_cons.mp mem).resolve_left ?_⟩
            rintro rfl
            exact hkey (tables r _ hr mine dst.symm)
          · intro key away
            simp only [RouteHost.after, update_of_ne (away e.2 mine).symm]
            exact inv.others key away
        obtain ⟨keep', bad', s', steps, inv', clean⟩ := ih bad next
        refine ⟨keep', bad', s', ?_, inv', fun ok => clean fun n => ok (n + 1)⟩
        refine (eval_routeDel _ _ _).trans ?_
        rw [s.write_of_ok false chance]
        exact steps
      | some err =>
        have next : Withdrawing wanted t₀ (keep.insert e.1 e.2) l (s.after 1 s.routes) := by
          refine ⟨?_, fun e' he' => inv.left e' (List.mem_cons_of_mem _ he'), nodup.2, ?_, inv.others⟩
          · intro dst' r h
            rw [lookup_insert_eq] at h
            split_ifs at h with hdst
            · cases h
              exact ⟨dst.trans hdst.symm, mine⟩
            · exact inv.keyed dst' r h
          · intro r hr p hp
            rw [lookup_insert_eq]
            by_cases hdst : r.dst = e.1
            · rw [if_pos hdst]
              rcases inv.known r hr p hp with known | ⟨-, mem⟩
              · rw [hdst, absent] at known
                cases known
              · rcases List.mem_cons.mp mem with rfl | later
                · exact .inl rfl
                · exact absurd (hdst ▸ List.mem_map_of_mem later) nodup.1
            · rw [if_neg hdst]
              refine (inv.known r hr p hp).imp_right fun ⟨gone, mem⟩ => ⟨gone, (List.mem_cons.mp mem).resolve_left ?_⟩
              rintro rfl
              exact hdst rfl
        obtain ⟨keep', bad', s', steps, inv', -⟩ := ih true next
        refine ⟨keep', bad', s', ?_, inv', fun ok => ?_⟩
        · refine (eval_routeDel _ _ _).trans ?_
          rw [s.write_of_fails false chance]
          exact steps
        · rw [ok 0] at chance
          cases chance

theorem lookup_keep (want : List Route) (dst : NetPrefix) :
    (collect (fun r : Route => some (r.dst, r)) want).lookup dst = want.reverse.find? fun r => r.dst = dst := by
  induction want using List.reverseRecOn with
  | nil => rfl
  | append_singleton want r ih =>
    have step : ∀ m : Map NetPrefix Route, (put (fun r : Route => some (r.dst, r)) m r).lookup dst =
        if dst = r.dst then some r else m.lookup dst := fun m => lookup_insert_eq m r.dst dst r
    rw [collect, List.foldl_append, List.foldl_cons, List.foldl_nil, step, List.reverse_append,
      List.reverse_singleton, List.singleton_append, List.find?_cons]
    by_cases hdst : dst = r.dst
    · simp [hdst]
    · simp only [if_neg hdst, Ne.symm hdst, decide_false]
      exact ih

namespace Tracks

variable {s : RouteHost} {call : RouteCall}

def set (inv : Tracks wanted t₀ s) (call : RouteCall) : RouteSet where
  installed := s.ranged call
  keyed dst r h := by
    rw [s.lookup_ranged] at h
    exact (inv.keyed dst r h).1

section Tables

variable (tables : ∀ r r', wanted r → wanted r' → r.dst = r'.dst → r.key = r'.key)

include tables in
theorem changeOf_key (inv : Tracks wanted t₀ s) {r : Route} (hr : wanted r) :
    (changeOf (s.ranged call) r).key = r.key := by
  unfold changeOf Change.key
  cases h : (s.ranged call).lookup r.dst with
  | none => rfl
  | some p =>
    rw [s.lookup_ranged] at h
    obtain ⟨dst, mine⟩ := inv.keyed r.dst p h
    exact tables p r mine hr dst

include tables in
theorem restored (inv : Tracks wanted t₀ s) (call : RouteCall) {changed : List Route}
    (hchanged : ∀ r ∈ changed, wanted r) (n : ℕ) :
    Tracks wanted t₀ (s.after n (IPsec.restored (s.ranged call) changed s.routes)) where
  keyed := inv.keyed
  known r hr p hp := by
    change IPsec.restored (inv.set call).installed changed s.routes r.key = some p at hp
    by_cases undo : ∃ r' ∈ changed, r'.key = r.key
    · obtain ⟨r', hr', hkey⟩ := undo
      have dst : r'.dst = r.dst := congrArg Prod.snd hkey
      have back := (inv.set call).restored_of_mem (t := s.routes) hr'
      rw [show (changeOf (inv.set call).installed r').key = r.key from
        (inv.changeOf_key tables (hchanged r' hr')).trans hkey, hp, dst] at back
      exact (s.lookup_ranged call r.dst).symm.trans back.symm
    · push Not at undo
      have away : ∀ r' ∈ changed, (changeOf (inv.set call).installed r').key ≠ r.key := fun r' hr' => by
        rw [show (changeOf (inv.set call).installed r').key = r'.key from inv.changeOf_key tables (hchanged r' hr')]
        exact undo r' hr'
      have none : changed.reverse.find? (fun r' => r'.key = r.key) = none := by simpa using undo
      rw [(inv.set call).restored_of_notMem away, replaced_apply, none] at hp
      exact inv.known r hr p hp
  others key away := by
    change IPsec.restored (inv.set call).installed changed s.routes key = t₀ key
    have undo : ∀ r' ∈ changed, (changeOf (inv.set call).installed r').key ≠ key := fun r' hr' => by
      rw [show (changeOf (inv.set call).installed r').key = r'.key from inv.changeOf_key tables (hchanged r' hr')]
      exact away r' (hchanged r' hr')
    have none : changed.reverse.find? (fun r' => r'.key = key) = none := by
      simpa using fun r' hr' => away r' (hchanged r' hr')
    rw [(inv.set call).restored_of_notMem undo, replaced_apply, none]
    exact inv.others key away

include tables in
theorem replaced (inv : Tracks wanted t₀ s) (call : RouteCall) (hwant : ∀ r ∈ call.want, wanted r) (n : ℕ) :
    Withdrawing wanted t₀ (collect (fun r => some (r.dst, r)) call.want) (s.ranged call).entries
      (s.after n (IPsec.replaced call.want s.routes)) where
  keyed dst r h := by
    obtain ⟨r', hr', heq⟩ := exists_of_lookup_collect h
    cases heq
    exact ⟨rfl, hwant _ hr'⟩
  left e he := by
    have found := lookup_of_mem_entries he
    rw [s.lookup_ranged] at found
    exact inv.keyed e.1 e.2 found
  nodup := nodup_fst_of_perm (List.Perm.refl _)
  known r hr p hp := by
    change IPsec.replaced call.want s.routes r.key = some p at hp
    have same : call.want.reverse.find? (fun r' => r'.key = r.key) =
        call.want.reverse.find? fun r' => r'.dst = r.dst := by
      refine List.find?_congr fun r' hr' => ?_
      have key : r'.key = r.key ↔ r'.dst = r.dst :=
        ⟨fun h => congrArg Prod.snd h, tables r' r (hwant r' (by simpa using hr')) hr⟩
      simp only [key]
    rw [replaced_apply, same, ← lookup_keep] at hp
    cases found : (collect (fun r => some (r.dst, r)) call.want).lookup r.dst with
    | some p' =>
      rw [found] at hp
      exact .inl hp
    | none =>
      rw [found] at hp
      refine .inr ⟨rfl, AList.mem_lookup_iff.mp ?_⟩
      rw [s.lookup_ranged]
      exact inv.known r hr p hp
  others key away := by
    have none : call.want.reverse.find? (fun r' => r'.key = key) = none := by
      simpa using fun r' hr' => away r' (hwant r' hr')
    change IPsec.replaced call.want s.routes key = t₀ key
    rw [replaced_apply, none]
    exact inv.others key away

include tables in
theorem run (inv : Tracks wanted t₀ s) (call : RouteCall) (hwant : ∀ r ∈ call.want, wanted r)
    (undo : ∀ n, (call.plan n).undoFails = none) :
    ∃ res s', s.run call = some (res, s') ∧ Tracks wanted t₀ s' ∧
      (call.want = [] → (∀ n, (call.plan n).fails = none) → res = .ok () ∧ s'.installed = ∅) := by
  have inv' : Tracks wanted t₀ { s with plan := call.plan } := ⟨inv.keyed, inv.known, inv.others⟩
  by_cases some_ : ∃ n, n < call.want.length ∧ (call.plan n).fails ≠ none
  · -- The first replace that fails.
    obtain ⟨k, ⟨hk, fails⟩, first⟩ := Nat.findX some_
    obtain ⟨e, he⟩ := Option.ne_none_iff_exists'.mp fails
    have split : call.want = call.want.take k ++ call.want[k] :: call.want.drop (k + 1) := by simp
    have length : (call.want.take k).length = k := by
      rw [List.length_take]
      omega
    have loop := eval_replaceAll_fails (s := { s with plan := call.plan }) (s.ranged call) [] (call.want.take k)
      call.want[k] (call.want.drop (k + 1)) (e := e)
      (fun n hn => by
        rw [length] at hn
        by_contra no
        exact first n hn ⟨by omega, no⟩)
      (by rw [length]; exact he) undo
    rw [← split, List.append_nil] at loop
    refine ⟨.error (.host e), _, by rw [RouteHost.run, apply, Prog.eval_bind, loop]; rfl, ?_, fun none => ?_⟩
    · exact inv'.restored tables call (fun r hr => hwant r (List.mem_of_mem_take hr)) _
    · rw [none] at hk
      cases hk
  · push Not at some_
    have loop := eval_replaceAll_ok (s := { s with plan := call.plan }) (s.ranged call) [] call.want some_
    obtain ⟨keep, bad, s', steps, done, clean⟩ :=
      (inv'.replaced tables call hwant call.want.length).loop tables _ false
    refine ⟨if bad then .error .withdrawing else .ok (), { s' with installed := keep }, ?_, ?_, fun none ok => ?_⟩
    · rw [RouteHost.run, apply, Prog.eval_bind, loop]
      change (withdraw _ false _ >>= _).eval routeHost () () 0 _ = _
      rw [Prog.eval_bind]
      refine (congrArg (Option.bind · _) steps).trans ?_
      rfl
    · refine ⟨done.keyed, fun r hr p hp => ?_, done.others⟩
      rcases done.known r hr p hp with known | ⟨-, mem⟩
      · exact known
      · cases mem
    · obtain ⟨rfl, rfl⟩ := clean fun n => ok _
      exact ⟨rfl, by rw [none]; rfl⟩

end Tables

end Tracks

end Tracks

/-- Calls in which no undo fails, and the routes to one destination are all in one table. -/
structure Lucky (calls : List RouteCall) : Prop where
  undo : ∀ call ∈ calls, ∀ n, (call.plan n).undoFails = none
  tables : ∀ call ∈ calls, ∀ r ∈ call.want, ∀ call' ∈ calls, ∀ r' ∈ call'.want, r.dst = r'.dst → r.key = r'.key

/-- The record tracks the table along every run. -/
theorem Tracks.runs {wanted : Route → Prop} {t₀ : Routes} {s : RouteHost}
    (tables : ∀ r r', wanted r → wanted r' → r.dst = r'.dst → r.key = r'.key) (calls : List RouteCall)
    (inv : Tracks wanted t₀ s) (hwant : ∀ call ∈ calls, ∀ r ∈ call.want, wanted r)
    (undo : ∀ call ∈ calls, ∀ n, (call.plan n).undoFails = none) :
    ∃ s', s.runs calls = some s' ∧ Tracks wanted t₀ s' := by
  induction calls generalizing s with
  | nil => exact ⟨s, rfl, inv⟩
  | cons call calls ih =>
    obtain ⟨res, s₁, step, inv₁, -⟩ := inv.run tables call (hwant call List.mem_cons_self)
      (undo call List.mem_cons_self)
    obtain ⟨s', steps, inv'⟩ := ih inv₁ (fun c hc => hwant c (List.mem_cons_of_mem _ hc))
      fun c hc => undo c (List.mem_cons_of_mem _ hc)
    exact ⟨s', by rw [RouteHost.runs, step, Option.bind_some, steps], inv'⟩

/-- A set knows the routes that it has created, and can take them all back. -/
theorem installed_tracks {t₀ : Routes} {calls : List RouteCall} (lucky : Lucky calls)
    (clean : ∀ call ∈ calls, ∀ r ∈ call.want, t₀ r.key = none) (plan : ℕ → Chance) :
    ∃ s, RouteHost.runs calls ⟨t₀, ∅, plan⟩ = some s ∧
      (∀ key p, s.routes key = some p → t₀ key = some p ∨ s.installed.lookup p.dst = some p) ∧
      ∀ clear : RouteCall, clear.want = [] → (∀ n, clear.plan n = {}) →
        ∃ s', s.run clear = some (.ok (), s') ∧ s'.routes = t₀ ∧ s'.installed = ∅ := by
  let wanted (r : Route) : Prop := ∃ call ∈ calls, r ∈ call.want
  have tables : ∀ r r', wanted r → wanted r' → r.dst = r'.dst → r.key = r'.key :=
    fun r r' ⟨call, hc, hr⟩ ⟨call', hc', hr'⟩ => lucky.tables call hc r hr call' hc' r' hr'
  have start : Tracks wanted t₀ ⟨t₀, ∅, plan⟩ := by
    refine ⟨fun dst r h => ?_, fun r ⟨call, hc, hr⟩ p hp => ?_, fun _ _ => rfl⟩
    · simp at h
    · have free : some p = none := hp.symm.trans (clean call hc r hr)
      cases free
  obtain ⟨s, steps, inv⟩ := start.runs tables calls (fun call hc r hr => ⟨call, hc, hr⟩) lucky.undo
  refine ⟨s, steps, fun key p hp => ?_, fun clear none ok => ?_⟩
  · by_cases mine : ∃ r, wanted r ∧ r.key = key
    · obtain ⟨r, hr, rfl⟩ := mine
      have known := inv.known r hr p hp
      rw [← (inv.keyed r.dst p known).1] at known
      exact .inr known
    · push Not at mine
      rw [inv.others key mine] at hp
      exact .inl hp
  · obtain ⟨res, s', step, inv', cleared⟩ := inv.run tables clear (by simp [none]) fun n => by rw [ok n]
    obtain ⟨rfl, empty⟩ := cleared none fun n => by rw [ok n]
    refine ⟨s', step, funext fun key => ?_, empty⟩
    by_cases mine : ∃ r, wanted r ∧ r.key = key
    · obtain ⟨r, hr, rfl⟩ := mine
      obtain ⟨call, hc, hmem⟩ := hr
      rw [clean call hc r hmem]
      by_contra there
      obtain ⟨p, hp⟩ := Option.ne_none_iff_exists'.mp there
      have known := inv'.known r ⟨call, hc, hmem⟩ p hp
      rw [empty] at known
      simp at known
    · push Not at mine
      exact inv'.others key mine

namespace Sample

def calls : List RouteCall :=
  [{ want := halves "ipsec1", plan := fun _ => {} }, { want := (halves "ipsec2").take 1, plan := failsAt 1 .other },
   { want := halves "ipsec3", plan := failsAt 1 .other }]

end Sample

theorem installed_tracks_calls : ∃ s, RouteHost.runs calls ⟨fun _ => none, ∅, fun _ => {}⟩ = some s ∧
      (∀ key p, s.routes key = some p → none = some p ∨ s.installed.lookup p.dst = some p) ∧
      ∀ clear : RouteCall, clear.want = [] → (∀ n, clear.plan n = {}) →
        ∃ s', s.run clear = some (.ok (), s') ∧ (s'.routes = fun _ => none) ∧ s'.installed = ∅ :=
  installed_tracks ⟨by simp [calls, failsAt, apply_ite Chance.undoFails],
      by simp [calls, halves, fullTunnelPrefixes, Route.key, routeKey]⟩
    (fun _ _ _ _ => rfl) _

/-- The second replace fails, and so does the undo of the first: the first route stays, and is not tracked. -/
theorem route_forgotten :
    let call : RouteCall :=
      { want := halves "ipsec1", plan := fun n => if n = 0 then {} else ⟨some .other, some .other⟩ }
    ∃ s, RouteHost.runs [call] ⟨fun _ => none, ∅, fun _ => {}⟩ = some s ∧
      s.routes (routeKey 0 (.v4 0 1)) = some { dst := .v4 0 1, dev := "ipsec1" } ∧ s.installed = ∅ :=
  ⟨_, rfl, by decide, rfl⟩

end Egressa.IPsec
