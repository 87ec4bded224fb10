import Egressa.Controller.Announce
import Egressa.Controller.LongPoll

/-!
# Restarts

A controller may stop at any time, and another one start over the same store, which keeps every write.  The version of
a controller starts at 1, and those who poll it keep the version of the last answer, by whichever controller.
-/

namespace Egressa

open Conc

section Restart

variable {ι : Type}

/-- The lives of a controller, one store throughout. -/
structure Lifetimes (ι : Type) where
  past : List (ServerWorld Unit ι)
  d : Deployment Unit ι
  c : Config ι (HandlerSig Unit) (ServerState Unit ι) Answer

namespace Lifetimes

variable [DecidableEq ι]

def start (d : Deployment Unit ι) : Lifetimes ι := ⟨[], d, d.start⟩

/-- The controller restarts. -/
def restart (t : Lifetimes ι) (requests : ι → Unit × Request) : Lifetimes ι :=
  let d : Deployment Unit ι := { t.d with store := t.c.world.st.1.mem, requests }
  ⟨t.past ++ [t.c.world], d, d.start⟩

/-- A step of the running controller, or a restart. -/
inductive Step : Lifetimes ι → Lifetimes ι → Prop
  | serve {t : Lifetimes ι} {c'} (step : t.c.Step (serverPool Unit ι) c') : Step t { t with c := c' }
  | restart (t : Lifetimes ι) (requests : ι → Unit × Request) : Step t (t.restart requests)

abbrev Runs : Lifetimes ι → Lifetimes ι → Prop := Relation.ReflTransGen Step

theorem Runs.reaches {d : Deployment Unit ι} {t : Lifetimes ι} (run : Runs (start d) t) :
    t.d.start.Reaches (serverPool Unit ι) t.c := by
  induction run with
  | refl => exact Relation.ReflTransGen.refl
  | tail _ step ih =>
    cases step with
    | serve step => exact ih.tail step
    | restart requests => exact Relation.ReflTransGen.refl

theorem Runs.wellFormed {d : Deployment Unit ι} {t : Lifetimes ι} (run : Runs (start d) t)
    (stored : WellFormed d.store) : WellFormed t.d.store := by
  induction run with
  | refl => exact stored
  | tail run step ih =>
    cases step with
    | serve step => exact ih
    | restart requests => exact (Deployment.inv_of_reaches _ (Runs.reaches run)).wellFormed ih

theorem runs_of_reaches {t : Lifetimes ι} {c} (reach : t.c.Reaches (serverPool Unit ι) c) : Runs t { t with c } := by
  induction reach with
  | refl => exact Relation.ReflTransGen.refl
  | tail _ step ih => exact ih.tail (.serve step)

end Lifetimes

/-! ## Polls that wait -/

def Request.after? : Request → Option ℕ
  | .gatewayState _ after => some after
  | .clientState _ _ after => some after
  | _ => none

def Answer.version? : Answer → Option ℕ
  | .gatewayState st => some st.version
  | .clientState st => some st.version
  | _ => none

def polled : (o : (HandlerSig Unit).Op) → (HandlerSig Unit).Res o → Option ℕ
  | .inr (_, .poll), (v : ℕ) => some v
  | _, _ => none

/-- The operation is one of a poll that knows the version `after`, and makes it wait. -/
def Sleeps (d : Deployment Unit ι) (e : ServerEntry Unit ι) (after : ℕ) : Prop :=
  (d.requests e.tid).2.after? = some after ∧ ∃ v, polled e.op e.res = some v ∧ v ≤ after

def ToldBefore (w : ServerWorld Unit ι) (q : ℕ) (i : ι) (a : Answer) : Prop :=
  ∃ n e, n < q ∧ w.hist[n]? = some e ∧ e.tid = i ∧ answers e.op = some ((), a)

/-- When the request of thread `i` reads the version, the client record it has looked up is the one that
is stored. -/
def RecordKept (w : ServerWorld Unit ι) (i : ι) : Prop :=
  ∀ (p n : ℕ) (q l : ServerEntry Unit ι) (v : ℕ) (id : String) (c : ClientRecord),
    w.hist[p]? = some q → q.tid = i → readsVersion q.op q.res = some ((), v) → n < p →
    w.hist[n]? = some l → l.tid = i → got l.op l.res = some (clientKey id, some (.client c)) →
    q.pre.1.mem.get (clientKey id) = some (.client c)

/-- The gateways stored, with some flags. -/
def ListsGateways (m : MemStore) (gws : List Gateway) : Prop :=
  ∃ stored alive, decodeGateways (m.list gatewayKeyPrefix) = .ok stored ∧
    gws = stored.map fun g => { g with alive := aliveIn alive g.id }

/-- The answer to the request of thread `i` tells what the store `m` holds. -/
def UpToDate (d : Deployment Unit ι) (m : MemStore) (i : ι) : Answer → Prop
  | .gatewayState st => ListsGateways m st.gateways ∧
    ∃ cs, decodeClients (m.list clientKeyPrefix) = .ok cs ∧
      List.Forall₂ (fun c sess => ∃ own, ownershipIn m c.id = some own ∧ sess = sessionOf (d.cfg ()) c own)
        cs st.sessions
  | .clientState st => ListsGateways m st.gateways ∧
    ∃ bearer id after c own, (d.requests i).2 = .clientState bearer id after ∧
      m.get (clientKey id) = some (.client c) ∧ ownershipIn m id = some own ∧
      st.session = sessionOf (d.cfg ()) c own
  | _ => True

variable [DecidableEq ι] {d : Deployment Unit ι} {c : Config ι (HandlerSig Unit) (ServerState Unit ι) Answer}

theorem exec_polled {ω : Choice} {i : ι} {o : (HandlerSig Unit).Op}
    {r : (HandlerSig Unit).Res o} {s s' : ServerState Unit ι} {v : ℕ}
    (hex : (serverPool Unit ι).exec ω i o s = some (r, s')) (h : polled o r = some v) :
    (s.2 ()).mu = none ∧ (s.2 ()).version = v := by
  cases o with
  | inl o => cases h
  | inr o =>
    obtain ⟨⟨⟩, o⟩ := o
    cases o with
    | poll =>
      obtain ⟨x, hx, -⟩ := exec_server hex
      simp only [Server.exec] at hx
      split_ifs at hx with hmu
      cases h
      exact ⟨hmu, (Prod.mk.inj (Option.some.inj hx)).1⟩
    | _ => cases h

section

variable (reach : d.start.Reaches (serverPool Unit ι) c)
include reach

theorem mem_eq_of_unwritten {p : ℕ} (quiet : ∀ (m : ℕ) (e : ServerEntry Unit ι), p ≤ m → c.world.hist[m]? = some e →
      written e.op e.res = none) {n : ℕ} {e : ServerEntry Unit ι} (hn : p ≤ n)
    (he : c.world.hist[n]? = some e) : e.pre.1.mem = c.world.st.1.mem := by
  induction reach with
  | refl => simp [Deployment.start] at he
  | @tail c c' reach step ih =>
    rcases Config.step_cases step with ⟨j, o, k, ω, r, s', -, hex, rfl⟩ | ⟨j, β, γ, body, b, k, -, rfl⟩
    · have hnew : n < c.world.hist.length ∨ n = c.world.hist.length := by
        have := (List.getElem?_eq_some_iff.1 he).1
        rw [length_hist_push] at this
        omega
      have hlast : written o r = none := by
        refine quiet c.world.hist.length _ ?_ (hist_push_self c.world j o r s')
        omega
      have hmem : s'.1.mem = c.world.st.1.mem := by
        rw [exec_mem hex, hlast]
      rw [World.push_st, hmem]
      rcases hnew with hold | rfl
      · rw [World.push_hist, List.getElem?_append_left hold] at he
        exact ih (fun m e hm hme => quiet m e hm (hist_push hme j o r s')) he
      · rw [hist_push_self] at he
        cases he
        rfl
    · exact ih quiet he

theorem unchanged_of_versionRead
    (free : (c.world.st.2 ()).mu = none) {i : ι} {p v : ℕ} (read : VersionRead c.world i () p v)
    (still : (c.world.st.2 ()).version ≤ v) {m : ℕ} {e : ServerEntry Unit ι} (hm : p ≤ m)
    (he : c.world.hist[m]? = some e) : changes e.op e.res = false := by
  rw [Bool.eq_false_iff]
  intro hchange
  obtain ⟨n, b, hmn, hb, hbump⟩ := d.announced_of_reaches reach free he hchange
  obtain ⟨q, hq, -, hread⟩ := read
  obtain ⟨-, -, -, ω, hex⟩ := reach.past rfl hq
  obtain ⟨-, hv, hnb⟩ := exec_readsVersion hex hread
  have hpost := exec_version hex
  rw [hnb] at hpost
  -- the announcement came after the read, and raised the version
  obtain ⟨c₂, reach₂, hw₂, ω₂, hex₂⟩ := reach.past rfl hb
  have hraise := exec_version hex₂
  rw [hbump, if_pos rfl] at hraise
  have hq₂ : q ∈ c₂.world.hist := by
    have hpn : p < n := by omega
    rw [hw₂]
    exact List.mem_of_getElem? (by rw [List.getElem?_take_of_lt hpn, hq])
  have hbefore := version_le_of_mem reach₂ hq₂
  rw [hw₂] at hbefore
  have hafter := version_le_of_mem reach (List.mem_of_getElem? hb)
  simp only [Bool.false_eq_true, if_false] at hpost
  change (q.post.2 ()).version ≤ (b.pre.2 ()).version at hbefore
  omega

theorem mem_eq_store (quiet : ∀ e ∈ c.world.hist, written e.op e.res = none) : c.world.st.1.mem = d.store := by
  induction reach with
  | refl => rfl
  | @tail c c' reach step ih =>
    rcases Config.step_cases step with ⟨j, o, k, ω, r, s', -, hex, rfl⟩ | ⟨j, β, γ, body, b, k, -, rfl⟩
    · have hlast : written o r = none := quiet _ (List.mem_append_right _ (List.mem_singleton_self _))
      rw [World.push_st, exec_mem hex, hlast]
      exact ih fun e he => quiet e (List.mem_append_left _ he)
    · exact ih quiet

end

omit [DecidableEq ι] in
theorem written_of_unchanged {o : (HandlerSig Unit).Op}
    {r : (HandlerSig Unit).Res o} (h : changes o r = false) : written o r = none := by
  cases o with
  | inr o => rfl
  | inl o =>
    cases hw : written (X := ServerSig Unit) (.inl o) r with
    | none => rfl
    | some x => simp [changes, hw] at h

section Now

-- the version read at position `p` still stands, and nobody is about to raise it
variable (reach : d.start.Reaches (serverPool Unit ι) c) (free : (c.world.st.2 ()).mu = none) {i : ι}
  {p v : ℕ} (read : VersionRead c.world i () p v) (still : (c.world.st.2 ()).version ≤ v)

include reach free read still

theorem mem_eq_of_versionRead {n : ℕ} {e : ServerEntry Unit ι} (hn : p ≤ n)
    (he : c.world.hist[n]? = some e) : e.pre.1.mem = c.world.st.1.mem :=
  mem_eq_of_unwritten reach
    (fun _ _ hm he => written_of_unchanged (unchanged_of_versionRead reach free read still hm he)) hn he

theorem Seen.now {φ : MemStore → Prop} (seen : Seen c.world (p + 1) fun s => φ s.1.mem) : φ c.world.st.1.mem := by
  obtain ⟨n, e, hn, he, hφ⟩ := seen
  rw [← mem_eq_of_versionRead reach free read still (Nat.le_of_succ_le hn) he]
  exact hφ

theorem GatewaysFrom.now {gws : List Gateway} (h : GatewaysFrom c.world () (p + 1) gws) :
    ListsGateways c.world.st.1.mem gws := by
  obtain ⟨stored, alive, hstored, -, hgws⟩ := h
  exact ⟨stored, alive, Seen.now reach free read still
    (φ := fun m => decodeGateways (m.list gatewayKeyPrefix) = .ok stored) hstored, hgws⟩

end Now

theorem upToDate_of_version (reach : d.start.Reaches (serverPool Unit ι) c)
    (stored : WellFormed d.store) (free : (c.world.st.2 ()).mu = none) {i : ι} {a : Answer}
    (said : Said c.world i a) {v : ℕ} (version : a.version? = some v)
    (still : (c.world.st.2 ()).version ≤ v) (kept : RecordKept c.world i) :
    UpToDate d c.world.st.1.mem i a := by
  obtain ⟨e, he, rfl, ⟨⟩, ha⟩ := said
  have ok := ((d.inv_of_reaches reach).answered e he () a ha).2
  cases a with
  | gatewayState st =>
    cases version
    obtain ⟨p, read, hgws, cs, hcs, hss⟩ := ok
    refine ⟨hgws.now reach free read still, cs, Seen.now reach free read still
      (φ := fun m => decodeClients (m.list clientKeyPrefix) = .ok cs) hcs, (hss stored).imp ?_⟩
    rintro cl sess ⟨own, hown, hsess⟩
    exact ⟨own, Seen.now reach free read still (φ := fun m => ownershipIn m cl.id = some own) hown, hsess⟩
  | clientState st =>
    cases version
    obtain ⟨p, bearer, id, after, cl, hreq, hid, ⟨n, l, hn, hl, htid, hgot⟩, read, hgws, own, hown, hsess⟩ := ok
    have hown := Seen.now reach free read still (φ := fun m => ownershipIn m cl.id = some own) hown
    rw [hid stored] at hown
    have read' := read
    obtain ⟨q, hq, hqt, hread⟩ := read'
    have hget := kept p n q l _ id cl hq hqt hread hn hl htid hgot
    rw [mem_eq_of_versionRead reach free read still le_rfl hq] at hget
    exact ⟨hgws.now reach free read still, bearer, id, after, cl, own, hreq, hget, hown, hsess⟩
  | _ => trivial

end Restart

/-- A poll with the version of an answer that the running controller has given waits only if the answer
still tells what the store holds. -/
theorem sleeps_up_to_date {ι : Type} [DecidableEq ι] {d : Deployment Unit ι} (stored : WellFormed d.store)
    {t : Lifetimes ι} (run : Lifetimes.Runs (.start d) t) {q : ℕ} {e : ServerEntry Unit ι}
    (he : t.c.world.hist[q]? = some e) {after : ℕ} (sleeps : Sleeps t.d e after) {i : ι} {a : Answer}
    (told : ToldBefore t.c.world q i a) (version : a.version? = some after)
    (kept : RecordKept t.c.world i) : UpToDate t.d e.pre.1.mem i a := by
  obtain ⟨c₁, reach₁, hw₁, ω, hex⟩ := (Lifetimes.Runs.reaches run).past rfl he
  obtain ⟨-, v, hpolled, hle⟩ := sleeps
  obtain ⟨free, hversion⟩ := exec_polled hex hpolled
  have hst : c₁.world.st = e.pre := by rw [hw₁]
  have past : ∀ (n : ℕ) (x : ServerEntry Unit ι), c₁.world.hist[n]? = some x →
      n < q ∧ t.c.world.hist[n]? = some x := by
    intro n x hx
    have hnq : n < q := by
      have := (List.getElem?_eq_some_iff.1 hx).1
      rw [hw₁, List.length_take] at this
      omega
    rw [hw₁, List.getElem?_take_of_lt hnq] at hx
    exact ⟨hnq, hx⟩
  have said : Said c₁.world i a := by
    obtain ⟨n, x, hn, hx, htid, hx'⟩ := told
    refine ⟨x, List.mem_of_getElem? (i := n) ?_, htid, (), hx'⟩
    rw [hw₁, List.getElem?_take_of_lt hn, hx]
  have kept₁ : RecordKept c₁.world i := by
    intro p n r l v id cl hr hrt hread hn hl
    exact kept p n r l v id cl (past p r hr).2 hrt hread hn (past n l hl).2
  rw [← hst]
  refine upToDate_of_version reach₁ (run.wellFormed stored) ?_ said version ?_ kept₁
  · rw [hst]
    exact free
  · rw [hst, hversion]
    exact hle

namespace Trial

def pollsAgain : Deployment Unit (Fin 3) where
  cfg _ := config
  store := store
  requests
    | 0 => ((), .gatewayState "" 0)
    | 1 => ((), .migrate "secret" "7" (.ok ⟨1, "b", "a"⟩))
    | 2 => ((), .gatewayState "" 2)

def lastLife : Deployment Unit (Fin 2) where
  cfg _ := config
  store := store
  requests
    | 0 => ((), .gatewayState "" 0)
    | 1 => ((), .reportLinks "" "a" (.ok ()))

def thisLife : Deployment Unit (Fin 2) where
  cfg _ := config
  store := store
  requests
    | 0 => ((), .gatewayState "" 2)
    | 1 => ((), .migrate "secret" "7" (.ok ⟨1, "b", "a"⟩))

def lastSaid : GatewayState :=
  ⟨2, config.network, [{ gateway "a" true with alive := true }, gateway "b" false], [opened]⟩

end Trial

open Trial in
theorem sleeps_up_to_date_moved :
    ∃ m, UpToDate pollsAgain m 0 (.gatewayState ⟨2, config.network, listed, [moved]⟩) := by
  obtain ⟨c, reach, ⟨e, he, htid, hpolled⟩, ⟨x, hx, hxt, hxa⟩, hgot⟩ :=
    Config.reaches_of_run_any (serverPool Unit (Fin 3)) (turns [(1, 11), (0, 8), (2, 2)]) pollsAgain.start
    (fun c => (∃ e ∈ (c.world.hist[17]? : Option (ServerEntry Unit (Fin 3))).toList, e.tid = 2 ∧
        polled e.op e.res = some 2) ∧
      (∃ x ∈ (c.world.hist[16]? : Option (ServerEntry Unit (Fin 3))).toList, x.tid = 0 ∧
        answers x.op = some ((), .gatewayState ⟨2, config.network, listed, [moved]⟩)) ∧
      ∀ l ∈ c.world.hist, l.tid = 0 → ∀ y ∈ (got l.op l.res).toList, ∀ d ∈ y.2.toList,
        d = .ownership ⟨"7", "b", "a", 2⟩)
    (by decide)
  have kept : RecordKept c.world 0 := by
    intro p n q l v id cl _ _ _ _ hl hlt hg
    have := hgot l (List.mem_of_getElem? hl) hlt (clientKey id, some (.client cl)) (by simp [hg])
      (.client cl) (by simp)
    cases this
  exact ⟨e.pre.1.mem, sleeps_up_to_date (d := pollsAgain) wellFormed_store
    (Lifetimes.runs_of_reaches (t := .start pollsAgain) reach) (Option.mem_toList.1 he)
    ⟨by rw [htid]; rfl, 2, hpolled, le_rfl⟩ ⟨16, x, by decide, Option.mem_toList.1 hx, hxt, hxa⟩ rfl kept⟩

open Trial in
/-- The gateway was told version 2 by the last controller.  It waits for more, although this one has moved
the session since. -/
theorem sleeps_behind_restart :
    WellFormed lastLife.store ∧ ∃ t : Lifetimes (Fin 2), Lifetimes.Runs (.start lastLife) t ∧
      (∃ w ∈ t.past, Said w 0 (.gatewayState lastSaid)) ∧
      ∃ (q : ℕ) (e : ServerEntry Unit (Fin 2)), t.c.world.hist[q]? = some e ∧ e.tid = 0 ∧
        Sleeps t.d e lastSaid.version ∧
        ¬ UpToDate t.d e.pre.1.mem 0 (.gatewayState lastSaid) := by
  obtain ⟨c₁, reach₁, said, quiet⟩ := Config.reaches_of_run_any (serverPool Unit (Fin 2))
    (turns [(1, 9), (0, 8)]) lastLife.start
    (fun c => (0, .gatewayState lastSaid) ∈ heard c.world ∧ ∀ e ∈ c.world.hist, written e.op e.res = none)
    (by decide)
  have hmem := mem_eq_store reach₁ quiet
  let t₁ : Lifetimes (Fin 2) := ⟨[], lastLife, c₁⟩
  have run₁ : Lifetimes.Runs (.start lastLife) t₁ := Lifetimes.runs_of_reaches reach₁
  have hrestart : (t₁.restart thisLife.requests).d = thisLife := by
    change (⟨fun _ => config, c₁.world.st.1.mem, thisLife.requests⟩ : Deployment Unit (Fin 2)) = _
    rw [hmem]
    rfl
  obtain ⟨c₂, reach₂, e, hmem₂, htid, hpolled, hclients, hown⟩ :=
    Config.reaches_of_run_any (serverPool Unit (Fin 2)) (turns [(1, 11), (0, 2)]) thisLife.start
    (fun c => ∃ e ∈ c.world.hist, e.tid = 0 ∧ polled e.op e.res = some 2 ∧
      (decodeClients (e.pre.1.mem.list clientKeyPrefix)).toOption = some [client] ∧
      ownershipIn e.pre.1.mem "7" = some ⟨"7", "b", "a", 2⟩)
    (by decide)
  obtain ⟨q, he⟩ := List.mem_iff_getElem?.1 hmem₂
  have run₂ : Lifetimes.Runs (.start lastLife) { t₁.restart thisLife.requests with c := c₂ } := by
    refine (run₁.tail (.restart t₁ thisLife.requests)).trans (Lifetimes.runs_of_reaches ?_)
    change ((t₁.restart thisLife.requests).d.start).Reaches _ _
    rw [hrestart]
    exact reach₂
  refine ⟨wellFormed_store, _, run₂, ⟨c₁.world, by simp [Lifetimes.restart, t₁], said_of_mem said⟩, q, e,
    he, htid, ⟨by rw [htid]; rfl, 2, hpolled, le_rfl⟩, ?_⟩
  rintro ⟨-, cs, hcs, hsessions⟩
  rw [hcs] at hclients
  cases hclients
  obtain ⟨own, hown', hopened⟩ := (List.forall₂_cons.1 hsessions).1
  cases hown'.symm.trans hown
  have hmoved : opened = sessionOf config client ⟨"7", "b", "a", 2⟩ := hopened
  exact absurd hmoved (by decide)

end Egressa
