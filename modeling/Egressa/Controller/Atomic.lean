import Egressa.Controller.Effects

/-!
# Requests whose save fails

A `FileStore` writes in memory first and saves then, and leaves the write in memory when the save
fails.  So a request may be refused and its write be there all the same, with the version not
bumped.  The result of this module is which requests are atomic: those that meet no fault behind a
record that is observed.
-/

namespace Egressa

/-- Later requests observe the same in both stores: gateway and client records, and the ownership records of sessions
with a client record. -/
structure Same (m m' : MemStore) : Prop where
  gateways : ∀ id, m'.get (gatewayKey id) = m.get (gatewayKey id)
  clients : ∀ id, m'.get (clientKey id) = m.get (clientKey id)
  owners : ∀ id, (m.get (clientKey id)).isSome → m'.get (sessionKey id) = m.get (sessionKey id)

/-! ## What is observed -/

/-- A write that changes what later requests observe. -/
inductive Visible (m : MemStore) : String × Doc → Prop
  | gateway {id : String} {value : Doc} (h : m.get (gatewayKey id) ≠ some value) : Visible m (gatewayKey id, value)
  | client {id : String} {value : Doc} (h : m.get (clientKey id) ≠ some value) : Visible m (clientKey id, value)
  | owner {id : String} {value : Doc} (h : m.get (sessionKey id) ≠ some value)
    (known : (m.get (clientKey id)).isSome) : Visible m (sessionKey id, value)

/-- The ownership record of a session that has no client record. -/
def Hidden (m : MemStore) (w : String × Doc) : Prop := ∃ id, w.1 = sessionKey id ∧ m.get (clientKey id) = none

variable {m m' : MemStore} {w : String × Doc}

theorem Same.refl (m : MemStore) : Same m m := ⟨fun _ => rfl, fun _ => rfl, fun _ _ => rfl⟩

theorem Visible.not_same (h : Visible m w) (hw : m'.get w.1 = some w.2) : ¬ Same m m' := by
  intro same
  cases h with
  | gateway h => exact h ((same.gateways _).symm.trans hw)
  | client h => exact h ((same.clients _).symm.trans hw)
  | owner h known => exact h ((same.owners _ known).symm.trans hw)

theorem Visible.not_hidden (h : Visible m w) : ¬ Hidden m w := by
  rintro ⟨id, hid, none⟩
  cases h with
  | gateway h => exact sessionKey_ne_gatewayKey _ _ hid.symm
  | client h => exact sessionKey_ne_clientKey _ _ hid.symm
  | owner h known =>
    obtain rfl := sessionKey_inj.1 hid
    rw [none] at known
    cases known

theorem Hidden.same (h : Hidden m w) : Same m (m.put w.1 w.2) := by
  obtain ⟨id, hid, none⟩ := h
  rw [hid]
  refine ⟨fun i => m.get_put_ne _ (sessionKey_ne_gatewayKey id i).symm,
    fun i => m.get_put_ne _ (sessionKey_ne_clientKey id i).symm, fun i known => m.get_put_ne _ fun hi => ?_⟩
  rw [sessionKey_inj.1 hi, none] at known
  cases known

/-- The records a request writes: one that is observed, or two of which the second is. -/
inductive Shape (m : MemStore) : List (String × Doc) → Prop
  | one {w : String × Doc} (h : Visible m w) : Shape m [w]
  | two {id id' : String} {own value : Doc} (h : m.get (sessionKey id) ≠ some own)
    (h' : m.get (clientKey id') ≠ some value) : Shape m [(sessionKey id, own), (clientKey id', value)]

theorem visible_or_hidden {id : String} {own : Doc} (h : m.get (sessionKey id) ≠ some own) :
    Visible m (sessionKey id, own) ∨ Hidden m (sessionKey id, own) := by
  cases hc : m.get (clientKey id) with
  | none => exact Or.inr ⟨id, rfl, hc⟩
  | some _ => exact Or.inl (.owner h (by rw [hc]; rfl))

/-! ## Faults -/

/-- The first write that fails. -/
def failing : List (Option String) → List (String × Doc) → Option (String × Doc)
  | some _ :: _, w :: _ => some w
  | none :: faults, _ :: writes => failing faults writes
  | _, _ => none

theorem failing_nil (faults : List (Option String)) : failing faults [] = none := by
  rcases faults with _ | ⟨_ | _, _⟩ <;> rfl

section Faults

variable {ι : Type}

theorem commit_of_failing_none (d : Disk ι) (writes : List (String × Doc)) (h : failing d.faults writes = none) :
    (commit (writeThen Disk.save) d writes).1 = none ∧
      (commit (writeThen Disk.save) d writes).2.mem = d.mem.puts writes := by
  induction writes generalizing d with
  | nil => exact ⟨rfl, rfl⟩
  | cons w writes ih =>
    rw [commit, writeThen, Disk.save]
    rcases hf : d.faults with _ | ⟨_ | e, rest⟩
    · exact ih _ (by cases writes <;> rfl)
    · rw [hf] at h
      exact ih _ h
    · rw [hf] at h
      cases h

theorem commit_of_failing (d : Disk ι) (writes : List (String × Doc)) (h : failing d.faults writes = some w) :
    ∃ done rest, writes = done ++ w :: rest ∧ ((commit (writeThen Disk.save) d writes).1).isSome ∧
      (commit (writeThen Disk.save) d writes).2.mem = d.mem.puts (done ++ [w]) := by
  induction writes generalizing d with
  | nil => cases hf : d.faults <;> simp [hf, failing] at h
  | cons w' writes ih =>
    rw [commit, writeThen, Disk.save]
    rcases hf : d.faults with _ | ⟨_ | e, rest⟩
    · simp [hf, failing] at h
    · rw [hf] at h
      obtain ⟨done, rest', rfl, some, mem⟩ := ih
        { d with mem := d.mem.put w'.1 w'.2, file := (d.mem.put w'.1 w'.2).list "", faults := rest } h
      exact ⟨w' :: done, rest', rfl, some, mem⟩
    · rw [hf] at h
      cases h
      exact ⟨[], writes, rfl, rfl, rfl⟩

end Faults

/-! ## What requests write -/

/-- The transaction changes what is observed, announces it, and is then answered with success. -/
structure Commits (m : MemStore) (t : Transaction) : Prop where
  shape : Shape m t.writes
  bumps : t.bumps = true
  answer : t.answer.code = 200
  failure : t.failure / 100 ≠ 2

section Plans

variable {cfg : ServerConfig} (tidy : Tidy m)

include tidy

variable {gws : List Gateway}

theorem Tidy.gateway_eq (hgws : decodeGateways (m.list gatewayKeyPrefix) = .ok gws)
    {id : String} {g : Gateway} (hg : findGateway gws id = some g) :
    m.get (gatewayKey id) = some (.gateway g) := by
  obtain ⟨id', hget⟩ := (mem_gateways hgws g).1 (List.mem_of_find?_eq_some hg)
  obtain ⟨g', hg', rfl⟩ := tidy.gateways id' _ hget
  cases hg'
  have : g.id = id := by simpa using List.find?_some hg
  rwa [← this]

variable {t : Transaction}

theorem Registers.commits {id : String} {g : Gateway} (h : Registers cfg m id gws g t) : Commits m t := by
  obtain ⟨_, _, answer⟩ := h.answer
  refine ⟨?_, h.bumps, by rw [answer]; rfl, by rw [h.failure]; decide⟩
  rw [h.writes]
  refine .one (.gateway fun hget => ?_)
  -- the record found under this ID would be this one, and it is not equal to itself
  cases hf : findGateway gws id with
  | none =>
    have := List.find?_eq_none.1 hf g ((mem_gateways h.gateways g).2 ⟨id, hget⟩)
    simp [h.named] at this
  | some old =>
    have heq : old = g := Doc.gateway.inj (Option.some.inj ((tidy.gateway_eq h.gateways hf).symm.trans hget))
    have differs := h.differs
    rw [hf, heq] at differs
    simp [gatewayEqual] at differs

variable {c : ClientRecord}

omit tidy in
theorem Moves.commits {req : MigrateRequest} {own : OwnershipRecord} (h : Moves cfg m req c gws own t)
    (known : (m.get (clientKey c.id)).isSome) :
    Commits m t := by
  obtain ⟨_, answer⟩ := h.answer
  refine ⟨?_, h.bumps, by rw [answer]; rfl, by rw [h.failure]; decide⟩
  rw [h.writes]
  refine .one (.owner (get_ne_of_newer h.valid fun own' hown' => ?_) known)
  cases hown'.symm.trans h.owned
  exact h.newer

omit tidy in
theorem openWrites_shape {rec : OwnershipRecord} {writes : List (String × Doc)}
    (h : openWrites m rec c = .ok writes) (hc : m.get (clientKey c.id) ≠ some (.client c)) :
    Shape m writes := by
  obtain ⟨valid, ⟨newer, rfl⟩ | ⟨-, rfl⟩⟩ := openWrites_cases h
  · exact .two (get_ne_of_newer valid newer) hc
  · exact .one (.client hc)

theorem Reopens.differs {req : CreateSessionRequest} (h : Reopens cfg m req c)
    {backend : String} (switched : normBackend c.backend ≠ backend) (norm : normBackend backend = backend) :
    m.get (clientKey c.id) ≠ some (.client { c with backend }) := by
  rw [h.stored tidy]
  intro heq
  have : c.backend = backend := congrArg ClientRecord.backend (Doc.client.inj (Option.some.inj heq))
  rw [this, norm] at switched
  exact switched rfl

theorem Creates.commits {alive : AliveMap} {ω : Choice} {req : CreateSessionRequest}
    {backend : String} (norm : normBackend backend = backend)
    (h : Creates cfg m alive ω req backend t) :
    Commits m t := by
  obtain ⟨_, _, stores⟩ := h.stores
  obtain ⟨_, answer⟩ := stores.answer
  have code : t.answer.code = 200 := by rw [answer]; rfl
  cases h with
  | kept reopens switched _ _ _ hw =>
    subst hw
    exact ⟨.one (.client (reopens.differs tidy switched norm)), rfl, code, show 503 / 100 ≠ 2 by decide⟩
  | moved reopens switched _ _ _ hw =>
    exact ⟨openWrites_shape hw (reopens.differs tidy switched norm), rfl, code, show 503 / 100 ≠ 2 by decide⟩
  | opened clients unknown _ _ _ _ hc hw =>
    refine ⟨openWrites_shape hw fun hget => ?_, rfl, code, show 500 / 100 ≠ 2 by decide⟩
    exact unknown _ ((mem_clients clients _).2 ⟨_, hget⟩) (by rw [hc])

theorem Planned.commits {alive : AliveMap} {ω : Choice} {r : Request}
    (h : Planned cfg m alive ω r t) : t.writes = [] ∨ Commits m t := by
  cases h with
  | quiet h => exact Or.inl h
  | registers h => exact Or.inr (h.commits tidy)
  | @moves _ id _ c _ _ _ hc h =>
    obtain ⟨c', hc', rfl, -⟩ := tidy.clients id _ hc
    cases hc'
    exact Or.inr (h.commits (by rw [hc]; rfl))
  | creates h => exact Or.inr (h.commits tidy (normBackend_norm _))

end Plans

/-! ## Atomic requests -/

theorem Shape.same_iff {writes done rest : List (String × Doc)} (shape : Shape m writes)
    (h : writes = done ++ w :: rest) : Same m (m.puts (done ++ [w])) ↔ Hidden m w := by
  have last : (m.puts (done ++ [w])).get w.1 = some w.2 := by
    rw [MemStore.puts_append]
    exact MemStore.get_put_self _ _ _
  have visible (hv : Visible m w) : Same m (m.puts (done ++ [w])) ↔ Hidden m w :=
    ⟨fun same => absurd same (hv.not_same last), fun hidden => absurd hidden hv.not_hidden⟩
  cases shape with
  | one hv =>
    rcases done with _ | ⟨_, done⟩
    · cases h
      exact visible hv
    · simp at h
  | two ho hc =>
    rcases done with _ | ⟨_, _ | ⟨_, done⟩⟩
    · cases h
      rcases visible_or_hidden ho with hv | hidden
      · exact visible hv
      · exact ⟨fun _ => hidden, fun h => h.same⟩
    · cases h
      exact visible (.client hc)
    · simp at h

section Requests

variable {κ ι : Type} [DecidableEq κ] [DecidableEq ι]

/-- From `s`, a request is answered with `a` in state `s'`: one that is refused leaves no trace, and no
change goes unannounced. -/
def Clean (k : κ) (s s' : ServerState κ ι) (a : Answer) : Prop :=
  (a.code / 100 ≠ 2 → Same s.1.mem s'.1.mem) ∧ (¬ Same s.1.mem s'.1.mem → (s.2 k).version < (s'.2 k).version)

/-- Alone, a request that answers with an error leaves nothing behind. -/
def AtomicOnError (cfg : ServerConfig) (k : κ) (i : ι) (ω : Choice) (r : Request) (s : ServerState κ ι) :
    Prop :=
  ∃ a s', alone ω i (serve cfg fileStore k r) s = some (a, s') ∧ Clean k s s' a

/-- What a request asks to write. -/
def asked (cfg : ServerConfig) (k : κ) (ω : Choice) (r : Request) (s : ServerState κ ι) : List (String × Doc) :=
  (plan cfg s.1.mem (s.2 k).alive ω r).elim [] Transaction.writes

omit [DecidableEq κ] [DecidableEq ι] in
theorem Server.version_le_seen (id : String) (time : ℕ) (x : Server ι) : x.version ≤ (x.seen id time).version := by
  unfold Server.seen
  dsimp only
  split_ifs
  · exact le_rfl
  · exact Nat.le_succ _

omit [DecidableEq κ] [DecidableEq ι] in
theorem Transaction.version_lt_fields {t : Transaction} (h : t.bumps = true) (x : Server ι) :
    x.version < (t.fields x).version := by
  unfold Transaction.fields
  rw [h]
  cases t.sees with
  | none => exact Nat.lt_succ_self _
  | some p => exact (Nat.lt_succ_self _).trans_le (x.bump.version_le_seen p.1 p.2)

omit [DecidableEq ι] in
theorem Commits.clean_iff {t : Transaction} {k : κ} {s : ServerState κ ι} (h : Commits s.1.mem t) :
    Clean k s (t.run (writeThen Disk.save) k s).2 (t.run (writeThen Disk.save) k s).1 ↔
      ∀ w ∈ failing s.1.faults t.writes, Hidden s.1.mem w := by
  rw [Transaction.run]
  cases hf : failing s.1.faults t.writes with
  | none =>
    have all := commit_of_failing_none s.1 t.writes hf
    rcases hp : commit (writeThen Disk.save) s.1 t.writes with ⟨_ | e, d⟩
    · refine ⟨fun _ w hw => (by cases hw), fun _ => And.intro (fun code => ?_) fun _ => ?_⟩
      · rw [h.answer] at code
        exact absurd rfl code
      · dsimp only
        rw [Function.update_self]
        exact Transaction.version_lt_fields h.bumps _
    · rw [hp] at all
      cases all.1
  | some w =>
    obtain ⟨done, rest, hw, fails, mem⟩ := commit_of_failing s.1 t.writes hf
    rcases hp : commit (writeThen Disk.save) s.1 t.writes with ⟨_ | e, d⟩ <;> rw [hp] at fails mem
    · cases fails
    · -- the request is refused and the version stays, so the write must not be observed
      have same := h.shape.same_iff hw
      rw [← mem] at same
      simp only [Option.mem_some_iff, forall_eq', ← same]
      exact ⟨fun clean => clean.1 h.failure, fun same => ⟨fun _ => same, fun not => absurd same not⟩⟩

/-- A request is atomic unless a save fails behind a record that is observed. -/
theorem atomic_on_error_iff {cfg : ServerConfig} {k : κ} (i : ι) (ω : Choice) {r : Request}
    {s : ServerState κ ι} (hr : r.mutates = true) (tidy : Tidy s.1.mem) (idle : Idle k s) :
    AtomicOnError cfg k i ω r s ↔ ∀ w ∈ failing s.1.faults (asked cfg k ω r s), Hidden s.1.mem w := by
  obtain ⟨t, ht⟩ := Option.isSome_iff_exists.1 (isSome_plan cfg s.1.mem (s.2 k).alive ω hr)
  have run := backed_fileStore.alone_serve (ω := ω) (i := i) k cfg idle ht
  have clean : AtomicOnError cfg k i ω r s ↔
      Clean k s (t.run (writeThen Disk.save) k s).2 (t.run (writeThen Disk.save) k s).1 := by
    constructor
    · rintro ⟨a, s', h, clean⟩
      obtain ⟨rfl, rfl⟩ := Prod.mk.inj (Option.some.inj (run.symm.trans h))
      exact clean
    · exact fun clean => ⟨_, _, run, clean⟩
  rw [clean, asked, ht]
  rcases (plan_cases ht).commits tidy with none | commits
  · have mem : (t.run (writeThen Disk.save) k s).2.1 = s.1 := by
      rw [Transaction.run, none]
      rfl
    rw [Clean, mem, Option.elim, none]
    refine ⟨fun _ w hw => ?_, fun _ => ⟨fun _ => Same.refl _, fun not => absurd (Same.refl _) not⟩⟩
    rw [failing_nil] at hw
    cases hw
  · exact commits.clean_iff

end Requests

/-! ### On the small network -/

namespace Trial

def move : Request := .migrate "secret" "7" (.ok ⟨1, "b", "a"⟩)

end Trial

open Trial in
theorem atomic_on_error_iff_move : AtomicOnError config () () {} move (controller []) :=
  (atomic_on_error_iff () {} rfl tidy_store ⟨rfl, rfl⟩).2 fun w hw => by
    rw [show (controller []).1.faults = [] from rfl] at hw
    cases h : asked config () {} move (controller []) <;> rw [h] at hw <;> cases hw

open Trial in
/-- The disk is full when session 7 moves: the client is told that the request failed, and the
session has moved, with the version as it was. -/
theorem migrate_not_atomic : move.mutates = true ∧ Tidy store ∧ Idle () (controller [some "disk full"]) ∧
    ¬ AtomicOnError config () () {} move (controller [some "disk full"]) := by
  refine ⟨rfl, tidy_store, ⟨rfl, rfl⟩, ?_⟩
  have run : (alone {} () (serve config fileStore () move) (controller [some "disk full"])).map
      (fun p => (p.1.code, p.2.1.mem.get (sessionKey "7"))) =
      some (500, some (.ownership ⟨"7", "b", "a", 2⟩)) := by decide
  rintro ⟨a, s', h, clean⟩
  rw [h] at run
  obtain ⟨code, moved⟩ := Prod.mk.inj (Option.some.inj run)
  have same := clean.1 (by rw [code]; decide)
  have kept := (same.owners "7" (by decide)).symm.trans moved
  exact absurd kept (by decide)

end Egressa
