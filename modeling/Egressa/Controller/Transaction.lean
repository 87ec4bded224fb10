import Egressa.Controller.Server

/-!
# Requests as transactions

A handler that writes holds the mutex throughout, so that it may be taken to run alone.  Then it is a transaction: it
decides from the store what to write, writes one record after another until a save fails, and if none does, changes
the controller's fields and answers.
-/

namespace Egressa

open Conc
open Function (update update_eq_self update_idem update_self)

section Alone

variable {κ ι : Type} [DecidableEq κ] [DecidableEq ι]

/-- A handler that nothing interferes with. -/
def alone {α : Type} (ω : Choice) (i : ι) (p : Handler κ α) (s : ServerState κ ι) : Option (α × ServerState κ ι) :=
  p.eval (serverPool κ ι) ω i 1 s

section Rules

variable {α β : Type} {ω : Choice} {i : ι} {s t : ServerState κ ι}

theorem alone_bind {p : Handler κ α} {a : α} (h : alone ω i p s = some (a, t)) (f : α → Handler κ β) :
    alone ω i (p >>= f) s = alone ω i (f a) t := by
  rw [alone, Prog.eval_bind]
  change (alone ω i p s).bind _ = _
  rw [h]
  rfl

theorem alone_iterate {γ : Type} {body : β → Handler κ (β ⊕ γ)} {b : β} {c : γ}
    (h : alone ω i (body b) s = some (.inr c, t)) : alone ω i (Prog.iterate body b) s = some (c, t) := by
  change (turns (fun b s => alone ω i (body b) s) 1 b s).bind _ = _
  simp only [turns, h]
  rfl

theorem alone_onStore {o : StoreOp} {r : o.Res} {d' : Disk ι}
    (h : (storeSystem ι Choice).exec ω i o s.1 = some (r, d')) :
    alone ω i (onStore (X := ServerSig κ) o) s = some (r, d', s.2) := by
  change (((storeSystem ι Choice).exec ω i o s.1).map _).bind _ = _
  rw [h]
  rfl

theorem alone_onServer {k : κ} {o : ServerOp} {r : o.Res} {x : Server ι} (h : (s.2 k).exec ω i o = some (r, x)) :
    alone ω i (onServer k o) s = some (r, s.1, update s.2 k x) := by
  change ((((s.2 k).exec ω i o).map _).map _).bind _ = _
  rw [h]
  rfl

theorem alone_peek {k : κ} {o : ServerOp} {r : o.Res} (h : (s.2 k).exec ω i o = some (r, s.2 k)) :
    alone ω i (onServer k o) s = some (r, s) := by
  rw [alone_onServer h, update_eq_self]

end Rules

/-! ## Saves -/

/-- What a `save` leaves of a disk, and its error. -/
def Disk.save (d : Disk ι) : Option String × Disk ι :=
  match d.faults with
  | [] => (none, { d with file := d.mem.list "" })
  | none :: rest => (none, { d with file := d.mem.list "", faults := rest })
  | some e :: rest => (some e, { d with faults := rest })

theorem alone_save (ω : Choice) (i : ι) (s : ServerState κ ι) (h : s.1.saveMu = none) :
    alone ω i save s = some (s.1.save.1, s.1.save.2, s.2) := by
  obtain ⟨⟨mem, file, saveMu, faults⟩, x⟩ := s
  obtain rfl : saveMu = none := h
  let held : Disk ι := ⟨mem, file, some i, faults⟩
  have lock : (storeSystem ι Choice).exec ω i .saveLock ⟨mem, file, none, faults⟩ = some ((), held) := by
    simp only [storeSystem, if_true]
    rfl
  have list : (storeSystem ι Choice).exec ω i (.memList "") held = some (mem.list "", held) := rfl
  have rename : (storeSystem ι Choice).exec ω i (.rename (mem.list "")) held = some (held.save.1, held.save.2) := by
    rcases faults with _ | ⟨_ | e, rest⟩ <;> rfl
  have unlock : (storeSystem ι Choice).exec ω i .saveUnlock held.save.2 =
      some ((), { held.save.2 with saveMu := none }) := by
    rcases faults with _ | ⟨_ | e, rest⟩ <;> simp only [storeSystem, held, Disk.save, if_true] <;> rfl
  refine (alone_bind (alone_onStore lock) _).trans ?_
  refine (alone_bind (alone_onStore list) _).trans ?_
  refine (alone_bind (alone_onStore rename) _).trans ?_
  refine (alone_bind (alone_onStore unlock) _).trans ?_
  rcases faults with _ | ⟨_ | e, rest⟩ <;> rfl

/-! ## Stores -/

/-- `store` keeps a `MemStore`, and a write on it is `write`: it may fail, and may then have been made in memory. -/
structure Backed (store : KVStore (HandlerSig κ))
    (write : Disk ι → String → Doc → Option String × Disk ι) : Prop where
  get : ∀ ω (i : ι) (s : ServerState κ ι) key, alone ω i (store.get key) s = some (.ok (s.1.mem.get key), s)
  list : ∀ ω (i : ι) (s : ServerState κ ι) pfx, alone ω i (store.list pfx) s = some (.ok (s.1.mem.list pfx), s)
  put : ∀ ω (i : ι) (s : ServerState κ ι) key value, s.1.saveMu = none →
    alone ω i (store.put key value) s = some ((write s.1 key value).1, (write s.1 key value).2, s.2)
  fenced : ∃ fencer, store.fencer = some fencer ∧ ∀ ω (i : ι) (s : ServerState κ ι) key,
    alone ω i (fencer.revision key) s = some (.ok (s.1.mem.revision key), s) ∧
    ∀ value, s.1.saveMu = none → ∃ rev ok,
      alone ω i (fencer.compareAndSwap key ((s.1.mem.revision key).getD 0) value) s =
        some ((rev, ok, (write s.1 key value).1), (write s.1 key value).2, s.2) ∧
      ((write s.1 key value).1 = none → ok = true)
  mem : ∀ d key value, (write d key value).1 = none → (write d key value).2.mem = d.mem.put key value
  failed : ∀ d key value, (write d key value).2.mem = d.mem.put key value ∨ (write d key value).2.mem = d.mem
  saveMu : ∀ d key value, (write d key value).2.saveMu = d.saveMu

/-- A write in memory, with `flush` behind it. -/
def writeThen (flush : Disk ι → Option String × Disk ι) (d : Disk ι) (key : String) (value : Doc) :
    Option String × Disk ι :=
  flush { d with mem := d.mem.put key value }

theorem backed_storeThen {after : Handler κ (Option String)} {flush : Disk ι → Option String × Disk ι}
    (flushes : ∀ ω (i : ι) (s : ServerState κ ι), s.1.saveMu = none →
      alone ω i after s = some ((flush s.1).1, (flush s.1).2, s.2))
    (mem : ∀ d, (flush d).2.mem = d.mem) (saveMu : ∀ d, (flush d).2.saveMu = d.saveMu) :
    Backed (storeThen after) (writeThen flush) where
  get _ _ _ _ := rfl
  list _ _ _ _ := rfl
  put ω i s key value free :=
    (alone_bind (t := ({ s.1 with mem := s.1.mem.put key value }, s.2)) rfl _).trans (flushes ω i _ free)
  fenced := by
    refine ⟨fencerThen after, rfl, fun ω i s key => ⟨rfl, fun value free => ?_⟩⟩
    refine ⟨s.1.mem.nextRev + 1, true, ?_, fun _ => rfl⟩
    have cas : (storeSystem ι Choice).exec ω i (.memCAS key ((s.1.mem.revision key).getD 0) value) s.1 =
        some ((s.1.mem.nextRev + 1, true), { s.1 with mem := s.1.mem.put key value }) := by
      simp only [storeSystem, MemStore.compareAndSwap, ne_eq, not_true_eq_false, if_false]
      rfl
    exact (alone_bind (alone_onStore cas) _).trans
      (alone_bind (flushes ω i ({ s.1 with mem := s.1.mem.put key value }, s.2) free) _)
  mem d key value _ := mem _
  failed d key value := Or.inl (mem _)
  saveMu d key value := saveMu _

theorem backed_fileStore : Backed (κ := κ) fileStore (writeThen (Disk.save (ι := ι))) := by
  refine backed_storeThen alone_save (fun d => ?_) fun d => ?_
  · unfold Disk.save
    split <;> rfl
  · unfold Disk.save
    split <;> rfl

theorem backed_memStore : Backed (κ := κ) memStore (writeThen fun d : Disk ι => (none, d)) :=
  backed_storeThen (fun _ _ _ _ => rfl) (fun _ => rfl) fun _ => rfl

/-! ## Reads -/

section Reads

variable {ω : Choice} {i : ι} {store : KVStore (HandlerSig κ)}
  {write : Disk ι → String → Doc → Option String × Disk ι} (s : ServerState κ ι)

theorem Backed.alone_gateways (hk : Backed store write) : alone ω i (gateways store) s =
    some (decodeGateways (s.1.mem.list gatewayKeyPrefix), s) :=
  alone_bind (hk.list ω i s gatewayKeyPrefix) _

theorem Backed.alone_clients (hk : Backed store write) : alone ω i (clients store) s =
    some (decodeClients (s.1.mem.list clientKeyPrefix), s) :=
  alone_bind (hk.list ω i s clientKeyPrefix) _

theorem Backed.alone_clientByID (hk : Backed store write) (id : String) :
    alone ω i (clientByID store id) s = some (decodeClient (s.1.mem.get (clientKey id)), s) :=
  alone_bind (hk.get ω i s (clientKey id)) _

theorem alone_now (k : κ) : alone ω i (now k) s = some (ω.time, s) := alone_peek (o := .now) rfl

theorem alone_fields (k : κ) : alone ω i (fields k) s = some (((s.2 k).alive, (s.2 k).lastSeen), s) :=
  alone_peek (o := .fields) rfl

theorem alone_randomSessionID (k : κ) :
    alone ω i (randomSessionID k) s = some (ω.number.map fun n => formatUint n.1, s) :=
  alone_peek (o := .randomSessionID) rfl

theorem alone_randomSecret (k : κ) : alone ω i (randomSecret k) s = some (ω.secret, s) :=
  alone_peek (o := .randomSecret) rfl

theorem Backed.alone_ownershipGet (hk : Backed store write) (sid : String) :
    alone ω i (ownershipGet store sid) s = some (decodeOwnership (s.1.mem.get (sessionKey sid)), s) := by
  refine (alone_bind (hk.get ω i s (sessionKey sid)) _).trans ?_
  cases s.1.mem.get (sessionKey sid) with
  | none => rfl
  | some data =>
    dsimp only
    rw [decodeOwnership]
    cases unmarshalOwnership (some data) <;> rfl

def sessionIn (cfg : ServerConfig) (m : MemStore) (c : ClientRecord) : Except String Session :=
  match decodeOwnership (m.get (sessionKey c.id)) with
  | .error e => .error e
  | .ok none => .error ("controller: session " ++ c.id ++ " has no ownership record")
  | .ok (some own) => .ok (sessionOf cfg c own)

theorem Backed.alone_session (hk : Backed store write) (cfg : ServerConfig) (c : ClientRecord) :
    alone ω i (session cfg store c) s = some (sessionIn cfg s.1.mem c, s) := by
  rw [session, alone_bind (hk.alone_ownershipGet s c.id), sessionIn]
  cases decodeOwnership (s.1.mem.get (sessionKey c.id)) with
  | error e => rfl
  | ok own => cases own <;> rfl

end Reads

/-! ## Writes -/

/-- Write one record after another, until a write fails. -/
def commit (write : Disk ι → String → Doc → Option String × Disk ι) :
    Disk ι → List (String × Doc) → Option String × Disk ι
  | d, [] => (none, d)
  | d, (key, value) :: rest => match write d key value with
    | (some e, d') => (some e, d')
    | (none, d') => commit write d' rest

/-- Writes one document after another. -/
def MemStore.puts (m : MemStore) (l : List (String × Doc)) : MemStore := l.foldl (fun m p => m.put p.1 p.2) m

/-- Whether `SetIfNewer` stores the record. -/
def supersedes (m : MemStore) (rec : OwnershipRecord) : Except String Bool :=
  match rec.validate with
  | .error e => .error e
  | .ok () => match m.get (sessionKey rec.session) with
    | none => .ok true
    | some data => (unmarshalOwnership (some data)).map fun cur => rec.newer cur

def newerWrites (rec : OwnershipRecord) (applied : Bool) : List (String × Doc) :=
  if applied then [(sessionKey rec.session, .ownership rec)] else []

section Commit

theorem MemStore.puts_append (m : MemStore) (l l' : List (String × Doc)) : m.puts (l ++ l') = (m.puts l).puts l' :=
  List.foldl_append

variable {l : List (String × Doc)}

theorem MemStore.get_puts_ne (m : MemStore) {key : String}
    (h : ∀ w ∈ l, key ≠ w.1) : (m.puts l).get key = m.get key := by
  induction l generalizing m with
  | nil => rfl
  | cons w l ih =>
    rw [List.forall_mem_cons] at h
    exact (ih _ h.2).trans (m.get_put_ne _ h.1)

theorem MemStore.get_puts (m : MemStore) {key : String} {value : Doc}
    (h : (m.puts l).get key = some value) : m.get key = some value ∨ (key, value) ∈ l := by
  induction l generalizing m with
  | nil => exact Or.inl h
  | cons w l ih =>
    rcases ih _ h with h | h
    · rw [m.get_put] at h
      split_ifs at h with hk
      · cases h
        exact Or.inr (by simp [hk])
      · exact Or.inl h
    · exact Or.inr (List.mem_cons_of_mem w h)

theorem MemStore.list_puts_other (m : MemStore) {pfx : String}
    (h : ∀ w ∈ l, hasPrefix w.1 pfx = false) : (m.puts l).list pfx = m.list pfx := by
  induction l generalizing m with
  | nil => rfl
  | cons w l ih =>
    rw [List.forall_mem_cons] at h
    exact (ih _ h.2).trans (m.list_put_other _ h.1)

variable {write : Disk ι → String → Doc → Option String × Disk ι}

omit [DecidableEq ι] in
theorem commit_append (d : Disk ι) (l l' : List (String × Doc)) :
    commit write d (l ++ l') = match commit write d l with
      | (some e, d') => (some e, d')
      | (none, d') => commit write d' l' := by
  induction l generalizing d with
  | nil => rfl
  | cons p l ih =>
    simp only [List.cons_append, commit]
    rcases write d p.1 p.2 with ⟨_ | e, d'⟩
    · exact ih d'
    · rfl

omit [DecidableEq ι] in
theorem commit_singleton (d : Disk ι) (key : String) (value : Doc) :
    commit write d [(key, value)] = write d key value := by
  rw [commit]
  rcases write d key value with ⟨_ | e, d'⟩ <;> rfl

variable {store : KVStore (HandlerSig κ)} (hk : Backed store write)

include hk

theorem Backed.commit_prefix (d : Disk ι) (l : List (String × Doc)) :
    ∃ done, done <+: l ∧ (commit write d l).2.mem = d.mem.puts done ∧
      ((commit write d l).1 = none → done = l) := by
  induction l generalizing d with
  | nil => exact ⟨[], List.prefix_rfl, rfl, fun _ => rfl⟩
  | cons p l ih =>
    have mem := hk.mem d p.1 p.2
    have failed := hk.failed d p.1 p.2
    rw [commit]
    rcases hp : write d p.1 p.2 with ⟨_ | e, d'⟩ <;> rw [hp] at mem failed
    · obtain ⟨done, hd, hmem, all⟩ := ih d'
      refine ⟨p :: done, List.cons_prefix_cons.2 ⟨rfl, hd⟩, ?_, fun h => by rw [all h]⟩
      exact hmem.trans (by rw [mem rfl]; rfl)
    · rcases failed with made | not
      · exact ⟨[p], List.cons_prefix_cons.2 ⟨rfl, List.nil_prefix⟩, made, fun h => by cases h⟩
      · exact ⟨[], List.nil_prefix, not, fun h => by cases h⟩

theorem Backed.commit_saveMu (d : Disk ι) (l : List (String × Doc)) : (commit write d l).2.saveMu = d.saveMu := by
  induction l generalizing d with
  | nil => rfl
  | cons p l ih =>
    have saveMu := hk.saveMu d p.1 p.2
    rw [commit]
    rcases hp : write d p.1 p.2 with ⟨_ | e, d'⟩ <;> rw [hp] at saveMu
    · exact (ih d').trans saveMu
    · exact saveMu

theorem Backed.commit_none {d d' : Disk ι} (h : commit write d l = (none, d')) :
    d'.mem = d.mem.puts l ∧ d'.saveMu = d.saveMu := by
  obtain ⟨done, -, mem, all⟩ := hk.commit_prefix d l
  have saveMu := hk.commit_saveMu d l
  rw [h] at mem all saveMu
  obtain rfl := all rfl
  exact ⟨mem, saveMu⟩

end Commit

section Writes

variable {ω : Choice} {i : ι} {store : KVStore (HandlerSig κ)}
  {write : Disk ι → String → Doc → Option String × Disk ι} (hk : Backed store write) {s : ServerState κ ι}
  (free : s.1.saveMu = none)

include hk free in
theorem Backed.alone_put (key : String) (value : Doc) : alone ω i (store.put key value) s =
      let p := commit write s.1 [(key, value)]
      some (p.1, p.2, s.2) := by
  rw [commit_singleton]
  exact hk.put ω i s key value free

theorem alone_swapTurn {fencer : Fencer (HandlerSig κ)} {rec : OwnershipRecord}
    (swap : ∃ rev ok, alone ω i (fencer.compareAndSwap (sessionKey rec.session)
        ((s.1.mem.revision (sessionKey rec.session)).getD 0) (.ownership rec)) s =
        some ((rev, ok, (write s.1 (sessionKey rec.session) (.ownership rec)).1),
          (write s.1 (sessionKey rec.session) (.ownership rec)).2, s.2) ∧
      ((write s.1 (sessionKey rec.session) (.ownership rec)).1 = none → ok = true))
    (hv : rec.validate = .ok ()) :
    alone ω i (swapTurn fencer rec ((s.1.mem.revision (sessionKey rec.session)).getD 0)) s =
      let p := commit write s.1 (newerWrites rec true)
      some (.inr (p.1.isNone, p.1), p.2, s.2) := by
  have hm : marshalOwnership rec = .ok (.ownership rec) := by simp only [marshalOwnership, hv]
  obtain ⟨rev, ok, swap, done⟩ := swap
  rw [swapTurn, hm, newerWrites, if_pos rfl, commit_singleton]
  refine (alone_bind swap _).trans ?_
  dsimp only
  cases hw : (write s.1 (sessionKey rec.session) (.ownership rec)).1 with
  | some e => rfl
  | none =>
    rw [done hw]
    rfl

include hk free in
theorem Backed.alone_setIfNewer (rec : OwnershipRecord) :
    alone ω i (setIfNewer store rec) s = match supersedes s.1.mem rec with
      | .error e => some ((false, some e), s)
      | .ok applied =>
        let p := commit write s.1 (newerWrites rec applied)
        some ((applied && p.1.isNone, p.1), p.2, s.2) := by
  unfold supersedes
  obtain ⟨fencer, hfencer, ops⟩ := hk.fenced
  obtain ⟨revises, swaps⟩ := ops ω i s (sessionKey rec.session)
  cases hv : rec.validate with
  | error e =>
    rw [setIfNewer, hv]
    rfl
  | ok u =>
    have revision := s.1.mem.revision_isSome (sessionKey rec.session)
    have swap := alone_swapTurn (swaps (.ownership rec) free) hv
    cases hget : s.1.mem.get (sessionKey rec.session) with
    | none =>
      have hrev : s.1.mem.revision (sessionKey rec.session) = none := by simpa [hget] using revision
      rw [hrev] at swap revises
      rw [setIfNewer, hv, hfencer]
      exact alone_iterate ((alone_bind revises _).trans swap)
    | some data =>
      obtain ⟨rev, hrev⟩ := Option.isSome_iff_exists.1 (revision.trans (by rw [hget]; rfl))
      have get := hk.get ω i s (sessionKey rec.session)
      rw [hrev] at swap revises
      rw [hget] at get
      -- with the record read, the turn is decided
      have turn {c : Bool × Option String} {t : ServerState κ ι}
          (h : alone ω i (judgeTurn fencer rec rev (some data)) s = some (.inr c, t)) :
          alone ω i (setIfNewer store rec) s = some (c, t) := by
        rw [setIfNewer, hv, hfencer]
        exact alone_iterate ((alone_bind revises _).trans ((alone_bind get _).trans h))
      dsimp only
      cases hd : unmarshalOwnership (some data) with
      | error e => exact turn (by rw [judgeTurn, hd]; rfl)
      | ok cur =>
        simp only [Except.map]
        cases hn : rec.newer cur with
        | false => exact turn (by simp only [judgeTurn, hd, hn]; rfl)
        | true => exact turn (by simp only [judgeTurn, hd, hn]; exact swap)

end Writes

end Alone

/-! ## Transactions -/

/-- What a request is to do: the records to write, the status if a save fails, and if none does, the
answer, whether to bump the version, and which gateway has been seen when. -/
structure Transaction where
  writes : List (String × Doc) := []
  failure : ℕ := 500
  answer : Answer
  bumps : Bool := false
  sees : Option (String × ℕ) := none

def Transaction.refuse (code : ℕ) (text : String) : Transaction := { answer := .error code text none }

section Fields

variable {ι : Type}

def Server.bump (x : Server ι) : Server ι := { x with version := x.version + 1 }

def Server.seen (id : String) (time : ℕ) (x : Server ι) : Server ι :=
  let x := { x with lastSeen := x.lastSeen.insert id time }
  if aliveIn x.alive id then x else { x with alive := x.alive.insert id true }.bump

/-- What a transaction does to the fields of its server. -/
def Transaction.fields (t : Transaction) (x : Server ι) : Server ι :=
  let x := if t.bumps then x.bump else x
  t.sees.elim x fun p => x.seen p.1 p.2

def Server.withMu (x : Server ι) (mu : Option ι) : Server ι := { x with mu := mu }

theorem Server.withMu_of_eq {x : Server ι} {mu : Option ι} (h : x.mu = mu) : x.withMu mu = x := by
  subst h
  rfl

theorem Server.seen_withMu (id : String) (time : ℕ) (x : Server ι) (mu : Option ι) :
    (x.withMu mu).seen id time = (x.seen id time).withMu mu := by
  unfold Server.seen
  cases h : aliveIn x.alive id <;> simp only [Server.withMu, h] <;> rfl

theorem Transaction.fields_withMu (t : Transaction) (x : Server ι) (mu : Option ι) :
    t.fields (x.withMu mu) = (t.fields x).withMu mu := by
  unfold Transaction.fields
  cases t.sees with
  | none => cases t.bumps <;> rfl
  | some p =>
    cases t.bumps with
    | false => exact x.seen_withMu p.1 p.2 mu
    | true => exact x.bump.seen_withMu p.1 p.2 mu

theorem Transaction.fields_mu (t : Transaction) (x : Server ι) : (t.fields x).mu = x.mu := by
  change (t.fields (x.withMu x.mu)).mu = x.mu
  rw [t.fields_withMu]
  rfl

end Fields

section Plans

variable (cfg : ServerConfig) (m : MemStore)

/-- What `handleRegisterGateway` decides on. -/
def planRegister (time : ℕ) (id : String) (req : RegisterGatewayRequest) : Transaction :=
  match decodeGateways (m.list gatewayKeyPrefix) with
  | .error e => .refuse 500 e
  | .ok gws => match nodeIPOf cfg gws id with
    | .error e => .refuse 503 e
    | .ok nodeIP =>
      let next := req.record id nodeIP
      if (findGateway gws id).all (fun g => !gatewayEqual g next) then
        { writes := [(gatewayKey id, .gateway next)]
          answer := .registered nodeIP cfg.network
          bumps := true
          sees := some (id, time) }
      else { answer := .registered nodeIP cfg.network, sees := some (id, time) }

/-- What `handleMigrate` decides on. -/
def planMigrate (req : MigrateRequest) (c : ClientRecord) : Transaction :=
  match decodeGateways (m.list gatewayKeyPrefix) with
  | .error e => .refuse 500 e
  | .ok gws =>
    if !(findGateway gws req.access).any (canAccess · (normBackend c.backend)) then
      { answer := noAccess cfg req.access (normBackend c.backend) }
    else if !(findGateway gws req.egress).any (·.roles.has roleEgress) then
      { answer := noEgress cfg req.egress }
    else match sessionIn cfg m c with
      | .error e => .refuse 500 e
      | .ok cur =>
        if req.epoch ≠ cur.epoch then { answer := conflict cur }
        else
          let next : OwnershipRecord := ⟨c.id, req.access, req.egress, cur.epoch + 1⟩
          match supersedes m next with
          | .error e => .refuse 500 e
          | .ok false => { answer := conflict cur }
          | .ok true =>
            { writes := newerWrites next true
              answer := .migrated { cur with access := req.access, egress := req.egress, epoch := cur.epoch + 1 }
              bumps := true }

def createdIn (c : ClientRecord) (secret : String) : Answer :=
  match sessionIn cfg m c with
  | .error e => .error 500 e none
  | .ok sess => .created sess secret cfg.network

def openWrites (rec : OwnershipRecord) (c : ClientRecord) : Except String (List (String × Doc)) :=
  (supersedes m rec).map fun applied => newerWrites rec applied ++ [(clientKey c.id, .client c)]

def switchWrites (alive : AliveMap) (c : ClientRecord) (backend : String) : Except String (List (String × Doc)) :=
  match sessionIn cfg m c with
  | .error e => .error e
  | .ok cur => match decodeGateways (m.list gatewayKeyPrefix) with
    | .error e => .error e
    | .ok gws =>
      if !canAccess (gatewayOrZero gws cur.access) backend then
        match pickPath cfg.quote gws alive cur.egress backend with
        | .error e => .error e
        | .ok (access, _) =>
          openWrites m ⟨c.id, access, cur.egress, cur.epoch + 1⟩ { c with backend }
      else .ok [(clientKey c.id, .client { c with backend })]

/-- A known key opens its session again. -/
def planReopen (alive : AliveMap) (req : CreateSessionRequest) (backend : String) (c : ClientRecord) :
    Transaction :=
  if c.secretHash != cfg.hashSecret req.secret then { answer := keyTaken }
  else if normBackend c.backend != backend then
    match switchWrites cfg m alive c backend with
    | .error e => .refuse 503 e
    | .ok writes =>
      { writes
        failure := 503
        answer := createdIn cfg (m.puts writes) { c with backend } req.secret
        bumps := true }
  else { answer := createdIn cfg m c req.secret }

/-- A new key gets a session. -/
def planOpen (alive : AliveMap) (ω : Choice) (req : CreateSessionRequest) (backend : String)
    (cs : List ClientRecord) : Transaction :=
  match decodeGateways (m.list gatewayKeyPrefix) with
  | .error e => .refuse 500 e
  | .ok gws => match pickPath cfg.quote gws alive req.egress backend with
    | .error e => .refuse 503 e
    | .ok (access, egress) => match allocate cfg.network.clientSubnet (cs.map ClientRecord.virtualIP) with
      | .error e => .refuse 503 e
      | .ok vip => match ω.number with
        | .error e => .refuse 500 e
        | .ok n => match ω.secret with
          | .error e => .refuse 500 e
          | .ok secret =>
            let c : ClientRecord := ⟨formatUint n.1, req.publicKey, vip, cfg.hashSecret secret, backend⟩
            match openWrites m ⟨c.id, access, egress, 1⟩ c with
            | .error e => .refuse 500 e
            | .ok writes =>
              { writes, answer := createdIn cfg (m.puts writes) c secret, bumps := true }

/-- What `handleCreateSession` decides on. -/
def planCreate (alive : AliveMap) (ω : Choice) (req : CreateSessionRequest) (backend : String) :
    Transaction :=
  match decodeClients (m.list clientKeyPrefix) with
  | .error e => .refuse 500 e
  | .ok cs => match cs.find? (·.publicKey == req.publicKey) with
    | some c => planReopen cfg m alive req backend c
    | none => planOpen cfg m alive ω req backend cs

/-! ### Whole requests -/

def planRegisterGateway (time : ℕ) (id : String) (body : Except String RegisterGatewayRequest) :
    Transaction :=
  if !validGatewayID id then
    .refuse 400 ("gateway id " ++ cfg.quote id ++ " must match ^[a-z0-9][a-z0-9-]\x7b0,31\x7d$")
  else match body with
    | .error e => .refuse 400 ("bad request body: " ++ e)
    | .ok req =>
      if !cfg.validAddrPort req.endpoint then
        .refuse 400 ("endpoint " ++ cfg.quote req.endpoint ++ " must be ip:port")
      else if !validPublicKey req.publicKey then
        .refuse 400 ("public key " ++ cfg.quote req.publicKey ++ " is not 32 bytes of base64")
      else if !req.roles.has roleAccess && !req.roles.has roleEgress then
        .refuse 400 "a gateway needs the access or the egress role"
      else planRegister cfg m time id req

def planCreateSession (alive : AliveMap) (ω : Choice) (bearer : String)
    (body : Except String CreateSessionRequest) : Transaction :=
  if !tokenOK cfg.clientToken bearer then .refuse 401 "bad client token"
  else match body with
    | .error e => .refuse 400 ("bad request body: " ++ e)
    | .ok req =>
      if !validPublicKey req.publicKey then
        .refuse 400 ("public key " ++ cfg.quote req.publicKey ++ " is not 32 bytes of base64")
      else if !validBackend req.backend then
        .refuse 400 ("unknown backend " ++ cfg.quote req.backend)
      else if normBackend req.backend == backendIPsec && !cfg.hasIPsecKey then
        .refuse 400 "this controller has no IPsec key; only WireGuard is available"
      else planCreate cfg m alive ω req (normBackend req.backend)

def planMigrateWith (body : Except String MigrateRequest) (c : ClientRecord) : Transaction :=
  match body with
  | .error e => .refuse 400 ("bad request body: " ++ e)
  | .ok req => planMigrate cfg m req c

/-- What a request that may write is to do; the others only read, or note the time. -/
def plan (alive : AliveMap) (ω : Choice) : Request → Option Transaction
  | .registerGateway bearer id body =>
    if !tokenOK cfg.gatewayToken bearer then some (.refuse 401 "bad gateway token")
    else some (planRegisterGateway cfg m ω.time id body)
  | .createSession bearer body => some (planCreateSession cfg m alive ω bearer body)
  | .migrate bearer id body => match decodeClient (m.get (clientKey id)) with
    | .error e => some (.refuse 500 e)
    | .ok none => some (.refuse 401 "unknown session or bad session secret")
    | .ok (some c) =>
      if c.secretHash != cfg.hashSecret bearer then
        some (.refuse 401 "unknown session or bad session secret")
      else some (planMigrateWith cfg m body c)
  | _ => none

end Plans

/-! ## The handlers are transactions -/

section Bodies

variable {κ ι : Type} [DecidableEq κ] [DecidableEq ι]

/-- The answer of a transaction, and what it leaves. -/
def Transaction.run (write : Disk ι → String → Doc → Option String × Disk ι) (k : κ) (t : Transaction)
    (s : ServerState κ ι) : Answer × ServerState κ ι :=
  match commit write s.1 t.writes with
  | (some e, d) => (.error t.failure e none, d, s.2)
  | (none, d) => (t.answer, d, update s.2 k (t.fields (s.2 k)))

omit [DecidableEq ι] in
theorem Transaction.run_answer (write : Disk ι → String → Doc → Option String × Disk ι) (k : κ) (a : Answer)
    (s : ServerState κ ι) : some (a, s) = some (Transaction.run write k { answer := a } s) := by
  change some (a, s) = some (a, s.1, update s.2 k (s.2 k))
  rw [update_eq_self]

variable {ω : Choice} {i : ι} {store : KVStore (HandlerSig κ)}
  {write : Disk ι → String → Doc → Option String × Disk ι} (hk : Backed store write) {s : ServerState κ ι}
  (free : s.1.saveMu = none) (k : κ)

theorem alone_bumpLocked : alone ω i (bumpLocked k) s = some ((), s.1, update s.2 k (s.2 k).bump) :=
  alone_onServer rfl

theorem alone_seenLocked (id : String) :
    alone ω i (seenLocked k id) s = some ((), s.1, update s.2 k ((s.2 k).seen id ω.time)) := by
  let x : Server ι := { s.2 k with lastSeen := (s.2 k).lastSeen.insert id ω.time }
  let t : ServerState κ ι := (s.1, update s.2 k x)
  have htk : t.2 k = x := update_self k x s.2
  have fields := alone_fields (ω := ω) (i := i) t k
  rw [htk] at fields
  refine (alone_bind (alone_now s k) _).trans ((alone_bind (alone_onServer (x := x) rfl) _).trans ?_)
  refine (alone_bind fields _).trans ?_
  have hseen : (s.2 k).seen id ω.time =
      if aliveIn x.alive id then x else { x with alive := x.alive.insert id true }.bump := rfl
  dsimp only
  cases hx : aliveIn x.alive id with
  | true =>
    rw [hseen, hx]
    rfl
  | false =>
    rw [hseen, hx]
    let y : Server ι := { x with alive := x.alive.insert id true }
    refine (alone_bind (alone_onServer (s := t) (x := y) (by rw [htk]; rfl)) _).trans ?_
    refine (alone_bumpLocked k).trans ?_
    simp only [update_self, update_idem, t]
    rfl

include hk free in
theorem Backed.alone_registerGatewayBody (cfg : ServerConfig) (id : String) (req : RegisterGatewayRequest) :
    alone ω i (registerGatewayBody cfg store k id req) s =
      some ((planRegister cfg s.1.mem ω.time id req).run write k s) := by
  refine (alone_bind (hk.alone_gateways s) _).trans ?_
  rw [planRegister]
  cases decodeGateways (s.1.mem.list gatewayKeyPrefix) with
  | error e => exact Transaction.run_answer write k _ s
  | ok gws =>
    dsimp only
    cases nodeIPOf cfg gws id with
    | error e => exact Transaction.run_answer write k _ s
    | ok nodeIP =>
      dsimp only
      split_ifs
      · refine (alone_bind (hk.alone_put free _ _) _).trans ?_
        rw [Transaction.run]
        rcases commit write s.1 _ with ⟨_ | e, d⟩
        · refine (alone_bind (alone_bumpLocked k) _).trans ((alone_bind (alone_seenLocked k id) _).trans ?_)
          simp only [update_self, update_idem]
          rfl
        · rfl
      · exact alone_bind (alone_seenLocked k id) _

include hk free in
theorem Backed.alone_migrateBody (cfg : ServerConfig) (req : MigrateRequest) (c : ClientRecord) :
    alone ω i (migrateBody cfg store k req c) s = some ((planMigrate cfg s.1.mem req c).run write k s) := by
  refine (alone_bind (hk.alone_gateways s) _).trans ?_
  rw [planMigrate]
  cases decodeGateways (s.1.mem.list gatewayKeyPrefix) with
  | error e => exact Transaction.run_answer write k _ s
  | ok gws =>
    dsimp only
    split_ifs with hacc hegr
    · exact Transaction.run_answer write k _ s
    · exact Transaction.run_answer write k _ s
    refine (alone_bind (hk.alone_session s cfg c) _).trans ?_
    cases hcur : sessionIn cfg s.1.mem c with
    | error e => exact Transaction.run_answer write k _ s
    | ok cur =>
      dsimp only
      split_ifs
      · exact Transaction.run_answer write k _ s
      have set := hk.alone_setIfNewer (ω := ω) (i := i) free ⟨c.id, req.access, req.egress, cur.epoch + 1⟩
      cases hsup : supersedes s.1.mem ⟨c.id, req.access, req.egress, cur.epoch + 1⟩ with
      | error e =>
        rw [hsup] at set
        exact (alone_bind set _).trans (Transaction.run_answer write k _ s)
      | ok applied =>
        rw [hsup] at set
        refine (alone_bind set _).trans ?_
        cases applied with
        | false =>
          -- nothing was written, and so the session is still at `cur`
          refine (alone_bind (hk.alone_session s cfg c) _).trans ?_
          rw [hcur]
          exact Transaction.run_answer write k _ s
        | true =>
          rw [Transaction.run]
          rcases commit write s.1 _ with ⟨_ | e, d⟩
          · exact alone_bind (alone_bumpLocked k) _
          · rfl

include hk in
theorem Backed.alone_answerCreated (cfg : ServerConfig) (c : ClientRecord) (secret : String) :
    alone ω i (answerCreated cfg store c secret) s = some (createdIn cfg s.1.mem c secret, s) := by
  refine (alone_bind (hk.alone_session s cfg c) _).trans ?_
  rw [createdIn]
  cases sessionIn cfg s.1.mem c <;> rfl

include hk free in
theorem Backed.alone_recordBackend (c : ClientRecord) (backend : String) :
    alone ω i (recordBackend store k c backend) s =
      match commit write s.1 [(clientKey c.id, .client { c with backend })] with
      | (some e, d) => some (some e, d, s.2)
      | (none, d) => some (none, d, update s.2 k (s.2 k).bump) := by
  refine (alone_bind (hk.alone_put free _ _) _).trans ?_
  rcases commit write s.1 _ with ⟨_ | e, d⟩
  · exact alone_bind (alone_bumpLocked k) _
  · rfl

section Move

variable {cfg : ServerConfig} {gws : List Gateway} {c : ClientRecord} {cur : Session} {backend : String}

theorem alone_moveToBackend_stay (h : canAccess (gatewayOrZero gws cur.access) backend = true) :
    alone ω i (moveToBackend cfg store k gws c cur backend) s = some (none, s) := by
  rw [moveToBackend, h]
  rfl

theorem alone_moveToBackend_error {e : String} (h : canAccess (gatewayOrZero gws cur.access) backend = false)
    (hpick : pickPath cfg.quote gws (s.2 k).alive cur.egress backend = .error e) :
    alone ω i (moveToBackend cfg store k gws c cur backend) s = some (some e, s) := by
  rw [moveToBackend, h]
  refine (alone_bind (alone_fields s k) _).trans ?_
  dsimp only
  rw [hpick]
  rfl

theorem alone_moveToBackend {access egress : String} {r : Bool × Option String} {t : ServerState κ ι}
    (h : canAccess (gatewayOrZero gws cur.access) backend = false)
    (hpick : pickPath cfg.quote gws (s.2 k).alive cur.egress backend = .ok (access, egress))
    (set : alone ω i (setIfNewer store ⟨c.id, access, cur.egress, cur.epoch + 1⟩) s = some (r, t)) :
    alone ω i (moveToBackend cfg store k gws c cur backend) s = some (r.2, t) := by
  rw [moveToBackend, h]
  refine (alone_bind (alone_fields s k) _).trans ?_
  dsimp only
  rw [hpick]
  exact alone_bind set _

end Move

include hk free in
theorem Backed.alone_switchBackendLocked (cfg : ServerConfig) (c : ClientRecord) (backend : String) :
    alone ω i (switchBackendLocked cfg store k c backend) s =
      match switchWrites cfg s.1.mem (s.2 k).alive c backend with
      | .error e => some (some e, s)
      | .ok writes => match commit write s.1 writes with
        | (some e, d) => some (some e, d, s.2)
        | (none, d) => some (none, d, update s.2 k (s.2 k).bump) := by
  refine (alone_bind (hk.alone_session s cfg c) _).trans ?_
  rw [switchWrites]
  cases sessionIn cfg s.1.mem c with
  | error e => rfl
  | ok cur =>
    refine (alone_bind (hk.alone_gateways s) _).trans ?_
    cases decodeGateways (s.1.mem.list gatewayKeyPrefix) with
    | error e => rfl
    | ok gws =>
      dsimp only
      cases hacc : canAccess (gatewayOrZero gws cur.access) backend with
      | true => exact (alone_bind (alone_moveToBackend_stay k hacc) _).trans (hk.alone_recordBackend free k c backend)
      | false =>
        cases hpick : pickPath cfg.quote gws (s.2 k).alive cur.egress backend with
        | error e => exact alone_bind (alone_moveToBackend_error k hacc hpick) _
        | ok path =>
          have set := hk.alone_setIfNewer (ω := ω) (i := i) free ⟨c.id, path.1, cur.egress, cur.epoch + 1⟩
          dsimp only [openWrites]
          cases hsup : supersedes s.1.mem ⟨c.id, path.1, cur.egress, cur.epoch + 1⟩ with
          | error e =>
            rw [hsup] at set
            exact alone_bind (alone_moveToBackend k hacc hpick set) _
          | ok applied =>
            rw [hsup] at set
            refine (alone_bind (alone_moveToBackend k hacc hpick set) _).trans ?_
            simp only [Except.map, Bool.not_false, if_true, commit_append]
            rcases hp : commit write s.1 (newerWrites _ _) with ⟨_ | e, d⟩
            · exact hk.alone_recordBackend (s := (d, s.2)) ((hk.commit_none hp).2.trans free) k c backend
            · rfl

include hk free in
theorem Backed.alone_reopenSession (cfg : ServerConfig) (req : CreateSessionRequest) (backend : String)
    (c : ClientRecord) :
    alone ω i (reopenSession cfg store k req backend c) s =
      some ((planReopen cfg s.1.mem (s.2 k).alive req backend c).run write k s) := by
  rw [reopenSession, planReopen]
  split_ifs
  · exact Transaction.run_answer write k _ s
  · have switch := hk.alone_switchBackendLocked (ω := ω) (i := i) free k cfg c backend
    cases hw : switchWrites cfg s.1.mem (s.2 k).alive c backend with
    | error e =>
      rw [hw] at switch
      exact (alone_bind switch _).trans (Transaction.run_answer write k _ s)
    | ok writes =>
      rw [hw] at switch
      dsimp only at switch ⊢
      rw [Transaction.run]
      rcases hp : commit write s.1 writes with ⟨_ | e, d⟩
      · rw [hp] at switch
        refine (alone_bind switch _).trans ((hk.alone_answerCreated cfg _ _).trans ?_)
        rw [(hk.commit_none hp).1]
        rfl
      · rw [hp] at switch
        exact alone_bind switch _
  · exact (hk.alone_answerCreated cfg c req.secret).trans (Transaction.run_answer write k _ s)

include hk free in
theorem Backed.alone_openSession (cfg : ServerConfig) (req : CreateSessionRequest) (backend : String)
    (cs : List ClientRecord) :
    alone ω i (openSession cfg store k req backend cs) s =
      some ((planOpen cfg s.1.mem (s.2 k).alive ω req backend cs).run write k s) := by
  refine (alone_bind (hk.alone_gateways s) _).trans ?_
  rw [planOpen]
  cases decodeGateways (s.1.mem.list gatewayKeyPrefix) with
  | error e => exact Transaction.run_answer write k _ s
  | ok gws =>
    refine (alone_bind (alone_fields s k) _).trans ?_
    dsimp only
    cases pickPath cfg.quote gws (s.2 k).alive req.egress backend with
    | error e => exact Transaction.run_answer write k _ s
    | ok path =>
      dsimp only
      cases allocate cfg.network.clientSubnet (cs.map ClientRecord.virtualIP) with
      | error e => exact Transaction.run_answer write k _ s
      | ok vip =>
        refine (alone_bind (alone_randomSessionID s k) _).trans ?_
        cases ω.number with
        | error e => exact Transaction.run_answer write k _ s
        | ok n =>
          refine (alone_bind (alone_randomSecret s k) _).trans ?_
          cases ω.secret with
          | error e => exact Transaction.run_answer write k _ s
          | ok secret =>
            dsimp only [openWrites]
            have set := hk.alone_setIfNewer (ω := ω) (i := i) free ⟨formatUint n.1, path.1, path.2, 1⟩
            cases hsup : supersedes s.1.mem ⟨formatUint n.1, path.1, path.2, 1⟩ with
            | error e =>
              rw [hsup] at set
              exact (alone_bind set _).trans (Transaction.run_answer write k _ s)
            | ok applied =>
              rw [hsup] at set
              refine (alone_bind set _).trans ?_
              simp only [Except.map, Transaction.run, commit_append]
              rcases hp : commit write s.1 (newerWrites _ _) with ⟨_ | e, d⟩
              · have put := fun value => hk.alone_put (ω := ω) (i := i) (s := (d, s.2))
                  ((hk.commit_none hp).2.trans free) (clientKey (formatUint n.1)) value
                refine (alone_bind (put _) _).trans ?_
                dsimp only
                rcases hq : commit write d _ with ⟨_ | e, d'⟩
                · refine (alone_bind (alone_bumpLocked k) _).trans ((hk.alone_answerCreated cfg _ _).trans ?_)
                  have all := (hk.commit_none hq).1
                  rw [(hk.commit_none hp).1] at all
                  rw [all, MemStore.puts_append]
                  rfl
                · rfl
              · rfl

include hk free in
theorem Backed.alone_createSessionBody (cfg : ServerConfig) (req : CreateSessionRequest) (backend : String) :
    alone ω i (createSessionBody cfg store k req backend) s =
      some ((planCreate cfg s.1.mem (s.2 k).alive ω req backend).run write k s) := by
  refine (alone_bind (hk.alone_clients s) _).trans ?_
  rw [planCreate]
  cases decodeClients (s.1.mem.list clientKeyPrefix) with
  | error e => exact Transaction.run_answer write k _ s
  | ok cs =>
    dsimp only
    cases cs.find? (·.publicKey == req.publicKey) with
    | none => exact hk.alone_openSession free k cfg req backend cs
    | some c => exact hk.alone_reopenSession free k cfg req backend c

theorem alone_respond (a : Answer) : alone ω i (respond k a) s = some (a, s) := alone_bind (alone_peek rfl) _

theorem alone_respond_only (a : Answer) :
    alone ω i (respond k a) s = some (Transaction.run write k { answer := a } s) :=
  (alone_respond k a).trans (Transaction.run_answer write k a s)

theorem alone_locked {body : Handler κ Answer} {t : Transaction} (idle : (s.2 k).mu = none)
    (h : ∀ x : κ → Server ι, (x k).alive = (s.2 k).alive →
      alone ω i body (s.1, x) = some (t.run write k (s.1, x))) :
    alone ω i (locked k body) s = some (t.run write k s) := by
  have lock : (s.2 k).exec ω i .lock = some ((), (s.2 k).withMu (some i)) := by
    rw [Server.exec, if_pos idle]
    rfl
  have unlock (x : Server ι) (d : Disk ι) (hx : x.mu = none) :
      alone ω i (onServer k .unlock) (d, update s.2 k (x.withMu (some i))) = some ((), d, update s.2 k x) := by
    have ex : (x.withMu (some i)).exec ω i .unlock = some ((), x) := by
      rw [Server.exec, if_pos (show (x.withMu (some i)).mu = some i from rfl)]
      exact congrArg (fun y => some ((), y)) (Server.withMu_of_eq hx)
    rw [← update_self k (x.withMu (some i)) s.2] at ex
    refine (alone_onServer (s := (d, update s.2 k (x.withMu (some i)))) ex).trans ?_
    simp only [update_idem]
    rfl
  have run := h (update s.2 k ((s.2 k).withMu (some i))) (by rw [update_self]; rfl)
  refine (alone_bind (alone_onServer lock) _).trans ((alone_bind run _).trans ?_)
  refine (alone_bind (alone_respond k _) _).trans ?_
  simp only [Transaction.run]
  rcases commit write s.1 t.writes with ⟨_ | e, d⟩
  · simp only [update_self, update_idem, t.fields_withMu]
    exact alone_bind (unlock _ d ((t.fields_mu _).trans idle)) _
  · refine (alone_bind (unlock (s.2 k) d idle) _).trans ?_
    rw [update_eq_self]
    rfl

include hk in
theorem Transaction.run_cases (t : Transaction) (s : ServerState κ ι) :
    ∃ done, done <+: t.writes ∧ (t.run write k s).2.1.mem = s.1.mem.puts done ∧
      ((t.run write k s).1 = t.answer ∧ done = t.writes ∨ ∃ e, (t.run write k s).1 = .error t.failure e none) := by
  obtain ⟨done, hd, mem, all⟩ := hk.commit_prefix s.1 t.writes
  refine ⟨done, hd, ?_⟩
  rw [Transaction.run]
  rcases hp : commit write s.1 t.writes with ⟨_ | e, d⟩ <;> rw [hp] at mem all
  · exact ⟨mem, Or.inl ⟨rfl, all rfl⟩⟩
  · exact ⟨mem, Or.inr ⟨e, rfl⟩⟩

/-- No lock is held. -/
structure Idle (k : κ) (s : ServerState κ ι) : Prop where
  mu : (s.2 k).mu = none
  saveMu : s.1.saveMu = none

include hk in
theorem Idle.run (idle : Idle k s) (t : Transaction) : Idle k (t.run write k s).2 := by
  have saveMu := (hk.commit_saveMu s.1 t.writes).trans idle.saveMu
  rw [Transaction.run]
  rcases hp : commit write s.1 t.writes with ⟨_ | e, d⟩ <;> rw [hp] at saveMu
  · refine ⟨?_, saveMu⟩
    dsimp only
    rw [update_self, t.fields_mu, idle.mu]
  · exact ⟨idle.mu, saveMu⟩

section Whole

variable (cfg : ServerConfig) (idle : Idle k s)

include hk idle

theorem Backed.alone_registerGateway (id : String) (body : Except String RegisterGatewayRequest) :
    alone ω i (registerGateway cfg store k id body) s =
      some ((planRegisterGateway cfg s.1.mem ω.time id body).run write k s) := by
  unfold registerGateway planRegisterGateway
  split_ifs
  · exact alone_respond_only k _
  cases body with
  | error e => exact alone_respond_only k _
  | ok req =>
    dsimp only
    split_ifs
    · exact alone_respond_only k _
    · exact alone_respond_only k _
    · exact alone_respond_only k _
    · exact alone_locked k idle.mu fun x _ => hk.alone_registerGatewayBody (s := (s.1, x)) idle.saveMu k cfg id req

theorem Backed.alone_createSession (bearer : String) (body : Except String CreateSessionRequest) :
    alone ω i (createSession cfg store k bearer body) s =
      some ((planCreateSession cfg s.1.mem (s.2 k).alive ω bearer body).run write k s) := by
  unfold createSession planCreateSession
  split_ifs
  · exact alone_respond_only k _
  cases body with
  | error e => exact alone_respond_only k _
  | ok req =>
    dsimp only
    split_ifs
    · exact alone_respond_only k _
    · exact alone_respond_only k _
    · exact alone_respond_only k _
    · refine alone_locked k idle.mu fun x hx => ?_
      rw [← hx]
      exact hk.alone_createSessionBody (s := (s.1, x)) idle.saveMu k cfg req (normBackend req.backend)

theorem Backed.alone_migrate (body : Except String MigrateRequest) (c : ClientRecord) :
    alone ω i (migrate cfg store k body c) s = some ((planMigrateWith cfg s.1.mem body c).run write k s) := by
  cases body with
  | error e =>
    exact alone_respond_only k _
  | ok req => exact alone_locked k idle.mu fun x _ => hk.alone_migrateBody (s := (s.1, x)) idle.saveMu k cfg req c

theorem Backed.alone_serve {r : Request} {t : Transaction} (h : plan cfg s.1.mem (s.2 k).alive ω r = some t) :
    alone ω i (serve cfg store k r) s = some (t.run write k s) := by
  cases r with
  | registerGateway bearer id body =>
    rw [serve, gatewayAuth]
    rw [plan] at h
    split_ifs at h ⊢ <;> cases h
    · exact alone_respond_only k _
    · exact hk.alone_registerGateway k cfg idle id body
  | createSession bearer body =>
    cases h
    exact hk.alone_createSession k cfg idle bearer body
  | migrate bearer id body =>
    refine (alone_bind (hk.alone_clientByID s id) _).trans ?_
    rw [plan] at h
    revert h
    cases decodeClient (s.1.mem.get (clientKey id)) with
    | error e =>
      rintro ⟨⟩
      exact alone_respond_only k _
    | ok found =>
      cases found with
      | none =>
        rintro ⟨⟩
        exact alone_respond_only k _
      | some c =>
        intro h
        dsimp only at h ⊢
        split_ifs at h ⊢ <;> cases h
        · exact alone_respond_only k _
        · exact hk.alone_migrate k cfg idle body c
  | _ => cases h

end Whole

end Bodies

end Egressa
