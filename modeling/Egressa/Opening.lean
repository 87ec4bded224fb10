import Egressa.Conc.Machine
import Egressa.Controller.Effects

/-!
# Opening a session

The loop of the client's `open` (`internal/client/agent.go`) against a controller over a `FileStore`.  The secret of a
session is sent once, and a key that has a session gets it back only with its secret.  The state file holds a private
key, named here by its public key; a client without one draws a new key each time it starts.
-/

namespace Egressa

open Conc

/-- The key and the secret a client keeps. -/
structure StateFile where
  publicKey : String
  secret : String := ""
  deriving DecidableEq, Repr

structure OpenConfig where
  token : String
  egress : String
  backend : String

def OpenConfig.request (oc : OpenConfig) (st : StateFile) : CreateSessionRequest :=
  { publicKey := st.publicKey, egress := oc.egress, secret := st.secret, backend := oc.backend }

/-- A client, its state file and the controller. -/
structure Opening where
  file : Option StateFile := none
  /-- The state of `open`, while its loop runs. -/
  loop : Option StateFile := none
  controller : ServerState Unit Unit

abbrev Opening.mem (o : Opening) : MemStore := o.controller.1.mem

/-- What becomes of an answer.  A client that fails to save the state file gives up as if it had
crashed. -/
inductive Fate where
  | lost
  | heard
  | crash

/-- The steps of a client that opens its session, and of the controller. -/
inductive OpenEvent where
  /-- `LoadState`; the key is the one drawn if there is no state file. -/
  | start (key : String)
  | call (ω : Choice) (fate : Fate)
  | crash
  /-- A request of someone else; those that do not write are left out. -/
  | other (ω : Choice) (r : Request)
  | report (alive : AliveMap)

/-- What `open` makes of an answer. -/
def Opening.hear (o : Opening) (st : StateFile) : Answer → Opening
  | .created _ secret _ => { o with file := some { st with secret }, loop := none }
  | a => if a.code / 100 = 4 then { o with loop := none } else o

def Opening.receive (o : Opening) (st : StateFile) (a : Answer) : Fate → Opening
  | .lost => o
  | .heard => o.hear st a
  | .crash => { o with loop := none }

/-- A step of the client, with the controller answering. -/
def Opening.step? (cfg : ServerConfig) (oc : OpenConfig) (o : Opening) : OpenEvent → Option Opening
  | .start key => if o.loop = none then some { o with loop := some (o.file.getD { publicKey := key }) } else none
  | .call ω fate => match o.loop with
    | none => none
    | some st => (alone ω () (createSession cfg fileStore () oc.token (.ok (oc.request st))) o.controller).map
        fun p => ({ o with controller := p.2 } : Opening).receive st p.1 fate
  | .crash => some { o with loop := none }
  | .other ω r => if r.mutates then
        (alone ω () (serve cfg fileStore () r) o.controller).map fun p => { o with controller := p.2 }
      else none
  | .report alive => some { o with controller := (o.controller.1, fun k => { o.controller.2 k with alive }) }

/-! ## The invariant -/

section Invariant

variable {cfg : ServerConfig} {oc : OpenConfig} {m : MemStore} {o o' : Opening}

/-- Every record of the client's key is for its secret. -/
def Unlocks (cfg : ServerConfig) (m : MemStore) (st : StateFile) : Prop :=
  ∀ id c, m.get (clientKey id) = some (.client c) → c.publicKey = st.publicKey →
    c.secretHash = cfg.hashSecret st.secret

/-- What is known of a client that can open its session again. -/
structure Opening.Good (cfg : ServerConfig) (o : Opening) : Prop where
  idle : Idle () o.controller
  tidy : Tidy o.mem
  file : ∀ st ∈ o.file, Unlocks cfg o.mem st
  loop : ∀ st ∈ o.loop, Unlocks cfg o.mem st
  same : ∀ st ∈ o.loop, ∀ f ∈ o.file, st = f

/-- The next call does not meet with a conflict. -/
def Opening.Admitted (cfg : ServerConfig) (oc : OpenConfig) (o : Opening) : Prop :=
  ∀ st ∈ o.loop, ∀ ω, ∃ a s, alone ω () (createSession cfg fileStore () oc.token (.ok (oc.request st)))
    o.controller = some (a, s) ∧ a.code ≠ 409

/-- What must not happen: a new key is one that the controller knows, the answer that tells the client
the secret of its session does not reach the state file although the client keeps its key, or someone
else opens a session for the key. -/
def Opening.Sheltered (cfg : ServerConfig) (oc : OpenConfig) (o : Opening) : OpenEvent → Prop
  | .start key => o.file = none → ¬ Holds o.mem key
  | .call ω fate => ∀ st ∈ o.loop, ¬ Holds o.mem st.publicKey → ∀ a s,
      alone ω () (createSession cfg fileStore () oc.token (.ok (oc.request st))) o.controller = some (a, s) →
      Holds s.1.mem st.publicKey →
      (match fate with
        | .lost => False
        | .heard => a.code = 200
        | .crash => o.file = none)
  | .other _ r => ∀ bearer req, r = .createSession bearer (.ok req) →
      (∀ st ∈ o.loop, req.publicKey ≠ st.publicKey) ∧ ∀ st ∈ o.file, req.publicKey ≠ st.publicKey
  | _ => True

variable {st : StateFile}

theorem Unlocks.congr {m' : MemStore} (h : Unlocks cfg m st)
    (hm : ∀ id c, m'.get (clientKey id) = some (.client c) → c.publicKey = st.publicKey →
      m.get (clientKey id) = some (.client c) ∨ c.secretHash = cfg.hashSecret st.secret) :
    Unlocks cfg m' st := by
  intro id c hc key
  rcases hm id c hc key with hc' | hash
  · exact h id c hc' key
  · exact hash

theorem Unlocks.not_conflict (unlocks : Unlocks cfg m st) (alive : AliveMap) (ω : Choice)
    (bearer : String) {req : CreateSessionRequest} (key : req.publicKey = st.publicKey)
    (secret : req.secret = st.secret) :
    (planCreateSession cfg m alive ω bearer (.ok req)).answer.code ≠ 409 ∧
      (planCreateSession cfg m alive ω bearer (.ok req)).failure ≠ 409 := by
  rcases planCreateSession_cases cfg m alive ω bearer (.ok req) with ⟨code, _, hcode, h⟩ | ⟨req, hreq, hplan⟩
  · rw [h]
    refine ⟨?_, show 500 ≠ 409 by decide⟩
    rcases hcode with rfl | rfl
    · exact show 400 ≠ 409 by decide
    · exact show 401 ≠ 409 by decide
  cases hreq
  rw [hplan]
  rcases planCreate_cases cfg m alive ω req (normBackend req.backend) with ⟨a, replies, h⟩ | h
  · rw [h]
    refine ⟨?_, show 500 ≠ 409 by decide⟩
    cases replies with
    | taken clients hc hkey hsecret =>
      obtain ⟨id, hget⟩ := (mem_clients clients _).1 hc
      exact absurd (unlocks id _ hget (hkey.trans key)) (secret ▸ hsecret)
    | failed hcode =>
      rcases hcode with rfl | rfl
      · exact show 500 ≠ 409 by decide
      · exact show 503 ≠ 409 by decide
    | unchanged reopens => exact show 200 ≠ 409 by decide
  · obtain ⟨_, _, stores⟩ := h.stores
    obtain ⟨_, answer⟩ := stores.answer
    rw [answer]
    refine ⟨show 200 ≠ 409 by decide, ?_⟩
    rcases stores.failure with h | h <;> rw [h] <;> decide

theorem Opening.Good.admitted (good : o.Good cfg) : o.Admitted cfg oc := by
  intro st hst ω
  let t := planCreateSession cfg o.mem (o.controller.2 ()).alive ω oc.token (.ok (oc.request st))
  have run := backed_fileStore.alone_createSession (ω := ω) (i := ()) () cfg good.idle oc.token (.ok (oc.request st))
  refine ⟨(t.run (writeThen Disk.save) () o.controller).1, _, run, ?_⟩
  obtain ⟨answer, failure⟩ := (good.loop st hst).not_conflict (o.controller.2 ()).alive ω oc.token
    (show (oc.request st).publicKey = st.publicKey from rfl) rfl
  obtain ⟨done, -, -, ⟨h, -⟩ | ⟨e, h⟩⟩ := t.run_cases backed_fileStore () o.controller <;> rw [h]
  · exact answer
  · exact failure

/-! ## Steps -/

variable {ω : Choice} {a : Answer}

theorem Unlocks.call {s s' : ServerState Unit Unit} (unlocks : Unlocks cfg s.1.mem st) (idle : Idle () s)
    (h : alone ω () (createSession cfg fileStore () oc.token (.ok (oc.request st))) s = some (a, s')) :
    Unlocks cfg s'.1.mem st ∧ (∀ sess secret net, a = .created sess secret net → secret = st.secret) ∨
      ¬ Holds s.1.mem st.publicKey ∧ Holds s'.1.mem st.publicKey ∧
        (a.code = 200 → ∃ sess secret net, a = .created sess secret net ∧
          Unlocks cfg s'.1.mem { st with secret }) := by
  obtain ⟨t, done, ht, -, hd, mem, answer⟩ := backed_fileStore.serve_cases
    (r := .createSession oc.token (.ok (oc.request st))) rfl idle h
  cases ht
  rcases planCreateSession_cases cfg s.1.mem (s.2 ()).alive ω oc.token (.ok (oc.request st)) with
    ⟨code, text, -, hplan⟩ | ⟨req, hreq, hplan⟩ <;> rw [hplan] at hd answer
  · obtain rfl := List.prefix_nil.1 hd
    refine Or.inl ⟨mem ▸ unlocks, fun sess secret net ha => ?_⟩
    rcases answer with ⟨h, -⟩ | ⟨e, h⟩ <;> cases ha.symm.trans h
  cases hreq
  rcases planCreate_cases cfg s.1.mem (s.2 ()).alive ω (oc.request st) (normBackend (oc.request st).backend) with
    ⟨a', replies, h⟩ | creates
  · rw [h] at hd answer
    obtain rfl := List.prefix_nil.1 hd
    refine Or.inl ⟨mem ▸ unlocks, fun sess secret net ha => ?_⟩
    rcases answer with ⟨h, -⟩ | ⟨e, h⟩
    · cases replies with
      | unchanged reopens =>
        cases ha.symm.trans h
        rfl
      | taken => cases ha.symm.trans h
      | failed => cases ha.symm.trans h
    · cases ha.symm.trans h
  · obtain ⟨c, secret, stores⟩ := creates.stores
    obtain ⟨sess, hanswer⟩ := stores.answer
    rw [hanswer] at answer
    have written {id : String} {c' : ClientRecord} (hc' : s'.1.mem.get (clientKey id) = some (.client c')) :
        s.1.mem.get (clientKey id) = some (.client c') ∨ c' = c := by
      rw [mem] at hc'
      exact (MemStore.get_puts _ hc').imp_right fun h => stores.only _ _ (hd.subset h)
    rcases stores.known with ⟨rfl, -⟩ | unknown
    · refine Or.inl ⟨unlocks.congr fun id c' hc' _ => (written hc').imp_right fun h => ?_, ?_⟩
      · rw [h]
        exact stores.hash
      intro sess' secret' net ha
      rcases answer with ⟨h, -⟩ | ⟨e, h⟩ <;> cases ha.symm.trans h
      rfl
    by_cases held : Holds s'.1.mem st.publicKey
    · refine Or.inr ⟨unknown, held, fun code => ?_⟩
      rcases answer with ⟨h, -⟩ | ⟨e, h⟩
      · refine ⟨sess, secret, cfg.network, h, fun id c' hc' key => ?_⟩
        rcases written hc' with h | rfl
        · exact absurd ⟨id, c', h, key⟩ unknown
        · exact stores.hash
      · rw [h] at code
        rcases stores.failure with hf | hf
        · exact absurd (hf.symm.trans code) (by decide)
        · exact absurd (hf.symm.trans code) (by decide)
    · refine Or.inl ⟨fun id c' hc' key => absurd ⟨id, c', hc', key⟩ held, fun sess' secret' net ha => ?_⟩
      rcases answer with ⟨-, rfl⟩ | ⟨e, h⟩
      · exact absurd ⟨c.id, c, mem ▸ stores.stored, stores.key⟩ held
      · cases ha.symm.trans h

theorem Opening.good_stopped (idle : Idle () o.controller) (tidy : Tidy o.mem) {file : Option StateFile}
    (unlocks : ∀ f ∈ file, Unlocks cfg o.mem f) : ({ o with file, loop := none } : Opening).Good cfg :=
  ⟨idle, tidy, unlocks, fun _ h => (nomatch h), fun _ h => (nomatch h)⟩

theorem Opening.Good.hear (good : o.Good cfg) (hst : st ∈ o.loop)
    (known : ∀ sess secret net, a = .created sess secret net → secret = st.secret) :
    (o.hear st a).Good cfg := by
  have other : (if a.code / 100 = 4 then { o with loop := none } else o : Opening).Good cfg := by
    split_ifs
    · exact good_stopped good.idle good.tidy good.file
    · exact good
  cases a with
  | created sess secret net =>
    obtain rfl := known sess secret net rfl
    refine good_stopped good.idle good.tidy fun f hf => ?_
    cases hf
    exact good.loop st hst
  | _ => exact other

theorem Opening.Good.call {fate : Fate} {s : ServerState Unit Unit}
    (good : o.Good cfg) (hst : st ∈ o.loop) (kept : o.Sheltered cfg oc (.call ω fate))
    (run : alone ω () (createSession cfg fileStore () oc.token (.ok (oc.request st))) o.controller = some (a, s)) :
    (({ o with controller := s } : Opening).receive st a fate).Good cfg := by
  obtain ⟨-, -, -, idle, -⟩ := backed_fileStore.serve_cases
    (r := .createSession oc.token (.ok (oc.request st))) rfl good.idle run
  have tidy : Tidy s.1.mem := good.tidy.serve (r := .createSession oc.token (.ok (oc.request st)))
    backed_fileStore rfl good.idle run
  let o₁ : Opening := { o with controller := s }
  rcases (good.loop st hst).call good.idle run with ⟨unlocks, known⟩ | ⟨unknown, held, opened⟩
  · have good₁ : o₁.Good cfg := by
      refine ⟨idle, tidy, fun f hf => good.same st hst f hf ▸ unlocks, fun st' hst' => ?_, good.same⟩
      cases hst.symm.trans hst'
      exact unlocks
    cases fate with
    | lost => exact good₁
    | heard => exact good₁.hear hst known
    | crash => exact good_stopped (o := o₁) idle tidy good₁.file
  · have fine := kept st hst unknown a s run held
    cases fate with
    | lost => exact fine.elim
    | heard =>
      obtain ⟨sess, secret, net, rfl, unlocks⟩ := opened fine
      exact good_stopped (o := o₁) idle tidy fun f hf => Option.some.inj hf ▸ unlocks
    | crash => exact good_stopped (o := o₁) idle tidy fun f hf => nomatch (show o.file = none from fine) ▸ hf

theorem Opening.Good.other {r : Request} {s : ServerState Unit Unit}
    (good : o.Good cfg) (hr : r.mutates = true) (kept : o.Sheltered cfg oc (.other ω r))
    (run : alone ω () (serve cfg fileStore () r) o.controller = some (a, s)) :
    ({ o with controller := s } : Opening).Good cfg := by
  obtain ⟨t, done, ht, idle, hd, mem, -⟩ := backed_fileStore.serve_cases hr good.idle run
  have unlocks {st : StateFile} (h : Unlocks cfg o.mem st)
      (foreign : ∀ bearer req, r = .createSession bearer (.ok req) → req.publicKey ≠ st.publicKey) :
      Unlocks cfg s.1.mem st := by
    refine h.congr fun id c hc key => Or.inl ?_
    rw [mem] at hc
    rcases MemStore.get_puts _ hc with h | h
    · exact h
    · obtain ⟨bearer, req, rfl, hkey⟩ := (plan_cases ht).client (hd.subset h)
      exact absurd (hkey.symm.trans key) (foreign bearer req rfl)
  exact ⟨idle, good.tidy.serve backed_fileStore hr good.idle run,
    fun f hf => unlocks (good.file f hf) fun bearer req h => (kept bearer req h).2 f hf,
    fun st hst => unlocks (good.loop st hst) fun bearer req h => (kept bearer req h).1 st hst, good.same⟩

/-- One step of the client. -/
theorem Opening.Good.step {e : OpenEvent} (good : o.Good cfg) (kept : o.Sheltered cfg oc e)
    (h : o.step? cfg oc e = some o') : o'.Good cfg := by
  cases e with
  | start key =>
    rw [step?] at h
    split_ifs at h with hl
    cases h
    refine ⟨good.idle, good.tidy, good.file, ?_, ?_⟩
    · rintro st ⟨⟩
      cases hf : o.file with
      | none => exact fun id c hc key => absurd ⟨id, c, hc, key⟩ (kept hf)
      | some f => exact good.file f hf
    · rintro st ⟨⟩ f hf
      rw [show o.file = some f from hf]
      rfl
  | call ω fate =>
    rw [step?] at h
    cases hst : o.loop with
    | none => simp [hst] at h
    | some st =>
      rw [hst] at h
      obtain ⟨⟨a, s⟩, run, rfl⟩ := Option.map_eq_some_iff.1 h
      simpa only [hst] using good.call hst kept run
  | crash =>
    cases h
    exact good_stopped good.idle good.tidy good.file
  | other ω r =>
    rw [step?] at h
    split_ifs at h with hr
    obtain ⟨⟨a, s⟩, run, rfl⟩ := Option.map_eq_some_iff.1 h
    exact good.other hr kept run
  | report alive =>
    cases h
    exact ⟨⟨good.idle.mu, good.idle.saveMu⟩, good.tidy, good.file, good.loop, good.same⟩

end Invariant

/-- A client that has heard and saved the answer with its secret is never refused its session. -/
theorem open_admitted {cfg : ServerConfig} {oc : OpenConfig} {o o' : Opening} (good : o.Good cfg)
    (run : Runs (Opening.step? cfg oc) (Opening.Sheltered cfg oc) o o') : o'.Admitted cfg oc :=
  (run.invariant (fun _ _ _ good kept h => good.step kept h) good).admitted

/-! ### On the small network -/

namespace Trial

def agent : OpenConfig := ⟨"", "a", ""⟩

def vacant : Opening := { controller := ({ mem := gateways }, fun _ => {}) }

def draw : Choice := { number := .ok ⟨7, by decide⟩, secret := .ok "secret" }

end Trial

open Trial in
theorem Trial.good_vacant : vacant.Good config :=
  ⟨⟨rfl, rfl⟩, tidy_gateways, fun _ h => (nomatch h), fun _ h => (nomatch h), fun _ h => (nomatch h)⟩

open Trial in
theorem open_admitted_again : ∃ o, Runs (Opening.step? config agent) (Opening.Sheltered config agent) vacant o ∧
      o.loop = some ⟨publicKey, "secret"⟩ ∧ o.Admitted config agent := by
  let o₁ : Opening := { vacant with loop := some ⟨publicKey, ""⟩ }
  have code : (alone draw () (createSession config fileStore () "" (.ok (agent.request ⟨publicKey, ""⟩)))
      o₁.controller).map (fun p => p.1.code) = some 200 := by decide
  have saved : (o₁.step? config agent (.call draw .heard)).map (fun o => (o.file, o.loop)) =
      some (some ⟨publicKey, "secret"⟩, none) := by decide
  obtain ⟨o₂, h₂, hfile⟩ := Option.map_eq_some_iff.1 saved
  obtain ⟨file, loop⟩ := Prod.mk.inj hfile
  have new : vacant.Sheltered config agent (.start publicKey) := by
    rintro - ⟨id, c, hc, -⟩
    exact nomatch (get_client_gateways id).symm.trans hc
  have heard : o₁.Sheltered config agent (.call draw .heard) := by
    rintro st ⟨⟩ - a s h -
    rw [show agent.token = "" from rfl] at h
    rw [h] at code
    exact Option.some.inj code
  have again : o₂.step? config agent (.start "") = some { o₂ with loop := some ⟨publicKey, "secret"⟩ } := by
    rw [Opening.step?, if_pos loop, file]
    rfl
  have known : o₂.Sheltered config agent (.start "") := fun none => nomatch none.symm.trans file
  have opened : Runs (Opening.step? config agent) (Opening.Sheltered config agent) vacant o₁ := Runs.refl.tail new rfl
  have run := (opened.tail heard h₂).tail known again
  exact ⟨_, run, rfl, open_admitted good_vacant run⟩

open Trial in
/-- The first answer is lost, and the client's own session is refused to it. -/
theorem open_refused : vacant.Good config ∧ ∃ o, Runs (Opening.step? config agent) (fun _ _ => True) vacant o ∧
      (∃ st ∈ o.loop, Holds o.mem st.publicKey) ∧ ¬ o.Admitted config agent := by
  obtain ⟨o, run, h⟩ := Runs.exists_of_foldlM (Opening.step? config agent) vacant [.start publicKey, .call draw .lost]
    (fun o => (o.loop, o.mem.get (clientKey "7"),
      (alone {} () (createSession config fileStore () "" (.ok (agent.request ⟨publicKey, ""⟩))) o.controller).map
        fun p => p.1.code))
    (b := (some ⟨publicKey, ""⟩, some (.client client), some 409)) (by decide)
  simp only [Prod.mk.injEq] at h
  obtain ⟨loop, stored, refused⟩ := h
  refine ⟨good_vacant, o, run, ⟨_, loop, "7", client, stored, rfl⟩, fun admitted => ?_⟩
  obtain ⟨a, s, h, code⟩ := admitted _ loop {}
  rw [show agent.token = "" from rfl] at h
  rw [h] at refused
  exact code (Option.some.inj refused)

end Egressa
