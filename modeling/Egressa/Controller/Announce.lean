import Egressa.Conc.Discipline
import Egressa.Controller.Requests

/-!
# Changes are announced

A handler changes the store and the alive flags while it holds the mutex, and does not release it before it has raised
the version after its last change (`Custody`).
-/

namespace Egressa

open Conc

/-- Where a request is: before, in (with news or without) or after its lock. -/
inductive Custody where
  | out
  | clean
  | dirty
  | left
  deriving DecidableEq

section Discipline

variable {κ : Type}

def locks : (HandlerSig κ).Op → Bool
  | .inr (_, .lock) => true
  | _ => false

namespace Custody

def holds : Custody → Bool
  | .clean | .dirty => true
  | _ => false

/-- The operations a request may make where it is. -/
def next (h : Custody) (o : (HandlerSig κ).Op) (r : (HandlerSig κ).Res o) :
    Option Custody :=
  if locks o then if h = .out then some .clean else none
  else if unlocks o then if h = .clean then some .left else none
  else if bumps o then if h.holds then some .clean else none
  else if changes o r then if h.holds then some .dirty else none
  else some h

end Custody

/-- A handler that makes no news. -/
def Reads {α : Type} (p : Handler κ α) : Prop := ∀ h, Follows Custody.next p (fun _ h' => h' = h) h

structure Passive (o : (HandlerSig κ).Op) : Prop where
  locks : locks o = false
  unlocks : unlocks o = false
  bumps : bumps o = false
  changes : ∀ r, changes o r = false

namespace Reads

variable {α β : Type}

theorem ret (a : α) : Reads (κ := κ) (.ret a) := fun _ => rfl

theorem op {o : (HandlerSig κ).Op} (silent : Passive o)
    {k : (HandlerSig κ).Res o → Handler κ α} (hk : ∀ r, Reads (k r)) :
    Reads (.op o k) := by
  intro h r
  refine ⟨h, ?_, hk r h⟩
  simp [Custody.next, silent.locks, silent.unlocks, silent.bumps, silent.changes r]

theorem andThen {p : Handler κ α} {f : α → Handler κ β} {Q : β → Custody → Prop} {h : Custody}
    (hp : Reads p) (hf : ∀ a, Follows Custody.next (f a) Q h) : Follows Custody.next (p >>= f) Q h :=
  (hp h).andThen fun a _ hh => hh ▸ hf a

theorem bind {p : Handler κ α} {f : α → Handler κ β} (hp : Reads p) (hf : ∀ a, Reads (f a)) : Reads (p >>= f) :=
  fun h => hp.andThen fun a => hf a h

theorem call {o : (HandlerSig κ).Op} (silent : Passive o)
    {f : (HandlerSig κ).Res o → α} : Reads (κ := κ) (.op o fun r => .ret (f r)) :=
  op silent fun _ => ret _

end Reads

/-! ## What handlers read -/

section Handlers

variable (cfg : ServerConfig) (k : κ)

theorem reads_gateways : Reads (κ := κ) (gateways memStore) := Reads.op ⟨rfl, rfl, rfl, fun _ => rfl⟩ fun _ => .ret _

theorem reads_clients : Reads (κ := κ) (clients memStore) := Reads.op ⟨rfl, rfl, rfl, fun _ => rfl⟩ fun _ => .ret _

theorem reads_get (key : String) : Reads (κ := κ) (memStore.get key) :=
  Reads.op ⟨rfl, rfl, rfl, fun _ => rfl⟩ fun _ => .ret _

theorem reads_clientByID (id : String) : Reads (κ := κ) (clientByID memStore id) :=
  Reads.op ⟨rfl, rfl, rfl, fun _ => rfl⟩ fun _ => .ret _

theorem reads_policyGet : Reads (κ := κ) (policyGet memStore) :=
  Reads.op ⟨rfl, rfl, rfl, fun _ => rfl⟩ fun _ => .ret _

theorem reads_ownershipGet (sid : String) : Reads (κ := κ) (ownershipGet memStore sid) := by
  unfold memStore
  rw [ownershipGet_storeThen]
  exact Reads.call ⟨rfl, rfl, rfl, fun _ => rfl⟩

theorem reads_session (c : ClientRecord) : Reads (κ := κ) (session cfg memStore c) := by
  refine (reads_ownershipGet c.id).bind fun res => ?_
  rcases res with e | _ | own
  · exact .ret _
  · exact .ret _
  · exact .ret _

theorem reads_respond (a : Answer) : Reads (respond k a) := Reads.call ⟨rfl, rfl, rfl, fun _ => rfl⟩

theorem reads_fields : Reads (fields k) := Reads.call ⟨rfl, rfl, rfl, fun _ => rfl⟩

theorem reads_now : Reads (now k) := Reads.call ⟨rfl, rfl, rfl, fun _ => rfl⟩

theorem reads_randomSessionID : Reads (randomSessionID k) := Reads.call ⟨rfl, rfl, rfl, fun _ => rfl⟩

theorem reads_randomSecret : Reads (randomSecret k) := Reads.call ⟨rfl, rfl, rfl, fun _ => rfl⟩

theorem reads_waitVersion (after : ℕ) : Reads (waitVersion k after) := by
  intro h
  refine Follows.iterate (fun _ h' => h' = h) rfl fun _ h' hh => ?_
  subst hh
  refine Reads.andThen (Reads.call ⟨rfl, rfl, rfl, fun _ => rfl⟩) fun v => ?_
  by_cases hv : after < v
  · rw [if_pos hv]
    rfl
  · rw [if_neg hv]
    refine Reads.andThen (Reads.call ⟨rfl, rfl, rfl, fun _ => rfl⟩) fun changed => ?_
    cases changed <;> rfl

theorem reads_snapshot : Reads (snapshot memStore k) := by
  refine Reads.bind (Reads.call ⟨rfl, rfl, rfl, fun _ => rfl⟩) fun v => ?_
  refine reads_gateways.bind fun gws => ?_
  cases gws with
  | error e => exact .ret _
  | ok gws => exact Reads.bind (Reads.call ⟨rfl, rfl, rfl, fun _ => rfl⟩) fun _ => .ret _

theorem reads_sessions (cs : List ClientRecord) : Reads (κ := κ) (sessions cfg memStore cs) := by
  induction cs with
  | nil => exact .ret _
  | cons c cs ih => exact (reads_session cfg c).bind fun _ => ih.bind fun _ => .ret _

theorem reads_listGateways : Reads (listGateways memStore k) := by
  refine (reads_snapshot k).bind fun res => ?_
  cases res with
  | error e => exact reads_respond k _
  | ok res => exact reads_respond k _

theorem reads_gatewayState (after : ℕ) : Reads (gatewayState cfg memStore k after) := by
  refine (reads_waitVersion k after).bind fun _ => (reads_snapshot k).bind fun res => ?_
  cases res with
  | error e => exact reads_respond k _
  | ok res =>
    refine reads_clients.bind fun cs => ?_
    cases cs with
    | error e => exact reads_respond k _
    | ok cs => exact (reads_sessions cfg cs).bind fun _ => reads_respond k _

theorem reads_clientState (after : ℕ) (c : ClientRecord) : Reads (clientState cfg memStore k after c) := by
  refine (reads_waitVersion k after).bind fun _ => (reads_snapshot k).bind fun res => ?_
  cases res with
  | error e => exact reads_respond k _
  | ok res =>
    refine (reads_session cfg c).bind fun sess => ?_
    cases sess with
    | error e => exact reads_respond k _
    | ok sess =>
      refine reads_policyGet.bind fun pol => ?_
      cases pol with
      | error e => exact reads_respond k _
      | ok pol => exact reads_respond k _

theorem reads_answerCreated (c : ClientRecord) (secret : String) :
    Reads (κ := κ) (answerCreated cfg memStore c secret) := by
  refine (reads_session cfg c).bind fun res => ?_
  cases res with
  | error e => exact .ret _
  | ok sess => exact .ret _

/-! ## What handlers change -/

variable {k} {h : Custody}

theorem follows_bump (held : h.holds = true) : Follows Custody.next (bumpLocked k) (fun _ h' => h' = .clean) h := by
  intro r
  exact ⟨.clean, by simp [Custody.next, locks, unlocks, bumps, held], rfl⟩

theorem follows_put (held : h.holds = true) (key : String) (value : Doc) :
    Follows (Custody.next (κ := κ)) (memStore.put key value) (fun err h' => err = none ∧ h' = .dirty) h := by
  intro r
  exact ⟨.dirty, by simp [Custody.next, locks, unlocks, bumps, changes, written, held], rfl, rfl⟩

def Stored (h : Custody) (res : Bool × Option String) (h' : Custody) : Prop :=
  h' = h ∨ h' = .dirty ∧ res = (true, none)

def Turned (h : Custody) : Unit ⊕ Bool × Option String → Custody → Prop
  | .inl _, h' => h' = h
  | .inr res, h' => Stored h res h'

theorem follows_swapTurn (held : h.holds = true) (rec : OwnershipRecord) (rev : ℕ) :
    Follows (Custody.next (κ := κ)) (swapTurn (fencerThen (return none)) rec rev) (Turned h) h := by
  unfold swapTurn
  cases marshalOwnership rec with
  | error e => exact Or.inl rfl
  | ok data =>
    rintro ⟨rev', ok⟩
    cases ok with
    | false => exact ⟨h, by simp [Custody.next, locks, unlocks, bumps, changes, written], rfl⟩
    | true =>
      refine ⟨.dirty, by simp [Custody.next, locks, unlocks, bumps, changes, written, held], ?_⟩
      exact Or.inr ⟨rfl, rfl⟩

theorem follows_judgeTurn (held : h.holds = true) (rec : OwnershipRecord) (rev : ℕ) (data : Option Doc) :
    Follows (Custody.next (κ := κ)) (judgeTurn (fencerThen (return none)) rec rev data) (Turned h) h := by
  unfold judgeTurn
  cases unmarshalOwnership data with
  | error e => exact Or.inl rfl
  | ok cur =>
    dsimp only
    split_ifs
    · exact Or.inl rfl
    · exact follows_swapTurn held rec rev

theorem follows_setIfNewer (held : h.holds = true) (rec : OwnershipRecord) :
    Follows (Custody.next (κ := κ)) (setIfNewer memStore rec) (Stored h) h := by
  unfold setIfNewer
  cases rec.validate with
  | error e => exact Or.inl rfl
  | ok u =>
    refine Follows.iterate (fun _ h' => h' = h) rfl fun _ h' hh => ?_
    subst hh
    refine Follows.mono (Q := Turned h') ?_ fun d _ hd => by cases d <;> exact hd
    refine Reads.andThen (Reads.call ⟨rfl, rfl, rfl, fun _ => rfl⟩) fun rev => ?_
    rcases rev with e | _ | rev
    · exact Or.inl rfl
    · exact follows_swapTurn held rec 0
    · refine (reads_get _).andThen fun data => ?_
      cases data with
      | error e => exact Or.inl rfl
      | ok data => exact follows_judgeTurn held rec rev data

theorem follows_seenLocked (id : String) :
    Follows Custody.next (seenLocked k id) (fun _ h' => h' = .clean) .clean := by
  unfold seenLocked
  refine (reads_now k).andThen fun time => ?_
  refine Reads.andThen (Reads.call ⟨rfl, rfl, rfl, fun _ => rfl⟩) fun _ => ?_
  refine (reads_fields k).andThen fun res => ?_
  dsimp only
  split_ifs
  · intro r
    exact ⟨.dirty, by simp [Custody.next, locks, unlocks, bumps, changes, Custody.holds], follows_bump rfl⟩
  · rfl

theorem follows_registerGatewayBody (id : String) (req : RegisterGatewayRequest) :
    Follows Custody.next (registerGatewayBody cfg memStore k id req) (fun _ h' => h' = .clean) .clean := by
  unfold registerGatewayBody
  refine reads_gateways.andThen fun gws => ?_
  cases gws with
  | error e => rfl
  | ok gws =>
    dsimp only
    cases nodeIPOf cfg gws id with
    | error e => rfl
    | ok nodeIP =>
      dsimp only
      split_ifs
      · refine (follows_put rfl _ _).andThen ?_
        rintro err h ⟨rfl, rfl⟩
        refine (follows_bump rfl).andThen ?_
        rintro _ h rfl
        exact (follows_seenLocked id).andThen fun _ _ hh => hh
      · exact (follows_seenLocked id).andThen fun _ _ hh => hh

theorem follows_sweepGateways (time : ℕ) (lastSeen : AList fun _ : String => ℕ)
    (gws : List (Sigma fun _ : String => Bool)) :
    Follows Custody.next (sweepGateways cfg k time lastSeen gws) (fun _ h' => h' = .clean) .clean := by
  induction gws with
  | nil => rfl
  | cons g gws ih =>
    obtain ⟨id, alive⟩ := g
    unfold sweepGateways
    split_ifs
    · intro r
      refine ⟨.dirty, by simp [Custody.next, locks, unlocks, bumps, changes, Custody.holds], ?_⟩
      refine (follows_bump rfl).andThen ?_
      rintro _ h rfl
      exact ih
    · exact ih

theorem follows_moveToBackend (gws : List Gateway) (c : ClientRecord) (cur : Session) (backend : String) :
    Follows Custody.next (moveToBackend cfg memStore k gws c cur backend)
      (fun err h' => h' = .clean ∨ h' = .dirty ∧ err = none) .clean := by
  unfold moveToBackend
  split_ifs
  · refine (reads_fields k).andThen fun res => ?_
    dsimp only
    cases pickPath cfg.quote gws res.1 cur.egress backend with
    | error e => exact Or.inl rfl
    | ok path =>
      refine Follows.andThen (follows_setIfNewer (h := .clean) rfl _) ?_
      rintro res h (rfl | ⟨rfl, rfl⟩)
      · exact Or.inl rfl
      · exact Or.inr ⟨rfl, rfl⟩
  · exact Or.inl rfl

theorem follows_recordBackend (held : h.holds = true) (c : ClientRecord) (backend : String) :
    Follows Custody.next (recordBackend memStore k c backend) (fun _ h' => h' = .clean) h := by
  refine (follows_put held _ _).andThen ?_
  rintro err h ⟨rfl, rfl⟩
  refine (follows_bump rfl).andThen ?_
  rintro _ h rfl
  rfl

theorem follows_switchBackendLocked (c : ClientRecord) (backend : String) :
    Follows Custody.next (switchBackendLocked cfg memStore k c backend) (fun _ h' => h' = .clean) .clean := by
  refine (reads_session cfg c).andThen fun cur => ?_
  cases cur with
  | error e => rfl
  | ok cur =>
    refine reads_gateways.andThen fun gws => ?_
    cases gws with
    | error e => rfl
    | ok gws =>
      refine (follows_moveToBackend cfg gws c cur backend).andThen ?_
      rintro err h (rfl | ⟨rfl, rfl⟩)
      · cases err with
        | some e => rfl
        | none => exact follows_recordBackend rfl c backend
      · exact follows_recordBackend rfl c backend

theorem follows_reopenSession (req : CreateSessionRequest) (backend : String) (c : ClientRecord) :
    Follows Custody.next (reopenSession cfg memStore k req backend c) (fun _ h' => h' = .clean) .clean := by
  unfold reopenSession
  split_ifs
  · rfl
  · refine (follows_switchBackendLocked cfg c backend).andThen ?_
    rintro err h rfl
    cases err with
    | some e => rfl
    | none => exact reads_answerCreated cfg _ _ _
  · exact reads_answerCreated cfg _ _ _

theorem follows_openSession (req : CreateSessionRequest) (backend : String) (cs : List ClientRecord) :
    Follows Custody.next (openSession cfg memStore k req backend cs) (fun _ h' => h' = .clean) .clean := by
  unfold openSession
  refine reads_gateways.andThen fun gws => ?_
  cases gws with
  | error e => rfl
  | ok gws =>
    refine (reads_fields k).andThen fun res => ?_
    dsimp only
    cases pickPath cfg.quote gws res.1 req.egress backend with
    | error e => rfl
    | ok path =>
      dsimp only
      cases allocate cfg.network.clientSubnet (cs.map ClientRecord.virtualIP) with
      | error e => rfl
      | ok vip =>
        refine (reads_randomSessionID k).andThen fun id => ?_
        cases id with
        | error e => rfl
        | ok id =>
          refine (reads_randomSecret k).andThen fun secret => ?_
          cases secret with
          | error e => rfl
          | ok secret =>
            refine (follows_setIfNewer rfl _).andThen fun res h hh => ?_
            obtain ⟨applied, err⟩ := res
            have held : h.holds = true := by
              rcases hh with rfl | ⟨rfl, -⟩ <;> rfl
            cases err with
            | some e =>
              rcases hh with rfl | ⟨-, hres⟩
              · rfl
              · cases hres
            | none =>
              refine (follows_put held _ _).andThen ?_
              rintro err h ⟨rfl, rfl⟩
              refine (follows_bump rfl).andThen ?_
              rintro _ h rfl
              exact reads_answerCreated cfg _ _ _

theorem follows_createSessionBody (req : CreateSessionRequest) (backend : String) :
    Follows Custody.next (createSessionBody cfg memStore k req backend) (fun _ h' => h' = .clean) .clean := by
  refine reads_clients.andThen fun cs => ?_
  cases cs with
  | error e => rfl
  | ok cs =>
    dsimp only
    cases cs.find? (·.publicKey == req.publicKey) with
    | some c => exact follows_reopenSession cfg req backend c
    | none => exact follows_openSession cfg req backend cs

theorem follows_migrateBody (req : MigrateRequest) (c : ClientRecord) :
    Follows Custody.next (migrateBody cfg memStore k req c) (fun _ h' => h' = .clean) .clean := by
  refine reads_gateways.andThen fun gws => ?_
  cases gws with
  | error e => rfl
  | ok gws =>
    dsimp only
    split_ifs
    · rfl
    · rfl
    · refine (reads_session cfg c).andThen fun cur => ?_
      cases cur with
      | error e => rfl
      | ok cur =>
        dsimp only
        split_ifs
        · rfl
        · refine (follows_setIfNewer rfl _).andThen fun res h hh => ?_
          obtain ⟨applied, err⟩ := res
          cases err with
          | some e =>
            rcases hh with rfl | ⟨-, hres⟩
            · rfl
            · cases hres
          | none =>
            cases applied with
            | false =>
              rcases hh with rfl | ⟨-, hres⟩
              · refine (reads_session cfg c).andThen fun now => ?_
                cases now <;> rfl
              · cases hres
            | true =>
              have held : h.holds = true := by
                rcases hh with rfl | ⟨rfl, -⟩ <;> rfl
              exact (follows_bump held).andThen fun _ _ hh => hh

theorem follows_unlock : Follows Custody.next (onServer k .unlock) (fun _ _ => True) .clean :=
  fun _ => ⟨.left, by simp [Custody.next, locks, unlocks], trivial⟩

theorem follows_locked {body : Handler κ Answer}
    (hbody : Follows Custody.next body (fun _ h' => h' = .clean) .clean) :
    Follows Custody.next (locked k body) (fun _ _ => True) .out := by
  intro r
  refine ⟨.clean, by simp [Custody.next, locks], hbody.andThen ?_⟩
  rintro a h rfl
  refine (reads_respond k a).andThen fun a => ?_
  exact follows_unlock.andThen fun _ _ _ => trivial

theorem Reads.anyhow {α : Type} {p : Handler κ α} (h : Reads p) (s : Custody) :
    Follows Custody.next p (fun _ _ => True) s :=
  (h s).mono fun _ _ _ => trivial

variable (k)

theorem follows_respond (a : Answer) : Follows Custody.next (respond k a) (fun _ _ => True) .out :=
  (reads_respond k a).anyhow _

variable {k}

theorem follows_gatewayAuth (bearer : String) {h : Handler κ Answer}
    (hh : Follows Custody.next h (fun _ _ => True) .out) :
    Follows Custody.next (gatewayAuth cfg k bearer h) (fun _ _ => True) .out := by
  unfold gatewayAuth
  split_ifs
  · exact follows_respond k _
  · exact hh

theorem follows_clientAuth (bearer : String) {h : Handler κ Answer}
    (hh : Follows Custody.next h (fun _ _ => True) .out) :
    Follows Custody.next (clientAuth cfg k bearer h) (fun _ _ => True) .out := by
  unfold clientAuth
  split_ifs
  · exact follows_respond k _
  · exact hh

theorem follows_sessionAuth (id bearer : String) {h : ClientRecord → Handler κ Answer}
    (hh : ∀ c, Follows Custody.next (h c) (fun _ _ => True) .out) :
    Follows Custody.next (sessionAuth cfg memStore k id bearer h) (fun _ _ => True) .out := by
  unfold sessionAuth
  refine (reads_clientByID id).andThen fun res => ?_
  rcases res with e | _ | rec
  · exact follows_respond k _
  · exact follows_respond k _
  · dsimp only
    split_ifs
    · exact follows_respond k _
    · exact hh rec

theorem follows_registerGateway (id : String) (body : Except String RegisterGatewayRequest) :
    Follows Custody.next (registerGateway cfg memStore k id body) (fun _ _ => True) .out := by
  unfold registerGateway
  cases body with
  | error e => split_ifs <;> exact follows_respond k _
  | ok req =>
    dsimp only
    split_ifs
    · exact follows_respond k _
    · exact follows_respond k _
    · exact follows_respond k _
    · exact follows_respond k _
    · exact follows_locked (follows_registerGatewayBody cfg id req)

theorem follows_reportLinks (id : String) (body : Except String Unit) :
    Follows Custody.next (reportLinks memStore k id body) (fun _ _ => True) .out := by
  unfold reportLinks
  cases body with
  | error e => exact follows_respond k _
  | ok u =>
    refine follows_locked ((reads_get _).andThen fun res => ?_)
    rcases res with e | _ | doc
    · rfl
    · rfl
    · exact (follows_seenLocked id).andThen fun _ _ hh => hh

theorem follows_createSession (bearer : String) (body : Except String CreateSessionRequest) :
    Follows Custody.next (createSession cfg memStore k bearer body) (fun _ _ => True) .out := by
  unfold createSession
  cases body with
  | error e => split_ifs <;> exact follows_respond k _
  | ok req =>
    dsimp only
    split_ifs
    · exact follows_respond k _
    · exact follows_respond k _
    · exact follows_respond k _
    · exact follows_respond k _
    · exact follows_locked (follows_createSessionBody cfg req _)

theorem follows_migrate (body : Except String MigrateRequest) (c : ClientRecord) :
    Follows Custody.next (migrate cfg memStore k body c) (fun _ _ => True) .out := by
  unfold migrate
  cases body with
  | error e => exact follows_respond k _
  | ok req => exact follows_locked (follows_migrateBody cfg req c)

theorem follows_sweep : Follows Custody.next (sweep cfg k) (fun _ _ => True) .out := by
  intro r
  refine ⟨.clean, by simp [Custody.next, locks], ?_⟩
  refine (reads_now k).andThen fun time => (reads_fields k).andThen fun res => ?_
  refine (follows_sweepGateways cfg time res.2 _).andThen ?_
  rintro _ h rfl
  exact follows_unlock

theorem follows_serve (k : κ) (req : Request) :
    Follows Custody.next (serve cfg memStore k req) (fun _ _ => True) .out := by
  cases req with
  | registerGateway bearer id body =>
    exact follows_gatewayAuth cfg bearer (follows_registerGateway cfg id body)
  | reportLinks bearer id body => exact follows_gatewayAuth cfg bearer (follows_reportLinks id body)
  | gatewayState bearer after =>
    exact follows_gatewayAuth cfg bearer ((reads_gatewayState cfg k after).anyhow _)
  | listGateways bearer => exact follows_clientAuth cfg bearer ((reads_listGateways k).anyhow _)
  | createSession bearer body => exact follows_createSession cfg bearer body
  | clientState bearer id after =>
    exact follows_sessionAuth cfg id bearer fun c => (reads_clientState cfg k after c).anyhow _
  | migrate bearer id body => exact follows_sessionAuth cfg id bearer fun c => follows_migrate cfg body c
  | sweep => exact (follows_sweep cfg).andThen fun _ _ _ => trivial

end Handlers

end Discipline

/-! ## The mutex -/

section Custodial

variable {ι : Type} [DecidableEq ι]

/-- Who has the lock; and news are announced before it is given up. -/
structure Custodial (w : ServerWorld Unit ι) (hs : ι → Custody) : Prop where
  mu : ∀ j, (hs j).holds = true → (w.st.2 ()).mu = some j
  announced : ∀ (m : ℕ) (e : ServerEntry Unit ι), w.hist[m]? = some e → changes e.op e.res = true →
    hs e.tid = .dirty ∨ ∃ (n : ℕ) (b : ServerEntry Unit ι), m < n ∧ w.hist[n]? = some b ∧ bumps b.op = true

variable {o : (HandlerSig Unit).Op}

theorem exec_locks {ω : Choice} {i : ι} {r : (HandlerSig Unit).Res o} {s s' : ServerState Unit ι}
    (hex : (serverPool Unit ι).exec ω i o s = some (r, s')) (h : locks o = true) :
    (s.2 ()).mu = none ∧ (s'.2 ()).mu = some i := by
  cases o with
  | inl o => cases h
  | inr o =>
    obtain ⟨⟨⟩, o⟩ := o
    cases o with
    | lock =>
      obtain ⟨x, hx, rfl⟩ := exec_server hex
      simp only [Server.exec] at hx
      split_ifs at hx with hmu
      cases hx
      exact ⟨hmu, rfl⟩
    | _ => cases h

omit [DecidableEq ι] in
theorem changes_of_marks (h : locks o = true ∨ unlocks o = true ∨ bumps o = true)
    (r : (HandlerSig Unit).Res o) : changes o r = false := by
  cases o with
  | inl o => simp [locks, unlocks, bumps] at h
  | inr o =>
    obtain ⟨⟨⟩, o⟩ := o
    cases o with
    | lock | unlock | bump => rfl
    | _ => simp [locks, unlocks, bumps] at h

omit [DecidableEq ι] in
theorem Custody.next_cases {h h' : Custody} {r : (HandlerSig Unit).Res o} (hn : h.next o r = some h') :
    (locks o = true ∧ h = .out ∧ h' = .clean) ∨ (unlocks o = true ∧ h = .clean ∧ h' = .left) ∨
      (unlocks o = false ∧ h.holds = true ∧ bumps o = true ∧ h' = .clean) ∨
      (unlocks o = false ∧ h.holds = true ∧ h' = .dirty) ∨
      (unlocks o = false ∧ changes o r = false ∧ h' = h) := by
  unfold Custody.next at hn
  split_ifs at hn with hlock hout hunlock hclean hbump hheld hchange hheld'
  · exact Or.inl ⟨hlock, hout, (Option.some.inj hn).symm⟩
  · exact Or.inr (Or.inl ⟨hunlock, hclean, (Option.some.inj hn).symm⟩)
  · exact Or.inr (Or.inr (Or.inl ⟨by simpa using hunlock, hheld, hbump, (Option.some.inj hn).symm⟩))
  · exact Or.inr (Or.inr (Or.inr (Or.inl ⟨by simpa using hunlock, hheld', (Option.some.inj hn).symm⟩)))
  · exact Or.inr (Or.inr (Or.inr (Or.inr
      ⟨by simpa using hunlock, by simpa using hchange, (Option.some.inj hn).symm⟩)))

namespace Custodial

variable {w : ServerWorld Unit ι} {hs : ι → Custody} {ω : Choice} {i : ι}
  {o : (HandlerSig Unit).Op} {r : (HandlerSig Unit).Res o}
  {s' : ServerState Unit ι} {h' : Custody}

theorem push_mu (inv : Custodial w hs) (hex : (serverPool Unit ι).exec ω i o w.st = some (r, s'))
    (hn : (hs i).next o r = some h') (j : ι) (hj : (Function.update hs i h' j).holds = true) :
    (s'.2 ()).mu = some j := by
  by_cases hji : j = i
  · subst hji
    rw [Function.update_self] at hj
    have kept : unlocks o = false → (hs j).holds = true → (s'.2 ()).mu = some j := by
      intro hu hheld
      refine (exec_mu hex (inv.mu j hheld)).resolve_right fun h => ?_
      rw [hu] at h
      cases h.2
    rcases Custody.next_cases hn with ⟨hl, -, -⟩ | ⟨-, -, rfl⟩ | ⟨hu, hheld, -, -⟩ | ⟨hu, hheld, -⟩ | ⟨hu, -, rfl⟩
    · exact (exec_locks hex hl).2
    · cases hj
    · exact kept hu hheld
    · exact kept hu hheld
    · exact kept hu hj
  · rw [Function.update_of_ne hji] at hj
    exact (exec_mu hex (inv.mu j hj)).resolve_right fun h => hji h.1

theorem dirty_push (hn : (hs i).next o r = some h') {j : ι} (hj : hs j = .dirty) :
    Function.update hs i h' j = .dirty ∨ bumps o = true := by
  by_cases hji : j = i
  · subst hji
    rw [Function.update_self]
    rcases Custody.next_cases hn with ⟨-, hout, -⟩ | ⟨-, hclean, -⟩ | ⟨-, -, hb, -⟩ | ⟨-, -, hd⟩ | ⟨-, -, hsame⟩
    · rw [hj] at hout
      cases hout
    · rw [hj] at hclean
      cases hclean
    · exact Or.inr hb
    · exact Or.inl hd
    · exact Or.inl (hsame.trans hj)
  · rw [Function.update_of_ne hji]
    exact Or.inl hj

theorem push (inv : Custodial w hs) (hex : (serverPool Unit ι).exec ω i o w.st = some (r, s'))
    (hn : (hs i).next o r = some h') : Custodial (w.push i o r s') (Function.update hs i h') := by
  refine ⟨fun j hj => inv.push_mu hex hn j hj, fun m e he hchange => ?_⟩
  by_cases hm : m < w.hist.length
  · rw [World.push_hist, List.getElem?_append_left hm] at he
    rcases inv.announced m e he hchange with hdirty | ⟨n, b, hmn, hb, hbump⟩
    · rcases dirty_push hn hdirty with hdirty | hbump
      · exact Or.inl hdirty
      · exact Or.inr ⟨w.hist.length, ⟨i, o, r, w.st, s'⟩, hm, hist_push_self w i o r s', hbump⟩
    · exact Or.inr ⟨n, b, hmn, hist_push hb i o r s', hbump⟩
  · -- the change is the one just made
    have hlen := (List.getElem?_eq_some_iff.1 he).1
    rw [length_hist_push] at hlen
    obtain rfl : m = w.hist.length := by omega
    rw [hist_push_self] at he
    cases he
    dsimp only at hchange
    rw [Function.update_self]
    have marks : ¬ (locks o = true ∨ unlocks o = true ∨ bumps o = true) := by
      intro h
      rw [changes_of_marks h r] at hchange
      cases hchange
    rcases Custody.next_cases hn with ⟨hl, -, -⟩ | ⟨hu, -, -⟩ | ⟨-, -, hb, -⟩ | ⟨-, -, hd⟩ | ⟨-, hsilent, -⟩
    · exact absurd (Or.inl hl) marks
    · exact absurd (Or.inr (Or.inl hu)) marks
    · exact absurd (Or.inr (Or.inr hb)) marks
    · exact Or.inl hd
    · rw [hchange] at hsilent
      cases hsilent

end Custodial

/-- News are announced, along every run. -/
theorem Deployment.announced_of_reaches (d : Deployment Unit ι)
    {c : Config ι (HandlerSig Unit) (ServerState Unit ι) Answer}
    (reach : d.start.Reaches (serverPool Unit ι) c) (free : (c.world.st.2 ()).mu = none) {m : ℕ}
    {e : ServerEntry Unit ι} (he : c.world.hist[m]? = some e) (hchange : changes e.op e.res = true) :
    ∃ (n : ℕ) (b : ServerEntry Unit ι), m < n ∧ c.world.hist[n]? = some b ∧ bumps b.op = true := by
  have start : Tracked Custody.next (fun _ _ _ => True) d.start fun _ => .out := fun i => follows_serve _ _ _
  obtain ⟨hs, -, inv⟩ := start.reaches (I := Custodial) (fun _ _ _ _ _ _ _ _ inv hex hn => inv.push hex hn)
    ⟨fun _ h => (by cases h), fun m e he => (by simp [Deployment.start] at he)⟩ reach
  refine (inv.announced m e he hchange).resolve_left fun hdirty => ?_
  have := inv.mu e.tid (by rw [hdirty]; rfl)
  rw [free] at this
  cases this

end Custodial

end Egressa
