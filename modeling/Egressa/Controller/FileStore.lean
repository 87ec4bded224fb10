import Egressa.Control.SetIfNewer

/-!
# Ownership across restarts

A write to a `FileStore` (`internal/controller/filestore.go`) is visible as soon as it is in memory, and stays so when
the save behind it fails; a restart goes back to the file.  An epoch names one owner as long as no restart forgets a
record that was read (`Durable`).
-/

namespace Egressa

open Conc

section Lives

variable {ι : Type} [DecidableEq ι]

/-- The calls on the ownership service. -/
inductive OwnershipCall where
  | setIfNewer (rec : OwnershipRecord)
  | get (session : String)

def OwnershipCall.run : OwnershipCall → Prog (StoreSig.sum NoSig) (Option (String × OwnershipRecord))
  | .setIfNewer rec => do
    let _ ← Egressa.setIfNewer fileStore rec
    return none
  | .get session => do
    match ← ownershipGet fileStore session with
    | .ok (some rec) => return some (session, rec)
    | _ => return none

abbrev Life (ι : Type) := Config ι (StoreSig.sum NoSig) (Disk ι × Unit) (Option (String × OwnershipRecord))

/-- A controller that has just opened `file`, whose keys are put in some order `kv`; `faults` are the outcomes of the
saves. -/
def boot (file kv : List (String × Doc)) (faults : List (Option String)) (calls : ι → OwnershipCall) : Life ι where
  pool i := (calls i).run
  world := ⟨({ mem := .openFile kv, file, faults }, ()), []⟩

/-- A run of a controller: calls interleave, callers are answered, and it may restart whenever `ok` allows.  `seen` is
what readers were answered so far, in all lives. -/
inductive Lives (ok : Set (String × OwnershipRecord) → Disk ι → Prop) : Set (String × OwnershipRecord) → Life ι → Prop
  | start {file kv : List (String × Doc)} {faults : List (Option String)} {calls : ι → OwnershipCall}
      (nodup : (file.map Prod.fst).Nodup) (perm : kv.Perm file) :
      Lives ok ∅ (boot file kv faults calls)
  | step {seen : Set (String × OwnershipRecord)} {c c' : Life ι} (h : Lives ok seen c)
      (step : Config.Step (bareSystem ι) c c') : Lives ok seen c'
  | answer {seen : Set (String × OwnershipRecord)} {c : Life ι} (h : Lives ok seen c) {i : ι}
      {p : String × OwnershipRecord} (returned : c.pool i = .ret (some p)) :
      Lives ok (insert p seen) c
  | restart {seen : Set (String × OwnershipRecord)} {c : Life ι} (h : Lives ok seen c)
      (allowed : ok seen c.world.st.1) {kv : List (String × Doc)} (perm : kv.Perm c.world.st.1.file)
      (faults : List (Option String)) (calls : ι → OwnershipCall) :
      Lives ok seen (boot c.world.st.1.file kv faults calls)

/-- An epoch of a session names one record in everything that was read. -/
def OneOwner (seen : Set (String × OwnershipRecord)) : Prop :=
  ∀ session r r', (session, r) ∈ seen → (session, r') ∈ seen → r.epoch = r'.epoch → r = r'

/-- The file has, for every record that was read, one of the same session at least as new. -/
def Durable (seen : Set (String × OwnershipRecord)) (d : Disk ι) : Prop :=
  ∀ session r, (session, r) ∈ seen → ∃ cur, ownershipIn (.openFile d.file) session = some cur ∧ r.epoch ≤ cur.epoch

/-! ## One life -/

variable {m₀ : MemStore} {w : StoreWorld ι NoSig Unit}

/-- The file lists records of this life or the ones before. -/
def Recorded (m₀ : MemStore) (w : World ι (StoreSig.sum NoSig) (Disk ι × Unit)) (kv : List (String × Doc)) : Prop :=
  (kv.map Prod.fst).Nodup ∧ ∀ session r, (sessionKey session, .ownership r) ∈ kv →
    r.validate = .ok () → r ∈ ledger m₀ w.hist session

def renamed {X : Sig} : (o : (StoreSig.sum X).Op) → (StoreSig.sum X).Res o → Option (List (String × Doc))
  | .inl (.rename kv), (r : Option String) => if r = none then some kv else none
  | _, _ => none

variable {i : ι}

theorem exec_file {ω : Unit} {o : (StoreSig.sum NoSig).Op} {s s' : Disk ι × Unit}
    {r : (StoreSig.sum NoSig).Res o} (hex : (bareSystem ι).exec ω i o s = some (r, s')) :
    s'.1.file = (renamed o r).getD s.1.file := by
  cases o with
  | inr x => exact x.elim
  | inl o =>
    obtain ⟨⟨r', d⟩, hd, hp⟩ := Option.map_eq_some_iff.1 hex
    cases hp
    cases o with
    | memGet | memList | memPut | memRevision | memCAS | refuse =>
      cases hd
      rfl
    | saveLock | saveUnlock =>
      simp only [storeSystem] at hd
      split_ifs at hd
      cases hd
      rfl
    | rename kv =>
      simp only [storeSystem] at hd
      split at hd <;> cases hd <;> rfl

theorem renamed_of_written {X : Sig} {o : (StoreSig.sum X).Op} {r : (StoreSig.sum X).Res o}
    {p : String × Doc} (h : written o r = some p) : renamed o r = none := by
  cases o with
  | inr x => rfl
  | inl o => cases o with
    | rename kv => cases h
    | _ => rfl

theorem Peeks.renamed_eq {X : Sig} {key : String} {o : (StoreSig.sum X).Op}
    {r : (StoreSig.sum X).Res o} (h : Peeks key o r) : renamed o r = none := by
  cases o with
  | inr x => rfl
  | inl o => cases o with
    | rename kv => cases h
    | _ => rfl

omit [DecidableEq ι] in
theorem Recorded.push {kv : List (String × Doc)} (h : Recorded m₀ w kv) (i : ι)
    (o : (StoreSig.sum NoSig).Op) (r : (StoreSig.sum NoSig).Res o) (s' : Disk ι × Unit) :
    Recorded m₀ (w.push i o r s') kv := by
  exact ⟨h.1, fun session rec hmem hv => mem_ledger_push (h.2 session rec hmem hv) i o r s'⟩

def lifeContract (m₀ : MemStore) : Contract ι (StoreSig.sum NoSig) (Disk ι × Unit) where
  inv w := Ledger m₀ w ∧ Recorded m₀ w w.st.1.file
  guar _ _ _ := True

omit [DecidableEq ι] in
theorem Ledger.recorded_list (h : Ledger m₀ w) : Recorded m₀ w (w.st.1.mem.list "") := by
  refine ⟨w.st.1.mem.nodup_list "", fun session r hmem hv => ?_⟩
  have hget := (w.st.1.mem.mem_list.1 hmem).2
  exact List.mem_of_getLast? ((h.stored session).symm.trans (ownershipIn_eq_some.2 ⟨hget, hv⟩))

theorem life_push (inv : (lifeContract m₀).inv w) {ω : Unit} {o : (StoreSig.sum NoSig).Op}
    {r : (StoreSig.sum NoSig).Res o} {s' : Disk ι × Unit}
    (hex : (bareSystem ι).exec ω i o w.st = some (r, s')) (hw : written o r = none)
    (saves : ∀ kv ∈ renamed o r, Recorded m₀ w kv) : (lifeContract m₀).inv (w.push i o r s') := by
  refine ⟨inv.1.push_other hex fun p session hp => by simp [hw] at hp, ?_⟩
  rw [World.push_st, exec_file hex]
  cases hr : renamed o r with
  | none => exact inv.2.push i o r s'
  | some kv => exact (saves kv hr).push i o r s'

theorem stable_recorded (kv : List (String × Doc)) :
    Stable (lifeContract m₀) (bareSystem ι) i fun w => Recorded m₀ w kv := by
  rintro w w' ⟨j, -, ⟨ω, o, r, s', -, rfl⟩, -⟩ h
  exact h.push j o r s'

theorem save_keeps (i : ι) (w : StoreWorld ι NoSig Unit) :
    wp (lifeContract m₀) (bareSystem ι) i save (fun _ _ => True) w := by
  intro w₁ _ inv₁ ω₁ r₁ s₁ hex₁
  refine ⟨trivial, life_push inv₁ hex₁ rfl (by simp [renamed]), ?_⟩
  intro w₂ _ inv₂ ω₂ all s₂ hex₂
  obtain ⟨rfl, rfl⟩ := Prod.mk.inj (Option.some.inj hex₂)
  refine ⟨trivial, life_push inv₂ hex₂ rfl (by simp [renamed]), ?_⟩
  have listed := inv₂.1.recorded_list.push i (.inl (.memList "")) (w₂.st.1.mem.list "") w₂.st
  intro w₃ env₃ inv₃ ω₃ err s₃ hex₃
  have listed₃ := (stable_recorded _).env env₃ listed
  refine ⟨trivial, life_push inv₃ hex₃ rfl ?_, ?_⟩
  · intro kv hkv
    unfold renamed at hkv
    dsimp only at hkv
    split_ifs at hkv
    · cases hkv
      exact listed₃
    · cases hkv
  · intro w₄ _ inv₄ ω₄ r₄ s₄ hex₄
    exact ⟨trivial, life_push inv₄ hex₄ rfl (by simp [renamed]), fun _ _ _ => trivial⟩

def answered (m₀ : MemStore) (res : Option (String × OwnershipRecord))
    (w : World ι (StoreSig.sum NoSig) (Disk ι × Unit)) : Prop :=
  ∀ session r, res = some (session, r) → r ∈ ledger m₀ w.hist session

theorem ownershipCall_keeps (i : ι) (call : OwnershipCall)
    {w : StoreWorld ι NoSig Unit} (inv : (lifeContract m₀).inv w) :
    wp (lifeContract m₀) (bareSystem ι) i call.run (answered m₀) w := by
  cases call with
  | setIfNewer rec =>
    have set : wp (lifeContract m₀) (bareSystem ι) i (setIfNewer fileStore rec) (fun _ _ => True) w := by
      refine wp_setIfNewer (P := fun _ => True) (fun _ _ _ _ => trivial) (fun _ _ _ _ _ => trivial)
        ?_ ?_ (fun _ _ _ _ _ _ => trivial) (fun _ _ _ _ => trivial) trivial
      · intro w ω o r s' inv _ peeks hex
        have saves : ∀ kv ∈ renamed o r, Recorded m₀ w kv := by
          intro kv hkv
          rw [peeks.renamed_eq] at hkv
          cases hkv
        exact ⟨trivial, life_push inv hex peeks.written_eq saves, trivial⟩
      · intro w ω o r s' inv _ hv sup hw hex
        refine ⟨trivial, ⟨inv.1.push_commit hex hw hv sup, ?_⟩, save_keeps i _⟩
        have same : s'.1.file = w.st.1.file := by rw [exec_file hex, renamed_of_written hw, Option.getD_none]
        rw [World.push_st, same]
        exact inv.2.push i o r s'
    refine wp_bind inv (wp_mono set fun _ _ _ _ => ?_)
    intro w' _ _ session r h
    cases h
  | get session =>
    have get : Triple (lifeContract m₀) (bareSystem ι) i (fun _ => True) (ownershipGet fileStore session)
        fun res w => ∀ r, res = .ok (some r) → r ∈ ledger m₀ w.hist session :=
      triple_ownershipGet session (fun _ inv => inv.1) fun _ _ _ _ inv hex =>
        ⟨trivial, life_push inv hex rfl (by simp [renamed])⟩
    refine wp_bind inv (wp_mono (get w inv trivial) fun res w' _ hres => ?_)
    rcases res with e | _ | rec
    · exact fun _ _ _ _ _ h => by cases h
    · exact fun _ _ _ _ _ h => by cases h
    · intro w₁ env₁ _ s r h
      cases h
      exact persistent_mem_ledger.stable.env env₁ (hres rec rfl)

theorem sound_boot {file kv : List (String × Doc)} (nodup : (file.map Prod.fst).Nodup)
    (perm : kv.Perm file) (faults : List (Option String)) (calls : ι → OwnershipCall) :
    Sound (lifeContract (.openFile kv)) (bareSystem ι) (fun _ => answered (.openFile kv))
      (boot file kv faults calls) := by
  have inv : (lifeContract (.openFile kv)).inv (boot file kv faults calls).world := by
    refine ⟨Ledger.init ({ mem := .openFile kv, file, faults }, ()), nodup, fun session r hmem hv => ?_⟩
    have nodup' : (kv.map Prod.fst).Nodup := (perm.map Prod.fst).nodup_iff.2 nodup
    have hget := (MemStore.get_openFile nodup' _ _).2 (perm.mem_iff.2 hmem)
    have hown : ownershipIn (.openFile kv) session = some r := ownershipIn_eq_some.2 ⟨hget, hv⟩
    simp [ledger, hown]
  exact ⟨inv, fun i => ownershipCall_keeps i (calls i) inv⟩

/-! ## All lives -/

def Known (m₀ : MemStore) (w : World ι (StoreSig.sum NoSig) (Disk ι × Unit)) (session : String)
    (r : OwnershipRecord) : Prop :=
  r ∈ ledger m₀ w.hist session ∨ ∃ cur, ownershipIn m₀ session = some cur ∧ r.epoch < cur.epoch

omit [DecidableEq ι] in
theorem Known.eq_of_epoch {session : String} {r r' : OwnershipRecord} (hk : Known m₀ w session r')
    (h : Ledger m₀ w) (hr : r ∈ ledger m₀ w.hist session) (he : r.epoch = r'.epoch) : r = r' := by
  rcases hk with hr' | ⟨cur, hcur, hlt⟩
  · exact h.eq_of_epoch hr hr' he
  · have := h.first_le hcur hr
    rw [he] at this
    exact absurd hlt (UInt64.not_lt.2 this)

/-- A life of the store; `seen` is what was read before. -/
structure OneLife (m₀ : MemStore) (seen : Set (String × OwnershipRecord)) (c : Life ι) : Prop where
  sound : Sound (lifeContract m₀) (bareSystem ι) (fun _ => answered m₀) c
  known : ∀ session r, (session, r) ∈ seen → Known m₀ c.world session r
  unique : OneOwner seen

theorem OneLife.boot {seen : Set (String × OwnershipRecord)} {file kv : List (String × Doc)}
    (nodup : (file.map Prod.fst).Nodup) (perm : kv.Perm file) (faults : List (Option String))
    (calls : ι → OwnershipCall) (unique : OneOwner seen)
    (known : ∀ session r, (session, r) ∈ seen →
      ∃ cur, ownershipIn (.openFile kv) session = some cur ∧ (r = cur ∨ r.epoch < cur.epoch)) :
    OneLife (.openFile kv) seen (Egressa.boot file kv faults calls) := by
  refine ⟨sound_boot nodup perm faults calls, fun session r hr => ?_, unique⟩
  obtain ⟨cur, hcur, rfl | hlt⟩ := known session r hr
  · exact Or.inl (by simp [ledger, hcur])
  · exact Or.inr ⟨cur, hcur, hlt⟩

theorem OneLife.step {seen : Set (String × OwnershipRecord)} {c c' : Life ι} (h : OneLife m₀ seen c)
    (step : Config.Step (bareSystem ι) c c') : OneLife m₀ seen c' := by
  refine ⟨h.sound.step step, fun session r hr => ?_, h.unique⟩
  rcases h.known session r hr with hl | hold
  · rcases Config.step_cases step with
      ⟨j, o, k, ω, res, s', -, -, rfl⟩ | ⟨j, β, γ, body, b, k, -, rfl⟩
    · exact Or.inl (mem_ledger_push hl j o res s')
    · exact Or.inl hl
  · exact Or.inr hold

variable {c : Life ι}

theorem OneLife.answer {seen : Set (String × OwnershipRecord)} (h : OneLife m₀ seen c)
    {p : String × OwnershipRecord} (returned : c.pool i = .ret (some p)) :
    OneLife m₀ (insert p seen) c := by
  have hp : p.2 ∈ ledger m₀ c.world.hist p.1 := h.sound.returned returned p.1 p.2 rfl
  have hledger : Ledger m₀ c.world := h.sound.inv.1
  refine ⟨h.sound, fun session r hr => ?_, fun session r r' hr hr' he => ?_⟩
  · rcases hr with rfl | hr
    · exact Or.inl hp
    · exact h.known session r hr
  · rcases hr with rfl | hr <;> rcases hr' with hr' | hr'
    · exact (Prod.mk.inj hr').2.symm
    · exact (h.known session r' hr').eq_of_epoch hledger hp he
    · subst hr'
      exact ((h.known session r hr).eq_of_epoch hledger hp he.symm).symm
    · exact h.unique session r r' hr hr' he

theorem OneLife.restart {seen : Set (String × OwnershipRecord)} (h : OneLife m₀ seen c)
    (durable : Durable seen c.world.st.1) {kv : List (String × Doc)}
    (perm : kv.Perm c.world.st.1.file) (faults : List (Option String)) (calls : ι → OwnershipCall) :
    OneLife (.openFile kv) seen (Egressa.boot c.world.st.1.file kv faults calls) := by
  obtain ⟨nodup, recorded⟩ := h.sound.inv.2
  have nodup' : (kv.map Prod.fst).Nodup := (perm.map Prod.fst).nodup_iff.2 nodup
  refine OneLife.boot nodup perm faults calls h.unique fun session r hr => ?_
  obtain ⟨cur, hcur, hle⟩ := durable session r hr
  obtain ⟨hget, hv⟩ := ownershipIn_eq_some.1 hcur
  have hfile := (MemStore.get_openFile nodup _ _).1 hget
  have hget' := (MemStore.get_openFile nodup' _ _).2 (perm.mem_iff.2 hfile)
  refine ⟨cur, ownershipIn_eq_some.2 ⟨hget', hv⟩, ?_⟩
  by_cases heq : cur.epoch = r.epoch
  · -- the file's record is of the ledger, so at equal epochs it is the one that was read
    exact Or.inl ((h.known session r hr).eq_of_epoch h.sound.inv.1 (recorded session cur hfile hv) heq).symm
  · exact Or.inr (UInt64.lt_of_le_of_ne hle (Ne.symm heq))

theorem Lives.oneLife {seen : Set (String × OwnershipRecord)}
    (run : Lives Durable seen c) : ∃ m₀, OneLife m₀ seen c := by
  induction run with
  | start nodup perm =>
    exact ⟨_, OneLife.boot nodup perm _ _ (fun _ _ _ h => h.elim) fun _ _ h => h.elim⟩
  | step _ step ih => exact ih.imp fun _ h => h.step step
  | answer _ returned ih => exact ih.imp fun _ h => h.answer returned
  | restart _ durable perm faults calls ih =>
    obtain ⟨m₀, h⟩ := ih
    exact ⟨_, h.restart durable perm faults calls⟩

/-- An epoch names one owner for ever, in every run whose restarts forget no record that was read. -/
theorem one_owner_of_durable {seen : Set (String × OwnershipRecord)} {c : Life ι}
    (run : Lives Durable seen c) : OneOwner seen := by
  obtain ⟨m₀, h⟩ := run.oneLife
  exact h.unique

/-- What is known along all lives of a store. -/
theorem Lives.reaches {ok : Set (String × OwnershipRecord) → Disk ι → Prop}
    {seen : Set (String × OwnershipRecord)} {c c' : Life ι} (h : Lives ok seen c)
    (reach : Config.Reaches (bareSystem ι) c c') : Lives ok seen c' := by
  induction reach with
  | refl => exact h
  | tail _ step ih => exact ih.step step

end Lives

/-! ## A restart that forgets -/

def openAndRead (access : String) : Bool → OwnershipCall
  | false => .setIfNewer ⟨"7", access, "gw-c", 1⟩
  | true => .get "7"

def openFirst : List (Bool × Unit) := [false, false, false, false, false, false, false, true].map (·, ())

theorem lives_openAndRead {ok : Set (String × OwnershipRecord) → Disk Bool → Prop}
    {seen : Set (String × OwnershipRecord)} (faults : List (Option String)) (access : String)
    (file : List (String × Doc))
    (h : Lives ok seen (boot [] [] faults (openAndRead access)))
    (ran : (Config.run? (bareSystem Bool) openFirst (boot [] [] faults (openAndRead access))).any
      (fun c => (c.pool true).result? = some (some ("7", ⟨"7", access, "gw-c", 1⟩)) ∧
        c.world.st.1.file = file) = true) :
    ∃ c, Lives ok (insert ("7", ⟨"7", access, "gw-c", 1⟩) seen) c ∧ c.world.st.1.file = file := by
  obtain ⟨c, reach, hret, hfile⟩ := Config.reaches_of_run_any _ _ _ _ ran
  exact ⟨c, (h.reaches reach).answer (Prog.eq_ret_of_result hret), hfile⟩

/-- The save of epoch 1 fails, the record is read, the controller restarts, and the epoch is opened
and read again with another access. -/
theorem epoch_reused : ¬ ∀ (seen : Set (String × OwnershipRecord)) (c : Life Bool), Lives (fun _ _ => True) seen c →
      OneOwner seen := by
  intro unique
  have start : Lives (fun _ _ => True) ∅ (boot [] [] [some "disk full"] (openAndRead "gw-a")) :=
    .start List.nodup_nil (List.Perm.refl _)
  obtain ⟨c₁, run₁, hfile₁⟩ := lives_openAndRead [some "disk full"] "gw-a" [] start (by decide)
  have again := run₁.restart trivial (List.Perm.refl _) [] (openAndRead "gw-b")
  rw [hfile₁] at again
  obtain ⟨c₂, run₂, -⟩ := lives_openAndRead [] "gw-b"
    [("/egressa/session/7", .ownership ⟨"7", "gw-b", "gw-c", 1⟩)] again (by decide)
  have same := unique _ c₂ run₂ "7" _ _ (Set.mem_insert _ _) (Set.mem_insert_of_mem _ (Set.mem_insert _ _)) rfl
  revert same
  decide

theorem one_owner_of_durable_saved : ∃ (seen : Set (String × OwnershipRecord)) (c : Life Bool), Lives Durable seen c ∧
      ("7", ⟨"7", "gw-a", "gw-c", 1⟩) ∈ seen ∧ c.world.hist = [] ∧ OneOwner seen := by
  have start : Lives Durable ∅ (boot [] [] [] (openAndRead "gw-a")) := .start List.nodup_nil (List.Perm.refl _)
  obtain ⟨c, run, hfile⟩ := lives_openAndRead [] "gw-a"
    [("/egressa/session/7", .ownership ⟨"7", "gw-a", "gw-c", 1⟩)] start (by decide)
  have durable : Durable (insert ("7", ⟨"7", "gw-a", "gw-c", 1⟩) ∅) c.world.st.1 := by
    intro session r hr
    rcases hr with hr | hr
    · cases hr
      exact ⟨⟨"7", "gw-a", "gw-c", 1⟩, by rw [hfile]; decide, UInt64.le_refl _⟩
    · exact hr.elim
  have again := run.restart durable (List.Perm.refl _) [] (openAndRead "gw-b")
  exact ⟨_, _, again, Set.mem_insert _ _, rfl, one_owner_of_durable again⟩

end Egressa
