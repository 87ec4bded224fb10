import Egressa.Controller.Basic

/-!
# The path of a new session

What `pickPath` (`internal/controller/server.go`) is for: the access of a new session is a live gateway that takes
the session's backend, and its egress is the one that was asked for, or a live one.
-/

namespace Egressa

variable (gws : List Gateway) (alive : AliveMap) (egress backend : String)

def Accessible : Prop := ∃ g ∈ gws, aliveIn alive g.id = true ∧ canAccess g backend = true

def Offered : Prop := ∃ g ∈ gws, g.id = egress ∧ g.roles.has roleEgress = true

def LiveEgress : Prop := ∃ g ∈ gws, aliveIn alive g.id = true ∧ g.roles.has roleEgress = true

/-- The path works, or there is none. -/
def Works : Except String (String × String) → Prop
  | .ok (access, eg) =>
    (∃ g ∈ gws, g.id = access ∧ aliveIn alive access = true ∧ canAccess g backend = true) ∧ Offered gws eg ∧
      (egress ≠ "" → eg = egress) ∧ (egress = "" → aliveIn alive eg = true)
  | .error _ =>
    egress ≠ "" ∧ ¬ Offered gws egress ∨ egress = "" ∧ ¬ LiveEgress gws alive ∨ ¬ Accessible gws alive backend

/-- When `pickPath` finds what there is. -/
structure Pickable : Prop where
  aliveIfAccess : ∀ g, egress ≠ "" → findGateway gws egress = some g → g.roles.has roleEgress = true →
    canAccess g backend = true → aliveIn alive egress = true
  sameRoles : ∀ g, egress ≠ "" → findGateway gws egress = some g → g.roles.has roleEgress = false →
    ¬ Offered gws egress ∨ ¬ Accessible gws alive backend
  named : ∀ g, egress = "" → (gws.find? fun g => g.roles.has roleEgress && aliveIn alive g.id) = some g → g.id ≠ "" ∨
    ¬ Accessible gws alive backend

variable {gws alive egress backend} {g : Gateway}

theorem id_of_findGateway {id : String} (h : findGateway gws id = some g) : g ∈ gws ∧ g.id = id :=
  ⟨List.mem_of_find?_eq_some h, by simpa using List.find?_some h⟩

def accessFor (gws : List Gateway) (alive : AliveMap) (backend eg : String) : Except String (String × String) :=
  if canAccess (gatewayOrZero gws eg) backend then .ok (eg, eg)
  else match gws.find? fun g => g.roles.has roleAccess && aliveIn alive g.id && canAccess g backend with
    | some g => .ok (g.id, eg)
    | none =>
      if backend = backendIPsec then .error "no live access gateway accepts IPsec clients"
      else .error "no live access gateway"

variable {quote : String → String}

theorem pickPath_of_found (asked : egress ≠ "")
    (found : findGateway gws egress = some g) (role : g.roles.has roleEgress = true) :
    pickPath quote gws alive egress backend = accessFor gws alive backend egress := by
  have id : g.id = egress := (id_of_findGateway found).2
  simp only [pickPath, bne_iff_ne, ne_eq, asked, not_false_eq_true, if_true, found, role, id, if_false]
  rfl

theorem pickPath_of_first
    (found : (gws.find? fun g => g.roles.has roleEgress && aliveIn alive g.id) = some g) (named : g.id ≠ "") :
    pickPath quote gws alive "" backend = accessFor gws alive backend g.id := by
  simp only [pickPath, bne_self_eq_false, Bool.false_eq_true, if_false, found, Option.elim_some, named]
  rfl

theorem accessFor_works_iff {eg : String} (offered : Offered gws eg) (asked : egress ≠ "" → eg = egress)
    (live : egress = "" → aliveIn alive eg = true) : Works gws alive egress backend (accessFor gws alive backend eg) ↔
      (canAccess (gatewayOrZero gws eg) backend = true → aliveIn alive eg = true) := by
  unfold accessFor
  by_cases both : canAccess (gatewayOrZero gws eg) backend = true
  · rw [if_pos both]
    obtain ⟨g, hfound⟩ : ∃ g, findGateway gws eg = some g := by
      obtain ⟨g, hg, rfl, -⟩ := offered
      exact Option.isSome_iff_exists.1 (List.find?_isSome.2 ⟨g, hg, by simp⟩)
    have can : canAccess g backend = true := by simpa [gatewayOrZero, hfound] using both
    constructor
    · rintro ⟨⟨-, -, -, halive, -⟩, -⟩ -
      exact halive
    · intro halive
      exact ⟨⟨g, (id_of_findGateway hfound).1, (id_of_findGateway hfound).2, halive both, can⟩, offered, asked, live⟩
  · rw [if_neg both]
    refine iff_of_true ?_ fun can => absurd can both
    cases found : gws.find? fun g => g.roles.has roleAccess && aliveIn alive g.id && canAccess g backend with
    | some g =>
      have can := List.find?_some found
      simp only [Bool.and_eq_true] at can
      exact ⟨⟨g, List.mem_of_find?_eq_some found, rfl, can.1.2, can.2⟩, offered, asked, live⟩
    | none =>
      have inaccessible : ¬ Accessible gws alive backend := by
        rintro ⟨g, hg, halive, can⟩
        have none_ := List.find?_eq_none.1 found g hg
        have access : g.roles.has roleAccess = true := (Bool.and_eq_true_iff.1 can).1
        simp [access, halive, can] at none_
      dsimp only
      split_ifs <;> exact Or.inr (Or.inr inaccessible)

theorem requested_works_iff (asked : egress ≠ "") :
    Works gws alive egress backend (pickPath quote gws alive egress backend) ↔ Pickable gws alive egress backend := by
  cases found : findGateway gws egress with
  | none =>
    have unknown : pickPath quote gws alive egress backend = .error ("no egress gateway " ++ quote egress) := by
      simp [pickPath, asked, found]
    have unoffered : ¬ Offered gws egress := by
      rintro ⟨g, hg, rfl, -⟩
      exact absurd (List.find?_eq_none.1 found g hg) (by simp)
    rw [unknown]
    exact iff_of_true (Or.inl ⟨asked, unoffered⟩)
      ⟨by simp [found], by simp [found], fun _ empty => absurd empty asked⟩
  | some g =>
    obtain ⟨hg, hid⟩ := id_of_findGateway found
    cases role : g.roles.has roleEgress with
    | false =>
      have unfit : pickPath quote gws alive egress backend = .error ("no egress gateway " ++ quote egress) := by
        simp [pickPath, asked, found, role]
      rw [unfit]
      constructor
      · rintro (⟨-, unoffered⟩ | ⟨empty, -⟩ | inaccessible)
        · exact ⟨by simp [found, role], fun _ _ _ _ => .inl unoffered, fun _ empty => absurd empty asked⟩
        · exact absurd empty asked
        · exact ⟨by simp [found, role], fun _ _ _ _ => .inr inaccessible, fun _ empty => absurd empty asked⟩
      · intro h
        rcases h.sameRoles g asked found role with unoffered | inaccessible
        · exact .inl ⟨asked, unoffered⟩
        · exact .inr (.inr inaccessible)
    | true =>
      rw [pickPath_of_found asked found role,
        accessFor_works_iff ⟨g, hg, hid, role⟩ (fun _ => rfl) fun empty => absurd empty asked]
      have zero : gatewayOrZero gws egress = g := by simp [gatewayOrZero, found]
      rw [zero]
      constructor
      · intro halive
        refine ⟨fun g' _ found' _ can => ?_, fun g' _ found' role' => ?_, fun _ empty => absurd empty asked⟩
        · cases found.symm.trans found'
          exact halive can
        · cases found.symm.trans found'
          exact absurd role (by simp [role'])
      · exact fun h can => h.aliveIfAccess g asked found role can

theorem unrequested_works_iff :
    Works gws alive "" backend (pickPath quote gws alive "" backend) ↔ Pickable gws alive "" backend := by
  cases found : gws.find? fun g => g.roles.has roleEgress && aliveIn alive g.id with
  | none =>
    have none_ : pickPath quote gws alive "" backend = .error "no live egress gateway" := by
      simp [pickPath, found]
    have dead : ¬ LiveEgress gws alive := by
      rintro ⟨g, hg, halive, role⟩
      exact absurd (List.find?_eq_none.1 found g hg) (by simp [halive, role])
    rw [none_]
    exact iff_of_true (Or.inr (Or.inl ⟨rfl, dead⟩)) ⟨by simp, by simp, by simp [found]⟩
  | some g =>
    have hg := List.mem_of_find?_eq_some found
    have live := List.find?_some found
    obtain ⟨role, halive⟩ := Bool.and_eq_true_iff.1 live
    by_cases named : g.id = ""
    · have nameless : pickPath quote gws alive "" backend = .error "no live egress gateway" := by
        simp [pickPath, found, named]
      rw [nameless]
      constructor
      · rintro (⟨asked, -⟩ | ⟨-, dead⟩ | inaccessible)
        · exact absurd rfl asked
        · exact absurd ⟨g, hg, halive, role⟩ dead
        · exact ⟨by simp, by simp, fun _ _ _ => .inr inaccessible⟩
      · intro h
        exact .inr (.inr ((h.named g rfl found).resolve_left (not_not.2 named)))
    · rw [pickPath_of_first found named,
        accessFor_works_iff ⟨g, hg, rfl, role⟩ (fun asked => absurd rfl asked) fun _ => halive]
      refine iff_of_true (fun _ => halive) ⟨by simp, by simp, fun g' _ found' => .inl ?_⟩
      cases found.symm.trans found'
      exact named

/-- What `pickPath` answers works out, or is a true refusal, exactly for the inputs that are `Pickable`. -/
theorem pickPath_works_iff (quote : String → String) (gws : List Gateway) (alive : AliveMap) (egress backend : String) :
    Works gws alive egress backend (pickPath quote gws alive egress backend) ↔ Pickable gws alive egress backend := by
  by_cases asked : egress = ""
  · subst asked
    exact unrequested_works_iff
  · exact requested_works_iff asked

/-- The requested egress is dead, and becomes the access. -/
theorem dead_access_picked :
    pickPath id [{ id := "gw1", roles := roleAccess ||| roleEgress }, { id := "gw2", roles := roleAccess }]
      (AList.insert "gw2" true ∅) "gw1" "wireguard" = .ok ("gw1", "gw1") ∧
    ¬ Works [{ id := "gw1", roles := roleAccess ||| roleEgress }, { id := "gw2", roles := roleAccess }]
      (AList.insert "gw2" true ∅) "gw1" "wireguard" (.ok ("gw1", "gw1")) := by
  refine ⟨by decide, fun works => ?_⟩
  obtain ⟨⟨g, -, -, halive, -⟩, -⟩ := works
  exact absurd halive (by decide)

end Egressa
