import TorqueScript.Proofs.Functions.History

/-!
Deactivating a package undoes its activation, whatever happened in between. Two runs of
the same operations are compared, one with the package and one without it: throughout,
the second is what is left of the first when the package's entries are erased.
-/

namespace TorqueScript.Functions

open Entry

variable {β : Type}

/-- `b` is `a` without the active package `package`. -/
structure Without (package : String) (a b : Functions β) : Prop where
  wellFormed : a.WellFormed
  wellFormed' : b.WellFormed
  caseSensitive : a.caseSensitive = b.caseSensitive
  packages : a.packages = b.packages
  mem_active : package ∈ a.active
  active : a.active.erase package = b.active
  stack : ∀ k, dropPackage package (a.stack k) = b.stack k

theorem outcome_activate (r : Functions β) (name : String) :
    r.outcome (.activate name) =
      if r.fold name ∈ r.active ∨ r.packages.contains (r.fold name) = true then .ok ()
      else .error (.unknownPackage name) := by
  by_cases ha : r.fold name ∈ r.active
  · simp [outcome, apply, activate_active ha, ha, Except.map]
  cases hknown : r.packages.get? (r.fold name) with
  | none =>
    simp [outcome, apply, activate_unknown ha hknown, ha, Table.contains, hknown, Except.map]
  | some known =>
    obtain ⟨r', hok, -⟩ := activate_known ha hknown
    simp [outcome, apply, hok, Table.contains, hknown, Except.map]

namespace Without

variable {package : String} {a b : Functions β}

theorem fold_eq (h : Without package a b) (name : String) : a.fold name = b.fold name := by
  rw [fold, fold, h.caseSensitive]

/-- Every other package is active in both or in neither. -/
theorem mem_active_iff (h : Without package a b) {other : String} (hne : other ≠ package) :
    other ∈ a.active ↔ other ∈ b.active := by
  rw [← h.active, List.mem_erase_of_ne hne]

theorem not_mem_active (h : Without package a b) : package ∉ b.active := by
  rw [← h.active, h.wellFormed.activeNodup.mem_erase_iff]
  exact fun hmem => hmem.1 rfl

theorem define (h : Without package a b) (k : FunctionKey) (body : β) :
    Without package (a.define k body) (b.define k body) := by
  refine ⟨h.wellFormed.define k body, h.wellFormed'.define k body, h.caseSensitive, h.packages,
    h.mem_active, h.active, fun other => ?_⟩
  rw [stack_define, stack_define]
  split
  · rw [dropPackage_setBase (h.wellFormed.baseFirst other), h.stack]
  · exact h.stack other

theorem declare (h : Without package a b) (name : String) (ds : List (FunctionKey × β)) :
    Without package (a.declare name ds) (b.declare name ds) := by
  refine ⟨h.wellFormed.declare name ds, h.wellFormed'.declare name ds, ?_,
    packages_declare_congr h.caseSensitive h.packages name ds, ?_, ?_, fun k => ?_⟩
  · rw [caseSensitive_declare, caseSensitive_declare, h.caseSensitive]
  · rw [active_declare]
    exact h.mem_active
  · rw [active_declare, active_declare]
    exact h.active
  rw [stack_declare, stack_declare, h.fold_eq]
  by_cases hp : b.fold name = package
  · -- Its own declarations show on the stacks of the first run only.
    subst hp
    rw [if_pos h.mem_active, if_neg h.not_mem_active, dropPackage_place_self, h.stack]
  · by_cases ha : b.fold name ∈ b.active
    · rw [if_pos ((h.mem_active_iff hp).mpr ha), if_pos ha, dropPackage_place_of_ne hp, h.stack]
    · rw [if_neg fun ha' => ha ((h.mem_active_iff hp).mp ha'), if_neg ha, h.stack]

theorem activate (h : Without package a b) {name : String} (hne : b.fold name ≠ package) :
    Without package (a.step (.activate name)) (b.step (.activate name)) := by
  have hactive := h.mem_active_iff hne
  have hwa := h.wellFormed.step (.activate name)
  have hwb := h.wellFormed'.step (.activate name)
  obtain ⟨hsame, hwhy⟩ | ⟨known, a', ha', -, hnew, hknown, hstack, hact, hpack, hcase⟩ :=
    step_activate_cases a name
  · obtain ⟨hsame', -⟩ | ⟨known, b', -, -, hnew', hknown', -⟩ := step_activate_cases b name
    · rw [hsame, hsame']
      exact h
    · rw [h.fold_eq, h.packages] at hwhy
      rcases hwhy with ha | hunknown
      · exact absurd (hactive.mp ha) hnew'
      · simp [Table.contains, hknown'] at hunknown
  · rw [h.fold_eq] at hnew hknown hstack hact
    rw [h.packages] at hknown
    obtain ⟨-, hwhy'⟩ | ⟨known', b', hb', -, -, hknown', hstack', hact', hpack', hcase'⟩ :=
      step_activate_cases b name
    · rcases hwhy' with hb | hunknown
      · exact absurd (hactive.mpr hb) hnew
      · simp [Table.contains, hknown] at hunknown
    · obtain rfl : known = known' := Option.some.inj (hknown.symm.trans hknown')
      rw [ha'] at hwa ⊢
      rw [hb'] at hwb ⊢
      refine ⟨hwa, hwb, ?_, ?_, ?_, ?_, fun k => ?_⟩
      · rw [hcase, hcase', h.caseSensitive]
      · rw [hpack, hpack', h.packages]
      · rw [hact]
        exact List.mem_append_left _ h.mem_active
      · rw [hact, hact', List.erase_append_left _ h.mem_active, h.active]
      · rw [hstack, hstack', dropPackage_place_of_ne hne, h.stack]

theorem deactivate (h : Without package a b) {name : String} (hne : b.fold name ≠ package) :
    Without package (a.deactivate name) (b.deactivate name) := by
  refine ⟨h.wellFormed.deactivate name, h.wellFormed'.deactivate name, ?_, ?_, ?_, ?_,
    fun k => ?_⟩
  · rw [caseSensitive_deactivate, caseSensitive_deactivate, h.caseSensitive]
  · rw [packages_deactivate, packages_deactivate, h.packages]
  · rw [active_deactivate, h.fold_eq, List.mem_erase_of_ne hne.symm]
    exact h.mem_active
  · rw [active_deactivate, active_deactivate, h.fold_eq, List.erase_comm, h.active]
  · rw [h.wellFormed.stack_deactivate, h.wellFormed'.stack_deactivate, h.fold_eq,
      dropPackage_comm, h.stack]

/-- An operation that neither activates nor deactivates the package goes the same way in both
runs and ends in the same way. -/
theorem step (h : Without package a b) (op : Operation β)
    (hact : ¬ op.Activates b.caseSensitive package)
    (hdeact : ¬ op.Deactivates b.caseSensitive package) :
    Without package (a.step op) (b.step op) ∧ a.outcome op = b.outcome op := by
  cases op with
  | define k body => exact ⟨h.define k body, rfl⟩
  | declare name ds => exact ⟨h.declare name ds, rfl⟩
  | activate name =>
    have hne : b.fold name ≠ package := hact
    refine ⟨h.activate hne, ?_⟩
    simp only [outcome_activate, h.fold_eq, h.packages, h.mem_active_iff hne]
  | deactivate name => exact ⟨h.deactivate hdeact, rfl⟩

theorem run (h : Without package a b) (ops : List (Operation β))
    (hops : ∀ op ∈ ops, ¬ op.Activates b.caseSensitive package ∧
      ¬ op.Deactivates b.caseSensitive package) :
    Without package (a.run ops) (b.run ops) ∧ a.outcomes ops = b.outcomes ops := by
  induction ops generalizing a b with
  | nil => exact ⟨h, rfl⟩
  | cons op rest ih =>
    obtain ⟨hact, hdeact⟩ := hops op (List.mem_cons_self ..)
    obtain ⟨hstep, hout⟩ := h.step op hact hdeact
    obtain ⟨hrun, houts⟩ := ih hstep fun op' hop' => by
      rw [caseSensitive_step]
      exact hops op' (List.mem_cons_of_mem _ hop')
    refine ⟨hrun, ?_⟩
    rw [outcomes, outcomes, hout, houts]

/-- What is left when the package is deactivated is the other run. -/
theorem deactivate_self (h : Without package a b) {name : String} (hname : a.fold name = package) :
    (∀ k, (a.deactivate name).definitions.get? k = b.definitions.get? k) ∧
    (a.deactivate name).packages = b.packages ∧ (a.deactivate name).active = b.active := by
  refine ⟨fun k => ?_, ?_, ?_⟩
  · rw [get?_definitions (h.wellFormed.deactivate name).noEmptyStack,
      get?_definitions h.wellFormed'.noEmptyStack, h.wellFormed.stack_deactivate, hname, h.stack]
  · rw [packages_deactivate, h.packages]
  · rw [active_deactivate, hname, h.active]

end Without

/-- A package that has just become active can be erased again. -/
theorem WellFormed.without_of_activate {r : Functions β} (h : r.WellFormed) {name : String}
    (hinactive : r.fold name ∉ r.active) {known : Table FunctionKey β}
    (hknown : r.packages.get? (r.fold name) = some known) :
    ∃ raised, r.activate name = .ok raised ∧ Without (r.fold name) raised r := by
  obtain ⟨raised, hok, hstack, hactive, hpackages, hcase, -⟩ := activate_known hinactive hknown
  refine ⟨raised, hok, h.activate hok, h, hcase, hpackages, ?_, ?_, fun k => ?_⟩
  · simp [hactive]
  · rw [hactive, List.erase_append_right _ hinactive]
    simp
  · rw [hstack, dropPackage_place_self, dropPackage_eq_self (h.ownedBy_inactive hinactive k)]

/-- From any registry in which a package is declared and inactive: activating it, performing any
operations that neither activate nor deactivate it, and deactivating it leaves the stacks, the
packages and the active list as the operations alone leave them. Each operation in between
succeeds or fails as it does without the package. -/
theorem deactivate_undoes_activate (caseSensitive : Bool) (history ops : List (Operation β))
    (name : String)
    (hdeclared : ((empty caseSensitive).run history).isPackage name = true)
    (hinactive : ((empty caseSensitive).run history).isActive name = false)
    (hops : ∀ op ∈ ops, ¬ op.Activates caseSensitive (foldName caseSensitive name) ∧
      ¬ op.Deactivates caseSensitive (foldName caseSensitive name)) :
    let r := (empty caseSensitive).run history
    ∃ raised, r.activate name = .ok raised ∧
      (∀ k, ((raised.run ops).deactivate name).definitions.get? k =
        (r.run ops).definitions.get? k) ∧
      ((raised.run ops).deactivate name).packages = (r.run ops).packages ∧
      ((raised.run ops).deactivate name).active = (r.run ops).active ∧
      raised.outcomes ops = r.outcomes ops := by
  intro r
  have hr : r.WellFormed := (wellFormed_empty caseSensitive).run history
  have hcase : r.caseSensitive = caseSensitive := caseSensitive_run _ history
  have hinactive' : r.fold name ∉ r.active := by simpa [isActive] using hinactive
  obtain ⟨known, hknown⟩ := (Table.contains_iff r.packages (r.fold name)).mp hdeclared
  obtain ⟨raised, hok, hwithout⟩ := hr.without_of_activate hinactive' hknown
  have hfold : r.fold name = foldName caseSensitive name := by rw [fold, hcase]
  obtain ⟨hrun, houts⟩ := hwithout.run ops (by rwa [hfold, hcase])
  have hname : (raised.run ops).fold name = r.fold name := by
    rw [fold, caseSensitive_run, hwithout.caseSensitive, fold]
  obtain ⟨hstacks, hpackages, hactive⟩ := hrun.deactivate_self hname
  exact ⟨raised, hok, hstacks, hpackages, hactive, houts⟩

/-- The package `hud` overrides a function that `menu` overrides too, while the base is defined,
`hud` declares another function and `menu` comes and goes. -/
theorem deactivate_undoes_activate_hud :
    let draw : FunctionKey := ⟨none, "draw"⟩
    let hide : FunctionKey := ⟨none, "hide"⟩
    let history : List (Operation Nat) :=
      [.declare "Hud" [(draw, 1)], .declare "Menu" [(draw, 2), (hide, 3)]]
    let ops : List (Operation Nat) :=
      [.activate "MENU", .define draw 4, .declare "HUD" [(hide, 5)], .activate "Map",
        .deactivate "menu", .define hide 6]
    let r := (empty false).run history
    r.isPackage "hud" = true ∧ r.isActive "hud" = false ∧
    ∃ raised, r.activate "hud" = .ok raised ∧
      (∀ k, ((raised.run ops).deactivate "hud").definitions.get? k =
        (r.run ops).definitions.get? k) ∧
      ((raised.run ops).deactivate "hud").packages = (r.run ops).packages ∧
      ((raised.run ops).deactivate "hud").active = (r.run ops).active ∧
      raised.outcomes ops = r.outcomes ops := by
  intro draw hide history ops r
  have hdeclared : r.isPackage "hud" = true := by decide
  have hinactive : r.isActive "hud" = false := by decide
  have hops : ∀ op ∈ ops, ¬ op.Activates false (foldName false "hud") ∧
      ¬ op.Deactivates false (foldName false "hud") := by decide
  exact ⟨hdeclared, hinactive,
    deactivate_undoes_activate false history ops "hud" hdeclared hinactive hops⟩

end TorqueScript.Functions
