import TorqueScript.Proofs.Functions.History

/-!
The order of the packages on a stack. From bottom to top they lie in the order in which
they began to override the key. That is the order of their activation unless a package
that was already active is given the key only after one activated later: its entry then
goes on top.
-/

namespace TorqueScript.Functions

open Entry

variable {β : Type}

private theorem pair_or_swap {l : List String} {p q : String} (hp : p ∈ l) (hq : q ∈ l)
    (hne : p ≠ q) : [p, q].Sublist l ∨ [q, p].Sublist l := by
  obtain ⟨s, t, rfl⟩ := List.append_of_mem hp
  rcases List.mem_append.mp hq with hs | ht
  · exact Or.inr ((List.singleton_sublist.mpr hs).append
      (List.singleton_sublist.mpr (List.mem_cons_self ..)))
  · rcases List.mem_cons.mp ht with rfl | ht
    · exact absurd rfl hne
    · exact Or.inl (((List.singleton_sublist.mpr ht).cons_cons p).trans
        (List.sublist_append_right ..))

private theorem not_pair_and_swap {l : List String} (hl : l.Nodup) {p q : String}
    (hpq : [p, q].Sublist l) : ¬ [q, p].Sublist l := by
  intro hqp
  induction l with
  | nil => simp at hpq
  | cons a rest ih =>
    obtain ⟨hnew, hrest⟩ := List.nodup_cons.mp hl
    cases hpq with
    | cons _ hpq =>
      cases hqp with
      | cons _ hqp => exact ih hrest hpq hqp
      | cons_cons _ hp => exact hnew (hpq.subset (by simp))
    | cons_cons _ hq =>
      cases hqp with
      | cons _ hqp => exact hnew (hqp.subset (by simp))
      | cons_cons _ hp => exact hnew (List.singleton_sublist.mp hp)

private theorem pair_sublist_concat {l : List String} {x p q : String}
    (h : [p, q].Sublist (l ++ [x])) : [p, q].Sublist l ∨ q = x := by
  obtain ⟨l₁, l₂, hsplit, hl₁, hl₂⟩ := List.sublist_append_iff.mp h
  cases l₂ with
  | nil =>
    rw [List.append_nil] at hsplit
    exact Or.inl (hsplit ▸ hl₁)
  | cons y rest =>
    have hlast : (l₁ ++ y :: rest).getLast? = some q := by rw [← hsplit]; rfl
    have hy : y :: rest = [x] := List.Sublist.eq_of_length_le hl₂ (by simp)
    rw [hy] at hlast
    exact Or.inr (by simpa [eq_comm] using hlast)

private theorem pair_sublist_of_getLast? {l : List String} {p q : String} (hp : p ∈ l)
    (hq : l.getLast? = some q) (hne : p ≠ q) : [p, q].Sublist l := by
  obtain ⟨init, rfl⟩ := List.getLast?_eq_some_iff.mp hq
  have hinit : p ∈ init := by
    rcases List.mem_append.mp hp with hinit | hlast
    · exact hinit
    · exact absurd (List.mem_singleton.mp hlast) hne
  exact (List.singleton_sublist.mpr hinit).append (List.Sublist.refl [q])

/-- What becomes active comes last, and the others keep their order. -/
theorem active_step_sublist (r : Functions β) (op : Operation β) :
    ∃ new : Option String, (r.step op).active.Sublist (r.active ++ new.toList) ∧
      ∀ p ∈ new, p ∉ r.active := by
  cases op with
  | define k body => exact ⟨none, by simp [define], by simp⟩
  | declare name ds => exact ⟨none, by simp, by simp⟩
  | activate name =>
    obtain ⟨hsame, -⟩ | ⟨known, r', hr', -, hnew, -, -, hactive, -, -⟩ :=
      step_activate_cases r name
    · exact ⟨none, by simp [hsame], by simp⟩
    · exact ⟨some (r.fold name), by simp [hr', hactive], by simpa using hnew⟩
  | deactivate name =>
    refine ⟨none, ?_, by simp⟩
    rw [step_deactivate, active_deactivate]
    simpa using List.erase_sublist

theorem owners_place (package : String) (body : Option β) (stack : List (Entry β)) :
    ∃ new : Option String, owners (place package body stack) = owners stack ++ new.toList ∧
      ∀ p ∈ new, p ∉ owners stack := by
  cases body with
  | none => exact ⟨none, by simp [place], by simp⟩
  | some b =>
    by_cases hmem : package ∈ owners stack
    · exact ⟨none, by simp [place, owners_setPackage, hmem], by simp⟩
    · exact ⟨some package, by simp [place, owners_setPackage, hmem], by simpa using hmem⟩

/-- What comes to a stack goes on top, and the others keep their order. -/
theorem WellFormed.owners_step {r : Functions β} (h : r.WellFormed) (op : Operation β)
    (k : FunctionKey) :
    ∃ new : Option String,
      (owners ((r.step op).stack k)).Sublist (owners (r.stack k) ++ new.toList) ∧
      ∀ p ∈ new, p ∉ owners (r.stack k) := by
  cases op with
  | define k' body =>
    refine ⟨none, ?_, by simp⟩
    rw [step_define, stack_define]
    split <;> simp [owners_setBase]
  | declare name ds =>
    rw [step_declare, stack_declare]
    split
    · obtain ⟨new, hnew, hfresh⟩ := owners_place (r.fold name) (bodiesAt k ds).getLast? (r.stack k)
      exact ⟨new, by rw [hnew], hfresh⟩
    · exact ⟨none, by simp, by simp⟩
  | activate name =>
    obtain ⟨hsame, -⟩ | ⟨known, r', hr', -, -, -, hstack, -⟩ := step_activate_cases r name
    · exact ⟨none, by simp [hsame], by simp⟩
    · obtain ⟨new, hnew, hfresh⟩ :=
        owners_place (r.fold name) (bodiesAt k known.entries).getLast? (r.stack k)
      exact ⟨new, by rw [hr', hstack, hnew], hfresh⟩
  | deactivate name =>
    refine ⟨none, ?_, by simp⟩
    rw [step_deactivate, h.stack_deactivate, owners_dropPackage]
    simp

/-- A package goes on overriding a key until it is deactivated. -/
theorem WellFormed.override?_step {r : Functions β} (h : r.WellFormed) {op : Operation β}
    {p : String} {k : FunctionKey} (hp : (r.override? p k).isSome)
    (hop : ¬ op.Deactivates r.caseSensitive p) : ((r.step op).override? p k).isSome := by
  have hactive := mem_active_of_override? hp
  have hactive' : p ∈ (r.step op).active :=
    (h.mem_active_step op p).mpr (Or.inl ⟨hactive, hop⟩)
  rw [override?, if_pos hactive] at hp
  rw [override?, if_pos hactive', declared?_step, Option.isSome_or, hp, Bool.or_true]

theorem WellFormed.override?_run {r : Functions β} (h : r.WellFormed) {ops : List (Operation β)}
    {p : String} {k : FunctionKey} (hp : (r.override? p k).isSome)
    (hops : ∀ op ∈ ops, ¬ op.Deactivates r.caseSensitive p) :
    ((r.run ops).override? p k).isSome := by
  induction ops generalizing r with
  | nil => exact hp
  | cons op rest ih =>
    refine ih (h.step op) (h.override?_step hp (hops op (List.mem_cons_self ..))) ?_
    intro op' hop'
    rw [caseSensitive_step]
    exact hops op' (List.mem_cons_of_mem _ hop')

/-- Two active packages keep their order until one of them is deactivated. -/
theorem pair_active_step {r : Functions β} {op : Operation β} {p q : String}
    (hpq : [p, q].Sublist r.active) (hp : ¬ op.Deactivates r.caseSensitive p)
    (hq : ¬ op.Deactivates r.caseSensitive q) : [p, q].Sublist (r.step op).active := by
  cases op with
  | define k body => exact hpq
  | declare name ds => simpa using hpq
  | activate name =>
    obtain ⟨hsame, -⟩ | ⟨known, r', hr', -, -, -, -, hactive, -, -⟩ := step_activate_cases r name
    · rwa [hsame]
    · rw [hr', hactive]
      exact hpq.trans (List.sublist_append_left ..)
  | deactivate name =>
    have hkeep : [p, q].erase (r.fold name) = [p, q] := by
      apply List.erase_of_not_mem
      simp only [List.mem_cons, List.not_mem_nil, or_false, not_or]
      exact ⟨hp, hq⟩
    rw [step_deactivate, active_deactivate, ← hkeep]
    exact hpq.erase _

theorem pair_active_run {r : Functions β} {ops : List (Operation β)} {p q : String}
    (hpq : [p, q].Sublist r.active)
    (hops : ∀ op ∈ ops, ¬ op.Deactivates r.caseSensitive p ∧ ¬ op.Deactivates r.caseSensitive q) :
    [p, q].Sublist (r.run ops).active := by
  induction ops generalizing r with
  | nil => exact hpq
  | cons op rest ih =>
    obtain ⟨hp, hq⟩ := hops op (List.mem_cons_self ..)
    refine ih (pair_active_step hpq hp hq) ?_
    intro op' hop'
    rw [caseSensitive_step]
    exact hops op' (List.mem_cons_of_mem _ hop')

/-- `p` has overridden the key ever since a moment at which `q` did not. -/
def Earlier (caseSensitive : Bool) (k : FunctionKey) (ops : List (Operation β))
    (p q : String) : Prop :=
  ∃ before after, ops = before ++ after ∧
    ((empty caseSensitive).run before).override? q k = none ∧
    ∀ part, part <+: after → (((empty caseSensitive).run (before ++ part)).override? p k).isSome

/-- `p` was active and got the key for the first time when `q`, activated after `p`, already
overrode it. Neither has been deactivated since. -/
def Overtakes (caseSensitive : Bool) (k : FunctionKey) (ops : List (Operation β))
    (p q : String) : Prop :=
  ∃ before op after, ops = before ++ op :: after ∧
    [p, q].Sublist ((empty caseSensitive).run before).active ∧
    (((empty caseSensitive).run before).override? q k).isSome ∧
    ((empty caseSensitive).run before).declared? p k = none ∧
    op.bodies caseSensitive p k ≠ [] ∧
    ∀ op' ∈ after, ¬ op'.Deactivates caseSensitive p ∧ ¬ op'.Deactivates caseSensitive q

variable {caseSensitive : Bool} {k : FunctionKey} {ops : List (Operation β)} {p q : String}

theorem Earlier.overrides (h : Earlier caseSensitive k ops p q) :
    (((empty caseSensitive).run ops).override? p k).isSome := by
  obtain ⟨before, after, rfl, -, hp⟩ := h
  exact hp after List.prefix_rfl

theorem Earlier.asymm (hpq : Earlier caseSensitive k ops p q) :
    ¬ Earlier caseSensitive k ops q p := by
  intro hx
  obtain ⟨before', after', hops, hp', hq'⟩ := hx
  obtain ⟨before, after, rfl, hq, hp⟩ := hpq
  -- One of the two moments comes first; what was true from then on still is at the other.
  rcases List.append_eq_append_iff.mp hops with ⟨mid, rfl, rfl⟩ | ⟨mid, rfl, rfl⟩
  · have hsome := hp mid (List.prefix_append ..)
    simp [hp'] at hsome
  · have hsome := hq' mid (List.prefix_append ..)
    simp [hq] at hsome

/-- Being earlier lasts as long as the override does. -/
theorem Earlier.concat (h : Earlier caseSensitive k ops p q) {op : Operation β}
    (hp : (((empty caseSensitive).run (ops ++ [op])).override? p k).isSome) :
    Earlier caseSensitive k (ops ++ [op]) p q := by
  obtain ⟨before, after, rfl, hq, hsince⟩ := h
  refine ⟨before, after ++ [op], by simp, hq, ?_⟩
  intro part hpart
  rcases List.prefix_concat_iff.mp hpart with rfl | hpart
  · rwa [← List.append_assoc]
  · exact hsince part hpart

/-- While `p` overrides the key at the end, the moment lies before the last operation. -/
theorem Earlier.of_concat {op : Operation β} (h : Earlier caseSensitive k (ops ++ [op]) q p)
    (hp : (((empty caseSensitive).run (ops ++ [op])).override? p k).isSome) :
    Earlier caseSensitive k ops q p := by
  obtain ⟨before, after, hops, hnone, hsince⟩ := h
  rcases List.eq_nil_or_concat' after with rfl | ⟨after, last, rfl⟩
  · rw [hops, List.append_nil, hnone] at hp
    simp at hp
  · rw [← List.append_assoc] at hops
    obtain ⟨rfl, -⟩ := List.append_inj' hops rfl
    refine ⟨before, after, rfl, hnone, ?_⟩
    intro part hpart
    exact hsince part (hpart.trans (List.prefix_append ..))

/-- From bottom to top, the packages of a stack lie in the order in which they began to override
the key. -/
theorem owners_pairwise_earlier (caseSensitive : Bool) (ops : List (Operation β))
    (k : FunctionKey) :
    (owners (((empty caseSensitive).run ops).stack k)).Pairwise (Earlier caseSensitive k ops) := by
  induction ops using List.reverseRecOn with
  | nil => exact List.Pairwise.nil
  | append_singleton ops op ih =>
    have hr := (wellFormed_empty (β := β) caseSensitive).run ops
    have hr' := (wellFormed_empty (β := β) caseSensitive).run (ops ++ [op])
    obtain ⟨new, hsub, hnew⟩ := hr.owners_step op k
    -- Among those already there the order is the old one; the new one did not override before.
    have hall : (owners (((empty caseSensitive).run ops).stack k) ++ new.toList).Pairwise
        fun p q => Earlier caseSensitive k ops p q ∨
          ((((empty caseSensitive).run ops).override? p k).isSome ∧
            ((empty caseSensitive).run ops).override? q k = none) := by
      refine List.pairwise_append.mpr ⟨ih.imp Or.inl, by cases new <;> simp, ?_⟩
      intro p hp q hq
      have hq' : ¬ (((empty caseSensitive).run ops).override? q k).isSome = true := by
        rw [← hr.mem_owners_iff]
        exact hnew q (by simpa using hq)
      exact Or.inr ⟨(hr.mem_owners_iff p k).mp hp, by simpa using hq'⟩
    rw [← run_concat] at hsub
    refine (hall.sublist hsub).imp_of_mem ?_
    intro p q hp _ hpq
    have hp' := (hr'.mem_owners_iff p k).mp hp
    rcases hpq with hold | ⟨hp₀, hq₀⟩
    · exact hold.concat hp'
    · refine ⟨ops, [op], rfl, hq₀, ?_⟩
      intro part hpart
      rcases List.prefix_concat_iff.mp (show part <+: [] ++ [op] from hpart) with rfl | hnil
      · exact hp'
      · rw [List.prefix_nil.mp hnil, List.append_nil]
        exact hp₀

theorem Overtakes.concat (h : Overtakes caseSensitive k ops p q) {op : Operation β}
    (hp : ¬ op.Deactivates caseSensitive p) (hq : ¬ op.Deactivates caseSensitive q) :
    Overtakes caseSensitive k (ops ++ [op]) p q := by
  obtain ⟨before, first, after, rfl, hpq, hover, hnone, hbodies, hafter⟩ := h
  refine ⟨before, first, after ++ [op], by simp, hpq, hover, hnone, hbodies, ?_⟩
  intro op' hop'
  rcases List.mem_append.mp hop' with hold | hnew
  · exact hafter op' hold
  · rw [List.mem_singleton.mp hnew]
    exact ⟨hp, hq⟩

/-- A package that overtakes another was activated before it and has overridden the key for a
shorter time. -/
theorem Overtakes.inversion (h : Overtakes caseSensitive k ops p q) :
    [p, q].Sublist ((empty caseSensitive).run ops).active ∧
      (((empty caseSensitive).run ops).override? p k).isSome ∧
      Earlier caseSensitive k ops q p := by
  obtain ⟨before, op, after, rfl, hpq, hover, hnone, hbodies, hafter⟩ := h
  have hr := (wellFormed_empty (β := β) caseSensitive).run before
  have hcase : ((empty caseSensitive : Functions β).run before).caseSensitive = caseSensitive :=
    caseSensitive_run _ before
  have hop : ∀ x, ¬ op.Deactivates caseSensitive x := by
    intro x hx
    cases op with
    | deactivate name => exact hbodies rfl
    | define | declare | activate => exact hx
  have hkeep : ∀ op' ∈ op :: after,
      ¬ op'.Deactivates caseSensitive p ∧ ¬ op'.Deactivates caseSensitive q := by
    intro op' hop'
    rcases List.mem_cons.mp hop' with rfl | hop'
    · exact ⟨hop p, hop q⟩
    · exact hafter op' hop'
  have hpactive : p ∈ ((empty caseSensitive : Functions β).run before).active :=
    hpq.subset (by simp)
  refine ⟨?_, ?_, before, op :: after, rfl, ?_, ?_⟩
  · rw [run_append]
    exact pair_active_run hpq (by rwa [hcase])
  · have hfirst : ((((empty caseSensitive).run before).step op).override? p k).isSome := by
      have hactive := (hr.mem_active_step op p).mpr (Or.inl ⟨hpactive, by rw [hcase]; exact hop p⟩)
      rw [override?, if_pos hactive, declared?_step, hcase, Option.isSome_or,
        List.getLast?_isSome.mpr hbodies, Bool.true_or]
    rw [run_append]
    refine (hr.step op).override?_run hfirst ?_
    intro op' hop'
    rw [caseSensitive_step, hcase]
    exact (hafter op' hop').1
  · rw [override?, if_pos hpactive, hnone]
  · intro part hpart
    rw [run_append]
    refine hr.override?_run hover ?_
    intro op' hop'
    rw [hcase]
    exact (hkeep op' (hpart.subset hop')).2

/-- Conversely, a package activated before another and on the stack for a shorter time has got the
key by a declaration made while both were active. -/
theorem overtakes_of_inversion
    (hpq : [p, q].Sublist ((empty caseSensitive).run ops).active)
    (hp : (((empty caseSensitive).run ops).override? p k).isSome)
    (hqp : Earlier caseSensitive k ops q p) : Overtakes caseSensitive k ops p q := by
  induction ops using List.reverseRecOn with
  | nil => simp [run, empty] at hpq
  | append_singleton ops op ih =>
    have hr := (wellFormed_empty (β := β) caseSensitive).run ops
    have hcase : ((empty caseSensitive : Functions β).run ops).caseSensitive = caseSensitive :=
      caseSensitive_run _ ops
    have hqp₀ := hqp.of_concat hp
    have hqactive := mem_active_of_override? hqp₀.overrides
    -- `q` was active before the last operation, so `p` was too and came first.
    have hpq₀ : [p, q].Sublist ((empty caseSensitive).run ops).active := by
      obtain ⟨new, hsub, hnew⟩ := active_step_sublist ((empty caseSensitive).run ops) op
      rw [← run_concat] at hsub
      cases new with
      | none => exact hpq.trans (by simpa using hsub)
      | some x =>
        rcases pair_sublist_concat (hpq.trans hsub) with hold | rfl
        · exact hold
        · exact absurd hqactive (hnew q rfl)
    have hpactive : p ∈ ((empty caseSensitive).run ops).active := hpq₀.subset (by simp)
    have hkept : ∀ x ∈ [p, q], ¬ op.Deactivates caseSensitive x := by
      intro x hx hdeact
      have hmem := hpq.subset hx
      rw [run_concat, hr.mem_active_step, hcase] at hmem
      rcases hmem with ⟨-, hnot⟩ | ⟨hact, -⟩
      · exact hnot hdeact
      · cases op with
        | activate name => exact hdeact
        | define | declare | deactivate => exact hact
    by_cases hp₀ : (((empty caseSensitive).run ops).override? p k).isSome
    · exact (ih hpq₀ hp₀ hqp₀).concat (hkept p (by simp)) (hkept q (by simp))
    · -- The last operation is the one that gives `p` the key.
      have hnone : ((empty caseSensitive).run ops).declared? p k = none := by
        simpa [override?, hpactive] using hp₀
      refine ⟨ops, op, [], rfl, hpq₀, hqp₀.overrides, hnone, ?_, by simp⟩
      intro hbodies
      have hactive := mem_active_of_override? hp
      rw [run_concat] at hp hactive
      rw [override?, if_pos hactive, declared?_step, hcase, hbodies, hnone] at hp
      simp at hp

theorem WellFormed.resolve_of_owners {r : Functions β} (h : r.WellFormed)
    (htop : (owners (r.stack k)).getLast? = some p) :
    ∃ body, r.declared? p k = some body ∧ r.resolve k = some ⟨body, ⟨k, some p⟩⟩ := by
  obtain ⟨body, hlast⟩ := (h.baseFirst k).getLast?_of_owners htop
  have hmem : (⟨some p, body⟩ : Entry β) ∈ ownedBy (some p) (r.stack k) :=
    mem_ownedBy.mpr ⟨List.mem_of_getLast? hlast, rfl⟩
  rw [h.overrides, override?] at hmem
  have hbody : r.declared? p k = some body := by
    split at hmem
    · simpa using hmem
    · simp at hmem
  exact ⟨body, hbody, by simp [resolve, hlast]⟩

theorem mem_owners_run (caseSensitive : Bool) (ops : List (Operation β)) (k : FunctionKey)
    (p : String) :
    p ∈ owners (((empty caseSensitive).run ops).stack k) ↔
      p ∈ ((empty caseSensitive).run ops).active.filter fun p =>
        (((empty caseSensitive).run ops).declared? p k).isSome := by
  rw [((wellFormed_empty caseSensitive).run ops).mem_owners_iff, List.mem_filter, override?]
  split
  · simp [*]
  · simp [*]

theorem earlier_of_owners
    (hpq : [p, q].Sublist (owners (((empty caseSensitive).run ops).stack k))) :
    Earlier caseSensitive k ops p q :=
  List.pairwise_iff_forall_sublist.mp (owners_pairwise_earlier caseSensitive ops k) hpq

theorem owners_run_nodup (caseSensitive : Bool) (ops : List (Operation β)) (k : FunctionKey) :
    (owners (((empty caseSensitive).run ops).stack k)).Nodup := by
  refine (owners_pairwise_earlier caseSensitive ops k).imp ?_
  intro p q hpq heq
  subst heq
  exact hpq.asymm hpq

/-- Where no package overtakes another, the packages of a stack are the active ones that declare
the key, in the order of their activation. -/
theorem owners_eq_filter (h : ∀ p q, ¬ Overtakes caseSensitive k ops p q) :
    owners (((empty caseSensitive).run ops).stack k) =
      ((empty caseSensitive).run ops).active.filter fun p =>
        (((empty caseSensitive).run ops).declared? p k).isSome := by
  have hr := (wellFormed_empty (β := β) caseSensitive).run ops
  have hperm := (List.perm_ext_iff_of_nodup (owners_run_nodup caseSensitive ops k)
    (hr.activeNodup.filter _)).mpr (mem_owners_run caseSensitive ops k)
  refine hperm.eq_of_pairwise ?_ (owners_pairwise_earlier caseSensitive ops k) ?_
  · intro p q _ _ hpq hqp
    exact absurd hqp hpq.asymm
  · rw [List.pairwise_iff_forall_sublist]
    intro p q hpq
    have hactive : [p, q].Sublist ((empty caseSensitive).run ops).active :=
      hpq.trans List.filter_sublist
    have hp := (mem_owners_run caseSensitive ops k p).mpr (hpq.subset (by simp))
    have hq := (mem_owners_run caseSensitive ops k q).mpr (hpq.subset (by simp))
    have hne : p ≠ q := by simpa using hr.activeNodup.sublist hactive
    rcases pair_or_swap hp hq hne with hpq | hqp
    · exact earlier_of_owners hpq
    · exact absurd (overtakes_of_inversion hactive ((hr.mem_owners_iff p k).mp hp)
        (earlier_of_owners hqp)) (h p q)

theorem Overtakes.swapped (h : Overtakes caseSensitive k ops p q) :
    [q, p].Sublist (owners (((empty caseSensitive).run ops).stack k)) := by
  have hr := (wellFormed_empty (β := β) caseSensitive).run ops
  obtain ⟨hpq, hp, hqp⟩ := h.inversion
  have hne : p ≠ q := by simpa using hr.activeNodup.sublist hpq
  have hp' := (hr.mem_owners_iff p k).mpr hp
  have hq' := (hr.mem_owners_iff q k).mpr hqp.overrides
  rcases pair_or_swap hp' hq' hne with hbelow | habove
  · exact absurd hqp (earlier_of_owners hbelow).asymm
  · exact habove

/-- The packages of a stack lie in the order of their activation exactly when none of them has
overtaken another: that is, none was given the key for the first time while it was active and a
package activated later already overrode it. The definition that is called is that of the most
recently activated package that declares the key exactly when that package was not overtaken. -/
theorem activation_order_iff (caseSensitive : Bool) (ops : List (Operation β))
    (k : FunctionKey) :
    let r := (empty caseSensitive).run ops
    ((owners (r.stack k)).Sublist r.active ↔ ∀ p q, ¬ Overtakes caseSensitive k ops p q) ∧
    ∀ q body, (r.active.filter fun p => (r.declared? p k).isSome).getLast? = some q →
      r.declared? q k = some body →
      (r.resolve k = some ⟨body, ⟨k, some q⟩⟩ ↔ ∀ p, ¬ Overtakes caseSensitive k ops p q) := by
  intro r
  have hr : r.WellFormed := (wellFormed_empty caseSensitive).run ops
  refine ⟨⟨?_, ?_⟩, ?_⟩
  · intro hsub p q hover
    exact not_pair_and_swap hr.activeNodup hover.inversion.1 (hover.swapped.trans hsub)
  · intro hnone
    rw [owners_eq_filter hnone]
    exact List.filter_sublist
  · intro q body hq hbody
    have hqmem : q ∈ owners (r.stack k) :=
      (mem_owners_run caseSensitive ops k q).mpr (List.mem_of_getLast? hq)
    obtain ⟨top, htop⟩ : ∃ top, (owners (r.stack k)).getLast? = some top :=
      Option.isSome_iff_exists.mp (List.getLast?_isSome.mpr (List.ne_nil_of_mem hqmem))
    obtain ⟨body', hbody', hresolve⟩ := hr.resolve_of_owners htop
    rw [hresolve]
    constructor
    · intro heq p hover
      obtain rfl : top = q := by simp at heq; exact heq.2
      have hne : p ≠ top := by simpa using hr.activeNodup.sublist hover.inversion.1
      have hp : p ∈ owners (r.stack k) := hover.swapped.subset (by simp)
      exact not_pair_and_swap (owners_run_nodup caseSensitive ops k) hover.swapped
        (pair_sublist_of_getLast? hp htop hne)
    · intro hnone
      -- If another package were on top, it would have overtaken `q`.
      obtain rfl : top = q := by
        by_contra hne
        have htopmem : top ∈ owners (r.stack k) := List.mem_of_getLast? htop
        have hfilter := (mem_owners_run caseSensitive ops k top).mp htopmem
        have hactive : [top, q].Sublist r.active :=
          (pair_sublist_of_getLast? hfilter hq hne).trans List.filter_sublist
        have habove := pair_sublist_of_getLast? hqmem htop (Ne.symm hne)
        exact hnone top (overtakes_of_inversion hactive ((hr.mem_owners_iff top k).mp htopmem)
          (earlier_of_owners habove))
      rw [Option.some.inj (hbody'.symm.trans hbody)]

/-- The order of activation is not always kept: `alpha` is activated first, but gets the function
`f` only after `beta` has overridden it, and is called. -/
theorem activation_order_fails :
    let f : FunctionKey := ⟨none, "f"⟩
    let g : FunctionKey := ⟨none, "g"⟩
    let r : Functions Nat := (empty false).run
      [.declare "Alpha" [(g, 1)], .declare "Beta" [(f, 2)], .activate "Alpha", .activate "Beta",
        .declare "Alpha" [(f, 3)]]
    r.active = ["alpha", "beta"] ∧ owners (r.stack f) = ["beta", "alpha"] ∧
      ¬ (owners (r.stack f)).Sublist r.active ∧ (r.resolve f).map Definition.body = some 3 := by
  decide

end TorqueScript.Functions
