import TorqueScript.Proofs.Objects.Fates

/-!
Registries while a tree of objects is being built. What is there already stays as it is, and
all that is new lies below the first object of the tree. So the tree can be given an owner
without a cycle, and deleting its first object brings back the registry as it was.
-/

namespace TorqueScript.Objects

/-- The registries have the same objects under the same names. More numbers may have been given
out, and names retired. -/
structure SameObjects (o o' : Objects) : Prop where
  caseSensitive : o'.caseSensitive = o.caseSensitive
  classes : o'.classes = o.classes
  nextId : o.nextId ≤ o'.nextId
  instances : ∀ x, o'.instances.get? x = o.instances.get? x
  names : ∀ n, o'.names.get? n = o.names.get? n

/-- What is new in `o'` lies below `top`. Of what was there, only `top` itself may have changed, and
has the same owner. -/
structure Grows (top : ObjectId) (o o' : Objects) : Prop where
  caseSensitive : o'.caseSensitive = o.caseSensitive
  classes : o'.classes = o.classes
  nextId : o.nextId ≤ o'.nextId
  others : ∀ x, x < o.nextId → x ≠ top → o'.instances.get? x = o.instances.get? x
  root : ∀ i, o.instances.get? top = some i →
    ∃ i', o'.instances.get? top = some i' ∧ i'.group = i.group
  below : ∀ x i, o.nextId ≤ x → o'.instances.get? x = some i → o'.Below top x

/-- What is new in `o'` is the next object, which has no owner, and objects below it. -/
structure Made (o o' : Objects) : Prop where
  caseSensitive : o'.caseSensitive = o.caseSensitive
  classes : o'.classes = o.classes
  nextId : o.nextId < o'.nextId
  old : ∀ x, x < o.nextId → o'.instances.get? x = o.instances.get? x
  root : ∃ i, o'.instances.get? o.nextId = some i ∧ i.group = none
  below : ∀ x i, o.nextId ≤ x → o'.instances.get? x = some i → o'.Below o.nextId x

theorem Registered.get?_of_le {o : Objects} (h : o.Registered) {x : ObjectId} (hx : o.nextId ≤ x) :
    o.instances.get? x = none := by
  cases hi : o.instances.get? x with
  | none => rfl
  | some i => exact absurd (h.numbered x i hi).2 (Nat.not_lt_of_le hx)

/-- Who has which name is told by the objects alone. -/
theorem Registered.names_eq {o o' : Objects} (h : o.Registered) (h' : o'.Registered)
    (hcase : o'.caseSensitive = o.caseSensitive)
    (hsame : ∀ x, o'.instances.get? x = o.instances.get? x) (n : String) :
    o'.names.get? n = o.names.get? n := by
  have hfold : o'.fold = o.fold := fold_congr hcase
  apply Option.ext
  intro x
  rw [h'.named, h.named, hsame, hfold]

/-- As long as what was there before stays as it is, so do the owners of it: none of them is new. -/
theorem WellFormed.ownerAt_lt_nextId {o o' : Objects} (h : o.WellFormed)
    (hold : ∀ x, x < o.nextId → o'.instances.get? x = o.instances.get? x) {n : Nat} {x y : ObjectId}
    (hx : x < o.nextId) (hn : o'.ownerAt n x = some y) : y < o.nextId := by
  induction n generalizing x with
  | zero =>
    cases hn
    exact hx
  | succ n ih =>
    obtain ⟨g, hg, hrest⟩ := Option.bind_eq_some_iff.mp hn
    rw [groupOf, hold x hx] at hg
    obtain ⟨i, hi, -⟩ := (h.owned x g).mp hg
    exact ih (h.numbered g i hi).2 hrest

theorem WellFormed.ownerAt_ne_nextId {o o' : Objects} (h : o.WellFormed)
    (hold : ∀ x, x < o.nextId → o'.instances.get? x = o.instances.get? x) {x : ObjectId}
    (hx : x < o.nextId) (n : Nat) : o'.ownerAt n x ≠ some o.nextId := by
  intro hn
  exact Nat.lt_irrefl _ (h.ownerAt_lt_nextId hold hx hn)

/-- An object without an owner that does not lie above the group becomes its last child, and that
is all that changes. -/
theorem WellFormed.addChild_root {o o' : Objects} (h : o.WellFormed) {group child : ObjectId}
    {c : Instance} (hc : o.instances.get? child = some c) (hroot : c.group = none)
    (hbelow : ∀ n, o.ownerAt n group ≠ some child) (hok : o.addChild group child = .ok o') :
    o' = { o with instances := o'.instances } ∧
    o'.instances.get? child = some { c with group := some group } ∧
    (∀ g, o.instances.get? group = some g →
      o'.instances.get? group = some { g with children := g.children ++ [child] }) ∧
    ∀ x, x ≠ child → x ≠ group → o'.instances.get? x = o.instances.get? x := by
  have hne : group ≠ child := fun heq => hbelow 0 (by rw [heq]; rfl)
  have hunlisted : ∀ x i, o.instances.get? x = some i →
      i.children.filter (· ≠ child) = i.children := by
    intro x i hi
    rw [List.filter_eq_self]
    intro d hd
    have hdne : d ≠ child := by
      intro heq
      subst heq
      have hgroup := (h.owned d x).mpr ⟨i, hi, hd⟩
      rw [groupOf_eq hc, hroot] at hgroup
      cases hgroup
    simpa using hdne
  rcases h.addChild_cases hok with ⟨⟨n, hn⟩, -⟩ | ⟨-, hframe, hview⟩
  · exact absurd hn (hbelow n)
  · refine ⟨hframe, ?_, fun g hg => ?_, fun x hchild hgroup => ?_⟩
    · rw [hview, hc, Option.map_some, relinked, hunlisted child c hc]
      simp [hne]
    · rw [hview, hg, Option.map_some, relinked, hunlisted group g hg]
      simp [hne]
    · rw [hview]
      cases hi : o.instances.get? x with
      | none => rfl
      | some i =>
        rw [Option.map_some, relinked, hunlisted x i hi]
        simp [hchild, Ne.symm hgroup]

namespace Grows

variable {o o' o'' : Objects} {top : ObjectId}

theorem of_no_new (h : o.Registered) (hcase : o'.caseSensitive = o.caseSensitive)
    (hclasses : o'.classes = o.classes) (hnext : o.nextId ≤ o'.nextId)
    (hothers : ∀ x, x ≠ top → o'.instances.get? x = o.instances.get? x)
    (hroot : ∀ i, o.instances.get? top = some i →
      ∃ i', o'.instances.get? top = some i' ∧ i'.group = i.group) : Grows top o o' where
  caseSensitive := hcase
  classes := hclasses
  nextId := hnext
  others x _ hx := hothers x hx
  root := hroot
  below x i hx hi := by
    by_cases hxtop : x = top
    · exact ⟨0, congrArg some hxtop⟩
    · rw [hothers x hxtop, h.get?_of_le hx] at hi
      cases hi

theorem refl (h : o.Registered) (top : ObjectId) : Grows top o o :=
  of_no_new h rfl rfl (Nat.le_refl _) (fun _ _ => rfl) fun i hi => ⟨i, hi, rfl⟩

theorem of_sameObjects (h : o.Registered) (hsame : SameObjects o o') (top : ObjectId) :
    Grows top o o' := by
  refine of_no_new h hsame.caseSensitive hsame.classes hsame.nextId (fun x _ => hsame.instances x)
    fun i hi => ⟨i, ?_, rfl⟩
  rw [hsame.instances, hi]

theorem setField (h : o.Registered) {name : String} {v : Value}
    (hok : o.setField top name v = .ok o') : Grows top o o' := by
  obtain ⟨-, rfl⟩ := setField_eq_ok.mp hok
  rw [update_frame]
  refine of_no_new h rfl rfl (Nat.le_refl _) (fun x hx => ?_) fun i hi => ?_
  · rw [get?_update, if_neg (Ne.symm hx)]
  · rw [get?_update, if_pos rfl, hi]
    exact ⟨_, rfl, rfl⟩

theorem trans (h : Grows top o o') (h' : Grows top o' o'') (ho : o.Registered) (ho' : o'.Registered)
    (htop : ∃ i, o.instances.get? top = some i) : Grows top o o'' := by
  obtain ⟨i, hi⟩ := htop
  have hlt : top < o.nextId := (ho.numbered top i hi).2
  have hlinks : ∀ c g, o'.groupOf c = some g → o''.groupOf c = some g := by
    intro c g hg
    obtain ⟨j, hj, hgroup⟩ := exists_of_groupOf hg
    by_cases hc : c = top
    · subst hc
      obtain ⟨k, hk, hsame⟩ := h'.root j hj
      rw [groupOf_eq hk, hsame, hgroup]
    · rw [groupOf, h'.others c (ho'.numbered c j hj).2 hc]
      exact hg
  refine ⟨h'.caseSensitive.trans h.caseSensitive, h'.classes.trans h.classes,
    Nat.le_trans h.nextId h'.nextId, fun x hx hxtop => ?_, fun j hj => ?_, fun x j hx hj => ?_⟩
  · rw [h'.others x (Nat.lt_of_lt_of_le hx h.nextId) hxtop, h.others x hx hxtop]
  · obtain ⟨k, hk, hgroup⟩ := h.root j hj
    obtain ⟨l, hl, hgroup'⟩ := h'.root k hk
    exact ⟨l, hl, hgroup'.trans hgroup⟩
  · by_cases hnew : o'.nextId ≤ x
    · exact h'.below x j hnew hj
    · -- What the first part has made is where it was.
      have hxtop : x ≠ top := fun heq => Nat.not_lt_of_le hx (heq ▸ hlt)
      rw [h'.others x (Nat.lt_of_not_le hnew) hxtop] at hj
      obtain ⟨n, hn⟩ := h.below x j hx hj
      exact ⟨n, ownerAt_mono hlinks hn⟩

theorem exists_root (h : Grows top o o') (htop : ∃ i, o.instances.get? top = some i) :
    ∃ i, o'.instances.get? top = some i := by
  obtain ⟨i, hi⟩ := htop
  obtain ⟨i', hi', -⟩ := h.root i hi
  exact ⟨i', hi'⟩

/-- What grows below an object just made is part of what has been made. -/
theorem made {o₁ : Objects} {className : String} {name : Option String} {parent : Option ObjectId}
    {isDatablock : Bool} (hok : o.instantiate className name parent isDatablock = .ok (top, o₁))
    (h : Grows top o₁ o') : Made o o' := by
  obtain ⟨-, -, rfl, rfl⟩ := instantiate_eq_ok.mp hok
  refine ⟨h.caseSensitive, h.classes, h.nextId, fun x hx => ?_, ?_, fun x i hx hi => ?_⟩
  · have hne : x ≠ o.nextId := Nat.ne_of_lt hx
    rw [h.others x (Nat.lt_succ_of_lt hx) hne, get?_created, if_neg (Ne.symm hne)]
  · exact h.root _ (by rw [get?_created, if_pos rfl])
  · rcases Nat.eq_or_lt_of_le hx with heq | hlt
    · exact ⟨0, congrArg some heq.symm⟩
    · exact h.below x i hlt hi

end Grows

namespace Made

variable {o o' o'' : Objects} (h : Made o o') (ho : o.WellFormed)

include h ho

/-- Deleting what has been made brings back what was there before. -/
theorem exists_delete (ho' : o'.WellFormed) :
    ∃ o'', o'.delete o.nextId = .ok o'' ∧ SameObjects o o'' := by
  obtain ⟨root, hroot, -⟩ := h.root
  have hok := delete_eq_ok.mpr ⟨⟨root, hroot⟩, rfl⟩
  obtain ⟨gone, hgone, hbelow, hmem⟩ := ho'.removed_delete hok
  have hkept : ∀ x, x < o.nextId → x ∉ gone := by
    intro x hx hxgone
    obtain ⟨n, hn⟩ := hbelow x hxgone
    exact ho.ownerAt_ne_nextId h.old hx n hn
  have hinstances : ∀ x, (removeTree (o'.size + 1) o.nextId o').instances.get? x =
      o.instances.get? x := by
    intro x
    by_cases hx : x < o.nextId
    · rw [hgone.get?_of_notMem (hkept x hx), h.old x hx]
      cases hi : o.instances.get? x with
      | none => rfl
      | some i =>
        have hall : i.children.filter (· ∉ gone) = i.children := by
          rw [List.filter_eq_self]
          intro c hc
          obtain ⟨j, hj, -⟩ := exists_of_groupOf ((ho.owned c x).mpr ⟨i, hi, hc⟩)
          simpa using hkept c (ho.numbered c j hj).2
        rw [Option.map_some, without, hall]
    · rw [ho.toRegistered.get?_of_le (Nat.le_of_not_lt hx), hgone.instances]
      cases hi : o'.instances.get? x with
      | none => simp
      | some i =>
        have hxgone : x ∈ gone :=
          hgone.closed.mem_of_below hmem (h.below x i (Nat.le_of_not_lt hx) hi)
        rw [if_pos hxgone]
  have hcase := hgone.caseSensitive.trans h.caseSensitive
  refine ⟨_, hok, hcase, hgone.classes.trans h.classes, ?_, hinstances,
    ho.toRegistered.names_eq (hgone.wellFormed ho').toRegistered hcase hinstances⟩
  rw [hgone.nextId]
  exact Nat.le_of_lt h.nextId

/-- What has been made can be given to an object that was there before. -/
theorem exists_addChild (ho' : o'.WellFormed) {top : ObjectId}
    (htop : ∃ i, o.instances.get? top = some i) :
    ∃ o'', o'.addChild top o.nextId = .ok o'' ∧ Grows top o o'' := by
  obtain ⟨i, hi⟩ := htop
  obtain ⟨root, hroot, hgroup⟩ := h.root
  have hlt : top < o.nextId := (ho.numbered top i hi).2
  have hi' : o'.instances.get? top = some i := by rw [h.old top hlt, hi]
  obtain ⟨o'', hok⟩ : ∃ o'', o'.addChild top o.nextId = .ok o'' :=
    ⟨_, addChild_eq_ok.mpr ⟨⟨i, hi'⟩, ⟨root, hroot⟩, rfl⟩⟩
  obtain ⟨hframe, hchild, howner, hothers⟩ :=
    ho'.addChild_root hroot hgroup (ho.ownerAt_ne_nextId h.old hlt) hok
  have hlinks : ∀ c g, o'.groupOf c = some g → o''.groupOf c = some g := by
    intro c g hg
    have hc : c ≠ o.nextId := by
      intro heq
      rw [heq, groupOf_eq hroot, hgroup] at hg
      cases hg
    by_cases hctop : c = top
    · subst hctop
      rw [groupOf_eq (howner i hi')]
      rw [groupOf_eq hi'] at hg
      exact hg
    · rw [groupOf, hothers c hc hctop]
      exact hg
  refine ⟨o'', hok, ?_, ?_, ?_, fun x hx hxtop => ?_, fun j hj => ?_, fun x j hx hj => ?_⟩
  · rw [hframe]
    exact h.caseSensitive
  · rw [hframe]
    exact h.classes
  · rw [hframe]
    exact Nat.le_of_lt h.nextId
  · rw [hothers x (Nat.ne_of_lt hx) hxtop, h.old x hx]
  · rw [hi] at hj
    cases hj
    exact ⟨_, howner i hi', rfl⟩
  · -- From anything new the way up leads to the first new object, and from there to its owner.
    obtain ⟨n, hn⟩ : o'.Below o.nextId x := by
      by_cases hxroot : x = o.nextId
      · exact ⟨0, congrArg some hxroot⟩
      · have hxtop : x ≠ top := fun heq => Nat.not_lt_of_le hx (heq ▸ hlt)
        rw [hothers x hxroot hxtop] at hj
        exact h.below x j hx hj
    refine ⟨n + 1, ?_⟩
    rw [ownerAt_add, ownerAt_mono hlinks hn]
    simp [ownerAt, groupOf_eq hchild]

end Made

end TorqueScript.Objects
