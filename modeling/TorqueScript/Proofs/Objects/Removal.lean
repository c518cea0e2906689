import TorqueScript.Proofs.Objects.Moving

/-!
What a removal does. A registry is pruned when some objects are gone from it, with their
names and from the lists of children, and nothing else has changed. Removing an object
with all it owns prunes the registry by exactly the objects below it; what is left is
well formed because nothing that is left was owned by something gone.
-/

namespace TorqueScript.Objects

/-- An object whose children are those that are not gone. -/
def without (gone : List ObjectId) (i : Instance) : Instance :=
  { i with children := i.children.filter (· ∉ gone) }

/-- `o'` is `o` without the objects `gone`, whose names are retired. -/
structure Pruned (o o' : Objects) (gone : List ObjectId) : Prop where
  caseSensitive : o'.caseSensitive = o.caseSensitive
  nextId : o'.nextId = o.nextId
  classes : o'.classes = o.classes
  instances : ∀ x, o'.instances.get? x =
    if x ∈ gone then none else (o.instances.get? x).map (without gone)
  names : ∀ n, o'.names.get? n = (o.names.get? n).filter (· ∉ gone)
  retired : ∀ n, n ∈ o'.retired ↔ n ∈ o.retired ∨ ∃ id ∈ gone, o.names.get? n = some id

/-- What an object that is gone owns is gone too. -/
def Closed (o : Objects) (gone : List ObjectId) : Prop :=
  ∀ c g, o.groupOf c = some g → g ∈ gone → c ∈ gone

/-- The object is `top` or lies below it. -/
def Below (o : Objects) (top id : ObjectId) : Prop :=
  ∃ n, o.ownerAt n id = some top

namespace Pruned

variable {o o' : Objects} {gone : List ObjectId}

theorem refl (o : Objects) : Pruned o o [] where
  caseSensitive := rfl
  nextId := rfl
  classes := rfl
  instances x := by
    cases o.instances.get? x <;> simp [without]
  names n := by
    cases o.names.get? n <;> simp [Option.filter]
  retired n := by simp

theorem trans {o'' : Objects} {more : List ObjectId} (h : Pruned o o' gone)
    (h' : Pruned o' o'' more) : Pruned o o'' (gone ++ more) where
  caseSensitive := h'.caseSensitive.trans h.caseSensitive
  nextId := h'.nextId.trans h.nextId
  classes := h'.classes.trans h.classes
  instances x := by
    rw [h'.instances, h.instances]
    by_cases hx : x ∈ gone
    · simp [hx]
    · by_cases hx' : x ∈ more
      · simp [hx']
      · cases o.instances.get? x with
        | none => simp
        | some i => simp [hx, hx', without, List.filter_filter, Bool.and_comm]
  names n := by
    rw [h'.names, h.names]
    cases o.names.get? n with
    | none => rfl
    | some id =>
      by_cases hid : id ∈ gone
      · simp [Option.filter, hid]
      · by_cases hid' : id ∈ more <;> simp [Option.filter, hid, hid']
  retired n := by
    rw [h'.retired, h.retired, or_assoc]
    refine or_congr_right ?_
    constructor
    · intro hn
      rcases hn with hn | hn
      · obtain ⟨id, hid, hname⟩ := hn
        exact ⟨id, List.mem_append_left _ hid, hname⟩
      · obtain ⟨id, hid, hname⟩ := hn
        rw [h.names] at hname
        exact ⟨id, List.mem_append_right _ hid, (Option.filter_eq_some_iff.mp hname).1⟩
    · intro hn
      obtain ⟨id, hid, hname⟩ := hn
      by_cases hgone : id ∈ gone
      · exact Or.inl ⟨id, hgone, hname⟩
      · have hmore : id ∈ more := (List.mem_append.mp hid).resolve_left hgone
        refine Or.inr ⟨id, hmore, ?_⟩
        rw [h.names, hname]
        simp [Option.filter, hgone]

theorem get?_of_notMem (h : Pruned o o' gone) {x : ObjectId} (hx : x ∉ gone) :
    o'.instances.get? x = (o.instances.get? x).map (without gone) := by
  rw [h.instances, if_neg hx]

theorem exists_of_get? (h : Pruned o o' gone) {x : ObjectId} {i' : Instance}
    (hi' : o'.instances.get? x = some i') :
    x ∉ gone ∧ ∃ i, o.instances.get? x = some i ∧ i' = without gone i := by
  rw [h.instances] at hi'
  split at hi'
  · cases hi'
  · rename_i hx
    obtain ⟨i, hi, rfl⟩ := Option.map_eq_some_iff.mp hi'
    exact ⟨hx, i, hi, rfl⟩

theorem groupOf_eq (h : Pruned o o' gone) (c : ObjectId) :
    o'.groupOf c = if c ∈ gone then none else o.groupOf c := by
  rw [groupOf, h.instances, groupOf]
  split
  · rfl
  · cases o.instances.get? c <;> rfl

theorem groupOf_mono (h : Pruned o o' gone) (c g : ObjectId) (hc : o'.groupOf c = some g) :
    o.groupOf c = some g := by
  rw [h.groupOf_eq] at hc
  split at hc
  · cases hc
  · exact hc

theorem wellFormed (h : Pruned o o' gone) (ho : o.WellFormed) (hclosed : o.Closed gone) :
    o'.WellFormed := by
  have hfold : o'.fold = o.fold := fold_congr h.caseSensitive
  refine ⟨⟨?_, ?_, ?_, ?_⟩, ⟨?_, ?_, ?_⟩⟩
  · rw [h.nextId]
    exact ho.positive
  · intro id i' hi'
    obtain ⟨-, i, hi, rfl⟩ := h.exists_of_get? hi'
    exact ho.stored id i hi
  · intro id i' hi'
    obtain ⟨-, i, hi, rfl⟩ := h.exists_of_get? hi'
    rw [h.nextId]
    exact ho.numbered id i hi
  · intro n id
    rw [h.names, Option.filter_eq_some_iff, ho.named, hfold]
    constructor
    · intro hn
      obtain ⟨⟨i, hi, hname⟩, hid⟩ := hn
      have hlive := h.get?_of_notMem (by simpa using hid)
      exact ⟨without gone i, by rw [hlive, hi]; rfl, hname⟩
    · intro hn
      obtain ⟨i', hi', hname⟩ := hn
      obtain ⟨hid, i, hi, rfl⟩ := h.exists_of_get? hi'
      exact ⟨⟨i, hi, hname⟩, by simpa using hid⟩
  · intro c g
    rw [h.groupOf_eq]
    constructor
    · intro hc
      split at hc
      · cases hc
      · rename_i hkept
        obtain ⟨i, hi, hmem⟩ := (ho.owned c g).mp hc
        have hg : g ∉ gone := fun hg => hkept (hclosed c g hc hg)
        refine ⟨without gone i, by rw [h.get?_of_notMem hg, hi]; rfl, ?_⟩
        simpa [without, hkept] using hmem
    · intro hc
      obtain ⟨i', hi', hmem⟩ := hc
      obtain ⟨-, i, hi, rfl⟩ := h.exists_of_get? hi'
      obtain ⟨hmem, hkept⟩ : c ∈ i.children ∧ c ∉ gone := by simpa [without] using hmem
      rw [if_neg hkept]
      exact (ho.owned c g).mpr ⟨i, hi, hmem⟩
  · intro g i' hi'
    obtain ⟨-, i, hi, rfl⟩ := h.exists_of_get? hi'
    exact (ho.childrenNodup g i hi).filter _
  · intro n id hcycle
    exact ho.acyclic n id (ownerAt_mono h.groupOf_mono hcycle)

end Pruned

theorem WellFormed.removeOne_eq {o : Objects} (h : o.WellFormed) {id : ObjectId} {i : Instance}
    (hi : o.instances.get? id = some i) :
    o.removeOne id =
      { o with
        instances := (o.detach id).instances.erase id
        names := i.name.elim o.names fun n => o.names.erase (o.fold n)
        retired := i.name.elim o.retired fun n =>
          o.fold n :: o.retired.filter (· ≠ o.fold n) } := by
  have hlive : (o.detach id).instances.get? id = some (relinked id id none i) := by
    rw [h.get?_detach, hi]
    rfl
  have hname : (relinked id id none i).name = i.name := rfl
  simp only [removeOne, hlive, hname]
  rw [detach_frame]
  cases i.name <;> rfl

/-- Removing a single object prunes the registry by it alone. -/
theorem WellFormed.pruned_removeOne {o : Objects} (h : o.WellFormed) {id : ObjectId} {i : Instance}
    (hi : o.instances.get? id = some i) : Pruned o (o.removeOne id) [id] := by
  have hindexed : ∀ n, i.name.map o.fold = some n ↔ o.names.get? n = some id := by
    intro n
    rw [h.named]
    simp [hi]
  rw [h.removeOne_eq hi]
  refine ⟨rfl, rfl, rfl, ?_, ?_, ?_⟩
  · intro x
    rw [Table.get?_erase, h.get?_detach]
    by_cases hx : id = x
    · simp [hx]
    · simp only [if_neg hx, List.mem_singleton, Ne.symm hx, if_false]
      cases o.instances.get? x <;> simp [relinked_none, without, Ne.symm hx]
  · intro n
    have hnames : (i.name.elim o.names fun n => o.names.erase (o.fold n)).get? n =
        if i.name.map o.fold = some n then none else o.names.get? n := by
      cases i.name with
      | none => simp
      | some m => simp [Table.get?_erase]
    rw [hnames]
    simp only [hindexed]
    cases o.names.get? n with
    | none => simp
    | some x => by_cases hx : x = id <;> simp [Option.filter, hx]
  · intro n
    have hretired : n ∈ (i.name.elim o.retired fun n =>
        o.fold n :: o.retired.filter (· ≠ o.fold n)) ↔
        n ∈ o.retired ∨ i.name.map o.fold = some n := by
      cases i.name with
      | none => simp
      | some m =>
        by_cases hn : n = o.fold m
        · simp [hn]
        · simp [hn, Ne.symm hn]
    rw [hretired, hindexed]
    simp

/-- `o'` is `o` without the objects `gone` and what they owned, which is gone too. -/
structure Removed (o o' : Objects) (gone : List ObjectId) : Prop extends Pruned o o' gone where
  closed : o.Closed gone

theorem Removed.refl (o : Objects) : Removed o o [] :=
  ⟨Pruned.refl o, fun _ _ _ hg => absurd hg List.not_mem_nil⟩

theorem Removed.trans {o o' o'' : Objects} {gone more : List ObjectId} (h : Removed o o' gone)
    (h' : Removed o' o'' more) : Removed o o'' (gone ++ more) := by
  refine ⟨h.toPruned.trans h'.toPruned, ?_⟩
  intro c g hc hg
  rw [List.mem_append] at hg ⊢
  by_cases hkept : c ∈ gone
  · exact Or.inl hkept
  rcases hg with hg | hg
  · exact Or.inl (h.closed c g hc hg)
  · exact Or.inr (h'.closed c g (by rw [h.groupOf_eq, if_neg hkept, hc]) hg)

theorem Removed.wellFormed {o o' : Objects} {gone : List ObjectId} (h : Removed o o' gone)
    (ho : o.WellFormed) : o'.WellFormed :=
  h.toPruned.wellFormed ho h.closed

/-- One level more leads from a child to its owner, also in what was there at first. -/
theorem Removed.ownerAt_succ {o o' : Objects} {gone : List ObjectId} (h : Removed o o' gone)
    {c top : ObjectId} (hc : o.groupOf c = some top) {n : Nat} {x : ObjectId}
    (hn : o'.ownerAt n x = some c) : o.ownerAt (n + 1) x = some top := by
  rw [ownerAt_add, ownerAt_mono h.groupOf_mono hn]
  simp [ownerAt, hc]

/-- Removing children one after the other removes them all, and nothing but what lies below their
owner. The hypothesis `ih` says what removing one child does. -/
theorem removed_foldl {fuel : Nat}
    (ih : ∀ {o : Objects} (id : ObjectId), o.WellFormed →
      (∀ n x, o.ownerAt n x = some id → n < fuel) →
      ∃ gone, Removed o (removeTree fuel id o) gone ∧ (∀ x ∈ gone, o.Below id x) ∧
        ∀ i, o.instances.get? id = some i → id ∈ gone)
    {o : Objects} (h : o.WellFormed) {top : ObjectId}
    (hfuel : ∀ n x, o.ownerAt n x = some top → n < fuel + 1) (children : List ObjectId)
    (hchildren : ∀ c ∈ children, o.groupOf c = some top) {o' : Objects} {gone : List ObjectId}
    (ho' : Removed o o' gone) (hbelow : ∀ x ∈ gone, ∃ n, o.ownerAt (n + 1) x = some top) :
    ∃ gone', Removed o (children.foldl (fun o c => removeTree fuel c o) o') gone' ∧
      (∀ x ∈ gone', ∃ n, o.ownerAt (n + 1) x = some top) ∧ (∀ x ∈ gone, x ∈ gone') ∧
      ∀ c ∈ children, c ∈ gone' := by
  induction children generalizing o' gone with
  | nil => exact ⟨gone, ho', hbelow, fun _ hx => hx, by simp⟩
  | cons c rest ihrest =>
    have hc : o.groupOf c = some top := hchildren c (List.mem_cons_self ..)
    have hfuel' : ∀ n x, o'.ownerAt n x = some c → n < fuel := by
      intro n x hn
      have hlt := hfuel (n + 1) x (ho'.ownerAt_succ hc hn)
      omega
    obtain ⟨more, hmore, hmoreBelow, hmem⟩ := ih c (ho'.wellFormed h) hfuel'
    have hgone : c ∈ gone ++ more := by
      by_cases hcgone : c ∈ gone
      · exact List.mem_append_left _ hcgone
      · obtain ⟨i, hi, -⟩ := exists_of_groupOf hc
        exact List.mem_append_right _ (hmem (without gone i) (by
          rw [ho'.get?_of_notMem hcgone, hi]
          rfl))
    have hbelow' : ∀ x ∈ gone ++ more, ∃ n, o.ownerAt (n + 1) x = some top := by
      intro x hx
      rcases List.mem_append.mp hx with hx | hx
      · exact hbelow x hx
      · obtain ⟨n, hn⟩ := hmoreBelow x hx
        exact ⟨n, ho'.ownerAt_succ hc hn⟩
    obtain ⟨gone', hgone', hbelow'', hkeep, hall⟩ := ihrest
      (fun x hx => hchildren x (List.mem_cons_of_mem _ hx)) (ho'.trans hmore) hbelow'
    refine ⟨gone', hgone', hbelow'', fun x hx => hkeep x (List.mem_append_left _ hx), ?_⟩
    intro x hx
    rcases List.mem_cons.mp hx with rfl | hx
    · exact hkeep x hgone
    · exact hall x hx

/-- With a bound above the length of every chain that leads to it, an object is removed together
with exactly what lies below it. -/
theorem removed_removeTree (fuel : Nat) {o : Objects} (id : ObjectId) (h : o.WellFormed)
    (hfuel : ∀ n x, o.ownerAt n x = some id → n < fuel) :
    ∃ gone, Removed o (removeTree fuel id o) gone ∧ (∀ x ∈ gone, o.Below id x) ∧
      ∀ i, o.instances.get? id = some i → id ∈ gone := by
  induction fuel generalizing o id with
  | zero =>
    have hlt := hfuel 0 id rfl
    omega
  | succ fuel ih =>
    cases hi : o.instances.get? id with
    | none =>
      refine ⟨[], ?_, by simp, by simp⟩
      simpa [removeTree, hi] using Removed.refl o
    | some i =>
      have hchildren : ∀ c ∈ i.children, o.groupOf c = some id :=
        fun c hc => (h.owned c id).mpr ⟨i, hi, hc⟩
      obtain ⟨gone, hgone, hbelow, -, hall⟩ :=
        removed_foldl ih h hfuel i.children hchildren (Removed.refl o) (by simp)
      have hid : id ∉ gone := by
        intro hmem
        obtain ⟨n, hn⟩ := hbelow id hmem
        exact h.acyclic n id hn
      have hlive : (i.children.foldl (fun o c => removeTree fuel c o) o).instances.get? id =
          some (without gone i) := by
        rw [hgone.get?_of_notMem hid, hi]
        rfl
      have hlast := (hgone.wellFormed h).pruned_removeOne hlive
      have hremove : removeTree (fuel + 1) id o =
          (i.children.foldl (fun o c => removeTree fuel c o) o).removeOne id := by
        simp [removeTree, hi]
      -- Nothing is left below the object when its own turn comes.
      have hempty : Closed (i.children.foldl (fun o c => removeTree fuel c o) o) [id] := by
        intro c g hc hg
        obtain rfl : g = id := List.mem_singleton.mp hg
        rw [hgone.groupOf_eq] at hc
        split at hc
        · cases hc
        · rename_i hkept
          obtain ⟨j, hj, hmem⟩ := (h.owned c g).mp hc
          rw [hi] at hj
          cases hj
          exact absurd (hall c hmem) hkept
      refine ⟨gone ++ [id], ?_, ?_, fun _ _ => by simp⟩
      · rw [hremove]
        exact hgone.trans ⟨hlast, hempty⟩
      · intro x hx
        rcases List.mem_append.mp hx with hx | hx
        · obtain ⟨n, hn⟩ := hbelow x hx
          exact ⟨n + 1, hn⟩
        · rw [List.mem_singleton.mp hx]
          exact ⟨0, rfl⟩

/-- A bound above the length of every chain that leads to an object is never reached, so that any
larger one gives the same. -/
theorem removeTree_eq_of_le {fuel fuel' : Nat} (hle : fuel ≤ fuel') {o : Objects} (id : ObjectId)
    (h : o.WellFormed) (hfuel : ∀ n x, o.ownerAt n x = some id → n < fuel) :
    removeTree fuel' id o = removeTree fuel id o := by
  induction fuel generalizing fuel' o id with
  | zero =>
    have hlt := hfuel 0 id rfl
    omega
  | succ fuel ih =>
    obtain ⟨fuel', rfl⟩ : ∃ m, fuel' = m + 1 := ⟨fuel' - 1, by omega⟩
    cases hi : o.instances.get? id with
    | none => simp only [removeTree, hi]
    | some i =>
      have hchildren : ∀ c ∈ i.children, o.groupOf c = some id :=
        fun c hc => (h.owned c id).mpr ⟨i, hi, hc⟩
      simp only [removeTree, hi]
      refine congrArg (removeOne · id) ?_
      -- Each child is removed from what the children before it have left.
      suffices hall : ∀ children : List ObjectId, (∀ c ∈ children, o.groupOf c = some id) →
          ∀ o' gone, Removed o o' gone →
            children.foldl (fun o c => removeTree fuel' c o) o' =
              children.foldl (fun o c => removeTree fuel c o) o' from
        hall i.children hchildren o [] (Removed.refl o)
      intro children
      induction children with
      | nil => exact fun _ _ _ _ => rfl
      | cons c rest ihrest =>
        intro hchildren o' gone ho'
        have hc : o.groupOf c = some id := hchildren c (List.mem_cons_self ..)
        have hfuel' : ∀ n x, o'.ownerAt n x = some c → n < fuel := by
          intro n x hn
          have hlt := hfuel (n + 1) x (ho'.ownerAt_succ hc hn)
          omega
        obtain ⟨more, hmore, -, -⟩ := removed_removeTree fuel c (ho'.wellFormed h) hfuel'
        rw [List.foldl_cons, List.foldl_cons,
          ih (Nat.le_of_succ_le_succ hle) c (ho'.wellFormed h) hfuel']
        exact ihrest (fun x hx => hchildren x (List.mem_cons_of_mem _ hx)) _ _ (ho'.trans hmore)

theorem delete_eq_ok {o o' : Objects} {id : ObjectId} :
    o.delete id = .ok o' ↔ (∃ i, o.instances.get? id = some i) ∧
      o' = removeTree (o.size + 1) id o := by
  unfold delete
  rw [discard_get_eq_ok, pure_eq_ok]

/-- A deletion removes the object and what lies below it. -/
theorem WellFormed.removed_delete {o o' : Objects} (h : o.WellFormed) {id : ObjectId}
    (hok : o.delete id = .ok o') :
    ∃ gone, Removed o o' gone ∧ (∀ x ∈ gone, o.Below id x) ∧ id ∈ gone := by
  obtain ⟨⟨i, hi⟩, rfl⟩ := delete_eq_ok.mp hok
  obtain ⟨gone, hgone, hbelow, hmem⟩ := removed_removeTree (o.size + 1) id h
    fun n x hn => Nat.lt_succ_of_le (h.ownerAt_le_size hn)
  exact ⟨gone, hgone, hbelow, hmem i hi⟩

theorem WellFormed.delete {o o' : Objects} (h : o.WellFormed) {id : ObjectId}
    (hok : o.delete id = .ok o') : o'.WellFormed := by
  obtain ⟨gone, hgone, -, -⟩ := h.removed_delete hok
  exact hgone.wellFormed h

/-- The walks through the groups come to an end by themselves: with any larger bound than the number
of objects they go no further. -/
structure WalksEnd (o : Objects) : Prop where
  upwards : ∀ above id fuel, o.size < fuel → o.isAncestorFrom above fuel id = o.isAncestor above id
  downwards : ∀ id fuel, o.size < fuel → removeTree fuel id o = removeTree (o.size + 1) id o

theorem WellFormed.walksEnd {o : Objects} (h : o.WellFormed) : o.WalksEnd where
  upwards above id fuel hfuel := by
    rw [Bool.eq_iff_iff, h.isAncestor_iff, Forest.isAncestorFrom_iff]
    refine exists_congr fun n => ⟨fun hn => hn.2, fun hn => ⟨?_, hn⟩⟩
    have hle := h.ownerAt_le_size hn
    omega
  downwards id fuel hfuel :=
    removeTree_eq_of_le (Nat.succ_le_of_lt hfuel) id h
      fun n x hn => Nat.lt_succ_of_le (h.ownerAt_le_size hn)

end TorqueScript.Objects
