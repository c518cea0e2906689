import Mathlib.Logic.Relation
import TorqueScript.Proofs.Objects.Fates

/-!
What a deletion leaves. Each object goes after the children it has when its turn comes, and
each takes itself off its owner's list while the owner is being deleted. The recursion ends,
without a fault, when the object and all that is reached from it through lists of children
are gone; nothing else has changed but the list of the former owner.
-/

namespace TorqueScript.Objects

/-- The object `g` lists `c` among its children. -/
def Lists (o : Objects) (g c : ObjectId) : Prop :=
  ∃ i, o.instances.get? g = some i ∧ c ∈ i.children

/-- `id` is `top`, or is reached from it through lists of children. -/
def Descends (o : Objects) (top id : ObjectId) : Prop :=
  Relation.ReflTransGen o.Lists top id

/-- What the recursion does to the numbers of a list, without a bound on its depth. It goes on only
if an object is still there after its children. -/
inductive Deletes : Objects → List ObjectId → Objects → Prop
  | done (o : Objects) : Deletes o [] o
  | absent {o o' : Objects} {id : ObjectId} {rest : List ObjectId} :
      o.instances.get? id = none → Deletes o rest o' → Deletes o (id :: rest) o'
  | present {o o₁ o' : Objects} {id : ObjectId} {i i₁ : Instance} {rest : List ObjectId} :
      o.instances.get? id = some i → Deletes o i.children o₁ → o₁.instances.get? id = some i₁ →
      Deletes (o₁.removeOne id) rest o' → Deletes o (id :: rest) o'

theorem Deletes.unique {o o' o'' : Objects} {ids : List ObjectId} (h : Deletes o ids o')
    (h' : Deletes o ids o'') : o' = o'' := by
  induction h generalizing o'' with
  | done o =>
    cases h'
    rfl
  | absent hnone _ ih =>
    cases h' with
    | absent _ hrest => exact ih hrest
    | present hsome _ _ _ => rw [hnone] at hsome; cases hsome
  | present hsome _ _ _ ihchildren ihrest =>
    cases h' with
    | absent hnone _ => rw [hnone] at hsome; cases hsome
    | present hsome' hchildren _ hrest =>
      rw [hsome] at hsome'
      cases hsome'
      rw [← ihchildren hchildren] at hrest
      exact ihrest hrest

theorem removeTree_succ {o : Objects} {c : ObjectId} {i : Instance}
    (hi : o.instances.get? c = some i) (fuel : Nat) :
    removeTree (fuel + 1) c o =
      (i.children.foldl (fun o c => removeTree fuel c o) o).removeOne c := by
  simp [removeTree, hi]

/-- An object that is removed is there until its children are gone. Chains that lead to them are
shorter, and what is left has no longer ones. -/
theorem WellFormed.outlives_children {o : Objects} (h : o.WellFormed) {fuel : Nat} {c : ObjectId}
    {i : Instance} (hi : o.instances.get? c = some i)
    (hc : ∀ n x, o.ownerAt n x = some c → n < fuel + 1) :
    (∀ d ∈ i.children, ∀ n x, o.ownerAt n x = some d → n < fuel) ∧
    (∃ j, (i.children.foldl (fun o c => removeTree fuel c o) o).instances.get? c = some j) ∧
    (removeTree (fuel + 1) c o).WellFormed ∧
    ∀ n x y, (removeTree (fuel + 1) c o).ownerAt n x = some y → o.ownerAt n x = some y := by
  obtain ⟨gone, hgone, -, -⟩ := removed_removeTree (fuel + 1) c h hc
  have howner : ∀ d ∈ i.children, o.groupOf d = some c :=
    fun d hd => (h.owned d c).mpr ⟨i, hi, hd⟩
  refine ⟨fun d hd n x hn => ?_, ?_, hgone.wellFormed h,
    fun n x y hn => ownerAt_mono hgone.groupOf_mono hn⟩
  · have hlt := hc (n + 1) x ((Removed.refl o).ownerAt_succ (howner d hd) hn)
    omega
  · -- Its children take nothing with them but what lies below it.
    obtain ⟨less, hless, hbelow, -, -⟩ :=
      removed_foldl (removed_removeTree fuel) h hc i.children howner (Removed.refl o) (by simp)
    have hkept : c ∉ less := by
      intro hmem
      obtain ⟨n, hn⟩ := hbelow c hmem
      exact h.acyclic n c hn
    have hstill := hless.get?_of_notMem hkept
    rw [hi, Option.map_some] at hstill
    exact ⟨_, hstill⟩

/-- A bound above the length of every chain that leads to one of the objects is not felt. -/
theorem deletes_foldl (fuel : Nat) (ids : List ObjectId) {o : Objects} (h : o.WellFormed)
    (hfuel : ∀ c ∈ ids, ∀ n x, o.ownerAt n x = some c → n < fuel) :
    Deletes o ids (ids.foldl (fun o c => removeTree fuel c o) o) := by
  induction fuel generalizing ids o with
  | zero =>
    cases ids with
    | nil => exact .done o
    | cons c rest =>
      have hlt := hfuel c (List.mem_cons_self ..) 0 c rfl
      omega
  | succ fuel ih =>
    induction ids generalizing o with
    | nil => exact .done o
    | cons c rest ihrest =>
      have hc := hfuel c (List.mem_cons_self ..)
      have hrest : ∀ d ∈ rest, ∀ n x, o.ownerAt n x = some d → n < fuel + 1 :=
        fun d hd => hfuel d (List.mem_cons_of_mem _ hd)
      rw [List.foldl_cons]
      cases hi : o.instances.get? c with
      | none =>
        have hsame : removeTree (fuel + 1) c o = o := by simp [removeTree, hi]
        rw [hsame]
        exact .absent hi (ihrest h hrest)
      | some i =>
        obtain ⟨hchildren, ⟨j, hj⟩, hwell, hshorter⟩ := h.outlives_children hi hc
        -- What is left has no longer chains, so the bound serves the others as well.
        have hothers := ihrest hwell fun d hd n x hn => hrest d hd n x (hshorter n x d hn)
        rw [removeTree_succ hi] at hothers ⊢
        exact .present hi (ih i.children h hchildren) hj hothers

theorem WellFormed.deletes_iff {o o' : Objects} (h : o.WellFormed) {id : ObjectId}
    (hok : o.delete id = .ok o') (o'' : Objects) : Deletes o [id] o'' ↔ o'' = o' := by
  obtain ⟨-, rfl⟩ := delete_eq_ok.mp hok
  have hends : Deletes o [id] (removeTree (o.size + 1) id o) := by
    refine deletes_foldl (o.size + 1) [id] h fun c _ n x hn => ?_
    exact Nat.lt_succ_of_le (h.ownerAt_le_size hn)
  constructor
  · intro hother
    exact hother.unique hends
  · rintro rfl
    exact hends

theorem Forest.below_iff_descends {o : Objects} (h : o.Forest) (top id : ObjectId) :
    o.Below top id ↔ o.Descends top id := by
  constructor
  · rintro ⟨n, hn⟩
    induction n generalizing id with
    | zero =>
      rw [Option.some.inj hn]
      exact .refl
    | succ n ih =>
      obtain ⟨g, hg, hrest⟩ := Option.bind_eq_some_iff.mp hn
      exact (ih g hrest).tail ((h.owned id g).mp hg)
  · intro hdescends
    induction hdescends with
    | refl => exact ⟨0, rfl⟩
    | @tail g c _ hlists ih =>
      obtain ⟨n, hn⟩ := ih
      refine ⟨n + 1, ?_⟩
      rw [ownerAt_succ, (h.owned c g).mpr hlists]
      exact hn

/-- A deletion succeeds and removes exactly the object and its descendants. -/
theorem WellFormed.exists_delete {o : Objects} (h : o.WellFormed) {id : ObjectId} {i : Instance}
    (hi : o.instances.get? id = some i) :
    ∃ o' gone, o.delete id = .ok o' ∧ Removed o o' gone ∧ ∀ x, x ∈ gone ↔ o.Descends id x := by
  have hok := delete_eq_ok.mpr ⟨⟨i, hi⟩, rfl⟩
  obtain ⟨gone, hgone, hbelow, hid⟩ := h.removed_delete hok
  refine ⟨_, gone, hok, hgone, fun x => ?_⟩
  rw [← h.below_iff_descends]
  exact ⟨hbelow x, hgone.closed.mem_of_below hid⟩

/-- Of what an object that is left lists as children, only the deleted object itself can be gone. -/
theorem WellFormed.without_descendants {o : Objects} (h : o.WellFormed) {id x : ObjectId}
    {i j : Instance} {gone : List ObjectId} (hgone : ∀ y, y ∈ gone ↔ o.Descends id y)
    (hi : o.instances.get? id = some i) (hj : o.instances.get? x = some j) (hx : x ∉ gone) :
    without gone j =
      if i.group = some x then { j with children := j.children.filter (· ≠ id) } else j := by
  have hmem : ∀ c ∈ j.children, c ∈ gone ↔ c = id := by
    intro c hc
    rw [hgone]
    constructor
    · intro hdescends
      rcases Relation.ReflTransGen.cases_tail hdescends with rfl | ⟨g, hg, hlists⟩
      · rfl
      · -- The owner of `c` would be a descendant too, but it is left.
        have hcx := (h.owned c x).mpr ⟨j, hj, hc⟩
        rw [(h.owned c g).mpr hlists] at hcx
        cases hcx
        exact absurd ((hgone _).mpr hg) hx
    · rintro rfl
      exact .refl
  have hfilter : j.children.filter (· ∉ gone) = j.children.filter (· ≠ id) :=
    List.filter_congr fun c hc => by simp [hmem c hc]
  have hlisted : i.group = some x ↔ id ∈ j.children := by
    rw [← groupOf_eq hi, h.owned]
    simp [hj]
  rw [without, hfilter]
  split
  · rfl
  · rename_i hgroup
    have hself : j.children.filter (· ≠ id) = j.children := by
      rw [List.filter_eq_self]
      intro c hc
      have hne : c ≠ id := by
        rintro rfl
        exact hgroup (hlisted.mpr hc)
      simpa using hne
    rw [hself]

/-- Deleting an object that is there succeeds after any history, and the recursion ends by itself.
The objects that are gone then are the object and its descendants through lists of children. All
others are as they were, but that the former owner no longer lists the object and keeps the
order of the rest. The names of the objects that are gone, and no others, are free again and
retired; all other names lead where they led. -/
theorem delete_removes_descendants (caseSensitive : Bool) (ops : List Operation) {id : ObjectId}
    {i : Instance} (hlive : ((new caseSensitive).run ops).instances.get? id = some i) :
    let o := (new caseSensitive).run ops
    let released := fun n =>
      ∃ x j, o.Descends id x ∧ o.instances.get? x = some j ∧ j.name.map o.fold = some n
    ∃ o', o.delete id = .ok o' ∧ (∀ o'', Deletes o [id] o'' ↔ o'' = o') ∧
      (∀ x, o.instances.get? x = none → o'.instances.get? x = none) ∧
      (∀ x j, o.instances.get? x = some j →
        (o'.instances.get? x = none ↔ o.Descends id x)) ∧
      (∀ x j, o.instances.get? x = some j → ¬ o.Descends id x →
        o'.instances.get? x = some (if i.group = some x then
          { j with children := j.children.filter (· ≠ id) } else j)) ∧
      (∀ n x, o'.names.get? n = some x ↔ o.names.get? n = some x ∧ ¬ o.Descends id x) ∧
      (∀ n, (o.names.contains n = true ∧ o'.names.contains n = false) ↔ released n) ∧
      (∀ n, n ∈ o'.retired ↔ n ∈ o.retired ∨ released n) ∧
      o'.nextId = o.nextId ∧ o'.caseSensitive = o.caseSensitive ∧ o'.classes = o.classes := by
  intro o released
  have ho : o.WellFormed := (wellFormed_new caseSensitive).run ops
  obtain ⟨o', gone, hok, hgone, hmem⟩ := ho.exists_delete hlive
  have hnames : ∀ n x, o'.names.get? n = some x ↔ o.names.get? n = some x ∧ ¬ o.Descends id x := by
    intro n x
    rw [hgone.names, Option.filter_eq_some_iff, ← hmem]
    simp
  have hreleased : ∀ n, released n ↔ ∃ x, o.names.get? n = some x ∧ o.Descends id x := by
    intro n
    simp only [released, ho.named]
    constructor
    · rintro ⟨x, j, hdescends, hj⟩
      exact ⟨x, ⟨j, hj⟩, hdescends⟩
    · rintro ⟨x, ⟨j, hj⟩, hdescends⟩
      exact ⟨x, j, hdescends, hj⟩
  refine ⟨o', hok, ho.deletes_iff hok, fun x hx => ?_, fun x j hj => ?_, fun x j hj hx => ?_,
    hnames, fun n => ?_, fun n => ?_, hgone.nextId, hgone.caseSensitive, hgone.classes⟩
  · rw [hgone.instances, hx]
    simp
  · rw [hgone.instances, hj, ← hmem]
    simp
  · have hkept : x ∉ gone := fun hgoneX => hx ((hmem x).mp hgoneX)
    rw [hgone.get?_of_notMem hkept, hj, Option.map_some,
      ho.without_descendants hmem hlive hj hkept]
  · rw [hreleased, Table.contains_iff, ← Bool.not_eq_true, Table.contains_iff]
    constructor
    · rintro ⟨⟨x, hx⟩, hfree⟩
      refine ⟨x, hx, ?_⟩
      by_contra hdescends
      exact hfree ⟨x, (hnames n x).mpr ⟨hx, hdescends⟩⟩
    · rintro ⟨x, hx, hdescends⟩
      refine ⟨⟨x, hx⟩, ?_⟩
      rintro ⟨y, hy⟩
      obtain ⟨hyx, hkept⟩ := (hnames n y).mp hy
      rw [hx] at hyx
      cases hyx
      exact hkept hdescends
  · rw [hreleased, hgone.retired]
    simp only [hmem, and_comm]

/-- A camp with a tent is deleted; its owner keeps its other child. -/
theorem delete_removes_descendants_camp :
    let o := (new false).run
      [.instantiate "SimSet" (some "Base") none false,
        .instantiate "SimSet" (some "Camp") none false,
        .instantiate "SimSet" (some "Tent") none false, .instantiate "SimSet" none none false,
        .addChild 1 2, .addChild 1 4, .addChild 2 3]
    ∃ i o', o.instances.get? 2 = some i ∧ o.delete 2 = .ok o' ∧ Deletes o [2] o' ∧
      o'.instances.get? 2 = none ∧ o'.instances.get? 3 = none ∧
      (o'.instances.get? 1).map Instance.children = some [4] ∧
      o'.names.get? "base" = some 1 ∧ o'.names.contains "tent" = false ∧ "tent" ∈ o'.retired := by
  intro o
  have ho : o.WellFormed := (wellFormed_new false).run _
  have hlists : ∀ {g c : ObjectId}, o.groupOf c = some g → o.Lists g c := fun hg =>
    (ho.owned _ _).mp hg
  have htent : o.Descends 2 3 := .single (hlists (by decide))
  have hbase : ¬ o.Descends 2 1 := by
    intro hdescends
    rcases Relation.ReflTransGen.cases_tail hdescends with heq | ⟨g, -, hg⟩
    · cases heq
    · have hnone : o.groupOf 1 = none := by decide
      rw [(ho.owned 1 g).mpr hg] at hnone
      cases hnone
  obtain ⟨i, hi⟩ : ∃ i, o.instances.get? 2 = some i := Option.isSome_iff_exists.mp (by decide)
  obtain ⟨j, hj⟩ : ∃ j, o.instances.get? 1 = some j := Option.isSome_iff_exists.mp (by decide)
  obtain ⟨k, hk⟩ : ∃ k, o.instances.get? 3 = some k := Option.isSome_iff_exists.mp (by decide)
  have hgroup : i.group = some 1 := by
    rw [← groupOf_eq hi]
    decide
  have hchildren : j.children = [2, 4] := by
    have hlist : (o.instances.get? 1).map Instance.children = some [2, 4] := by decide
    simpa [hj] using hlist
  have hname : k.name.map o.fold = some "tent" := by
    have hthird : (o.instances.get? 3).map (fun k => k.name.map o.fold) = some (some "tent") := by
      decide
    simpa [hk] using hthird
  obtain ⟨o', hok, hends, -, hgone, hleft, hnames, hfree, hretired, -⟩ :=
    delete_removes_descendants false _ hi
  refine ⟨i, o', hi, hok, (hends o').mpr rfl, (hgone 2 i hi).mpr .refl,
    (hgone 3 k hk).mpr htent, ?_, (hnames _ _).mpr ⟨by decide, hbase⟩,
    ((hfree _).mpr ⟨3, k, htent, hk, hname⟩).2, (hretired _).mpr (Or.inr ⟨3, k, htent, hk, hname⟩)⟩
  rw [hleft 1 j hj hbase, if_pos hgroup, hchildren]
  rfl

end TorqueScript.Objects
