import Mathlib.Data.List.Chain
import Mathlib.Data.List.Induction
import Mathlib.Data.List.Perm.Subperm
import Mathlib.Logic.Relation
import TorqueScript.Proofs.Objects.Fates

/-!
The chain of classes that methods are searched in. Hosts can register any links between
classes, cycles included, so the walk stops before a class that it has met. It ends by itself:
apart from registered classes it meets at most two others, because after a class that is not
registered comes one that always is. The classes it meets are exactly those that are reached
from the first one by the links.
-/

namespace TorqueScript.Objects

/-- The classes that a history registers, each with its parent. -/
def registrations (ops : List Operation) : List (String × Option String) :=
  ops.filterMap fun
    | .registerClass name parent => some (name, parent)
    | _ => none

/-- The last registration of a class, under any spelling of its name. -/
def lastRegistration (caseSensitive : Bool) (calls : List (String × Option String))
    (name : String) : Option (String × Option String) :=
  calls.reverse.find? fun c => decide (foldName caseSensitive c.1 = foldName caseSensitive name)

/-- The spelling of a class: that of its last registration, or the given one. -/
def classSpelling (caseSensitive : Bool) (calls : List (String × Option String))
    (name : String) : String :=
  ((lastRegistration caseSensitive calls name).map Prod.fst).getD name

/-- The class that follows a class: the parent it was last registered with, or for one that is not
registered the class above all those. -/
def classAfter (caseSensitive : Bool) (calls : List (String × Option String))
    (isDatablock : Bool) (name : String) : Option String :=
  ((lastRegistration caseSensitive calls name).map Prod.snd).getD
    (some (if isDatablock then "SimDataBlock" else "SimObject"))

/-- The table that registrations make. -/
def classTable (caseSensitive : Bool) (calls : List (String × Option String)) :
    Table String ClassInfo :=
  calls.foldl (fun t c => t.insert (foldName caseSensitive c.1) ⟨c.1, c.2⟩) ∅

theorem get?_classTable (caseSensitive : Bool) (calls : List (String × Option String))
    (name : String) :
    (classTable caseSensitive calls).get? (foldName caseSensitive name) =
      (lastRegistration caseSensitive calls name).map fun c => ⟨c.1, c.2⟩ := by
  induction calls using List.reverseRecOn with
  | nil => rfl
  | append_singleton calls c ih =>
    unfold classTable lastRegistration at ih ⊢
    rw [List.foldl_concat, Table.get?_insert, ih, List.reverse_concat, List.find?_cons]
    by_cases hc : foldName caseSensitive c.1 = foldName caseSensitive name
    · simp [hc]
    · simp [hc]

theorem fold_eq_of_lastRegistration {caseSensitive : Bool} {calls : List (String × Option String)}
    {name : String} {c : String × Option String}
    (h : lastRegistration caseSensitive calls name = some c) :
    foldName caseSensitive c.1 = foldName caseSensitive name := by
  simpa using List.find?_some h

theorem WellFormed.classes_step {o : Objects} (h : o.WellFormed) (op : Operation) :
    (o.step op).classes = (registrations [op]).foldl
      (fun t c => t.insert (o.fold c.1) ⟨c.1, c.2⟩) o.classes := by
  have hupdate : ∀ (o : Objects) (id : ObjectId) (f : Instance → Instance),
      (o.update id f).classes = o.classes := by
    intro o id f
    rw [update_frame]
  have hdetach : ∀ (o : Objects) (child : ObjectId), (o.detach child).classes = o.classes := by
    intro o child
    rw [detach_frame]
  unfold Objects.step
  split
  · rename_i o' hok
    cases op with
    | registerClass name parent =>
      cases hok
      rfl
    | instantiate className name parent isDatablock =>
      cases hmade : o.instantiate className name parent isDatablock with
      | error fault => simp [Objects.apply, hmade, Except.map] at hok
      | ok made =>
        obtain rfl : made.2 = o' := by
          simpa [Objects.apply, hmade, Except.map] using hok
        obtain ⟨-, -, -, hcreated⟩ := instantiate_eq_ok.mp hmade
        rw [hcreated]
        rfl
    | setField id name value =>
      obtain ⟨-, rfl⟩ := setField_eq_ok.mp hok
      exact hupdate ..
    | addChild group child =>
      obtain ⟨-, -, rfl⟩ := addChild_eq_ok.mp hok
      split
      · rfl
      · rw [hupdate, hupdate, hdetach]
        rfl
    | removeChild group child =>
      obtain ⟨i, -, rfl⟩ := removeChild_eq_ok.mp hok
      split
      · exact hdetach ..
      · rfl
    | delete id =>
      obtain ⟨gone, hgone, -, -⟩ := h.removed_delete hok
      exact hgone.classes
  · rename_i fault hfailed
    cases op with
    | registerClass name parent => cases hfailed
    | _ => rfl

theorem fold_run (caseSensitive : Bool) (ops : List Operation) (name : String) :
    ((new caseSensitive).run ops).fold name = foldName caseSensitive name := by
  rw [fold, caseSensitive_run]
  rfl

theorem classes_run (caseSensitive : Bool) (ops : List Operation) :
    ((new caseSensitive).run ops).classes =
      classTable caseSensitive (standardClasses ++ registrations ops) := by
  induction ops using List.reverseRecOn with
  | nil => rfl
  | append_singleton ops op ih =>
    have hwell := (wellFormed_new caseSensitive).run ops
    have hregistrations : registrations (ops ++ [op]) = registrations ops ++ registrations [op] :=
      List.filterMap_append
    rw [run_concat, hwell.classes_step op, ih, hregistrations]
    simp only [fold_run, classTable, List.foldl_append]

/-- What the walk over the classes rests on: a class is stored under its own name, and the two that
follow classes which are not registered are registered themselves. -/
structure ClassesStored (o : Objects) : Prop where
  spelled : ∀ name info, o.classes.get? (o.fold name) = some info → o.fold info.name = o.fold name
  root : o.isClass rootClass = true
  datablock : o.isClass datablockClass = true

section Walk

variable {o : Objects} {isDatablock : Bool}

theorem classStep_congr {a b : String} (h : o.fold a = o.fold b) :
    (o.classStep isDatablock a).2 = (o.classStep isDatablock b).2 := by
  unfold classStep
  rw [h]
  split <;> rfl

theorem ClassesStored.fold_spelling (h : o.ClassesStored) (isDatablock : Bool) (name : String) :
    o.fold (o.classStep isDatablock name).1 = o.fold name := by
  unfold classStep
  split
  · rename_i info hinfo
    exact h.spelled name info hinfo
  · rfl

/-- The loop over the classes, without a bound: the chain so far, the class it has come to, and the
chain that it ends with. -/
inductive ClassLoop (o : Objects) (isDatablock : Bool) :
    List String → Option String → List String → Prop
  | ended (chain : List String) : ClassLoop o isDatablock chain none chain
  | repeated {chain : List String} {name : String} :
      (∃ c ∈ chain, o.fold c = o.fold name) → ClassLoop o isDatablock chain (some name) chain
  | next {chain result : List String} {name : String} :
      (∀ c ∈ chain, o.fold c ≠ o.fold name) →
      ClassLoop o isDatablock (chain ++ [(o.classStep isDatablock name).1])
        (o.classStep isDatablock name).2 result →
      ClassLoop o isDatablock chain (some name) result

theorem ClassLoop.unique {chain result result' : List String} {current : Option String}
    (h : ClassLoop o isDatablock chain current result)
    (h' : ClassLoop o isDatablock chain current result') : result = result' := by
  induction h with
  | ended chain =>
    cases h'
    rfl
  | repeated hmet =>
    obtain ⟨c, hc, hfold⟩ := hmet
    cases h' with
    | repeated _ => rfl
    | next hnew _ => exact absurd hfold (hnew c hc)
  | next hnew _ ih =>
    cases h' with
    | repeated hmet =>
      obtain ⟨c, hc, hfold⟩ := hmet
      exact absurd hfold (hnew c hc)
    | next _ hrest => exact ih hrest

/-- The class `b` follows `a` in a chain, in its registered spelling. -/
def FollowsClass (o : Objects) (isDatablock : Bool) (a b : String) : Prop :=
  ∃ next, (o.classStep isDatablock a).2 = some next ∧ b = (o.classStep isDatablock next).1

theorem classChainFrom_visited {visited : List String} {name : String}
    (h : o.fold name ∈ visited) (fuel : Nat) :
    o.classChainFrom isDatablock fuel visited name = [] := by
  cases fuel with
  | zero => rfl
  | succ fuel => simp [classChainFrom, h]

theorem classChainFrom_last {visited : List String} {name : String}
    (h : o.fold name ∉ visited) (hlast : (o.classStep isDatablock name).2 = none) (fuel : Nat) :
    o.classChainFrom isDatablock (fuel + 1) visited name = [(o.classStep isDatablock name).1] := by
  simp [classChainFrom, h, hlast]

theorem classChainFrom_next {visited : List String} {name next : String}
    (h : o.fold name ∉ visited) (hnext : (o.classStep isDatablock name).2 = some next)
    (fuel : Nat) :
    o.classChainFrom isDatablock (fuel + 1) visited name =
      (o.classStep isDatablock name).1 ::
        o.classChainFrom isDatablock fuel (o.fold name :: visited) next := by
  simp [classChainFrom, h, hnext]

/-- A walk meets no class twice, nor one that was met before it, and each class follows from the one
before it. -/
structure Walked (o : Objects) (isDatablock : Bool) (visited : List String) (name : String)
    (chain : List String) : Prop where
  first : ∀ c ∈ chain.head?, c = (o.classStep isDatablock name).1
  linked : chain.IsChain (o.FollowsClass isDatablock)
  unvisited : ∀ c ∈ chain, o.fold c ∉ visited
  nodup : (chain.map o.fold).Nodup

theorem ClassesStored.walked (h : o.ClassesStored) (isDatablock : Bool) (fuel : Nat)
    (visited : List String) (name : String) :
    o.Walked isDatablock visited name (o.classChainFrom isDatablock fuel visited name) := by
  induction fuel generalizing visited name with
  | zero =>
    rw [classChainFrom]
    exact ⟨by simp, .nil, by simp, by simp⟩
  | succ fuel ih =>
    by_cases hmet : o.fold name ∈ visited
    · rw [classChainFrom_visited hmet]
      exact ⟨by simp, .nil, by simp, by simp⟩
    · have hspelling := h.fold_spelling isDatablock name
      cases hnext : (o.classStep isDatablock name).2 with
      | none =>
        rw [classChainFrom_last hmet hnext]
        exact ⟨by simp, .singleton _, by simpa [hspelling] using hmet, by simp⟩
      | some next =>
        rw [classChainFrom_next hmet hnext]
        obtain ⟨hfirst, hlinked, hunvisited, hnodup⟩ := ih (o.fold name :: visited) next
        refine ⟨by simp, ?_, ?_, ?_⟩
        · refine List.isChain_cons.mpr ⟨fun c hc => ⟨next, ?_, hfirst c hc⟩, hlinked⟩
          rw [classStep_congr hspelling, hnext]
        · intro c hc
          rcases List.mem_cons.mp hc with rfl | hc
          · rw [hspelling]
            exact hmet
          · exact fun hvisited => hunvisited c hc (List.mem_cons_of_mem _ hvisited)
        · rw [List.map_cons, List.nodup_cons, hspelling]
          refine ⟨fun hagain => ?_, hnodup⟩
          obtain ⟨c, hc, hfold⟩ := List.mem_map.mp hagain
          exact hunvisited c hc (by rw [hfold]; exact List.mem_cons_self)

/-- The class that follows all those that are not registered. -/
def classAbove (isDatablock : Bool) : String :=
  if isDatablock then datablockClass else rootClass

theorem ClassesStored.registered_after (h : o.ClassesStored) {a b : String}
    (hfollows : o.FollowsClass isDatablock a b) (ha : o.isClass a = false) :
    o.isClass b = true ∧ o.fold b = o.fold (classAbove isDatablock) := by
  obtain ⟨next, hnext, rfl⟩ := hfollows
  have hnone : o.classes.get? (o.fold a) = none := by
    simpa [isClass, Table.contains] using ha
  have habove : next = classAbove isDatablock := by
    simpa [classStep, hnone, classAbove, eq_comm] using hnext
  have hfold := h.fold_spelling isDatablock next
  rw [habove] at hfold ⊢
  refine ⟨?_, hfold⟩
  unfold isClass
  rw [hfold]
  cases isDatablock with
  | true => exact h.datablock
  | false => exact h.root

/-- The same class comes after each one that is not registered, and it is registered itself. -/
theorem ClassesStored.unregistered_le (h : o.ClassesStored) {chain : List String}
    (hlinked : chain.IsChain (o.FollowsClass isDatablock)) :
    chain.countP (fun c => !o.isClass c) ≤
      (chain.map o.fold).count (o.fold (classAbove isDatablock)) + 1 := by
  induction chain using List.twoStepInduction with
  | nil => simp
  | singleton a =>
    have hle := List.countP_le_length (p := fun c => !o.isClass c) (l := [a])
    simp only [List.length_singleton] at hle
    omega
  | cons_cons a b rest ih ihb =>
    obtain ⟨hab, hb⟩ := List.isChain_cons_cons.mp hlinked
    rw [List.map_cons, List.count_cons]
    cases ha : o.isClass a with
    | true =>
      have hle := ihb b hb
      rw [List.countP_cons_of_neg (by simp [ha])]
      omega
    | false =>
      obtain ⟨hclass, habove⟩ := h.registered_after hab ha
      have hle := ih hb.tail
      rw [List.countP_cons_of_pos (by simp [ha]), List.countP_cons_of_neg (by simp [hclass])]
      rw [List.map_cons, habove, List.count_cons_self]
      omega

theorem ClassesStored.length_le (h : o.ClassesStored) {visited : List String} {name : String}
    {chain : List String} (hwalked : o.Walked isDatablock visited name chain) :
    chain.length ≤ o.classes.size + 2 := by
  -- The registered ones have different keys of the table.
  have hregistered : chain.countP o.isClass ≤ o.classes.size := by
    have hkeys : ((chain.filter o.isClass).map o.fold).Nodup :=
      hwalked.nodup.sublist (List.filter_sublist.map o.fold)
    have hsubset : (chain.filter o.isClass).map o.fold ⊆ o.classes.entries.map Prod.fst := by
      intro k hk
      obtain ⟨c, hc, rfl⟩ := List.mem_map.mp hk
      obtain ⟨info, hinfo⟩ := (Table.contains_iff _ _).mp (List.mem_filter.mp hc).2
      exact Table.mem_keys_of_get? hinfo
    have hlength := (List.subperm_of_subset hkeys hsubset).length_le
    rw [List.countP_eq_length_filter]
    simpa [Table.size] using hlength
  have hunregistered := h.unregistered_le hwalked.linked
  have honce := List.nodup_iff_count_le_one.mp hwalked.nodup (o.fold (classAbove isDatablock))
  have hsplit := List.length_eq_countP_add_countP o.isClass (l := chain)
  simp only [Bool.not_eq_true, Bool.decide_eq_false] at hsplit
  omega

/-- A bounded walk that is shorter than its bound is the loop without a bound. -/
theorem ClassesStored.classLoop (h : o.ClassesStored) (isDatablock : Bool) (fuel : Nat)
    (visited chain : List String) (name : String)
    (hvisited : ∀ x, x ∈ visited ↔ x ∈ chain.map o.fold)
    (hlength : (o.classChainFrom isDatablock fuel visited name).length < fuel) :
    ClassLoop o isDatablock chain (some name)
      (chain ++ o.classChainFrom isDatablock fuel visited name) := by
  induction fuel generalizing visited chain name with
  | zero => omega
  | succ fuel ih =>
    by_cases hmet : o.fold name ∈ visited
    · rw [classChainFrom_visited hmet, List.append_nil]
      exact .repeated (List.mem_map.mp ((hvisited _).mp hmet))
    · rw [hvisited] at hmet
      refine .next (fun c hc hfold => hmet (List.mem_map.mpr ⟨c, hc, hfold⟩)) ?_
      rw [← hvisited] at hmet
      cases hnext : (o.classStep isDatablock name).2 with
      | none =>
        rw [classChainFrom_last hmet hnext]
        exact .ended _
      | some next =>
        rw [classChainFrom_next hmet hnext] at hlength ⊢
        rw [List.append_cons chain _ (o.classChainFrom isDatablock fuel _ next)]
        refine ih (o.fold name :: visited) _ next (fun x => ?_) (by simpa using hlength)
        rw [List.map_append, List.map_singleton, h.fold_spelling, List.mem_append, List.mem_cons,
          List.mem_singleton, hvisited, or_comm]

theorem ClassesStored.classLoop_iff (h : o.ClassesStored) (isDatablock : Bool) (name : String)
    (result : List String) :
    ClassLoop o isDatablock [] (some name) result ↔ result = o.classChain name isDatablock := by
  have hlength := h.length_le (h.walked isDatablock (o.classes.size + 3) [] name)
  have hends := h.classLoop isDatablock (o.classes.size + 3) [] [] name (by simp)
    (by omega)
  rw [List.nil_append] at hends
  constructor
  · intro hloop
    exact hloop.unique hends
  · intro hresult
    rw [hresult]
    exact hends

/-- The loop stops where there is no class to go on with, or only one that it has met. -/
theorem ClassLoop.stops (h : o.ClassesStored) {chain result : List String}
    {current : Option String} (hloop : ClassLoop o isDatablock chain current result)
    (hcurrent : ∀ a ∈ chain.getLast?, (o.classStep isDatablock a).2 = current) {a : String}
    (ha : a ∈ result.getLast?) {next : String} (hnext : (o.classStep isDatablock a).2 = some next) :
    ∃ c ∈ result, o.fold c = o.fold next := by
  induction hloop with
  | ended chain =>
    have hnone := hcurrent a ha
    rw [hnext] at hnone
    cases hnone
  | repeated hmet =>
    have hsome := hcurrent a ha
    rw [hnext] at hsome
    cases hsome
    exact hmet
  | @next chain result name hnew hrest ih =>
    refine ih (fun b hb => ?_) ha
    rw [List.getLast?_concat] at hb
    cases hb
    exact classStep_congr (h.fold_spelling isDatablock name)

theorem ClassesStored.walked_classChain (h : o.ClassesStored) (isDatablock : Bool)
    (name : String) :
    o.Walked isDatablock [] name (o.classChain name isDatablock) :=
  h.walked isDatablock (o.classes.size + 3) [] name

theorem head?_classChain (o : Objects) (name : String) (isDatablock : Bool) :
    (o.classChain name isDatablock).head? = some (o.classStep isDatablock name).1 := by
  simp [classChain, classChainFrom]

theorem ClassesStored.follows (h : o.ClassesStored) {name a b : String}
    {before rest : List String}
    (hsplit : o.classChain name isDatablock = before ++ a :: b :: rest) :
    ∃ next, (o.classStep isDatablock a).2 = some next ∧ b = (o.classStep isDatablock next).1 := by
  have hlinked := (h.walked_classChain isDatablock name).linked
  rw [hsplit] at hlinked
  exact (List.isChain_cons_cons.mp hlinked.right_of_append).1

/-- What follows a class of a chain is in the chain too. -/
theorem ClassesStored.closed (h : o.ClassesStored) {name c next : String}
    (hc : c ∈ o.classChain name isDatablock) (hnext : (o.classStep isDatablock c).2 = some next) :
    ∃ b ∈ o.classChain name isDatablock, o.fold b = o.fold next := by
  obtain ⟨before, rest, hsplit⟩ := List.append_of_mem hc
  cases rest with
  | nil =>
    have hloop := (h.classLoop_iff isDatablock name _).mpr rfl
    exact hloop.stops h (by simp) (by rw [hsplit, List.getLast?_concat]; rfl) hnext
  | cons b rest =>
    obtain ⟨next', hnext', hb⟩ := h.follows hsplit
    rw [hnext] at hnext'
    cases hnext'
    refine ⟨b, by rw [hsplit]; simp, ?_⟩
    rw [hb, h.fold_spelling]

/-- A chain ends with the first class that only leads back into it, or nowhere. -/
theorem ClassesStored.ends_iff (h : o.ClassesStored) {name a : String} {before rest : List String}
    (hsplit : o.classChain name isDatablock = before ++ a :: rest) :
    rest = [] ↔ ∀ next, (o.classStep isDatablock a).2 = some next →
      o.fold next ∈ (before ++ [a]).map o.fold := by
  constructor
  · intro hrest next hnext
    subst hrest
    have ha : a ∈ o.classChain name isDatablock := by simp [hsplit]
    obtain ⟨b, hb, hfold⟩ := h.closed ha hnext
    rw [← hsplit, ← hfold]
    exact List.mem_map_of_mem hb
  · intro hback
    cases rest with
    | nil => rfl
    | cons b rest =>
      -- The class after `a` would be in the chain twice.
      exfalso
      obtain ⟨next, hnext, hb⟩ := h.follows hsplit
      have hfold : o.fold b = o.fold next := by rw [hb, h.fold_spelling]
      have hnodup := (h.walked_classChain isDatablock name).nodup
      rw [hsplit, List.append_cons, List.map_append, List.map_cons, hfold] at hnodup
      exact List.disjoint_of_nodup_append hnodup (hback next hnext) List.mem_cons_self

/-- The classes of a chain are those that the links lead to. -/
theorem ClassesStored.mem_classChain_iff (h : o.ClassesStored) (isDatablock : Bool)
    (name c : String) :
    (∃ b ∈ o.classChain name isDatablock, o.fold b = o.fold c) ↔
      ∃ d, Relation.ReflTransGen (fun a b => (o.classStep isDatablock a).2 = some b) name d ∧
        o.fold d = o.fold c := by
  have hhead := head?_classChain o name isDatablock
  constructor
  · intro hmem
    obtain ⟨b, hb, hfold⟩ := hmem
    rw [← hfold]
    have hlinked := (h.walked_classChain isDatablock name).linked
    refine hlinked.induction (fun b => ∃ d, Relation.ReflTransGen
      (fun a b => (o.classStep isDatablock a).2 = some b) name d ∧ o.fold d = o.fold b) _ ?_ ?_ b hb
    · intro x y hfollows hx
      obtain ⟨next, hnext, rfl⟩ := hfollows
      obtain ⟨d, hd, hdx⟩ := hx
      rw [← classStep_congr hdx] at hnext
      exact ⟨next, hd.tail hnext, (h.fold_spelling isDatablock next).symm⟩
    · intro hne
      rw [List.head?_eq_some_head hne, Option.some.injEq] at hhead
      refine ⟨name, .refl, ?_⟩
      rw [hhead, h.fold_spelling]
  · intro hreached
    obtain ⟨d, hd, hfold⟩ := hreached
    rw [← hfold]
    clear hfold
    induction hd with
    | refl => exact ⟨_, List.mem_of_mem_head? hhead, h.fold_spelling isDatablock name⟩
    | @tail d e _ hnext ih =>
      obtain ⟨b, hb, hbd⟩ := ih
      exact h.closed hb ((classStep_congr hbd).trans hnext)

theorem isMemberOfClass_eq {id : ObjectId} {i : Instance} (hi : o.instances.get? id = some i)
    (name : String) :
    o.isMemberOfClass id name =
      .ok ((o.classChain i.className i.isDatablock).any fun c => o.fold c == o.fold name) := by
  rw [isMemberOfClass, get, hi]
  rfl

end Walk

theorem get?_classes_run (caseSensitive : Bool) (ops : List Operation) (name : String) :
    ((new caseSensitive).run ops).classes.get? (foldName caseSensitive name) =
      (lastRegistration caseSensitive (standardClasses ++ registrations ops) name).map
        fun c => ⟨c.1, c.2⟩ := by
  rw [classes_run, get?_classTable]

theorem classStep_run (caseSensitive : Bool) (ops : List Operation) (isDatablock : Bool)
    (name : String) :
    ((new caseSensitive).run ops).classStep isDatablock name =
      (classSpelling caseSensitive (standardClasses ++ registrations ops) name,
        classAfter caseSensitive (standardClasses ++ registrations ops) isDatablock name) := by
  unfold classStep classSpelling classAfter
  rw [fold_run, get?_classes_run]
  cases lastRegistration caseSensitive (standardClasses ++ registrations ops) name with
  | none => rfl
  | some c => rfl

theorem classesStored_run (caseSensitive : Bool) (ops : List Operation) :
    ((new caseSensitive).run ops).ClassesStored := by
  have hstandard : ∀ c ∈ standardClasses, ((new caseSensitive).run ops).isClass c.1 = true := by
    intro c hc
    rw [isClass, Table.contains, fold_run, get?_classes_run, Option.isSome_map, lastRegistration,
      List.find?_isSome]
    exact ⟨c, by simp [hc], by simp⟩
  refine ⟨?_, ?_, ?_⟩
  · intro name info hinfo
    rw [fold_run, get?_classes_run] at hinfo
    obtain ⟨c, hc, rfl⟩ := Option.map_eq_some_iff.mp hinfo
    rw [fold_run, fold_run]
    exact fold_eq_of_lastRegistration hc
  · exact hstandard ("SimObject", none) (by decide)
  · exact hstandard ("SimDataBlock", some "SimObject") (by decide)

/-- The chain of a class after any history. The loop that makes it ends, with this chain and no
other. No two of its classes have the same name. The first is the given class, and each later one
is what follows the class before it: its parent, or the root of all objects or of all datablocks
if it is not registered. The chain ends exactly with the first class that has no parent, or that
is followed by a class of the chain. So an object is a member of exactly those classes that are
reached from its own by these links. -/
theorem class_chain_walks_links (caseSensitive : Bool) (ops : List Operation) :
    let o := (new caseSensitive).run ops
    let spelling := classSpelling caseSensitive (standardClasses ++ registrations ops)
    let after := classAfter caseSensitive (standardClasses ++ registrations ops)
    (∀ (name : String) (isDatablock : Bool),
      let chain := o.classChain name isDatablock
      (∀ result, ClassLoop o isDatablock [] (some name) result ↔ result = chain) ∧
      (chain.map o.fold).Nodup ∧
      (chain.head? = some (spelling name) ∧ o.fold (spelling name) = o.fold name) ∧
      (∀ before a b rest, chain = before ++ a :: b :: rest →
        ∃ next, after isDatablock a = some next ∧ b = spelling next ∧ o.fold b = o.fold next) ∧
      ∀ before a rest, chain = before ++ a :: rest →
        (rest = [] ↔ after isDatablock a = none ∨
          ∃ next, after isDatablock a = some next ∧ o.fold next ∈ (before ++ [a]).map o.fold)) ∧
    ∀ (id : ObjectId) (i : Instance) (c : String), o.instances.get? id = some i →
      ∃ answer, o.isMemberOfClass id c = .ok answer ∧ (answer = true ↔
        ∃ d, Relation.ReflTransGen (fun a b => after i.isDatablock a = some b) i.className d ∧
          o.fold d = o.fold c) := by
  intro o spelling after
  have hstored : o.ClassesStored := classesStored_run caseSensitive ops
  have hstep : ∀ isDatablock name,
      o.classStep isDatablock name = (spelling name, after isDatablock name) :=
    classStep_run caseSensitive ops
  have hspelling : ∀ name, o.fold (spelling name) = o.fold name := by
    intro name
    have hfold := hstored.fold_spelling false name
    rw [hstep] at hfold
    exact hfold
  refine ⟨fun name isDatablock => ⟨?_, ?_, ⟨?_, hspelling name⟩, ?_, ?_⟩, fun id i c hi => ?_⟩
  · exact hstored.classLoop_iff isDatablock name
  · exact (hstored.walked_classChain isDatablock name).nodup
  · rw [head?_classChain, hstep]
  · intro before a b rest hsplit
    obtain ⟨next, hnext, hb⟩ := hstored.follows hsplit
    rw [hstep] at hnext hb
    exact ⟨next, hnext, hb, by rw [hb, hspelling]⟩
  · intro before a rest hsplit
    rw [hstored.ends_iff hsplit, hstep]
    cases after isDatablock a with
    | none => simp
    | some next => simp
  · refine ⟨_, isMemberOfClass_eq hi c, ?_⟩
    have hmember := hstored.mem_classChain_iff i.isDatablock i.className c
    simp only [hstep] at hmember
    rw [← hmember]
    simp

-- Two classes that extend each other, registered in other spellings than they are asked for.
example :
    let o := (new false).run
      [.registerClass "Red" (some "BLUE"), .registerClass "Blue" (some "red")]
    o.classChain "rED" false = ["Red", "Blue"] ∧
      o.classChain "Green" true = ["Green", "SimDataBlock", "SimObject"] := by
  decide

end TorqueScript.Objects
