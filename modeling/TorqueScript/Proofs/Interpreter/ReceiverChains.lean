import TorqueScript.Proofs.Interpreter.Delegation
import TorqueScript.Proofs.Objects.ClassChains

/-!
Repeats in the chain of a method call. The chain of an object is its name followed by the chain
of its class, which repeats no class. The name itself may be that of a class of the object, and
then the namespace of that class stands in the chain twice: parent calls that have come to the
end of its definitions go through them a second time. This is the only way in which a
definition is reached twice.
-/

namespace TorqueScript

namespace Functions

variable {r : Functions Callable} {name : String}

theorem exists_mem_overrideOrder (receiver : Option ObjectId) {chain : List String} {slot : Slot} :
    (∃ d ∈ r.overrideOrder name receiver chain, d.definition.slot = slot) ↔
      ∃ q ∈ chain, ∃ c ∈ r.fromTop (r.key (some q) name), c.slot = slot := by
  induction chain with
  | nil => simp [overrideOrder]
  | cons q rest ih =>
    simp only [overrideOrder, List.mem_append, or_and_right, exists_or, ih, List.mem_cons,
      exists_eq_left, List.mem_map, exists_exists_and_eq_and]

/-- Whether a namespace has the function, under its name in any spelling. -/
def Offers (r : Functions Callable) (name q : String) : Bool :=
  (r.resolve (r.key (some q) name)).isSome

theorem offers_iff (r : Functions Callable) (name q : String) :
    r.Offers name q = true ↔ r.fromTop (r.key (some q) name) ≠ [] := by
  rw [Offers, resolve_eq_head?, List.isSome_head?]

theorem key_eq_iff (r : Functions Callable) (name q q' : String) :
    r.key (some q) name = r.key (some q') name ↔ r.fold q = r.fold q' := by
  simp [key]

/-- Two namespaces share a definition only if they are one. -/
theorem disjoint_overrideOrder_iff {q : String} (hq : r.Offers name q = true)
    (receiver : Option ObjectId) (chain : List String) :
    (∀ c ∈ r.fromTop (r.key (some q) name), ∀ d ∈ r.overrideOrder name receiver chain,
      c.slot ≠ d.definition.slot) ↔ r.fold q ∉ (chain.filter (r.Offers name)).map r.fold := by
  constructor
  · intro hdisjoint hmem
    obtain ⟨q', hq', hfold⟩ := List.mem_map.mp hmem
    obtain ⟨c, hc⟩ := List.exists_mem_of_ne_nil _ ((offers_iff r name q).mp hq)
    have hkey := (key_eq_iff r name q' q).mpr hfold
    obtain ⟨d, hd, hslot⟩ := (exists_mem_overrideOrder receiver).mpr
      ⟨q', (List.mem_filter.mp hq').1, c, hkey ▸ hc, rfl⟩
    exact hdisjoint c hc d hd hslot.symm
  · intro hfresh c hc d hd hslot
    obtain ⟨q', hq', c', hc', hslot'⟩ := (exists_mem_overrideOrder receiver).mp ⟨d, hd, hslot.symm⟩
    have hkey : r.key (some q') name = r.key (some q) name := by
      rw [← key_of_mem_fromTop hc', ← key_of_mem_fromTop hc, hslot']
    have hoffers := (offers_iff r name q').mpr (List.ne_nil_of_mem hc')
    apply hfresh
    rw [← (key_eq_iff r name q' q).mp hkey]
    exact List.mem_map_of_mem (List.mem_filter.mpr ⟨hq', hoffers⟩)

/-- The order of overrides repeats a definition exactly if the chain repeats a namespace that has
the function. -/
theorem WellFormed.nodup_slots_iff (h : r.WellFormed) (receiver : Option ObjectId)
    (chain : List String) :
    ((r.overrideOrder name receiver chain).map fun d => d.definition.slot).Nodup ↔
      ((chain.filter (r.Offers name)).map r.fold).Nodup := by
  induction chain with
  | nil => simp [overrideOrder]
  | cons q rest ih =>
    rw [overrideOrder, List.map_append, List.map_map]
    by_cases hq : r.Offers name q = true
    · rw [List.filter_cons_of_pos hq, List.map_cons, List.nodup_cons, ← ih,
        ← disjoint_overrideOrder_iff hq receiver rest, List.nodup_append]
      have hstack := h.nodup_fromTop (r.key (some q) name)
      constructor
      · intro hnodup
        obtain ⟨-, hrest, hdisjoint⟩ := hnodup
        exact ⟨fun c hc d hd => hdisjoint c.slot (List.mem_map_of_mem hc) _
          (List.mem_map_of_mem hd), hrest⟩
      · intro hnodup
        obtain ⟨hdisjoint, hrest⟩ := hnodup
        refine ⟨hstack, hrest, fun a ha b hb => ?_⟩
        obtain ⟨c, hc, rfl⟩ := List.mem_map.mp ha
        obtain ⟨d, hd, rfl⟩ := List.mem_map.mp hb
        exact hdisjoint c hc d hd
    · have hnone : r.fromTop (r.key (some q) name) = [] := by
        by_contra hne
        exact hq ((offers_iff r name q).mpr hne)
      rw [List.filter_cons_of_neg hq, hnone]
      exact ih

end Functions

/-- A call along the chain and the parent calls after it run no definition twice, while the
functions stay as they are. -/
def Interpreter.RunsOnce (s : Interpreter) (name : String) (receiver : Option ObjectId)
    (chain : List String) : Prop :=
  ∀ k l d e, s.delegated name receiver chain k = some d →
    s.delegated name receiver chain l = some e → d.definition.slot = e.definition.slot → k = l

theorem Interpreter.HasHistory.runsOnce_iff {s : Interpreter} {caseSensitive : Bool}
    (h : s.HasHistory caseSensitive) (name : String) (receiver : Option ObjectId)
    (chain : List String) :
    s.RunsOnce name receiver chain ↔
      ((s.functions.overrideOrder name receiver chain).map fun d => d.definition.slot).Nodup := by
  unfold RunsOnce
  simp only [h.delegated_eq_getElem?]
  constructor
  · intro honce
    rw [List.nodup_iff_getElem?_ne_getElem?]
    intro k l hkl hl heq
    rw [List.getElem?_map, List.getElem?_map] at heq
    rw [List.length_map] at hl
    rw [List.getElem?_eq_getElem hl, List.getElem?_eq_getElem (hkl.trans hl)] at heq
    have hsame := honce k l _ _ (List.getElem?_eq_getElem (hkl.trans hl))
      (List.getElem?_eq_getElem hl) (Option.some.inj heq)
    omega
  · intro hnodup k l d e hd he hslot
    have hk := (List.getElem?_eq_some_iff.mp hd).1
    refine (List.getElem?_inj (by simpa using hk) hnodup).mp ?_
    rw [List.getElem?_map, List.getElem?_map, hd, he, Option.map_some, Option.map_some, hslot]

/-- Where no namespace is repeated, a key belongs to one place of the chain, whatever happens to the
functions between one parent call and the next. -/
theorem Reached.fallback_eq {caseSensitive : Bool} {chain : List String} {name : String}
    {receiver : Option ObjectId} {d e : Dispatch}
    (hd : Reached caseSensitive chain name receiver d)
    (he : Reached caseSensitive chain name receiver e)
    (hnodup : (chain.map (foldName caseSensitive)).Nodup)
    (hkey : d.definition.slot.key = e.definition.slot.key) : d.fallback = e.fallback := by
  obtain ⟨-, before, q, hsplit, hq⟩ := hd.exists_namespace
  obtain ⟨-, before', q', hsplit', hq'⟩ := he.exists_namespace
  have hfold : foldName caseSensitive q = foldName caseSensitive q' := by
    rw [hq, hq'] at hkey
    simpa using hkey
  have hplace : ∀ {front : List String} {p : String} {back : List String},
      chain = front ++ p :: back →
      front.length < (chain.map (foldName caseSensitive)).length ∧
        (chain.map (foldName caseSensitive))[front.length]? = some (foldName caseSensitive p) := by
    intro front p back hchain
    subst hchain
    simp
  obtain ⟨hlt, hget⟩ := hplace hsplit
  have hlength := (List.getElem?_inj hlt hnodup).mp (hget.trans (hfold ▸ (hplace hsplit').2.symm))
  have hsame := List.append_inj (hsplit.symm.trans hsplit') hlength
  exact (List.cons.inj hsame.2).2

namespace Objects

variable {o : Objects} {id : ObjectId} {i : Instance}

theorem namespaceChain_eq (hi : o.instances.get? id = some i) :
    o.namespaceChain id = .ok (i.name.toList ++ o.classChain i.className i.isDatablock) := by
  rw [namespaceChain, get, hi]
  rfl

/-- Among the namespaces of a chain that have some property, whatever their spelling, only the
name of the object can be there twice. -/
theorem ClassesStored.nodup_filter_iff (h : o.ClassesStored) (hi : o.instances.get? id = some i)
    {p : String → Bool} (hp : ∀ a b, o.fold a = o.fold b → p a = p b) :
    (((i.name.toList ++ o.classChain i.className i.isDatablock).filter p).map o.fold).Nodup ↔
      ∀ n, i.name = some n → o.isMemberOfClass id n = .ok true → p n = false := by
  have hclasses : (((o.classChain i.className i.isDatablock).filter p).map o.fold).Nodup :=
    (h.walked_classChain i.isDatablock i.className).nodup.sublist (List.filter_sublist.map o.fold)
  cases hname : i.name with
  | none => simpa using hclasses
  | some n =>
    simp only [Option.toList_some, List.singleton_append, Option.some.injEq, forall_eq',
      isMemberOfClass_eq hi]
    cases hpn : p n with
    | false => simpa [hpn] using hclasses
    | true =>
      have hrepeated : o.fold n ∈ ((o.classChain i.className i.isDatablock).filter p).map o.fold ↔
          ∃ c ∈ o.classChain i.className i.isDatablock, o.fold c = o.fold n := by
        rw [List.mem_map]
        constructor
        · intro hmem
          obtain ⟨c, hc, hfold⟩ := hmem
          exact ⟨c, (List.mem_filter.mp hc).1, hfold⟩
        · intro hmem
          obtain ⟨c, hc, hfold⟩ := hmem
          exact ⟨c, List.mem_filter.mpr ⟨hc, (hp c n hfold).trans hpn⟩, hfold⟩
      rw [List.filter_cons_of_pos hpn, List.map_cons, List.nodup_cons, hrepeated]
      simpa [hpn] using fun _ => hclasses

end Objects

/-- The chain of a method call on an object. It repeats a namespace exactly if the object is named
like one of its classes. A method call runs the first definition along the chain, and with the
parent calls after it runs one twice exactly if the object has such a name and the class of that
name has the method. In a chain without repeats, whatever happens to the functions meanwhile, all
definitions that are reached under one key have the same namespaces after them. -/
theorem method_chain_repeats_iff {caseSensitive : Bool} {ops : List Objects.Operation}
    {s : Interpreter} (hs : s.HasHistory caseSensitive)
    (hobjects : s.objects = (Objects.new caseSensitive).run ops) {id : ObjectId} {i : Instance}
    (hi : s.objects.instances.get? id = some i) :
    ∃ chain, s.objects.namespaceChain id = .ok chain ∧
      ((chain.map s.objects.fold).Nodup ↔
        ∀ n, i.name = some n → s.objects.isMemberOfClass id n = .ok false) ∧
      (∀ name,
        (∀ d, s.dispatchMethod id name = .ok d ↔ s.delegated name (some id) chain 0 = some d) ∧
        (s.RunsOnce name (some id) chain ↔
          ∀ n, i.name = some n → s.objects.isMemberOfClass id n = .ok true →
            s.functions.resolve (s.functions.key (some n) name) = none)) ∧
      ((chain.map s.objects.fold).Nodup → ∀ name d e,
        Reached caseSensitive chain name (some id) d →
        Reached caseSensitive chain name (some id) e →
        d.definition.slot.key = e.definition.slot.key → d.fallback = e.fallback) := by
  have hstored : s.objects.ClassesStored := hobjects ▸ Objects.classesStored_run caseSensitive ops
  have hfold : s.objects.fold = foldName caseSensitive := by
    funext name
    rw [hobjects, Objects.fold_run]
  have hfunctions : s.functions.fold = s.objects.fold := by
    funext name
    rw [hs.fold_functions, hfold]
  have hchain := Objects.namespaceChain_eq hi
  refine ⟨_, hchain, ?_, fun name => ⟨fun d => ?_, ?_⟩, fun hnodup name d e hd he => ?_⟩
  · have hall := hstored.nodup_filter_iff hi (p := fun _ => true) fun _ _ _ => rfl
    rw [List.filter_true] at hall
    rw [hall]
    simp [Objects.isMemberOfClass_eq hi]
  · rw [Interpreter.dispatchMethod, hchain, Interpreter.delegated]
    cases hfirst : s.dispatchAlong (i.name.toList ++ s.objects.classChain i.className i.isDatablock)
      name (some id) with
    | some first => simp [hfirst, bind, Except.bind, pure, Except.pure]
    | none =>
      simp [hfirst, Objects.get, hi, bind, Except.bind, throw, throwThe, MonadExceptOf.throw]
  · rw [hs.runsOnce_iff, hs.wellFormed.nodup_slots_iff, hfunctions, hstored.nodup_filter_iff hi]
    · simp [Functions.Offers]
    · intro a b hab
      have hkey := (s.functions.key_eq_iff name a b).mpr (by rw [hfunctions, hab])
      rw [Functions.Offers, Functions.Offers, hkey]
  · exact hd.fallback_eq he (hfold ▸ hnodup)

/-- An object called `Hud`, of a class of its own that has the method. -/
theorem method_chain_repeats_hud :
    let hit : Callable := .script ⟨some "ScoreBoard", "hit", [], []⟩
    let s : Interpreter :=
      { settings := { caseSensitive := false }
        functions := (Functions.empty false).run [.define ⟨some "scoreboard", "hit"⟩ hit]
        objects := (Objects.new false).run
          [.registerClass "ScoreBoard" (some "ScriptObject"),
            .instantiate "scoreBoard" (some "Hud") none false] }
    ∃ i, s.objects.instances.get? 1 = some i ∧
    ∃ chain, s.objects.namespaceChain 1 = .ok chain ∧
      ((chain.map s.objects.fold).Nodup ↔
        ∀ n, i.name = some n → s.objects.isMemberOfClass 1 n = .ok false) ∧
      (∀ name,
        (∀ d, s.dispatchMethod 1 name = .ok d ↔ s.delegated name (some 1) chain 0 = some d) ∧
        (s.RunsOnce name (some 1) chain ↔
          ∀ n, i.name = some n → s.objects.isMemberOfClass 1 n = .ok true →
            s.functions.resolve (s.functions.key (some n) name) = none)) ∧
      ((chain.map s.objects.fold).Nodup → ∀ name d e,
        Reached false chain name (some 1) d → Reached false chain name (some 1) e →
        d.definition.slot.key = e.definition.slot.key → d.fallback = e.fallback) := by
  intro hit s
  exact ⟨_, rfl, method_chain_repeats_iff ⟨rfl, _, rfl⟩ rfl rfl⟩

/-- An object that is named like its own class, with a method that calls its parent: the parent of
the method is the method. -/
theorem method_chain_repeats_class :
    let hit : Callable := .script ⟨some "ScriptObject", "hit", [],
      [.expr (.call (some "parent") "hit" [])]⟩
    let s : Interpreter :=
      { settings := { caseSensitive := false }
        functions := (Functions.empty false).run [.define ⟨some "scriptobject", "hit"⟩ hit]
        objects := (Objects.new false).run
          [.instantiate "ScriptObject" (some "ScriptObject") none false] }
    ∃ chain, s.objects.namespaceChain 1 = .ok chain ∧ ¬ (chain.map s.objects.fold).Nodup ∧
      ¬ s.RunsOnce "hit" (some 1) chain := by
  intro hit s
  refine ⟨["ScriptObject", "ScriptObject", "SimObject"], by decide, by decide, fun honce => ?_⟩
  have hsame := honce 0 1 _ _ rfl rfl rfl
  omega

end TorqueScript
