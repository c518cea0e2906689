import TorqueScript.Interpreter.Session
import TorqueScript.Proofs.Interpreter.CaseFolding
import TorqueScript.Proofs.Interpreter.Operations
import TorqueScript.Proofs.Interpreter.ReceiverChains

/-!
Asking for a function and calling it by name. Both take a name apart in the same way. The
question looks under one key; the call looks under that key too, but if the namespace is a
class, it goes on through the classes that it leads to. So whatever the question confirms is
found by the call, and the call finds more exactly if the function is inherited.
-/

namespace TorqueScript

theorem Text.eq_of_splitQualified {cs qualifier name : List Char}
    (h : splitQualified cs = some (qualifier, name)) : cs = qualifier ++ ':' :: ':' :: name := by
  fun_induction splitQualified cs generalizing qualifier with
  | case1 => cases h
  | case2 c cs rest name' hrest ih =>
    cases h
    rw [ih hrest, List.cons_append]
  | case3 name' =>
    cases h
    rfl
  | case4 => cases h

theorem foldName_append (caseSensitive : Bool) (s t : String) :
    foldName caseSensitive (s ++ t) = foldName caseSensitive s ++ foldName caseSensitive t := by
  cases caseSensitive with
  | true => rfl
  | false => exact Text.lowerAscii_append s t

/-- The parts of a name make up the name again. -/
theorem qualifiedParts_cases (text : String) :
    qualifiedParts text.toList = (none, text) ∨
      ∃ q name, qualifiedParts text.toList = (some q, name) ∧ text = q ++ "::" ++ name := by
  rw [qualifiedParts]
  cases hsplit : Text.splitQualified text.toList with
  | none => exact .inl (by rw [String.ofList_toList])
  | some parts =>
    refine .inr ⟨_, _, rfl, ?_⟩
    rw [← String.toList_inj, Text.eq_of_splitQualified hsplit]
    simp

namespace Functions

theorem exists_resolveAlong_iff (r : Functions Callable) (name : String) (chain : List String) :
    (∃ found, r.resolveAlong name chain = some found) ↔ ∃ q ∈ chain, r.Offers name q = true := by
  induction chain with
  | nil => simp [resolveAlong]
  | cons q rest ih =>
    rw [resolveAlong, List.exists_mem_cons_iff]
    cases hq : r.resolve (r.key (some q) name) with
    | some d => simp [Offers, hq]
    | none => simp [Offers, hq, ih]

theorem offers_congr (r : Functions Callable) (name : String) {q q' : String}
    (h : r.fold q = r.fold q') : r.Offers name q = r.Offers name q' := by
  rw [Offers, Offers, (r.key_eq_iff name q q').2 h]

end Functions

namespace Interpreter

/-- What a call by a name finds, which may have a namespace. -/
def dispatchNamed (i : Interpreter) (name : String) (args : Arguments) : Except Fault Dispatch :=
  i.dispatchStatic (qualifiedParts name.toList).1 (qualifiedParts name.toList).2 args

/-- Whether a definition lies under the key of a name, which may have a namespace. -/
def hasFunction (i : Interpreter) (name : String) : Bool :=
  i.functions.isFunction
    (i.functions.key (qualifiedParts name.toList).1 (qualifiedParts name.toList).2)

/-- The namespace of a function is a class that lacks it, and leads to one that has it. -/
def OnlyInherits (i : Interpreter) (name : String) : Prop :=
  ∃ q function, qualifiedParts name.toList = (some q, function) ∧ i.objects.isClass q = true ∧
    i.functions.Offers function q = false ∧
    ∃ c, Relation.ReflTransGen (fun a b => (i.objects.classStep false a).2 = some b) q c ∧
      i.functions.Offers function c = true

theorem dispatchStatic_none (i : Interpreter) (name : String) (args : Arguments) :
    (∃ d, i.dispatchStatic none name args = .ok d) ↔
      (i.functions.resolve (i.functions.key none name)).isSome = true := by
  rw [dispatchStatic]
  cases i.functions.resolve (i.functions.key none name) <;> simp

theorem dispatchStatic_some (i : Interpreter) (q name : String) (args : Arguments) :
    (∃ d, i.dispatchStatic (some q) name args = .ok d) ↔
      ∃ c ∈ i.qualifierChain q, i.functions.Offers name c = true := by
  rw [← Functions.exists_resolveAlong_iff, dispatchStatic]
  simp only [dispatchAlong]
  cases i.functions.resolveAlong name (i.qualifierChain q) <;> simp

theorem caseSensitive_new (settings : Settings) (surroundings : Surroundings) :
    (new settings surroundings).functions.caseSensitive = settings.caseSensitive :=
  functions_new_induction (P := fun r => r.caseSensitive = settings.caseSensitive) rfl
    fun _ _ _ _ _ hr => hr

namespace ByOperations

variable {settings : Settings} {surroundings : Surroundings} {s : Interpreter}
  (h : (new settings surroundings).ByOperations s)

include h

theorem wellFormed_functions : s.functions.WellFormed := by
  obtain ⟨ops, hops⟩ := h.functions
  rw [hops]
  refine Functions.WellFormed.run ?_ ops
  exact functions_new_induction (Functions.wellFormed_empty _) fun _ _ _ _ _ hr => hr.define _ _

theorem fold_functions (name : String) :
    s.functions.fold name = foldName settings.caseSensitive name := by
  obtain ⟨ops, hops⟩ := h.functions
  rw [Functions.fold, hops, Functions.caseSensitive_run, caseSensitive_new]

/-- Names of functions and of objects are folded alike. -/
theorem fold_functions_eq (name : String) : s.functions.fold name = s.objects.fold name := by
  obtain ⟨ops, hops⟩ := h.objects
  rw [h.fold_functions, hops]
  exact (Objects.fold_run settings.caseSensitive ops name).symm

theorem classesStored : s.objects.ClassesStored := by
  obtain ⟨ops, hops⟩ := h.objects
  rw [hops]
  exact Objects.classesStored_run settings.caseSensitive ops

/-- The classes of a chain that have a function are those among the ones that the links lead to. -/
theorem exists_offers_classChain_iff (q name : String) :
    (∃ c ∈ s.objects.classChain q false, s.functions.Offers name c = true) ↔
      ∃ c, Relation.ReflTransGen (fun a b => (s.objects.classStep false a).2 = some b) q c ∧
        s.functions.Offers name c = true := by
  have hsame {c d : String} (hdc : s.objects.fold d = s.objects.fold c) :
      s.functions.Offers name d = s.functions.Offers name c := by
    apply s.functions.offers_congr
    rw [h.fold_functions_eq, h.fold_functions_eq, hdc]
  have hmem := h.classesStored.mem_classChain_iff false q
  constructor
  · rintro ⟨c, hc, hoffers⟩
    obtain ⟨d, hd, hdc⟩ := (hmem c).1 ⟨c, hc, rfl⟩
    exact ⟨d, hd, (hsame hdc).trans hoffers⟩
  · rintro ⟨c, hc, hoffers⟩
    obtain ⟨d, hd, hdc⟩ := (hmem c).2 ⟨c, hc, rfl⟩
    exact ⟨d, hd, (hsame hdc).trans hoffers⟩

theorem hasFunction_plain {name : String} (hparts : qualifiedParts name.toList = (none, name)) :
    s.hasFunction name = true ↔
      (s.functions.resolve (s.functions.key none name)).isSome = true := by
  rw [hasFunction, hparts]
  exact h.wellFormed_functions.isFunction_iff_resolve _

theorem hasFunction_qualified {name q function : String}
    (hparts : qualifiedParts name.toList = (some q, function)) :
    s.hasFunction name = true ↔ s.functions.Offers function q = true := by
  rw [hasFunction, hparts]
  exact h.wellFormed_functions.isFunction_iff_resolve _

/-- A call by name finds what lies under the key of the name, and what is inherited. -/
theorem dispatchNamed_iff (name : String) (args : Arguments) :
    (∃ d, s.dispatchNamed name args = .ok d) ↔
      s.hasFunction name = true ∨ s.OnlyInherits name := by
  rcases qualifiedParts_cases name with hparts | ⟨q, function, hparts, -⟩
  · rw [dispatchNamed, hparts, dispatchStatic_none, h.hasFunction_plain hparts]
    simp [OnlyInherits, hparts]
  · rw [dispatchNamed, hparts, dispatchStatic_some, h.hasFunction_qualified hparts, qualifierChain]
    by_cases hclass : s.objects.isClass q = true
    · rw [if_pos hclass, h.exists_offers_classChain_iff]
      constructor
      · intro hreached
        cases hown : s.functions.Offers function q with
        | true => exact .inl rfl
        | false => exact .inr ⟨q, function, hparts, hclass, hown, hreached⟩
      · rintro (hown | ⟨q', function', hparts', -, -, hreached⟩)
        · exact ⟨q, .refl, hown⟩
        · rw [hparts] at hparts'
          cases hparts'
          exact hreached
    · rw [if_neg hclass]
      simp [OnlyInherits, hparts, hclass]

theorem not_onlyInherits {name : String} (hknown : s.hasFunction name = true) :
    ¬ s.OnlyInherits name := by
  rintro ⟨q, function, hparts, -, hlacks, -⟩
  rw [h.hasFunction_qualified hparts, hlacks] at hknown
  cases hknown

/-- The search in a namespace begins with that namespace, in the spelling of its class. -/
theorem fold_headD_qualifierChain (q : String) :
    s.functions.fold ((s.qualifierChain q).headD q) = s.functions.fold q := by
  rw [h.fold_functions_eq, h.fold_functions_eq, qualifierChain]
  split
  · rw [List.headD_eq_head?_getD, Objects.head?_classChain]
    exact h.classesStored.fold_spelling false q
  · rfl

/-- A call that finds nothing fails with the name that was called. -/
theorem dispatchNamed_error {name : String} {args : Arguments} {fault : Fault}
    (hfailed : s.dispatchNamed name args = .error fault) :
    ∃ text, fault = .unknownFunction text ∧ s.functions.fold text = s.functions.fold name := by
  rcases qualifiedParts_cases name with hparts | ⟨q, function, hparts, hname⟩
  · rw [dispatchNamed, hparts, dispatchStatic] at hfailed
    simp only at hfailed
    split at hfailed <;> cases hfailed
    exact ⟨name, rfl, rfl⟩
  · rw [dispatchNamed, hparts, dispatchStatic] at hfailed
    simp only at hfailed
    split at hfailed <;> cases hfailed
    refine ⟨_, rfl, ?_⟩
    have hhead := h.fold_headD_qualifierChain q
    simp only [Functions.fold] at hhead
    rw [hname, Functions.fold, Functions.fold, foldName_append, foldName_append, hhead,
      ← foldName_append, ← foldName_append]

end ByOperations

theorem call_plain {s : Interpreter} {name : String} {d : Definition Callable}
    (h : s.functions.resolve (s.functions.key none name) = some d) (budget : Nat)
    (args : Arguments) :
    s.call budget none name args = Eval.invoke budget ⟨d, [], none⟩ args s := by
  rw [call, dispatchStatic]
  simp only [h]

theorem invoke_isFunction {d : Dispatch}
    (hd : d.definition.body = .builtin (.package .isFunction)) (budget : Nat) (q : Value)
    (s : Interpreter) :
    Eval.invoke (budget + 1) d [q] s = some (.ok (.ofBool (s.hasFunction q.toText)), s) := by
  rw [Eval.invoke, hd]
  rfl

theorem invoke_byName {d : Dispatch} (hd : d.definition.body = .byName) (budget : Nat) (q : Value)
    (args : Arguments) (s : Interpreter) :
    (∀ d', s.dispatchNamed q.toText args = .ok d' →
      Eval.invoke (budget + 1) d (q :: args) s = Eval.invoke budget d' args s) ∧
    (∀ fault, s.dispatchNamed q.toText args = .error fault →
      Eval.invoke (budget + 1) d (q :: args) s = some (.error fault, s)) := by
  have hinvoke : Eval.invoke (budget + 1) d (q :: args) =
      (Effect.ofExcept fun i => i.dispatchNamed q.toText args) >>=
        fun d' => Eval.invoke budget d' args := by
    rw [Eval.invoke, hd]
    rfl
  rw [hinvoke, Effect.bind_apply, Effect.ofExcept]
  refine ⟨fun d' hd' => ?_, fun fault hfault => ?_⟩
  · rw [hd']
  · rw [hfault]

end Interpreter

/-- Asking for a function and calling it by name, in a state that operations on functions and
objects lead to, while the two functions are the built-in ones. Neither the answer nor a call
that finds nothing changes the state. A call that finds nothing fails with the name that was
called, and one that finds a definition runs it. Whatever the answer confirms is found, and the
answer agrees with the call exactly if the function is not one that its class only inherits. -/
theorem isFunction_agrees_iff {settings : Settings} {surroundings : Surroundings}
    {s : Interpreter} (hs : (Interpreter.new settings surroundings).ByOperations s)
    (hquery : (s.functions.resolve (s.functions.key none "isFunction")).map Definition.body =
      some (.builtin (.package .isFunction)))
    (hcall : (s.functions.resolve (s.functions.key none "call")).map Definition.body =
      some .byName) (q : Value) (args : Arguments) :
    ∃ known : Bool,
      (∀ budget, s.call (budget + 1) none "isFunction" [q] = some (.ok (.ofBool known), s)) ∧
      (∀ d, s.dispatchNamed q.toText args = .ok d → ∀ budget,
        s.call (budget + 1) none "call" (q :: args) = Eval.invoke budget d args s) ∧
      (∀ fault, s.dispatchNamed q.toText args = .error fault →
        (∀ budget, s.call (budget + 1) none "call" (q :: args) = some (.error fault, s)) ∧
        ∃ text, fault = .unknownFunction text ∧
          s.functions.fold text = s.functions.fold q.toText) ∧
      (known = true → ∃ d, s.dispatchNamed q.toText args = .ok d) ∧
      ((known = true ↔ ∃ d, s.dispatchNamed q.toText args = .ok d) ↔
        ¬ s.OnlyInherits q.toText) := by
  obtain ⟨query, hfoundQuery, hqueryBody⟩ := Option.map_eq_some_iff.1 hquery
  obtain ⟨caller, hfoundCaller, hcallerBody⟩ := Option.map_eq_some_iff.1 hcall
  have hfinds := hs.dispatchNamed_iff q.toText args
  refine ⟨s.hasFunction q.toText, fun budget => ?_, fun d hd budget => ?_,
    fun fault hfault => ⟨fun budget => ?_, hs.dispatchNamed_error hfault⟩,
    fun hknown => hfinds.2 (.inl hknown), ?_⟩
  · rw [Interpreter.call_plain hfoundQuery, Interpreter.invoke_isFunction hqueryBody]
  · rw [Interpreter.call_plain hfoundCaller]
    exact (Interpreter.invoke_byName hcallerBody budget q args s).1 d hd
  · rw [Interpreter.call_plain hfoundCaller]
    exact (Interpreter.invoke_byName hcallerBody budget q args s).2 fault hfault
  · rw [hfinds]
    constructor
    · intro hagree hinherits
      exact hs.not_onlyInherits (hagree.2 (.inr hinherits)) hinherits
    · intro hnot
      simp [hnot]

namespace Interpreter

def foldedKey (settings : Settings) (qualifier : Option String) (name : String) : FunctionKey :=
  ⟨qualifier.map settings.fold, settings.fold name⟩

theorem key_eq_foldedKey {settings : Settings} {r : Functions Callable}
    (hr : r.caseSensitive = settings.caseSensitive) (qualifier : Option String) (name : String) :
    r.key qualifier name = foldedKey settings qualifier name := by
  have hfold : r.fold = settings.fold := by
    funext name
    rw [Functions.fold, hr, Settings.fold]
  rw [Functions.key, foldedKey, hfold]

theorem setBase_setBase (body body' : Callable) (stack : List (Entry Callable)) :
    Entry.setBase body (Entry.setBase body' stack) = Entry.setBase body stack := by
  cases stack with
  | nil => rfl
  | cons e rest => by_cases he : e.package.isNone = true <;> simp [Entry.setBase, he]

/-- Of the functions that are defined under a key one after the other, the last one counts. -/
theorem stack_foldl_define {settings : Settings} {r : Functions Callable}
    (hr : r.caseSensitive = settings.caseSensitive)
    (ds : List (Option String × String × Callable)) (k : FunctionKey) :
    (ds.foldl (fun r d => r.define (r.key d.1 d.2.1) d.2.2) r).stack k =
      ((ds.reverse.find? fun d => decide (foldedKey settings d.1 d.2.1 = k)).map
        fun d => Entry.setBase d.2.2 (r.stack k)).getD (r.stack k) := by
  induction ds generalizing r with
  | nil => rfl
  | cons d ds ih =>
    have hrest := ih (r := r.define (r.key d.1 d.2.1) d.2.2) hr
    rw [List.foldl_cons, hrest, key_eq_foldedKey hr, Functions.stack_define, List.reverse_cons,
      List.find?_append]
    cases hlater : ds.reverse.find? fun d => decide (foldedKey settings d.1 d.2.1 = k) with
    | some later =>
      by_cases hd : foldedKey settings d.1 d.2.1 = k <;> simp [hd, setBase_setBase]
    | none =>
      by_cases hd : foldedKey settings d.1 d.2.1 = k <;> simp [hd]

/-- The function that a new interpreter has under a name. -/
theorem resolve_new (settings : Settings) (surroundings : Surroundings)
    (qualifier : Option String) (name : String) :
    ((new settings surroundings).functions.resolve
        ((new settings surroundings).functions.key qualifier name)).map Definition.body =
      (Callable.initial.reverse.find? fun d =>
        decide (foldedKey settings d.1 d.2.1 = foldedKey settings qualifier name)).map
          fun d => d.2.2 := by
  have hstack : (new settings surroundings).functions.stack (foldedKey settings qualifier name) =
      _ :=
    stack_foldl_define (r := { caseSensitive := settings.caseSensitive }) rfl Callable.initial _
  rw [key_eq_foldedKey (caseSensitive_new settings surroundings), Functions.resolve, hstack]
  cases Callable.initial.reverse.find? fun d =>
    decide (foldedKey settings d.1 d.2.1 = foldedKey settings qualifier name) <;> rfl

theorem offers_new (settings : Settings) (surroundings : Surroundings) (name q : String) :
    (new settings surroundings).functions.Offers name q =
      (Callable.initial.reverse.find? fun d =>
        decide (foldedKey settings d.1 d.2.1 = foldedKey settings (some q) name)).isSome := by
  have hresolve := congrArg Option.isSome (resolve_new settings surroundings (some q) name)
  rwa [Option.isSome_map, Option.isSome_map] at hresolve

theorem resolve_new_isFunction :
    ((new {}).functions.resolve ((new {}).functions.key none "isFunction")).map Definition.body =
      some (.builtin (.package .isFunction)) := by
  rw [resolve_new]
  rfl

theorem resolve_new_call :
    ((new {}).functions.resolve ((new {}).functions.key none "call")).map Definition.body =
      some .byName := by
  rw [resolve_new]
  rfl

end Interpreter

/-- A method of all objects, asked for under the class that has it. -/
theorem isFunction_agrees_root :
    let s := Interpreter.new {}
    let q := Value.text "simObject::GetID"
    s.call 1 none "isFunction" [q] = some (.ok (.ofBool true), s) ∧
      ∃ d, s.dispatchNamed q.toText [] = .ok d := by
  intro s q
  have hs : (Interpreter.new {}).ByOperations s := Interpreter.change_byOperations.refl _
  have hparts : qualifiedParts q.toText.toList = (some "simObject", "GetID") := by decide
  have hown : s.hasFunction q.toText = true := by
    rw [hs.hasFunction_qualified hparts, Interpreter.offers_new]
    decide +kernel
  obtain ⟨known, hanswer, -, -, hfound, hagree⟩ :=
    isFunction_agrees_iff hs Interpreter.resolve_new_isFunction Interpreter.resolve_new_call q []
  have hfinds := (hs.dispatchNamed_iff q.toText []).2 (.inl hown)
  obtain rfl : known = true := (hagree.2 (hs.not_onlyInherits hown)).2 hfinds
  exact ⟨hanswer 0, hfound rfl⟩

/-- The same method under a class that inherits it: the answer is no, but a call finds it. -/
theorem isFunction_misses_inherited :
    let s := Interpreter.new {}
    let q := Value.text "ScriptObject::getId"
    s.call 1 none "isFunction" [q] = some (.ok (.ofBool false), s) ∧
      ∀ args, ∃ d, s.dispatchNamed q.toText args = .ok d ∧
        ∀ budget, s.call (budget + 1) none "call" (q :: args) = Eval.invoke budget d args s := by
  intro s q
  have hs : (Interpreter.new {}).ByOperations s := Interpreter.change_byOperations.refl _
  have hparts : qualifiedParts q.toText.toList = (some "ScriptObject", "getId") := by decide
  have hlacks : s.functions.Offers "getId" "ScriptObject" = false := by
    rw [Interpreter.offers_new]
    decide +kernel
  have hroot : s.functions.Offers "getId" "SimObject" = true := by
    rw [Interpreter.offers_new]
    decide +kernel
  have hlink : (s.objects.classStep false "ScriptObject").2 = some "SimObject" := by decide
  have hinherits : s.OnlyInherits q.toText :=
    ⟨"ScriptObject", "getId", hparts, by decide, hlacks, "SimObject", .single hlink, hroot⟩
  obtain ⟨query, hquery, hqueryBody⟩ := Option.map_eq_some_iff.1 Interpreter.resolve_new_isFunction
  obtain ⟨caller, hcaller, hcallerBody⟩ := Option.map_eq_some_iff.1 Interpreter.resolve_new_call
  refine ⟨?_, fun args => ?_⟩
  · have hunknown : s.hasFunction q.toText = false := by
      rw [Bool.eq_false_iff, Ne, hs.hasFunction_qualified hparts, hlacks]
      exact Bool.false_ne_true
    rw [Interpreter.call_plain hquery, Interpreter.invoke_isFunction hqueryBody, hunknown]
  · obtain ⟨d, hd⟩ := (hs.dispatchNamed_iff q.toText args).2 (.inr hinherits)
    refine ⟨d, hd, fun budget => ?_⟩
    rw [Interpreter.call_plain hcaller]
    exact (Interpreter.invoke_byName hcallerBody budget q args s).1 d hd

end TorqueScript
