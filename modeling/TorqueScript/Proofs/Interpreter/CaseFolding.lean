import TorqueScript.Proofs.Interpreter.DepthLimit
import TorqueScript.Proofs.Interpreter.Simulation

/-!
Names without regard to case. In an interpreter that does not tell names apart by the case of
their ASCII letters, a program runs like the same program with all its names in lower case:
the two runs go through states that differ in the spelling of function bodies and in nothing
else, and their faults carry the same names but for case.
-/

namespace TorqueScript

open Effect

namespace Text

theorem lowerAscii_append (s t : String) : lowerAscii (s ++ t) = lowerAscii s ++ lowerAscii t := by
  rw [lowerAscii, String.toList_append, List.map_append, String.ofList_append]
  rfl

theorem toLower_toLower (c : Char) : c.toLower.toLower = c.toLower := by
  unfold Char.toLower
  grind

@[simp]
theorem lowerAscii_lowerAscii (s : String) : lowerAscii (lowerAscii s) = lowerAscii s := by
  simp only [lowerAscii, String.toList_ofList, List.map_map, Function.comp_def, toLower_toLower]

end Text

open Text (lowerAscii lowerAscii_append lowerAscii_lowerAscii)

theorem lowerAscii_elementName (name : String) (vs : List Value) :
    lowerAscii (Value.elementName (lowerAscii name) vs) =
      lowerAscii (Value.elementName name vs) := by
  rw [Value.elementName, lowerAscii_append, lowerAscii_lowerAscii, ← lowerAscii_append]
  rfl

/-- A fault whose function name is in lower case. -/
def Fault.lowered : Fault → Fault
  | .unknownFunction name => .unknownFunction (lowerAscii name)
  | .noParent name => .noParent (lowerAscii name)
  | fault => fault

/-- Places that differ at most in the case of a field name. -/
inductive Location.Alike : Location → Location → Prop
  | local (key : String) : Alike (.local key) (.local key)
  | global (key : String) : Alike (.global key) (.global key)
  | field (id : ObjectId) {name name' : String} : lowerAscii name' = lowerAscii name →
      Alike (.field id name) (.field id name')

namespace Interpreter

/-- Names are looked up without regard to the case of their letters. -/
structure IgnoresCase (i : Interpreter) : Prop where
  settings : i.settings.caseSensitive = false
  functions : i.functions.caseSensitive = false
  objects : i.objects.caseSensitive = false

/-- An interpreter whose functions have their names in lower case, and with other faults. -/
def lowered (i : Interpreter) (faults : List Fault) : Interpreter :=
  { i with functions := i.functions.map (Callable.respell lowerAscii), faults := faults }

/-- The states differ in the spelling of function bodies and in the case of the names in faults. -/
inductive Alike : Interpreter → Interpreter → Prop
  | intro {i : Interpreter} {faults : List Fault} : i.IgnoresCase →
      faults.map Fault.lowered = i.faults.map Fault.lowered → Alike i (i.lowered faults)

/-- Names are read in the same way, and no fault has been recorded. -/
structure SameReading (i j : Interpreter) : Prop where
  settings : j.settings.caseSensitive = i.settings.caseSensitive
  functions : j.functions.caseSensitive = i.functions.caseSensitive
  objects : j.objects.caseSensitive = i.objects.caseSensitive
  faults : j.faults = i.faults

theorem change_sameReading : Change SameReading where
  refl _ := ⟨rfl, rfl, rfl, rfl⟩
  trans hij hjk := ⟨hjk.settings.trans hij.settings, hjk.functions.trans hij.functions,
    hjk.objects.trans hij.objects, hjk.faults.trans hij.faults⟩
  objects i op := ⟨rfl, rfl, Objects.caseSensitive_step i.objects op, rfl⟩
  functions i op := ⟨rfl, Functions.caseSensitive_step i.functions op, rfl, rfl⟩
  setLocal i key v := by
    rw [Interpreter.setLocal]
    split <;> exact ⟨rfl, rfl, rfl, rfl⟩
  setGlobal _ _ _ := ⟨rfl, rfl, rfl, rfl⟩
  write _ _ := ⟨rfl, rfl, rfl, rfl⟩
  ask _ := ⟨rfl, rfl, rfl, rfl⟩
  frame _ _ _ h := ⟨h.settings, h.functions, h.objects, h.faults⟩

theorem SameReading.alike {i j : Interpreter} (h : i.SameReading j) (hi : i.IgnoresCase)
    {faults : List Fault} (hfaults : faults.map Fault.lowered = i.faults.map Fault.lowered) :
    j.Alike (j.lowered faults) :=
  .intro ⟨h.settings.trans hi.settings, h.functions.trans hi.functions, h.objects.trans hi.objects⟩
    (by rw [h.faults, hfaults])

section Folding

variable {i : Interpreter} (hi : i.IgnoresCase)

include hi

theorem IgnoresCase.lowered (faults : List Fault) : (i.lowered faults).IgnoresCase :=
  ⟨hi.settings, hi.functions, hi.objects⟩

theorem IgnoresCase.fold_eq (name : String) : i.fold name = lowerAscii name := by
  simp [Interpreter.fold, Settings.fold, foldName, hi.settings]

theorem IgnoresCase.fold_objects (name : String) : i.objects.fold name = lowerAscii name := by
  simp [Objects.fold, foldName, hi.objects]

theorem IgnoresCase.key_eq (qualifier : Option String) (name : String) :
    i.functions.key qualifier name = ⟨qualifier.map lowerAscii, lowerAscii name⟩ := by
  have hfold : i.functions.fold = lowerAscii := by
    funext s
    simp [Functions.fold, foldName, hi.functions]
  rw [Functions.key, hfold]

end Folding

end Interpreter

namespace Effect

variable {α β : Type}

/-- Answers that are alike: results in the relation, or faults that differ in case only. -/
inductive AnswersAlike (A : α → α → Prop) : Except Fault α → Except Fault α → Prop
  | ok {a a' : α} : A a a' → AnswersAlike A (.ok a) (.ok a')
  | error {fault fault' : Fault} : fault'.lowered = fault.lowered →
      AnswersAlike A (.error fault) (.error fault')

/-- Runs that end alike, in states that are alike, or both do not end within their budgets. -/
inductive EndAlike (A : α → α → Prop) :
    Option (Except Fault α × Interpreter) → Option (Except Fault α × Interpreter) → Prop
  | none : EndAlike A none none
  | some {r r' : Except Fault α} {j j' : Interpreter} : AnswersAlike A r r' → j.Alike j' →
      EndAlike A (some (r, j)) (some (r', j'))

/-- From states that are alike, the effects end alike. -/
def CaseFree (A : α → α → Prop) (act act' : Effect α) : Prop :=
  ∀ i i' : Interpreter, i.Alike i' → EndAlike A (act i) (act' i')

theorem AnswersAlike.refl (r : Except Fault α) : AnswersAlike Eq r r := by
  cases r with
  | ok a => exact .ok rfl
  | error fault => exact .error rfl

/-- Effects that do not look at what differs. -/
theorem caseFree_of_eq {act act' : Effect α} (hkeeps : Keeps Interpreter.SameReading act)
    (h : ∀ (i : Interpreter) faults, i.IgnoresCase →
      act' (i.lowered faults) = (act i).map fun (r, j) => (r, j.lowered faults)) :
    CaseFree Eq act act' := by
  rintro i _ ⟨hi, hfaults⟩
  rw [h i _ hi]
  cases hact : act i with
  | none => exact .none
  | some o =>
    obtain ⟨r, j⟩ := o
    exact .some (.refl r) ((hkeeps i r j hact).alike hi hfaults)

theorem caseFree_ofExcept {A : α → α → Prop} {r r' : Interpreter → Except Fault α}
    (h : ∀ (i : Interpreter) faults, i.IgnoresCase → AnswersAlike A (r i) (r' (i.lowered faults))) :
    CaseFree A (ofExcept r) (ofExcept r') := by
  rintro i _ ⟨hi, hfaults⟩
  exact .some (h i _ hi) (.intro hi hfaults)

theorem CaseFree.bind {A : α → α → Prop} {B : β → β → Prop} {act act' : Effect α}
    {next next' : α → Effect β} (hact : CaseFree A act act')
    (hnext : ∀ a a', A a a' → CaseFree B (next a) (next' a')) :
    CaseFree B (act >>= next) (act' >>= next') := by
  intro i i' hi
  have hfirst := hact i i' hi
  rw [bind_apply, bind_apply]
  generalize act i = o, act' i' = o' at hfirst ⊢
  cases hfirst with
  | none => exact .none
  | some hanswers hstates =>
    cases hanswers with
    | ok ha => exact hnext _ _ ha _ _ hstates
    | error hfault => exact .some (.error hfault) hstates

theorem rollback_lowered (id : ObjectId) (i : Interpreter) (faults : List Fault) :
    rollback id (i.lowered faults) = (rollback id i).lowered faults := by
  simp only [rollback, Interpreter.lowered]
  cases i.objects.delete id <;> rfl

theorem CaseFree.completing {act act' : Effect Unit} (h : CaseFree Eq act act')
    (id : ObjectId) : CaseFree Eq (completing id act) (completing id act') := by
  intro i i' hi
  have hact := h i i' hi
  rw [Effect.completing, Effect.completing]
  generalize act i = o, act' i' = o' at hact ⊢
  cases hact with
  | none => exact .none
  | some hanswers hstates =>
    cases hanswers with
    | ok ha => exact .some (.ok rfl) hstates
    | error hfault =>
      refine .some (.error hfault) ?_
      obtain ⟨hj, hfaults⟩ := hstates
      rw [rollback_lowered]
      exact (Interpreter.change_sameReading.rollback id _).alike hj hfaults

theorem CaseFree.inFrame {act act' : Effect α} (h : CaseFree Eq act act') (frame : Frame) :
    CaseFree Eq (inFrame frame act) (inFrame frame act') := by
  rintro i _ ⟨hi, hfaults⟩
  have hbody : EndAlike Eq (act (i.pushFrame frame)) (act' ((i.lowered _).pushFrame frame)) :=
    h _ _ (.intro (i := i.pushFrame frame) ⟨hi.settings, hi.functions, hi.objects⟩ hfaults)
  rw [Effect.inFrame, Effect.inFrame]
  generalize act (i.pushFrame frame) = o, act' ((i.lowered _).pushFrame frame) = o' at hbody ⊢
  cases hbody with
  | none => exact .none
  | some hanswers hstates =>
    obtain ⟨hj, hfaults'⟩ := hstates
    exact .some hanswers (.intro ⟨hj.settings, hj.functions, hj.objects⟩ hfaults')

end Effect

theorem Functions.resolveAlong_map {β γ : Type} (g : β → γ) (r : Functions β) (name : String)
    (chain : List String) :
    (r.map g).resolveAlong name chain =
      (r.resolveAlong name chain).map fun (d, rest) => (d.map g, rest) := by
  induction chain with
  | nil => rfl
  | cons q rest ih =>
    have hkey : (r.map g).key (some q) name = r.key (some q) name := rfl
    rw [resolveAlong, resolveAlong, hkey, resolve_map]
    cases r.resolve (r.key (some q) name) with
    | some d => rfl
    | none => exact ih

/-- A registered class has one chain, however it is spelled. -/
theorem Objects.classChain_congr (o : Objects) {c c' : String} (hfold : o.fold c' = o.fold c)
    (hclass : o.isClass c = true) (isDatablock : Bool) :
    o.classChain c' isDatablock = o.classChain c isDatablock := by
  obtain ⟨info, hinfo⟩ := Option.isSome_iff_exists.mp hclass
  have hstep : o.classStep isDatablock c' = o.classStep isDatablock c := by
    rw [classStep, classStep, hfold, hinfo]
  simp only [classChain, classChainFrom, hfold, hstep]

namespace Interpreter

section Lookup

variable {i : Interpreter} (hi : i.IgnoresCase) (faults : List Fault)

include hi

theorem IgnoresCase.key_respell (f : FunctionDecl) :
    (i.lowered faults).functions.key (f.respell lowerAscii).qualifier (f.respell lowerAscii).name =
      i.functions.key f.qualifier f.name := by
  have hqualifier : (f.qualifier.map lowerAscii).map lowerAscii = f.qualifier.map lowerAscii := by
    cases f.qualifier <;> simp
  rw [(hi.lowered faults).key_eq, hi.key_eq, f.qualifier_respell, f.name_respell, hqualifier,
    lowerAscii_lowerAscii]

theorem IgnoresCase.dispatchAlong {chain chain' : List String} {name name' : String}
    (hchain : chain' = chain ∨ ∃ q q', chain = [q] ∧ chain' = [q'] ∧ lowerAscii q' = lowerAscii q)
    (hname : lowerAscii name' = lowerAscii name) (receiver : Option ObjectId) :
    (i.lowered faults).dispatchAlong chain' name' receiver =
      (i.dispatchAlong chain name receiver).map (Dispatch.respell lowerAscii) := by
  have hname' : ∀ chain, i.functions.resolveAlong name' chain =
      i.functions.resolveAlong name chain := by
    intro chain
    induction chain with
    | nil => rfl
    | cons q rest ih =>
      rw [Functions.resolveAlong, Functions.resolveAlong, hi.key_eq, hi.key_eq, hname, ih]
  have hspelling : i.functions.resolveAlong name' chain' =
      i.functions.resolveAlong name chain := by
    rcases hchain with rfl | ⟨q, q', rfl, rfl, hq⟩
    · exact hname' _
    · simp only [Functions.resolveAlong, hi.key_eq, hname, hq, Option.map_some]
  rw [Interpreter.dispatchAlong, Interpreter.dispatchAlong, Interpreter.lowered,
    Functions.resolveAlong_map, hspelling, Option.map_map, Option.map_map]
  rfl

theorem IgnoresCase.qualifierChain {q q' : String} (hq : lowerAscii q' = lowerAscii q) :
    (i.lowered faults).qualifierChain q' = i.qualifierChain q ∨
      i.qualifierChain q = [q] ∧ (i.lowered faults).qualifierChain q' = [q'] := by
  have hfold : i.objects.fold q' = i.objects.fold q := by
    rw [hi.fold_objects, hi.fold_objects, hq]
  have hclass : i.objects.isClass q' = i.objects.isClass q := by
    rw [Objects.isClass, Objects.isClass, hfold]
  simp only [Interpreter.qualifierChain, Interpreter.lowered, hclass]
  split
  · rename_i hregistered
    exact Or.inl (i.objects.classChain_congr hfold hregistered false)
  · exact Or.inr ⟨rfl, rfl⟩

theorem IgnoresCase.dispatchStatic {qualifier qualifier' : Option String} {name name' : String}
    (hqualifier : qualifier'.map lowerAscii = qualifier.map lowerAscii)
    (hname : lowerAscii name' = lowerAscii name) (args : Arguments) :
    AnswersAlike (Dispatch.Respelled lowerAscii) (i.dispatchStatic qualifier name args)
      ((i.lowered faults).dispatchStatic qualifier' name' args) := by
  match qualifier, qualifier', hqualifier with
  | none, none, _ =>
    have hkey : (i.lowered faults).functions.key none name' = i.functions.key none name := by
      rw [hi.key_eq, ← hname, ← hi.key_eq]
      rfl
    simp only [Interpreter.dispatchStatic, hkey]
    rw [Interpreter.lowered, Functions.resolve_map]
    cases i.functions.resolve (i.functions.key none name) with
    | some d => exact .ok rfl
    | none => exact .error (congrArg Fault.unknownFunction hname)
  | some q, some q', hqualifier =>
    have hq : lowerAscii q' = lowerAscii q := Option.some.inj hqualifier
    have hchain := hi.qualifierChain faults hq
    have hhead : lowerAscii (((i.lowered faults).qualifierChain q').headD q') =
        lowerAscii ((i.qualifierChain q).headD q) := by
      rcases hchain with heq | ⟨hone, hone'⟩
      · rw [heq]
        cases i.qualifierChain q with
        | nil => exact hq
        | cons _ _ => rfl
      · rw [hone, hone']
        exact hq
    have hobjects : (i.lowered faults).objects = i.objects := rfl
    simp only [Interpreter.dispatchStatic, hobjects]
    generalize args.head?.bind _ = receiver
    rw [hi.dispatchAlong faults (hchain.imp_right fun h => ⟨q, q', h.1, h.2, hq⟩) hname]
    cases i.dispatchAlong (i.qualifierChain q) name receiver with
    | some d => exact .ok rfl
    | none =>
      refine .error (congrArg Fault.unknownFunction ?_)
      simp only [lowerAscii_append, hhead, hname]

theorem IgnoresCase.dispatchMethod (id : ObjectId) {name name' : String}
    (hname : lowerAscii name' = lowerAscii name) :
    AnswersAlike (Dispatch.Respelled lowerAscii) (i.dispatchMethod id name)
      ((i.lowered faults).dispatchMethod id name') := by
  have hobjects : (i.lowered faults).objects = i.objects := rfl
  simp only [Interpreter.dispatchMethod, hobjects, bind, Except.bind]
  cases i.objects.namespaceChain id with
  | error fault => exact .error rfl
  | ok chain =>
    simp only [hi.dispatchAlong faults (Or.inl rfl : chain = chain ∨ _) hname]
    cases i.dispatchAlong chain name (some id) with
    | some d => exact .ok rfl
    | none =>
      cases i.objects.get id with
      | error fault => exact .error rfl
      | ok object =>
        refine .error (congrArg Fault.unknownFunction ?_)
        simp only [lowerAscii_append, hname]

theorem IgnoresCase.dispatchParent {name name' : String}
    (hname : lowerAscii name' = lowerAscii name) :
    AnswersAlike (Dispatch.Respelled lowerAscii) (i.dispatchParent name)
      ((i.lowered faults).dispatchParent name') := by
  have hframes : (i.lowered faults).frames = i.frames := rfl
  have hfold : (i.lowered faults).fold name' = i.fold name := by
    rw [hi.fold_eq, ← hname, ← hi.fold_eq]
    rfl
  simp only [Interpreter.dispatchParent, hframes, hfold]
  cases i.frames with
  | nil => exact .error (congrArg Fault.noParent hname)
  | cons frame rest =>
    simp only [hi.dispatchAlong faults (Or.inl rfl : frame.fallback = frame.fallback ∨ _) hname]
    rw [Interpreter.lowered, Functions.resolveParent_map]
    cases i.functions.resolveParent _ with
    | some d => exact .ok rfl
    | none =>
      cases i.dispatchAlong frame.fallback name frame.receiver with
      | some d => exact .ok rfl
      | none => exact .error rfl

theorem IgnoresCase.dispatchCall (qualifier : Option String) (name : String) (args : Arguments) :
    AnswersAlike (Dispatch.Respelled lowerAscii) (i.dispatchCall qualifier name args)
      ((i.lowered faults).dispatchCall (qualifier.map lowerAscii) (lowerAscii name) args) := by
  have hparent : (qualifier.map lowerAscii).any isParentQualifier =
      qualifier.any isParentQualifier := by
    cases qualifier with
    | none => rfl
    | some q => simp only [Option.map_some, Option.any_some, isParentQualifier,
        lowerAscii_lowerAscii]
  simp only [Interpreter.dispatchCall, hparent]
  split
  · exact hi.dispatchParent faults (lowerAscii_lowerAscii name)
  · refine hi.dispatchStatic faults ?_ (lowerAscii_lowerAscii name) args
    cases qualifier with
    | none => rfl
    | some q => simp only [Option.map_some, lowerAscii_lowerAscii]

theorem IgnoresCase.bindParameters (parameters : List String) (args : Arguments)
    (vars : Variables) :
    TorqueScript.bindParameters i.fold (parameters.map lowerAscii) args vars =
      TorqueScript.bindParameters i.fold parameters args vars := by
  induction parameters generalizing args vars with
  | nil => rfl
  | cons p rest ih =>
    rw [List.map_cons, TorqueScript.bindParameters, TorqueScript.bindParameters, ih, hi.fold_eq,
      hi.fold_eq, lowerAscii_lowerAscii]

theorem IgnoresCase.enter (d : Dispatch) (f : FunctionDecl) (args : Arguments) :
    (i.lowered faults).enter (d.respell lowerAscii) (f.respell lowerAscii) args =
      i.enter d f args := by
  rw [enter_eq, enter_eq, f.parameters_respell]
  simp only [Interpreter.lowered]
  congr 2
  congr 1
  exact hi.bindParameters f.parameters args ∅

end Lookup

end Interpreter

theorem Functions.declare_congr {β : Type} {r : Functions β} {name name' : String}
    (hfold : r.fold name' = r.fold name) (declared : List (FunctionKey × β)) :
    r.declare name' declared = r.declare name declared := by
  simp only [declare, hfold]

theorem Builtin.run_lowered (f : Builtin) (args : Arguments) (i : Interpreter)
    (faults : List Fault) :
    f.run args (i.lowered faults) = ((f.run args i).1, (f.run args i).2.lowered faults) := by
  cases f with
  | console f => cases f <;> rfl
  | package f =>
    have hrun : f.run args (i.functions.map (Callable.respell lowerAscii)) =
        ((f.run args i.functions).1,
          (f.run args i.functions).2.map (Callable.respell lowerAscii)) := by
      cases f with
      | activatePackage =>
        simp only [PackageFunction.run, Functions.activate_map]
        cases i.functions.activate (args.value 0).toText <;> rfl
      | deactivatePackage => simp only [PackageFunction.run, Functions.map_deactivate]
      | isPackage => simp only [PackageFunction.run, Functions.isPackage_map]
      | isActivePackage => rfl
      | isFunction =>
        simp only [PackageFunction.run, Functions.isFunction_map]
        rfl
    simp only [Builtin.run, Interpreter.lowered, hrun]
  | library f => rfl
  | reference f => rfl
  | query f => rfl
  | change f => rfl

namespace Effect

variable {α : Type}

theorem changeObjects_lowered {f f' : Objects → Except Fault (α × Objects)} {i : Interpreter}
    (hf : f' i.objects = f i.objects) (faults : List Fault) :
    changeObjects f' (i.lowered faults) =
      (changeObjects f i).map fun (r, j) => (r, j.lowered faults) := by
  simp only [changeObjects, Interpreter.lowered, hf]
  cases f i.objects <;> rfl

theorem caseFree_setField (id : ObjectId) {name name' : String}
    (hname : lowerAscii name' = lowerAscii name) (v : Value) :
    CaseFree Eq (setField id name v) (setField id name' v) := by
  refine caseFree_of_eq (Interpreter.change_sameReading.setField id name v) fun i faults hi => ?_
  refine changeObjects_lowered ?_ faults
  simp only [Objects.setField, hi.fold_objects, hname]

theorem caseFree_variablePlace (scope : Scope) (name : String) (vs : List Value) :
    CaseFree Location.Alike (variablePlace scope name vs)
      (variablePlace scope (lowerAscii name) vs) := by
  refine caseFree_ofExcept fun i faults hi => ?_
  have hkey : (i.lowered faults).fold (Value.elementName (lowerAscii name) vs) =
      i.fold (Value.elementName name vs) := by
    rw [(hi.lowered faults).fold_eq, hi.fold_eq, lowerAscii_elementName]
  simp only [hkey]
  cases scope with
  | «local» => exact .ok (.local _)
  | global => exact .ok (.global _)

theorem caseFree_load {l l' : Location} (h : l.Alike l') :
    CaseFree Eq (load l) (load l') := by
  cases h with
  | «local» key => exact caseFree_ofExcept fun _ _ _ => .refl _
  | global key => exact caseFree_ofExcept fun _ _ _ => .refl _
  | @field id name name' hname =>
    refine caseFree_ofExcept fun i faults hi => ?_
    have hfield : (i.lowered faults).objects.field id name' = i.objects.field id name := by
      simp only [Interpreter.lowered, Objects.field, hi.fold_objects, hname]
    rw [hfield]
    exact .refl _

theorem caseFree_store {l l' : Location} (v : Value) (h : l.Alike l') :
    CaseFree Eq (store l v) (store l' v) := by
  have hkeeps := Interpreter.change_sameReading.store l v
  cases h with
  | «local» key =>
    refine caseFree_of_eq hkeeps fun i faults _ => ?_
    simp only [store, Interpreter.setLocal, Interpreter.lowered]
    cases i.frames <;> rfl
  | global key => exact caseFree_of_eq hkeeps fun _ _ _ => rfl
  | field id hname => exact caseFree_setField id hname v

/-- A run and the run of the same code with its names in lower case go side by side. -/
theorem simulation_caseFree : Simulation lowerAscii Location.Alike CaseFree where
  answer r := caseFree_ofExcept fun _ _ _ => .refl r
  bind := CaseFree.bind
  resolve v := caseFree_ofExcept fun _ _ _ => .refl _
  variablePlace := caseFree_variablePlace
  fieldPlace id name vs :=
    caseFree_ofExcept fun _ _ _ => .ok (.field id (lowerAscii_elementName name vs))
  load := caseFree_load
  store := caseFree_store
  dispatchCall qualifier name args :=
    caseFree_ofExcept fun _ faults hi => hi.dispatchCall faults qualifier name args
  dispatchMethod id name :=
    caseFree_ofExcept fun _ faults hi => hi.dispatchMethod faults id (lowerAscii_lowerAscii name)
  dispatchStatic qualifier name args :=
    caseFree_ofExcept fun _ faults hi => hi.dispatchStatic faults rfl rfl args
  enter d f args := by
    refine caseFree_ofExcept fun i faults hi => ?_
    rw [hi.enter]
    exact .refl _
  datablockParent d := caseFree_ofExcept fun _ _ _ => .refl _
  instantiate c name parent datablock :=
    caseFree_of_eq (Interpreter.change_sameReading.closed.instantiate c name parent datablock)
      fun _ faults _ => changeObjects_lowered rfl faults
  setField id name vs v := caseFree_setField id (lowerAscii_elementName name vs) v
  addChild group child :=
    caseFree_of_eq (Interpreter.change_sameReading.addChild group child)
      fun _ faults _ => changeObjects_lowered rfl faults
  define f := by
    refine caseFree_of_eq (Interpreter.change_sameReading.closed.define f) fun i faults hi => ?_
    have hkey := hi.key_respell faults f
    simp only [changeFunctions, Interpreter.lowered, Option.map_some, Functions.map_define]
      at hkey ⊢
    rw [hkey]
    rfl
  declare name functions := by
    refine caseFree_of_eq (Interpreter.change_sameReading.closed.declare name functions)
      fun i faults hi => ?_
    have hname : (i.lowered faults).functions.fold (lowerAscii name) =
        (i.lowered faults).functions.fold name := by
      simp [Functions.fold, foldName, (hi.lowered faults).functions]
    simp only [changeFunctions, Functions.declare_congr hname, List.map_map, Option.map_some]
    simp only [Interpreter.lowered, Functions.map_declare, List.map_map]
    congr 4
    exact List.map_congr_left fun f _ =>
      congrArg (·, Callable.script (f.respell lowerAscii)) (hi.key_respell faults f)
  builtin f args := by
    refine caseFree_of_eq (Interpreter.change_sameReading.builtin f args) fun i faults _ => ?_
    rw [ofBuiltin, f.run_lowered]
    rfl
  host name f args :=
    caseFree_of_eq (Interpreter.change_sameReading.host name f args) fun _ _ _ => rfl
  completing id _ _ h := h.completing id
  inFrame frame _ _ h := h.inFrame frame

end Effect

namespace Interpreter

/-- Programs that end with the same value, in states that are alike, or both do not end. -/
inductive RunAlike : Option (Value × Interpreter) → Option (Value × Interpreter) → Prop
  | none : RunAlike none none
  | some (v : Value) {j j' : Interpreter} : j.Alike j' → RunAlike (some (v, j)) (some (v, j'))

theorem caseFree_topLevel (budget : Nat) (s : Statement) :
    CaseFree Eq (topLevel budget s) (topLevel budget (s.respell lowerAscii)) := by
  have htask {α : Type} (t : Task α) :=
    simulation_caseFree.task (fun _ _ _ _ => EndAlike.none) budget t
  have hstatement : CaseFree Eq (Eval.statement budget s)
      (Eval.statement budget (s.respell lowerAscii)) := htask (.statement s)
  rw [← s.run_topPlan, ← Statement.run_topPlan]
  cases s with
  | expr e => exact htask (.expr e)
  | _ => exact simulation_caseFree.map hstatement _

theorem runStatement_alike {i i' : Interpreter} (h : i.Alike i') (budget : Nat) (s : Statement) :
    RunAlike (i.runStatement budget s) (i'.runStatement budget (s.respell lowerAscii)) := by
  have hrun := caseFree_topLevel budget s i i' h
  rw [runStatement, runStatement]
  generalize topLevel budget s i = o, topLevel budget (s.respell lowerAscii) i' = o' at hrun ⊢
  cases hrun with
  | none => exact .none
  | some hanswers hstates =>
    obtain ⟨hj, hfaults⟩ := hstates
    cases hanswers with
    | ok ha =>
      cases ha
      exact .some _ (.intro ⟨hj.settings, hj.functions, hj.objects⟩ hfaults)
    | error hfault =>
      refine .some _ (.intro ⟨hj.settings, hj.functions, hj.objects⟩ ?_)
      simp only [List.map_append, List.map_cons, List.map_nil, lowered, hfaults, hfault]

theorem runStatements_alike {i i' : Interpreter} (h : i.Alike i') (budget : Nat)
    (program : Program) (last : Value) :
    RunAlike (runStatements budget program last i)
      (runStatements budget (program.respell lowerAscii) last i') := by
  induction program generalizing i i' last with
  | nil => exact .some last h
  | cons s rest ih =>
    have hfirst := runStatement_alike h budget s
    show RunAlike _
      (runStatements budget (s.respell lowerAscii :: Program.respell lowerAscii rest) last i')
    rw [runStatements, runStatements]
    generalize i.runStatement budget s = o,
      i'.runStatement budget (s.respell lowerAscii) = o' at hfirst ⊢
    cases hfirst with
    | none => exact .none
    | some v hstates => exact ih hstates v

/-- What a program leaves behind: its value, what it wrote, the global variables, the objects with
their fields, and the faults but for the case of the names in them. -/
def report (o : Value × Interpreter) : Value × String × Variables × Objects × List Fault :=
  (o.1, o.2.output, o.2.globals, o.2.objects, o.2.faults.map Fault.lowered)

theorem RunAlike.report_eq {o o' : Option (Value × Interpreter)} (h : RunAlike o o') :
    o.map report = o'.map report := by
  cases h with
  | none => rfl
  | some v hstates =>
    obtain ⟨-, hfaults⟩ := hstates
    simp only [Option.map_some, report, lowered, hfaults]

theorem IgnoresCase.report_respell {i : Interpreter} (hi : i.IgnoresCase) (budget : Nat)
    (program : Program) :
    (i.runProgram budget program).map report =
      ((i.lowered i.faults).runProgram budget (program.respell lowerAscii)).map report :=
  (runStatements_alike (.intro (i := { i with topLocals := ∅ })
    ⟨hi.settings, hi.functions, hi.objects⟩ rfl) budget program .undefined).report_eq

theorem ignoresCase_new {settings : Settings} (h : settings.caseSensitive = false)
    (surroundings : Surroundings) : (Interpreter.new settings surroundings).IgnoresCase :=
  ⟨h, functions_new_induction (P := fun r => r.caseSensitive = false) h fun _ _ _ _ _ hr => hr, h⟩

theorem ignoresCase_withHosts {i : Interpreter} (hi : i.IgnoresCase)
    (hosts : List (Option String × String × ChangingHost)) : (i.withHosts hosts).IgnoresCase :=
  withHosts_induction (fun _ _ _ _ hi => ⟨hi.settings, hi.functions, hi.objects⟩) hi hosts

/-- An interpreter that ignores case does not tell apart programs whose names differ in case only:
both programs end or neither does, and they leave the same behind. That is so from every state,
and a new interpreter ignores case when it is set to, whatever functions the host adds and
whatever its surroundings answer. -/
theorem runProgram_ignores_case {p q : Program} (h : p.SameButCase q) (budget : Nat) :
    (∀ i : Interpreter, i.IgnoresCase →
      (i.runProgram budget p).map report = (i.runProgram budget q).map report) ∧
    ∀ (settings : Settings) (surroundings : Surroundings)
      (hosts : List (Option String × String × ChangingHost)), settings.caseSensitive = false →
        ((Interpreter.new settings surroundings).withHosts hosts).IgnoresCase := by
  refine ⟨fun i hi => ?_, fun settings surroundings hosts hcase => ?_⟩
  · rw [hi.report_respell, hi.report_respell, h]
  · exact ignoresCase_withHosts (ignoresCase_new hcase surroundings) hosts

/-- Spellings are mixed in every kind of name: of a package, a function in it, its namespace, a
parameter, a global variable and a parent call. The fault keeps the spelling of each program. -/
theorem runProgram_ignores_case_mixed :
    let base (name : String) : FunctionDecl :=
      ⟨some "tank", name, [], [.return (some (.text "base"))]⟩
    let above (name parameter parent : String) : FunctionDecl :=
      ⟨some "TANK", name, [parameter], [.expr (.assign (.variable .global parameter []) none
        (.read (.variable .local "shell" []))), .return (some (.call (some parent) name []))]⟩
    let p : Program := [.function (base "fire"), .package "Heavy" [above "fire" "shell" "Parent"],
      .expr (.call none "switchOn" [.text "heavy"]), .expr (.call none "Reload" []),
      .expr (.call (some "Tank") "Fire" [.text "AP"])]
    let q : Program := [.function (base "FIRE"), .package "HEAVY" [above "Fire" "Shell" "PARENT"],
      .expr (.call none "SwitchOn" [.text "heavy"]), .expr (.call none "RELOAD" []),
      .expr (.call (some "TANK") "fire" [.text "AP"])]
    let i : Interpreter :=
      { settings := {}
        functions := (Functions.empty false).define ⟨none, "switchon"⟩
          (.builtin (.package .activatePackage))
        objects := .new false }
    p.SameButCase q ∧ i.IgnoresCase ∧
      (i.runProgram 20 p).map (fun o => o.2.faults) = some [.unknownFunction "Reload"] ∧
      (i.runProgram 20 q).map (fun o => o.2.faults) = some [.unknownFunction "RELOAD"] ∧
      (i.runProgram 20 p).map (fun o => (o.1.toText, (o.2.getGlobal "shell").toText)) =
        some ("base", "AP") ∧
      (i.runProgram 20 p).map report = (i.runProgram 20 q).map report := by
  intro base above p q i
  have hlower : ["fire", "Fire", "FIRE", "Heavy", "HEAVY", "shell", "Shell", "Parent", "PARENT",
        "switchOn", "SwitchOn", "Reload", "RELOAD", "Tank", "TANK", "tank"].map Text.lowerAscii =
      ["fire", "fire", "fire", "heavy", "heavy", "shell", "shell", "parent", "parent",
        "switchon", "switchon", "reload", "reload", "tank", "tank", "tank"] := by decide +kernel
  simp only [List.map_cons, List.map_nil, List.cons.injEq, and_true] at hlower
  have hcase : p.SameButCase q := by
    simp only [p, q, base, above, Program.SameButCase, Program.respell, respellBody,
      Statement.respell, respellFunctions, FunctionDecl.respell, respellOption, Expr.respell,
      respellExprs, Place.respell, Option.map_some, Option.map_none, List.map_cons, List.map_nil,
      hlower]
  have hi : i.IgnoresCase := ⟨rfl, rfl, rfl⟩
  refine ⟨hcase, hi, ?_, ?_, ?_, (runProgram_ignores_case hcase 20).1 i hi⟩
  · decide +kernel
  · decide +kernel
  · decide +kernel

end Interpreter

end TorqueScript
