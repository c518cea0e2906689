import TorqueScript.Proofs.Interpreter.Closure
import TorqueScript.Proofs.Functions.History

/-!
Calls are isolated from one another. Code inside a call sees and changes the local variables
of that call and no others; a call as a whole depends on how deeply it is nested, but not on
what the calls around it hold, and leaves them as they were.
-/

namespace TorqueScript

open Effect

/-- An interpreter with other calls in progress and other variables outside functions. -/
def Interpreter.withCalls (i : Interpreter) (frames : List Frame) (top : Variables) :
    Interpreter :=
  { i with frames := frames, topLocals := top }

/-- A call with other local variables. -/
def Frame.withLocals (f : Frame) (vars : Variables) : Frame :=
  { f with locals := vars }

namespace Interpreter

/-- Two interpreters differ at most in what their calls hold and in the variables outside
functions. -/
structure SameOutside (i j : Interpreter) : Prop where
  rest : i.withCalls [] ∅ = j.withCalls [] ∅
  depth : i.frames.length = j.frames.length

@[simp]
theorem withCalls_withCalls (i : Interpreter) (frames frames' : List Frame)
    (top top' : Variables) :
    (i.withCalls frames top).withCalls frames' top' = i.withCalls frames' top' := rfl

theorem withCalls_self (i : Interpreter) : i.withCalls i.frames i.topLocals = i := rfl

theorem SameOutside.withCalls_eq {i j : Interpreter} (h : SameOutside i j) :
    i.withCalls j.frames j.topLocals = j := by
  have hrest := congrArg (·.withCalls j.frames j.topLocals) h.rest
  simpa only [withCalls_withCalls, withCalls_self] using hrest

end Interpreter

namespace Effect

variable {α β : Type}

/-- The effect uses only the local variables of the innermost call. Its outcome is the same
whatever the calls around that one hold, and it leaves those as they were. -/
def Local (act : Effect α) : Prop :=
  ∀ (i : Interpreter) (f : Frame) (depth : Nat),
    ∃ outcome : Option (Except Fault α × Interpreter × Variables),
      ∀ (rest : List Frame) (top : Variables), rest.length = depth →
        act (i.withCalls (f :: rest) top) =
          outcome.map fun (r, i', vars) => (r, i'.withCalls (f.withLocals vars :: rest) top)

/-- The effect uses no local variables at all. -/
def Isolated (act : Effect α) : Prop :=
  ∀ (i : Interpreter) (depth : Nat), ∃ outcome : Option (Except Fault α × Interpreter),
    ∀ (frames : List Frame) (top : Variables), frames.length = depth →
      act (i.withCalls frames top) = outcome.map fun (r, i') => (r, i'.withCalls frames top)

theorem Isolated.local {act : Effect α} (h : Isolated act) : Local act := by
  intro i f depth
  obtain ⟨outcome, hrun⟩ := h i (depth + 1)
  refine ⟨outcome.map fun (r, i') => (r, i', f.locals), fun rest top hdepth => ?_⟩
  rw [hrun (f :: rest) top (by simp [hdepth]), Option.map_map]
  rfl

theorem isolated_ofExcept {r : Interpreter → Except Fault α}
    (h : ∀ (i : Interpreter) (depth : Nat), ∃ answer, ∀ (frames : List Frame) (top : Variables),
      frames.length = depth → r (i.withCalls frames top) = answer) : Isolated (ofExcept r) := by
  intro i depth
  obtain ⟨answer, hanswer⟩ := h i depth
  refine ⟨some (answer, i), fun frames top hdepth => ?_⟩
  rw [ofExcept, hanswer frames top hdepth]
  rfl

theorem local_pure (a : α) : Local (pure a : Effect α) :=
  fun i f _ => ⟨some (.ok a, i, f.locals), fun _ _ _ => rfl⟩

theorem Local.bind {act : Effect α} {next : α → Effect β} (hact : Local act)
    (hnext : ∀ a, Local (next a)) : Local (act >>= next) := by
  intro i f depth
  obtain ⟨outcome, hrun⟩ := hact i f depth
  match outcome, hrun with
  | none, hrun =>
    refine ⟨none, fun rest top hdepth => ?_⟩
    rw [bind_apply, hrun rest top hdepth]
    rfl
  | some (.error fault, i', vars), hrun =>
    refine ⟨some (.error fault, i', vars), fun rest top hdepth => ?_⟩
    rw [bind_apply, hrun rest top hdepth]
    rfl
  | some (.ok a, i', vars), hrun =>
    obtain ⟨outcome', hrun'⟩ := hnext a i' (f.withLocals vars) depth
    refine ⟨outcome', fun rest top hdepth => ?_⟩
    rw [bind_apply, hrun rest top hdepth]
    exact hrun' rest top hdepth

theorem Isolated.bind {act : Effect α} {next : α → Effect β} (hact : Isolated act)
    (hnext : ∀ a, Isolated (next a)) : Isolated (act >>= next) := by
  intro i depth
  obtain ⟨outcome, hrun⟩ := hact i depth
  match outcome, hrun with
  | none, hrun =>
    refine ⟨none, fun frames top hdepth => ?_⟩
    rw [bind_apply, hrun frames top hdepth]
    rfl
  | some (.error fault, i'), hrun =>
    refine ⟨some (.error fault, i'), fun frames top hdepth => ?_⟩
    rw [bind_apply, hrun frames top hdepth]
    rfl
  | some (.ok a, i'), hrun =>
    obtain ⟨outcome', hrun'⟩ := hnext a i' depth
    refine ⟨outcome', fun frames top hdepth => ?_⟩
    rw [bind_apply, hrun frames top hdepth]
    exact hrun' frames top hdepth

theorem isolated_pure (a : α) : Isolated (pure a : Effect α) :=
  fun i _ => ⟨some (.ok a, i), fun _ _ _ => rfl⟩

theorem isolated_exhausted : Isolated (exhausted : Effect α) :=
  fun _ _ => ⟨none, fun _ _ _ => rfl⟩

/-- What is looked up in the registries does not depend on calls. -/
theorem isolated_lookup {r : Interpreter → Except Fault α}
    (h : ∀ i, r i.registries = r i) : Isolated (ofExcept r) :=
  isolated_ofExcept fun i _ =>
    ⟨r i.registries, fun frames top _ => (h (i.withCalls frames top)).symm⟩

theorem isolated_changeObjects (f : Objects → Except Fault (α × Objects)) :
    Isolated (changeObjects f) := by
  intro i depth
  cases hf : f i.objects with
  | ok p =>
    obtain ⟨a, objects⟩ := p
    refine ⟨some (.ok a, { i with objects := objects }), fun frames top _ => ?_⟩
    simp only [changeObjects, Interpreter.withCalls, hf, Option.map_some]
  | error fault =>
    refine ⟨some (.error fault, i), fun frames top _ => ?_⟩
    simp only [changeObjects, Interpreter.withCalls, hf, Option.map_some]

theorem isolated_changeFunctions (f : Functions Callable → Functions Callable) :
    Isolated (changeFunctions f) :=
  fun i _ => ⟨some (.ok (), { i with functions := f i.functions }), fun _ _ _ => rfl⟩

theorem run_withCalls (f : Builtin) (args : Arguments) (i : Interpreter) (frames : List Frame)
    (top : Variables) :
    f.run args (i.withCalls frames top) =
      ((f.run args i).1, (f.run args i).2.withCalls frames top) := by
  cases f with
  | console f => cases f <;> rfl
  | library f | package f | reference f | query f | change f => rfl

theorem isolated_ofBuiltin (f : Builtin) (args : Arguments) : Isolated (ofBuiltin f args) := by
  intro i depth
  refine ⟨some (f.run args i), fun frames top _ => ?_⟩
  simp only [ofBuiltin, run_withCalls, Option.map_some]

theorem isolated_host (name : String) (f : ChangingHost) (args : Arguments) :
    Isolated (askHost name f args) :=
  fun i _ => ⟨askHost name f args i, fun _ _ _ => rfl⟩

theorem isolated_enter (d : Dispatch) (f : FunctionDecl) (args : Arguments) :
    Isolated (ofExcept fun i => i.enter d f args) := by
  refine isolated_ofExcept fun i depth =>
    ⟨if 0 < i.settings.maxDepth && i.settings.maxDepth ≤ depth then
      .error (.tooDeep i.settings.maxDepth)
    else .ok ⟨bindParameters i.fold f.parameters args ∅, d.definition.slot, d.fallback, d.receiver⟩,
    ?_⟩
  rintro frames top rfl
  rfl

/-- A call keeps the variables of its body to itself. -/
theorem isolated_inFrame {act : Effect α} (h : Local act) (frame : Frame) :
    Isolated (inFrame frame act) := by
  intro i depth
  obtain ⟨outcome, hrun⟩ := h i frame depth
  refine ⟨outcome.map fun (r, i', _) => (r, i'), fun frames top hdepth => ?_⟩
  have hbody : act ((i.withCalls frames top).pushFrame frame) = _ := hrun frames top hdepth
  rw [inFrame, hbody]
  cases outcome <;> rfl

theorem local_load (l : Location) : Local (load l) := by
  cases l with
  | «local» key =>
    intro i f _
    exact ⟨some (.ok (f.locals.value key), i, f.locals), fun _ _ _ => rfl⟩
  | global key =>
    intro i f _
    exact ⟨some (.ok (i.globals.value key), i, f.locals), fun _ _ _ => rfl⟩
  | field id name => exact (isolated_lookup fun _ => rfl).local

theorem local_store (l : Location) (v : Value) : Local (store l v) := by
  cases l with
  | «local» key => exact fun i f _ => ⟨some (.ok (), i, f.locals.insert key v), fun _ _ _ => rfl⟩
  | global key =>
    exact fun i f _ => ⟨some (.ok (), i.setGlobalKey key v, f.locals), fun _ _ _ => rfl⟩
  | field id name =>
    exact (isolated_changeObjects fun o => (o.setField id name v).map ((), ·)).local

theorem local_parent (name : String) : Local (ofExcept fun i => i.dispatchParent name) :=
  fun i f _ =>
    ⟨some ((i.withCalls [f] ∅).dispatchParent name, i, f.locals), fun _ _ _ => rfl⟩

theorem Local.completing {act : Effect Unit} (h : Local act) (id : ObjectId) :
    Local (completing id act) := by
  intro i f depth
  obtain ⟨outcome, hrun⟩ := h i f depth
  match outcome, hrun with
  | none, hrun =>
    refine ⟨none, fun rest top hdepth => ?_⟩
    rw [Effect.completing, hrun rest top hdepth]
    rfl
  | some (.ok (), i', vars), hrun =>
    refine ⟨some (.ok id, i', vars), fun rest top hdepth => ?_⟩
    rw [Effect.completing, hrun rest top hdepth]
    rfl
  | some (.error fault, i', vars), hrun =>
    refine ⟨some (.error fault, rollback id i', vars), fun rest top hdepth => ?_⟩
    rw [Effect.completing, hrun rest top hdepth]
    simp only [Option.map_some, rollback, Interpreter.withCalls]
    cases i'.objects.delete id <;> rfl

theorem closed_local : Closed Local where
  pure := local_pure
  bind := Local.bind
  exhausted := isolated_exhausted.local
  lookup _ h := (isolated_lookup h).local
  load := local_load
  store := local_store
  parent := local_parent
  enter d f args := (isolated_enter d f args).local
  instantiate _ _ _ _ := (isolated_changeObjects _).local
  setField _ _ _ := (isolated_changeObjects _).local
  addChild _ _ := (isolated_changeObjects _).local
  define _ := (isolated_changeFunctions _).local
  declare _ _ := (isolated_changeFunctions _).local
  builtin f args := (isolated_ofBuiltin f args).local
  host name f args := (isolated_host name f args).local
  completing id _ h := h.completing id
  inFrame frame _ h := (isolated_inFrame h frame).local

end Effect

namespace Eval

/-- A call uses no local variables but its own. -/
theorem isolated_invoke (n : Nat) (d : Dispatch) (args : Arguments) :
    Isolated (invoke n d args) := by
  induction n generalizing d args with
  | zero => exact isolated_exhausted
  | succ n ih =>
    rw [invoke]
    cases d.definition.body with
    | script f =>
      have hbody : Local (block n f.body) := (closed_local.all n).block f.body
      refine (isolated_enter d f args).bind fun frame => ?_
      exact (isolated_inFrame hbody frame).bind fun flow => isolated_pure _
    | byName => exact (isolated_lookup fun _ => rfl).bind fun d => ih d _
    | builtin f => exact isolated_ofBuiltin f args
    | host f => exact isolated_host _ f args

end Eval

/-- Local variables leak neither into a call nor out of it. A call that ends, in a value or in a
fault, leaves the calls around it and the variables outside functions as they were; and from
a state with other ones it ends too, in the same way and with the same change to all else. -/
theorem invoke_ignores_locals {i j : Interpreter} (hsame : i.SameOutside j) {budget : Nat}
    {d : Dispatch} {args : Arguments} {r : Except Fault Value} {i' : Interpreter}
    (hrun : Eval.invoke budget d args i = some (r, i')) :
    i'.frames = i.frames ∧ i'.topLocals = i.topLocals ∧
    ∃ j', Eval.invoke budget d args j = some (r, j') ∧ i'.SameOutside j' ∧
      j'.frames = j.frames ∧ j'.topLocals = j.topLocals := by
  obtain ⟨outcome, hall⟩ := Eval.isolated_invoke budget d args i i.frames.length
  have hi := hall i.frames i.topLocals rfl
  have hj := hall j.frames j.topLocals hsame.depth.symm
  rw [Interpreter.withCalls_self, hrun] at hi
  rw [hsame.withCalls_eq] at hj
  cases outcome with
  | none => cases hi
  | some o =>
    obtain ⟨r', core⟩ := o
    cases hi
    refine ⟨rfl, rfl, core.withCalls j.frames j.topLocals, hj, ⟨rfl, hsame.depth⟩, rfl, rfl⟩

/-- The function `outer` calls `inner`, which sets a variable that its caller, the code around
that and the code outside functions all have under the same name. -/
theorem invoke_ignores_locals_nested :
    let var (name : String) : Place := .variable .local name []
    let inner : FunctionDecl := ⟨none, "inner", ["y"],
      [.expr (.assign (var "z") none (.read (var "y"))), .return (some (.read (var "z")))]⟩
    let outer : FunctionDecl := ⟨none, "outer", ["x"],
      [.expr (.assign (var "y") none (.call none "inner" [.read (var "x")])),
        .return (some (.binary .concat (.read (var "y")) (.read (var "z"))))]⟩
    let d : Dispatch := ⟨⟨.script outer, ⟨⟨none, "outer"⟩, none⟩⟩, [], none⟩
    let vars (s : String) : Variables := (∅ : Variables).insert "z" (.text s)
    let state (s : String) : Interpreter :=
      { settings := {}
        topLocals := vars s
        frames := [⟨vars s, ⟨⟨none, s⟩, none⟩, [], none⟩]
        functions := (Functions.empty false).define ⟨none, "inner"⟩ (.script inner)
        objects := .new false }
    (state "one").SameOutside (state "two") ∧
    Eval.invoke 12 d [.text "a"] (state "one") = some (.ok (.text "a"), state "one") ∧
    ∃ j', Eval.invoke 12 d [.text "a"] (state "two") = some (.ok (.text "a"), j') ∧
      (state "one").SameOutside j' ∧ j'.frames = (state "two").frames ∧
      j'.topLocals = (state "two").topLocals := by
  intro var inner outer d vars state
  have hsame : (state "one").SameOutside (state "two") := ⟨rfl, rfl⟩
  have hrun : Eval.invoke 12 d [.text "a"] (state "one") =
      some (.ok (.text "a"), state "one") := rfl
  exact ⟨hsame, hrun, (invoke_ignores_locals hsame hrun).2.2⟩

end TorqueScript
