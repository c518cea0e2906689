import TorqueScript.Interpreter.Session
import TorqueScript.Proofs.Functions.History
import TorqueScript.Proofs.Interpreter.Isolation
import TorqueScript.Proofs.Objects.History

/-!
Runs change the registries by their operations only. What a run can do to an interpreter is
said once, as a list of single changes; a relation between states that holds of each of them,
and of one change after the other, holds of every run. So every invariant of the operations
is an invariant of the interpreter, whatever scripts it runs and however they end.
-/

namespace TorqueScript

open Effect

namespace Objects

theorem run_append (o : Objects) (ops ops' : List Operation) :
    o.run (ops ++ ops') = (o.run ops).run ops' :=
  List.foldl_append

theorem step_of_apply {o o' : Objects} {op : Operation} (h : o.apply op = .ok o') :
    o.step op = o' := by
  rw [step, h]

theorem step_instantiate {o o' : Objects} {className : String} {name : Option String}
    {parent : Option ObjectId} {isDatablock : Bool} {id : ObjectId}
    (h : o.instantiate className name parent isDatablock = .ok (id, o')) :
    o.step (.instantiate className name parent isDatablock) = o' :=
  step_of_apply (by rw [apply, h]; rfl)

end Objects

/-- Changing members one after the other is a history, one operation for each. -/
theorem ObjectChange.exists_run_forMembers
    {change : Objects → ObjectId → ObjectId → Except Fault Objects}
    (operation : ObjectId → ObjectId → Objects.Operation)
    (hchange : ∀ o g c, o.apply (operation g c) = change o g c) (group : ObjectId)
    (args : Arguments) (o : Objects) : ∃ ops, (forMembers change group args o).2 = o.run ops := by
  induction args generalizing o with
  | nil => exact ⟨[], rfl⟩
  | cons v rest ih =>
    cases hfound : o.resolve v with
    | error fault =>
      refine ⟨[], ?_⟩
      rw [forMembers, hfound]
      rfl
    | ok child =>
      cases hdone : change o group child with
      | error fault =>
        refine ⟨[], ?_⟩
        simp only [forMembers, hfound, Except.bind, hdone]
        rfl
      | ok o' =>
        have hstep : o.step (operation group child) = o' :=
          Objects.step_of_apply (by rw [hchange, hdone])
        obtain ⟨ops, hops⟩ := ih o'
        refine ⟨operation group child :: ops, ?_⟩
        simp only [forMembers, hfound, Except.bind, hdone]
        rw [hops, ← hstep]
        rfl

theorem ObjectChange.exists_run (f : ObjectChange) (args : Arguments) (o : Objects) :
    ∃ ops, (f.run args o).2 = o.run ops := by
  cases hfound : o.resolve (args.value 0) with
  | error fault =>
    refine ⟨[], ?_⟩
    rw [run, hfound]
    rfl
  | ok id =>
    cases f with
    | delete =>
      cases hdone : o.delete id with
      | error fault =>
        refine ⟨[], ?_⟩
        simp only [run, hfound, hdone]
        rfl
      | ok o' =>
        have hstep : o.step (.delete id) = o' := Objects.step_of_apply hdone
        refine ⟨[.delete id], ?_⟩
        simp only [run, hfound, hdone]
        exact hstep.symm
    | add =>
      simp only [run, hfound]
      exact exists_run_forMembers .addChild (fun _ _ _ => rfl) id args.tail o
    | remove =>
      simp only [run, hfound]
      exact exists_run_forMembers .removeChild (fun _ _ _ => rfl) id args.tail o

theorem PackageFunction.exists_run (f : PackageFunction) (args : Arguments)
    (r : Functions Callable) : ∃ ops, (f.run args r).2 = r.run ops := by
  cases f with
  | activatePackage =>
    refine ⟨[.activate (args.value 0).toText], ?_⟩
    simp only [run, Functions.run, List.foldl_cons, List.foldl_nil, Functions.step, Functions.apply]
    cases r.activate (args.value 0).toText <;> rfl
  | deactivatePackage => exact ⟨[.deactivate (args.value 0).toText], rfl⟩
  | isPackage => exact ⟨[], rfl⟩
  | isActivePackage => exact ⟨[], rfl⟩
  | isFunction => exact ⟨[], rfl⟩

/-- A relation between states that every single change of a run keeps to: an operation on one of
the registries, the setting of a variable, writing, or a question to the surroundings. It also
passes from the body of a call to the call. -/
structure Interpreter.Change (S : Interpreter → Interpreter → Prop) : Prop where
  refl (i : Interpreter) : S i i
  trans {i j k : Interpreter} : S i j → S j k → S i k
  objects (i : Interpreter) (op : Objects.Operation) :
    S i { i with objects := i.objects.step op }
  functions (i : Interpreter) (op : Functions.Operation Callable) :
    S i { i with functions := i.functions.step op }
  setLocal (i : Interpreter) (key : String) (v : Value) : S i (i.setLocal key v)
  setGlobal (i : Interpreter) (key : String) (v : Value) : S i (i.setGlobalKey key v)
  write (i : Interpreter) (text : String) : S i { i with output := text }
  ask (i : Interpreter) : S i i.ask
  frame (f : Frame) {i j : Interpreter} : S (i.pushFrame f) j → S i j.popFrame

/-- However the effect ends, the state it ends in is related to the one it began in. -/
def Effect.Keeps (S : Interpreter → Interpreter → Prop) {α : Type} (act : Effect α) : Prop :=
  ∀ i r i', act i = some (r, i') → S i i'

theorem Effect.Keeps.bind {S : Interpreter → Interpreter → Prop} {α β : Type} {act : Effect α}
    {next : α → Effect β} (hact : Keeps S act) (htrans : ∀ {i j k}, S i j → S j k → S i k)
    (hnext : ∀ a, Keeps S (next a)) : Keeps S (act >>= next) := by
  intro i r k hrun
  rcases bind_eq_some.mp hrun with ⟨a, j, hfirst, hrest⟩ | ⟨fault, hfirst, -⟩
  · exact htrans (hact i _ j hfirst) (hnext a j r k hrest)
  · exact hact i _ k hfirst

namespace Interpreter.Change

variable {S : Interpreter → Interpreter → Prop} (h : Change S)

include h

theorem runObjects (i : Interpreter) (ops : List Objects.Operation) :
    S i { i with objects := i.objects.run ops } := by
  induction ops generalizing i with
  | nil => exact h.refl i
  | cons op rest ih => exact h.trans (h.objects i op) (ih _)

theorem runFunctions (i : Interpreter) (ops : List (Functions.Operation Callable)) :
    S i { i with functions := i.functions.run ops } := by
  induction ops generalizing i with
  | nil => exact h.refl i
  | cons op rest ih => exact h.trans (h.functions i op) (ih _)

theorem ofExcept {α : Type} (r : Interpreter → Except Fault α) : Keeps S (Effect.ofExcept r) := by
  intro i result i' hrun
  cases hrun
  exact h.refl i

/-- A change of the objects that is an operation whenever it succeeds. -/
theorem changeObjects {α : Type} {f : Objects → Except Fault (α × Objects)}
    (op : Objects.Operation) (hop : ∀ o a o', f o = .ok (a, o') → o.step op = o') :
    Keeps S (Effect.changeObjects f) := by
  intro i r i' hrun
  rw [Effect.changeObjects] at hrun
  split at hrun
  · rename_i a o' hf
    cases hrun
    rw [← hop _ a o' hf]
    exact h.objects i op
  · cases hrun
    exact h.refl i

theorem setField (id : ObjectId) (name : String) (v : Value) :
    Keeps S (Effect.setField id name v) := by
  refine h.changeObjects (.setField id name v) fun o a o' hf => ?_
  cases hset : o.setField id name v with
  | error fault => rw [hset] at hf; cases hf
  | ok made =>
    rw [hset] at hf
    cases hf
    exact Objects.step_of_apply hset

theorem addChild (group child : ObjectId) : Keeps S (Effect.addChild group child) := by
  refine h.changeObjects (.addChild group child) fun o a o' hf => ?_
  cases hadd : o.addChild group child with
  | error fault => rw [hadd] at hf; cases hf
  | ok made =>
    rw [hadd] at hf
    cases hf
    exact Objects.step_of_apply hadd

theorem store (l : Location) (v : Value) : Keeps S (Effect.store l v) := by
  cases l with
  | «local» key =>
    intro i r i' hrun
    cases hrun
    exact h.setLocal i key v
  | global key =>
    intro i r i' hrun
    cases hrun
    exact h.setGlobal i key v
  | field id name => exact h.setField id name v

theorem load (l : Location) : Keeps S (Effect.load l) := by
  cases l <;> exact h.ofExcept _

theorem console (f : ConsoleFunction) (args : Arguments) (i : Interpreter) :
    S i (f.run args i).2 := by
  cases f with
  | echo => exact h.write i _
  | warn => exact h.refl i
  | error => exact h.refl i
  | getRealTime => exact h.ask i
  | getRandom => exact h.ask i

theorem host (name : String) (f : ChangingHost) (args : Arguments) :
    Keeps S (askHost name f args) := by
  intro i r i' hrun
  cases hrun
  exact h.ask i

theorem builtin (f : Builtin) (args : Arguments) : Keeps S (ofBuiltin f args) := by
  intro i r i' hrun
  cases f with
  | library f => cases hrun; exact h.refl i
  | reference f => cases hrun; exact h.refl i
  | query f => cases hrun; exact h.refl i
  | console f =>
    cases hrun
    exact h.console f args i
  | package f =>
    obtain ⟨ops, hops⟩ := f.exists_run args i.functions
    have hend : { i with functions := (f.run args i.functions).2 } = i' :=
      (Prod.mk.inj (Option.some.inj hrun)).2
    rw [← hend, hops]
    exact h.runFunctions i ops
  | change f =>
    obtain ⟨ops, hops⟩ := f.exists_run args i.objects
    have hend : { i with objects := (f.run args i.objects).2 } = i' :=
      (Prod.mk.inj (Option.some.inj hrun)).2
    rw [← hend, hops]
    exact h.runObjects i ops

theorem rollback (id : ObjectId) (i : Interpreter) : S i (Effect.rollback id i) := by
  rw [Effect.rollback]
  split
  · rename_i o' hdelete
    have hstep : i.objects.step (.delete id) = o' := Objects.step_of_apply hdelete
    rw [← hstep]
    exact h.objects i _
  · exact h.refl i

theorem bind {α β : Type} {act : Effect α} {next : α → Effect β} (hact : Keeps S act)
    (hnext : ∀ a, Keeps S (next a)) : Keeps S (act >>= next) :=
  hact.bind h.trans hnext

theorem completing (id : ObjectId) {act : Effect Unit} (hact : Keeps S act) :
    Keeps S (Effect.completing id act) := by
  intro i r i' hrun
  rw [Effect.completing] at hrun
  split at hrun
  · cases hrun
  · rename_i j hdone
    cases hrun
    exact hact i _ _ hdone
  · rename_i fault j hfailed
    cases hrun
    exact h.trans (hact i _ j hfailed) (h.rollback id j)

theorem inFrame {α : Type} (frame : Frame) {act : Effect α} (hact : Keeps S act) :
    Keeps S (Effect.inFrame frame act) := by
  intro i r i' hrun
  rw [Effect.inFrame] at hrun
  split at hrun
  · cases hrun
  · rename_i result j hbody
    cases hrun
    exact h.frame frame (hact _ _ j hbody)

/-- What holds of every single change holds of every run. -/
theorem closed : Closed (Keeps S) where
  pure a := h.ofExcept fun _ => .ok a
  bind := h.bind
  exhausted := fun i r i' hrun => by cases hrun
  lookup r _ := h.ofExcept r
  load := h.load
  store := h.store
  parent name := h.ofExcept _
  enter d f args := h.ofExcept _
  instantiate c name parent datablock :=
    h.changeObjects (.instantiate c name parent datablock) fun _ _ _ => Objects.step_instantiate
  setField := h.setField
  addChild := h.addChild
  define f i r i' hrun := by
    cases hrun
    exact h.functions i (.define (i.functions.key f.qualifier f.name) (.script f))
  declare name functions i r i' hrun := by
    cases hrun
    exact h.functions i (.declare name
      (functions.map fun f => (i.functions.key f.qualifier f.name, .script f)))
  builtin := h.builtin
  host := h.host
  completing id _ := h.completing id
  inFrame frame _ := h.inFrame frame

end Interpreter.Change

namespace Interpreter

/-- The registries of `j` come from those of `i` by operations. -/
structure ByOperations (i j : Interpreter) : Prop where
  objects : ∃ ops, j.objects = i.objects.run ops
  functions : ∃ ops, j.functions = i.functions.run ops

/-- As many calls are in progress, under the same settings. -/
structure SameDepth (i j : Interpreter) : Prop where
  settings : j.settings = i.settings
  depth : j.frames.length = i.frames.length

theorem change_byOperations : Change ByOperations where
  refl i := ⟨⟨[], rfl⟩, ⟨[], rfl⟩⟩
  trans hij hjk := by
    obtain ⟨⟨objects, hobjects⟩, ⟨functions, hfunctions⟩⟩ := hij
    obtain ⟨⟨objects', hobjects'⟩, ⟨functions', hfunctions'⟩⟩ := hjk
    refine ⟨⟨objects ++ objects', ?_⟩, ⟨functions ++ functions', ?_⟩⟩
    · rw [hobjects', hobjects, Objects.run_append]
    · rw [hfunctions', hfunctions, Functions.run_append]
  objects i op := ⟨⟨[op], rfl⟩, ⟨[], rfl⟩⟩
  functions i op := ⟨⟨[], rfl⟩, ⟨[op], rfl⟩⟩
  setLocal i key v := by
    rw [Interpreter.setLocal]
    split <;> exact ⟨⟨[], rfl⟩, ⟨[], rfl⟩⟩
  setGlobal i key v := ⟨⟨[], rfl⟩, ⟨[], rfl⟩⟩
  write i text := ⟨⟨[], rfl⟩, ⟨[], rfl⟩⟩
  ask i := ⟨⟨[], rfl⟩, ⟨[], rfl⟩⟩
  frame f _ _ h := ⟨h.objects, h.functions⟩

theorem change_sameDepth : Change SameDepth where
  refl i := ⟨rfl, rfl⟩
  trans hij hjk := ⟨hjk.settings.trans hij.settings, hjk.depth.trans hij.depth⟩
  objects i op := ⟨rfl, rfl⟩
  functions i op := ⟨rfl, rfl⟩
  setLocal i key v := by
    rw [Interpreter.setLocal]
    split
    · rename_i f rest hframes
      exact ⟨rfl, by rw [hframes]; rfl⟩
    · exact ⟨rfl, rfl⟩
  setGlobal i key v := ⟨rfl, rfl⟩
  write i text := ⟨rfl, rfl⟩
  ask i := ⟨rfl, rfl⟩
  frame f i j h := by
    refine ⟨h.settings, ?_⟩
    have hdepth : j.frames.length = i.frames.length + 1 := h.depth
    show j.frames.tail.length = i.frames.length
    rw [List.length_tail, hdepth, Nat.add_sub_cancel]

theorem functions_new_induction {settings : Settings} {surroundings : Surroundings}
    {P : Functions Callable → Prop}
    (hempty : P { caseSensitive := settings.caseSensitive })
    (hdefine : ∀ r qualifier name f, (qualifier, name, f) ∈ Callable.initial → P r →
      P (r.define (r.key qualifier name) f)) :
    P (Interpreter.new settings surroundings).functions :=
  List.foldlRecOn Callable.initial _ hempty fun r hr _ hd => hdefine r _ _ _ hd hr

/-- An interpreter with functions of the host added, one after the other. -/
def withHosts (i : Interpreter) (hosts : List (Option String × String × ChangingHost)) :
    Interpreter :=
  hosts.foldl (fun i (qualifier, name, f) => i.registerChangingHost qualifier name f) i

theorem withHosts_induction {P : Interpreter → Prop}
    (hP : ∀ i qualifier name f, P i → P (i.registerChangingHost qualifier name f))
    {i : Interpreter} (hi : P i) (hosts : List (Option String × String × ChangingHost)) :
    P (i.withHosts hosts) := by
  induction hosts generalizing i with
  | nil => exact hi
  | cons host rest ih => exact ih (hP i _ _ _ hi)

theorem Change.topLevel {S : Interpreter → Interpreter → Prop} (h : Change S) (budget : Nat)
    (s : Statement) : Keeps S (topLevel budget s) :=
  h.closed.topLevel budget s

/-- A state that comes from `i` by requests of the program around the interpreter: running programs
and sources, calls of functions, and packages switched on and off. Requests that fail before
anything runs change nothing. -/
inductive Session (i : Interpreter) : Interpreter → Prop
  | start : Session i i
  | program {j k : Interpreter} {budget : Nat} {program : Program} {v : Value} :
      Session i j → j.runProgram budget program = some (v, k) → Session i k
  | eval {j k : Interpreter} {budget : Nat} {source : String} {v : Value} :
      Session i j → j.eval budget source = .ok (some (v, k)) → Session i k
  | call {j k : Interpreter} {budget : Nat} {qualifier : Option String} {name : String}
      {args : Arguments} {r : Except Fault Value} :
      Session i j → j.call budget qualifier name args = some (r, k) → Session i k
  | activate {j k : Interpreter} {package : String} :
      Session i j → j.activate package = .ok k → Session i k
  | deactivate {j : Interpreter} {package : String} :
      Session i j → Session i (j.deactivate package)

theorem byOperations_runStatement {i j : Interpreter} {budget : Nat} {s : Statement} {v : Value}
    (h : i.runStatement budget s = some (v, j)) : i.ByOperations j := by
  rw [runStatement] at h
  split at h
  · cases h
  · rename_i w k hrun
    cases h
    have hk := change_byOperations.topLevel budget s i _ k hrun
    exact ⟨hk.objects, hk.functions⟩
  · rename_i fault k hrun
    cases h
    have hk := change_byOperations.topLevel budget s i _ k hrun
    exact ⟨hk.objects, hk.functions⟩

theorem byOperations_runStatements {budget : Nat} (program : Program) {i j : Interpreter}
    {last v : Value} (h : runStatements budget program last i = some (v, j)) :
    i.ByOperations j := by
  induction program generalizing i last with
  | nil =>
    cases h
    exact change_byOperations.refl _
  | cons s rest ih =>
    rw [runStatements] at h
    split at h
    · cases h
    · rename_i w k hfirst
      exact change_byOperations.trans (byOperations_runStatement hfirst) (ih h)

theorem byOperations_runProgram {i j : Interpreter} {budget : Nat} {program : Program} {v : Value}
    (h : i.runProgram budget program = some (v, j)) : i.ByOperations j := by
  have hrun := byOperations_runStatements program h
  exact ⟨hrun.objects, hrun.functions⟩

/-- After a statement no call is in progress. -/
theorem frames_runStatement {budget : Nat} {s : Statement} {i j : Interpreter} {v : Value}
    (h : i.runStatement budget s = some (v, j)) : j.frames = [] := by
  rw [runStatement] at h
  split at h <;> cases h <;> rfl

theorem frames_runStatements {budget : Nat} (program : Program) {i j : Interpreter}
    {last v : Value} (hi : i.frames = []) (h : runStatements budget program last i = some (v, j)) :
    j.frames = [] := by
  induction program generalizing i last with
  | nil =>
    cases h
    exact hi
  | cons s rest ih =>
    rw [runStatements] at h
    split at h
    · cases h
    · rename_i w k hfirst
      exact ih (frames_runStatement hfirst) h

theorem frames_runProgram {i j : Interpreter} {budget : Nat} {program : Program} {v : Value}
    (hi : i.frames = []) (h : i.runProgram budget program = some (v, j)) : j.frames = [] :=
  frames_runStatements (i := { i with topLocals := ∅ }) program hi h

theorem exists_of_activate {i j : Interpreter} {package : String}
    (h : i.activate package = .ok j) :
    ∃ r, i.functions.activate package = .ok r ∧ j = { i with functions := r } := by
  rw [activate] at h
  cases hr : i.functions.activate package with
  | error fault => rw [hr] at h; cases h
  | ok r =>
    rw [hr] at h
    cases h
    exact ⟨r, rfl, rfl⟩

theorem exists_program_of_eval {i j : Interpreter} {budget : Nat} {source : String} {v : Value}
    (h : i.eval budget source = .ok (some (v, j))) :
    ∃ program, i.runProgram budget program = some (v, j) := by
  rw [eval] at h
  cases hread : Program.ofText source with
  | error e => rw [hread] at h; cases h
  | ok program =>
    rw [hread] at h
    exact ⟨program, Except.ok.inj h⟩

theorem Change.call {S : Interpreter → Interpreter → Prop} (hS : Change S) {i j : Interpreter}
    {budget : Nat} {qualifier : Option String} {name : String} {args : Arguments}
    {r : Except Fault Value} (h : i.call budget qualifier name args = some (r, j)) : S i j := by
  rw [Interpreter.call] at h
  split at h
  · exact (hS.closed.all budget).invoke _ args i r j h
  · cases h
    exact hS.refl i

namespace Session

variable {i j : Interpreter}

theorem byOperations (h : Session i j) : i.ByOperations j := by
  induction h with
  | start => exact change_byOperations.refl i
  | program _ hrun ih => exact change_byOperations.trans ih (byOperations_runProgram hrun)
  | eval _ hrun ih =>
    obtain ⟨program, hprogram⟩ := exists_program_of_eval hrun
    exact change_byOperations.trans ih (byOperations_runProgram hprogram)
  | call _ hcall ih => exact change_byOperations.trans ih (change_byOperations.call hcall)
  | @activate j k package _ hactivate ih =>
    obtain ⟨r, hr, rfl⟩ := exists_of_activate hactivate
    refine change_byOperations.trans ih ⟨⟨[], rfl⟩, ⟨[.activate package], ?_⟩⟩
    simp [Functions.run, Functions.step, Functions.apply, hr]
  | @deactivate j package _ ih =>
    exact change_byOperations.trans ih ⟨⟨[], rfl⟩, ⟨[.deactivate package], rfl⟩⟩

theorem frames_eq_nil (h : Session i j) (hi : i.frames = []) : j.frames = [] := by
  induction h with
  | start => exact hi
  | program _ hrun ih => exact frames_runProgram ih hrun
  | eval _ hrun ih =>
    obtain ⟨program, hprogram⟩ := exists_program_of_eval hrun
    exact frames_runProgram ih hprogram
  | call _ hcall ih =>
    have hdepth := (change_sameDepth.call hcall).depth
    rw [ih] at hdepth
    exact List.eq_nil_of_length_eq_zero hdepth
  | activate _ hactivate ih =>
    obtain ⟨r, -, rfl⟩ := exists_of_activate hactivate
    exact ih
  | deactivate _ ih => exact ih

end Session

end Interpreter

theorem Objects.run_induction {P : Objects → Prop} (hP : ∀ o op, P o → P (o.step op)) {o : Objects}
    (ho : P o) (ops : List Operation) : P (o.run ops) := by
  induction ops generalizing o with
  | nil => exact ho
  | cons op rest ih => exact ih (hP o op ho)

theorem Functions.run_induction {β : Type} {Q : Functions β → Prop}
    (hQ : ∀ r op, Q r → Q (r.step op)) {r : Functions β} (hr : Q r) (ops : List (Operation β)) :
    Q (r.run ops) := by
  induction ops generalizing r with
  | nil => exact hr
  | cons op rest ih => exact ih (hQ r op hr)

/-- Scripts change the registries by their operations only. Whatever an expression or a statement
does and however it ends, the registries after it come from those before by operations. So after
any requests to the interpreter both registries have every property that the operations keep.
No call is in progress then, and none is before and after each statement of a program that is
run next. -/
theorem scripts_use_operations (i : Interpreter) :
    (∀ budget e r j, Eval.expr budget e i = some (r, j) → i.ByOperations j) ∧
    (∀ budget s r j, Eval.statement budget s i = some (r, j) → i.ByOperations j) ∧
    (∀ (P : Objects → Prop) (Q : Functions Callable → Prop),
      (∀ o op, P o → P (o.step op)) → (∀ r op, Q r → Q (r.step op)) →
      P i.objects → Q i.functions → ∀ j, i.Session j → P j.objects ∧ Q j.functions) ∧
    (i.frames = [] → ∀ j, i.Session j → j.frames = [] ∧
      ∀ budget before s v k, j.runProgram budget before = some (v, k) →
        i.Session k ∧ k.frames = [] ∧
        ∀ r k', Interpreter.topLevel budget s k = some (r, k') → k'.frames = []) := by
  have hclosed := Interpreter.change_byOperations.closed
  refine ⟨fun budget e r j => (hclosed.all budget).expr e i r j,
    fun budget s r j => (hclosed.all budget).statement s i r j, ?_, ?_⟩
  · intro P Q hP hQ hobjects hfunctions j hj
    obtain ⟨⟨ops, hops⟩, ⟨ops', hops'⟩⟩ := hj.byOperations
    rw [hops, hops']
    exact ⟨Objects.run_induction hP hobjects ops, Functions.run_induction hQ hfunctions ops'⟩
  · intro hi j hj
    refine ⟨hj.frames_eq_nil hi, fun budget before s v k hrun => ?_⟩
    have hk : i.Session k := .program hj hrun
    have hframes := hk.frames_eq_nil hi
    refine ⟨hk, hframes, fun r k' hstatement => ?_⟩
    have hdepth := (Interpreter.change_sameDepth.topLevel budget s k r k' hstatement).depth
    rw [hframes] at hdepth
    exact List.eq_nil_of_length_eq_zero hdepth

/-- An object that could not be completed, because a field of its child calls a function that is
not there, is taken away with the child. A second program finds the name free. -/
theorem scripts_use_operations_rollback :
    let i : Interpreter :=
      { settings := {}, functions := Functions.empty false, objects := .new false }
    let child : ObjectDecl := ⟨.named "SimSet", none, [⟨"size", [], .call none "measure" []⟩], []⟩
    let broken : Expr := .create ⟨.named "SimSet", some (.text "Depot"), [], [child]⟩
    let again : Statement := .expr (.create ⟨.named "SimSet", some (.text "Depot"), [], []⟩)
    ∃ j k v, Eval.expr 12 broken i = some (.error (.unknownFunction "measure"), j) ∧
      i.ByOperations j ∧ j.objects.nextId = 3 ∧ j.objects.size = 0 ∧
      i.runProgram 12 [.expr broken, again] = some (v, k) ∧
      k.faults = [.unknownFunction "measure"] ∧ k.objects.size = 1 ∧
      k.objects.WellFormed ∧ k.functions.WellFormed ∧ k.frames = [] := by
  intro i child broken again
  obtain ⟨hexpr, -, hkept, hframes⟩ := scripts_use_operations i
  obtain ⟨⟨r, j⟩, hj⟩ : ∃ o, Eval.expr 12 broken i = some o :=
    Option.isSome_iff_exists.mp (by decide +kernel)
  obtain ⟨⟨v, k⟩, hk⟩ : ∃ o, i.runProgram 12 [.expr broken, again] = some o :=
    Option.isSome_iff_exists.mp (by decide +kernel)
  have hfirst : (Eval.expr 12 broken i).map (fun o =>
      (o.1.map fun _ => (), o.2.objects.nextId, o.2.objects.size)) =
        some (.error (.unknownFunction "measure"), 3, 0) := by
    decide +kernel
  have hboth : (i.runProgram 12 [.expr broken, again]).map (fun o =>
      (o.2.faults, o.2.objects.size)) = some ([.unknownFunction "measure"], 1) := by
    decide +kernel
  rw [hj] at hfirst
  rw [hk] at hboth
  obtain ⟨hr, hnext, hsize⟩ : (r.map fun _ => ()) = .error (.unknownFunction "measure") ∧
      j.objects.nextId = 3 ∧ j.objects.size = 0 := by simpa using hfirst
  obtain ⟨hfaults, hleft⟩ : k.faults = [.unknownFunction "measure"] ∧ k.objects.size = 1 := by
    simpa using hboth
  have hrun : i.Session k := .program .start hk
  have hwell := hkept _ _ (fun _ op h => h.step op) (fun _ op h => h.step op)
    (Objects.wellFormed_new false) (Functions.wellFormed_empty false) k hrun
  cases r with
  | ok v => cases hr
  | error fault =>
    cases hr
    exact ⟨j, k, v, hj, hexpr 12 broken _ j hj, hnext, hsize, hk, hfaults, hleft, hwell.1, hwell.2,
      (hframes rfl k hrun).1⟩

end TorqueScript
