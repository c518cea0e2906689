import TorqueScript.Proofs.Interpreter.Operations

/-!
The limit on nested calls. A run that does not go beyond the limit is the same under every
higher limit, and without one. A call that does go beyond it ends the statement around it with
that fault, wherever in the statement it stands: no effect goes on after a fault of a part.
-/

namespace TorqueScript

open Effect

/-- An interpreter with another limit on nested calls; zero for none. -/
def Interpreter.withLimit (i : Interpreter) (limit : Nat) : Interpreter :=
  { i with settings := { i.settings with maxDepth := limit } }

@[simp]
theorem Interpreter.maxDepth_withLimit (i : Interpreter) (limit : Nat) :
    (i.withLimit limit).settings.maxDepth = limit := rfl

@[simp]
theorem Interpreter.frames_withLimit (i : Interpreter) (limit : Nat) :
    (i.withLimit limit).frames = i.frames := rfl

theorem Interpreter.enter_eq (i : Interpreter) (c : Dispatch) (f : FunctionDecl)
    (args : Arguments) :
    i.enter c f args =
      if 0 < i.settings.maxDepth ∧ i.settings.maxDepth ≤ i.frames.length then
        .error (.tooDeep i.settings.maxDepth)
      else .ok ⟨bindParameters i.fold f.parameters args ∅, c.definition.slot, c.fallback,
        c.receiver⟩ := by
  simp only [enter, Bool.and_eq_true, decide_eq_true_eq]

/-- Calls that a limit `d` lets pass, `d'` lets pass too. -/
def Admits (d d' : Nat) : Prop :=
  d' = 0 ∨ d ≤ d'

namespace Effect

variable {α β : Type} {d : Nat}

/-- Under the limit `d` the effect ends in the fault of a call too deep, or it ends in the same way
under all limits that let as much pass. -/
def LimitFree (d : Nat) (act : Effect α) : Prop :=
  ∀ i : Interpreter, (∃ j, act (i.withLimit d) = some (.error (.tooDeep d), j)) ∨
    ∃ outcome : Option (Except Fault α × Interpreter), ∀ d', Admits d d' →
      act (i.withLimit d') = outcome.map fun (r, j) => (r, j.withLimit d')

theorem limitFree_ofExcept {r : Interpreter → Except Fault α}
    (h : ∀ i limit, r (i.withLimit limit) = r i) : LimitFree d (ofExcept r) := by
  refine fun i => Or.inr ⟨some (r i, i), fun d' _ => ?_⟩
  rw [ofExcept, h]
  rfl

/-- What is looked up in the registries does not depend on the limit. -/
theorem limitFree_lookup {r : Interpreter → Except Fault α} (h : ∀ i, r i.registries = r i) :
    LimitFree d (ofExcept r) := by
  refine limitFree_ofExcept fun i limit => ?_
  rw [← h (i.withLimit limit), ← h i]
  rfl

theorem LimitFree.bind {act : Effect α} {next : α → Effect β} (hact : LimitFree d act)
    (hnext : ∀ a, LimitFree d (next a)) : LimitFree d (act >>= next) := by
  intro i
  rcases hact i with ⟨j, hdeep⟩ | ⟨outcome, hrun⟩
  · exact Or.inl ⟨j, by rw [bind_apply, hdeep]⟩
  rcases outcome with _ | ⟨fault | a, j⟩
  · refine Or.inr ⟨none, fun d' hd' => ?_⟩
    rw [bind_apply, hrun d' hd']
    rfl
  · refine Or.inr ⟨some (.error fault, j), fun d' hd' => ?_⟩
    rw [bind_apply, hrun d' hd']
    rfl
  · rcases hnext a j with ⟨k, hdeep⟩ | ⟨outcome', hrun'⟩
    · refine Or.inl ⟨k, ?_⟩
      rw [bind_apply, hrun d (Or.inr (Nat.le_refl d))]
      exact hdeep
    · refine Or.inr ⟨outcome', fun d' hd' => ?_⟩
      rw [bind_apply, hrun d' hd']
      exact hrun' d' hd'

theorem limitFree_changeObjects (f : Objects → Except Fault (α × Objects)) :
    LimitFree d (changeObjects f) := by
  intro i
  cases hf : f i.objects with
  | ok p =>
    obtain ⟨a, objects⟩ := p
    refine Or.inr ⟨some (.ok a, { i with objects := objects }), fun d' _ => ?_⟩
    simp only [changeObjects, Interpreter.withLimit, hf, Option.map_some]
  | error fault =>
    refine Or.inr ⟨some (.error fault, i), fun d' _ => ?_⟩
    simp only [changeObjects, Interpreter.withLimit, hf, Option.map_some]

theorem limitFree_changeFunctions (f : Functions Callable → Functions Callable) :
    LimitFree d (changeFunctions f) :=
  fun i => Or.inr ⟨some (.ok (), { i with functions := f i.functions }), fun _ _ => rfl⟩

theorem limitFree_load (l : Location) : LimitFree d (load l) := by
  cases l with
  | «local» key => exact limitFree_ofExcept fun _ _ => rfl
  | global key => exact limitFree_ofExcept fun _ _ => rfl
  | field id name => exact limitFree_ofExcept fun _ _ => rfl

theorem limitFree_store (l : Location) (v : Value) : LimitFree d (store l v) := by
  cases l with
  | «local» key =>
    refine fun i => Or.inr ⟨some (.ok (), i.setLocal key v), fun d' _ => ?_⟩
    simp only [store, Interpreter.setLocal, Interpreter.withLimit]
    cases i.frames <;> rfl
  | global key => exact fun i => Or.inr ⟨some (.ok (), i.setGlobalKey key v), fun _ _ => rfl⟩
  | field id name => exact limitFree_changeObjects fun o => (o.setField id name v).map ((), ·)

theorem limitFree_parent (name : String) : LimitFree d (ofExcept fun i => i.dispatchParent name) :=
  limitFree_ofExcept fun _ _ => rfl

/-- The one place where the limit is looked at. -/
theorem limitFree_enter (hd : 0 < d) (c : Dispatch) (f : FunctionDecl) (args : Arguments) :
    LimitFree d (ofExcept fun i => i.enter c f args) := by
  intro i
  by_cases hdeep : d ≤ i.frames.length
  · refine Or.inl ⟨i.withLimit d, ?_⟩
    rw [ofExcept, Interpreter.enter_eq, if_pos ⟨hd, hdeep⟩]
    rfl
  · refine Or.inr ⟨some (.ok ⟨bindParameters i.fold f.parameters args ∅, c.definition.slot,
      c.fallback, c.receiver⟩, i), fun d' hd' => ?_⟩
    have hpass : ¬ (0 < (i.withLimit d').settings.maxDepth ∧
        (i.withLimit d').settings.maxDepth ≤ (i.withLimit d').frames.length) := by
      rw [Interpreter.maxDepth_withLimit, Interpreter.frames_withLimit]
      rcases hd' with rfl | hle <;> omega
    rw [ofExcept, Interpreter.enter_eq, if_neg hpass]
    rfl

theorem run_withLimit (f : Builtin) (args : Arguments) (i : Interpreter) (limit : Nat) :
    f.run args (i.withLimit limit) = ((f.run args i).1, (f.run args i).2.withLimit limit) := by
  cases f with
  | console f => cases f <;> rfl
  | library f => rfl
  | package f => rfl
  | reference f => rfl
  | query f => rfl
  | change f => rfl

theorem limitFree_builtin (f : Builtin) (args : Arguments) : LimitFree d (ofBuiltin f args) := by
  refine fun i => Or.inr ⟨some (f.run args i), fun d' _ => ?_⟩
  rw [ofBuiltin, run_withLimit]
  rfl

theorem limitFree_host (name : String) (f : ChangingHost) (args : Arguments) :
    LimitFree d (askHost name f args) :=
  fun i => Or.inr ⟨askHost name f args i, fun _ _ => rfl⟩

theorem rollback_withLimit (id : ObjectId) (i : Interpreter) (limit : Nat) :
    rollback id (i.withLimit limit) = (rollback id i).withLimit limit := by
  simp only [rollback, Interpreter.withLimit]
  cases i.objects.delete id <;> rfl

theorem LimitFree.completing {act : Effect Unit} (h : LimitFree d act) (id : ObjectId) :
    LimitFree d (completing id act) := by
  intro i
  rcases h i with ⟨j, hdeep⟩ | ⟨outcome, hrun⟩
  · exact Or.inl ⟨rollback id j, by rw [Effect.completing, hdeep]⟩
  rcases outcome with _ | ⟨fault | _, j⟩
  · refine Or.inr ⟨none, fun d' hd' => ?_⟩
    rw [Effect.completing, hrun d' hd']
    rfl
  · refine Or.inr ⟨some (.error fault, rollback id j), fun d' hd' => ?_⟩
    rw [Effect.completing, hrun d' hd']
    simp only [Option.map_some, rollback_withLimit]
  · refine Or.inr ⟨some (.ok id, j), fun d' hd' => ?_⟩
    rw [Effect.completing, hrun d' hd']
    rfl

theorem LimitFree.inFrame {act : Effect α} (h : LimitFree d act) (frame : Frame) :
    LimitFree d (inFrame frame act) := by
  intro i
  rcases h (i.pushFrame frame) with ⟨j, hdeep⟩ | ⟨outcome, hrun⟩
  · have hbody : act ((i.withLimit d).pushFrame frame) = _ := hdeep
    exact Or.inl ⟨j.popFrame, by rw [Effect.inFrame, hbody]⟩
  · refine Or.inr ⟨outcome.map fun (r, j) => (r, j.popFrame), fun d' hd' => ?_⟩
    have hbody : act ((i.withLimit d').pushFrame frame) = _ := hrun d' hd'
    rw [Effect.inFrame, hbody]
    cases outcome <;> rfl

theorem closed_limitFree (hd : 0 < d) : Closed (LimitFree d) where
  pure a := limitFree_ofExcept (r := fun _ => .ok a) fun _ _ => rfl
  bind := LimitFree.bind
  exhausted := fun _ => Or.inr ⟨none, fun _ _ => rfl⟩
  lookup _ := limitFree_lookup
  load := limitFree_load
  store := limitFree_store
  parent := limitFree_parent
  enter := limitFree_enter hd
  instantiate _ _ _ _ := limitFree_changeObjects _
  setField _ _ _ := limitFree_changeObjects _
  addChild _ _ := limitFree_changeObjects _
  define _ := limitFree_changeFunctions _
  declare _ _ := limitFree_changeFunctions _
  builtin := limitFree_builtin
  host := limitFree_host
  completing id _ h := h.completing id
  inFrame frame _ h := h.inFrame frame

end Effect

namespace Interpreter

theorem change_sameFaults : Change fun i j => j.faults = i.faults where
  refl _ := rfl
  trans hij hjk := hjk.trans hij
  objects _ _ := rfl
  functions _ _ := rfl
  setLocal i key v := by
    rw [Interpreter.setLocal]
    split <;> rfl
  setGlobal _ _ _ := rfl
  write _ _ := rfl
  ask _ := rfl
  frame _ _ _ h := h

/-- A statement records the fault it ends in, and no other. -/
theorem faults_runStatement {i j : Interpreter} {budget : Nat} {s : Statement} {v : Value}
    (h : i.runStatement budget s = some (v, j)) :
    (j.faults = i.faults ∧ ∃ k, topLevel budget s i = some (.ok v, k)) ∨
    ∃ fault k, j.faults = i.faults ++ [fault] ∧ topLevel budget s i = some (.error fault, k) := by
  rw [runStatement] at h
  split at h
  · cases h
  · rename_i w k hrun
    cases h
    exact Or.inl ⟨change_sameFaults.topLevel budget s i _ k hrun, k, hrun⟩
  · rename_i fault k hrun
    cases h
    refine Or.inr ⟨fault, k, ?_, hrun⟩
    show k.faults ++ [fault] = i.faults ++ [fault]
    rw [change_sameFaults.topLevel budget s i _ k hrun]

theorem exists_recorded {budget : Nat} (program : Program) {i j : Interpreter} {last v : Value}
    (h : runStatements budget program last i = some (v, j)) :
    ∃ recorded, j.faults = i.faults ++ recorded := by
  induction program generalizing i last with
  | nil =>
    cases h
    exact ⟨[], (List.append_nil _).symm⟩
  | cons s rest ih =>
    rw [runStatements] at h
    split at h
    · cases h
    · rename_i w k hfirst
      obtain ⟨recorded, hrest⟩ := ih h
      rcases faults_runStatement hfirst with ⟨hk, -⟩ | ⟨fault, -, hk, -⟩
      · exact ⟨recorded, by rw [hrest, hk]⟩
      · exact ⟨fault :: recorded, by rw [hrest, hk, List.append_assoc]; rfl⟩

variable {d d' budget : Nat}

theorem runStatement_withLimit (hd : 0 < d) (hd' : Admits d d') {i j : Interpreter} {s : Statement}
    {v : Value} (hrun : (i.withLimit d).runStatement budget s = some (v, j))
    (hquiet : j.faults ≠ i.faults ++ [.tooDeep d]) :
    ∃ k : Interpreter, j = k.withLimit d ∧
      (i.withLimit d').runStatement budget s = some (v, k.withLimit d') := by
  rcases (closed_limitFree hd).topLevel budget s i with ⟨k, hdeep⟩ | ⟨outcome, houtcome⟩
  · -- The fault would have been recorded.
    rw [runStatement, hdeep] at hrun
    cases hrun
    refine absurd ?_ hquiet
    show k.faults ++ [.tooDeep d] = i.faults ++ [.tooDeep d]
    rw [change_sameFaults.topLevel budget s _ _ k hdeep]
    rfl
  · have hhere := houtcome d (Or.inr (Nat.le_refl d))
    have hthere := houtcome d' hd'
    rw [runStatement, hhere] at hrun
    rw [runStatement, hthere]
    rcases outcome with _ | ⟨fault | w, k⟩
    · cases hrun
    · cases hrun
      exact ⟨{ k with frames := [], faults := k.faults ++ [fault] }, rfl, rfl⟩
    · cases hrun
      exact ⟨{ k with frames := [] }, rfl, rfl⟩

theorem runStatements_withLimit (hd : 0 < d) (hd' : Admits d d') (program : Program)
    {i j : Interpreter} {last v : Value} {recorded : List Fault}
    (hrun : runStatements budget program last (i.withLimit d) = some (v, j))
    (hrecorded : j.faults = i.faults ++ recorded) (hquiet : Fault.tooDeep d ∉ recorded) :
    runStatements budget program last (i.withLimit d') = some (v, j.withLimit d') := by
  induction program generalizing i last recorded with
  | nil =>
    cases hrun
    rfl
  | cons s rest ih =>
    rw [runStatements] at hrun
    split at hrun
    · cases hrun
    · rename_i w k hfirst
      obtain ⟨later, hlater⟩ := exists_recorded rest hrun
      -- What the first statement records is among what the program records.
      have hfirstQuiet : k.faults ≠ i.faults ++ [.tooDeep d] := by
        intro hk
        rw [hrecorded, hk, List.append_assoc] at hlater
        rw [List.append_cancel_left hlater] at hquiet
        exact hquiet (by simp)
      obtain ⟨k, rfl, hthere⟩ := runStatement_withLimit hd hd' hfirst hfirstQuiet
      rw [runStatements, hthere]
      refine ih hrun hlater fun hmem => hquiet ?_
      rcases faults_runStatement hfirst with ⟨hk, -⟩ | ⟨fault, -, hk, -⟩
      · rw [hlater, hk] at hrecorded
        rwa [← List.append_cancel_left hrecorded]
      · rw [hlater, hk, List.append_assoc] at hrecorded
        rw [← List.append_cancel_left hrecorded]
        exact List.mem_append_right _ hmem

/-- The limit on nested calls adds its own faults and nothing else. A program that ends under a
limit and records no call too deep ends in the same value and the same state under every
higher limit, and without one. -/
theorem runProgram_withLimit {i j : Interpreter} {program : Program} {v : Value} (hd : 0 < d)
    (hd' : d' = 0 ∨ d ≤ d')
    (hrun : (i.withLimit d).runProgram budget program = some (v, j))
    (hquiet : ∀ limit, Fault.tooDeep limit ∉ j.faults.drop i.faults.length) :
    (i.withLimit d').runProgram budget program = some (v, j.withLimit d') := by
  obtain ⟨recorded, hrecorded⟩ := exists_recorded program hrun
  have hdrop : j.faults.drop i.faults.length = recorded := by
    rw [hrecorded]
    exact List.drop_left
  exact runStatements_withLimit (i := { i with topLocals := ∅ }) hd hd' program hrun hrecorded
    (hdrop ▸ hquiet d)

/-- Two calls, one in the other, under a limit of two. A fault of another kind is recorded, and a
call too deep was recorded by an earlier program. -/
theorem runProgram_withLimit_two :
    let inner : FunctionDecl := ⟨none, "inner", [], [.return (some (.text "done"))]⟩
    let outer : FunctionDecl := ⟨none, "outer", [], [.return (some (.call none "INNER" []))]⟩
    let program : Program := [.function inner, .function outer, .expr (.call none "missing" []),
      .expr (.assign (.variable .global "answer" []) none (.call none "outer" []))]
    let i : Interpreter :=
      { settings := {}
        functions := Functions.empty false
        objects := .new false
        faults := [.tooDeep 1] }
    ∃ v j, (i.withLimit 2).runProgram 20 program = some (v, j) ∧
      j.faults = [.tooDeep 1, .unknownFunction "missing"] ∧
      (i.withLimit 3).runProgram 20 program = some (v, j.withLimit 3) ∧
      (i.withLimit 0).runProgram 20 program = some (v, j.withLimit 0) := by
  intro inner outer program i
  obtain ⟨⟨v, j⟩, hj⟩ : ∃ o, (i.withLimit 2).runProgram 20 program = some o :=
    Option.isSome_iff_exists.mp (by decide +kernel)
  have hseen : ((i.withLimit 2).runProgram 20 program).map (fun o => o.2.faults) =
      some [.tooDeep 1, .unknownFunction "missing"] := by
    decide +kernel
  have hfaults : j.faults = [.tooDeep 1, .unknownFunction "missing"] := by
    rw [hj] at hseen
    exact Option.some.inj hseen
  have hquiet : ∀ limit, Fault.tooDeep limit ∉ j.faults.drop i.faults.length := by
    rw [hfaults]
    simp [i]
  exact ⟨v, j, hj, hfaults, runProgram_withLimit (by decide) (Or.inr (by decide)) hj hquiet,
    runProgram_withLimit (by decide) (Or.inl rfl) hj hquiet⟩

end Interpreter

end TorqueScript
