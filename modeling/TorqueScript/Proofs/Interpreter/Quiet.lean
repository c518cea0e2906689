import TorqueScript.Proofs.Interpreter.Operations

/-!
Expressions that change nothing but variables. They create no object, call nothing and assign
to no field of an object, at any depth; they may read fields and fail. However such an
expression ends, the interpreter is the same but for the values of variables.
-/

namespace TorqueScript

open Effect

def Place.isVariable : Place → Bool
  | .variable _ _ _ => true
  | .field _ _ _ => false

mutual

/-- No object is created, nothing is called and no field is assigned, with `=`, with an assigning
operator or by a step. -/
def Expr.quiet : Expr → Bool
  | .number _ => true
  | .text _ => true
  | .bareword _ => true
  | .read p => p.quiet
  | .unary _ e => e.quiet
  | .binary _ l r => l.quiet && r.quiet
  | .conditional c a b => c.quiet && a.quiet && b.quiet
  | .assign p _ e => p.isVariable && p.quiet && e.quiet
  | .step p _ => p.isVariable && p.quiet
  | .call _ _ _ => false
  | .method _ _ _ => false
  | .create _ => false

def Place.quiet : Place → Bool
  | .variable _ _ subscripts => quietAll subscripts
  | .field e _ subscripts => e.quiet && quietAll subscripts

def quietAll : List Expr → Bool
  | [] => true
  | e :: es => e.quiet && quietAll es

end

def ClassRef.quiet : ClassRef → Bool
  | .named _ => true
  | .computed e => e.quiet

def FieldInit.quiet (f : FieldInit) : Bool :=
  quietAll f.subscripts && f.value.quiet

mutual

/-- All expressions of the tree of declarations are of this kind. -/
def ObjectDecl.quiet : ObjectDecl → Bool
  | ⟨c, name, fields, children⟩ =>
    c.quiet && name.all Expr.quiet && fields.all FieldInit.quiet && quietChildren children

def quietChildren : List ObjectDecl → Bool
  | [] => true
  | d :: rest => d.quiet && quietChildren rest

end

theorem ObjectDecl.quiet_iff {d : ObjectDecl} :
    d.quiet = true ↔ d.className.quiet = true ∧ d.name.all Expr.quiet = true ∧
      d.fields.all FieldInit.quiet = true ∧ quietChildren d.children = true := by
  cases d
  simp [ObjectDecl.quiet, and_assoc]

def DatablockDecl.quiet (d : DatablockDecl) : Bool :=
  d.fields.all FieldInit.quiet

/-- Code that is nothing but expressions of this kind. -/
def Task.Quiet {α : Type} : Task α → Prop
  | .expr e => e.quiet = true
  | .exprs es => quietAll es = true
  | .place p => p.quiet = true
  | .optionalText e => e.all Expr.quiet = true
  | .className c => c.quiet = true
  | _ => False

/-- The location is no field of an object. -/
def Location.IsVariable (l : Location) : Prop :=
  ∀ id name, l ≠ .field id name

/-- What results are like: the place of a variable is no field. -/
def Task.Names {α : Type} : Task α → α → Prop
  | .place p => fun l => p.isVariable = true → l.IsVariable
  | _ => fun _ => True

namespace Interpreter

/-- The interpreter with no values of variables. -/
def withoutVariables (i : Interpreter) : Interpreter :=
  { i with
    globals := ∅
    topLocals := ∅
    frames := i.frames.map fun f => { f with locals := ∅ } }

/-- The states are the same but for the values of variables. -/
def VariablesOnly (i j : Interpreter) : Prop :=
  j.withoutVariables = i.withoutVariables

/-- The states are the same but for objects and the values of variables. -/
def ObjectsOnly (i j : Interpreter) : Prop :=
  j.withoutVariables = { i.withoutVariables with objects := j.objects }

theorem variablesOnly_setLocal (i : Interpreter) (key : String) (v : Value) :
    i.VariablesOnly (i.setLocal key v) := by
  rw [setLocal]
  split
  · rename_i f rest hframes
    simp [VariablesOnly, withoutVariables, hframes]
  · rfl

theorem VariablesOnly.trans {i j k : Interpreter} (h : i.VariablesOnly j) (h' : j.VariablesOnly k) :
    i.VariablesOnly k :=
  Eq.trans h' h

theorem VariablesOnly.objects_eq {i j : Interpreter} (h : i.VariablesOnly j) :
    j.objects = i.objects := by
  have hobjects := congrArg Interpreter.objects h
  exact hobjects

theorem objectsOnly_withObjects (i : Interpreter) (o : Objects) :
    i.ObjectsOnly { i with objects := o } := rfl

theorem VariablesOnly.objectsOnly {i j : Interpreter} (h : i.VariablesOnly j) :
    i.ObjectsOnly j := by
  rw [ObjectsOnly, h.objects_eq]
  exact h

theorem ObjectsOnly.trans {i j k : Interpreter} (h : i.ObjectsOnly j) (h' : j.ObjectsOnly k) :
    i.ObjectsOnly k := by
  rw [ObjectsOnly] at h h' ⊢
  rw [h', h]

end Interpreter

namespace Effect

variable {α β : Type}

/-- However the effect ends, it has changed nothing but variables. Its results have the property
`Q`. -/
def Silent (Q : α → Prop) (act : Effect α) : Prop :=
  ∀ i r j, act i = some (r, j) → i.VariablesOnly j ∧ ∀ a, r = .ok a → Q a

theorem silent_ofExcept {Q : α → Prop} (r : Interpreter → Except Fault α)
    (hQ : ∀ i a, r i = .ok a → Q a) : Silent Q (ofExcept r) := by
  intro i result j hrun
  cases hrun
  exact ⟨rfl, hQ i⟩

theorem silent_quiet (r : Interpreter → Except Fault α) : Silent (fun _ => True) (ofExcept r) :=
  silent_ofExcept r fun _ _ _ => trivial

theorem Silent.bind {Q : α → Prop} {R : β → Prop} {act : Effect α} {next : α → Effect β}
    (hact : Silent Q act) (hnext : ∀ a, Q a → Silent R (next a)) : Silent R (act >>= next) := by
  intro i r k hrun
  rcases bind_eq_some.mp hrun with ⟨a, j, hfirst, hrest⟩ | ⟨fault, hfirst, rfl⟩
  · obtain ⟨hij, hQ⟩ := hact i _ j hfirst
    obtain ⟨hjk, hR⟩ := hnext a (hQ a rfl) j r k hrest
    exact ⟨hij.trans hjk, hR⟩
  · refine ⟨(hact i _ k hfirst).1, ?_⟩
    intro b hb
    cases hb

theorem silent_load (l : Location) : Silent (fun _ => True) (load l) := by
  cases l <;> exact silent_quiet _

theorem silent_store {l : Location} (hl : l.IsVariable) (v : Value) :
    Silent (fun _ => True) (store l v) := by
  cases l with
  | «local» key =>
    intro i r j hrun
    cases hrun
    exact ⟨i.variablesOnly_setLocal key v, fun _ _ => trivial⟩
  | global key =>
    intro i r j hrun
    cases hrun
    exact ⟨rfl, fun _ _ => trivial⟩
  | field id name => exact absurd rfl (hl id name)

end Effect

namespace Plan

variable {α β : Type} {n : Nat}

/-- The plan, run under the budget, changes nothing but variables. -/
def Silent (n : Nat) (Q : α → Prop) (p : Plan α) : Prop :=
  Effect.Silent Q (p.run n)

theorem silent_pure {Q : α → Prop} {a : α} (ha : Q a) : (pure a : Plan α).Silent n Q := by
  refine silent_ofExcept (fun _ => .ok a) ?_
  intro i b hb
  cases hb
  exact ha

theorem silent_lookup {s : Step α} {r : Interpreter → Except Fault α} (hs : s.effect = ofExcept r) :
    (step s).Silent n fun _ => True := by
  show Effect.Silent _ s.effect
  rw [hs]
  exact silent_quiet r

theorem Silent.bind {Q : α → Prop} {R : β → Prop} {p : Plan α} {next : α → Plan β}
    (hp : p.Silent n Q) (hnext : ∀ a, Q a → (next a).Silent n R) : (p >>= next).Silent n R :=
  Effect.Silent.bind hp hnext

section Code

variable (ih : ∀ {β : Type} (t : Task β), t.Quiet → (part t).Silent n t.Names)

include ih

theorem silent_expr {e : Expr} (he : e.quiet = true) : e.plan.Silent n fun _ => True := by
  cases e with
  | number x => exact silent_pure trivial
  | text s => exact silent_pure trivial
  | bareword s => exact silent_pure trivial
  | read p => exact (ih (.place p) he).bind fun l _ => silent_load l
  | unary op e => exact (ih (.expr e) he).bind fun v _ => silent_pure trivial
  | binary op l r =>
    rw [Expr.quiet, Bool.and_eq_true] at he
    have hleft := ih (.expr l) he.1
    have hright := ih (.expr r) he.2
    have hbool := hright.bind fun w _ =>
      silent_pure (n := n) (Q := fun _ => True) (a := Value.ofBool w.isTrue) trivial
    cases op with
    | logicalAnd =>
      refine hleft.bind fun v _ => ?_
      split
      · exact hbool
      · exact silent_pure trivial
    | logicalOr =>
      refine hleft.bind fun v _ => ?_
      split
      · exact silent_pure trivial
      · exact hbool
    | _ => exact hleft.bind fun v _ => hright.bind fun w _ => silent_lookup rfl
  | conditional c a b =>
    rw [Expr.quiet, Bool.and_eq_true, Bool.and_eq_true] at he
    refine (ih (.expr c) he.1.1).bind fun v _ => ?_
    split
    · exact ih (.expr a) he.1.2
    · exact ih (.expr b) he.2
  | assign p op e =>
    rw [Expr.quiet, Bool.and_eq_true, Bool.and_eq_true] at he
    have hplace := ih (.place p) he.1.2
    have hvalue := ih (.expr e) he.2
    have hwrite : ∀ l v, l.IsVariable →
        (do let _ ← step (.store l v); pure v : Plan Value).Silent n fun _ => True := fun l v hl =>
      Silent.bind (p := step (.store l v)) (silent_store hl v) fun _ _ => silent_pure trivial
    cases op with
    | none => exact hplace.bind fun l hl => hvalue.bind fun v _ => hwrite l v (hl he.1.1)
    | some op =>
      refine hplace.bind fun l hl => hvalue.bind fun w _ => ?_
      refine Silent.bind (p := step (.load l)) (silent_load l) fun old _ => ?_
      exact (silent_lookup (s := .answer (op.apply old w)) rfl).bind fun v _ =>
        hwrite l v (hl he.1.1)
  | step p op =>
    rw [Expr.quiet, Bool.and_eq_true] at he
    refine (ih (.place p) he.2).bind fun l hl => ?_
    refine Silent.bind (p := step (.load l)) (silent_load l) fun old _ => ?_
    exact Silent.bind (p := step (.store l (.number (op.apply old.toNumber))))
      (silent_store (hl he.1) _) fun _ _ => silent_pure trivial
  | call qualifier name args => cases he
  | method e name args => cases he
  | create d => cases he

theorem silent_place {p : Place} (hp : p.quiet = true) :
    (Task.place p).plan.Silent n (Task.place p).Names := by
  cases p with
  | «variable» scope name subscripts =>
    refine (ih (.exprs subscripts) hp).bind fun vs _ => silent_ofExcept _ ?_
    intro i l hl _ id field heq
    subst heq
    cases scope <;> cases hl
  | field e name subscripts =>
    rw [Place.quiet, Bool.and_eq_true] at hp
    refine (ih (.expr e) hp.1).bind fun v _ => ?_
    refine (silent_lookup (s := .resolve v) rfl).bind fun id _ => ?_
    refine (ih (.exprs subscripts) hp.2).bind fun vs _ => silent_pure ?_
    intro hvariable
    cases hvariable

theorem silent_task (t : Task α) (ht : t.Quiet) : t.plan.Silent n t.Names := by
  cases t with
  | expr e => exact silent_expr ih ht
  | exprs es =>
    cases es with
    | nil => exact silent_pure trivial
    | cons e es =>
      rw [Task.Quiet, quietAll, Bool.and_eq_true] at ht
      exact (ih (.expr e) ht.1).bind fun v _ => (ih (.exprs es) ht.2).bind fun vs _ =>
        silent_pure trivial
  | place p => exact silent_place ih ht
  | optionalText e =>
    cases e with
    | none => exact silent_pure trivial
    | some e => exact (ih (.expr e) ht).bind fun v _ => silent_pure trivial
  | className c =>
    cases c with
    | named name => exact silent_pure trivial
    | computed e => exact (ih (.expr e) ht).bind fun v _ => silent_pure trivial
  | _ => exact absurd ht id

end Code

end Plan

/-- Under every budget, quiet code changes nothing but variables. -/
theorem Task.silent {α : Type} (n : Nat) (t : Task α) (ht : t.Quiet) :
    Silent t.Names (t.run n) := by
  induction n generalizing α with
  | zero =>
    rw [t.run_zero]
    intro i r j hrun
    cases hrun
  | succ n ih =>
    rw [← t.run_plan]
    exact Plan.silent_task (fun t ht => ih t ht) t ht

theorem Task.variablesOnly {α : Type} {n : Nat} {t : Task α} (ht : t.Quiet) {i j : Interpreter}
    {r : Except Fault α} (hrun : t.run n i = some (r, j)) : i.VariablesOnly j :=
  (t.silent n ht i r j hrun).1

end TorqueScript
