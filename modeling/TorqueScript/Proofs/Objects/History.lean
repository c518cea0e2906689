import TorqueScript.Proofs.Objects.Removal

/-!
Histories of operations on objects. Whatever is done to a registry, in whatever order and
whether it succeeds or not, numbers, names, owners and children stay in agreement.
-/

namespace TorqueScript.Objects

inductive Operation where
  | registerClass (name : String) (parent : Option String)
  | instantiate (className : String) (name : Option String) (parent : Option ObjectId)
      (isDatablock : Bool)
  | setField (id : ObjectId) (name : String) (value : Value)
  | addChild (group child : ObjectId)
  | removeChild (group child : ObjectId)
  | delete (id : ObjectId)

def apply (o : Objects) : Operation → Except Fault Objects
  | .registerClass name parent => .ok (o.registerClass name parent)
  | .instantiate className name parent isDatablock =>
    (o.instantiate className name parent isDatablock).map Prod.snd
  | .setField id name value => o.setField id name value
  | .addChild group child => o.addChild group child
  | .removeChild group child => o.removeChild group child
  | .delete id => o.delete id

/-- The registry after an operation. One that fails changes nothing. -/
def step (o : Objects) (op : Operation) : Objects :=
  match o.apply op with
  | .ok o' => o'
  | .error _ => o

def run (o : Objects) (ops : List Operation) : Objects :=
  ops.foldl step o

namespace WellFormed

variable {o : Objects}

theorem apply (h : o.WellFormed) {op : Operation} {o' : Objects} (hok : o.apply op = .ok o') :
    o'.WellFormed := by
  cases op with
  | registerClass name parent =>
    cases hok
    exact h.registerClass name parent
  | instantiate className name parent isDatablock =>
    cases hmade : o.instantiate className name parent isDatablock with
    | error fault => simp [Objects.apply, hmade, Except.map] at hok
    | ok made =>
      obtain rfl : made.2 = o' := by simpa [Objects.apply, hmade, Except.map] using hok
      exact h.instantiate hmade
  | setField id name value => exact h.setField hok
  | addChild group child => exact h.addChild hok
  | removeChild group child => exact h.removeChild hok
  | delete id => exact h.delete hok

theorem step (h : o.WellFormed) (op : Operation) : (o.step op).WellFormed := by
  unfold Objects.step
  split
  · rename_i o' hok
    exact h.apply hok
  · exact h

theorem run (h : o.WellFormed) (ops : List Operation) : (o.run ops).WellFormed := by
  induction ops generalizing o with
  | nil => exact h
  | cons op rest ih => exact ih (h.step op)

theorem eq_of_name (h : o.WellFormed) {a b : ObjectId} {i j : Instance} {n : String}
    (ha : o.instances.get? a = some i) (hb : o.instances.get? b = some j)
    (hi : i.name.map o.fold = some n) (hj : j.name.map o.fold = some n) : a = b := by
  have ha' := (h.named n a).mpr ⟨i, ha, hi⟩
  have hb' := (h.named n b).mpr ⟨j, hb, hj⟩
  rw [ha'] at hb'
  exact Option.some.inj hb'

end WellFormed

theorem caseSensitive_update (o : Objects) (id : ObjectId) (f : Instance → Instance) :
    (o.update id f).caseSensitive = o.caseSensitive := by
  rw [update_frame]

theorem caseSensitive_detach (o : Objects) (child : ObjectId) :
    (o.detach child).caseSensitive = o.caseSensitive := by
  rw [detach_frame]

theorem caseSensitive_removeOne (o : Objects) (id : ObjectId) :
    (o.removeOne id).caseSensitive = o.caseSensitive := by
  rw [← caseSensitive_detach o id]
  simp only [removeOne]
  split
  · rfl
  · split <;> rfl

theorem caseSensitive_removeTree (fuel : Nat) (id : ObjectId) (o : Objects) :
    (removeTree fuel id o).caseSensitive = o.caseSensitive := by
  induction fuel generalizing id o with
  | zero => rfl
  | succ fuel ih =>
    have hall : ∀ (children : List ObjectId) (o : Objects),
        (children.foldl (fun o c => removeTree fuel c o) o).caseSensitive = o.caseSensitive := by
      intro children
      induction children with
      | nil => exact fun o => rfl
      | cons c rest ihrest => exact fun o => (ihrest _).trans (ih c o)
    rw [removeTree]
    split
    · rfl
    · rw [caseSensitive_removeOne, hall]

theorem caseSensitive_apply {o o' : Objects} {op : Operation} (h : o.apply op = .ok o') :
    o'.caseSensitive = o.caseSensitive := by
  cases op with
  | registerClass name parent =>
    cases h
    rfl
  | instantiate className name parent isDatablock =>
    cases hmade : o.instantiate className name parent isDatablock with
    | error fault => simp [apply, hmade, Except.map] at h
    | ok made =>
      obtain rfl : made.2 = o' := by simpa [apply, hmade, Except.map] using h
      obtain ⟨-, -, -, hcreated⟩ := instantiate_eq_ok.mp hmade
      rw [hcreated]
      rfl
  | setField id name value =>
    obtain ⟨-, rfl⟩ := setField_eq_ok.mp h
    exact caseSensitive_update ..
  | addChild group child =>
    obtain ⟨-, -, rfl⟩ := addChild_eq_ok.mp h
    split
    · rfl
    · rw [caseSensitive_update, caseSensitive_update, caseSensitive_detach]
  | removeChild group child =>
    obtain ⟨i, -, rfl⟩ := removeChild_eq_ok.mp h
    split
    · exact caseSensitive_detach ..
    · rfl
  | delete id =>
    obtain ⟨-, rfl⟩ := delete_eq_ok.mp h
    exact caseSensitive_removeTree ..

@[simp]
theorem caseSensitive_step (o : Objects) (op : Operation) :
    (o.step op).caseSensitive = o.caseSensitive := by
  unfold step
  split
  · rename_i o' hok
    exact caseSensitive_apply hok
  · rfl

/-- After any history: every object is stored under its own number, which has been given out; the
name index leads from a folded name to the object that has it, and no two have the same; an
object has an owner exactly when the owner lists it among its children, and lists it once; and
the way up from owner to owner meets no object twice and comes to an end. -/
theorem registry_after_history (caseSensitive : Bool) (ops : List Operation) :
    let o := (new caseSensitive).run ops
    (∀ id i, o.instances.get? id = some i → i.id = id ∧ 1 ≤ id ∧ id < o.nextId) ∧
    (∀ n id, o.names.get? n = some id ↔
      ∃ i, o.instances.get? id = some i ∧ i.name.map o.fold = some n) ∧
    (∀ a b i j n, o.instances.get? a = some i → o.instances.get? b = some j →
      i.name.map o.fold = some n → j.name.map o.fold = some n → a = b) ∧
    (∀ c g, (∃ i, o.instances.get? c = some i ∧ i.group = some g) ↔
      ∃ j, o.instances.get? g = some j ∧ c ∈ j.children) ∧
    (∀ c g j, o.instances.get? g = some j → c ∈ j.children → j.children.count c = 1) ∧
    (∀ id m n x, o.ownerAt m id = some x → o.ownerAt n id = some x → m = n) ∧
    (∀ id, o.ownerAt (o.size + 1) id = none) := by
  intro o
  have ho : o.WellFormed := (wellFormed_new caseSensitive).run ops
  refine ⟨?_, ho.named, ?_, ?_, ?_, ?_, ?_⟩
  · intro id i hi
    exact ⟨ho.stored id i hi, ho.numbered id i hi⟩
  · intro a b i j n ha hb hi hj
    exact ho.eq_of_name ha hb hi hj
  · intro c g
    rw [← ho.owned, groupOf, Option.bind_eq_some_iff]
  · intro c g j hj hc
    exact List.count_eq_one_of_mem (ho.childrenNodup g j hj) hc
  · intro id m n x hm hn
    exact ho.ownerAt_injective hm hn
  · intro id
    cases hend : o.ownerAt (o.size + 1) id with
    | none => rfl
    | some x => exact absurd (ho.ownerAt_le_size hend) (Nat.not_succ_le_self _)

-- Object 3 is moved from 1 to 2; its way back below itself is refused, and it goes with 2.
example :
    let build : List Operation :=
      [.instantiate "SimSet" (some "Base") none false, .instantiate "SimSet" none none false,
        .instantiate "SimSet" (some "Leaf") none false, .addChild 1 2, .addChild 1 3,
        .addChild 2 3, .addChild 3 1]
    let o := (new false).run build
    let o' := o.run [.delete 2, .delete 2]
    (o.instances.get? 1).map Instance.children = some [2] ∧ o.ownerAt 2 3 = some 1 ∧
      o.findByName "LEAF" = some 3 ∧ (o'.instances.get? 1).map Instance.children = some [] ∧
      o'.contains 3 = false ∧ o'.findByName "leaf" = none ∧ o'.nextId = 4 := by
  decide

end TorqueScript.Objects
