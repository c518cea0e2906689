import TorqueScript.Proofs.Objects.Deletion

/-!
Operations on objects, one change at a time. An operation looks objects up and changes the
registry in turns. Any of its lookups may fail, and what was changed before stays changed. On a
registry that operations have made, however, no lookup fails after the first change: while an
object is moved it stays there, and while one is deleted it stays there until its children are
gone. So an operation that fails has done nothing, and can be taken for a function to registries
or faults.
-/

namespace TorqueScript.Objects

/-- A registry in the middle of an operation, with the number of changes made to it. -/
structure Progress where
  objects : Objects
  changes : Nat

/-- A part of an operation. It ends in a result or a fault and leaves the registry as it is then, or
it has no outcome under its budget. -/
abbrev Change := ExceptT Fault (StateT Progress Option)

def requireFree (o : Objects) : Option String → Except Fault Unit
  | some n => if o.names.contains (o.fold n) then .error (.nameTaken n) else .ok ()
  | none => .ok ()

def requireParent (o : Objects) : Option ObjectId → Except Fault Unit
  | some p => discard (o.get p)
  | none => .ok ()

namespace Change

variable {α β : Type}

/-- Looks something up, which may fail. -/
def look (f : Objects → Except Fault α) : Change α :=
  fun p => some (f p.objects, p)

def write (f : Objects → Objects) : Change Unit :=
  fun p => some (.ok (), ⟨f p.objects, p.changes + 1⟩)

/-- Changes an object that has to be there. -/
def writeTo (id : ObjectId) (f : Instance → Instance) : Change Unit := do
  let _ ← look (·.get id)
  write (·.update id f)

/-- Gives out a number, then the name, then stores the object. -/
def store (className : String) (name : Option String) (parent : Option ObjectId)
    (isDatablock : Bool) : Change Unit := do
  let id ← look fun o => .ok o.nextId
  write fun o => { o with nextId := id + 1 }
  match name with
  | some n => do
    write fun o => { o with retired := o.retired.filter (· ≠ o.fold n) }
    write fun o => { o with names := o.names.insert (o.fold n) id }
  | none => pure ()
  write fun o => { o with
    instances := o.instances.insert id { id, name, className, isDatablock, parent } }

def instantiate (className : String) (name : Option String) (parent : Option ObjectId)
    (isDatablock : Bool) : Change Unit := do
  look (·.requireFree (givenName name))
  look (·.requireParent parent)
  store className (givenName name) parent isDatablock

def setField (id : ObjectId) (name : String) (v : Value) : Change Unit := do
  let key ← look fun o => .ok (o.fold name)
  writeTo id fun i => { i with fields := i.fields.insert key v }

/-- The owner need not be there. -/
def detach (child : ObjectId) : Change Unit := do
  let i ← look (·.get child)
  match i.group with
  | none => pure ()
  | some g => do
    write (·.update child fun i => { i with group := none })
    write (·.update g fun i => { i with children := i.children.filter (· ≠ child) })

def addChild (group child : ObjectId) : Change Unit := do
  let _ ← look (·.get group)
  let _ ← look (·.get child)
  let refused ← look fun o => .ok (decide (group = child) || o.isAncestor child group)
  if refused then return
  detach child
  writeTo group fun i => { i with children := i.children ++ [child] }
  writeTo child fun i => { i with group := some group }

def removeChild (group child : ObjectId) : Change Unit := do
  let i ← look (·.get child)
  if i.group = some group then detach child

/-- Takes an object out, and retires its name. -/
def remove (id : ObjectId) : Change Unit := do
  let found ← look fun o => .ok (o.instances.get? id)
  match found with
  | none => pure ()
  | some i => do
    write fun o => { o with instances := o.instances.erase id }
    match i.name with
    | none => pure ()
    | some n => do
      write fun o => { o with names := o.names.erase (o.fold n) }
      write fun o => { o with retired := o.fold n :: o.retired.filter (· ≠ o.fold n) }

/-- Deletes an object after the children that are still there. A fault of a nested deletion ends
this one too. -/
def delete : Nat → ObjectId → Change Unit
  | 0, _ => fun _ => none
  | budget + 1, id => do
    let i ← look (·.get id)
    i.children.forM fun child => do
      if ← look fun o => .ok (o.contains child) then delete budget child
    detach id
    remove id

def perform (budget : Nat) : Operation → Change Unit
  | .registerClass name parent => write (·.registerClass name parent)
  | .instantiate className name parent isDatablock => instantiate className name parent isDatablock
  | .setField id name value => setField id name value
  | .addChild group child => addChild group child
  | .removeChild group child => removeChild group child
  | .delete id => delete budget id

/-- The registry after all operations, each of which goes on from what the one before it has left,
also where that has failed. -/
def performAll : List Operation → Objects → Option Objects
  | [], o => some o
  | op :: rest, o =>
    (perform (o.size + 1) op ⟨o, 0⟩).bind fun outcome => performAll rest outcome.2.objects

/-- It succeeds, and leaves `o'`. -/
def Completes (c : Change Unit) (o o' : Objects) : Prop :=
  ∀ n, ∃ n', c ⟨o, n⟩ = some (.ok (), ⟨o', n'⟩)

/-- The steps do what an operation with the result `r` does as a whole, and change nothing if it
fails. -/
structure Agrees (c : Change Unit) (o : Objects) (r : Except Fault Objects) : Prop where
  completes : ∀ o', r = .ok o' → c.Completes o o'
  refuses : ∀ fault, r = .error fault → ∀ n, c ⟨o, n⟩ = some (.error fault, ⟨o, n⟩)

variable {o o' o'' : Objects}

theorem bind_ok {c : Change α} {d : α → Change β} {p p' : Progress} {a : α}
    (h : c p = some (.ok a, p')) : (c >>= d) p = d a p' := by
  show (c p).bind _ = _
  rw [h]
  rfl

theorem bind_error {c : Change α} {d : α → Change β} {p p' : Progress} {fault : Fault}
    (h : c p = some (.error fault, p')) : (c >>= d) p = some (.error fault, p') := by
  show (c p).bind _ = _
  rw [h]
  rfl

theorem look_apply {f : Objects → Except Fault α} {r : Except Fault α} (h : f o = r) (n : Nat) :
    look f ⟨o, n⟩ = some (r, ⟨o, n⟩) := by
  rw [look, h]

theorem completes_pure (o : Objects) : (pure () : Change Unit).Completes o o :=
  fun n => ⟨n, rfl⟩

theorem completes_write (o : Objects) (f : Objects → Objects) : (write f).Completes o (f o) :=
  fun n => ⟨n + 1, rfl⟩

theorem Completes.bind {c : Change Unit} {d : Unit → Change Unit} (h : c.Completes o o')
    (hd : (d ()).Completes o' o'') : (c >>= d).Completes o o'' := by
  intro n
  obtain ⟨n', hn'⟩ := h n
  obtain ⟨n'', hn''⟩ := hd n'
  exact ⟨n'', (bind_ok hn').trans hn''⟩

theorem completes_look {f : Objects → Except Fault α} {c : α → Change Unit} {a : α}
    (h : f o = .ok a) (hc : (c a).Completes o o') : (look f >>= c).Completes o o' := by
  intro n
  rw [bind_ok (look_apply h n)]
  exact hc n

theorem Completes.agrees {c : Change Unit} (h : c.Completes o o') : c.Agrees o (.ok o') where
  completes := by
    intro o₁ heq
    cases heq
    exact h
  refuses := by
    intro fault heq
    cases heq

theorem Agrees.look {f : Objects → Except Fault α} {c : α → Change Unit} {a : α}
    {r : Except Fault Objects} (hc : (c a).Agrees o r) (h : f o = .ok a) :
    (look f >>= c).Agrees o r where
  completes o' hok := completes_look h (hc.completes o' hok)
  refuses fault herror n := (bind_ok (look_apply h n)).trans (hc.refuses fault herror n)

/-- Where an operation looks something up, the steps look it up too. -/
theorem agrees_look {f : Objects → Except Fault α} {c : α → Change Unit}
    {r : α → Except Fault Objects} (h : ∀ a, f o = .ok a → (c a).Agrees o (r a)) :
    (look f >>= c).Agrees o (f o >>= r) := by
  cases hf : f o with
  | ok a => exact (h a hf).look hf
  | error fault =>
    constructor
    · intro o' heq
      cases heq
    · intro fault' heq n
      cases heq
      exact bind_error (look_apply hf n)

theorem get_eq_ok {id : ObjectId} {i : Instance} :
    o.get id = .ok i ↔ o.instances.get? id = some i := by
  unfold Objects.get
  cases o.instances.get? id with
  | none => simp
  | some j => simp

theorem discard_get (id : ObjectId) (r : Unit → Except Fault α) :
    (discard (o.get id) >>= r) = o.get id >>= fun _ => r () := by
  simp [Functor.discard, map_const]

theorem agrees_setField (o : Objects) (id : ObjectId) (name : String) (v : Value) :
    (setField id name v).Agrees o (o.setField id name v) := by
  unfold setField Objects.setField
  rw [discard_get]
  refine Agrees.look (agrees_look fun i _ => ?_) rfl
  exact (completes_write o _).agrees

theorem completes_store (o : Objects) (className : String) (name : Option String)
    (parent : Option ObjectId) (isDatablock : Bool) :
    (store className name parent isDatablock).Completes o
      (o.created className name parent isDatablock) := by
  refine completes_look rfl ((completes_write o _).bind ?_)
  cases name with
  | none => exact completes_write _ _
  | some n => exact (completes_write _ _).bind ((completes_write _ _).bind (completes_write _ _))

theorem map_instantiate (o : Objects) (className : String) (name : Option String)
    (parent : Option ObjectId) (isDatablock : Bool) :
    (o.instantiate className name parent isDatablock).map Prod.snd =
      o.requireFree (givenName name) >>= fun _ => o.requireParent parent >>= fun _ =>
        .ok (o.created className (givenName name) parent isDatablock) := by
  simp only [Objects.instantiate]
  rw [show name.filter (fun n => !n.isEmpty) = givenName name from rfl]
  cases givenName name with
  | none =>
    cases parent with
    | none => rfl
    | some p =>
      simp only [discard_get, requireFree, requireParent]
      cases o.get p <;> rfl
  | some n =>
    simp only [requireFree]
    cases o.names.contains (o.fold n) with
    | true => rfl
    | false =>
      cases parent with
      | none => rfl
      | some p =>
        simp only [discard_get, requireParent]
        cases o.get p <;> rfl

theorem agrees_instantiate (o : Objects) (className : String) (name : Option String)
    (parent : Option ObjectId) (isDatablock : Bool) :
    (instantiate className name parent isDatablock).Agrees o
      ((o.instantiate className name parent isDatablock).map Prod.snd) := by
  rw [map_instantiate]
  refine agrees_look fun _ _ => agrees_look fun _ _ => ?_
  exact (completes_store o className (givenName name) parent isDatablock).agrees

theorem live_update {id x : ObjectId} (f : Instance → Instance)
    (hlive : ∃ i, o.instances.get? x = some i) :
    ∃ i, (o.update id f).instances.get? x = some i := by
  obtain ⟨i, hi⟩ := hlive
  rw [get?_update, hi]
  split
  · exact ⟨f i, rfl⟩
  · exact ⟨i, rfl⟩

theorem live_detach (child : ObjectId) {x : ObjectId} (hlive : ∃ i, o.instances.get? x = some i) :
    ∃ i, (o.detach child).instances.get? x = some i := by
  unfold Objects.detach
  split
  · exact hlive
  · exact live_update _ (live_update _ hlive)

theorem completes_writeTo {id : ObjectId} (hlive : ∃ i, o.instances.get? id = some i)
    (f : Instance → Instance) : (writeTo id f).Completes o (o.update id f) := by
  obtain ⟨i, hi⟩ := hlive
  exact completes_look (get_eq_ok.mpr hi) (completes_write o _)

theorem completes_detach {child : ObjectId} (hlive : ∃ i, o.instances.get? child = some i) :
    (detach child).Completes o (o.detach child) := by
  obtain ⟨i, hi⟩ := hlive
  refine completes_look (get_eq_ok.mpr hi) ?_
  unfold Objects.detach
  rw [groupOf_eq hi]
  cases i.group with
  | none => exact completes_pure o
  | some g => exact (completes_write o _).bind (completes_write _ _)

theorem agrees_addChild (o : Objects) (group child : ObjectId) :
    (addChild group child).Agrees o (o.addChild group child) := by
  unfold addChild Objects.addChild
  rw [discard_get, discard_get]
  refine agrees_look fun g hg => agrees_look fun c hc => ?_
  rw [get_eq_ok] at hg hc
  refine Agrees.look ?_ rfl
  by_cases hrefused : (decide (group = child) || o.isAncestor child group) = true
  · rw [if_pos hrefused, if_pos hrefused]
    exact (completes_pure o).agrees
  · rw [if_neg hrefused, if_neg hrefused]
    -- The child and its new owner stay where they are while the child is taken away.
    refine Completes.agrees ((completes_detach ⟨c, hc⟩).bind ?_)
    refine (completes_writeTo ?_ _).bind (completes_writeTo ?_ _)
    · exact live_detach child ⟨g, hg⟩
    · exact live_update _ (live_detach child ⟨c, hc⟩)

theorem agrees_removeChild (o : Objects) (group child : ObjectId) :
    (removeChild group child).Agrees o (o.removeChild group child) := by
  unfold removeChild Objects.removeChild
  refine agrees_look fun i hi => ?_
  rw [get_eq_ok] at hi
  by_cases hgroup : i.group = some group
  · rw [if_pos hgroup, if_pos hgroup]
    exact (completes_detach ⟨i, hi⟩).agrees
  · rw [if_neg hgroup, if_neg hgroup]
    exact (completes_pure o).agrees

theorem completes_remove {id : ObjectId} (hlive : ∃ i, o.instances.get? id = some i) :
    (detach id >>= fun _ => remove id).Completes o (o.removeOne id) := by
  obtain ⟨i, hi⟩ := live_detach id hlive
  refine (completes_detach hlive).bind (completes_look rfl ?_)
  simp only [removeOne, hi]
  refine (completes_write _ _).bind ?_
  cases i.name with
  | none => exact completes_pure _
  | some n => exact (completes_write _ _).bind (completes_write _ _)

/-- One child is deleted after the other, if deletions under this budget succeed. -/
theorem completes_children {budget : Nat} (ids : List ObjectId) {o : Objects}
    (hdelete : ∀ {o : Objects} {id : ObjectId} {i : Instance}, o.WellFormed →
      o.instances.get? id = some i → (∀ n x, o.ownerAt n x = some id → n < budget) →
      (delete budget id).Completes o (removeTree budget id o))
    (h : o.WellFormed) (hbudget : ∀ c ∈ ids, ∀ n x, o.ownerAt n x = some c → n < budget) :
    (ids.forM fun child => do
      if ← look fun o => .ok (o.contains child) then delete budget child).Completes o
        (ids.foldl (fun o c => removeTree budget c o) o) := by
  induction ids generalizing o with
  | nil => exact completes_pure o
  | cons c rest ih =>
    have hc := hbudget c (List.mem_cons_self ..)
    have hfirst : (look (fun o => .ok (o.contains c)) >>= fun there =>
        if there then delete budget c else pure ()).Completes o (removeTree budget c o) := by
      refine completes_look rfl ?_
      unfold Objects.contains Table.contains
      cases hi : o.instances.get? c with
      | none =>
        have hsame : removeTree budget c o = o := by cases budget <;> simp [removeTree, hi]
        rw [hsame]
        exact completes_pure o
      | some i => exact hdelete h hi hc
    -- What is left has no longer chains, so the budget serves the others as well.
    obtain ⟨gone, hgone, -, -⟩ := removed_removeTree budget c h hc
    refine hfirst.bind (ih (hgone.wellFormed h) fun d hd n x hn => ?_)
    exact hbudget d (List.mem_cons_of_mem _ hd) n x (ownerAt_mono hgone.groupOf_mono hn)

theorem completes_delete (budget : Nat) {id : ObjectId} {i : Instance} (h : o.WellFormed)
    (hi : o.instances.get? id = some i) (hbudget : ∀ n x, o.ownerAt n x = some id → n < budget) :
    (delete budget id).Completes o (removeTree budget id o) := by
  induction budget generalizing o id i with
  | zero =>
    have hlt := hbudget 0 id rfl
    omega
  | succ budget ih =>
    obtain ⟨hchildren, hstill, -, -⟩ := h.outlives_children hi hbudget
    rw [removeTree_succ hi]
    refine completes_look (get_eq_ok.mpr hi) ?_
    exact (completes_children i.children ih h hchildren).bind (completes_remove hstill)

theorem agrees_delete (h : o.WellFormed) (id : ObjectId) {budget : Nat}
    (hbudget : o.size < budget) : (delete budget id).Agrees o (o.delete id) := by
  cases hi : o.instances.get? id with
  | some i =>
    have hends := completes_delete budget h hi fun n x hn => by
      have hle := h.ownerAt_le_size hn
      omega
    rw [h.walksEnd.downwards id budget hbudget] at hends
    rw [delete_eq_ok.mpr ⟨⟨i, hi⟩, rfl⟩]
    exact hends.agrees
  | none =>
    obtain ⟨k, rfl⟩ : ∃ k, budget = k + 1 := ⟨budget - 1, by omega⟩
    unfold delete Objects.delete
    rw [discard_get]
    refine agrees_look fun i hget => ?_
    rw [get_eq_ok, hi] at hget
    cases hget

theorem agrees_perform (h : o.WellFormed) (op : Operation) {budget : Nat}
    (hbudget : o.size < budget) : (perform budget op).Agrees o (o.apply op) := by
  cases op with
  | registerClass name parent => exact (completes_write o (·.registerClass name parent)).agrees
  | instantiate className name parent isDatablock =>
    exact agrees_instantiate o className name parent isDatablock
  | setField id name value => exact agrees_setField o id name value
  | addChild group child => exact agrees_addChild o group child
  | removeChild group child => exact agrees_removeChild o group child
  | delete id => exact agrees_delete h id hbudget

theorem performAll_eq (ops : List Operation) (h : o.WellFormed) :
    performAll ops o = some (o.run ops) := by
  induction ops generalizing o with
  | nil => rfl
  | cons op rest ih =>
    have hagrees := agrees_perform h op (Nat.lt_succ_self o.size)
    have hstep : ∃ r n, perform (o.size + 1) op ⟨o, 0⟩ = some (r, ⟨o.step op, n⟩) := by
      unfold Objects.step
      cases happly : o.apply op with
      | ok o' =>
        obtain ⟨n, hn⟩ := hagrees.completes o' happly 0
        exact ⟨_, n, hn⟩
      | error fault => exact ⟨_, 0, hagrees.refuses fault happly 0⟩
    obtain ⟨r, n, hn⟩ := hstep
    rw [performAll, hn]
    exact ih (h.step op)

end Change

/-- Operations that fail change nothing. This is so after any history, in which every operation has
gone on from what the one before it has left. Step by step and with any sufficient budget, an
operation fails exactly if it does so as a whole, with the same fault and before its first
change, so that the registry is what it was; otherwise the steps lead to the same registry. -/
theorem failed_operation_changes_nothing (caseSensitive : Bool) (ops : List Operation) :
    let o := (new caseSensitive).run ops
    Change.performAll ops (new caseSensitive) = some o ∧
    ∀ (op : Operation) (budget : Nat), o.size < budget →
      (∀ fault p, Change.perform budget op ⟨o, 0⟩ = some (.error fault, p) ↔
        o.apply op = .error fault ∧ p = ⟨o, 0⟩) ∧
      ∀ o', o.apply op = .ok o' ↔
        ∃ n, Change.perform budget op ⟨o, 0⟩ = some (.ok (), ⟨o', n⟩) := by
  intro o
  refine ⟨Change.performAll_eq ops (wellFormed_new caseSensitive), fun op budget hbudget => ?_⟩
  have hagrees := Change.agrees_perform ((wellFormed_new caseSensitive).run ops) op hbudget
  cases happly : o.apply op with
  | ok made =>
    obtain ⟨n, hn⟩ := hagrees.completes made happly 0
    simp [o, hn]
  | error fault =>
    have hn := hagrees.refuses fault happly 0
    simp [o, hn, eq_comm]

end TorqueScript.Objects
