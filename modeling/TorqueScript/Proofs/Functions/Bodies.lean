import TorqueScript.Proofs.Functions.Effects

/-!
The bodies in a registry. A property of bodies and of the keys they are given to holds
throughout a registry if it holds of everything that is defined and declared: packages are
switched on and off with what was declared in them, and nothing else gets onto a stack.
-/

namespace TorqueScript

variable {β : Type}

theorem Entry.mem_setBase {body : β} {stack : List (Entry β)} {e : Entry β}
    (h : e ∈ setBase body stack) : e = ⟨none, body⟩ ∨ e ∈ stack := by
  cases stack with
  | nil => exact Or.inl (by simpa [setBase] using h)
  | cons x rest =>
    by_cases hx : x.package.isNone = true
    · simp only [setBase, hx, if_true, List.mem_cons] at h ⊢
      exact h.imp_right Or.inr
    · simpa [setBase, hx] using h

theorem Entry.mem_of_below? {package : Option String} {stack : List (Entry β)} {e : Entry β}
    (h : below? package stack = some e) : e ∈ stack := by
  fun_induction below? package stack with
  | case1 lower e' rest => cases h
  | case2 lower e' rest =>
    cases h
    exact List.mem_cons_self
  | case3 lower e' rest _ _ ih => exact List.mem_cons_of_mem lower (ih h)
  | case4 => cases h

namespace Functions

/-- Every body on a stack or in a package has the property, for its key. -/
structure Only (P : FunctionKey → β → Prop) (r : Functions β) : Prop where
  stacked : ∀ k, ∀ e ∈ r.stack k, P k e.body
  packages : ∀ package known, r.packages.get? package = some known →
    ∀ d ∈ known.entries, P d.1 d.2

namespace Only

variable {P : FunctionKey → β → Prop} {r : Functions β}

theorem empty (caseSensitive : Bool) : Only P { caseSensitive := caseSensitive } where
  stacked k e he := absurd he List.not_mem_nil
  packages package known hknown := by cases hknown

theorem known (h : r.Only P) (package : String) :
    ∀ d ∈ ((r.packages.get? package).getD ∅).entries, P d.1 d.2 := by
  cases hknown : r.packages.get? package with
  | none => exact fun d hd => absurd hd List.not_mem_nil
  | some known => exact h.packages package known hknown

theorem define (h : r.Only P) {k : FunctionKey} {body : β} (hbody : P k body) :
    (r.define k body).Only P where
  stacked other e he := by
    rw [stack_define] at he
    split at he
    · rename_i heq
      subst heq
      rcases Entry.mem_setBase he with rfl | he
      · exact hbody
      · exact h.stacked _ e he
    · exact h.stacked other e he
  packages := h.packages

theorem push (h : r.Only P) (package : String) {k : FunctionKey} {body : β} (hbody : P k body) :
    (r.push package k body).Only P where
  stacked other e he := by
    rw [stack_push] at he
    split at he
    · rename_i heq
      subst heq
      rcases Entry.mem_setPackage he with rfl | he
      · exact hbody
      · exact h.stacked _ e he
    · exact h.stacked other e he
  packages := h.packages

theorem pull (h : r.Only P) (package : String) (k : FunctionKey) :
    (r.pull package k).Only P where
  stacked other e he := by
    rw [stack_pull] at he
    split at he
    · exact h.stacked other e (Entry.mem_dropPackage.mp he).1
    · exact h.stacked other e he
  packages := by
    rw [pull_frame]
    exact h.packages

theorem declareOne (h : r.Only P) (package : String) {d : FunctionKey × β} (hd : P d.1 d.2) :
    (declareOne package r d).Only P where
  stacked k e he := by
    rw [stack_declareOne] at he
    split at he
    · rename_i hpushed
      rcases Entry.mem_setPackage he with rfl | he
      · exact hpushed.2 ▸ hd
      · exact h.stacked k e he
    · exact h.stacked k e he
  packages other known hknown := by
    rw [packages_declareOne, Table.get?_insert] at hknown
    split at hknown
    · cases hknown
      intro x hx
      rcases Table.mem_entries_insert hx with rfl | hx
      · exact hd
      · exact h.known package x hx
    · exact h.packages other known hknown

theorem declare (h : r.Only P) (name : String) {declared : List (FunctionKey × β)}
    (hdeclared : ∀ d ∈ declared, P d.1 d.2) : (r.declare name declared).Only P := by
  have hall : (declared.foldl (Functions.declareOne (r.fold name)) r).Only P :=
    List.foldlRecOn declared _ h fun _ hr d hd => hr.declareOne _ (hdeclared d hd)
  rw [Functions.declare]
  split
  · exact hall
  · refine ⟨hall.stacked, fun package known hknown => ?_⟩
    rw [Table.get?_insert] at hknown
    split at hknown
    · cases hknown
      exact fun d hd => absurd hd List.not_mem_nil
    · exact hall.packages package known hknown

theorem activate (h : r.Only P) {name : String} {r' : Functions β}
    (hok : r.activate name = .ok r') : r'.Only P := by
  rw [Functions.activate] at hok
  split at hok
  · cases hok
    exact h
  · split at hok
    · cases hok
    · rename_i known hknown
      cases hok
      have hraised : (known.entries.foldl (fun r' d => r'.push (r.fold name) d.1 d.2) r).Only P :=
        List.foldlRecOn known.entries _ h fun _ hr d hd =>
          hr.push _ (h.packages _ known hknown d hd)
      exact ⟨hraised.stacked, hraised.packages⟩

theorem deactivate (h : r.Only P) (name : String) : (r.deactivate name).Only P := by
  rw [Functions.deactivate]
  split
  · have hlowered := List.foldlRecOn ((r.packages.get? (r.fold name)).getD ∅).entries
      (fun r' d => r'.pull (r.fold name) d.1) h fun _ hr d _ => hr.pull _ d.1
    exact ⟨hlowered.stacked, hlowered.packages⟩
  · exact h

theorem resolve (h : r.Only P) {k : FunctionKey} {d : Definition β} (hd : r.resolve k = some d) :
    P d.slot.key d.body := by
  obtain ⟨e, he, rfl⟩ := Option.map_eq_some_iff.mp hd
  exact h.stacked k e (List.mem_of_getLast? he)

theorem resolveParent (h : r.Only P) {slot : Slot} {d : Definition β}
    (hd : r.resolveParent slot = some d) : P d.slot.key d.body := by
  obtain ⟨e, he, rfl⟩ := Option.map_eq_some_iff.mp hd
  exact h.stacked slot.key e (Entry.mem_of_below? he)

end Only

end Functions

end TorqueScript
