import TorqueScript.Proofs.Objects.References

/-!
Objects under their own names. A name is registered as it was given, but a text that refers to
an object loses the blanks around it first. So an object whose name has blanks around it is
found by looking up the name, while the name as a reference means another object or none.
-/

namespace TorqueScript.Objects

theorem trim_sublist (cs : List Char) : List.Sublist (Text.trim cs) cs := by
  have hright : List.Sublist (Text.trim cs) (Text.trimLeft cs) := by
    have hreversed := List.dropWhile_sublist Text.isBlank (l := (Text.trimLeft cs).reverse)
    simpa [Text.trim, Text.trimRight, Text.trimLeft] using hreversed.reverse
  exact hright.trans (List.dropWhile_sublist _)

theorem length_foldName (caseSensitive : Bool) (name : String) :
    (foldName caseSensitive name).toList.length = name.toList.length := by
  cases caseSensitive with
  | true => rfl
  | false => simp [foldName, Text.lowerAscii]

/-- Folding changes no length, so a name is not the same name without its outer blanks. -/
theorem fold_trimmed_iff (o : Objects) (name : String) :
    o.fold (Text.trimmed name) = o.fold name ↔ Text.trimmed name = name := by
  refine ⟨fun hfold => ?_, fun h => by rw [h]⟩
  have hlength := congrArg (fun s => s.toList.length) hfold
  simp only [fold, length_foldName] at hlength
  rw [Text.trimmed, String.toList_ofList] at hlength
  rw [Text.trimmed, (trim_sublist name.toList).eq_of_length hlength, String.ofList_toList]

/-- A text that is not all digits between its blanks is looked up among the names. -/
theorem resolve_eq_ok_iff {o : Objects} {name : String}
    (hname : Text.trim name.toList = [] ∨ ∃ c ∈ Text.trim name.toList, c.isDigit = false)
    (id : ObjectId) :
    o.resolve (.text name) = .ok id ↔ o.findByName (Text.trimmed name) = some id := by
  have hnumber : (!(Text.trim name.toList).isEmpty &&
      (Text.trim name.toList).all Char.isDigit) = false := by
    rcases hname with hnil | ⟨c, hc, hdigit⟩
    · rw [hnil]
      rfl
    · rw [List.all_eq_false.2 ⟨c, hc, by simp [hdigit]⟩, Bool.and_false]
  simp only [resolve, hnumber, Bool.false_eq_true, if_false, Text.trimmed]
  cases o.findByName (String.ofList (Text.trim name.toList)) <;> simp

namespace WellFormed

variable {o : Objects} {id : ObjectId} {i : Instance} {name : String}

theorem findByName_iff (h : o.WellFormed) (hi : o.instances.get? id = some i)
    (hname : i.name = some name) (other : String) :
    o.findByName other = some id ↔ o.fold other = o.fold name := by
  rw [findByName, h.named]
  simp [hi, hname, eq_comm]

end WellFormed

/-- An object that is there, under a name that is not all digits between its blanks. Looking up the
name finds the object. The name as a reference finds it exactly if there are no blanks around
the name; in any case it finds what has the name without them. -/
theorem own_name_is_found_iff (caseSensitive : Bool) (ops : List Operation) {id : ObjectId}
    {i : Instance} {name : String}
    (hi : ((new caseSensitive).run ops).instances.get? id = some i) (hname : i.name = some name)
    (hdigit : Text.trim name.toList = [] ∨ ∃ c ∈ Text.trim name.toList, c.isDigit = false) :
    let o := (new caseSensitive).run ops
    o.findByName name = some id ∧
    (o.resolve (.text name) = .ok id ↔ Text.trimmed name = name) ∧
    ∀ other, o.resolve (.text name) = .ok other ↔
      o.findByName (Text.trimmed name) = some other := by
  intro o
  have ho : o.WellFormed := (wellFormed_new caseSensitive).run ops
  refine ⟨(ho.findByName_iff hi hname name).2 rfl, ?_, resolve_eq_ok_iff hdigit⟩
  rw [resolve_eq_ok_iff hdigit, ho.findByName_iff hi hname, fold_trimmed_iff]

/-- A name with blanks inside, in the spelling of its object. -/
theorem own_name_is_found_inner_blank :
    let o := (new false).run [.instantiate "SimSet" (some "Flag Ship") none false]
    o.findByName "Flag Ship" = some 1 ∧ o.resolve (.text "Flag Ship") = .ok 1 := by
  intro o
  obtain ⟨i, hi, hname⟩ : ∃ i, o.instances.get? 1 = some i ∧ i.name = some "Flag Ship" :=
    ⟨_, rfl, rfl⟩
  obtain ⟨hfound, hresolve, -⟩ := own_name_is_found_iff false _ hi hname (.inr ⟨'F', by decide⟩)
  exact ⟨hfound, hresolve.2 (by decide)⟩

/-- A name with a blank before it: the object is there and looked up by its name, but the name as a
reference means no object, or the other one that has the name without the blank. -/
theorem own_name_not_found :
    let o := (new false).run [.instantiate "ScriptObject" (some " a") none false]
    let o' := o.run [.instantiate "ScriptObject" (some "a") none false]
    (o.instances.get? 1).map Instance.name = some (some " a") ∧ o.findByName " a" = some 1 ∧
      o.resolve (.text " a") = .error (.unknownObject "a") ∧
      (o'.instances.get? 1).map Instance.name = some (some " a") ∧
      o'.resolve (.text " a") = .ok 2 := by
  decide

end TorqueScript.Objects
