import TorqueScript.Objects.Reference
import TorqueScript.Proofs.Number.Whole
import TorqueScript.Proofs.Objects.Fates

/-!
What a reference means after a history. An object is referred to by its number, in any of
three forms, or by its name. A reference finds the object while it is there; of one that is
not, the fault says whether it was deleted or never made.
-/

namespace TorqueScript.Objects

/-- The values that refer to an object by its number. Its digits may have blanks around them. -/
inductive Denotes (id : ObjectId) : Value → Prop where
  | object : Denotes id (.object id)
  | number : Denotes id (.number (Float.ofNat id))
  | text {s : String} (before after : List Char) (hbefore : ∀ c ∈ before, Text.isBlank c = true)
      (hafter : ∀ c ∈ after, Text.isBlank c = true)
      (htext : s.toList = before ++ (toString id).toList ++ after) : Denotes id (.text s)

theorem resolveNumber_ofNat {o : Objects} (ho : o.WellFormed) {id : ObjectId} (hid : id ≤ maxId)
    {reference : String} (hzero : id = 0 → reference = "0") :
    o.resolveNumber (Float.ofNat id) reference = (o.get id).map Instance.id := by
  by_cases hpos : id = 0
  · -- Zero is the number of no object, and no larger number either.
    subst hpos
    have hnone : o.instances.get? 0 = none := by
      cases hi : o.instances.get? 0 with
      | none => rfl
      | some i => exact absurd (ho.numbered 0 i hi).1 (by decide)
    have hlow : Float.ofNat 0 < 1.0 := by decide
    simp [resolveNumber, hlow, get, hnone, missing, hzero rfl, Except.map]
    decide
  · have hmax : maxId < 2 ^ 53 := by decide
    have hsmall : Number.Small id := ⟨Nat.pos_of_ne_zero hpos, Nat.lt_of_le_of_lt hid hmax⟩
    have hone : Number.Small 1 := ⟨by decide, by decide⟩
    have hlow : ¬ Float.ofNat id < 1.0 := by
      rw [show (1.0 : Float) = Float.ofNat 1 by decide]
      exact Number.not_ofNat_lt hsmall hone hsmall.pos
    have hhigh : ¬ Float.ofNat maxId < Float.ofNat id :=
      Number.not_ofNat_lt ⟨by decide, hmax⟩ hsmall hid
    simp only [resolveNumber, Number.isWhole_ofNat hsmall, hlow, hhigh,
      Number.toInteger_ofNat hsmall]
    simp

theorem resolve_of_denotes {o : Objects} (ho : o.WellFormed) {id : ObjectId} (hid : id ≤ maxId)
    {v : Value} (hv : Denotes id v) : o.resolve v = (o.get id).map Instance.id := by
  cases hv with
  | object => rfl
  | number =>
    refine resolveNumber_ofNat ho hid fun hzero => ?_
    subst hzero
    decide +kernel
  | text before after hbefore hafter htext =>
    have htoString : (toString id).toList = Nat.toDigits 10 id := by
      rw [Nat.toString_eq_repr, Nat.toList_repr]
    have hdigits : (Nat.toDigits 10 id).all Char.isDigit = true :=
      List.all_eq_true.mpr fun c => Nat.isDigit_of_mem_toDigits (by decide) (by decide)
    have hmax : maxId < 2 ^ 53 := by decide
    rw [htoString, List.append_assoc] at htext
    simp only [resolve, htext, Number.trim_digits hbefore hafter, hdigits,
      Number.ofText_digits hbefore hafter (Nat.lt_of_le_of_lt hid hmax)]
    have hsome : (Nat.toDigits 10 id).isEmpty = false := by
      simp
    rw [hsome]
    refine resolveNumber_ofNat ho hid fun hzero => ?_
    subst hzero
    decide

/-- Looking up a number tells an object that is there from one that was deleted and from one that
was never made. -/
theorem Account.get_eq {o : Objects} {made : List (ObjectId × Option String)}
    {deleted : ObjectId → Prop} (h : Account o made deleted) (ho : o.WellFormed) (id : ObjectId) :
    ((∃ name, (id, name) ∈ made) → ¬ deleted id → (o.get id).map Instance.id = .ok id) ∧
    (deleted id → (o.get id).map Instance.id = .error (.deletedObject (toString id))) ∧
    ((¬ ∃ name, (id, name) ∈ made) →
      (o.get id).map Instance.id = .error (.unknownObject (toString id))) := by
  have hmade := h.mem_made id
  have hlive := h.live id
  unfold get
  cases hi : o.instances.get? id with
  | some i =>
    obtain ⟨hcreated, hkept⟩ := hlive.mp ⟨i, hi⟩
    refine ⟨fun _ _ => congrArg Except.ok (ho.stored id i hi), fun hdeleted => ?_, fun hnew => ?_⟩
    · exact absurd hdeleted hkept
    · exact absurd hcreated hnew
  | none =>
    have hgone : (∃ name, (id, name) ∈ made) → deleted id := by
      intro hcreated
      by_contra hkept
      obtain ⟨i, hi'⟩ := hlive.mpr ⟨hcreated, hkept⟩
      rw [hi] at hi'
      cases hi'
    refine ⟨fun hcreated hkept => absurd (hgone hcreated) hkept, fun hdeleted => ?_, fun hnew => ?_⟩
    · obtain ⟨hpos, hlt⟩ := hmade.mp (h.gone id hdeleted)
      have hzero : id ≠ 0 := Nat.ne_of_gt hpos
      simp [missing, hlt, hzero, Except.map]
    · have hout : ¬ (id ≠ 0 ∧ id < o.nextId) :=
        fun hin => hnew (hmade.mpr ⟨Nat.pos_of_ne_zero hin.1, hin.2⟩)
      simp [missing, hout, Except.map]

/-- A text that does not end up all digits is looked up among the names. -/
theorem resolve_text {o : Objects} {s : String}
    (hname : ∃ c ∈ Text.trim s.toList, c.isDigit = false) :
    o.resolve (.text s) =
      match o.findByName (Text.trimmed s) with
      | some id => .ok id
      | none => .error (missing (Text.trimmed s) (o.fold (Text.trimmed s) ∈ o.retired)) := by
  obtain ⟨c, hc, hdigit⟩ := hname
  have hall : (Text.trim s.toList).all Char.isDigit = false :=
    List.all_eq_false.mpr ⟨c, hc, by simp [hdigit]⟩
  simp only [resolve, hall, Bool.and_false]
  rfl

namespace Account

variable {o : Objects} {made : List (ObjectId × Option String)} {deleted : ObjectId → Prop}

/-- No number is given out twice, so an object has one name. -/
theorem name_unique (h : Account o made deleted) {id : ObjectId} {name name' : Option String}
    (hname : (id, name) ∈ made) (hname' : (id, name') ∈ made) : name = name' := by
  have hnodup : (made.map Prod.fst).Nodup := by
    rw [h.numbers]
    exact List.nodup_range'
  exact congrArg Prod.snd (List.inj_on_of_nodup_map hnodup hname hname' rfl)

theorem get?_names (h : Account o made deleted) (ho : o.WellFormed) {n : String} {id : ObjectId} :
    o.names.get? n = some id ↔ ∃ m, (id, some m) ∈ made ∧ ¬ deleted id ∧ o.fold m = n := by
  rw [ho.named]
  constructor
  · rintro ⟨i, hi, hname⟩
    obtain ⟨m, hm, hmn⟩ := Option.map_eq_some_iff.mp hname
    exact ⟨m, hm ▸ h.named id i hi, ((h.live id).mp ⟨i, hi⟩).2, hmn⟩
  · rintro ⟨m, hmade, hkept, rfl⟩
    obtain ⟨i, hi⟩ := (h.live id).mpr ⟨⟨some m, hmade⟩, hkept⟩
    have hm : i.name = some m := h.name_unique (h.named id i hi) hmade
    exact ⟨i, hi, by rw [hm, Option.map_some]⟩

/-- Looking up a name tells one that an object has from one that only deleted objects had and from
one that none ever had. -/
theorem resolve_name (h : Account o made deleted) (ho : o.WellFormed) {s : String}
    (hs : ∃ c ∈ Text.trim s.toList, c.isDigit = false) :
    (∀ id m, (id, some m) ∈ made → ¬ deleted id → o.fold m = o.fold (Text.trimmed s) →
      o.resolve (.text s) = .ok id) ∧
    ((∃ id m, (id, some m) ∈ made ∧ o.fold m = o.fold (Text.trimmed s)) →
      (∀ id m, (id, some m) ∈ made → o.fold m = o.fold (Text.trimmed s) → deleted id) →
      o.resolve (.text s) = .error (.deletedObject (Text.trimmed s))) ∧
    ((∀ id m, (id, some m) ∈ made → o.fold m ≠ o.fold (Text.trimmed s)) →
      o.resolve (.text s) = .error (.unknownObject (Text.trimmed s))) := by
  have hnone : (∀ id m, (id, some m) ∈ made → o.fold m = o.fold (Text.trimmed s) → deleted id) →
      o.findByName (Text.trimmed s) = none := by
    intro hgone
    cases hfound : o.findByName (Text.trimmed s) with
    | none => rfl
    | some id =>
      obtain ⟨m, hmade, hkept, hm⟩ := (h.get?_names ho).mp hfound
      exact absurd (hgone id m hmade hm) hkept
  rw [resolve_text hs]
  refine ⟨fun id m hmade hkept hm => ?_, fun hmade hgone => ?_, fun hnever => ?_⟩
  · rw [findByName, (h.get?_names ho).mpr ⟨m, hmade, hkept, hm⟩]
  · have hretired := (h.retired _).mpr ⟨hmade, hnone hgone⟩
    simp [hnone hgone, hretired, missing]
  · have hunknown : o.fold (Text.trimmed s) ∉ o.retired := by
      intro hretired
      obtain ⟨⟨id, m, hmade, hm⟩, -⟩ := (h.retired _).mp hretired
      exact hnever id m hmade hm
    simp [hnone fun id m hmade hm => absurd hm (hnever id m hmade), hunknown, missing]

end Account

/-- Objects are numbered from one on, and no number is used again. After any history a reference by
number finds the object if it was made and not deleted since, with an owner or alone; the fault
says that it was deleted, or that it was never made. A reference by name, a text that is neither
empty nor all digits without the blanks around it, finds the object that has the name, in the same
sense; the fault says that objects with the name were deleted, or that there never was one. -/
theorem resolve_after_history (caseSensitive : Bool) (ops : List Operation) :
    let start := new caseSensitive
    let o := start.run ops
    let made := start.creations ops
    made.map Prod.fst = List.range' 1 made.length ∧
    (∀ id v, id ≤ maxId → Denotes id v →
      (start.Created ops id → ¬ start.Deleted ops id → o.resolve v = .ok id) ∧
      (start.Deleted ops id → o.resolve v = .error (.deletedObject (toString id))) ∧
      (¬ start.Created ops id → o.resolve v = .error (.unknownObject (toString id)))) ∧
    (∀ s : String, (∃ c ∈ Text.trim s.toList, c.isDigit = false) →
      let hasName := fun name =>
        foldName caseSensitive name = foldName caseSensitive (Text.trimmed s)
      (∀ id name, (id, some name) ∈ made → ¬ start.Deleted ops id → hasName name →
        o.resolve (.text s) = .ok id) ∧
      ((∃ id name, (id, some name) ∈ made ∧ hasName name) →
        (∀ id name, (id, some name) ∈ made → hasName name → start.Deleted ops id) →
        o.resolve (.text s) = .error (.deletedObject (Text.trimmed s))) ∧
      ((∀ id name, (id, some name) ∈ made → ¬ hasName name) →
        o.resolve (.text s) = .error (.unknownObject (Text.trimmed s)))) := by
  intro start o made
  have haccount : Account o made (start.Deleted ops) := account_run caseSensitive ops
  have ho : o.WellFormed := (wellFormed_new caseSensitive).run ops
  have hcase : o.caseSensitive = caseSensitive := caseSensitive_run _ ops
  refine ⟨haccount.numbers, fun id v hid hv => ?_, fun s hs => ?_⟩
  · rw [resolve_of_denotes ho hid hv]
    exact haccount.get_eq ho id
  · have hname := haccount.resolve_name ho hs
    simp only [fold, hcase] at hname
    exact hname

/-- A group is deleted with its member, and its name is taken again. -/
theorem resolve_after_history_group :
    let ops : List Operation :=
      [.instantiate "SimSet" (some "Base") none false,
        .instantiate "SimSet" (some "Leaf") none false, .addChild 1 2, .delete 1,
        .instantiate "SimSet" (some "BASE") none false]
    let o := (new false).run ops
    (new false).Deleted ops 2 ∧ ¬ (new false).Deleted ops 3 ∧
      o.resolve (.number (Float.ofNat 3)) = .ok 3 ∧
      o.resolve (.text " 2\t") = .error (.deletedObject "2") ∧
      o.resolve (.object 4) = .error (.unknownObject "4") ∧
      o.resolve (.text "base ") = .ok 3 ∧
      o.resolve (.text "leaf") = .error (.deletedObject "leaf") ∧
      o.resolve (.text "twig") = .error (.unknownObject "twig") := by
  intro ops o
  have hmade : (new false).creations ops =
      [(1, some "Base"), (2, some "Leaf"), (3, some "BASE")] := by
    decide
  have hleaf : (new false).Deleted ops 2 :=
    ⟨ops.take 3, 1, ops.drop 4, rfl, ⟨some "Leaf", by decide⟩, 1, by decide⟩
  have hbase : ¬ (new false).Deleted ops 3 :=
    (((account_run false ops).live 3).mp (Option.isSome_iff_exists.mp (by decide))).2
  have hfate := resolve_after_history false ops
  simp only [Created, hmade] at hfate
  obtain ⟨-, hnumber, hname⟩ := hfate
  have hblanks : Denotes 2 (.text " 2\t") :=
    .text [' '] ['\t'] (by simp [Text.isBlank, Text.blankRanges])
      (by simp [Text.isBlank, Text.blankRanges]) (by decide)
  refine ⟨hleaf, hbase, ?_, ?_, ?_, ?_, ?_, ?_⟩
  · exact (hnumber 3 _ (by decide) .number).1 ⟨some "BASE", by decide⟩ hbase
  · exact (hnumber 2 _ (by decide) hblanks).2.1 hleaf
  · exact (hnumber 4 _ (by decide) .object).2.2 (by simp)
  · exact (hname "base " ⟨'b', by decide⟩).1 3 "BASE" (by decide) hbase (by decide)
  · refine (hname "leaf" ⟨'l', by decide⟩).2.1 ⟨2, "Leaf", by decide, by decide⟩ ?_
    intro id name hid hleaf
    simp only [List.mem_cons, Prod.mk.injEq, Option.some.injEq, List.not_mem_nil, or_false] at hid
    rcases hid with ⟨rfl, rfl⟩ | ⟨rfl, rfl⟩ | ⟨rfl, rfl⟩
    · exact absurd hleaf (by decide)
    · assumption
    · exact absurd hleaf (by decide)
  · refine (hname "twig" ⟨'t', by decide⟩).2.2 ?_
    intro id name hid
    simp only [List.mem_cons, Prod.mk.injEq, Option.some.injEq, List.not_mem_nil, or_false] at hid
    rcases hid with ⟨rfl, rfl⟩ | ⟨rfl, rfl⟩ | ⟨rfl, rfl⟩ <;> decide

end TorqueScript.Objects
