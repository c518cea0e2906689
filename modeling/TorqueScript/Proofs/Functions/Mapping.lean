import Mathlib.Data.List.Basic
import TorqueScript.Functions

/-!
Registries with other bodies. The operations on functions look at keys, packages and the
order of entries, never at bodies, so they commute with every change of the bodies.
-/

namespace TorqueScript

variable {β γ : Type} (g : β → γ)

def Entry.map (e : Entry β) : Entry γ :=
  ⟨e.package, g e.body⟩

def Definition.map (d : Definition β) : Definition γ :=
  ⟨g d.body, d.slot⟩

namespace Entry

theorem map_setBase (body : β) (stack : List (Entry β)) :
    (setBase body stack).map (Entry.map g) = setBase (g body) (stack.map (Entry.map g)) := by
  cases stack with
  | nil => rfl
  | cons e rest => by_cases h : e.package.isNone = true <;> simp [setBase, Entry.map, h]

theorem map_setPackage (package : String) (body : β) (stack : List (Entry β)) :
    (setPackage package body stack).map (Entry.map g) =
      setPackage package (g body) (stack.map (Entry.map g)) := by
  induction stack with
  | nil => rfl
  | cons e rest ih =>
    by_cases h : e.package = some package
    · simp [setPackage, Entry.map, h]
    · have h' : (Entry.map g e).package ≠ some package := h
      rw [setPackage, if_neg h, List.map_cons, List.map_cons, setPackage, if_neg h', ih]

theorem map_dropPackage (package : String) (stack : List (Entry β)) :
    (dropPackage package stack).map (Entry.map g) =
      dropPackage package (stack.map (Entry.map g)) := by
  simp only [dropPackage, List.filter_map, Function.comp_def]
  rfl

theorem below?_map (package : Option String) (stack : List (Entry β)) :
    below? package (stack.map (Entry.map g)) = (below? package stack).map (Entry.map g) := by
  induction stack with
  | nil => rfl
  | cons lower rest ih =>
    cases rest with
    | nil => rfl
    | cons e rest =>
      simp only [List.map_cons, below?] at ih ⊢
      by_cases hlower : lower.package = package
      · simp [Entry.map, hlower]
      · by_cases he : e.package = package
        · simp [Entry.map, hlower, he]
        · simp only [Entry.map, hlower, he, if_false]
          exact ih

end Entry

namespace Functions

/-- The registry with every body changed in the same way. -/
def map (r : Functions β) : Functions γ where
  caseSensitive := r.caseSensitive
  definitions := r.definitions.map (List.map (Entry.map g))
  packages := r.packages.map (Table.map g)
  active := r.active

theorem stack_map (r : Functions β) (k : FunctionKey) :
    (r.map g).stack k = (r.stack k).map (Entry.map g) := by
  rw [stack, map, Table.get?_map, stack]
  cases r.definitions.get? k <;> rfl

theorem resolve_map (r : Functions β) (k : FunctionKey) :
    (r.map g).resolve k = (r.resolve k).map (Definition.map g) := by
  rw [resolve, stack_map, List.getLast?_map, resolve, Option.map_map, Option.map_map]
  rfl

theorem resolveParent_map (r : Functions β) (slot : Slot) :
    (r.map g).resolveParent slot = (r.resolveParent slot).map (Definition.map g) := by
  rw [resolveParent, stack_map, Entry.below?_map, resolveParent, Option.map_map, Option.map_map]
  rfl

theorem isFunction_map (r : Functions β) (k : FunctionKey) :
    (r.map g).isFunction k = r.isFunction k :=
  Table.contains_map _ _ k

theorem isPackage_map (r : Functions β) (name : String) :
    (r.map g).isPackage name = r.isPackage name :=
  Table.contains_map _ _ _

theorem map_define (r : Functions β) (k : FunctionKey) (body : β) :
    (r.define k body).map g = (r.map g).define k (g body) := by
  rw [define, define, stack_map, ← Entry.map_setBase]
  simp only [map, Table.map_insert]

theorem map_push (package : String) (r : Functions β) (k : FunctionKey) (body : β) :
    (r.push package k body).map g = (r.map g).push package k (g body) := by
  rw [push, push, stack_map, ← Entry.map_setPackage]
  simp only [map, Table.map_insert]

theorem map_foldl_push (package : String) (ds : List (FunctionKey × β)) (r : Functions β) :
    (ds.foldl (fun r d => r.push package d.1 d.2) r).map g =
      (ds.map fun d => (d.1, g d.2)).foldl (fun r d => r.push package d.1 d.2) (r.map g) := by
  induction ds generalizing r with
  | nil => rfl
  | cons d rest ih => rw [List.foldl_cons, ih, map_push, List.map_cons, List.foldl_cons]

theorem map_declareOne (package : String) (r : Functions β) (d : FunctionKey × β) :
    (declareOne package r d).map g = declareOne package (r.map g) (d.1, g d.2) := by
  have hknown : ∀ s : Functions β, ((s.packages.map (Table.map g)).get? package).getD ∅ =
      ((s.packages.get? package).getD ∅).map g := by
    intro s
    rw [Table.get?_map]
    cases s.packages.get? package <;> rfl
  simp only [declareOne]
  by_cases hactive : package ∈ r.active
  · have hactive' : package ∈ (r.map g).active := hactive
    rw [if_pos hactive, if_pos hactive', ← map_push]
    simp only [map, Table.map_insert, hknown]
  · have hactive' : package ∉ (r.map g).active := hactive
    rw [if_neg hactive, if_neg hactive']
    simp only [map, Table.map_insert, hknown]

theorem map_declare (r : Functions β) (name : String) (ds : List (FunctionKey × β)) :
    (r.declare name ds).map g = (r.map g).declare name (ds.map fun d => (d.1, g d.2)) := by
  have hall : ∀ (ds : List (FunctionKey × β)) (r : Functions β),
      (ds.foldl (declareOne (r.fold name)) r).map g =
        (ds.map fun d => (d.1, g d.2)).foldl (declareOne (r.fold name)) (r.map g) := by
    intro ds r
    generalize r.fold name = package
    induction ds generalizing r with
    | nil => rfl
    | cons d rest ih => rw [List.foldl_cons, ih, map_declareOne, List.map_cons, List.foldl_cons]
  have hfold : (r.map g).fold name = r.fold name := rfl
  simp only [declare, hfold, ← hall]
  have hcontains : ((ds.foldl (declareOne (r.fold name)) r).map g).packages.contains (r.fold name) =
      (ds.foldl (declareOne (r.fold name)) r).packages.contains (r.fold name) :=
    Table.contains_map _ _ _
  rw [hcontains]
  split
  · rfl
  · simp only [map, Table.map_insert, Table.map_empty]

theorem activate_map (r : Functions β) (name : String) :
    (r.map g).activate name = (r.activate name).map (Functions.map g) := by
  have hfold : (r.map g).fold name = r.fold name := rfl
  have hactive : (r.map g).active = r.active := rfl
  have hpackages : (r.map g).packages.get? (r.fold name) =
      (r.packages.get? (r.fold name)).map (Table.map g) := Table.get?_map _ _ _
  simp only [activate, hfold, hactive, hpackages]
  by_cases ha : r.fold name ∈ r.active
  · simp [ha, Except.map]
  · rw [if_neg ha, if_neg ha]
    cases r.packages.get? (r.fold name) with
    | none => rfl
    | some known =>
      simp only [Option.map_some, Table.entries_map, ← map_foldl_push, Except.map]
      rfl

theorem map_pull (package : String) (r : Functions β) (k : FunctionKey) :
    (pull package r k).map g = pull package (r.map g) k := by
  have hget : (r.map g).definitions.get? k = (r.definitions.get? k).map (List.map (Entry.map g)) :=
    Table.get?_map _ _ k
  rw [pull, pull, hget]
  cases r.definitions.get? k with
  | none => rfl
  | some stack =>
    simp only [Option.map_some, ← Entry.map_dropPackage]
    cases Entry.dropPackage package stack with
    | nil =>
      simp only [List.map_nil, map, Table.map_erase]
    | cons e rest =>
      simp only [List.map_cons, map, Table.map_insert]

theorem map_deactivate (r : Functions β) (name : String) :
    (r.deactivate name).map g = (r.map g).deactivate name := by
  have hall : ∀ (ds : List (FunctionKey × β)) (r : Functions β) (package : String),
      (ds.foldl (fun r d => r.pull package d.1) r).map g =
        (ds.map fun d => (d.1, g d.2)).foldl (fun r d => r.pull package d.1) (r.map g) := by
    intro ds r package
    induction ds generalizing r with
    | nil => rfl
    | cons d rest ih => rw [List.foldl_cons, ih, map_pull, List.map_cons, List.foldl_cons]
  have hfold : (r.map g).fold name = r.fold name := rfl
  have hactive : (r.map g).active = r.active := rfl
  have hknown : ((r.map g).packages.get? (r.fold name)).getD ∅ =
      ((r.packages.get? (r.fold name)).getD ∅).map g := by
    have hget : (r.map g).packages.get? (r.fold name) =
        (r.packages.get? (r.fold name)).map (Table.map g) := Table.get?_map _ _ _
    rw [hget]
    cases r.packages.get? (r.fold name) <;> rfl
  simp only [deactivate, hfold, hactive]
  split
  · simp only [hknown, Table.entries_map, ← hall]
    rfl
  · rfl

end Functions

end TorqueScript
