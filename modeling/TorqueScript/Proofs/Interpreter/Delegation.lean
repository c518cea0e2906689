import Mathlib.Data.List.Nodup
import TorqueScript.Proofs.Functions.History
import TorqueScript.Proofs.Interpreter.Isolation

/-!
Parent calls. The definitions of a name along a chain of namespaces form one list, the stack of
each namespace from its top down, one namespace after the other. A call along the chain runs
the first of them, and a parent call in a running one goes on with the next, as the list is at
that time.
-/

namespace TorqueScript

namespace Entry

variable {β : Type}

theorem below?_append {package : Option String} {lower upper : List (Entry β)} {e : Entry β}
    (hlower : ∀ x ∈ lower, x.package ≠ package) (he : e.package = package) :
    below? package (lower ++ e :: upper) = lower.getLast? := by
  induction lower with
  | nil => cases upper <;> simp [below?, he]
  | cons x rest ih =>
    have hx : x.package ≠ package := hlower x (by simp)
    cases rest with
    | nil => simp [below?, hx, he]
    | cons y rest =>
      have hy : y.package ≠ package := hlower y (by simp)
      rw [List.cons_append, List.cons_append, below?, if_neg hx, if_neg hy]
      rw [List.getLast?_cons_cons]
      exact ih fun z hz => hlower z (List.mem_cons_of_mem x hz)

end Entry

namespace Functions

variable {β : Type}

/-- The definitions under a key, from the one that is called down to the base. -/
def fromTop (r : Functions β) (k : FunctionKey) : List (Definition β) :=
  (r.stack k).reverse.map fun e => ⟨e.body, ⟨k, e.package⟩⟩

/-- There is a definition in a slot. -/
def Holds (r : Functions β) (slot : Slot) : Prop :=
  ∃ e ∈ r.stack slot.key, e.package = slot.package

theorem resolve_eq_head? (r : Functions β) (k : FunctionKey) :
    r.resolve k = (r.fromTop k).head? := by
  rw [resolve, fromTop, List.head?_map, List.head?_reverse]

theorem key_of_mem_fromTop {r : Functions β} {k : FunctionKey} {d : Definition β}
    (h : d ∈ r.fromTop k) : d.slot.key = k := by
  obtain ⟨e, -, rfl⟩ := List.mem_map.mp h
  rfl

theorem WellFormed.nodup_packages {r : Functions β} (h : r.WellFormed) (k : FunctionKey) :
    ((r.stack k).map Entry.package).Nodup := by
  rw [List.nodup_iff_count_le_one]
  intro owner
  have hcount : ((r.stack k).map Entry.package).count owner =
      (Entry.ownedBy owner (r.stack k)).length := by
    rw [Entry.ownedBy, List.count, List.countP_map, List.countP_eq_length_filter]
    refine congrArg List.length (List.filter_congr fun e _ => ?_)
    rw [Bool.eq_iff_iff]
    simp
  rw [hcount]
  cases owner with
  | some package => exact h.length_ownedBy_le package k
  | none =>
    have hbase := h.baseFirst k
    cases hstack : r.stack k with
    | nil => simp [Entry.ownedBy]
    | cons e rest =>
      rw [hstack] at hbase
      have hrest : Entry.ownedBy none rest = [] := Entry.ownedBy_eq_nil.mpr hbase
      rw [Entry.ownedBy_cons, hrest]
      split <;> simp

theorem WellFormed.nodup_fromTop {r : Functions β} (h : r.WellFormed) (k : FunctionKey) :
    ((r.fromTop k).map Definition.slot).Nodup := by
  have hinj : Function.Injective (Slot.mk k) := fun _ _ heq => (Slot.mk.inj heq).2
  have hpackages : (((r.stack k).map Entry.package).map (Slot.mk k)).Nodup :=
    List.Nodup.map hinj (h.nodup_packages k)
  rw [List.map_map] at hpackages
  rw [fromTop, List.map_map, List.map_reverse, List.nodup_reverse]
  exact hpackages

/-- The parent of a definition is the next one below it. -/
theorem WellFormed.resolveParent_eq {r : Functions β} (h : r.WellFormed) {k : FunctionKey}
    {above below : List (Definition β)} {d : Definition β}
    (hsplit : r.fromTop k = above ++ d :: below) : r.resolveParent d.slot = below.head? := by
  obtain ⟨upper, tail, hreverse, rfl, htail⟩ := List.map_eq_append_iff.mp hsplit
  obtain ⟨e, lower, rfl, rfl, rfl⟩ := List.map_eq_cons_iff.mp htail
  have hstack : r.stack k = lower.reverse ++ e :: upper.reverse := by
    rw [← List.reverse_reverse (r.stack k), hreverse]
    simp
  have hlower : ∀ x ∈ lower.reverse, x.package ≠ e.package := by
    intro x hx heq
    have hnodup := h.nodup_packages k
    rw [hstack, List.map_append, List.map_cons] at hnodup
    exact List.disjoint_of_nodup_append hnodup (List.mem_map_of_mem hx)
      (heq ▸ List.mem_cons_self)
  show Option.map _ (Entry.below? e.package (r.stack k)) = _
  rw [hstack, Entry.below?_append hlower rfl, List.getLast?_reverse, List.head?_map]

/-- The definitions of a name along a chain of namespaces, in the order in which calls and parent
calls run them, each with what comes with running it. -/
def overrideOrder (r : Functions Callable) (name : String) (receiver : Option ObjectId) :
    List String → List Dispatch
  | [] => []
  | q :: rest =>
    (r.fromTop (r.key (some q) name)).map (⟨·, rest, receiver⟩) ++
      r.overrideOrder name receiver rest

/-- The order along the end of a chain is the end of the order. -/
theorem overrideOrder_append (r : Functions Callable) (name : String)
    (receiver : Option ObjectId) (before chain : List String) :
    ∃ front, r.overrideOrder name receiver (before ++ chain) =
      front ++ r.overrideOrder name receiver chain := by
  induction before with
  | nil => exact ⟨[], rfl⟩
  | cons q rest ih =>
    obtain ⟨front, hfront⟩ := ih
    refine ⟨(r.fromTop (r.key (some q) name)).map (⟨·, rest ++ chain, receiver⟩) ++ front, ?_⟩
    rw [List.cons_append, overrideOrder, hfront, List.append_assoc]

/-- What comes after a definition: the rest of its stack, then the namespaces after its own. -/
theorem overrideOrder_split {r : Functions Callable} {name : String}
    {receiver : Option ObjectId} {chain : List String} {before after : List Dispatch} {d : Dispatch}
    (h : r.overrideOrder name receiver chain = before ++ d :: after) :
    d.receiver = receiver ∧ d.definition.slot.key.name = r.fold name ∧
    ∃ above below, r.fromTop d.definition.slot.key = above ++ d.definition :: below ∧
      after = below.map (⟨·, d.fallback, receiver⟩) ++
        r.overrideOrder name receiver d.fallback := by
  induction chain generalizing before with
  | nil => simp [overrideOrder] at h
  | cons q rest ih =>
    rw [overrideOrder] at h
    rcases List.append_eq_append_iff.mp h with ⟨front, -, hrest⟩ | ⟨back, hstack, hrest⟩
    · exact ih hrest
    cases back with
    | nil =>
      have hrest' : r.overrideOrder name receiver rest = [] ++ d :: after := hrest.symm
      exact ih hrest'
    | cons first back =>
      obtain ⟨rfl, rfl⟩ := List.cons.inj hrest
      obtain ⟨above, tail, htop, -, htail⟩ := List.map_eq_append_iff.mp hstack
      obtain ⟨c, below, rfl, rfl, rfl⟩ := List.map_eq_cons_iff.mp htail
      have hkey : c.slot.key = r.key (some q) name := by
        apply key_of_mem_fromTop (r := r)
        rw [htop]
        simp
      exact ⟨rfl, by rw [hkey]; rfl, above, below, by rw [hkey, htop], rfl⟩

theorem length_fallback_lt {r : Functions Callable} {name : String}
    {receiver : Option ObjectId} {chain : List String} {d : Dispatch}
    (h : d ∈ r.overrideOrder name receiver chain) : d.fallback.length < chain.length := by
  induction chain with
  | nil => cases h
  | cons q rest ih =>
    rw [overrideOrder, List.mem_append, List.mem_map] at h
    rcases h with ⟨c, -, rfl⟩ | h
    · simp
    · have hlt := ih h
      simp only [List.length_cons]
      omega

/-- Each place is passed once: no two definitions of the order lie in one slot and have the same
namespaces after them. -/
theorem WellFormed.nodup_overrideOrder {r : Functions Callable} (h : r.WellFormed)
    (name : String) (receiver : Option ObjectId) (chain : List String) :
    ((r.overrideOrder name receiver chain).map fun d => (d.definition.slot, d.fallback)).Nodup := by
  induction chain with
  | nil => exact List.nodup_nil
  | cons q rest ih =>
    rw [overrideOrder, List.map_append, List.nodup_append]
    refine ⟨?_, ih, ?_⟩
    · have hinj : Function.Injective fun slot : Slot => (slot, rest) :=
        fun _ _ heq => (Prod.mk.inj heq).1
      have hslots := List.Nodup.map hinj (h.nodup_fromTop (r.key (some q) name))
      rw [List.map_map] at hslots ⊢
      exact hslots
    · intro a ha b hb heq
      obtain ⟨d, hd, rfl⟩ := List.mem_map.mp hb
      obtain ⟨c, hc, rfl⟩ := List.mem_map.mp ha
      obtain ⟨top, _, rfl⟩ := List.mem_map.mp hc
      have hlt := length_fallback_lt hd
      have hsame : rest = d.fallback := (Prod.mk.inj heq).2
      rw [← hsame] at hlt
      omega

end Functions

namespace Interpreter

/-- The innermost call of the interpreter is one of `d`, whatever its local variables. -/
def Runs (i : Interpreter) (d : Dispatch) : Prop :=
  ∃ f rest, i.frames = f :: rest ∧ f.slot = d.definition.slot ∧ f.fallback = d.fallback ∧
    f.receiver = d.receiver

/-- What a parent call finds in the definitions after the caller's, which lies under `k`. -/
def parentAmong (k : FunctionKey) : List Dispatch → Except Fault Dispatch
  | next :: _ => .ok next
  | [] => .error (.noParent k.toText)

/-- The functions have come about by their operations, and names fold as the settings say. -/
structure HasHistory (i : Interpreter) (caseSensitive : Bool) : Prop where
  settings : i.settings.caseSensitive = caseSensitive
  functions : ∃ ops, i.functions = (Functions.empty caseSensitive).run ops

end Interpreter

/-- A dispatch along the chain, or by a parent call from such a one. The functions may be others
each time. -/
inductive Reached (caseSensitive : Bool) (chain : List String) (name : String)
    (receiver : Option ObjectId) : Dispatch → Prop
  | called {i : Interpreter} {d : Dispatch} : i.HasHistory caseSensitive →
      i.dispatchAlong chain name receiver = some d → Reached caseSensitive chain name receiver d
  | parent {i : Interpreter} {d next : Dispatch} {name' : String} :
      Reached caseSensitive chain name receiver d → i.HasHistory caseSensitive → i.Runs d →
      foldName caseSensitive name' = foldName caseSensitive name →
      i.dispatchParent name' = .ok next → Reached caseSensitive chain name receiver next

namespace Interpreter

variable {i : Interpreter} {caseSensitive : Bool}

theorem HasHistory.wellFormed (h : i.HasHistory caseSensitive) : i.functions.WellFormed := by
  obtain ⟨ops, hops⟩ := h.functions
  rw [hops]
  exact (Functions.wellFormed_empty caseSensitive).run ops

theorem HasHistory.key_eq (h : i.HasHistory caseSensitive) (qualifier : Option String)
    (name : String) : i.functions.key qualifier name =
      ⟨qualifier.map (foldName caseSensitive), foldName caseSensitive name⟩ := by
  obtain ⟨ops, hops⟩ := h.functions
  have hcase : i.functions.caseSensitive = caseSensitive := by
    rw [hops, Functions.caseSensitive_run]
    rfl
  rw [← hcase]
  rfl

theorem HasHistory.fold_eq (h : i.HasHistory caseSensitive) (name : String) :
    i.fold name = foldName caseSensitive name := by
  rw [← h.settings]
  rfl

theorem dispatchAlong_eq_head? (i : Interpreter) (name : String) (receiver : Option ObjectId)
    (chain : List String) :
    i.dispatchAlong chain name receiver =
      (i.functions.overrideOrder name receiver chain).head? := by
  induction chain with
  | nil => rfl
  | cons q rest ih =>
    rw [Functions.overrideOrder, List.head?_append, List.head?_map,
      ← Functions.resolve_eq_head?, ← ih]
    rw [dispatchAlong, Functions.resolveAlong]
    cases i.functions.resolve (i.functions.key (some q) name) <;> rfl

theorem HasHistory.overrideOrder_congr (h : i.HasHistory caseSensitive) {name name' : String}
    (hname : foldName caseSensitive name' = foldName caseSensitive name)
    (receiver : Option ObjectId) (chain : List String) :
    i.functions.overrideOrder name' receiver chain =
      i.functions.overrideOrder name receiver chain := by
  induction chain with
  | nil => rfl
  | cons q rest ih =>
    simp only [Functions.overrideOrder, ih, h.key_eq, hname]

/-- A parent call from a definition goes down its stack and then along the namespaces after it. -/
theorem HasHistory.dispatchParent_eq (h : i.HasHistory caseSensitive) {d : Dispatch}
    (hruns : i.Runs d) {name name' : String}
    (hname : foldName caseSensitive name' = foldName caseSensitive name)
    (hkey : d.definition.slot.key.name = foldName caseSensitive name)
    {above below : List (Definition Callable)} {c : Definition Callable}
    (hsplit : i.functions.fromTop d.definition.slot.key = above ++ c :: below)
    (hc : c.slot = d.definition.slot) :
    i.dispatchParent name' = parentAmong d.definition.slot.key
      (below.map (⟨·, d.fallback, d.receiver⟩) ++
        i.functions.overrideOrder name d.receiver d.fallback) := by
  obtain ⟨⟨vars, _, _, _⟩, rest, hframes, rfl, rfl, rfl⟩ := hruns
  have hparent := h.wellFormed.resolveParent_eq hsplit
  rw [hc] at hparent
  have hsame : (⟨d.definition.slot.key.qualifier, i.fold name'⟩ : FunctionKey) =
      d.definition.slot.key := by
    rw [h.fold_eq, hname, ← hkey]
  rw [dispatchParent, hframes]
  simp only [hsame, hparent]
  cases below with
  | cons next rest => rfl
  | nil =>
    rw [dispatchAlong_eq_head?, h.overrideOrder_congr hname]
    cases i.functions.overrideOrder name d.receiver d.fallback <;> rfl

end Interpreter

namespace Reached

variable {caseSensitive : Bool} {chain : List String} {name : String}
  {receiver : Option ObjectId} {d : Dispatch}

theorem of_dispatchAlong {i : Interpreter} (h : i.HasHistory caseSensitive) {name' : String}
    (hname : foldName caseSensitive name' = foldName caseSensitive name)
    (hd : i.dispatchAlong chain name' receiver = some d) :
    d.receiver = receiver ∧ ∃ before q, chain = before ++ q :: d.fallback ∧
      d.definition.slot.key = ⟨some (foldName caseSensitive q), foldName caseSensitive name⟩ := by
  induction chain with
  | nil => cases hd
  | cons q rest ih =>
    rw [Interpreter.dispatchAlong, Functions.resolveAlong] at hd
    cases hq : i.functions.resolve (i.functions.key (some q) name') with
    | some found =>
      rw [hq] at hd
      cases hd
      refine ⟨rfl, [], q, rfl, ?_⟩
      rw [Functions.resolve_eq_head?] at hq
      have hkey := Functions.key_of_mem_fromTop (List.mem_of_mem_head? hq)
      rw [hkey, h.key_eq, hname]
      rfl
    | none =>
      rw [hq] at hd
      obtain ⟨hreceiver, before, q', hrest, hkey⟩ := ih hd
      exact ⟨hreceiver, q :: before, q', by rw [hrest]; rfl, hkey⟩

/-- A dispatch that is reached along a chain stands somewhere in it. -/
theorem exists_namespace (h : Reached caseSensitive chain name receiver d) :
    d.receiver = receiver ∧ ∃ before q, chain = before ++ q :: d.fallback ∧
      d.definition.slot.key = ⟨some (foldName caseSensitive q), foldName caseSensitive name⟩ := by
  induction h with
  | called hi hd => exact of_dispatchAlong hi rfl hd
  | @parent i d next name' _ hi hruns hname hnext ih =>
    obtain ⟨hreceiver, before, q, hchain, hkey⟩ := ih
    obtain ⟨f, rest, hframes, hslot, hfallback, hframe⟩ := hruns
    rw [Interpreter.dispatchParent, hframes] at hnext
    dsimp only at hnext
    split at hnext
    · -- further down the same stack
      rename_i found hfound
      cases hnext
      obtain ⟨e, -, rfl⟩ := Option.map_eq_some_iff.mp hfound
      refine ⟨hframe.trans hreceiver, before, q, hfallback ▸ hchain, ?_⟩
      rw [← hkey, ← hslot]
      simp only [hi.fold_eq, hname]
      rw [hslot, hkey]
    · -- along the rest of the chain
      split at hnext
      · rename_i found hfound
        cases hnext
        obtain ⟨hr, before', q', hchain', hkey'⟩ := of_dispatchAlong hi hname hfound
        refine ⟨hr.trans (hframe.trans hreceiver), before ++ q :: before', q', ?_, hkey'⟩
        rw [hchain, ← hfallback, hchain']
        simp
      · cases hnext

/-- As long as its definition is there, a dispatch that was reached has its place in the order. -/
theorem exists_place {r : Functions Callable} (h : Reached caseSensitive chain name receiver d)
    (hkey : ∀ q,
      r.key (some q) name = ⟨some (foldName caseSensitive q), foldName caseSensitive name⟩)
    (hholds : r.Holds d.definition.slot) :
    ∃ before caller after, r.overrideOrder name receiver chain = before ++ caller :: after ∧
      caller.definition.slot = d.definition.slot ∧ caller.fallback = d.fallback := by
  obtain ⟨-, before, q, rfl, hslot⟩ := h.exists_namespace
  obtain ⟨front, hfront⟩ := r.overrideOrder_append name receiver before (q :: d.fallback)
  obtain ⟨e, he, hpackage⟩ := hholds
  have hmem : (⟨⟨e.body, d.definition.slot⟩, d.fallback, receiver⟩ : Dispatch) ∈
      r.overrideOrder name receiver (before ++ q :: d.fallback) := by
    rw [hfront, Functions.overrideOrder, hkey, ← hslot]
    apply List.mem_append_right
    apply List.mem_append_left
    refine List.mem_map.mpr ⟨⟨e.body, d.definition.slot⟩, ?_, rfl⟩
    exact List.mem_map.mpr ⟨e, List.mem_reverse.mpr he, by rw [hpackage]⟩
  obtain ⟨front', after, hsplit⟩ := List.append_of_mem hmem
  exact ⟨front', _, after, hsplit, rfl, rfl⟩

end Reached

namespace Interpreter

variable {i : Interpreter} {caseSensitive : Bool}

theorem HasHistory.fold_functions (h : i.HasHistory caseSensitive) (name : String) :
    i.functions.fold name = foldName caseSensitive name :=
  congrArg FunctionKey.name (h.key_eq none name)

theorem HasHistory.pushFrame (h : i.HasHistory caseSensitive) (f : Frame) :
    (i.pushFrame f).HasHistory caseSensitive :=
  ⟨h.settings, h.functions⟩

/-- A parent call goes on with the definition after the caller's. -/
theorem HasHistory.dispatchParent_next (h : i.HasHistory caseSensitive) {d caller : Dispatch}
    (hruns : i.Runs d) {name name' : String} {receiver : Option ObjectId} {chain : List String}
    {before after : List Dispatch}
    (hname : foldName caseSensitive name' = foldName caseSensitive name)
    (hsplit : i.functions.overrideOrder name receiver chain = before ++ caller :: after)
    (hslot : caller.definition.slot = d.definition.slot)
    (hfallback : caller.fallback = d.fallback) (hreceiver : d.receiver = receiver) :
    i.dispatchParent name' = parentAmong d.definition.slot.key after := by
  obtain ⟨-, hkey, above, below, htop, rfl⟩ := Functions.overrideOrder_split hsplit
  rw [hslot] at htop hkey
  rw [h.fold_functions] at hkey
  rw [hfallback, ← hreceiver]
  exact h.dispatchParent_eq hruns hname hkey htop hslot

/-- What a call along a chain runs, and after it one parent call after the other, while the
functions stay as they are. -/
def delegated (i : Interpreter) (name : String) (receiver : Option ObjectId)
    (chain : List String) : Nat → Option Dispatch
  | 0 => i.dispatchAlong chain name receiver
  | k + 1 => (i.delegated name receiver chain k).bind fun d =>
    ((i.pushFrame ⟨∅, d.definition.slot, d.fallback, d.receiver⟩).dispatchParent name).toOption

theorem HasHistory.delegated_eq_getElem? (h : i.HasHistory caseSensitive) (name : String)
    (receiver : Option ObjectId) (chain : List String) (k : Nat) :
    i.delegated name receiver chain k = (i.functions.overrideOrder name receiver chain)[k]? := by
  induction k with
  | zero => rw [delegated, dispatchAlong_eq_head?, List.head?_eq_getElem?]
  | succ k ih =>
    rw [delegated, ih]
    cases hk : (i.functions.overrideOrder name receiver chain)[k]? with
    | none =>
      have hlength := List.getElem?_eq_none_iff.mp hk
      rw [List.getElem?_eq_none (by omega)]
      rfl
    | some d =>
      obtain ⟨hlt, hget⟩ := List.getElem?_eq_some_iff.mp hk
      have hsplit := (List.take_append_drop k (i.functions.overrideOrder name receiver chain)).symm
      rw [List.drop_eq_getElem_cons hlt, hget] at hsplit
      have hpushed := h.pushFrame ⟨∅, d.definition.slot, d.fallback, d.receiver⟩
      have hparent := hpushed.dispatchParent_next (d := d) ⟨_, i.frames, rfl, rfl, rfl, rfl⟩
        (Eq.refl (foldName caseSensitive name)) hsplit rfl rfl
        (Functions.overrideOrder_split hsplit).1
      rw [Option.bind_some, hparent, ← List.head?_drop]
      cases (i.functions.overrideOrder name receiver chain).drop (k + 1) <;> rfl

theorem runs_enter {d : Dispatch} {f : FunctionDecl} {args : Arguments} {frame : Frame}
    (h : i.enter d f args = .ok frame) : (i.pushFrame frame).Runs d := by
  rw [enter] at h
  split at h
  · cases h
  · cases h
    exact ⟨_, i.frames, rfl, rfl, rfl, rfl⟩

/-- What a running function evaluates does not end its call. -/
theorem Runs.of_local {α : Type} {act : Effect α} (hact : act.Local) {d : Dispatch}
    (h : i.Runs d) {r : Except Fault α} {i' : Interpreter} (hrun : act i = some (r, i')) :
    i'.Runs d := by
  obtain ⟨f, rest, hframes, hcall⟩ := h
  obtain ⟨outcome, houtcome⟩ := hact i f rest.length
  have hi := houtcome rest i.topLocals rfl
  rw [← hframes, withCalls_self, hrun] at hi
  cases outcome with
  | none => cases hi
  | some o =>
    cases hi
    exact ⟨_, rest, rfl, hcall⟩

end Interpreter

/-- Parent calls walk the order of overrides. A call along a chain runs the first definition of
the order, or finds nothing if there is none; while the functions stay as they are, the parent
calls after it run the others one by one, each place once. A function that runs stays the
innermost call through all that it evaluates. And when one that was reached along the chain
makes a parent call, as long as its own definition is still there, the call goes to the next
one of the order as it is at that time, with the same receiver, or fails if there is no next one. -/
theorem parent_walks_overrides (caseSensitive : Bool) (chain : List String) (name : String)
    (receiver : Option ObjectId) :
    (∀ i : Interpreter, i.HasHistory caseSensitive →
      let order := i.functions.overrideOrder name receiver chain
      i.dispatchAlong chain name receiver = order.head? ∧
      (∀ k, i.delegated name receiver chain k = order[k]?) ∧
      (order.map fun d => (d.definition.slot, d.fallback)).Nodup) ∧
    (∀ (d : Dispatch) (i : Interpreter),
      (∀ f args frame, i.enter d f args = .ok frame → (i.pushFrame frame).Runs d) ∧
      (i.Runs d → ∀ n r i',
        (∀ e, Eval.expr n e i = some (r, i') → i'.Runs d) ∧
        ∀ flow s, Eval.statement n s i = some (flow, i') → i'.Runs d)) ∧
    (∀ (d : Dispatch) (i i' : Interpreter) (n : Nat) (word name' : String) (args : List Expr)
      (vs : List Value),
      Reached caseSensitive chain name receiver d → i.Runs d →
      Interpreter.isParentQualifier word = true →
      foldName caseSensitive name' = foldName caseSensitive name →
      Eval.exprs n args i = some (.ok vs, i') → i'.HasHistory caseSensitive →
      i'.functions.Holds d.definition.slot →
      ∃ before caller after,
        i'.functions.overrideOrder name receiver chain = before ++ caller :: after ∧
        caller.definition.slot = d.definition.slot ∧ caller.fallback = d.fallback ∧
        Eval.expr (n + 1) (.call (some word) name' args) i =
          match after with
          | next :: _ => Eval.invoke n next vs i'
          | [] => some (.error (.noParent d.definition.slot.key.toText), i')) := by
  refine ⟨fun i hi => ?_, fun d i => ?_, ?_⟩
  · exact ⟨i.dispatchAlong_eq_head? name receiver chain,
      hi.delegated_eq_getElem? name receiver chain,
      hi.wellFormed.nodup_overrideOrder name receiver chain⟩
  · refine ⟨fun f args frame => Interpreter.runs_enter, fun hruns n r i' => ⟨fun e => ?_, ?_⟩⟩
    · exact hruns.of_local ((Effect.closed_local.all n).expr e)
    · exact fun flow s => hruns.of_local ((Effect.closed_local.all n).statement s)
  · intro d i i' n word name' args vs hreached hruns hword hname hargs hi' hholds
    have hruns' : i'.Runs d := hruns.of_local ((Effect.closed_local.all n).exprs args) hargs
    obtain ⟨before, caller, after, hsplit, hslot, hfallback⟩ :=
      hreached.exists_place (fun q => hi'.key_eq (some q) name) hholds
    refine ⟨before, caller, after, hsplit, hslot, hfallback, ?_⟩
    have hparent := hi'.dispatchParent_next hruns' hname hsplit hslot hfallback
      hreached.exists_namespace.1
    have hcall : i'.dispatchCall (some word) name' vs =
        Interpreter.parentAmong d.definition.slot.key after := by
      rw [Interpreter.dispatchCall, if_pos (by simpa using hword), hparent]
    rw [Eval.expr, Effect.bind_apply, hargs]
    simp only [Effect.bind_apply, Effect.ofExcept, hcall]
    cases after <;> rfl

/-- The package `mod` overrides a method of `Child`. Its override has made a parent call to the
method itself; since then the package was deactivated and the method of `Base` defined anew. -/
theorem parent_walks_overrides_base :
    let body (name : String) : Callable := .script ⟨none, name, [], []⟩
    let child : FunctionKey := ⟨some "child", "act"⟩
    let base : FunctionKey := ⟨some "base", "act"⟩
    let before : List (Functions.Operation Callable) :=
      [.define child (body "one"), .define base (body "two"),
        .declare "mod" [(child, body "three")], .activate "mod"]
    let state (ops : List (Functions.Operation Callable)) (frames : List Frame) : Interpreter :=
      { settings := { caseSensitive := true }
        frames := frames
        functions := (Functions.empty true).run ops
        objects := .new false }
    let caller : Dispatch := ⟨⟨body "one", ⟨child, none⟩⟩, ["base"], some 7⟩
    let after : List (Functions.Operation Callable) :=
      before ++ [.deactivate "mod", .define base (body "four")]
    let now := state after [⟨∅, ⟨child, none⟩, ["base"], some 7⟩]
    Reached true ["child", "base"] "act" (some 7) caller ∧
    now.functions.Holds ⟨child, none⟩ ∧
    ∃ front c rest,
      now.functions.overrideOrder "act" (some 7) ["child", "base"] = front ++ c :: rest ∧
      c.definition.slot = ⟨child, none⟩ ∧ c.fallback = ["base"] ∧
      Eval.expr 2 (.call (some "Parent") "act" []) now =
        match rest with
        | next :: _ => Eval.invoke 1 next [] now
        | [] => some (.error (.noParent child.toText), now) := by
  intro body child base before state caller after now
  have hreached : Reached true ["child", "base"] "act" (some 7) caller := by
    have hfirst : Reached true ["child", "base"] "act" (some 7)
        ⟨⟨body "three", ⟨child, some "mod"⟩⟩, ["base"], some 7⟩ :=
      .called (i := state before []) ⟨rfl, before, rfl⟩ rfl
    exact .parent (i := state before [⟨∅, ⟨child, some "mod"⟩, ["base"], some 7⟩]) hfirst
      ⟨rfl, before, rfl⟩ ⟨_, [], rfl, rfl, rfl, rfl⟩ (Eq.refl (foldName true "act")) rfl
  have hholds : now.functions.Holds ⟨child, none⟩ := by
    have hbase : none ∈ (now.functions.stack child).map Entry.package := by decide +kernel
    exact List.mem_map.mp hbase
  exact ⟨hreached, hholds, (parent_walks_overrides true ["child", "base"] "act" (some 7)).2.2
    caller now now 1 "Parent" "act" [] [] hreached ⟨_, [], rfl, rfl, rfl, rfl⟩ (by decide) rfl rfl
    ⟨rfl, after, rfl⟩ hholds⟩

end TorqueScript
