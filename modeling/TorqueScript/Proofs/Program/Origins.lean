import TorqueScript.Proofs.Program.Following
import TorqueScript.Proofs.Program.Grammar
import TorqueScript.Proofs.Program.Leaves

/-!
Where the leaves of a parsed program come from. Each one is a token of the source,
so whatever holds of all tokens holds of all leaves. A recipe is asked to build its
leaves from the tokens that it sees and from the pieces that it reads; each one does,
and so does every run.
-/

namespace TorqueScript

open Parse

/-- All tokens have the property. -/
def Stream.Forall (P : Token → Prop) : Stream → Prop
  | .finish _ => True
  | .failure _ => True
  | .cons t rest => P t.token ∧ rest.Forall P

/-- The leaf is spelled by a token with the property. -/
def Leaf.From (P : Token → Prop) : Leaf → Prop
  | .number x =>
    (∃ text, P (.numeral text) ∧ Number.ofLiteral? text.toList = some x) ∨ x = 1.0 ∨ x = 0.0
  | .text s => P (.text s)
  | .name s => P (.name s)
  | .variable scope path => P (scope.token path)
  | .switch => True

namespace Parse

variable {P : Token → Prop}

/-- Every leaf comes from a token with the property. -/
def Traced (P : Token → Prop) (ls : List Leaf) : Prop :=
  ∀ l ∈ ls, l.From P

@[simp]
theorem traced_nil : Traced P [] :=
  nofun

@[simp]
theorem traced_cons {l : Leaf} {ls : List Leaf} : Traced P (l :: ls) ↔ l.From P ∧ Traced P ls :=
  List.forall_mem_cons

@[simp]
theorem traced_append {ls ls' : List Leaf} :
    Traced P (ls ++ ls') ↔ Traced P ls ∧ Traced P ls' :=
  List.forall_mem_append

/-- The leaves of the statements that a switch falls back to. -/
def leavesOfDefault (default : Option (List Statement)) : List Leaf :=
  (default.map leavesOfBody).getD []

/-- The leaves of what is read as the piece. -/
@[simp]
def Piece.leaves : {α : Type} → Piece α → α → List Leaf
  | _, .semicolons, _ => []
  | _, .expression _, e => e.leaves
  | _, .climb _ _, e => e.leaves
  | _, .operand, e => e.leaves
  | _, .sequence, es => leavesOfList es
  | _, .sequenceUntil _, es => leavesOfList es
  | _, .arguments, es => leavesOfList es
  | _, .subscripts, es => leavesOfList es
  | _, .creation, d => d.leaves
  | _, .classRef, c => c.leaves
  | _, .optional _, e => leavesOfOption e
  | _, .objectBlock, content => leavesOfFields content.1 ++ leavesOfChildren content.2
  | _, .objectItems, content => leavesOfFields content.1 ++ leavesOfChildren content.2
  | _, .condition, e => e.leaves
  | _, .labels, es => leavesOfList es
  | _, .parameters, names => names.map (.variable .local)
  | _, .qualifiedName, name => name.1.toList.map .name ++ [.name name.2]
  | _, .parentName, parent => parent.toList.map .name
  | _, .datablock, st => st.leaves
  | _, .statement, st => st.leaves
  | _, .function, f => f.leaves
  | _, .functionsUntilBrace, fs => leavesOfFunctions fs
  | _, .block, b => leavesOfBody b
  | _, .statementsUntilBrace, b => leavesOfBody b
  | _, .body, b => leavesOfBody b
  | _, .switch _, st => st.leaves
  | _, .switchItems _, content => leavesOfCases content.1 ++ leavesOfDefault content.2
  | _, .caseBody, b => leavesOfBody b

/-- The leaves that were read before and go into the piece. -/
@[simp]
def Piece.given {α : Type} : Piece α → List Leaf
  | .climb _ left => left.leaves
  | .switchItems default => leavesOfDefault default
  | _ => []

namespace Recipe

variable {α : Type} {Q : α → Prop}

/-- From tokens with the property `P` the recipe reads something with the property `Q`, if all
leaves of the pieces that it reads come from such tokens. -/
@[simp]
def Ensures (P : Token → Prop) (Q : α → Prop) : Recipe α → Prop
  | done a => Q a
  | look next => (next none).Ensures P Q ∧ ∀ t, P t → (next (some t)).Ensures P Q
  | ifElse yes no => yes.Ensures P Q ∧ no.Ensures P Q
  | pass next | enter next => next.Ensures P Q
  | read piece next =>
    Traced P piece.given ∧ ∀ b, Traced P (piece.leaves b) → (next b).Ensures P Q
  | readFields next => ∀ fields, Traced P (leavesOfFields fields) → (next fields).Ensures P Q
  | mistake _ | unclosed | emptyLabel | badNumeral => True

@[simp]
theorem ensures_ifNext {t : Token} {yes no : Recipe α} :
    (ifNext t yes no).Ensures P Q ↔ no.Ensures P Q ∧ (P t → yes.Ensures P Q) := by
  constructor
  · rintro ⟨hno, h⟩
    exact ⟨by simpa using hno, fun ht => by simpa using h t ht⟩
  · rintro ⟨hno, hyes⟩
    refine ⟨by simpa using hno, fun u hu => ?_⟩
    dsimp only
    split
    · rename_i heq
      cases heq
      exact hyes hu
    · exact hno

@[simp]
theorem ensures_symbol {x : Symbol} {next : Recipe α} :
    (symbol x next).Ensures P Q ↔ (P (.symbol x) → next.Ensures P Q) := by
  simp [symbol]

@[simp]
theorem ensures_keyword {k : Keyword} {next : Recipe α} :
    (keyword k next).Ensures P Q ↔ (P (.keyword k) → next.Ensures P Q) := by
  simp [keyword]

@[simp]
theorem ensures_brace {next : Recipe α} :
    (brace next).Ensures P Q ↔ (P (.symbol .openBrace) → next.Ensures P Q) := by
  simp [brace]

@[simp]
theorem ensures_name {next : String → Recipe α} :
    (name next).Ensures P Q ↔ ∀ text, P (.name text) → (next text).Ensures P Q := by
  constructor
  · rintro ⟨-, h⟩ text ht
    exact h (.name text) ht
  · refine fun h => ⟨trivial, fun t ht => ?_⟩
    cases t with
    | name text => exact h text ht
    | _ => trivial

end Recipe

/-- What a literal token stands for comes from it. -/
theorem from_of_literal {t : Token} {e : Expr} (ho : Opening.ofToken? t = some (.literal (.ok e)))
    (ht : P t) : Traced P e.leaves := by
  unfold Opening.ofToken? at ho
  split at ho
  · split at ho
    · rename_i text _ x hx
      cases ho
      simpa [Expr.leaves, Leaf.From] using .inl ⟨text, ht, hx⟩
    · cases ho
  all_goals cases ho
  · simpa [Expr.leaves, Leaf.From] using ht
  · simp [Expr.leaves, Leaf.From]
  · simp [Expr.leaves, Leaf.From]

theorem from_of_variable {t : Token} {scope : Scope} {name : String}
    (ho : Opening.ofToken? t = some (.variable scope name)) (ht : P t) :
    (Leaf.variable scope name).From P := by
  unfold Opening.ofToken? at ho
  split at ho
  · split at ho <;> cases ho
  all_goals cases ho
  all_goals exact ht

theorem from_of_name {t : Token} {text : String}
    (ho : Opening.ofToken? t = some (.name text)) (ht : P t) : P (.name text) := by
  unfold Opening.ofToken? at ho
  split at ho
  · split at ho <;> cases ho
  all_goals cases ho
  exact ht

theorem ensures_continuation {level : Level} {left : Expr} (hleft : Traced P left.leaves)
    (c : Continuation) :
    (Recipe.continuation level left c).Ensures P fun e => Traced P e.leaves := by
  cases c with
  | assign op =>
    unfold Recipe.continuation
    cases left <;> simp_all [Expr.place?, Expr.leaves]
  | step op =>
    unfold Recipe.continuation
    cases left <;> simp_all [Expr.place?, Expr.leaves]
  | conditional | binary | dot =>
    simp +contextual [Recipe.continuation, Expr.leaves, Place.leaves, Leaf.From, hleft]

theorem ensures_opening {t : Token} {o : Opening} (ho : Opening.ofToken? t = some o) (ht : P t) :
    (Recipe.opening o).Ensures P fun e => Traced P e.leaves := by
  cases o with
  | literal r =>
    cases r with
    | ok e => exact from_of_literal ho ht
    | error defect => trivial
  | «variable» scope name =>
    have hleaf := from_of_variable ho ht
    simp +contextual [Recipe.opening, Expr.leaves, Place.leaves, hleaf]
  | name text =>
    have hname := from_of_name ho ht
    simp +contextual [Recipe.opening, Expr.leaves, hname, Leaf.From]
  | unary op | parenthesis | creation =>
    simp +contextual [Recipe.opening, Expr.leaves]

theorem leaves_switch {kind : SwitchKind} {subject : Expr} {cases : List SwitchCase}
    {default : Option (List Statement)} :
    (Statement.switch kind subject cases default).leaves =
      .switch :: subject.leaves ++ (leavesOfCases cases ++ leavesOfDefault default) := by
  cases default <;> simp [Statement.leaves, leavesOfDefault]

theorem ensures_statement (k : Option Keyword) :
    (Recipe.statement k).Ensures P fun st => Traced P st.leaves := by
  unfold Recipe.statement
  split <;> simp +contextual [Statement.leaves, Leaf.From]

/-- The leaves of each piece come from the tokens that its recipe sees and from the pieces that it
reads. -/
theorem Piece.ensures_recipe {α : Type} (piece : Piece α) (hgiven : Traced P piece.given) :
    piece.recipe.Ensures P fun b => Traced P (piece.leaves b) := by
  cases piece with
  | climb level left =>
    refine ⟨hgiven, fun t ht => ?_⟩
    dsimp only [Option.bind_some]
    split
    · exact hgiven
    · split
      · exact hgiven
      · exact ensures_continuation hgiven _
  | operand =>
    refine ⟨trivial, fun t ht => ?_⟩
    dsimp only [Option.bind_some]
    split
    · trivial
    · rename_i ho
      exact ensures_opening ho ht
  | objectItems =>
    refine ⟨traced_nil, fun _ _ => ⟨trivial, fun t ht => ?_⟩⟩
    unfold Recipe.objectItem
    split <;> simp_all [leavesOfFields, leavesOfChildren, Leaf.From]
  | labels =>
    refine ⟨trivial, fun t _ => ?_⟩
    dsimp only
    split
    · trivial
    · simp +contextual [leavesOfList]
  | parameters =>
    refine Recipe.ensures_ifNext.2 ⟨⟨trivial, fun t ht => ?_⟩, fun _ => traced_nil⟩
    unfold Recipe.parameter
    split <;> simp_all [Leaf.From, Scope.token]
  | statement => exact ⟨ensures_statement none, fun t _ => ensures_statement _⟩
  | functionsUntilBrace =>
    refine ⟨traced_nil, fun _ _ => ⟨trivial, fun t ht => ?_⟩⟩
    unfold Recipe.packageItem
    split <;> simp_all [leavesOfFunctions]
  | statementsUntilBrace | caseBody =>
    refine ⟨traced_nil, fun _ _ => ⟨trivial, fun t ht => ?_⟩⟩
    unfold Recipe.statementsUpTo
    dsimp only
    split <;> simp_all [leavesOfBody]
  | switchItems default =>
    refine ⟨traced_nil, fun _ _ => ⟨trivial, fun t ht => ?_⟩⟩
    unfold Recipe.switchItem
    split <;> simp_all [leavesOfCases, leavesOfDefault]
  | switch =>
    simp +contextual [recipe, leaves_switch, leavesOfDefault, Leaf.From]
  | semicolons | expression | arguments | condition | objectBlock | block =>
    simp +contextual [recipe]
  | sequence | sequenceUntil | subscripts => simp +contextual [recipe, leavesOfList]
  | creation =>
    simp +contextual [recipe, ObjectDecl.leaves, leavesOfFields, leavesOfChildren]
  | classRef | optional =>
    simp +contextual [recipe, ClassRef.leaves, leavesOfOption, Leaf.From]
  | qualifiedName | parentName | function =>
    simp +contextual [recipe, FunctionDecl.leaves, Leaf.From]
  | datablock => simp +contextual [recipe, Statement.leaves, DatablockDecl.leaves, Leaf.From]
  | body => simp +contextual [recipe, leavesOfBody]

/-- From tokens with the property a run reads what its recipe ensures, and leaves such tokens. -/
theorem Runs.traced {α : Type} {opened : Position} {recipe : Recipe α} {s : Stream}
    {r : Ending α} {Q : α → Prop} (h : Runs opened recipe s r) (hs : s.Forall P)
    (hrecipe : recipe.Ensures P Q) : ∀ a rest, r = .ok (a, rest) → Q a ∧ rest.Forall P := by
  induction h with
  | done =>
    rintro a rest ⟨⟩
    exact ⟨hrecipe, hs⟩
  | @look _ _ s _ _ _ ih =>
    refine ih hs ?_
    cases s with
    | cons t rest => exact hrecipe.2 t.token hs.1
    | finish p => exact hrecipe.1
    | failure e => exact hrecipe.1
  | ifElse _ ih =>
    refine ih hs ?_
    split
    · exact hrecipe.1
    · exact hrecipe.2
  | pass _ _ ih | enter _ _ ih => exact ih hs.2 hrecipe
  | @read _ _ _ _ _ piece b _ _ _ _ ihpiece ih =>
    obtain ⟨hb, hmid⟩ := ihpiece hs (piece.ensures_recipe hrecipe.1) _ _ rfl
    exact ih hmid (hrecipe.2 b hb)
  | readFields _ _ ihpiece ih =>
    obtain ⟨hfields, hmid⟩ := ihpiece hs (Piece.ensures_recipe .objectBlock traced_nil) _ _ rfl
    exact ih hmid (hrecipe _ (traced_append.1 hfields).1)
  | _ => exact nofun

theorem skipSemicolons_forall {s rest : Stream} (h : (skipSemicolons s).Reads () rest)
    (hset : Settled s) (hs : s.Forall P) : Settled rest ∧ rest.Forall P := by
  have hrun : Runs .start Piece.semicolons.recipe s (skipSemicolons s).ending :=
    semicolons_runs hset
  have hend := Result.reads_iff_ending.1 h
  obtain ⟨-, hrest⟩ := hrun.traced hs (Piece.ensures_recipe _ traced_nil) _ _ hend
  exact ⟨hrun.settled hset _ _ hend, hrest⟩

theorem statement_traced {s rest : Stream} {st : Statement} (h : (statement s).Reads st rest)
    (hset : Settled s) (hs : s.Forall P) :
    Traced P st.leaves ∧ Settled rest ∧ rest.Forall P := by
  have hrun : Runs .start Piece.statement.recipe s (statement s).ending := statement_runs hset
  have hend := Result.reads_iff_ending.1 h
  obtain ⟨hleaves, hrest⟩ := hrun.traced hs (Piece.ensures_recipe _ traced_nil) _ _ hend
  exact ⟨hleaves, hrun.settled hset _ _ hend, hrest⟩

theorem statements_traced {s : Stream} {b : List Statement} (h : statements s = .ok b)
    (hset : Settled s) (hs : s.Forall P) : Traced P (leavesOfBody b) := by
  obtain ⟨mid, hskip, ⟨p, rfl, rfl⟩ | ⟨t, s', rfl, first, after, hfirst, others, hothers, rfl⟩⟩ :=
    statements_eq_ok.1 h
  · simp [leavesOfBody]
  · have hlt := hskip.lt
    have hlt' := hfirst.lt
    obtain ⟨hset', hs'⟩ := skipSemicolons_forall hskip hset hs
    obtain ⟨hleaves, hset'', hs''⟩ := statement_traced hfirst hset' hs'
    exact traced_append.2 ⟨hleaves, statements_traced hothers hset'' hs''⟩
termination_by s.length
decreasing_by simp only [Stream.length] at *; omega

end Parse

/-- Every leaf of a program that was read comes from a token of its source. -/
theorem Program.from_of_ofStream {P : Token → Prop} {s : Stream} {p : Program}
    (h : Program.ofStream s = .ok p) (hs : s.Forall P) : ∀ l ∈ p.leaves, l.From P := by
  unfold Program.ofStream at h
  cases hs' : lookAhead s with
  | error e => simp [hs', bind, Except.bind] at h
  | ok u =>
    simp only [hs', bind, Except.bind] at h
    exact statements_traced h hs' hs

end TorqueScript
