import TorqueScript.Proofs.Program.Following
import TorqueScript.Proofs.Token.Joining

/-!
Reading from tokens that others follow. A reader looks at the next token only, so what
is read from some tokens is read from them too when others follow, as long as one of
the first ones is left over. A reader that ends with a token of its own needs nothing
to be left; which readers do is checked on their recipes.
-/

namespace TorqueScript

namespace Parse

/-- The tokens `s'` are `s` prolonged by `t`, and `s` does not begin with a mistake. -/
structure Joins (t s s' : Stream) : Prop where
  left : Settled s
  prolongs : Prolongs t s s'

/-- The reader reads `a` and leaves the tokens `rest` prolonged by `t`. -/
def Result.Follows {α : Type} {n : Nat} (t : Stream) (r : Result α n) (a : α) (rest : Stream) :
    Prop :=
  ∃ rest', r.Reads a rest' ∧ Joins t rest rest'

namespace Joins

variable {t s s' : Stream}

theorem of_cons {token : Token} {p : Position} (h : Joins t (.cons ⟨token, p⟩ s) s') :
    ∃ q after, s' = .cons ⟨token, q⟩ after ∧ Prolongs t s after := by
  obtain ⟨-, h⟩ := h
  cases h with
  | cons h => exact ⟨_, _, rfl, h⟩

theorem right (h : Joins t s s') : Settled s' := by
  obtain ⟨hleft, h⟩ := h
  cases h with
  | finish ht => exact ht.settled
  | failure => cases hleft
  | cons h =>
    -- The token after next counts too, and it may be the first one of `t`.
    cases h with
    | finish ht =>
      have hsettled := ht.settled
      cases t with
      | failure e => cases hsettled
      | finish p => rfl
      | cons u after => rfl
    | failure => cases hleft
    | cons h => rfl

/-- As long as a token is left, the next one is the same. -/
theorem nextToken_eq (h : Joins t s s') (hs : 0 < s.length) : nextToken s' = nextToken s := by
  obtain ⟨-, h⟩ := h
  cases h with
  | finish => cases hs
  | failure => cases hs
  | cons h => rfl

/-- An `else` is never the first token of what follows. -/
theorem isNext_else (h : Joins t s s') :
    isNext (.keyword .else) s' = isNext (.keyword .else) s := by
  obtain ⟨hleft, h⟩ := h
  cases h with
  | finish ht => exact ht.noElse
  | failure => cases hleft
  | cons h => rfl

end Joins

/-- The piece is not read where no token is left. -/
def Piece.needs {α : Type} : Piece α → Bool
  | .semicolons | .climb _ _ | .subscripts | .parentName => false
  | _ => true

namespace Recipe

variable {α : Type}

/-- The recipe does not end well where no token is left. -/
@[simp]
def Needs : Recipe α → Prop
  | done _ => False
  | look next => (next none).Needs
  | ifElse _ no => no.Needs
  | read piece next => piece.needs = true ∨ ∀ b, (next b).Needs
  | pass _ | enter _ | readFields _ | mistake _ | unclosed | emptyLabel | badNumeral => True

@[simp]
theorem needs_ifNext {t : Token} {yes no : Recipe α} : (ifNext t yes no).Needs ↔ no.Needs := by
  simp [ifNext]

@[simp]
theorem needs_symbol {x : Symbol} {next : Recipe α} : (symbol x next).Needs := by
  simp [symbol]

@[simp]
theorem needs_keyword {k : Keyword} {next : Recipe α} : (keyword k next).Needs := by
  simp [keyword]

@[simp]
theorem needs_brace {next : Recipe α} : (brace next).Needs := by
  simp [brace]

@[simp]
theorem needs_name {next : String → Recipe α} : (name next).Needs := by
  simp [name]

end Recipe

theorem Piece.needs_recipe {α : Type} {piece : Piece α} (h : piece.needs = true) :
    piece.recipe.Needs := by
  cases piece with
  | semicolons | climb | subscripts | parentName => cases h
  | _ =>
    simp [recipe, needs, Recipe.objectItem, Recipe.parameter, Recipe.statement,
      Recipe.packageItem, Recipe.statementsUpTo, Recipe.switchItem]

/-- What follows the piece has no part in how it is read. -/
def Piece.complete {α : Type} : Piece α → Bool
  | .arguments | .classRef | .objectBlock | .objectItems | .condition | .datablock | .statement
  | .function | .functionsUntilBrace | .block | .statementsUntilBrace | .body | .switch _
  | .switchItems _ | .caseBody => true
  | _ => false

namespace Recipe

variable {α : Type}

/-- The recipe looks at the next token only where it needs one. An `else` may be looked for where no
token is left. -/
@[simp]
def Complete : Recipe α → Prop
  | look next => (next none).Needs ∧ ∀ u, (next u).Complete
  | ifElse yes no => yes.Complete ∧ no.Complete
  | pass next | enter next => next.Complete
  | read piece next =>
    (piece.complete = true ∨ ∀ b, (next b).Needs) ∧ ∀ b, (next b).Complete
  | readFields next => ∀ fields, (next fields).Complete
  | done _ | mistake _ | unclosed | emptyLabel | badNumeral => True

@[simp]
theorem complete_ifNext {t : Token} {yes no : Recipe α} :
    (ifNext t yes no).Complete ↔ no.Needs ∧ yes.Complete ∧ no.Complete := by
  constructor
  · rintro ⟨hneeds, h⟩
    exact ⟨by simpa using hneeds, by simpa using h (some t), by simpa using h none⟩
  · rintro ⟨hneeds, hyes, hno⟩
    refine ⟨by simpa using hneeds, fun u => ?_⟩
    dsimp only
    split
    · exact hyes
    · exact hno

@[simp]
theorem complete_symbol {x : Symbol} {next : Recipe α} :
    (symbol x next).Complete ↔ next.Complete := by
  simp [symbol]

@[simp]
theorem complete_keyword {k : Keyword} {next : Recipe α} :
    (keyword k next).Complete ↔ next.Complete := by
  simp [keyword]

@[simp]
theorem complete_brace {next : Recipe α} : (brace next).Complete ↔ next.Complete := by
  simp [brace]

@[simp]
theorem complete_name {next : String → Recipe α} :
    (name next).Complete ↔ ∀ text, (next text).Complete := by
  constructor
  · rintro ⟨-, h⟩ text
    exact h (some (.name text))
  · refine fun h => ⟨trivial, fun u => ?_⟩
    dsimp only
    split
    · exact h _
    · trivial

end Recipe

theorem Piece.complete_recipe {α : Type} {piece : Piece α} (h : piece.complete = true) :
    piece.recipe.Complete := by
  cases piece with
  | arguments | classRef | objectBlock | condition | datablock | function | block | body | switch =>
    simp [recipe, complete, needs]
  | objectItems =>
    refine ⟨.inr fun _ => trivial, fun _ => ⟨trivial, fun u => ?_⟩⟩
    unfold Recipe.objectItem
    split <;> simp [complete]
  | statement =>
    refine ⟨?_, fun u => ?_⟩
    · simp [Recipe.statement]
    · dsimp only
      unfold Recipe.statement
      split <;> simp [complete]
  | functionsUntilBrace =>
    refine ⟨.inr fun _ => trivial, fun _ => ⟨trivial, fun u => ?_⟩⟩
    unfold Recipe.packageItem
    split <;> simp [complete]
  | statementsUntilBrace | caseBody =>
    refine ⟨.inr fun _ => trivial, fun _ => ⟨trivial, fun u => ?_⟩⟩
    unfold Recipe.statementsUpTo
    split
    · trivial
    · split <;> simp [complete]
  | switchItems default =>
    refine ⟨.inr fun _ => trivial, fun _ => ⟨trivial, fun u => ?_⟩⟩
    unfold Recipe.switchItem
    split <;> simp [complete]
  | _ => cases h

section

variable {α : Type} {opened : Position} {recipe : Recipe α} {s s' t : Stream} {r : Ending α}

/-- Where no token is left, a recipe leaves it at that, and one that needs a token does not end
well. -/
theorem Runs.finish {p : Position} (h : Runs opened recipe s r) (hs : s = .finish p) :
    ∀ a rest, r = .ok (a, rest) → rest = .finish p ∧ ¬ recipe.Needs := by
  induction h with
  | done =>
    rintro a rest ⟨⟩
    exact ⟨hs, id⟩
  | look _ ih =>
    subst hs
    exact ih rfl
  | ifElse _ ih =>
    subst hs
    exact ih rfl
  | read _ _ ihpiece ih =>
    intro a rest hr
    obtain ⟨rfl, hpiece⟩ := ihpiece hs _ _ rfl
    obtain ⟨hrest, hnext⟩ := ih rfl a rest hr
    refine ⟨hrest, fun hneeds => ?_⟩
    rcases hneeds with hpieceNeeds | hneeds
    · exact hpiece (Piece.needs_recipe hpieceNeeds)
    · exact hnext (hneeds _)
  | readFields _ _ ihpiece _ => exact absurd (Piece.needs_recipe rfl) (ihpiece hs _ _ rfl).2
  | pass | enter => cases hs
  | _ => exact nofun

/-- A token is left where a recipe ends well with one left over, or needs one. -/
theorem Runs.length_pos {a : α} {rest : Stream} (h : Runs opened recipe s (.ok (a, rest)))
    (hs : Settled s) (hmore : 0 < rest.length ∨ ∀ p, s = .finish p → recipe.Needs) :
    0 < s.length := by
  cases s with
  | cons u after => exact Nat.succ_pos _
  | failure e => cases hs
  | finish p =>
    obtain ⟨rfl, hneeds⟩ := h.finish rfl a rest rfl
    rcases hmore with hlt | hfinish
    · exact hlt
    · exact absurd (hfinish p rfl) hneeds

/-- A recipe that ends well does so too when others follow the tokens, if a token is left over at
the end or the recipe is complete. -/
theorem Runs.follows (h : Runs opened recipe s r) (hs : Joins t s s') (opened' : Position) :
    ∀ a rest, r = .ok (a, rest) → 0 < rest.length ∨ recipe.Complete →
      ∃ rest', Runs opened' recipe s' (.ok (a, rest')) ∧ Joins t rest rest' := by
  induction h generalizing s' opened' with
  | done =>
    rintro a rest ⟨⟩ -
    exact ⟨s', .done, hs⟩
  | @look _ _ s next r h ih =>
    rintro a rest rfl hmore
    -- The next token is the same in both streams, since there is one.
    have hpos : 0 < s.length := by
      refine h.length_pos hs.left (hmore.imp_right ?_)
      rintro ⟨hneeds, -⟩ p rfl
      exact hneeds
    obtain ⟨rest', hrun, hrest⟩ := ih hs opened' a rest rfl (hmore.imp_right fun h => h.2 _)
    rw [← hs.nextToken_eq hpos] at hrun
    exact ⟨rest', .look hrun, hrest⟩
  | @ifElse _ _ s yes no r h ih =>
    intro a rest hr hmore
    have hbranch : 0 < rest.length ∨ (if isNext (.keyword .else) s then yes else no).Complete := by
      refine hmore.imp_right fun ⟨hyes, hno⟩ => ?_
      split
      · exact hyes
      · exact hno
    obtain ⟨rest', hrun, hrest⟩ := ih hs opened' a rest hr hbranch
    rw [← hs.isNext_else] at hrun
    exact ⟨rest', .ifElse hrun, hrest⟩
  | pass hset _ ih =>
    intro a rest hr hmore
    obtain ⟨q, after, rfl, hafter⟩ := hs.of_cons
    have hafter : Joins t _ after := ⟨hset, hafter⟩
    obtain ⟨rest', hrun, hrest⟩ := ih hafter opened' a rest hr hmore
    exact ⟨rest', .pass hafter.right hrun, hrest⟩
  | enter hset _ ih =>
    intro a rest hr hmore
    obtain ⟨q, after, rfl, hafter⟩ := hs.of_cons
    have hafter : Joins t _ after := ⟨hset, hafter⟩
    obtain ⟨rest', hrun, hrest⟩ := ih hafter q a rest hr hmore
    exact ⟨rest', .enter hafter.right hrun, hrest⟩
  | @read _ _ _ _ mid piece b _ _ hpiece h ihpiece ih =>
    rintro a rest rfl hmore
    have hset := hpiece.settled hs.left _ _ rfl
    -- The piece leaves a token if the rest of the recipe does or needs one.
    have hleft : 0 < mid.length ∨ piece.recipe.Complete := by
      rcases hmore with hlt | ⟨hcomplete | hneeds, -⟩
      · exact .inl (h.length_pos hset (.inl hlt))
      · exact .inr (Piece.complete_recipe hcomplete)
      · exact .inl (h.length_pos hset (.inr fun _ _ => hneeds b))
    obtain ⟨mid', hpiece', hmid'⟩ := ihpiece hs opened' _ _ rfl hleft
    obtain ⟨rest', hrun, hrest⟩ := ih hmid' opened' a rest rfl (hmore.imp_right fun h => h.2 _)
    exact ⟨rest', .read hpiece' hrun, hrest⟩
  | readFields hpiece h ihpiece ih =>
    rintro a rest rfl hmore
    obtain ⟨mid', hpiece', hmid'⟩ :=
      ihpiece hs opened' _ _ rfl (.inr (Piece.complete_recipe rfl))
    obtain ⟨rest', hrun, hrest⟩ := ih hmid' opened' a rest rfl (hmore.imp_right fun h => h _)
    exact ⟨rest', .readFields hpiece' hrun, hrest⟩
  | _ => exact nofun

/-- What a reader reads by a recipe is read from the prolonged tokens too. -/
theorem Runs.result_follows {n m : Nat} {r : Result α n} {r' : Result α m} {a : α} {rest : Stream}
    (h : Runs opened recipe s r.ending) (h' : Runs opened recipe s' r'.ending) (hs : Joins t s s')
    (hread : r.Reads a rest) (hmore : 0 < rest.length ∨ recipe.Complete) :
    r'.Follows t a rest := by
  obtain ⟨rest', hrun, hrest⟩ :=
    h.follows hs opened a rest (Result.reads_iff_ending.1 hread) hmore
  exact ⟨rest', Result.reads_iff_ending.2 (h'.unique hrun), hrest⟩

theorem skipSemicolons_follows {rest : Stream} (h : (skipSemicolons s).Reads () rest)
    (hs : Joins t s s') (hmore : 0 < rest.length) : (skipSemicolons s').Follows t () rest := by
  have hrun : Runs .start Piece.semicolons.recipe s (skipSemicolons s).ending :=
    semicolons_runs hs.left
  exact hrun.result_follows (semicolons_runs hs.right) hs h (.inl hmore)

theorem statement_follows {st : Statement} {rest : Stream} (h : (statement s).Reads st rest)
    (hs : Joins t s s') : (statement s').Follows t st rest := by
  have hrun : Runs .start Piece.statement.recipe s (statement s).ending := statement_runs hs.left
  exact hrun.result_follows (statement_runs hs.right) hs h (.inr (Piece.complete_recipe rfl))

end

end Parse

end TorqueScript
