import TorqueScript.Proofs.Program.Following

/-!
The mistakes that readers report. A reader moves along the tokens one at a time and
stops where no mistake comes next, or reports a mistake that stands at one of the
tokens it came to. So reading a whole program ends in one of two ways: every token is
consumed by a statement, or a mistake is reported.
-/

namespace TorqueScript.Parse

/-- Moving along the tokens of `s` leads to `rest`, and no mistake comes next there. -/
inductive LeadsTo : Stream → Stream → Prop where
  | here {s : Stream} (hs : Settled s) : LeadsTo s s
  | further {t : Located} {s rest : Stream} (h : LeadsTo s rest) : LeadsTo (.cons t s) rest

/-- What is expected where an object is nested in a datablock. -/
def fieldsOnly : String :=
  "field assignment"

/-- The mistake is one that a reader finds on its way along the tokens. -/
inductive Reports : Stream → SourceError → Prop where
  | scan {e : ScanError} : Reports (.failure e) (.scan e)
  | numeral {text : String} {p : Position} {rest : Stream}
      (h : Number.ofLiteral? text.toList = none) :
    Reports (.cons ⟨.numeral text, p⟩ rest) (.scan ⟨.badNumeral text, p⟩)
  | unexpected {s : Stream} {expected : String} (hs : Settled s) (he : expected ≠ fieldsOnly) :
    Reports s (Parse.unexpected s expected)
  /-- A block that nests objects is read to its end before they are found to be misplaced. -/
  | nested {s rest : Stream} {fields : List FieldInit} {children : List ObjectDecl}
      (hs : Settled s) (h : (objectBlock s).Reads (fields, children) rest) (hc : children ≠ [])
      (hrest : LeadsTo s rest) :
    Reports s (.unexpected fieldsOnly (Keyword.spelling .new) (next rest).2)
  | unclosed {opened p : Position} : Reports (.finish p) (.unclosed opened p)
  | emptyLabel {s : Stream} (hs : Settled s) (h : endsLabels s = true) :
    Reports s (.emptyLabel (next s).2)
  | later {t : Located} {s : Stream} {e : SourceError} (h : Reports s e) : Reports (.cons t s) e

section

variable {s mid rest : Stream} {e : SourceError}

theorem LeadsTo.settled (h : LeadsTo s rest) : Settled rest := by
  induction h with
  | here hs => exact hs
  | further _ ih => exact ih

theorem LeadsTo.trans (h : LeadsTo s mid) (h' : LeadsTo mid rest) : LeadsTo s rest := by
  induction h with
  | here _ => exact h'
  | further _ ih => exact .further (ih h')

theorem LeadsTo.reports (h : LeadsTo s mid) (h' : Reports mid e) : Reports s e := by
  induction h with
  | here _ => exact h'
  | further _ ih => exact .later (ih h')

theorem reports_of_lookAhead (h : lookAhead s = .error e) : Reports s e := by
  unfold lookAhead at h
  split at h
  · cases h
    exact .scan
  · cases h
    exact .later .scan
  all_goals cases h

end

theorem spelling_symbol_ne (x : Symbol) : (Token.symbol x).spelling ≠ fieldsOnly := by
  cases x <;> decide

theorem spelling_keyword_ne (k : Keyword) : (Token.keyword k).spelling ≠ fieldsOnly := by
  cases k <;> decide

theorem Wanted.text_ne (wanted : Wanted) : wanted.text ≠ fieldsOnly := by
  cases wanted with
  | symbol x => exact spelling_symbol_ne x
  | keyword k => exact spelling_keyword_ne k
  | _ => decide

/-- Reading from `s` moved along its tokens, and a mistake that it reported is one of theirs. -/
def Ending.Sound {α : Type} (s : Stream) : Ending α → Prop
  | .ok (_, rest) => LeadsTo s rest
  | .error e => Reports s e

section

variable {α : Type} {s mid : Stream} {r : Ending α}

theorem Ending.Sound.of_leadsTo (hmid : LeadsTo s mid) (h : Ending.Sound mid r) :
    Ending.Sound s r := by
  cases r with
  | ok p => exact hmid.trans h
  | error e => exact hmid.reports h

theorem Runs.sound {opened : Position} {recipe : Recipe α} (h : Runs opened recipe s r)
    (hs : Settled s) : Ending.Sound s r := by
  induction h with
  | done => exact LeadsTo.here hs
  | look _ ih | ifElse _ ih => exact ih hs
  | pass hs' _ ih | enter hs' _ ih => exact .of_leadsTo (.further (.here hs')) (ih hs')
  | passFails he | enterFails he | badNumeralFails he =>
    exact Reports.later (reports_of_lookAhead he)
  | read _ _ ihpiece ih | readFields _ _ ihpiece ih =>
    have hmid : LeadsTo _ _ := ihpiece hs
    exact .of_leadsTo hmid (ih hmid.settled)
  | readFails _ ih | readFieldsFails _ ih =>
    have herror : Reports _ _ := ih hs
    exact herror
  | nested hread _ hchildren ih => exact Reports.nested hs hread hchildren (ih hs)
  | mistake => exact Reports.unexpected hs (Wanted.text_ne _)
  | unclosed => exact Reports.unclosed
  | emptyLabel h => exact Reports.emptyLabel hs h
  | badNumeral _ h => exact Reports.numeral h

theorem skipSemicolons_sound (hs : Settled s) : Ending.Sound s (skipSemicolons s).ending := by
  have hrun : Runs .start Piece.semicolons.recipe s (skipSemicolons s).ending :=
    semicolons_runs hs
  exact hrun.sound hs

theorem statement_sound (hs : Settled s) : Ending.Sound s (statement s).ending := by
  have hrun : Runs .start Piece.statement.recipe s (statement s).ending := statement_runs hs
  exact hrun.sound hs

end

/-- The tokens from `s` to `rest` are these statements, each read where the one before it ends, and
semicolons between them. -/
inductive Consumes : Stream → List Statement → Stream → Prop where
  | nothing {s : Stream} : Consumes s [] s
  | semicolon {p : Position} {s rest : Stream} {b : List Statement} (h : Consumes s b rest) :
    Consumes (.cons ⟨.symbol .semicolon, p⟩ s) b rest
  | statement {s mid rest : Stream} {first : Statement} {others : List Statement}
      (h : (Parse.statement s).Reads first mid) (hothers : Consumes mid others rest) :
    Consumes s (first :: others) rest

theorem consumes_of_skipSemicolons {s mid rest : Stream} {b : List Statement}
    (h : (skipSemicolons s).Reads () mid) (hmid : Consumes mid b rest) : Consumes s b rest := by
  induction s with
  | finish p =>
    simp only [skipSemicolons, Result.reads_ok, true_and] at h
    exact h ▸ hmid
  | failure e =>
    simp only [skipSemicolons, Result.reads_ok, true_and] at h
    exact h ▸ hmid
  | cons t s ih =>
    obtain ⟨token, p⟩ := t
    rw [skipSemicolons_cons] at h
    split at h
    · rename_i htoken
      obtain rfl : token = .symbol .semicolon := htoken
      exact .semicolon (ih h.2)
    · exact h ▸ hmid

/-- Reading all statements from `s` goes through to the end of the source, or reports a mistake. -/
def Concludes (s : Stream) : Except SourceError (List Statement) → Prop
  | .ok b => ∃ p, Consumes s b (.finish p) ∧ LeadsTo s (.finish p)
  | .error e => Reports s e

theorem Concludes.statement {s mid : Stream} {first : Statement}
    {r : Except SourceError (List Statement)} (h : (Parse.statement s).Reads first mid)
    (hmid : LeadsTo s mid) (hr : Concludes mid r) :
    Concludes s (do let others ← r; return first :: others) := by
  cases r with
  | error e => exact hmid.reports hr
  | ok others =>
    obtain ⟨p, hothers, hend⟩ := hr
    exact ⟨p, .statement h hothers, hmid.trans hend⟩

theorem Concludes.skipSemicolons {s mid : Stream} {r : Except SourceError (List Statement)}
    (h : (skipSemicolons s).Reads () mid) (hmid : LeadsTo s mid) (hr : Concludes mid r) :
    Concludes s r := by
  cases r with
  | error e => exact hmid.reports hr
  | ok b =>
    obtain ⟨p, hb, hend⟩ := hr
    exact ⟨p, consumes_of_skipSemicolons h hb, hmid.trans hend⟩

theorem statements_concludes {s : Stream} (hs : Settled s) : Concludes s (statements s) := by
  rw [statements]
  have hskip := skipSemicolons_sound hs
  cases h : skipSemicolons s with
  | error e =>
    rw [h] at hskip
    exact hskip
  | ok q =>
    obtain ⟨_, mid, hlt⟩ := q
    have hmid : LeadsTo s mid := by rwa [h] at hskip
    refine .skipSemicolons ⟨hlt, h⟩ hmid ?_
    cases mid with
    | finish p => exact ⟨p, .nothing, .here rfl⟩
    | failure e => cases hmid.settled
    | cons t s' =>
      have hfirst := statement_sound hmid.settled
      cases h' : statement (.cons t s') with
      | error e =>
        rw [h'] at hfirst
        simp only [bind, Except.bind, h']
        exact hfirst
      | ok q' =>
        obtain ⟨first, after, hlt'⟩ := q'
        have hafter : LeadsTo (.cons t s') after := by rwa [h'] at hfirst
        simp only [bind, Except.bind, h']
        exact .statement ⟨hlt', h'⟩ hafter (statements_concludes hafter.settled)
termination_by s.length
decreasing_by all_goals simp only [Stream.length] at *; omega

end TorqueScript.Parse

namespace TorqueScript

theorem Program.ofStream_concludes (s : Stream) : Parse.Concludes s (Program.ofStream s) := by
  unfold Program.ofStream
  cases h : Parse.lookAhead s with
  | error e => exact Parse.reports_of_lookAhead h
  | ok u => exact Parse.statements_concludes h

end TorqueScript
