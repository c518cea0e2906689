import TorqueScript.Proofs.Program.Grammar

/-!
The parser reads every spelling that the grammar allows. A phrase is read up to its
end if what follows it could not be part of it: no operator that is tighter than the
phrase allows, and no token that joins the operand before it.
-/

namespace TorqueScript.Parse

open Result

/-- The tokens that join the operand before them: they begin arguments, subscripts, the rest of a
qualified name or the block of an object. -/
def joining : List Token :=
  [.symbol .openParen, .symbol .openBracket, .symbol .doubleColon, .symbol .openBrace]

def joins : Stream → Bool
  | .cons t _ => t.token ∈ joining
  | .finish _ => false
  | .failure _ => false

/-- What may follow an expression of rank `m`. Binary operators group to the left, so one of the
same rank may follow; assignments and conditionals group to the right, so it may not. -/
structure Ends (m : Level) (rest : Stream) : Prop where
  settled : Settled rest
  apart : joins rest = false
  looser : nextLevel rest ≤ if m ≤ Level.conditional then m - 1 else m

/-- An expression of rank `m` is read whole at this level. -/
def Admits (level m : Level) : Prop :=
  level < m ∨ level = Level.unary ∧ m = Level.unary

theorem Settled.cons {t : Located} {s : Stream} (h : Settled s) : Settled (.cons t s) := by
  cases s with
  | finish p => rfl
  | failure e => cases h
  | cons u s => rfl

theorem settled_of_semicolons {s rest : Stream} (h : Semicolons s rest) (hr : Settled rest) :
    Settled s := by
  induction h with
  | none => exact hr
  | more _ ih => exact (ih hr).cons

/-- What comes before settled tokens is settled. -/
theorem settled_of_spells {phrase : Phrase} {s rest : Stream} (h : Spells phrase s rest)
    (hr : Settled rest) : Settled s := by
  induction h with
  | number _ | true | false | text | bareword | named => exact hr.cons
  | «variable» _ ih | call _ ih | unary _ _ ih => exact (ih hr).cons
  | qualifiedCall _ ih => exact (ih hr).cons.cons.cons
  | create _ ih | last _ ih | elements _ ih | present _ ih => exact ih hr
  | parenthesized _ ih | arguments _ ih | subscripts _ ih | computed _ ih =>
    exact (ih hr.cons).cons
  | binary _ _ _ ih ih' | assign _ _ _ ih ih' | next _ _ ih ih' => exact ih (ih' hr).cons
  | conditional _ _ _ _ ih ih' ih'' => exact ih (ih' (ih'' hr).cons).cons
  | step _ _ ih => exact ih hr.cons
  | field _ _ _ ih ih' | method _ _ _ ih ih' => exact ih (ih' hr).cons.cons
  | noElements | noSubscripts | absent => exact hr
  | bare _ _ ih ih' => exact (ih (ih' hr.cons).cons).cons
  | filled _ _ _ ih ih' ih'' => exact (ih (ih' (ih'' hr).cons.cons).cons).cons
  | close hs => exact settled_of_semicolons hs hr.cons
  | object hs _ _ ih ih' => exact settled_of_semicolons hs (ih (ih' hr).cons)
  | fieldValue hs _ _ _ ih ih' ih'' =>
    exact settled_of_semicolons hs (ih (ih' (ih'' hr).cons).cons).cons

/-- No expression begins with a symbol that opens nothing. -/
theorem isSymbol_expression {level : Level} {s rest : Stream} {e : Expr} {x : Symbol}
    (h : (expression level s).Reads e rest) (hx : Opening.ofToken? (.symbol x) = none) :
    isSymbol x s = false := by
  obtain ⟨left, mid, hleft, -⟩ := expression_reads.1 h
  obtain ⟨t, s', rfl, ht⟩ := operand_start hleft
  simp only [isSymbol, isNext, decide_eq_false_iff_not]
  exact fun htoken => ht (htoken ▸ hx)

theorem skipSemicolons_reads {s rest : Stream} (h : Semicolons s rest) (hr : Settled rest)
    (hhead : isSymbol .semicolon rest = false) : (skipSemicolons s).Reads () rest := by
  induction h with
  | none =>
    rename_i s
    cases s with
    | finish p => simp [skipSemicolons]
    | failure e => simp [skipSemicolons]
    | cons t s =>
      rw [skipSemicolons_cons, if_neg]
      simpa [isSymbol, isNext] using hhead
  | more hs ih =>
    rw [skipSemicolons_cons, if_pos rfl]
    exact ⟨settled_of_semicolons hs hr, ih hr hhead⟩

theorem isSymbol_of_apart {rest : Stream} {x : Symbol} (h : joins rest = false)
    (hx : x ∈ [Symbol.openParen, .openBracket, .doubleColon, .openBrace]) :
    isSymbol x rest = false := by
  cases rest with
  | finish p => rfl
  | failure e => rfl
  | cons t s =>
    simp only [isSymbol, isNext, decide_eq_false_iff_not]
    rintro ht
    simp only [joins, joining, ht] at h
    simp only [List.mem_cons, List.not_mem_nil, or_false] at hx
    rcases hx with rfl | rfl | rfl | rfl <;> simp at h

section

variable {m level : Level} {p : Position} {s rest : Stream}

/-- A symbol that neither joins an operand nor goes on with it ends every expression. -/
theorem ends_symbol {x : Symbol} (hc : Continuation.ofToken? (.symbol x) = none)
    (hj : joins (.cons ⟨.symbol x, p⟩ s) = false) (hs : Settled s) :
    Ends m (.cons ⟨.symbol x, p⟩ s) where
  settled := hs.cons
  apart := hj
  looser := by simp [nextLevel, hc, Level.lowest]

theorem Ends.mono {m' : Level} (h : Ends m rest) (hm : m ≤ m') : Ends m' rest where
  settled := h.settled
  apart := h.apart
  looser := Nat.le_trans h.looser (by grind)

/-- An operator ends the operand before it, if that is as tight as the operator. -/
theorem ends_continuation {t : Token} {c : Continuation} (hc : Continuation.ofToken? t = some c)
    (hlevel : c.level ≤ m) (hm : Level.conditional < m) (hs : Settled s) :
    Ends m (.cons ⟨t, p⟩ s) where
  settled := hs.cons
  apart := by
    have hjoin : ∀ u ∈ joining, Continuation.ofToken? u = none := by decide
    simp only [joins, decide_eq_false_iff_not]
    intro ht
    rw [hjoin t ht] at hc
    cases hc
  looser := by
    simp only [nextLevel, hc, Option.map_some, Option.getD_some]
    grind

/-- Every operator ends what has no operator but accesses. -/
theorem ends_access {t : Token} {c : Continuation} (hc : Continuation.ofToken? t = some c)
    (hs : Settled s) : Ends Level.access (.cons ⟨t, p⟩ s) := by
  refine ends_continuation hc ?_ (by decide) hs
  cases c with
  | binary op =>
    rw [Continuation.level, ← op.rank_eq]
    exact Nat.le_of_lt (Nat.lt_succ_of_lt op.rank_lt_unary)
  | _ => exact Nat.le_of_ble_eq_true rfl

end

/-- The symbols that close a list or an expression between brackets, or end a statement. -/
def closers : List Symbol := [.closeParen, .closeBracket, .semicolon]

theorem ends_closer {m : Level} {p : Position} {s : Stream} {x : Symbol} (hx : x ∈ closers)
    (hs : Settled s) : Ends m (.cons ⟨.symbol x, p⟩ s) := by
  simp only [closers, List.mem_cons, List.not_mem_nil, or_false] at hx
  rcases hx with rfl | rfl | rfl <;> exact ends_symbol rfl rfl hs

theorem ofToken?_closer {x : Symbol} (hx : x ∈ closers) : Opening.ofToken? (.symbol x) = none := by
  simp only [closers, List.mem_cons, List.not_mem_nil, or_false] at hx
  rcases hx with rfl | rfl | rfl <;> rfl

/-- The parser's own reader of a phrase takes `s` to `rest`. An expression is read together with
whatever goes on with it, so that it may stand to the left of an operator. -/
def IsRead : Phrase → Stream → Stream → Prop
  | .expression m e, s, rest => Ends m rest → ∀ level, Admits level m → ∀ e' rest',
    (climb level e rest).Reads e' rest' → (expression level s).Reads e' rest'
  | .sequence es, s, rest => Ends Level.assignment rest → isSymbol .comma rest = false →
    (sequence s).Reads es rest
  | .elements es, s, rest => ∀ x ∈ closers, ∀ p s', rest = .cons ⟨.symbol x, p⟩ s' → Settled s' →
    (sequenceUntil x s).Reads es rest
  | .arguments es, s, rest => Settled rest → (arguments s).Reads es rest
  | .subscripts es, s, rest => Settled rest → isSymbol .openBracket rest = false →
    (subscripts s).Reads es rest
  | .classRef c, s, rest => Settled rest → (classRef s).Reads c rest
  | .optional e, s, rest => ∀ x ∈ closers, ∀ p s', rest = .cons ⟨.symbol x, p⟩ s' → Settled s' →
    (optional x s).Reads e rest
  | .creation d, s, rest => Settled rest → isSymbol .openBrace rest = false →
    (creation s).Reads d rest
  | .items fields children, s, rest => Settled rest → ∀ opened,
    (objectItems opened s).Reads (fields, children) rest

section

variable {m : Level} {e : Expr} {s rest : Stream}

/-- An expression at the end of what is read. -/
theorem IsRead.whole (h : IsRead (.expression m e) s rest) (hr : Ends m rest) {level : Level}
    (hlevel : Admits level m) (hstop : nextLevel rest ≤ level) :
    (expression level s).Reads e rest :=
  h hr level hlevel e rest ((climb_stop hstop).2 ⟨rfl, rfl⟩)

theorem IsRead.lowest (h : IsRead (.expression Level.assignment e) s rest)
    (hr : Ends Level.assignment rest) : (expression Level.lowest s).Reads e rest :=
  h.whole hr (.inl Nat.one_pos) hr.looser

/-- An operand is an expression of every rank. -/
theorem isRead_of_operand (h : Settled rest → joins rest = false → (operand s).Reads e rest) :
    IsRead (.expression m e) s rest :=
  fun hr _ _ _ _ hclimb => expression_reads.2 ⟨e, rest, h hr.settled hr.apart, hclimb⟩

end

/-- Every phrase that the grammar allows is read by its reader. -/
theorem isRead_of_spells {phrase : Phrase} {s rest : Stream} (h : Spells phrase s rest) :
    IsRead phrase s rest := by
  induction h with
  | number hx =>
    refine isRead_of_operand fun hs _ => (operand_literal ?_).2 ⟨hs, rfl, rfl⟩
    simp [Opening.ofToken?, hx]
  | true => exact isRead_of_operand fun hs _ => (operand_literal rfl).2 ⟨hs, rfl, rfl⟩
  | false => exact isRead_of_operand fun hs _ => (operand_literal rfl).2 ⟨hs, rfl, rfl⟩
  | text => exact isRead_of_operand fun hs _ => (operand_literal rfl).2 ⟨hs, rfl, rfl⟩
  | bareword =>
    refine isRead_of_operand fun hs hj => (operand_name rfl).2 ⟨hs, ?_⟩
    simp [isSymbol_of_apart hj]
  | «variable» h ih =>
    refine isRead_of_operand fun hs hj => (operand_variable (Scope.ofToken?_token ..)).2 ?_
    exact ⟨settled_of_spells h hs, _, rfl, ih hs (isSymbol_of_apart hj (by simp))⟩
  | call h ih =>
    refine isRead_of_operand fun hs _ => (operand_name rfl).2 ⟨settled_of_spells h hs, ?_⟩
    have hargs := ih hs
    obtain ⟨p, mid, hopen, -⟩ := arguments_reads.1 hargs
    obtain ⟨rfl, -⟩ := expectSymbol_reads.1 hopen
    exact ⟨_, rfl, hargs⟩
  | qualifiedCall h ih =>
    refine isRead_of_operand fun hs _ => (operand_name rfl).2 ?_
    have hs' := settled_of_spells h hs
    refine ⟨hs'.cons.cons, _, _, expectSymbol_reads.2 ⟨rfl, hs'.cons⟩, _, _,
      expectName_reads.2 ⟨_, rfl, hs'⟩, _, rfl, ih hs⟩
  | create h ih =>
    refine isRead_of_operand fun hs hj => ?_
    have hd := ih hs (isSymbol_of_apart hj (by simp))
    obtain ⟨p, mid, hnew, -⟩ := creation_reads.1 hd
    obtain ⟨rfl, -⟩ := expect_reads.1 hnew
    exact (operand_creation rfl).2 ⟨_, rfl, hd⟩
  | parenthesized h ih =>
    refine isRead_of_operand fun hs _ => (operand_parenthesis rfl).2 ?_
    refine ⟨settled_of_spells h hs.cons, _, ih.lowest ?_, _, expectSymbol_reads.2 ⟨rfl, hs⟩⟩
    exact ends_closer (by simp [closers]) hs
  | unary hm h ih =>
    intro hr level hlevel e' rest' hclimb
    refine expression_reads.2 ⟨_, _, (operand_unary (UnaryOp.ofToken?_token _)).2 ?_, hclimb⟩
    have hend := hr.looser
    refine ⟨settled_of_spells h hr.settled, _, rfl, ih.whole (hr.mono hm) (.inr ⟨rfl, rfl⟩) ?_⟩
    grind [Level.unary, Level.conditional]
  | @binary op left right m p s s' rest hm hl hr ihl ihr =>
    intro hend level hlevel e' rest' hclimb
    have hrank := op.conditional_lt_rank
    have hunary := op.rank_lt_unary
    have hs' := settled_of_spells hr hend.settled
    have hop : Ends op.rank (.cons ⟨op.token, p⟩ s') :=
      ends_continuation op.ofToken?_token (Nat.le_of_eq op.rank_eq.symm) hrank hs'
    refine ihl hop level ?_ _ _ ((climb_binary op.ofToken?_token ?_).2
      ⟨hs', right, rest, ?_, hclimb⟩)
    · grind [Admits]
    · rw [← op.rank_eq]
      grind [Admits]
    · rw [← op.rank_eq]
      have hlooser := hend.looser
      refine ihr.whole (hend.mono (by grind)) (.inl (Nat.lt_succ_self _)) ?_
      grind
  | conditional hm hc ha hb ihc iha ihb =>
    intro hend level hlevel e' rest' hclimb
    have hb' := settled_of_spells hb hend.settled
    have ha' := settled_of_spells ha hb'.cons
    refine ihc (ends_continuation rfl (Nat.le_succ _) (Nat.lt_succ_self _) ha') level ?_ _ _
      ((climb_conditional rfl ?_).2 ⟨ha', _, _,
      iha.lowest (ends_symbol rfl rfl hb'), _, _, expectSymbol_reads.2 ⟨rfl, hb'⟩, _, _, ?_,
      hclimb⟩)
    · grind [Admits, Level.unary, Level.conditional]
    · grind [Admits, Level.unary, Level.conditional]
    · have hlooser := hend.looser
      refine ihb.whole (hend.mono hm) (.inl (Nat.lt_succ_self _)) ?_
      grind [Level.assignment, Level.conditional]
  | assign hm hp hv ihp ihv =>
    intro hend level hlevel e' rest' hclimb
    have hv' := settled_of_spells hv hend.settled
    have hvalue := ihv.lowest (hend.mono hm)
    refine ihp (ends_access (ofToken?_assignToken _) hv') level ?_ _ _
      ((climb_assign (ofToken?_assignToken _) ?_).2 ⟨hv', _, rfl, _, _, hvalue, hclimb⟩)
    · grind [Admits, Level.unary, Level.assignment, Level.access]
    · grind [Admits, Level.unary, Level.assignment]
  | step hm hp ih =>
    intro hend level hlevel e' rest' hclimb
    have hl : level < Level.access := by grind [Admits, Level.unary, Level.access]
    have htoken := StepOp.ofToken?_token
    exact ih (ends_access (htoken _) hend.settled) level (.inl hl) _ _
      ((climb_step (htoken _) hl).2 ⟨hend.settled, _, rfl, hclimb⟩)
  | @field object subs m p q s s' rest name hm ho hs iho ihs =>
    intro hend level hlevel e' rest' hclimb
    have hs' := settled_of_spells hs hend.settled
    have hl : level < Level.access := by grind [Admits, Level.unary, Level.access]
    have hparen : isSymbol .openParen s' = false := by
      cases hs with
      | noSubscripts => exact isSymbol_of_apart hend.apart (by simp)
      | subscripts => rfl
    have hsubs := ihs hend.settled (isSymbol_of_apart hend.apart (by simp))
    refine iho (ends_access rfl hs'.cons) level (.inl hl) _ _ ((climb_dot rfl hl).2
      ⟨hs'.cons, _, _, expectName_reads.2 ⟨_, rfl, hs'⟩, ?_⟩)
    simpa [hparen] using ⟨_, _, hsubs, hclimb⟩
  | method hm ho ha iho iha =>
    intro hend level hlevel e' rest' hclimb
    have ha' := settled_of_spells ha hend.settled
    have hl : level < Level.access := by grind [Admits, Level.unary, Level.access]
    have hargs := iha hend.settled
    obtain ⟨p, mid, hopen, -⟩ := arguments_reads.1 hargs
    obtain ⟨rfl, -⟩ := expectSymbol_reads.1 hopen
    exact iho (ends_access rfl ha'.cons) level (.inl hl) _ _ ((climb_dot rfl hl).2
      ⟨ha'.cons, _, _, expectName_reads.2 ⟨_, rfl, ha'⟩, _, _, hargs, hclimb⟩)
  | last h ih =>
    intro hr hcomma
    refine sequence_reads.2 ⟨_, _, ih.lowest hr, ?_⟩
    simp [hcomma]
  | next he hes ihe ihes =>
    intro hr hcomma
    have hes' := settled_of_spells hes hr.settled
    exact sequence_reads.2 ⟨_, _, ihe.lowest (ends_symbol rfl rfl hes'), _, _,
      expectSymbol_reads.2 ⟨rfl, hes'⟩, _, rfl, ihes hr hcomma⟩
  | noElements =>
    rintro x hx p s' rfl hs
    refine sequenceUntil_reads.2 ?_
    simp [isSymbol, isNext]
  | elements h ih =>
    rintro x hx p s' rfl hs
    have hes := ih (ends_closer hx hs) ?_
    · obtain ⟨e, mid, he, -⟩ := sequence_reads.1 hes
      refine sequenceUntil_reads.2 ?_
      simpa [isSymbol_expression he (ofToken?_closer hx)] using hes
    · simp only [closers, List.mem_cons, List.not_mem_nil, or_false] at hx
      rcases hx with rfl | rfl | rfl <;> rfl
  | arguments h ih =>
    intro hs
    exact arguments_reads.2 ⟨_, _, expectSymbol_reads.2 ⟨rfl, settled_of_spells h hs.cons⟩, _,
      ih _ (by simp [closers]) _ _ rfl hs, _, expectSymbol_reads.2 ⟨rfl, hs⟩⟩
  | noSubscripts =>
    intro hs hbracket
    refine subscripts_reads.2 ?_
    simp [hbracket]
  | subscripts h ih =>
    intro hs hbracket
    exact subscripts_reads.2 ⟨_, _, expectSymbol_reads.2 ⟨rfl, settled_of_spells h hs.cons⟩, _,
      ih _ (by simp [closers]) _ _ rfl hs, _, expectSymbol_reads.2 ⟨rfl, hs⟩⟩
  | named =>
    intro hs
    exact classRef_reads.2 ⟨_, rfl, expectName_reads.2 ⟨_, rfl, hs⟩⟩
  | computed h ih =>
    intro hs
    exact classRef_reads.2 ⟨_, _, expectSymbol_reads.2 ⟨rfl, settled_of_spells h hs.cons⟩, _, rfl,
      _, ih.lowest (ends_closer (by simp [closers]) hs), _, expectSymbol_reads.2 ⟨rfl, hs⟩⟩
  | absent =>
    rintro x hx p s' rfl hs
    refine optional_reads.2 ?_
    simp [isSymbol, isNext]
  | present h ih =>
    rintro x hx p s' rfl hs
    have he := ih.lowest (ends_closer hx hs)
    refine optional_reads.2 ?_
    simpa [isSymbol_expression he (ofToken?_closer hx)] using he
  | bare hc hn ihc ihn =>
    intro hs hbrace
    have hn' := settled_of_spells hn hs.cons
    refine creation_reads.2 ⟨_, _, expect_reads.2 ⟨rfl, settled_of_spells hc hn'.cons⟩, _, _,
      ihc hn'.cons, _, _, expectSymbol_reads.2 ⟨rfl, hn'⟩, _, _,
      ihn _ (by simp [closers]) _ _ rfl hs, _, _, expectSymbol_reads.2 ⟨rfl, hs⟩, ?_⟩
    simp [hbrace]
  | filled hc hn hi ihc ihn ihi =>
    intro hs _
    have hi' := settled_of_spells hi hs
    have hn' := settled_of_spells hn hi'.cons.cons
    exact creation_reads.2 ⟨_, _, expect_reads.2 ⟨rfl, settled_of_spells hc hn'.cons⟩, _, _,
      ihc hn'.cons, _, _, expectSymbol_reads.2 ⟨rfl, hn'⟩, _, _,
      ihn _ (by simp [closers]) _ _ rfl hi'.cons, _, _, expectSymbol_reads.2 ⟨rfl, hi'.cons⟩,
      _, _, rfl, objectBlock_reads.2 ⟨_, _, expectSymbol_reads.2 ⟨rfl, hi'⟩, ihi hs _⟩⟩
  | close hs =>
    intro hr opened
    exact (objectItems_close (skipSemicolons_reads hs hr.cons rfl)).2 ⟨hr, rfl, rfl⟩
  | object hs hd hi ihd ihi =>
    intro hr opened
    have hi' := settled_of_spells hi hr
    have hobject := ihd hi'.cons rfl
    obtain ⟨p, mid, hnew, -⟩ := creation_reads.1 hobject
    obtain ⟨rfl, -⟩ := expect_reads.1 hnew
    have hskip := skipSemicolons_reads hs (settled_of_spells hd hi'.cons) rfl
    exact (objectItems_object hskip).2 ⟨_, _, hobject, _, _, expectSymbol_reads.2 ⟨rfl, hi'⟩, _, _,
      rfl, ihi hr opened⟩
  | fieldValue hs hsubs hv hi ihsubs ihv ihi =>
    intro hr opened
    have hi' := settled_of_spells hi hr
    have hv' := settled_of_spells hv hi'.cons
    have hsubs' := settled_of_spells hsubs hv'.cons
    have hskip := skipSemicolons_reads hs hsubs'.cons rfl
    exact (objectItems_field hskip).2 ⟨hsubs', _, _, ihsubs hv'.cons rfl, _, _,
      expectSymbol_reads.2 ⟨rfl, hv'⟩, _, _, ihv.lowest (ends_closer (by simp [closers]) hi'), _, _,
      expectSymbol_reads.2 ⟨rfl, hi'⟩, _, _, rfl, ihi hr opened⟩

end TorqueScript.Parse
