import TorqueScript.Proofs.Program.Completeness
import TorqueScript.Proofs.Program.Leaves

/-!
Expressions as tokens. Parentheses stand where the precedence of the operators asks
for them, and any number of further ones may stand around every subexpression. The
main statement is that the parser reads back the expression and nothing more.
-/

namespace TorqueScript

open Parse

/-- How tight the outermost operator of an expression is. -/
def Expr.rank : Expr → Level
  | .assign .. => Level.assignment
  | .conditional .. => Level.conditional
  | .binary op .. => op.rank
  | .unary .. => Level.unary
  | _ => Level.access

/-- What the tree leaves open about the tokens: the numeral of each number, and how many needless
pairs of parentheses stand around each subexpression, which is named by the way down to it. -/
structure Style where
  numeral : Float → String
  padding : List Nat → Nat

namespace Style

def part (st : Style) (i : Nat) : Style :=
  { st with padding := fun way => st.padding (i :: way) }

def parenthesize : Nat → List Token → List Token
  | 0, ts => ts
  | n + 1, ts => .symbol .openParen :: parenthesize n ts ++ [.symbol .closeParen]

/-- The tokens of `e` where an expression of rank `m` is wanted. -/
def around (st : Style) (m : Level) (e : Expr) (ts : List Token) : List Token :=
  parenthesize (st.padding [] + if e.rank < m then 1 else 0) ts

end Style

/-- Arguments from the tokens of their list. -/
def argumentTokens (ts : List Token) : List Token :=
  .symbol .openParen :: ts ++ [.symbol .closeParen]

/-- Subscripts from the tokens of their list. No brackets stand around an empty list. -/
def subscriptTokens (subscripts : List Expr) (ts : List Token) : List Token :=
  if subscripts.isEmpty then [] else .symbol .openBracket :: ts ++ [.symbol .closeBracket]

mutual

def Expr.tokens (st : Style) : Expr → List Token
  | .number x => [.numeral (st.numeral x)]
  | .text s => [.text s]
  | .bareword s => [.name s]
  | .read p => p.tokens st
  | .unary op e => op.token :: (st.part 0).around Level.unary e (e.tokens (st.part 0))
  | .binary op l r =>
    (st.part 0).around op.rank l (l.tokens (st.part 0)) ++
      op.token :: (st.part 1).around (op.rank + 1) r (r.tokens (st.part 1))
  | .conditional c a b =>
    (st.part 0).around (Level.conditional + 1) c (c.tokens (st.part 0)) ++
      .symbol .question :: (st.part 1).around Level.assignment a (a.tokens (st.part 1)) ++
      .symbol .colon :: (st.part 2).around Level.conditional b (b.tokens (st.part 2))
  | .assign p op v =>
    p.tokens (st.part 0) ++
      assignToken op :: (st.part 1).around Level.assignment v (v.tokens (st.part 1))
  | .step p op => p.tokens (st.part 0) ++ [op.token]
  | .call none name args => .name name :: argumentTokens (sequenceTokens st args)
  | .call (some q) name args =>
    .name q :: .symbol .doubleColon :: .name name :: argumentTokens (sequenceTokens st args)
  | .method e name args =>
    (st.part 0).around Level.access e (e.tokens (st.part 0)) ++
      .symbol .dot :: .name name :: argumentTokens (sequenceTokens (st.part 1) args)
  | .create d => d.tokens st

/-- Expressions with commas between them. -/
def sequenceTokens (st : Style) : List Expr → List Token
  | [] => []
  | [e] => (st.part 0).around Level.assignment e (e.tokens (st.part 0))
  | e :: es =>
    (st.part 0).around Level.assignment e (e.tokens (st.part 0)) ++
      .symbol .comma :: sequenceTokens (st.part 1) es

def Place.tokens (st : Style) : Place → List Token
  | .variable scope name subscripts =>
    scope.token name :: subscriptTokens subscripts (sequenceTokens st subscripts)
  | .field e name subscripts =>
    (st.part 0).around Level.access e (e.tokens (st.part 0)) ++
      .symbol .dot :: .name name ::
        subscriptTokens subscripts (sequenceTokens (st.part 1) subscripts)

def ClassRef.tokens (st : Style) : ClassRef → List Token
  | .named name => [.name name]
  | .computed e =>
    .symbol .openParen :: st.around Level.assignment e (e.tokens st) ++ [.symbol .closeParen]

def optionTokens (st : Style) : Option Expr → List Token
  | none => []
  | some e => st.around Level.assignment e (e.tokens st)

def ObjectDecl.tokens (st : Style) : ObjectDecl → List Token
  | ⟨c, name, fields, children⟩ =>
    let head := .keyword .new :: c.tokens (st.part 0) ++
      .symbol .openParen :: optionTokens (st.part 1) name ++ [.symbol .closeParen]
    if fields.isEmpty && children.isEmpty then head
    else head ++ .symbol .openBrace :: fieldTokens (st.part 2) fields ++
      childTokens (st.part 3) children ++ [.symbol .closeBrace]

def fieldTokens (st : Style) : List FieldInit → List Token
  | [] => []
  | ⟨name, subscripts, value⟩ :: rest =>
    .name name :: subscriptTokens subscripts (sequenceTokens (st.part 0) subscripts) ++
      .symbol .assign :: (st.part 1).around Level.assignment value (value.tokens (st.part 1)) ++
      .symbol .semicolon :: fieldTokens (st.part 2) rest

def childTokens (st : Style) : List ObjectDecl → List Token
  | [] => []
  | d :: rest => d.tokens (st.part 0) ++ .symbol .semicolon :: childTokens (st.part 1) rest

end

/-- The tokens of an expression on its own. -/
def Style.tokens (st : Style) (e : Expr) : List Token :=
  st.around Level.assignment e (e.tokens st)

theorem begins_foldr (ts : List Token) (p : Position) (rest : Stream) :
    Begins ts (ts.foldr (fun t s => .cons ⟨t, p⟩ s) rest) rest := by
  induction ts with
  | nil => rfl
  | cons t ts ih => exact ⟨p, _, rfl, ih⟩

/-- Every number among the leaves is the value of its numeral. -/
def Style.Numerals (st : Style) (leaves : List Leaf) : Prop :=
  ∀ x, .number x ∈ leaves → Number.ofLiteral? (st.numeral x).toList = some x

namespace Style

variable {st : Style}

theorem numerals_append {ls ls' : List Leaf} :
    st.Numerals (ls ++ ls') ↔ st.Numerals ls ∧ st.Numerals ls' := by
  simp only [Numerals, List.mem_append]
  grind

theorem Numerals.tail {l : Leaf} {ls : List Leaf} (h : st.Numerals (l :: ls)) : st.Numerals ls :=
  fun x hx => h x (List.mem_cons_of_mem _ hx)

end Style

theorem Expr.assignment_le_rank (e : Expr) : Level.assignment ≤ e.rank := by
  unfold Expr.rank
  split
  case h_3 op _ _ => exact Nat.le_of_lt (Nat.lt_of_succ_lt op.conditional_lt_rank)
  all_goals decide

/-- What is spelled at a rank is spelled at every looser one. -/
theorem Spells.loosen {m m' : Level} {e : Expr} {s rest : Stream}
    (h : Spells (.expression m e) s rest) (hm : m' ≤ m) : Spells (.expression m' e) s rest := by
  cases h with
  | number hx => exact .number hx
  | true => exact .true
  | false => exact .false
  | text => exact .text
  | bareword => exact .bareword
  | «variable» h => exact .variable h
  | call h => exact .call h
  | qualifiedCall h => exact .qualifiedCall h
  | create h => exact .create h
  | parenthesized h => exact .parenthesized h
  | unary hm' h => exact .unary (Nat.le_trans hm hm') h
  | binary hm' hl hr => exact .binary (Nat.le_trans hm hm') hl hr
  | conditional hm' hc ha hb => exact .conditional (Nat.le_trans hm hm') hc ha hb
  | assign hm' hp hv => exact .assign (Nat.le_trans hm hm') hp hv
  | step hm' hp => exact .step (Nat.le_trans hm hm') hp
  | field hm' ho hs => exact .field (Nat.le_trans hm hm') ho hs
  | method hm' ho ha => exact .method (Nat.le_trans hm hm') ho ha

/-- The tokens spell the phrase wherever they stand. -/
def Spell (ts : List Token) (phrase : Phrase) : Prop :=
  ∀ s rest, Begins ts s rest → Spells phrase s rest

/-- Parentheses make an expression of any rank. -/
theorem spell_parenthesize {ts : List Token} {e : Expr} (h : Spell ts (.expression e.rank e))
    {m : Level} {n : Nat} (hn : n = 0 → m ≤ e.rank) :
    Spell (Style.parenthesize n ts) (.expression m e) := by
  induction n generalizing m with
  | zero => exact fun s rest hs => (h s rest hs).loosen (hn rfl)
  | succ n ih =>
    intro s rest hs
    simp only [Style.parenthesize, List.cons_append, Begins, begins_append] at hs
    obtain ⟨p, s', rfl, mid, hs', q, _, rfl, rfl⟩ := hs
    exact .parenthesized (ih (fun _ => e.assignment_le_rank) s' _ hs')

theorem spell_around {st : Style} {ts : List Token} {m : Level} {e : Expr}
    (h : Spell ts (.expression e.rank e)) : Spell (st.around m e ts) (.expression m e) := by
  refine spell_parenthesize h fun hn => ?_
  split at hn <;> grind

theorem spell_arguments {ts : List Token} {args : List Expr} (h : Spell ts (.elements args)) :
    Spell (argumentTokens ts) (.arguments args) := by
  intro s rest hs
  simp only [argumentTokens, List.cons_append, Begins, begins_append] at hs
  obtain ⟨p, s', rfl, mid, hs', q, _, rfl, rfl⟩ := hs
  exact .arguments (h _ _ hs')

theorem spell_subscripts {ts : List Token} {subs : List Expr} (h : Spell ts (.elements subs)) :
    Spell (subscriptTokens subs ts) (.subscripts subs) := by
  intro s rest hs
  unfold subscriptTokens at hs
  split at hs
  · rename_i hempty
    obtain rfl := List.isEmpty_iff.1 hempty
    obtain rfl := hs
    exact .noSubscripts
  · simp only [List.cons_append, Begins, begins_append] at hs
    obtain ⟨p, s', rfl, mid, hs', q, _, rfl, rfl⟩ := hs
    exact .subscripts (h _ _ hs')

mutual

theorem Expr.spell_tokens (st : Style) :
    (e : Expr) → st.Numerals e.leaves → Spell (e.tokens st) (.expression e.rank e)
  | .number x, h => by
    rintro s rest ⟨p, _, rfl, rfl⟩
    exact .number (h x (by simp [Expr.leaves]))
  | .text t, _ => by
    rintro s rest ⟨p, _, rfl, rfl⟩
    exact .text
  | .bareword t, _ => by
    rintro s rest ⟨p, _, rfl, rfl⟩
    exact .bareword
  | .read p, h => p.spell_tokens st h
  | .unary op e, h => by
    rintro s rest ⟨p, s', rfl, hs⟩
    exact .unary (Nat.le_refl _) (spell_around (e.spell_tokens (st.part 0) h) _ _ hs)
  | .binary op l r, h => by
    intro s rest hs
    simp only [Expr.tokens, begins_append] at hs
    obtain ⟨hl, hr⟩ := Style.numerals_append.1 h
    obtain ⟨mid, hleft, p, s', rfl, hright⟩ := hs
    exact .binary (Nat.le_refl _) (spell_around (l.spell_tokens (st.part 0) hl) _ _ hleft)
      (spell_around (r.spell_tokens (st.part 1) hr) _ _ hright)
  | .conditional c a b, h => by
    intro s rest hs
    simp only [Expr.tokens, List.append_assoc, List.cons_append, Begins, begins_append] at hs
    obtain ⟨hca, hb⟩ := Style.numerals_append.1 h
    obtain ⟨hc, ha⟩ := Style.numerals_append.1 hca
    obtain ⟨_, hcondition, p, s', rfl, _, hconsequence, q, s'', rfl, halternative⟩ := hs
    exact .conditional (Nat.le_refl _) (spell_around (c.spell_tokens (st.part 0) hc) _ _ hcondition)
      (spell_around (a.spell_tokens (st.part 1) ha) _ _ hconsequence)
      (spell_around (b.spell_tokens (st.part 2) hb) _ _ halternative)
  | .assign p op v, h => by
    intro s rest hs
    simp only [Expr.tokens, begins_append] at hs
    obtain ⟨hp, hv⟩ := Style.numerals_append.1 h
    obtain ⟨mid, hplace, q, s', rfl, hvalue⟩ := hs
    exact .assign (Nat.le_refl _) (p.spell_tokens (st.part 0) hp _ _ hplace)
      (spell_around (v.spell_tokens (st.part 1) hv) _ _ hvalue)
  | .step p op, h => by
    intro s rest hs
    simp only [Expr.tokens, begins_append] at hs
    obtain ⟨mid, hplace, q, s', rfl, rfl⟩ := hs
    exact .step (Nat.le_refl _) (p.spell_tokens (st.part 0) h _ _ hplace)
  | .call none name args, h => by
    rintro s rest ⟨p, s', rfl, hs⟩
    exact .call (spell_arguments (spell_sequenceTokens st args h.tail) _ _ hs)
  | .call (some q) name args, h => by
    rintro s rest ⟨p, _, rfl, p', _, rfl, p'', s', rfl, hs⟩
    exact .qualifiedCall (spell_arguments (spell_sequenceTokens st args h.tail.tail) _ _ hs)
  | .method e name args, h => by
    intro s rest hs
    simp only [Expr.tokens, begins_append] at hs
    obtain ⟨he, hargs⟩ := Style.numerals_append.1 h
    obtain ⟨mid, hobject, p, _, rfl, q, s', rfl, hs⟩ := hs
    exact .method (Nat.le_refl _) (spell_around (e.spell_tokens (st.part 0) he) _ _ hobject)
      (spell_arguments (spell_sequenceTokens (st.part 1) args hargs.tail) _ _ hs)
  | .create d, h => fun s rest hs => .create (d.spell_tokens st h s rest hs)

theorem Place.spell_tokens (st : Style) :
    (p : Place) → st.Numerals p.leaves → Spell (p.tokens st) (.expression Level.access (.read p))
  | .variable scope name subs, h => by
    rintro s rest ⟨p, s', rfl, hs⟩
    exact .variable (spell_subscripts (spell_sequenceTokens st subs h.tail) _ _ hs)
  | .field e name subs, h => by
    intro s rest hs
    simp only [Place.tokens, begins_append] at hs
    obtain ⟨he, hsubs⟩ := Style.numerals_append.1 h
    obtain ⟨mid, hobject, p, _, rfl, q, s', rfl, hs⟩ := hs
    exact .field (Nat.le_refl _) (spell_around (e.spell_tokens (st.part 0) he) _ _ hobject)
      (spell_subscripts (spell_sequenceTokens (st.part 1) subs hsubs.tail) _ _ hs)

theorem spell_sequenceTokens (st : Style) :
    (es : List Expr) → st.Numerals (leavesOfList es) → Spell (sequenceTokens st es) (.elements es)
  | [], _ => by
    rintro s rest rfl
    exact .noElements
  | [e], h => by
    intro s rest hs
    have he := (Style.numerals_append.1 h).1
    exact .elements (.last (spell_around (e.spell_tokens (st.part 0) he) _ _ hs))
  | e :: e' :: es, h => by
    intro s rest hs
    simp only [sequenceTokens, begins_append] at hs
    obtain ⟨he, hes⟩ := Style.numerals_append.1 h
    obtain ⟨mid, hfirst, p, s', rfl, hothers⟩ := hs
    cases spell_sequenceTokens (st.part 1) (e' :: es) hes _ _ hothers with
    | elements hes =>
      exact .elements (.next (spell_around (e.spell_tokens (st.part 0) he) _ _ hfirst) hes)

theorem ClassRef.spell_tokens (st : Style) :
    (c : ClassRef) → st.Numerals c.leaves → Spell (c.tokens st) (.classRef c)
  | .named name, _ => by
    rintro s rest ⟨p, _, rfl, rfl⟩
    exact .named
  | .computed e, h => by
    intro s rest hs
    simp only [ClassRef.tokens, List.cons_append, Begins, begins_append] at hs
    obtain ⟨p, s', rfl, mid, he, q, _, rfl, rfl⟩ := hs
    exact .computed (spell_around (e.spell_tokens st h) _ _ he)

theorem spell_optionTokens (st : Style) :
    (o : Option Expr) → st.Numerals (leavesOfOption o) → Spell (optionTokens st o) (.optional o)
  | none, _ => by
    rintro s rest rfl
    exact .absent
  | some e, h => fun s rest hs => .present (spell_around (e.spell_tokens st h) s rest hs)

theorem ObjectDecl.spell_tokens (st : Style) :
    (d : ObjectDecl) → st.Numerals d.leaves → Spell (d.tokens st) (.creation d)
  | ⟨c, name, fields, children⟩, h => by
    intro s rest hs
    obtain ⟨h, hchildren⟩ := Style.numerals_append.1 h
    obtain ⟨h, hfields⟩ := Style.numerals_append.1 h
    obtain ⟨hc, hname⟩ := Style.numerals_append.1 h
    simp only [ObjectDecl.tokens] at hs
    split at hs
    · rename_i hempty
      simp only [Bool.and_eq_true, List.isEmpty_iff] at hempty
      obtain ⟨rfl, rfl⟩ := hempty
      simp only [List.append_assoc, List.cons_append, Begins, begins_append] at hs
      obtain ⟨p, s', rfl, _, hclass, q, s'', rfl, _, hid, r, _, rfl, rfl⟩ := hs
      exact .bare (c.spell_tokens (st.part 0) hc _ _ hclass)
        (spell_optionTokens (st.part 1) name hname _ _ hid)
    · simp only [List.append_assoc, List.cons_append, List.nil_append, Begins,
        begins_append] at hs
      obtain ⟨p, s', rfl, _, hclass, q, s'', rfl, _, hid, r, _, rfl, o, s₃, rfl, s₄, hfs, s₅, hcs,
        p', _, rfl, rfl⟩ := hs
      refine .filled (c.spell_tokens (st.part 0) hc _ _ hclass)
        (spell_optionTokens (st.part 1) name hname _ _ hid) ?_
      exact spells_fieldTokens (st.part 2) fields hfields _ _ _ _ hfs
        (spells_childTokens (st.part 3) children hchildren _ _ _ hcs (.close .none))

/-- Fields stand before whatever else is in a block. -/
theorem spells_fieldTokens (st : Style) :
    (fields : List FieldInit) → st.Numerals (leavesOfFields fields) →
      ∀ (s mid rest : Stream) (children : List ObjectDecl), Begins (fieldTokens st fields) s mid →
        Spells (.items [] children) mid rest → Spells (.items fields children) s rest
  | [], _ => by
    rintro s mid rest children rfl hitems
    exact hitems
  | ⟨name, subs, value⟩ :: fields, h => by
    intro s mid rest children hs hitems
    simp only [fieldTokens, List.append_assoc, List.cons_append, Begins, begins_append] at hs
    obtain ⟨h, hfields⟩ := Style.numerals_append.1 h.tail
    obtain ⟨hsubs, hvalue⟩ := Style.numerals_append.1 h
    obtain ⟨p, _, rfl, _, hlist, q, _, rfl, _, hval, r, _, rfl, hothers⟩ := hs
    exact .fieldValue .none
      (spell_subscripts (spell_sequenceTokens (st.part 0) subs hsubs) _ _ hlist)
      (spell_around (value.spell_tokens (st.part 1) hvalue) _ _ hval)
      (spells_fieldTokens (st.part 2) fields hfields _ _ _ _ hothers hitems)

theorem spells_childTokens (st : Style) :
    (children : List ObjectDecl) → st.Numerals (leavesOfChildren children) →
      ∀ (s mid rest : Stream), Begins (childTokens st children) s mid →
        Spells (.items [] []) mid rest → Spells (.items [] children) s rest
  | [], _ => by
    rintro s mid rest rfl hitems
    exact hitems
  | d :: children, h => by
    intro s mid rest hs hitems
    simp only [childTokens, begins_append] at hs
    obtain ⟨hd, hchildren⟩ := Style.numerals_append.1 h
    obtain ⟨_, hfirst, p, _, rfl, hothers⟩ := hs
    exact .object .none (d.spell_tokens (st.part 0) hd _ _ hfirst)
      (spells_childTokens (st.part 1) children hchildren _ _ _ hothers hitems)

end

/-- The tokens that can go on with an expression: operators, and what begins arguments,
subscripts, the rest of a qualified name or the block of an object. -/
inductive Token.Continues : Token → Prop where
  | binary (op : BinaryOp) : Token.Continues op.token
  | assign (op : Option Arith) : Token.Continues (assignToken op)
  | step (op : StepOp) : Token.Continues op.token
  | question : Token.Continues (.symbol .question)
  | dot : Token.Continues (.symbol .dot)
  | openParen : Token.Continues (.symbol .openParen)
  | openBracket : Token.Continues (.symbol .openBracket)
  | doubleColon : Token.Continues (.symbol .doubleColon)
  | openBrace : Token.Continues (.symbol .openBrace)

/-- The token that begins a continuation. -/
def Parse.Continuation.token : Continuation → Token
  | .assign op => assignToken op
  | .conditional => .symbol .question
  | .binary op => op.token
  | .step op => op.token
  | .dot => .symbol .dot

theorem eq_token_of_ofToken? {t : Token} {c : Continuation}
    (h : Continuation.ofToken? t = some c) : t = c.token := by
  unfold Continuation.ofToken? at h
  split at h
  all_goals cases h
  all_goals rfl

theorem Token.continues_iff {t : Token} :
    t.Continues ↔ (Continuation.ofToken? t).isSome ∨ t ∈ joining := by
  constructor
  · intro h
    cases h with
    | binary op => exact .inl (by rw [op.ofToken?_token]; rfl)
    | assign op => exact .inl (by rw [ofToken?_assignToken]; rfl)
    | step op => exact .inl (by rw [op.ofToken?_token]; rfl)
    | question => exact .inl rfl
    | dot => exact .inl rfl
    | openParen | openBracket | doubleColon | openBrace => exact .inr (by decide)
  · rintro (h | h)
    · obtain ⟨c, hc⟩ := Option.isSome_iff_exists.1 h
      obtain rfl := eq_token_of_ofToken? hc
      cases c with
      | assign op => exact .assign op
      | conditional => exact .question
      | binary op => exact .binary op
      | step op => exact .step op
      | dot => exact .dot
    · simp only [joining, List.mem_cons, List.not_mem_nil, or_false] at h
      rcases h with rfl | rfl | rfl | rfl
      · exact .openParen
      · exact .openBracket
      · exact .doubleColon
      · exact .openBrace

instance : DecidablePred Token.Continues :=
  fun _ => decidable_of_iff _ Token.continues_iff.symm

/-- Tokens that cannot go on with an expression end it. -/
theorem ends_of_not_continues {m : Level} {rest : Stream} (hsettled : Settled rest)
    (hrest : ∀ t s, rest = .cons t s → ¬ t.token.Continues) : Ends m rest := by
  cases rest with
  | finish p => exact ⟨hsettled, rfl, Nat.zero_le _⟩
  | failure e => exact ⟨hsettled, rfl, Nat.zero_le _⟩
  | cons t s =>
    have ht := hrest t s rfl
    rw [Token.continues_iff, not_or, Bool.not_eq_true, Option.isSome_eq_false_iff,
      Option.isNone_iff_eq_none] at ht
    refine ⟨hsettled, decide_eq_false ht.2, ?_⟩
    simp [nextLevel, ht.1, Level.lowest]

/-- The tokens of an expression, with parentheses where precedence asks for them and with any
others around its subexpressions, are read as that expression, and nothing after them is read. -/
theorem expression_reads_tokens (st : Style) (e : Expr) (hnumerals : st.Numerals e.leaves)
    {s rest : Stream} (hs : Begins (st.tokens e) s rest) (hsettled : Settled rest)
    (hrest : ∀ t s', rest = .cons t s' → ¬ t.token.Continues) :
    (expression Level.lowest s).Reads e rest :=
  (isRead_of_spells (spell_around (e.spell_tokens st hnumerals) s rest hs)).lowest
    (ends_of_not_continues hsettled hrest)

/-- `%a += 7 - (2 - 1) ? ((o.x)) : -b` needs one pair of parentheses, bears two more and stops
before the semicolon. -/
theorem expression_reads_tokens_mixed :
    (expression Level.lowest (
      [Token.localVariable "a", .symbol .addAssign, .numeral "7", .symbol .minus,
        .symbol .openParen, .numeral "2", .symbol .minus, .numeral "1", .symbol .closeParen,
        .symbol .question, .symbol .openParen, .symbol .openParen, .name "o", .symbol .dot,
        .name "x", .symbol .closeParen, .symbol .closeParen, .symbol .colon, .symbol .minus,
        .name "b"].foldr (fun t s => .cons ⟨t, .start⟩ s)
          (.cons ⟨.symbol .semicolon, .start⟩ (.finish .start)))).Reads
      (.assign (.variable .local "a" []) (some .add)
        (.conditional
          (.binary (.arith .sub) (.number 7) (.binary (.arith .sub) (.number 2) (.number 1)))
          (.read (.field (.bareword "o") "x" []))
          (.unary .negate (.bareword "b"))))
      (.cons ⟨.symbol .semicolon, .start⟩ (.finish .start)) := by
  refine expression_reads_tokens ⟨fun x => if x == 7 then "7" else if x == 2 then "2" else "1",
    fun way => if way = [1, 1] then 2 else 0⟩ _ ?_ ?_ rfl ?_
  · intro x hx
    simp only [Expr.leaves, Place.leaves, leavesOfList, List.cons_append, List.nil_append,
      List.mem_cons, List.not_mem_nil, or_false, Leaf.number.injEq, reduceCtorEq, false_or] at hx
    rcases hx with rfl | rfl | rfl <;> rfl
  · exact begins_foldr _ _ _
  · rintro t s' ⟨⟩
    decide

end TorqueScript
