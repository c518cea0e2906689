import TorqueScript.Proofs.Program.Precedence
import TorqueScript.Proofs.Token.Literals

/-!
Printed expressions are spellings of the grammar. What is printed after an expression
cannot be taken as part of its last token, so the texts of the parts are read one
after the other.
-/

namespace TorqueScript

open Text Scan Parse

/-- `rest` goes on neither with a name nor with a path nor with a numeral. -/
structure Boundary (rest : List Char) : Prop where
  path : NoPath rest
  point : ∀ cs, rest = '.' :: cs → startsWith Char.isDigit cs = false

theorem Boundary.name {rest : List Char} (h : Boundary rest) : NoName rest :=
  startsWith_mono (by simp +contextual) h.path

theorem Boundary.numeral {rest : List Char} (h : Boundary rest) : NoNumeral rest :=
  ⟨h.name, h.point⟩

/-- A character with which no token goes on. -/
def parts (c : Char) : Bool :=
  !isNameChar c && c != ':' && c != '.'

theorem boundary_of_parts {rest : List Char} (h : startsWith parts rest = true) :
    Boundary rest where
  path := startsWith_of_disjoint (by simp +contextual [parts]) h
  point := by
    rintro cs rfl
    cases h

theorem boundary_dot {rest : List Char} (h : startsWith isLetter rest = true) :
    Boundary ('.' :: rest) where
  path := rfl
  point := by
    rintro cs heq
    cases heq
    exact noDigit_of_letter h

/-- The text is read as the phrase before everything that cannot be part of it. -/
def Written (phrase : Phrase) (text : String) : Prop :=
  ∀ rest, Boundary rest → Takes (Spells phrase) text.toList rest

theorem IsName.startsWith_append {name : String} (h : IsName name) {rest : List Char} :
    startsWith isLetter (name.toList ++ rest) = true := by
  obtain ⟨c, cs, hname, hc, -⟩ := h.word
  rw [hname]
  exact hc

/-- The leaves that have a printed form which is read as themselves. -/
def Leaf.Printable : Leaf → Prop
  | .number x =>
    IsNumeral (Number.toNumeral x).toList ∧ Number.ofLiteral? (Number.toNumeral x).toList = some x
  | .text s => IsQuotable s
  | .name s => IsName s
  | .variable scope path => IsVariable scope path
  | .switch => False

theorem BinaryOp.render_eq (op : BinaryOp) : op.render = op.token.spelling := by
  cases op with
  | arith op => cases op <;> rfl
  | _ => rfl

theorem BinaryOp.isFixed_token (op : BinaryOp) : op.token.isFixed = true := by
  cases op with
  | arith op => cases op <;> rfl
  | _ => rfl

theorem render_assign (op : Option Arith) :
    (op.map Arith.render).getD "" ++ "=" = (assignToken op).spelling := by
  cases op with
  | none => rfl
  | some op => cases op <;> rfl

theorem isFixed_assignToken (op : Option Arith) : (assignToken op).isFixed = true := by
  cases op with
  | none => rfl
  | some op => cases op <;> rfl

/-- A text that makes no longer symbol of the sign before it. -/
def Leads (cs : List Char) : Prop :=
  (∃ c cs', cs = c :: cs' ∧ c ∉ ['=', '-', '$']) ∨ ∃ c cs', cs = '$' :: c :: cs' ∧ c ≠ '='

theorem Leads.append {cs rest : List Char} (h : Leads cs) : Leads (cs ++ rest) := by
  rcases h with ⟨c, cs', rfl, hc⟩ | ⟨c, cs', rfl, hc⟩
  · exact .inl ⟨c, cs' ++ rest, rfl, hc⟩
  · exact .inr ⟨c, cs' ++ rest, rfl, hc⟩

theorem IsName.leads {name : String} (h : IsName name) : Leads name.toList := by
  obtain ⟨c, cs, hname, hc, -⟩ := h.word
  refine .inl ⟨c, cs, hname, ?_⟩
  simp only [List.mem_cons, List.not_mem_nil, or_false]
  rintro (rfl | rfl | rfl) <;> cases hc

theorem IsVariable.leads {scope : Scope} {name : String} (h : IsVariable scope name) :
    Leads (scope.sign ++ name).toList := by
  cases scope with
  | «local» => exact .inl ⟨'%', name.toList, by simp [Scope.sign], by decide⟩
  | global =>
    have hstart := h.start
    cases hname : name.toList with
    | nil => simp [hname, startsWith] at hstart
    | cons c cs =>
      refine .inr ⟨c, cs, by simp [Scope.sign, hname], ?_⟩
      rintro rfl
      rw [hname] at hstart
      cases hstart

theorem lexes_unary (op : UnaryOp) {rest : List Char} (h : Leads rest) :
    Lexes op.render.toList [op.token] rest := by
  obtain ⟨x, hx, hrender, htoken⟩ : ∃ x ∈ [Symbol.bang, .minus, .tilde],
      op.render = x.spelling ∧ op.token = .symbol x := by
    cases op with
    | not => exact ⟨.bang, by simp, rfl, rfl⟩
    | negate => exact ⟨.minus, by simp, rfl, rfl⟩
    | complement => exact ⟨.tilde, by simp, rfl, rfl⟩
  have hplain : x ≠ .dot ∧ x ∉ ambiguous ∧ x.extenders ⊆ ['=', '-', '$'] := by
    simp only [List.mem_cons, List.not_mem_nil, or_false] at hx
    rcases hx with rfl | rfl | rfl <;> decide +kernel
  rw [hrender, htoken]
  refine lexes_symbol hplain.1 (fun h => absurd h hplain.2.1) ?_
  rcases h with ⟨c, cs, rfl, hc⟩ | ⟨c, cs, rfl, hc⟩
  · exact leading?_append (decide_eq_false fun hmem => hc (hplain.2.2 hmem))
  · exact leading?_dollar hx (beq_eq_false_iff_ne.2 hc)

section

variable {l r c e : Expr} {p : Place} {es : List Expr} {a b d : String} {m : Level}

theorem Written.loosen {m' : Level} (h : Written (.expression m e) a) (hm : m' ≤ m) :
    Written (.expression m' e) a :=
  fun rest hrest => (h rest hrest).mono fun _ _ hspell => hspell.loosen hm

/-- What stands in parentheses is read first. -/
theorem takes_parentheses {R R' : Stream → Stream → Prop} {rest : List Char}
    (h : Takes R a.toList (')' :: rest))
    (hR : ∀ {p q s t}, R s (.cons ⟨.symbol .closeParen, q⟩ t) →
      R' (.cons ⟨.symbol .openParen, p⟩ s) t) :
    Takes R' ("(" ++ a ++ ")").toList rest := by
  have hall := (lexes_openParen.seq (h.seq lexes_closeParen)).mono fun s t => by
    rintro ⟨_, ⟨p, _, rfl, rfl⟩, _, hinner, q, _, rfl, rfl⟩
    exact hR (p := p) hinner
  simpa using hall

theorem Written.parenthesized (h : Written (.expression Level.assignment e) a) :
    Written (.expression m e) ("(" ++ a ++ ")") :=
  fun rest _ => takes_parentheses (h (')' :: rest) (boundary_of_parts rfl)) .parenthesized

theorem written_unary (op : UnaryOp) (hlead : Leads a.toList)
    (he : Written (.expression Level.unary e) a) :
    Written (.expression Level.assignment (.unary op e)) (op.render ++ a) := by
  intro rest hrest
  have hop : Lexes op.render.toList [op.token] (a.toList ++ rest) := lexes_unary op hlead.append
  have hall := (hop.seq (he rest hrest)).mono fun s t => by
    rintro ⟨_, ⟨p, _, rfl, rfl⟩, he⟩
    exact Spells.unary (m := Level.assignment) (by decide) he
  simpa using hall

theorem written_binary (op : BinaryOp) (hl : Written (.expression op.rank l) a)
    (hr : Written (.expression (op.rank + 1) r) b) :
    Written (.expression Level.assignment (.binary op l r))
      (a ++ " " ++ op.render ++ " " ++ b) := by
  intro rest hrest
  have hop : Lexes _ [op.token] (b.toList ++ rest) := lexes_spaced op.isFixed_token
  have hrank : Level.assignment ≤ op.rank :=
    Nat.le_of_lt (Nat.lt_of_succ_lt op.conditional_lt_rank)
  have hall := ((hl _ (boundary_of_parts rfl)).seq (hop.seq (hr rest hrest))).mono fun s t => by
    rintro ⟨_, hl, _, ⟨p, _, rfl, rfl⟩, hr⟩
    exact Spells.binary hrank hl hr
  simpa [op.render_eq] using hall

theorem written_conditional (hc : Written (.expression (Level.conditional + 1) c) d)
    (hl : Written (.expression Level.assignment l) a)
    (hr : Written (.expression Level.conditional r) b) :
    Written (.expression Level.assignment (.conditional c l r))
      (d ++ " ? " ++ a ++ " : " ++ b) := by
  intro rest hrest
  have hquestion : ∀ rest, Lexes [' ', '?', ' '] [.symbol .question] rest := fun _ =>
    lexes_spaced (t := .symbol .question) rfl
  have hafter := (hl _ (boundary_of_parts rfl)).seq (lexes_colon.seq (hr rest hrest))
  have hall := ((hc _ (boundary_of_parts rfl)).seq ((hquestion _).seq hafter)).mono fun s t => by
    rintro ⟨_, hc, _, ⟨p, _, rfl, rfl⟩, _, hl, _, ⟨q, _, rfl, rfl⟩, hr⟩
    exact Spells.conditional (m := Level.assignment) (by decide) hc hl hr
  simpa using hall

theorem written_assign (op : Option Arith) (hp : Written (.expression Level.access (.read p)) a)
    (hv : Written (.expression Level.assignment e) b) :
    Written (.expression Level.assignment (.assign p op e))
      (a ++ " " ++ (op.map Arith.render).getD "" ++ "= " ++ b) := by
  intro rest hrest
  have hop : Lexes _ [assignToken op] (b.toList ++ rest) := lexes_spaced (isFixed_assignToken op)
  rw [← render_assign] at hop
  have hall := ((hp _ (boundary_of_parts rfl)).seq (hop.seq (hv rest hrest))).mono fun s t => by
    rintro ⟨_, hp, _, ⟨q, _, rfl, rfl⟩, hv⟩
    exact Spells.assign (Nat.le_refl _) hp hv
  simpa using hall

theorem written_step (op : StepOp) (hp : Written (.expression Level.access (.read p)) a) :
    Written (.expression Level.assignment (.step p op)) (a ++ op.render) := by
  intro rest hrest
  have hop : Lexes op.render.toList [op.token] rest := by
    cases op with
    | increment => exact lexes_solid (x := .increment) (by decide)
    | decrement => exact lexes_solid (x := .decrement) (by decide)
  have hparts : startsWith parts (op.render.toList ++ rest) = true := by
    cases op <;> rfl
  have hall := ((hp _ (boundary_of_parts hparts)).seq hop).mono fun s t => by
    rintro ⟨_, hp, q, _, rfl, rfl⟩
    exact Spells.step (m := Level.assignment) (by decide) hp
  simpa using hall

theorem written_arguments (h : Written (.elements es) a) :
    Written (.arguments es) ("(" ++ a ++ ")") :=
  fun rest _ => takes_parentheses (h (')' :: rest) (boundary_of_parts rfl)) .arguments

/-- A name after a dot. -/
theorem lexes_member {name : String} (hname : IsName name) {rest : List Char}
    (hrest : NoName rest) : Lexes ('.' :: name.toList) [.symbol .dot, .name name] rest :=
  (lexes_dot (noDigit_of_letter hname.startsWith_append)).append (lexes_name hname hrest)

theorem noName_arguments {rest : List Char} : NoName (("(" ++ a ++ ")").toList ++ rest) := by
  have htext : ("(" ++ a ++ ")").toList ++ rest = '(' :: (a.toList ++ ')' :: rest) := by simp
  rw [htext]
  rfl

theorem written_call {name : String} (hname : IsName name) (h : Written (.elements es) a) :
    Written (.expression m (.call none name es)) (name ++ ("(" ++ a ++ ")")) := by
  intro rest hrest
  have hargs := written_arguments h rest hrest
  have hall := ((lexes_name hname noName_arguments).seq hargs).mono fun s t => by
    rintro ⟨_, ⟨p, _, rfl, rfl⟩, hargs⟩
    exact Spells.call (m := m) hargs
  simpa using hall

theorem written_qualifiedCall {qualifier name : String} (hq : IsName qualifier)
    (hname : IsName name) (h : Written (.elements es) a) :
    Written (.expression m (.call (some qualifier) name es))
      (qualifier ++ "::" ++ name ++ ("(" ++ a ++ ")")) := by
  intro rest hrest
  have hargs := written_arguments h rest hrest
  have hlast := (lexes_name hname noName_arguments).seq hargs
  have hall := ((lexes_name hq (by exact rfl)).seq (lexes_doubleColon.seq hlast)).mono fun s t => by
    rintro ⟨_, ⟨p, _, rfl, rfl⟩, _, ⟨q, _, rfl, rfl⟩, _, ⟨r, _, rfl, rfl⟩, hargs⟩
    exact Spells.qualifiedCall (m := m) hargs
  simpa using hall

theorem written_method {name : String} (ho : Written (.expression Level.access e) a)
    (hname : IsName name) (h : Written (.elements es) b) :
    Written (.expression Level.access (.method e name es))
      (a ++ "." ++ name ++ ("(" ++ b ++ ")")) := by
  intro rest hrest
  have hargs := written_arguments h rest hrest
  have hlast := (lexes_member hname noName_arguments).seq hargs
  have hdot : Boundary (('.' :: name.toList ++ ("(" ++ b ++ ")").toList) ++ rest) := by
    rw [List.append_assoc]
    exact boundary_dot hname.startsWith_append
  have hall := ((ho _ hdot).seq hlast).mono fun s t => by
    rintro ⟨_, ho, _, ⟨p, _, rfl, q, _, rfl, rfl⟩, hargs⟩
    exact Spells.method (Nat.le_refl _) ho hargs
  simpa using hall

/-- Subscripts end what comes before them as well as any other text does. -/
theorem boundary_subscripts {rest : List Char} (hrest : Boundary rest) (es : List Expr) :
    Boundary ((renderSubscripts es).toList ++ rest) := by
  cases es with
  | nil => simpa [renderSubscripts] using hrest
  | cons e es =>
    refine boundary_of_parts ?_
    simp only [renderSubscripts, String.toList_append, List.append_assoc]
    rfl

theorem written_subscripts (h : Written (.elements es) (renderList ", " es)) :
    Written (.subscripts es) (renderSubscripts es) := by
  intro rest hrest
  cases es with
  | nil =>
    intro p
    simp only [renderSubscripts]
    exact ⟨p, .noSubscripts⟩
  | cons e es =>
    have hlist := h (']' :: rest) (boundary_of_parts rfl)
    have hall := (lexes_openBracket.seq (hlist.seq lexes_closeBracket)).mono fun s t => by
      rintro ⟨_, ⟨p, _, rfl, rfl⟩, _, hlist, q, _, rfl, rfl⟩
      exact Spells.subscripts hlist
    simpa [renderSubscripts] using hall

theorem written_variable {scope : Scope} {name : String} (hname : IsVariable scope name)
    (h : Written (.subscripts es) (renderSubscripts es)) :
    Written (.expression m (.read (.variable scope name es)))
      (scope.sign ++ name ++ renderSubscripts es) := by
  intro rest hrest
  have hend := boundary_subscripts hrest es
  have hall := ((lexes_variable hname hend.path).seq (h rest hrest)).mono fun s t => by
    rintro ⟨_, ⟨p, _, rfl, rfl⟩, hsubs⟩
    exact Spells.variable (m := m) hsubs
  simpa using hall

theorem written_field {name : String} (ho : Written (.expression Level.access e) a)
    (hname : IsName name) (h : Written (.subscripts es) (renderSubscripts es)) :
    Written (.expression Level.access (.read (.field e name es)))
      (a ++ "." ++ name ++ renderSubscripts es) := by
  intro rest hrest
  have hend := boundary_subscripts hrest es
  have hdot : Boundary (('.' :: name.toList ++ (renderSubscripts es).toList) ++ rest) := by
    rw [List.append_assoc]
    exact boundary_dot hname.startsWith_append
  have hlast := (lexes_member hname hend.name).seq (h rest hrest)
  have hall := ((ho _ hdot).seq hlast).mono fun s t => by
    rintro ⟨_, ho, _, ⟨p, _, rfl, q, _, rfl, rfl⟩, hsubs⟩
    exact Spells.field (Nat.le_refl _) ho hsubs
  simpa using hall

theorem written_next (he : Written (.expression Level.assignment e) a)
    (hes : Written (.elements (l :: es)) b) :
    Written (.elements (e :: l :: es)) (a ++ ", " ++ b) := by
  intro rest hrest
  have hall := ((he _ (boundary_of_parts rfl)).seq (lexes_comma.seq (hes rest hrest))).mono
    fun s t => by
      rintro ⟨_, he, _, ⟨p, _, rfl, rfl⟩, hes⟩
      cases hes with
      | elements hes => exact Spells.elements (.next he hes)
  simpa using hall

theorem written_computed (h : Written (.expression Level.assignment e) a) :
    Written (.classRef (.computed e)) ("(" ++ a ++ ")") :=
  fun rest _ => takes_parentheses (h (')' :: rest) (boundary_of_parts rfl)) .computed

end

/-- The content of a block is read up to the closing brace. -/
def Filled (fields : List FieldInit) (children : List ObjectDecl) (text : String) : Prop :=
  ∀ rest, Takes (Spells (.items fields children)) text.toList rest

section

variable {c : ClassRef} {o : Option Expr} {d : ObjectDecl} {e : Expr} {es : List Expr}
  {fields : List FieldInit} {children : List ObjectDecl} {a b : String}

theorem filled_close : Filled [] [] " \x7d" := by
  intro rest
  refine lexes_blank_closeBrace.mono fun s t => ?_
  rintro ⟨p, _, rfl, rfl⟩
  exact .close .none

theorem filled_field {name : String} (hname : IsName name)
    (hsubs : Written (.subscripts es) (renderSubscripts es))
    (hvalue : Written (.expression Level.assignment e) a) (h : Filled fields children b) :
    Filled (⟨name, es, e⟩ :: fields) children
      (" " ++ name ++ renderSubscripts es ++ " = " ++ a ++ ";" ++ b) := by
  intro rest
  have hassign : ∀ rest, Lexes [' ', '=', ' '] [.symbol .assign] rest := fun _ =>
    lexes_spaced (t := .symbol .assign) rfl
  have hafter := (hvalue _ (boundary_of_parts (by rfl))).seq (lexes_semicolon.seq (h rest))
  have hblank : Boundary (([' ', '=', ' '] ++ (a.toList ++ ([';'] ++ b.toList))) ++ rest) :=
    boundary_of_parts rfl
  have hplace := (hsubs _ hblank).seq ((hassign _).seq hafter)
  have hend := (boundary_subscripts hblank es).name
  rw [← List.append_assoc] at hend
  have hhead := (lexes_blank (c := ' ') rfl).append (lexes_name hname hend)
  have hall := (hhead.seq hplace).mono fun s t => by
    rintro ⟨_, ⟨p, _, rfl, rfl⟩, _, hsubs, _, ⟨q, _, rfl, rfl⟩, _, hvalue, _, ⟨r, _, rfl, rfl⟩, h⟩
    exact Spells.fieldValue .none hsubs hvalue h
  simpa using hall

theorem filled_child (hd : Written (.creation d) a) (h : Filled [] children b) :
    Filled [] (d :: children) (" " ++ a ++ ";" ++ b) := by
  intro rest
  have hchild := (hd _ (boundary_of_parts (by rfl))).seq (lexes_semicolon.seq (h rest))
  have hall := ((lexes_blank (c := ' ') rfl).seq hchild).mono fun s t => by
    rintro ⟨_, rfl, _, hd, _, ⟨p, _, rfl, rfl⟩, h⟩
    exact Spells.object .none hd h
  simpa using hall

theorem lexes_new {rest : List Char} : Lexes ['n', 'e', 'w', ' '] [.keyword .new] rest :=
  lexes_fixed (t := .keyword .new) rfl

theorem written_bare (hc : Written (.classRef c) a) (ho : Written (.optional o) b) :
    Written (.creation ⟨c, o, [], []⟩) ("new " ++ a ++ "(" ++ b ++ ")") := by
  intro rest _
  have hid := lexes_openParen.seq ((ho (')' :: rest) (boundary_of_parts rfl)).seq lexes_closeParen)
  have hall := (lexes_new.seq ((hc _ (boundary_of_parts rfl)).seq hid)).mono fun s t => by
    rintro ⟨_, ⟨p, _, rfl, rfl⟩, _, hc, _, ⟨q, _, rfl, rfl⟩, _, ho, r, _, rfl, rfl⟩
    exact Spells.bare hc ho
  simpa using hall

theorem written_filled (hc : Written (.classRef c) a) (ho : Written (.optional o) b)
    {text : String} (h : Filled fields children text) :
    Written (.creation ⟨c, o, fields, children⟩)
      ("new " ++ a ++ "(" ++ b ++ ")" ++ " \x7b" ++ text) := by
  intro rest _
  have hblock := lexes_closeParen.seq (lexes_blank_openBrace.seq (h rest))
  have hid := lexes_openParen.seq ((ho _ (boundary_of_parts (by rfl))).seq hblock)
  have hall := (lexes_new.seq ((hc _ (boundary_of_parts rfl)).seq hid)).mono fun s t => by
    rintro ⟨_, ⟨p, _, rfl, rfl⟩, _, hc, _, ⟨q, _, rfl, rfl⟩, _, ho, _, ⟨r, _, rfl, rfl⟩, _,
      ⟨o, _, rfl, rfl⟩, h⟩
    exact Spells.filled hc ho h
  simpa using hall

end

mutual

theorem Expr.leads_render : (e : Expr) → (∀ l ∈ e.leaves, l.Printable) → Leads e.render.toList
  | .number x, h => by
    obtain ⟨hnumeral, -⟩ := h (.number x) (by simp [Expr.leaves])
    obtain ⟨c, cs, htext, hc⟩ := hnumeral.exists_digit
    refine .inl ⟨c, cs, by simpa [Expr.render] using htext, ?_⟩
    simp only [List.mem_cons, List.not_mem_nil, or_false]
    rintro (rfl | rfl | rfl) <;> cases hc
  | .text s, _ => .inl ⟨'\x22', s.toList ++ ['\x22'], by simp [Expr.render], by decide⟩
  | .bareword s, h => by
    simpa [Expr.render] using (h (.name s) (by simp [Expr.leaves]) : IsName s).leads
  | .read p, h => by simpa [Expr.render] using p.leads_render h
  | .unary .., _ | .binary .., _ | .conditional .., _ | .assign .., _ | .step .., _ =>
    .inl ⟨'(', _, by simp [Expr.render]; rfl, by decide⟩
  | .call none name args, h => by
    have hname : IsName name := h (.name name) (by simp [Expr.leaves])
    simpa [Expr.render, qualified] using hname.leads.append
  | .call (some q) name args, h => by
    have hq : IsName q := h (.name q) (by simp [Expr.leaves])
    simpa [Expr.render, qualified] using hq.leads.append
  | .method e name args, h => by
    have he := e.leads_render fun l hl => h l (by simp [Expr.leaves, hl])
    simpa [Expr.render] using he.append
  | .create ⟨c, name, fields, children⟩, _ => by
    simp only [Expr.render, ObjectDecl.render]
    split <;> exact .inl ⟨'n', _, by simp; rfl, by decide⟩

theorem Place.leads_render : (p : Place) → (∀ l ∈ p.leaves, l.Printable) → Leads p.render.toList
  | .variable scope name subs, h => by
    have hname : IsVariable scope name := h (.variable scope name) (by simp [Place.leaves])
    simpa [Place.render] using (hname.leads).append
  | .field e name subs, h => by
    have he := e.leads_render fun l hl => h l (by simp [Place.leaves, hl])
    simpa [Place.render] using he.append

end

mutual

theorem Expr.written_render : (e : Expr) → (∀ l ∈ e.leaves, l.Printable) →
    Written (.expression Level.access e) e.render
  | .number x, h => by
    obtain ⟨hnumeral, hread⟩ := h (.number x) (by simp [Expr.leaves])
    intro rest hrest
    rw [Expr.render]
    refine (lexes_numeral hnumeral hrest.numeral).mono fun s t => ?_
    rintro ⟨p, _, rfl, rfl⟩
    exact .number hread
  | .text s, h => by
    have htext : IsQuotable s := h (.text s) (by simp [Expr.leaves])
    intro rest _
    rw [Expr.render]
    refine (lexes_text htext).mono fun s t => ?_
    rintro ⟨p, _, rfl, rfl⟩
    exact .text
  | .bareword s, h => by
    have hname : IsName s := h (.name s) (by simp [Expr.leaves])
    intro rest hrest
    rw [Expr.render]
    refine (lexes_name hname hrest.name).mono fun s t => ?_
    rintro ⟨p, _, rfl, rfl⟩
    exact .bareword
  | .read p, h => by
    rw [Expr.render]
    exact p.written_render h
  | .unary op e, h => by
    have he := e.written_render h
    have hall := (written_unary op (e.leads_render h) (he.loosen (by decide))).parenthesized
      (m := Level.access)
    simpa only [Expr.render, String.append_assoc] using hall
  | .binary op l r, h => by
    obtain ⟨hl, hr⟩ := List.forall_mem_append.1 h
    have hrank : op.rank + 1 ≤ Level.access :=
      Nat.succ_le_of_lt (Nat.lt_of_lt_of_le op.rank_lt_unary (by decide))
    have hall := (written_binary op ((l.written_render hl).loosen (Nat.le_of_succ_le hrank))
      ((r.written_render hr).loosen hrank)).parenthesized (m := Level.access)
    simpa only [Expr.render, String.append_assoc] using hall
  | .conditional c a b, h => by
    obtain ⟨hca, hb⟩ := List.forall_mem_append.1 h
    obtain ⟨hc, ha⟩ := List.forall_mem_append.1 hca
    have hall := (written_conditional ((c.written_render hc).loosen (by decide))
      ((a.written_render ha).loosen (by decide))
      ((b.written_render hb).loosen (by decide))).parenthesized (m := Level.access)
    simpa only [Expr.render, String.append_assoc] using hall
  | .assign p op v, h => by
    obtain ⟨hp, hv⟩ := List.forall_mem_append.1 h
    have hall := (written_assign op (p.written_render hp)
      ((v.written_render hv).loosen (by decide))).parenthesized (m := Level.access)
    simpa only [Expr.render, String.append_assoc] using hall
  | .step p op, h => by
    have hall := (written_step op (p.written_render h)).parenthesized (m := Level.access)
    simpa only [Expr.render, String.append_assoc] using hall
  | .call none name args, h => by
    obtain ⟨hname, hargs⟩ := List.forall_mem_cons.1 h
    have hall := written_call (m := Level.access) hname (written_renderList args hargs)
    simpa only [Expr.render, qualified, String.append_assoc] using hall
  | .call (some q) name args, h => by
    obtain ⟨hq, h⟩ := List.forall_mem_cons.1 h
    obtain ⟨hname, hargs⟩ := List.forall_mem_cons.1 h
    have hall := written_qualifiedCall (m := Level.access) hq hname (written_renderList args hargs)
    simpa only [Expr.render, qualified, String.append_assoc] using hall
  | .method e name args, h => by
    obtain ⟨he, h⟩ := List.forall_mem_append.1 h
    obtain ⟨hname, hargs⟩ := List.forall_mem_cons.1 h
    have hall := written_method (e.written_render he) hname (written_renderList args hargs)
    simpa only [Expr.render, String.append_assoc] using hall
  | .create d, h => by
    intro rest hrest
    rw [Expr.render]
    exact (d.written_render h rest hrest).mono fun _ _ => .create

theorem Place.written_render : (p : Place) → (∀ l ∈ p.leaves, l.Printable) →
    Written (.expression Level.access (.read p)) p.render
  | .variable scope name subs, h => by
    obtain ⟨hname, hsubs⟩ := List.forall_mem_cons.1 h
    rw [Place.render]
    exact written_variable hname (written_subscripts (written_renderList subs hsubs))
  | .field e name subs, h => by
    obtain ⟨he, h⟩ := List.forall_mem_append.1 h
    obtain ⟨hname, hsubs⟩ := List.forall_mem_cons.1 h
    rw [Place.render]
    exact written_field (e.written_render he) hname
      (written_subscripts (written_renderList subs hsubs))

theorem written_renderList : (es : List Expr) → (∀ l ∈ leavesOfList es, l.Printable) →
    Written (.elements es) (renderList ", " es)
  | [], _ => by
    intro rest _ p
    simp only [renderList]
    exact ⟨p, .noElements⟩
  | [e], h => by
    have he : Written (.expression Level.assignment e) e.render :=
      (e.written_render (List.forall_mem_append.1 h).1).loosen (by decide)
    intro rest hrest
    rw [renderList]
    exact (he rest hrest).mono fun _ _ he => .elements (.last he)
  | e :: e' :: es, h => by
    obtain ⟨he, hes⟩ := List.forall_mem_append.1 h
    rw [renderList]
    · exact written_next ((e.written_render he).loosen (by decide))
        (written_renderList (e' :: es) hes)
    · simp

theorem ClassRef.written_render : (c : ClassRef) → (∀ l ∈ c.leaves, l.Printable) →
    Written (.classRef c) c.render
  | .named name, h => by
    have hname : IsName name := h (.name name) (by simp [ClassRef.leaves])
    intro rest hrest
    rw [ClassRef.render]
    refine (lexes_name hname hrest.name).mono fun s t => ?_
    rintro ⟨p, _, rfl, rfl⟩
    exact .named
  | .computed e, h => by
    rw [ClassRef.render]
    exact written_computed ((e.written_render h).loosen (by decide))

theorem written_renderOption : (o : Option Expr) → (∀ l ∈ leavesOfOption o, l.Printable) →
    Written (.optional o) (renderOption o)
  | none, _ => by
    intro rest _ p
    simp only [renderOption]
    exact ⟨p, .absent⟩
  | some e, h => by
    have he : Written (.expression Level.assignment e) e.render :=
      (e.written_render h).loosen (by decide)
    intro rest hrest
    rw [renderOption]
    exact (he rest hrest).mono fun _ _ => .present

theorem ObjectDecl.written_render : (d : ObjectDecl) → (∀ l ∈ d.leaves, l.Printable) →
    Written (.creation d) d.render
  | ⟨c, name, fields, children⟩, h => by
    obtain ⟨h, hchildren⟩ := List.forall_mem_append.1 h
    obtain ⟨h, hfields⟩ := List.forall_mem_append.1 h
    obtain ⟨hc, hname⟩ := List.forall_mem_append.1 h
    have hc := c.written_render hc
    have hname := written_renderOption name hname
    rw [ObjectDecl.render]
    split
    · rename_i hempty
      simp only [Bool.and_eq_true, List.isEmpty_iff] at hempty
      obtain ⟨rfl, rfl⟩ := hempty
      exact written_bare hc hname
    · have hblock := filled_renderFields fields hfields _ _
        (filled_renderChildren children hchildren _ filled_close)
      simpa only [String.append_assoc] using written_filled hc hname hblock

theorem filled_renderFields : (fields : List FieldInit) →
    (∀ l ∈ leavesOfFields fields, l.Printable) → ∀ (children : List ObjectDecl) (text : String),
      Filled [] children text → Filled fields children (renderFields fields ++ text)
  | [], _ => by
    intro children text htext
    simpa [renderFields] using htext
  | ⟨name, subs, value⟩ :: fields, h => by
    intro children text htext
    obtain ⟨h, hfields⟩ := List.forall_mem_append.1 h
    obtain ⟨h, hvalue⟩ := List.forall_mem_append.1 h
    obtain ⟨hname, hsubs⟩ := List.forall_mem_cons.1 h
    have hall := filled_field hname (written_subscripts (written_renderList subs hsubs))
      ((value.written_render hvalue).loosen (by decide))
      (filled_renderFields fields hfields _ _ htext)
    simpa only [renderFields, String.append_assoc] using hall

theorem filled_renderChildren : (children : List ObjectDecl) →
    (∀ l ∈ leavesOfChildren children, l.Printable) → ∀ text : String,
      Filled [] [] text → Filled [] children (renderChildren children ++ text)
  | [], _ => by
    intro text htext
    simpa [renderChildren] using htext
  | d :: children, h => by
    intro text htext
    obtain ⟨hd, hchildren⟩ := List.forall_mem_append.1 h
    have hall := filled_child (d.written_render hd)
      (filled_renderChildren children hchildren _ htext)
    simpa only [renderChildren, String.append_assoc] using hall

end

end TorqueScript
