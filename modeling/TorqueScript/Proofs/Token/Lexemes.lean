import TorqueScript.Proofs.Program.Grammar
import TorqueScript.Program.Render

/-!
Texts that are read as given tokens. A piece of text is read the same wherever it
stands, as long as what follows cannot be taken as part of it; the pieces of a text
are put together in order. The lemmas here are about words, variables and symbols.
-/

namespace TorqueScript

open Text Scan

/-- The tokens of `cs` before `rest` are related to those of `rest`, at any position. -/
def Takes (R : Stream → Stream → Prop) (cs rest : List Char) : Prop :=
  ∀ p, ∃ p', R (.ofCursor ⟨cs ++ rest, p⟩) (.ofCursor ⟨rest, p'⟩)

theorem Takes.mono {R R' : Stream → Stream → Prop} {cs rest : List Char} (h : Takes R cs rest)
    (hR : ∀ s t, R s t → R' s t) : Takes R' cs rest := by
  intro p
  obtain ⟨p', hp'⟩ := h p
  exact ⟨p', hR _ _ hp'⟩

theorem Takes.seq {R R' : Stream → Stream → Prop} {cs cs' rest : List Char}
    (h : Takes R cs (cs' ++ rest)) (h' : Takes R' cs' rest) :
    Takes (fun s t => ∃ mid, R s mid ∧ R' mid t) (cs ++ cs') rest := by
  intro p
  obtain ⟨q, hq⟩ := h p
  obtain ⟨p', hp'⟩ := h' q
  rw [List.append_assoc]
  exact ⟨p', _, hq, hp'⟩

/-- The text `cs` before `rest` is read as the tokens `ts`. -/
def Lexes (cs : List Char) (ts : List Token) (rest : List Char) : Prop :=
  Takes (Begins ts) cs rest

namespace Stream

theorem ofCursor_finish {c : Cursor} (h : c.skipGap.rest = []) :
    ofCursor c = .finish c.skipGap.position := by
  rw [ofCursor]
  split
  · rfl
  · simp_all

theorem ofCursor_token {c : Cursor} {d : Char} {ds : List Char} {t : Token} {n : Nat}
    (h : c.skipGap.rest = d :: ds) (hlex : lexeme d ds = .ok (t, n)) :
    ofCursor c = .cons ⟨t, c.skipGap.position⟩
      (ofCursor ⟨ds.drop n, c.skipGap.position.after (d :: ds.take n)⟩) := by
  rw [ofCursor]
  split
  · simp_all
  · rename_i hcons
    obtain ⟨rfl, rfl⟩ := List.cons.inj (h.symm.trans hcons)
    simp [hlex]

theorem ofCursor_failure {c : Cursor} {d : Char} {ds : List Char} {e : Defect} {n : Nat}
    (h : c.skipGap.rest = d :: ds) (hlex : lexeme d ds = .error (e, n)) :
    ofCursor c = .failure ⟨e, c.skipGap.position⟩ := by
  rw [ofCursor]
  split
  · simp_all
  · rename_i hcons
    obtain ⟨rfl, rfl⟩ := List.cons.inj (h.symm.trans hcons)
    simp [hlex]

/-- Reading depends only on what stands after the gap. -/
theorem ofCursor_eq_of_skipGap {c d : Cursor} (h : c.skipGap = d.skipGap) :
    ofCursor c = ofCursor d := by
  cases hrest : d.skipGap.rest with
  | nil => rw [ofCursor_finish hrest, ofCursor_finish (h ▸ hrest), h]
  | cons x xs =>
    cases hlex : lexeme x xs with
    | ok r =>
      obtain ⟨t, n⟩ := r
      rw [ofCursor_token hrest hlex, ofCursor_token (h ▸ hrest) hlex, h]
    | error r =>
      obtain ⟨e, n⟩ := r
      rw [ofCursor_failure hrest hlex, ofCursor_failure (h ▸ hrest) hlex, h]

end Stream

theorem lexes_nil {rest : List Char} : Lexes [] [] rest :=
  fun p => ⟨p, rfl⟩

theorem Lexes.append {cs cs' rest : List Char} {ts ts' : List Token}
    (h : Lexes cs ts (cs' ++ rest)) (h' : Lexes cs' ts' rest) :
    Lexes (cs ++ cs') (ts ++ ts') rest :=
  (Takes.seq h h').mono fun _ _ => begins_append.2

/-- A blank is read as nothing. -/
theorem lexes_blank {c : Char} (hc : isGapBlank c = true) {rest : List Char} :
    Lexes [c] [] rest := by
  intro p
  refine ⟨p.step c, Stream.ofCursor_eq_of_skipGap ?_⟩
  simp only [Cursor.skipGap, List.singleton_append]
  rw [Cursor.skip.eq_def]
  simp [hc]

/-- A character at which no gap begins. -/
def OpensToken (c : Char) (cs : List Char) : Prop :=
  isGapBlank c = false ∧ (c = '/' → startsWith (fun d => d == '/' || d == '*') cs = false)

/-- A class of characters without blanks and the slash. -/
theorem opensToken_of_class {P : Char → Bool}
    (hP : [' ', '\t', '\n', '\r', '\x0c', '/'].any P = false) {c : Char} (hc : P c = true)
    (cs : List Char) : OpensToken c cs := by
  have hne : ∀ d ∈ [' ', '\t', '\n', '\r', '\x0c', '/'], c ≠ d := by
    rintro d hd rfl
    exact List.any_eq_false.1 hP c hd hc
  simp only [List.mem_cons, List.not_mem_nil, or_false, forall_eq_or_imp, forall_eq] at hne
  exact ⟨by simp [isGapBlank, hne], fun h => absurd h (by simp [hne])⟩

theorem skipGap_eq {c : Char} {cs : List Char} (h : OpensToken c cs) (p : Position) :
    (⟨c :: cs, p⟩ : Cursor).skipGap = ⟨c :: cs, p⟩ := by
  obtain ⟨hblank, hslash⟩ := h
  by_cases hc : c = '/'
  · subst hc
    cases cs with
    | nil => simp [Cursor.skipGap, Cursor.skip, hblank]
    | cons d ds =>
      have hd := hslash rfl
      simp only [startsWith, Bool.or_eq_false_iff, beq_eq_false_iff_ne] at hd
      simp [Cursor.skipGap, Cursor.skip, hblank, hd.1, hd.2]
  · rw [Cursor.skipGap, Cursor.skip.eq_def]
    simp [hblank, hc]

/-- A lexeme is read as its token. -/
theorem lexes_lexeme {c : Char} {cs rest : List Char} {t : Token}
    (hopen : OpensToken c (cs ++ rest)) (h : lexeme c (cs ++ rest) = .ok (t, cs.length)) :
    Lexes (c :: cs) [t] rest := by
  intro p
  have hskip := skipGap_eq hopen p
  refine ⟨p.after (c :: cs), p, _, ?_, rfl⟩
  rw [List.cons_append, Stream.ofCursor_token (by rw [hskip]) h, hskip]
  simp

/-- `rest` does not go on with a name. -/
def NoName (rest : List Char) : Prop :=
  startsWith isNameChar rest = false

/-- Letters and digits that make a name, which is no keyword. -/
structure IsName (name : String) : Prop where
  word : ∃ c cs, name.toList = c :: cs ∧ isLetter c = true ∧ ∀ d ∈ cs, isNameChar d = true
  plain : Keyword.ofName? name = none

/-- Reading on as long as a character fits stops at one that does not. -/
theorem takeWhile_append {P : Char → Bool} {cs rest : List Char} (hcs : ∀ c ∈ cs, P c = true)
    (hrest : startsWith P rest = false) : (cs ++ rest).takeWhile P = cs := by
  rw [List.takeWhile_append_of_pos hcs]
  cases rest with
  | nil => simp
  | cons d ds =>
    have hd : P d = false := hrest
    simp [hd]

theorem lexes_name {name : String} (h : IsName name) {rest : List Char} (hrest : NoName rest) :
    Lexes name.toList [.name name] rest := by
  obtain ⟨c, cs, hname, hc, hcs⟩ := h.word
  rw [hname]
  refine lexes_lexeme (opensToken_of_class (by decide) hc _) ?_
  have hword : String.ofList (c :: cs) = name := by rw [← hname, String.ofList_toList]
  simp [lexeme, hc, takeWhile_append hcs hrest, hword, h.plain]

/-- Keywords are words that stand for themselves. -/
theorem keyword_spelling_word :
    ∀ k ∈ Keyword.words, startsWith isLetter k.spelling.toList = true ∧
      k.spelling.toList.all isNameChar = true ∧ Keyword.ofName? k.spelling = some k := by
  decide

/-- A dollar sign after `switch` would be part of the keyword. -/
theorem lexes_keyword {k : Keyword} (hk : k ∈ Keyword.words) (hswitch : k ≠ .switch)
    {rest : List Char} (hrest : NoName rest) : Lexes k.spelling.toList [.keyword k] rest := by
  obtain ⟨hstart, hword, hname⟩ := keyword_spelling_word k hk
  cases hspell : k.spelling.toList with
  | nil => simp [hspell, startsWith] at hstart
  | cons c cs =>
    rw [hspell] at hstart hword
    have hc : isLetter c = true := hstart
    have hcs : ∀ d ∈ cs, isNameChar d = true := fun d hd =>
      List.all_eq_true.1 hword d (List.mem_cons_of_mem _ hd)
    refine lexes_lexeme (opensToken_of_class (by decide) hc _) ?_
    have hofList : String.ofList (c :: cs) = k.spelling := by rw [← hspell, String.ofList_toList]
    simp only [lexeme, hc, if_true, takeWhile_append hcs hrest, hofList, hname]

/-- `rest` does not go on with a path. -/
def NoPath (rest : List Char) : Prop :=
  startsWith (fun c => isNameChar c || c == ':') rest = false

theorem variablePath_eq_nil {rest : List Char} (hrest : NoPath rest) : variablePath rest = [] := by
  cases rest with
  | nil => rfl
  | cons c cs =>
    have hc : isNameChar c = false ∧ c ≠ ':' := by simpa [NoPath, startsWith] using hrest
    rw [variablePath.eq_def]
    simp [hc.1]
    split
    · exact absurd rfl hc.2
    · rfl

theorem variablePath_append {path rest : List Char} (hpath : variablePath path = path)
    (hrest : NoPath rest) : variablePath (path ++ rest) = path := by
  fun_induction variablePath path with
  | case1 => exact variablePath_eq_nil hrest
  | case2 c cs hc ih =>
    rw [List.cons_append, variablePath.eq_def]
    simp [hc, ih (List.cons.inj hpath).2]
  | case3 d cs hc hd ih =>
    simp only [List.cons.injEq, true_and] at hpath
    simp [variablePath, hc, hd, ih hpath]
  | case4 => cases hpath
  | case5 => cases hpath

/-- A path is read as a whole when it is read again. -/
theorem variablePath_idem (cs : List Char) : variablePath (variablePath cs) = variablePath cs := by
  fun_induction variablePath cs with
  | case1 => rfl
  | case2 c cs hc ih =>
    rw [variablePath.eq_def]
    simp [hc, ih]
  | case3 d cs hc hd ih => simp [variablePath, hc, hd, ih]
  | case4 => rfl
  | case5 => rfl

/-- The name of a variable: it begins as the sign of its scope demands and is read as a whole. -/
structure IsVariable (scope : Scope) (name : String) : Prop where
  start : startsWith (fun c => isLetter c || scope = .global && c == ':') name.toList = true
  path : variablePath name.toList = name.toList

theorem lexes_variable {scope : Scope} {name : String} (h : IsVariable scope name)
    {rest : List Char} (hrest : NoPath rest) :
    Lexes (scope.sign ++ name).toList [scope.token name] rest := by
  have hstart : ∀ P : Char → Bool, startsWith P name.toList = true →
      startsWith P (name.toList ++ rest) = true := by
    intro P hP
    cases hname : name.toList with
    | nil => simp [hname, startsWith] at hP
    | cons c cs => simpa [hname, startsWith] using hP
  have hpath := variablePath_append h.path hrest
  rw [String.toList_append]
  cases scope with
  | «local» =>
    have hlocal := hstart _ h.start
    have hletter : isLetter '%' = false := by decide
    have hdigit : Char.isDigit '%' = false := by decide
    simp only [reduceCtorEq, decide_false, Bool.false_and, Bool.or_false] at hlocal
    rw [show (Scope.sign .local).toList = ['%'] by decide, List.singleton_append]
    refine lexes_lexeme (opensToken_of_class (P := (· == '%')) (by decide) rfl _) ?_
    simp [lexeme, hletter, hdigit, hlocal, hpath, Scope.token]
  | global =>
    have hglobal := hstart _ h.start
    have hletter : isLetter '$' = false := by decide
    have hdigit : Char.isDigit '$' = false := by decide
    simp only [decide_true, Bool.true_and] at hglobal
    rw [show (Scope.sign .global).toList = ['$'] by decide, List.singleton_append]
    refine lexes_lexeme (opensToken_of_class (P := (· == '$')) (by decide) rfl _) ?_
    simp [lexeme, hletter, hdigit, hglobal, hpath, Scope.token]

theorem isLetter_of_isDigit {c : Char} (h : c.isDigit = true) : isLetter c = false := by
  have hunder : (c == '_') = false := by
    refine beq_eq_false_iff_ne.2 ?_
    rintro rfl
    exact absurd h (by decide)
  have hdigit : c.val ≤ '9'.val := by
    simp only [Char.isDigit, Bool.and_eq_true, decide_eq_true_eq] at h
    exact h.2
  have hupper : c.isUpper = false := by
    refine Bool.eq_false_iff.2 fun hc => ?_
    have hc : 'A'.val ≤ c.val := (of_decide_eq_true hc).1
    exact absurd (UInt32.le_trans hc hdigit) (by decide)
  have hlower : c.isLower = false := by
    refine Bool.eq_false_iff.2 fun hc => ?_
    have hc : 'a'.val ≤ c.val := of_decide_eq_true (Bool.and_eq_true_iff.1 hc).1
    exact absurd (UInt32.le_trans hc hdigit) (by decide)
  have halpha : c.isAlpha = (c.isUpper || c.isLower) := rfl
  rw [isLetter, halpha, hupper, hlower, hunder]
  rfl

theorem Symbol.mem_all (x : Symbol) : x ∈ Symbol.all := by
  cases x <;> decide

/-- The characters by which a symbol goes on to a longer one. -/
def Symbol.extenders (x : Symbol) : List Char :=
  Symbol.all.filterMap fun y =>
    if x.spelling.toList.isPrefixOf y.spelling.toList then
      (y.spelling.toList.drop x.spelling.toList.length).head?
    else none

theorem find?_spelling : ∀ x ∈ Symbol.all,
    Symbol.all.find? (fun y => y.spelling.toList.isPrefixOf x.spelling.toList) = some x := by
  decide

/-- What follows matters to a longer spelling only by its next character. -/
theorem isPrefixOf_append {ys xs rest : List Char}
    (h : xs.isPrefixOf ys = true → ∀ c ∈ (ys.drop xs.length).head?,
      startsWith (· == c) rest = false) :
    ys.isPrefixOf (xs ++ rest) = ys.isPrefixOf xs := by
  induction ys generalizing xs with
  | nil => simp
  | cons y ys ih =>
    cases xs with
    | nil =>
      have hy := h (by simp) y (by simp)
      cases rest with
      | nil => rfl
      | cons c cs =>
        have hc : (c == y) = false := hy
        have hne : (y == c) = false := by
          rw [beq_eq_false_iff_ne] at hc ⊢
          exact fun heq => hc heq.symm
        simp [List.isPrefixOf, hne]
    | cons x xs =>
      by_cases hyx : y = x
      · subst hyx
        have hxs : ys.isPrefixOf (xs ++ rest) = ys.isPrefixOf xs := ih (by simpa using h)
        simp [List.isPrefixOf, hxs]
      · have hne : (y == x) = false := beq_eq_false_iff_ne.2 hyx
        simp [List.isPrefixOf, hne]

/-- A symbol is read whole unless the next character makes it a longer one. -/
theorem leading?_append {x : Symbol} {rest : List Char}
    (h : startsWith (· ∈ x.extenders) rest = false) :
    Symbol.leading? (x.spelling.toList ++ rest) = some x := by
  have hprefix : ∀ y : Symbol, y.spelling.toList.isPrefixOf (x.spelling.toList ++ rest) =
      y.spelling.toList.isPrefixOf x.spelling.toList := by
    intro y
    refine isPrefixOf_append fun hxy c hc => ?_
    have hmem : c ∈ x.extenders :=
      List.mem_filterMap.2 ⟨y, y.mem_all, by simpa [hxy] using hc⟩
    cases rest with
    | nil => rfl
    | cons d ds =>
      have hd : d ∉ x.extenders := by simpa [startsWith] using h
      simp only [startsWith, beq_eq_false_iff_ne]
      rintro rfl
      exact hd hmem
  simp only [Symbol.leading?, hprefix]
  exact find?_spelling x x.mem_all

theorem startsWith_of_imp {P Q : Char → Bool} (hPQ : ∀ c, P c = true → Q c = true)
    {cs : List Char} (h : startsWith P cs = true) : startsWith Q cs = true := by
  cases cs with
  | nil => cases h
  | cons c cs => exact hPQ c h

theorem startsWith_mono {P Q : Char → Bool} (hPQ : ∀ c, Q c = true → P c = true) {cs : List Char}
    (h : startsWith P cs = false) : startsWith Q cs = false :=
  Bool.eq_false_iff.2 fun hQ => Bool.eq_false_iff.1 h (startsWith_of_imp hPQ hQ)

theorem startsWith_append {P : Char → Bool} {cs rest : List Char} (hcs : startsWith P cs = false)
    (hrest : startsWith P rest = false) : startsWith P (cs ++ rest) = false := by
  cases cs with
  | nil => exact hrest
  | cons c cs => exact hcs

theorem startsWith_of_disjoint {P Q : Char → Bool} (hPQ : ∀ c, P c = true → Q c = false)
    {cs : List Char} (h : startsWith P cs = true) : startsWith Q cs = false := by
  cases cs with
  | nil => rfl
  | cons c cs => exact hPQ c h

/-- The symbols that share their first character with a variable or a comment. -/
def ambiguous : List Symbol := [.percent, .remAssign, .textEqual, .slash, .divAssign]

/-- A character that makes a variable or a comment of what comes before it. -/
def ravels (c : Char) : Bool :=
  isLetter c || c == ':' || c == '/' || c == '*'

theorem symbol_head : ∀ x ∈ Symbol.all, x ≠ .dot → startsWith (fun c => !isLetter c && !c.isDigit &&
    c != '.' && c != '\x22' && c != '\x27' && !isGapBlank c &&
      (x ∈ ambiguous || c != '%' && c != '$' && c != '/')) x.spelling.toList = true := by
  decide

/-- A symbol that goes on neither to a longer symbol nor to a variable nor to a comment. -/
theorem lexes_symbol {x : Symbol} (hdot : x ≠ .dot) {rest : List Char}
    (hnext : x ∈ ambiguous → startsWith ravels ((x.spelling.toList ++ rest).drop 1) = false)
    (hleading : Symbol.leading? (x.spelling.toList ++ rest) = some x) :
    Lexes x.spelling.toList [.symbol x] rest := by
  have hhead := symbol_head x x.mem_all hdot
  cases hspell : x.spelling.toList with
  | nil => simp [hspell, startsWith] at hhead
  | cons c cs =>
    have hlength : x.spelling.length - 1 = cs.length := by
      rw [← String.length_toList, hspell]
      rfl
    simp only [hspell, startsWith, Bool.and_eq_true, Bool.not_eq_true', bne_iff_ne, ne_eq,
      Bool.or_eq_true, decide_eq_true_eq] at hhead
    obtain ⟨⟨⟨⟨⟨⟨hletter, hdigit⟩, hpoint⟩, hdouble⟩, hsingle⟩, hblank⟩, hplain⟩ := hhead
    rw [hspell, List.cons_append] at hleading hnext
    rcases hplain with hx | ⟨⟨hpercent, hdollar⟩, hslash⟩
    · have hnext : startsWith ravels (cs ++ rest) = false := hnext hx
      have hlocal : startsWith isLetter (cs ++ rest) = false :=
        startsWith_mono (by simp +contextual [ravels]) hnext
      have hglobal : startsWith (fun d => isLetter d || d == ':') (cs ++ rest) = false :=
        startsWith_mono (by simp +contextual [ravels]) hnext
      have hcomment : startsWith (fun d => d == '/' || d == '*') (cs ++ rest) = false :=
        startsWith_mono (by simp +contextual [ravels, or_imp]) hnext
      refine lexes_lexeme ⟨hblank, fun _ => hcomment⟩ ?_
      simp [lexeme, hletter, hdigit, hdouble, hsingle, hpoint, hlocal, hglobal, hleading, hlength]
    · refine lexes_lexeme ⟨hblank, fun h => absurd h hslash⟩ ?_
      simp [lexeme, hletter, hdigit, hdouble, hsingle, hpoint, hpercent, hdollar, hleading, hlength]

/-- The text is over, or a blank follows. -/
def Spaced (rest : List Char) : Prop :=
  rest = [] ∨ ∃ cs, rest = ' ' :: cs

theorem Spaced.startsWith {rest : List Char} (h : Spaced rest) {P : Char → Bool}
    (hP : P ' ' = false) : startsWith P rest = false := by
  rcases h with rfl | ⟨cs, rfl⟩
  · rfl
  · exact hP

theorem ambiguous_alone : ∀ x ∈ ambiguous,
    startsWith ravels (x.spelling.toList.drop 1) = false := by
  decide

theorem spelling_ne_nil : ∀ x ∈ Symbol.all, x.spelling.toList ≠ [] := by
  decide

theorem blank_notMem_extenders : ∀ x ∈ Symbol.all, ' ' ∉ x.extenders := by
  decide

/-- Before a blank or the end every symbol but the dot is read as itself. -/
theorem lexes_operator {x : Symbol} (hdot : x ≠ .dot) {rest : List Char} (hrest : Spaced rest) :
    Lexes x.spelling.toList [.symbol x] rest := by
  refine lexes_symbol hdot (fun hx => ?_) (leading?_append (hrest.startsWith ?_))
  · have hlength : 1 ≤ x.spelling.toList.length :=
      List.length_pos_iff.mpr (spelling_ne_nil x x.mem_all)
    rw [List.drop_append_of_le_length hlength]
    exact startsWith_append (ambiguous_alone x hx) (hrest.startsWith (by decide))
  · exact decide_eq_false (blank_notMem_extenders x x.mem_all)

/-- The symbols that are read as themselves before any text. -/
def solid : List Symbol :=
  [.openParen, .closeParen, .openBracket, .closeBracket, .openBrace, .closeBrace, .comma,
    .semicolon, .increment, .decrement, .doubleColon]

theorem extenders_solid : ∀ x ∈ solid, x.extenders = [] ∧ x ∉ ambiguous ∧ x ≠ .dot := by
  decide

theorem lexes_solid {x : Symbol} (hx : x ∈ solid) {rest : List Char} :
    Lexes x.spelling.toList [.symbol x] rest := by
  obtain ⟨hnone, hplain, hdot⟩ := extenders_solid x hx
  refine lexes_symbol hdot (fun h => absurd h hplain) (leading?_append ?_)
  rw [hnone]
  cases rest <;> rfl

section

variable {rest : List Char}

theorem lexes_openParen : Lexes ['('] [.symbol .openParen] rest :=
  lexes_solid (x := .openParen) (by decide)

theorem lexes_closeParen : Lexes [')'] [.symbol .closeParen] rest :=
  lexes_solid (x := .closeParen) (by decide)

theorem lexes_openBracket : Lexes ['['] [.symbol .openBracket] rest :=
  lexes_solid (x := .openBracket) (by decide)

theorem lexes_closeBracket : Lexes [']'] [.symbol .closeBracket] rest :=
  lexes_solid (x := .closeBracket) (by decide)

theorem lexes_openBrace : Lexes ['\x7b'] [.symbol .openBrace] rest :=
  lexes_solid (x := .openBrace) (by decide)

theorem lexes_closeBrace : Lexes ['\x7d'] [.symbol .closeBrace] rest :=
  lexes_solid (x := .closeBrace) (by decide)

theorem lexes_blank_openBrace : Lexes [' ', '\x7b'] [.symbol .openBrace] rest :=
  (lexes_blank (c := ' ') rfl).append lexes_openBrace

theorem lexes_blank_closeBrace : Lexes [' ', '\x7d'] [.symbol .closeBrace] rest :=
  (lexes_blank (c := ' ') rfl).append lexes_closeBrace

theorem lexes_semicolon : Lexes [';'] [.symbol .semicolon] rest :=
  lexes_solid (x := .semicolon) (by decide)

theorem lexes_doubleColon : Lexes [':', ':'] [.symbol .doubleColon] rest :=
  lexes_solid (x := .doubleColon) (by decide)

theorem lexes_comma : Lexes [',', ' '] [.symbol .comma] rest :=
  (lexes_solid (x := .comma) (by decide)).append (lexes_blank (c := ' ') rfl)

end

theorem noDigit_of_letter {cs : List Char} (h : startsWith isLetter cs = true) :
    startsWith Char.isDigit cs = false := by
  refine startsWith_of_disjoint (fun c hc => ?_) h
  cases hd : c.isDigit with
  | false => rfl
  | true => rw [isLetter_of_isDigit hd] at hc; cases hc

/-- A dot that does not open a fraction. -/
theorem lexes_dot {rest : List Char} (hdigit : startsWith Char.isDigit rest = false) :
    Lexes ['.'] [.symbol .dot] rest := by
  have hspell : Symbol.dot.spelling.toList = ['.'] := by decide
  have hlength : Symbol.dot.spelling.length - 1 = 0 := by decide
  have hnone : Symbol.dot.extenders = [] := by decide
  have hletter : isLetter '.' = false := by decide
  have hpoint : Char.isDigit '.' = false := by decide
  have hleading : Symbol.leading? (Symbol.dot.spelling.toList ++ rest) = some .dot := by
    refine leading?_append ?_
    rw [hnone]
    cases rest <;> rfl
  rw [hspell, List.singleton_append] at hleading
  refine lexes_lexeme (opensToken_of_class (P := (· == '.')) (by decide) rfl _) ?_
  simp [lexeme, hletter, hpoint, hdigit, hleading, hlength]

/-- A sign before an operand may stand before a dollar sign, as long as no text comparison is
meant. -/
theorem leading?_dollar {x : Symbol} (hx : x ∈ [Symbol.bang, .minus, .tilde]) {rest : List Char}
    (h : startsWith (· == '=') rest = false) :
    Symbol.leading? (x.spelling.toList ++ '$' :: rest) = some x := by
  have hlonger : ∀ y ∈ Symbol.all,
      (y.spelling.toList.drop (x.spelling.toList ++ ['$']).length).head?.all (· == '=') = true := by
    simp only [List.mem_cons, List.not_mem_nil, or_false] at hx
    rcases hx with rfl | rfl | rfl <;> decide
  have hprefix : ∀ y : Symbol, y.spelling.toList.isPrefixOf (x.spelling.toList ++ ['$'] ++ rest) =
      y.spelling.toList.isPrefixOf (x.spelling.toList ++ ['$']) := by
    intro y
    refine isPrefixOf_append fun _ c hc => ?_
    rw [beq_iff_eq.1 ((Option.all_eq_true _ _).1 (hlonger y y.mem_all) c hc)]
    exact h
  rw [List.append_cons]
  simp only [Symbol.leading?, hprefix]
  simp only [List.mem_cons, List.not_mem_nil, or_false] at hx
  rcases hx with rfl | rfl | rfl <;> decide

/-- The tokens that are known by their spelling alone and read as themselves before a blank. -/
def Token.isFixed : Token → Bool
  | .symbol x => x ≠ .dot
  | .keyword k => k ∈ Keyword.words && k ≠ .switch
  | _ => false

theorem lexes_fixed {t : Token} (ht : t.isFixed = true) {rest : List Char} :
    Lexes (t.spelling.toList ++ [' ']) [t] rest := by
  have hspell : Lexes t.spelling.toList [t] (' ' :: rest) := by
    cases t with
    | symbol x => exact lexes_operator (of_decide_eq_true ht) (Or.inr ⟨rest, rfl⟩)
    | keyword k =>
      have hk : k ∈ Keyword.words ∧ k ≠ .switch := by simpa [Token.isFixed] using ht
      exact lexes_keyword hk.1 hk.2 rfl
    | _ => cases ht
  exact hspell.append (lexes_blank (c := ' ') rfl)

theorem lexes_spaced {t : Token} (ht : t.isFixed = true) {rest : List Char} :
    Lexes (' ' :: (t.spelling.toList ++ [' '])) [t] rest :=
  (lexes_blank (c := ' ') rfl).append (lexes_fixed ht)

theorem lexes_colon {rest : List Char} : Lexes [' ', ':', ' '] [.symbol .colon] rest :=
  lexes_spaced (t := .symbol .colon) rfl

end TorqueScript
