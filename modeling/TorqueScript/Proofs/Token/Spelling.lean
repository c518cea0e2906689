import TorqueScript.Proofs.Token.Literals

/-!
Tokens written down and read again. Every token has a written form, its spelling or a quoted
text with escapes; a list of tokens is written with single blanks between them. Reading what
is written gives the same tokens, because none of them goes on across a blank.
-/

namespace TorqueScript

open Text Scan

/-- How a token is written in a source text. -/
def Token.written : Token → String
  | .text s => quoted s
  | t => t.spelling

/-- A letter, with letters and digits after it. -/
def IsWord (cs : List Char) : Prop :=
  ∃ c ds, cs = c :: ds ∧ isLetter c = true ∧ ∀ d ∈ ds, isNameChar d = true

/-- One or more words joined by double colons. -/
def IsPath (name : String) : Prop :=
  ∃ segments : List String, segments ≠ [] ∧ (∀ s ∈ segments, IsWord s.toList) ∧
    name = "::".intercalate segments

/-- The tokens that can be written down. Texts may have any content. -/
def Token.IsWritable : Token → Prop
  | .name s => IsName s
  | .localVariable s => IsPath s
  | .globalVariable s => IsPath s
  | .numeral s => IsLiteral s.toList
  | .text _ => True
  | .keyword _ => True
  | .symbol _ => True

variable {rest : List Char}

theorem lexes_symbol_spaced (x : Symbol) (hrest : Spaced rest) :
    Lexes x.spelling.toList [.symbol x] rest := by
  by_cases hdot : x = .dot
  · subst hdot
    exact lexes_dot (hrest.startsWith (by decide))
  · exact lexes_operator hdot hrest

/-- The dollar sign after `switch` makes another keyword of it. -/
theorem lexes_keyword_spaced (k : Keyword) (hrest : Spaced rest) :
    Lexes k.spelling.toList [.keyword k] rest := by
  have hname : ∀ cs, NoName cs → ("witch".toList ++ cs).takeWhile isNameChar = "witch".toList :=
    fun cs hcs => takeWhile_append (List.all_eq_true.mp (by decide)) hcs
  have hswitch : Keyword.ofName? (String.ofList ('s' :: "witch".toList)) = some .switch := by
    decide
  have hletter : isLetter 's' = true := by decide
  by_cases hk : k = .switch
  · subst hk
    have hnext : startsWith (· == '$') rest = false := hrest.startsWith (by decide)
    rw [show Keyword.switch.spelling.toList = 's' :: "witch".toList by decide]
    refine lexes_lexeme (opensToken_of_class (by decide) hletter _) ?_
    simp only [lexeme, hletter, if_true, hname rest (hrest.startsWith (by decide)), hswitch,
      List.drop_left, hnext]
    rfl
  by_cases hk' : k = .switchText
  · subst hk'
    rw [show Keyword.switchText.spelling.toList = 's' :: ("witch".toList ++ ['$']) by decide]
    refine lexes_lexeme (opensToken_of_class (by decide) hletter _) ?_
    rw [List.append_assoc, List.singleton_append]
    simp only [lexeme, hletter, if_true, hname ('$' :: rest) rfl, hswitch, List.drop_left]
    rfl
  · refine lexes_keyword ?_ hk (hrest.startsWith (by decide))
    cases k <;> first | decide | contradiction

theorem variablePath_word {cs tail : List Char} (hcs : ∀ c ∈ cs, isNameChar c = true) :
    variablePath (cs ++ tail) = cs ++ variablePath tail := by
  induction cs with
  | nil => rfl
  | cons c cs ih =>
    have hc : isNameChar c = true := hcs c (List.mem_cons_self ..)
    rw [List.cons_append, variablePath.eq_def]
    simp [hc, ih fun d hd => hcs d (List.mem_cons_of_mem _ hd)]

theorem IsWord.isNameChar {cs : List Char} (h : IsWord cs) : ∀ c ∈ cs, isNameChar c = true := by
  obtain ⟨c, ds, rfl, hc, hds⟩ := h
  intro d hd
  rcases List.mem_cons.mp hd with rfl | hd
  · simp [Text.isNameChar, hc]
  · exact hds d hd

theorem variablePath_segments {segments : List (List Char)} (h : ∀ s ∈ segments, IsWord s) :
    variablePath ([':', ':'].intercalate segments) = [':', ':'].intercalate segments := by
  induction segments with
  | nil => rfl
  | cons s rest ih =>
    have hs := (h s (List.mem_cons_self ..)).isNameChar
    cases rest with
    | nil =>
      have hpath := @variablePath_word s [] hs
      simpa [variablePath] using hpath
    | cons t more =>
      have hrest := ih fun u hu => h u (List.mem_cons_of_mem _ hu)
      obtain ⟨d, ds, rfl, hd, hds⟩ := h t (by simp)
      have hcolon : Text.isNameChar ':' = false := by decide
      have hname : Text.isNameChar d = true := by simp [Text.isNameChar, hd]
      rw [List.intercalate_cons_cons, List.append_assoc, variablePath_word hs]
      rw [List.intercalate_cons_cons_left] at hrest ⊢
      rw [variablePath.eq_def] at hrest
      simp only [hname, if_true, List.cons.injEq, true_and] at hrest
      simp [variablePath, hcolon, hd, hrest]

theorem isVariable_of_isPath {name : String} (h : IsPath name) (scope : Scope) :
    IsVariable scope name := by
  obtain ⟨segments, hne, hwords, rfl⟩ := h
  have hsegments : ("::".intercalate segments).toList =
      [':', ':'].intercalate (segments.map String.toList) := by
    rw [String.toList_intercalate]
    rfl
  constructor
  · rw [hsegments]
    cases segments with
    | nil => exact absurd rfl hne
    | cons s rest =>
      obtain ⟨c, ds, hs, hc, -⟩ := hwords s (List.mem_cons_self ..)
      cases rest with
      | nil => simp [hs, startsWith, hc]
      | cons t more => simp [hs, startsWith, hc, List.intercalate_cons_cons]
  · rw [hsegments]
    refine variablePath_segments fun cs hcs => ?_
    obtain ⟨s, hs, rfl⟩ := List.mem_map.mp hcs
    exact hwords s hs

theorem lexes_written {t : Token} (ht : t.IsWritable) (hrest : Spaced rest) :
    Lexes t.written.toList [t] rest := by
  have hname : NoName rest := hrest.startsWith (by decide)
  have hpath : NoPath rest := hrest.startsWith (by decide)
  cases t with
  | name s => exact lexes_name ht hname
  | localVariable s => exact lexes_variable (isVariable_of_isPath ht .local) hpath
  | globalVariable s => exact lexes_variable (isVariable_of_isPath ht .global) hpath
  | numeral s =>
    refine lexes_literal ht ⟨hname, fun cs hcs => ?_⟩
    rcases hrest with rfl | ⟨ds, rfl⟩ <;> cases hcs
  | text s => exact lexes_quoted s
  | keyword k => exact lexes_keyword_spaced k hrest
  | symbol x => exact lexes_symbol_spaced x hrest

/-- Tokens as a source text, with single blanks between them. -/
def Token.writeAll (ts : List Token) : String :=
  " ".intercalate (ts.map written)

theorem lexes_writeAll {ts : List Token} (h : ∀ t ∈ ts, t.IsWritable) :
    Lexes (Token.writeAll ts).toList ts [] := by
  induction ts with
  | nil => exact lexes_nil
  | cons t ts ih =>
    have hts := ih fun u hu => h u (List.mem_cons_of_mem _ hu)
    have ht := h t (List.mem_cons_self ..)
    cases ts with
    | nil =>
      rw [Token.writeAll, List.map_singleton, String.intercalate_singleton]
      exact lexes_written ht (Or.inl rfl)
    | cons u us =>
      have hblank : Lexes [' '] [] ((Token.writeAll (u :: us)).toList ++ []) :=
        lexes_blank (c := ' ') rfl
      have hfirst := (lexes_written ht (Or.inr ⟨_, rfl⟩)).append (hblank.append hts)
      rw [Token.writeAll, List.map_cons, List.map_cons, String.intercalate_cons_cons,
        String.toList_append, String.toList_append, List.append_assoc]
      exact hfirst

/-- Reading undoes writing: any list of tokens, written with single blanks between them, is read as
those tokens and then the end of the text, without a mistake. -/
theorem read_written_tokens {ts : List Token} (h : ∀ t ∈ ts, t.IsWritable) :
    ∃ p, Begins ts (.ofText (Token.writeAll ts)) (.finish p) := by
  obtain ⟨p, hp⟩ := lexes_writeAll h .start
  have hend : Stream.ofCursor ⟨[], p⟩ = .finish p := Stream.ofCursor_finish (c := ⟨[], p⟩) rfl
  rw [List.append_nil, hend] at hp
  exact ⟨p, hp⟩

/-- Tokens that would run together without the blanks, and a text that needs every escape. -/
theorem read_written_tokens_mixed :
    let ts : List Token := [.symbol .slash, .symbol .slash, .symbol .dot, .numeral ".5e-3",
      .numeral "0x1F", .symbol .percent, .name "tank", .globalVariable "Pref::new::_2",
      .keyword .switch, .symbol .textEqual, .text "a\\n\"\n\x00é"]
    (∀ t ∈ ts, t.IsWritable) ∧
    Token.writeAll ts =
      "/ / . .5e-3 0x1F % tank $Pref::new::_2 switch $= \"a\\\\n\\\"\\n\x00é\"" ∧
    ∃ p, Begins ts (.ofText (Token.writeAll ts)) (.finish p) := by
  intro ts
  have hpath : IsPath "Pref::new::_2" := by
    refine ⟨["Pref", "new", "_2"], by simp, ?_, by decide⟩
    simp only [List.mem_cons, List.not_mem_nil, or_false, forall_eq_or_imp, forall_eq]
    exact ⟨⟨'P', "ref".toList, by decide, by decide, List.all_eq_true.mp (by decide)⟩,
      ⟨'n', "ew".toList, by decide, by decide, List.all_eq_true.mp (by decide)⟩,
      ⟨'_', "2".toList, by decide, by decide, List.all_eq_true.mp (by decide)⟩⟩
  have hname : IsName "tank" :=
    ⟨⟨'t', "ank".toList, by decide, by decide, List.all_eq_true.mp (by decide)⟩, by decide⟩
  have hpoint : IsLiteral ".5e-3".toList :=
    @IsLiteral.decimal [] ['.', '5'] ['e', '-', '3'] (by simp)
      (Or.inr ⟨['5'], by simp, by simp, rfl⟩)
      (Or.inr ⟨'e', ['-'], ['3'], Or.inl rfl, by simp, by simp, by simp, rfl⟩) (Or.inr (by simp))
  have hhex : IsLiteral "0x1F".toList :=
    @IsLiteral.hexadecimal 'x' ['1', 'F'] (Or.inl rfl) (by simp) (List.all_eq_true.mp (by decide))
  have hts : ∀ t ∈ ts, t.IsWritable := by
    simp only [ts, List.mem_cons, List.not_mem_nil, or_false, forall_eq_or_imp, forall_eq]
    exact ⟨trivial, trivial, trivial, hpoint, hhex, trivial, hname, hpath, trivial, trivial,
      trivial⟩
  exact ⟨hts, by decide, read_written_tokens hts⟩

end TorqueScript
