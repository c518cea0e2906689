import TorqueScript.Proofs.Token.Joining
import TorqueScript.Proofs.Token.Positions

/-!
How the tokens of a source text lie in it. Each one covers a stretch of bytes and
carries the position of the first of them; the stretches follow one another, with
nothing but blanks and comments between. The mistake that ends the tokens lies in
the text in the same way.
-/

namespace TorqueScript

open Text Scan

/-- Blanks and comments, and then a text with the property. A line comment ends with its line, a
block comment with the first mark that closes it. -/
inductive GapThen (K : List Char → Prop) : List Char → Prop
  | done {cs : List Char} (h : K cs) : GapThen K cs
  | blank {c : Char} {cs : List Char} (hc : isGapBlank c = true) (h : GapThen K cs) :
      GapThen K (c :: cs)
  | line {text cs : List Char} (htext : '\n' ∉ text) (h : GapThen K cs) :
      GapThen K ('/' :: '/' :: (text ++ '\n' :: cs))
  | block {text cs : List Char} (htext : ¬ ['*', '/'] <:+: text) (h : GapThen K cs) :
      GapThen K ('/' :: '*' :: (text ++ '*' :: '/' :: cs))

/-- Nothing but blanks and comments. -/
def IsGap (cs : List Char) : Prop :=
  GapThen (· = []) cs

/-- A comment that the end of the text cuts off, or nothing. -/
inductive IsCutOff : List Char → Prop
  | nothing : IsCutOff []
  | line {text : List Char} (htext : '\n' ∉ text) : IsCutOff ('/' :: '/' :: text)
  | block {text : List Char} (htext : ¬ ['*', '/'] <:+: text) : IsCutOff ('/' :: '*' :: text)

/-- A gap before `rest` is a text of its own. -/
theorem GapThen.exists_gap {rest cs : List Char} (h : GapThen (· = rest) cs) :
    ∃ gap, cs = gap ++ rest ∧ IsGap gap := by
  induction h with
  | done h => exact ⟨[], h, .done rfl⟩
  | blank hc _ ih =>
    obtain ⟨gap, rfl, hgap⟩ := ih
    exact ⟨_ :: gap, rfl, .blank hc hgap⟩
  | line htext _ ih =>
    obtain ⟨gap, rfl, hgap⟩ := ih
    exact ⟨_, by simp, .line htext hgap⟩
  | block htext _ ih =>
    obtain ⟨gap, rfl, hgap⟩ := ih
    exact ⟨_, by simp, .block htext hgap⟩

/-- A character closes a block comment only after a star. -/
theorem closeMark_infix_concat {text : List Char} {c : Char} (h : ['*', '/'] <:+: text ++ [c]) :
    ['*', '/'] <:+: text ∨ text.getLast? = some '*' ∧ c = '/' := by
  rcases List.infix_concat_iff.1 h with hend | htext
  · obtain hnil | ⟨front, heq, hfront⟩ := List.suffix_concat_iff.1 hend
    · cases hnil
    · obtain ⟨hstar, hslash⟩ : ['*'] = front ∧ ['/'] = [c] := List.append_inj' heq rfl
      subst hstar
      obtain ⟨before, rfl⟩ := hfront
      exact .inr ⟨by simp, (List.cons.inj hslash).1.symm⟩
  · exact .inl htext

/-- Two columns on, where a mark that closes a comment would end. -/
def Position.pastMark (p : Position) : Position :=
  ⟨p.line, p.column + 2⟩

namespace Cursor

/-- What may stop a gap: the end of the text, with a comment that it cuts off, or `rest`. -/
def Stops (rest cs : List Char) : Prop :=
  if rest = [] then IsCutOff cs else cs = rest

/-- What is still to pass is a gap, together with the part of a comment that is passed already. -/
def Passes (K : List Char → Prop) : Gap → List Char → Prop
  | .blank, cs => GapThen K cs
  | .line, cs => ∀ text, '\n' ∉ text → GapThen K ('/' :: '/' :: (text ++ cs))
  | .block star, cs => ∀ text, ¬ ['*', '/'] <:+: text → (star = true ↔ text.getLast? = some '*') →
      GapThen K ('/' :: '*' :: (text ++ cs))

theorem passes_skip {g : Gap} {cs rest : List Char} {p : Position}
    (h : (skip g cs p).rest = rest) : Passes (Stops rest) g cs := by
  fun_induction skip g cs p with
  | case1 =>
    subst h
    intro text htext _
    rw [List.append_nil]
    exact .done (.block htext)
  | case2 =>
    subst h
    exact .done .nothing
  | case3 =>
    subst h
    intro text htext
    rw [List.append_nil]
    exact .done (.line htext)
  | case4 c cs p hc ih => exact .blank hc (ih h)
  | case5 =>
    subst h
    exact .done rfl
  | case6 p cs _ ih => exact ih h [] List.not_mem_nil
  | case7 p cs _ _ ih => exact ih h [] (by simp) (by simp)
  | case8 =>
    subst h
    exact .done rfl
  | case9 =>
    subst h
    exact .done rfl
  | case10 cs p ih =>
    intro text htext
    exact .line htext (ih h)
  | case11 c cs p hc ih =>
    intro text htext
    have hmore : '\n' ∉ text ++ [c] := by
      rw [List.mem_append, List.mem_singleton]
      rintro (hmem | rfl)
      · exact htext hmem
      · exact hc rfl
    rw [List.append_cons]
    exact ih h (text ++ [c]) hmore
  | case12 star c cs p hclose ih =>
    intro text htext hstar
    obtain ⟨hstar', rfl⟩ : star = true ∧ c = '/' := by simpa using hclose
    obtain ⟨front, rfl⟩ := List.getLast?_eq_some_iff.1 (hstar.1 hstar')
    have hfront : ¬ ['*', '/'] <:+: front := fun hmark =>
      htext (hmark.trans (List.prefix_append front ['*']).isInfix)
    rw [← List.append_cons]
    exact .block hfront (ih h)
  | case13 star c cs p hclose ih =>
    intro text htext hstar
    have hmore : ¬ ['*', '/'] <:+: text ++ [c] := by
      intro hmark
      rcases closeMark_infix_concat hmark with hmark | ⟨hlast, rfl⟩
      · exact htext hmark
      · exact hclose (by rw [hstar.2 hlast]; rfl)
    rw [List.append_cons]
    exact ih h (text ++ [c]) hmore (by simp)

/-- A gap moves on by its text. A comment that is never closed counts its missing mark as well. -/
theorem exists_skip (g : Gap) (cs : List Char) (p : Position) :
    ∃ gap, cs = gap ++ (skip g cs p).rest ∧
      (unclosed g cs = false ∧ (skip g cs p).position = p.after gap ∨
        unclosed g cs = true ∧ (skip g cs p).rest = [] ∧
          (skip g cs p).position = (p.after gap).pastMark) := by
  fun_induction skip g cs p with
  | case1 => exact ⟨[], rfl, .inr ⟨rfl, rfl, rfl⟩⟩
  | case2 => exact ⟨[], rfl, .inl ⟨rfl, rfl⟩⟩
  | case3 => exact ⟨[], rfl, .inl ⟨rfl, rfl⟩⟩
  | case4 c cs p hc ih =>
    obtain ⟨gap, hgap, hend⟩ := ih
    rw [unclosed_blank hc]
    exact ⟨c :: gap, congrArg (c :: ·) hgap, hend⟩
  | case5 => exact ⟨[], rfl, .inl ⟨rfl, rfl⟩⟩
  | case6 p cs _ ih =>
    obtain ⟨gap, hgap, hend⟩ := ih
    exact ⟨'/' :: '/' :: gap, congrArg ('/' :: '/' :: ·) hgap, hend⟩
  | case7 p cs _ _ ih =>
    obtain ⟨gap, hgap, hend⟩ := ih
    exact ⟨'/' :: '*' :: gap, congrArg ('/' :: '*' :: ·) hgap, hend⟩
  | case8 p c cs hslash hstar _ =>
    exact ⟨[], rfl, .inl ⟨by simp [unclosed, hslash, hstar, Scan.isGapBlank], rfl⟩⟩
  | case9 c cs p hc hslash =>
    exact ⟨[], rfl, .inl ⟨by simp [unclosed.eq_def, hc, hslash], rfl⟩⟩
  | case10 cs p ih =>
    obtain ⟨gap, hgap, hend⟩ := ih
    exact ⟨'\n' :: gap, congrArg ('\n' :: ·) hgap, hend⟩
  | case11 c cs p hc ih =>
    obtain ⟨gap, hgap, hend⟩ := ih
    rw [unclosed, if_neg hc]
    exact ⟨c :: gap, congrArg (c :: ·) hgap, hend⟩
  | case12 star c cs p hclose ih =>
    obtain ⟨gap, hgap, hend⟩ := ih
    rw [unclosed, if_pos hclose]
    exact ⟨c :: gap, congrArg (c :: ·) hgap, hend⟩
  | case13 star c cs p hclose ih =>
    obtain ⟨gap, hgap, hend⟩ := ih
    rw [unclosed, if_neg hclose]
    exact ⟨c :: gap, congrArg (c :: ·) hgap, hend⟩

theorem skipGap_token {c : Cursor} {d : Char} {ds : List Char} (h : c.skipGap.rest = d :: ds) :
    ∃ gap, IsGap gap ∧ c.rest = gap ++ d :: ds ∧ c.skipGap.position = c.position.after gap := by
  have hpasses : GapThen (Stops (d :: ds)) c.rest := passes_skip (g := .blank) h
  have hstops : Stops (d :: ds) = (· = d :: ds) := by
    funext cs
    simp [Stops]
  rw [hstops] at hpasses
  obtain ⟨gap, hrest, hgap⟩ := hpasses.exists_gap
  obtain ⟨gap', hrest', hend⟩ := exists_skip .blank c.rest c.position
  rw [skipGap] at h ⊢
  rw [h] at hrest' hend
  obtain rfl : gap = gap' := List.append_cancel_right (hrest.symm.trans hrest')
  obtain ⟨-, hposition⟩ | ⟨-, hnil, -⟩ := hend
  · exact ⟨gap, hgap, hrest, hposition⟩
  · cases hnil

theorem skipGap_finish {c : Cursor} (h : c.skipGap.rest = []) :
    GapThen IsCutOff c.rest ∧ c.skipGap.position =
      if unclosed .blank c.rest then (c.position.after c.rest).pastMark
      else c.position.after c.rest := by
  have hpasses : GapThen (Stops []) c.rest := passes_skip (g := .blank) h
  have hstops : Stops [] = IsCutOff := by
    funext cs
    simp [Stops]
  rw [hstops] at hpasses
  obtain ⟨gap, hrest, hend⟩ := exists_skip .blank c.rest c.position
  rw [skipGap] at h ⊢
  rw [h, List.append_nil] at hrest
  subst hrest
  refine ⟨hpasses, ?_⟩
  obtain ⟨hclosed, hposition⟩ | ⟨hopen, -, hposition⟩ := hend
  · rw [hposition, hclosed]
    rfl
  · rw [hposition, hopen]
    rfl

end Cursor

/-- The inside of a quoted text: quotes and line breaks stand in it only after a backslash. -/
inductive IsQuotedBody (quote : Char) : List Char → Prop
  | nil : IsQuotedBody quote []
  | plain {c : Char} {cs : List Char} (hquote : c ≠ quote) (hline : c ≠ '\n') (hescape : c ≠ '\\')
      (h : IsQuotedBody quote cs) : IsQuotedBody quote (c :: cs)
  | escape {c : Char} {cs : List Char} (h : IsQuotedBody quote cs) :
      IsQuotedBody quote ('\\' :: c :: cs)

def isQuote (c : Char) : Bool :=
  c == '\x22' || c == '\x27'

/-- The characters are a text that the token is written as: a keyword in any case of its letters, a
quoted text with its content in quotes, all else by its spelling. -/
def Token.Covers : Token → List Char → Prop
  | .keyword k, cs => cs.map Char.toLower = k.spelling.toList.map Char.toLower
  | .text content, cs => ∃ quote body, isQuote quote = true ∧ IsQuotedBody quote body ∧
      cs = quote :: (body ++ [quote]) ∧ content = String.ofList (unescape body)
  | t, cs => cs = t.spelling.toList

/-- The characters are those that the defect is about. -/
def Defect.Covers : Defect → List Char → Prop
  | .unterminatedText, cs => ∃ quote body, isQuote quote = true ∧ cs = quote :: body
  | .badNumeral numeral, cs => cs = numeral.toList
  | .unknownCharacter c, cs => cs = [c]

theorem pointLength_pos {cs : List Char} (h : startsWith Char.isDigit cs = true) :
    0 < pointLength ('.' :: cs) := by
  cases cs with
  | nil => cases h
  | cons d ds =>
    have hd : d.isDigit = true := h
    simp [pointLength, List.takeWhile_cons_of_pos hd]

theorem numeralLength_pos {c : Char} {cs : List Char}
    (h : (c.isDigit || c == '.' && startsWith Char.isDigit cs) = true) :
    0 < (numeralLength (c :: cs)).1 := by
  unfold numeralLength
  split
  · exact Nat.lt_of_lt_of_le Nat.two_pos (Nat.le_add_right _ _)
  · simp only
    cases hdigit : c.isDigit with
    | true =>
      rw [List.takeWhile_cons_of_pos hdigit, List.length_cons]
      omega
    | false =>
      obtain ⟨rfl, hstart⟩ : c = '.' ∧ startsWith Char.isDigit cs = true := by
        simpa [hdigit] using h
      have hpoint := pointLength_pos hstart
      rw [List.takeWhile_cons_of_neg (by simp [hdigit]), List.length_nil, List.drop_zero]
      omega

theorem quotedText_isPrefix (quote : Char) (cs : List Char) : (quotedText quote cs).1 <+: cs := by
  fun_induction quotedText quote cs with
  | case1 => exact List.prefix_refl _
  | case2 => exact List.nil_prefix
  | case3 => exact List.nil_prefix
  | case4 => exact List.prefix_refl _
  | case5 d rest text closed heq _ _ ih =>
    rw [heq] at ih
    simpa using ih
  | case6 c cs _ _ _ text closed heq ih =>
    rw [heq] at ih
    simpa using ih

theorem quotedText_closed {quote : Char} {cs : List Char} (h : (quotedText quote cs).2 = true) :
    IsQuotedBody quote (quotedText quote cs).1 ∧
      cs.take ((quotedText quote cs).1.length + 1) = (quotedText quote cs).1 ++ [quote] := by
  fun_induction quotedText quote cs with
  | case1 => cases h
  | case2 => exact ⟨.nil, rfl⟩
  | case3 => cases h
  | case4 => cases h
  | case5 d rest text closed heq _ _ ih =>
    rw [heq] at ih
    obtain ⟨hbody, htake⟩ := ih h
    exact ⟨.escape hbody, by simpa using htake⟩
  | case6 c cs hquote hline hescape text closed heq ih =>
    rw [heq] at ih
    obtain ⟨hbody, htake⟩ := ih h
    exact ⟨.plain hquote hline hescape hbody, by simpa using htake⟩

theorem covers_keyword {cs : List Char} {k : Keyword}
    (h : Keyword.ofName? (String.ofList cs) = some k) : (Token.keyword k).Covers cs := by
  have hfound := List.find?_some h
  have hfolded := congrArg String.toList (of_decide_eq_true hfound)
  rw [lowerAscii, lowerAscii, String.toList_ofList, String.toList_ofList, String.toList_ofList]
    at hfolded
  exact hfolded.symm

theorem take_takeWhile (P : Char → Bool) (cs : List Char) :
    cs.take (cs.takeWhile P).length = cs.takeWhile P :=
  (List.prefix_iff_eq_take.1 (List.takeWhile_prefix P)).symm

theorem take_one_of_startsWith {d : Char} {cs : List Char} (h : startsWith (· == d) cs = true) :
    cs.take 1 = [d] := by
  cases cs with
  | nil => cases h
  | cons c cs =>
    have hc : (c == d) = true := h
    simpa using hc

/-- The dollar sign is part of the keyword. -/
theorem covers_switchText {cs : List Char} (h : (Token.keyword .switch).Covers cs) :
    (Token.keyword .switchText).Covers (cs ++ ['$']) := by
  rw [Token.Covers, List.map_append, show cs.map Char.toLower = _ from h]
  decide

/-- The text of a token that was read. -/
theorem covers_of_lexeme {c : Char} {cs : List Char} {t : Token} {n : Nat}
    (h : lexeme c cs = .ok (t, n)) : t.Covers (c :: cs.take n) := by
  have hword := take_takeWhile isNameChar cs
  cases readsAs_of_lexeme h with
  | keyword hkeyword =>
    rw [hword]
    exact covers_keyword hkeyword
  | switchText hswitch hdollar =>
    have hspan : cs.take ((cs.takeWhile isNameChar).length + 1) =
        cs.takeWhile isNameChar ++ ['$'] := by
      rw [List.take_add, hword, take_one_of_startsWith hdollar]
    rw [hspan, ← List.cons_append]
    exact covers_switchText (covers_keyword hswitch)
  | name =>
    rw [hword]
    exact String.toList_ofList.symm
  | numeral hdigit =>
    rw [← List.take_cons (numeralLength_pos hdigit)]
    exact String.toList_ofList.symm
  | text hquote hclosed =>
    obtain ⟨hbody, htake⟩ := quotedText_closed hclosed
    exact ⟨c, _, hquote, hbody, by rw [htake], rfl⟩
  | localVariable hsign =>
    rw [hsign, ← List.prefix_iff_eq_take.1 (variablePath_isPrefix cs)]
    simp [Token.Covers, Token.spelling]
  | globalVariable hsign =>
    rw [hsign, ← List.prefix_iff_eq_take.1 (variablePath_isPrefix cs)]
    simp [Token.Covers, Token.spelling]
  | @symbol x hleading =>
    have hprefix := List.find?_some hleading
    rw [List.isPrefixOf_iff_prefix] at hprefix
    have hpos : 0 < x.spelling.length := by
      rw [← String.length_toList]
      exact List.length_pos_iff.2 (spelling_ne_nil x x.mem_all)
    rw [← List.take_cons hpos, ← String.length_toList, ← List.prefix_iff_eq_take.1 hprefix]
    rfl

theorem covers_badNumeral {c : Char} {cs : List Char} {n : Nat} (hn : 0 < n) : ∃ text, text <+: cs ∧
    (Defect.badNumeral (String.ofList ((c :: cs).take n))).Covers (c :: text) := by
  refine ⟨cs.take (n - 1), List.take_prefix _ _, ?_⟩
  rw [← List.take_cons hn]
  exact String.toList_ofList.symm

/-- The text of a defect begins where a token was expected. -/
theorem covers_of_defect {c : Char} {cs : List Char} {e : Defect} {n : Nat}
    (h : lexeme c cs = .error (e, n)) : ∃ text, text <+: cs ∧ e.Covers (c :: text) := by
  unfold lexeme at h
  split at h
  · simp only at h
    split at h
    · split at h <;> cases h
    · cases h
    · cases h
  split at h
  · rename_i hnumeral
    have hpos := numeralLength_pos hnumeral
    simp only at h
    split at h
    · cases h
    · cases h
      exact covers_badNumeral (Nat.lt_of_lt_of_le hpos (Nat.le_add_right _ _))
  split at h
  · rename_i hquote
    simp only at h
    split at h
    · cases h
    · cases h
      exact ⟨_, quotedText_isPrefix c cs, c, _, hquote, rfl⟩
  split at h
  · cases h
  split at h
  · cases h
  · split at h
    · cases h
    · cases h
      exact ⟨[], List.nil_prefix, rfl⟩

/-- A gap stands in the source between the two bytes. -/
def GapBetween (source : List Char) (i j : Nat) : Prop :=
  i ≤ j ∧ ∃ gap, StandsAt source i j gap ∧ IsGap gap

/-- Something that covers a text and carries a position lies from the byte `start` to the byte
`stop`. -/
structure LiesAt (source : List Char) (start stop : Nat) (covers : List Char → Prop)
    (position : Position) : Prop where
  nonempty : start < stop
  covered : ∃ text, StandsAt source start stop text ∧ covers text
  first : position.IsAt source start

/-- The tokens lie in the source one after the other from the byte `i` on, each at its position,
with gaps between them. So does the mistake that ends them; otherwise a gap goes on to the end. -/
def Stream.LaidOut (source : List Char) : Nat → Stream → Prop
  | i, .finish _ => ∃ tail, StandsAt source i (byteLength source) tail ∧ GapThen IsCutOff tail
  | i, .failure e => ∃ start stop, GapBetween source i start ∧
      LiesAt source start stop e.defect.Covers e.position
  | i, .cons t rest => ∃ start stop, GapBetween source i start ∧
      LiesAt source start stop t.token.Covers t.position ∧ rest.LaidOut source stop

/-- A text after a gap, at the position to which what comes before leads. -/
theorem liesAt_after_gap {gap text : List Char} {covers : List Char → Prop}
    (before after : List Char) (hgap : IsGap gap) (hne : text ≠ []) (h : covers text) :
    GapBetween (before ++ gap ++ text ++ after) (byteLength before) (byteLength (before ++ gap)) ∧
      LiesAt (before ++ gap ++ text ++ after) (byteLength (before ++ gap))
        (byteLength (before ++ gap ++ text)) covers (Position.start.after (before ++ gap)) := by
  have hpos := byteLength_pos hne
  constructor
  · refine ⟨?_, gap, ?_, hgap⟩
    · rw [byteLength_append]
      omega
    · rw [List.append_assoc (before ++ gap)]
      exact standsAt_append before gap (text ++ after)
  · constructor
    · rw [byteLength_append (before ++ gap)]
      omega
    · exact ⟨text, standsAt_append (before ++ gap) text after, h⟩
    · exact ⟨before ++ gap, text ++ after, List.append_assoc .., rfl, Position.after_start _⟩

/-- The tokens from a cursor on lie in the text that stands there. -/
theorem Stream.laidOut_ofCursor (c : Cursor) : ∀ before, c.position = Position.start.after before →
    (ofCursor c).LaidOut (before ++ c.rest) (byteLength before) := by
  fun_induction ofCursor c with
  | case1 c start hend =>
    intro before _
    refine ⟨c.rest, ?_, (Cursor.skipGap_finish hend).1⟩
    have htail := standsAt_append before c.rest []
    rwa [List.append_nil] at htail
  | case2 c start d ds hstart t n hlex ih =>
    intro before hbefore
    obtain ⟨gap, hgap, hrest, hposition⟩ := Cursor.skipGap_token hstart
    have hafter : start.position = Position.start.after (before ++ gap) := by
      rw [Position.after_append, ← hbefore]
      exact hposition
    have hsource : before ++ c.rest = before ++ gap ++ (d :: ds.take n) ++ ds.drop n := by
      simp [hrest]
    have hlater := ih (before ++ gap ++ (d :: ds.take n)) (by rw [Position.after_append, ← hafter])
    obtain ⟨hbetween, hlies⟩ := liesAt_after_gap before (ds.drop n) hgap
      (List.cons_ne_nil d _) (covers_of_lexeme hlex)
    rw [hsource, LaidOut, hafter]
    rw [hafter] at hlater
    exact ⟨_, _, hbetween, hlies, hlater⟩
  | case3 c start d ds hstart e n hlex =>
    intro before hbefore
    obtain ⟨gap, hgap, hrest, hposition⟩ := Cursor.skipGap_token hstart
    obtain ⟨text, ⟨after, rfl⟩, hcovers⟩ := covers_of_defect hlex
    have hafter : start.position = Position.start.after (before ++ gap) := by
      rw [Position.after_append, ← hbefore]
      exact hposition
    have hsource : before ++ c.rest = before ++ gap ++ (d :: text) ++ after := by
      simp [hrest]
    obtain ⟨hbetween, hlies⟩ := liesAt_after_gap before after hgap
      (List.cons_ne_nil d text) hcovers
    rw [hsource, LaidOut, hafter]
    exact ⟨_, _, hbetween, hlies⟩

/-- Every token of a source text and the mistake that may end them carry the position of their first
byte. Their texts follow one another in the source, and what stands between them is blanks and
comments; the text of a token is its spelling, but for the case of keywords and for quoted texts. -/
theorem Stream.ofText_laidOut (source : String) :
    (Stream.ofText source).LaidOut source.toList 0 :=
  laidOut_ofCursor (.ofText source) [] rfl

def Item.position : Item → Position
  | .token t => t.position
  | .finish p => p
  | .failure e => e.position

theorem Cursor.position_le_skipGap (c : Cursor) : c.position ≤ c.skipGap.position := by
  cases hrest : c.skipGap.rest with
  | nil =>
    have hle := c.position.le_after c.rest
    rw [(skipGap_finish hrest).2]
    split
    · exact Position.le_trans hle (.inr ⟨rfl, Nat.le_add_right _ _⟩)
    · exact hle
  | cons d ds =>
    obtain ⟨gap, -, -, hposition⟩ := skipGap_token hrest
    rw [hposition]
    exact c.position.le_after gap

/-- Each token stands after the one before it, and the end or the mistake after all of them. -/
theorem Stream.ascending_ofCursor (c : Cursor) :
    (∀ item ∈ (ofCursor c).items, c.position ≤ item.position) ∧
      (ofCursor c).items.Pairwise (·.position < ·.position) := by
  fun_induction ofCursor c with
  | case1 c start _ =>
    exact ⟨List.forall_mem_singleton.2 c.position_le_skipGap, List.pairwise_singleton _ _⟩
  | case2 c start d ds _ t n _ ih =>
    obtain ⟨hle, hpairwise⟩ := ih
    have hstart := c.position_le_skipGap
    have hlt := start.position.lt_after d (ds.take n)
    refine ⟨List.forall_mem_cons.2 ⟨hstart, fun item hitem => ?_⟩,
      List.pairwise_cons.2 ⟨fun item hitem => Position.lt_of_lt_of_le hlt (hle item hitem),
        hpairwise⟩⟩
    exact Position.le_trans hstart (Position.le_trans (Position.le_of_lt hlt) (hle item hitem))
  | case3 c start d ds _ e n _ =>
    exact ⟨List.forall_mem_singleton.2 c.position_le_skipGap, List.pairwise_singleton _ _⟩

/-- The end stands just past the text, or two columns further after a comment that is never
closed. -/
theorem Stream.finish_ofCursor {cs : List Char} {p q : Position}
    (h : .finish q ∈ (ofCursor ⟨cs, p⟩).items) :
    q = if endsInComment cs then (p.after cs).pastMark else p.after cs := by
  fun_induction endsInComment cs generalizing p with
  | case1 cs hend =>
    rw [← Cursor.rest_skipGap cs p] at hend
    rw [ofCursor_finish hend, items, List.mem_singleton, Item.finish.injEq] at h
    exact h.trans (Cursor.skipGap_finish hend).2
  | case2 cs d ds hstart t n hlex ih =>
    rw [← Cursor.rest_skipGap cs p] at hstart
    obtain ⟨gap, -, hrest, hposition⟩ := Cursor.skipGap_token hstart
    have hafter : p.after cs = ((p.after gap).after (d :: ds.take n)).after (ds.drop n) := by
      rw [← Position.after_append, ← Position.after_append, show cs = gap ++ d :: ds from hrest]
      simp
    rw [ofCursor_token hstart hlex, hposition] at h
    rw [hafter]
    exact ih (List.mem_of_ne_of_mem (by simp) h)
  | case3 cs d ds hstart e hlex =>
    rw [← Cursor.rest_skipGap cs p] at hstart
    rw [ofCursor_failure hstart hlex, items, List.mem_singleton] at h
    cases h

end TorqueScript
