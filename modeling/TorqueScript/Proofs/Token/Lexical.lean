import TorqueScript.Proofs.Token.Lexemes
import TorqueScript.Proofs.Program.Origins

/-!
What reading guarantees of the tokens. A name that was read is a word and no keyword,
and the name of a variable is a path, so each can be written down and read again. The ways
to read a token are told apart once, and what holds of all tokens goes by these cases.
-/

namespace TorqueScript

open Text Scan

/-- What every token of a source text is like. Only a global variable can have an empty name. -/
def Token.Lexical : Token → Prop
  | .name s => IsName s
  | .localVariable path => IsVariable .local path
  | .globalVariable path => path ≠ "" → IsVariable .global path
  | _ => True

theorem variablePath_isPrefix (cs : List Char) : variablePath cs <+: cs := by
  fun_induction variablePath cs with
  | case1 => exact List.nil_prefix
  | case2 c cs hc ih => exact List.cons_prefix_cons.2 ⟨rfl, ih⟩
  | case3 d cs hc hd ih => simpa using ih
  | case4 => exact List.nil_prefix
  | case5 => exact List.nil_prefix

/-- A path that is not empty begins as the text does that it was read from. -/
theorem startsWith_variablePath {P : Char → Bool} {cs : List Char} (hP : startsWith P cs = true)
    (hne : variablePath cs ≠ []) : startsWith P (variablePath cs) = true := by
  obtain ⟨after, hafter⟩ := variablePath_isPrefix cs
  cases hpath : variablePath cs with
  | nil => exact absurd hpath hne
  | cons d ds =>
    rw [hpath] at hafter
    rw [← hafter] at hP
    exact hP

theorem isVariable_variablePath {scope : Scope} {cs : List Char}
    (hstart : startsWith (fun c => isLetter c || scope = .global && c == ':') cs = true)
    (hne : variablePath cs ≠ []) : IsVariable scope (String.ofList (variablePath cs)) where
  start := by rw [String.toList_ofList]; exact startsWith_variablePath hstart hne
  path := by rw [String.toList_ofList]; exact variablePath_idem cs

theorem variablePath_ne_nil {cs : List Char} (h : startsWith isLetter cs = true) :
    variablePath cs ≠ [] := by
  cases cs with
  | nil => cases h
  | cons c cs =>
    have hc : isLetter c = true := h
    rw [variablePath.eq_def]
    simp [isNameChar, hc]

/-- The token `t` begins with `c` and goes on over the first `n` characters of `cs`, with what its
kind asks of them. -/
inductive Scan.ReadsAs (c : Char) (cs : List Char) : Token → Nat → Prop
  | keyword {k : Keyword}
      (hname : Keyword.ofName? (String.ofList (c :: cs.takeWhile isNameChar)) = some k) :
      ReadsAs c cs (.keyword k) (cs.takeWhile isNameChar).length
  | switchText
      (hname : Keyword.ofName? (String.ofList (c :: cs.takeWhile isNameChar)) = some .switch)
      (hdollar : startsWith (· == '$') (cs.drop (cs.takeWhile isNameChar).length) = true) :
      ReadsAs c cs (.keyword .switchText) ((cs.takeWhile isNameChar).length + 1)
  | name (hletter : isLetter c = true)
      (hname : Keyword.ofName? (String.ofList (c :: cs.takeWhile isNameChar)) = none) :
      ReadsAs c cs (.name (String.ofList (c :: cs.takeWhile isNameChar)))
        (cs.takeWhile isNameChar).length
  | numeral (hdigit : (c.isDigit || c == '.' && startsWith Char.isDigit cs) = true)
      (hcomplete : (numeralLength (c :: cs)).2 = true) :
      ReadsAs c cs (.numeral (String.ofList ((c :: cs).take (numeralLength (c :: cs)).1)))
        ((numeralLength (c :: cs)).1 - 1)
  | text (hquote : (c == '\x22' || c == '\x27') = true) (hclosed : (quotedText c cs).2 = true) :
      ReadsAs c cs (.text (String.ofList (unescape (quotedText c cs).1)))
        ((quotedText c cs).1.length + 1)
  | localVariable (hsign : c = '%') (hstart : startsWith isLetter cs = true) :
      ReadsAs c cs (.localVariable (String.ofList (variablePath cs))) (variablePath cs).length
  | globalVariable (hsign : c = '$')
      (hstart : startsWith (fun d => isLetter d || d == ':') cs = true) :
      ReadsAs c cs (.globalVariable (String.ofList (variablePath cs))) (variablePath cs).length
  | symbol {x : Symbol} (hleading : Symbol.leading? (c :: cs) = some x) :
      ReadsAs c cs (.symbol x) (x.spelling.length - 1)

theorem readsAs_of_lexeme {c : Char} {cs : List Char} {t : Token} {n : Nat}
    (h : lexeme c cs = .ok (t, n)) : ReadsAs c cs t n := by
  unfold lexeme at h
  split at h
  · rename_i hletter
    simp only at h
    split at h
    · rename_i hswitch
      split at h
      · rename_i hdollar
        cases h
        exact .switchText hswitch hdollar
      · cases h
        exact .keyword hswitch
    · rename_i hkeyword
      cases h
      exact .keyword hkeyword
    · rename_i hplain
      cases h
      exact .name hletter hplain
  split at h
  · rename_i hdigit
    simp only at h
    split at h
    · rename_i hcomplete
      cases h
      exact .numeral hdigit (Bool.and_eq_true_iff.1 hcomplete).1
    · cases h
  split at h
  · rename_i hquote
    simp only at h
    split at h
    · rename_i hclosed
      cases h
      exact .text hquote hclosed
    · cases h
  split at h
  · rename_i hlocal
    obtain ⟨hsign, hstart⟩ := Bool.and_eq_true_iff.1 hlocal
    cases h
    exact .localVariable (eq_of_beq hsign) hstart
  split at h
  · rename_i hglobal
    obtain ⟨hsign, hstart⟩ := Bool.and_eq_true_iff.1 hglobal
    cases h
    exact .globalVariable (eq_of_beq hsign) hstart
  · split at h
    · rename_i hleading
      cases h
      exact .symbol hleading
    · cases h

theorem lexical_of_lexeme {c : Char} {cs : List Char} {t : Token} {n : Nat}
    (h : lexeme c cs = .ok (t, n)) : t.Lexical := by
  cases readsAs_of_lexeme h with
  | name hletter hplain =>
    refine ⟨⟨c, cs.takeWhile isNameChar, String.toList_ofList, hletter, fun d hd => ?_⟩, hplain⟩
    exact List.all_eq_true.1 List.all_takeWhile d hd
  | localVariable hsign hstart =>
    exact isVariable_variablePath (startsWith_of_imp (by simp +contextual) hstart)
      (variablePath_ne_nil hstart)
  | globalVariable hsign hstart =>
    intro hne
    refine isVariable_variablePath (startsWith_of_imp (by simp) hstart) fun hnil => hne ?_
    rw [hnil]
  | keyword => trivial
  | switchText => trivial
  | numeral => trivial
  | text => trivial
  | symbol => trivial

/-- A property of all lexemes is one of all tokens of a source text. -/
theorem Stream.forall_ofCursor {P : Token → Prop}
    (hP : ∀ {c cs t n}, lexeme c cs = .ok (t, n) → P t) (c : Cursor) : (ofCursor c).Forall P := by
  fun_induction ofCursor c with
  | case1 => trivial
  | case2 c start d ds hstart t n hlex ih => exact ⟨hP hlex, ih⟩
  | case3 => trivial

end TorqueScript
