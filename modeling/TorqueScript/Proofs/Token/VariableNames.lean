import TorqueScript.Proofs.Token.QuotedTexts
import TorqueScript.Proofs.Token.Spelling

/-!
The names of variables. The path after a sign consists of the name characters that come first
and of words with double colons before them. After the sign of a local variable a letter
stands, so that the first part is a word as well. The sign of a global variable may have a
colon after it. If that colon begins double colons and a letter, the first part is empty and
the name begins with double colons; otherwise the path is empty, and so is the name.
-/

namespace TorqueScript

open Text Scan

/-- Words, each with double colons before it. -/
def furtherSegments (words : List (List Char)) : List Char :=
  words.flatMap fun word => ':' :: ':' :: word

theorem intercalate_colons (word : List Char) (words : List (List Char)) :
    [':', ':'].intercalate (word :: words) = word ++ furtherSegments words := by
  induction words generalizing word with
  | nil => simp [furtherSegments]
  | cons next rest ih => simp [List.intercalate_cons_cons, ih, furtherSegments]

/-- A path goes on with whole words after its first name characters. -/
theorem exists_words (cs : List Char) : ∃ words, (∀ word ∈ words, IsWord word) ∧
    variablePath cs = cs.takeWhile isNameChar ++ furtherSegments words := by
  fun_induction variablePath cs with
  | case1 => exact ⟨[], by simp, rfl⟩
  | case2 c cs hc ih =>
    obtain ⟨words, hwords, hpath⟩ := ih
    exact ⟨words, hwords, by rw [List.takeWhile_cons_of_pos hc, hpath, List.cons_append]⟩
  | case3 d cs hd hc ih =>
    obtain ⟨words, hwords, hpath⟩ := ih
    have hword : IsWord (d :: cs.takeWhile isNameChar) :=
      ⟨d, _, rfl, hd, List.all_eq_true.1 List.all_takeWhile⟩
    refine ⟨(d :: cs.takeWhile isNameChar) :: words, List.forall_mem_cons.2 ⟨hword, hwords⟩, ?_⟩
    rw [List.takeWhile_cons_of_neg hc, hpath]
    simp [furtherSegments]
  | case4 d cs hd hc => exact ⟨[], by simp, by rw [List.takeWhile_cons_of_neg hc]; rfl⟩
  | case5 c cs hc => exact ⟨[], by simp, by rw [List.takeWhile_cons_of_neg hc]; rfl⟩

theorem isPath_furtherSegments {word : List Char} {words : List (List Char)} (hword : IsWord word)
    (hwords : ∀ w ∈ words, IsWord w) : IsPath (String.ofList (word ++ furtherSegments words)) := by
  refine ⟨(word :: words).map String.ofList, by simp, ?_, ?_⟩
  · intro s hs
    obtain ⟨w, hw, rfl⟩ := List.mem_map.1 hs
    rw [String.toList_ofList]
    exact List.forall_mem_cons.2 ⟨hword, hwords⟩ w hw
  · rw [← String.toList_inj, String.toList_intercalate, String.toList_ofList, List.map_map,
      ← intercalate_colons]
    simp [Function.comp_def]

theorem isWord_takeWhile {cs : List Char} (h : startsWith isLetter cs = true) :
    IsWord (cs.takeWhile isNameChar) := by
  cases cs with
  | nil => cases h
  | cons c cs =>
    have hc : isLetter c = true := h
    have hname : isNameChar c = true := by simp [isNameChar, hc]
    rw [List.takeWhile_cons_of_pos hname]
    exact ⟨c, _, rfl, hc, List.all_eq_true.1 List.all_takeWhile⟩

/-- The path of a text that begins with a letter has one or more words. -/
theorem isPath_variablePath (cs : List Char) (h : startsWith isLetter cs = true) :
    IsPath (String.ofList (variablePath cs)) := by
  obtain ⟨words, hwords, hpath⟩ := exists_words cs
  rw [hpath]
  exact isPath_furtherSegments (isWord_takeWhile h) hwords

/-- A path that may have double colons before it. -/
def IsGlobalPath (name : String) : Prop :=
  ∃ path, IsPath path ∧ (name = path ∨ name = "::" ++ path)

theorem IsPath.ne_empty {path : String} (h : IsPath path) : path ≠ "" := by
  have hstart := (isVariable_of_isPath h .local).start
  rintro rfl
  cases hstart

theorem IsGlobalPath.ne_empty {name : String} (h : IsGlobalPath name) : name ≠ "" := by
  obtain ⟨path, hpath, rfl | rfl⟩ := h
  · exact hpath.ne_empty
  · intro hnil
    have hlength := congrArg String.toList hnil
    rw [String.toList_append] at hlength
    cases hlength

/-- A letter stands first, or after double colons. -/
def opensPath : List Char → Bool
  | ':' :: ':' :: d :: _ => isLetter d
  | c :: _ => isLetter c
  | [] => false

theorem opensPath_of_letter {c : Char} {cs : List Char} (hc : isLetter c = true) :
    opensPath (c :: cs) = true := by
  unfold opensPath
  split
  · rename_i heq
    obtain ⟨rfl, -⟩ := List.cons.inj heq
    exact absurd hc (by decide)
  · rename_i heq
    obtain ⟨rfl, -⟩ := List.cons.inj heq
    exact hc
  · rename_i heq
    cases heq

theorem isGlobalPath_variablePath {cs : List Char} (h : opensPath cs = true) :
    IsGlobalPath (String.ofList (variablePath cs)) := by
  unfold opensPath at h
  split at h
  · rename_i d rest
    have hcolon : isNameChar ':' = false := by decide
    have hpath : variablePath (':' :: ':' :: d :: rest) =
        ':' :: ':' :: variablePath (d :: rest) := by
      have hd : isNameChar d = true := by simp [isNameChar, h]
      rw [variablePath.eq_def (d :: rest)]
      simp [variablePath, hcolon, h, hd]
    refine ⟨_, isPath_variablePath (d :: rest) h, .inr ?_⟩
    rw [hpath, ← String.toList_inj]
    simp
  · rename_i c rest _
    exact ⟨_, isPath_variablePath (c :: rest) h, .inl rfl⟩
  · cases h

/-- A colon that begins no path gives an empty name. -/
theorem variablePath_lone_colon {rest : List Char} (h : opensPath (':' :: rest) = false) :
    variablePath (':' :: rest) = [] := by
  have hcolon : isNameChar ':' = false := by decide
  rw [variablePath.eq_def]
  simp only [hcolon, Bool.false_eq_true, if_false]
  split
  · rename_i d ds _
    have hd : isLetter d = false := h
    rw [hd]
    rfl
  · rfl

/-- What may follow the sign of a global variable opens a path, or is a colon that gives an empty
name. -/
theorem variablePath_of_not_opensPath {cs : List Char}
    (hnext : startsWith (fun d => isLetter d || d == ':') cs = true) (h : opensPath cs = false) :
    variablePath cs = [] ∧ startsWith (· == ':') cs = true := by
  cases cs with
  | nil => cases hnext
  | cons d rest =>
    rcases Bool.or_eq_true_iff.1 hnext with hletter | hcolon
    · rw [opensPath_of_letter hletter] at h
      cases h
    · obtain rfl := eq_of_beq hcolon
      exact ⟨variablePath_lone_colon h, rfl⟩

/-- The name of a local variable is a path. That of a global variable is what follows its sign, up
to where a path ends. It is a path, which may have double colons before it, exactly if a letter
stands after the sign or after double colons there. If not, it is empty, and the sign has a
colon after it that belongs to no name. -/
theorem variable_name_is_path_iff (source : String) (n : Nat) :
    (∀ name p, .token ⟨.localVariable name, p⟩ ∈ (Cursor.ofText source).steps n → IsPath name) ∧
    ∀ name p, .token ⟨.globalVariable name, p⟩ ∈ (Cursor.ofText source).steps n →
      ∃ before cs, source.toList = before ++ '$' :: cs ∧ p = Position.start.after before ∧
        name.toList <+: cs ∧ (IsGlobalPath name ↔ opensPath cs = true) ∧
        (opensPath cs = false → name = "" ∧ startsWith (· == ':') cs = true) := by
  have hstart : (Cursor.ofText source).Follows source.toList := ⟨[], rfl, fun _ => rfl⟩
  refine ⟨fun name p h => ?_, fun name p h => ?_⟩
  · obtain ⟨before, c, cs, k, -, -, hlex⟩ := hstart.exists_lexeme_of_mem n h
    cases readsAs_of_lexeme hlex with
    | localVariable hsign hletter => exact isPath_variablePath cs hletter
  · obtain ⟨before, c, cs, k, hsource, hposition, hlex⟩ := hstart.exists_lexeme_of_mem n h
    cases readsAs_of_lexeme hlex with
    | globalVariable hsign hnext =>
      subst hsign
      have hempty : opensPath cs = false →
          String.ofList (variablePath cs) = "" ∧ startsWith (· == ':') cs = true := by
        intro hclosed
        obtain ⟨hpath, hcolon⟩ := variablePath_of_not_opensPath hnext hclosed
        exact ⟨by rw [hpath], hcolon⟩
      refine ⟨before, cs, hsource, hposition, ?_,
        ⟨fun hpath => ?_, isGlobalPath_variablePath⟩, hempty⟩
      · rw [String.toList_ofList]
        exact variablePath_isPrefix cs
      · by_contra hclosed
        exact hpath.ne_empty (hempty (by simpa using hclosed)).1

/-- A sign with a single colon after it: the name is empty. -/
theorem variable_name_not_path :
    .token ⟨.globalVariable "", .start⟩ ∈ (Cursor.ofText "$:").steps 1 ∧ ¬ IsGlobalPath "" := by
  refine ⟨?_, fun h => h.ne_empty rfl⟩
  have hrest : (Cursor.ofText "$:").skipGap.rest = ['$', ':'] := by decide
  have hposition : (Cursor.ofText "$:").skipGap.position = .start := by decide
  have hstep := Cursor.step_token hrest (t := .globalVariable "") (n := 0) (by decide)
  rw [Cursor.steps, hstep, hposition]
  exact List.mem_cons_self ..

end TorqueScript
