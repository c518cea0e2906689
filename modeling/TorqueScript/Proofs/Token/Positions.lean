import Mathlib.Data.List.DropRight
import TorqueScript.Position
import TorqueScript.Text.Bytes

/-!
Positions and what they count. The position after a text has one line for each line
break in it and one column for each byte since the last one. Positions are ordered
by line and then by column, and every character moves on in that order. A position
that a part of a text leads to lies within that text.
-/

namespace TorqueScript

open Text

namespace Text

theorem foldl_utf8Size (n : Nat) (cs : List Char) :
    cs.foldl (fun n c => n + c.utf8Size) n = n + byteLength cs := by
  unfold byteLength
  induction cs generalizing n with
  | nil => rfl
  | cons c cs ih =>
    rw [List.foldl_cons, List.foldl_cons, ih, ih (0 + c.utf8Size)]
    omega

@[simp]
theorem byteLength_nil : byteLength [] = 0 := rfl

@[simp]
theorem byteLength_cons (c : Char) (cs : List Char) :
    byteLength (c :: cs) = c.utf8Size + byteLength cs := by
  rw [byteLength, List.foldl_cons, foldl_utf8Size, Nat.zero_add]

@[simp]
theorem byteLength_append (cs ds : List Char) :
    byteLength (cs ++ ds) = byteLength cs + byteLength ds := by
  induction cs with
  | nil => simp
  | cons c cs ih => rw [List.cons_append, byteLength_cons, byteLength_cons, ih, Nat.add_assoc]

theorem byteLength_pos {cs : List Char} (h : cs ≠ []) : 0 < byteLength cs := by
  cases cs with
  | nil => exact absurd rfl h
  | cons c cs =>
    have hc := c.utf8Size_pos
    rw [byteLength_cons]
    omega

/-- The text stands in the source from the byte `start` to the byte `stop`. -/
def StandsAt (source : List Char) (start stop : Nat) (text : List Char) : Prop :=
  ∃ before after, source = before ++ text ++ after ∧ start = byteLength before ∧
    stop = byteLength (before ++ text)

theorem standsAt_append (before text after : List Char) :
    StandsAt (before ++ text ++ after) (byteLength before) (byteLength (before ++ text)) text :=
  ⟨before, after, rfl, rfl, rfl⟩

end Text

namespace Position

instance : LT Position :=
  ⟨fun p q => p.line < q.line ∨ p.line = q.line ∧ p.column < q.column⟩

instance : LE Position :=
  ⟨fun p q => p.line < q.line ∨ p.line = q.line ∧ p.column ≤ q.column⟩

theorem lt_def {p q : Position} :
    p < q ↔ p.line < q.line ∨ p.line = q.line ∧ p.column < q.column :=
  Iff.rfl

theorem le_def {p q : Position} :
    p ≤ q ↔ p.line < q.line ∨ p.line = q.line ∧ p.column ≤ q.column :=
  Iff.rfl

theorem le_refl (p : Position) : p ≤ p :=
  .inr ⟨rfl, Nat.le_refl _⟩

theorem le_of_lt {p q : Position} (h : p < q) : p ≤ q := by
  rw [lt_def] at h
  rw [le_def]
  omega

theorem le_trans {p q r : Position} (h : p ≤ q) (h' : q ≤ r) : p ≤ r := by
  rw [le_def] at *
  omega

theorem lt_of_lt_of_le {p q r : Position} (h : p < q) (h' : q ≤ r) : p < r := by
  rw [lt_def, le_def] at *
  omega

theorem ne_of_lt {p q : Position} (h : p < q) : p ≠ q := by
  rintro rfl
  rw [lt_def] at h
  omega

theorem lt_step (p : Position) (c : Char) : p < p.step c := by
  have hc := c.utf8Size_pos
  rw [lt_def, step]
  split
  · exact .inl (Nat.lt_succ_self _)
  · exact .inr ⟨rfl, Nat.lt_add_of_pos_right hc⟩

theorem le_after (p : Position) (cs : List Char) : p ≤ p.after cs := by
  induction cs generalizing p with
  | nil => exact le_refl p
  | cons c cs ih => exact le_trans (le_of_lt (lt_step p c)) (ih (p.step c))

theorem lt_after (p : Position) (c : Char) (cs : List Char) : p < p.after (c :: cs) :=
  lt_of_lt_of_le (lt_step p c) (le_after (p.step c) cs)

/-- The position after a text, counted anew: its lines by line breaks, its columns by the bytes
since the last one. -/
def ofPrefix (before : List Char) : Position :=
  ⟨1 + before.count '\n', 1 + byteLength (before.rtakeWhile (· != '\n'))⟩

theorem after_start (before : List Char) : start.after before = ofPrefix before := by
  induction before using List.reverseRecOn with
  | nil => rfl
  | append_singleton before c ih =>
    rw [after_append, ih, ofPrefix, ofPrefix, List.rtakeWhile_concat, List.count_append]
    by_cases hc : c = '\n'
    · subst hc
      simp [after, step, Nat.add_assoc]
    · simp [after, step, hc, Nat.add_assoc]

/-- The position is that of the byte `offset` of the text. -/
def IsAt (source : List Char) (offset : Nat) (p : Position) : Prop :=
  ∃ before after, source = before ++ after ∧ offset = byteLength before ∧ p = ofPrefix before

/-- The position is in a line of the text, or just past the end of that line. -/
def Within (source : List Char) (p : Position) : Prop :=
  1 ≤ p.line ∧ p.line ≤ source.count '\n' + 1 ∧ 1 ≤ p.column ∧
    ∃ line, (source.splitOn '\n')[p.line - 1]? = some line ∧ p.column ≤ byteLength line + 1

theorem length_splitOn (cs : List Char) : (cs.splitOn '\n').length = cs.count '\n' + 1 := by
  induction cs with
  | nil => rfl
  | cons c cs ih =>
    rw [List.splitOn_cons_eq_if_modifyHead, List.count_cons]
    split
    · rw [List.length_cons, ih]
    · rw [List.length_modifyHead, ih, Nat.add_zero]

theorem head_splitOn (cs : List Char) :
    (cs.splitOn '\n')[0]? = some (cs.takeWhile (· != '\n')) := by
  induction cs with
  | nil => rfl
  | cons c cs ih =>
    rw [List.splitOn_cons_eq_if_modifyHead]
    by_cases hc : c = '\n'
    · simp [hc]
    · simp [hc, ih]

/-- The line that a position is in goes on to the next line break. -/
theorem getElem?_splitOn (before after : List Char) :
    ((before ++ after).splitOn '\n')[before.count '\n']? =
      some (before.rtakeWhile (· != '\n') ++ after.takeWhile (· != '\n')) := by
  induction before using List.reverseRecOn generalizing after with
  | nil => exact head_splitOn after
  | append_singleton before c ih =>
    rw [List.append_assoc, List.singleton_append]
    by_cases hc : c = '\n'
    · subst hc
      have hcount : (before ++ ['\n']).count '\n' = (before.splitOn '\n').length := by
        simp [length_splitOn]
      rw [List.splitOn_append_cons_self, hcount, List.getElem?_append_right (Nat.le_refl _),
        Nat.sub_self, head_splitOn, List.rtakeWhile_concat_neg _ _ _ (by simp), List.nil_append]
    · rw [List.count_append, List.count_singleton, if_neg (by simpa using hc), Nat.add_zero, ih]
      simp [hc]

theorem within_ofPrefix (before after : List Char) :
    (ofPrefix before).Within (before ++ after) := by
  have hindex : before.count '\n' = (ofPrefix before).line - 1 := by
    rw [ofPrefix, Nat.add_sub_cancel_left]
  have hline := getElem?_splitOn before after
  rw [hindex] at hline
  refine ⟨Nat.le_add_right _ _, ?_, Nat.le_add_right _ _, _, hline, ?_⟩
  · simp only [ofPrefix, List.count_append]
    omega
  · simp only [ofPrefix, byteLength_append]
    omega

theorem IsAt.within {source : List Char} {offset : Nat} {p : Position} (h : p.IsAt source offset) :
    p.Within source := by
  obtain ⟨before, after, rfl, -, rfl⟩ := h
  exact within_ofPrefix before after

/-- Columns past the end of a text are in none of its lines. -/
theorem not_within_past (source : List Char) {n : Nat} (hn : 0 < n) :
    ¬ Within source ⟨(ofPrefix source).line, (ofPrefix source).column + n⟩ := by
  rintro ⟨-, -, -, line, hline, hcolumn⟩
  have hlast := getElem?_splitOn source []
  rw [List.append_nil, List.takeWhile_nil, List.append_nil] at hlast
  rw [ofPrefix, Nat.add_sub_cancel_left, hlast, Option.some.injEq] at hline
  subst hline
  simp only [ofPrefix] at hcolumn
  omega

end Position

end TorqueScript
