import TorqueScript.Proofs.Program.Prolonging
import TorqueScript.Proofs.Program.StatementSpelling

/-!
Programs one after the other. A statement is read the same when others follow it,
even as the last one of its text: nothing that begins a statement goes on with the
one before it, not even after a conditional, since no statement begins with `else`.
So two source texts with a line break between them are read as the statements of
both.
-/

namespace TorqueScript

namespace Parse

open Result

section

variable {t s s' : Stream}

/-- Semicolons at the end stand before those that follow. -/
theorem skipSemicolons_joins {p : Position} {mid : Stream}
    (h : (skipSemicolons s).Reads () (.finish p)) (hs : Joins t s s')
    (ht : (skipSemicolons t).Reads () mid) : (skipSemicolons s').Reads () mid := by
  induction s generalizing s' with
  | finish p =>
    obtain ⟨-, hs⟩ := hs
    cases hs with
    | finish => exact ht
  | failure e => cases hs.left
  | cons token s ih =>
    obtain ⟨q, after, rfl, hafter⟩ := hs.of_cons
    rw [skipSemicolons_cons] at h
    split at h
    · rename_i htoken
      have hafter : Joins t s after := ⟨h.1, hafter⟩
      refine skipSemicolons_cons.2 ?_
      rw [if_pos htoken]
      exact ⟨hafter.right, ih h.2 hafter⟩
    · cases h

/-- The statements of both parts are read in order. -/
theorem statements_append {s s' : Stream} {b b' : List Statement} (h : statements s = .ok b)
    (hs : Joins t s s') (ht : statements t = .ok b') : statements s' = .ok (b ++ b') := by
  obtain ⟨mid, hskip, ⟨p, rfl, rfl⟩ | ⟨⟨token, p⟩, after, rfl, first, next, hfirst, others, hothers,
    rfl⟩⟩ := statements_eq_ok.1 h
  · obtain ⟨mid, hmid, h⟩ := statements_eq_ok.1 ht
    exact statements_eq_ok.2 ⟨mid, skipSemicolons_joins hskip hs hmid, h⟩
  · have hlt := hskip.lt
    have hlt' := hfirst.lt
    obtain ⟨_, hskip', hcons⟩ := skipSemicolons_follows hskip hs (Nat.succ_pos _)
    obtain ⟨q, after', rfl, -⟩ := hcons.of_cons
    obtain ⟨next', hfirst', hnext⟩ := statement_follows hfirst hcons
    exact statements_eq_ok.2 ⟨_, hskip', .inr ⟨_, _, rfl, first, next', hfirst', others ++ b',
      statements_append hothers hnext ht, rfl⟩⟩
termination_by s.length
decreasing_by simp only [Stream.length] at *; omega

/-- No statement begins with `else`. -/
theorem noElse_of_statements {b : List Statement} (h : statements s = .ok b) :
    isNext (.keyword .else) s = false := by
  cases s with
  | finish p => rfl
  | failure e => rfl
  | cons u after =>
    obtain ⟨token, p⟩ := u
    refine Bool.eq_false_iff.2 fun helse => ?_
    obtain rfl : token = .keyword .else := of_decide_eq_true helse
    obtain ⟨mid, hskip, hmid⟩ := statements_eq_ok.1 h
    rw [skipSemicolons_cons, if_neg (by simp)] at hskip
    subst hskip
    obtain ⟨q, hfinish, -⟩ | ⟨u, s', hcons, first, next, hfirst, -⟩ := hmid
    · cases hfinish
    · cases hcons
      have hkey : ∀ k ∈ statementKeywords,
          nextKeyword (.cons ⟨.keyword .else, p⟩ after) ≠ some k := by
        rintro k hk ⟨⟩
        exact absurd hk (by decide)
      obtain ⟨e, mid, he, -⟩ := expressionStatement_reads.1 ((statement_expression hkey).1 hfirst)
      obtain ⟨left, mid, hleft, -⟩ := expression_reads.1 he
      exact not_operand rfl hleft

end

end Parse

open Parse

theorem Program.ofStream_eq_ok {s : Stream} {p : Program} :
    Program.ofStream s = .ok p ↔ Settled s ∧ statements s = .ok p := by
  unfold Program.ofStream Settled
  cases lookAhead s with
  | error e => simp [bind, Except.bind]
  | ok u => simp [bind, Except.bind]

/-- A program is read the same wherever its text stands. -/
theorem Program.ofStream_moved {b : List Char} {p : Position} {program : Program}
    (h : Program.ofStream (.ofCursor ⟨b, p⟩) = .ok program) (q : Position) :
    Program.ofStream (.ofCursor ⟨b, q⟩) = .ok program := by
  obtain ⟨hset, hstatements⟩ := Program.ofStream_eq_ok.1 h
  obtain ⟨r, hmoved⟩ := Stream.prolongs_moved b p q
  have hjoin : Joins (.finish r) (.ofCursor ⟨b, p⟩) (.ofCursor ⟨b, q⟩) := ⟨hset, hmoved⟩
  have hend : statements (.finish r) = .ok [] := by rw [statements]; rfl
  have hread := statements_append hstatements hjoin hend
  rw [List.append_nil] at hread
  exact Program.ofStream_eq_ok.2 ⟨hjoin.right, hread⟩

/-- The text of one program, a line break and the text of another one are read as the statements of
both, unless the first text ends inside a block comment. -/
theorem Program.ofText_append {a b : String} {first second : Program}
    (ha : Program.ofText a = .ok first) (hb : Program.ofText b = .ok second)
    (hclosed : endsInComment a.toList = false) :
    Program.ofText (a ++ "\n" ++ b) = .ok (first ++ second) := by
  obtain ⟨hset, hfirst⟩ := Program.ofStream_eq_ok.1 ha
  have hsecond := fun q => Program.ofStream_eq_ok.1 (Program.ofStream_moved hb q)
  have hfresh := fun q => Fresh.mk (hsecond q).1 (noElse_of_statements (hsecond q).2)
  obtain ⟨q, hq⟩ := Stream.prolongs_ofCursor hclosed hfresh .start
  have hjoin : Joins (.ofCursor ⟨b.toList, q⟩) (.ofText a) (.ofText (a ++ "\n" ++ b)) := by
    refine ⟨hset, ?_⟩
    have htext : (a ++ "\n" ++ b).toList = a.toList ++ '\n' :: b.toList := by simp
    rw [Stream.ofText, Stream.ofText, Cursor.ofText, Cursor.ofText, htext]
    exact hq
  exact Program.ofStream_eq_ok.2 ⟨hjoin.right, statements_append hfirst hjoin (hsecond q).2⟩

/-- A conditional without `else` that a line comment follows, and a call after a block comment. -/
theorem Program.ofText_append_comments :
    endsInComment "if ($x) f(); // end".toList = false ∧
      Program.ofText "if ($x) f(); // end" =
        .ok [.branch (.read (.variable .global "x" [])) [.expr (.call none "f" [])] none] ∧
      Program.ofText "/* then */ g();" = .ok [.expr (.call none "g" [])] ∧
      Program.ofText ("if ($x) f(); // end" ++ "\n" ++ "/* then */ g();") =
        .ok [.branch (.read (.variable .global "x" [])) [.expr (.call none "f" [])] none,
          .expr (.call none "g" [])] := by
  have hclosed : endsInComment "if ($x) f(); // end".toList = false := by decide +kernel
  have hbranch : Stream.ofText "if ($x) f(); // end" =
      .cons ⟨.keyword .if, ⟨1, 1⟩⟩ (.cons ⟨.symbol .openParen, ⟨1, 4⟩⟩
        (.cons ⟨Scope.global.token "x", ⟨1, 5⟩⟩ (.cons ⟨.symbol .closeParen, ⟨1, 7⟩⟩
          (.cons ⟨.name "f", ⟨1, 9⟩⟩ (.cons ⟨.symbol .openParen, ⟨1, 10⟩⟩
            (.cons ⟨.symbol .closeParen, ⟨1, 11⟩⟩ (.cons ⟨.symbol .semicolon, ⟨1, 12⟩⟩
              (.finish ⟨1, 20⟩)))))))) := by
    decide +kernel
  have hfirst : Program.ofText "if ($x) f(); // end" =
      .ok [.branch (.read (.variable .global "x" [])) [.expr (.call none "f" [])] none] := by
    unfold Program.ofText
    rw [hbranch]
    exact (Says.completes (says_if_statement (.variable .noSubscripts)
      (says_expr (.call (.arguments .noElements))) rfl) completes_finish).ofStream
  have hcall : Stream.ofText "/* then */ g();" =
      .cons ⟨.name "g", ⟨1, 12⟩⟩ (.cons ⟨.symbol .openParen, ⟨1, 13⟩⟩
        (.cons ⟨.symbol .closeParen, ⟨1, 14⟩⟩ (.cons ⟨.symbol .semicolon, ⟨1, 15⟩⟩
          (.finish ⟨1, 16⟩)))) := by
    decide +kernel
  have hsecond : Program.ofText "/* then */ g();" = .ok [.expr (.call none "g" [])] := by
    unfold Program.ofText
    rw [hcall]
    exact ((says_expr (.call (.arguments .noElements))).completes completes_finish).ofStream
  exact ⟨hclosed, hfirst, hsecond, Program.ofText_append hfirst hsecond hclosed⟩

/-- An open comment takes in what follows. -/
example : endsInComment "f(); /*".toList = true ∧
    (Program.ofText ("f(); /*" ++ "\n" ++ "g();")).toOption.map List.length = some 1 := by
  decide +kernel

end TorqueScript
