import Mathlib.Data.List.Nodup
import TorqueScript.Proofs.Program.Mistakes
import TorqueScript.Proofs.Token.Layout

/-!
What a diagnostic says about the source. A source with a mistake among its tokens is
never accepted, and the mistake reported is that one or one before it. A diagnostic
stands where one of the tokens stands and names that token, with two exceptions. An
object nested in a datablock is reported at the token after the block, and the end of
a source that a block comment cuts off is put two columns too far.
-/

namespace TorqueScript

open Parse

/-- The item is a token with this spelling, or the end of the source, and it stands there. -/
def Item.Shows (spelling : String) (p : Position) : Item → Prop
  | .token t => t.token.spelling = spelling ∧ t.position = p
  | .finish q => "end of input" = spelling ∧ q = p
  | .failure _ => False

instance (spelling : String) (p : Position) : DecidablePred (Item.Shows spelling p)
  | .token _ => inferInstanceAs (Decidable (_ ∧ _))
  | .finish _ => inferInstanceAs (Decidable (_ ∧ _))
  | .failure _ => inferInstanceAs (Decidable False)

namespace Item.Shows

variable {item : Item} {spelling : String} {p : Position}

theorem position_eq (h : item.Shows spelling p) : item.position = p := by
  cases item with
  | token t => exact h.2
  | finish q => exact h.2
  | failure e => cases h

theorem spelling_unique {spelling' : String} {p' : Position} (h : item.Shows spelling p)
    (h' : item.Shows spelling' p') : spelling = spelling' := by
  cases item with
  | token t => exact h.1.symm.trans h'.1
  | finish q => exact h.1.symm.trans h'.1
  | failure e => cases h

theorem ne_failure (h : item.Shows spelling p) (e : ScanError) : item ≠ .failure e := by
  rintro rfl
  exact h

end Item.Shows

namespace Stream

variable {s : Stream} {item : Item} {e : ScanError}

theorem failure_unique {e' : ScanError} (h : .failure e ∈ s.items) (h' : .failure e' ∈ s.items) :
    e = e' := by
  induction s with
  | finish p => simp [items] at h
  | failure f => simp_all [items]
  | cons t s ih => exact ih (by simpa [items] using h) (by simpa [items] using h')

/-- Everything else stands before the mistake that ends the tokens. -/
theorem position_lt_failure (hs : s.items.Pairwise (·.position < ·.position))
    (he : .failure e ∈ s.items) (hitem : item ∈ s.items) (hne : item ≠ .failure e) :
    item.position < e.position := by
  induction s with
  | finish p => simp [items] at he
  | failure f => simp_all [items]
  | cons t s ih =>
    obtain ⟨hhead, htail⟩ := List.pairwise_cons.1 hs
    have he : .failure e ∈ s.items := by simpa [items] using he
    rcases List.mem_cons.1 hitem with rfl | hitem
    · exact hhead _ he
    · exact ih htail he hitem

theorem eq_of_position {item' : Item} (hs : s.items.Pairwise (·.position < ·.position))
    (h : item ∈ s.items) (h' : item' ∈ s.items) (hp : item.position = item'.position) :
    item = item' := by
  have hnodup : (s.items.map Item.position).Nodup := by
    rw [List.Nodup, List.pairwise_map]
    exact hs.imp fun hlt => Position.ne_of_lt hlt
  exact List.inj_on_of_nodup_map hnodup h h' hp

/-- A token or a mistake stands at a byte of the source. -/
theorem LaidOut.isAt {source : List Char} {i : Nat} (h : s.LaidOut source i)
    (hitem : item ∈ s.items) (hne : ∀ p, item ≠ .finish p) :
    ∃ offset, item.position.IsAt source offset := by
  induction s generalizing i with
  | finish p => exact absurd (List.mem_singleton.1 hitem) (hne p)
  | failure f =>
    obtain ⟨start, stop, -, hlies⟩ := h
    rw [List.mem_singleton.1 hitem]
    exact ⟨start, hlies.first⟩
  | cons t s ih =>
    obtain ⟨start, stop, -, hlies, hrest⟩ := h
    rcases List.mem_cons.1 hitem with rfl | hitem
    · exact ⟨start, hlies.first⟩
    · exact ih hrest hitem

theorem ascending_ofText (source : String) :
    (ofText source).items.Pairwise (·.position < ·.position) :=
  (ascending_ofCursor (.ofText source)).2

theorem finish_ofText {source : String} {p : Position} (h : .finish p ∈ (ofText source).items) :
    p = if endsInComment source.toList then (Position.ofPrefix source.toList).pastMark
      else Position.ofPrefix source.toList := by
  rw [← Position.after_start]
  exact finish_ofCursor h

/-- The end of a source lies in it, but for the columns of a mark that is missing there. -/
theorem finish_within_iff {source : String} {p : Position}
    (h : .finish p ∈ (ofText source).items) :
    p.Within source.toList ↔ endsInComment source.toList = false := by
  have hend := finish_ofText h
  cases hcomment : endsInComment source.toList with
  | true =>
    rw [if_pos hcomment] at hend
    rw [hend]
    exact iff_of_false (Position.not_within_past source.toList (Nat.zero_lt_succ 1)) (by simp)
  | false =>
    rw [hcomment, if_neg Bool.false_ne_true] at hend
    have hlast := Position.within_ofPrefix source.toList []
    rw [List.append_nil, ← hend] at hlast
    exact iff_of_true hlast rfl

theorem within_ofText {source : String} (hitem : item ∈ (ofText source).items)
    (hne : ∀ p, item ≠ .finish p) : item.position.Within source.toList := by
  obtain ⟨offset, hat⟩ := (laidOut_ofCursor (.ofText source) [] rfl).isAt hitem hne
  exact hat.within

end Stream

namespace Parse

variable {s rest : Stream}

theorem LeadsTo.mem_items {item : Item} (h : LeadsTo s rest) (hitem : item ∈ rest.items) :
    item ∈ s.items := by
  induction h with
  | here _ => exact hitem
  | further _ ih => exact List.mem_cons_of_mem _ (ih hitem)

theorem LeadsTo.failure_mem {e : ScanError} (h : LeadsTo s rest) (he : .failure e ∈ s.items) :
    .failure e ∈ rest.items := by
  induction h with
  | here _ => exact he
  | further _ ih => exact ih (by simpa [Stream.items] using he)

theorem exists_shows_next (hs : Settled s) :
    ∃ item ∈ s.items, item.Shows (next s).1 (next s).2 := by
  cases s with
  | finish p => exact ⟨.finish p, List.mem_singleton_self _, rfl, rfl⟩
  | failure e => cases hs
  | cons t s => exact ⟨.token t, List.mem_cons_self, rfl, rfl⟩

theorem LeadsTo.exists_shows (h : LeadsTo s rest) :
    ∃ item ∈ s.items, item.Shows (next rest).1 (next rest).2 := by
  obtain ⟨item, hitem, hshows⟩ := exists_shows_next h.settled
  exact ⟨item, h.mem_items hitem, hshows⟩

/-- What is reported is the mistake that ends the tokens, or stands at a token or at the end. -/
theorem Reports.exists_item {e : SourceError} (h : Reports s e) :
    (∃ f, e = .scan f ∧ .failure f ∈ s.items) ∨
      ∃ item ∈ s.items, ∃ spelling, item.Shows spelling e.position := by
  induction h with
  | scan => exact .inl ⟨_, rfl, List.mem_singleton_self _⟩
  | numeral _ => exact .inr ⟨_, List.mem_cons_self, _, rfl, rfl⟩
  | unexpected hs _ | emptyLabel hs _ =>
    obtain ⟨item, hitem, hshows⟩ := exists_shows_next hs
    exact .inr ⟨item, hitem, _, hshows⟩
  | nested _ _ _ hrest =>
    obtain ⟨item, hitem, hshows⟩ := hrest.exists_shows
    exact .inr ⟨item, hitem, _, hshows⟩
  | unclosed => exact .inr ⟨_, List.mem_singleton_self _, _, rfl, rfl⟩
  | later _ ih =>
    rcases ih with ⟨f, he, hf⟩ | ⟨item, hitem, hshows⟩
    · exact .inl ⟨f, he, List.mem_cons_of_mem _ hf⟩
    · exact .inr ⟨item, List.mem_cons_of_mem _ hitem, hshows⟩

/-- Somewhere in the tokens stands a block that nests objects, and `rest` comes after it. -/
def NestsBefore (s rest : Stream) : Prop :=
  ∃ block fields children, LeadsTo s block ∧ LeadsTo block rest ∧ children ≠ [] ∧
    (objectBlock block).Reads (fields, children) rest

/-- An unexpected token is named where it stands, unless it is an object nested in a datablock. -/
theorem Reports.unexpected_cases {expected found : String} {p : Position}
    (h : Reports s (.unexpected expected found p)) :
    (expected ≠ fieldsOnly ∧ ∃ item ∈ s.items, item.Shows found p) ∨
      (expected = fieldsOnly ∧ found = Keyword.spelling .new ∧
        ∃ rest, NestsBefore s rest ∧ p = (next rest).2) := by
  generalize he : SourceError.unexpected expected found p = e at h
  induction h with
  | scan | numeral _ | unclosed | emptyLabel _ _ => cases he
  | unexpected hs hexpected =>
    cases he
    exact .inl ⟨hexpected, exists_shows_next hs⟩
  | nested hs hblock hchildren hrest =>
    cases he
    exact .inr ⟨rfl, rfl, _, ⟨_, _, _, .here hs, hrest, hchildren, hblock⟩, rfl⟩
  | later _ ih =>
    rcases ih he with
      ⟨hexpected, item, hitem, hshows⟩ | ⟨hexpected, hfound, rest, ⟨block, _, _, hblock, h⟩, hp⟩
    · exact .inl ⟨hexpected, item, List.mem_cons_of_mem _ hitem, hshows⟩
    · exact .inr ⟨hexpected, hfound, rest, ⟨block, _, _, .further hblock, h⟩, hp⟩

end Parse

namespace Program

variable {source : String}

theorem reports_of_ofText {e : SourceError} (h : ofText source = .error e) :
    Reports (.ofText source) e := by
  have hconcludes := ofStream_concludes (.ofText source)
  rw [show ofStream (.ofText source) = .error e from h] at hconcludes
  exact hconcludes

theorem consumes_of_ofText {program : Program} (h : ofText source = .ok program) :
    ∃ p, Consumes (.ofText source) program (.finish p) ∧ LeadsTo (.ofText source) (.finish p) := by
  have hconcludes := ofStream_concludes (.ofText source)
  rw [show ofStream (.ofText source) = .ok program from h] at hconcludes
  exact hconcludes

/-- A mistake is never passed over. It is reported itself, or something that stands before it is;
and a program that is accepted consumes all tokens of a source without one. -/
theorem ofText_rejects_failure (source : String) :
    (∀ e, .failure e ∈ (Stream.ofText source).items →
      ∃ err, ofText source = .error err ∧ (err = .scan e ∨ err.position < e.position)) ∧
    (∀ program, ofText source = .ok program →
      (∃ p, Consumes (.ofText source) program (.finish p) ∧
        LeadsTo (.ofText source) (.finish p)) ∧
      ∀ e, .failure e ∉ (Stream.ofText source).items) := by
  have haccepted : ∀ program, ofText source = .ok program →
      ∀ e, .failure e ∉ (Stream.ofText source).items := by
    intro program h e he
    obtain ⟨p, -, hend⟩ := consumes_of_ofText h
    cases List.mem_singleton.1 (hend.failure_mem he)
  refine ⟨fun e he => ?_, fun program h => ⟨consumes_of_ofText h, haccepted program h⟩⟩
  cases h : ofText source with
  | ok program => exact absurd he (haccepted program h e)
  | error err =>
    refine ⟨err, rfl, ?_⟩
    rcases (reports_of_ofText h).exists_item with ⟨f, rfl, hf⟩ | ⟨item, hitem, spelling, hshows⟩
    · exact .inl (congrArg SourceError.scan (Stream.failure_unique hf he))
    · right
      rw [← hshows.position_eq]
      exact Stream.position_lt_failure (Stream.ascending_ofText source) he hitem
        (hshows.ne_failure e)

/-- The token that a diagnostic calls unexpected stands where it says. Only an object nested in a
datablock is reported at what follows the block, where it is right by chance alone. -/
theorem unexpected_shown_iff {expected found : String} {p : Position}
    (h : ofText source = .error (.unexpected expected found p)) :
    (∃ item ∈ (Stream.ofText source).items, item.Shows found p) ↔
      ¬ (expected = fieldsOnly ∧ found = Keyword.spelling .new ∧
        ∃ rest, NestsBefore (.ofText source) rest ∧ p = (next rest).2 ∧ (next rest).1 ≠ found) := by
  constructor
  · rintro ⟨item, hitem, hshows⟩
      ⟨-, -, rest, ⟨block, _, _, hblock, hrest, -⟩, rfl, hne⟩
    obtain ⟨item', hitem', hshows'⟩ := (hblock.trans hrest).exists_shows
    -- Two items at one position are the same one, so it would have two spellings.
    have heq := Stream.eq_of_position (Stream.ascending_ofText source) hitem' hitem
      (hshows'.position_eq.trans hshows.position_eq.symm)
    exact hne ((heq ▸ hshows').spelling_unique hshows)
  · intro hnot
    rcases (reports_of_ofText h).unexpected_cases with
      ⟨-, hshown⟩ | ⟨hexpected, hfound, rest, hnests, hp⟩
    · exact hshown
    · have hnext : (next rest).1 = found := by
        by_contra hne
        exact hnot ⟨hexpected, hfound, rest, hnests, hp, hne⟩
      obtain ⟨block, _, _, hblock, hrest, -⟩ := hnests
      rw [← hnext, hp]
      exact (hblock.trans hrest).exists_shows

theorem unexpected_shown_semicolon :
    ofText "%x = %y;\n  foo(;" = .error (.unexpected "expression" ";" ⟨2, 7⟩) ∧
      ((∃ item ∈ (Stream.ofText "%x = %y;\n  foo(;").items, item.Shows ";" ⟨2, 7⟩) ↔
        ¬ ("expression" = fieldsOnly ∧ ";" = Keyword.spelling .new ∧
          ∃ rest, NestsBefore (.ofText "%x = %y;\n  foo(;") rest ∧ ⟨2, 7⟩ = (next rest).2 ∧
            (next rest).1 ≠ ";")) := by
  have h : ofText "%x = %y;\n  foo(;" = .error (.unexpected "expression" ";" ⟨2, 7⟩) := by
    decide +kernel
  exact ⟨h, unexpected_shown_iff h⟩

/-- The object stands in column 18, and in column 28 the semicolon after the block. -/
theorem unexpected_not_shown :
    ofText "datablock D(X) \x7b new A(); \x7d;" = .error (.unexpected fieldsOnly "new" ⟨1, 28⟩) ∧
      ¬ ∃ item ∈ (Stream.ofText "datablock D(X) \x7b new A(); \x7d;").items,
        item.Shows "new" ⟨1, 28⟩ := by
  decide +kernel

/-- Every position that is reported lies in the source, but for the end of a source that a block
comment cuts off. -/
theorem position_within_iff (source : String) :
    (∀ e, .failure e ∈ (Stream.ofText source).items → e.position.Within source.toList) ∧
    (∀ err, ofText source = .error err →
      (err.position.Within source.toList ↔ ¬ (endsInComment source.toList = true ∧
        .finish err.position ∈ (Stream.ofText source).items))) ∧
    ∀ p, .finish p ∈ (Stream.ofText source).items →
      p = if endsInComment source.toList then (Position.ofPrefix source.toList).pastMark
        else Position.ofPrefix source.toList := by
  refine ⟨fun e he => Stream.within_ofText he (fun _ => Item.noConfusion), fun err herr => ?_,
    fun p => Stream.finish_ofText⟩
  by_cases hfinish : .finish err.position ∈ (Stream.ofText source).items
  · rw [Stream.finish_within_iff hfinish]
    simp [hfinish]
  · -- Anything else that is reported stands at a token or at the mistake that ends them.
    refine iff_of_true ?_ fun h => hfinish h.2
    rcases (reports_of_ofText herr).exists_item with ⟨f, rfl, hf⟩ | ⟨item, hitem, _, hshows⟩
    · exact Stream.within_ofText hf (fun _ => Item.noConfusion)
    · have hposition := hshows.position_eq
      rw [← hposition]
      refine Stream.within_ofText hitem fun p hp => hfinish ?_
      subst hp
      exact hposition ▸ hitem

/-- The source ends with column 5, so the last place in it is column 6. -/
theorem position_not_within :
    ofText "%a /*" = .error (.unexpected ";" "end of input" ⟨1, 8⟩) ∧
      ¬ (Position.mk 1 8).Within "%a /*".toList := by
  constructor
  · decide +kernel
  · have hend : Position.ofPrefix "%a /*".toList = ⟨1, 6⟩ := rfl
    have hpast := Position.not_within_past "%a /*".toList (Nat.zero_lt_succ 1)
    rwa [hend] at hpast

end Program

end TorqueScript
