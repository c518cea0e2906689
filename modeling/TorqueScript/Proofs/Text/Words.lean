import Mathlib.Data.List.GetD
import TorqueScript.Library

/-!
Texts seen through their components. What scripts see of a text is the component at each
position, which is empty past the last one; so the empty text, which has no components, looks
like a text with one empty component. Components without separators are found again in the
text that they are joined to, and with that every function on words or fields is known by the
components of its result.
-/

namespace TorqueScript

namespace Text.Listing

variable {l : Listing} {cs : List Char}

/-- There is no separator in the component. -/
def Plain (l : Listing) (p : List Char) : Prop :=
  ∀ c ∈ p, l.isSeparator c = false

theorem pieces_separator {c : Char} (hc : l.isSeparator c = true) :
    l.pieces (c :: cs) = [] :: l.pieces cs := by
  rw [pieces, if_pos hc]

theorem exists_pieces (l : Listing) (cs : List Char) : ∃ p ps, l.pieces cs = p :: ps := by
  cases cs with
  | nil => exact ⟨[], [], rfl⟩
  | cons c cs =>
    rw [pieces]
    split
    · exact ⟨_, _, rfl⟩
    · split
      · exact ⟨_, _, rfl⟩
      · exact ⟨_, _, rfl⟩

theorem pieces_cons {c : Char} (hc : l.isSeparator c = false) {p : List Char}
    {ps : List (List Char)} (hcs : l.pieces cs = p :: ps) :
    l.pieces (c :: cs) = (c :: p) :: ps := by
  rw [pieces, if_neg (by simp [hc]), hcs]

theorem pieces_plain {p : List Char} (hp : l.Plain p) : l.pieces p = [p] := by
  induction p with
  | nil => rfl
  | cons c p ih =>
    exact pieces_cons (hp c (by simp)) (ih fun d hd => hp d (List.mem_cons_of_mem c hd))

/-- Up to the first separator a text is one piece. -/
theorem pieces_append {p : List Char} (hp : l.Plain p) {c : Char} (hc : l.isSeparator c = true) :
    l.pieces (p ++ c :: cs) = p :: l.pieces cs := by
  induction p with
  | nil => exact pieces_separator hc
  | cons d p ih =>
    exact pieces_cons (hp d (by simp)) (ih fun e he => hp e (List.mem_cons_of_mem d he))

theorem plain_of_mem_pieces : ∀ p ∈ l.pieces cs, l.Plain p := by
  induction cs with
  | nil => simp [pieces, Plain]
  | cons c cs ih =>
    cases hc : l.isSeparator c with
    | true =>
      rw [pieces_separator hc]
      exact List.forall_mem_cons.2 ⟨by simp [Plain], ih⟩
    | false =>
      obtain ⟨p, ps, hcs⟩ := exists_pieces l cs
      rw [hcs] at ih
      obtain ⟨hp, hps⟩ := List.forall_mem_cons.1 ih
      rw [pieces_cons hc hcs]
      exact List.forall_mem_cons.2 ⟨List.forall_mem_cons.2 ⟨hc, hp⟩, hps⟩

theorem plain_of_mem_components : ∀ p ∈ l.components cs, l.Plain p := by
  unfold components
  split
  · simp
  · exact plain_of_mem_pieces

/-- Pieces that are joined are the pieces of the whole, if there is at least one. -/
theorem pieces_join (hjoiner : l.isSeparator l.joiner = true) {p : List Char}
    {ps : List (List Char)} (hparts : ∀ q ∈ p :: ps, l.Plain q) :
    l.pieces (l.join (p :: ps)) = p :: ps := by
  induction ps generalizing p with
  | nil =>
    rw [join, List.intercalate_singleton]
    exact pieces_plain (hparts p (by simp))
  | cons q ps ih =>
    obtain ⟨hp, hrest⟩ := List.forall_mem_cons.1 hparts
    have hjoin : l.join (p :: q :: ps) = p ++ l.joiner :: l.join (q :: ps) := by
      simp [join, List.intercalate_cons_cons]
    rw [hjoin, pieces_append hp hjoiner, ih hrest]

/-- Past the last component there is nothing. -/
theorem get_eq (n : Nat) : l.get cs n = (l.components cs).getD n [] := by
  rw [get, range, if_neg (Nat.lt_irrefl n), Nat.sub_self, Nat.zero_add, List.take_one,
    List.head?_drop, List.getD_eq_getElem?_getD]
  cases (l.components cs)[n]? <;> simp [join]

theorem get_eq_piece (n : Nat) : l.get cs n = (l.pieces cs).getD n [] := by
  rw [get_eq, components]
  cases cs with
  | nil => cases n <;> rfl
  | cons c cs => rfl

/-- The components of a text that was put together are the ones that were joined. -/
theorem get_join (hjoiner : l.isSeparator l.joiner = true) {parts : List (List Char)}
    (hparts : ∀ p ∈ parts, l.Plain p) (n : Nat) : l.get (l.join parts) n = parts.getD n [] := by
  rw [get_eq_piece]
  cases parts with
  | nil => cases n <;> rfl
  | cons p ps => rw [pieces_join hjoiner hparts]

variable (hjoiner : l.isSeparator l.joiner = true)

include hjoiner

theorem get_set {start : Nat} {replacements : List (List Char)}
    (hplain : ∀ r ∈ replacements, l.Plain r) (n : Nat) :
    l.get (l.set cs start replacements) n =
      if start ≤ n ∧ n < start + replacements.length then replacements.getD (n - start) []
      else l.get cs n := by
  rw [set, get_join hjoiner, get_eq]
  · generalize l.components cs = parts
    simp only [List.getD_eq_getElem?_getD, List.getElem?_append, List.getElem?_take,
      List.getElem?_drop, List.length_take, List.length_append, List.length_replicate,
      List.getElem?_replicate]
    grind
  · have hpadded : ∀ p ∈ l.components cs ++
        List.replicate (start + replacements.length - (l.components cs).length) [], l.Plain p := by
      refine List.forall_mem_append.2 ⟨plain_of_mem_components, fun p hp => ?_⟩
      rw [List.eq_of_mem_replicate hp]
      simp [Plain]
    refine List.forall_mem_append.2 ⟨List.forall_mem_append.2 ⟨?_, hplain⟩, ?_⟩
    · exact fun p hp => hpadded p (List.mem_of_mem_take hp)
    · exact fun p hp => hpadded p (List.mem_of_mem_drop hp)

theorem get_range_some (first last n : Nat) :
    l.get (l.range cs first (some last)) n =
      if first + n ≤ last then l.get cs (first + n) else [] := by
  rw [range, get_join hjoiner, get_eq]
  · simp only [List.getD_eq_getElem?_getD]
    grind
  · split
    · simp
    · exact fun p hp => plain_of_mem_components p (List.mem_of_mem_drop (List.mem_of_mem_take hp))

theorem get_range_none (first n : Nat) :
    l.get (l.range cs first none) n = l.get cs (first + n) := by
  rw [range, get_join hjoiner, get_eq]
  · simp [List.getD_eq_getElem?_getD]
  · exact fun p hp => plain_of_mem_components p (List.mem_of_mem_drop hp)

theorem get_remove (i n : Nat) :
    l.get (l.remove cs i) n = if n < i then l.get cs n else l.get cs (n + 1) := by
  rw [remove, get_join hjoiner, get_eq, get_eq]
  · rw [List.getD_eq_getElem?_getD, List.getElem?_eraseIdx]
    split <;> rw [List.getD_eq_getElem?_getD]
  · exact fun p hp => plain_of_mem_components p (List.mem_of_mem_eraseIdx hp)

omit hjoiner in
/-- What follows the first separator has all components but the first. -/
theorem get_tail (n : Nat) : l.get (l.tail cs) n = l.get cs (n + 1) := by
  rw [get_eq_piece, get_eq_piece]
  induction cs with
  | nil => cases n <;> rfl
  | cons c cs ih =>
    cases hc : l.isSeparator c with
    | true =>
      have htail : l.tail (c :: cs) = cs := by simp [tail, hc]
      rw [htail, pieces_separator hc, List.getD_cons_succ]
    | false =>
      obtain ⟨p, ps, hcs⟩ := exists_pieces l cs
      have htail : l.tail (c :: cs) = l.tail cs := by simp [tail, hc]
      rw [htail, ih, pieces_cons hc hcs, hcs, List.getD_cons_succ, List.getD_cons_succ]

end Text.Listing

open Text Library LibraryFunction

/-- The component of a value's text at a position. -/
def Text.Listing.component (l : Listing) (v : Value) (n : Nat) : Value :=
  ofChars (l.get v.toText.toList n)

namespace Text.Listing

variable {l : Listing}

theorem component_ofChars (cs : List Char) (n : Nat) :
    l.component (ofChars cs) n = ofChars (l.get cs n) :=
  congrArg (fun text => ofChars (l.get text n)) String.toList_ofList

variable (hjoiner : l.isSeparator l.joiner = true) (s : Value)

include hjoiner

/-- Where values were written they are read, and elsewhere nothing has changed. -/
theorem component_set (start n : Nat) {replacements : Arguments}
    (hplain : ∀ r ∈ replacements, l.Plain r.toText.toList) :
    l.component (ofChars (l.set s.toText.toList start
        (replacements.map fun r => r.toText.toList))) n =
      if start ≤ n ∧ n < start + replacements.length then
        .text (replacements.value (n - start)).toText
      else l.component s n := by
  have hread (i : Nat) : ofChars ((replacements.map fun r => r.toText.toList).getD i []) =
      .text (replacements.value i).toText := by
    have hmap := List.getD_map replacements .undefined (n := i) fun r => r.toText.toList
    exact (congrArg ofChars hmap).trans (congrArg Value.text String.ofList_toList)
  rw [component_ofChars, get_set hjoiner (List.forall_mem_map.2 hplain), List.length_map]
  split
  · exact hread _
  · rfl

theorem component_range_some (first last n : Nat) :
    l.component (ofChars (l.range s.toText.toList first (some last))) n =
      if first + n ≤ last then l.component s (first + n) else .text "" := by
  rw [component_ofChars, get_range_some hjoiner]
  split <;> rfl

theorem component_range_none (first n : Nat) :
    l.component (ofChars (l.range s.toText.toList first none)) n = l.component s (first + n) := by
  rw [component_ofChars, get_range_none hjoiner, component]

theorem component_remove (i n : Nat) :
    l.component (ofChars (l.remove s.toText.toList i)) n =
      if n < i then l.component s n else l.component s (n + 1) := by
  rw [component_ofChars, get_remove hjoiner]
  split <;> rfl

omit hjoiner in
theorem component_tail (n : Nat) :
    l.component (ofChars (l.tail s.toText.toList)) n = l.component s (n + 1) := by
  rw [component_ofChars, get_tail, component]

end Text.Listing

/-- Reading words or fields after writing some of them: those that were written are read as they
are, if they hold no separator, and all others are as before, past the end of the text as well. To
write one word is to write a list of one. -/
theorem written_components_are_read (s start position : Value) (replacements : Arguments) :
    ((∀ r ∈ replacements, Listing.words.Plain r.toText.toList) →
      getWord.apply [setWords.apply (s :: start :: replacements), position] =
        if start.toIndex ≤ position.toIndex ∧
            position.toIndex < start.toIndex + replacements.length then
          .text (replacements.value (position.toIndex - start.toIndex)).toText
        else getWord.apply [s, position]) ∧
    (∀ r, setWord.apply [s, start, r] = setWords.apply [s, start, r]) ∧
    ((∀ r ∈ replacements, Listing.fields.Plain r.toText.toList) →
      getField.apply [setFields.apply (s :: start :: replacements), position] =
        if start.toIndex ≤ position.toIndex ∧
            position.toIndex < start.toIndex + replacements.length then
          .text (replacements.value (position.toIndex - start.toIndex)).toText
        else getField.apply [s, position]) ∧
    (∀ r, setField.apply [s, start, r] = setFields.apply [s, start, r]) :=
  ⟨Listing.component_set (l := .words) rfl s _ _, fun _ => rfl,
    Listing.component_set (l := .fields) rfl s _ _, fun _ => rfl⟩

theorem written_components_are_read_padded :
    let replacements : Arguments := [.text "x", .text "", .text "y"]
    let written := setWords.apply (.text "a\tb" :: .ofNat 3 :: replacements)
    (∀ r ∈ replacements, Listing.words.Plain r.toText.toList) ∧
      getWord.apply [written, .ofNat 5] = .text "y" ∧
      getWord.apply [written, .ofNat 1] = getWord.apply [.text "a\tb", .ofNat 1] := by
  intro replacements written
  have hplain : ∀ r ∈ replacements, Listing.words.Plain r.toText.toList := by
    simp [replacements, Listing.Plain, Listing.words, Value.toText]
  have hread (position : Value) :=
    (written_components_are_read (.text "a\tb") (.ofNat 3) position replacements).1 hplain
  exact ⟨hplain, hread (.ofNat 5), hread (.ofNat 1)⟩

/-- The words of a range, of a text without one of its words, and of what follows the first
separator are words of the whole text; the first word is the word at position zero. -/
theorem words_of_parts (s : Value) :
    (∀ position, getWord.apply [s, position] = Listing.words.component s position.toIndex) ∧
    (∀ first last position,
      getWord.apply [getWords.apply [s, first, last], position] =
        if first.toIndex + position.toIndex ≤ last.toIndex then
          Listing.words.component s (first.toIndex + position.toIndex)
        else .text "") ∧
    (∀ first position,
      getWord.apply [getWords.apply [s, first], position] =
        Listing.words.component s (first.toIndex + position.toIndex)) ∧
    (∀ removed position,
      getWord.apply [removeWord.apply [s, removed], position] =
        if position.toIndex < removed.toIndex then Listing.words.component s position.toIndex
        else Listing.words.component s (position.toIndex + 1)) ∧
    (∀ position,
      getWord.apply [restWords.apply [s], position] =
        Listing.words.component s (position.toIndex + 1)) ∧
    firstWord.apply [s] = Listing.words.component s 0 :=
  ⟨fun _ => rfl, fun _ _ _ => Listing.component_range_some (l := .words) rfl s _ _ _,
    fun _ _ => Listing.component_range_none (l := .words) rfl s _ _,
    fun _ _ => Listing.component_remove (l := .words) rfl s _ _,
    fun _ => Listing.component_tail s _, rfl⟩

end TorqueScript
