import TorqueScript.Library
import TorqueScript.Proofs.Number.Whole
import TorqueScript.Proofs.Text.Utf8

/-!
Where one text occurs in another. An occurrence is one of bytes and may have any offset, but
the first byte of a character is like none of its later ones, so a text can only occur at the
end of a character. The search goes by characters and the cut by bytes; both are described by
these occurrences. The search finds the first one from an offset on, and cutting out as many
bytes as a text has gives the text back exactly where it occurs.
-/

namespace TorqueScript

namespace Text

variable {needle cs : List Char} {r : Nat}

theorem eq_of_encodeChar_append {c d : Char} {xs ys : List UInt8}
    (h : String.utf8EncodeChar c ++ xs = String.utf8EncodeChar d ++ ys) : c = d := by
  have hc := @ByteArray.utf8DecodeChar?_utf8EncodeChar_append xs.toByteArray c
  have hd := @ByteArray.utf8DecodeChar?_utf8EncodeChar_append ys.toByteArray d
  rw [← List.toByteArray_append] at hc hd
  rw [h, hd] at hc
  exact (Option.some.inj hc).symm

theorem encode_ne_nil (h : needle ≠ []) : encode needle ≠ [] := by
  intro hnil
  have hpos := byteLength_pos h
  rw [← length_encode, hnil] at hpos
  exact Nat.lt_irrefl 0 hpos

/-- No character begins like another one, so texts begin alike if their bytes do. -/
theorem prefix_of_encode (h : encode needle <+: encode cs) : needle <+: cs := by
  induction needle generalizing cs with
  | nil => exact List.nil_prefix
  | cons d ds ih =>
    cases cs with
    | nil => exact absurd (List.prefix_nil.1 h) (encode_ne_nil (List.cons_ne_nil d ds))
    | cons c cs =>
      obtain ⟨after, hafter⟩ := h
      rw [encode_cons, encode_cons, List.append_assoc] at hafter
      obtain rfl := eq_of_encodeChar_append hafter
      have hrest : encode ds <+: encode cs := ⟨after, List.append_cancel_left hafter⟩
      exact List.cons_prefix_cons.2 ⟨rfl, ih hrest⟩

/-- The bytes of `needle` stand among those of the text from the byte `r` on. -/
def Occurs (needle cs : List Char) (r : Nat) : Prop :=
  encode needle <+: (encode cs).drop r

/-- What stands before a text only moves the occurrences in it. -/
theorem occurs_append (before : List Char) :
    Occurs needle (before ++ cs) (byteLength before + r) ↔ Occurs needle cs r := by
  rw [Occurs, encode_append, ← length_encode, List.drop_length_add_append, Occurs]

theorem occurs_zero : Occurs needle cs 0 ↔ needle <+: cs := by
  constructor
  · exact prefix_of_encode
  · rintro ⟨after, rfl⟩
    rw [Occurs, List.drop_zero, encode_append]
    exact List.prefix_append ..

theorem not_occurs_of_le (hne : needle ≠ []) (hle : byteLength cs ≤ r) : ¬ Occurs needle cs r := by
  intro h
  rw [Occurs, List.drop_of_length_le (by rwa [length_encode])] at h
  exact encode_ne_nil hne (List.prefix_nil.1 h)

/-- No text occurs inside a character, where the later bytes of the character stand. -/
theorem not_occurs_inside {c : Char} (cs : List Char) (hne : needle ≠ []) (hpos : 0 < r)
    (hlt : r < c.utf8Size) : ¬ Occurs needle (c :: cs) r := by
  intro h
  obtain ⟨d, ds, rfl⟩ := List.exists_cons_of_ne_nil hne
  rw [← String.length_utf8EncodeChar] at hlt
  obtain ⟨after, hafter⟩ := h
  have hfirst : (String.utf8EncodeChar c)[r]? = (String.utf8EncodeChar d)[0]? := by
    have hzero := congrArg (fun bs => bs[0]?) hafter
    have hd : 0 < (String.utf8EncodeChar d).length := by
      rw [String.length_utf8EncodeChar]
      exact d.utf8Size_pos
    simp only [encode_cons, List.append_assoc, List.getElem?_drop, Nat.add_zero,
      List.getElem?_append_left hd, List.getElem?_append_left hlt] at hzero
    exact hzero.symm
  rw [List.getElem?_eq_getElem hlt] at hfirst
  obtain ⟨hd, hsame⟩ := List.getElem?_eq_some_iff.1 hfirst.symm
  have hbegins : (String.utf8EncodeChar c)[r].IsUTF8FirstByte :=
    hsame ▸ UInt8.isUTF8FirstByte_getElem_utf8EncodeChar.2 rfl
  exact Nat.ne_of_gt hpos (UInt8.isUTF8FirstByte_getElem_utf8EncodeChar.1 hbegins)

theorem occurs_cons {c : Char} (hne : needle ≠ []) :
    Occurs needle (c :: cs) r ↔
      (r = 0 ∧ needle <+: c :: cs) ∨ (c.utf8Size ≤ r ∧ Occurs needle cs (r - c.utf8Size)) := by
  have hsize := c.utf8Size_pos
  by_cases hzero : r = 0
  · subst hzero
    rw [occurs_zero]
    simp [Nat.not_le.2 hsize]
  by_cases hle : c.utf8Size ≤ r
  · have hmove := @occurs_append needle cs (r - c.utf8Size) [c]
    rw [byteLength_cons, byteLength_nil, Nat.add_zero, Nat.add_sub_cancel' hle] at hmove
    simpa [hzero, hle] using hmove
  · have hinside :=
      not_occurs_inside cs hne (Nat.pos_of_ne_zero hzero) (Nat.lt_of_not_le hle)
    simp [hzero, hle, hinside]

/-- A text occurs where it stands among the characters. -/
theorem occurs_iff_standsAt (hne : needle ≠ []) :
    Occurs needle cs r ↔ StandsAt cs r (r + byteLength needle) needle := by
  constructor
  · intro h
    induction cs generalizing r with
    | nil => exact absurd h (not_occurs_of_le hne (Nat.zero_le r))
    | cons c cs ih =>
      rcases (occurs_cons hne).1 h with ⟨rfl, after, hafter⟩ | ⟨hle, hlater⟩
      · exact ⟨[], after, hafter.symm, rfl, by simp⟩
      · obtain ⟨before, after, hcs, hstart, -⟩ := ih hlater
        refine ⟨c :: before, after, by rw [hcs]; rfl, ?_, ?_⟩
        · rw [byteLength_cons]
          omega
        · rw [List.cons_append, byteLength_cons, byteLength_append]
          omega
  · rintro ⟨before, after, rfl, rfl, -⟩
    have hmove := @occurs_append needle (needle ++ after) 0 before
    rw [List.append_assoc]
    exact hmove.2 (occurs_zero.2 (List.prefix_append ..))

theorem find?_eq_some {n : Nat} (hne : needle ≠ []) (h : find? needle cs = some n) :
    Occurs needle cs n ∧ ∀ r < n, ¬ Occurs needle cs r := by
  fun_induction find? needle cs generalizing n with
  | case1 hempty => exact absurd (List.isEmpty_iff.1 hempty) hne
  | case2 => cases h
  | case3 c cs hfirst =>
    cases h
    have hbegin := occurs_zero.2 (List.isPrefixOf_iff_prefix.1 hfirst)
    exact ⟨hbegin, fun r hr => absurd hr (Nat.not_lt_zero r)⟩
  | case4 c cs hfirst ih =>
    obtain ⟨k, hk, rfl⟩ := Option.map_eq_some_iff.1 h
    obtain ⟨hfound, hbefore⟩ := ih hk
    have hmoved : Occurs needle (c :: cs) (c.utf8Size + k) :=
      (occurs_cons hne).2 (.inr ⟨Nat.le_add_right .., by rwa [Nat.add_sub_cancel_left]⟩)
    refine ⟨hmoved, fun r hr hoccurs => ?_⟩
    rcases (occurs_cons hne).1 hoccurs with ⟨-, hbegin⟩ | ⟨hle, hlater⟩
    · exact hfirst (List.isPrefixOf_iff_prefix.2 hbegin)
    · exact hbefore _ (by omega) hlater

theorem find?_eq_none (hne : needle ≠ []) (h : find? needle cs = none) (r : Nat) :
    ¬ Occurs needle cs r := by
  fun_induction find? needle cs generalizing r with
  | case1 => cases h
  | case2 => exact not_occurs_of_le hne (Nat.zero_le r)
  | case3 => cases h
  | case4 c cs hfirst ih =>
    intro hoccurs
    rcases (occurs_cons hne).1 hoccurs with ⟨-, hbegin⟩ | ⟨-, hlater⟩
    · exact hfirst (List.isPrefixOf_iff_prefix.2 hbegin)
    · exact ih (Option.map_eq_none_iff.1 h) _ hlater

/-- The byte `r` is where a character of the text begins, or its end. -/
def IsBoundary (cs : List Char) (r : Nat) : Prop :=
  ∃ before after, cs = before ++ after ∧ r = byteLength before

end Text

namespace Library

open Text

variable {needle cs : List Char} {r : Nat}

/-- The search from an offset on finds the first occurrence from there on, and fails if there is
none. -/
theorem position_cases {offset : Nat} (hne : needle ≠ [])
    (hoffset : IsBoundary cs offset ∨ byteLength cs ≤ offset) :
    (∃ r, position cs needle offset = .ofNat r ∧ offset ≤ r ∧ Occurs needle cs r ∧
      ∀ j, offset ≤ j → j < r → ¬ Occurs needle cs j) ∨
    (position cs needle offset = .number (-1.0) ∧ ∀ j, offset ≤ j → ¬ Occurs needle cs j) := by
  rw [position]
  cases hdrop : dropBytes? offset cs with
  | none =>
    refine .inr ⟨rfl, fun j hj => not_occurs_of_le hne (Nat.le_trans ?_ hj)⟩
    rcases hoffset with ⟨before, after, rfl, rfl⟩ | hend
    · rw [dropBytes?_byteLength] at hdrop
      cases hdrop
    · exact hend
  | some rest =>
    obtain ⟨before, rfl, rfl⟩ := exists_of_dropBytes? hdrop
    cases hfind : find? needle rest with
    | some k =>
      obtain ⟨hfound, hbefore⟩ := find?_eq_some hne hfind
      refine .inl ⟨byteLength before + k, by simp [hfind], Nat.le_add_right ..,
        (occurs_append before).2 hfound, fun j hj hlt hoccurs => ?_⟩
      obtain ⟨i, rfl⟩ := Nat.exists_eq_add_of_le hj
      exact hbefore i (by omega) ((occurs_append before).1 hoccurs)
    | none =>
      refine .inr ⟨by simp [hfind], fun j hj hoccurs => ?_⟩
      obtain ⟨i, rfl⟩ := Nat.exists_eq_add_of_le hj
      exact find?_eq_none hne hfind i ((occurs_append before).1 hoccurs)

/-- As many bytes as a text has are that text exactly where it occurs. -/
theorem substring_eq_iff (hne : needle ≠ []) :
    substring cs r (some (byteLength needle)) = needle ↔ Occurs needle cs r := by
  rw [occurs_iff_standsAt hne]
  simp only [substring, Option.getD_some]
  constructor
  · intro h
    have hslice : slice? (min r (byteLength cs))
        (min (min r (byteLength cs) + byteLength needle) (byteLength cs)) cs = some needle := by
      cases hslice : slice? (min r (byteLength cs))
          (min (min r (byteLength cs) + byteLength needle) (byteLength cs)) cs with
      | none => exact absurd (by simpa [hslice] using h.symm) hne
      | some text => simpa [hslice] using h
    obtain ⟨before, after, rfl, hstart, hstop⟩ := standsAt_of_slice? (by omega) hslice
    have hpos := byteLength_pos hne
    simp only [byteLength_append] at hstart hstop
    exact ⟨before, after, rfl, by omega, by rw [byteLength_append]; omega⟩
  · rintro ⟨before, after, rfl, rfl, -⟩
    have hstart : min (byteLength before) (byteLength (before ++ needle ++ after)) =
        byteLength before := by
      simp only [byteLength_append]
      omega
    have hstop : min (byteLength before + byteLength needle)
        (byteLength (before ++ needle ++ after)) = byteLength (before ++ needle) := by
      simp only [byteLength_append]
      omega
    rw [hstart, hstop, List.append_assoc, slice?_byteLength, Option.getD_some]

end Library

open Text Library LibraryFunction

theorem Value.toInt_ofNat {n : Nat} (h : n < 2 ^ 53) : (Value.ofNat n).toInteger.toInt = n := by
  by_cases hzero : n = 0
  · subst hzero
    decide +kernel
  · have hread := Number.toInteger_ofNat ⟨Nat.pos_of_ne_zero hzero, h⟩
    show (Number.toInteger (Float.ofNat n)).toInt = n
    omega

theorem Value.toIndex_ofNat {n : Nat} (h : n < 2 ^ 53) : (Value.ofNat n).toIndex = n := by
  rw [toIndex, toInt_ofNat h, Int.toNat_natCast]

/-- A text is cut out of another one where it occurs, whatever value gives the position. -/
theorem getSubStr_eq_iff (haystack : Value) {needle : Value} (hne : needle.toText ≠ "")
    (hneedle : byteLength needle.toText.toList < 2 ^ 53) (v : Value) :
    getSubStr.apply [haystack, v, strlen.apply [needle]] = .text needle.toText ↔
      Occurs needle.toText.toList haystack.toText.toList v.toIndex := by
  have hchars : needle.toText.toList ≠ [] := by simpa using hne
  have hcount : (strlen.apply [needle]).toIndex = byteLength needle.toText.toList :=
    Value.toIndex_ofNat hneedle
  have happly : getSubStr.apply [haystack, v, strlen.apply [needle]] =
      ofChars (substring haystack.toText.toList v.toIndex
        (some (strlen.apply [needle]).toIndex)) := rfl
  rw [happly, hcount, ← substring_eq_iff hchars, ofChars, Value.text.injEq, ← String.toList_inj,
    String.toList_ofList]

/-- The search for a text that is not empty, from the end of a character on or from past the end. A
result that is not negative is the first position from the offset on where as many bytes as the
text has are the text; any other result is minus one, and then there is no such position. -/
theorem first_occurrence_is_found (haystack needle offset : Value) (hne : needle.toText ≠ "")
    (hhaystack : byteLength haystack.toText.toList < 2 ^ 53)
    (hneedle : byteLength needle.toText.toList < 2 ^ 53)
    (hoffset : IsBoundary haystack.toText.toList offset.toIndex ∨
      byteLength haystack.toText.toList ≤ offset.toIndex) :
    let found := strpos.apply [haystack, needle, offset]
    let piece := fun start => getSubStr.apply [haystack, start, strlen.apply [needle]]
    (0 ≤ found.toInteger.toInt →
      found = .ofNat found.toIndex ∧ offset.toIndex ≤ found.toIndex ∧
      piece found = .text needle.toText ∧
      ∀ v, offset.toIndex ≤ v.toIndex → v.toIndex < found.toIndex →
        piece v ≠ .text needle.toText) ∧
    (found.toInteger.toInt < 0 →
      found = .number (-1.0) ∧
      ∀ v, offset.toIndex ≤ v.toIndex → piece v ≠ .text needle.toText) := by
  intro found piece
  have hchars : needle.toText.toList ≠ [] := by simpa using hne
  have hpiece (v : Value) := getSubStr_eq_iff haystack hne hneedle v
  rcases position_cases hchars hoffset with ⟨r, hr, hle, hoccurs, hbefore⟩ | ⟨hr, hnowhere⟩
  · have hend : r < byteLength haystack.toText.toList := by
      by_contra hpast
      exact not_occurs_of_le hchars (Nat.le_of_not_lt hpast) hoccurs
    have hfound : found = .ofNat r := hr
    have hindex : found.toIndex = r := hfound ▸ Value.toIndex_ofNat (Nat.lt_trans hend hhaystack)
    have hinteger : found.toInteger.toInt = r :=
      hfound ▸ Value.toInt_ofNat (Nat.lt_trans hend hhaystack)
    refine ⟨fun _ => ⟨by rw [hindex, hfound], hindex ▸ hle, ?_, fun v hv hlt => ?_⟩, fun hneg => ?_⟩
    · exact (hpiece found).2 (hindex ▸ hoccurs)
    · exact fun hcut => hbefore _ hv (hindex ▸ hlt) ((hpiece v).1 hcut)
    · omega
  · have hfound : found = .number (-1.0) := hr
    have hinteger : found.toInteger.toInt = -1 := by
      rw [hfound]
      decide
    refine ⟨fun hpos => ?_, fun _ => ⟨hfound, fun v hv hcut => ?_⟩⟩
    · omega
    · exact hnowhere _ hv ((hpiece v).1 hcut)

/-- Characters of two and three bytes; the offset is behind the first one, so the text that begins
with it is passed over. -/
theorem first_occurrence_is_found_later :
    let haystack := Value.text "é€né€"
    let needle := Value.text "é€"
    let piece := fun start => getSubStr.apply [haystack, start, strlen.apply [needle]]
    IsBoundary haystack.toText.toList (Value.ofNat 2).toIndex ∧
      strpos.apply [haystack, needle, .ofNat 2] = .ofNat 6 ∧ piece (.ofNat 6) = needle ∧
      ∀ v, 2 ≤ v.toIndex → v.toIndex < 6 → piece v ≠ needle := by
  intro haystack needle piece
  have htwo : (Value.ofNat 2).toIndex = 2 := Value.toIndex_ofNat (by decide)
  have hsix : (Value.ofNat 6).toIndex = 6 := Value.toIndex_ofNat (by decide)
  have hboundary : IsBoundary haystack.toText.toList (Value.ofNat 2).toIndex :=
    ⟨['é'], "€né€".toList, by decide, by rw [htwo]; decide⟩
  have hfound : strpos.apply [haystack, needle, .ofNat 2] = .ofNat 6 := by
    have hposition : strpos.apply [haystack, needle, .ofNat 2] =
        position "é€né€".toList "é€".toList (Value.ofNat 2).toIndex := rfl
    have hfirst : (dropBytes? 2 "é€né€".toList).bind (find? "é€".toList) = some 4 := by decide
    rw [hposition, htwo, position, hfirst]
  have hmain := (first_occurrence_is_found haystack needle (.ofNat 2) (by decide) (by decide)
    (by decide) (.inl hboundary)).1
  rw [hfound, hsix, htwo, Value.toInt_ofNat (by decide)] at hmain
  obtain ⟨-, -, hpiece, hbefore⟩ := hmain (by decide)
  exact ⟨hboundary, hfound, hpiece, hbefore⟩

end TorqueScript
