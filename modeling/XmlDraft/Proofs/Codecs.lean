import XmlDraft.Reading.Octets
import XmlDraft.Text.Utf8
import XmlDraft.Writing.Encoding
import Mathlib.Tactic.SplitIfs

/-!
# Octets of texts

The octets that an output encoding gives to a text write it again: for a codec that takes whole
texts, and for a reader that takes the characters one by one.  Main statement: a codec decodes the
octets of every text, and so does a reader if the text is free of the two last characters of the
basic plane, which a reader of UTF-8 takes for none.
-/

namespace XmlDraft

open Reading (Decoded InputEncoding)

/-! ### Units -/

namespace Text

/-- The text of units in which every first half of a pair is followed by a second one. -/
def ofPairs : List Nat → Option (List Char)
  | [] => some []
  | u :: us =>
    if u < 0xD800 || 0xE000 ≤ u then (ofPairs us).map (Char.ofNat u :: ·)
    else
      match us with
      | [] => none
      | v :: rest =>
        if u < 0xDC00 && 0xDC00 ≤ v && v < 0xE000 then
          (ofPairs rest).map
            (Char.ofNat (0x10000 + (u - 0xD800) * 0x400 + (v - 0xDC00)) :: ·)
        else none

/-- The text that octets write in UTF-16 with the low octet of each unit first, if they write
one. -/
def decodeUtf16 (os : List UInt8) : Option (List Char) :=
  match Reading.units true os with
  | (us, false) => ofPairs us
  | (_, true) => none

theorem continues_iff {o : UInt8} :
  continues o ↔ 0x80 ≤ o.toNat ∧ o.toNat < 0xC0
  := by
  simp only [continues, UInt8.le_iff_toNat_le, UInt8.lt_iff_toNat_lt, UInt8.reduceToNat,
    Bool.and_eq_true, decide_eq_true_eq]

/-- What follows the first octet of a character, by the numbers of both. -/
theorem follows_iff {o p : UInt8} :
  follows o p ↔ (0x80 ≤ p.toNat ∧ p.toNat < 0xC0)
    ∧ (o.toNat = 0xE0 → 0xA0 ≤ p.toNat) ∧ (o.toNat = 0xED → p.toNat < 0xA0)
    ∧ (o.toNat = 0xF0 → 0x90 ≤ p.toNat) ∧ (o.toNat = 0xF4 → p.toNat < 0x90)
  := by
  simp only [follows, continues, UInt8.le_iff_toNat_le, UInt8.lt_iff_toNat_lt, ← UInt8.toNat_inj,
    UInt8.reduceToNat, Bool.and_eq_true, Bool.not_eq_true', Bool.and_eq_false_iff,
    decide_eq_true_eq, decide_eq_false_iff_not]
  omega

end Text

namespace OutputEncoding

/-- The text that octets write in an encoding, as a codec decodes them. -/
def decode? : OutputEncoding → List UInt8 → Option (List Char)
  | utf8, os => (Text.decodeUtf8 os).toOption
  | utf16, os => Text.decodeUtf16 os

/-- The encoding in which a reader takes what was written. -/
def input : OutputEncoding → InputEncoding
  | utf8 => .utf8
  | utf16 => .utf16 true

theorem toNat_octet {n : Nat} (h : n < 0x100) :
  n.toUInt8.toNat = n
  := by
  rw [Nat.toUInt8_eq, UInt8.toNat_ofNat']
  exact Nat.mod_eq_of_lt h

/-- The number of a character is that of no half of a pair. -/
theorem toNat_cases (c : Char) :
  c.toNat < 0xD800 ∨ (0xE000 ≤ c.toNat ∧ c.toNat < 0x110000)
  := by
  have hvalid : c.toNat < 0xD800 ∨ (0xDFFF < c.toNat ∧ c.toNat < 0x110000) := c.valid
  omega

/-! ### UTF-16 -/

/-- The units of a character. -/
def charUnits (c : Char) : List Nat :=
  if c.toNat < 0x10000 then [c.toNat]
  else [0xD800 + (c.toNat - 0x10000) / 0x400, 0xDC00 + (c.toNat - 0x10000) % 0x400]

/-- The units of a character beyond the basic plane: the two halves of a pair. -/
structure IsPair (c : Char) (u v : Nat) : Prop where
  first : 0xD800 ≤ u ∧ u < 0xDC00
  second : 0xDC00 ≤ v ∧ v < 0xE000
  number : 0x10000 + (u - 0xD800) * 0x400 + (v - 0xDC00) = c.toNat

/-- A character has one unit, which is no half of a pair, or those of a pair. -/
theorem charUnits_cases (c : Char) :
  (charUnits c = [c.toNat] ∧ utf16Octets c = unitOctets c.toNat
      ∧ (c.toNat < 0xD800 ∨ 0xE000 ≤ c.toNat) ∧ c.toNat < 0x10000)
    ∨ ∃ u v, charUnits c = [u, v] ∧ utf16Octets c = unitOctets u ++ unitOctets v ∧ IsPair c u v
  := by
  have hcases := toNat_cases c
  by_cases hc : c.toNat < 0x10000
  · refine .inl ⟨if_pos hc, if_pos hc, ?_, hc⟩
    omega
  · refine .inr ⟨_, _, if_neg hc, if_neg hc, ?_, ?_, ?_⟩
    · omega
    · omega
    · have hdiv := Nat.div_add_mod' (c.toNat - 0x10000) 0x400
      omega

theorem units_unitOctets {n : Nat} (h : n < 0x10000) {os : List UInt8} {us : List Nat}
    (hos : Reading.units true os = (us, false)) :
  Reading.units true (unitOctets n ++ os) = (n :: us, false)
  := by
  have hlow : (n % 0x100).toUInt8.toNat = n % 0x100 := toNat_octet (Nat.mod_lt n (by decide))
  have hhigh : (n / 0x100).toUInt8.toNat = n / 0x100 := toNat_octet (by omega)
  have hsum : n / 0x100 * 0x100 + n % 0x100 = n := Nat.div_add_mod' n 0x100
  simp only [unitOctets, List.cons_append, List.nil_append, Reading.units, ite_true, hlow, hhigh,
    hsum, hos]

/-- The octets of a text are those of its units. -/
theorem units_encode (cs : List Char) :
  Reading.units true (utf16.encode cs) = (cs.flatMap charUnits, false)
  := by
  induction cs with
  | nil => rfl
  | cons c cs ih =>
      rw [encode] at ih ⊢
      rw [List.flatMap_cons, List.flatMap_cons]
      rcases charUnits_cases c with ⟨hunits, hoctets, _, hc⟩ | ⟨u, v, hunits, hoctets, hpair⟩
      · rw [hunits, hoctets, units_unitOctets hc ih]
        rfl
      · have hfirst := hpair.first.2
        have hsecond := hpair.second.2
        rw [hunits, hoctets, List.append_assoc,
          units_unitOctets (by omega) (units_unitOctets (by omega) ih)]
        rfl

/-- The units of a text are put together to its characters. -/
theorem ofPairs_charUnits (cs : List Char) :
  Text.ofPairs (cs.flatMap charUnits) = some cs
  := by
  induction cs with
  | nil => rfl
  | cons c cs ih =>
      rw [List.flatMap_cons]
      rcases charUnits_cases c with ⟨hunits, _, hsingle, _⟩ | ⟨u, v, hunits, _, hpair⟩
      · have hplain : (c.toNat < 0xD800 || 0xE000 ≤ c.toNat) = true := by simpa using hsingle
        rw [hunits, List.singleton_append, Text.ofPairs.eq_def]
        dsimp only
        rw [hplain, if_pos rfl, ih, Option.map_some, Char.ofNat_toNat]
      · obtain ⟨⟨hu, hu'⟩, ⟨hv, hv'⟩, hnumber⟩ := hpair
        have hsingle : (u < 0xD800 || 0xE000 ≤ u) = false := by
          simp only [Bool.or_eq_false_iff, decide_eq_false_iff_not]
          omega
        rw [hunits, List.cons_append, List.singleton_append, Text.ofPairs.eq_def]
        simp only [hsingle, Bool.false_eq_true, ite_false, hu', hv, hv', decide_true, Bool.and_true,
          ite_true,
          ih, Option.map_some, hnumber, Char.ofNat_toNat]

/-- A reader takes the units of a text for its characters. -/
theorem ofUnits_charUnits (cs : List Char) :
  Reading.ofUnits false (cs.flatMap charUnits) = ⟨cs, .clean, 0⟩
  := by
  induction cs with
  | nil => rfl
  | cons c cs ih =>
      rw [List.flatMap_cons]
      rcases charUnits_cases c with ⟨hunits, _, hsingle, _⟩ | ⟨u, v, hunits, _, hpair⟩
      · have hfirst : (0xD800 ≤ c.toNat && c.toNat < 0xDC00) = false := by
          simp only [Bool.and_eq_false_iff, decide_eq_false_iff_not]
          omega
        have hsecond : (0xDC00 ≤ c.toNat && c.toNat < 0xE000) = false := by
          simp only [Bool.and_eq_false_iff, decide_eq_false_iff_not]
          omega
        rw [hunits, List.singleton_append, Reading.ofUnits.eq_def]
        simp only [hfirst, hsecond, Bool.false_eq_true, ite_false, ih, Char.ofNat_toNat]
        rfl
      · obtain ⟨⟨hu, hu'⟩, ⟨hv, hv'⟩, hnumber⟩ := hpair
        have hchar : Reading.pairChar u v = c := by
          have hnumber' : 0x10000 + (u - 0xD800) * 0x400 + v % 0x400 = c.toNat := by omega
          rw [Reading.pairChar, hnumber', Char.ofNat_toNat]
        rw [hunits, List.cons_append, List.singleton_append, Reading.ofUnits.eq_def]
        simp only [hu, hu', decide_true, Bool.and_true,
          ite_true, ih, hchar]
        rfl

/-! ### UTF-8 -/

/-- The octets of a character, by their numbers. -/
theorem utf8Octets_cases (c : Char) :
  (c.toNat < 0x80 ∧ ∃ o : UInt8, utf8Octets c = [o] ∧ o.toNat = c.toNat)
    ∨ (0x80 ≤ c.toNat ∧ c.toNat < 0x800 ∧ ∃ o p : UInt8, utf8Octets c = [o, p]
      ∧ o.toNat = 0xC0 + c.toNat / 0x40 ∧ p.toNat = 0x80 + c.toNat % 0x40)
    ∨ (0x800 ≤ c.toNat ∧ c.toNat < 0x10000 ∧ ∃ o p q : UInt8, utf8Octets c = [o, p, q]
      ∧ o.toNat = 0xE0 + c.toNat / 0x1000 ∧ p.toNat = 0x80 + c.toNat / 0x40 % 0x40
      ∧ q.toNat = 0x80 + c.toNat % 0x40)
    ∨ (0x10000 ≤ c.toNat ∧ ∃ o p q r : UInt8, utf8Octets c = [o, p, q, r]
      ∧ o.toNat = 0xF0 + c.toNat / 0x40000 ∧ p.toNat = 0x80 + c.toNat / 0x1000 % 0x40
      ∧ q.toNat = 0x80 + c.toNat / 0x40 % 0x40 ∧ r.toNat = 0x80 + c.toNat % 0x40)
  := by
  have hcases := toNat_cases c
  by_cases hone : c.toNat < 0x80
  · exact .inl ⟨hone, _, by simp only [utf8Octets, hone, ite_true], toNat_octet (by omega)⟩
  · by_cases htwo : c.toNat < 0x800
    · exact .inr (.inl ⟨by omega, htwo, _, _,
        by simp only [utf8Octets, hone, htwo, ite_true, ite_false],
        toNat_octet (by omega), toNat_octet (by omega)⟩)
    · by_cases hthree : c.toNat < 0x10000
      · exact .inr (.inr (.inl ⟨by omega, hthree, _, _, _,
          by simp only [utf8Octets, hone, htwo, hthree, ite_true, ite_false],
          toNat_octet (by omega), toNat_octet (by omega), toNat_octet (by omega)⟩))
      · exact .inr (.inr (.inr ⟨by omega, _, _, _, _,
          by simp only [utf8Octets, hone, htwo, hthree, ite_false],
          toNat_octet (by omega), toNat_octet (by omega), toNat_octet (by omega),
          toNat_octet (by omega)⟩))

/-- A reader takes the octets of a character of documents for the character. -/
theorem utf8From_utf8Octets {c : Char} (hc : Reading.isXmlChar c) (os : List UInt8) :
  Reading.utf8From 0 (utf8Octets c ++ os) = (Reading.utf8From 0 os).cons c
  := by
  have hcases := toNat_cases c
  have hlast : c.toNat ≠ 0xFFFE ∧ c.toNat ≠ 0xFFFF := by
    unfold Reading.isXmlChar at hc
    dsimp only at hc
    split_ifs at hc with hlow
    · omega
    · simpa using hc
  rcases utf8Octets_cases c with ⟨hone, o, hoctets, ho⟩ | ⟨htwo, htwo', o, p, hoctets, ho, hp⟩
    | ⟨hthree, hthree', o, p, q, hoctets, ho, hp, hq⟩ | ⟨hfour, o, p, q, r, hoctets, ho, hp, hq, hr⟩
  · simp [hoctets, Reading.utf8From, ho, hone]
  · have hnumber : (o.toNat - 0xC0) * 0x40 + (p.toNat - 0x80) = c.toNat := by omega
    have hfound : Reading.twoOctets? o.toNat p.toNat = some c := by
      rw [Reading.twoOctets?, if_pos, hnumber, Char.ofNat_toNat]
      simp only [Reading.isTail, Bool.and_eq_true, decide_eq_true_eq]
      omega
    have hwidth : Reading.leadWidth? o.toNat = some 2 := by
      rw [Reading.leadWidth?, if_neg (by omega), if_pos (by omega)]
    have hlead : ¬ o.toNat < 0x80 := by omega
    simp only [hoctets, List.cons_append, List.nil_append, Reading.utf8From, hlead, ite_false,
      hwidth, hfound]
  · have hnumber : (o.toNat - 0xE0) * 0x1000 + (p.toNat - 0x80) * 0x40 + (q.toNat - 0x80)
        = c.toNat := by omega
    have hfound : Reading.threeOctets? o.toNat p.toNat q.toNat = some c := by
      rw [Reading.threeOctets?, hnumber, if_pos, Char.ofNat_toNat]
      simp only [Reading.isTail, Bool.and_eq_true, Bool.not_eq_true', Bool.and_eq_false_iff,
        decide_eq_false_iff_not, decide_eq_true_eq]
      omega
    have hwidth : Reading.leadWidth? o.toNat = some 3 := by
      rw [Reading.leadWidth?, if_neg (by omega), if_neg (by omega), if_pos (by omega)]
    have hlead : ¬ o.toNat < 0x80 := by omega
    simp only [hoctets, List.cons_append, List.nil_append, Reading.utf8From, hlead, ite_false,
      hwidth, hfound]
  · have hnumber : (o.toNat - 0xF0) * 0x40000 + (p.toNat - 0x80) * 0x1000 + (q.toNat - 0x80) * 0x40
        + (r.toNat - 0x80) = c.toNat := by omega
    have hfound : Reading.fourOctets? o.toNat p.toNat q.toNat r.toNat = some c := by
      rw [Reading.fourOctets?, hnumber, if_pos, Char.ofNat_toNat]
      simp only [Reading.isTail, Bool.and_eq_true, decide_eq_true_eq]
      omega
    have hwidth : Reading.leadWidth? o.toNat = some 4 := by
      rw [Reading.leadWidth?, if_neg (by omega), if_neg (by omega), if_neg (by omega),
        if_pos (by omega)]
    have hlead : ¬ o.toNat < 0x80 := by omega
    simp only [hoctets, List.cons_append, List.nil_append, Reading.utf8From, hlead, ite_false,
      hwidth, hfound]

open Text in
/-- A codec takes the octets of a character for the character. -/
theorem decodeFrom_utf8Octets (c : Char) (os : List UInt8) (position : Nat) :
  decodeFrom position 0 (utf8Octets c ++ os)
    = (decodeFrom (position + (utf8Octets c).length) 0 os).map (c :: ·)
  := by
  have hcases := toNat_cases c
  rcases utf8Octets_cases c with ⟨hone, o, hoctets, ho⟩ | ⟨htwo, htwo', o, p, hoctets, ho, hp⟩
    | ⟨hthree, hthree', o, p, q, hoctets, ho, hp, hq⟩ | ⟨hfour, o, p, q, r, hoctets, ho, hp, hq, hr⟩
  · have hcount : octetCount? o = some 1 := by
      rw [octetCount?, if_pos (UInt8.lt_iff_toNat_lt.mpr (ho ▸ hone))]
    have hchar : charOf o [] = c := by
      simp [charOf, joinBits, ho]
    simp [hoctets, decodeFrom, hcount, continuation, hchar]
  · have hcount : octetCount? o = some 2 := by
      simp only [octetCount?, UInt8.lt_iff_toNat_lt, ho]
      rw [if_neg, if_neg, if_pos]
      all_goals simp only [UInt8.reduceToNat]; omega
    have hfollows : follows o p := follows_iff.mpr (by omega)
    have hchar : charOf o [p] = c := by
      have hnumber : o.toNat % 0x20 * 0x40 + p.toNat % 0x40 = c.toNat := by omega
      simp [charOf, joinBits, hnumber]
    simp [hoctets, decodeFrom, hcount, continuation, hfollows, hchar]
  · have hcount : octetCount? o = some 3 := by
      simp only [octetCount?, UInt8.lt_iff_toNat_lt, ho]
      rw [if_neg, if_neg, if_neg, if_pos]
      all_goals simp only [UInt8.reduceToNat]; omega
    have hfollows : follows o p := follows_iff.mpr (by omega)
    have hcontinues : continues q := continues_iff.mpr (by omega)
    have hchar : charOf o [p, q] = c := by
      have hnumber : (o.toNat % 0x10 * 0x40 + p.toNat % 0x40) * 0x40 + q.toNat % 0x40 = c.toNat := by
        omega
      simp [charOf, joinBits, hnumber]
    simp [hoctets, decodeFrom, hcount, continuation, hfollows, hcontinues, hchar, Nat.add_assoc]
  · have hcount : octetCount? o = some 4 := by
      simp only [octetCount?, UInt8.lt_iff_toNat_lt, ho]
      rw [if_neg, if_neg, if_neg, if_neg, if_pos]
      all_goals simp only [UInt8.reduceToNat]; omega
    have hfollows : follows o p := follows_iff.mpr (by omega)
    have hcontinues : continues q ∧ continues r :=
      ⟨continues_iff.mpr (by omega), continues_iff.mpr (by omega)⟩
    have hchar : charOf o [p, q, r] = c := by
      have hnumber : ((o.toNat % 0x08 * 0x40 + p.toNat % 0x40) * 0x40 + q.toNat % 0x40) * 0x40
          + r.toNat % 0x40 = c.toNat := by omega
      simp [charOf, joinBits, hnumber]
    simp [hoctets, decodeFrom, hcount, continuation, hfollows, hcontinues, hchar, Nat.add_assoc]

/-! ### Texts -/

/-- A codec decodes the octets of every text. -/
theorem decode?_encode (e : OutputEncoding) (cs : List Char) :
  e.decode? (e.encode cs) = some cs
  := by
  cases e with
  | utf8 =>
      have hall (position : Nat) : Text.decodeFrom position 0 (utf8.encode cs) = .ok cs := by
        rw [encode]
        induction cs generalizing position with
        | nil => rfl
        | cons c cs ih =>
            rw [List.flatMap_cons, decodeFrom_utf8Octets, ih]
            rfl
      rw [decode?, Text.decodeUtf8, hall]
      rfl
  | utf16 =>
      rw [decode?, Text.decodeUtf16, units_encode]
      exact ofPairs_charUnits cs

/-- A reader takes the octets of characters of documents for these characters. -/
theorem decode_encode (e : OutputEncoding) {cs : List Char} (h : ∀ c ∈ cs, Reading.isXmlChar c) :
  e.input.decode (e.encode cs) = ⟨cs, .clean, 0⟩
  := by
  cases e with
  | utf8 =>
      rw [input, InputEncoding.decode, Reading.decodeUtf8, encode]
      induction cs with
      | nil => rfl
      | cons c cs ih =>
          rw [List.forall_mem_cons] at h
          rw [List.flatMap_cons, utf8From_utf8Octets h.1, ih h.2]
          rfl
  | utf16 =>
      rw [input, InputEncoding.decode, Reading.decodeUtf16, units_encode]
      exact ofUnits_charUnits cs

theorem length_utf8Octets (c : Char) :
  (utf8Octets c).length = Reading.utf8Width c
  := by
  unfold utf8Octets Reading.utf8Width
  dsimp only
  split_ifs <;> rfl

theorem length_utf16Octets (c : Char) :
  (utf16Octets c).length = if c.toNat < 0x10000 then 2 else 4
  := by
  unfold utf16Octets
  dsimp only
  split_ifs <;> rfl

/-- A text has as many octets as a reader counts for its characters. -/
theorem length_encode (e : OutputEncoding) (cs : List Char) :
  (e.encode cs).length = Reading.totalWidth e.input.width cs
  := by
  cases e with
  | utf8 =>
      induction cs with
      | nil => rfl
      | cons c cs ih =>
          rw [Reading.totalWidth, ← ih, encode, encode, List.flatMap_cons, List.length_append,
            length_utf8Octets]
          rfl
  | utf16 =>
      induction cs with
      | nil => rfl
      | cons c cs ih =>
          rw [Reading.totalWidth, ← ih, encode, encode, List.flatMap_cons, List.length_append,
            length_utf16Octets]
          rfl

theorem encode_append (e : OutputEncoding) (before after : List Char) :
  e.encode (before ++ after) = e.encode before ++ e.encode after
  := by
  cases e with
  | utf8 => exact List.flatMap_append
  | utf16 => exact List.flatMap_append

end OutputEncoding

end XmlDraft
