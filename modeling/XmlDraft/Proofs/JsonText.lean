import XmlDraft.Json.Reading
import XmlDraft.Json.Writing
import Mathlib.Data.List.Nodup

/-!
# JSON that is read as it was written

What is written for a value without numbers is read as the value: every character comes back from
its escape, one beyond the basic plane from two, and the blanks of an indentation are skipped.  Main
statement: the text of a value without numbers is a text of that value, whatever the indentation.
-/

namespace XmlDraft

namespace Text

/-! ### Hexadecimal digits -/

/-- The value of the digit of a number below sixteen is the number. -/
theorem digitValue?_digit {n : Nat} (h : n < 16) :
  digitValue? (digit n) = some n
  := by
  have hall : ∀ n : Fin 16, digitValue? (digit n) = some n.val := by decide
  exact hall ⟨n, h⟩

theorem digitsOnto_succ {fuel n : Nat} (tail : List Char) (h : 16 ≤ n) :
  digitsOnto 16 (fuel + 1) n tail = digitsOnto 16 fuel (n / 16) (digit (n % 16) :: tail)
  := by
  have hn : n / 16 ≠ 0 := by omega
  rw [digitsOnto, if_neg hn]

theorem digitsOnto_last {fuel n : Nat} (tail : List Char) (h : n < 16) :
  digitsOnto 16 (fuel + 1) n tail = digit n :: tail
  := by
  simp only [digitsOnto, Nat.mod_eq_of_lt h, Nat.div_eq_of_lt h, if_true]

/-- Four hexadecimal digits write each number below 65536. -/
theorem padZeros_hexDigits {n : Nat} (h : n < 65536) :
  padZeros 4 (hexDigits n)
    = [digit (n / 16 / 16 / 16), digit (n / 16 / 16 % 16), digit (n / 16 % 16), digit (n % 16)]
  := by
  have hzero : digit 0 = '0' := by decide
  obtain hn | ⟨hn, hn'⟩ | ⟨hn, hn'⟩ | hn :
      n < 16 ∨ (16 ≤ n ∧ n < 256) ∨ (256 ≤ n ∧ n < 4096) ∨ 4096 ≤ n := by omega
  · rw [hexDigits, digitsOnto_last _ hn, Nat.div_eq_of_lt hn, Nat.mod_eq_of_lt hn]
    rfl
  · obtain ⟨k, rfl⟩ : ∃ k, n = k + 1 := ⟨n - 1, by omega⟩
    rw [hexDigits, digitsOnto_succ _ hn, digitsOnto_last _ (by omega),
      Nat.div_eq_of_lt (a := (k + 1) / 16) (by omega),
      Nat.mod_eq_of_lt (a := (k + 1) / 16) (by omega)]
    rfl
  · obtain ⟨k, rfl⟩ : ∃ k, n = k + 2 := ⟨n - 2, by omega⟩
    rw [hexDigits, digitsOnto_succ _ (by omega), digitsOnto_succ _ (by omega),
      digitsOnto_last _ (by omega), Nat.div_eq_of_lt (a := (k + 2) / 16 / 16) (by omega),
      Nat.mod_eq_of_lt (a := (k + 2) / 16 / 16) (by omega)]
    rfl
  · obtain ⟨k, rfl⟩ : ∃ k, n = k + 3 := ⟨n - 3, by omega⟩
    rw [hexDigits, digitsOnto_succ _ (by omega), digitsOnto_succ _ (by omega),
      digitsOnto_succ _ (by omega), digitsOnto_last _ (by omega)]
    rfl

end Text

namespace Json

open Text

/-! ### Escapes -/

/-- Reading the escape of a number gives the number, when text goes on behind it. -/
theorem fourDigits?_padZeros {n : Nat} (h : n < 65536) (e : Char) (rest : List Char) :
  fourDigits? (padZeros 4 (hexDigits n) ++ e :: rest) = some (n, e :: rest)
  := by
  rw [padZeros_hexDigits h]
  have ha := digitValue?_digit (n := n / 16 / 16 / 16) (by omega)
  have hb := digitValue?_digit (n := n / 16 / 16 % 16) (by omega)
  have hc := digitValue?_digit (n := n / 16 % 16) (by omega)
  have hd := digitValue?_digit (n := n % 16) (by omega)
  have hn : ((n / 16 / 16 / 16 * 16 + n / 16 / 16 % 16) * 16 + n / 16 % 16) * 16 + n % 16 = n := by
    omega
  simp [fourDigits?, ofDigits, ha, hb, hc, hd, hn]


/-- No character has the number of half a pair. -/
theorem isHigh_toNat (c : Char) :
  isHigh c.toNat = false ∧ isLow c.toNat = false
  := by
  have hc : c.toNat < 0xD800 ∨ 0xDFFF < c.toNat ∧ c.toNat < 0x110000 := c.valid
  simp only [isHigh, isLow, Bool.and_eq_false_iff, decide_eq_false_iff_not]
  omega

/-- Reading the escape of a character of the basic plane gives the character. -/
theorem unicodeEscape_unit {c : Char} (h : c.toNat < 0x10000) (d : Char) (rest : List Char) :
  unicodeEscape ('u' :: padZeros 4 (hexDigits c.toNat) ++ d :: rest) = .ok (c, d :: rest)
  := by
  obtain ⟨hhigh, hlow⟩ := isHigh_toNat c
  have hchar : unitChar c.toNat = c := by
    rw [unitChar, hhigh, hlow]
    exact Char.ofNat_toNat c
  unfold unicodeEscape
  rw [List.cons_append, List.drop_one, List.tail_cons, fourDigits?_padZeros h]
  dsimp only
  split
  · rw [hhigh, hchar]
    rfl
  · rw [hchar]

/-- Reading two escapes gives the character beyond the basic plane that they write. -/
theorem unicodeEscape_pair {c : Char} {m : Nat} (h : c.toNat = 0x10000 + m) (d : Char)
    (rest : List Char) :
  unicodeEscape ('u' :: padZeros 4 (hexDigits (0xD800 + m / 0x400))
      ++ (unitEscape (0xDC00 + m % 0x400) ++ d :: rest))
    = .ok (c, d :: rest)
  := by
  have hm : m < 0x100000 := by
    have hc : c.toNat < 0xD800 ∨ 0xDFFF < c.toNat ∧ c.toNat < 0x110000 := c.valid
    omega
  have hhigh : isHigh (0xD800 + m / 0x400) = true := by
    simp only [isHigh, Bool.and_eq_true, decide_eq_true_eq]
    omega
  have hlow : isLow (0xDC00 + m % 0x400) = true := by
    simp only [isLow, Bool.and_eq_true, decide_eq_true_eq]
    omega
  have hpair : pairChar (0xD800 + m / 0x400) (0xDC00 + m % 0x400) = c := by
    have hn : 0x10000 + (0xD800 + m / 0x400 - 0xD800) * 0x400 + (0xDC00 + m % 0x400 - 0xDC00)
        = c.toNat := by omega
    rw [pairChar, hn, Char.ofNat_toNat]
  have hlength : 4 < (padZeros 4 (hexDigits (0xDC00 + m % 0x400)) ++ d :: rest).length := by
    simp only [padZeros, List.length_append, List.length_replicate, List.length_cons]
    omega
  have hfirst : 0xD800 + m / 0x400 < 65536 := by omega
  have hsecond : 0xDC00 + m % 0x400 < 65536 := by omega
  generalize 0xD800 + m / 0x400 = high at *
  generalize 0xDC00 + m % 0x400 = low at *
  unfold unicodeEscape
  rw [List.cons_append, List.drop_one, List.tail_cons, unitEscape, List.cons_append,
    List.cons_append, fourDigits?_padZeros hfirst]
  simp only [hhigh, hlength, decide_true, Bool.and_self, if_true, fourDigits?_padZeros hsecond,
    hlow, hpair]

/-! ### Strings -/

variable {opening : List Char} {fuel : Nat}

/-- A character that needs no escape is read as it stands. -/
theorem readChars_plain {c : Char} (hquote : c ≠ '"') (hslash : c ≠ '\\') (hc : ¬ c.toNat < 0x20)
    (cs : List Char) :
  readChars opening (fuel + 1) (c :: cs)
    = (readChars opening fuel cs).map fun p => (c :: p.1, p.2)
  := by
  rw [readChars.eq_def]
  dsimp only
  rw [if_neg hquote, if_neg hslash, if_neg hc]
  cases readChars opening fuel cs <;> rfl

theorem readChars_letter {c e : Char} (he : letterEscape? e = some c) (cs : List Char) :
  readChars opening (fuel + 1) ('\\' :: e :: cs)
    = (readChars opening fuel cs).map fun p => (c :: p.1, p.2)
  := by
  have hu : e ≠ 'u' := by
    rintro rfl
    cases he
  rw [readChars, if_neg (by decide), if_pos rfl]
  simp only [if_neg hu, he, bind, Except.bind]
  cases readChars opening fuel cs <;> rfl

theorem readChars_unicode {c : Char} {cs rest : List Char}
    (h : unicodeEscape ('u' :: cs) = .ok (c, rest)) :
  readChars opening (fuel + 1) ('\\' :: 'u' :: cs)
    = (readChars opening fuel rest).map fun p => (c :: p.1, p.2)
  := by
  rw [readChars, if_neg (by decide), if_pos rfl]
  simp only [if_true, h, bind, Except.bind]
  cases readChars opening fuel rest <;> rfl

/-- Reading what is written for a character gives the character. -/
theorem readChars_charText (c d : Char) (rest : List Char) :
  readChars opening (fuel + 1) (charText c ++ d :: rest)
    = (readChars opening fuel (d :: rest)).map fun p => (c :: p.1, p.2)
  := by
  unfold charText
  split_ifs with hself hn hr ht hb hf hplain hunit
  · refine readChars_letter ?_ _
    rw [Bool.or_eq_true, decide_eq_true_eq, decide_eq_true_eq] at hself
    rcases hself with rfl | rfl <;> rfl
  · exact readChars_letter (hn ▸ rfl) _
  · exact readChars_letter (hr ▸ rfl) _
  · exact readChars_letter (ht ▸ rfl) _
  · exact readChars_letter (hb ▸ rfl) _
  · exact readChars_letter (hf ▸ rfl) _
  · rw [Bool.or_eq_true, decide_eq_true_eq, decide_eq_true_eq, not_or] at hself
    rw [Bool.and_eq_true, decide_eq_true_eq] at hplain
    exact readChars_plain hself.1 hself.2 (Nat.not_lt.mpr hplain.1) _
  · exact readChars_unicode (unicodeEscape_unit hunit d rest)
  · obtain ⟨m, hm⟩ : ∃ m, c.toNat = 0x10000 + m := Nat.exists_eq_add_of_le (Nat.not_lt.mp hunit)
    have hsub : c.toNat - 0x10000 = m := by omega
    dsimp only
    rw [hsub, List.append_assoc]
    exact readChars_unicode (unicodeEscape_pair hm d rest)

/-- Reading what is written for characters between quotes gives the characters. -/
theorem readChars_flatMap (cs rest : List Char) (h : cs.length < fuel) :
  readChars opening fuel (cs.flatMap charText ++ '"' :: rest) = .ok (cs, rest)
  := by
  induction cs generalizing fuel with
  | nil =>
      obtain ⟨fuel, rfl⟩ : ∃ k, fuel = k + 1 := ⟨fuel - 1, by omega⟩
      rw [List.flatMap_nil, List.nil_append, readChars.eq_def]
      rfl
  | cons c cs ih =>
      obtain ⟨fuel, rfl⟩ : ∃ k, fuel = k + 1 := ⟨fuel - 1, by omega⟩
      obtain ⟨d, more, hmore⟩ : ∃ d more, cs.flatMap charText ++ '"' :: rest = d :: more :=
        List.exists_cons_of_ne_nil (by simp)
      rw [List.flatMap_cons, List.append_assoc, hmore, readChars_charText, ← hmore,
        ih (by simpa using h)]
      rfl

theorem length_charText (c : Char) :
  1 ≤ (charText c).length
  := by
  unfold charText
  split_ifs <;> exact Nat.le_add_left _ _

/-- Writing takes a character or more for each character. -/
theorem length_le_flatMap (cs : List Char) :
  cs.length ≤ (cs.flatMap charText).length
  := by
  induction cs with
  | nil => simp
  | cons c cs ih =>
      have hc := length_charText c
      simp only [List.flatMap_cons, List.length_append, List.length_cons]
      omega

/-- Reading a written string gives the string. -/
theorem readString_append (s : String) (rest : List Char) :
  readString (s.toList.flatMap charText ++ '"' :: rest) = .ok (s, rest)
  := by
  have hlength := length_le_flatMap s.toList
  rw [readString, readChars_flatMap _ _ (by rw [List.length_append]; omega)]
  simp [Except.map]


theorem stringText_append (s : String) (rest : List Char) :
  stringText s ++ rest = '"' :: (s.toList.flatMap charText ++ '"' :: rest)
  := by
  simp [stringText]

/-! ### Blanks -/

theorem skipBlanks_append {cs : List Char} (h : ∀ c ∈ cs, isBlank c) (rest : List Char) :
  skipBlanks (cs ++ rest) = skipBlanks rest
  := List.dropWhile_append_of_pos h

theorem skipBlanks_cons {c : Char} (h : isBlank c = false) (cs : List Char) :
  skipBlanks (c :: cs) = c :: cs
  := List.dropWhile_cons_of_neg (by rw [h]; decide)

/-- An indentation of blanks, or none. -/
def IsBlankIndent (indent : Option (List Char)) : Prop :=
  ∀ unit ∈ indent, ∀ c ∈ unit, isBlank c

section Values

variable {indent : Option (List Char)} {level : Nat}

theorem isBlank_lineStart (h : IsBlankIndent indent) (level : Nat) :
  ∀ c ∈ lineStart indent level, isBlank c
  := by
  intro c hc
  cases indent with
  | none => cases hc
  | some unit =>
      rw [lineStart, List.mem_cons, List.mem_flatten] at hc
      rcases hc with rfl | ⟨blanks, hblanks, hc⟩
      · rfl
      · rw [List.eq_of_mem_replicate hblanks] at hc
        exact h unit rfl c hc

/-- Blanks follow the comma between items. -/
theorem separator_eq (h : IsBlankIndent indent) (level : Nat) :
  ∃ blanks, separator indent level = ',' :: blanks ∧ ∀ c ∈ blanks, isBlank c
  := by
  cases indent with
  | none => exact ⟨[' '], rfl, by simp [isBlank]⟩
  | some unit => exact ⟨lineStart (some unit) level, rfl, isBlank_lineStart h level⟩

/-! ### Values -/

/-- Values without numbers, where the names in an object differ. -/
inductive IsTextual : Json → Prop
  | null : IsTextual .null
  | bool (b : Bool) : IsTextual (.bool b)
  | str (s : String) : IsTextual (.str s)
  | arr {items : List Json} (hitems : ∀ x ∈ items, IsTextual x) : IsTextual (.arr items)
  | obj {members : List (String × Json)} (hnames : (members.map Prod.fst).Nodup)
      (hmembers : ∀ m ∈ members, IsTextual m.2) : IsTextual (.obj members)

/-- Whether a character can begin a value without numbers. -/
def isOpener (c : Char) : Bool :=
  c ∈ ['n', 't', 'f', '"', '[', '\x7b']

/-- What begins a value is no blank, closes no list and is no mark of the order of bytes. -/
theorem isOpener_only {c : Char} (h : isOpener c) :
  isBlank c = false ∧ c ≠ ']' ∧ c ≠ '\uFEFF'
  := by
  simp only [isOpener, List.mem_cons, List.not_mem_nil, or_false, decide_eq_true_eq] at h
  rcases h with rfl | rfl | rfl | rfl | rfl | rfl <;> decide

/-- A value whose text is read as the value, whatever follows the text. -/
structure ReadsBack (indent : Option (List Char)) (j : Json) : Prop where
  starts : ∀ level, ∃ c cs, textAt indent level j = c :: cs ∧ isOpener c
  read : ∀ level fuel rest, (textAt indent level j).length ≤ fuel →
    readValue fuel (textAt indent level j ++ rest) = .ok (j, rest)

/-- Blanks before a value that is read back are skipped, and no more. -/
theorem ReadsBack.skipBlanks_append {j : Json} (h : ReadsBack indent j) {blanks : List Char}
    (hblanks : ∀ c ∈ blanks, isBlank c) (rest : List Char) :
  skipBlanks (blanks ++ (textAt indent level j ++ rest)) = textAt indent level j ++ rest
  := by
  obtain ⟨c, cs, htext, hc⟩ := h.starts level
  rw [Json.skipBlanks_append hblanks, htext, List.cons_append,
    skipBlanks_cons (isOpener_only hc).1]

/-- Reading the text of items, the first of which has no separator before it, gives the items. -/
theorem readItems_append (hindent : IsBlankIndent indent) {x : Json} {xs seen : List Json}
    {close rest : List Char} {fuel : Nat} (hx : ReadsBack indent x)
    (hxs : ∀ y ∈ xs, ReadsBack indent y) (hclose : ∀ c ∈ close, isBlank c)
    (hfuel : (textAt indent level x ++ itemsText indent level xs).length < fuel) :
  readItems fuel seen
      (textAt indent level x ++ (itemsText indent level xs ++ (close ++ ']' :: rest)))
    = .ok (arr (seen.reverse ++ x :: xs), rest)
  := by
  induction xs generalizing x seen fuel with
  | nil =>
      obtain ⟨fuel, rfl⟩ : ∃ k, fuel = k + 1 := ⟨fuel - 1, by omega⟩
      rw [itemsText, List.append_nil] at hfuel
      rw [readItems, hx.read level fuel _ (by omega)]
      simp only [bind, Except.bind, itemsText, List.nil_append, Json.skipBlanks_append hclose,
        skipBlanks_cons (show isBlank ']' = false from rfl), List.reverse_cons]
  | cons y ys ih =>
      obtain ⟨hy, hys⟩ := List.forall_mem_cons.mp hxs
      obtain ⟨fuel, rfl⟩ : ∃ k, fuel = k + 1 := ⟨fuel - 1, by omega⟩
      obtain ⟨blanks, hseparator, hblanks⟩ := separator_eq hindent level
      rw [itemsText, hseparator] at hfuel ⊢
      simp only [List.cons_append, List.append_assoc, List.length_append, List.length_cons]
        at hfuel ⊢
      rw [readItems, hx.read level fuel _ (by omega)]
      simp only [bind, Except.bind, skipBlanks_cons (show isBlank ',' = false from rfl),
        hy.skipBlanks_append hblanks]
      rw [ih hy hys (by rw [List.length_append]; omega)]
      simp

theorem put_fresh {members : List (String × Json)} {name : String} (value : Json)
    (h : name ∉ members.map Prod.fst) :
  put members name value = members ++ [(name, value)]
  := by
  induction members with
  | nil => rfl
  | cons m members ih =>
      rw [List.map_cons, List.mem_cons, not_or] at h
      rw [put, if_neg (Ne.symm h.1), ih h.2]
      rfl

/-- Behind the colon a value is found. -/
theorem ReadsBack.skipBlanks_value {x : Json} (hx : ReadsBack indent x) (rest : List Char) :
  skipBlanks (' ' :: (textAt indent level x ++ rest)) = textAt indent level x ++ rest
  := by
  have hblank : ∀ c ∈ [' '], isBlank c := by simp [isBlank]
  exact hx.skipBlanks_append hblank rest

/-- Reading the last member ends the object. -/
theorem readMembers_last {x : Json} (hx : ReadsBack indent x) (name : String)
    (seen : List (String × Json)) {fuel : Nat} (hfuel : (textAt indent level x).length ≤ fuel)
    {rest more : List Char} (hrest : skipBlanks rest = '\x7d' :: more) :
  readMembers (fuel + 1) seen
      (stringText name ++ (':' :: ' ' :: (textAt indent level x ++ rest)))
    = .ok (obj (put seen name x), more)
  := by
  rw [stringText_append, readMembers]
  simp only [readString_append, bind, Except.bind, hx.skipBlanks_value,
    hx.read level fuel rest hfuel, skipBlanks_cons (show isBlank ':' = false from rfl), hrest]

/-- Reading a member before a comma adds it to those that are known. -/
theorem readMembers_next {x : Json} (hx : ReadsBack indent x) (name : String)
    (seen : List (String × Json)) {fuel : Nat} (hfuel : (textAt indent level x).length ≤ fuel)
    {rest more : List Char} (hrest : skipBlanks rest = ',' :: more) :
  readMembers (fuel + 1) seen
      (stringText name ++ (':' :: ' ' :: (textAt indent level x ++ rest)))
    = readMembers fuel (put seen name x) (skipBlanks more)
  := by
  rw [stringText_append, readMembers]
  simp only [readString_append, bind, Except.bind, hx.skipBlanks_value,
    hx.read level fuel rest hfuel, skipBlanks_cons (show isBlank ':' = false from rfl), hrest]

/-- Reading the text of members, the first of which has no separator before it, gives the
members. -/
theorem readMembers_append (hindent : IsBlankIndent indent) {name : String} {x : Json}
    {xs seen : List (String × Json)} {close rest : List Char} {fuel : Nat}
    (hx : ReadsBack indent x) (hxs : ∀ m ∈ xs, ReadsBack indent m.2)
    (hnames : ((seen ++ (name, x) :: xs).map Prod.fst).Nodup) (hclose : ∀ c ∈ close, isBlank c)
    (hfuel : (textAt indent level x ++ membersText indent level xs).length < fuel) :
  readMembers fuel seen
      (stringText name ++ (':' :: ' ' :: (textAt indent level x
        ++ (membersText indent level xs ++ (close ++ '\x7d' :: rest)))))
    = .ok (obj (seen ++ (name, x) :: xs), rest)
  := by
  have hfresh (seen : List (String × Json)) (name : String) (x : Json) (xs : List (String × Json))
      (h : ((seen ++ (name, x) :: xs).map Prod.fst).Nodup) :
      put seen name x = seen ++ [(name, x)] := by
    rw [List.map_append, List.map_cons, List.nodup_append] at h
    exact put_fresh x fun hmem => h.2.2 _ hmem _ List.mem_cons_self rfl
  induction xs generalizing name x seen fuel with
  | nil =>
      obtain ⟨fuel, rfl⟩ : ∃ k, fuel = k + 1 := ⟨fuel - 1, by omega⟩
      rw [membersText, List.append_nil] at hfuel
      have hend : skipBlanks (close ++ '\x7d' :: rest) = '\x7d' :: rest := by
        rw [Json.skipBlanks_append hclose, skipBlanks_cons (show isBlank '\x7d' = false from rfl)]
      rw [membersText, List.nil_append, readMembers_last hx name seen (by omega) hend,
        hfresh _ _ _ _ hnames]
  | cons m ms ih =>
      obtain ⟨name', y⟩ := m
      obtain ⟨hy, hms⟩ : ReadsBack indent y ∧ ∀ m ∈ ms, ReadsBack indent m.2 :=
        List.forall_mem_cons.mp hxs
      obtain ⟨fuel, rfl⟩ : ∃ k, fuel = k + 1 := ⟨fuel - 1, by omega⟩
      obtain ⟨blanks, hseparator, hblanks⟩ := separator_eq hindent level
      rw [membersText, hseparator] at hfuel ⊢
      simp only [List.cons_append, List.append_assoc, List.length_append, List.length_cons]
        at hfuel ⊢
      rw [readMembers_next hx name seen (by omega)
          (skipBlanks_cons (show isBlank ',' = false from rfl) _), hfresh _ _ _ _ hnames,
        Json.skipBlanks_append hblanks, stringText_append,
        skipBlanks_cons (show isBlank '"' = false from rfl), ← stringText_append,
        ih hy hms (by simpa using hnames) (by rw [List.length_append]; omega)]
      simp

/-- Behind its bracket and blanks a list that has an item goes on with it. -/
theorem readValue_items {x : Json} (hx : ReadsBack indent x) {blanks : List Char}
    (hblanks : ∀ c ∈ blanks, isBlank c) (fuel : Nat) (cs : List Char) :
  readValue (fuel + 1) ('[' :: (blanks ++ (textAt indent level x ++ cs)))
    = readItems fuel [] (textAt indent level x ++ cs)
  := by
  obtain ⟨c, more, htext, hc⟩ := hx.starts level
  obtain ⟨-, hclose, -⟩ := isOpener_only hc
  rw [readValue, hx.skipBlanks_append hblanks, htext, List.cons_append]
  split
  · next heq => exact absurd (List.cons.inj heq).1 hclose
  · rfl

/-- Behind its brace and blanks an object that has a member goes on with its name. -/
theorem readValue_members {blanks : List Char} (hblanks : ∀ c ∈ blanks, isBlank c) (fuel : Nat)
    (name : String) (cs : List Char) :
  readValue (fuel + 1) ('\x7b' :: (blanks ++ (stringText name ++ cs)))
    = readMembers fuel [] (stringText name ++ cs)
  := by
  rw [stringText_append, readValue, skipBlanks_append hblanks,
    skipBlanks_cons (show isBlank '"' = false from rfl)]
  rfl

/-- A value without numbers is read back, with an indentation of blanks as on one line. -/
theorem IsTextual.readsBack (hindent : IsBlankIndent indent) {j : Json} (h : IsTextual j) :
  ReadsBack indent j
  := by
  have hspend {n fuel : Nat} (h : n + 1 ≤ fuel) : ∃ k, fuel = k + 1 ∧ n ≤ k :=
    ⟨fuel - 1, by omega, by omega⟩
  induction h with
  | null =>
      refine ⟨fun level => ⟨'n', _, rfl, rfl⟩, fun level fuel rest hfuel => ?_⟩
      obtain ⟨fuel, rfl, -⟩ := hspend hfuel
      rfl
  | bool b =>
      cases b with
      | false =>
          refine ⟨fun level => ⟨'f', _, rfl, rfl⟩, fun level fuel rest hfuel => ?_⟩
          obtain ⟨fuel, rfl, -⟩ := hspend hfuel
          rfl
      | true =>
          refine ⟨fun level => ⟨'t', _, rfl, rfl⟩, fun level fuel rest hfuel => ?_⟩
          obtain ⟨fuel, rfl, -⟩ := hspend hfuel
          rfl
  | str s =>
      refine ⟨fun level => ⟨'"', _, rfl, rfl⟩, fun level fuel rest hfuel => ?_⟩
      obtain ⟨fuel, rfl, -⟩ := hspend hfuel
      rw [textAt, stringText_append, readValue, readString_append]
      rfl
  | @arr items hitems ih =>
      cases items with
      | nil =>
          refine ⟨fun level => ⟨'[', _, rfl, rfl⟩, fun level fuel rest hfuel => ?_⟩
          obtain ⟨fuel, rfl, -⟩ := hspend hfuel
          rfl
      | cons x xs =>
          obtain ⟨hx, hxs⟩ := List.forall_mem_cons.mp ih
          refine ⟨fun level => ⟨'[', _, rfl, rfl⟩, fun level fuel rest hfuel => ?_⟩
          rw [textAt] at hfuel ⊢
          simp only [List.cons_append, List.append_assoc, List.nil_append, List.length_cons,
            List.length_append] at hfuel ⊢
          obtain ⟨fuel, rfl, hfuel⟩ := hspend hfuel
          rw [readValue_items hx (isBlank_lineStart hindent _),
            readItems_append hindent hx hxs (isBlank_lineStart hindent level)
              (by rw [List.length_append]; omega)]
          rfl
  | @obj members hnames hmembers ih =>
      cases members with
      | nil =>
          refine ⟨fun level => ⟨'\x7b', _, rfl, rfl⟩, fun level fuel rest hfuel => ?_⟩
          obtain ⟨fuel, rfl, -⟩ := hspend hfuel
          rfl
      | cons m ms =>
          obtain ⟨name, x⟩ := m
          obtain ⟨hx, hms⟩ : ReadsBack indent x ∧ ∀ m ∈ ms, ReadsBack indent m.2 :=
            List.forall_mem_cons.mp ih
          refine ⟨fun level => ⟨'\x7b', _, rfl, rfl⟩, fun level fuel rest hfuel => ?_⟩
          rw [textAt] at hfuel ⊢
          simp only [List.cons_append, List.append_assoc, List.nil_append, List.length_cons,
            List.length_append] at hfuel ⊢
          obtain ⟨fuel, rfl, hfuel⟩ := hspend hfuel
          rw [readValue_members (isBlank_lineStart hindent _),
            readMembers_append hindent hx hms hnames (isBlank_lineStart hindent level)
              (by rw [List.length_append]; omega)]
          rfl

end Values

/-- A text of a value without numbers, on one line or with an indentation of blanks, is read as
the value. -/
theorem ofText_text {j : Json} (h : IsTextual j) {indent : Option String}
    (hindent : ∀ unit ∈ indent, ∀ c ∈ unit.toList, isBlank c) :
  Json.ofText (j.text indent) = .ok j
  := by
  have hblank : IsBlankIndent (indent.map String.toList) := by
    intro unit hunit
    obtain ⟨unit, hmem, rfl⟩ := Option.map_eq_some_iff.mp hunit
    exact hindent unit hmem
  have hback := h.readsBack hblank
  obtain ⟨c, cs, htext, hc⟩ := hback.starts 0
  obtain ⟨hc, -, hmark⟩ := isOpener_only hc
  have hread := hback.read 0 (2 * (textAt (indent.map String.toList) 0 j).length + 2) []
    (by omega)
  rw [List.append_nil, htext] at hread
  have hhead : ¬ (c :: cs).head? = some '\uFEFF' := by simpa using hmark
  have htaken : readText (c :: cs) = .ok j := by
    rw [readText, if_neg hhead, skipBlanks_cons hc]
    simp only [bind, Except.bind, hread]
    rfl
  rw [Json.ofText, text, String.toList_ofList, htext, htaken]
  rfl

/-- Every value without numbers can be written. -/
theorem isWritable_of_isTextual {j : Json} (h : IsTextual j) :
  isWritable j
  := by
  induction h with
  | null => rfl
  | bool b => rfl
  | str s => rfl
  | @arr items hitems ih =>
      rw [isWritable]
      clear hitems
      induction items with
      | nil => rfl
      | cons x xs ihxs =>
          obtain ⟨hx, hxs⟩ := List.forall_mem_cons.mp ih
          rw [allWritable, hx, Bool.true_and]
          exact ihxs hxs
  | @obj members hnames hmembers ih =>
      rw [isWritable]
      clear hnames hmembers
      induction members with
      | nil => rfl
      | cons m ms ihms =>
          obtain ⟨hm, hms⟩ := List.forall_mem_cons.mp ih
          rw [allMembersWritable, hm, Bool.true_and]
          exact ihms hms

end Json

end XmlDraft
