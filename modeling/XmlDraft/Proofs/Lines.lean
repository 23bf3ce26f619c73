import XmlDraft.Text.Lines

/-!
# Ends of lines in texts

A line ends at a line feed, at a carriage return, and at both together.  Main statement: unifying
the ends of lines leaves no carriage return, and leaves a text as it is just if it holds none.
-/

namespace XmlDraft

namespace Text

theorem unifyLines_pair (cs : List Char) :
  unifyLines ('\r' :: '\n' :: cs) = '\n' :: unifyLines cs
  := rfl

theorem unifyLines_cons {c : Char} (h : c ≠ '\r') (cs : List Char) :
  unifyLines (c :: cs) = c :: unifyLines cs
  := by
  rw [unifyLines]
  · exact fun _ hc => absurd hc h
  · exact h

theorem unifyLines_return {cs : List Char} (h : ∀ more, cs ≠ '\n' :: more) :
  unifyLines ('\r' :: cs) = '\n' :: unifyLines cs
  := by
  rw [unifyLines]
  exact h

theorem unifyLines_append {before : List Char} (h : '\r' ∉ before) (after : List Char) :
  unifyLines (before ++ after) = before ++ unifyLines after
  := by
  induction before with
  | nil => rfl
  | cons c cs ih =>
      rw [List.mem_cons, not_or] at h
      rw [List.cons_append, unifyLines_cons (Ne.symm h.1), ih h.2, List.cons_append]

/-- An end of a line does not go on in a character that is no line feed. -/
theorem unifyLines_append_cons (before after : List Char) {c : Char} (h : c ≠ '\n') :
  unifyLines (before ++ c :: after) = unifyLines before ++ unifyLines (c :: after)
  := by
  induction before using unifyLines.induct with
  | case1 cs ih =>
      rw [List.cons_append, List.cons_append, unifyLines_pair, ih, unifyLines_pair,
        List.cons_append]
  | case2 cs hnext ih =>
      have hafter : ∀ more, cs ++ c :: after ≠ '\n' :: more := by
        cases cs with
        | nil => exact fun more hmore => h (List.head_eq_of_cons_eq hmore)
        | cons d ds => exact fun more hmore => hnext ds (by rw [List.head_eq_of_cons_eq hmore])
      rw [List.cons_append, unifyLines_return hafter, ih, unifyLines_return hnext,
        List.cons_append]
  | case3 d cs hpair hreturn ih =>
      rw [List.cons_append, unifyLines_cons hreturn, ih, unifyLines_cons hreturn,
        List.cons_append]
  | case4 => rfl

/-- What ends a text ends it once its lines are unified, if it has no end of a line itself. -/
theorem unifyLines_append_end (before after ending : List Char)
    (hhead : ending.head?.any (· ≠ '\n')) (h : '\r' ∉ ending) :
  unifyLines (before ++ (ending ++ after)) = unifyLines before ++ (ending ++ unifyLines after)
  := by
  cases ending with
  | nil => cases hhead
  | cons c cs =>
      have hc : c ≠ '\n' := by simpa using hhead
      rw [List.cons_append, unifyLines_append_cons _ _ hc, ← List.cons_append,
        unifyLines_append h]

theorem unifyLines_ne {cs : List Char} (h : cs ≠ []) :
  unifyLines cs ≠ []
  := by
  induction cs using unifyLines.induct with
  | case1 cs => exact List.cons_ne_nil _ _
  | case2 cs hnext =>
      rw [unifyLines_return hnext]
      exact List.cons_ne_nil _ _
  | case3 c cs hpair hreturn =>
      rw [unifyLines_cons hreturn]
      exact List.cons_ne_nil _ _
  | case4 => exact absurd rfl h

theorem return_notMem_unifyLines (cs : List Char) :
  '\r' ∉ unifyLines cs
  := by
  induction cs using unifyLines.induct with
  | case1 cs ih =>
      rw [unifyLines_pair]
      simpa using ih
  | case2 cs hnext ih =>
      rw [unifyLines_return hnext]
      simpa using ih
  | case3 c cs hpair hreturn ih =>
      rw [unifyLines_cons hreturn, List.mem_cons, not_or]
      exact ⟨Ne.symm hreturn, ih⟩
  | case4 => exact List.not_mem_nil

theorem unifyLines_eq_self_iff (cs : List Char) :
  unifyLines cs = cs ↔ '\r' ∉ cs
  := by
  constructor
  · intro h
    rw [← h]
    exact return_notMem_unifyLines cs
  · intro h
    calc unifyLines cs
      _ = unifyLines (cs ++ []) := by rw [List.append_nil]
      _ = cs ++ unifyLines [] := unifyLines_append h []
      _ = cs := List.append_nil cs

/-- A character that is no line feed stands where it stood before the lines were unified. -/
theorem cons_of_unifyLines {c : Char} {cs more : List Char} (h : unifyLines cs = c :: more)
    (hc : c ≠ '\n') :
  ∃ rest, cs = c :: rest ∧ unifyLines rest = more
  := by
  induction cs using unifyLines.induct with
  | case1 cs _ =>
      rw [unifyLines_pair] at h
      exact absurd (List.head_eq_of_cons_eq h).symm hc
  | case2 cs hnext _ =>
      rw [unifyLines_return hnext] at h
      exact absurd (List.head_eq_of_cons_eq h).symm hc
  | case3 d cs _ hreturn _ =>
      rw [unifyLines_cons hreturn, List.cons.injEq] at h
      exact ⟨cs, by rw [h.1], h.2⟩
  | case4 => cases h

end Text

end XmlDraft
