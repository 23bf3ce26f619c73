import Mathlib.Tactic.SplitIfs
import XmlDraft.Command.Report

/-!
# Command lines that do work

A command line asks for a task only if all of its words can be understood: none of them is without
a use, and there is one operand behind the name of the task.  Main statement: a document is
formatted into a file only if its path and that of the file are no switches, and then they are
taken as they are.
-/

namespace XmlDraft

namespace Command

namespace Usage

variable {κ : Type} {u : Usage κ}

/-- Classifying words leaves them as they are. -/
theorem classify_words {words : List String} {ws : List (String × Word κ)}
    (h : u.classify words = some ws) :
  ws.map Prod.fst = words
  := by
  induction words generalizing ws with
  | nil =>
      cases h
      rfl
  | cons w words ih =>
      unfold classify at h
      split_ifs at h
      · cases h
        simp [Function.comp_def]
      · simp only [Option.bind_eq_bind, Option.bind_eq_some_iff, Option.some.injEq] at h
        obtain ⟨kind, _, rest, hrest, rfl⟩ := h
        rw [List.map_cons, ih hrest]

/-- Only the word that separates operands is a separator. -/
theorem word?_ne_separator (u : Usage κ) (w : List Char) :
  u.word? w ≠ some .separator
  := by
  unfold word?
  split
  · dsimp only
    split
    all_goals try split_ifs
    all_goals simp
  · simp

/-- The switches of one word ask for no operand. -/
theorem operand_notMem_cluster {s : Switch κ} {cs : List Char} {acts : List (Act κ)}
    {key : Option κ} (h : u.cluster? s cs = some (acts, key)) (words : List String) :
  .operand words ∉ acts
  := by
  induction cs generalizing s acts key with
  | nil =>
      unfold cluster? at h
      split_ifs at h <;> (cases h; simp)
  | cons c cs ih =>
      unfold cluster? at h
      split at h
      · contradiction
      · split_ifs at h
        cases h
        simp
      · rename_i hcons
        obtain ⟨rfl, rfl⟩ := hcons
        split_ifs at h
        · cases h
          simp
        · split at h
          · cases h
            simp
          · rename_i next _
            obtain ⟨⟨others, key'⟩, hothers, heq⟩ := Option.map_eq_some_iff.mp h
            cases heq
            rw [List.mem_cons, not_or]
            exact ⟨by simp, ih hothers⟩

end Usage

namespace Request

/-- The words behind the name of a task are understood only if none of them is refused; a word
without a use is noticed, and without an operand there is none. -/
theorem understandTask_ok {u u' : Understood} {acts : List (Act TaskKey)}
    (h : understandTask u acts = .ok u') :
  .refused ∉ acts ∧ (u.hasExtra ∨ .extra ∈ acts → u'.hasExtra)
    ∧ ((∀ words, .operand words ∉ acts) → u'.operand = u.operand)
  := by
  induction acts generalizing u with
  | nil =>
      cases h
      simp
  | cons a acts ih =>
      cases a with
      | refused => cases h
      | extra =>
          obtain ⟨hrefused, hextra, hoperand⟩ := ih h
          refine ⟨by simpa using hrefused, fun _ => hextra (.inl rfl), fun hnone => ?_⟩
          exact hoperand fun words hmem => hnone words (List.mem_cons_of_mem _ hmem)
      | operand words =>
          obtain ⟨hrefused, hextra, _⟩ := ih h
          refine ⟨by simpa using hrefused, by simpa using hextra, fun hnone => ?_⟩
          exact absurd List.mem_cons_self (hnone words)
      | set key value =>
          have hnext : ∃ options, understandTask { u with options := options } acts = .ok u' := by
            cases key <;> first | cases h | exact ⟨_, h⟩
          obtain ⟨options, hnext⟩ := hnext
          obtain ⟨hrefused, hextra, hoperand⟩ := ih hnext
          refine ⟨by simpa using hrefused, by simpa using hextra, fun hnone => ?_⟩
          exact hoperand fun words hmem => hnone words (List.mem_cons_of_mem _ hmem)

/-- Words that are not understood ask for no task. -/
theorem understandTask_error {u : Understood} {acts : List (Act TaskKey)} {t : Task} {o : Options} :
  understandTask u acts ≠ .error (.task t o)
  := by
  intro h
  induction acts generalizing u with
  | nil => cases h
  | cons a acts ih =>
      cases a with
      | refused => cases h
      | extra => exact ih h
      | operand words => exact ih h
      | set key value => cases key <;> first | cases h | exact ih h

/-- A task is asked for by its name, by an operand, and by options that are understood. -/
theorem ofTask_task {u : Understood} {name : String} {words : List String} {t : Task}
    {o : Options} (h : ofTask u (name :: words) = .task t o) :
  ∃ make u' operand, taskOf? name = some make
    ∧ understandTask u (taskUsage.acts words) = .ok u' ∧ u'.operand = some operand
    ∧ u'.hasExtra = false ∧ t = make operand ∧ o = u'.options
  := by
  unfold ofTask at h
  split at h
  · cases h
  · rename_i name' words' heq
    obtain ⟨rfl, rfl⟩ := List.cons.inj heq
    split at h
    · cases h
    · rename_i hr
      subst h
      exact absurd hr understandTask_error
    · rename_i make u' hmake hu'
      split at h
      · rename_i operand hoperand
        split_ifs at h with hextra
        cases h
        exact ⟨make, u', operand, hmake, hu', hoperand, by simpa using hextra, rfl, rfl⟩
      · cases h

/-- Behind the name of a task the words are left to the task. -/
theorem ofWords_task {name : String} {words : List String} {t : Task} {o : Options}
    (hname : name ≠ "--") (hplain : mainUsage.word? name.toList = some .plain)
    (h : ofWords (name :: words) = .task t o) :
  ofTask {} (name :: words) = .task t o
  := by
  unfold ofWords Usage.acts at h
  split at h
  · rename_i ws hws
    have hwords := Usage.classify_words hws
    unfold Usage.classify at hws
    simp only [hname, ite_false, hplain, Option.bind_eq_bind, Option.bind_some,
      Option.bind_eq_some_iff, Option.some.injEq] at hws
    obtain ⟨rest, hrest, rfl⟩ := hws
    rw [List.map_cons] at hwords
    have hacts : mainUsage.actsOf true ((name, .plain) :: rest)
        = [.operand (name :: rest.map Prod.fst)] := by
      unfold Usage.actsOf
      rfl
    rw [hacts, hwords] at h
    exact h
  · cases h

/-! ### Formatting into a file -/

/-- The switch in front of the path of the file that is written. -/
def outputSwitch : Switch TaskKey :=
  { key := .output, names := ["--output", "-o"], takesValue := true }

/-- A switch with a value takes the next word, unless that one is more than a plain word. -/
theorem actsOf_output {output : String} {kind : Word TaskKey} {pending : Bool}
    (h : .refused ∉ taskUsage.actsOf pending
      [("--output", .switch outputSwitch []), (output, kind)]) :
  taskUsage.actsOf pending [("--output", .switch outputSwitch []), (output, kind)]
    = [.set .output (some output)]
  := by
  cases kind with
  | plain => rfl
  | _ => exact absurd List.mem_cons_self h

theorem classify_output {output : String} {ws : List (String × Word TaskKey)}
    (h : taskUsage.classify ["--output", output] = some ws) :
  ∃ kind, ws = [("--output", .switch outputSwitch []), (output, kind)]
  := by
  have hswitch : taskUsage.word? "--output".toList = some (.switch outputSwitch []) := rfl
  have hname : "--output" ≠ "--" := by decide
  unfold Usage.classify at h
  simp only [hname, ite_false, hswitch, Option.bind_eq_bind, Option.bind_some,
    Option.bind_eq_some_iff, Option.some.injEq] at h
  obtain ⟨rest, hrest, rfl⟩ := h
  obtain ⟨kind, others, rfl⟩ : ∃ kind others, rest = (output, kind) :: others := by
    have hwords := Usage.classify_words hrest
    cases rest with
    | nil => cases hwords
    | cons first others => exact ⟨first.2, others, by rw [← (List.cons.inj hwords).1]⟩
  have hlength := congrArg List.length (Usage.classify_words hrest)
  obtain rfl : others = [] := by simpa using hlength
  exact ⟨kind, rfl⟩

/-- Switches are no operands, and none of them takes the switch behind them for a value. -/
theorem operand_notMem_switch {path output : String} {s : Switch TaskKey} {tail : List Char}
    {kind : Word TaskKey}
    (h : .refused ∉ taskUsage.actsOf true
      [(path, .switch s tail), ("--output", .switch outputSwitch []), (output, kind)])
    (words : List String) :
  .operand words ∉ taskUsage.actsOf true
    [(path, .switch s tail), ("--output", .switch outputSwitch []), (output, kind)]
  := by
  unfold Usage.actsOf at h ⊢
  cases hcluster : taskUsage.cluster? s tail with
  | none =>
      simp only [hcluster] at h
      exact absurd List.mem_cons_self h
  | some found =>
      obtain ⟨acts, key⟩ := found
      cases key with
      | none =>
          simp only [hcluster, List.mem_append, not_or] at h ⊢
          rw [actsOf_output h.2]
          exact ⟨Usage.operand_notMem_cluster hcluster words, by simp⟩
      | some key =>
          simp only [hcluster] at h
          exact absurd List.mem_cons_self h

/-- The words of a task that is done with a file are understood only if they are its operand and the
path of the file. -/
theorem acts_output {path output : String} {u : Understood}
    (h : understandTask {} (taskUsage.acts [path, "--output", output]) = .ok u)
    (hextra : u.hasExtra = false) (hoperand : u.operand ≠ none) :
  taskUsage.acts [path, "--output", output] = [.operand [path], .set .output (some output)]
  := by
  obtain ⟨hrefused, hnoExtra, hnoOperand⟩ := understandTask_ok h
  have hextra : .extra ∉ taskUsage.acts [path, "--output", output] := by
    intro hmem
    rw [hnoExtra (.inr hmem)] at hextra
    cases hextra
  have hoperand : ¬ ∀ words, .operand words ∉ taskUsage.acts [path, "--output", output] :=
    fun hnone => hoperand (hnoOperand hnone)
  unfold Usage.acts at *
  cases hclass : taskUsage.classify [path, "--output", output] with
  | none =>
      rw [hclass] at hrefused
      exact absurd List.mem_cons_self hrefused
  | some ws =>
      rw [hclass] at hrefused hextra hoperand
      dsimp only at hrefused hextra hoperand ⊢
      unfold Usage.classify at hclass
      split_ifs at hclass with hpath
      · -- behind a separator the switch is an operand
        cases hclass
        exact absurd (List.mem_cons_of_mem _ List.mem_cons_self) hextra
      · simp only [Option.bind_eq_bind, Option.bind_eq_some_iff, Option.some.injEq] at hclass
        obtain ⟨kind, hkind, rest, hrest, rfl⟩ := hclass
        obtain ⟨kind', rfl⟩ := classify_output hrest
        cases kind with
        | plain =>
            have hacts : taskUsage.actsOf true ((path, .plain)
                  :: [("--output", .switch outputSwitch []), (output, kind')])
                = .operand [path] :: taskUsage.actsOf false
                  [("--output", .switch outputSwitch []), (output, kind')] := rfl
            rw [hacts, List.mem_cons, not_or] at hrefused
            rw [hacts, actsOf_output hrefused.2]
        | separator => exact absurd hkind (Usage.word?_ne_separator _ _)
        | unknown => exact absurd (List.mem_cons_self : Act.extra ∈ Act.extra :: _) hextra
        | switch s tail => exact absurd (operand_notMem_switch hrefused) hoperand

/-- A document is formatted into a file only if the two paths are taken as they are. -/
theorem ofWords_format {path output : String} {t : Task} {o : Options}
    (h : ofWords ["format", path, "--output", output] = .task t o) :
  t = .format path ∧ o = { output := some output }
  := by
  have htask := ofWords_task (by decide) rfl h
  obtain ⟨make, u, operand, hmake, hu, hoperand, hextra, rfl, rfl⟩ := ofTask_task htask
  obtain rfl : Task.format = make := Option.some.inj hmake
  rw [acts_output hu hextra (by simp [hoperand])] at hu
  cases hu
  cases hoperand
  exact ⟨rfl, rfl⟩

end Request

end Command

end XmlDraft
