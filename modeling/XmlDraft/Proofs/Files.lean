import XmlDraft.Proofs.CommandLine
import XmlDraft.Proofs.Found

/-!
# Files that are written

A file that is written holds what was written into it: the folders on the path that leads to it are
not the file itself, so that the path leads to the same place afterwards.  Main statement: a
document that is formatted into a file without a failure is the one that was read, and the file
holds its octets.
-/

namespace XmlDraft

namespace Storage

variable {s s' : Storage} {place : List String} {octets : List UInt8}

theorem entry?_put_self (s : Storage) (hplace : place ≠ []) (e : Stored) :
  Storage.entry? (s.put place e) place = some e
  := by
  unfold entry? put
  rw [if_neg hplace, List.lookup_cons_self]

theorem entry?_put_ne (s : Storage) {other : List String} (hother : other ≠ place) (e : Stored) :
  Storage.entry? (s.put place e) other = s.entry? other
  := by
  have hlookup (entries : List (List String × Stored)) :
      (entries.filter fun x => decide (x.1 ≠ place)).lookup other = entries.lookup other := by
    induction entries with
    | nil => rfl
    | cons x entries ih =>
        by_cases hx : x.1 = place
        · have hbeq : (other == x.1) = false := by simpa [hx] using hother
          rw [List.filter_cons_of_neg (by simpa using hx), ih, List.lookup_cons, hbeq]
        · rw [List.filter_cons_of_pos (by simpa using hx), List.lookup_cons, List.lookup_cons, ih]
  have hbeq : (other == place) = false := by simpa using hother
  unfold entry? put
  split_ifs
  · rfl
  · rw [List.lookup_cons, hbeq, hlookup]

/-- Names lead to the same place when a file is written where no folder stands. -/
theorem walk_put {folder target names : List String} (e : Stored)
    (hplace : s.entry? place ≠ some .folder) (h : s.walk folder names = .ok target) :
  (s.put place e).walk folder names = .ok target
  := by
  induction names generalizing folder with
  | nil => exact h
  | cons name names ih =>
      unfold walk at h ⊢
      split at h
      · cases h
      · cases h
      · rename_i hfolder
        have hne : folder ≠ place := by
          rintro rfl
          exact hplace hfolder
        rw [entry?_put_ne s hne, hfolder]
        dsimp only at h ⊢
        split_ifs at h ⊢
        · exact ih h
        · exact ih h

/-- A path leads to the same place when a file is written where no folder stands. -/
theorem place_put {p : FilePath} {target : List String} (e : Stored)
    (hplace : s.entry? place ≠ some .folder) (h : s.place p = .ok target) :
  (s.put place e).place p = .ok target
  := by
  unfold Storage.place at h ⊢
  split_ifs at h ⊢
  · exact walk_put e hplace h
  · exact walk_put e hplace h

/-- A file holds what was written into it. -/
theorem read_write {p : FilePath} (h : s.write p octets = .ok s') :
  s'.read p = .ok octets
  := by
  obtain ⟨place, hlocate, h⟩ := Reading.bind_ok h
  have hput : s.entry? place ≠ some .folder ∧ s' = s.put place (.file octets) := by
    split at h
    · cases h
    · rename_i hfolder
      exact ⟨hfolder, (Except.ok.inj h).symm⟩
  obtain ⟨hfolder, rfl⟩ := hput
  have hplace : place ≠ [] := by
    rintro rfl
    exact hfolder rfl
  have hagain : (s.put place (.file octets)).locate p = .ok place := by
    unfold locate at hlocate ⊢
    split_ifs at hlocate ⊢ with hnull
    rw [place_put _ hfolder (Reading.mapError_ok hlocate)]
    rfl
  rw [read, hagain]
  simp only [bind, Except.bind, entry?_put_self s hplace]

end Storage

namespace Command

/-! ### Status zero -/

/-- The status with which a program ends, if it ends with one. -/
def Ending.status? : Ending → Option Nat
  | .status n => some n
  | _ => none

theorem Ending.of_status? {e : Ending} {n : Nat} (h : e.status? = some n) :
  e = .status n
  := by
  cases e with
  | status k => rw [Option.some.inj h]
  | _ => cases h

theorem Report.ofFailure_ending (s : Storage) (t : Task) (threshold : Option Log.Level)
    (records : List Log.Record) (f : Failure) :
  (Report.ofFailure s t threshold records f).ending ≠ .status 0
  := by
  unfold Report.ofFailure
  dsimp only
  split
  · simp
  · split_ifs <;> simp

/-- Only a task ends with status zero. -/
theorem Request.run_zero {w : Surroundings} {r : Request} (h : (r.run w).ending = .status 0) :
  ∃ t o, r = .task t o
  := by
  cases r with
  | task t o => exact ⟨t, o, rfl⟩
  | _ => cases h

/-- A task ends with status zero only if it was prepared and delivered. -/
theorem Task.run_zero {w : Surroundings} {o : Options} {t : Task}
    (h : (t.run w o).ending = .status 0) :
  ∃ b product, (t.prepare w o).outcome = .ok b ∧ (deliver w.storage o b).outcome = .ok product
    ∧ (t.run w o).storage = (deliver w.storage o b).storage
  := by
  unfold run at h ⊢
  split at h
  · exact absurd h (Report.ofFailure_ending _ _ _ _ _)
  · cases h
  · dsimp only at h ⊢
    split at h
    · exact absurd h (Report.ofFailure_ending _ _ _ _ _)
    · rename_i b hb
      split at h
      · exact absurd h (Report.ofFailure_ending _ _ _ _ _)
      · rename_i product hproduct
        refine ⟨b, product, hb, hproduct, ?_⟩
        cases product <;> rfl

/-- Without options on the settings the builder is made with those by default. -/
theorem Task.prepare_plain (w : Surroundings) (t : Task) (output : Option String) :
  (t.prepare w { output := output }).outcome = (t.builder w {}).2
  := rfl

/-- A builder that is delivered into a file is written into it. -/
theorem deliver_written {s : Storage} {o : Options} {b : Builder} {name : String}
    {product : Product} (ho : o.output = some name)
    (h : (deliver s o b).outcome = .ok product) :
  ∃ s' octets, (b.renderOctets o.indent).2 = .ok octets
    ∧ Storage.write s' (.ofText name) octets = .ok (deliver s o b).storage
  := by
  unfold deliver at h ⊢
  rw [ho] at h ⊢
  dsimp only at h ⊢
  split at h
  · cases h
  · rename_i s' _ hfolders
    split at h
    · cases h
    · rename_i b' octets hoctets
      split at h
      · cases h
      · rename_i s'' hwrite
        exact ⟨s', octets, by rw [hoctets], hwrite⟩

/-- A document that is formatted into a file without a failure was read, and the file holds its
octets. -/
theorem format_written {w : Surroundings} {path output : String}
    (h : (run w ["format", path, "--output", output]).ending = .status 0) :
  ∃ b octets, ((Task.format path).builder w {}).2 = .ok b ∧ (b.renderOctets false).2 = .ok octets
    ∧ (run w ["format", path, "--output", output]).storage.read (.ofText output) = .ok octets
  := by
  unfold run at h ⊢
  obtain ⟨t, o, hrequest⟩ := Request.run_zero h
  obtain ⟨rfl, rfl⟩ := Request.ofWords_format hrequest
  rw [hrequest] at h ⊢
  obtain ⟨b, product, hprepare, hdeliver, hstorage⟩ := Task.run_zero h
  rw [Task.prepare_plain] at hprepare
  obtain ⟨s, octets, hoctets, hwrite⟩ := deliver_written rfl hdeliver
  refine ⟨b, octets, hprepare, hoctets, ?_⟩
  rw [Request.run, hstorage]
  exact Storage.read_write hwrite

/-- The builder of a file is that of the octets which it holds. -/
theorem builder_format_iff {w : Surroundings} {name : String} {b : Builder} :
  ((Task.format name).builder w {}).2 = .ok b
    ↔ ∃ octets, w.storage.read (.ofText name) = .ok octets
      ∧ (Builder.ofSource {} (.octets octets)).2 = .ok b
  := by
  unfold Task.builder
  dsimp only
  constructor
  · intro h
    split at h
    · cases h
    · rename_i octets hread
      exact ⟨octets, hread, Reading.mapError_ok h⟩
  · rintro ⟨octets, hread, hb⟩
    simp only [hread, hb, Except.mapError]

end Command

end XmlDraft
